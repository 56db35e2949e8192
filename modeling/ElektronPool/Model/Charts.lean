import ElektronPool.Lib.Calendar
import ElektronPool.Lib.Query
import ElektronPool.Model.ClientStatistics

namespace ElektronPool.Model

open Lib Lib.Query

structure ChartPoint where
  label : String
  data : Difficulty
deriving DecidableEq

namespace ClientStatisticsService

/-- `ROUND` of the database, which rounds half away from zero. -/
def round : Difficulty → Difficulty
  | ⊤ => ⊤
  | (x : ℚ) => ((if 0 ≤ x then (⌊x + 1 / 2⌋ : ℚ) else (⌈x - 1 / 2⌉ : ℚ) : ℚ) : Difficulty)

def afterYesterday (rows : List ClientStatisticsEntity) (now : ℕ) : List ClientStatisticsEntity :=
  rows.filter fun row ↦ (now : ℤ) - 24 * 60 * 60 * 1000 < row.time

/-- The rows of the query: the sums of the shares of each time, at most 144 of them. -/
def chartQuery (whereClause : WhereClause) (data : Difficulty → Difficulty)
    (rows : List ClientStatisticsEntity) (now : ℕ) : List (ℕ × Difficulty) :=
  ((groupSums ClientStatisticsEntity.time ClientStatisticsEntity.shares
    (afterYesterday (selected whereClause rows) now)).map fun group ↦
      (group.1, data (divide (group.2 * (4294967296 : ℚ)) 600))).take 144

/-- The points of the rows of a query but the last; nothing when a time is no
time of a date, which throws. -/
def chartPoints (result : List (ℕ × Difficulty)) : Option (List ChartPoint) :=
  (result.mapM fun res ↦ (Calendar.toISOString res.1).map fun label ↦ ⟨label, res.2⟩).map
    List.dropLast

def getChartDataForSite (rows : List ClientStatisticsEntity) (now : ℕ) : Option (List ChartPoint) :=
  chartPoints (chartQuery .pool round rows now)

def getChartDataForAddress (address : String) (rows : List ClientStatisticsEntity) (now : ℕ) :
    Option (List ChartPoint) :=
  chartPoints (chartQuery (.address address) id rows now)

def getChartDataForGroup (address clientName : String) (rows : List ClientStatisticsEntity)
    (now : ℕ) : Option (List ChartPoint) :=
  chartPoints (chartQuery (.group address clientName) id rows now)

def getChartDataForSession (address clientName sessionId : String)
    (rows : List ClientStatisticsEntity) (now : ℕ) : Option (List ChartPoint) :=
  chartPoints (chartQuery (.session address clientName sessionId) id rows now)

def deleteOldStatistics (rows : List ClientStatisticsEntity) (now : ℕ) :
    List ClientStatisticsEntity :=
  let oneDayAgo := (now : ℤ) - 24 * 60 * 60 * 1000
  rows.filter fun row ↦ !decide ((row.time : ℤ) < oneDayAgo)

end ClientStatisticsService

end ElektronPool.Model
