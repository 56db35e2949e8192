import ElektronPool.Lib.ReadThrough
import ElektronPool.Model.Charts

namespace ElektronPool.Model.AppController

open Lib Lib.ReadThrough

variable {σ ε C : Type*}

/-- The requests of the chart of the site, over a system that has the table of statistics: the
chart is kept for ten minutes. -/
def infoChart (cacheManager : Cache C (List ChartPoint)) (stepWorld : σ → ε → Option σ)
    (clock : σ → ℕ) (rows : σ → List ClientStatisticsEntity) :
    State σ C (List ChartPoint) → Event ε → Option (State σ C (List ChartPoint)) :=
  ReadThrough.step cacheManager stepWorld clock
    (fun w now ↦ ClientStatisticsService.getChartDataForSite (rows w) now) (10 * 60 * 1000)

end ElektronPool.Model.AppController
