import ElektronPool.Model.Pool

namespace ElektronPool.Model

/-- A row of the client table; `deleted` when its `deletedAt` is not null. -/
structure ClientRow where
  address : String
  clientName : String
  sessionId : String
  deleted : Bool
deriving DecidableEq

namespace ClientRow

def hasKey (row : ClientRow) (address clientName sessionId : String) : Bool :=
  row.address = address && row.clientName = clientName && row.sessionId = sessionId

end ClientRow

namespace ClientService

/-- The key columns are the primary key: a second row for them is refused. -/
def insert (rows : List ClientRow) (partialClient : ClientEntity) : Option (List ClientRow) :=
  if rows.any fun row ↦
      row.hasKey partialClient.address partialClient.clientName partialClient.sessionId then none
  else
    some (rows ++ [⟨partialClient.address, partialClient.clientName, partialClient.sessionId, false⟩])

def heartbeat (rows : List ClientRow) (address clientName sessionId : String) : List ClientRow :=
  rows.map fun row ↦
    if row.hasKey address clientName sessionId then { row with deleted := false } else row

def delete (rows : List ClientRow) (sessionId : String) : List ClientRow :=
  rows.map fun row ↦ if row.sessionId = sessionId then { row with deleted := true } else row

end ClientService

structure AddressSettingsEntity where
  address : String
  bestDifficulty : Difficulty := 0
  bestDifficultyUserAgent : Option String := none
deriving DecidableEq

namespace AddressSettingsService

/-- `INSERT OR IGNORE` of a row with the defaults. -/
def insertOrIgnore (rows : List AddressSettingsEntity) (address : String) :
    List AddressSettingsEntity :=
  if rows.any fun row ↦ row.address = address then rows
  else rows ++ [({ address := address } : AddressSettingsEntity)]

def updateBestDifficultyIfHigher (rows : List AddressSettingsEntity) (address : String)
    (bestDifficulty : Difficulty) (bestDifficultyUserAgent : String) :
    List AddressSettingsEntity :=
  (insertOrIgnore rows address).map fun row ↦
    if row.address = address ∧ row.bestDifficulty < bestDifficulty then
      { row with bestDifficulty, bestDifficultyUserAgent := some bestDifficultyUserAgent }
    else row

def resetBestDifficultyAndShares (rows : List AddressSettingsEntity) :
    List AddressSettingsEntity := rows.map fun row ↦ { row with bestDifficulty := 0 }

/-- The best difficulty of an address; an address without a row has none. -/
def bestDifficulty (rows : List AddressSettingsEntity) (address : String) : Difficulty :=
  (rows.find? fun row ↦ row.address = address).elim 0 AddressSettingsEntity.bestDifficulty

theorem bestDifficulty_insertOrIgnore (rows : List AddressSettingsEntity)
    (address address' : String) :
    bestDifficulty (insertOrIgnore rows address) address' = bestDifficulty rows address' := by
  rw [insertOrIgnore]
  split
  · rfl
  · rw [bestDifficulty, bestDifficulty, List.find?_append]
    cases rows.find? fun row ↦ row.address = address' with
    | some row => rfl
    | none =>
      rw [Option.none_or, List.find?_singleton]
      split <;> rfl

theorem exists_insertOrIgnore (rows : List AddressSettingsEntity) (address : String) :
    ∃ row, (insertOrIgnore rows address).find? (fun row ↦ row.address = address) = some row := by
  rw [← Option.isSome_iff_exists, List.find?_isSome, insertOrIgnore]
  split
  case isTrue hany => exact List.any_eq_true.mp hany
  case isFalse => exact ⟨_, List.mem_append_right rows List.mem_cons_self, decide_eq_true rfl⟩

theorem find?_updateBestDifficultyIfHigher (rows : List AddressSettingsEntity)
    (address address' : String) (d : Difficulty) (userAgent : String) :
    (updateBestDifficultyIfHigher rows address d userAgent).find? (fun row ↦ row.address = address') =
      ((insertOrIgnore rows address).find? fun row ↦ row.address = address').map fun row ↦
        if row.address = address ∧ row.bestDifficulty < d then
          { row with bestDifficulty := d, bestDifficultyUserAgent := some userAgent }
        else row := by
  rw [updateBestDifficultyIfHigher, List.find?_map]
  congr 2
  funext row
  simp only [Function.comp_apply]
  split <;> rfl

theorem le_updateBestDifficultyIfHigher (rows : List AddressSettingsEntity)
    (address address' : String) (d : Difficulty) (userAgent : String) :
    bestDifficulty rows address' ≤
      bestDifficulty (updateBestDifficultyIfHigher rows address d userAgent) address' := by
  rw [← bestDifficulty_insertOrIgnore rows address, bestDifficulty, bestDifficulty,
    find?_updateBestDifficultyIfHigher]
  cases (insertOrIgnore rows address).find? fun row ↦ row.address = address' with
  | none => exact le_rfl
  | some row =>
    rw [Option.map_some]
    split
    case isTrue h => exact h.2.le
    case isFalse => exact le_rfl

theorem updateBestDifficultyIfHigher_ge (rows : List AddressSettingsEntity) (address : String)
    (d : Difficulty) (userAgent : String) :
    d ≤ bestDifficulty (updateBestDifficultyIfHigher rows address d userAgent) address := by
  obtain ⟨row, hrow⟩ := exists_insertOrIgnore rows address
  have haddress : row.address = address := by simpa using List.find?_some hrow
  rw [bestDifficulty, find?_updateBestDifficultyIfHigher, hrow, Option.map_some]
  split
  case isTrue => exact le_rfl
  case isFalse h => exact not_lt.mp fun hlt ↦ h ⟨haddress, hlt⟩

end AddressSettingsService

/-- The call made last for a share, of those that `select` picks. -/
def lastCall {α : Type} (history : List Entry) (share : Share) (select : Call → Option α) :
    Option α :=
  history.findSome? fun
    | .call _ (some s) call => if s = share then select call else none
    | _ => none

section LastCall

variable {α : Type} {history : List Entry} {share : Share} {call : Call} {x : α}

theorem mem_of_lastCall {select : Call → Option α} (h : lastCall history share select = some x) :
    ∃ id call, Entry.call id (some share) call ∈ history ∧ select call = some x := by
  obtain ⟨entry, hmem, hentry⟩ := List.exists_of_findSome?_eq_some h
  split at hentry
  case h_1 id s call =>
    obtain ⟨rfl, hselect⟩ := Option.ite_none_right_eq_some.mp hentry
    exact ⟨id, call, hmem, hselect⟩
  case h_2 => cases hentry

theorem exists_lastCall (select : Call → Option α) {id : SessionId}
    (hmem : Entry.call id (some share) call ∈ history) (hselect : select call = some x) :
    ∃ y, lastCall history share select = some y := by
  rw [← Option.isSome_iff_exists, lastCall, List.findSome?_isSome_iff]
  exact ⟨_, hmem, by simp [hselect]⟩

end LastCall

end ElektronPool.Model
