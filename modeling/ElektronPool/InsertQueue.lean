import ElektronPool.Lib.Runs
import ElektronPool.Model.ClientQueue
import Mathlib

namespace ElektronPool.InsertQueue

open Lib Lib.Runs Model Model.ClientQueue

variable {V E S : Type} {rx : Subjects S E (ObjectLiteral V)}

def outcome (batch : InsertBatch V E) (j : ℕ) : Option (Except (Failure E) (ObjectLiteral V)) :=
  match batch.answer with
  | none => none
  | some (.ok generatedMaps) => generatedMaps[j]?.map .ok
  | some (.error e) => some (.error (.error e))

def entries (service : ClientQueue V E S) : List (QueuedInsert V) :=
  service.batches.flatMap InsertBatch.rows ++ service.insertQueue

/-- A call that has heard this much and has told its caller at most that. -/
structure Follows (rx : Subjects S E (ObjectLiteral V)) (call : InsertCall V E S)
    (heard : Option (Except (Failure E) (ObjectLiteral V))) : Prop where
  result : call.result = rx.heard heard
  settled : call.awaiting = true ∧ call.settled = [] ∨ call.awaiting = false ∧
    ∃ generatedMap, heard = some generatedMap ∧
      call.settled = [generatedMap.map (spread call.partialClient)]

structure Inv (rx : Subjects S E (ObjectLiteral V)) (service : ClientQueue V E S) : Prop where
  order : entries service = (service.calls.map InsertCall.partialClient).mapIdx QueuedInsert.mk
  fits : ∀ batch ∈ service.batches, ∀ answer, batch.answer = some answer → batch.Fits answer
  waiting : ∀ c ∈ service.insertQueue, ∀ call, service.calls[c.result]? = some call →
    Follows rx call none
  passed : ∀ (k : ℕ) batch, service.batches[k]? = some batch → ∀ (j : ℕ) c, batch.rows[j]? = some c →
    ∀ call, service.calls[c.result]? = some call → Follows rx call (outcome batch j)

section Deliveries

variable {calls : List (InsertCall V E S)} {i : ℕ}
  {f : S → S}
  {ds : List (ℕ × (S → S))}

theorem map_set_of_eq {α β : Type*} {l : List α} {i : ℕ} {a b : α} {f : α → β}
    (h : l[i]? = some a) (heq : f b = f a) : (l.set i b).map f = l.map f := by
  apply List.ext_getElem?
  intro n
  rw [List.getElem?_map, List.getElem?_map]
  by_cases hn : i = n
  · subst hn
    rw [List.getElem?_set_self (List.getElem?_eq_some_iff.mp h).1, h, Option.map_some,
      Option.map_some, heq]
  · rw [List.getElem?_set_ne hn]

theorem map_partialClient_forEach :
    (forEach calls ds).map InsertCall.partialClient = calls.map InsertCall.partialClient := by
  induction ds generalizing calls with
  | nil => rfl
  | cons d ds ih =>
    rw [forEach, List.foldl_cons, ← forEach, ih]
    apply List.ext_getElem?
    intro i
    rw [List.getElem?_map, List.getElem?_map, List.getElem?_modify]
    rcases calls[i]? with _ | call
    · rfl
    · by_cases hi : d.1 = i <;> simp [hi]

theorem getElem?_forEach_of_not_mem (h : i ∉ ds.map Prod.fst) :
    (forEach calls ds)[i]? = calls[i]? := by
  induction ds generalizing calls with
  | nil => rfl
  | cons d ds ih =>
    rw [List.map_cons, List.mem_cons, not_or] at h
    rw [forEach, List.foldl_cons, ← forEach, ih h.2, List.getElem?_modify_ne _ _ (Ne.symm h.1)]

theorem getElem?_forEach (hnodup : (ds.map Prod.fst).Nodup) (h : (i, f) ∈ ds) :
    (forEach calls ds)[i]? = calls[i]?.map fun call ↦ { call with result := f call.result } := by
  induction ds generalizing calls with
  | nil => cases h
  | cons d ds ih =>
    rw [List.map_cons, List.nodup_cons] at hnodup
    rw [forEach, List.foldl_cons, ← forEach]
    rcases List.mem_cons.mp h with rfl | h
    · rw [getElem?_forEach_of_not_mem hnodup.1, List.getElem?_modify_eq, Option.map_eq_map]
    · have hne : d.1 ≠ i := by
        rintro rfl
        exact hnodup.1 (List.mem_map.mpr ⟨_, h, rfl⟩)
      rw [ih hnodup.2 h, List.getElem?_modify_ne _ _ hne]

variable {rows : List (QueuedInsert V)} {batch : InsertBatch V E}
  {answer : Except E (List (ObjectLiteral V))} {c : QueuedInsert V} {j : ℕ}

theorem keys_deliveries (hfits : batch.Fits answer) :
    (deliveries rx batch.rows answer).map Prod.fst = batch.rows.map QueuedInsert.result := by
  cases answer with
  | ok generatedMaps =>
    have hzip : (batch.rows.zip generatedMaps).map Prod.fst = batch.rows :=
      List.map_fst_zip (le_of_eq (Eq.symm hfits))
    calc (deliveries rx batch.rows (.ok generatedMaps)).map Prod.fst
        = ((batch.rows.zip generatedMaps).map Prod.fst).map QueuedInsert.result := by
          rw [deliveries, List.map_map, List.map_map]
          rfl
      _ = batch.rows.map QueuedInsert.result := by rw [hzip]
  | error e => simp only [deliveries, List.map_map]; rfl

theorem getElem?_forEach_of_ne (hfits : batch.Fits answer)
    (hne : ∀ c' ∈ batch.rows, c.result ≠ c'.result) :
    (forEach calls (deliveries rx batch.rows answer))[c.result]? = calls[c.result]? := by
  refine getElem?_forEach_of_not_mem ?_
  rw [keys_deliveries hfits]
  intro hmem
  obtain ⟨c', hc', heq⟩ := List.mem_map.mp hmem
  exact hne c' hc' heq.symm

/-- The answer gives each row of the batch its own result. -/
theorem exists_delivery (hfits : batch.Fits answer) (hc : batch.rows[j]? = some c) :
    ∃ f, (c.result, f) ∈ deliveries rx batch.rows answer ∧
      f (rx.heard none) = rx.heard (outcome { batch with answer := some answer } j) := by
  cases answer with
  | ok generatedMaps =>
    obtain ⟨hj, hrow⟩ := List.getElem?_eq_some_iff.mp hc
    have hj' : j < generatedMaps.length := by
      rw [show generatedMaps.length = batch.rows.length from hfits]
      exact hj
    have hmap : generatedMaps[j]? = some generatedMaps[j] := List.getElem?_eq_getElem hj'
    refine ⟨fun result ↦ rx.complete (rx.next result generatedMaps[j]), ?_, ?_⟩
    · refine List.mem_map.mpr ⟨(c, generatedMaps[j]), ?_, rfl⟩
      exact List.mem_of_getElem? (i := j) (List.getElem?_zip_eq_some.mpr ⟨hc, hmap⟩)
    · simp only [outcome, hmap, Option.map_some]
      rfl
  | error e =>
    refine ⟨fun result ↦ rx.error result e, ?_, ?_⟩
    · exact List.mem_map.mpr ⟨c, List.mem_of_getElem? hc, rfl⟩
    · rfl

end Deliveries

section Steps

variable {service service' : ClientQueue V E S} {k : ℕ} {batch batch' : InsertBatch V E}
  {c c' : QueuedInsert V}

theorem Inv.init : Inv rx ({} : ClientQueue V E S) where
  order := rfl
  fits _ h := absurd h List.not_mem_nil
  waiting _ h := absurd h List.not_mem_nil
  passed k batch h := by simp at h

theorem Inv.owner (h : Inv rx service) (hc : c ∈ entries service) :
    ∃ call, service.calls[c.result]? = some call ∧ call.partialClient = c.partialClient := by
  rw [h.order, List.mem_mapIdx] at hc
  obtain ⟨i, hi, rfl⟩ := hc
  rw [List.length_map] at hi
  exact ⟨service.calls[i], List.getElem?_eq_getElem hi, (List.getElem_map _).symm⟩

theorem Inv.nodup (h : Inv rx service) : ((entries service).map QueuedInsert.result).Nodup := by
  have hresults : (entries service).map QueuedInsert.result = List.range service.calls.length := by
    rw [h.order]
    exact List.ext_getElem (by simp) fun i h₁ h₂ ↦ by simp
  rw [hresults]
  exact List.nodup_range

theorem Inv.ne_of_queued (h : Inv rx service) (hbatch : batch ∈ service.batches)
    (hc : c ∈ batch.rows) (hc' : c' ∈ service.insertQueue) : c'.result ≠ c.result := by
  have hnodup := h.nodup
  rw [entries, List.map_append, List.nodup_append] at hnodup
  intro heq
  refine hnodup.2.2 c.result ?_ c'.result (List.mem_map_of_mem hc') heq.symm
  exact List.mem_map_of_mem (List.mem_flatMap.mpr ⟨batch, hbatch, hc⟩)

theorem Inv.nodup_rows (h : Inv rx service) :
    (∀ batch ∈ service.batches, (batch.rows.map QueuedInsert.result).Nodup) ∧
      service.batches.Pairwise fun batch batch' ↦
        (batch.rows.map QueuedInsert.result).Disjoint (batch'.rows.map QueuedInsert.result) := by
  have hnodup := h.nodup
  rw [entries, List.map_append, List.nodup_append, List.map_flatMap, List.nodup_flatMap] at hnodup
  exact hnodup.1

theorem Inv.ne_of_batches {k' : ℕ} (h : Inv rx service) (hbatch : service.batches[k]? = some batch)
    (hbatch' : service.batches[k']? = some batch') (hne : k' ≠ k) (hc : c ∈ batch.rows)
    (hc' : c' ∈ batch'.rows) : c'.result ≠ c.result := by
  obtain ⟨hk, rfl⟩ := List.getElem?_eq_some_iff.mp hbatch
  obtain ⟨hk', rfl⟩ := List.getElem?_eq_some_iff.mp hbatch'
  have hpairwise := List.pairwise_iff_getElem.mp h.nodup_rows.2
  intro heq
  rcases hne.lt_or_gt with hlt | hlt
  · exact hpairwise k' k hk' hk hlt (List.mem_map_of_mem hc') (heq ▸ List.mem_map_of_mem hc)
  · exact hpairwise k k' hk hk' hlt (List.mem_map_of_mem hc) (heq ▸ List.mem_map_of_mem hc')

theorem mem_entries {j : ℕ} (hbatch : service.batches[k]? = some batch)
    (hc : batch.rows[j]? = some c) : c ∈ entries service :=
  List.mem_append_left _
    (List.mem_flatMap.mpr ⟨batch, List.mem_of_getElem? hbatch, List.mem_of_getElem? hc⟩)

theorem Inv.calls_insert {partialClient : ObjectLiteral V} (h : Inv rx service)
    (hc : c ∈ entries service) :
    (service.insert rx partialClient).calls[c.result]? = service.calls[c.result]? := by
  obtain ⟨call, hcall, -⟩ := h.owner hc
  exact List.getElem?_append_left (List.getElem?_eq_some_iff.mp hcall).1

theorem Inv.insert (h : Inv rx service) (partialClient : ObjectLiteral V) :
    Inv rx (service.insert rx partialClient) where
  order := by
    have hentries : entries (service.insert rx partialClient) =
        entries service ++ [⟨service.calls.length, partialClient⟩] := by
      simp only [entries, ClientQueue.insert, List.append_assoc]
    rw [hentries, h.order, ClientQueue.insert, List.map_append, List.map_singleton,
      List.mapIdx_concat, List.length_map]
  fits := h.fits
  waiting c hc call hcall := by
    rcases List.mem_append.mp hc with hc | hc
    · exact h.waiting c hc call (by rwa [← h.calls_insert (List.mem_append_right _ hc)])
    · obtain rfl := List.mem_singleton.mp hc
      simp only [ClientQueue.insert, List.getElem?_concat_length, Option.some.injEq] at hcall
      subst hcall
      exact ⟨rfl, .inl ⟨rfl, rfl⟩⟩
  passed k batch hbatch j c hc call hcall := by
    have hmem : c ∈ entries service := mem_entries hbatch hc
    exact h.passed k batch hbatch j c hc call (by rwa [← h.calls_insert hmem])

theorem Inv.insertClients (h : Inv rx service) : Inv rx service.insertClients := by
  rw [ClientQueue.insertClients]
  split_ifs with hempty
  · have hnil : service.insertQueue = [] := List.eq_nil_of_length_eq_zero hempty
    rwa [← hnil]
  · constructor
    · rw [← h.order]
      simp [entries]
    · intro batch hbatch answer hanswer
      rcases List.mem_append.mp hbatch with hbatch | hbatch
      · exact h.fits batch hbatch answer hanswer
      · obtain rfl := List.mem_singleton.mp hbatch
        cases hanswer
    · exact fun _ hc ↦ absurd hc List.not_mem_nil
    · intro k batch hbatch j c hc call hcall
      by_cases hk : k < service.batches.length
      · rw [List.getElem?_append_left hk] at hbatch
        exact h.passed k batch hbatch j c hc call hcall
      · rw [List.getElem?_append_right (not_lt.mp hk), List.getElem?_singleton] at hbatch
        split_ifs at hbatch
        obtain rfl := Option.some.inj hbatch
        exact h.waiting c (List.mem_of_getElem? hc) call hcall

theorem Follows.heard {call : InsertCall V E S}
    {f : S → S}
    {heard : Option (Except (Failure E) (ObjectLiteral V))} (h : Follows rx call none)
    (hf : f (rx.heard none) = rx.heard heard) :
    Follows rx { call with result := f call.result } heard where
  result := by rw [h.result, hf]
  settled := by
    rcases h.settled with hawaits | ⟨-, _, hnone, -⟩
    · exact .inl hawaits
    · cases hnone

theorem Inv.answer {answer : Except E (List (ObjectLiteral V))} (h : Inv rx service)
    (hstep : step rx service (.answer k answer) = some service') : Inv rx service' := by
  simp only [step, Option.bind_eq_some_iff, Option.ite_none_right_eq_some, Option.some.injEq,
    Option.isNone_iff_eq_none] at hstep
  obtain ⟨batch, hbatch, ⟨hnone, hfits⟩, rfl⟩ := hstep
  have hmem := List.mem_of_getElem? hbatch
  have hrows : (service.batches.set k { batch with answer := some answer }).flatMap
      InsertBatch.rows = service.batches.flatMap InsertBatch.rows := by
    have hset := map_set_of_eq (b := { batch with answer := some answer })
      (f := InsertBatch.rows) hbatch rfl
    rw [List.flatMap_def, hset, List.flatMap_def]
  constructor
  · rw [map_partialClient_forEach, ← h.order]
    exact congrArg (· ++ _) hrows
  · intro batch' hbatch' answer' hanswer
    rcases List.mem_or_eq_of_mem_set hbatch' with hbatch' | rfl
    · exact h.fits batch' hbatch' answer' hanswer
    · exact Option.some.inj hanswer ▸ hfits
  · intro c hc call hcall
    have hother : ∀ c' ∈ batch.rows, c.result ≠ c'.result := fun c' hc' ↦
      h.ne_of_queued hmem hc' hc
    rw [getElem?_forEach_of_ne hfits hother] at hcall
    exact h.waiting c hc call hcall
  · intro k' batch' hbatch' j c hc call hcall
    by_cases hk : k' = k
    · subst hk
      rw [List.getElem?_set_self (List.getElem?_eq_some_iff.mp hbatch).1] at hbatch'
      obtain rfl := Option.some.inj hbatch'
      obtain ⟨f, hf, hheard⟩ := exists_delivery hfits hc
      have hnodup := h.nodup_rows.1 batch hmem
      rw [← keys_deliveries hfits] at hnodup
      rw [getElem?_forEach hnodup hf, Option.map_eq_some_iff] at hcall
      obtain ⟨call, hcall, rfl⟩ := hcall
      have hfollows := h.passed k' batch hbatch j c hc call hcall
      rw [outcome, hnone] at hfollows
      exact hfollows.heard hheard
    · rw [List.getElem?_set_ne (Ne.symm hk)] at hbatch'
      have hother : ∀ c' ∈ batch.rows, c.result ≠ c'.result := fun c' hc' ↦
        h.ne_of_batches hbatch hbatch' hk hc' (List.mem_of_getElem? hc)
      rw [getElem?_forEach_of_ne hfits hother] at hcall
      exact h.passed k' batch' hbatch' j c hc call hcall

theorem Inv.resume {i : ℕ} (hrx : rx.Lawful) (h : Inv rx service)
    (hstep : step rx service (.resume i) = some service') : Inv rx service' := by
  simp only [step, Option.bind_eq_some_iff, Option.ite_none_right_eq_some,
    Option.map_eq_some_iff] at hstep
  obtain ⟨call, hcall, hawaits, generatedMap, hpromise, rfl⟩ := hstep
  let resumed : InsertCall V E S := { call with
    awaiting := false
    settled := call.settled ++ [generatedMap.map (spread call.partialClient)] }
  have hfollows (number : ℕ) (heard : Option (Except (Failure E) (ObjectLiteral V)))
      (hold : ∀ call, service.calls[number]? = some call → Follows rx call heard)
      (call' : InsertCall V E S) (hcall' : (service.calls.set i resumed)[number]? = some call') :
      Follows rx call' heard := by
    by_cases hi : number = i
    · subst hi
      rw [List.getElem?_set_self (List.getElem?_eq_some_iff.mp hcall).1] at hcall'
      obtain rfl := Option.some.inj hcall'
      have hcalled := hold call hcall
      have hheard : heard = some generatedMap := by
        rw [hcalled.result, hrx.promise_heard] at hpromise
        exact hpromise
      refine ⟨hcalled.result, .inr ⟨rfl, generatedMap, hheard, ?_⟩⟩
      rcases hcalled.settled with ⟨-, hnil⟩ | ⟨hresumed, -⟩
      · simp [resumed, hnil]
      · simp [hresumed] at hawaits
    · rw [List.getElem?_set_ne (Ne.symm hi)] at hcall'
      exact hold call' hcall'
  constructor
  · have hclients : (service.calls.set i resumed).map InsertCall.partialClient =
        service.calls.map InsertCall.partialClient := map_set_of_eq hcall rfl
    exact h.order.trans (congrArg _ hclients.symm)
  · exact h.fits
  · exact fun c hc ↦ hfollows c.result none (h.waiting c hc)
  · exact fun k batch hbatch j c hc ↦
      hfollows c.result (outcome batch j) (h.passed k batch hbatch j c hc)

theorem inv_of_reachable (hrx : rx.Lawful)
    (h : Reachable (step rx) ({} : ClientQueue V E S) service) : Inv rx service := by
  apply h.invariant Inv.init
  intro service e service' hinv _ hstep
  cases e with
  | insert partialClient => exact Option.some.inj hstep ▸ hinv.insert partialClient
  | insertClients => exact Option.some.inj hstep ▸ hinv.insertClients
  | answer k answer => exact hinv.answer hstep
  | resume i => exact hinv.resume hrx hstep

end Steps

/-- The promise of a call is settled with this and nothing else, or is about to be. -/
def SettlesWith (rx : Subjects S E (ObjectLiteral V)) (service : ClientQueue V E S) (i : ℕ)
    (result : Except (Failure E) (ObjectLiteral V)) : Prop :=
  ∃ call, service.calls[i]? = some call ∧
    (call.settled = [result] ∨ call.settled = [] ∧
      ∃ service', step rx service (.resume i) = some service' ∧
        ∃ call', service'.calls[i]? = some call' ∧ call'.settled = [result])

def Unsettled (service : ClientQueue V E S) (i : ℕ) : Prop :=
  ∃ call, service.calls[i]? = some call ∧ call.settled = []

def Answers (rx : Subjects S E (ObjectLiteral V)) (service : ClientQueue V E S)
    (batch : InsertBatch V E) (j : ℕ) (c : QueuedInsert V) : Prop :=
  match batch.answer with
  | none => Unsettled service c.result
  | some (.ok generatedMaps) => ∃ generatedMap, generatedMaps[j]? = some generatedMap ∧
      SettlesWith rx service c.result (.ok (spread c.partialClient generatedMap))
  | some (.error e) => SettlesWith rx service c.result (.error (.error e))

/-- No insert is lost or made twice: the batches in turn and then the queue are the
calls in turn, each with its own partial client; a run takes all of the queue; a
call in the queue is not settled; and one in a batch as its row is answered. -/
structure Exact (rx : Subjects S E (ObjectLiteral V)) (service : ClientQueue V E S) : Prop where
  order : service.batches.flatMap InsertBatch.rows ++ service.insertQueue =
    (service.calls.map InsertCall.partialClient).mapIdx QueuedInsert.mk
  drains : ∀ service', step rx service .insertClients = some service' →
    service'.insertQueue = [] ∧ service'.batches.flatMap InsertBatch.rows =
      service.batches.flatMap InsertBatch.rows ++ service.insertQueue
  queued : ∀ c ∈ service.insertQueue, Unsettled service c.result
  passed : ∀ batch ∈ service.batches, ∀ (j : ℕ) c, batch.rows[j]? = some c →
    Answers rx service batch j c

section Runs

variable {service : ClientQueue V E S} {call : InsertCall V E S} {i : ℕ}

theorem Follows.unsettled (h : Follows rx call none) : call.settled = [] := by
  rcases h.settled with ⟨-, hnil⟩ | ⟨-, _, hnone, -⟩
  · exact hnil
  · cases hnone

theorem Follows.settlesWith {generatedMap : Except (Failure E) (ObjectLiteral V)}
    (hrx : rx.Lawful) (h : Follows rx call (some generatedMap))
    (hcall : service.calls[i]? = some call) :
    SettlesWith rx service i (generatedMap.map (spread call.partialClient)) := by
  refine ⟨call, hcall, ?_⟩
  rcases h.settled with ⟨hawaits, hnil⟩ | ⟨-, _, hheard, hsettled⟩
  · right
    have hpromise : rx.promise call.result = some generatedMap := by
      rw [h.result, hrx.promise_heard]
    let resumed : InsertCall V E S := { call with
      awaiting := false
      settled := call.settled ++ [generatedMap.map (spread call.partialClient)] }
    refine ⟨hnil, { service with calls := service.calls.set i resumed }, ?_, resumed,
      List.getElem?_set_self (List.getElem?_eq_some_iff.mp hcall).1, ?_⟩
    · simp [step, hcall, hawaits, hpromise, resumed]
    · simp [resumed, hnil]
  · left
    obtain rfl := Option.some.inj hheard
    exact hsettled

theorem exact_of_reachable (rx : Subjects S E (ObjectLiteral V)) (hrx : rx.Lawful)
    (service : ClientQueue V E S) (h : Reachable (step rx) ({} : ClientQueue V E S) service) :
    Exact rx service := by
  have hinv := inv_of_reachable hrx h
  constructor
  · exact hinv.order
  · intro service' hstep
    obtain rfl := Option.some.inj hstep
    rw [ClientQueue.insertClients]
    split_ifs with hempty
    · have hnil : service.insertQueue = [] := List.eq_nil_of_length_eq_zero hempty
      simp [hnil]
    · simp
  · intro c hc
    obtain ⟨call, hcall, -⟩ := hinv.owner (List.mem_append_right _ hc)
    exact ⟨call, hcall, (hinv.waiting c hc call hcall).unsettled⟩
  · intro batch hbatch j c hc
    obtain ⟨k, hk⟩ := List.getElem?_of_mem hbatch
    obtain ⟨call, hcall, hpartial⟩ := hinv.owner (mem_entries hk hc)
    have hfollows := hinv.passed k batch hk j c hc call hcall
    rw [outcome] at hfollows
    rw [Answers]
    split
    case _ hanswer =>
      rw [hanswer] at hfollows
      exact ⟨call, hcall, hfollows.unsettled⟩
    case _ generatedMaps hanswer =>
      have hlength : generatedMaps.length = batch.rows.length := hinv.fits batch hbatch _ hanswer
      have hj : j < generatedMaps.length := hlength ▸ (List.getElem?_eq_some_iff.mp hc).1
      have hmap : generatedMaps[j]? = some generatedMaps[j] := List.getElem?_eq_getElem hj
      rw [hanswer] at hfollows
      simp only [hmap, Option.map_some] at hfollows
      exact ⟨_, hmap, hpartial ▸ hfollows.settlesWith hrx hcall⟩
    case _ e hanswer =>
      rw [hanswer] at hfollows
      exact hfollows.settlesWith hrx hcall

theorem exact_of_reachable_overlap :
    ∃ service : ClientQueue String String (Subject String (ObjectLiteral String)),
      Reachable (step rxjs) {} service ∧ service.batches.length = 2 ∧ Exact rxjs service := by
  obtain ⟨service, hreach, hbatches⟩ := Reachable.of_any (step rxjs)
    ({} : ClientQueue String String (Subject String (ObjectLiteral String)))
    [.insert [("sessionId", "a")], .insert [("sessionId", "b")], .insertClients,
      .insert [("sessionId", "c")], .insertClients, .answer 1 (.error "SQLITE_BUSY"),
      .answer 0 (.ok [[("updatedAt", "1")], [("updatedAt", "2")]]), .resume 1, .resume 2]
    (fun service ↦ service.batches.length = 2) (by decide +kernel)
  exact ⟨service, hreach, of_decide_eq_true hbatches,
    exact_of_reachable rxjs lawful_rxjs service hreach⟩

end Runs

end ElektronPool.InsertQueue
