import ElektronPool.Lib.Subject

namespace ElektronPool.Model

open Lib

abbrev ObjectLiteral (V : Type) := List (String × V)

def spread {V : Type} (a b : ObjectLiteral V) : ObjectLiteral V :=
  a.map (fun field ↦ (field.1, (b.lookup field.1).getD field.2)) ++
    b.filter fun field ↦ (a.lookup field.1).isNone

/-- An entry of the queue; the subjects are numbered as the calls of `insert`. -/
structure QueuedInsert (V : Type) where
  result : ℕ
  partialClient : ObjectLiteral V

/-- A call of `insert`: its subject, whether it still awaits it, and what its promise
has been settled with, first to last. -/
structure InsertCall (V E S : Type) where
  partialClient : ObjectLiteral V
  result : S
  awaiting : Bool := true
  settled : List (Except (Failure E) (ObjectLiteral V)) := []

/-- A call of `repository.insert` on the rows of a copy of the queue, and its answer. -/
structure InsertBatch (V E : Type) where
  rows : List (QueuedInsert V)
  answer : Option (Except E (List (ObjectLiteral V))) := none

/-- `ClientService` as far as it queues its inserts. -/
structure ClientQueue (V E S : Type) where
  insertQueue : List (QueuedInsert V) := []
  calls : List (InsertCall V E S) := []
  batches : List (InsertBatch V E) := []

inductive ClientQueue.Event (V E : Type)
  | insert (partialClient : ObjectLiteral V)
  | insertClients
  | answer (batch : ℕ) (answer : Except E (List (ObjectLiteral V)))
  | resume (call : ℕ)

def InsertBatch.Fits {V E : Type} (batch : InsertBatch V E) :
    Except E (List (ObjectLiteral V)) → Prop
  | .ok generatedMaps => generatedMaps.length = batch.rows.length
  | .error _ => True

instance {V E : Type} (batch : InsertBatch V E) :
    (answer : Except E (List (ObjectLiteral V))) → Decidable (batch.Fits answer)
  | .ok _ => inferInstanceAs (Decidable (_ = _))
  | .error _ => inferInstanceAs (Decidable True)

namespace ClientQueue

variable {V E S : Type} (rx : Subjects S E (ObjectLiteral V)) (service : ClientQueue V E S)

def insert (partialClient : ObjectLiteral V) : ClientQueue V E S :=
  { service with
    calls := service.calls ++ [{ partialClient, result := rx.firstValueFrom rx.new }]
    insertQueue := service.insertQueue ++ [⟨service.calls.length, partialClient⟩] }

def insertClients : ClientQueue V E S :=
  let queueCopy := service.insertQueue
  let emptied := { service with insertQueue := [] }
  if queueCopy.length = 0 then emptied
  else { emptied with batches := service.batches ++ [{ rows := queueCopy }] }

/-- The loop over a copy of the queue, as what it does to each subject. -/
def forEach (calls : List (InsertCall V E S)) (deliveries : List (ℕ × (S → S))) :
    List (InsertCall V E S) :=
  deliveries.foldl
    (fun calls delivery ↦ calls.modify delivery.1 fun call ↦
      { call with result := delivery.2 call.result })
    calls

def deliveries (queueCopy : List (QueuedInsert V)) :
    Except E (List (ObjectLiteral V)) → List (ℕ × (S → S))
  | .ok generatedMaps => (queueCopy.zip generatedMaps).map fun row ↦
      (row.1.result, fun result ↦ rx.complete (rx.next result row.2))
  | .error e => queueCopy.map fun c ↦ (c.result, fun result ↦ rx.error result e)

def step (service : ClientQueue V E S) : Event V E → Option (ClientQueue V E S)
  | .insert partialClient => some (service.insert rx partialClient)
  | .insertClients => some service.insertClients
  | .answer k answer =>
    service.batches[k]?.bind fun batch ↦
      if batch.answer.isNone ∧ batch.Fits answer then
        some { service with
          batches := service.batches.set k { batch with answer := some answer }
          calls := forEach service.calls (deliveries rx batch.rows answer) }
      else none
  | .resume i =>
    service.calls[i]?.bind fun call ↦
      if call.awaiting then
        (rx.promise call.result).map fun generatedMap ↦
          { service with
            calls := service.calls.set i
              { call with
                awaiting := false
                settled := call.settled ++ [generatedMap.map (spread call.partialClient)] } }
      else none

end ClientQueue

end ElektronPool.Model
