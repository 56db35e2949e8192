import ElektronPool.Model.Pool

namespace ElektronPool.Shares

open Lib Lib.JavaScript Model Model.View

def isRecord : Entry → Bool
  | .evaluated _ | .acknowledged _ | .credited _ | .call _ (some _) _ => true
  | _ => false

/-- The tasks that are about an accepted share or the row of the session. -/
def isToken : Task → Bool
  | .write (.accepted _) _ | .share _ _ _ | .insertClient _ => true
  | _ => false

/-- What the handling of an event adds to the records and to the tasks about
shares; the rest of what shares depend on is as before. -/
structure Adds (v v' : View) (entries : List Entry) (added : List Task) : Prop where
  now : v'.now = v.now
  self : v'.self = v.self
  clientAuthorization : v'.session.clientAuthorization = v.session.clientAuthorization
  address : v'.session.entity.map ClientEntity.address = v.session.entity.map ClientEntity.address
  hashes : v'.session.miningSubmissionHashes = v.session.miningSubmissionHashes
  records : v'.history.filter isRecord = entries ++ v.history.filter isRecord
  tokens : v'.session.tasks.filter isToken = v.session.tasks.filter isToken ++ added
  grows : v.history <:+ v'.history

abbrev Calm (v v' : View) : Prop := Adds v v' [] []

namespace Adds

variable {v v' v'' : View} {entries entries' : List Entry} {added added' : List Task}

theorem refl (v : View) : Calm v v :=
  ⟨rfl, rfl, rfl, rfl, rfl, rfl, (List.append_nil _).symm, List.suffix_refl _⟩

theorem trans (h : Adds v v' entries added) (h' : Adds v' v'' entries' added') :
    Adds v v'' (entries' ++ entries) (added ++ added') where
  now := h'.now.trans h.now
  self := h'.self.trans h.self
  clientAuthorization := h'.clientAuthorization.trans h.clientAuthorization
  address := h'.address.trans h.address
  hashes := h'.hashes.trans h.hashes
  records := by rw [h'.records, h.records, List.append_assoc]
  tokens := by rw [h'.tokens, h.tokens, List.append_assoc]
  grows := h.grows.trans h'.grows

theorem after (h : Adds v' v'' entries added) (hcalm : Calm v v') : Adds v v'' entries added := by
  simpa only [List.append_nil, List.nil_append] using hcalm.trans h

theorem andThen (h : Adds v v' entries added) (hcalm : Calm v' v'') : Adds v v'' entries added := by
  simpa only [List.append_nil, List.nil_append] using h.trans hcalm

theorem update {f : Session → Session}
    (hauth : (f v.session).clientAuthorization = v.session.clientAuthorization)
    (haddress : (f v.session).entity.map ClientEntity.address =
      v.session.entity.map ClientEntity.address)
    (hhashes : (f v.session).miningSubmissionHashes = v.session.miningSubmissionHashes)
    (htasks : (f v.session).tasks = v.session.tasks) : Calm v (v.update f) :=
  ⟨rfl, rfl, hauth, haddress, hhashes, rfl, by rw [View.update, htasks, List.append_nil],
    List.suffix_refl _⟩

theorem log {entry : Entry} (h : isRecord entry = false) : Calm v (v.log entry) :=
  ⟨rfl, rfl, rfl, rfl, rfl, by simp [View.log, h], (List.append_nil _).symm,
    List.suffix_cons _ _⟩

theorem record {entry : Entry} (h : isRecord entry = true) : Adds v (v.log entry) [entry] [] :=
  ⟨rfl, rfl, rfl, rfl, rfl, by simp [View.log, h], (List.append_nil _).symm,
    List.suffix_cons _ _⟩

theorem suspend {task : Task} (h : isToken task = false) : Calm v (v.suspend task) :=
  ⟨rfl, rfl, rfl, rfl, rfl, rfl, by simp [View.suspend, View.update, h], List.suffix_refl _⟩

theorem token {task : Task} (h : isToken task = true) : Adds v (v.suspend task) [] [task] :=
  ⟨rfl, rfl, rfl, rfl, rfl, rfl, by simp [View.suspend, View.update, h], List.suffix_refl _⟩

theorem crash : Calm v { v with crashed := true } :=
  ⟨rfl, rfl, rfl, rfl, rfl, rfl, (List.append_nil _).symm, List.suffix_refl _⟩

theorem nextLines (rest : List Line) : Calm v (v.nextLines rest) := by
  rw [View.nextLines]
  split
  · exact refl v
  · exact suspend rfl

theorem send (message : Message) : Calm v (v.send message) := update rfl rfl rfl rfl

theorem write (message : Message) {after : AfterWrite} (rest : List Line)
    (h : isToken (.write after rest) = false) : Calm v (v.write message after rest) := by
  rw [View.write]
  split
  · exact nextLines rest
  · exact (suspend h).after (send message)

theorem endSocket : Calm v v.endSocket := update rfl rfl rfl rfl

theorem throw (rest : List Line) : Calm v (v.throw rest) := (nextLines rest).after endSocket

theorem destroy : Calm v v.destroy := by
  rw [View.destroy]
  split
  · exact refl v
  · split
    · exact (log rfl).after (update rfl rfl rfl rfl)
    · exact update rfl rfl rfl rfl

theorem closeSocket : Calm v v.closeSocket :=
  (update rfl rfl rfl rfl).after (destroy.after (update rfl rfl rfl rfl))

section Messages

variable (cfg : Config) (rest : List Line)

theorem startWork : Calm v (v.startWork rest) := (nextLines rest).after (update rfl rfl rfl rfl)

theorem initStratum (subscription : SubscriptionMessage) :
    Calm v (v.initStratum cfg rest subscription) := by
  have hinit : Calm v (v.update fun s ↦ { s with stratumInitialized := true }) :=
    update rfl rfl rfl rfl
  simp only [View.initStratum]
  refine after ?_ hinit
  split
  · exact (nextLines rest).after closeSocket
  · split
    · exact (write _ rest rfl).after (update rfl rfl rfl rfl)
    · exact (startWork rest).after (update rfl rfl rfl rfl)

theorem finishMessage : Calm v (v.finishMessage cfg rest) := by
  rw [View.finishMessage]
  split
  · split
    · exact nextLines rest
    · exact initStratum cfg rest _
  · exact nextLines rest

theorem subscribe (message : SubscriptionMessage) : Calm v (v.subscribe cfg rest message) := by
  simp only [View.subscribe]
  split
  · exact (nextLines rest).after closeSocket
  · refine (write _ rest rfl).after (after (update rfl rfl rfl rfl) ?_)
    split
    · exact update rfl rfl rfl rfl
    · exact refl v

theorem suggestDifficulty (suggestedDifficulty : ℚ) :
    Calm v (v.suggestDifficulty rest suggestedDifficulty) :=
  (write _ rest rfl).after (update rfl rfl rfl rfl)

theorem invalid (method : eRequestMethod) (id : String) : Calm v (v.invalid rest method id) := by
  cases method <;> exact write _ rest rfl

end Messages

section Work

variable (cfg : Config)

theorem copyHashRate : Calm v v.copyHashRate := by
  rw [View.copyHashRate]
  split
  · exact update rfl rfl rfl rfl
  · exact refl v

theorem addJob (sent : SentJob) : Calm v (v.addJob sent) :=
  ⟨rfl, rfl, rfl, rfl, rfl, rfl, (List.append_nil _).symm, List.suffix_cons _ _⟩

theorem sendNewMiningJob (jobTemplate : IJobTemplate) :
    Calm v (v.sendNewMiningJob cfg jobTemplate).1 := by
  have hcopy := copyHashRate (v := v)
  simp only [View.sendNewMiningJob]
  generalize v.copyHashRate = w at hcopy
  split
  · exact refl v
  · split
    · have hcount : Calm v (w.countJob (w.rotationState jobTemplate)) :=
        (update rfl rfl rfl rfl).after hcopy
      generalize w.countJob _ = u at hcount
      split
      · exact hcount
      · exact (write _ [] rfl).after ((addJob _).after hcount)
    · exact hcopy

theorem catchRefresh (purpose : Purpose) (r : View × Bool) : Calm r.1 (catchRefresh purpose r) := by
  obtain ⟨v, _ | _⟩ := r
  · exact refl v
  · cases purpose with
    | newBlock => exact endSocket
    | refreshTimer => exact refl v
    | vardiff => exact crash

theorem refreshMiningJob (purpose : Purpose) : Calm v (v.refreshMiningJob purpose) := by
  rw [View.refreshMiningJob]
  split
  · exact refl v
  · split
    · exact suspend rfl
    · exact refl v

theorem resendMiningJob (jobTemplate : IJobTemplate) :
    Calm v (v.resendMiningJob cfg jobTemplate).1 :=
  (sendNewMiningJob cfg _).after (update rfl rfl rfl rfl)

theorem refreshLocalMiningWork : Calm v (v.refreshLocalMiningWork cfg) := by
  simp only [View.refreshLocalMiningWork]
  split
  · exact refl v
  · split
    · exact refl v
    · split
      · exact refl v
      · exact sendNewMiningJob cfg _

theorem sendUnchecked (message : Message) : Calm v (v.sendUnchecked message) := by
  rw [View.sendUnchecked]
  split
  · exact refl v
  · exact send message

theorem checkDifficulty : Calm v (v.checkDifficulty cfg) := by
  simp only [View.checkDifficulty]
  split
  · exact crash
  · split
    · exact crash
    · exact refl v
    case h_3 targetDiff _ =>
      split
      · exact refl v
      · have hannounced : Calm v ((v.update fun s ↦
            { s with sessionDifficulty := targetDiff }).sendUnchecked (.setDifficulty targetDiff)) :=
          (sendUnchecked _).after (update rfl rfl rfl rfl)
        generalize (v.update _).sendUnchecked _ = w at hannounced
        split
        · exact (catchRefresh .vardiff _).after ((resendMiningJob cfg _).after hannounced)
        · exact (suspend rfl).after hannounced
        · exact crash.after hannounced

end Work

end Adds

end ElektronPool.Shares
