import ElektronPool.Payout
import ElektronPool.Shares.Ledger
import ElektronPool.Work.Delivery

namespace ElektronPool.Shares

open Lib Lib.Runs Model Model.View Work Payout

variable {cfg : Config} {v v' w : View} {e : SessionEvent} {share : Share} {call : Call}
  {id : SessionId} {partialClient : ClientEntity} {address : String} {entries : List Entry}
  {added : List Task} {P : String → Prop}

theorem Entered.known_of_new (h : Entered cfg v e v')
    (hnew : Entry.call id (some share) call ∈ v'.history)
    (hold : Entry.call id (some share) call ∉ v.history) :
    id = v.self ∧ ∀ a, recordAddress call = some a → Known v a := by
  have hfollowed {s : Share} {pending : ℕ} {entries : List Entry} {added : List Task}
      (hfollows : Follows v s pending entries added)
      (hmem : Entry.call id (some share) call ∈ entries) :
      id = v.self ∧ ∀ a, recordAddress call = some a → Known v a := by
    obtain hentry | ⟨call, hentry, hsanctioned⟩ := hfollows.records _ hmem <;> cases hentry
    exact ⟨rfl, hsanctioned.address⟩
  cases h with
  | nothing hbooked => exact absurd (hbooked.entered_of_new rfl hnew hold) List.not_mem_nil
  | evaluated submission s added he hshare hbooked hadded =>
    exact absurd (hbooked.entered_of_new rfl hnew hold) (by simp)
  | answered s rest entries added hpopped hreplied hbooked hanswers =>
    rcases List.mem_append.mp (hbooked.entered_of_new rfl hnew hold) with hmem | hmem
    · cases hanswers with
      | share _ hfollows => exact hfollowed hfollows hmem
      | block block blockHex rest _ _ _ hentries hadded =>
        rw [hentries] at hmem
        cases List.mem_singleton.mp hmem
        exact ⟨rfl, fun a ha ↦ by cases ha⟩
      | threw _ _ hentries _ =>
        rw [hentries] at hmem
        cases hmem
    · cases List.mem_singleton.mp hmem
  | continued s wait rest entries added hpopped hbooked hfollows =>
    exact hfollowed hfollows (hbooked.entered_of_new rfl hnew hold)

theorem Entered.insert_of_new (h : Entered cfg v e v')
    (hnew : Task.insertClient partialClient ∈ v'.session.tasks)
    (hold : Task.insertClient partialClient ∉ v.session.tasks) :
    Known v partialClient.address := by
  have hfollowed {s : Share} {pending : ℕ} {entries : List Entry} {added : List Task}
      (hfollows : Follows v s pending entries added)
      (hmem : Task.insertClient partialClient ∈ added) : Known v partialClient.address := by
    obtain ⟨wait, rest, htask⟩ | ⟨p, htask, hknown⟩ := hfollows.tokens _ hmem <;> cases htask
    exact hknown
  cases h with
  | nothing hbooked => exact absurd (hbooked.added_of_new rfl hnew hold) List.not_mem_nil
  | evaluated submission s added he hshare hbooked hadded =>
    have hmem := hbooked.added_of_new rfl hnew hold
    obtain rfl | ⟨-, rest', rfl⟩ := hadded <;> simp at hmem
  | answered s rest entries added hpopped hreplied hbooked hanswers =>
    have hmem := hbooked.added_of_new rfl hnew hold
    cases hanswers with
    | share _ hfollows => exact hfollowed hfollows hmem
    | block block blockHex rest _ _ _ _ hadded => simp [hadded] at hmem
    | threw _ _ _ hadded => simp [hadded] at hmem
  | continued s wait rest entries added hpopped hbooked hfollows =>
    exact hfollowed hfollows (hbooked.added_of_new rfl hnew hold)

theorem Deal.known (h : Deal cfg v e v') (hknown : Known v' address) :
    Known v address ∨ (∃ message, authorizes cfg v e = some message ∧ message.address = address) ∨
      ∃ partialClient, Task.insertClient partialClient ∈ v.session.tasks ∧
        partialClient.address = address := by
  have hpop := popped_pop v e
  have hsame {w : View} {entries : List Entry} {added : List Task} (h : Adds w v' entries added)
      (hauthorization : w.session.clientAuthorization = v.session.clientAuthorization)
      (hentity : w.session.entity = v.session.entity) : Known v address := by
    have hknown := hknown.after h
    rwa [Known, hauthorization, hentity] at hknown
  cases h with
  | calm h => exact .inl (hsame h hpop.clientAuthorization hpop.entity)
  | authorized message he h =>
    rcases hknown.after h with hmessage | hentity
    · exact .inr (.inl ⟨message, he, Option.some.inj hmessage⟩)
    · exact .inl (.inr (hpop.entity ▸ hentity))
  | cleared h => exact .inl (hsame h hpop.clientAuthorization hpop.entity)
  | refused _ _ h => exact .inl (hsame h hpop.clientAuthorization hpop.entity)
  | evaluated _ _ _ _ _ h => exact .inl (hsame h hpop.clientAuthorization hpop.entity)
  | answered _ _ _ _ _ _ h => exact .inl (hsame h hpop.clientAuthorization hpop.entity)
  | continued _ _ _ _ _ _ h => exact .inl (hsame h hpop.clientAuthorization hpop.entity)
  | inserted partialClient updatedAt hpopped h =>
    rcases hknown.after h with hmessage | hentity
    · exact .inl (.inl (hpop.clientAuthorization ▸ hmessage))
    · exact .inr (.inr ⟨partialClient, mem_of_popped hpopped, Option.some.inj hentity⟩)

end ElektronPool.Shares
