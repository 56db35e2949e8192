import ElektronPool.Shares.Passage

namespace ElektronPool.Shares

open Lib Lib.Runs Lib.JavaScript Model Model.View Work Talk

variable {cfg : Config} {v v' : View} {e : SessionEvent} {share : Share} {wait : ShareWait}
  {rest : List Line} {outcome : Outcome} {pool : Pool} {a a' : Account} {now n : ℕ}

def Copies (js : BitcoinJs) (share : Share) (block : Block Number) : Prop :=
  share.job.copyAndUpdateBlock js share.jobTemplate share.versionMask share.nonce share.timestamp =
    some block

def Copied (js : BitcoinJs) (a : Account) : Prop :=
  ∀ share block blockHex rest, Task.share share (.submitBlock block blockHex) rest ∈ a.tokens →
    Copies js share block

theorem Copied.push {js : BitcoinJs} {task : Task} (h : Copied js a)
    (htask : ∀ share block blockHex rest, task = .share share (.submitBlock block blockHex) rest →
      Copies js share block) : Copied js (a.push task) := by
  intro share block blockHex rest hmem
  rcases List.mem_append.mp hmem with hmem | hmem
  · exact h share block blockHex rest hmem
  · exact htask share block blockHex rest (List.mem_singleton.mp hmem).symm

theorem Copied.later {js : BitcoinJs} (h : Copied js a) (hstage : n < stage wait) :
    Copied js (a.push (.share share wait rest)) := by
  apply h.push
  intro _ _ _ _ htask
  cases htask
  exact absurd hstage (Nat.not_lt_zero n)

theorem Copied.pop {js : BitcoinJs} (h : Copied js (account v)) (e : SessionEvent) :
    Copied js (account (pop v e)) := by
  rw [account_pop]
  intro share block blockHex rest hmem
  exact h share block blockHex rest (List.filter_subset _ (pop_session_tasks v e) hmem)

theorem Copied.tail {js : BitcoinJs} (h : Copied js a) (htail : Tail cfg share n a a') :
    Copied js a' := by
  cases htail with
  | through _ _ _ heq => exact heq ▸ h
  | waits wait rest hstage heq => exact heq ▸ h.later hstage

theorem Copied.course {js : BitcoinJs} (h : Copied js a) (hcourse : Course cfg share now n a a') :
    Copied js a' := by
  cases hcourse with
  | waits wait rest hstage _ heq => exact heq ▸ h.later hstage
  | queued partialClient rest _ _ heq =>
    have hpending : Copied js { a with creatingEntity := some .pending } := h
    rw [heq]
    exact (hpending.push fun _ _ _ _ htask ↦ by cases htask).later (n := 0) (by decide)
  | suspended _ _ statistics' _ wait rest _ _ _ heq =>
    have hbooked : Copied js ((a.book (.credited share)).keep statistics') := h
    rw [heq]
    exact hbooked.push fun _ _ _ _ htask ↦ by cases htask
  | credited _ _ statistics' _ _ _ htail =>
    have hbooked : Copied js ((a.book (.credited share)).keep statistics') := h
    exact hbooked.tail htail

theorem Copied.goes {js : BitcoinJs} (h : Copied js a)
    (hgoes : Goes cfg share now a a' wait outcome) : Copied js a' := by
  cases hgoes with
  | threw _ heq => exact heq ▸ h
  | course _ hcourse => exact h.course hcourse
  | moved _ _ _ _ statistics' _ rest _ _ heq =>
    have hkept : Copied js (a.keep statistics') := h
    exact heq ▸ hkept.push fun _ _ _ _ htask ↦ by cases htask
  | saved statistics _ _ htail =>
    have hkept : Copied js (a.keep { statistics with lastSave := some now }) := h
    exact hkept.tail htail
  | unsaved htail => exact h.tail htail
  | @beaten date htail =>
    have hbeaten : Copied js (a.beat date) := h
    exact hbeaten.tail htail
  | unbeaten htail => exact h.tail htail
  | raised _ _ _ rest heq =>
    have hraised : Copied js (a.raise (share.submissionDifficulty cfg.js)) := h
    rw [heq]
    exact hraised.push fun _ _ _ _ htask ↦ by cases htask
  | unraised heq => exact heq ▸ h
  | closed heq => exact heq ▸ h

theorem Copied.answers (h : Copied cfg.js (account v)) {entries : List Entry} {added : List Task}
    (hadds : Adds (Shares.pop v e) v' entries added)
    (hanswers : ∃ entries, Answers cfg (Shares.pop v e) share entries added)
    (hanswered : Answered cfg share now ((account (Shares.pop v e)).book (.acknowledged share))
      (account v')) : Copied cfg.js (account v') := by
  have hpop : Copied cfg.js ((account (Shares.pop v e)).book (.acknowledged share)) := h.pop e
  cases hanswered with
  | course hblock n hcourse => exact hpop.course hcourse
  | threw _ _ heq => exact heq ▸ hpop
  | block block blockHex rest hblock heq =>
    obtain ⟨entries', hanswers⟩ := hanswers
    cases hanswers with
    | share hnot _ => exact absurd hblock hnot
    | block block' blockHex' rest' _ hcopy _ _ hadded =>
      have htokens : v'.session.tasks.filter isToken = _ := hadds.tokens
      intro s b bh r hmem
      have hmem : Task.share s (.submitBlock b bh) r ∈ v'.session.tasks.filter isToken := hmem
      rw [htokens, List.mem_append, hadded, List.mem_singleton] at hmem
      rcases hmem with hmem | hmem
      · exact h.pop e s b bh r hmem
      · cases hmem
        exact hcopy
    | threw _ _ _ hadded =>
      have htokens : v'.session.tasks.filter isToken = _ := hadds.tokens
      intro s b bh r hmem
      have hmem : Task.share s (.submitBlock b bh) r ∈ v'.session.tasks.filter isToken := hmem
      rw [htokens, hadded, List.append_nil] at hmem
      exact h.pop e s b bh r hmem

theorem Copied.act (h : Copied cfg.js (account v)) (hpassage : Passage cfg v e v')
    (hact : v.act cfg e = some v') : Copied cfg.js (account v') := by
  have hpop := h.pop e
  cases hpassage with
  | same _ heq => exact heq ▸ hpop
  | subscribed _ _ _ _ heq => exact heq ▸ hpop
  | authorized _ _ _ _ heq => exact heq ▸ hpop
  | accepted share rest _ heq => exact heq ▸ hpop.push fun _ _ _ _ htask ↦ by cases htask
  | unanswered _ _ _ _ heq => exact heq ▸ hpop
  | answered share rest _ hreplied hanswered =>
    obtain ⟨entries, added, hadds, hanswers⟩ := answers_of_replied hreplied hact
    exact h.answers hadds ⟨entries, hanswers⟩ hanswered
  | continued _ _ _ _ _ _ _ hgoes => exact hpop.goes hgoes
  | inserted _ _ _ _ _ heq => exact heq ▸ hpop
  | rejected _ _ _ _ heq => exact heq ▸ hpop

theorem copied_kept : Kept cfg (fun v ↦ Ready v.session ∧ Enrolled (account v)) (fun _ _ ↦ True)
    fun v ↦ Copied cfg.js (account v) where
  tick _ _ h := h
  act _ _ _ hJ h _ hact := h.act (passage_of_act hJ.1 hJ.2 hact) hact
  other _ _ _ _ _ _ _ h _ _ _ := h

theorem copied_of_reachable (h : Reachable (Pool.step cfg) (Pool.start now) pool) (id : SessionId) :
    Copied cfg.js (account (pool.view id)) := by
  refine copied_kept.reach (fun _ hpool id ↦ ?_) (fun _ ↦ ?_) (reachable_of_reach h) id
  · exact ⟨ready_of_reachable hpool id, enrolled_of_reachable hpool id⟩
  · intro _ _ _ _ hmem
    cases hmem

end ElektronPool.Shares
