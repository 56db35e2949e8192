import ElektronPool.Lib.Runs
import ElektronPool.Model.BitcoinRpc

namespace ElektronPool.NewBlocks

open Lib Lib.Runs Lib.Multicast Model BitcoinRpcService

variable {S : Type} {rx : Multicast S IMiningInfo}

/-- What the node answered, and what became of it. -/
structure Record where
  answers : List IMiningInfo := []
  history : History IMiningInfo := {}

/-- The step of the stream that an event is, if it is one. -/
def streams (service : BitcoinRpcService S) :
    BitcoinRpcService.Event → Option (Multicast.Event IMiningInfo)
  | .poll => none
  | .answer reply =>
    ((getMiningInfo reply).filter fun miningInfo ↦ service.blockHeight < miningInfo.blocks).map .next
  | .subscribe => some .subscribe
  | .unsubscribe id => some (.unsubscribe id)

def answered : BitcoinRpcService.Event → Option IMiningInfo
  | .answer reply => getMiningInfo reply
  | _ => none

def Record.note (rx : Multicast S IMiningInfo) (record : Record) (service : BitcoinRpcService S)
    (e : BitcoinRpcService.Event) : Record where
  answers := record.answers ++ (answered e).toList
  history :=
    (streams service e).elim record.history (record.history.note (rx.count service.newBlock))

/-- The heights that are announced rise, and the last is the highest the node has
answered; each listener hears the last announcement before it came and every one since,
so no height twice. -/
structure Announces (rx : Multicast S IMiningInfo) (record : Record) (service : BitcoinRpcService S) :
    Prop where
  rising : record.history.emitted.Pairwise fun earlier later ↦ earlier.blocks < later.blocks
  answered : ∀ miningInfo ∈ record.history.emitted, miningInfo ∈ record.answers
  highest : ∀ miningInfo ∈ record.answers, miningInfo.blocks ≤ service.blockHeight
  last : service.blockHeight = (record.history.emitted.getLast?.map IMiningInfo.blocks).getD 0
  heard : ∀ id, id < rx.count service.newBlock →
    rx.heard service.newBlock id = record.history.due id ∧
      (rx.heard service.newBlock id).Pairwise fun earlier later ↦ earlier.blocks < later.blocks

variable {service service' : BitcoinRpcService S} {record : Record}

/-- What the answers so far have made of the height and the announcements. -/
structure Heights (answers emitted : List IMiningInfo) (blockHeight : ℕ) : Prop where
  rising : emitted.Pairwise fun earlier later ↦ earlier.blocks < later.blocks
  answered : ∀ miningInfo ∈ emitted, miningInfo ∈ answers
  bounded : ∀ miningInfo ∈ emitted, miningInfo.blocks ≤ blockHeight
  highest : ∀ miningInfo ∈ answers, miningInfo.blocks ≤ blockHeight
  last : blockHeight = (emitted.getLast?.map IMiningInfo.blocks).getD 0

abbrev Record.Heights (record : Record) (service : BitcoinRpcService S) : Prop :=
  NewBlocks.Heights record.answers record.history.emitted service.blockHeight

theorem heights_answer (h : record.Heights service) (reply : RpcReply IMiningInfo) :
    (record.note rx service (.answer reply)).Heights
      (service.pollMiningInfo rx (getMiningInfo reply)) := by
  unfold pollMiningInfo
  split
  case h_1 hinfo =>
    simp only [Record.note, NewBlocks.answered, streams, hinfo, Option.toList_none,
      List.append_nil, Option.filter_none, Option.map_none, Option.elim_none]
    exact h
  case h_2 miningInfo hinfo =>
    have hanswered : ∀ miningInfo' ∈ record.history.emitted,
        miningInfo' ∈ record.answers ++ [miningInfo] :=
      fun miningInfo' hmem ↦ List.mem_append_left _ (h.answered miningInfo' hmem)
    split
    case isTrue hlt =>
      have hnote : record.note rx service (.answer reply) =
          { answers := record.answers ++ [miningInfo]
            history := record.history.note (rx.count service.newBlock) (.next miningInfo) } := by
        simp [Record.note, NewBlocks.answered, streams, hinfo, Option.filter, hlt]
      rw [hnote]
      refine ⟨?_, ?_, ?_, ?_, ?_⟩
      · rw [History.note, List.pairwise_append]
        refine ⟨h.rising, List.pairwise_singleton _ _, ?_⟩
        intro earlier hmem later hlater
        rw [List.mem_singleton.mp hlater]
        exact (h.bounded earlier hmem).trans_lt hlt
      · intro miningInfo' hmem
        rcases List.mem_append.mp hmem with hmem | hmem
        · exact hanswered miningInfo' hmem
        · exact List.mem_append_right _ hmem
      · intro miningInfo' hmem
        rcases List.mem_append.mp hmem with hmem | hmem
        · exact (h.bounded miningInfo' hmem).trans hlt.le
        · rw [List.mem_singleton.mp hmem]
      · intro miningInfo' hmem
        rcases List.mem_append.mp hmem with hmem | hmem
        · exact (h.highest miningInfo' hmem).trans hlt.le
        · rw [List.mem_singleton.mp hmem]
      · simp [History.note]
    case isFalse hle =>
      have hnote : record.note rx service (.answer reply) =
          { answers := record.answers ++ [miningInfo], history := record.history } := by
        simp [Record.note, NewBlocks.answered, streams, hinfo, Option.filter, hle]
      rw [hnote]
      refine ⟨h.rising, hanswered, h.bounded, ?_, h.last⟩
      intro miningInfo' hmem
      rcases List.mem_append.mp hmem with hmem | hmem
      · exact h.highest miningInfo' hmem
      · rw [List.mem_singleton.mp hmem]
        omega

theorem follows_answer (hrx : rx.Lawful) (h : Follows rx service.newBlock record.history)
    (reply : RpcReply IMiningInfo) :
    Follows rx (service.pollMiningInfo rx (getMiningInfo reply)).newBlock
      (record.note rx service (.answer reply)).history := by
  unfold pollMiningInfo
  split
  case h_1 hinfo =>
    simp only [Record.note, streams, hinfo, Option.filter_none, Option.map_none, Option.elim_none]
    exact h
  case h_2 miningInfo hinfo =>
    split
    case isTrue hlt =>
      simp only [Record.note, streams, hinfo, Option.filter, hlt, decide_true, if_true,
        Option.map_some, Option.elim_some]
      exact h.next hrx miningInfo
    case isFalse hle =>
      simp only [Record.note, streams, hinfo, Option.filter, hle, decide_false, Bool.false_eq_true,
        if_false, Option.map_none, Option.elim_none]
      exact h

/-- In every run, with polls that overlap and answers that come late or fail, new blocks
are announced by rising heights. -/
theorem announces_of_reachable (rx : Multicast S IMiningInfo) (hrx : rx.Lawful)
    (service : BitcoinRpcService S) (record : Record)
    (h : Reachable (noted (BitcoinRpcService.step rx) (Record.note rx))
      ({ newBlock := rx.new }, {}) (service, record)) :
    Announces rx record service := by
  have hkept : record.Heights service ∧ Follows rx service.newBlock record.history := by
    refine Reach.noted_invariant_of (I := fun service record ↦
      record.Heights service ∧ Follows rx service.newBlock record.history) (J := fun _ ↦ True)
      (fun _ _ ↦ trivial) ⟨?_, Follows.new hrx⟩ ?_ h
    · refine ⟨List.Pairwise.nil, ?_, ?_, ?_, rfl⟩
      all_goals exact fun _ hmem ↦ absurd hmem List.not_mem_nil
    · intro service record e service' _ hkept _ hstep
      obtain ⟨hheights, hfollows⟩ := hkept
      cases e with
      | poll =>
        cases hstep
        simp only [Record.note, NewBlocks.answered, streams, Option.toList_none, List.append_nil,
          Option.elim_none]
        exact ⟨hheights, hfollows⟩
      | answer reply =>
        obtain ⟨-, heq⟩ := Option.ite_none_left_eq_some.mp hstep
        cases heq
        let asked : BitcoinRpcService S := { service with polls := service.polls - 1 }
        have hasked : record.Heights asked := hheights
        have hstream : Follows rx asked.newBlock record.history := hfollows
        exact ⟨heights_answer hasked reply, follows_answer hrx hstream reply⟩
      | subscribe =>
        cases hstep
        simp only [Record.note, NewBlocks.answered, streams, Option.toList_none, List.append_nil,
          Option.elim_some]
        exact ⟨hheights, hfollows.subscribe hrx⟩
      | unsubscribe id =>
        obtain ⟨hid, heq⟩ := Option.ite_none_right_eq_some.mp hstep
        cases heq
        simp only [Record.note, NewBlocks.answered, streams, Option.toList_none, List.append_nil,
          Option.elim_some]
        exact ⟨hheights, hfollows.unsubscribe hrx hid⟩
  obtain ⟨hheights, hfollows⟩ := hkept
  refine ⟨hheights.rising, hheights.answered, hheights.highest, hheights.last, ?_⟩
  intro id hid
  refine ⟨hfollows.heard id hid, ?_⟩
  rw [hfollows.heard id hid]
  exact hheights.rising.sublist ((List.drop_sublist _ _).trans (List.take_sublist _ _))

def overlapping : List BitcoinRpcService.Event :=
  [.poll, .poll, .answer (.result (some ⟨5, 1⟩)), .answer (.result (some ⟨4, 1⟩)), .subscribe,
    .poll, .answer .error, .poll, .answer (.result (some ⟨6, 1⟩))]

theorem announces_of_reachable_overlapping :
    ∃ service record,
      Reachable (noted (BitcoinRpcService.step shareReplay) (Record.note shareReplay))
        ({ newBlock := shareReplay.new }, {}) (service, record) ∧
      shareReplay.heard service.newBlock 0 = [⟨5, 1⟩, ⟨6, 1⟩] ∧
      Announces shareReplay record service := by
  obtain ⟨⟨service, record⟩, hreach, hheard⟩ := Reachable.of_any
    (noted (BitcoinRpcService.step shareReplay) (Record.note shareReplay))
    ({ newBlock := shareReplay.new }, {}) overlapping
    (fun p ↦ decide (shareReplay.heard p.1.newBlock 0 = [⟨5, 1⟩, ⟨6, 1⟩])) (by decide)
  exact ⟨service, record, hreach, of_decide_eq_true hheard,
    announces_of_reachable shareReplay lawful_shareReplay service record hreach⟩

end ElektronPool.NewBlocks
