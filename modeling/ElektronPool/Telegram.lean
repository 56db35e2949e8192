import ElektronPool.Model.Telegram

namespace ElektronPool.Telegram

open Lib Lib.Runs Model Model.TelegramService
open Inbox (Server Complete InOrder Rises Alone Answered Poll)

variable {σ : Type} {server : Server σ Update} {validate : String → Bool} {bot bot' : TelegramBot σ}
  {e : BotEvent} {update : Update} {carriedOut : ℕ → Bool} {i : ℕ} {chatId : ℤ} {address : String}

section Messages

def subscribed (chatId : ℤ) : BotCall := .sendMessage chatId "Subscribed!"

def AsksFor (validate : String → Bool) (update : Update) (chatId : ℤ) (address : String) : Prop :=
  ∃ text, update.message = some ⟨chatId, some text⟩ ∧ startsWith text "/subscribe" = true ∧
    subscribeAddress text = some address ∧ validate address = true

theorem handleMessage_cases (validate : String → Bool) (update : Update) :
    (∃ chatId address, AsksFor validate update chatId address ∧
      handleMessage validate update = [.saveSubscription chatId address, subscribed chatId]) ∨
    (∃ chatId text, text ≠ "Subscribed!" ∧
      handleMessage validate update = [.sendMessage chatId text]) ∨
    handleMessage validate update = [] := by
  rw [handleMessage]
  split
  case h_1 chatId text hmessage =>
    split
    case isTrue hsubscribe =>
      split
      case h_1 address haddress =>
        rw [Option.filter_eq_some_iff] at haddress
        exact .inl ⟨chatId, address, ⟨text, hmessage, hsubscribe, haddress⟩, rfl⟩
      case h_2 => exact .inr (.inl ⟨chatId, _, by decide, rfl⟩)
    case isFalse =>
      split
      case isTrue => exact .inr (.inl ⟨chatId, _, by decide, rfl⟩)
      case isFalse => exact .inr (.inr rfl)
  case h_2 => exact .inr (.inr rfl)

theorem asksFor_of_save (h : .saveSubscription chatId address ∈ handleMessage validate update) :
    AsksFor validate update chatId address := by
  obtain ⟨chatId', address', hasks, heq⟩ | ⟨chatId', text, -, heq⟩ | heq :=
    handleMessage_cases validate update
  · rw [heq, List.mem_pair] at h
    rcases h with hsave | hsend
    · cases hsave
      exact hasks
    · cases hsend
  · rw [heq, List.mem_singleton] at h
    cases h
  · rw [heq] at h
    cases h

theorem subscribed_ne_head : (handleMessage validate update).head? ≠ some (subscribed chatId) := by
  obtain ⟨chatId', address', -, heq⟩ | ⟨chatId', text, hne, heq⟩ | heq :=
    handleMessage_cases validate update
  · rw [heq]
    rintro ⟨⟩
  · rw [heq]
    intro h
    cases h
    exact hne rfl
  · rw [heq]
    rintro ⟨⟩

theorem save_of_subscribed {c : BotCall} {pending : List BotCall}
    (hsuffix : c :: pending <:+ handleMessage validate update)
    (hhead : pending.head? = some (subscribed chatId)) :
    ∃ address, c = .saveSubscription chatId address := by
  obtain ⟨chatId', address', -, heq⟩ | ⟨chatId', text, -, heq⟩ | heq :=
    handleMessage_cases validate update
  · rw [heq, List.suffix_cons_iff, List.suffix_cons_iff, List.suffix_nil] at hsuffix
    rcases hsuffix with hboth | hlast | hnone
    · cases hboth
      cases hhead
      exact ⟨address', rfl⟩
    · cases hlast
      cases hhead
    · cases hnone
  · rw [heq, List.suffix_cons_iff, List.suffix_nil] at hsuffix
    rcases hsuffix with hlast | hnone
    · cases hlast
      cases hhead
    · cases hnone
  · rw [heq, List.suffix_nil] at hsuffix
    cases hsuffix

end Messages

section Rows

theorem mem_saved {polls : List (Poll Update BotCall)} {took : ℕ → Bool} {row : Subscription} :
    row ∈ saved polls took ↔
      ∃ i poll, polls[i]? = some poll ∧ took i = true ∧ saving poll = some row := by
  simp only [saved, List.mem_filterMap, Prod.exists, Option.ite_none_right_eq_some]
  constructor
  · rintro ⟨poll, i, hmem, htook, hsaving⟩
    exact ⟨i, poll, List.mem_zipIdx_iff_getElem?.mp hmem, htook, hsaving⟩
  · rintro ⟨i, poll, hpoll, htook, hsaving⟩
    exact ⟨poll, i, List.mem_zipIdx_iff_getElem?.mpr hpoll, htook, hsaving⟩

theorem mem_saved_resume {polls : List (Poll Update BotCall)} {pending : List BotCall}
    {rest : List Update}
    (hpoll : polls[i]? = some (.handling (.saveSubscription chatId address :: pending) rest)) :
    ⟨chatId, address⟩ ∈ saved polls (takesEffect carriedOut (.resume i)) :=
  mem_saved.mpr ⟨i, _, hpoll, decide_eq_true rfl, rfl⟩

theorem asksFor_of_saved {took : ℕ → Bool} {row : Subscription}
    (h : Complete server Update.updateId (handleMessage validate) bot.inbox)
    (hrow : row ∈ saved bot.inbox.polls took) :
    ∃ update ∈ bot.inbox.begun, AsksFor validate update row.telegramChatId row.address := by
  obtain ⟨i, poll, hpoll, -, hsaving⟩ := mem_saved.mp hrow
  rw [saving.eq_def] at hsaving
  split at hsaving
  case h_1 telegramChatId address pending rest =>
    cases hsaving
    obtain ⟨-, hpending⟩ := h.polls _ (List.mem_of_getElem? hpoll)
    obtain ⟨update, hupdate, hsuffix⟩ := hpending.resolve_left (List.cons_ne_nil _ _)
    exact ⟨update, hupdate, asksFor_of_save (hsuffix.subset List.mem_cons_self)⟩
  case h_2 => cases hsaving

end Rows

section Runs

def ofChat (chatId : ℤ) (row : Subscription) : Bool := row.telegramChatId = chatId

/-- What the bot keeps to, however its polls overlap, fail or are cut off by a restart. -/
structure Serves (server : Server σ Update) (validate : String → Bool) (bot : TelegramBot σ) :
    Prop where
  complete : Complete server Update.updateId (handleMessage validate) bot.inbox
  asked : ∀ row ∈ bot.subscriptions, ∃ update ∈ bot.inbox.begun,
    AsksFor validate update row.telegramChatId row.address
  confirmed : ∀ chatId, bot.inbox.issued.count (subscribed chatId) ≤
    bot.subscriptions.countP (ofChat chatId)
  notified : ∀ address chatId, (address, chatId) ∈ bot.notified →
    ⟨chatId, address⟩ ∈ bot.subscriptions

theorem count_head?_toList {calls : List BotCall} {c : BotCall} (h : calls.head? ≠ some c) :
    calls.head?.toList.count c = 0 := by
  rw [List.count_eq_zero, Option.mem_toList]
  exact h

theorem Serves.confirmed_step (h : Serves server validate bot) {polling : Inbox.Event Update}
    {inbox : Inbox σ Update BotCall}
    (hstep : bot.inbox.step server Update.updateId (handleMessage validate) polling = some inbox)
    (chatId : ℤ) :
    inbox.issued.count (subscribed chatId) ≤
      (bot.subscriptions ++ saved bot.inbox.polls (takesEffect carriedOut polling)).countP
        (ofChat chatId) := by
  have hold := h.confirmed chatId
  rw [List.countP_append]
  rcases Inbox.issued_of_step hstep with
    hsame | ⟨i, c, pending, rest, rfl, hpoll, hnext⟩ | ⟨update, hnext⟩
  · rw [hsame]
    omega
  · rw [hnext, List.count_append]
    by_cases hhead : pending.head? = some (subscribed chatId)
    · obtain ⟨-, hpending⟩ := h.complete.polls _ (List.mem_of_getElem? hpoll)
      obtain ⟨update, -, hsuffix⟩ := hpending.resolve_left (List.cons_ne_nil _ _)
      obtain ⟨address, rfl⟩ := save_of_subscribed hsuffix hhead
      have hrow : 0 < (saved bot.inbox.polls (takesEffect carriedOut (.resume i))).countP
          (ofChat chatId) :=
        List.countP_pos_iff.mpr ⟨⟨chatId, address⟩, mem_saved_resume hpoll, decide_eq_true rfl⟩
      have hone : pending.head?.toList.count (subscribed chatId) = 1 := by
        rw [hhead, Option.toList_some, List.count_singleton_self]
      omega
    · rw [count_head?_toList hhead]
      omega
  · rw [hnext, List.count_append, count_head?_toList subscribed_ne_head]
    omega

/-- Telegram gives every update a higher id than those before it. -/
def IdsRise (bot : TelegramBot σ) : BotEvent → Prop
  | .polling polling _ => Rises Update.updateId bot.inbox polling
  | .blockFound _ => True

instance (bot : TelegramBot σ) : ∀ e, Decidable (IdsRise bot e)
  | .polling polling _ => inferInstanceAs (Decidable (Rises Update.updateId bot.inbox polling))
  | .blockFound _ => inferInstanceAs (Decidable True)

theorem Serves.step (hserver : server.Lawful Update.updateId 100) (h : Serves server validate bot)
    (hrise : IdsRise bot e) (hstep : bot.step server validate e = some bot') :
    Serves server validate bot' := by
  cases e with
  | polling polling carriedOut =>
    simp only [TelegramBot.step, Option.map_eq_some_iff] at hstep
    obtain ⟨inbox, hinbox, rfl⟩ := hstep
    have hbegun := Inbox.begun_subset_of_step hinbox
    refine ⟨h.complete.step hserver hrise hinbox, fun row hrow ↦ ?_, h.confirmed_step hinbox,
      fun address chatId hmem ↦ List.mem_append_left _ (h.notified address chatId hmem)⟩
    have hasked : ∃ update ∈ bot.inbox.begun, AsksFor validate update row.telegramChatId
        row.address := by
      rcases List.mem_append.mp hrow with hold | hnew
      · exact h.asked row hold
      · exact asksFor_of_saved h.complete hnew
    obtain ⟨update, hupdate, hasks⟩ := hasked
    exact ⟨update, hbegun hupdate, hasks⟩
  | blockFound address =>
    simp only [TelegramBot.step, Option.some.injEq] at hstep
    subst hstep
    refine ⟨h.complete, h.asked, h.confirmed, fun address' chatId hmem ↦ ?_⟩
    rcases List.mem_append.mp hmem with hold | hnew
    · exact h.notified address' chatId hold
    · obtain ⟨row, hrow, heq⟩ := List.mem_map.mp hnew
      cases heq
      obtain ⟨hmem, haddress⟩ := List.mem_filter.mp hrow
      rw [← of_decide_eq_true haddress]
      exact hmem

theorem serves_of_reach (hserver : server.Lawful Update.updateId 100)
    (h : Reach (TelegramBot.step server validate) IdsRise (TelegramBot.start server) bot) :
    Serves server validate bot := by
  apply h.invariant _ fun _ _ _ hs hrise hstep ↦ hs.step hserver hrise hstep
  exact ⟨Inbox.complete_start hserver _, fun _ hrow ↦ absurd hrow List.not_mem_nil,
    fun _ ↦ Nat.zero_le _, fun _ _ hmem ↦ absurd hmem List.not_mem_nil⟩

/-- No poll of the bot gives a message up, as long as the ids of Telegram rise and it keeps what is
not confirmed: each is taken up, or still kept. A row of the table and a notification are only
ever for a chat that asked for the address, and no chat is told that it is subscribed more
often than it is. -/
theorem served_of_reach (server : Server σ Update) (hserver : server.Lawful Update.updateId 100)
    (validate : String → Bool) (bot : TelegramBot σ)
    (h : Reach (TelegramBot.step server validate) IdsRise (TelegramBot.start server) bot) :
    (∀ update ∈ bot.inbox.posted,
      update ∈ bot.inbox.begun ∨ update ∈ server.kept bot.inbox.server) ∧
    (∀ row ∈ bot.subscriptions, ∃ update ∈ bot.inbox.posted,
      AsksFor validate update row.telegramChatId row.address) ∧
    (∀ address chatId, (address, chatId) ∈ bot.notified → ∃ update ∈ bot.inbox.posted,
      AsksFor validate update chatId address) ∧
    ∀ chatId, bot.inbox.issued.count (subscribed chatId) ≤
      bot.subscriptions.countP (ofChat chatId) := by
  have hserves := serves_of_reach hserver h
  have hasked (row : Subscription) (hrow : row ∈ bot.subscriptions) :
      ∃ update ∈ bot.inbox.posted, AsksFor validate update row.telegramChatId row.address := by
    obtain ⟨update, hupdate, hasks⟩ := hserves.asked row hrow
    exact ⟨update, hserves.complete.begun hupdate, hasks⟩
  exact ⟨fun _ hupdate ↦ hserves.complete.begun_or_kept hupdate, hasked,
    fun address chatId hmem ↦ hasked _ (hserves.notified address chatId hmem), hserves.confirmed⟩

end Runs

section InTurn

open scoped List

/-- Telegram's ids rise, a poll begins when the one before it is over, and the pool is not
restarted. -/
def InTurn (bot : TelegramBot σ) : BotEvent → Prop
  | .polling polling _ => Rises Update.updateId bot.inbox polling ∧ Alone bot.inbox polling
  | .blockFound _ => True

instance (bot : TelegramBot σ) : ∀ e, Decidable (InTurn bot e)
  | .polling _ _ => inferInstanceAs (Decidable (_ ∧ _))
  | .blockFound _ => inferInstanceAs (Decidable True)

def GetsAnswers (bot : TelegramBot σ) : BotEvent → Prop
  | .polling polling _ => Answered bot.inbox polling
  | .blockFound _ => True

theorem inbox_of_step (h : bot.step server validate e = some bot') :
    bot'.inbox = bot.inbox ∨ ∃ polling carriedOut, e = .polling polling carriedOut ∧
      bot.inbox.step server Update.updateId (handleMessage validate) polling =
        some bot'.inbox := by
  cases e with
  | polling polling carriedOut =>
    simp only [TelegramBot.step, Option.map_eq_some_iff] at h
    obtain ⟨inbox, hinbox, rfl⟩ := h
    exact .inr ⟨polling, carriedOut, rfl, hinbox⟩
  | blockFound address =>
    cases h
    exact .inl rfl

theorem inOrder_of_reach (hserver : server.Lawful Update.updateId 100)
    (h : Reach (TelegramBot.step server validate) InTurn (TelegramBot.start server) bot) :
    InOrder server Update.updateId (handleMessage validate) bot.inbox := by
  have hinbox : Reach (Inbox.step server Update.updateId (handleMessage validate))
      (fun s e ↦ Rises Update.updateId s e ∧ Alone s e) (Inbox.start server) bot.inbox := by
    refine h.project TelegramBot.inbox fun bot e bot' hguard hstep ↦ ?_
    rcases inbox_of_step hstep with hsame | ⟨polling, carriedOut, rfl, hinbox⟩
    · exact .inl hsame
    · exact .inr ⟨polling, hguard, hinbox⟩
  exact Inbox.inOrder_of_reach hserver hinbox

theorem issued_of_reach (hserver : server.Lawful Update.updateId 100)
    (h : Reach (TelegramBot.step server validate) (fun bot e ↦ InTurn bot e ∧ GetsAnswers bot e)
      (TelegramBot.start server) bot) :
    bot.inbox.issued ++ bot.inbox.remaining =
      bot.inbox.begun.flatMap (handleMessage validate) := by
  have hinbox : Reach (Inbox.step server Update.updateId (handleMessage validate))
      (fun s e ↦ (Rises Update.updateId s e ∧ Alone s e) ∧ Answered s e) (Inbox.start server)
      bot.inbox := by
    refine h.project TelegramBot.inbox fun bot e bot' hguard hstep ↦ ?_
    rcases inbox_of_step hstep with hsame | ⟨polling, carriedOut, rfl, hinbox⟩
    · exact .inl hsame
    · exact .inr ⟨polling, hguard, hinbox⟩
  exact Inbox.issued_of_reach hserver hinbox

theorem exists_bot {inbox : Inbox σ Update BotCall}
    (h : Inbox.Runs server Update.updateId (handleMessage validate) bot.inbox inbox) :
    ∃ bot',
      Reach (TelegramBot.step server validate) (fun bot e ↦ InTurn bot e ∧ GetsAnswers bot e)
        bot bot' ∧ bot'.inbox = inbox := by
  induction h with
  | refl => exact ⟨bot, .refl, rfl⟩
  | @tail inbox inbox' polling hruns hguard hstep ih =>
    obtain ⟨bot', hreach, rfl⟩ := ih
    refine ⟨{ bot' with
      inbox := inbox'
      subscriptions := bot'.subscriptions ++ saved bot'.inbox.polls
        (takesEffect (fun _ ↦ true) polling) }, hreach.tail (e := .polling polling fun _ ↦ true)
      hguard ?_, rfl⟩
    rw [TelegramBot.step, hstep, Option.map_some]

/-- As long as its polls do not overlap, the bot takes up the messages in the order they were
sent, each once; what it does is what they ask for, in their order, and all of it if its calls
are answered. One poll that goes through takes up the next hundred. -/
theorem handled_of_inTurn (server : Server σ Update) (hserver : server.Lawful Update.updateId 100)
    (validate : String → Bool) (bot : TelegramBot σ)
    (h : Reach (TelegramBot.step server validate) InTurn (TelegramBot.start server) bot) :
    bot.inbox.begun <+: bot.inbox.posted ∧
    bot.inbox.issued <+ bot.inbox.begun.flatMap (handleMessage validate) ∧
    (Reach (TelegramBot.step server validate) (fun bot e ↦ InTurn bot e ∧ GetsAnswers bot e)
        (TelegramBot.start server) bot →
      bot.inbox.issued ++ bot.inbox.remaining =
        bot.inbox.begun.flatMap (handleMessage validate)) ∧
    (bot.inbox.polls = [] → ∃ bot',
      Reach (TelegramBot.step server validate) (fun bot e ↦ InTurn bot e ∧ GetsAnswers bot e)
        bot bot' ∧
        bot'.inbox.polls = [] ∧ bot'.inbox.begun =
          bot.inbox.begun ++ (bot.inbox.posted.drop bot.inbox.begun.length).take 100) := by
  have hinOrder := inOrder_of_reach hserver h
  refine ⟨hinOrder.begun, (List.sublist_append_left _ _).trans hinOrder.issued,
    issued_of_reach hserver, fun hidle ↦ ?_⟩
  obtain ⟨inbox, hruns, hpolls, -, hbegun⟩ := hinOrder.exists_poll
    server Update.updateId (handleMessage validate) hserver hidle
  obtain ⟨bot', hreach, rfl⟩ := exists_bot hruns
  exact ⟨bot', hreach, hpolls, hbegun⟩

end InTurn

section Sample

/-- A server that answers as Telegram does while the ids rise. -/
def telegram : Server (List Update) Update := .queue Update.updateId 100

def subscribing (updateId : ℕ) (chatId : ℤ) (address : String) : Update :=
  ⟨updateId, some ⟨chatId, some ("/subscribe " ++ address)⟩⟩

def known (address : String) : Bool := address = "be1qalice"

def polling (e : Inbox.Event Update) : BotEvent := .polling e fun _ ↦ false

def overlapping : List BotEvent :=
  [polling (.post (subscribing 7 42 "be1qalice")), polling .poll, polling .poll,
    polling (.serve 0), polling (.serve 1), polling (.resume 0), polling (.resume 1),
    polling (.resume 0), polling (.resume 1), .blockFound "be1qalice", polling .restart,
    polling (.post (subscribing 8 43 "be1qbob")), polling .poll]

theorem served_of_reach_overlapping :
    ∃ bot, Reach (TelegramBot.step telegram known) IdsRise (TelegramBot.start telegram) bot ∧
      bot.notified = [("be1qalice", 42), ("be1qalice", 42)] ∧
      bot.inbox.begun.map Update.updateId = [7, 7] ∧
      ∃ update ∈ bot.inbox.posted, AsksFor known update 42 "be1qalice" := by
  obtain ⟨bot, hbot, hp⟩ := Reach.of_any (TelegramBot.step telegram known) IdsRise
    (TelegramBot.start telegram) overlapping
    (fun bot ↦ bot.notified == [("be1qalice", 42), ("be1qalice", 42)] &&
      bot.inbox.begun.map Update.updateId == [7, 7]) (by decide +kernel) (by decide +kernel)
  simp only [Bool.and_eq_true, beq_iff_eq] at hp
  obtain ⟨-, -, hnotified, -⟩ :=
    served_of_reach telegram (Server.lawful_queue _ _) known bot hbot
  refine ⟨bot, hbot, hp.1, hp.2, hnotified "be1qalice" 42 ?_⟩
  rw [hp.1]
  exact List.mem_cons_self

/-- The second save fails, and the message after it is left to the next poll. -/
def failing : List BotEvent :=
  [polling (.post (subscribing 7 42 "be1qalice")), polling (.post (subscribing 8 43 "be1qalice")),
    polling (.post (subscribing 9 44 "be1qbob")), polling .poll, polling (.serve 0)] ++
    List.replicate 4 (polling (.resume 0)) ++
    [polling (.fail 0), polling .poll, polling (.serve 0), polling (.resume 0)] ++
    List.replicate 2 (polling (.resume 0))

theorem handled_of_inTurn_failing :
    ∃ bot bot', Reach (TelegramBot.step telegram known) InTurn (TelegramBot.start telegram) bot ∧
      bot.inbox.issued = [.saveSubscription 42 "be1qalice", subscribed 42,
        .saveSubscription 43 "be1qalice", .sendMessage 44 "Invalid address."] ∧
      List.Sublist bot.inbox.issued (bot.inbox.begun.flatMap (handleMessage known)) ∧
      Reach (TelegramBot.step telegram known) (fun bot e ↦ InTurn bot e ∧ GetsAnswers bot e)
        bot bot' ∧
      bot'.inbox.begun = bot.inbox.begun := by
  obtain ⟨bot, hbot, hp⟩ := Reach.of_any (TelegramBot.step telegram known) InTurn
    (TelegramBot.start telegram) failing
    (fun bot ↦ bot.inbox.issued == [.saveSubscription 42 "be1qalice", subscribed 42,
        .saveSubscription 43 "be1qalice", .sendMessage 44 "Invalid address."] &&
      bot.inbox.polls.isEmpty && bot.inbox.posted.length == bot.inbox.begun.length)
    (by decide +kernel) (by decide +kernel)
  simp only [Bool.and_eq_true, beq_iff_eq, List.isEmpty_iff] at hp
  obtain ⟨-, hissued, -, hpoll⟩ :=
    handled_of_inTurn telegram (Server.lawful_queue _ _) known bot hbot
  obtain ⟨bot', hreach, -, hbegun⟩ := hpoll hp.1.2
  refine ⟨bot, bot', hbot, hp.1.1, hissued, hreach, ?_⟩
  rw [hbegun, ← hp.2, List.drop_length, List.take_nil, List.append_nil]

end Sample

end ElektronPool.Telegram
