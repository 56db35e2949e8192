import ElektronPool.Shares.Adds

namespace ElektronPool.Shares

open Lib Lib.JavaScript Model Model.View

variable {cfg : Config} {v v' w : View}

/-- The entries of the history that say which shares were answered and credited,
and for which the best difficulty of an address was to be updated. -/
def isBooking : Entry → Bool
  | .acknowledged _ | .credited _ | .call _ _ (.updateAddressBest _ _ _) => true
  | _ => false

/-- What of a session the credit of its shares depends on; `stray` when it was
initialised without its parties. -/
structure Account where
  clientSubscription : Option SubscriptionMessage
  clientAuthorization : Option AuthorizationMessage
  statistics : Option StratumV1ClientStatistics
  unstarted : Bool
  stray : Bool
  entity : Option ClientEntity
  creatingEntity : Option CreatingEntity
  tokens : List Task
  bookings : List Entry

def account (v : View) : Account where
  clientSubscription := v.session.clientSubscription
  clientAuthorization := v.session.clientAuthorization
  statistics := v.session.statistics
  unstarted := v.session.sessionStart.isNone
  stray := v.session.stratumInitialized &&
    !(v.session.clientSubscription.isSome && v.session.clientAuthorization.isSome)
  entity := v.session.entity
  creatingEntity := v.session.creatingEntity
  tokens := v.session.tasks.filter isToken
  bookings := v.history.filter isBooking

namespace Account

variable (a : Account)

def push (task : Task) : Account := { a with tokens := a.tokens ++ [task] }
def book (entry : Entry) : Account := { a with bookings := entry :: a.bookings }
def keep (statistics : StratumV1ClientStatistics) : Account :=
  { a with statistics := some statistics }
def beat (date : ℕ) : Account :=
  { a with entity := a.entity.map fun entity ↦ { entity with updatedAt := some date } }
def raise (bestDifficulty : Difficulty) : Account :=
  { a with entity := a.entity.map fun entity ↦ { entity with bestDifficulty } }

end Account

section Calm

theorem account_suspend {task : Task} (h : isToken task = false) :
    account (v.suspend task) = account v := by
  simp only [account, View.suspend, View.update, List.filter_append, List.filter_cons, h,
    Bool.false_eq_true, if_false, List.filter_nil, List.append_nil]

theorem account_token {task : Task} (h : isToken task = true) :
    account (v.suspend task) = (account v).push task := by
  simp only [account, View.suspend, View.update, List.filter_append, List.filter_cons, h, if_true,
    List.filter_nil]
  rfl

theorem account_booking {entry : Entry} (h : isBooking entry = true) :
    account (v.log entry) = (account v).book entry := by
  simp only [account, View.log, List.filter_cons, h, if_true]
  rfl

theorem account_nextLines (rest : List Line) : account (v.nextLines rest) = account v := by
  rw [View.nextLines]
  split
  · rfl
  · exact account_suspend rfl

theorem account_send (message : Message) : account (v.send message) = account v := rfl

theorem account_write (message : Message) {after : AfterWrite} (rest : List Line)
    (h : isToken (.write after rest) = false) : account (v.write message after rest) = account v := by
  rw [View.write]
  split
  · exact account_nextLines rest
  · rw [account_suspend h, account_send]

theorem account_throw (rest : List Line) : account (v.throw rest) = account v :=
  account_nextLines rest

theorem account_destroy : account v.destroy = account v := by
  rw [View.destroy]
  split
  · rfl
  · split <;> rfl

theorem account_closeSocket : account v.closeSocket = account v := by
  have hdestroy := account_destroy (v := v.update fun s ↦ { s with connectionClosed := true })
  exact hdestroy

section Messages

variable (cfg : Config) (rest : List Line)

theorem account_startWork : account (v.startWork rest) = account v := account_nextLines rest

theorem account_initStratum {subscription : SubscriptionMessage}
    (hsubscription : v.session.clientSubscription = some subscription)
    (hauthorization : v.session.clientAuthorization.isSome = true) :
    account (v.initStratum cfg rest subscription) = account v := by
  have hinit : account (v.update fun s ↦ { s with stratumInitialized := true }) = account v := by
    simp [account, View.update, hsubscription, hauthorization]
  simp only [View.initStratum]
  split
  · exact (account_nextLines rest).trans (account_closeSocket.trans hinit)
  · split
    · exact (account_write _ rest rfl).trans hinit
    · exact (account_startWork rest).trans hinit

theorem account_finishMessage : account (v.finishMessage cfg rest) = account v := by
  rw [View.finishMessage]
  split
  case h_1 subscription authorization hsubscription hauthorization =>
    split
    · exact account_nextLines rest
    · refine account_initStratum cfg rest hsubscription ?_
      rw [hauthorization]
      rfl
  · exact account_nextLines rest

theorem account_suggestDifficulty (suggestedDifficulty : ℚ) :
    account (v.suggestDifficulty rest suggestedDifficulty) = account v :=
  account_write _ rest rfl

theorem account_invalid (method : eRequestMethod) (id : String) :
    account (v.invalid rest method id) = account v := by
  cases method <;> exact account_write _ rest rfl

end Messages

section Work

variable (cfg : Config)

theorem account_copyHashRate : account v.copyHashRate = account v := by
  rw [View.copyHashRate]
  split <;> rfl

theorem account_sendNewMiningJob (jobTemplate : IJobTemplate) :
    account (v.sendNewMiningJob cfg jobTemplate).1 = account v := by
  have hcopy := account_copyHashRate (v := v)
  simp only [View.sendNewMiningJob]
  generalize v.copyHashRate = w at hcopy
  split
  · rfl
  · split
    · split
      · exact hcopy
      · exact (account_write _ [] rfl).trans hcopy
    · exact hcopy

theorem account_catchRefresh (purpose : Purpose) (r : View × Bool) :
    account (catchRefresh purpose r) = account r.1 := by
  obtain ⟨v, _ | _⟩ := r
  · rfl
  · cases purpose <;> rfl

theorem account_refreshMiningJob (purpose : Purpose) :
    account (v.refreshMiningJob purpose) = account v := by
  rw [View.refreshMiningJob]
  split
  · rfl
  · split
    · exact account_suspend rfl
    · rfl

theorem account_resendMiningJob (jobTemplate : IJobTemplate) :
    account (v.resendMiningJob cfg jobTemplate).1 = account v :=
  account_sendNewMiningJob cfg _

theorem account_refreshLocalMiningWork : account (v.refreshLocalMiningWork cfg) = account v := by
  simp only [View.refreshLocalMiningWork]
  split
  · rfl
  · split
    · rfl
    · split
      · rfl
      · exact account_sendNewMiningJob cfg _

theorem account_sendUnchecked (message : Message) :
    account (v.sendUnchecked message) = account v := by
  rw [View.sendUnchecked]
  split <;> rfl

theorem account_checkDifficulty : account (v.checkDifficulty cfg) = account v := by
  simp only [View.checkDifficulty]
  split
  · rfl
  · split
    · rfl
    · rfl
    case h_3 targetDiff _ =>
      split
      · rfl
      · have hannounced : account ((v.update fun s ↦
            { s with sessionDifficulty := targetDiff }).sendUnchecked (.setDifficulty targetDiff)) =
            account v := account_sendUnchecked _
        generalize (v.update _).sendUnchecked _ = w at hannounced
        split
        · rw [account_catchRefresh, account_resendMiningJob, hannounced]
        · rw [account_suspend rfl, hannounced]
        · exact hannounced

theorem account_receiveTemplate (address : String) (purpose : Purpose)
    (answer : Option IBlockTemplate) :
    account (v.receiveTemplate cfg address purpose answer) = account v := by
  cases answer with
  | none => exact account_catchRefresh purpose (v, true)
  | some blockTemplate =>
    simp only [View.receiveTemplate]
    split
    · exact account_catchRefresh purpose _
    · cases purpose with
      | vardiff => rw [account_catchRefresh, account_resendMiningJob]; rfl
      | newBlock => rw [account_catchRefresh, account_sendNewMiningJob]; rfl
      | refreshTimer => rw [account_catchRefresh, account_sendNewMiningJob]; rfl

end Work

end Calm

end ElektronPool.Shares
