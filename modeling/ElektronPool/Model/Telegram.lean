import ElektronPool.Lib.Inbox
import ElektronPool.Model.Notification

namespace ElektronPool.Model

open Lib

namespace TelegramService

structure Message where
  chatId : ℤ
  text : Option String
deriving DecidableEq

/-- An edited message or a post in a channel comes without a `message`. -/
structure Update where
  updateId : ℕ
  message : Option Message
deriving DecidableEq

/-- The calls that the handling of an update waits for. -/
inductive BotCall
  | saveSubscription (chatId : ℤ) (address : String)
  | sendMessage (chatId : ℤ) (text : String)
deriving DecidableEq

/-- `text.split(separator)`, over a separator that is not empty; `skip` characters of it are
still to be left out. -/
def split (separator : List Char) : ℕ → List Char → List Char → List (List Char)
  | _, piece, [] => [piece.reverse]
  | skip + 1, piece, _ :: text => split separator skip piece text
  | 0, piece, c :: text =>
    if separator.isPrefixOf (c :: text) then
      piece.reverse :: split separator (separator.length - 1) [] text
    else split separator 0 (c :: piece) text

def startsWith (text : String) (start : String) : Bool := start.toList.isPrefixOf text.toList

def subscribeAddress (text : String) : Option String :=
  (split "/subscribe ".toList 0 [] text.toList)[1]?.map String.ofList

/-- The calls for one message, each made when the one before it is answered. `validate` is
false for `undefined`, and what the bot does not know it only logs. -/
def handleMessage (validate : String → Bool) (update : Update) : List BotCall :=
  match update.message with
  | some ⟨chatId, some text⟩ =>
    if startsWith text "/subscribe" then
      match (subscribeAddress text).filter (validate ·) with
      | some address => [.saveSubscription chatId address, .sendMessage chatId "Subscribed!"]
      | none => [.sendMessage chatId "Invalid address."]
    else if startsWith text "/start" then
      [.sendMessage chatId "Welcome to the public-pool bot. /subscribe <address> to get notified."]
    else []
  | _ => []

structure Subscription where
  telegramChatId : ℤ
  address : String
deriving DecidableEq

/-- The bot with its table, and whom it told of the blocks of an address. -/
structure TelegramBot (σ : Type) where
  inbox : Inbox σ Update BotCall
  subscriptions : List Subscription := []
  notified : List (String × ℤ) := []

def TelegramBot.start {σ : Type} (server : Inbox.Server σ Update) : TelegramBot σ :=
  { inbox := Inbox.start server }

inductive BotEvent
  /-- a step of the polling; a call that is not answered may have been carried out all the same -/
  | polling (e : Inbox.Event Update) (carriedOut : ℕ → Bool)
  | blockFound (address : String)

def saving : Inbox.Poll Update BotCall → Option Subscription
  | .handling (.saveSubscription telegramChatId address :: _) _ => some ⟨telegramChatId, address⟩
  | _ => none

/-- Whether the call that a poll waits for is carried out by the end of the step. -/
def takesEffect (carriedOut : ℕ → Bool) : Inbox.Event Update → ℕ → Bool
  | .resume i, j => i = j
  | .fail i, j => i = j && carriedOut j
  | .restart, j => carriedOut j
  | _, _ => false

def saved (polls : List (Inbox.Poll Update BotCall)) (takesEffect : ℕ → Bool) : List Subscription :=
  polls.zipIdx.filterMap fun (poll, i) ↦ if takesEffect i then saving poll else none

def getSubscriptions (subscriptions : List Subscription) (address : String) : List Subscription :=
  subscriptions.filter fun subscription ↦ subscription.address = address

def TelegramBot.step {σ : Type} (server : Inbox.Server σ Update) (validate : String → Bool)
    (bot : TelegramBot σ) : BotEvent → Option (TelegramBot σ)
  | .polling e carriedOut =>
    (bot.inbox.step server Update.updateId (handleMessage validate) e).map fun inbox ↦
      { bot with
        inbox
        subscriptions :=
          bot.subscriptions ++ saved bot.inbox.polls (takesEffect carriedOut e) }
  | .blockFound address =>
    some { bot with
      notified := bot.notified ++
        (getSubscriptions bot.subscriptions address).map fun subscriber ↦
          (address, subscriber.telegramChatId) }

end TelegramService

end ElektronPool.Model
