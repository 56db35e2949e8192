import ElektronPool.Lib.MapData
import ElektronPool.Model.Stores

namespace ElektronPool.Model

open Lib Lib.Bytes Lib.JavaScript

def BitcoinJs.getId (js : BitcoinJs) (block : Block Number) : Option String :=
  (js.blockToBuffer true block).map fun header ↦
    String.ofList (toHex (js.hash256 header).toList.reverse)

/-- What the services of the notification read of the environment. -/
structure NotificationConfig where
  nodeAppInstance : Option String
  discordBotToken : Option String
  discordBotClientId : Option String
  discordBotGuildId : Option String
  discordBotChannelId : Option String
  telegramBotToken : Option String

/-- How the calls of a notification end; `false` and `none` are rejections. -/
structure NotificationAnswers where
  fetchGuild : String → Bool
  fetchChannel : String → Bool
  getSubscriptions : String → Option (List ℤ)
  sendMessage : ℤ → String → Bool

/-- Whether a notification resolves, and the texts whose send it does not wait for. -/
structure Notification where
  resolves : Bool
  sends : List String

def blockFoundText (height : ℕ) (message : String) : String :=
  s!"Block Found! Result: {message}, Height: {height}"

namespace DiscordService

def isFirstInstance (config : NotificationConfig) : Bool :=
  config.nodeAppInstance = none || config.nodeAppInstance = some "0"

def hasBot (config : NotificationConfig) : Bool :=
  isFirstInstance config &&
    [config.discordBotToken, config.discordBotClientId, config.discordBotGuildId,
      config.discordBotChannelId].all fun value ↦ value.any (· ≠ "")

def notifySubscribersBlockFound (config : NotificationConfig) (answers : NotificationAnswers)
    (height : ℕ) (message : String) : Notification :=
  if isFirstInstance config && hasBot config then
    if answers.fetchGuild (config.discordBotGuildId.getD "") &&
        answers.fetchChannel (config.discordBotChannelId.getD "") then
      ⟨true, [blockFoundText height message]⟩
    else ⟨false, []⟩
  else ⟨true, []⟩

end DiscordService

namespace TelegramService

def hasBot (config : NotificationConfig) : Bool := config.telegramBotToken.any (· ≠ "")

/-- `Promise.all` rejects when one of the messages does. -/
def notifySubscribersBlockFound (config : NotificationConfig) (answers : NotificationAnswers)
    (address : String) (height : ℕ) (message : String) : Bool :=
  if hasBot config then
    match answers.getSubscriptions address with
    | some subscribers =>
      subscribers.all fun telegramChatId ↦
        answers.sendMessage telegramChatId (blockFoundText height message)
    | none => false
  else true

end TelegramService

namespace NotificationService

/-- A rejection of Discord keeps the messages to Telegram from being sent. -/
def notifySubscribersBlockFound (config : NotificationConfig) (answers : NotificationAnswers)
    (address : String) (height : ℕ) (message : String) : Notification :=
  let discord := DiscordService.notifySubscribersBlockFound config answers height message
  { discord with
    resolves := discord.resolves &&
      TelegramService.notifySubscribersBlockFound config answers address height message }

end NotificationService

/-- `recentlyFoundBlocks`, the time at the lower-case hash. -/
abbrev FoundBlocks := MapData String ℕ

namespace FoundBlocks

def recentBlockTtlMs : ℕ := 30 * 60 * 1000

variable (toLowerCase : String → String) (blockHash : String) (now : ℕ) (found : FoundBlocks)

def pruneOldEntries : FoundBlocks :=
  let cutoff := (now : ℤ) - recentBlockTtlMs
  MapData.forOf (fun found hash foundAt ↦
    if !decide ((foundAt : ℤ) < cutoff) then found else found.delete hash)
    found.entries.length 0 found

def recordFoundBlock : FoundBlocks :=
  pruneOldEntries now (found.set (toLowerCase blockHash) now)

def wasRecentlyFound : FoundBlocks × Bool :=
  let found := pruneOldEntries now found
  (found, found.has (toLowerCase blockHash))

/-- What `poolIdentityConfirm` asks; `blockHash` is `none` when the query holds no string. -/
def confirmed (blockHash : Option String) : FoundBlocks × Bool :=
  match blockHash with
  | some hash =>
    if 0 < hash.length then found.wasRecentlyFound toLowerCase hash now else (found, false)
  | none => (found, false)

variable {toLowerCase blockHash now found} {key : String} {foundAt : ℕ}

theorem holds_pruneOldEntries : (found.pruneOldEntries now).Holds key foundAt ↔
    found.Holds key foundAt ∧ now ≤ foundAt + recentBlockTtlMs := by
  rw [pruneOldEntries, MapData.holds_forOf_delete, Bool.not_eq_true', decide_eq_false_iff_not]
  apply and_congr_right
  intro _
  omega

theorem holds_recordFoundBlock :
    (found.recordFoundBlock toLowerCase blockHash now).Holds key foundAt ↔
      key = toLowerCase blockHash ∧ foundAt = now ∨ key ≠ toLowerCase blockHash ∧
        found.Holds key foundAt ∧ now ≤ foundAt + recentBlockTtlMs := by
  rw [recordFoundBlock, holds_pruneOldEntries, MapData.holds_set, or_and_right,
    and_assoc (a := key ≠ _)]
  refine or_congr (and_iff_left_of_imp fun hnow ↦ ?_) Iff.rfl
  rw [hnow.2]
  exact Nat.le_add_right now _

end FoundBlocks

end ElektronPool.Model
