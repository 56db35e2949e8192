import ElektronPool.Model.Client
import ElektronPool.Model.ShareDifficulty

namespace ElektronPool.Model

open Lib Lib.Bytes

structure ExternalShareBody where
  worker : String
  address : String
  userAgent : String
  externalPoolName : String
  header : String
deriving DecidableEq

/-- How class-validator counts characters, and the addresses of the configured network. -/
structure ShareValidator where
  count : String → ℕ
  isBitcoinAddress : String → Bool

structure ExternalShareBody.Valid (validator : ShareValidator) (body : ExternalShareBody) :
    Prop where
  worker : validator.count body.worker ≤ 64
  address : validator.isBitcoinAddress body.address = true
  userAgent : validator.count body.userAgent ≤ 128
  externalPoolName : validator.count body.externalPoolName ≤ 128
  header : Hex.IsNumeral body.header.toList

instance (validator : ShareValidator) (body : ExternalShareBody) :
    Decidable (body.Valid validator) :=
  decidable_of_iff
    (validator.count body.worker ≤ 64 ∧ validator.isBitcoinAddress body.address = true ∧
      validator.count body.userAgent ≤ 128 ∧ validator.count body.externalPoolName ≤ 128 ∧
      body.header.toList ≠ [] ∧ ∀ c ∈ body.header.toList, (hexDigitValue c).isSome = true)
    ⟨fun ⟨worker, address, userAgent, externalPoolName, header⟩ ↦
      ⟨worker, address, userAgent, externalPoolName, header⟩,
      fun h ↦ ⟨h.worker, h.address, h.userAgent, h.externalPoolName, h.header⟩⟩

/-- The body of a request that passed validation. -/
structure ExternalPoolShare (validator : ShareValidator) extends ExternalShareBody where
  valid : toExternalShareBody.Valid validator

/-- What `submitShare` posts of a share that is reported. -/
def externalShareBody (poolIdentifier : Option String) (address worker userAgent : String)
    (header : Bytes) : ExternalShareBody where
  worker
  address
  userAgent
  externalPoolName := (poolIdentifier.filter (· ≠ "")).getD "Public-Pool"
  header := String.ofList (toHex header)

structure ExternalSharesEntity where
  address : String
  clientName : String
  time : ℕ
  difficulty : Difficulty
  userAgent : String
  externalPoolName : String
  header : String
deriving DecidableEq

inductive ExternalShareReply
  | success (calculatedDifficulty : Difficulty)
  | badRequest
  | unauthorized (message : String)
  /-- `Block.fromBuffer` threw. -/
  | failed
deriving DecidableEq

structure ExternalShareController where
  js : BitcoinJs
  /-- `Block.fromBuffer`, which may throw -/
  blockFromBuffer : Bytes → Option (Block ℕ)
  apiKey : Option String
  minimumDifficulty : ℚ

namespace ExternalShareController

/-- The controller of a configuration; a variable that is empty counts as unset. -/
def configured (js : BitcoinJs) (blockFromBuffer : Bytes → Option (Block ℕ))
    (shareSubmissionApiKey : Option String) (minimumDifficulty : Option ℚ) :
    ExternalShareController where
  js
  blockFromBuffer
  apiKey := shareSubmissionApiKey.filter (· ≠ "")
  minimumDifficulty := minimumDifficulty.getD 1000000000000

variable {validator : ShareValidator} (controller : ExternalShareController)

def admits (apiKey : Option String) : Prop :=
  controller.apiKey = none ∨ apiKey = controller.apiKey

instance (apiKey : Option String) : Decidable (controller.admits apiKey) :=
  inferInstanceAs (Decidable (_ ∨ _))

/-- What becomes of the table, and the reply. The clock is read twice, in milliseconds. -/
def submitExternalShare (table : List ExternalSharesEntity)
    (externalShare : ExternalPoolShare validator) (apiKey : Option String) (now time : ℕ) :
    List ExternalSharesEntity × ExternalShareReply :=
  if ¬ controller.admits apiKey then (table, .unauthorized "Invalid API key")
  else
    let headerBuffer := ofHex externalShare.header.toList
    let difficulty := calculateDifficulty controller.js headerBuffer
    if difficulty < controller.minimumDifficulty then
      (table, .unauthorized "Share difficulty too low")
    else
      match controller.blockFromBuffer headerBuffer with
      | none => (table, .failed)
      | some block =>
        let tenMinutesAgo : ℤ := (now / 1000 : ℕ) - 10 * 60
        if block.timestamp < tenMinutesAgo then
          (table, .unauthorized "Share timestamp too old - must be within last 10 minutes")
        else
          (table ++
            [{ address := externalShare.address
               clientName := externalShare.worker
               time
               difficulty
               userAgent := externalShare.userAgent
               externalPoolName := externalShare.externalPoolName
               header := externalShare.header }],
            .success difficulty)

def post (validator : ShareValidator) (table : List ExternalSharesEntity)
    (body : ExternalShareBody) (apiKey : Option String) (now time : ℕ) :
    List ExternalSharesEntity × ExternalShareReply :=
  if valid : body.Valid validator then
    controller.submitExternalShare table ⟨body, valid⟩ apiKey now time
  else (table, .badRequest)

end ExternalShareController

end ElektronPool.Model
