import ElektronPool.Model.SubmitMessage

namespace ElektronPool.Model

open Json

def EXTRANONCE2_SIZE_BYTES : ℕ := 0

inductive eResponseMethod
  | setDifficulty
  | miningNotify
deriving DecidableEq

def eResponseMethod.name : eResponseMethod → String
  | .setDifficulty => "mining.set_difficulty"
  | .miningNotify => "mining.notify"

namespace Json

def nat (n : ℕ) : Json := .number (toString n)

/-- A string that may be undefined, in an array. -/
def optional (s : Option String) : Json := s.elim .null .string

end Json

def SubscriptionMessage.response (id : Json) (clientId extranonce1 : Option String) : Json :=
  .object
    [("id", id), ("error", .null),
      ("result", .array
        [.array [.array [.string eResponseMethod.miningNotify.name, optional clientId]],
          optional extranonce1, Json.nat EXTRANONCE2_SIZE_BYTES])]

def ConfigurationMessage.response (id : Json) : Json :=
  .object
    [("id", id), ("error", .null),
      ("result", .object
        [("version-rolling", .bool true), ("version-rolling.mask", .string "1ffe0000")])]

/-- The response to an authorization and to an accepted share. -/
def resultResponse (id : Json) : Json :=
  .object [("id", id), ("error", .null), ("result", .bool true)]

/-- An error, with the values that validation refused as one text. -/
def StratumErrorMessage.response (id : Json) (errorCode : eStratumErrorCode)
    (errorMessage validationErrors : String) : Json :=
  .object
    [("id", id), ("result", .null),
      ("error", .array
        [Json.nat errorCode.code, .string errorMessage, .string validationErrors])]

def SuggestDifficulty.response (numeral : ℚ → String) (difficulty : ℚ) : Json :=
  .object
    [("id", .null), ("method", .string eResponseMethod.setDifficulty.name),
      ("params", .array [.number (numeral difficulty)])]

def IMiningNotify.response (notify : IMiningNotify) : Json :=
  .object
    [("id", .null), ("method", .string eResponseMethod.miningNotify.name),
      ("params", .array
        [.string notify.jobId, .string notify.prevHash, .string notify.coinbasePart1,
          .string notify.coinbasePart2, .array (notify.merkleBranch.map .string),
          .string notify.version, .string notify.bits, .string notify.timestamp,
          .bool notify.clearJobs])]

namespace Message

/-- The text of the id that a message gives back, if it answers a request. -/
def answers : Message → Option String
  | .subscribed id _ _ | .configured id | .result id | .error id _ _ => some id
  | .setDifficulty _ | .notify _ => none

/-- What a message is printed from, with the id of the request it answers and the
values its validation refused. -/
def response (numeral : ℚ → String) (id : Json) (validationErrors : String) : Message → Json
  | .subscribed _ clientId extranonce1 => SubscriptionMessage.response id clientId extranonce1
  | .configured _ => ConfigurationMessage.response id
  | .result _ => resultResponse id
  | .error _ code text => StratumErrorMessage.response id code text validationErrors
  | .setDifficulty difficulty => SuggestDifficulty.response numeral difficulty
  | .notify params => params.response

end Message

end ElektronPool.Model
