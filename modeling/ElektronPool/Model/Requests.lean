import ElektronPool.Model.JsonReader
import ElektronPool.Model.SubscribeMessage

namespace ElektronPool.Model

open Lib Lib.JavaScript Json

def eRequestMethod.name : eRequestMethod → String
  | .subscribe => "mining.subscribe"
  | .configure => "mining.configure"
  | .authorize => "mining.authorize"
  | .suggestDifficulty => "mining.suggest_difficulty"
  | .submit => "mining.submit"

/-- A request that parses to an object, as its fields. -/
abbrev Request := List (String × Json)

namespace Request

variable (lib : RequestLibrary) (request : Request)

def id : Json := ((request.lookup "id").bind lib.copy).getD .null

def params : Option Json := (request.lookup "params").bind lib.copy

def param (i : ℕ) : Option Json := (request.lookup "params").bind (element i)

/-- Whether every field can be copied into the class of the message. -/
def isCopied : Bool := request.all fun field ↦ (lib.copy field.2).isSome

def refusedId : List (Option Json) :=
  if isNullish (some (id lib request)) then [some (id lib request)] else []

/-- The line of a request whose validation refuses these values; the error that
reports them prints every one. -/
def judge (method : eRequestMethod) (refused : List (Option Json)) (accepted : Line) : Line :=
  match refused with
  | [] => accepted
  | _ =>
    if refused.all fun value ↦ value.all prints then .invalid method (id lib request).stringify
    else .throws method

end Request

namespace ConfigurationMessage

variable (lib : RequestLibrary) (request : Request)

def refused : List (Option Json) :=
  request.refusedId lib ++
    if (request.params lib).any SubscribeRequest.isArray then [] else [request.params lib]

def line : Line :=
  if request.isCopied lib then
    request.judge lib .configure (refused lib request) (.configure (request.id lib).stringify)
  else .throws .configure

end ConfigurationMessage

namespace AuthorizationMessage

section Password

/-- The digits that `d=(\d+)(?:,|$)` captures at the start of a text. -/
def hintAt : List Char → Option (List Char)
  | 'd' :: '=' :: cs =>
    if cs.takeWhile Char.isDigit = [] then none
    else
      match cs.dropWhile Char.isDigit with
      | [] | ',' :: _ => some (cs.takeWhile Char.isDigit)
      | _ => none
  | _ => none

/-- The leftmost of these after a comma. -/
def hintAfterComma : List Char → Option (List Char)
  | [] => none
  | c :: cs => if c = ',' then (hintAt cs).or (hintAfterComma cs) else hintAfterComma cs

/-- `password.match(/(?:^|,)d=(\d+)(?:,|$)/)`. -/
def difficultyMatch (password : String) : Option String :=
  ((hintAt password.toList).or (hintAfterComma password.toList)).map String.ofList

def startingDiffOf (password : String) : Option ℕ :=
  match (difficultyMatch password).map parseInt10 with
  | some (.int startingDiff) => some startingDiff.toNat
  | _ => none

end Password

variable (lib : RequestLibrary) (request : Request)

def addressOf (login : String) : String := (split login '.').headD ""

def workerOf (login : String) : String := ((split login '.')[1]?).getD "worker"

/-- The transform of the starting difficulty, which throws on a password that is no string. -/
def startingDiffParam : Option (Option ℕ) :=
  match request.param 1 with
  | none | some .null => some none
  | some (.string password) => some (startingDiffOf password)
  | _ => none

def isParams : Json → Bool
  | .array items => decide (1 ≤ items.length) && decide (items.length ≤ 2)
  | _ => false

def refusedPassword : List (Option Json) :=
  match request.param 1 with
  | some (.string password) => if lib.count password ≤ 64 then [] else [some (.string password)]
  | _ => []

def refused (worker : String) : List (Option Json) :=
  request.refusedId lib ++
    (if (request.params lib).any isParams then [] else [request.params lib]) ++
    (if lib.count worker ≤ 64 then [] else [some (.string worker)]) ++ refusedPassword lib request

def line : Line :=
  match request.param 0, startingDiffParam request with
  | some (.string login), some startingDiff =>
    if request.isCopied lib then
      request.judge lib .authorize (refused lib request (workerOf login))
        (.authorize
          { id := (request.id lib).stringify
            address := addressOf login
            worker := workerOf login
            startingDiff })
    else .throws .authorize
  | _, _ => .throws .authorize

end AuthorizationMessage

namespace SuggestDifficulty

variable (lib : RequestLibrary) (request : Request)

/-- One number, which is what the checks of the array and of its elements leave. -/
def isParams : Json → Bool
  | .array [.number _] => true
  | _ => false

def refused (suggestedDifficulty : Option ℚ) : List (Option Json) :=
  request.refusedId lib ++
    (if (request.params lib).any isParams then [] else [request.params lib]) ++
    if suggestedDifficulty.isSome then [] else [none]

def line : Line :=
  match request.lookup "params" with
  | none | some .null => .throws .suggestDifficulty
  | some params =>
    -- `Number` throws on the values that have no primitive one
    if request.isCopied lib && (params.element 0).all prints then
      let suggestedDifficulty := (params.element 0).bind lib.toNumber
      request.judge lib .suggestDifficulty (refused lib request suggestedDifficulty)
        (.suggestDifficulty (request.id lib).stringify (suggestedDifficulty.getD 0))
    else .throws .suggestDifficulty

end SuggestDifficulty

namespace Line

variable (lib : RequestLibrary)

def ofRequest (request : Request) : Line :=
  match request.lookup "method" with
  | some (.string method) =>
    if method = eRequestMethod.subscribe.name then SubscribeRequest.line lib request
    else if method = eRequestMethod.configure.name then ConfigurationMessage.line lib request
    else if method = eRequestMethod.authorize.name then AuthorizationMessage.line lib request
    else if method = eRequestMethod.suggestDifficulty.name then SuggestDifficulty.line lib request
    else if method = eRequestMethod.submit.name then SubmitRequest.line lib.copy request
    else .other
  | _ => .other

/-- A line of text, up to the class it is validated as. The method of null cannot be
read, and the exception ends the connection as a text that does not parse does. -/
def ofText (text : List Char) : Line :=
  match parse lib.print text with
  | none | some .null => .malformed
  | some (.object request) => ofRequest lib request
  | some _ => .other

end Line

end ElektronPool.Model
