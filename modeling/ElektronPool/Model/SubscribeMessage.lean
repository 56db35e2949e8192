import ElektronPool.Model.Client
import ElektronPool.Model.PoolRegistry
import ElektronPool.Model.SubmitMessage

namespace ElektronPool.Model

open Lib Lib.JavaScript

def includes (s needle : String) : Bool := decide (needle.toList <:+: s.toList)

def split (s : String) (separator : Char) : List String :=
  (s.toList.splitOn separator).map String.ofList

namespace SubscriptionMessage

def firstPart (separator : Char) (s : String) : String := (split s separator).headD ""

def refineUserAgent (userAgent : String) : String :=
  let userAgent := firstPart '-' (firstPart 'V' (firstPart '/' (firstPart ' ' userAgent)))
  if includes userAgent "bosminer" || includes userAgent "bOS" then "Braiins OS"
  else if includes userAgent "cpuminer" then "cpuminer"
  else userAgent

end SubscriptionMessage

/-- The libraries that the text of a request goes through. -/
structure RequestLibrary where
  /-- the text that the number of a literal is printed as, when it is finite -/
  print : String → Option String
  /-- the copy that class-transformer makes of a value, if it does not throw -/
  copy : Json → Option Json
  /-- `Number(value)`, when it is finite -/
  toNumber : Json → Option ℚ
  /-- the characters of a string as class-validator counts them -/
  count : String → ℕ

abbrev SubscribeRequest := List (String × Json)

namespace SubscribeRequest

open Json

variable (lib : RequestLibrary) (request : SubscribeRequest)

def id : Json := ((request.lookup "id").bind lib.copy).getD .null

def rawUserAgent : Option Json := (request.lookup "params").bind (element 0)

/-- The transform of the user agent, which throws on a value that is no string. -/
def userAgent : Option String :=
  if isNullish request.rawUserAgent then some "unknown"
  else
    match request.rawUserAgent with
    | some (.string userAgent) => some (SubscriptionMessage.refineUserAgent userAgent)
    | _ => none

def isArray : Json → Bool
  | .array _ => true
  | _ => false

def refused (userAgent : String) : List (Option Json) :=
  let params := (request.lookup "params").bind lib.copy
  (if isNullish (some (id lib request)) then [some (id lib request)] else []) ++
    (if params.any isArray then [] else [params]) ++
    if lib.count userAgent ≤ 128 then [] else [some (.string userAgent)]

def line : Line :=
  match request.userAgent with
  | none => .throws .subscribe
  | some userAgent =>
    if request.any fun field ↦ (lib.copy field.2).isNone then .throws .subscribe
    else
      match refused lib request userAgent with
      | [] => .subscribe ⟨(id lib request).stringify, userAgent⟩
      | values =>
        if values.all fun value ↦ value.all prints then
          .invalid .subscribe (id lib request).stringify
        else .throws .subscribe

end SubscribeRequest

structure UserAgentSettings where
  nonCompliantUserAgents : Option String
  blockedUserAgents : Option String
  compliantHeaders : Option String
  hobbyMinerUserAgents : Option String
deriving DecidableEq

namespace UserAgentSettings

variable (toLowerCase : String → String) (settings : UserAgentSettings)

def blockList : Option String :=
  (settings.nonCompliantUserAgents.filter (· ≠ "")).or
    ((settings.blockedUserAgents.filter (· ≠ "")).or
      (settings.compliantHeaders.filter (· ≠ "")))

def isBlockedUserAgent (userAgent : String) : Bool :=
  match settings.blockList with
  | none => false
  | some blockedUserAgents =>
    if trim blockedUserAgents = "" then false
    else
      let blockedList := (split blockedUserAgents ',').map fun ua ↦ toLowerCase (trim ua)
      let userAgentLower := toLowerCase userAgent
      blockedList.any fun blocked ↦ 0 < blocked.length && includes userAgentLower blocked

def isHobbyMiner (userAgent : String) : Bool :=
  match settings.hobbyMinerUserAgents with
  | none => false
  | some list =>
    if trim list = "" || userAgent = "" then false
    else
      let needles :=
        ((split list ',').map fun ua ↦ toLowerCase (trim ua)).filter fun ua ↦ 0 < ua.length
      let haystack := toLowerCase userAgent
      needles.any fun needle ↦ includes haystack needle

def configure (cfg : Config) : Config :=
  { cfg with
    isBlockedUserAgent := settings.isBlockedUserAgent toLowerCase
    isHobbyMiner := settings.isHobbyMiner toLowerCase }

end UserAgentSettings

end ElektronPool.Model
