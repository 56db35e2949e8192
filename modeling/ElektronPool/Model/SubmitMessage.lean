import ElektronPool.Model.Session

namespace ElektronPool.Model

open Lib Lib.JavaScript

/-- A parsed JSON value; a number is the text it is printed as. -/
inductive Json
  | null
  | bool (b : Bool)
  | number (text : String)
  | string (s : String)
  | array (items : List Json)
  | object (fields : List (String × Json))

namespace Json

def escape (c : Char) : String :=
  if c = '"' then "\\\""
  else if c = '\\' then "\\\\"
  else if c = '\n' then "\\n"
  else if c = '\r' then "\\r"
  else if c = '\t' then "\\t"
  else if c.toNat = 8 then "\\b"
  else if c.toNat = 12 then "\\f"
  else if c.toNat < 32 then
    "\\u00" ++ (if c.toNat < 16 then "0" else "") ++ toString16 c.toNat
  else c.toString

def quote (s : String) : String := "\"" ++ String.join (s.toList.map escape) ++ "\""

mutual

/-- `JSON.stringify` -/
def stringify : Json → String
  | .null => "null"
  | .bool true => "true"
  | .bool false => "false"
  | .number text => text
  | .string s => quote s
  | .array items => "[" ++ ",".intercalate (stringifyItems items) ++ "]"
  | .object fields => "\x7b" ++ ",".intercalate (stringifyFields fields) ++ "\x7d"

def stringifyItems : List Json → List String
  | [] => []
  | item :: items => stringify item :: stringifyItems items

def stringifyFields : List (String × Json) → List String
  | [] => []
  | (key, value) :: fields => (quote key ++ ":" ++ stringify value) :: stringifyFields fields

end

mutual

/-- Whether a template literal prints the value: an object with a field
`toString` of its own has no method to do it. -/
def prints : Json → Bool
  | .array items => printsAll items
  | .object fields => (fields.lookup "toString").isNone
  | _ => true

def printsAll : List Json → Bool
  | [] => true
  | item :: items => prints item && printsAll items

end

def isString : Json → Bool
  | .string _ => true
  | _ => false

def element (i : ℕ) : Json → Option Json
  | .array items => items[i]?
  | .string s => s.toList[i]?.map fun c ↦ .string c.toString
  | .object fields => fields.lookup (toString i)
  | _ => none

def isParams : Json → Bool
  | .array items => decide (5 ≤ items.length) && decide (items.length ≤ 6)
  | _ => false

def isNullish : Option Json → Bool
  | none | some .null => true
  | _ => false

def orElse (value : Option Json) (default : String) : Option Json :=
  if isNullish value then some (.string default) else value

end Json

abbrev SubmitRequest := List (String × Json)

namespace SubmitRequest

open Json

variable (copy : Json → Option Json) (request : SubmitRequest)

def id : Json := ((request.lookup "id").bind copy).getD .null

def transformed (params : Json) : List (Option Json) :=
  [params.element 0, params.element 1, orElse (params.element 2) "", params.element 3,
    params.element 4, orElse (params.element 5) "0"]

def refused (params : Json) : List (Option Json) :=
  (if isNullish (some (id copy request)) then [some (id copy request)] else []) ++
    (if (copy params).any isParams then [] else [copy params]) ++
    (transformed params).filter fun value ↦ !value.any isString

/-- The line of a request, where `copy` is how class-transformer copies a value,
if it does not throw. It throws where `params` has no elements to read, and so does
the error of a validation that cannot print the values it refuses. -/
def line : Line :=
  match request.lookup "params" with
  | none | some .null => .throws .submit
  | some params =>
    if request.any fun field ↦ (copy field.2).isNone then .throws .submit
    else
      match refused copy request params, transformed params with
      | [], [some (.string _), some (.string jobId), some (.string extraNonce2),
          some (.string ntime), some (.string nonce), some (.string versionMask)] =>
        .submit
          { id := (id copy request).stringify, jobId, extraNonce2, ntime, nonce, versionMask }
      | values, _ =>
        if values.all fun value ↦ value.all prints then
          .invalid .submit (id copy request).stringify
        else .throws .submit

theorem line_cases : (∃ message : MiningSubmitMessage, line copy request = .submit message ∧
      message.id = (id copy request).stringify) ∨
    line copy request = .invalid .submit (id copy request).stringify ∨
    line copy request = .throws .submit := by
  rw [line]
  split
  · exact .inr (.inr rfl)
  · exact .inr (.inr rfl)
  · split
    · exact .inr (.inr rfl)
    · split
      · exact .inl ⟨_, rfl, rfl⟩
      · split
        · exact .inr (.inl rfl)
        · exact .inr (.inr rfl)

end SubmitRequest

end ElektronPool.Model
