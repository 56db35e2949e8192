import ElektronPool.Model.SubmitMessage

namespace ElektronPool.Model.Json

open Lib Lib.Bytes

abbrev Reader (α : Type) := List Char → Option (α × List Char)

def isSpace (c : Char) : Bool := c.toNat ∈ [0x09, 0x0A, 0x0D, 0x20]

def skipSpace (cs : List Char) : List Char := cs.dropWhile isSpace

section Strings

def simpleEscape (c : Char) : Option ℕ :=
  if c = '"' ∨ c = '\\' ∨ c = '/' then some c.toNat
  else if c = 'b' then some 8
  else if c = 'f' then some 12
  else if c = 'n' then some 10
  else if c = 'r' then some 13
  else if c = 't' then some 9
  else none

def hexUnit (a b c d : Char) : Option ℕ :=
  match hexDigitValue a, hexDigitValue b, hexDigitValue c, hexDigitValue d with
  | some a, some b, some c, some d => some (16 * (16 * (16 * a + b) + c) + d)
  | _, _, _, _ => none

/-- The code points of a string after its opening quote; a surrogate stands for itself. -/
def readUnits : Reader (List ℕ)
  | [] => none
  | '"' :: cs => some ([], cs)
  | '\\' :: 'u' :: a :: b :: c :: d :: cs =>
    (hexUnit a b c d).bind fun u ↦ (readUnits cs).map fun (us, rest) ↦ (u :: us, rest)
  | '\\' :: c :: cs =>
    (simpleEscape c).bind fun u ↦ (readUnits cs).map fun (us, rest) ↦ (u :: us, rest)
  | c :: cs =>
    if c.toNat < 0x20 then none
    else (readUnits cs).map fun (us, rest) ↦ (c.toNat :: us, rest)

def surrogatePair (high low : ℕ) : Option Char :=
  if 0xD800 ≤ high ∧ high < 0xDC00 ∧ 0xDC00 ≤ low ∧ low < 0xE000 then
    some (Char.ofNat (0x10000 + 0x400 * (high - 0xD800) + (low - 0xDC00)))
  else none

/-- The characters of code points, after a surrogate that waits for its second half. -/
def characters : Option ℕ → List ℕ → Option (List Char)
  | none, [] => some []
  | some _, [] => none
  | none, u :: us =>
    if u.isValidChar then (characters none us).map (Char.ofNat u :: ·) else characters (some u) us
  | some high, low :: us =>
    (surrogatePair high low).bind fun c ↦ (characters none us).map (c :: ·)

def readString : Reader String := fun cs ↦
  (readUnits cs).bind fun (us, rest) ↦
    (characters none us).map fun characters ↦ (String.ofList characters, rest)

end Strings

section Numbers

def readDigits : Reader (List Char) := fun cs ↦
  if cs.takeWhile Char.isDigit = [] then none
  else some (cs.takeWhile Char.isDigit, cs.dropWhile Char.isDigit)

/-- The digits before the point: a zero stands alone. -/
def readInteger : Reader (List Char)
  | '0' :: cs => some (['0'], cs)
  | cs => readDigits cs

def readFraction : Reader (List Char)
  | '.' :: cs => (readDigits cs).map fun (ds, rest) ↦ ('.' :: ds, rest)
  | cs => some ([], cs)

def readSign : List Char → List Char × List Char
  | '+' :: cs => (['+'], cs)
  | '-' :: cs => (['-'], cs)
  | cs => ([], cs)

def readExponent : Reader (List Char)
  | c :: cs =>
    if c = 'e' ∨ c = 'E' then
      (readDigits (readSign cs).2).map fun (ds, rest) ↦ (c :: (readSign cs).1 ++ ds, rest)
    else some ([], c :: cs)
  | [] => some ([], [])

def readMinus : List Char → List Char × List Char
  | '-' :: cs => (['-'], cs)
  | cs => ([], cs)

def readNumber : Reader (List Char) := fun cs ↦
  (readInteger (readMinus cs).2).bind fun (integer, cs') ↦
    (readFraction cs').bind fun (fraction, cs') ↦
      (readExponent cs').map fun (exponent, rest) ↦
        ((readMinus cs).1 ++ integer ++ fraction ++ exponent, rest)

def IsNumber (text : String) : Prop := readNumber text.toList = some (text.toList, [])

end Numbers

section Objects

/-- The keys that number the elements of an array. -/
def arrayIndex (key : String) : Option ℕ :=
  let cs := key.toList
  let i := cs.foldl (fun n c ↦ 10 * n + (c.toNat - '0'.toNat)) 0
  if cs ≠ [] ∧ cs.all Char.isDigit ∧ (cs = ['0'] ∨ cs.head? ≠ some '0') ∧ i < 2 ^ 32 - 1 then some i
  else none

/-- Whether a key stays before one that is defined later: indexes do in their order, and
anything stays before a key that is none. -/
def precedes (key key' : String) : Bool :=
  match arrayIndex key, arrayIndex key' with
  | some i, some j => decide (i ≤ j)
  | none, some _ => false
  | _, none => true

/-- Gives an object a property: the last of one name counts, in the place of the first. -/
def define (fields : List (String × Json)) (field : String × Json) : List (String × Json) :=
  if field.1 ∈ fields.map Prod.fst then
    fields.map fun field' ↦ if field'.1 = field.1 then field else field'
  else
    fields.takeWhile (fun field' ↦ precedes field'.1 field.1) ++
      field :: fields.dropWhile fun field' ↦ precedes field'.1 field.1

def ofFields (fields : List (String × Json)) : Json := .object (fields.foldl define [])

end Objects

section Values

variable (print : String → Option String)

mutual

/-- A value; `print` gives the text that the number of a literal is printed as, when
it is finite. -/
def readValue : ℕ → Reader Json
  | 0, _ => none
  | n + 1, cs =>
    match skipSpace cs with
    | 'n' :: 'u' :: 'l' :: 'l' :: cs => some (.null, cs)
    | 't' :: 'r' :: 'u' :: 'e' :: cs => some (.bool true, cs)
    | 'f' :: 'a' :: 'l' :: 's' :: 'e' :: cs => some (.bool false, cs)
    | '"' :: cs => (readString cs).map fun (s, rest) ↦ (.string s, rest)
    | '[' :: cs =>
      match skipSpace cs with
      | ']' :: rest => some (.array [], rest)
      | cs => (readItems n cs).map fun (items, rest) ↦ (.array items, rest)
    | '\x7b' :: cs =>
      match skipSpace cs with
      | '\x7d' :: rest => some (.object [], rest)
      | cs => (readFields n cs).map fun (fields, rest) ↦ (ofFields fields, rest)
    | cs =>
      (readNumber cs).bind fun (text, rest) ↦
        (print (String.ofList text)).map fun text ↦ (.number text, rest)

def readItems : ℕ → Reader (List Json)
  | 0, _ => none
  | n + 1, cs =>
    (readValue n cs).bind fun (item, cs) ↦
      match skipSpace cs with
      | ',' :: cs => (readItems n cs).map fun (items, rest) ↦ (item :: items, rest)
      | ']' :: rest => some ([item], rest)
      | _ => none

def readFields : ℕ → Reader (List (String × Json))
  | 0, _ => none
  | n + 1, cs =>
    match skipSpace cs with
    | '"' :: cs =>
      (readString cs).bind fun (key, cs) ↦
        match skipSpace cs with
        | ':' :: cs =>
          (readValue n cs).bind fun (value, cs) ↦
            match skipSpace cs with
            | ',' :: cs => (readFields n cs).map fun (fields, rest) ↦ ((key, value) :: fields, rest)
            | '\x7d' :: rest => some ([(key, value)], rest)
            | _ => none
        | _ => none
    | _ => none

end

def readText (n : ℕ) (text : List Char) : Option Json :=
  (readValue print n text).bind fun (value, rest) ↦
    if skipSpace rest = [] then some value else none

/-- `JSON.parse`, of texts without unpaired surrogates and numbers beyond the doubles. -/
def parse (text : List Char) : Option Json := readText print (2 * text.length + 1) text

end Values

end ElektronPool.Model.Json
