import ProcessNets.Json.Value

/-!
# Reading JSON

A reader for JSON documents that also takes the numbers `NaN`, `Infinity` and `-Infinity`. Of two
members with one name the later value counts, at the place of the earlier one.
-/

namespace ProcessNets.Json

open ProcessNets.Number (Binary64)

/-- The values that hold other values. -/
inductive Nest where
  | array
  | object
deriving DecidableEq, Repr

/-- Why a text is no JSON document. -/
inductive Fault where
  | malformed
  /-- An integer is longer than the reader takes. -/
  | tooManyDigits (count : Nat)
  /-- A value lies deeper in others than the reader goes. -/
  | tooDeep (nest : Nest)
deriving DecidableEq, Repr

def maxDigits : Nat := 4300

/-- What the reader says of an integer with too many digits. -/
def tooManyDigitsMessage (count : Nat) : String :=
  s!"Exceeds the limit ({maxDigits} digits) for integer string conversion: value has {count} " ++
    "digits; use sys.set_int_max_str_digits() to increase the limit"

/-- How many levels of arrays and objects the reader takes. -/
def maxDepth : Nat := 990

/-- What the reader says of a value that lies too deep. -/
def tooDeepMessage (nest : Nest) : String :=
  let name := match nest with
    | .array => "array"
    | .object => "object"
  s!"maximum recursion depth exceeded while decoding a JSON {name} from a unicode string"

/-! ### Numbers -/

def digitsValue (digits : List Char) : Nat :=
  digits.foldl (fun n c => n * 10 + (c.toNat - '0'.toNat)) 0

def spanDigits (cs : List Char) : List Char × List Char :=
  (cs.takeWhile Char.isDigit, cs.dropWhile Char.isDigit)

/-- A decimal point with digits, if the text starts with one. -/
def fraction? : List Char → Option (List Char × List Char)
  | '.' :: cs =>
    let (digits, rest) := spanDigits cs
    if digits.isEmpty then none else some (digits, rest)
  | _ => none

/-- An exponent, if the text starts with one. -/
def exponent? : List Char → Option (Int × List Char)
  | c :: cs =>
    if c ≠ 'e' ∧ c ≠ 'E' then none
    else
      let (negative, cs) := match cs with
        | '-' :: rest => (true, rest)
        | '+' :: rest => (false, rest)
        | rest => (false, rest)
      let (digits, rest) := spanDigits cs
      if digits.isEmpty then none
      else
        let value : Int := digitsValue digits
        some (if negative then -value else value, rest)
  | [] => none

/-- A number after its sign: an integer, or a real with a fraction or an exponent. -/
def number (negative : Bool) (cs : List Char) : Except Fault (Value × List Char) :=
  let (whole, afterWhole) := match cs with
    | '0' :: rest => (['0'], rest)
    | _ => spanDigits cs
  if whole.isEmpty then .error .malformed
  else
    let (decimals, afterFraction) := (fraction? afterWhole).getD ([], afterWhole)
    let power := exponent? afterFraction
    if decimals.isEmpty && power.isNone then
      if maxDigits < whole.length then .error (.tooManyDigits whole.length)
      else
        let value : Int := digitsValue whole
        .ok (.integer (if negative then -value else value), afterWhole)
    else
      let (exponent, rest) := power.getD (0, afterFraction)
      let digits := digitsValue (whole ++ decimals)
      .ok (.real (Binary64.ofDecimal negative digits (exponent - decimals.length)), rest)

/-! ### Strings -/

def hexValue? (c : Char) : Option Nat :=
  if '0' ≤ c ∧ c ≤ '9' then some (c.toNat - '0'.toNat)
  else if 'a' ≤ c ∧ c ≤ 'f' then some (c.toNat - 'a'.toNat + 10)
  else if 'A' ≤ c ∧ c ≤ 'F' then some (c.toNat - 'A'.toNat + 10)
  else none

def hexUnit? (a b c d : Char) : Option Nat := do
  some ((((← hexValue? a) * 16 + (← hexValue? b)) * 16 + (← hexValue? c)) * 16 + (← hexValue? d))

/-- The character of an escape with one letter. -/
def shortEscape? : Char → Option Char
  | '"' => some '"'
  | '\\' => some '\\'
  | '/' => some '/'
  | 'b' => some '\x08'
  | 'f' => some '\x0c'
  | 'n' => some '\n'
  | 'r' => some '\r'
  | 't' => some '\t'
  | _ => none

/-- The character of a code unit that stands alone; half a surrogate pair has none. -/
def unitChar (unit : Nat) : Char :=
  if 0xD800 ≤ unit ∧ unit < 0xE000 then '\uFFFD' else Char.ofNat unit

/-- The characters up to the closing quote, and the rest after it. -/
def stringTail : List Char → Option (List Char × List Char)
  | [] => none
  | '"' :: rest => some ([], rest)
  | '\\' :: 'u' :: a :: b :: c :: d :: '\\' :: 'u' :: e :: f :: g :: h :: rest => do
    let high ← hexUnit? a b c d
    let low ← hexUnit? e f g h
    if 0xD800 ≤ high ∧ high < 0xDC00 ∧ 0xDC00 ≤ low ∧ low < 0xE000 then
      let (cs, rest) ← stringTail rest
      some (Char.ofNat (0x10000 + (high - 0xD800) * 0x400 + (low - 0xDC00)) :: cs, rest)
    else
      let (cs, rest) ← stringTail ('\\' :: 'u' :: e :: f :: g :: h :: rest)
      some (unitChar high :: cs, rest)
  | '\\' :: 'u' :: a :: b :: c :: d :: rest => do
    let unit ← hexUnit? a b c d
    let (cs, rest) ← stringTail rest
    some (unitChar unit :: cs, rest)
  | '\\' :: c :: rest => do
    let escaped ← shortEscape? c
    let (cs, rest) ← stringTail rest
    some (escaped :: cs, rest)
  | c :: rest => do
    if c.toNat < 0x20 ∨ c = '\\' then none
    else
      let (cs, rest) ← stringTail rest
      some (c :: cs, rest)

/-- A string after its opening quote. -/
def stringBody (cs : List Char) : Except Fault (String × List Char) :=
  match stringTail cs with
  | some (body, rest) => .ok (String.ofList body, rest)
  | none => .error .malformed

/-! ### Values -/

/-- The text without the white space at its start. -/
def skipSpace (cs : List Char) : List Char :=
  cs.dropWhile fun c => c = ' ' ∨ c = '\t' ∨ c = '\n' ∨ c = '\r'

/-- Sets a member, at its place if the name is there already. -/
def setMember (name : String) (value : Value) : List (String × Value) → List (String × Value)
  | [] => [(name, value)]
  | (n, v) :: rest =>
    if n = name then (name, value) :: rest else (n, v) :: setMember name value rest

/-- The words that stand for values. -/
def words : List (List Char × Value) := [
  ("null".toList, .null), ("true".toList, .bool true), ("false".toList, .bool false),
  ("NaN".toList, .real .notANumber), ("Infinity".toList, .real (.infinite false)),
  ("-Infinity".toList, .real (.infinite true))]

mutual

/-- A value at the start of a text, and the rest, given how many more levels it may have. -/
def value : (fuel levels : Nat) → List Char → Except Fault (Value × List Char)
  | 0, _, _ => .error .malformed
  | fuel + 1, levels, cs =>
    match words.find? fun word => word.1.isPrefixOf cs with
    | some (word, v) => .ok (v, cs.drop word.length)
    | none => match cs with
      | '"' :: rest => do
        let (s, rest) ← stringBody rest
        .ok (.string s, rest)
      | '[' :: rest => match levels, skipSpace rest with
        | 0, _ => .error (.tooDeep .array)
        | _ + 1, ']' :: rest => .ok (.array [], rest)
        | levels + 1, rest => do
          let (items, rest) ← arrayItems fuel levels rest
          .ok (.array items, rest)
      | '\x7b' :: rest => match levels, skipSpace rest with
        | 0, _ => .error (.tooDeep .object)
        | _ + 1, '\x7d' :: rest => .ok (.object [], rest)
        | levels + 1, rest => do
          let (members, rest) ← objectMembers fuel levels [] rest
          .ok (.object members, rest)
      | '-' :: rest => number true rest
      | _ => number false cs

/-- The items of an array up to its closing bracket. -/
def arrayItems : (fuel levels : Nat) → List Char → Except Fault (List Value × List Char)
  | 0, _, _ => .error .malformed
  | fuel + 1, levels, cs => do
    let (item, rest) ← value fuel levels cs
    match skipSpace rest with
    | ']' :: rest => .ok ([item], rest)
    | ',' :: rest => do
      let (items, rest) ← arrayItems fuel levels (skipSpace rest)
      .ok (item :: items, rest)
    | _ => .error .malformed

/-- The members of an object up to its closing brace, after those already read. -/
def objectMembers : (fuel levels : Nat) → List (String × Value) → List Char →
    Except Fault (List (String × Value) × List Char)
  | 0, _, _, _ => .error .malformed
  | fuel + 1, levels, seen, cs =>
    match cs with
    | '"' :: rest => do
      let (name, rest) ← stringBody rest
      match skipSpace rest with
      | ':' :: rest => do
        let (v, rest) ← value fuel levels (skipSpace rest)
        let seen := setMember name v seen
        match skipSpace rest with
        | '\x7d' :: rest => .ok (seen, rest)
        | ',' :: rest => objectMembers fuel levels seen (skipSpace rest)
        | _ => .error .malformed
      | _ => .error .malformed
    | _ => .error .malformed

end

/-- Reads a document that holds one value. -/
def read (text : String) : Except Fault Value := do
  let cs := text.toList
  let (v, rest) ← value (2 * cs.length + 2) maxDepth (skipSpace cs)
  if (skipSpace rest).isEmpty then .ok v else .error .malformed

end ProcessNets.Json
