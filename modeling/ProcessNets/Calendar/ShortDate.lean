import ProcessNets.Calendar.Moment
import ProcessNets.Text.Digit
import ProcessNets.Text.Quoted

/-!
# Short dates

Dates written as day, month and two-digit year between slashes, such as `24/12/09`. A day or a
month below ten may be written with one digit, and the digits that nothing else restricts may be
of any script.
-/

namespace ProcessNets.Calendar.ShortDate

open ProcessNets.Text

/-! ### Fields -/

def positive? (c : Char) : Option Nat :=
  if '1' ≤ c ∧ c ≤ '9' then some (c.toNat - '0'.toNat) else none

/-- The day: 1 to 9 with or without a leading zero or space, 10 to 29, 30 or 31. -/
def day? : List Char → Option Nat
  | [c] => positive? c
  | ['3', '0'] => some 30
  | ['3', '1'] => some 31
  | ['1', c] => (digitValue? c).map (10 + ·)
  | ['2', c] => (digitValue? c).map (20 + ·)
  | ['0', c] => positive? c
  | [' ', c] => positive? c
  | _ => none

/-- The month: 1 to 9 with or without a leading zero, or 10 to 12. -/
def month? : List Char → Option Nat
  | [c] => positive? c
  | ['1', '0'] => some 10
  | ['1', '1'] => some 11
  | ['1', '2'] => some 12
  | ['0', c] => positive? c
  | _ => none

/-- The year that two digits stand for: those from 69 on belong to the last century. -/
def fullYear (digits : Nat) : Nat :=
  if digits ≤ 68 then 2000 + digits else 1900 + digits

/-! ### Reading -/

/-- Why a text is no short date. -/
inductive Fault where
  /-- The text does not begin with a day, a month and a year between slashes. -/
  | unmatched
  /-- A date is followed by more text. -/
  | leftOver (rest : List Char)
  /-- The month has no such day. -/
  | noSuchDay
deriving DecidableEq, Repr

def Fault.message (text : String) : Fault → String
  | .unmatched => "time data " ++ quoted text ++ " does not match format '%d/%m/%y'"
  | .leftOver rest => "unconverted data remains: " ++ String.ofList rest
  | .noSuchDay => "day is out of range for month"

/-- The characters before the first slash and those after it. -/
def splitSlash : List Char → Option (List Char × List Char)
  | [] => none
  | '/' :: rest => some ([], rest)
  | c :: rest => (splitSlash rest).map fun parts => (c :: parts.1, parts.2)

/-- Day, month and two-digit year at the start of a text, and what follows them. -/
def fields? (cs : List Char) : Option (Nat × Nat × Nat × List Char) := do
  let (dayText, afterDay) ← splitSlash cs
  let day ← day? dayText
  let (monthText, afterMonth) ← splitSlash afterDay
  let month ← month? monthText
  match afterMonth with
  | tens :: units :: rest => some (day, month, (← digitValue? tens) * 10 + (← digitValue? units), rest)
  | _ => none

/-- The start of the day that a text writes. -/
def read (text : String) : Except Fault Moment :=
  match fields? text.toList with
  | none => .error .unmatched
  | some (day, month, digits, rest) =>
    let date : Moment := { year := fullYear digits, month, day }
    if !rest.isEmpty then .error (.leftOver rest)
    else if date.onCalendar then .ok date
    else .error .noSuchDay

end ProcessNets.Calendar.ShortDate
