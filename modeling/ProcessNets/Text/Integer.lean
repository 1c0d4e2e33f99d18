import ProcessNets.Text.Blank
import ProcessNets.Text.Digit

/-!
# Integers in text

Integers as people type them: with blanks around them, a sign in front, digits of any script, and
single underscores between digits.
-/

namespace ProcessNets.Text

/-- The most digits that an integer may have. -/
def maxIntegerDigits : Nat := 4300

/-- White space around an integer: of the ASCII controls only the ones that lay out text. -/
def isOuterSpace (c : Char) : Bool :=
  isBlank c && (c.toNat ≤ 13 || c = ' ' || 127 ≤ c.toNat)

/-- The values of a row of digits with single underscores between them. -/
def groupedDigits? : List Char → Option (List Nat)
  | [] => none
  | [c] => (digitValue? c).map ([·])
  | c :: '_' :: rest => do
    let digit ← digitValue? c
    let digits ← groupedDigits? rest
    some (digit :: digits)
  | c :: rest => do
    let digit ← digitValue? c
    let digits ← groupedDigits? rest
    some (digit :: digits)

/-- The sign in front of a number, and the rest. -/
def splitSign : List Char → Bool × List Char
  | '-' :: rest => (true, rest)
  | '+' :: rest => (false, rest)
  | rest => (false, rest)

/-- The integer that a text writes. -/
def integer? (text : String) : Option Int := do
  let cs := (text.toList.dropWhile isOuterSpace).reverse.dropWhile isOuterSpace
  let (negative, body) := splitSign cs.reverse
  let digits ← groupedDigits? body
  if maxIntegerDigits < digits.length then none
  else
    let value : Int := numeral digits
    some (if negative then -value else value)

end ProcessNets.Text
