/-!
# Blank characters

The white space of all scripts, and removing it from both ends of a text.
-/

namespace ProcessNets.Text

/-- White space: the ASCII controls that separate, the spaces of all scripts, and the line and
paragraph separators. -/
def isBlank (c : Char) : Bool :=
  let n := c.toNat
  (9 ≤ n && n ≤ 13) || (28 ≤ n && n ≤ 32) || n == 0x85 || n == 0xA0 || n == 0x1680 ||
    (0x2000 ≤ n && n ≤ 0x200A) || n == 0x2028 || n == 0x2029 || n == 0x202F || n == 0x205F ||
    n == 0x3000

/-- The characters without blanks at either end. -/
def stripChars (cs : List Char) : List Char :=
  ((cs.dropWhile isBlank).reverse.dropWhile isBlank).reverse

/-- The text without blanks at either end. -/
def strip (text : String) : String :=
  String.ofList (stripChars text.toList)

end ProcessNets.Text
