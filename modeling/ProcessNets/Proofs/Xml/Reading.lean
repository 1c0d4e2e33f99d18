import ProcessNets.Proofs.Xml.Trees
import ProcessNets.Text.CodeRanges
import ProcessNets.Xml.Printer
import ProcessNets.Xml.WellFormed

/-!
# Reading XML

A reader of documents that consist of elements, attributes, character data and references, with
the declaration that printed documents begin with or without one. It knows no comments, processing
instructions, character data sections and document types: a document with one of these is not read.
-/

namespace ProcessNets.Xml

open WellFormed (isChar isSpace skipSpace reference attributeValue TagEnd)

/-! ### Names -/

/-- The characters that a name may start with. -/
def nameStarts : Text.CodeRanges := [
  (0x3A, 0x3A), (0x41, 0x5A), (0x5F, 0x5F), (0x61, 0x7A), (0xC0, 0xD6), (0xD8, 0xF6),
  (0xF8, 0x2FF), (0x370, 0x37D), (0x37F, 0x1FFF), (0x200C, 0x200D), (0x2070, 0x218F),
  (0x2C00, 0x2FEF), (0x3001, 0xD7FF), (0xF900, 0xFDCF), (0xFDF0, 0xFFFD), (0x10000, 0xEFFFF)]

/-- The further characters that a name may hold. -/
def nameTails : Text.CodeRanges := [
  (0x2D, 0x2E), (0x30, 0x39), (0xB7, 0xB7), (0x300, 0x36F), (0x203F, 0x2040)]

/-- Whether a character may occur in a name. -/
def isNamePart (c : Char) : Bool :=
  nameStarts.holds c || nameTails.holds c

def isName (text : String) : Bool :=
  match text.toList with
  | [] => false
  | c :: rest => nameStarts.holds c && rest.all isNamePart

/-- The name at the start of a text, and the rest. -/
def nameAt : List Char → Option (String × List Char)
  | [] => none
  | c :: rest =>
    if nameStarts.holds c then
      some (String.ofList (c :: rest.takeWhile isNamePart), rest.dropWhile isNamePart)
    else none

/-! ### Attributes -/

/-- A quoted value at the start of a text, and the rest. -/
def quotedValue : List Char → Option (List Char × List Char)
  | '"' :: rest => attributeValue '"' (rest.length + 1) rest
  | '\'' :: rest => attributeValue '\'' (rest.length + 1) rest
  | _ => none

/-- The attributes of a start tag after its name, up to its end. Each is set off by white space.
The fuel bounds their number. -/
def readAttributes : (fuel : Nat) → List Char → Option (List Attribute × TagEnd × List Char)
  | 0, _ => none
  | fuel + 1, cs =>
    match skipSpace cs with
    | '>' :: rest => some ([], .opened, rest)
    | '/' :: '>' :: rest => some ([], .empty, rest)
    | after =>
      if cs.head?.all (!isSpace ·) then none
      else do
        let (name, rest) ← nameAt after
        match skipSpace rest with
        | '=' :: rest => do
          let (value, rest) ← quotedValue (skipSpace rest)
          let (others, tagEnd, rest) ← readAttributes fuel rest
          some ((name, String.ofList value) :: others, tagEnd, rest)
        | _ => none

/-! ### Content -/

/-- Character data up to the next markup, and the rest. Line breaks read as line feeds, and the end
of a character data section may not occur. The fuel bounds the length. -/
def characterData : (fuel : Nat) → List Char → Option (List Char × List Char)
  | 0, _ => none
  | _, [] => some ([], [])
  | _, '<' :: rest => some ([], '<' :: rest)
  | fuel + 1, '&' :: rest => do
    let (referred, rest) ← reference rest
    let (words, rest) ← characterData fuel rest
    some (referred :: words, rest)
  | fuel + 1, '\r' :: '\n' :: rest => do
    let (words, rest) ← characterData fuel rest
    some ('\n' :: words, rest)
  | fuel + 1, '\r' :: rest => do
    let (words, rest) ← characterData fuel rest
    some ('\n' :: words, rest)
  | _, ']' :: ']' :: '>' :: _ => none
  | fuel + 1, c :: rest =>
    if isChar c then do
      let (words, rest) ← characterData fuel rest
      some (c :: words, rest)
    else none

/-- Whether a piece of content is character data that only lays out elements. -/
def isLayout : Element → Bool
  | .text words => words.toList.all isSpace
  | .element .. => false

/-- The element with the given content: a text, or elements with white space between them. -/
def assemble (tag : String) (attributes : List Attribute) : List Element → Element
  | [.text words] => .element tag attributes words []
  | pieces => .element tag attributes "" (pieces.filter (!isLayout ·))

mutual

/-- The element at the start of a text, and the rest. The fuel bounds the number of elements and
of texts between them. -/
def readElement : (fuel : Nat) → List Char → Option (Element × List Char)
  | 0, _ => none
  | fuel + 1, '<' :: rest => do
    let (tag, rest) ← nameAt rest
    let (attributes, tagEnd, rest) ← readAttributes (rest.length + 1) rest
    if (attributes.map (·.1)).Nodup then
      match tagEnd with
      | .empty => some (.element tag attributes "" [], rest)
      | .opened => do
        let (pieces, rest) ← readContent fuel rest
        let (closing, rest) ← nameAt rest
        match skipSpace rest with
        | '>' :: rest => if closing = tag then some (assemble tag attributes pieces, rest) else none
        | _ => none
    else none
  | _, _ => none

/-- The pieces of content up to an end tag, and the text after the opening of this tag. -/
def readContent : (fuel : Nat) → List Char → Option (List Element × List Char)
  | 0, _ => none
  | _, [] => none
  | _, '<' :: '/' :: rest => some ([], rest)
  | fuel + 1, '<' :: rest => do
    let (first, rest) ← readElement fuel ('<' :: rest)
    let (others, rest) ← readContent fuel rest
    some (first :: others, rest)
  | fuel + 1, cs => do
    let (words, rest) ← characterData (cs.length + 1) cs
    let (others, rest) ← readContent fuel rest
    some (.text (String.ofList words) :: others, rest)

end

/-! ### Documents -/

/-- A text without the declaration in front. -/
def afterDeclaration (cs : List Char) : List Char :=
  if declaration.toList.isPrefixOf cs then cs.drop declaration.length else cs

/-- The root of a document. Only white space may follow it. -/
def readDocument (text : String) : Option Element := do
  let cs := afterDeclaration text.toList
  let (root, rest) ← readElement (cs.length + 1) cs
  if (skipSpace rest).isEmpty then some root else none

end ProcessNets.Xml
