import ProcessNets.Xml.NameTable

/-!
# Well-formed content

Whether a text can stand as the content of an element: characters, references, comments,
processing instructions, character data sections and elements whose tags match. Names may have a
namespace prefix, which must be bound; there is no document type, so only the five entities that
XML itself declares are known.
-/

namespace ProcessNets.Xml.WellFormed

/-! ### Characters and names -/

/-- Whether a character may occur in a document. -/
def isChar (c : Char) : Bool :=
  c = '\t' || c = '\n' || c = '\r' || (0x20 ≤ c.toNat && c.toNat != 0xFFFE && c.toNat != 0xFFFF)

/-- White space inside markup. -/
def isSpace (c : Char) : Bool :=
  c = ' ' || c = '\t' || c = '\n' || c = '\r'

def isNameStart (c : Char) : Bool :=
  nameStartRanges.holds c

def isNameChar (c : Char) : Bool :=
  nameStartRanges.holds c || nameTailRanges.holds c

def skipSpace (cs : List Char) : List Char :=
  cs.dropWhile isSpace

/-- A name without a colon at the start of a text, and the rest. -/
def simpleName : List Char → Option (List Char × List Char)
  | c :: rest =>
    if isNameStart c then some (c :: rest.takeWhile isNameChar, rest.dropWhile isNameChar)
    else none
  | [] => none

/-- A name that may have a namespace prefix. -/
structure QName where
  space : Option (List Char)
  name : List Char
deriving DecidableEq, Repr

/-- A name with at most one colon at the start of a text, and the rest. -/
def qualifiedName (cs : List Char) : Option (QName × List Char) := do
  let (first, rest) ← simpleName cs
  match rest with
  | ':' :: rest => do
    let (second, rest) ← simpleName rest
    match rest with
    | ':' :: _ => none
    | _ => some (⟨some first, second⟩, rest)
  | _ => some (⟨none, first⟩, rest)

/-! ### References -/

/-- The value of a digit in a base up to sixteen. -/
def digitIn (base : Nat) (c : Char) : Option Nat :=
  let value :=
    if '0' ≤ c ∧ c ≤ '9' then some (c.toNat - '0'.toNat)
    else if 'a' ≤ c ∧ c ≤ 'f' then some (c.toNat - 'a'.toNat + 10)
    else if 'A' ≤ c ∧ c ≤ 'F' then some (c.toNat - 'A'.toNat + 10)
    else none
  value.filter (· < base)

/-- The character with a code point, if a document may hold it. -/
def charAt? (code : Nat) : Option Char :=
  if code < 0x110000 ∧ ¬(0xD800 ≤ code ∧ code < 0xE000) ∧ isChar (Char.ofNat code) then
    some (Char.ofNat code)
  else none

/-- A character reference after its `&#`. -/
def numericReference (cs : List Char) : Option (Char × List Char) := do
  let (base, cs) := match cs with
    | 'x' :: rest => (16, rest)
    | _ => (10, cs)
  let digits := cs.takeWhile fun c => (digitIn base c).isSome
  if digits.isEmpty then none
  match cs.dropWhile fun c => (digitIn base c).isSome with
  | ';' :: rest =>
    let code := (digits.filterMap (digitIn base)).foldl (fun n d => n * base + d) 0
    some (← charAt? code, rest)
  | _ => none

/-- The entities that XML declares. -/
def entity? : List Char → Option Char
  | ['a', 'm', 'p'] => some '&'
  | ['l', 't'] => some '<'
  | ['g', 't'] => some '>'
  | ['q', 'u', 'o', 't'] => some '"'
  | ['a', 'p', 'o', 's'] => some '\''
  | _ => none

/-- A reference after its ampersand: the character that it stands for, and the rest. -/
def reference : List Char → Option (Char × List Char)
  | '#' :: rest => numericReference rest
  | cs => do
    let (name, rest) ← simpleName cs
    match rest with
    | ';' :: rest => some (← entity? name, rest)
    | _ => none

/-! ### Attributes -/

/-- The value of an attribute up to its closing quote, and the rest. White space characters read
as spaces, a line break of two characters as one. The fuel bounds the length. -/
def attributeValue (quote : Char) : (fuel : Nat) → List Char → Option (List Char × List Char)
  | 0, _ => none
  | _, [] => none
  | fuel + 1, c :: rest =>
    if c = quote then some ([], rest)
    else if c = '<' ∨ ¬isChar c then none
    else if c = '&' then do
      let (referred, rest) ← reference rest
      let (value, rest) ← attributeValue quote fuel rest
      some (referred :: value, rest)
    else do
      let rest := if c = '\r' then (match rest with
        | '\n' :: after => after
        | _ => rest) else rest
      let (value, rest) ← attributeValue quote fuel rest
      some ((if isSpace c then ' ' else c) :: value, rest)

/-- An attribute: its name and its value. -/
abbrev Attribute := QName × List Char

/-- An attribute at the start of a text, and the rest. -/
def attributeAt (cs : List Char) : Option (Attribute × List Char) := do
  let (name, rest) ← qualifiedName cs
  match skipSpace rest with
  | '=' :: rest => match skipSpace rest with
    | '"' :: rest => do
      let (value, rest) ← attributeValue '"' (rest.length + 1) rest
      some ((name, value), rest)
    | '\'' :: rest => do
      let (value, rest) ← attributeValue '\'' (rest.length + 1) rest
      some ((name, value), rest)
    | _ => none
  | _ => none

/-- How a start tag ends. -/
inductive TagEnd where
  | opened
  | empty
deriving DecidableEq, Repr

/-- The attributes of a start tag after its name, up to its end. Each is set off by white space.
The fuel bounds their number. -/
def attributes : (fuel : Nat) → List Char → Option (List Attribute × TagEnd × List Char)
  | 0, _ => none
  | fuel + 1, cs =>
    match skipSpace cs with
    | '>' :: rest => some ([], .opened, rest)
    | '/' :: '>' :: rest => some ([], .empty, rest)
    | after => do
      if cs.head?.all (!isSpace ·) then none
      let (first, rest) ← attributeAt after
      let (others, tagEnd, rest) ← attributes fuel rest
      some (first :: others, tagEnd, rest)

/-! ### Namespaces -/

/-- Prefixes with the namespaces that they are bound to, innermost first. -/
abbrev Bindings := List (List Char × List Char)

/-- The namespace of the prefix `xml`, which is bound to nothing else and by nothing else. -/
def xmlNamespace : List Char :=
  "http://www.w3.org/XML/1998/namespace".toList

/-- The namespace of declarations, which nothing is bound to. -/
def xmlnsNamespace : List Char :=
  "http://www.w3.org/2000/xmlns/".toList

/-- What a declaration binds: the default namespace or a prefix. -/
def declared? (name : QName) : Option (Option (List Char)) :=
  match name with
  | ⟨none, ['x', 'm', 'l', 'n', 's']⟩ => some none
  | ⟨some ['x', 'm', 'l', 'n', 's'], short⟩ => some (some short)
  | _ => none

/-- Whether a declaration respects the reserved names. A closing brace cannot occur in a
namespace. -/
def declarationAllowed (short : Option (List Char)) (uri : List Char) : Bool :=
  uri != xmlnsNamespace && !uri.contains '\x7d' && match short with
    | none => uri != xmlNamespace
    | some ['x', 'm', 'l'] => uri == xmlNamespace
    | some ['x', 'm', 'l', 'n', 's'] => false
    | some _ => uri != xmlNamespace && !uri.isEmpty

/-- The bindings that a start tag adds to those around it, if all its declarations are
allowed. -/
def bind (outer : Bindings) : List Attribute → Option Bindings
  | [] => some outer
  | (name, uri) :: rest => do
    let inner ← bind outer rest
    match declared? name with
    | none => some inner
    | some short =>
      if declarationAllowed short uri then
        match short with
        | some short => some ((short, uri) :: inner)
        | none => some inner
      else none

def isBound (bindings : Bindings) (name : QName) : Bool :=
  match name.space with
  | none => true
  | some short => (bindings.lookup short).isSome

/-- The name with its prefix resolved: what two attributes of a tag may not share. -/
def expanded (bindings : Bindings) (name : QName) : Option (List Char) × List Char :=
  (name.space.bind (bindings.lookup ·), name.name)

def allDistinct {α : Type} [BEq α] : List α → Bool
  | [] => true
  | x :: rest => !rest.contains x && allDistinct rest

/-- The bindings inside an element with the given name and attributes, if names are bound and
attributes distinct. -/
def enter (outer : Bindings) (name : QName) (attributes : List Attribute) : Option Bindings := do
  let inner ← bind outer attributes
  -- Declarations need no namespace themselves, but no two of them may share a name.
  let plain := (attributes.map (·.1)).filter fun n => (declared? n).isNone
  if isBound inner name && allDistinct (attributes.map (·.1)) && plain.all (isBound inner) &&
      allDistinct (plain.map (expanded inner)) then
    some inner
  else none

/-! ### Other markup -/

/-- The text after a comment, given the text after its opening. Two hyphens end a comment. -/
def afterComment : List Char → Option (List Char)
  | '-' :: '-' :: '>' :: rest => some rest
  | '-' :: '-' :: _ => none
  | c :: rest => if isChar c then afterComment rest else none
  | [] => none

/-- The text after a character data section, given the text after its opening. -/
def afterCharacterData : List Char → Option (List Char)
  | ']' :: ']' :: '>' :: rest => some rest
  | c :: rest => if isChar c then afterCharacterData rest else none
  | [] => none

/-- The text after the end of a processing instruction. -/
def afterInstructionEnd : List Char → Option (List Char)
  | '?' :: '>' :: rest => some rest
  | c :: rest => if isChar c then afterInstructionEnd rest else none
  | [] => none

/-- The text after a processing instruction, given the text after its opening. Its target is a
name other than `xml` in any case. -/
def afterInstruction (cs : List Char) : Option (List Char) := do
  let (target, rest) ← simpleName cs
  if target.map Char.toLower = ['x', 'm', 'l'] then none
  match rest with
  | '?' :: '>' :: rest => some rest
  | c :: rest => if isSpace c then afterInstructionEnd rest else none
  | [] => none

/-! ### Content -/

/-- An element that has been opened: its name, and the bindings outside it. -/
structure Opened where
  name : QName
  outer : Bindings

/-- Whether a text is content, given the elements opened before and the bindings in force. The
fuel bounds the number of steps. -/
def content : (fuel : Nat) → List Opened → Bindings → List Char → Bool
  | 0, _, _, _ => false
  | _, opened, _, [] => opened.isEmpty
  | fuel + 1, opened, bindings, c :: rest =>
    let goOn (after : Option (List Char)) : Bool := match after with
      | some rest => content fuel opened bindings rest
      | none => false
    match c, rest with
    | '<', '!' :: '-' :: '-' :: rest => goOn (afterComment rest)
    | '<', '!' :: '[' :: 'C' :: 'D' :: 'A' :: 'T' :: 'A' :: '[' :: rest =>
      goOn (afterCharacterData rest)
    | '<', '?' :: rest => goOn (afterInstruction rest)
    | '<', '/' :: rest => match opened, qualifiedName rest with
      | element :: others, some (name, rest) => match skipSpace rest with
        | '>' :: rest => name = element.name && content fuel others element.outer rest
        | _ => false
      | _, _ => false
    | '<', rest => match qualifiedName rest with
      | some (name, rest) => match attributes (rest.length + 1) rest with
        | some (attributes, tagEnd, rest) => match enter bindings name attributes with
          | some inner => match tagEnd with
            | .opened => content fuel (⟨name, bindings⟩ :: opened) inner rest
            | .empty => content fuel opened bindings rest
          | none => false
        | none => false
      | none => false
    | '&', rest => goOn ((reference rest).map (·.2))
    -- The end of a character data section may not stand alone.
    | ']', ']' :: '>' :: _ => false
    | c, rest => isChar c && content fuel opened bindings rest

/-- The bindings around the content of a schema element. -/
def schemaBindings : Bindings := [
  ("xs".toList, "http://www.w3.org/2001/XMLSchema".toList), ("xml".toList, xmlNamespace)]

/-- Whether a text can be the content of a schema element. -/
def isSchemaContent (text : String) : Bool :=
  let cs := text.toList
  content (cs.length + 1) [] schemaBindings cs

end ProcessNets.Xml.WellFormed
