import ProcessNets.Xml.Element
import ProcessNets.Xml.Names

/-!
# Printing XML

Elements in elements stand on lines of their own, indented by two spaces for each level. An
element with neither text nor elements is written as a single empty tag.
-/

namespace ProcessNets.Xml

/-! ### Escapes -/

/-- A character as it is written in the text of an element. -/
def escapeTextChar : Char → List Char
  | '&' => "&amp;".toList
  | '<' => "&lt;".toList
  | '>' => "&gt;".toList
  | c => [c]

/-- A character as it is written in the value of an attribute. -/
def escapeAttributeChar : Char → List Char
  | '&' => "&amp;".toList
  | '<' => "&lt;".toList
  | '>' => "&gt;".toList
  | '"' => "&quot;".toList
  | '\r' => "&#13;".toList
  | '\n' => "&#10;".toList
  | '\t' => "&#09;".toList
  | c => [c]

def escapeText (text : String) : List Char :=
  text.toList.flatMap escapeTextChar

def escapeAttribute (text : String) : List Char :=
  text.toList.flatMap escapeAttributeChar

/-! ### Elements -/

/-- An attribute with the space before it. -/
def printAttribute (a : Attribute) : List Char :=
  ' ' :: a.1.toList ++ "=\"".toList ++ escapeAttribute a.2 ++ ['"']

/-- A line break and the indentation of a level. -/
def newLine (level : Nat) : List Char :=
  '\n' :: List.replicate (2 * level) ' '

mutual

/-- An element whose own line is indented for the given level. -/
def printAt (declared : Declarations) (level : Nat) : Element → List Char
  | .text text => escapeText text
  | .element tag attributes text children =>
    let name := (declared.written tag).toList
    let start := '<' :: name ++ attributes.flatMap printAttribute
    let finish := "</".toList ++ name ++ ['>']
    match children with
    | [] =>
      if text.isEmpty then start ++ " />".toList
      else start ++ '>' :: escapeText text ++ finish
    | first :: rest =>
      start ++ '>' :: printLines declared (level + 1) (first :: rest) ++ newLine level ++ finish

/-- Elements on lines of their own at the given level. -/
def printLines (declared : Declarations) (level : Nat) : List Element → List Char
  | [] => []
  | e :: rest => newLine level ++ printAt declared level e ++ printLines declared level rest

end

/-- The declaration in front of a document. -/
def declaration : String :=
  "<?xml version=\"1.0\" encoding=\"UTF-8\"?>\n"

/-- The root with the declarations of the namespaces in front of its attributes. -/
def declareNamespaces (declared : Declarations) : Element → Element
  | .element tag attributes text children =>
    .element tag (declared.attributes ++ attributes) text children
  | e => e

/-- A document with the given root, as characters. -/
def printDocument (root : Element) : List Char :=
  let declared := Declarations.ofTags root.tags
  declaration.toList ++ printAt declared 0 (declareNamespaces declared root)

end ProcessNets.Xml
