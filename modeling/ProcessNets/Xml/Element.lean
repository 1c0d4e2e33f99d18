/-!
# Element trees

XML documents as trees of elements. An element holds either a text or further elements.
-/

namespace ProcessNets.Xml

/-- An attribute: its name and its value, unescaped. -/
abbrev Attribute := String × String

/-- An element of a document, or a text that stands where an element would. -/
inductive Element where
  /-- An element with its attributes in written order, its text, and the elements in it. An
  element with elements in it has no text. -/
  | element (tag : String) (attributes : List Attribute) (text : String)
    (children : List Element)
  | text (text : String)
deriving Repr, Inhabited

namespace Element

/-- An element that holds only a text. -/
def leaf (tag : String) (text : String := "") (attributes : List Attribute := []) : Element :=
  .element tag attributes text []

/-- An element that holds only elements. -/
def node (tag : String) (children : List Element) (attributes : List Attribute := []) :
    Element :=
  .element tag attributes "" children

def tag? : Element → Option String
  | .element tag _ _ _ => some tag
  | .text _ => none

def children : Element → List Element
  | .element _ _ _ children => children
  | .text _ => []

def attributes : Element → List Attribute
  | .element _ attributes _ _ => attributes
  | .text _ => []

def attribute? (name : String) (e : Element) : Option String :=
  e.attributes.lookup name

mutual

/-- The tags of all elements of a tree, in document order. -/
def tags : Element → List String
  | .element tag _ _ children => tag :: tagsOf children
  | .text _ => []

/-- The tags of all elements of several trees, in document order. -/
def tagsOf : List Element → List String
  | [] => []
  | e :: rest => tags e ++ tagsOf rest

end

end Element

end ProcessNets.Xml
