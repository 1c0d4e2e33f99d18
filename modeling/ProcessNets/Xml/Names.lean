/-!
# Names in namespaces

A tag of the form `{uri}name` stands for a name in a namespace. In a document it is written with
a short name for the namespace, which the root element declares.
-/

namespace ProcessNets.Xml

/-- What a tag stands for. -/
inductive TagName where
  | plain (name : String)
  | qualified (uri name : String)
  /-- A namespace is begun but not ended. -/
  | unclosed
deriving DecidableEq, Repr

/-- The parts of a text before and after its last closing brace. -/
def splitLastBrace : List Char → Option (List Char × List Char)
  | [] => none
  | c :: rest => match splitLastBrace rest with
    | some (before, after) => some (c :: before, after)
    | none => if c = '\x7d' then some ([], rest) else none

/-- Reads a tag. -/
def TagName.ofTag (tag : String) : TagName :=
  match tag.toList with
  | '\x7b' :: rest => match splitLastBrace rest with
    | some (uri, name) => .qualified (String.ofList uri) (String.ofList name)
    | none => .unclosed
  | _ => .plain tag

/-- The namespaces that have a short name of their own. -/
def wellKnown : List (String × String) := [
  ("http://www.w3.org/XML/1998/namespace", "xml"),
  ("http://www.w3.org/1999/xhtml", "html"),
  ("http://www.w3.org/1999/02/22-rdf-syntax-ns#", "rdf"),
  ("http://schemas.xmlsoap.org/wsdl/", "wsdl"),
  ("http://www.w3.org/2001/XMLSchema", "xs"),
  ("http://www.w3.org/2001/XMLSchema-instance", "xsi"),
  ("http://purl.org/dc/elements/1.1/", "dc")]

/-- Namespaces with their short names, in the order in which they were met. -/
abbrev Declarations := List (String × String)

/-- The declarations after one more tag. The short name `xml` needs no declaration. -/
def Declarations.meet (declared : Declarations) (tag : String) : Declarations :=
  match TagName.ofTag tag with
  | .qualified uri _ =>
    if (declared.lookup uri).isSome then declared
    else match wellKnown.lookup uri with
      | some short => if short == "xml" then declared else declared ++ [(uri, short)]
      | none => declared ++ [(uri, "ns" ++ toString declared.length)]
  | _ => declared

/-- The declarations that a document with the given tags needs. -/
def Declarations.ofTags (tags : List String) : Declarations :=
  tags.foldl Declarations.meet []

/-- A tag as it is written. -/
def Declarations.written (declared : Declarations) (tag : String) : String :=
  match TagName.ofTag tag with
  | .qualified uri name => match declared.lookup uri <|> wellKnown.lookup uri with
    | some short => short ++ ":" ++ name
    | none => name
  | _ => tag

/-- The attributes that declare the namespaces, by short name. -/
def Declarations.attributes (declared : Declarations) : List (String × String) :=
  (declared.mergeSort fun a b => a.2 ≤ b.2).map fun entry => ("xmlns:" ++ entry.2, entry.1)

end ProcessNets.Xml
