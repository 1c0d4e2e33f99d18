import ProcessNets.Log
import ProcessNets.Net.Document
import ProcessNets.Text.Blank
import ProcessNets.Text.Search
import ProcessNets.Xml.Printer
import ProcessNets.Xml.WellFormed

/-!
# Written specifications

The text of a specification. The data type definition is not part of the element tree: the tree
holds a placeholder, and the definition takes its place in the printed text. A definition that is
not well-formed is left out.
-/

namespace ProcessNets.Net

open Json (Value)

/-! ### Roles that cannot be written -/

/-- Why a specification cannot be written: each time because of a role. -/
inductive WriteFault where
  /-- The id or the kind of a role is no text. -/
  | unserializable (value : Value)
  /-- The id of a role is a list or an object without anything to escape. -/
  | notText (value : Value)
  /-- The kind of a role begins a namespace and does not end it. -/
  | unclosedNamespace
deriving DecidableEq, Repr

def WriteFault.message : WriteFault → String
  | .unserializable v => s!"cannot serialize {v.shown} (type {v.typeName})"
  | .notText v => s!"string argument expected, got '{v.typeName}'"
  | .unclosedNamespace => "not enough values to unpack (expected 2, got 1)"

/-- Why the kind of a role is no tag. -/
def kindFault? : Value → Option WriteFault
  | .null => none
  | .string kind => match Xml.TagName.ofTag kind with
    | .unclosed => some .unclosedNamespace
    | _ => none
  | v => some (.unserializable v)

/-- The texts that have an escaped form in documents. -/
def escapedTexts : List String := ["&", "<", ">"]

/-- Why the id of a role is no text. -/
def idFault? (v : Value) : Option WriteFault :=
  if v.isVacant then none
  else match v with
    | .string _ => none
    | .array items =>
      if items.any fun item => escapedTexts.any fun t => item = .string t then
        some (.unserializable v)
      else some (.notText v)
    | .object members =>
      if members.any fun m => m.1 ∈ escapedTexts then some (.unserializable v)
      else some (.notText v)
    | _ => some (.unserializable v)

/-- The roles that a resourcing names, in written order. -/
def Resourcing.roles (r : Resourcing) : List Role :=
  r.offerSet.getD [] ++ r.allocateSet.getD []

end ProcessNets.Net

namespace ProcessNets.Specification

open Net

/-- The roles that a decomposition names, in written order. -/
def decompositionRoles (s : Specification) (d : Decomposition) : List Role :=
  match d.facts with
  | .webServiceGateway => []
  | .net => (s.writtenNodes d).flatMap fun n =>
    ((s.task? n >>= (·.resourcing)).map Resourcing.roles).getD []

/-- All roles that a specification names, in written order. -/
def roles (s : Specification) : List Role :=
  s.writtenDecompositions.flatMap s.decompositionRoles

/-- Why a specification cannot be written. Kinds are looked at before ids. -/
def writeFault? (s : Specification) : Option WriteFault :=
  (s.roles.findSome? fun role => kindFault? role.kind) <|>
    s.roles.findSome? fun role => idFault? role.id

/-! ### Data type definitions -/

/-- The text that the data type definition takes the place of. -/
def placeholder : String := "@@DATA_TYPE_DEFINITION@@"

/-- The data type definition without blanks around it. -/
def strippedDefinition (s : Specification) : String :=
  Text.strip s.typeDefinition

/-- The data type definition that is written: empty if it is not well-formed. -/
def writtenDefinition (s : Specification) : String :=
  if Xml.WellFormed.isSchemaContent s.strippedDefinition then s.strippedDefinition else ""

/-- What is told of the data type definition. -/
def definitionEvents (s : Specification) : List Log.Event :=
  if !s.strippedDefinition.isEmpty && s.writtenDefinition.isEmpty then
    [.definitionIgnored s.id]
  else []

/-! ### Text -/

/-- The text of a specification whose roles can be written. -/
def text (s : Specification) : String :=
  let definition := s.writtenDefinition
  if definition.isEmpty then String.ofList (Xml.printDocument (s.toDocument ""))
  else
    Text.replaceAll placeholder definition
      (String.ofList (Xml.printDocument (s.toDocument placeholder)))

/-- The text of a specification, or why there is none, and what is told on the way. -/
def write (s : Specification) : Except WriteFault String × List Log.Event :=
  let result := match s.writeFault? with
    | some fault => .error fault
    | none => .ok s.text
  (result, s.definitionEvents)

end ProcessNets.Specification
