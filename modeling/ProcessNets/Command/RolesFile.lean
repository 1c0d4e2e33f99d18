import ProcessNets.Json.Reader
import ProcessNets.Net.Basic

/-!
# Roles files

A roles file is a JSON object that gives each lane its role: the id of the role as a text, or an
object with an id and, where they are given, a name and a kind.
-/

namespace ProcessNets.Command.RolesFile

open Json (Value)
open Net (Role)

/-- Why a text is no roles file. -/
inductive Fault where
  | unreadable (fault : Json.Fault)
  | notAnObject
  /-- The value of a lane is no role. -/
  | invalidEntry (lane : String) (value : Value)
deriving DecidableEq, Repr

def Fault.message (path : String) : Fault → String
  | .unreadable .malformed => s!"Resourcing file {path} is no JSON document"
  | .unreadable (.tooManyDigits count) => Json.tooManyDigitsMessage count
  | .unreadable (.tooDeep nest) => Json.tooDeepMessage nest
  | .notAnObject => s!"Resourcing file {path} must hold a JSON object"
  | .invalidEntry lane value =>
    let shown := value.shown
    s!"Invalid resourcing entry for lane {lane}: {shown}"

/-- The role that a value gives: a text is both id and name, and the name of an object is its id
unless it has a name of its own. An id that says nothing is none. -/
def role? : Value → Option Role
  | .string id => some { id := .string id, name := .string id }
  | .object members =>
    let entry := Value.object members
    match entry.member? "id" with
    | some id =>
      if id.isVacant then none
      else some {
        id
        name := (entry.member? "name").getD id
        kind := (entry.member? "kind").getD (.string "role") }
    | none => none
  | _ => none

/-- The roles of the lanes that an object names, up to the first lane without a role. -/
def roles : List (String × Value) → Except Fault (List (String × Role))
  | [] => .ok []
  | (lane, value) :: rest => match role? value with
    | none => .error (.invalidEntry lane value)
    | some role => do
      let others ← roles rest
      .ok ((lane, role) :: others)

/-- The roles that the text of a roles file gives, in the order of the file. -/
def read (text : String) : Except Fault (List (String × Role)) :=
  match Json.read text with
  | .error fault => .error (.unreadable fault)
  | .ok (.object members) => roles members
  | .ok _ => .error .notAnObject

end ProcessNets.Command.RolesFile
