import ProcessNets.Net.Variables

/-!
# Variables of one task

The variables that an activity uses, collected before its task has a decomposition that could
declare them.
-/

namespace ProcessNets.Compile

open Net (Decomposition Variable VariableList declare findVariable?)

/-- The variables met while an activity is compiled, before its task has a decomposition. -/
structure TaskVariables where
  locals : List Variable := []
  inputs : List Variable := []
  outputs : List Variable := []
deriving DecidableEq, Repr, Inhabited

namespace TaskVariables

def find? (tv : TaskVariables) (name : String) : Option Variable :=
  findVariable? name (tv.locals ++ tv.inputs ++ tv.outputs)

def note (tv : TaskVariables) (which : VariableList) (v : Variable) : TaskVariables :=
  match which with
  | .locals => { tv with locals := declare tv.locals v }
  | .inputs => { tv with inputs := declare tv.inputs v }
  | .outputs => { tv with outputs := declare tv.outputs v }

/-- The variable that a name means inside a net. A variable that the net knows already is noted
in the given list; an unknown one becomes a new local of the task. -/
def resolve (tv : TaskVariables) (net : Decomposition) (which : VariableList) (v : Variable) :
    Variable × TaskVariables :=
  match tv.find? v.name with
  | some known => (known, tv)
  | none => match net.findVariable? v.name with
    | some known => (known, tv.note which known)
    -- Whatever list was asked for: a name that nobody knows has to be declared in the net.
    | none => (v, { tv with locals := tv.locals ++ [v] })

end TaskVariables

end ProcessNets.Compile
