import ProcessNets.Compile.NodeMap
import ProcessNets.Compile.TaskVariables
import ProcessNets.Log
import ProcessNets.Net.Edit

/-!
# Compilation runs

The state of one compilation: the specification made so far, the counter behind generated ids,
the activities that still need a self loop, the variables of the task at hand, the events told,
and the nets that are finished.
-/

namespace ProcessNets.Compile

open Net (DecompositionId Role)

/-- What a compilation works from: a diagram, the role of each lane, and the depth from which on
subprocesses are compiled as plain tasks. -/
structure Job where
  diagram : Diagram
  roles : List (String × Role) := []
  nestingLimit : Int := 64

/-- The work on one net: its counterparts of nodes, and the nodes that later steps look at. -/
structure Scope where
  net : DecompositionId
  map : NodeMap := []
  /-- Gateways without a counterpart of their own, in the order in which they were met. -/
  gateways : List Diagram.NodeId := []
  /-- Activities with events on their boundary. -/
  hosts : List Diagram.NodeId := []
  /-- Terminate events that have been linked. -/
  terminations : List Diagram.NodeId := []
deriving DecidableEq, Repr, Inhabited

def Scope.register (scope : Scope) (n : Diagram.NodeId) (y : Net.NodeId) : Scope :=
  { scope with map := scope.map.insert n y }

/-- A finished net with the container that it was made from. -/
structure FinishedNet where
  container : Diagram.Container
  scope : Scope
deriving DecidableEq, Repr, Inhabited

/-- The state of a compilation. -/
structure State where
  spec : Specification
  /-- How many ids have been generated. -/
  count : Nat := 0
  /-- The activities of each net that need a self loop. -/
  looping : List (DecompositionId × List Diagram.NodeId) := []
  /-- The variables met for the task at hand. -/
  met : TaskVariables := {}
  log : Array Log.Event := #[]
  finished : List FinishedNet := []

/-- Why a step of a compilation fails. -/
inductive Fault where
  /-- An operation on the specification fails. -/
  | edit (fault : Net.Fault)
  /-- A node of the diagram is of another kind than the step is for. -/
  | unsuited (node : Diagram.NodeId)
deriving DecidableEq, Repr

def Fault.message : Fault → String
  | .edit fault => fault.message
  | .unsuited _ => "node is of another kind"

end Compile

/-- A step of a compilation. A step that fails keeps the changes made before. -/
abbrev Compile := ExceptT Compile.Fault (StateM Compile.State)

namespace Compile

open Net (DecompositionId Edit)

/-- Runs an operation on the specification. -/
def edit {α : Type} (operation : Edit α) : Compile α :=
  ExceptT.mk fun state =>
    let (result, spec) := operation.run state.spec
    (result.mapError .edit, { state with spec })

def spec : Compile Specification :=
  return (← get).spec

def requireActivity (job : Job) (n : Diagram.NodeId) : Compile Diagram.Activity :=
  match (job.diagram.node n).kind.activity? with
  | some activity => return activity
  | none => throw (.unsuited n)

def tell (event : Log.Event) : Compile Unit :=
  modify fun state => { state with log := state.log.push event }

/-! ### Ids -/

/-- The id that the counter makes of a stem. -/
def nodeId (stem : String) (count : Nat) : String :=
  "Node_" ++ stem ++ "_" ++ toString count

/-- An id that no other call of the run returns. -/
def generateId (stem : String := "gw") : Compile String := do
  let state ← get
  set { state with count := state.count + 1 }
  return nodeId stem state.count

/-! ### Looping activities -/

/-- The registry with an activity added to the list of a net, once. -/
def registered (d : DecompositionId) (n : Diagram.NodeId) :
    List (DecompositionId × List Diagram.NodeId) → List (DecompositionId × List Diagram.NodeId)
  | [] => [(d, [n])]
  | (k, nodes) :: rest =>
    if k = d then (k, if n ∈ nodes then nodes else nodes ++ [n]) :: rest
    else (k, nodes) :: registered d n rest

/-- Notes that an activity of a net needs a self loop. -/
def registerLooping (d : DecompositionId) (n : Diagram.NodeId) : Compile Unit :=
  modify fun state => { state with looping := registered d n state.looping }

/-- Takes the activities of a net that need a self loop off the registry. -/
def takeLooping (d : DecompositionId) : Compile (List Diagram.NodeId) := do
  let state ← get
  set { state with looping := state.looping.filter (·.1 ≠ d) }
  return (state.looping.lookup d).getD []

end Compile

end ProcessNets
