import ProcessNets.Compile.Boundary
import ProcessNets.Compile.Folding
import ProcessNets.Compile.Linking
import ProcessNets.Compile.SelfLoop

/-!
# Assembling nets

A container becomes a net in stages: all its nodes are placed and its gateways folded, its data
objects bound, its flows linked, and last the linked net is refined by boundary events, self
loops and cancellation sets. A subprocess gets its own net while its node is placed, unless it
lies at the nesting limit.
-/

namespace ProcessNets.Compile

open Net (DecompositionId)
open Diagram (Container)

/-! ### Stages -/

/-- The id of the net of a pool. -/
def rootNetId : String := "BPMNtoYAWL_Net"

def openRoot : Compile DecompositionId :=
  edit (.createDecomposition rootNetId .net true)

/-- The decomposition for a container: the root net for a pool, one named after the label for a
subprocess. A node that is no subprocess is taken for a pool, and has no children to place. -/
def openNet (job : Job) : Container → Compile DecompositionId
  | .pool _ => openRoot
  | .subprocess n => do
    let node := job.diagram.node n
    match node.kind with
    | .subprocess .. =>
      let id ← generateId (String.ofList (node.title.toList.filter (· ≠ ' ')))
      edit (.createDecomposition id)
    | _ =>
      -- The net is made before the failure, which leaves it behind.
      let _ ← openRoot
      throw (.unsuited n)

/-- Adds the output and the input condition of a net if no event of the diagram gave them. A net
without any counterpart leads from the one straight to the other. -/
def closeConditions (scope : Scope) : Compile Unit := do
  let d := scope.net
  if ((← spec).decomposition d).outputCondition.isNone then
    let _ ← edit (.createOutputCondition d (← generateId "Output") "Output Condition")
  if ((← spec).decomposition d).inputCondition.isNone then
    let _ ← edit (.createInputCondition d (← generateId "Input") "Input Condition")
    -- Nothing was placed, so nothing else will lead to the output condition.
    if scope.map.isEmpty then
      let _ ← edit (.connectInputToOutput d)

/-- Places the nodes of a container and folds its gateways. -/
def layOut (job : Job) (nested : Nested) (container : Container) : Compile Scope := do
  let d ← openNet job container
  let scope ← (job.diagram.children container).foldlM (placeChild job nested) { net := d }
  let scope ← foldAll job scope
  closeConditions scope
  return scope

/-- The data objects that a net may use: those of the diagram, then those of the container. -/
def dataObjects (job : Job) (container : Container) : List Diagram.NodeId :=
  (job.diagram.children container).foldl
    (fun found n =>
      if (job.diagram.node n).kind.isDataObject ∧ n ∉ found then found ++ [n] else found)
    job.diagram.dataObjects

def bindData (job : Job) (container : Container) (scope : Scope) : Compile Unit :=
  (dataObjects job container).forM fun n => do
    let _ ← bindDataObject job scope n

/-- Lets the tasks of terminate events cancel everything else in their net. -/
def terminateAll (scope : Scope) : Compile Unit :=
  scope.terminations.forM fun n => do
    match scope.map.find? n with
    | some task => edit (.cancelAll scope.net task)
    | none => throw (.edit .notATask)

/-- Refines a linked net: boundary events, self loops and cancellation sets. -/
def refine (job : Job) (scope : Scope) : Compile Scope := do
  let scope ← routeAll job scope
  loopAll job scope
  terminateAll scope
  return scope

/-! ### Whole nets -/

/-- The net of a container, given how the subprocesses in it get theirs. -/
def assemble (job : Job) (nested : Nested) (container : Container) :
    Compile DecompositionId := do
  let scope ← layOut job nested container
  bindData job container scope
  let scope ← linkAll job scope
  let scope ← refine job scope
  let net := (← spec).decomposition scope.net
  tell (.decompositionBuilt net.id net.nodes.length net.edges.length)
  modify fun state => { state with finished := state.finished ++ [{ container, scope }] }
  return scope.net

/-- The net of a container below which subprocesses may nest `levels` deep. -/
def build (job : Job) : (levels : Nat) → Container → Compile DecompositionId
  | 0, container => assemble job none container
  | levels + 1, container =>
    assemble job (some fun n => build job levels (.subprocess n)) container

/-- How many levels of subprocesses may follow a net at a depth. -/
def levelsBelow (job : Job) (depth : Int) : Nat :=
  (job.nestingLimit - depth).toNat

/-- How subprocesses get nets at a depth: not at all once the nesting limit is reached. -/
def nestedAt (job : Job) (depth : Int) : Nested :=
  if depth < job.nestingLimit then
    some fun n => build job (levelsBelow job (depth + 1)) (.subprocess n)
  else none

end ProcessNets.Compile
