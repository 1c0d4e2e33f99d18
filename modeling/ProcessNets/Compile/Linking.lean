import ProcessNets.Compile.Run

/-!
# Linking counterparts

Sequence flows become edges. The edges of a net node are numbered from 1 in the order of the
flows; a default flow is held back until its siblings have their numbers, so it comes last. Flows
to nodes without counterpart are dropped, and so are flows between nodes that were folded onto
one task, unless a gateway leads back to itself.
-/

namespace ProcessNets.Compile

/-- How many edges of each net node have a number. -/
abbrev Numbering := Net.NodeId → Nat

/-- The numbering after one more edge of a node. -/
def Numbering.next (numbering : Numbering) (y : Net.NodeId) : Numbering :=
  fun z => if z = y then numbering y + 1 else numbering z

/-- Links a node to a target by an edge with the next number. -/
def linkNext (scope : Scope) (numbering : Numbering) (source target : Net.NodeId)
    (predicate : String) (isDefault : Bool) : Compile Numbering := do
  let ordering : Nat := numbering source + 1
  let _ ← edit (.link scope.net source target ordering predicate isDefault)
  return numbering.next source

/-- Links one sequence flow, or holds it back if it is the default flow: the result tells the
numbering and the target of the default flow held back last. -/
def linkFlow (job : Job) (scope : Scope) (n : Diagram.NodeId) (source : Net.NodeId)
    (state : Numbering × Option Net.NodeId) (flow : Diagram.Flow) :
    Compile (Numbering × Option Net.NodeId) := do
  let (numbering, heldBack) := state
  let node := job.diagram.node n
  match scope.map.find? flow.target with
  | none =>
    tell (.flowDropped node.id (job.diagram.node flow.target).id)
    return state
  | some target =>
    -- Two nodes on one task: the flow between them has become part of the task.
    if source = target ∧ ¬(node.kind.isGateway ∧ flow.target = n) then return state
    match flow.conditionType with
    -- A second default flow takes the place of the first, which then has no edge.
    | .default => return (numbering, some target)
    | .expression =>
      return (← linkNext scope numbering source target flow.expression false, heldBack)
    | .none => return (← linkNext scope numbering source target "" false, heldBack)

/-- Links all flows that leave a node, the default flow last. -/
def linkFlows (job : Job) (scope : Scope) (n : Diagram.NodeId) (source : Net.NodeId)
    (numbering : Numbering) : Compile Numbering := do
  let flows := job.diagram.outgoingFlows n
  let (numbering, heldBack) ← flows.foldlM (linkFlow job scope n source) (numbering, none)
  match heldBack with
  | some target => linkNext scope numbering source target "" true
  | none => return numbering

/-- Links the task of an error or terminate event to the output condition. -/
def linkToOutput (scope : Scope) (source : Net.NodeId) : Compile Unit := do
  let output := ((← spec).decomposition scope.net).outputCondition
  let _ ← edit (.createEdge scope.net { source := some source, target := output, ordering := 1 })

/-- Links one node of the map. Error and terminate events lead to the output condition only. -/
def linkNode (job : Job) (state : Scope × Numbering)
    (entry : Diagram.NodeId × Net.NodeId) : Compile (Scope × Numbering) := do
  let (scope, numbering) := state
  let (n, source) := entry
  match (job.diagram.node n).kind with
  | .endEvent .error =>
    linkToOutput scope source
    return state
  | .endEvent .terminate =>
    linkToOutput scope source
    return ({ scope with terminations := scope.terminations ++ [n] }, numbering)
  | _ => return (scope, ← linkFlows job scope n source numbering)

/-- Links all nodes of a net, in the order of the map. -/
def linkAll (job : Job) (scope : Scope) : Compile Scope := do
  let (scope, _) ← scope.map.foldlM (linkNode job) (scope, fun _ => 0)
  return scope

end ProcessNets.Compile
