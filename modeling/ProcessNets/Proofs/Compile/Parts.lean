import ProcessNets.Compile.Assembly

/-!
# Operations in parts

Some operations end in a stretch that several invariants are proved across. Here these stretches
have names, and the operations are put together from them again.
-/

namespace ProcessNets.Compile

open Net

variable {job : Job} {scope : Scope} {nested : Nested} {d inner : DecompositionId}
  {n : Diagram.NodeId} {host source : Net.NodeId}

/-! ### Placing -/

/-- What is left to do for the task of an activity once it is known what the task runs. -/
def finishActivity (job : Job) (d : DecompositionId) (n : Diagram.NodeId)
    (activity : Diagram.Activity) (task : Net.NodeId) (inner : DecompositionId) :
    Compile Net.NodeId := do
  declareTaskVariables d (some inner)
  if activity.multiInstance then
    let _ ← bindInstances job d n task
  if activity.loops || job.diagram.loopsByFlow n then
    registerLooping d n
  let _ ← bindResources job n task
  return task

theorem placeActivity_eq {activity : Diagram.Activity} {subnet : Option DecompositionId} :
    placeActivity job d n activity subnet = (do
      let task ← edit (.createTask d (← generateId "task") (job.diagram.node n).title)
      modify fun state => { state with met := {} }
      bindProperties d activity task
      bindAssignments d activity task
      let inner ← match subnet with
        | some inner =>
          edit (.updateTask task fun t => { t with decomposesTo := some inner })
          pure inner
        | none => edit (.ensureDecomposition task)
      finishActivity job d n activity task inner) :=
  rfl

/-- Places a child that is not on the boundary of an activity. -/
def placeFree (job : Job) (nested : Nested) (scope : Scope) (n : Diagram.NodeId) :
    Compile Scope := do
  let (placed, scope) ← place job nested scope n
  match placed with
  | some y =>
    tell (.placed (job.diagram.node n).kind.name (job.diagram.node n).id ((← spec).node y).id)
    return scope
  | none =>
    if (job.diagram.node n).kind.isGateway then
      return { scope with gateways := scope.gateways ++ [n] }
    return scope

theorem placeChild_eq : placeChild job nested scope n =
    let hosts := match (job.diagram.node n).kind.activity? with
      | some activity => if activity.attached.isEmpty then scope.hosts else scope.hosts ++ [n]
      | none => scope.hosts
    if (job.diagram.node n).kind.isAttached then return { scope with hosts }
    else placeFree job nested { scope with hosts } n :=
  rfl

/-! ### Folding -/

/-- The task that a gateway is folded onto. -/
def foldTask (job : Job) (scope : Scope) (n : Diagram.NodeId) : Compile Net.NodeId :=
  let fanIn (m : Diagram.NodeId) := (job.diagram.incomingFlows m).length
  let fanOut (m : Diagram.NodeId) := (job.diagram.outgoingFlows m).length
  if decide (1 < fanOut n) && decide (1 < fanIn n) then createRoutingTask scope
  else if decide (1 < fanIn n) then neighbourTask scope (job.diagram.successor? n) fanIn
  else neighbourTask scope (job.diagram.predecessor? n) fanOut

/-- Sets the decorators of a gateway and registers the task that has them. -/
def foldOnto (job : Job) (scope : Scope) (n : Diagram.NodeId) (split join : Bool)
    (task : Net.NodeId) : Compile (Net.NodeId × Scope) := do
  match (job.diagram.node n).kind with
  | .gateway routing => match decorator? routing with
    | some decorator => edit (modify (·.modifyTask task (decorate decorator split join)))
    | none => pure ()
  | _ => pure ()
  tell (.gatewayResolved (job.diagram.node n).id ((← spec).node task).id split join)
  return (task, scope.register n task)

theorem fold_eq : fold job scope n = (do
    let task ← foldTask job scope n
    foldOnto job scope n (decide (1 < (job.diagram.outgoingFlows n).length))
      (decide (1 < (job.diagram.incomingFlows n).length)) task) := by
  unfold fold foldTask
  dsimp only
  split
  · rfl
  · split
    · rfl
    · rfl

/-! ### Errors -/

/-- The error task of a decomposition, if there is one, sets a flag. -/
def setByError (inner : DecompositionId) (query : String) (flag : Variable)
    (missing routed : Log.Event) : Compile Unit := do
  match errorTask? (← spec) inner with
  | none => tell missing
  | some task =>
    let _ ← edit (.addCompleted task query flag)
    let _ ← edit (.ensureDecomposition task)
    tell routed

theorem bindInnerFlag_eq {event target : String} {flag : Variable} :
    bindInnerFlag host source event target flag inner = (do
      let s ← spec
      let innerId := (s.decomposition inner).id
      let name := innerFlag (s.node source).id
      let flagName := exceptionFlag (s.node host).id (s.node source).id
      let _ ← edit (.addCompleted host (flagQuery flagName innerId name) flag)
      let inside ← ensureFlag inner { name, type := "boolean" }
      let _ ← edit (.declareVariable inner .outputs { name, type := "boolean" })
      setByError inner (constantQuery name "true") inside (.noErrorSource innerId event)
        (.errorRouted event (s.node host).id target flagName)) :=
  rfl

end ProcessNets.Compile
