import ProcessNets.Compile.TaskData
import ProcessNets.Compile.WorkItems
import ProcessNets.Diagram.Cycle
import ProcessNets.Text.Blank

/-!
# Counterparts of diagram nodes

Every node of a container gets its counterpart in the net: activities, timers and some events
become tasks, start and end events the conditions of the net, and event-based gateways
conditions. Control gateways are left to be folded onto their neighbours.
-/

namespace ProcessNets.Compile

open Net (DecompositionId Timer TimerTrigger Variable variableQuery)
open Calendar (Moment ShortDate.read)

/-- How subprocesses get nets of their own, or nothing at the nesting limit. -/
abbrev Nested := Option (Diagram.NodeId → Compile DecompositionId)

/-! ### Activities -/

/-- The task of an activity. It runs the given subnet, or else a task-level decomposition. -/
def placeActivity (job : Job) (d : DecompositionId) (n : Diagram.NodeId)
    (activity : Diagram.Activity) (subnet : Option DecompositionId) : Compile Net.NodeId := do
  let task ← edit (.createTask d (← generateId "task") (job.diagram.node n).title)
  -- What was met for the activity before does not count for this one.
  modify fun state => { state with met := {} }
  bindProperties d activity task
  bindAssignments d activity task
  let inner ← match subnet with
    | some inner =>
      edit (.updateTask task fun t => { t with decomposesTo := some inner })
      pure inner
    | none => edit (.ensureDecomposition task)
  declareTaskVariables d (some inner)
  if activity.multiInstance then
    let _ ← bindInstances job d n task
  if activity.loops || job.diagram.loopsByFlow n then
    registerLooping d n
  let _ ← bindResources job n task
  return task

/-- The task of a subprocess, whose net is made first. -/
def placeSubprocess (job : Job) (nested : Nested) (d : DecompositionId) (n : Diagram.NodeId)
    (activity : Diagram.Activity) : Compile Net.NodeId := do
  match nested with
  | some build =>
    -- The subnet is complete before the task exists, so its ids come first.
    let subnet ← build n
    placeActivity job d n activity (some subnet)
  | none =>
    tell (.nestedTooDeep (job.diagram.node n).id job.nestingLimit)
    placeActivity job d n activity none

/-! ### Events -/

/-- A task that stands for an event, with a decomposition of its own. -/
def placeEventTask (d : DecompositionId) (stem name : String) : Compile Net.NodeId := do
  let task ← edit (.createTask d (← generateId stem) name)
  let _ ← edit (.ensureDecomposition task)
  return task

/-- The moment that the date of a timer event gives, if it gives a readable one. -/
def timerMoment (eventId date : String) : Compile (Option Moment) := do
  let text := Text.strip date
  if text.isEmpty then return none
  match ShortDate.read text with
  | .ok moment => return some moment
  | .error fault =>
    tell (.unreadableDate eventId text fault)
    return none

/-- The task of a timer event. Its timer runs from when the task is enabled, or, for a timer on
the boundary of an activity, from when the activity executes; a variable named after the task can
give its value at run time. -/
def placeTimer (job : Job) (d : DecompositionId) (n : Diagram.NodeId) (attached : Bool) :
    Compile Net.NodeId := do
  let node := job.diagram.node n
  let taskId ← generateId "timer"
  let task ← edit (.createTask d taskId "TimerTask")
  let (date, cycle) ← match node.kind with
    | .intermediate (.timer date cycle) _ => pure (date, cycle)
    | _ => throw (.unsuited n)
  let moment ← timerMoment node.id date
  let v : Variable := { name := taskId ++ "_timer" }
  let trigger : TimerTrigger := if attached then .onExecuting else .onEnabled
  let timer : Timer := { trigger, cycle, moment, netParameter := v.name }
  edit (.updateTask task fun t => { t with timer := some timer })
  edit (.appendVariable d .locals v)
  let _ ← edit (.addStarting task (← netQuery d v) v)
  let inner ← edit (.ensureDecomposition task)
  let _ ← edit (.declareVariable inner .inputs v)
  return task

/-- Whether the node before, if there is one, is a gateway. -/
def followsGateway (job : Job) (n : Diagram.NodeId) : Bool :=
  ((job.diagram.predecessor? n).map fun p => (job.diagram.node p).kind.isGateway).getD false

/-- Whether the node after, if there is one, is a gateway. -/
def leadsToGateway (job : Job) (n : Diagram.NodeId) : Bool :=
  ((job.diagram.successor? n).map fun p => (job.diagram.node p).kind.isGateway).getD false

/-- Whether the node before, if there is one, is an event-based gateway. -/
def followsEventGateway (job : Job) (n : Diagram.NodeId) : Bool :=
  ((job.diagram.predecessor? n).map fun p =>
    (job.diagram.node p).kind == .gateway .eventBased).getD false

/-- An intermediate event behind a gateway becomes a task; elsewhere it has no counterpart. -/
def placeBranchEvent (job : Job) (d : DecompositionId) (n : Diagram.NodeId) :
    Compile (Option Net.NodeId) := do
  if followsGateway job n then
    return some (← placeEventTask d "intermediate" "TaskMappedFromIntermediateEvent")
  tell (.noCounterpart (job.diagram.node n).id)
  return none

/-- An event without trigger is a task behind a gateway, or else a condition before one. -/
def placePlainEvent (job : Job) (d : DecompositionId) (n : Diagram.NodeId) :
    Compile (Option Net.NodeId) := do
  if !followsGateway job n && leadsToGateway job n then
    let id ← generateId "plain"
    return some (← edit (.createCondition d id "ConditionMappedFromIntermediatePlainEvent"))
  placeBranchEvent job d n

/-- A message event behind an event-based gateway is one of the events that decide there. -/
def placeMessageEvent (job : Job) (d : DecompositionId) (n : Diagram.NodeId) :
    Compile (Option Net.NodeId) := do
  if followsEventGateway job n then
    return some (← placeEventTask d "msg" "TaskMappedFromIntermediateMessageEvent")
  placeBranchEvent job d n

/-! ### Event-based gateways -/

/-- An event-based gateway is the condition before it, if there is one, or a new condition. -/
def placeEventGateway (job : Job) (scope : Scope) (n : Diagram.NodeId) :
    Compile Net.NodeId := do
  let s ← spec
  let before := (job.diagram.predecessor? n).bind scope.map.find?
  match before.filter fun y => (s.node y).kind.isCondition with
  | some condition => return condition
  | none => edit (.createCondition scope.net (← generateId "EXorGW") "Condition")

/-! ### All nodes -/

/-- The counterpart of a node, none if it is left to be folded or has nothing like it. -/
def counterpart (job : Job) (nested : Nested) (scope : Scope) (n : Diagram.NodeId) :
    Compile (Option Net.NodeId) := do
  let d := scope.net
  match (job.diagram.node n).kind with
  | .task activity _ => return some (← placeActivity job d n activity none)
  | .subprocess activity _ => return some (← placeSubprocess job nested d n activity)
  | .startEvent =>
    return some (← edit (.createInputCondition d (← generateId "input") "inputCondition"))
  | .endEvent .plain =>
    return some (← edit (.createOutputCondition d (← generateId "output") "outputCondition"))
  | .endEvent .error =>
    return some (← edit (.createTask d (← generateId "ErrorEvent") "TaskMappedFromErrorEvent"))
  | .endEvent .terminate =>
    return some (← edit (.createTask d (← generateId "endTerminate") "CancellationTask"))
  | .intermediate .plain _ => placePlainEvent job d n
  | .intermediate (.timer ..) _ => return some (← placeTimer job d n false)
  | .intermediate .message _ => placeMessageEvent job d n
  | .intermediate .error _ => placeBranchEvent job d n
  | .gateway .eventBased => return some (← placeEventGateway job scope n)
  | .gateway _ => return none
  | .dataObject .. => return none

/-- Registers the counterpart of a node, if it has one. -/
def place (job : Job) (nested : Nested) (scope : Scope) (n : Diagram.NodeId) :
    Compile (Option Net.NodeId × Scope) := do
  match ← counterpart job nested scope n with
  | some y => return (some y, scope.register n y)
  | none => return (none, scope)

/-- Places one child of a container. Events on boundaries wait for their hosts, and gateways
without counterpart for their neighbours. -/
def placeChild (job : Job) (nested : Nested) (scope : Scope) (n : Diagram.NodeId) :
    Compile Scope := do
  let node := job.diagram.node n
  let hosts := match node.kind.activity? with
    | some activity => if activity.attached.isEmpty then scope.hosts else scope.hosts ++ [n]
    | none => scope.hosts
  -- A host is noted before it is placed, so it is routed even if it gets no counterpart.
  let scope := { scope with hosts }
  if node.kind.isAttached then return scope
  let (placed, scope) ← place job nested scope n
  match placed with
  | some y =>
    tell (.placed node.kind.name node.id ((← spec).node y).id)
    return scope
  | none =>
    if node.kind.isGateway then return { scope with gateways := scope.gateways ++ [n] }
    return scope

end ProcessNets.Compile
