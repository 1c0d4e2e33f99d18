import ProcessNets.Compile.Placement
import ProcessNets.Net.Cancellation
import ProcessNets.Text.Search

/-!
# Events on activity boundaries

An error event becomes an edge from the host to the error handler, guarded by a flag that the
error end event inside the host sets. A timer becomes a task that starts together with the host;
the host and its timers cancel each other. A host with events other than timers splits
exclusively; outgoing edges that need another split move to a new task right behind it.
-/

namespace ProcessNets.Compile

open Net (DecompositionId EdgeId Variable constantQuery)

/-! ### Names -/

/-- The flag of a net that an error of a host sets. -/
def exceptionFlag (hostId sourceId : String) : String :=
  hostId ++ "_" ++ sourceId ++ "_exception"

/-- The guard of the edge to the error handler. -/
def exceptionPredicate (netId hostId sourceId : String) : String :=
  "/" ++ netId ++ "/" ++ exceptionFlag hostId sourceId ++ "/text()"

/-- The flag inside the decomposition of the host. -/
def innerFlag (sourceId : String) : String :=
  "_" ++ sourceId ++ "_exception"

/-- The query that copies the flag inside the host out of it. -/
def flagQuery (flag innerId inner : String) : String :=
  "<" ++ flag ++ ">\x7b/" ++ innerId ++ "/" ++ inner ++ "/text()\x7d</" ++ flag ++ ">"

/-- What the ids of tasks made from error end events contain. -/
def errorMark : String := "ErrorEvent"

/-! ### Targets and splits -/

/-- The counterpart of the first node that an event leads to. -/
def eventTarget (job : Job) (scope : Scope) (event : Diagram.NodeId) :
    Compile (Option Net.NodeId) := do
  let target := (job.diagram.successor? event).bind scope.map.find?
  -- Only the first flow counts, even where the target of another one has a counterpart.
  if target.isNone then tell (.noEventTarget (job.diagram.node event).id)
  return target

/-- Makes a host split exclusively; the result is the task that now leads to what followed the
host. -/
def splitExclusively (d : DecompositionId) (host : Net.NodeId) : Compile Net.NodeId := do
  let node := (← spec).node host
  let task ← edit (.requireTask host)
  let source ←
    if 1 < node.outgoing.length then
      let source ← edit (.createTask d (← generateId) "newSplitTask" task.split)
      edit (.moveOutgoing d host source)
      let _ ← edit (.link d host source 1)
      tell (.splitMoved node.id ((← spec).node source).id)
      pure source
    else pure host
  -- Where several edges needed the old split, it has moved with them.
  edit (.updateTask host fun t => { t with split := .xor })
  return source

/-! ### Error events -/

/-- The variable of a net with the given name, declared as a flag if there is none. -/
def ensureFlag (d : DecompositionId) (flag : Variable) : Compile Variable := do
  match ((← spec).decomposition d).findVariable? flag.name with
  | some known => return known
  | none =>
    edit (.appendVariable d .locals flag)
    return flag

/-- The first task of a decomposition that was made from an error end event. -/
def errorTask? (s : Specification) (d : DecompositionId) : Option Net.NodeId :=
  (s.tasks d).find? fun task => Text.occursIn errorMark.toList (s.node task).id.toList

/-- Leads a host to the handler of an error, in front of its other edges; those without
predicate become default edges. -/
def linkHandler (d : DecompositionId) (host target : Net.NodeId) (predicate : String) :
    Compile Unit := do
  let existing := ((← spec).node host).outgoing
  let _ ← edit (.linkFirst d host target predicate)
  -- The edges as they were before `linkFirst` put the new one in front of them.
  edit (existing.forM fun e => modify (·.modifyEdge e fun edge =>
    if edge.predicate.isEmpty then { edge with isDefault := true } else edge))

/-- Lets the decomposition of a host hand its flag over, and its error task set the flag. -/
def bindInnerFlag (host source : Net.NodeId) (event target : String) (flag : Variable)
    (inner : DecompositionId) : Compile Unit := do
  let s ← spec
  let innerId := (s.decomposition inner).id
  let name := innerFlag (s.node source).id
  let flagName := exceptionFlag (s.node host).id (s.node source).id
  let _ ← edit (.addCompleted host (flagQuery flagName innerId name) flag)
  let inside ← ensureFlag inner { name, type := "boolean" }
  let _ ← edit (.declareVariable inner .outputs { name, type := "boolean" })
  match errorTask? (← spec) inner with
  | none => tell (.noErrorSource innerId event)
  | some task =>
    let _ ← edit (.addCompleted task (constantQuery name "true") inside)
    let _ ← edit (.ensureDecomposition task)
    tell (.errorRouted event (s.node host).id target flagName)

/-- Routes an error event on the boundary of a host to what it leads to. -/
def routeError (job : Job) (scope : Scope) (host source : Net.NodeId) (event : Diagram.NodeId) :
    Compile Unit := do
  match ← eventTarget job scope event with
  | none => return
  | some target =>
    let d := scope.net
    let s ← spec
    let (hostId, sourceId) := ((s.node host).id, (s.node source).id)
    linkHandler d host target (exceptionPredicate (s.decomposition d).id hostId sourceId)
    let flag ← ensureFlag d
      { name := exceptionFlag hostId sourceId, type := "boolean", initialValue := "false" }
    match s.task? host >>= (·.decomposesTo) with
    | none => return
    | some inner =>
      bindInnerFlag host source (job.diagram.node event).id (s.node target).id flag inner

/-! ### Timer events -/

/-- The task of a timer on a boundary, registered and linked to what the event leads to. -/
def placeBoundaryTimer (job : Job) (state : Scope × List Net.NodeId) (timer : Diagram.NodeId) :
    Compile (Scope × List Net.NodeId) := do
  let (scope, tasks) := state
  let task ← placeTimer job scope.net timer true
  let scope := scope.register timer task
  match ← eventTarget job scope timer with
  | some target =>
    let _ ← edit (.link scope.net task target 1)
  | none => pure ()
  return (scope, tasks ++ [task])

/-- Lets a host and its timers cancel each other. -/
def cancelMutually (host : Net.NodeId) (timers : List Net.NodeId) : Compile Unit :=
  edit (timers.forM fun timer => do
    let _ ← Net.Edit.cancel host (some timer)
    let _ ← Net.Edit.cancel timer (some host)
    timers.forM fun other => do
      let _ ← Net.Edit.cancel timer (some other))

/-- One more than the greatest ordering of the edges that leave a node. -/
def nextOrdering (s : Specification) (n : Net.NodeId) : Int :=
  match (s.outgoing n).map (·.ordering) with
  | [] => 1
  | first :: rest => rest.foldl max first + 1

/-- The only way into a host is an edge from `predecessor`: a task whose parallel split can
enable the host's timers too. A condition cannot split, so a task is put behind it. -/
def sharedSource (d : DecompositionId) (host : Net.NodeId) (e : EdgeId)
    (predecessor : Net.NodeId) : Compile Net.NodeId := do
  let node := (← spec).node predecessor
  match node.kind with
  | .task task =>
    -- A task with several edges keeps its split for their sake, even one that starts no timer.
    if 1 < node.outgoing.length then
      if task.split ≠ .and then
        tell (.unsynchronizedTimers node.id ((← spec).node host).id task.split.name)
    else edit (.updateTask predecessor fun t => { t with split := .and })
    return predecessor
  | _ =>
    let router ← edit (.createTask d (← generateId) "Task" .and)
    edit (.redirectTarget d e router)
    let _ ← edit (.link d router host 1)
    return router

/-- A task that enables a host and its timers at the same time, if anything leads to the host. -/
def sharedPredecessor (d : DecompositionId) (host : Net.NodeId) :
    Compile (Option Net.NodeId) := do
  let s ← spec
  match (s.node host).incoming with
  | [] =>
    tell (.unreachableTimers (s.node host).id)
    return none
  | [e] =>
    let predecessor ← edit (.requireEnd (s.edge e).source)
    return some (← sharedSource d host e predecessor)
  | _ =>
    -- The join goes with the edges, which come together at the new task from now on.
    let join := (← edit (.requireTask host)).join
    let router ← edit (.createTask d (← generateId) "Task" .and join)
    edit (.moveIncoming d host router)
    let _ ← edit (.link d router host 1)
    edit (.updateTask host fun t => { t with join := .none })
    return some router

/-- Starts the timers of a host together with it. -/
def routeTimers (job : Job) (scope : Scope) (host : Net.NodeId) (timers : List Diagram.NodeId) :
    Compile Scope := do
  let (scope, tasks) ← timers.foldlM (placeBoundaryTimer job) (scope, [])
  cancelMutually host tasks
  match ← sharedPredecessor scope.net host with
  | none => return scope
  | some predecessor =>
    tasks.forM fun task => do
      let ordering := nextOrdering (← spec) predecessor
      let _ ← edit (.link scope.net predecessor task ordering)
    return scope

/-! ### All events of a host -/

/-- Routes an event other than a timer; only errors have a route. -/
def routeOther (job : Job) (scope : Scope) (n : Diagram.NodeId) (host source : Net.NodeId)
    (event : Diagram.NodeId) : Compile Unit := do
  let node := job.diagram.node event
  match node.kind with
  | .intermediate .error _ => routeError job scope host source event
  | kind => tell (.unroutedEvent kind.name node.id (job.diagram.node n).id)

def isTimer (job : Job) (n : Diagram.NodeId) : Bool :=
  match (job.diagram.node n).kind with
  | .intermediate trigger _ => trigger.isTimer
  | _ => false

/-- Routes the events on the boundary of an activity. -/
def routeBoundary (job : Job) (scope : Scope) (n : Diagram.NodeId) : Compile Scope := do
  let s ← spec
  match (scope.map.find? n).filter fun y => !(s.node y).kind.isCondition with
  | none =>
    tell (.noHostTask (job.diagram.node n).id)
    return scope
  | some host =>
    let events := (← requireActivity job n).attached
    let (timers, others) := events.partition (isTimer job)
    -- Timers come last: they change how the host is entered, the other events how it is left.
    let source ← if others.isEmpty then pure host else splitExclusively scope.net host
    others.forM (routeOther job scope n host source)
    if timers.isEmpty then return scope
    routeTimers job scope host timers

def routeAll (job : Job) (scope : Scope) : Compile Scope :=
  scope.hosts.foldlM (routeBoundary job) scope

end ProcessNets.Compile
