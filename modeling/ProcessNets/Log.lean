import ProcessNets.Calendar.ShortDate
import ProcessNets.Text.Quoted

/-!
# Records of a run

What is worth telling of a run: each event has a level, the name of the part that tells it, and a
message.
-/

namespace ProcessNets.Log

open ProcessNets.Text (quoted quotedList)

/-- How much an event matters. -/
inductive Level where
  | debug
  | info
  | warning
deriving DecidableEq, Repr, Inhabited

namespace Level

/-- The rank of a level; a greater one matters more. -/
def rank : Level → Nat
  | .debug => 0
  | .info => 1
  | .warning => 2

def name : Level → String
  | .debug => "DEBUG"
  | .info => "INFO"
  | .warning => "WARNING"

end Level

/-- What can happen while a diagram is loaded, compiled and written. Nodes, decompositions and
variables are given by their ids and names. -/
inductive Event where
  /-- A URI holds a character that no URI may hold. -/
  | malformedUri (uri : String)
  /-- A subject of the graph has no type that stands for a part of a diagram. -/
  | unknownType (types : List String) (subject : String)
  /-- The flow condition of a multi-instance activity is none of the known ones. -/
  | unknownInstanceFlow (condition subject : String)
  /-- A node without parent is put into the first pool. -/
  | orphan (node pool : String)
  /-- An association refers to a node that is not declared. -/
  | danglingAssociation (association : String)
  /-- A boundary event refers to something that is no activity. -/
  | strayBoundaryEvent (event : String)
  | loaded (pools nodes flows : Nat)
  | poolStarted (pool label model : String)
  | poolFinished (pool : String) (decompositions ids : Nat)
  /-- A node of the diagram has its counterpart in the net. -/
  | placed (kind node counterpart : String)
  | decompositionBuilt (decomposition : String) (nodes edges : Nat)
  /-- A subprocess lies deeper than the nesting limit. -/
  | nestedTooDeep (subprocess : String) (limit : Int)
  /-- An intermediate event stands where a net has nothing like it. -/
  | noCounterpart (event : String)
  | unreadableDate (event text : String) (fault : Calendar.ShortDate.Fault)
  /-- A flow leads to a node without counterpart. -/
  | flowDropped (source target : String)
  | gatewayResolved (gateway task : String) (split join : Bool)
  | noLoopTask (activity decomposition : String)
  | selfLoopAdded (task : String)
  /-- The host of boundary events has no task. -/
  | noHostTask (activity : String)
  /-- A boundary event that neither is a timer nor carries an error. -/
  | unroutedEvent (kind event activity : String)
  | splitMoved (host task : String)
  | noErrorSource (decomposition event : String)
  | errorRouted (event host target flag : String)
  /-- The timers of a task cannot start because nothing leads to the task. -/
  | unreachableTimers (host : String)
  /-- The timers of a task start on a branch of their own. -/
  | unsynchronizedTimers (predecessor host split : String)
  /-- A boundary event leads to no node of the net. -/
  | noEventTarget (event : String)
  | variableKnown (name decomposition : String)
  | multiInstanceTask (task : String) (threshold : Int)
  | noRole (lane : String)
  /-- The data type definition is not well-formed. -/
  | definitionIgnored (model : String)
deriving DecidableEq, Repr

namespace Event

def level : Event → Level
  | .malformedUri .. | .unknownType .. | .unknownInstanceFlow .. | .danglingAssociation ..
  | .strayBoundaryEvent .. | .nestedTooDeep .. | .noCounterpart .. | .unreadableDate ..
  | .noLoopTask .. | .noHostTask .. | .unreachableTimers .. | .unsynchronizedTimers ..
  | .noEventTarget .. | .definitionIgnored .. => .warning
  | .loaded .. | .poolStarted .. | .poolFinished .. | .decompositionBuilt .. => .info
  | _ => .debug

/-- The name of the part that tells an event. -/
def teller : Event → String
  | .malformedUri .. => "rdflib.term"
  | .unknownType .. | .unknownInstanceFlow .. | .orphan .. | .danglingAssociation ..
  | .strayBoundaryEvent .. | .loaded .. => "bpmn2yawl.bpmn.rdf_loader"
  | .poolStarted .. | .poolFinished .. => "bpmn2yawl.conversion.converter"
  | .placed .. | .decompositionBuilt .. => "bpmn2yawl.conversion.decomposition"
  | .nestedTooDeep .. | .noCounterpart .. | .unreadableDate .. => "bpmn2yawl.conversion.elements"
  | .flowDropped .. => "bpmn2yawl.conversion.flows"
  | .gatewayResolved .. => "bpmn2yawl.conversion.gateways"
  | .noLoopTask .. | .selfLoopAdded .. => "bpmn2yawl.conversion.loops"
  | .noHostTask .. | .unroutedEvent .. | .splitMoved .. | .noErrorSource .. | .errorRouted ..
  | .unreachableTimers .. | .unsynchronizedTimers .. | .noEventTarget .. =>
    "bpmn2yawl.conversion.boundary_events"
  | .variableKnown .. => "bpmn2yawl.conversion.data"
  | .multiInstanceTask .. => "bpmn2yawl.conversion.multi_instance"
  | .noRole .. => "bpmn2yawl.conversion.resourcing"
  | .definitionIgnored .. => "bpmn2yawl.yawl.writer"

/-- A truth value in a message. -/
def flag (b : Bool) : String :=
  if b then "True" else "False"

def message : Event → String
  | .malformedUri uri =>
    s!"{uri} does not look like a valid URI, trying to serialize this will break."
  | .unknownType types subject =>
    s!"Unknown BPMN type {quotedList types} for {subject}, skipped"
  | .unknownInstanceFlow condition subject =>
    s!"Unknown multi-instance flow condition {quoted condition} on {subject}"
  | .orphan node pool => s!"Node {node} has no parent, added to {pool}"
  | .danglingAssociation association =>
    s!"Association {association} has an undeclared end, skipped"
  | .strayBoundaryEvent event => s!"Boundary event {event} is not attached to an activity"
  | .loaded pools nodes flows =>
    s!"Loaded {pools} process(es), {nodes} node(s) and {flows} sequence flow(s)"
  | .poolStarted pool label model =>
    let title := if label.isEmpty then "unnamed" else label
    s!"Translating pool {pool} ({title}) to {model}"
  | .poolFinished pool decompositions ids =>
    s!"Translation of {pool} done: {decompositions} decompositions, {ids} generated ids"
  | .placed kind node counterpart => s!"{kind} {node} mapped to {counterpart}"
  | .decompositionBuilt decomposition nodes edges =>
    s!"Built decomposition {decomposition}: {nodes} nodes, {edges} edges"
  | .nestedTooDeep subprocess limit =>
    s!"Subprocess {subprocess} nested deeper than {limit} levels, translated as an atomic task"
  | .noCounterpart event =>
    s!"Intermediate event {event} has no YAWL counterpart, its flows are dropped"
  | .unreadableDate event text fault =>
    s!"Timer event {event} has an unreadable date {quoted text}: {fault.message text}"
  | .flowDropped source target => s!"Flow {source} -> {target} dropped: target not mapped"
  | .gatewayResolved gateway task split join =>
    s!"Gateway {gateway} resolved to {task} (split={flag split}, join={flag join})"
  | .noLoopTask activity decomposition =>
    s!"Looping activity {activity} has no task in {decomposition}"
  | .selfLoopAdded task => s!"Task {task} rewritten with a self loop"
  | .noHostTask activity =>
    s!"Activity {activity} with attached events has no task, events ignored"
  | .unroutedEvent kind event activity =>
    s!"Attached {kind} {event} on {activity} has no routing"
  | .splitMoved host task => s!"Split of {host} moved to {task}"
  | .noErrorSource decomposition event =>
    s!"No error end event inside {decomposition} raises {event}"
  | .errorRouted event host target variableName =>
    s!"Error event {event} routes {host} to {target} via {variableName}"
  | .unreachableTimers host =>
    s!"Task {host} has no incoming edge, its timers cannot be enabled"
  | .unsynchronizedTimers predecessor host split =>
    s!"Predecessor {predecessor} of {host} splits {split}, " ++
      "timers are not synchronized with the host"
  | .noEventTarget event => s!"Attached event {event} leads to no mapped node, event ignored"
  | .variableKnown name decomposition =>
    s!"Variable {name} already defined in {decomposition}, data object skipped"
  | .multiInstanceTask task threshold =>
    s!"Task {task} compiled as multiple-instance task (threshold {threshold})"
  | .noRole lane => s!"No resourcing role for lane {lane}"
  | .definitionIgnored model => s!"Data type definition of {model} ignored"

/-- Whether an event is told at a level. -/
def toldAt (least : Level) (event : Event) : Bool :=
  least.rank ≤ event.level.rank

def line (event : Event) : String :=
  s!"{event.level.name} {event.teller}: {event.message}"

end Event

end ProcessNets.Log
