/-!
# Process diagrams

A diagram holds pools of nodes joined by sequence flows and data associations. Nodes and edges
live in stores and are referred to by their place there, so two nodes that look alike stay
different nodes. Each node lists its own edges in the order in which they were drawn.
-/

namespace ProcessNets.Diagram

/-! ### References -/

/-- A node of a diagram, by its place in the node store. -/
structure NodeId where
  index : Nat
deriving DecidableEq, Repr, Inhabited

/-- An edge of a diagram, by its place in the edge store. -/
structure EdgeId where
  index : Nat
deriving DecidableEq, Repr, Inhabited

/-- What holds nodes: a pool, by its place among the pools, or a subprocess node. -/
inductive Container where
  | pool (index : Nat)
  | subprocess (node : NodeId)
deriving DecidableEq, Repr, Inhabited

structure Lane where
  id : String
  label : String := ""
deriving DecidableEq, Repr, Inhabited

/-- The structural parent of a node: its lane, or else what holds it. -/
inductive Parent where
  | container (container : Container)
  | lane (lane : Lane)
deriving DecidableEq, Repr, Inhabited

/-! ### Activities -/

/-- A data item of an activity. -/
structure Property where
  name : String
  type : Option String := some "string"
  value : String := ""
deriving DecidableEq, Repr, Inhabited

/-- When an assignment of an activity takes place. -/
inductive AssignTime where
  | start
  | finish
deriving DecidableEq, Repr, Inhabited

/-- A value assigned to a variable as an activity starts or ends. -/
structure Assignment where
  target : String
  expression : String := ""
  time : AssignTime := .start
deriving DecidableEq, Repr, Inhabited

/-- How many instances of a multi-instance activity have to end before the flow goes on. -/
inductive InstanceFlow where
  | none
  | one
  | all
  | complex
deriving DecidableEq, Repr, Inhabited

/-- What tasks and subprocesses have in common. -/
structure Activity where
  properties : List Property := []
  assignments : List Assignment := []
  /-- Whether the activity has a standard loop marker. -/
  loops : Bool := false
  loopCondition : String := ""
  multiInstance : Bool := false
  instanceFlow : InstanceFlow := .none
  /-- The events on the boundary of the activity. -/
  attached : List NodeId := []
deriving DecidableEq, Repr, Inhabited

/-- Who offers, allocates and starts the work items of a task, as the diagram words it. -/
structure Initiators where
  offered : Option String := none
  allocated : Option String := none
  started : Option String := none
deriving DecidableEq, Repr, Inhabited

/-! ### Events and gateways -/

/-- What an end event does beside ending the flow. -/
inductive EndResult where
  | plain
  | error
  | terminate
deriving DecidableEq, Repr, Inhabited

/-- What triggers an intermediate event. -/
inductive Trigger where
  | plain
  | timer (date cycle : String)
  | message
  | error
deriving DecidableEq, Repr, Inhabited

def Trigger.isTimer : Trigger → Bool
  | .timer .. => true
  | _ => false

inductive Routing where
  | parallel
  | inclusive
  | exclusive
  /-- The first of several events decides. -/
  | eventBased
deriving DecidableEq, Repr, Inhabited

/-! ### Nodes and edges -/

/-- What a node is, with what only nodes of its kind carry. -/
inductive Kind where
  | task (activity : Activity) (initiators : Initiators)
  | subprocess (activity : Activity) (children : List NodeId)
  | startEvent
  | endEvent (result : EndResult)
  /-- An intermediate event and, if it sits on a boundary, its host activity. -/
  | intermediate (trigger : Trigger) (host : Option NodeId)
  | gateway (routing : Routing)
  | dataObject (type value : String)
deriving DecidableEq, Repr, Inhabited

namespace Kind

/-- The name of the kind in records of a run. -/
def name : Kind → String
  | .task .. => "task"
  | .subprocess .. => "subProcess"
  | .startEvent => "startPlainEvent"
  | .endEvent .plain => "endPlainEvent"
  | .endEvent .error => "endErrorEvent"
  | .endEvent .terminate => "endTerminateEvent"
  | .intermediate .plain _ => "intermediatePlainEvent"
  | .intermediate (.timer ..) _ => "intermediateTimerEvent"
  | .intermediate .message _ => "intermediateMessageEvent"
  | .intermediate .error _ => "intermediateErrorEvent"
  | .gateway .parallel => "andGateway"
  | .gateway .inclusive => "orGateway"
  | .gateway .exclusive => "xorDataBasedGateway"
  | .gateway .eventBased => "xorEventBasedGateway"
  | .dataObject .. => "dataObject"

/-- The activity part of tasks and subprocesses. -/
def activity? : Kind → Option Activity
  | .task activity _ => some activity
  | .subprocess activity _ => some activity
  | _ => none

/-- Changes the activity part of tasks and subprocesses. -/
def modifyActivity (f : Activity → Activity) : Kind → Kind
  | .task activity initiators => .task (f activity) initiators
  | .subprocess activity children => .subprocess (f activity) children
  | kind => kind

def isGateway : Kind → Bool
  | .gateway _ => true
  | _ => false

/-- Whether the node is a gateway that only routes control flow, without events. -/
def isControlGateway : Kind → Bool
  | .gateway routing => routing != .eventBased
  | _ => false

def isDataObject : Kind → Bool
  | .dataObject .. => true
  | _ => false

/-- Whether the node is an event on the boundary of an activity. -/
def isAttached : Kind → Bool
  | .intermediate _ (some _) => true
  | _ => false

end Kind

/-- A node with its edges, in the order in which they were drawn. -/
structure Node where
  kind : Kind
  id : String
  label : String := ""
  parent : Option Parent := none
  incoming : List EdgeId := []
  outgoing : List EdgeId := []
deriving DecidableEq, Repr

/-- The label, or the id of a node without a label. -/
def Node.title (node : Node) : String :=
  if node.label.isEmpty then node.id else node.label

/-- An unconnected data object: the node read at a reference that leads nowhere. -/
def Node.blank : Node :=
  { kind := .dataObject "string" "", id := "" }

instance : Inhabited Node := ⟨Node.blank⟩

/-- How the condition of a sequence flow is meant. -/
inductive ConditionType where
  | none
  | expression
  /-- Taken when no other flow of the source is. -/
  | default
deriving DecidableEq, Repr, Inhabited

structure Flow where
  source : NodeId
  target : NodeId
  id : String := ""
  conditionType : ConditionType := .none
  expression : String := ""
deriving DecidableEq, Repr, Inhabited

/-- An association of a data object with an activity, in either direction. -/
structure Association where
  source : NodeId
  target : NodeId
  id : String := ""
deriving DecidableEq, Repr, Inhabited

/-- A connection between two nodes. -/
inductive Edge where
  | flow (flow : Flow)
  | association (association : Association)
deriving DecidableEq, Repr, Inhabited

namespace Edge

def source : Edge → NodeId
  | .flow f => f.source
  | .association a => a.source

def target : Edge → NodeId
  | .flow f => f.target
  | .association a => a.target

def flow? : Edge → Option Flow
  | .flow f => some f
  | .association _ => none

end Edge

/-- A pool with the nodes that it holds, lanes included. -/
structure Pool where
  id : String
  label : String := ""
  children : List NodeId := []
deriving DecidableEq, Repr, Inhabited

end ProcessNets.Diagram

namespace ProcessNets

open Diagram

structure Diagram where
  nodes : Array Node := #[]
  edges : Array Edge := #[]
  pools : Array Pool := #[]
  /-- The data objects that belong to no pool in particular. -/
  dataObjects : List NodeId := []
  /-- The schema text that declares the data types of the diagram. -/
  typeDefinition : String := ""
deriving Repr, Inhabited

namespace Diagram

/-! ### Looking up -/

def node (d : Diagram) (n : NodeId) : Node :=
  d.nodes.getD n.index .blank

def edge? (d : Diagram) (e : EdgeId) : Option Edge :=
  d.edges[e.index]?

/-- The pool at a place, without nodes if there is none. -/
def pool (d : Diagram) (index : Nat) : Pool :=
  d.pools.getD index default

/-- The edges that enter a node, data associations included. -/
def incoming (d : Diagram) (n : NodeId) : List Edge :=
  (d.node n).incoming.filterMap d.edge?

/-- The edges that leave a node, data associations included. -/
def outgoing (d : Diagram) (n : NodeId) : List Edge :=
  (d.node n).outgoing.filterMap d.edge?

def incomingFlows (d : Diagram) (n : NodeId) : List Flow :=
  (d.incoming n).filterMap Edge.flow?

def outgoingFlows (d : Diagram) (n : NodeId) : List Flow :=
  (d.outgoing n).filterMap Edge.flow?

/-- The source of the first sequence flow that enters a node. -/
def predecessor? (d : Diagram) (n : NodeId) : Option NodeId :=
  (d.incomingFlows n).head?.map (·.source)

/-- The target of the first sequence flow that leaves a node. -/
def successor? (d : Diagram) (n : NodeId) : Option NodeId :=
  (d.outgoingFlows n).head?.map (·.target)

/-- The nodes that a container holds, in the order in which they were added. -/
def children (d : Diagram) : Container → List NodeId
  | .pool index => (d.pool index).children
  | .subprocess n => match (d.node n).kind with
    | .subprocess _ children => children
    | _ => []

end Diagram

end ProcessNets
