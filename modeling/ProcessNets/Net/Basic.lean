import ProcessNets.Calendar.Moment
import ProcessNets.Json.Value

/-!
# Workflow nets

A specification is a list of decompositions. A net decomposition holds tasks and conditions
joined by ordered edges, with variables for the data that tasks read and write; other
decompositions only declare the parameters of a task. Nodes, edges and decompositions live in
stores and are referred to by their place there.
-/

namespace ProcessNets.Net

open ProcessNets.Calendar (Moment)

/-! ### References -/

/-- A node of a specification, by its place in the node store. -/
structure NodeId where
  index : Nat
deriving DecidableEq, Repr, Inhabited

/-- An edge of a specification, by its place in the edge store. -/
structure EdgeId where
  index : Nat
deriving DecidableEq, Repr, Inhabited

/-- A decomposition of a specification, by its place in creation order. -/
structure DecompositionId where
  index : Nat
deriving DecidableEq, Repr, Inhabited

/-! ### Data -/

/-- A variable or parameter of a decomposition. -/
structure Variable where
  name : String
  type : String := "string"
  initialValue : String := ""
  readOnly : Bool := false
deriving DecidableEq, Repr, Inhabited

/-- A query evaluated when a task starts or completes, and the variable that takes its value. -/
structure Mapping where
  query : String
  target : Variable
deriving DecidableEq, Repr, Inhabited

/-! ### Timers -/

/-- When a timer starts to run. -/
inductive TimerTrigger where
  | onEnabled
  | onExecuting
deriving DecidableEq, Repr, Inhabited

def TimerTrigger.name : TimerTrigger → String
  | .onEnabled => "OnEnabled"
  | .onExecuting => "OnExecuting"

/-- A timer of a task: a moment, a duration, or a net variable that holds the value. -/
structure Timer where
  trigger : TimerTrigger := .onEnabled
  cycle : String := ""
  moment : Option Moment := none
  netParameter : String := ""
deriving DecidableEq, Repr, Inhabited

/-! ### Multiple instances -/

/-- The number that engines read as infinite. -/
def unbounded : Int := 2147483647

/-- Whether instances are all created at the start. -/
inductive CreationMode where
  | static
  | dynamic
deriving DecidableEq, Repr, Inhabited

def CreationMode.name : CreationMode → String
  | .static => "static"
  | .dynamic => "dynamic"

/-- How the input of the instances is split off. -/
structure InstanceInput where
  expression : String
  splitting : String
  parameter : Variable
deriving DecidableEq, Repr, Inhabited

/-- How the output of the instances is joined. -/
structure InstanceOutput where
  expression : String
  joining : String
  target : Variable
deriving DecidableEq, Repr, Inhabited

/-- How many instances of a task run, and with which data. -/
structure MultiInstance where
  minimum : Int := 1
  maximum : Int := unbounded
  threshold : Int := unbounded
  mode : CreationMode := .static
  input : Option InstanceInput := none
  output : Option InstanceOutput := none
deriving DecidableEq, Repr, Inhabited

/-- The element type of tasks that run in several instances. -/
def multiInstanceTaskType : String := "MultipleInstanceExternalTaskFactsType"

/-! ### Resources -/

/-- Who takes a step in the life of a work item. -/
inductive Initiator where
  | user
  | system
deriving DecidableEq, Repr, Inhabited

def Initiator.name : Initiator → String
  | .user => "user"
  | .system => "system"

/-- A role or participant that work items go to. The fields are what a roles file gives, which
may be any value. -/
structure Role where
  id : Json.Value
  name : Json.Value := .string ""
  kind : Json.Value := .string "role"
deriving DecidableEq, Repr, Inhabited

/-- Who offers, allocates and starts the work items of a task, and to whom they go. -/
structure Resourcing where
  offer : Initiator := .user
  allocate : Initiator := .user
  start : Initiator := .user
  offerSet : Option (List Role) := none
  allocateSet : Option (List Role) := none
deriving DecidableEq, Repr, Inhabited

/-! ### Nodes and edges -/

/-- How a task treats several outgoing or incoming edges. -/
inductive Decorator where
  | none
  | and
  | or
  | xor
deriving DecidableEq, Repr, Inhabited

def Decorator.name : Decorator → String
  | .none => "none"
  | .and => "and"
  | .or => "or"
  | .xor => "xor"

/-- What a task carries beside its place in the net. -/
structure Task where
  split : Decorator := .none
  join : Decorator := .none
  /-- The subnet or the task-level decomposition that the task runs. -/
  decomposesTo : Option DecompositionId := none
  timer : Option Timer := none
  multiInstance : Option MultiInstance := none
  /-- Whether the task runs in several instances. -/
  multiple : Bool := false
  elementType : Option String := none
  resourcing : Option Resourcing := none
  /-- The nodes whose tokens the task removes. -/
  cancels : List NodeId := []
  starting : List Mapping := []
  completed : List Mapping := []
deriving DecidableEq, Repr, Inhabited

/-- What a node of a net is. -/
inductive Kind where
  | task (task : Task)
  | condition
  | inputCondition
  | outputCondition
deriving DecidableEq, Repr, Inhabited

namespace Kind

/-- Whether the node is where a net starts or ends. -/
def isBoundary : Kind → Bool
  | .inputCondition => true
  | .outputCondition => true
  | _ => false

/-- Whether the node is a condition of any sort. -/
def isCondition : Kind → Bool
  | .task _ => false
  | _ => true

def task? : Kind → Option Task
  | .task t => some t
  | _ => none

/-- Changes a task and leaves conditions alone. -/
def modifyTask (f : Task → Task) : Kind → Kind
  | .task t => .task (f t)
  | kind => kind

end Kind

/-- A node of a net with its own edges, in the order in which they were added. -/
structure Node where
  id : String
  name : String
  kind : Kind
  incoming : List EdgeId := []
  outgoing : List EdgeId := []
deriving DecidableEq, Repr

/-- The node read at a reference that leads nowhere. -/
def Node.blank : Node :=
  { id := "", name := "", kind := .condition }

instance : Inhabited Node := ⟨Node.blank⟩

/-- A directed edge. An edge in the making may lack an end. -/
structure Edge where
  source : Option NodeId
  target : Option NodeId
  isDefault : Bool := false
  predicate : String := ""
  /-- The place among the edges of the source; zero for an unordered edge. -/
  ordering : Int := 0
deriving DecidableEq, Repr

/-- The edge read at a reference that leads nowhere. -/
def Edge.blank : Edge :=
  { source := none, target := none }

instance : Inhabited Edge := ⟨Edge.blank⟩

/-! ### Decompositions -/

/-- What a decomposition describes. -/
inductive Facts where
  | net
  | webServiceGateway
deriving DecidableEq, Repr, Inhabited

def Facts.name : Facts → String
  | .net => "NetFactsType"
  | .webServiceGateway => "WebServiceGatewayFactsType"

/-- A net, or the parameters of a task. -/
structure Decomposition where
  id : String
  facts : Facts := .net
  isRoot : Bool := false
  nodes : List NodeId := []
  edges : List EdgeId := []
  locals : List Variable := []
  inputs : List Variable := []
  outputs : List Variable := []
  inputCondition : Option NodeId := none
  outputCondition : Option NodeId := none
deriving DecidableEq, Repr

/-- The decomposition read at a reference that leads nowhere. -/
def Decomposition.blank : Decomposition :=
  { id := "" }

instance : Inhabited Decomposition := ⟨Decomposition.blank⟩

/-- All variables of a decomposition: locals, then inputs, then outputs. -/
def Decomposition.allVariables (d : Decomposition) : List Variable :=
  d.locals ++ d.inputs ++ d.outputs

end ProcessNets.Net

namespace ProcessNets

open Net

/-- A workflow specification. -/
structure Specification where
  id : String
  /-- Schema text that declares the data types of the variables. -/
  typeDefinition : String := ""
  decompositions : Array Decomposition := #[]
  nodes : Array Node := #[]
  edges : Array Edge := #[]
deriving DecidableEq, Repr, Inhabited

namespace Specification

/-! ### Looking up -/

def node (s : Specification) (n : NodeId) : Node :=
  s.nodes.getD n.index .blank

def edge (s : Specification) (e : EdgeId) : Edge :=
  s.edges.getD e.index .blank

def decomposition (s : Specification) (d : DecompositionId) : Decomposition :=
  s.decompositions.getD d.index .blank

def task? (s : Specification) (n : NodeId) : Option Task :=
  (s.node n).kind.task?

/-- References to all decompositions, in creation order. -/
def decompositionIds (s : Specification) : List DecompositionId :=
  (List.range s.decompositions.size).map (⟨·⟩)

/-- The first decomposition with the given id. -/
def findDecomposition? (s : Specification) (id : String) : Option DecompositionId :=
  s.decompositionIds.find? fun d => (s.decomposition d).id == id

def rootNet? (s : Specification) : Option DecompositionId :=
  s.decompositionIds.find? fun d => (s.decomposition d).isRoot

/-- The tasks of a decomposition, in creation order. -/
def tasks (s : Specification) (d : DecompositionId) : List NodeId :=
  (s.decomposition d).nodes.filter fun n => (s.task? n).isSome

/-- The edges that leave a node, in the order in which they were added. -/
def outgoing (s : Specification) (n : NodeId) : List Edge :=
  (s.node n).outgoing.map s.edge

/-! ### Changing -/

def modifyNode (s : Specification) (n : NodeId) (f : Node → Node) : Specification :=
  { s with nodes := s.nodes.modify n.index f }

/-- Changes one node if it is a task. -/
def modifyTask (s : Specification) (n : NodeId) (f : Task → Task) : Specification :=
  s.modifyNode n fun node => { node with kind := node.kind.modifyTask f }

def modifyEdge (s : Specification) (e : EdgeId) (f : Edge → Edge) : Specification :=
  { s with edges := s.edges.modify e.index f }

def modifyDecomposition (s : Specification) (d : DecompositionId)
    (f : Decomposition → Decomposition) : Specification :=
  { s with decompositions := s.decompositions.modify d.index f }

end Specification

end ProcessNets
