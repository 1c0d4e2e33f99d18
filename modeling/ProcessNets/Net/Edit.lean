import ProcessNets.Net.Basic

/-!
# Editing specifications

The operations that create decompositions, nodes and edges. Every edge is listed three times: in
its decomposition, at its source and at its target. An operation that fails midway keeps the
changes made before the failure.
-/

namespace ProcessNets.Net

/-- Why an operation on a specification fails. -/
inductive Fault where
  /-- An edge lacks its source or its target. -/
  | missingEnd
  /-- An edge is removed from a list that does not hold it. -/
  | unlistedEdge
  /-- A node that has to be a task is a condition. -/
  | notATask
deriving DecidableEq, Repr

def Fault.message : Fault → String
  | .missingEnd => "edge without a source or a target"
  | .unlistedEdge => "list.remove(x): x not in list"
  | .notATask => "node is not a task"

/-- An operation on a specification. -/
abbrev Edit := ExceptT Fault (StateM Specification)

namespace Edit

/-! ### Decompositions and nodes -/

def createDecomposition (id : String) (facts : Facts := .net) (isRoot : Bool := false) :
    Edit DecompositionId := do
  let s ← get
  set { s with decompositions := s.decompositions.push { id, facts, isRoot } }
  return ⟨s.decompositions.size⟩

/-- Adds a node to a decomposition. -/
def createNode (d : DecompositionId) (id name : String) (kind : Kind) : Edit NodeId := do
  let s ← get
  let n : NodeId := ⟨s.nodes.size⟩
  let stored := { s with nodes := s.nodes.push { id, name, kind } }
  set (stored.modifyDecomposition d fun net => { net with nodes := net.nodes ++ [n] })
  return n

def createTask (d : DecompositionId) (id name : String) (split : Decorator := .none)
    (join : Decorator := .none) : Edit NodeId :=
  createNode d id name (.task { split, join })

def createCondition (d : DecompositionId) (id name : String) : Edit NodeId :=
  createNode d id name .condition

/-- The input condition, added if there is none yet: a decomposition has only one. -/
def createInputCondition (d : DecompositionId) (id name : String) : Edit NodeId := do
  match ((← get).decomposition d).inputCondition with
  | some n => return n
  | none =>
    let n ← createNode d id name .inputCondition
    modify (·.modifyDecomposition d fun net => { net with inputCondition := some n })
    return n

/-- The output condition, added if there is none yet: a decomposition has only one. -/
def createOutputCondition (d : DecompositionId) (id name : String) : Edit NodeId := do
  match ((← get).decomposition d).outputCondition with
  | some n => return n
  | none =>
    let n ← createNode d id name .outputCondition
    modify (·.modifyDecomposition d fun net => { net with outputCondition := some n })
    return n

def requireTask (n : NodeId) : Edit Task := do
  match (← get).task? n with
  | some task => return task
  | none => throw .notATask

def updateTask (n : NodeId) (f : Task → Task) : Edit Unit := do
  let _ ← requireTask n
  modify (·.modifyTask n f)

/-! ### Edges -/

/-- The end of an edge, which has to be there. -/
def requireEnd : Option NodeId → Edit NodeId
  | some n => return n
  | none => throw .missingEnd

/-- The list without the edge, which has to be in it. -/
def withoutEdge (e : EdgeId) (edges : List EdgeId) : Edit (List EdgeId) :=
  if e ∈ edges then return edges.erase e else throw .unlistedEdge

/-- Lists a stored edge in a decomposition, then at its source, then at its target. -/
def addEdge (d : DecompositionId) (e : EdgeId) : Edit Unit := do
  modify (·.modifyDecomposition d fun net => { net with edges := net.edges ++ [e] })
  let edge := (← get).edge e
  -- A missing end is met only here, so the edge stays listed where it was listed before.
  let source ← requireEnd edge.source
  modify (·.modifyNode source fun node => { node with outgoing := node.outgoing ++ [e] })
  let target ← requireEnd edge.target
  modify (·.modifyNode target fun node => { node with incoming := node.incoming ++ [e] })

/-- Stores a new edge without listing it anywhere. -/
def storeEdge (edge : Edge) : Edit EdgeId := do
  let s ← get
  set { s with edges := s.edges.push edge }
  return ⟨s.edges.size⟩

/-- Stores a new edge and lists it. -/
def createEdge (d : DecompositionId) (edge : Edge) : Edit EdgeId := do
  let e ← storeEdge edge
  addEdge d e
  return e

/-- Stores and lists a new edge between two nodes. -/
def link (d : DecompositionId) (source target : NodeId) (ordering : Int := 0)
    (predicate : String := "") (isDefault : Bool := false) : Edit EdgeId :=
  createEdge d { source := some source, target := some target, isDefault, predicate, ordering }

/-- Takes an edge off the lists of a decomposition, its source and its target, in this order. -/
def removeEdge (d : DecompositionId) (e : EdgeId) : Edit Unit := do
  let edges ← withoutEdge e ((← get).decomposition d).edges
  modify (·.modifyDecomposition d fun net => { net with edges })
  let edge := (← get).edge e
  let source ← requireEnd edge.source
  let outgoing ← withoutEdge e ((← get).node source).outgoing
  modify (·.modifyNode source fun node => { node with outgoing })
  let target ← requireEnd edge.target
  let incoming ← withoutEdge e ((← get).node target).incoming
  modify (·.modifyNode target fun node => { node with incoming })

/-- Lets an edge leave another node. -/
def redirectSource (d : DecompositionId) (e : EdgeId) (source : NodeId) : Edit Unit := do
  removeEdge d e
  modify (·.modifyEdge e fun edge => { edge with source := some source })
  addEdge d e

/-- Lets an edge enter another node. -/
def redirectTarget (d : DecompositionId) (e : EdgeId) (target : NodeId) : Edit Unit := do
  removeEdge d e
  modify (·.modifyEdge e fun edge => { edge with target := some target })
  addEdge d e

/-- Lets all edges that leave a node leave another one, in the same order. -/
def moveOutgoing (d : DecompositionId) (source newSource : NodeId) : Edit Unit := do
  ((← get).node source).outgoing.forM fun e => redirectSource d e newSource

/-- Lets all edges that enter a node enter another one, in the same order. -/
def moveIncoming (d : DecompositionId) (target newTarget : NodeId) : Edit Unit := do
  ((← get).node target).incoming.forM fun e => redirectTarget d e newTarget

/-- An edge from the input condition to the output condition. -/
def connectInputToOutput (d : DecompositionId) : Edit EdgeId := do
  let net := (← get).decomposition d
  createEdge d { source := net.inputCondition, target := net.outputCondition, ordering := 1 }

/-! ### Edges in front -/

/-- The edges of a node by increasing ordering; edges of one ordering keep their places. -/
def byOrdering (s : Specification) (edges : List EdgeId) : List EdgeId :=
  edges.mergeSort fun a b => (s.edge a).ordering ≤ (s.edge b).ordering

/-- Numbers edges upwards from the given ordering. -/
def renumber : Int → List EdgeId → Edit Unit
  | _, [] => return
  | ordering, e :: rest => do
    modify (·.modifyEdge e fun edge => { edge with ordering })
    renumber (ordering + 1) rest

/-- Puts an edge at ordering 1 in front of the other edges of its source, which keep their
relative order. If none of them is the default edge, the last one becomes it unless it has a
predicate. -/
def linkFirst (d : DecompositionId) (source target : NodeId) (predicate : String) :
    Edit EdgeId := do
  let s ← get
  let existing := byOrdering s (s.node source).outgoing
  renumber 2 existing
  match existing.getLast? with
  | some last =>
    if !(existing.any fun e => (s.edge e).isDefault) && (s.edge last).predicate.isEmpty then
      modify (·.modifyEdge last fun edge => { edge with isDefault := true })
  | none => pure ()
  link d source target 1 predicate

end Edit

end ProcessNets.Net
