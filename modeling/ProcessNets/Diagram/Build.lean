import ProcessNets.Diagram.Basic

/-!
# Drawing diagrams

The operations by which a diagram is drawn: nodes and pools are added, nodes are placed in
containers, joined by edges, and events are attached to activities.
-/

namespace ProcessNets.Diagram

def modifyNode (d : Diagram) (n : NodeId) (f : Node → Node) : Diagram :=
  { d with nodes := d.nodes.modify n.index f }

/-! ### Nodes and pools -/

/-- Adds a node that no container holds yet. -/
def addNode (d : Diagram) (node : Node) : NodeId × Diagram :=
  (⟨d.nodes.size⟩, { d with nodes := d.nodes.push node })

def addPool (d : Diagram) (pool : Pool) : Diagram :=
  { d with pools := d.pools.push pool }

/-- Makes a node the last child of a container. A node keeps the parent that it already has. -/
def adoptOne (d : Diagram) (container : Container) (n : NodeId) : Diagram :=
  let held := match container with
    | .pool index =>
      { d with pools := d.pools.modify index fun p => { p with children := p.children ++ [n] } }
    | .subprocess holder => d.modifyNode holder fun node => { node with
        kind := match node.kind with
          | .subprocess activity children => .subprocess activity (children ++ [n])
          | kind => kind }
  held.modifyNode n fun node => { node with
    parent := node.parent <|> some (.container container) }

/-- Makes nodes the last children of a container, in order. -/
def adopt (d : Diagram) (container : Container) (nodes : List NodeId) : Diagram :=
  nodes.foldl (·.adoptOne container ·) d

/-! ### Edges -/

/-- Adds an edge and lists it at both its ends. -/
def addEdge (d : Diagram) (edge : Edge) : EdgeId × Diagram :=
  let e : EdgeId := ⟨d.edges.size⟩
  let stored := { d with edges := d.edges.push edge }
  let left := stored.modifyNode edge.source fun n => { n with outgoing := n.outgoing ++ [e] }
  (e, left.modifyNode edge.target fun n => { n with incoming := n.incoming ++ [e] })

/-- Joins two nodes by a sequence flow. A flow with an expression but no condition type is an
expression flow. -/
def connect (d : Diagram) (source target : NodeId) (type : ConditionType := .none)
    (expression : String := "") (id : String := "") : EdgeId × Diagram :=
  let meant := if !expression.isEmpty && type == .none then .expression else type
  d.addEdge (.flow ⟨source, target, id, meant, expression⟩)

/-- Joins a data object and an activity by a data association. -/
def associate (d : Diagram) (source target : NodeId) (id : String := "") : EdgeId × Diagram :=
  d.addEdge (.association ⟨source, target, id⟩)

/-- Anchors an intermediate event on the boundary of an activity. -/
def attach (d : Diagram) (event activity : NodeId) : Diagram :=
  let anchored := d.modifyNode event fun node => { node with
    kind := match node.kind with
      | .intermediate trigger _ => .intermediate trigger (some activity)
      | kind => kind }
  anchored.modifyNode activity fun node => { node with
    kind := node.kind.modifyActivity fun a => { a with attached := a.attached ++ [event] } }

end ProcessNets.Diagram
