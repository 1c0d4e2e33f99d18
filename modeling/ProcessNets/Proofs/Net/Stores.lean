import ProcessNets.Net.Edit

/-!
# Stores of specifications

What is read at a reference after a change. Growing and relisting are given as functions on
specifications, `addDecomposition`, `addNode`, `addEdge`, `listEdge` and `unlistEdge`, and the
operations of `Edit` run as these functions.
-/

namespace ProcessNets

open Net

namespace Net

theorem NodeId.index_inj {n m : NodeId} : n.index = m.index ↔ n = m := by
  cases n; cases m; simp

theorem NodeId.lt_or_eq {n : NodeId} {size : Nat} (h : n.index < size + 1) :
    n.index < size ∨ n = ⟨size⟩ := by
  rcases Nat.lt_or_ge n.index size with lt | ge
  · exact .inl lt
  · exact .inr (NodeId.index_inj.mp (by show n.index = size; omega))

theorem EdgeId.index_inj {e f : EdgeId} : e.index = f.index ↔ e = f := by
  cases e; cases f; simp

theorem DecompositionId.index_inj {c d : DecompositionId} : c.index = d.index ↔ c = d := by
  cases c; cases d; simp

theorem DecompositionId.lt_or_eq {d : DecompositionId} {size : Nat} (h : d.index < size + 1) :
    d.index < size ∨ d = ⟨size⟩ := by
  rcases Nat.lt_or_ge d.index size with lt | ge
  · exact .inl lt
  · exact .inr (DecompositionId.index_inj.mp (by show d.index = size; omega))

end Net

namespace Specification

variable {s : Specification} {n m : NodeId} {e f : EdgeId} {c d : DecompositionId}

/-! ### Changes in place -/

theorem getD_modify {α : Type} (xs : Array α) (i j : Nat) (g : α → α) (blank : α) :
    (xs.modify i g).getD j blank =
      if j = i ∧ i < xs.size then g (xs.getD j blank) else xs.getD j blank := by
  simp only [Array.getD_eq_getD_getElem?, Array.getElem?_modify]
  by_cases h : i = j
  · subst h
    by_cases stored : i < xs.size
    · simp [stored]
    · simp [stored]
  · simp [h, Ne.symm h]

theorem node_modifyNode (g : Node → Node) : (s.modifyNode n g).node m =
    if m = n ∧ n.index < s.nodes.size then g (s.node m) else s.node m := by
  unfold node modifyNode
  rw [getD_modify]
  simp only [NodeId.index_inj]

theorem node_modifyNode_self (g : Node → Node) (h : n.index < s.nodes.size) :
    (s.modifyNode n g).node n = g (s.node n) := by
  rw [node_modifyNode, if_pos ⟨rfl, h⟩]

theorem node_modifyNode_of_ne (g : Node → Node) (h : m ≠ n) :
    (s.modifyNode n g).node m = s.node m := by
  rw [node_modifyNode, if_neg fun both => h both.1]

theorem edge_modifyEdge (g : Edge → Edge) : (s.modifyEdge e g).edge f =
    if f = e ∧ e.index < s.edges.size then g (s.edge f) else s.edge f := by
  unfold edge modifyEdge
  rw [getD_modify]
  simp only [EdgeId.index_inj]

theorem decomposition_modifyDecomposition (g : Decomposition → Decomposition) :
    (s.modifyDecomposition d g).decomposition c =
      if c = d ∧ d.index < s.decompositions.size then g (s.decomposition c)
      else s.decomposition c := by
  unfold decomposition modifyDecomposition
  rw [getD_modify]
  simp only [DecompositionId.index_inj]

@[simp] theorem edge_modifyNode (g : Node → Node) : (s.modifyNode n g).edge e = s.edge e := rfl

@[simp] theorem decomposition_modifyNode (g : Node → Node) :
    (s.modifyNode n g).decomposition d = s.decomposition d := rfl

@[simp] theorem node_modifyEdge (g : Edge → Edge) : (s.modifyEdge e g).node n = s.node n := rfl

@[simp] theorem decomposition_modifyEdge (g : Edge → Edge) :
    (s.modifyEdge e g).decomposition d = s.decomposition d := rfl

@[simp] theorem node_modifyDecomposition (g : Decomposition → Decomposition) :
    (s.modifyDecomposition d g).node n = s.node n := rfl

@[simp] theorem edge_modifyDecomposition (g : Decomposition → Decomposition) :
    (s.modifyDecomposition d g).edge e = s.edge e := rfl

@[simp] theorem nodes_size_modifyNode (g : Node → Node) :
    (s.modifyNode n g).nodes.size = s.nodes.size := Array.size_modify

@[simp] theorem edges_size_modifyNode (g : Node → Node) :
    (s.modifyNode n g).edges.size = s.edges.size := rfl

@[simp] theorem decompositions_size_modifyNode (g : Node → Node) :
    (s.modifyNode n g).decompositions.size = s.decompositions.size := rfl

@[simp] theorem nodes_size_modifyEdge (g : Edge → Edge) :
    (s.modifyEdge e g).nodes.size = s.nodes.size := rfl

@[simp] theorem edges_size_modifyEdge (g : Edge → Edge) :
    (s.modifyEdge e g).edges.size = s.edges.size := Array.size_modify

@[simp] theorem decompositions_size_modifyEdge (g : Edge → Edge) :
    (s.modifyEdge e g).decompositions.size = s.decompositions.size := rfl

@[simp] theorem nodes_size_modifyDecomposition (g : Decomposition → Decomposition) :
    (s.modifyDecomposition d g).nodes.size = s.nodes.size := rfl

@[simp] theorem edges_size_modifyDecomposition (g : Decomposition → Decomposition) :
    (s.modifyDecomposition d g).edges.size = s.edges.size := rfl

@[simp] theorem decompositions_size_modifyDecomposition (g : Decomposition → Decomposition) :
    (s.modifyDecomposition d g).decompositions.size = s.decompositions.size := Array.size_modify

/-! ### References beyond the stores -/

theorem node_eq_blank (h : s.nodes.size ≤ n.index) : s.node n = .blank := by
  simp [node, h]

theorem edge_eq_blank (h : s.edges.size ≤ e.index) : s.edge e = .blank := by
  simp [edge, h]

theorem decomposition_eq_blank (h : s.decompositions.size ≤ d.index) :
    s.decomposition d = .blank := by
  simp [decomposition, h]

theorem edge_stored (h : (s.edge e).source = some n) : e.index < s.edges.size := by
  refine Nat.lt_of_not_le fun beyond => ?_
  rw [edge_eq_blank beyond] at h
  cases h

theorem decomposition_stored (h : n ∈ (s.decomposition d).nodes) :
    d.index < s.decompositions.size := by
  refine Nat.lt_of_not_le fun beyond => ?_
  rw [decomposition_eq_blank beyond] at h
  cases h

theorem task_stored {t : Task} (h : s.task? n = some t) : n.index < s.nodes.size := by
  refine Nat.lt_of_not_le fun beyond => ?_
  rw [task?, node_eq_blank beyond] at h
  cases h

/-! ### Growing -/

theorem getD_push {α : Type} (xs : Array α) (x blank : α) (i : Nat) :
    (xs.push x).getD i blank = if i = xs.size then x else xs.getD i blank := by
  simp only [Array.getD_eq_getD_getElem?, Array.getElem?_push]
  by_cases h : i = xs.size <;> simp [h]

def addDecomposition (s : Specification) (x : Decomposition) : Specification :=
  { s with decompositions := s.decompositions.push x }

/-- The specification with one more node, the last of a decomposition. -/
def addNode (s : Specification) (d : DecompositionId) (node : Node) : Specification :=
  ({ s with nodes := s.nodes.push node } : Specification).modifyDecomposition d
    fun net => { net with nodes := net.nodes ++ [⟨s.nodes.size⟩] }

@[simp] theorem node_addDecomposition (x : Decomposition) :
    (s.addDecomposition x).node n = s.node n := rfl

@[simp] theorem edge_addDecomposition (x : Decomposition) :
    (s.addDecomposition x).edge e = s.edge e := rfl

theorem decomposition_addDecomposition (x : Decomposition) :
    (s.addDecomposition x).decomposition d =
      if d.index = s.decompositions.size then x else s.decomposition d :=
  getD_push ..

@[simp] theorem nodes_size_addDecomposition (x : Decomposition) :
    (s.addDecomposition x).nodes.size = s.nodes.size := rfl

@[simp] theorem edges_size_addDecomposition (x : Decomposition) :
    (s.addDecomposition x).edges.size = s.edges.size := rfl

@[simp] theorem decompositions_size_addDecomposition (x : Decomposition) :
    (s.addDecomposition x).decompositions.size = s.decompositions.size + 1 := Array.size_push ..

theorem node_addNode (x : Node) : (s.addNode d x).node n =
    if n.index = s.nodes.size then x else s.node n :=
  getD_push ..

@[simp] theorem edge_addNode (x : Node) : (s.addNode d x).edge e = s.edge e := rfl

theorem decomposition_addNode (x : Node) : (s.addNode d x).decomposition c =
    if c = d ∧ d.index < s.decompositions.size then
      { s.decomposition c with nodes := (s.decomposition c).nodes ++ [⟨s.nodes.size⟩] }
    else s.decomposition c :=
  decomposition_modifyDecomposition ..

@[simp] theorem nodes_size_addNode (x : Node) : (s.addNode d x).nodes.size = s.nodes.size + 1 :=
  Array.size_push ..

@[simp] theorem edges_size_addNode (x : Node) : (s.addNode d x).edges.size = s.edges.size := rfl

@[simp] theorem decompositions_size_addNode (x : Node) :
    (s.addNode d x).decompositions.size = s.decompositions.size := Array.size_modify

/-! ### Listing edges -/

/-- Lists an edge in a decomposition, at a source and at a target. -/
def listEdge (s : Specification) (d : DecompositionId) (e : EdgeId) (a b : NodeId) :
    Specification :=
  ((s.modifyDecomposition d fun net => { net with edges := net.edges ++ [e] }).modifyNode a
    fun node => { node with outgoing := node.outgoing ++ [e] }).modifyNode b
      fun node => { node with incoming := node.incoming ++ [e] }

/-- Takes an edge off the lists of a decomposition, a source and a target. -/
def unlistEdge (s : Specification) (d : DecompositionId) (e : EdgeId) (a b : NodeId) :
    Specification :=
  ((s.modifyDecomposition d fun net => { net with edges := net.edges.erase e }).modifyNode a
    fun node => { node with outgoing := node.outgoing.erase e }).modifyNode b
      fun node => { node with incoming := node.incoming.erase e }

def addEdge (s : Specification) (d : DecompositionId) (edge : Edge) (a b : NodeId) :
    Specification :=
  ({ s with edges := s.edges.push edge } : Specification).listEdge d ⟨s.edges.size⟩ a b

variable {a b : NodeId}

@[simp] theorem edge_listEdge : (s.listEdge d e a b).edge f = s.edge f := rfl

@[simp] theorem edge_unlistEdge : (s.unlistEdge d e a b).edge f = s.edge f := rfl

theorem edge_addEdge (x : Edge) : (s.addEdge d x a b).edge e =
    if e.index = s.edges.size then x else s.edge e :=
  getD_push ..

theorem decomposition_listEdge : (s.listEdge d e a b).decomposition c =
    if c = d ∧ d.index < s.decompositions.size then
      { s.decomposition c with edges := (s.decomposition c).edges ++ [e] }
    else s.decomposition c :=
  decomposition_modifyDecomposition ..

theorem decomposition_unlistEdge : (s.unlistEdge d e a b).decomposition c =
    if c = d ∧ d.index < s.decompositions.size then
      { s.decomposition c with edges := (s.decomposition c).edges.erase e }
    else s.decomposition c :=
  decomposition_modifyDecomposition ..

theorem decomposition_addEdge (x : Edge) : (s.addEdge d x a b).decomposition c =
    if c = d ∧ d.index < s.decompositions.size then
      { s.decomposition c with edges := (s.decomposition c).edges ++ [⟨s.edges.size⟩] }
    else s.decomposition c :=
  decomposition_listEdge

theorem node_listEdge (ha : a.index < s.nodes.size) (hb : b.index < s.nodes.size) :
    (s.listEdge d e a b).node n =
      { s.node n with
        outgoing := if n = a then (s.node n).outgoing ++ [e] else (s.node n).outgoing
        incoming := if n = b then (s.node n).incoming ++ [e] else (s.node n).incoming } := by
  simp only [listEdge, node_modifyNode, node_modifyDecomposition, nodes_size_modifyNode,
    nodes_size_modifyDecomposition, ha, hb, and_true]
  split <;> split <;> rfl

theorem node_unlistEdge (ha : a.index < s.nodes.size) (hb : b.index < s.nodes.size) :
    (s.unlistEdge d e a b).node n =
      { s.node n with
        outgoing := if n = a then (s.node n).outgoing.erase e else (s.node n).outgoing
        incoming := if n = b then (s.node n).incoming.erase e else (s.node n).incoming } := by
  simp only [unlistEdge, node_modifyNode, node_modifyDecomposition, nodes_size_modifyNode,
    nodes_size_modifyDecomposition, ha, hb, and_true]
  split <;> split <;> rfl

theorem node_addEdge (x : Edge) (ha : a.index < s.nodes.size) (hb : b.index < s.nodes.size) :
    (s.addEdge d x a b).node n =
      { s.node n with
        outgoing := if n = a then (s.node n).outgoing ++ [⟨s.edges.size⟩] else (s.node n).outgoing
        incoming := if n = b then (s.node n).incoming ++ [⟨s.edges.size⟩]
          else (s.node n).incoming } :=
  node_listEdge (s := { s with edges := s.edges.push x }) ha hb

@[simp] theorem nodes_size_listEdge : (s.listEdge d e a b).nodes.size = s.nodes.size := by
  simp [listEdge]

@[simp] theorem edges_size_listEdge : (s.listEdge d e a b).edges.size = s.edges.size := rfl

@[simp] theorem decompositions_size_listEdge :
    (s.listEdge d e a b).decompositions.size = s.decompositions.size := by
  simp [listEdge]

@[simp] theorem nodes_size_unlistEdge : (s.unlistEdge d e a b).nodes.size = s.nodes.size := by
  simp [unlistEdge]

@[simp] theorem edges_size_unlistEdge : (s.unlistEdge d e a b).edges.size = s.edges.size := rfl

@[simp] theorem decompositions_size_unlistEdge :
    (s.unlistEdge d e a b).decompositions.size = s.decompositions.size := by
  simp [unlistEdge]

@[simp] theorem nodes_size_addEdge (x : Edge) : (s.addEdge d x a b).nodes.size = s.nodes.size :=
  nodes_size_listEdge (s := { s with edges := s.edges.push x })

@[simp] theorem edges_size_addEdge (x : Edge) :
    (s.addEdge d x a b).edges.size = s.edges.size + 1 :=
  Array.size_push ..

@[simp] theorem decompositions_size_addEdge (x : Edge) :
    (s.addEdge d x a b).decompositions.size = s.decompositions.size :=
  decompositions_size_listEdge (s := { s with edges := s.edges.push x })

end Specification

end ProcessNets
