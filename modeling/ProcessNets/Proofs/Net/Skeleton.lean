import ProcessNets.Net.Cancellation
import ProcessNets.Net.Variables
import ProcessNets.Proofs.Net.Stores
import ProcessNets.Proofs.Outcome

/-!
# Skeletons of specifications

The skeleton of a specification is what is left without its data: ids, kinds of nodes, which task
runs which decomposition, and which edges are listed where. Operations on variables, mappings,
decorators, timers and cancellation sets keep the skeleton.
-/

namespace ProcessNets

open Net

namespace Net

/-- The kind without the data of a task; only the decomposition that it runs is kept. -/
def Kind.skeleton : Kind → Kind
  | .task t => .task { decomposesTo := t.decomposesTo }
  | kind => kind

/-- The node without its data. -/
def Node.skeleton (node : Node) : Node :=
  { node with kind := node.kind.skeleton }

/-- The edge without its data. -/
def Edge.skeleton (edge : Edge) : Edge :=
  { source := edge.source, target := edge.target }

/-- The decomposition without its variables. -/
def Decomposition.skeleton (d : Decomposition) : Decomposition :=
  { d with locals := [], inputs := [], outputs := [] }

/-- The decomposition that a node of this kind runs. -/
def Kind.runs? (kind : Kind) : Option DecompositionId :=
  kind.task?.bind (·.decomposesTo)

theorem Kind.runs?_skeleton (kind : Kind) : kind.skeleton.runs? = kind.runs? := by
  cases kind <;> rfl

theorem Kind.isCondition_skeleton (kind : Kind) : kind.skeleton.isCondition = kind.isCondition := by
  cases kind <;> rfl

theorem Kind.skeleton_eq_inputCondition {kind : Kind} :
    kind.skeleton = .inputCondition ↔ kind = .inputCondition := by
  cases kind <;> simp [skeleton]

theorem Kind.skeleton_eq_outputCondition {kind : Kind} :
    kind.skeleton = .outputCondition ↔ kind = .outputCondition := by
  cases kind <;> simp [skeleton]

theorem Kind.skeleton_modifyTask {g : Task → Task}
    (keeps : ∀ t, (g t).decomposesTo = t.decomposesTo) (kind : Kind) :
    (kind.modifyTask g).skeleton = kind.skeleton := by
  cases kind <;> simp [skeleton, modifyTask, keeps]

end Net

namespace Specification

/-- The specification without its data. -/
def skeleton (s : Specification) : Specification :=
  { s with
    decompositions := s.decompositions.map Decomposition.skeleton
    nodes := s.nodes.map Node.skeleton
    edges := s.edges.map Edge.skeleton }

/-- The decomposition that a node runs. -/
def runs? (s : Specification) (n : NodeId) : Option DecompositionId :=
  (s.node n).kind.runs?

variable {s t : Specification} {n : NodeId} {e : EdgeId} {d : DecompositionId}

theorem runs?_eq_bind : s.runs? n = (s.task? n).bind (·.decomposesTo) := rfl

/-! ### Reading a skeleton -/

theorem getD_map {α β : Type} (xs : Array α) (g : α → β) (i : Nat) (blank : α) :
    (xs.map g).getD i (g blank) = g (xs.getD i blank) := by
  simp only [Array.getD_eq_getD_getElem?, Array.getElem?_map]
  cases xs[i]? <;> rfl

theorem node_skeleton : s.skeleton.node n = (s.node n).skeleton :=
  getD_map s.nodes Node.skeleton n.index .blank

theorem edge_skeleton : s.skeleton.edge e = (s.edge e).skeleton :=
  getD_map s.edges Edge.skeleton e.index .blank

theorem decomposition_skeleton : s.skeleton.decomposition d = (s.decomposition d).skeleton :=
  getD_map s.decompositions Decomposition.skeleton d.index .blank

/-! ### What one skeleton determines -/

section
variable (h : t.skeleton = s.skeleton)
include h

theorem nodes_size_of_skeleton : t.nodes.size = s.nodes.size := by
  have := congrArg (fun u => u.nodes.size) h
  simpa [skeleton] using this

theorem edges_size_of_skeleton : t.edges.size = s.edges.size := by
  have := congrArg (fun u => u.edges.size) h
  simpa [skeleton] using this

theorem decompositions_size_of_skeleton : t.decompositions.size = s.decompositions.size := by
  have := congrArg (fun u => u.decompositions.size) h
  simpa [skeleton] using this

theorem node_of_skeleton (n : NodeId) : (t.node n).skeleton = (s.node n).skeleton := by
  rw [← node_skeleton, h, node_skeleton]

theorem edge_of_skeleton (e : EdgeId) : (t.edge e).skeleton = (s.edge e).skeleton := by
  rw [← edge_skeleton, h, edge_skeleton]

theorem decomposition_of_skeleton (d : DecompositionId) :
    (t.decomposition d).skeleton = (s.decomposition d).skeleton := by
  rw [← decomposition_skeleton, h, decomposition_skeleton]

theorem id_of_skeleton (n : NodeId) : (t.node n).id = (s.node n).id := by
  have same := congrArg Node.id (node_of_skeleton h n)
  exact same

theorem decomposition_id_of_skeleton (d : DecompositionId) :
    (t.decomposition d).id = (s.decomposition d).id := by
  have same := congrArg Decomposition.id (decomposition_of_skeleton h d)
  exact same

theorem kind_of_skeleton (n : NodeId) :
    (t.node n).kind.skeleton = (s.node n).kind.skeleton := by
  have same := congrArg Node.kind (node_of_skeleton h n)
  exact same

theorem runs?_of_skeleton (n : NodeId) : t.runs? n = s.runs? n := by
  unfold runs?
  rw [← Kind.runs?_skeleton, kind_of_skeleton h, Kind.runs?_skeleton]

theorem isCondition_of_skeleton (n : NodeId) :
    (t.node n).kind.isCondition = (s.node n).kind.isCondition := by
  rw [← Kind.isCondition_skeleton, kind_of_skeleton h, Kind.isCondition_skeleton]

theorem outgoing_of_skeleton (n : NodeId) : (t.node n).outgoing = (s.node n).outgoing := by
  have same := congrArg Node.outgoing (node_of_skeleton h n)
  exact same

theorem incoming_of_skeleton (n : NodeId) : (t.node n).incoming = (s.node n).incoming := by
  have same := congrArg Node.incoming (node_of_skeleton h n)
  exact same

theorem source_of_skeleton (e : EdgeId) : (t.edge e).source = (s.edge e).source := by
  have same := congrArg Edge.source (edge_of_skeleton h e)
  exact same

theorem target_of_skeleton (e : EdgeId) : (t.edge e).target = (s.edge e).target := by
  have same := congrArg Edge.target (edge_of_skeleton h e)
  exact same

theorem nodes_of_skeleton (d : DecompositionId) :
    (t.decomposition d).nodes = (s.decomposition d).nodes := by
  have same := congrArg Decomposition.nodes (decomposition_of_skeleton h d)
  exact same

theorem edges_of_skeleton (d : DecompositionId) :
    (t.decomposition d).edges = (s.decomposition d).edges := by
  have same := congrArg Decomposition.edges (decomposition_of_skeleton h d)
  exact same

end

/-! ### Changes that keep the skeleton -/

theorem map_modify {α β : Type} (xs : Array α) (i : Nat) (g : α → α) (view : α → β)
    (keeps : ∀ x, view (g x) = view x) : (xs.modify i g).map view = xs.map view := by
  apply Array.ext_getElem?
  intro j
  simp only [Array.getElem?_map, Array.getElem?_modify]
  by_cases h : i = j
  · cases xs[j]? <;> simp [h, keeps]
  · simp [h]

theorem skeleton_modifyTask {g : Task → Task}
    (keeps : ∀ t, (g t).decomposesTo = t.decomposesTo) :
    (s.modifyTask n g).skeleton = s.skeleton := by
  unfold skeleton modifyTask modifyNode
  simp only [Specification.mk.injEq, and_true, true_and]
  apply map_modify
  intro node
  simp only [Node.skeleton, Kind.skeleton_modifyTask keeps]

theorem skeleton_modifyEdge {g : Edge → Edge} (keeps : ∀ x, (g x).skeleton = x.skeleton) :
    (s.modifyEdge e g).skeleton = s.skeleton := by
  unfold skeleton modifyEdge
  simp only [Specification.mk.injEq, true_and]
  exact map_modify _ _ _ _ keeps

theorem skeleton_modifyDecomposition {g : Decomposition → Decomposition}
    (keeps : ∀ x, (g x).skeleton = x.skeleton) :
    (s.modifyDecomposition d g).skeleton = s.skeleton := by
  unfold skeleton modifyDecomposition
  simp only [Specification.mk.injEq, and_true, true_and]
  exact map_modify _ _ _ _ keeps

theorem task?_isSome_of_skeleton (h : t.skeleton = s.skeleton) (n : NodeId) :
    (t.task? n).isSome = (s.task? n).isSome := by
  have same := isCondition_of_skeleton h n
  unfold task?
  cases ht : (t.node n).kind <;> cases hs : (s.node n).kind <;>
    simp [ht, hs, Kind.isCondition, Kind.task?] at same ⊢

end Specification

end ProcessNets
