import ProcessNets.Proofs.Net.Editing

/-!
# Changes of edges

Operations on edges keep all nodes. Most of them let other nodes lead to no more nodes than before:
a new edge leaves its source only, and an edge that enters another node still leaves the same one.
This holds wherever the operations start, and where they have a result.
-/

namespace ProcessNets

open Net

variable {s t u : Specification} {n m a b : NodeId} {c d : DecompositionId} {e : EdgeId}
  {free : NodeId → Prop} {E : Fault → Prop}

/-- The decomposition without its list of edges. -/
def Net.Decomposition.unlinked (net : Decomposition) : Decomposition :=
  { net with edges := [] }

namespace Specification

/-- How many edges leave a node. -/
def spread (s : Specification) (n : NodeId) : Nat :=
  (s.node n).outgoing.length

/-- Only edges changed, and no node but a `free` one has more outgoing edges than before. -/
structure EdgesOnly (free : NodeId → Prop) (s t : Specification) : Prop where
  size : t.nodes.size = s.nodes.size
  decompositions_size : t.decompositions.size = s.decompositions.size
  unlinked : ∀ c, (t.decomposition c).unlinked = (s.decomposition c).unlinked
  id : ∀ n, (t.node n).id = (s.node n).id
  kind : ∀ n, (t.node n).kind = (s.node n).kind
  spread : ∀ n, ¬free n → t.spread n ≤ s.spread n

namespace EdgesOnly

instance : Std.Refl (EdgesOnly free) :=
  ⟨fun _ => ⟨rfl, rfl, fun _ => rfl, fun _ => rfl, fun _ => rfl, fun _ _ => Nat.le_refl _⟩⟩

instance : IsTrans Specification (EdgesOnly free) :=
  ⟨fun _ _ _ h h' => ⟨h'.size.trans h.size, h'.decompositions_size.trans h.decompositions_size,
    fun c => (h'.unlinked c).trans (h.unlinked c), fun n => (h'.id n).trans (h.id n),
    fun n => (h'.kind n).trans (h.kind n),
    fun n other => Nat.le_trans (h'.spread n other) (h.spread n other)⟩⟩

theorem facts (h : EdgesOnly free s t) (c : DecompositionId) :
    (t.decomposition c).facts = (s.decomposition c).facts := by
  have same := congrArg Decomposition.facts (h.unlinked c)
  exact same

theorem nodes (h : EdgesOnly free s t) (c : DecompositionId) :
    (t.decomposition c).nodes = (s.decomposition c).nodes := by
  have same := congrArg Decomposition.nodes (h.unlinked c)
  exact same

theorem mono {free' : NodeId → Prop} (h : EdgesOnly free s t) (more : ∀ n, free n → free' n) :
    EdgesOnly free' s t :=
  ⟨h.size, h.decompositions_size, h.unlinked, h.id, h.kind,
    fun n other => h.spread n fun isFree => other (more n isFree)⟩

theorem of_spread (h : EdgesOnly (· = a) s t) (fewer : t.spread a ≤ s.spread a) :
    EdgesOnly free s t := by
  refine ⟨h.size, h.decompositions_size, h.unlinked, h.id, h.kind, fun n _ => ?_⟩
  by_cases same : n = a
  · rw [same]
    exact fewer
  · exact h.spread n same

theorem modifyDecomposition {g : Decomposition → Decomposition}
    (keeps : ∀ net, (g net).unlinked = net.unlinked) :
    EdgesOnly free s (s.modifyDecomposition d g) where
  size := rfl
  decompositions_size := decompositions_size_modifyDecomposition g
  unlinked c := by
    rw [decomposition_modifyDecomposition]
    split
    · exact keeps _
    · rfl
  id _ := rfl
  kind _ := rfl
  spread _ _ := Nat.le_refl _

theorem edges (edges : Array Edge) : EdgesOnly free s { s with edges } :=
  ⟨rfl, rfl, fun _ => rfl, fun _ => rfl, fun _ => rfl, fun _ _ => Nat.le_refl _⟩

/-- Another change that keeps what a node is and adds no outgoing edge, unless it may. -/
theorem modifyNode {g : Node → Node} (h : EdgesOnly free s t)
    (same : ∀ node, (g node).id = node.id ∧ (g node).kind = node.kind)
    (fewer : ¬free n → (g (t.node n)).outgoing.length ≤ t.spread n) :
    EdgesOnly free s (t.modifyNode n g) where
  size := (nodes_size_modifyNode g).trans h.size
  decompositions_size := h.decompositions_size
  unlinked := h.unlinked
  id m := by
    rw [node_modifyNode]
    split
    · rw [(same _).1, h.id]
    · exact h.id m
  kind m := by
    rw [node_modifyNode]
    split
    · rw [(same _).2, h.kind]
    · exact h.kind m
  spread m other := by
    refine Nat.le_trans ?_ (h.spread m other)
    unfold Specification.spread
    rw [node_modifyNode]
    split
    · rename_i here
      obtain ⟨rfl, _⟩ := here
      exact fewer other
    · exact Nat.le_refl _

theorem listEdge : EdgesOnly (· = a) s (s.listEdge d e a b) :=
  .modifyNode (.modifyNode (.modifyDecomposition fun _ => rfl) (fun _ => ⟨rfl, rfl⟩)
    fun other => (other rfl).elim) (fun _ => ⟨rfl, rfl⟩) fun _ => Nat.le_refl _

theorem unlistEdge : EdgesOnly free s (s.unlistEdge d e a b) :=
  .modifyNode (.modifyNode (.modifyDecomposition fun _ => rfl) (fun _ => ⟨rfl, rfl⟩)
    fun _ => List.length_erase_le) (fun _ => ⟨rfl, rfl⟩) fun _ => Nat.le_refl _

end EdgesOnly

theorem spread_listEdge_le : (s.listEdge d e a b).spread a ≤ s.spread a + 1 := by
  unfold spread listEdge
  rw [node_modifyNode, node_modifyNode, node_modifyDecomposition]
  split <;> split <;> simp

/-- A node that has an edge is stored, so it has one edge less when that is taken off. -/
theorem spread_unlistEdge (listed : e ∈ (s.node a).outgoing) :
    (s.unlistEdge d e a b).spread a + 1 = s.spread a := by
  have stored : a.index < s.nodes.size := by
    refine Nat.lt_of_not_le fun beyond => ?_
    rw [node_eq_blank beyond] at listed
    cases listed
  have positive := List.length_pos_of_mem listed
  have shorter := List.length_erase_of_mem listed
  unfold spread unlistEdge
  simp only [node_modifyNode, node_modifyDecomposition, nodes_size_modifyDecomposition, stored,
    and_self, if_true]
  split <;> simp only [shorter] <;> omega

end Specification

open Specification

namespace Net.Edit

/-! ### Operations on edges -/

theorem ensures_requireEnd_some {x : Option NodeId} :
    Ensures (fun _ => True) (requireEnd x) s fun n t => t = s ∧ x = some n := by
  cases x with
  | some n => exact ⟨rfl, rfl⟩
  | none => trivial

theorem ensures_withoutEdge_listed {edges : List EdgeId} :
    Ensures (fun _ => True) (withoutEdge e edges) s fun rest t =>
      t = s ∧ e ∈ edges ∧ rest = edges.erase e := by
  unfold withoutEdge
  split
  · exact ⟨rfl, ‹_›, rfl⟩
  · trivial

theorem ensures_addEdge_listed : Ensures (fun _ => True) (addEdge d e) s fun _ t =>
    ∃ a b, (s.edge e).source = some a ∧ t = s.listEdge d e a b := by
  unfold addEdge
  rw [ensures_bind, ensures_modify, ensures_bind, ensures_get, edge_modifyDecomposition]
  refine ensures_requireEnd_some.seq ?_
  rintro a _ ⟨rfl, source⟩
  rw [ensures_bind, ensures_modify]
  refine ensures_requireEnd_some.seq ?_
  rintro b _ ⟨rfl, _⟩
  exact ⟨a, b, source, rfl⟩

theorem ensures_removeEdge_unlisted : Ensures (fun _ => True) (removeEdge d e) s fun _ t =>
    ∃ a b, (s.edge e).source = some a ∧ e ∈ (s.node a).outgoing ∧ t = s.unlistEdge d e a b := by
  unfold removeEdge
  rw [ensures_bind, ensures_get]
  refine ensures_withoutEdge_listed.seq ?_
  rintro edges _ ⟨rfl, _, rfl⟩
  rw [ensures_bind, ensures_modify, ensures_bind, ensures_get, edge_modifyDecomposition]
  refine ensures_requireEnd_some.seq ?_
  rintro a _ ⟨rfl, source⟩
  rw [ensures_bind, ensures_get, node_modifyDecomposition]
  refine ensures_withoutEdge_listed.seq ?_
  rintro outgoing _ ⟨rfl, listed, rfl⟩
  rw [ensures_bind, ensures_modify]
  refine ensures_requireEnd_some.seq ?_
  rintro b _ ⟨rfl, _⟩
  rw [ensures_bind, ensures_get]
  refine ensures_withoutEdge_listed.seq ?_
  rintro incoming _ ⟨rfl, _, rfl⟩
  rw [ensures_modify]
  exact ⟨a, b, source, listed, unlistEdge_of_reads rfl⟩

theorem relates_createEdge {x : Edge} : Relates (EdgesOnly fun _ => True) (createEdge d x) := by
  intro s
  unfold createEdge storeEdge
  rw [ensures_bind, ensures_bind, ensures_get, ensures_bind, ensures_set, ensures_pure]
  refine ensures_addEdge_listed.seq ?_
  rintro _ _ ⟨a, b, _, rfl⟩
  exact IsTrans.trans _ _ _ (.edges _) (.mono .listEdge fun _ _ => trivial)

theorem relates_connectInputToOutput :
    Relates (EdgesOnly fun _ => True) (connectInputToOutput d) :=
  .bind .get fun _ => relates_createEdge

theorem ensures_createEdge_leaves {x : Edge} (source : x.source = some a) :
    Ensures (fun _ => True) (createEdge d x) s fun _ t =>
      EdgesOnly (· = a) s t ∧ t.spread a ≤ s.spread a + 1 := by
  unfold createEdge storeEdge
  rw [ensures_bind, ensures_bind, ensures_get, ensures_bind, ensures_set, ensures_pure]
  refine ensures_addEdge_listed.seq ?_
  rintro _ _ ⟨a', b, source', rfl⟩
  have stored : Specification.edge { s with edges := s.edges.push x } ⟨s.edges.size⟩ = x := by
    unfold Specification.edge
    rw [getD_push, if_pos rfl]
  rw [stored, source] at source'
  cases source'
  exact ⟨IsTrans.trans _ _ _ (.edges _) .listEdge, spread_listEdge_le⟩

theorem ensures_link_leaves {ordering : Int} {predicate : String} {isDefault : Bool} :
    Ensures (fun _ => True) (link d a b ordering predicate isDefault) s fun _ t =>
      EdgesOnly (· = a) s t ∧ t.spread a ≤ s.spread a + 1 :=
  ensures_createEdge_leaves rfl

/-- Edges that get another source leave that. -/
theorem relates_redirectSource : Relates (EdgesOnly (· = m)) (redirectSource d e m) := by
  intro s
  unfold redirectSource
  refine ensures_removeEdge_unlisted.seq ?_
  rintro _ _ ⟨a, b, before, _, rfl⟩
  rw [ensures_bind, ensures_modify]
  refine ensures_addEdge_listed.mono ?_
  rintro _ _ ⟨x, y, source, rfl⟩
  have stored : e.index < (s.unlistEdge d e a b).edges.size := edge_stored before
  rw [edge_modifyEdge, if_pos ⟨rfl, stored⟩] at source
  cases source
  exact IsTrans.trans _ _ _ .unlistEdge (IsTrans.trans _ _ _ (.edges _) .listEdge)

/-- Edges that get another target leave where they left. -/
theorem relates_redirectTarget : Relates (EdgesOnly (fun _ => False)) (redirectTarget d e m) := by
  intro s
  unfold redirectTarget
  refine ensures_removeEdge_unlisted.seq ?_
  rintro _ _ ⟨a, b, before, listed, rfl⟩
  rw [ensures_bind, ensures_modify]
  refine ensures_addEdge_listed.mono ?_
  rintro _ _ ⟨x, y, source, rfl⟩
  obtain rfl : x = a := by
    rw [edge_modifyEdge] at source
    split at source <;> exact Option.some.inj (source.symm.trans before)
  refine .of_spread (IsTrans.trans _ _ _ .unlistEdge (IsTrans.trans _ _ _ (.edges _) .listEdge)) ?_
  exact Nat.le_trans spread_listEdge_le (Nat.le_of_eq (spread_unlistEdge listed))

theorem relates_moveOutgoing : Relates (EdgesOnly (· = b)) (moveOutgoing d a b) :=
  .bind .get fun _ => .forM fun _ _ => relates_redirectSource

theorem relates_moveIncoming : Relates (EdgesOnly (fun _ => False)) (moveIncoming d a b) :=
  .bind .get fun _ => .forM fun _ _ => relates_redirectTarget

theorem relates_modifyEdge {g : Edge → Edge} :
    Relates (EdgesOnly free) (modify (·.modifyEdge e g) : Edit PUnit) :=
  .modify fun _ => .edges _

theorem relates_renumber {k : Int} {ids : List EdgeId} :
    Relates (EdgesOnly free) (renumber k ids) := by
  induction ids generalizing k with
  | nil => exact .pure _
  | cons e rest ih => exact .bind relates_modifyEdge fun _ => ih

theorem relates_linkFirst {predicate : String} :
    Relates (EdgesOnly (· = a)) (linkFirst d a b predicate) := by
  have linking : Relates (EdgesOnly (· = a)) (link d a b 1 predicate) :=
    fun _ => ensures_link_leaves.mono fun _ _ linked => linked.1
  refine .bind .get fun s => .bind relates_renumber fun _ => ?_
  split
  · dsimp only
    split
    · exact .bind relates_modifyEdge fun _ => linking
    · exact linking
  · exact linking

end Net.Edit

end ProcessNets
