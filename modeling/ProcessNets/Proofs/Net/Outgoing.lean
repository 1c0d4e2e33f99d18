import Mathlib.Data.List.Sort
import ProcessNets.Proofs.Net.Details
import ProcessNets.Proofs.Net.Walks

/-!
# Edges that leave a node

What the edges that leave a node carry, whatever their order in the list of the node. In a
well-formed specification these edges tell what a node is joined to, and an operation changes them
at the nodes that it names only.
-/

namespace ProcessNets

open Net

namespace Specification

variable {s t u : Specification} {a b m n : NodeId} {e f : EdgeId} {c d : DecompositionId}

/-! ### Reading -/

theorem mem_outgoing_iff (wf : s.WellFormed) (hn : n ∈ (s.decomposition d).nodes) :
    e ∈ (s.node n).outgoing ↔ e ∈ (s.decomposition d).edges ∧ (s.edge e).source = some n :=
  (wf.agree d).listed n hn .source e

/-- What a node is joined to is what the edges that leave it lead to. -/
theorem joins_iff (wf : s.WellFormed) : Joins s d a b ↔
    a ∈ (s.decomposition d).nodes ∧ ∃ x ∈ s.outgoing a, x.target = some b := by
  constructor
  · intro step
    obtain ⟨ha, _⟩ := step.mem wf
    obtain ⟨e, he, source, target⟩ := step
    exact ⟨ha, _, List.mem_map_of_mem ((mem_outgoing_iff wf ha).mpr ⟨he, source⟩), target⟩
  · rintro ⟨ha, x, hx, target⟩
    obtain ⟨e, listed, rfl⟩ := List.mem_map.mp hx
    obtain ⟨he, source⟩ := (mem_outgoing_iff wf ha).mp listed
    exact ⟨e, he, source, target⟩

theorem joins_iff_target (wf : s.WellFormed) : Joins s d a b ↔
    a ∈ (s.decomposition d).nodes ∧ some b ∈ (s.outgoing a).map (·.target) := by
  rw [joins_iff wf, List.mem_map]

theorem joins_iff_incoming (wf : s.WellFormed) (hb : b ∈ (s.decomposition d).nodes) :
    Joins s d a b ↔ ∃ e ∈ (s.node b).incoming, (s.edge e).source = some a := by
  have listed : ∀ e, e ∈ (s.node b).incoming ↔
      e ∈ (s.decomposition d).edges ∧ (s.edge e).target = some b := (wf.agree d).listed b hb .target
  constructor
  · rintro ⟨e, he, source, target⟩
    exact ⟨e, (listed e).mpr ⟨he, target⟩, source⟩
  · rintro ⟨e, he, source⟩
    obtain ⟨he, target⟩ := (listed e).mp he
    exact ⟨e, he, source, target⟩

theorem incoming_eq_nil_of_joins (wf : s.WellFormed) (hn : n ∈ (s.decomposition d).nodes)
    (bare : ∀ m, ¬Joins s d m n) : (s.node n).incoming = [] := by
  refine List.eq_nil_iff_forall_not_mem.mpr fun e listed => ?_
  obtain ⟨he, _⟩ := ((wf.agree d).listed n hn .target e).mp listed
  obtain ⟨m, _, source⟩ := (wf.agree d).ends e he .source
  exact bare m ((joins_iff_incoming wf hn).mpr ⟨e, listed, source⟩)

/-- Edges that leave a node lead from it to a node of the same decomposition. -/
theorem ends_of_outgoing (wf : s.WellFormed) (hn : n ∈ (s.decomposition d).nodes) {x : Edge}
    (hx : x ∈ s.outgoing n) :
    x.source = some n ∧ ∃ m ∈ (s.decomposition d).nodes, x.target = some m := by
  obtain ⟨e, listed, rfl⟩ := List.mem_map.mp hx
  obtain ⟨he, source⟩ := (mem_outgoing_iff wf hn).mp listed
  obtain ⟨m, hm, target⟩ := (wf.agree d).ends e he .target
  exact ⟨source, m, hm, target⟩

theorem outgoing_eq_nil_of_joins (wf : s.WellFormed) (hn : n ∈ (s.decomposition d).nodes)
    (bare : ∀ m, ¬Joins s d n m) : (s.node n).outgoing = [] := by
  refine List.eq_nil_iff_forall_not_mem.mpr fun e listed => ?_
  obtain ⟨_, m, _, target⟩ := ends_of_outgoing wf hn (List.mem_map_of_mem listed)
  exact bare m ((joins_iff wf).mpr ⟨hn, _, List.mem_map_of_mem listed, target⟩)

/-- The edges of a node, if it takes over those of another one. -/
theorem outgoing_perm (wf : s.WellFormed) (wft : t.WellFormed)
    (hn : n ∈ (s.decomposition d).nodes) (hm : m ∈ (t.decomposition d).nodes)
    (same : ∀ e, e ∈ (t.decomposition d).edges ∧ (t.edge e).source = some m ↔
      e ∈ (s.decomposition d).edges ∧ (s.edge e).source = some n)
    {g : Edge → Edge} (record : ∀ e ∈ (s.node n).outgoing, t.edge e = g (s.edge e)) :
    (t.outgoing m).Perm ((s.outgoing n).map g) := by
  have ids : (t.node m).outgoing.Perm (s.node n).outgoing := by
    refine (List.perm_ext_iff_of_nodup ((wft.agree d).once m hm .source)
      ((wf.agree d).once n hn .source)).mpr fun e => ?_
    exact (mem_outgoing_iff wft hm).trans ((same e).trans (mem_outgoing_iff wf hn).symm)
  unfold outgoing
  rw [List.map_map]
  refine (ids.map t.edge).trans (List.Perm.of_eq ?_)
  exact List.map_congr_left record

theorem outgoing_eq_nil (wf : s.WellFormed) (hn : n ∈ (s.decomposition d).nodes)
    (none : (s.decomposition d).edges = []) : s.outgoing n = [] := by
  unfold outgoing
  rw [List.map_eq_nil_iff, List.eq_nil_iff_forall_not_mem]
  intro e listed
  have he := ((mem_outgoing_iff wf hn).mp listed).1
  rw [none] at he
  cases he

/-! ### Changing -/

theorem SameRouting.outgoing (h : SameRouting s t) (skeleton : t.skeleton = s.skeleton) :
    t.outgoing n = s.outgoing n := by
  unfold Specification.outgoing
  rw [outgoing_of_skeleton skeleton]
  exact List.map_congr_left fun e _ => h.edge e

theorem SameDetails.outgoing_records (h : SameDetails d s t) (wf : s.WellFormed)
    (hn : n ∈ (s.decomposition d).nodes) : t.outgoing n = s.outgoing n := by
  unfold Specification.outgoing
  rw [h.outgoing hn]
  exact List.map_congr_left fun e listed => h.edge e ((mem_outgoing_iff wf hn).mp listed).1

theorem outgoing_modifyTask {g : Task → Task} : (s.modifyTask n g).outgoing m = s.outgoing m := by
  unfold outgoing modifyTask
  rw [node_modifyNode]
  split <;> rfl

theorem Steady.outgoing_records (h : Steady s t) (hn : n.index < s.nodes.size) :
    t.outgoing n = s.outgoing n := by
  unfold Specification.outgoing
  rw [h.outgoing hn]
  exact List.map_congr_left fun e _ => h.edge e

/-- A new edge comes last at its source. -/
theorem outgoing_addEdge (wf : s.WellFormed) (ha : a ∈ (s.decomposition d).nodes)
    (hb : b ∈ (s.decomposition d).nodes) (hn : n ∈ (s.decomposition d).nodes) (x : Edge) :
    (s.addEdge d x a b).outgoing n = if n = a then s.outgoing n ++ [x] else s.outgoing n := by
  have old : ∀ e ∈ (s.node n).outgoing, (s.addEdge d x a b).edge e = s.edge e := fun e listed =>
    (wf.agree d).edge_addEdge_of_mem x ((mem_outgoing_iff wf hn).mp listed).1
  have ids : ((s.addEdge d x a b).node n).outgoing =
      if n = a then (s.node n).outgoing ++ [⟨s.edges.size⟩] else (s.node n).outgoing := by
    rw [node_addEdge x (wf.node_stored ha) (wf.node_stored hb)]
  unfold outgoing
  rw [ids]
  split
  · rw [List.map_append, List.map_congr_left old, List.map_singleton, edge_addEdge, if_pos rfl]
  · exact List.map_congr_left old

theorem split?_of_bare (h : (t.node n).bare = (s.node n).bare) : t.split? n = s.split? n := by
  unfold split? task?
  rw [kind_of_bare h]

theorem timer?_of_bare (h : (t.node n).bare = (s.node n).bare) : t.timer? n = s.timer? n := by
  unfold timer? task?
  rw [kind_of_bare h]

end Specification

end ProcessNets
