import ProcessNets.Proofs.Net.Changes
import ProcessNets.Proofs.Net.Renumbering

/-!
# Edges handed over

A node may hand its edges on one side over to a new task, which one more edge then joins to it.
Nothing else that is listed changes, and each edge goes on to carry what it carried. All this is
about one decomposition, and only the lists of this one have to agree.
-/

namespace ProcessNets

open Net

namespace Net

/-- What an edge carries: its predicate, its ordering, and whether it is the default edge. -/
def Edge.label (x : Edge) : String × Int × Bool :=
  (x.predicate, x.ordering, x.isDefault)

theorem Edge.label_move (x : Edge) (side : Side) (n : NodeId) :
    (x.move side n).label = x.label := by
  cases side <;> rfl

/-- An edge is what it joins and what it carries. -/
theorem Edge.eq_of_label {x y : Edge} (source : x.source = y.source) (target : x.target = y.target)
    (label : x.label = y.label) : x = y := by
  obtain ⟨_, _, _, _, _⟩ := x
  obtain ⟨_, _, _, _, _⟩ := y
  simp only [Edge.label, Prod.mk.injEq] at source target label
  obtain ⟨rfl, rfl, rfl⟩ := label
  subst source target
  rfl

theorem eq_singleton_of_mem_iff {α : Type} {items : List α} {a : α} (nodup : items.Nodup)
    (h : ∀ b, b ∈ items ↔ b = a) : items = [a] := by
  refine List.perm_singleton.mp ((List.perm_ext_iff_of_nodup nodup (List.nodup_singleton a)).mpr ?_)
  intro b
  rw [h, List.mem_singleton]

/-- The ends of an edge that leads from `a` to `m`, as seen from the side of `a`. -/
theorem Side.pick_pick (side x : Side) (a m : NodeId) :
    x.pick (side.pick a m) (side.pick m a) = if x = side then a else m := by
  cases side <;> cases x <;> rfl

end Net

namespace Specification

variable {s t u : Specification} {a m n : NodeId} {e f : EdgeId} {d : DecompositionId}
  {side x : Side}

/-! ### Agreement -/

/-- What there is to check on one side for the edge lists to agree. -/
def AgreeAt (s : Specification) (d : DecompositionId) (side : Side) : Prop :=
  (∀ e ∈ (s.decomposition d).edges,
    ∃ n ∈ (s.decomposition d).nodes, (s.edge e).endpoint side = some n) ∧
  ∀ n ∈ (s.decomposition d).nodes, ((s.node n).edgesAt side).Nodup ∧
    (∀ e ∈ (s.node n).edgesAt side,
      e ∈ (s.decomposition d).edges ∧ (s.edge e).endpoint side = some n) ∧
    ∀ e ∈ (s.decomposition d).edges, (s.edge e).endpoint side = some n →
      e ∈ (s.node n).edgesAt side

instance (s : Specification) (d : DecompositionId) (side : Side) : Decidable (AgreeAt s d side) :=
  inferInstanceAs (Decidable (_ ∧ _))

theorem edgeListsAgree_iff : EdgeListsAgree s d ↔
    (∀ n ∈ (s.decomposition d).nodes, n.index < s.nodes.size) ∧ (s.decomposition d).edges.Nodup ∧
      AgreeAt s d .source ∧ AgreeAt s d .target := by
  constructor
  · intro agree
    have at_side : ∀ side, AgreeAt s d side := fun side =>
      ⟨fun e he => agree.ends e he side, fun n hn => ⟨agree.once n hn side,
        fun e => (agree.listed n hn side e).mp, fun e he there =>
          (agree.listed n hn side e).mpr ⟨he, there⟩⟩⟩
    exact ⟨agree.stored, agree.distinct, at_side .source, at_side .target⟩
  · rintro ⟨stored, distinct, source, target⟩
    have at_side : ∀ side, AgreeAt s d side := by
      rintro (_ | _)
      · exact source
      · exact target
    refine ⟨stored, distinct, fun e he side => (at_side side).1 e he,
      fun n hn side => ((at_side side).2 n hn).1, fun n hn side e => ?_⟩
    obtain ⟨_, only, all⟩ := (at_side side).2 n hn
    exact ⟨only e, fun both => all e both.1 both.2⟩

instance (s : Specification) (d : DecompositionId) : Decidable (EdgeListsAgree s d) :=
  decidable_of_iff _ edgeListsAgree_iff.symm

/-! ### New tasks -/

/-- A new task `m` has all edges that `a` had on one side, and the new edge `e` joins the two. -/
structure TakesOver (d : DecompositionId) (side : Side) (a m : NodeId) (e : EdgeId)
    (s t : Specification) : Prop where
  agree : EdgeListsAgree t d
  fresh : s.nodes.size ≤ m.index
  grows : s.nodes.size ≤ t.nodes.size
  nodes : (t.decomposition d).nodes = (s.decomposition d).nodes ++ [m]
  new : e ∉ (s.decomposition d).edges
  edges : ∀ f, f ∈ (t.decomposition d).edges ↔ f ∈ (s.decomposition d).edges ∨ f = e
  edge : ∀ f ∈ (s.decomposition d).edges,
    t.edge f = if f ∈ (s.node a).edgesAt side then (s.edge f).move side m else s.edge f
  link : t.edge e = .plain (side.pick a m) (side.pick m a) 1
  bare : ∀ n, n.index < s.nodes.size → (t.node n).bare = (s.node n).bare

/-- The node is added, then the edges move, then the two are joined. -/
theorem TakesOver.of_moved {node : Node} (agree : EdgeListsAgree s d)
    (ha : a ∈ (s.decomposition d).nodes) (agreet : EdgeListsAgree t d)
    (moved : Edit.Moved d side a ⟨s.nodes.size⟩ (s.addNode d node) t)
    (size : t.nodes.size = (s.addNode d node).nodes.size)
    (bare : ∀ n, (t.node n).bare = ((s.addNode d node).node n).bare) :
    TakesOver d side a ⟨s.nodes.size⟩ ⟨t.edges.size⟩ s (t.addEdge d
      (.plain (side.pick a ⟨s.nodes.size⟩) (side.pick ⟨s.nodes.size⟩ a) 1)
      (side.pick a ⟨s.nodes.size⟩) (side.pick ⟨s.nodes.size⟩ a)) := by
  have stored : d.index < s.decompositions.size := decomposition_stored ha
  have nodes : (t.decomposition d).nodes = (s.decomposition d).nodes ++ [⟨s.nodes.size⟩] := by
    rw [moved.nodes, nodes_addNode node stored]
  have hat : a ∈ (t.decomposition d).nodes := by
    rw [nodes]
    exact List.mem_append_left _ ha
  have hmt : ⟨s.nodes.size⟩ ∈ (t.decomposition d).nodes := by
    rw [nodes]
    exact List.mem_append_right _ (List.mem_singleton_self _)
  have same : ∀ f, f ∈ (t.decomposition d).edges ↔ f ∈ (s.decomposition d).edges := by
    intro f
    rw [moved.edges, edges_addNode]
  constructor
  · exact agreet.addEdge (Side.pick_mem (Side.pick_mem hat hmt side) (Side.pick_mem hmt hat side))
      (Edge.endpoint_pick rfl rfl)
  · exact Nat.le_refl _
  · rw [nodes_size_addEdge, size, nodes_size_addNode]
    exact Nat.le_succ _
  · rw [← nodes]
    exact nodes_listEdge
  · rw [← same]
    exact agreet.not_mem_edges_of_le (Nat.le_refl _)
  · intro f
    rw [edges_addEdge _ (decomposition_stored hat), List.mem_append, List.mem_singleton]
    exact or_congr_left (same f)
  · intro f hf
    rw [agreet.edge_addEdge_of_mem _ ((same f).mpr hf), moved.edge,
      node_addNode_of_lt node (agree.stored a ha), edge_addNode]
  · rw [edge_addEdge, if_pos rfl]
  · intro n hn
    rw [bare_addEdge, bare, node_addNode_of_lt node hn]

/-! ### Lists -/

/-- A node may have handed its edges on one side over, and nothing else that is listed changed. -/
structure Relieved (d : DecompositionId) (side : Side) (a : NodeId) (s t : Specification) :
    Prop where
  agree : EdgeListsAgree t d
  grows : s.nodes.size ≤ t.nodes.size
  nodes : (s.decomposition d).nodes ⊆ (t.decomposition d).nodes
  edges : (s.decomposition d).edges ⊆ (t.decomposition d).edges
  label : ∀ e ∈ (s.decomposition d).edges, (t.edge e).label = (s.edge e).label
  lists : ∀ n ∈ (s.decomposition d).nodes, ∀ x, (x = side → n ≠ a) → ∀ e,
    e ∈ (t.node n).edgesAt x ↔ e ∈ (s.node n).edgesAt x
  loops : ∀ e ∈ (t.decomposition d).edges, (t.edge e).source = (t.edge e).target →
    e ∈ (s.decomposition d).edges ∧ (s.edge e).source = (s.edge e).target
  bare : ∀ n, n.index < s.nodes.size → (t.node n).bare = (s.node n).bare

theorem Relieved.refl (agree : EdgeListsAgree s d) : Relieved d side a s s where
  agree := agree
  grows := Nat.le_refl _
  nodes := List.Subset.refl _
  edges := List.Subset.refl _
  label _ _ := rfl
  lists _ _ _ _ _ := Iff.rfl
  loops _ listed back := ⟨listed, back⟩
  bare _ _ := rfl

namespace TakesOver

variable (h : TakesOver d side a m e s t)
include h

theorem mem : m ∈ (t.decomposition d).nodes := by
  rw [h.nodes]
  exact List.mem_append_right _ (List.mem_singleton_self m)

theorem stays (hn : n ∈ (s.decomposition d).nodes) : n ∈ (t.decomposition d).nodes := by
  rw [h.nodes]
  exact List.mem_append_left _ hn

theorem ne (stored : n.index < s.nodes.size) : n ≠ m := by
  rintro rfl
  exact Nat.not_lt_of_le h.fresh stored

theorem endpoint_link : (t.edge e).endpoint x = some (if x = side then a else m) := by
  rw [h.link, ← Side.pick_pick side x a m]
  exact Edge.endpoint_pick rfl rfl x

theorem endpoint (hf : f ∈ (s.decomposition d).edges) : (t.edge f).endpoint x =
    if x = side ∧ f ∈ (s.node a).edgesAt side then some m else (s.edge f).endpoint x := by
  rw [h.edge f hf]
  by_cases moved : f ∈ (s.node a).edgesAt side
  · rw [if_pos moved, Edge.endpoint_move]
    simp [moved]
  · simp [moved]

theorem label (hf : f ∈ (s.decomposition d).edges) : (t.edge f).label = (s.edge f).label := by
  rw [h.edge f hf]
  split
  · exact Edge.label_move ..
  · rfl

/-- The edges of a node, old ones and the one that is new. -/
theorem mem_edgesAt (hn : n ∈ (t.decomposition d).nodes) : f ∈ (t.node n).edgesAt x ↔
    (f ∈ (s.decomposition d).edges ∧ (t.edge f).endpoint x = some n) ∨
      f = e ∧ (if x = side then a else m) = n := by
  rw [h.agree.listed n hn, h.edges, or_and_right]
  refine or_congr_right (and_congr_right ?_)
  rintro rfl
  rw [h.endpoint_link, Option.some.injEq]

variable (agree : EdgeListsAgree s d)
include agree

/-- On the other side the new task has nothing but the edge that joins it. -/
theorem mem_edgesAt_other (other : x ≠ side) : f ∈ (t.node m).edgesAt x ↔ f = e := by
  rw [h.mem_edgesAt h.mem, if_neg other]
  constructor
  · rintro (⟨hf, there⟩ | ⟨same, _⟩)
    · obtain ⟨n, hn, same⟩ := agree.ends f hf x
      rw [h.endpoint hf, if_neg fun both => other both.1, same] at there
      exact (h.ne (agree.stored n hn) (Option.some.inj there)).elim
    · exact same
  · exact fun same => .inr ⟨same, rfl⟩

theorem edgesAt_other (other : x ≠ side) : (t.node m).edgesAt x = [e] :=
  eq_singleton_of_mem_iff (h.agree.once m h.mem x) fun _ => h.mem_edgesAt_other agree other

variable (ha : a ∈ (s.decomposition d).nodes)
include ha

/-- The new task has the edges that the other node had. -/
theorem mem_edgesAt_new : f ∈ (t.node m).edgesAt side ↔ f ∈ (s.node a).edgesAt side := by
  have other := h.ne (agree.stored a ha)
  rw [h.mem_edgesAt h.mem, if_pos rfl]
  constructor
  · rintro (⟨hf, there⟩ | ⟨_, same⟩)
    · rw [h.endpoint hf] at there
      split at there
      · rename_i moved
        exact moved.2
      · obtain ⟨n, hn, same⟩ := agree.ends f hf side
        rw [there] at same
        cases same
        exact (h.ne (agree.stored m hn) rfl).elim
    · exact (other same).elim
  · intro moved
    have hf := ((agree.listed a ha side f).mp moved).1
    refine .inl ⟨hf, ?_⟩
    rw [h.endpoint hf, if_pos ⟨rfl, moved⟩]

/-- The node keeps nothing but the edge that joins it to the new task. -/
theorem mem_edgesAt_self : f ∈ (t.node a).edgesAt side ↔ f = e := by
  rw [h.mem_edgesAt (h.stays ha), if_pos rfl]
  constructor
  · rintro (⟨hf, there⟩ | ⟨same, _⟩)
    · rw [h.endpoint hf] at there
      split at there
      · exact (h.ne (agree.stored a ha) (Option.some.inj there).symm).elim
      · rename_i stays
        exact (stays ⟨rfl, (agree.listed a ha side f).mpr ⟨hf, there⟩⟩).elim
    · exact same
  · exact fun same => .inr ⟨same, rfl⟩

theorem edgesAt_self : (t.node a).edgesAt side = [e] :=
  eq_singleton_of_mem_iff (h.agree.once a (h.stays ha) side) fun _ => h.mem_edgesAt_self agree ha

theorem relieved : Relieved d side a s t where
  agree := h.agree
  grows := h.grows
  nodes _ hn := h.stays hn
  edges f hf := (h.edges f).mpr (.inl hf)
  label f hf := h.label hf
  lists n hn x apart f := by
    have hnt := h.stays hn
    have fresh := h.ne (agree.stored n hn)
    rw [h.mem_edgesAt hnt, agree.listed n hn]
    constructor
    · rintro (⟨hf, there⟩ | ⟨_, same⟩)
      · rw [h.endpoint hf] at there
        split at there
        · exact (fresh (Option.some.inj there).symm).elim
        · exact ⟨hf, there⟩
      · split at same
        · rename_i here
          exact (apart here same.symm).elim
        · exact (fresh same.symm).elim
    · rintro ⟨hf, there⟩
      refine .inl ⟨hf, ?_⟩
      rw [h.endpoint hf, if_neg, there]
      rintro ⟨here, moved⟩
      rw [here, ((agree.listed a ha side f).mp moved).2] at there
      exact apart here (Option.some.inj there).symm
  loops f listed back := by
    rcases (h.edges f).mp listed with old | rfl
    · refine ⟨old, ?_⟩
      rw [h.edge f old] at back
      split at back
      · obtain ⟨p, hp, q, hq, source, target⟩ := agree.exists_ends old
        cases side
        · exact (h.ne (agree.stored q hq) (Option.some.inj (back.trans target)).symm).elim
        · exact (h.ne (agree.stored p hp) (Option.some.inj (source.symm.trans back))).elim
      · exact back
    · have other := h.ne (agree.stored a ha)
      rw [h.link] at back
      cases side
      · exact (other (Option.some.inj back)).elim
      · exact (other (Option.some.inj back).symm).elim
  bare := h.bare

end TakesOver

/-! ### Loops in front -/

/-- Edges got behind a new first one. They are numbered from 2 on in the order that they had, keep
their predicates, and if none of them was the default edge, the last one becomes it unless it has a
predicate. -/
structure PutBehind (ids : List EdgeId) (s t : Specification) : Prop where
  predicate : ∀ e ∈ ids, (t.edge e).predicate = (s.edge e).predicate
  ordering : (ids.map fun e => (t.edge e).ordering).Perm
    ((List.range ids.length).map fun i : Nat => 2 + (i : Int))
  order : ∀ e ∈ ids, ∀ f ∈ ids, (s.edge e).ordering < (s.edge f).ordering →
    (t.edge e).ordering < (t.edge f).ordering
  isDefault : ∀ e ∈ ids, (t.edge e).isDefault = true ↔ (s.edge e).isDefault = true ∨
    (∀ f ∈ ids, (s.edge f).isDefault = false) ∧ (s.edge e).predicate = "" ∧
      ∀ f ∈ ids, (t.edge f).ordering ≤ (t.edge e).ordering

/-- In the sorted list, all but the last keep their flags. -/
theorem Relabeled.isDefault {ids : List EdgeId} {last : EdgeId}
    (relabeled : Relabeled (ids ++ [last])
      (markLast (numberedFrom 2 ((ids ++ [last]).map s.edge))) s t) :
    (∀ e ∈ ids, (t.edge e).isDefault = (s.edge e).isDefault) ∧
      ((t.edge last).isDefault = true ↔ (s.edge last).isDefault = true ∨
        (∀ f ∈ ids ++ [last], (s.edge f).isDefault = false) ∧ (s.edge last).predicate = "") := by
  have inside := relabeled.inside
  rw [List.map_append, List.map_append, List.map_singleton, List.map_singleton,
    numberedFrom_concat, markLast_concat] at inside
  obtain ⟨front, final⟩ := List.append_inj' inside rfl
  constructor
  · have flags := congrArg (List.map Edge.isDefault) front
    rw [map_numberedFrom fun _ _ => rfl, List.map_map, List.map_map] at flags
    exact List.map_inj_left.mp flags
  · have all : (numberedFrom 2 (ids.map s.edge) ++
        [{ s.edge last with ordering := 2 + (ids.map s.edge).length }]).any (·.isDefault) =
          (ids ++ [last]).any fun f => (s.edge f).isDefault := by
      rw [List.any_append, List.any_append, any_numberedFrom, List.any_map]
      rfl
    have mark := List.singleton_inj.mp final
    rw [all] at mark
    have none : (ids ++ [last]).any (fun f => (s.edge f).isDefault) = false ↔
        ∀ f ∈ ids ++ [last], (s.edge f).isDefault = false := by
      simp only [List.any_eq_false, Bool.not_eq_true]
    rw [mark, ← none, ← String.isEmpty_iff]
    cases (ids ++ [last]).any (fun f => (s.edge f).isDefault) <;>
      cases (s.edge last).predicate.isEmpty <;> simp

theorem PutBehind.perm {ids ids' : List EdgeId} (h : PutBehind ids s t) (perm : ids.Perm ids') :
    PutBehind ids' s t where
  predicate e he := h.predicate e (perm.mem_iff.mpr he)
  ordering := by
    rw [← perm.length_eq]
    exact (perm.symm.map _).trans h.ordering
  order e he f hf := h.order e (perm.mem_iff.mpr he) f (perm.mem_iff.mpr hf)
  isDefault e he := by
    rw [h.isDefault e (perm.mem_iff.mpr he)]
    simp only [perm.mem_iff]

section
variable {ids : List EdgeId}
  (relabeled : Relabeled ids (markLast (numberedFrom 2 (ids.map s.edge))) s t)
include relabeled

theorem Relabeled.strict : ids.Pairwise fun e f => (t.edge e).ordering < (t.edge f).ordering := by
  have first : ({ Edge.blank with ordering := 1 } :: behindFirst false
      (ids.map s.edge)).Pairwise fun x y => x.ordering < y.ordering := strict_behindFirst rfl
  have inside : ids.map t.edge = behindFirst false (ids.map s.edge) := relabeled.inside
  rw [← inside, List.pairwise_cons, List.pairwise_map] at first
  exact first.2

/-- Sorted edges keep their order. -/
theorem Relabeled.order
    (sorted : ids.Pairwise fun e f => (s.edge e).ordering ≤ (s.edge f).ordering) : ∀ e ∈ ids,
      ∀ f ∈ ids, (s.edge e).ordering < (s.edge f).ordering →
        (t.edge e).ordering < (t.edge f).ordering := by
  have forwards : ids.Pairwise fun e f =>
      (s.edge e).ordering < (s.edge f).ordering → (t.edge e).ordering < (t.edge f).ordering := by
    refine relabeled.strict.imp ?_
    intro e f above _
    exact above
  have backwards : ids.Pairwise fun e f =>
      (s.edge f).ordering < (s.edge e).ordering → (t.edge f).ordering < (t.edge e).ordering :=
    sorted.imp fun below less => (Int.not_lt.mpr below less).elim
  intro e he f hf
  exact forwards.forall_of_forall_of_flip (fun e _ less => (Int.lt_irrefl _ less).elim) backwards
    he hf

/-- An edge becomes the default edge only at the end. -/
theorem Relabeled.isDefault_iff : ∀ e ∈ ids, (t.edge e).isDefault = true ↔
    (s.edge e).isDefault = true ∨ (∀ f ∈ ids, (s.edge f).isDefault = false) ∧
      (s.edge e).predicate = "" ∧ ∀ f ∈ ids, (t.edge f).ordering ≤ (t.edge e).ordering := by
  intro e he
  have strict := relabeled.strict
  rcases List.eq_nil_or_concat ids with rfl | ⟨init, last, rfl⟩
  · cases he
  · rw [List.concat_eq_append] at *
    obtain ⟨front, final⟩ := relabeled.isDefault
    have ahead : ∀ f ∈ init, (t.edge f).ordering < (t.edge last).ordering := fun f hf =>
      (List.pairwise_append.mp strict).2.2 f hf last (List.mem_singleton_self last)
    rcases List.mem_append.mp he with before | here
    · rw [front e before]
      refine ⟨.inl, fun flags => flags.resolve_right ?_⟩
      rintro ⟨_, _, greatest⟩
      have := greatest last (by simp)
      have := ahead e before
      omega
    · rw [List.mem_singleton] at here
      subst here
      rw [final]
      refine or_congr_right (and_congr_right fun _ => (and_iff_left fun f hf => ?_).symm)
      rcases List.mem_append.mp hf with before | last
      · exact Int.le_of_lt (ahead f before)
      · rw [List.mem_singleton.mp last]

end

theorem Relabeled.putBehind {ids : List EdgeId} (relabeled : Relabeled (Edit.byOrdering s ids)
    (markLast (numberedFrom 2 ((Edit.byOrdering s ids).map s.edge))) s t) : PutBehind ids s t := by
  have sorted : (Edit.byOrdering s ids).Pairwise fun e f =>
      (s.edge e).ordering ≤ (s.edge f).ordering := by
    rw [← List.pairwise_map (f := s.edge) (R := fun x y => x.ordering ≤ y.ordering)]
    exact Edit.byOrdering_sorted
  have inside : (Edit.byOrdering s ids).map t.edge =
      behindFirst false ((Edit.byOrdering s ids).map s.edge) := relabeled.inside
  refine PutBehind.perm ⟨?_, ?_, relabeled.order sorted, relabeled.isDefault_iff⟩
    Edit.byOrdering_perm
  · have predicates := congrArg (List.map Edge.predicate) inside
    rw [map_behindFirst (fun _ _ => rfl) fun _ _ => rfl, List.map_map, List.map_map] at predicates
    exact fun e he => List.map_inj_left.mp predicates e he
  · have orderings := congrArg (List.map Edge.ordering) inside
    rw [ordering_behindFirst, List.map_map, List.length_map] at orderings
    exact .of_eq orderings

/-- A new first edge leads from `a` back to it, in front of the edges that `a` had. -/
structure LoopsBack (d : DecompositionId) (a : NodeId) (predicate : String) (e : EdgeId)
    (s t : Specification) : Prop where
  agree : EdgeListsAgree t d
  nodes : (t.decomposition d).nodes = (s.decomposition d).nodes
  grows : s.nodes.size ≤ t.nodes.size
  new : e ∉ (s.decomposition d).edges
  edges : ∀ f, f ∈ (t.decomposition d).edges ↔ f ∈ (s.decomposition d).edges ∨ f = e
  edge : ∀ f ∈ (s.decomposition d).edges, f ∉ (s.node a).outgoing → t.edge f = s.edge f
  endpoint : ∀ f ∈ (s.decomposition d).edges, ∀ x,
    (t.edge f).endpoint x = (s.edge f).endpoint x
  behind : PutBehind (s.node a).outgoing s t
  loop : t.edge e = { Edge.plain a a 1 with predicate }
  bare : ∀ n, n ≠ a → (t.node n).bare = (s.node n).bare

theorem PutBehind.congr {ids : List EdgeId} (h : PutBehind ids s t)
    (same : ∀ f ∈ ids, u.edge f = t.edge f) : PutBehind ids s u where
  predicate f hf := by
    rw [same f hf]
    exact h.predicate f hf
  ordering := by
    rw [List.map_congr_left fun f hf => congrArg Edge.ordering (same f hf)]
    exact h.ordering
  order e he f hf less := by
    rw [same e he, same f hf]
    exact h.order e he f hf less
  isDefault f hf := by
    rw [same f hf, h.isDefault f hf]
    refine or_congr_right (and_congr_right fun _ => and_congr_right fun _ => ?_)
    exact forall₂_congr fun g hg => by rw [same g hg]

/-- The edges may be listed in another order, and may have got other ends before. -/
theorem PutBehind.after {ids ids' : List EdgeId} (h : PutBehind ids s t) (perm : ids'.Perm ids)
    (same : ∀ f ∈ ids', (s.edge f).label = (u.edge f).label) : PutBehind ids' u t := by
  have predicate : ∀ f ∈ ids', (s.edge f).predicate = (u.edge f).predicate :=
    fun f hf => congrArg Prod.fst (same f hf)
  have ordering : ∀ f ∈ ids', (s.edge f).ordering = (u.edge f).ordering :=
    fun f hf => congrArg (·.2.1) (same f hf)
  have isDefault : ∀ f ∈ ids', (s.edge f).isDefault = (u.edge f).isDefault :=
    fun f hf => congrArg (·.2.2) (same f hf)
  constructor
  · intro f hf
    rw [h.predicate f (perm.subset hf), predicate f hf]
  · rw [perm.length_eq]
    exact (perm.map _).trans h.ordering
  · intro e he f hf less
    rw [← ordering e he, ← ordering f hf] at less
    exact h.order e (perm.subset he) f (perm.subset hf) less
  · intro f hf
    rw [h.isDefault f (perm.subset hf), isDefault f hf, predicate f hf]
    refine or_congr_right (and_congr ?_ (and_congr_right fun _ => ?_))
    · refine ⟨fun none g hg => ?_, fun none g hg => ?_⟩
      · rw [← isDefault g hg]
        exact none g (perm.subset hg)
      · rw [isDefault g (perm.symm.subset hg)]
        exact none g (perm.symm.subset hg)
    · exact ⟨fun greatest g hg => greatest g (perm.subset hg),
        fun greatest g hg => greatest g (perm.symm.subset hg)⟩

/-- A single edge becomes the default edge behind the new one, unless it has a predicate. -/
theorem PutBehind.single (h : PutBehind [e] s t) (predicate : (s.edge e).predicate = "") :
    (t.edge e).label = ("", 2, true) := by
  have listed := List.mem_singleton_self e
  have ordering : (t.edge e).ordering = 2 :=
    List.singleton_inj.mp (List.perm_singleton.mp h.ordering)
  have isDefault : (t.edge e).isDefault = true := by
    rw [h.isDefault e listed]
    cases flag : (s.edge e).isDefault
    · refine .inr ⟨fun f hf => ?_, predicate, fun f hf => ?_⟩
      · rw [List.mem_singleton.mp hf, flag]
      · rw [List.mem_singleton.mp hf]
    · exact .inl rfl
  unfold Edge.label
  rw [h.predicate e listed, predicate, ordering, isDefault]

theorem LoopsBack.of_relabeled (predicate : String) (agree : EdgeListsAgree s d)
    (ha : a ∈ (s.decomposition d).nodes)
    (relabeled : Relabeled (Edit.byOrdering s (s.node a).outgoing)
      (markLast (numberedFrom 2 ((Edit.byOrdering s (s.node a).outgoing).map s.edge))) s t) :
    LoopsBack d a predicate ⟨t.edges.size⟩ s
      (t.addEdge d { Edge.plain a a 1 with predicate } a a) := by
  have agreet := agree.of_skeleton relabeled.skeleton
  have nodes := nodes_of_skeleton relabeled.skeleton d
  have hat : a ∈ (t.decomposition d).nodes := by
    rw [nodes]
    exact ha
  have same := edges_of_skeleton relabeled.skeleton d
  have old : ∀ f ∈ (s.decomposition d).edges,
      (t.addEdge d { Edge.plain a a 1 with predicate } a a).edge f = t.edge f :=
    fun f hf => agreet.edge_addEdge_of_mem _ (same ▸ hf)
  constructor
  · exact agreet.addEdge (Side.pick_mem hat hat) (Edge.endpoint_pick rfl rfl)
  · rw [← nodes]
    exact nodes_listEdge
  · rw [nodes_size_addEdge, nodes_size_of_skeleton relabeled.skeleton]
  · rw [← same]
    exact agreet.not_mem_edges_of_le (Nat.le_refl _)
  · intro f
    rw [edges_addEdge _ (decomposition_stored hat), List.mem_append, List.mem_singleton, same]
  · intro f hf other
    rw [old f hf, relabeled.outside]
    exact fun listed => other (Edit.byOrdering_perm.subset listed)
  · intro f hf x
    rw [old f hf, endpoint_of_skeleton relabeled.skeleton]
  · refine relabeled.putBehind.congr fun f hf => old f ?_
    exact ((agree.listed a ha .source f).mp hf).1
  · rw [edge_addEdge, if_pos rfl]
  · intro n _
    rw [bare_addEdge, relabeled.node]

namespace LoopsBack

variable {predicate : String} (h : LoopsBack d a predicate e s t)
include h

theorem mem_edgesAt (agree : EdgeListsAgree s d) (hn : n ∈ (s.decomposition d).nodes) :
    f ∈ (t.node n).edgesAt x ↔ f ∈ (s.node n).edgesAt x ∨ n = a ∧ f = e := by
  have hnt : n ∈ (t.decomposition d).nodes := by
    rw [h.nodes]
    exact hn
  rw [h.agree.listed n hnt, h.edges, agree.listed n hn]
  have ends : (t.edge e).endpoint x = some a := by
    rw [h.loop]
    cases x <;> rfl
  constructor
  · rintro ⟨hf | rfl, there⟩
    · rw [h.endpoint f hf] at there
      exact .inl ⟨hf, there⟩
    · rw [ends] at there
      exact .inr ⟨(Option.some.inj there).symm, rfl⟩
  · rintro (⟨hf, there⟩ | ⟨rfl, rfl⟩)
    · rw [h.endpoint f hf]
      exact ⟨.inl hf, there⟩
    · exact ⟨.inr rfl, ends⟩

/-- What the node itself does is not restricted. -/
theorem modifyTask {g : Task → Task} (runs : ∀ t, (g t).decomposesTo = t.decomposesTo) :
    LoopsBack d a predicate e s (t.modifyTask a g) where
  agree := h.agree.of_skeleton (skeleton_modifyTask runs)
  nodes := h.nodes
  grows := by
    unfold Specification.modifyTask
    rw [nodes_size_modifyNode]
    exact h.grows
  new := h.new
  edges := h.edges
  edge := h.edge
  endpoint := h.endpoint
  behind := h.behind.congr fun _ _ => rfl
  loop := h.loop
  bare n other := by
    rw [node_modifyTask_of_ne other]
    exact h.bare n other

end LoopsBack

end Specification

end ProcessNets
