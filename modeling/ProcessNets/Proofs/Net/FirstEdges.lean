import Mathlib.Data.List.Induction
import ProcessNets.Proofs.Net.Gains

/-!
# Edges to handlers

Guarded edges are put in front of the other edges of a node, one after the other. Each time the
other edges are numbered again, and those without predicate become default edges. In the end the
guarded edges stand in front in the reverse order. This is about one decomposition, and only its
lists have to agree.
-/

namespace ProcessNets

open Net

namespace Net

variable {x : Edge} {xs ys : List Edge} {k l : Int}

/-! ### Lists of edges -/

/-- An edge in front of others, with the numbers and flags that they get. -/
def putInFront (xs : List Edge) (x : Edge) : List Edge :=
  numberedFrom 1 (x :: xs.map Edge.flag)

theorem Edge.flag_flag (x : Edge) : x.flag.flag = x.flag := by
  unfold Edge.flag
  split <;> simp_all

theorem Edge.flag_of_predicate (h : x.predicate ≠ "") : x.flag = x :=
  if_neg fun empty => h (String.isEmpty_iff.mp empty)

theorem map_flag_flag : (xs.map Edge.flag).map Edge.flag = xs.map Edge.flag := by
  rw [List.map_map]
  exact List.map_congr_left fun x _ => x.flag_flag

theorem map_flag_numberedFrom :
    (numberedFrom k xs).map Edge.flag = numberedFrom k (xs.map Edge.flag) := by
  induction xs generalizing k with
  | nil => rfl
  | cons x rest ih =>
    simp only [numberedFrom, List.map_cons, ih]
    congr 1
    unfold Edge.flag
    dsimp only
    split <;> rfl

theorem numberedFrom_numberedFrom : numberedFrom k (numberedFrom l xs) = numberedFrom k xs := by
  induction xs generalizing k l with
  | nil => rfl
  | cons x rest ih => simp only [numberedFrom, ih]

/-- Only an edge that gets its flag anyway is marked. -/
theorem map_flag_markLast : (markLast xs).map Edge.flag = xs.map Edge.flag := by
  rcases List.eq_nil_or_concat xs with rfl | ⟨init, last, rfl⟩
  · rfl
  · rw [List.concat_eq_append, markLast_concat, List.map_append, List.map_append]
    congr 1
    split
    · rename_i marked
      have empty := (Bool.and_eq_true_iff.mp marked).2
      simp [Edge.flag, empty]
    · rfl

theorem strict_numberedFrom : (numberedFrom k xs).Pairwise fun x y => x.ordering < y.ordering := by
  have strict : ((numberedFrom k xs).map (·.ordering)).Pairwise (· < ·) := by
    rw [ordering_numberedFrom, List.pairwise_map]
    exact List.pairwise_lt_range.imp fun below => by omega
  exact List.pairwise_map.mp strict

/-- Several edges that have predicates, the last of which comes first. -/
theorem foldl_putInFront (some_edge : ys ≠ []) (guards : ∀ y ∈ ys, y.predicate ≠ "") :
    ys.foldl putInFront xs = numberedFrom 1 (ys.reverse ++ xs.map Edge.flag) := by
  induction ys using List.reverseRecOn with
  | nil => exact (some_edge rfl).elim
  | append_singleton init y ih =>
    rw [List.foldl_append, List.foldl_cons, List.foldl_nil, List.reverse_append,
      List.reverse_singleton, List.singleton_append, List.cons_append]
    cases init with
    | nil => rfl
    | cons z rest =>
      have before : (z :: rest).reverse.map Edge.flag = (z :: rest).reverse := by
        refine (List.map_congr_left fun w hw => ?_).trans (List.map_id _)
        exact Edge.flag_of_predicate (guards w (List.mem_append_left _ (List.mem_reverse.mp hw)))
      rw [ih (List.cons_ne_nil z rest) fun w hw => guards w (List.mem_append_left _ hw)]
      unfold putInFront
      rw [map_flag_numberedFrom, List.map_append, map_flag_flag, before]
      simp only [numberedFrom, numberedFrom_numberedFrom]

end Net

namespace Specification

variable {s t u : Specification} {a b n : NodeId} {d : DecompositionId} {predicate : String}
  {ids edges : List EdgeId} {targets targets' : List NodeId}

theorem byOrdering_eq (perm : ids.Perm edges)
    (strict : (ids.map s.edge).Pairwise fun x y => x.ordering < y.ordering) :
    Edit.byOrdering s edges = ids := by
  rw [List.pairwise_map] at strict
  have sorted : (Edit.byOrdering s edges).Pairwise fun e f =>
      (s.edge e).ordering ≤ (s.edge f).ordering := by
    rw [← List.pairwise_map (f := s.edge) (R := fun x y => x.ordering ≤ y.ordering)]
    exact Edit.byOrdering_sorted
  have distinct : (ids.map fun e => (s.edge e).ordering).Nodup :=
    List.pairwise_map.mpr (strict.imp Int.ne_of_lt)
  have same : (Edit.byOrdering s edges).Perm ids := Edit.byOrdering_perm.trans perm.symm
  refine same.eq_of_pairwise ?_ sorted (strict.imp Int.le_of_lt)
  intro e f he hf below above
  exact List.inj_on_of_nodup_map distinct (same.subset he) hf (Int.le_antisymm below above)

theorem byOrdering_congr (same : ∀ e, t.edge e = s.edge e) :
    Edit.byOrdering t edges = Edit.byOrdering s edges := by
  unfold Edit.byOrdering
  simp only [same]

theorem byOrdering_of_length (few : edges.length ≤ 1) : Edit.byOrdering s edges = edges := by
  match edges, few with
  | [], _ => exact List.perm_nil.mp Edit.byOrdering_perm
  | [e], _ => exact List.perm_singleton.mp Edit.byOrdering_perm

/-- Guarded edges lead from `a` to the targets, put in front of the edges that it had. -/
structure Handled (d : DecompositionId) (a : NodeId) (predicate : String) (targets : List NodeId)
    (s t : Specification) : Prop where
  agree : EdgeListsAgree t d
  size : s.nodes.size ≤ t.nodes.size
  nodes : (s.decomposition d).nodes ⊆ (t.decomposition d).nodes
  edges : (s.decomposition d).edges ⊆ (t.decomposition d).edges
  isTask : ∀ n, (s.task? n).isSome → (t.task? n).isSome
  split : ∀ n, n.index < s.nodes.size → t.split n = s.split n
  records : (Edit.byOrdering t (t.node a).outgoing).map t.edge =
    (targets.map fun y => { Edge.plain a y 1 with predicate }).foldl putInFront
      ((Edit.byOrdering s (s.node a).outgoing).map s.edge)
  behind : ∃ handlers, Edit.byOrdering t (t.node a).outgoing =
    handlers ++ Edit.byOrdering s (s.node a).outgoing ∧
      ∀ e ∈ handlers, e ∉ (s.decomposition d).edges
  others : ∀ e ∈ (s.decomposition d).edges, e ∉ (s.node a).outgoing → t.edge e = s.edge e
  elsewhere : ∀ n ∈ (s.decomposition d).nodes, n ≠ a → (t.node n).outgoing = (s.node n).outgoing

namespace Handled

theorem refl (agree : EdgeListsAgree s d) : Handled d a predicate [] s s where
  agree := agree
  size := Nat.le_refl _
  nodes := List.Subset.refl _
  edges := List.Subset.refl _
  isTask _ task := task
  split _ _ := rfl
  records := rfl
  behind := ⟨[], rfl, nofun⟩
  others _ _ _ := rfl
  elsewhere _ _ _ := rfl

theorem trans (h : Handled d a predicate targets s t) (h' : Handled d a predicate targets' t u) :
    Handled d a predicate (targets ++ targets') s u where
  agree := h'.agree
  size := Nat.le_trans h.size h'.size
  nodes := List.Subset.trans h.nodes h'.nodes
  edges := List.Subset.trans h.edges h'.edges
  isTask n task := h'.isTask n (h.isTask n task)
  split n hn := (h'.split n (Nat.lt_of_lt_of_le hn h.size)).trans (h.split n hn)
  records := by rw [h'.records, h.records, List.map_append, List.foldl_append]
  behind := by
    obtain ⟨first, before, new⟩ := h.behind
    obtain ⟨second, after, new'⟩ := h'.behind
    refine ⟨second ++ first, by rw [after, before, List.append_assoc], fun e he old => ?_⟩
    rcases List.mem_append.mp he with he | he
    · exact new' e he (h.edges old)
    · exact new e he old
  others e he other := by
    rw [h'.others e (h.edges he) fun listed => ?_, h.others e he other]
    obtain ⟨first, before, new⟩ := h.behind
    have listed := (before ▸ Edit.byOrdering_perm.mem_iff).mpr listed
    rcases List.mem_append.mp listed with isNew | old
    · exact new e isNew he
    · exact other (Edit.byOrdering_perm.mem_iff.mp old)
  elsewhere n hn other := (h'.elsewhere n (h.nodes hn) other).trans (h.elsewhere n hn other)

/-- The last target comes first, and the edges that were there before come behind all of them. -/
theorem ordered (h : Handled d a predicate targets s t) (some_target : targets ≠ [])
    (given : predicate ≠ "") : ∃ guarded,
      Edit.byOrdering t (t.node a).outgoing = guarded ++ Edit.byOrdering s (s.node a).outgoing ∧
      guarded.map t.edge =
        numberedFrom 1 (targets.reverse.map fun y => { Edge.plain a y 1 with predicate }) ∧
      (Edit.byOrdering s (s.node a).outgoing).map t.edge = numberedFrom (targets.length + 1)
        (((Edit.byOrdering s (s.node a).outgoing).map s.edge).map Edge.flag) := by
  obtain ⟨guarded, all, _⟩ := h.behind
  refine ⟨guarded, all, ?_⟩
  have records := h.records
  rw [foldl_putInFront, numberedFrom_append, all, List.map_append] at records
  · have parts := List.append_inj' records (by simp [length_numberedFrom])
    rw [← List.map_reverse, List.length_map, List.length_reverse, Int.add_comm] at parts
    exact parts
  · exact fun none => some_target (List.map_eq_nil_iff.mp none)
  · intro y hy
    obtain ⟨_, _, rfl⟩ := List.mem_map.mp hy
    exact given

end Handled

/-- An edge from `a` to `b` is put in front: the other edges of `a` are numbered from 2 on, then the
edge comes, and then those of the others that have no predicate become default edges. -/
structure PutInFront (d : DecompositionId) (a b : NodeId) (predicate : String)
    (s t w : Specification) : Prop where
  numbered : Relabeled (Edit.byOrdering s (s.node a).outgoing)
    (markLast (numberedFrom 2 ((Edit.byOrdering s (s.node a).outgoing).map s.edge))) s t
  flagged : Relabeled (s.node a).outgoing
    (((s.node a).outgoing.map (t.addEdge d { Edge.plain a b 1 with predicate } a b).edge).map
      Edge.flag) (t.addEdge d { Edge.plain a b 1 with predicate } a b) w

namespace PutInFront

variable {w : Specification} {e : EdgeId} (h : PutInFront d a b predicate s t w)
  (agree : EdgeListsAgree s d)
include h agree

theorem agreeNumbered : EdgeListsAgree t d :=
  agree.of_skeleton h.numbered.skeleton

theorem new : ⟨t.edges.size⟩ ∉ (s.decomposition d).edges := by
  rw [← edges_of_skeleton h.numbered.skeleton]
  exact (h.agreeNumbered agree).not_mem_edges_of_le (Nat.le_refl _)

/-- Before the last change, the edges are what they were after the first one. -/
theorem edge_added (he : e ∈ (s.decomposition d).edges) :
    (t.addEdge d { Edge.plain a b 1 with predicate } a b).edge e = t.edge e :=
  (h.agreeNumbered agree).edge_addEdge_of_mem _ (edges_of_skeleton h.numbered.skeleton d ▸ he)

theorem edge_other (he : e ∈ (s.decomposition d).edges) (other : e ∉ (s.node a).outgoing) :
    w.edge e = s.edge e := by
  rw [h.flagged.outside e other, h.edge_added agree he, h.numbered.outside]
  exact fun listed => other (Edit.byOrdering_perm.mem_iff.mp listed)

omit agree in
theorem bare : (w.node n).bare = (s.node n).bare := by
  rw [h.flagged.node, bare_addEdge, h.numbered.node]

variable (ha : a ∈ (s.decomposition d).nodes)
include ha

theorem edge_new : w.edge ⟨t.edges.size⟩ = { Edge.plain a b 1 with predicate } := by
  rw [h.flagged.outside _ fun listed => h.new agree ((agree.listed a ha .source _).mp listed).1,
    edge_addEdge, if_pos rfl]

theorem edge_own (he : e ∈ (s.node a).outgoing) : w.edge e = (t.edge e).flag := by
  have inside := h.flagged.inside
  rw [List.map_map] at inside
  rw [List.map_inj_left.mp inside e he, Function.comp,
    h.edge_added agree ((agree.listed a ha .source e).mp he).1]

/-- The edges in their new order. -/
theorem records : (⟨t.edges.size⟩ :: Edit.byOrdering s (s.node a).outgoing).map w.edge =
    putInFront ((Edit.byOrdering s (s.node a).outgoing).map s.edge)
      { Edge.plain a b 1 with predicate } := by
  have sorted : (Edit.byOrdering s (s.node a).outgoing).map w.edge =
      numberedFrom 2 (((Edit.byOrdering s (s.node a).outgoing).map s.edge).map Edge.flag) := by
    rw [← map_flag_numberedFrom, ← map_flag_markLast, ← h.numbered.inside, List.map_map]
    exact List.map_congr_left fun e he =>
      h.edge_own agree ha (Edit.byOrdering_perm.mem_iff.mp he)
  rw [List.map_cons, h.edge_new agree ha, sorted]
  rfl

variable (hb : b ∈ (s.decomposition d).nodes)
include hb

theorem outgoing : (w.node n).outgoing =
    if n = a then (s.node n).outgoing ++ [⟨t.edges.size⟩] else (s.node n).outgoing := by
  have stored := (h.agreeNumbered agree).stored
  have nodes := nodes_of_skeleton h.numbered.skeleton d
  rw [h.flagged.node, node_addEdge _ (stored a (nodes ▸ ha)) (stored b (nodes ▸ hb)),
    h.numbered.node]

theorem front : Edit.byOrdering w (w.node a).outgoing =
    ⟨t.edges.size⟩ :: Edit.byOrdering s (s.node a).outgoing := by
  apply byOrdering_eq
  · rw [h.outgoing agree ha hb, if_pos rfl]
    exact (Edit.byOrdering_perm.cons _).trans (List.perm_append_singleton ..).symm
  · rw [h.records agree ha]
    exact strict_numberedFrom

theorem handled : Handled d a predicate [b] s w := by
  have nodes := nodes_of_skeleton h.numbered.skeleton d
  have edges := edges_of_skeleton h.numbered.skeleton d
  have hat : a ∈ (t.decomposition d).nodes := nodes ▸ ha
  have hbt : b ∈ (t.decomposition d).nodes := nodes ▸ hb
  constructor
  · refine EdgeListsAgree.of_skeleton ?_ h.flagged.skeleton
    exact (h.agreeNumbered agree).addEdge (Side.pick_mem hat hbt) (Edge.endpoint_pick rfl rfl)
  · rw [nodes_size_of_skeleton h.flagged.skeleton, nodes_size_addEdge,
      nodes_size_of_skeleton h.numbered.skeleton]
  · rw [nodes_of_skeleton h.flagged.skeleton, nodes_addEdge, nodes]
    exact List.Subset.refl _
  · rw [edges_of_skeleton h.flagged.skeleton, edges_addEdge _ (decomposition_stored hat), edges]
    exact List.subset_append_left ..
  · intro n task
    rwa [task?_of_bare h.bare]
  · exact fun n _ => split_of_kind (kind_of_bare h.bare)
  · rw [h.front agree ha hb, h.records agree ha]
    rfl
  · refine ⟨[⟨t.edges.size⟩], h.front agree ha hb, fun e he => ?_⟩
    rw [List.mem_singleton.mp he]
    exact h.new agree
  · exact fun e he other => h.edge_other agree he other
  · intro n _ other
    rw [h.outgoing agree ha hb, if_neg other]

end PutInFront

end Specification

end ProcessNets
