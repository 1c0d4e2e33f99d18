import Mathlib.Algebra.Order.Ring.Int
import ProcessNets.Proofs.Net.Outgoing

/-!
# Edges in front of others

A new first edge of a node goes in front of its other edges. These are numbered again in the order
that they had; where none of them was the default edge, the last one becomes it.
-/

namespace ProcessNets

open Net

namespace Net

/-! ### Lists of edges -/

/-- Edges numbered upwards from the given ordering. -/
def numberedFrom : Int → List Edge → List Edge
  | _, [] => []
  | k, x :: rest => { x with ordering := k } :: numberedFrom (k + 1) rest

/-- The edges with the last one as default edge, if there is no other and it has no predicate. -/
def markLast (xs : List Edge) : List Edge :=
  match xs.getLast? with
  | some last =>
    if !xs.any (·.isDefault) && last.predicate.isEmpty then
      xs.dropLast ++ [{ last with isDefault := true }]
    else xs
  | none => xs

/-- The edge, as a default edge if it has no predicate. -/
def Edge.flag (x : Edge) : Edge :=
  if x.predicate.isEmpty then { x with isDefault := true } else x

/-- The other edges of a node that gets a new first edge, given in their order. If the edges are
guarded, all but the last have a predicate already, and any one without becomes a default edge. -/
def behindFirst (guarded : Bool) (xs : List Edge) : List Edge :=
  if guarded then (markLast (numberedFrom 2 xs)).map Edge.flag else markLast (numberedFrom 2 xs)

theorem numberedFrom_append {k : Int} {xs ys : List Edge} : numberedFrom k (xs ++ ys) =
    numberedFrom k xs ++ numberedFrom (k + xs.length) ys := by
  induction xs generalizing k with
  | nil => simp [numberedFrom]
  | cons x rest ih =>
    simp only [List.cons_append, numberedFrom, ih, List.length_cons, Nat.cast_add, Nat.cast_one]
    congr 3
    omega

theorem numberedFrom_concat {k : Int} {xs : List Edge} {x : Edge} : numberedFrom k (xs ++ [x]) =
    numberedFrom k xs ++ [{ x with ordering := k + xs.length }] :=
  numberedFrom_append

theorem length_numberedFrom {k : Int} {xs : List Edge} :
    (numberedFrom k xs).length = xs.length := by
  induction xs generalizing k with
  | nil => rfl
  | cons x rest ih => rw [numberedFrom, List.length_cons, ih, List.length_cons]

theorem any_numberedFrom {k : Int} {xs : List Edge} :
    (numberedFrom k xs).any (·.isDefault) = xs.any (·.isDefault) := by
  induction xs generalizing k with
  | nil => rfl
  | cons y rest ih => simp only [numberedFrom, List.any_cons, ih]

theorem markLast_concat {xs : List Edge} {x : Edge} : markLast (xs ++ [x]) =
    xs ++ [if !(xs ++ [x]).any (·.isDefault) && x.predicate.isEmpty then
      { x with isDefault := true } else x] := by
  unfold markLast
  rw [List.getLast?_concat, List.dropLast_concat]
  dsimp only
  split <;> rfl

/-! ### What stays -/

section
variable {α : Type} {f : Edge → α} {k : Int} {guarded : Bool} {xs ys : List Edge}

theorem map_numberedFrom (free : ∀ x k, f { x with ordering := k } = f x) :
    (numberedFrom k xs).map f = xs.map f := by
  induction xs generalizing k with
  | nil => rfl
  | cons x rest ih => simp only [numberedFrom, List.map_cons, free, ih]

theorem map_markLast (free : ∀ x b, f { x with isDefault := b } = f x) :
    (markLast xs).map f = xs.map f := by
  rcases List.eq_nil_or_concat xs with rfl | ⟨init, last, rfl⟩
  · rfl
  · rw [List.concat_eq_append, markLast_concat, List.map_append, List.map_append]
    split
    · rw [List.map_singleton, free, List.map_singleton]
    · rfl

theorem map_flag (free : ∀ x b, f { x with isDefault := b } = f x) :
    (xs.map Edge.flag).map f = xs.map f := by
  rw [List.map_map]
  apply List.map_congr_left
  intro x _
  unfold Function.comp Edge.flag
  split
  · exact free x true
  · rfl

/-- Behind a new first edge, edges only have other orderings and are flagged. -/
theorem map_behindFirst (order : ∀ x k, f { x with ordering := k } = f x)
    (flag : ∀ x b, f { x with isDefault := b } = f x) :
    (behindFirst guarded xs).map f = xs.map f := by
  unfold behindFirst
  split
  · rw [map_flag flag, map_markLast flag, map_numberedFrom order]
  · rw [map_markLast flag, map_numberedFrom order]

theorem ordering_numberedFrom :
    (numberedFrom k xs).map (·.ordering) = (List.range xs.length).map fun i : Nat => k + i := by
  induction xs generalizing k with
  | nil => rfl
  | cons x rest ih =>
    rw [numberedFrom, List.map_cons, ih, List.length_cons, List.range_succ_eq_map, List.map_cons,
      List.map_map]
    congr 1
    · simp
    · apply List.map_congr_left
      intro i _
      simp only [Function.comp, Nat.cast_succ]
      omega

theorem ordering_behindFirst : (behindFirst guarded xs).map (·.ordering) =
    (List.range xs.length).map fun i : Nat => 2 + (i : Int) := by
  unfold behindFirst
  split
  · rw [map_flag fun _ _ => rfl, map_markLast fun _ _ => rfl, ordering_numberedFrom]
  · rw [map_markLast fun _ _ => rfl, ordering_numberedFrom]

/-- Together with the first edge, the orderings ascend. -/
theorem strict_behindFirst {first : Edge} (ordering : first.ordering = 1) :
    (first :: behindFirst guarded xs).Pairwise fun x y => x.ordering < y.ordering := by
  have strict : ((first :: behindFirst guarded xs).map (·.ordering)).Pairwise (· < ·) := by
    rw [List.map_cons, ordering, ordering_behindFirst, List.pairwise_cons, List.pairwise_map]
    refine ⟨?_, List.pairwise_lt_range.imp fun below => by omega⟩
    intro k hk
    obtain ⟨i, _, rfl⟩ := List.mem_map.mp hk
    omega
  exact List.pairwise_map.mp strict

/-! ### Guarded edges -/

/-- In the order of the edges, all but the last have a predicate. -/
def Guarded (xs : List Edge) : Prop :=
  ∃ ys, xs.Perm ys ∧ (ys.Pairwise fun x y => x.ordering < y.ordering) ∧
    ∀ x ∈ ys.dropLast, x.predicate ≠ ""

theorem Guarded.of_length (h : xs.length ≤ 1) : Guarded xs := by
  match xs with
  | [] => exact ⟨[], .refl _, .nil, by simp⟩
  | [x] => exact ⟨[x], .refl _, List.pairwise_singleton .., by simp⟩
  | _ :: _ :: _ => simp at h

theorem Guarded.perm (h : Guarded xs) (perm : ys.Perm xs) : Guarded ys := by
  obtain ⟨zs, same, strict, guards⟩ := h
  exact ⟨zs, perm.trans same, strict, guards⟩

/-- Only one order of edges with different orderings is sorted. -/
theorem eq_of_sorted (perm : xs.Perm ys) (sorted : xs.Pairwise fun x y => x.ordering ≤ y.ordering)
    (strict : ys.Pairwise fun x y => x.ordering < y.ordering) : xs = ys := by
  have distinct : (ys.map (·.ordering)).Nodup := List.pairwise_map.mpr (strict.imp Int.ne_of_lt)
  refine perm.eq_of_pairwise ?_ sorted (strict.imp Int.le_of_lt)
  intro x y hx hy below above
  exact List.inj_on_of_nodup_map distinct (perm.subset hx) hy (Int.le_antisymm below above)

section
variable (h : Guarded xs) (perm : ys.Perm xs)
  (sorted : ys.Pairwise fun x y => x.ordering ≤ y.ordering)
include h perm sorted

theorem Guarded.dropLast : ∀ x ∈ ys.dropLast, x.predicate ≠ "" := by
  obtain ⟨zs, same, strict, guards⟩ := h
  obtain rfl := eq_of_sorted (perm.trans same) sorted strict
  exact guards

/-- An edge with a predicate is put in front. -/
theorem Guarded.behindFirst {first : Edge} (ordering : first.ordering = 1)
    (predicate : first.predicate ≠ "") : Guarded (first :: behindFirst true ys) := by
  have guards := h.dropLast perm sorted
  refine ⟨_, .refl _, strict_behindFirst ordering, ?_⟩
  · have predicates : (Net.behindFirst true ys).map (·.predicate) = ys.map (·.predicate) :=
      map_behindFirst (fun _ _ => rfl) fun _ _ => rfl
    intro x hx
    cases behind : Net.behindFirst true ys with
    | nil =>
      rw [behind] at hx
      cases hx
    | cons y rest =>
      rw [behind, List.dropLast_cons_cons, List.mem_cons] at hx
      rcases hx with rfl | hx
      · exact predicate
      · rw [← behind] at hx
        have carried := List.mem_map_of_mem (f := (·.predicate)) hx
        rw [List.map_dropLast, predicates, ← List.map_dropLast] at carried
        obtain ⟨z, hz, same⟩ := List.mem_map.mp carried
        rw [← same]
        exact guards z hz

end

end

end Net

namespace Specification

variable {s t u : Specification} {a b n : NodeId} {e : EdgeId} {ids : List EdgeId}
  {xs ys : List Edge} {d : DecompositionId} {E : Net.Fault → Prop}

/-! ### Edges that carry something else -/

/-- The edges in `ids` carry what `xs` tells, with the same ends, and nothing else changes. -/
structure Relabeled (ids : List EdgeId) (xs : List Edge) (s t : Specification) : Prop where
  skeleton : t.skeleton = s.skeleton
  nodes : t.nodes = s.nodes
  size : t.edges.size = s.edges.size
  inside : ids.map t.edge = xs
  outside : ∀ e, e ∉ ids → t.edge e = s.edge e

theorem Relabeled.refl (ids : List EdgeId) (s : Specification) : Relabeled ids (ids.map s.edge) s s :=
  ⟨rfl, rfl, rfl, rfl, fun _ _ => rfl⟩

theorem Relabeled.trans (h : Relabeled ids xs s t) (h' : Relabeled ids ys t u) : Relabeled ids ys s u where
  skeleton := h'.skeleton.trans h.skeleton
  nodes := h'.nodes.trans h.nodes
  size := h'.size.trans h.size
  inside := h'.inside
  outside e free := (h'.outside e free).trans (h.outside e free)

theorem Relabeled.node (h : Relabeled ids xs s t) : t.node n = s.node n := by
  unfold Specification.node
  rw [h.nodes]

theorem Relabeled.completed (h : Relabeled ids xs s t) (n : NodeId) :
    s.completed n ⊆ t.completed n := by
  unfold Specification.completed
  rw [h.node]
  exact List.Subset.refl _

/-- What edges are told to carry depends on themselves only. -/
theorem map_modifyEdge_of_not_mem {g : Edge → Edge} (new : e ∉ ids) :
    ids.map (s.modifyEdge e g).edge = ids.map s.edge := by
  apply List.map_congr_left
  intro f hf
  rw [edge_modifyEdge, if_neg]
  rintro ⟨rfl, _⟩
  exact new hf

section
variable {g : Edge → Edge} (keeps : ∀ x, (g x).skeleton = x.skeleton)
  (stored : e.index < s.edges.size) (new : e ∉ ids)
include keeps stored new

theorem Relabeled.cons (rest : Relabeled ids xs (s.modifyEdge e g) t) :
    Relabeled (e :: ids) (g (s.edge e) :: xs) s t where
  skeleton := rest.skeleton.trans (skeleton_modifyEdge keeps)
  nodes := rest.nodes
  size := rest.size.trans Array.size_modify
  inside := by
    rw [List.map_cons, rest.outside e new, rest.inside, edge_modifyEdge, if_pos ⟨rfl, stored⟩]
  outside f free := by
    rw [List.mem_cons, not_or] at free
    rw [rest.outside f free.2, edge_modifyEdge, if_neg fun both => free.1 both.1]

theorem Relabeled.last :
    Relabeled (ids ++ [e]) (ids.map s.edge ++ [g (s.edge e)]) s (s.modifyEdge e g) where
  skeleton := skeleton_modifyEdge keeps
  nodes := rfl
  size := Array.size_modify
  inside := by
    rw [List.map_append, map_modifyEdge_of_not_mem new, List.map_singleton, edge_modifyEdge,
      if_pos ⟨rfl, stored⟩]
  outside f free := by
    rw [List.mem_append, List.mem_singleton, not_or] at free
    rw [edge_modifyEdge, if_neg fun both => free.2 both.1]

end

end Specification

namespace Net.Edit

open Specification

variable {s t : Specification} {a b n : NodeId} {e : EdgeId} {ids : List EdgeId}
  {d : DecompositionId} {E : Net.Fault → Prop}

theorem ensures_renumber {k : Int} (nodup : ids.Nodup)
    (stored : ∀ e ∈ ids, e.index < s.edges.size) : Ensures E (renumber k ids) s fun _ t =>
      Relabeled ids (numberedFrom k (ids.map s.edge)) s t := by
  induction ids generalizing k s with
  | nil => exact Relabeled.refl [] s
  | cons e rest ih =>
    obtain ⟨new, nodup⟩ := List.nodup_cons.mp nodup
    unfold renumber
    rw [ensures_bind, ensures_modify]
    refine (ih nodup fun f hf => ?_).mono fun _ t relabeled => ?_
    · show f.index < (s.edges.modify _ _).size
      rw [Array.size_modify]
      exact stored f (List.mem_cons_of_mem _ hf)
    · rw [map_modifyEdge_of_not_mem new] at relabeled
      have keeps : ∀ x : Edge, ({ x with ordering := k } : Edge).skeleton = x.skeleton :=
        fun _ => rfl
      exact relabeled.cons keeps (stored e List.mem_cons_self) new

theorem ensures_modifyEdges {g : Edge → Edge} (keeps : ∀ x, (g x).skeleton = x.skeleton)
    (nodup : ids.Nodup) (stored : ∀ e ∈ ids, e.index < s.edges.size) :
    Ensures E (ids.forM fun e => modify (·.modifyEdge e g)) s fun _ t =>
      Relabeled ids ((ids.map s.edge).map g) s t := by
  induction ids generalizing s with
  | nil => exact Relabeled.refl [] s
  | cons e rest ih =>
    obtain ⟨new, nodup⟩ := List.nodup_cons.mp nodup
    rw [List.forM_eq_forM, List.forM_cons, ensures_bind, ensures_modify]
    refine (ih nodup fun f hf => ?_).mono fun _ t relabeled => ?_
    · show f.index < (s.edges.modify _ _).size
      rw [Array.size_modify]
      exact stored f (List.mem_cons_of_mem _ hf)
    · rw [map_modifyEdge_of_not_mem new] at relabeled
      exact relabeled.cons keeps (stored e List.mem_cons_self) new

/-- The edges of a node in the order in which they are tried. -/
theorem byOrdering_perm : (byOrdering s ids).Perm ids :=
  List.mergeSort_perm ids _

theorem byOrdering_sorted :
    ((byOrdering s ids).map s.edge).Pairwise fun x y => x.ordering ≤ y.ordering := by
  rw [List.pairwise_map]
  refine (List.pairwise_mergeSort ?_ ?_ ids).imp fun h => of_decide_eq_true h
  · intro e f g first second
    simp only [decide_eq_true_eq] at first second ⊢
    omega
  · intro e f
    simp only [Bool.or_eq_true, decide_eq_true_eq]
    omega

/-- A new first edge goes in front of the edges that the node had. -/
theorem ensures_linkFirst {predicate : String} (agree : EdgeListsAgree s d)
    (ha : a ∈ (s.decomposition d).nodes) {post : EdgeId → Specification → Prop}
    (after : ∀ t, Relabeled (byOrdering s (s.node a).outgoing)
        (markLast (numberedFrom 2 ((byOrdering s (s.node a).outgoing).map s.edge))) s t →
      post ⟨t.edges.size⟩ (t.addEdge d
        { source := some a, target := some b, predicate, ordering := 1 } a b)) :
    Ensures E (linkFirst d a b predicate) s post := by
  have nodup : (byOrdering s (s.node a).outgoing).Nodup :=
    byOrdering_perm.nodup_iff.mpr (agree.once a ha .source)
  have stored : ∀ e ∈ byOrdering s (s.node a).outgoing, e.index < s.edges.size := fun e he =>
    agree.edge_index_lt ((agree.listed a ha .source e).mp (byOrdering_perm.subset he)).1
  unfold linkFirst
  rw [ensures_bind, ensures_get]
  dsimp only
  generalize byOrdering s (s.node a).outgoing = existing at *
  refine (ensures_renumber nodup stored).seq fun _ t relabeled => ?_
  -- the last edge is relabeled once more if it has to become the default
  rcases List.eq_nil_or_concat existing with rfl | ⟨init, last, rfl⟩
  · exact ensures_link (after t relabeled)
  · rw [List.concat_eq_append] at *
    rw [List.getLast?_concat]
    dsimp only
    rw [List.map_append, List.map_singleton, numberedFrom_concat] at relabeled after
    rw [markLast_concat, List.any_append, any_numberedFrom, List.any_map] at after
    rw [List.any_append]
    have inside := relabeled.inside
    rw [List.map_append, List.map_singleton] at inside
    obtain ⟨front, final⟩ := List.append_inj' inside rfl
    have lastStored : last.index < t.edges.size := by
      rw [relabeled.size]
      exact stored last (List.mem_append_right _ (List.mem_singleton_self last))
    have new : last ∉ init := fun old =>
      (List.nodup_append.mp nodup).2.2 last old last (List.mem_singleton_self last) rfl
    have keeps : ∀ x : Edge, ({ x with isDefault := true } : Edge).skeleton = x.skeleton :=
      fun _ => rfl
    split <;> rename_i marks
    · rw [ensures_bind, ensures_modify]
      apply ensures_link
      apply after
      have marked := relabeled.trans (Relabeled.last keeps lastStored new)
      rw [front, List.singleton_inj.mp final] at marked
      convert marked using 3
      exact if_pos marks
    · apply ensures_link
      apply after
      convert relabeled using 3
      exact if_neg marks

end Net.Edit

end ProcessNets
