import ProcessNets.Proofs.Net.Changes

/-!
# Orderings of edges

The edges of a node are tried by increasing ordering. `Orderly` says that the orderings count from
1 without a gap, and `DefaultLast` that the default edge is tried last, but for edges to nodes of a
given kind. Whatever an action does to the edges of a node keeps both.
-/

namespace ProcessNets.Net

variable {e : Edge} {xs ys : List Edge} {k : Int} {n : Nat} {guarded : Bool} {g : Edge → Edge}

/-! ### Counted edges -/

/-- The numbers from 1 on. -/
def ordinals (n : Nat) : List Int :=
  (List.range n).map fun i : Nat => (i : Int) + 1

theorem mem_ordinals : k ∈ ordinals n ↔ 1 ≤ k ∧ k ≤ n := by
  unfold ordinals
  rw [List.mem_map]
  constructor
  · rintro ⟨i, hi, rfl⟩
    have := List.mem_range.mp hi
    omega
  · rintro ⟨low, high⟩
    exact ⟨(k - 1).toNat, List.mem_range.mpr (by omega), by omega⟩

theorem nodup_ordinals : (ordinals n).Nodup := by
  apply List.Nodup.map _ List.nodup_range
  intro i j same
  simpa using same

theorem ordinals_add {m : Nat} :
    ordinals (m + n) = ordinals m ++ (List.range n).map fun i : Nat => (m : Int) + 1 + i := by
  unfold ordinals
  rw [List.range_add, List.map_append, List.map_map]
  congr 1
  apply List.map_congr_left
  intro i _
  simp only [Function.comp, Nat.cast_add]
  omega

theorem ordinals_succ_eq_cons :
    ordinals (n + 1) = 1 :: (List.range n).map fun i : Nat => 2 + (i : Int) := by
  unfold ordinals
  rw [List.range_succ_eq_map, List.map_cons, List.map_map]
  congr 1
  apply List.map_congr_left
  intro i _
  simp only [Function.comp, Nat.cast_succ]
  omega

/-- The orderings of the edges count from 1. -/
def Orderly (xs : List Edge) : Prop :=
  (xs.map (·.ordering)).Perm (ordinals xs.length)

namespace Orderly

theorem nil : Orderly [] :=
  .refl _

theorem of_map (h : xs.map (·.ordering) = ordinals n) : Orderly xs := by
  have length := congrArg List.length h
  unfold ordinals at length
  rw [List.length_map, List.length_map, List.length_range] at length
  unfold Orderly
  rw [h, length]

theorem perm (h : Orderly xs) (same : ys.Perm xs) : Orderly ys := by
  unfold Orderly at h ⊢
  rw [same.length_eq]
  exact (same.map _).trans h

theorem nodup (h : Orderly xs) : (xs.map (·.ordering)).Nodup :=
  List.Perm.nodup_iff h |>.mpr nodup_ordinals

theorem map (h : Orderly xs) (same : ∀ x, (g x).ordering = x.ordering) : Orderly (xs.map g) := by
  unfold Orderly at h ⊢
  rw [List.map_map, List.length_map]
  exact (List.Perm.of_eq (List.map_congr_left fun x _ => same x)).trans h

theorem singleton (first : e.ordering = 1) : Orderly [e] := by
  apply of_map (n := 1)
  rw [List.map_singleton, first]
  rfl

/-- One edge comes behind all others. -/
theorem next (h : Orderly xs) (next : IsNext k xs) (last : e.ordering = k) :
    Orderly (xs ++ [e]) := by
  have bounds : ∀ x ∈ xs, 1 ≤ x.ordering ∧ x.ordering ≤ xs.length := fun x hx =>
    mem_ordinals.mp (List.Perm.mem_iff h |>.mp (List.mem_map_of_mem hx))
  have count : k = xs.length + 1 := by
    rcases next with ⟨rfl, rfl⟩ | ⟨below, x, hx, rfl⟩
    · rfl
    · obtain ⟨low, high⟩ := bounds x hx
      have top : (xs.length : Int) ∈ xs.map (·.ordering) :=
        List.Perm.mem_iff h |>.mpr (mem_ordinals.mpr ⟨by omega, by omega⟩)
      obtain ⟨y, hy, same⟩ := List.mem_map.mp top
      have := below y hy
      omega
  unfold Orderly at h ⊢
  have more : ordinals (xs.length + 1) = ordinals xs.length ++ [k] := by
    rw [ordinals_add, count]
    simp
  rw [List.map_append, List.length_append, List.length_singleton, List.map_singleton, last, more]
  exact h.append_right _

/-- One edge comes in front, and the others follow it. -/
theorem first (first : e.ordering = 1) : Orderly (e :: behindFirst guarded ys) := by
  apply of_map (n := ys.length + 1)
  rw [List.map_cons, first, ordering_behindFirst, ordinals_succ_eq_cons]

end Orderly

/-! ### The default edge -/

/-- No more than one edge is a default edge. It has no predicate, and the edges behind it lead to
`late` nodes. -/
structure DefaultLast (late : NodeId → Prop) (xs : List Edge) : Prop where
  one : xs.countP (·.isDefault) ≤ 1
  plain : ∀ x ∈ xs, x.isDefault = true → x.predicate = ""
  last : ∀ x ∈ xs, x.isDefault = true → ∀ y ∈ xs, x.ordering < y.ordering →
    ∃ m, y.target = some m ∧ late m

/-- If the first edge is a default edge, the second one leads to a `late` node. -/
def LateBehind (late : NodeId → Prop) (x y : Edge) : Prop :=
  x.isDefault = true → ∃ m, y.target = some m ∧ late m

namespace DefaultLast

variable {late late' : NodeId → Prop}

theorem of_none (none : ∀ x ∈ xs, x.isDefault = false) : DefaultLast late xs where
  one := by
    rw [List.countP_eq_zero.mpr fun x hx => by simp [none x hx]]
    exact Nat.zero_le 1
  plain x hx isDefault := by
    rw [none x hx] at isDefault
    cases isDefault
  last x hx isDefault := by
    rw [none x hx] at isDefault
    cases isDefault

theorem perm (h : DefaultLast late xs) (same : ys.Perm xs) : DefaultLast late ys where
  one := by
    rw [same.countP_eq]
    exact h.one
  plain x hx := h.plain x (same.subset hx)
  last x hx isDefault y hy := h.last x (same.subset hx) isDefault y (same.subset hy)

theorem mono (h : DefaultLast late xs)
    (more : ∀ x ∈ xs, ∀ m, x.target = some m → late m → late' m) : DefaultLast late' xs where
  one := h.one
  plain := h.plain
  last x hx isDefault y hy above := by
    obtain ⟨m, target, isLate⟩ := h.last x hx isDefault y hy above
    exact ⟨m, target, more y hy m target isLate⟩

/-- Edges that lead to `late` nodes go on to lead there. -/
theorem map (h : DefaultLast late xs) (order : ∀ x, (g x).ordering = x.ordering)
    (flag : ∀ x, (g x).isDefault = x.isDefault) (predicate : ∀ x, (g x).predicate = x.predicate)
    (target : ∀ x m, x.target = some m → late m → (g x).target = some m) :
    DefaultLast late (xs.map g) where
  one := by
    have same : (fun x : Edge => x.isDefault) ∘ g = (·.isDefault) := funext flag
    rw [List.countP_map, same]
    exact h.one
  plain := by
    intro y hy isDefault
    obtain ⟨x, hx, rfl⟩ := List.mem_map.mp hy
    rw [predicate]
    exact h.plain x hx (flag x ▸ isDefault)
  last := by
    intro w hw isDefault z hz above
    obtain ⟨x, hx, rfl⟩ := List.mem_map.mp hw
    obtain ⟨y, hy, rfl⟩ := List.mem_map.mp hz
    rw [order, order] at above
    obtain ⟨m, isTarget, isLate⟩ := h.last x hx (flag x ▸ isDefault) y hy above
    exact ⟨m, target y m isTarget isLate, isLate⟩

/-- One more edge that is no default edge: it leads to a `late` node, or is not behind the default
edge. -/
theorem concat (h : DefaultLast late xs) (plain : e.isDefault = false)
    (behind : ∀ x ∈ xs, x.isDefault = true → x.ordering < e.ordering →
      ∃ m, e.target = some m ∧ late m) : DefaultLast late (xs ++ [e]) where
  one := by
    rw [List.countP_append, List.countP_singleton, plain]
    exact h.one
  plain x hx isDefault := by
    rw [List.mem_append, List.mem_singleton] at hx
    rcases hx with hx | rfl
    · exact h.plain x hx isDefault
    · rw [plain] at isDefault
      cases isDefault
  last x hx isDefault y hy above := by
    rw [List.mem_append, List.mem_singleton] at hx hy
    rcases hx with hx | rfl
    · rcases hy with hy | rfl
      · exact h.last x hx isDefault y hy above
      · exact behind x hx isDefault above
    · rw [plain] at isDefault
      cases isDefault

/-- A default edge that comes last. -/
theorem concat_default (none : ∀ x ∈ xs, x.isDefault = false) (plain : e.predicate = "")
    (top : ∀ x ∈ xs, x.ordering ≤ e.ordering) : DefaultLast late (xs ++ [e]) where
  one := by
    rw [List.countP_append, List.countP_eq_zero.mpr fun x hx => by simp [none x hx], Nat.zero_add]
    exact List.countP_le_length
  plain x hx isDefault := by
    rw [List.mem_append, List.mem_singleton] at hx
    rcases hx with hx | rfl
    · rw [none x hx] at isDefault
      cases isDefault
    · exact plain
  last x hx isDefault y hy above := by
    rw [List.mem_append, List.mem_singleton] at hx hy
    rcases hx with hx | rfl
    · rw [none x hx] at isDefault
      cases isDefault
    · rcases hy with hy | rfl
      · have := top y hy
        omega
      · omega

/-! ### Sorted edges -/

/-- In sorted edges, it is enough to look at the edges that follow the default edge. -/
theorem of_sorted (strict : xs.Pairwise fun x y => x.ordering < y.ordering)
    (one : xs.countP (·.isDefault) ≤ 1)
    (plain : ∀ x ∈ xs, x.isDefault = true → x.predicate = "")
    (pairs : xs.Pairwise (LateBehind late)) : DefaultLast late xs where
  one := one
  plain := plain
  last x hx isDefault y hy above := by
    obtain ⟨i, hi, rfl⟩ := List.getElem_of_mem hx
    obtain ⟨j, hj, rfl⟩ := List.getElem_of_mem hy
    rcases Nat.lt_trichotomy i j with before | rfl | after
    · exact List.pairwise_iff_getElem.mp pairs i j hi hj before isDefault
    · omega
    · have := List.pairwise_iff_getElem.mp strict j i hj hi after
      omega

theorem pairs (h : DefaultLast late xs) (distinct : (xs.map (·.ordering)).Nodup)
    (sorted : xs.Pairwise fun x y => x.ordering ≤ y.ordering) : xs.Pairwise (LateBehind late) := by
  refine (sorted.and (List.pairwise_map.mp distinct)).imp_of_mem ?_
  rintro x y hx hy ⟨le, ne⟩ isDefault
  exact h.last x hx isDefault y hy (by omega)

end DefaultLast

/-! ### The default edge behind a new first edge -/

/-- Only the last of the other edges may become the default edge. -/
theorem behindFirst_concat (guards : guarded = true → ∀ x ∈ xs, x.predicate ≠ "") :
    behindFirst guarded (xs ++ [e]) = numberedFrom 2 xs ++ [{ e with
      ordering := 2 + xs.length
      isDefault := e.isDefault ||
        ((guarded || !xs.any (·.isDefault)) && e.predicate.isEmpty) }] := by
  have front : guarded = true → (numberedFrom 2 xs).map Edge.flag = numberedFrom 2 xs := by
    intro isGuarded
    refine (List.map_congr_left fun y hy => ?_).trans (List.map_id _)
    have carried := List.mem_map_of_mem (f := (·.predicate)) hy
    rw [map_numberedFrom fun _ _ => rfl] at carried
    obtain ⟨x, hx, same⟩ := List.mem_map.mp carried
    unfold Edge.flag
    rw [if_neg]
    · rfl
    · rw [String.isEmpty_iff, ← same]
      exact guards isGuarded x hx
  obtain ⟨source, target, isDefault, predicate, ordering⟩ := e
  unfold behindFirst
  rw [numberedFrom_concat, markLast_concat, List.any_append, any_numberedFrom]
  cases guarded with
  | false =>
    cases isDefault <;> cases xs.any (·.isDefault) <;> cases predicate.isEmpty <;> simp
  | true =>
    rw [if_pos rfl, List.map_append, front rfl]
    cases isDefault <;> cases xs.any (·.isDefault) <;> cases h : predicate.isEmpty <;>
      simp [Edge.flag, h]

theorem pairwise_numberedFrom {late : NodeId → Prop} (h : xs.Pairwise (LateBehind late)) :
    (numberedFrom k xs).Pairwise (LateBehind late) := by
  let late? (x y : Bool × Option NodeId) : Prop := x.1 = true → ∃ m, y.2 = some m ∧ late m
  have pairs : ((numberedFrom k xs).map fun x => (x.isDefault, x.target)).Pairwise late? := by
    rw [map_numberedFrom fun _ _ => rfl, List.pairwise_map]
    exact h
  exact (List.pairwise_map (R := late?)).mp pairs

theorem countP_numberedFrom :
    (numberedFrom k xs).countP (·.isDefault) = xs.countP (·.isDefault) := by
  have same : ((numberedFrom k xs).map (·.isDefault)).countP id =
      (xs.map (·.isDefault)).countP id := by
    rw [map_numberedFrom fun _ _ => rfl]
  rwa [List.countP_map, List.countP_map] at same

theorem plain_numberedFrom (h : ∀ x ∈ xs, x.isDefault = true → x.predicate = "") :
    ∀ y ∈ numberedFrom k xs, y.isDefault = true → y.predicate = "" := by
  intro y hy isDefault
  have carried := List.mem_map_of_mem (f := fun y => (y.isDefault, y.predicate)) hy
  rw [map_numberedFrom fun _ _ => rfl] at carried
  obtain ⟨x, hx, same⟩ := List.mem_map.mp carried
  obtain ⟨flags, predicates⟩ := Prod.mk.inj same
  rw [← predicates]
  exact h x hx (flags.trans isDefault)

/-- The last edge is or becomes the default edge only if no other edge is one. -/
theorem DefaultLast.marked {late : NodeId → Prop} (h : DefaultLast late (xs ++ [e]))
    (guards : guarded = true → ∀ x ∈ xs, x.predicate ≠ "")
    (isDefault : (e.isDefault || ((guarded || !xs.any (·.isDefault)) && e.predicate.isEmpty)) =
      true) : xs.countP (·.isDefault) = 0 ∧ e.predicate = "" := by
  rw [Bool.or_eq_true, Bool.and_eq_true, Bool.or_eq_true, String.isEmpty_iff] at isDefault
  rcases isDefault with old | ⟨isGuarded | none, empty⟩
  · have one := h.one
    rw [List.countP_append, List.countP_singleton, if_pos old] at one
    exact ⟨by omega, h.plain e (List.mem_append_right _ (List.mem_singleton_self e)) old⟩
  · refine ⟨List.countP_eq_zero.mpr fun x hx flagged => ?_, empty⟩
    exact guards isGuarded x hx (h.plain x (List.mem_append_left _ hx) flagged)
  · exact ⟨List.countP_eq_zero.mpr (by simpa using none), empty⟩

/-- A first edge leaves the default edge the last one, or makes the last edge the default edge. -/
theorem DefaultLast.behindFirst {late : NodeId → Prop} (h : DefaultLast late xs)
    (distinct : (xs.map (·.ordering)).Nodup)
    (sorted : xs.Pairwise fun x y => x.ordering ≤ y.ordering)
    (guards : guarded = true → ∀ x ∈ xs.dropLast, x.predicate ≠ "") (first : e.ordering = 1)
    (plain : e.isDefault = false) : DefaultLast late (e :: behindFirst guarded xs) := by
  have strict : (e :: Net.behindFirst guarded xs).Pairwise fun x y => x.ordering < y.ordering :=
    strict_behindFirst first
  rcases List.eq_nil_or_concat xs with rfl | ⟨init, x, rfl⟩
  · have empty : Net.behindFirst guarded [] = [] := by cases guarded <;> rfl
    rw [empty]
    exact .of_none (by simpa using plain)
  rw [List.concat_eq_append] at *
  rw [List.dropLast_concat] at guards
  have pairs := pairwise_numberedFrom (k := 2) (h.pairs distinct sorted)
  rw [numberedFrom_concat, List.pairwise_append] at pairs
  rw [behindFirst_concat guards] at strict ⊢
  have one := h.one
  rw [List.countP_append, List.countP_singleton] at one
  have marked := h.marked guards
  generalize (x.isDefault || ((guarded || !init.any (·.isDefault)) && x.predicate.isEmpty)) = flag
    at strict marked ⊢
  apply of_sorted strict
  · rw [List.countP_cons_of_neg (by simp [plain]), List.countP_append, countP_numberedFrom,
      List.countP_singleton]
    dsimp only
    split
    · rename_i isDefault
      rw [(marked isDefault).1]
    · omega
  · intro y hy isDefault
    rw [List.mem_cons, List.mem_append, List.mem_singleton] at hy
    rcases hy with rfl | hy | rfl
    · rw [plain] at isDefault
      cases isDefault
    · exact plain_numberedFrom (fun z hz => h.plain z (List.mem_append_left _ hz)) y hy isDefault
    · exact (marked isDefault).2
  · refine List.pairwise_cons.mpr ⟨fun y _ isDefault => ?_, List.pairwise_append.mpr ?_⟩
    · rw [plain] at isDefault
      cases isDefault
    · refine ⟨pairs.1, List.pairwise_singleton .., fun y hy z hz => ?_⟩
      rw [List.mem_singleton] at hz
      subst hz
      have before := pairs.2.2 y hy _ (List.mem_singleton_self _)
      exact before

end ProcessNets.Net

namespace ProcessNets.Specification

open Net

variable {s t : Specification} {d : DecompositionId} {act : Action} {n m : NodeId}
  {hidden loose old : NodeId → Prop}

/-! ### What actions keep -/

/-- An action keeps the orderings at all nodes but `hidden` ones, if it is for none of these. -/
theorem Change.orderly (h : Change d s t act) (shown : ∀ z ∈ act.actor?, ¬hidden z)
    (orderly : ∀ n ∈ (s.decomposition d).nodes, ¬hidden n → Orderly (s.outgoing n))
    (hn : n ∈ (t.decomposition d).nodes) (visible : ¬hidden n) : Orderly (t.outgoing n) := by
  cases h.edgesAfter hn with
  | kept hn perm => exact (orderly n hn visible).perm perm
  | taken x hx _ perm =>
    exact ((orderly x hx (shown x rfl)).map (g := (·.move .source n)) fun _ => rfl).perm perm
  | retargeted x m hn _ perm =>
    exact ((orderly n hn visible).map (g := (·.retarget x m)) (·.ordering_retarget x m)).perm perm
  | bare _ perm => exact Orderly.nil.perm perm
  | single b _ _ perm => exact (Orderly.singleton rfl).perm perm
  | first target predicate guarded others hn same sorted guards perm =>
    exact (Orderly.first rfl).perm perm
  | started m k hn runs next perm => exact ((orderly n hn visible).next next rfl).perm perm

/-- The node was added after the `old` ones, and has a timer that runs from when it executes. -/
def LateTimer (s : Specification) (old : NodeId → Prop) (n : NodeId) : Prop :=
  s.RunsOnExecuting n ∧ ¬old n

theorem Change.lateTimer (h : Change d s t act) (hm : m ∈ (s.decomposition d).nodes)
    (late : s.LateTimer old m) : t.LateTimer old m := by
  obtain ⟨_, _, evolved⟩ := h.evolved
  refine ⟨?_, late.2⟩
  unfold RunsOnExecuting
  rw [evolved.timer m hm]
  exact late.1

/-- Edges are in order at all nodes, but `hidden` ones are not numbered, and `loose` ones may have
default edges anywhere. -/
structure InOrder (d : DecompositionId) (old hidden loose : NodeId → Prop) (s : Specification) :
    Prop where
  orderly : ∀ n ∈ (s.decomposition d).nodes, ¬hidden n → Orderly (s.outgoing n)
  defaultLast : ∀ n ∈ (s.decomposition d).nodes, ¬loose n →
    DefaultLast (s.LateTimer old) (s.outgoing n)

/-- An action for an old node keeps the default edge the last one but for edges to late timers. -/
theorem Change.defaultLast (h : Change d s t act) (wf : s.WellFormed)
    (shown : ∀ z ∈ act.actor?, old z ∧ ¬hidden z ∧ ¬loose z) (new : ∀ z ∈ act.started?, ¬old z)
    (inOrder : InOrder d old hidden loose s) (hn : n ∈ (t.decomposition d).nodes)
    (visible : ¬loose n) : DefaultLast (t.LateTimer old) (t.outgoing n) := by
  have carried : ∀ {n}, n ∈ (s.decomposition d).nodes → ¬loose n →
      DefaultLast (t.LateTimer old) (s.outgoing n) := by
    intro n hn visible
    refine (inOrder.defaultLast n hn visible).mono fun e he m target late => ?_
    obtain ⟨_, k, hk, there⟩ := ends_of_outgoing wf hn he
    cases there.symm.trans target
    exact h.lateTimer hk late
  have alone : ∀ b, DefaultLast (t.LateTimer old) [.plain n b 1] := fun b =>
    .of_none fun e he => by rw [List.mem_singleton.mp he]; rfl
  cases h.edgesAfter hn with
  | kept hn perm => exact (carried hn visible).perm perm
  | taken x hx _ perm =>
    refine DefaultLast.perm ?_ perm
    exact (carried hx (shown x rfl).2.2).map (g := (·.move .source n)) (fun _ => rfl)
      (fun _ => rfl) (fun _ => rfl) fun _ _ target _ => target
  | retargeted x m hn _ perm =>
    refine DefaultLast.perm ?_ perm
    refine (carried hn visible).map (g := (·.retarget x m)) (·.ordering_retarget x m)
      (·.isDefault_retarget x m) (·.predicate_retarget x m) fun e z target late => ?_
    -- the old node is no late timer
    rw [Edge.target_retarget, if_neg]
    · exact target
    · intro same
      cases target.symm.trans same
      exact late.2 (shown x rfl).1
  | bare _ perm => exact DefaultLast.perm (.of_none (by simp)) perm
  | single b _ _ perm => exact (alone b).perm perm
  | first target predicate guarded others hn same sorted guards perm =>
    have distinct : (others.map (·.ordering)).Nodup :=
      ((inOrder.orderly n hn (shown n rfl).2.1).perm same).nodup
    refine DefaultLast.perm ?_ perm
    exact ((carried hn visible).perm same).behindFirst distinct sorted guards rfl rfl
  | started m k hn runs next perm =>
    refine DefaultLast.perm ?_ perm
    exact (carried hn visible).concat rfl fun _ _ _ _ => ⟨m, rfl, runs, new m rfl⟩

section
variable {allowed : Action → Prop} (h : Changes d allowed s t) (wf : s.WellFormed)
include h wf

theorem Changes.orderly (shown : ∀ a, allowed a → ∀ z ∈ a.actor?, ¬hidden z)
    (orderly : ∀ n ∈ (s.decomposition d).nodes, ¬hidden n → Orderly (s.outgoing n)) :
    ∀ n ∈ (t.decomposition d).nodes, ¬hidden n → Orderly (t.outgoing n) := by
  refine h.keep wf
    (P := fun t => ∀ n ∈ (t.decomposition d).nodes, ¬hidden n → Orderly (t.outgoing n))
    (fun _ change kept n => ?_) (fun isAllowed _ change kept n => ?_) orderly
  · exact change.orderly (by simp [Action.actor?]) kept
  · exact change.orderly (shown _ isAllowed) kept

theorem Changes.inOrder (shown : ∀ a, allowed a → ∀ z ∈ a.actor?, old z ∧ ¬hidden z ∧ ¬loose z)
    (new : ∀ a, allowed a → ∀ z ∈ a.started?, ¬old z) (inOrder : InOrder d old hidden loose s) :
    InOrder d old hidden loose t := by
  refine h.keep wf (fun wf change kept => ?_) (fun isAllowed wf change kept => ?_) inOrder
  · have shown : ∀ z ∈ Action.idle.actor?, old z ∧ ¬hidden z ∧ ¬loose z := by simp [Action.actor?]
    exact ⟨fun n => change.orderly (fun z actor => (shown z actor).2.1) kept.orderly,
      fun n => change.defaultLast wf shown (by simp [Action.started?]) kept⟩
  · have shown := shown _ isAllowed
    exact ⟨fun n => change.orderly (fun z actor => (shown z actor).2.1) kept.orderly,
      fun n => change.defaultLast wf shown (new _ isAllowed) kept⟩

end

end ProcessNets.Specification
