import ProcessNets.Proofs.Net.Following

/-!
# Edges from nodes to themselves

A task that repeats has a first edge to itself, and no other edge with ordering 1. It keeps that
edge while actions are for other tasks. A node that does not lead to itself comes to do so only by
a new edge between just these ends.
-/

namespace ProcessNets.Specification

open Net

variable {s t : Specification} {d : DecompositionId} {act : Action} {x : NodeId}
  {predicate : String}

/-! ### First edges back -/

/-- The node has an edge to itself under the predicate, the only one with ordering 1. -/
def RepeatsFirst (s : Specification) (x : NodeId) (predicate : String) : Prop :=
  ∃ rest, (s.outgoing x).Perm ({ Edge.plain x x 1 with predicate } :: rest) ∧
    ∀ e ∈ rest, e.ordering ≠ 1

theorem RepeatsFirst.of_perm (h : RepeatsFirst s x predicate)
    (perm : (t.outgoing x).Perm (s.outgoing x)) : RepeatsFirst t x predicate := by
  obtain ⟨rest, listed, others⟩ := h
  exact ⟨rest, perm.trans listed, others⟩

theorem RepeatsFirst.filter (h : RepeatsFirst s x predicate) :
    (s.outgoing x).filter (fun e => e.ordering = 1) = [{ Edge.plain x x 1 with predicate }] := by
  obtain ⟨rest, listed, others⟩ := h
  have none : rest.filter (fun e => e.ordering = 1) = [] := by
    rw [List.filter_eq_nil_iff]
    intro e he first
    exact others e he (of_decide_eq_true first)
  have filtered := listed.filter fun e => decide (e.ordering = 1)
  rw [List.filter_cons_of_pos rfl, none] at filtered
  exact List.perm_singleton.mp filtered

/-- The edges behind a new first edge have other orderings. -/
theorem ordering_ne_one {guarded : Bool} {xs : List Edge} {e : Edge}
    (he : e ∈ behindFirst guarded xs) : e.ordering ≠ 1 := by
  have listed := List.mem_map_of_mem (f := (·.ordering)) he
  rw [ordering_behindFirst] at listed
  obtain ⟨i, _, same⟩ := List.mem_map.mp listed
  omega

/-- An edge to itself is put in front of the other edges of a node. -/
theorem Relabeled.repeatsFirst (predicate : String) (wf : s.WellFormed)
    (hx : x ∈ (s.decomposition d).nodes)
    (relabeled : Relabeled (Edit.byOrdering s (s.node x).outgoing)
      (markLast (numberedFrom 2 ((Edit.byOrdering s (s.node x).outgoing).map s.edge))) s t) :
    RepeatsFirst (t.addEdge d { Edge.plain x x 1 with predicate } x x) x predicate := by
  obtain ⟨_, _, perm, joined⟩ := relabeled.outgoing_first predicate wf hx hx
  refine ⟨behindFirst false ((Edit.byOrdering s (s.node x).outgoing).map s.edge), ?_,
    fun e => ordering_ne_one⟩
  rw [joined]
  exact (List.perm_append_singleton ..).trans (perm.cons _)

/-- An action for another task keeps the edge in front. -/
theorem Change.repeatsFirst (h : Change d s t act) (hx : x ∈ (s.decomposition d).nodes)
    (others : ∀ z ∈ act.actor?, z ≠ x) (repeats : RepeatsFirst s x predicate) :
    RepeatsFirst t x predicate := by
  obtain ⟨_, _, evolved⟩ := h.evolved
  obtain ⟨rest, listed, behind⟩ := repeats
  cases h.edgesAfter (evolved.mem hx) with
  | kept _ perm => exact ⟨rest, perm.trans listed, behind⟩
  | taken _ _ new => exact (new hx).elim
  | retargeted a m _ _ perm =>
    refine ⟨rest.map (·.retarget a m), perm.trans ((listed.map _).trans (.of_eq ?_)), ?_⟩
    · rw [List.map_cons]
      congr 1
      unfold Edge.retarget
      exact if_neg fun same => others a rfl (Option.some.inj same).symm
    · intro e he
      obtain ⟨f, hf, rfl⟩ := List.mem_map.mp he
      rw [Edge.ordering_retarget]
      exact behind f hf
  | bare new => exact (new hx).elim
  | single _ own =>
    rcases own with new | actor
    · exact (new hx).elim
    · exact (others x actor rfl).elim
  | first => exact (others x rfl rfl).elim
  | started m k _ _ next perm =>
    refine ⟨rest ++ [.plain x m k], perm.trans (listed.append_right _), fun e he => ?_⟩
    rcases List.mem_append.mp he with before | last
    · exact behind e before
    · have back : { Edge.plain x x 1 with predicate } ∈ s.outgoing x :=
        listed.mem_iff.mpr List.mem_cons_self
      -- the edge to itself has an ordering below that of the new one
      rcases next with ⟨none, _⟩ | ⟨below, _⟩
      · rw [none] at back
        cases back
      · have least : 1 < k := below _ back
        rw [List.mem_singleton.mp last]
        exact Int.ne_of_gt least

theorem Changes.repeatsFirst {allowed : Action → Prop} (h : Changes d allowed s t)
    (wf : s.WellFormed) (hx : x ∈ (s.decomposition d).nodes)
    (others : ∀ a, allowed a → ∀ z ∈ a.actor?, z ≠ x) (repeats : RepeatsFirst s x predicate) :
    RepeatsFirst t x predicate := by
  have step : ∀ {t u : Specification} {a}, (∀ z ∈ a.actor?, z ≠ x) → Change d t u a →
      x ∈ (t.decomposition d).nodes ∧ RepeatsFirst t x predicate →
      x ∈ (u.decomposition d).nodes ∧ RepeatsFirst u x predicate := by
    rintro t u a others change ⟨hx, repeats⟩
    obtain ⟨_, _, evolved⟩ := change.evolved
    exact ⟨evolved.mem hx, change.repeatsFirst hx others repeats⟩
  exact (h.keep wf (P := fun t => x ∈ (t.decomposition d).nodes ∧ RepeatsFirst t x predicate)
    (fun _ => step (by simp [Action.actor?])) (fun isAllowed _ => step (others _ isAllowed))
    ⟨hx, repeats⟩).2

/-! ### No edges back -/

/-- An action that does not lead the node to itself. -/
structure Straight (x : NodeId) (act : Action) : Prop where
  first : act.first? ≠ some (x, x)
  started : act.started? ≠ some x

theorem Change.straight (h : Change d s t act) (wf : s.WellFormed)
    (hx : x ∈ (s.decomposition d).nodes) (straight : Straight x act) (none : ¬Joins s d x x) :
    ¬Joins t d x x := by
  have wft := h.wellFormed
  intro step
  rw [joins_iff_target wft] at step
  obtain ⟨_, target⟩ := step
  have bare : some x ∉ (s.outgoing x).map (·.target) := fun listed =>
    none ((joins_iff_target wf).mpr ⟨hx, listed⟩)
  -- an action that leaves the edges of `x` alone gives it no way back
  have same : ∀ {free}, SameOutgoing d free s t → ¬free x → False := by
    intro free same other
    rw [((same x hx other).map _).mem_iff] at target
    exact bare target
  cases h with
  | idle _ kept => exact same kept not_false
  | exclusive _ _ kept => exact same kept not_false
  | parallel _ _ kept => exact same kept not_false
  | behind y m _ evolved kept _ joined =>
    by_cases here : x = y
    · subst here
      rw [(joined.map _).mem_iff] at target
      cases List.mem_singleton.mp target
      exact evolved.fresh x (List.mem_singleton_self x) hx
    · exact same kept here
  | before y m _ evolved moved =>
    rw [((moved x hx).map _).mem_iff, List.map_map] at target
    obtain ⟨e, he, there⟩ := List.mem_map.mp target
    rw [Function.comp_apply, Edge.target_retarget] at there
    split at there
    · cases there
      exact evolved.fresh x (List.mem_singleton_self x) hx
    · exact bare (List.mem_map.mpr ⟨e, he, there⟩)
  | timer _ _ _ kept => exact same kept not_false
  | first y aim predicate guarded others _ _ kept perm _ _ joined =>
    by_cases here : x = y
    · subst here
      have ends : aim ≠ x := by
        rintro rfl
        exact straight.first rfl
      rw [(joined.map _).mem_iff, List.map_cons,
        map_behindFirst (fun _ _ => rfl) fun _ _ => rfl, List.mem_cons] at target
      rcases target with back | before
      · exact ends (Option.some.inj back).symm
      · exact bare ((perm.map _).mem_iff.mp before)
    · exact same kept here
  | start y m k _ _ kept _ _ joined =>
    by_cases here : x = y
    · subst here
      rw [(joined.map _).mem_iff, List.map_append, List.mem_append] at target
      rcases target with before | back
      · exact bare before
      · cases List.mem_singleton.mp back
        exact straight.started rfl
    · exact same kept here

/-- A node that leads to itself did so before, or was made to. -/
theorem Changes.straight {allowed : Action → Prop} (h : Changes d allowed s t) (wf : s.WellFormed)
    (hx : x ∈ (s.decomposition d).nodes) (straight : ∀ a, allowed a → Straight x a)
    (none : ¬Joins s d x x) : ¬Joins t d x x := by
  have step : ∀ {t u : Specification} {a}, Straight x a → t.WellFormed → Change d t u a →
      x ∈ (t.decomposition d).nodes ∧ ¬Joins t d x x →
      x ∈ (u.decomposition d).nodes ∧ ¬Joins u d x x := by
    rintro t u a straight wf change ⟨hx, none⟩
    obtain ⟨_, _, evolved⟩ := change.evolved
    exact ⟨evolved.mem hx, change.straight wf hx straight none⟩
  exact (h.keep wf (P := fun t => x ∈ (t.decomposition d).nodes ∧ ¬Joins t d x x)
    (step ⟨nofun, nofun⟩) (fun isAllowed => step (straight _ isAllowed)) ⟨hx, none⟩).2

end ProcessNets.Specification
