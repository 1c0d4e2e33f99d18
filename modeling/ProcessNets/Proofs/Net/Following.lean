import ProcessNets.Proofs.Net.Changes

/-!
# Nodes that follow others

One node follows another one if whatever leads to the other one leads to it too. It does so until
an action gives the other one a new edge, or takes the incoming edges from one of both. With a self
loop and a new task in front of it, the other one is still entered together with the first one.
-/

namespace ProcessNets.Specification

open Net

variable {s t u base : Specification} {d : DecompositionId} {act : Action} {m x y z : NodeId}

/-- Whatever leads to `x` leads to `y`. -/
def Follows (s : Specification) (d : DecompositionId) (x y : NodeId) : Prop :=
  ∀ z, Joins s d z x → Joins s d z y

/-! ### Single actions -/

/-- An action that takes the incoming edges from neither node and leads nothing to the first. -/
structure Spares (x y : NodeId) (act : Action) : Prop where
  entered : ∀ z ∈ act.entered?, z ≠ x ∧ z ≠ y
  target : ∀ z ∈ act.target?, z ≠ x

theorem Spares.idle : Spares x y .idle := by
  constructor <;> rintro z ⟨⟩

theorem Spares.behind : Spares x y (.behind z m) := by
  constructor <;> rintro w ⟨⟩

section
variable (h : Change d s t act) (wf : s.WellFormed) (hx : x ∈ (s.decomposition d).nodes)
  (spares : Spares x y act)
include h wf hx spares

/-- What leads to the first node did so before, or took edges over from what did. If that led to
the second node as well, so does this. -/
theorem Change.origin (step : Joins t d z x) : ∃ a, (a = z ∨ a ∈ act.left?) ∧ Joins s d a x ∧
    (Joins s d a y → Joins t d z y) := by
  have wft := h.wellFormed
  rw [joins_iff_target wft] at step
  obtain ⟨hz, target⟩ := step
  have old : ∀ {a b}, Joins s d a b ↔ _ := joins_iff_target wf
  have leads : some y ∈ (t.outgoing z).map (·.target) → Joins t d z y :=
    fun listed => (joins_iff_target wft).mpr ⟨hz, listed⟩
  -- what leads to `x` is read off the edges of the node that it comes from
  cases h.edgesAfter hz with
  | kept hn perm =>
    rw [(perm.map _).mem_iff] at target leads
    exact ⟨z, .inl rfl, old.mpr ⟨hn, target⟩, fun before => leads (old.mp before).2⟩
  | taken a ha _ perm =>
    rw [(perm.map _).mem_iff, List.map_map] at target leads
    exact ⟨a, .inr rfl, old.mpr ⟨ha, target⟩, fun before => leads (old.mp before).2⟩
  | retargeted a m hn new perm =>
    rw [(perm.map _).mem_iff, List.map_map] at target
    refine ⟨z, .inl rfl, old.mpr ⟨hn, ?_⟩, fun before => leads ?_⟩
    · obtain ⟨e, he, same⟩ := List.mem_map.mp target
      rw [Function.comp_apply, Edge.target_retarget] at same
      split at same
      · cases same
        exact (new hx).elim
      · exact List.mem_map.mpr ⟨e, he, same⟩
    · obtain ⟨e, he, there⟩ := List.mem_map.mp (old.mp before).2
      rw [(perm.map _).mem_iff, List.map_map]
      refine List.mem_map.mpr ⟨e, he, ?_⟩
      rw [Function.comp_apply, Edge.target_retarget, if_neg]
      · exact there
      · intro moved
        exact (spares.entered a rfl).2 (Option.some.inj (moved.symm.trans there))
  | bare _ perm =>
    rw [(perm.map _).mem_iff] at target
    cases target
  | single b _ leads perm =>
    rw [(perm.map _).mem_iff] at target
    cases List.mem_singleton.mp target
    rcases leads with new | entered | aim
    · exact (new hx).elim
    · exact ((spares.entered x entered).1 rfl).elim
    · exact (spares.target x aim rfl).elim
  | first aim predicate guarded others hn same sorted guards perm =>
    have targets : ((t.outgoing z).map (·.target)).Perm
        (some aim :: (s.outgoing z).map (·.target)) := by
      refine (perm.map _).trans ?_
      rw [List.map_cons, map_behindFirst (fun _ _ => rfl) fun _ _ => rfl]
      exact (same.map _).cons _
    rw [targets.mem_iff, List.mem_cons] at target
    rcases target with new | before
    · cases new
      exact (spares.target x rfl rfl).elim
    · refine ⟨z, .inl rfl, old.mpr ⟨hn, before⟩, fun step => leads ?_⟩
      exact targets.mem_iff.mpr (List.mem_cons_of_mem _ (old.mp step).2)
  | started m k hn runs next perm =>
    rw [(perm.map _).mem_iff, List.map_append, List.mem_append] at target
    rcases target with before | new
    · refine ⟨z, .inl rfl, old.mpr ⟨hn, before⟩, fun step => leads ?_⟩
      rw [(perm.map _).mem_iff, List.map_append]
      exact List.mem_append_left _ (old.mp step).2
    · cases List.mem_singleton.mp new
      exact (spares.target x rfl rfl).elim

theorem Change.follows (follows : Follows s d x y) : Follows t d x y := by
  intro z step
  obtain ⟨a, _, before, after⟩ := h.origin wf hx spares step
  exact after (follows a before)

end

/-! ### Self loops -/

/-- Whatever leads to `x` leads to `y`, but for `x` itself and new nodes that `y` follows. -/
def Attends (base s : Specification) (d : DecompositionId) (x y : NodeId) : Prop :=
  ∀ z, Joins s d z x →
    Joins s d z y ∨ z = x ∨ z ∉ (base.decomposition d).nodes ∧ Follows s d z y

theorem Follows.attends (h : Follows s d x y) : Attends base s d x y :=
  fun z step => .inl (h z step)

/-- An action that is not about `x` and new nodes, and leaves the edges to `y` alone. -/
structure Avoids (base : Specification) (d : DecompositionId) (x y : NodeId) (act : Action) :
    Prop where
  left : ∀ z ∈ act.left?, z ≠ x ∧ z ∈ (base.decomposition d).nodes
  entered : ∀ z ∈ act.entered?, z ≠ x ∧ z ≠ y ∧ z ∈ (base.decomposition d).nodes
  target : ∀ z ∈ act.target?, z ≠ x ∧ z ∈ (base.decomposition d).nodes

/-- An action that is for other old nodes only. -/
theorem Avoids.of_others (others : ∀ z, z ∈ act.actor? ∨ z ∈ act.target? →
    z ≠ x ∧ z ≠ y ∧ z ∈ (base.decomposition d).nodes) : Avoids base d x y act where
  left z left := by
    obtain ⟨ne, _, old⟩ := others z (.inl (Action.actor_of_left left))
    exact ⟨ne, old⟩
  entered z entered := others z (.inl (Action.actor_of_entered entered))
  target z target := by
    obtain ⟨ne, _, old⟩ := others z (.inr target)
    exact ⟨ne, old⟩

theorem Avoids.idle : Avoids base d x y .idle := by
  constructor <;> rintro z ⟨⟩

theorem Avoids.exclusive : Avoids base d x y (.exclusive m) := by
  constructor <;> rintro z ⟨⟩

theorem Avoids.spares (h : Avoids base d x y act) : Spares x y act where
  entered z entered := ⟨(h.entered z entered).1, (h.entered z entered).2.1⟩
  target z target := (h.target z target).1

/-- Such an action takes no edges to new nodes either. -/
theorem Avoids.spares_new (h : Avoids base d x y act) (new : z ∉ (base.decomposition d).nodes) :
    Spares z y act where
  entered w entered := by
    obtain ⟨_, other, old⟩ := h.entered w entered
    exact ⟨fun same => new (same ▸ old), other⟩
  target w target same := new (same ▸ (h.target w target).2)

section
variable (wf : s.WellFormed) (old : (base.decomposition d).nodes ⊆ (s.decomposition d).nodes)
  (hx : x ∈ (base.decomposition d).nodes)
include wf old hx

theorem Change.attends (h : Change d s t act) (avoids : Avoids base d x y act)
    (attends : Attends base s d x y) : Attends base t d x y := by
  intro z step
  obtain ⟨a, origin, before, after⟩ := h.origin wf (old hx) avoids.spares step
  rcases attends a before with both | rfl | ⟨new, follows⟩
  · exact .inl (after both)
  · rcases origin with same | left
    · exact .inr (.inl same.symm)
    · exact ((avoids.left a left).1 rfl).elim
  · rcases origin with rfl | left
    · exact .inr (.inr ⟨new, h.follows wf (before.mem wf).1 (avoids.spares_new new) follows⟩)
    · exact (new (avoids.left a left).2).elim

/-- A new task is put in front of the node, and takes over what led to it. -/
theorem Change.attends_of_before (h : Change d s t (.before x m)) (ne : y ≠ x)
    (follows : Follows s d x y) : Attends base t d x y := by
  have wft := h.wellFormed
  cases h with
  | before _ _ _ evolved moved joined =>
  have new : m ∉ (s.decomposition d).nodes := evolved.fresh m (List.mem_singleton_self m)
  -- an edge of an old node leads to what it led to, or to the new task instead
  have was : ∀ {w b}, w ∈ (s.decomposition d).nodes → Joins t d w b →
      Joins s d w b ∧ b ≠ x ∨ Joins s d w x ∧ b = m := by
    intro w b hw step
    rw [joins_iff_target wft, ((moved w hw).map _).mem_iff, List.map_map] at step
    obtain ⟨e, he, there⟩ := List.mem_map.mp step.2
    rw [Function.comp_apply, Edge.target_retarget] at there
    split at there
    · rename_i led
      exact .inr ⟨(joins_iff_target wf).mpr ⟨hw, List.mem_map.mpr ⟨e, he, led⟩⟩,
        (Option.some.inj there).symm⟩
    · rename_i other
      refine .inl ⟨(joins_iff_target wf).mpr ⟨hw, List.mem_map.mpr ⟨e, he, there⟩⟩, ?_⟩
      rintro rfl
      exact other there
  have keeps : ∀ {w}, w ∈ (s.decomposition d).nodes → Joins s d w y → Joins t d w y := by
    intro w hw step
    rw [joins_iff_target wf] at step
    obtain ⟨e, he, there⟩ := List.mem_map.mp step.2
    rw [joins_iff_target wft, ((moved w hw).map _).mem_iff, List.map_map]
    refine ⟨evolved.mem hw, List.mem_map.mpr ⟨e, he, ?_⟩⟩
    rw [Function.comp_apply, Edge.target_retarget, if_neg]
    · exact there
    · intro led
      exact ne (Option.some.inj (there.symm.trans led))
  intro z step
  rcases (evolved.nodes z).mp (step.mem wft).1 with hz | isNew
  · rcases was hz step with ⟨_, other⟩ | ⟨_, rfl⟩
    · exact (other rfl).elim
    · exact (new (old hx)).elim
  · obtain rfl : z = m := List.mem_singleton.mp isNew
    refine .inr (.inr ⟨fun isOld => new (old isOld), fun w enters => ?_⟩)
    rcases (evolved.nodes w).mp (enters.mem wft).1 with hw | isNew
    · rcases was hw enters with ⟨before, _⟩ | ⟨before, _⟩
      · exact (new (before.mem wf).2).elim
      · exact keeps hw (follows w before)
    · obtain rfl : w = z := List.mem_singleton.mp isNew
      rw [joins_iff_target wft, (joined.map _).mem_iff] at enters
      cases List.mem_singleton.mp enters.2
      exact (new (old hx)).elim

end

/-- The node leads to itself. -/
theorem Change.attends_of_first (h : Change d s t (.first x x)) (wf : s.WellFormed)
    (hx : x ∈ (base.decomposition d).nodes) (attends : Attends base s d x y) :
    Attends base t d x y := by
  have spares : ∀ {z w}, z ∉ (base.decomposition d).nodes → Spares z w (.first x x) := by
    intro z w new
    constructor
    · rintro _ ⟨⟩
    · rintro _ ⟨⟩ rfl
      exact new hx
  have wft := h.wellFormed
  intro z step
  by_cases same : z = x
  · exact .inr (.inl same)
  have others : ∀ b, Joins t d z b ↔ Joins s d z b := by
    intro b
    cases h with
    | first _ _ _ _ _ _ evolved kept =>
    have hz : z ∈ (s.decomposition d).nodes := by
      simpa using (evolved.nodes z).mp (step.mem wft).1
    rw [joins_iff_target wft, joins_iff_target wf, ((kept z hz same).map _).mem_iff]
    exact and_congr_left fun _ => ⟨fun _ => hz, evolved.mem⟩
  rcases attends z ((others x).mp step) with both | isOwn | ⟨new, follows⟩
  · exact .inl ((others y).mpr both)
  · exact .inr (.inl isOwn)
  · have hz := (((others x).mp step).mem wf).1
    exact .inr (.inr ⟨new, h.follows wf hz (spares new) follows⟩)

/-! ### Runs of actions -/

section
variable {allowed : Action → Prop} (h : Changes d allowed s t) (wf : s.WellFormed)
include h wf

theorem Changes.follows (hx : x ∈ (s.decomposition d).nodes)
    (spares : ∀ a, allowed a → Spares x y a) (follows : Follows s d x y) : Follows t d x y := by
  have step : ∀ {t u : Specification} {a}, Spares x y a → t.WellFormed → Change d t u a →
      x ∈ (t.decomposition d).nodes ∧ Follows t d x y →
      x ∈ (u.decomposition d).nodes ∧ Follows u d x y := by
    rintro t u a spared wf change ⟨hx, follows⟩
    obtain ⟨_, _, evolved⟩ := change.evolved
    exact ⟨evolved.mem hx, change.follows wf hx spared follows⟩
  exact (h.keep wf (P := fun t => x ∈ (t.decomposition d).nodes ∧ Follows t d x y)
    (step .idle) (fun isAllowed => step (spares _ isAllowed)) ⟨hx, follows⟩).2

/-- Nothing comes to lead to a node if no action leads to it or takes edges from it. -/
theorem Changes.unentered (hx : x ∈ (s.decomposition d).nodes)
    (spares : ∀ a, allowed a → Spares x x a) (bare : ∀ z, ¬Joins s d z x) (z : NodeId) :
    ¬Joins t d z x := by
  have step : ∀ {t u : Specification} {a}, Spares x x a → t.WellFormed → Change d t u a →
      (x ∈ (t.decomposition d).nodes ∧ ∀ z, ¬Joins t d z x) →
      x ∈ (u.decomposition d).nodes ∧ ∀ z, ¬Joins u d z x := by
    rintro t u a spared wf change ⟨hx, bare⟩
    obtain ⟨_, _, evolved⟩ := change.evolved
    refine ⟨evolved.mem hx, fun z joined => ?_⟩
    obtain ⟨b, _, before, _⟩ := change.origin wf hx spared joined
    exact bare b before
  exact (h.keep wf (P := fun t => x ∈ (t.decomposition d).nodes ∧ ∀ z, ¬Joins t d z x)
    (step .idle) (fun isAllowed => step (spares _ isAllowed)) ⟨hx, bare⟩).2 z

theorem Changes.attends (old : (base.decomposition d).nodes ⊆ (s.decomposition d).nodes)
    (hx : x ∈ (base.decomposition d).nodes) (avoids : ∀ a, allowed a → Avoids base d x y a)
    (attends : Attends base s d x y) : Attends base t d x y := by
  have step : ∀ {t u : Specification} {a}, Avoids base d x y a → t.WellFormed → Change d t u a →
      (base.decomposition d).nodes ⊆ (t.decomposition d).nodes ∧
        Attends base t d x y →
      (base.decomposition d).nodes ⊆ (u.decomposition d).nodes ∧
        Attends base u d x y := by
    rintro t u a avoided wf change ⟨old, attends⟩
    obtain ⟨_, _, evolved⟩ := change.evolved
    exact ⟨fun _ hz => evolved.mem (old hz), change.attends wf old hx avoided attends⟩
  exact (h.keep wf (P := fun t => (base.decomposition d).nodes ⊆ (t.decomposition d).nodes ∧
    Attends base t d x y) (step .idle)
    (fun isAllowed => step (avoids _ isAllowed)) ⟨old, attends⟩).2

end

/-- A task got a self loop, after its outgoing and its incoming edges may have moved to new
tasks. -/
def SelfLooped (d : DecompositionId) (x : NodeId) (s t : Specification) : Prop :=
  ∃ t₁ t₂ t₃, (t₁ = s ∨ ∃ m, Change d s t₁ (.behind x m)) ∧
    (t₂ = t₁ ∨ ∃ m, Change d t₁ t₂ (.before x m)) ∧ Change d t₂ t₃ (.first x x) ∧
    Changes d (· = .exclusive x) t₃ t

namespace SelfLooped

variable (h : SelfLooped d x s t)
include h

theorem changes {allowed : Action → Prop} (behind : ∀ m, allowed (.behind x m))
    (before : ∀ m, allowed (.before x m)) (first : allowed (.first x x))
    (exclusive : allowed (.exclusive x)) : Changes d allowed s t := by
  obtain ⟨t₁, t₂, t₃, split, join, looped, rest⟩ := h
  have one : Changes d allowed s t₁ := by
    rcases split with rfl | ⟨m, change⟩
    · exact .refl t₁
    · exact .single change (behind m)
  have two : Changes d allowed t₁ t₂ := by
    rcases join with rfl | ⟨m, change⟩
    · exact .refl t₂
    · exact .single change (before m)
  refine one.trans (two.trans ((Changes.single looped first).trans (rest.mono ?_)))
  rintro _ rfl
  exact exclusive

/-- Apart from the loop and a task in front of it, a node goes on to follow the task. -/
theorem attends (wf : s.WellFormed)
    (old : (base.decomposition d).nodes ⊆ (s.decomposition d).nodes)
    (hx : x ∈ (base.decomposition d).nodes) (ne : y ≠ x) (follows : Follows s d x y) :
    Attends base t d x y := by
  obtain ⟨t₁, t₂, t₃, split, join, looped, rest⟩ := h
  have one : t₁.WellFormed ∧ (base.decomposition d).nodes ⊆ (t₁.decomposition d).nodes ∧
      Follows t₁ d x y := by
    rcases split with rfl | ⟨m, change⟩
    · exact ⟨wf, old, follows⟩
    · obtain ⟨_, _, evolved⟩ := change.evolved
      exact ⟨change.wellFormed, fun _ hz => evolved.mem (old hz),
        change.follows wf (old hx) .behind follows⟩
  obtain ⟨wf₁, old₁, follows₁⟩ := one
  have two : t₂.WellFormed ∧ (base.decomposition d).nodes ⊆ (t₂.decomposition d).nodes ∧
      Attends base t₂ d x y := by
    rcases join with rfl | ⟨m, change⟩
    · exact ⟨wf₁, old₁, follows₁.attends⟩
    · obtain ⟨_, _, evolved⟩ := change.evolved
      exact ⟨change.wellFormed, fun _ hz => evolved.mem (old₁ hz),
        change.attends_of_before wf₁ old₁ hx ne follows₁⟩
  obtain ⟨wf₂, old₂, attends₂⟩ := two
  obtain ⟨_, _, evolved⟩ := looped.evolved
  apply rest.attends evolved.wf (fun _ hz => evolved.mem (old₂ hz)) hx
  · rintro _ rfl
    exact .exclusive
  · exact looped.attends_of_first wf₂ hx attends₂

end SelfLooped

end ProcessNets.Specification
