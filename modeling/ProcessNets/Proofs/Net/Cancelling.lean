import ProcessNets.Proofs.Net.Minor

/-!
# Cancelled nodes

What the operations on cancellation sets add to them, exactly: a pair for each node that a task is
told to cancel, other than the task itself and the input and output conditions. A set without
duplicates stays without.
-/

namespace ProcessNets

open Net

namespace Specification

variable {s t u : Specification} {n m : NodeId} {d : DecompositionId}
  {task : Task} {more more' : NodeId → NodeId → Prop}

theorem isBoundary_of_skeleton (h : t.skeleton = s.skeleton) (n : NodeId) :
    (t.node n).kind.isBoundary = (s.node n).kind.isBoundary := by
  have same := kind_of_skeleton h n
  cases kind : (t.node n).kind <;> cases kind' : (s.node n).kind <;>
    simp [kind, kind', Kind.skeleton, Kind.isBoundary] at same ⊢

theorem cancels_of_task (h : s.task? n = some task) : s.cancels n = task.cancels := by
  unfold task? at h
  unfold cancels
  cases kind : (s.node n).kind <;> rw [kind] at h <;> cases h
  rfl

theorem cancels_modifyTask_self {task : Task} {g : Task → Task} (h : s.task? n = some task) :
    (s.modifyTask n g).cancels n = (g task).cancels := by
  have stored := task_stored h
  unfold task? at h
  unfold cancels modifyTask
  rw [node_modifyNode_self _ stored]
  cases kind : (s.node n).kind <;> rw [kind] at h <;> cases h
  rfl

theorem cancels_modifyTask_of_ne {g : Task → Task} (h : m ≠ n) :
    (s.modifyTask n g).cancels m = s.cancels m := by
  unfold cancels modifyTask
  rw [node_modifyNode_of_ne _ h]

theorem isBoundary_of_task (h : (s.task? n).isSome) : (s.node n).kind.isBoundary = false := by
  unfold task? at h
  cases kind : (s.node n).kind <;> simp [kind, Kind.task?, Kind.isBoundary] at h ⊢

/-- Only the terminals of a net are where it starts or ends. -/
theorem WellFormed.isBoundary_iff (wf : s.WellFormed)
    (hn : n ∈ (s.decomposition d).nodes) : (s.node n).kind.isBoundary = false ↔
      ∀ side, (s.decomposition d).terminal side ≠ some n := by
  constructor
  · intro inside side isTerminal
    rw [((wf.terminal d side n).mp isTerminal).2, Terminal.isBoundary_kind] at inside
    cases inside
  · intro none
    have noKind : ∀ side : Terminal, (s.node n).kind ≠ side.kind := fun side kind =>
      none side ((wf.terminal d side n).mpr ⟨hn, kind⟩)
    cases kind : (s.node n).kind with
    | inputCondition => exact absurd kind (noKind .input)
    | outputCondition => exact absurd kind (noKind .output)
    | _ => rfl

/-- Cancellation sets grow by the pairs in `more`. Those without duplicates stay without, and all
nodes that join a net are new. -/
structure Adds (more : NodeId → NodeId → Prop) (s t : Specification) : Prop where
  stored : s.nodes.size ≤ t.nodes.size
  origin : ∀ d n, n ∈ (t.decomposition d).nodes →
    n ∈ (s.decomposition d).nodes ∨ s.nodes.size ≤ n.index
  mem : ∀ x z, z ∈ t.cancels x ↔ z ∈ s.cancels x ∨ more x z
  nodup : ∀ x, (s.cancels x).Nodup → (t.cancels x).Nodup

namespace Adds

theorem of_minor {P : NodeId → DecompositionId → Prop} (minor : Minor P s t)
    (none : ∀ x z, ¬more x z) : Adds more s t where
  stored := minor.stored
  origin := minor.origin
  mem x z := by
    rw [minor.cancels]
    exact ⟨.inl, fun h => h.resolve_right (none x z)⟩
  nodup x := by
    rw [minor.cancels]
    exact fun nodup => nodup

/-- Minor changes add nothing. -/
theorem idle {P : NodeId → DecompositionId → Prop} (minor : Minor P s t) :
    Adds (fun _ _ => False) s t :=
  .of_minor minor fun _ _ none => none

theorem refl (none : ∀ x z, ¬more x z) : Adds more s s :=
  .of_minor (.refl (P := fun _ _ => False) s) none

theorem of_skeleton (same : t.skeleton = s.skeleton)
    (mem : ∀ x z, z ∈ t.cancels x ↔ z ∈ s.cancels x ∨ more x z)
    (nodup : ∀ x, (s.cancels x).Nodup → (t.cancels x).Nodup) : Adds more s t where
  stored := Nat.le_of_eq (nodes_size_of_skeleton same).symm
  origin d n hn := by
    rw [nodes_of_skeleton same] at hn
    exact .inl hn
  mem := mem
  nodup := nodup

theorem trans (h : Adds more s t) (h' : Adds more' t u) :
    Adds (fun x z => more x z ∨ more' x z) s u where
  stored := Nat.le_trans h.stored h'.stored
  origin d n hn := by
    rcases h'.origin d n hn with before | new
    · exact h.origin d n before
    · exact .inr (Nat.le_trans h.stored new)
  mem x z := by rw [h'.mem, h.mem, or_assoc]
  nodup x nodup := h'.nodup x (h.nodup x nodup)

theorem congr (h : Adds more s t) (same : ∀ x z, more x z ↔ more' x z) : Adds more' s t :=
  ⟨h.stored, h.origin, fun x z => by rw [h.mem, same], h.nodup⟩

theorem then_minor {P : NodeId → DecompositionId → Prop} (h : Adds more s t)
    (minor : Minor P t u) : Adds more s u :=
  (h.trans (.idle minor)).congr fun _ _ => by rw [or_false]

theorem after_minor {P : NodeId → DecompositionId → Prop} (h : Adds more t u)
    (minor : Minor P s t) : Adds more s u :=
  ((idle minor).trans h).congr fun _ _ => by rw [false_or]

theorem cancels_eq_nil (h : Adds more s t) (free : CancelFree s d)
    (hn : n ∈ (t.decomposition d).nodes) : s.cancels n = [] := by
  rcases h.origin d n hn with old | new
  · exact free n old
  · unfold cancels
    rw [node_eq_blank new]
    rfl

/-- Where nothing was cancelled before, exactly what was added is cancelled, and nothing twice. -/
theorem exact_of_free (h : Adds more s t) (free : CancelFree s d)
    (hn : n ∈ (t.decomposition d).nodes) :
    (t.cancels n).Nodup ∧ ∀ z, z ∈ t.cancels n ↔ more n z := by
  have none := h.cancels_eq_nil free hn
  refine ⟨h.nodup n (none ▸ List.nodup_nil), fun z => ?_⟩
  rw [h.mem, none]
  simp

end Adds

/-- Cancellation sets grow by the pairs in `more`, and nothing else changes in the shape. -/
structure Cancelling (more : NodeId → NodeId → Prop) (s t : Specification) : Prop
    extends Adds more s t where
  skeleton : t.skeleton = s.skeleton

namespace Cancelling

theorem refl (none : ∀ x z, ¬more x z) : Cancelling more s s :=
  ⟨.refl none, rfl⟩

theorem trans (h : Cancelling more s t) (h' : Cancelling more' t u) :
    Cancelling (fun x z => more x z ∨ more' x z) s u :=
  ⟨h.toAdds.trans h'.toAdds, h'.skeleton.trans h.skeleton⟩

theorem congr (h : Cancelling more s t) (same : ∀ x z, more x z ↔ more' x z) :
    Cancelling more' s t :=
  ⟨h.toAdds.congr same, h.skeleton⟩

end Cancelling

/-- A node and its timers cancel each other. -/
def Mutual (host : NodeId) (timers : List NodeId) (x z : NodeId) : Prop :=
  x = host ∧ z ∈ timers ∨ x ∈ timers ∧ (z = host ∨ z ∈ timers ∧ z ≠ x)

/-- What a loop adds is what its rounds add. -/
theorem ensures_cancelling_forM {ε σ α : Type} {E : ε → Prop} {a : σ} {items : List α}
    {f : α → ExceptT ε (StateM σ) PUnit} (view : σ → Specification)
    (more : α → NodeId → NodeId → Prop)
    (step : ∀ i ∈ items, ∀ b, (view b).skeleton = (view a).skeleton →
      Ensures E (f i) b fun _ c => Cancelling (more i) (view b) (view c)) :
    Ensures E (items.forM f) a fun _ b =>
      Cancelling (fun x z => ∃ i ∈ items, more i x z) (view a) (view b) := by
  refine ensures_forM_done
    (fun done b => Cancelling (fun x z => ∃ i ∈ done, more i x z) (view a) (view b)) ?_
    (.refl (by simp))
  intro done i rest b all cancelling
  have member : i ∈ items := all ▸ by simp
  refine (step i member b cancelling.skeleton).mono fun _ c more => ?_
  refine (cancelling.trans more).congr fun x z => ?_
  simp only [List.mem_append, List.mem_singleton, or_and_right, exists_or, exists_eq_left]

end Specification

namespace Net.Edit

open Specification

variable {E : Fault → Prop} {s t : Specification} {n m : NodeId} {d : DecompositionId}

/-- A task cancels a node if that is neither the task itself nor an end of the net. -/
theorem ensures_cancelling (isTask : (s.task? n).isSome) : Ensures E (cancel n (some m)) s fun _ t =>
    Cancelling (fun x z => x = n ∧ z = m ∧ m ≠ n ∧ (s.node m).kind.isBoundary = false) s t := by
  obtain ⟨task, found⟩ := Option.isSome_iff_exists.mp isTask
  have own := cancels_of_task found
  unfold cancel
  rw [ensures_bind]
  apply ensures_requireTask found
  rw [ensures_bind, ensures_get]
  split
  · rename_i skipped
    rw [ensures_pure]
    refine ⟨.of_skeleton rfl (fun x z => ⟨.inl, fun h => h.elim (fun old => old) ?_⟩)
      fun _ nodup => nodup, rfl⟩
    rintro ⟨rfl, rfl, other, inside⟩
    rcases skipped with same | isBoundary | listed
    · exact absurd same other
    · rw [inside] at isBoundary
      cases isBoundary
    · rwa [own]
  · rename_i allowed
    obtain ⟨other, inside, new⟩ : m ≠ n ∧ ¬(s.node m).kind.isBoundary ∧ m ∉ task.cancels := by
      simpa only [not_or] using allowed
    rw [ensures_bind, ensures_modify, ensures_pure]
    have same : (s.modifyTask n fun t => { t with cancels := t.cancels ++ [m] }).skeleton =
        s.skeleton := skeleton_modifyTask fun _ => rfl
    refine ⟨.of_skeleton same (fun x z => ?_) (fun x nodup => ?_), same⟩
    · by_cases here : x = n
      · subst here
        rw [cancels_modifyTask_self found, own]
        simp [other, inside]
      · rw [cancels_modifyTask_of_ne here]
        simp [here]
    · by_cases here : x = n
      · subst here
        rw [own] at nodup
        rw [cancels_modifyTask_self found]
        exact nodup_concat nodup new
      · rwa [cancels_modifyTask_of_ne here]

theorem ensures_cancelling_task (isTask : (s.task? n).isSome) (other : (s.task? m).isSome) :
    Ensures E (cancel n (some m)) s fun _ t =>
      Cancelling (fun x z => x = n ∧ z = m ∧ m ≠ n) s t :=
  (ensures_cancelling isTask).mono fun _ t h => h.congr fun x z => by
    simp [isBoundary_of_task other]

/-- A task cancels all nodes of a net but itself and the ends. -/
theorem ensures_cancelAll_exact (isTask : (s.task? n).isSome) :
    Ensures E (cancelAll d n) s fun _ t => Cancelling (fun x z => x = n ∧ z ≠ n ∧
      z ∈ (s.decomposition d).nodes ∧ (s.node z).kind.isBoundary = false) s t := by
  unfold cancelAll
  rw [ensures_bind, ensures_get]
  refine (ensures_cancelling_forM (fun s => s) (fun m x z =>
    x = n ∧ z = m ∧ m ≠ n ∧ (s.node m).kind.isBoundary = false) ?_).mono fun _ t cancelling => ?_
  · intro m _ t same
    rw [ensures_bind]
    refine (ensures_cancelling (by rwa [task?_isSome_of_skeleton same])).mono fun _ u more => ?_
    rw [ensures_pure]
    simpa only [isBoundary_of_skeleton same] using more
  · refine cancelling.congr fun x z => ?_
    simp only [List.mem_filter, Bool.not_eq_true']
    constructor
    · rintro ⟨m, ⟨listed, _⟩, rfl, rfl, other, inside⟩
      exact ⟨rfl, other, listed, inside⟩
    · rintro ⟨rfl, other, listed, inside⟩
      exact ⟨z, ⟨listed, inside⟩, rfl, rfl, other, inside⟩

end Net.Edit

end ProcessNets
