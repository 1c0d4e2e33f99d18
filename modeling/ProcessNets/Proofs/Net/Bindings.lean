import ProcessNets.Proofs.Net.Mappings
import ProcessNets.Proofs.Net.Minor

/-!
# Growing data

Variables are declared and mappings are made one after the other, and none is taken back: what a
task runs and maps, it runs and maps in all later specifications. Most changes leave all data as it
is, those of control flow in particular.
-/

namespace ProcessNets

open Net
open ProcessNets.Text (sameName sameName_comm)

variable {s t u : Specification} {n : NodeId} {d : DecompositionId}

namespace Net

variable {vs : List Variable} {v : Variable} {mappings : List Mapping} {query : String}

/-! ### Lists without repetition -/

def NamesApart (vs : List Variable) : Prop :=
  vs.Pairwise fun v w => sameName v.name w.name = false

def QueriesApart (mappings : List Mapping) : Prop :=
  mappings.Pairwise fun m m' => sameName m.query m'.query = false

theorem QueriesApart.addMapping (h : QueriesApart mappings) (query : String) (v : Variable) :
    QueriesApart (addMapping mappings query v) := by
  unfold Net.addMapping
  cases known : hasQuery mappings query
  · have other : ∀ m ∈ mappings, sameName m.query query = false := by
      simpa [hasQuery] using known
    simpa [QueriesApart, List.pairwise_append] using ⟨h, other⟩
  · exact h

end Net

namespace Specification

theorem stored_of_completed {m : Mapping} (mem : m ∈ s.completed n) : n.index < s.nodes.size := by
  refine Nat.lt_of_not_le fun beyond => ?_
  rw [completed_eq_nil beyond] at mem
  cases mem

/-! ### Later specifications -/

/-- Tasks keep what they run and all their mappings. -/
structure Accrues (s t : Specification) : Prop extends Enlarged s t where
  runs : ∀ {n d}, s.runs? n = some d → t.runs? n = some d
  /-- What a task runs from now on is stored. -/
  ran : ∀ {n d}, t.runs? n = some d → s.runs? n = some d ∨ d.index < t.decompositions.size
  starting : ∀ n, s.starting n ⊆ t.starting n
  completed : ∀ n, s.completed n ⊆ t.completed n

namespace Accrues

instance : Std.Refl Accrues :=
  ⟨fun s => ⟨Std.Refl.refl s, fun h => h, .inl, fun _ => List.Subset.refl _,
    fun _ => List.Subset.refl _⟩⟩

theorem trans (h : Accrues s t) (h' : Accrues t u) : Accrues s u where
  toEnlarged := h.toEnlarged.trans h'.toEnlarged
  runs isRun := h'.runs (h.runs isRun)
  ran isRun := by
    rcases h'.ran isRun with before | stored
    · exact (h.ran before).imp_right fun stored => Nat.lt_of_lt_of_le stored h'.decompositions_size
    · exact .inr stored
  starting n := List.Subset.trans (h.starting n) (h'.starting n)
  completed n := List.Subset.trans (h.completed n) (h'.completed n)

instance : IsTrans Specification Accrues :=
  ⟨fun _ _ _ => trans⟩

theorem modifyTask {g : Task → Task} (runs : ∀ t, (g t).decomposesTo = t.decomposesTo)
    (mappings : ∀ t, t.starting ⊆ (g t).starting ∧ t.completed ⊆ (g t).completed) :
    Accrues s (s.modifyTask n g) := by
  have same : ∀ m, (s.modifyTask n g).runs? m = s.runs? m := by
    intro m
    unfold runs?
    rcases kind_modifyTask (s := s) (g := g) n m with same | ⟨-, task, before, after⟩
    · rw [same]
    · rw [before, after]
      exact runs task
  refine ⟨.modifyTask, fun isRun => ?_, fun isRun => ?_, fun m => ?_, fun m => ?_⟩
  · rwa [same]
  · exact .inl (same _ ▸ isRun)
  all_goals rcases kind_modifyTask (s := s) (g := g) n m with same | ⟨-, task, before, after⟩
  · simp [Specification.starting, same]
  · simpa [Specification.starting, before, after, Kind.starting] using (mappings task).1
  · simp [Specification.completed, same]
  · simpa [Specification.completed, before, after, Kind.completed] using (mappings task).2

theorem modifyList (which : VariableList) {g : List Variable → List Variable}
    (grows : ∀ vs, vs ⊆ g vs) :
    Accrues s (s.modifyDecomposition d fun net => net.modifyList which g) :=
  ⟨.modifyList which grows, fun h => h, .inl, fun _ => List.Subset.refl _,
    fun _ => List.Subset.refl _⟩

end Accrues

/-! ### Changes that bind no data -/

/-- All lists of variables and of mappings stay the same. -/
structure Unbound (s t : Specification) : Prop extends SameMappings s t where
  runs : ∀ {n d}, s.runs? n = some d → t.runs? n = some d
  ran : ∀ {n d}, t.runs? n = some d → s.runs? n = some d ∨ d.index < t.decompositions.size
  list : ∀ d which, (t.decomposition d).list which = (s.decomposition d).list which

namespace Unbound

theorem accrues (h : Unbound s t) : Accrues s t where
  toEnlarged := h.toEnlarged
  runs := h.runs
  ran := h.ran
  starting n := by simp [h.toSameMappings.starting n]
  completed n := by simp [h.toSameMappings.completed n]

theorem of_minor (same : SameMappings s t) (minor : Minor (fun _ _ => False) s t)
    (list : ∀ d which, (t.decomposition d).list which = (s.decomposition d).list which) :
    Unbound s t :=
  ⟨same, fun {n d} isRun => (minor.keeps n d isRun).resolve_right (by simp),
    fun {n d} isRun => (minor.runs n d isRun).imp_right (by simp), list⟩

theorem list_addNode {x : Node} (c : DecompositionId) (which : VariableList) :
    ((s.addNode d x).decomposition c).list which = (s.decomposition c).list which := by
  rw [decomposition_addNode]
  split <;> cases which <;> rfl

theorem addDecomposition {x : Decomposition} (nodes : x.nodes = [])
    (list : ∀ which, x.list which = []) : Unbound s (s.addDecomposition x) := by
  have same : SameMappings s (s.addDecomposition x) :=
    .of_kinds (.addDecomposition nodes) fun _ => ⟨rfl, rfl⟩
  refine ⟨same, fun h => h, .inl, fun c which => ?_⟩
  rw [decomposition_addDecomposition]
  split
  · rename_i new
    rw [decomposition_eq_blank (Nat.le_of_eq new.symm), list]
    cases which <;> rfl
  · rfl

theorem setRuns (idle : s.runs? n = none) (stored : d.index < s.decompositions.size) :
    Unbound s (s.setRuns n d) := by
  refine ⟨.modifyTask fun _ => ⟨rfl, rfl⟩, fun {m c} isRun => ?_, fun {m c} isRun => ?_,
    fun _ _ => rfl⟩
  · have other : m ≠ n := by
      rintro rfl
      simp [idle] at isRun
    rw [runs?_setRuns_of_ne other, isRun]
  · unfold runs? at isRun ⊢
    rcases kind_modifyTask (s := s) (g := fun t => { t with decomposesTo := some d }) n m with
      same | ⟨-, task, before, after⟩
    · exact .inl (same ▸ isRun)
    · cases after ▸ isRun
      exact .inr stored

instance : Std.Refl Unbound :=
  ⟨fun s => ⟨Std.Refl.refl s, fun h => h, .inl, fun _ _ => rfl⟩⟩

theorem trans (h : Unbound s t) (h' : Unbound t u) : Unbound s u where
  toSameMappings := IsTrans.trans _ _ _ h.toSameMappings h'.toSameMappings
  runs isRun := h'.runs (h.runs isRun)
  ran := (h.accrues.trans h'.accrues).ran
  list d which := (h'.list d which).trans (h.list d which)

instance : IsTrans Specification Unbound :=
  ⟨fun _ _ _ => trans⟩

instance : Structural Unbound where
  detail runs control mappings := .of_minor (Structural.detail runs control mappings)
    (Structural.detail runs control mappings) fun _ _ => rfl
  timer timer := .of_minor (Structural.timer timer) (Structural.timer timer) fun _ _ => rfl
  node plain := .of_minor (Structural.node plain) (Structural.node plain) list_addNode
  terminal {s d} x id name := by
    refine .of_minor (Structural.terminal x id name) (Structural.terminal x id name) ?_
    intro c which
    unfold Specification.addTerminal
    rw [decomposition_modifyDecomposition]
    split
    · rw [← list_addNode (d := d) (x := { id, name, kind := x.kind })]
      cases x <;> cases which <;> rfl
    · exact list_addNode c which
  decompose {s n} id idle := by
    have added : Unbound s (s.addDecomposition { id, facts := .webServiceGateway }) :=
      .addDecomposition rfl fun which => by cases which <;> rfl
    exact added.trans (.setRuns idle (by simp [Specification.addDecomposition]))

instance : Wiring Unbound where
  edges h := .of_minor (.of_edgesOnly h) (Wiring.edges h) fun d which => by
    have same := congrArg (·.list which) (h.unlinked d)
    cases which <;> exact same
  router id name split join := .of_minor (Wiring.router id name split join)
    (Wiring.router id name split join) list_addNode
  decorate decorates := .of_minor (Wiring.decorate decorates) (Wiring.decorate decorates)
    fun _ _ => rfl

instance : Clearing Unbound where
  cancels {s n g} cancels := by
    have keeps : ∀ t, (g t).decomposesTo = t.decomposesTo ∧ (g t).starting = t.starting ∧
        (g t).completed = t.completed := by
      intro t
      obtain ⟨cancels, same⟩ := cancels t
      simp [same]
    have accrues : Accrues s (s.modifyTask n g) :=
      .modifyTask (fun t => (keeps t).1) fun t => by simp [keeps t]
    exact ⟨.modifyTask fun t => (keeps t).2, accrues.runs, accrues.ran, fun _ _ => rfl⟩

end Unbound

end Specification

end ProcessNets
