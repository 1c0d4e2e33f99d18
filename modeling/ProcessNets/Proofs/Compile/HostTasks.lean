import ProcessNets.Proofs.Compile.ErrorTasks

/-!
# Tasks of activities

The counterparts of activities are tasks with ids of their own stem, in a net that is laid out and
in all that follows.
-/

namespace ProcessNets.Compile

open Net Specification

variable {job : Job} {container : Diagram.Container} {nested : Nested} {scope scope' : Scope}
  {terminations : List Diagram.NodeId} {s s₁ s₂ s₃ t : State} {spec spec' : Specification}
  {map : NodeMap} {n : Diagram.NodeId} {y : Net.NodeId} {activity : Diagram.Activity}

/-- The counterparts of activities are titled as tasks. -/
def TasksTitled (job : Job) (map : NodeMap) (spec : Specification) : Prop :=
  ∀ n y activity, (job.diagram.node n).kind.activity? = some activity → map.find? n = some y →
    Titled "task" spec y

theorem TasksTitled.grow (h : TasksTitled job map spec) (grows : spec.Extends spec') :
    TasksTitled job map spec' :=
  fun n y activity isActivity found => (h n y activity isActivity found).grow grows

section
variable (nests : Nests (fun _ => True) (fun _ _ => True) job nested)
include nests

theorem titled_counterpart (wf : s.spec.WellFormed) (clear : Unregistered s)
    (stored : scope.net.index < s.spec.decompositions.size)
    (isActivity : (job.diagram.node n).kind.activity? = some activity) :
    Ensures (fun _ => True) (counterpart job nested scope n) s fun placed t =>
      ∀ y, placed = some y → Titled "task" t.spec y := by
  unfold counterpart
  dsimp only
  cases kind : (job.diagram.node n).kind with
  | task other initiators =>
    have isTask : (job.diagram.node n).kind.activity? = some other := by rw [kind]; rfl
    refine (titled_placeActivity isTask (by simp)).seq fun y t titled => ?_
    rintro _ ⟨⟩
    exact titled
  | subprocess other children =>
    refine (titled_placeSubprocess nests wf clear stored kind).seq fun y t titled => ?_
    rintro _ ⟨⟩
    exact titled
  | _ =>
    rw [kind] at isActivity
    cases isActivity

/-- Placing a node keeps all ids, and gives a titled task to an activity. -/
theorem titled_counterpart_grows (wf : s.spec.WellFormed) (clear : Unregistered s)
    (stored : scope.net.index < s.spec.decompositions.size) (mapped : Mapped job s.spec scope) :
    Ensures (fun _ => True) (counterpart job nested scope n) s fun placed t =>
      s.spec.Extends t.spec ∧ ∀ activity, (job.diagram.node n).kind.activity? = some activity →
        ∀ y, placed = some y → Titled "task" t.spec y := by
  refine ((ensures_counterpart local_anyhow nests wf stored clear mapped).mono
    fun _ _ found => found.progress.steps.grows).and ?_
  cases isActivity : (job.diagram.node n).kind.activity? with
  | none => exact .anyhow fun _ _ _ => nofun
  | some activity =>
    refine (titled_counterpart nests wf clear stored isActivity).mono ?_
    rintro placed t titled _ ⟨⟩
    exact titled

theorem titled_placeChild {done : List Diagram.NodeId}
    (laying : Laying job done scope.gateways scope s) (titled : TasksTitled job scope.map s.spec) :
    Ensures (fun _ => True) (placeChild job nested scope n) s fun scope' t =>
      TasksTitled job scope'.map t.spec := by
  have found : ∀ hosts, Ensures (fun _ => True) (counterpart job nested { scope with hosts } n) s
      fun placed t => s.spec.Extends t.spec ∧ ∀ activity,
        (job.diagram.node n).kind.activity? = some activity →
          ∀ y, placed = some y → Titled "task" t.spec y := fun hosts =>
    titled_counterpart_grows nests laying.wf laying.clear laying.stored
      (laying.mapped.of_map rfl rfl)
  refine (ensures_placeChild_found (R := Eq) (fun attached => ⟨.refl _, ?_⟩) found).mono ?_
  · rintro scope' u ⟨placed, t, ⟨grows, new⟩, filed, routine⟩ m y activity isActivity here
    rw [← routine.change]
    rcases filed.origin here with old | ⟨rfl, isNew⟩
    · exact (titled m y activity isActivity old).grow grows
    · exact new activity isActivity y isNew
  · exact fun _ _ _ => nofun

theorem titled_layOut (ready : Ready job container s) :
    Ensures (fun _ => True) (layOut job nested container) s fun scope t =>
      TasksTitled job scope.map t.spec := by
  refine (ensures_layOut_placed (I := fun _ scope t => TasksTitled job scope.map t.spec) nests
    ready (fun _ _ _ _ _ _ _ => nofun) ?_).mono ?_
  · exact fun done n scope t laying titled => titled_placeChild nests laying titled
  · rintro scope' u ⟨scope, t, titled, _, grows, _, same⟩ n y activity isActivity found
    rw [same n ?_] at found
    · exact (titled n y activity isActivity found).grow grows
    · cases kind : (job.diagram.node n).kind with
      | gateway =>
        rw [kind] at isActivity
        cases isActivity
      | _ => rfl

end

theorem Prepared.tasksTitled (h : Prepared job container scope t) :
    TasksTitled job scope.map t.spec := by
  obtain ⟨levels, s, u, ready, laying, binding⟩ := h
  have nests := nests_weak job levels
  have titled := (titled_layOut nests ready).of_ok laying
  have quiet : Quiet u t := (ensures_bindData (E := fun _ => True) fun _ _ => trivial).of_ok binding
  exact titled.grow quiet.spec.grows

end ProcessNets.Compile
