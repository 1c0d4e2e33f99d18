import ProcessNets.Proofs.Compile.ErrorTasks

/-!
# Failing subprocesses

The task of a subprocess that can end in an error runs a net with an error task, unless it lies at
the nesting limit. The net is made before the task, and keeps its error task from then on.
-/

namespace ProcessNets.Compile

open Net Specification

variable {job : Job} {container : Diagram.Container} {scope scope' : Scope} {s t : State}
  {spec spec' : Specification} {map : NodeMap} {levels : Nat} {n : Diagram.NodeId}
  {y : Net.NodeId} {activity : Diagram.Activity} {children : List Diagram.NodeId}

/-- A subprocess with an end event of an error in it. -/
structure CanFail (job : Job) (n : Diagram.NodeId) : Prop where
  isSubprocess : IsSubprocess job n
  ends : ∃ k ∈ job.diagram.children (.subprocess n), EndsInError job k

/-- The task runs a net with an error task, or a task-level decomposition. -/
def Alarmed (spec : Specification) (y : Net.NodeId) : Prop :=
  ∃ inner, spec.runs? y = some inner ∧ inner.index < spec.decompositions.size ∧
    ((spec.decomposition inner).facts = .webServiceGateway ∨ (errorTask? spec inner).isSome)

theorem isSome_errorTask?_of_extends {d : DecompositionId} (wf : spec.WellFormed)
    (grows : spec.Extends spec') (isSome : (errorTask? spec d).isSome) :
    (errorTask? spec' d).isSome := by
  obtain ⟨z, found⟩ := Option.isSome_iff_exists.mp isSome
  rw [Extends.errorTask? wf grows found]
  rfl

theorem Alarmed.grow (h : Alarmed spec y) (wf : spec.WellFormed) (grows : spec.Extends spec') :
    Alarmed spec' y := by
  obtain ⟨inner, runs, stored, plain | isSome⟩ := h
  all_goals refine ⟨inner, grows.runs runs, Nat.lt_of_lt_of_le stored grows.decompositions_size, ?_⟩
  · exact .inl ((grows.facts stored).trans plain)
  · exact .inr (isSome_errorTask?_of_extends wf grows isSome)

/-- The tasks of subprocesses that can fail are alarmed. -/
def AllAlarmed (job : Job) (map : NodeMap) (spec : Specification) : Prop :=
  ∀ n y, map.find? n = some y → CanFail job n → Alarmed spec y

theorem AllAlarmed.grow (h : AllAlarmed job map spec) (wf : spec.WellFormed)
    (grows : spec.Extends spec') : AllAlarmed job map spec' :=
  fun n y found canFail => (h n y found canFail).grow wf grows

section
variable (wf : s.spec.WellFormed) (clear : Unregistered s)
  (stored : scope.net.index < s.spec.decompositions.size)
include wf clear stored

theorem alarmed_placeSubprocess (canFail : CanFail job n)
    (kind : (job.diagram.node n).kind = .subprocess activity children) :
    Ensures (fun _ => True) (placeSubprocess job (nestedBelow job levels) scope.net n activity) s
      fun y t => Alarmed t.spec y := by
  unfold placeSubprocess
  cases levels with
  | zero =>
    refine Ensures.after fun _ t => ensures_placeActivity_engaged.mono ?_
    intro y u engaged
    obtain ⟨inner, runs, isStored, facts⟩ := engaged.plain
    exact ⟨inner, runs, isStored, .inl facts⟩
  | succ levels =>
    have later : 0 < s.spec.decompositions.size := Nat.zero_lt_of_lt stored
    have ready : Ready job (.subprocess n) s := ⟨wf, clear, later, activity, children, kind⟩
    have isActivity : (job.diagram.node n).kind.activity? = some activity := by rw [kind]; rfl
    have nests := nests_weak job (levels + 1)
    refine ((nests _ rfl n s wf clear later canFail.isSubprocess).and
      (ensures_build_signals ready)).seq ?_
    rintro inner t ⟨⟨progress, _, isStored, facts⟩, signals⟩
    have stored' := Nat.lt_of_lt_of_le stored progress.steps.grows.decompositions_size
    refine ((ensures_placeActivity stored' isActivity ?_).and
      ensures_placeActivity_engaged).mono ?_
    · rintro _ ⟨⟩
      exact ⟨isStored, facts⟩
    · rintro y u ⟨⟨added, _⟩, engaged⟩
      have grows := added.steps.grows
      refine ⟨inner, engaged.given, Nat.lt_of_lt_of_le isStored grows.decompositions_size, .inr ?_⟩
      exact isSome_errorTask?_of_extends (progress.steps.wellFormed wf) grows (signals canFail.ends)

/-- Placing a node keeps the error tasks of all nets, and the task of a subprocess that can fail is
alarmed. -/
theorem alarmed_counterpart (mapped : Mapped job s.spec scope) :
    Ensures (fun _ => True) (counterpart job (nestedBelow job levels) scope n) s fun placed t =>
      s.spec.Extends t.spec ∧ (CanFail job n → ∀ y, placed = some y → Alarmed t.spec y) := by
  refine ((ensures_counterpart local_anyhow (nests_weak job levels) wf stored clear mapped).mono
    fun _ _ found => found.progress.steps.grows).and ?_
  by_cases canFail : CanFail job n
  · obtain ⟨activity, children, kind⟩ := canFail.isSubprocess
    unfold counterpart
    rw [kind]
    refine (alarmed_placeSubprocess wf clear stored canFail kind).seq ?_
    rintro y t alarmed _ _ ⟨⟩
    exact alarmed
  · exact .anyhow fun _ _ isFailing => absurd isFailing canFail

end

theorem alarmed_placeChild {done : List Diagram.NodeId}
    (laying : Laying job done scope.gateways scope s)
    (alarmed : AllAlarmed job scope.map s.spec) :
    Ensures (fun _ => True) (placeChild job (nestedBelow job levels) scope n) s fun scope' t =>
      AllAlarmed job scope'.map t.spec := by
  have found : ∀ hosts, Ensures (fun _ => True)
      (counterpart job (nestedBelow job levels) { scope with hosts } n) s fun placed t =>
        s.spec.Extends t.spec ∧ (CanFail job n → ∀ y, placed = some y → Alarmed t.spec y) :=
    fun hosts => alarmed_counterpart laying.wf laying.clear laying.stored
      (laying.mapped.of_map rfl rfl)
  refine (ensures_placeChild_found (R := Eq) (fun attached => ⟨.refl _, ?_⟩) found).mono ?_
  · rintro scope' u ⟨placed, t, ⟨grows, new⟩, filed, routine⟩ m y here canFail
    rw [← routine.change]
    rcases filed.origin here with old | ⟨rfl, isNew⟩
    · exact (alarmed m y old canFail).grow laying.wf grows
    · exact new canFail y isNew
  · exact fun _ _ none => nomatch none

theorem alarmed_layOut (ready : Ready job container s) :
    Ensures (fun _ => True) (layOut job (nestedBelow job levels) container) s fun scope t =>
      AllAlarmed job scope.map t.spec := by
  refine (ensures_layOut_placed (I := fun _ scope t => AllAlarmed job scope.map t.spec)
    (nests_weak job levels) ready (fun _ _ _ _ _ found => nomatch found) ?_).mono ?_
  · exact fun done n scope t laying alarmed => alarmed_placeChild laying alarmed
  · rintro scope' u ⟨scope, t, alarmed, laid, grows, _, same⟩ n y found canFail
    rw [same n ?_] at found
    · exact (alarmed n y found canFail).grow laid.wf grows
    · obtain ⟨activity, children, kind⟩ := canFail.isSubprocess
      rw [kind]
      rfl

/-- In a net that is laid out, subprocesses that can fail have alarmed tasks. -/
theorem Prepared.alarmed (h : Prepared job container scope t) :
    AllAlarmed job scope.map t.spec := by
  obtain ⟨levels, s, u, ready, laying, binding⟩ := h
  have alarmed := (alarmed_layOut ready).of_ok laying
  obtain ⟨_, _, _, laid, _⟩ :=
    (ensures_layOut local_anyhow (nests_weak job levels) ready.wf ready.clear ready.opens).of_ok laying
  have quiet : Quiet u t := (ensures_bindData (E := fun _ => True) fun _ _ => trivial).of_ok binding
  exact alarmed.grow laid.wf quiet.spec.grows

end ProcessNets.Compile
