import ProcessNets.Proofs.Compile.HostTasks
import ProcessNets.Proofs.Compile.JustifiedData

/-!
# Justified flags

Boundary events declare flags and map them, and timers on boundaries bring variables of their own.
All of it is justified, so the result of a compilation is.
-/

namespace ProcessNets.Compile

open Net Specification

variable {job : Job} {container : Diagram.Container} {scope scope' : Scope}
  {terminations : List Diagram.NodeId} {s s₁ s₂ s₃ t : State} {d inner : DecompositionId}
  {n event : Diagram.NodeId} {x host source : Net.NodeId} {v : Variable}

/-! ### Error events -/

theorem justifying_ensureFlag (job : Job) {front : String} (named : v.name = front ++ "_exception") :
    Ensures (fun _ => True) (ensureFlag d v) s fun _ t => Routine (Justifying job) s t := by
  unfold ensureFlag
  rw [ensures_bind, ensures_spec]
  split
  · exact .refl s
  · rename_i unknown
    have reason : Reason job s.spec d v.name .locals := LocalReason.flag named
    exact (justifying_appendVariable reason unknown).seq fun _ _ routine => routine

/-- A flag is copied out of what a host runs, and the error task in there sets it. -/
theorem justifying_bindInnerFlag (job : Job) {eventId target : String}
    (names : NamesSource (s.spec.node source).id) (runs : s.spec.runs? host = some inner) :
    Ensures (fun _ => True) (bindInnerFlag host source eventId target v inner) s fun _ t =>
      Routine (Justifying job) s t := by
  rw [bindInnerFlag_eq, ensures_bind, ensures_spec]
  refine (justifying_addCompleted job (.flag runs rfl)).seq ?_
  rintro _ s₁ ⟨first, _⟩
  refine (justifying_ensureFlag job rfl).seq fun inside s₂ second => ?_
  have reason : Reason job s₂.spec inner (innerFlag (s.spec.node source).id) .outputs := trivial
  refine Ensures.seq (justifying_declareVariable reason) ?_
  rintro _ s₃ ⟨third, _⟩
  refine Ensures.mono (ensures_setByError_of fun task _ => ?_) fun _ _ =>
    (first.trans (second.trans third)).trans
  exact (justifying_addCompleted job (.error names rfl)).mono fun _ _ set => set.1

theorem IsSource.accrue {spec spec' : Specification} (h : IsSource spec x)
    (accrues : Accrues spec spec') : IsSource spec' x :=
  h.imp (Titled.enlarged · accrues.toEnlarged) (Titled.enlarged · accrues.toEnlarged)

theorem justifying_routeError (isSource : IsSource s.spec source) :
    Ensures (fun _ => True) (routeError job scope host source event) s fun _ t =>
      Routine (Justifying job) s t := by
  unfold routeError
  refine (routine_eventTarget (R := Justifying job) s).seq fun target s₁ first => ?_
  split
  · exact first
  · dsimp only
    rw [ensures_bind, ensures_spec]
    refine (routine_linkHandler (R := Justifying job) s₁).seq fun _ s₂ second => ?_
    refine (justifying_ensureFlag job rfl).seq fun flag s₃ third => ?_
    have before := first.trans (second.trans third)
    split
    · exact before
    · rename_i inner isInner
      have runs : s₁.spec.runs? host = some inner := (runs?_eq_bind ..).trans isInner
      refine (justifying_bindInnerFlag job (isSource.accrue before.accrues).names ?_).mono ?_
      · exact (second.trans third).accrues.runs runs
      · exact fun _ _ => before.trans

theorem justifying_routeOthers {events : List Diagram.NodeId} (isSource : IsSource s.spec source) :
    Ensures (fun _ => True) (events.forM (routeOther job scope n host source)) s fun _ t =>
      Routine (Justifying job) s t := by
  refine ensures_forM_done (fun _ t => Routine (Justifying job) s t) ?_ (.refl s)
  rintro _ event _ t _ routine
  unfold routeOther
  dsimp only
  split
  · refine (justifying_routeError (isSource.accrue routine.accrues)).mono ?_
    exact fun _ _ => routine.trans
  · exact routine.trans (routine_of_same rfl rfl)

theorem justifying_routeBoundary (titled : TasksTitled job scope.map s.spec)
    (isHost : IsHost job n) :
    Ensures (fun _ => True) (routeBoundary job scope n) s fun _ t =>
      Routine (Justifying job) s t := by
  obtain ⟨activity, isActivity, _⟩ := isHost
  refine ensures_routeBoundary_routine (P := fun y source t =>
    Titled "task" t.spec y ∧ IsSource t.spec source) (fun _ _ => justifying_placeTimer) ?_ ?_ ?_
  · intro y t found routine
    have task := (titled n y activity isActivity found).enlarged routine.accrues.toEnlarged
    exact ⟨task, .inl task⟩
  · rintro y t ⟨task, _⟩
    refine ((routine_splitExclusively (R := Justifying job)).and_ensures
      (isSource_splitExclusively task)).mono ?_
    rintro source u ⟨routine, isSource⟩
    exact ⟨task.enlarged routine.accrues.toEnlarged, isSource⟩
  · exact fun y source t events both => justifying_routeOthers both.2

/-! ### Whole nets -/

theorem Course.justifying (course : Course job container scope scope' terminations s s₁ s₂ s₃ t) :
    Justifying job s.spec t.spec := by
  refine course.change ?_
  have titled : TasksTitled job scope.map s₁.spec :=
    course.prepared.tasksTitled.grow course.linked.steps.grows
  have routing : Ensures (fun _ => True) (routeAll job { scope with terminations }) s₁
      fun _ t => Routine (Justifying job) s₁ t := by
    refine ensures_routeHosts_routine (P := fun scope s => TasksTitled job scope.map s.spec) ?_ ?_
      (fun n => course.laid.isHost) course.wf₁ course.mapped₁ titled
    · exact fun n scope s isHost _ _ titled => justifying_routeBoundary titled isHost
    · intro n scope scope' s t routed titled k y activity isActivity found
      rw [routed.routed.same_of_plain (fun _ both => both.1) (not_timer_of_activity isActivity)]
        at found
      exact (titled k y activity isActivity found).grow routed.routed.rewired.steps.grows
  exact routing.of_ok course.stages.route

theorem justifying_openNet : Relates (Routine (Justifying job)) (openNet job container) := by
  refine routine_openNet_of fun id isRoot s => ?_
  rw [Edit.ensures_createDecomposition]
  exact .of_unbound (.addDecomposition rfl fun which => by cases which <;> rfl)

theorem stagewise_justifying : Stagewise (Justifying job) job where
  openNet _ := justifying_openNet
  counterpart := justifying_counterpart
  subprocess isActivity stored := justifying_placeActivity isActivity fun _ same => by
    cases same
    exact stored
  foldAll _ := routine_foldAll
  closeConditions _ := routine_closeConditions Wiring.edges
  bindData _ := justifying_bindData _
  course := Course.justifying

/-- In the result of a compilation, all variables and mappings are justified. -/
theorem compile_justified {index : Int} (h : compile job index = .ok s) : Justified job s.spec :=
  (stagewise_justifying.compile h).justified (.of_empty rfl rfl)

end ProcessNets.Compile
