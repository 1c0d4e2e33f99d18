import ProcessNets.Proofs.Compile.Calls

/-!
# Stages of compilations

A relation between specifications that holds across each stage of a single net holds across a whole
compilation. The nets of subprocesses are made between two stages of the net around them.
-/

namespace ProcessNets.Compile

open Net Specification

variable {R : Specification → Specification → Prop} {job : Job} {nested : Nested} {scope : Scope}
  {container : Diagram.Container} {s t : State} {d : DecompositionId} {n : Diagram.NodeId}
  {levels : Nat}

/-- The relation holds across each stage in which a net is laid out, apart from the making of other
nets. -/
structure LayingStages (R : Specification → Specification → Prop) (job : Job) : Prop where
  openNet : ∀ container, Relates (Routine R) (openNet job container)
  counterpart : ∀ {nested scope n}, (nested = none ∨ ∀ activity children,
    (job.diagram.node n).kind ≠ .subprocess activity children) →
      Relates (Routine R) (counterpart job nested scope n)
  /-- The net of a subprocess is there when its node is placed. -/
  subprocess : ∀ {d n activity inner s}, (job.diagram.node n).kind.activity? = some activity →
    inner.index < s.spec.decompositions.size →
      Ensures (fun _ => True) (placeActivity job d n activity (some inner)) s fun _ t =>
        Routine R s t
  foldAll : ∀ scope, Relates (Routine R) (foldAll job scope)
  closeConditions : ∀ scope, Relates (Routine R) (closeConditions scope)

/-- The relation holds across each stage of a net, apart from the making of other nets. -/
structure Stagewise (R : Specification → Specification → Prop) (job : Job) : Prop
    extends LayingStages R job where
  bindData : ∀ {container scope s}, LaidOut job container scope s →
    Ensures (fun _ => True) (bindData job container scope) s fun _ t => Routine R s t
  course : ∀ {container scope scope' terminations s s₁ s₂ s₃ t},
    Course job container scope scope' terminations s s₁ s₂ s₃ t → R s.spec t.spec

/-- Routing the events of an activity is routine if placing timers is, and routing the other events
from the node where the activity leads on. -/
theorem ensures_routeBoundary_routine [Wiring R] [Clearing R]
    {P : Net.NodeId → Net.NodeId → State → Prop}
    (timer : ∀ d n, Relates (Routine R) (placeTimer job d n true))
    (host : ∀ y t, scope.map.find? n = some y → Routine R s t → P y y t)
    (split : ∀ y t, P y y t → Ensures (fun _ => True) (splitExclusively scope.net y) t (P y))
    (others : ∀ y source t (events : List Diagram.NodeId), P y source t → Ensures (fun _ => True)
      (events.forM (routeOther job scope n y source)) t fun _ u => Routine R t u) :
    Ensures (fun _ => True) (routeBoundary job scope n) s fun _ t => Routine R s t := by
  unfold routeBoundary
  rw [ensures_bind, ensures_spec]
  split
  · exact routine_of_same rfl rfl
  · rename_i y found
    have here := (Option.filter_eq_some_iff.mp found).1
    refine (routine_requireActivity (R := R) s).seq fun activity s₁ first => ?_
    dsimp only
    generalize activity.attached.partition (isTimer job) = events
    obtain ⟨timed, untimed⟩ := events
    have routed : ∀ source t, Routine R s t → P y source t → Ensures (fun _ => True) (do
        untimed.forM (routeOther job scope n y source)
        if timed.isEmpty then return scope
        routeTimers job scope y timed) t fun _ u => Routine R s u := by
      intro source t routine leads
      refine (others y source t untimed leads).seq fun _ u next => ?_
      split
      · exact routine.trans next
      · refine (routine_routeTimers_of timer u).mono fun _ _ last => ?_
        exact routine.trans (next.trans last)
    have start := host y s₁ here first
    split
    · rw [ensures_bind, ensures_pure]
      exact routed y s₁ first start
    · refine ((routine_splitExclusively (R := R)).and_ensures (split y s₁ start)).seq ?_
      rintro source s₂ ⟨second, leads⟩
      exact routed source s₂ (first.trans second) leads

/-- Routing the events of all activities is routine if it is for each one. -/
theorem ensures_routeHosts_routine [Std.Refl R] [IsTrans Specification R]
    {P : Scope → State → Prop} {hosts : List Diagram.NodeId}
    (turn : ∀ n scope s, IsHost job n → s.spec.WellFormed → Mapped job s.spec scope → P scope s →
      Ensures (fun _ => True) (routeBoundary job scope n) s fun _ t => Routine R s t)
    (keeps : ∀ n scope scope' s t, HostRouted job n scope scope' s t → P scope s → P scope' t)
    (areHosts : ∀ n ∈ hosts, IsHost job n) (wf : s.spec.WellFormed)
    (mapped : Mapped job s.spec scope) (holds : P scope s) :
    Ensures (fun _ => True) (hosts.foldlM (routeBoundary job) scope) s fun _ t =>
      Routine R s t := by
  induction hosts generalizing scope s with
  | nil => exact .refl s
  | cons n rest ih =>
    rw [List.foldlM_cons]
    have isHost := areHosts n List.mem_cons_self
    refine ((ensures_routeBoundary wf mapped isHost).and
      (turn n scope s isHost wf mapped holds)).seq ?_
    rintro scope' t ⟨routed, first⟩
    have wft := routed.routed.rewired.steps.wellFormed wf
    refine (ih (fun k hk => areHosts k (List.mem_cons_of_mem _ hk)) wft routed.routed.mapped
      (keeps n scope scope' s t routed holds)).mono ?_
    exact fun _ _ => first.trans

/-- What holds across the boundary events of a net, holds while the net is finished. -/
theorem Course.change [Wiring R] [Clearing R] {scope' : Scope}
    {terminations : List Diagram.NodeId} {s₁ s₂ s₃ : State}
    (course : Course job container scope scope' terminations s s₁ s₂ s₃ t)
    (route : Routine R s₁ s₂) : R s.spec t.spec := by
  have link : Routine R s s₁ := routine_linkAll.of_run course.stages.link
  have loop : Routine R s₂ s₃ := routine_loopAll.of_run course.stages.loop
  have terminate : Routine R s₃ t := routine_terminateAll.of_run course.stages.terminate
  exact (link.trans (route.trans (loop.trans terminate))).change

/-- The relation holds across the making of nets for subprocesses. -/
def NestsWithin (R : Specification → Specification → Prop) (job : Job) (nested : Nested) : Prop :=
  ∀ build, nested = some build → ∀ n s, Ready job (.subprocess n) s →
    Ensures (fun _ => True) (build n) s fun _ t => R s.spec t.spec

/-! ### Laying out -/

theorem Routine.weaken {R' : Specification → Specification → Prop}
    (weaker : ∀ {s t}, R s t → R' s t) (h : Routine R s t) : Routine R' s t :=
  ⟨weaker h.change, h.finished⟩

theorem LayingStages.mono {R' : Specification → Specification → Prop} (h : LayingStages R job)
    (weaker : ∀ {s t}, R s t → R' s t) : LayingStages R' job where
  openNet container s := (h.openNet container s).mono fun _ _ => .weaken weaker
  counterpart flat s := (h.counterpart flat s).mono fun _ _ => .weaken weaker
  subprocess isActivity stored :=
    (h.subprocess isActivity stored).mono fun _ _ => .weaken weaker
  foldAll scope s := (h.foldAll scope s).mono fun _ _ => .weaken weaker
  closeConditions scope s := (h.closeConditions scope s).mono fun _ _ => .weaken weaker

namespace LayingStages

variable [Std.Refl R] [IsTrans Specification R] (stages : LayingStages R job)
include stages

/-- The relation holds across what is done once all nodes are placed. -/
theorem finish (scope : Scope) : Relates (Routine R) (do
    let scope ← Compile.foldAll job scope
    Compile.closeConditions scope
    return scope) :=
  .bind (stages.foldAll scope) fun _ => .bind (stages.closeConditions _) fun _ => .pure _

variable (nests : Nests (fun _ => True) (fun _ _ => True) job nested)
  (within : NestsWithin R job nested)
include nests within

theorem placeChild {done : List Diagram.NodeId}
    (laying : Laying job done scope.gateways scope s) :
    Ensures (fun _ => True) (placeChild job nested scope n) s fun _ t => R s.spec t.spec := by
  have found : ∀ hosts, Ensures (fun _ => True)
      (Compile.counterpart job nested { scope with hosts } n) s fun _ t => R s.spec t.spec := by
    intro hosts
    have flatly : (nested = none ∨ ∀ activity children,
        (job.diagram.node n).kind ≠ .subprocess activity children) →
        Ensures (fun _ => True) (Compile.counterpart job nested { scope with hosts } n) s
          fun _ t => R s.spec t.spec := fun flat =>
      (stages.counterpart flat s).mono fun _ t => Routine.change
    cases nested with
    | none => exact flatly (.inl rfl)
    | some build =>
      by_cases isSubprocess : ∃ activity children,
          (job.diagram.node n).kind = .subprocess activity children
      · obtain ⟨activity, children, kind⟩ := isSubprocess
        rw [counterpart_of_subprocess kind]
        have later : 0 < s.spec.decompositions.size := Nat.zero_lt_of_lt laying.stored
        have ready : Ready job (.subprocess n) s :=
          ⟨laying.wf, laying.clear, later, activity, children, kind⟩
        have isActivity : (job.diagram.node n).kind.activity? = some activity := by
          rw [kind]
          rfl
        refine ((within build rfl n s ready).and
          (nests build rfl n s laying.wf laying.clear later ⟨activity, children, kind⟩)).seq ?_
        rintro subnet t ⟨inside, _, _, stored, _⟩
        refine (stages.subprocess isActivity stored).seq fun _ u outside => ?_
        exact IsTrans.trans _ _ _ inside outside.change
      · exact flatly (.inr fun activity children kind => isSubprocess ⟨activity, children, kind⟩)
  refine (ensures_placeChild_found (R := R) (fun _ => Std.Refl.refl _) found).mono ?_
  rintro _ u ⟨_, t, inside, _, outside⟩
  exact IsTrans.trans _ _ _ inside outside.change

theorem placeChildren {children : List Diagram.NodeId} (laying : Laying job [] [] { net := d } s) :
    Ensures (fun _ => True) (children.foldlM (Compile.placeChild job nested) { net := d }) s
      fun _ t => R s.spec t.spec := by
  refine (ensures_placeChildren_of_child (P := fun _ _ t => R s.spec t.spec) local_anyhow nests
    laying children (Std.Refl.refl s.spec) ?_).mono fun _ _ placed => placed.2.2.2.2
  intro done n scope t _ laid before
  exact (stages.placeChild nests within laid).mono fun _ _ more _ _ => IsTrans.trans _ _ _ before more

theorem layOut (ready : Ready job container s) :
    Ensures (fun _ => True) (layOut job nested container) s fun _ t => R s.spec t.spec := by
  unfold Compile.layOut
  refine ((stages.openNet container s).and (ensures_openNet ready.opens)).seq ?_
  rintro d s₁ ⟨first, opened⟩
  refine (stages.placeChildren nests within (opened.laying ready.wf ready.clear)).seq ?_
  intro scope s₂ second
  refine (stages.finish scope s₂).mono fun _ _ last => ?_
  exact IsTrans.trans _ _ _ first.change (IsTrans.trans _ _ _ second last.change)

end LayingStages

namespace Stagewise

variable [Std.Refl R] [IsTrans Specification R] (stages : Stagewise R job)
include stages

theorem assemble (levels : Nat) (within : NestsWithin R job (nestedBelow job levels))
    (ready : Ready job container s) :
    Ensures (fun _ => True) (assemble job (nestedBelow job levels) container) s fun _ t =>
      R s.spec t.spec := by
  have nests := nests_weak job levels
  refine (ensures_assemble_course ready).mono ?_
  rintro _ v ⟨scope, u, _, _, s₀, _, _, _, t, laying, binding, course, _, spec⟩
  have first : R s.spec u.spec := (stages.layOut nests within ready).of_ok laying
  obtain ⟨_, _, _, laid, _⟩ :=
    (ensures_layOut local_anyhow nests ready.wf ready.clear ready.opens).of_ok laying
  have second : Routine R u s₀ := (stages.bindData laid).of_ok binding
  rw [spec]
  exact IsTrans.trans _ _ _ first (IsTrans.trans _ _ _ second.change (stages.course course))

theorem build (ready : Ready job container s) :
    Ensures (fun _ => True) (build job levels container) s fun _ t => R s.spec t.spec := by
  induction levels generalizing container s with
  | zero => exact stages.assemble 0 nofun ready
  | succ levels ih =>
    refine stages.assemble (levels + 1) ?_ ready
    rintro _ ⟨⟩ n s ready
    exact ih ready

theorem nestsWithin (levels : Nat) : NestsWithin R job (nestedBelow job levels) := by
  cases levels with
  | zero => exact nofun
  | succ levels =>
    rintro _ ⟨⟩ n s ready
    exact stages.build ready

/-- What holds across the stages of each net holds up to each call. -/
theorem called {index : Nat} (call : Calls job index levels container s) :
    R (initialState job index).spec s.spec := by
  induction call with
  | pool => exact Std.Refl.refl _
  | nested outer opened order placed kind ih =>
    have ready := outer.ready
    have begun := (ensures_openNet (E := fun _ => True) ready.opens).of_ok opened
    have first := (stages.openNet _ _).of_ok opened
    have second := (stages.placeChildren (nests_weak job _) (stages.nestsWithin _)
      (begun.laying ready.wf ready.clear)).of_ok placed
    exact IsTrans.trans _ _ _ ih (IsTrans.trans _ _ _ first.change second)

/-- What holds across the stages of each net holds up to where it is laid out. -/
theorem laid {index : Nat} (call : Calls job index levels container s)
    (laying : (Compile.layOut job (nestedBelow job levels) container).run.run s =
      (.ok scope, t)) : R (initialState job index).spec t.spec :=
  IsTrans.trans _ _ _ (stages.called call) ((stages.layOut (nests_weak job levels)
    (stages.nestsWithin levels) call.ready).of_ok laying)

/-- What holds across the stages of each net holds across a compilation. -/
theorem compile {index : Int} (h : compile job index = .ok s) :
    R (initialState job index.toNat).spec s.spec := by
  have running : Ensures (fun _ => True) (compilePool job index.toNat)
      (initialState job index.toNat) fun _ t =>
        R (initialState job index.toNat).spec t.spec := by
    unfold compilePool
    dsimp only
    rw [ensures_bind, ensures_spec]
    refine (ensures_quiet_tell.and_result (routine_tell (R := Eq) _)).seq ?_
    rintro _ s₁ ⟨quiet, same, _⟩
    rw [same]
    exact (stages.build (.of_initial quiet)).seq fun d t holds => holds
  exact running.of_ok (run_of_compile h)

end Stagewise

end ProcessNets.Compile
