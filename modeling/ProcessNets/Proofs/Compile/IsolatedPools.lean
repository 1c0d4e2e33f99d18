import ProcessNets.Proofs.Compile.Calls
import ProcessNets.Proofs.Compile.Finishing
import ProcessNets.Proofs.Compile.Redrawn

/-!
# Isolated pools

A pool is compiled as if it stood alone: if the diagram changes elsewhere, the run for the pool
stays the same, with every id and every event that it tells.
-/

namespace ProcessNets.Compile

open Net Specification
open Diagram (ChangedElsewhere EventsApart)

variable {job : Job} {d' : ProcessNets.Diagram} {pool : Nat} {kept : Diagram.NodeId → Bool}
  {n : Diagram.NodeId} {nested nested' : Nested} {scope scope' linked : Scope}
  {container : Diagram.Container} {s s₁ s₂ s₃ t : State} {levels : Nat}

/-! ### Placing nodes -/

/-- Subprocesses of the pool get the same nets. -/
inductive SameNets (job : Job) (pool : Nat) : Nested → Nested → Prop
  | limit : SameNets job pool none none
  | nets {build build' : Diagram.NodeId → Compile DecompositionId}
      (same : ∀ n s, job.diagram.Contained pool n → Ready job (.subprocess n) s →
        (build' n).run.run s = (build n).run.run s) :
      SameNets job pool (some build') (some build)

/-- Only subprocesses need nets of their own. -/
theorem counterpart_of_flat (flat : ∀ activity children,
    (job.diagram.node n).kind ≠ .subprocess activity children) :
    counterpart job nested' scope n = counterpart job nested scope n := by
  unfold counterpart
  cases kind : (job.diagram.node n).kind with
  | subprocess activity children => exact absurd kind (flat activity children)
  | endEvent x | intermediate x | gateway x => cases x <;> rfl
  | _ => rfl

section
variable (same : SameNets job pool nested' nested) (contained : job.diagram.Contained pool n)
include same contained

theorem run_counterpart_congr (ready : ∀ activity children,
    (job.diagram.node n).kind = .subprocess activity children → Ready job (.subprocess n) s) :
    (counterpart job nested' scope n).run.run s = (counterpart job nested scope n).run.run s := by
  cases same with
  | limit => rfl
  | nets same =>
    by_cases isSubprocess : ∃ activity children,
        (job.diagram.node n).kind = .subprocess activity children
    · obtain ⟨activity, children, kind⟩ := isSubprocess
      rw [counterpart_of_subprocess kind, counterpart_of_subprocess kind]
      exact run_bind_congr (same n s contained (ready _ _ kind)) (.anyhow fun _ _ => trivial)
        fun _ _ _ => rfl
    · rw [counterpart_of_flat fun activity children kind => isSubprocess ⟨activity, children, kind⟩]

theorem run_placeChild_congr {done : List Diagram.NodeId}
    (laying : Laying job done scope.gateways scope s) :
    (placeChild job nested' scope n).run.run s = (placeChild job nested scope n).run.run s := by
  have ready : ∀ activity children, (job.diagram.node n).kind = .subprocess activity children →
      Ready job (.subprocess n) s := fun activity children kind =>
    ⟨laying.wf, laying.clear, Nat.zero_lt_of_lt laying.stored, activity, children, kind⟩
  have placing : ∀ hosts, (place job nested' { scope with hosts } n).run.run s =
      (place job nested { scope with hosts } n).run.run s := fun hosts =>
    run_bind_congr (run_counterpart_congr same contained ready) (.anyhow fun _ _ => trivial)
      fun _ _ _ => rfl
  unfold placeChild
  dsimp only
  by_cases isAttached : (job.diagram.node n).kind.isAttached = true
  · rw [if_pos isAttached, if_pos isAttached]
  · rw [if_neg isAttached, if_neg isAttached]
    exact run_bind_congr (placing _) (.anyhow fun _ _ => trivial) fun _ _ _ => rfl

end

/-! ### Whole nets -/

section
variable (h : ChangedElsewhere job.diagram d' pool kept)
include h

theorem run_foldAll_redrawn (laying : Laying job (job.diagram.children container) scope.gateways
    scope s) (within : job.diagram.Within pool container) :
    (foldAll (job.redrawn d') scope).run.run s = (foldAll job scope).run.run s := by
  unfold foldAll
  refine run_foldlM_congr (fun done scope' t => Laying job (job.diagram.children container)
    (scope.gateways.drop done.length) scope' t) ?_ laying
  intro done n rest scope' t all laid
  have waiting : scope.gateways.drop done.length = n :: rest := by rw [← all]; simp
  have waiting' : scope.gateways.drop (done ++ [n]).length = rest := by rw [← all]; simp
  have inside : MapsInside job pool scope' := fun k isMapped => within.child (laid.keys k isMapped)
  have here : n ∈ scope.gateways := by rw [← all]; simp
  obtain ⟨listed, gateway⟩ := laying.gateways n here
  rw [waiting] at laid
  refine ⟨?_, ?_⟩
  · rw [fold_redrawn h (within.child listed) inside]
  · refine (ensures_fold laid listed gateway local_anyhow).seq ?_
    rintro folded u ⟨y, result, _, laid'⟩
    rw [ensures_pure, result, waiting']
    exact laid'

theorem run_layOut_redrawn (same : SameNets job pool nested' nested)
    (nests : Nests (fun _ => True) (fun _ _ => True) job nested)
    (within : job.diagram.Within pool container) (ready : Ready job container s) :
    (layOut (job.redrawn d') nested' container).run.run s =
      (layOut job nested container).run.run s := by
  unfold layOut
  rw [openNet_redrawn h within, h.children within]
  refine run_bind_congr rfl (ensures_openNet ready.opens) fun d t opened => ?_
  have laying : Laying job [] [] { net := d } t := opened.laying ready.wf ready.clear
  refine run_bind_congr (run_foldlM_congr (fun done scope t => Laying job done scope.gateways scope t)
    ?_ laying) (ensures_placeChildren local_anyhow nests laying _) ?_
  · intro done n rest scope t all laying
    have child : n ∈ job.diagram.children container := by rw [← all]; simp
    have contained := within.child child
    refine ⟨?_, (ensures_placeChild local_anyhow nests laying).mono fun _ _ placed => placed.2.2.2⟩
    rw [placeChild_redrawn h contained]
    exact run_placeChild_congr same contained laying
  · rintro scope u ⟨_, _, _, laid, _⟩
    exact run_bind_congr (run_foldAll_redrawn h laid within) (.anyhow fun _ _ => trivial)
      fun _ _ _ => rfl

theorem run_loopAll_redrawn
    (inside : ∀ n ∈ loopsAt s scope.net, job.diagram.Contained pool n) :
    (loopAll (job.redrawn d') scope).run.run s = (loopAll job scope).run.run s := by
  have taken : Ensures (fun _ => True) (takeLooping scope.net) s fun nodes _ =>
      nodes = loopsAt s scope.net := rfl
  unfold loopAll
  refine run_bind_congr rfl taken ?_
  rintro _ t rfl
  rw [forM_congr fun n mem => loopActivity_redrawn h (inside n mem)]

end

theorem Stages.refine (stages : Stages job scope linked scope' s s₁ s₂ s₃ t) :
    (refine job linked).run.run s₁ = (.ok scope', t) := by
  unfold Compile.refine
  rw [run_bind_ok stages.route, run_bind_ok stages.loop, run_bind_ok stages.terminate]
  rfl

section
variable (h : ChangedElsewhere job.diagram d' pool kept)
  (events : EventsApart job.diagram d' pool kept)
include h events

theorem Course.redrawn {terminations : List Diagram.NodeId}
    (course : Course job container scope scope' terminations s s₁ s₂ s₃ t)
    (within : job.diagram.Within pool container) :
    Stages (job.redrawn d') scope { scope with terminations } scope' s s₁ s₂ s₃ t := by
  have inside : MapsInside job pool scope := fun n isMapped =>
    within.child (course.laid.keys n isMapped)
  refine ⟨?_, ?_, ?_, course.stages.terminate⟩
  · rw [linkAll_redrawn h inside]
    exact course.stages.link
  · rw [routeAll_redrawn h events fun k host => ?_]
    · exact course.stages.route
    · replace host : k ∈ scope.hosts := host
      rw [course.laid.hosts] at host
      exact within.child (List.mem_filter.mp host).1
  · rw [run_loopAll_redrawn h fun n mem => ?_]
    · exact course.stages.loop
    · obtain ⟨isMapped, loops⟩ := course.registered.mp mem
      rw [course.same (not_timer_of_loops loops)] at isMapped
      exact inside n isMapped

theorem run_assemble_redrawn
    (same : SameNets job pool (nestedBelow (job.redrawn d') levels) (nestedBelow job levels))
    (within : job.diagram.Within pool container) (ready : Ready job container s) :
    (assemble (job.redrawn d') (nestedBelow (job.redrawn d') levels) container).run.run s =
      (assemble job (nestedBelow job levels) container).run.run s := by
  have nests := nests_weak job levels
  unfold assemble
  refine run_bind_congr (run_layOut_redrawn h same nests within ready)
    (ensures_layOut local_anyhow nests ready.wf ready.clear ready.opens).traced ?_
  rintro scope t ⟨laying, _, _, _, laid, free⟩
  have inside : MapsInside job pool scope := fun n isMapped =>
    within.child (laid.keys n isMapped)
  have binding : Ensures (fun _ => True) (bindData job container scope) t fun _ u =>
      Quiet t u ∧ Routine (Minor fun _ _ => False) t u :=
    (ensures_bindData fun _ _ => trivial).and_result (routine_bindData t)
  rw [bindData_redrawn h within inside]
  refine run_bind_congr rfl binding.traced ?_
  rintro _ u ⟨bound, quiet, minor⟩
  have prepared : Prepared job container scope u := ⟨levels, s, t, ready, laying, bound⟩
  obtain ⟨scope', v, _, terminations, u₁, u₂, u₃, course⟩ := (ensures_course prepared
    (laid.quiet quiet) (free.minor minor.change)).exists_run
  have stages := course.redrawn h events within
  rw [run_bind_ok stages.link, run_bind_ok stages.refine, run_bind_ok course.stages.link,
    run_bind_ok course.stages.refine]

theorem run_build_redrawn (within : job.diagram.Within pool container)
    (ready : Ready job container s) :
    (build (job.redrawn d') levels container).run.run s = (build job levels container).run.run s := by
  induction levels generalizing container s with
  | zero =>
    rw [build_eq, build_eq]
    exact run_assemble_redrawn h events .limit within ready
  | succ levels ih =>
    rw [build_eq, build_eq]
    exact run_assemble_redrawn h events (.nets fun n s contained => ih contained) within ready

end

/-! ### Pools -/

/-- A change elsewhere in the diagram, by nodes that are joined neither to a node of the pool nor to
an event at one, makes no difference to the pool: the specification, with its ids, and all else that
a run leaves stay the same. -/
theorem pool_isolated (changed : ChangedElsewhere job.diagram d' pool kept)
    (events : EventsApart job.diagram d' pool kept) :
    compile (job.redrawn d') pool = compile job pool := by
  have start : initialState (job.redrawn d') pool = initialState job pool := by
    unfold initialState
    dsimp only
    rw [changed.typeDefinition]
  have running : (compilePool (job.redrawn d') pool).run (initialState job pool) =
      (compilePool job pool).run (initialState job pool) := by
    unfold compilePool
    dsimp only
    rw [changed.same]
    have started : Ensures (fun _ => True) spec (initialState job pool) fun _ t =>
        t = initialState job pool := rfl
    refine run_bind_congr rfl started ?_
    rintro start _ rfl
    refine run_bind_congr rfl ensures_quiet_tell fun _ s quiet => ?_
    exact run_bind_congr (run_build_redrawn changed events rfl (.of_initial quiet))
      (.anyhow fun _ _ => trivial) fun _ _ _ => rfl
  unfold compile
  have inRange : 0 ≤ (pool : Int) ∧ (pool : Int) < job.diagram.pools.size :=
    ⟨Int.natCast_nonneg pool, Int.ofNat_lt.mpr changed.stored.1⟩
  have inRange' : 0 ≤ (pool : Int) ∧ (pool : Int) < d'.pools.size :=
    ⟨Int.natCast_nonneg pool, Int.ofNat_lt.mpr changed.stored.2⟩
  rw [if_pos inRange, if_pos inRange', Int.toNat_natCast, start, running]

/-- A task that reads a data object and has a handler for errors, next to a pool with data of its
own. -/
def neighboured : Job where
  diagram :=
    let drawn := sketch [.startEvent, .task { attached := [⟨5⟩] } {}, .endEvent .plain,
      .task {} {}, .dataObject "string" "", .intermediate .error (some ⟨1⟩),
      .task {} {}, .dataObject "string" ""] [(0, 1), (1, 2), (5, 3), (3, 2)]
    let related := ((drawn.associate ⟨4⟩ ⟨1⟩).2.associate ⟨7⟩ ⟨6⟩).2
    { related with
      pools := #[{ id := "P", children := [⟨0⟩, ⟨1⟩, ⟨2⟩, ⟨3⟩] }, { id := "Q", children := [⟨6⟩] }]
      dataObjects := [⟨7⟩, ⟨4⟩] }

/-- The other pool got new nodes, the data there went, and one more pool came. -/
def otherNeighbours : ProcessNets.Diagram :=
  let drawn := sketch [.startEvent, .task { attached := [⟨5⟩] } {}, .endEvent .plain,
    .task {} {}, .dataObject "string" "", .intermediate .error (some ⟨1⟩),
    .startEvent, .endEvent .plain, .task {} {}] [(0, 1), (6, 7), (1, 2), (5, 3), (3, 2)]
  { (drawn.associate ⟨4⟩ ⟨1⟩).2 with
    pools := #[{ id := "P", children := [⟨0⟩, ⟨1⟩, ⟨2⟩, ⟨3⟩] },
      { id := "R", children := [⟨6⟩, ⟨7⟩] }, { id := "S", children := [⟨8⟩] }]
    dataObjects := [⟨4⟩] }

theorem pool_isolated_neighboured :
    (compile neighboured 0).toOption.isSome = true ∧
      compile (neighboured.redrawn otherNeighbours) 0 = compile neighboured 0 := by
  have change : neighboured.diagram.FlatChange otherNeighbours 0
    [⟨0⟩, ⟨1⟩, ⟨2⟩, ⟨3⟩, ⟨4⟩, ⟨5⟩] := by decide +kernel
  have events := change.eventsApart (by decide +kernel)
  exact ⟨by decide +kernel, pool_isolated change.changedElsewhere events⟩

/-- An event at a task of the pool, that is not in the pool itself, leads first to another pool, then
to a handler. -/
def ledAstray : Job where
  diagram := {
    sketch [.startEvent, .task { attached := [⟨4⟩] } {}, .endEvent .plain, .task {} {},
      .intermediate .error (some ⟨1⟩), .task {} {}] [(0, 1), (1, 2), (4, 5), (4, 3), (3, 2)] with
    pools := #[{ id := "P", children := [⟨0⟩, ⟨1⟩, ⟨2⟩, ⟨3⟩] }, { id := "Q", children := [⟨5⟩] }] }

/-- The other pool went. -/
def ledHome : ProcessNets.Diagram := {
  sketch [.startEvent, .task { attached := [⟨4⟩] } {}, .endEvent .plain, .task {} {},
    .intermediate .error (some ⟨1⟩)] [(0, 1), (1, 2), (4, 3), (3, 2)] with
  pools := #[{ id := "P", children := [⟨0⟩, ⟨1⟩, ⟨2⟩, ⟨3⟩] }, { id := "Q" }] }

/-- Nodes that are joined to an event at the pool can make a difference. -/
theorem pool_not_isolated : ¬∀ (job : Job) (d' : ProcessNets.Diagram) (pool : Nat)
    (kept : Diagram.NodeId → Bool), ChangedElsewhere job.diagram d' pool kept →
      compile (job.redrawn d') pool = compile job pool := by
  intro all
  have change : ledAstray.diagram.FlatChange ledHome 0 [⟨0⟩, ⟨1⟩, ⟨2⟩, ⟨3⟩, ⟨4⟩] := by
    decide +kernel
  have same : compile (ledAstray.redrawn ledHome) 0 = compile ledAstray 0 :=
    all ledAstray ledHome 0 _ change.changedElsewhere
  have routed : (compile (ledAstray.redrawn ledHome) 0).toOption.map (·.spec.edges.size) ≠
      (compile ledAstray 0).toOption.map (·.spec.edges.size) := by decide +kernel
  exact routed (by rw [same])

end ProcessNets.Compile
