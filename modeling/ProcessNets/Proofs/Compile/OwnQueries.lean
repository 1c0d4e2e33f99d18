import ProcessNets.Proofs.Compile.JustifiedFlags
import ProcessNets.Proofs.Compile.MappedVariables

/-!
# Variables that tasks write back

When a task completes, each of its mappings writes the variable back that it is about, or sets the
flag of an error. Only hosts copy other data, once the events on their boundary are routed. So up to
that stage of a net its tasks write back what they map, whatever nets are made in between.
-/

namespace ProcessNets.Compile

open Net Specification

variable {job : Job} {container : Diagram.Container} {nested : Nested} {scope scope' : Scope}
  {terminations : List Diagram.NodeId} {s s₁ s₂ s₃ t u : State} {spec spec' spec'' : Specification}
  {d inner : DecompositionId} {except : Option DecompositionId} {n event : Diagram.NodeId}
  {x y host source : Net.NodeId} {activity : Diagram.Activity} {v : Variable} {query : String}
  {m : Mapping} {levels : Nat}

/-- The mapping writes the variable back that it is about, or sets a flag. -/
def OwnQuery (spec : Specification) (y : Net.NodeId) (m : Mapping) : Prop :=
  m.query = variableQuery (spec.node y).id m.target.name ∨
    ∃ source, NamesSource source ∧ m.query = constantQuery (innerFlag source) "true"

/-- When the task completes, it writes back what it maps. -/
def WritesOwn (spec : Specification) (y : Net.NodeId) : Prop :=
  ∀ m ∈ spec.completed y, OwnQuery spec y m

theorem WritesOwn.of_new (new : spec.nodes.size ≤ y.index) : WritesOwn spec y := by
  intro m mem
  rw [completed_eq_nil new] at mem
  cases mem

theorem OwnQuery.enlarged (h : OwnQuery spec y m) (larger : Enlarged spec spec')
    (stored : y.index < spec.nodes.size) : OwnQuery spec' y m := by
  unfold OwnQuery
  rw [larger.id stored]
  exact h

/-! ### Owning changes -/

/-- A larger specification where tasks write back what they map if they did before, but perhaps for
the tasks of the excepted net. -/
structure Owning (except : Option DecompositionId) (spec spec' : Specification) : Prop
    extends Enlarged spec spec' where
  writesOwn : ∀ y, (∀ d ∈ except, y ∉ (spec'.decomposition d).nodes) → WritesOwn spec y →
    WritesOwn spec' y

namespace Owning

theorem of_completed (larger : Enlarged spec spec')
    (completed : ∀ y, (∀ d ∈ except, y ∉ (spec'.decomposition d).nodes) →
      ∀ m ∈ spec'.completed y, m ∈ spec.completed y ∨ OwnQuery spec' y m) :
    Owning except spec spec' := by
  refine ⟨larger, fun y apart own m mem => ?_⟩
  rcases completed y apart m mem with old | new
  · exact (own m old).enlarged larger (stored_of_completed old)
  · exact new

theorem of_sameMappings (h : SameMappings spec spec') : Owning except spec spec' :=
  .of_completed h.toEnlarged fun _ _ _ mem => .inl (h.completed _ ▸ mem)

instance : Std.Refl (Owning except) :=
  ⟨fun spec => of_sameMappings (Std.Refl.refl spec)⟩

theorem trans (h : Owning except spec spec') (h' : Owning except spec' spec'') :
    Owning except spec spec'' :=
  ⟨h.toEnlarged.trans h'.toEnlarged, fun y apart own =>
    h'.writesOwn y apart (h.writesOwn y (fun d isExcept mem => apart d isExcept (h'.mem mem)) own)⟩

instance : IsTrans Specification (Owning except) :=
  ⟨fun _ _ _ => trans⟩

instance : Incidental (Owning except) :=
  SameMappings.incidental of_sameMappings

instance : Wiring (Owning except) :=
  SameMappings.wiring of_sameMappings

instance : Clearing (Owning except) :=
  SameMappings.clearing of_sameMappings

theorem modifyTask {g : Task → Task} (completed : (∀ d ∈ except, y ∉ (spec.decomposition d).nodes) →
    ∀ t, ∀ m ∈ (g t).completed, m ∈ t.completed ∨ OwnQuery spec y m) :
    Owning except spec (spec.modifyTask y g) := by
  have larger : Enlarged spec (spec.modifyTask y g) := .modifyTask
  refine .of_completed larger fun z apart m mem => ?_
  rcases kind_modifyTask (s := spec) (g := g) y z with same | ⟨rfl, task, before, after⟩
  · unfold Specification.completed at mem ⊢
    rw [same] at mem
    exact .inl mem
  · have stored : z.index < spec.nodes.size := by
      refine Nat.lt_of_not_le fun beyond => ?_
      rw [node_eq_blank beyond] at before
      cases before
    unfold Specification.completed at mem ⊢
    rw [after] at mem
    rw [before]
    exact (completed apart task m mem).imp_right fun own => own.enlarged larger stored

end Owning

/-! ### Placing nodes -/

theorem owning_addStarting : Relates (Owning except) (Edit.addStarting y query v) := by
  unfold Edit.addStarting
  refine .bind Edit.relates_requireTask fun task => ?_
  exact .bind (.modify fun _ => .modifyTask fun _ _ _ => .inl) fun _ => .pure _

theorem owning_addCompleted (except : Option DecompositionId)
    (own : (∀ d ∈ except, y ∉ (s.spec.decomposition d).nodes) → OwnQuery s.spec y ⟨query, v⟩) :
    Ensures (fun _ => True) (edit (.addCompleted y query v)) s fun _ t =>
      Routine (Owning except) s t := by
  apply ensures_edit
  unfold Edit.addCompleted
  refine (Edit.relates_requireTask (R := Eq) s.spec).seq ?_
  rintro _ _ rfl
  rw [ensures_bind, ensures_modify, ensures_pure]
  refine ⟨.modifyTask fun apart t m mem => ?_, rfl⟩
  rcases mem_addMapping mem with old | rfl
  · exact .inl old
  · exact .inr (own apart)

theorem Exposed.owning (h : Exposed activity d y spec spec')
    (stored : y.index < spec.nodes.size) : Owning except spec spec' := by
  refine .of_completed h.toEnlarged fun z _ m mem => ?_
  by_cases same : z = y
  · subst same
    have isCompleted : m ∈ mappings spec' .finish z := mem
    have query := h.query isCompleted
    refine .inr (.inl ?_)
    rw [h.id stored]
    exact query
  · have kept : spec'.completed z = spec.completed z := h.others .finish z same
    exact .inl (kept ▸ mem)

theorem owning_placeActivity {subnet : Option DecompositionId}
    (isActivity : (job.diagram.node n).kind.activity? = some activity)
    (stored : ∀ inner, subnet = some inner → inner.index < s.spec.decompositions.size) :
    Ensures (fun _ => True) (placeActivity job d n activity subnet) s fun _ t =>
      Routine (Owning except) s t := by
  have enlarging : Relates (Routine Enlarged) (placeActivity job d n activity subnet) :=
    routine_placeActivity fun _ _ _ _ => .modifyTask
  refine (enlarging.and_ensures (ensures_placeActivity_exposed isActivity stored)).mono ?_
  rintro _ t ⟨routine, rfl, exposed⟩
  have new : s.spec.nodes.size < (s.spec.addNode d (activityNode job n s.count)).nodes.size := by
    rw [nodes_size_addNode]
    exact Nat.lt_succ_self _
  exact ⟨Owning.trans (Structural.node .task) (exposed.owning new), routine.finished⟩

theorem owning_placeTimer {attached : Bool} :
    Relates (Routine (Owning except)) (placeTimer job d n attached) :=
  routine_placeTimer_of fun _ _ _ => owning_addStarting

/-- Laying out a net, apart from the making of other nets. -/
theorem layingStages_owning : LayingStages (Owning except) job where
  openNet container := routine_openNet_of fun id isRoot s => by
    rw [Edit.ensures_createDecomposition]
    exact .of_sameMappings (.of_kinds (.addDecomposition rfl) fun _ => ⟨rfl, rfl⟩)
  counterpart := routine_counterpart_of (fun _ isActivity _ => owning_placeActivity isActivity nofun)
    owning_placeTimer
  subprocess isActivity stored := owning_placeActivity isActivity fun _ same => by
    cases same
    exact stored
  foldAll _ := routine_foldAll
  closeConditions _ := routine_closeConditions Wiring.edges

/-! ### Data objects -/

theorem owning_bindReader : Relates (Routine (Owning except)) (bindReader query v y) := by
  unfold bindReader
  refine .bind routine_spec fun s => ?_
  split
  · exact .pure _
  · refine .bind (routine_edit owning_addStarting) fun _ => ?_
    split
    · exact .pure _
    · exact .bind (routine_edit Edit.relates_declareVariable) fun _ => .pure _

theorem owning_bindWriter : Relates (Routine (Owning except)) (bindWriter v y) := by
  intro s
  unfold bindWriter
  rw [ensures_bind, ensures_spec]
  split
  · exact .refl s
  · rw [ensures_bind, ensures_taskQuery_owner (d := ⟨0⟩)]
    refine (owning_addCompleted except fun _ => .inl rfl).seq fun _ t first => ?_
    split
    · exact first
    · have declaring : ∀ inner : DecompositionId, Relates (Routine (Owning except)) (do
          let _ ← edit (.declareVariable inner .outputs v)) := fun _ =>
        .bind (routine_edit Edit.relates_declareVariable) fun _ => .pure _
      exact (declaring _ t).mono fun _ _ => first.trans

theorem owning_bindDataObject : Relates (Routine (Owning except)) (bindDataObject job scope n) :=
  routine_bindDataObject_of (fun _ _ _ => owning_bindReader) fun _ _ => owning_bindWriter

theorem owning_bindData : Relates (Routine (Owning except)) (bindData job container scope) :=
  .forM fun _ _ => .bind owning_bindDataObject fun _ => .pure _

/-! ### Boundary events -/

/-- Besides the host of an error event, only the error task in what the host runs gets a mapping. -/
theorem owning_bindInnerFlag {eventId target : String}
    (mem : host ∈ (s.spec.decomposition d).nodes) (names : NamesSource (s.spec.node source).id) :
    Ensures (fun _ => True) (bindInnerFlag host source eventId target v inner) s fun _ t =>
      Routine (Owning (some d)) s t := by
  rw [bindInnerFlag_eq, ensures_bind, ensures_spec]
  refine (owning_addCompleted (some d) fun apart => (apart d rfl mem).elim).seq fun _ s₁ first => ?_
  refine (routine_ensureFlag (R := Owning (some d)) s₁).seq fun inside s₂ second => ?_
  refine (routine_edit (R := Owning (some d)) Edit.relates_declareVariable s₂).seq ?_
  intro _ s₃ third
  refine Ensures.mono (ensures_setByError_of fun task _ => ?_) fun _ _ =>
    (first.trans (second.trans third)).trans
  exact owning_addCompleted (some d) fun _ => .inr ⟨_, names, rfl⟩

theorem owning_routeError (mem : host ∈ (s.spec.decomposition scope.net).nodes)
    (isSource : IsSource s.spec source) :
    Ensures (fun _ => True) (routeError job scope host source event) s fun _ t =>
      Routine (Owning (some scope.net)) s t := by
  unfold routeError
  refine (routine_eventTarget (R := Owning (some scope.net)) s).seq fun target s₁ first => ?_
  split
  · exact first
  · dsimp only
    rw [ensures_bind, ensures_spec]
    refine (routine_linkHandler (R := Owning (some scope.net)) s₁).seq fun _ s₂ second => ?_
    refine (routine_ensureFlag (R := Owning (some scope.net)) s₂).seq fun flag s₃ third => ?_
    have before := first.trans (second.trans third)
    split
    · exact before
    · refine (owning_bindInnerFlag (before.change.mem mem) ?_).mono fun _ _ => before.trans
      rw [before.change.id isSource.stored]
      exact isSource.names

theorem owning_routeOthers {events : List Diagram.NodeId}
    (mem : host ∈ (s.spec.decomposition scope.net).nodes) (isSource : IsSource s.spec source) :
    Ensures (fun _ => True) (events.forM (routeOther job scope n host source)) s fun _ t =>
      Routine (Owning (some scope.net)) s t := by
  refine ensures_forM_done (fun _ t => Routine (Owning (some scope.net)) s t) ?_ (.refl s)
  rintro _ event _ t _ routine
  unfold routeOther
  dsimp only
  split
  · have isSource' := isSource.imp (Titled.enlarged · routine.change.toEnlarged)
      (Titled.enlarged · routine.change.toEnlarged)
    exact (owning_routeError (routine.change.mem mem) isSource').mono fun _ _ => routine.trans
  · exact routine.trans (routine_of_same rfl rfl)

theorem owning_routeBoundary (registered : Registered s.spec scope)
    (titled : TasksTitled job scope.map s.spec) (isHost : IsHost job n) :
    Ensures (fun _ => True) (routeBoundary job scope n) s fun _ t =>
      Routine (Owning (some scope.net)) s t := by
  obtain ⟨activity, isActivity, _⟩ := isHost
  refine ensures_routeBoundary_routine (P := fun y source t =>
    y ∈ (t.spec.decomposition scope.net).nodes ∧ Titled "task" t.spec y ∧
      IsSource t.spec source) (fun _ _ => owning_placeTimer) ?_ ?_ ?_
  · intro y t found routine
    have larger := routine.change.toEnlarged
    have task := (titled n y activity isActivity found).enlarged larger
    exact ⟨larger.mem (registered n y found), task, .inl task⟩
  · rintro y t ⟨mem, task, _⟩
    refine ((routine_splitExclusively (R := Enlarged)).and_ensures
      (isSource_splitExclusively task)).mono ?_
    rintro source u ⟨routine, isSource⟩
    exact ⟨routine.change.mem mem, task.enlarged routine.change, isSource⟩
  · exact fun y source t events all => owning_routeOthers all.1 all.2.2

/-- While a net takes its course, only its own tasks may get other mappings. -/
theorem Course.owning (course : Course job container scope scope' terminations s s₁ s₂ s₃ t) :
    Owning (some scope.net) s.spec t.spec := by
  refine course.change ?_
  have titled : TasksTitled job scope.map s₁.spec :=
    course.prepared.tasksTitled.grow course.linked.steps.grows
  have routing : Ensures (fun _ => True) (routeAll job { scope with terminations }) s₁
      fun _ t => Routine (Owning (some scope.net)) s₁ t := by
    refine ensures_routeHosts_routine (P := fun scope' s => scope'.net = scope.net ∧
      TasksTitled job scope'.map s.spec) ?_ ?_ (fun n => course.laid.isHost) course.wf₁
        course.mapped₁ ⟨rfl, titled⟩
    · rintro n scope' s isHost _ mapped ⟨net, titled⟩
      rw [← net]
      exact owning_routeBoundary mapped.registered titled isHost
    · rintro n scope₁ scope₂ s t routed ⟨net, titled⟩
      refine ⟨routed.routed.net.trans net, fun k y activity isActivity found => ?_⟩
      rw [routed.routed.same_of_plain (fun _ both => both.1) (not_timer_of_activity isActivity)]
        at found
      exact (titled k y activity isActivity found).grow routed.routed.rewired.steps.grows
  exact routing.of_ok course.stages.route

/-! ### Nets inside of nets -/

/-- A larger specification where the tasks from before write back what they map if they did so. -/
structure KeepsOwn (spec spec' : Specification) : Prop extends Enlarged spec spec' where
  writesOwn : ∀ y, y.index < spec.nodes.size → WritesOwn spec y → WritesOwn spec' y

theorem Owning.keepsOwn (h : Owning none spec spec') : KeepsOwn spec spec' :=
  ⟨h.toEnlarged, fun y _ => h.writesOwn y nofun⟩

instance : Std.Refl KeepsOwn :=
  ⟨fun spec => Owning.keepsOwn (Std.Refl.refl spec)⟩

instance : IsTrans Specification KeepsOwn :=
  ⟨fun _ _ _ h h' => ⟨h.toEnlarged.trans h'.toEnlarged, fun y stored own =>
    h'.writesOwn y (Nat.lt_of_lt_of_le stored h.size) (h.writesOwn y stored own)⟩⟩

theorem keepsOwn_assemble (within : NestsWithin KeepsOwn job (nestedBelow job levels))
    (ready : Ready job container s) :
    Ensures (fun _ => True) (assemble job (nestedBelow job levels) container) s fun _ t =>
      KeepsOwn s.spec t.spec := by
  have nests := nests_weak job levels
  have stages : LayingStages KeepsOwn job := layingStages_owning.mono Owning.keepsOwn
  refine (ensures_assemble_course ready).mono ?_
  rintro _ v ⟨scope, u, _, _, s₀, _, _, _, t, laying, binding, course, _, spec⟩
  have first : KeepsOwn s.spec u.spec := (stages.layOut nests within ready).of_ok laying
  have second : Routine (Owning none) u s₀ := owning_bindData.of_run binding
  have third : Owning (some scope.net) s₀.spec t.spec := course.owning
  have larger : Enlarged s.spec t.spec :=
    first.toEnlarged.trans (second.change.toEnlarged.trans third.toEnlarged)
  obtain ⟨_, opened, _⟩ :=
    (ensures_layOut local_anyhow nests ready.wf ready.clear ready.opens).of_ok laying
  rw [spec]
  refine ⟨larger, fun y stored own => ?_⟩
  -- the net is new, so no node from before is in it
  have apart : y ∉ (t.spec.decomposition scope.net).nodes := by
    intro mem
    rcases larger.origin mem with old | new
    · have stored := decomposition_stored old
      rw [opened.net] at stored
      exact Nat.lt_irrefl _ stored
    · exact Nat.not_le.mpr stored new
  refine third.writesOwn y ?_ (second.change.writesOwn y nofun (first.writesOwn y stored own))
  rintro _ ⟨⟩
  exact apart

theorem keepsOwn_build (ready : Ready job container s) :
    Ensures (fun _ => True) (build job levels container) s fun _ t => KeepsOwn s.spec t.spec := by
  induction levels generalizing container s with
  | zero =>
    have within : NestsWithin KeepsOwn job (nestedBelow job 0) := nofun
    have assembled := keepsOwn_assemble within ready
    exact assembled
  | succ levels ih =>
    have within : NestsWithin KeepsOwn job (nestedBelow job (levels + 1)) := by
      rintro _ ⟨⟩ n s ready
      exact ih ready
    have assembled := keepsOwn_assemble within ready
    exact assembled

/-! ### Nets under way -/

/-- The tasks of the net write back what they map. -/
def OwnNet (spec : Specification) (d : DecompositionId) : Prop :=
  ∀ y ∈ (spec.decomposition d).nodes, WritesOwn spec y

/-- A larger specification where the tasks of each net from before write back what they map if they
did so, those that came into the net among them. -/
structure KeepsOwnNets (spec spec' : Specification) : Prop extends Enlarged spec spec' where
  ownNet : ∀ d, d.index < spec.decompositions.size → OwnNet spec d → OwnNet spec' d

theorem Owning.keepsOwnNets (h : Owning none spec spec') : KeepsOwnNets spec spec' := by
  refine ⟨h.toEnlarged, fun d _ own y mem => h.writesOwn y nofun ?_⟩
  rcases h.origin mem with old | new
  · exact own y old
  · exact .of_new new

instance : Std.Refl KeepsOwnNets :=
  ⟨fun spec => Owning.keepsOwnNets (Std.Refl.refl spec)⟩

instance : IsTrans Specification KeepsOwnNets :=
  ⟨fun _ _ _ h h' => ⟨h.toEnlarged.trans h'.toEnlarged, fun d stored own =>
    h'.ownNet d (Nat.lt_of_lt_of_le stored h.decompositions_size) (h.ownNet d stored own)⟩⟩

/-- The making of a net inside adds no node to a net outside. -/
theorem nestsWithin_keepsOwnNets (levels : Nat) :
    NestsWithin KeepsOwnNets job (nestedBelow job levels) := by
  intro build isBuild n s ready
  have later : 0 < s.spec.decompositions.size := ready.opens.1
  have keeping : Ensures (fun _ => True) (build n) s fun _ t => KeepsOwn s.spec t.spec := by
    cases levels with
    | zero => cases isBuild
    | succ levels =>
      cases isBuild
      exact keepsOwn_build ready
  refine (keeping.and (nests_weak job levels build isBuild n s ready.wf ready.clear later
    ready.opens.2)).mono ?_
  rintro inner t ⟨keeps, progress, _⟩
  refine ⟨keeps.toEnlarged, fun d stored own y mem => ?_⟩
  rw [(progress.sameNodes stored).nodes] at mem
  exact keeps.writesOwn y (ready.wf.node_stored mem) (own y mem)

/-- When the data of a net is about to be bound, its tasks write back what they map. -/
theorem ownNet_of_layOut (ready : Ready job container s)
    (laying : (layOut job (nestedBelow job levels) container).run.run s = (.ok scope, t)) :
    OwnNet t.spec scope.net := by
  have nests := nests_weak job levels
  have owning : LayingStages (Owning none) job := layingStages_owning
  have stages : LayingStages KeepsOwnNets job := owning.mono Owning.keepsOwnNets
  have laidOut : Ensures (fun _ => True) (layOut job (nestedBelow job levels) container) s
      fun _ t => OwnNet t.spec ⟨s.spec.decompositions.size⟩ := by
    unfold layOut
    refine (ensures_openNet ready.opens).seq fun d s₁ opened => ?_
    have laying : Laying job [] [] { net := d } s₁ := opened.laying ready.wf ready.clear
    have empty : OwnNet s₁.spec d := by
      intro y mem
      rw [laying.empty rfl] at mem
      cases mem
    refine (stages.placeChildren nests (nestsWithin_keepsOwnNets levels) laying).seq ?_
    intro scope s₂ placed
    refine (owning.finish scope s₂).mono fun _ _ last => ?_
    rw [← opened.net]
    have keeps : KeepsOwnNets s₁.spec _ := IsTrans.trans _ _ _ placed last.change.keepsOwnNets
    exact keeps.ownNet d laying.stored empty
  obtain ⟨_, opened, _⟩ :=
    (ensures_layOut local_anyhow nests ready.wf ready.clear ready.opens).of_ok laying
  rw [opened.net]
  exact laidOut.of_ok laying

end ProcessNets.Compile
