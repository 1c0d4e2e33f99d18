import ProcessNets.Proofs.Compile.Origins
import ProcessNets.Proofs.Compile.Parameters
import ProcessNets.Proofs.Compile.Stages

/-!
# Justified data

Along a compilation all variables and mappings stay justified: what the diagram names is declared
where it is used, parameters are declared for tasks that use them, and the data of timers and flags
is made together with what needs it.
-/

namespace ProcessNets.Compile

open Net Specification
open Diagram (Activity Assignment Property)
open ProcessNets.Text (not_sameName_of_last sameName sameName_iff sameName_refl sameName_comm)

variable {job : Job} {scope scope' : Scope} {s t u : State} {spec : Specification}
  {d inner : DecompositionId} {n event : Diagram.NodeId} {x y host source : Net.NodeId}
  {activity : Activity} {which : VariableList} {v known : Variable} {name query : String}
  {tv tv' : TaskVariables}

theorem Routine.accrues (h : Routine (Justifying job) s t) : Accrues s.spec t.spec :=
  h.change.toAccrues

/-! ### Single operations -/

theorem ensures_requireTask_any {post : Task → Specification → Prop}
    (h : ∀ task, spec.task? y = some task → post task spec) :
    Ensures (fun _ => True) (Edit.requireTask y) spec post := by
  unfold Edit.requireTask
  rw [ensures_bind, ensures_get]
  cases found : spec.task? y with
  | none => trivial
  | some task => exact h task found

theorem justifying_addStarting (job : Job) :
    Ensures (fun _ => True) (edit (.addStarting y query v)) s fun _ t => Routine (Justifying job) s t ∧ t.met = s.met ∧
      hasQuery (t.spec.starting y) query = true := by
  apply ensures_edit
  unfold Edit.addStarting
  rw [ensures_bind]
  refine ensures_requireTask_any fun task found => ?_
  rw [ensures_bind, ensures_modify, ensures_pure]
  refine ⟨⟨.modifyTask (fun _ => rfl) ?_ (fun _ _ => .inl) ?_, rfl⟩, rfl, ?_⟩
  · exact fun t => ⟨subset_addMapping, List.Subset.refl _⟩
  · exact fun t apart => ⟨apart.1.addMapping query v, apart.2⟩
  · rw [(mappings_of_task (task?_modifyTask_self found)).1]
    exact hasQuery_addMapping

theorem justifying_addCompleted (job : Job) (completion : Completion s.spec y query) :
    Ensures (fun _ => True) (edit (.addCompleted y query v)) s fun _ t =>
      Routine (Justifying job) s t ∧ t.met = s.met ∧
        hasQuery (t.spec.completed y) query = true := by
  apply ensures_edit
  unfold Edit.addCompleted
  rw [ensures_bind]
  refine ensures_requireTask_any fun task found => ?_
  rw [ensures_bind, ensures_modify, ensures_pure]
  refine ⟨⟨.modifyTask (fun _ => rfl) ?_ ?_ ?_, rfl⟩, rfl, ?_⟩
  · exact fun t => ⟨List.Subset.refl _, subset_addMapping⟩
  · intro t m mem
    rcases mem_addMapping mem with old | rfl
    · exact .inl old
    · exact .inr completion
  · exact fun t apart => ⟨apart.1, apart.2.addMapping query v⟩
  · rw [(mappings_of_task (task?_modifyTask_self found)).2]
    exact hasQuery_addMapping

theorem Justifying.declare (reason : Reason job spec d v.name which) :
    Justifying job spec (spec.modifyDecomposition d fun net => net.modifyList which (declare · v)) := by
  refine .modifyList (fun vs => subset_declare) (fun w mem => ?_) fun _ _ apart => ?_
  · rcases mem_declare.mp mem with old | ⟨rfl, _⟩
    · exact .inl old
    · exact .inr reason
  · unfold Net.declare
    split
    · exact apart
    · rename_i new
      refine apart.append fun w mem same => (new ?_).elim
      exact declares_iff.mpr ⟨w, mem, same⟩

theorem justifying_declareVariable (reason : Reason job s.spec d v.name which) :
    Ensures (fun _ => True) (edit (.declareVariable d which v)) s fun _ t =>
      Routine (Justifying job) s t ∧ t.met = s.met := by
  apply ensures_edit
  unfold Edit.declareVariable
  rw [ensures_bind, ensures_get, ensures_bind, ensures_modify, ensures_pure]
  exact ⟨⟨.declare reason, rfl⟩, rfl⟩

/-- A variable that is not known yet may be appended. -/
theorem justifying_appendVariable (reason : Reason job s.spec d v.name which)
    (unknown : (s.spec.decomposition d).findVariable? v.name = none) :
    Ensures (fun _ => True) (edit (.appendVariable d which v)) s fun _ t =>
      Routine (Justifying job) s t := by
  apply ensures_edit
  unfold Edit.appendVariable
  rw [ensures_modify]
  have new : declares ((s.spec.decomposition d).list which) v.name = false := by
    rw [Bool.eq_false_iff]
    intro declared
    have all := declares_allVariables.mpr ⟨which, declared⟩
    rw [findVariable?_none unknown] at all
    cases all
  refine ⟨.modifyList (fun vs => List.subset_append_left vs [v]) (fun w mem => ?_) ?_, rfl⟩
  · rcases List.mem_append.mp mem with old | last
    · exact .inl old
    · rw [List.mem_singleton.mp last]
      exact .inr reason
  · intro _ _ apart
    refine apart.append fun w mem same => ?_
    rw [declares_iff.mpr ⟨w, mem, same⟩] at new
    cases new

/-! ### Activities -/

theorem given_property {property : Property}
    (isActivity : (job.diagram.node n).kind.activity? = some activity)
    (mem : property ∈ activity.properties) : Given job property.name := by
  refine ⟨n, ?_⟩
  unfold givenNames
  rw [isActivity]
  exact List.mem_append_left _ (List.mem_map_of_mem mem)

theorem given_assignment {assignment : Assignment}
    (isActivity : (job.diagram.node n).kind.activity? = some activity)
    (mem : assignment ∈ activity.assignments) : Given job assignment.target := by
  refine ⟨n, ?_⟩
  unfold givenNames
  rw [isActivity]
  exact List.mem_append_right _ (List.mem_map_of_mem mem)

/-- Every variable met for a task is one that the diagram names, and the task uses it. -/
def Met (job : Job) (spec : Specification) (y : Net.NodeId) (tv : TaskVariables) : Prop :=
  ∀ v ∈ tv.locals ++ tv.inputs ++ tv.outputs, Supplied job v.name ∧ Uses spec y v.name

theorem Met.accrue {spec' : Specification} (met : Met job spec y tv) (h : Accrues spec spec')
    (stored : y.index < spec.nodes.size) : Met job spec' y tv :=
  fun v mem => (met v mem).imp_right fun uses => uses.accrue h stored

/-- Only the variable that a name means is met anew. -/
theorem TaskVariables.Resolved.origin {net : Decomposition}
    (h : TaskVariables.Resolved tv net which v known tv') {w : Variable}
    (mem : w ∈ tv'.locals ++ tv'.inputs ++ tv'.outputs) :
    w ∈ tv.locals ++ tv.inputs ++ tv.outputs ∨ w = known := by
  cases h with
  | met => exact .inl mem
  | known =>
    cases which <;> simp only [TaskVariables.note, List.mem_append, mem_declare] at mem ⊢ <;> grind
  | new =>
    simp only [List.mem_append, List.mem_singleton] at mem ⊢
    tauto

theorem Met.resolve {net : Decomposition} {spec' : Specification} (met : Met job spec y tv)
    (resolved : tv.Resolved net which v known tv') (given : Given job v.name)
    (h : Accrues spec spec') (stored : y.index < spec.nodes.size)
    (uses : Uses spec' y known.name) : Met job spec' y tv' := by
  intro w mem
  rcases resolved.origin mem with old | rfl
  · exact met.accrue h stored w old
  · exact ⟨⟨v.name, given, sameName_comm _ _ ▸ resolved.same⟩, uses⟩

section
variable (stored : y.index < s.spec.nodes.size) (met : Met job s.spec y s.met)
include stored met

theorem justifying_bindProperty {property : Property} (given : Given job property.name) :
    Ensures (fun _ => True) (bindProperty d y property) s fun _ t =>
      Routine (Justifying job) s t ∧ Met job t.spec y t.met := by
  unfold bindProperty
  refine ensures_resolveVariable_resolved.seq ?_
  rintro known _ ⟨tv, rfl, resolved⟩
  rw [ensures_bind, ensures_netQuery_owner (y := y)]
  refine (justifying_addStarting job).seq ?_
  rintro _ s₁ ⟨first, met₁, reads⟩
  rw [ensures_bind, ensures_taskQuery_owner (d := d)]
  refine (justifying_addCompleted job (.write rfl)).seq ?_
  rintro _ s₂ ⟨second, met₂, _⟩
  have routine : Routine (Justifying job) s s₂ :=
    Routine.trans ⟨first.change, first.finished⟩ second
  rw [ensures_pure, met₂, met₁]
  refine ⟨routine, met.resolve resolved given routine.accrues stored (.inl ⟨(s.spec.decomposition d).id, ?_⟩)⟩
  exact hasQuery_mono (second.accrues.starting y) reads

theorem justifying_bindAssignment {assignment : Assignment}
    (given : Given job assignment.target) :
    Ensures (fun _ => True) (bindAssignment d y assignment) s fun _ t =>
      Routine (Justifying job) s t ∧ Met job t.spec y t.met := by
  unfold bindAssignment
  cases assignment.time with
  | start =>
    refine ensures_resolveVariable_resolved.seq ?_
    rintro known _ ⟨tv, rfl, resolved⟩
    rw [ensures_bind, ensures_netQuery_owner (y := y)]
    refine (justifying_addStarting job).seq ?_
    rintro _ s₁ ⟨first, met₁, reads⟩
    have routine : Routine (Justifying job) s s₁ := ⟨first.change, first.finished⟩
    rw [ensures_pure, met₁]
    exact ⟨routine, met.resolve resolved given routine.accrues stored (.inl ⟨_, reads⟩)⟩
  | finish =>
    refine ensures_resolveVariable_resolved.seq ?_
    rintro known _ ⟨tv, rfl, resolved⟩
    rw [ensures_bind, ensures_taskQuery_owner (d := d)]
    refine (justifying_addCompleted job (.write rfl)).seq ?_
    rintro _ s₁ ⟨first, met₁, writes⟩
    have routine : Routine (Justifying job) s s₁ := ⟨first.change, first.finished⟩
    rw [ensures_pure, met₁]
    refine ⟨routine, met.resolve resolved given routine.accrues stored (.inr ?_)⟩
    rw [routine.accrues.id stored]
    exact writes

/-- What each binding of an activity keeps, all of them keep. -/
theorem justifying_forM {α : Type} {items : List α} {bind : α → Compile PUnit}
    (step : ∀ item ∈ items, ∀ t, y.index < t.spec.nodes.size → Met job t.spec y t.met →
      Ensures (fun _ => True) (bind item) t fun _ u =>
        Routine (Justifying job) t u ∧ Met job u.spec y u.met) :
    Ensures (fun _ => True) (items.forM bind) s fun _ t =>
      Routine (Justifying job) s t ∧ Met job t.spec y t.met := by
  refine ensures_forM_done (fun _ t => Routine (Justifying job) s t ∧ Met job t.spec y t.met) ?_
    ⟨.refl s, met⟩
  rintro done item rest t all ⟨routine, met'⟩
  have listed : item ∈ items := all ▸ by simp
  have stored' := Nat.lt_of_lt_of_le stored routine.accrues.size
  exact (step item listed t stored' met').mono fun _ _ next => ⟨routine.trans next.1, next.2⟩

end

theorem justifying_declareAll {vs : List Variable}
    (reasons : ∀ v ∈ vs, Reason job s.spec d v.name which) :
    Ensures (fun _ => True) (declareAll d which vs) s fun _ t =>
      Routine (Justifying job) s t ∧ t.met = s.met := by
  refine ensures_forM_done (fun _ t => Routine (Justifying job) s t ∧ t.met = s.met) ?_
    ⟨.refl s, rfl⟩
  rintro done v rest t all ⟨routine, met⟩
  have listed : v ∈ vs := all ▸ by simp
  refine (justifying_declareVariable ((reasons v listed).accrue routine.accrues)).seq ?_
  exact fun _ _ next => ⟨routine.trans next.1, next.2.trans met⟩

/-- What was met becomes parameters of what the task runs. -/
theorem justifying_declareTaskVariables (stored : y.index < s.spec.nodes.size)
    (met : Met job s.spec y s.met) (runs : s.spec.runs? y = some inner) :
    Ensures (fun _ => True) (declareTaskVariables d (some inner)) s fun _ t =>
      Routine (Justifying job) s t := by
  unfold declareTaskVariables
  rw [ensures_bind, ensures_get]
  have locals : ∀ v ∈ s.met.locals, Reason job s.spec d v.name .locals := by
    intro v mem
    exact (met v (by simp [mem])).1.reason
  refine (justifying_declareAll locals).seq ?_
  rintro _ s₁ ⟨first, _⟩
  have inputs : ∀ v ∈ s.met.locals ++ s.met.inputs, Reason job s₁.spec inner v.name .inputs := by
    intro v mem
    have uses := (met v (List.mem_append_left _ mem)).2
    exact HandedIn.reason job ⟨y, first.accrues.runs runs, uses.accrue first.accrues stored⟩
  refine (justifying_declareAll inputs).seq ?_
  rintro _ s₂ ⟨second, _⟩
  have outputs : ∀ v ∈ s.met.locals ++ s.met.outputs, Reason job s₂.spec inner v.name .outputs :=
    fun _ _ => trivial
  refine (justifying_declareAll outputs).mono fun _ _ third => ?_
  exact first.trans (second.trans third.1)

theorem justifying_bindInstances (titled : Titled "task" s.spec y) :
    Ensures (fun _ => True) (bindInstances job d n y) s fun _ t =>
      Routine (Justifying job) s t := by
  have changing : ∀ {g : Task → Task} {t}, (∀ t, (g t).decomposesTo = t.decomposesTo) →
      (∀ t, (g t).control = t.control) →
      (∀ t, (g t).starting = t.starting ∧ (g t).completed = t.completed) →
      Ensures (fun _ => True) (edit (modify (·.modifyTask y g))) t
        fun _ u => Routine (Justifying job) t u :=
    fun runs control mappings => routine_edit (Edit.relates_modifyTask runs control mappings) _
  unfold bindInstances
  dsimp only
  refine Ensures.seq (changing (fun _ => rfl) (fun _ => rfl) (fun _ => ⟨rfl, rfl⟩))
    fun _ s₁ first => ?_
  refine (routine_requireActivity (R := Justifying job) s₁).seq fun activity s₂ second => ?_
  rw [ensures_bind, ensures_spec]
  refine Ensures.seq (changing (fun _ => rfl) (fun _ => rfl) (fun _ => ⟨rfl, rfl⟩))
    fun _ s₃ third => ?_
  have before := first.trans second
  obtain ⟨_, count, id⟩ := titled.enlarged before.accrues.toEnlarged
  have reason : ∀ c spec, Reason job spec c (instanceVariable (s₂.spec.node y).id).name .inputs :=
    fun c spec => .inl ⟨count, by rw [id]⟩
  refine (justifying_declareVariable (reason _ _)).seq ?_
  rintro _ s₄ ⟨fourth, _⟩
  have routine := before.trans (third.trans fourth)
  refine (routine_edit (R := Justifying job) Edit.relates_requireTask s₄).seq fun task s₅ fifth => ?_
  have routine := routine.trans fifth
  split
  · refine (justifying_declareVariable (reason _ _)).seq ?_
    rintro _ s₆ ⟨sixth, _⟩
    exact routine.trans (sixth.trans (routine_of_same rfl rfl))
  · exact routine.trans (routine_of_same rfl rfl)

theorem justifying_finishActivity (titled : Titled "task" s.spec y) (met : Met job s.spec y s.met)
    (runs : s.spec.runs? y = some inner) :
    Ensures (fun _ => True) (finishActivity job d n activity y inner) s fun _ t =>
      Routine (Justifying job) s t := by
  unfold finishActivity
  refine (justifying_declareTaskVariables titled.stored met runs).seq fun _ t declared => ?_
  have titled' := titled.enlarged declared.accrues.toEnlarged
  refine ensures_when (fun u => Routine (Justifying job) s u) (fun _ => ?_) (fun _ => declared) ?_
  · exact (justifying_bindInstances titled').mono fun _ _ => declared.trans
  intro u routine
  have rest : Relates (Routine (Justifying job)) (do
      if activity.loops || job.diagram.loopsByFlow n then
        registerLooping d n
      let _ ← bindResources job n y
      return y) :=
    .when routine_registerLooping (.bind routine_bindResources fun _ => .pure _)
  exact (rest u).mono fun _ _ => routine.trans

/-- The task of an activity before it runs anything. -/
structure Awaits (job : Job) (y : Net.NodeId) (s : State) : Prop where
  titled : Titled "task" s.spec y
  isTask : (s.spec.task? y).isSome
  idle : s.spec.runs? y = none
  met : Met job s.spec y s.met

/-- Binding data leaves it open what the task runs. -/
theorem Awaits.bind {bind : Compile PUnit} (h : Awaits job y s)
    (binding : Ensures (fun _ => True) bind s fun _ t =>
      Routine (Justifying job) s t ∧ Met job t.spec y t.met)
    (quiet : Ensures (fun _ => True) bind s fun _ t => Quiet s t) :
    Ensures (fun _ => True) bind s fun _ t => Routine (Justifying job) s t ∧ Awaits job y t := by
  refine (binding.and quiet).mono ?_
  rintro _ t ⟨⟨routine, met⟩, quiet⟩
  refine ⟨routine, h.titled.enlarged routine.accrues.toEnlarged, quiet.isTask h.isTask, ?_, met⟩
  rw [runs?_of_skeleton quiet.skeleton]
  exact h.idle

theorem awaits_createTask (job : Job) {name : String} : Ensures (fun _ => True)
    (edit (.createTask d (nodeId "task" s.count) name)) { s with count := s.count + 1 }
      fun y t => Routine (Justifying job) s t ∧ Awaits job y { t with met := {} } := by
  apply ensures_edit
  rw [Edit.ensures_createTask]
  have new := node_addNode_new (s := s.spec) (d := d)
    { id := nodeId "task" s.count, name, kind := .task {} }
  refine ⟨⟨Structural.node .task, rfl⟩, ⟨?_, s.count, ?_⟩, ?_, ?_, by simp [Met]⟩
  · rw [nodes_size_addNode]
    exact Nat.lt_succ_self _
  · rw [new]
  · unfold Specification.task?
    rw [new]
    rfl
  · unfold runs?
    rw [new]
    rfl

theorem justifying_run (awaits : Awaits job y s)
    (stored : inner.index < s.spec.decompositions.size) : Ensures (fun _ => True)
    (edit (.updateTask y fun t => { t with decomposesTo := some inner })) s fun _ t =>
      Routine (Justifying job) s t ∧ t.met = s.met ∧ t.spec.runs? y = some inner := by
  obtain ⟨task, found⟩ := Option.isSome_iff_exists.mp awaits.isTask
  apply ensures_edit
  apply Edit.ensures_updateTask found
  exact ⟨⟨.of_unbound (.setRuns awaits.idle stored), rfl⟩, rfl, runs?_setRuns_self awaits.isTask⟩

theorem justifying_placeActivity {subnet : Option DecompositionId}
    (isActivity : (job.diagram.node n).kind.activity? = some activity)
    (stored : ∀ inner, subnet = some inner → inner.index < s.spec.decompositions.size) :
    Ensures (fun _ => True) (placeActivity job d n activity subnet) s fun _ t =>
      Routine (Justifying job) s t := by
  rw [placeActivity_eq, ensures_bind, ensures_generateId]
  refine (awaits_createTask job).seq ?_
  rintro y s₁ ⟨first, awaits⟩
  rw [ensures_bind, ensures_modify]
  refine Ensures.seq (awaits.bind (justifying_forM awaits.titled.stored awaits.met
    fun property mem t stored met => justifying_bindProperty stored met
      (given_property isActivity mem)) (ensures_bindProperties awaits.isTask activity)) ?_
  rintro _ s₂ ⟨second, awaits⟩
  refine Ensures.seq (awaits.bind (justifying_forM awaits.titled.stored awaits.met
    fun assignment mem t stored met => justifying_bindAssignment stored met
      (given_assignment isActivity mem)) (ensures_bindAssignments awaits.isTask activity)) ?_
  rintro _ s₃ ⟨third, awaits⟩
  have before : Routine (Justifying job) s s₃ :=
    first.trans (Routine.trans ⟨second.change, second.finished⟩ third)
  cases subnet with
  | none =>
    refine Ensures.seq ((ensures_ensureDecomposition_runs awaits.isTask awaits.idle).and
      (routine_edit (R := Justifying job) Edit.relates_ensureDecomposition s₃)) ?_
    rintro inner s₄ ⟨⟨_, met, runs, _⟩, fourth⟩
    refine (justifying_finishActivity (awaits.titled.enlarged fourth.accrues.toEnlarged) ?_ runs).mono ?_
    · rw [met]
      exact awaits.met.accrue fourth.accrues awaits.titled.stored
    · exact fun _ _ last => before.trans (fourth.trans last)
  | some inner =>
    have stored' := Nat.lt_of_lt_of_le (stored inner rfl) before.accrues.decompositions_size
    refine (justifying_run awaits stored').seq ?_
    rintro _ s₄ ⟨fourth, met, runs⟩
    refine (justifying_finishActivity (awaits.titled.enlarged fourth.accrues.toEnlarged) ?_ runs).mono ?_
    · rw [met]
      exact awaits.met.accrue fourth.accrues awaits.titled.stored
    · exact fun _ _ last => before.trans (fourth.trans last)

/-! ### Timers -/

/-- A new timer gets its variable. -/
theorem Justifying.appendTimer {spec' : Specification} (h : Unbound spec spec')
    (new : spec.nodes.size ≤ y.index) (titled : Titled "timer" spec' y)
    (named : v.name = timerVariable (spec'.node y).id) :
    Justifying job spec
      (spec'.modifyDecomposition d fun net => net.modifyList .locals (· ++ [v])) := by
  have grows : ∀ vs : List Variable, vs ⊆ vs ++ [v] := fun vs => List.subset_append_left vs [v]
  refine ⟨h.accrues.trans (.modifyList .locals grows), fun justified => ?_⟩
  have appended : Justifying job spec'
      (spec'.modifyDecomposition d fun net => net.modifyList .locals (· ++ [v])) := by
    refine .modifyList grows (fun w mem => ?_) fun _ untimed apart => apart.append fun w mem same => ?_
    · rcases List.mem_append.mp mem with old | last
      · exact .inl old
      · rw [List.mem_singleton.mp last]
        exact .inr (LocalReason.timer titled named)
    · rw [h.list] at mem
      obtain ⟨count, id⟩ := titled.id
      rw [named] at same ⊢
      cases justified.declared mem with
      | supplied isSupplied =>
        obtain ⟨other, given, same'⟩ := isSupplied.congr same
        rw [id, untimed other given count] at same'
        cases same'
      | timer titled' id' =>
        -- its timer was there before
        refine ⟨_, y, ?_, titled'.enlarged h.accrues.toEnlarged, titled, ?_, rfl⟩
        · rintro rfl
          exact Nat.not_le.mpr titled'.stored new
        · rw [id', h.accrues.id titled'.stored]
      | @flag front id' =>
        have apart := not_sameName_of_last (by decide) (by decide) (by decide) (last_flag front)
          (last_timerVariable (spec'.node y).id)
        rw [id', apart] at same
        cases same
  exact appended.justified ((Justifying.of_unbound h).justified justified)

/-- The task of a timer for which nothing is declared yet. -/
structure NewTimer (y : Net.NodeId) (s t : State) : Prop where
  routine : Routine Unbound s t
  new : s.spec.nodes.size ≤ y.index
  stored : y.index < t.spec.nodes.size
  id : (t.spec.node y).id = nodeId "timer" s.count

theorem NewTimer.after (h : NewTimer y s t) (routine : Routine Unbound t u) : NewTimer y s u where
  routine := h.routine.trans routine
  new := h.new
  stored := Nat.lt_of_lt_of_le h.stored routine.change.size
  id := by rw [routine.change.id h.stored, h.id]

theorem newTimer_createTask : Ensures (fun _ => True)
    (edit (.createTask d (nodeId "timer" s.count) "TimerTask")) { s with count := s.count + 1 }
      fun y t => NewTimer y s t := by
  apply ensures_edit
  rw [Edit.ensures_createTask]
  have new := node_addNode_new (s := s.spec) (d := d)
    { id := nodeId "timer" s.count, name := "TimerTask", kind := .task {} }
  refine ⟨⟨Structural.node .task, rfl⟩, Nat.le_refl _, ?_, ?_⟩
  · rw [nodes_size_addNode]
    exact Nat.lt_succ_self _
  · rw [new]

theorem justifying_appendTimer (job : Job) (timer : NewTimer y s t)
    (named : v.name = timerVariable (nodeId "timer" s.count)) :
    Ensures (fun _ => True) (edit (.appendVariable d .locals v)) t fun _ u =>
      Routine (Justifying job) s u := by
  apply ensures_edit
  unfold Edit.appendVariable
  rw [ensures_modify]
  have titled : Titled "timer" t.spec y := ⟨timer.stored, s.count, timer.id⟩
  rw [← timer.id] at named
  exact ⟨.appendTimer timer.routine.change timer.new titled named, timer.routine.finished⟩

/-- The decomposition of a task gets a variable that the task reads as an input. -/
theorem justifying_handIn (job : Job) {owner : String}
    (reads : hasQuery (s.spec.starting y) (variableQuery owner v.name) = true) :
    Ensures (fun _ => True) (do
      let inner ← edit (.ensureDecomposition y)
      let _ ← edit (.declareVariable inner .inputs v)
      return y) s fun _ t => Routine (Justifying job) s t := by
  have running : Ensures (fun _ => True) (edit (.ensureDecomposition y)) s fun inner t =>
      t.spec.runs? y = some inner := ensures_edit Edit.runs_ensureDecomposition
  refine ((routine_edit (R := Justifying job) Edit.relates_ensureDecomposition).and_ensures
    running).seq ?_
  rintro inner t ⟨first, runs⟩
  have reads' := hasQuery_mono (first.accrues.starting y) reads
  have handed : HandedIn t.spec inner v.name := ⟨y, runs, .inl ⟨_, reads'⟩⟩
  refine (justifying_declareVariable (handed.reason job)).seq ?_
  rintro _ _ ⟨second, _⟩
  exact first.trans second

-- no date is read while a goal is matched
attribute [local irreducible] timerMoment

theorem justifying_placeTimer {attached : Bool} :
    Relates (Routine (Justifying job)) (placeTimer job d n attached) := by
  intro s
  unfold placeTimer
  dsimp only
  rw [ensures_bind, ensures_generateId]
  refine newTimer_createTask.seq fun y s₁ timer => ?_
  have timing : ∀ timer, Relates (Routine Unbound)
      (edit (.updateTask y fun t => { t with timer := some timer })) := fun timer =>
    routine_edit (Edit.relates_updateTask fun _ => Structural.timer timer)
  split
  · rw [ensures_bind, ensures_pure]
    refine (routine_timerMoment (R := Unbound) _ _ s₁).seq fun moment s₂ second => ?_
    refine (timing _ s₂).seq fun _ s₃ third => ?_
    have timer := timer.after (second.trans third)
    refine (justifying_appendTimer job timer rfl).seq fun _ s₄ fourth => ?_
    rw [ensures_bind, ensures_netQuery_owner (y := y)]
    refine (justifying_addStarting job).seq ?_
    rintro _ s₅ ⟨fifth, _, reads⟩
    refine (justifying_handIn job reads).mono fun _ _ last => ?_
    exact fourth.trans (fifth.trans last)
  · rw [ensures_bind, ensures_throw]
    trivial

theorem justifying_counterpart {nested : Nested}
    (flat : nested = none ∨ ∀ activity children,
      (job.diagram.node n).kind ≠ .subprocess activity children) :
    Relates (Routine (Justifying job)) (counterpart job nested scope n) :=
  routine_counterpart_of (fun _ isActivity _ => justifying_placeActivity isActivity nofun)
    justifying_placeTimer flat

/-! ### Data objects -/

theorem given_dataObject {type value : String}
    (isObject : (job.diagram.node n).kind = .dataObject type value) :
    Given job (job.diagram.node n).title := by
  refine ⟨n, ?_⟩
  unfold givenNames
  rw [isObject]
  exact List.mem_singleton_self _

theorem justifying_bindReader (isQuery : ∃ owner, query = variableQuery owner v.name) :
    Relates (Routine (Justifying job)) (bindReader query v y) := by
  intro s
  obtain ⟨owner, rfl⟩ := isQuery
  unfold bindReader
  rw [ensures_bind, ensures_spec]
  split
  · exact .refl s
  · rename_i task found
    refine (justifying_addStarting job).seq ?_
    rintro _ t ⟨first, _, reads⟩
    split
    · exact first
    · rename_i inner isInner
      have runs : s.spec.runs? y = some inner := by
        rw [runs?_eq_bind, found]
        exact isInner
      have handed : HandedIn t.spec inner v.name :=
        ⟨y, first.accrues.runs runs, .inl ⟨owner, reads⟩⟩
      refine (justifying_declareVariable (handed.reason job)).seq ?_
      rintro _ _ ⟨second, _⟩
      exact first.trans second

theorem justifying_bindWriter : Relates (Routine (Justifying job)) (bindWriter v y) := by
  intro s
  unfold bindWriter
  rw [ensures_bind, ensures_spec]
  split
  · exact .refl s
  · rw [ensures_bind, ensures_taskQuery_owner (d := ⟨0⟩)]
    refine (justifying_addCompleted job (.write rfl)).seq ?_
    rintro _ t ⟨first, _⟩
    split
    · exact first
    · rename_i inner _
      have reason : Reason job t.spec inner v.name .outputs := trivial
      refine (justifying_declareVariable reason).seq ?_
      rintro _ _ ⟨second, _⟩
      exact first.trans second

theorem justifying_bindEnds {readers writers : List Net.NodeId}
    (isQuery : ∃ owner, query = variableQuery owner v.name) : Relates (Routine (Justifying job)) (do
      readers.forM (bindReader query v)
      writers.forM (bindWriter v)
      return some v) :=
  .bind (.forM fun _ _ => justifying_bindReader isQuery) fun _ =>
    .bind (.forM fun _ _ => justifying_bindWriter) fun _ => .pure _

theorem justifying_bindDataObject :
    Relates (Routine (Justifying job)) (bindDataObject job scope n) := by
  intro s
  unfold bindDataObject
  dsimp only
  split
  · exact .refl s
  · rw [ensures_bind, ensures_spec]
    split
    · exact routine_of_same rfl rfl
    · rename_i unknown
      split
      · rename_i isObject
        have unknown := Option.not_isSome_iff_eq_none.mp unknown
        rw [ensures_bind, ensures_pure]
        have supplied : Supplied job (job.diagram.node n).title :=
          ⟨_, given_dataObject isObject, sameName_refl _⟩
        refine Ensures.seq (justifying_appendVariable supplied.reason unknown) fun _ t first => ?_
        refine Ensures.mono (justifying_bindEnds ?_ t) fun _ _ => first.trans
        exact ⟨_, rfl⟩
      · rw [ensures_bind, ensures_throw]
        trivial

theorem justifying_bindData {container : Diagram.Container} :
    Relates (Routine (Justifying job)) (bindData job container scope) :=
  .forM fun _ _ => .bind justifying_bindDataObject fun _ => .pure _

end ProcessNets.Compile
