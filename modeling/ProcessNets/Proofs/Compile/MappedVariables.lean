import ProcessNets.Proofs.Compile.ErrorMarks
import ProcessNets.Proofs.Compile.Parameters
import ProcessNets.Proofs.Compile.Stages

/-!
# Variables of mappings

All mappings of a result are about variables of their net. What a task reads or writes is met before
its net declares it, and data objects and flags are declared before they are mapped. So each stage
of a net keeps the specification tidy, and so does the making of nets inside of nets.
-/

namespace ProcessNets.Compile

open Net Specification
open Diagram (Activity)
open ProcessNets.Text (sameName sameName_iff sameName_refl)

variable {job : Job} {container : Diagram.Container} {nested : Nested} {scope scope' : Scope}
  {terminations : List Diagram.NodeId} {s t u s₁ s₂ s₃ : State} {d inner : DecompositionId}
  {n m event : Diagram.NodeId} {x y host source : Net.NodeId} {activity : Activity} {v : Variable}
  {query name : String} {α : Type}

/-! ### Single operations -/

theorem Routine.enlarged (h : Routine Tidying s t) : Enlarged s.spec t.spec :=
  h.change.toEnlarged

/-- If nodes are not placed well, enlarging the specification keeps it untidy. -/
theorem tidying_of_placed {work : Compile α} (enlarging : Relates (Routine Enlarged) work)
    (h : s.spec.Placed → Ensures (fun _ => True) work s fun _ t => Routine Tidying s t) :
    Ensures (fun _ => True) work s fun _ t => Routine Tidying s t := by
  by_cases placed : s.spec.Placed
  · exact h placed
  · exact (enlarging s).mono fun _ t routine =>
      ⟨⟨routine.change, fun tidy => (placed tidy.toPlaced).elim⟩, routine.finished⟩

theorem tidying_addStarting (housed : s.spec.Housed d y)
    (reads : y ∈ (s.spec.decomposition d).nodes → (s.spec.decomposition d).Reads ⟨query, v⟩) :
    Ensures (fun _ => True) (edit (.addStarting y query v)) s fun _ t => Routine Tidying s t :=
  ensures_edit ((Edit.tidying_addStarting housed reads).mono fun _ _ change => ⟨change, rfl⟩)

theorem tidying_addCompleted (housed : s.spec.Housed d y)
    (writes : y ∈ (s.spec.decomposition d).nodes → (s.spec.decomposition d).Writes ⟨query, v⟩) :
    Ensures (fun _ => True) (edit (.addCompleted y query v)) s fun _ t => Routine Tidying s t :=
  ensures_edit ((Edit.tidying_addCompleted housed writes).mono fun _ _ change => ⟨change, rfl⟩)

/-- A net declares what is appended to one of its lists. -/
theorem tidying_appendVariable {which : VariableList} :
    Ensures (fun _ => True) (edit (.appendVariable d which v)) s fun _ t => Routine Tidying s t ∧
      (d.index < t.spec.decompositions.size →
        declares (t.spec.decomposition d).allVariables v.name = true) := by
  have routine : Relates (Routine Tidying) (edit (.appendVariable d which v)) :=
    routine_edit Edit.relates_appendVariable
  refine routine.and_ensures (ensures_edit ?_)
  unfold Edit.appendVariable
  rw [ensures_modify]
  intro stored
  rw [decompositions_size_modifyDecomposition] at stored
  refine declares_allVariables.mpr ⟨which, ?_⟩
  rw [decomposition_modifyDecomposition, if_pos ⟨rfl, stored⟩]
  cases which <;> exact declares_of_mem (List.mem_append_right _ List.mem_cons_self)

/-! ### Activities and timers -/

/-- The task of an activity uses variables that its net declares. -/
theorem Exposed.tidying {spec spec' : Specification} (h : Exposed activity d y spec spec')
    (housed : spec.Housed d y) : Tidying spec spec' := by
  have here : ∀ {c}, y ∈ (spec'.decomposition c).nodes →
      c = d ∧ d.index < spec.decompositions.size := by
    intro c mem
    rcases h.origin mem with old | new
    · cases housed.only old
      exact ⟨rfl, decomposition_stored old⟩
    · exact (Nat.not_le.mpr housed.stored new).elim
  refine ⟨h.toEnlarged, fun tidy => tidy.enlarged h.toEnlarged ?_ ?_⟩
  · intro c k mem mapping isStarting
    by_cases same : k = y
    · subst same
      obtain ⟨rfl, stored⟩ := here mem
      have isStarting : mapping ∈ mappings spec' .start k := isStarting
      refine .inr ⟨h.declared stored isStarting, ?_⟩
      rw [h.decomposition_id stored]
      have query := h.query isStarting
      exact query
    · have kept : spec'.starting k = spec.starting k := h.others .start k same
      exact .inl (kept ▸ isStarting)
  · intro c k mem mapping isCompleted
    by_cases same : k = y
    · subst same
      obtain ⟨rfl, stored⟩ := here mem
      have isCompleted : mapping ∈ mappings spec' .finish k := isCompleted
      have query := h.query isCompleted
      exact .inr (.of_query (h.declared stored isCompleted) query)
    · have kept : spec'.completed k = spec.completed k := h.others .finish k same
      exact .inl (kept ▸ isCompleted)

theorem tidying_placeActivity {subnet : Option DecompositionId}
    (isActivity : (job.diagram.node n).kind.activity? = some activity)
    (stored : ∀ inner, subnet = some inner → inner.index < s.spec.decompositions.size) :
    Ensures (fun _ => True) (placeActivity job d n activity subnet) s fun _ t =>
      Routine Tidying s t := by
  have enlarging : Relates (Routine Enlarged) (placeActivity job d n activity subnet) :=
    routine_placeActivity fun _ _ _ _ => .modifyTask
  refine tidying_of_placed enlarging fun placed => ?_
  refine (enlarging.and_ensures (ensures_placeActivity_exposed isActivity stored)).mono ?_
  rintro _ t ⟨routine, rfl, exposed⟩
  refine ⟨?_, routine.finished⟩
  exact IsTrans.trans _ _ _ (Structural.node .task) (exposed.tidying (placed.housed_addNode _))

-- no date is read while a goal is matched
attribute [local irreducible] timerMoment

theorem tidying_placeTimer {attached : Bool} :
    Relates (Routine Tidying) (placeTimer job d n attached) := by
  intro s
  refine tidying_of_placed routine_placeTimer fun placed => ?_
  unfold placeTimer
  dsimp only
  rw [ensures_bind, ensures_generateId]
  have creating : Ensures (fun _ => True)
      (edit (.createTask d (nodeId "timer" s.count) "TimerTask")) { s with count := s.count + 1 }
      fun y t => Routine Tidying s t ∧ t.spec.Housed d y := by
    apply ensures_edit
    rw [Edit.ensures_createTask]
    exact ⟨⟨Structural.node .task, rfl⟩, placed.housed_addNode _⟩
  refine creating.seq ?_
  rintro y s₁ ⟨first, housed⟩
  have timing : ∀ timer, Relates (Routine Tidying)
      (edit (.updateTask y fun t => { t with timer := some timer })) := fun timer =>
    routine_edit (Edit.relates_updateTask fun _ => Structural.timer timer)
  have running : ∀ v, Relates (Routine Tidying) (do
      let inner ← edit (.ensureDecomposition y)
      let _ ← edit (.declareVariable inner .inputs v)
      return y) := fun v =>
    .bind (routine_edit Edit.relates_ensureDecomposition) fun _ =>
      .bind (routine_edit Edit.relates_declareVariable) fun _ => .pure y
  split
  · rw [ensures_bind, ensures_pure]
    refine (routine_timerMoment (R := Tidying) _ _ s₁).seq fun moment s₂ second => ?_
    refine (timing _ s₂).seq fun _ s₃ third => ?_
    refine tidying_appendVariable.seq ?_
    rintro _ s₄ ⟨fourth, declared⟩
    have before : Routine Tidying s₁ s₄ := second.trans (third.trans fourth)
    rw [ensures_bind, ensures_netQuery_owner (y := y)]
    refine (tidying_addStarting (housed.enlarged before.enlarged) fun mem => ?_).seq ?_
    · exact ⟨declared (decomposition_stored mem), rfl⟩
    · intro _ s₅ fifth
      refine (running _ s₅).mono fun _ t last => ?_
      exact first.trans (before.trans (fifth.trans last))
  · rw [ensures_bind, ensures_throw]
    trivial

/-- Finding the counterpart of a node keeps a specification tidy, unless that makes a net. -/
theorem tidying_counterpart
    (flat : nested = none ∨ ∀ activity children,
      (job.diagram.node n).kind ≠ .subprocess activity children) :
    Relates (Routine Tidying) (counterpart job nested scope n) :=
  routine_counterpart_of (fun _ isActivity _ => tidying_placeActivity isActivity nofun)
    tidying_placeTimer flat

/-! ### Data objects -/

theorem tidying_bindReader (placed : s.spec.Placed) (mem : y ∈ (s.spec.decomposition d).nodes)
    (reads : (s.spec.decomposition d).Reads ⟨query, v⟩) :
    Ensures (fun _ => True) (bindReader query v y) s fun _ t => Routine Tidying s t := by
  unfold bindReader
  rw [ensures_bind, ensures_spec]
  split
  · exact .refl s
  · refine (tidying_addStarting (placed.housed mem) fun _ => reads).seq fun _ t routine => ?_
    split
    · exact routine
    · have declaring : ∀ inner : DecompositionId, Relates (Routine Tidying) (do
          let _ ← edit (.declareVariable inner .inputs v)) := fun _ =>
        .bind (routine_edit Edit.relates_declareVariable) fun _ => .pure _
      exact (declaring _ t).mono fun _ _ => routine.trans

theorem tidying_bindWriter (placed : s.spec.Placed) (mem : y ∈ (s.spec.decomposition d).nodes)
    (declared : declares (s.spec.decomposition d).allVariables v.name = true) :
    Ensures (fun _ => True) (bindWriter v y) s fun _ t => Routine Tidying s t := by
  unfold bindWriter
  rw [ensures_bind, ensures_spec]
  split
  · exact .refl s
  · rw [ensures_bind, ensures_taskQuery_owner (d := d)]
    refine (tidying_addCompleted (placed.housed mem) fun _ => .of_query declared rfl).seq ?_
    intro _ t routine
    split
    · exact routine
    · have declaring : ∀ inner : DecompositionId, Relates (Routine Tidying) (do
          let _ ← edit (.declareVariable inner .outputs v)) := fun _ =>
        .bind (routine_edit Edit.relates_declareVariable) fun _ => .pure _
      exact (declaring _ t).mono fun _ _ => routine.trans

section
variable {tasks : List Net.NodeId}

theorem tidying_bindReaders (placed : s.spec.Placed)
    (mem : ∀ y ∈ tasks, y ∈ (s.spec.decomposition d).nodes)
    (reads : ∀ y ∈ tasks, (s.spec.decomposition d).Reads ⟨query, v⟩) :
    Ensures (fun _ => True) (tasks.forM (bindReader query v)) s fun _ t => Routine Tidying s t := by
  refine ensures_forM_done (fun _ t => Routine Tidying s t) ?_ (.refl s)
  rintro _ y _ t all routine
  have listed : y ∈ tasks := all ▸ by simp
  have larger := routine.enlarged
  have reads' := larger.reads (decomposition_stored (mem y listed)) (reads y listed)
  refine (tidying_bindReader (larger.placed placed) (larger.mem (mem y listed)) reads').mono ?_
  exact fun _ _ => routine.trans

theorem tidying_bindWriters (placed : s.spec.Placed)
    (mem : ∀ y ∈ tasks, y ∈ (s.spec.decomposition d).nodes)
    (declared : ∀ y ∈ tasks, declares (s.spec.decomposition d).allVariables v.name = true) :
    Ensures (fun _ => True) (tasks.forM (bindWriter v)) s fun _ t => Routine Tidying s t := by
  refine ensures_forM_done (fun _ t => Routine Tidying s t) ?_ (.refl s)
  rintro _ y _ t all routine
  have listed : y ∈ tasks := all ▸ by simp
  have larger := routine.enlarged
  have declared' := larger.declares_all (declared y listed)
  refine (tidying_bindWriter (larger.placed placed) (larger.mem (mem y listed)) declared').mono ?_
  exact fun _ _ => routine.trans

end

def Registered (spec : Specification) (scope : Scope) : Prop :=
  ∀ n y, scope.map.find? n = some y → y ∈ (spec.decomposition scope.net).nodes

theorem Registered.enlarged {spec spec' : Specification} (h : Registered spec scope)
    (larger : Enlarged spec spec') : Registered spec' scope :=
  fun n y found => larger.mem (h n y found)

theorem Registered.mem_filterMap {spec : Specification} {key : α → Diagram.NodeId} {items : List α}
    (h : Registered spec scope) (mem : y ∈ items.filterMap fun item => scope.map.find? (key item)) :
    y ∈ (spec.decomposition scope.net).nodes := by
  obtain ⟨item, _, found⟩ := List.mem_filterMap.mp mem
  exact h _ y found

theorem Mapped.registered {spec : Specification} (h : Mapped job spec scope) :
    Registered spec scope :=
  fun _ _ found => h.mem found

/-- The net of a data object declares it before tasks read and write it. -/
theorem tidying_bindDataObject (placed : s.spec.Placed) (registered : Registered s.spec scope) :
    Ensures (fun _ => True) (bindDataObject job scope n) s fun _ t => Routine Tidying s t := by
  unfold bindDataObject
  dsimp only
  split
  · exact .refl s
  · rw [ensures_bind, ensures_spec]
    split
    · exact routine_of_same rfl rfl
    · split
      · rw [ensures_bind, ensures_pure]
        dsimp only
        refine tidying_appendVariable.seq ?_
        rintro _ s₁ ⟨first, declared⟩
        have placed₁ := first.enlarged.placed placed
        have stored : ∀ {y}, y ∈ (s.spec.decomposition scope.net).nodes →
            scope.net.index < s₁.spec.decompositions.size := fun mem =>
          decomposition_stored (first.enlarged.mem mem)
        refine (tidying_bindReaders placed₁ (d := scope.net) (fun y mem => ?_)
          fun y mem => ?_).seq ?_
        · exact first.enlarged.mem (registered.mem_filterMap mem)
        · have before := registered.mem_filterMap mem
          refine ⟨declared (stored before), ?_⟩
          rw [first.enlarged.decomposition_id (decomposition_stored before)]
        intro _ s₂ second
        have larger := first.enlarged.trans second.enlarged
        refine (tidying_bindWriters (larger.placed placed) (d := scope.net) (fun y mem => ?_)
          fun y mem => ?_).seq ?_
        · exact larger.mem (registered.mem_filterMap mem)
        · exact second.enlarged.declares_all (declared (stored (registered.mem_filterMap mem)))
        · exact fun _ t third => first.trans (second.trans third)
      · rw [ensures_bind, ensures_throw]
        trivial

theorem tidying_bindData (placed : s.spec.Placed) (registered : Registered s.spec scope) :
    Ensures (fun _ => True) (bindData job container scope) s fun _ t => Routine Tidying s t := by
  refine ensures_forM_done (fun _ t => Routine Tidying s t) ?_ (.refl s)
  rintro _ n _ t _ routine
  have larger := routine.enlarged
  refine (tidying_bindDataObject (larger.placed placed) (registered.enlarged larger)).seq ?_
  exact fun _ _ => routine.trans

/-! ### Flags -/

/-- The query that copies a flag is an element named after the flag outside. -/
theorem flagQuery_eq_constantQuery {flag innerId inside : String} :
    flagQuery flag innerId inside =
      constantQuery flag ("\x7b/" ++ innerId ++ "/" ++ inside ++ "/text()\x7d") := by
  simp only [flagQuery, constantQuery, String.append_assoc]
  rfl

/-- There is a declared variable with the name of a flag. -/
theorem tidying_ensureFlag : Ensures (fun _ => True) (ensureFlag d v) s fun known t =>
    Routine Tidying s t ∧ t.spec.nodes = s.spec.nodes ∧ sameName v.name known.name = true ∧
      (d.index < t.spec.decompositions.size →
        declares (t.spec.decomposition d).allVariables known.name = true) := by
  unfold ensureFlag
  rw [ensures_bind, ensures_spec]
  split
  · rename_i known found
    obtain ⟨mem, same⟩ := findVariable?_some found
    have same' : sameName v.name known.name = true := sameName_iff.mpr (sameName_iff.mp same).symm
    exact ⟨.refl s, rfl, same', fun _ => declares_of_mem mem⟩
  · have appending : Ensures (fun _ => True) (edit (.appendVariable d .locals v)) s fun _ t =>
        t.spec.nodes = s.spec.nodes := ensures_edit rfl
    refine (tidying_appendVariable.and appending).seq ?_
    rintro _ t ⟨⟨routine, declared⟩, nodes⟩
    exact ⟨routine, nodes, sameName_refl _, declared⟩

/-- A host hands over a flag that its net declares, and the error task in what the host runs sets
the flag inside. -/
theorem tidying_bindInnerFlag {eventId target : String} (placed : s.spec.Placed)
    (mem : host ∈ (s.spec.decomposition d).nodes)
    (declared : declares (s.spec.decomposition d).allVariables v.name = true)
    (same : sameName (exceptionFlag (s.spec.node host).id (s.spec.node source).id) v.name = true) :
    Ensures (fun _ => True) (bindInnerFlag host source eventId target v inner) s fun _ t =>
      Routine Tidying s t := by
  rw [bindInnerFlag_eq, ensures_bind, ensures_spec]
  refine (tidying_addCompleted (placed.housed mem) fun _ =>
    ⟨declared, _, _, flagQuery_eq_constantQuery, same⟩).seq fun _ s₁ first => ?_
  refine tidying_ensureFlag.seq ?_
  rintro inside s₂ ⟨second, _, named, declaredInside⟩
  have declaring : Relates (Routine Tidying) (edit (.declareVariable inner .outputs
      { name := innerFlag (s.spec.node source).id, type := "boolean" })) :=
    routine_edit Edit.relates_declareVariable
  refine (declaring.and_ensures (ensures_quiet_edit (Edit.ensures_declareVariable _ _))).seq ?_
  rintro _ s₃ ⟨third, quiet⟩
  have before := first.trans (second.trans third)
  refine Ensures.mono (ensures_setByError_of fun task found => ?_) fun _ _ => before.trans
  have isInside := (errorTask?_some found).1
  have placed₃ := before.enlarged.placed placed
  have stored : inner.index < s₂.spec.decompositions.size := by
    rw [← decompositions_size_of_skeleton quiet.skeleton]
    exact decomposition_stored isInside
  exact tidying_addCompleted (placed₃.housed isInside) fun _ =>
    ⟨third.enlarged.declares_all (declaredInside stored), _, _, rfl, named⟩

/-! ### Boundary events -/

theorem tidying_routeError (placed : s.spec.Placed)
    (mem : host ∈ (s.spec.decomposition scope.net).nodes) :
    Ensures (fun _ => True) (routeError job scope host source event) s fun _ t =>
      Routine Tidying s t := by
  unfold routeError
  refine (routine_eventTarget (R := Tidying) s).seq fun target s₁ first => ?_
  split
  · exact first
  · dsimp only
    rw [ensures_bind, ensures_spec]
    refine (edgesOnly_linkHandler s₁).seq fun _ s₂ linked => ?_
    have second : Routine Tidying s₁ s₂ := ⟨Wiring.edges linked.change, linked.finished⟩
    refine tidying_ensureFlag.seq ?_
    rintro flag s₃ ⟨third, nodes, named, declared⟩
    have before := first.trans (second.trans third)
    have mem₃ := before.enlarged.mem mem
    split
    · exact before
    · have ids : ∀ k, (s₃.spec.node k).id = (s₁.spec.node k).id := by
        intro k
        rw [← linked.change.id]
        unfold Specification.node
        rw [nodes]
      refine (tidying_bindInnerFlag (before.enlarged.placed placed) mem₃
        (declared (decomposition_stored mem₃)) ?_).mono fun _ _ => before.trans
      rw [ids, ids]
      exact named

theorem tidying_routeOthers {events : List Diagram.NodeId} (placed : s.spec.Placed)
    (mem : host ∈ (s.spec.decomposition scope.net).nodes) :
    Ensures (fun _ => True) (events.forM (routeOther job scope n host source)) s fun _ t =>
      Routine Tidying s t := by
  refine ensures_forM_done (fun _ t => Routine Tidying s t) ?_ (.refl s)
  rintro _ event _ t _ routine
  have larger := routine.enlarged
  unfold routeOther
  dsimp only
  split
  · refine (tidying_routeError (larger.placed placed) (larger.mem mem)).mono ?_
    exact fun _ _ => routine.trans
  · exact routine.trans (routine_of_same rfl rfl)

theorem tidying_routeBoundary (placed : s.spec.Placed) (registered : Registered s.spec scope) :
    Ensures (fun _ => True) (routeBoundary job scope n) s fun _ t => Routine Tidying s t := by
  refine ensures_routeBoundary_routine (P := fun y _ t => t.spec.Placed ∧
    y ∈ (t.spec.decomposition scope.net).nodes) (fun _ _ => tidying_placeTimer) ?_ ?_ ?_
  · intro y t found routine
    exact ⟨routine.enlarged.placed placed, routine.enlarged.mem (registered n y found)⟩
  · rintro y t ⟨placed, mem⟩
    refine (routine_splitExclusively (R := Tidying) t).mono fun _ _ routine => ?_
    exact ⟨routine.enlarged.placed placed, routine.enlarged.mem mem⟩
  · exact fun y source t events both => tidying_routeOthers both.1 both.2

/-! ### Whole nets -/

theorem Course.tidying (course : Course job container scope scope' terminations s s₁ s₂ s₃ t) :
    Tidying s.spec t.spec := by
  refine course.change ?_
  have routing := ensures_routeHosts_routine (P := fun _ _ => True)
    (fun n scope s _ wf mapped _ => tidying_routeBoundary (n := n) wf.placed mapped.registered)
    (fun _ _ _ _ _ _ _ => trivial) (fun n => course.laid.isHost) course.wf₁ course.mapped₁ trivial
  exact routing.of_ok course.stages.route

theorem tidying_openNet : Relates (Routine Tidying) (openNet job container) := by
  refine routine_openNet_of fun id isRoot s => ?_
  rw [Edit.ensures_createDecomposition]
  exact .of_sameMappings (.of_kinds (.addDecomposition rfl) fun _ => ⟨rfl, rfl⟩)

theorem stagewise_tidying : Stagewise Tidying job where
  openNet _ := tidying_openNet
  counterpart := tidying_counterpart
  subprocess isActivity stored := tidying_placeActivity isActivity fun _ same => by
    cases same
    exact stored
  foldAll _ := routine_foldAll
  closeConditions _ := routine_closeConditions Wiring.edges
  bindData laid := tidying_bindData laid.wf.placed laid.mapped.registered
  course := Course.tidying

theorem compile_tidy {index : Int} (h : compile job index = .ok s) : s.spec.Tidy :=
  (stagewise_tidying.compile h).tidy (.of_empty rfl)

/-- Every mapping of a task is about a variable of its net. A mapping that is evaluated when the
task starts is the query for just that variable, and one that is evaluated when the task completes
is an element of the same name. -/
theorem mappings_use_net_variables {index : Int} (h : compile job index = .ok s)
    (mem : y ∈ (s.spec.decomposition d).nodes) {task : Task} (found : s.spec.task? y = some task) :
    (∀ m ∈ task.starting, declares (s.spec.decomposition d).allVariables m.target.name = true ∧
      m.query = variableQuery (s.spec.decomposition d).id m.target.name) ∧
    ∀ m ∈ task.completed, declares (s.spec.decomposition d).allVariables m.target.name = true ∧
      ∃ name text, m.query = constantQuery name text ∧ sameName name m.target.name = true := by
  have tidy := compile_tidy h
  obtain ⟨starting, completed⟩ := mappings_of_task found
  rw [← starting, ← completed]
  refine ⟨fun m isStarting => ?_, fun m isCompleted => ?_⟩
  · obtain ⟨declared, query⟩ := tidy.starting mem m isStarting
    exact ⟨declared, query⟩
  · obtain ⟨declared, query⟩ := tidy.completed mem m isCompleted
    exact ⟨declared, query⟩

/-- A task with data that can fail, and then a timer. -/
def weighed : Job where
  diagram := sketch
    [.startEvent, .task { weighing with attached := [⟨4⟩] } {},
      .intermediate (.timer "" "") none, .endEvent .plain, .intermediate .error (some ⟨1⟩)]
    [(0, 1), (1, 2), (2, 3), (4, 2)]

theorem mappings_use_net_variables_weighed : ∃ s task, compile weighed 0 = .ok s ∧
    s.spec.task? ⟨1⟩ = some task ∧ task.starting.map (·.target.name) = ["Weight", "NOTE", "sum"] ∧
      task.completed.map (·.target.name) =
        ["Weight", "sum", "Node_task_1_Node_task_1_exception"] ∧
      (∀ m ∈ task.starting, declares (s.spec.decomposition ⟨0⟩).allVariables m.target.name = true ∧
        m.query = variableQuery (s.spec.decomposition ⟨0⟩).id m.target.name) ∧
      ∀ m ∈ task.completed, declares (s.spec.decomposition ⟨0⟩).allVariables m.target.name = true ∧
        ∃ name text, m.query = constantQuery name text ∧ sameName name m.target.name = true := by
  obtain ⟨s, run, checked⟩ := exists_result weighed 0
    (fun s => decide (⟨1⟩ ∈ (s.spec.decomposition ⟨0⟩).nodes ∧ ∃ task ∈ s.spec.task? ⟨1⟩,
      task.starting.map (·.target.name) = ["Weight", "NOTE", "sum"] ∧
        task.completed.map (·.target.name) =
          ["Weight", "sum", "Node_task_1_Node_task_1_exception"])) (by decide +kernel)
  obtain ⟨mem, task, found, starting, completed⟩ := of_decide_eq_true checked
  exact ⟨s, task, run, found, starting, completed, mappings_use_net_variables run mem found⟩

end ProcessNets.Compile
