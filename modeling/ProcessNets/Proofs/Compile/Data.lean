import ProcessNets.Proofs.Compile.Steps
import ProcessNets.Proofs.Net.Editing

/-!
# Data leaves the shape alone

Binding variables, mappings, roles, instances and timers changes the data of a specification only:
the steps here are `Quiet`.
-/

namespace ProcessNets

open Net Specification

variable {s : Specification} {n : Net.NodeId} {d : DecompositionId}

namespace Net.Edit

variable {E : Net.Fault → Prop} {inside : DecompositionId → Prop}

/-! ### Edits of data -/

theorem ensures_addStarting (task : (s.task? n).isSome) (query : String) (v : Variable) :
    Ensures E (addStarting n query v) s fun _ t => DataOnly inside s t := by
  obtain ⟨found, isTask⟩ := Option.isSome_iff_exists.mp task
  apply ensures_addStarting_of_task isTask
  exact .of_modifyTask (fun _ => rfl) (fun _ => rfl) fun _ => List.Subset.refl _

theorem ensures_addCompleted (task : (s.task? n).isSome) (query : String) (v : Variable) :
    Ensures E (addCompleted n query v) s fun _ t => DataOnly inside s t := by
  obtain ⟨found, isTask⟩ := Option.isSome_iff_exists.mp task
  apply ensures_addCompleted_of_task isTask
  exact .of_modifyTask (fun _ => rfl) (fun _ => rfl) fun _ => subset_addMapping

theorem ensures_declareVariable (which : VariableList) (v : Variable) :
    Ensures E (declareVariable d which v) s fun _ t => DataOnly inside s t := by
  unfold declareVariable
  simp only [ensures_bind, ensures_get, ensures_modify, ensures_pure]
  exact .of_modifyList which _

theorem ensures_appendVariable (which : VariableList) (v : Variable) :
    Ensures E (appendVariable d which v) s fun _ t => DataOnly inside s t := by
  unfold appendVariable
  rw [ensures_modify]
  exact .of_modifyList which _

/-! ### Edits of control flow -/

theorem ensures_updateTask_inside (task : (s.task? n).isSome)
    (mem : n ∈ (s.decomposition d).nodes) {f : Task → Task}
    (runs : ∀ t, (f t).decomposesTo = t.decomposesTo)
    (grows : ∀ t, t.completed ⊆ (f t).completed) :
    Ensures E (updateTask n f) s fun _ t => t = s.modifyTask n f ∧ DataOnly (· = d) s t := by
  obtain ⟨found, isTask⟩ := Option.isSome_iff_exists.mp task
  apply ensures_updateTask isTask
  exact ⟨rfl, .of_modifyTask_inside runs grows rfl mem⟩

/-- Beside data, only cancellation sets change, and only those of tasks in the decomposition. -/
structure CancelsOnly (d : DecompositionId) (s t : Specification) : Prop where
  data : DataOnly (· = d) s t
  routing : SameRouting s t

theorem CancelsOnly.refl (s : Specification) : CancelsOnly d s s :=
  ⟨.refl s, .refl s⟩

theorem CancelsOnly.trans {u : Specification} (h : CancelsOnly d s t) (h' : CancelsOnly d t u) :
    CancelsOnly d s u :=
  ⟨h.data.trans h'.data, h.routing.trans h'.routing⟩

theorem ensures_cancel (task : (s.task? n).isSome) (mem : n ∈ (s.decomposition d).nodes)
    (other : Option NodeId) : Ensures E (cancel n other) s fun _ t => CancelsOnly d s t := by
  obtain ⟨found, isTask⟩ := Option.isSome_iff_exists.mp task
  unfold cancel
  rw [ensures_bind]
  apply ensures_requireTask isTask
  cases other with
  | none => exact .refl s
  | some other =>
    rw [ensures_bind, ensures_get]
    split
    · exact .refl s
    · rw [ensures_bind, ensures_modify, ensures_pure]
      exact ⟨.of_modifyTask_inside (fun _ => rfl) (fun _ => List.Subset.refl _) rfl mem,
        .of_modifyTask (fun _ => rfl) fun _ => rfl⟩

theorem ensures_cancelAll (task : (s.task? n).isSome) (mem : n ∈ (s.decomposition d).nodes) :
    Ensures E (cancelAll d n) s fun _ t => CancelsOnly d s t := by
  unfold cancelAll
  rw [ensures_bind, ensures_get]
  apply ensures_forM_rel CancelsOnly.refl CancelsOnly.trans
  intro other _ t same
  rw [ensures_bind]
  apply ensures_cancel
  · rwa [task?_isSome_of_skeleton same.data.skeleton]
  · rwa [nodes_of_skeleton same.data.skeleton]

end Net.Edit

namespace Compile

variable {E : Fault → Prop} {s t u : State} {job : Job} {task : Net.NodeId}

/-! ### Quiet steps -/

/-- Only data changes: no shape, no id, no registered activity, no finished net. Details change
in the given decompositions only. -/
structure Tuned (inside : DecompositionId → Prop) (s t : State) : Prop where
  spec : DataOnly inside s.spec t.spec
  count : t.count = s.count
  looping : t.looping = s.looping
  finished : t.finished = s.finished

/-- Only data changes, and no details. -/
abbrev Quiet : State → State → Prop := Tuned nowhere

namespace Tuned

variable {inside inside' : DecompositionId → Prop}

theorem refl (s : State) : Tuned inside s s :=
  ⟨.refl s.spec, rfl, rfl, rfl⟩

theorem trans (h : Tuned inside s t) (h' : Tuned inside t u) : Tuned inside s u :=
  ⟨h.spec.trans h'.spec, h'.count.trans h.count, h'.looping.trans h.looping,
    h'.finished.trans h.finished⟩

theorem mono (h : Tuned inside s t) (more : ∀ d, inside d → inside' d) : Tuned inside' s t :=
  ⟨h.spec.mono more, h.count, h.looping, h.finished⟩

theorem skeleton (h : Tuned inside s t) : t.spec.skeleton = s.spec.skeleton :=
  h.spec.skeleton

theorem isTask (h : Tuned inside s t) (task : (s.spec.task? n).isSome) :
    (t.spec.task? n).isSome := by
  rwa [task?_isSome_of_skeleton h.skeleton]

end Tuned

theorem Quiet.refl (s : State) : Quiet s s :=
  Tuned.refl s

theorem Quiet.trans (h : Quiet s t) (h' : Quiet t u) : Quiet s u :=
  Tuned.trans h h'

theorem Quiet.edge (h : Quiet s t) (e : Net.EdgeId) : t.spec.edge e = s.spec.edge e :=
  h.spec.edge e fun _ none => none.elim

theorem Quiet.tuned {inside : DecompositionId → Prop} (h : Quiet s t) : Tuned inside s t :=
  h.mono fun _ none => none.elim

theorem quiet_seq {α β : Type} {x : Compile α} {f : α → Compile β}
    (h : Ensures E x s fun _ t => Quiet s t)
    (rest : ∀ a t, Quiet s t → Ensures E (f a) t fun _ u => Quiet t u) :
    Ensures E (x >>= f) s fun _ u => Quiet s u :=
  h.seq fun a t first => (rest a t first).mono fun _ _ then' => first.trans then'

theorem ensures_tuned_edit {α : Type} {inside : DecompositionId → Prop} {operation : Edit α}
    (h : Ensures (fun f => E (.edit f)) operation s.spec fun _ u => DataOnly inside s.spec u) :
    Ensures E (edit operation) s fun _ t => Tuned inside s t :=
  ensures_edit (h.mono fun _ _ only => ⟨only, rfl, rfl, rfl⟩)

theorem ensures_cancels_edit {α : Type} {operation : Edit α}
    (h : Ensures (fun f => E (.edit f)) operation s.spec fun _ u => Edit.CancelsOnly d s.spec u) :
    Ensures E (edit operation) s fun _ t => Tuned (· = d) s t ∧ SameRouting s.spec t.spec :=
  ensures_edit (h.mono fun _ _ only => ⟨⟨only.data, rfl, rfl, rfl⟩, only.routing⟩)

theorem ensures_quiet_edit {α : Type} {operation : Edit α}
    (h : Ensures (fun f => E (.edit f)) operation s.spec fun _ u => DataOnly nowhere s.spec u) :
    Ensures E (edit operation) s fun _ t => Quiet s t :=
  ensures_tuned_edit h

theorem ensures_quiet_forM {α : Type} {items : List α} {f : α → Compile PUnit}
    (step : ∀ a ∈ items, ∀ t, Quiet s t → Ensures E (f a) t fun _ u => Quiet t u) :
    Ensures E (items.forM f) s fun _ t => Quiet s t :=
  ensures_forM_rel Quiet.refl Quiet.trans step

theorem ensures_modifyTask {f : Task → Task} (runs : ∀ t, (f t).decomposesTo = t.decomposesTo)
    (control : ∀ t, (f t).control = t.control) (grows : ∀ t, t.completed ⊆ (f t).completed) :
    Ensures E (edit (modify (·.modifyTask task f))) s fun _ t => Quiet s t := by
  apply ensures_quiet_edit
  rw [ensures_modify]
  exact .of_modifyTask runs control grows

theorem ensures_updateTask (isTask : (s.spec.task? task).isSome)
    (mem : task ∈ (s.spec.decomposition d).nodes) {f : Task → Task}
    (runs : ∀ t, (f t).decomposesTo = t.decomposesTo)
    (grows : ∀ t, t.completed ⊆ (f t).completed) :
    Ensures E (edit (.updateTask task f)) s fun _ t =>
      t.spec = s.spec.modifyTask task f ∧ Tuned (· = d) s t := by
  apply ensures_edit
  refine (Edit.ensures_updateTask_inside isTask mem runs grows).mono ?_
  rintro _ u ⟨same, only⟩
  exact ⟨same, only, rfl, rfl, rfl⟩

/-! ### Properties and assignments -/

theorem ensures_netQuery {v : Variable} :
    Ensures E (netQuery d v) s fun _ t => Quiet s t := by
  unfold netQuery
  rw [ensures_bind, ensures_spec, ensures_pure]
  exact .refl s

theorem ensures_taskQuery {v : Variable} :
    Ensures E (taskQuery task v) s fun _ t => Quiet s t := by
  unfold taskQuery
  rw [ensures_bind, ensures_spec, ensures_pure]
  exact .refl s

theorem ensures_resolveVariable {which : VariableList} {v : Variable} :
    Ensures E (resolveVariable d which v) s fun _ t => Quiet s t := by
  unfold resolveVariable
  rw [ensures_bind, ensures_get]
  exact ⟨.refl s.spec, rfl, rfl, rfl⟩

theorem ensures_start (h : (s.spec.task? task).isSome) (v : Variable) :
    Ensures E (do let _ ← edit (.addStarting task (← netQuery d v) v)) s fun _ t => Quiet s t :=
  quiet_seq ensures_netQuery fun _ _ quiet =>
    quiet_seq (ensures_quiet_edit (Edit.ensures_addStarting (quiet.isTask h) _ _))
      fun _ t _ => Quiet.refl t

theorem ensures_complete (h : (s.spec.task? task).isSome) (v : Variable) :
    Ensures E (do let _ ← edit (.addCompleted task (← taskQuery task v) v)) s
      fun _ t => Quiet s t :=
  quiet_seq ensures_taskQuery fun _ _ quiet =>
    quiet_seq (ensures_quiet_edit (Edit.ensures_addCompleted (quiet.isTask h) _ _))
      fun _ t _ => Quiet.refl t

theorem ensures_bindProperty (h : (s.spec.task? task).isSome) (property : Diagram.Property) :
    Ensures E (bindProperty d task property) s fun _ t => Quiet s t := by
  unfold bindProperty
  apply quiet_seq ensures_resolveVariable
  intro v t first
  apply quiet_seq ensures_netQuery
  intro query t' second
  have task' := second.isTask (first.isTask h)
  apply quiet_seq (ensures_quiet_edit (Edit.ensures_addStarting task' _ _))
  intro _ u third
  exact ensures_complete (third.isTask task') v

theorem ensures_bindProperties (h : (s.spec.task? task).isSome) (activity : Diagram.Activity) :
    Ensures E (bindProperties d activity task) s fun _ t => Quiet s t :=
  ensures_quiet_forM fun property _ _ quiet => ensures_bindProperty (quiet.isTask h) property

theorem ensures_bindAssignment (h : (s.spec.task? task).isSome)
    (assignment : Diagram.Assignment) :
    Ensures E (bindAssignment d task assignment) s fun _ t => Quiet s t := by
  unfold bindAssignment
  cases assignment.time with
  | start =>
    exact quiet_seq ensures_resolveVariable fun v t quiet => ensures_start (quiet.isTask h) v
  | finish =>
    exact quiet_seq ensures_resolveVariable fun v t quiet => ensures_complete (quiet.isTask h) v

theorem ensures_bindAssignments (h : (s.spec.task? task).isSome) (activity : Diagram.Activity) :
    Ensures E (bindAssignments d activity task) s fun _ t => Quiet s t :=
  ensures_quiet_forM fun assignment _ _ quiet =>
    ensures_bindAssignment (quiet.isTask h) assignment

theorem ensures_declare {which : VariableList} {v : Variable} :
    Ensures E (do let _ ← edit (.declareVariable d which v)) s fun _ t => Quiet s t :=
  quiet_seq (ensures_quiet_edit (Edit.ensures_declareVariable which v)) fun _ t _ => Quiet.refl t

theorem ensures_declareAll {which : VariableList} {vs : List Variable} :
    Ensures E (declareAll d which vs) s fun _ t => Quiet s t :=
  ensures_quiet_forM fun _ _ _ _ => ensures_declare

theorem ensures_declareTaskVariables {inner : Option DecompositionId} :
    Ensures E (declareTaskVariables d inner) s fun _ t => Quiet s t := by
  unfold declareTaskVariables
  rw [ensures_bind, ensures_get]
  apply quiet_seq ensures_declareAll
  intro _ t _
  cases inner with
  | none => exact Quiet.refl t
  | some inner => exact quiet_seq ensures_declareAll fun _ _ _ => ensures_declareAll

/-! ### Data objects -/

theorem ensures_quiet_tell {event : Log.Event} :
    Ensures E (tell event) s fun _ t => Quiet s t := by
  rw [ensures_tell]
  exact ⟨.refl s.spec, rfl, rfl, rfl⟩

theorem ensures_bindReader {query : String} {v : Variable} :
    Ensures E (bindReader query v task) s fun _ t => Quiet s t := by
  unfold bindReader
  rw [ensures_bind, ensures_spec]
  cases found : s.spec.task? task with
  | none => exact Quiet.refl s
  | some read =>
    have isTask : (s.spec.task? task).isSome := by rw [found]; rfl
    apply quiet_seq (ensures_quiet_edit (Edit.ensures_addStarting isTask query v))
    intro _ t _
    cases read.decomposesTo with
    | none => exact Quiet.refl t
    | some inner => exact ensures_declare

theorem ensures_bindWriter {v : Variable} :
    Ensures E (bindWriter v task) s fun _ t => Quiet s t := by
  unfold bindWriter
  rw [ensures_bind, ensures_spec]
  cases found : s.spec.task? task with
  | none => exact Quiet.refl s
  | some written =>
    have isTask : (s.spec.task? task).isSome := by rw [found]; rfl
    apply quiet_seq ensures_taskQuery
    intro query t first
    apply quiet_seq (ensures_quiet_edit (Edit.ensures_addCompleted (first.isTask isTask) query v))
    intro _ u _
    cases written.decomposesTo with
    | none => exact Quiet.refl u
    | some inner => exact ensures_declare

/-- Binding a data object fails only for a node that is none. -/
theorem ensures_bindDataObject {scope : Scope} {n : Diagram.NodeId}
    (mistyped : (job.diagram.node n).kind.isDataObject = false → E (.unsuited n)) :
    Ensures E (bindDataObject job scope n) s fun _ t => Quiet s t := by
  unfold bindDataObject
  dsimp only
  split
  · exact Quiet.refl s
  · rw [ensures_bind, ensures_spec]
    split
    · exact quiet_seq ensures_quiet_tell fun _ t _ => Quiet.refl t
    · cases kind : (job.diagram.node n).kind with
      | dataObject type value =>
        rw [ensures_bind, ensures_pure]
        apply quiet_seq (ensures_quiet_edit (Edit.ensures_appendVariable _ _))
        intro _ t _
        apply quiet_seq (ensures_quiet_forM fun _ _ _ _ => ensures_bindReader)
        intro _ t' _
        apply quiet_seq (ensures_quiet_forM fun _ _ _ _ => ensures_bindWriter)
        intro _ u _
        exact Quiet.refl u
      | _ =>
        apply mistyped
        rw [kind]
        rfl

/-- Why binding data may fail: the diagram lists another node among its data objects. -/
def Mistyped (job : Job) (fault : Fault) : Prop :=
  ∃ n ∈ job.diagram.dataObjects, (job.diagram.node n).kind.isDataObject = false ∧
    fault = .unsuited n

theorem mem_dataObjects {container : Diagram.Container} {n : Diagram.NodeId}
    (h : n ∈ dataObjects job container) :
    n ∈ job.diagram.dataObjects ∨ (job.diagram.node n).kind.isDataObject = true := by
  have folded : ∀ (children found : List Diagram.NodeId),
      n ∈ children.foldl (fun found n =>
        if (job.diagram.node n).kind.isDataObject ∧ n ∉ found then found ++ [n] else found) found →
      n ∈ found ∨ (job.diagram.node n).kind.isDataObject = true := by
    intro children
    induction children with
    | nil => exact fun _ hn => .inl hn
    | cons child rest ih =>
      intro found hn
      rw [List.foldl_cons] at hn
      rcases ih _ hn with hn | isData
      · split at hn
        · rename_i taken
          rw [List.mem_append, List.mem_singleton] at hn
          rcases hn with hn | rfl
          · exact .inl hn
          · exact .inr taken.1
        · exact .inl hn
      · exact .inr isData
  exact folded _ _ h

theorem ensures_bindData {container : Diagram.Container} {scope : Scope}
    (mistyped : ∀ f, Mistyped job f → E f) :
    Ensures E (bindData job container scope) s fun _ t => Quiet s t := by
  apply ensures_quiet_forM
  intro n hn t _
  refine quiet_seq (ensures_bindDataObject fun other => ?_) fun _ u _ => Quiet.refl u
  rcases mem_dataObjects hn with listed | isData
  · exact mistyped _ ⟨n, listed, other, rfl⟩
  · rw [isData] at other
    cases other

/-! ### Work items -/

theorem ensures_laneRole {node : Diagram.Node} :
    Ensures E (laneRole job node) s fun _ t => Quiet s t := by
  unfold laneRole
  split
  · dsimp only
    split
    · exact quiet_seq ensures_quiet_tell fun _ t _ => Quiet.refl t
    · exact Quiet.refl s
  · exact Quiet.refl s

theorem ensures_bindResources {n : Diagram.NodeId} :
    Ensures E (bindResources job n task) s fun _ t => Quiet s t := by
  unfold bindResources
  dsimp only
  split
  · apply quiet_seq ensures_laneRole
    intro role t _
    exact quiet_seq (ensures_modifyTask (fun _ => rfl) (fun _ => rfl) fun _ => List.Subset.refl _)
      fun _ u _ => Quiet.refl u
  · exact Quiet.refl s

theorem ensures_requireActivity {n : Diagram.NodeId} {activity : Diagram.Activity}
    (h : (job.diagram.node n).kind.activity? = some activity)
    {post : Diagram.Activity → State → Prop} (hs : post activity s) :
    Ensures E (requireActivity job n) s post := by
  unfold requireActivity
  rw [h, ensures_pure]
  exact hs

theorem ensures_bindInstances {n : Diagram.NodeId} {activity : Diagram.Activity}
    (h : (job.diagram.node n).kind.activity? = some activity)
    (isTask : (s.spec.task? task).isSome) :
    Ensures E (bindInstances job d n task) s fun _ t => Quiet s t := by
  unfold bindInstances
  dsimp only
  refine quiet_seq (ensures_modifyTask (fun _ => rfl) (fun _ => rfl) fun _ => List.Subset.refl _)
    fun _ t first => ?_
  rw [ensures_bind]
  apply ensures_requireActivity h
  rw [ensures_bind, ensures_spec]
  refine quiet_seq (ensures_modifyTask (fun _ => rfl) (fun _ => rfl) fun _ => List.Subset.refl _)
    fun _ t' second => ?_
  apply quiet_seq (ensures_quiet_edit (Edit.ensures_declareVariable _ _))
  intro _ u third
  have task' := third.isTask (second.isTask (first.isTask isTask))
  obtain ⟨found, isTask'⟩ := Option.isSome_iff_exists.mp task'
  rw [ensures_bind]
  apply ensures_edit
  apply Edit.ensures_requireTask isTask'
  cases found.decomposesTo with
  | none => exact quiet_seq ensures_quiet_tell fun _ v _ => Quiet.refl v
  | some inner =>
    apply quiet_seq (ensures_quiet_edit (Edit.ensures_declareVariable _ _))
    intro _ v _
    exact quiet_seq ensures_quiet_tell fun _ w _ => Quiet.refl w

/-! ### Timers and flags -/

theorem ensures_timerMoment {eventId date : String} :
    Ensures E (timerMoment eventId date) s fun _ t => Quiet s t := by
  unfold timerMoment
  dsimp only
  -- the date must not be read while the goal is split
  generalize Text.strip date = text
  split
  · exact Quiet.refl s
  · split
    · exact Quiet.refl s
    · exact quiet_seq ensures_quiet_tell fun _ t _ => Quiet.refl t

theorem ensures_ensureFlag {flag : Variable} :
    Ensures E (ensureFlag d flag) s fun _ t => Quiet s t := by
  unfold ensureFlag
  rw [ensures_bind, ensures_spec]
  split
  · exact Quiet.refl s
  · exact quiet_seq (ensures_quiet_edit (Edit.ensures_appendVariable _ _)) fun _ t _ => Quiet.refl t

theorem ensures_cancelMutually {host : Net.NodeId} {timers : List Net.NodeId}
    (isTask : (s.spec.task? host).isSome) (areTasks : ∀ t ∈ timers, (s.spec.task? t).isSome)
    (mem : host ∈ (s.spec.decomposition d).nodes)
    (mems : ∀ t ∈ timers, t ∈ (s.spec.decomposition d).nodes) :
    Ensures E (cancelMutually host timers) s fun _ t =>
      Tuned (· = d) s t ∧ SameRouting s.spec t.spec := by
  unfold cancelMutually
  apply ensures_cancels_edit
  have keeps : ∀ {n t u}, Edit.CancelsOnly d t u →
      (Specification.task? t n).isSome ∧ n ∈ (t.decomposition d).nodes →
      (Specification.task? u n).isSome ∧ n ∈ (u.decomposition d).nodes := by
    rintro n t u only ⟨task, listed⟩
    rw [task?_isSome_of_skeleton only.data.skeleton, nodes_of_skeleton only.data.skeleton]
    exact ⟨task, listed⟩
  apply ensures_forM_rel Edit.CancelsOnly.refl Edit.CancelsOnly.trans
  intro timer member t₀ only₀
  obtain ⟨host₀, mem₀⟩ := keeps only₀ ⟨isTask, mem⟩
  rw [ensures_bind]
  refine (Edit.ensures_cancel host₀ mem₀ _).mono fun _ t₁ only₁ => ?_
  have timer₁ := keeps only₁ (keeps only₀ ⟨areTasks timer member, mems timer member⟩)
  rw [ensures_bind]
  refine (Edit.ensures_cancel timer₁.1 timer₁.2 _).mono fun _ t₂ only₂ => ?_
  refine (ensures_forM_rel Edit.CancelsOnly.refl Edit.CancelsOnly.trans ?_).mono fun _ t₃ last =>
    only₁.trans (only₂.trans last)
  intro other _ t₃ only₃
  obtain ⟨task₃, mem₃⟩ := keeps only₃ (keeps only₂ timer₁)
  rw [ensures_bind]
  exact (Edit.ensures_cancel task₃ mem₃ _).mono fun _ _ h => h

end Compile

end ProcessNets
