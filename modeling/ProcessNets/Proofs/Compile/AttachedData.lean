import ProcessNets.Proofs.Compile.Parameters
import ProcessNets.Proofs.Net.Dataless

/-!
# Variables attached to tasks

What binding a variable of a net to tasks does, list by list: a task gets a mapping for it, evaluated
when the task starts or when it completes, and what the task runs gets a parameter on that side.
-/

namespace ProcessNets.Compile

open Net Specification
open Diagram (AssignTime)

variable {E : Fault → Prop} {s t u : Specification} {state : State} {c d inner : DecompositionId}
  {y z : Net.NodeId} {ys zs : List Net.NodeId} {time other : AssignTime} {v : Variable}
  {query : String} {task : Task}

/-! ### Single mappings -/

/-- The task with one more mapping, evaluated at a time, unless its query is there already. -/
def withMapping (time : AssignTime) (query : String) (v : Variable) (task : Task) : Task :=
  match time with
  | .start => { task with starting := addMapping task.starting query v }
  | .finish => { task with completed := addMapping task.completed query v }

theorem withMapping_data (time : AssignTime) (query : String) (v : Variable) (task : Task) :
    ∃ starting completed, withMapping time query v task = { task with starting, completed } := by
  cases time
  · exact ⟨_, task.completed, rfl⟩
  · exact ⟨task.starting, _, rfl⟩

theorem mappings_of_none (none : s.task? y = none) : mappings s time y = [] := by
  have isCondition : (s.node y).kind.starting = [] ∧ (s.node y).kind.completed = [] := by
    unfold task? at none
    cases kind : (s.node y).kind with
    | task task =>
      rw [kind] at none
      cases none
    | _ => exact ⟨rfl, rfl⟩
  cases time
  · exact isCondition.1
  · exact isCondition.2

theorem mappings_withMapping : mappings (s.modifyTask y (withMapping time query v)) other z =
    if other = time ∧ z = y ∧ (s.task? z).isSome then addMapping (mappings s other z) query v
    else mappings s other z := by
  by_cases here : z = y
  · subst here
    cases found : s.task? z with
    | none =>
      have after : (s.modifyTask z (withMapping time query v)).task? z = none := by
        rw [task?_modifyTask, if_pos rfl, found]
        rfl
      rw [mappings_of_none after, mappings_of_none found]
      simp
    | some task =>
      have before := mappings_of_task found
      have after := mappings_of_task (task?_modifyTask_self (g := withMapping time query v) found)
      cases time <;> cases other <;>
        simp [mappings, before.1, before.2, after.1, after.2, withMapping]
  · have same : mappings (s.modifyTask y (withMapping time query v)) other z =
        mappings s other z := by
      unfold mappings starting completed
      rw [node_modifyTask_of_ne here]
    rw [same, if_neg fun both => here both.2.1]

theorem owner_of_skeleton (h : t.skeleton = s.skeleton) : owner t d y time = owner s d y time := by
  cases time
  · exact decomposition_id_of_skeleton h d
  · exact id_of_skeleton h y

/-! ### Attached variables -/

/-- A variable of the net was attached to the tasks among the nodes: each has a mapping for it,
evaluated at the time, and what it runs has a parameter. -/
structure BoundAt (time : AssignTime) (d : DecompositionId) (v : Variable)
    (ys : List Net.NodeId) (s t : Specification) : Prop where
  dataless : t.dataless = s.dataless
  locals : ∀ c, (t.decomposition c).locals = (s.decomposition c).locals
  mappings : ∀ other y, mappings t other y =
    if other = time ∧ y ∈ ys ∧ (s.task? y).isSome then
      addMapping (mappings s other y) (variableQuery (owner s d y other) v.name) v
    else mappings s other y
  parameters : ∀ other c, (t.decomposition c).list (parameterList other) =
    if other = time ∧ ∃ y ∈ ys, s.runs? y = some c then
      declare ((s.decomposition c).list (parameterList other)) v
    else (s.decomposition c).list (parameterList other)

namespace BoundAt

theorem skeleton (h : BoundAt time d v ys s t) : t.skeleton = s.skeleton :=
  skeleton_of_dataless h.dataless

theorem nil : BoundAt time d v [] s s where
  dataless := rfl
  locals _ := rfl
  mappings := by simp
  parameters := by simp

theorem of_none (none : s.task? y = none) : BoundAt time d v [y] s s where
  dataless := rfl
  locals _ := rfl
  mappings other z := by
    refine (if_neg ?_).symm
    rintro ⟨_, listed, isTask⟩
    rw [List.mem_singleton.mp listed, none] at isTask
    cases isTask
  parameters other c := by
    refine (if_neg ?_).symm
    rintro ⟨_, z, listed, runs⟩
    rw [List.mem_singleton.mp listed, runs?_eq_bind, none] at runs
    cases runs

/-- The specification with a mapping for the variable at one node. -/
def mapped (time : AssignTime) (d : DecompositionId) (v : Variable) (y : Net.NodeId)
    (s : Specification) : Specification :=
  s.modifyTask y (withMapping time (variableQuery (owner s d y time) v.name) v)

theorem mappings_mapped (time : AssignTime) (d : DecompositionId) (v : Variable)
    (y : Net.NodeId) (s : Specification) (other : AssignTime) (z : Net.NodeId) :
    Compile.mappings (mapped time d v y s) other z =
      if other = time ∧ z ∈ [y] ∧ (s.task? z).isSome then
        addMapping (Compile.mappings s other z) (variableQuery (owner s d z other) v.name) v
      else Compile.mappings s other z := by
  unfold mapped
  rw [mappings_withMapping]
  by_cases same : other = time ∧ z = y ∧ (s.task? z).isSome
  · obtain ⟨rfl, rfl, isTask⟩ := same
    rw [if_pos ⟨rfl, rfl, isTask⟩, if_pos ⟨rfl, by simp, isTask⟩]
  · rw [if_neg same, if_neg fun both =>
      same ⟨both.1, List.mem_singleton.mp both.2.1, both.2.2⟩]

theorem of_idle (idle : s.runs? y = none) : BoundAt time d v [y] s (mapped time d v y s) where
  dataless := dataless_modifyTask (withMapping_data _ _ _)
  locals _ := rfl
  mappings := mappings_mapped time d v y s
  parameters other c := by
    refine (if_neg ?_).symm
    rintro ⟨_, z, listed, runs⟩
    rw [List.mem_singleton.mp listed, idle] at runs
    cases runs

theorem of_runs (runs : s.runs? y = some inner) (stored : inner.index < s.decompositions.size) :
    BoundAt time d v [y] s ((mapped time d v y s).modifyDecomposition inner
      fun net => net.modifyList (parameterList time) (declare · v)) := by
  have stored' : inner.index < (mapped time d v y s).decompositions.size := stored
  refine ⟨?_, fun c => ?_, mappings_mapped time d v y s, fun other c => ?_⟩
  · rw [dataless_modifyList]
    exact dataless_modifyTask (withMapping_data _ _ _)
  · have list := list_modifyList (c := c) stored' (parameterList time) .locals (declare · v)
    rw [if_neg (by cases time <;> simp [parameterList])] at list
    exact list
  · rw [list_modifyList stored']
    have same : (parameterList other = parameterList time ∧ c = inner) ↔
        other = time ∧ ∃ z ∈ [y], s.runs? z = some c := by
      cases time <;> cases other <;> simp [parameterList, runs, eq_comm]
    simp only [same]
    rfl

theorem append (h : BoundAt time d v ys s t) (h' : BoundAt time d v zs t u) :
    BoundAt time d v (ys ++ zs) s u where
  dataless := h'.dataless.trans h.dataless
  locals c := (h'.locals c).trans (h.locals c)
  mappings other x := by
    rw [h'.mappings, h.mappings, owner_of_skeleton h.skeleton, task?_isSome_of_skeleton h.skeleton]
    by_cases isTime : other = time <;> by_cases isTask : (s.task? x).isSome <;>
      by_cases first : x ∈ ys <;> by_cases second : x ∈ zs <;>
        simp [isTime, isTask, first, second]
  parameters other c := by
    rw [h'.parameters, h.parameters]
    have runs : (∃ y ∈ zs, t.runs? y = some c) ↔ ∃ y ∈ zs, s.runs? y = some c := by
      simp only [runs?_of_skeleton h.skeleton]
    have either : (∃ y ∈ ys ++ zs, s.runs? y = some c) ↔
        (∃ y ∈ ys, s.runs? y = some c) ∨ ∃ y ∈ zs, s.runs? y = some c := by
      simp only [List.mem_append, or_and_right, exists_or]
    simp only [runs, either]
    by_cases isTime : other = time <;> by_cases first : ∃ y ∈ ys, s.runs? y = some c <;>
      by_cases second : ∃ y ∈ zs, s.runs? y = some c <;> simp [isTime, first, second]

section
variable {sides : AssignTime → List Net.NodeId} (reads : BoundAt .start d v (sides .start) s t)
  (writes : BoundAt .finish d v (sides .finish) t u)
include reads writes

theorem mappings_both : Compile.mappings u time y =
    if y ∈ sides time ∧ (s.task? y).isSome then
      addMapping (Compile.mappings s time y) (variableQuery (owner s d y time) v.name) v
    else Compile.mappings s time y := by
  rw [writes.mappings, reads.mappings, owner_of_skeleton reads.skeleton,
    task?_isSome_of_skeleton reads.skeleton]
  cases time <;> simp

theorem parameters_both : (u.decomposition c).list (parameterList time) =
    if ∃ y ∈ sides time, s.runs? y = some c then
      declare ((s.decomposition c).list (parameterList time)) v
    else (s.decomposition c).list (parameterList time) := by
  rw [writes.parameters, reads.parameters]
  simp only [runs?_of_skeleton reads.skeleton]
  cases time <;> simp

end

end BoundAt

/-! ### Binding ends -/

theorem ensures_addStarting_mapped (found : state.spec.task? y = some task)
    (isQuery : query = variableQuery (owner state.spec d y .start) v.name) :
    Ensures E (edit (.addStarting y query v)) state fun _ t =>
      t.spec = BoundAt.mapped .start d v y state.spec := by
  apply ensures_edit
  apply Edit.ensures_addStarting_of_task found
  rw [isQuery]
  rfl

theorem ensures_addCompleted_mapped (found : state.spec.task? y = some task)
    (isQuery : query = variableQuery (owner state.spec d y .finish) v.name) :
    Ensures E (edit (.addCompleted y query v)) state fun _ t =>
      t.spec = BoundAt.mapped .finish d v y state.spec := by
  apply ensures_edit
  apply Edit.ensures_addCompleted_of_task found
  rw [isQuery]
  rfl

theorem ensures_declare_modified {which : VariableList} :
    Ensures E (do let _ ← edit (.declareVariable d which v)) state fun _ t =>
      t.spec = state.spec.modifyDecomposition d fun net => net.modifyList which (declare · v) :=
  rfl

/-- A parameter of what a task runs completes the binding of the variable. -/
theorem BoundAt.ensures_declared (time : AssignTime) (runs : s.runs? y = some inner)
    (stored : inner.index < s.decompositions.size) (same : state.spec = mapped time d v y s) :
    Ensures E (do let _ ← edit (.declareVariable inner (parameterList time) v)) state
      fun _ t => BoundAt time d v [y] s t.spec := by
  refine ensures_declare_modified.mono fun _ t declared => ?_
  rw [declared, same]
  exact .of_runs runs stored

theorem ensures_bindReader_bound
    (isQuery : query = variableQuery (owner state.spec d y .start) v.name)
    (stored : ∀ c, state.spec.runs? y = some c → c.index < state.spec.decompositions.size) :
    Ensures E (bindReader query v y) state fun _ t => BoundAt .start d v [y] state.spec t.spec := by
  unfold bindReader
  rw [ensures_bind, ensures_spec]
  cases found : state.spec.task? y with
  | none => exact .of_none found
  | some task =>
    have runs : state.spec.runs? y = task.decomposesTo := by
      rw [runs?_eq_bind, found]
      rfl
    refine (ensures_addStarting_mapped found isQuery).seq fun _ t same => ?_
    cases isInner : task.decomposesTo with
    | none =>
      rw [ensures_pure, same]
      exact .of_idle (runs.trans isInner)
    | some inner =>
      have isRun := runs.trans isInner
      exact BoundAt.ensures_declared .start isRun (stored inner isRun) same

theorem ensures_bindWriter_bound
    (stored : ∀ c, state.spec.runs? y = some c → c.index < state.spec.decompositions.size) :
    Ensures E (bindWriter v y) state fun _ t => BoundAt .finish d v [y] state.spec t.spec := by
  unfold bindWriter
  rw [ensures_bind, ensures_spec]
  cases found : state.spec.task? y with
  | none => exact .of_none found
  | some task =>
    have runs : state.spec.runs? y = task.decomposesTo := by
      rw [runs?_eq_bind, found]
      rfl
    rw [ensures_bind, ensures_taskQuery_owner (d := d)]
    refine (ensures_addCompleted_mapped found rfl).seq fun _ t same => ?_
    cases isInner : task.decomposesTo with
    | none =>
      rw [ensures_pure, same]
      exact .of_idle (runs.trans isInner)
    | some inner =>
      have isRun := runs.trans isInner
      exact BoundAt.ensures_declared .finish isRun (stored inner isRun) same

section
variable (stored : ∀ y c, state.spec.runs? y = some c → c.index < state.spec.decompositions.size)
include stored

theorem BoundAt.runs_stored (h : BoundAt time d v ys state.spec t) :
    ∀ y c, t.runs? y = some c → c.index < t.decompositions.size := by
  intro y c runs
  rw [runs?_of_skeleton h.skeleton] at runs
  rw [decompositions_size_of_skeleton h.skeleton]
  exact stored y c runs

theorem ensures_bindReaders (isQuery : query = variableQuery (state.spec.decomposition d).id v.name) :
    Ensures E (ys.forM (bindReader query v)) state fun _ (t : State) =>
      BoundAt .start d v ys state.spec t.spec := by
  refine ensures_forM_done (fun done (t : State) => BoundAt .start d v done state.spec t.spec) ?_ .nil
  rintro done y rest t _ bound
  have isQuery' : query = variableQuery (owner t.spec d y .start) v.name := by
    rw [owner_of_skeleton bound.skeleton]
    exact isQuery
  exact (ensures_bindReader_bound isQuery' (bound.runs_stored stored y)).mono fun _ _ => bound.append

theorem ensures_bindWriters :
    Ensures E (ys.forM (bindWriter v)) state fun _ (t : State) =>
      BoundAt .finish d v ys state.spec t.spec := by
  refine ensures_forM_done (fun done (t : State) => BoundAt .finish d v done state.spec t.spec) ?_ .nil
  rintro done y rest t _ bound
  exact (ensures_bindWriter_bound (bound.runs_stored stored y)).mono fun _ _ => bound.append

end

end ProcessNets.Compile
