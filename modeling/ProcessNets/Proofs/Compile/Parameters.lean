import ProcessNets.Proofs.Compile.Finishing
import ProcessNets.Proofs.Compile.Placing
import ProcessNets.Proofs.Compile.Routine
import ProcessNets.Proofs.Net.Mappings

/-!
# Parameters of activities

The variables that an activity reads and writes are met one by one, before its task has a
decomposition. Each one met for the first time becomes a local, an input or an output, and keeps
its place when it is met again. At the end they are parameters of what the task runs, on the side
where they are mapped, apart from those that are `Torn`: variables of the net that the activity
does not have as a property, and assigns both when it starts and when it completes.
-/

namespace ProcessNets.Compile

open Net Specification
open Diagram (Activity Assignment AssignTime Property)
open ProcessNets.Text (sameName sameName_iff sameName_refl)

variable {E : Fault → Prop} {job : Job} {s t u : State} {d : DecompositionId} {y : Net.NodeId}
  {n : Diagram.NodeId} {activity : Activity} {time : AssignTime} {net : Decomposition}
  {tv tv' : TaskVariables} {v known : Variable} {name : String}

/-! ### Sides of an activity -/

/-- The list of parameters for what is assigned at a time. -/
def parameterList : AssignTime → VariableList
  | .start => .inputs
  | .finish => .outputs

namespace TaskVariables

/-- The variables met that are parameters on one side only. -/
def side (tv : TaskVariables) : AssignTime → List Variable
  | .start => tv.inputs
  | .finish => tv.outputs

/-- All variables met that become parameters on a side. -/
def exposed (tv : TaskVariables) (time : AssignTime) : List Variable :=
  tv.locals ++ tv.side time

/-- No variable that was met is lost. -/
structure Keeps (tv tv' : TaskVariables) : Prop where
  locals : tv.locals ⊆ tv'.locals
  side : ∀ time, tv.side time ⊆ tv'.side time

theorem Keeps.exposed (h : tv.Keeps tv') (declared : declares (tv.exposed time) name = true) :
    declares (tv'.exposed time) name = true := by
  rw [TaskVariables.exposed, declares_append] at declared ⊢
  exact declared.imp (declares_mono h.locals) (declares_mono (h.side time))

/-! ### Meeting a variable -/

/-- What a name means for a task: a variable met before, or else one of the net, which is noted in a
list, or else a new local. -/
inductive Resolved (tv : TaskVariables) (net : Decomposition) (which : VariableList)
    (v : Variable) : Variable → TaskVariables → Prop
  | met {known : Variable} (mem : known ∈ tv.locals ++ tv.inputs ++ tv.outputs)
      (same : sameName known.name v.name = true) : Resolved tv net which v known tv
  | known {known : Variable}
      (unmet : declares (tv.locals ++ tv.inputs ++ tv.outputs) v.name = false)
      (mem : known ∈ net.allVariables) (same : sameName known.name v.name = true) :
      Resolved tv net which v known (tv.note which known)
  | new : Resolved tv net which v v { tv with locals := tv.locals ++ [v] }

theorem resolved (tv : TaskVariables) (net : Decomposition) (which : VariableList) (v : Variable) :
    Resolved tv net which v (tv.resolve net which v).1 (tv.resolve net which v).2 := by
  unfold resolve
  cases met : tv.find? v.name with
  | some known =>
    obtain ⟨mem, same⟩ := findVariable?_some met
    exact .met mem same
  | none =>
    dsimp only
    cases isKnown : net.findVariable? v.name with
    | some known =>
      obtain ⟨mem, same⟩ := findVariable?_some isKnown
      exact .known (findVariable?_none met) mem same
    | none => exact .new

theorem Resolved.same {which : VariableList} (h : Resolved tv net which v known tv') :
    sameName known.name v.name = true := by
  cases h with
  | met _ same => exact same
  | known _ _ same => exact same
  | new => exact sameName_refl _

theorem keeps_note (which : VariableList) : tv.Keeps (tv.note which v) := by
  constructor
  · cases which
    · exact subset_declare
    · exact List.Subset.refl _
    · exact List.Subset.refl _
  · intro time
    cases which <;> cases time <;> first | exact subset_declare | exact List.Subset.refl _

theorem Resolved.keeps {which : VariableList} (h : Resolved tv net which v known tv') :
    tv.Keeps tv' := by
  cases h with
  | met => exact ⟨List.Subset.refl _, fun _ => List.Subset.refl _⟩
  | known => exact keeps_note which
  | new =>
    refine ⟨List.subset_append_left _ _, fun time => ?_⟩
    cases time <;> exact List.Subset.refl _

/-- Only locals were met. -/
structure OnlyLocals (tv : TaskVariables) : Prop where
  inputs : tv.inputs = []
  outputs : tv.outputs = []

/-- A variable that is met for a property is a local. -/
theorem Resolved.locals (h : Resolved tv net .locals v known tv') (only : tv.OnlyLocals) :
    tv'.OnlyLocals ∧ declares tv'.locals known.name = true := by
  cases h with
  | met mem _ =>
    rw [only.inputs, only.outputs, List.append_nil, List.append_nil] at mem
    exact ⟨only, declares_of_mem mem⟩
  | known => exact ⟨⟨only.inputs, only.outputs⟩, declares_declare⟩
  | new => exact ⟨⟨only.inputs, only.outputs⟩, declares_of_mem (by simp)⟩

end TaskVariables

open TaskVariables

/-! ### Torn variables -/

/-- The activity has the variable as a property. -/
def IsProperty (activity : Activity) (name : String) : Prop :=
  ∃ property ∈ activity.properties, sameName property.name name = true

/-- The activity assigns to the variable at a time. -/
def Assigned (activity : Activity) (time : AssignTime) (name : String) : Prop :=
  ∃ assignment ∈ activity.assignments, assignment.time = time ∧
    sameName assignment.target name = true

/-- The net has the variable, and the activity assigns to it on both sides. -/
structure Torn (net : Decomposition) (activity : Activity) (name : String) : Prop where
  known : declares net.allVariables name = true
  plain : ¬IsProperty activity name
  assigned : ∀ time, Assigned activity time name

instance : Decidable (IsProperty activity name) :=
  inferInstanceAs <| Decidable <|
    ∃ property ∈ activity.properties, sameName property.name name = true

instance : Decidable (Assigned activity time name) :=
  inferInstanceAs (Decidable (∃ assignment ∈ activity.assignments, assignment.time = time ∧
    sameName assignment.target name = true))

instance : Decidable (Torn net activity name) :=
  decidable_of_iff (declares net.allVariables name = true ∧ ¬IsProperty activity name ∧
    Assigned activity .start name ∧ Assigned activity .finish name)
    ⟨fun ⟨known, plain, start, finish⟩ => ⟨known, plain, fun
        | .start => start
        | .finish => finish⟩,
      fun torn => ⟨torn.known, torn.plain, torn.assigned .start, torn.assigned .finish⟩⟩

theorem IsProperty.congr {other : String} (h : IsProperty activity name)
    (same : sameName name other = true) : IsProperty activity other := by
  obtain ⟨property, mem, named⟩ := h
  exact ⟨property, mem, sameName_iff.mpr ((sameName_iff.mp named).trans (sameName_iff.mp same))⟩

/-- What the net has and is met on one side only is assigned there, and is no property. -/
structure Sorted (net : Decomposition) (activity : Activity) (tv : TaskVariables) : Prop where
  known : ∀ {time v}, v ∈ tv.side time → declares net.allVariables v.name = true
  plain : ∀ {time v}, v ∈ tv.side time → ¬IsProperty activity v.name
  assigned : ∀ {time v}, v ∈ tv.side time → Assigned activity time v.name

theorem Sorted.of_onlyLocals (only : tv.OnlyLocals) : Sorted net activity tv := by
  have empty : ∀ time, tv.side time = [] := by
    intro time
    cases time
    · exact only.inputs
    · exact only.outputs
  have none : ∀ {time v}, v ∉ tv.side time := by
    intro time v mem
    rw [empty] at mem
    cases mem
  exact ⟨fun mem => (none mem).elim, fun mem => (none mem).elim, fun mem => (none mem).elim⟩

/-- Every property of an activity is met as a local. -/
def Collected (activity : Activity) (tv : TaskVariables) : Prop :=
  ∀ property ∈ activity.properties, declares tv.locals property.name = true

theorem Collected.declares (h : Collected activity tv) (isProperty : IsProperty activity name) :
    Net.declares tv.locals name = true := by
  obtain ⟨property, mem, same⟩ := isProperty
  exact declares_congr same ▸ h property mem

theorem side_note {other : AssignTime}
    (mem : v ∈ (tv.note (parameterList time) known).side other) :
    v ∈ tv.side other ∨ v = known ∧ other = time := by
  cases time <;> cases other
  · exact (mem_declare.mp mem).imp_right fun new => ⟨new.1, rfl⟩
  · exact .inl mem
  · exact .inl mem
  · exact (mem_declare.mp mem).imp_right fun new => ⟨new.1, rfl⟩

/-- A variable that is met for an assignment is a parameter on the side of the assignment, unless it
is torn. -/
theorem TaskVariables.Resolved.exposed
    (h : Resolved tv net (parameterList time) v known tv') (sorted : Sorted net activity tv)
    (collected : Collected activity tv) (assigned : Assigned activity time v.name) :
    Sorted net activity tv' ∧
      (declares (tv'.exposed time) known.name = true ∨ Torn net activity known.name) := by
  have assigned' : Assigned activity time known.name := by
    obtain ⟨assignment, mem, isTime, same⟩ := assigned
    have named := (sameName_iff.mp same).trans (sameName_iff.mp h.same).symm
    exact ⟨assignment, mem, isTime, sameName_iff.mpr named⟩
  cases h with
  | met mem _ =>
    refine ⟨sorted, ?_⟩
    have placed : known ∈ tv.locals ∨ ∃ other, known ∈ tv.side other := by
      rcases List.mem_append.mp mem with mem | output
      · exact (List.mem_append.mp mem).imp_right fun input => ⟨.start, input⟩
      · exact .inr ⟨.finish, output⟩
    rcases placed with isLocal | ⟨other, mem⟩
    · exact .inl (declares_of_mem (List.mem_append_left _ isLocal))
    · by_cases here : other = time
      · subst here
        exact .inl (declares_of_mem (List.mem_append_right _ mem))
      · refine .inr ⟨sorted.known mem, sorted.plain mem, fun any => ?_⟩
        have there := sorted.assigned mem
        cases any <;> cases time <;> cases other <;> first | assumption | exact (here rfl).elim
  | known unmet mem same =>
    -- all properties were met before, so a variable that was not met is none of them
    have plain : ¬IsProperty activity known.name := by
      intro isProperty
      have met := collected.declares (isProperty.congr same)
      have contained : tv.locals ⊆ tv.locals ++ tv.inputs ++ tv.outputs := fun v mem =>
        List.mem_append_left _ (List.mem_append_left _ mem)
      rw [declares_mono contained met] at unmet
      cases unmet
    refine ⟨⟨fun mem' => ?_, fun mem' => ?_, fun mem' => ?_⟩, .inl ?_⟩
    · rcases side_note mem' with old | ⟨rfl, _⟩
      · exact sorted.known old
      · exact declares_of_mem mem
    · rcases side_note mem' with old | ⟨rfl, _⟩
      · exact sorted.plain old
      · exact plain
    · rcases side_note mem' with old | ⟨rfl, rfl⟩
      · exact sorted.assigned old
      · exact assigned'
    · refine declares_append.mpr (.inr ?_)
      cases time <;> exact declares_declare
  | new =>
    have sides : ∀ other,
        ({ tv with locals := tv.locals ++ [v] } : TaskVariables).side other = tv.side other := by
      intro other
      cases other <;> rfl
    refine ⟨⟨fun mem => ?_, fun mem => ?_, fun mem => ?_⟩, .inl (declares_of_mem ?_)⟩
    · exact sorted.known (sides _ ▸ mem)
    · exact sorted.plain (sides _ ▸ mem)
    · exact sorted.assigned (sides _ ▸ mem)
    · exact List.mem_append_left _ (List.mem_append_right _ List.mem_cons_self)

/-! ### Mappings of a task -/

/-- The mappings of a node that are evaluated at a time. -/
def mappings (spec : Specification) (time : AssignTime) (n : Net.NodeId) : List Mapping :=
  match time with
  | .start => spec.starting n
  | .finish => spec.completed n

/-- Whose data the mappings evaluated at a time read: those of the net, or those of the task. -/
def owner (spec : Specification) (d : DecompositionId) (y : Net.NodeId) : AssignTime → String
  | .start => (spec.decomposition d).id
  | .finish => (spec.node y).id

/-- At most the mappings of the node changed. -/
structure Remapped (y : Net.NodeId) (s t : Specification) : Prop extends Enlarged s t where
  decomposition : ∀ d, t.decomposition d = s.decomposition d
  others : ∀ n, n ≠ y → t.node n = s.node n
  taskId : (t.node y).id = (s.node y).id
  runs : t.runs? y = s.runs? y
  isTask : (t.task? y).isSome = (s.task? y).isSome

namespace Remapped

instance : Std.Refl (Remapped y) :=
  ⟨fun s => ⟨Std.Refl.refl s, fun _ => rfl, fun _ _ => rfl, rfl, rfl, rfl⟩⟩

instance : IsTrans Specification (Remapped y) :=
  ⟨fun _ _ _ h h' => ⟨h.toEnlarged.trans h'.toEnlarged,
    fun d => (h'.decomposition d).trans (h.decomposition d),
    fun n other => (h'.others n other).trans (h.others n other), h'.taskId.trans h.taskId,
    h'.runs.trans h.runs, h'.isTask.trans h.isTask⟩⟩

theorem owner {spec spec' : Specification} (h : Remapped y spec spec') :
    Compile.owner spec' d y time = Compile.owner spec d y time := by
  cases time
  · exact congrArg Decomposition.id (h.decomposition d)
  · exact h.taskId

end Remapped

/-- The node got a mapping, evaluated at a time, unless it had one with the same query. -/
structure Maps (y : Net.NodeId) (time : AssignTime) (mapping : Mapping)
    (s t : Specification) : Prop extends Remapped y s t where
  mapped : ∀ {other m}, m ∈ mappings t other y →
    m ∈ mappings s other y ∨ other = time ∧ m = mapping

theorem Remapped.modifyTask {spec : Specification} {g : Task → Task}
    (keeps : ∀ task, ∃ starting completed, task.completed ⊆ completed ∧
      g task = { task with starting, completed }) :
    Remapped y spec (spec.modifyTask y g) where
  toEnlarged := .modifyTask
  decomposition _ := rfl
  others _ other := node_modifyTask_of_ne other
  taskId := by
    unfold Specification.modifyTask
    rw [node_modifyNode]
    split <;> rfl
  runs := runs?_of_skeleton (DataOnly.of_mappings keeps : DataOnly nowhere _ _).skeleton y
  isTask := task?_isSome_of_skeleton (DataOnly.of_mappings keeps : DataOnly nowhere _ _).skeleton y

section
variable {query : String} (isTask : (s.spec.task? y).isSome)
include isTask

theorem ensures_addStarting_maps : Ensures E (edit (.addStarting y query v)) s fun _ t =>
    t.met = s.met ∧ Maps y .start ⟨query, v⟩ s.spec t.spec := by
  obtain ⟨task, found⟩ := Option.isSome_iff_exists.mp isTask
  apply ensures_edit
  apply Edit.ensures_addStarting_of_task found
  refine ⟨rfl, .modifyTask fun _ => ⟨_, _, List.Subset.refl _, rfl⟩, fun {time m} mem => ?_⟩
  have after := mappings_of_task (task?_modifyTask_self found
    (g := fun t => { t with starting := addMapping t.starting query v }))
  cases time with
  | start =>
    replace mem : m ∈ starting _ y := mem
    rw [after.1] at mem
    show m ∈ s.spec.starting y ∨ _
    rw [(mappings_of_task found).1]
    exact (mem_addMapping mem).imp_right fun new => ⟨rfl, new⟩
  | finish =>
    replace mem : m ∈ completed _ y := mem
    rw [after.2, ← (mappings_of_task found).2] at mem
    exact .inl mem

theorem ensures_addCompleted_maps : Ensures E (edit (.addCompleted y query v)) s fun _ t =>
    t.met = s.met ∧ Maps y .finish ⟨query, v⟩ s.spec t.spec := by
  obtain ⟨task, found⟩ := Option.isSome_iff_exists.mp isTask
  apply ensures_edit
  apply Edit.ensures_addCompleted_of_task found
  refine ⟨rfl, .modifyTask fun _ => ⟨_, _, subset_addMapping, rfl⟩, fun {time m} mem => ?_⟩
  have after := mappings_of_task (task?_modifyTask_self found
    (g := fun t => { t with completed := addMapping t.completed query v }))
  cases time with
  | start =>
    replace mem : m ∈ starting _ y := mem
    rw [after.1, ← (mappings_of_task found).1] at mem
    exact .inl mem
  | finish =>
    replace mem : m ∈ completed _ y := mem
    rw [after.2] at mem
    show m ∈ s.spec.completed y ∨ _
    rw [(mappings_of_task found).2]
    exact (mem_addMapping mem).imp_right fun new => ⟨rfl, new⟩

end

/-! ### Binding an activity -/

/-- The variable of a mapping has its place among the parameters, or is torn. -/
def HasPlace (net : Decomposition) (activity : Activity) (tv : TaskVariables) (time : AssignTime)
    (name : String) : Prop :=
  declares (tv.exposed time) name = true ∨ Torn net activity name

/-- The data of an activity is being bound to its task: all mappings so far copy a variable of the
net, which has its place. -/
structure Binding (activity : Activity) (d : DecompositionId) (y : Net.NodeId) (s t : State) :
    Prop where
  remapped : Remapped y s.spec t.spec
  isTask : (t.spec.task? y).isSome
  sorted : Sorted (s.spec.decomposition d) activity t.met
  query : ∀ {time m}, m ∈ mappings t.spec time y →
    m.query = variableQuery (owner s.spec d y time) m.target.name
  placed : ∀ {time m}, m ∈ mappings t.spec time y →
    HasPlace (s.spec.decomposition d) activity t.met time m.target.name

namespace Binding

theorem meets (h : Binding activity d y s t) (keeps : t.met.Keeps tv)
    (sorted : Sorted (s.spec.decomposition d) activity tv) :
    Binding activity d y s { t with met := tv } where
  remapped := h.remapped
  isTask := h.isTask
  sorted := sorted
  query := h.query
  placed mem := (h.placed mem).imp_left keeps.exposed

theorem maps (h : Binding activity d y s t)
    (h' : Maps y time ⟨variableQuery (owner t.spec d y time) v.name, v⟩ t.spec u.spec)
    (met : u.met = t.met) (placed : HasPlace (s.spec.decomposition d) activity t.met time v.name) :
    Binding activity d y s u where
  remapped := IsTrans.trans _ _ _ h.remapped h'.toRemapped
  isTask := h'.isTask ▸ h.isTask
  sorted := met ▸ h.sorted
  query mem := by
    rcases h'.mapped mem with old | ⟨rfl, rfl⟩
    · exact h.query old
    · rw [h.remapped.owner]
  placed mem := by
    rw [met]
    rcases h'.mapped mem with old | ⟨rfl, rfl⟩
    · exact h.placed old
    · exact placed

end Binding

theorem ensures_resolveVariable_resolved {which : VariableList} :
    Ensures E (resolveVariable d which v) s fun known t => ∃ tv, t = { s with met := tv } ∧
      s.met.Resolved (s.spec.decomposition d) which v known tv := by
  unfold resolveVariable
  rw [ensures_bind, ensures_get, ensures_bind, ensures_set, ensures_pure]
  exact ⟨_, rfl, s.met.resolved _ _ _⟩

theorem ensures_netQuery_owner {post : String → State → Prop} :
    Ensures E (netQuery d v) s post ↔ post (variableQuery (owner s.spec d y .start) v.name) s :=
  Iff.rfl

theorem ensures_taskQuery_owner {post : String → State → Prop} :
    Ensures E (taskQuery y v) s post ↔ post (variableQuery (owner s.spec d y .finish) v.name) s :=
  Iff.rfl

/-- The variables that are met while the properties of an activity are bound are locals. -/
theorem ensures_bindProperty_binding {property : Property} (binding : Binding activity d y s t)
    (only : t.met.OnlyLocals) :
    Ensures E (bindProperty d y property) t fun _ u => Binding activity d y s u ∧
      u.met.OnlyLocals ∧ t.met.Keeps u.met ∧ declares u.met.locals property.name = true := by
  unfold bindProperty
  refine ensures_resolveVariable_resolved.seq ?_
  rintro known _ ⟨tv, rfl, resolved⟩
  obtain ⟨only', isLocal⟩ := resolved.locals only
  have placed : ∀ time, HasPlace (s.spec.decomposition d) activity tv time known.name :=
    fun time => .inl (declares_append.mpr (.inl isLocal))
  have binding₁ := binding.meets resolved.keeps (.of_onlyLocals only')
  rw [ensures_bind, ensures_netQuery_owner (y := y)]
  refine (ensures_addStarting_maps binding₁.isTask).seq ?_
  rintro _ t₂ ⟨met₂, maps₂⟩
  have binding₂ := binding₁.maps maps₂ met₂ (placed .start)
  rw [ensures_bind, ensures_taskQuery_owner (d := d)]
  refine (ensures_addCompleted_maps binding₂.isTask).seq ?_
  rintro _ t₃ ⟨met₃, maps₃⟩
  have met : t₃.met = tv := met₃.trans met₂
  have placed₂ : HasPlace (s.spec.decomposition d) activity t₂.met .finish known.name := by
    rw [met₂]
    exact placed .finish
  rw [ensures_pure, met]
  exact ⟨binding₂.maps maps₃ met₃ placed₂, only', resolved.keeps,
    declares_congr resolved.same ▸ isLocal⟩

/-- A variable that is met for an assignment has its place on the side of the assignment. -/
theorem Binding.resolves (h : Binding activity d y s t) (time : AssignTime)
    (resolved : t.met.Resolved (t.spec.decomposition d) (parameterList time) v known tv)
    (collected : Collected activity t.met) (assigned : Assigned activity time v.name) :
    Binding activity d y s { t with met := tv } ∧
      HasPlace (s.spec.decomposition d) activity tv time known.name := by
  rw [h.remapped.decomposition] at resolved
  obtain ⟨sorted, placed⟩ := resolved.exposed h.sorted collected assigned
  exact ⟨h.meets resolved.keeps sorted, placed⟩

theorem ensures_bindAssignment_binding {assignment : Assignment}
    (binding : Binding activity d y s t) (collected : Collected activity t.met)
    (listed : assignment ∈ activity.assignments) :
    Ensures E (bindAssignment d y assignment) t fun _ u => Binding activity d y s u ∧
      t.met.Keeps u.met := by
  have assigned : Assigned activity assignment.time assignment.target :=
    ⟨assignment, listed, rfl, sameName_refl _⟩
  unfold bindAssignment
  cases time : assignment.time with
  | start =>
    rw [time] at assigned
    refine ensures_resolveVariable_resolved.seq ?_
    rintro known _ ⟨tv, rfl, resolved⟩
    obtain ⟨binding₁, placed⟩ :=
      binding.resolves .start resolved collected assigned
    rw [ensures_bind, ensures_netQuery_owner (y := y)]
    refine (ensures_addStarting_maps binding₁.isTask).seq ?_
    rintro _ u ⟨met, maps⟩
    rw [ensures_pure, met]
    exact ⟨binding₁.maps maps met placed, resolved.keeps⟩
  | finish =>
    rw [time] at assigned
    refine ensures_resolveVariable_resolved.seq ?_
    rintro known _ ⟨tv, rfl, resolved⟩
    obtain ⟨binding₁, placed⟩ :=
      binding.resolves .finish resolved collected assigned
    rw [ensures_bind, ensures_taskQuery_owner (d := d)]
    refine (ensures_addCompleted_maps binding₁.isTask).seq ?_
    rintro _ u ⟨met, maps⟩
    rw [ensures_pure, met]
    exact ⟨binding₁.maps maps met placed, resolved.keeps⟩

theorem ensures_bindProperties_binding (binding : Binding activity d y s t)
    (only : t.met.OnlyLocals) :
    Ensures E (bindProperties d activity y) t fun _ u => Binding activity d y s u ∧
      Collected activity u.met := by
  refine (ensures_forM_done (fun done u => Binding activity d y s u ∧ u.met.OnlyLocals ∧
    ∀ property ∈ done, declares u.met.locals property.name = true) ?_
    ⟨binding, only, nofun⟩).mono ?_
  · rintro done property rest u _ ⟨binding, only, collected⟩
    refine (ensures_bindProperty_binding binding only).mono ?_
    rintro _ u' ⟨binding', only', keeps, isLocal⟩
    refine ⟨binding', only', fun other mem => ?_⟩
    rcases List.mem_append.mp mem with old | new
    · exact declares_mono keeps.locals (collected other old)
    · rw [List.mem_singleton.mp new]
      exact isLocal
  · rintro _ u ⟨binding, _, collected⟩
    exact ⟨binding, collected⟩

theorem ensures_bindAssignments_binding (binding : Binding activity d y s t)
    (collected : Collected activity t.met) :
    Ensures E (bindAssignments d activity y) t fun _ u => Binding activity d y s u := by
  refine (ensures_forM_done (fun _ u => Binding activity d y s u ∧ Collected activity u.met) ?_
    ⟨binding, collected⟩).mono fun _ u both => both.1
  rintro done assignment rest u all ⟨binding, collected⟩
  have listed : assignment ∈ activity.assignments := all ▸ by simp
  refine (ensures_bindAssignment_binding binding collected listed).mono ?_
  rintro _ u' ⟨binding', keeps⟩
  exact ⟨binding', fun property mem => declares_mono keeps.locals (collected property mem)⟩

/-! ### Declaring what was met -/

theorem ensures_declareVariable_declares {which : VariableList} :
    Ensures E (edit (.declareVariable d which v)) s fun _ t => t.met = s.met ∧
      (d.index < s.spec.decompositions.size →
        declares ((t.spec.decomposition d).list which) v.name = true) := by
  apply ensures_edit
  unfold Edit.declareVariable
  rw [ensures_bind, ensures_get, ensures_bind, ensures_modify, ensures_pure]
  refine ⟨rfl, fun stored => ?_⟩
  dsimp only
  rw [decomposition_modifyDecomposition, if_pos ⟨rfl, stored⟩]
  cases which <;> exact declares_declare

/-- Data is declared only, and no mapping changes. -/
structure Declaring (s t : State) : Prop where
  same : SameMappings s.spec t.spec
  quiet : Quiet s t

namespace Declaring

theorem trans (h : Declaring s t) (h' : Declaring t u) : Declaring s u :=
  ⟨IsTrans.trans _ _ _ h.same h'.same, h.quiet.trans h'.quiet⟩

end Declaring

theorem ensures_declaring {α : Type} {work : Compile α}
    (routine : Relates (Routine SameMappings) work)
    (quiet : Ensures E work s fun _ t => Quiet s t) :
    Ensures E work s fun _ t => Declaring s t :=
  (routine.and_ensures quiet).mono fun _ _ both => ⟨both.1.change, both.2⟩

theorem ensures_declareAll_declares {which : VariableList} {vs : List Variable} :
    Ensures E (declareAll d which vs) s fun _ t => Declaring s t ∧
      (d.index < s.spec.decompositions.size →
        ∀ v ∈ vs, declares ((t.spec.decomposition d).list which) v.name = true) := by
  unfold declareAll
  refine ensures_forM_done (fun (done : List Variable) (t : State) => Declaring s t ∧
    (d.index < s.spec.decompositions.size →
      ∀ v ∈ done, declares ((t.spec.decomposition d).list which) v.name = true)) ?_
    ⟨⟨Std.Refl.refl _, .refl s⟩, fun _ => nofun⟩
  rintro done v rest t _ ⟨declaring, declared⟩
  have work : Ensures E (edit (.declareVariable d which v)) t fun _ u => Declaring t u :=
    ensures_declaring (routine_edit Edit.relates_declareVariable)
      (ensures_quiet_edit (Edit.ensures_declareVariable which v))
  refine Ensures.bind ((work.and ensures_declareVariable_declares).mono ?_)
  rintro _ u ⟨declaring', _, isDeclared⟩
  refine ⟨declaring.trans declaring', fun stored w mem => ?_⟩
  rcases List.mem_append.mp mem with old | new
  · exact declaring'.same.declares (declared stored w old)
  · rw [List.mem_singleton.mp new]
    exact isDeclared (Nat.lt_of_lt_of_le stored declaring.same.decompositions_size)

theorem ensures_declareTaskVariables_declares {inner : DecompositionId} :
    Ensures E (declareTaskVariables d (some inner)) s fun _ t => Declaring s t ∧
      (d.index < s.spec.decompositions.size →
        ∀ v ∈ s.met.locals, declares (t.spec.decomposition d).locals v.name = true) ∧
      (inner.index < s.spec.decompositions.size → ∀ time, ∀ v ∈ s.met.exposed time,
        declares ((t.spec.decomposition inner).list (parameterList time)) v.name = true) := by
  unfold declareTaskVariables
  rw [ensures_bind, ensures_get]
  refine ensures_declareAll_declares.seq ?_
  rintro _ t₁ ⟨first, locals⟩
  dsimp only
  refine ensures_declareAll_declares.seq ?_
  rintro _ t₂ ⟨second, inputs⟩
  refine ensures_declareAll_declares.mono ?_
  rintro _ t₃ ⟨third, outputs⟩
  refine ⟨first.trans (second.trans third), fun stored v mem => ?_, fun stored time v mem => ?_⟩
  · have declared : declares ((t₁.spec.decomposition d).list .locals) v.name = true :=
      locals stored v mem
    have later : declares ((t₃.spec.decomposition d).list .locals) v.name = true :=
      third.same.declares (second.same.declares declared)
    exact later
  · have stored₁ := Nat.lt_of_lt_of_le stored first.same.decompositions_size
    cases time with
    | start => exact third.same.declares (inputs stored₁ v mem)
    | finish =>
      exact outputs (Nat.lt_of_lt_of_le stored₁ second.same.decompositions_size) v mem

/-! ### What the task runs -/

theorem exists_task_of_runs {spec : Specification} {inner : DecompositionId}
    (runs : spec.runs? y = some inner) :
    ∃ task, spec.task? y = some task ∧ task.decomposesTo = some inner :=
  Option.bind_eq_some_iff.mp runs

theorem ensures_updateTask_runs {inner : DecompositionId} (isTask : (s.spec.task? y).isSome) :
    Ensures E (edit (.updateTask y fun t => { t with decomposesTo := some inner })) s fun _ t =>
      SameMappings s.spec t.spec ∧ t.met = s.met ∧ t.spec.runs? y = some inner := by
  obtain ⟨task, found⟩ := Option.isSome_iff_exists.mp isTask
  apply ensures_edit
  apply Edit.ensures_updateTask found
  exact ⟨.modifyTask fun _ => ⟨rfl, rfl⟩, rfl, runs?_setRuns_self isTask⟩

theorem ensures_ensureDecomposition_runs (isTask : (s.spec.task? y).isSome)
    (idle : s.spec.runs? y = none) :
    Ensures E (edit (.ensureDecomposition y)) s fun inner t => SameMappings s.spec t.spec ∧
      t.met = s.met ∧ t.spec.runs? y = some inner ∧
        inner.index < t.spec.decompositions.size := by
  obtain ⟨task, found⟩ := Option.isSome_iff_exists.mp isTask
  have none : task.decomposesTo = none := by
    rw [runs?_eq_bind, found] at idle
    exact idle
  apply ensures_edit
  unfold Edit.ensureDecomposition
  rw [ensures_bind]
  apply Edit.ensures_requireTask found
  rw [none]
  dsimp only
  rw [ensures_bind, ensures_get, ensures_bind, Edit.ensures_createDecomposition, ensures_bind,
    ensures_modify, ensures_pure]
  refine ⟨Structural.decompose _ idle, rfl,
    runs?_setRuns_self (s := s.spec.addDecomposition _) isTask, ?_⟩
  show s.spec.decompositions.size < (s.spec.decompositions.push _).size
  rw [Array.size_push]
  exact Nat.lt_succ_self _

/-- The task of an activity is mapped to variables of the net, which are parameters of what it runs
unless they are torn. -/
structure Exposed (activity : Activity) (d : DecompositionId) (y : Net.NodeId)
    (s t : Specification) : Prop extends Enlarged s t where
  others : ∀ time n, n ≠ y → mappings t time n = mappings s time n
  query : ∀ {time m}, m ∈ mappings t time y →
    m.query = variableQuery (owner s d y time) m.target.name
  declared : d.index < s.decompositions.size → ∀ {time m}, m ∈ mappings t time y →
    Net.declares (t.decomposition d).allVariables m.target.name = true
  runs : ∃ inner, t.runs? y = some inner ∧ ∀ {time m}, m ∈ mappings t time y →
    ¬Torn (s.decomposition d) activity m.target.name →
      Net.declares ((t.decomposition inner).list (parameterList time)) m.target.name = true

theorem mappings_of_same {spec spec' : Specification} (h : SameMappings spec spec') :
    mappings spec' time y = mappings spec time y := by
  cases time
  · exact h.starting y
  · exact h.completed y

theorem Binding.exposed {inner : DecompositionId} (h : Binding activity d y s t)
    (same : SameMappings t.spec u.spec) (runs : u.spec.runs? y = some inner)
    (locals : d.index < t.spec.decompositions.size →
      ∀ v ∈ t.met.locals, declares (u.spec.decomposition d).locals v.name = true)
    (parameters : ∀ time, ∀ v ∈ t.met.exposed time,
      declares ((u.spec.decomposition inner).list (parameterList time)) v.name = true) :
    Exposed activity d y s.spec u.spec where
  toEnlarged := h.remapped.toEnlarged.trans same.toEnlarged
  others time n other := by
    have kept := congrArg Node.kind (h.remapped.others n other)
    rw [mappings_of_same same]
    cases time
    · exact congrArg Kind.starting kept
    · exact congrArg Kind.completed kept
  query mem := h.query (mappings_of_same same ▸ mem)
  declared stored {time m} mem := by
    rw [mappings_of_same same] at mem
    have larger := h.remapped.toEnlarged.trans same.toEnlarged
    rcases h.placed mem with placed | torn
    · rcases declares_append.mp placed with isLocal | isParameter
      · have stored' := Nat.lt_of_lt_of_le stored h.remapped.decompositions_size
        exact declares_allVariables.mpr ⟨.locals, declares_of_all (locals stored') isLocal⟩
      · exact declares_of_all (fun v mem => larger.declares_all (h.sorted.known mem)) isParameter
    · exact larger.declares_all torn.known
  runs := by
    refine ⟨inner, runs, fun {time m} mem whole => ?_⟩
    rw [mappings_of_same same] at mem
    exact declares_of_all (parameters time) ((h.placed mem).resolve_right whole)

/-- The node of a new task. -/
def activityNode (job : Job) (n : Diagram.NodeId) (count : Nat) : Net.Node :=
  { id := nodeId "task" count, name := (job.diagram.node n).title, kind := .task {} }

theorem Binding.start {spec : Specification} {node : Net.Node} (kind : node.kind = .task {})
    (added : s.spec = spec.addNode d node) :
    Binding activity d ⟨spec.nodes.size⟩ s { s with met := {} } := by
  have new : (s.spec.node ⟨spec.nodes.size⟩).kind = .task {} := by
    rw [added, node_addNode, if_pos rfl, kind]
  have unmapped : ∀ time, mappings s.spec time ⟨spec.nodes.size⟩ = [] := by
    intro time
    cases time
    · exact congrArg Kind.starting new
    · exact congrArg Kind.completed new
  refine ⟨Std.Refl.refl _, ?_, .of_onlyLocals ⟨rfl, rfl⟩, fun mem => ?_, fun mem => ?_⟩
  · show ((s.spec.node _).kind.task?).isSome = true
    rw [new]
    rfl
  · rw [unmapped] at mem
    cases mem
  · rw [unmapped] at mem
    cases mem

/-- Once the task of an activity runs a decomposition, its parameters are declared there. -/
theorem Binding.ensures_declared {inner : DecompositionId} (binding : Binding activity d y s t)
    (isActivity : (job.diagram.node n).kind.activity? = some activity)
    (same : SameMappings t.spec u.spec) (met : u.met = t.met)
    (runs : u.spec.runs? y = some inner) (stored : inner.index < u.spec.decompositions.size) :
    Ensures E (finishActivity job d n activity y inner) u fun z v =>
      z = y ∧ Exposed activity d z s.spec v.spec := by
  unfold finishActivity
  refine ensures_declareTaskVariables_declares.seq ?_
  rintro _ u₁ ⟨declaring, locals, parameters⟩
  have isTask : (u₁.spec.task? y).isSome := by
    obtain ⟨task, found, _⟩ := exists_task_of_runs runs
    exact declaring.quiet.isTask (Option.isSome_of_eq_some found)
  refine ensures_when (fun v => Declaring u₁ v) (fun _ => ?_) (fun _ => ?_) fun u₂ more => ?_
  · exact ensures_declaring routine_bindInstances (ensures_bindInstances isActivity isTask)
  · exact ⟨Std.Refl.refl _, .refl _⟩
  refine ensures_when (fun v => v.spec = u₂.spec) ?_ (fun _ => rfl) fun u₃ noted => ?_
  · exact fun _ => rfl
  refine (ensures_declaring routine_bindResources ensures_bindResources).seq fun _ v last => ?_
  have same' : SameMappings u₁.spec v.spec :=
    IsTrans.trans _ _ _ more.same (noted ▸ last.same)
  have skeleton : v.spec.skeleton = u.spec.skeleton := by
    rw [last.quiet.skeleton, noted, more.quiet.skeleton, declaring.quiet.skeleton]
  have runs' : v.spec.runs? y = some inner := by
    rw [runs?_of_skeleton skeleton, runs]
  refine ⟨rfl, binding.exposed ?_ runs' ?_ ?_⟩
  · exact IsTrans.trans _ _ _ same (IsTrans.trans _ _ _ declaring.same same')
  · intro netStored w mem
    have netStored' := Nat.lt_of_lt_of_le netStored same.decompositions_size
    have declared : declares ((v.spec.decomposition d).list .locals) w.name = true :=
      same'.declares (locals netStored' w (met ▸ mem))
    exact declared
  · exact fun time w mem => same'.declares (parameters stored time w (met ▸ mem))

theorem ensures_placeActivity_exposed {subnet : Option DecompositionId}
    (isActivity : (job.diagram.node n).kind.activity? = some activity)
    (stored : ∀ inner, subnet = some inner → inner.index < s.spec.decompositions.size) :
    Ensures E (placeActivity job d n activity subnet) s fun y t => y = ⟨s.spec.nodes.size⟩ ∧
      Exposed activity d y (s.spec.addNode d (activityNode job n s.count)) t.spec := by
  rw [placeActivity_eq, ensures_bind, ensures_generateId, ensures_bind]
  apply ensures_edit
  rw [Edit.ensures_createTask, ensures_bind, ensures_modify]
  have begun : Binding activity d ⟨s.spec.nodes.size⟩
      { s with count := s.count + 1, spec := s.spec.addNode d (activityNode job n s.count) }
      { s with
        count := s.count + 1, spec := s.spec.addNode d (activityNode job n s.count), met := {} } :=
    .start rfl rfl
  refine (ensures_bindProperties_binding begun ⟨rfl, rfl⟩).seq ?_
  rintro _ s₂ ⟨bound, collected⟩
  refine (ensures_bindAssignments_binding bound collected).seq ?_
  rintro _ s₃ binding
  have idle : s₃.spec.runs? ⟨s.spec.nodes.size⟩ = none := by
    rw [binding.remapped.runs]
    unfold runs?
    dsimp only
    rw [node_addNode, if_pos rfl]
    rfl
  cases subnet with
  | none =>
    refine (ensures_ensureDecomposition_runs binding.isTask idle).seq ?_
    rintro inner s₄ ⟨same, met, runs, stored⟩
    exact binding.ensures_declared isActivity same met runs stored
  | some inner =>
    refine (ensures_updateTask_runs binding.isTask).seq ?_
    rintro _ s₄ ⟨same, met, runs⟩
    rw [ensures_bind, ensures_pure]
    have before : inner.index <
        (s.spec.addNode d (activityNode job n s.count)).decompositions.size := by
      rw [decompositions_size_addNode]
      exact stored inner rfl
    refine binding.ensures_declared isActivity same met runs (Nat.lt_of_lt_of_le before ?_)
    exact Nat.le_trans binding.remapped.decompositions_size same.decompositions_size

/-- The task of an activity can always be made. Each of its variables that is mapped when it starts
is an input of the decomposition of the task, and each that is mapped when it completes is an output
there, unless the variable is torn. -/
theorem mapped_variables_are_parameters {subnet : Option DecompositionId}
    (isActivity : (job.diagram.node n).kind.activity? = some activity)
    (stored : ∀ inner, subnet = some inner → inner.index < s.spec.decompositions.size) :
    ∃ y t, (placeActivity job d n activity subnet).run.run s = (.ok y, t) ∧
      ∃ task inner, t.spec.task? y = some task ∧ task.decomposesTo = some inner ∧
        (∀ m ∈ task.starting, ¬Torn (s.spec.decomposition d) activity m.target.name →
          declares (t.spec.decomposition inner).inputs m.target.name = true) ∧
        ∀ m ∈ task.completed, ¬Torn (s.spec.decomposition d) activity m.target.name →
          declares (t.spec.decomposition inner).outputs m.target.name = true := by
  obtain ⟨y, t, run, rfl, exposed⟩ :=
    (ensures_placeActivity_exposed (E := fun _ => False) (d := d) isActivity stored).exists_run
  obtain ⟨inner, runs, parameters⟩ := exposed.runs
  obtain ⟨task, found, decomposesTo⟩ := exists_task_of_runs runs
  obtain ⟨starting, completed⟩ := mappings_of_task found
  have torn : ∀ {name},
      Torn ((s.spec.addNode d (activityNode job n s.count)).decomposition d) activity name →
        Torn (s.spec.decomposition d) activity name := by
    intro name torn
    rw [decomposition_addNode] at torn
    split at torn
    · exact ⟨torn.known, torn.plain, torn.assigned⟩
    · exact torn
  refine ⟨_, t, run, task, inner, found, decomposesTo, fun m mem whole => ?_,
    fun m mem whole => ?_⟩
  · have mapped : m ∈ mappings t.spec .start _ := starting ▸ mem
    exact parameters mapped fun isTorn => whole (torn isTorn)
  · have mapped : m ∈ mappings t.spec .finish _ := completed ▸ mem
    exact parameters mapped fun isTorn => whole (torn isTorn)

/-- A single task with the given data. -/
def loneTask (activity : Activity) : Job where
  diagram := sketch [.task activity {}] []

/-- A net that has one variable. -/
def knowing (name : String) : State where
  spec := { id := "m", decompositions := #[{ id := "Net", locals := [{ name }] }] }

/-- An activity that reads one variable of the net and writes another one, which it has as a
property, in other cases of letters. -/
def weighing : Activity where
  properties := [{ name := "Weight" }]
  assignments := [{ target := "NOTE" }, { target := "weight", time := .finish },
    { target := "sum", time := .finish }, { target := "Sum" }]

theorem mapped_variables_are_parameters_weighing : ∃ y t,
    (placeActivity (loneTask weighing) ⟨0⟩ ⟨0⟩ weighing none).run.run (knowing "note") =
        (.ok y, t) ∧
      ∃ task inner, t.spec.task? y = some task ∧ task.decomposesTo = some inner ∧
        task.starting.map (·.target.name) = ["Weight", "note", "sum"] ∧
        (∀ m ∈ task.starting,
          declares (t.spec.decomposition inner).inputs m.target.name = true) ∧
        ∀ m ∈ task.completed,
          declares (t.spec.decomposition inner).outputs m.target.name = true := by
  have isActivity : ((loneTask weighing).diagram.node ⟨0⟩).kind.activity? = some weighing := rfl
  have alone : ∀ inner, (none : Option DecompositionId) = some inner →
      inner.index < (knowing "note").spec.decompositions.size := nofun
  obtain ⟨y, t, run, task, inner, found, decomposesTo, starting, completed⟩ :=
    mapped_variables_are_parameters (d := ⟨0⟩) isActivity alone
  obtain ⟨_, _, run', checked⟩ := exists_run_of_check
    (x := placeActivity (loneTask weighing) ⟨0⟩ ⟨0⟩ weighing none) (s := knowing "note")
    (fun y t => decide (∃ task ∈ t.spec.task? y,
      task.starting.map (·.target.name) = ["Weight", "note", "sum"] ∧
        ∀ m ∈ task.starting ++ task.completed,
          ¬Torn ((knowing "note").spec.decomposition ⟨0⟩) weighing m.target.name))
    (by decide +kernel)
  cases run.symm.trans run'
  obtain ⟨_, found', names, whole⟩ := of_decide_eq_true checked
  cases found.symm.trans found'
  refine ⟨y, t, run, task, inner, found, decomposesTo, names, fun m mem => ?_, fun m mem => ?_⟩
  · exact starting m mem (whole m (List.mem_append_left _ mem))
  · exact completed m mem (whole m (List.mem_append_right _ mem))

/-- An activity that assigns to a variable of the net when it starts and when it completes. -/
def rebooking : Activity where
  assignments := [{ target := "x" }, { target := "x", time := .finish }]

/-- The variable that is assigned on both sides is mapped on both sides, but no output. -/
theorem torn_variable_not_exposed : ¬∀ (job : Job) (s : State) (d : DecompositionId)
    (n : Diagram.NodeId) (activity : Activity),
    (job.diagram.node n).kind.activity? = some activity →
      ∃ y t, (placeActivity job d n activity none).run.run s = (.ok y, t) ∧
        ∃ task inner, t.spec.task? y = some task ∧ task.decomposesTo = some inner ∧
          (∀ m ∈ task.starting,
            declares (t.spec.decomposition inner).inputs m.target.name = true) ∧
          ∀ m ∈ task.completed,
            declares (t.spec.decomposition inner).outputs m.target.name = true := by
  intro all
  obtain ⟨y, t, run, task, inner, found, decomposesTo, _, completed⟩ :=
    all (loneTask rebooking) (knowing "x") ⟨0⟩ ⟨0⟩ rebooking rfl
  obtain ⟨_, _, run', checked⟩ := exists_run_of_check
    (x := placeActivity (loneTask rebooking) ⟨0⟩ ⟨0⟩ rebooking none) (s := knowing "x")
    (fun y t => decide (∃ task ∈ t.spec.task? y, ∃ m ∈ task.completed,
      task.decomposesTo = some ⟨1⟩ ∧
        declares (t.spec.decomposition ⟨1⟩).outputs m.target.name = false)) (by decide +kernel)
  cases run.symm.trans run'
  obtain ⟨_, found', m, mem, isInner, undeclared⟩ := of_decide_eq_true checked
  cases found.symm.trans found'
  cases decomposesTo.symm.trans isInner
  rw [completed m mem] at undeclared
  cases undeclared

end ProcessNets.Compile
