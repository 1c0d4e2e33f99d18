import ProcessNets.Proofs.Compile.NodeMaps
import ProcessNets.Proofs.Compile.Parts
import ProcessNets.Proofs.Net.Minor

/-!
# Routine work

What compiling does to a single net, apart from running the nets of subprocesses and from
cancellation. Wherever it starts, all of this work is routine: it only makes minor changes to the
specification, and finishes no net. Placing nodes and binding data only makes incidental ones, and
the other work that binds no data only wires nodes.
-/

namespace ProcessNets.Compile

open Net Specification

variable {job : Job} {scope : Scope} {s t u : State} {d : DecompositionId} {n m : Diagram.NodeId}
  {x y : Net.NodeId} {P P' : Net.NodeId → DecompositionId → Prop}
  {R : Specification → Specification → Prop} {α : Type}

/-- The specification changed in no other way than `R` allows, and no net was finished. -/
structure Routine (R : Specification → Specification → Prop) (s t : State) : Prop where
  change : R s.spec t.spec
  finished : t.finished = s.finished

namespace Routine

theorem refl [Std.Refl R] (s : State) : Routine R s s :=
  ⟨Std.Refl.refl s.spec, rfl⟩

theorem mono (h : Routine (Minor P) s t) (more : ∀ n d, P n d → P' n d) :
    Routine (Minor P') s t :=
  ⟨h.change.mono more, h.finished⟩

instance [Std.Refl R] : Std.Refl (Routine R) :=
  ⟨refl⟩

theorem trans [IsTrans Specification R] (h : Routine R s t) (h' : Routine R t u) : Routine R s u :=
  ⟨IsTrans.trans _ _ _ h.change h'.change, h'.finished.trans h.finished⟩

instance [IsTrans Specification R] : IsTrans State (Routine R) :=
  ⟨fun _ _ _ => trans⟩

end Routine

/-! ### Single operations -/

theorem routine_edit {operation : Edit α} (h : Relates R operation) :
    Relates (Routine R) (edit operation) :=
  fun s => ensures_edit ((h s.spec).mono fun _ _ change => ⟨change, rfl⟩)

section
variable [Std.Refl R]

/-- What leaves the specification and the finished nets alone is routine. -/
theorem routine_of_same (spec : t.spec = s.spec) (finished : t.finished = s.finished) :
    Routine R s t := by
  refine ⟨?_, finished⟩
  rw [spec]
  exact Std.Refl.refl s.spec

theorem routine_spec : Relates (Routine R) spec :=
  fun _ => routine_of_same rfl rfl

theorem routine_tell {event : Log.Event} : Relates (Routine R) (tell event) :=
  fun _ => routine_of_same rfl rfl

theorem routine_generateId {stem : String} : Relates (Routine R) (generateId stem) :=
  fun _ => routine_of_same rfl rfl

theorem routine_requireActivity : Relates (Routine R) (requireActivity job n) := by
  unfold requireActivity
  split
  · exact .pure _
  · exact .throw

theorem routine_registerLooping : Relates (Routine R) (registerLooping d n) :=
  fun _ => routine_of_same rfl rfl

theorem routine_takeLooping : Relates (Routine R) (takeLooping d) :=
  fun _ => routine_of_same rfl rfl

end

/-! ### Data -/

section
variable [Std.Refl R]

theorem routine_resolveVariable {which : VariableList} {v : Variable} :
    Relates (Routine R) (resolveVariable d which v) :=
  fun _ => routine_of_same rfl rfl

theorem routine_netQuery {v : Variable} : Relates (Routine R) (netQuery d v) :=
  fun _ => routine_of_same rfl rfl

theorem routine_taskQuery {v : Variable} : Relates (Routine R) (taskQuery x v) :=
  fun _ => routine_of_same rfl rfl

end

section
variable [Incidental R]

theorem routine_declareAll {which : VariableList} {vs : List Variable} :
    Relates (Routine R) (declareAll d which vs) :=
  .forM fun _ _ => .bind (routine_edit Edit.relates_declareVariable) fun _ => .pure _

theorem routine_declareTaskVariables {inner : Option DecompositionId} :
    Relates (Routine R) (declareTaskVariables d inner) := by
  unfold declareTaskVariables
  refine .bind .get fun state => .bind routine_declareAll fun _ => ?_
  cases inner with
  | none => exact .pure _
  | some inner =>
    dsimp only
    exact .bind routine_declareAll fun _ => routine_declareAll

end

/-- Binding a data object is routine if binding its ends is. -/
theorem routine_bindDataObject_of [Incidental R]
    (reader : ∀ query v y, Relates (Routine R) (bindReader query v y))
    (writer : ∀ v y, Relates (Routine R) (bindWriter v y)) :
    Relates (Routine R) (bindDataObject job scope n) := by
  unfold bindDataObject
  dsimp only
  split
  · exact .pure _
  · refine .bind routine_spec fun s => ?_
    split
    · exact .bind routine_tell fun _ => .pure _
    · split
      · refine .bind (.pure _) fun _ => .bind (routine_edit Edit.relates_appendVariable) fun _ => ?_
        refine .bind (.forM fun y _ => reader _ _ y) fun _ => ?_
        exact .bind (.forM fun y _ => writer _ y) fun _ => .pure _
      · exact .throw_bind

section
variable [DataFree R]

theorem routine_bindProperty {property : Diagram.Property} :
    Relates (Routine R) (bindProperty d x property) := by
  refine .bind routine_resolveVariable fun v => .bind routine_netQuery fun query => ?_
  refine .bind (routine_edit Edit.relates_addStarting) fun _ => ?_
  refine .bind routine_taskQuery fun query => ?_
  exact .bind (routine_edit Edit.relates_addCompleted) fun _ => .pure _

theorem routine_bindAssignment {assignment : Diagram.Assignment} :
    Relates (Routine R) (bindAssignment d x assignment) := by
  unfold bindAssignment
  split
  · refine .bind routine_resolveVariable fun v => .bind routine_netQuery fun query => ?_
    exact .bind (routine_edit Edit.relates_addStarting) fun _ => .pure _
  · refine .bind routine_resolveVariable fun v => .bind routine_taskQuery fun query => ?_
    exact .bind (routine_edit Edit.relates_addCompleted) fun _ => .pure _

theorem routine_bindReader {query : String} {v : Variable} :
    Relates (Routine R) (bindReader query v x) := by
  refine .bind routine_spec fun s => ?_
  split
  · exact .pure _
  · refine .bind (routine_edit Edit.relates_addStarting) fun _ => ?_
    split
    · exact .pure _
    · exact .bind (routine_edit Edit.relates_declareVariable) fun _ => .pure _

theorem routine_bindWriter {v : Variable} : Relates (Routine R) (bindWriter v x) := by
  refine .bind routine_spec fun s => ?_
  split
  · exact .pure _
  · refine .bind routine_taskQuery fun query => ?_
    refine .bind (routine_edit Edit.relates_addCompleted) fun _ => ?_
    split
    · exact .pure _
    · exact .bind (routine_edit Edit.relates_declareVariable) fun _ => .pure _

theorem routine_bindDataObject : Relates (Routine R) (bindDataObject job scope n) :=
  routine_bindDataObject_of (fun _ _ _ => routine_bindReader) fun _ _ => routine_bindWriter

theorem routine_bindData {container : Diagram.Container} :
    Relates (Routine R) (bindData job container scope) := by
  refine .forM fun n _ => ?_
  exact .bind routine_bindDataObject fun _ => .pure _

end

/-! ### Work items -/

section
variable [Structural R]

theorem routine_laneRole {node : Diagram.Node} : Relates (Routine R) (laneRole job node) := by
  unfold laneRole
  split
  · dsimp only
    split
    · exact .bind routine_tell fun _ => .pure _
    · exact .pure _
  · exact .pure _

theorem routine_bindResources : Relates (Routine R) (bindResources job n x) := by
  unfold bindResources
  dsimp only
  split
  · refine .bind routine_laneRole fun role => ?_
    refine .bind (routine_edit ?_) fun _ => .pure _
    exact Edit.relates_modifyTask (fun _ => rfl) (fun _ => rfl) fun _ => ⟨rfl, rfl⟩
  · exact .pure _

end

theorem routine_bindInstances [Incidental R] : Relates (Routine R) (bindInstances job d n x) := by
  have changing : ∀ {g : Task → Task}, (∀ t, (g t).decomposesTo = t.decomposesTo) →
      (∀ t, (g t).control = t.control) →
      (∀ t, (g t).starting = t.starting ∧ (g t).completed = t.completed) →
      Relates (Routine R) (edit (modify (·.modifyTask x g))) :=
    fun runs control mappings => routine_edit (Edit.relates_modifyTask runs control mappings)
  refine .bind (changing (fun _ => rfl) (fun _ => rfl) fun _ => ⟨rfl, rfl⟩) fun _ => ?_
  refine .bind routine_requireActivity fun activity => .bind routine_spec fun s => ?_
  refine .bind (changing (fun _ => rfl) (fun _ => rfl) fun _ => ⟨rfl, rfl⟩) fun _ => ?_
  refine .bind (routine_edit Edit.relates_declareVariable) fun _ => ?_
  refine .bind (routine_edit Edit.relates_requireTask) fun task => ?_
  dsimp only
  split
  · refine .bind (routine_edit Edit.relates_declareVariable) fun _ => ?_
    exact .bind routine_tell fun _ => .pure _
  · exact .bind routine_tell fun _ => .pure _

/-! ### Placing nodes -/

section
variable [Structural R]

theorem routine_placeEventTask {stem name : String} :
    Relates (Routine R) (placeEventTask d stem name) := by
  refine .bind routine_generateId fun id => .bind (routine_edit Edit.relates_createTask) fun y => ?_
  exact .bind (routine_edit Edit.relates_ensureDecomposition) fun _ => .pure _

theorem routine_timerMoment (eventId date : String) :
    Relates (Routine R) (timerMoment eventId date) := by
  unfold timerMoment
  dsimp only
  split
  · exact .pure _
  · split
    · exact .pure _
    · exact .bind routine_tell fun _ => .pure _

theorem routine_placeBranchEvent : Relates (Routine R) (placeBranchEvent job d n) := by
  unfold placeBranchEvent
  split
  · exact .bind routine_placeEventTask fun _ => .pure _
  · exact .bind routine_tell fun _ => .pure _

theorem routine_placePlainEvent : Relates (Routine R) (placePlainEvent job d n) := by
  unfold placePlainEvent
  split
  · refine .bind routine_generateId fun id => ?_
    exact .bind (routine_edit Edit.relates_createCondition) fun _ => .pure _
  · exact routine_placeBranchEvent

theorem routine_placeMessageEvent : Relates (Routine R) (placeMessageEvent job d n) := by
  unfold placeMessageEvent
  split
  · exact .bind routine_placeEventTask fun _ => .pure _
  · exact routine_placeBranchEvent

theorem routine_placeEventGateway : Relates (Routine R) (placeEventGateway job scope n) := by
  refine .bind routine_spec fun s => ?_
  dsimp only
  split
  · exact .pure _
  · exact .bind routine_generateId fun id => routine_edit Edit.relates_createCondition

end

-- no date is read while a goal is matched
attribute [local irreducible] timerMoment

/-- Placing a timer is routine if handing its value to a task is. -/
theorem routine_placeTimer_of [Incidental R] {attached : Bool}
    (start : ∀ y query v, Relates R (Edit.addStarting y query v)) :
    Relates (Routine R) (placeTimer job d n attached) := by
  unfold placeTimer
  dsimp only
  refine .bind routine_generateId fun id => .bind (routine_edit Edit.relates_createTask) fun y => ?_
  split
  · refine .bind (.pure _) fun _ => .bind (routine_timerMoment _ _) fun moment => ?_
    refine .bind (routine_edit (Edit.relates_updateTask fun _ => Structural.timer _)) fun _ => ?_
    refine .bind (routine_edit Edit.relates_appendVariable) fun _ => ?_
    refine .bind routine_netQuery fun _ => ?_
    refine .bind (routine_edit (start _ _ _)) fun _ => ?_
    refine .bind (routine_edit Edit.relates_ensureDecomposition) fun inner => ?_
    exact .bind (routine_edit Edit.relates_declareVariable) fun _ => .pure _
  · exact .throw_bind

section
variable [DataFree R]

theorem routine_placeTimer {attached : Bool} :
    Relates (Routine R) (placeTimer job d n attached) :=
  routine_placeTimer_of fun _ _ _ => Edit.relates_addStarting

theorem routine_finishActivity {activity : Diagram.Activity} {inner : DecompositionId} :
    Relates (Routine R) (finishActivity job d n activity y inner) := by
  refine .bind routine_declareTaskVariables fun _ => ?_
  refine .when routine_bindInstances ?_
  refine .when routine_registerLooping ?_
  exact .bind routine_bindResources fun _ => .pure _

/-- Placing an activity is routine if running its net is. -/
theorem routine_placeActivity {activity : Diagram.Activity} {subnet : Option DecompositionId}
    (run : ∀ inner, subnet = some inner → ∀ s y, R s (s.setRuns y inner)) :
    Relates (Routine R) (placeActivity job d n activity subnet) := by
  rw [placeActivity_eq]
  refine .bind routine_generateId fun id => ?_
  refine .bind (routine_edit Edit.relates_createTask) fun y => ?_
  refine .bind (.modify fun _ => routine_of_same rfl rfl) fun _ => ?_
  refine .bind (.forM fun _ _ => routine_bindProperty) fun _ => ?_
  refine .bind (.forM fun _ _ => routine_bindAssignment) fun _ => ?_
  cases subnet with
  | none =>
    exact .bind (routine_edit Edit.relates_ensureDecomposition) fun _ => routine_finishActivity
  | some inner =>
    refine .bind (routine_edit (Edit.relates_updateTask fun s => run inner rfl s y)) fun _ => ?_
    exact .bind (.pure _) fun _ => routine_finishActivity

end

/-- Finding the counterpart of a node is routine if placing activities and timers is, unless that
makes a net. -/
theorem routine_counterpart_of [Structural R] {nested : Nested}
    (activity : ∀ activity, (job.diagram.node n).kind.activity? = some activity →
      Relates (Routine R) (placeActivity job scope.net n activity none))
    (timer : Relates (Routine R) (placeTimer job scope.net n false))
    (flat : nested = none ∨ ∀ activity children,
      (job.diagram.node n).kind ≠ .subprocess activity children) :
    Relates (Routine R) (counterpart job nested scope n) := by
  unfold counterpart
  dsimp only
  split
  case h_1 other children kind =>
    rw [kind] at activity
    exact .bind (activity other rfl) fun _ => .pure _
  case h_2 other children kind =>
    obtain rfl := flat.resolve_right fun flat => flat other children kind
    rw [kind] at activity
    exact .bind (.bind routine_tell fun _ => activity other rfl) fun _ => .pure _
  case h_3 =>
    refine .bind routine_generateId fun id => ?_
    exact .bind (routine_edit (Edit.relates_createTerminal (x := .input))) fun _ => .pure _
  case h_4 =>
    refine .bind routine_generateId fun id => ?_
    exact .bind (routine_edit (Edit.relates_createTerminal (x := .output))) fun _ => .pure _
  case h_5 | h_6 =>
    exact .bind routine_generateId fun id =>
      .bind (routine_edit Edit.relates_createTask) fun _ => .pure _
  case h_7 => exact routine_placePlainEvent
  case h_8 => exact .bind timer fun _ => .pure _
  case h_9 => exact routine_placeMessageEvent
  case h_10 => exact routine_placeBranchEvent
  case h_11 => exact .bind routine_placeEventGateway fun _ => .pure _
  case h_12 | h_13 => exact .pure _

theorem routine_counterpart [DataFree R] {nested : Nested}
    (flat : nested = none ∨ ∀ activity children,
      (job.diagram.node n).kind ≠ .subprocess activity children) :
    Relates (Routine R) (counterpart job nested scope n) :=
  routine_counterpart_of (fun _ _ => routine_placeActivity (by simp)) routine_placeTimer flat

/-! ### Activities -/

/-- An activity has a new task in its net, which runs the subnet if there is one. No other task gets
that to run. -/
structure Engaged (d : DecompositionId) (subnet : Option DecompositionId) (y : Net.NodeId)
    (s t : State) : Prop where
  routine : Routine (Minor fun x c => x = y ∧ subnet = some c) s t
  new : s.spec.nodes.size ≤ y.index
  mem : d.index < s.spec.decompositions.size → y ∈ (t.spec.decomposition d).nodes
  runs : ∃ inner, t.spec.runs? y = some inner ∧ (subnet = some inner ∨ subnet = none)

theorem Engaged.after {subnet : Option DecompositionId} (h : Engaged d subnet y s t)
    (routine : Routine (Minor fun _ _ => False) t u) : Engaged d subnet y s u where
  routine := IsTrans.trans _ _ _ h.routine (routine.mono fun _ _ none => none.elim)
  new := h.new
  mem stored := routine.change.mem _ _ (h.mem stored)
  runs := by
    obtain ⟨inner, runs, given⟩ := h.runs
    exact ⟨inner, (routine.change.keeps _ _ runs).resolve_right (by simp), given⟩

theorem ensures_createTask_mem {id name : String} :
    Ensures (fun _ => True) (edit (.createTask d id name)) s fun y t =>
      Routine (Minor fun _ _ => False) s t ∧ y = ⟨s.spec.nodes.size⟩ ∧
        (d.index < s.spec.decompositions.size → y ∈ (t.spec.decomposition d).nodes) := by
  refine (routine_edit Edit.wired_createTask).and_ensures (ensures_edit ?_)
  rw [Edit.ensures_createTask]
  refine ⟨rfl, fun stored => ?_⟩
  rw [decomposition_addNode, if_pos ⟨rfl, stored⟩]
  exact List.mem_append_right _ List.mem_cons_self

theorem Engaged.ensures_finish {activity : Diagram.Activity} {subnet : Option DecompositionId}
    {y : Net.NodeId} (inner : DecompositionId) (engaged : Engaged d subnet y s t) :
    Ensures (fun _ => True) (finishActivity job d n activity y inner) t fun y u =>
      Engaged d subnet y s u := by
  unfold finishActivity
  refine (routine_declareTaskVariables (R := Minor fun _ _ => False) t).seq ?_
  intro _ t₁ declared
  refine ensures_when (Engaged d subnet y s)
    (fun _ => (routine_bindInstances (R := Minor fun _ _ => False) t₁).mono fun _ _ =>
      (engaged.after declared).after) (fun _ => engaged.after declared) fun t₂ engaged => ?_
  refine ensures_when (Engaged d subnet y s)
    (fun _ => (routine_registerLooping (R := Minor fun _ _ => False) t₂).mono fun _ _ =>
      engaged.after) (fun _ => engaged) fun t₃ engaged => ?_
  exact (routine_bindResources (R := Minor fun _ _ => False) t₃).seq fun _ _ => engaged.after

theorem ensures_placeActivity_engaged {activity : Diagram.Activity}
    {subnet : Option DecompositionId} :
    Ensures (fun _ => True) (placeActivity job d n activity subnet) s fun y t =>
      Engaged d subnet y s t := by
  rw [placeActivity_eq]
  refine (routine_generateId (R := Minor fun _ _ => False) s).seq fun id s₁ first => ?_
  refine ensures_createTask_mem.seq ?_
  rintro y s₂ ⟨second, fresh, mem⟩
  have new : s.spec.nodes.size ≤ y.index := by
    rw [fresh]
    exact first.change.stored
  have forgetting : Relates (Routine (Minor fun _ _ => False))
      (modify fun state => { state with met := {} } : Compile PUnit) := fun s => ⟨.refl s.spec, rfl⟩
  refine (forgetting s₂).seq ?_
  rintro _ s₃ third
  have properties : Relates (Routine (Minor fun _ _ => False)) (bindProperties d activity y) :=
    .forM fun _ _ => routine_bindProperty
  have assignments : Relates (Routine (Minor fun _ _ => False)) (bindAssignments d activity y) :=
    .forM fun _ _ => routine_bindAssignment
  refine (properties s₃).seq ?_
  rintro _ s₄ fourth
  refine (assignments s₄).seq ?_
  rintro _ s₅ fifth
  have bound : Routine (Minor fun _ _ => False) s₂ s₅ := (third.trans fourth).trans fifth
  have placed : d.index < s.spec.decompositions.size → y ∈ (s₅.spec.decomposition d).nodes :=
    fun stored => bound.change.mem _ _ (mem (Nat.lt_of_lt_of_le stored first.change.size))
  -- from here on the task runs what it is to run, whichever way it came to that
  have engaged : ∀ inner t, Routine (Minor fun x c => x = y ∧ subnet = some c) s₅ t →
      t.spec.runs? y = some inner → (subnet = some inner ∨ subnet = none) →
      Engaged d subnet y s t := by
    intro inner t routine runs given
    have before : Routine (Minor fun x c => x = y ∧ subnet = some c) s s₅ :=
      ((first.trans second).trans bound).mono fun _ _ none => none.elim
    refine ⟨before.trans routine, new, fun stored => ?_, inner, runs, given⟩
    exact routine.change.mem _ _ (placed stored)
  cases subnet with
  | some inner =>
    have running : Ensures (fun _ => True)
        (edit (.updateTask y fun t => { t with decomposesTo := some inner })) s₅ fun _ t =>
          t.spec.runs? y = some inner := ensures_edit Edit.runs_run
    have P : Relates (Routine (Minor fun x c => x = y ∧ some inner = some c))
        (edit (.updateTask y fun t => { t with decomposesTo := some inner })) :=
      routine_edit (Edit.minor_run ⟨rfl, rfl⟩)
    refine (P.and_ensures running).seq ?_
    rintro _ t ⟨routine, runs⟩
    exact (engaged inner t routine runs (.inl rfl)).ensures_finish inner
  | none =>
    have running : Ensures (fun _ => True) (edit (.ensureDecomposition y)) s₅ fun inner t =>
        t.spec.runs? y = some inner := ensures_edit Edit.runs_ensureDecomposition
    have deciding : Relates (Routine (Minor fun _ _ => False)) (edit (.ensureDecomposition y)) :=
      routine_edit Edit.relates_ensureDecomposition
    refine (deciding.and_ensures running).seq ?_
    rintro inner t ⟨routine, runs⟩
    have whole : Engaged d none y s t :=
      engaged inner t (routine.mono fun _ _ none => none.elim) runs (.inr rfl)
    exact whole.ensures_finish inner

/-! ### Placing children -/

/-- A node was placed: its counterpart, if there is one, is registered, and it waits at most if it
is a gateway. -/
structure Filed (job : Job) (n : Diagram.NodeId) (placed : Option Net.NodeId)
    (scope scope' : Scope) : Prop where
  net : scope'.net = scope.net
  others : ∀ k, k ≠ n → scope'.map.find? k = scope.map.find? k
  found : ∀ y, placed = some y → scope'.map.find? n = some y
  skipped : placed = none → scope'.map = scope.map
  gateways : ∀ k ∈ scope'.gateways,
    k ∈ scope.gateways ∨ k = n ∧ placed = none ∧ (job.diagram.node k).kind.isGateway = true

/-- A counterpart was registered before, or is that of the node. -/
theorem Filed.origin {placed : Option Net.NodeId} {scope' : Scope}
    (h : Filed job n placed scope scope') (found : scope'.map.find? m = some y) :
    scope.map.find? m = some y ∨ (m = n ∧ placed = some y) := by
  by_cases same : m = n
  · subst same
    cases placed with
    | none =>
      rw [h.skipped rfl] at found
      exact .inl found
    | some z =>
      cases (h.found z rfl).symm.trans found
      exact .inr ⟨rfl, rfl⟩
  · rw [h.others m same] at found
    exact .inl found

section
variable [Std.Refl R]

/-- Placing a child that is on no boundary is finding its counterpart, and routine. -/
theorem ensures_placeFree_found {nested : Nested} {hosts : List Diagram.NodeId}
    {mid : Option Net.NodeId → State → Prop}
    (found : Ensures (fun _ => True) (counterpart job nested { scope with hosts } n) s mid) :
    Ensures (fun _ => True) (placeFree job nested { scope with hosts } n) s fun scope' u =>
      ∃ placed t, mid placed t ∧ Filed job n placed scope scope' ∧ Routine R t u := by
  unfold placeFree place
  rw [ensures_bind, ensures_bind]
  refine found.mono fun placed t isFound => ?_
  cases placed with
  | some y =>
    refine ⟨some y, t, isFound, ⟨rfl, fun k other => ?_, ?_, nofun, fun _ => .inl⟩,
      routine_of_same rfl rfl⟩
    · show (scope.map.insert n y).find? k = _
      rw [NodeMap.find?_insert, if_neg other]
    · rintro _ ⟨⟩
      exact NodeMap.find?_insert_self ..
  | none =>
    rw [ensures_pure]
    dsimp only
    split
    · rename_i gateway
      refine ⟨none, t, isFound, ⟨rfl, fun _ _ => rfl, nofun, fun _ => rfl, fun k hk => ?_⟩, .refl t⟩
      refine (List.mem_append.mp hk).imp_right fun last => ?_
      rw [List.mem_singleton.mp last]
      exact ⟨rfl, rfl, gateway⟩
    · exact ⟨none, t, isFound, ⟨rfl, fun _ _ => rfl, nofun, fun _ => rfl, fun _ => .inl⟩, .refl t⟩

/-- Placing a child is finding its counterpart, if it is not on a boundary, and routine. -/
theorem ensures_placeChild_found {nested : Nested} {mid : Option Net.NodeId → State → Prop}
    (attached : (job.diagram.node n).kind.isAttached = true → mid none s)
    (found : ∀ hosts,
      Ensures (fun _ => True) (counterpart job nested { scope with hosts } n) s mid) :
    Ensures (fun _ => True) (placeChild job nested scope n) s fun scope' u =>
      ∃ placed t, mid placed t ∧ Filed job n placed scope scope' ∧ Routine R t u := by
  rw [placeChild_eq]
  dsimp only
  split
  · rename_i isAttached
    have filed : ∀ hosts, Filed job n none scope { scope with hosts } := fun hosts =>
      ⟨rfl, fun _ _ => rfl, nofun, fun _ => rfl, fun _ => .inl⟩
    exact ⟨none, s, attached isAttached, filed _, .refl s⟩
  · exact ensures_placeFree_found (found _)

end

/-! ### Whole layouts -/

/-- Opening a net is routine if adding a decomposition is. -/
theorem routine_openNet_of [Std.Refl R] [IsTrans Specification R] {container : Diagram.Container}
    (adding : ∀ id isRoot, Relates R (Edit.createDecomposition id .net isRoot)) :
    Relates (Routine R) (openNet job container) := by
  unfold openNet
  split
  · exact routine_edit (adding _ _)
  · dsimp only
    split
    · exact .bind routine_generateId fun _ => routine_edit (adding _ _)
    · exact .bind (routine_edit (adding _ _)) fun _ => .throw

theorem routine_createRoutingTask [Structural R] :
    Relates (Routine R) (createRoutingTask scope) :=
  .bind routine_generateId fun _ => routine_edit Edit.relates_createTask

theorem routine_neighbourTask [Structural R] {neighbour : Option Diagram.NodeId}
    {fan : Diagram.NodeId → Nat} : Relates (Routine R) (neighbourTask scope neighbour fan) := by
  refine .bind routine_spec fun s => ?_
  dsimp only
  split
  · exact .pure _
  · exact routine_createRoutingTask

theorem routine_foldTask [Structural R] : Relates (Routine R) (foldTask job scope n) := by
  unfold foldTask
  dsimp only
  split
  · exact routine_createRoutingTask
  · split <;> exact routine_neighbourTask

section
variable [Wiring R]

theorem routine_foldOnto {split join : Bool} :
    Relates (Routine R) (foldOnto job scope n split join y) := by
  have told : Relates (Routine R) (do
      tell (.gatewayResolved (job.diagram.node n).id ((← spec).node y).id split join)
      return (y, scope.register n y)) :=
    .bind routine_spec fun s => .bind routine_tell fun _ => .pure _
  unfold foldOnto
  dsimp only
  split
  · split
    · refine .bind (routine_edit (.modify fun _ => ?_)) fun _ => told
      exact Wiring.decorate fun t => ⟨_, _, rfl⟩
    · exact told
  · exact told

theorem routine_fold : Relates (Routine R) (fold job scope n) := by
  rw [fold_eq]
  exact .bind routine_foldTask fun y => routine_foldOnto

theorem routine_foldAll : Relates (Routine R) (foldAll job scope) :=
  .foldlM (fun _ _ => .bind routine_fold fun _ => .pure _) scope

end

theorem routine_closeConditions [Structural R]
    (edges : ∀ {s t}, EdgesOnly (fun _ => True) s t → R s t) :
    Relates (Routine R) (closeConditions scope) := by
  have connecting : Relates (Routine R) (edit (.connectInputToOutput scope.net)) :=
    routine_edit (Edit.relates_connectInputToOutput.mono fun _ _ => edges)
  have input : Relates (Routine R) (do
      if ((← spec).decomposition scope.net).inputCondition.isNone then
        let _ ← edit (.createInputCondition scope.net (← generateId "Input") "Input Condition")
        if scope.map.isEmpty then
          let _ ← edit (.connectInputToOutput scope.net)) := by
    refine .bind routine_spec fun s => ?_
    split
    · refine .bind routine_generateId fun id => ?_
      refine .bind (routine_edit (Edit.relates_createTerminal (x := .input))) fun y => ?_
      split
      · exact .bind connecting fun _ => .pure _
      · exact .pure _
    · exact .pure _
  unfold closeConditions
  refine .bind routine_spec fun s => ?_
  dsimp only
  split
  · refine .bind routine_generateId fun id => ?_
    exact .bind (routine_edit (Edit.relates_createTerminal (x := .output))) fun _ => input
  · exact input

/-! ### Linking -/

section
variable [Wiring R]

theorem routine_linkNext {numbering : Numbering} {predicate : String} {isDefault : Bool} :
    Relates (Routine R) (linkNext scope numbering x y predicate isDefault) :=
  .bind (routine_edit Edit.wired_link) fun _ => .pure _

theorem routine_linkFlow {state : Numbering × Option Net.NodeId} {flow : Diagram.Flow} :
    Relates (Routine R) (linkFlow job scope n x state flow) := by
  unfold linkFlow
  dsimp only
  split
  · exact .bind routine_tell fun _ => .pure _
  · split
    · exact .pure _
    · split
      · exact .pure _
      · exact .bind routine_linkNext fun _ => .pure _
      · exact .bind routine_linkNext fun _ => .pure _

theorem routine_linkFlows {numbering : Numbering} :
    Relates (Routine R) (linkFlows job scope n x numbering) := by
  refine .bind (.foldlM (fun _ _ => routine_linkFlow) _) fun both => ?_
  dsimp only
  split
  · exact routine_linkNext
  · exact .pure _

theorem routine_linkToOutput : Relates (Routine R) (linkToOutput scope x) :=
  .bind routine_spec fun _ => .bind (routine_edit Edit.wired_createEdge) fun _ => .pure _

theorem routine_linkNode {state : Scope × Numbering} {entry : Diagram.NodeId × Net.NodeId} :
    Relates (Routine R) (linkNode job state entry) := by
  unfold linkNode
  dsimp only
  split
  · exact .bind routine_linkToOutput fun _ => .pure _
  · exact .bind routine_linkToOutput fun _ => .pure _
  · exact .bind routine_linkFlows fun _ => .pure _

theorem routine_linkAll : Relates (Routine R) (linkAll job scope) :=
  .bind (.foldlM (fun _ _ => routine_linkNode) _) fun _ => .pure _

end

/-! ### Boundary events -/

theorem routine_eventTarget [Std.Refl R] [IsTrans Specification R] :
    Relates (Routine R) (eventTarget job scope n) := by
  unfold eventTarget
  dsimp only
  split
  · exact .bind routine_tell fun _ => .pure _
  · exact .pure _

theorem routine_ensureFlag [Incidental R] {flag : Variable} :
    Relates (Routine R) (ensureFlag d flag) := by
  refine .bind routine_spec fun s => ?_
  split
  · exact .pure _
  · exact .bind (routine_edit Edit.relates_appendVariable) fun _ => .pure _

/-- Setting a flag by the error task is routine if that task may set it. -/
theorem ensures_setByError_of [Structural R] {query : String} {flag : Variable}
    {missing routed : Log.Event}
    (sets : ∀ task, errorTask? s.spec d = some task → Ensures (fun _ => True)
      (edit (.addCompleted task query flag)) s fun _ t => Routine R s t) :
    Ensures (fun _ => True) (setByError d query flag missing routed) s fun _ t =>
      Routine R s t := by
  unfold setByError
  rw [ensures_bind, ensures_spec]
  split
  · exact routine_tell s
  · rename_i task found
    refine (sets task found).seq fun _ t first => ?_
    have running : Relates (Routine R) (do
        let _ ← edit (.ensureDecomposition task)
        tell routed) :=
      .bind (routine_edit Edit.relates_ensureDecomposition) fun _ => routine_tell
    exact (running t).mono fun _ _ => first.trans

theorem routine_bindInnerFlag [DataFree R] {event target : String} {flag : Variable} :
    Relates (Routine R) (bindInnerFlag x y event target flag d) := by
  rw [bindInnerFlag_eq]
  refine .bind routine_spec fun s => .bind (routine_edit Edit.relates_addCompleted) fun _ => ?_
  refine .bind routine_ensureFlag fun inside => ?_
  refine .bind (routine_edit Edit.relates_declareVariable) fun _ t => ?_
  exact ensures_setByError_of fun _ _ => routine_edit Edit.relates_addCompleted t

section
variable [Wiring R]

theorem routine_decorateTask {g : Task → Task} (decorates : ∀ t, ∃ split join,
    g t = { t with split, join }) : Relates (Routine R) (edit (.updateTask x g)) :=
  routine_edit (Edit.wired_updateTask decorates)

theorem routine_splitExclusively : Relates (Routine R) (splitExclusively d x) := by
  have exclusive : ∀ y : Net.NodeId, Relates (Routine R) (do
      edit (.updateTask x fun t => { t with split := .xor })
      return y) := fun y =>
    .bind (routine_decorateTask fun _ => ⟨_, _, rfl⟩) fun _ => .pure y
  refine .bind routine_spec fun s => .bind (routine_edit Edit.relates_requireTask) fun task => ?_
  dsimp only
  split
  · refine .bind routine_generateId fun id => .bind (routine_edit Edit.wired_createTask) fun y => ?_
    refine .bind (routine_edit Edit.wired_moveOutgoing) fun _ => ?_
    refine .bind (routine_edit Edit.wired_link) fun _ => .bind routine_spec fun s => ?_
    exact .bind routine_tell fun _ => exclusive y
  · exact exclusive x

theorem edgesOnly_linkHandler {predicate : String} :
    Relates (Routine (EdgesOnly (· = x))) (linkHandler d x y predicate) := by
  refine .bind routine_spec fun s => .bind (routine_edit Edit.relates_linkFirst) fun _ => ?_
  exact routine_edit (.forM fun _ _ => Edit.relates_modifyEdge)

theorem routine_linkHandler {predicate : String} :
    Relates (Routine R) (linkHandler d x y predicate) :=
  edgesOnly_linkHandler.mono fun _ _ h => ⟨Wiring.edges h.change, h.finished⟩

theorem routine_routeError [DataFree R] : Relates (Routine R) (routeError job scope x y n) := by
  refine .bind routine_eventTarget fun target => ?_
  split
  · exact .pure _
  · refine .bind routine_spec fun s => .bind routine_linkHandler fun _ => ?_
    refine .bind routine_ensureFlag fun flag => ?_
    split
    · exact .pure _
    · exact routine_bindInnerFlag

theorem routine_routeOther [DataFree R] : Relates (Routine R) (routeOther job scope m x y n) := by
  unfold routeOther
  dsimp only
  split
  · exact routine_routeError
  · exact routine_tell

theorem routine_placeBoundaryTimer_of {state : Scope × List Net.NodeId}
    (placing : Relates (Routine R) (placeTimer job state.1.net n true)) :
    Relates (Routine R) (placeBoundaryTimer job state n) := by
  refine .bind placing fun y => .bind routine_eventTarget fun target => ?_
  split
  · exact .bind (routine_edit Edit.wired_link) fun _ => .pure _
  · exact .pure _

theorem routine_placeBoundaryTimer [DataFree R] {state : Scope × List Net.NodeId} :
    Relates (Routine R) (placeBoundaryTimer job state n) :=
  routine_placeBoundaryTimer_of routine_placeTimer

theorem routine_sharedSource {e : Net.EdgeId} :
    Relates (Routine R) (sharedSource d x e y) := by
  refine .bind routine_spec fun s => ?_
  dsimp only
  split
  · split
    · split
      · exact .bind routine_spec fun _ => .bind routine_tell fun _ => .pure _
      · exact .pure _
    · exact .bind (routine_decorateTask fun _ => ⟨_, _, rfl⟩) fun _ => .pure _
  · refine .bind routine_generateId fun id => .bind (routine_edit Edit.wired_createTask) fun y => ?_
    refine .bind (routine_edit (Edit.wired_redirectEnd .target)) fun _ => ?_
    exact .bind (routine_edit Edit.wired_link) fun _ => .pure _

theorem routine_sharedPredecessor : Relates (Routine R) (sharedPredecessor d x) := by
  refine .bind routine_spec fun s => ?_
  dsimp only
  split
  · exact .bind routine_tell fun _ => .pure _
  · refine .bind (routine_edit Edit.relates_requireEnd) fun y => ?_
    exact .bind routine_sharedSource fun _ => .pure _
  · refine .bind (routine_edit Edit.relates_requireTask) fun task => ?_
    refine .bind routine_generateId fun id => .bind (routine_edit Edit.wired_createTask) fun y => ?_
    refine .bind (routine_edit Edit.wired_moveIncoming) fun _ => ?_
    refine .bind (routine_edit Edit.wired_link) fun _ => ?_
    exact .bind (routine_decorateTask fun _ => ⟨_, _, rfl⟩) fun _ => .pure _

/-- Starting the timers of a host is routine, other than letting them cancel each other. -/
theorem routine_startAll {tasks : List Net.NodeId} :
    Relates (Routine R) (tasks.forM fun task => do
    let ordering := nextOrdering (← spec) x
    let _ ← edit (.link d x task ordering)) :=
  .forM fun _ _ => .bind routine_spec fun _ =>
    .bind (routine_edit Edit.wired_link) fun _ => .pure _

/-! ### Self loops -/

theorem routine_factorSplit : Relates (Routine R) (factorSplit d x) := by
  refine .bind (routine_edit Edit.relates_requireTask) fun task => ?_
  split
  · refine .bind routine_generateId fun id => .bind (routine_edit Edit.wired_createTask) fun y => ?_
    refine .bind (routine_edit Edit.wired_moveOutgoing) fun _ => ?_
    exact .bind (routine_edit Edit.wired_link) fun _ => .pure _
  · exact .pure _

theorem routine_factorJoin : Relates (Routine R) (factorJoin d x) := by
  refine .bind (routine_edit Edit.relates_requireTask) fun task => ?_
  split
  · refine .bind routine_generateId fun id => .bind (routine_edit Edit.wired_createTask) fun y => ?_
    refine .bind (routine_edit Edit.wired_moveIncoming) fun _ => ?_
    exact .bind (routine_edit Edit.wired_link) fun _ => .pure _
  · exact .pure _

theorem routine_addSelfLoop {predicate : String} :
    Relates (Routine R) (addSelfLoop d x predicate) := by
  refine .bind routine_factorSplit fun _ => .bind routine_factorJoin fun _ => ?_
  refine .bind (routine_edit Edit.wired_linkFirst) fun _ => ?_
  refine .bind (routine_decorateTask fun _ => ⟨_, _, rfl⟩) fun _ => ?_
  exact .bind routine_spec fun _ => routine_tell

theorem routine_loopActivity : Relates (Routine R) (loopActivity job scope n) := by
  refine .bind routine_spec fun s => ?_
  split
  · split
    · exact routine_addSelfLoop
    · exact .throw
  · exact routine_tell

theorem routine_loopAll : Relates (Routine R) (loopAll job scope) :=
  .bind routine_takeLooping fun _ => .forM fun _ _ => routine_loopActivity

end

/-! ### Cancellation sets -/

theorem routine_cancelMutually [Clearing R] {timers : List Net.NodeId} :
    Relates (Routine R) (cancelMutually x timers) := by
  refine routine_edit (.forM fun _ _ => .bind Edit.relates_cancel fun _ => ?_)
  exact .bind Edit.relates_cancel fun _ => .forM fun _ _ =>
    .bind Edit.relates_cancel fun _ => .pure _

theorem routine_terminateAll [Clearing R] : Relates (Routine R) (terminateAll scope) := by
  refine .forM fun n _ => ?_
  split
  · exact routine_edit Edit.relates_cancelAll
  · exact .throw

/-- Routing timers is routine if placing them is, where edges and cancellation sets may change. -/
theorem routine_routeTimers_of [Wiring R] [Clearing R] {timers : List Diagram.NodeId}
    (placing : ∀ d n, Relates (Routine R) (placeTimer job d n true)) :
    Relates (Routine R) (routeTimers job scope x timers) := by
  refine .bind (.foldlM (fun _ _ => routine_placeBoundaryTimer_of (placing _ _)) _) fun _ => ?_
  refine .bind routine_cancelMutually fun _ => .bind routine_sharedPredecessor fun found => ?_
  split
  · exact .pure _
  · exact .bind routine_startAll fun _ => .pure _

/-- The specification changed flatly, and no net was finished. -/
structure FlatWork (s t : State) : Prop where
  flat : Flat (fun _ _ => False) s.spec t.spec
  finished : t.finished = s.finished

instance : Std.Refl FlatWork := ⟨fun s => ⟨.refl s.spec, rfl⟩⟩

instance : IsTrans State FlatWork :=
  ⟨fun _ _ _ h h' => ⟨h.flat.trans h'.flat, h'.finished.trans h.finished⟩⟩

theorem Routine.flatWork (h : Routine (Minor fun _ _ => False) s t) : FlatWork s t :=
  ⟨h.change.toFlat, h.finished⟩

theorem flatWork_of_routine {work : Compile α}
    (h : Relates (Routine (Minor fun _ _ => False)) work) : Relates FlatWork work :=
  h.mono fun _ _ => Routine.flatWork

theorem flatWork_of_flat {work : Compile α} (h : Relates (Routine (Flat fun _ _ => False)) work) :
    Relates FlatWork work :=
  h.mono fun _ _ flat => ⟨flat.change, flat.finished⟩

theorem flatWork_routeTimers {timers : List Diagram.NodeId} :
    Relates FlatWork (routeTimers job scope x timers) := by
  refine .bind (flatWork_of_routine (.foldlM (fun _ _ => routine_placeBoundaryTimer) _))
    fun placed => ?_
  refine .bind (flatWork_of_flat routine_cancelMutually) fun _ => ?_
  refine .bind (flatWork_of_routine routine_sharedPredecessor) fun found => ?_
  split
  · exact .pure _
  · exact .bind (flatWork_of_routine routine_startAll) fun _ => .pure _

theorem flatWork_routeBoundary : Relates FlatWork (routeBoundary job scope n) := by
  refine .bind (flatWork_of_routine routine_spec) fun s => ?_
  split
  · exact .bind (flatWork_of_routine routine_tell) fun _ => .pure _
  · rename_i host _
    refine .bind (flatWork_of_routine routine_requireActivity) fun activity => ?_
    dsimp only
    generalize activity.attached.partition (isTimer job) = events
    obtain ⟨timers, others⟩ := events
    have routed : ∀ source, Relates FlatWork (do
        others.forM (routeOther job scope n host source)
        if timers.isEmpty then return scope
        routeTimers job scope host timers) := by
      intro source
      refine .bind (flatWork_of_routine (.forM fun _ _ => routine_routeOther)) fun _ => ?_
      split
      · exact .pure _
      · exact flatWork_routeTimers
    split
    · exact .bind (.pure _) routed
    · exact .bind (flatWork_of_routine routine_splitExclusively) routed

theorem flatWork_refine : Relates FlatWork (refine job scope) := by
  refine .bind (.foldlM (fun _ _ => flatWork_routeBoundary) _) fun scope => ?_
  refine .bind (flatWork_of_routine routine_loopAll) fun _ => ?_
  exact .bind (flatWork_of_flat routine_terminateAll) fun _ => .pure _

end ProcessNets.Compile
