import ProcessNets.Proofs.Compile.DataObjects

/-!
# Binding the data objects of a net

The data objects of a net are bound in one pass, right after the net is laid out. Each one takes its
turn, and what the whole pass does is what the turns do one after the other.
-/

namespace ProcessNets.Compile

open Net Specification

variable {E : Fault → Prop} {job : Job} {container : Diagram.Container} {scope : Scope}
  {s t u : State} {spec spec' : Specification} {n : Diagram.NodeId} {objects : List Diagram.NodeId}
  {known : List Variable} {result : Option Variable} {y : Net.NodeId} {time : Diagram.AssignTime}
  {levels index : Nat}

/-- The turns of some data objects. -/
def bindAll (job : Job) (scope : Scope) (objects : List Diagram.NodeId) : Compile Unit :=
  objects.forM fun n => do
    let _ ← bindDataObject job scope n

/-- The data objects that are bound in a net, if none was bound yet. -/
def boundObjects (job : Job) (container : Diagram.Container) (scope : Scope)
    (spec : Specification) : List Diagram.NodeId :=
  takers job scope (spec.decomposition scope.net).allVariables (dataObjects job container)

/-! ### The pass -/

theorem ObjectTurn.skeleton (h : ObjectTurn job scope n spec result spec') :
    spec'.skeleton = spec.skeleton := by
  unfold ObjectTurn at h
  split at h
  · exact h.2.skeleton
  · rw [h.2]

theorem ensures_bindDataObject_ready (ready : DataReady scope s.spec)
    (isObject : (job.diagram.node n).kind.isDataObject = true) :
    Ensures E (bindDataObject job scope n) s fun result t =>
      ObjectTurn job scope n s.spec result t.spec ∧ DataReady scope t.spec := by
  have keeping : Ensures (fun _ => True) (bindDataObject job scope n) s fun _ t =>
      Routine Tidying s t ∧ Routine (Owning none) s t :=
    (tidying_bindDataObject ready.tidy.toPlaced ready.registered).and (owning_bindDataObject s)
  refine ((ensures_bindDataObject_turn ready isObject).and_result keeping).mono ?_
  rintro result t ⟨turn, tidying, owning⟩
  exact ⟨turn, ready.after tidying.change owning.change turn.skeleton⟩

/-- In a net that declares the names of the known variables, just those are bound that take their names. -/
theorem ensures_bindAll (areObjects : ∀ n ∈ objects, (job.diagram.node n).kind.isDataObject = true)
    (ready : DataReady scope s.spec)
    (knows : ∀ name, declares (s.spec.decomposition scope.net).allVariables name = true ↔
      declares known name = true) :
    Ensures E (bindAll job scope objects) s fun _ t =>
      ObjectsBound job scope (takers job scope known objects) s.spec t.spec ∧
        DataReady scope t.spec := by
  induction objects generalizing s known with
  | nil => exact ⟨.nil, ready⟩
  | cons n rest ih =>
    -- after each turn the net declares the names of what is known, though in another order
    have others : ∀ k ∈ rest, (job.diagram.node k).kind.isDataObject = true := fun k mem =>
      areObjects k (List.mem_cons_of_mem _ mem)
    unfold bindAll
    rw [List.forM_eq_forM, List.forM_cons, ← List.forM_eq_forM, bind_assoc]
    refine (ensures_bindDataObject_ready ready (areObjects n List.mem_cons_self)).seq ?_
    rintro result t ⟨turn, ready'⟩
    rw [pure_bind]
    have same : declares (s.spec.decomposition scope.net).allVariables (job.diagram.node n).title =
        declares known (job.diagram.node n).title := Bool.eq_iff_iff.mpr (knows _)
    unfold ObjectTurn at turn
    unfold takers
    rw [same] at turn
    split at turn
    · rename_i takes
      obtain ⟨_, bound⟩ := turn
      rw [if_pos takes]
      refine (ih others ready' fun name => ?_).mono fun _ u later => ⟨bound.append later.1, later.2⟩
      rw [bound.declares_iff, declares_append, declares_append, knows, List.map_singleton]
    · rename_i fails
      rw [if_neg fails]
      have knows' : ∀ name, declares (t.spec.decomposition scope.net).allVariables name = true ↔
          declares known name = true := by rwa [turn.2]
      refine (ih others ready' knows').mono fun _ u later => ?_
      rwa [turn.2] at later

/-! ### Whole nets -/

theorem Calls.dataReady (call : Calls job index levels container s)
    (laying : (layOut job (nestedBelow job levels) container).run.run s = (.ok scope, u)) :
    DataReady scope u.spec := by
  have ready := call.ready
  obtain ⟨_, _, _, laid, _⟩ := (ensures_layOut local_anyhow (nests_weak job levels) ready.wf
    ready.clear ready.opens).of_ok laying
  have justified := (stagewise_justifying.laid call laying).justified (.of_empty rfl rfl)
  exact {
    tidy := (stagewise_tidying.laid call laying).tidy (.of_empty rfl)
    own := ownNet_of_layOut ready laying
    registered := laid.mapped.registered
    stored := laid.stored
    runs := fun _ _ => justified.stored }

/-- Each end of a bound data object has its mapping, and what it runs has the parameter. -/
theorem ObjectsBound.attached (h : ObjectsBound job scope objects spec spec') (mem : n ∈ objects)
    (isEnd : y ∈ ends job scope n time) (isTask : (spec'.task? y).isSome) :
    (⟨variableQuery (owner spec' scope.net y time) (job.diagram.node n).title,
        objectVariable job n⟩ : Mapping) ∈ Compile.mappings spec' time y ∧
      ∀ inner, spec'.runs? y = some inner →
        declares ((spec'.decomposition inner).list (parameterList time))
          (job.diagram.node n).title = true := by
  rw [task?_isSome_of_skeleton h.skeleton] at isTask
  rw [owner_of_skeleton h.skeleton, h.mappings]
  refine ⟨List.mem_append_right _ (List.mem_map.mpr ⟨n, ?_, rfl⟩), fun inner runs => ?_⟩
  · simp [mem, isEnd, isTask]
  · rw [runs?_of_skeleton h.skeleton] at runs
    rw [h.parameters, declares_foldl]
    right
    rw [← name_objectVariable]
    refine declares_of_mem (List.mem_map_of_mem ?_)
    have handed : ∃ y ∈ ends job scope n time, spec.runs? y = some inner := ⟨y, isEnd, runs⟩
    simp [mem, handed]

/-- The data objects of a net take turns, first those of the diagram and then those of the container,
and the first one of a name gets it. Each one that has an end in the net and finds its name free
becomes a local variable, which the tasks at its ends read and write. Nothing else changes, and in
the end the net declares whatever has an end in it. -/
theorem data_objects_bound (call : Calls job index levels container s)
    (laying : (layOut job (nestedBelow job levels) container).run.run s = (.ok scope, u))
    (typed : job.diagram.DataTyped) :
    ∃ t, (bindData job container scope).run.run u = (.ok (), t) ∧
      (∀ done n later, dataObjects job container = done ++ n :: later →
        ∃ s₁ s₂ result, (bindAll job scope done).run.run u = (.ok (), s₁) ∧
          (bindDataObject job scope n).run.run s₁ = (.ok result, s₂) ∧
          ObjectTurn job scope n s₁.spec result s₂.spec) ∧
      ObjectsBound job scope (boundObjects job container scope u.spec) u.spec t.spec ∧
      (∀ n ∈ boundObjects job container scope u.spec, ∀ time, ∀ y ∈ ends job scope n time,
        (t.spec.task? y).isSome →
          (⟨variableQuery (owner t.spec scope.net y time) (job.diagram.node n).title,
            objectVariable job n⟩ : Mapping) ∈ mappings t.spec time y ∧
          ∀ inner, t.spec.runs? y = some inner →
            declares ((t.spec.decomposition inner).list (parameterList time))
              (job.diagram.node n).title = true) ∧
      ∀ n ∈ dataObjects job container, HasEnd job scope n →
        declares (t.spec.decomposition scope.net).allVariables (job.diagram.node n).title = true := by
  have ready : DataReady scope u.spec := call.dataReady laying
  have areObjects : ∀ n ∈ dataObjects job container,
      (job.diagram.node n).kind.isDataObject = true := fun n mem =>
    (mem_dataObjects mem).elim (fun listed => (typed n listed).2) id
  obtain ⟨_, t, binding, bound, _⟩ := (ensures_bindAll (E := fun _ => False) areObjects ready
    fun _ => Iff.rfl).exists_run
  refine ⟨t, binding, fun done n later order => ?_, bound, fun n mem time y isEnd => ?_,
    fun n mem hasEnd => ?_⟩
  · have areObjects' : ∀ k ∈ done ++ n :: later, (job.diagram.node k).kind.isDataObject = true :=
      order ▸ areObjects
    obtain ⟨_, s₁, before, _, ready₁⟩ := (ensures_bindAll (E := fun _ => False)
      (fun k mem => areObjects' k (List.mem_append_left _ mem)) ready fun _ => Iff.rfl).exists_run
    obtain ⟨result, s₂, turn, turned, _⟩ := (ensures_bindDataObject_ready (E := fun _ => False)
      ready₁ (areObjects' n (by simp))).exists_run
    exact ⟨s₁, s₂, result, before, turn, turned⟩
  · exact bound.attached mem isEnd
  · exact bound.declares_iff.mpr (declares_takers mem hasEnd)

/-- The first task reads an untyped data object that the second one writes. The other data object
shares its name with a property of the first task. -/
def ordering : Job where
  diagram :=
    let drawn := sketch [.startEvent, .task { properties := [{ name := "N5" }] } {}, .task {} {},
      .endEvent .plain, .dataObject "" "none", .dataObject "string" ""] [(0, 1), (1, 2), (2, 3)]
    let related := (((drawn.associate ⟨4⟩ ⟨1⟩).2.associate ⟨2⟩ ⟨4⟩).2.associate ⟨5⟩ ⟨2⟩).2
    { related with dataObjects := [⟨5⟩] }

theorem dataTyped_ordering : ordering.diagram.DataTyped := by
  unfold Diagram.DataTyped
  decide

theorem data_objects_bound_ordering : ∃ scope u t,
    (layOut ordering (nestedBelow ordering 63) (.pool 0)).run.run (poolState ordering 0) =
      (.ok scope, u) ∧
    (bindData ordering (.pool 0) scope).run.run u = (.ok (), t) ∧
    boundObjects ordering (.pool 0) scope u.spec = [⟨4⟩] ∧
    ObjectsBound ordering scope [⟨4⟩] u.spec t.spec ∧
    (∀ n ∈ [⟨4⟩, ⟨5⟩], declares (t.spec.decomposition scope.net).allVariables
      (ordering.diagram.node n).title = true) := by
  obtain ⟨scope, u, laying, checked⟩ := exists_run_of_check
    (x := layOut ordering (nestedBelow ordering 63) (.pool 0)) (s := poolState ordering 0)
    (fun scope u => decide (boundObjects ordering (.pool 0) scope u.spec = [⟨4⟩] ∧
      HasEnd ordering scope ⟨4⟩ ∧ HasEnd ordering scope ⟨5⟩)) (by decide +kernel)
  obtain ⟨taken, first, second⟩ := of_decide_eq_true checked
  obtain ⟨t, binding, _, bound, _, declared⟩ := data_objects_bound .pool laying dataTyped_ordering
  rw [taken] at bound
  refine ⟨scope, u, t, laying, binding, taken, bound, fun n mem => declared n ?_ ?_⟩
  · have listed : ∀ n ∈ [⟨4⟩, ⟨5⟩], n ∈ dataObjects ordering (.pool 0) := by decide
    exact listed n mem
  · simp only [List.mem_cons, List.not_mem_nil, or_false] at mem
    rcases mem with rfl | rfl
    · exact first
    · exact second

/-- A bound data object does not always keep its type. -/
theorem empty_type_replaced : ¬∀ (job : Job) (index levels : Nat) (container : Diagram.Container)
    (s u t : State) (scope : Scope), Calls job index levels container s →
      (layOut job (nestedBelow job levels) container).run.run s = (.ok scope, u) →
      job.diagram.DataTyped → (bindData job container scope).run.run u = (.ok (), t) →
      ∀ n ∈ boundObjects job container scope u.spec, ∀ type value,
        (job.diagram.node n).kind = .dataObject type value →
          ({ name := (job.diagram.node n).title, type, initialValue := value } : Variable) ∈
            (t.spec.decomposition scope.net).locals := by
  intro all
  obtain ⟨scope, u, laying, checked⟩ := exists_run_of_check
    (x := layOut ordering (nestedBelow ordering 63) (.pool 0)) (s := poolState ordering 0)
    (fun scope u => match (bindData ordering (.pool 0) scope).run.run u with
      | (.ok _, t) => decide (⟨4⟩ ∈ boundObjects ordering (.pool 0) scope u.spec ∧
          ({ name := "n4", type := "", initialValue := "none" } : Variable) ∉
            (t.spec.decomposition scope.net).locals)
      | (.error _, _) => false) (by decide +kernel)
  rcases binding : (bindData ordering (.pool 0) scope).run.run u with ⟨_ | _, t⟩
  · rw [binding] at checked
    cases checked
  · rw [binding] at checked
    obtain ⟨taken, missing⟩ := of_decide_eq_true checked
    exact missing (all ordering 0 63 (.pool 0) _ u t scope .pool laying dataTyped_ordering binding ⟨4⟩
      taken "" "none" rfl)

end ProcessNets.Compile
