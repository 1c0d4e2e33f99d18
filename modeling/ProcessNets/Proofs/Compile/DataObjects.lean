import ProcessNets.Proofs.Compile.AttachedData
import ProcessNets.Proofs.Compile.VariableQueries

/-!
# Data objects of a net

The data objects that a net may use take turns, and the first one of a name gets it. A data object
with an end in the net becomes a variable there, unless the net knows its name already. Its ends read
and write the variable, and nothing else changes.
-/

namespace ProcessNets.Compile

open Net Specification
open Diagram (AssignTime)
open ProcessNets.Text (sameName)

variable {job : Job} {container : Diagram.Container} {scope : Scope} {s t u : Specification}
  {state : State} {n : Diagram.NodeId} {objects later : List Diagram.NodeId} {known : List Variable}
  {y : Net.NodeId} {time : AssignTime} {c : DecompositionId} {name : String} {levels index : Nat}

/-! ### Ends and variables -/

/-- The nodes of the net on one side of a data object: those that it flows into read it when they
start, and those that flow into it write it when they complete. -/
def ends (job : Job) (scope : Scope) (n : Diagram.NodeId) : AssignTime → List Net.NodeId
  | .start => (job.diagram.outgoing n).filterMap fun e => scope.map.find? e.target
  | .finish => (job.diagram.incoming n).filterMap fun e => scope.map.find? e.source

/-- A node at an end of the data object has a counterpart in the net. -/
def HasEnd (job : Job) (scope : Scope) (n : Diagram.NodeId) : Prop :=
  ends job scope n .start ≠ [] ∨ ends job scope n .finish ≠ []

instance : DecidablePred (HasEnd job scope) :=
  fun _ => inferInstanceAs (Decidable (_ ∨ _))

/-- The variable that a data object becomes. Its type is `string` where the object has an empty
one. -/
def objectVariable (job : Job) (n : Diagram.NodeId) : Variable :=
  match (job.diagram.node n).kind with
  | .dataObject type value => {
      name := (job.diagram.node n).title
      type := if type.isEmpty then "string" else type
      initialValue := value }
  | _ => { name := (job.diagram.node n).title }

theorem name_objectVariable : (objectVariable job n).name = (job.diagram.node n).title := by
  unfold objectVariable
  split <;> rfl

/-- The data objects among the given ones that get their names, in turn, in a net that knows some
variables already. -/
def takers (job : Job) (scope : Scope) : List Variable → List Diagram.NodeId → List Diagram.NodeId
  | _, [] => []
  | known, n :: rest =>
    if HasEnd job scope n ∧ declares known (job.diagram.node n).title = false then
      n :: takers job scope (known ++ [objectVariable job n]) rest
    else takers job scope known rest

/-- Whoever has an end in the net finds its name declared in the end. -/
theorem declares_takers (mem : n ∈ objects) (hasEnd : HasEnd job scope n) :
    declares (known ++ (takers job scope known objects).map (objectVariable job))
      (job.diagram.node n).title = true := by
  -- a name that is declared stays so, whoever else gets one
  have taken : ∀ {known objects}, declares known (job.diagram.node n).title = true →
      declares (known ++ (takers job scope known objects).map (objectVariable job))
        (job.diagram.node n).title = true := fun declared =>
    declares_mono (List.subset_append_left _ _) declared
  induction objects generalizing known with
  | nil => cases mem
  | cons k rest ih =>
    unfold takers
    split
    · rw [List.map_cons, ← List.singleton_append, ← List.append_assoc]
      rcases List.mem_cons.mp mem with rfl | later
      · refine taken (declares_append.mpr (.inr ?_))
        rw [← name_objectVariable]
        exact declares_of_mem List.mem_cons_self
      · exact ih later
    · rename_i skipped
      rcases List.mem_cons.mp mem with rfl | later
      · exact taken (Bool.not_eq_false _ ▸ fun new => skipped ⟨hasEnd, new⟩)
      · exact ih later

/-! ### Bound data objects -/

/-- The data objects were bound, one after the other, and nothing else happened: each one is a local
of the net, each task at an end of it has a mapping for it, and what such a task runs has a
parameter. -/
structure ObjectsBound (job : Job) (scope : Scope) (objects : List Diagram.NodeId)
    (s t : Specification) : Prop where
  dataless : t.dataless = s.dataless
  locals : ∀ c, (t.decomposition c).locals = (s.decomposition c).locals ++
    if c = scope.net then objects.map (objectVariable job) else []
  mappings : ∀ time y, mappings t time y = mappings s time y ++
    (objects.filter fun n => y ∈ ends job scope n time ∧ (s.task? y).isSome).map fun n =>
      ⟨variableQuery (owner s scope.net y time) (job.diagram.node n).title, objectVariable job n⟩
  parameters : ∀ time c, (t.decomposition c).list (parameterList time) =
    ((objects.filter fun n => ∃ y ∈ ends job scope n time, s.runs? y = some c).map
      (objectVariable job)).foldl declare ((s.decomposition c).list (parameterList time))

namespace ObjectsBound

theorem skeleton (h : ObjectsBound job scope objects s t) : t.skeleton = s.skeleton :=
  skeleton_of_dataless h.dataless

theorem nil : ObjectsBound job scope [] s s where
  dataless := rfl
  locals := by simp
  mappings := by simp
  parameters := by simp

theorem append (h : ObjectsBound job scope objects s t) (h' : ObjectsBound job scope later t u) :
    ObjectsBound job scope (objects ++ later) s u where
  dataless := h'.dataless.trans h.dataless
  locals c := by
    rw [h'.locals, h.locals]
    split <;> simp
  mappings time y := by
    rw [h'.mappings, h.mappings, owner_of_skeleton h.skeleton, task?_isSome_of_skeleton h.skeleton]
    simp
  parameters time c := by
    rw [h'.parameters, h.parameters]
    simp only [runs?_of_skeleton h.skeleton, List.filter_append, List.map_append,
      List.foldl_append]

/-- A data object is bound by declaring its variable, and binding that to its ends. -/
theorem single {s₁ s₂ : Specification} (stored : scope.net.index < s.decompositions.size)
    (declared : s₁ = s.modifyDecomposition scope.net fun net =>
      net.modifyList .locals (· ++ [objectVariable job n]))
    (reads : BoundAt .start scope.net (objectVariable job n) (ends job scope n .start) s₁ s₂)
    (writes : BoundAt .finish scope.net (objectVariable job n) (ends job scope n .finish) s₂ t)
    (unread : ∀ time, ∀ y ∈ ends job scope n time, hasQuery (Compile.mappings s time y)
      (variableQuery (owner s scope.net y time) (job.diagram.node n).title) = false) :
    ObjectsBound job scope [n] s t := by
  -- declaring the variable changes one list and no mapping
  have dataless₁ : s₁.dataless = s.dataless := by rw [declared, dataless_modifyList]
  have skeleton₁ := skeleton_of_dataless dataless₁
  have mappings₁ : ∀ time y, Compile.mappings s₁ time y = Compile.mappings s time y := by
    intro time y
    rw [declared]
    rfl
  have lists₁ : ∀ c which, (s₁.decomposition c).list which =
      if which = .locals ∧ c = scope.net then (s.decomposition c).list which ++ [objectVariable job n]
      else (s.decomposition c).list which := by
    intro c which
    rw [declared, list_modifyList stored]
  refine ⟨writes.dataless.trans (reads.dataless.trans dataless₁), fun c => ?_, fun time y => ?_,
    fun time c => ?_⟩
  · have locals := lists₁ c .locals
    rw [writes.locals, reads.locals]
    refine locals.trans ?_
    by_cases here : c = scope.net
    · rw [if_pos ⟨rfl, here⟩, if_pos here]
      rfl
    · rw [if_neg fun both => here both.2, if_neg here, List.append_nil]
      rfl
  · rw [BoundAt.mappings_both reads writes, owner_of_skeleton skeleton₁,
      task?_isSome_of_skeleton skeleton₁, mappings₁, name_objectVariable]
    split
    · rename_i both
      rw [addMapping_of_new (unread time y both.1)]
      simp [both]
    · rename_i neither
      simp [neither]
  · have isParameter : parameterList time ≠ .locals := by cases time <;> simp [parameterList]
    have same := lists₁ c (parameterList time)
    rw [if_neg fun both => isParameter both.1] at same
    rw [BoundAt.parameters_both reads writes, same]
    simp only [runs?_of_skeleton skeleton₁]
    split
    · rename_i runs
      simp [runs]
    · rename_i none
      simp [none]

/-- The net declares the names of the data objects beside those that it declared before. -/
theorem declares_iff (h : ObjectsBound job scope objects s t) :
    declares (t.decomposition scope.net).allVariables name = true ↔
      declares ((s.decomposition scope.net).allVariables ++ objects.map (objectVariable job))
        name = true := by
  have locals := h.locals scope.net
  have inputs : (t.decomposition scope.net).inputs = _ := h.parameters .start scope.net
  have outputs : (t.decomposition scope.net).outputs = _ := h.parameters .finish scope.net
  have part : ∀ p : Diagram.NodeId → Bool,
      declares ((objects.filter p).map (objectVariable job)) name = true →
        declares (objects.map (objectVariable job)) name = true := fun p =>
    declares_mono (List.map_subset _ (List.filter_subset_self objects))
  rw [if_pos rfl] at locals
  unfold Decomposition.allVariables
  simp only [declares_append, locals, inputs, outputs, declares_foldl]
  have first := part fun n => ∃ y ∈ ends job scope n .start, s.runs? y = some scope.net
  have second := part fun n => ∃ y ∈ ends job scope n .finish, s.runs? y = some scope.net
  tauto

end ObjectsBound

/-! ### Turns -/

/-- A net whose data may be bound: its tasks map what it declares, and nothing else. -/
structure DataReady (scope : Scope) (s : Specification) : Prop where
  tidy : s.Tidy
  own : OwnNet s scope.net
  registered : Registered s scope
  stored : scope.net.index < s.decompositions.size
  runs : ∀ y c, s.runs? y = some c → c.index < s.decompositions.size

theorem DataReady.runs_of_skeleton (h : DataReady scope s) (skeleton : t.skeleton = s.skeleton) :
    ∀ y c, t.runs? y = some c → c.index < t.decompositions.size := by
  intro y c runs
  rw [runs?_of_skeleton skeleton] at runs
  rw [decompositions_size_of_skeleton skeleton]
  exact h.runs y c runs

theorem DataReady.after (h : DataReady scope s) (tidying : Tidying s t) (owning : Owning none s t)
    (skeleton : t.skeleton = s.skeleton) : DataReady scope t where
  tidy := tidying.tidy h.tidy
  own := owning.keepsOwnNets.ownNet scope.net h.stored h.own
  registered := h.registered.enlarged owning.toEnlarged
  stored := Nat.lt_of_lt_of_le h.stored owning.decompositions_size
  runs := h.runs_of_skeleton skeleton

theorem Registered.mem_ends (h : Registered s scope) (mem : y ∈ ends job scope n time) :
    y ∈ (s.decomposition scope.net).nodes := by
  cases time
  · exact h.mem_filterMap mem
  · exact h.mem_filterMap mem

/-- How the turn of a data object ends: if it has an end in the net, and the net does not know its
name yet, it is bound. Otherwise nothing happens. -/
def ObjectTurn (job : Job) (scope : Scope) (n : Diagram.NodeId) (s : Specification)
    (result : Option Variable) (t : Specification) : Prop :=
  if HasEnd job scope n ∧
      declares (s.decomposition scope.net).allVariables (job.diagram.node n).title = false then
    result = some (objectVariable job n) ∧ ObjectsBound job scope [n] s t
  else result = none ∧ t = s

theorem ObjectTurn.skipped (fails : ¬(HasEnd job scope n ∧
    declares (s.decomposition scope.net).allVariables (job.diagram.node n).title = false)) :
    ObjectTurn job scope n s none s := by
  unfold ObjectTurn
  rw [if_neg fails]
  exact ⟨rfl, rfl⟩

theorem ObjectTurn.bound (hasEnd : HasEnd job scope n)
    (free : declares (s.decomposition scope.net).allVariables (job.diagram.node n).title = false)
    (bound : ObjectsBound job scope [n] s t) :
    ObjectTurn job scope n s (some (objectVariable job n)) t := by
  unfold ObjectTurn
  rw [if_pos ⟨hasEnd, free⟩]
  exact ⟨rfl, bound⟩

theorem not_hasEnd_iff : ¬HasEnd job scope n ↔
    ((ends job scope n .start).isEmpty && (ends job scope n .finish).isEmpty) = true := by
  simp [HasEnd]

theorem ensures_bindObject {E : Fault → Prop} (ready : DataReady scope state.spec)
    (free : declares (state.spec.decomposition scope.net).allVariables
      (job.diagram.node n).title = false) :
    Ensures E (do
      edit (.appendVariable scope.net .locals (objectVariable job n))
      (ends job scope n .start).forM (bindReader
        (variableQuery (state.spec.decomposition scope.net).id (objectVariable job n).name)
        (objectVariable job n))
      (ends job scope n .finish).forM (bindWriter (objectVariable job n))
      return some (objectVariable job n)) state fun result t =>
        result = some (objectVariable job n) ∧ ObjectsBound job scope [n] state.spec t.spec := by
  have declaring : Ensures E
      (edit (.appendVariable scope.net .locals (objectVariable job n))) state fun _ t =>
        t.spec = state.spec.modifyDecomposition scope.net fun net =>
          net.modifyList .locals (· ++ [objectVariable job n]) := rfl
  refine declaring.seq fun _ s₁ declared => ?_
  have skeleton₁ : s₁.spec.skeleton = state.spec.skeleton := by
    rw [declared]
    exact skeleton_of_dataless (dataless_modifyList _ _)
  have stored₁ := ready.runs_of_skeleton skeleton₁
  rw [← decomposition_id_of_skeleton skeleton₁]
  refine (ensures_bindReaders stored₁ rfl).seq fun _ s₂ reads => ?_
  refine (ensures_bindWriters (d := scope.net) (reads.runs_stored stored₁)).seq fun _ t writes => ?_
  refine ⟨rfl, .single ready.stored declared reads writes fun time y mem => ?_⟩
  exact hasQuery_of_undeclared ready.tidy ready.own (ready.registered.mem_ends mem) time free

theorem ensures_bindDataObject_turn {E : Fault → Prop} (ready : DataReady scope state.spec)
    (isObject : (job.diagram.node n).kind.isDataObject = true) :
    Ensures E (bindDataObject job scope n) state fun result t =>
      ObjectTurn job scope n state.spec result t.spec := by
  unfold bindDataObject
  dsimp only
  split
  · rename_i empty
    exact .skipped fun takes => not_hasEnd_iff.mpr empty takes.1
  rename_i ended
  have hasEnd : HasEnd job scope n := not_not.mp (mt not_hasEnd_iff.mp ended)
  have known : ((state.spec.decomposition scope.net).findVariable?
      (job.diagram.node n).title).isSome = declares
        (state.spec.decomposition scope.net).allVariables (job.diagram.node n).title :=
    (declares_eq_isSome _ _).symm
  rw [ensures_bind, ensures_spec, known]
  split
  · rename_i declared
    rw [ensures_bind, ensures_tell, ensures_pure]
    refine .skipped fun takes => ?_
    rw [takes.2] at declared
    cases declared
  · rename_i undeclared
    have free := Bool.eq_false_iff.mpr undeclared
    have binding := (ensures_bindObject (E := E) ready free).mono fun _ _ both =>
      both.1 ▸ ObjectTurn.bound hasEnd free both.2
    unfold objectVariable at binding
    cases kind : (job.diagram.node n).kind with
    | dataObject type value =>
      rw [kind] at binding
      exact binding
    | _ =>
      rw [kind] at isObject
      cases isObject

end ProcessNets.Compile
