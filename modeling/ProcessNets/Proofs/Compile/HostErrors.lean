import ProcessNets.Proofs.Compile.FoldedChains
import ProcessNets.Proofs.Compile.Handlers
import ProcessNets.Proofs.Compile.KeptDecorators
import ProcessNets.Proofs.Compile.Parameters
import ProcessNets.Proofs.Compile.SharedStarts
import ProcessNets.Proofs.Compile.UnwiredSteps
import ProcessNets.Proofs.Net.Bindings
import ProcessNets.Proofs.Net.FirstEdges

/-!
# Errors of one host

The error events of a host, if the edge lists of the net agree: guarded edges lead to what the
events lead to, the last one first, and behind them the host goes on as it did, or to a task that
does so. The flag that guards them is declared, and the host takes it over from what it runs, unless
its query is in use for something else.
-/

namespace ProcessNets

open Net
open ProcessNets.Text (sameName sameName_iff)

namespace Specification

variable {s t u : Specification}

/-! ### Kept data -/

/-- No completed mapping and nothing that is declared gets lost, and what tasks come to run is
stored. -/
structure Retains (s t : Specification) : Prop extends Enlarged s t where
  ran : ∀ {n d}, t.runs? n = some d → s.runs? n = some d ∨ d.index < t.decompositions.size
  completed : ∀ n, s.completed n ⊆ t.completed n

namespace Retains

theorem of_accrues (h : Accrues s t) : Retains s t :=
  ⟨h.toEnlarged, h.ran, h.completed⟩

theorem of_unbound (h : Unbound s t) : Retains s t :=
  .of_accrues h.accrues

instance : Std.Refl Retains :=
  ⟨fun s => of_unbound (Std.Refl.refl s)⟩

theorem trans (h : Retains s t) (h' : Retains t u) : Retains s u where
  toEnlarged := h.toEnlarged.trans h'.toEnlarged
  ran isRun := by
    rcases h'.ran isRun with before | stored
    · refine (h.ran before).imp_right fun stored => ?_
      exact Nat.lt_of_lt_of_le stored h'.decompositions_size
    · exact .inr stored
  completed n := List.Subset.trans (h.completed n) (h'.completed n)

instance : IsTrans Specification Retains :=
  ⟨fun _ _ _ => trans⟩

theorem outputs {d : DecompositionId} {name : String} (h : Retains s t)
    (declared : declares (s.decomposition d).outputs name = true) :
    declares (t.decomposition d).outputs name = true := by
  have listed : declares ((s.decomposition d).list .outputs) name = true := declared
  have kept := h.declares listed
  exact kept

instance : DataFree Retains where
  lists which _ grows := .of_accrues (.modifyList which grows)
  detail runs control mappings := .of_unbound (Structural.detail runs control mappings)
  timer timer := .of_unbound (Structural.timer timer)
  node plain := .of_unbound (Structural.node plain)
  terminal x id name := .of_unbound (Structural.terminal x id name)
  decompose id idle := .of_unbound (Structural.decompose id idle)
  mappings {s n g} maps := by
    refine ⟨.modifyTask, fun {m c} isRun => ?_, fun m => ?_⟩
    all_goals rcases kind_modifyTask (s := s) (g := g) n m with same | ⟨-, task, before, after⟩
    · exact .inl (by rwa [runs?, ← same])
    · obtain ⟨starting, completed, grows, same⟩ := maps task
      rw [runs?, after, same] at isRun
      exact .inl (by rwa [runs?, before])
    · simp [Specification.completed, same]
    · obtain ⟨starting, completed, grows, same⟩ := maps task
      simpa [Specification.completed, before, after, Kind.completed, same] using grows

instance : Wiring Retains where
  edges h := .of_unbound (Wiring.edges h)
  router id name split join := .of_unbound (Wiring.router id name split join)
  decorate decorates := .of_unbound (Wiring.decorate decorates)

end Retains

end Specification

namespace Compile

open Net Specification

variable {E : Fault → Prop} {job : Job} {scope : Scope} {s t : State} {d inner : DecompositionId}
  {n event : Diagram.NodeId} {host source x y : Net.NodeId} {content : Task}
  {predicate flag name : String} {targets : List Net.NodeId} {v : Variable}

/-! ### Edges to handlers -/

theorem Still.handled (still : Still s t) (agree : EdgeListsAgree s.spec d)
    (mem : x ∈ (s.spec.decomposition d).nodes) : Handled d x predicate [] s.spec t.spec := by
  have gains : Gains d (fun _ => False) s.spec t.spec := still.gains agree
  have edge := still.steady.edge
  have same := still.steady.outgoing (agree.stored x mem)
  have order : ∀ ids, Edit.byOrdering t.spec ids = Edit.byOrdering s.spec ids := fun _ =>
    byOrdering_congr edge
  constructor
  · exact gains.agree
  · exact gains.size
  · exact gains.nodes
  · exact gains.edges
  · exact gains.isTask
  · exact gains.split
  · rw [same, order]
    exact List.map_congr_left fun e _ => edge e
  · exact ⟨[], by rw [same, order, List.nil_append], nofun⟩
  · exact fun e _ _ => edge e
  · exact fun n hn _ => still.steady.outgoing (agree.stored n hn)

theorem ensures_linkHandler_handled (agree : EdgeListsAgree s.spec d)
    (mem : x ∈ (s.spec.decomposition d).nodes) (memTarget : y ∈ (s.spec.decomposition d).nodes) :
    Ensures E (linkHandler d x y predicate) s fun _ t =>
      Handled d x predicate [y] s.spec t.spec := by
  unfold linkHandler
  rw [ensures_bind, ensures_spec, ensures_bind]
  apply ensures_edit
  apply Edit.ensures_linkFirst agree mem
  intro v numbered
  have listed : ∀ e ∈ (s.spec.node x).outgoing,
      e.index < (v.addEdge d { Edge.plain x y 1 with predicate } x y).edges.size := by
    intro e he
    have stored := agree.edge_index_lt ((agree.listed x mem .source e).mp he).1
    rw [edges_size_addEdge, numbered.size]
    exact Nat.lt_succ_of_lt stored
  refine ensures_edit ((Edit.ensures_modifyEdges ?_ (agree.once x mem .source) listed).mono ?_)
  · intro edge
    split <;> rfl
  · intro _ w flagged
    exact PutInFront.handled ⟨numbered, flagged⟩ agree mem memTarget

/-! ### Flags -/

/-- All completed mappings with the query are for the name. -/
def QueryFor (mappings : List Mapping) (query name : String) : Prop :=
  ∀ m ∈ mappings, sameName m.query query = true → sameName m.target.name name = true

/-- A mapping with the query is for the name. -/
def MapsBy (mappings : List Mapping) (query name : String) : Prop :=
  ∃ m ∈ mappings, sameName m.query query = true ∧ sameName m.target.name name = true

theorem QueryFor.addMapping {mappings : List Mapping} {query : String}
    (h : QueryFor mappings query name) (same : sameName v.name name = true) :
    MapsBy (addMapping mappings query v) query name := by
  unfold Net.addMapping
  split
  · rename_i known
    obtain ⟨m, mem, sameQuery⟩ := List.any_eq_true.mp known
    exact ⟨m, mem, sameQuery, h m mem sameQuery⟩
  · exact ⟨_, List.mem_append_right _ (List.mem_singleton_self _), Text.sameName_refl query, same⟩

/-- A net declares a flag. The host takes it over by a query that reads a variable which its own net
hands out, unless another variable is taken over by the same query. -/
structure Flagged (d : DecompositionId) (host : Net.NodeId) (content : Task) (flag name : String)
    (query : DecompositionId → String) (t : Specification) : Prop where
  declared : declares (t.decomposition d).allVariables flag = true
  takes : ∀ inner, content.decomposesTo = some inner →
    QueryFor content.completed (query inner) flag →
    MapsBy (t.completed host) (query inner) flag ∧
      declares (t.decomposition inner).outputs name = true

theorem Flagged.retained {query : DecompositionId → String} {s t : Specification}
    (h : Flagged d host content flag name query s) (retains : Retains s t) :
    Flagged d host content flag name query t where
  declared := retains.declares_all h.declared
  takes inner runs isFor := by
    obtain ⟨⟨m, mem, same⟩, handed⟩ := h.takes inner runs isFor
    exact ⟨⟨m, retains.completed host mem, same⟩, retains.outputs handed⟩

theorem ensures_ensureFlag_named (stored : d.index < s.spec.decompositions.size) :
    Ensures E (ensureFlag d v) s fun known t => sameName known.name v.name = true ∧
      declares (t.spec.decomposition d).allVariables v.name = true := by
  unfold ensureFlag
  rw [ensures_bind, ensures_spec]
  split
  · rename_i known found
    obtain ⟨mem, same⟩ := findVariable?_some found
    exact ⟨same, declares_iff.mpr ⟨known, mem, same⟩⟩
  · rw [ensures_bind]
    apply ensures_edit
    unfold Edit.appendVariable
    rw [ensures_modify]
    refine ⟨Text.sameName_refl _, declares_allVariables.mpr ⟨.locals, ?_⟩⟩
    dsimp only
    rw [decomposition_modifyDecomposition, if_pos ⟨rfl, stored⟩]
    exact declares_of_mem (List.mem_append_right _ (List.mem_singleton_self v))

theorem ensures_addCompleted_eq {query : String} (isTask : (s.spec.task? x).isSome) :
    Ensures E (edit (.addCompleted x query v)) s fun _ t =>
      Quiet s t ∧ t.spec.completed x = addMapping (s.spec.completed x) query v := by
  refine (ensures_quiet_edit (Edit.ensures_addCompleted isTask query v)).and ?_
  obtain ⟨task, found⟩ := Option.isSome_iff_exists.mp isTask
  apply ensures_edit
  apply Edit.ensures_addCompleted_of_task found
  rw [(mappings_of_task (task?_modifyTask_self found)).2, (mappings_of_task found).2]

/-- The error task sets the flag, and nothing gets lost. -/
theorem ensures_setByError {query : String} {missing routed : Log.Event} :
    Ensures E (setByError inner query v missing routed) t fun _ u =>
      Still t u ∧ Retains t.spec u.spec := by
  unfold setByError
  rw [ensures_bind, ensures_spec]
  split
  · refine (ensures_quiet_tell.and_result (routine_tell (R := Retains) t)).mono ?_
    exact fun _ u last => ⟨last.1.still, last.2.change⟩
  · rename_i task found
    have isTask : (t.spec.task? task).isSome := (errorTask?_some found).2.1
    refine ((ensures_addCompleted_eq isTask).and_result
      (routine_edit (R := Retains) Edit.relates_addCompleted t)).seq ?_
    rintro _ t₁ ⟨⟨set, _⟩, setting⟩
    refine ((ensures_ensureDecomposition (set.isTask isTask)).and_result
      (routine_edit (R := Retains) Edit.relates_ensureDecomposition t₁)).seq ?_
    rintro _ t₂ ⟨given, giving⟩
    refine (ensures_quiet_tell.and_result (routine_tell (R := Retains) t₂)).mono fun _ u last => ?_
    exact ⟨set.still.trans (given.trans last.1.still),
      (setting.change.trans giving.change).trans last.2.change⟩

/-- A flag is handed over. -/
theorem ensures_bindInnerFlag_maps {eventId targetId query : String}
    (isTask : (s.spec.task? host).isSome) (stored : inner.index < s.spec.decompositions.size)
    (isFlag : exceptionFlag (s.spec.node host).id (s.spec.node source).id = flag)
    (isName : innerFlag (s.spec.node source).id = name)
    (isQuery : flagQuery flag (s.spec.decomposition inner).id name = query)
    (same : sameName v.name flag = true) :
    Ensures E (bindInnerFlag host source eventId targetId v inner) s fun _ t => Still s t ∧
      (QueryFor (s.spec.completed host) query flag → MapsBy (t.spec.completed host) query flag) ∧
      declares (t.spec.decomposition inner).outputs name = true := by
  rw [bindInnerFlag_eq, ensures_bind, ensures_spec]
  dsimp only
  rw [isName, isFlag, isQuery]
  refine (ensures_addCompleted_eq isTask).seq ?_
  rintro _ t₁ ⟨first, mapped⟩
  refine (ensures_ensureFlag.and_result (routine_ensureFlag (R := Retains) t₁)).seq ?_
  rintro inside t₂ ⟨second, kept⟩
  refine (((ensures_quiet_edit (Edit.ensures_declareVariable _ _)).and
    ensures_declareVariable_declares).and_result
      (routine_edit (R := Retains) Edit.relates_declareVariable t₂)).seq ?_
  rintro _ t₃ ⟨⟨third, _, declared⟩, kept'⟩
  have stored₂ : inner.index < t₂.spec.decompositions.size := by
    rw [decompositions_size_of_skeleton second.skeleton,
      decompositions_size_of_skeleton first.skeleton]
    exact stored
  refine ensures_setByError.mono ?_
  rintro _ t ⟨still, retains⟩
  refine ⟨((first.trans second).trans third).still.trans still, fun isFor => ?_,
    retains.outputs (declared stored₂)⟩
  obtain ⟨m, mem, sames⟩ := isFor.addMapping same
  rw [← mapped] at mem
  exact ⟨m, ((kept.change.trans kept'.change).trans retains).completed host mem, sames⟩

/-! ### Error events -/

def handler? (job : Job) (map : NodeMap) (event : Diagram.NodeId) : Option Net.NodeId :=
  match (job.diagram.node event).kind with
  | .intermediate .error _ => (job.diagram.successor? event).bind map.find?
  | _ => none

theorem ensures_eventTarget_eq : Ensures E (eventTarget job scope event) s fun found t =>
    found = (job.diagram.successor? event).bind scope.map.find? ∧ t.spec = s.spec ∧
      ∀ y, found = some y → t = s := by
  unfold eventTarget
  dsimp only
  split
  · rename_i none
    rw [ensures_bind, ensures_tell]
    refine ⟨rfl, rfl, fun y found => ?_⟩
    rw [found] at none
    cases none
  · exact ⟨rfl, rfl, fun _ _ => rfl⟩

/-- What errors make of a host: edges to their handlers, and the flag that guards these. -/
structure ErrorSteps (d : DecompositionId) (host source : Net.NodeId) (content : Task)
    (targets : List Net.NodeId) (s t : Specification) : Prop where
  handled : Handled d host (exceptionPredicate (s.decomposition d).id (s.node host).id
    (s.node source).id) targets s t
  retains : Retains s t
  idle : targets = [] → t = s
  flagged : targets ≠ [] → Flagged d host content
    (exceptionFlag (s.node host).id (s.node source).id) (innerFlag (s.node source).id)
    (fun inner => flagQuery (exceptionFlag (s.node host).id (s.node source).id)
      (s.decomposition inner).id (innerFlag (s.node source).id)) t

namespace ErrorSteps

variable {s t u : Specification}

theorem of_eq (agree : EdgeListsAgree s d) (same : t = s) :
    ErrorSteps d host source content [] s t := by
  rw [same]
  exact ⟨.refl agree, Std.Refl.refl s, fun _ => rfl, fun some => (some rfl).elim⟩

/-- What the host is like when it raises its later errors does not matter. -/
theorem trans {content' : Task} {targets' : List Net.NodeId}
    (h : ErrorSteps d host source content targets s t)
    (h' : ErrorSteps d host source content' targets' t u) (same : targets = [] → content' = content)
    (mem : host ∈ (s.decomposition d).nodes) (hostStored : host.index < s.nodes.size)
    (sourceStored : source.index < s.nodes.size) :
    ErrorSteps d host source content (targets ++ targets') s u := by
  by_cases first : targets = []
  · obtain rfl := h.idle first
    obtain rfl := same first
    rw [first]
    exact h'
  · have handled := h'.handled
    rw [h.retains.id hostStored, h.retains.id sourceStored,
      h.retains.decomposition_id (decomposition_stored mem)] at handled
    refine ⟨h.handled.trans handled, h.retains.trans h'.retains, fun none => ?_, fun _ => ?_⟩
    · exact (first (List.append_eq_nil_iff.mp none).1).elim
    · exact (h.flagged first).retained h'.retains

end ErrorSteps

/-- Behind the edge to a handler, the flag is declared and handed over. -/
theorem ensures_flagged {spec : Specification} {eventId targetId : String}
    (before : Unbound spec t.spec) (isTask : spec.task? host = some content)
    (stays : (t.spec.task? host).isSome) (hostStored : host.index < spec.nodes.size)
    (sourceStored : source.index < spec.nodes.size)
    (netStored : d.index < spec.decompositions.size)
    (stored : ∀ inner, content.decomposesTo = some inner →
      inner.index < spec.decompositions.size) :
    Ensures E (do
      let v ← ensureFlag d
        { name := exceptionFlag (spec.node host).id (spec.node source).id
          type := "boolean", initialValue := "false" }
      match spec.task? host >>= (·.decomposesTo) with
      | none => return
      | some inner => bindInnerFlag host source eventId targetId v inner) t fun _ u =>
        Still t u ∧ Retains t.spec u.spec ∧ Flagged d host content
          (exceptionFlag (spec.node host).id (spec.node source).id)
          (innerFlag (spec.node source).id)
          (fun inner => flagQuery (exceptionFlag (spec.node host).id (spec.node source).id)
            (spec.decomposition inner).id (innerFlag (spec.node source).id)) u.spec := by
  have first : Retains spec t.spec := .of_unbound before
  have runs : (spec.task? host >>= (·.decomposesTo)) = content.decomposesTo := by
    rw [isTask]
    rfl
  rw [runs]
  refine (((ensures_ensureFlag.and
    (ensures_ensureFlag_named (Nat.lt_of_lt_of_le netStored before.decompositions_size))).and_result
      (routine_ensureFlag (R := SameMappings) t)).and_result
        (routine_ensureFlag (R := Retains) t)).seq ?_
  rintro v t₁ ⟨⟨⟨quiet, named, declared⟩, sameMappings⟩, flagging⟩
  have retains : Retains spec t₁.spec := first.trans flagging.change
  split
  · rename_i idle
    refine ⟨quiet.still, flagging.change, declared, fun inner runs => ?_⟩
    cases idle.symm.trans runs
  · rename_i inner runs
    have innerStored := stored inner runs
    refine ((ensures_bindInnerFlag_maps (quiet.isTask stays)
      (Nat.lt_of_lt_of_le innerStored retains.decompositions_size) rfl rfl rfl ?_).and_result
      (routine_bindInnerFlag (R := Retains) t₁)).mono ?_
    · rw [retains.id hostStored, retains.id sourceStored]
      exact named
    · rw [retains.id hostStored, retains.id sourceStored, retains.decomposition_id innerStored]
      rintro _ u ⟨⟨still, maps, handed⟩, binding⟩
      refine ⟨quiet.still.trans still, flagging.change.trans binding.change,
        binding.change.declares_all declared, fun inner' runs' isFor => ?_⟩
      cases runs.symm.trans runs'
      refine ⟨maps ?_, handed⟩
      rw [sameMappings.change.completed, before.completed, (mappings_of_task isTask).2]
      exact isFor

section
variable (agree : EdgeListsAgree s.spec scope.net)
  (mapped : MapsInto scope.map s.spec scope.net)
  (mem : host ∈ (s.spec.decomposition scope.net).nodes)
  (isTask : s.spec.task? host = some content) (sourceStored : source.index < s.spec.nodes.size)
  (stored : ∀ inner, content.decomposesTo = some inner → inner.index < s.spec.decompositions.size)
include agree mapped mem isTask sourceStored stored

theorem ensures_routeError_step : Ensures E (routeError job scope host source event) s fun _ t =>
    ErrorSteps scope.net host source content
      ((job.diagram.successor? event).bind scope.map.find?).toList s.spec t.spec := by
  unfold routeError
  refine ensures_eventTarget_eq.seq ?_
  rintro found t ⟨isFound, spec, same⟩
  rw [← isFound]
  cases found with
  | none => exact .of_eq agree spec
  | some target =>
    obtain rfl := same target rfl
    obtain ⟨_, _, registered⟩ := Option.bind_eq_some_iff.mp isFound.symm
    dsimp only
    rw [ensures_bind, ensures_spec]
    refine ((ensures_linkHandler_handled agree mem (mapped _ _ registered)).and_result
      (routine_linkHandler (R := Unbound) t)).seq ?_
    rintro _ t₁ ⟨handled, linking⟩
    refine (ensures_flagged linking.change isTask (handled.isTask host (isTask ▸ rfl))
      (agree.stored host mem) sourceStored (decomposition_stored mem) stored).mono ?_
    rintro _ u ⟨still, retains, flagged⟩
    refine ⟨?_, (Retains.of_unbound linking.change).trans retains, nofun, fun _ => flagged⟩
    exact handled.trans (still.handled handled.agree (handled.nodes mem))

theorem ensures_routeOther_step : Ensures E (routeOther job scope n host source event) s fun _ t =>
    ErrorSteps scope.net host source content (handler? job scope.map event).toList s.spec
      t.spec := by
  unfold routeOther
  dsimp only
  split
  · rename_i kind
    have handler : handler? job scope.map event =
        (job.diagram.successor? event).bind scope.map.find? := by
      unfold handler?
      rw [kind]
    rw [handler]
    exact ensures_routeError_step agree mapped mem isTask sourceStored stored
  · rename_i other
    have none : handler? job scope.map event = none := by
      unfold handler?
      split
      · exact (other _ ‹_›).elim
      · rfl
    rw [none, ensures_tell]
    exact .of_eq agree rfl

theorem ensures_routeOthers_steps {events : List Diagram.NodeId} :
    Ensures E (events.forM (routeOther job scope n host source)) s fun _ t =>
      ErrorSteps scope.net host source content (events.filterMap (handler? job scope.map)) s.spec
        t.spec := by
  refine ensures_forM_done (fun done (t : State) => ErrorSteps scope.net host source content
    (done.filterMap (handler? job scope.map)) s.spec t.spec) ?_ (.of_eq agree rfl)
  intro done event rest t _ before
  have last : [event].filterMap (handler? job scope.map) =
      (handler? job scope.map event).toList := by
    cases found : handler? job scope.map event <;> simp [found]
  rw [List.filterMap_append, last]
  obtain ⟨current, isTask'⟩ :=
    Option.isSome_iff_exists.mp (before.handled.isTask host (isTask ▸ rfl))
  have same : done.filterMap (handler? job scope.map) = [] → current = content := by
    intro none
    rw [before.idle none, isTask] at isTask'
    exact (Option.some.inj isTask').symm
  refine (ensures_routeOther_step before.handled.agree (mapped.mono before.handled.nodes)
    (before.handled.nodes mem) isTask' ?_ ?_).mono ?_
  · exact Nat.lt_of_lt_of_le sourceStored before.handled.size
  · intro inner runs
    have isRun : t.spec.runs? host = some inner := by
      rw [runs?_eq_bind, isTask']
      exact runs
    refine (before.retains.ran isRun).elim (fun old => ?_) id
    rw [runs?_eq_bind, isTask] at old
    exact Nat.lt_of_lt_of_le (stored inner old) before.retains.decompositions_size
  · intro _ u next
    exact before.trans next same mem (agree.stored host mem) sourceStored

end

/-! ### Hosts -/

/-- What comes behind the edges to handlers: the only edge that the host had, if any, or else an
edge to the new task `source`, which has all edges that the host had and splits as it did. Without a
predicate, this edge is the default edge. -/
inductive FollowedBy (d : DecompositionId) (host : Net.NodeId) (content : Task) (k : Int)
    (s t : Specification) : Net.NodeId → List Net.EdgeId → Prop
  | few (single : (s.node host).outgoing.length ≤ 1)
    (stays : ∀ e ∈ (s.node host).outgoing, t.edge e = { s.edge e with
      ordering := k
      isDefault := (s.edge e).isDefault || (s.edge e).predicate.isEmpty }) :
    FollowedBy d host content k s t host (s.node host).outgoing
  | several {source : Net.NodeId} {link : Net.EdgeId}
    (several : 1 < (s.node host).outgoing.length) (fresh : s.nodes.size ≤ source.index)
    (mem : source ∈ (t.decomposition d).nodes) (isTask : (t.task? source).isSome)
    (splits : t.split source = content.split)
    (isLink : t.edge link = { Edge.plain host source k with isDefault := true })
    (owns : ∀ e, e ∈ (t.node source).outgoing ↔ e ∈ (s.node host).outgoing)
    (moves : ∀ e ∈ (s.node host).outgoing, t.edge e = { s.edge e with source := some source }) :
    FollowedBy d host content k s t source [link]

/-- A host splits exclusively. In their order, its edges lead to the handlers of its errors, the
last one first, all under the same flag, and then to what followed the host. The flag is declared
and taken over from what the host runs. -/
structure ErrorsHandled (d : DecompositionId) (host source : Net.NodeId) (content : Task)
    (targets : List Net.NodeId) (s t : Specification) : Prop where
  agree : EdgeListsAgree t d
  exclusive : t.split host = .xor
  ordered : ∃ guarded last, Edit.byOrdering t (t.node host).outgoing = guarded ++ last ∧
    guarded.map t.edge = numberedFrom 1 (targets.reverse.map fun y =>
      { Edge.plain host y 1 with predicate := (exceptionPredicate (t.decomposition d).id
        (t.node host).id (t.node source).id) }) ∧
    FollowedBy d host content (targets.length + 1) s t source last
  flagged : Flagged d host content (exceptionFlag (t.node host).id (t.node source).id)
    (innerFlag (t.node source).id) (fun inner => flagQuery
      (exceptionFlag (t.node host).id (t.node source).id) (t.decomposition inner).id
      (innerFlag (t.node source).id)) t

section
variable {s t u : Specification}

/-- The host after it came to split exclusively. -/
theorem SplitOff.task? (h : SplitOff d host content s source u) (agree : EdgeListsAgree s d)
    (mem : host ∈ (s.decomposition d).nodes) (isTask : s.task? host = some content) :
    u.task? host = some { content with split := .xor } := by
  cases h with
  | few single => exact task?_modifyTask_self isTask
  | several several taken splits =>
    apply task?_modifyTask_self
    exact (task?_of_bare (taken.bare host (agree.stored host mem))).trans isTask

/-- A new task that took the edges of a host over goes on to have them all when the handlers get
theirs. -/
theorem FollowedBy.of_takesOver {predicate : String} {v : Specification} {link : Net.EdgeId}
    {k : Int} (agree : EdgeListsAgree s d) (mem : host ∈ (s.decomposition d).nodes)
    (several : 1 < (s.node host).outgoing.length) (taken : TakesOver d .source host source link s v)
    (splits : v.task? source = some { split := content.split })
    (handled : Handled d host predicate targets
      (v.modifyTask host fun task => { task with split := .xor }) t)
    (isLink : t.edge link = { Edge.plain host source k with isDefault := true }) :
    FollowedBy d host content k s t source [link] := by
  have other : source ≠ host := (taken.ne (agree.stored host mem)).symm
  have skeleton : (v.modifyTask host fun task => { task with split := .xor }).skeleton =
      v.skeleton := skeleton_modifyTask fun _ => rfl
  refine .several several taken.fresh (handled.nodes taken.mem) ?_ ?_ isLink ?_ ?_
  · apply handled.isTask
    rw [task?_modifyTask, if_neg other, splits]
    rfl
  · have kind := congrArg Node.kind (node_modifyTask_of_ne (s := v)
      (g := fun task => { task with split := .xor }) other)
    have stored := taken.agree.stored source taken.mem
    have same := split_of_task splits
    rw [handled.split source (nodes_size_of_skeleton skeleton ▸ stored), split_of_kind kind, same]
  · intro e
    rw [handled.elsewhere source taken.mem other, outgoing_of_skeleton skeleton]
    exact taken.mem_edgesAt_new agree mem
  · intro e he
    have old := ((agree.listed host mem .source e).mp he).1
    have own : (v.node host).outgoing = [link] := taken.edgesAt_self agree mem
    have notLink : e ∉ ((v.modifyTask host fun task => { task with split := .xor }).node
        host).outgoing := by
      rw [outgoing_of_skeleton skeleton, own, List.mem_singleton]
      rintro rfl
      exact taken.new old
    rw [handled.others e ((taken.edges e).mpr (.inl old)) notLink]
    exact (taken.edge e old).trans (if_pos he)

theorem SplitOff.followedBy {predicate : String} (h : SplitOff d host content s source u)
    (agree : EdgeListsAgree s d) (mem : host ∈ (s.decomposition d).nodes)
    (handled : Handled d host predicate targets u t) (some_target : targets ≠ [])
    (given : predicate ≠ "") : ∃ guarded last,
      Edit.byOrdering t (t.node host).outgoing = guarded ++ last ∧
      guarded.map t.edge =
        numberedFrom 1 (targets.reverse.map fun y => { Edge.plain host y 1 with predicate }) ∧
      FollowedBy d host content (targets.length + 1) s t source last := by
  obtain ⟨guarded, all, front, behind⟩ := handled.ordered some_target given
  have skeleton : ∀ v : Specification, (v.modifyTask host
      fun task => { task with split := .xor }).skeleton = v.skeleton := fun _ =>
    skeleton_modifyTask fun _ => rfl
  cases h with
  | few single =>
    rw [outgoing_of_skeleton (skeleton s), byOrdering_of_length single] at all behind
    refine ⟨guarded, _, all, front, .few single fun e he => ?_⟩
    rw [eq_singleton_of_mem he single] at behind
    have stays : t.edge e = { (s.edge e).flag with ordering := targets.length + 1 } :=
      List.singleton_inj.mp behind
    rw [stays]
    unfold Edge.flag
    split
    · rename_i empty
      rw [empty, Bool.or_true]
    · rename_i given
      rw [Bool.eq_false_iff.mpr given, Bool.or_false]
  | @several source link v several taken splits =>
    have own : (v.node host).outgoing = [link] := taken.edgesAt_self agree mem
    have alone : ∀ w : Specification, Edit.byOrdering w [link] = [link] := fun _ =>
      byOrdering_of_length (Nat.le_refl 1)
    rw [outgoing_of_skeleton (skeleton v), own, alone] at all behind
    have isLink : t.edge link = { (v.edge link).flag with ordering := targets.length + 1 } :=
      List.singleton_inj.mp behind
    rw [taken.link] at isLink
    exact ⟨guarded, _, all, front, .of_takesOver agree mem several taken splits handled isLink⟩

end

theorem SplitOff.agree {s u : Specification} (h : SplitOff d host content s source u)
    (agree : EdgeListsAgree s d) : EdgeListsAgree u d := by
  cases h with
  | few single => exact agree.of_skeleton (skeleton_modifyTask fun _ => rfl)
  | several several taken splits =>
    exact taken.agree.of_skeleton (skeleton_modifyTask fun _ => rfl)

theorem SplitOff.stored {s u : Specification} (h : SplitOff d host content s source u)
    (hostStored : host.index < s.nodes.size) : source.index < u.nodes.size := by
  cases h with
  | few single => rwa [modifyTask, nodes_size_modifyNode]
  | several several taken splits =>
    rw [modifyTask, nodes_size_modifyNode]
    exact taken.agree.stored source taken.mem

/-- The names that the flag and its query are made of stay. -/
theorem ErrorSteps.errorsHandled {s t u : Specification}
    (h : ErrorSteps d host source { content with split := .xor } targets u t)
    (off : SplitOff d host content s source u) (agree : EdgeListsAgree s d)
    (mem : host ∈ (s.decomposition d).nodes) (memOff : host ∈ (u.decomposition d).nodes)
    (isTask : s.task? host = some content) (raised : targets ≠ [])
    (stored : ∀ inner, content.decomposesTo = some inner → inner.index < u.decompositions.size) :
    ErrorsHandled d host source content targets s t := by
  have hostStored := (off.agree agree).stored host memOff
  have sourceStored := off.stored (agree.stored host mem)
  have hostId := h.retains.id hostStored
  have sourceId := h.retains.id sourceStored
  have netId := h.retains.decomposition_id (decomposition_stored memOff)
  have flagged := h.flagged raised
  refine ⟨h.handled.agree, ?_, ?_, ?_, fun inner runs => ?_⟩
  · rw [h.handled.split host hostStored]
    exact split_of_task (off.task? agree mem isTask)
  · rw [hostId, sourceId, netId]
    exact off.followedBy agree mem h.handled raised (exceptionPredicate_ne_empty _ _ _)
  · rw [hostId, sourceId]
    exact flagged.declared
  · rw [hostId, sourceId, h.retains.decomposition_id (stored inner runs)]
    exact flagged.takes inner runs

/-- A host with events, but without timers, comes to split exclusively, and then each event has its
turn. -/
theorem ensures_routeBoundary_untimed {activity : Diagram.Activity} {post : Scope → State → Prop}
    (registered : scope.map.find? n = some host) (isTask : (s.spec.task? host).isSome)
    (isActivity : (job.diagram.node n).kind.activity? = some activity)
    (untimed : ∀ event ∈ activity.attached, isTimer job event = false)
    (occupied : activity.attached ≠ [])
    (routes : Ensures E (do
      let source ← splitExclusively scope.net host
      activity.attached.forM (routeOther job scope n host source)) s fun _ t => post scope t) :
    Ensures E (routeBoundary job scope n) s post := by
  have found : (scope.map.find? n).filter (fun y => !(s.spec.node y).kind.isCondition) =
      some host := by
    rw [registered, Option.filter_some, isTask_iff.mp isTask]
    rfl
  have timers : activity.attached.filter (isTimer job) = [] := by
    rw [List.filter_eq_nil_iff]
    exact fun event listed => Bool.eq_false_iff.mp (untimed event listed)
  have others : activity.attached.filter (not ∘ isTimer job) = activity.attached := by
    rw [List.filter_eq_self]
    intro event listed
    rw [Function.comp, untimed event listed]
    rfl
  unfold routeBoundary
  rw [ensures_bind, ensures_spec]
  dsimp only
  rw [found]
  dsimp only
  rw [ensures_bind]
  apply ensures_requireActivity isActivity
  rw [List.partition_eq_filter_filter, timers, others]
  dsimp only
  rw [List.isEmpty_eq_false_iff.mpr occupied, if_neg Bool.false_ne_true, ensures_bind]
  rw [ensures_bind] at routes
  refine routes.mono fun source t routed => ?_
  rw [ensures_bind]
  exact routed

/-- The errors of a host without timers are routed to their handlers. -/
theorem host_errors_handled {activity : Diagram.Activity}
    (agree : EdgeListsAgree s.spec scope.net) (mapped : MapsInto scope.map s.spec scope.net)
    (registered : scope.map.find? n = some host) (isTask : s.spec.task? host = some content)
    (stored : ∀ inner, content.decomposesTo = some inner →
      inner.index < s.spec.decompositions.size)
    (isActivity : (job.diagram.node n).kind.activity? = some activity)
    (untimed : ∀ event ∈ activity.attached, isTimer job event = false)
    (raised : activity.attached.filterMap (handler? job scope.map) ≠ []) :
    Ensures (fun _ => False) (routeBoundary job scope n) s fun scope' t => scope' = scope ∧
      ∃ source, ErrorsHandled scope.net host source content
        (activity.attached.filterMap (handler? job scope.map)) s.spec t.spec := by
  have mem : host ∈ (s.spec.decomposition scope.net).nodes := mapped n host registered
  have occupied : activity.attached ≠ [] := by
    intro none
    rw [none] at raised
    exact raised rfl
  refine ensures_routeBoundary_untimed registered (isTask ▸ rfl) isActivity untimed occupied ?_
  refine ((ensures_splitOff agree mem isTask).and_result
    (routine_splitExclusively (R := Retains) s)).seq ?_
  rintro source u ⟨off, splitting⟩
  have retains : Retains s.spec u.spec := splitting.change
  have memOff := retains.mem mem
  have storedOff : ∀ inner, content.decomposesTo = some inner →
      inner.index < u.spec.decompositions.size := fun inner runs =>
    Nat.lt_of_lt_of_le (stored inner runs) retains.decompositions_size
  refine (ensures_routeOthers_steps (off.agree agree) (mapped.mono fun _ => retains.mem) memOff
    (off.task? agree mem isTask) (off.stored (agree.stored host mem)) storedOff).mono ?_
  intro _ t steps
  exact ⟨rfl, source, steps.errorsHandled off agree mem memOff isTask raised storedOff⟩

/-- A task that chooses among two others, with what it has when it completes and what it runs. -/
def picking (completed : List Mapping) (runs : Option DecompositionId) : Specification where
  id := "picking"
  decompositions := #[{ id := "net", nodes := [⟨0⟩, ⟨1⟩, ⟨2⟩], edges := [⟨0⟩, ⟨1⟩] },
    { id := "inner" }]
  nodes := #[
    { id := "choice", name := "", kind := .task { split := .or, decomposesTo := runs, completed },
      outgoing := [⟨0⟩, ⟨1⟩] },
    { id := "left", name := "", kind := .task {}, incoming := [⟨0⟩] },
    { id := "right", name := "", kind := .task {}, incoming := [⟨1⟩] }]
  edges := #[{ Edge.plain ⟨0⟩ ⟨1⟩ 1 with predicate := "more" }, .plain ⟨0⟩ ⟨2⟩ 2]

/-- An activity with two errors, and a message between them. -/
def failing : Job where
  diagram := sketch [.task { attached := [⟨1⟩, ⟨2⟩, ⟨3⟩] } {}, .intermediate .error (some ⟨0⟩),
    .intermediate .message (some ⟨0⟩), .intermediate .error (some ⟨0⟩), .task {} {}, .task {} {}]
    [(1, 4), (3, 5)]

/-- Its tasks. -/
def failingScope : Scope where
  net := ⟨0⟩
  map := [(⟨0⟩, ⟨0⟩), (⟨4⟩, ⟨1⟩), (⟨5⟩, ⟨2⟩)]

theorem mapsInto_failing (completed : List Mapping) (runs : Option DecompositionId) :
    MapsInto failingScope.map (picking completed runs) ⟨0⟩ := by
  intro n y found
  have listed := (NodeMap.mem_iff_find? (by decide)).mpr found
  simp only [failingScope, List.mem_cons, Prod.mk.injEq, List.not_mem_nil, or_false] at listed
  show y ∈ [⟨0⟩, ⟨1⟩, ⟨2⟩]
  obtain ⟨_, rfl⟩ | ⟨_, rfl⟩ | ⟨_, rfl⟩ := listed <;> decide

/-- The handler of the second error comes first. -/
theorem host_errors_handled_failing :
    (EdgeListsAgree (picking [] (some ⟨1⟩)) ⟨0⟩ ∧
      MapsInto failingScope.map (picking [] (some ⟨1⟩)) ⟨0⟩ ∧
      failingScope.map.find? ⟨0⟩ = some ⟨0⟩ ∧
      (picking [] (some ⟨1⟩)).task? ⟨0⟩ = some { split := .or, decomposesTo := some ⟨1⟩ } ∧
      (1 : Nat) < (picking [] (some ⟨1⟩)).decompositions.size ∧
      (failing.diagram.node ⟨0⟩).kind.activity? = some { attached := [⟨1⟩, ⟨2⟩, ⟨3⟩] } ∧
      ∀ event ∈ [⟨1⟩, ⟨2⟩, ⟨3⟩], isTimer failing event = false) ∧
    ∃ scope t, (routeBoundary failing failingScope ⟨0⟩).run.run { spec := picking [] (some ⟨1⟩) } =
      (.ok scope, t) ∧ scope = failingScope ∧
        ∃ source, ErrorsHandled ⟨0⟩ ⟨0⟩ source { split := .or, decomposesTo := some ⟨1⟩ } [⟨1⟩, ⟨2⟩]
          (picking [] (some ⟨1⟩)) t.spec := by
  have agree : EdgeListsAgree (picking [] (some ⟨1⟩)) ⟨0⟩ := by decide
  have mapped := mapsInto_failing [] (some ⟨1⟩)
  have isTask : (picking [] (some ⟨1⟩)).task? ⟨0⟩ =
      some { split := .or, decomposesTo := some ⟨1⟩ } := rfl
  have stored : (1 : Nat) < (picking [] (some ⟨1⟩)).decompositions.size := by decide
  have isActivity : (failing.diagram.node ⟨0⟩).kind.activity? =
      some { attached := [⟨1⟩, ⟨2⟩, ⟨3⟩] } := by decide
  have untimed : ∀ event ∈ [⟨1⟩, ⟨2⟩, ⟨3⟩], isTimer failing event = false := by decide
  have targets : [⟨1⟩, ⟨2⟩, ⟨3⟩].filterMap (handler? failing failingScope.map) = [⟨1⟩, ⟨2⟩] := by
    decide
  refine ⟨⟨agree, mapped, by decide, isTask, stored, isActivity, untimed⟩, ?_⟩
  -- the state gets a name, or else its run would be evaluated on the way
  generalize start : ({ spec := picking [] (some ⟨1⟩) } : State) = s
  have spec : picking [] (some ⟨1⟩) = s.spec := by rw [← start]
  rw [spec] at agree mapped isTask stored ⊢
  have routed := @host_errors_handled failing failingScope s ⟨0⟩ ⟨0⟩ _ _ agree mapped (by decide)
    isTask (fun _ runs => Option.some.inj runs ▸ stored) isActivity untimed
    (targets ▸ List.cons_ne_nil _ _)
  rw [targets] at routed
  exact routed.exists_run

/-- Two tasks, with what the first one has when it completes and what it runs. -/
def facing (completed : List Mapping) (runs : Option DecompositionId) : Specification where
  id := "facing"
  decompositions := #[{ id := "Net", nodes := [⟨0⟩, ⟨1⟩] }, { id := "host" }]
  nodes := #[{ id := "host", name := "", kind := .task { decomposesTo := runs, completed } },
    { id := "handler", name := "", kind := .task {} }]

/-- The first task may fail, and the second one is for that. -/
def fragile : Job where
  diagram := sketch [.task { attached := [⟨1⟩] } {}, .intermediate .error (some ⟨0⟩), .task {} {}]
    [(1, 2)]

def fragileScope : Scope where
  net := ⟨0⟩
  map := [(⟨0⟩, ⟨0⟩), (⟨2⟩, ⟨1⟩)]

/-- What the query for the flag gives is kept in another variable. -/
def keptElsewhere : Mapping where
  query := "<host_host_exception>\x7b/host/_host_exception/text()\x7d</host_host_exception>"
  target := { name := "other", type := "string" }

/-- The error of the first task is routed in a net, but this task does not take the flag over. -/
def LeavesFlag (spec : Specification) : Prop :=
  EdgeListsAgree spec ⟨0⟩ ∧ (∀ n ∈ (spec.decomposition ⟨0⟩).nodes, spec.OrderedApart n) ∧
  ∃ scope t, (routeBoundary fragile fragileScope ⟨0⟩).run.run { spec } = (.ok scope, t) ∧
    ¬∃ m ∈ t.spec.completed ⟨0⟩, sameName m.target.name (exceptionFlag "host" "host") = true

theorem LeavesFlag.of_check {spec : Specification} (agree : EdgeListsAgree spec ⟨0⟩)
    (few : ∀ n ∈ (spec.decomposition ⟨0⟩).nodes, (spec.node n).outgoing.length ≤ 1)
    (checked : ∃ scope t, (routeBoundary fragile fragileScope ⟨0⟩).run.run { spec } =
        (.ok scope, t) ∧ decide (¬∃ m ∈ t.spec.completed ⟨0⟩,
      sameName m.target.name (exceptionFlag "host" "host") = true) = true) : LeavesFlag spec := by
  obtain ⟨scope, t, run, none⟩ := checked
  exact ⟨agree, fun n hn => orderedApart_of_le_one (few n hn), scope, t, run,
    of_decide_eq_true none⟩

/-- A host whose query for the flag is in use takes no flag over, and neither does one that runs
nothing. -/
theorem flag_not_taken_over :
    [⟨1⟩].filterMap (handler? fragile fragileScope.map) = [⟨1⟩] ∧
    LeavesFlag (facing [keptElsewhere] (some ⟨1⟩)) ∧ LeavesFlag (facing [] none) := by
  refine ⟨by decide, .of_check (by decide) (by decide) ?_, .of_check (by decide) (by decide) ?_⟩
  · exact exists_run_of_check (fun _ t => _) (by decide +kernel)
  · exact exists_run_of_check (fun _ t => _) (by decide +kernel)

end Compile

end ProcessNets
