import ProcessNets.Proofs.Compile.ErrorMarks
import ProcessNets.Proofs.Compile.Layouts
import ProcessNets.Proofs.Compile.Rewiring

/-!
# Handlers of boundary events

The events of an activity other than timers. Its task splits exclusively from then on, and each
error event adds a first edge to the handler of the error, with a flag as its predicate. The task
copies this flag out of the net that it runs, where the error task sets it. No walk is lost, and
nothing fails in a well-laid net.
-/

namespace ProcessNets.Compile

open Net Specification

variable {E : Fault → Prop} {job : Job} {scope : Scope} {s t u : State}
  {spec spec' : Specification} {d inner : DecompositionId} {n m event : Diagram.NodeId}
  {host source target x y z : Net.NodeId} {allowed : Action → Prop} {old : Net.NodeId → Prop}
  {name query : String} {v : Variable}

/-! ### Events -/

/-- Whether an event is listed at the boundary of an activity. -/
def Attached (job : Job) (n event : Diagram.NodeId) : Prop :=
  ∃ activity, (job.diagram.node n).kind.activity? = some activity ∧ event ∈ activity.attached

def IsError (job : Job) (event : Diagram.NodeId) : Prop :=
  ∃ host, (job.diagram.node event).kind = .intermediate .error host

theorem IsError.not_timer (h : IsError job event) : isTimer job event = false := by
  obtain ⟨_, kind⟩ := h
  unfold isTimer
  rw [kind]
  rfl

/-- Errors and timers are routed to what they lead to, and other events are not. -/
def HasRoute (job : Job) (event : Diagram.NodeId) : Prop :=
  IsError job event ∨ isTimer job event = true

/-- The event leads to a counterpart. -/
def LeadsTo (job : Job) (map : NodeMap) (event : Diagram.NodeId) (y : Net.NodeId) : Prop :=
  ∃ n, job.diagram.successor? event = some n ∧ map.find? n = some y

/-! ### Splits and handlers -/

section
variable (wf : s.spec.WellFormed) (mem : host ∈ (s.spec.decomposition d).nodes)
include wf mem

/-- The host splits exclusively, and has no more than one outgoing edge. -/
theorem ensures_splitExclusively (isTask : (s.spec.task? host).isSome)
    (behind : ∀ k, allowed (.behind host k)) (exclusive : allowed (.exclusive host)) :
    Ensures E (splitExclusively d host) s fun _ t => Rewired d allowed s t ∧
      t.spec.split? host = some .xor ∧ (t.spec.outgoing host).length ≤ 1 := by
  obtain ⟨task, found⟩ := Option.isSome_iff_exists.mp isTask
  -- whichever way the host comes to one edge at most, it is made exclusive last
  have finish : ∀ (source : Net.NodeId) t, Rewired d allowed s t →
      (t.spec.outgoing host).length ≤ 1 → Ensures E (do
        edit (.updateTask host fun t => { t with split := .xor })
        return source) t fun _ u => Rewired d allowed s u ∧
          u.spec.split? host = some .xor ∧ (u.spec.outgoing host).length ≤ 1 := by
    intro source t rewired single
    have task' := rewired.steps.isTask isTask
    refine (ensures_updateTask task' (rewired.mem mem) ?_ ?_).seq ?_
    · exact fun _ => rfl
    · exact fun _ => List.Subset.refl _
    rintro _ u ⟨spec, tuned⟩
    refine ⟨rewired.trans (.of_change tuned (by rw [spec]; rfl) (fun wft => ?_) exclusive), ?_, ?_⟩
    · rw [spec]
      exact .exclusive_of_modifyTask wft task' (fun _ => rfl) (fun _ => rfl) fun _ => rfl
    · obtain ⟨_, found'⟩ := Option.isSome_iff_exists.mp task'
      unfold split?
      rw [spec, task?_modifyTask_self found']
      rfl
    · rw [spec, outgoing_modifyTask]
      exact single
  unfold splitExclusively
  rw [ensures_bind, ensures_spec]
  dsimp only
  rw [ensures_bind]
  apply ensures_edit
  apply Edit.ensures_requireTask found
  split
  · rw [ensures_bind, ensures_generateId]
    refine ensures_splice .source (Edit.moveOutgoing d host) wf mem ?_ ?_
    · exact fun m t wft ht hm _ => ensures_moveEnds .source wft ht hm
    · intro m t spliced _
      have single : (t.spec.outgoing host).length ≤ 1 := by
        cases spliced.change with
        | behind _ _ _ _ _ _ joined => exact Nat.le_of_eq joined.length_eq
      rw [ensures_bind, ensures_spec]
      refine ensures_quiet_tell.seq fun _ u quiet => ?_
      rw [ensures_bind, ensures_pure]
      refine finish m u ((Rewired.of_spliced spliced (behind m)).quiet quiet) ?_
      rw [(SameRouting.of_dataOnly quiet.spec).outgoing quiet.skeleton]
      exact single
  · rename_i few
    rw [ensures_bind, ensures_pure]
    refine finish host s (.refl s) ?_
    unfold outgoing
    rw [List.length_map]
    exact Nat.le_of_not_lt few

/-- Edges with predicates stay in front of the edge that was there before. -/
theorem ensures_linkHandler {predicate : String}
    (memTarget : target ∈ (s.spec.decomposition d).nodes) (guarded : Guarded (s.spec.outgoing host))
    (given : predicate ≠ "") (first : allowed (.first host target)) :
    Ensures E (linkHandler d host target predicate) s fun _ t =>
      (Rewired d allowed s t ∧ Guarded (t.spec.outgoing host)) ∧
        LeadsBy (· ∈ (s.spec.decomposition d).nodes) d predicate host target t.spec := by
  have perm : ((Edit.byOrdering s.spec (s.spec.node host).outgoing).map s.spec.edge).Perm
      (s.spec.outgoing host) := Edit.byOrdering_perm.map s.spec.edge
  unfold linkHandler
  rw [ensures_bind, ensures_spec]
  dsimp only
  refine (ensures_linkFirst wf mem memTarget).seq ?_
  rintro _ t ⟨linked, v, relabeled, spec⟩
  have wft : t.spec.WellFormed := linked.steps.wellFormed wf
  have listed : ∀ e ∈ (s.spec.node host).outgoing, e ∈ (t.spec.decomposition d).edges := by
    intro e he
    have old := ((mem_outgoing_iff wf mem).mp he).1
    rw [← edges_of_skeleton relabeled.skeleton] at old
    rw [spec, decomposition_addEdge]
    split
    · exact List.mem_append_left _ old
    · exact old
  refine ensures_edit ((Edit.ensures_modifyEdges ?_ ((wf.agree d).once host mem .source)
    fun e he => wft.edge_index_lt (listed e he)).mono fun _ w flags => ?_)
  · intro edge
    split <;> rfl
  · rw [spec] at flags
    have guards := guarded.dropLast perm Edit.byOrdering_sorted
    have change := Change.of_flagged _ wf mem memTarget relabeled flags guards
    obtain ⟨_, _, joined⟩ := relabeled.outgoing_flagged _ wf mem memTarget flags
    have leads : LeadsBy (· ∈ (s.spec.decomposition d).nodes) d predicate host target t.spec := by
      rw [spec]
      refine .addEdge ?_ rfl rfl
      rw [decompositions_size_of_skeleton relabeled.skeleton]
      exact decomposition_stored mem
    rw [← spec] at flags
    have tuned : Tuned (· = d) t { t with spec := w } := ⟨flags.dataOnly listed, rfl, rfl, rfl⟩
    have edges : EdgesKept d s.spec t.spec := by
      rw [spec]
      exact .of_first wf _ relabeled
    have flagged : EdgesKept d t.spec w := .of_relabeled flags predicate_flag
    refine ⟨⟨?_, (guarded.behindFirst perm Edit.byOrdering_sorted rfl given).perm joined⟩, ?_⟩
    · exact .of_linked (linked.tuned tuned)
        (edges.trans flagged linked.steps.grows tuned.spec.grows) change first
    · exact leads.kept flagged tuned.spec.grows fun m => linked.steps.grows.mem_nodes

end

/-! ### Flags -/

/-- A flag is copied out of the decomposition that the task of an activity runs. -/
structure CopiesFlag (inner : DecompositionId) (host : Net.NodeId) (source : String)
    (spec : Specification) : Prop where
  stored : inner.index < spec.decompositions.size
  copies : hasQuery (spec.completed host) (flagQuery (exceptionFlag (spec.node host).id source)
    (spec.decomposition inner).id (innerFlag source)) = true

/-- The task `z` sets the flag that is copied. -/
structure FlagPassed (inner : DecompositionId) (host z : Net.NodeId) (source : String)
    (spec : Specification) : Prop extends CopiesFlag inner host source spec where
  sets : hasQuery (spec.completed z) (constantQuery (innerFlag source) "true") = true

theorem stored_of_hasQuery (has : hasQuery (spec.completed y) query = true) :
    y.index < spec.nodes.size := by
  refine Nat.lt_of_not_le fun beyond => ?_
  unfold completed at has
  rw [node_eq_blank beyond] at has
  cases has

theorem CopiesFlag.grow (h : CopiesFlag inner host name spec) (grows : spec.Extends spec') :
    CopiesFlag inner host name spec' where
  stored := Nat.lt_of_lt_of_le h.stored grows.decompositions_size
  copies := by
    rw [grows.id (stored_of_hasQuery h.copies), grows.decomposition_id h.stored]
    exact hasQuery_mono (grows.completed host) h.copies

theorem FlagPassed.grow (h : FlagPassed inner host z name spec) (grows : spec.Extends spec') :
    FlagPassed inner host z name spec' where
  toCopiesFlag := h.toCopiesFlag.grow grows
  sets := hasQuery_mono (grows.completed z) h.sets

theorem ensures_addCompleted_has (isTask : (s.spec.task? y).isSome) :
    Ensures E (edit (.addCompleted y query v)) s fun _ t =>
      Quiet s t ∧ hasQuery (t.spec.completed y) query = true := by
  refine (ensures_quiet_edit (Edit.ensures_addCompleted isTask query v)).and ?_
  obtain ⟨task, found⟩ := Option.isSome_iff_exists.mp isTask
  apply ensures_edit
  apply Edit.ensures_addCompleted_of_task found
  rw [(mappings_of_task (task?_modifyTask_self found)).2]
  exact hasQuery_addMapping

/-- Handing a flag over only changes data, and gives a task its decomposition. -/
theorem ensures_bindInnerFlag {eventId targetId : String} {flag : Variable}
    (wf : s.spec.WellFormed) (isTask : (s.spec.task? host).isSome) :
    Ensures E (bindInnerFlag host source eventId targetId flag inner) s fun _ t => Still s t ∧
      ∀ z, errorTask? s.spec inner = some z →
        FlagPassed inner host z (s.spec.node source).id t.spec := by
  unfold bindInnerFlag
  rw [ensures_bind, ensures_spec]
  dsimp only
  refine (ensures_addCompleted_has isTask).seq ?_
  rintro _ t₁ ⟨q₁, copied⟩
  refine ensures_ensureFlag.seq fun inside t₂ q₂ => ?_
  refine (ensures_quiet_edit (Edit.ensures_declareVariable _ _)).seq fun _ t₃ q₃ => ?_
  have quiet : Quiet s t₃ := q₁.trans (q₂.trans q₃)
  rw [ensures_bind, ensures_spec]
  split
  · rename_i missing
    refine ensures_quiet_tell.mono fun _ u q₄ => ⟨(quiet.trans q₄).still, fun z found => ?_⟩
    rw [Extends.errorTask? wf quiet.spec.grows found] at missing
    cases missing
  · rename_i task found
    have isTask' : (t₃.spec.task? task).isSome := (errorTask?_some found).2.1
    refine (ensures_addCompleted_has isTask').seq ?_
    rintro _ t₄ ⟨q₄, set⟩
    refine (ensures_ensureDecomposition (q₄.isTask isTask')).seq fun _ t₅ still => ?_
    refine ensures_quiet_tell.mono fun _ u q₆ => ?_
    have later : Still t₄ u := still.trans q₆.still
    refine ⟨(quiet.trans q₄).still.trans later, fun z raises => ?_⟩
    cases found.symm.trans (Extends.errorTask? wf quiet.spec.grows raises)
    have stored : inner.index < s.spec.decompositions.size :=
      decomposition_stored (errorTask?_some raises).1
    have first : CopiesFlag inner host (s.spec.node source).id t₁.spec := by
      refine ⟨?_, ?_⟩
      · rw [decompositions_size_of_skeleton q₁.skeleton]
        exact stored
      · rw [id_of_skeleton q₁.skeleton, q₁.spec.grows.decomposition_id stored]
        exact copied
    have copies := first.grow ((q₂.trans q₃).trans q₄).spec.grows
    exact FlagPassed.grow ⟨copies, set⟩ later.steps.grows

/-! ### Raised errors -/

/-- The name is the id of the task of an activity, or of one that leads on after it. -/
def NamesSource (name : String) : Prop :=
  ∃ count, name = nodeId "task" count ∨ name = nodeId "gw" count

/-- The node is the task of an activity, or one that leads on after it. -/
def IsSource (spec : Specification) (y : Net.NodeId) : Prop :=
  Titled "task" spec y ∨ Titled "gw" spec y

theorem IsSource.stored (h : IsSource spec y) : y.index < spec.nodes.size :=
  h.elim Titled.stored Titled.stored

theorem IsSource.names (h : IsSource spec y) : NamesSource (spec.node y).id := by
  rcases h with ⟨_, count, id⟩ | ⟨_, count, id⟩
  · exact ⟨count, .inl id⟩
  · exact ⟨count, .inr id⟩

theorem IsSource.grow (h : IsSource spec y) (grows : spec.Extends spec') : IsSource spec' y :=
  h.imp (Titled.grow · grows) (Titled.grow · grows)

/-- The task of an activity leads to a handler by an edge whose predicate reads a flag. The flag is
copied out of the decomposition that the task runs, and the task `z` sets it there. -/
structure Raised (old : Net.NodeId → Prop) (d inner : DecompositionId) (host target z : Net.NodeId)
    (source : String) (spec : Specification) : Prop
    extends FlagPassed inner host z source spec where
  names : NamesSource source
  leads : LeadsBy old d (exceptionPredicate (spec.decomposition d).id (spec.node host).id source)
    host target spec

/-- Nothing of this gets lost if no edge of the net does. -/
theorem Raised.kept (h : Raised old d inner host target z name spec) (kept : EdgesKept d spec spec')
    (grows : spec.Extends spec') (older : ∀ m, old m → m ∈ (spec.decomposition d).nodes) :
    Raised old d inner host target z name spec' where
  toFlagPassed := h.toFlagPassed.grow grows
  names := h.names
  leads := by
    obtain ⟨e, mem, _⟩ := h.leads
    rw [grows.id (stored_of_hasQuery h.copies), grows.decomposition_id (decomposition_stored_of_edge mem)]
    exact h.leads.kept kept grows older

theorem Raised.mono {old' : Net.NodeId → Prop} (h : Raised old d inner host target z name spec)
    (less : ∀ m, old' m → old m) : Raised old' d inner host target z name spec :=
  ⟨h.toFlagPassed, h.names, h.leads.mono less⟩

/-- What routing an error event establishes, if the task of the activity runs a net with an error
task. -/
def ErrorRouted (job : Job) (scope : Scope) (host source : Net.NodeId) (event : Diagram.NodeId)
    (s t : State) : Prop :=
  ∀ y inner z, IsSource s.spec source → LeadsTo job scope.map event y →
    s.spec.runs? host = some inner → errorTask? s.spec inner = some z →
    Raised (· ∈ (s.spec.decomposition scope.net).nodes) scope.net inner host y z
      (s.spec.node source).id t.spec

theorem ErrorRouted.before (h : ErrorRouted job scope host source event t u)
    (wf : s.spec.WellFormed) (grows : s.spec.Extends t.spec) :
    ErrorRouted job scope host source event s u := by
  intro y inner z isSource leads runs raises
  have raised := h y inner z (isSource.grow grows) leads (grows.runs runs)
    (Extends.errorTask? wf grows raises)
  rw [grows.id isSource.stored] at raised
  exact raised.mono fun _ => grows.mem_nodes

theorem ErrorRouted.after (h : ErrorRouted job scope host source event s t)
    (grows : s.spec.Extends t.spec) (rewired : Rewired scope.net allowed t u) :
    ErrorRouted job scope host source event s u :=
  fun y inner z isSource leads runs raises =>
    (h y inner z isSource leads runs raises).kept rewired.edges rewired.steps.grows
      fun _ => grows.mem_nodes

/-! ### Error events -/

/-- What an event leads to is a counterpart. -/
theorem ensures_eventTarget :
    Ensures E (eventTarget job scope event) s fun found t =>
      Quiet s t ∧ (∀ y, found = some y → t = s) ∧
        ∀ y, found = some y ↔ LeadsTo job scope.map event y := by
  have reads : ∀ y, (job.diagram.successor? event).bind scope.map.find? = some y ↔
      LeadsTo job scope.map event y := fun y => Option.bind_eq_some_iff
  unfold eventTarget
  dsimp only
  split
  · rename_i none
    refine ensures_quiet_tell.seq fun _ t quiet => ⟨quiet, fun y found => ?_, reads⟩
    rw [found] at none
    cases none
  · exact ⟨.refl s, fun _ _ => rfl, reads⟩

theorem exceptionPredicate_ne_empty (netId hostId sourceId : String) :
    exceptionPredicate netId hostId sourceId ≠ "" := by
  unfold exceptionPredicate
  simp

section
variable (wf : s.spec.WellFormed) (mapped : Mapped job s.spec scope)
  (mem : host ∈ (s.spec.decomposition scope.net).nodes) (isTask : (s.spec.task? host).isSome)
  (guarded : Guarded (s.spec.outgoing host))
include wf mapped mem isTask guarded

theorem ensures_routeError
    (first : ∀ y, LeadsTo job scope.map event y → allowed (.first host y)) :
    Ensures E (routeError job scope host source event) s fun _ t =>
      (Rewired scope.net allowed s t ∧ Guarded (t.spec.outgoing host)) ∧
        ErrorRouted job scope host source event s t := by
  unfold routeError
  refine ensures_eventTarget.seq ?_
  rintro found t ⟨quiet, same, leads⟩
  cases found with
  | none =>
    refine ⟨⟨.of_quiet quiet, ?_⟩, fun y _ _ _ isLed => nomatch (leads y).mpr isLed⟩
    rw [(SameRouting.of_dataOnly quiet.spec).outgoing quiet.skeleton]
    exact guarded
  | some target =>
    obtain rfl := same target rfl
    have isLed := (leads target).mp rfl
    have ⟨_, _, registered⟩ := isLed
    dsimp only
    rw [ensures_bind, ensures_spec]
    refine (ensures_linkHandler wf mem (mapped.mem registered) guarded
      (exceptionPredicate_ne_empty _ _ _) (first target isLed)).seq ?_
    rintro _ t₁ ⟨⟨linked, guarded₁⟩, handled⟩
    have wf₁ := linked.steps.wellFormed wf
    have stored := wf₁.node_stored (linked.mem mem)
    -- what follows the edge to the handler only changes data
    have done : ∀ u, Still t₁ u →
        Rewired scope.net allowed t u ∧ Guarded (u.spec.outgoing host) := by
      intro u still
      refine ⟨linked.trans (.of_still wf₁ still), ?_⟩
      rw [still.steady.outgoing_records stored]
      exact guarded₁
    refine ensures_ensureFlag.seq fun flag t₂ flagged => ?_
    have grows := linked.steps.grows.trans flagged.spec.grows
    split
    · rename_i idle
      refine ⟨done t₂ flagged.still, fun y inner z _ _ runs => ?_⟩
      rw [runs?_eq_bind] at runs
      cases idle.symm.trans runs
    · rename_i inner runs
      refine (ensures_bindInnerFlag (wf₁.of_skeleton flagged.skeleton)
        (flagged.isTask (linked.steps.isTask isTask))).mono ?_
      rintro _ u ⟨still, passes⟩
      have later : Still t₁ u := flagged.still.trans still
      refine ⟨done u later, fun y inner' z isSource leads' runs' raises => ?_⟩
      rw [runs?_eq_bind] at runs'
      cases runs.symm.trans runs'
      cases (leads y).mpr leads'
      have passed := passes z (Extends.errorTask? wf grows raises)
      rw [grows.id isSource.stored] at passed
      have grows' := linked.steps.grows.trans later.steps.grows
      refine ⟨passed, isSource.names, ?_⟩
      rw [grows'.id (wf.node_stored mem), grows'.decomposition_id (decomposition_stored mem)]
      have stays : Rewired scope.net allowed t₁ u := .of_still wf₁ later
      exact handled.kept stays.edges later.steps.grows fun _ => linked.mem

theorem ensures_routeOther
    (first : IsError job event → ∀ y, LeadsTo job scope.map event y → allowed (.first host y)) :
    Ensures E (routeOther job scope n host source event) s fun _ t =>
      (Rewired scope.net allowed s t ∧ Guarded (t.spec.outgoing host)) ∧
        (IsError job event → ErrorRouted job scope host source event s t) := by
  unfold routeOther
  dsimp only
  split
  · rename_i kind
    refine (ensures_routeError wf mapped mem isTask guarded (first ⟨_, kind⟩)).mono ?_
    exact fun _ t => And.imp_right fun routed _ => routed
  · rename_i other
    refine ensures_quiet_tell.mono fun _ t quiet => ⟨⟨.of_quiet quiet, ?_⟩, ?_⟩
    · rw [(SameRouting.of_dataOnly quiet.spec).outgoing quiet.skeleton]
      exact guarded
    · rintro ⟨boundary, kind⟩
      exact (other boundary kind).elim

end

end ProcessNets.Compile
