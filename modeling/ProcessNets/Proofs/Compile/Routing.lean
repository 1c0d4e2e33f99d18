import ProcessNets.Proofs.Compile.Starting

/-!
# Routed boundary events

The events of one activity after the other. `HostRouted` says what the events of one activity do to
the net, and `HostsRouted` that the activities had their turns in the given order.
-/

namespace ProcessNets.Compile

open Net Specification

variable {E : Fault → Prop} {job : Job} {scope scope' scope'' : Scope} {s t u : State}
  {base : Specification} {n m event : Diagram.NodeId} {host x y : Net.NodeId}
  {hosts earlier later : List Diagram.NodeId}

/-! ### One activity -/

/-- A timer is attached to the activity. -/
def HasTimer (job : Job) (n : Diagram.NodeId) : Prop :=
  ∃ event, Attached job n event ∧ isTimer job event = true

/-- An event other than a timer is attached to the activity. -/
def HasOther (job : Job) (n : Diagram.NodeId) : Prop :=
  ∃ event, Attached job n event ∧ isTimer job event = false

/-- The timers that are attached to an activity, in their order. -/
def timersOf (job : Job) (n : Diagram.NodeId) : List Diagram.NodeId :=
  match (job.diagram.node n).kind.activity? with
  | some activity => activity.attached.filter (isTimer job)
  | none => []

theorem mem_timersOf :
    event ∈ timersOf job n ↔ Attached job n event ∧ isTimer job event = true := by
  unfold timersOf Attached
  split
  · rename_i activity isActivity
    rw [isActivity]
    simp
  · rename_i plain
    rw [plain]
    simp

/-- An error of the activity with the task `x` is handled by `y`. -/
def Handles (job : Job) (map : NodeMap) (n : Diagram.NodeId) (x y : Net.NodeId) : Prop :=
  map.find? n = some x ∧ ∃ event, Attached job n event ∧ IsError job event ∧ LeadsTo job map event y

/-- What the events of an activity may do: new edges leave its task, or lead to where the events
lead. -/
abbrev HostActs (job : Job) (n : Diagram.NodeId) (scope : Scope) (base : Specification)
    (forked : Net.NodeId → Prop) : Action → Prop :=
  Routes (· ∈ (base.decomposition scope.net).nodes) (fun x => scope.map.find? n = some x)
    (fun y => ∃ event, Attached job n event ∧ HasRoute job event ∧ LeadsTo job scope.map event y)
    (Handles job scope.map n) forked

/-- The node starts a new timer, and there is a timer to start. -/
def StartsTimer (job : Job) (n : Diagram.NodeId) (scope : Scope) (s t : Specification)
    (x : Net.NodeId) : Prop :=
  HasTimer job n ∧ Forks scope.net s t x

/-- What routing the timers of an activity establishes, in a net that was `base` at first. -/
structure TimersRouted (job : Job) (n : Diagram.NodeId) (scope scope' : Scope)
    (base : Specification) (s t : State) : Prop where
  routed : Routed job (HostActs job n scope base (StartsTimer job n scope base t.spec))
    (fun event => isTimer job event = true ∧ Attached job n event) scope scope' s t
  /-- Each timer has a new task. What leads to the task of the activity leads to the tasks of its
  timers, and they all cancel each other. -/
  attended : ∀ x, scope.map.find? n = some x → ∃ pairs, pairs.map (·.1) = timersOf job n ∧
    TimersPlaced scope.net scope'.map base t.spec pairs ∧
    (∀ z, Joins t.spec scope.net z x → ∀ p ∈ pairs, Joins t.spec scope.net z p.2) ∧
    Adds (Mutual x (pairs.map (·.2))) s.spec t.spec

/-- What leads to the task of the activity leads to the counterparts of its timers. -/
theorem TimersRouted.timers (h : TimersRouted job n scope scope' base s t) (x : Net.NodeId)
    (event : Diagram.NodeId) (found : scope.map.find? n = some x)
    (attached : Attached job n event) (timed : isTimer job event = true) :
    ∃ y, scope'.map.find? event = some y ∧ y ∉ (base.decomposition scope.net).nodes ∧
      ∀ z, Joins t.spec scope.net z x → Joins t.spec scope.net z y := by
  obtain ⟨pairs, all, placed, joined, _⟩ := h.attended x found
  have listed : event ∈ pairs.map (·.1) := all ▸ mem_timersOf.mpr ⟨attached, timed⟩
  obtain ⟨p, hp, rfl⟩ := List.mem_map.mp listed
  obtain ⟨y, hy, registered⟩ := placed.registered p hp
  exact ⟨y, registered, (placed.tasks _ hy).new, fun z step => joined z step _ hy⟩

/-- Before the timers have their turn, no cancellation set changes. -/
theorem TimersRouted.after (h : TimersRouted job n scope scope' base t u)
    (rewired : Rewired scope.net
      (HostActs job n scope base (StartsTimer job n scope base u.spec)) s t)
    (mapped : Mapped job s.spec scope) (routine : Routine (Minor fun _ _ => False) s t) :
    TimersRouted job n scope scope' base s u where
  routed := ((Routed.refl mapped).rewire rewired).trans h.routed
  attended x found := by
    obtain ⟨pairs, all, placed, joined, adds⟩ := h.attended x found
    exact ⟨pairs, all, placed, joined, adds.after_minor routine.change⟩

/-- Each error event of the activity is raised by the error task of the net that the task of the
activity runs. -/
def ErrorsRouted (job : Job) (n : Diagram.NodeId) (scope : Scope) (s t : State) : Prop :=
  ∀ event x y inner z, Attached job n event → IsError job event → scope.map.find? n = some x →
    Titled "task" s.spec x → LeadsTo job scope.map event y → s.spec.runs? x = some inner →
    errorTask? s.spec inner = some z → ∃ source,
      Raised (· ∈ (s.spec.decomposition scope.net).nodes) scope.net inner x y z source t.spec

/-- What routing the events of an activity establishes. -/
structure HostRouted (job : Job) (n : Diagram.NodeId) (scope scope' : Scope) (s t : State) : Prop
    extends TimersRouted job n scope scope' s.spec s t where
  /-- With events other than timers, the task of the activity splits exclusively at some time. -/
  exclusive : HasOther job n → ∀ x, scope.map.find? n = some x → ∃ u,
    Rewired scope.net (HostActs job n scope s.spec (StartsTimer job n scope s.spec t.spec)) s u ∧
      u.spec.split? x = some .xor ∧
      Rewired scope.net (HostActs job n scope s.spec (StartsTimer job n scope s.spec t.spec)) u t
  raises : ErrorsRouted job n scope s t

theorem HostActs.mono {forked forked' : Net.NodeId → Prop} (more : ∀ z, forked z → forked' z)
    (act : Action) (h : HostActs job n scope base forked act) :
    HostActs job n scope base forked' act :=
  Routes.fork h more

theorem Forks.since {d : DecompositionId} {spec spec' : Specification} (h : Forks d spec spec' x)
    (old : ∀ z ∈ (base.decomposition d).nodes, z ∈ (spec.decomposition d).nodes) :
    Forks d base spec' x := by
  obtain ⟨y, new, joined, runs⟩ := h
  exact ⟨y, fun isOld => new (old y isOld), joined, runs⟩

theorem Mapped.isHostTask (mapped : Mapped job s.spec scope) (isHost : IsHost job n)
    (found : scope.map.find? n = some x) : (s.spec.task? x).isSome := by
  obtain ⟨activity, isActivity, _⟩ := isHost
  exact (Stands.of_activity isActivity).mp (mapped.stands found)

theorem attached_iff {activity : Diagram.Activity}
    (isActivity : (job.diagram.node n).kind.activity? = some activity) :
    Attached job n event ↔ event ∈ activity.attached := by
  unfold Attached
  rw [isActivity]
  simp

section
variable {activity : Diagram.Activity}
  (isActivity : (job.diagram.node n).kind.activity? = some activity)
  (registered : scope.map.find? n = some host) (wf : s.spec.WellFormed)
  (mapped : Mapped job s.spec scope) (isTask : (s.spec.task? host).isSome)
include isActivity registered wf mapped isTask

/-- The timers among the events have their turn, if there are any. -/
theorem ensures_routeAttachedTimers
    (old : ∀ z ∈ (base.decomposition scope.net).nodes, z ∈ (s.spec.decomposition scope.net).nodes) :
    Ensures E (if (activity.attached.filter (isTimer job)).isEmpty = true then pure scope
        else routeTimers job scope host (activity.attached.filter (isTimer job))) s
      fun scope' t => TimersRouted job n scope scope' base s t := by
  have timers : activity.attached.filter (isTimer job) = timersOf job n := by
    unfold timersOf
    rw [isActivity]
  rw [timers]
  split
  · rename_i none
    rw [List.isEmpty_iff] at none
    refine ⟨.refl mapped, fun x found => ⟨[], none ▸ rfl, ⟨?_, List.nodup_nil, ?_⟩, ?_, .refl ?_⟩⟩
    · simp
    · simp
    · simp
    · simp [Mutual]
  · rename_i occupied
    rw [List.isEmpty_iff] at occupied
    obtain ⟨timer, isTimed⟩ := List.exists_mem_of_ne_nil _ occupied
    have routing : Ensures E (routeTimers job scope host (timersOf job n)) s fun scope' t =>
        ∃ pairs, pairs.map (·.1) = timersOf job n ∧ TimersStarted job
          (HostActs job n scope s.spec (Forks scope.net s.spec t.spec)) host pairs scope scope' s t := by
      apply ensures_routeTimers wf mapped (mapped.mem registered) isTask registered occupied
      · exact fun event member => (mem_timersOf.mp member).2
      · intro event member z leads
        obtain ⟨isAttached, isTimed⟩ := mem_timersOf.mp member
        exact ⟨event, isAttached, .inr isTimed, leads⟩
    refine routing.mono ?_
    rintro scope' t ⟨pairs, all, ⟨routed, placed, adds⟩, joined⟩
    rw [all] at routed
    refine ⟨routed.mono (fun act routes => ?_) fun event member => (mem_timersOf.mp member).symm,
      fun x found => ?_⟩
    · refine Routes.mono routes old (fun _ h => h) (fun _ h => h) (fun _ _ h => h) fun z forks => ?_
      exact ⟨⟨timer, mem_timersOf.mp isTimed⟩, forks.since old⟩
    · cases registered.symm.trans found
      exact ⟨pairs, all, placed.before old, joined, adds⟩

theorem ensures_routeOthers {source : Net.NodeId} {events : List Diagram.NodeId}
    (guarded : Guarded (s.spec.outgoing host)) (sub : ∀ event ∈ events, event ∈ activity.attached) :
    Ensures E (events.forM (routeOther job scope n host source)) s fun _ t =>
      Rewired scope.net (HostActs job n scope base fun _ => False) s t ∧
        ∀ event ∈ events, IsError job event → ErrorRouted job scope host source event s t := by
  have mem := mapped.mem registered
  refine (ensures_forM_done (fun done t =>
    (Rewired scope.net (HostActs job n scope base fun _ => False) s t ∧
      Guarded (t.spec.outgoing host)) ∧
    ∀ event ∈ done, IsError job event → ErrorRouted job scope host source event s t) ?_
    ⟨⟨.refl s, guarded⟩, by simp⟩).mono fun _ _ h => ⟨h.1.1, h.2⟩
  rintro done event rest t all ⟨⟨rewired, guarded⟩, routed⟩
  have isAttached := (attached_iff isActivity).mpr (sub event (all ▸ by simp))
  have routing : Ensures E (routeOther job scope n host source event) t fun _ u =>
      (Rewired scope.net (HostActs job n scope base fun _ => False) t u ∧
        Guarded (u.spec.outgoing host)) ∧
      (IsError job event → ErrorRouted job scope host source event t u) := by
    apply ensures_routeOther (rewired.steps.wellFormed wf) (mapped.steps rewired.steps)
      (rewired.mem mem) (rewired.steps.isTask isTask) guarded
    exact fun isError y leads => .of_first registered ⟨event, isAttached, .inl isError, leads⟩
      ⟨registered, event, isAttached, isError, leads⟩
  refine routing.mono ?_
  rintro _ u ⟨⟨next, guarded⟩, last⟩
  refine ⟨⟨rewired.trans next, guarded⟩, fun k hk isError => ?_⟩
  rcases List.mem_append.mp hk with before | here
  · exact (routed k before isError).after rewired.steps.grows next
  · cases List.mem_singleton.mp here
    exact (last isError).before wf rewired.steps.grows

end

/-- The node that leads on after an activity is its task or a new one. -/
theorem isSource_splitExclusively {d : DecompositionId} (task : Titled "task" s.spec host) :
    Ensures (fun _ => True) (splitExclusively d host) s fun source t => IsSource t.spec source := by
  have exclusive : ∀ source t, IsSource t.spec source → Ensures (fun _ => True) (do
      edit (.updateTask host fun t => { t with split := .xor })
      return source) t fun source u => IsSource u.spec source := by
    intro source t isSource
    have updating : Relates (Routine Enlarged)
        (edit (.updateTask host fun t => { t with split := .xor })) :=
      routine_edit (Edit.wired_updateTask fun _ => ⟨_, _, rfl⟩)
    refine (updating t).seq fun _ u routine => ?_
    exact isSource.imp (Titled.enlarged · routine.change) (Titled.enlarged · routine.change)
  unfold splitExclusively
  rw [ensures_bind, ensures_spec]
  refine task.seq (routine_edit Edit.relates_requireTask) fun _ t task => ?_
  dsimp only
  split
  · rw [ensures_bind, ensures_generateId]
    refine titled_createTask.seq fun source t titled => ?_
    refine titled.seq (routine_edit Edit.wired_moveOutgoing) fun _ t titled => ?_
    refine titled.seq (routine_edit Edit.wired_link) fun _ t titled => ?_
    refine titled.seq routine_spec fun _ t titled => ?_
    refine titled.seq routine_tell fun _ t titled => ?_
    exact exclusive source t (.inr titled)
  · exact exclusive host t (.inl task)

/-- A host comes to split exclusively. -/
theorem ensures_splitHost (wf : s.spec.WellFormed) (mapped : Mapped job s.spec scope)
    (registered : scope.map.find? n = some host) (task : (s.spec.task? host).isSome) :
    Ensures E (splitExclusively scope.net host) s fun source t =>
      Rewired scope.net (HostActs job n scope s.spec fun _ => False) s t ∧
        t.spec.split? host = some .xor ∧ (t.spec.outgoing host).length ≤ 1 ∧
        (Titled "task" s.spec host → IsSource t.spec source) ∧
        Routine (Minor fun _ _ => False) s t := by
  have splitting : Ensures E (splitExclusively scope.net host) s fun _ t =>
      Rewired scope.net (HostActs job n scope s.spec fun _ => False) s t ∧
        t.spec.split? host = some .xor ∧ (t.spec.outgoing host).length ≤ 1 :=
    ensures_splitExclusively wf (mapped.mem registered) task
      (fun k => .insert .source registered) (.exclusive registered)
  have sourcing : Ensures (fun _ => True) (splitExclusively scope.net host) s fun source t =>
      Titled "task" s.spec host → IsSource t.spec source := by
    by_cases titled : Titled "task" s.spec host
    · exact (isSource_splitExclusively titled).mono fun _ _ isSource _ => isSource
    · exact .anyhow fun _ _ isTitled => (titled isTitled).elim
  refine ((splitting.and_result sourcing).and_result
    (routine_splitExclusively (R := Minor fun _ _ => False) s)).mono ?_
  rintro source t ⟨⟨⟨rewired, exclusive, single⟩, isSource⟩, routine⟩
  exact ⟨rewired, exclusive, single, isSource, routine⟩

/-- A host split exclusively at `t`, its other events had their turn by `u`, and its timers by
`v`. -/
theorem HostRouted.of_split {source : Net.NodeId} {v : State} (wf : s.spec.WellFormed)
    (mapped : Mapped job s.spec scope) (registered : scope.map.find? n = some host)
    (rewired : Rewired scope.net (HostActs job n scope s.spec fun _ => False) s t)
    (exclusive : t.spec.split? host = some .xor)
    (isSource : Titled "task" s.spec host → IsSource t.spec source)
    (others : Rewired scope.net (HostActs job n scope s.spec fun _ => False) t u)
    (raised : ∀ event, Attached job n event → IsError job event →
      ErrorRouted job scope host source event t u)
    (routine : Routine (Minor fun _ _ => False) s u)
    (timers : TimersRouted job n scope scope' s.spec u v) : HostRouted job n scope scope' s v := by
  -- so far nothing was said to fork; the timers of the host may make its predecessor do so
  have widen : ∀ {s' t'}, Rewired scope.net (HostActs job n scope s.spec fun _ => False) s' t' →
      Rewired scope.net
        (HostActs job n scope s.spec (StartsTimer job n scope s.spec v.spec)) s' t' :=
    fun rewired => rewired.mono (HostActs.mono fun _ none => none.elim)
  refine ⟨timers.after (widen (rewired.trans others)) mapped routine, fun _ x found => ?_, ?_⟩
  · cases registered.symm.trans found
    exact ⟨t, widen rewired, exclusive, (widen others).trans timers.routed.rewired⟩
  · intro event x y inner z isAttached isError found titled leads runs raises
    cases registered.symm.trans found
    have grows := rewired.steps.grows
    have here := raised event isAttached isError y inner z (isSource titled) leads
      (grows.runs runs) (Extends.errorTask? wf grows raises)
    have last := here.kept timers.routed.rewired.edges timers.routed.rewired.steps.grows
      fun _ => others.mem
    exact ⟨_, last.mono fun _ => rewired.mem⟩

/-- Without a task, the activity has no events to route. -/
theorem HostRouted.of_unmapped (mapped : Mapped job s.spec scope) (quiet : Quiet s t)
    (unmapped : ∀ x, scope.map.find? n ≠ some x) : HostRouted job n scope scope s t where
  routed := (Routed.refl mapped).rewire (.of_quiet quiet)
  attended x found := (unmapped x found).elim
  exclusive _ x found := (unmapped x found).elim
  raises _ x _ _ _ _ _ found := (unmapped x found).elim

section
variable {activity : Diagram.Activity} (wf : s.spec.WellFormed) (mapped : Mapped job s.spec scope)
  (isActivity : (job.diagram.node n).kind.activity? = some activity)
  (registered : scope.map.find? n = some host) (task : (s.spec.task? host).isSome)
include wf mapped isActivity registered task

/-- With events other than timers, the task of the activity splits exclusively, these events are
routed, and then the timers are. -/
theorem ensures_routeSplitHost {others : List Diagram.NodeId}
    (listed : ∀ event, Attached job n event → isTimer job event = false → event ∈ others)
    (sub : ∀ event ∈ others, event ∈ activity.attached) :
    Ensures E (do
      let source ← splitExclusively scope.net host
      others.forM (routeOther job scope n host source)
      if (activity.attached.filter (isTimer job)).isEmpty then return scope
      else routeTimers job scope host (activity.attached.filter (isTimer job))) s
      fun scope' t => HostRouted job n scope scope' s t := by
  refine (ensures_splitHost wf mapped registered task).seq ?_
  rintro source t ⟨rewired, exclusive, single, isSource, first⟩
  have routing : Ensures E (others.forM (routeOther job scope n host source)) t fun _ u =>
      Rewired scope.net (HostActs job n scope s.spec fun _ => False) t u ∧
        ∀ event ∈ others, IsError job event → ErrorRouted job scope host source event t u :=
    ensures_routeOthers isActivity registered (rewired.steps.wellFormed wf)
      (mapped.steps rewired.steps) (rewired.steps.isTask task) (.of_length single) sub
  refine (routing.and_result (Relates.forM (R := Routine (Minor fun _ _ => False))
    (fun _ _ => routine_routeOther) t)).seq ?_
  rintro _ u ⟨⟨routed, raised⟩, second⟩
  have both := rewired.trans routed
  refine (ensures_routeAttachedTimers isActivity registered (both.steps.wellFormed wf)
    (mapped.steps both.steps) (both.steps.isTask task) fun _ => both.mem).mono ?_
  intro scope' v timers
  refine .of_split wf mapped registered rewired exclusive isSource routed ?_
    (IsTrans.trans _ _ _ first second) timers
  exact fun event isAttached isError => raised event (listed event isAttached isError.not_timer) isError

/-- With no other events, only the timers are routed. -/
theorem ensures_routeOnlyTimers
    (timers : ∀ event, Attached job n event → isTimer job event ≠ false) :
    Ensures E (if (activity.attached.filter (isTimer job)).isEmpty then pure scope
      else routeTimers job scope host (activity.attached.filter (isTimer job))) s
      fun scope' t => HostRouted job n scope scope' s t := by
  refine (ensures_routeAttachedTimers isActivity registered wf mapped task fun _ h => h).mono ?_
  refine fun scope' t routed => ⟨routed, ?_, fun event _ _ _ _ isAttached isError => ?_⟩
  · rintro ⟨event, isAttached, other⟩
    exact (timers event isAttached other).elim
  · exact (timers event isAttached isError.not_timer).elim

end

theorem ensures_routeBoundary (wf : s.spec.WellFormed) (mapped : Mapped job s.spec scope)
    (isHost : IsHost job n) :
    Ensures E (routeBoundary job scope n) s fun scope' t => HostRouted job n scope scope' s t := by
  have ⟨activity, isActivity, _⟩ := isHost
  unfold routeBoundary
  rw [ensures_bind, ensures_spec]
  dsimp only
  split
  · rename_i missing
    -- the counterpart of a host is a task, so a missing task is a missing counterpart
    have unmapped : ∀ x, scope.map.find? n ≠ some x := by
      intro x found
      have task := mapped.isHostTask isHost found
      rw [found, Option.filter_some] at missing
      rw [isTask_iff] at task
      simp [task] at missing
    exact ensures_quiet_tell.seq fun _ t quiet => .of_unmapped mapped quiet unmapped
  · rename_i host found
    have registered := (Option.filter_eq_some_iff.mp found).1
    have task : (s.spec.task? host).isSome := mapped.isHostTask isHost registered
    rw [ensures_bind]
    apply ensures_requireActivity isActivity
    rw [List.partition_eq_filter_filter]
    dsimp only
    have listed : ∀ event, Attached job n event → isTimer job event = false →
        event ∈ activity.attached.filter (not ∘ isTimer job) := fun event isAttached other =>
      List.mem_filter.mpr ⟨(attached_iff isActivity).mp isAttached, by simpa using other⟩
    split
    · rename_i none
      rw [List.isEmpty_iff] at none
      rw [ensures_bind, ensures_pure, none]
      exact ensures_routeOnlyTimers wf mapped isActivity registered task
        fun event isAttached other => nomatch none ▸ listed event isAttached other
    · exact ensures_routeSplitHost wf mapped isActivity registered task listed
        fun event listed => (List.mem_filter.mp listed).1

/-! ### All activities of a net -/

/-- What the events of activities may do. -/
abbrev HostsAct (job : Job) (hosts : List Diagram.NodeId) (scope : Scope) (base : Specification) :
    Action → Prop :=
  Routes (· ∈ (base.decomposition scope.net).nodes)
    (fun x => ∃ n ∈ hosts, scope.map.find? n = some x)
    (fun y => ∃ n ∈ hosts, ∃ event, Attached job n event ∧ HasRoute job event ∧
      LeadsTo job scope.map event y)
    (fun x y => ∃ n ∈ hosts, Handles job scope.map n x y) fun _ => True

/-- The activities had their turns, one after the other. -/
inductive HostsRouted (job : Job) : List Diagram.NodeId → Scope → State → Scope → State → Prop
  | nil (scope : Scope) (s : State) : HostsRouted job [] scope s scope s
  | cons {n : Diagram.NodeId} {rest : List Diagram.NodeId} {scope scope' scope'' : Scope}
      {s t u : State} (first : HostRouted job n scope scope' s t)
      (others : HostsRouted job rest scope' t scope'' u) :
      HostsRouted job (n :: rest) scope s scope'' u

namespace HostsRouted

theorem split (h : HostsRouted job hosts scope s scope'' u) (order : hosts = earlier ++ n :: later) :
    ∃ scope₁ s₁ scope₂ s₂, HostsRouted job earlier scope s scope₁ s₁ ∧
      HostRouted job n scope₁ scope₂ s₁ s₂ ∧ HostsRouted job later scope₂ s₂ scope'' u := by
  subst order
  induction earlier generalizing scope s with
  | nil =>
    cases h with
    | cons first others => exact ⟨scope, s, _, _, .nil scope s, first, others⟩
  | cons k rest ih =>
    cases h with
    | cons first others =>
      obtain ⟨scope₁, s₁, scope₂, s₂, before, here, after⟩ := ih others
      exact ⟨scope₁, s₁, scope₂, s₂, .cons first before, here, after⟩

theorem idle (h : HostsRouted job hosts scope s scope' t) (none : hosts = []) :
    scope' = scope ∧ t = s := by
  subst none
  cases h
  exact ⟨rfl, rfl⟩

theorem routed (h : HostsRouted job hosts scope s scope' t) (mapped : Mapped job s.spec scope) :
    Routed job (fun _ => True)
      (fun event => isTimer job event = true ∧ ∃ n ∈ hosts, Attached job n event)
      scope scope' s t := by
  induction h with
  | nil scope s => exact .refl mapped
  | @cons n rest _ _ _ _ _ _ first _ ih =>
    refine (first.routed.mono (fun _ _ => trivial) ?_).trans
      ((ih first.routed.mapped).mono (fun _ _ => trivial) ?_)
    · rintro event ⟨isTimed, attached⟩
      exact ⟨isTimed, n, List.mem_cons_self, attached⟩
    · rintro event ⟨isTimed, k, member, attached⟩
      exact ⟨isTimed, k, List.mem_cons_of_mem _ member, attached⟩

theorem changes (h : HostsRouted job hosts scope s scope' t) (areHosts : ∀ n ∈ hosts, IsHost job n)
    (wf : s.spec.WellFormed) (mapped : Mapped job s.spec scope)
    (old : ∀ z ∈ (base.decomposition scope.net).nodes, z ∈ (s.spec.decomposition scope.net).nodes) :
    Changes scope.net (HostsAct job hosts scope base) s.spec t.spec := by
  induction h with
  | nil => exact .refl _
  | @cons n rest scope scope₁ scope₂ s t u first _ ih =>
    have routed := first.routed
    have here : Changes scope.net (HostsAct job (n :: rest) scope base) s.spec t.spec := by
      refine (routed.rewired.changes wf).mono fun act routes => ?_
      refine Routes.mono routes old (fun x found => ?_) (fun y leads => ?_) (fun x y handles => ?_)
        fun _ _ => trivial
      · exact ⟨n, List.mem_cons_self, found⟩
      · exact ⟨n, List.mem_cons_self, leads⟩
      · exact ⟨n, List.mem_cons_self, handles⟩
    have next := ih (fun k hk => areHosts k (List.mem_cons_of_mem _ hk))
      (routed.rewired.steps.wellFormed wf) routed.mapped
    rw [routed.net] at next
    refine here.trans ((next fun z hz => routed.rewired.mem (old z hz)).mono fun act routes => ?_)
    unfold HostsAct at routes
    rw [routed.net] at routes
    have same : ∀ k ∈ rest, scope₁.map.find? k = scope.map.find? k := by
      intro k hk
      obtain ⟨activity, isActivity, _⟩ := areHosts k (List.mem_cons_of_mem _ hk)
      exact routed.same_of_plain (fun _ both => both.1) (not_timer_of_activity isActivity)
    constructor
    · intro x actor
      obtain ⟨k, hk, found⟩ := routes.actor x actor
      exact ⟨k, List.mem_cons_of_mem _ hk, same k hk ▸ found⟩
    · intro y target
      rcases routes.target y target with ⟨k, hk, event, attached, hasRoute, leads⟩ | new
      · refine (routed.leads leads).imp (fun before => ?_) fun new isOld => new (old y isOld)
        exact ⟨k, List.mem_cons_of_mem _ hk, event, attached, hasRoute, before⟩
      · exact .inr new
    · rintro z ends
      rcases routes.first z ends with ⟨k, hk, found, event, attached, isError, leads⟩ | new
      · refine (routed.leads leads).imp (fun before => ?_) fun new isOld => new (old z.2 isOld)
        exact ⟨k, List.mem_cons_of_mem _ hk, same k hk ▸ found, event, attached, isError, before⟩
      · exact .inr new
    · exact routes.started
    · exact fun _ _ => trivial

end HostsRouted

theorem ensures_routeHosts (wf : s.spec.WellFormed) (mapped : Mapped job s.spec scope)
    (areHosts : ∀ n ∈ hosts, IsHost job n) :
    Ensures E (hosts.foldlM (routeBoundary job) scope) s fun scope' t =>
      HostsRouted job hosts scope s scope' t := by
  induction hosts generalizing scope s with
  | nil => exact .nil scope s
  | cons n rest ih =>
    rw [List.foldlM_cons]
    refine (ensures_routeBoundary wf mapped (areHosts n List.mem_cons_self)).seq ?_
    intro scope' t first
    have wft := first.routed.rewired.steps.wellFormed wf
    refine (ih wft first.routed.mapped fun k hk => areHosts k (List.mem_cons_of_mem _ hk)).mono ?_
    exact fun scope'' u others => .cons first others

theorem ensures_routeAll (wf : s.spec.WellFormed) (mapped : Mapped job s.spec scope)
    (areHosts : ∀ n ∈ scope.hosts, IsHost job n) :
    Ensures E (routeAll job scope) s fun scope' t =>
      HostsRouted job scope.hosts scope s scope' t :=
  ensures_routeHosts wf mapped areHosts

end ProcessNets.Compile
