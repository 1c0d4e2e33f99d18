import ProcessNets.Proofs.Compile.Handlers
import ProcessNets.Proofs.Compile.Routine
import ProcessNets.Proofs.Net.Cancelling

/-!
# Timers that start with their host

The timer events of an activity. Each becomes a task of its own, and all of them are started by the
one node that leads to the host: by the task before it, which splits in parallel from then on, or
by a new task that is put there.
-/

namespace ProcessNets.Compile

open Net Specification

variable {E : Fault → Prop} {job : Job} {scope scope' scope'' : Scope} {s t u : State}
  {d : DecompositionId} {n m : Diagram.NodeId} {host target x y : Net.NodeId}
  {allowed allowed' : Action → Prop} {old own led forked : Net.NodeId → Prop}
  {handled : Net.NodeId → Net.NodeId → Prop}

/-! ### Scopes with timers -/

/-- A net was rewired while tasks for the `timed` events were registered. -/
structure Routed (job : Job) (allowed : Action → Prop) (timed : Diagram.NodeId → Prop)
    (scope scope' : Scope) (s t : State) : Prop where
  rewired : Rewired scope.net allowed s t
  net : scope'.net = scope.net
  terminations : scope'.terminations = scope.terminations
  mapped : Mapped job t.spec scope'
  same : ∀ n, ¬timed n → scope'.map.find? n = scope.map.find? n
  fresh : ∀ n y, scope'.map.find? n = some y → scope.map.find? n = some y ∨
    y ∉ (s.spec.decomposition scope.net).nodes

namespace Routed

variable {timed timed' : Diagram.NodeId → Prop}

theorem refl (mapped : Mapped job s.spec scope) : Routed job allowed timed scope scope s s :=
  ⟨.refl s, rfl, rfl, mapped, fun _ _ => rfl, fun _ _ => .inl⟩

theorem trans (h : Routed job allowed timed scope scope' s t)
    (h' : Routed job allowed timed scope' scope'' t u) :
    Routed job allowed timed scope scope'' s u where
  rewired := by
    have second := h'.rewired
    rw [h.net] at second
    exact h.rewired.trans second
  net := h'.net.trans h.net
  terminations := h'.terminations.trans h.terminations
  mapped := h'.mapped
  same n free := (h'.same n free).trans (h.same n free)
  fresh n y found := by
    rcases h'.fresh n y found with old | new
    · exact h.fresh n y old
    · rw [h.net] at new
      exact .inr fun old => new (h.rewired.mem old)

theorem mono (h : Routed job allowed timed scope scope' s t) (acts : ∀ a, allowed a → allowed' a)
    (more : ∀ n, timed n → timed' n) : Routed job allowed' timed' scope scope' s t where
  rewired := h.rewired.mono acts
  net := h.net
  terminations := h.terminations
  mapped := h.mapped
  same n free := h.same n fun isTimed => free (more n isTimed)
  fresh := h.fresh

theorem rewire (h : Routed job allowed timed scope scope' s t)
    (next : Rewired scope.net allowed t u) : Routed job allowed timed scope scope' s u where
  rewired := h.rewired.trans next
  net := h.net
  terminations := h.terminations
  mapped := h.mapped.steps next.steps
  same := h.same
  fresh := h.fresh

theorem register (rewired : Rewired scope.net allowed s t)
    (mapped : Mapped job t.spec (scope.register n y))
    (new : y ∉ (s.spec.decomposition scope.net).nodes) :
    Routed job allowed (· = n) scope (scope.register n y) s t := by
  refine ⟨rewired, rfl, rfl, mapped, fun m other => ?_, fun m z found => ?_⟩
  · rw [Scope.find?_register, if_neg other]
  · rw [Scope.find?_register] at found
    split at found
    · cases found
      exact .inr new
    · exact .inl found

end Routed

/-! ### Tasks for timers -/

/-- A new task of a net has a timer that runs from when the task executes. -/
structure TimerTask (d : DecompositionId) (s t : Specification) (y : Net.NodeId) : Prop where
  new : y ∉ (s.decomposition d).nodes
  mem : y ∈ (t.decomposition d).nodes
  isTask : (t.task? y).isSome
  runs : t.RunsOnExecuting y

theorem TimerTask.rewire {base : Specification} (h : TimerTask d base t.spec y)
    (wf : t.spec.WellFormed) (rewired : Rewired d allowed t u) : TimerTask d base u.spec y where
  new := h.new
  mem := rewired.mem h.mem
  isTask := rewired.steps.isTask h.isTask
  runs := by
    have same := ((rewired.changes wf).evolved h.mem).2
    unfold RunsOnExecuting
    rw [same]
    exact h.runs

theorem TimerTask.before {base spec spec' : Specification} (h : TimerTask d spec spec' y)
    (old : ∀ z ∈ (base.decomposition d).nodes, z ∈ (spec.decomposition d).nodes) :
    TimerTask d base spec' y :=
  ⟨fun isOld => h.new (old y isOld), h.mem, h.isTask, h.runs⟩

theorem isTimer_iff : isTimer job n = true ↔ ∃ date cycle boundary,
    (job.diagram.node n).kind = .intermediate (.timer date cycle) boundary := by
  unfold isTimer
  constructor
  · intro timed
    split at timed
    · rename_i trigger boundary kind
      cases trigger <;> simp [Diagram.Trigger.isTimer] at timed
      exact ⟨_, _, boundary, kind⟩
    · cases timed
  · rintro ⟨date, cycle, boundary, kind⟩
    rw [kind]
    rfl

theorem not_timer_of_activity {activity : Diagram.Activity}
    (h : (job.diagram.node n).kind.activity? = some activity) : isTimer job n = false := by
  unfold isTimer
  cases kind : (job.diagram.node n).kind <;> simp [kind, Diagram.Kind.activity?] at h ⊢

theorem not_timer_of_loops (h : Loops job n) : isTimer job n = false := by
  obtain ⟨activity, isActivity, _⟩ := h
  exact not_timer_of_activity isActivity

/-- Only timers get other counterparts while events are routed. -/
theorem Routed.same_of_plain {timed : Diagram.NodeId → Prop}
    (h : Routed job allowed timed scope scope' s t) (areTimers : ∀ k, timed k → isTimer job k = true)
    (plain : isTimer job n = false) : scope'.map.find? n = scope.map.find? n := by
  apply h.same
  intro isTimed
  have timer := areTimers n isTimed
  rw [plain] at timer
  cases timer

/-- New counterparts are new nodes, so that events lead to what they led to, or to new nodes. -/
theorem Routed.leads {timed : Diagram.NodeId → Prop} {event : Diagram.NodeId}
    (h : Routed job allowed timed scope scope' s t) (leads : LeadsTo job scope'.map event y) :
    LeadsTo job scope.map event y ∨ y ∉ (s.spec.decomposition scope.net).nodes := by
  obtain ⟨k, isNext, found⟩ := leads
  exact (h.fresh k y found).imp_left fun before => ⟨k, isNext, before⟩

section
variable (wf : s.spec.WellFormed) (added : Added d y s t)
include wf added

theorem Added.timerTask (isTask : (t.spec.task? y).isSome) (runs : t.spec.RunsOnExecuting y) :
    TimerTask d s.spec t.spec y :=
  ⟨wf.not_mem_of_le added.fresh.new, added.mem, isTask, runs⟩

theorem Added.timer (task : TimerTask d s.spec t.spec y) :
    Change d s.spec t.spec (.timer y none) := by
  have nodes : ∀ n, n ∈ (t.spec.decomposition d).nodes ↔
      n ∈ (s.spec.decomposition d).nodes ∨ n = y := by
    intro n
    refine ⟨added.entered.only n, ?_⟩
    rintro (isOld | rfl)
    · exact added.steps.grows.mem_nodes isOld
    · exact task.mem
  refine .of_timer wf (added.steps.wellFormed wf) added.entered.steady nodes task.new task.runs ?_
  unfold outgoing
  rw [added.fresh.bare]
  rfl

theorem Rewired.of_added {act : Action} (kept : Kept s t) (change : Change d s.spec t.spec act)
    (isAllowed : allowed act) : Rewired d allowed s t where
  steps := added.steps.mono (fun _ h => h) fun _ none => none.elim
  kept := kept
  keeps := (added.steps.sameEdges wf fun none => none).keeps
  edges := by
    have same : SameEdges d s.spec t.spec := added.steps.sameEdges wf fun none => none
    exact .of_eq (fun e he => same.edges ▸ he) fun e _ => added.entered.steady.edge e
  changes _ := .single change isAllowed

end

/-- The task of a timer gets its edge. The two steps together are one action. -/
theorem Rewired.link_timer (first : Rewired d allowed s t) (wf : t.spec.WellFormed)
    (change : Change d s.spec t.spec (.timer y none)) (mem : y ∈ (t.spec.decomposition d).nodes)
    (memTarget : target ∈ (t.spec.decomposition d).nodes)
    (linked : Linked d (joining y target) (joining y target) t u)
    (spec : u.spec = t.spec.addEdge d (.plain y target 1) y target)
    (isAllowed : allowed (.timer y (some target))) : Rewired d allowed s u where
  steps := first.steps.trans (linked.steps.mono (fun _ none => none.elim) fun _ h => h)
  kept := first.kept.trans linked.kept
  keeps := first.keeps.trans linked.keeps
  edges := by
    have added : EdgesKept d t.spec u.spec := by
      rw [spec]
      exact .addEdge wf _
    exact first.edges.trans added first.steps.grows linked.steps.grows
  changes _ := by
    refine .single ?_ isAllowed
    rw [spec]
    exact change.link_timer wf mem memTarget

/-- The new task of a timer is linked to what the timer leads to. -/
theorem ensures_linkTimer (wf : s.spec.WellFormed) (first : Rewired d allowed s t)
    (change : Change d s.spec t.spec (.timer y none)) (task : TimerTask d s.spec t.spec y)
    (memTarget : target ∈ (t.spec.decomposition d).nodes)
    (isAllowed : allowed (.timer y (some target))) :
    Ensures E (edit (.link d y target 1)) t fun _ u =>
      Rewired d allowed s u ∧ Steps nowhere (· = d) t u ∧ TimerTask d s.spec u.spec y := by
  have wft := first.steps.wellFormed wf
  refine (ensures_link wft task.mem memTarget).mono ?_
  rintro _ u ⟨linked, spec⟩
  have grown : Steps nowhere (· = d) t u := linked.steps
  have linked' : Change d s.spec u.spec (.timer y (some target)) := by
    rw [spec]
    exact change.link_timer wft task.mem memTarget
  refine ⟨first.link_timer wft change task.mem memTarget linked spec isAllowed, grown, task.new,
    grown.grows.mem_nodes task.mem, grown.isTask task.isTask, ?_⟩
  cases linked' with
  | timer _ _ _ _ runs _ => exact runs

/-- The task of a timer is registered, and leads to what the timer leads to. -/
theorem ensures_placeBoundaryTimer {timer : Diagram.NodeId} {tasks : List Net.NodeId}
    (wf : s.spec.WellFormed) (stored : scope.net.index < s.spec.decompositions.size)
    (mapped : Mapped job s.spec scope) (timed : isTimer job timer = true)
    (isOld : ∀ z, old z → z ∈ (s.spec.decomposition scope.net).nodes)
    (leads : ∀ z, LeadsTo job scope.map timer z → led z ∨ ¬old z) :
    Ensures E (placeBoundaryTimer job (scope, tasks) timer) s fun placed t =>
      Routed job (Routes old own led handled forked) (· = timer) scope placed.1 s t ∧
        ∃ y, placed.2 = tasks ++ [y] ∧ placed.1.map.find? timer = some y ∧
          TimerTask scope.net s.spec t.spec y := by
  obtain ⟨date, cycle, boundary, kind⟩ := isTimer_iff.mp timed
  have stands : ∀ {spec y}, Stands spec scope.net (job.diagram.node timer).kind y ↔
      (spec.task? y).isSome := by
    intro spec y
    rw [kind]
    exact Iff.rfl
  unfold placeBoundaryTimer
  dsimp only
  refine (ensures_placeTimer stored kind).seq ?_
  rintro y t ⟨added, kept, isTask, triggered⟩
  have wft := added.steps.wellFormed wf
  have task : TimerTask scope.net s.spec t.spec y := added.timerTask wf isTask triggered
  have change : Change scope.net s.spec t.spec (.timer y none) := added.timer wf task
  have first : Rewired scope.net (Routes old own led handled forked) s t :=
    .of_added wf added kept change (.timer fun _ none => by cases none)
  have mapped' : Mapped job t.spec (scope.register timer y) := by
    refine (mapped.steps added.steps).register added.mem (stands.mpr isTask) fun k here => ?_
    exact (task.new (mapped.mem here)).elim
  have listed : (scope.register timer y).map.find? timer = some y :=
    Scope.find?_register.trans (if_pos rfl)
  refine ensures_eventTarget.seq ?_
  rintro found t₁ ⟨quiet, same, isTarget⟩
  cases found with
  | none =>
    have quieted : Rewired scope.net (Routes old own led handled forked) t t₁ := .of_quiet quiet
    exact ⟨.register (first.trans quieted) (mapped'.steps quieted.steps) task.new, y, rfl, listed,
      task.rewire wft quieted⟩
  | some target =>
    obtain rfl := same target rfl
    obtain ⟨k, isNext, isTarget⟩ := (isTarget target).mp rfl
    have memTarget := mapped'.mem isTarget
    -- the timer may lead back to itself: then its own task, which is new, is the target
    have isLed : led target ∨ ¬old target := by
      rw [Scope.find?_register] at isTarget
      split at isTarget
      · cases isTarget
        exact .inr fun old => task.new (isOld y old)
      · exact leads target ⟨k, isNext, isTarget⟩
    have isAllowed : Routes old own led handled forked (.timer y (some target)) := by
      refine .timer fun z same => ?_
      cases same
      exact isLed
    refine (ensures_linkTimer wf first change task memTarget isAllowed).seq ?_
    rintro _ u ⟨rewired, grown, task'⟩
    exact ⟨.register rewired (mapped'.steps grown) task.new, y, rfl, listed, task'⟩

/-! ### Shared predecessors -/

/-- A net was rewired so that nothing leads to the host but what was found, if anything; nothing
else splits in parallel from then on. -/
structure Predecessor (d : DecompositionId) (old own led : Net.NodeId → Prop)
    (handled : Net.NodeId → Net.NodeId → Prop) (host : Net.NodeId) (s : State) (found : Option Net.NodeId) (t : State) : Prop where
  rewired : Rewired d (Routes old own led handled fun z => found = some z) s t
  mem : ∀ y, found = some y → y ∈ (t.spec.decomposition d).nodes
  only : ∀ z, Joins t.spec d z host → found = some z

/-- A new task in front of the host is the only node that leads to it. -/
theorem Predecessor.of_spliced (spliced : Spliced d .target host x s t)
    (mem : host ∈ (s.spec.decomposition d).nodes) (isOwn : own host) :
    Predecessor d old own led handled host s (some x) t where
  rewired := .of_spliced spliced (.insert .target isOwn)
  mem := by
    rintro _ ⟨⟩
    rw [spliced.inserted.nodes]
    exact List.mem_append_right _ (List.mem_singleton_self x)
  only _ step := congrArg some ((spliced.inserted.only mem).mp step).symm

/-- Details of the net change, but none that steers control flow. -/
theorem Predecessor.tuned (h : Predecessor d old own led handled host s (some x) t)
    (tuned : Tuned (· = d) t u) (routing : SameRouting t.spec u.spec) :
    Predecessor d old own led handled host s (some x) u where
  rewired := h.rewired.trans (.of_tuned tuned routing)
  mem y found := by
    rw [nodes_of_skeleton tuned.skeleton]
    exact h.mem y found
  only z step := h.only z ((SameEdges.of_skeleton tuned.skeleton).joins.mp step)

section
variable (wf : s.spec.WellFormed) (mem : host ∈ (s.spec.decomposition d).nodes) (isOwn : own host)
include wf mem isOwn

theorem ensures_sharedSource {e : Net.EdgeId} (memSource : x ∈ (s.spec.decomposition d).nodes)
    (source : (s.spec.edge e).source = some x)
    (only : (s.spec.node host).edgesAt .target = [e]) :
    Ensures E (sharedSource d host e x) s fun y t =>
      Predecessor d old own led handled host s (some y) t := by
  have single : ∀ z, Joins s.spec d z host → z = x := by
    intro z step
    obtain ⟨f, listed, leaves⟩ := (joins_iff_incoming wf mem).mp step
    have same : f = e := List.mem_singleton.mp (only ▸ listed)
    rw [same, source] at leaves
    exact (Option.some.inj leaves).symm
  have done : ∀ t, Rewired d (Routes old own led handled fun z => some x = some z) s t →
      t.spec.skeleton = s.spec.skeleton → Predecessor d old own led handled host s (some x) t := by
    intro t rewired skeleton
    refine ⟨rewired, ?_, fun z step => ?_⟩
    · rintro _ ⟨⟩
      exact rewired.mem memSource
    · rw [single z ((SameEdges.of_skeleton skeleton).joins.mp step)]
  unfold sharedSource
  rw [ensures_bind, ensures_spec]
  dsimp only
  split
  · rename_i task kind
    have isTask : (s.spec.task? x).isSome := by
      unfold task?
      rw [kind]
      rfl
    split
    · split
      · rw [ensures_bind, ensures_spec]
        exact ensures_quiet_tell.seq fun _ t quiet => done t (.of_quiet quiet) quiet.skeleton
      · exact done s (.refl s) rfl
    · refine (ensures_updateTask isTask memSource ?_ ?_).seq ?_
      · exact fun _ => rfl
      · exact fun _ => List.Subset.refl _
      rintro _ t ⟨spec, tuned⟩
      refine done t (.of_change tuned (by rw [spec]; rfl) (fun wf => ?_) (.parallel_of rfl))
        tuned.skeleton
      rw [spec]
      exact .of_modifyTask wf (fun _ => rfl) fun _ => rfl
  · rw [ensures_bind, ensures_generateId]
    refine ensures_splice .target (Edit.redirectTarget d e) wf mem ?_ ?_
    · intro m t wft ht hm same
      exact ensures_moveOnly .target wft ht hm (by rw [same, only])
    · exact fun m t spliced _ => .of_spliced spliced mem isOwn

theorem ensures_sharedPredecessor (isTask : (s.spec.task? host).isSome) :
    Ensures E (sharedPredecessor d host) s (Predecessor d old own led handled host s) := by
  obtain ⟨task, found⟩ := Option.isSome_iff_exists.mp isTask
  unfold sharedPredecessor
  rw [ensures_bind, ensures_spec]
  dsimp only
  split
  · rename_i incoming
    refine ensures_quiet_tell.seq fun _ t quiet => ⟨.of_quiet quiet, ?_, fun z step => ?_⟩
    · intro y none
      cases none
    · have before := (SameEdges.of_skeleton quiet.skeleton).joins.mp step
      obtain ⟨e, listed, _⟩ := (joins_iff_incoming wf mem).mp before
      rw [incoming] at listed
      cases listed
  · rename_i e incoming
    have listed : e ∈ (s.spec.node host).edgesAt .target := by
      show e ∈ (s.spec.node host).incoming
      rw [incoming]
      exact List.mem_singleton_self e
    obtain ⟨x, hx, _, _, source, _⟩ := wf.exists_ends (wf.edge_mem mem listed).1
    rw [source, ensures_bind]
    apply ensures_edit
    show Ensures E (do return some (← sharedSource d host e x)) s _
    exact (ensures_sharedSource wf mem isOwn hx source incoming).seq fun _ _ h => h
  · rw [ensures_bind]
    apply ensures_edit
    apply Edit.ensures_requireTask found
    rw [ensures_bind, ensures_generateId]
    refine ensures_splice .target (Edit.moveIncoming d host) wf mem ?_ ?_
    · exact fun m t wft ht hm _ => ensures_moveEnds .target wft ht hm
    · intro m t spliced _
      refine (ensures_updateTask (spliced.steps.isTask isTask) (spliced.steps.grows.mem_nodes mem)
        ?_ ?_).seq ?_
      · exact fun _ => rfl
      · exact fun _ => List.Subset.refl _
      rintro _ u ⟨spec, tuned⟩
      refine (Predecessor.of_spliced spliced mem isOwn).tuned tuned ?_
      rw [spec]
      exact .of_modifyTask (fun _ => rfl) fun _ => rfl

end

/-! ### Starting timers -/

theorem isNext_nextOrdering (s : Specification) (n : Net.NodeId) :
    IsNext (nextOrdering s n) (s.outgoing n) := by
  unfold nextOrdering IsNext
  split
  · rename_i none
    exact .inl ⟨List.map_eq_nil_iff.mp none, rfl⟩
  · rename_i first rest orderings
    have greatest : (first :: rest).max? = some (rest.foldl max first) := List.max?_cons'
    obtain ⟨mem, le⟩ := List.max?_eq_some_iff.mp greatest
    rw [← orderings] at mem le
    refine .inr ⟨fun x hx => ?_, ?_⟩
    · have := le _ (List.mem_map_of_mem hx)
      omega
    · obtain ⟨x, hx, same⟩ := List.mem_map.mp mem
      exact ⟨x, hx, by rw [same]⟩

/-- The same node leads to all the given tasks, and nothing else is led to from new places. -/
structure Started (d : DecompositionId) (allowed : Action → Prop) (x : Net.NodeId)
    (tasks : List Net.NodeId) (s t : State) : Prop where
  rewired : Rewired d allowed s t
  started : ∀ y ∈ tasks, Joins t.spec d x y
  only : ∀ z y, y ∉ tasks → Joins t.spec d z y → Joins s.spec d z y

theorem ensures_startAll {tasks : List Net.NodeId} {base : Specification}
    (wf : s.spec.WellFormed) (mem : x ∈ (s.spec.decomposition d).nodes)
    (new : ∀ y ∈ tasks, TimerTask d base s.spec y)
    (isOld : ∀ z, old z → z ∈ (base.decomposition d).nodes) :
    Ensures E (tasks.forM fun task => do
      let ordering := nextOrdering (← spec) x
      let _ ← edit (.link d x task ordering)) s fun _ t =>
        Started d (Routes old own led handled forked) x tasks s t := by
  refine ensures_forM_done (fun done t => Started d (Routes old own led handled forked) x done s t) ?_ ?_
  · rintro done y rest t all ⟨rewired, started, only⟩
    have isNew := new y (all ▸ by simp)
    have wft := rewired.steps.wellFormed wf
    have task := isNew.rewire wf rewired
    rw [ensures_bind, ensures_spec]
    refine (ensures_link wft (rewired.mem mem) task.mem).seq ?_
    rintro _ u ⟨linked, spec⟩
    have change : Change d t.spec u.spec (.start x y) := by
      rw [spec]
      exact .of_start wft (rewired.mem mem) task.mem task.runs (isNext_nextOrdering _ x)
    have routes : Routes old own led handled forked (.start x y) :=
      .start fun old => isNew.new (isOld y old)
    have edges : EdgesKept d t.spec u.spec := by
      rw [spec]
      exact .addEdge wft _
    have next : Rewired d (Routes old own led handled forked) t u := .of_linked linked edges change routes
    refine ⟨rewired.trans next, ?_, ?_⟩
    · intro z hz
      rcases List.mem_append.mp hz with before | here
      · exact linked.old x z (started z before)
      · rw [List.mem_singleton] at here
        subst here
        exact linked.new x z ⟨rfl, rfl⟩
    · intro z w other step
      rw [List.mem_append, List.mem_singleton, not_or] at other
      rcases linked.only z w step with before | ⟨_, same⟩
      · exact only z w other.1 before
      · exact (other.2 same).elim
  · refine ⟨.refl s, ?_, fun _ _ _ step => step⟩
    intro y none
    cases none

/-- The timers of a host and their tasks, in pairs: each timer has a new task of its own, and one of
its tasks as counterpart. -/
structure TimersPlaced (d : DecompositionId) (map : NodeMap) (s t : Specification)
    (pairs : List (Diagram.NodeId × Net.NodeId)) : Prop where
  tasks : ∀ p ∈ pairs, TimerTask d s t p.2
  distinct : (pairs.map (·.2)).Nodup
  registered : ∀ p ∈ pairs, ∃ y, (p.1, y) ∈ pairs ∧ map.find? p.1 = some y

namespace TimersPlaced

variable {base : Specification} {map map' : NodeMap}
  {pairs : List (Diagram.NodeId × Net.NodeId)}

theorem rewire (h : TimersPlaced d map base t.spec pairs) (wf : t.spec.WellFormed)
    (rewired : Rewired d allowed t u) : TimersPlaced d map base u.spec pairs :=
  ⟨fun p hp => (h.tasks p hp).rewire wf rewired, h.distinct, h.registered⟩

theorem before {spec spec' : Specification} (h : TimersPlaced d map spec spec' pairs)
    (old : ∀ z ∈ (base.decomposition d).nodes, z ∈ (spec.decomposition d).nodes) :
    TimersPlaced d map base spec' pairs :=
  ⟨fun p hp => (h.tasks p hp).before old, h.distinct, h.registered⟩

theorem task (h : TimersPlaced d map base t.spec pairs) (hy : y ∈ pairs.map (·.2)) :
    TimerTask d base t.spec y := by
  obtain ⟨p, hp, rfl⟩ := List.mem_map.mp hy
  exact h.tasks p hp

/-- The tasks of the timers are new, so the host is none of them. -/
theorem apart (h : TimersPlaced d map base t.spec pairs)
    (mem : host ∈ (base.decomposition d).nodes) : host ∉ pairs.map (·.2) :=
  fun isTimer => (h.task isTimer).new mem

theorem concat (h : TimersPlaced d map base t.spec pairs) (wf : t.spec.WellFormed)
    (rewired : Rewired d allowed t u) (task : TimerTask d t.spec u.spec y)
    (old : ∀ z ∈ (base.decomposition d).nodes, z ∈ (t.spec.decomposition d).nodes)
    (registered : map'.find? n = some y) (same : ∀ k, k ≠ n → map'.find? k = map.find? k) :
    TimersPlaced d map' base u.spec (pairs ++ [(n, y)]) where
  tasks p hp := by
    rcases List.mem_append.mp hp with earlier | here
    · exact (h.tasks p earlier).rewire wf rewired
    · rw [List.mem_singleton.mp here]
      exact task.before old
  distinct := by
    rw [List.map_append]
    refine nodup_concat h.distinct fun earlier => ?_
    obtain ⟨p, hp, rfl⟩ := List.mem_map.mp earlier
    exact task.new (h.tasks p hp).mem
  registered p hp := by
    by_cases here : p.1 = n
    · rw [here]
      exact ⟨y, List.mem_append_right _ List.mem_cons_self, registered⟩
    · have earlier : p ∈ pairs := by
        refine (List.mem_append.mp hp).resolve_right fun last => here ?_
        rw [List.mem_singleton.mp last]
      obtain ⟨z, hz, found⟩ := h.registered p earlier
      exact ⟨z, List.mem_append_left _ hz, (same p.1 here).trans found⟩

end TimersPlaced

theorem ensures_placeBoundaryTimers {timers : List Diagram.NodeId} (wf : s.spec.WellFormed)
    (stored : scope.net.index < s.spec.decompositions.size) (mapped : Mapped job s.spec scope)
    (timed : ∀ n ∈ timers, isTimer job n = true)
    (leads : ∀ n ∈ timers, ∀ z, LeadsTo job scope.map n z → led z) :
    Ensures E (timers.foldlM (placeBoundaryTimer job) (scope, [])) s fun placed t =>
      Routed job (Routes (· ∈ (s.spec.decomposition scope.net).nodes) own led handled forked)
        (· ∈ timers) scope placed.1 s t ∧
      ∃ pairs, pairs.map (·.1) = timers ∧ placed.2 = pairs.map (·.2) ∧
        TimersPlaced scope.net placed.1.map s.spec t.spec pairs := by
  refine ensures_foldlM_done (fun done (placed : Scope × List Net.NodeId) t =>
    Routed job (Routes (· ∈ (s.spec.decomposition scope.net).nodes) own led handled forked)
      (· ∈ timers) scope placed.1 s t ∧
    ∃ pairs, pairs.map (·.1) = done ∧ placed.2 = pairs.map (·.2) ∧
      TimersPlaced scope.net placed.1.map s.spec t.spec pairs) ?_ ?_
  · rintro done timer rest ⟨scope₁, tasks⟩ t all ⟨routed, pairs, rfl, results, placed⟩
    have here : timer ∈ timers := all ▸ by simp
    have wft := routed.rewired.steps.wellFormed wf
    have stored' : scope₁.net.index < t.spec.decompositions.size := by
      rw [routed.net]
      exact Nat.lt_of_lt_of_le stored routed.rewired.steps.grows.decompositions_size
    have placing : Ensures E (placeBoundaryTimer job (scope₁, tasks) timer) t fun placed u =>
        Routed job (Routes (· ∈ (s.spec.decomposition scope.net).nodes) own led handled forked)
          (· = timer) scope₁ placed.1 t u ∧ ∃ y, placed.2 = tasks ++ [y] ∧
            placed.1.map.find? timer = some y ∧ TimerTask scope₁.net t.spec u.spec y := by
      apply ensures_placeBoundaryTimer wft stored' routed.mapped (timed timer here)
      · intro z old
        rw [routed.net]
        exact routed.rewired.mem old
      · rintro z ⟨k, isNext, found⟩
        rcases routed.fresh k z found with old | new
        · exact .inl (leads timer here z ⟨k, isNext, old⟩)
        · exact .inr new
    refine placing.mono ?_
    rintro ⟨scope₂, tasks'⟩ u ⟨next, y, result, registered, task⟩
    rw [routed.net] at task
    have rewired := next.rewired
    rw [routed.net] at rewired
    refine ⟨routed.trans (next.mono (fun _ h => h) fun n same => same ▸ here),
      pairs ++ [(timer, y)], by simp, ?_, ?_⟩
    · rw [result, show tasks = _ from results, List.map_append]
      rfl
    · exact placed.concat wft rewired task (fun z => routed.rewired.mem) registered
        fun k other => next.same k other
  · exact ⟨.refl mapped, [], rfl, rfl, by simp, List.nodup_nil, by simp⟩

theorem ensures_cancelMutually_exact {timers : List Net.NodeId}
    (isTask : (s.spec.task? host).isSome) (areTasks : ∀ y ∈ timers, (s.spec.task? y).isSome)
    (apart : host ∉ timers) : Ensures E (cancelMutually host timers) s fun _ t =>
      Adds (Mutual host timers) s.spec t.spec := by
  have still : ∀ {spec : Specification} {y}, spec.skeleton = s.spec.skeleton →
      (s.spec.task? y).isSome → (spec.task? y).isSome := fun same task => by
    rwa [task?_isSome_of_skeleton same]
  unfold cancelMutually
  apply ensures_edit
  refine (ensures_cancelling_forM (fun s => s) (fun y x z => x = host ∧ z = y ∧ y ≠ host ∨
    x = y ∧ z = host ∧ host ≠ y ∨ ∃ w ∈ timers, x = y ∧ z = w ∧ w ≠ y) ?_).mono ?_
  · intro y hy t same
    have task := areTasks y hy
    refine (Edit.ensures_cancelling_task (still same isTask) (still same task)).seq
      fun _ u first => ?_
    have same₁ := first.skeleton.trans same
    refine (Edit.ensures_cancelling_task (still same₁ task) (still same₁ isTask)).seq
      fun _ v second => ?_
    have same₂ := second.skeleton.trans same₁
    refine (ensures_cancelling_forM (fun s => s) (fun w x z => x = y ∧ z = w ∧ w ≠ y)
      fun w hw t' same' => ?_).mono fun _ t' third => first.trans (second.trans third)
    have same₃ := same'.trans same₂
    exact (Edit.ensures_cancelling_task (still same₃ task) (still same₃ (areTasks w hw))).seq
      fun _ _ h => h
  · intro _ t cancelling
    refine cancelling.toAdds.congr fun x z => ?_
    unfold Mutual
    grind

/-- A node starts a timer that is new. -/
def Forks (d : DecompositionId) (s t : Specification) (x : Net.NodeId) : Prop :=
  ∃ y, y ∉ (s.decomposition d).nodes ∧ Joins t d x y ∧ t.RunsOnExecuting y

/-! ### Routed timers -/

/-- The timers of a host have new tasks, and the host and the tasks cancel each other. -/
structure TimersReady (job : Job) (allowed : Action → Prop) (host : Net.NodeId)
    (pairs : List (Diagram.NodeId × Net.NodeId)) (scope scope' : Scope) (s t : State) : Prop where
  routed : Routed job allowed (· ∈ pairs.map (·.1)) scope scope' s t
  placed : TimersPlaced scope.net scope'.map s.spec t.spec pairs
  adds : Adds (Mutual host (pairs.map (·.2))) s.spec t.spec

/-- The timers of a host are ready, and they start whenever the host does. -/
structure TimersStarted (job : Job) (allowed : Action → Prop) (host : Net.NodeId)
    (pairs : List (Diagram.NodeId × Net.NodeId)) (scope scope' : Scope) (s t : State) : Prop
    extends TimersReady job allowed host pairs scope scope' s t where
  joined : ∀ z, Joins t.spec scope.net z host → ∀ p ∈ pairs, Joins t.spec scope.net z p.2

namespace TimersReady

variable {pairs : List (Diagram.NodeId × Net.NodeId)}

theorem mono (h : TimersReady job allowed host pairs scope scope' s t)
    (acts : ∀ a, allowed a → allowed' a) :
    TimersReady job allowed' host pairs scope scope' s t :=
  ⟨h.routed.mono acts fun _ timed => timed, h.placed, h.adds⟩

/-- Later steps that leave the cancellation sets alone keep the timers ready. -/
theorem rewire (h : TimersReady job allowed host pairs scope scope' s t) (wf : t.spec.WellFormed)
    (next : Rewired scope.net allowed t u) (routine : Routine (Minor fun _ _ => False) t u) :
    TimersReady job allowed host pairs scope scope' s u :=
  ⟨h.routed.rewire next, h.placed.rewire wf next, h.adds.then_minor routine.change⟩

/-- Without anything that leads to the host, no node starts its timers, and none needs to. -/
theorem unreachable
    (ready : TimersReady job (Routes old own led handled fun z => none = some z) host pairs scope
      scope' s t)
    (only : ∀ z, Joins t.spec scope.net z host → none = some z) :
    TimersStarted job (Routes old own led handled forked) host pairs scope scope' s t where
  toTimersReady := ready.mono fun _ routes => routes.fork fun _ none => by cases none
  joined z step := by cases only z step

end TimersReady

section
variable {pairs : List (Diagram.NodeId × Net.NodeId)} (wf : s.spec.WellFormed)
  (mem : host ∈ (s.spec.decomposition scope.net).nodes) (isTask : (s.spec.task? host).isSome)
include wf mem isTask

/-- Once they have their tasks, the timers and the host come to cancel each other. -/
theorem ensures_cancelTimers
    (routed : Routed job allowed (· ∈ pairs.map (·.1)) scope scope' s t)
    (placed : TimersPlaced scope.net scope'.map s.spec t.spec pairs)
    (placing : Routine (Minor fun _ _ => False) s t) :
    Ensures E (cancelMutually host (pairs.map (·.2))) t fun _ u =>
      TimersReady job allowed host pairs scope scope' s u := by
  have task := routed.rewired.steps.isTask isTask
  have areTasks : ∀ y ∈ pairs.map (·.2), (t.spec.task? y).isSome :=
    fun _ hy => (placed.task hy).isTask
  refine ((ensures_cancelMutually task areTasks (routed.rewired.mem mem)
    fun _ hy => (placed.task hy).mem).and
    (ensures_cancelMutually_exact task areTasks (placed.apart mem))).mono ?_
  rintro _ u ⟨⟨tuned, routing⟩, clique⟩
  have cancelled : Rewired scope.net allowed t u := .of_tuned tuned routing
  exact ⟨routed.rewire cancelled, placed.rewire (routed.rewired.steps.wellFormed wf) cancelled,
    clique.after_minor placing.change⟩

/-- The timers stay ready while the node that is to start them is found. It alone splits in
parallel, and it alone leads to the host. -/
theorem TimersReady.ensures_sharedPredecessor (isOwn : own host)
    (ready : TimersReady job (Routes old own led handled fun _ => False) host pairs scope scope' s t) :
    Ensures E (sharedPredecessor scope.net host) t fun found u =>
      TimersReady job (Routes old own led handled fun z => found = some z) host pairs scope scope'
        s u ∧
      (∀ y, found = some y → y ∈ (u.spec.decomposition scope.net).nodes) ∧
      ∀ z, Joins u.spec scope.net z host → found = some z := by
  have rewired := ready.routed.rewired
  have wft := rewired.steps.wellFormed wf
  have shared : Ensures E (sharedPredecessor scope.net host) t
      (Predecessor scope.net old own led handled host t) :=
    Compile.ensures_sharedPredecessor wft (rewired.mem mem) isOwn (rewired.steps.isTask isTask)
  refine (shared.and_result (routine_sharedPredecessor (R := Minor fun _ _ => False) t)).mono ?_
  rintro found u ⟨predecessor, sharing⟩
  refine ⟨?_, predecessor.mem, predecessor.only⟩
  exact (ready.mono fun _ routes => routes.fork fun _ none => none.elim).rewire wft
    predecessor.rewired sharing

omit isTask

/-- The tasks of the timers are started by the only node that leads to the host. -/
theorem TimersReady.ensures_start (occupied : pairs ≠ [])
    (ready : TimersReady job (Routes (· ∈ (s.spec.decomposition scope.net).nodes) own led handled
      fun z => some x = some z) host pairs scope scope' s t)
    (memx : x ∈ (t.spec.decomposition scope.net).nodes)
    (only : ∀ z, Joins t.spec scope.net z host → some x = some z) :
    Ensures E ((pairs.map (·.2)).forM fun task => do
      let ordering := nextOrdering (← spec) x
      let _ ← edit (.link scope.net x task ordering)) t fun _ u =>
        TimersStarted job (Routes (· ∈ (s.spec.decomposition scope.net).nodes) own led handled
          (Forks scope.net s.spec u.spec)) host pairs scope scope' s u := by
  have wft := ready.routed.rewired.steps.wellFormed wf
  have starting : Ensures E _ t fun _ u => Started scope.net
      (Routes (· ∈ (s.spec.decomposition scope.net).nodes) own led handled fun z => some x = some z)
      x (pairs.map (·.2)) t u :=
    ensures_startAll wft memx (fun _ hy => ready.placed.task hy) fun _ h => h
  refine (starting.and_result (routine_startAll (R := Minor fun _ _ => False) t)).mono ?_
  rintro _ u ⟨⟨rewired, started, gained⟩, starting⟩
  have ready' := ready.rewire wft rewired starting
  have forks : Forks scope.net s.spec u.spec x := by
    obtain ⟨p, hp⟩ := List.exists_mem_of_ne_nil pairs occupied
    have begun := ready'.placed.tasks p hp
    exact ⟨p.2, begun.new, started p.2 (List.mem_map_of_mem hp), begun.runs⟩
  refine ⟨ready'.mono fun _ routes => routes.fork ?_, fun z step p hp => ?_⟩
  · rintro _ ⟨⟩
    exact forks
  · cases only z (gained z host (ready.placed.apart mem) step)
    exact started p.2 (List.mem_map_of_mem hp)

end

/-- The timers of a host start together with it, and they cancel each other. -/
theorem ensures_routeTimers {timers : List Diagram.NodeId} (wf : s.spec.WellFormed)
    (mapped : Mapped job s.spec scope) (mem : host ∈ (s.spec.decomposition scope.net).nodes)
    (isTask : (s.spec.task? host).isSome) (isOwn : own host) (occupied : timers ≠ [])
    (timed : ∀ n ∈ timers, isTimer job n = true)
    (leads : ∀ n ∈ timers, ∀ z, LeadsTo job scope.map n z → led z) :
    Ensures E (routeTimers job scope host timers) s fun scope' t => ∃ pairs,
      pairs.map (·.1) = timers ∧
      TimersStarted job (Routes (· ∈ (s.spec.decomposition scope.net).nodes) own led handled
        (Forks scope.net s.spec t.spec)) host pairs scope scope' s t := by
  -- which node splits in parallel shows only at the end: until then nothing does
  have placing : Ensures E (timers.foldlM (placeBoundaryTimer job) (scope, [])) s fun placed t =>
      Routed job (Routes (· ∈ (s.spec.decomposition scope.net).nodes) own led handled
        fun _ => False) (· ∈ timers) scope placed.1 s t ∧
      ∃ pairs, pairs.map (·.1) = timers ∧ placed.2 = pairs.map (·.2) ∧
        TimersPlaced scope.net placed.1.map s.spec t.spec pairs :=
    ensures_placeBoundaryTimers wf (decomposition_stored mem) mapped timed leads
  unfold routeTimers
  refine (placing.and_result (Relates.foldlM (R := Routine (Minor fun _ _ => False))
    (fun _ _ => routine_placeBoundaryTimer) _ s)).seq ?_
  rintro ⟨scope', tasks⟩ t ⟨⟨routed, pairs, rfl, rfl, placed⟩, routine⟩
  dsimp only
  rw [routed.net]
  refine (ensures_cancelTimers wf mem isTask routed placed routine).seq fun _ t₁ cancelling => ?_
  refine (cancelling.ensures_sharedPredecessor wf mem isTask isOwn).seq ?_
  rintro found t₂ ⟨ready, memFound, only⟩
  cases found with
  | none => exact ⟨pairs, rfl, ready.unreachable only⟩
  | some first =>
    have some_pair : pairs ≠ [] := fun none => occupied (by rw [none, List.map_nil])
    refine (ready.ensures_start wf mem some_pair (memFound first rfl) only).seq ?_
    exact fun _ u started => ⟨pairs, rfl, started⟩

end ProcessNets.Compile
