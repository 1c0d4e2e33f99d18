import ProcessNets.Proofs.Compile.BoundaryTimers

/-!
# Splits of activities with events

An activity with events other than timers splits exclusively. It does so to the end, unless it
starts a timer, of its own or of a later activity: the task that starts a timer splits in parallel.
-/

namespace ProcessNets.Compile

open Net Specification

variable {job : Job} {index : Int} {container : Diagram.Container} {scope scope' : Scope}
  {terminations : List Diagram.NodeId} {s t u s₁ s₂ s₃ : State} {base spec spec' : Specification}
  {d : DecompositionId} {k n m event : Diagram.NodeId} {hosts before after : List Diagram.NodeId}
  {x y : Net.NodeId} {f : FinishedNet} {allowed : Action → Prop}

/-! ### Started timers -/

/-- A node goes on to start a timer while actions are for old nodes, and none for it. -/
theorem Forks.changes (forks : Forks d base spec x) (h : Changes d allowed spec spec')
    (wf : spec.WellFormed)
    (spares : ∀ a, allowed a → ∀ z ∈ a.actor?, z ≠ x ∧ z ∈ (base.decomposition d).nodes) :
    Forks d base spec' x := by
  obtain ⟨y, new, joined, runs⟩ := forks
  have hy := (joined.mem wf).2
  have joined' : Joins spec' d x y := by
    refine h.keep wf (P := fun spec => Joins spec d x y)
      (fun wf change => change.joins wf (by simp [Action.actor?]))
      (fun isAllowed wf change => change.joins wf fun z actor => ?_) joined
    obtain ⟨ne, old⟩ := spares _ isAllowed z actor
    exact ⟨ne, fun same => new (same ▸ old)⟩
  refine ⟨y, new, joined', ?_⟩
  unfold RunsOnExecuting
  rw [(h.evolved hy).2]
  exact runs

/-! ### One activity -/

/-- A node that splits exclusively does so after the turn of an activity, unless it starts a
timer of the activity. -/
theorem HostActs.exclusive {forked : Net.NodeId → Prop}
    (changes : Changes scope.net (HostActs job k scope base forked) spec spec')
    (wf : spec.WellFormed) (hx : x ∈ (spec.decomposition scope.net).nodes)
    (split : spec.split? x = some .xor) : spec'.split? x = some .xor ∨ forked x := by
  by_cases isForked : forked x
  · exact .inr isForked
  · refine .inl (changes.exclusive wf hx (fun act routes parallel => ?_) split)
    exact isForked (routes.parallel x parallel)

theorem HostRouted.exclusive_or_starts (turn : HostRouted job n scope scope' s t)
    (wf : s.spec.WellFormed) (mapped : Mapped job s.spec scope) (other : HasOther job n)
    (here : scope.map.find? n = some x) :
    t.spec.split? x = some .xor ∨ StartsTimer job n scope s.spec t.spec x := by
  obtain ⟨u, first, split, second⟩ := turn.exclusive other x here
  have wfu := first.steps.wellFormed wf
  exact HostActs.exclusive (second.changes wfu) wfu (first.mem (mapped.mem here)) split

/-- Whether a node splits exclusively, or starts a timer that is not in `base`. -/
def Splits (d : DecompositionId) (timed : Prop) (base spec : Specification) (x : Net.NodeId) :
    Prop :=
  spec.split? x = some .xor ∨ timed ∧ Forks d base spec x

section
variable {timed : Prop} {activity : Diagram.Activity}
  (isActivity : (job.diagram.node n).kind.activity? = some activity) (other : HasOther job n)
include isActivity other

theorem HostRouted.splits (turn : HostRouted job k scope scope' s t) (isHost : IsHost job k)
    (wf : s.spec.WellFormed) (mapped : Mapped job s.spec scope)
    (here : scope.map.find? n = some x)
    (old : ∀ z ∈ (base.decomposition scope.net).nodes, z ∈ (s.spec.decomposition scope.net).nodes)
    (own : ∀ z, scope.map.find? k = some z → z ∈ (base.decomposition scope.net).nodes)
    (timers : HasTimer job k → timed) (splits : Splits scope.net timed base s.spec x) :
    Splits scope.net timed base t.spec x := by
  have starts : StartsTimer job k scope s.spec t.spec x → Splits scope.net timed base t.spec x :=
    fun started => .inr ⟨timers started.1, started.2.since old⟩
  by_cases same : k = n
  · subst same
    exact (turn.exclusive_or_starts wf mapped other here).elim .inl starts
  · rcases splits with split | ⟨isTimed, forks⟩
    · exact (HostActs.exclusive (turn.routed.rewired.changes wf) wf (mapped.mem here) split).elim
        .inl starts
    · refine .inr ⟨isTimed, forks.changes (turn.routed.rewired.changes wf) wf
        fun act routes z actor => ?_⟩
      have found := routes.actor z actor
      refine ⟨?_, own z found⟩
      rintro rfl
      obtain ⟨_, isActivity', _⟩ := isHost
      exact same (mapped.activity_unique isActivity here found isActivity')

theorem HostsRouted.splits (h : HostsRouted job hosts scope s scope' t)
    (areHosts : ∀ k ∈ hosts, IsHost job k) (wf : s.spec.WellFormed)
    (mapped : Mapped job s.spec scope) (here : scope.map.find? n = some x)
    (old : ∀ z ∈ (base.decomposition scope.net).nodes, z ∈ (s.spec.decomposition scope.net).nodes)
    (own : ∀ k ∈ hosts, ∀ z, scope.map.find? k = some z → z ∈ (base.decomposition scope.net).nodes)
    (timers : ∀ k ∈ hosts, HasTimer job k → timed)
    (splits : Splits scope.net timed base s.spec x) : Splits scope.net timed base t.spec x := by
  induction h with
  | nil => exact splits
  | @cons k rest scope scope₁ scope₂ s t u first _ ih =>
    have routed := first.routed
    have kept : ∀ {m}, isTimer job m = false → scope₁.map.find? m = scope.map.find? m :=
      routed.same_of_plain fun _ both => both.1
    have once := first.splits isActivity other (areHosts k List.mem_cons_self) wf mapped here old
      (own k List.mem_cons_self) (timers k List.mem_cons_self) splits
    rw [← routed.net] at once old own ⊢
    refine ih (fun m hm => areHosts m (List.mem_cons_of_mem _ hm))
      (routed.rewired.steps.wellFormed wf) routed.mapped ?_ ?_ (fun m hm z found => ?_)
      (fun m hm => timers m (List.mem_cons_of_mem _ hm)) once
    · rw [kept (not_timer_of_activity isActivity)]
      exact here
    · intro z hz
      have before := old z hz
      rw [routed.net] at before ⊢
      exact routed.rewired.mem before
    · obtain ⟨_, isActivity', _⟩ := areHosts m (List.mem_cons_of_mem _ hm)
      rw [kept (not_timer_of_activity isActivity')] at found
      exact own m (List.mem_cons_of_mem _ hm) z found

end

/-- The turn of an activity makes its task split exclusively, and later turns keep it so. -/
theorem Turn.splits {later : List Diagram.NodeId} {scope₁ scope₂ : Scope}
    (turn : Turn job d n later scope₁ scope₂ scope' s₁ s₂ t) (other : HasOther job n)
    (here : scope'.map.find? n = some x) :
    Splits d (∃ m ∈ n :: later, HasTimer job m) s₁.spec t.spec x := by
  have ⟨_, ⟨activity, isActivity, _⟩, _⟩ := other
  have plain : isTimer job n = false := not_timer_of_activity isActivity
  have here₂ : scope₂.map.find? n = some x := (turn.same plain).2 ▸ here
  have here₁ : scope₁.map.find? n = some x := (turn.same plain).1 ▸ here₂
  have first : Splits d (∃ m ∈ n :: later, HasTimer job m) s₁.spec s₂.spec x := by
    rcases turn.routed.exclusive_or_starts turn.wf turn.mapped other here₁ with split | starts
    · exact .inl split
    · exact .inr ⟨⟨n, List.mem_cons_self, starts.1⟩, turn.net ▸ starts.2⟩
  rw [← turn.net₂] at first ⊢
  apply turn.others.splits isActivity other turn.areHosts turn.wf₂ turn.mapped₂ here₂
  · intro z hz
    rw [turn.net₂, ← turn.net] at hz ⊢
    exact turn.routed.routed.rewired.mem hz
  · intro k hk z found
    obtain ⟨_, isActivity', _⟩ := turn.areHosts k hk
    rw [(turn.same (not_timer_of_activity isActivity')).1] at found
    rw [turn.net₂, ← turn.net]
    exact turn.mapped.mem found
  · exact fun k hk timer => ⟨k, List.mem_cons_of_mem _ hk, timer⟩
  · exact first

/-- Self loops of other activities do not change the split. -/
theorem Looped.splits {timed : Prop} {activity : Diagram.Activity}
    (looped : Looped job scope s t) (wf : s.spec.WellFormed) (mapped : Mapped job s.spec scope)
    (isActivity : (job.diagram.node n).kind.activity? = some activity) (once : ¬Loops job n)
    (here : scope.map.find? n = some x)
    (own : ∀ z, HasLoop job scope.map z → z ∈ (base.decomposition scope.net).nodes)
    (splits : Splits scope.net timed base s.spec x) : Splits scope.net timed base t.spec x := by
  have changes := looped.changes
  rcases splits with split | ⟨isTimed, forks⟩
  · exact .inl (changes.exclusive wf (mapped.mem here)
      (fun act routes parallel => routes.parallel x parallel) split)
  · refine .inr ⟨isTimed, forks.changes changes wf fun act routes z actor => ?_⟩
    have isLoop := routes.actor z actor
    refine ⟨?_, own z isLoop⟩
    rintro rfl
    obtain ⟨m, found, loops⟩ := isLoop
    have ⟨_, isActivity', _⟩ := loops
    cases mapped.activity_unique isActivity here found isActivity'
    exact once loops

/-! ### Finished nets -/

/-- Activities with events other than timers split exclusively, or start a timer that is their own
or that of a later activity. -/
def HostsSplit (job : Job) (spec : Specification) (f : FinishedNet) : Prop :=
  ∀ before n after x, job.diagram.children f.container = before ++ n :: after →
    f.scope.map.find? n = some x → HasOther job n →
    x ∈ (spec.decomposition f.scope.net).nodes ∧ (spec.split? x = some .xor ∨
      ¬Loops job n ∧ (∃ m ∈ n :: after, HasTimer job m) ∧
        ∃ y, Joins spec f.scope.net x y ∧ spec.RunsOnExecuting y)

theorem hostsSplit_local (job : Job) : Local (HostsSplit job) := by
  intro s t f wf _ sameNodes sameEdges details all before n after x order here other
  obtain ⟨hx, splits⟩ := all before n after x order here other
  rw [sameNodes.nodes, details.split hx]
  refine ⟨hx, splits.imp_right ?_⟩
  rintro ⟨once, timed, y, joined, runs⟩
  refine ⟨once, timed, y, sameEdges.joins.mpr joined, ?_⟩
  exact (details.runsOnExecuting (joined.mem wf).2).mpr runs

theorem Course.hostsSplit
    (course : Course job container scope scope' terminations s s₁ s₂ s₃ t) :
    HostsSplit job t.spec { container, scope := scope' } := by
  intro before n after x order here other
  have ⟨event, ⟨activity, isActivity, member⟩, _⟩ := other
  have plain : isTimer job n = false := not_timer_of_activity isActivity
  have mapped := course.routed.mapped
  have split : t.spec.split? x = s₃.spec.split? x := course.routing.split x
  rw [show ({ container, scope := scope' } : FinishedNet).scope.net = scope.net from course.net,
    course.joins, split]
  refine ⟨course.steps.grows.mem_nodes (course.laid.mapped.mem (course.same plain ▸ here)), ?_⟩
  by_cases loops : Loops job n
  · left
    have registered := course.registered.mpr ⟨Option.isSome_of_eq_some here, loops⟩
    exact (course.looped.repeats n registered x here).2
  · obtain ⟨scope₁, scope₂, t₁, t₂, turn, _⟩ :=
      course.turn order ⟨activity, isActivity, List.ne_nil_of_mem member⟩
    have splits := turn.splits other here
    rw [← course.net] at splits ⊢
    refine (course.looped.splits course.wf₂ mapped isActivity loops here ?_ splits).imp_right ?_
    · rintro z ⟨m, found, looping⟩
      have same := turn.same (not_timer_of_loops looping)
      rw [same.2, same.1] at found
      rw [course.net, ← turn.net]
      exact turn.mapped.mem found
    · rintro ⟨⟨m, hm, timer⟩, y, _, joined, runs⟩
      refine ⟨loops, ⟨m, ?_, timer⟩, y, joined, ?_⟩
      · rcases List.mem_cons.mp hm with rfl | later
        · exact List.mem_cons_self
        · exact List.mem_cons_of_mem _ (List.mem_filter.mp later).1
      · unfold RunsOnExecuting
        rw [course.routing.timer]
        exact runs

theorem compile_hostsSplit (h : compile job index = .ok s) :
    Compiled (HostsSplit job) (initialState job index.toNat) s :=
  compile_compiled (hostsSplit_local job) (finishes_of_course Course.hostsSplit) h

/-- The task of an activity with events other than timers splits exclusively, unless it starts a
timer, of its own or of an activity that comes later among the children. With a self loop it always
splits exclusively. -/
theorem hosts_split_exclusively (h : compile job index = .ok s) (hf : f ∈ s.finished)
    (order : job.diagram.children f.container = before ++ n :: after)
    (here : f.scope.map.find? n = some x) (other : HasOther job n) :
    s.spec.split? x = some .xor ∨ ¬Loops job n ∧ (∃ m ∈ n :: after, HasTimer job m) ∧
      ∃ y, Joins s.spec f.scope.net x y ∧ s.spec.RunsOnExecuting y :=
  (((compile_hostsSplit h).finished f hf).2 before n after x order here other).2

/-- A task with a timer, before a task with a message event. -/
def notified : Job where
  diagram := sketch
    [.startEvent, .task { attached := [⟨4⟩] } {}, .task { attached := [⟨5⟩] } {}, .endEvent .plain,
      .intermediate (.timer "" "") (some ⟨1⟩), .intermediate .message (some ⟨2⟩)]
    [(0, 1), (1, 2), (2, 3), (4, 3)]

def notifiedNet : FinishedNet where
  container := .pool 0
  scope := {
    net := ⟨0⟩
    map := [(⟨0⟩, ⟨0⟩), (⟨1⟩, ⟨1⟩), (⟨2⟩, ⟨2⟩), (⟨3⟩, ⟨3⟩), (⟨4⟩, ⟨4⟩)]
    hosts := [⟨1⟩, ⟨2⟩] }

/-- The timer of the task before does not matter. -/
theorem hosts_split_exclusively_notified : ∃ s, compile notified 0 = .ok s ∧
    s.spec.split? ⟨2⟩ = some .xor := by
  obtain ⟨s, run, checked⟩ := exists_result notified 0
    (fun s => decide (s.finished = [notifiedNet])) (by decide +kernel)
  have member : notifiedNet ∈ s.finished := by
    rw [of_decide_eq_true checked]
    exact List.mem_singleton_self _
  have untimed : ∀ m ∈ [⟨2⟩, ⟨3⟩, ⟨4⟩, ⟨5⟩], ¬HasTimer notified m := by
    rintro m hm ⟨event, ⟨activity, isActivity, attached⟩, timed⟩
    have none : ∀ m ∈ [⟨2⟩, ⟨3⟩, ⟨4⟩, ⟨5⟩], ∀ activity ∈
        (notified.diagram.node m).kind.activity?, ∀ event ∈ activity.attached,
        isTimer notified event = false := by decide
    rw [none m hm activity isActivity event attached] at timed
    cases timed
  have order : notified.diagram.children notifiedNet.container =
      [⟨0⟩, ⟨1⟩] ++ ⟨2⟩ :: [⟨3⟩, ⟨4⟩, ⟨5⟩] := by decide
  have split := hosts_split_exclusively run member order rfl
    ⟨⟨5⟩, ⟨_, rfl, List.mem_singleton_self _⟩, rfl⟩
  refine ⟨s, run, split.resolve_right ?_⟩
  rintro ⟨_, ⟨m, hm, timer⟩, _⟩
  exact untimed m hm timer

/-- A task with a message event, before a task with a timer. -/
def forked : Job where
  diagram := sketch
    [.startEvent, .task { attached := [⟨4⟩] } {}, .task { attached := [⟨5⟩] } {}, .endEvent .plain,
      .intermediate .message (some ⟨1⟩), .intermediate (.timer "" "") (some ⟨2⟩)]
    [(0, 1), (1, 2), (2, 3), (5, 3)]

def forkedNet : FinishedNet where
  container := .pool 0
  scope := {
    net := ⟨0⟩
    map := [(⟨0⟩, ⟨0⟩), (⟨1⟩, ⟨1⟩), (⟨2⟩, ⟨2⟩), (⟨3⟩, ⟨3⟩), (⟨5⟩, ⟨4⟩)]
    hosts := [⟨1⟩, ⟨2⟩] }

/-- The timer of the next task may make a task with a message event split in parallel. -/
theorem host_split_in_parallel : ¬∀ job index s, compile job index = .ok s → ∀ f ∈ s.finished,
    ∀ n ∈ job.diagram.children f.container, ∀ x, f.scope.map.find? n = some x →
      HasOther job n → s.spec.split? x = some .xor := by
  intro all
  obtain ⟨s, run, checked⟩ := exists_result forked 0
    (fun s => decide (s.finished = [forkedNet] ∧ s.spec.split? ⟨1⟩ = some .and))
    (by decide +kernel)
  obtain ⟨finished, parallel⟩ := of_decide_eq_true checked
  have member : forkedNet ∈ s.finished := by
    rw [finished]
    exact List.mem_singleton_self _
  have split := all forked 0 s run forkedNet member ⟨1⟩ (by decide) ⟨1⟩ rfl
    ⟨⟨4⟩, ⟨_, rfl, List.mem_singleton_self _⟩, rfl⟩
  rw [parallel] at split
  cases split

end ProcessNets.Compile
