import ProcessNets.Proofs.Compile.Finishing
import ProcessNets.Proofs.Net.Following

/-!
# Timers that follow their host

Once an activity had its turn, whatever leads to its task leads to the tasks of its timers. This
stays so to the end, unless the events of an activity that has its turn later lead to the task or
share a timer, or the task repeats.
-/

namespace ProcessNets.Compile

open Net Specification

variable {job : Job} {index : Int} {container : Diagram.Container} {scope scope' : Scope}
  {terminations : List Diagram.NodeId} {s t u s₁ s₂ s₃ : State} {spec spec' : Specification}
  {n m event : Diagram.NodeId} {before after : List Diagram.NodeId} {x y : Net.NodeId}
  {f : FinishedNet}

/-! ### One activity -/

/-- The events of later activities do not lead to the task of the activity, and do not share its
timers. -/
def Undisturbed (job : Job) (map : NodeMap) (n : Diagram.NodeId) (x : Net.NodeId)
    (later : List Diagram.NodeId) : Prop :=
  ∀ k ∈ later, ∀ event, Attached job k event →
    (HasRoute job event → ¬LeadsTo job map event x) ∧
      (isTimer job event = true → ¬Attached job n event)

section
variable {d : DecompositionId} {later : List Diagram.NodeId} {scope₁ scope₂ : Scope}
  (turn : Turn job d n later scope₁ scope₂ scope' s₁ s₂ t)
  (here : scope'.map.find? n = some x)
  (undisturbed : Undisturbed job scope'.map n x later)
  (attached : Attached job n event) (timed : isTimer job event = true)
include turn here undisturbed attached timed

/-- The turn of the activity makes its timers follow it, and later turns spare it. -/
theorem Turn.follows : ∃ y, scope'.map.find? event = some y ∧ Follows t.spec d x y := by
  have ⟨activity, isActivity, _⟩ := attached
  have plain : isTimer job n = false := not_timer_of_activity isActivity
  have here₂ : scope₂.map.find? n = some x := (turn.same plain).2 ▸ here
  have here₁ : scope₁.map.find? n = some x := (turn.same plain).1 ▸ here₂
  obtain ⟨y, registered, _, follows⟩ := turn.routed.timers x event here₁ attached timed
  rw [turn.net] at follows
  have mapped := turn.mapped₂
  have mem := mapped.mem here₂
  refine ⟨y, ?_, turn.changes.follows turn.wf₂ (turn.net₂ ▸ mem) (fun act routes => ?_) follows⟩
  · rw [turn.after.same event]
    · exact registered
    · rintro ⟨_, k, hk, shared⟩
      exact (undisturbed k hk event shared).2 timed attached
  · constructor
    · intro z entered
      obtain ⟨k, hk, found⟩ := routes.actor z (Action.actor_of_entered entered)
      obtain ⟨_, isActivity', _⟩ := turn.areHosts k hk
      constructor
      · rintro rfl
        cases mapped.activity_unique isActivity here₂ found isActivity'
        exact (undisturbed _ hk event attached).2 timed attached
      · rintro rfl
        have untimed := mapped.not_timer isActivity' found registered
        rw [timed] at untimed
        cases untimed
    · rintro _ target rfl
      rcases routes.target _ target with ⟨k, hk, other, listed, hasRoute, m, isNext, found⟩ | new
      · refine (undisturbed k hk other listed).1 hasRoute ⟨m, isNext, ?_⟩
        rw [(turn.same (mapped.not_timer isActivity here₂ found)).2]
        exact found
      · exact new mem

end

/-! ### Self loops -/

/-- Before an activity gets its self loop, a timer goes on to follow it. Afterwards there may be a
task in front of the activity which the timer follows. -/
theorem LoopTurns.attends {done : List Diagram.NodeId} {activity : Diagram.Activity}
    (turns : LoopTurns job scope spec done spec') (wf : spec.WellFormed)
    (mapped : Mapped job spec scope)
    (isActivity : (job.diagram.node n).kind.activity? = some activity)
    (here : scope.map.find? n = some x) (registered : scope.map.find? event = some y)
    (timed : isTimer job event = true) (follows : Follows spec scope.net x y) :
    (n ∉ done → Follows spec' scope.net x y) ∧
      (done.Nodup → Attends spec spec' scope.net x y) := by
  have hx := mapped.mem here
  have apart : ∀ {k z} {activity' : Diagram.Activity}, scope.map.find? k = some z →
      (job.diagram.node k).kind.activity? = some activity' → z ≠ y := by
    rintro k z activity' found isActivity' rfl
    have plain := mapped.not_timer isActivity' found registered
    rw [timed] at plain
    cases plain
  induction turns with
  | nil => exact ⟨fun _ => follows, fun _ => follows.attends⟩
  | @snoc k done z t u earlier found loops turn ih =>
    have ⟨_, isActivity', _⟩ := loops
    have wft := earlier.changes.wellFormed wf
    have old : (spec.decomposition scope.net).nodes ⊆ (t.decomposition scope.net).nodes :=
      fun _ hz => (earlier.changes.evolved hz).1
    by_cases same : k = n
    · subst same
      cases here.symm.trans found
      refine ⟨fun new => (new (by simp)).elim, fun nodup => ?_⟩
      -- this is the turn of the activity itself, so the timer followed it up to here
      have new : k ∉ done := fun listed =>
        (List.nodup_append.mp nodup).2.2 k listed k (List.mem_singleton_self k) rfl
      exact turn.attends wft old hx (apart here isActivity).symm (ih.1 new)
    · have other : z ≠ x := by
        rintro rfl
        exact same (mapped.activity_unique isActivity here found isActivity')
      have changes : Changes scope.net (Avoids spec scope.net x y) t u := by
        have avoids : ∀ act, LoopActs (· = z) act → Avoids spec scope.net x y act := by
          intro act routes
          refine .of_others fun w isOwn => ?_
          obtain rfl : w = z := isOwn.elim (routes.actor w) fun target =>
            (routes.target w target).resolve_right fun new => new trivial
          exact ⟨other, apart found isActivity', mapped.mem found⟩
        exact turn.changes (fun _ => avoids _ (.insert .source rfl))
          (fun _ => avoids _ (.insert .target rfl)) (avoids _ (.of_first rfl rfl ⟨rfl, rfl⟩))
          (avoids _ (.exclusive rfl))
      refine ⟨fun new => ?_, fun nodup => ?_⟩
      · exact changes.follows wft (old hx) (fun _ avoids => avoids.spares)
          (ih.1 fun listed => new (List.mem_append_left _ listed))
      · exact changes.attends wft old hx (fun _ avoids => avoids)
          (ih.2 (List.nodup_append.mp nodup).1)

/-! ### Finished nets -/

/-- Whatever leads to the task `x` of an activity leads to `y`. If the activity repeats, this is
not said of its own task, nor of a task in front of it that is nothing's counterpart, but of
whatever leads to that one. -/
def StartsWith (job : Job) (scope : Scope) (spec : Specification) (n : Diagram.NodeId)
    (x y : Net.NodeId) : Prop :=
  ∀ z, Joins spec scope.net z x → Joins spec scope.net z y ∨
    Loops job n ∧ (z = x ∨ (∀ m, scope.map.find? m ≠ some z) ∧ Follows spec scope.net z y)

theorem StartsWith.of_joins (h : StartsWith job scope spec n x y)
    (same : ∀ {a b}, Joins spec' scope.net a b ↔ Joins spec scope.net a b) :
    StartsWith job scope spec' n x y := by
  intro z step
  rw [same] at step ⊢
  rcases h z step with both | ⟨loops, isOwn | ⟨new, follows⟩⟩
  · exact .inl both
  · exact .inr ⟨loops, .inl isOwn⟩
  · refine .inr ⟨loops, .inr ⟨new, fun w enters => ?_⟩⟩
    rw [same] at enters ⊢
    exact follows w enters

/-- Timers start with the activities that are not disturbed later. -/
def TimersStart (job : Job) (spec : Specification) (f : FinishedNet) : Prop :=
  ∀ before n after x event, job.diagram.children f.container = before ++ n :: after →
    f.scope.map.find? n = some x → Undisturbed job f.scope.map n x after →
    Attached job n event → isTimer job event = true →
    ∃ y, f.scope.map.find? event = some y ∧ StartsWith job f.scope spec n x y

theorem timersStart_local (job : Job) : Local (TimersStart job) := by
  intro s t f _ _ _ sameEdges _ all before n after x event order here undisturbed attached timed
  obtain ⟨y, registered, starts⟩ := all before n after x event order here undisturbed attached timed
  exact ⟨y, registered, starts.of_joins sameEdges.joins⟩

theorem Course.timersStart
    (course : Course job container scope scope' terminations s s₁ s₂ s₃ t) :
    TimersStart job t.spec { container, scope := scope' } := by
  intro before n after x event order here undisturbed attached timed
  have ⟨activity, isActivity, member⟩ := attached
  have mapped := course.routed.mapped
  obtain ⟨scope₁, scope₂, t₁, t₂, turn, _⟩ :=
    course.turn order ⟨activity, isActivity, List.ne_nil_of_mem member⟩
  obtain ⟨y, registered, follows⟩ := turn.follows here
    (fun k hk => undisturbed k (List.mem_filter.mp hk).1) attached timed
  rw [← course.net] at follows
  obtain ⟨before, after⟩ :=
    course.looped.turns.attends course.wf₂ mapped isActivity here registered timed follows
  have starts : StartsWith job scope' s₃.spec n x y := by
    intro z step
    by_cases loops : Loops job n
    · refine (after course.registered_once z step).imp_right fun fronts => ⟨loops, ?_⟩
      exact fronts.imp_right (And.imp_left fun new m found => new (mapped.mem found))
    · exact .inl (before (fun listed => loops (course.registered.mp listed).2) z step)
  refine ⟨y, registered, starts.of_joins ?_⟩
  rw [course.net, course.joins]

theorem compile_timersStart (h : compile job index = .ok s) :
    Compiled (TimersStart job) (initialState job index.toNat) s :=
  compile_compiled (timersStart_local job) (finishes_of_course Course.timersStart) h

/-- Whatever leads to the task of an activity leads to the tasks of its timers, unless events of an
activity that comes later among the children lead to the task or share a timer with it. If the
activity repeats, then there may be a task in front of its own; whatever leads to that one leads to
the timers. -/
theorem timers_follow_host (h : compile job index = .ok s) (hf : f ∈ s.finished)
    (order : job.diagram.children f.container = before ++ n :: after)
    (here : f.scope.map.find? n = some x) (undisturbed : Undisturbed job f.scope.map n x after)
    (attached : Attached job n event) (timed : isTimer job event = true) :
    ∃ y, f.scope.map.find? event = some y ∧
      ∀ z, Joins s.spec f.scope.net z x → Joins s.spec f.scope.net z y ∨
        Loops job n ∧ (z = x ∨ (∀ m, f.scope.map.find? m ≠ some z) ∧
          ∀ w, Joins s.spec f.scope.net w z → Joins s.spec f.scope.net w y) :=
  ((compile_timersStart h).finished f hf).2 before n after x event order here undisturbed attached
    timed

/-- A task with a handler of errors that leads back to the task before, which has a timer. -/
def resumed : Job where
  diagram := sketch
    [.startEvent, .task { attached := [⟨4⟩] } {}, .task { attached := [⟨5⟩] } {}, .endEvent .plain,
      .intermediate .error (some ⟨1⟩), .intermediate (.timer "" "") (some ⟨2⟩)]
    [(0, 2), (2, 1), (1, 3), (4, 2), (5, 3)]

def resumedNet : FinishedNet where
  container := .pool 0
  scope := {
    net := ⟨0⟩
    map := [(⟨0⟩, ⟨0⟩), (⟨1⟩, ⟨1⟩), (⟨2⟩, ⟨2⟩), (⟨3⟩, ⟨3⟩), (⟨5⟩, ⟨4⟩)]
    hosts := [⟨1⟩, ⟨2⟩] }

/-- The task with the timer comes later, and the task put in front of it starts both. -/
theorem timers_follow_host_resumed : ∃ s, compile resumed 0 = .ok s ∧
    Joins s.spec ⟨0⟩ ⟨5⟩ ⟨2⟩ ∧ Joins s.spec ⟨0⟩ ⟨5⟩ ⟨4⟩ := by
  obtain ⟨s, run, checked⟩ := exists_result resumed 0
    (fun s => decide (s.finished = [resumedNet] ∧ ∃ e ∈ (s.spec.decomposition ⟨0⟩).edges,
      (s.spec.edge e).source = some ⟨5⟩ ∧ (s.spec.edge e).target = some ⟨2⟩)) (by decide +kernel)
  obtain ⟨finished, started⟩ := of_decide_eq_true checked
  have member : resumedNet ∈ s.finished := by
    rw [finished]
    exact List.mem_singleton_self _
  have undisturbed : Undisturbed resumed resumedNet.scope.map ⟨2⟩ ⟨2⟩ [⟨3⟩, ⟨4⟩, ⟨5⟩] := by
    intro k hk event attached
    obtain ⟨activity, isActivity, _⟩ := attached
    have none : ∀ k ∈ [⟨3⟩, ⟨4⟩, ⟨5⟩], (resumed.diagram.node k).kind.activity? = none := by decide
    rw [none k hk] at isActivity
    cases isActivity
  have order : resumed.diagram.children resumedNet.container =
      [⟨0⟩, ⟨1⟩] ++ ⟨2⟩ :: [⟨3⟩, ⟨4⟩, ⟨5⟩] := by decide
  obtain ⟨y, registered, follows⟩ := timers_follow_host run member order rfl undisturbed
    ⟨_, rfl, List.mem_singleton_self _⟩ rfl
  cases registered
  refine ⟨s, run, started, (follows ⟨5⟩ started).resolve_right ?_⟩
  rintro ⟨⟨activity, isActivity, loops⟩, _⟩
  cases isActivity
  revert loops
  decide

/-- A task with a timer, before a task with a handler of errors that leads back to it. -/
def rejoined : Job where
  diagram := sketch
    [.startEvent, .task { attached := [⟨4⟩] } {}, .task { attached := [⟨5⟩] } {}, .endEvent .plain,
      .intermediate (.timer "" "") (some ⟨1⟩), .intermediate .error (some ⟨2⟩)]
    [(0, 1), (1, 2), (2, 3), (4, 3), (5, 1)]

def rejoinedNet : FinishedNet where
  container := .pool 0
  scope := {
    net := ⟨0⟩
    map := [(⟨0⟩, ⟨0⟩), (⟨1⟩, ⟨1⟩), (⟨2⟩, ⟨2⟩), (⟨3⟩, ⟨3⟩), (⟨4⟩, ⟨4⟩)]
    hosts := [⟨1⟩, ⟨2⟩] }

/-- A handler of errors may lead to a task without its timer. -/
theorem timer_left_behind : ¬∀ job index s, compile job index = .ok s → ∀ f ∈ s.finished,
    ∀ n ∈ job.diagram.children f.container, ∀ x, f.scope.map.find? n = some x →
      ∀ event, Attached job n event → isTimer job event = true →
        ∃ y, f.scope.map.find? event = some y ∧ ∀ z, z ≠ x →
          Joins s.spec f.scope.net z x → Joins s.spec f.scope.net z y := by
  intro all
  obtain ⟨s, run, checked⟩ := exists_result rejoined 0
    (fun s => decide (s.finished = [rejoinedNet] ∧
      (∃ e ∈ (s.spec.decomposition ⟨0⟩).edges,
        (s.spec.edge e).source = some ⟨2⟩ ∧ (s.spec.edge e).target = some ⟨1⟩) ∧
      ¬∃ e ∈ (s.spec.decomposition ⟨0⟩).edges,
        (s.spec.edge e).source = some ⟨2⟩ ∧ (s.spec.edge e).target = some ⟨4⟩))
    (by decide +kernel)
  obtain ⟨finished, handled, unstarted⟩ := of_decide_eq_true checked
  have member : rejoinedNet ∈ s.finished := by
    rw [finished]
    exact List.mem_singleton_self _
  obtain ⟨y, registered, follows⟩ := all rejoined 0 s run rejoinedNet member ⟨1⟩ (by decide) ⟨1⟩ rfl
    ⟨4⟩ ⟨_, rfl, List.mem_singleton_self _⟩ rfl
  cases registered
  exact unstarted (follows ⟨2⟩ (by decide) handled)

end ProcessNets.Compile
