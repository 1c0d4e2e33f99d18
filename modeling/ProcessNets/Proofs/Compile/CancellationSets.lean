import Mathlib.Data.List.Pairwise
import ProcessNets.Proofs.Compile.Attendances
import ProcessNets.Proofs.Compile.Finishing

/-!
# Cancellation sets

Unless a container lists a child twice, every task of its net cancels exactly what it is meant to,
and nothing twice: the task of a terminate event cancels the rest of its net, the task of an
activity the timers on its boundary, and each timer the activity and its other timers. All other
tasks cancel nothing.
-/

namespace ProcessNets.Compile

open Net Specification

variable {E : Fault → Prop} {job : Job} {index : Int} {container : Diagram.Container}
  {scope scope' : Scope} {terminations : List Diagram.NodeId} {s t s₁ s₂ s₃ : State}
  {spec spec' : Specification} {f : FinishedNet} {as : List Attendance} {a b : Attendance}
  {n m : Diagram.NodeId} {x y z : Net.NodeId}

/-! ### What is meant -/

/-- The activities of a finished net and their timers. Each timer on the boundary of an activity has
a task of its own in the net, which is the counterpart of no other node. -/
structure Attends (job : Job) (spec : Specification) (f : FinishedNet) (as : List Attendance) :
    Prop where
  hosts : as.map (·.host) =
    (job.diagram.children f.container).filter fun n => decide (IsHost job n)
  task : ∀ a ∈ as, f.scope.map.find? a.host = some a.task
  timers : ∀ a ∈ as, a.timers.map (·.1) = timersOf job a.host
  tasks : ∀ a ∈ as, ∀ y ∈ a.tasks, y ∈ (spec.decomposition f.scope.net).nodes ∧
    spec.RunsOnExecuting y
  distinct : (as.flatMap Attendance.tasks).Nodup
  /-- A timer has one of its tasks as counterpart, even if it is attached more than once. -/
  registered : ∀ a ∈ as, ∀ event ∈ timersOf job a.host, ∃ b ∈ as, ∃ y,
    (event, y) ∈ b.timers ∧ f.scope.map.find? event = some y
  own : ∀ a ∈ as, ∀ p ∈ a.timers, ∀ n, f.scope.map.find? n = some p.2 → n = p.1

/-- The node is the counterpart of a terminate event of the container. -/
def Terminating (job : Job) (f : FinishedNet) (x : Net.NodeId) : Prop :=
  ∃ n ∈ job.diagram.children f.container, (job.diagram.node n).kind = .endEvent .terminate ∧
    f.scope.map.find? n = some x

/-- What each node of a finished net cancels. -/
structure CancelsExactly (job : Job) (spec : Specification) (f : FinishedNet)
    (as : List Attendance) : Prop where
  nodup : ∀ x ∈ (spec.decomposition f.scope.net).nodes, (spec.cancels x).Nodup
  terminating : ∀ n ∈ job.diagram.children f.container,
    (job.diagram.node n).kind = .endEvent .terminate → (f.scope.map.find? n).isSome
  /-- A terminate event cancels the rest of the net, other than the input and output conditions. -/
  terminate : ∀ x, Terminating job f x → ∀ z, z ∈ spec.cancels x ↔
    z ∈ (spec.decomposition f.scope.net).nodes ∧ z ≠ x ∧
      ∀ side, (spec.decomposition f.scope.net).terminal side ≠ some z
  host : ∀ a ∈ as, ∀ z, z ∈ spec.cancels a.task ↔ z ∈ a.tasks
  timer : ∀ a ∈ as, ∀ x ∈ a.tasks, ∀ z, z ∈ spec.cancels x ↔ z = a.task ∨ z ∈ a.tasks ∧ z ≠ x
  other : ∀ x ∈ (spec.decomposition f.scope.net).nodes, ¬Terminating job f x →
    (∀ a ∈ as, x ≠ a.task ∧ x ∉ a.tasks) → spec.cancels x = []

/-- The cancellation sets of a finished net are the intended ones. -/
def CancelsAsIntended (job : Job) (spec : Specification) (f : FinishedNet) : Prop :=
  (∀ n x, f.scope.map.find? n = some x → x ∈ (spec.decomposition f.scope.net).nodes) ∧
    ∃ as, Attends job spec f as ∧ CancelsExactly job spec f as

/-- Nets with the same nodes and details have the same cancellation sets. -/
theorem cancelsAsIntended_local (job : Job) : Local fun spec f =>
    (job.diagram.children f.container).Nodup → CancelsAsIntended job spec f := by
  intro s t f _ _ nodes _ details intended distinct
  obtain ⟨mem, as, attends, exact⟩ := intended distinct
  have same : ∀ x ∈ (s.decomposition f.scope.net).nodes, t.cancels x = s.cancels x :=
    fun x hx => cancels_of_control (details.node x hx)
  unfold CancelsAsIntended
  rw [nodes.nodes]
  refine ⟨mem, as, ⟨attends.hosts, attends.task, attends.timers, fun a ha y hy => ?_,
    attends.distinct, attends.registered, attends.own⟩, ?_⟩
  · obtain ⟨listed, runs⟩ := attends.tasks a ha y hy
    rw [nodes.nodes]
    exact ⟨listed, (details.runsOnExecuting listed).mpr runs⟩
  · constructor
    · intro x hx
      rw [nodes.nodes] at hx
      rw [same x hx]
      exact exact.nodup x hx
    · exact exact.terminating
    · rintro x ⟨n, child, kind, here⟩ z
      rw [same x (mem n x here), nodes.nodes, exact.terminate x ⟨n, child, kind, here⟩]
      simp only [nodes.terminal]
    · intro a ha z
      rw [same a.task (mem _ _ (attends.task a ha))]
      exact exact.host a ha z
    · intro a ha x hx z
      rw [same x (attends.tasks a ha x hx).1]
      exact exact.timer a ha x hx z
    · intro x hx
      rw [nodes.nodes] at hx
      rw [same x hx]
      exact exact.other x hx

/-- Each node of a finished net cancels nodes of this net only. -/
def CancelsInside (spec : Specification) (f : FinishedNet) : Prop :=
  ∀ x ∈ (spec.decomposition f.scope.net).nodes, ∀ z ∈ spec.cancels x,
    z ∈ (spec.decomposition f.scope.net).nodes

theorem cancelsInside_local : Local CancelsInside := by
  intro s t f _ _ nodes _ details inside x hx z hz
  rw [nodes.nodes] at hx ⊢
  rw [cancels_of_control (details.node x hx)] at hz
  exact inside x hx z hz

/-! ### Terminate events -/

theorem ensures_linkNode_terminations {numbering : Numbering} :
    Ensures (fun _ => True) (linkNode job (scope, numbering) (n, x)) s fun state _ =>
      ∀ m, m ∈ state.1.terminations ↔ m ∈ scope.terminations ∨
        m = n ∧ (job.diagram.node n).kind = .endEvent .terminate := by
  unfold linkNode
  dsimp only
  split
  · rename_i kind
    refine (routine_linkToOutput (R := Minor fun _ _ => False) s).seq fun _ t _ m => ?_
    simp [kind]
  · rename_i kind
    refine (routine_linkToOutput (R := Minor fun _ _ => False) s).seq fun _ t _ m => ?_
    simp [kind]
  · rename_i other
    refine (routine_linkFlows (R := Minor fun _ _ => False) s).seq fun _ t _ m => ?_
    exact ⟨.inl, fun noted => noted.resolve_right fun both => other both.2⟩

theorem ensures_linkAll_terminations :
    Ensures (fun _ => True) (linkAll job scope) s fun linked _ =>
      ∀ m, m ∈ linked.terminations ↔ m ∈ scope.terminations ∨
        m ∈ scope.map.keys ∧ (job.diagram.node m).kind = .endEvent .terminate := by
  unfold linkAll
  refine (ensures_foldlM_done (fun (done : NodeMap) state _ =>
    ∀ m, m ∈ state.1.terminations ↔ m ∈ scope.terminations ∨
      m ∈ done.keys ∧ (job.diagram.node m).kind = .endEvent .terminate) ?_
        (by simp [NodeMap.keys])).seq ?_
  · rintro done ⟨n, x⟩ rest ⟨scope₁, numbering⟩ t _ noted
    refine ensures_linkNode_terminations.mono fun state u more m => ?_
    rw [more, noted]
    simp only [NodeMap.keys, List.map_append, List.map_cons, List.map_nil, List.mem_append,
      List.mem_singleton]
    constructor
    · rintro ((before | ⟨earlier, kind⟩) | ⟨rfl, kind⟩)
      · exact .inl before
      · exact .inr ⟨.inl earlier, kind⟩
      · exact .inr ⟨.inr rfl, kind⟩
    · rintro (before | ⟨earlier | rfl, kind⟩)
      · exact .inl (.inl before)
      · exact .inl (.inr ⟨earlier, kind⟩)
      · exact .inr ⟨rfl, kind⟩
  · exact fun state t noted => noted

/-- Each task of a terminate event cancels the rest of the net, as far as it is inside. -/
theorem ensures_terminateAll_exact (mapped : Mapped job s.spec scope)
    (ends : Terminates job scope) : Ensures E (terminateAll scope) s fun _ t =>
      Cancelling (fun x z => ∃ n ∈ scope.terminations, scope.map.find? n = some x ∧ z ≠ x ∧
        z ∈ (s.spec.decomposition scope.net).nodes ∧ (s.spec.node z).kind.isBoundary = false)
        s.spec t.spec := by
  unfold terminateAll
  refine ensures_cancelling_forM State.spec _ fun n member t same => ?_
  obtain ⟨isMapped, kind⟩ := ends n member
  obtain ⟨x, here⟩ := Option.isSome_iff_exists.mp isMapped
  have stands := mapped.stands here
  rw [kind] at stands
  rw [here]
  apply ensures_edit
  refine (Edit.ensures_cancelAll_exact (by rwa [task?_isSome_of_skeleton same])).mono ?_
  intro _ u cancelling
  refine cancelling.congr fun y z => ?_
  rw [nodes_of_skeleton same, isBoundary_of_skeleton same]
  constructor
  · rintro ⟨rfl, rest⟩
    exact ⟨rfl, rest⟩
  · rintro ⟨found, rest⟩
    cases found
    exact ⟨rfl, rest⟩

/-! ### Courses -/

theorem Attendance.eq_of_task (distinct : (as.flatMap Attendance.tasks).Nodup) (ha : a ∈ as)
    (hb : b ∈ as) (mine : y ∈ a.tasks) (theirs : y ∈ b.tasks) : a = b := by
  by_contra different
  have symm : Std.Symm (Function.onFun List.Disjoint Attendance.tasks) :=
    ⟨fun _ _ disjoint _ mine theirs => disjoint theirs mine⟩
  have apart := (List.nodup_flatMap.mp distinct).2.forall ha hb different
  exact apart mine theirs

section
variable (course : Course job container scope scope' terminations s s₁ s₂ s₃ t)
include course

theorem Course.mem_terminations : n ∈ terminations ↔
    (scope'.map.find? n).isSome ∧ (job.diagram.node n).kind = .endEvent .terminate := by
  have noted := ensures_linkAll_terminations.of_ok course.stages.link n
  have listed : n ∈ scope.map.keys ↔ (scope.map.find? n).isSome := by
    rw [Option.isSome_iff_exists, NodeMap.keys, List.mem_map]
    constructor
    · rintro ⟨entry, member, rfl⟩
      exact ⟨entry.2, (NodeMap.mem_iff_find? course.laid.mapped.distinct).mp member⟩
    · rintro ⟨y, found⟩
      exact ⟨(n, y), (NodeMap.mem_iff_find? course.laid.mapped.distinct).mpr found, rfl⟩
  rw [course.laid.terminations, listed] at noted
  refine noted.trans ⟨fun both => ?_, fun both => .inr ?_⟩
  · obtain ⟨isMapped, kind⟩ := both.resolve_left (by simp)
    rw [course.same (not_timer_of_early (.inr kind))]
    exact ⟨isMapped, kind⟩
  · obtain ⟨isMapped, kind⟩ := both
    rw [course.same (not_timer_of_early (.inr kind))] at isMapped
    exact ⟨isMapped, kind⟩

theorem Course.terminating (kind : (job.diagram.node n).kind = .endEvent .terminate)
    (here : scope'.map.find? n = some x) : Terminating job { container, scope := scope' } x := by
  have before := course.same (not_timer_of_early (.inr kind)) ▸ here
  exact ⟨n, course.laid.keys n (Option.isSome_of_eq_some before), kind, here⟩

/-- What is cancelled in the end: timers and their hosts cancel each other, and terminate events
everything. -/
theorem Course.adds
    (attended : Attended job scope.hosts { scope with terminations } scope' s₁ s₂ as) :
    Adds (fun x z => (∃ a ∈ as, Mutual a.task a.tasks x z) ∨
      Terminating job { container, scope := scope' } x ∧
        z ∈ (t.spec.decomposition scope.net).nodes ∧ z ≠ x ∧
          ∀ side, (t.spec.decomposition scope.net).terminal side ≠ some z) s.spec t.spec := by
  have linking : Routine (Minor fun _ _ => False) s s₁ := routine_linkAll.of_run course.stages.link
  have looping : Routine (Minor fun _ _ => False) s₂ s₃ := routine_loopAll.of_run course.stages.loop
  have noted : scope'.terminations = terminations := course.routed.terminations
  have ends : Terminates job scope' := by
    intro n member
    rw [noted] at member
    exact course.mem_terminations.mp member
  have last := (ensures_terminateAll_exact (E := fun _ => False)
    (course.routed.mapped.steps course.looped.steps) ends).of_ok course.stages.terminate
  rw [course.net, noted] at last
  refine (((attended.adds.after_minor linking.change).then_minor looping.change).trans
    last.toAdds).congr fun x z => or_congr_right ?_
  rw [nodes_of_skeleton last.skeleton]
  have inside : ∀ hz : z ∈ (s₃.spec.decomposition scope.net).nodes,
      (s₃.spec.node z).kind.isBoundary = false ↔
        ∀ side, (t.spec.decomposition scope.net).terminal side ≠ some z := by
    intro hz
    rw [← isBoundary_of_skeleton last.skeleton]
    apply course.wf.isBoundary_iff
    rwa [nodes_of_skeleton last.skeleton]
  constructor
  · rintro ⟨n, member, found, other, listed, isInside⟩
    have kind := (course.mem_terminations.mp member).2
    exact ⟨course.terminating kind found, listed, other, (inside listed).mp isInside⟩
  · rintro ⟨⟨n, _, kind, found⟩, listed, other, isInside⟩
    exact ⟨n, course.mem_terminations.mpr ⟨Option.isSome_of_eq_some found, kind⟩, found, other,
      listed, (inside listed).mpr isInside⟩

variable (attended : Attended job scope.hosts { scope with terminations } scope' s₁ s₂ as)
include attended

theorem Course.host_plain (ha : a ∈ as) : ∃ activity,
    (job.diagram.node a.host).kind.activity? = some activity := by
  have host : a.host ∈ scope.hosts := attended.hosts ▸ List.mem_map_of_mem ha
  obtain ⟨activity, isActivity, _⟩ := course.laid.isHost host
  exact ⟨activity, isActivity⟩

theorem Course.host_task (ha : a ∈ as) : scope'.map.find? a.host = some a.task := by
  obtain ⟨activity, isActivity⟩ := course.host_plain attended ha
  rw [course.same (not_timer_of_activity isActivity)]
  exact attended.task a ha

theorem Course.not_mem_tasks (plain : isTimer job n = false) (here : scope'.map.find? n = some x)
    (ha : a ∈ as) : x ∉ a.tasks := by
  intro isTask
  rw [course.same plain] at here
  exact (attended.tasks a ha x isTask).new (course.mapped₁.mem here)

theorem Course.attends : Attends job t.spec { container, scope := scope' } as where
  hosts := attended.hosts.trans course.laid.hosts
  task a ha := course.host_task attended ha
  timers := attended.timers
  tasks a ha y hy := by
    have task := attended.tasks a ha y hy
    have mem : y ∈ (s₂.spec.decomposition scope'.net).nodes := course.net ▸ task.mem
    obtain ⟨mem₃, timer⟩ := course.looped.changes.evolved mem
    constructor
    · show y ∈ (t.spec.decomposition scope'.net).nodes
      rwa [nodes_of_skeleton course.tuned.skeleton]
    · unfold RunsOnExecuting
      rw [course.routing.timer y, timer]
      exact task.runs
  distinct := attended.distinct
  registered := attended.registered
  own a ha p hp n here := by
    have mine : p.2 ∈ a.tasks := List.mem_map_of_mem hp
    by_cases timed : isTimer job n = true ∧ ∃ k ∈ scope.hosts, Attached job k n
    · obtain ⟨isTimed, k, host, attached⟩ := timed
      obtain ⟨c, hc, rfl⟩ := List.mem_map.mp (attended.hosts ▸ host)
      obtain ⟨b, hb, y, listed, found⟩ :=
        attended.registered c hc n (mem_timersOf.mpr ⟨attached, isTimed⟩)
      cases found.symm.trans here
      cases Attendance.eq_of_task attended.distinct ha hb mine
        (List.mem_map_of_mem (f := (·.2)) listed)
      have once := (List.nodup_flatMap.mp attended.distinct).1 a ha
      exact congrArg Prod.fst (List.inj_on_of_nodup_map once listed hp rfl)
    · have before : scope.map.find? n = some p.2 := (course.routed.same n timed).symm.trans here
      exact absurd (course.mapped₁.mem before) (attended.tasks a ha _ mine).new

theorem Course.not_terminating (ha : a ∈ as) :
    ¬Terminating job { container, scope := scope' } a.task ∧
      ∀ x ∈ a.tasks, ¬Terminating job { container, scope := scope' } x := by
  constructor
  · rintro ⟨n, _, kind, here⟩
    obtain ⟨activity, isActivity⟩ := course.host_plain attended ha
    rcases course.mapped.apart here (course.host_task attended ha) with same | shares | shares
    · rw [← same, kind] at isActivity
      cases isActivity
    · rw [kind] at shares
      rcases shares with gateway | start | plain
      · cases gateway
      · cases start
      · cases plain
    · exact not_shares_of_activity isActivity shares
  · rintro x isTask ⟨n, _, kind, here⟩
    exact course.not_mem_tasks attended (not_timer_of_early (.inr kind)) here ha isTask

/-- In a mutual cancellation the task of an activity is in its own one only. -/
theorem Course.mutual_host (ha : a ∈ as) (hb : b ∈ as) :
    Mutual b.task b.tasks a.task z ↔ b.host = a.host ∧ z ∈ b.tasks := by
  obtain ⟨activity, isActivity⟩ := course.host_plain attended ha
  obtain ⟨activity', isActivity'⟩ := course.host_plain attended hb
  have here := course.host_task attended ha
  have there := course.host_task attended hb
  constructor
  · rintro (⟨same, listed⟩ | ⟨isTask, _⟩)
    · rw [← same] at there
      exact ⟨course.mapped.activity_unique isActivity here there isActivity', listed⟩
    · exact absurd isTask
        (course.not_mem_tasks attended (not_timer_of_activity isActivity) here hb)
  · rintro ⟨same, listed⟩
    rw [← same, there] at here
    exact .inl ⟨(Option.some.inj here).symm, listed⟩

/-- In a mutual cancellation the task of a timer is in its own one only. -/
theorem Course.mutual_timer (ha : a ∈ as) (hb : b ∈ as) (mine : x ∈ a.tasks) :
    Mutual b.task b.tasks x z ↔ b = a ∧ (z = a.task ∨ z ∈ a.tasks ∧ z ≠ x) := by
  constructor
  · rintro (⟨rfl, _⟩ | ⟨theirs, listed⟩)
    · obtain ⟨activity, isActivity⟩ := course.host_plain attended hb
      exact absurd mine (course.not_mem_tasks attended (not_timer_of_activity isActivity)
        (course.host_task attended hb) ha)
    · cases Attendance.eq_of_task attended.distinct ha hb mine theirs
      exact ⟨rfl, listed⟩
  · rintro ⟨rfl, listed⟩
    exact .inr ⟨mine, listed⟩

/-- What is cancelled in the end, node by node. -/
theorem Course.cancels_iff (hx : x ∈ (t.spec.decomposition scope'.net).nodes) :
    (t.spec.cancels x).Nodup ∧ ∀ z, z ∈ t.spec.cancels x ↔
      (∃ a ∈ as, Mutual a.task a.tasks x z) ∨ Terminating job { container, scope := scope' } x ∧
        z ∈ (t.spec.decomposition scope'.net).nodes ∧ z ≠ x ∧
          ∀ side, (t.spec.decomposition scope'.net).terminal side ≠ some z := by
  have adds := course.adds attended
  rw [← course.net] at adds
  exact adds.exact_of_free (course.net ▸ course.free) hx

theorem Course.mem_cancels_of_terminating
    (terminating : Terminating job { container, scope := scope' } x) : z ∈ t.spec.cancels x ↔
      z ∈ (t.spec.decomposition scope'.net).nodes ∧ z ≠ x ∧
        ∀ side, (t.spec.decomposition scope'.net).terminal side ≠ some z := by
  have ⟨n, _, _, here⟩ := terminating
  rw [(course.cancels_iff attended (course.mapped.mem here)).2]
  refine ⟨fun h => (h.resolve_left ?_).2, fun rest => .inr ⟨terminating, rest⟩⟩
  rintro ⟨a, ha, ⟨rfl, _⟩ | ⟨isTask, _⟩⟩
  · exact (course.not_terminating attended ha).1 terminating
  · exact (course.not_terminating attended ha).2 x isTask terminating

theorem Course.mem_cancels_host (distinct : (job.diagram.children container).Nodup) (ha : a ∈ as) :
    z ∈ t.spec.cancels a.task ↔ z ∈ a.tasks := by
  -- each activity has one turn
  have once : (as.map (·.host)).Nodup := by
    rw [attended.hosts, course.laid.hosts]
    exact distinct.filter _
  rw [(course.cancels_iff attended (course.mapped.mem (course.host_task attended ha))).2]
  constructor
  · rintro (⟨b, hb, clique⟩ | ⟨terminating, _⟩)
    · obtain ⟨same, listed⟩ := (course.mutual_host attended ha hb).mp clique
      cases List.inj_on_of_nodup_map once hb ha same
      exact listed
    · exact absurd terminating (course.not_terminating attended ha).1
  · intro listed
    exact .inl ⟨a, ha, (course.mutual_host attended ha ha).mpr ⟨rfl, listed⟩⟩

theorem Course.mem_cancels_timer (ha : a ∈ as) (isTask : x ∈ a.tasks) :
    z ∈ t.spec.cancels x ↔ z = a.task ∨ z ∈ a.tasks ∧ z ≠ x := by
  rw [(course.cancels_iff attended ((course.attends attended).tasks a ha x isTask).1).2]
  constructor
  · rintro (⟨b, hb, clique⟩ | ⟨terminating, _⟩)
    · exact ((course.mutual_timer attended ha hb isTask).mp clique).2
    · exact absurd terminating ((course.not_terminating attended ha).2 x isTask)
  · intro listed
    exact .inl ⟨a, ha, (course.mutual_timer attended ha ha isTask).mpr ⟨rfl, listed⟩⟩

theorem Course.cancels_eq_nil (hx : x ∈ (t.spec.decomposition scope'.net).nodes)
    (plain : ¬Terminating job { container, scope := scope' } x)
    (apart : ∀ a ∈ as, x ≠ a.task ∧ x ∉ a.tasks) : t.spec.cancels x = [] := by
  refine List.eq_nil_iff_forall_not_mem.mpr fun z hz => ?_
  rcases ((course.cancels_iff attended hx).2 z).mp hz with ⟨a, ha, clique⟩ | ⟨terminating, _⟩
  · rcases clique with ⟨same, _⟩ | ⟨isTask, _⟩
    · exact (apart a ha).1 same
    · exact (apart a ha).2 isTask
  · exact plain terminating

end

section
variable (course : Course job container scope scope' terminations s s₁ s₂ s₃ t)
include course

theorem Course.cancelsAsIntended (distinct : (job.diagram.children container).Nodup) :
    CancelsAsIntended job t.spec { container, scope := scope' } := by
  obtain ⟨as, attended⟩ := course.attended
  refine ⟨fun n x => course.mapped.mem, as, course.attends attended, ?_⟩
  exact {
    nodup x hx := (course.cancels_iff attended hx).1
    terminating n child kind := by
      show (scope'.map.find? n).isSome
      rw [course.same (not_timer_of_early (.inr kind))]
      exact course.laid.served n child (.inr ⟨_, kind⟩)
    terminate x terminating z := course.mem_cancels_of_terminating attended terminating
    host a ha z := course.mem_cancels_host attended distinct ha
    timer a ha x isTask z := course.mem_cancels_timer attended ha isTask
    other x hx plain apart := course.cancels_eq_nil attended hx plain apart }

theorem Course.cancelsInside : CancelsInside t.spec { container, scope := scope' } := by
  obtain ⟨as, attended⟩ := course.attended
  have attends := course.attends attended
  intro x hx z hz
  rcases ((course.cancels_iff attended hx).2 z).mp hz with ⟨a, ha, clique⟩ | ⟨_, listed, _⟩
  · rcases clique with ⟨_, isTimer⟩ | ⟨_, rfl | ⟨isTimer, _⟩⟩
    · exact (attends.tasks a ha z isTimer).1
    · exact course.mapped.mem (course.host_task attended ha)
    · exact (attends.tasks a ha z isTimer).1
  · exact listed

end

/-! ### Results -/

/-- In every net of a result, each task cancels what it is meant to, if no container lists a child
twice. -/
theorem cancellation_sets_exact (h : compile job index = .ok s)
    (distinct : ∀ f ∈ s.finished, (job.diagram.children f.container).Nodup) :
    (∀ d x, x ∈ (s.spec.decomposition d).nodes → ∃ f ∈ s.finished, f.scope.net = d) ∧
      ∀ f ∈ s.finished, CancelsAsIntended job s.spec f := by
  have compiled := compile_compiled (cancelsAsIntended_local job)
    (finishes_of_course Course.cancelsAsIntended) h
  exact ⟨compiled.covered, fun f hf => (compiled.finished f hf).2 (distinct f hf)⟩

/-- A task that repeats and has two timers, before a terminate event. -/
def watched : Job where
  diagram := sketch
    [.startEvent, .task { loops := true, loopCondition := "again", attached := [⟨4⟩, ⟨5⟩] } {},
      .endEvent .terminate, .task {} {}, .intermediate (.timer "" "") (some ⟨1⟩),
      .intermediate (.timer "" "") (some ⟨1⟩)]
    [(0, 1), (1, 2), (4, 3), (5, 3)]

/-- The terminate event also cancels the task before the first one, which came with the timers. -/
theorem cancellation_sets_exact_watched : ∃ s, compile watched 0 = .ok s ∧
    (∃ f ∈ s.finished, f.container = .pool 0 ∧ CancelsAsIntended watched s.spec f) ∧
    (List.range 8).map (fun i => s.spec.cancels ⟨i⟩) =
      [[], [⟨5⟩, ⟨6⟩], [⟨1⟩, ⟨3⟩, ⟨5⟩, ⟨6⟩, ⟨7⟩], [], [], [⟨1⟩, ⟨6⟩], [⟨1⟩, ⟨5⟩], []] := by
  obtain ⟨s, run, checked⟩ := exists_result watched 0
    (fun s => decide (s.finished.map (·.container) = [.pool 0] ∧
      (List.range 8).map (fun i => s.spec.cancels ⟨i⟩) =
        [[], [⟨5⟩, ⟨6⟩], [⟨1⟩, ⟨3⟩, ⟨5⟩, ⟨6⟩, ⟨7⟩], [], [], [⟨1⟩, ⟨6⟩], [⟨1⟩, ⟨5⟩], []]))
    (by decide +kernel)
  obtain ⟨containers, cancels⟩ := of_decide_eq_true checked
  have pool : ∀ f ∈ s.finished, f.container = .pool 0 := by
    intro f hf
    have container := List.mem_map_of_mem (f := (·.container)) hf
    rwa [containers, List.mem_singleton] at container
  obtain ⟨f, hf, isPool⟩ : ∃ f ∈ s.finished, f.container = .pool 0 := by
    apply List.mem_map.mp
    rw [containers]
    exact List.mem_singleton_self _
  have exact := cancellation_sets_exact run fun g hg => by
    rw [pool g hg]
    decide
  exact ⟨s, run, ⟨f, hf, isPool, exact.2 f hf⟩, cancels⟩

/-! ### Children that are listed twice -/

/-- The task of an activity cancels a task for each of its timers. -/
theorem CancelsExactly.length_cancels (attends : Attends job spec f as)
    (exact : CancelsExactly job spec f as) (ha : a ∈ as)
    (mem : a.task ∈ (spec.decomposition f.scope.net).nodes) :
    (spec.cancels a.task).length = (timersOf job a.host).length := by
  have once : a.tasks.Nodup := (List.nodup_flatMap.mp attends.distinct).1 a ha
  have same : (spec.cancels a.task).Perm a.tasks :=
    (List.perm_ext_iff_of_nodup (exact.nodup _ mem) once).mpr (exact.host a ha)
  rw [same.length_eq, ← attends.timers a ha]
  simp [Attendance.tasks]

/-- A task with a timer and a terminate event behind it, both of them listed twice. -/
def doubled : Job where
  diagram := {
    sketch [.startEvent, .task { attached := [⟨3⟩] } {}, .endEvent .terminate,
      .intermediate (.timer "" "") (some ⟨1⟩)] [(0, 1), (1, 2), (3, 2)] with
    pools := #[{ id := "P", children := [⟨0⟩, ⟨1⟩, ⟨1⟩, ⟨2⟩, ⟨2⟩, ⟨3⟩] }] }

def doubledNet : FinishedNet where
  container := .pool 0
  scope := {
    net := ⟨0⟩
    map := [(⟨0⟩, ⟨0⟩), (⟨1⟩, ⟨2⟩), (⟨2⟩, ⟨4⟩), (⟨3⟩, ⟨8⟩)]
    hosts := [⟨1⟩, ⟨1⟩]
    terminations := [⟨2⟩] }

/-- A child that is listed twice has two tasks. If it is an activity, one of them cancels the timers
of both turns; if it is a terminate event, one of them cancels nothing. -/
theorem cancellation_sets_need_distinct :
    ¬(∀ job index s, compile job index = .ok s →
      ∀ f ∈ s.finished, CancelsAsIntended job s.spec f) ∧
    ¬(∀ job index s, compile job index = .ok s → ∀ d, ∀ x ∈ (s.spec.decomposition d).nodes,
      Titled "endTerminate" s.spec x → ∀ z ∈ (s.spec.decomposition d).nodes, z ≠ x →
        (∀ side, (s.spec.decomposition d).terminal side ≠ some z) → z ∈ s.spec.cancels x) := by
  obtain ⟨s, run, checked⟩ := exists_result doubled 0
    (fun s => decide (s.finished = [doubledNet] ∧
      s.spec.cancels ⟨2⟩ = [⟨6⟩, ⟨8⟩] ∧ s.spec.cancels ⟨3⟩ = [] ∧
      ⟨1⟩ ∈ (s.spec.decomposition ⟨0⟩).nodes ∧ ⟨3⟩ ∈ (s.spec.decomposition ⟨0⟩).nodes ∧
      3 < s.spec.nodes.size ∧ (s.spec.node ⟨3⟩).id = nodeId "endTerminate" 3 ∧
      (s.spec.decomposition ⟨0⟩).inputCondition ≠ some ⟨1⟩ ∧
      (s.spec.decomposition ⟨0⟩).outputCondition ≠ some ⟨1⟩)) (by decide +kernel)
  obtain ⟨finished, both, nothing, mem₁, mem₃, stored, id, notInput, notOutput⟩ :=
    of_decide_eq_true checked
  constructor
  · intro all
    obtain ⟨mem, as, attends, exact⟩ := all doubled 0 s run doubledNet (by simp [finished])
    have hosts : as.map (·.host) = [⟨1⟩, ⟨1⟩] := attends.hosts
    obtain ⟨a, ha, host⟩ : ∃ a ∈ as, a.host = ⟨1⟩ := by
      apply List.mem_map.mp
      rw [hosts]
      exact List.mem_cons_self
    have here := attends.task a ha
    have count := exact.length_cancels attends ha (mem a.host a.task here)
    rw [host] at here count
    rw [← Option.some.inj here, both] at count
    exact absurd count (by decide)
  · intro all
    have inside : ∀ side, (s.spec.decomposition ⟨0⟩).terminal side ≠ some ⟨1⟩ := by
      intro side
      cases side
      · exact notInput
      · exact notOutput
    have listed := all doubled 0 s run ⟨0⟩ ⟨3⟩ mem₃ ⟨stored, 3, id⟩ ⟨1⟩ mem₁ (by decide) inside
    rw [nothing] at listed
    cases listed

end ProcessNets.Compile
