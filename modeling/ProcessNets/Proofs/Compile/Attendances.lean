import ProcessNets.Proofs.Compile.Courses

/-!
# Activities and their timers

Which task each timer on the boundary of an activity got, over all activities of a net. No task
serves twice, and routing makes the task of an activity and those of its timers cancel each other,
and nothing else.
-/

namespace ProcessNets.Compile

open Net Specification

variable {E : Fault → Prop} {job : Job} {container : Diagram.Container}
  {scope scope' scope₁ : Scope} {terminations : List Diagram.NodeId}
  {s t u s₁ s₂ s₃ : State} {n m event : Diagram.NodeId} {hosts : List Diagram.NodeId}
  {x y z : Net.NodeId}

/-- The task of an activity, with a task for each timer on its boundary. -/
structure Attendance where
  host : Diagram.NodeId
  task : Net.NodeId
  timers : List (Diagram.NodeId × Net.NodeId)

def Attendance.tasks (a : Attendance) : List Net.NodeId :=
  a.timers.map (·.2)

/-- What the timers of some activities got while these had their turns. -/
structure Attended (job : Job) (hosts : List Diagram.NodeId) (scope scope' : Scope) (s t : State)
    (as : List Attendance) : Prop where
  hosts : as.map (·.host) = hosts
  task : ∀ a ∈ as, scope.map.find? a.host = some a.task
  timers : ∀ a ∈ as, a.timers.map (·.1) = timersOf job a.host
  tasks : ∀ a ∈ as, ∀ y ∈ a.tasks, TimerTask scope.net s.spec t.spec y
  distinct : (as.flatMap Attendance.tasks).Nodup
  /-- A timer has one of its tasks as counterpart, even if it is attached more than once. -/
  registered : ∀ a ∈ as, ∀ event ∈ timersOf job a.host, ∃ b ∈ as, ∃ y,
    (event, y) ∈ b.timers ∧ scope'.map.find? event = some y
  adds : Adds (fun x z => ∃ a ∈ as, Mutual a.task a.tasks x z) s.spec t.spec

theorem Attended.nil : Attended job [] scope scope s s [] where
  hosts := rfl
  task := by simp
  timers := by simp
  tasks := by simp
  distinct := List.nodup_nil
  registered := by simp
  adds := .refl (by simp)

/-- The turn of one more activity, before all others. -/
theorem Attended.cons {rest : List Diagram.NodeId} {as : List Attendance}
    (first : HostRouted job n scope scope₁ s t) (here : scope.map.find? n = some x)
    (later : Routed job (fun _ => True)
      (fun event => isTimer job event = true ∧ ∃ k ∈ rest, Attached job k event) scope₁ scope' t u)
    (areHosts : ∀ k ∈ rest, IsHost job k) (wf : t.spec.WellFormed)
    (others : Attended job rest scope₁ scope' t u as) :
    ∃ a : Attendance, Attended job (n :: rest) scope scope' s u (a :: as) := by
  obtain ⟨pairs, all, placed, _, adds⟩ := first.attended x here
  have net : scope₁.net = scope.net := first.routed.net
  have rewired := later.rewired
  rw [net] at rewired
  have placed' : TimersPlaced scope.net scope₁.map s.spec u.spec pairs := placed.rewire wf rewired
  have grown : ∀ z ∈ (s.spec.decomposition scope.net).nodes,
      z ∈ (t.spec.decomposition scope.net).nodes := fun z => first.routed.rewired.mem
  refine ⟨⟨n, x, pairs⟩, ?_, ?_, ?_, ?_, ?_, ?_, ?_⟩
  · rw [List.map_cons, others.hosts]
  · refine List.forall_mem_cons.mpr ⟨here, fun a ha => ?_⟩
    have isRest : a.host ∈ rest := others.hosts ▸ List.mem_map_of_mem ha
    obtain ⟨activity, isActivity, _⟩ := areHosts a.host isRest
    rw [← first.routed.same_of_plain (fun _ both => both.1) (not_timer_of_activity isActivity)]
    exact others.task a ha
  · exact List.forall_mem_cons.mpr ⟨all, others.timers⟩
  · refine List.forall_mem_cons.mpr ⟨fun y hy => ?_, fun a ha y hy => ?_⟩
    · obtain ⟨p, hp, rfl⟩ := List.mem_map.mp hy
      exact placed'.tasks p hp
    · have task := others.tasks a ha y hy
      rw [net] at task
      exact task.before grown
  · rw [List.flatMap_cons]
    refine List.Nodup.append placed.distinct others.distinct fun y mine theirs => ?_
    -- the tasks of the others are new after the first turn
    obtain ⟨p, hp, rfl⟩ := List.mem_map.mp mine
    obtain ⟨a, ha, hy⟩ := List.mem_flatMap.mp theirs
    have task := others.tasks a ha _ hy
    rw [net] at task
    exact task.new (placed.tasks p hp).mem
  · refine List.forall_mem_cons.mpr ⟨fun event member => ?_, fun a ha event member => ?_⟩
    · by_cases again : ∃ k ∈ rest, Attached job k event
      · obtain ⟨k, hk, attached⟩ := again
        obtain ⟨a, ha, rfl⟩ := List.mem_map.mp (others.hosts ▸ hk)
        obtain ⟨b, hb, found⟩ :=
          others.registered a ha event (mem_timersOf.mpr ⟨attached, (mem_timersOf.mp member).2⟩)
        exact ⟨b, List.mem_cons_of_mem _ hb, found⟩
      · have listed : event ∈ pairs.map (·.1) := all ▸ member
        obtain ⟨p, hp, rfl⟩ := List.mem_map.mp listed
        obtain ⟨y, hy, found⟩ := placed.registered p hp
        refine ⟨_, List.mem_cons_self, y, hy, (later.same _ fun both => again both.2).trans found⟩
    · obtain ⟨b, hb, found⟩ := others.registered a ha event member
      exact ⟨b, List.mem_cons_of_mem _ hb, found⟩
  · refine (adds.trans others.adds).congr fun x z => ?_
    simp only [List.mem_cons, exists_eq_or_imp]
    rfl

/-- All activities with events on their boundary had their turns, one after the other. -/
theorem HostsRouted.attended (h : HostsRouted job hosts scope s scope' t)
    (areHosts : ∀ n ∈ hosts, IsHost job n) (wf : s.spec.WellFormed)
    (mapped : Mapped job s.spec scope) (served : ∀ n ∈ hosts, (scope.map.find? n).isSome) :
    ∃ as, Attended job hosts scope scope' s t as := by
  induction h with
  | nil => exact ⟨[], .nil⟩
  | @cons n rest scope scope₁ scope₂ s t u first others ih =>
    have isRest : ∀ k ∈ rest, IsHost job k := fun k hk => areHosts k (List.mem_cons_of_mem _ hk)
    have wft := first.routed.rewired.steps.wellFormed wf
    obtain ⟨x, here⟩ := Option.isSome_iff_exists.mp (served n List.mem_cons_self)
    obtain ⟨as, attended⟩ := ih isRest wft first.routed.mapped fun k hk => by
      obtain ⟨activity, isActivity, _⟩ := isRest k hk
      rw [first.routed.same_of_plain (fun _ both => both.1) (not_timer_of_activity isActivity)]
      exact served k (List.mem_cons_of_mem _ hk)
    obtain ⟨a, attended⟩ := Attended.cons first here (others.routed first.routed.mapped) isRest wft
      attended
    exact ⟨a :: as, attended⟩

theorem Course.attended
    (course : Course job container scope scope' terminations s s₁ s₂ s₃ t) :
    ∃ as, Attended job scope.hosts { scope with terminations } scope' s₁ s₂ as := by
  refine course.hosts.attended (fun n => course.laid.isHost) course.wf₁ course.mapped₁
    fun n host => ?_
  obtain ⟨activity, isActivity, _⟩ := course.laid.isHost host
  rw [course.laid.hosts] at host
  have isServed : Served (job.diagram.node n).kind := .inl (Option.isSome_of_eq_some isActivity)
  exact course.laid.served n (List.mem_filter.mp host).1 isServed

end ProcessNets.Compile
