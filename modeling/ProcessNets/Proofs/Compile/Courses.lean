import ProcessNets.Proofs.Compile.Looping
import ProcessNets.Proofs.Compile.Nets
import ProcessNets.Proofs.Compile.Numbering
import ProcessNets.Proofs.Compile.Routing

/-!
# Courses of nets

How a net is finished. From its layout on, flows are linked, activities with boundary events have
their turns, looping activities repeat, and terminate events get their cancellation sets. What is
proved about finished nets follows from this course.
-/

namespace ProcessNets.Compile

open Net Specification Relation

variable {E : Fault → Prop} {Good : Specification → FinishedNet → Prop} {job : Job}
  {container : Diagram.Container} {scope scope' : Scope} {terminations : List Diagram.NodeId}
  {s s₁ s₂ s₃ t : State}
  {spec : Specification} {c d : DecompositionId} {n m : Diagram.NodeId} {x : Net.NodeId}

/-! ### Tasks of activities -/

theorem not_timer_of_shares (h : Shares (job.diagram.node n).kind) : isTimer job n = false := by
  unfold isTimer
  rcases h with gateway | kind | kind
  · cases kind : (job.diagram.node n).kind with
    | intermediate => simp [kind, Diagram.Kind.isGateway] at gateway
    | _ => rfl
  · rw [kind]
  · rw [kind]

theorem not_timer_of_early (h : EndsEarly (job.diagram.node n).kind) : isTimer job n = false := by
  unfold isTimer
  rcases h with kind | kind <;> rw [kind]

/-- No timer shares the task of an activity. -/
theorem Mapped.not_timer {activity : Diagram.Activity} (mapped : Mapped job spec scope)
    (isActivity : (job.diagram.node n).kind.activity? = some activity)
    (here : scope.map.find? n = some x) (there : scope.map.find? m = some x) :
    isTimer job m = false := by
  rcases mapped.apart here there with rfl | shares | shares
  · exact not_timer_of_activity isActivity
  · exact (not_shares_of_activity isActivity shares).elim
  · exact not_timer_of_shares shares

/-! ### Cancellation -/

/-- Cancellation sets steer no control flow. -/
theorem ensures_terminateAll (mapped : Mapped job s.spec scope) (ends : Terminates job scope) :
    Ensures E (terminateAll scope) s fun _ t =>
      Tuned (· = scope.net) s t ∧ SameRouting s.spec t.spec := by
  unfold terminateAll
  refine ensures_forM_rel (R := fun s t => Tuned (· = scope.net) s t ∧ SameRouting s.spec t.spec)
    (fun s => ⟨.refl s, .refl s.spec⟩) (fun h h' => ⟨h.1.trans h'.1, h.2.trans h'.2⟩) ?_
  rintro n member t ⟨tuned, _⟩
  obtain ⟨isMapped, kind⟩ := ends n member
  obtain ⟨x, here⟩ := Option.isSome_iff_exists.mp isMapped
  have stands := mapped.stands here
  rw [kind] at stands
  rw [here]
  apply ensures_cancels_edit
  apply Edit.ensures_cancelAll (tuned.isTask stands)
  rw [nodes_of_skeleton tuned.skeleton]
  exact mapped.mem here

/-! ### The course of a net -/

theorem LaidOut.isHost (laid : LaidOut job container scope s) (host : n ∈ scope.hosts) :
    IsHost job n := by
  rw [laid.hosts] at host
  exact of_decide_eq_true (List.mem_filter.mp host).2

/-- The node is the task of an activity. -/
def HasActivity (job : Job) (map : NodeMap) (x : Net.NodeId) : Prop :=
  ∃ n activity, map.find? n = some x ∧ (job.diagram.node n).kind.activity? = some activity

/-- The task of an activity gets a first edge to itself if the activity loops, and one to what
handles an error of the activity. -/
def GetsFirst (job : Job) (map : NodeMap) (x y : Net.NodeId) : Prop :=
  ∃ n, map.find? n = some x ∧ Loops job n ∧ x = y ∨ Handles job map n x y

/-- The stages after the layout ran one after the other, from `s` to `t`. -/
structure Stages (job : Job) (scope linked routed : Scope) (s s₁ s₂ s₃ t : State) : Prop where
  link : (linkAll job scope).run.run s = (.ok linked, s₁)
  route : (routeAll job linked).run.run s₁ = (.ok routed, s₂)
  loop : (loopAll job routed).run.run s₂ = (.ok (), s₃)
  terminate : (terminateAll routed).run.run s₃ = (.ok (), t)

/-- The net of a container was laid out in `s`, linked in `s₁`, routed in `s₂`, looped in `s₃` and
finished in `t`. -/
structure Course (job : Job) (container : Diagram.Container) (scope scope' : Scope)
    (terminations : List Diagram.NodeId) (s s₁ s₂ s₃ t : State) : Prop where
  prepared : Prepared job container scope s
  laid : LaidOut job container scope s
  free : CancelFree s.spec scope.net
  stages : Stages job scope { scope with terminations } scope' s s₁ s₂ s₃ t
  linked : Linked scope.net
    (SureLinks job scope.map ((s.spec.decomposition scope.net).terminal .output))
    (Links job scope.map ((s.spec.decomposition scope.net).terminal .output)) s s₁
  arranged : Arranged job scope s.spec s₁.spec
  hosts : HostsRouted job scope.hosts { scope with terminations } s₁ scope' s₂
  looped : Looped job scope' s₂ s₃
  tuned : Tuned (· = scope.net) s₃ t
  routing : SameRouting s₃.spec t.spec

namespace Course

variable (h : Course job container scope scope' terminations s s₁ s₂ s₃ t)
include h

theorem wf₁ : s₁.spec.WellFormed :=
  h.linked.steps.wellFormed h.laid.wf

theorem mapped₁ : Mapped job s₁.spec { scope with terminations } :=
  (h.laid.mapped.steps h.linked.steps).of_map rfl rfl

theorem nodes₁ :
    (s₁.spec.decomposition scope.net).nodes = (s.spec.decomposition scope.net).nodes :=
  h.linked.sameNodes.nodes

theorem routed : Routed job (fun _ => True)
    (fun event => isTimer job event = true ∧ ∃ n ∈ scope.hosts, Attached job n event)
    { scope with terminations } scope' s₁ s₂ :=
  h.hosts.routed h.mapped₁

theorem net : scope'.net = scope.net :=
  h.routed.net

theorem wf₂ : s₂.spec.WellFormed :=
  h.routed.rewired.steps.wellFormed h.wf₁

/-- Only timers have other counterparts than in the layout. -/
theorem same (plain : isTimer job n = false) : scope'.map.find? n = scope.map.find? n :=
  h.routed.same_of_plain (fun _ both => both.1) plain

theorem kept : Kept s s₂ :=
  h.linked.kept.trans h.routed.rewired.kept

/-- The looping activities are registered until they are looped. -/
theorem registered : n ∈ loopsAt s₂ scope'.net ↔ (scope'.map.find? n).isSome ∧ Loops job n := by
  rw [h.kept.loopsAt, h.net, h.laid.loops]
  apply and_congr_left
  intro isLooping
  rw [h.same (not_timer_of_loops isLooping)]

theorem registered_once : (loopsAt s₂ scope'.net).Nodup := by
  rw [h.kept.loopsAt, h.net]
  exact h.laid.once

theorem steps : Steps (· = scope.net) (· = scope.net) s t := by
  have linking : Steps (· = scope.net) (· = scope.net) s s₁ :=
    h.linked.steps.mono (fun _ none => none.elim) fun _ h => h
  have looping := h.looped.steps
  rw [h.net] at looping
  exact linking.trans (h.routed.rewired.steps.trans (looping.trans (h.tuned.steps (.inl rfl))))

theorem wf : t.spec.WellFormed :=
  h.steps.wellFormed h.laid.wf

theorem mapped : Mapped job t.spec scope' := by
  have last : Steps (fun _ => True) (fun _ => True) s₃ t := h.tuned.steps (.inl trivial)
  exact (h.routed.mapped.steps h.looped.steps).steps last

/-- Tasks are inserted and first edges added at tasks of activities only. -/
theorem changes : Changes scope.net (Routes (· ∈ (s.spec.decomposition scope.net).nodes)
    (HasActivity job scope.map) (fun _ => True) (GetsFirst job scope.map) fun _ => True)
    s₁.spec t.spec := by
  have areHosts : ∀ n ∈ scope.hosts, IsHost job n := fun n => h.laid.isHost
  have nodes : ∀ n ∈ (s.spec.decomposition scope.net).nodes,
      n ∈ (s₁.spec.decomposition scope.net).nodes := fun _ mem => h.nodes₁ ▸ mem
  have hosts := h.hosts.changes areHosts h.wf₁ h.mapped₁ nodes
  have looping := h.looped.changes
  rw [h.net] at looping
  refine (hosts.mono fun act routes => ?_).trans ((looping.mono fun act routes => ?_).trans ?_)
  · refine Routes.mono routes (fun _ mem => mem) ?_ (fun _ _ => trivial) ?_ fun _ _ => trivial
    · rintro x ⟨n, host, found⟩
      obtain ⟨activity, isActivity, _⟩ := areHosts n host
      exact ⟨n, activity, found, isActivity⟩
    · rintro x y ⟨n, _, handles⟩
      exact ⟨n, .inr handles⟩
  · refine Routes.mono routes (fun _ _ => trivial) ?_ (fun _ _ => trivial) ?_ fun _ _ => trivial
    · rintro x ⟨n, found, loops⟩
      rw [h.same (not_timer_of_loops loops)] at found
      obtain ⟨activity, isActivity, _⟩ := loops
      exact ⟨n, activity, found, isActivity⟩
    · rintro x y ⟨⟨n, found, loops⟩, same⟩
      rw [h.same (not_timer_of_loops loops)] at found
      exact ⟨n, .inl ⟨found, loops, same⟩⟩
  · exact .idle (.of_routing (h.looped.steps.wellFormed h.wf₂) h.tuned.skeleton h.routing)

theorem loopsAt_of_ne (other : c ≠ scope.net) : loopsAt t c = loopsAt s c := by
  rw [h.tuned.kept.loopsAt, h.looped.taken.others c (h.net ▸ other), h.kept.loopsAt]

theorem loopsAt_self : loopsAt t scope.net = [] := by
  rw [h.tuned.kept.loopsAt, ← h.net, h.looped.taken.none]

theorem finished : t.finished = s.finished := by
  rw [h.tuned.finished, h.looped.taken.finished, h.kept.finished]

end Course

/-! ### Turns of activities -/

/-- An activity had its turn in a well-laid net, and after it the `later` ones had theirs. -/
structure Turn (job : Job) (d : DecompositionId) (n : Diagram.NodeId) (later : List Diagram.NodeId)
    (scope₁ scope₂ scope' : Scope) (s₁ s₂ t : State) : Prop where
  net : scope₁.net = d
  wf : s₁.spec.WellFormed
  mapped : Mapped job s₁.spec scope₁
  routed : HostRouted job n scope₁ scope₂ s₁ s₂
  others : HostsRouted job later scope₂ s₂ scope' t
  areHosts : ∀ k ∈ later, IsHost job k

namespace Turn

variable {later : List Diagram.NodeId} {scope₁ scope₂ : Scope}
  (h : Turn job d n later scope₁ scope₂ scope' s₁ s₂ t)
include h

theorem net₂ : scope₂.net = d :=
  h.routed.routed.net.trans h.net

theorem wf₂ : s₂.spec.WellFormed :=
  h.routed.routed.rewired.steps.wellFormed h.wf

theorem mapped₂ : Mapped job s₂.spec scope₂ :=
  h.routed.routed.mapped

theorem after : Routed job (fun _ => True)
    (fun event => isTimer job event = true ∧ ∃ k ∈ later, Attached job k event) scope₂ scope' s₂ t :=
  h.others.routed h.mapped₂

theorem changes : Changes d (HostsAct job later scope₂ s₂.spec) s₂.spec t.spec := by
  have changes := h.others.changes h.areHosts h.wf₂ h.mapped₂ fun _ mem => mem
  rwa [h.net₂] at changes

/-- Nodes other than timers have the same counterparts throughout. -/
theorem same (plain : isTimer job m = false) :
    scope₂.map.find? m = scope₁.map.find? m ∧ scope'.map.find? m = scope₂.map.find? m :=
  ⟨h.routed.routed.same_of_plain (fun _ both => both.1) plain,
    h.after.same_of_plain (fun _ both => both.1) plain⟩

end Turn

/-- The hosts of a net have their turns in the order of the children. -/
theorem Course.turn (course : Course job container scope scope' terminations s s₁ s₂ s₃ t)
    {before after : List Diagram.NodeId}
    (order : job.diagram.children container = before ++ n :: after) (isHost : IsHost job n) :
    ∃ scope₁ scope₂ t₁ t₂, Turn job scope.net n (after.filter fun k => decide (IsHost job k))
      scope₁ scope₂ scope' t₁ t₂ s₂ ∧ s.spec.Extends t₁.spec := by
  have hosts : scope.hosts = (before.filter fun k => decide (IsHost job k)) ++
      n :: after.filter fun k => decide (IsHost job k) := by
    rw [course.laid.hosts, order, List.filter_append, List.filter_cons_of_pos]
    exact decide_eq_true isHost
  obtain ⟨scope₁, t₁, scope₂, t₂, earlier, turn, later⟩ := course.hosts.split hosts
  have routed := earlier.routed course.mapped₁
  have steps := routed.rewired.steps
  refine ⟨scope₁, scope₂, t₁, t₂, ⟨routed.net, steps.wellFormed course.wf₁, routed.mapped, turn,
    later, fun k hk => ?_⟩, course.linked.steps.grows.trans steps.grows⟩
  exact of_decide_eq_true (List.mem_filter.mp hk).2

/-! ### Courses taken -/

theorem ensures_course (prepared : Prepared job container scope s)
    (laid : LaidOut job container scope s)
    (free : CancelFree s.spec scope.net) :
    Ensures E (do refine job (← linkAll job scope)) s fun scope' t =>
      ∃ terminations s₁ s₂ s₃, Course job container scope scope' terminations s s₁ s₂ s₃ t := by
  obtain ⟨o, output⟩ := Option.isSome_iff_exists.mp (laid.terminal .output)
  have unlinked : Terminates job scope := by
    intro n member
    rw [laid.terminations] at member
    cases member
  refine ((ensures_linkAll laid.wf laid.mapped unlinked output).and
    (ensures_linkAll_arranged laid)).traced.seq ?_
  rintro _ s₁ ⟨linkRun, ⟨linked, ends, terminations, rfl⟩, arranged⟩
  rw [← output] at linked
  have wf₁ := linked.steps.wellFormed laid.wf
  have mapped₁ : Mapped job s₁.spec { scope with terminations } :=
    (laid.mapped.steps linked.steps).of_map rfl rfl
  unfold refine
  refine (ensures_routeAll wf₁ mapped₁ fun n => laid.isHost).traced.seq ?_
  rintro scope' s₂ ⟨routeRun, hosts⟩
  have routed := hosts.routed mapped₁
  have wf₂ := routed.rewired.steps.wellFormed wf₁
  have same : ∀ n, isTimer job n = false → scope'.map.find? n = scope.map.find? n :=
    fun n => routed.same_of_plain fun _ both => both.1
  have loops : ∀ n ∈ loopsAt s₂ scope'.net, (scope'.map.find? n).isSome ∧ Loops job n := by
    intro n member
    rw [(linked.kept.trans routed.rewired.kept).loopsAt,
      show scope'.net = scope.net from routed.net, laid.loops] at member
    rw [same n (not_timer_of_loops member.2)]
    exact member
  refine (ensures_loopAll wf₂ routed.mapped loops).traced.seq ?_
  rintro _ s₃ ⟨loopRun, looped⟩
  have ends' : Terminates job scope' := by
    intro n member
    rw [routed.terminations] at member
    obtain ⟨isMapped, kind⟩ := ends n member
    rw [same n (not_timer_of_early (.inr kind))]
    exact ⟨isMapped, kind⟩
  refine (ensures_terminateAll (routed.mapped.steps looped.steps) ends').traced.seq ?_
  rintro _ t ⟨terminateRun, tuned, routing⟩
  rw [show scope'.net = scope.net from routed.net] at tuned
  exact ⟨terminations, s₁, s₂, s₃, prepared, laid, free,
    ⟨linkRun, routeRun, loopRun, terminateRun⟩, linked, arranged, hosts, looped, tuned, routing⟩

theorem finishes_of_course (good : ∀ {container scope scope' terminations s s₁ s₂ s₃ t},
      Course job container scope scope' terminations s s₁ s₂ s₃ t →
        Good t.spec { container, scope := scope' }) : Finishes E Good job := by
  intro container scope s prepared laid free
  refine (ensures_course prepared laid free).mono ?_
  rintro scope' t ⟨terminations, s₁, s₂, s₃, course⟩
  exact ⟨course.net, course.steps, fun c => course.loopsAt_of_ne, course.loopsAt_self,
    course.finished, good course⟩

end ProcessNets.Compile
