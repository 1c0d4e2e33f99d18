import ProcessNets.Proofs.Compile.CarefulWork
import ProcessNets.Proofs.Compile.PreparedNets
import ProcessNets.Proofs.Compile.WellDrawn
import ProcessNets.Proofs.Net.Following

/-!
# Input and output conditions

Where no flow enters a start event and none leaves an end event, no edge leaves the output condition
of a net. Edges enter the input condition only if an event-based gateway stands for it, behind a
start event, and is entered by several flows.
-/

namespace ProcessNets

namespace Diagram

variable {d : Diagram}

/-- No flow enters a start event, and none leaves an end event. -/
structure Delimited (d : Diagram) : Prop where
  start : ∀ n, (d.node n).kind = .startEvent → d.incomingFlows n = []
  finish : ∀ n result, (d.node n).kind = .endEvent result → d.outgoingFlows n = []

/-- It is enough that the edges of all stored nodes are like that. -/
theorem Delimited.of_nodes (starts : ∀ node ∈ d.nodes, node.kind = .startEvent →
      node.incoming = [])
    (ends : ∀ node ∈ d.nodes, Compile.IsEnd node.kind → node.outgoing = []) : d.Delimited where
  start n kind := by
    have none := node_of_stored (fun isStart => nomatch isStart) starts n kind
    unfold incomingFlows incoming
    rw [none]
    rfl
  finish n result kind := by
    have none := node_of_stored (fun ⟨_, isEnd⟩ => nomatch isEnd) ends n ⟨result, kind⟩
    unfold outgoingFlows outgoing
    rw [none]
    rfl

end Diagram

namespace Compile

open Net Specification

variable {job : Job} {index : Int} {container : Diagram.Container} {scope scope' : Scope}
  {terminations : List Diagram.NodeId} {s t s₁ s₂ s₃ : State} {spec : Specification}
  {n event : Diagram.NodeId} {x i o : Net.NodeId} {map : NodeMap} {flow : Diagram.Flow}
  {f : FinishedNet}

/-! ### Flows between nodes with conditions -/

/-- An event-based gateway that several flows enter has the node as its counterpart. -/
def Reentered (job : Job) (map : NodeMap) (x : Net.NodeId) : Prop :=
  ∃ n, map.find? n = some x ∧ (job.diagram.node n).kind = .gateway .eventBased ∧ 1 < fanIn job n

/-- A flow to a node with the input condition leaves another one that has it. -/
theorem Conditions.entered (conditions : Conditions job map spec) (paired : job.diagram.Paired)
    (delimited : job.diagram.Delimited) (input : (spec.node i).kind = .inputCondition)
    (single : ¬Reentered job map i) (leaves : flow ∈ job.diagram.outgoingFlows n)
    (there : map.find? flow.target = some i) : map.find? n = some i ∧ n ≠ flow.target := by
  obtain ⟨source, enters⟩ := paired.leaves n flow leaves
  rcases conditions.input _ i there input with start | ⟨gateway, p, other, before, here⟩
  · rw [delimited.start _ start] at enters
    cases enters
  · have few : fanIn job flow.target ≤ 1 :=
      Nat.le_of_not_lt fun several => single ⟨_, there, gateway, several⟩
    have isSource : p = n := by
      unfold Diagram.predecessor? at before
      rw [eq_singleton_of_mem enters few] at before
      exact (Option.some.inj before).symm.trans source
    rw [← isSource]
    exact ⟨here, other⟩

/-- The events on boundaries that are routed do not lead to the input condition. -/
theorem Conditions.not_leadsTo (conditions : Conditions job map spec)
    (paired : job.diagram.Paired) (delimited : job.diagram.Delimited)
    (input : (spec.node i).kind = .inputCondition) (single : ¬Reentered job map i)
    (hasRoute : HasRoute job event) : ¬LeadsTo job map event i := by
  rintro ⟨k, isNext, there⟩
  obtain ⟨flow, first, rfl⟩ := Option.map_eq_some_iff.mp isNext
  obtain ⟨here, _⟩ := conditions.entered paired delimited input single
    (List.mem_of_mem_head? first) there
  have isEvent : ∃ trigger host, (job.diagram.node event).kind = .intermediate trigger host := by
    rcases hasRoute with ⟨host, kind⟩ | timed
    · exact ⟨_, host, kind⟩
    · obtain ⟨_, _, host, kind⟩ := isTimer_iff.mp timed
      exact ⟨_, host, kind⟩
  obtain ⟨trigger, host, kind⟩ := isEvent
  rcases conditions.input event i here input with start | ⟨gateway, _⟩
  · rw [kind] at start
    cases start
  · rw [kind] at gateway
    cases gateway

/-- Only end events have the output condition. -/
theorem Conditions.output_of_delimited (conditions : Conditions job map spec)
    (paired : job.diagram.Paired) (delimited : job.diagram.Delimited)
    (output : (spec.node o).kind = .outputCondition) (here : map.find? n = some o) :
    (job.diagram.node n).kind = .endEvent .plain := by
  refine conditions.output (fun k p before finish => ?_) n o here output
  obtain ⟨flow, first, rfl⟩ := Option.map_eq_some_iff.mp before
  obtain ⟨_, leaves⟩ := paired.drawn k flow (List.mem_of_mem_head? first)
  rw [delimited.finish _ _ finish] at leaves
  cases leaves

/-! ### Courses -/

/-- No activity has the input or the output condition. -/
theorem LaidOut.not_terminal {activity : Diagram.Activity} (laid : LaidOut job container scope s)
    (isActivity : (job.diagram.node n).kind.activity? = some activity)
    (here : scope.map.find? n = some x) (side : Terminal) :
    (s.spec.decomposition scope.net).terminal side ≠ some x :=
  laid.wf.terminal_ne_of_task ((Stands.of_activity isActivity).mp (laid.mapped.stands here)) side

section
variable (course : Course job container scope scope' terminations s s₁ s₂ s₃ t)
  (paired : job.diagram.Paired) (delimited : job.diagram.Delimited)
include course paired delimited

/-- Once the flows are linked, no edge leaves the output condition. -/
theorem Course.output_linked
    (output : (s.spec.decomposition scope.net).terminal .output = some o) (y : Net.NodeId) :
    ¬Joins s₁.spec scope.net o y := by
  have kind := ((course.laid.wf.terminal _ .output o).mp output).2
  obtain ⟨_, conditions⟩ := course.prepared.counterparts paired
  intro joined
  rcases course.linked.only o y joined with ⟨e, he, source, _⟩ | ⟨n, here, leads⟩
  · have input := (course.laid.edge_ends he).1.symm.trans source
    cases course.laid.wf.terminal_inj input output
  · have finish := conditions.output_of_delimited paired delimited kind here
    cases leads with
    | flow flow _ leaves _ =>
      rw [delimited.finish n _ finish] at leaves
      cases leaves
    | early early _ =>
      rw [finish] at early
      rcases early with error | terminate
      · cases error
      · cases terminate

/-- And none ever does, as only tasks get further edges. -/
theorem Course.output_last
    (output : (s.spec.decomposition scope.net).terminal .output = some o) :
    (t.spec.node o).outgoing = [] := by
  obtain ⟨mem, kind⟩ := (course.laid.wf.terminal _ .output o).mp output
  have mem₁ : o ∈ (s₁.spec.decomposition scope.net).nodes := course.nodes₁ ▸ mem
  have bare : (s₁.spec.node o).outgoing = [] :=
    outgoing_eq_nil_of_joins course.wf₁ mem₁ (course.output_linked paired delimited output)
  have condition : s₁.spec.task? o = none := by
    rw [← Option.not_isSome_iff_eq_none]
    intro isTask
    exact course.wf₁.terminal_ne_of_task isTask .output
      (course.linked.steps.grows.terminal output)
  have careful : Careful False scope.net s₁.spec t.spec := course.careful fun none => none.elim
  have fewer := careful.condition (course.wf₁.node_stored mem₁) condition
  unfold Specification.spread at fewer
  rw [bare] at fewer
  exact List.eq_nil_of_length_eq_zero (Nat.le_zero.mp fewer)

section
variable (input : (s.spec.decomposition scope.net).terminal .input = some i)
  (single : ¬Reentered job scope.map i)
include input single

/-- Once the flows are linked, no edge enters the input condition. -/
theorem Course.input_linked (x : Net.NodeId) : ¬Joins s₁.spec scope.net x i := by
  have kind := ((course.laid.wf.terminal _ .input i).mp input).2
  have apart : (s.spec.decomposition scope.net).terminal .output ≠ some i :=
    fun output => nomatch course.laid.wf.terminal_inj input output
  obtain ⟨_, conditions⟩ := course.prepared.counterparts paired
  intro joined
  rcases course.linked.only x i joined with ⟨e, he, _, target⟩ | ⟨n, here, leads⟩
  · exact apart ((course.laid.edge_ends he).2.symm.trans target)
  · cases leads with
    | flow flow _ leaves carried =>
      obtain ⟨same, other⟩ := conditions.entered paired delimited kind single leaves carried.1
      exact other (carried.2 (Option.some.inj (here.symm.trans same))).2.symm
    | early _ isOutput => exact apart isOutput

/-- Boundary events do not lead there. -/
theorem Course.input_routed (x : Net.NodeId) : ¬Joins s₂.spec scope.net x i := by
  obtain ⟨mem, kind⟩ := (course.laid.wf.terminal _ .input i).mp input
  obtain ⟨_, conditions⟩ := course.prepared.counterparts paired
  have nodes : ∀ z ∈ (s.spec.decomposition scope.net).nodes,
      z ∈ (s₁.spec.decomposition scope.net).nodes := fun _ hz => course.nodes₁ ▸ hz
  have routed := course.hosts.changes (fun n => course.laid.isHost) course.wf₁ course.mapped₁ nodes
  refine routed.unentered course.wf₁ (nodes i mem) (fun act routes => ?_)
    (course.input_linked paired delimited input single) x
  constructor
  · intro z entered
    obtain ⟨n, host, found⟩ := routes.actor z (Action.actor_of_entered entered)
    obtain ⟨activity, isActivity, _⟩ := course.laid.isHost host
    have other : z ≠ i := by
      rintro rfl
      exact course.laid.not_terminal isActivity found .input input
    exact ⟨other, other⟩
  · rintro _ target rfl
    rcases routes.target _ target with ⟨n, _, event, _, hasRoute, leads⟩ | new
    · exact conditions.not_leadsTo paired delimited kind single hasRoute leads
    · exact new mem

/-- Nor do activities that repeat, so that no edge ever enters it. -/
theorem Course.input_first (x : Net.NodeId) : ¬Joins t.spec scope.net x i := by
  obtain ⟨mem, _⟩ := (course.laid.wf.terminal _ .input i).mp input
  have mem₂ : i ∈ (s₂.spec.decomposition scope.net).nodes :=
    course.routed.rewired.mem (course.nodes₁ ▸ mem)
  have still : ¬HasLoop job scope'.map i := by
    rintro ⟨n, found, loops⟩
    rw [course.same (not_timer_of_loops loops)] at found
    obtain ⟨activity, isActivity, _⟩ := loops
    exact course.laid.not_terminal isActivity found .input input
  have looped := course.looped.changes
  rw [course.net] at looped
  rw [course.joins]
  refine looped.unentered course.wf₂ mem₂ (fun act routes => ?_)
    (course.input_routed paired delimited input single) x
  constructor
  · intro z entered
    have other : z ≠ i := by
      rintro rfl
      exact still (routes.actor z (Action.actor_of_entered entered))
    exact ⟨other, other⟩
  · rintro _ target rfl
    exact still ((routes.target _ target).resolve_right fun new => new trivial)

end

end

/-! ### Finished nets -/

/-- No edge leaves the output condition of the net, and none enters its input condition, unless a
gateway that several flows enter stands for that one. -/
def Unpassed (job : Job) (spec : Specification) (f : FinishedNet) : Prop :=
  job.diagram.Paired → job.diagram.Delimited → ∃ i o,
    (spec.decomposition f.scope.net).terminal .input = some i ∧
    (spec.decomposition f.scope.net).terminal .output = some o ∧
    (spec.node o).outgoing = [] ∧ (¬Reentered job f.scope.map i → (spec.node i).incoming = [])

theorem unpassed_local (job : Job) : Local (Unpassed job) := by
  intro s t f wf _ sameNodes _ details all paired delimited
  obtain ⟨i, o, input, output, last, first⟩ := all paired delimited
  have incoming : (t.node i).control.incoming = (s.node i).control.incoming :=
    congrArg _ (details.node i ((wf.terminal _ .input i).mp input).1)
  have outgoing : (t.node o).control.outgoing = (s.node o).control.outgoing :=
    congrArg _ (details.node o ((wf.terminal _ .output o).mp output).1)
  refine ⟨i, o, ?_, ?_, outgoing.trans last, fun single => incoming.trans (first single)⟩
  · rw [sameNodes.terminal, input]
  · rw [sameNodes.terminal, output]

theorem Course.unpassed
    (course : Course job container scope scope' terminations s s₁ s₂ s₃ t) :
    Unpassed job t.spec { container, scope := scope' } := by
  intro paired delimited
  obtain ⟨i, input⟩ := Option.isSome_iff_exists.mp (course.laid.terminal .input)
  obtain ⟨o, output⟩ := Option.isSome_iff_exists.mp (course.laid.terminal .output)
  rw [show ({ container, scope := scope' } : FinishedNet).scope.net = scope.net from course.net]
  refine ⟨i, o, course.steps.grows.terminal input, course.steps.grows.terminal output,
    course.output_last paired delimited output, fun single => ?_⟩
  have mem := course.steps.grows.mem_nodes ((course.laid.wf.terminal _ .input i).mp input).1
  refine incoming_eq_nil_of_joins course.wf mem
    (course.input_first paired delimited input fun ⟨n, here, gateway, several⟩ => ?_)
  refine single ⟨n, ?_, gateway, several⟩
  rw [← here]
  refine course.same ?_
  unfold isTimer
  rw [gateway]

theorem compile_unpassed (h : compile job index = .ok s) :
    Compiled (Unpassed job) (initialState job index.toNat) s :=
  compile_compiled (unpassed_local job) (finishes_of_course Course.unpassed) h

/-- If no flow enters a start event and none leaves an end event, then no edge leaves the output
condition of a net. An edge enters its input condition only if an event-based gateway stands for
that condition as well, and several flows enter this gateway. -/
theorem terminals_unpassed (h : compile job index = .ok s) (hf : f ∈ s.finished)
    (paired : job.diagram.Paired) (delimited : job.diagram.Delimited) : ∃ i o,
      (s.spec.decomposition f.scope.net).terminal .input = some i ∧
      (s.spec.decomposition f.scope.net).terminal .output = some o ∧
      (s.spec.node o).outgoing = [] ∧
      ((s.spec.node i).incoming ≠ [] → ∃ n, f.scope.map.find? n = some i ∧
        (job.diagram.node n).kind = .gateway .eventBased ∧ 1 < fanIn job n) := by
  obtain ⟨i, o, input, output, last, first⟩ :=
    ((compile_unpassed h).finished f hf).2 paired delimited
  refine ⟨i, o, input, output, last, fun entered => ?_⟩
  by_contra single
  exact entered (first single)

/-- A gateway behind a start event that waits for a message, beside a task with a handler of errors
that leads back to where the message is received. -/
def awaiting : Job where
  diagram := sketch
    [.startEvent, .gateway .eventBased, .intermediate .message none,
      .task { attached := [⟨5⟩] } {}, .endEvent .plain, .intermediate .error (some ⟨3⟩)]
    [(0, 1), (1, 2), (1, 3), (2, 3), (3, 4), (5, 2)]

theorem awaiting_delimited : awaiting.diagram.Delimited :=
  .of_nodes (by decide) (by decide)

/-- The gateway stands for the input condition, and nothing leads there. -/
theorem terminals_unpassed_awaiting : ∃ s, compile awaiting 0 = .ok s ∧
    (∃ f ∈ s.finished, f.scope.map.find? ⟨1⟩ = some ⟨0⟩) ∧
    (s.spec.node ⟨0⟩).incoming = [] ∧ (s.spec.node ⟨3⟩).outgoing = [] := by
  obtain ⟨s, run, checked⟩ := exists_result awaiting 0
    (fun s => decide (∃ f ∈ s.finished, f.scope.map.find? ⟨1⟩ = some ⟨0⟩ ∧
      f.scope.map.keys.Nodup ∧
      (∀ p ∈ f.scope.map, (awaiting.diagram.node p.1).kind = .gateway .eventBased →
        fanIn awaiting p.1 ≤ 1) ∧
      (s.spec.decomposition f.scope.net).terminal .input = some ⟨0⟩ ∧
      (s.spec.decomposition f.scope.net).terminal .output = some ⟨3⟩)) (by decide +kernel)
  obtain ⟨f, member, shared, distinct, single, input, output⟩ := of_decide_eq_true checked
  obtain ⟨i, o, isInput, isOutput, last, first⟩ :=
    terminals_unpassed run member (endsListed_sketch (by decide)).paired awaiting_delimited
  cases input.symm.trans isInput
  cases output.symm.trans isOutput
  refine ⟨s, run, ⟨f, member, shared⟩, ?_, last⟩
  by_contra entered
  obtain ⟨n, here, gateway, several⟩ := first entered
  have few := single _ ((NodeMap.mem_iff_find? distinct).mpr here) gateway
  exact Nat.not_le.mpr several few

/-- A gateway behind a start event that waits for a message, with a way back to it. -/
def revisited : Job where
  diagram := sketch
    [.startEvent, .gateway .eventBased, .intermediate .message none, .task {} {}, .endEvent .plain]
    [(0, 1), (1, 2), (1, 4), (2, 3), (3, 1)]

theorem revisited_delimited : revisited.diagram.Delimited :=
  .of_nodes (by decide) (by decide)

/-- A gateway that stands for the input condition may be entered again. -/
theorem input_condition_entered : ¬∀ job index s, compile job index = .ok s →
    job.diagram.Paired → job.diagram.Delimited → ∀ f ∈ s.finished, ∃ i o,
      (s.spec.decomposition f.scope.net).terminal .input = some i ∧
      (s.spec.decomposition f.scope.net).terminal .output = some o ∧
      (s.spec.node i).incoming = [] ∧ (s.spec.node o).outgoing = [] := by
  intro all
  obtain ⟨s, run, checked⟩ := exists_result revisited 0
    (fun s => decide (∃ f ∈ s.finished,
      (s.spec.decomposition f.scope.net).terminal .input = some ⟨0⟩ ∧
      (s.spec.node ⟨0⟩).incoming = [⟨3⟩])) (by decide +kernel)
  obtain ⟨f, member, input, entered⟩ := of_decide_eq_true checked
  obtain ⟨i, _, isInput, _, bare, _⟩ := all revisited 0 s run
    (endsListed_sketch (by decide)).paired revisited_delimited f member
  cases input.symm.trans isInput
  rw [entered] at bare
  cases bare

end Compile

end ProcessNets
