import ProcessNets.Proofs.Compile.EdgeOrder
import ProcessNets.Proofs.Compile.PreparedNets
import ProcessNets.Proofs.Compile.WellDrawn

/-!
# Self loops

Activities that loop are the ones whose tasks lead to themselves. Such a task splits and joins
exclusively, and its only edge with ordering 1 leads back to it under the loop predicate. The task
of any other activity has no edge to itself, unless an error of the activity is handled by the
activity.
-/

namespace ProcessNets

namespace Diagram

variable {d : Diagram} {n : NodeId}

/-- Flows lead from the node to a control gateway, on to a second one, and back to the node. -/
def OnGatewayCycle (d : Diagram) (n : NodeId) : Prop :=
  ∃ first ∈ d.outgoingFlows n, d.isControlGateway first.target = true ∧
    ∃ second ∈ d.outgoingFlows first.target, d.isControlGateway second.target = true ∧
      ∃ last ∈ d.outgoingFlows second.target, last.target = n

theorem loopsByFlow_iff : d.loopsByFlow n = true ↔ d.OnGatewayCycle n := by
  unfold loopsByFlow
  rw [Bool.not_eq_true', List.isEmpty_eq_false_iff_exists_mem]
  constructor
  · rintro ⟨⟨first, second⟩, listed⟩
    obtain ⟨f, leaves, listed⟩ := List.mem_flatMap.mp listed
    split at listed
    · rename_i control
      obtain ⟨g, leaves', listed⟩ := List.mem_flatMap.mp listed
      split at listed
      · rename_i control'
        obtain ⟨last, closes, _⟩ := List.mem_map.mp listed
        obtain ⟨leaves'', back⟩ := List.mem_filter.mp closes
        exact ⟨f, leaves, control, g, leaves', control', last, leaves'', of_decide_eq_true back⟩
      · cases listed
    · cases listed
  · rintro ⟨first, leaves, control, second, leaves', control', last, leaves'', back⟩
    refine ⟨(first, second), List.mem_flatMap.mpr ⟨first, leaves, ?_⟩⟩
    rw [if_pos control]
    refine List.mem_flatMap.mpr ⟨second, leaves', ?_⟩
    rw [if_pos control']
    exact List.mem_map.mpr ⟨last, List.mem_filter.mpr ⟨leaves'', decide_eq_true back⟩, rfl⟩

end Diagram

namespace Compile

open Net Specification

variable {job : Job} {index : Int} {container : Diagram.Container} {scope scope' : Scope}
  {terminations : List Diagram.NodeId} {s t s₁ s₂ s₃ : State} {base : Nat} {spec : Specification}
  {n m : Diagram.NodeId} {x : Net.NodeId} {map : NodeMap} {nodes : List Diagram.NodeId}
  {flow : Diagram.Flow} {activity : Diagram.Activity} {f : FinishedNet}

/-! ### Flows back -/

/-- A node that a flow leads back to shares its task with no other node. -/
theorem Chain.single_of_back (chain : Chain job base spec map x nodes)
    (paired : job.diagram.Paired) (mem : m ∈ nodes) (leaves : flow ∈ job.diagram.outgoingFlows m)
    (back : flow.target = m) : nodes = [m] := by
  obtain ⟨source, enters⟩ := paired.leaves m flow leaves
  rw [back] at enters
  -- a flow between the node and a neighbour would be the flow back
  have before : ∀ k, OnlyFlow job k m → k = m := by
    rintro k ⟨only, isSource, _, _, entering⟩
    rw [entering] at enters
    rw [← isSource, ← List.mem_singleton.mp enters, source]
  have behind : ∀ k, OnlyFlow job m k → k = m := by
    rintro k ⟨only, _, isTarget, leaving, _⟩
    rw [leaving] at leaves
    rw [← isTarget, ← List.mem_singleton.mp leaves, back]
  obtain ⟨front, rest, rfl⟩ := List.append_of_mem mem
  obtain ⟨_, linked, across⟩ := List.isChain_append.mp chain.linked
  obtain ⟨_, nodup, apart⟩ := List.nodup_append.mp chain.nodup
  have noFront : front = [] := by
    refine List.getLast?_eq_none_iff.mp (Option.eq_none_iff_forall_ne_some.mpr fun k last => ?_)
    exact apart k (List.mem_of_getLast? last) m List.mem_cons_self (before k (across k last m rfl))
  have noRest : rest = [] := by
    cases rest with
    | nil => rfl
    | cons k rest =>
      have same := behind k (List.isChain_cons_cons.mp linked).1
      exact ((List.nodup_cons.mp nodup).1 (same ▸ List.mem_cons_self)).elim
  rw [noFront, noRest, List.nil_append]

/-- The nodes of an activity lead back to it along no flow that is carried over. -/
theorem Links.not_back {output : Option Net.NodeId} (chained : Chained job base spec scope.map)
    (paired : job.diagram.Paired) (mapped : Mapped job spec scope)
    (isActivity : (job.diagram.node n).kind.activity? = some activity)
    (here : scope.map.find? n = some x) : ¬Links job scope.map output x x := by
  rintro ⟨m, there, leads⟩
  cases leads with
  | early early _ => exact HasActivity.not_early mapped ⟨n, activity, here, isActivity⟩ ⟨m, there, early⟩
  | flow flow _ leaves carried =>
    obtain ⟨gateway, back⟩ := carried.2 rfl
    have isTask := (Stands.of_activity isActivity).mp (mapped.stands here)
    obtain ⟨nodes, chain⟩ := chained n x here (by rw [isTask_iff.mp isTask])
    have single := chain.single_of_back paired ((chain.mem m).mpr there) leaves back
    have member := (chain.mem n).mpr here
    rw [single, List.mem_singleton] at member
    rw [← member] at gateway
    exact not_shares_of_activity isActivity (.inl gateway)

/-! ### Courses -/

section
variable (course : Course job container scope scope' terminations s s₁ s₂ s₃ t)
include course

/-- What repeats does so exclusively, by one first edge. -/
theorem Course.repeatsExclusively (here : scope'.map.find? n = some x) (loops : Loops job n) :
    t.spec.split? x = some .xor ∧ RepeatsExclusively job n t.spec x := by
  have registered := course.registered.mpr ⟨Option.isSome_of_eq_some here, loops⟩
  have split := (course.looped.repeats n registered x here).2
  obtain ⟨predicate, given, repeats, joins⟩ :=
    course.looped.first course.registered_once n registered x here
  have stay : Routine JoinsStay s₃ t := routine_terminateAll.of_run course.stages.terminate
  refine ⟨(course.routing.split x).trans split, predicate, given, ?_, stay.change x joins⟩
  exact repeats.of_perm (.of_eq (course.routing.outgoing course.tuned.skeleton))

variable (isActivity : (job.diagram.node n).kind.activity? = some activity)
  (here : scope'.map.find? n = some x)
include isActivity here

/-- Only the activity itself brings its task a first edge back to the task. -/
theorem Course.not_getsFirst (once : ¬Loops job n) (unhandled : ¬Handles job scope'.map n x x) :
    ¬GetsFirst job scope.map x x := by
  have mapped := course.laid.mapped
  have here₀ : scope.map.find? n = some x := course.same (not_timer_of_activity isActivity) ▸ here
  rintro ⟨m, ⟨there, loops, _⟩ | ⟨there, event, attached, error, k, isNext, back⟩⟩
  · have ⟨_, isActivity', _⟩ := loops
    cases mapped.activity_unique isActivity here₀ there isActivity'
    exact once loops
  · have ⟨_, isActivity', _⟩ := attached
    cases mapped.activity_unique isActivity here₀ there isActivity'
    refine unhandled ⟨here, event, attached, error, k, isNext, ?_⟩
    rw [course.same (mapped.not_timer isActivity here₀ back)]
    exact back

/-- The task of an activity leads to itself only if the activity loops or handles its own error. -/
theorem Course.not_back (paired : job.diagram.Paired) (once : ¬Loops job n)
    (unhandled : ¬Handles job scope'.map n x x) : ¬Joins t.spec scope.net x x := by
  obtain ⟨⟨base, chained⟩, _⟩ := course.prepared.counterparts paired
  have mapped := course.laid.mapped
  have here₀ : scope.map.find? n = some x := course.same (not_timer_of_activity isActivity) ▸ here
  have old := mapped.mem here₀
  have linked : ¬Joins s₁.spec scope.net x x := by
    intro back
    rcases course.linked.only x x back with ⟨e, he, source, _⟩ | links
    · have isTask := (Stands.of_activity isActivity).mp (mapped.stands here₀)
      have isInput := (course.laid.edge_ends he).1.symm.trans source
      exact course.laid.wf.terminal_ne_of_task isTask .input isInput
    · exact Links.not_back chained paired mapped isActivity here₀ links
  apply course.changes.straight course.wf₁ (course.nodes₁.symm ▸ old) _ linked
  intro act routes
  refine ⟨fun first => ?_, fun started => routes.started x started old⟩
  rcases routes.first (x, x) first with getsFirst | new
  · exact course.not_getsFirst isActivity here once unhandled getsFirst
  · exact new old

end

/-! ### Finished nets -/

/-- Activities that loop repeat exclusively, and the tasks of others have no edges back. -/
def LoopsMatch (job : Job) (spec : Specification) (f : FinishedNet) : Prop :=
  job.diagram.Paired → ∀ n activity, n ∈ job.diagram.children f.container →
    (job.diagram.node n).kind.activity? = some activity →
    ∃ x, f.scope.map.find? n = some x ∧ x ∈ (spec.decomposition f.scope.net).nodes ∧
      (Loops job n → spec.split? x = some .xor ∧ RepeatsExclusively job n spec x) ∧
      (¬Loops job n → ¬Handles job f.scope.map n x x → ¬Joins spec f.scope.net x x)

theorem loopsMatch_local (job : Job) : Local (LoopsMatch job) := by
  intro s t f wf _ sameNodes sameEdges details all paired n activity child isActivity
  obtain ⟨x, here, hx, repeats, straight⟩ := all paired n activity child isActivity
  refine ⟨x, here, sameNodes.nodes ▸ hx, fun loops => ?_, fun once unhandled => ?_⟩
  · obtain ⟨split, predicate, given, first, join⟩ := repeats loops
    refine ⟨(details.split hx).trans split, predicate, given, ?_, ?_⟩
    · exact first.of_perm (.of_eq (details.outgoing_records wf hx))
    · exact (join_of_control (details.node x hx)).trans join
  · rw [sameEdges.joins]
    exact straight once unhandled

theorem Course.loopsMatch
    (course : Course job container scope scope' terminations s s₁ s₂ s₃ t) :
    LoopsMatch job t.spec { container, scope := scope' } := by
  intro paired n activity child isActivity
  have isMapped := course.laid.served n child (.inl (Option.isSome_of_eq_some isActivity))
  rw [← course.same (not_timer_of_activity isActivity)] at isMapped
  obtain ⟨x, here⟩ := Option.isSome_iff_exists.mp isMapped
  refine ⟨x, here, course.mapped.mem here, course.repeatsExclusively here, ?_⟩
  rw [show ({ container, scope := scope' } : FinishedNet).scope.net = scope.net from course.net]
  exact course.not_back isActivity here paired

theorem compile_loopsMatch (h : compile job index = .ok s) :
    Compiled (LoopsMatch job) (initialState job index.toNat) s :=
  compile_compiled (loopsMatch_local job) (finishes_of_course Course.loopsMatch) h

/-- An activity with a standard loop, or on a cycle through two control gateways, has a task that
splits and joins exclusively, and whose only edge with ordering 1 leads back to it under the loop
predicate. The task of any other activity has no edge to itself, unless the first flow of an error
event of the activity leads to a node with this very task. -/
theorem self_loops_match (h : compile job index = .ok s) (hf : f ∈ s.finished)
    (paired : job.diagram.Paired) (child : n ∈ job.diagram.children f.container)
    (isActivity : (job.diagram.node n).kind.activity? = some activity) :
    ∃ x, f.scope.map.find? n = some x ∧ x ∈ (s.spec.decomposition f.scope.net).nodes ∧
      (activity.loops = true ∨ job.diagram.OnGatewayCycle n →
        s.spec.split x = .xor ∧ s.spec.join x = .xor ∧ ∃ e,
          (s.spec.outgoing x).filter (fun e => e.ordering = 1) = [e] ∧ e.target = some x ∧
            job.diagram.loopPredicate? n = some e.predicate) ∧
      (¬(activity.loops = true ∨ job.diagram.OnGatewayCycle n) →
        (∀ event, Attached job n event → IsError job event → ¬LeadsTo job f.scope.map event x) →
          ¬Joins s.spec f.scope.net x x) := by
  obtain ⟨x, here, hx, repeats, straight⟩ :=
    ((compile_loopsMatch h).finished f hf).2 paired n activity child isActivity
  have loopsIff : activity.loops = true ∨ job.diagram.OnGatewayCycle n ↔ Loops job n := by
    rw [← Diagram.loopsByFlow_iff, ← Bool.or_eq_true]
    refine ⟨fun loops => ⟨activity, isActivity, loops⟩, ?_⟩
    rintro ⟨_, isActivity', loops⟩
    cases isActivity.symm.trans isActivity'
    exact loops
  rw [loopsIff]
  refine ⟨x, here, hx, fun loops => ?_, fun once unhandled => straight once ?_⟩
  · obtain ⟨split, predicate, given, first, join⟩ := repeats loops
    obtain ⟨task, isTask, exclusive⟩ := Option.map_eq_some_iff.mp split
    exact ⟨(split_of_task isTask).trans exclusive, join, _, first.filter, rfl, given⟩
  · rintro ⟨_, event, attached, error, leads⟩
    exact unhandled event attached error leads

/-- A task that repeats through two gateways, also where the next task fails. -/
def restarted : Job where
  diagram := sketch
    [.startEvent, .task {} {}, .gateway .exclusive, .gateway .exclusive,
      .task { attached := [⟨6⟩] } {}, .endEvent .plain, .intermediate .error (some ⟨4⟩)]
    [(0, 1), (1, 2), (2, 3), (3, 1), (3, 4), (4, 5), (6, 1)]

/-- The first task leads to itself, and the second one does not. -/
theorem self_loops_match_restarted : ∃ s, compile restarted 0 = .ok s ∧
    (s.spec.split ⟨1⟩ = .xor ∧ s.spec.join ⟨1⟩ = .xor ∧ ∃ e,
      (s.spec.outgoing ⟨1⟩).filter (fun e => e.ordering = 1) = [e] ∧ e.target = some ⟨1⟩) ∧
    ¬Joins s.spec ⟨0⟩ ⟨2⟩ ⟨2⟩ := by
  obtain ⟨s, run, checked⟩ := exists_result restarted 0
    (fun s => decide (∃ f ∈ s.finished, f.container = .pool 0 ∧ f.scope.net = ⟨0⟩ ∧
      f.scope.map.find? ⟨1⟩ = some ⟨1⟩ ∧ f.scope.map.find? ⟨4⟩ = some ⟨2⟩)) (by decide +kernel)
  obtain ⟨f, member, container, net, first, second⟩ := of_decide_eq_true checked
  have paired : restarted.diagram.Paired := (endsListed_sketch (by decide)).paired
  have child : ∀ n ∈ [⟨1⟩, ⟨4⟩], n ∈ restarted.diagram.children f.container := by
    rw [container]
    decide
  refine ⟨s, run, ?_, ?_⟩
  · obtain ⟨x, here, _, repeats, _⟩ :=
      self_loops_match run member paired (child ⟨1⟩ (by decide)) rfl
    cases first.symm.trans here
    have cycle : restarted.diagram.OnGatewayCycle ⟨1⟩ := Diagram.loopsByFlow_iff.mp (by decide)
    obtain ⟨split, join, e, only, back, _⟩ := repeats (.inr cycle)
    exact ⟨split, join, e, only, back⟩
  · obtain ⟨x, here, _, _, straight⟩ :=
      self_loops_match run member paired (child ⟨4⟩ (by decide)) rfl
    cases second.symm.trans here
    rw [net] at straight
    refine straight ?_ fun event attached _ leads => ?_
    · rintro (loops | cycle)
      · cases loops
      · have none : restarted.diagram.loopsByFlow ⟨4⟩ = false := by decide
        rw [Diagram.loopsByFlow_iff.mpr cycle] at none
        cases none
    · obtain ⟨_, ⟨⟩, listed⟩ := attached
      cases List.mem_singleton.mp listed
      obtain ⟨_, isNext, there⟩ := leads
      cases isNext
      cases first.symm.trans there

end Compile

end ProcessNets
