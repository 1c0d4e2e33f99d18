import ProcessNets.Proofs.Compile.Finishing

/-!
# Kept flows

A sequence flow between two nodes of a container is a walk between their counterparts. A flow
whose ends were folded onto one task is one only if that task repeats in another way.
-/

namespace ProcessNets.Compile

open Net Specification Relation

variable {job : Job} {index : Int} {s : State} {f : FinishedNet} {spec : Specification}
  {n : Diagram.NodeId} {flow : Diagram.Flow} {x y : Net.NodeId}

/-! ### Kept flows -/

/-- A flow between counterparts is in the net, unless both are one task that does not repeat. -/
theorem Faithful.kept (faithful : Faithful job spec f) (single : OneDefault job n)
    (leaves : flow ∈ job.diagram.outgoingFlows n) (lasting : ¬EndsEarly (job.diagram.node n).kind)
    (inside : ¬OnBoundary job f.container n ∧ ¬OnBoundary job f.container flow.target)
    (here : f.scope.map.find? n = some x) (there : f.scope.map.find? flow.target = some y)
    (repeats : x ≠ y ∨ TransGen (Demands job spec f) x x) :
    TransGen (Joins spec f.scope.net) x y := by
  by_cases same : x = y
  · subst same
    have walk := repeats.resolve_left fun other => other rfl
    exact TransGen.closed faithful.carried x x walk
  · apply faithful.carried
    exact .flow n flow here single lasting leaves inside ⟨there, fun folded => (same folded).elim⟩

/-- Without boundary events, no other task repeats. -/
theorem Faithful.repeats (faithful : Faithful job spec f)
    (free : ∀ event, ¬OnBoundary job f.container event) (single : ∀ n, OneDefault job n)
    (here : f.scope.map.find? n = some x) (there : f.scope.map.find? flow.target = some y)
    (walk : TransGen (Joins spec f.scope.net) x y) :
    x ≠ y ∨ TransGen (Demands job spec f) x x := by
  by_cases same : x = y
  · subst same
    exact .inr (faithful.reflects free single n x n x here here walk)
  · exact .inl same

/-- A flow between counterparts is a walk of the net if they differ, or if the task that they
share lies on a cycle of control flow. In a container without boundary events these are all the
flows that are kept. -/
theorem flow_kept (h : compile job index = .ok s) (single : ∀ n, OneDefault job n)
    (hf : f ∈ s.finished) (leaves : flow ∈ job.diagram.outgoingFlows n)
    (lasting : ¬EndsEarly (job.diagram.node n).kind)
    (inside : ¬OnBoundary job f.container n ∧ ¬OnBoundary job f.container flow.target)
    (here : f.scope.map.find? n = some x) (there : f.scope.map.find? flow.target = some y) :
    (x ≠ y ∨ TransGen (Demands job s.spec f) x x → TransGen (Joins s.spec f.scope.net) x y) ∧
    ((∀ event, ¬OnBoundary job f.container event) →
      (TransGen (Joins s.spec f.scope.net) x y ↔ x ≠ y ∨ TransGen (Demands job s.spec f) x x)) := by
  have faithful := ((compile_faithful h).finished f hf).2
  have kept := faithful.kept (single n) leaves lasting inside here there
  exact ⟨kept, fun free => ⟨faithful.repeats free single here there, kept⟩⟩

/-- A task between two gateways that lead back to it. -/
def retried : Job where
  diagram := sketch
    [.startEvent, .gateway .exclusive, .task {} {}, .gateway .exclusive, .endEvent .plain]
    [(0, 1), (1, 2), (2, 3), (3, 1), (3, 4)]

def retriedNet : FinishedNet where
  container := .pool 0
  scope := {
    net := ⟨0⟩
    map := [(⟨0⟩, ⟨0⟩), (⟨2⟩, ⟨1⟩), (⟨4⟩, ⟨2⟩), (⟨1⟩, ⟨1⟩), (⟨3⟩, ⟨1⟩)]
    gateways := [⟨1⟩, ⟨3⟩] }

/-- Nodes that are not stored have no flows. -/
theorem oneDefault_of_stored
    (stored : ∀ i < job.diagram.nodes.size, OneDefault job ⟨i⟩) (n : Diagram.NodeId) :
    OneDefault job n := by
  by_cases inside : n.index < job.diagram.nodes.size
  · exact stored n.index inside
  · have blank : job.diagram.node n = .blank := by
      unfold Diagram.node
      rw [Array.getD_eq_getD_getElem?, Array.getElem?_eq_none (Nat.le_of_not_lt inside)]
      rfl
    unfold OneDefault Diagram.outgoingFlows Diagram.outgoing
    rw [blank]
    exact Nat.zero_le 1

/-- The flow from the one gateway to the other makes the task between them repeat. -/
theorem flow_kept_retried : ∃ s, compile retried 0 = .ok s ∧
    TransGen (Joins s.spec ⟨0⟩) ⟨1⟩ ⟨1⟩ := by
  obtain ⟨s, run, checked⟩ := exists_result retried 0
    (fun s => decide (s.finished = [retriedNet])) (by decide +kernel)
  have member : retriedNet ∈ s.finished := by
    rw [of_decide_eq_true checked]
    exact List.mem_singleton_self _
  have free : ∀ event, ¬OnBoundary retried retriedNet.container event :=
    not_onBoundary (by decide)
  have repeats : Demands retried s.spec retriedNet ⟨1⟩ ⟨1⟩ :=
    .repeats ⟨2⟩ rfl ⟨{}, rfl, by decide⟩ rfl
  have leaves : ⟨⟨3⟩, ⟨1⟩, "", .none, ""⟩ ∈ retried.diagram.outgoingFlows ⟨3⟩ := by decide
  refine ⟨s, run, (flow_kept run ?_ member leaves ?_ ⟨free _, free _⟩ rfl rfl).1
    (.inr (.single repeats))⟩
  · exact oneDefault_of_stored (by decide)
  · rintro (kind | kind) <;> cases kind

/-! ### Lost flows -/

/-- A flow along which a gateway may be folded: the only one into a gateway, or out of one. -/
def MayFold (job : Job) (n : Diagram.NodeId) (flow : Diagram.Flow) : Prop :=
  ((job.diagram.node flow.target).kind.isGateway = true ∧
    (job.diagram.incomingFlows flow.target).length = 1) ∨
  ((job.diagram.node n).kind.isGateway = true ∧ (job.diagram.outgoingFlows n).length = 1)

/-- There is no cycle if all edges lead to younger nodes. -/
theorem no_cycle_of_ascending {d : DecompositionId}
    (ascending : ∀ e ∈ (spec.decomposition d).edges, ∀ x ∈ (spec.edge e).source,
      ∀ y ∈ (spec.edge e).target, x.index < y.index) : ¬TransGen (Joins spec d) x x := by
  have up : ∀ {y}, TransGen (Joins spec d) x y → x.index < y.index := by
    intro y walk
    induction walk with
    | single step =>
      obtain ⟨e, he, source, target⟩ := step
      exact ascending e he _ source _ target
    | tail _ step ih =>
      obtain ⟨e, he, source, target⟩ := step
      exact Nat.lt_trans ih (ascending e he _ source _ target)
  exact fun walk => Nat.lt_irrefl _ (up walk)

/-- A task with one gateway behind it that leads back to it. -/
def unretried : Job where
  diagram := sketch [.startEvent, .task {} {}, .gateway .exclusive, .endEvent .plain]
    [(0, 1), (1, 2), (2, 1), (2, 3)]

def unretriedNet : FinishedNet where
  container := .pool 0
  scope := {
    net := ⟨0⟩
    map := [(⟨0⟩, ⟨0⟩), (⟨1⟩, ⟨1⟩), (⟨3⟩, ⟨2⟩), (⟨2⟩, ⟨1⟩)]
    gateways := [⟨2⟩] }

/-- Not every flow is kept along which no gateway was folded. -/
theorem flow_lost : ¬∀ job index s, compile job index = .ok s → (∀ n, OneDefault job n) →
    ∀ f ∈ s.finished, ∀ n, ∀ flow ∈ job.diagram.outgoingFlows n,
      ¬EndsEarly (job.diagram.node n).kind →
      ¬OnBoundary job f.container n ∧ ¬OnBoundary job f.container flow.target →
      ¬MayFold job n flow → ∀ x y, f.scope.map.find? n = some x →
        f.scope.map.find? flow.target = some y → TransGen (Joins s.spec f.scope.net) x y := by
  intro all
  obtain ⟨s, run, checked⟩ := exists_result unretried 0
    (fun s => decide (s.finished = [unretriedNet] ∧
      ∀ e ∈ (s.spec.decomposition ⟨0⟩).edges, ∀ x ∈ (s.spec.edge e).source,
        ∀ y ∈ (s.spec.edge e).target, x.index < y.index)) (by decide +kernel)
  obtain ⟨finished, ascending⟩ := of_decide_eq_true checked
  have member : unretriedNet ∈ s.finished := by
    rw [finished]
    exact List.mem_singleton_self _
  have free : ∀ event, ¬OnBoundary unretried unretriedNet.container event :=
    not_onBoundary (by decide)
  refine no_cycle_of_ascending ascending (all unretried 0 s run ?_ unretriedNet member ⟨2⟩
    ⟨⟨2⟩, ⟨1⟩, "", .none, ""⟩ (by decide) ?_ ⟨free _, free _⟩ ?_ ⟨1⟩ ⟨1⟩ rfl rfl)
  · exact oneDefault_of_stored (by decide)
  · rintro (kind | kind) <;> cases kind
  · unfold MayFold
    decide

end ProcessNets.Compile
