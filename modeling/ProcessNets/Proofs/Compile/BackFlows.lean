import ProcessNets.Proofs.Compile.SelfLoops

/-!
# Back flows

Flows that lead from an activity through two gateways back to it become an edge of its task to
itself. This edge has the expression of the flow between the gateways, but it always is the first
one and never the default edge, also where that flow is the one by default.
-/

namespace ProcessNets

namespace Diagram

variable {d : Diagram} {n : NodeId} {first back : Flow}

theorem loopExpression_of_cycle (cycle : d.gatewayCycles n = [(first, back)]) :
    d.loopExpression n = if back.conditionType = .expression then back.expression else "" := by
  unfold loopExpression
  rw [cycle]
  by_cases guarded : back.conditionType = .expression <;> simp [guarded]

end Diagram

namespace Compile

open Net Specification

variable {job : Job} {index : Int} {container : Diagram.Container} {scope scope' : Scope}
  {terminations : List Diagram.NodeId} {s t s₁ s₂ s₃ : State} {n : Diagram.NodeId}
  {activity : Diagram.Activity} {first back : Diagram.Flow} {f : FinishedNet}

/-! ### Tasks that repeat -/

/-- Activities that loop repeat exclusively. -/
def LoopsRepeat (job : Job) (spec : Specification) (f : FinishedNet) : Prop :=
  ∀ n ∈ job.diagram.children f.container, Loops job n →
    ∃ x, f.scope.map.find? n = some x ∧ x ∈ (spec.decomposition f.scope.net).nodes ∧
      RepeatsExclusively job n spec x

theorem loopsRepeat_local (job : Job) : Local (LoopsRepeat job) := by
  intro s t f wf _ sameNodes _ details all n child loops
  obtain ⟨x, here, hx, predicate, given, repeats, join⟩ := all n child loops
  refine ⟨x, here, sameNodes.nodes ▸ hx, predicate, given, ?_, ?_⟩
  · exact repeats.of_perm (.of_eq (details.outgoing_records wf hx))
  · exact (join_of_control (details.node x hx)).trans join

theorem Course.loopsRepeat
    (course : Course job container scope scope' terminations s s₁ s₂ s₃ t) :
    LoopsRepeat job t.spec { container, scope := scope' } := by
  intro n child loops
  have ⟨activity, isActivity, _⟩ := loops
  have isMapped := course.laid.served n child (.inl (Option.isSome_of_eq_some isActivity))
  rw [← course.same (not_timer_of_activity isActivity)] at isMapped
  obtain ⟨x, here⟩ := Option.isSome_iff_exists.mp isMapped
  exact ⟨x, here, course.mapped.mem here, (course.repeatsExclusively here loops).2⟩

theorem compile_loopsRepeat (h : compile job index = .ok s) :
    Compiled (LoopsRepeat job) (initialState job index.toNat) s :=
  compile_compiled (loopsRepeat_local job) (finishes_of_course Course.loopsRepeat) h

/-! ### Roles of flows -/

/-- An edge stands for a flow among the edges of a task: it is taken under the expression of the
flow, or by default, after all others, if the flow was the one by default. -/
structure KeepsRole (flow : Diagram.Flow) (e : Net.Edge) (edges : List Net.Edge) : Prop where
  guarded : flow.conditionType = .expression → e.predicate = flow.expression
  last : flow.conditionType = .default →
    e.isDefault = true ∧ ∀ other ∈ edges, other.ordering ≤ e.ordering

/-- An activity without a standard loop that lies on one cycle through two gateways has a task with
one first edge, which leads back to it. This edge keeps the role of the flow between the gateways
just if that flow is not the one by default. -/
theorem back_flow_role_kept_iff (h : compile job index = .ok s) (hf : f ∈ s.finished)
    (child : n ∈ job.diagram.children f.container)
    (isActivity : (job.diagram.node n).kind.activity? = some activity)
    (unmarked : activity.loops = false) (cycle : job.diagram.gatewayCycles n = [(first, back)]) :
    ∃ x loop, f.scope.map.find? n = some x ∧ x ∈ (s.spec.decomposition f.scope.net).nodes ∧
      (s.spec.outgoing x).filter (fun e => e.ordering = 1) = [loop] ∧
      loop.source = some x ∧ loop.target = some x ∧
      (KeepsRole back loop (s.spec.outgoing x) ↔ back.conditionType ≠ .default) := by
  have byFlow : job.diagram.loopsByFlow n = true := by
    unfold Diagram.loopsByFlow
    rw [cycle]
    rfl
  have loops : Loops job n := ⟨activity, isActivity, by rw [byFlow, Bool.or_true]⟩
  obtain ⟨x, here, hx, predicate, given, repeats, _⟩ :=
    ((compile_loopsRepeat h).finished f hf).2 n child loops
  have isPredicate :
      predicate = if back.conditionType = .expression then back.expression else "" := by
    unfold Diagram.loopPredicate? at given
    rw [isActivity, Option.map_some, unmarked, if_neg Bool.false_ne_true,
      Diagram.loopExpression_of_cycle cycle] at given
    exact (Option.some.inj given).symm
  refine ⟨x, _, here, hx, repeats.filter, rfl, rfl, fun keeps isDefault => ?_, fun other => ?_⟩
  · have flagged := (keeps.last isDefault).1
    cases flagged
  · refine ⟨fun guarded => ?_, fun isDefault => (other isDefault).elim⟩
    rw [isPredicate, if_pos guarded]

/-- A task in the middle of a cycle through two gateways, one of which decides between another round
and the end. -/
def revolvingOn (again done : Diagram.ConditionType × String) : Job where
  diagram :=
    let drawn := sketch
      [.startEvent, .gateway .exclusive, .task {} {}, .gateway .exclusive, .endEvent .plain]
      [(0, 1), (1, 2), (2, 3)]
    ((drawn.connect ⟨3⟩ ⟨1⟩ again.1 again.2).2.connect ⟨3⟩ ⟨4⟩ done.1 done.2).2

/-- With an expression for another round, the task repeats under this expression. -/
theorem back_flow_role_kept_iff_guarded :
    ∃ s, compile (revolvingOn (.expression, "x < 3") (.default, "")) 0 = .ok s ∧ ∃ loop,
      (s.spec.outgoing ⟨1⟩).filter (fun e => e.ordering = 1) = [loop] ∧ loop.target = some ⟨1⟩ ∧
        loop.predicate = "x < 3" := by
  obtain ⟨s, run, checked⟩ := exists_result (revolvingOn (.expression, "x < 3") (.default, "")) 0
    (fun s => decide (∃ f ∈ s.finished, f.container = .pool 0 ∧
      f.scope.map.find? ⟨2⟩ = some ⟨1⟩)) (by decide +kernel)
  obtain ⟨f, member, container, here⟩ := of_decide_eq_true checked
  have child : ⟨2⟩ ∈ (revolvingOn (.expression, "x < 3") (.default, "")).diagram.children
      f.container := by
    rw [container]
    decide
  obtain ⟨x, loop, there, _, only, _, target, keeps⟩ :=
    back_flow_role_kept_iff run member child rfl rfl (by decide : _ =
      [(⟨⟨2⟩, ⟨3⟩, "", .none, ""⟩, ⟨⟨3⟩, ⟨1⟩, "", .expression, "x < 3"⟩)])
  cases here.symm.trans there
  exact ⟨s, run, loop, only, target, (keeps.mpr (by decide)).guarded rfl⟩

/-- If another round is what happens by default, the task still repeats first: its edge to itself is
the one with the lowest ordering, without a predicate, and not the default edge. -/
theorem default_back_flow_first :
    (revolvingOn (.default, "") (.expression, "x >= 3")).diagram.gatewayCycles ⟨2⟩ =
      [(⟨⟨2⟩, ⟨3⟩, "", .none, ""⟩, ⟨⟨3⟩, ⟨1⟩, "", .default, ""⟩)] ∧
    ∃ s, compile (revolvingOn (.default, "") (.expression, "x >= 3")) 0 = .ok s ∧
      (∃ f ∈ s.finished, ∀ n ∈ ([⟨1⟩, ⟨2⟩, ⟨3⟩] : List Diagram.NodeId),
        f.scope.map.find? n = some ⟨1⟩) ∧
      s.spec.outgoing ⟨1⟩ =
        [{ Edge.plain ⟨1⟩ ⟨2⟩ 2 with predicate := "x >= 3" }, .plain ⟨1⟩ ⟨1⟩ 1] ∧
      ¬∃ loop ∈ s.spec.outgoing ⟨1⟩, loop.target = some ⟨1⟩ ∧ loop.isDefault = true ∧
        ∀ e ∈ s.spec.outgoing ⟨1⟩, e.ordering ≤ loop.ordering := by
  refine ⟨by decide, ?_⟩
  obtain ⟨s, run, checked⟩ := exists_result (revolvingOn (.default, "") (.expression, "x >= 3")) 0
    (fun s => decide ((∃ f ∈ s.finished, ∀ n ∈ ([⟨1⟩, ⟨2⟩, ⟨3⟩] : List Diagram.NodeId),
        f.scope.map.find? n = some ⟨1⟩) ∧
      s.spec.outgoing ⟨1⟩ =
        [{ Edge.plain ⟨1⟩ ⟨2⟩ 2 with predicate := "x >= 3" }, .plain ⟨1⟩ ⟨1⟩ 1]))
    (by decide +kernel)
  obtain ⟨folded, edges⟩ := of_decide_eq_true checked
  refine ⟨s, run, folded, edges, ?_⟩
  rw [edges]
  decide

end Compile

end ProcessNets
