import ProcessNets.Proofs.Compile.Calls
import ProcessNets.Proofs.Compile.FoldedChains

/-!
# Prepared nets

What is known of every net when its flows are about to be linked: the nodes of the diagram that
share a task form a chain, and only some kinds of nodes have conditions.
-/

namespace ProcessNets.Compile

open Net Specification

variable {E : Fault → Prop} {Good : Specification → FinishedNet → Prop} {job : Job}
  {container : Diagram.Container} {nested : Nested} {scope : Scope} {s t : State}
  {n : Diagram.NodeId} {y : Net.NodeId} {map : NodeMap} {base : Nat}

theorem ensures_placeAll_hosts (nests : Nests (fun _ => True) Good job nested) (good : Local Good)
    (ready : Ready job container s) :
    Ensures (fun _ => True) (placeAll job nested container) s fun scope _ => scope.hosts =
      (job.diagram.children container).filter fun n => decide (IsHost job n) := by
  unfold placeAll
  refine (ensures_openNet ready.opens).seq fun d s₁ opened => ?_
  exact (ensures_placeChildren good nests (opened.laying ready.wf ready.clear) _).mono
    fun _ _ placed => placed.2.1

/-- What is kept when a control gateway gets a task holds after all gateways are folded. -/
theorem ensures_foldAll_keeps {P : NodeMap → Specification → Prop} {done : List Diagram.NodeId}
    (h : Laying job done scope.gateways scope s)
    (control : ∀ n ∈ scope.gateways, (job.diagram.node n).kind.isControlGateway = true)
    (keeps : ∀ {map spec spec' n y}, P map spec → spec.Extends spec' →
      (∀ m z, map.find? m = some z → z.index < spec.nodes.size) →
      (job.diagram.node n).kind.isControlGateway = true → (spec'.task? y).isSome →
      y.index < spec'.nodes.size → P (map.insert n y) spec')
    (start : P scope.map s.spec) :
    Ensures E (foldAll job scope) s fun scope' t => P scope'.map t.spec := by
  refine (ensures_foldAll_of_fold (P := fun scope' t => P scope'.map t.spec) local_anyhow h start
    ?_).mono fun _ _ folded => folded.2.2.2.2
  intro n rest scope' t here laid kept
  refine .anyhow fun folded u y _ progress laid' => ?_
  have found := NodeMap.find?_insert_self scope'.map n y
  have isTask : (u.spec.task? y).isSome := by
    have stands := laid'.mapped.stands found
    have isControl := control n here
    unfold Stands at stands
    cases kind : (job.diagram.node n).kind with
    | gateway routing =>
      rw [kind] at stands isControl
      refine stands ?_
      rintro rfl
      cases isControl
    | _ =>
      rw [kind] at isControl
      cases isControl
  exact keeps kept progress.steps.grows
    (fun m z found => laid.wf.node_stored (laid.mapped.mem found)) (control n here) isTask
    (laid'.wf.node_stored (laid'.mapped.mem found))

/-- The chains stay when other nodes are added and no decorator is set. -/
theorem Chained.same {spec spec' : Specification} (h : Chained job base spec map)
    (same : SameDecorators spec spec') (grows : spec.Extends spec')
    (stored : ∀ n y, map.find? n = some y → y.index < spec.nodes.size) :
    Chained job base spec' map := by
  intro n y found task
  rw [grows.isCondition (stored n y found)] at task
  obtain ⟨nodes, chain⟩ := h n y found task
  exact ⟨nodes, chain.mem, chain.nodup, chain.linked, (same.split y).trans chain.split,
    (same.join y).trans chain.join, chain.alone⟩

/-- When a net is about to be linked, the nodes that share a task form a chain, and conditions have
gone to the nodes that may have them. -/
theorem Prepared.counterparts (h : Prepared job container scope t)
    (paired : job.diagram.Paired) :
    (∃ base, Chained job base t.spec scope.map) ∧ Conditions job scope.map t.spec := by
  obtain ⟨levels, s, u, ready, laying, binding⟩ := h
  have nests := nests_weak job levels
  have laidOut : Ensures (fun _ => True) (layOut job (nestedBelow job levels) container) s fun scope u =>
      (∃ base, Chained job base u.spec scope.map) ∧ Conditions job scope.map u.spec ∧
        ∀ n y, scope.map.find? n = some y → y.index < u.spec.nodes.size := by
    rw [layOut_eq]
    refine ((ensures_placeAll nests local_anyhow ready).and
      (ensures_placeAll_hosts nests local_anyhow ready)).seq ?_
    rintro scope₁ s₁ ⟨⟨laid, unfolded⟩, hosts⟩
    refine (((ensures_foldAll_chained paired laid (unfolded.chained laid.mapped laid.wf)).and
      (ensures_foldAll_keeps (P := Conditions job) laid unfolded.control
        (fun conditions grows stored control isTask _ =>
          conditions.fold grows stored control isTask) unfolded.conditions)).and
        (ensures_foldAll local_anyhow laid)).seq ?_
    rintro scope₂ s₂ ⟨⟨⟨_, laid₂, chained⟩, conditions⟩, _, hosts₂, _⟩
    refine ((ensures_closeConditions local_anyhow laid₂ (hosts₂.trans hosts)).and_result
      (routine_closeConditions (R := SameDecorators) .of_edgesOnly s₂)).seq ?_
    rintro _ s₃ ⟨⟨progress, laid₃⟩, closing⟩
    have stored : ∀ n y, scope₂.map.find? n = some y → y.index < s₂.spec.nodes.size :=
      fun n y found => laid₂.wf.node_stored (laid₂.mapped.mem found)
    exact ⟨⟨_, chained.same closing.change progress.steps.grows stored⟩,
      conditions.grow progress.steps.grows stored,
      fun n y found => laid₃.wf.node_stored (laid₃.mapped.mem found)⟩
  obtain ⟨⟨base, chained⟩, conditions, stored⟩ := laidOut.of_ok laying
  have quiet : Quiet u t := (ensures_bindData (E := fun _ => True) fun _ _ => trivial).of_ok binding
  have routine : Routine SameDecorators u t := routine_bindData.of_run binding
  have grows : u.spec.Extends t.spec := quiet.spec.grows
  exact ⟨⟨base, chained.same routine.change grows stored⟩, conditions.grow grows stored⟩

end ProcessNets.Compile
