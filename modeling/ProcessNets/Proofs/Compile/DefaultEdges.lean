import ProcessNets.Proofs.Compile.EdgeOrder
import ProcessNets.Proofs.Compile.KeptFlows

/-!
# Default edges of finished nets

A task has at most one default edge. Linking puts it last, and everything that refines the net
later keeps it last but for one thing: timers that a task starts together with the next task get
edges behind all others.
-/

namespace ProcessNets.Compile

open Net Specification

variable {job : Job} {index : Int} {container : Diagram.Container} {scope scope' : Scope}
  {terminations : List Diagram.NodeId} {s t s₁ s₂ s₃ : State} {d : DecompositionId}
  {x : Net.NodeId}

/-! ### Finished nets -/

/-- The default edge of every task is the last one but for edges to timers that run from when they
execute. -/
def DefaultsLast (job : Job) (spec : Specification) (f : FinishedNet) : Prop :=
  job.diagram.Drawn → (job.diagram.children f.container).Nodup →
    ∀ x ∈ (spec.decomposition f.scope.net).nodes, (spec.task? x).isSome →
      DefaultLast spec.RunsOnExecuting (spec.outgoing x)

theorem defaultsLast_local (job : Job) : Local (DefaultsLast job) := by
  intro s t f wf _ sameNodes _ details last drawn nodup x hx isTask
  rw [sameNodes.nodes] at hx
  rw [details.isTask hx] at isTask
  rw [details.outgoing_records wf hx]
  refine (last drawn nodup x hx isTask).mono fun e he m target runs => ?_
  obtain ⟨_, k, hk, there⟩ := ends_of_outgoing wf hx he
  cases there.symm.trans target
  exact (details.runsOnExecuting hk).mpr runs

/-- A node that was a condition when the net was laid out. -/
def OldCondition (base : Specification) (d : DecompositionId) (y : Net.NodeId) : Prop :=
  y ∈ (base.decomposition d).nodes ∧ ¬(base.task? y).isSome

section
variable (course : Course job container scope scope' terminations s s₁ s₂ s₃ t)
include course

/-- The edges are in order as soon as the flows are linked. -/
theorem Course.linked_inOrder (drawn : job.diagram.Drawn)
    (nodup : (job.diagram.children container).Nodup) :
    InOrder scope.net (· ∈ (s.spec.decomposition scope.net).nodes) (IsEarly job scope.map)
      (OldCondition s.spec scope.net) s₁.spec where
  orderly := course.linked_orderly
  defaultLast y hy visible := by
    rw [course.nodes₁] at hy
    have isTask : (s.spec.task? y).isSome := by
      by_contra other
      exact visible ⟨hy, other⟩
    exact (course.arranged.defaultLast (course.laid.sole drawn nodup) y hy isTask).mono
      fun _ _ _ _ none => none.elim

theorem Course.defaultsLast : DefaultsLast job t.spec { container, scope := scope' } := by
  intro drawn nodup x hx isTask
  have mapped := course.laid.mapped
  have inOrder := course.changes.inOrder course.wf₁ (fun act routes z actor => ?_)
    (fun _ routes => routes.started) (course.linked_inOrder drawn nodup)
  · rw [show ({ container, scope := scope' } : FinishedNet).scope.net = scope.net from course.net]
      at hx
    refine (inOrder.defaultLast x hx ?_).mono fun _ _ _ _ late => late.1
    rintro ⟨isOld, other⟩
    rw [isTask_iff, course.steps.grows.isCondition (course.laid.wf.node_stored isOld),
      ← isTask_iff] at isTask
    exact other isTask
  · have acts := routes.actor z actor
    have ⟨n, activity, here, isActivity⟩ := acts
    refine ⟨mapped.mem here, acts.not_early mapped, fun free => free.2 ?_⟩
    exact (Stands.of_activity isActivity).mp (mapped.stands here)

end

theorem compile_defaultsLast (h : compile job index = .ok s) :
    Compiled (DefaultsLast job) (initialState job index.toNat) s :=
  compile_compiled (defaultsLast_local job) (finishes_of_course Course.defaultsLast) h

/-- In every net of a result, a task has at most one default edge, and edges behind it lead to
timers that run from when their tasks execute, as the timers of activities do. -/
theorem default_edge_last (h : compile job index = .ok s) (drawn : job.diagram.Drawn)
    (once : ∀ f ∈ s.finished, (job.diagram.children f.container).Nodup)
    (hx : x ∈ (s.spec.decomposition d).nodes) (isTask : (s.spec.task? x).isSome) :
    (s.spec.outgoing x).countP (·.isDefault) ≤ 1 ∧
    ∀ e ∈ s.spec.outgoing x, e.isDefault = true → ∀ e' ∈ s.spec.outgoing x,
      e.ordering < e'.ordering → ∃ m, e'.target = some m ∧ s.spec.RunsOnExecuting m := by
  have compiled := compile_defaultsLast h
  obtain ⟨f, hf, rfl⟩ := compiled.covered d x hx
  have last := (compiled.finished f hf).2 drawn (once f hf) x hx isTask
  exact ⟨last.one, last.last⟩

/-- A task with an exclusive gateway behind it, whose default flow leads to an activity with a
timer. -/
def overtaken : Job where
  diagram :=
    let drawn := sketch
      [.startEvent, .task {} {}, .gateway .exclusive, .task { attached := [⟨5⟩] } {},
        .endEvent .plain, .intermediate (.timer "" "") (some ⟨3⟩)] [(0, 1), (1, 2), (3, 4), (5, 4)]
    ((drawn.connect ⟨2⟩ ⟨4⟩ .expression "x").2.connect ⟨2⟩ ⟨3⟩ .default).2

theorem drawn_overtaken : overtaken.diagram.Drawn := by
  refine Diagram.EndsListed.drawn (.addEdge ?_ ?_ (.addEdge ?_ ?_ (endsListed_sketch ?_)))
  all_goals decide

/-- The edge behind the default edge leads to the timer. -/
theorem default_edge_last_overtaken : ∃ s, compile overtaken 0 = .ok s ∧
    (s.spec.outgoing ⟨1⟩).map (fun e => (e.ordering, e.isDefault, e.target)) =
      [(1, false, some ⟨3⟩), (2, true, some ⟨2⟩), (3, false, some ⟨4⟩)] ∧
    s.spec.RunsOnExecuting ⟨4⟩ := by
  obtain ⟨s, run, checked⟩ := exists_result overtaken 0
    (fun s => decide (s.finished.map (·.container) = [.pool 0] ∧
      ⟨1⟩ ∈ (s.spec.decomposition ⟨0⟩).nodes ∧ (s.spec.task? ⟨1⟩).isSome ∧
      (s.spec.outgoing ⟨1⟩).map (fun e => (e.ordering, e.isDefault, e.target)) =
        [(1, false, some ⟨3⟩), (2, true, some ⟨2⟩), (3, false, some ⟨4⟩)])) (by decide +kernel)
  obtain ⟨containers, mem, isTask, edges⟩ := of_decide_eq_true checked
  have listed : ∀ k flag target, (k, flag, target) ∈
      (s.spec.outgoing ⟨1⟩).map (fun e => (e.ordering, e.isDefault, e.target)) →
      ∃ e ∈ s.spec.outgoing ⟨1⟩, e.ordering = k ∧ e.isDefault = flag ∧ e.target = target := by
    intro k flag target member
    obtain ⟨e, he, same⟩ := List.mem_map.mp member
    simp only [Prod.mk.injEq] at same
    exact ⟨e, he, same⟩
  obtain ⟨e, he, order, isDefault, _⟩ := listed 2 true (some ⟨2⟩) (by rw [edges]; decide)
  obtain ⟨e', he', order', _, target⟩ := listed 3 false (some ⟨4⟩) (by rw [edges]; decide)
  have last := default_edge_last (d := ⟨0⟩) run drawn_overtaken ?_ mem isTask
  · obtain ⟨m, isTarget, runs⟩ := last.2 e he isDefault e' he' (by omega)
    cases target.symm.trans isTarget
    exact ⟨s, run, edges, runs⟩
  · intro f hf
    have container := List.mem_map_of_mem (f := (·.container)) hf
    rw [containers, List.mem_singleton] at container
    rw [container]
    decide

/-- The default edge is not always the last one. -/
theorem default_edge_overtaken : ¬∀ job index s, compile job index = .ok s →
    job.diagram.Drawn → (∀ n, OneDefault job n) → ∀ d, ∀ x ∈ (s.spec.decomposition d).nodes,
      (s.spec.task? x).isSome → ∀ e ∈ s.spec.outgoing x, e.isDefault = true →
        ∀ e' ∈ s.spec.outgoing x, e'.ordering ≤ e.ordering := by
  intro all
  obtain ⟨s, run, checked⟩ := exists_result overtaken 0
    (fun s => decide (⟨1⟩ ∈ (s.spec.decomposition ⟨0⟩).nodes ∧ (s.spec.task? ⟨1⟩).isSome ∧
      ∃ e ∈ s.spec.outgoing ⟨1⟩, e.isDefault = true ∧
        ∃ e' ∈ s.spec.outgoing ⟨1⟩, ¬e'.ordering ≤ e.ordering)) (by decide +kernel)
  obtain ⟨mem, isTask, e, he, isDefault, e', he', above⟩ := of_decide_eq_true checked
  have single : ∀ n, OneDefault overtaken n := oneDefault_of_stored (by decide)
  exact above (all overtaken 0 s run drawn_overtaken single ⟨0⟩ ⟨1⟩ mem isTask e he isDefault e' he')

end ProcessNets.Compile
