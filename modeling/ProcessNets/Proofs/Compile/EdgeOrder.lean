import ProcessNets.Proofs.Compile.Finishing

/-!
# Orderings of finished nets

The edges of a node are numbered while flows are linked, and again by everything that refines the
net later. In every net of a result the orderings at a node count from 1 without a gap, but for
events that end the flow early.
-/

namespace ProcessNets.Compile

open Net Specification

variable {job : Job} {index : Int} {container : Diagram.Container} {scope scope' : Scope}
  {terminations : List Diagram.NodeId} {s t s₁ s₂ s₃ : State} {spec : Specification}
  {d : DecompositionId} {n : Diagram.NodeId} {x y : Net.NodeId} {f : FinishedNet}

/-! ### Nodes of activities -/

theorem not_shares_of_early {kind : Diagram.Kind} (h : EndsEarly kind) : ¬Shares kind := by
  rintro (gateway | rfl | rfl)
  · rcases h with rfl | rfl <;> cases gateway
  · rcases h with none | none <;> cases none
  · rcases h with none | none <;> cases none

/-- The task of an activity is not the task of an event that ends early. -/
theorem HasActivity.not_early (mapped : Mapped job spec scope)
    (h : HasActivity job scope.map x) : ¬IsEarly job scope.map x := by
  obtain ⟨n, activity, here, isActivity⟩ := h
  rintro ⟨m, there, early⟩
  rcases mapped.apart here there with rfl | shares | shares
  · rcases early with kind | kind <;> (rw [kind] at isActivity; cases isActivity)
  · exact not_shares_of_activity isActivity shares
  · exact not_shares_of_early early shares

/-- Events that end early keep their tasks while boundary events are routed. -/
theorem Course.isEarly (course : Course job container scope scope' terminations s s₁ s₂ s₃ t) :
    IsEarly job scope'.map y ↔ IsEarly job scope.map y := by
  unfold IsEarly
  refine exists_congr fun n => and_congr_left fun early => ?_
  rw [course.same (not_timer_of_early early)]

/-! ### Finished nets -/

/-- The orderings count from 1 at all nodes but those of events that end early. -/
def Orders (job : Job) (spec : Specification) (f : FinishedNet) : Prop :=
  ∀ y ∈ (spec.decomposition f.scope.net).nodes, ¬IsEarly job f.scope.map y →
    Orderly (spec.outgoing y)

theorem orders_local (job : Job) : Local (Orders job) := by
  intro s t f wf _ sameNodes _ details orders y hy lasting
  rw [sameNodes.nodes] at hy
  rw [details.outgoing_records wf hy]
  exact orders y hy lasting

section
variable (course : Course job container scope scope' terminations s s₁ s₂ s₃ t)
include course

theorem Course.linked_orderly : ∀ y ∈ (s₁.spec.decomposition scope.net).nodes,
    ¬IsEarly job scope.map y → Orderly (s₁.spec.outgoing y) := by
  intro y hy
  rw [course.nodes₁] at hy
  exact course.arranged.orderly y hy

theorem Course.orders : Orders job t.spec { container, scope := scope' } := by
  have kept := course.changes.orderly course.wf₁
    (fun _ routes z actor => (routes.actor z actor).not_early course.laid.mapped)
    course.linked_orderly
  intro y hy lasting
  rw [show ({ container, scope := scope' } : FinishedNet).scope.net = scope.net from course.net]
    at hy
  exact kept y hy fun early => lasting (course.isEarly.mpr early)

end

theorem compile_orders (h : compile job index = .ok s) :
    Compiled (Orders job) (initialState job index.toNat) s :=
  compile_compiled (orders_local job) (finishes_of_course Course.orders) h

/-- In every net of a result, the `k` edges that leave a node have the orderings 1 to `k`, each of
them once, unless the node is the task of an event that ends the flow early. -/
theorem edges_numbered (h : compile job index = .ok s)
    (hy : y ∈ (s.spec.decomposition d).nodes)
    (lasting : ∀ f ∈ s.finished, f.scope.net = d → ∀ n, f.scope.map.find? n = some y →
      ¬EndsEarly (job.diagram.node n).kind) :
    ((s.spec.outgoing y).map (·.ordering)).Perm (ordinals (s.spec.outgoing y).length) := by
  have compiled := compile_orders h
  obtain ⟨f, hf, rfl⟩ := compiled.covered d y hy
  refine (compiled.finished f hf).2 y hy ?_
  rintro ⟨n, here, early⟩
  exact lasting f hf rfl n here early

/-- A task with a handler of errors and a timer on its boundary, and one that repeats. -/
def attended : Job where
  diagram := sketch
    [.startEvent, .task { attached := [⟨4⟩, ⟨5⟩] } {}, .task { loops := true } {}, .endEvent .plain,
      .intermediate .error (some ⟨1⟩), .intermediate (.timer "" "") (some ⟨1⟩)]
    [(0, 1), (1, 2), (1, 3), (2, 3), (4, 2), (5, 3)]

theorem edges_numbered_attended : ∃ s, compile attended 0 = .ok s ∧
    ((s.spec.decomposition ⟨0⟩).nodes.map fun y => (s.spec.outgoing y).length) =
      [1, 2, 2, 0, 2, 1, 2] ∧
    ∀ y ∈ (s.spec.decomposition ⟨0⟩).nodes,
      ((s.spec.outgoing y).map (·.ordering)).Perm (ordinals (s.spec.outgoing y).length) := by
  obtain ⟨s, run, checked⟩ := exists_result attended 0
    (fun s => ((s.spec.decomposition ⟨0⟩).nodes.map fun y => (s.spec.outgoing y).length) ==
      [1, 2, 2, 0, 2, 1, 2]) (by decide +kernel)
  refine ⟨s, run, by simpa using checked, fun y hy => edges_numbered run hy ?_⟩
  intro f _ _ n _
  exact Diagram.node_of_stored (P := fun node => ¬EndsEarly node.kind) (by decide) (by decide) n

end ProcessNets.Compile
