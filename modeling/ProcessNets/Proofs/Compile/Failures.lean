import ProcessNets.Proofs.Compile.Finishing
import ProcessNets.Proofs.Diagram.Drawing

/-!
# Failures

A compilation fails if the diagram has no pool at the place asked for. Nothing else goes wrong:
faults are not caught, so one in any step would be the outcome of the whole, and drawn diagrams
give rise to none.
-/

namespace ProcessNets.Compile

open Diagram (Drawing)

variable {job : Job} {index : Int}

/-- In a well-typed diagram every node that is bound as a data object is one. -/
theorem not_mistyped (typed : job.diagram.DataTyped) (f : Fault) : ¬Mistyped job f := by
  rintro ⟨n, listed, other, _⟩
  rw [(typed n listed).2] at other
  cases other

/-- All steps for a pool succeed, even if the diagram does not have the pool. -/
theorem compilePool_succeeds (typed : job.diagram.DataTyped) (index : Nat) :
    ∃ s, (compilePool job index).run.run (initialState job index) = (.ok (), s) := by
  have outcome := ensures_compilePool (E := fun _ => False) (faithful_local job)
    (finishes_of_course Course.faithful) (not_mistyped typed) index
  obtain ⟨_, s, run, _⟩ := outcome.exists_run
  exact ⟨s, run⟩

theorem compile_of_inside (typed : job.diagram.DataTyped)
    (inside : 0 ≤ index ∧ index < job.diagram.pools.size) : ∃ s, compile job index = .ok s := by
  obtain ⟨s, done⟩ := compilePool_succeeds typed index.toNat
  have run : (compilePool job index.toNat).run (initialState job index.toNat) = (.ok (), s) := done
  refine ⟨s, ?_⟩
  unfold compile
  rw [if_pos inside, run]

theorem compile_of_outside (outside : ¬(0 ≤ index ∧ index < job.diagram.pools.size)) :
    compile job index = .error (.noPool index job.diagram.pools.size) := by
  unfold compile
  rw [if_neg outside]

/-- For drawn diagrams, a compilation fails exactly if the diagram lacks the pool, and says so. No
step for any pool reaches a fault. -/
theorem fails_iff_no_pool (drawing : Drawing job.diagram) (index : Int) :
    ((∃ failure, compile job index = .error failure) ↔
      index < 0 ∨ job.diagram.pools.size ≤ index) ∧
    (∀ failure, compile job index = .error failure →
      failure = .noPool index job.diagram.pools.size) ∧
    ∃ s, (compilePool job index.toNat).run.run (initialState job index.toNat) = (.ok (), s) := by
  have typed := drawing.dataTyped
  by_cases inside : 0 ≤ index ∧ index < job.diagram.pools.size
  · obtain ⟨s, run⟩ := compile_of_inside typed inside
    have never : ∀ failure, compile job index ≠ .error failure := by
      intro failure failed
      rw [run] at failed
      cases failed
    refine ⟨⟨fun ⟨failure, failed⟩ => (never failure failed).elim, by omega⟩, ?_,
      compilePool_succeeds typed _⟩
    exact fun failure failed => (never failure failed).elim
  · have run := compile_of_outside inside
    refine ⟨⟨fun _ => by omega, fun _ => ⟨_, run⟩⟩, ?_, compilePool_succeeds typed _⟩
    intro failure failed
    rw [run] at failed
    cases failed
    rfl

/-- A task that leads to itself twice, to the timer on its boundary and to a node that no container
holds, without any start or end event. -/
def tangled : Diagram :=
  let pooled : Diagram := ({} : Diagram).addPool { id := "P" }
  let placed := ((((pooled.addNode { kind := .task {} {}, id := "t" }).2.addNode
    { kind := .intermediate (.timer "" "") none, id := "e" }).2.addNode
    { kind := .endEvent .terminate, id := "x" }).2.adopt (.pool 0) [⟨0⟩, ⟨1⟩])
  let joined := ((((placed.connect ⟨0⟩ ⟨0⟩).2.connect ⟨0⟩ ⟨0⟩).2.connect ⟨0⟩ ⟨1⟩).2.connect ⟨0⟩ ⟨2⟩).2
  joined.attach ⟨1⟩ ⟨0⟩

theorem tangled_drawing : Drawing tangled := by
  refine .attach _ _ (.addEdge _ ?_ ?_ (.addEdge _ ?_ ?_ (.addEdge _ ?_ ?_ (.addEdge _ ?_ ?_
    (.adopt _ _ (.addNode _ rfl rfl (.addNode _ rfl rfl (.addNode _ rfl rfl
      (.addPool _ .empty))))))))) <;> decide

theorem fails_iff_no_pool_tangled : Drawing tangled ∧
    (∃ s, compile { diagram := tangled } 0 = .ok s) ∧
    compile { diagram := tangled } 1 = .error (.noPool 1 1) := by
  have size : tangled.pools.size = 1 := by decide
  have first := @fails_iff_no_pool { diagram := tangled } tangled_drawing 0
  have second := @fails_iff_no_pool { diagram := tangled } tangled_drawing 1
  refine ⟨tangled_drawing, ?_, ?_⟩
  · cases run : compile { diagram := tangled } 0 with
    | ok s => exact ⟨s, rfl⟩
    | error failure =>
      have lacks := first.1.mp ⟨failure, run⟩
      rw [size] at lacks
      omega
  · obtain ⟨failure, failed⟩ := second.1.mpr (.inr (by rw [size]; decide))
    rw [failed, second.2.1 failure failed, size]

end ProcessNets.Compile
