import ProcessNets.Proofs.Compile.Calls
import ProcessNets.Proofs.Compile.Finishing

/-!
# Edges of linked nets

The passes that rewrite a net lose none of its edges. Whatever net is being made, each edge that
it has once its flows are linked is still there when boundary events and self loops are done: with
its predicate, with its ends unless these moved to new tasks, and with a walk where it led.
-/

namespace ProcessNets.Compile

open Net Specification Relation

variable {job : Job} {container : Diagram.Container} {nested : Nested}
  {scope scope' linked : Scope} {terminations : List Diagram.NodeId} {s t u s₁ s₂ s₃ : State}
  {index levels : Nat}

theorem laidOut_of_linkNet (ready : Ready job container s)
    (run : (linkNet job (nestedBelow job levels) container).run.run s = (.ok linked, t)) :
    ∃ scope u, Prepared job container scope u ∧ LaidOut job container scope u ∧
      CancelFree u.spec scope.net ∧ (linkAll job scope).run.run u = (.ok linked, t) := by
  have stages : Ensures (Mistyped job) (linkNet job (nestedBelow job levels) container) s fun
      linked t =>
      ∃ scope u, Prepared job container scope u ∧ LaidOut job container scope u ∧
        CancelFree u.spec scope.net ∧ (linkAll job scope).run.run u = (.ok linked, t) := by
    unfold linkNet
    refine (ensures_layOut local_anyhow (nests_anyhow levels) ready.wf ready.clear
      ready.opens).traced.seq ?_
    rintro scope u ⟨laying, _, _, _, laid, free⟩
    refine ((ensures_bindData fun _ h => h).and_result
      (routine_bindData (R := Minor fun _ _ => False) u)).traced.seq ?_
    rintro _ u' ⟨run, quiet, binding⟩
    have prepared : Prepared job container scope u' :=
      ⟨levels, s, u, ready, laying, run⟩
    have laid' := laid.quiet quiet
    have free' := free.minor binding.change
    have course := ensures_course (E := Mistyped job) prepared laid' free'
    rw [ensures_bind] at course
    exact course.traced.mono fun linked t link => ⟨scope, u', prepared, laid', free', link.1⟩
  exact stages.of_ok run

theorem Stages.rewrite (h : Stages job scope linked scope' s s₁ s₂ s₃ t) :
    (Compile.rewrite job linked).run.run s₁ = (.ok scope', s₃) := by
  unfold Compile.rewrite
  rw [run_bind_ok h.route, run_bind_ok h.loop]
  rfl

section
variable (course : Course job container scope scope' terminations s s₁ s₂ s₃ t)
include course

theorem Course.edgesKept : EdgesKept scope.net s₁.spec s₃.spec := by
  have looped := course.looped.edges
  have looping := course.looped.steps
  rw [course.net] at looped looping
  exact course.routed.rewired.edges.trans looped course.routed.rewired.steps.grows looping.grows

theorem Course.rewritten : s₁.spec.Extends s₃.spec :=
  course.routed.rewired.steps.grows.trans course.looped.steps.grows

theorem Course.walks : Keeps scope.net s₁.spec s₃.spec := by
  have looped := course.looped.keeps
  rw [course.net] at looped
  exact course.routed.rewired.keeps.trans looped

end

/-- Rewriting a linked net succeeds. It takes no node from any net, and no edge from the net: edges
keep their predicates, their ends stay or move to new tasks, and where an edge led, a walk leads. -/
theorem linked_edges_survive (call : Calls job index levels container s)
    (linking : (linkNet job (nestedBelow job levels) container).run.run s = (.ok scope, t)) :
    ∃ scope' u, (rewrite job scope).run.run t = (.ok scope', u) ∧ scope'.net = scope.net ∧
      (∀ c, ∀ n ∈ (t.spec.decomposition c).nodes, n ∈ (u.spec.decomposition c).nodes) ∧
      EdgesKept scope.net t.spec u.spec ∧
      ∀ a b, Joins t.spec scope.net a b → TransGen (Joins u.spec scope.net) a b := by
  obtain ⟨laid, v, prepared, laidOut, free, link⟩ := laidOut_of_linkNet call.ready linking
  obtain ⟨scope', _, _, terminations, s₁, s₂, s₃, course⟩ :=
    (ensures_course (E := fun _ => False) prepared laidOut free).exists_run
  obtain ⟨same, rfl⟩ := Prod.mk.inj (link.symm.trans course.stages.link)
  cases same
  refine ⟨scope', s₃, course.stages.rewrite, course.net, fun c n => ?_, course.edgesKept, ?_⟩
  · exact course.rewritten.mem_nodes
  · exact course.walks

/-- A task that repeats and has a timer, before two nodes that start in parallel. -/
def guarded : Job where
  diagram := sketch
    [.startEvent, .task { loops := true, loopCondition := "again", attached := [⟨5⟩] } {},
      .gateway .parallel, .task {} {}, .endEvent .plain, .intermediate (.timer "" "") (some ⟨1⟩)]
    [(0, 1), (1, 2), (2, 3), (2, 4), (3, 4), (5, 4)]

/-- The edges into and out of the task end at other tasks afterwards. -/
theorem linked_edges_survive_guarded : ∃ scope t,
    (linkNet guarded (nestedBelow guarded 63) (.pool 0)).run.run (poolState guarded 0) =
      (.ok scope, t) ∧ Joins t.spec scope.net ⟨0⟩ ⟨1⟩ ∧ Joins t.spec scope.net ⟨1⟩ ⟨2⟩ ∧
    ∃ scope' u, (rewrite guarded scope).run.run t = (.ok scope', u) ∧
      ¬Joins u.spec scope.net ⟨0⟩ ⟨1⟩ ∧ ¬Joins u.spec scope.net ⟨1⟩ ⟨2⟩ ∧
      TransGen (Joins u.spec scope.net) ⟨0⟩ ⟨1⟩ ∧ TransGen (Joins u.spec scope.net) ⟨1⟩ ⟨2⟩ := by
  obtain ⟨scope, t, linking, checked⟩ := exists_run_of_check
    (x := linkNet guarded (nestedBelow guarded 63) (.pool 0)) (s := poolState guarded 0)
    (fun scope t => decide (Joins t.spec scope.net ⟨0⟩ ⟨1⟩ ∧ Joins t.spec scope.net ⟨1⟩ ⟨2⟩) &&
      match (rewrite guarded scope).run.run t with
      | (.ok _, u) =>
        decide (¬Joins u.spec scope.net ⟨0⟩ ⟨1⟩ ∧ ¬Joins u.spec scope.net ⟨1⟩ ⟨2⟩)
      | (.error _, _) => false) (by decide +kernel)
  obtain ⟨joined, moved⟩ := Bool.and_eq_true_iff.mp checked
  obtain ⟨before, behind⟩ := of_decide_eq_true joined
  obtain ⟨scope', u, rewritten, _, _, _, walks⟩ := linked_edges_survive .pool linking
  rw [rewritten] at moved
  obtain ⟨elsewhere, beyond⟩ := of_decide_eq_true moved
  exact ⟨scope, t, linking, before, behind, scope', u, rewritten, elsewhere, beyond,
    walks _ _ before, walks _ _ behind⟩

end ProcessNets.Compile
