import ProcessNets.Proofs.Net.Editing

/-!
# Sessions of calls

The calls that edit a decomposition keep every specification well-formed, in any number and order,
as long as the nodes that they are given are nodes of the decomposition. A call that fails counts
with what it changed.
-/

namespace ProcessNets

open Net

variable {s : Specification} {d : DecompositionId}

namespace Net

/-- A call that edits one decomposition. -/
inductive Call where
  | createTask (id name : String) (split join : Decorator)
  | createCondition (id name : String)
  | createInputCondition (id name : String)
  | createOutputCondition (id name : String)
  | createEdge (source target : NodeId) (ordering : Int) (predicate : String) (isDefault : Bool)
  | removeEdge (e : EdgeId)
  | moveOutgoing (source newSource : NodeId)
  | moveIncoming (target newTarget : NodeId)
deriving DecidableEq, Repr

namespace Call

/-- The nodes that a call is given. -/
def nodes : Call → List NodeId
  | .createEdge source target .. => [source, target]
  | .moveOutgoing source newSource => [source, newSource]
  | .moveIncoming target newTarget => [target, newTarget]
  | _ => []

/-- The operation that a call runs. -/
def operation (d : DecompositionId) : Call → Edit Unit
  | .createTask id name split join => do let _ ← Edit.createTask d id name split join
  | .createCondition id name => do let _ ← Edit.createCondition d id name
  | .createInputCondition id name => do let _ ← Edit.createInputCondition d id name
  | .createOutputCondition id name => do let _ ← Edit.createOutputCondition d id name
  | .createEdge source target ordering predicate isDefault => do
    let _ ← Edit.link d source target ordering predicate isDefault
  | .removeEdge e => Edit.removeEdge d e
  | .moveOutgoing source newSource => Edit.moveOutgoing d source newSource
  | .moveIncoming target newTarget => Edit.moveIncoming d target newTarget

/-- What a call leaves behind, whether it succeeds or fails. -/
def after (c : Call) (d : DecompositionId) (s : Specification) : Specification :=
  ((c.operation d).run.run s).2

/-- A terminal is found, or added to a decomposition without it. -/
theorem wellFormed_createTerminal (wf : s.WellFormed)
    (stored : d.index < s.decompositions.size) (x : Terminal) {id name : String} :
    Ensures (fun _ => False) (do let _ ← Edit.createTerminal d x id name) s fun _ t =>
      t.WellFormed := by
  rw [ensures_bind, Edit.ensures_createTerminal]
  cases missing : (s.decomposition d).terminal x with
  | some n => exact wf
  | none => exact wf.addTerminal id name stored missing

theorem wellFormed_move (side : Side) (wf : s.WellFormed) {a b : NodeId}
    (ha : a ∈ (s.decomposition d).nodes) (hb : b ∈ (s.decomposition d).nodes) :
    Ensures (fun _ => False) (Edit.moveEnds d side a b) s fun _ t => t.WellFormed :=
  (Edit.ensures_moveEnds side wf ha hb (fun _ => True) trivial
    fun _ _ _ _ _ _ _ _ _ _ => trivial).mono fun _ _ h => h.1

theorem wellFormed (c : Call) (wf : s.WellFormed) (stored : d.index < s.decompositions.size)
    (inside : ∀ n ∈ c.nodes, n ∈ (s.decomposition d).nodes) : (c.after d s).WellFormed := by
  -- only removing an edge may fail
  by_cases unlisted : ∃ e, c = .removeEdge e ∧ e ∉ (s.decomposition d).edges
  · obtain ⟨e, rfl, absent⟩ := unlisted
    have unchanged : (removeEdge e).after d s = s :=
      congrArg Prod.snd (Edit.removeEdge_run_of_not_mem absent)
    rw [unchanged]
    exact wf
  have ensured : Ensures (fun _ => False) (c.operation d) s fun _ t => t.WellFormed := by
    cases c with
    | createTask id name split join => exact wf.addNode Node.edgesAt_bare rfl stored
    | createCondition id name => exact wf.addNode Node.edgesAt_bare rfl stored
    | createInputCondition id name => exact wellFormed_createTerminal wf stored .input
    | createOutputCondition id name => exact wellFormed_createTerminal wf stored .output
    | createEdge source target ordering predicate isDefault =>
      have hs := inside source List.mem_cons_self
      have ht := inside target (List.mem_cons_of_mem _ List.mem_cons_self)
      show Ensures _ (do let _ ← Edit.link d source target ordering predicate isDefault) s _
      rw [ensures_bind]
      apply Edit.ensures_link
      exact wf.addEdge (Side.pick_mem hs ht) (Edge.endpoint_pick rfl rfl)
    | removeEdge e =>
      have listed : e ∈ (s.decomposition d).edges :=
        Decidable.of_not_not fun absent => unlisted ⟨e, rfl, absent⟩
      obtain ⟨a, ha, b, hb, source, target⟩ := wf.exists_ends listed
      apply Edit.ensures_removeEdge (wf.agree d) listed source target
      exact wf.unlistEdge (Side.pick_mem ha hb) (Edge.endpoint_pick source target)
    | moveOutgoing source newSource =>
      have ha := inside source List.mem_cons_self
      have hb := inside newSource (List.mem_cons_of_mem _ List.mem_cons_self)
      exact wellFormed_move .source wf ha hb
    | moveIncoming target newTarget =>
      have ha := inside target List.mem_cons_self
      have hb := inside newTarget (List.mem_cons_of_mem _ List.mem_cons_self)
      exact wellFormed_move .target wf ha hb
  obtain ⟨_, t, run, ht⟩ := ensured.exists_run
  unfold after
  rw [run]
  exact ht

end Call

end Net

namespace Specification

/-- A specification made by calls, each on a decomposition that is there and on nodes of it. -/
inductive Reached : Specification → Prop
  | empty (id typeDefinition : String) : Reached { id, typeDefinition }
  | createDecomposition {t : Specification} (id : String) (facts : Facts) (isRoot : Bool)
      (before : Reached t) : Reached (t.addDecomposition { id, facts, isRoot })
  | call {t : Specification} (c : DecompositionId) (call : Call)
      (stored : c.index < t.decompositions.size)
      (inside : ∀ n ∈ call.nodes, n ∈ (t.decomposition c).nodes) (before : Reached t) :
    Reached (call.after c t)

theorem Reached.wellFormed (h : Reached s) : s.WellFormed := by
  induction h with
  | empty id typeDefinition => exact wellFormed_of_empty rfl
  | createDecomposition id facts isRoot _ ih =>
    exact ih.addDecomposition rfl rfl Decomposition.terminal_bare
  | call c call stored inside _ ih => exact call.wellFormed ih stored inside

end Specification

end ProcessNets
