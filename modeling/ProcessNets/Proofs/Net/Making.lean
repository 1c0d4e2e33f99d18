import ProcessNets.Proofs.Net.Sessions

/-!
# Making specifications

A specification is made by creating decompositions, nodes and edges, and by filling in the data of
tasks and the variables of decompositions, in any order. Edges may join any two nodes. Whatever is
made, the input and the output condition of a decomposition are its only nodes of these kinds.
-/

namespace ProcessNets

open Net

namespace Net

/-- A call that creates something out of what is there. -/
def Call.Creates (s : Specification) : Call → Prop
  | .createEdge source target ordering _ _ =>
    source.index < s.nodes.size ∧ target.index < s.nodes.size ∧ 0 ≤ ordering
  | .removeEdge _ | .moveOutgoing _ _ | .moveIncoming _ _ => False
  | _ => True

instance (s : Specification) : DecidablePred (Call.Creates s) := fun call => by
  cases call <;> unfold Call.Creates <;> infer_instance

end Net

namespace Specification

variable {s : Specification} {d : DecompositionId}

/-- A specification made by calls that create, none of them with a negative ordering, and by filling
in data. -/
inductive Made : Specification → Prop
  | empty (id typeDefinition : String) : Made { id, typeDefinition }
  | createDecomposition {t : Specification} (id : String) (facts : Facts) (isRoot : Bool)
      (before : Made t) : Made (t.addDecomposition { id, facts, isRoot })
  | create {t : Specification} (c : DecompositionId) (call : Call)
      (stored : c.index < t.decompositions.size) (creates : call.Creates t) (before : Made t) :
    Made (call.after c t)
  | fillTask {t : Specification} (n : NodeId) (f : Task → Task) (before : Made t) :
    Made (t.modifyTask n f)
  | fillVariables {t : Specification} (c : DecompositionId) (which : VariableList)
      (f : List Variable → List Variable) (before : Made t) :
    Made (t.modifyDecomposition c (·.modifyList which f))

/-! ### What a call creates -/

/-- What an operation ensures holds after its call, if the operation cannot fail. -/
theorem after_of_ensures {call : Call} {P : Specification → Prop}
    (ensured : Ensures (fun _ => False) (call.operation d) s fun _ t => P t) :
    P (call.after d s) := by
  obtain ⟨_, t, run, ht⟩ := ensured.exists_run
  unfold Call.after
  rw [run]
  exact ht

/-- A terminal is created once. -/
theorem after_of_terminal {call : Call} {x : Terminal} {id name : String}
    (same : call.operation d = do let _ ← Edit.createTerminal d x id name) :
    call.after d s = s ∨
      (s.decomposition d).terminal x = none ∧ call.after d s = s.addTerminal d x id name := by
  refine after_of_ensures (P := fun t => t = s ∨
    (s.decomposition d).terminal x = none ∧ t = s.addTerminal d x id name) ?_
  rw [same, ensures_bind, Edit.ensures_createTerminal]
  cases missing : (s.decomposition d).terminal x with
  | some n => exact .inl rfl
  | none => exact .inr ⟨rfl, rfl⟩

theorem after_createEdge {source target : NodeId} {ordering : Int} {predicate : String}
    {isDefault : Bool} :
    (Call.createEdge source target ordering predicate isDefault).after d s = s.addEdge d
      { source := some source, target := some target, isDefault, predicate, ordering }
        source target := by
  refine after_of_ensures (P := fun t => t = s.addEdge d _ source target) ?_
  show Ensures _ (do let _ ← Edit.link d source target ordering predicate isDefault) s _
  rw [ensures_bind]
  exact Edit.ensures_link rfl

/-- What a call creates: nothing, if the terminal is there already, or a node without edges, a
terminal, or an edge. -/
theorem after_of_creates (call : Call) (creates : call.Creates s) :
    call.after d s = s ∨
    (∃ x : Node, x.kind.isBoundary = false ∧ call.after d s = s.addNode d x) ∨
    (∃ x id name, (s.decomposition d).terminal x = none ∧
      call.after d s = s.addTerminal d x id name) ∨
    ∃ (edge : Edge) (a b : NodeId), a.index < s.nodes.size ∧ b.index < s.nodes.size ∧
      0 ≤ edge.ordering ∧ call.after d s = s.addEdge d edge a b := by
  have terminal : ∀ x id name, call.operation d = (do let _ ← Edit.createTerminal d x id name) →
      call.after d s = s ∨ ∃ x id name, (s.decomposition d).terminal x = none ∧
        call.after d s = s.addTerminal d x id name := fun x id name same =>
    (after_of_terminal same).imp_right fun added => ⟨x, id, name, added⟩
  cases call with
  | createTask id name split join => exact .inr (.inl ⟨_, rfl, rfl⟩)
  | createCondition id name => exact .inr (.inl ⟨_, rfl, rfl⟩)
  | createInputCondition id name =>
    exact (terminal .input id name rfl).imp_right fun added => .inr (.inl added)
  | createOutputCondition id name =>
    exact (terminal .output id name rfl).imp_right fun added => .inr (.inl added)
  | createEdge source target ordering predicate isDefault =>
    obtain ⟨ha, hb, ordered⟩ := creates
    exact .inr (.inr (.inr ⟨_, source, target, ha, hb, ordered, after_createEdge⟩))
  | removeEdge _ => exact creates.elim
  | moveOutgoing _ _ => exact creates.elim
  | moveIncoming _ _ => exact creates.elim

/-! ### What is kept -/

theorem kind_eq_terminal_modifyTask {n m : NodeId} {f : Task → Task} (x : Terminal) :
    ((s.modifyTask n f).node m).kind = x.kind ↔ (s.node m).kind = x.kind := by
  unfold modifyTask
  rw [node_modifyNode]
  split
  · cases (s.node m).kind <;> cases x <;> simp [Kind.modifyTask, Terminal.kind]
  · rfl

theorem Framed.modifyTask (framed : s.Framed) (n : NodeId) (f : Task → Task) :
    (s.modifyTask n f).Framed :=
  framed.congr (Nat.le_of_eq (nodes_size_modifyNode _).symm) (fun _ => rfl) (fun _ _ => rfl)
    fun _ x => kind_eq_terminal_modifyTask x

theorem Framed.modifyVariables (framed : s.Framed) (c : DecompositionId) (which : VariableList)
    (f : List Variable → List Variable) :
    (s.modifyDecomposition c (·.modifyList which f)).Framed := by
  refine framed.congr (Nat.le_refl _) (fun d => ?_) (fun d x => ?_) fun _ _ => Iff.rfl
  · rw [decomposition_modifyDecomposition]
    split
    · cases which <;> rfl
    · rfl
  · rw [decomposition_modifyDecomposition]
    split
    · cases which <;> cases x <;> rfl
    · rfl

theorem Framed.addEdge (framed : s.Framed) {edge : Edge} {a b : NodeId}
    (ha : a.index < s.nodes.size) (hb : b.index < s.nodes.size) :
    (s.addEdge d edge a b).Framed := by
  refine framed.congr (Nat.le_of_eq (nodes_size_addEdge _).symm) (fun c => ?_) (fun c x => ?_)
    fun n x => ?_
  · rw [decomposition_addEdge]
    split <;> rfl
  · rw [decomposition_addEdge]
    split
    · cases x <;> rfl
    · rfl
  · rw [node_addEdge edge ha hb]

theorem Made.framed (made : s.Made) : s.Framed := by
  induction made with
  | empty id typeDefinition => exact (wellFormed_of_empty rfl).framed
  | createDecomposition id facts isRoot _ ih =>
    exact ih.addDecomposition rfl Decomposition.terminal_bare
  | create c call stored creates _ ih =>
    rcases after_of_creates (d := c) call creates with
      same | ⟨x, plain, same⟩ | ⟨x, id, name, missing, same⟩ | ⟨edge, a, b, ha, hb, _, same⟩
    all_goals rw [same]
    · exact ih
    · exact ih.addNode plain stored
    · exact ih.addTerminal id name stored missing
    · exact ih.addEdge ha hb
  | fillTask n f _ ih => exact ih.modifyTask n f
  | fillVariables c which f _ ih => exact ih.modifyVariables c which f

theorem Made.ordered (made : s.Made) (e : EdgeId) : 0 ≤ (s.edge e).ordering := by
  induction made with
  | empty id typeDefinition =>
    rw [edge_eq_blank (Nat.zero_le _)]
    exact Int.le_refl _
  | createDecomposition id facts isRoot _ ih => exact ih
  | create c call stored creates _ ih =>
    rcases after_of_creates (d := c) call creates with
      same | ⟨x, plain, same⟩ | ⟨x, id, name, missing, same⟩ | ⟨edge, a, b, ha, hb, ordered, same⟩
    all_goals rw [same]
    · exact ih
    · exact ih
    · exact ih
    · rw [edge_addEdge]
      split
      · exact ordered
      · exact ih
  | fillTask n f _ ih => exact ih
  | fillVariables c which f _ ih => exact ih

end Specification

end ProcessNets
