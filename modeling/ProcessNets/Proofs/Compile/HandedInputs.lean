import ProcessNets.Proofs.Compile.JustifiedFlags

/-!
# Inputs that are handed in

The inputs of a decomposition come from the tasks that run it, apart from those of multi-instance
tasks. As the nets of subprocesses are made before their tasks, such an input can have the name of a
local of the net. No other input can.
-/

namespace ProcessNets.Compile

open Net Specification
open ProcessNets.Text (lower not_sameName_of_last sameName sameName_iff)

variable {job : Job} {index : Int} {s : State} {spec : Specification} {d : DecompositionId} {v w : Variable}
  {name : String} {count : Nat}

/-- The name begins like a generated id, up to case. -/
def LikeId (name : String) : Prop :=
  "node_".toList <+: (lower name).toList

instance : DecidablePred LikeId :=
  fun name => inferInstanceAs (Decidable ("node_".toList <+: (lower name).toList))

theorem likeId_nodeId {stem tail : String} : LikeId (nodeId stem count ++ tail) := by
  have chars : (nodeId stem count ++ tail).toList =
      "Node_".toList ++ (stem.toList ++ "_".toList ++ (toString count).toList ++ tail.toList) := by
    simp [nodeId]
  have plain : ∀ c ∈ "Node_".toList, Text.Plain c := by simp [Text.Plain]
  obtain ⟨_, lowered⟩ := Text.lowerFrom_append_right plain
    (stem.toList ++ "_".toList ++ (toString count).toList ++ tail.toList) false
  unfold LikeId
  rw [Text.toList_lower, chars, lowered]
  exact List.prefix_append _ _

theorem last_instanceVariable (taskId : String) :
    (instanceVariable taskId).name.toList.getLast? = some 't' :=
  Text.getLast?_toList_append (by decide)

/-- The variable of a multi-instance task is no local, if the diagram gives no variable a name like
an id. -/
theorem LocalReason.not_sameName_instance (reason : LocalReason job spec name)
    (foreign : ∀ given, Given job given → ¬LikeId given) :
    sameName name (instanceVariable (nodeId "task" count)).name = false := by
  have last := last_instanceVariable (nodeId "task" count)
  cases reason with
  | supplied isSupplied =>
    rw [Bool.eq_false_iff]
    intro same
    obtain ⟨given, isGiven, same'⟩ := isSupplied.congr same
    refine foreign given isGiven ?_
    unfold LikeId
    rw [sameName_iff.mp same']
    exact likeId_nodeId
  | timer _ id =>
    rw [id]
    exact not_sameName_of_last (by decide) (by decide) (by decide) (last_timerVariable _) last
  | flag id =>
    rw [id]
    exact not_sameName_of_last (by decide) (by decide) (by decide) (last_flag _) last

/-- A local of a decomposition has the name of an input only if a task that runs the decomposition
uses that variable, when the diagram gives no variable a name like an id. -/
theorem local_inputs_handed_in (h : compile job index = .ok s)
    (foreign : ∀ given, Given job given → ¬LikeId given)
    (isLocal : v ∈ (s.spec.decomposition d).locals) (isInput : w ∈ (s.spec.decomposition d).inputs)
    (same : sameName v.name w.name = true) : HandedIn s.spec d w.name := by
  have justified := compile_justified h
  have asLocal : Reason job s.spec d v.name .locals := justified.declared isLocal
  have asInput : Reason job s.spec d w.name .inputs := justified.declared isInput
  refine asInput.resolve_left ?_
  rintro ⟨count, name⟩
  rw [name, LocalReason.not_sameName_instance asLocal foreign] at same
  cases same

/-- A subprocess with a variable that a task in it has as well. -/
def doublyDeclared : Job where
  diagram := {
    sketch [.startEvent, .subprocess { properties := [{ name := "x" }] } [⟨3⟩, ⟨4⟩, ⟨5⟩],
      .endEvent .plain, .startEvent, .task { properties := [{ name := "X" }] } {}, .endEvent .plain]
      [(0, 1), (1, 2), (3, 4), (4, 5)] with
    pools := #[{ id := "P", children := [⟨0⟩, ⟨1⟩, ⟨2⟩] }] }

theorem foreign_doublyDeclared : ∀ given, Given doublyDeclared given → ¬LikeId given := by
  rintro given ⟨n, mem⟩
  revert mem
  have names : ∀ node ∈ doublyDeclared.diagram.nodes, ∀ name ∈ givenNames node, ¬LikeId name := by
    decide +kernel
  refine Diagram.node_of_stored (P := fun node => given ∈ givenNames node → ¬LikeId given) ?_ ?_ n
  · intro mem
    cases List.mem_singleton.mp mem
    decide
  · exact fun node stored mem => names node stored given mem

theorem local_inputs_handed_in_doublyDeclared : ∃ s, compile doublyDeclared 0 = .ok s ∧
    ∃ v ∈ (s.spec.decomposition ⟨1⟩).locals, ∃ w ∈ (s.spec.decomposition ⟨1⟩).inputs,
      v.name = "X" ∧ w.name = "x" ∧ HandedIn s.spec ⟨1⟩ w.name := by
  obtain ⟨s, run, checked⟩ := exists_result doublyDeclared 0
    (fun s => decide (∃ v ∈ (s.spec.decomposition ⟨1⟩).locals,
      ∃ w ∈ (s.spec.decomposition ⟨1⟩).inputs, v.name = "X" ∧ w.name = "x")) (by decide +kernel)
  obtain ⟨v, isLocal, w, isInput, nameV, nameW⟩ := of_decide_eq_true checked
  have same : sameName v.name w.name = true := by
    rw [nameV, nameW]
    decide
  exact ⟨s, run, v, isLocal, w, isInput, nameV, nameW,
    local_inputs_handed_in run foreign_doublyDeclared isLocal isInput same⟩

/-- The net of a subprocess declares a local that its task hands in as an input. -/
theorem name_declared_twice : ¬∀ (job : Job) (index : Int) (s : State),
    compile job index = .ok s → (∀ given, Given job given → ¬LikeId given) →
      ∀ d, ∀ v ∈ (s.spec.decomposition d).locals, ∀ w ∈ (s.spec.decomposition d).inputs,
        sameName v.name w.name = false := by
  intro apart
  obtain ⟨s, run, checked⟩ := exists_result doublyDeclared 0
    (fun s => decide (∃ v ∈ (s.spec.decomposition ⟨1⟩).locals,
      ∃ w ∈ (s.spec.decomposition ⟨1⟩).inputs, sameName v.name w.name = true)) (by decide +kernel)
  obtain ⟨v, isLocal, w, isInput, same⟩ := of_decide_eq_true checked
  rw [apart doublyDeclared 0 s run foreign_doublyDeclared ⟨1⟩ v isLocal w isInput] at same
  cases same

end ProcessNets.Compile
