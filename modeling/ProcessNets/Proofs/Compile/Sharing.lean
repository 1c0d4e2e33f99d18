import ProcessNets.Proofs.Compile.Placing
import ProcessNets.Proofs.Diagram.Drawing

/-!
# Shared counterparts

Several nodes of a diagram may be folded onto one task. A node is open if flows lead from it to
other counterparts; in a diagram whose edges agree at both ends, at most one of the nodes that
share a task stays open.
-/

namespace ProcessNets.Compile

open Net Specification

variable {job : Job} {s t : State} {scope : Scope} {spec : Specification} {map : NodeMap}
  {k n p q : Diagram.NodeId} {y : Net.NodeId} {grown wired : DecompositionId → Prop}

/-- A flow leads from the node to another counterpart, or from a gateway back to itself. -/
def IsOpen (job : Job) (map : NodeMap) (n : Diagram.NodeId) : Prop :=
  ∃ flow ∈ job.diagram.outgoingFlows n, map.find? flow.target ≠ map.find? n ∨
    ((job.diagram.node n).kind.isGateway = true ∧ flow.target = n)

/-- At most one of the nodes that share a task is open. -/
def Sole (job : Job) (spec : Specification) (map : NodeMap) : Prop :=
  ∀ y, (spec.task? y).isSome → ∀ n m, map.find? n = some y → map.find? m = some y →
    IsOpen job map n → IsOpen job map m → n = m

/-! ### Registering -/

/-- A node that is open after a registration was open before. -/
theorem IsOpen.of_insert (new : map.find? n = none) (here : map.find? k = some y) {z : Net.NodeId}
    (h : IsOpen job (map.insert n z) k) : IsOpen job map k := by
  obtain ⟨flow, leaves, leads⟩ := h
  have other : k ≠ n := by
    rintro rfl
    rw [new] at here
    cases here
  refine ⟨flow, leaves, ?_⟩
  by_cases target : flow.target = n
  · rw [target, new, here]
    exact .inl (by simp)
  · rwa [NodeMap.find?_insert_of_ne target, NodeMap.find?_insert_of_ne other] at leads

/-- A new counterpart is shared by one open node only if the nodes that share it are closed, or
the new node is. -/
theorem Sole.insert (sole : Sole job spec map) (new : map.find? n = none)
    (alone : (spec.task? y).isSome → (∀ k, map.find? k = some y → ¬IsOpen job (map.insert n y) k) ∨
      ¬IsOpen job (map.insert n y) n) : Sole job spec (map.insert n y) := by
  -- the new node and another one with the same counterpart
  have apart : ∀ {k z}, k ≠ n → y = z → (spec.task? z).isSome → map.find? k = some z →
      IsOpen job (map.insert n y) n → IsOpen job (map.insert n y) k → False := by
    rintro k z _ rfl isTask here openN openK
    rcases alone isTask with closed | closed
    · exact closed k here openK
    · exact closed openN
  intro z isTask k m hereK hereM openK openM
  rw [NodeMap.find?_insert] at hereK hereM
  split at hereK <;> rename_i sameK
  · cases hereK
    split at hereM <;> rename_i sameM
    · exact sameK.trans sameM.symm
    · subst sameK
      exact (apart sameM rfl isTask hereM openK openM).elim
  · split at hereM <;> rename_i sameM
    · cases hereM
      subst sameM
      exact (apart sameK rfl isTask hereK openM openK).elim
    · exact sole z isTask k m hereK hereM (openK.of_insert new hereK) (openM.of_insert new hereM)

/-- Tasks do not become more while the net grows. -/
theorem Sole.steps (sole : Sole job s.spec scope.map) (wf : s.spec.WellFormed)
    (mapped : Mapped job s.spec scope) (steps : Steps grown wired s t) :
    Sole job t.spec scope.map := by
  intro y isTask n m hereN hereM
  apply sole y _ n m hereN hereM
  rw [isTask_iff] at isTask ⊢
  rwa [← steps.grows.isCondition (wf.node_stored (mapped.mem hereN))]

/-! ### Folding -/

/-- The only flow of the node before leads to the node that is folded onto it. -/
theorem Sole.before (sole : Sole job spec map) (drawn : job.diagram.Drawn)
    (new : map.find? n = none) (before : job.diagram.predecessor? n = some p)
    (fan : (job.diagram.outgoingFlows p).length ≤ 1) (here : map.find? p = some y) :
    Sole job spec (map.insert n y) := by
  obtain ⟨flow, first, rfl⟩ := Option.map_eq_some_iff.mp before
  obtain ⟨target, leaves⟩ := drawn n flow (List.mem_of_mem_head? first)
  have only : ∀ other ∈ job.diagram.outgoingFlows flow.source, other = flow := by
    intro other listed
    match found : job.diagram.outgoingFlows flow.source with
    | [] => simp [found] at listed
    | [single] =>
      rw [found, List.mem_singleton] at listed leaves
      rw [listed, leaves]
    | _ :: _ :: _ => simp [found] at fan
  have different : flow.source ≠ n := by
    intro same
    rw [same, new] at here
    cases here
  have wasOpen : IsOpen job map flow.source := by
    refine ⟨flow, leaves, .inl ?_⟩
    rw [target, new, here]
    simp
  have closed : ¬IsOpen job (map.insert n y) flow.source := by
    rintro ⟨other, listed, leads⟩
    rw [only other listed, target, NodeMap.find?_insert_self,
      NodeMap.find?_insert_of_ne different, here] at leads
    rcases leads with differs | ⟨_, same⟩
    · exact differs rfl
    · exact different same.symm
  refine sole.insert new fun isTask => .inl fun k hereK openK => ?_
  have same := sole y isTask k flow.source hereK here (openK.of_insert new hereK) wasOpen
  rw [same] at openK
  exact closed openK

/-- The only flow of a node leads to the node that it is folded onto. -/
theorem Sole.after (sole : Sole job spec map) (new : map.find? n = none)
    (after : job.diagram.successor? n = some q)
    (fan : (job.diagram.outgoingFlows n).length ≤ 1) (here : map.find? q = some y) :
    Sole job spec (map.insert n y) := by
  obtain ⟨flow, first, rfl⟩ := Option.map_eq_some_iff.mp after
  have different : flow.target ≠ n := by
    intro same
    rw [same, new] at here
    cases here
  refine sole.insert new fun _ => .inr ?_
  rintro ⟨other, listed, leads⟩
  have same : other = flow := by
    match found : job.diagram.outgoingFlows n with
    | [] => simp [found] at listed
    | [single] =>
      rw [found] at first listed
      rw [List.mem_singleton.mp listed]
      exact Option.some.inj first
    | _ :: _ :: _ => simp [found] at fan
  rw [same, NodeMap.find?_insert_of_ne different, NodeMap.find?_insert_self, here] at leads
  rcases leads with differs | ⟨_, back⟩
  · exact differs rfl
  · exact different back

/-- A counterpart that no other node has is not shared. -/
theorem Sole.unshared (sole : Sole job spec map) (new : map.find? n = none)
    (free : (spec.task? y).isSome → ∀ k, map.find? k ≠ some y) : Sole job spec (map.insert n y) :=
  sole.insert new fun isTask => .inl fun k here => (free isTask k here).elim

end ProcessNets.Compile
