import ProcessNets.Compile.Pool
import ProcessNets.Proofs.Compile.Steps

/-!
# Generated ids

The counter behind an id can be read off the id, whatever the stem: it is what follows the last
underscore. So no two generated ids are equal, and the only id that a compilation uses twice is
that of a task with a task-level decomposition of its own.
-/

namespace ProcessNets.Compile

open Net Specification

/-! ### Reading counters -/

/-- The number after the last underscore of an id. -/
def idCounter (id : String) : Nat :=
  Nat.ofDigitChars 10 (id.toList.reverse.takeWhile (· ≠ '_')).reverse 0

theorem takeWhile_ne_append {xs ys : List Char} {x : Char} (h : x ∉ xs) :
    (xs ++ x :: ys).takeWhile (· ≠ x) = xs := by
  induction xs with
  | nil => simp
  | cons y rest ih =>
    have ne : y ≠ x := by
      rintro rfl
      exact h List.mem_cons_self
    have ih := ih fun hx => h (List.mem_cons_of_mem _ hx)
    simpa [List.takeWhile_cons, ne] using ih

/-- The counter can be recovered from a generated id. -/
theorem idCounter_nodeId (stem : String) (count : Nat) :
    idCounter (nodeId stem count) = count := by
  have digits : (nodeId stem count).toList.reverse =
      (Nat.toDigits 10 count).reverse ++ '_' :: ("Node_".toList ++ stem.toList).reverse := by
    unfold nodeId
    rw [Nat.toString_eq_ofList_toDigits]
    simp [String.toList_append]
  have plain : '_' ∉ (Nat.toDigits 10 count).reverse := by
    rw [List.mem_reverse]
    exact Nat.underscore_not_in_toDigits
  unfold idCounter
  rw [digits, takeWhile_ne_append plain, List.reverse_reverse, Nat.ofDigitChars_ten_toDigits]

theorem count_eq_of_nodeId_eq {stem stem' : String} {m n : Nat}
    (h : nodeId stem m = nodeId stem' n) : m = n := by
  rw [← idCounter_nodeId stem m, h, idCounter_nodeId]

theorem nodeId_ne_rootNetId (stem : String) (count : Nat) : nodeId stem count ≠ rootNetId := by
  intro same
  have chars := congrArg (fun id => id.toList.head?) same
  simp [nodeId, rootNetId, String.toList_append] at chars

/-! ### Ids in a specification -/

/-- The id was made of a counter below `count`. -/
def Issued (count : Nat) (id : String) : Prop :=
  ∃ stem c, c < count ∧ id = nodeId stem c

theorem Issued.mono {m n : Nat} {id : String} (h : Issued m id) (le : m ≤ n) : Issued n id := by
  obtain ⟨stem, c, lt, same⟩ := h
  exact ⟨stem, c, by omega, same⟩

theorem Issued.ne_nodeId {count : Nat} {id stem : String} (h : Issued count id) :
    id ≠ nodeId stem count := by
  obtain ⟨stem', c, lt, rfl⟩ := h
  intro same
  have := count_eq_of_nodeId_eq same
  omega

theorem Issued.ne_rootNetId {count : Nat} {id : String} (h : Issued count id) :
    id ≠ rootNetId := by
  obtain ⟨stem, c, _, rfl⟩ := h
  exact nodeId_ne_rootNetId stem c

/-- All ids are apart, except that a task and its task-level decomposition share one. -/
structure IdsApart (s : State) : Prop where
  node_issued : ∀ n : Net.NodeId, n.index < s.spec.nodes.size → Issued s.count (s.spec.node n).id
  decomposition_issued : ∀ d : DecompositionId, d.index < s.spec.decompositions.size →
    (s.spec.decomposition d).id = rootNetId ∨ Issued s.count (s.spec.decomposition d).id
  nodes : ∀ n m : Net.NodeId, n.index < s.spec.nodes.size → m.index < s.spec.nodes.size →
    (s.spec.node n).id = (s.spec.node m).id → n = m
  decompositions : ∀ c d : DecompositionId, c.index < s.spec.decompositions.size →
    d.index < s.spec.decompositions.size →
    (s.spec.decomposition c).id = (s.spec.decomposition d).id → c = d
  runs_stored : ∀ n d, s.spec.runs? n = some d → d.index < s.spec.decompositions.size
  owned : ∀ (d : DecompositionId) (n : Net.NodeId), d.index < s.spec.decompositions.size →
    n.index < s.spec.nodes.size → ((s.spec.decomposition d).id = (s.spec.node n).id ↔
      s.spec.runs? n = some d ∧ (s.spec.decomposition d).facts = .webServiceGateway)

namespace IdsApart

variable {s t : State}

theorem nodes_kept (h : IdsApart s) (nodes : t.spec.nodes.size = s.spec.nodes.size)
    (id : ∀ n, (t.spec.node n).id = (s.spec.node n).id) (count : s.count ≤ t.count) :
    (∀ n : Net.NodeId, n.index < t.spec.nodes.size → Issued t.count (t.spec.node n).id) ∧
    ∀ n m : Net.NodeId, n.index < t.spec.nodes.size → m.index < t.spec.nodes.size →
      (t.spec.node n).id = (t.spec.node m).id → n = m := by
  rw [nodes]
  constructor
  · intro n hn
    rw [id]
    exact (h.node_issued n hn).mono count
  · intro n m hn hm same
    rw [id, id] at same
    exact h.nodes n m hn hm same

theorem decompositions_kept (h : IdsApart s)
    (decompositions : t.spec.decompositions.size = s.spec.decompositions.size)
    (id : ∀ d, (t.spec.decomposition d).id = (s.spec.decomposition d).id)
    (count : s.count ≤ t.count) :
    (∀ d : DecompositionId, d.index < t.spec.decompositions.size →
      (t.spec.decomposition d).id = rootNetId ∨ Issued t.count (t.spec.decomposition d).id) ∧
    ∀ c d : DecompositionId, c.index < t.spec.decompositions.size →
      d.index < t.spec.decompositions.size →
      (t.spec.decomposition c).id = (t.spec.decomposition d).id → c = d := by
  rw [decompositions]
  constructor
  · intro d hd
    rw [id]
    exact (h.decomposition_issued d hd).imp_right fun issued => issued.mono count
  · intro c d hc hd same
    rw [id, id] at same
    exact h.decompositions c d hc hd same

/-- The next id is none that a decomposition has. -/
theorem decomposition_ne_nodeId (h : IdsApart s) (stem : String) {d : DecompositionId}
    (hd : d.index < s.spec.decompositions.size) :
    (s.spec.decomposition d).id ≠ nodeId stem s.count := by
  rcases h.decomposition_issued d hd with root | issued
  · rw [root]
    exact (nodeId_ne_rootNetId stem s.count).symm
  · exact issued.ne_nodeId

/-- One more node, with the next id: old ids were issued earlier, so none of them has its number. -/
theorem nodes_grown (h : IdsApart s) (stem : String)
    (nodes : t.spec.nodes.size = s.spec.nodes.size + 1)
    (old : ∀ n : Net.NodeId, n.index < s.spec.nodes.size → t.spec.node n = s.spec.node n)
    (new : (t.spec.node ⟨s.spec.nodes.size⟩).id = nodeId stem s.count) (count : s.count < t.count) :
    (∀ n : Net.NodeId, n.index < t.spec.nodes.size → Issued t.count (t.spec.node n).id) ∧
    ∀ n m : Net.NodeId, n.index < t.spec.nodes.size → m.index < t.spec.nodes.size →
      (t.spec.node n).id = (t.spec.node m).id → n = m := by
  have apart : ∀ n : Net.NodeId, n.index < s.spec.nodes.size →
      (s.spec.node n).id ≠ nodeId stem s.count := fun n hn => (h.node_issued n hn).ne_nodeId
  rw [nodes]
  constructor
  · intro n hn
    rcases NodeId.lt_or_eq hn with hn | rfl
    · rw [old n hn]
      exact (h.node_issued n hn).mono (Nat.le_of_lt count)
    · exact ⟨stem, s.count, count, new⟩
  · intro n m hn hm same
    rcases NodeId.lt_or_eq hn with hn | rfl <;> rcases NodeId.lt_or_eq hm with hm | rfl
    · rw [old n hn, old m hm] at same
      exact h.nodes n m hn hm same
    · rw [old n hn, new] at same
      exact (apart n hn same).elim
    · rw [old m hm, new] at same
      exact (apart m hm same.symm).elim
    · rfl

/-- One more decomposition, with an id that no decomposition has. -/
theorem decompositions_grown (h : IdsApart s) {id : String}
    (decompositions : t.spec.decompositions.size = s.spec.decompositions.size + 1)
    (old : ∀ d : DecompositionId, d.index < s.spec.decompositions.size →
      t.spec.decomposition d = s.spec.decomposition d)
    (new : (t.spec.decomposition ⟨s.spec.decompositions.size⟩).id = id)
    (issued : id = rootNetId ∨ Issued t.count id)
    (unused : ∀ d : DecompositionId, d.index < s.spec.decompositions.size →
      (s.spec.decomposition d).id ≠ id) (count : s.count ≤ t.count) :
    (∀ d : DecompositionId, d.index < t.spec.decompositions.size →
      (t.spec.decomposition d).id = rootNetId ∨ Issued t.count (t.spec.decomposition d).id) ∧
    ∀ c d : DecompositionId, c.index < t.spec.decompositions.size →
      d.index < t.spec.decompositions.size →
      (t.spec.decomposition c).id = (t.spec.decomposition d).id → c = d := by
  rw [decompositions]
  constructor
  · intro d hd
    rcases DecompositionId.lt_or_eq hd with hd | rfl
    · rw [old d hd]
      exact (h.decomposition_issued d hd).imp_right fun issued => issued.mono count
    · rw [new]
      exact issued
  · intro c d hc hd same
    rcases DecompositionId.lt_or_eq hc with hc | rfl <;>
      rcases DecompositionId.lt_or_eq hd with hd | rfl
    · rw [old c hc, old d hd] at same
      exact h.decompositions c d hc hd same
    · rw [old c hc, new] at same
      exact (unused c hc same).elim
    · rw [old d hd, new] at same
      exact (unused d hd same.symm).elim
    · rfl

theorem of_same (h : IdsApart s) (nodes : t.spec.nodes.size = s.spec.nodes.size)
    (decompositions : t.spec.decompositions.size = s.spec.decompositions.size)
    (id : ∀ n, (t.spec.node n).id = (s.spec.node n).id)
    (runs : ∀ n, t.spec.runs? n = s.spec.runs? n)
    (decomposition : ∀ d, (t.spec.decomposition d).id = (s.spec.decomposition d).id ∧
      (t.spec.decomposition d).facts = (s.spec.decomposition d).facts)
    (count : s.count ≤ t.count) : IdsApart t := by
  obtain ⟨nodeIssued, nodesApart⟩ := h.nodes_kept nodes id count
  obtain ⟨decompositionIssued, decompositionsApart⟩ :=
    h.decompositions_kept decompositions (fun d => (decomposition d).1) count
  refine ⟨nodeIssued, decompositionIssued, nodesApart, decompositionsApart, ?_, ?_⟩
  · intro n d run
    rw [runs] at run
    rw [decompositions]
    exact h.runs_stored n d run
  · intro d n hd hn
    rw [decompositions] at hd
    rw [nodes] at hn
    rw [id, runs, (decomposition d).1, (decomposition d).2]
    exact h.owned d n hd hn

/-- Nothing changes but what edges join. -/
theorem of_bare (h : IdsApart s) (nodes : t.spec.nodes.size = s.spec.nodes.size)
    (decompositions : t.spec.decompositions.size = s.spec.decompositions.size)
    (node : ∀ n, (t.spec.node n).bare = (s.spec.node n).bare)
    (decomposition : ∀ d, (t.spec.decomposition d).id = (s.spec.decomposition d).id ∧
      (t.spec.decomposition d).facts = (s.spec.decomposition d).facts)
    (count : s.count ≤ t.count) : IdsApart t :=
  h.of_same nodes decompositions (fun n => id_of_bare (node n)) (fun n => runs?_of_bare (node n))
    decomposition count

theorem of_skeleton (h : IdsApart s) (same : t.spec.skeleton = s.spec.skeleton)
    (count : s.count ≤ t.count) : IdsApart t := by
  refine h.of_same (nodes_size_of_skeleton same) (decompositions_size_of_skeleton same)
    (id_of_skeleton same) (runs?_of_skeleton same) (fun d => ?_) count
  have decomposition := decomposition_of_skeleton same d
  have id := congrArg Decomposition.id decomposition
  have facts := congrArg Decomposition.facts decomposition
  exact ⟨id, facts⟩

theorem addNode (h : IdsApart s) (stem : String)
    (nodes : t.spec.nodes.size = s.spec.nodes.size + 1)
    (decompositions : t.spec.decompositions.size = s.spec.decompositions.size)
    (old : ∀ n : Net.NodeId, n.index < s.spec.nodes.size → t.spec.node n = s.spec.node n)
    (new : (t.spec.node ⟨s.spec.nodes.size⟩).id = nodeId stem s.count)
    (idle : t.spec.runs? ⟨s.spec.nodes.size⟩ = none)
    (decomposition : ∀ d, (t.spec.decomposition d).id = (s.spec.decomposition d).id ∧
      (t.spec.decomposition d).facts = (s.spec.decomposition d).facts)
    (count : s.count < t.count) : IdsApart t := by
  have runs : ∀ n : Net.NodeId, n.index < s.spec.nodes.size →
      t.spec.runs? n = s.spec.runs? n := by
    intro n hn
    unfold runs?
    rw [old n hn]
  obtain ⟨nodeIssued, nodesApart⟩ := h.nodes_grown stem nodes old new count
  obtain ⟨decompositionIssued, decompositionsApart⟩ :=
    h.decompositions_kept decompositions (fun d => (decomposition d).1) (Nat.le_of_lt count)
  refine ⟨nodeIssued, decompositionIssued, nodesApart, decompositionsApart, ?_, ?_⟩
  · intro n d run
    rw [decompositions]
    have hn := runs?_stored run
    rw [nodes] at hn
    rcases NodeId.lt_or_eq hn with hn | rfl
    · rw [runs n hn] at run
      exact h.runs_stored n d run
    · rw [idle] at run
      cases run
  · intro d n hd hn
    rw [decompositions] at hd
    rw [nodes] at hn
    rw [(decomposition d).1, (decomposition d).2]
    rcases NodeId.lt_or_eq hn with hn | rfl
    · rw [old n hn, runs n hn]
      exact h.owned d n hd hn
    · rw [new, idle]
      constructor
      · intro same
        exact (h.decomposition_ne_nodeId stem hd same).elim
      · rintro ⟨run, _⟩
        cases run

/-- One more task or condition, which runs nothing yet. -/
theorem addIdle (h : IdsApart s) {d : DecompositionId} {name : String} {kind : Kind} (stem : String)
    (idle : kind.runs? = none)
    (spec : t.spec = s.spec.addNode d { id := nodeId stem s.count, name, kind })
    (count : s.count < t.count) : IdsApart t := by
  apply h.addNode stem
  · rw [spec, nodes_size_addNode]
  · rw [spec, decompositions_size_addNode]
  · intro n hn
    rw [spec, node_addNode_of_lt _ hn]
  · rw [spec, node_addNode_new]
  · rw [spec]
    unfold runs?
    rw [node_addNode_new]
    exact idle
  · intro c
    rw [spec, decomposition_addNode]
    split <;> exact ⟨rfl, rfl⟩
  · exact count

theorem addTerminal (h : IdsApart s) {d : DecompositionId} {x : Terminal} (stem : String)
    {name : String} (stored : d.index < s.spec.decompositions.size)
    (spec : t.spec = s.spec.addTerminal d x (nodeId stem s.count) name)
    (count : s.count < t.count) : IdsApart t := by
  have new : (s.spec.addTerminal d x (nodeId stem s.count) name).node ⟨s.spec.nodes.size⟩ =
      { id := nodeId stem s.count, name, kind := x.kind } := node_addNode_new (d := d) _
  apply h.addNode stem
  · rw [spec]
    exact nodes_size_addNode (d := d) _
  · rw [spec]
    simp [Specification.addTerminal]
  · intro n hn
    rw [spec]
    exact node_addNode_of_lt (d := d) _ hn
  · rw [spec, new]
  · rw [spec]
    unfold runs?
    rw [new]
    cases x <;> rfl
  · intro c
    rw [spec, decomposition_addTerminal _ _ _ stored]
    split
    · rename_i same
      rw [same, decomposition_addNode]
      split <;> cases x <;> exact ⟨rfl, rfl⟩
    · exact ⟨rfl, rfl⟩
  · exact count

/-- One more decomposition that no task runs yet. -/
theorem addDecomposition (h : IdsApart s) {x : Decomposition}
    (spec : t.spec = s.spec.addDecomposition x) (count : s.count ≤ t.count)
    (issued : x.id = rootNetId ∨ Issued t.count x.id)
    (node : ∀ n : Net.NodeId, n.index < s.spec.nodes.size → x.id ≠ (s.spec.node n).id)
    (decomposition : ∀ d : DecompositionId, d.index < s.spec.decompositions.size →
      (s.spec.decomposition d).id ≠ x.id) : IdsApart t := by
  have grown : t.spec.decompositions.size = s.spec.decompositions.size + 1 := by
    rw [spec, decompositions_size_addDecomposition]
  have old : ∀ d : DecompositionId, d.index < s.spec.decompositions.size →
      t.spec.decomposition d = s.spec.decomposition d := by
    intro d hd
    rw [spec, decomposition_addDecomposition_of_lt hd]
  have new : t.spec.decomposition ⟨s.spec.decompositions.size⟩ = x := by
    rw [spec, decomposition_addDecomposition_new]
  have nodes : ∀ n, t.spec.node n = s.spec.node n := by
    intro n
    rw [spec, node_addDecomposition]
  have size : t.spec.nodes.size = s.spec.nodes.size := by
    rw [spec, nodes_size_addDecomposition]
  have runs : ∀ n, t.spec.runs? n = s.spec.runs? n := by
    intro n
    unfold runs?
    rw [nodes]
  obtain ⟨nodeIssued, nodesApart⟩ :=
    h.nodes_kept size (fun n => congrArg Net.Node.id (nodes n)) count
  obtain ⟨decompositionIssued, decompositionsApart⟩ :=
    h.decompositions_grown grown old (congrArg Decomposition.id new) issued decomposition count
  refine ⟨nodeIssued, decompositionIssued, nodesApart, decompositionsApart, ?_, ?_⟩
  · intro n d run
    rw [runs] at run
    have := h.runs_stored n d run
    omega
  · intro d n hd hn
    rw [grown] at hd
    rw [size] at hn
    rw [nodes, runs]
    rcases DecompositionId.lt_or_eq hd with hd | rfl
    · rw [old d hd]
      exact h.owned d n hd hn
    · rw [new]
      constructor
      · intro same
        exact (node n hn same).elim
      · rintro ⟨run, _⟩
        have := h.runs_stored n _ run
        exact (Nat.lt_irrefl _ this).elim

theorem addNet (h : IdsApart s) (stem : String)
    (spec : t.spec = s.spec.addDecomposition { id := nodeId stem s.count })
    (count : s.count < t.count) : IdsApart t := by
  apply h.addDecomposition spec (Nat.le_of_lt count)
  · exact .inr ⟨stem, s.count, count, rfl⟩
  · intro n hn same
    exact (h.node_issued n hn).ne_nodeId same.symm
  · exact fun d hd => h.decomposition_ne_nodeId stem hd

section
variable {n m : Net.NodeId} {d inner : DecompositionId} (h : IdsApart s)
  (self : t.spec.runs? n = some inner) (other : ∀ m, m ≠ n → t.spec.runs? m = s.spec.runs? m)
include h self other

/-- One task comes to run a decomposition that is stored. -/
theorem runs_stored_of (grown : s.spec.decompositions.size ≤ t.spec.decompositions.size)
    (stored : inner.index < t.spec.decompositions.size) (run : t.spec.runs? m = some d) :
    d.index < t.spec.decompositions.size := by
  by_cases here : m = n
  · subst here
    rw [self] at run
    cases run
    exact stored
  · rw [other m here] at run
    exact Nat.lt_of_lt_of_le (h.runs_stored m d run) grown

/-- The task that comes to run a decomposition has run nothing before, so no task-level one has its
id. -/
theorem owned_of (idle : s.spec.runs? n = none) (hd : d.index < s.spec.decompositions.size)
    (hm : m.index < s.spec.nodes.size)
    (plain : inner = d → (s.spec.decomposition d).facts ≠ .webServiceGateway) :
    (s.spec.decomposition d).id = (s.spec.node m).id ↔
      t.spec.runs? m = some d ∧ (s.spec.decomposition d).facts = .webServiceGateway := by
  rw [h.owned d m hd hm]
  by_cases here : m = n
  · subst here
    rw [idle, self]
    constructor
    · rintro ⟨run, _⟩
      cases run
    · rintro ⟨run, gateway⟩
      exact (plain (Option.some.inj run) gateway).elim
  · rw [other m here]

end

/-- A task without decomposition gets a net to run. -/
theorem setRuns (h : IdsApart s) {n : Net.NodeId} {inner : DecompositionId}
    (task : (s.spec.task? n).isSome) (idle : s.spec.runs? n = none)
    (stored : inner.index < s.spec.decompositions.size)
    (facts : (s.spec.decomposition inner).facts = .net)
    (spec : t.spec = s.spec.setRuns n inner) (count : s.count ≤ t.count) : IdsApart t := by
  have size : t.spec.nodes.size = s.spec.nodes.size := by
    rw [spec, nodes_size_setRuns]
  have id : ∀ m, (t.spec.node m).id = (s.spec.node m).id := by
    intro m
    rw [spec, id_setRuns]
  have decomposition : ∀ d, t.spec.decomposition d = s.spec.decomposition d := by
    intro d
    rw [spec, decomposition_setRuns]
  have decompositions : t.spec.decompositions.size = s.spec.decompositions.size := by
    rw [spec, decompositions_size_setRuns]
  have other : ∀ m, m ≠ n → t.spec.runs? m = s.spec.runs? m := by
    intro m different
    rw [spec, runs?_setRuns_of_ne different]
  have self : t.spec.runs? n = some inner := by
    rw [spec, runs?_setRuns_self task]
  obtain ⟨nodeIssued, nodesApart⟩ := h.nodes_kept size id count
  obtain ⟨decompositionIssued, decompositionsApart⟩ := h.decompositions_kept decompositions
    (fun d => congrArg Decomposition.id (decomposition d)) count
  refine ⟨nodeIssued, decompositionIssued, nodesApart, decompositionsApart, ?_, ?_⟩
  · intro m d run
    refine h.runs_stored_of self other (Nat.le_of_eq decompositions.symm) ?_ run
    rw [decompositions]
    exact stored
  · intro d m hd hm
    rw [decompositions] at hd
    rw [size] at hm
    rw [decomposition, id]
    refine h.owned_of self other idle hd hm ?_
    rintro rfl gateway
    rw [facts] at gateway
    cases gateway

theorem decompose (h : IdsApart s) {n : Net.NodeId} (task : (s.spec.task? n).isSome)
    (idle : s.spec.runs? n = none)
    (spec : t.spec = (s.spec.addDecomposition
      { id := (s.spec.node n).id, facts := .webServiceGateway }).setRuns n
        ⟨s.spec.decompositions.size⟩)
    (count : s.count ≤ t.count) : IdsApart t := by
  obtain ⟨found, isTask⟩ := Option.isSome_iff_exists.mp task
  have stored : n.index < s.spec.nodes.size := task_stored isTask
  have grown : t.spec.decompositions.size = s.spec.decompositions.size + 1 := by
    rw [spec, decompositions_size_setRuns, decompositions_size_addDecomposition]
  have old : ∀ d : DecompositionId, d.index < s.spec.decompositions.size →
      t.spec.decomposition d = s.spec.decomposition d := by
    intro d hd
    rw [spec, decomposition_setRuns, decomposition_addDecomposition_of_lt hd]
  have new : t.spec.decomposition ⟨s.spec.decompositions.size⟩ =
      { id := (s.spec.node n).id, facts := .webServiceGateway } := by
    rw [spec, decomposition_setRuns, decomposition_addDecomposition_new]
  have size : t.spec.nodes.size = s.spec.nodes.size := by
    rw [spec, nodes_size_setRuns, nodes_size_addDecomposition]
  have id : ∀ m, (t.spec.node m).id = (s.spec.node m).id := by
    intro m
    rw [spec, id_setRuns, node_addDecomposition]
  have other : ∀ m, m ≠ n → t.spec.runs? m = s.spec.runs? m := by
    intro m different
    rw [spec, runs?_setRuns_of_ne different]
    rfl
  have self : t.spec.runs? n = some ⟨s.spec.decompositions.size⟩ := by
    rw [spec]
    exact runs?_setRuns_self task
  -- the id of an idle task is not yet that of a decomposition
  have unused : ∀ d : DecompositionId, d.index < s.spec.decompositions.size →
      (s.spec.decomposition d).id ≠ (s.spec.node n).id := by
    intro d hd same
    have run := ((h.owned d n hd stored).mp same).1
    rw [idle] at run
    cases run
  obtain ⟨nodeIssued, nodesApart⟩ := h.nodes_kept size id count
  obtain ⟨decompositionIssued, decompositionsApart⟩ :=
    h.decompositions_grown grown old (congrArg Decomposition.id new)
      (.inr ((h.node_issued n stored).mono count)) unused count
  refine ⟨nodeIssued, decompositionIssued, nodesApart, decompositionsApart, ?_, ?_⟩
  · intro m d run
    refine h.runs_stored_of self other (by omega) ?_ run
    rw [grown]
    exact Nat.lt_succ_self _
  · intro d m hd hm
    rw [grown] at hd
    rw [size] at hm
    rw [id]
    rcases DecompositionId.lt_or_eq hd with hd | rfl
    · rw [old d hd]
      refine h.owned_of self other idle hd hm ?_
      rintro rfl
      exact (Nat.lt_irrefl _ hd).elim
    · rw [new]
      by_cases here : m = n
      · subst here
        simp [self]
      · rw [other m here]
        constructor
        · intro same
          exact (here (h.nodes n m stored hm same).symm).elim
        · rintro ⟨run, _⟩
          have := h.runs_stored m _ run
          exact (Nat.lt_irrefl _ this).elim

/-- Every step keeps ids apart. -/
theorem step {grown wired : DecompositionId → Prop} (h : IdsApart s)
    (step : Step grown wired s t) : IdsApart t := by
  cases step with
  | data only count => exact h.of_skeleton only.skeleton count
  | node d stem name kind _ _ _ idle spec count => exact h.addIdle stem idle spec count
  | terminal d x stem name _ stored _ spec count => exact h.addTerminal stem stored spec count
  | net stem _ spec count => exact h.addNet stem spec count
  | root first spec count =>
    apply h.addDecomposition spec count
    · exact .inl rfl
    · intro n hn same
      exact (h.node_issued n hn).ne_rootNetId same.symm
    · intro d hd
      omega
  | decompose n task idle spec count => exact h.decompose task idle spec count
  | run n inner task idle stored facts spec count =>
    exact h.setRuns task idle stored facts spec count
  | link d edge a b _ _ _ _ spec count =>
    apply h.of_bare
    · rw [spec, nodes_size_addEdge]
    · rw [spec, decompositions_size_addEdge]
    · intro n
      rw [spec]
      exact bare_addEdge edge
    · intro c
      rw [spec, decomposition_addEdge]
      split <;> exact ⟨rfl, rfl⟩
    · exact count
  | redirect d e a b side n _ _ _ _ _ spec count =>
    apply h.of_bare
    · rw [spec, nodes_size_redirect]
    · rw [spec, decompositions_size_redirect]
    · intro m
      rw [spec]
      exact bare_redirect side
    · intro c
      rw [spec]
      exact labels_of_bare (decomposition_bare_redirect side)
    · exact count

theorem steps {grown wired : DecompositionId → Prop} (h : IdsApart s)
    (steps : Steps grown wired s t) : IdsApart t := by
  induction steps with
  | refl => exact h
  | tail _ next ih => exact ih.step next

theorem initial (job : Job) (index : Nat) : IdsApart (initialState job index) where
  node_issued _ hn := absurd hn (Nat.not_lt_zero _)
  decomposition_issued _ hd := absurd hd (Nat.not_lt_zero _)
  nodes _ _ hn _ _ := absurd hn (Nat.not_lt_zero _)
  decompositions _ _ hc _ _ := absurd hc (Nat.not_lt_zero _)
  runs_stored n _ run := by
    rw [runs?_eq_none (Nat.zero_le _)] at run
    cases run
  owned _ _ hd _ := absurd hd (Nat.not_lt_zero _)

end IdsApart

end ProcessNets.Compile
