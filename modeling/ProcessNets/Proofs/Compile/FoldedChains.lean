import Mathlib.Data.List.Chain
import ProcessNets.Proofs.Compile.Calls
import ProcessNets.Proofs.Compile.Counterparts
import ProcessNets.Proofs.Compile.Finishing

/-!
# Chains of nodes that share a task

Folding lets gateways share the tasks of their neighbours. The nodes that share a task always form
a chain along flows that are the only ones at both of their ends, so only the first node of a chain
can join and only the last one can split. No decorator of a task is ever overwritten: the task
splits as the last node of its chain does, and joins as the first one.
-/

namespace ProcessNets.Compile

open Net Specification

variable {E : Fault → Prop} {Good : Specification → FinishedNet → Prop} {job : Job}
  {container : Diagram.Container} {nested : Nested} {scope : Scope} {s t u : State}
  {d : DecompositionId} {n m a b c : Diagram.NodeId} {y z : Net.NodeId} {map : NodeMap}
  {nodes : List Diagram.NodeId} {base index levels : Nat}

/-! ### Only flows -/

def fanIn (job : Job) (n : Diagram.NodeId) : Nat :=
  (job.diagram.incomingFlows n).length

def fanOut (job : Job) (n : Diagram.NodeId) : Nat :=
  (job.diagram.outgoingFlows n).length

/-- A flow from `a` to `b` is the only one that leaves `a` and the only one that enters `b`. -/
def OnlyFlow (job : Job) (a b : Diagram.NodeId) : Prop :=
  ∃ flow : Diagram.Flow, flow.source = a ∧ flow.target = b ∧
    job.diagram.outgoingFlows a = [flow] ∧ job.diagram.incomingFlows b = [flow]

namespace OnlyFlow

theorem fanOut (h : OnlyFlow job a b) : fanOut job a = 1 := by
  obtain ⟨flow, _, _, leaves, _⟩ := h
  exact congrArg List.length leaves

theorem fanIn (h : OnlyFlow job a b) : fanIn job b = 1 := by
  obtain ⟨flow, _, _, _, enters⟩ := h
  exact congrArg List.length enters

theorem predecessor (h : OnlyFlow job a b) : job.diagram.predecessor? b = some a := by
  obtain ⟨flow, source, _, _, enters⟩ := h
  unfold Diagram.predecessor?
  rw [enters, ← source]
  rfl

theorem successor (h : OnlyFlow job a b) : job.diagram.successor? a = some b := by
  obtain ⟨flow, _, target, leaves, _⟩ := h
  unfold Diagram.successor?
  rw [leaves, ← target]
  rfl

theorem source_unique (h : OnlyFlow job a c) (h' : OnlyFlow job b c) : a = b :=
  Option.some.inj (h.predecessor.symm.trans h'.predecessor)

theorem target_unique (h : OnlyFlow job a b) (h' : OnlyFlow job a c) : b = c :=
  Option.some.inj (h.successor.symm.trans h'.successor)

end OnlyFlow

theorem eq_singleton_of_mem {α : Type} {items : List α} {x : α} (mem : x ∈ items)
    (few : items.length ≤ 1) : items = [x] := by
  match items, mem, few with
  | [z], mem, _ => rw [List.mem_singleton.mp mem]

theorem onlyFlow_of_predecessor (paired : job.diagram.Paired)
    (before : job.diagram.predecessor? n = some m) (enters : fanIn job n ≤ 1)
    (leaves : fanOut job m ≤ 1) : OnlyFlow job m n := by
  obtain ⟨flow, first, rfl⟩ := Option.map_eq_some_iff.mp before
  have mem := List.mem_of_head? first
  obtain ⟨target, left⟩ := paired.drawn n flow mem
  exact ⟨flow, rfl, target, eq_singleton_of_mem left leaves, eq_singleton_of_mem mem enters⟩

theorem onlyFlow_of_successor (paired : job.diagram.Paired)
    (after : job.diagram.successor? n = some m) (leaves : fanOut job n ≤ 1)
    (enters : fanIn job m ≤ 1) : OnlyFlow job n m := by
  obtain ⟨flow, first, rfl⟩ := Option.map_eq_some_iff.mp after
  have mem := List.mem_of_head? first
  obtain ⟨source, entered⟩ := paired.leaves n flow mem
  exact ⟨flow, source, rfl, eq_singleton_of_mem mem leaves, eq_singleton_of_mem entered enters⟩

/-! ### Decorators of gateways -/

/-- The decorator of a node for a side with so many flows: none unless it is a gateway and the flows
are several. -/
def decoratorOf (job : Job) (n : Diagram.NodeId) (fan : Nat) : Option Decorator :=
  match (job.diagram.node n).kind with
  | .gateway routing => if 1 < fan then decorator? routing else none
  | _ => none

/-- The decorator of a gateway that splits. -/
def splitOf (job : Job) (n : Diagram.NodeId) : Option Decorator :=
  decoratorOf job n (fanOut job n)

/-- The decorator of a gateway that joins. -/
def joinOf (job : Job) (n : Diagram.NodeId) : Option Decorator :=
  decoratorOf job n (fanIn job n)

theorem decoratorOf_eq_none {fan : Nat} (few : fan ≤ 1) : decoratorOf job n fan = none := by
  unfold decoratorOf
  split
  · rw [if_neg (Nat.not_lt.mpr few)]
  · rfl

theorem decoratorOf_plain {fan : Nat} (plain : (job.diagram.node n).kind.isGateway = false) :
    decoratorOf job n fan = none := by
  unfold decoratorOf
  split
  · rename_i kind
    rw [kind] at plain
    cases plain
  · rfl

theorem OnlyFlow.splitOf_eq_none (h : OnlyFlow job a b) : splitOf job a = none :=
  decoratorOf_eq_none (Nat.le_of_eq h.fanOut)

theorem OnlyFlow.joinOf_eq_none (h : OnlyFlow job a b) : joinOf job b = none :=
  decoratorOf_eq_none (Nat.le_of_eq h.fanIn)

/-! ### Chains -/

section
variable {spec spec' : Specification}

/-- The nodes of the diagram whose counterpart is `y`, from the first to the last. The stores held
`base` nodes before the gateways were folded. -/
structure Chain (job : Job) (base : Nat) (spec : Specification) (map : NodeMap) (y : Net.NodeId)
    (nodes : List Diagram.NodeId) : Prop where
  mem : ∀ n, n ∈ nodes ↔ map.find? n = some y
  nodup : nodes.Nodup
  linked : nodes.IsChain (OnlyFlow job)
  split : spec.split y = (nodes.getLast?.bind (splitOf job)).getD .none
  join : spec.join y = (nodes.head?.bind (joinOf job)).getD .none
  alone : ∀ n ∈ nodes, (job.diagram.node n).kind.isGateway = true → 1 < fanIn job n →
    1 < fanOut job n → nodes = [n] ∧ base ≤ y.index

/-- A member of a chain is the first, or another one leads to it. -/
theorem first_or_before {α : Type} {R : α → α → Prop} {items : List α} {x : α}
    (linked : items.IsChain R) (mem : x ∈ items) :
    items.head? = some x ∨ ∃ w ∈ items, R w x := by
  obtain ⟨front, rest, rfl⟩ := List.append_of_mem mem
  obtain ⟨_, _, across⟩ := List.isChain_append.mp linked
  cases last : front.getLast? with
  | none =>
    rw [List.getLast?_eq_none_iff.mp last]
    exact .inl rfl
  | some w =>
    have member := List.mem_append_left (x :: rest) (List.mem_of_getLast? last)
    exact .inr ⟨w, member, across w last x rfl⟩

/-- A member of a chain is the last, or leads to another one. -/
theorem last_or_after {α : Type} {R : α → α → Prop} {items : List α} {x : α}
    (linked : items.IsChain R) (mem : x ∈ items) :
    items.getLast? = some x ∨ ∃ w ∈ items, R x w := by
  obtain ⟨front, rest, rfl⟩ := List.append_of_mem mem
  rw [← List.singleton_append, ← List.append_assoc] at linked
  obtain ⟨_, _, across⟩ := List.isChain_append.mp linked
  cases first : rest.head? with
  | none =>
    rw [List.head?_eq_none_iff.mp first]
    exact .inl List.getLast?_concat
  | some w =>
    have member : w ∈ front ++ x :: rest :=
      List.mem_append_right _ (List.mem_cons_of_mem _ (List.mem_of_head? first))
    exact .inr ⟨w, member, across x List.getLast?_concat w first⟩

namespace Chain

variable (h : Chain job base spec map y nodes)
include h

/-- A node that is not the last of its chain does not split. -/
theorem splitOf_of_not_last (mem : n ∈ nodes) (inner : nodes.getLast? ≠ some n) :
    splitOf job n = none := by
  rcases last_or_after h.linked mem with last | ⟨m, _, flow⟩
  · exact (inner last).elim
  · exact flow.splitOf_eq_none

/-- A node that is not the first of its chain does not join. -/
theorem joinOf_of_not_first (mem : n ∈ nodes) (inner : nodes.head? ≠ some n) :
    joinOf job n = none := by
  rcases first_or_before h.linked mem with first | ⟨m, _, flow⟩
  · exact (inner first).elim
  · exact flow.joinOf_eq_none

/-- Where an only flow leaves a chain, the chain ends. -/
theorem last_of_flow (flow : OnlyFlow job a b) (mem : a ∈ nodes) (outside : b ∉ nodes) :
    nodes.getLast? = some a := by
  rcases last_or_after h.linked mem with last | ⟨m, here, flow'⟩
  · exact last
  · exact (outside (flow.target_unique flow' ▸ here)).elim

/-- Where an only flow enters a chain, the chain begins. -/
theorem first_of_flow (flow : OnlyFlow job a b) (mem : b ∈ nodes) (outside : a ∉ nodes) :
    nodes.head? = some b := by
  rcases first_or_before h.linked mem with first | ⟨m, here, flow'⟩
  · exact first
  · exact (outside (flow.source_unique flow' ▸ here)).elim

end Chain

/-! ### Folding one gateway -/

/-- The task `y` is a choice for the gateway `n`: a new one, or that of the neighbour along an only
flow. If that neighbour has a task, then there is no other choice. -/
structure Takes (job : Job) (map : NodeMap) (n : Diagram.NodeId) (y : Net.NodeId)
    (s : Specification) : Prop where
  origin : s.nodes.size ≤ y.index ∨ (∃ p, OnlyFlow job p n ∧ map.find? p = some y) ∨
    1 < fanIn job n ∧ ∃ q, OnlyFlow job n q ∧ map.find? q = some y
  before : ∀ p z, OnlyFlow job p n → map.find? p = some z →
    (s.node z).kind.isCondition = false → y = z
  after : ∀ q z, 1 < fanIn job n → OnlyFlow job n q → map.find? q = some z →
    (s.node z).kind.isCondition = false → y = z

/-- What folding the gateway `n` onto the task `y` does: it sets no decorators but its own. -/
structure Folds (job : Job) (map : NodeMap) (n : Diagram.NodeId) (y : Net.NodeId)
    (s t : Specification) : Prop extends Takes job map n y s where
  split : ∀ z, t.split z = if z = y then (splitOf job n).getD (s.split z) else s.split z
  join : ∀ z, t.join z = if z = y then (joinOf job n).getD (s.join z) else s.join z
  isCondition : ∀ z : Net.NodeId, z.index < s.nodes.size →
    (t.node z).kind.isCondition = (s.node z).kind.isCondition

namespace Chain

/-- A gateway on a task of its own. -/
theorem single (folds : Folds job map n y spec spec') (new : spec.nodes.size ≤ y.index)
    (old : base ≤ spec.nodes.size)
    (stored : ∀ m z, map.find? m = some z → z.index < spec.nodes.size) :
    Chain job base spec' (map.insert n y) y [n] where
  mem m := by
    rw [NodeMap.find?_insert, List.mem_singleton]
    split
    · rename_i same
      exact iff_of_true same rfl
    · rename_i other
      refine iff_of_false other fun found => ?_
      have := stored m y found
      omega
  nodup := List.nodup_singleton n
  linked := .singleton n
  split := by
    rw [folds.split, if_pos rfl, split_eq_none new]
    rfl
  join := by
    rw [folds.join, if_pos rfl, join_eq_none new]
    rfl
  alone m here _ _ _ := by
    rw [List.mem_singleton.mp here]
    exact ⟨rfl, Nat.le_trans old new⟩

/-- A gateway that is in the chain already stays there. -/
theorem again (h : Chain job base spec map y nodes) (folds : Folds job map n y spec spec')
    (here : n ∈ nodes) : Chain job base spec' (map.insert n y) y nodes where
  mem m := by
    rw [NodeMap.find?_insert]
    split
    · rename_i same
      subst same
      exact iff_of_true here rfl
    · exact h.mem m
  nodup := h.nodup
  linked := h.linked
  split := by
    rw [folds.split, if_pos rfl, h.split]
    by_cases last : nodes.getLast? = some n
    · rw [last, Option.bind_some]
      cases splitOf job n <;> rfl
    · rw [h.splitOf_of_not_last here last]
      rfl
  join := by
    rw [folds.join, if_pos rfl, h.join]
    by_cases first : nodes.head? = some n
    · rw [first, Option.bind_some]
      cases joinOf job n <;> rfl
    · rw [h.joinOf_of_not_first here first]
      rfl
  alone := h.alone

/-- A gateway that the chain does not hold yet follows the node before it. -/
theorem append (h : Chain job base spec map y nodes) (folds : Folds job map n y spec spec')
    (outside : n ∉ nodes) (flow : OnlyFlow job a n) (mem : a ∈ nodes) :
    Chain job base spec' (map.insert n y) y (nodes ++ [n]) where
  mem m := by
    rw [NodeMap.find?_insert, List.mem_append, List.mem_singleton]
    split
    · rename_i same
      exact iff_of_true (.inr same) rfl
    · rename_i other
      rw [← h.mem]
      exact ⟨fun either => either.resolve_right other, .inl⟩
  nodup := nodup_concat h.nodup outside
  linked := by
    refine List.isChain_append.mpr ⟨h.linked, .singleton n, ?_⟩
    rintro x last _ ⟨⟩
    cases (h.last_of_flow flow mem outside).symm.trans last
    exact flow
  split := by
    have before : spec.split y = .none := by
      rw [h.split, h.last_of_flow flow mem outside, Option.bind_some, flow.splitOf_eq_none]
      rfl
    rw [folds.split, if_pos rfl, before, List.getLast?_concat]
    rfl
  join := by
    rw [folds.join, if_pos rfl, h.join, flow.joinOf_eq_none,
      List.head?_append_of_ne_nil _ (List.ne_nil_of_mem mem)]
    rfl
  alone m here gateway joins splits := by
    rcases List.mem_append.mp here with old | last
    · have only := (h.alone m old gateway joins splits).1
      rw [only, List.mem_singleton] at mem
      rw [← mem, flow.fanOut] at splits
      omega
    · rw [List.mem_singleton.mp last, flow.fanIn] at joins
      omega

/-- A gateway that the chain does not hold yet precedes the node after it. -/
theorem prepend (h : Chain job base spec map y nodes) (folds : Folds job map n y spec spec')
    (outside : n ∉ nodes) (flow : OnlyFlow job n b) (mem : b ∈ nodes) :
    Chain job base spec' (map.insert n y) y (n :: nodes) where
  mem m := by
    rw [NodeMap.find?_insert, List.mem_cons]
    split
    · rename_i same
      exact iff_of_true (.inl same) rfl
    · rename_i other
      rw [← h.mem]
      exact ⟨fun either => either.resolve_left other, .inr⟩
  nodup := List.nodup_cons.mpr ⟨outside, h.nodup⟩
  linked := by
    refine List.isChain_cons.mpr ⟨fun x first => ?_, h.linked⟩
    cases (h.first_of_flow flow mem outside).symm.trans first
    exact flow
  split := by
    rw [folds.split, if_pos rfl, h.split, flow.splitOf_eq_none,
      List.getLast?_cons_of_ne_nil (List.ne_nil_of_mem mem)]
    rfl
  join := by
    have before : spec.join y = .none := by
      rw [h.join, h.first_of_flow flow mem outside, Option.bind_some, flow.joinOf_eq_none]
      rfl
    rw [folds.join, if_pos rfl, before]
    rfl
  alone m here gateway joins splits := by
    rcases List.mem_cons.mp here with rfl | old
    · rw [flow.fanOut] at splits
      omega
    · have only := (h.alone m old gateway joins splits).1
      rw [only, List.mem_singleton] at mem
      rw [← mem, flow.fanIn] at joins
      omega

/-- The chains of other tasks stay, unless the gateway was in one of them. -/
theorem other (h : Chain job base spec map z nodes) (folds : Folds job map n y spec spec')
    (different : z ≠ y) (outside : n ∉ nodes) :
    Chain job base spec' (map.insert n y) z nodes where
  mem m := by
    rw [NodeMap.find?_insert]
    split
    · rename_i same
      subst same
      exact iff_of_false outside fun found => different (Option.some.inj found).symm
    · exact h.mem m
  nodup := h.nodup
  linked := h.linked
  split := by rw [folds.split, if_neg different, h.split]
  join := by rw [folds.join, if_neg different, h.join]
  alone := h.alone

/-- A gateway that leaves a chain was the first of it, and did not join there. -/
theorem leave (h : Chain job base spec map z nodes) (folds : Folds job map n y spec spec')
    (different : z ≠ y) (here : n ∈ nodes) (gateway : (job.diagram.node n).kind.isGateway = true)
    (mem : m ∈ nodes) (another : m ≠ n) (task : (spec.node z).kind.isCondition = false) :
    ∃ rest, nodes = n :: rest ∧ Chain job base spec' (map.insert n y) z rest := by
  -- the node before would have kept the gateway on its task
  have first : nodes.head? = some n := by
    rcases first_or_before h.linked here with first | ⟨p, inside, flow⟩
    · exact first
    · exact (different (folds.before p z flow ((h.mem p).mp inside) task).symm).elim
  obtain ⟨rest, rfl⟩ : ∃ rest, nodes = n :: rest := by
    cases nodes with
    | nil => cases first
    | cons x rest =>
      cases first
      exact ⟨rest, rfl⟩
  obtain ⟨fresh, nodup⟩ := List.nodup_cons.mp h.nodup
  obtain ⟨across, linked⟩ := List.isChain_cons.mp h.linked
  obtain ⟨x, next, rfl⟩ : ∃ x next, rest = x :: next := by
    cases rest with
    | nil => exact (another (List.mem_singleton.mp mem)).elim
    | cons x next => exact ⟨x, next, rfl⟩
  have flow : OnlyFlow job n x := across x rfl
  have inside : x ∈ n :: x :: next := List.mem_cons_of_mem _ List.mem_cons_self
  -- and so would the node after, if the gateway joined
  have straight : fanIn job n ≤ 1 := by
    refine Nat.le_of_not_lt fun joins => ?_
    exact different (folds.after x z joins flow ((h.mem x).mp inside) task).symm
  refine ⟨x :: next, rfl, ?_, nodup, linked, ?_, ?_, ?_⟩
  · intro k
    rw [NodeMap.find?_insert]
    split
    · rename_i same
      subst same
      exact iff_of_false fresh fun found => different (Option.some.inj found).symm
    · rename_i notSame
      rw [← h.mem]
      exact ⟨List.mem_cons_of_mem _, fun member => (List.mem_cons.mp member).resolve_left notSame⟩
  · rw [folds.split, if_neg different, h.split, List.getLast?_cons_of_ne_nil (by simp)]
  · rw [folds.join, if_neg different, h.join]
    show (joinOf job n).getD .none = (joinOf job x).getD .none
    rw [flow.joinOf_eq_none, joinOf, decoratorOf_eq_none straight]
  · intro k member isGateway joins splits
    have only := (h.alone k (List.mem_cons_of_mem _ member) isGateway joins splits).1
    cases only

end Chain

/-- The nodes that share a task form a chain. -/
def Chained (job : Job) (base : Nat) (spec : Specification) (map : NodeMap) : Prop :=
  ∀ n y, map.find? n = some y → (spec.node y).kind.isCondition = false →
    ∃ nodes, Chain job base spec map y nodes

theorem Chained.fold (h : Chained job base spec map) (folds : Folds job map n y spec spec')
    (gateway : (job.diagram.node n).kind.isGateway = true) (old : base ≤ spec.nodes.size)
    (stored : ∀ m z, map.find? m = some z → z.index < spec.nodes.size) :
    Chained job base spec' (map.insert n y) := by
  have before : ∀ m z, map.find? m = some z → (spec'.node z).kind.isCondition = false →
      (spec.node z).kind.isCondition = false := by
    intro m z found task
    rwa [folds.isCondition z (stored m z found)] at task
  have own : (spec'.node y).kind.isCondition = false →
      ∃ nodes, Chain job base spec' (map.insert n y) y nodes := by
    intro task
    rcases folds.origin with new | ⟨p, flow, found⟩ | ⟨joins, q, flow, found⟩
    · exact ⟨[n], .single folds new old stored⟩
    · obtain ⟨nodes, chain⟩ := h p y found (before p y found task)
      by_cases here : n ∈ nodes
      · exact ⟨nodes, chain.again folds here⟩
      · exact ⟨nodes ++ [n], chain.append folds here flow ((chain.mem p).mpr found)⟩
    · obtain ⟨nodes, chain⟩ := h q y found (before q y found task)
      by_cases here : n ∈ nodes
      · exact ⟨nodes, chain.again folds here⟩
      · exact ⟨n :: nodes, chain.prepend folds here flow ((chain.mem q).mpr found)⟩
  intro m z found task
  by_cases same : z = y
  · subst same
    exact own task
  · rw [NodeMap.find?_insert] at found
    split at found
    · exact (same (Option.some.inj found).symm).elim
    · rename_i another
      have task' := before m z found task
      obtain ⟨nodes, chain⟩ := h m z found task'
      by_cases here : n ∈ nodes
      · obtain ⟨rest, _, left⟩ :=
          chain.leave folds same here gateway ((chain.mem m).mpr found) another task'
        exact ⟨rest, left⟩
      · exact ⟨nodes, chain.other folds same here⟩

end

/-! ### Runs of folding -/

/-- The task of the neighbour is taken wherever it can be. -/
theorem ensures_neighbourTask_taken {neighbour : Option Diagram.NodeId}
    {fan : Diagram.NodeId → Nat} :
    Ensures (fun _ => True) (neighbourTask scope neighbour fan) s fun y _ =>
      ∀ k z, neighbour = some k → fan k ≤ 1 → scope.map.find? k = some z →
        (s.spec.node z).kind.isCondition = false → y = z := by
  unfold neighbourTask
  rw [ensures_bind, ensures_spec]
  dsimp only
  split
  · rename_i task found
    rintro k z rfl few registered _
    rw [Option.bind_some, if_neg (Nat.not_lt.mpr few), registered] at found
    obtain ⟨same, _⟩ := Option.filter_eq_some_iff.mp found
    exact (Option.some.inj same).symm
  · rename_i none
    refine .anyhow ?_
    rintro y t k z rfl few registered task
    rw [Option.bind_some, if_neg (Nat.not_lt.mpr few), registered] at none
    simp [task] at none

/-- The decorators of a gateway are set on the sides where it has several flows. -/
theorem ensures_foldOnto_sides (isTask : (s.spec.task? y).isSome) :
    Ensures E (foldOnto job scope n (decide (1 < fanOut job n)) (decide (1 < fanIn job n)) y) s
      fun folded t => folded.2 = scope.register n y ∧
        (∀ z, t.spec.split z = if z = y then (splitOf job n).getD (s.spec.split z)
          else s.spec.split z) ∧
        ∀ z, t.spec.join z = if z = y then (joinOf job n).getD (s.spec.join z)
          else s.spec.join z := by
  obtain ⟨task, found⟩ := Option.isSome_iff_exists.mp isTask
  unfold foldOnto splitOf joinOf decoratorOf
  cases kind : (job.diagram.node n).kind with
  | gateway routing =>
    dsimp only
    cases rule : decorator? routing with
    | none =>
      refine ⟨rfl, fun z => ?_, fun z => ?_⟩
      · simp
      · simp
    | some decorator =>
      have set : ∀ z, _ ∧ _ := fun z => decorators_modifyTask (m := z) (g := decorate decorator
        (decide (1 < fanOut job n)) (decide (1 < fanIn job n))) found
      refine ⟨rfl, fun z => (set z).1.trans ?_, fun z => (set z).2.trans ?_⟩
      · by_cases same : z = y
        · subst same
          by_cases several : 1 < fanOut job n <;> simp [decorate, several, split_of_task found]
        · simp [same]
      · by_cases same : z = y
        · subst same
          by_cases several : 1 < fanIn job n <;> simp [decorate, several, join_of_task found]
        · simp [same]
  | _ =>
    refine ⟨rfl, fun z => ?_, fun z => ?_⟩
    · simp
    · simp

/-- A gateway is folded onto the task that it takes once the task is decorated. -/
theorem Takes.folds {folded : Net.NodeId × Scope} (takes : Takes job scope.map n y s.spec)
    (routine : Routine SameDecorators s t) (entered : Entered scope.net y s t)
    (decorated : (folded.2 = scope.register n y ∧
      (∀ z, u.spec.split z = if z = y then (splitOf job n).getD (t.spec.split z)
        else t.spec.split z) ∧
      ∀ z, u.spec.join z = if z = y then (joinOf job n).getD (t.spec.join z)
        else t.spec.join z) ∧ folded.2 = scope.register n y ∧ Tuned (· = scope.net) t u) :
    ∃ y, folded.2 = scope.register n y ∧ Folds job scope.map n y s.spec u.spec := by
  obtain ⟨⟨result, split, join⟩, _, tuned⟩ := decorated
  refine ⟨y, result, takes, fun z => ?_, fun z => ?_, fun z old => ?_⟩
  · rw [split, routine.change.split]
  · rw [join, routine.change.join]
  · rw [isCondition_of_skeleton tuned.skeleton, entered.steps.grows.isCondition old]

/-- No only flow enters a gateway that joins, and none leaves one that splits. -/
theorem Takes.of_both {spec : Specification} (new : spec.nodes.size ≤ y.index)
    (splits : 1 < fanOut job n) (joins : 1 < fanIn job n) : Takes job map n y spec where
  origin := .inl new
  before _ _ flow := absurd flow.fanIn (Nat.ne_of_gt joins)
  after _ _ _ flow := absurd flow.fanOut (Nat.ne_of_gt splits)

/-- The neighbour of a gateway on the one side that it is folded onto has no other flows there. -/
theorem ensures_foldTask_takes (paired : job.diagram.Paired)
    (stored : scope.net.index < s.spec.decompositions.size) (mapped : Mapped job s.spec scope) :
    Ensures (fun _ => True) (foldTask job scope n) s fun y t =>
      Takes job scope.map n y s.spec ∧ Entered scope.net y s t ∧ (t.spec.task? y).isSome := by
  unfold foldTask
  dsimp only
  split
  · rename_i both
    simp only [Bool.and_eq_true, decide_eq_true_eq] at both
    refine (ensures_createRoutingTask stored).mono ?_
    rintro y t ⟨entered, _, isTask, new⟩
    exact ⟨.of_both new both.1 both.2, entered, isTask⟩
  · rename_i notBoth
    simp only [Bool.and_eq_true, decide_eq_true_eq] at notBoth
    split
    · rename_i joins
      simp only [decide_eq_true_eq] at joins
      have few : fanOut job n ≤ 1 := Nat.le_of_not_lt fun splits => notBoth ⟨splits, joins⟩
      refine ((ensures_neighbourTask stored mapped).and ensures_neighbourTask_taken).mono ?_
      rintro y t ⟨⟨entered, _, isTask, origin⟩, taken⟩
      refine ⟨⟨?_, fun _ _ flow => absurd flow.fanIn (Nat.ne_of_gt joins), fun q z _ flow => ?_⟩,
        entered, isTask⟩
      · rcases origin with new | ⟨q, after, fan, found⟩
        · exact .inl new
        · exact .inr (.inr ⟨joins, q, onlyFlow_of_successor paired after few fan, found⟩)
      · exact taken q z flow.successor (Nat.le_of_eq flow.fanIn)
    · rename_i straight
      simp only [decide_eq_true_eq] at straight
      have few : fanIn job n ≤ 1 := Nat.le_of_not_lt straight
      refine ((ensures_neighbourTask stored mapped).and ensures_neighbourTask_taken).mono ?_
      rintro y t ⟨⟨entered, _, isTask, origin⟩, taken⟩
      refine ⟨⟨?_, fun p z flow => ?_, fun _ _ joins => absurd joins straight⟩, entered, isTask⟩
      · rcases origin with new | ⟨p, before, fan, found⟩
        · exact .inl new
        · exact .inr (.inl ⟨p, onlyFlow_of_predecessor paired before few fan, found⟩)
      · exact taken p z flow.predecessor (Nat.le_of_eq flow.fanOut)

/-- Folding a gateway sets no decorators but its own. -/
theorem ensures_fold_folds (paired : job.diagram.Paired)
    (stored : scope.net.index < s.spec.decompositions.size) (mapped : Mapped job s.spec scope) :
    Ensures (fun _ => True) (fold job scope n) s fun folded t => ∃ y,
      folded.2 = scope.register n y ∧ Folds job scope.map n y s.spec t.spec := by
  rw [fold_eq]
  refine ((ensures_foldTask_takes paired stored mapped).and
    (routine_foldTask (R := SameDecorators) s)).seq ?_
  rintro y t ⟨⟨takes, entered, isTask⟩, routine⟩
  exact ((ensures_foldOnto_sides isTask).and (ensures_foldOnto entered.mem)).mono
    fun _ _ => takes.folds routine entered

theorem ensures_foldAll_chained (paired : job.diagram.Paired) {done : List Diagram.NodeId}
    (h : Laying job done scope.gateways scope s)
    (chained : Chained job s.spec.nodes.size s.spec scope.map) :
    Ensures E (foldAll job scope) s fun scope' t => scope'.net = scope.net ∧
      Laying job done [] scope' t ∧ Chained job s.spec.nodes.size t.spec scope'.map := by
  refine (ensures_foldAll_of_fold (P := fun scope' t => s.spec.nodes.size ≤ t.spec.nodes.size ∧
    Chained job s.spec.nodes.size t.spec scope'.map) local_anyhow h
    ⟨Nat.le_refl _, chained⟩ ?_).mono ?_
  · rintro n rest scope' t listed laid ⟨size, chained⟩
    refine (ensures_fold_folds paired laid.stored laid.mapped).mono ?_
    rintro folded u ⟨y', result', folds⟩ y result progress laid'
    have chained' : Chained job s.spec.nodes.size u.spec (scope'.map.insert n y') :=
      chained.fold folds (h.gateways n listed).2 size fun m z found =>
        laid.wf.node_stored (laid.mapped.mem found)
    rw [result] at result'
    rw [← show (scope'.register n y').map = scope'.map.insert n y' from rfl, ← result'] at chained'
    exact ⟨Nat.le_trans size progress.steps.grows.nodes_size, chained'⟩
  · rintro scope' t ⟨net, _, _, laid, _, chained⟩
    exact ⟨net, laid, chained⟩

/-- Before any gateway is folded, every counterpart that is a task stands for one node. -/
theorem Unfolded.chained {spec : Specification} (h : Unfolded job scope spec)
    (mapped : Mapped job spec scope) (wf : spec.WellFormed) :
    Chained job base spec scope.map := by
  intro n y found task
  have unshared : ∀ m, scope.map.find? m = some y → ¬Shares (job.diagram.node m).kind := by
    intro m here
    have stands := mapped.stands here
    have inner : ∀ x, (spec.decomposition scope.net).terminal x ≠ some y :=
      wf.terminal_ne_of_task (isTask_iff.mpr task)
    rintro (gateway | start | finish)
    · rw [h.gateways m y here gateway] at task
      cases task
    · rw [start] at stands
      exact inner .input stands
    · rw [finish] at stands
      exact inner .output stands
  have plain : (job.diagram.node n).kind.isGateway = false := by
    rw [← Bool.not_eq_true]
    exact fun gateway => unshared n found (.inl gateway)
  obtain ⟨split, join⟩ := h.undecorated y (mapped.mem found)
  refine ⟨[n], fun m => ?_, List.nodup_singleton n, .singleton n, ?_, ?_, ?_⟩
  · rw [List.mem_singleton]
    constructor
    · rintro rfl
      exact found
    · intro here
      rcases mapped.apart here found with same | shares | shares
      · exact same
      · exact (unshared m here shares).elim
      · exact (unshared n found shares).elim
  · rw [split, List.getLast?_singleton, Option.bind_some, splitOf, decoratorOf_plain plain]
    rfl
  · rw [join, List.head?_singleton, Option.bind_some, joinOf, decoratorOf_plain plain]
    rfl
  · intro m here gateway
    rw [List.mem_singleton.mp here, plain] at gateway
    cases gateway

/-! ### Whole layouts -/

/-- The net of a container with all its nodes placed, before any gateway is folded. -/
def placeAll (job : Job) (nested : Nested) (container : Diagram.Container) : Compile Scope := do
  let d ← openNet job container
  (job.diagram.children container).foldlM (placeChild job nested) { net := d }

/-- A net is laid out by placing all nodes, folding the gateways and adding missing conditions. -/
theorem layOut_eq : layOut job nested container = do
    let scope ← placeAll job nested container
    let scope ← foldAll job scope
    closeConditions scope
    return scope := by
  simp only [layOut, placeAll, bind_assoc]

theorem ensures_placeAll (nests : Nests (fun _ => True) Good job nested) (good : Local Good)
    (ready : Ready job container s) :
    Ensures (fun _ => True) (placeAll job nested container) s fun scope t =>
      Laying job (job.diagram.children container) scope.gateways scope t ∧
        Unfolded job scope t.spec := by
  unfold placeAll
  refine (ensures_openNet ready.opens).seq fun d s₁ opened => ?_
  exact (ensures_placeChildren_unfolded good nests (opened.laying ready.wf ready.clear) _).mono
    fun _ _ done => done.2

end ProcessNets.Compile
