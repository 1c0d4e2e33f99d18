import ProcessNets.Proofs.Net.Decorators

/-!
# Branching tasks

A task that leads to several nodes branches, and has to split to say which of them it starts. A
careful change adds outgoing edges to tasks only. A strict one, moreover, lets no task branch
without a split.
-/

namespace ProcessNets

open Net

variable {s t u : Specification} {n m a : NodeId} {c d : DecompositionId}
  {free : NodeId → Prop} {strict : Prop}

namespace Specification

/-- All tasks of a net that lead to several nodes split. -/
def BranchesSplit (s : Specification) (d : DecompositionId) : Prop :=
  ∀ n ∈ (s.decomposition d).nodes, (s.task? n).isSome → 1 < s.spread n → s.split n ≠ .none

/-- The node is a task. If that is called for, and the task is in the net, it splits. -/
def MayBranch (strict : Prop) (d : DecompositionId) (s : Specification) (n : NodeId) : Prop :=
  (s.task? n).isSome ∧ (strict → n ∈ (s.decomposition d).nodes → s.split n ≠ .none)

theorem isTask_of_kind (same : (t.node n).kind = (s.node n).kind) :
    (t.task? n).isSome = (s.task? n).isSome := by
  unfold task?
  rw [same]

theorem isTask_of_split (h : s.split n ≠ .none) : (s.task? n).isSome := by
  unfold split at h
  unfold task?
  cases kind : (s.node n).kind with
  | task task => rfl
  | _ =>
    rw [kind] at h
    exact (h rfl).elim

theorem spread_eq_zero (new : s.nodes.size ≤ n.index) : s.spread n = 0 := by
  unfold spread
  rw [node_eq_blank new]
  rfl

theorem stored_of_spread (h : s.spread n ≠ 0) : n.index < s.nodes.size :=
  Nat.lt_of_not_le fun new => h (spread_eq_zero new)

theorem stored_of_isTask (h : (s.task? n).isSome) : n.index < s.nodes.size := by
  obtain ⟨task, found⟩ := Option.isSome_iff_exists.mp h
  exact task_stored found

theorem mayBranch_of_split (h : s.split n ≠ .none) : MayBranch strict d s n :=
  ⟨isTask_of_split h, fun _ _ => h⟩

/-! ### Careful changes -/

/-- Tasks stay and go on to split, and no node has more outgoing edges than before, except for
tasks. A strict change gives a task of the net more than one edge only if the task splits. -/
structure Careful (strict : Prop) (d : DecompositionId) (s t : Specification) : Prop where
  size : s.nodes.size ≤ t.nodes.size
  decompositions_size : s.decompositions.size ≤ t.decompositions.size
  origin : ∀ d, ∀ n ∈ (t.decomposition d).nodes,
    n ∈ (s.decomposition d).nodes ∨ s.nodes.size ≤ n.index
  isTask : ∀ n : NodeId, n.index < s.nodes.size → (t.task? n).isSome = (s.task? n).isSome
  split : ∀ n, s.split n ≠ .none → t.split n ≠ .none
  spread : ∀ n, t.spread n ≤ s.spread n ∨
    (t.task? n).isSome ∧ t.spread n ≤ 1 ∨ MayBranch strict d t n

theorem MayBranch.careful (h : MayBranch strict d s n) (careful : Careful strict d s t) :
    MayBranch strict d t n := by
  have stored := stored_of_isTask h.1
  refine ⟨(careful.isTask n stored).trans h.1, fun isStrict hn => careful.split n ?_⟩
  exact h.2 isStrict ((careful.origin d n hn).resolve_right (Nat.not_le.mpr stored))

theorem BranchesSplit.careful (h : BranchesSplit s d) (isStrict : strict)
    (careful : Careful strict d s t) : BranchesSplit t d := by
  intro n hn isTask several
  rcases careful.spread n with fewer | ⟨_, single⟩ | ⟨_, splits⟩
  · have stored : n.index < s.nodes.size := stored_of_spread (by omega)
    have old := (careful.origin d n hn).resolve_right (by omega)
    rw [careful.isTask n stored] at isTask
    exact careful.split n (h n old isTask (by omega))
  · omega
  · exact splits isStrict hn

namespace Careful

/-- A condition does not get more outgoing edges. -/
theorem condition (h : Careful strict d s t) (stored : n.index < s.nodes.size)
    (condition : s.task? n = none) : t.spread n ≤ s.spread n := by
  have isCondition : ¬(t.task? n).isSome := by
    rw [h.isTask n stored, condition]
    exact Bool.false_ne_true
  rcases h.spread n with fewer | ⟨isTask, _⟩ | ⟨isTask, _⟩
  · exact fewer
  · exact (isCondition isTask).elim
  · exact (isCondition isTask).elim

instance : Std.Refl (Careful strict d) :=
  ⟨fun _ => ⟨Nat.le_refl _, Nat.le_refl _, fun _ _ => .inl, fun _ _ => rfl,
    fun _ splits => splits, fun _ => .inl (Nat.le_refl _)⟩⟩

theorem trans (h : Careful strict d s t) (h' : Careful strict d t u) : Careful strict d s u where
  size := Nat.le_trans h.size h'.size
  decompositions_size := Nat.le_trans h.decompositions_size h'.decompositions_size
  origin d n hn := by
    rcases h'.origin d n hn with old | new
    · exact h.origin d n old
    · exact .inr (Nat.le_trans h.size new)
  isTask n stored := (h'.isTask n (Nat.lt_of_lt_of_le stored h.size)).trans (h.isTask n stored)
  split n splits := h'.split n (h.split n splits)
  spread n := by
    rcases h'.spread n with fewer | some
    · rcases h.spread n with fewer' | ⟨isTask, single⟩ | may
      · exact .inl (Nat.le_trans fewer fewer')
      · refine .inr (.inl ⟨?_, Nat.le_trans fewer single⟩)
        rw [h'.isTask n (stored_of_isTask isTask)]
        exact isTask
      · exact .inr (.inr (may.careful h'))
    · exact .inr some

instance : IsTrans Specification (Careful strict d) :=
  ⟨fun _ _ _ => trans⟩

/-! ### Changes of edges -/

/-- Nodes that may branch get more edges. -/
theorem of_edgesOnly (h : EdgesOnly free s t) (may : ∀ n, free n → MayBranch strict d s n) :
    Careful strict d s t where
  size := Nat.le_of_eq h.size.symm
  decompositions_size := Nat.le_of_eq h.decompositions_size.symm
  origin d n hn := .inl (by rwa [h.nodes d] at hn)
  isTask n _ := isTask_of_kind (h.kind n)
  split n splits := by rwa [split_of_kind (h.kind n)]
  spread n := by
    by_cases isFree : free n
    · obtain ⟨isTask, splits⟩ := may n isFree
      refine .inr (.inr ⟨?_, ?_⟩)
      · rwa [isTask_of_kind (h.kind n)]
      · rwa [split_of_kind (h.kind n), h.nodes d]
    · exact .inl (h.spread n isFree)

theorem of_edges (h : EdgesOnly (fun _ => False) s t) : Careful strict d s t :=
  .of_edgesOnly h fun _ none => none.elim

/-- A task without outgoing edges gets one. -/
theorem first (h : EdgesOnly (· = a) s t) (more : t.spread a ≤ s.spread a + 1)
    (isTask : (s.task? a).isSome) (none : s.spread a = 0) : Careful strict d s t where
  size := Nat.le_of_eq h.size.symm
  decompositions_size := Nat.le_of_eq h.decompositions_size.symm
  origin d n hn := .inl (by rwa [h.nodes d] at hn)
  isTask n _ := isTask_of_kind (h.kind n)
  split n splits := by rwa [split_of_kind (h.kind n)]
  spread n := by
    by_cases same : n = a
    · rw [same, isTask_of_kind (h.kind a)]
      exact .inr (.inl ⟨isTask, by omega⟩)
    · exact .inl (h.spread n same)

/-! ### Changes of nodes -/

theorem isTask_modifyTask {g : Task → Task} :
    ((s.modifyTask n g).task? m).isSome = (s.task? m).isSome := by
  rw [task?_modifyTask]
  split
  · exact Option.isSome_map ..
  · rfl

theorem spread_modifyTask {g : Task → Task} : (s.modifyTask n g).spread m = s.spread m := by
  unfold Specification.spread modifyTask
  rw [node_modifyNode]
  split <;> rfl

/-- A task goes on to split, perhaps in another way. -/
theorem modifyTask {g : Task → Task} (keeps : ∀ t, t.split ≠ .none → (g t).split ≠ .none) :
    Careful strict d s (s.modifyTask n g) where
  size := Nat.le_of_eq (nodes_size_modifyNode _).symm
  decompositions_size := Nat.le_refl _
  origin _ _ := .inl
  isTask _ _ := isTask_modifyTask
  split m splits := by
    obtain ⟨task, found⟩ := Option.isSome_iff_exists.mp (isTask_of_split splits)
    have changed : (s.modifyTask n g).task? m = some (if m = n then g task else task) := by
      rw [task?_modifyTask, found]
      split <;> rfl
    rw [split_of_task found] at splits
    rw [split_of_task changed]
    split
    · exact keeps task splits
    · exact splits
  spread _ := .inl (Nat.le_of_eq spread_modifyTask)

/-- A task gets edges and, as it has them, splits. -/
theorem branch {g : Task → Task} (h : EdgesOnly (· = a) s t) (isTask : (s.task? a).isSome)
    (splits : ∀ task, (g task).split ≠ .none) : Careful strict d s (t.modifyTask a g) := by
  have changed : Careful True d t (t.modifyTask a g) := .modifyTask fun task _ => splits task
  have splitting : (t.modifyTask a g).split a ≠ .none := by
    rw [← isTask_of_kind (h.kind a)] at isTask
    obtain ⟨task, found⟩ := Option.isSome_iff_exists.mp isTask
    rw [(decorators_modifyTask found).1, if_pos rfl]
    exact splits task
  refine ⟨?_, ?_, fun c n hn => .inl ?_, fun n _ => ?_, fun n split => ?_, fun n => ?_⟩
  · exact Nat.le_trans (Nat.le_of_eq h.size.symm) changed.size
  · exact Nat.le_of_eq h.decompositions_size.symm
  · rw [← h.nodes c]
    exact hn
  · rw [isTask_modifyTask, isTask_of_kind (h.kind n)]
  · rw [← split_of_kind (h.kind n)] at split
    exact changed.split n split
  · by_cases same : n = a
    · rw [same]
      exact .inr (.inr (mayBranch_of_split splitting))
    · rw [spread_modifyTask]
      exact .inl (h.spread n same)

theorem addNode {x : Node} (bare : x.outgoing = []) : Careful strict d s (s.addNode c x) where
  size := by
    rw [nodes_size_addNode]
    exact Nat.le_succ _
  decompositions_size := Nat.le_of_eq (decompositions_size_addNode x).symm
  origin b n hn := by
    rw [decomposition_addNode] at hn
    split at hn
    · rcases List.mem_append.mp hn with old | new
      · exact .inl old
      · rw [List.mem_singleton.mp new]
        exact .inr (Nat.le_refl _)
    · exact .inl hn
  isTask n stored := by
    unfold task?
    rw [node_addNode, if_neg (Nat.ne_of_lt stored)]
  split n splits := by
    have stored := stored_of_isTask (isTask_of_split splits)
    unfold Specification.split at splits ⊢
    rwa [node_addNode, if_neg (Nat.ne_of_lt stored)]
  spread n := by
    unfold Specification.spread
    rw [node_addNode]
    split
    · rw [bare]
      exact .inl (Nat.zero_le _)
    · exact .inl (Nat.le_refl _)

/-- The same nodes, apart from what steers nothing, in the same nets. -/
theorem of_nodes (h : Careful strict d s t) (size : u.nodes.size = t.nodes.size)
    (decompositions_size : t.decompositions.size ≤ u.decompositions.size)
    (nodes : ∀ d, ∀ n ∈ (u.decomposition d).nodes, n ∈ (t.decomposition d).nodes)
    (node : ∀ n, (u.node n).control = (t.node n).control) : Careful strict d s u := by
  have isTask : ∀ n, (u.task? n).isSome = (t.task? n).isSome := fun n => by
    have same := congrArg (·.isSome) (split?_of_control (node n))
    simpa [split?] using same
  have split : ∀ n, u.split n = t.split n := fun n => split_of_control (node n)
  have spread : ∀ n, u.spread n = t.spread n := fun n => by
    have same := congrArg (fun node => node.outgoing.length) (node n)
    exact same
  refine h.trans ⟨Nat.le_of_eq size.symm, decompositions_size,
    fun d n hn => .inl (nodes d n hn), fun n _ => isTask n, fun n splits => ?_,
    fun n => .inl (Nat.le_of_eq (spread n))⟩
  rwa [split n]

theorem of_dataOnly (h : DataOnly (fun _ => False) s t) : Careful strict d s t :=
  .of_nodes (Std.Refl.refl _) (nodes_size_of_skeleton h.skeleton)
    (Nat.le_of_eq (decompositions_size_of_skeleton h.skeleton).symm)
    (fun d n hn => by rwa [nodes_of_skeleton h.skeleton d] at hn)
    fun n => h.node n fun _ none => none.elim

instance : DataFree (Careful strict d) where
  mappings only := .of_dataOnly (.of_mappings only)
  lists which _ _ := .of_dataOnly (.of_modifyList which _)
  detail runs control mappings := .of_dataOnly (.of_detail runs control mappings)
  timer _ := .modifyTask fun _ splits => splits
  node plain := .addNode plain.outgoing
  terminal {s c} x id name := by
    refine .of_nodes (.addNode (c := c) (x := { id, name, kind := x.kind }) rfl) rfl
      (Nat.le_of_eq Array.size_modify.symm) (fun b n hn => ?_) fun _ => rfl
    unfold addTerminal at hn
    rw [decomposition_modifyDecomposition] at hn
    split at hn
    · rename_i here
      obtain ⟨rfl, _⟩ := here
      cases x <;> exact hn
    · exact hn
  decompose {s n} id idle := by
    have added : Careful strict d s (s.addDecomposition { id, facts := .webServiceGateway }) := by
      refine .of_nodes (Std.Refl.refl _) rfl ?_ (fun c m hm => ?_) fun _ => rfl
      · rw [decompositions_size_addDecomposition]
        exact Nat.le_succ _
      · rw [decomposition_addDecomposition] at hm
        split at hm
        · cases hm
        · exact hm
    exact added.trans (.modifyTask fun _ splits => splits)

instance : Clearing (Careful strict d) where
  cancels cancels := .modifyTask fun t splits => by
    obtain ⟨other, same⟩ := cancels t
    rw [same]
    exact splits

end Careful

end Specification

open Specification

namespace Net.Edit

theorem ensures_createTask_careful {id name : String} {split join : Decorator} :
    Ensures (fun _ => True) (createTask c id name split join) s fun n t =>
      Careful strict d s t ∧ (t.task? n).isSome ∧ t.split n = split := by
  rw [ensures_createTask]
  refine ⟨.addNode rfl, ?_, ?_⟩
  · unfold task?
    rw [node_addNode, if_pos rfl]
    rfl
  · unfold Specification.split
    rw [node_addNode, if_pos rfl]
    rfl

theorem ensures_requireTask_found :
    Ensures (fun _ => True) (requireTask n) s fun task t => t = s ∧ s.task? n = some task := by
  unfold requireTask
  rw [ensures_bind, ensures_get]
  cases s.task? n with
  | some task => exact ⟨rfl, rfl⟩
  | none => trivial

theorem ensures_updateTask_found {g : Task → Task} :
    Ensures (fun _ => True) (updateTask n g) s fun _ t =>
      (s.task? n).isSome ∧ t = s.modifyTask n g := by
  unfold updateTask
  refine ensures_requireTask_found.seq ?_
  rintro task _ ⟨rfl, found⟩
  exact ⟨Option.isSome_of_eq_some found, rfl⟩

end Net.Edit

end ProcessNets
