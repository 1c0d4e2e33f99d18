import ProcessNets.Proofs.Net.Minor

/-!
# Decorators

How the nodes of a specification split and join. A condition and a node that is not stored do
neither, so that a change which sets no decorator keeps the reading of all nodes, of new ones too.
-/

namespace ProcessNets

open Net

variable {s t u : Specification} {n m : NodeId} {d : DecompositionId}

namespace Net.Kind

def split : Kind → Decorator
  | .task t => t.split
  | _ => .none

def join : Kind → Decorator
  | .task t => t.join
  | _ => .none

/-- Neither a split nor a join. -/
def IsUndecorated (kind : Kind) : Prop :=
  kind.split = .none ∧ kind.join = .none

theorem isUndecorated_of_condition {kind : Kind} (h : kind.isCondition = true) :
    kind.IsUndecorated := by
  cases kind with
  | task t => cases h
  | _ => exact ⟨rfl, rfl⟩

end Net.Kind

theorem Net.Node.Plain.isUndecorated {x : Node} (h : x.Plain) : x.kind.IsUndecorated := by
  rcases h.kind with task | condition
  · rw [task]
    exact ⟨rfl, rfl⟩
  · exact Kind.isUndecorated_of_condition condition

namespace Specification

def split (s : Specification) (n : NodeId) : Decorator :=
  (s.node n).kind.split

def join (s : Specification) (n : NodeId) : Decorator :=
  (s.node n).kind.join

theorem split_of_kind (same : (t.node n).kind = (s.node n).kind) : t.split n = s.split n := by
  unfold split
  rw [same]

theorem join_of_kind (same : (t.node n).kind = (s.node n).kind) : t.join n = s.join n := by
  unfold join
  rw [same]

theorem split_of_control (h : (t.node n).control = (s.node n).control) : t.split n = s.split n := by
  have split : ∀ kind : Kind, kind.control.split = kind.split := by
    intro kind
    cases kind <;> rfl
  have same := congrArg (fun node => node.kind.split) h
  simp only [Node.control, split] at same
  exact same

theorem join_of_control (h : (t.node n).control = (s.node n).control) : t.join n = s.join n := by
  have join : ∀ kind : Kind, kind.control.join = kind.join := by
    intro kind
    cases kind <;> rfl
  have same := congrArg (fun node => node.kind.join) h
  simp only [Node.control, join] at same
  exact same

theorem split_eq_none (new : s.nodes.size ≤ n.index) : s.split n = .none := by
  unfold split
  rw [node_eq_blank new]
  rfl

theorem join_eq_none (new : s.nodes.size ≤ n.index) : s.join n = .none := by
  unfold join
  rw [node_eq_blank new]
  rfl

theorem split_of_task {task : Task} (h : s.task? n = some task) : s.split n = task.split := by
  unfold task? at h
  unfold split
  cases kind : (s.node n).kind <;> rw [kind] at h <;> cases h
  rfl

theorem join_of_task {task : Task} (h : s.task? n = some task) : s.join n = task.join := by
  unfold task? at h
  unfold join
  cases kind : (s.node n).kind <;> rw [kind] at h <;> cases h
  rfl

/-- What a changed task does, and all others do what they did. -/
theorem decorators_modifyTask {g : Task → Task} {task : Task} (h : s.task? n = some task) :
    (s.modifyTask n g).split m = (if m = n then (g task).split else s.split m) ∧
      (s.modifyTask n g).join m = if m = n then (g task).join else s.join m := by
  by_cases same : m = n
  · subst same
    rw [if_pos rfl, if_pos rfl]
    exact ⟨split_of_task (task?_modifyTask_self h), join_of_task (task?_modifyTask_self h)⟩
  · have kept := congrArg Node.kind (node_modifyTask_of_ne (s := s) (g := g) same)
    rw [if_neg same, if_neg same]
    exact ⟨split_of_kind kept, join_of_kind kept⟩

/-! ### Changes without decorators -/

/-- A minor change that sets no decorator. -/
structure SameDecorators (s t : Specification) : Prop extends Minor (fun _ _ => True) s t where
  split : ∀ n, t.split n = s.split n
  join : ∀ n, t.join n = s.join n

namespace SameDecorators

theorem of_kinds (minor : Minor (fun _ _ => True) s t)
    (kind : ∀ n, (t.node n).kind.split = (s.node n).kind.split ∧
      (t.node n).kind.join = (s.node n).kind.join) : SameDecorators s t where
  toMinor := minor
  split n := (kind n).1
  join n := (kind n).2

theorem of_edgesOnly {free : NodeId → Prop} (h : EdgesOnly free s t) : SameDecorators s t :=
  .of_kinds (.of_edgesOnly h) fun n => by
    rw [h.kind]
    exact ⟨rfl, rfl⟩

theorem of_dataOnly (h : DataOnly (fun _ => False) s t) : SameDecorators s t where
  toMinor := .of_dataOnly h
  split n := split_of_control (h.node n fun _ none => none.elim)
  join n := join_of_control (h.node n fun _ none => none.elim)

theorem modifyTask {g : Task → Task} (minor : Minor (fun _ _ => True) s (s.modifyTask n g))
    (keeps : ∀ t, (g t).split = t.split ∧ (g t).join = t.join) :
    SameDecorators s (s.modifyTask n g) := by
  refine .of_kinds minor fun m => ?_
  unfold Specification.modifyTask
  rw [node_modifyNode]
  split
  · dsimp only
    cases (s.node m).kind with
    | task t => exact keeps t
    | _ => exact ⟨rfl, rfl⟩
  · exact ⟨rfl, rfl⟩

theorem addNode {x : Node} (plain : x.Plain) : SameDecorators s (s.addNode d x) := by
  refine .of_kinds (Structural.node plain) fun m => ?_
  rw [node_addNode]
  split
  · rename_i new
    rw [node_eq_blank (Nat.le_of_eq new.symm)]
    exact plain.isUndecorated
  · exact ⟨rfl, rfl⟩

theorem setRuns : SameDecorators s (s.setRuns n d) :=
  .modifyTask (.setRuns trivial) fun _ => ⟨rfl, rfl⟩

instance : Std.Refl SameDecorators := ⟨fun s => ⟨.refl s, fun _ => rfl, fun _ => rfl⟩⟩

instance : IsTrans Specification SameDecorators :=
  ⟨fun _ _ _ h h' => ⟨h.toMinor.trans h'.toMinor, fun n => (h'.split n).trans (h.split n),
    fun n => (h'.join n).trans (h.join n)⟩⟩

instance : DataFree SameDecorators where
  mappings only := .of_dataOnly (.of_mappings only)
  lists which _ _ := .of_dataOnly (.of_modifyList which _)
  detail runs control mappings := .of_dataOnly (.of_detail runs control mappings)
  timer _ := .modifyTask (Structural.timer _) fun _ => ⟨rfl, rfl⟩
  node := .addNode
  terminal {s d} x id name := by
    have added : SameDecorators s (s.addNode d { id, name, kind := x.kind }) :=
      .addNode (.terminal x)
    exact .of_kinds (Structural.terminal x id name) fun m => ⟨added.split m, added.join m⟩
  decompose id idle :=
    .of_kinds (Structural.decompose id idle) fun m => ⟨setRuns.split m, setRuns.join m⟩

end SameDecorators

/-! ### Nets without decorators -/

def Undecorated (s : Specification) (d : DecompositionId) : Prop :=
  ∀ n ∈ (s.decomposition d).nodes, s.split n = .none ∧ s.join n = .none

theorem Undecorated.same (h : Undecorated s d) (same : SameDecorators s t) : Undecorated t d := by
  intro n hn
  rw [same.split, same.join]
  rcases same.origin d n hn with old | new
  · exact h n old
  · exact ⟨split_eq_none new, join_eq_none new⟩

theorem Undecorated.sameDetails (h : Undecorated s d) (nodes : SameNodes d s t)
    (details : SameDetails d s t) : Undecorated t d := by
  intro n hn
  rw [nodes.nodes] at hn
  rw [split_of_control (details.node n hn), join_of_control (details.node n hn)]
  exact h n hn

end Specification

end ProcessNets
