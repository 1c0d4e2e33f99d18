import ProcessNets.Net.Cancellation
import ProcessNets.Proofs.Net.Details
import ProcessNets.Proofs.Net.EdgesOnly

/-!
# Incidental changes

Most of what is done to a specification steers no control flow: data changes, a node is added to
which nothing leads yet, a task gets a timer or a task-level decomposition. A relation that holds
across each such change holds across every operation that is made of them, wherever it starts and
also where it fails midway in other places. Some relations do not hold where data changes, or only
not where a task gets mappings, and some do where edges and decorators change as well.
-/

namespace ProcessNets

open Net

variable {s t u : Specification} {n m : NodeId} {d : DecompositionId} {e : EdgeId}
  {R : Specification → Specification → Prop} {P : NodeId → DecompositionId → Prop}

/-- A node that steers nothing: without edges, and a condition or a task of which nothing is set. -/
structure Net.Node.Plain (x : Node) : Prop where
  incoming : x.incoming = []
  outgoing : x.outgoing = []
  kind : x.kind = .task {} ∨ x.kind.isCondition = true

theorem Net.Node.Plain.task {id name : String} : Node.Plain { id, name, kind := .task {} } :=
  ⟨rfl, rfl, .inl rfl⟩

theorem Net.Node.Plain.condition {id name : String} {kind : Kind} (h : kind.isCondition = true) :
    Node.Plain { id, name, kind } :=
  ⟨rfl, rfl, .inr h⟩

theorem Net.Node.Plain.terminal {id name : String} (x : Terminal) :
    Node.Plain { id, name, kind := x.kind } :=
  .condition (by cases x <;> rfl)

namespace Specification

/-- A relation that holds across incidental changes other than those of data. -/
class Structural (R : Specification → Specification → Prop) : Prop
    extends Std.Refl R, IsTrans Specification R where
  detail : ∀ {s n} {g : Task → Task}, (∀ t, (g t).decomposesTo = t.decomposesTo) →
    (∀ t, (g t).control = t.control) →
    (∀ t, (g t).starting = t.starting ∧ (g t).completed = t.completed) → R s (s.modifyTask n g)
  timer : ∀ {s n} (timer : Timer), R s (s.modifyTask n fun t => { t with timer := some timer })
  node : ∀ {s d} {x : Node}, x.Plain → R s (s.addNode d x)
  terminal : ∀ {s d} (x : Terminal) (id name : String), R s (s.addTerminal d x id name)
  decompose : ∀ {s n} (id : String), s.runs? n = none → R s ((s.addDecomposition
    { id, facts := .webServiceGateway }).setRuns n ⟨s.decompositions.size⟩)

/-- A relation that holds across every incidental change, other than those of mappings. -/
class Incidental (R : Specification → Specification → Prop) : Prop extends Structural R where
  lists : ∀ {s d} (which : VariableList) {g : List Variable → List Variable},
    (∀ vs, vs ⊆ g vs) → R s (s.modifyDecomposition d fun net => net.modifyList which g)

/-- An incidental relation that also holds where tasks get mappings. -/
class DataFree (R : Specification → Specification → Prop) : Prop extends Incidental R where
  mappings : ∀ {s n} {g : Task → Task}, (∀ t, ∃ starting completed, t.completed ⊆ completed ∧
    g t = { t with starting, completed }) → R s (s.modifyTask n g)

/-- A relation that also holds where edges and decorators change. -/
class Wiring (R : Specification → Specification → Prop) : Prop extends Structural R where
  edges : ∀ {free s t}, EdgesOnly free s t → R s t
  decorate : ∀ {s n} {g : Task → Task}, (∀ t, ∃ split join, g t = { t with split, join }) →
    R s (s.modifyTask n g)
  router : ∀ {s d} (id name : String) (split join : Decorator),
    R s (s.addNode d { id, name, kind := .task { split, join } })

/-- A relation that holds where cancellation sets change. -/
class Clearing (R : Specification → Specification → Prop) : Prop
    extends Std.Refl R, IsTrans Specification R where
  cancels : ∀ {s n} {g : Task → Task}, (∀ t, ∃ cancels, g t = { t with cancels }) →
    R s (s.modifyTask n g)

end Specification

open Specification

namespace Net.Edit

section
variable [Std.Refl R]

theorem relates_requireTask : Relates R (requireTask n) := fun s => by
  unfold requireTask
  rw [ensures_bind, ensures_get]
  split
  · exact Std.Refl.refl s
  · trivial

theorem relates_requireEnd {x : Option NodeId} : Relates R (requireEnd x) := by
  cases x with
  | some n => exact .pure n
  | none => exact .throw

end

theorem relates_updateTask [Std.Refl R] [IsTrans Specification R] {g : Task → Task}
    (change : ∀ s, R s (s.modifyTask n g)) : Relates R (updateTask n g) :=
  .bind relates_requireTask fun _ => .modify change

section
variable [Structural R]

theorem relates_modifyTask {g : Task → Task} (runs : ∀ t, (g t).decomposesTo = t.decomposesTo)
    (control : ∀ t, (g t).control = t.control)
    (mappings : ∀ t, (g t).starting = t.starting ∧ (g t).completed = t.completed) :
    Relates R (modify (·.modifyTask n g) : Edit PUnit) :=
  .modify fun _ => Structural.detail runs control mappings

/-! ### New nodes -/

theorem relates_createTask {id name : String} : Relates R (createTask d id name) :=
  fun _ => Structural.node .task

theorem relates_createCondition {id name : String} : Relates R (createCondition d id name) :=
  fun _ => Structural.node (.condition rfl)

theorem relates_createTerminal {x : Terminal} {id name : String} :
    Relates R (createTerminal d x id name) := by
  intro s
  rw [ensures_createTerminal]
  split
  · exact Std.Refl.refl s
  · exact Structural.terminal x id name

theorem relates_ensureDecomposition : Relates R (ensureDecomposition n) := by
  intro s
  unfold ensureDecomposition
  cases found : s.task? n with
  | none =>
    refine Ensures.bind ?_
    unfold requireTask
    rw [ensures_bind, ensures_get, found]
    trivial
  | some task =>
    rw [ensures_bind]
    apply ensures_requireTask found
    split
    · exact Std.Refl.refl s
    · rename_i idle
      refine Structural.decompose _ ?_
      rw [runs?_eq_bind, found]
      exact idle

end

/-! ### Variables -/

section
variable [Incidental R]

theorem relates_appendVariable {which : VariableList} {v : Variable} :
    Relates R (appendVariable d which v) :=
  .modify fun _ => Incidental.lists which fun vs => List.subset_append_left vs [v]

theorem relates_declareVariable {which : VariableList} {v : Variable} :
    Relates R (declareVariable d which v) := by
  refine .bind .get fun s => .bind (.modify fun _ => ?_) fun _ => .pure _
  exact Incidental.lists which fun vs w hw => mem_declare.mpr (.inl hw)

end

/-! ### Mappings -/

section
variable [DataFree R]

theorem relates_addStarting {query : String} {v : Variable} :
    Relates R (addStarting n query v) := by
  refine .bind relates_requireTask fun task => .bind (.modify fun _ => ?_) fun _ => .pure _
  exact DataFree.mappings fun t => ⟨_, _, List.Subset.refl _, rfl⟩

theorem relates_addCompleted {query : String} {v : Variable} :
    Relates R (addCompleted n query v) := by
  refine .bind relates_requireTask fun task => .bind (.modify fun _ => ?_) fun _ => .pure _
  exact DataFree.mappings fun t => ⟨_, _, subset_addMapping, rfl⟩

end

/-! ### Edges and decorators -/

section
variable [Wiring R]

/-- Operations on edges change nothing else. -/
theorem wired_of_edgesOnly {α : Type} {operation : Edit α} {free : NodeId → Prop}
    (h : Relates (EdgesOnly free) operation) : Relates R operation :=
  h.mono fun _ _ => Wiring.edges

theorem wired_createTask {id name : String} {split join : Decorator} :
    Relates R (createTask d id name split join) :=
  fun _ => Wiring.router id name split join

theorem wired_updateTask {g : Task → Task} (decorates : ∀ t, ∃ split join,
    g t = { t with split, join }) : Relates R (updateTask n g) :=
  relates_updateTask fun _ => Wiring.decorate decorates

theorem wired_createEdge {x : Edge} : Relates R (createEdge d x) :=
  wired_of_edgesOnly relates_createEdge

theorem wired_link {a b : NodeId} {ordering : Int} {predicate : String} {isDefault : Bool} :
    Relates R (link d a b ordering predicate isDefault) :=
  wired_createEdge

theorem wired_redirectEnd (side : Side) : Relates R (redirectEnd d e side n) := by
  cases side
  · exact wired_of_edgesOnly relates_redirectSource
  · exact wired_of_edgesOnly relates_redirectTarget

theorem wired_moveOutgoing {a b : NodeId} : Relates R (moveOutgoing d a b) :=
  wired_of_edgesOnly relates_moveOutgoing

theorem wired_moveIncoming {a b : NodeId} : Relates R (moveIncoming d a b) :=
  wired_of_edgesOnly relates_moveIncoming

theorem wired_linkFirst {a b : NodeId} {predicate : String} :
    Relates R (linkFirst d a b predicate) :=
  wired_of_edgesOnly relates_linkFirst

end

/-! ### Cancellation sets -/

section
variable [Clearing R]

theorem relates_cancel {other : Option NodeId} : Relates R (cancel n other) := by
  refine .bind relates_requireTask fun task => ?_
  split
  · exact .pure _
  · refine .bind .get fun s => ?_
    split
    · exact .pure _
    · exact .bind (.modify fun _ => Clearing.cancels fun t => ⟨_, rfl⟩) fun _ => .pure _

theorem relates_cancelAll : Relates R (cancelAll d n) :=
  .bind .get fun _ => .forM fun _ _ => .bind relates_cancel fun _ => .pure _

end

end Net.Edit

end ProcessNets
