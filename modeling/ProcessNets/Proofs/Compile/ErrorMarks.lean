import Mathlib.Data.List.Find
import ProcessNets.Proofs.Compile.Routine
import ProcessNets.Proofs.Net.Mappings

/-!
# Marks of error tasks

The task that raises an error is found in a net by its id alone: it is the first task whose id
contains the mark of error end events. Ids are made of a stem and a number when a node is created,
and they only contain the mark if the stem is the mark.
-/

namespace ProcessNets.Compile

open Net Specification

variable {E : Fault → Prop} {s : State} {spec spec' : Specification} {d : DecompositionId}
  {y z : Net.NodeId} {stem : String} {count : Nat}

/-! ### Marked ids -/

/-- The id of the node contains the mark of error end events. -/
def Marked (spec : Specification) (y : Net.NodeId) : Prop :=
  Text.occursIn errorMark.toList (spec.node y).id.toList = true

theorem occursIn_nodeId_errorMark :
    Text.occursIn errorMark.toList (nodeId errorMark count).toList = true := by
  rw [Text.occursIn_iff]
  unfold nodeId
  simp only [String.toList_append]
  rw [List.append_assoc, List.append_assoc]
  exact List.infix_append' ..

/-- Other ids have no capital E. -/
theorem not_occursIn_nodeId (plain : 'E' ∉ stem.toList) :
    Text.occursIn errorMark.toList (nodeId stem count).toList = false := by
  rw [Bool.eq_false_iff, Ne, Text.occursIn_iff]
  intro occurs
  have capital : 'E' ∈ (nodeId stem count).toList := occurs.subset (by decide)
  unfold nodeId at capital
  rw [Nat.toString_eq_ofList_toDigits] at capital
  simp only [String.toList_append, String.toList_ofList, List.mem_append] at capital
  rcases capital with ((first | inStem) | separator) | digit
  · exact absurd first (by decide)
  · exact plain inStem
  · exact absurd separator (by decide)
  · have isDigit := Nat.isDigit_of_mem_toDigits (by decide) (by decide) digit
    exact absurd isDigit (by decide)

/-! ### Finding the task -/

theorem errorTask?_some (h : errorTask? spec d = some y) :
    y ∈ (spec.decomposition d).nodes ∧ (spec.task? y).isSome ∧ Marked spec y := by
  unfold errorTask? at h
  have marked := List.find?_some h
  obtain ⟨mem, isTask⟩ := List.mem_filter.mp (List.mem_of_find?_eq_some h)
  exact ⟨mem, isTask, marked⟩

theorem errorTask?_eq_none : errorTask? spec d = none ↔
    ∀ y ∈ (spec.decomposition d).nodes, (spec.task? y).isSome → ¬Marked spec y := by
  unfold errorTask? Specification.tasks
  rw [List.find?_eq_none]
  constructor
  · exact fun none y hy isTask => none y (List.mem_filter.mpr ⟨hy, isTask⟩)
  · intro none y hy
    obtain ⟨mem, isTask⟩ := List.mem_filter.mp hy
    exact none y mem isTask

section
variable (wf : spec.WellFormed) (grows : spec.Extends spec')
include wf grows

theorem Extends.marked (hy : y ∈ (spec.decomposition d).nodes) :
    Marked spec' y ↔ Marked spec y := by
  unfold Marked
  rw [grows.id (wf.node_stored hy)]

theorem isTask_of_extends (hy : y ∈ (spec.decomposition d).nodes) :
    (spec'.task? y).isSome = (spec.task? y).isSome := by
  rw [Bool.eq_iff_iff, isTask_iff, isTask_iff, grows.isCondition (wf.node_stored hy)]

/-- The error task of a net stays the same when the net grows. -/
theorem Extends.errorTask? (h : errorTask? spec d = some z) :
    Compile.errorTask? spec' d = some z := by
  unfold Compile.errorTask? Specification.tasks at h ⊢
  rw [List.find?_filter] at h ⊢
  refine (grows.nodes d).find?_eq_some ?_
  rw [← h]
  refine List.find?_congr fun y hy => ?_
  rw [isTask_of_extends wf grows hy, grows.id (wf.node_stored hy)]

end

/-! ### Ids of new tasks -/

/-- The node is stored, and its id was made of the stem. -/
structure Titled (stem : String) (spec : Specification) (y : Net.NodeId) : Prop where
  stored : y.index < spec.nodes.size
  id : ∃ count, (spec.node y).id = nodeId stem count

namespace Titled

theorem grow (h : Titled stem spec y) (grows : spec.Extends spec') : Titled stem spec' y where
  stored := Nat.lt_of_lt_of_le h.stored grows.nodes_size
  id := by
    rw [grows.id h.stored]
    exact h.id

theorem enlarged (h : Titled stem spec y) (larger : Enlarged spec spec') :
    Titled stem spec' y where
  stored := Nat.lt_of_lt_of_le h.stored larger.size
  id := by
    rw [larger.id h.stored]
    exact h.id

theorem not_marked (h : Titled stem spec y) (plain : 'E' ∉ stem.toList) : ¬Marked spec y := by
  obtain ⟨count, id⟩ := h.id
  unfold Marked
  rw [id, not_occursIn_nodeId plain]
  exact Bool.false_ne_true

theorem marked (h : Titled errorMark spec y) : Marked spec y := by
  obtain ⟨count, id⟩ := h.id
  unfold Marked
  rw [id, occursIn_nodeId_errorMark]

end Titled

theorem Titled.seq {α β : Type} {work : Compile α} {rest : α → Compile β} {post : β → State → Prop}
    (titled : Titled stem s.spec y) (enlarging : Relates (Routine Enlarged) work)
    (next : ∀ a t, Titled stem t.spec y → Ensures (fun _ => True) (rest a) t post) :
    Ensures (fun _ => True) (work >>= rest) s post :=
  (enlarging s).seq fun a t routine => next a t (titled.enlarged routine.change)

theorem titled_createTask {name : String} {split join : Decorator} :
    Ensures E (edit (.createTask d (nodeId stem count) name split join)) s fun y t =>
      Titled stem t.spec y := by
  apply ensures_edit
  rw [Edit.ensures_createTask]
  refine ⟨?_, count, ?_⟩
  · rw [nodes_size_addNode]
    exact Nat.lt_succ_self _
  · rw [node_addNode_new]

end ProcessNets.Compile
