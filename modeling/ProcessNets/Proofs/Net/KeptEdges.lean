import ProcessNets.Proofs.Net.Details
import ProcessNets.Proofs.Net.Renumbering

/-!
# Edges that stay

What becomes of the edges of a net that is rewired. Each one stays in the net with its predicate,
and each of its ends stays where it is or moves to a new task.
-/

namespace ProcessNets

open Net

/-! ### Predicates -/

namespace Net

theorem predicate_numberedFrom {k : Int} {xs : List Edge} :
    (numberedFrom k xs).map (·.predicate) = xs.map (·.predicate) := by
  induction xs generalizing k with
  | nil => rfl
  | cons x rest ih => rw [numberedFrom, List.map_cons, ih, List.map_cons]

theorem predicate_markLast {xs : List Edge} :
    (markLast xs).map (·.predicate) = xs.map (·.predicate) := by
  unfold markLast
  split
  · rename_i last isLast
    split
    · rw [← List.dropLast_append_getLast? last isLast]
      simp
    · rfl
  · rfl

theorem predicate_flag {xs : List Edge} :
    (xs.map Edge.flag).map (·.predicate) = xs.map (·.predicate) := by
  rw [List.map_map]
  apply List.map_congr_left
  intro x _
  show x.flag.predicate = _
  unfold Edge.flag
  split <;> rfl

theorem Edge.predicate_move (x : Edge) (side : Side) (n : NodeId) :
    (x.move side n).predicate = x.predicate := by
  cases side <;> rfl

end Net

namespace Specification

variable {s t u : Specification} {a b m n : NodeId} {e : EdgeId} {d : DecompositionId}
  {side : Side}

/-! ### Kept edges -/

/-- A task that a net did not have before. -/
def NewTask (d : DecompositionId) (s t : Specification) (m : NodeId) : Prop :=
  m ∉ (s.decomposition d).nodes ∧ m ∈ (t.decomposition d).nodes ∧ (t.task? m).isSome

/-- The edges of a net stay there with their predicates, and their ends stay or move to new tasks. -/
structure EdgesKept (d : DecompositionId) (s t : Specification) : Prop where
  listed : ∀ e ∈ (s.decomposition d).edges, e ∈ (t.decomposition d).edges
  predicate : ∀ e ∈ (s.decomposition d).edges, (t.edge e).predicate = (s.edge e).predicate
  endpoint : ∀ e ∈ (s.decomposition d).edges, ∀ side,
    (t.edge e).endpoint side = (s.edge e).endpoint side ∨
      ∃ m, (t.edge e).endpoint side = some m ∧ NewTask d s t m

theorem NewTask.grow (h : NewTask d s t m) (grows : t.Extends u) : NewTask d s u m :=
  ⟨h.1, grows.mem_nodes h.2.1, grows.isTask h.2.2⟩

namespace EdgesKept

theorem of_eq (listed : ∀ e ∈ (s.decomposition d).edges, e ∈ (t.decomposition d).edges)
    (same : ∀ e ∈ (s.decomposition d).edges, t.edge e = s.edge e) : EdgesKept d s t where
  listed := listed
  predicate e he := by rw [same e he]
  endpoint e he side := .inl (by rw [same e he])

theorem refl (s : Specification) : EdgesKept d s s :=
  .of_eq (fun _ he => he) fun _ _ => rfl

theorem trans (h : EdgesKept d s t) (h' : EdgesKept d t u) (grows : s.Extends t)
    (grows' : t.Extends u) : EdgesKept d s u where
  listed e he := h'.listed e (h.listed e he)
  predicate e he := (h'.predicate e (h.listed e he)).trans (h.predicate e he)
  endpoint e he side := by
    rcases h'.endpoint e (h.listed e he) side with same | ⟨m, moved, new, mem, isTask⟩
    · rcases h.endpoint e he side with same' | ⟨m, moved, new⟩
      · exact .inl (same.trans same')
      · exact .inr ⟨m, same.trans moved, new.grow grows'⟩
    · exact .inr ⟨m, moved, fun old => new (grows.mem_nodes old), mem, isTask⟩

theorem of_skeleton (skeleton : t.skeleton = s.skeleton) (same : ∀ e, t.edge e = s.edge e) :
    EdgesKept d s t := by
  refine .of_eq (fun e he => ?_) fun e _ => same e
  rw [edges_of_skeleton skeleton]
  exact he

/-- Edges that carry something else keep their predicates. -/
theorem of_relabeled {ids : List EdgeId} {xs : List Edge} (h : Relabeled ids xs s t)
    (predicates : xs.map (·.predicate) = (ids.map s.edge).map (·.predicate)) :
    EdgesKept d s t where
  listed e he := by
    rw [edges_of_skeleton h.skeleton]
    exact he
  predicate e _ := by
    by_cases inside : e ∈ ids
    · rw [← h.inside, List.map_map, List.map_map] at predicates
      exact List.map_inj_left.mp predicates e inside
    · rw [h.outside e inside]
  endpoint e he side := .inl ((SameEdges.of_skeleton h.skeleton).endpoint e he side)

theorem addEdge (wf : s.WellFormed) (x : Edge) : EdgesKept d s (s.addEdge d x a b) := by
  refine .of_eq (fun e he => ?_) fun e he => ?_
  · rw [decomposition_addEdge]
    split
    · exact List.mem_append_left _ he
    · exact he
  · exact (wf.agree d).edge_addEdge_of_mem x he

/-- A new first edge of a node, with the other edges numbered behind it. -/
theorem of_first {ids : List EdgeId} (wf : s.WellFormed) (x : Edge)
    (relabeled : Relabeled ids (markLast (numberedFrom 2 (ids.map s.edge))) s t) :
    EdgesKept d s (t.addEdge d x a b) := by
  have first : EdgesKept d s t := .of_relabeled relabeled (by
    rw [predicate_markLast, predicate_numberedFrom])
  exact first.trans (.addEdge (wf.of_skeleton relabeled.skeleton) x)
    (.of_skeleton relabeled.skeleton relabeled.completed) (.addEdge x)

/-- Edges that move to a new task. -/
theorem moved (h : EdgesKept d s t) (moved : Edit.Moved d side a m t u) (grows : t.Extends u)
    (new : NewTask d s u m) : EdgesKept d s u where
  listed e he := (moved.edges d e).mpr (h.listed e he)
  predicate e he := by
    rw [moved.edge]
    split
    · rw [Edge.predicate_move]
      exact h.predicate e he
    · exact h.predicate e he
  endpoint e he x := by
    rw [moved.endpoint]
    split
    · exact .inr ⟨m, rfl, new⟩
    · rcases h.endpoint e he x with same | ⟨m', there, new'⟩
      · exact .inl same
      · exact .inr ⟨m', there, new'.grow grows⟩

end EdgesKept

/-! ### Where edges lead -/

theorem decomposition_stored_of_edge (h : e ∈ (s.decomposition d).edges) :
    d.index < s.decompositions.size := by
  refine Nat.lt_of_not_le fun beyond => ?_
  rw [decomposition_eq_blank beyond] at h
  cases h

/-- One end of an edge is at the node, or at a task that is not an `old` node. -/
def EndsNear (old : NodeId → Prop) (s : Specification) (e : EdgeId) (side : Side) (n : NodeId) :
    Prop :=
  (s.edge e).endpoint side = some n ∨
    ∃ m, (s.edge e).endpoint side = some m ∧ (s.task? m).isSome ∧ ¬old m

/-- An edge of the net with the predicate leads from `a` to `b`, unless tasks that are not `old`
nodes came in between. -/
def LeadsBy (old : NodeId → Prop) (d : DecompositionId) (predicate : String) (a b : NodeId)
    (s : Specification) : Prop :=
  ∃ e ∈ (s.decomposition d).edges, (s.edge e).predicate = predicate ∧
    ∀ side : Side, EndsNear old s e side (side.pick a b)

namespace LeadsBy

variable {old old' : NodeId → Prop} {predicate : String}

theorem addEdge {x : Edge} (stored : d.index < s.decompositions.size) (source : x.source = some a)
    (target : x.target = some b) : LeadsBy old d x.predicate a b (s.addEdge d x a b) := by
  refine ⟨⟨s.edges.size⟩, ?_, ?_, fun side => .inl ?_⟩
  · rw [edges_addEdge x stored]
    exact List.mem_append_right _ List.mem_cons_self
  · rw [edge_addEdge, if_pos rfl]
  · rw [edge_addEdge, if_pos rfl]
    cases side
    · exact source
    · exact target

/-- Edges that are kept go on to lead where they led. -/
theorem kept (h : LeadsBy old d predicate a b s) (kept : EdgesKept d s t) (grows : s.Extends t)
    (older : ∀ m, old m → m ∈ (s.decomposition d).nodes) : LeadsBy old d predicate a b t := by
  obtain ⟨e, mem, same, ends⟩ := h
  refine ⟨e, kept.listed e mem, (kept.predicate e mem).trans same, fun side => ?_⟩
  rcases kept.endpoint e mem side with stays | ⟨m, moved, new, _, isTask⟩
  · rcases ends side with here | ⟨m, there, isTask, new⟩
    · exact .inl (stays.trans here)
    · exact .inr ⟨m, stays.trans there, grows.isTask isTask, new⟩
  · exact .inr ⟨m, moved, isTask, fun isOld => new (older m isOld)⟩

theorem same (h : LeadsBy old d predicate a b s) (grows : s.Extends t) (edges : SameEdges d s t)
    (details : SameDetails d s t) : LeadsBy old d predicate a b t := by
  obtain ⟨e, mem, same, ends⟩ := h
  refine ⟨e, edges.edges ▸ mem, ?_, fun side => ?_⟩
  · rw [details.edge e mem]
    exact same
  · unfold EndsNear
    rw [details.edge e mem]
    exact (ends side).imp_right fun ⟨m, there, isTask, new⟩ =>
      ⟨m, there, grows.isTask isTask, new⟩

theorem mono (h : LeadsBy old d predicate a b s) (less : ∀ m, old' m → old m) :
    LeadsBy old' d predicate a b s := by
  obtain ⟨e, mem, same, ends⟩ := h
  refine ⟨e, mem, same, fun side => (ends side).imp_right ?_⟩
  exact fun ⟨m, there, isTask, new⟩ => ⟨m, there, isTask, fun isOld => new (less m isOld)⟩

end LeadsBy

end Specification

end ProcessNets
