import Mathlib.Logic.Relation
import ProcessNets.Proofs.Net.Editing
import ProcessNets.Proofs.Net.Frames

/-!
# Walks in nets

A walk follows the edges of a decomposition. `Keeps` says that a change loses no walk, `Reflects`
that it brings none but those through given extra edges, and `OnWalks` that every node lies on a
walk from the input to the output condition. `Inserted` is a node that takes over all edges on one
side of another node: it does all three.
-/

namespace ProcessNets

open Net Relation

/-! ### Detours -/

section
variable {α : Type} {R S : α → α → Prop} {nodes : α → Prop} {a i m o x y : α}

/-- A node behind `a` that has the ways out of `a` can be left out of walks. -/
theorem transGen_of_behind (old : ∀ x y, x ≠ m → y ≠ m → S x y → R x y)
    (into : ∀ x, S x m → x = a) (out : ∀ y, S m y → y ≠ m ∧ R a y) (hx : x ≠ m)
    (h : TransGen S x y) (hy : y ≠ m) : TransGen R x y := by
  -- walks that stop at `m` get as far as `a`
  have both : (y ≠ m → TransGen R x y) ∧ (y = m → ReflTransGen R x a) := by
    clear hy
    induction h with
    | single step =>
      constructor
      · exact fun hy => .single (old _ _ hx hy step)
      · rintro rfl
        rw [into _ step]
    | @tail z y _ step ih =>
      by_cases hz : z = m
      · subst hz
        obtain ⟨hy, exit⟩ := out _ step
        exact ⟨fun _ => .tail' (ih.2 rfl) exit, fun same => (hy same).elim⟩
      · constructor
        · exact fun hy => (ih.1 hz).tail (old _ _ hz hy step)
        · rintro rfl
          rw [← into _ step]
          exact (ih.1 hz).to_reflTransGen
  exact both.1 hy

/-- A node behind `a` that has the ways out of `a` is on a walk if `a` is on one. -/
theorem walks_of_behind (keeps : ∀ x y, R x y → TransGen S x y)
    (all : ∀ n, nodes n → ReflTransGen R i n ∧ ReflTransGen R n o) (ha : nodes a) (ne : a ≠ o)
    (into : S a m) (out : ∀ y, R a y → S m y) (n : α) (hn : nodes n ∨ n = m) :
    ReflTransGen S i n ∧ ReflTransGen S n o := by
  have kept : ∀ {x y}, ReflTransGen R x y → ReflTransGen S x y := by
    intro x y h
    induction h with
    | refl => exact .refl
    | tail _ step ih => exact ih.trans (keeps _ _ step).to_reflTransGen
  rcases hn with hn | rfl
  · exact ⟨kept (all n hn).1, kept (all n hn).2⟩
  · refine ⟨(kept (all a ha).1).tail into, ?_⟩
    rcases ReflTransGen.cases_head (all a ha).2 with same | ⟨y, exit, rest⟩
    · exact (ne same).elim
    · exact (kept rest).head (out y exit)

end

namespace Specification

variable {s t u : Specification} {a b m n x y : NodeId} {c d : DecompositionId} {e : EdgeId}
  {extra extra' : NodeId → NodeId → Prop}

/-! ### Walks -/

/-- An edge of the decomposition leads from one node to the other. -/
def Joins (s : Specification) (d : DecompositionId) (a b : NodeId) : Prop :=
  ∃ e ∈ (s.decomposition d).edges, (s.edge e).source = some a ∧ (s.edge e).target = some b

instance (s : Specification) (d : DecompositionId) (a b : NodeId) : Decidable (Joins s d a b) :=
  inferInstanceAs (Decidable (∃ e ∈ (s.decomposition d).edges,
    (s.edge e).source = some a ∧ (s.edge e).target = some b))

theorem Joins.mem (wf : s.WellFormed) (h : Joins s d a b) :
    a ∈ (s.decomposition d).nodes ∧ b ∈ (s.decomposition d).nodes := by
  obtain ⟨e, he, source, target⟩ := h
  obtain ⟨a', ha, b', hb, sameA, sameB⟩ := wf.exists_ends he
  rw [source] at sameA
  rw [target] at sameB
  cases sameA
  cases sameB
  exact ⟨ha, hb⟩

theorem SameEdges.joins (h : SameEdges d s t) : Joins t d a b ↔ Joins s d a b := by
  constructor
  · rintro ⟨e, he, source, target⟩
    rw [h.edges] at he
    have sourceSame := h.endpoint e he .source
    have targetSame := h.endpoint e he .target
    exact ⟨e, he, sourceSame.symm.trans source, targetSame.symm.trans target⟩
  · rintro ⟨e, he, source, target⟩
    have sourceSame := h.endpoint e he .source
    have targetSame := h.endpoint e he .target
    refine ⟨e, ?_, sourceSame.trans source, targetSame.trans target⟩
    rw [h.edges]
    exact he

theorem joins_addEdge (wf : s.WellFormed) {edge : Edge} (hd : d.index < s.decompositions.size)
    (source : edge.source = some a) (target : edge.target = some b) :
    Joins (s.addEdge d edge a b) d x y ↔ Joins s d x y ∨ (x = a ∧ y = b) := by
  have old : ∀ e ∈ (s.decomposition d).edges, (s.addEdge d edge a b).edge e = s.edge e :=
    fun e he => (wf.agree d).edge_addEdge_of_mem edge he
  have new : (s.addEdge d edge a b).edge ⟨s.edges.size⟩ = edge := by
    rw [edge_addEdge, if_pos rfl]
  unfold Joins
  rw [edges_addEdge edge hd]
  constructor
  · rintro ⟨e, he, sourceX, targetY⟩
    rcases List.mem_append.mp he with he | he
    · rw [old e he] at sourceX targetY
      exact .inl ⟨e, he, sourceX, targetY⟩
    · rw [List.mem_singleton] at he
      subst he
      rw [new, source] at sourceX
      rw [new, target] at targetY
      cases sourceX
      cases targetY
      exact .inr ⟨rfl, rfl⟩
  · rintro (⟨e, he, sourceX, targetY⟩ | ⟨rfl, rfl⟩)
    · refine ⟨e, List.mem_append_left _ he, ?_⟩
      rw [old e he]
      exact ⟨sourceX, targetY⟩
    · refine ⟨⟨s.edges.size⟩, List.mem_append_right _ (List.mem_singleton_self _), ?_⟩
      rw [new]
      exact ⟨source, target⟩

/-! ### Changes of walks -/

/-- No walk is lost: what an edge joined is still joined by a walk. -/
def Keeps (d : DecompositionId) (s t : Specification) : Prop :=
  ∀ a b, Joins s d a b → TransGen (Joins t d) a b

/-- No walk between old nodes is new, except those that use `extra` edges. This holds whatever
other edges, in `more`, are added to both nets. -/
def Reflects (d : DecompositionId) (extra : NodeId → NodeId → Prop) (s t : Specification) : Prop :=
  ∀ more : NodeId → NodeId → Prop,
    (∀ x y, more x y → x ∈ (s.decomposition d).nodes ∧ y ∈ (s.decomposition d).nodes) →
    ∀ x ∈ (s.decomposition d).nodes, ∀ y ∈ (s.decomposition d).nodes,
      TransGen (fun x y => Joins t d x y ∨ more x y) x y →
      TransGen (fun x y => Joins s d x y ∨ extra x y ∨ more x y) x y

/-- Every node lies on a walk from the input to the output condition. -/
def OnWalks (d : DecompositionId) (s : Specification) : Prop :=
  ∃ i o, (s.decomposition d).terminal .input = some i ∧
    (s.decomposition d).terminal .output = some o ∧
    ∀ n ∈ (s.decomposition d).nodes,
      ReflTransGen (Joins s d) i n ∧ ReflTransGen (Joins s d) n o

theorem Keeps.refl (s : Specification) : Keeps d s s :=
  fun _ _ h => .single h

theorem Keeps.transGen (h : Keeps d s t) (walk : TransGen (Joins s d) a b) :
    TransGen (Joins t d) a b := by
  induction walk with
  | single step => exact h _ _ step
  | tail _ step ih => exact ih.trans (h _ _ step)

theorem Keeps.reflTransGen (h : Keeps d s t) (walk : ReflTransGen (Joins s d) a b) :
    ReflTransGen (Joins t d) a b := by
  induction walk with
  | refl => exact .refl
  | tail _ step ih => exact ih.trans (h _ _ step).to_reflTransGen

theorem Keeps.trans (h : Keeps d s t) (h' : Keeps d t u) : Keeps d s u :=
  fun _ _ step => h'.transGen (h _ _ step)

theorem Keeps.of_joins (h : ∀ x y, Joins s d x y → Joins t d x y) : Keeps d s t :=
  fun _ _ step => .single (h _ _ step)

theorem SameEdges.keeps (h : SameEdges d s t) : Keeps d s t :=
  .of_joins fun _ _ => h.joins.mpr

theorem Reflects.of_joins (h : ∀ x y, Joins t d x y → Joins s d x y ∨ extra x y) :
    Reflects d extra s t := by
  intro more _ x _ y _ walk
  refine TransGen.mono ?_ x y walk
  rintro x y (step | other)
  · rcases h x y step with old | isExtra
    · exact .inl old
    · exact .inr (.inl isExtra)
  · exact .inr (.inr other)

theorem Reflects.mono (h : Reflects d extra s t) (more : ∀ x y, extra x y → extra' x y) :
    Reflects d extra' s t := by
  intro other inside x hx y hy walk
  refine TransGen.mono ?_ x y (h other inside x hx y hy walk)
  rintro x y (old | isExtra | isOther)
  · exact .inl old
  · exact .inr (.inl (more x y isExtra))
  · exact .inr (.inr isOther)

theorem Reflects.trans (h : Reflects d extra s t) (h' : Reflects d extra' t u)
    (grows : ∀ n ∈ (s.decomposition d).nodes, n ∈ (t.decomposition d).nodes)
    (inside : ∀ x y, extra' x y → x ∈ (s.decomposition d).nodes ∧ y ∈ (s.decomposition d).nodes) :
    Reflects d (fun x y => extra x y ∨ extra' x y) s u := by
  intro more moreInside x hx y hy walk
  have first := h' more (fun x y other => ⟨grows x (moreInside x y other).1,
    grows y (moreInside x y other).2⟩) x (grows x hx) y (grows y hy) walk
  have second := h (fun x y => extra' x y ∨ more x y) ?_ x hx y hy first
  · refine TransGen.mono ?_ x y second
    rintro x y (old | isExtra | isExtra' | other)
    · exact .inl old
    · exact .inr (.inl (.inl isExtra))
    · exact .inr (.inl (.inr isExtra'))
    · exact .inr (.inr other)
  · rintro x y (isExtra' | other)
    · exact inside x y isExtra'
    · exact moreInside x y other

/-- What `Reflects` says when no other edge is added. -/
theorem Reflects.walk (h : Reflects d extra s t) (hx : x ∈ (s.decomposition d).nodes)
    (hy : y ∈ (s.decomposition d).nodes) (walk : TransGen (Joins t d) x y) :
    TransGen (fun x y => Joins s d x y ∨ extra x y) x y := by
  have plain := h (fun _ _ => False) (fun _ _ none => none.elim) x hx y hy
    (TransGen.mono (fun _ _ step => .inl step) x y walk)
  refine TransGen.mono ?_ x y plain
  rintro x y (old | isExtra | none)
  · exact .inl old
  · exact .inr isExtra
  · exact none.elim

/-- A net that keeps its nodes and loses no walk keeps every node on one. -/
theorem OnWalks.keeps (h : OnWalks d s) (same : SameNodes d s t) (keeps : Keeps d s t) :
    OnWalks d t := by
  obtain ⟨i, o, input, output, all⟩ := h
  refine ⟨i, o, (same.terminal _).trans input, (same.terminal _).trans output, ?_⟩
  intro n hn
  rw [same.nodes] at hn
  exact ⟨keeps.reflTransGen (all n hn).1, keeps.reflTransGen (all n hn).2⟩

/-! ### Inserted nodes -/

end Specification

namespace Net

/-- The end of an edge across from this one. -/
def Side.other : Side → Side
  | .source => .target
  | .target => .source

theorem Side.other_ne (side : Side) : side.other ≠ side := by
  cases side <;> decide

/-- A relation as seen from one end of the edges: forwards from the source, or backwards. -/
def Side.orient (side : Side) (R : NodeId → NodeId → Prop) : NodeId → NodeId → Prop :=
  match side with
  | .source => R
  | .target => fun x y => R y x

theorem Side.reflTransGen_orient {side : Side} {R : NodeId → NodeId → Prop} {x y : NodeId} :
    ReflTransGen (side.orient R) x y ↔ side.orient (ReflTransGen R) x y := by
  cases side
  · exact Iff.rfl
  · exact reflTransGen_swap

end Net

namespace Specification

variable {s t : Specification} {a b m x y : NodeId} {d : DecompositionId} {side : Side}

/-- The node `m` was added to a net and has taken over the edges on one side of `a`; only the
edge between the two is left there. -/
structure Inserted (d : DecompositionId) (side : Side) (a m : NodeId) (s t : Specification) :
    Prop where
  fresh : m ∉ (s.decomposition d).nodes
  nodes : (t.decomposition d).nodes = (s.decomposition d).nodes ++ [m]
  terminal : ∀ x, (t.decomposition d).terminal x = (s.decomposition d).terminal x
  joins : ∀ x y, side.orient (Joins t d) x y ↔ (x = m ∧ side.orient (Joins s d) a y) ∨
    (x ≠ a ∧ side.orient (Joins s d) x y) ∨ (x = a ∧ y = m)

theorem orient_joins : side.orient (Joins s d) x y ↔ ∃ e ∈ (s.decomposition d).edges,
    (s.edge e).endpoint side = some x ∧ (s.edge e).endpoint side.other = some y := by
  cases side
  · exact Iff.rfl
  · constructor
    · rintro ⟨e, he, source, target⟩
      exact ⟨e, he, target, source⟩
    · rintro ⟨e, he, target, source⟩
      exact ⟨e, he, source, target⟩

/-- Edges that moved lead on where they led, but from the other node. -/
theorem Moved.orient_joins (h : Edit.Moved d side a m s t) (wf : s.WellFormed)
    (ha : a ∈ (s.decomposition d).nodes) : side.orient (Joins t d) x y ↔
      (x = m ∧ side.orient (Joins s d) a y) ∨ (x ≠ a ∧ side.orient (Joins s d) x y) := by
  have listed := (wf.agree d).listed a ha side
  have far : ∀ e, (t.edge e).endpoint side.other = (s.edge e).endpoint side.other := by
    intro e
    rw [h.endpoint, if_neg fun both => side.other_ne both.1]
  simp only [Specification.orient_joins, h.edges, far]
  constructor
  · rintro ⟨e, he, near, other⟩
    rw [h.endpoint] at near
    by_cases moved : e ∈ (s.node a).edgesAt side
    · rw [if_pos ⟨rfl, moved⟩] at near
      exact .inl ⟨(Option.some.inj near).symm, e, he, ((listed e).mp moved).2, other⟩
    · rw [if_neg fun both => moved both.2] at near
      refine .inr ⟨?_, e, he, near, other⟩
      rintro rfl
      exact moved ((listed e).mpr ⟨he, near⟩)
  · rintro (⟨rfl, e, he, near, other⟩ | ⟨ne, e, he, near, other⟩)
    · refine ⟨e, he, ?_, other⟩
      rw [h.endpoint, if_pos ⟨rfl, (listed e).mpr ⟨he, near⟩⟩]
    · refine ⟨e, he, ?_, other⟩
      rw [h.endpoint, if_neg]
      · exact near
      · rintro ⟨_, moved⟩
        rw [((listed e).mp moved).2] at near
        exact ne (Option.some.inj near).symm

/-- A new node takes over the edges on one side of `a`, and gets an edge from there. -/
theorem Inserted.of_moved {node : Node} {u : Specification} (wf : s.WellFormed)
    (wf' : (s.addNode d node).WellFormed) (ha : a ∈ (s.decomposition d).nodes)
    (moved : Edit.Moved d side a ⟨s.nodes.size⟩ (s.addNode d node) u)
    (same : SameNodes d (s.addNode d node) t)
    (linked : ∀ x y, side.orient (Joins t d) x y ↔
      side.orient (Joins u d) x y ∨ (x = a ∧ y = ⟨s.nodes.size⟩)) :
    Inserted d side a ⟨s.nodes.size⟩ s t := by
  have stored : d.index < s.decompositions.size := decomposition_stored ha
  have old : ∀ {x y}, side.orient (Joins (s.addNode d node) d) x y ↔
      side.orient (Joins s d) x y := by
    intro x y
    cases side <;> exact SameEdges.addNode.joins
  constructor
  · exact wf.not_mem_of_le (Nat.le_refl _)
  · rw [same.nodes, nodes_addNode node stored]
  · intro x
    rw [same.terminal, terminal_addNode]
  · intro x y
    have ha' : a ∈ ((s.addNode d node).decomposition d).nodes :=
      (mem_nodes_addNode node stored).mpr (.inl ha)
    rw [linked, Moved.orient_joins moved wf' ha', old, old, or_assoc]

namespace Inserted

variable (h : Inserted d side a m s t)
include h

/-- Every edge is kept, or goes on through the new node. -/
theorem detour (x y : NodeId) (step : side.orient (Joins s d) x y) :
    TransGen (side.orient (Joins t d)) x y := by
  by_cases same : x = a
  · subst same
    have first : side.orient (Joins t d) x m := (h.joins x m).mpr (.inr (.inr ⟨rfl, rfl⟩))
    have second : side.orient (Joins t d) m y := (h.joins m y).mpr (.inl ⟨rfl, step⟩)
    exact .tail (.single first) second
  · exact .single ((h.joins x y).mpr (.inr (.inl ⟨same, step⟩)))

/-- On its side, the node is joined to the new one only. -/
theorem only (ha : a ∈ (s.decomposition d).nodes) : side.orient (Joins t d) a y ↔ y = m := by
  rw [h.joins]
  constructor
  · rintro (⟨rfl, _⟩ | ⟨other, _⟩ | ⟨_, same⟩)
    · exact (h.fresh ha).elim
    · exact (other rfl).elim
    · exact same
  · exact fun same => .inr (.inr ⟨rfl, same⟩)

theorem keeps : Keeps d s t := by
  intro x y step
  cases side
  · exact h.detour x y step
  · exact transGen_swap.mp (h.detour y x step)

theorem reflects (wf : s.WellFormed) (ha : a ∈ (s.decomposition d).nodes) :
    Reflects d (fun _ _ => False) s t := by
  intro more inside x hx y hy walk
  have ends : ∀ x y, side.orient (Joins s d) x y ∨ side.orient more x y → x ≠ m ∧ y ≠ m := by
    intro x y hxy
    have both : x ∈ (s.decomposition d).nodes ∧ y ∈ (s.decomposition d).nodes := by
      cases side
      · exact hxy.elim (Joins.mem wf) (inside x y)
      · exact (hxy.elim (Joins.mem wf) (inside y x)).symm
    constructor
    · rintro rfl
      exact h.fresh both.1
    · rintro rfl
      exact h.fresh both.2
  have am : a ≠ m := by
    rintro rfl
    exact h.fresh ha
  -- oriented towards the new node, a walk reaches it from `a` alone and leaves it as `a` was left
  let before (x y : NodeId) := side.orient (Joins s d) x y ∨ side.orient more x y
  let after (x y : NodeId) := side.orient (Joins t d) x y ∨ side.orient more x y
  have old : ∀ x y, x ≠ m → y ≠ m → after x y → before x y := by
    rintro x y hx hy (step | other)
    · rcases (h.joins x y).mp step with ⟨same, _⟩ | ⟨_, step⟩ | ⟨_, same⟩
      · exact (hx same).elim
      · exact .inl step
      · exact (hy same).elim
    · exact .inr other
  have into : ∀ x, after x m → x = a := by
    rintro x (step | other)
    · rcases (h.joins x m).mp step with ⟨_, step⟩ | ⟨_, step⟩ | ⟨same, _⟩
      · exact ((ends _ _ (.inl step)).2 rfl).elim
      · exact ((ends _ _ (.inl step)).2 rfl).elim
      · exact same
    · exact ((ends _ _ (.inr other)).2 rfl).elim
  have out : ∀ y, after m y → y ≠ m ∧ before a y := by
    rintro y (step | other)
    · rcases (h.joins m y).mp step with ⟨_, step⟩ | ⟨_, step⟩ | ⟨same, _⟩
      · exact ⟨(ends _ _ (.inl step)).2, .inl step⟩
      · exact ((ends _ _ (.inl step)).1 rfl).elim
      · exact (am same.symm).elim
    · exact ((ends _ _ (.inr other)).1 rfl).elim
  have detour : ∀ {x y}, x ≠ m → y ≠ m → TransGen after x y → TransGen before x y :=
    fun hx hy walk => transGen_of_behind old into out hx walk hy
  have hxm : x ≠ m := fun same => h.fresh (same ▸ hx)
  have hym : y ≠ m := fun same => h.fresh (same ▸ hy)
  have result : TransGen (fun x y => Joins s d x y ∨ more x y) x y := by
    cases side
    · exact detour hxm hym walk
    · exact transGen_swap.mp (detour hym hxm (transGen_swap.mpr walk))
  refine TransGen.mono ?_ x y result
  rintro x y (step | other)
  · exact .inl step
  · exact .inr (.inr other)

/-- The new node is on a walk, since `a` goes on to more than itself. -/
theorem onWalks (walks : OnWalks d s) (ha : a ∈ (s.decomposition d).nodes)
    (inner : ∀ x, (s.decomposition d).terminal x ≠ some a) : OnWalks d t := by
  obtain ⟨i, o, input, output, all⟩ := walks
  have notInput : a ≠ i := fun same => inner .input (same ▸ input)
  have notOutput : a ≠ o := fun same => inner .output (same ▸ output)
  have into : side.orient (Joins t d) a m := (h.joins a m).mpr (.inr (.inr ⟨rfl, rfl⟩))
  have out : ∀ y, side.orient (Joins s d) a y → side.orient (Joins t d) m y :=
    fun y step => (h.joins m y).mpr (.inl ⟨rfl, step⟩)
  refine ⟨i, o, (h.terminal _).trans input, (h.terminal _).trans output, ?_⟩
  intro n hn
  rw [h.nodes, List.mem_append, List.mem_singleton] at hn
  cases side
  · exact walks_of_behind h.detour all ha notOutput into out n hn
  · -- seen backwards, walks lead from the output to the input condition
    have back : ∀ n ∈ (s.decomposition d).nodes,
        ReflTransGen (Side.target.orient (Joins s d)) o n ∧
          ReflTransGen (Side.target.orient (Joins s d)) n i := fun n hn =>
      ⟨Side.reflTransGen_orient.mpr (all n hn).2, Side.reflTransGen_orient.mpr (all n hn).1⟩
    have walks := walks_of_behind h.detour back ha notInput into out n hn
    exact ⟨Side.reflTransGen_orient.mp walks.2, Side.reflTransGen_orient.mp walks.1⟩

end Inserted

end Specification

end ProcessNets
