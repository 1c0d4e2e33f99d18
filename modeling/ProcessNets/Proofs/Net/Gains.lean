import ProcessNets.Proofs.Net.Decorators
import ProcessNets.Proofs.Net.Handover

/-!
# Nets that gain edges

A net may gain nodes and edges while all that it had stays: the ends and the labels of its edges,
and how its nodes split and join. This is about one decomposition, of which only the lists have to
agree.
-/

namespace ProcessNets

open Net

namespace Specification

variable {s t u : Specification} {a b n : NodeId} {e f : EdgeId} {d : DecompositionId} {side : Side}
  {new new' : Edge → Prop}

/-! ### Agreement -/

/-- A new decomposition is empty. -/
theorem EdgeListsAgree.addDecomposition (agree : EdgeListsAgree s d) {x : Decomposition}
    (nodes : x.nodes = []) (edges : x.edges = []) (terminal : ∀ y, x.terminal y = none) :
    EdgeListsAgree (s.addDecomposition x) d :=
  agree.congr (SameNodes.addDecomposition nodes terminal).nodes
    (SameEdges.addDecomposition edges).edges (Nat.le_refl _) (fun _ _ _ => rfl) fun _ _ _ => rfl

theorem EdgeListsAgree.setRuns {c : DecompositionId} (agree : EdgeListsAgree s d) :
    EdgeListsAgree (s.setRuns n c) d :=
  agree.congr rfl rfl (Nat.le_of_eq nodes_size_setRuns.symm) (fun _ _ _ => rfl)
    fun _ _ => edgesAt_setRuns

theorem nodes_addEdge {c : DecompositionId} (x : Edge) :
    ((s.addEdge d x a b).decomposition c).nodes = (s.decomposition c).nodes :=
  nodes_listEdge

theorem joins_addEdge_self (stored : d.index < s.decompositions.size) {x : Edge}
    (source : x.source = some a) (target : x.target = some b) :
    Joins (s.addEdge d x a b) d a b := by
  refine ⟨⟨s.edges.size⟩, ?_, ?_⟩
  · rw [edges_addEdge x stored]
    exact List.mem_append_right _ (List.mem_singleton_self _)
  · rw [edge_addEdge, if_pos rfl]
    exact ⟨source, target⟩

/-! ### Gains -/

/-- A net keeps its nodes and edges, and all edges that it gains are as `new` says. -/
structure Gains (d : DecompositionId) (new : Edge → Prop) (s t : Specification) : Prop where
  agree : EdgeListsAgree t d
  size : s.nodes.size ≤ t.nodes.size
  nodes : (s.decomposition d).nodes ⊆ (t.decomposition d).nodes
  edges : (s.decomposition d).edges ⊆ (t.decomposition d).edges
  edge : ∀ e ∈ (s.decomposition d).edges, t.edge e = s.edge e
  gained : ∀ e ∈ (t.decomposition d).edges, e ∈ (s.decomposition d).edges ∨ new (t.edge e)
  split : ∀ n, n.index < s.nodes.size → t.split n = s.split n
  join : ∀ n, n.index < s.nodes.size → t.join n = s.join n
  timer : ∀ n, n.index < s.nodes.size → t.timer? n = s.timer? n
  isTask : ∀ n, (s.task? n).isSome → (t.task? n).isSome

namespace Gains

theorem refl (agree : EdgeListsAgree s d) : Gains d new s s where
  agree := agree
  size := Nat.le_refl _
  nodes := List.Subset.refl _
  edges := List.Subset.refl _
  edge _ _ := rfl
  gained _ he := .inl he
  split _ _ := rfl
  join _ _ := rfl
  timer _ _ := rfl
  isTask _ task := task

theorem trans (h : Gains d new s t) (h' : Gains d new t u) : Gains d new s u where
  agree := h'.agree
  size := Nat.le_trans h.size h'.size
  nodes := List.Subset.trans h.nodes h'.nodes
  edges := List.Subset.trans h.edges h'.edges
  edge e he := (h'.edge e (h.edges he)).trans (h.edge e he)
  gained e he := by
    rcases h'.gained e he with before | isNew
    · rw [h'.edge e before]
      exact h.gained e before
    · exact .inr isNew
  split n hn := (h'.split n (Nat.lt_of_lt_of_le hn h.size)).trans (h.split n hn)
  join n hn := (h'.join n (Nat.lt_of_lt_of_le hn h.size)).trans (h.join n hn)
  timer n hn := (h'.timer n (Nat.lt_of_lt_of_le hn h.size)).trans (h.timer n hn)
  isTask n task := h'.isTask n (h.isTask n task)

theorem mono (h : Gains d new s t) (more : ∀ x, new x → new' x) : Gains d new' s t :=
  { h with gained := fun e he => (h.gained e he).imp_right (more _) }

theorem addEdge (agree : EdgeListsAgree s d) {x : Edge} (source : x.source = some a)
    (target : x.target = some b) (ha : a ∈ (s.decomposition d).nodes)
    (hb : b ∈ (s.decomposition d).nodes) : Gains d (· = x) s (s.addEdge d x a b) where
  agree := agree.addEdge (Side.pick_mem ha hb) (Edge.endpoint_pick source target)
  size := Nat.le_of_eq (nodes_size_addEdge x).symm
  nodes := by
    rw [nodes_addEdge]
    exact List.Subset.refl _
  edges e he := by
    rw [edges_addEdge x (decomposition_stored ha)]
    exact List.mem_append_left _ he
  edge e he := agree.edge_addEdge_of_mem x he
  gained e he := by
    rw [edges_addEdge x (decomposition_stored ha), List.mem_append, List.mem_singleton] at he
    refine he.imp_right ?_
    rintro rfl
    rw [edge_addEdge, if_pos rfl]
  split n _ := split_of_kind (kind_of_bare (bare_addEdge x))
  join n _ := join_of_kind (kind_of_bare (bare_addEdge x))
  timer n _ := by
    unfold timer?
    rw [task?_of_bare (bare_addEdge x)]
  isTask n task := by
    rw [task?_of_bare (bare_addEdge x)]
    exact task

section
variable (h : Gains d new s t)
include h

theorem joins (joins : Joins s d a b) : Joins t d a b := by
  obtain ⟨e, he, ends⟩ := joins
  exact ⟨e, h.edges he, (h.edge e he).symm ▸ ends⟩

theorem mem_edgesAt (agree : EdgeListsAgree s d) (hn : n ∈ (s.decomposition d).nodes)
    (he : e ∈ (s.node n).edgesAt side) : e ∈ (t.node n).edgesAt side := by
  obtain ⟨listed, there⟩ := (agree.listed n hn side e).mp he
  refine (h.agree.listed n (h.nodes hn) side e).mpr ⟨h.edges listed, ?_⟩
  rw [h.edge e listed]
  exact there

theorem old_or_new (agree : EdgeListsAgree s d) (hn : n ∈ (s.decomposition d).nodes)
    (he : e ∈ (t.node n).edgesAt side) : e ∈ (s.node n).edgesAt side ∨
      new (t.edge e) ∧ (t.edge e).endpoint side = some n := by
  obtain ⟨listed, there⟩ := (h.agree.listed n (h.nodes hn) side e).mp he
  rcases h.gained e listed with old | isNew
  · rw [h.edge e old] at there
    exact .inl ((agree.listed n hn side e).mpr ⟨old, there⟩)
  · exact .inr ⟨isNew, there⟩

/-- A side of a node at which no new edge ends. -/
theorem edgesAt_iff (side : Side) (agree : EdgeListsAgree s d) (hn : n ∈ (s.decomposition d).nodes)
    (none : ∀ x, new x → x.endpoint side ≠ some n) :
    e ∈ (t.node n).edgesAt side ↔ e ∈ (s.node n).edgesAt side :=
  ⟨fun he => (h.old_or_new agree hn he).resolve_right fun both => none _ both.1 both.2,
    h.mem_edgesAt agree hn⟩

theorem edgesAt_perm (side : Side) (agree : EdgeListsAgree s d) (hn : n ∈ (s.decomposition d).nodes)
    (none : ∀ x, new x → x.endpoint side ≠ some n) :
    ((t.node n).edgesAt side).Perm ((s.node n).edgesAt side) :=
  (List.perm_ext_iff_of_nodup (h.agree.once n (h.nodes hn) side) (agree.once n hn side)).mpr
    fun _ => h.edgesAt_iff side agree hn none

end

end Gains

/-! ### Nets with the same control flow -/

/-- The nets have the same shape, and nothing that steers control flow changed but what tasks
cancel. -/
structure SameFlow (s t : Specification) : Prop where
  skeleton : t.skeleton = s.skeleton
  edge : ∀ e, t.edge e = s.edge e
  split : ∀ n, t.split n = s.split n
  join : ∀ n, t.join n = s.join n
  timer : ∀ n, t.timer? n = s.timer? n

namespace SameFlow

instance : Std.Refl SameFlow :=
  ⟨fun _ => ⟨rfl, fun _ => rfl, fun _ => rfl, fun _ => rfl, fun _ => rfl⟩⟩

instance : IsTrans Specification SameFlow :=
  ⟨fun _ _ _ h h' => ⟨h'.skeleton.trans h.skeleton, fun e => (h'.edge e).trans (h.edge e),
    fun n => (h'.split n).trans (h.split n), fun n => (h'.join n).trans (h.join n),
    fun n => (h'.timer n).trans (h.timer n)⟩⟩

instance : Clearing SameFlow where
  cancels {s n g} cancels := by
    have control : ∀ m, ((s.modifyTask n g).node m).kind.split = (s.node m).kind.split ∧
        ((s.modifyTask n g).node m).kind.join = (s.node m).kind.join := by
      intro m
      unfold modifyTask
      rw [node_modifyNode]
      split
      · dsimp only
        cases (s.node m).kind with
        | task t =>
          obtain ⟨others, same⟩ := cancels t
          show (g t).split = t.split ∧ (g t).join = t.join
          rw [same]
          exact ⟨rfl, rfl⟩
        | _ => exact ⟨rfl, rfl⟩
      · exact ⟨rfl, rfl⟩
    have routing : SameRouting s (s.modifyTask n g) := by
      refine .of_modifyTask (fun t => ?_) fun t => ?_
      all_goals
        obtain ⟨others, same⟩ := cancels t
        rw [same]
    refine ⟨skeleton_modifyTask fun t => ?_, fun _ => rfl, fun m => (control m).1,
      fun m => (control m).2, routing.timer⟩
    obtain ⟨others, same⟩ := cancels t
    rw [same]

theorem gains (h : SameFlow s t) (agree : EdgeListsAgree s d) : Gains d new s t where
  agree := agree.of_skeleton h.skeleton
  size := Nat.le_of_eq (nodes_size_of_skeleton h.skeleton).symm
  nodes _ hn := nodes_of_skeleton h.skeleton d ▸ hn
  edges _ he := edges_of_skeleton h.skeleton d ▸ he
  edge e _ := h.edge e
  gained _ he := .inl (edges_of_skeleton h.skeleton d ▸ he)
  split n _ := h.split n
  join n _ := h.join n
  timer n _ := h.timer n
  isTask n task := by rwa [task?_isSome_of_skeleton h.skeleton]

end SameFlow

/-! ### Orderings -/

/-- No two edges that leave a node have the same ordering. -/
def OrderedApart (s : Specification) (n : NodeId) : Prop :=
  ∀ e ∈ (s.node n).outgoing, ∀ f ∈ (s.node n).outgoing,
    (s.edge e).ordering = (s.edge f).ordering → e = f

theorem orderedApart_of_le_one (h : (s.node n).outgoing.length ≤ 1) : s.OrderedApart n := by
  intro e he f hf _
  match edges : (s.node n).outgoing, h with
  | [], _ =>
    rw [edges] at he
    cases he
  | [g], _ =>
    rw [edges, List.mem_singleton] at he hf
    rw [he, hf]

theorem Gains.orderedApart (h : Gains d new s t) (agree : EdgeListsAgree s d)
    (hn : n ∈ (s.decomposition d).nodes) (apart : s.OrderedApart n)
    (none : ∀ x, new x → x.source ≠ some n) : t.OrderedApart n := by
  intro e he f hf same
  have he := (h.edgesAt_iff .source agree hn none).mp he
  have hf := (h.edgesAt_iff .source agree hn none).mp hf
  rw [h.edge e ((agree.listed n hn .source e).mp he).1,
    h.edge f ((agree.listed n hn .source f).mp hf).1] at same
  exact apart e he f hf same

theorem OrderedApart.congr (apart : s.OrderedApart n)
    (outgoing : (t.node n).outgoing = (s.node n).outgoing) (edge : ∀ e, t.edge e = s.edge e) :
    t.OrderedApart n := by
  intro e he f hf same
  rw [outgoing] at he hf
  rw [edge, edge] at same
  exact apart e he f hf same

/-- An edge comes behind all others. -/
theorem OrderedApart.addEdge {x : Edge} (apart : s.OrderedApart a) (agree : EdgeListsAgree s d)
    (ha : a ∈ (s.decomposition d).nodes) (hb : b ∈ (s.decomposition d).nodes)
    (last : ∀ y ∈ s.outgoing a, y.ordering < x.ordering) : (s.addEdge d x a b).OrderedApart a := by
  have all : ((s.addEdge d x a b).node a).outgoing = (s.node a).outgoing ++ [⟨s.edges.size⟩] := by
    rw [node_addEdge x (agree.stored a ha) (agree.stored b hb)]
    exact if_pos rfl
  have old : ∀ e ∈ (s.node a).outgoing, (s.addEdge d x a b).edge e = s.edge e := fun e he =>
    agree.edge_addEdge_of_mem x ((agree.listed a ha .source e).mp he).1
  have new : (s.addEdge d x a b).edge ⟨s.edges.size⟩ = x := by
    rw [edge_addEdge, if_pos rfl]
  have below : ∀ e ∈ (s.node a).outgoing, (s.edge e).ordering < x.ordering := fun e he =>
    last (s.edge e) (List.mem_map_of_mem he)
  intro e he f hf same
  rw [all, List.mem_append, List.mem_singleton] at he hf
  rcases he with he | rfl <;> rcases hf with hf | rfl
  · rw [old e he, old f hf] at same
    exact apart e he f hf same
  · rw [old e he, new] at same
    exact (Int.ne_of_lt (below e he) same).elim
  · rw [old f hf, new] at same
    exact (Int.ne_of_lt (below f hf) same.symm).elim
  · rfl

end Specification

end ProcessNets
