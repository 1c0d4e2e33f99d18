import ProcessNets.Proofs.Net.Handover

/-!
# Moved edges

To move the edges of a node is a loop over a list that each round takes an edge off. It goes through
the edges of the node from first to last, each of them once, and leaves them behind those of the
other node. An edge that leads back to the node, or on to the other one, is no exception.
-/

namespace ProcessNets

open Net Specification

namespace Net.Edit

variable {s t : Specification} {a b x y : NodeId} {e : EdgeId} {d : DecompositionId} {side : Side}
  {E : Net.Fault → Prop} {done rest : List EdgeId}

/-! ### Rounds -/

/-- Of the edges that have one end at `a`, those in `done` have moved to `b`, and those in `rest`
are still to come. Nothing else changed but the places of edges in the lists across from here and in
the list of the decomposition. -/
structure Moving (d : DecompositionId) (side : Side) (a b : NodeId) (done rest : List EdgeId)
    (s t : Specification) : Prop where
  agree : EdgeListsAgree t d
  order : done ++ rest = (s.node a).edgesAt side
  left : (t.node a).edgesAt side = rest
  arrived : (t.node b).edgesAt side = (s.node b).edgesAt side ++ done
  stayed : ∀ n, n ≠ a → n ≠ b → (t.node n).edgesAt side = (s.node n).edgesAt side
  across : ∀ n, ((t.node n).edgesAt side.other).Perm ((s.node n).edgesAt side.other)
  edge : ∀ e, t.edge e = if e ∈ done then (s.edge e).move side b else s.edge e
  edges : (t.decomposition d).edges.Perm (s.decomposition d).edges
  elsewhere : ∀ c, c ≠ d → t.decomposition c = s.decomposition c
  decomposition : (t.decomposition d).bare = (s.decomposition d).bare
  node : ∀ n, (t.node n).bare = (s.node n).bare

theorem Moving.start (agree : EdgeListsAgree s d) :
    Moving d side a b [] ((s.node a).edgesAt side) s s where
  agree := agree
  order := rfl
  left := rfl
  arrived := (List.append_nil _).symm
  stayed _ _ _ := rfl
  across _ := .refl _
  edge _ := (if_neg List.not_mem_nil).symm
  edges := .refl _
  elsewhere _ _ := rfl
  decomposition := rfl
  node _ := rfl

theorem erase_append_perm {edges : List EdgeId} (h : e ∈ edges) :
    (edges.erase e ++ [e]).Perm edges :=
  (List.perm_append_singleton e _).trans (List.perm_cons_erase h).symm

theorem Moving.not_mem_done (h : Moving d side a b done rest s t) (distinct : a ≠ b)
    (here : (t.edge e).endpoint side = some a) : e ∉ done := by
  intro gone
  rw [h.edge, if_pos gone, Edge.endpoint_move, if_pos rfl] at here
  exact distinct (Option.some.inj here).symm

/-- The first edge that is left moves. -/
theorem Moving.redirect (h : Moving d side a b done (e :: rest) s t) (distinct : a ≠ b)
    (hb : b ∈ (t.decomposition d).nodes) (he : e ∈ (t.decomposition d).edges)
    (mem : ∀ z : Side, z.pick x y ∈ (t.decomposition d).nodes)
    (ends : ∀ z : Side, (t.edge e).endpoint z = some (z.pick x y)) (here : side.pick x y = a) :
    Moving d side a b (done ++ [e]) rest s (t.redirect d e x y side b) where
  agree := h.agree.redirect he mem ends side hb
  order := by rw [← h.order, List.append_assoc, List.singleton_append]
  left := by
    rw [edgesAt_redirect h.agree mem side side hb, if_pos rfl, here, if_neg distinct, if_pos rfl,
      h.left, List.erase_cons_head]
  arrived := by
    rw [edgesAt_redirect h.agree mem side side hb, if_pos rfl, here, if_pos rfl,
      if_neg distinct.symm, h.arrived, List.append_assoc]
  stayed n notA notB := by
    rw [edgesAt_redirect h.agree mem side side hb, if_pos rfl, here, if_neg notB, if_neg notA,
      h.stayed n notA notB]
  across n := by
    refine .trans ?_ (h.across n)
    -- the other end stays, so the edge leaves a list and enters the same one again
    rw [edgesAt_redirect h.agree mem side side.other hb, if_neg side.other_ne]
    split
    · rename_i same
      subst same
      exact erase_append_perm ((h.agree.listed _ (mem _) _ e).mpr ⟨he, ends _⟩)
    · exact .refl _
  edge f := by
    have fresh := h.not_mem_done distinct (here ▸ ends side)
    rw [edge_redirect side (h.agree.edge_index_lt he), h.edge]
    by_cases same : f = e
    · subst same
      simp [fresh]
    · simp [same]
  edges := by
    rw [edges_redirect side (decomposition_stored hb)]
    exact (erase_append_perm he).trans h.edges
  elsewhere c other := by rw [decomposition_redirect_of_ne side other, h.elsewhere c other]
  decomposition := by rw [decomposition_bare_redirect, h.decomposition]
  node n := by rw [bare_redirect, h.node]

section
variable (ha : a ∈ (s.decomposition d).nodes) (hb : b ∈ (s.decomposition d).nodes)
  (distinct : a ≠ b)
include ha hb distinct

theorem Moving.step (h : Moving d side a b done (e :: rest) s t) :
    Ensures E (redirectEnd d e side b) t fun _ u => Moving d side a b (done ++ [e]) rest s u := by
  have nodes : (t.decomposition d).nodes = (s.decomposition d).nodes := by
    have same := congrArg Decomposition.nodes h.decomposition
    exact same
  rw [← nodes] at ha hb
  obtain ⟨he, here⟩ := (h.agree.listed a ha side e).mp (h.left ▸ List.mem_cons_self)
  obtain ⟨x, hx, y, hy, source, target⟩ := h.agree.exists_ends he
  have ends : ∀ z : Side, (t.edge e).endpoint z = some (z.pick x y) :=
    Edge.endpoint_pick source target
  apply ensures_redirectEnd h.agree he source target
  apply h.redirect distinct hb he (Side.pick_mem hx hy) ends
  exact Option.some.inj ((ends side).symm.trans here)

/-! ### Whole loops -/

/-- The edges that have one end at `a` get a round each, in their order, and nothing else gets one.
When a round starts, the edges of the rounds before have moved and no others have. -/
structure EachOnce (d : DecompositionId) (side : Side) (a b : NodeId) (s : Specification)
    (rounds : List (EdgeId × Specification)) : Prop where
  visited : rounds.map Prod.fst = (s.node a).edgesAt side
  once : ∀ e, (rounds.map Prod.fst).count e =
    if e ∈ (s.decomposition d).edges ∧ (s.edge e).endpoint side = some a then 1 else 0
  underway : ∀ e u rest, (e, u) :: rest <:+ rounds →
    ∃ done, Moving d side a b done (e :: rest.map Prod.fst) s u

theorem exists_rounds_moveEnds (side : Side) (agree : EdgeListsAgree s d) :
    ∃ t rounds, (moveEnds d side a b).run.run s = (.ok (), t) ∧
      Rounds (fun e => redirectEnd d e side b) rounds s t ∧ EachOnce d side a b s rounds ∧
      Moving d side a b ((s.node a).edgesAt side) [] s t := by
  obtain ⟨rounds, t, visited, passes, ⟨done, moved⟩, underway⟩ := exists_rounds
    (f := fun e => redirectEnd d e side b)
    (fun rest u => ∃ done, Moving d side a b done rest s u)
    (fun e rest u ⟨done, h⟩ => (h.step ha hb distinct).mono fun _ _ next => ⟨done ++ [e], next⟩)
    ⟨[], .start agree⟩
  have all : done = (s.node a).edgesAt side := by
    rw [← moved.order, List.append_nil]
  have run : (moveEnds d side a b).run.run s = (.ok (), t) := by
    rw [moveEnds_eq]
    exact run_forM_eq_ok_iff.mpr ⟨rounds, visited, passes⟩
  refine ⟨t, rounds, run, passes, ⟨visited, fun e => ?_, underway⟩, all ▸ moved⟩
  have listed := agree.listed a ha side e
  rw [visited]
  split
  · rename_i here
    exact List.count_eq_one_of_mem (agree.once a ha side) (listed.mpr here)
  · rename_i elsewhere
    exact List.count_eq_zero_of_not_mem fun here => elsewhere (listed.mp here)

end

/-- Moving the edges of a node to another node of the same decomposition succeeds, takes each edge
once, and changes nothing but one end of these edges and the lists that hold them. -/
theorem edges_moved_exactly (agree : EdgeListsAgree s d) (ha : a ∈ (s.decomposition d).nodes)
    (hb : b ∈ (s.decomposition d).nodes) (distinct : a ≠ b) :
    (∃ t rounds, (moveOutgoing d a b).run.run s = (.ok (), t) ∧
      Rounds (fun e => redirectSource d e b) rounds s t ∧ EachOnce d .source a b s rounds ∧
      Moving d .source a b (s.node a).outgoing [] s t) ∧
    ∃ t rounds, (moveIncoming d a b).run.run s = (.ok (), t) ∧
      Rounds (fun e => redirectTarget d e b) rounds s t ∧ EachOnce d .target a b s rounds ∧
      Moving d .target a b (s.node a).incoming [] s t :=
  ⟨exists_rounds_moveEnds ha hb distinct .source agree,
    exists_rounds_moveEnds ha hb distinct .target agree⟩

/-- A task that is linked to itself and, both ways, to another task. -/
def tangled : Specification where
  id := "model"
  decompositions := #[{ id := "net", nodes := [⟨0⟩, ⟨1⟩], edges := [⟨0⟩, ⟨1⟩, ⟨2⟩] }]
  nodes := #[
    { id := "a", name := "A", kind := .task {}, incoming := [⟨0⟩, ⟨2⟩], outgoing := [⟨0⟩, ⟨1⟩] },
    { id := "b", name := "B", kind := .task {}, incoming := [⟨1⟩], outgoing := [⟨2⟩] }]
  edges := #[
    { source := some ⟨0⟩, target := some ⟨0⟩, predicate := "again", ordering := 1 },
    { source := some ⟨0⟩, target := some ⟨1⟩, isDefault := true, ordering := 2 },
    { source := some ⟨1⟩, target := some ⟨0⟩, ordering := 1 }]

theorem edges_moved_exactly_tangled : EdgeListsAgree tangled ⟨0⟩ ∧
    (∃ t rounds, (moveOutgoing ⟨0⟩ ⟨0⟩ ⟨1⟩).run.run tangled = (.ok (), t) ∧
      Rounds (fun e => redirectSource ⟨0⟩ e ⟨1⟩) rounds tangled t ∧
      rounds.map Prod.fst = [⟨0⟩, ⟨1⟩] ∧ (t.node ⟨0⟩).outgoing = [] ∧
      (t.node ⟨1⟩).outgoing = [⟨2⟩, ⟨0⟩, ⟨1⟩] ∧ (t.node ⟨0⟩).incoming.Perm [⟨0⟩, ⟨2⟩] ∧
      t.edge ⟨0⟩ = { tangled.edge ⟨0⟩ with source := some ⟨1⟩ }) ∧
    ∃ t rounds, (moveIncoming ⟨0⟩ ⟨0⟩ ⟨1⟩).run.run tangled = (.ok (), t) ∧
      Rounds (fun e => redirectTarget ⟨0⟩ e ⟨1⟩) rounds tangled t ∧
      rounds.map Prod.fst = [⟨0⟩, ⟨2⟩] ∧ (t.node ⟨0⟩).incoming = [] ∧
      (t.node ⟨1⟩).incoming = [⟨1⟩, ⟨0⟩, ⟨2⟩] ∧ (t.node ⟨0⟩).outgoing.Perm [⟨0⟩, ⟨1⟩] ∧
      t.edge ⟨0⟩ = { tangled.edge ⟨0⟩ with target := some ⟨1⟩ } := by
  have agree : EdgeListsAgree tangled ⟨0⟩ := by decide
  obtain ⟨⟨t, rounds, run, passes, once, moved⟩, t', rounds', run', passes', once', moved'⟩ :=
    edges_moved_exactly (a := ⟨0⟩) (b := ⟨1⟩) agree (by decide) (by decide) (by decide)
  exact ⟨agree, ⟨t, rounds, run, passes, once.visited, moved.left, moved.arrived, moved.across ⟨0⟩,
    moved.edge ⟨0⟩⟩, t', rounds', run', passes', once'.visited, moved'.left, moved'.arrived,
    moved'.across ⟨0⟩, moved'.edge ⟨0⟩⟩

end Net.Edit

end ProcessNets
