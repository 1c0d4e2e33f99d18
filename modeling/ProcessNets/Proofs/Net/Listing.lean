import ProcessNets.Proofs.Net.EdgeLists

/-!
# Listing edges

Listing an edge at its ends and taking it off again keep specifications well-formed, as long as no
list holds an edge twice. Redirecting an edge is taking it off, moving one end, and listing it
again.
-/

namespace ProcessNets

open Net

namespace Specification

variable {s : Specification} {n m a b : NodeId} {e f : EdgeId} {c d : DecompositionId}

/-! ### Lists after a change -/

theorem edgesAt_listEdge (ha : a.index < s.nodes.size) (hb : b.index < s.nodes.size)
    (side : Side) : ((s.listEdge d e a b).node n).edgesAt side =
      if n = side.pick a b then (s.node n).edgesAt side ++ [e] else (s.node n).edgesAt side := by
  rw [node_listEdge ha hb]
  cases side <;> rfl

theorem edgesAt_unlistEdge (ha : a.index < s.nodes.size) (hb : b.index < s.nodes.size)
    (side : Side) : ((s.unlistEdge d e a b).node n).edgesAt side =
      if n = side.pick a b then ((s.node n).edgesAt side).erase e
      else (s.node n).edgesAt side := by
  rw [node_unlistEdge ha hb]
  cases side <;> rfl

theorem edges_listEdge (h : d.index < s.decompositions.size) :
    ((s.listEdge d e a b).decomposition c).edges =
      if c = d then (s.decomposition c).edges ++ [e] else (s.decomposition c).edges := by
  rw [decomposition_listEdge]
  by_cases same : c = d <;> simp [same, h]

theorem edges_unlistEdge (h : d.index < s.decompositions.size) :
    ((s.unlistEdge d e a b).decomposition c).edges =
      if c = d then (s.decomposition c).edges.erase e else (s.decomposition c).edges := by
  rw [decomposition_unlistEdge]
  by_cases same : c = d <;> simp [same, h]

theorem edges_addEdge (x : Edge) (h : d.index < s.decompositions.size) :
    ((s.addEdge d x a b).decomposition d).edges =
      (s.decomposition d).edges ++ [⟨s.edges.size⟩] := by
  rw [decomposition_addEdge, if_pos ⟨rfl, h⟩]

@[simp] theorem nodes_listEdge :
    ((s.listEdge d e a b).decomposition c).nodes = (s.decomposition c).nodes := by
  rw [decomposition_listEdge]
  split <;> rfl

@[simp] theorem nodes_unlistEdge :
    ((s.unlistEdge d e a b).decomposition c).nodes = (s.decomposition c).nodes := by
  rw [decomposition_unlistEdge]
  split <;> rfl

@[simp] theorem terminal_listEdge (x : Terminal) :
    ((s.listEdge d e a b).decomposition c).terminal x = (s.decomposition c).terminal x := by
  rw [decomposition_listEdge]
  split
  · cases x <;> rfl
  · rfl

@[simp] theorem terminal_unlistEdge (x : Terminal) :
    ((s.unlistEdge d e a b).decomposition c).terminal x = (s.decomposition c).terminal x := by
  rw [decomposition_unlistEdge]
  split
  · cases x <;> rfl
  · rfl

theorem kind_listEdge (ha : a.index < s.nodes.size) (hb : b.index < s.nodes.size) :
    ((s.listEdge d e a b).node n).kind = (s.node n).kind := by
  rw [node_listEdge ha hb]

theorem kind_unlistEdge (ha : a.index < s.nodes.size) (hb : b.index < s.nodes.size) :
    ((s.unlistEdge d e a b).node n).kind = (s.node n).kind := by
  rw [node_unlistEdge ha hb]

/-- A change to the lists of one decomposition keeps the shape if these lists still agree. -/
theorem WellFormed.of_agree (wf : s.WellFormed) {t : Specification} (agree : EdgeListsAgree t d)
    (size : t.nodes.size = s.nodes.size)
    (nodes : ∀ c, (t.decomposition c).nodes = (s.decomposition c).nodes)
    (terminal : ∀ c x, (t.decomposition c).terminal x = (s.decomposition c).terminal x)
    (kind : ∀ n, (t.node n).kind = (s.node n).kind)
    (edges : ∀ c, c ≠ d → (t.decomposition c).edges = (s.decomposition c).edges)
    (edgesAt : ∀ n, n ∉ (s.decomposition d).nodes → ∀ side,
      (t.node n).edgesAt side = (s.node n).edgesAt side)
    (endpoint : ∀ e, e ∉ (s.decomposition d).edges → ∀ c, e ∈ (s.decomposition c).edges →
      ∀ side, (t.edge e).endpoint side = (s.edge e).endpoint side) : t.WellFormed where
  agree c := by
    by_cases here : c = d
    · rw [here]
      exact agree
    · apply (wf.agree c).congr (nodes c) (edges c here) (Nat.le_of_eq size.symm)
      · intro e he
        exact endpoint e (fun hd => here (wf.edges_apart he hd)) c he
      · intro n hn
        exact edgesAt n fun hd => here (wf.apart hn hd)
  nodup c := by
    rw [nodes]
    exact wf.nodup c
  apart hc hd := by
    rw [nodes] at hc hd
    exact wf.apart hc hd
  terminal c x n := by
    rw [terminal, nodes, kind]
    exact wf.terminal c x n

theorem nodup_concat {α : Type} {xs : List α} {x : α} (h : xs.Nodup) (new : x ∉ xs) :
    (xs ++ [x]).Nodup := by
  rw [List.nodup_append]
  refine ⟨h, by simp, ?_⟩
  intro y hy z hz
  rw [List.mem_singleton] at hz
  subst hz
  rintro rfl
  exact new hy

theorem edge_push_new {edge : Edge} :
    ({ s with edges := s.edges.push edge } : Specification).edge ⟨s.edges.size⟩ = edge := by
  show (s.edges.push edge).getD s.edges.size .blank = edge
  rw [getD_push, if_pos rfl]

/-! ### The lists of one decomposition -/

namespace EdgeListsAgree

/-- What an edge that is not listed looks like does not matter. -/
theorem modifyEdge (agree : EdgeListsAgree s d) (unlisted : e ∉ (s.decomposition d).edges)
    (g : Edge → Edge) : EdgeListsAgree (s.modifyEdge e g) d := by
  apply agree.congr
  · rfl
  · rfl
  · exact Nat.le_refl _
  · intro f hf side
    rw [edge_modifyEdge, if_neg]
    rintro ⟨rfl, _⟩
    exact unlisted hf
  · intro n _ side
    rfl

/-- An edge that was taken off the lists is not on them. -/
theorem not_mem_unlistEdge (agree : EdgeListsAgree s d) (hd : d.index < s.decompositions.size) :
    e ∉ ((s.unlistEdge d e a b).decomposition d).edges := by
  rw [edges_unlistEdge hd, if_pos rfl]
  exact agree.distinct.not_mem_erase

section
variable (agree : EdgeListsAgree s d) (mem : ∀ side : Side, side.pick a b ∈ (s.decomposition d).nodes)
  (ends : ∀ side : Side, (s.edge e).endpoint side = some (side.pick a b))
include agree mem ends

theorem listEdge (unlisted : e ∉ (s.decomposition d).edges) :
    EdgeListsAgree (s.listEdge d e a b) d := by
  have ha : a.index < s.nodes.size := agree.stored a (mem .source)
  have hb : b.index < s.nodes.size := agree.stored b (mem .target)
  have hd : d.index < s.decompositions.size := decomposition_stored (mem .source)
  constructor
  · intro n hn
    rw [nodes_listEdge] at hn
    rw [nodes_size_listEdge]
    exact agree.stored n hn
  · rw [edges_listEdge hd, if_pos rfl]
    exact nodup_concat agree.distinct unlisted
  · intro f hf side
    rw [edges_listEdge hd, if_pos rfl, List.mem_append, List.mem_singleton] at hf
    rw [nodes_listEdge, edge_listEdge]
    rcases hf with hf | rfl
    · exact agree.ends f hf side
    · exact ⟨_, mem side, ends side⟩
  · intro n hn side
    rw [nodes_listEdge] at hn
    have once := agree.once n hn side
    rw [edgesAt_listEdge ha hb]
    split
    · exact nodup_concat once fun he => unlisted ((agree.listed n hn side e).mp he).1
    · exact once
  · intro n hn side f
    rw [nodes_listEdge] at hn
    have listed := agree.listed n hn side f
    rw [edgesAt_listEdge ha hb, edges_listEdge hd, if_pos rfl, edge_listEdge,
      List.mem_append, List.mem_singleton]
    by_cases new : f = e
    · subst new
      have absent : f ∉ (s.node n).edgesAt side := fun hf => unlisted (listed.mp hf).1
      rw [ends side]
      by_cases here : n = side.pick a b
      · simp [here]
      · simp [here, absent, Ne.symm here]
    · by_cases here : n = side.pick a b
      · rw [if_pos here, List.mem_append, List.mem_singleton, listed]
        simp [new]
      · rw [if_neg here, listed]
        simp [new]

theorem unlistEdge : EdgeListsAgree (s.unlistEdge d e a b) d := by
  have ha : a.index < s.nodes.size := agree.stored a (mem .source)
  have hb : b.index < s.nodes.size := agree.stored b (mem .target)
  have hd : d.index < s.decompositions.size := decomposition_stored (mem .source)
  constructor
  · intro n hn
    rw [nodes_unlistEdge] at hn
    rw [nodes_size_unlistEdge]
    exact agree.stored n hn
  · rw [edges_unlistEdge hd, if_pos rfl]
    exact agree.distinct.erase e
  · intro f hf side
    rw [edges_unlistEdge hd, if_pos rfl] at hf
    rw [nodes_unlistEdge, edge_unlistEdge]
    exact agree.ends f (List.mem_of_mem_erase hf) side
  · intro n hn side
    rw [nodes_unlistEdge] at hn
    have once := agree.once n hn side
    rw [edgesAt_unlistEdge ha hb]
    split
    · exact once.erase e
    · exact once
  · intro n hn side f
    rw [nodes_unlistEdge] at hn
    have once := agree.once n hn side
    have listed := agree.listed n hn side f
    rw [edgesAt_unlistEdge ha hb, edges_unlistEdge hd, if_pos rfl, edge_unlistEdge,
      agree.distinct.mem_erase_iff]
    by_cases here : n = side.pick a b
    · rw [if_pos here, once.mem_erase_iff, listed, and_assoc]
    · rw [if_neg here, listed]
      constructor
      · rintro ⟨hf, endpoint⟩
        refine ⟨⟨?_, hf⟩, endpoint⟩
        rintro rfl
        rw [ends side] at endpoint
        exact here (Option.some.inj endpoint).symm
      · rintro ⟨⟨_, hf⟩, endpoint⟩
        exact ⟨hf, endpoint⟩

end

/-- An edge that is only stored changes nothing. -/
theorem pushEdge (agree : EdgeListsAgree s d) {edge : Edge} :
    EdgeListsAgree { s with edges := s.edges.push edge } d := by
  apply agree.congr
  · rfl
  · rfl
  · exact Nat.le_refl _
  · intro f hf side
    have old := agree.edge_index_lt hf
    show ((s.edges.push edge).getD f.index .blank).endpoint side = _
    rw [getD_push, if_neg (by omega)]
    rfl
  · intro n _ side
    rfl

/-- What is listed does not look different for a new edge. -/
theorem edge_addEdge_of_mem (agree : EdgeListsAgree s d) (x : Edge)
    (he : e ∈ (s.decomposition d).edges) : (s.addEdge c x a b).edge e = s.edge e := by
  rw [edge_addEdge, if_neg (Nat.ne_of_lt (agree.edge_index_lt he))]

theorem addEdge (agree : EdgeListsAgree s d) {edge : Edge}
    (mem : ∀ side : Side, side.pick a b ∈ (s.decomposition d).nodes)
    (ends : ∀ side : Side, edge.endpoint side = some (side.pick a b)) :
    EdgeListsAgree (s.addEdge d edge a b) d := by
  apply agree.pushEdge.listEdge mem
  · intro side
    rw [edge_push_new]
    exact ends side
  · exact agree.not_mem_edges_of_le (Nat.le_refl _)

end EdgeListsAgree

/-! ### Well-formed specifications -/

namespace WellFormed

section
variable (wf : s.WellFormed) (mem : ∀ side : Side, side.pick a b ∈ (s.decomposition d).nodes)
  (ends : ∀ side : Side, (s.edge e).endpoint side = some (side.pick a b))
include wf mem ends

theorem listEdge (unlisted : s.Unlisted e) : (s.listEdge d e a b).WellFormed := by
  have ha : a.index < s.nodes.size := wf.node_stored (mem .source)
  have hb : b.index < s.nodes.size := wf.node_stored (mem .target)
  have hd : d.index < s.decompositions.size := decomposition_stored (mem .source)
  apply wf.of_agree ((wf.agree d).listEdge mem ends (unlisted d))
  · exact nodes_size_listEdge
  · exact fun c => nodes_listEdge
  · exact fun c => terminal_listEdge
  · exact fun n => kind_listEdge ha hb
  · intro c other
    rw [edges_listEdge hd, if_neg other]
  · intro n hn side
    rw [edgesAt_listEdge ha hb, if_neg]
    rintro rfl
    exact hn (mem side)
  · intro f _ c _ side
    rfl

theorem unlistEdge : (s.unlistEdge d e a b).WellFormed := by
  have ha : a.index < s.nodes.size := wf.node_stored (mem .source)
  have hb : b.index < s.nodes.size := wf.node_stored (mem .target)
  have hd : d.index < s.decompositions.size := decomposition_stored (mem .source)
  apply wf.of_agree ((wf.agree d).unlistEdge mem ends)
  · exact nodes_size_unlistEdge
  · exact fun c => nodes_unlistEdge
  · exact fun c => terminal_unlistEdge
  · exact fun n => kind_unlistEdge ha hb
  · intro c other
    rw [edges_unlistEdge hd, if_neg other]
  · intro n hn side
    rw [edgesAt_unlistEdge ha hb, if_neg]
    rintro rfl
    exact hn (mem side)
  · intro f _ c _ side
    rfl

end

/-- An edge that was taken off its lists is on none. -/
theorem unlisted_unlistEdge (wf : s.WellFormed) (he : e ∈ (s.decomposition d).edges)
    (hd : d.index < s.decompositions.size) : (s.unlistEdge d e a b).Unlisted e := by
  intro c hc
  by_cases same : c = d
  · rw [same] at hc
    exact (wf.agree d).not_mem_unlistEdge hd hc
  · rw [edges_unlistEdge hd, if_neg same] at hc
    exact same (wf.edges_apart hc he)

/-- What an unlisted edge looks like does not matter. -/
theorem modifyEdge (wf : s.WellFormed) (unlisted : s.Unlisted e) (g : Edge → Edge) :
    (s.modifyEdge e g).WellFormed where
  agree c := (wf.agree c).modifyEdge (unlisted c) g
  nodup := wf.nodup
  apart := wf.apart
  terminal := wf.terminal

theorem addEdge (wf : s.WellFormed) {edge : Edge}
    (mem : ∀ side : Side, side.pick a b ∈ (s.decomposition d).nodes)
    (ends : ∀ side : Side, edge.endpoint side = some (side.pick a b)) :
    (s.addEdge d edge a b).WellFormed := by
  have stored : ({ s with edges := s.edges.push edge } : Specification).WellFormed :=
    ⟨fun c => (wf.agree c).pushEdge, wf.nodup, wf.apart, wf.terminal⟩
  have unlisted : s.Unlisted ⟨s.edges.size⟩ := wf.unlisted_of_le (Nat.le_refl _)
  apply stored.listEdge mem _ unlisted
  intro side
  rw [edge_push_new]
  exact ends side

end WellFormed

/-! ### Redirecting -/

/-- The specification with one end of an edge moved to `n`. The edge comes last in its lists. -/
def redirect (s : Specification) (d : DecompositionId) (e : EdgeId) (a b : NodeId) (side : Side)
    (n : NodeId) : Specification :=
  ((s.unlistEdge d e a b).modifyEdge e (·.move side n)).listEdge d e
    (if side = .source then n else a) (if side = .target then n else b)

theorem pick_redirect (side x : Side) :
    x.pick (if side = .source then n else a) (if side = .target then n else b) =
      if x = side then n else x.pick a b := by
  cases side <;> cases x <;> rfl

theorem edge_redirect (side : Side) (stored : e.index < s.edges.size) :
    (s.redirect d e a b side n).edge f =
      if f = e then (s.edge f).move side n else s.edge f := by
  unfold redirect
  rw [edge_listEdge, edge_modifyEdge]
  simp [stored]

theorem endpoint_redirect (side x : Side) (stored : e.index < s.edges.size) :
    ((s.redirect d e a b side n).edge f).endpoint x =
      if f = e ∧ x = side then some n else (s.edge f).endpoint x := by
  rw [edge_redirect side stored]
  by_cases same : f = e
  · rw [if_pos same, Edge.endpoint_move]
    simp [same]
  · simp [same]

@[simp] theorem nodes_redirect (side : Side) :
    ((s.redirect d e a b side n).decomposition c).nodes = (s.decomposition c).nodes := by
  simp [redirect]

@[simp] theorem terminal_redirect (side : Side) (x : Terminal) :
    ((s.redirect d e a b side n).decomposition c).terminal x = (s.decomposition c).terminal x := by
  simp [redirect]

@[simp] theorem nodes_size_redirect (side : Side) :
    (s.redirect d e a b side n).nodes.size = s.nodes.size := by
  simp [redirect]

@[simp] theorem edges_size_redirect (side : Side) :
    (s.redirect d e a b side n).edges.size = s.edges.size := by
  simp [redirect]

@[simp] theorem decompositions_size_redirect (side : Side) :
    (s.redirect d e a b side n).decompositions.size = s.decompositions.size := by
  simp [redirect]

theorem edges_redirect (side : Side) (hd : d.index < s.decompositions.size) :
    ((s.redirect d e a b side n).decomposition d).edges = (s.decomposition d).edges.erase e ++ [e] := by
  unfold redirect
  rw [edges_listEdge (by simpa using hd), if_pos rfl, decomposition_modifyEdge,
    edges_unlistEdge hd, if_pos rfl]

theorem decomposition_redirect_of_ne (side : Side) (other : c ≠ d) :
    (s.redirect d e a b side n).decomposition c = s.decomposition c := by
  unfold redirect
  rw [decomposition_listEdge, if_neg fun both => other both.1, decomposition_modifyEdge,
    decomposition_unlistEdge, if_neg fun both => other both.1]

/-- Redirecting an edge keeps it in its decomposition, and no other edge is affected. -/
theorem mem_edges_redirect (side : Side) (he : e ∈ (s.decomposition d).edges)
    (hd : d.index < s.decompositions.size) :
    f ∈ ((s.redirect d e a b side n).decomposition c).edges ↔ f ∈ (s.decomposition c).edges := by
  by_cases here : c = d
  · subst here
    rw [edges_redirect side hd, List.mem_append, List.mem_singleton]
    by_cases same : f = e
    · simp [same, he]
    · rw [List.mem_erase_of_ne same]
      simp [same]
  · rw [decomposition_redirect_of_ne side here]

/-- The edge is taken off the list at its old end, then comes last in the list at its new end. -/
theorem edgesAt_redirect (agree : EdgeListsAgree s d)
    (mem : ∀ side : Side, side.pick a b ∈ (s.decomposition d).nodes) (side x : Side)
    (hn : n ∈ (s.decomposition d).nodes) :
    ((s.redirect d e a b side n).node m).edgesAt x =
      if m = (if x = side then n else x.pick a b) then
        (if m = x.pick a b then ((s.node m).edgesAt x).erase e else (s.node m).edgesAt x) ++ [e]
      else if m = x.pick a b then ((s.node m).edgesAt x).erase e else (s.node m).edgesAt x := by
  have ha : a.index < s.nodes.size := agree.stored a (mem .source)
  have hb : b.index < s.nodes.size := agree.stored b (mem .target)
  have stored : n.index < s.nodes.size := agree.stored n hn
  have source : (if side = .source then n else a).index < s.nodes.size := by
    split
    · exact stored
    · exact ha
  have target : (if side = .target then n else b).index < s.nodes.size := by
    split
    · exact stored
    · exact hb
  unfold redirect
  rw [edgesAt_listEdge (by simpa using source) (by simpa using target), pick_redirect,
    node_modifyEdge, edgesAt_unlistEdge ha hb]

/-- A redirected edge is listed again between nodes of the decomposition. -/
theorem mem_redirect (mem : ∀ side : Side, side.pick a b ∈ (s.decomposition d).nodes) (side : Side)
    (hn : n ∈ (s.decomposition d).nodes) (x : Side) :
    x.pick (if side = .source then n else a) (if side = .target then n else b) ∈
      (((s.unlistEdge d e a b).modifyEdge e (·.move side n)).decomposition d).nodes := by
  rw [pick_redirect, decomposition_modifyEdge, nodes_unlistEdge]
  split
  · exact hn
  · exact mem x

/-- The ends of a redirected edge when it is listed again. -/
theorem ends_redirect (ends : ∀ side : Side, (s.edge e).endpoint side = some (side.pick a b))
    (side : Side) (stored : e.index < s.edges.size) (x : Side) :
    (((s.unlistEdge d e a b).modifyEdge e (·.move side n)).edge e).endpoint x = some
      (x.pick (if side = .source then n else a) (if side = .target then n else b)) := by
  rw [pick_redirect, edge_modifyEdge, if_pos ⟨rfl, stored⟩, Edge.endpoint_move, edge_unlistEdge]
  split
  · rfl
  · exact ends x

theorem EdgeListsAgree.redirect (agree : EdgeListsAgree s d) (he : e ∈ (s.decomposition d).edges)
    (mem : ∀ side : Side, side.pick a b ∈ (s.decomposition d).nodes)
    (ends : ∀ side : Side, (s.edge e).endpoint side = some (side.pick a b)) (side : Side)
    (hn : n ∈ (s.decomposition d).nodes) : EdgeListsAgree (s.redirect d e a b side n) d := by
  have unlisted := agree.not_mem_unlistEdge (e := e) (a := a) (b := b) (decomposition_stored hn)
  exact ((agree.unlistEdge mem ends).modifyEdge unlisted (·.move side n)).listEdge
    (mem_redirect mem side hn) (ends_redirect ends side (agree.edge_index_lt he)) unlisted

theorem WellFormed.redirect (wf : s.WellFormed) (he : e ∈ (s.decomposition d).edges)
    (mem : ∀ side : Side, side.pick a b ∈ (s.decomposition d).nodes)
    (ends : ∀ side : Side, (s.edge e).endpoint side = some (side.pick a b)) (side : Side)
    (hn : n ∈ (s.decomposition d).nodes) : (s.redirect d e a b side n).WellFormed := by
  have unlisted := wf.unlisted_unlistEdge (a := a) (b := b) he (decomposition_stored hn)
  exact ((wf.unlistEdge mem ends).modifyEdge unlisted (·.move side n)).listEdge
    (mem_redirect mem side hn) (ends_redirect ends side (wf.edge_index_lt he)) unlisted

end Specification

end ProcessNets
