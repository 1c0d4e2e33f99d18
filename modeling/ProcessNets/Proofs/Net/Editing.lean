import ProcessNets.Proofs.Net.Growing
import ProcessNets.Proofs.Net.Listing

/-!
# Runs of editing operations

In a well-formed specification, every operation that edits a net succeeds if its nodes are in the
net, and changes the specification as `Stores` and `Listing` say. Removing an edge fails for an
edge that the decomposition does not list, and changes nothing then.
-/

namespace ProcessNets

open Net

variable {s : Specification} {n a b : NodeId} {e : EdgeId} {d : DecompositionId}
  {E : Net.Fault → Prop}

namespace Specification

/-! ### Changes that read what they change -/

theorem modify_congr {α : Type} (xs : Array α) (i : Nat) {f g : α → α} (blank : α)
    (h : f (xs.getD i blank) = g (xs.getD i blank)) : xs.modify i f = xs.modify i g := by
  apply Array.ext_getElem?
  intro j
  simp only [Array.getElem?_modify]
  by_cases same : i = j
  · subst same
    rw [Array.getD_eq_getD_getElem?] at h
    cases found : xs[i]? with
    | none => rfl
    | some x => simpa [found] using h
  · simp [same]

theorem modifyNode_congr {f g : Node → Node} (h : f (s.node n) = g (s.node n)) :
    s.modifyNode n f = s.modifyNode n g := by
  unfold modifyNode
  rw [modify_congr s.nodes n.index .blank h]

theorem modifyDecomposition_congr {f g : Decomposition → Decomposition}
    (h : f (s.decomposition d) = g (s.decomposition d)) :
    s.modifyDecomposition d f = s.modifyDecomposition d g := by
  unfold modifyDecomposition
  rw [modify_congr s.decompositions d.index .blank h]

/-- An edge is taken off three lists, each of which is read before it changes. -/
theorem unlistEdge_of_reads {t : Specification}
    (taken : t = (s.modifyDecomposition d fun net =>
        { net with edges := (s.decomposition d).edges.erase e }).modifyNode a fun node =>
          { node with outgoing := (s.node a).outgoing.erase e }) :
    (t.modifyNode b fun node => { node with incoming := (t.node b).incoming.erase e }) =
      s.unlistEdge d e a b := by
  rw [taken]
  unfold unlistEdge
  rw [modifyDecomposition_congr (g := fun net => { net with edges := net.edges.erase e }) rfl]
  rw [modifyNode_congr (n := a) (g := fun node =>
    { node with outgoing := node.outgoing.erase e }) rfl]
  exact modifyNode_congr rfl

end Specification

open Specification

namespace Net.Edit

/-! ### Growing -/

theorem ensures_createDecomposition {id : String} {facts : Facts} {isRoot : Bool}
    {post : DecompositionId → Specification → Prop} :
    Ensures E (createDecomposition id facts isRoot) s post ↔
      post ⟨s.decompositions.size⟩ (s.addDecomposition { id, facts, isRoot }) := Iff.rfl

theorem ensures_createNode {id name : String} {kind : Kind}
    {post : NodeId → Specification → Prop} : Ensures E (createNode d id name kind) s post ↔
      post ⟨s.nodes.size⟩ (s.addNode d { id, name, kind }) := Iff.rfl

theorem ensures_createTask {id name : String} {split join : Decorator}
    {post : NodeId → Specification → Prop} : Ensures E (createTask d id name split join) s post ↔
      post ⟨s.nodes.size⟩ (s.addNode d { id, name, kind := .task { split, join } }) := Iff.rfl

/-- The input or the output condition, added if there is none yet. -/
def createTerminal (d : DecompositionId) : Terminal → (id name : String) → Edit NodeId
  | .input => createInputCondition d
  | .output => createOutputCondition d

/-- A condition that is there already is found, a missing one is added. -/
theorem ensures_createTerminal {x : Terminal} {id name : String}
    {post : NodeId → Specification → Prop} : Ensures E (createTerminal d x id name) s post ↔
      match (s.decomposition d).terminal x with
      | some n => post n s
      | none => post ⟨s.nodes.size⟩ (s.addTerminal d x id name) := by
  cases x
  · show Ensures E (createInputCondition d id name) s post ↔ _
    unfold createInputCondition
    simp only [ensures_bind, ensures_get, Decomposition.terminal]
    cases (s.decomposition d).inputCondition <;> rfl
  · show Ensures E (createOutputCondition d id name) s post ↔ _
    unfold createOutputCondition
    simp only [ensures_bind, ensures_get, Decomposition.terminal]
    cases (s.decomposition d).outputCondition <;> rfl

/-! ### Tasks -/

theorem ensures_requireTask {task : Task} (h : s.task? n = some task)
    {post : Task → Specification → Prop} (ht : post task s) :
    Ensures E (requireTask n) s post := by
  unfold requireTask
  simp only [ensures_bind, ensures_get, h, ensures_pure]
  exact ht

theorem ensures_updateTask {task : Task} (h : s.task? n = some task) {f : Task → Task}
    {post : Unit → Specification → Prop} (ht : post () (s.modifyTask n f)) :
    Ensures E (updateTask n f) s post := by
  unfold updateTask
  rw [ensures_bind]
  apply ensures_requireTask h
  rw [ensures_modify]
  exact ht

section
variable {task : Task} (h : s.task? n = some task) {query : String} {v : Variable}
  {post : Bool → Specification → Prop}
include h

theorem ensures_addStarting_of_task (ht : post (!hasQuery task.starting query)
      (s.modifyTask n fun t => { t with starting := addMapping t.starting query v })) :
    Ensures E (addStarting n query v) s post := by
  unfold addStarting
  rw [ensures_bind]
  apply ensures_requireTask h
  rw [ensures_bind, ensures_modify, ensures_pure]
  exact ht

theorem ensures_addCompleted_of_task (ht : post (!hasQuery task.completed query)
      (s.modifyTask n fun t => { t with completed := addMapping t.completed query v })) :
    Ensures E (addCompleted n query v) s post := by
  unfold addCompleted
  rw [ensures_bind]
  apply ensures_requireTask h
  rw [ensures_bind, ensures_modify, ensures_pure]
  exact ht

end

/-! ### Edges -/

theorem ensures_addEdge (source : (s.edge e).source = some a) (target : (s.edge e).target = some b)
    {post : Unit → Specification → Prop} (ht : post () (s.listEdge d e a b)) :
    Ensures E (addEdge d e) s post := by
  unfold addEdge
  simp only [ensures_bind, ensures_modify, ensures_get, edge_modifyDecomposition, source, target,
    requireEnd, ensures_pure]
  exact ht

theorem ensures_createEdge {edge : Edge} (source : edge.source = some a)
    (target : edge.target = some b) {post : EdgeId → Specification → Prop}
    (ht : post ⟨s.edges.size⟩ (s.addEdge d edge a b)) : Ensures E (createEdge d edge) s post := by
  unfold createEdge storeEdge
  simp only [ensures_bind, ensures_get, ensures_set, ensures_pure]
  apply ensures_addEdge
  · rw [edge_push_new, source]
  · rw [edge_push_new, target]
  · exact ht

theorem ensures_link {ordering : Int} {predicate : String} {isDefault : Bool}
    {post : EdgeId → Specification → Prop}
    (ht : post ⟨s.edges.size⟩ (s.addEdge d
      { source := some a, target := some b, isDefault, predicate, ordering } a b)) :
    Ensures E (link d a b ordering predicate isDefault) s post :=
  ensures_createEdge rfl rfl ht

theorem ensures_withoutEdge {edges : List EdgeId} (h : e ∈ edges)
    {post : List EdgeId → Specification → Prop} (ht : post (edges.erase e) s) :
    Ensures E (withoutEdge e edges) s post := by
  unfold withoutEdge
  rw [if_pos h, ensures_pure]
  exact ht

theorem ensures_removeEdge (agree : EdgeListsAgree s d) (he : e ∈ (s.decomposition d).edges)
    (source : (s.edge e).source = some a) (target : (s.edge e).target = some b)
    {post : Unit → Specification → Prop} (ht : post () (s.unlistEdge d e a b)) :
    Ensures E (removeEdge d e) s post := by
  obtain ⟨a', ha, b', hb, sameA, sameB⟩ := agree.exists_ends he
  obtain rfl : a' = a := Option.some.inj (sameA.symm.trans source)
  obtain rfl : b' = b := Option.some.inj (sameB.symm.trans target)
  have listedA : e ∈ (s.node a').outgoing := (agree.listed a' ha .source e).mpr ⟨he, source⟩
  have listedB : e ∈ (s.node b').incoming := (agree.listed b' hb .target e).mpr ⟨he, target⟩
  unfold removeEdge
  rw [ensures_bind, ensures_get, ensures_bind]
  apply ensures_withoutEdge he
  simp only [ensures_bind, ensures_modify, ensures_get, edge_modifyDecomposition, source,
    requireEnd, ensures_pure, node_modifyDecomposition]
  apply ensures_withoutEdge listedA
  simp only [target, ensures_pure]
  have incoming : ∀ outgoing, (((s.modifyDecomposition d
      (fun net => { net with edges := (s.decomposition d).edges.erase e })).modifyNode a'
      fun node => { node with outgoing }).node b').incoming = (s.node b').incoming := by
    intro outgoing
    rw [node_modifyNode]
    split <;> rfl
  apply ensures_withoutEdge
  · rw [incoming]
    exact listedB
  · rw [unlistEdge_of_reads rfl]
    exact ht

/-- An edge that the decomposition does not list cannot be removed, and nothing changes. -/
theorem removeEdge_run_of_not_mem (h : e ∉ (s.decomposition d).edges) :
    (removeEdge d e).run.run s = (.error .unlistedEdge, s) := by
  have run : (withoutEdge e (s.decomposition d).edges).run.run s = (.error .unlistedEdge, s) := by
    unfold withoutEdge
    rw [if_neg h]
    rfl
  have read : (get : Edit Specification).run.run s = (.ok s, s) := rfl
  unfold removeEdge
  rw [run_bind_ok read]
  exact run_bind_error run

/-! ### Moving edges -/

/-- Moves one end of an edge to another node. -/
def redirectEnd (d : DecompositionId) (e : EdgeId) : Side → NodeId → Edit Unit
  | .source => redirectSource d e
  | .target => redirectTarget d e

theorem ensures_redirectEnd (agree : EdgeListsAgree s d) (he : e ∈ (s.decomposition d).edges)
    (source : (s.edge e).source = some a) (target : (s.edge e).target = some b) {side : Side}
    {post : Unit → Specification → Prop} (ht : post () (s.redirect d e a b side n)) :
    Ensures E (redirectEnd d e side n) s post := by
  have stored : e.index < s.edges.size := agree.edge_index_lt he
  have moved : ∀ g : Edge → Edge,
      ((s.unlistEdge d e a b).modifyEdge e g).edge e = g (s.edge e) := by
    intro g
    rw [edge_modifyEdge, if_pos ⟨rfl, stored⟩, edge_unlistEdge]
  cases side
  · show Ensures E (redirectSource d e n) s post
    unfold redirectSource
    rw [ensures_bind]
    apply ensures_removeEdge agree he source target
    rw [ensures_bind, ensures_modify]
    apply ensures_addEdge (a := n) (b := b)
    · rw [moved]
    · rw [moved, target]
    · exact ht
  · show Ensures E (redirectTarget d e n) s post
    unfold redirectTarget
    rw [ensures_bind]
    apply ensures_removeEdge agree he source target
    rw [ensures_bind, ensures_modify]
    apply ensures_addEdge (a := a) (b := n)
    · rw [moved, source]
    · rw [moved]
    · exact ht

/-- Moves one end of all edges that have it at a node. -/
def moveEnds (d : DecompositionId) : Side → (n m : NodeId) → Edit Unit
  | .source => moveOutgoing d
  | .target => moveIncoming d

theorem moveEnds_eq (side : Side) : moveEnds d side a b =
    (do ((← get).node a).edgesAt side |>.forM fun e => redirectEnd d e side b) := by
  cases side <;> rfl

/-- One edge moves as all of them do, if it is the only one. -/
theorem ensures_redirectEnd_of_only {side : Side} {post : Unit → Specification → Prop}
    (only : (s.node a).edgesAt side = [e]) (all : Ensures E (moveEnds d side a b) s post) :
    Ensures E (redirectEnd d e side b) s post := by
  rw [moveEnds_eq, ensures_bind, ensures_get, only, List.forM_eq_forM, List.forM_cons,
    ensures_bind] at all
  exact all

/-- The edges that had one end at `a` have it at `b`, and nothing else moved. -/
structure Moved (d : DecompositionId) (side : Side) (a b : NodeId) (s t : Specification) :
    Prop where
  nodes : ∀ c, (t.decomposition c).nodes = (s.decomposition c).nodes
  edges : ∀ c f, f ∈ (t.decomposition c).edges ↔ f ∈ (s.decomposition c).edges
  edge : ∀ f, t.edge f = if f ∈ (s.node a).edgesAt side then (s.edge f).move side b else s.edge f

theorem Moved.endpoint {side : Side} {t : Specification} (h : Moved d side a b s t) (f : EdgeId)
    (x : Side) : (t.edge f).endpoint x =
      if x = side ∧ f ∈ (s.node a).edgesAt side then some b else (s.edge f).endpoint x := by
  rw [h.edge]
  by_cases moved : f ∈ (s.node a).edgesAt side
  · rw [if_pos moved, Edge.endpoint_move]
    simp [moved]
  · simp [moved]

/-- All edges move, one after the other. The lists go on to agree, and what each redirection keeps
is kept. -/
theorem ensures_moveEnds_agree (side : Side) (agree : EdgeListsAgree s d)
    (ha : a ∈ (s.decomposition d).nodes) (hb : b ∈ (s.decomposition d).nodes)
    (inv : Specification → Prop) (start : inv s)
    (step : ∀ t e x y, inv t → EdgeListsAgree t d → b ∈ (t.decomposition d).nodes →
      e ∈ (t.decomposition d).edges → (∀ side : Side, side.pick x y ∈ (t.decomposition d).nodes) →
      (∀ side : Side, (t.edge e).endpoint side = some (side.pick x y)) →
      inv (t.redirect d e x y side b)) :
    Ensures E (moveEnds d side a b) s fun _ t =>
      EdgeListsAgree t d ∧ inv t ∧ Moved d side a b s t := by
  -- the edges in `rest` still have their end at `a`
  let ahead (rest : List EdgeId) (t : Specification) : Prop :=
    EdgeListsAgree t d ∧ inv t ∧ rest.Nodup ∧ (∀ f ∈ rest, f ∈ (s.node a).edgesAt side) ∧
      (∀ c, (t.decomposition c).nodes = (s.decomposition c).nodes) ∧
      (∀ c f, f ∈ (t.decomposition c).edges ↔ f ∈ (s.decomposition c).edges) ∧
      ∀ f, t.edge f =
        if f ∈ (s.node a).edgesAt side ∧ f ∉ rest then (s.edge f).move side b else s.edge f
  rw [moveEnds_eq, ensures_bind, ensures_get]
  refine (ensures_forM ahead ?_ _ s ?_).mono ?_
  · rintro e rest t ⟨agreet, kept, nodup, sub, nodes, edges, edge⟩
    have he : e ∈ (t.decomposition d).edges :=
      (edges d e).mpr ((agree.listed a ha side e).mp (sub e List.mem_cons_self)).1
    obtain ⟨x, hx, y, hy, source, target⟩ := agreet.exists_ends he
    have ends : ∀ side : Side, (t.edge e).endpoint side = some (side.pick x y) :=
      Edge.endpoint_pick source target
    have mem : ∀ side : Side, side.pick x y ∈ (t.decomposition d).nodes := Side.pick_mem hx hy
    have hbt : b ∈ (t.decomposition d).nodes := by
      rw [nodes]
      exact hb
    obtain ⟨fresh, nodup⟩ := List.nodup_cons.mp nodup
    apply ensures_redirectEnd agreet he source target
    refine ⟨agreet.redirect he mem ends side hbt, step t e x y kept agreet hbt he mem ends, nodup,
      fun f hf => sub f (List.mem_cons_of_mem _ hf), ?_, ?_, ?_⟩
    · intro c
      rw [nodes_redirect, nodes]
    · intro c f
      rw [mem_edges_redirect side he (decomposition_stored hx), edges]
    · intro f
      rw [edge_redirect side (agreet.edge_index_lt he), edge]
      by_cases same : f = e
      · subst same
        rw [if_pos rfl, if_neg fun both => both.2 List.mem_cons_self,
          if_pos ⟨sub f List.mem_cons_self, fresh⟩]
      · rw [if_neg same]
        simp only [List.mem_cons, same, false_or]
  · refine ⟨agree, start, agree.once a ha side, fun f hf => hf, fun c => rfl,
      fun c f => Iff.rfl, fun f => ?_⟩
    rw [if_neg]
    rintro ⟨hf, absent⟩
    exact absent hf
  · rintro _ t ⟨agreet, kept, _, _, nodes, edges, edge⟩
    refine ⟨agreet, kept, nodes, edges, fun f => ?_⟩
    rw [edge]
    simp

theorem ensures_moveEnds (side : Side) (wf : s.WellFormed) (ha : a ∈ (s.decomposition d).nodes)
    (hb : b ∈ (s.decomposition d).nodes) (inv : Specification → Prop)
    (start : inv s)
    (step : ∀ t e x y, inv t → t.WellFormed → b ∈ (t.decomposition d).nodes →
      e ∈ (t.decomposition d).edges → (t.edge e).source = some x → (t.edge e).target = some y →
      inv (t.redirect d e x y side b)) :
    Ensures E (moveEnds d side a b) s fun _ t => t.WellFormed ∧ inv t ∧ Moved d side a b s t := by
  refine (ensures_moveEnds_agree side (wf.agree d) ha hb (fun t => t.WellFormed ∧ inv t)
    ⟨wf, start⟩ ?_).mono ?_
  · rintro t e x y ⟨wft, kept⟩ _ hbt he mem ends
    exact ⟨wft.redirect he mem ends side hbt,
      step t e x y kept wft hbt he (ends .source) (ends .target)⟩
  · rintro _ t ⟨_, ⟨wft, kept⟩, moved⟩
    exact ⟨wft, kept, moved⟩

end Net.Edit

end ProcessNets
