import ProcessNets.Proofs.Net.EdgeLists

/-!
# Growing specifications

Specifications stay well-formed when they get a decomposition without nodes, a task or a plain
condition without edges, or the input or output condition that a net lacks.
-/

namespace ProcessNets

open Net

namespace Specification

variable {s : Specification} {n : NodeId} {c d : DecompositionId}

theorem node_addNode_of_lt (x : Node) (h : n.index < s.nodes.size) :
    (s.addNode d x).node n = s.node n := by
  rw [node_addNode, if_neg (by omega)]

theorem node_addNode_new (x : Node) : (s.addNode d x).node ⟨s.nodes.size⟩ = x := by
  rw [node_addNode, if_pos rfl]

theorem nodes_addNode (x : Node) (h : d.index < s.decompositions.size) :
    ((s.addNode d x).decomposition d).nodes = (s.decomposition d).nodes ++ [⟨s.nodes.size⟩] := by
  rw [decomposition_addNode, if_pos ⟨rfl, h⟩]

theorem decomposition_addNode_of_ne (x : Node) (h : c ≠ d) :
    (s.addNode d x).decomposition c = s.decomposition c := by
  rw [decomposition_addNode, if_neg fun both => h both.1]

theorem edges_addNode (x : Node) :
    ((s.addNode d x).decomposition c).edges = (s.decomposition c).edges := by
  rw [decomposition_addNode]
  split <;> rfl

theorem terminal_addNode (x : Node) (terminal : Terminal) :
    ((s.addNode d x).decomposition c).terminal terminal =
      (s.decomposition c).terminal terminal := by
  rw [decomposition_addNode]
  split
  · cases terminal <;> rfl
  · rfl

theorem mem_nodes_addNode (x : Node) (h : d.index < s.decompositions.size) :
    n ∈ ((s.addNode d x).decomposition c).nodes ↔
      n ∈ (s.decomposition c).nodes ∨ (c = d ∧ n = ⟨s.nodes.size⟩) := by
  by_cases same : c = d
  · subst same
    rw [nodes_addNode x h]
    simp
  · rw [decomposition_addNode_of_ne x same]
    simp [same]

/-- All nodes are stored, the new one too. -/
theorem stored_addNode {x : Node} (stored : ∀ n ∈ (s.decomposition c).nodes, n.index < s.nodes.size)
    (h : d.index < s.decompositions.size) :
    ∀ n ∈ ((s.addNode d x).decomposition c).nodes, n.index < (s.addNode d x).nodes.size := by
  intro n hn
  rw [nodes_size_addNode]
  rcases (mem_nodes_addNode x h).mp hn with hn | ⟨_, rfl⟩
  · exact Nat.lt_succ_of_lt (stored n hn)
  · exact Nat.lt_succ_self _

/-! ### Nodes and terminals -/

namespace Framed

theorem not_mem_new (framed : s.Framed) : ⟨s.nodes.size⟩ ∉ (s.decomposition d).nodes := by
  intro hn
  exact Nat.lt_irrefl _ (framed.stored d _ hn)

theorem nodup_addNode {x : Node} (framed : s.Framed) (h : d.index < s.decompositions.size)
    (c : DecompositionId) : ((s.addNode d x).decomposition c).nodes.Nodup := by
  by_cases same : c = d
  · subst same
    rw [nodes_addNode x h]
    refine List.nodup_append.mpr ⟨framed.nodup c, by simp, ?_⟩
    intro n hn m hm
    rintro rfl
    rw [List.mem_singleton] at hm
    subst hm
    exact framed.not_mem_new hn
  · rw [decomposition_addNode_of_ne x same]
    exact framed.nodup c

theorem addDecomposition (framed : s.Framed) {x : Decomposition} (nodes : x.nodes = [])
    (terminal : ∀ y, x.terminal y = none) : (s.addDecomposition x).Framed := by
  constructor
  · intro d n hn
    by_cases h : d.index = s.decompositions.size
    · rw [decomposition_addDecomposition, if_pos h, nodes] at hn
      cases hn
    · rw [decomposition_addDecomposition, if_neg h] at hn
      exact framed.stored d n hn
  · intro d
    by_cases h : d.index = s.decompositions.size
    · rw [decomposition_addDecomposition, if_pos h, nodes]
      exact List.nodup_nil
    · rw [decomposition_addDecomposition, if_neg h]
      exact framed.nodup d
  · intro d y n
    by_cases h : d.index = s.decompositions.size
    · rw [decomposition_addDecomposition, if_pos h, terminal, nodes]
      simp
    · rw [decomposition_addDecomposition, if_neg h]
      exact framed.terminal d y n

/-- A task or a plain condition is no terminal. -/
theorem addNode (framed : s.Framed) {x : Node} (plain : x.kind.isBoundary = false)
    (h : d.index < s.decompositions.size) : (s.addNode d x).Framed where
  stored c := stored_addNode (framed.stored c) h
  nodup := framed.nodup_addNode h
  terminal c y n := by
    rw [terminal_addNode, framed.terminal, mem_nodes_addNode x h]
    constructor
    · rintro ⟨hn, kind⟩
      rw [node_addNode_of_lt x (framed.stored c n hn)]
      exact ⟨.inl hn, kind⟩
    · rintro ⟨hn | ⟨rfl, rfl⟩, kind⟩
      · rw [node_addNode_of_lt x (framed.stored c n hn)] at kind
        exact ⟨hn, kind⟩
      · rw [node_addNode_new] at kind
        rw [kind, Terminal.isBoundary_kind] at plain
        cases plain

end Framed

/-! ### Well-formed specifications -/

theorem wellFormed_of_empty (h : s.decompositions.size = 0) : s.WellFormed := by
  have blank : ∀ d, s.decomposition d = .blank := fun d =>
    decomposition_eq_blank (h ▸ Nat.zero_le _)
  constructor
  · intro d
    constructor
    all_goals
      rw [blank]
      simp [Decomposition.blank]
  · intro d
    rw [blank]
    exact List.nodup_nil
  · intro c d n hn
    rw [blank] at hn
    cases hn
  · intro d x n
    rw [blank]
    cases x <;> simp [Decomposition.blank, Decomposition.terminal]

theorem WellFormed.addDecomposition (wf : s.WellFormed) {x : Decomposition}
    (nodes : x.nodes = []) (edges : x.edges = []) (terminal : ∀ y, x.terminal y = none) :
    (s.addDecomposition x).WellFormed := by
  have listed : ∀ {d n}, n ∈ ((s.addDecomposition x).decomposition d).nodes →
      n ∈ (s.decomposition d).nodes := by
    intro d n hn
    by_cases h : d.index = s.decompositions.size
    · rw [decomposition_addDecomposition, if_pos h, nodes] at hn
      cases hn
    · rw [decomposition_addDecomposition, if_neg h] at hn
      exact hn
  have framed : (s.addDecomposition x).Framed := wf.framed.addDecomposition nodes terminal
  refine ⟨fun d => ?_, framed.nodup, fun hc hd => wf.apart (listed hc) (listed hd),
    framed.terminal⟩
  by_cases h : d.index = s.decompositions.size
  · constructor
    all_goals rw [decomposition_addDecomposition, if_pos h]
    all_goals simp [nodes, edges]
  · apply (wf.agree d).congr
    · rw [decomposition_addDecomposition, if_neg h]
    · rw [decomposition_addDecomposition, if_neg h]
    · exact Nat.le_refl _
    · intro e _ side
      rfl
    · intro n _ side
      rfl

/-- The lists still agree after a node without edges is added. -/
theorem EdgeListsAgree.addNode {x : Node} (agree : EdgeListsAgree s c)
    (bare : ∀ side, x.edgesAt side = []) (h : d.index < s.decompositions.size) :
    EdgeListsAgree (s.addNode d x) c := by
  have listed : ∀ n ∈ (s.decomposition c).nodes, (s.addNode d x).node n = s.node n :=
    fun n hn => node_addNode_of_lt x (agree.stored n hn)
  refine ⟨stored_addNode agree.stored h, ?_, ?_, ?_, ?_⟩
  · rw [edges_addNode]
    exact agree.distinct
  · intro e he side
    rw [edges_addNode] at he
    obtain ⟨n, hn, endpoint⟩ := agree.ends e he side
    exact ⟨n, (mem_nodes_addNode x h).mpr (.inl hn), endpoint⟩
  · intro n hn side
    rcases (mem_nodes_addNode x h).mp hn with hn | ⟨_, rfl⟩
    · rw [listed n hn]
      exact agree.once n hn side
    · rw [node_addNode_new, bare]
      exact List.nodup_nil
  · intro n hn side e
    rw [edges_addNode, edge_addNode]
    rcases (mem_nodes_addNode x h).mp hn with hn | ⟨rfl, rfl⟩
    · rw [listed n hn]
      exact agree.listed n hn side e
    · rw [node_addNode_new, bare]
      constructor
      · intro he
        cases he
      · rintro ⟨he, endpoint⟩
        obtain ⟨n, hn, same⟩ := agree.ends e he side
        rw [endpoint] at same
        cases same
        exact (agree.not_mem_of_le (Nat.le_refl _) hn).elim

theorem WellFormed.apart_addNode {x : Node} (wf : s.WellFormed)
    (h : d.index < s.decompositions.size) {b c : DecompositionId}
    (hb : n ∈ ((s.addNode d x).decomposition b).nodes)
    (hc : n ∈ ((s.addNode d x).decomposition c).nodes) : b = c := by
  rcases (mem_nodes_addNode x h).mp hb with oldB | ⟨sameB, new⟩ <;>
    rcases (mem_nodes_addNode x h).mp hc with oldC | ⟨sameC, same⟩
  · exact wf.apart oldB oldC
  · subst same
    exact (wf.not_mem_of_le (Nat.le_refl _) oldB).elim
  · subst new
    exact (wf.not_mem_of_le (Nat.le_refl _) oldC).elim
  · exact sameB.trans sameC.symm

theorem WellFormed.addNode (wf : s.WellFormed) {x : Node} (bare : ∀ side, x.edgesAt side = [])
    (plain : x.kind.isBoundary = false) (h : d.index < s.decompositions.size) :
    (s.addNode d x).WellFormed where
  agree c := (wf.agree c).addNode bare h
  nodup := (wf.framed.addNode plain h).nodup
  apart := wf.apart_addNode h
  terminal := (wf.framed.addNode plain h).terminal

/-- The specification with an input or output condition added to a decomposition. -/
def addTerminal (s : Specification) (d : DecompositionId) (x : Terminal) (id name : String) :
    Specification :=
  (s.addNode d { id, name, kind := x.kind }).modifyDecomposition d
    fun net => net.setTerminal x ⟨s.nodes.size⟩

theorem decomposition_addTerminal (x : Terminal) (id name : String)
    (h : d.index < s.decompositions.size) : (s.addTerminal d x id name).decomposition c =
      if c = d then ((s.addNode d { id, name, kind := x.kind }).decomposition d).setTerminal x
        ⟨s.nodes.size⟩ else s.decomposition c := by
  unfold addTerminal
  rw [decomposition_modifyDecomposition]
  by_cases same : c = d
  · rw [if_pos ⟨same, by simpa using h⟩, if_pos same, same]
  · rw [if_neg fun both => same both.1, if_neg same, decomposition_addNode_of_ne _ same]

theorem nodes_addTerminal (x : Terminal) (id name : String) (h : d.index < s.decompositions.size) :
    ((s.addTerminal d x id name).decomposition c).nodes =
      ((s.addNode d { id, name, kind := x.kind }).decomposition c).nodes := by
  rw [decomposition_addTerminal x id name h]
  split
  · rename_i same
    rw [Decomposition.nodes_setTerminal, same]
  · rename_i different
    rw [decomposition_addNode_of_ne _ different]

theorem edges_addTerminal (x : Terminal) (id name : String) (h : d.index < s.decompositions.size) :
    ((s.addTerminal d x id name).decomposition c).edges = (s.decomposition c).edges := by
  rw [decomposition_addTerminal x id name h]
  split
  · rename_i same
    rw [Decomposition.edges_setTerminal, edges_addNode, same]
  · rfl

theorem terminal_addTerminal (x y : Terminal) (id name : String)
    (h : d.index < s.decompositions.size) :
    ((s.addTerminal d x id name).decomposition c).terminal y =
      if c = d ∧ y = x then some ⟨s.nodes.size⟩ else (s.decomposition c).terminal y := by
  rw [decomposition_addTerminal x id name h]
  by_cases same : c = d
  · simp [same, Decomposition.terminal_setTerminal, terminal_addNode]
  · simp [same]

/-- The missing input or output condition becomes the terminal. -/
theorem Framed.addTerminal (framed : s.Framed) {x : Terminal} (id name : String)
    (h : d.index < s.decompositions.size) (missing : (s.decomposition d).terminal x = none) :
    (s.addTerminal d x id name).Framed where
  stored c n hn := by
    rw [nodes_addTerminal x id name h] at hn
    exact stored_addNode (framed.stored c) h n hn
  nodup c := by
    rw [nodes_addTerminal x id name h]
    exact framed.nodup_addNode h c
  terminal c y n := by
    rw [terminal_addTerminal x y id name h, nodes_addTerminal x id name h, mem_nodes_addNode _ h]
    have new : (s.addTerminal d x id name).node n =
        (s.addNode d { id, name, kind := x.kind }).node n := rfl
    rw [new]
    by_cases stored : n.index = s.nodes.size
    · have same : n = ⟨s.nodes.size⟩ := NodeId.index_inj.mp stored
      subst same
      have unlisted : ⟨s.nodes.size⟩ ∉ (s.decomposition c).nodes := framed.not_mem_new
      rw [node_addNode_new]
      have before : (s.decomposition c).terminal y ≠ some ⟨s.nodes.size⟩ :=
        fun found => unlisted ((framed.terminal c y _).mp found).1
      by_cases here : c = d ∧ y = x
      · simp [here]
      · rw [if_neg here]
        simp only [before, unlisted, false_or, and_true, Terminal.kind_inj, false_iff]
        rintro ⟨rfl, rfl⟩
        exact here ⟨rfl, rfl⟩
    · have different : n ≠ ⟨s.nodes.size⟩ := fun same => stored (by rw [same])
      rw [node_addNode, if_neg stored]
      simp only [different, and_false, or_false]
      by_cases here : c = d ∧ y = x
      · obtain ⟨rfl, rfl⟩ := here
        have none := framed.terminal c y n
        rw [missing] at none
        simp only [and_self, if_true, Option.some.injEq, Ne.symm different, false_iff]
        intro found
        cases none.mpr found
      · rw [if_neg here]
        exact framed.terminal c y n

theorem WellFormed.addTerminal (wf : s.WellFormed) {x : Terminal} (id name : String)
    (h : d.index < s.decompositions.size) (missing : (s.decomposition d).terminal x = none) :
    (s.addTerminal d x id name).WellFormed where
  agree c := by
    apply ((wf.agree c).addNode (x := { id, name, kind := x.kind }) _ h).congr
    · exact nodes_addTerminal x id name h
    · rw [edges_addTerminal x id name h, edges_addNode]
    · exact Nat.le_refl _
    · intro e _ side
      rfl
    · intro n _ side
      rfl
    · intro side
      cases side <;> rfl
  nodup := (wf.framed.addTerminal id name h missing).nodup
  apart hb hc := by
    rw [nodes_addTerminal x id name h] at hb hc
    exact wf.apart_addNode h hb hc
  terminal := (wf.framed.addTerminal id name h missing).terminal

end Specification

end ProcessNets
