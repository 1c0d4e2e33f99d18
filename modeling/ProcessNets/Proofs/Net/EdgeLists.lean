import ProcessNets.Proofs.Net.Skeleton

/-!
# Edge lists

An edge of a net is listed by its decomposition, by its source and by its target. `EdgeListsAgree`
says that the three kinds of lists of one decomposition tell the same, and `WellFormed` that they
do so everywhere, in decompositions that share no node.
-/

namespace ProcessNets

open Net

namespace Net

/-! ### Ends of edges -/

/-- The two ends of an edge. -/
inductive Side where
  | source
  | target
deriving DecidableEq, Repr

def Edge.endpoint (edge : Edge) : Side → Option NodeId
  | .source => edge.source
  | .target => edge.target

/-- The edge with one end moved to a node. -/
def Edge.move (edge : Edge) (side : Side) (n : NodeId) : Edge :=
  match side with
  | .source => { edge with source := some n }
  | .target => { edge with target := some n }

/-- The edges that have this end at the node. -/
def Node.edgesAt (node : Node) : Side → List EdgeId
  | .source => node.outgoing
  | .target => node.incoming

/-- The end of an edge that leads from one node to another. -/
def Side.pick (side : Side) (a b : NodeId) : NodeId :=
  match side with
  | .source => a
  | .target => b

theorem Side.pick_mem {nodes : List NodeId} {a b : NodeId} (ha : a ∈ nodes) (hb : b ∈ nodes)
    (side : Side) : side.pick a b ∈ nodes := by
  cases side
  · exact ha
  · exact hb

/-- Both ends of an edge, whichever side is asked for. -/
theorem Edge.endpoint_pick {edge : Edge} {a b : NodeId} (source : edge.source = some a)
    (target : edge.target = some b) (side : Side) : edge.endpoint side = some (side.pick a b) := by
  cases side
  · exact source
  · exact target

theorem Node.edgesAt_bare {id name : String} {kind : Kind} (side : Side) :
    ({ id, name, kind } : Node).edgesAt side = [] := by
  cases side <;> rfl

theorem Edge.endpoint_move (edge : Edge) (side x : Side) (n : NodeId) :
    (edge.move side n).endpoint x = if x = side then some n else edge.endpoint x := by
  cases side <;> cases x <;> rfl

/-! ### Terminals -/

/-- The two conditions at which a net starts and ends. -/
inductive Terminal where
  | input
  | output
deriving DecidableEq, Repr

def Terminal.kind : Terminal → Kind
  | .input => .inputCondition
  | .output => .outputCondition

/-- The input or the output condition, if there is one. -/
def Decomposition.terminal (net : Decomposition) : Terminal → Option NodeId
  | .input => net.inputCondition
  | .output => net.outputCondition

theorem Decomposition.terminal_bare {id : String} {facts : Facts} {isRoot : Bool} (x : Terminal) :
    ({ id, facts, isRoot } : Decomposition).terminal x = none := by
  cases x <;> rfl

/-- The decomposition with a given input or output condition. -/
def Decomposition.setTerminal (net : Decomposition) (terminal : Terminal) (n : NodeId) :
    Decomposition :=
  match terminal with
  | .input => { net with inputCondition := some n }
  | .output => { net with outputCondition := some n }

theorem Kind.skeleton_eq_terminal {kind : Kind} {terminal : Terminal} :
    kind.skeleton = terminal.kind ↔ kind = terminal.kind := by
  cases terminal
  · exact Kind.skeleton_eq_inputCondition
  · exact Kind.skeleton_eq_outputCondition

theorem Terminal.kind_inj {x y : Terminal} : x.kind = y.kind ↔ x = y := by
  cases x <;> cases y <;> simp [kind]

theorem Terminal.isBoundary_kind (terminal : Terminal) : terminal.kind.isBoundary = true := by
  cases terminal <;> rfl

theorem Decomposition.terminal_setTerminal (net : Decomposition) (x y : Terminal) (n : NodeId) :
    (net.setTerminal x n).terminal y = if y = x then some n else net.terminal y := by
  cases x <;> cases y <;> rfl

@[simp] theorem Decomposition.nodes_setTerminal (net : Decomposition) (x : Terminal)
    (n : NodeId) : (net.setTerminal x n).nodes = net.nodes := by
  cases x <;> rfl

@[simp] theorem Decomposition.edges_setTerminal (net : Decomposition) (x : Terminal)
    (n : NodeId) : (net.setTerminal x n).edges = net.edges := by
  cases x <;> rfl

end Net

namespace Specification

variable {s t : Specification} {n m a b : NodeId} {e f : EdgeId} {c d : DecompositionId}

/-! ### Agreement -/

/-- The lists of edges in a decomposition and at its nodes tell the same: each edge of the
decomposition is in the list at its source and in the list at its target, once, and these lists
hold nothing else. -/
structure EdgeListsAgree (s : Specification) (d : DecompositionId) : Prop where
  stored : ∀ n ∈ (s.decomposition d).nodes, n.index < s.nodes.size
  distinct : (s.decomposition d).edges.Nodup
  ends : ∀ e ∈ (s.decomposition d).edges, ∀ side,
    ∃ n ∈ (s.decomposition d).nodes, (s.edge e).endpoint side = some n
  once : ∀ n ∈ (s.decomposition d).nodes, ∀ side, ((s.node n).edgesAt side).Nodup
  listed : ∀ n ∈ (s.decomposition d).nodes, ∀ side e,
    e ∈ (s.node n).edgesAt side ↔
      e ∈ (s.decomposition d).edges ∧ (s.edge e).endpoint side = some n

/-- No decomposition has a node twice, and the input and the output condition of a decomposition
are its nodes of these kinds. -/
structure Framed (s : Specification) : Prop where
  stored : ∀ d, ∀ n ∈ (s.decomposition d).nodes, n.index < s.nodes.size
  nodup : ∀ d, (s.decomposition d).nodes.Nodup
  terminal : ∀ d x n, (s.decomposition d).terminal x = some n ↔
    n ∈ (s.decomposition d).nodes ∧ (s.node n).kind = x.kind

/-- All edge lists agree, no node is listed twice, and the input and the output condition of a
decomposition are the nodes of these kinds. -/
structure WellFormed (s : Specification) : Prop where
  agree : ∀ d, EdgeListsAgree s d
  nodup : ∀ d, (s.decomposition d).nodes.Nodup
  apart : ∀ {c d n}, n ∈ (s.decomposition c).nodes → n ∈ (s.decomposition d).nodes → c = d
  terminal : ∀ d x n, (s.decomposition d).terminal x = some n ↔
    n ∈ (s.decomposition d).nodes ∧ (s.node n).kind = x.kind

def Unlisted (s : Specification) (e : EdgeId) : Prop :=
  ∀ d, e ∉ (s.decomposition d).edges

namespace EdgeListsAgree

theorem exists_ends (agree : EdgeListsAgree s d) (he : e ∈ (s.decomposition d).edges) :
    ∃ a ∈ (s.decomposition d).nodes, ∃ b ∈ (s.decomposition d).nodes,
      (s.edge e).source = some a ∧ (s.edge e).target = some b := by
  obtain ⟨a, ha, source⟩ := agree.ends e he .source
  obtain ⟨b, hb, target⟩ := agree.ends e he .target
  exact ⟨a, ha, b, hb, source, target⟩

theorem edge_index_lt (agree : EdgeListsAgree s d) (he : e ∈ (s.decomposition d).edges) :
    e.index < s.edges.size := by
  obtain ⟨a, _, b, _, source, _⟩ := agree.exists_ends he
  exact edge_stored source

/-- A new edge is not listed yet. -/
theorem not_mem_edges_of_le (agree : EdgeListsAgree s d) (h : s.edges.size ≤ e.index) :
    e ∉ (s.decomposition d).edges := by
  intro he
  have := agree.edge_index_lt he
  omega

/-- A new node is not in the decomposition yet. -/
theorem not_mem_of_le (agree : EdgeListsAgree s d) (h : s.nodes.size ≤ n.index) :
    n ∉ (s.decomposition d).nodes := by
  intro hn
  have := agree.stored n hn
  omega

end EdgeListsAgree

namespace WellFormed

theorem node_stored (wf : s.WellFormed) (h : n ∈ (s.decomposition d).nodes) :
    n.index < s.nodes.size :=
  (wf.agree d).stored n h

theorem edge_mem (wf : s.WellFormed) {side : Side} (h : n ∈ (s.decomposition d).nodes)
    (he : e ∈ (s.node n).edgesAt side) :
    e ∈ (s.decomposition d).edges ∧ (s.edge e).endpoint side = some n :=
  ((wf.agree d).listed n h side e).mp he

theorem exists_ends (wf : s.WellFormed) (he : e ∈ (s.decomposition d).edges) :
    ∃ a ∈ (s.decomposition d).nodes, ∃ b ∈ (s.decomposition d).nodes,
      (s.edge e).source = some a ∧ (s.edge e).target = some b :=
  (wf.agree d).exists_ends he

theorem edge_index_lt (wf : s.WellFormed) (he : e ∈ (s.decomposition d).edges) :
    e.index < s.edges.size :=
  (wf.agree d).edge_index_lt he

/-- An edge is listed by one decomposition only. -/
theorem edges_apart (wf : s.WellFormed) (hc : e ∈ (s.decomposition c).edges)
    (hd : e ∈ (s.decomposition d).edges) : c = d := by
  obtain ⟨a, ha, source⟩ := (wf.agree c).ends e hc .source
  obtain ⟨b, hb, same⟩ := (wf.agree d).ends e hd .source
  rw [source] at same
  cases same
  exact wf.apart ha hb

/-- The input condition of a net is not its output condition. -/
theorem terminal_inj (wf : s.WellFormed) {x y : Terminal}
    (here : (s.decomposition d).terminal x = some n)
    (there : (s.decomposition d).terminal y = some n) : x = y :=
  Terminal.kind_inj.mp
    (((wf.terminal d x n).mp here).2.symm.trans ((wf.terminal d y n).mp there).2)

theorem framed (wf : s.WellFormed) : s.Framed where
  stored d := (wf.agree d).stored
  nodup := wf.nodup
  terminal := wf.terminal

/-- A new edge is not listed yet. -/
theorem unlisted_of_le (wf : s.WellFormed) (h : s.edges.size ≤ e.index) : s.Unlisted e :=
  fun d => (wf.agree d).not_mem_edges_of_le h

/-- A new node is in no decomposition yet. -/
theorem not_mem_of_le (wf : s.WellFormed) (h : s.nodes.size ≤ n.index) :
    n ∉ (s.decomposition d).nodes :=
  (wf.agree d).not_mem_of_le h

end WellFormed

/-! ### Changes elsewhere -/

theorem Framed.congr (h : s.Framed) (size : s.nodes.size ≤ t.nodes.size)
    (nodes : ∀ d, (t.decomposition d).nodes = (s.decomposition d).nodes)
    (terminal : ∀ d x, (t.decomposition d).terminal x = (s.decomposition d).terminal x)
    (kind : ∀ n (x : Terminal), (t.node n).kind = x.kind ↔ (s.node n).kind = x.kind) :
    t.Framed where
  stored d n hn := by
    rw [nodes] at hn
    exact Nat.lt_of_lt_of_le (h.stored d n hn) size
  nodup d := by
    rw [nodes]
    exact h.nodup d
  terminal d x n := by
    rw [terminal, nodes, kind]
    exact h.terminal d x n

theorem EdgeListsAgree.congr (h : EdgeListsAgree s d)
    (nodes : (t.decomposition d).nodes = (s.decomposition d).nodes)
    (edges : (t.decomposition d).edges = (s.decomposition d).edges)
    (size : s.nodes.size ≤ t.nodes.size)
    (endpoint : ∀ e ∈ (s.decomposition d).edges, ∀ side,
      (t.edge e).endpoint side = (s.edge e).endpoint side)
    (edgesAt : ∀ n ∈ (s.decomposition d).nodes, ∀ side,
      (t.node n).edgesAt side = (s.node n).edgesAt side) : EdgeListsAgree t d where
  stored n hn := by
    rw [nodes] at hn
    exact Nat.lt_of_lt_of_le (h.stored n hn) size
  distinct := by
    rw [edges]
    exact h.distinct
  ends e he side := by
    rw [edges] at he
    rw [nodes, endpoint e he side]
    exact h.ends e he side
  once n hn side := by
    rw [nodes] at hn
    rw [edgesAt n hn side]
    exact h.once n hn side
  listed n hn side e := by
    rw [nodes] at hn
    rw [edgesAt n hn side, edges, h.listed n hn side e]
    constructor
    · intro both
      rw [endpoint e both.1]
      exact both
    · intro both
      rw [endpoint e both.1] at both
      exact both

theorem endpoint_of_skeleton (h : t.skeleton = s.skeleton) (e : EdgeId) (side : Side) :
    (t.edge e).endpoint side = (s.edge e).endpoint side := by
  cases side
  · exact source_of_skeleton h e
  · exact target_of_skeleton h e

theorem edgesAt_of_skeleton (h : t.skeleton = s.skeleton) (n : NodeId) (side : Side) :
    (t.node n).edgesAt side = (s.node n).edgesAt side := by
  cases side
  · exact outgoing_of_skeleton h n
  · exact incoming_of_skeleton h n

theorem terminal_of_skeleton (h : t.skeleton = s.skeleton) (d : DecompositionId) (x : Terminal) :
    (t.decomposition d).terminal x = (s.decomposition d).terminal x := by
  have same := congrArg (·.terminal x) (decomposition_of_skeleton h d)
  cases x <;> exact same

theorem kind_eq_terminal_of_skeleton (h : t.skeleton = s.skeleton) (n : NodeId) (x : Terminal) :
    (t.node n).kind = x.kind ↔ (s.node n).kind = x.kind := by
  rw [← Kind.skeleton_eq_terminal, kind_of_skeleton h, Kind.skeleton_eq_terminal]

theorem EdgeListsAgree.of_skeleton (agree : EdgeListsAgree s d) (h : t.skeleton = s.skeleton) :
    EdgeListsAgree t d :=
  agree.congr (nodes_of_skeleton h d) (edges_of_skeleton h d)
    (Nat.le_of_eq (nodes_size_of_skeleton h).symm) (fun e _ => endpoint_of_skeleton h e)
    (fun n _ => edgesAt_of_skeleton h n)

/-- Data does not matter for the shape. -/
theorem WellFormed.of_skeleton (wf : s.WellFormed) (h : t.skeleton = s.skeleton) :
    t.WellFormed where
  agree d := (wf.agree d).of_skeleton h
  nodup d := by
    rw [nodes_of_skeleton h]
    exact wf.nodup d
  apart hc hd := by
    rw [nodes_of_skeleton h] at hc hd
    exact wf.apart hc hd
  terminal d x n := by
    rw [terminal_of_skeleton h, nodes_of_skeleton h, kind_eq_terminal_of_skeleton h]
    exact wf.terminal d x n

end Specification

end ProcessNets
