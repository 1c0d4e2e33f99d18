import ProcessNets.Proofs.Net.Growing
import ProcessNets.Proofs.Net.Listing

/-!
# Frames

What a change leaves alone. `Extends` collects what no change takes back: nodes stay in their nets
with their ids and sorts, and tasks go on to run what they run. `SameNodes` and `SameEdges` say
that one decomposition keeps its nodes or its edges.
-/

namespace ProcessNets

open Net

namespace Net

/-- The kind without the data of a task. -/
def Kind.sort : Kind → Kind
  | .task _ => .task {}
  | kind => kind

/-- The node without its edges. -/
def Node.bare (node : Node) : Node :=
  { node with incoming := [], outgoing := [] }

/-- The decomposition without its edges. -/
def Decomposition.bare (net : Decomposition) : Decomposition :=
  { net with edges := [] }

theorem Kind.sort_skeleton (kind : Kind) : kind.skeleton.sort = kind.sort := by
  cases kind <;> rfl

theorem Kind.sort_modifyTask (kind : Kind) (g : Task → Task) :
    (kind.modifyTask g).sort = kind.sort := by
  cases kind <;> rfl

theorem Kind.isCondition_sort (kind : Kind) : kind.sort.isCondition = kind.isCondition := by
  cases kind <;> rfl

theorem Kind.isCondition_of_sort {x y : Kind} (h : x.sort = y.sort) :
    x.isCondition = y.isCondition := by
  rw [← Kind.isCondition_sort, h, Kind.isCondition_sort]

namespace Kind

def starting : Kind → List Mapping
  | .task t => t.starting
  | _ => []

def completed : Kind → List Mapping
  | .task t => t.completed
  | _ => []

end Kind

end Net

namespace Specification

variable {s t u : Specification} {n m a b : NodeId} {e f : EdgeId} {c d : DecompositionId}

/-! ### Mappings -/

def starting (s : Specification) (n : NodeId) : List Mapping :=
  (s.node n).kind.starting

def completed (s : Specification) (n : NodeId) : List Mapping :=
  (s.node n).kind.completed

theorem kind_modifyTask {g : Task → Task} (n m : NodeId) :
    ((s.modifyTask n g).node m).kind = (s.node m).kind ∨ m = n ∧ ∃ task,
      (s.node m).kind = .task task ∧ ((s.modifyTask n g).node m).kind = .task (g task) := by
  unfold modifyTask
  rw [node_modifyNode]
  split
  · rename_i here
    cases kind : (s.node m).kind with
    | task task => exact .inr ⟨here.1, task, rfl, rfl⟩
    | _ => exact .inl rfl
  · exact .inl rfl

/-- A node writes at least what it wrote if its task does. -/
theorem completed_modifyTask {g : Task → Task} (grows : ∀ t, t.completed ⊆ (g t).completed)
    (m : NodeId) : s.completed m ⊆ (s.modifyTask n g).completed m := by
  unfold completed
  rcases kind_modifyTask (s := s) (g := g) n m with same | ⟨_, task, before, after⟩
  · rw [same]
    exact List.Subset.refl _
  · rw [before, after]
    exact grows task

/-! ### What only grows -/

/-- Everything of `s` is still there in `t`. -/
structure Extends (s t : Specification) : Prop where
  nodes_size : s.nodes.size ≤ t.nodes.size
  edges_size : s.edges.size ≤ t.edges.size
  decompositions_size : s.decompositions.size ≤ t.decompositions.size
  nodes : ∀ d, (s.decomposition d).nodes <+: (t.decomposition d).nodes
  terminal : ∀ {d x n}, (s.decomposition d).terminal x = some n →
    (t.decomposition d).terminal x = some n
  id : ∀ {n : NodeId}, n.index < s.nodes.size → (t.node n).id = (s.node n).id
  sort : ∀ {n : NodeId}, n.index < s.nodes.size → (t.node n).kind.sort = (s.node n).kind.sort
  runs : ∀ {n d}, s.runs? n = some d → t.runs? n = some d
  decomposition_id : ∀ {d : DecompositionId}, d.index < s.decompositions.size →
    (t.decomposition d).id = (s.decomposition d).id
  facts : ∀ {d : DecompositionId}, d.index < s.decompositions.size →
    (t.decomposition d).facts = (s.decomposition d).facts
  isRoot : ∀ {d : DecompositionId}, d.index < s.decompositions.size →
    (t.decomposition d).isRoot = (s.decomposition d).isRoot
  completed : ∀ n, s.completed n ⊆ t.completed n

namespace Extends

theorem refl (s : Specification) : s.Extends s :=
  ⟨Nat.le_refl _, Nat.le_refl _, Nat.le_refl _, fun _ => List.prefix_rfl, fun h => h, fun _ => rfl,
    fun _ => rfl, fun h => h, fun _ => rfl, fun _ => rfl, fun _ => rfl, fun _ => List.Subset.refl _⟩

theorem trans (h : s.Extends t) (h' : t.Extends u) : s.Extends u where
  nodes_size := Nat.le_trans h.nodes_size h'.nodes_size
  edges_size := Nat.le_trans h.edges_size h'.edges_size
  decompositions_size := Nat.le_trans h.decompositions_size h'.decompositions_size
  nodes d := (h.nodes d).trans (h'.nodes d)
  terminal hn := h'.terminal (h.terminal hn)
  id hn := (h'.id (Nat.lt_of_lt_of_le hn h.nodes_size)).trans (h.id hn)
  sort hn := (h'.sort (Nat.lt_of_lt_of_le hn h.nodes_size)).trans (h.sort hn)
  runs hn := h'.runs (h.runs hn)
  decomposition_id hd := by
    have later := h'.decomposition_id (Nat.lt_of_lt_of_le hd h.decompositions_size)
    exact later.trans (h.decomposition_id hd)
  facts hd := (h'.facts (Nat.lt_of_lt_of_le hd h.decompositions_size)).trans (h.facts hd)
  isRoot hd := (h'.isRoot (Nat.lt_of_lt_of_le hd h.decompositions_size)).trans (h.isRoot hd)
  completed n := List.Subset.trans (h.completed n) (h'.completed n)

theorem mem_nodes (h : s.Extends t) (hn : n ∈ (s.decomposition d).nodes) :
    n ∈ (t.decomposition d).nodes :=
  (h.nodes d).subset hn

theorem isCondition (h : s.Extends t) (hn : n.index < s.nodes.size) :
    (t.node n).kind.isCondition = (s.node n).kind.isCondition :=
  Kind.isCondition_of_sort (h.sort hn)

theorem of_skeleton (h : t.skeleton = s.skeleton) (completed : ∀ n, s.completed n ⊆ t.completed n) :
    s.Extends t where
  nodes_size := Nat.le_of_eq (nodes_size_of_skeleton h).symm
  edges_size := Nat.le_of_eq (edges_size_of_skeleton h).symm
  decompositions_size := Nat.le_of_eq (decompositions_size_of_skeleton h).symm
  nodes d := nodes_of_skeleton h d ▸ List.prefix_rfl
  terminal hn := by
    rw [terminal_of_skeleton h]
    exact hn
  id _ := id_of_skeleton h _
  sort _ := by
    rw [← Kind.sort_skeleton, kind_of_skeleton h, Kind.sort_skeleton]
  runs hn := by
    rw [runs?_of_skeleton h]
    exact hn
  decomposition_id _ := decomposition_id_of_skeleton h _
  facts {d} _ := by
    have same := congrArg Decomposition.facts (decomposition_of_skeleton h d)
    exact same
  isRoot {d} _ := by
    have same := congrArg Decomposition.isRoot (decomposition_of_skeleton h d)
    exact same
  completed := completed

end Extends

theorem isTask_iff : (s.task? n).isSome ↔ (s.node n).kind.isCondition = false := by
  unfold task?
  cases (s.node n).kind <;> simp [Kind.task?, Kind.isCondition]

/-- The input and the output condition of a net are not tasks. -/
theorem WellFormed.terminal_ne_of_task (wf : s.WellFormed) (task : (s.task? n).isSome)
    (x : Terminal) : (s.decomposition d).terminal x ≠ some n := by
  intro isTerminal
  rw [isTask_iff, ((wf.terminal d x n).mp isTerminal).2] at task
  cases x <;> cases task

theorem Extends.isTask (h : s.Extends t) (task : (s.task? n).isSome) : (t.task? n).isSome := by
  obtain ⟨found, isTask⟩ := Option.isSome_iff_exists.mp task
  rw [isTask_iff] at task ⊢
  rwa [h.isCondition (task_stored isTask)]

/-! ### What one decomposition keeps -/

/-- The decomposition has the same nodes, and the same input and output condition. -/
structure SameNodes (d : DecompositionId) (s t : Specification) : Prop where
  nodes : (t.decomposition d).nodes = (s.decomposition d).nodes
  terminal : ∀ x, (t.decomposition d).terminal x = (s.decomposition d).terminal x

/-- The decomposition has the same edges, and they have the same ends. -/
structure SameEdges (d : DecompositionId) (s t : Specification) : Prop where
  edges : (t.decomposition d).edges = (s.decomposition d).edges
  endpoint : ∀ e ∈ (s.decomposition d).edges, ∀ side,
    (t.edge e).endpoint side = (s.edge e).endpoint side

theorem SameNodes.refl : SameNodes d s s :=
  ⟨rfl, fun _ => rfl⟩

theorem SameNodes.trans (h : SameNodes d s t) (h' : SameNodes d t u) : SameNodes d s u :=
  ⟨h'.nodes.trans h.nodes, fun x => (h'.terminal x).trans (h.terminal x)⟩

theorem SameNodes.of_skeleton (h : t.skeleton = s.skeleton) : SameNodes d s t :=
  ⟨nodes_of_skeleton h d, terminal_of_skeleton h d⟩

theorem SameEdges.refl : SameEdges d s s :=
  ⟨rfl, fun _ _ _ => rfl⟩

theorem SameEdges.trans (h : SameEdges d s t) (h' : SameEdges d t u) : SameEdges d s u := by
  refine ⟨h'.edges.trans h.edges, fun e he side => ?_⟩
  rw [h'.endpoint e (by rwa [h.edges]), h.endpoint e he]

theorem SameEdges.of_skeleton (h : t.skeleton = s.skeleton) : SameEdges d s t :=
  ⟨edges_of_skeleton h d, fun e _ => endpoint_of_skeleton h e⟩

/-! ### Growing -/

theorem decomposition_addDecomposition_of_lt {x : Decomposition}
    (h : d.index < s.decompositions.size) :
    (s.addDecomposition x).decomposition d = s.decomposition d := by
  rw [decomposition_addDecomposition, if_neg (by omega)]

theorem decomposition_addDecomposition_new {x : Decomposition} :
    (s.addDecomposition x).decomposition ⟨s.decompositions.size⟩ = x := by
  rw [decomposition_addDecomposition, if_pos rfl]

section
variable {x : Decomposition} (nodes : x.nodes = []) (edges : x.edges = [])
  (terminal : ∀ y, x.terminal y = none)

include nodes terminal in
theorem SameNodes.addDecomposition : SameNodes d s (s.addDecomposition x) := by
  by_cases h : d.index = s.decompositions.size
  · have blank : s.decomposition d = .blank := decomposition_eq_blank (Nat.le_of_eq h.symm)
    constructor
    · rw [decomposition_addDecomposition, if_pos h, blank, nodes]
      rfl
    · intro y
      rw [decomposition_addDecomposition, if_pos h, blank, terminal]
      cases y <;> rfl
  · constructor
    · rw [decomposition_addDecomposition, if_neg h]
    · intro y
      rw [decomposition_addDecomposition, if_neg h]

include edges in
theorem SameEdges.addDecomposition : SameEdges d s (s.addDecomposition x) := by
  refine ⟨?_, fun _ _ _ => rfl⟩
  by_cases h : d.index = s.decompositions.size
  · have blank : s.decomposition d = .blank := decomposition_eq_blank (Nat.le_of_eq h.symm)
    rw [decomposition_addDecomposition, if_pos h, blank, edges]
    rfl
  · rw [decomposition_addDecomposition, if_neg h]

include nodes terminal in
theorem Extends.addDecomposition : s.Extends (s.addDecomposition x) where
  nodes_size := Nat.le_refl _
  edges_size := Nat.le_refl _
  decompositions_size := by
    rw [decompositions_size_addDecomposition]
    exact Nat.le_succ _
  nodes _ := (SameNodes.addDecomposition nodes terminal).nodes ▸ List.prefix_rfl
  terminal hn := by
    rw [(SameNodes.addDecomposition nodes terminal).terminal]
    exact hn
  id _ := rfl
  sort _ := rfl
  runs hn := hn
  decomposition_id hd := by rw [decomposition_addDecomposition_of_lt hd]
  facts hd := by rw [decomposition_addDecomposition_of_lt hd]
  isRoot hd := by rw [decomposition_addDecomposition_of_lt hd]
  completed _ := List.Subset.refl _

end

theorem SameNodes.addNode {x : Node} (h : c ≠ d) : SameNodes c s (s.addNode d x) := by
  constructor
  · rw [decomposition_addNode_of_ne x h]
  · intro y
    rw [decomposition_addNode_of_ne x h]

theorem SameEdges.addNode {x : Node} : SameEdges c s (s.addNode d x) :=
  ⟨edges_addNode x, fun _ _ _ => rfl⟩

theorem runs?_eq_none (h : s.nodes.size ≤ n.index) : s.runs? n = none := by
  unfold runs?
  rw [node_eq_blank h]
  rfl

theorem runs?_stored (h : s.runs? n = some d) : n.index < s.nodes.size := by
  refine Nat.lt_of_not_le fun beyond => ?_
  rw [runs?_eq_none beyond] at h
  cases h

theorem Extends.addNode (x : Node) : s.Extends (s.addNode d x) where
  nodes_size := by
    rw [nodes_size_addNode]
    exact Nat.le_succ _
  edges_size := Nat.le_refl _
  decompositions_size := Nat.le_of_eq (decompositions_size_addNode x).symm
  nodes _ := by
    rw [decomposition_addNode]
    split
    · exact List.prefix_append _ _
    · exact List.prefix_rfl
  terminal hn := by
    rw [terminal_addNode]
    exact hn
  id hn := by rw [node_addNode_of_lt x hn]
  sort hn := by rw [node_addNode_of_lt x hn]
  runs hn := by
    unfold runs?
    rw [node_addNode_of_lt x (runs?_stored hn)]
    exact hn
  decomposition_id _ := by
    rw [decomposition_addNode]
    split <;> rfl
  facts _ := by
    rw [decomposition_addNode]
    split <;> rfl
  isRoot _ := by
    rw [decomposition_addNode]
    split <;> rfl
  completed n := by
    unfold Specification.completed
    rcases Nat.lt_or_ge n.index s.nodes.size with old | new
    · rw [node_addNode_of_lt x old]
      exact List.Subset.refl _
    · rw [node_eq_blank new]
      exact List.nil_subset _

section
variable {x : Terminal} {id name : String} (h : d.index < s.decompositions.size)
include h

theorem SameNodes.addTerminal (other : c ≠ d) : SameNodes c s (s.addTerminal d x id name) := by
  constructor
  · rw [decomposition_addTerminal x id name h, if_neg other]
  · intro y
    rw [decomposition_addTerminal x id name h, if_neg other]

theorem SameEdges.addTerminal : SameEdges c s (s.addTerminal d x id name) :=
  ⟨edges_addTerminal x id name h, fun _ _ _ => rfl⟩

theorem Extends.addTerminal (missing : (s.decomposition d).terminal x = none) :
    s.Extends (s.addTerminal d x id name) where
  nodes_size := (Extends.addNode (d := d) { id, name, kind := x.kind }).nodes_size
  edges_size := Nat.le_refl _
  decompositions_size := by simp [Specification.addTerminal]
  nodes c := by
    rw [nodes_addTerminal x id name h]
    exact (Extends.addNode _).nodes c
  terminal {c y n} hn := by
    rw [terminal_addTerminal x y id name h, if_neg]
    · exact hn
    · rintro ⟨rfl, rfl⟩
      rw [missing] at hn
      cases hn
  id hn := (Extends.addNode (d := d) { id, name, kind := x.kind }).id hn
  sort hn := (Extends.addNode (d := d) { id, name, kind := x.kind }).sort hn
  runs hn := (Extends.addNode (d := d) { id, name, kind := x.kind }).runs hn
  decomposition_id {c} hc := by
    rw [decomposition_addTerminal x id name h]
    split
    · rename_i same
      rw [← (Extends.addNode (d := d) { id, name, kind := x.kind }).decomposition_id hc, same]
      cases x <;> rfl
    · rfl
  facts {c} hc := by
    rw [decomposition_addTerminal x id name h]
    split
    · rename_i same
      rw [← (Extends.addNode (d := d) { id, name, kind := x.kind }).facts hc, same]
      cases x <;> rfl
    · rfl
  isRoot {c} hc := by
    rw [decomposition_addTerminal x id name h]
    split
    · rename_i same
      rw [← (Extends.addNode (d := d) { id, name, kind := x.kind }).isRoot hc, same]
      cases x <;> rfl
    · rfl
  completed := (Extends.addNode (d := d) { id, name, kind := x.kind }).completed

end

/-! ### Running decompositions -/

/-- The specification in which a task runs a decomposition. -/
def setRuns (s : Specification) (n : NodeId) (d : DecompositionId) : Specification :=
  s.modifyTask n fun task => { task with decomposesTo := some d }

theorem node_setRuns : (s.setRuns n d).node m =
    if m = n ∧ n.index < s.nodes.size then
      { s.node m with kind := (s.node m).kind.modifyTask fun task =>
          { task with decomposesTo := some d } }
    else s.node m :=
  node_modifyNode _

theorem edgesAt_setRuns (side : Side) :
    ((s.setRuns n d).node m).edgesAt side = (s.node m).edgesAt side := by
  rw [node_setRuns]
  split
  · cases side <;> rfl
  · rfl

theorem id_setRuns : ((s.setRuns n d).node m).id = (s.node m).id := by
  rw [node_setRuns]
  split <;> rfl

theorem sort_setRuns : ((s.setRuns n d).node m).kind.sort = (s.node m).kind.sort := by
  rw [node_setRuns]
  split
  · exact Kind.sort_modifyTask ..
  · rfl

theorem runs?_setRuns_of_ne (h : m ≠ n) : (s.setRuns n d).runs? m = s.runs? m := by
  unfold runs?
  rw [node_setRuns, if_neg fun both => h both.1]

theorem runs?_setRuns_self (h : (s.task? n).isSome) : (s.setRuns n d).runs? n = some d := by
  obtain ⟨task, found⟩ := Option.isSome_iff_exists.mp h
  have stored := task_stored found
  unfold runs?
  rw [node_setRuns, if_pos ⟨rfl, stored⟩]
  unfold task? at found
  cases kind : (s.node n).kind <;> rw [kind] at found <;> cases found
  rfl

@[simp] theorem decomposition_setRuns : (s.setRuns n d).decomposition c = s.decomposition c := rfl

@[simp] theorem edge_setRuns : (s.setRuns n d).edge e = s.edge e := rfl

@[simp] theorem nodes_size_setRuns : (s.setRuns n d).nodes.size = s.nodes.size :=
  nodes_size_modifyNode _

@[simp] theorem edges_size_setRuns : (s.setRuns n d).edges.size = s.edges.size := rfl

@[simp] theorem decompositions_size_setRuns :
    (s.setRuns n d).decompositions.size = s.decompositions.size := rfl

theorem Kind.eq_terminal_of_sort {x y : Kind} (h : x.sort = y.sort) (terminal : Terminal) :
    x = terminal.kind ↔ y = terminal.kind := by
  cases terminal <;> cases x <;> cases y <;> simp [Terminal.kind, Kind.sort] at h ⊢

theorem Kind.eq_condition_of_sort {x y : Kind} (h : x.sort = y.sort) :
    x = .condition ↔ y = .condition := by
  cases x <;> cases y <;> simp [Kind.sort] at h ⊢

theorem WellFormed.setRuns (wf : s.WellFormed) : (s.setRuns n d).WellFormed where
  agree c := (wf.agree c).congr rfl rfl (Nat.le_of_eq nodes_size_setRuns.symm) (fun _ _ _ => rfl)
    (fun _ _ => edgesAt_setRuns)
  nodup := wf.nodup
  apart := wf.apart
  terminal c x m := by
    rw [Kind.eq_terminal_of_sort sort_setRuns]
    exact wf.terminal c x m

theorem Extends.setRuns (idle : s.runs? n = none) : s.Extends (s.setRuns n d) where
  nodes_size := Nat.le_of_eq nodes_size_setRuns.symm
  edges_size := Nat.le_refl _
  decompositions_size := Nat.le_refl _
  nodes _ := List.prefix_rfl
  terminal hn := hn
  id _ := id_setRuns
  sort _ := sort_setRuns
  runs {m c} h := by
    rw [runs?_setRuns_of_ne]
    · exact h
    · rintro rfl
      rw [idle] at h
      cases h
  decomposition_id _ := rfl
  facts _ := rfl
  isRoot _ := rfl
  completed := completed_modifyTask fun _ => List.Subset.refl _

/-! ### Listing -/

theorem bare_listEdge : ((s.listEdge d e a b).node n).bare = (s.node n).bare := by
  unfold listEdge
  rw [node_modifyNode, node_modifyNode]
  split <;> split <;> rfl

theorem bare_unlistEdge : ((s.unlistEdge d e a b).node n).bare = (s.node n).bare := by
  unfold unlistEdge
  rw [node_modifyNode, node_modifyNode]
  split <;> split <;> rfl

theorem bare_addEdge (x : Edge) : ((s.addEdge d x a b).node n).bare = (s.node n).bare :=
  bare_listEdge (s := { s with edges := s.edges.push x })

theorem bare_redirect (side : Side) :
    ((s.redirect d e a b side m).node n).bare = (s.node n).bare := by
  unfold redirect
  rw [bare_listEdge, node_modifyEdge, bare_unlistEdge]

theorem decomposition_bare_listEdge :
    ((s.listEdge d e a b).decomposition c).bare = (s.decomposition c).bare := by
  rw [decomposition_listEdge]
  split <;> rfl

theorem decomposition_bare_unlistEdge :
    ((s.unlistEdge d e a b).decomposition c).bare = (s.decomposition c).bare := by
  rw [decomposition_unlistEdge]
  split <;> rfl

theorem decomposition_bare_redirect (side : Side) :
    ((s.redirect d e a b side m).decomposition c).bare = (s.decomposition c).bare := by
  unfold redirect
  rw [decomposition_bare_listEdge, decomposition_modifyEdge, decomposition_bare_unlistEdge]

theorem id_of_bare (h : (t.node n).bare = (s.node n).bare) : (t.node n).id = (s.node n).id := by
  have same := congrArg Node.id h
  exact same

theorem kind_of_bare (h : (t.node n).bare = (s.node n).bare) :
    (t.node n).kind = (s.node n).kind := by
  have same := congrArg Node.kind h
  exact same

theorem task?_of_bare (h : (t.node n).bare = (s.node n).bare) : t.task? n = s.task? n := by
  unfold task?
  rw [kind_of_bare h]

theorem runs?_of_bare (h : (t.node n).bare = (s.node n).bare) : t.runs? n = s.runs? n := by
  unfold runs?
  rw [kind_of_bare h]

theorem labels_of_bare (h : (t.decomposition d).bare = (s.decomposition d).bare) :
    (t.decomposition d).id = (s.decomposition d).id ∧
      (t.decomposition d).facts = (s.decomposition d).facts := by
  have id := congrArg Decomposition.id h
  have facts := congrArg Decomposition.facts h
  exact ⟨id, facts⟩

/-- A change of edge lists takes nothing back. -/
theorem Extends.of_bare (nodes_size : t.nodes.size = s.nodes.size)
    (edges_size : s.edges.size ≤ t.edges.size)
    (decompositions_size : t.decompositions.size = s.decompositions.size)
    (node : ∀ n, (t.node n).bare = (s.node n).bare)
    (decomposition : ∀ d, (t.decomposition d).bare = (s.decomposition d).bare) : s.Extends t := by
  have nodes : ∀ d, (t.decomposition d).nodes = (s.decomposition d).nodes := by
    intro d
    have same := congrArg Decomposition.nodes (decomposition d)
    exact same
  have terminal : ∀ d x, (t.decomposition d).terminal x = (s.decomposition d).terminal x := by
    intro d x
    have same := congrArg (·.terminal x) (decomposition d)
    cases x <;> exact same
  constructor
  · exact Nat.le_of_eq nodes_size.symm
  · exact edges_size
  · exact Nat.le_of_eq decompositions_size.symm
  · exact fun d => nodes d ▸ List.prefix_rfl
  · intro d x n hn
    rw [terminal]
    exact hn
  · exact fun _ => id_of_bare (node _)
  · intro n _
    rw [kind_of_bare (node n)]
  · intro n d h
    rw [runs?_of_bare (node n)]
    exact h
  · exact fun _ => (labels_of_bare (decomposition _)).1
  · exact fun _ => (labels_of_bare (decomposition _)).2
  · intro d _
    have same := congrArg Decomposition.isRoot (decomposition d)
    exact same
  · intro n
    unfold Specification.completed
    rw [kind_of_bare (node n)]
    exact List.Subset.refl _

theorem Extends.addEdge (x : Edge) : s.Extends (s.addEdge d x a b) := by
  apply Extends.of_bare
  · exact nodes_size_addEdge x
  · rw [edges_size_addEdge]
    exact Nat.le_succ _
  · exact decompositions_size_addEdge x
  · exact fun n => bare_addEdge x
  · exact fun c => decomposition_bare_listEdge (s := { s with edges := s.edges.push x })

theorem Extends.redirect (side : Side) : s.Extends (s.redirect d e a b side m) := by
  apply Extends.of_bare
  · exact nodes_size_redirect side
  · exact Nat.le_of_eq (edges_size_redirect side).symm
  · exact decompositions_size_redirect side
  · exact fun n => bare_redirect side
  · exact fun c => decomposition_bare_redirect side

theorem SameNodes.addEdge (x : Edge) : SameNodes c s (s.addEdge d x a b) :=
  ⟨nodes_listEdge (s := { s with edges := s.edges.push x }),
    terminal_listEdge (s := { s with edges := s.edges.push x })⟩

theorem SameNodes.redirect (side : Side) : SameNodes c s (s.redirect d e a b side m) :=
  ⟨nodes_redirect side, terminal_redirect side⟩

theorem SameEdges.addEdge (wf : s.WellFormed) (x : Edge) (h : c ≠ d) :
    SameEdges c s (s.addEdge d x a b) := by
  constructor
  · rw [decomposition_addEdge, if_neg fun both => h both.1]
  · intro f hf side
    rw [(wf.agree c).edge_addEdge_of_mem x hf]

theorem SameEdges.redirect (wf : s.WellFormed) (he : e ∈ (s.decomposition d).edges) (side : Side)
    (h : c ≠ d) : SameEdges c s (s.redirect d e a b side m) := by
  constructor
  · rw [decomposition_redirect_of_ne side h]
  · intro f hf x
    rw [endpoint_redirect side x (wf.edge_index_lt he), if_neg]
    rintro ⟨rfl, _⟩
    exact h (wf.edges_apart hf he)

end Specification

end ProcessNets
