import ProcessNets.Proofs.Net.Frames

/-!
# Details of nets

Beside its shape, a net has details that steer control flow: the decorators, timers and
cancellation sets of its tasks, and all that its edges carry. `DataOnly` says in which
decompositions they may have changed while the shape stayed, and `SameDetails` that one
decomposition keeps them.
-/

namespace ProcessNets

open Net

namespace Net

/-- The task with nothing but what steers control flow. -/
def Task.control (task : Task) : Task :=
  { split := task.split, join := task.join, timer := task.timer, cancels := task.cancels }

def Kind.control : Kind → Kind
  | .task t => .task t.control
  | kind => kind

/-- The node with its edges and what steers control flow. -/
def Node.control (node : Node) : Node :=
  { node with kind := node.kind.control }

theorem Kind.control_modifyTask {g : Task → Task} (keeps : ∀ t, (g t).control = t.control)
    (kind : Kind) : (kind.modifyTask g).control = kind.control := by
  cases kind with
  | task t =>
    show Kind.task (g t).control = _
    rw [keeps]
    rfl
  | _ => rfl

end Net

namespace Specification

variable {s t u : Specification} {n m a b : NodeId} {e : EdgeId} {c d : DecompositionId}
  {inside inside' : DecompositionId → Prop}

/-! ### Changed tasks -/

theorem task?_modifyTask_self {g : Task → Task} {task : Task} (h : s.task? n = some task) :
    (s.modifyTask n g).task? n = some (g task) := by
  have stored := task_stored h
  unfold task? at h ⊢
  unfold modifyTask
  rw [node_modifyNode_self _ stored]
  cases kind : (s.node n).kind <;> rw [kind] at h <;> cases h
  rfl

theorem task?_modifyTask {g : Task → Task} :
    (s.modifyTask n g).task? m = if m = n then (s.task? m).map g else s.task? m := by
  by_cases same : m = n
  · subst same
    rw [if_pos rfl]
    cases found : s.task? m with
    | some task => exact task?_modifyTask_self found
    | none =>
      unfold task? modifyTask at *
      rw [node_modifyNode]
      split
      · cases kind : (s.node m).kind <;> rw [kind] at found <;> cases found <;> rfl
      · exact found
  · unfold task? modifyTask
    rw [if_neg same, node_modifyNode_of_ne _ same]

def split? (s : Specification) (n : NodeId) : Option Decorator :=
  (s.task? n).map (·.split)

def timer? (s : Specification) (n : NodeId) : Option Timer :=
  (s.task? n).bind (·.timer)

theorem task?_control {kind : Kind} :
    kind.control.task? = kind.task?.map Task.control := by
  cases kind <;> rfl

theorem split?_of_control (h : (t.node m).control = (s.node n).control) :
    t.split? m = s.split? n := by
  have same := congrArg (fun node => node.kind.task?.map (·.split)) h
  simp only [Node.control, task?_control, Option.map_map] at same
  exact same

theorem timer?_of_control (h : (t.node m).control = (s.node n).control) :
    t.timer? m = s.timer? n := by
  have same := congrArg (fun node => node.kind.task?.bind (·.timer)) h
  simp only [Node.control, task?_control, Option.bind_map] at same
  exact same

theorem node_modifyTask_of_ne {g : Task → Task} (h : m ≠ n) :
    (s.modifyTask n g).node m = s.node m :=
  node_modifyNode_of_ne _ h

theorem subset_addMapping {mappings : List Mapping} {query : String} {v : Variable} :
    mappings ⊆ addMapping mappings query v := by
  unfold addMapping
  split
  · exact List.Subset.refl mappings
  · exact List.subset_append_left mappings _

/-! ### Changes of data -/

/-- The shape stays, and so do all details outside of the given decompositions. No task writes less
than before. -/
structure DataOnly (inside : DecompositionId → Prop) (s t : Specification) : Prop where
  skeleton : t.skeleton = s.skeleton
  node : ∀ n, (∀ d, inside d → n ∉ (s.decomposition d).nodes) →
    (t.node n).control = (s.node n).control
  edge : ∀ e, (∀ d, inside d → e ∉ (s.decomposition d).edges) → t.edge e = s.edge e
  completed : ∀ n, s.completed n ⊆ t.completed n

namespace DataOnly

theorem refl (s : Specification) : DataOnly inside s s :=
  ⟨rfl, fun _ _ => rfl, fun _ _ => rfl, fun _ => List.Subset.refl _⟩

theorem trans (h : DataOnly inside s t) (h' : DataOnly inside t u) : DataOnly inside s u where
  skeleton := h'.skeleton.trans h.skeleton
  node n free := by
    rw [h'.node n, h.node n free]
    intro d isInside
    rw [nodes_of_skeleton h.skeleton]
    exact free d isInside
  edge e free := by
    rw [h'.edge e, h.edge e free]
    intro d isInside
    rw [edges_of_skeleton h.skeleton]
    exact free d isInside
  completed n := List.Subset.trans (h.completed n) (h'.completed n)

theorem mono (h : DataOnly inside s t) (more : ∀ d, inside d → inside' d) :
    DataOnly inside' s t where
  skeleton := h.skeleton
  node n free := h.node n fun d isInside => free d (more d isInside)
  edge e free := h.edge e fun d isInside => free d (more d isInside)
  completed := h.completed

theorem of_modifyDecomposition {g : Decomposition → Decomposition}
    (keeps : ∀ x, (g x).skeleton = x.skeleton) :
    DataOnly inside s (s.modifyDecomposition d g) :=
  ⟨skeleton_modifyDecomposition keeps, fun _ _ => rfl, fun _ _ => rfl, fun _ => List.Subset.refl _⟩

theorem of_modifyList (which : VariableList) (g : List Variable → List Variable) :
    DataOnly inside s (s.modifyDecomposition d fun net => net.modifyList which g) := by
  apply of_modifyDecomposition
  intro net
  cases which <;> rfl

/-- A change of what a task reads, of who works on it, or of what it writes beside what it wrote. -/
theorem of_modifyTask {g : Task → Task} (runs : ∀ t, (g t).decomposesTo = t.decomposesTo)
    (control : ∀ t, (g t).control = t.control) (grows : ∀ t, t.completed ⊆ (g t).completed) :
    DataOnly inside s (s.modifyTask n g) where
  skeleton := skeleton_modifyTask runs
  node m _ := by
    unfold modifyTask
    rw [node_modifyNode]
    split
    · unfold Node.control
      dsimp only
      rw [Kind.control_modifyTask control]
    · rfl
  edge _ _ := rfl
  completed := completed_modifyTask grows

/-- A change of who works on a task, and of the like. -/
theorem of_detail {g : Task → Task} (runs : ∀ t, (g t).decomposesTo = t.decomposesTo)
    (control : ∀ t, (g t).control = t.control)
    (mappings : ∀ t, (g t).starting = t.starting ∧ (g t).completed = t.completed) :
    DataOnly inside s (s.modifyTask n g) :=
  of_modifyTask runs control fun t => by
    rw [(mappings t).2]
    exact List.Subset.refl _

/-- Mappings steer no control flow. -/
theorem of_mappings {g : Task → Task} (mappings : ∀ t, ∃ starting completed,
      t.completed ⊆ completed ∧ g t = { t with starting, completed }) :
    DataOnly inside s (s.modifyTask n g) := by
  refine of_modifyTask (fun t => ?_) (fun t => ?_) fun t => ?_
  · obtain ⟨starting, completed, _, same⟩ := mappings t
    rw [same]
  · obtain ⟨starting, completed, _, same⟩ := mappings t
    rw [same]
    rfl
  · obtain ⟨starting, completed, grows, same⟩ := mappings t
    rw [same]
    exact grows

/-- Any other change of a task of a decomposition where it is allowed. -/
theorem of_modifyTask_inside {g : Task → Task} (runs : ∀ t, (g t).decomposesTo = t.decomposesTo)
    (grows : ∀ t, t.completed ⊆ (g t).completed) (isInside : inside d)
    (hn : n ∈ (s.decomposition d).nodes) : DataOnly inside s (s.modifyTask n g) where
  skeleton := skeleton_modifyTask runs
  node m free := by
    have other : m ≠ n := by
      rintro rfl
      exact free d isInside hn
    rw [node_modifyTask_of_ne other]
  edge _ _ := rfl
  completed := completed_modifyTask grows

theorem grows (h : DataOnly inside s t) : s.Extends t :=
  .of_skeleton h.skeleton h.completed

end DataOnly

/-! ### What one decomposition keeps -/

/-- The nodes of the decomposition keep their edges and their control flow, and its edges keep
all that they carry. -/
structure SameDetails (d : DecompositionId) (s t : Specification) : Prop where
  node : ∀ n ∈ (s.decomposition d).nodes, (t.node n).control = (s.node n).control
  edge : ∀ e ∈ (s.decomposition d).edges, t.edge e = s.edge e

namespace SameDetails

theorem refl (s : Specification) : SameDetails d s s :=
  ⟨fun _ _ => rfl, fun _ _ => rfl⟩

theorem trans (nodes : SameNodes d s t) (edges : SameEdges d s t) (h : SameDetails d s t)
    (h' : SameDetails d t u) : SameDetails d s u where
  node n hn := by
    rw [h'.node n (by rwa [nodes.nodes]), h.node n hn]
  edge e he := by
    rw [h'.edge e (by rwa [edges.edges]), h.edge e he]

/-- Details of a decomposition do not change with data elsewhere. -/
theorem of_dataOnly (wf : s.WellFormed) (h : DataOnly inside s t) (outside : ¬inside d) :
    SameDetails d s t where
  node n hn := by
    apply h.node
    rintro c isInside hc
    cases wf.apart hn hc
    exact outside isInside
  edge e he := by
    apply h.edge
    rintro c isInside hc
    cases wf.edges_apart he hc
    exact outside isInside

theorem outgoing (h : SameDetails d s t) (hn : n ∈ (s.decomposition d).nodes) :
    (t.node n).outgoing = (s.node n).outgoing := by
  have same := congrArg Node.outgoing (h.node n hn)
  exact same

theorem split (h : SameDetails d s t) (hn : n ∈ (s.decomposition d).nodes) :
    t.split? n = s.split? n :=
  split?_of_control (h.node n hn)

theorem timer (h : SameDetails d s t) (hn : n ∈ (s.decomposition d).nodes) :
    t.timer? n = s.timer? n :=
  timer?_of_control (h.node n hn)

theorem isTask (h : SameDetails d s t) (hn : n ∈ (s.decomposition d).nodes) :
    (t.task? n).isSome = (s.task? n).isSome := by
  have same := congrArg (·.isSome) (h.split hn)
  simpa [split?] using same

end SameDetails

theorem node_listEdge_of_ne (ha : n ≠ a) (hb : n ≠ b) :
    (s.listEdge d e a b).node n = s.node n := by
  unfold listEdge
  rw [node_modifyNode_of_ne _ hb, node_modifyNode_of_ne _ ha, node_modifyDecomposition]

theorem node_unlistEdge_of_ne (ha : n ≠ a) (hb : n ≠ b) :
    (s.unlistEdge d e a b).node n = s.node n := by
  unfold unlistEdge
  rw [node_modifyNode_of_ne _ hb, node_modifyNode_of_ne _ ha, node_modifyDecomposition]

section
variable (wf : s.WellFormed)
include wf

theorem SameDetails.addNode {x : Node} : SameDetails c s (s.addNode d x) where
  node n hn := by rw [node_addNode_of_lt x (wf.node_stored hn)]
  edge _ _ := rfl

theorem SameDetails.addEdge (x : Edge) (ha : a ∈ (s.decomposition d).nodes)
    (hb : b ∈ (s.decomposition d).nodes) (h : c ≠ d) : SameDetails c s (s.addEdge d x a b) where
  node n hn := by
    have otherA : n ≠ a := fun same => h (wf.apart hn (same ▸ ha))
    have otherB : n ≠ b := fun same => h (wf.apart hn (same ▸ hb))
    rw [node_addEdge x (wf.node_stored ha) (wf.node_stored hb), if_neg otherA, if_neg otherB]
  edge _ he := (wf.agree c).edge_addEdge_of_mem x he

theorem SameDetails.redirect (he : e ∈ (s.decomposition d).edges)
    (source : (s.edge e).source = some a) (target : (s.edge e).target = some b)
    (hm : m ∈ (s.decomposition d).nodes) (side : Side) (h : c ≠ d) :
    SameDetails c s (s.redirect d e a b side m) := by
  obtain ⟨x, ha, y, hb, sameA, sameB⟩ := wf.exists_ends he
  obtain rfl : x = a := Option.some.inj (sameA.symm.trans source)
  obtain rfl : y = b := Option.some.inj (sameB.symm.trans target)
  constructor
  · intro n hn
    have other : ∀ z ∈ (s.decomposition d).nodes, n ≠ z := by
      rintro z hz rfl
      exact h (wf.apart hn hz)
    have moved : ∀ side' : Side, ∀ z ∈ (s.decomposition d).nodes,
        n ≠ if side = side' then m else z := by
      intro side' z hz
      split
      · exact other m hm
      · exact other z hz
    unfold Specification.redirect
    rw [node_listEdge_of_ne (moved .source x ha) (moved .target y hb), node_modifyEdge,
      node_unlistEdge_of_ne (other x ha) (other y hb)]
  · intro f hf
    unfold Specification.redirect
    rw [edge_listEdge, edge_modifyEdge, if_neg, edge_unlistEdge]
    rintro ⟨rfl, _⟩
    exact h (wf.edges_apart hf he)

end

theorem SameDetails.addDecomposition {x : Decomposition} :
    SameDetails c s (s.addDecomposition x) :=
  ⟨fun _ _ => rfl, fun _ _ => rfl⟩

theorem control_setRuns : ((s.setRuns n d).node m).control = (s.node m).control := by
  rw [node_setRuns]
  split
  · unfold Node.control
    dsimp only
    rw [Kind.control_modifyTask]
    exact fun _ => rfl
  · rfl

theorem SameDetails.setRuns : SameDetails c s (s.setRuns n d) :=
  ⟨fun _ _ => control_setRuns, fun _ _ => rfl⟩

/-! ### Routing -/

/-- Splits, timers and edges stay. -/
structure SameRouting (s t : Specification) : Prop where
  split : ∀ n, t.split? n = s.split? n
  timer : ∀ n, t.timer? n = s.timer? n
  edge : ∀ e, t.edge e = s.edge e

namespace SameRouting

theorem refl (s : Specification) : SameRouting s s :=
  ⟨fun _ => rfl, fun _ => rfl, fun _ => rfl⟩

theorem trans (h : SameRouting s t) (h' : SameRouting t u) : SameRouting s u where
  split n := (h'.split n).trans (h.split n)
  timer n := (h'.timer n).trans (h.timer n)
  edge e := (h'.edge e).trans (h.edge e)

theorem of_dataOnly (h : DataOnly (fun _ => False) s t) : SameRouting s t where
  split n := split?_of_control (h.node n fun _ none => none.elim)
  timer n := timer?_of_control (h.node n fun _ none => none.elim)
  edge e := h.edge e fun _ none => none.elim

theorem of_modifyTask {g : Task → Task} (split : ∀ t, (g t).split = t.split)
    (timer : ∀ t, (g t).timer = t.timer) : SameRouting s (s.modifyTask n g) where
  split m := by
    unfold split?
    rw [task?_modifyTask]
    split
    · rw [Option.map_map]
      exact congrArg (Option.map · _) (funext split)
    · rfl
  timer m := by
    unfold timer?
    rw [task?_modifyTask]
    split
    · cases s.task? m <;> simp [timer]
    · rfl
  edge _ := rfl

end SameRouting

/-! ### What all stored nodes keep -/

/-- All nodes that were stored keep their edges and their control flow, and all edges what they
carry. -/
structure Steady (s t : Specification) : Prop where
  size : s.nodes.size ≤ t.nodes.size
  node : ∀ {n : NodeId}, n.index < s.nodes.size → (t.node n).control = (s.node n).control
  edge : ∀ e, t.edge e = s.edge e

namespace Steady

theorem refl (s : Specification) : Steady s s :=
  ⟨Nat.le_refl _, fun _ => rfl, fun _ => rfl⟩

theorem trans (h : Steady s t) (h' : Steady t u) : Steady s u where
  size := Nat.le_trans h.size h'.size
  node hn := (h'.node (Nat.lt_of_lt_of_le hn h.size)).trans (h.node hn)
  edge e := (h'.edge e).trans (h.edge e)

theorem of_dataOnly (h : DataOnly (fun _ => False) s t) : Steady s t where
  size := Nat.le_of_eq (nodes_size_of_skeleton h.skeleton).symm
  node _ := h.node _ fun _ none => none.elim
  edge e := h.edge e fun _ none => none.elim

theorem addNode (x : Node) : Steady s (s.addNode d x) where
  size := by
    rw [nodes_size_addNode]
    exact Nat.le_succ _
  node hn := by rw [node_addNode_of_lt x hn]
  edge _ := rfl

theorem addTerminal (x : Terminal) (id name : String) : Steady s (s.addTerminal d x id name) where
  size := (addNode (d := d) { id, name, kind := x.kind }).size
  node hn := (addNode (d := d) { id, name, kind := x.kind }).node hn
  edge _ := rfl

theorem addDecomposition (x : Decomposition) : Steady s (s.addDecomposition x) :=
  ⟨Nat.le_refl _, fun _ => rfl, fun _ => rfl⟩

theorem setRuns : Steady s (s.setRuns n d) :=
  ⟨Nat.le_of_eq nodes_size_setRuns.symm, fun _ => control_setRuns, fun _ => rfl⟩

theorem outgoing (h : Steady s t) (hn : n.index < s.nodes.size) :
    (t.node n).outgoing = (s.node n).outgoing := by
  have same := congrArg Node.outgoing (h.node hn)
  exact same

end Steady

end Specification

end ProcessNets
