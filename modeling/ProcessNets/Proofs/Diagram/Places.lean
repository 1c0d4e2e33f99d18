import ProcessNets.Proofs.Diagram.Drawing

/-!
# Places of nodes

Where a node lies in a diagram: its parent, and the containers that hold it. Taking a node into a
container changes the place of that node alone, and joining nodes changes no place at all.
-/

namespace ProcessNets.Diagram

variable {d d' : Diagram} {n m : NodeId} {container c : Container}

/-! ### What a node holds -/

/-- The nodes that a node holds. -/
def Kind.held : Kind → List NodeId
  | .subprocess _ children => children
  | _ => []

/-- Whether the node can hold others. -/
def Kind.isSubprocess : Kind → Bool
  | .subprocess .. => true
  | _ => false

/-- What no step of drawing changes of a node. -/
def Node.outline (node : Node) : String × Bool × Bool :=
  (node.id, node.kind.isDataObject, node.kind.isSubprocess)

/-- Where a node lies, and what lies in it. -/
def Node.place (node : Node) : (String × Bool × Bool) × Option Parent × List NodeId :=
  (node.outline, node.parent, node.kind.held)

theorem children_subprocess : d.children (.subprocess n) = (d.node n).kind.held := by
  unfold children Kind.held
  rfl

/-- Whether a node can be taken into a container. -/
def Container.Open (d : Diagram) : Container → Prop
  | .pool index => index < d.pools.size
  | .subprocess n => (d.node n).kind.isSubprocess = true

theorem Container.Open.of_outline (opened : container.Open d)
    (pools : d.pools.size ≤ d'.pools.size) (outline : ∀ n, (d'.node n).outline = (d.node n).outline) :
    container.Open d' := by
  cases container with
  | pool index => exact Nat.lt_of_lt_of_le opened pools
  | subprocess n =>
    have same : (d'.node n).kind.isSubprocess = (d.node n).kind.isSubprocess :=
      congrArg (·.2.2) (outline n)
    exact same.trans opened

/-- A node is in one container, and there once, with the parent that is given. -/
structure LiesIn (d : Diagram) (n : NodeId) (container : Container) (parent : Parent) : Prop where
  once : (d.children container).count n = 1
  apart : ∀ other, other ≠ container → n ∉ d.children other
  parent : (d.node n).parent = some parent

/-! ### Diagrams with the same places -/

/-- The same pools with the same nodes, and each node at its place. -/
structure SamePlaces (d d' : Diagram) : Prop where
  pools : d'.pools = d.pools
  size : d'.nodes.size = d.nodes.size
  place : ∀ n, (d'.node n).place = (d.node n).place

namespace SamePlaces

theorem trans {d'' : Diagram} (h : SamePlaces d d') (h' : SamePlaces d' d'') : SamePlaces d d'' :=
  ⟨h'.pools.trans h.pools, h'.size.trans h.size, fun n => (h'.place n).trans (h.place n)⟩

theorem modifyNode {g : Node → Node} (keeps : ∀ node, (g node).place = node.place) :
    SamePlaces d (d.modifyNode n g) := by
  refine ⟨rfl, size_modifyNode g, fun m => ?_⟩
  rw [node_modifyNode]
  split
  · exact keeps _
  · rfl

theorem addEdge (edge : Edge) : SamePlaces d (d.addEdge edge).2 := by
  have stored : SamePlaces d { d with edges := d.edges.push edge } := ⟨rfl, rfl, fun _ => rfl⟩
  unfold Diagram.addEdge
  refine stored.trans (trans (modifyNode ?_) (modifyNode ?_)) <;> exact fun _ => rfl

theorem attach (event host : NodeId) : SamePlaces d (d.attach event host) := by
  refine (modifyNode fun node => ?_).trans (modifyNode fun node => ?_)
  · unfold Node.place Node.outline
    cases node.kind <;> rfl
  · unfold Node.place Node.outline
    cases node.kind <;> rfl

variable (h : SamePlaces d d')
include h

theorem outline (n : NodeId) : (d'.node n).outline = (d.node n).outline :=
  congrArg (·.1) (h.place n)

theorem parent (n : NodeId) : (d'.node n).parent = (d.node n).parent :=
  congrArg (·.2.1) (h.place n)

theorem children (container : Container) : d'.children container = d.children container := by
  cases container with
  | pool index =>
    unfold Diagram.children pool
    rw [h.pools]
  | subprocess n =>
    rw [children_subprocess, children_subprocess]
    exact congrArg (·.2.2) (h.place n)

end SamePlaces

/-! ### Taking a node in -/

/-- The diagram in which a container holds a node more. -/
def holding (d : Diagram) (container : Container) (n : NodeId) : Diagram :=
  match container with
  | .pool index =>
    { d with pools := d.pools.modify index fun p => { p with children := p.children ++ [n] } }
  | .subprocess holder => d.modifyNode holder fun node => { node with
      kind := match node.kind with
        | .subprocess activity children => .subprocess activity (children ++ [n])
        | kind => kind }

theorem adoptOne_eq : d.adoptOne container n = (d.holding container n).modifyNode n fun node =>
    { node with parent := node.parent <|> some (.container container) } := rfl

theorem size_holding : (d.holding container n).nodes.size = d.nodes.size := by
  unfold holding
  cases container with
  | pool index => rfl
  | subprocess holder => exact size_modifyNode _

theorem ids_modify {pools : Array Pool} {index : Nat} {g : Pool → Pool}
    (keeps : ∀ pool, (g pool).id = pool.id) :
    (pools.modify index g).toList.map (·.id) = pools.toList.map (·.id) := by
  refine List.ext_getElem? fun i => ?_
  rw [List.getElem?_map, List.getElem?_map, Array.getElem?_toList, Array.getElem?_toList,
    Array.getElem?_modify]
  split
  · rw [Option.map_map]
    exact congrArg (Option.map · _) (funext keeps)
  · rfl

theorem node_holding : ((d.holding container n).node m).outline = (d.node m).outline ∧
    ((d.holding container n).node m).parent = (d.node m).parent := by
  unfold holding
  cases container with
  | pool index => exact ⟨rfl, rfl⟩
  | subprocess holder =>
    dsimp only
    rw [node_modifyNode]
    split
    · refine ⟨?_, rfl⟩
      unfold Node.outline
      cases (d.node m).kind <;> rfl
    · exact ⟨rfl, rfl⟩

theorem stored_of_isSubprocess (h : (d.node n).kind.isSubprocess = true) :
    n.index < d.nodes.size := by
  rcases Nat.lt_or_ge n.index d.nodes.size with inside | outside
  · exact inside
  · unfold node at h
    rw [Array.getD_eq_getD_getElem?, Array.getElem?_eq_none outside] at h
    cases h

theorem children_holding (opened : container.Open d) : (d.holding container n).children c =
    if c = container then d.children c ++ [n] else d.children c := by
  cases container with
  | pool index =>
    have opened : index < d.pools.size := opened
    cases c with
    | pool other =>
      unfold children pool holding
      dsimp only
      rw [Specification.getD_modify]
      by_cases same : other = index
      · subst same
        simp [opened]
      · simp [same]
    | subprocess other => rw [if_neg nofun]; rfl
  | subprocess holder =>
    have opened : (d.node holder).kind.isSubprocess = true := opened
    cases c with
    | pool other => rw [if_neg nofun]; rfl
    | subprocess other =>
      rw [children_subprocess, children_subprocess]
      unfold holding
      dsimp only
      rw [node_modifyNode]
      by_cases same : other = holder
      · subst same
        rw [if_pos ⟨rfl, stored_of_isSubprocess opened⟩, if_pos rfl]
        cases kind : (d.node other).kind with
        | subprocess activity children => rfl
        | _ => rw [kind] at opened; cases opened
      · rw [if_neg fun both => same both.1, if_neg fun h => same (Container.subprocess.inj h)]

theorem node_adoptOne : ((d.adoptOne container n).node m).outline = (d.node m).outline ∧
    ((d.adoptOne container n).node m).parent = if m = n ∧ n.index < d.nodes.size then
      (d.node m).parent <|> some (.container container) else (d.node m).parent := by
  have ⟨outline, parent⟩ : ((d.holding container n).node m).outline = (d.node m).outline ∧
      ((d.holding container n).node m).parent = (d.node m).parent := node_holding
  rw [adoptOne_eq, node_modifyNode, size_holding, ← outline, ← parent]
  split <;> exact ⟨rfl, rfl⟩

theorem ids_adoptOne :
    (d.adoptOne container n).pools.toList.map (·.id) = d.pools.toList.map (·.id) := by
  cases container with
  | pool index => exact ids_modify fun _ => rfl
  | subprocess holder => rfl

/-- The node is the last child of the container, and no child more of any other. -/
theorem children_adoptOne (opened : container.Open d) : (d.adoptOne container n).children c =
    if c = container then d.children c ++ [n] else d.children c := by
  rw [← children_holding opened, adoptOne_eq]
  cases c with
  | pool index => rfl
  | subprocess holder =>
    rw [children_subprocess, children_subprocess, node_modifyNode]
    split <;> rfl

end ProcessNets.Diagram
