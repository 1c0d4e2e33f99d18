import ProcessNets.Diagram.Build
import ProcessNets.Proofs.Net.Stores

/-!
# Drawn diagrams

A diagram that was drawn with the operations for it lists each edge at both of its ends: edges that
enter a node lead to it, and leave their source. What it lists as data objects are data objects.
-/

namespace ProcessNets.Diagram

variable {d d' : Diagram} {n m : NodeId} {edge : Edge}

/-- The flows that enter a node have it as their target, and leave their sources. -/
def Drawn (d : Diagram) : Prop :=
  ∀ n, ∀ flow ∈ d.incomingFlows n, flow.target = n ∧ flow ∈ d.outgoingFlows flow.source

/-- Flows are listed at both of their ends. -/
structure Paired (d : Diagram) : Prop where
  drawn : d.Drawn
  leaves : ∀ n, ∀ flow ∈ d.outgoingFlows n, flow.source = n ∧ flow ∈ d.incomingFlows flow.target

/-- The edges that a node lists have it as the end where it lists them, and are listed at their
other end. -/
structure EndsListed (d : Diagram) : Prop where
  enters : ∀ n, ∀ e ∈ (d.node n).incoming, ∃ edge, d.edge? e = some edge ∧ edge.target = n ∧
    e ∈ (d.node edge.source).outgoing
  leaves : ∀ n, ∀ e ∈ (d.node n).outgoing, ∃ edge, d.edge? e = some edge ∧ edge.source = n ∧
    e ∈ (d.node edge.target).incoming

theorem EndsListed.drawn (h : d.EndsListed) : d.Drawn := by
  intro n flow entered
  obtain ⟨edge, listed, isFlow⟩ := List.mem_filterMap.mp entered
  obtain ⟨e, he, stored⟩ := List.mem_filterMap.mp listed
  obtain ⟨_, same, target, leaves⟩ := h.enters n e he
  cases stored.symm.trans same
  cases edge with
  | association => cases isFlow
  | flow f =>
    cases isFlow
    have left : Edge.flow flow ∈ d.outgoing flow.source :=
      List.mem_filterMap.mpr ⟨e, leaves, stored⟩
    exact ⟨target, List.mem_filterMap.mpr ⟨_, left, rfl⟩⟩

theorem EndsListed.paired (h : d.EndsListed) : d.Paired := by
  refine ⟨h.drawn, fun n flow left => ?_⟩
  obtain ⟨edge, listed, isFlow⟩ := List.mem_filterMap.mp left
  obtain ⟨e, he, stored⟩ := List.mem_filterMap.mp listed
  obtain ⟨_, same, source, enters⟩ := h.leaves n e he
  cases stored.symm.trans same
  cases edge with
  | association => cases isFlow
  | flow f =>
    cases isFlow
    have entered : Edge.flow flow ∈ d.incoming flow.target :=
      List.mem_filterMap.mpr ⟨e, enters, stored⟩
    exact ⟨source, List.mem_filterMap.mpr ⟨_, entered, rfl⟩⟩

/-! ### Nodes -/

/-- What the blank node and all stored nodes have in common. -/
theorem node_of_stored {P : Node → Prop} (blank : P .blank) (stored : ∀ node ∈ d.nodes, P node)
    (n : NodeId) : P (d.node n) := by
  unfold node
  rw [Array.getD_eq_getD_getElem?]
  by_cases inside : n.index < d.nodes.size
  · rw [Array.getElem?_eq_getElem inside]
    exact stored _ (Array.getElem_mem inside)
  · rw [Array.getElem?_eq_none (Nat.le_of_not_lt inside)]
    exact blank

theorem EndsListed.of_unlinked (bare : ∀ node ∈ d.nodes, node.incoming = [] ∧ node.outgoing = []) :
    d.EndsListed := by
  have none := node_of_stored (P := fun node => node.incoming = [] ∧ node.outgoing = []) ⟨rfl, rfl⟩
    bare
  constructor
  · intro n e he
    rw [(none n).1] at he
    cases he
  · intro n e he
    rw [(none n).2] at he
    cases he

theorem node_modifyNode (g : Node → Node) : (d.modifyNode n g).node m =
    if m = n ∧ n.index < d.nodes.size then g (d.node m) else d.node m := by
  unfold node modifyNode
  rw [Specification.getD_modify]
  cases n
  cases m
  simp

theorem EndsListed.of_same (h : d.EndsListed) (edges : d'.edges = d.edges)
    (incoming : ∀ n, (d'.node n).incoming = (d.node n).incoming)
    (outgoing : ∀ n, (d'.node n).outgoing = (d.node n).outgoing) : d'.EndsListed := by
  have same : d'.edge? = d.edge? := by
    unfold edge?
    rw [edges]
  constructor
  · intro n e he
    rw [incoming] at he
    rw [same]
    obtain ⟨edge, stored, target, leaves⟩ := h.enters n e he
    exact ⟨edge, stored, target, by rwa [outgoing]⟩
  · intro n e he
    rw [outgoing] at he
    rw [same]
    obtain ⟨edge, stored, source, enters⟩ := h.leaves n e he
    exact ⟨edge, stored, source, by rwa [incoming]⟩

theorem EndsListed.modifyNode (h : d.EndsListed) {g : Node → Node}
    (incoming : ∀ node, (g node).incoming = node.incoming)
    (outgoing : ∀ node, (g node).outgoing = node.outgoing) : (d.modifyNode n g).EndsListed := by
  refine h.of_same rfl (fun m => ?_) fun m => ?_
  · rw [node_modifyNode]
    split
    · rw [incoming]
    · rfl
  · rw [node_modifyNode]
    split
    · rw [outgoing]
    · rfl

theorem EndsListed.addNode (h : d.EndsListed) {node : Node} (incoming : node.incoming = [])
    (outgoing : node.outgoing = []) : (d.addNode node).2.EndsListed := by
  have same : ∀ n, (d.addNode node).2.node n = node ∧ d.node n = .blank ∨
      (d.addNode node).2.node n = d.node n := by
    intro n
    unfold Diagram.addNode Diagram.node
    simp only [Array.getD_eq_getD_getElem?, Array.getElem?_push]
    split
    · rename_i last
      rw [Array.getElem?_eq_none (by omega)]
      exact .inl ⟨rfl, rfl⟩
    · exact .inr rfl
  refine h.of_same rfl (fun n => ?_) fun n => ?_
  · rcases same n with ⟨new, blank⟩ | old
    · rw [new, blank, incoming]
      rfl
    · rw [old]
  · rcases same n with ⟨new, blank⟩ | old
    · rw [new, blank, outgoing]
      rfl
    · rw [old]

theorem EndsListed.adoptOne (h : d.EndsListed) (container : Container) (n : NodeId) :
    (d.adoptOne container n).EndsListed := by
  unfold Diagram.adoptOne
  refine EndsListed.modifyNode ?_ (fun _ => rfl) fun _ => rfl
  cases container with
  | pool index => exact h.of_same rfl (fun _ => rfl) fun _ => rfl
  | subprocess holder => exact h.modifyNode (fun _ => rfl) fun _ => rfl

theorem EndsListed.adopt (h : d.EndsListed) (container : Container) (nodes : List NodeId) :
    (d.adopt container nodes).EndsListed := by
  induction nodes generalizing d with
  | nil => exact h
  | cons n rest ih => exact ih (h.adoptOne container n)

theorem EndsListed.attach (h : d.EndsListed) (event activity : NodeId) :
    (d.attach event activity).EndsListed := by
  unfold Diagram.attach
  refine EndsListed.modifyNode ?_ (fun _ => rfl) fun _ => rfl
  exact h.modifyNode (fun _ => rfl) fun _ => rfl

/-! ### Edges -/

theorem size_modifyNode (g : Node → Node) : (d.modifyNode n g).nodes.size = d.nodes.size :=
  Array.size_modify

theorem size_connect {source target : NodeId} {type : ConditionType} {expression id : String} :
    (d.connect source target type expression id).2.nodes.size = d.nodes.size := by
  unfold connect addEdge
  rw [size_modifyNode, size_modifyNode]

section
variable (source : edge.source.index < d.nodes.size) (target : edge.target.index < d.nodes.size)
include source target

/-- A new edge is listed last, where it leaves and where it enters. -/
theorem lists_addEdge :
    ((d.addEdge edge).2.node n).incoming =
      (if n = edge.target then (d.node n).incoming ++ [⟨d.edges.size⟩] else (d.node n).incoming) ∧
    ((d.addEdge edge).2.node n).outgoing =
      if n = edge.source then (d.node n).outgoing ++ [⟨d.edges.size⟩] else (d.node n).outgoing := by
  unfold addEdge
  rw [node_modifyNode, node_modifyNode, size_modifyNode]
  by_cases enters : n = edge.target
  · rw [if_pos ⟨enters, target⟩, if_pos enters]
    by_cases leaves : n = edge.source
    · rw [if_pos ⟨leaves, source⟩, if_pos leaves]
      exact ⟨rfl, rfl⟩
    · rw [if_neg fun both => leaves both.1, if_neg leaves]
      exact ⟨rfl, rfl⟩
  · rw [if_neg fun both => enters both.1, if_neg enters]
    by_cases leaves : n = edge.source
    · rw [if_pos ⟨leaves, source⟩, if_pos leaves]
      exact ⟨rfl, rfl⟩
    · rw [if_neg fun both => leaves both.1, if_neg leaves]
      exact ⟨rfl, rfl⟩

theorem EndsListed.addEdge (h : d.EndsListed) : (d.addEdge edge).2.EndsListed := by
  have lists : ∀ n, _ ∧ _ := fun n => lists_addEdge (n := n) source target
  have stored : ∀ e, (d.addEdge edge).2.edge? e =
      if e.index = d.edges.size then some edge else d.edge? e := by
    intro e
    unfold edge? Diagram.addEdge
    exact Array.getElem?_push
  have old : ∀ {e x}, d.edge? e = some x → (d.addEdge edge).2.edge? e = some x := by
    intro e x found
    have inside : e.index < d.edges.size := (Array.getElem?_eq_some_iff.mp found).1
    rw [stored, if_neg (by omega)]
    exact found
  have new : (d.addEdge edge).2.edge? ⟨d.edges.size⟩ = some edge := by rw [stored, if_pos rfl]
  -- what is listed at an end stays listed
  have entering : ∀ {e n}, e ∈ (d.node n).incoming → e ∈ ((d.addEdge edge).2.node n).incoming := by
    intro e n enters
    rw [(lists n).1]
    split
    · exact List.mem_append_left _ enters
    · exact enters
  have leaving : ∀ {e n}, e ∈ (d.node n).outgoing → e ∈ ((d.addEdge edge).2.node n).outgoing := by
    intro e n leaves
    rw [(lists n).2]
    split
    · exact List.mem_append_left _ leaves
    · exact leaves
  have entered : ⟨d.edges.size⟩ ∈ ((d.addEdge edge).2.node edge.target).incoming := by
    rw [(lists _).1, if_pos rfl]
    exact List.mem_append_right _ (List.mem_singleton_self _)
  have left : ⟨d.edges.size⟩ ∈ ((d.addEdge edge).2.node edge.source).outgoing := by
    rw [(lists _).2, if_pos rfl]
    exact List.mem_append_right _ (List.mem_singleton_self _)
  constructor
  · intro n e he
    have listed : e ∈ (d.node n).incoming ∨ e = ⟨d.edges.size⟩ ∧ n = edge.target := by
      rw [(lists n).1] at he
      split at he
      · rename_i here
        exact (List.mem_append.mp he).imp_right fun last => ⟨List.mem_singleton.mp last, here⟩
      · exact .inl he
    rcases listed with before | ⟨rfl, rfl⟩
    · obtain ⟨x, found, target, leaves⟩ := h.enters n e before
      exact ⟨x, old found, target, leaving leaves⟩
    · exact ⟨edge, new, rfl, left⟩
  · intro n e he
    have listed : e ∈ (d.node n).outgoing ∨ e = ⟨d.edges.size⟩ ∧ n = edge.source := by
      rw [(lists n).2] at he
      split at he
      · rename_i here
        exact (List.mem_append.mp he).imp_right fun last => ⟨List.mem_singleton.mp last, here⟩
      · exact .inl he
    rcases listed with before | ⟨rfl, rfl⟩
    · obtain ⟨x, found, source, enters⟩ := h.leaves n e before
      exact ⟨x, old found, source, entering enters⟩
    · exact ⟨edge, new, rfl, entered⟩

end

/-! ### Data objects -/

/-- Only data objects are listed as such. -/
def DataTyped (d : Diagram) : Prop :=
  ∀ n ∈ d.dataObjects, n.index < d.nodes.size ∧ (d.node n).kind.isDataObject = true

theorem DataTyped.of_same (h : d.DataTyped) (listed : d'.dataObjects = d.dataObjects)
    (size : d.nodes.size ≤ d'.nodes.size)
    (same : ∀ n, n.index < d.nodes.size →
      (d'.node n).kind.isDataObject = (d.node n).kind.isDataObject) : d'.DataTyped := by
  intro n member
  rw [listed] at member
  obtain ⟨stored, isData⟩ := h n member
  exact ⟨Nat.lt_of_lt_of_le stored size, (same n stored).trans isData⟩

theorem DataTyped.modifyNode (h : d.DataTyped) {g : Node → Node}
    (same : ∀ node, (g node).kind.isDataObject = node.kind.isDataObject) :
    (d.modifyNode n g).DataTyped := by
  refine h.of_same rfl (Nat.le_of_eq (size_modifyNode g).symm) fun m _ => ?_
  rw [node_modifyNode]
  split
  · exact same _
  · rfl

theorem DataTyped.addNode (h : d.DataTyped) (node : Node) : (d.addNode node).2.DataTyped := by
  refine h.of_same rfl ?_ fun n stored => ?_
  · unfold Diagram.addNode
    rw [Array.size_push]
    exact Nat.le_succ _
  · unfold Diagram.addNode Diagram.node
    simp only [Array.getD_eq_getD_getElem?, Array.getElem?_push]
    rw [if_neg (Nat.ne_of_lt stored)]

theorem DataTyped.adoptOne (h : d.DataTyped) (container : Container) (n : NodeId) :
    (d.adoptOne container n).DataTyped := by
  unfold Diagram.adoptOne
  refine DataTyped.modifyNode ?_ fun _ => rfl
  cases container with
  | pool index => exact h.of_same rfl (Nat.le_refl _) fun _ _ => rfl
  | subprocess holder =>
    refine h.modifyNode fun node => ?_
    cases kind : node.kind <;> simp [Kind.isDataObject]

theorem DataTyped.adopt (h : d.DataTyped) (container : Container) (nodes : List NodeId) :
    (d.adopt container nodes).DataTyped := by
  induction nodes generalizing d with
  | nil => exact h
  | cons n rest ih => exact ih (h.adoptOne container n)

theorem DataTyped.attach (h : d.DataTyped) (event activity : NodeId) :
    (d.attach event activity).DataTyped := by
  unfold Diagram.attach
  refine DataTyped.modifyNode (h.modifyNode fun node => ?_) fun node => ?_
  · cases kind : node.kind <;> simp [Kind.isDataObject]
  · cases kind : node.kind <;> simp [Kind.isDataObject, Kind.modifyActivity]

theorem DataTyped.addEdge (h : d.DataTyped) (edge : Edge) : (d.addEdge edge).2.DataTyped := by
  have stored : DataTyped { d with edges := d.edges.push edge } :=
    h.of_same rfl (Nat.le_refl _) fun _ _ => rfl
  have left := stored.modifyNode (n := edge.source)
    (g := fun n => { n with outgoing := n.outgoing ++ [⟨d.edges.size⟩] }) fun _ => rfl
  exact left.modifyNode fun _ => rfl

/-! ### Drawing -/

/-- The diagrams that can be drawn. -/
inductive Drawing : Diagram → Prop
  | empty : Drawing {}
  | addNode {d : Diagram} (node : Node) (incoming : node.incoming = [])
      (outgoing : node.outgoing = []) (h : Drawing d) : Drawing (d.addNode node).2
  | addPool {d : Diagram} (pool : Pool) (h : Drawing d) : Drawing (d.addPool pool)
  | adopt {d : Diagram} (container : Container) (nodes : List NodeId) (h : Drawing d) :
      Drawing (d.adopt container nodes)
  | addEdge {d : Diagram} (edge : Edge) (source : edge.source.index < d.nodes.size)
      (target : edge.target.index < d.nodes.size) (h : Drawing d) : Drawing (d.addEdge edge).2
  | attach {d : Diagram} (event activity : NodeId) (h : Drawing d) :
      Drawing (d.attach event activity)
  | listData {d : Diagram} (n : NodeId) (stored : n.index < d.nodes.size)
      (isData : (d.node n).kind.isDataObject = true) (h : Drawing d) :
      Drawing { d with dataObjects := d.dataObjects ++ [n] }
  | declareTypes {d : Diagram} (text : String) (h : Drawing d) :
      Drawing { d with typeDefinition := text }

theorem Drawing.endsListed (h : Drawing d) : d.EndsListed := by
  induction h with
  | empty => exact .of_unlinked (by simp)
  | addNode node incoming outgoing _ ih => exact ih.addNode incoming outgoing
  | addPool pool _ ih => exact ih.of_same rfl (fun _ => rfl) fun _ => rfl
  | adopt container nodes _ ih => exact ih.adopt container nodes
  | addEdge edge source target _ ih => exact ih.addEdge source target
  | attach event activity _ ih => exact ih.attach event activity
  | listData n stored isData _ ih => exact ih.of_same rfl (fun _ => rfl) fun _ => rfl
  | declareTypes text _ ih => exact ih.of_same rfl (fun _ => rfl) fun _ => rfl

theorem Drawing.drawn (h : Drawing d) : d.Drawn :=
  h.endsListed.drawn

theorem Drawing.paired (h : Drawing d) : d.Paired :=
  h.endsListed.paired

theorem Drawing.dataTyped (h : Drawing d) : d.DataTyped := by
  induction h with
  | empty => exact fun n listed => nomatch listed
  | addNode node incoming outgoing _ ih => exact ih.addNode node
  | addPool pool _ ih => exact ih.of_same rfl (Nat.le_refl _) fun _ _ => rfl
  | adopt container nodes _ ih => exact ih.adopt container nodes
  | addEdge edge source target _ ih => exact ih.addEdge edge
  | attach event activity _ ih => exact ih.attach event activity
  | listData n stored isData _ ih =>
    intro m listed
    rcases List.mem_append.mp listed with old | new
    · exact ih m old
    · rw [List.mem_singleton] at new
      subst new
      exact ⟨stored, isData⟩
  | declareTypes text _ ih => exact ih.of_same rfl (Nat.le_refl _) fun _ _ => rfl

end ProcessNets.Diagram
