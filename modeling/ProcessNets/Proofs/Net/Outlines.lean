import ProcessNets.Proofs.Net.DocumentParts
import ProcessNets.Proofs.Net.Frames
import ProcessNets.Proofs.Net.Making

/-!
# Outlines of nets

What the document of a specification tells about its nets, and a reader that gets it back from the
elements alone: the decompositions, the nodes with their edges, and the decorators, cancellation
sets, mappings and decompositions of tasks. Documents do not tell a missing decorator from an
exclusive one, nor a missing predicate from a true one.
-/

namespace ProcessNets

open Net
open Xml (Element)
open Xml.Element (tagged tagged_map)

namespace Net

/-! ### Outlines -/

/-- What a document tells of an edge. -/
structure EdgeOutline where
  target : String
  ordering : Int
  isDefault : Bool
  predicate : String
deriving DecidableEq, Repr

/-- What a document tells of a task. Mappings are pairs of a query and a name. -/
structure TaskOutline where
  join : Decorator
  split : Decorator
  cancels : List String
  starting : List (String × String)
  completed : List (String × String)
  runs : Option String
deriving DecidableEq, Repr

/-- What a document tells of a node. Its kind is without data. -/
structure NodeOutline where
  kind : Kind
  id : String
  edges : List EdgeOutline
  task : Option TaskOutline
deriving DecidableEq, Repr

/-- What a document tells of a decomposition. -/
structure NetOutline where
  id : String
  isRoot : Bool
  facts : Facts
  nodes : List NodeOutline
deriving DecidableEq, Repr

/-! ### Reading -/

/-- The number that decimal digits write. -/
def readNumber (digits : String) : Int :=
  Nat.ofDigitChars 10 digits.toList 0

/-- Reads an edge. One without predicate has a true one, one without number is unordered. -/
def EdgeOutline.read (e : Element) : EdgeOutline where
  target := ((e.child? "nextElementRef").bind (·.attribute? "id")).getD ""
  ordering := ((e.child? "predicate").bind (·.attribute? "ordering")).elim 0 readNumber
  isDefault := (e.child? "isDefaultFlow").isSome
  predicate := (e.child? "predicate").elim "true()" Element.words

def readDecorator : Option String → Decorator
  | some "and" => .and
  | some "or" => .or
  | _ => .xor

def readMapping (e : Element) : String × String :=
  (((e.child? "expression").bind (·.attribute? "query")).getD "",
    (e.child? "mapsTo").elim "" Element.words)

def readMappings (tag : String) (e : Element) : List (String × String) :=
  ((tagged tag e.children).flatMap Element.children).map readMapping

def TaskOutline.read (e : Element) : TaskOutline where
  join := readDecorator ((e.child? "join").bind (·.attribute? "code"))
  split := readDecorator ((e.child? "split").bind (·.attribute? "code"))
  cancels := (tagged "removesTokens" e.children).filterMap (·.attribute? "id")
  starting := readMappings "startingMappings" e
  completed := readMappings "completedMappings" e
  runs := (e.child? "decomposesTo").bind (·.attribute? "id")

/-- The kind with the tag, without data. -/
def readKind : Option String → Kind
  | some "task" => .task {}
  | some "inputCondition" => .inputCondition
  | some "outputCondition" => .outputCondition
  | _ => .condition

def NodeOutline.read (e : Element) : NodeOutline where
  kind := readKind e.tag?
  id := (e.attribute? "id").getD ""
  edges := (tagged "flowsInto" e.children).map EdgeOutline.read
  task := if e.tag? = some "task" then some (TaskOutline.read e) else none

def NetOutline.read (e : Element) : NetOutline where
  id := (e.attribute? "id").getD ""
  isRoot := (e.attribute? "isRootNet").isSome
  facts := if e.attribute? "xsi:type" = some "NetFactsType" then .net else .webServiceGateway
  nodes := (controlsOf e).map NodeOutline.read

/-- Reads the decompositions of a document. -/
def readNets (document : Element) : List NetOutline :=
  (decompositionsOf document).map NetOutline.read

end Net

namespace Specification

variable {s : Specification} {d : Decomposition} {n : NodeId} {e : Edge} {t : Task}
  {tag : String}

/-! ### Outlines of specifications -/

def edgeOutline (s : Specification) (e : Edge) : EdgeOutline where
  target := s.targetId e
  ordering := e.ordering
  isDefault := e.isDefault
  predicate := if e.predicate.isEmpty then "true()" else e.predicate

/-- A decorator, an exclusive one if there is none. -/
def decoratorOutline : Decorator → Decorator
  | .none => .xor
  | decorator => decorator

def mappingOutline (m : Mapping) : String × String :=
  (m.query, m.target.name)

def taskOutline (s : Specification) (t : Task) : TaskOutline where
  join := decoratorOutline t.join
  split := decoratorOutline t.split
  cancels := t.cancels.map fun n => (s.node n).id
  starting := t.starting.map mappingOutline
  completed := t.completed.map mappingOutline
  runs := t.decomposesTo.map fun d => (s.decomposition d).id

/-- An outline gives a node: its id, its kind, its edges by their orderings, and its data if it is a
task. -/
structure GivesNode (s : Specification) (n : NodeId) (o : NodeOutline) : Prop where
  kind : o.kind = (s.node n).kind.sort
  id : o.id = (s.node n).id
  edges : ∃ edges, s.Arranged n edges ∧ o.edges = edges.map s.edgeOutline
  task : o.task = (s.task? n).map s.taskOutline

/-- An outline gives a decomposition: its id, its sort, and, if it is a net, all of its nodes. -/
structure GivesNet (s : Specification) (d : Decomposition) (o : NetOutline) : Prop where
  id : o.id = d.id
  isRoot : o.isRoot = d.isRoot
  facts : o.facts = d.facts
  nodes : d.facts = .net → List.Forall₂ s.GivesNode (s.nodesBySort d) o.nodes

/-! ### Edges -/

theorem readNumber_toString {number : Int} (natural : 0 ≤ number) :
    readNumber (toString number) = number := by
  obtain ⟨m, rfl⟩ := Int.eq_ofNat_of_zero_le natural
  show readNumber (toString m) = m
  unfold readNumber
  rw [Nat.toString_eq_ofList_toDigits, String.toList_ofList, Nat.ofDigitChars_ten_toDigits]

theorem tagged_guardElements :
    tagged tag (guardElements e) = if "predicate" = tag then guardElements e else [] := by
  unfold guardElements
  split
  · simp
  · simp

theorem tagged_defaultElements :
    tagged tag (defaultElements e) = if "isDefaultFlow" = tag then defaultElements e else [] := by
  unfold defaultElements
  split
  · simp
  · simp

theorem read_edgeElement (ordered : 0 ≤ e.ordering) :
    EdgeOutline.read (s.edgeElement e) = s.edgeOutline e := by
  have target : tagged "nextElementRef" (s.edgeElement e).children =
      [.leaf "nextElementRef" "" [("id", s.targetId e)]] := by
    simp [edgeElement_eq, tagged_guardElements, tagged_defaultElements]
  have guard : tagged "predicate" (s.edgeElement e).children = guardElements e := by
    simp [edgeElement_eq, tagged_guardElements, tagged_defaultElements]
  have flag : tagged "isDefaultFlow" (s.edgeElement e).children = defaultElements e := by
    simp [edgeElement_eq, tagged_guardElements, tagged_defaultElements]
  unfold EdgeOutline.read edgeOutline Element.child?
  rw [target, guard, flag]
  congr 1
  · by_cases numbered : 0 < e.ordering
    · simpa [guardElements, numbered, Element.leaf, Element.attribute?, Element.attributes]
        using readNumber_toString ordered
    · have unordered : e.ordering = 0 := by omega
      by_cases empty : e.predicate = "" <;>
        simp [guardElements, unordered, empty, Element.leaf, Element.attribute?,
          Element.attributes]
  · cases marked : e.isDefault <;> simp [defaultElements, marked]
  · by_cases numbered : 0 < e.ordering
    · simp [guardElements, numbered, Element.leaf, Element.words]
    · by_cases empty : e.predicate = "" <;>
        simp [guardElements, numbered, empty, Element.leaf, Element.words]

/-! ### Tasks -/

theorem readDecorator_code (decorator : Decorator) :
    readDecorator (some decorator.code) = decoratorOutline decorator := by
  cases decorator <;> rfl

theorem read_mappingElement (m : Mapping) : readMapping (mappingElement m) = mappingOutline m := rfl

theorem tagged_mappingElements {name : String} {mappings : List Mapping} :
    tagged tag (mappingElements name mappings) =
      if name = tag then mappingElements name mappings else [] := by
  unfold mappingElements
  split
  · simp
  · simp

theorem children_mappingElements {name : String} {mappings : List Mapping} :
    (mappingElements name mappings).flatMap Element.children = mappings.map mappingElement := by
  unfold mappingElements
  split
  · rename_i empty
    rw [List.isEmpty_iff.mp empty]
    rfl
  · simp

theorem tagged_timer (timer : Option Timer) : tagged tag (timer.map Timer.toElement).toList =
    if "timer" = tag then (timer.map Timer.toElement).toList else [] := by
  cases timer <;> simp [Timer.toElement]

theorem tagged_resourcing (r : Option Resourcing) :
    tagged tag (r.map Resourcing.toElement).toList =
      if "resourcing" = tag then (r.map Resourcing.toElement).toList else [] := by
  cases r <;> simp [Resourcing.toElement]

theorem tagged_instances (m : Option MultiInstance)
    (other : tag ∉ ["minimum", "maximum", "threshold", "creationMode", "miDataInput",
      "miDataOutput"]) : tagged tag ((m.map MultiInstance.toElements).getD []) = [] := by
  cases m with
  | none => rfl
  | some m =>
    simp only [List.mem_cons, List.not_mem_nil, or_false, not_or] at other
    obtain ⟨h₁, h₂, h₃, h₄, h₅, h₆⟩ := other
    cases input : m.input <;> cases output : m.output <;>
      simp [MultiInstance.toElements, InstanceInput.toElement, InstanceOutput.toElement, input,
        output, Ne.symm h₁, Ne.symm h₂, Ne.symm h₃, Ne.symm h₄, Ne.symm h₅, Ne.symm h₆]

/-- The tags of the elements that are read of a node. -/
def readTags : List String :=
  ["flowsInto", "join", "split", "removesTokens", "startingMappings", "completedMappings",
    "decomposesTo"]

/-- The elements of one tag among those that only tasks have. -/
theorem tagged_taskElements (known : tag ∈ readTags) : tagged tag (s.taskElements t) =
      (if "join" = tag then [.leaf "join" "" [("code", t.join.code)]] else []) ++
      (if "split" = tag then [.leaf "split" "" [("code", t.split.code)]] else []) ++
      (if "removesTokens" = tag then
        t.cancels.map fun n => .leaf "removesTokens" "" [("id", (s.node n).id)] else []) ++
      (if "startingMappings" = tag then mappingElements "startingMappings" t.starting else []) ++
      (if "completedMappings" = tag then mappingElements "completedMappings" t.completed else []) ++
      if "decomposesTo" = tag then (t.decomposesTo.map fun d =>
        Element.leaf "decomposesTo" "" [("id", (s.decomposition d).id)]).toList else [] := by
  have cancels : tagged tag (t.cancels.map fun n =>
      Element.leaf "removesTokens" "" [("id", (s.node n).id)]) = if "removesTokens" = tag then
        t.cancels.map fun n => Element.leaf "removesTokens" "" [("id", (s.node n).id)] else [] :=
    tagged_map (fun _ => rfl) _
  have runs : tagged tag (t.decomposesTo.map fun d =>
      Element.leaf "decomposesTo" "" [("id", (s.decomposition d).id)]).toList =
        if "decomposesTo" = tag then (t.decomposesTo.map fun d =>
          Element.leaf "decomposesTo" "" [("id", (s.decomposition d).id)]).toList else [] := by
    cases t.decomposesTo <;> simp
  have other : tagged tag (t.timer.map Timer.toElement).toList = [] ∧
      tagged tag (t.resourcing.map Resourcing.toElement).toList = [] ∧
      tagged tag ((t.instances?.map MultiInstance.toElements).getD []) = [] := by
    rw [tagged_timer, tagged_resourcing]
    simp only [readTags, List.mem_cons, List.not_mem_nil, or_false] at known
    refine ⟨if_neg ?_, if_neg ?_, tagged_instances _ ?_⟩ <;>
      rcases known with rfl | rfl | rfl | rfl | rfl | rfl | rfl <;> decide
  unfold taskElements
  simp only [Element.tagged_append, Element.tagged_leaf, Element.tagged_nil, tagged_mappingElements,
    cancels, runs, other, List.append_nil]
  split <;> simp

/-! ### Nodes -/

/-- The elements of one tag among those in a node. -/
theorem tagged_children_nodeElement (known : tag ∈ readTags) :
    tagged tag (s.nodeElement n).children =
      (if "flowsInto" = tag then (s.writtenEdges n).map s.edgeElement else []) ++
        ((s.task? n).map fun t => tagged tag (s.taskElements t)).getD [] := by
  have name : "name" ≠ tag := by
    rintro rfl
    exact absurd known (by decide)
  have edges : tagged tag ((s.writtenEdges n).map s.edgeElement) =
      if "flowsInto" = tag then (s.writtenEdges n).map s.edgeElement else [] :=
    tagged_map (fun _ => rfl) _
  unfold nodeElement task?
  cases kind : (s.node n).kind <;>
    simp only [kind, Element.children_node, Element.tagged_append, edges, Kind.task?] <;>
    split <;> simp [name]

theorem tagged_children_of_task (task : s.task? n = some t) (known : tag ∈ readTags)
    (other : "flowsInto" ≠ tag) :
    tagged tag (s.nodeElement n).children = tagged tag (s.taskElements t) := by
  rw [tagged_children_nodeElement known, if_neg other, task]
  rfl

theorem read_task (task : s.task? n = some t) :
    TaskOutline.read (s.nodeElement n) = s.taskOutline t := by
  unfold TaskOutline.read taskOutline readMappings Element.child?
  rw [TaskOutline.mk.injEq]
  refine ⟨?_, ?_, ?_, ?_, ?_, ?_⟩
  all_goals
    rw [tagged_children_of_task task (by decide) (by decide), tagged_taskElements (by decide)]
  · exact readDecorator_code t.join
  · exact readDecorator_code t.split
  · simp [Element.leaf, Element.attribute?, Element.attributes, List.filterMap_map]
  · simp [children_mappingElements, read_mappingElement]
  · simp [children_mappingElements, read_mappingElement]
  · cases t.decomposesTo <;> rfl

theorem readKind_nodeTag (kind : Kind) : readKind (some (nodeTag kind)) = kind.sort := by
  cases kind <;> rfl

theorem tagged_flows : tagged "flowsInto" (s.nodeElement n).children =
    (s.writtenEdges n).map s.edgeElement := by
  rw [tagged_children_nodeElement (by decide), if_pos rfl]
  cases s.task? n with
  | none => exact List.append_nil _
  | some t =>
    simp only [Option.map_some, Option.getD_some]
    rw [tagged_taskElements (by decide)]
    simp

/-- A node is read from its element. -/
theorem read_nodeElement (ordered : ∀ e, 0 ≤ (s.edge e).ordering) :
    s.GivesNode n (NodeOutline.read (s.nodeElement n)) where
  kind := readKind_nodeTag (s.node n).kind
  id := rfl
  edges := by
    refine ⟨s.writtenEdges n, arranged_writtenEdges, ?_⟩
    unfold NodeOutline.read
    rw [tagged_flows, List.map_map]
    refine List.map_congr_left fun e he => read_edgeElement ?_
    obtain ⟨i, _, rfl⟩ := List.mem_map.mp (arranged_writtenEdges.each.mem_iff.mp he)
    exact ordered i
  task := by
    have tag : (s.nodeElement n).tag? = some (nodeTag (s.node n).kind) := rfl
    unfold NodeOutline.read
    cases task : s.task? n with
    | some t =>
      have isTask : nodeTag (s.node n).kind = "task" := by
        unfold task? at task
        cases kind : (s.node n).kind <;> simp [kind, Kind.task?, nodeTag] at task ⊢
      simp [tag, isTask, read_task task]
    | none =>
      have noTask : nodeTag (s.node n).kind ≠ "task" := by
        unfold task? at task
        cases kind : (s.node n).kind <;> simp [kind, Kind.task?, nodeTag] at task ⊢
      simp [tag, noTask]

/-! ### Decompositions -/

theorem read_decompositionElement {c : DecompositionId} (framed : s.Framed)
    (ordered : ∀ e, 0 ≤ (s.edge e).ordering) : s.GivesNet (s.decomposition c)
      (NetOutline.read (s.decompositionElement (s.decomposition c))) where
  id := rfl
  isRoot := by
    unfold NetOutline.read decompositionElement
    cases (s.decomposition c).isRoot <;> rfl
  facts := by
    unfold NetOutline.read decompositionElement
    cases (s.decomposition c).isRoot <;> cases (s.decomposition c).facts <;> rfl
  nodes facts := by
    unfold NetOutline.read
    rw [controlsOf_decompositionElement, facts, framed.writtenNodes_eq]
    simp only [List.map_map, List.forall₂_map_right_iff]
    exact List.forall₂_same.mpr fun n _ => read_nodeElement ordered

/-- The document of a specification gives back all of its nets: root nets first, then all other
decompositions, each once and in creation order. -/
theorem document_gives_nets (made : s.Made) (content : String) :
    List.Forall₂ s.GivesNet
      (s.decompositions.toList.filter (·.isRoot) ++ s.decompositions.toList.filter (!·.isRoot))
      (readNets (s.toDocument content)) := by
  show List.Forall₂ s.GivesNet s.writtenDecompositions _
  unfold readNets
  rw [decompositionsOf_toDocument, List.map_map, List.forall₂_map_right_iff]
  refine List.forall₂_same.mpr fun d written => ?_
  obtain ⟨c, _, rfl⟩ := exists_of_mem_written written
  exact read_decompositionElement made.framed made.ordered

/-- A net whose output condition is created first, behind a task-level decomposition. -/
def drafted : Specification :=
  let filled : Specification := [Call.createOutputCondition "o" "", .createTask "a" "A" .none .and,
    .createInputCondition "i" "", .createEdge ⟨1⟩ ⟨0⟩ 0 "" false, .createEdge ⟨1⟩ ⟨1⟩ 1 "x" false,
    .createEdge ⟨2⟩ ⟨1⟩ 0 "" false].foldl (fun spec c => c.after ⟨1⟩ spec)
      ((({ id := "draft" } : Specification).addDecomposition
        { id := "t", facts := .webServiceGateway }).addDecomposition { id := "n", isRoot := true })
  filled.modifyTask ⟨1⟩ fun t => { t with decomposesTo := some ⟨0⟩, cancels := [⟨1⟩] }

theorem document_gives_nets_drafted : drafted.Made ∧
    List.Forall₂ drafted.GivesNet
      (drafted.decompositions.toList.filter (·.isRoot) ++
        drafted.decompositions.toList.filter (!·.isRoot))
      (readNets (drafted.toDocument "")) ∧
    (readNets (drafted.toDocument "")).map (fun o => (o.id, o.nodes.map (·.id))) =
      [("n", ["i", "a", "o"]), ("t", [])] := by
  have made : drafted.Made := by
    apply Made.fillTask
    apply Made.create ⟨1⟩ (.createEdge ⟨2⟩ ⟨1⟩ 0 "" false) (by decide) (by decide)
    apply Made.create ⟨1⟩ (.createEdge ⟨1⟩ ⟨1⟩ 1 "x" false) (by decide) (by decide)
    apply Made.create ⟨1⟩ (.createEdge ⟨1⟩ ⟨0⟩ 0 "" false) (by decide) (by decide)
    apply Made.create ⟨1⟩ (.createInputCondition "i" "") (by decide) (by decide)
    apply Made.create ⟨1⟩ (.createTask "a" "A" .none .and) (by decide) (by decide)
    apply Made.create ⟨1⟩ (.createOutputCondition "o" "") (by decide) (by decide)
    apply Made.createDecomposition "n" .net true
    exact .createDecomposition "t" .webServiceGateway false (.empty "draft" "")
  exact ⟨made, document_gives_nets made "", by decide⟩

end Specification

end ProcessNets
