import ProcessNets.Proofs.Net.Minor
import ProcessNets.Proofs.Net.WrittenOrder
import ProcessNets.Proofs.Xml.Trees

/-!
# Parts of documents

Where the decompositions and the nodes of a specification stand in its document, and which ids
the elements in them refer to.
-/

namespace ProcessNets

open Net
open Xml (Element)
open Xml.Element (tagged tagged_of_all tagged_map idsOf)

namespace Net

/-- The decompositions in a document. -/
def decompositionsOf (document : Element) : List Element :=
  tagged "decomposition" ((tagged "specification" document.children).flatMap Element.children)

/-- The nodes in the element of a decomposition. -/
def controlsOf (decomposition : Element) : List Element :=
  (tagged "processControlElements" decomposition.children).flatMap Element.children

theorem tagged_variableElements {tag t : String} {withInitial : Bool} {vs : List Variable} :
    tagged t (variableElements tag withInitial vs) =
      if tag = t then variableElements tag withInitial vs else [] :=
  tagged_map (fun _ => rfl) _

end Net

namespace Specification

variable {s : Specification} {content : String} {d : Decomposition} {n : NodeId} {e : Edge}
  {t : Task} {tag : String}

/-! ### Decompositions and nodes -/

theorem decompositionsOf_toDocument : decompositionsOf (s.toDocument content) =
    s.writtenDecompositions.map s.decompositionElement := by
  have all : tagged "decomposition" (s.writtenDecompositions.map s.decompositionElement) =
      s.writtenDecompositions.map s.decompositionElement := by
    rw [tagged_map (t := "decomposition") fun _ => rfl, if_pos rfl]
  simpa [decompositionsOf, toDocument, Element.node, Element.children, tagged, Element.tag?,
    metadataElement, schemaElement, Element.leaf] using all

theorem controlsOf_decompositionElement : controlsOf (s.decompositionElement d) =
    match d.facts with
    | .webServiceGateway => []
    | .net => (s.writtenNodes d).map s.nodeElement := by
  unfold controlsOf decompositionElement
  cases d.facts <;> simp [tagged_variableElements]

/-! ### Parts of edges -/

/-- The id of the node that an edge leads to. -/
def targetId (s : Specification) (e : Edge) : String :=
  match e.target with
  | some n => (s.node n).id
  | none => ""

/-- What is written of the predicate of an edge. -/
def guardElements (e : Edge) : List Element :=
  if 0 < e.ordering ∨ ¬e.predicate.isEmpty then
    [.leaf "predicate" (if e.predicate.isEmpty then "true()" else e.predicate)
      (if 0 < e.ordering then [("ordering", toString e.ordering)] else [])]
  else []

/-- What marks a default edge. -/
def defaultElements (e : Edge) : List Element :=
  if e.isDefault then [.leaf "isDefaultFlow"] else []

theorem edgeElement_eq : s.edgeElement e = .node "flowsInto"
    (.leaf "nextElementRef" "" [("id", s.targetId e)] :: (guardElements e ++ defaultElements e)) :=
  rfl

/-! ### Ids referred to -/

theorem idsOf_variableElements {name : String} {withInitial : Bool} {vs : List Variable} :
    (variableElements name withInitial vs).flatMap (idsOf tag) = [] := by
  have single : ∀ v index, idsOf tag (variableElement name withInitial v index) = [] := by
    intro v index
    unfold variableElement
    split <;> split <;> simp
  unfold variableElements
  rw [List.flatMap_map, List.flatMap_eq_nil_iff]
  exact fun _ _ => single _ _

theorem idsOf_edgeElement : idsOf tag (s.edgeElement e) =
    if "nextElementRef" = tag then [s.targetId e] else [] := by
  have guard : (guardElements e).flatMap (idsOf tag) = [] := by
    unfold guardElements
    split
    · split <;> simp
    · rfl
  have flag : (defaultElements e).flatMap (idsOf tag) = [] := by
    unfold defaultElements
    split <;> simp
  simp [edgeElement_eq, guard, flag]

theorem idsOf_mappingElements {name : String} {mappings : List Mapping} :
    (mappingElements name mappings).flatMap (idsOf tag) = [] := by
  unfold mappingElements mappingElement
  split <;> simp [List.lookup_cons]

theorem idsOf_timer (timer : Timer) : idsOf tag timer.toElement = [] := by
  unfold Timer.toElement
  dsimp only
  split
  · simp
  · split <;> simp

theorem idsOf_resourcing (r : Resourcing) : idsOf tag r.toElement = [] := by
  have role : ∀ role : Role, idsOf tag role.toElement = [] := by
    intro role
    unfold Role.toElement
    split <;> simp
  have step : ∀ name initiator roles, idsOf tag (stepElement name initiator roles) = [] := by
    intro name initiator roles
    unfold stepElement
    rw [Element.idsOf_element]
    cases roles <;> simp [role, List.lookup_cons]
  unfold Resourcing.toElement
  simp [step]

theorem idsOf_instances (m : MultiInstance) : m.toElements.flatMap (idsOf tag) = [] := by
  unfold MultiInstance.toElements InstanceInput.toElement InstanceOutput.toElement
  cases m.input <;> cases m.output <;> simp [List.lookup_cons]

theorem idsOf_taskElements : (s.taskElements t).flatMap (idsOf tag) =
    (if "removesTokens" = tag then t.cancels.map fun n => (s.node n).id else []) ++
      if "decomposesTo" = tag then (t.decomposesTo.map fun d => (s.decomposition d).id).toList
      else [] := by
  have optional : ∀ {α : Type} {f : α → Element} (x : Option α),
      (∀ x, idsOf tag (f x) = []) → (x.map f).toList.flatMap (idsOf tag) = [] := by
    intro α f x without
    cases x <;> simp [without]
  have cancels : (t.cancels.map fun n =>
      Element.leaf "removesTokens" "" [("id", (s.node n).id)]).flatMap (idsOf tag) =
        if "removesTokens" = tag then t.cancels.map fun n => (s.node n).id else [] := by
    rw [List.flatMap_map]
    split <;> simp [List.map_eq_flatMap, *]
  have runs : ((t.decomposesTo.map fun d =>
      Element.leaf "decomposesTo" "" [("id", (s.decomposition d).id)]).toList).flatMap (idsOf tag) =
        if "decomposesTo" = tag then (t.decomposesTo.map fun d => (s.decomposition d).id).toList
        else [] := by
    cases t.decomposesTo <;> simp
  have instances :
      ((t.instances?.map MultiInstance.toElements).getD []).flatMap (idsOf tag) = [] := by
    cases t.instances? <;> simp [idsOf_instances]
  unfold taskElements
  simp only [List.flatMap_append, cancels, runs, instances, idsOf_mappingElements,
    optional _ idsOf_timer, optional _ idsOf_resourcing]
  simp [List.lookup_cons]

/-- The ids that a node refers to: targets of edges, cancelled nodes, and the decomposition that
it runs. -/
theorem idsOf_nodeElement (other : nodeTag (s.node n).kind ≠ tag) : idsOf tag (s.nodeElement n) =
    (if "nextElementRef" = tag then (s.writtenEdges n).map s.targetId else []) ++
    (if "removesTokens" = tag then (s.cancels n).map fun m => (s.node m).id else []) ++
      if "decomposesTo" = tag then ((s.runs? n).map fun d => (s.decomposition d).id).toList
      else [] := by
  have name : ((if (s.node n).name.isEmpty then [] else [Element.leaf "name" (s.node n).name]) :
      List Element).flatMap (idsOf tag) = [] := by
    split <;> simp
  have edges : ((s.writtenEdges n).map s.edgeElement).flatMap (idsOf tag) =
      if "nextElementRef" = tag then (s.writtenEdges n).map s.targetId else [] := by
    rw [List.flatMap_map]
    split <;> simp [idsOf_edgeElement, List.map_eq_flatMap, *]
  unfold nodeElement
  simp only [Element.idsOf_node, if_neg other, List.flatMap_append, name, edges, List.nil_append,
    List.append_assoc]
  congr 1
  unfold cancels runs?
  cases (s.node n).kind with
  | task t => exact idsOf_taskElements
  | _ => simp [Kind.cancels, Kind.runs?, Kind.task?]

/-- The ids that the element of a decomposition refers to. -/
theorem idsOf_decompositionElement
    (outer : "decomposition" ≠ tag ∧ "processControlElements" ≠ tag) :
    idsOf tag (s.decompositionElement d) = match d.facts with
      | .webServiceGateway => []
      | .net => (s.writtenNodes d).flatMap fun n => idsOf tag (s.nodeElement n) := by
  unfold decompositionElement
  cases d.facts <;> simp [outer, idsOf_variableElements, List.flatMap_map]

/-- The tags of the elements in nodes that refer to something. -/
def referenceTags : List String :=
  ["nextElementRef", "removesTokens", "decomposesTo"]

theorem nodeTag_ne (refers : tag ∈ referenceTags) (kind : Kind) : nodeTag kind ≠ tag := by
  rintro rfl
  cases kind <;> simp [nodeTag, referenceTags] at refers

/-- Only the nodes of nets refer to anything. -/
theorem mem_idsOf_decompositionElement (refers : tag ∈ referenceTags) {id : String} :
    id ∈ idsOf tag (s.decompositionElement d) ↔
      d.facts = .net ∧ ∃ n ∈ s.writtenNodes d, id ∈ idsOf tag (s.nodeElement n) := by
  have outer : "decomposition" ≠ tag ∧ "processControlElements" ≠ tag := by
    constructor <;> rintro rfl <;> exact absurd refers (by decide)
  rw [idsOf_decompositionElement outer]
  cases d.facts <;> simp

/-- The ids that a document refers to are those that its decompositions refer to. -/
theorem idsOf_toDocument (outer : "specificationSet" ≠ tag ∧ "specification" ≠ tag) :
    idsOf tag (s.toDocument content) =
      s.writtenDecompositions.flatMap fun d => idsOf tag (s.decompositionElement d) := by
  simp [toDocument, outer, metadataElement, schemaElement, List.lookup_cons, List.flatMap_map]

end Specification

end ProcessNets
