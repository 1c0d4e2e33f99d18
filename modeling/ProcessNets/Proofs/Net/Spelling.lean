import ProcessNets.Net.Written
import ProcessNets.Proofs.Net.DocumentParts
import ProcessNets.Proofs.Xml.Spelling

/-!
# Spelling of documents

All names and texts in the document of a specification are fixed ones, numbers, kinds of roles, or
texts of the specification itself.
-/

namespace ProcessNets

open Net
open Xml (Element Spelling)
open Xml.Element (Spelled)

namespace Net

/-! ### Texts of specifications -/

def Variable.texts (v : Variable) : List String :=
  [v.name, v.type, v.initialValue]

def Mapping.texts (m : Mapping) : List String :=
  [m.query, m.target.name]

def Timer.texts (timer : Timer) : List String :=
  [timer.cycle, timer.netParameter]

/-- The texts of what multiple instances read and write. -/
def MultiInstance.texts (m : MultiInstance) : List String :=
  (m.input.map fun i => [i.expression, i.splitting, i.parameter.name]).getD [] ++
    (m.output.map fun o => [o.expression, o.joining, o.target.name]).getD []

/-- The texts of a task, the ids of its roles among them. -/
def Task.texts (t : Task) : List String :=
  t.elementType.toList ++ t.starting.flatMap Mapping.texts ++ t.completed.flatMap Mapping.texts ++
    (t.timer.map Timer.texts).getD [] ++ (t.multiInstance.map MultiInstance.texts).getD [] ++
      (t.resourcing.map fun r => r.roles.map Role.idText).getD []

theorem mem_getD_map {α β : Type} {x : β} {o : Option α} {f : α → List β} :
    x ∈ (o.map f).getD [] ↔ ∃ a, o = some a ∧ x ∈ f a := by
  cases o <;> simp

theorem Task.mem_texts {t : Task} {x : String} : x ∈ t.texts ↔
    t.elementType = some x ∨ (∃ m ∈ t.starting, x ∈ m.texts) ∨ (∃ m ∈ t.completed, x ∈ m.texts) ∨
      (∃ timer, t.timer = some timer ∧ x ∈ timer.texts) ∨
      (∃ m, t.multiInstance = some m ∧ x ∈ m.texts) ∨
      ∃ r, t.resourcing = some r ∧ ∃ role ∈ r.roles, role.idText = x := by
  simp only [texts, List.mem_append, Option.mem_toList, List.mem_flatMap, mem_getD_map,
    List.mem_map, or_assoc]

def Node.texts (node : Node) : List String :=
  node.id :: node.name :: (node.kind.task?.map Task.texts).getD []

def Decomposition.texts (d : Decomposition) : List String :=
  d.id :: d.allVariables.flatMap Variable.texts

/-- The names of all elements and attributes of documents, apart from the kinds of roles. -/
def fixedNames : List String := [
  "specificationSet", "specification", "metaData", "version", "persistent", "identifier",
  "xs:schema", "decomposition", "inputParam", "outputParam", "localVariable", "index", "name",
  "type", "namespace", "initialValue", "processControlElements", "task", "condition",
  "inputCondition", "outputCondition", "flowsInto", "nextElementRef", "predicate",
  "isDefaultFlow", "join", "split", "removesTokens", "startingMappings", "completedMappings",
  "mapping", "expression", "mapsTo", "timer", "trigger", "expiry", "netparam", "duration",
  "resourcing", "offer", "allocate", "start", "distributionSet", "initialSet", "decomposesTo",
  "minimum", "maximum", "threshold", "creationMode", "miDataInput", "splittingExpression",
  "formalInputParam", "miDataOutput", "formalOutputExpression", "outputJoiningExpression",
  "resultAppliedToLocalVariable", "xmlns", "xmlns:xsi", "xmlns:xs", "xsi:schemaLocation", "uri",
  "id", "isRootNet", "xsi:type", "query", "code", "ordering", "initiator"]

/-- The fixed texts of documents. -/
def fixedWords : List String := [
  "", "true", "false", "0.1", "2.0", "true()", "xor", "and", "or", "OnEnabled", "OnExecuting",
  "user", "system", "static", "dynamic", "NetFactsType", "WebServiceGatewayFactsType",
  specificationNamespace, schemaLocation, schemaNamespace, instanceNamespace]

end Net

namespace Specification

/-- The texts of a specification that are written, apart from the data type definition. -/
def texts (s : Specification) : List String :=
  s.id :: s.decompositions.toList.flatMap Decomposition.texts ++
    s.nodes.toList.flatMap Node.texts ++ s.edges.toList.map (·.predicate)

/-- All roles of the tasks of a specification. -/
def allRoles (s : Specification) : List Role :=
  s.nodes.toList.flatMap fun node =>
    ((node.kind.task?.bind (·.resourcing)).map Resourcing.roles).getD []

variable {s : Specification} {S : Spelling} {d : Decomposition} {n : NodeId} {e : Edge} {t : Task}
  {tag name value words : String}

theorem node_mem (stored : n.index < s.nodes.size) : s.node n ∈ s.nodes.toList := by
  simp [Specification.node, stored]

theorem mem_allRoles_of_task {r : Resourcing} {role : Role} (task : s.task? n = some t)
    (given : t.resourcing = some r) (mem : role ∈ r.roles) : role ∈ s.allRoles := by
  refine List.mem_flatMap.mpr ⟨_, node_mem (task_stored task), mem_getD_map.mpr ⟨r, ?_, mem⟩⟩
  rw [← task?, task, Option.bind_some, given]

/-- A spelling that allows all that the document of a specification holds. -/
structure Suits (s : Specification) (S : Spelling) : Prop where
  names : ∀ x ∈ fixedNames, S.name x
  words : ∀ x ∈ fixedWords, S.words x
  number : ∀ z : Int, S.words (toString z)
  identifier : S.words ("UID_" ++ s.id)
  texts : ∀ x ∈ s.texts, S.words x
  roles : ∀ role ∈ s.allRoles, ∀ kind, role.kind = .string kind → S.name kind
  bare : ∀ role ∈ s.allRoles, (∀ kind, role.kind ≠ .string kind) → S.bare

namespace Suits

variable (suits : s.Suits S)
include suits

/-! ### Elements -/

theorem pair (fixed : name ∈ fixedNames) (allowed : S.words value) :
    S.Attributes [(name, value)] :=
  .cons (suits.names name fixed) allowed (by simp) .nil

theorem leaf (fixed : tag ∈ fixedNames) (allowed : S.words words) :
    (Element.leaf tag words).Spelled S :=
  .leaf (suits.names tag fixed) allowed .nil

/-- An element with one attribute and nothing in it. -/
theorem mark (fixed : tag ∈ fixedNames ∧ name ∈ fixedNames) (allowed : S.words value) :
    (Element.leaf tag "" [(name, value)]).Spelled S :=
  .leaf (suits.names tag fixed.1) (suits.words "" (by decide)) (suits.pair fixed.2 allowed)

theorem node {children : List Element} (fixed : tag ∈ fixedNames)
    (all : ∀ e ∈ children, e.Spelled S) : (Element.node tag children).Spelled S :=
  .node (suits.names tag fixed) (suits.words "" (by decide)) .nil all

/-! ### Data -/

theorem variableElement {withInitial : Bool} {v : Variable} {index : Nat}
    (fixed : tag ∈ fixedNames) (allowed : ∀ x ∈ v.texts, S.words x) :
    (variableElement tag withInitial v index).Spelled S := by
  have number : S.words (toString index) := suits.number index
  have name := allowed v.name (by simp [Variable.texts])
  have type := allowed v.type (by simp [Variable.texts])
  have initial := allowed v.initialValue (by simp [Variable.texts])
  have schema := suits.words schemaNamespace (by decide)
  refine suits.node fixed ?_
  simp only [List.forall_mem_append, List.forall_mem_cons]
  refine ⟨⟨⟨suits.leaf (by decide) number, suits.leaf (by decide) name,
    suits.leaf (by decide) type, by simp⟩, ?_⟩, ?_⟩
  · split
    · simpa using suits.leaf (by decide) schema
    · simp
  · split
    · simpa using suits.leaf (by decide) initial
    · simp

theorem variableElements {withInitial : Bool} {vs : List Variable} (fixed : tag ∈ fixedNames)
    (allowed : ∀ v ∈ vs, ∀ x ∈ v.texts, S.words x) :
    ∀ e ∈ variableElements tag withInitial vs, e.Spelled S := by
  intro e he
  obtain ⟨⟨v, index⟩, listed, rfl⟩ := List.mem_map.mp he
  exact suits.variableElement fixed (allowed v (List.fst_mem_of_mem_zipIdx listed))

theorem mappingElements {mappings : List Mapping} (fixed : tag ∈ fixedNames)
    (allowed : ∀ m ∈ mappings, ∀ x ∈ m.texts, S.words x) :
    ∀ e ∈ mappingElements tag mappings, e.Spelled S := by
  have each : ∀ m ∈ mappings, (mappingElement m).Spelled S := by
    intro m hm
    have query := allowed m hm m.query (by simp [Mapping.texts])
    have target := allowed m hm m.target.name (by simp [Mapping.texts])
    refine suits.node (by decide) ?_
    simp only [List.forall_mem_cons]
    exact ⟨suits.mark (by decide) query, suits.leaf (by decide) target, by simp⟩
  unfold Net.mappingElements
  split
  · simp
  · simpa using suits.node fixed (by simpa using each)

theorem timer {timer : Timer} (allowed : ∀ x ∈ timer.texts, S.words x) :
    timer.toElement.Spelled S := by
  have trigger : (Element.leaf "trigger" timer.trigger.name).Spelled S :=
    suits.leaf (by decide) (suits.words _ (by cases timer.trigger <;> decide))
  have cycle := allowed timer.cycle (by simp [Timer.texts])
  have parameter := allowed timer.netParameter (by simp [Timer.texts])
  refine suits.node (by decide) ?_
  split
  · simpa using ⟨trigger, suits.leaf (by decide) (suits.number _)⟩
  · split
    · simpa using suits.leaf (by decide) parameter
    · simpa using ⟨trigger, suits.leaf (by decide) cycle⟩

/-! ### Resources -/

theorem role {role : Role} (listed : role ∈ s.allRoles) (allowed : S.words role.idText) :
    role.toElement.Spelled S := by
  unfold Role.toElement
  split
  · rename_i kind isKind
    exact .leaf (suits.roles role listed kind isKind) allowed .nil
  · rename_i other
    exact .text (suits.bare role listed fun kind isKind => other kind isKind) allowed

theorem step {initiator : Initiator} {roles : Option (List Role)} (fixed : tag ∈ fixedNames)
    (all : ∀ role ∈ roles.getD [], role.toElement.Spelled S) :
    (stepElement tag initiator roles).Spelled S := by
  have by_ : S.Attributes [("initiator", initiator.name)] :=
    suits.pair (by decide) (suits.words _ (by cases initiator <;> decide))
  refine .node (suits.names tag fixed) (suits.words "" (by decide)) by_ ?_
  cases roles with
  | none => simp
  | some roles =>
    have set : (Element.node "initialSet" (roles.map Role.toElement)).Spelled S :=
      suits.node (by decide) (by simpa using all)
    have around : (Element.node "distributionSet"
        [.node "initialSet" (roles.map Role.toElement)]).Spelled S :=
      suits.node (by decide) (by simpa using set)
    simpa using around

theorem resourcing {r : Resourcing} (listed : ∀ role ∈ r.roles, role ∈ s.allRoles)
    (allowed : ∀ role ∈ r.roles, S.words role.idText) : r.toElement.Spelled S := by
  have all : ∀ role ∈ r.roles, role.toElement.Spelled S :=
    fun role mem => suits.role (listed role mem) (allowed role mem)
  unfold Resourcing.roles at all
  rw [List.forall_mem_append] at all
  refine suits.node (by decide) ?_
  simp only [List.forall_mem_cons]
  exact ⟨suits.step (by decide) all.1, suits.step (by decide) all.2,
    suits.step (by decide) (by simp), by simp⟩

/-! ### Instances -/

theorem instances {m : MultiInstance} (allowed : ∀ x ∈ m.texts, S.words x) :
    ∀ e ∈ m.toElements, e.Spelled S := by
  have input : ∀ i ∈ m.input, i.toElement.Spelled S := by
    intro i hi
    have own : ∀ x ∈ [i.expression, i.splitting, i.parameter.name], S.words x := by
      intro x mem
      refine allowed x (List.mem_append_left _ ?_)
      rw [Option.mem_def.mp hi]
      exact mem
    refine suits.node (by decide) ?_
    simp only [List.forall_mem_cons] at own ⊢
    exact ⟨suits.mark (by decide) own.1, suits.mark (by decide) own.2.1,
      suits.leaf (by decide) own.2.2.1, by simp⟩
  have output : ∀ o ∈ m.output, o.toElement.Spelled S := by
    intro o ho
    have own : ∀ x ∈ [o.expression, o.joining, o.target.name], S.words x := by
      intro x mem
      refine allowed x (List.mem_append_right _ ?_)
      rw [Option.mem_def.mp ho]
      exact mem
    refine suits.node (by decide) ?_
    simp only [List.forall_mem_cons] at own ⊢
    exact ⟨suits.mark (by decide) own.1, suits.mark (by decide) own.2.1,
      suits.leaf (by decide) own.2.2.1, by simp⟩
  have mode : S.words m.mode.name := suits.words _ (by cases m.mode <;> decide)
  unfold MultiInstance.toElements
  simp only [List.forall_mem_append, List.forall_mem_cons]
  refine ⟨⟨⟨suits.leaf (by decide) (suits.number _), suits.leaf (by decide) (suits.number _),
    suits.leaf (by decide) (suits.number _), suits.mark (by decide) mode, by simp⟩, ?_⟩, ?_⟩
  · cases given : m.input with
    | none => simp
    | some i => simpa using input i given
  · cases given : m.output with
    | none => simp
    | some o => simpa using output o given

/-! ### Texts -/

theorem node_texts (n : NodeId) : ∀ x ∈ (s.node n).texts, S.words x := by
  intro x mem
  by_cases stored : n.index < s.nodes.size
  · refine suits.texts x ?_
    simp only [Specification.texts, List.mem_cons, List.mem_append, List.mem_flatMap]
    exact .inl (.inr ⟨_, node_mem stored, mem⟩)
  · rw [node_eq_blank (Nat.le_of_not_lt stored)] at mem
    have empty : x = "" := by simpa [Node.texts, Node.blank, Kind.task?] using mem
    exact suits.words x (by rw [empty]; decide)

theorem id (n : NodeId) : S.words (s.node n).id :=
  suits.node_texts n _ (by simp [Node.texts])

theorem task_texts (task : s.task? n = some t) : ∀ x ∈ t.texts, S.words x := by
  intro x mem
  unfold task? at task
  exact suits.node_texts n x (by simp [Node.texts, task, mem])

theorem decomposition_texts (c : DecompositionId) :
    ∀ x ∈ (s.decomposition c).texts, S.words x := by
  intro x mem
  by_cases stored : c.index < s.decompositions.size
  · refine suits.texts x ?_
    have listed : s.decomposition c ∈ s.decompositions.toList := by
      simp [Specification.decomposition, stored]
    simp only [Specification.texts, List.mem_cons, List.mem_append, List.mem_flatMap]
    exact .inl (.inl (.inr ⟨_, listed, mem⟩))
  · rw [decomposition_eq_blank (Nat.le_of_not_lt stored)] at mem
    have empty : x = "" := by
      simpa [Decomposition.texts, Decomposition.blank, Decomposition.allVariables] using mem
    exact suits.words x (by rw [empty]; decide)

theorem predicate (e : EdgeId) : S.words (s.edge e).predicate := by
  by_cases stored : e.index < s.edges.size
  · refine suits.texts _ ?_
    have listed : s.edge e ∈ s.edges.toList := by
      simp [Specification.edge, stored]
    simp only [Specification.texts, List.mem_append]
    exact .inr (List.mem_map_of_mem listed)
  · rw [edge_eq_blank (Nat.le_of_not_lt stored)]
    exact suits.words "" (by decide)

/-! ### Nodes -/

theorem edgeElement (guard : S.words e.predicate) : (s.edgeElement e).Spelled S := by
  have target : S.words (s.targetId e) := by
    unfold targetId
    split
    · exact suits.id _
    · exact suits.words "" (by decide)
  have condition : S.words (if e.predicate.isEmpty then "true()" else e.predicate) := by
    split
    · exact suits.words _ (by decide)
    · exact guard
  rw [edgeElement_eq]
  refine suits.node (by decide) ?_
  simp only [List.forall_mem_cons, List.forall_mem_append]
  refine ⟨suits.mark (by decide) target, ?_, ?_⟩
  · unfold guardElements
    have number : S.Attributes
        (if 0 < e.ordering then [("ordering", toString e.ordering)] else []) := by
      split
      · exact suits.pair (by decide) (suits.number e.ordering)
      · exact .nil
    split
    · exact List.forall_mem_singleton.mpr (.leaf (suits.names _ (by decide)) condition number)
    · simp
  · unfold defaultElements
    split
    · have flag : (Element.leaf "isDefaultFlow").Spelled S :=
        suits.leaf (by decide) (suits.words "" (by decide))
      simpa using flag
    · simp

theorem decorator (x : Decorator) : S.words x.code :=
  suits.words _ (by cases x <;> decide)

theorem taskElements (task : s.task? n = some t) : ∀ e ∈ s.taskElements t, e.Spelled S := by
  have own := suits.task_texts task
  simp only [Task.mem_texts] at own
  have optional : ∀ {α : Type} {x : Option α} {f : α → Element},
      (∀ a, x = some a → (f a).Spelled S) → ∀ e ∈ (x.map f).toList, e.Spelled S := by
    intro α x f all
    cases x with
    | none => simp
    | some a => simpa using all a rfl
  unfold Specification.taskElements
  simp only [List.forall_mem_append, List.forall_mem_cons]
  refine ⟨⟨⟨⟨⟨⟨⟨⟨suits.mark (by decide) (suits.decorator t.join),
    suits.mark (by decide) (suits.decorator t.split), by simp⟩, ?_⟩, ?_⟩, ?_⟩, ?_⟩, ?_⟩, ?_⟩, ?_⟩
  · intro e he
    obtain ⟨m, _, rfl⟩ := List.mem_map.mp he
    exact suits.mark (by decide) (suits.id m)
  · exact suits.mappingElements (by decide) fun m hm x hx => own x (.inr (.inl ⟨m, hm, hx⟩))
  · exact suits.mappingElements (by decide)
      fun m hm x hx => own x (.inr (.inr (.inl ⟨m, hm, hx⟩)))
  · exact optional fun timer given => suits.timer
      fun x hx => own x (.inr (.inr (.inr (.inl ⟨timer, given, hx⟩))))
  · exact optional fun r given => suits.resourcing
      (fun role mem => mem_allRoles_of_task task given mem) fun role mem =>
      own _ (.inr (.inr (.inr (.inr (.inr ⟨r, given, role, mem, rfl⟩)))))
  · exact optional fun d _ => suits.mark (by decide)
      (suits.decomposition_texts d _ (by simp [Decomposition.texts]))
  · intro e he
    obtain ⟨m, given, mem⟩ := mem_getD_map.mp he
    have isInstances : t.multiInstance = some m := by
      unfold Task.instances? at given
      split at given
      · exact given
      · cases given
    exact suits.instances
      (fun x hx => own x (.inr (.inr (.inr (.inr (.inl ⟨m, isInstances, hx⟩)))))) e mem

theorem nodeAttributes (n : NodeId) : S.Attributes (nodeAttributes (s.node n)) := by
  have own : S.words (s.node n).id := suits.id n
  unfold Specification.nodeAttributes
  split
  · rename_i t isTask
    have task : s.task? n = some t := by
      rw [task?, isTask]
      rfl
    split
    · rename_i type isType
      have allowed : S.words type := suits.task_texts task type (Task.mem_texts.mpr (.inl isType))
      split
      · exact .cons (suits.names _ (by decide)) own (by simp) (suits.pair (by decide) allowed)
      · exact suits.pair (by decide) own
    · exact suits.pair (by decide) own
  · exact suits.pair (by decide) own

theorem nodeElement (n : NodeId) : (s.nodeElement n).Spelled S := by
  have name : S.words (s.node n).name := suits.node_texts n _ (by simp [Node.texts])
  have tag : S.name (nodeTag (s.node n).kind) :=
    suits.names _ (by cases (s.node n).kind <;> simp [nodeTag, fixedNames])
  refine .node tag (suits.words "" (by decide)) (suits.nodeAttributes n) ?_
  simp only [List.forall_mem_append]
  refine ⟨⟨?_, ?_⟩, ?_⟩
  · split
    · simp
    · simpa using suits.leaf (by decide) name
  · intro e he
    obtain ⟨edge, mem, rfl⟩ := List.mem_map.mp he
    obtain ⟨i, _, rfl⟩ := List.mem_map.mp (arranged_writtenEdges.each.mem_iff.mp mem)
    exact suits.edgeElement (suits.predicate i)
  · split
    · rename_i t isTask
      exact suits.taskElements (n := n) (by rw [task?, isTask]; rfl)
    · simp

/-! ### Decompositions and documents -/

theorem decompositionElement (c : DecompositionId) :
    (s.decompositionElement (s.decomposition c)).Spelled S := by
  have own := suits.decomposition_texts c
  have data : ∀ v ∈ (s.decomposition c).allVariables, ∀ x ∈ v.texts, S.words x := by
    intro v hv x hx
    exact own x (List.mem_cons_of_mem _ (List.mem_flatMap.mpr ⟨v, hv, hx⟩))
  simp only [Decomposition.allVariables, List.forall_mem_append] at data
  obtain ⟨⟨locals, inputs⟩, outputs⟩ := data
  have id : S.words (s.decomposition c).id := own _ (by simp [Decomposition.texts])
  have type : S.Attributes [("xsi:type", (s.decomposition c).facts.name)] :=
    suits.pair (by decide) (suits.words _ (by cases (s.decomposition c).facts <;> decide))
  have attributes : S.Attributes ([("id", (s.decomposition c).id)] ++
      (if (s.decomposition c).isRoot then [("isRootNet", "true")] else []) ++
        [("xsi:type", (s.decomposition c).facts.name)]) := by
    split
    · exact .cons (suits.names _ (by decide)) id (by simp) (.cons (suits.names _ (by decide))
        (suits.words _ (by decide)) (by simp) type)
    · exact .cons (suits.names _ (by decide)) id (by simp) type
  refine .node (suits.names _ (by decide)) (suits.words "" (by decide)) attributes ?_
  simp only [List.forall_mem_append]
  refine ⟨⟨suits.variableElements (by decide) inputs, suits.variableElements (by decide) outputs⟩,
    ?_⟩
  split
  · simp
  · simp only [List.forall_mem_append]
    refine ⟨suits.variableElements (by decide) locals, ?_⟩
    have nodes : (Element.node "processControlElements"
        ((s.writtenNodes (s.decomposition c)).map s.nodeElement)).Spelled S := by
      refine suits.node (by decide) fun e he => ?_
      obtain ⟨n, _, rfl⟩ := List.mem_map.mp he
      exact suits.nodeElement n
    simpa using nodes

/-- The document of a specification is spelled as the specification is. -/
theorem toDocument {content : String} (allowed : S.words content) :
    (s.toDocument content).Spelled S := by
  have uri : S.Attributes [("uri", s.id)] :=
    suits.pair (by decide) (suits.texts _ (by simp [Specification.texts]))
  have metadata : s.metadataElement.Spelled S := by
    refine suits.node (by decide) ?_
    simp only [List.forall_mem_cons]
    exact ⟨suits.leaf (by decide) (suits.words _ (by decide)),
      suits.leaf (by decide) (suits.words _ (by decide)),
      suits.leaf (by decide) suits.identifier, by simp⟩
  have schema : (schemaElement content).Spelled S :=
    .leaf (suits.names _ (by decide)) allowed (suits.pair (by decide) (suits.words _ (by decide)))
  have specification : (Element.node "specification"
      ([s.metadataElement, schemaElement content] ++
        s.writtenDecompositions.map s.decompositionElement) [("uri", s.id)]).Spelled S := by
    refine .node (suits.names _ (by decide)) (suits.words "" (by decide)) uri ?_
    simp only [List.forall_mem_append, List.forall_mem_cons]
    refine ⟨⟨metadata, schema, by simp⟩, fun e he => ?_⟩
    obtain ⟨d, written, rfl⟩ := List.mem_map.mp he
    obtain ⟨c, _, rfl⟩ := exists_of_mem_written written
    exact suits.decompositionElement c
  have attributes : S.Attributes [("xmlns", specificationNamespace),
      ("xmlns:xsi", instanceNamespace), ("version", "2.0"),
      ("xsi:schemaLocation", schemaLocation)] :=
    .cons (suits.names _ (by decide)) (suits.words _ (by decide)) (by decide)
      (.cons (suits.names _ (by decide)) (suits.words _ (by decide)) (by decide)
        (.cons (suits.names _ (by decide)) (suits.words _ (by decide)) (by decide)
          (suits.pair (by decide) (suits.words _ (by decide)))))
  exact .node (suits.names _ (by decide)) (suits.words "" (by decide)) attributes
    (by simpa using specification)

end Suits

end Specification

end ProcessNets
