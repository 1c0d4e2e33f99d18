import ProcessNets.Net.Basic
import ProcessNets.Text.Lower
import ProcessNets.Xml.Element

/-!
# Specification documents

The element tree of a specification: its metadata, the schema of its data types, and its
decompositions, root nets first. The nodes of a net stand in creation order between its input and
its output condition, the edges of a node by their ordering with unordered edges last.
-/

namespace ProcessNets.Net

open Xml (Element)

/-! ### Vocabulary -/

/-- The namespace of specifications. -/
def specificationNamespace : String := "http://www.yawlfoundation.org/yawlschema"

/-- Where the schema of specifications is found. -/
def schemaLocation : String :=
  "http://www.yawlfoundation.org/yawlschema " ++
    "http://www.yawlfoundation.org/yawlschema/YAWL_Schema2.0.xsd"

/-- The namespace of schemas. -/
def schemaNamespace : String := "http://www.w3.org/2001/XMLSchema"

/-- The namespace of attributes that refer to schemas. -/
def instanceNamespace : String := "http://www.w3.org/2001/XMLSchema-instance"

/-- The types that schemas declare themselves, lowered. -/
def schemaTypes : List String := [
  "anyuri", "boolean", "byte", "date", "datetime", "decimal", "double", "duration", "float",
  "int", "integer", "long", "short", "string", "time"]

/-! ### Variables and mappings -/

/-- The element of a variable at a place in its list. -/
def variableElement (tag : String) (withInitial : Bool) (v : Variable) (index : Nat) : Element :=
  let namespaceElement :=
    if Text.lower v.type ∈ schemaTypes then [.leaf "namespace" schemaNamespace] else []
  let initial :=
    if withInitial && !v.initialValue.isEmpty then [.leaf "initialValue" v.initialValue] else []
  .node tag ([.leaf "index" (toString index), .leaf "name" v.name, .leaf "type" v.type] ++
    namespaceElement ++ initial)

/-- The elements of a list of variables. -/
def variableElements (tag : String) (withInitial : Bool) (vs : List Variable) :
    List Element :=
  vs.zipIdx.map fun (v, index) => variableElement tag withInitial v index

def mappingElement (m : Mapping) : Element :=
  .node "mapping" [.leaf "expression" "" [("query", m.query)], .leaf "mapsTo" m.target.name]

/-- The element of a list of mappings, none for an empty list. -/
def mappingElements (tag : String) (mappings : List Mapping) : List Element :=
  if mappings.isEmpty then [] else [.node tag (mappings.map mappingElement)]

/-! ### Details of tasks -/

/-- The code of a decorator. A task without decorator takes a single edge, where an exclusive
decorator means the same. -/
def Decorator.code : Decorator → String
  | .none => "xor"
  | decorator => decorator.name

/-- The element of a timer: its moment in milliseconds, its duration, or the variable that holds
the value. -/
def Timer.toElement (timer : Timer) : Element :=
  let trigger : Element := .leaf "trigger" timer.trigger.name
  .node "timer" <| match timer.moment with
    | some moment => [trigger, .leaf "expiry" (toString (moment.seconds * 1000))]
    | none =>
      if timer.cycle.isEmpty then [.leaf "netparam" timer.netParameter]
      else [trigger, .leaf "duration" timer.cycle]

/-- The id of a role as text. -/
def Role.idText (role : Role) : String :=
  match role.id with
  | .string s => s
  | _ => ""

/-- The element of a role, named for its kind. A role without kind is only a text. -/
def Role.toElement (role : Role) : Element :=
  match role.kind with
  | .string kind => .leaf kind role.idText
  | _ => .text role.idText

/-- The element of a step in the life of work items. -/
def stepElement (tag : String) (initiator : Initiator) (roles : Option (List Role)) : Element :=
  .element tag [("initiator", initiator.name)] "" <| match roles with
    | some roles => [.node "distributionSet" [.node "initialSet" (roles.map Role.toElement)]]
    | none => []

def Resourcing.toElement (r : Resourcing) : Element :=
  .node "resourcing" [
    stepElement "offer" r.offer r.offerSet,
    stepElement "allocate" r.allocate r.allocateSet,
    stepElement "start" r.start none]

def InstanceInput.toElement (input : InstanceInput) : Element :=
  .node "miDataInput" [
    .leaf "expression" "" [("query", input.expression)],
    .leaf "splittingExpression" "" [("query", input.splitting)],
    .leaf "formalInputParam" input.parameter.name]

def InstanceOutput.toElement (output : InstanceOutput) : Element :=
  .node "miDataOutput" [
    .leaf "formalOutputExpression" "" [("query", output.expression)],
    .leaf "outputJoiningExpression" "" [("query", output.joining)],
    .leaf "resultAppliedToLocalVariable" output.target.name]

/-- The elements of the instances of a task. -/
def MultiInstance.toElements (m : MultiInstance) : List Element :=
  [.leaf "minimum" (toString m.minimum), .leaf "maximum" (toString m.maximum),
    .leaf "threshold" (toString m.threshold),
    .leaf "creationMode" "" [("code", m.mode.name)]] ++
  (m.input.map InstanceInput.toElement).toList ++ (m.output.map InstanceOutput.toElement).toList

/-- The instances of a task that runs in several instances. -/
def Task.instances? (t : Task) : Option MultiInstance :=
  if t.multiple then t.multiInstance else none

end ProcessNets.Net

namespace ProcessNets.Specification

open Net
open Xml (Element)

/-- The elements that only tasks have. -/
def taskElements (s : Specification) (t : Task) : List Element :=
  [.leaf "join" "" [("code", t.join.code)], .leaf "split" "" [("code", t.split.code)]] ++
  t.cancels.map (fun n => .leaf "removesTokens" "" [("id", (s.node n).id)]) ++
  mappingElements "startingMappings" t.starting ++
  mappingElements "completedMappings" t.completed ++
  (t.timer.map Timer.toElement).toList ++
  (t.resourcing.map Resourcing.toElement).toList ++
  (t.decomposesTo.map fun d =>
    Element.leaf "decomposesTo" "" [("id", (s.decomposition d).id)]).toList ++
  (t.instances?.map MultiInstance.toElements).getD []

/-! ### Nodes and edges -/

def edgeLe (a b : Edge) : Bool :=
  -- An ordering of 0 stands for none: such an edge comes last, even behind greater ones.
  let unordered (e : Edge) : Nat := if e.ordering = 0 then 1 else 0
  unordered a < unordered b || (unordered a == unordered b && a.ordering ≤ b.ordering)

/-- The edges that leave a node, in written order. -/
def writtenEdges (s : Specification) (n : NodeId) : List Edge :=
  (s.outgoing n).mergeSort edgeLe

/-- The element of an edge. Ordered edges have a predicate in any case. -/
def edgeElement (s : Specification) (e : Edge) : Element :=
  let targetId := match e.target with
    | some n => (s.node n).id
    | none => ""
  let guard :=
    if 0 < e.ordering ∨ ¬e.predicate.isEmpty then
      [Element.leaf "predicate" (if e.predicate.isEmpty then "true()" else e.predicate)
        (if 0 < e.ordering then [("ordering", toString e.ordering)] else [])]
    else []
  .node "flowsInto" ([.leaf "nextElementRef" "" [("id", targetId)]] ++ guard ++
    if e.isDefault then [.leaf "isDefaultFlow"] else [])

/-- The tag of a node. -/
def nodeTag : Kind → String
  | .task _ => "task"
  | .condition => "condition"
  | .inputCondition => "inputCondition"
  | .outputCondition => "outputCondition"

def nodeAttributes (node : Node) : List Xml.Attribute :=
  ("id", node.id) :: match node.kind with
    | .task t => match t.elementType with
      | some type => if t.multiple && !type.isEmpty then [("xsi:type", type)] else []
      | none => []
    | _ => []

def nodeElement (s : Specification) (n : NodeId) : Element :=
  let node := s.node n
  let name := if node.name.isEmpty then [] else [Element.leaf "name" node.name]
  let details := match node.kind with
    | .task t => s.taskElements t
    | _ => []
  .node (nodeTag node.kind) (name ++ (s.writtenEdges n).map s.edgeElement ++ details)
    (nodeAttributes node)

/-! ### Decompositions -/

/-- The nodes of a net in written order: the input condition first, the output condition last. -/
def writtenNodes (s : Specification) (d : Decomposition) : List NodeId :=
  d.inputCondition.toList ++ d.nodes.filter (fun n => !(s.node n).kind.isBoundary) ++
    d.outputCondition.toList

def decompositionElement (s : Specification) (d : Decomposition) : Element :=
  let parameters :=
    variableElements "inputParam" false d.inputs ++ variableElements "outputParam" false d.outputs
  let content := match d.facts with
    | .webServiceGateway => []
    | .net =>
      variableElements "localVariable" true d.locals ++
        [.node "processControlElements" ((s.writtenNodes d).map s.nodeElement)]
  .node "decomposition" (parameters ++ content)
    ([("id", d.id)] ++ (if d.isRoot then [("isRootNet", "true")] else []) ++
      [("xsi:type", d.facts.name)])

/-- The decompositions in written order: root nets first. -/
def writtenDecompositions (s : Specification) : List Decomposition :=
  let all := s.decompositions.toList
  all.filter (·.isRoot) ++ all.filter (!·.isRoot)

/-! ### Documents -/

/-- The element of the schema, with the given text as its content. -/
def schemaElement (content : String) : Element :=
  .leaf "xs:schema" content [("xmlns:xs", schemaNamespace)]

def metadataElement (s : Specification) : Element :=
  .node "metaData" [
    .leaf "version" "0.1", .leaf "persistent" "false", .leaf "identifier" ("UID_" ++ s.id)]

/-- The document of a specification, with the given text as the content of its schema. -/
def toDocument (s : Specification) (schemaContent : String) : Element :=
  .node "specificationSet" [
    .node "specification"
      ([s.metadataElement, schemaElement schemaContent] ++
        s.writtenDecompositions.map s.decompositionElement)
      [("uri", s.id)]]
    [("xmlns", specificationNamespace), ("xmlns:xsi", instanceNamespace), ("version", "2.0"),
      ("xsi:schemaLocation", schemaLocation)]

end ProcessNets.Specification
