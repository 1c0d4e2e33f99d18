import ProcessNets.Diagram.Basic
import ProcessNets.Graph.Vocabulary
import ProcessNets.Log

/-!
# Parts of diagrams in graphs

What a subject of a graph stands for, read off its types: a flow, an association, a pool, a lane,
or a node with everything that the graph says of it.
-/

namespace ProcessNets.Graph

open Diagram (Activity Assignment Initiators InstanceFlow Kind Property)

/-! ### Words in type names -/

def isAny (types names : List String) : Bool :=
  types.any (names.contains ·)

def anyEndsWith (types : List String) (word : String) : Bool :=
  types.any fun t => word.toList.isSuffixOf t.toList

def anyStartsWith (types : List String) (word : String) : Bool :=
  types.any fun t => word.toList.isPrefixOf t.toList

/-! ### Activities -/

/-- The properties of an activity, in the order of their texts. -/
def properties (g : Graph) (subject : Term) : List Property :=
  (Term.sort (g.objects subject (bpmn "hasProperty"))).map fun p =>
    { name := g.textOr p (bpmn "name")
      type := some (g.textOr p (bpmn "type") "string")
      value := g.textOr p (bpmn "value") }

/-- The assignments of an activity, in the order of their texts. -/
def assignments (g : Graph) (subject : Term) : List Assignment :=
  (Term.sort (g.objects subject (bpmn "hasAssignment"))).map fun a =>
    let time := Text.lower (g.textOr a (bpmn "assignTime") "start")
    { target := g.textOr a (bpmn "to")
      expression := g.textOr a (bpmn "from")
      time := if time == "end" then .finish else .start }

def instanceFlow? : String → Option InstanceFlow
  | "none" => some .none
  | "one" => some .one
  | "all" => some .all
  | "complex" => some .complex
  | _ => none

/-- The activity that a subject describes, and what is told of it. -/
def activity (g : Graph) (subject : Term) : Activity × List Log.Event :=
  let loop := g.text? subject (bpmn "loopCondition")
  let multiInstance := (g.value? subject (bpmn "loopCharacteristics")).isSome ||
    Text.lower (g.textOr subject (bpmn "multiInstance")) == "true"
  let flow := Text.lower (g.textOr subject (bpmn "miFlowCondition") "none")
  let plain : Activity :=
    { properties := g.properties subject
      assignments := g.assignments subject
      loops := loop.isSome
      loopCondition := loop.getD ""
      multiInstance }
  if multiInstance then
    match instanceFlow? flow with
    | some instanceFlow => ({ plain with instanceFlow }, [])
    | none => (plain, [.unknownInstanceFlow flow subject.text])
  else (plain, [])

def initiators (g : Graph) (subject : Term) : Initiators :=
  { offered := g.text? subject (bpmn "offeredBy")
    allocated := g.text? subject (bpmn "allocatedBy")
    started := g.text? subject (bpmn "startedBy") }

/-! ### Events -/

/-- What can trigger an event. -/
def triggerNames : List String := ["timer", "message", "error", "terminate"]

/-- The triggers of an event: named at the start of its types, as its definition, or by the types
of its children. -/
def triggers (g : Graph) (subject : Term) (types : List String) : List String :=
  let named := triggerNames.filter (anyStartsWith types ·)
  let defined := (g.objects subject (bpmn "eventDefinition")).map fun t => Text.lower t.text
  let childTypes := (g.children subject).flatMap g.typeNames
  let typed := triggerNames.filter fun name => childTypes.contains (name ++ "eventdefinition")
  named ++ defined ++ typed

def firstText (texts : List String) : String :=
  (texts.find? (!·.isEmpty)).getD ""

/-- The subjects that can give the value of a timer: the event itself, then the timer
definitions among its children. -/
def timerSources (g : Graph) (subject : Term) : List Term :=
  subject :: (g.children subject).filter fun c => (g.typeNames c).contains "timereventdefinition"

def timer (g : Graph) (subject : Term) : Diagram.Trigger :=
  let sources := g.timerSources subject
  .timer (firstText (sources.map (g.textOr · (bpmn "timeDate"))))
    (firstText (sources.map (g.textOr · (bpmn "timeCycle"))))

/-- The event that a subject stands for, if its types name one. -/
def event? (g : Graph) (subject : Term) (types : List String) : Option Kind :=
  let triggers := g.triggers subject types
  if anyEndsWith types "startevent" then some .startEvent
  else if anyEndsWith types "endevent" then
    some <| .endEvent <|
      -- Several triggers may be named: the order of the tests decides between them.
      if triggers.contains "error" then .error
      else if triggers.contains "terminate" then .terminate
      else .plain
  else if anyEndsWith types "boundaryevent" || anyStartsWith types "intermediate" then
    let trigger :=
      if triggers.contains "timer" then g.timer subject
      else if triggers.contains "message" then .message
      else if triggers.contains "error" then .error
      else .plain
    some (.intermediate trigger none)
  else none

/-! ### Nodes -/

/-- The types of gateways with their routing rules; the first that fits counts. -/
def gatewayTypes : List (String × Diagram.Routing) := [
  ("parallelgateway", .parallel), ("inclusivegateway", .inclusive),
  ("exclusivegateway", .exclusive), ("eventbasedgateway", .eventBased)]

/-- The node that a subject stands for, if its types name one, and what is told of it. -/
def nodeKind? (g : Graph) (subject : Term) (types : List String) :
    Option Kind × List Log.Event :=
  if isAny types ["subprocess", "expandedsubprocess"] then
    let (activity, events) := g.activity subject
    (some (.subprocess activity []), events)
  else if anyEndsWith types "task" then
    let (activity, events) := g.activity subject
    (some (.task activity (g.initiators subject)), events)
  else match gatewayTypes.find? fun entry => types.contains entry.1 with
    | some (_, routing) => (some (.gateway routing), [])
    | none =>
      if isAny types ["dataobject", "dataobjectreference"] then
        (some (.dataObject (g.textOr subject (bpmn "dataType") "string")
          (g.textOr subject (bpmn "value"))), [])
      else (g.event? subject types, [])

/-! ### Parts -/

def associationTypes : List String :=
  ["association", "datainputassociation", "dataoutputassociation"]

/-- Types of subjects that belong to a part of a diagram and are none themselves. -/
def auxiliaryTypes : List String := [
  "laneset", "flownoderef", "definitions", "timereventdefinition", "messageeventdefinition",
  "erroreventdefinition", "terminateeventdefinition", "signaleventdefinition", "timedate",
  "timecycle", "timeduration", "conditionexpression", "multiinstanceloopcharacteristics",
  "property", "assignment"]

/-- What a subject stands for in a diagram. -/
inductive Part where
  | flow
  | association
  | pool
  | lane
  | node (kind : Kind)
  /-- Nothing by itself. -/
  | nothing
deriving DecidableEq, Repr

/-- The type names in order, each once. -/
def sortedNames (types : List String) : List String :=
  let distinctNames := types.foldl (fun found t => if t ∈ found then found else found ++ [t]) []
  distinctNames.mergeSort (· ≤ ·)

/-- What a subject stands for, and what is told of it. -/
def part (g : Graph) (subject : Term) : Part × List Log.Event :=
  let types := g.typeNames subject
  if types.contains "sequenceflow" then (.flow, [])
  else if isAny types associationTypes then (.association, [])
  else if types.contains "process" then (.pool, [])
  else if types.contains "lane" then (.lane, [])
  else match g.nodeKind? subject types with
    | (some kind, events) => (.node kind, events)
    | (none, events) =>
      if isAny types auxiliaryTypes then (.nothing, events)
      else (.nothing, events ++ [.unknownType (sortedNames types) subject.text])

end ProcessNets.Graph
