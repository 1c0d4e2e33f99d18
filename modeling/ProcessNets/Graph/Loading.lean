import ProcessNets.Diagram.Build
import ProcessNets.Graph.Parts

/-!
# Loading diagrams from graphs

The diagram that a graph describes. Subjects are visited in the order of their URIs: first every
part is created, then nodes are placed in containers, and last flows, associations and boundary
events join the nodes. Only a flow whose end is not declared makes loading fail.
-/

namespace ProcessNets.Graph

open Diagram (Container Lane NodeId)

/-! ### State -/

/-- Why a graph describes no diagram. -/
inductive LoadFault where
  /-- A flow refers to a node that is not declared, or to nothing. -/
  | undeclaredNode (flow : String) (ref : Option String)
deriving DecidableEq, Repr

def LoadFault.message : LoadFault → String
  | .undeclaredNode flow ref =>
    let name := ref.getD "None"
    s!"Flow {flow} references undeclared node {name}"

/-- The diagram drawn so far and what the subjects of the graph stand for in it, each list in the
order of the subjects. -/
structure Loaded where
  diagram : Diagram := {}
  nodes : List (Term × NodeId) := []
  containers : List (Term × Container) := []
  lanes : List (Term × Lane) := []
  flows : List Term := []
  associations : List Term := []
  log : List Log.Event := []
deriving Inhabited

abbrev Load := ExceptT LoadFault (StateM Loaded)

def tell (event : Log.Event) : Load Unit :=
  modify fun l => { l with log := l.log ++ [event] }

/-! ### Creating parts -/

/-- The state with a pool for a subject. -/
def Loaded.withPool (l : Loaded) (subject : Term) (label : String) : Loaded :=
  { l with
    diagram := l.diagram.addPool { id := subject.localName, label }
    containers := l.containers ++ [(subject, .pool l.diagram.pools.size)] }

/-- The state with a node for a subject. A subprocess is a container too, and a data object is
listed with the diagram. -/
def Loaded.withNode (l : Loaded) (subject : Term) (label : String) (kind : Diagram.Kind) :
    Loaded :=
  let (n, diagram) := l.diagram.addNode { kind, id := subject.localName, label }
  let listed := if kind.isDataObject then diagram.dataObjects ++ [n] else diagram.dataObjects
  { l with
    diagram := { diagram with dataObjects := listed }
    nodes := l.nodes ++ [(subject, n)]
    containers := match kind with
      | .subprocess .. => l.containers ++ [(subject, .subprocess n)]
      | _ => l.containers }

def Loaded.withSubject (g : Graph) (l : Loaded) (subject : Term) : Loaded :=
  let (part, events) := g.part subject
  let l := { l with log := l.log ++ events }
  match part with
  | .flow => { l with flows := l.flows ++ [subject] }
  | .association => { l with associations := l.associations ++ [subject] }
  | .pool => l.withPool subject (g.label subject)
  | .lane => { l with lanes := l.lanes ++ [(subject, ⟨subject.localName, g.label subject⟩)] }
  | .node kind => l.withNode subject (g.label subject) kind
  | .nothing => l

/-- The state with all parts that a graph describes. -/
def parts (g : Graph) : Loaded :=
  g.typedSubjects.foldl (Loaded.withSubject g) {}

/-! ### References -/

/-- The subject that a reference means. A literal means the first node with that local name. -/
def Loaded.resolve (l : Loaded) (ref : Term) : Term :=
  match ref with
  | .literal text _ => ((l.nodes.find? fun e => e.1.localName == text).map (·.1)).getD ref
  | _ => ref

/-- The node that a reference means. -/
def Loaded.node? (l : Loaded) (ref : Term) : Option NodeId :=
  l.nodes.lookup (l.resolve ref)

/-! ### Placing nodes -/

/-- Seeing one more of a list of terms leaves fewer of them unseen. -/
theorem countP_unseen_lt {terms seen : List Term} {t : Term} (member : t ∈ terms)
    (new : t ∉ seen) : terms.countP (· ∉ t :: seen) < terms.countP (· ∉ seen) := by
  induction terms with
  | nil => simp at member
  | cons first rest ih =>
    have fewer : rest.countP (· ∉ t :: seen) ≤ rest.countP (· ∉ seen) :=
      List.countP_mono_left fun x _ => by simp
    by_cases here : first = t
    · subst here
      simp only [List.countP_cons, List.mem_cons, true_or, not_true_eq_false, decide_false, new,
        not_false_eq_true, decide_true]
      simp only [List.mem_cons] at fewer
      simpa using Nat.lt_succ_of_le fewer
    · have step := ih ((List.mem_cons.mp member).resolve_left (Ne.symm here))
      by_cases old : first ∈ seen
      · simpa [List.countP_cons, here, old] using step
      · simpa [List.countP_cons, here, old] using step

/-- The terms met by following first parents, up to the first repetition. -/
def parentChain (g : Graph) (seen : List Term) (t : Term) : List Term :=
  match _ : g.value? t (bpmn "hasParent") with
  | none => []
  | some parent =>
    if _ : parent ∈ seen then [] else parent :: parentChain g (parent :: seen) parent
termination_by (g.triples.map (·.object)).countP (· ∉ seen)
decreasing_by exact countP_unseen_lt (List.mem_map_of_mem (value?_mem ‹_›)) ‹_›

/-- The terms above a subject, nearest first. -/
def ancestors (g : Graph) (subject : Term) : List Term :=
  parentChain g [subject] subject

/-- The first container above a subject, and the first lane before it. -/
def Loaded.enclosing (l : Loaded) : List Term → Option Container × Option Lane
  | [] => (none, none)
  | t :: rest => match l.containers.lookup t with
    | some container => (some container, none)
    | none =>
      let (container, lane) := l.enclosing rest
      (container, l.lanes.lookup t <|> lane)

/-- The lane that lists a subject as a member, the last one if several do. -/
def Loaded.memberLane (g : Graph) (l : Loaded) (subject : Term) : Option Lane :=
  (l.lanes.filter fun e =>
    (g.objects e.1 (bpmn "flowNodeRef")).any fun m => l.resolve m = subject).getLast?.map (·.2)

/-- The first pool, added if the graph declares none. -/
def Loaded.withFirstPool (l : Loaded) : Loaded :=
  if l.diagram.pools.isEmpty then
    { l with diagram := l.diagram.addPool { id := "process" } }
  else l

/-- Gives a node its lane and puts it into its container, the first pool if it has none. -/
def placeNode (g : Graph) (entry : Term × NodeId) : Load Unit := do
  let (subject, n) := entry
  let l ← get
  if (l.diagram.node n).kind.isDataObject then return
  -- A lane met on the way up counts before one that lists the node as its member.
  let (container, walked) := l.enclosing (g.ancestors subject)
  let lane := walked <|> l.memberLane g subject
  let laned := match lane with
    | some lane => l.diagram.modifyNode n fun node => { node with parent := some (.lane lane) }
    | none => l.diagram
  set { l with diagram := laned }
  match container with
  | some container => modify fun l => { l with diagram := l.diagram.adopt container [n] }
  | none =>
    modify Loaded.withFirstPool
    let diagram := (← get).diagram
    tell (.orphan (diagram.node n).id (diagram.pool 0).id)
    modify fun l => { l with diagram := l.diagram.adopt (.pool 0) [n] }

/-! ### Joining nodes -/

/-- The node that an end of a flow refers to. -/
def flowEnd (flow : Term) (ref : Option Term) : Load NodeId := do
  match ref.bind (← get).node? with
  | some n => return n
  | none => throw (.undeclaredNode flow.text (ref.map Term.text))

/-- Draws a sequence flow. A flow that its source names as the default is one, whatever its
condition. -/
def joinFlow (g : Graph) (flow : Term) : Load Unit := do
  let sourceRef := g.value? flow (bpmn "sourceRef")
  let source ← flowEnd flow sourceRef
  let target ← flowEnd flow (g.value? flow (bpmn "targetRef"))
  let l ← get
  let expression := g.textOr flow (bpmn "conditionBody")
  let isDefault := Text.lower (g.textOr flow (bpmn "conditionType")) == "default" ||
    sourceRef.any fun ref => g.holds (l.resolve ref) (bpmn "default") flow
  let (_, diagram) :=
    -- A default flow loses its expression.
    if isDefault then l.diagram.connect source target .default "" flow.localName
    else l.diagram.connect source target .none expression flow.localName
  set { l with diagram }

/-- Draws a data association, unless one of its ends is not declared. -/
def joinAssociation (g : Graph) (association : Term) : Load Unit := do
  let l ← get
  let source := (g.value? association (bpmn "sourceRef")).bind l.node?
  let target := (g.value? association (bpmn "targetRef")).bind l.node?
  match source, target with
  | some source, some target =>
    set { l with diagram := (l.diagram.associate source target association.localName).2 }
  | _, _ => tell (.danglingAssociation association.text)

/-- Whether a node is an event that can be attached. -/
def isIntermediate : Diagram.Kind → Bool
  | .intermediate .. => true
  | _ => false

/-- Attaches a node to the activity that it refers to, if it refers to anything. -/
def joinBoundary (g : Graph) (entry : Term × NodeId) : Load Unit := do
  let (subject, n) := entry
  match g.value? subject (bpmn "attachedToRef") with
  | none => return
  | some ref =>
    let l ← get
    let host := (l.node? ref).filter fun h => (l.diagram.node h).kind.activity?.isSome
    match host, isIntermediate (l.diagram.node n).kind with
    | some host, true => set { l with diagram := l.diagram.attach n host }
    | _, _ => tell (.strayBoundaryEvent subject.text)

/-! ### Whole graphs -/

/-- Draws the diagram that a graph describes. -/
def draw (g : Graph) : Load Unit := do
  set g.parts
  let nodes := (← get).nodes
  nodes.forM (placeNode g)
  (← get).flows.forM (joinFlow g)
  (← get).associations.forM (joinAssociation g)
  nodes.forM (joinBoundary g)
  let definition := ((g.objectsOf (bpmn "dataTypeDefinition")).head?.map Term.text).getD ""
  modify fun l => { l with diagram := { l.diagram with typeDefinition := definition } }
  let l ← get
  tell (.loaded l.diagram.pools.size l.nodes.length l.flows.length)

/-- The diagram that a graph describes, or why there is none, and what is told on the way. -/
def load (g : Graph) : Except LoadFault Diagram × List Log.Event :=
  let (result, l) := (draw g).run {}
  (result.map fun () => l.diagram, l.log)

end ProcessNets.Graph
