import ProcessNets.Compile.Run

/-!
# Data of tasks

Data objects, properties and assignments become variables of the net, queries that move their
values into and out of tasks, and parameters of the decompositions that the tasks run.
-/

namespace ProcessNets.Compile

open Net (DecompositionId Variable VariableList variableQuery)
open Diagram (Activity Assignment Property)

/-! ### Properties and assignments -/

/-- The type of a property: lowered, and `string` where the diagram gives none. -/
def propertyType (property : Property) : String :=
  let lowered := (property.type.map Text.lower).getD ""
  if lowered.isEmpty || lowered == "null" then "string" else lowered

/-- The query that reads a variable of a net. -/
def netQuery (d : DecompositionId) (v : Variable) : Compile String :=
  return variableQuery ((← spec).decomposition d).id v.name

/-- The query that reads a variable of a finished task. -/
def taskQuery (task : Net.NodeId) (v : Variable) : Compile String :=
  return variableQuery ((← spec).node task).id v.name

/-- The variable that a name means for the task at hand, noted with the variables met for it. -/
def resolveVariable (d : DecompositionId) (which : VariableList) (v : Variable) :
    Compile Variable := do
  let state ← get
  let (known, met) := state.met.resolve (state.spec.decomposition d) which v
  set { state with met }
  return known

/-- A property becomes a variable that is read when the task starts and written back when it
completes. -/
def bindProperty (d : DecompositionId) (task : Net.NodeId) (property : Property) :
    Compile Unit := do
  let v ← resolveVariable d .locals
    { name := property.name, type := propertyType property, initialValue := property.value }
  let _ ← edit (.addStarting task (← netQuery d v) v)
  let _ ← edit (.addCompleted task (← taskQuery task v) v)

def bindProperties (d : DecompositionId) (activity : Activity) (task : Net.NodeId) :
    Compile Unit :=
  activity.properties.forM (bindProperty d task)

/-- An assignment at the start reads a variable of the net, one at the end writes it back. -/
def bindAssignment (d : DecompositionId) (task : Net.NodeId) (assignment : Assignment) :
    Compile Unit := do
  match assignment.time with
  | .start =>
    let v ← resolveVariable d .inputs { name := assignment.target }
    let _ ← edit (.addStarting task (← netQuery d v) v)
  | .finish =>
    let v ← resolveVariable d .outputs { name := assignment.target }
    let _ ← edit (.addCompleted task (← taskQuery task v) v)

def bindAssignments (d : DecompositionId) (activity : Activity) (task : Net.NodeId) :
    Compile Unit :=
  activity.assignments.forM (bindAssignment d task)

def declareAll (d : DecompositionId) (which : VariableList) (vs : List Variable) :
    Compile Unit :=
  vs.forM fun v => do
    let _ ← edit (.declareVariable d which v)

/-- Declares the locals met for a task in its net, and everything met as parameters of the
decomposition that the task runs. -/
def declareTaskVariables (d : DecompositionId) (inner : Option DecompositionId) :
    Compile Unit := do
  let tv := (← get).met
  declareAll d .locals tv.locals
  match inner with
  | none => return
  | some inner =>
    declareAll inner .inputs (tv.locals ++ tv.inputs)
    declareAll inner .outputs (tv.locals ++ tv.outputs)

/-! ### Data objects -/

/-- A task reads a data object: it starts with the variable as an input. -/
def bindReader (query : String) (v : Variable) (task : Net.NodeId) : Compile Unit := do
  match (← spec).task? task with
  | none => return
  | some t =>
    let _ ← edit (.addStarting task query v)
    match t.decomposesTo with
    | none => return
    | some inner =>
      let _ ← edit (.declareVariable inner .inputs v)

/-- A task writes a data object: it completes with the variable as an output. -/
def bindWriter (v : Variable) (task : Net.NodeId) : Compile Unit := do
  match (← spec).task? task with
  | none => return
  | some t =>
    let _ ← edit (.addCompleted task (← taskQuery task v) v)
    match t.decomposesTo with
    | none => return
    | some inner =>
      let _ ← edit (.declareVariable inner .outputs v)

/-- A data object becomes a local variable of a net if one of its ends has a counterpart there
and the net does not know its name yet. -/
def bindDataObject (job : Job) (scope : Scope) (n : Diagram.NodeId) :
    Compile (Option Variable) := do
  let node := job.diagram.node n
  let readers := (job.diagram.outgoing n).filterMap fun e => scope.map.find? e.target
  let writers := (job.diagram.incoming n).filterMap fun e => scope.map.find? e.source
  -- Only ends in this net count: an association may lead into another one.
  if readers.isEmpty && writers.isEmpty then return none
  let net := (← spec).decomposition scope.net
  if (net.findVariable? node.title).isSome then
    tell (.variableKnown node.title net.id)
    return none
  let (type, value) ← match node.kind with
    | .dataObject type value => pure (type, value)
    | _ => throw (.unsuited n)
  let v : Variable :=
    { name := node.title, type := if type.isEmpty then "string" else type, initialValue := value }
  edit (.appendVariable scope.net .locals v)
  readers.forM (bindReader (variableQuery net.id v.name) v)
  writers.forM (bindWriter v)
  return some v

end ProcessNets.Compile
