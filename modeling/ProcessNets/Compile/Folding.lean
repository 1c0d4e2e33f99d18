import ProcessNets.Compile.Run

/-!
# Folding gateways

A control gateway becomes a decorator of a task. One that only splits is folded onto the task
before it, one that only joins onto the task after it, and one that does neither onto the task
before it, without a decorator. Where the neighbour has no task of its own for it, or where the
gateway both splits and joins, a new task carries the decorators.
-/

namespace ProcessNets.Compile

open Net (Decorator Task)

/-- The decorator that a routing rule stands for. -/
def decorator? : Diagram.Routing → Option Decorator
  | .parallel => some .and
  | .inclusive => some .or
  | .exclusive => some .xor
  | .eventBased => none

/-- A task that only routes. -/
def createRoutingTask (scope : Scope) : Compile Net.NodeId := do
  edit (.createTask scope.net (← generateId) "Task")

/-- The task of a neighbour, if that node has no other flows on the side of the gateway, or else
a new one. -/
def neighbourTask (scope : Scope) (neighbour : Option Diagram.NodeId)
    (fan : Diagram.NodeId → Nat) : Compile Net.NodeId := do
  let s ← spec
  -- A neighbour with several flows on that side needs the decorator of its task for them.
  let mapped := neighbour.bind fun n => if 1 < fan n then none else scope.map.find? n
  match mapped.filter fun y => !(s.node y).kind.isCondition with
  | some task => return task
  | none => createRoutingTask scope

/-- The task with the decorator on the sides where it is wanted. -/
def decorate (decorator : Decorator) (split join : Bool) (task : Task) : Task :=
  { task with
    split := if split then decorator else task.split
    join := if join then decorator else task.join }

/-- Folds a gateway: finds its task, sets the decorators and registers the task as the
counterpart of the gateway. -/
def fold (job : Job) (scope : Scope) (n : Diagram.NodeId) : Compile (Net.NodeId × Scope) := do
  let diagram := job.diagram
  let fanIn (m : Diagram.NodeId) := (diagram.incomingFlows m).length
  let fanOut (m : Diagram.NodeId) := (diagram.outgoingFlows m).length
  let split := decide (1 < fanOut n)
  let join := decide (1 < fanIn n)
  let task ←
    if split && join then createRoutingTask scope
    else if join then neighbourTask scope (diagram.successor? n) fanIn
    -- One flow in and one out: folded backwards as well, but no decorator is set.
    else neighbourTask scope (diagram.predecessor? n) fanOut
  let node := diagram.node n
  match node.kind with
  | .gateway routing => match decorator? routing with
    | some decorator => edit (modify (·.modifyTask task (decorate decorator split join)))
    | none => pure ()
  | _ => pure ()
  tell (.gatewayResolved node.id ((← spec).node task).id split join)
  return (task, scope.register n task)

/-- Folds the gateways of a net in the order in which they were met. -/
def foldAll (job : Job) (scope : Scope) : Compile Scope :=
  scope.gateways.foldlM (fun scope n => return (← fold job scope n).2) scope

end ProcessNets.Compile
