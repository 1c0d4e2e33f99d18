import ProcessNets.Compile.Run
import ProcessNets.Diagram.Cycle

/-!
# Self loops

A looping activity becomes a task with an edge to itself, taken first. Such a task needs
exclusive decorators, so a parallel split is moved to a new task behind it and a parallel join to
a new task before it.
-/

namespace ProcessNets.Compile

open Net (DecompositionId)

/-- Moves a parallel split to a new task behind the given one. -/
def factorSplit (d : DecompositionId) (task : Net.NodeId) : Compile Unit := do
  if (← edit (.requireTask task)).split = .and then
    let split ← edit (.createTask d (← generateId) "SplitTask" .and)
    edit (.moveOutgoing d task split)
    let _ ← edit (.link d task split 1)

/-- Moves a parallel join to a new task before the given one. -/
def factorJoin (d : DecompositionId) (task : Net.NodeId) : Compile Unit := do
  if (← edit (.requireTask task)).join = .and then
    let join ← edit (.createTask d (← generateId) "JoinTask" .and .and)
    edit (.moveIncoming d task join)
    let _ ← edit (.link d join task 1)

/-- Lets a task repeat while a predicate holds. -/
def addSelfLoop (d : DecompositionId) (task : Net.NodeId) (predicate : String) :
    Compile Unit := do
  factorSplit d task
  factorJoin d task
  let _ ← edit (.linkFirst d task task predicate)
  -- A parallel decorator has moved to its own task by now; an inclusive one is overwritten.
  edit (.updateTask task fun t => { t with split := .xor, join := .xor })
  tell (.selfLoopAdded ((← spec).node task).id)

def loopActivity (job : Job) (scope : Scope) (n : Diagram.NodeId) : Compile Unit := do
  let s ← spec
  match (scope.map.find? n).filter fun y => !(s.node y).kind.isCondition with
  | some task => match job.diagram.loopPredicate? n with
    | some predicate => addSelfLoop scope.net task predicate
    | none => throw (.unsuited n)
  | none => tell (.noLoopTask (job.diagram.node n).id (s.decomposition scope.net).id)

def loopAll (job : Job) (scope : Scope) : Compile Unit := do
  (← takeLooping scope.net).forM (loopActivity job scope)

end ProcessNets.Compile
