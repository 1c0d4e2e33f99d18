import ProcessNets.Compile.Run
import ProcessNets.Net.Variables

/-!
# Work items of tasks

Who takes the work items of a task, and how many of them a multi-instance task has.
-/

namespace ProcessNets.Compile

open Net (DecompositionId Initiator MultiInstance Resourcing Role Variable)
open Diagram (InstanceFlow)

/-! ### Resources -/

/-- Only the word `system`, in any case, selects the system. -/
def initiator (text : Option String) : Initiator :=
  match text with
  | some word => if Text.lower word == "system" then .system else .user
  | none => .user

/-- The resourcing with the role as the set of every step that the system takes. -/
def distribute (resourcing : Resourcing) (role : Role) : Resourcing :=
  { resourcing with
    offerSet := if resourcing.offer = .system then some [role] else resourcing.offerSet
    allocateSet := if resourcing.allocate = .system then some [role] else resourcing.allocateSet }

/-- The role of the lane that a node lies in. -/
def laneRole (job : Job) (node : Diagram.Node) : Compile (Option Role) := do
  match node.parent with
  | some (.lane lane) =>
    let role := job.roles.lookup lane.id
    if role.isNone then tell (.noRole lane.id)
    return role
  | _ => return none

/-- Says who takes the work items of a task, if it stands for a task of the diagram. -/
def bindResources (job : Job) (n : Diagram.NodeId) (task : Net.NodeId) :
    Compile (Option Resourcing) := do
  let node := job.diagram.node n
  match node.kind with
  | .task _ initiators =>
    let plain : Resourcing :=
      { offer := initiator initiators.offered
        allocate := initiator initiators.allocated
        start := initiator initiators.started }
    let resourcing := match ← laneRole job node with
      | some role => distribute plain role
      | none => plain
    edit (modify (·.modifyTask task fun t => { t with resourcing := some resourcing }))
    return some resourcing
  | _ => return none

/-! ### Multiple instances -/

/-- How many instances have to complete: one if the flow says so, otherwise all. -/
def threshold : InstanceFlow → Int
  | .one => 1
  | _ => Net.unbounded

/-- What stands between the items of the data of several instances. -/
def dataSeparator : String := " "

/-- The variable that holds the data of all instances of a task. -/
def instanceVariable (taskId : String) : Variable :=
  { name := taskId ++ "_input" }

/-- The instances of a task in a net, all created at the start. -/
def instancesOf (netId taskId : String) (flow : InstanceFlow) : MultiInstance :=
  let v := instanceVariable taskId
  let path := "/" ++ netId ++ "/" ++ v.name
  { threshold := threshold flow
    input := some ⟨path, dataSeparator, v⟩
    output := some ⟨path, dataSeparator, v⟩ }

/-- Makes the task of an activity run in several instances. -/
def bindInstances (job : Job) (d : DecompositionId) (n : Diagram.NodeId) (task : Net.NodeId) :
    Compile MultiInstance := do
  let change (f : Net.Task → Net.Task) := edit (modify (·.modifyTask task f))
  change fun t => { t with multiple := true, elementType := some Net.multiInstanceTaskType }
  let flow := (← requireActivity job n).instanceFlow
  let s ← spec
  let taskId := (s.node task).id
  let instances := instancesOf (s.decomposition d).id taskId flow
  change fun t => { t with multiInstance := some instances }
  let v := instanceVariable taskId
  let _ ← edit (.declareVariable d .inputs v)
  match (← edit (.requireTask task)).decomposesTo with
  | some inner =>
    let _ ← edit (.declareVariable inner .inputs v)
  | none => pure ()
  tell (.multiInstanceTask taskId instances.threshold)
  return instances

end ProcessNets.Compile
