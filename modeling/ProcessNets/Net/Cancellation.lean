import ProcessNets.Net.Edit

/-!
# Cancellation sets

The nodes whose tokens a task removes when it completes. A set never holds the task itself, an
input or output condition, or a node twice.
-/

namespace ProcessNets.Net.Edit

/-- Adds a node to the cancellation set of a task; tells whether it was added. -/
def cancel (n : NodeId) (other : Option NodeId) : Edit Bool := do
  let task ← requireTask n
  match other with
  | none => return false
  | some other =>
    if other = n ∨ ((← get).node other).kind.isBoundary ∨ other ∈ task.cancels then return false
    modify (·.modifyTask n fun t => { t with cancels := t.cancels ++ [other] })
    return true

/-- Lets a task cancel every other node of a decomposition. -/
def cancelAll (d : DecompositionId) (n : NodeId) : Edit Unit := do
  let s ← get
  let others := (s.decomposition d).nodes.filter fun m => !(s.node m).kind.isBoundary
  others.forM fun other => do
    let _ ← cancel n (some other)

end ProcessNets.Net.Edit
