import ProcessNets.Diagram.Basic

/-!
# Cycles through two gateways

An activity loops through control flow when a flow leads from it to a control gateway, from
there to a second control gateway, and from there back to the activity.
-/

namespace ProcessNets.Diagram

def isControlGateway (d : Diagram) (n : NodeId) : Bool :=
  (d.node n).kind.isControlGateway

/-- The first and second flow of every cycle through two control gateways, one pair for each
flow that closes the cycle. -/
def gatewayCycles (d : Diagram) (n : NodeId) : List (Flow × Flow) :=
  (d.outgoingFlows n).flatMap fun first =>
    if d.isControlGateway first.target then
      (d.outgoingFlows first.target).flatMap fun second =>
        if d.isControlGateway second.target then
          ((d.outgoingFlows second.target).filter (·.target = n)).map fun _ => (first, second)
        else []
    else []

/-- Whether a node lies on a cycle through two control gateways. -/
def loopsByFlow (d : Diagram) (n : NodeId) : Bool :=
  !(d.gatewayCycles n).isEmpty

/-- The expression of the first expression flow between the two gateways of a cycle, empty
without one. -/
def loopExpression (d : Diagram) (n : NodeId) : String :=
  match (d.gatewayCycles n).find? (·.2.conditionType = .expression) with
  | some (_, second) => second.expression
  | none => ""

/-- The condition under which an activity repeats. -/
def loopPredicate? (d : Diagram) (n : NodeId) : Option String :=
  (d.node n).kind.activity?.map fun activity =>
    if activity.loops then activity.loopCondition else d.loopExpression n

end ProcessNets.Diagram
