import Rebalance.Plan

/-!
# Guards

The goals optimized before stand guard over what they reached: each is asked, in order, about every
action, and the first that refuses decides.
-/

namespace Rebalance

/-- How a goal optimized before judges an action. -/
structure Guard where
  name : String
  judge : Action → Cluster → Except Fault Verdict

namespace Guard

/-- Asks guards, the first of which stands at a place, until one refuses. -/
def reviewFrom (action : Action) : Nat → List Guard → Planning Verdict
  | _, [] => return .accept
  | place, g :: rest => do
    Planning.record (.consulted place)
    let verdict ← g.judge action (← Planning.cluster)
    match verdict with
    | .accept => reviewFrom action (place + 1) rest
    | verdict =>
      match action.text? with
      | some text =>
        Planning.record (.refused text g.name verdict)
        return verdict
      | none => throw .namelessAction

/-- The verdict of all guards on an action. -/
def review (guards : List Guard) (action : Action) : Planning Verdict := reviewFrom action 0 guards

end Guard

end Rebalance
