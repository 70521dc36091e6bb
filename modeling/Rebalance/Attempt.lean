import Rebalance.Guard
import Rebalance.Options

/-!
# Attempts

An action is attempted on one candidate broker after another and carried out on the first that
admits it: the move must be legal there, the goal that is being pursued must be satisfied with it,
and every guard must accept it.
-/

namespace Rebalance

/-- What a goal demands of an action. -/
abbrev Demand := Action → Cluster → Except Fault Bool

/-- Whether an action on a replica is legal with a destination. A replica moves to an alive broker
without a copy of its partition; a leadership to an alive broker with one, from a replica that
leads. -/
def Broker.isLegalFor (b : Broker) (kind : ActionKind) (r : Replica) : Bool :=
  if kind = .replicaMovement then b.isAlive && !b.hosts r.partition
  else r.leads && b.isAlive && b.hosts r.partition

/-- Whether a replica has to stay: its topic is excluded and its broker is not dead. -/
def Cluster.mustStay (c : Cluster) (topics : List String) (r : Replica) : Bool :=
  topics.contains r.partition.topic && (c.broker? r.broker).any Broker.isAlive

namespace Attempt

/-- The candidates other than the broker of the replica that the options allow. -/
def eligible (options : Options) (kind : ActionKind) (r : Replica) (candidates : List BrokerId) :
    List BrokerId :=
  candidates.filter fun d ↦ d ≠ r.broker && options.allows kind d

/-- Carries out an action. -/
def carryOut (action : Action) : Planning Unit :=
  if action.kind = .leadershipMovement then do
    let _ ← Planning.passLeadership action.partition action.source action.destination
  else Planning.relocate action.partition action.source action.destination

/-- Whether a destination admits an action on a replica. -/
def isAdmitted (demand : Demand) (guards : List Guard) (r : Replica) (action : Action) :
    Planning Bool := do
  let c ← Planning.cluster
  let b ← c.broker action.destination
  if b.isLegalFor action.kind r then
    let satisfied ← demand action c
    if satisfied then
      let verdict ← Guard.review guards action
      return verdict = .accept
    else return false
  else return false

/-- Carries out an action on a replica with the first destination that admits it. -/
def first (demand : Demand) (guards : List Guard) (kind : ActionKind) (r : Replica) :
    List BrokerId → Planning (Option BrokerId)
  | [] => return none
  | d :: rest => do
    let action : Action := { partition := r.partition, source := r.broker, destination := d, kind }
    let admitted ← isAdmitted demand guards r action
    if admitted then
      carryOut action
      return some d
    else first demand guards kind r rest

end Attempt

/-- Moves a replica, or its leadership, to the first candidate that admits it, and tells which. -/
def attempt (demand : Demand) (guards : List Guard) (options : Options) (kind : ActionKind)
    (i : ReplicaId) (candidates : List BrokerId) : Planning (Option BrokerId) :=
  if kind = .replicaMovement ∨ kind = .leadershipMovement then do
    let c ← Planning.cluster
    match c.replica? i with
    | none => return none
    | some r => Attempt.first demand guards kind r (Attempt.eligible options kind r candidates)
  else throw (.unsupportedAction kind)

end Rebalance
