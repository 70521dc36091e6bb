import Rebalance.Action
import Rebalance.Double.Decimal
import Rebalance.Text.Quoted

/-!
# Faults

Why an operation on a cluster, a goal or the optimizer could not be done, and the message for it.
-/

namespace Rebalance

open Text (quoted bracketed)

/-- What went wrong. -/
inductive Fault where
  | brokerExists (broker : BrokerId)
  | unknownBroker (broker : BrokerId)
  | unknownPartition (partition : TopicPartition)
  /-- The broker has a replica of the partition already. -/
  | alreadyHosted (broker : BrokerId) (partition : TopicPartition)
  /-- The broker has no replica of the partition. -/
  | notHosted (broker : BrokerId) (partition : TopicPartition)
  /-- The broker has no view of that name. -/
  | untracked (broker : BrokerId) (view : String)
  /-- A view could not find the entry of a replica that left. -/
  | viewOutOfOrder
  | unknownState (text : String)
  | unknownResource (text : String)
  /-- An action of this kind cannot be judged or applied. -/
  | unsupportedAction (kind : ActionKind)
  /-- An action of an unknown kind has no text. -/
  | namelessAction
  | thresholdTooLow (threshold : Double)
  | noAliveBroker (goal : String)
  /-- Replicas are left on these dead brokers. -/
  | deadBrokersLeft (goal : String) (brokers : List BrokerId)
  /-- A goal left its statistics worse than it found them. -/
  | worseStatistics (goal : String) (reason : Option String)
  | duplicateGoals (names : List String)
  | arithmetic (fault : Double.Fault)
deriving DecidableEq

namespace Fault

/-- A message on behalf of a goal. -/
def onBehalf (goal message : String) : String := "[" ++ goal ++ "] " ++ message

/-- The message for a fault, where it has one. -/
def message : Fault → Option String
  | brokerExists b => some ("Broker " ++ toString b ++ " already exists")
  | unknownBroker b => some ("Unknown broker " ++ toString b)
  | unknownPartition tp => some ("Unknown partition " ++ tp.text)
  | alreadyHosted b tp =>
    some ("Broker " ++ toString b ++ " already hosts a replica of " ++ tp.text)
  | notHosted b tp => some ("Broker " ++ toString b ++ " does not host a replica of " ++ tp.text)
  | untracked b view =>
    some ("Broker " ++ toString b ++ " has no sorted replicas tracked as " ++ quoted view)
  | viewOutOfOrder => none
  | unknownState text => some (quoted text ++ " is not a valid BrokerState")
  | unknownResource text => some (quoted text ++ " is not a valid Resource")
  | unsupportedAction kind =>
    some ("Unsupported balancing action " ++ kind.label ++ " is provided.")
  | namelessAction => none
  | thresholdTooLow threshold =>
    some ("Replica count balance threshold must be at least 1, got " ++ threshold.text)
  | noAliveBroker goal =>
    some (onBehalf goal "Cannot compute balance limits: cluster has no alive brokers.")
  | deadBrokersLeft goal brokers =>
    some (onBehalf goal ("Cannot move all replicas away from dead brokers " ++
      bracketed (brokers.map toString) ++ "."))
  | worseStatistics goal reason =>
    some (onBehalf goal ("Optimized result is worse than before. Reason: " ++
      reason.getD "None"))
  | duplicateGoals names =>
    some ("Goal names must be unique, got " ++ bracketed (names.map quoted))
  | arithmetic .opposedInfinities => some "-inf + inf in fsum"
  | arithmetic _ => none

end Fault

/-- A result that may be a fault, within a computation that keeps its state when it fails. -/
instance {σ : Type} : MonadLift (Except Fault) (EStateM Fault σ) :=
  ⟨fun
    | .ok a => pure a
    | .error f => throw f⟩

/-- A result of arithmetic among other results. -/
instance : MonadLift (Except Double.Fault) (Except Fault) :=
  ⟨fun
    | .ok a => .ok a
    | .error f => .error (.arithmetic f)⟩

end Rebalance
