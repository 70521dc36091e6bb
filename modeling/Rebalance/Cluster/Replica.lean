import Rebalance.Fault

/-!
# Replicas

A replica is one copy of a partition. It knows the broker that it was placed on first and the one
that it is on now; when they differ it is an immigrant.
-/

namespace Rebalance

/-- What a replica uses of its broker. -/
inductive Resource where
  | cpu
  | inbound
  | outbound
  | disk
deriving DecidableEq

namespace Resource

def all : List Resource := [cpu, inbound, outbound, disk]

def name : Resource → String
  | cpu => "cpu"
  | inbound => "nw_in"
  | outbound => "nw_out"
  | disk => "disk"

/-- The resource with a name. -/
def ofName (text : String) : Except Fault Resource :=
  match all.find? (·.name = text) with
  | some r => .ok r
  | none => .error (.unknownResource text)

end Resource

/-- How much of each resource is used; zero where nothing is known. -/
structure Load where
  cpu : Double := 0
  inbound : Double := 0
  outbound : Double := 0
  disk : Double := 0
deriving DecidableEq, Inhabited

namespace Load

/-- The use of one resource. -/
def of (l : Load) : Resource → Double
  | .cpu => l.cpu
  | .inbound => l.inbound
  | .outbound => l.outbound
  | .disk => l.disk

/-- The load with another use of one resource. -/
def set (l : Load) (x : Double) : Resource → Load
  | .cpu => { l with cpu := x }
  | .inbound => { l with inbound := x }
  | .outbound => { l with outbound := x }
  | .disk => { l with disk := x }

end Load

/-- One copy of a partition. -/
structure Replica where
  partition : TopicPartition
  /-- The broker that it was placed on first. -/
  home : BrokerId
  /-- The broker that it is on. -/
  broker : BrokerId
  leads : Bool := false
  load : Load := {}
deriving DecidableEq, Inhabited

/-- Something that holds of a replica or not, by which views choose and order. -/
inductive Trait where
  | immigrant
  | leader
deriving DecidableEq

namespace Replica

/-- Whether a replica was moved away from where it was placed first. -/
def isImmigrant (r : Replica) : Bool := r.broker ≠ r.home

def has (r : Replica) : Trait → Bool
  | .immigrant => r.isImmigrant
  | .leader => r.leads

def text (r : Replica) : String :=
  "Replica(tp=" ++ r.partition.text ++ ", broker=" ++ toString r.broker ++ ", original_broker=" ++
    toString r.home ++ ", leader=" ++ Text.truth r.leads ++ ")"

end Replica

end Rebalance
