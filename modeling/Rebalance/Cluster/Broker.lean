import Rebalance.Cluster.View

/-!
# Brokers

A broker hosts replicas, in order of arrival. Beside them it keeps those among them that are
immigrants, and any number of named views; both follow every arrival and departure.
-/

namespace Rebalance

/-- Whether a broker is up, and whether it came lately. -/
inductive BrokerState where
  | alive
  /-- Alive, and to be filled before others. -/
  | new
  /-- Failed; every replica has to leave. -/
  | dead
deriving DecidableEq, Inhabited

namespace BrokerState

def name : BrokerState → String
  | alive => "alive"
  | new => "new"
  | dead => "dead"

/-- The state with a name. -/
def ofName (text : String) : Except Fault BrokerState :=
  match [alive, new, dead].find? (·.name = text) with
  | some s => .ok s
  | none => .error (.unknownState text)

end BrokerState

/-- A node of the cluster. -/
structure Broker where
  id : BrokerId
  rack : Option String := none
  state : BrokerState := .alive
  /-- The replicas that are here. -/
  hosted : Roster TopicPartition ReplicaId := []
  /-- The immigrants among them, as they were when they came. -/
  immigrants : Roster TopicPartition ReplicaId := []
  views : Roster String View := []
deriving DecidableEq, Inhabited

namespace Broker

def isAlive (b : Broker) : Bool := b.state ≠ .dead

def isNew (b : Broker) : Bool := b.state = .new

/-- The number of replicas. -/
def count (b : Broker) : Nat := b.hosted.length

/-- Whether a replica of a partition is here. -/
def hosts (b : Broker) (tp : TopicPartition) : Bool := b.hosted.has tp

/-- Shows a replica in the views that admit it. -/
def showInViews (views : Roster String View) (i : ReplicaId) (r : Replica) : Roster String View :=
  views.map fun (name, v) ↦ (name, v.insert i r)

/-- Drops a partition from view after view, up to and including the first that has lost it; also
tells whether none has. -/
def dropFromViews (tp : TopicPartition) : Roster String View → Roster String View × Bool
  | [] => ([], true)
  | (name, v) :: rest =>
    if v.hasLost tp then ((name, v.erase tp) :: rest, false)
    else
      let (rest, found) := dropFromViews tp rest
      ((name, v.erase tp) :: rest, found)

/-- Takes in a replica. -/
def host (b : Broker) (i : ReplicaId) (r : Replica) : Broker :=
  { b with
    hosted := b.hosted.put r.partition i
    immigrants := if r.isImmigrant then b.immigrants.put r.partition i else b.immigrants
    views := showInViews b.views i r }

/-- Lets go of the replica of a partition; also tells whether every view could follow. -/
def release (b : Broker) (tp : TopicPartition) : Broker × Bool :=
  let (views, found) := dropFromViews tp b.views
  ({ b with hosted := b.hosted.without tp, immigrants := b.immigrants.without tp, views }, found)

@[simp] theorem host_id (b : Broker) (i : ReplicaId) (r : Replica) : (b.host i r).id = b.id := rfl

@[simp] theorem host_state (b : Broker) (i : ReplicaId) (r : Replica) :
    (b.host i r).state = b.state := rfl

@[simp] theorem release_id (b : Broker) (tp : TopicPartition) : (b.release tp).1.id = b.id := rfl

@[simp] theorem release_state (b : Broker) (tp : TopicPartition) :
    (b.release tp).1.state = b.state := rfl

@[simp] theorem keys_hosted_release (b : Broker) (tp : TopicPartition) :
    (b.release tp).1.hosted.keys = b.hosted.keys.filter (· ≠ tp) := Roster.keys_without b.hosted tp

theorem hosts_iff {b : Broker} {tp : TopicPartition} : b.hosts tp ↔ tp ∈ b.hosted.keys :=
  Roster.has_iff_mem_keys b.hosted tp

theorem keys_hosted_host (b : Broker) (i : ReplicaId) {r : Replica} (h : ¬ b.hosts r.partition) :
    (b.host i r).hosted.keys = b.hosted.keys ++ [r.partition] :=
  Roster.keys_put_of_not_mem i (fun h' ↦ h (hosts_iff.2 h'))

/-- The view of a name. -/
def view (b : Broker) (name : String) : Except Fault View :=
  match b.views.entry? name with
  | some v => .ok v
  | none => .error (.untracked b.id name)

def isTracking (b : Broker) (name : String) : Bool := b.views.has name

def text (b : Broker) : String :=
  "Broker(id=" ++ toString b.id ++ ", state=" ++ b.state.name ++ ", replicas=" ++
    toString b.count ++ ")"

end Broker

end Rebalance
