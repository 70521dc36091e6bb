import Rebalance.Cluster.Broker

/-!
# Clusters

A cluster is a set of brokers and the replicas placed on them. Every replica ever placed is kept
once, in order of placement, and brokers and views refer to it by its place there; so what changes
about a replica is seen wherever it is referred to. Brokers are kept in ascending order of their
numbers.
-/

namespace Rebalance

/-- Brokers and replicas. -/
structure Cluster where
  brokers : List Broker := []
  replicas : List Replica := []
deriving DecidableEq, Inhabited

namespace Cluster

variable (c : Cluster)

instance : EmptyCollection Cluster := ⟨{}⟩

/-! ## Brokers -/

/-- The broker with a number. -/
def broker? (id : BrokerId) : Option Broker := c.brokers.find? (·.id = id)

/-- The broker with a number, which is expected to be there. -/
def broker (id : BrokerId) : Except Fault Broker :=
  match c.broker? id with
  | some b => .ok b
  | none => .error (.unknownBroker id)

def aliveBrokers : List Broker := c.brokers.filter (·.isAlive)

def deadBrokers : List Broker := c.brokers.filter (!·.isAlive)

def newBrokers : List Broker := c.brokers.filter (·.isNew)

/-- Whether some broker is dead. -/
def hasDead : Bool := c.brokers.any (!·.isAlive)

/-- Whether some broker is new. -/
def hasNew : Bool := c.brokers.any (·.isNew)

/-- The number of replicas on a broker, none on one that is not there. -/
def count (id : BrokerId) : Nat := ((c.broker? id).map Broker.count).getD 0

/-- Each broker with the number of its replicas. -/
def counts : List (BrokerId × Nat) := c.brokers.map fun b ↦ (b.id, b.count)

/-- Changes one broker. -/
def update (id : BrokerId) (f : Broker → Broker) : Cluster :=
  { c with brokers := c.brokers.map fun b ↦ if b.id = id then f b else b }

@[simp] theorem update_replicas (id : BrokerId) (f : Broker → Broker) :
    (c.update id f).replicas = c.replicas := rfl

theorem map_id_update (id : BrokerId) {f : Broker → Broker} (h : ∀ b, (f b).id = b.id) :
    (c.update id f).brokers.map Broker.id = c.brokers.map Broker.id := by
  simp only [update, List.map_map]
  refine List.map_congr_left fun b _ ↦ ?_
  by_cases h' : b.id = id <;> simp [h', h]

/-! ## Replicas -/

/-- The replica that a reference stands for. -/
def replica? (i : ReplicaId) : Option Replica := c.replicas[i]?

/-- The reference to the replica of a partition on a broker, which is expected to be there. -/
def hostedAt (tp : TopicPartition) (id : BrokerId) : Except Fault ReplicaId :=
  match c.broker id with
  | .error f => .error f
  | .ok b =>
    match b.hosted.entry? tp with
    | some i => .ok i
    | none => .error (.notHosted id tp)

/-- The replicas that references stand for, with their references. -/
def resolve (ids : List ReplicaId) : List (ReplicaId × Replica) :=
  ids.filterMap fun i ↦ (c.replica? i).map fun r ↦ (i, r)

/-- The replicas on a broker, in order of arrival. -/
def replicasOn (b : Broker) : List (ReplicaId × Replica) := c.resolve b.hosted.values

/-- The partitions led from a broker, in order of arrival. -/
def leadersOn (b : Broker) : List TopicPartition :=
  ((c.replicasOn b).filter (·.2.leads)).map (·.2.partition)

/-- The copies of a partition, in order of placement. -/
def copies (tp : TopicPartition) : List Replica := c.replicas.filter (·.partition = tp)

/-- The copies of a partition that is expected to be there. -/
def partition (tp : TopicPartition) : Except Fault (List Replica) :=
  match c.copies tp with
  | [] => .error (.unknownPartition tp)
  | rs => .ok rs

/-- All partitions, ascending. -/
def partitions : List TopicPartition := ascending (c.replicas.map Replica.partition)

/-- All topics, ascending. -/
def topics : List String := ascending (c.replicas.map fun r ↦ r.partition.topic)

/-- The number of replicas in the cluster. -/
def size : Nat := c.replicas.length

/-- The number of replicas that lead. -/
def leaderCount : Nat := c.replicas.countP Replica.leads

def text : String :=
  "ClusterModel(brokers=" ++ toString c.brokers.length ++ ", replicas=" ++ toString c.size ++ ")"

end Cluster

end Rebalance
