import Rebalance.Cluster.Basic

/-!
# Changes to a cluster

Brokers are added, replicas placed, and then replicas and leaderships moved. A change that is
refused leaves the cluster as it was. The one change that can fail halfway is the departure of a
replica whose entry in a view cannot be found: what had left by then has left.
-/

namespace Rebalance

namespace Cluster

/-- A computation that changes a cluster and keeps what it changed even when it fails. -/
abbrev Change := EStateM Fault Cluster

/-- Puts a broker in its place among brokers in ascending order. -/
def insertBroker (b : Broker) : List Broker → List Broker
  | [] => [b]
  | b' :: rest => if b.id < b'.id then b :: b' :: rest else b' :: insertBroker b rest

/-- Adds a broker. -/
def addBroker (id : BrokerId) (rack : Option String) (state : BrokerState) : Change Unit := do
  let c ← get
  if (c.broker? id).isSome then throw (.brokerExists id)
  else set { c with brokers := insertBroker { id, rack, state } c.brokers }

/-- Places a new replica on a broker. -/
def place (tp : TopicPartition) (id : BrokerId) (leads : Bool) (load : Load) : Change Unit := do
  let c ← get
  let b ← c.broker id
  if b.hosts tp then throw (.alreadyHosted id tp)
  else
    let r : Replica := { partition := tp, home := id, broker := id, leads, load }
    set { c.update id (·.host c.replicas.length r) with replicas := c.replicas ++ [r] }

/-- Declares a broker alive, new or dead. -/
def setState (id : BrokerId) (state : BrokerState) : Change Unit := do
  let c ← get
  let _ ← c.broker id
  set (c.update id fun b ↦ { b with state })

/-! ## Replicas that move -/

/-- Lets a replica arrive on a broker. -/
def settle (c : Cluster) (i : ReplicaId) (id : BrokerId) : Cluster :=
  match c.replica? i with
  | none => c
  | some r =>
    let r := { r with broker := id }
    { c.update id (·.host i r) with replicas := c.replicas.set i r }

/-- Lets the replica of a partition leave a broker, and tells which it was. -/
def depart (tp : TopicPartition) (id : BrokerId) : Change ReplicaId := do
  let c ← get
  let b ← c.broker id
  match b.hosted.entry? tp with
  | none => throw (.notHosted id tp)
  | some i =>
    set (c.update id fun b ↦ (b.release tp).1)
    if (b.release tp).2 then return i else throw .viewOutOfOrder

/-- Moves the replica of a partition from one broker to another. It keeps its leadership. -/
def relocate (tp : TopicPartition) (source destination : BrokerId) : Change Unit := do
  let c ← get
  let _ ← c.broker source
  let b ← c.broker destination
  if b.hosts tp then throw (.alreadyHosted destination tp)
  else
    let i ← depart tp source
    modify (·.settle i destination)

/-- Makes a replica leave its broker and come back. -/
def rehost (tp : TopicPartition) (id : BrokerId) : Change Unit := do
  let i ← depart tp id
  let c ← get
  match c.replica? i with
  | none => return
  | some r => set (c.update id (·.host i r))

/-- Takes in once more a replica that is there. -/
def readmit (tp : TopicPartition) (id : BrokerId) : Change Unit := do
  let c ← get
  let i ← c.hostedAt tp id
  match c.replica? i with
  | none => return
  | some r => set (c.update id (·.host i r))

/-! ## Leaderships that move -/

/-- Makes a replica a leader or not. -/
def setLeads (c : Cluster) (i : ReplicaId) (leads : Bool) : Cluster :=
  { c with replicas := c.replicas.modify i fun r ↦ { r with leads } }

/-- Moves the leadership of a partition from one of its replicas to another; tells whether it moved,
which it does not when the first one does not lead. -/
def passLeadership (tp : TopicPartition) (source destination : BrokerId) : Change Bool := do
  let c ← get
  let i ← c.hostedAt tp source
  if (c.replica? i).any Replica.leads then
    let j ← c.hostedAt tp destination
    set ((c.setLeads i false).setLeads j true)
    return true
  else return false

/-! ## Views -/

/-- Keeps a view of every broker under a name; one of the same name is replaced. -/
def track (name : String) (criteria : Criteria) (c : Cluster) : Cluster :=
  { c with
    brokers := c.brokers.map fun b ↦
      { b with views := b.views.put name (.build criteria (c.replicasOn b)) } }

/-- Gives up the views of a name. -/
def untrack (name : String) (c : Cluster) : Cluster :=
  { c with brokers := c.brokers.map fun b ↦ { b with views := b.views.without name } }

@[simp] theorem track_replicas (name : String) (criteria : Criteria) (c : Cluster) :
    (track name criteria c).replicas = c.replicas := rfl

@[simp] theorem untrack_replicas (name : String) (c : Cluster) :
    (untrack name c).replicas = c.replicas := rfl

end Cluster

end Rebalance
