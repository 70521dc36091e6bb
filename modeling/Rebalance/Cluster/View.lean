import Rebalance.Cluster.Replica
import Rebalance.Ranking

/-!
# Views

A view is a choice of the replicas of one broker, kept in order while replicas come and go. Replicas
are ordered by their traits first, then by the use of one resource, then by partition. A view judges
a replica once, when it comes in; what changes about the replica later does not reorder the view.
-/

namespace Rebalance

/-- The place of a replica among all that were ever placed. -/
abbrev ReplicaId := Nat

/-- What a view shows, and in what order. -/
structure Criteria where
  /-- The trait that a replica must have to be shown. -/
  choose : Option Trait := none
  /-- The traits by which replicas come first. -/
  priorities : List Trait := []
  /-- The resource that is used less by those in front. -/
  score : Option Resource := none
deriving DecidableEq, Inhabited

/-- Where a replica belongs in a view. -/
structure Rank where
  /-- For each priority, zero if the replica has the trait and one if not. -/
  priorities : List Nat
  score : Double
  partition : TopicPartition
deriving DecidableEq, Inhabited

namespace Rank

/-- The first difference decides. A score that is not a number differs from every score and is
neither below nor above it. -/
def Below (a b : Rank) : Prop :=
  if a.priorities ≠ b.priorities then a.priorities < b.priorities
  else if a.score.same b.score then a.partition < b.partition
  else a.score < b.score

instance : LT Rank := ⟨Below⟩

instance : DecidableLT Rank := fun a b ↦ by
  change Decidable (Below a b)
  unfold Below
  infer_instance

theorem lt_iff {a b : Rank} :
    a < b ↔ if a.priorities ≠ b.priorities then a.priorities < b.priorities
      else if a.score.same b.score then a.partition < b.partition
      else a.score < b.score := Iff.rfl

end Rank

namespace Criteria

/-- Whether a replica is shown. -/
def admits (c : Criteria) (r : Replica) : Bool :=
  match c.choose with
  | none => true
  | some t => r.has t

/-- Where a replica belongs. -/
def rank (c : Criteria) (r : Replica) : Rank where
  priorities := c.priorities.map fun t ↦ if r.has t then 0 else 1
  score := match c.score with
    | none => 0
    | some resource => r.load.of resource
  partition := r.partition

end Criteria

/-- The replicas of a broker that meet criteria, in order. -/
structure View where
  criteria : Criteria
  ranking : Ranking TopicPartition Rank ReplicaId := ∅
deriving DecidableEq, Inhabited

namespace View

/-- The replicas in order. -/
def replicas (v : View) : List ReplicaId := v.ranking.items

/-- The partitions in order. -/
def partitions (v : View) : List TopicPartition := v.ranking.keys.map Rank.partition

def size (v : View) : Nat := v.ranking.size

/-- Shows a replica that came, if it is admitted. -/
def insert (v : View) (i : ReplicaId) (r : Replica) : View :=
  if v.criteria.admits r then
    { v with ranking := v.ranking.insert r.partition (v.criteria.rank r) i }
  else v

/-- Drops the replica of a partition that left. -/
def erase (v : View) (tp : TopicPartition) : View := { v with ranking := v.ranking.erase tp }

/-- Whether the entry of a partition cannot be found. -/
def hasLost (v : View) (tp : TopicPartition) : Bool := v.ranking.hasLost tp

/-- The view of replicas that came in the given order. -/
def build (c : Criteria) (replicas : List (ReplicaId × Replica)) : View :=
  replicas.foldl (fun v e ↦ v.insert e.1 e.2) { criteria := c }

end View

end Rebalance
