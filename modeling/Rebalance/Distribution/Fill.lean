import Rebalance.BrokerSet
import Rebalance.Distribution.Goal

/-!
# Filling a broker

A broker that holds too few replicas takes them from the fullest broker above the lower limit. When
a giver has fallen behind the next one in the queue it goes back into the queue; one that has
nothing more to give does not.
-/

namespace Rebalance

/-- Whether a giver comes before another: the fuller one, and of equals the one of lower number. -/
def Fullness.isFuller (a b : Fullness) : Bool :=
  b.count < a.count || (a.count = b.count && a.broker < b.broker)

/-- Puts a giver into its place in a queue with the fullest first. -/
def enqueue (a : Fullness) : List Fullness → List Fullness
  | [] => [a]
  | b :: rest => if a.isFuller b then a :: b :: rest else b :: enqueue a rest

@[simp] theorem length_enqueue (a : Fullness) (queue : List Fullness) :
    (enqueue a queue).length = queue.length + 1 := by
  induction queue with
  | nil => rfl
  | cons b rest ih =>
    unfold enqueue
    split <;> simp [ih]

/-- How drawing from one giver ended, when a number of replicas was wanted at first. -/
inductive Draw (wanted : Nat) where
  /-- Nothing is wanted any more. -/
  | filled
  /-- The giver fell behind the next one; some replicas are still wanted. -/
  | overtaken (left : Nat) (lt : left < wanted)
  /-- The giver has nothing more to give. -/
  | exhausted (left : Nat) (le : left ≤ wanted)

/-- How drawing ended, counted from when at least as many were wanted. -/
def Draw.widen {wanted wanted' : Nat} (h : wanted ≤ wanted') : Draw wanted → Draw wanted'
  | filled => filled
  | overtaken left lt => overtaken left (by omega)
  | exhausted left le => exhausted left (by omega)

namespace DistributionGoal

variable (g : DistributionGoal)

/-- The brokers that may give replicas, the fullest first. -/
def givers (c : Cluster) : List Fullness :=
  (c.aliveBrokers.filter fun b ↦ g.limits.lower < b.count).foldl
    (fun queue b ↦ enqueue b.fullness queue) []

/-- The replicas that a broker offers, in the order of its view. While some broker is dead, an alive
one offers only immigrants. -/
def offers (c : Cluster) (id : BrokerId) : Except Fault (List ReplicaId) := do
  let b ← c.broker id
  let v ← b.view g.name
  if c.hasDead && b.isAlive then
    return v.replicas.filter fun i ↦ (c.replica? i).any Replica.isImmigrant
  else return v.replicas

/-- Tries the offers of a giver in turn. -/
def drawFrom (guards : List Guard) (options : Options) (id giver : BrokerId)
    (queue : List Fullness) : (wanted : Nat) → List ReplicaId → Planning (Draw wanted)
  | wanted, [] => return .exhausted wanted (Nat.le_refl _)
  | wanted, i :: rest => do
    let c ← Planning.cluster
    if (c.replica? i).any (c.mustStay options.excludedTopics) then
      drawFrom guards options id giver queue wanted rest
    else
      let destination ← attempt g.demand guards options .replicaMovement i [id]
      match destination with
      | none => drawFrom guards options id giver queue wanted rest
      | some _ =>
        if _h : wanted ≤ 1 then return .filled
        else
          let c ← Planning.cluster
          if queue.head?.any (c.count giver < ·.count) then
            return .overtaken (wanted - 1) (by omega)
          else
            let draw ← drawFrom guards options id giver queue (wanted - 1) rest
            return draw.widen (by omega)

/-- Draws a number of replicas from the givers in a queue; tells whether some are still wanted. -/
def fillFrom (guards : List Guard) (options : Options) (id : BrokerId) (wanted : Nat)
    (queue : List Fullness) : Planning Bool :=
  match queue with
  | [] => return true
  | giver :: queue => do
    let c ← Planning.cluster
    let offers ← g.offers c giver.broker
    let draw ← g.drawFrom guards options id giver.broker queue wanted offers
    match draw with
    | .filled => return false
    | .overtaken left _ =>
      let c ← Planning.cluster
      fillFrom guards options id left (enqueue ⟨c.count giver.broker, giver.broker⟩ queue)
    | .exhausted left _ => fillFrom guards options id left queue
termination_by wanted + queue.length
decreasing_by all_goals simp only [length_enqueue, List.length_cons]; omega

/-- Moves replicas onto a broker until it is up to the lower limit; tells whether it still has too
few. -/
def fill (guards : List Guard) (options : Options) (id : BrokerId) : Planning Bool := do
  let c ← Planning.cluster
  let b ← c.broker id
  g.fillFrom guards options id (g.bottom b - b.count).toNat (g.givers c)

end DistributionGoal

end Rebalance
