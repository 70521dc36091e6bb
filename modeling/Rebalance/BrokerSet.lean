import Rebalance.Cluster.Broker

/-!
# Broker sets

A set of brokers in ascending order of how full they were when they came in. A broker whose count
changes has to be taken out and brought in again to find its new place.
-/

namespace Rebalance

/-- How full a broker is, with its number to tell equals apart. -/
structure Fullness where
  count : Nat
  broker : Int
deriving DecidableEq, Inhabited

namespace Fullness

instance : LT Fullness := ⟨fun a b ↦ a.count < b.count ∨ a.count = b.count ∧ a.broker < b.broker⟩

theorem lt_iff {a b : Fullness} :
    a < b ↔ a.count < b.count ∨ a.count = b.count ∧ a.broker < b.broker := Iff.rfl

instance : DecidableLT Fullness := fun a b ↦
  inferInstanceAs (Decidable (a.count < b.count ∨ a.count = b.count ∧ a.broker < b.broker))

theorem lt_irrefl (a : Fullness) : ¬ a < a := by
  rw [lt_iff]
  omega

theorem lt_trans {a b c : Fullness} (h : a < b) (h' : b < c) : a < c := by
  rw [lt_iff] at *
  omega

theorem lt_or_eq_or_lt (a b : Fullness) : a < b ∨ a = b ∨ b < a := by
  obtain ⟨m, i⟩ := a
  obtain ⟨n, j⟩ := b
  simp only [lt_iff, Fullness.mk.injEq]
  omega

end Fullness

/-- How full a broker is now. -/
def Broker.fullness (b : Broker) : Fullness := ⟨b.count, b.id⟩

/-- Brokers, the emptiest first. -/
abbrev BrokerSet := Ranking BrokerId Fullness BrokerId

namespace BrokerSet

/-- Brings in a broker under its present count. -/
def add (s : BrokerSet) (b : Broker) : BrokerSet := s.insert b.id b.fullness b.id

/-- Takes out a broker. -/
def discard (s : BrokerSet) (id : BrokerId) : BrokerSet := s.erase id

/-- The brokers in order. -/
def brokers (s : BrokerSet) : List BrokerId := s.items

def ofBrokers (bs : List Broker) : BrokerSet := bs.foldl add ∅

end BrokerSet

end Rebalance
