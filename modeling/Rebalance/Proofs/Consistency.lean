import Rebalance.Proofs.History

/-!
# Consistency

Where a replica is can be told from the replica itself, from the brokers, from the copies of its
partition and from the immigrants of a broker. After any history in which views order by numbers,
all of them tell the same, also when operations failed on the way.
-/

namespace Rebalance

namespace Cluster

/-- All places that tell where replicas are agree. -/
structure Consistent (c : Cluster) : Prop where
  /-- A replica is stored under its partition on the broker that it names, and nowhere else. -/
  stored : ∀ i r, c.replica? i = some r → ∃ b ∈ c.brokers, b.id = r.broker ∧
    b.hosted.entry? r.partition = some i ∧
    ∀ b' ∈ c.brokers, ∀ tp, b'.hosted.entry? tp = some i → b' = b ∧ tp = r.partition
  /-- What is stored on a broker occurs once among the copies of its partition. -/
  listed : ∀ b ∈ c.brokers, ∀ tp i, b.hosted.entry? tp = some i →
    ∃ r, c.replica? i = some r ∧ r.partition = tp ∧ (c.copies tp).count r = 1
  /-- The copies of a partition are on different brokers. -/
  spread : ∀ tp, ((c.copies tp).map Replica.broker).Nodup
  /-- The immigrants of a broker are those of its replicas that were placed elsewhere first. -/
  immigrants : ∀ b ∈ c.brokers,
    b.immigrants = b.hosted.filter fun e ↦ (c.replica? e.2).any Replica.isImmigrant
  /-- The counts of the brokers add up to the number of replicas. -/
  counted : (c.brokers.map Broker.count).sum = c.size

/-- Stable clusters are consistent. -/
theorem Stable.consistent {measured : Resource → Prop} {c : Cluster} (h : c.Stable measured) :
    c.Consistent where
  stored i r hr := by
    obtain ⟨b, hb, hid, hmem, -⟩ := h.complete i r hr
    refine ⟨b, hb, hid, Roster.entry?_of_mem (h.distinct b hb) hmem, ?_⟩
    intro b' hb' tp htp
    exact h.eq_of_mem_hosted hb' hb (Roster.mem_of_entry_eq_some htp) hmem
  listed b hb tp i htp := by
    obtain ⟨r, hr, rfl, -⟩ := h.hosted b hb tp i (Roster.mem_of_entry_eq_some htp)
    exact ⟨r, hr, rfl, h.count_copies hr⟩
  spread := h.nodup_hosts
  immigrants := h.immigrants
  counted := h.sum_counts

end Cluster

variable {measured : Resource → Prop}

/-- After any history of operations that succeeded or failed a cluster is consistent, and from then
on only a placement changes which replicas there are, where they were placed first or their loads.
The loads need to be numbers only in what views order by. -/
theorem consistent_after (operations : List Operation)
    (h : ∀ o ∈ operations, o.IsMeasured measured) :
    (Cluster.after operations).Consistent ∧ ∀ o : Operation, ¬ o.IsPlacement →
      (o.apply (Cluster.after operations)).origins = (Cluster.after operations).origins := by
  constructor
  · exact (Cluster.stable_after h).consistent
  · intro o ho
    exact (o.sound_apply (Cluster.sound_after operations)).2 ho

/-- A history in which the second relocation fails and the goal is pursued at the end. -/
theorem consistent_after_failure :
    (Cluster.after [.addBroker 0 none .alive, .addBroker 1 none .alive,
      .place ⟨"a", 0⟩ 0 true {}, .place ⟨"b", 0⟩ 0 false {}, .track "disk" { score := some .disk },
      .relocate ⟨"a", 0⟩ 0 1, .relocate ⟨"a", 0⟩ 0 1, .pursue {} [] {}]).Consistent := by
  refine (consistent_after _ (?_ : ∀ o ∈ _, Operation.IsMeasured (fun _ ↦ True) o)).1
  simp [Operation.IsMeasured, Load.isNumeric_default]

end Rebalance
