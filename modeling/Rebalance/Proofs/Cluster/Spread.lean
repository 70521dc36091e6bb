import Rebalance.Proofs.Cluster.Census
import Rebalance.Proofs.Cluster.Change

/-!
# Room for copies

The copies of a partition have to be on different brokers. If no partition has more of them than
there are alive brokers, then for a replica on a dead broker there is an alive one that is without
its partition. Conversely, once all dead brokers are empty, the alive ones have room for all copies.
-/

namespace Rebalance.Cluster

variable {measured : Resource → Prop} {c c' : Cluster} {id : BrokerId} {i : ReplicaId} {r : Replica}

/-- No partition has more copies than there are alive brokers. -/
def Spreadable (c : Cluster) : Prop := ∀ tp, (c.copies tp).length ≤ c.aliveBrokers.length

/-- Only partitions that there are matter. -/
theorem forall_copies_iff {P : List Replica → Prop} (hnil : P []) :
    (∀ tp, P (c.copies tp)) ↔ ∀ r ∈ c.replicas, P (c.copies r.partition) := by
  constructor
  · intro h r _
    exact h r.partition
  · intro h tp
    cases hcopies : c.copies tp with
    | nil => exact hnil
    | cons r rest =>
      have hr : r ∈ c.copies tp := by
        rw [hcopies]
        exact List.mem_cons_self
      obtain ⟨hr, hp⟩ := List.mem_filter.1 hr
      rw [← hcopies, ← of_decide_eq_true hp]
      exact h r hr

instance (c : Cluster) : Decidable c.Spreadable :=
  decidable_of_iff _ (forall_copies_iff (P := fun rs ↦ rs.length ≤ c.aliveBrokers.length)
    (Nat.zero_le _)).symm

theorem not_spreadable_iff :
    ¬ c.Spreadable ↔ ∃ tp, c.aliveBrokers.length < (c.copies tp).length := by
  rw [Spreadable, not_forall]
  exact exists_congr fun tp ↦ Nat.not_le

/-- No partition has more than one copy. -/
def Single (c : Cluster) : Prop := ∀ tp, (c.copies tp).length ≤ 1

instance (c : Cluster) : Decidable c.Single :=
  decidable_of_iff _ (forall_copies_iff (P := fun rs ↦ rs.length ≤ 1) (Nat.zero_le _)).symm

/-- The one copy of a partition is on one broker. -/
theorem Single.vacant (hsingle : c.Single) (h : c.Sound) {d : BrokerId}
    (hr : c.replica? i = some r) (hne : d ≠ r.broker) : ¬ c.Hosts d r.partition := by
  rintro ⟨j, r', hon, hp⟩
  have hmem := Stable.mem_copies.2 ⟨⟨i, hr⟩, rfl⟩
  have hmem' := Stable.mem_copies.2 ⟨⟨j, hon.replica?_eq⟩, hp⟩
  obtain ⟨r₀, hr₀⟩ : ∃ r₀, c.copies r.partition = [r₀] := by
    rw [← List.length_eq_one_iff]
    exact Nat.le_antisymm (hsingle _) (List.length_pos_of_mem hmem)
  rw [hr₀, List.mem_singleton] at hmem hmem'
  rw [hmem, ← hmem'] at hne
  exact hne (h.broker_of_on hon).symm

/-! ## Brokers -/

theorem Sound.mem_ids_aliveBrokers (h : c.Sound) :
    id ∈ c.aliveBrokers.map Broker.id ↔ c.Alive id := by
  constructor
  · intro hid
    obtain ⟨b, hb, rfl⟩ := List.mem_map.1 hid
    obtain ⟨hmem, halive⟩ := List.mem_filter.1 hb
    exact ⟨b, h.broker?_of_mem hmem, halive⟩
  · rintro ⟨b, hb, halive⟩
    exact List.mem_map.2 ⟨b, List.mem_filter.2 ⟨mem_of_broker? hb, halive⟩, id_of_broker? hb⟩

theorem Sound.nodup_ids_aliveBrokers (h : c.Sound) : (c.aliveBrokers.map Broker.id).Nodup :=
  h.ids_nodup.sublist (List.filter_sublist.map Broker.id)

/-- There is something on a broker that is not empty. -/
theorem Sound.exists_on (h : c.Sound) (hpos : 0 < c.count id) : ∃ i r, c.On id i r := by
  cases hb : c.broker? id with
  | none =>
    rw [count, hb] at hpos
    cases hpos
  | some b =>
    obtain rfl := id_of_broker? hb
    have hmem := mem_of_broker? hb
    rw [h.count_of_mem hmem] at hpos
    obtain ⟨⟨tp, i⟩, he⟩ := List.exists_mem_of_length_pos hpos
    obtain ⟨r, hon, -⟩ := h.on_of_mem_hosted hmem he
    exact ⟨i, r, hon⟩

/-- Where something is, a broker is not empty. -/
theorem Sound.count_pos (h : c.Sound) (hon : c.On id i r) : 0 < c.count id := by
  obtain ⟨b, hb, rfl, he, -⟩ := hon
  rw [h.count_of_mem hb]
  exact List.length_pos_of_mem he

/-! ## Copies and alive brokers -/

/-- How many copies a partition has does not depend on where they are. -/
theorem length_copies (c : Cluster) (tp : TopicPartition) :
    (c.copies tp).length = c.origins.countP (·.1 = tp) := by
  rw [copies, origins, List.countP_map, List.countP_eq_length_filter]
  rfl

/-- Whether copies can be spread depends on the partitions of replicas and the states of brokers. -/
theorem spreadable_congr (horigins : c'.origins = c.origins) (hstates : c'.states = c.states) :
    c'.Spreadable ↔ c.Spreadable := by
  have halive : c'.aliveBrokers.length = c.aliveBrokers.length := by
    have hlen := congrArg List.length (ids_aliveBrokers_congr hstates)
    rwa [List.length_map, List.length_map] at hlen
  unfold Spreadable
  refine forall_congr' fun tp ↦ ?_
  rw [length_copies, length_copies, horigins, halive]

/-- For what is on a dead broker there is an alive one without the partition. -/
theorem Stable.exists_vacant (h : c.Stable measured) (hspread : c.Spreadable)
    (hr : c.replica? i = some r) (hdead : c.Dead r.broker) :
    ∃ d, c.Alive d ∧ ¬ c.Hosts d r.partition := by
  by_contra hnone
  -- Otherwise there are copies on all alive brokers, and that on the dead broker is one too many.
  have hsub : r.broker :: c.aliveBrokers.map Broker.id ⊆
      (c.copies r.partition).map Replica.broker := by
    rw [List.cons_subset]
    refine ⟨List.mem_map_of_mem (mem_copies.2 ⟨⟨i, hr⟩, rfl⟩), fun d hd ↦ ?_⟩
    have halive := h.toSound.mem_ids_aliveBrokers.1 hd
    obtain ⟨j, r', hon, hp⟩ : c.Hosts d r.partition := by
      by_contra hvacant
      exact hnone ⟨d, halive, hvacant⟩
    exact List.mem_map.2 ⟨r', mem_copies.2 ⟨⟨j, hon.replica?_eq⟩, hp⟩, h.broker_of_on hon⟩
  have hnodup : (r.broker :: c.aliveBrokers.map Broker.id).Nodup := by
    refine List.nodup_cons.2 ⟨fun hmem ↦ ?_, h.toSound.nodup_ids_aliveBrokers⟩
    exact not_dead_of_alive (h.toSound.mem_ids_aliveBrokers.1 hmem) hdead
  have hlen := (List.subperm_of_subset hnodup hsub).length_le
  rw [List.length_cons, List.length_map, List.length_map] at hlen
  exact Nat.not_succ_le_self _ (hlen.trans (hspread r.partition))

/-- If all dead brokers are empty, all copies are on alive ones. -/
theorem Stable.spreadable (h : c.Stable measured)
    (hempty : ∀ b ∈ c.brokers, b.isAlive = false → b.count = 0) : c.Spreadable := by
  intro tp
  have hsub : (c.copies tp).map Replica.broker ⊆ c.aliveBrokers.map Broker.id := by
    intro id hid
    obtain ⟨r, hr, rfl⟩ := List.mem_map.1 hid
    obtain ⟨⟨i, hr⟩, -⟩ := mem_copies.1 hr
    have hon := h.complete i r hr
    have hpos := h.toSound.count_pos hon
    obtain ⟨b, hb, hid, -⟩ := hon
    have hfound := h.broker?_of_mem hb
    rw [hid] at hfound
    refine h.toSound.mem_ids_aliveBrokers.2 ⟨b, hfound, ?_⟩
    rw [← Bool.not_eq_false]
    intro hdead
    have hzero := hempty b hb hdead
    rw [← hid, h.count_of_mem hb] at hpos
    exact hpos.ne' hzero
  have hlen := (List.subperm_of_subset (h.nodup_hosts tp) hsub).length_le
  rwa [List.length_map, List.length_map] at hlen

end Rebalance.Cluster
