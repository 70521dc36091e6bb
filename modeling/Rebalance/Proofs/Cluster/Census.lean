import Mathlib.Algebra.BigOperators.Ring.Finset
import Mathlib.Algebra.Order.BigOperators.Group.List
import Mathlib.Algebra.Order.Ring.Int
import Rebalance.Proofs.Cluster.Stable

/-!
# Census

In a stable cluster every replica is on exactly one broker. So the counts of the brokers add up to
the number of replicas, and the copies of a partition are on as many brokers as there are copies.
-/

namespace Rebalance.Cluster.Stable

variable {measured : Resource → Prop} {c : Cluster} {b b' : Broker} {i j : ReplicaId}
  {r r' : Replica} {tp tp' : TopicPartition}

/-- A replica stands in one place of one broker. -/
theorem eq_of_mem_hosted (h : c.Stable measured) (hb : b ∈ c.brokers) (hb' : b' ∈ c.brokers)
    (hi : (tp, i) ∈ b.hosted) (hi' : (tp', i) ∈ b'.hosted) : b = b' ∧ tp = tp' := by
  obtain ⟨r, hr, rfl, hbroker⟩ := h.hosted b hb tp i hi
  obtain ⟨r', hr', rfl, hbroker'⟩ := h.hosted b' hb' tp' i hi'
  rw [hr] at hr'
  obtain rfl := Option.some.inj hr'
  exact ⟨h.broker_unique hb hb' (hbroker.symm.trans hbroker'), rfl⟩

/-- The copies of a partition are on different brokers. -/
theorem eq_of_same_place (h : c.Stable measured) (hi : c.replica? i = some r)
    (hj : c.replica? j = some r') (hp : r.partition = r'.partition)
    (hbroker : r.broker = r'.broker) : i = j := by
  have hon := h.complete j r' hj
  rw [← hbroker] at hon
  exact h.on_unique (h.complete i r hi) hon hp

/-! ## Counting -/

theorem nodup_values (h : c.Stable measured) (hb : b ∈ c.brokers) : b.hosted.values.Nodup := by
  have hnodup : b.hosted.Nodup := (h.distinct b hb).of_map Prod.fst
  refine hnodup.map_on ?_
  rintro ⟨tp, i⟩ he ⟨tp', j⟩ he' (rfl : i = j)
  obtain ⟨-, rfl⟩ := h.eq_of_mem_hosted hb hb he he'
  rfl

/-- All that brokers refer to, broker by broker, is each replica once. -/
theorem perm_range (h : c.Stable measured) :
    (c.brokers.flatMap fun b ↦ b.hosted.values).Perm (List.range c.size) := by
  rw [List.perm_ext_iff_of_nodup _ List.nodup_range]
  · intro i
    rw [List.mem_range, List.mem_flatMap]
    constructor
    · rintro ⟨b, hb, hi⟩
      obtain ⟨⟨tp, i⟩, he, rfl⟩ := List.mem_map.1 hi
      obtain ⟨r, hr, -⟩ := h.hosted b hb tp i he
      obtain ⟨hlt, -⟩ := List.getElem?_eq_some_iff.1 hr
      exact hlt
    · intro hi
      obtain ⟨b, hb, -, hmem, -⟩ := h.complete i c.replicas[i] (List.getElem?_eq_getElem hi)
      exact ⟨b, hb, List.mem_map.2 ⟨_, hmem, rfl⟩⟩
  · rw [List.nodup_flatMap]
    refine ⟨fun b hb ↦ h.nodup_values hb, ?_⟩
    have hids := h.ids_nodup
    rw [List.nodup_iff_pairwise_ne, List.pairwise_map] at hids
    refine hids.imp_of_mem fun {b b'} hb hb' hne ↦ ?_
    refine List.disjoint_left.2 fun i hi hi' ↦ ?_
    obtain ⟨⟨tp, i⟩, he, rfl⟩ := List.mem_map.1 hi
    obtain ⟨⟨tp', j⟩, he', rfl⟩ := List.mem_map.1 hi'
    obtain ⟨rfl, -⟩ := h.eq_of_mem_hosted hb hb' he he'
    exact hne rfl

/-- The counts add up to the number of replicas. -/
theorem sum_counts (h : c.Stable measured) : (c.brokers.map Broker.count).sum = c.size := by
  have hlen := h.perm_range.length_eq
  rw [List.length_range, List.length_flatMap] at hlen
  rw [← hlen]
  refine congrArg List.sum (List.map_congr_left fun b _ ↦ ?_)
  exact (List.length_map _).symm

/-- If no broker holds fewer replicas than a number and one holds more, there are more than that
number for each. -/
theorem mul_lt_size (h : c.Stable measured) {n : Int} (hall : ∀ b ∈ c.brokers, n ≤ b.count)
    (hb : b ∈ c.brokers) (hlt : n < b.count) : n * c.brokers.length < c.size := by
  have hsum := List.sum_lt_sum (fun _ ↦ n) (fun b : Broker ↦ (b.count : Int)) hall ⟨b, hb, hlt⟩
  rw [List.map_const', List.sum_replicate, nsmul_eq_mul, mul_comm] at hsum
  rwa [← h.sum_counts, Nat.cast_list_sum, List.map_map]

/-- If no broker holds more replicas than a number and one holds fewer, there are fewer than that
number for each. -/
theorem size_lt_mul (h : c.Stable measured) {n : Int} (hall : ∀ b ∈ c.brokers, (b.count : Int) ≤ n)
    (hb : b ∈ c.brokers) (hlt : (b.count : Int) < n) : (c.size : Int) < n * c.brokers.length := by
  have hsum := List.sum_lt_sum (fun b : Broker ↦ (b.count : Int)) (fun _ ↦ n) hall ⟨b, hb, hlt⟩
  rw [List.map_const', List.sum_replicate, nsmul_eq_mul, mul_comm] at hsum
  rwa [← h.sum_counts, Nat.cast_list_sum, List.map_map]

/-! ## Copies -/

theorem mem_copies {c : Cluster} :
    r ∈ c.copies tp ↔ (∃ i, c.replica? i = some r) ∧ r.partition = tp := by
  rw [copies, List.mem_filter, List.mem_iff_getElem?, decide_eq_true_eq]
  rfl

/-- The copies of a partition are on pairwise different brokers. -/
theorem nodup_hosts (h : c.Stable measured) (tp : TopicPartition) :
    ((c.copies tp).map Replica.broker).Nodup := by
  rw [List.nodup_iff_pairwise_ne, List.pairwise_map, copies, List.pairwise_filter,
    List.pairwise_iff_getElem]
  intro i j hi hj hlt hp hp' hbroker
  have hij := h.eq_of_same_place (List.getElem?_eq_getElem hi) (List.getElem?_eq_getElem hj)
    ((of_decide_eq_true hp).trans (of_decide_eq_true hp').symm) hbroker
  exact Nat.ne_of_lt hlt hij

/-- A replica is listed once among the copies of its partition. -/
theorem count_copies (h : c.Stable measured) (hr : c.replica? i = some r) :
    (c.copies r.partition).count r = 1 := by
  refine List.count_eq_one_of_mem ((h.nodup_hosts r.partition).of_map _) ?_
  exact mem_copies.2 ⟨⟨i, hr⟩, rfl⟩

end Rebalance.Cluster.Stable
