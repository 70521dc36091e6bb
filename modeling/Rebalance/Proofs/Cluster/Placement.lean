import Rebalance.Cluster.Placement
import Rebalance.Proofs.Cluster.Spread

/-!
# Placements

The placements of a cluster list each of its partitions once, in ascending order. The hosts of a
partition are the brokers of its copies, so in a stable cluster they are distinct, and there are as
many of them however copies have moved.
-/

namespace Rebalance

/-! ## Ascending lists -/

section

variable {α : Type} [LT α] [DecidableLT α] [DecidableEq α]
  (htrans : ∀ {a b c : α}, a < b → b < c → a < c) (htotal : ∀ a b : α, a < b ∨ a = b ∨ b < a)

include htrans htotal

theorem pairwise_insertAscending {as : List α} (h : as.Pairwise (· < ·)) (a : α) :
    (insertAscending a as).Pairwise (· < ·) := by
  induction as with
  | nil => exact List.pairwise_singleton _ _
  | cons b rest ih =>
    rw [List.pairwise_cons] at h
    unfold insertAscending
    split
    · exact List.pairwise_cons.2 h
    · rename_i hne
      split
      · rename_i hlt
        refine List.pairwise_cons.2 ⟨?_, List.pairwise_cons.2 h⟩
        exact List.forall_mem_cons.2 ⟨hlt, fun c hc ↦ htrans hlt (h.1 c hc)⟩
      · rename_i hge
        refine List.pairwise_cons.2 ⟨fun c hc ↦ ?_, ih h.2⟩
        rcases mem_insertAscending.1 hc with rfl | hc
        · exact ((htotal c b).resolve_left hge).resolve_left hne
        · exact h.1 c hc

theorem pairwise_ascending (as : List α) : (ascending as).Pairwise (· < ·) := by
  have key : ∀ sorted : List α, sorted.Pairwise (· < ·) →
      (as.foldl (fun sorted a ↦ insertAscending a sorted) sorted).Pairwise (· < ·) := by
    induction as with
    | nil => exact fun sorted h ↦ h
    | cons a rest ih => exact fun sorted h ↦ ih _ (pairwise_insertAscending htrans htotal h a)
  exact key [] List.Pairwise.nil

end

/-- What alone in a list satisfies a test is found by it. -/
theorem find?_eq_some_of_iff {α : Type} {as : List α} {p : α → Bool} {a : α} (ha : a ∈ as)
    (hp : ∀ b ∈ as, p b = true ↔ b = a) : as.find? p = some a := by
  cases hfound : as.find? p with
  | none => exact absurd ((hp a ha).2 rfl) (List.find?_eq_none.1 hfound a ha)
  | some b =>
    rw [(hp b (List.mem_of_find?_eq_some hfound)).1 (List.find?_some hfound)]

namespace Cluster

variable {measured : Resource → Prop} {c c' : Cluster} {tp : TopicPartition}

/-! ## Partitions -/

theorem pairwise_partitions (c : Cluster) : c.partitions.Pairwise (· < ·) :=
  pairwise_ascending TopicPartition.lt_trans TopicPartition.lt_or_eq_or_lt _

theorem mem_partitions : tp ∈ c.partitions ↔ c.copies tp ≠ [] := by
  unfold partitions copies
  rw [mem_ascending, List.mem_map, ne_eq, List.filter_eq_nil_iff]
  simp

/-- Which partitions there are does not depend on where their copies are. -/
theorem partitions_congr (h : c'.origins = c.origins) : c'.partitions = c.partitions := by
  have hmap : ∀ c : Cluster, c.replicas.map Replica.partition = c.origins.map Prod.fst := fun c ↦ by
    rw [origins, List.map_map]
    rfl
  rw [partitions, partitions, hmap, hmap, h]

theorem find?_placements (h : tp ∈ c.partitions) :
    c.placements.find? (·.partition = tp) = some (c.placement tp) := by
  unfold placements
  rw [List.find?_map]
  refine congrArg (Option.map c.placement) (find?_eq_some_of_iff h fun tp' _ ↦ ?_)
  rw [Function.comp_apply, decide_eq_true_eq]
  rfl

/-! ## Hosts -/

theorem hosts_perm (c : Cluster) (tp : TopicPartition) :
    (c.hosts tp).Perm ((c.copies tp).map Replica.broker) :=
  (List.filter_append_perm Replica.leads (c.copies tp)).map Replica.broker

theorem length_hosts (c : Cluster) (tp : TopicPartition) :
    (c.hosts tp).length = (c.copies tp).length := by
  rw [(c.hosts_perm tp).length_eq, List.length_map]

theorem length_hosts_congr (h : c'.origins = c.origins) (tp : TopicPartition) :
    (c'.hosts tp).length = (c.hosts tp).length := by
  rw [length_hosts, length_hosts, length_copies, length_copies, h]

theorem Stable.hosts_nodup (h : c.Stable measured) (tp : TopicPartition) :
    (c.hosts tp).Nodup := (c.hosts_perm tp).nodup_iff.2 (h.nodup_hosts tp)

theorem hosts_eq_nil (h : tp ∉ c.partitions) : c.hosts tp = [] := by
  rw [mem_partitions, not_not] at h
  unfold hosts
  rw [h]
  rfl

theorem leader_eq_none (h : tp ∉ c.partitions) : c.leader tp = none := by
  rw [mem_partitions, not_not] at h
  unfold leader
  rw [h]
  rfl

end Cluster

end Rebalance
