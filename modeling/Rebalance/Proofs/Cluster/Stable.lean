import Rebalance.Proofs.Cluster.Relocation
import Rebalance.Proofs.View

/-!
# Stable clusters

A sound cluster is stable if moreover every replica is on its broker, every view is in order, and
the use of every resource that a view may order by is a number. Every change leaves a stable cluster
stable; none of them can then lose an entry in a view.
-/

namespace Rebalance

variable {measured : Resource → Prop}

/-- The use of each resource that is measured is a number. -/
def Load.IsNumeric (measured : Resource → Prop) (l : Load) : Prop := ∀ x, measured x → l.of x ≠ .nan

theorem Load.isNumeric_default (measured : Resource → Prop) : Load.IsNumeric measured {} := by
  have hzero : (0 : Double) ≠ .nan := by
    rw [Double.literal_eq]
    exact Double.ofNat_ne_nan _
  intro x _
  cases x <;> exact hzero

/-! ## Orderly brokers -/

namespace Broker

/-- The views are in order, by resources that are measured. -/
def Orderly (measured : Resource → Prop) (b : Broker) : Prop :=
  ∀ e ∈ b.views, e.2.InOrder ∧ ∀ x ∈ e.2.criteria.score, measured x

variable {b : Broker} {i : ReplicaId} {r : Replica} {tp : TopicPartition} {d : BrokerId}

namespace Orderly

theorem host (h : b.Orderly measured) (hr : r.load.IsNumeric measured) :
    (b.host i r).Orderly measured := by
  intro e he
  obtain ⟨e', he', rfl⟩ := List.mem_map.1 he
  obtain ⟨horder, hscore⟩ := h e' he'
  refine ⟨horder.insert i ?_, ?_⟩
  · exact fun _ ↦ Criteria.score_rank_ne_nan fun x hx ↦ hr x (hscore x hx)
  · rw [View.criteria_insert]
    exact hscore

/-- Every view can follow a departure. -/
theorem found (h : b.Orderly measured) (tp : TopicPartition) : (b.release tp).2 = true := by
  rw [found_release]
  exact found_of_not_hasLost fun e he ↦ (h e he).1.hasLost_eq_false tp

theorem release (h : b.Orderly measured) (tp : TopicPartition) :
    (b.release tp).1.Orderly measured := by
  intro e he
  rw [views_release, dropFromViews_of_found (h.found tp)] at he
  obtain ⟨e', he', rfl⟩ := List.mem_map.1 he
  obtain ⟨horder, hscore⟩ := h e' he'
  exact ⟨horder.erase tp, hscore⟩

theorem onMove (h : b.Orderly measured) (hr : r.load.IsNumeric measured) :
    (b.onMove i r d).Orderly measured := by
  unfold Broker.onMove
  split
  · exact h.release r.partition
  · split
    · exact h.host hr
    · exact h

end Orderly

end Broker

namespace Cluster

variable {c c' : Cluster} {id s d : BrokerId} {b : Broker} {i : ReplicaId} {r : Replica}
  {tp : TopicPartition}

/-- Every replica is on its broker, and every view is in order. -/
structure Stable (measured : Resource → Prop) (c : Cluster) : Prop extends c.Sound where
  complete : ∀ i r, c.replica? i = some r → c.On r.broker i r
  numeric : ∀ r ∈ c.replicas, r.load.IsNumeric measured
  orderly : ∀ b ∈ c.brokers, b.Orderly measured

namespace Stable

protected theorem empty : Stable measured ∅ where
  toSound := .empty
  complete i r h := by cases h
  numeric r h := by cases h
  orderly b h := by cases h

theorem numeric_of_replica? (h : c.Stable measured) (hr : c.replica? i = some r) :
    r.load.IsNumeric measured := h.numeric r (List.mem_of_getElem? hr)

/-! ## Moves -/

protected theorem moved (h : c.Stable measured) (hm : c.Movable i r d) :
    (c.moved i r d).Stable measured where
  toSound := h.toSound.moved hm
  complete j r' hr' := by
    rw [on_moved_iff h.toSound hm]
    by_cases hji : j = i
    · subst hji
      have hr := hm.on.replica?_eq
      rw [replica?_moved_self hr] at hr'
      obtain rfl := Option.some.inj hr'
      exact .inl ⟨rfl, rfl, rfl⟩
    · rw [replica?_moved_of_ne hji] at hr'
      exact .inr ⟨h.complete j r' hr', hji⟩
  numeric r' hr' := by
    have hr := hm.on.replica?_eq
    rcases List.mem_or_eq_of_mem_set hr' with hr' | rfl
    · exact h.numeric r' hr'
    · have hload := h.numeric_of_replica? hr
      exact hload
  orderly := by
    have hr := hm.on.replica?_eq
    rw [brokers_moved, List.forall_mem_map]
    exact fun b hb ↦ (h.orderly b hb).onMove (h.numeric_of_replica? hr)

/-- In a stable cluster a relocation is never refused halfway. -/
theorem eq_of_refused (h : c.Stable measured) {f : Fault} (hf : Refused c tp s d f c') :
    c' = c := by
  cases hf with
  | lost hs hd hvacant hhosts hlost =>
    rw [(h.orderly _ (mem_of_broker? hs)).found tp] at hlost
    cases hlost
  | _ => rfl

/-- What is on a broker can move to any other one that is without the partition. -/
theorem not_refused (h : c.Stable measured) {f : Fault} (hs : c.Hosts s tp)
    (hd : c.broker? d = some b) (hvacant : b.hosts tp = false) : ¬ Refused c tp s d f c' := by
  intro hf
  obtain ⟨-, b', hb', hlost⟩ := h.lost_of_refused hs hd hvacant hf
  rw [(h.orderly _ (mem_of_broker? hb')).found tp] at hlost
  cases hlost

theorem relocate (h : c.Stable measured) (tp : TopicPartition) (s d : BrokerId) :
    Ends (relocate tp s d) c (fun _ c' ↦ c'.Stable measured) fun _ c' ↦ c' = c := by
  refine (ends_relocate h.toSound tp s d).mono ?_ fun f c' ↦ h.eq_of_refused
  rintro - _ ⟨i, r, -, -, hm, rfl⟩
  exact h.moved hm

end Stable

end Cluster

end Rebalance
