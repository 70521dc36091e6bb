import Rebalance.Distribution.Fill
import Rebalance.Proofs.BrokerSet
import Rebalance.Proofs.Distribution.Counting

/-!
# Receivers and givers

While a broker is drained, the set of receivers holds just the alive brokers that may receive, each
under its present count. The queue that a broker is filled from starts with the alive brokers above
the lower limit.
-/

namespace Rebalance

namespace DistributionGoal

variable {g : DistributionGoal} {c c' : Cluster} {s : BrokerSet} {d id : BrokerId} {b : Broker}

/-! ## Receivers -/

/-- A broker may receive replicas: evacuating, or below the upper limit. -/
def Room (g : DistributionGoal) (c : Cluster) (d : BrokerId) : Prop :=
  g.evacuating = true ∨ (c.count d : Int) < g.limits.upper

theorem mayReceive_iff (hb : c.broker? d = some b) : g.mayReceive b = true ↔ g.Room c d := by
  rw [mayReceive, Bool.or_eq_true, decide_eq_true_eq, Room, count_of_broker? hb]

/-- No broker is among the receivers twice. -/
theorem nodup_receivers (h : c.Sound) (g : DistributionGoal) :
    ((g.receivers c).map Broker.id).Nodup :=
  h.ids_nodup.sublist ((List.filter_sublist.trans List.filter_sublist).map Broker.id)

/-- When a broker is put in order again, it comes under its present count or is left out, and all
others stay. -/
theorem reposition_spec (h : s.Ordered Fullness.broker) (hb : c.broker? d = some b)
    (g : DistributionGoal) :
    (g.reposition c d s).Ordered Fullness.broker ∧ ∀ e, e ∈ (g.reposition c d s).entries ↔
      e = (b.fullness, d) ∧ g.mayReceive b = true ∨ e ∈ s.entries ∧ e.1.broker ≠ d := by
  obtain rfl := Cluster.id_of_broker? hb
  have hordered : (s.discard b.id).Ordered Fullness.broker := h.erase b.id
  unfold reposition
  rw [hb]
  cases hroom : g.mayReceive b with
  | true =>
    rw [Option.filter_some_pos hroom]
    refine ⟨BrokerSet.ordered_add hordered b, fun e ↦ ?_⟩
    dsimp only
    rw [BrokerSet.mem_entries_add hordered (BrokerSet.has_discard h b.id),
      BrokerSet.mem_entries_discard h, and_iff_left rfl]
  | false =>
    rw [Option.filter_some_neg (by simp [hroom])]
    refine ⟨hordered, fun e ↦ ?_⟩
    dsimp only
    rw [BrokerSet.mem_entries_discard h, or_iff_right fun h ↦ Bool.false_ne_true h.2]

/-- A set holds just the alive brokers that may receive, each under its present count. -/
structure Ready (g : DistributionGoal) (c : Cluster) (s : BrokerSet) : Prop where
  ordered : s.Ordered Fullness.broker
  mem_entries : ∀ key d, (key, d) ∈ s.entries ↔ key = ⟨c.count d, d⟩ ∧ c.Alive d ∧ g.Room c d

namespace Ready

theorem mem_brokers (h : g.Ready c s) : d ∈ s.brokers ↔ c.Alive d ∧ g.Room c d := by
  rw [BrokerSet.mem_brokers]
  constructor
  · rintro ⟨key, he⟩
    exact ((h.mem_entries key d).1 he).2
  · intro hd
    exact ⟨_, (h.mem_entries _ d).2 ⟨rfl, hd⟩⟩

/-- The set starts with all that may receive. -/
theorem ofReceivers (h : c.Sound) : g.Ready c (.ofBrokers (g.receivers c)) := by
  obtain ⟨hordered, hmem⟩ := BrokerSet.ofBrokers_spec (nodup_receivers h g)
  refine ⟨hordered, fun key d ↦ (hmem _).trans ?_⟩
  have hreceiver : ∀ {b}, b ∈ g.receivers c ↔
      b ∈ c.brokers ∧ b.isAlive = true ∧ g.mayReceive b = true := by
    intro b
    rw [receivers, Cluster.aliveBrokers, List.mem_filter, List.mem_filter, and_assoc]
  constructor
  · rintro ⟨b, hb, heq⟩
    obtain ⟨rfl, rfl⟩ := Prod.mk.inj heq
    obtain ⟨hmem, halive, hroom⟩ := hreceiver.1 hb
    have hfound := h.broker?_of_mem hmem
    refine ⟨?_, ⟨b, hfound, halive⟩, (mayReceive_iff hfound).1 hroom⟩
    rw [count_of_broker? hfound]
    rfl
  · rintro ⟨rfl, ⟨b, hb, halive⟩, hroom⟩
    refine ⟨b, hreceiver.2 ⟨Cluster.mem_of_broker? hb, halive, (mayReceive_iff hb).2 hroom⟩, ?_⟩
    rw [count_of_broker? hb, Broker.fullness, Cluster.id_of_broker? hb]

/-- After a broker received a replica it is put in order again, or left out if it is full. -/
theorem reposition (h : g.Ready c s) (hstates : c'.states = c.states) (hd : c.Alive d)
    (hother : ∀ e, e ≠ d → c.Alive e → (g.Room c' e ↔ g.Room c e) ∧
      (g.Room c e → c'.count e = c.count e)) :
    g.Ready c' (g.reposition c' d s) := by
  obtain ⟨b, hb, halive⟩ := (Cluster.alive_congr hstates).2 hd
  obtain ⟨hordered, hmem⟩ := reposition_spec h.ordered hb g
  have hfullness : b.fullness = ⟨c'.count d, d⟩ := by
    rw [count_of_broker? hb, Broker.fullness, Cluster.id_of_broker? hb]
  refine ⟨hordered, fun key e ↦ (hmem _).trans ?_⟩
  rw [h.mem_entries, ← Cluster.alive_congr hstates, mayReceive_iff hb, hfullness]
  constructor
  · rintro (⟨heq, hroom⟩ | ⟨⟨rfl, halive', hroom⟩, hne⟩)
    · obtain ⟨rfl, rfl⟩ := Prod.mk.inj heq
      exact ⟨rfl, ⟨b, hb, halive⟩, hroom⟩
    · obtain ⟨hroom', hcount⟩ := hother e hne ((Cluster.alive_congr hstates).1 halive')
      rw [hcount hroom]
      exact ⟨rfl, halive', hroom'.2 hroom⟩
  · rintro ⟨rfl, halive', hroom⟩
    by_cases hne : e = d
    · subst hne
      exact .inl ⟨rfl, hroom⟩
    · obtain ⟨hroom', hcount⟩ := hother e hne ((Cluster.alive_congr hstates).1 halive')
      rw [hcount (hroom'.1 hroom)]
      exact .inr ⟨⟨rfl, halive', hroom'.1 hroom⟩, hne⟩

end Ready

/-! ## Receivers under stale counts -/

/-- A set holds just the alive brokers that may receive, under whatever counts. When an alive broker
is drained while others are evacuated, it stands among them itself, under the count that it had at
first. -/
structure Covers (g : DistributionGoal) (c : Cluster) (s : BrokerSet) : Prop where
  ordered : s.Ordered Fullness.broker
  keyed : ∀ e ∈ s.entries, e.1.broker = e.2
  mem_brokers : ∀ d, d ∈ s.brokers ↔ c.Alive d ∧ g.Room c d

theorem Ready.covers (h : g.Ready c s) : g.Covers c s where
  ordered := h.ordered
  keyed e he := by
    obtain ⟨key, d⟩ := e
    rw [((h.mem_entries key d).1 he).1]
  mem_brokers _ := h.mem_brokers

/-- A set of receivers goes on to hold them if the destination of a move is put in order again. -/
theorem Covers.reposition (h : g.Covers c s) (hstates : c'.states = c.states) (hd : c.Alive d)
    (hother : ∀ e, e ≠ d → c.Alive e → (g.Room c' e ↔ g.Room c e)) :
    g.Covers c' (g.reposition c' d s) := by
  obtain ⟨b, hb, halive⟩ := (Cluster.alive_congr hstates).2 hd
  obtain ⟨hordered, hmem⟩ := reposition_spec h.ordered hb g
  refine ⟨hordered, fun e he ↦ ?_, fun e ↦ ?_⟩
  · rcases (hmem e).1 he with ⟨rfl, -⟩ | ⟨hold, -⟩
    · exact Cluster.id_of_broker? hb
    · exact h.keyed e hold
  · rw [BrokerSet.mem_brokers]
    constructor
    · rintro ⟨key, he⟩
      rcases (hmem _).1 he with ⟨heq, hroom⟩ | ⟨hold, hne⟩
      · obtain ⟨-, rfl⟩ := Prod.mk.inj heq
        exact ⟨⟨b, hb, halive⟩, (mayReceive_iff hb).1 hroom⟩
      · obtain ⟨halive', hroom⟩ := (h.mem_brokers e).1 (BrokerSet.mem_brokers.2 ⟨key, hold⟩)
        rw [h.keyed _ hold] at hne
        exact ⟨(Cluster.alive_congr hstates).2 halive', (hother e hne halive').2 hroom⟩
    · rintro ⟨halive', hroom⟩
      by_cases hne : e = d
      · subst hne
        exact ⟨_, (hmem _).2 (.inl ⟨rfl, (mayReceive_iff hb).2 hroom⟩)⟩
      · rw [Cluster.alive_congr hstates] at halive'
        obtain ⟨key, hold⟩ := BrokerSet.mem_brokers.1
          ((h.mem_brokers e).2 ⟨halive', (hother e hne halive').1 hroom⟩)
        exact ⟨key, (hmem _).2 (.inr ⟨hold, (h.keyed _ hold).symm ▸ hne⟩)⟩

end DistributionGoal

/-! ## Givers -/

namespace Fullness

variable {a b e : Fullness}

theorem isFuller_iff :
    a.isFuller b = true ↔ b.count < a.count ∨ a.count = b.count ∧ a.broker < b.broker := by
  simp [isFuller]

theorem isFuller_trans (h : a.isFuller b = true) (h' : b.isFuller e = true) :
    a.isFuller e = true := by
  rw [isFuller_iff] at *
  omega

/-- Of two brokers one comes before the other. -/
theorem isFuller_total (h : a.broker ≠ b.broker) : a.isFuller b = true ∨ b.isFuller a = true := by
  rw [isFuller_iff, isFuller_iff]
  omega

theorem count_le_of_isFuller (h : a.isFuller b = true) : b.count ≤ a.count := by
  rw [isFuller_iff] at h
  omega

end Fullness

section

variable {a e : Fullness} {bs : List Broker} {queue : List Fullness}

theorem mem_enqueue : e ∈ enqueue a queue ↔ e = a ∨ e ∈ queue := by
  induction queue with
  | nil => simp [enqueue]
  | cons b rest ih =>
    unfold enqueue
    split
    · exact List.mem_cons
    · rw [List.mem_cons, ih, List.mem_cons, or_left_comm]

theorem mem_foldl_enqueue :
    e ∈ bs.foldl (fun queue b ↦ enqueue b.fullness queue) queue ↔
      e ∈ queue ∨ ∃ b ∈ bs, e = b.fullness := by
  induction bs generalizing queue with
  | nil => simp
  | cons b rest ih =>
    rw [List.foldl_cons, ih, mem_enqueue, List.exists_mem_cons_iff, or_assoc, or_left_comm]

/-- A queue stands in order: the fullest giver first, and of equals the one of lowest number. -/
def FullestFirst (queue : List Fullness) : Prop :=
  queue.Pairwise fun a b ↦ a.isFuller b = true

namespace FullestFirst

/-- A giver that is not in the queue is put where it keeps the order. -/
theorem enqueue (h : FullestFirst queue) (hnew : ∀ e ∈ queue, e.broker ≠ a.broker) :
    FullestFirst (enqueue a queue) := by
  induction queue with
  | nil => exact List.pairwise_singleton _ a
  | cons b rest ih =>
    obtain ⟨hb, hrest⟩ := List.pairwise_cons.1 h
    obtain ⟨hne, hnew'⟩ := List.forall_mem_cons.1 hnew
    unfold Rebalance.enqueue
    split
    · rename_i hfuller
      refine List.pairwise_cons.2 ⟨List.forall_mem_cons.2 ⟨hfuller, fun e he ↦ ?_⟩, h⟩
      exact Fullness.isFuller_trans hfuller (hb e he)
    · rename_i hfuller
      refine List.pairwise_cons.2 ⟨fun e he ↦ ?_, ih hrest hnew'⟩
      rcases mem_enqueue.1 he with rfl | he
      · exact (Fullness.isFuller_total hne).resolve_right hfuller
      · exact hb e he

/-- So are brokers with different numbers. -/
theorem foldl_enqueue (h : FullestFirst queue) (hbs : (bs.map Broker.id).Nodup)
    (hnew : ∀ b ∈ bs, ∀ e ∈ queue, e.broker ≠ b.id) :
    FullestFirst (bs.foldl (fun queue b ↦ Rebalance.enqueue b.fullness queue) queue) := by
  induction bs generalizing queue with
  | nil => exact h
  | cons b rest ih =>
    rw [List.map_cons, List.nodup_cons] at hbs
    rw [List.forall_mem_cons] at hnew
    refine ih (h.enqueue hnew.1) hbs.2 fun b' hb' e he ↦ ?_
    rcases mem_enqueue.1 he with rfl | he
    · exact fun heq ↦ hbs.1 (List.mem_map.2 ⟨b', hb', heq.symm⟩)
    · exact hnew.2 b' hb' e he

/-- No giver holds more than the first one. -/
theorem count_le_of_head? {n : Nat} (h : FullestFirst queue)
    (hhead : queue.head?.any (n < ·.count) = false) (he : e ∈ queue) : e.count ≤ n := by
  cases queue with
  | nil => cases he
  | cons b rest =>
    have hb : b.count ≤ n := Nat.not_lt.1 (of_decide_eq_false hhead)
    rcases List.mem_cons.1 he with rfl | he
    · exact hb
    · exact (Fullness.count_le_of_isFuller ((List.pairwise_cons.1 h).1 e he)).trans hb

end FullestFirst

end

namespace DistributionGoal

variable {g : DistributionGoal} {c : Cluster} {e : Fullness}

/-- The queue starts with the alive brokers above the lower limit, each under its present count. -/
theorem mem_givers (h : c.Sound) : e ∈ g.givers c ↔
    e.count = c.count e.broker ∧ c.Alive e.broker ∧ g.limits.lower < c.count e.broker := by
  unfold givers Cluster.aliveBrokers
  rw [mem_foldl_enqueue, List.filter_filter]
  constructor
  · rintro (h | ⟨b, hb, rfl⟩)
    · cases h
    · obtain ⟨hmem, hb⟩ := List.mem_filter.1 hb
      rw [Bool.and_eq_true, decide_eq_true_eq] at hb
      have hfound := h.broker?_of_mem hmem
      have hcount : c.count b.fullness.broker = b.count := count_of_broker? hfound
      rw [hcount]
      exact ⟨rfl, ⟨b, hfound, hb.2⟩, hb.1⟩
  · rintro ⟨hcount, ⟨b, hb, halive⟩, hlow⟩
    rw [count_of_broker? hb] at hcount hlow
    refine .inr ⟨b, List.mem_filter.2 ⟨Cluster.mem_of_broker? hb, ?_⟩, ?_⟩
    · rw [Bool.and_eq_true, decide_eq_true_eq]
      exact ⟨hlow, halive⟩
    · obtain ⟨n, id⟩ := e
      rw [Broker.fullness, Cluster.id_of_broker? hb, ← hcount]

/-- And in order. -/
theorem fullestFirst_givers (h : c.Sound) (g : DistributionGoal) : FullestFirst (g.givers c) := by
  refine FullestFirst.foldl_enqueue List.Pairwise.nil ?_ fun _ _ e he ↦ by cases he
  exact h.ids_nodup.sublist ((List.filter_sublist.trans List.filter_sublist).map Broker.id)

end DistributionGoal

end Rebalance
