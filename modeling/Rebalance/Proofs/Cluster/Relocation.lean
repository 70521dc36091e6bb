import Rebalance.Proofs.Cluster.States
import Rebalance.Proofs.Outcome
import Rebalance.Proofs.View

/-!
# Relocations

What a relocation does, said once: either it is refused, or the cluster becomes `moved`, in which
one replica has left its broker and arrived on another one. What is on which broker, how many are
there and the states of the brokers are then read off from `moved`.
-/

namespace Rebalance

open Cluster (replica?)

/-! ## Views that follow a departure -/

namespace Broker

variable {tp : TopicPartition}

/-- If every view finds the entry, each drops it. -/
theorem dropFromViews_of_found {views : Roster String View}
    (h : (dropFromViews tp views).2 = true) :
    (dropFromViews tp views).1 = views.map fun e ↦ (e.1, e.2.erase tp) := by
  induction views with
  | nil => rfl
  | cons e rest ih =>
    obtain ⟨name, v⟩ := e
    unfold dropFromViews at h ⊢
    by_cases hlost : v.hasLost tp = true
    · rw [if_pos hlost] at h
      cases h
    · rw [if_neg hlost] at h ⊢
      dsimp only at h ⊢
      rw [ih h, List.map_cons]

theorem found_of_not_hasLost {views : Roster String View}
    (h : ∀ e ∈ views, e.2.hasLost tp = false) : (dropFromViews tp views).2 = true := by
  induction views with
  | nil => rfl
  | cons e rest ih =>
    obtain ⟨name, v⟩ := e
    rw [List.forall_mem_cons] at h
    unfold dropFromViews
    rw [if_neg (by simp [h.1])]
    exact ih h.2

/-- Whether or not entries are found, views show nothing more after a departure. -/
theorem exists_of_entry_dropFromViews {views : Roster String View} {name : String} {v' : View}
    (h : Roster.entry? (dropFromViews tp views).1 name = some v') :
    ∃ v, views.entry? name = some v ∧ v'.replicas ⊆ v.replicas := by
  induction views with
  | nil => cases h
  | cons e rest ih =>
    obtain ⟨name', v⟩ := e
    unfold dropFromViews at h
    by_cases hname : name' = name
    · subst hname
      refine ⟨v, by simp [Roster.entry?], ?_⟩
      split at h <;> simp only [Roster.entry?, if_pos, Option.some.injEq] at h <;>
        exact h ▸ v.replicas_erase_subset tp
    · simp only [Roster.entry?, if_neg hname]
      split at h <;> simp only [Roster.entry?, if_neg hname] at h
      · exact ⟨v', h, List.Subset.refl _⟩
      · exact ih h

/-- An arrival is offered to every view. -/
theorem views_host (b : Broker) (i : ReplicaId) (r : Replica) (name : String) :
    Roster.entry? (b.host i r).views name = (b.views.entry? name).map (·.insert i r) :=
  Roster.entry?_map (fun v : View ↦ v.insert i r) b.views name

@[simp] theorem hosted_release (b : Broker) (tp : TopicPartition) :
    (b.release tp).1.hosted = b.hosted.without tp := rfl

@[simp] theorem immigrants_release (b : Broker) (tp : TopicPartition) :
    (b.release tp).1.immigrants = b.immigrants.without tp := rfl

theorem views_release (b : Broker) (tp : TopicPartition) :
    (b.release tp).1.views = (dropFromViews tp b.views).1 := rfl

theorem found_release (b : Broker) (tp : TopicPartition) :
    (b.release tp).2 = (dropFromViews tp b.views).2 := rfl

/-- A broker when a replica moves to a destination. -/
def onMove (i : ReplicaId) (r : Replica) (d : BrokerId) (b : Broker) : Broker :=
  if b.id = r.broker then (b.release r.partition).1
  else if b.id = d then b.host i { r with broker := d }
  else b

variable {i : ReplicaId} {r : Replica} {d : BrokerId} {b : Broker}

@[simp] theorem id_onMove (i : ReplicaId) (r : Replica) (d : BrokerId) (b : Broker) :
    (b.onMove i r d).id = b.id := by
  unfold onMove
  split
  · rfl
  · split <;> rfl

@[simp] theorem state_onMove (i : ReplicaId) (r : Replica) (d : BrokerId) (b : Broker) :
    (b.onMove i r d).state = b.state := by
  unfold onMove
  split
  · rfl
  · split <;> rfl

theorem onMove_source (h : b.id = r.broker) : b.onMove i r d = (b.release r.partition).1 := if_pos h

theorem onMove_destination (h : b.id ≠ r.broker) (h' : b.id = d) :
    b.onMove i r d = b.host i { r with broker := d } := by
  rw [onMove, if_neg h, if_pos h']

theorem onMove_other (h : b.id ≠ r.broker) (h' : b.id ≠ d) : b.onMove i r d = b := by
  rw [onMove, if_neg h, if_neg h']

end Broker

namespace Cluster

variable {c c' : Cluster} {id s d : BrokerId} {b : Broker} {i j : ReplicaId} {r r' : Replica}
  {tp : TopicPartition}

/-! ## The cluster after a move -/

/-- The cluster after a replica left its broker for another one. -/
def moved (c : Cluster) (i : ReplicaId) (r : Replica) (d : BrokerId) : Cluster where
  brokers := c.brokers.map (·.onMove i r d)
  replicas := c.replicas.set i { r with broker := d }

/-- A replica is on its broker, whose views can all follow its departure, and the destination is
there and has no replica of its partition. -/
structure Movable (c : Cluster) (i : ReplicaId) (r : Replica) (d : BrokerId) : Prop where
  on : c.On r.broker i r
  vacant : ∃ b, c.broker? d = some b ∧ b.hosts r.partition = false
  found : ∀ b, c.broker? r.broker = some b → (b.release r.partition).2 = true

/-- Why a relocation is refused. Only a lost entry in a view leaves a trace: the replica is gone
from its broker. -/
inductive Refused (c : Cluster) (tp : TopicPartition) (s d : BrokerId) :
    Fault → Cluster → Prop where
  | unknownSource : c.broker? s = none → Refused c tp s d (.unknownBroker s) c
  | unknownDestination {b : Broker} : c.broker? s = some b → c.broker? d = none →
    Refused c tp s d (.unknownBroker d) c
  | occupied {b b' : Broker} : c.broker? s = some b → c.broker? d = some b' → b'.hosts tp = true →
    Refused c tp s d (.alreadyHosted d tp) c
  | absent {b b' : Broker} : c.broker? s = some b → c.broker? d = some b' → b'.hosts tp = false →
    b.hosts tp = false → Refused c tp s d (.notHosted s tp) c
  | lost {b b' : Broker} : c.broker? s = some b → c.broker? d = some b' → b'.hosts tp = false →
    b.hosts tp = true → (b.release tp).2 = false →
    Refused c tp s d .viewOutOfOrder (c.update s fun b ↦ (b.release tp).1)

theorem update_update_eq_moved (h : r.broker ≠ d) :
    { ((c.update r.broker fun b ↦ (b.release r.partition).1).update d
        (·.host i { r with broker := d })) with
      replicas := c.replicas.set i { r with broker := d } } = c.moved i r d := by
  refine congrArg (Cluster.mk · _) ?_
  change List.map _ (List.map _ c.brokers) = _
  rw [List.map_map]
  refine List.map_congr_left fun b _ ↦ ?_
  rw [Function.comp_apply]
  by_cases hs : b.id = r.broker
  · rw [if_pos hs, if_neg (by rwa [Broker.release_id, hs]), Broker.onMove_source hs]
  · rw [if_neg hs]
    by_cases hd : b.id = d
    · rw [if_pos hd, Broker.onMove_destination hs hd]
    · rw [if_neg hd, Broker.onMove_other hs hd]

theorem Movable.source_ne (h : c.Sound) (hm : c.Movable i r d) : r.broker ≠ d := by
  intro heq
  obtain ⟨b, hb, hvacant⟩ := hm.vacant
  have hhosts : b.hosts r.partition = true :=
    (h.hosts_iff (mem_of_broker? hb)).2 ⟨i, r, by rw [id_of_broker? hb, ← heq]; exact hm.on, rfl⟩
  rw [hvacant] at hhosts
  cases hhosts

/-- A relocation moves the one replica it is about, or is refused. -/
theorem ends_relocate (h : c.Sound) (tp : TopicPartition) (s d : BrokerId) :
    Ends (relocate tp s d) c
      (fun _ c' ↦ ∃ i r, r.partition = tp ∧ r.broker = s ∧ c.Movable i r d ∧ c' = c.moved i r d)
      (Refused c tp s d) := by
  unfold relocate
  refine .bind (.get (.bind (.except ?_ ?_)))
  · intro b hb
    rw [broker_eq_ok_iff] at hb
    refine .bind (.except ?_ ?_)
    · intro b' hb'
      rw [broker_eq_ok_iff] at hb'
      split
      · rename_i hocc
        exact .throw (.occupied hb hb' hocc)
      · rename_i hvacant
        rw [Bool.not_eq_true] at hvacant
        unfold depart
        refine .bind (.bind (.get (.bind (.except ?_ ?_))))
        · intro b₁ hb₁
          rw [broker_eq_ok_iff, hb] at hb₁
          obtain rfl := Option.some.inj hb₁
          cases hfound : b.hosted.entry? tp with
          | none =>
            refine .throw (.absent hb hb' hvacant ?_)
            rw [Broker.hosts, Roster.has, hfound]
            rfl
          | some i =>
            refine .bind (.set ?_)
            split
            · rename_i hkept
              obtain ⟨r, hon, rfl⟩ :=
                h.on_of_mem_hosted (mem_of_broker? hb) (Roster.mem_of_entry_eq_some hfound)
              have hs : r.broker = s := (h.broker_of_on hon).trans (id_of_broker? hb)
              subst hs
              rw [id_of_broker? hb] at hon
              have hmov : c.Movable i r d := by
                refine ⟨hon, ⟨b', hb', hvacant⟩, fun b₁ hb₁ ↦ ?_⟩
                rw [hb] at hb₁
                rwa [← Option.some.inj hb₁]
              obtain ⟨-, -, -, -, hr⟩ := hon
              refine .pure ⟨i, r, rfl, rfl, hmov, ?_⟩
              change settle _ i d = _
              unfold settle
              have hr' :
                  replica? (c.update r.broker fun b ↦ (b.release r.partition).1) i = some r := hr
              rw [hr']
              exact update_update_eq_moved (hmov.source_ne h)
            · rename_i hlost
              rw [Bool.not_eq_true] at hlost
              exact .throw (.lost hb hb' hvacant (Roster.has_of_entry_eq_some hfound) hlost)
        · intro f hf
          rw [broker_eq_error_iff, hb] at hf
          cases hf.1
    · intro f hf
      obtain ⟨hd, rfl⟩ := broker_eq_error_iff.1 hf
      exact .unknownDestination hb hd
  · intro f hf
    obtain ⟨hs, rfl⟩ := broker_eq_error_iff.1 hf
    exact .unknownSource hs

/-- If what is on a broker may not move to another one that is without the partition, a view of the
first one has lost it. -/
theorem Sound.lost_of_refused (h : c.Sound) {f : Fault} (hs : c.Hosts s tp)
    (hd : c.broker? d = some b) (hvacant : b.hosts tp = false) (hf : Refused c tp s d f c') :
    f = .viewOutOfOrder ∧ ∃ b', c.broker? s = some b' ∧ (b'.release tp).2 = false := by
  have hhosts : ∀ {b'}, c.broker? s = some b' → b'.hosts tp = true := by
    intro b' hb'
    rw [h.hosts_iff (mem_of_broker? hb'), id_of_broker? hb']
    exact hs
  obtain ⟨i, r, ⟨b₀, hb₀, hid, -⟩, -⟩ := hs
  have hfound := h.broker?_of_mem hb₀
  rw [hid] at hfound
  cases hf with
  | unknownSource hnone =>
    rw [hfound] at hnone
    cases hnone
  | unknownDestination _ hnone =>
    rw [hd] at hnone
    cases hnone
  | occupied _ hb' hocc =>
    rw [hd] at hb'
    obtain rfl := Option.some.inj hb'
    rw [hvacant] at hocc
    cases hocc
  | absent hb' _ _ habsent =>
    rw [hhosts hb'] at habsent
    cases habsent
  | lost hb' _ _ _ hlost => exact ⟨rfl, _, hb', hlost⟩

/-! ## What is where after a move -/

@[simp] theorem brokers_moved (c : Cluster) (i : ReplicaId) (r : Replica) (d : BrokerId) :
    (c.moved i r d).brokers = c.brokers.map (·.onMove i r d) := rfl

@[simp] theorem states_moved (c : Cluster) (i : ReplicaId) (r : Replica) (d : BrokerId) :
    (c.moved i r d).states = c.states :=
  states_of_map rfl (Broker.id_onMove i r d) (Broker.state_onMove i r d)

theorem broker?_moved (c : Cluster) (i : ReplicaId) (r : Replica) (d id : BrokerId) :
    (c.moved i r d).broker? id = (c.broker? id).map (·.onMove i r d) :=
  broker?_of_map rfl (Broker.id_onMove i r d) id

theorem replica?_moved_self (hr : c.replica? i = some r) (d : BrokerId) :
    (c.moved i r d).replica? i = some { r with broker := d } := by
  change (c.replicas.set i _)[i]? = _
  obtain ⟨hi, -⟩ := List.getElem?_eq_some_iff.1 hr
  rw [List.getElem?_set_self hi]

theorem replica?_moved_of_ne (h : j ≠ i) (r : Replica) (d : BrokerId) :
    (c.moved i r d).replica? j = c.replica? j := List.getElem?_set_ne (Ne.symm h)

namespace Movable

theorem hosted_source (h : b.id = r.broker) :
    (b.onMove i r d).hosted = b.hosted.filter (·.1 ≠ r.partition) := by
  rw [Broker.onMove_source h, Broker.hosted_release, Roster.without_eq_filter]

/-- No broker but the source has the replica. -/
theorem ne_of_mem_hosted (h : c.Sound) (hm : c.Movable i r d) (hb : b ∈ c.brokers)
    (hs : b.id ≠ r.broker) (hj : (tp, j) ∈ b.hosted) : j ≠ i := by
  rintro rfl
  have hr := hm.on.replica?_eq
  obtain ⟨r', hr', -, hbroker⟩ := h.hosted b hb tp j hj
  rw [hr] at hr'
  obtain rfl := Option.some.inj hr'
  exact hs hbroker.symm

/-- On the source the replica is the only one of its partition. -/
theorem ne_iff_of_mem_hosted (h : c.Sound) (hm : c.Movable i r d) (hb : b ∈ c.brokers)
    (hs : b.id = r.broker) (hj : (tp, j) ∈ b.hosted) : tp ≠ r.partition ↔ j ≠ i := by
  obtain ⟨r', hon, rfl⟩ := h.on_of_mem_hosted hb hj
  rw [hs] at hon
  apply not_congr
  constructor
  · exact h.on_unique hon hm.on
  · rintro rfl
    have hr := hm.on.replica?_eq
    have hr' := hon.replica?_eq
    rw [hr] at hr'
    rw [Option.some.inj hr']

theorem entry_destination (h : c.Sound) (hm : c.Movable i r d) (hb : b ∈ c.brokers)
    (hd : b.id = d) : b.hosted.entry? r.partition = none := by
  obtain ⟨b', hb', hvacant⟩ := hm.vacant
  obtain rfl := h.broker_unique hb (mem_of_broker? hb') (hd.trans (id_of_broker? hb').symm)
  rwa [Broker.hosts, Roster.has, Option.isSome_eq_false_iff, Option.isNone_iff_eq_none] at hvacant

theorem hosted_destination (h : c.Sound) (hm : c.Movable i r d) (hb : b ∈ c.brokers)
    (hd : b.id = d) : (b.onMove i r d).hosted = b.hosted ++ [(r.partition, i)] := by
  have hs : b.id ≠ r.broker := fun hs ↦ hm.source_ne h (hs.symm.trans hd)
  have hfree := hm.entry_destination h hb hd
  rw [Broker.onMove_destination hs hd]
  exact Roster.put_of_entry?_eq_none i hfree

/-- The destination gets the replica, the source loses it, and nothing else changes. -/
theorem mem_hosted_iff (h : c.Sound) (hm : c.Movable i r d) (hb : b ∈ c.brokers) :
    (tp, j) ∈ (b.onMove i r d).hosted ↔
      b.id = d ∧ tp = r.partition ∧ j = i ∨ (tp, j) ∈ b.hosted ∧ j ≠ i := by
  by_cases hs : b.id = r.broker
  · have hd : b.id ≠ d := fun hd ↦ hm.source_ne h (hs.symm.trans hd)
    rw [hosted_source hs, List.mem_filter, decide_eq_true_eq]
    constructor
    · rintro ⟨hj, hne⟩
      exact .inr ⟨hj, (hm.ne_iff_of_mem_hosted h hb hs hj).1 hne⟩
    · rintro (⟨hd', -⟩ | ⟨hj, hne⟩)
      · exact absurd hd' hd
      · exact ⟨hj, (hm.ne_iff_of_mem_hosted h hb hs hj).2 hne⟩
  · have hother : (tp, j) ∈ b.hosted → j ≠ i := hm.ne_of_mem_hosted h hb hs
    by_cases hd : b.id = d
    · rw [hm.hosted_destination h hb hd, List.mem_append, List.mem_singleton, Prod.mk.injEq]
      constructor
      · rintro (hj | heq)
        · exact .inr ⟨hj, hother hj⟩
        · exact .inl ⟨hd, heq⟩
      · rintro (⟨-, heq⟩ | ⟨hj, -⟩)
        · exact .inr heq
        · exact .inl hj
    · rw [Broker.onMove_other hs hd]
      constructor
      · intro hj
        exact .inr ⟨hj, hother hj⟩
      · rintro (⟨hd', -⟩ | ⟨hj, -⟩)
        · exact absurd hd' hd
        · exact hj

end Movable

/-- The moved replica is on the destination and all others are where they were. -/
theorem on_moved_iff (h : c.Sound) (hm : c.Movable i r d) :
    (c.moved i r d).On id j r' ↔
      id = d ∧ j = i ∧ r' = { r with broker := d } ∨ c.On id j r' ∧ j ≠ i := by
  have hr := hm.on.replica?_eq
  constructor
  · rintro ⟨b', hb', rfl, hmem, hr'⟩
    obtain ⟨b, hb, rfl⟩ := List.mem_map.1 hb'
    rw [Broker.id_onMove]
    rcases (hm.mem_hosted_iff h hb).1 hmem with ⟨hd, -, rfl⟩ | ⟨hmem, hne⟩
    · rw [replica?_moved_self hr] at hr'
      exact .inl ⟨hd, rfl, (Option.some.inj hr').symm⟩
    · rw [replica?_moved_of_ne hne] at hr'
      exact .inr ⟨⟨b, hb, rfl, hmem, hr'⟩, hne⟩
  · rintro (⟨rfl, rfl, rfl⟩ | ⟨⟨b, hb, rfl, hmem, hr'⟩, hne⟩)
    · obtain ⟨b, hb, -⟩ := hm.vacant
      have hmem := mem_of_broker? hb
      refine ⟨_, List.mem_map_of_mem hmem, ?_, ?_, replica?_moved_self hr _⟩
      · rw [Broker.id_onMove, id_of_broker? hb]
      · exact (hm.mem_hosted_iff h hmem).2 (.inl ⟨id_of_broker? hb, rfl, rfl⟩)
    · refine ⟨_, List.mem_map_of_mem hb, Broker.id_onMove .., ?_, ?_⟩
      · exact (hm.mem_hosted_iff h hb).2 (.inr ⟨hmem, hne⟩)
      · rwa [replica?_moved_of_ne hne]

/-- The destination hosts the partition instead of the source. -/
theorem hosts_moved_iff (h : c.Sound) (hm : c.Movable i r d) :
    (c.moved i r d).Hosts id tp ↔
      id = d ∧ tp = r.partition ∨ c.Hosts id tp ∧ ¬ (id = r.broker ∧ tp = r.partition) := by
  constructor
  · rintro ⟨j, r', hon, rfl⟩
    rcases (on_moved_iff h hm).1 hon with ⟨rfl, -, rfl⟩ | ⟨hon, hne⟩
    · exact .inl ⟨rfl, rfl⟩
    · refine .inr ⟨⟨j, r', hon, rfl⟩, ?_⟩
      rintro ⟨rfl, hp⟩
      exact hne (h.on_unique hon hm.on hp)
  · rintro (⟨rfl, rfl⟩ | ⟨⟨j, r', hon, rfl⟩, hne⟩)
    · exact ⟨i, _, (on_moved_iff h hm).2 (.inl ⟨rfl, rfl, rfl⟩), rfl⟩
    · refine ⟨j, r', (on_moved_iff h hm).2 (.inr ⟨hon, ?_⟩), rfl⟩
      rintro rfl
      obtain rfl := hon.eq_of_replica? hm.on.replica?_eq
      exact hne ⟨(h.broker_of_on hon).symm, rfl⟩

/-! ## What a move preserves -/

namespace Movable

theorem distinct_onMove (h : c.Sound) (hb : b ∈ c.brokers) :
    (b.onMove i r d).hosted.keys.Nodup := by
  by_cases hs : b.id = r.broker
  · rw [Broker.onMove_source hs, Broker.hosted_release]
    exact Roster.nodup_keys_without _ (h.distinct b hb)
  · by_cases hd : b.id = d
    · rw [Broker.onMove_destination hs hd]
      exact Roster.nodup_keys_put _ (h.distinct b hb)
    · rw [Broker.onMove_other hs hd]
      exact h.distinct b hb

theorem entry_immigrants_destination (h : c.Sound) (hm : c.Movable i r d) (hb : b ∈ c.brokers)
    (hd : b.id = d) : b.immigrants.entry? r.partition = none := by
  rw [Roster.entry?_eq_none_iff, h.immigrants b hb]
  have hnone := Roster.entry?_eq_none_iff.1 (hm.entry_destination h hb hd)
  exact fun hk ↦ hnone (((List.filter_sublist).map Prod.fst).subset hk)

/-- The replica is an immigrant on the destination, unless it comes home. -/
theorem immigrants_destination (h : c.Sound) (hm : c.Movable i r d) (hb : b ∈ c.brokers)
    (hd : b.id = d) : (b.onMove i r d).immigrants =
      if d = r.home then b.immigrants else b.immigrants ++ [(r.partition, i)] := by
  have hs : b.id ≠ r.broker := fun hs ↦ hm.source_ne h (hs.symm.trans hd)
  rw [Broker.onMove_destination hs hd]
  change (if decide (d ≠ r.home) = true then b.immigrants.put r.partition i else b.immigrants) = _
  by_cases hhome : d = r.home
  · rw [if_pos hhome, if_neg (by simp [hhome])]
  · rw [if_neg hhome, if_pos (decide_eq_true hhome),
      Roster.put_of_entry?_eq_none i (hm.entry_immigrants_destination h hb hd)]

/-- The immigrants of every broker follow. -/
theorem immigrants (h : c.Sound) (hm : c.Movable i r d) (hb : b ∈ c.brokers) :
    (b.onMove i r d).immigrants = (b.onMove i r d).hosted.filter
      fun e ↦ ((c.moved i r d).replica? e.2).any Replica.isImmigrant := by
  have hsame : ∀ e ∈ b.hosted, e.2 ≠ i →
      ((c.moved i r d).replica? e.2).any Replica.isImmigrant =
        (c.replica? e.2).any Replica.isImmigrant := by
    intro e _ hne
    rw [replica?_moved_of_ne hne]
  by_cases hs : b.id = r.broker
  · rw [hosted_source hs, Broker.onMove_source hs, Broker.immigrants_release,
      Roster.without_eq_filter, h.immigrants b hb, List.filter_filter, List.filter_filter]
    refine List.filter_congr fun e he ↦ ?_
    by_cases hp : e.1 = r.partition
    · simp [hp]
    · rw [hsame e he ((hm.ne_iff_of_mem_hosted h hb hs he).1 hp), Bool.and_comm]
  · have hold : b.hosted.filter
        (fun e ↦ ((c.moved i r d).replica? e.2).any Replica.isImmigrant) = b.immigrants := by
      rw [h.immigrants b hb]
      exact List.filter_congr fun e he ↦ hsame e he (hm.ne_of_mem_hosted h hb hs he)
    by_cases hd : b.id = d
    · rw [hm.hosted_destination h hb hd, List.filter_append, hold, List.filter_singleton,
        replica?_moved_self hm.on.replica?_eq, Option.any_some, hm.immigrants_destination h hb hd,
        Replica.isImmigrant]
      by_cases hhome : d = r.home <;> simp [hhome]
    · rw [Broker.onMove_other hs hd, hold]

end Movable

protected theorem Sound.moved (h : c.Sound) (hm : c.Movable i r d) : (c.moved i r d).Sound := by
  constructor
  · rw [map_brokers_congr rfl Broker.id (Broker.id_onMove i r d)]
    exact h.ascending
  · rw [brokers_moved, List.forall_mem_map]
    exact fun b hb ↦ Movable.distinct_onMove h hb
  · rw [brokers_moved, List.forall_mem_map]
    intro b hb tp j hj
    rw [Broker.id_onMove]
    rcases (hm.mem_hosted_iff h hb).1 hj with ⟨hd, htp, rfl⟩ | ⟨hj, hne⟩
    · have hr := hm.on.replica?_eq
      exact ⟨_, replica?_moved_self hr d, htp.symm, hd.symm⟩
    · rw [replica?_moved_of_ne hne]
      exact h.hosted b hb tp j hj
  · rw [brokers_moved, List.forall_mem_map]
    exact fun b hb ↦ hm.immigrants h hb

/-! ## Counts after a move -/

theorem count_moved (h : c.Sound) (hm : c.Movable i r d) (id : BrokerId) :
    ((c.moved i r d).count id : Int) =
      c.count id + (if id = d then 1 else 0) - (if id = r.broker then 1 else 0) := by
  have hne := hm.source_ne h
  cases hb : c.broker? id with
  | none =>
    have hid : ∀ {id'} {b' : Broker}, c.broker? id' = some b' → id ≠ id' := by
      rintro _ _ hb' rfl
      rw [hb] at hb'
      cases hb'
    obtain ⟨bs, hbs, hids, -⟩ := hm.on
    obtain ⟨bd, hbd, -⟩ := hm.vacant
    rw [if_neg (hid hbd), if_neg (hid (hids ▸ h.broker?_of_mem hbs)), count, count, broker?_moved,
      hb]
    rfl
  | some b =>
    have hmem := mem_of_broker? hb
    obtain rfl := id_of_broker? hb
    have hcount : (c.moved i r d).count b.id = (b.onMove i r d).hosted.length := by
      rw [count, broker?_moved, hb]
      rfl
    have hcount' : c.count b.id = b.hosted.length := h.count_of_mem hmem
    rw [hcount, hcount']
    by_cases hs : b.id = r.broker
    · obtain ⟨bs, hbs, hids, hin, -⟩ := hm.on
      obtain rfl := h.broker_unique hmem hbs (hs.trans hids.symm)
      have hlen := Roster.length_without (h.distinct b hmem)
        (Roster.entry?_of_mem (h.distinct b hmem) hin)
      rw [Broker.onMove_source hs, Broker.hosted_release, if_pos hs,
        if_neg (fun hd ↦ hne (hs.symm.trans hd))]
      omega
    · rw [if_neg hs]
      by_cases hd : b.id = d
      · rw [hm.hosted_destination h hmem hd, List.length_append, if_pos hd]
        simp
      · rw [Broker.onMove_other hs hd, if_neg hd]
        omega

end Cluster

end Rebalance
