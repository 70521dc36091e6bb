import Mathlib.Algebra.BigOperators.Group.Finset.Basic
import Mathlib.Algebra.GroupWithZero.Nat
import Mathlib.Algebra.Order.BigOperators.Group.List
import Mathlib.Algebra.Order.Group.Nat
import Rebalance.Journal
import Rebalance.Proofs.Cluster.Relocation
import Rebalance.Proofs.Cluster.States

/-!
# Trails of relocations

A trail leads from a cluster to another by relocations that succeed, one after another. Each of them
changes the counts of just two brokers. So what a sum over all brokers gains or loses by it can be
read off from these two, and a sum that falls with every relocation bounds their number.
-/

namespace Rebalance.Cluster

variable {c c' c'' : Cluster} {i : ReplicaId} {r : Replica} {tp : TopicPartition}
  {s d id : BrokerId} {b b' : Broker}

/-! ## Sums over the brokers -/

/-- What all brokers weigh together, each by its state and count. -/
def weight (w : BrokerState → Nat → Nat) (c : Cluster) : Nat :=
  (c.brokers.map fun b ↦ w b.state b.count).sum

/-- A weight that counts each broker for less is less. -/
theorem weight_mono {w w' : BrokerState → Nat → Nat} (h : ∀ s n, w s n ≤ w' s n) (c : Cluster) :
    c.weight w ≤ c.weight w' :=
  List.sum_le_sum fun b _ ↦ h b.state b.count

/-- Where views do not matter, neither do they for weights. -/
theorem weight_congr {w : BrokerState → Nat → Nat} {f : Broker → Broker}
    (hc : c'.brokers = c.brokers.map f) (hstate : ∀ b, (f b).state = b.state)
    (hhosted : ∀ b, (f b).hosted = b.hosted) : c'.weight w = c.weight w :=
  congrArg List.sum (map_brokers_congr hc _ fun b ↦ by
    rw [hstate, Broker.count, hhosted, Broker.count])

/-- If the terms of a sum change in two places, the sum changes by what they do. -/
theorem sum_map_of_two {α : Type} {l : List α} (hl : l.Nodup) (f f' : α → Nat) {x y : α}
    (hx : x ∈ l) (hy : y ∈ l) (hne : x ≠ y) (hsame : ∀ z ∈ l, z ≠ x → z ≠ y → f' z = f z) :
    (l.map f').sum + (f x + f y) = (l.map f).sum + (f' x + f' y) := by
  classical
  have hx' := List.mem_toFinset.2 hx
  have hy' := Finset.mem_erase.2 ⟨hne.symm, List.mem_toFinset.2 hy⟩
  have hrest : ∑ z ∈ (l.toFinset.erase x).erase y, f' z =
      ∑ z ∈ (l.toFinset.erase x).erase y, f z := by
    refine Finset.sum_congr rfl fun z hz ↦ ?_
    obtain ⟨hzy, hz⟩ := Finset.mem_erase.1 hz
    obtain ⟨hzx, hz⟩ := Finset.mem_erase.1 hz
    exact hsame z (List.mem_toFinset.1 hz) hzx hzy
  rw [← List.sum_toFinset f' hl, ← List.sum_toFinset f hl, ← Finset.add_sum_erase _ f' hx',
    ← Finset.add_sum_erase _ f' hy', ← Finset.add_sum_erase _ f hx', ← Finset.add_sum_erase _ f hy',
    hrest]
  omega

/-- When a replica moves, the source weighs what it does with one replica less, and the destination
what it does with one more. -/
theorem Sound.weight_moved (h : c.Sound) (hm : c.Movable i r d) (w : BrokerState → Nat → Nat)
    (hs : c.broker? r.broker = some b) (hd : c.broker? d = some b') :
    (c.moved i r d).weight w + (w b.state b.count + w b'.state b'.count) =
      c.weight w + (w b.state (b.count - 1) + w b'.state (b'.count + 1)) := by
  have hmoved : (c.moved i r d).weight w =
      (c.brokers.map fun b ↦ w b.state (b.onMove i r d).count).sum := by
    rw [weight, moved, List.map_map]
    refine congrArg List.sum (List.map_congr_left fun b _ ↦ ?_)
    rw [Function.comp_apply, Broker.state_onMove]
  have hcount : ∀ b ∈ c.brokers, ((b.onMove i r d).count : Int) =
      b.count + (if b.id = d then 1 else 0) - (if b.id = r.broker then 1 else 0) := by
    intro b hb
    have hcount := count_moved h hm b.id
    have hb' : b.onMove i r d ∈ (c.moved i r d).brokers := List.mem_map_of_mem hb
    have hcount' := (h.moved hm).count_of_mem hb'
    rw [Broker.id_onMove] at hcount'
    rwa [h.count_of_mem hb, hcount'] at hcount
  have hne := hm.source_ne h
  have hb := mem_of_broker? hs
  have hb' := mem_of_broker? hd
  have hid := id_of_broker? hs
  have hid' := id_of_broker? hd
  have hsource := hcount b hb
  have hdestination := hcount b' hb'
  rw [hid, if_neg hne, if_pos rfl] at hsource
  rw [hid', if_pos rfl, if_neg hne.symm] at hdestination
  rw [hmoved, weight, ← show (b.onMove i r d).count = b.count - 1 by omega,
    ← show (b'.onMove i r d).count = b'.count + 1 by omega]
  refine sum_map_of_two (h.ids_nodup.of_map _) (fun b ↦ w b.state b.count)
    (fun b ↦ w b.state (b.onMove i r d).count) hb hb' ?_ ?_
  · rintro rfl
    exact hne (hid.symm.trans hid')
  · intro b'' hb'' hns hnd
    have hother := hcount b'' hb''
    rw [if_neg fun heq ↦ hnd (h.broker_unique hb'' hb' (heq.trans hid'.symm)),
      if_neg fun heq ↦ hns (h.broker_unique hb'' hb (heq.trans hid.symm))] at hother
    rw [show (b''.onMove i r d).count = b''.count by omega]

/-! ## Apart from views -/

/-- A cluster without its views. -/
def bare (c : Cluster) : Cluster :=
  { c with brokers := c.brokers.map fun b ↦ { b with views := [] } }

theorem bare_of_map {f : Broker → Broker} (hc : c'.brokers = c.brokers.map f)
    (hr : c'.replicas = c.replicas) (hf : ∀ b, { f b with views := [] } = { b with views := [] }) :
    c'.bare = c.bare := by
  unfold bare
  rw [map_brokers_congr hc _ hf, hr]

@[simp] theorem bare_track (name : String) (criteria : Criteria) (c : Cluster) :
    (track name criteria c).bare = c.bare :=
  bare_of_map (brokers_track name criteria c) rfl fun _ ↦ rfl

@[simp] theorem bare_untrack (name : String) (c : Cluster) : (untrack name c).bare = c.bare :=
  bare_of_map (brokers_untrack name c) rfl fun _ ↦ rfl

/-- What does not regard views is the same for clusters that differ only in them. -/
theorem map_brokers_of_bare {α : Type} {f : Broker → α} (h : c'.bare = c.bare)
    (hf : ∀ b, f { b with views := [] } = f b) : c'.brokers.map f = c.brokers.map f := by
  have hbare : ∀ c : Cluster, c.bare.brokers.map f = c.brokers.map f := fun c ↦
    map_brokers_congr rfl f hf
  rw [← hbare, h, hbare]

/-! ## Trails -/

/-- What may move does move when it is relocated. -/
theorem relocate_of_movable (h : c.Sound) (hm : c.Movable i r d) :
    relocate r.partition r.broker d c = .ok () (c.moved i r d) := by
  obtain ⟨b, hd, hvacant⟩ := hm.vacant
  have hends := ends_relocate h r.partition r.broker d
  cases hrelocate : relocate r.partition r.broker d c with
  | ok u c' =>
    obtain ⟨j, r', hpart, hbroker, hm', rfl⟩ := hends.of_ok hrelocate
    have hon' := hm'.on
    rw [hbroker] at hon'
    obtain rfl := h.on_unique hm.on hon' hpart.symm
    obtain rfl := hm.on.eq_of_replica? hon'.replica?_eq
    rfl
  | error f c' =>
    obtain ⟨-, b', hs, hlost⟩ := h.lost_of_refused ⟨i, r, hm.on, rfl⟩ hd hvacant
      (hends.of_error hrelocate)
    rw [hm.found b' hs] at hlost
    cases hlost

/-- A relocation that succeeds moves a replica. -/
theorem Sound.exists_movable (h : c.Sound) (hrelocate : relocate tp s d c = .ok () c') :
    ∃ i r, r.partition = tp ∧ r.broker = s ∧ c.Movable i r d ∧ c' = c.moved i r d :=
  (ends_relocate h tp s d).of_ok hrelocate

end Cluster

namespace Move

/-- What moves, or what it is that is led. -/
def partition : Move → TopicPartition
  | .replica tp _ _ => tp
  | .leadership tp _ _ => tp

/-- Where a move begins. -/
def source : Move → BrokerId
  | .replica _ s _ => s
  | .leadership _ s _ => s

/-- Where it ends. -/
def destination : Move → BrokerId
  | .replica _ _ d => d
  | .leadership _ _ d => d

/-- The action that a move carries out. -/
def action : Move → Action
  | .replica tp s d => { partition := tp, source := s, destination := d, kind := .replicaMovement }
  | .leadership tp s d =>
    { partition := tp, source := s, destination := d, kind := .leadershipMovement }

end Move

/-- Relocations that succeed one after another lead from a cluster to another, and each is a step of
a kind. -/
inductive Trail (step : Cluster → Move → Cluster → Prop) : Cluster → List Move → Cluster → Prop
  where
  | nil {c : Cluster} : Trail step c [] c
  | cons {c c' c'' : Cluster} {tp : TopicPartition} {s d : BrokerId} {moves : List Move} :
    Cluster.relocate tp s d c = .ok () c' → step c (.replica tp s d) c' → Trail step c' moves c'' →
    Trail step c (.replica tp s d :: moves) c''

namespace Trail

variable {step step' : Cluster → Move → Cluster → Prop} {c c' c'' : Cluster}
  {moves moves' : List Move}

theorem append (h : Trail step c moves c') (h' : Trail step c' moves' c'') :
    Trail step c (moves ++ moves') c'' := by
  induction h with
  | nil => exact h'
  | cons hrelocate hstep _ ih => exact .cons hrelocate hstep (ih h')

theorem mono (h : Trail step c moves c') (hstep : ∀ c m c', step c m c' → step' c m c') :
    Trail step' c moves c' := by
  induction h with
  | nil => exact .nil
  | cons hrelocate h _ ih => exact .cons hrelocate (hstep _ _ _ h) ih

/-- What every step keeps holds before each. -/
theorem along {P : Cluster → Prop} (hP : ∀ c m c', P c → step c m c' → P c')
    (h : Trail step c moves c') (hc : P c) : Trail (fun c m c' ↦ P c ∧ step c m c') c moves c' := by
  induction h with
  | nil => exact .nil
  | cons hrelocate hstep _ ih => exact .cons hrelocate ⟨hc, hstep⟩ (ih (hP _ _ _ hc hstep))

/-- What falls with every step bounds the number of steps. -/
theorem length_add_le {μ : Cluster → Nat} (h : Trail step c moves c')
    (hstep : ∀ c m c', step c m c' → μ c' < μ c) : moves.length + μ c' ≤ μ c := by
  induction h with
  | nil => rw [List.length_nil, Nat.zero_add]
  | cons _ h _ ih =>
    have hlt := hstep _ _ _ h
    rw [List.length_cons]
    omega

end Trail

end Rebalance
