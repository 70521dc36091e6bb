import Rebalance.Proofs.Cluster.Sound

/-!
# States of brokers

Which brokers there are, and which of them are alive, new or dead, is all in the list of their
states. Nothing that happens to replicas changes it.
-/

namespace Rebalance.Cluster

variable {c c' : Cluster} {id : BrokerId} {b : Broker}

/-- The brokers with their states. -/
def states (c : Cluster) : List (BrokerId × BrokerState) := c.brokers.map fun b ↦ (b.id, b.state)

/-- The state of a broker. -/
def state? (c : Cluster) (id : BrokerId) : Option BrokerState := (c.broker? id).map Broker.state

/-- A broker is there and alive. -/
def Alive (c : Cluster) (id : BrokerId) : Prop := ∃ b, c.broker? id = some b ∧ b.isAlive = true

/-- A broker is there and dead. -/
def Dead (c : Cluster) (id : BrokerId) : Prop := ∃ b, c.broker? id = some b ∧ b.isAlive = false

theorem states_of_map {f : Broker → Broker} (hc : c'.brokers = c.brokers.map f)
    (hid : ∀ b, (f b).id = b.id) (hstate : ∀ b, (f b).state = b.state) : c'.states = c.states :=
  map_brokers_congr hc _ fun b ↦ by rw [hid, hstate]

@[simp] theorem states_track (name : String) (criteria : Criteria) (c : Cluster) :
    (track name criteria c).states = c.states :=
  states_of_map (brokers_track name criteria c) (fun _ ↦ rfl) fun _ ↦ rfl

@[simp] theorem states_untrack (name : String) (c : Cluster) :
    (untrack name c).states = c.states :=
  states_of_map (brokers_untrack name c) (fun _ ↦ rfl) fun _ ↦ rfl

/-! ## What the states tell -/

theorem state?_eq (c : Cluster) (id : BrokerId) :
    c.state? id = (c.states.find? (·.1 = id)).map Prod.snd := by
  unfold state? broker? states
  rw [List.find?_map, Option.map_map]
  rfl

theorem alive_iff : c.Alive id ↔ ∃ s, c.state? id = some s ∧ s ≠ .dead := by
  unfold Alive state? Broker.isAlive
  constructor
  · rintro ⟨b, hb, hs⟩
    exact ⟨b.state, congrArg (Option.map _) hb, of_decide_eq_true hs⟩
  · rintro ⟨s, hs, hne⟩
    obtain ⟨b, hb, rfl⟩ := Option.map_eq_some_iff.1 hs
    exact ⟨b, hb, decide_eq_true hne⟩

theorem dead_iff : c.Dead id ↔ c.state? id = some .dead := by
  unfold Dead state? Broker.isAlive
  constructor
  · rintro ⟨b, hb, hs⟩
    rw [hb, Option.map_some, not_not.1 (of_decide_eq_false hs)]
  · intro hs
    obtain ⟨b, hb, hdead⟩ := Option.map_eq_some_iff.1 hs
    exact ⟨b, hb, decide_eq_false (not_not_intro hdead)⟩

theorem not_dead_of_alive (h : c.Alive id) : ¬ c.Dead id := by
  rintro ⟨b, hb, hdead⟩
  obtain ⟨b', hb', halive⟩ := h
  rw [hb] at hb'
  obtain rfl := Option.some.inj hb'
  rw [hdead] at halive
  cases halive

theorem alive_or_dead (h : c.broker? id = some b) : c.Alive id ∨ c.Dead id := by
  cases hs : b.isAlive with
  | true => exact .inl ⟨b, h, hs⟩
  | false => exact .inr ⟨b, h, hs⟩

theorem hasDead_iff : c.hasDead = true ↔ ∃ e ∈ c.states, e.2 = .dead := by
  simp [hasDead, states, Broker.isAlive]

theorem hasNew_iff : c.hasNew = true ↔ ∃ e ∈ c.states, e.2 = .new := by
  simp [hasNew, states, Broker.isNew]

/-- Where no broker is dead, each is alive. -/
theorem alive_of_hasDead_eq_false (hdead : c.hasDead = false) (hb : c.broker? id = some b) :
    c.Alive id := by
  refine (alive_or_dead hb).resolve_right ?_
  rintro ⟨b', hb', hd⟩
  have hmem : c.hasDead = true := List.any_eq_true.2 ⟨b', mem_of_broker? hb', by simp [hd]⟩
  rw [hdead] at hmem
  cases hmem

theorem ids_eq (c : Cluster) : c.brokers.map Broker.id = c.states.map Prod.fst := by
  unfold states
  rw [List.map_map]
  rfl

theorem exists_broker?_iff : (∃ b, c.broker? id = some b) ↔ id ∈ c.states.map Prod.fst := by
  rw [← ids_eq, ← Option.isSome_iff_exists, broker?, List.find?_isSome]
  simp [eq_comm]

theorem ids_aliveBrokers (c : Cluster) :
    c.aliveBrokers.map Broker.id = (c.states.filter (·.2 ≠ .dead)).map Prod.fst := by
  unfold aliveBrokers states
  rw [List.filter_map, List.map_map]
  rfl

section

variable (h : c'.states = c.states)

include h

theorem state?_congr (id : BrokerId) : c'.state? id = c.state? id := by
  rw [state?_eq, state?_eq, h]

theorem exists_broker?_of_states (hb : c.broker? id = some b) : ∃ b', c'.broker? id = some b' := by
  have hs := state?_congr h id
  unfold state? at hs
  rw [hb, Option.map_some] at hs
  obtain ⟨b', hb', -⟩ := Option.map_eq_some_iff.1 hs
  exact ⟨b', hb'⟩

theorem alive_congr : c'.Alive id ↔ c.Alive id := by rw [alive_iff, alive_iff, state?_congr h]

theorem dead_congr : c'.Dead id ↔ c.Dead id := by rw [dead_iff, dead_iff, state?_congr h]

theorem hasDead_congr : c'.hasDead = c.hasDead := by
  rw [Bool.eq_iff_iff, hasDead_iff, hasDead_iff, h]

theorem hasNew_congr : c'.hasNew = c.hasNew := by
  rw [Bool.eq_iff_iff, hasNew_iff, hasNew_iff, h]

theorem ids_congr : c'.brokers.map Broker.id = c.brokers.map Broker.id := by
  rw [ids_eq, ids_eq, h]

theorem ids_aliveBrokers_congr :
    c'.aliveBrokers.map Broker.id = c.aliveBrokers.map Broker.id := by
  rw [ids_aliveBrokers, ids_aliveBrokers, h]

end

end Rebalance.Cluster
