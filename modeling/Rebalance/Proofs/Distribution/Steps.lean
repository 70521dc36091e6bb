import Mathlib.Logic.Relation
import Rebalance.Proofs.Distribution.Queues
import Rebalance.Proofs.Distribution.Views

/-!
# Single steps

A step of draining takes a replica that the view shows off the broker that is tended while it has
too many; a step of filling brings one that another broker offers to it while it has too few. What a
step does to the places of replicas is read off from the move. Where a replica does not suit, it
does not suit after the step either, unless the step takes something off that destination or brings
something to the broker of the replica, or a guard changes its mind.
-/

namespace Rebalance

open Relation (ReflTransGen)

namespace DistributionGoal

variable {g : DistributionGoal} {guards : List Guard} {options : Options} {t t' : Stage}
  {candidates : List BrokerId} {i j : ReplicaId} {r r' : Replica} {d e id : BrokerId} {c : Cluster}
  {s : BrokerSet}

/-! ## What is where after a move -/

section

variable (h : t.cluster.Sound) (hmoves : g.Moves guards options t candidates i r d t')
  (hon : t.cluster.On r.broker i r)

include h hmoves hon

theorem Moves.on_iff : t'.cluster.On e j r' ↔
    e = d ∧ j = i ∧ r' = { r with broker := d } ∨ t.cluster.On e j r' ∧ j ≠ i := by
  obtain ⟨hm, hcluster⟩ := hmoves.relocated.eq_moved h hon
  rw [hcluster, Cluster.on_moved_iff h hm]

theorem Moves.hosts_iff {tp : TopicPartition} : t'.cluster.Hosts e tp ↔
    e = d ∧ tp = r.partition ∨ t.cluster.Hosts e tp ∧ ¬ (e = r.broker ∧ tp = r.partition) := by
  obtain ⟨hm, hcluster⟩ := hmoves.relocated.eq_moved h hon
  rw [hcluster, Cluster.hosts_moved_iff h hm]

/-- Nothing comes to another broker than the destination. -/
theorem Moves.on_of_on (he : e ≠ d) (hon' : t'.cluster.On e j r') :
    t.cluster.On e j r' ∧ j ≠ i := by
  rcases (hmoves.on_iff h hon).1 hon' with ⟨hd, -⟩ | hon'
  · exact absurd hd he
  · exact hon'

/-- Where a replica fits, it fitted before, unless something was taken off there or brought to its
broker. -/
theorem Moves.fits_of_fits (hfits : g.Fits options t'.cluster r' e) (he : e ≠ r.broker)
    (hs : r'.broker ≠ d) : g.Fits options t.cluster r' e := by
  have hstates := hmoves.relocated.states_eq
  refine ⟨hfits.ne, hfits.allowed, (Cluster.alive_congr hstates).1 hfits.alive, ?_, ?_⟩
  · intro hhosts
    exact hfits.vacant ((hmoves.hosts_iff h hon).2 (.inr ⟨hhosts, fun heq ↦ he heq.1⟩))
  · rcases hfits.within with ⟨hev, hdead⟩ | hwithin
    · exact .inl ⟨hev, (Cluster.dead_congr hstates).1 hdead⟩
    · have hcount := hmoves.relocated.count_eq h e
      have hcount' := hmoves.relocated.count_eq h r'.broker
      rw [if_neg he] at hcount
      rw [if_neg hs] at hcount'
      refine .inr ⟨?_, ?_, ?_⟩
      · have hup := hwithin.upper
        split at hcount <;> omega
      · intro halive
        have hlow := hwithin.lower ((Cluster.alive_congr hstates).2 halive)
        split at hcount' <;> omega
      · intro hdead
        have hne := hwithin.nonempty ((Cluster.dead_congr hstates).2 hdead)
        split at hcount' <;> omega

/-- And where it suits, it suited before, under guards that last. -/
theorem Moves.suits_of_suits (hlasting : ∀ γ ∈ guards, γ.IsLasting)
    (hsuits : g.Suits guards options t'.cluster r' e) (he : e ≠ r.broker) (hs : r'.broker ≠ d) :
    g.Suits guards options t.cluster r' e where
  toFits := hmoves.fits_of_fits h hon hsuits.toFits he hs
  accepted γ hγ := by
    have hcount := hmoves.relocated.count_eq h e
    have hcount' := hmoves.relocated.count_eq h r'.broker
    rw [if_neg he] at hcount
    rw [if_neg hs] at hcount'
    refine hlasting γ hγ _ _ r' e hmoves.relocated.states_eq ?_ ?_ (hsuits.accepted γ hγ)
    · split at hcount <;> omega
    · split at hcount' <;> omega

end

/-- A replica that moves is where it is known to be. -/
theorem Moves.on_source (h : t.cluster.Sound)
    (hmoves : g.Moves guards options t candidates i r d t') (hi : ∃ r', t.cluster.On id i r') :
    r.broker = id ∧ t.cluster.On r.broker i r := by
  obtain ⟨r', hon⟩ := hi
  have hr := hon.replica?_eq
  rw [hmoves.replica] at hr
  obtain rfl := Option.some.inj hr
  obtain rfl := h.broker_of_on hon
  exact ⟨rfl, hon⟩

theorem mustStay_iff {topics : List String} : c.mustStay topics r = true ↔
    topics.contains r.partition.topic = true ∧ c.Alive r.broker := by
  rw [Cluster.mustStay, Bool.and_eq_true, Option.any_eq_true]
  rfl

theorem mustStay_congr (hstates : t'.cluster.states = t.cluster.states) {topics : List String} :
    t'.cluster.mustStay topics r = t.cluster.mustStay topics r := by
  rw [Bool.eq_iff_iff, mustStay_iff, mustStay_iff, Cluster.alive_congr hstates]

/-! ## Steps -/

/-- A replica is offered: the views show it, and it is an immigrant if it is on an alive broker
while some broker is dead. -/
def Offered (options : Options) (c : Cluster) (r : Replica) : Prop :=
  (criteria options).admits r = true ∧ (c.hasDead = true → c.Alive r.broker → r.isImmigrant = true)

theorem Offered.congr (hstates : t'.cluster.states = t.cluster.states)
    (h : Offered options t'.cluster r) : Offered options t.cluster r := by
  rwa [Offered, Cluster.hasDead_congr hstates, Cluster.alive_congr hstates] at h

/-- A replica that the view shows leaves the tended broker, which is dead or above the upper limit.
-/
structure Drains (g : DistributionGoal) (guards : List Guard) (options : Options) (id : BrokerId)
    (t t' : Stage) : Prop where
  many : t.cluster.Alive id → g.limits.upper < t.cluster.count id
  moves : ∃ s i r d, g.Ready t.cluster s ∧ r.broker = id ∧ (criteria options).admits r = true ∧
    t.cluster.On r.broker i r ∧ g.Moves guards options t s.brokers i r d t'

/-- A replica that an alive broker offers comes to the tended broker, which is below the lower
limit. -/
structure Fills (g : DistributionGoal) (guards : List Guard) (options : Options) (id : BrokerId)
    (t t' : Stage) : Prop where
  few : (t.cluster.count id : Int) < g.limits.lower
  moves : ∃ i r, t.cluster.Alive r.broker ∧ Offered options t.cluster r ∧
    t.cluster.On r.broker i r ∧ g.Moves guards options t [id] i r id t'

/-- What tending a broker does in one go. -/
inductive Step (g : DistributionGoal) (guards : List Guard) (options : Options) (id : BrokerId)
    (t t' : Stage) : Prop where
  | drains : g.Drains guards options id t t' → Step g guards options id t t'
  | fills : g.Fills guards options id t t' → Step g guards options id t t'

namespace Step

theorem exists_moves (h : g.Step guards options id t t') :
    ∃ candidates i r d, (criteria options).admits r = true ∧ t.cluster.On r.broker i r ∧
      g.Moves guards options t candidates i r d t' := by
  cases h with
  | drains h =>
    obtain ⟨s, i, r, d, -, -, hadmits, hon, hmoves⟩ := h.moves
    exact ⟨_, i, r, d, hadmits, hon, hmoves⟩
  | fills h =>
    obtain ⟨i, r, -, hoffered, hon, hmoves⟩ := h.moves
    exact ⟨_, i, r, id, hoffered.1, hon, hmoves⟩

theorem states_eq (h : g.Step guards options id t t') : t'.cluster.states = t.cluster.states := by
  obtain ⟨_, i, r, d, -, -, hmoves⟩ := h.exists_moves
  exact hmoves.relocated.states_eq

theorem sound (h : g.Step guards options id t t') (ht : t.cluster.Sound) : t'.cluster.Sound := by
  obtain ⟨_, i, r, d, -, -, hmoves⟩ := h.exists_moves
  exact hmoves.relocated.sound ht

theorem faithful {name : String} {criteria : Criteria} (h : g.Step guards options id t t')
    (ht : t.cluster.Sound) (hf : t.cluster.Faithful name criteria) :
    t'.cluster.Faithful name criteria := by
  obtain ⟨_, i, r, d, -, hon, hmoves⟩ := h.exists_moves
  obtain ⟨hm, hcluster⟩ := hmoves.relocated.eq_moved ht hon
  rw [hcluster]
  exact hf.moved ht hm

end Step

/-- What every step keeps of a sound cluster is kept by any number of steps. -/
theorem keeps_of_steps (keep : Cluster → Prop) {step : Stage → Stage → Prop}
    (hstep : ∀ {t t'}, step t t' → ∃ g id, Step g guards options id t t')
    (hkeep : ∀ {t t'}, t.cluster.Sound → keep t.cluster → step t t' → keep t'.cluster)
    (h : ReflTransGen step t t') (ht : t.cluster.Sound) (hk : keep t.cluster) :
    t'.cluster.Sound ∧ t'.cluster.states = t.cluster.states ∧ keep t'.cluster := by
  induction h with
  | refl => exact ⟨ht, rfl, hk⟩
  | tail _ hlast ih =>
    obtain ⟨hsound, hstates, hk⟩ := ih
    obtain ⟨g, id, hs⟩ := hstep hlast
    exact ⟨hs.sound hsound, hs.states_eq.trans hstates, hkeep hsound hk hlast⟩

/-! ## Steps until something fails -/

/-- Steps were taken until something failed. Then nothing more had happened, or a relocation had
been refused. -/
def Halts (step : Stage → Stage → Prop) (t : Stage) (f : Fault) (t' : Stage) : Prop :=
  ∃ t₁, ReflTransGen step t t₁ ∧ (t' = t₁ ∨
    t'.moves = t₁.moves ∧ ∃ tp s d, t₁.cluster.Refused tp s d f t'.cluster)

/-- Steps lead to a result, or to where something fails. -/
def Arrives {α : Type} (step : Stage → Stage → Prop) (t : Stage) : Except Fault α → Stage → Prop :=
  Leaves (ReflTransGen step t) (Halts step t)

namespace Arrives

variable {α : Type} {step step' : Stage → Stage → Prop} {t₁ : Stage} {x : Except Fault α}
  {f : Fault}

theorem trans (h : ReflTransGen step t t₁) (h' : Arrives step t₁ x t') : Arrives step t x t' := by
  cases x with
  | ok a => exact ReflTransGen.trans h h'
  | error f =>
    obtain ⟨t₂, hsteps, hend⟩ := h'
    exact ⟨t₂, h.trans hsteps, hend⟩

theorem head (h : step t t₁) (h' : Arrives step t₁ x t') : Arrives step t x t' :=
  h'.trans (.single h)

theorem mono (h : Arrives step t x t') (hstep : ∀ t t', step t t' → step' t t') :
    Arrives step' t x t' := by
  cases x with
  | ok a => exact ReflTransGen.mono hstep _ _ h
  | error f =>
    obtain ⟨t₁, hsteps, hend⟩ := h
    exact ⟨t₁, ReflTransGen.mono hstep _ _ hsteps, hend⟩

/-- What fails at once was reached without a step. -/
theorem here : Arrives step t (.error f : Except Fault α) t := ⟨t, .refl, .inl rfl⟩

theorem of_fails (h : g.Fails guards options t candidates i f t') :
    Arrives step t (.error f : Except Fault α) t' := by
  obtain ⟨r, -, -, hbreaks⟩ := h.breaks
  cases hbreaks with
  | judging => exact .here
  | moving _ _ hmoves hrefused => exact ⟨t, .refl, .inr ⟨hmoves, _, _, _, hrefused⟩⟩

end Arrives

/-! ## Replicas that are stuck -/

/-- A replica has to stay or suits no destination. -/
def Stuck (g : DistributionGoal) (guards : List Guard) (options : Options) (c : Cluster)
    (r : Replica) : Prop :=
  c.mustStay options.excludedTopics r = true ∨ ∀ d, ¬ g.Suits guards options c r d

section

variable (hlasting : ∀ γ ∈ guards, γ.IsLasting) (ht : t.cluster.Sound)

include hlasting ht

/-- What is left on the source of a move was there before, and stays stuck if it was. -/
theorem Moves.stuck_of_stuck (hmoves : g.Moves guards options t candidates i r d t')
    (hr : t.cluster.On r.broker i r) (hon : t'.cluster.On r.broker j r') :
    t.cluster.On r.broker j r' ∧
      (g.Stuck guards options t.cluster r' → g.Stuck guards options t'.cluster r') := by
  have hne := hmoves.relocated.source_ne ht
  have hon' := (hmoves.on_of_on ht hr hne hon).1
  have hbroker := ht.broker_of_on hon'
  refine ⟨hon', fun hstuck ↦ ?_⟩
  rw [Stuck, mustStay_congr hmoves.relocated.states_eq]
  refine hstuck.imp_right fun hnone e hsuits ↦ hnone e ?_
  exact hmoves.suits_of_suits ht hr hlasting hsuits (hbroker ▸ hsuits.ne) (hbroker ▸ hne)

/-- What is on another broker while one is filled was there before, and does not suit where it did
not before. -/
theorem Fills.on_of_on (h : g.Fills guards options id t t') (he : e ≠ id)
    (hon : t'.cluster.On e j r') :
    t.cluster.On e j r' ∧ (g.Suits guards options t'.cluster r' id →
      g.Suits guards options t.cluster r' id) := by
  obtain ⟨i, r, -, -, hr, hmoves⟩ := h.moves
  have hon' := (hmoves.on_of_on ht hr he hon).1
  have hbroker := ht.broker_of_on hon'
  refine ⟨hon', fun hsuits ↦ ?_⟩
  exact hmoves.suits_of_suits ht hr hlasting hsuits (hmoves.fits ht).ne (hbroker ▸ he)

end

end DistributionGoal

end Rebalance
