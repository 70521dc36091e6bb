import Rebalance.Optimizer
import Rebalance.Proofs.Distribution.Progress
import Rebalance.Proofs.Statistics

/-!
# The variance of counts

Where no broker is dead, a replica only moves to a broker that has at least two fewer than the one
it leaves. So each move lowers the sum of the squares of the counts and keeps their sum, and a
pursuit does not end with a greater variance than it began with. That is what an optimization checks
afterwards, in its own way, and so it never finds that a pursuit has made things worse.
-/

namespace Rebalance

namespace Cluster

variable {c c' : Cluster}

/-- The number of replicas on each broker. -/
def shares (c : Cluster) : List Nat := c.brokers.map Broker.count

theorem shares_track (name : String) (criteria : Criteria) (c : Cluster) :
    (c.track name criteria).shares = c.shares :=
  map_brokers_congr (brokers_track name criteria c) _ fun _ ↦ rfl

theorem length_shares (c : Cluster) : c.shares.length = c.states.length := by
  rw [shares, states, List.length_map, List.length_map]

theorem sum_shares (c : Cluster) : c.shares.sum = c.weight fun _ n ↦ n := rfl

theorem sumOfSquares_shares (c : Cluster) : sumOfSquares c.shares = c.weight fun _ n ↦ n * n := by
  rw [sumOfSquares, shares, List.map_map]
  rfl

theorem aliveBrokers_of_hasDead_eq_false (h : c.hasDead = false) : c.aliveBrokers = c.brokers := by
  rw [aliveBrokers, List.filter_eq_self]
  intro b hb
  have hall := List.any_eq_false.1 h b hb
  simpa using hall

/-- A move makes the counts of the same brokers more even. -/
structure Levels (c : Cluster) (_ : Move) (c' : Cluster) : Prop where
  squares_le : sumOfSquares c'.shares + 2 ≤ sumOfSquares c.shares
  sum_eq : c'.shares.sum = c.shares.sum
  states_eq : c'.states = c.states

end Cluster

open Cluster (Levels)

/-- Moves that make the counts more even do so together, by as much as there are moves. -/
theorem Trail.levels {c c' : Cluster} {moves : List Move} (h : Trail Levels c moves c') :
    sumOfSquares c'.shares + 2 * moves.length ≤ sumOfSquares c.shares ∧
      c'.shares.sum = c.shares.sum ∧ c'.states = c.states := by
  induction h with
  | nil => exact ⟨le_rfl, rfl, rfl⟩
  | cons _ hstep _ ih =>
    obtain ⟨hsquares, hsum, hstates⟩ := ih
    have hle := hstep.squares_le
    refine ⟨?_, hsum.trans hstep.sum_eq, hstates.trans hstep.states_eq⟩
    rw [List.length_cons]
    omega

/-- So they do not make the variance greater. -/
theorem Trail.populationVariance_le {c c' : Cluster} {moves : List Move}
    (h : Trail Levels c moves c') :
    populationVariance c'.shares ≤ populationVariance c.shares := by
  obtain ⟨hsquares, hsum, hstates⟩ := h.levels
  refine Rebalance.populationVariance_le ?_ hsum (Nat.le_of_add_right_le hsquares)
  rw [Cluster.length_shares, Cluster.length_shares, hstates]

/-! ## Moves -/

namespace DistributionGoal

variable {g g' : DistributionGoal} {guards : List Guard} {options : Options} {t t' : Stage}
  {candidates : List BrokerId} {i : ReplicaId} {r : Replica} {d : BrokerId} {m : Move} {p p' : Plan}

/-- A replica that moves to a broker with at least two fewer makes the counts more even. -/
theorem Moves.levels (h : t.cluster.Sound)
    (hmoves : g.Moves guards options t candidates i r d t') (hon : t.cluster.On r.broker i r)
    (hgap : t.cluster.count d + 2 ≤ t.cluster.count r.broker) :
    Levels t.cluster m t'.cluster := by
  obtain ⟨k, hk⟩ := Nat.exists_eq_add_of_le hgap
  obtain ⟨-, -, -, -, hsum⟩ := hmoves.weight_eq h hon fun _ n ↦ n
  obtain ⟨-, -, -, -, hsquares⟩ := hmoves.weight_eq h hon fun _ n ↦ n * n
  have hpred : t.cluster.count r.broker - 1 = t.cluster.count d + 1 + k := by omega
  rw [← Cluster.sum_shares, ← Cluster.sum_shares] at hsum
  rw [← Cluster.sumOfSquares_shares, ← Cluster.sumOfSquares_shares, hpred, hk] at hsquares
  refine ⟨?_, by omega, hmoves.relocated.states_eq⟩
  have hexpand : ∀ n : Nat, (n + 2 + k) * (n + 2 + k) + n * n =
      (n + 1 + k) * (n + 1 + k) + (n + 1) * (n + 1) + 2 * k + 2 := fun n ↦ by ring
  rw [hexpand] at hsquares
  omega

namespace Advances

/-- Where no broker is dead, every step makes the counts more even. Draining takes a replica from a
broker above the upper limit to one that stays within it; filling takes one from a broker that stays
within the lower limit to one below it. -/
theorem levels (h : g.Advances guards options t t') (hev : g.evacuating = false)
    (hdead : t.cluster.hasDead = false) : Levels t.cluster m t'.cluster := by
  have halive : ∀ {i r}, t.cluster.On r.broker i r → t.cluster.Alive r.broker := by
    intro i r hon
    obtain ⟨b, hb⟩ := h.sound.exists_broker?_of_on hon
    exact Cluster.alive_of_hasDead_eq_false hdead hb
  obtain ⟨g', id, halike, -, hstep⟩ := h.step
  have hev' := halike.evacuating.trans hev
  cases hstep with
  | drains hdrains =>
    obtain ⟨s, i, r, d, -, rfl, -, hon, hmoves⟩ := hdrains.moves
    have hmany := hdrains.many (halive hon)
    have hup := (hmoves.within h.sound hev').upper
    exact hmoves.levels h.sound hon (by omega)
  | fills hfills =>
    obtain ⟨i, r, -, -, hon, hmoves⟩ := hfills.moves
    have hfew := hfills.few
    have hlow := (hmoves.within h.sound hev').lower (halive hon)
    exact hmoves.levels h.sound hon (by omega)

/-- Where no broker is dead, there is nothing to evacuate. -/
theorem not_evacuating (h : g.Advances guards options t t') (hev : g.evacuating = true)
    (hdead : t.cluster.hasDead = false) : False := by
  obtain ⟨_, id, -, hid, -⟩ := h.step
  obtain ⟨b, hb, hb'⟩ := hid hev
  exact Cluster.not_dead_of_alive (Cluster.alive_of_hasDead_eq_false hdead hb) ⟨b, hb, hb'⟩

end Advances

theorem Remains.shares_eq {α : Type} {x : Except Fault α} {c c' : Cluster} (h : Remains x c c')
    (hx : x ≠ .error .viewOutOfOrder) : c'.shares = c.shares ∧ c'.states = c.states := by
  have hbare := h.resolve_left hx
  exact ⟨Cluster.map_brokers_of_bare hbare fun _ ↦ rfl,
    Cluster.map_brokers_of_bare hbare fun _ ↦ rfl⟩

/-- Where no broker is dead, all moves of a pursuit make the counts more even. -/
theorem Account.levels {x : Except Fault Bool} (h : Account guards options g p x g' p')
    (ht : p.cluster.Sound) (hdead : p.cluster.hasDead = false)
    (hdisk : ∀ r ∈ p.cluster.replicas, r.load.of .disk ≠ .nan) :
    ∃ events c, p'.journal = p.journal ++ events ∧
      Trail Levels (p.cluster.track g.name (criteria options)) events.moves c ∧
      Remains x c p'.cluster := by
  have hdead' : ∀ {t : Stage}, t.cluster.states = p.cluster.states → t.cluster.hasDead = false :=
    fun hstates ↦ (Cluster.hasDead_congr hstates).trans hdead
  refine (h.travels_of_advances Levels Levels ht hdisk (fun hev hstates h _ ↦ ?_)
    fun _ hstates h _ ↦ h.levels rfl (hdead' hstates)).exists_trail
  exact (h.not_evacuating hev (hdead' hstates)).elim

/-- Unless a replica was lost on its way, the variance at the end is no greater. -/
theorem Account.populationVariance_le {x : Except Fault Bool}
    (h : Account guards options g p x g' p') (ht : p.cluster.Sound)
    (hdead : p.cluster.hasDead = false)
    (hdisk : ∀ r ∈ p.cluster.replicas, r.load.of .disk ≠ .nan)
    (hx : x ≠ .error .viewOutOfOrder) :
    p'.cluster.states = p.cluster.states ∧
      populationVariance p'.cluster.shares ≤ populationVariance p.cluster.shares := by
  obtain ⟨events, c, -, htrail, hremains⟩ := h.levels ht hdead hdisk
  obtain ⟨-, -, hstates⟩ := htrail.levels
  obtain ⟨hshares, hstates'⟩ := hremains.shares_eq hx
  have hvariance := htrail.populationVariance_le
  rw [Cluster.shares_track] at hvariance
  rw [Cluster.states_track] at hstates
  rw [hshares]
  exact ⟨hstates'.trans hstates, hvariance⟩

end DistributionGoal

/-! ## The check of an optimization -/

namespace Optimization

variable {γ : Type} [Goal γ] {embed : DistributionGoal → γ} {guards : List Guard}
  {options : Options} {place : Nat} {g : DistributionGoal} {o : Optimization γ}

/-- Distribution goals are goals of a type, pursued and compared as what they are. -/
structure Embeds (embed : DistributionGoal → γ) : Prop where
  pursue : ∀ guards options g p,
    Ends (Goal.pursue guards options) (embed g, p)
      (fun satisfied s ↦ ∃ g', s.1 = embed g' ∧
        DistributionGoal.pursue guards options (g, p) = .ok satisfied (g', s.2))
      fun f s ↦ ∃ g', s.1 = embed g' ∧
        DistributionGoal.pursue guards options (g, p) = .error f (g', s.2)
  compare : ∀ g, Goal.compare (embed g) = Goal.compare g

/-- Among goals of their own type they are what they are. -/
theorem embeds_id : Embeds (id : DistributionGoal → DistributionGoal) where
  pursue guards options g p :=
    (Ends.self (DistributionGoal.pursue guards options) (g, p)).mono (fun _ s h ↦ ⟨s.1, rfl, h⟩)
      fun _ s h ↦ ⟨s.1, rfl, h⟩
  compare g := congrArg Goal.compare (id_eq g)

/-- At its place a goal is pursued under the guard of those before it. -/
theorem Embeds.ends_pursueAt (h : Embeds embed)
    (hguards : (o.goals.take place).map Goal.guard = guards) :
    Ends (pursueAt options place (embed g)) o
      (fun satisfied o' ↦ ∃ g', DistributionGoal.pursue guards options (g, o.plan) =
        .ok satisfied (g', o'.plan))
      fun f _ ↦ ∃ s, DistributionGoal.pursue guards options (g, o.plan) = .error f s := by
  have hpursue := h.pursue guards options g o.plan
  unfold Ends at hpursue
  unfold Ends pursueAt
  rw [hguards]
  dsimp only
  cases hx : Goal.pursue guards options (embed g, o.plan) with
  | ok satisfied s =>
    rw [hx] at hpursue
    obtain ⟨g', -, heq⟩ := hpursue
    exact ⟨g', heq⟩
  | error f s =>
    rw [hx] at hpursue
    obtain ⟨g', -, heq⟩ := hpursue
    exact ⟨_, heq⟩

/-- If a pursuit never leaves worse statistics, nothing fails but the pursuit. -/
theorem Embeds.ends_step (h : Embeds embed)
    (hguards : (o.goals.take place).map Goal.guard = guards)
    (hbetter : ∀ satisfied s, DistributionGoal.pursue guards options (g, o.plan) =
      .ok satisfied s → 0 ≤ (Goal.compare g s.2.cluster.statistics o.plan.cluster.statistics).1) :
    Ends (step options place (embed g)) o (fun _ _ ↦ True)
      fun f _ ↦ ∃ s, DistributionGoal.pursue guards options (g, o.plan) = .error f s := by
  unfold step
  refine .bind (.get (.bind ((h.ends_pursueAt hguards).mono ?_ fun _ _ hf ↦ hf)))
  rintro satisfied o' ⟨g', hpursue⟩
  refine .bind (.get ?_)
  dsimp only
  split
  · exact trivial
  · have hle := hbetter satisfied _ hpursue
    rw [← h.compare] at hle
    split
    · rename_i hlt
      exact absurd hlt (not_lt.2 hle)
    · exact trivial

end Optimization

namespace DistributionGoal

theorem compare_fst (g : DistributionGoal) (later earlier : ClusterStatistics) :
    (Goal.compare g later earlier).1 =
      (Comparator.compare { goal := g.name } later.replicaCounts earlier.replicaCounts).1 := by
  unfold Goal.compare instGoalDistributionGoal
  dsimp only

/-- The statistics of a cluster with no greater variance are not found to be worse. -/
theorem zero_le_compare {g : DistributionGoal} {c c' : Cluster} (hdead : c.hasDead = false)
    (hstates : c'.states = c.states) (hne : c.aliveBrokers ≠ [])
    (hle : populationVariance c'.shares ≤ populationVariance c.shares) :
    0 ≤ (Goal.compare g c'.statistics c.statistics).1 := by
  have hdead' := (Cluster.hasDead_congr hstates).trans hdead
  have hlen : c'.shares.length = c.shares.length := by
    rw [Cluster.length_shares, Cluster.length_shares, hstates]
  rw [compare_fst]
  unfold Cluster.statistics
  dsimp only
  rw [Cluster.aliveBrokers_of_hasDead_eq_false hdead] at hne ⊢
  rw [Cluster.aliveBrokers_of_hasDead_eq_false hdead']
  exact Comparator.zero_le_compare (mt List.map_eq_nil_iff.1 hne) hlen hle

end DistributionGoal

open DistributionGoal (pursue ends_pursue exists_account)

/-- After any history in which the use of disks is a number and no broker is dead, for any guards,
options and whatever was written before: every move that a pursuit makes lowers the sum of the
squares of the counts by two at least. Unless a view fails to find a replica on its way, the
pursuit ends, in a result or a fault, with no greater variance of the counts than it began with. And
in an optimization of goals of any type, at any place, nothing fails but the pursuit: what it
leaves is not found to be worse. -/
theorem variance_not_increased (operations : List Operation)
    (hdead : (Cluster.after operations).hasDead = false)
    (hdisk : ∀ r ∈ (Cluster.after operations).replicas, r.load.of .disk ≠ .nan)
    (guards : List Guard) (options : Options) (journal : Journal) {g : DistributionGoal}
    {limits : Limits}
    (hlimits : Limits.of (Cluster.after operations).size
      (Cluster.after operations).aliveBrokers.length g.constraint.percentage = .ok limits) :
    (∃ events c,
      (stateAfter (pursue guards options) (g, ⟨.after operations, journal⟩)).2.journal =
        journal ++ events ∧
      Trail (fun c _ c' ↦ sumOfSquares c'.shares + 2 ≤ sumOfSquares c.shares)
        ((Cluster.after operations).track g.name (DistributionGoal.criteria options))
        events.moves c) ∧
    ((∀ s, pursue guards options (g, ⟨.after operations, journal⟩) ≠ .error .viewOutOfOrder s) →
      populationVariance
          (stateAfter (pursue guards options) (g, ⟨.after operations, journal⟩)).2.cluster.shares ≤
        populationVariance (Cluster.after operations).shares) ∧
    ∀ {γ : Type} [Goal γ] {embed : DistributionGoal → γ}, Optimization.Embeds embed →
      ∀ (place : Nat) (o : Optimization γ), o.plan = ⟨.after operations, journal⟩ →
        (o.goals.take place).map Goal.guard = guards →
        ∀ f o', Optimization.step options place (embed g) o = .error f o' →
          ∃ s, pursue guards options (g, o.plan) = .error f s := by
  have hsound := Cluster.sound_after operations
  obtain ⟨x, haccount, hfault⟩ := exists_account (p := ⟨.after operations, journal⟩) hsound g
  refine ⟨?_, fun hfound ↦ ?_, ?_⟩
  · obtain ⟨events, c, hj, htrail, -⟩ := haccount.levels hsound hdead hdisk
    exact ⟨events, c, hj, htrail.mono fun _ _ _ h ↦ h.squares_le⟩
  · refine (haccount.populationVariance_le hsound hdead hdisk ?_).2
    rintro rfl
    obtain ⟨s, hpursue⟩ := hfault _ rfl
    exact hfound s hpursue
  · intro γ _ embed hembeds place o hplan hguards f o' hstep
    refine (hembeds.ends_step hguards ?_).of_error hstep
    rw [hplan]
    intro satisfied s hpursue
    have hends : Ends (pursue guards options) (g, ⟨.after operations, journal⟩) _ _ :=
      ends_pursue hsound
    have haccount := hends.of_ok hpursue
    obtain ⟨hstates, hvariance⟩ :=
      haccount.populationVariance_le hsound hdead hdisk nofun
    exact DistributionGoal.zero_le_compare hdead hstates
      (DistributionGoal.aliveBrokers_ne_nil hlimits) hvariance

/-- Six replicas on three of four brokers. -/
def Operation.lacking : List Operation :=
  [.addBroker 0 none .alive, .addBroker 1 none .alive, .addBroker 2 none .alive,
    .addBroker 3 none .new, .place ⟨"a", 0⟩ 0 true {}, .place ⟨"a", 1⟩ 0 true {},
    .place ⟨"a", 2⟩ 1 true {}, .place ⟨"a", 3⟩ 1 true {}, .place ⟨"a", 4⟩ 2 true {},
    .place ⟨"a", 5⟩ 2 true {}]

/-- The broker without any is given one, and an optimization accepts what that leaves. -/
theorem variance_not_increased_lacking :
    (∃ (events : Journal) (c : Cluster),
      (stateAfter (pursue [] {}) ({}, ⟨.after Operation.lacking, #[]⟩)).2.journal =
        #[] ++ events ∧
      Trail (fun c _ c' ↦ sumOfSquares c'.shares + 2 ≤ sumOfSquares c.shares)
        ((Cluster.after Operation.lacking).track "ReplicaDistributionGoal"
          (DistributionGoal.criteria {})) events.moves c) ∧
    (Cluster.after Operation.lacking).shares = [2, 2, 2, 0] ∧
    (stateAfter (pursue [] {}) ({}, ⟨.after Operation.lacking, #[]⟩)).2.cluster.shares =
      [1, 2, 2, 1] ∧
    populationVariance
        (stateAfter (pursue [] {}) ({}, ⟨.after Operation.lacking, #[]⟩)).2.cluster.shares ≤
      populationVariance (Cluster.after Operation.lacking).shares ∧
    ∃ result o', Optimization.step {} 0 ({} : DistributionGoal)
      ⟨[{}], ⟨.after Operation.lacking, #[]⟩⟩ = .ok result o' := by
  obtain ⟨satisfied, s, hpursue, -⟩ := Ends.exists_ok (by decide +kernel : Ends (pursue [] {})
    ({}, ⟨.after Operation.lacking, #[]⟩) (fun _ _ ↦ True) fun _ _ ↦ False)
  have hlimits : Limits.of (Cluster.after Operation.lacking).size
      (Cluster.after Operation.lacking).aliveBrokers.length Constraint.standard.percentage =
        .ok ⟨1, 2, .ofRatio false 3 2⟩ := by decide +kernel
  obtain ⟨hmoves, hvariance, hcheck⟩ := variance_not_increased Operation.lacking (by decide +kernel)
    (by decide +kernel) [] {} #[] (g := {}) hlimits
  refine ⟨hmoves, by decide +kernel, by decide +kernel, hvariance fun s' hf ↦ ?_, ?_⟩
  · rw [hpursue] at hf
    cases hf
  · cases hstep : Optimization.step {} 0 ({} : DistributionGoal)
      ⟨[{}], ⟨.after Operation.lacking, #[]⟩⟩ with
    | ok result o' => exact ⟨result, o', rfl⟩
    | error f o' =>
      obtain ⟨s', hf⟩ := hcheck Optimization.embeds_id 0 _ rfl rfl f o' hstep
      rw [hpursue] at hf
      cases hf

/-- A history in which a view orders by a use of processors that is not a number; three replicas
leave the broker. Of the brokers at the end one has no replica, and the others have two each. -/
def Operation.strayed : List Operation :=
  [.addBroker 0 none .alive, .addBroker 1 none .alive, .addBroker 2 none .alive,
    .addBroker 3 none .alive, .addBroker 4 none .alive, .addBroker 5 none .alive,
    .place ⟨"t", 0⟩ 0 false { cpu := 2 }, .place ⟨"t", 1⟩ 0 false { cpu := .nan },
    .place ⟨"t", 2⟩ 0 false { cpu := 1 }, .place ⟨"t", 3⟩ 0 false { cpu := 2 },
    .track "v" { score := some .cpu }, .relocate ⟨"t", 0⟩ 0 1, .relocate ⟨"t", 1⟩ 0 1,
    .relocate ⟨"t", 2⟩ 0 2, .place ⟨"t", 4⟩ 0 false {}, .place ⟨"u", 0⟩ 2 false {},
    .place ⟨"u", 1⟩ 3 false {}, .place ⟨"u", 2⟩ 3 false {}, .place ⟨"u", 3⟩ 4 false {},
    .place ⟨"u", 4⟩ 4 false {}]

/-- The view cannot find the replica that is to go to the empty broker, when it has already left its
own. So the pursuit fails, and ends with a greater variance. -/
theorem variance_increased_out_of_order :
    (∃ f s, pursue [] {} ({}, { cluster := .after Operation.strayed }) = .error f s ∧
      f = .viewOutOfOrder ∧ s.2.cluster.shares = [1, 2, 2, 2, 2, 0] ∧
      populationVariance (Cluster.after Operation.strayed).shares <
        populationVariance s.2.cluster.shares) ∧
    (Cluster.after Operation.strayed).hasDead = false ∧
    (∀ r ∈ (Cluster.after Operation.strayed).replicas, r.load.of .disk ≠ .nan) ∧
    Limits.of (Cluster.after Operation.strayed).size
      (Cluster.after Operation.strayed).aliveBrokers.length Constraint.standard.percentage =
        .ok ⟨1, 2, .ofRatio false 10 6⟩ ∧
    (Cluster.after Operation.strayed).shares = [2, 2, 2, 2, 2, 0] := by
  refine ⟨Ends.exists_error (by decide +kernel : Ends (pursue [] {})
    ({}, { cluster := .after Operation.strayed }) (fun _ _ ↦ False)
    fun f s ↦ f = .viewOutOfOrder ∧ s.2.cluster.shares = [1, 2, 2, 2, 2, 0] ∧
      populationVariance (Cluster.after Operation.strayed).shares <
        populationVariance s.2.cluster.shares), ?_⟩
  decide +kernel

end Rebalance
