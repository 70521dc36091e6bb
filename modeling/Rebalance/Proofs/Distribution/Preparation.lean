import Rebalance.Proofs.History
import Rebalance.Proofs.Limits

/-!
# Preparing a pursuit

A constraint takes every threshold that is not below one: infinities, what is not a number, and
doubles so large that their product with an average overflows. With these there are no limits, and
preparing fails. Whatever other threshold there is, preparing gives limits that can be kept and a
view of every broker.
-/

namespace Rebalance

/-- Neither the average number of replicas, nor what is raised to the upper limit, leaves the finite
range. -/
def Constraint.Manageable (constraint : Constraint) (c : Cluster) : Prop :=
  ∃ average, Double.quotient c.size c.aliveBrokers.length = .ok average ∧
    (average * (1 + constraint.percentage)).isFinite

theorem Constraint.Manageable.isFinite_threshold {constraint : Constraint} {c : Cluster}
    (h : constraint.Manageable c) : constraint.threshold.isFinite := by
  obtain ⟨average, -, hproduct⟩ := h
  obtain ⟨-, hpercentage⟩ := Double.isFinite_of_add (Double.isFinite_of_mul hproduct)
  exact (Double.isFinite_of_add hpercentage).1

theorem Constraint.manageable_iff {constraint : Constraint} {c : Cluster} :
    constraint.Manageable c ↔
      ∃ limits, Limits.of c.size c.aliveBrokers.length constraint.percentage = .ok limits :=
  Limits.exists_limits_iff.symm

theorem Cluster.isTracking_track (c : Cluster) (name : String) (criteria : Criteria) :
    ∀ b ∈ (c.track name criteria).brokers, b.isTracking name = true := by
  rw [brokers_track, List.forall_mem_map]
  intro b _
  rw [Broker.isTracking, Roster.has, Roster.entry?_put_self]
  rfl

namespace DistributionGoal

/-- With an alive broker, preparing fails exactly if the constraint is not manageable, and then for
want of a number, with nothing tracked. Otherwise it gives limits that can be kept, and tracks every
broker. No threshold that is not finite is manageable; but every one up to a power of two is, unless
the number of replicas makes up for what that is below the greatest double. -/
theorem prepared_iff_manageable (g : DistributionGoal) (options : Options) {p : Plan}
    (halive : p.cluster.aliveBrokers ≠ []) :
    Ends (prepare options) (g, p)
      (fun _ s ↦ g.constraint.Manageable p.cluster ∧
        0 ≤ s.1.limits.lower ∧ s.1.limits.lower ≤ s.1.limits.upper ∧
        s.2.cluster = p.cluster.track g.name (criteria options) ∧
        ∀ b ∈ s.2.cluster.brokers, b.isTracking g.name = true)
      (fun f s ↦ ¬ g.constraint.Manageable p.cluster ∧ (∃ e, f = .arithmetic e) ∧
        s = (g.cleared, p)) ∧
    (g.constraint.Manageable p.cluster → g.constraint.threshold.isFinite) ∧
    ∀ j k, j + k ≤ 1022 → g.constraint.threshold ≤ Double.ofNat (2 ^ j) →
      p.cluster.size ≤ 2 ^ k → g.constraint.Manageable p.cluster := by
  refine ⟨(ends_prepare_from g p).mono ?_ ?_, fun h ↦ h.isFinite_threshold, ?_⟩
  · rintro _ s ⟨limits, -, hlimits, hg, hstage⟩
    obtain ⟨hzero, hle⟩ := Limits.lower_le_upper_of_constraint hlimits
    have hcluster : s.2.cluster = p.cluster.track g.name (criteria options) :=
      congrArg Stage.cluster hstage
    rw [hg, hcluster]
    exact ⟨Constraint.manageable_iff.2 ⟨limits, hlimits⟩, hzero, hle, rfl,
      p.cluster.isTracking_track g.name (criteria options)⟩
  · rintro f s ⟨hs, ⟨hempty, -⟩ | ⟨-, e, herror, hf⟩⟩
    · exact absurd hempty halive
    · refine ⟨fun hmanageable ↦ ?_, ⟨e, hf⟩, hs⟩
      obtain ⟨limits, hlimits⟩ := Constraint.manageable_iff.1 hmanageable
      rw [herror] at hlimits
      exact absurd hlimits nofun
  · intro j k hjk hthreshold hsize
    exact Constraint.manageable_iff.2 (Limits.exists_limits_of_le hjk hthreshold hsize
      (List.length_pos_iff.2 halive))

end DistributionGoal

open DistributionGoal

/-- A broker with two replicas. -/
def Operation.pair : List Operation :=
  [.addBroker 0 none .alive, .place ⟨"a", 0⟩ 0 true {}, .place ⟨"b", 0⟩ 0 true {}]

theorem DistributionGoal.prepared_iff_manageable_pair :
    Ends (prepare {}) (({} : DistributionGoal), { cluster := .after Operation.pair })
      (fun _ s ↦ 0 ≤ s.1.limits.lower ∧ s.1.limits.lower ≤ s.1.limits.upper ∧
        s.2.cluster = (Cluster.after Operation.pair).track "ReplicaDistributionGoal" (criteria {}) ∧
        ∀ b ∈ s.2.cluster.brokers, b.isTracking "ReplicaDistributionGoal" = true)
      fun _ _ ↦ False := by
  have halive : (Cluster.after Operation.pair).aliveBrokers ≠ [] := by decide +kernel
  have hsize : (Cluster.after Operation.pair).size ≤ 2 ^ 1 := by decide +kernel
  generalize Cluster.after Operation.pair = c at *
  obtain ⟨hends, -, hmoderate⟩ := prepared_iff_manageable {} {} (p := { cluster := c }) halive
  exact hends.resolve (hmoderate 1 1 (by decide) (by decide +kernel) hsize)

/-- A threshold is accepted, but preparing with it fails where a broker has two replicas. -/
def AcceptedInVain (threshold : Double) (e : Double.Fault) : Prop :=
  ∃ h : ¬ threshold < 1, Constraint.ofThreshold threshold = .ok ⟨threshold, h⟩ ∧
    Ends (prepare {}) ({ constraint := ⟨threshold, h⟩ }, { cluster := .after Operation.pair })
      (fun _ _ ↦ False) fun f _ ↦ f = .arithmetic e

instance (threshold : Double) (e : Double.Fault) : Decidable (AcceptedInVain threshold e) :=
  inferInstanceAs (Decidable (∃ _ : ¬ threshold < 1, _ ∧ _))

/-- What is accepted as a threshold need not give limits: not if twice as much is past the largest
double, nor if it is infinite or not a number. -/
theorem DistributionGoal.accepted_without_limits :
    (Cluster.after Operation.pair).aliveBrokers ≠ [] ∧
      AcceptedInVain (.ofDecimal false 1 308) .infinityToInteger ∧
      AcceptedInVain (.infinite false) .infinityToInteger ∧
      AcceptedInVain .nan .nanToInteger := by
  decide +kernel

end Rebalance
