import Rebalance.Proofs.Distribution.Anew
import Rebalance.Proofs.Distribution.Retention
import Rebalance.Proofs.Limits

/-!
# New brokers and those that were there before

While some broker is new, no other one is filled. But a broker that is drained gives to the emptiest
one, new or not. So a broker that was there before and is short of replicas gets one ahead of a new
one in no other way, and only if it is the emptier of the two, or as empty and of lower number.
-/

namespace Rebalance

/-- A move goes to a broker that was there before and is below a limit, although a new one is below
it too and lacks the partition. -/
structure Bypasses (lower : Int) (c : Cluster) (m : Move) (n : BrokerId) : Prop where
  existing : c.state? m.destination = some .alive
  few : (c.count m.destination : Int) < lower
  new : c.state? n = some .new
  fewNew : (c.count n : Int) < lower
  vacant : ¬ c.Hosts n m.partition

/-- Whatever new broker a move goes past, it comes from above the upper limit and goes to a broker
before that one. -/
def Spills (limits : Limits) (c : Cluster) (m : Move) (_ : Cluster) : Prop :=
  ∀ n, Bypasses limits.lower c m n → limits.upper < c.count m.source ∧
    (⟨c.count m.destination, m.destination⟩ : Fullness) < ⟨c.count n, n⟩

theorem Cluster.hasNew_of_state? {c : Cluster} {id : BrokerId} (h : c.state? id = some .new) :
    c.hasNew = true := by
  obtain ⟨b, hb, hstate⟩ := Option.map_eq_some_iff.1 h
  exact List.any_eq_true.2 ⟨b, mem_of_broker? hb, decide_eq_true hstate⟩

theorem Cluster.not_dead_of_hasDead_eq_false {c : Cluster} {id : BrokerId}
    (h : c.hasDead = false) : ¬ c.Dead id := by
  rintro ⟨b, hb, hdead⟩
  exact not_dead_of_alive (alive_of_hasDead_eq_false h hb) ⟨b, hb, hdead⟩

namespace DistributionGoal

variable {g g' g₁ : DistributionGoal} {options : Options} {t t' : Stage} {id : BrokerId}
  {ids : List BrokerId} {m : Move} {p p' : Plan}

/-! ## Steps -/

section

variable (ht : t.cluster.Sound) (hdead : t.cluster.hasDead = false)
  (hlimits : g.limits.lower ≤ g.limits.upper) (hoptions : options.excludedBrokers = [])

include ht hdead hlimits hoptions

/-- What leaves a broker that is drained could have gone to the new one, so it went to a broker that
comes before. -/
theorem Drains.spills (h : g.Drains [] options id t t') (hm : t'.moves = t.moves ++ [m]) :
    Spills g.limits t.cluster m t'.cluster := by
  obtain ⟨s, i, r, d, hready, rfl, -, hon, hmoves⟩ := h.moves
  obtain rfl := hmoves.eq_of_moves hm
  obtain ⟨b, hb⟩ := ht.exists_broker?_of_on hon
  have halive := Cluster.alive_of_hasDead_eq_false hdead hb
  have hmany := h.many halive
  intro n hbypasses
  have hfew := hbypasses.fewNew
  refine ⟨hmany, (hready.emptiest ht hon hmoves).least n ?_ ?_⟩
  · refine (admissible_iff ht hb).2 ⟨⟨?_, ?_, ?_, hbypasses.vacant, .inr ⟨?_, ?_, ?_⟩⟩, by simp⟩
    · rintro rfl
      omega
    · simp [Options.allows, hoptions]
    · exact Cluster.alive_iff.2 ⟨.new, hbypasses.new, by decide⟩
    · omega
    · intro _
      omega
    · intro _
      omega
  · rintro rfl
    exact absurd (hbypasses.existing.symm.trans hbypasses.new) (by decide)

/-- A broker that was there before is not filled as long as one is new. -/
theorem Step.spills (h : g.Step [] options id t t')
    (hdeferred : t.cluster.hasNew = true → t.cluster.state? id = some .alive →
      g.limits.lower ≤ t.cluster.count id)
    (hm : t'.moves = t.moves ++ [m]) : Spills g.limits t.cluster m t'.cluster := by
  cases h with
  | drains hdrains => exact hdrains.spills ht hdead hlimits hoptions hm
  | fills hfills =>
    obtain ⟨i, r, -, -, -, hmoves⟩ := hfills.moves
    obtain rfl := hmoves.eq_of_moves hm
    intro n hbypasses
    have hle := hdeferred (Cluster.hasNew_of_state? hbypasses.new) hbypasses.existing
    exact absurd hfills.few (Int.not_lt.2 hle)

end

/-- A broker that is tended does not fall below the lower limit. -/
theorem Step.lower_le (h : g.Step [] options id t t') (ht : t.cluster.Sound)
    (hev : g.evacuating = false) (hdead : t.cluster.hasDead = false)
    (hle : g.limits.lower ≤ t.cluster.count id) : g.limits.lower ≤ t'.cluster.count id := by
  cases h with
  | drains hdrains =>
    obtain ⟨s, i, r, d, -, rfl, -, hon, hmoves⟩ := hdrains.moves
    obtain ⟨b, hb⟩ := ht.exists_broker?_of_on hon
    have hlow := (hmoves.within ht hev).lower (Cluster.alive_of_hasDead_eq_false hdead hb)
    have hcount := hmoves.count_source ht
    omega
  | fills hfills =>
    obtain ⟨i, r, -, -, -, hmoves⟩ := hfills.moves
    have hcount := hmoves.count_destination ht
    omega

/-! ## Tending brokers -/

section

variable {x : Except Fault Unit} (ht : t.cluster.Sound)
  (hf : t.cluster.Faithful g.name (criteria options)) (hev : g.evacuating = false)
  (hdead : t.cluster.hasDead = false) (hlimits : g.limits.lower ≤ g.limits.upper)
  (hoptions : options.excludedBrokers = [])

include ht hf hev hdead hlimits hoptions

theorem Tended.spills (halike : g.Alike g₁) (h : Tended [] options id g₁ t x g' t') :
    Arrives (Takes (Spills g.limits)) t x t' := by
  obtain harrives | ⟨b, hb, hex⟩ := h.arrives_or_not_exempt
  · exact harrives _
  have hev' := halike.evacuating.trans hev
  have hdeferred : t.cluster.hasNew = true → t.cluster.state? id = some .alive →
      g₁.limits.lower ≤ t.cluster.count id := by
    intro hnew hstate
    rw [Cluster.state?, hb, Option.map_some, Option.some.injEq] at hstate
    by_contra hlt
    rw [count_of_broker? hb] at hlt
    refine hex (.deferred hnew ⟨?_, Int.not_le.1 hlt⟩ ?_)
    · simp [Broker.isAlive, hstate]
    · simp [Broker.isNew, hstate]
  have hsteps : Arrives (g₁.Step [] options id) t x t' :=
    h.arrives ht (halike.name ▸ hf) fun he ↦ absurd he (ne_true_of_eq_false hev')
  refine (Arrives.along (P := fun t ↦ t.cluster.Sound ∧ t.cluster.hasDead = false ∧
    (t.cluster.hasNew = true → t.cluster.state? id = some .alive →
      g₁.limits.lower ≤ t.cluster.count id)) ?_ hsteps ⟨ht, hdead, hdeferred⟩).mono ?_
  · rintro t t' ⟨ht, hdead, hdeferred⟩ hs
    have hstates := hs.states_eq
    refine ⟨hs.sound ht, (Cluster.hasDead_congr hstates).trans hdead, fun hnew hstate ↦ ?_⟩
    rw [Cluster.hasNew_congr hstates] at hnew
    rw [Cluster.state?_congr hstates] at hstate
    exact hs.lower_le ht hev' hdead (hdeferred hnew hstate)
  · rintro t t' ⟨⟨ht, hdead, hdeferred⟩, hs⟩
    obtain ⟨_, i, r, d, -, -, hmoves⟩ := hs.exists_moves
    rw [← halike.limits] at hlimits ⊢
    exact hmoves.takes ht (hs.spills ht hdead hlimits hoptions hdeferred hmoves.relocated.moves)

theorem TendedAll.spills (h : TendedAll [] options ids g t x g' t') :
    Arrives (Takes (Spills g.limits)) t x t' := by
  refine TendedAll.arrives (P := fun t ↦ t.cluster.Sound ∧
    t.cluster.Faithful g.name (criteria options) ∧ t.cluster.hasDead = false) ?_ ?_ (.refl g) h
    ⟨ht, hf, hdead⟩
  · rintro t t' ⟨ht, hf, hdead⟩ htakes
    obtain ⟨ht', hstates, hf'⟩ :=
      keeps_of_takes (fun h hm hf ↦ hf.moved h hm) (.single htakes) ht hf
    exact ⟨ht', hf', (Cluster.hasDead_congr hstates).trans hdead⟩
  · rintro g₁ g₂ t t' y id - halike ⟨ht, hf, hdead⟩ htended
    exact htended.spills ht hf hev hdead hlimits hoptions halike

end

/-! ## Whole pursuits -/

theorem Account.exists_spilling {x : Except Fault Bool} (h : Account [] options g p x g' p')
    (ht : p.cluster.Sound) (hdisk : ∀ r ∈ p.cluster.replicas, r.load.of .disk ≠ .nan)
    (hdead : p.cluster.hasDead = false) (hoptions : options.excludedBrokers = []) :
    ∃ events c, p'.journal = p.journal ++ events ∧
      Trail (Spills g'.limits) (p.cluster.track g.name (criteria options)) events.moves c ∧
      Remains x c p'.cluster := by
  have hf := faithful_tracked ht hdisk g options
  have hdead' := (Cluster.hasDead_congr
    (Cluster.states_track g.name (criteria options) p.cluster)).trans hdead
  refine (h.travels_of_takes (Spills g'.limits) (Spills g'.limits) ht hdisk ?_ ?_).exists_trail
  · intro _ t _ _ hev hstates hadvances hm
    have hnone := (Cluster.hasDead_congr hstates).trans hdead
    exact absurd (hadvances.evacuates hev hm).1 (Cluster.not_dead_of_hasDead_eq_false hnone)
  · intro limits _ _ _ hlimits htended
    rw [h.limits_eq hlimits]
    exact htended.spills (ht.track g.name (criteria options)) hf rfl hdead'
      (Limits.lower_le_upper_of_constraint hlimits).2 hoptions

end DistributionGoal

open DistributionGoal (pursue exists_account)

/-- After any history that left no broker dead and in which the use of disks is a number, with no
guards and no broker excluded: a pursuit moves no replica to a broker that was there before and is
below the lower limit while a new broker is below it and lacks the partition, but from a broker
above the upper limit, and to one that holds fewer replicas than the new one, or as many under a
lower number. -/
theorem newcomers_bypassed_by_spills (operations : List Operation)
    (hdisk : ∀ r ∈ (Cluster.after operations).replicas, r.load.of .disk ≠ .nan)
    (hdead : (Cluster.after operations).hasDead = false) (options : Options)
    (hoptions : options.excludedBrokers = []) (journal : Journal) (g : DistributionGoal) :
    ∃ events c,
      (stateAfter (pursue [] options) (g, ⟨.after operations, journal⟩)).2.journal =
        journal ++ events ∧
      Trail (Spills (stateAfter (pursue [] options) (g, ⟨.after operations, journal⟩)).1.limits)
        ((Cluster.after operations).track g.name (DistributionGoal.criteria options))
        events.moves c ∧
      ((∃ s, pursue [] options (g, ⟨.after operations, journal⟩) = .error .viewOutOfOrder s) ∨
        (stateAfter (pursue [] options) (g, ⟨.after operations, journal⟩)).2.cluster.bare =
          c.bare) := by
  have hsound := Cluster.sound_after operations
  obtain ⟨x, haccount, hfault⟩ := exists_account (p := ⟨.after operations, journal⟩) hsound g
  obtain ⟨events, c, hj, htrail, hremains⟩ :=
    haccount.exists_spilling hsound hdisk hdead hoptions
  exact ⟨events, c, hj, htrail, hremains.imp_left (hfault _)⟩

/-- A broker with six replicas, one that is empty, and a new one. -/
def Operation.expanded : List Operation :=
  [.addBroker 0 none .alive, .addBroker 1 none .alive, .addBroker 2 none .new,
    .place ⟨"a", 0⟩ 0 true {}, .place ⟨"a", 1⟩ 0 true {}, .place ⟨"a", 2⟩ 0 true {},
    .place ⟨"a", 3⟩ 0 true {}, .place ⟨"a", 4⟩ 0 true {}, .place ⟨"a", 5⟩ 0 true {}]

/-- The limits are one and three. The first replica goes to the empty broker that was there before,
which has the lower number, and only the second one to the new broker. -/
theorem newcomers_bypassed_by_spills_expanded :
    (stateAfter (pursue [] {}) ({}, ⟨.after Operation.expanded, #[]⟩)).2.journal.moves =
      [.replica ⟨"a", 0⟩ 0 1, .replica ⟨"a", 1⟩ 0 2, .replica ⟨"a", 2⟩ 0 1] ∧
    ∃ (events : Journal) (c : Cluster),
      (stateAfter (pursue [] {}) ({}, ⟨.after Operation.expanded, #[]⟩)).2.journal = #[] ++ events ∧
      Trail (Spills (stateAfter (pursue [] {}) ({}, ⟨.after Operation.expanded, #[]⟩)).1.limits)
        ((Cluster.after Operation.expanded).track "ReplicaDistributionGoal"
          (DistributionGoal.criteria {})) events.moves c := by
  obtain ⟨events, c, hj, htrail, -⟩ := newcomers_bypassed_by_spills Operation.expanded
    (by decide +kernel) (by decide +kernel) {} rfl #[] {}
  exact ⟨by decide +kernel, events, c, hj, htrail⟩

/-- So a broker that was there before may get a replica although a new one is short of them too. -/
theorem newcomer_bypassed :
    (∀ r ∈ (Cluster.after Operation.expanded).replicas, r.load.of .disk ≠ .nan) ∧
    (Cluster.after Operation.expanded).hasDead = false ∧
    ¬ ∃ (events : Journal) (c : Cluster),
      (stateAfter (pursue [] {}) ({}, ⟨.after Operation.expanded, #[]⟩)).2.journal = #[] ++ events ∧
      Trail (fun c m _ ↦ ∀ n, ¬ Bypasses
          (stateAfter (pursue [] {}) ({}, ⟨.after Operation.expanded, #[]⟩)).1.limits.lower c m n)
        ((Cluster.after Operation.expanded).track "ReplicaDistributionGoal"
          (DistributionGoal.criteria {})) events.moves c := by
  refine ⟨by decide +kernel, by decide +kernel, ?_⟩
  rintro ⟨events, c, hj, htrail⟩
  have hlower : (stateAfter (pursue [] {})
      ({}, ⟨.after Operation.expanded, #[]⟩)).1.limits.lower = 1 := by decide +kernel
  have hmoves : events.moves =
      [.replica ⟨"a", 0⟩ 0 1, .replica ⟨"a", 1⟩ 0 2, .replica ⟨"a", 2⟩ 0 1] := by
    rw [Array.empty_append] at hj
    rw [← hj]
    decide +kernel
  rw [hmoves, hlower] at htrail
  cases htrail with
  | cons _ hstep =>
    refine hstep 2 ⟨by decide +kernel, by decide +kernel, by decide +kernel, by decide +kernel, ?_⟩
    rintro ⟨i, r, hon, -⟩
    have hplaced : ∀ r ∈ (Cluster.after Operation.expanded).replicas, r.broker = 0 := by
      decide +kernel
    have hbroker := ((Cluster.sound_after Operation.expanded).track _ _).broker_of_on hon
    rw [hplaced r (List.mem_of_getElem? hon.replica?_eq)] at hbroker
    cases hbroker

end Rebalance
