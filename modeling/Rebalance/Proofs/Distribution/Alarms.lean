import Rebalance.Proofs.Distribution.Records
import Rebalance.Proofs.History

/-!
# Alarms

What is recorded of a broker when it is tended need not be true when the pursuit ends. Under guards
that last, a broker that is recorded as above its limit is above it in the end, whatever the states
of brokers. One that is recorded as under the lower limit is under it in the end if no broker is
dead; otherwise a dead one that is tended later may still fill it up.
-/

namespace Rebalance

namespace DistributionGoal

variable {g g' g₁ g₂ : DistributionGoal} {guards : List Guard} {options : Options} {t t' : Stage}
  {d id id' : BrokerId} {b : Broker} {c : Cluster} {ids : List BrokerId}

/-! ## Records that are right -/

/-- No step on another broker changes how many replicas a dead one has. -/
theorem Step.count_eq_of_dead (h : t.cluster.Sound) (hstep : g.Step guards options id' t t')
    (hne : id ≠ id') (hdead : t.cluster.Dead id) : t'.cluster.count id = t.cluster.count id := by
  have hother : ∀ {id'}, t.cluster.Alive id' → id ≠ id' := by
    rintro id' halive rfl
    exact Cluster.not_dead_of_alive halive hdead
  cases hstep with
  | drains hdrains =>
    obtain ⟨s, i, r, d, -, rfl, -, -, hmoves⟩ := hdrains.moves
    exact hmoves.count_other h (hother (hmoves.fits h).alive) hne
  | fills hfills =>
    obtain ⟨i, r, halive, -, -, hmoves⟩ := hfills.moves
    exact hmoves.count_other h hne (hother halive)

/-- What is recorded of a broker is right, and will not change: an alive one that is recorded as
above the upper limit is clogged, a dead one is not empty, and where no broker is dead, one that is
recorded as under the lower limit is starved. -/
structure Vindicated (g : DistributionGoal) (guards : List Guard) (options : Options) (c : Cluster)
    (id : BrokerId) : Prop where
  clogged : g.evacuating = false → id ∈ g.above → c.Alive id → g.Clogged guards options c id
  nonempty : id ∈ g.above → c.Dead id → 0 < c.count id
  starved : g.evacuating = false → c.hasDead = false → id ∈ g.under →
    g.Starved guards options c id

theorem Vindicated.final (hlasting : ∀ γ ∈ guards, γ.IsLasting) (hb : c.broker? id = some b) :
    Final guards options c id fun g c ↦ g.Vindicated guards options c id where
  step {g t t' id'} h hstates hne hstep hvindicated := by
    constructor
    · intro hev hid halive
      have halive' := (Cluster.alive_congr hstep.states_eq).1 halive
      exact (hvindicated.clogged hev hid halive').step hlasting h hev hstep hne
    · intro hid hdead
      have hdead' := (Cluster.dead_congr hstep.states_eq).1 hdead
      rw [hstep.count_eq_of_dead h hne hdead']
      exact hvindicated.nonempty hid hdead'
    · intro hev hnone hid
      have hnone' := (Cluster.hasDead_congr hstep.states_eq).symm.trans hnone
      have halive : t.cluster.Alive id := (Cluster.alive_congr hstates).2
        (Cluster.alive_of_hasDead_eq_false ((Cluster.hasDead_congr hstates).symm.trans hnone') hb)
      exact (hvindicated.starved hev hnone' hid).step hlasting h hev hstep hne hnone' halive
  congr halike habove hunder hvindicated := by
    refine ⟨fun hev hid halive ↦ ?_, fun hid ↦ hvindicated.nonempty (habove.1 hid),
      fun hev hnone hid ↦ ?_⟩
    · exact (hvindicated.clogged (halike.evacuating.symm.trans hev) (habove.1 hid) halive).congr
        halike
    · exact (hvindicated.starved (halike.evacuating.symm.trans hev) hnone (hunder.1 hid)).congr
        halike

/-- What is recorded of a broker when it is tended is right. -/
theorem Tended.vindicated (hlasting : ∀ γ ∈ guards, γ.IsLasting) (ht : t.cluster.Sound)
    (hf : t.cluster.Faithful g.name (criteria options))
    (hev : g.evacuating = true → t.cluster.Dead id) (hlimits : g.limits.lower ≤ g.limits.upper)
    (h : Tended guards options id g t (.ok ()) g' t') (habove : id ∉ g.above)
    (hunder : id ∉ g.under) : g'.Vindicated guards options t'.cluster id := by
  have halike := h.alike
  obtain ⟨ht', hstates⟩ := h.sound ht
  have hnothing : g'.above = g.above → g'.under = g.under →
      g'.Vindicated guards options t'.cluster id := by
    intro ha hu
    rw [← ha] at habove
    rw [← hu] at hunder
    exact ⟨fun _ hid ↦ absurd hid habove, fun hid ↦ absurd hid habove,
      fun _ _ hid ↦ absurd hid hunder⟩
  cases h with
  | exempt => exact hnothing rfl rfl
  | balanced => exact hnothing rfl rfl
  | above hb _ hlowered =>
    obtain rfl := Cluster.id_of_broker? hb
    have hev' := fun he ↦ (dead_iff_isAlive hb).1 (hev he)
    refine ⟨fun he _ halive ↦ ?_, fun _ hdead ↦ ?_, fun _ _ hid ↦ absurd hid hunder⟩
    · have halive' := (alive_iff_isAlive hb).1 ((Cluster.alive_congr hstates).1 halive)
      exact (hlowered.clogged hlasting ht hf hb he halive').congr halike
    · have hmore := hlowered.more ht hf hb hev'
      rw [ceiling_of_dead ((dead_iff_isAlive hb).1 ((Cluster.dead_congr hstates).1 hdead))] at hmore
      exact Int.natCast_pos.1 hmore
  | under hb _ hlowered hraised =>
    obtain rfl := Cluster.id_of_broker? hb
    refine ⟨fun _ hid ↦ absurd hid habove, fun hid ↦ absurd hid habove, fun _ hnone _ ↦ ?_⟩
    obtain rfl := hlowered.eq_of_not_tooMany (not_tooMany_of_tooFew hlimits hraised.tooFew)
    have hnone' := (Cluster.hasDead_congr hstates).symm.trans hnone
    exact (hraised.starved hlasting ht hf hb hlimits hnone' hstates ht').congr halike

section

variable (hlasting : ∀ γ ∈ guards, γ.IsLasting) (ht : t.cluster.Sound)
  (hf : t.cluster.Faithful g.name (criteria options))
  (hlimits : g.limits.lower ≤ g.limits.upper) (habove : g.above = []) (hunder : g.under = [])
  (h : TendedAll guards options ((g.brokersToBalance t.cluster).map Broker.id) g t (.ok ()) g' t')

include hlasting ht hf hlimits habove hunder h

/-- After a round that began with nothing recorded, what is recorded is right. -/
theorem TendedAll.vindicated (hid : id ∈ g'.above ∨ id ∈ g'.under) :
    ∃ b, t'.cluster.broker? id = some b ∧ g'.Vindicated guards options t'.cluster id := by
  have hmem := h.mem_of_recorded habove hunder hid
  obtain ⟨b, hb⟩ := Cluster.exists_broker?_iff.2 (mem_brokersToBalance id hmem)
  obtain ⟨b', hb'⟩ := Cluster.exists_broker?_of_states (h.sound ht).2 hb
  refine ⟨b', hb', (Vindicated.final hlasting hb).tendedAll ht rfl ?_ (.refl g) h rfl hf
    (fun hev id ↦ (mem_brokersToBalance_iff ht hev).1) (nodup_brokersToBalance ht g)
    (.inl ⟨hmem, ?_, ?_⟩)⟩
  · intro g₁ g₂ t₁ t₂ halike ht₁ hf₁ _ hev₁ ha hu htended
    exact htended.vindicated hlasting ht₁ hf₁ hev₁ (by rwa [halike.limits]) ha hu
  · rw [habove]
    exact List.not_mem_nil
  · rw [hunder]
    exact List.not_mem_nil

theorem TendedAll.tooMany_of_above (hid : id ∈ g'.above) :
    ∃ b, t'.cluster.broker? id = some b ∧ g'.TooMany b := by
  obtain ⟨b, hb, hvindicated⟩ := h.vindicated hlasting ht hf hlimits habove hunder (.inl hid)
  refine ⟨b, hb, ?_⟩
  by_cases halive : b.isAlive = true
  · -- An alive broker is recorded only while the limits are regarded.
    have hev : g'.evacuating = false := by
      rw [h.alike.evacuating, ← Bool.not_eq_true]
      intro hev
      have hmem := h.mem_of_recorded habove hunder (.inl hid)
      have hdead := (mem_brokersToBalance_iff ht hev).1 hmem
      rw [← Cluster.dead_congr (h.sound ht).2, dead_iff_isAlive hb, halive] at hdead
      cases hdead
    have hmany := (hvindicated.clogged hev hid ((alive_iff_isAlive hb).2 halive)).many
    rwa [tooMany_iff halive, ← count_of_broker? hb]
  · rw [Bool.not_eq_true] at halive
    have hpos := hvindicated.nonempty hid ((dead_iff_isAlive hb).2 halive)
    rw [TooMany, ceiling_of_dead halive, ← count_of_broker? hb]
    exact Int.natCast_pos.2 hpos

theorem TendedAll.tooFew_of_under (hev : g.evacuating = false) (hdead : t.cluster.hasDead = false)
    (hid : id ∈ g'.under) : ∃ b, t'.cluster.broker? id = some b ∧ g'.TooFew b := by
  obtain ⟨b, hb, hvindicated⟩ := h.vindicated hlasting ht hf hlimits habove hunder (.inr hid)
  have hdead' := (Cluster.hasDead_congr (h.sound ht).2).trans hdead
  have hfew := (hvindicated.starved (h.alike.evacuating.trans hev) hdead' hid).few
  rw [count_of_broker? hb] at hfew
  exact ⟨b, hb, (alive_iff_isAlive hb).1 (Cluster.alive_of_hasDead_eq_false hdead' hb), hfew⟩

end

/-! ## Pursuits -/

/-- Giving up views changes no broker otherwise. -/
theorem exists_released {P : Broker → Prop} (hP : ∀ b views, P { b with views } ↔ P b)
    (h : ∃ b, t.cluster.broker? id = some b ∧ P b) :
    ∃ b ∈ (g.released t).cluster.brokers, b.id = id ∧ P b := by
  obtain ⟨b, hb, hPb⟩ := h
  rw [released, Cluster.brokers_untrack]
  exact ⟨_, List.mem_map_of_mem (Cluster.mem_of_broker? hb),
    (Cluster.id_of_broker? hb : b.id = id), (hP ..).2 hPb⟩

section

variable {satisfied : Bool} (hlasting : ∀ γ ∈ guards, γ.IsLasting) (ht : t.cluster.Sound)
  (hdisk : ∀ r ∈ t.cluster.replicas, r.load.of .disk ≠ .nan)
  (h : Pursued guards options g t (.ok satisfied) g' t')
  (hlimits : g'.limits.lower ≤ g'.limits.upper)

include hlasting ht hdisk h hlimits

/-- What a pursuit that ends in a result has recorded as above the limit is above it. -/
theorem Pursued.tooMany_of_above :
    ∀ id ∈ g'.above, ∃ b ∈ t'.cluster.brokers, b.id = id ∧ g'.TooMany b := by
  have htracked : (g.tracked options t).cluster.Sound := ht.track g.name (criteria options)
  obtain ⟨limits, g₁, t₁, g₂, t₂, htended, hclosed, -, hends⟩ := h.exists_round
  have hf := faithful_tracked ht hdisk { g.renewed with limits } options
  rcases hends with ⟨hnone, rfl, rfl⟩ | ⟨hleft, hev, -, hround⟩
  · rw [hclosed.limits_eq, htended.alike.limits] at hlimits
    obtain ⟨rfl, -⟩ := hclosed.eq_finished (.inl hnone)
    intro id hid
    exact exists_released (P := g₁.TooMany) (fun _ _ ↦ Iff.rfl)
      (htended.tooMany_of_above hlasting htracked hf hlimits rfl rfl hid)
  · have ht₁ := (htended.sound htracked).1
    have hf₁ := htended.faithful htracked hf (fun he ↦ absurd he Bool.false_ne_true) rfl
    rw [← hclosed.name_eq] at hf₁
    -- What the first round recorded is forgotten, so the second one answers for all that remains.
    obtain ⟨habove, hunder⟩ := hclosed.forgets hleft
    cases hround with
    | @tended g₃ _ _ _ _ _ htended' hclosed' =>
      rw [hclosed'.limits_eq, htended'.alike.limits] at hlimits
      obtain ⟨rfl, rfl⟩ := hclosed'.eq_finished (.inr (htended'.alike.evacuating.trans hev))
      intro id hid
      exact exists_released (P := g₃.TooMany) (fun _ _ ↦ Iff.rfl)
        (htended'.tooMany_of_above hlasting ht₁ hf₁ hlimits habove hunder hid)

/-- Where no broker is dead, what is recorded as under the limit is under it, and the goal is
satisfied unless something is recorded. -/
theorem Pursued.tooFew_of_under (hdead : t.cluster.hasDead = false) :
    (∀ id ∈ g'.under, ∃ b ∈ t'.cluster.brokers, b.id = id ∧ g'.TooFew b) ∧
      satisfied = (g'.above.isEmpty && g'.under.isEmpty) := by
  have htracked : (g.tracked options t).cluster.Sound := ht.track g.name (criteria options)
  have hdead' : (g.tracked options t).cluster.hasDead = false :=
    (Cluster.hasDead_congr (Cluster.states_track ..)).trans hdead
  obtain ⟨limits, g₁, t₁, g₂, t₂, htended, hclosed, rfl, hends⟩ := h.exists_round
  have hnone := unemptied_eq_nil
    ((Cluster.hasDead_congr (htended.sound htracked).2).trans hdead')
  obtain ⟨-, rfl, rfl⟩ := hends.resolve_right fun h ↦ h.1 hnone
  have hsucceeded := hclosed.succeeded_eq
  rw [hclosed.limits_eq, htended.alike.limits] at hlimits
  rw [htended.alike.succeeded] at hsucceeded
  obtain ⟨rfl, -⟩ := hclosed.eq_finished (.inl hnone)
  refine ⟨fun id hid ↦ ?_, hsucceeded⟩
  exact exists_released (P := g₁.TooFew) (fun _ _ ↦ Iff.rfl) (htended.tooFew_of_under hlasting
    htracked (faithful_tracked ht hdisk { g.renewed with limits } options) hlimits rfl rfl rfl
    hdead' hid)

end

end DistributionGoal

open DistributionGoal (pursue comes_pursue)

/-- After any history in which the use of disks is a number, with guards that last: if a pursuit
ends in a result, whatever it has recorded as above its limit is above it, be it alive or dead. If
no broker is dead, whatever it has recorded as under the lower limit is under it, and some alive
broker is outside the limits unless the goal is satisfied. -/
theorem alarms_justified (operations : List Operation) {g g' : DistributionGoal}
    {guards : List Guard} {options : Options} {journal : Journal} {satisfied : Bool} {p' : Plan}
    (hdisk : ∀ r ∈ (Cluster.after operations).replicas, r.load.of .disk ≠ .nan)
    (hlasting : ∀ γ ∈ guards, γ.IsLasting)
    (h : pursue guards options (g, ⟨.after operations, journal⟩) = .ok satisfied (g', p'))
    (hlimits : g'.limits.lower ≤ g'.limits.upper) :
    (∀ id ∈ g'.above, ∃ b ∈ p'.cluster.brokers, b.id = id ∧ g'.TooMany b) ∧
      ((Cluster.after operations).hasDead = false →
        (∀ id ∈ g'.under, ∃ b ∈ p'.cluster.brokers, b.id = id ∧ g'.TooFew b) ∧
        (satisfied = false → ∃ b ∈ p'.cluster.brokers, b.isAlive = true ∧ ¬ g'.InLimits b)) := by
  have hsound := Cluster.sound_after operations
  have hpursued := (comes_pursue (p := ⟨.after operations, journal⟩) hsound).of_ok h
  have habove := hpursued.tooMany_of_above hlasting hsound hdisk hlimits
  refine ⟨habove, fun hdead ↦ ?_⟩
  obtain ⟨hunder, rfl⟩ := hpursued.tooFew_of_under hlasting hsound hdisk hlimits hdead
  refine ⟨hunder, fun hfailed ↦ ?_⟩
  obtain ⟨hsound', hstates⟩ := hpursued.sound hsound
  have halive : ∀ b ∈ p'.cluster.brokers, b.isAlive = true := fun b hb ↦ by
    have hfound := hsound'.broker?_of_mem hb
    exact (DistributionGoal.alive_iff_isAlive hfound).1
      (Cluster.alive_of_hasDead_eq_false ((Cluster.hasDead_congr hstates).trans hdead) hfound)
  rw [Bool.and_eq_false_iff, List.isEmpty_eq_false_iff_exists_mem,
    List.isEmpty_eq_false_iff_exists_mem] at hfailed
  rcases hfailed with ⟨id, hid⟩ | ⟨id, hid⟩
  · obtain ⟨b, hb, -, hmany⟩ := habove id hid
    rw [DistributionGoal.tooMany_iff (halive b hb)] at hmany
    exact ⟨b, hb, halive b hb, fun hin ↦ Int.not_lt.2 hin.2 hmany⟩
  · obtain ⟨b, hb, -, hfew⟩ := hunder id hid
    exact ⟨b, hb, hfew.1, fun hin ↦ Int.not_lt.2 hin.1 hfew.2⟩

/-- A broker with five replicas, and one with a single replica. -/
def Operation.uneven : List Operation :=
  [.addBroker 0 none .alive, .addBroker 1 none .alive, .place ⟨"a", 0⟩ 0 true {},
    .place ⟨"a", 1⟩ 0 true {}, .place ⟨"a", 2⟩ 0 true {}, .place ⟨"a", 3⟩ 0 true {},
    .place ⟨"a", 4⟩ 0 true {}, .place ⟨"a", 5⟩ 1 true {}]

/-- If a goal optimized before wants five on every broker, one stays above and the other under. -/
theorem alarms_justified_guarded :
    ∃ satisfied g' p', pursue [DistributionGoal.guard { limits := ⟨5, 9, .ofRatio false 7 1⟩ }] {}
        ({}, ⟨.after Operation.uneven, #[]⟩) = .ok satisfied (g', p') ∧
      g'.above = [0] ∧ g'.under = [1] ∧ satisfied = false ∧
      (∀ id ∈ g'.above, ∃ b ∈ p'.cluster.brokers, b.id = id ∧ g'.TooMany b) ∧
      ((Cluster.after Operation.uneven).hasDead = false →
        (∀ id ∈ g'.under, ∃ b ∈ p'.cluster.brokers, b.id = id ∧ g'.TooFew b) ∧
        (satisfied = false → ∃ b ∈ p'.cluster.brokers, b.isAlive = true ∧ ¬ g'.InLimits b)) := by
  obtain ⟨satisfied, ⟨g', p'⟩, h, habove, hunder, hfailed, hlimits⟩ := Ends.exists_ok
    (by decide +kernel : Ends
      (pursue [DistributionGoal.guard { limits := ⟨5, 9, .ofRatio false 7 1⟩ }] {})
      ({}, ⟨.after Operation.uneven, #[]⟩)
      (fun satisfied s ↦ s.1.above = [0] ∧ s.1.under = [1] ∧ satisfied = false ∧
        s.1.limits.lower ≤ s.1.limits.upper)
      fun _ _ ↦ False)
  refine ⟨satisfied, g', p', h, habove, hunder, hfailed, alarms_justified Operation.uneven
    (by decide +kernel) ?_ h hlimits⟩
  rw [List.forall_mem_singleton]
  exact DistributionGoal.isLasting_guard _

/-- A guard that lets nothing leave one broker as long as another is empty. -/
def Guard.hesitant : Guard where
  name := "hesitant"
  judge a c := .ok (if a.source = 0 ∧ c.count 1 = 0 then .rejectReplica else .accept)

/-- A broker with four replicas, one with two, and three that are empty. -/
def Operation.slanted : List Operation :=
  [.addBroker 0 none .alive, .addBroker 1 none .alive, .addBroker 2 none .alive,
    .addBroker 3 none .alive, .addBroker 4 none .alive, .place ⟨"a", 0⟩ 0 true {},
    .place ⟨"a", 1⟩ 0 true {}, .place ⟨"a", 2⟩ 0 true {}, .place ⟨"a", 3⟩ 0 true {},
    .place ⟨"a", 4⟩ 2 true {}, .place ⟨"a", 5⟩ 2 true {}]

/-- Such a guard does not last: the broker is recorded as above the upper limit, and ends at it. -/
theorem alarm_outdated_hesitant :
    ∃ satisfied s, pursue [.hesitant] {} ({}, ⟨.after Operation.slanted, #[]⟩) =
        .ok satisfied s ∧
      s.1.above = [0] ∧ ∀ b ∈ s.2.cluster.brokers, s.1.InLimits b :=
  Ends.exists_ok (by decide +kernel : Ends (pursue [.hesitant] {})
    ({}, ⟨.after Operation.slanted, #[]⟩)
    (fun _ s ↦ s.1.above = [0] ∧ ∀ b ∈ s.2.cluster.brokers, s.1.InLimits b) fun _ _ ↦ False)

/-- An empty broker, one with two replicas and a dead one with two. -/
def Operation.refilled : List Operation :=
  [.addBroker 0 none .alive, .addBroker 1 none .alive, .addBroker 2 none .dead,
    .place ⟨"a", 0⟩ 1 true {}, .place ⟨"b", 0⟩ 1 true {}, .place ⟨"c", 0⟩ 2 true {},
    .place ⟨"d", 0⟩ 2 true {}]

/-- The empty broker is recorded as under the lower limit, and then gets both replicas of the dead
one. So every alive broker ends within the limits, and yet the goal is not satisfied. -/
theorem alarm_outdated :
    ∃ satisfied s, pursue [] {} ({}, ⟨.after Operation.refilled, #[]⟩) = .ok satisfied s ∧
      satisfied = false ∧ s.1.under = [0] ∧ 0 ≤ s.1.limits.lower ∧
      s.1.limits.lower ≤ s.1.limits.upper ∧
      (∀ b ∈ s.2.cluster.brokers, b.isAlive = true → s.1.InLimits b) ∧
      ∀ r ∈ (Cluster.after Operation.refilled).replicas, r.load.of .disk ≠ .nan :=
  Ends.exists_ok (by decide +kernel : Ends (pursue [] {}) ({}, ⟨.after Operation.refilled, #[]⟩)
    (fun satisfied s ↦ satisfied = false ∧ s.1.under = [0] ∧ 0 ≤ s.1.limits.lower ∧
      s.1.limits.lower ≤ s.1.limits.upper ∧
      (∀ b ∈ s.2.cluster.brokers, b.isAlive = true → s.1.InLimits b) ∧
      ∀ r ∈ (Cluster.after Operation.refilled).replicas, r.load.of .disk ≠ .nan)
    fun _ _ ↦ False)

end Rebalance
