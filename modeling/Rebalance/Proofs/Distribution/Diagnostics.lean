import Rebalance.Proofs.Distribution.Records
import Rebalance.Proofs.History

/-!
# Exact diagnostics

In a plain run all brokers are alive and none is new, any replica may move, and there are no guards.
Then each broker is judged when it is tended, and no later step on another broker changes the
verdict: one that was recorded stays as it was left, and one that was not stays within the limits.
-/

namespace Rebalance

namespace DistributionGoal

variable {g g' : DistributionGoal} {guards : List Guard} {options : Options} {t t' : Stage}
  {candidates : List BrokerId} {i : ReplicaId} {r : Replica} {d e id id' : BrokerId} {b : Broker}
  {c : Cluster} {ids : List BrokerId}

/-! ## Verdicts that last -/

/-- What was recorded of a broker is right, and will not change. -/
inductive Judged (g : DistributionGoal) (guards : List Guard) (options : Options) (c : Cluster)
    (id : BrokerId) : Prop where
  | above : id ∈ g.above → id ∉ g.under → g.Clogged guards options c id →
    Judged g guards options c id
  | under : id ∉ g.above → id ∈ g.under → g.Starved guards options c id →
    Judged g guards options c id
  | balanced : id ∉ g.above → id ∉ g.under → g.limits.lower ≤ c.count id →
    (c.count id : Int) ≤ g.limits.upper → Judged g guards options c id

/-- While the limits are regarded, and where no broker is dead, a verdict is final. -/
theorem Judged.final (hlasting : ∀ γ ∈ guards, γ.IsLasting) (hdead : c.hasDead = false)
    (halive : c.Alive id) :
    Final guards options c id fun g c ↦ g.evacuating = false → g.Judged guards options c id where
  step {g t t' id'} h hstates hne hstep hjudged hev := by
    have hdead' := (Cluster.hasDead_congr hstates).trans hdead
    have halive' := (Cluster.alive_congr hstates).2 halive
    cases hjudged hev with
    | above habove hunder hclogged =>
      exact .above habove hunder (hclogged.step hlasting h hev hstep hne)
    | under habove hunder hstarved =>
      exact .under habove hunder (hstarved.step hlasting h hev hstep hne hdead' halive')
    | balanced habove hunder hlow hup =>
      obtain ⟨candidates, i, r, d, -, -, hmoves⟩ := hstep.exists_moves
      exact .balanced habove hunder (hmoves.lower_le_count h hev halive' hlow)
        (hmoves.count_le_upper h hev hup)
  congr halike habove hunder hjudged hev := by
    cases hjudged (halike.evacuating.symm.trans hev) with
    | above ha hu hclogged => exact .above (habove.2 ha) (mt hunder.1 hu) (hclogged.congr halike)
    | under ha hu hstarved => exact .under (mt habove.1 ha) (hunder.2 hu) (hstarved.congr halike)
    | balanced ha hu hlow hup =>
      refine .balanced (mt habove.1 ha) (mt hunder.1 hu) ?_ ?_
      · rwa [halike.limits]
      · rwa [halike.limits]

/-! ## Plain runs -/

/-- All brokers are alive and none is new, and any replica may move. -/
structure Plain (options : Options) (c : Cluster) : Prop where
  hasDead : c.hasDead = false
  hasNew : c.hasNew = false
  all : options.onlyImmigrants = false

theorem Plain.of_states (honly : options.onlyImmigrants = false)
    (halive : ∀ b ∈ c.brokers, b.state = .alive) : Plain options c := by
  refine ⟨?_, ?_, honly⟩
  · rw [← Bool.not_eq_true]
    intro hdead
    obtain ⟨b, hb, hstate⟩ := List.any_eq_true.1 hdead
    rw [Broker.isAlive, halive b hb] at hstate
    cases hstate
  · rw [← Bool.not_eq_true]
    intro hnew
    obtain ⟨b, hb, hstate⟩ := List.any_eq_true.1 hnew
    rw [Broker.isNew, halive b hb] at hstate
    cases hstate

theorem Plain.congr {c' : Cluster} (h : Plain options c) (hstates : c'.states = c.states) :
    Plain options c' where
  hasDead := (Cluster.hasDead_congr hstates).trans h.hasDead
  hasNew := (Cluster.hasNew_congr hstates).trans h.hasNew
  all := h.all

theorem Plain.admits (h : Plain options c) (r : Replica) :
    (criteria options).admits r = true := by
  rw [Criteria.admits, criteria, h.all]
  rfl

/-- In a plain run a tidy broker is within the limits. -/
theorem Plain.inLimits (h : Plain options c) (hb : c.broker? id = some b)
    (htidy : g.Tidy options c b) : g.InLimits b := by
  have halive := (alive_iff_isAlive hb).1 (Cluster.alive_of_hasDead_eq_false h.hasDead hb)
  cases htidy with
  | empty hdead => exact absurd halive (by simp [hdead])
  | native hdead => exact absurd halive (by simp [hdead])
  | exempt _ hex =>
    rcases (exempt_of_alive halive).1 hex with hin | ⟨hnew, -⟩ | ⟨himm, -⟩
    · exact hin
    · rw [h.hasNew] at hnew
      cases hnew
    · rw [h.hasDead, h.all] at himm
      exact himm.elim nofun nofun

/-- A broker is judged when it is tended. -/
theorem Tended.judged (hlasting : ∀ γ ∈ guards, γ.IsLasting) (ht : t.cluster.Sound)
    (hf : t.cluster.Faithful g.name (criteria options)) (hplain : Plain options t.cluster)
    (hev : g.evacuating = false)
    (hlimits : g.limits.lower ≤ g.limits.upper) (hnonneg : 0 ≤ g.limits.upper)
    (h : Tended guards options id g t (.ok ()) g' t') (habove : id ∉ g.above)
    (hunder : id ∉ g.under) : g'.Judged guards options t'.cluster id := by
  have halike := h.alike
  obtain ⟨ht', hstates⟩ := h.sound ht
  have hplain' := hplain.congr hstates
  have hbalanced : id ∉ g'.above → id ∉ g'.under → g'.Judged guards options t'.cluster id := by
    intro ha hu
    obtain ⟨b, hb, htidy⟩ := h.tidy hev (fun _ ↦ ⟨hlimits, hnonneg⟩) ht ha hu
    obtain ⟨hlow, hup⟩ := hplain'.inLimits hb htidy
    rw [← halike.limits, ← count_of_broker? hb] at hlow hup
    exact .balanced ha hu hlow hup
  cases h with
  | exempt => exact hbalanced habove hunder
  | balanced => exact hbalanced habove hunder
  | above hb _ hlowered =>
    obtain rfl := Cluster.id_of_broker? hb
    have halive := Cluster.alive_of_hasDead_eq_false hplain.hasDead hb
    have hclogged := hlowered.clogged hlasting ht hf hb hev ((alive_iff_isAlive hb).1 halive)
    exact .above (mem_insertAscending.2 (.inl rfl)) hunder (hclogged.congr halike)
  | under hb _ hlowered hraised =>
    obtain rfl := Cluster.id_of_broker? hb
    obtain rfl := hlowered.eq_of_not_tooMany (not_tooMany_of_tooFew hlimits hraised.tooFew)
    have hstarved := hraised.starved hlasting ht hf hb hlimits hplain.hasDead hstates ht'
    exact .under habove (mem_insertAscending.2 (.inl rfl)) (hstarved.congr halike)

/-- After a round every broker that was tended is judged. -/
theorem TendedAll.judged (hlasting : ∀ γ ∈ guards, γ.IsLasting) (ht : t.cluster.Sound)
    (hf : t.cluster.Faithful g.name (criteria options)) (hplain : Plain options t.cluster)
    (hev : g.evacuating = false) (hlimits : g.limits.lower ≤ g.limits.upper)
    (hnonneg : 0 ≤ g.limits.upper) (h : TendedAll guards options ids g t (.ok ()) g' t')
    (hids : ids.Nodup) (hid : id ∈ ids) (halive : t.cluster.Alive id) (habove : id ∉ g.above)
    (hunder : id ∉ g.under) : g'.Judged guards options t'.cluster id := by
  refine (Judged.final hlasting hplain.hasDead halive).tendedAll ht rfl ?_ (.refl g) h rfl hf
    (fun he ↦ absurd he (ne_true_of_eq_false hev)) hids (.inl ⟨hid, habove, hunder⟩)
    (h.alike.evacuating.trans hev)
  intro g₁ g₂ t₁ t₂ halike ht₁ hf₁ hstates _ ha hu htended _
  exact htended.judged hlasting ht₁ hf₁ (hplain.congr hstates) (halike.evacuating.trans hev)
    (by rwa [halike.limits]) (by rwa [halike.limits]) ha hu

/-- A verdict tells on which side of the limits a broker is. -/
theorem Judged.mem_iff (hlimits : g.limits.lower ≤ g.limits.upper)
    (h : g.Judged guards options c id) : (id ∈ g.above ↔ g.limits.upper < c.count id) ∧
      (id ∈ g.under ↔ (c.count id : Int) < g.limits.lower) := by
  cases h with
  | above habove hunder hclogged =>
    have hmany := hclogged.many
    exact ⟨iff_of_true habove hmany, iff_of_false hunder (by omega)⟩
  | under habove hunder hstarved =>
    have hfew := hstarved.few
    exact ⟨iff_of_false habove (by omega), iff_of_true hunder hfew⟩
  | balanced habove hunder hlow hup =>
    exact ⟨iff_of_false habove (by omega), iff_of_false hunder (by omega)⟩

/-- Some numbers are those of the brokers with a property. -/
structure Recorded (ids : List BrokerId) (c : Cluster) (P : Broker → Prop) : Prop where
  there : ∀ id ∈ ids, ∃ b ∈ c.brokers, b.id = id
  iff : ∀ b ∈ c.brokers, b.id ∈ ids ↔ P b

namespace Recorded

variable {P : Broker → Prop}

theorem mem_iff (h : Recorded ids c P) : id ∈ ids ↔ ∃ b ∈ c.brokers, b.id = id ∧ P b := by
  constructor
  · intro hid
    obtain ⟨b, hb, rfl⟩ := h.there id hid
    exact ⟨b, hb, rfl, (h.iff b hb).1 hid⟩
  · rintro ⟨b, hb, rfl, hP⟩
    exact (h.iff b hb).2 hP

theorem isEmpty_iff (h : Recorded ids c P) : ids.isEmpty = true ↔ ∀ b ∈ c.brokers, ¬ P b := by
  rw [List.isEmpty_iff, List.eq_nil_iff_forall_not_mem]
  constructor
  · intro hnone b hb hP
    exact hnone b.id ((h.iff b hb).2 hP)
  · intro hnone id hid
    obtain ⟨b, hb, rfl⟩ := h.there id hid
    exact hnone b hb ((h.iff b hb).1 hid)

end Recorded

/-- A plain pursuit ends after one round, and then what it recorded of each broker is right. -/
theorem Pursued.recorded {satisfied : Bool} (ht : t.cluster.Sound)
    (hplain : Plain options t.cluster) (hdisk : ∀ r ∈ t.cluster.replicas, r.load.of .disk ≠ .nan)
    (h : Pursued [] options g t (.ok satisfied) g' t') (hlow : 0 ≤ g'.limits.lower)
    (hlimits : g'.limits.lower ≤ g'.limits.upper) :
    satisfied = (g'.above.isEmpty && g'.under.isEmpty) ∧
      Recorded g'.above t'.cluster (g'.limits.upper < ·.count) ∧
      Recorded g'.under t'.cluster fun b ↦ (b.count : Int) < g'.limits.lower := by
  have htracked := ht.track g.name (criteria options)
  have hplain' := hplain.congr (Cluster.states_track g.name (criteria options) t.cluster)
  obtain ⟨limits, g₁, t₁, g₂, t₂, htended, hclosed, hsatisfied, hends⟩ := h.exists_round
  obtain ⟨hsound, hstates⟩ := htended.sound htracked
  have halike := htended.alike
  have hdead := (hplain'.congr hstates).hasDead
  rcases hends with ⟨-, rfl, rfl⟩ | ⟨hleft, -⟩
  swap
  · exact absurd (unemptied_eq_nil hdead) hleft
  cases hclosed with
  | relaxed hleft => exact absurd (unemptied_eq_nil hdead) hleft
  | finished =>
    have hids := Cluster.ids_congr hstates
    have hthere : ∀ id, id ∈ g₁.above ∨ id ∈ g₁.under →
        ∃ b ∈ (g₁.released t₁).cluster.brokers, b.id = id := by
      intro id hid
      have hmem := htended.mem_of_recorded rfl rfl hid
      change id ∈ (g.tracked options t).cluster.brokers.map Broker.id at hmem
      rw [← hids, ← Cluster.ids_congr (Cluster.states_untrack g₁.name _)] at hmem
      exact List.mem_map.1 hmem
    have hright : ∀ b ∈ (g₁.released t₁).cluster.brokers,
        (b.id ∈ g₁.above ↔ g₁.limits.upper < b.count) ∧
          (b.id ∈ g₁.under ↔ (b.count : Int) < g₁.limits.lower) := by
      rw [released, Cluster.untrack, List.forall_mem_map]
      intro b hb
      have hfound := hsound.broker?_of_mem hb
      have halive := Cluster.alive_of_hasDead_eq_false hdead hfound
      have hid : b.id ∈ (g.tracked options t).cluster.brokers.map Broker.id := by
        rw [← hids]
        exact List.mem_map_of_mem hb
      have hjudged := htended.judged (by simp) htracked (faithful_tracked ht hdisk g options)
        hplain' rfl (halike.limits ▸ hlimits) (halike.limits ▸ hlow.trans hlimits)
        htracked.ids_nodup hid ((Cluster.alive_congr hstates).1 halive) List.not_mem_nil
        List.not_mem_nil
      have hmem := hjudged.mem_iff (g := g₁) hlimits
      rwa [count_of_broker? hfound] at hmem
    refine ⟨?_, ⟨fun id hid ↦ hthere id (.inl hid), fun b hb ↦ (hright b hb).1⟩,
      fun id hid ↦ hthere id (.inr hid), fun b hb ↦ (hright b hb).2⟩
    change satisfied = (g₁.succeeded && g₁.above.isEmpty && g₁.under.isEmpty) at hsatisfied
    rw [halike.succeeded] at hsatisfied
    exact hsatisfied

end DistributionGoal

/-- After any history that left all brokers alive and none of them new, with disk loads that are
numbers: a pursuit without guards that ends in a result, in which any replica may move, has recorded
just the brokers that end above the upper limit and just those that end under the lower one, and it
is satisfied exactly if every broker ends within the limits. -/
theorem recorded_exactly (operations : List Operation) {g g' : DistributionGoal} {options : Options}
    {satisfied : Bool} {p' : Plan}
    (halive : ∀ b ∈ (Cluster.after operations).brokers, b.state = .alive)
    (hdisk : ∀ r ∈ (Cluster.after operations).replicas, r.load.of .disk ≠ .nan)
    (honly : options.onlyImmigrants = false)
    (h : DistributionGoal.pursue [] options (g, { cluster := .after operations }) =
      .ok satisfied (g', p'))
    (hlow : 0 ≤ g'.limits.lower) (hlimits : g'.limits.lower ≤ g'.limits.upper) :
    (∀ id, id ∈ g'.above ↔ ∃ b ∈ p'.cluster.brokers, b.id = id ∧ g'.limits.upper < b.count) ∧
      (∀ id, id ∈ g'.under ↔
        ∃ b ∈ p'.cluster.brokers, b.id = id ∧ (b.count : Int) < g'.limits.lower) ∧
      (satisfied = true ↔ ∀ b ∈ p'.cluster.brokers, g'.InLimits b) := by
  have hsound := Cluster.sound_after operations
  have hpursued :=
    (DistributionGoal.comes_pursue (p := { cluster := .after operations }) hsound).of_ok h
  obtain ⟨hsatisfied, habove, hunder⟩ := hpursued.recorded hsound
    (.of_states honly halive) hdisk hlow hlimits
  refine ⟨fun id ↦ habove.mem_iff, fun id ↦ hunder.mem_iff, ?_⟩
  rw [hsatisfied, Bool.and_eq_true, habove.isEmpty_iff, hunder.isEmpty_iff]
  constructor
  · rintro ⟨hmany, hfew⟩ b hb
    exact ⟨Int.not_lt.1 (hfew b hb), Int.not_lt.1 (hmany b hb)⟩
  · intro hin
    exact ⟨fun b hb ↦ Int.not_lt.2 (hin b hb).2, fun b hb ↦ Int.not_lt.2 (hin b hb).1⟩

/-- One broker with five replicas, one with another replica, and an empty one. -/
def Operation.heaped : List Operation :=
  [.addBroker 0 none .alive, .addBroker 1 none .alive, .addBroker 2 none .alive,
    .place ⟨"a", 0⟩ 0 true {}, .place ⟨"b", 0⟩ 0 true {}, .place ⟨"b", 1⟩ 0 true {},
    .place ⟨"b", 2⟩ 0 true {}, .place ⟨"b", 3⟩ 0 true {}, .place ⟨"b", 4⟩ 1 true {}]

/-- All but one of the five have to stay, so that the first broker is left above the upper limit. -/
theorem recorded_exactly_above :
    ∃ satisfied g' p', DistributionGoal.pursue [] { excludedTopics := ["b"] }
        ({}, { cluster := .after Operation.heaped }) = .ok satisfied (g', p') ∧ g'.above = [0] ∧
      (∀ id, id ∈ g'.above ↔ ∃ b ∈ p'.cluster.brokers, b.id = id ∧ g'.limits.upper < b.count) ∧
      (∀ id, id ∈ g'.under ↔
        ∃ b ∈ p'.cluster.brokers, b.id = id ∧ (b.count : Int) < g'.limits.lower) ∧
      (satisfied = true ↔ ∀ b ∈ p'.cluster.brokers, g'.InLimits b) := by
  obtain ⟨satisfied, ⟨g', p'⟩, h, habove, hlow, hlimits⟩ := Ends.exists_ok (by decide +kernel :
    Ends (DistributionGoal.pursue [] { excludedTopics := ["b"] })
      ({}, { cluster := .after Operation.heaped })
      (fun _ s ↦ s.1.above = [0] ∧ 0 ≤ s.1.limits.lower ∧ s.1.limits.lower ≤ s.1.limits.upper)
      fun _ _ ↦ False)
  exact ⟨satisfied, g', p', h, habove,
    recorded_exactly _ (by decide +kernel) (by decide +kernel) rfl h hlow hlimits⟩

end Rebalance
