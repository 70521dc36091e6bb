import Rebalance.Proofs.Distribution.Verdict
import Rebalance.Proofs.Distribution.Views
import Rebalance.Proofs.History

/-!
# When the goal is satisfied

The goal is called satisfied only after a single round that recorded no broker. Had replicas stayed
on a dead broker in that round, they would have stayed because none of them is an immigrant and only
immigrants may move; then the second round leaves them as well, and the pursuit fails.
-/

namespace Rebalance

open DistributionGoal

/-! ## Stranded brokers -/

/-- A dead broker has replicas, but no immigrants. -/
def Cluster.Stranded (c : Cluster) (id : BrokerId) : Prop :=
  ∃ b, c.broker? id = some b ∧ b.isAlive = false ∧ 0 < b.count ∧ b.immigrants = []

namespace DistributionGoal

variable {g g' : DistributionGoal} {guards : List Guard} {options : Options} {t t' : Stage}
  {candidates : List BrokerId} {i : ReplicaId} {r : Replica} {d id id' : BrokerId} {b : Broker}
  {c : Cluster} {enough : Int} {replicas : List ReplicaId} {s : BrokerSet}

theorem Moves.stranded (h : t.cluster.Sound)
    (hmoves : g.Moves guards options t candidates i r d t') (hs : id ≠ r.broker)
    (hstr : t.cluster.Stranded id) : t'.cluster.Stranded id := by
  obtain ⟨b, hb, hdead, hpos, hnone⟩ := hstr
  obtain ⟨b', hb', hfollows⟩ := hmoves.follows h hb
  have hd : id ≠ d := by
    rintro rfl
    have halive := (alive_iff_isAlive hb).1 (hmoves.fits h).alive
    rw [hdead] at halive
    cases halive
  have hcount := hfollows.count
  rw [if_neg hd, if_neg hs] at hcount
  exact ⟨b', hb', hfollows.isAlive_eq.trans hdead, by omega, hfollows.immigrants hd hnone⟩

/-- Draining a broker takes nothing from another one that is stranded. -/
theorem Drained.stranded {x : Except Fault Bool} (ht : t.cluster.Sound)
    (h : g.Drained guards options id enough replicas s t x t') {many : Bool} (hx : x = .ok many)
    (haround : t.cluster.Around id replicas) (hne : id' ≠ id) (hstr : t.cluster.Stranded id') :
    t'.cluster.Stranded id' := by
  have hsource : ∀ {t : Stage} {i : ReplicaId} {rest : List ReplicaId} {r : Replica},
      t.cluster.Around id (i :: rest) → t.cluster.replica? i = some r →
      t.cluster.Stranded id' → id' ≠ r.broker := by
    rintro t i rest r haround hr ⟨b, hb, hdead, -⟩ rfl
    rcases haround i List.mem_cons_self r hr with heq | halive
    · exact hne heq
    · exact Cluster.not_dead_of_alive halive ⟨b, hb, hdead⟩
  induction h with
  | spent => exact hstr
  | skipped _ _ ih => exact ih ht hx (haround.mono (List.subset_cons_self _ _)) hstr
  | moved hmoves _ _ ih =>
    have hstr' := hmoves.stranded ht (hsource haround hmoves.replica hstr) hstr
    have haround' := (hmoves.around ht haround).mono (List.subset_cons_self _ _)
    exact ih (hmoves.relocated.sound ht) hx haround' hstr'
  | sufficed hmoves _ => exact hmoves.stranded ht (hsource haround hmoves.replica hstr) hstr
  | failed => cases hx

theorem Lowered.stranded {many : Bool} (ht : t.cluster.Sound)
    (h : g.Lowered guards options b t (.ok many) t') (hloyal : t.cluster.Loyal g.name)
    (hb : t.cluster.broker? b.id = some b) (hne : id ≠ b.id) (hstr : t.cluster.Stranded id) :
    t'.cluster.Stranded id := by
  cases h with
  | untouched => exact hstr
  | drained _ hview hdrained =>
    refine hdrained.stranded ht rfl ?_ hne hstr
    refine hloyal b (Cluster.mem_of_broker? hb) _ ?_
    unfold Broker.view at hview
    split at hview
    · rename_i v hv
      rw [hv, Except.ok.inj hview]
    · cases hview

/-- A stranded broker is left alone when it is tended, as only immigrants may move. -/
theorem Tended.stranded (ht : t.cluster.Sound) (h : Tended guards options id g t (.ok ()) g' t')
    (hloyal : t.cluster.Loyal g.name) (honly : options.onlyImmigrants = true)
    (hid : t.cluster.Dead id) (hstr : t.cluster.Stranded id') : t'.cluster.Stranded id' := by
  have hne : ∀ {b : Broker}, t.cluster.broker? id = some b → ¬ g.Exempt options t.cluster b →
      id' ≠ id := by
    rintro b hb hex rfl
    obtain ⟨b', hb', hdead, hpos, hnone⟩ := hstr
    rw [hb] at hb'
    obtain rfl := Option.some.inj hb'
    refine hex (.native (.inr honly) ?_ hnone)
    rw [TooMany, ceiling_of_dead hdead]
    exact Int.natCast_pos.2 hpos
  have hfew : ∀ {b : Broker}, t.cluster.broker? id = some b → ¬ g.TooFew b := by
    intro b hb hfew
    exact Cluster.not_dead_of_alive ⟨b, hb, hfew.1⟩ hid
  cases h with
  | exempt => exact hstr
  | above hb hex hlowered =>
    have hne' := hne hb hex
    obtain rfl := Cluster.id_of_broker? hb
    exact hlowered.stranded ht hloyal hb hne' hstr
  | under hb hex hlowered hraised =>
    have hne' := hne hb hex
    obtain rfl := hraised.eq_of_not_tooFew (hfew hb)
    obtain rfl := Cluster.id_of_broker? hb
    exact hlowered.stranded ht hloyal hb hne' hstr
  | balanced hb hex hlowered hraised =>
    have hne' := hne hb hex
    obtain rfl := hraised.eq_of_not_tooFew (hfew hb)
    obtain rfl := Cluster.id_of_broker? hb
    exact hlowered.stranded ht hloyal hb hne' hstr

theorem TendedAll.stranded {ids : List BrokerId} {x : Except Fault Unit} (ht : t.cluster.Sound)
    (h : TendedAll guards options ids g t x g' t') (hx : x = .ok ())
    (hloyal : t.cluster.Loyal g.name) (honly : options.onlyImmigrants = true)
    (hids : ∀ id ∈ ids, t.cluster.Dead id) (hstr : t.cluster.Stranded id') :
    t'.cluster.Stranded id' := by
  induction h with
  | nil => exact hstr
  | @cons id rest g g₁ _ t t₁ _ _ htended _ ih =>
    rw [List.forall_mem_cons] at hids
    obtain ⟨hsound, hstates⟩ := htended.sound ht
    obtain ⟨b, hb, -⟩ := hids.1
    have hloyal' : Course t.cluster.states (Cluster.Loyal g.name) t₁ :=
      (Law.loyal g guards options t.cluster.states g.name).tended htended hb ⟨ht, rfl, hloyal⟩
    have hdead : ∀ id ∈ rest, t₁.cluster.Dead id := fun id hid ↦
      (Cluster.dead_congr hstates).2 (hids.2 id hid)
    have hname : t₁.cluster.Loyal g₁.name := by
      rw [htended.alike.name]
      exact hloyal'.holds
    exact ih hsound hx hname hdead (htended.stranded ht hloyal honly hids.1 hstr)
  | failed => cases hx

/-- A round that evacuates dead brokers fails while one of them is stranded. -/
theorem not_rounded_of_stranded (ht : t.cluster.Sound) (hev : g.evacuating = true)
    (hloyal : t.cluster.Loyal g.name) (honly : options.onlyImmigrants = true)
    (hstr : t.cluster.Stranded id) : ¬ Rounded guards options g t (.ok ()) g' t' := by
  intro h
  cases h with
  | tended htended hclosed =>
    obtain ⟨hsound, -⟩ := htended.sound ht
    obtain ⟨b, hb, hdead, hpos, -⟩ := htended.stranded ht rfl hloyal honly
      (fun _ ↦ (mem_brokersToBalance_iff ht hev).1) hstr
    have hleft := (mem_unemptied hsound).2 ⟨b, hb, hdead, hpos⟩
    cases hclosed with
    | finished hnone =>
      rw [hnone] at hleft
      cases hleft
    | relaxed _ hev' =>
      rw [htended.alike.evacuating, hev] at hev'
      cases hev'

/-! ## The verdict on a pursuit -/

/-- A round that ends with the goal satisfied leaves every broker tidy. -/
theorem TendedAll.tidy_of_succeeded {g₁ : DistributionGoal} {t₁ : Stage} (ht : t.cluster.Sound)
    (h : TendedAll guards options ((g.brokersToBalance t.cluster).map Broker.id) g t (.ok ()) g₁ t₁)
    (hclosed : Closed g₁ t₁ (.ok ()) g' t') (hsucceeded : g'.succeeded = true)
    (hev : g.evacuating = false) :
    ∀ b ∈ t₁.cluster.brokers, g.Allows t.cluster b.id → g.Tidy options t₁.cluster b := by
  rw [hclosed.succeeded_eq, Bool.and_eq_true, Bool.and_eq_true, List.isEmpty_iff,
    List.isEmpty_iff] at hsucceeded
  obtain ⟨hsound, hstates⟩ := h.sound ht
  intro b hb hallows
  have hid : b.id ∈ (g.brokersToBalance t.cluster).map Broker.id := by
    unfold brokersToBalance
    rw [if_neg (by simp [hev]), ← Cluster.ids_congr hstates]
    exact List.mem_map_of_mem hb
  obtain ⟨b', hb', htidy⟩ := h.tidy hev ht rfl mem_brokersToBalance hsucceeded.1.2 hsucceeded.2
    b.id hid hallows
  rw [hsound.broker?_of_mem hb] at hb'
  rwa [Option.some.inj hb']

/-- A broker that is tidy remains so when the views are given up. -/
theorem Tidy.untrack (h : g.Tidy options c b) (name : String) (views : Roster String View) :
    g.Tidy options (c.untrack name) { b with views } := by
  have hnew := Cluster.hasNew_congr (Cluster.states_untrack name c)
  have hdead := Cluster.hasDead_congr (Cluster.states_untrack name c)
  cases h with
  | empty hdead hzero => exact .empty hdead hzero
  | native hdead honly hnone => exact .native hdead honly hnone
  | exempt ha hex =>
    refine .exempt ha ?_
    cases hex with
    | settled _ hfew hmany => exact .settled ha hfew hmany
    | deferred hnew' hfew hold => exact .deferred (hnew.trans hnew') hfew hold
    | native himm hmany hnone =>
      exact .native (himm.imp_left fun h ↦ ⟨hdead.trans h.1, h.2⟩) hmany hnone

/-- A round that ends with the goal satisfied began with it satisfied. -/
theorem Rounded.of_succeeded (h : Rounded guards options g t (.ok ()) g' t')
    (hsucceeded : g'.succeeded = true) : g.succeeded = true ∧ g'.limits = g.limits := by
  cases h with
  | tended htended hclosed =>
    rw [hclosed.succeeded_eq, htended.alike.succeeded, Bool.and_assoc, Bool.and_eq_true]
      at hsucceeded
    exact ⟨hsucceeded.1, hclosed.limits_eq.trans htended.alike.limits⟩

/-- A round that recorded no broker left replicas only on dead brokers that are stranded, and so the
next round fails. -/
theorem TendedAll.not_rounded {g₁ g₂ : DistributionGoal} {t₁ : Stage} (ht : t.cluster.Sound)
    (hloyal : t.cluster.Loyal g.name)
    (h : TendedAll guards options ((g.brokersToBalance t.cluster).map Broker.id) g t (.ok ()) g₁ t₁)
    (hclosed : Closed g₁ t₁ (.ok ()) g₂ t₁) (hleft : unemptied t₁.cluster ≠ [])
    (hsucceeded : g₂.succeeded = true) (hev : g.evacuating = false)
    (hev' : g₂.evacuating = true) : ¬ Rounded guards options g₂ t₁ (.ok ()) g' t' := by
  have htidy := h.tidy_of_succeeded ht hclosed hsucceeded hev
  obtain ⟨hsound, hstates⟩ := h.sound ht
  obtain ⟨id, hid⟩ := List.exists_mem_of_ne_nil _ hleft
  obtain ⟨b, hb, hdead, hpos⟩ := (mem_unemptied hsound).1 hid
  have hcourse := (Law.loyal g guards options _ g.name).tendedAll (fun t ht ↦ ht.sound) h
    mem_brokersToBalance ⟨ht, rfl, hloyal⟩
  have hname : g₂.name = g.name := hclosed.name_eq.trans h.alike.name
  have hallows : g.Allows t.cluster b.id := fun halive ↦ by
    refine absurd ⟨b, ?_, hdead⟩
      (Cluster.not_dead_of_alive ((Cluster.alive_congr hstates).2 halive))
    rwa [Cluster.id_of_broker? hb]
  cases htidy b (Cluster.mem_of_broker? hb) hallows with
  | empty _ hzero => omega
  | native _ honly hnone =>
    exact not_rounded_of_stranded hsound hev' (hname ▸ hcourse.holds) honly
      ⟨b, hb, hdead, hpos, hnone⟩
  | exempt halive => exact absurd halive (by simp [hdead])

/-- If a pursuit ends with the goal satisfied, every dead broker is empty, and every alive one is
within the limits or spared. -/
theorem Pursued.tidy (ht : t.cluster.Sound) (h : Pursued guards options g t (.ok true) g' t')
    (hlow : 0 ≤ g'.limits.lower) (hlimits : g'.limits.lower ≤ g'.limits.upper) :
    ∀ b ∈ t'.cluster.brokers, (b.isAlive = false → b.count = 0) ∧
      (b.isAlive = true → g'.InLimits b ∨ g'.Spared options t'.cluster b) := by
  have htracked := ht.track g.name (criteria options)
  obtain ⟨limits, g₁, t₁, g₂, t₂, htended, hclosed, hsucceeded, hends⟩ := h.exists_round
  rcases hends with ⟨hnone, rfl, rfl⟩ | ⟨hleft, hev, rfl, hround⟩
  · have htidy := htended.tidy_of_succeeded htracked hclosed hsucceeded.symm rfl
    obtain ⟨hsound, -⟩ := htended.sound htracked
    rw [released, Cluster.untrack, List.forall_mem_map]
    intro b hb
    refine ⟨count_eq_zero_of_unemptied hsound hnone b hb, fun halive ↦ ?_⟩
    have hgoal := hclosed.limits_eq.trans htended.alike.limits
    rw [hgoal] at hlow hlimits
    have htidy' := htidy b hb fun _ ↦ ⟨hlimits, hlow.trans hlimits⟩
    cases (htidy'.congr hgoal).untrack g₁.name (b.views.without g₁.name) with
    | exempt _ hex => exact (exempt_of_alive halive).1 hex
    | empty hdead => exact absurd halive (by simp [hdead])
    | native hdead => exact absurd halive (by simp [hdead])
  · obtain ⟨hsucceeded', -⟩ := hround.of_succeeded hsucceeded.symm
    have hloyal := ht.loyal_track g.name (criteria options)
    exact absurd hround (htended.not_rounded htracked hloyal hclosed hleft hsucceeded' rfl hev)

end DistributionGoal

/-- After any history, a pursuit that ends with the goal satisfied leaves every dead broker empty;
and an alive broker is left outside the limits exactly if it is spared, as new brokers come first or
as only immigrants may leave it. -/
theorem outside_limits_iff_spared (operations : List Operation) {g g' : DistributionGoal}
    {guards : List Guard} {options : Options} {p' : Plan}
    (h : pursue guards options (g, { cluster := .after operations }) = .ok true (g', p'))
    (hlow : 0 ≤ g'.limits.lower) (hlimits : g'.limits.lower ≤ g'.limits.upper) :
    ∀ b ∈ p'.cluster.brokers, (b.isAlive = false → b.count = 0) ∧
      (b.isAlive = true → (¬ g'.InLimits b ↔ g'.Spared options p'.cluster b)) := by
  have hsound := Cluster.sound_after operations
  have hpursued := (comes_pursue (p := { cluster := .after operations }) hsound).of_ok h
  intro b hb
  obtain ⟨hdead, halive⟩ := hpursued.tidy hsound hlow hlimits b hb
  refine ⟨hdead, fun ha ↦ ⟨fun hout ↦ ?_, Spared.not_inLimits⟩⟩
  rcases halive ha with hin | hspared
  · exact absurd hin hout
  · exact hspared

/-- The only replica is on a dead broker. -/
def Operation.bereft : List Operation :=
  [.addBroker 0 none .alive, .addBroker 1 none .dead, .place ⟨"a", 0⟩ 1 true {}]

/-- It goes to the alive broker, and that is all there is to do. -/
theorem outside_limits_iff_spared_evacuated :
    ∃ g' p', pursue [] {} ({}, { cluster := .after Operation.bereft }) = .ok true (g', p') ∧
      ∀ b ∈ p'.cluster.brokers, (b.isAlive = false → b.count = 0) ∧
        (b.isAlive = true → (¬ g'.InLimits b ↔ g'.Spared {} p'.cluster b)) := by
  obtain ⟨_, ⟨g', p'⟩, h, rfl, hlow, hlimits⟩ := Ends.exists_ok (by decide +kernel :
    Ends (pursue [] {}) ({}, { cluster := .after Operation.bereft })
      (fun x s ↦ x = true ∧ 0 ≤ s.1.limits.lower ∧ s.1.limits.lower ≤ s.1.limits.upper)
      fun _ _ ↦ False)
  exact ⟨g', p', h, outside_limits_iff_spared _ h hlow hlimits⟩

/-- Three replicas on one broker, one on two others each and none on a dead one. -/
def Operation.tilted : List Operation :=
  [.addBroker 0 none .alive, .addBroker 1 none .alive, .addBroker 2 none .alive,
    .addBroker 3 none .dead, .place ⟨"a", 0⟩ 0 true {}, .place ⟨"b", 0⟩ 0 true {},
    .place ⟨"c", 0⟩ 0 true {}, .place ⟨"d", 0⟩ 1 true {}, .place ⟨"e", 0⟩ 2 true {}]

/-- The goal is called satisfied although no alive broker should hold more than two. -/
theorem satisfied_outside_limits :
    ∃ g' p', pursue [] {} ({}, { cluster := .after Operation.tilted }) = .ok true (g', p') ∧
      0 ≤ g'.limits.lower ∧ g'.limits.lower ≤ g'.limits.upper ∧
      ∃ b ∈ p'.cluster.brokers, b.isAlive = true ∧ ¬ g'.InLimits b := by
  obtain ⟨_, ⟨g', p'⟩, h, rfl, hlimits⟩ := Ends.exists_ok (by decide +kernel :
    Ends (pursue [] {}) ({}, { cluster := .after Operation.tilted })
      (fun x s ↦ x = true ∧ 0 ≤ s.1.limits.lower ∧ s.1.limits.lower ≤ s.1.limits.upper ∧
        ∃ b ∈ s.2.cluster.brokers, b.isAlive = true ∧ ¬ s.1.InLimits b)
      fun _ _ ↦ False)
  exact ⟨g', p', h, hlimits⟩

end Rebalance
