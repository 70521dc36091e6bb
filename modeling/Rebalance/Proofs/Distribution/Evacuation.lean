import Rebalance.Proofs.Distribution.Faultless

/-!
# Evacuation

In the second round a replica that leaves a dead broker may go to any alive one that is without its
partition. There is one exactly as long as no partition has more copies than there are alive
brokers; then the round leaves every dead broker empty, and otherwise it cannot.
-/

namespace Rebalance

/-- Whether a fault says that a goal was not reached. -/
def Fault.isFailure : Fault → Bool
  | .noAliveBroker _ | .deadBrokersLeft .. | .worseStatistics .. => true
  | _ => false

namespace DistributionGoal

variable {measured : Resource → Prop} {g g' : DistributionGoal} {guards : List Guard}
  {options : Options} {t t' : Stage} {i : ReplicaId} {r : Replica} {id : BrokerId} {b : Broker}
  {c : Cluster}

/-! ## Dead brokers -/

/-- Options that let every replica leave a dead broker, for any alive one. -/
structure Unrestricted (options : Options) : Prop where
  excludedBrokers : options.excludedBrokers = []
  onlyImmigrants : options.onlyImmigrants = false

/-- Evacuating, nothing on a dead broker is stuck if copies can be spread. -/
theorem not_stuck (h : c.Stable measured) (hspread : c.Spreadable) (hfree : Unrestricted options)
    (hev : g.evacuating = true) (hon : c.On id i r) (hdead : c.Dead id) :
    ¬ g.Stuck [] options c r := by
  rw [← h.broker_of_on hon] at hdead
  obtain ⟨d, halive, hvacant⟩ := h.exists_vacant hspread hon.replica?_eq hdead
  rintro (hstay | hnone)
  · exact Cluster.not_dead_of_alive (mustStay_iff.1 hstay).2 hdead
  · refine hnone d ⟨⟨?_, ?_, halive, hvacant, .inl ⟨hev, hdead⟩⟩, by simp⟩
    · rintro rfl
      exact Cluster.not_dead_of_alive halive hdead
    · rw [Options.allows, hfree.excludedBrokers]
      rfl

/-- Nothing comes to a dead broker. -/
theorem Law.empty (g : DistributionGoal) (guards : List Guard) (options : Options)
    (states : List (BrokerId × BrokerState)) (id : BrokerId) :
    g.Law guards options (Course states fun c ↦ c.Dead id ∧ c.count id = 0) fun _ _ ↦ True := by
  refine Course.of_moves fun {t t' candidates i r d} hsound _ ⟨hdead, hzero⟩ hmoves ↦ ?_
  refine ⟨(Cluster.dead_congr hmoves.relocated.states_eq).2 hdead, ?_⟩
  have hne : id ≠ d := by
    rintro rfl
    exact Cluster.not_dead_of_alive (hmoves.fits hsound).alive hdead
  have hcount := hmoves.relocated.count_eq hsound id
  rw [if_neg hne, hzero] at hcount
  split at hcount <;> omega

/-! ## The second round -/

section

variable (ht : t.cluster.Intact measured g.name (criteria options))
  (hspread : t.cluster.Spreadable) (hfree : Unrestricted options) (hev : g.evacuating = true)

include ht hspread hfree hev

/-- Tending a dead broker empties it. -/
theorem Tended.count_eq_zero (hdead : t.cluster.Dead id)
    (h : Tended [] options id g t (.ok ()) g' t') : t'.cluster.count id = 0 := by
  have hdead' : ∀ {b}, t.cluster.broker? id = some b → b.isAlive = false := fun hb ↦
    (dead_iff_isAlive hb).1 hdead
  cases h with
  | exempt hb hex =>
    obtain ⟨honly, -⟩ := hex.of_dead (hdead' hb)
    rw [hfree.onlyImmigrants] at honly
    cases honly
  | above hb _ hlowered =>
    obtain rfl := Cluster.id_of_broker? hb
    have law := Law.intact g [] options t.cluster.states measured g.name t.cluster.Spreadable
    have hcourse := law.lowered hb hlowered ⟨ht.toSound, rfl, ht, Iff.rfl⟩
    obtain ⟨ht', hspread'⟩ := hcourse.holds
    have hmore := hlowered.more ht.toSound ht.faithful hb fun _ ↦ hdead' hb
    rw [ceiling_of_dead (hdead' hb)] at hmore
    obtain ⟨i, r, hon⟩ := ht'.toSound.exists_on (Int.natCast_pos.1 hmore)
    have hadmits : (criteria options).admits r = true := by
      rw [Criteria.admits, criteria, hfree.onlyImmigrants]
      rfl
    refine absurd (hlowered.stuck ht.toSound ht.faithful hb (fun _ ↦ hdead' hb) (by simp) hon
      hadmits) ?_
    refine not_stuck ht'.toStable (hspread'.2 hspread) hfree hev hon ?_
    rwa [Cluster.dead_congr hcourse.states_eq]
  | under hb _ _ hraised =>
    cases hraised with
    | filled hfew => exact absurd hfew (not_tooFew_of_dead (hdead' hb))
  | balanced hb _ hlowered hraised =>
    obtain rfl := Cluster.id_of_broker? hb
    obtain rfl := hraised.eq_of_not_tooFew (not_tooFew_of_dead (hdead' hb))
    exact hlowered.count_eq_zero hb (hdead' hb)

end

/-- A round over dead brokers empties them all. -/
theorem TendedAll.count_eq_zero {ids : List BrokerId} {x : Except Fault Unit}
    (h : TendedAll [] options ids g t x g' t') (hx : x = .ok ())
    (ht : t.cluster.Intact measured g.name (criteria options)) (hspread : t.cluster.Spreadable)
    (hfree : Unrestricted options) (hev : g.evacuating = true)
    (hids : ∀ id ∈ ids, t.cluster.Dead id) : ∀ id ∈ ids, t'.cluster.count id = 0 := by
  induction h with
  | nil => simp
  | @cons id rest g g₁ g' t t₁ t' x htended hrest ih =>
    subst hx
    rw [List.forall_mem_cons] at hids
    obtain ⟨hdead, hids⟩ := hids
    obtain ⟨b, hb⟩ := hdead.imp fun _ ↦ And.left
    have hzero := htended.count_eq_zero ht hspread hfree hev hdead
    have halike := htended.alike
    have law := Law.intact g [] options t.cluster.states measured g.name t.cluster.Spreadable
    have hcourse := law.tended htended hb ⟨ht.toSound, rfl, ht, Iff.rfl⟩
    obtain ⟨ht₁, hspread₁⟩ := hcourse.holds
    have hids₁ : ∀ id ∈ rest, t₁.cluster.Dead id := fun id hid ↦
      (Cluster.dead_congr hcourse.states_eq).2 (hids id hid)
    rw [List.forall_mem_cons]
    constructor
    · have hkeeps := (Law.empty g₁ [] options t.cluster.states id).tendedAll (fun t ht ↦ ht.sound)
        hrest ?_ ⟨hcourse.sound, hcourse.states_eq, (Cluster.dead_congr hcourse.states_eq).2 hdead,
          hzero⟩
      · exact hkeeps.holds.2
      · intro id hid
        obtain ⟨b, hb, -⟩ := hids₁ id hid
        exact Cluster.exists_broker?_iff.1 ⟨b, hb⟩
    · exact ih rfl (halike.name ▸ ht₁) (hspread₁.2 hspread) (halike.evacuating.trans hev) hids₁
  | failed => cases hx

/-- A round tends all brokers, and then is closed. -/
theorem Rounded.exists_tended {x : Except Fault Unit} (h : Rounded [] options g t x g' t')
    (ht : t.cluster.Intact measured g.name (criteria options)) :
    ∃ g₁ t₁, TendedAll [] options ((g.brokersToBalance t.cluster).map Broker.id) g t (.ok ()) g₁
        t₁ ∧
      Closed g₁ t₁ x g' t' ∧ Course t.cluster.states (fun c ↦
        c.Intact measured g.name (criteria options) ∧
          (c.Spreadable ↔ t.cluster.Spreadable)) t₁ := by
  cases h with
  | tended htended hclosed =>
    have law := Law.intact g [] options t.cluster.states measured g.name t.cluster.Spreadable
    have hcourse := law.tendedAll (fun t ht ↦ ht.sound) htended mem_brokersToBalance
      ⟨ht.toSound, rfl, ht, Iff.rfl⟩
    exact ⟨_, _, htended, hclosed, hcourse⟩
  | failed htended =>
    cases htended.eq_ok ht mem_brokersToBalance

/-- If the first round leaves replicas on dead brokers, the second one begins with the cluster as
intact as it was, and evacuates. -/
theorem Rounded.of_not_finished (h : Rounded [] options g t (.ok ()) g' t')
    (ht : t.cluster.Intact measured g.name (criteria options)) (hfin : g.finished = false)
    (hfin' : g'.finished = false) : g'.evacuating = true ∧
      t'.cluster.Intact measured g'.name (criteria options) ∧
      (t'.cluster.Spreadable ↔ t.cluster.Spreadable) := by
  obtain ⟨g₁, t₁, htended, hclosed, hcourse⟩ := h.exists_tended ht
  have hname := hclosed.name_eq.trans htended.alike.name
  rcases hclosed.of_ok (htended.alike.finished.trans hfin) with ⟨hfin₁, -⟩ | ⟨-, -, hev, rfl⟩
  · rw [hfin'] at hfin₁
    cases hfin₁
  · exact ⟨hev, hname ▸ hcourse.holds.1, hcourse.holds.2⟩

/-! ## The pursuit -/

/-- What is to be shown: all dead brokers end empty if copies can be spread, and the goal is not
reached otherwise. -/
inductive Evacuates {α : Type} (c : Cluster) : Except Fault α → Cluster → Prop where
  | done {a : α} {c' : Cluster} : c.Spreadable →
    (∀ b ∈ c'.brokers, b.isAlive = false → b.count = 0) → Evacuates c (.ok a) c'
  | failed {f : Fault} {c' : Cluster} : ¬ c.Spreadable → f.isFailure = true →
    Evacuates c (.error f) c'

/-- What was to be emptied is empty when the views are given up, and so copies can be spread. -/
theorem Evacuates.of_unemptied {α : Type} {a : α} {name : String}
    (ht : t.cluster.Intact measured name (criteria options))
    (hspread : t.cluster.Spreadable ↔ c.Spreadable) (hnone : unemptied t.cluster = []) :
    Evacuates c (.ok a) (g.released t).cluster := by
  have hempty := count_eq_zero_of_unemptied ht.toSound hnone
  refine .done (hspread.1 (ht.toStable.spreadable hempty)) ?_
  rw [released, Cluster.untrack, List.forall_mem_map]
  exact hempty

theorem Rounded.evacuates {x : Except Fault Unit} (h : Rounded [] options g t x g' t')
    (ht : t.cluster.Intact measured g.name (criteria options)) (hfree : Unrestricted options)
    (hev : g.evacuating = true) : Evacuates t.cluster x t'.cluster := by
  obtain ⟨g₁, t₁, htended, hclosed, hcourse⟩ := h.exists_tended ht
  cases hclosed with
  | finished hnone => exact .of_unemptied hcourse.holds.1 hcourse.holds.2 hnone
  | relaxed _ hev' =>
    rw [htended.alike.evacuating, hev] at hev'
    cases hev'
  | failed hleft =>
    refine .failed (fun hspread ↦ hleft ?_) rfl
    rw [List.eq_nil_iff_forall_not_mem]
    intro id hid
    obtain ⟨b, hb, hdead, hpos⟩ := (mem_unemptied hcourse.sound).1 hid
    have hdead' := (Cluster.dead_congr hcourse.states_eq).1 ⟨b, hb, hdead⟩
    have hzero := htended.count_eq_zero rfl ht hspread hfree hev
      (fun _ ↦ (mem_brokersToBalance_iff ht.toSound hev).1) id
      ((mem_brokersToBalance_iff ht.toSound hev).2 hdead')
    rw [count_of_broker? hb] at hzero
    exact hpos.ne' hzero

theorem Pursued.evacuates {x : Except Fault Bool} (ht : t.cluster.Stable measured)
    (hdisk : measured .disk) (hfree : Unrestricted options) (hne : t.cluster.aliveBrokers ≠ [])
    (hlimits : (Limits.of t.cluster.size t.cluster.aliveBrokers.length
      g.constraint.percentage).isOk = true)
    (h : Pursued [] options g t x g' t') : Evacuates t.cluster x t'.cluster := by
  have htracked : (g.tracked options t).cluster.Intact measured g.name (criteria options) := by
    refine ht.intact_track ?_
    rintro x ⟨⟩
    exact hdisk
  have hspread : (g.tracked options t).cluster.Spreadable ↔ t.cluster.Spreadable :=
    Cluster.spreadable_congr rfl (Cluster.states_track ..)
  cases h with
  | noAliveBroker hnone => exact absurd hnone hne
  | unlimited _ hf =>
    rw [hf] at hlimits
    cases hlimits
  | once _ _ hround hfin =>
    obtain ⟨g₁, t₁, htended, hclosed, hcourse⟩ := hround.exists_tended htracked
    rcases hclosed.of_ok htended.alike.finished with ⟨-, hnone, rfl⟩ | ⟨hfin', -⟩
    · exact .of_unemptied hcourse.holds.1 (hcourse.holds.2.trans hspread) hnone
    · rw [hfin'] at hfin
      cases hfin
  | failedOnce _ _ hround =>
    obtain ⟨g₁, t₁, htended, hclosed, -⟩ := hround.exists_tended htracked
    cases hclosed with
    | failed _ hev =>
      rw [htended.alike.evacuating] at hev
      cases hev
  | twice _ _ hround hfin hround' =>
    obtain ⟨hev, ht', hspread'⟩ := hround.of_not_finished htracked rfl hfin
    cases hround'.evacuates ht' hfree hev with
    | done hcan hempty => exact .done ((hspread'.trans hspread).1 hcan) hempty
  | failedTwice _ _ hround hfin hround' =>
    obtain ⟨hev, ht', hspread'⟩ := hround.of_not_finished htracked rfl hfin
    cases hround'.evacuates ht' hfree hev with
    | failed hcannot hfailure =>
      exact .failed (mt (hspread'.trans hspread).2 hcannot) hfailure

/-- Without an alive broker a pursuit fails at once. -/
theorem Pursued.eq_noAliveBroker {x : Except Fault Bool} (h : Pursued guards options g t x g' t')
    (hnone : t.cluster.aliveBrokers = []) : x = .error (.noAliveBroker g.name) := by
  cases h with
  | noAliveBroker => rfl
  | unlimited hne => exact absurd hnone hne
  | once hne => exact absurd hnone hne
  | failedOnce hne => exact absurd hnone hne
  | twice hne => exact absurd hnone hne
  | failedTwice hne => exact absurd hnone hne

end DistributionGoal

open DistributionGoal (pursue comes_pursue)

/-- After any history in which views order by numbers: a pursuit without guards, in which any
replica may move to any broker and whose limits can be computed, fails to reach its goal exactly if
no broker is alive or some partition has more copies than there are alive brokers. Otherwise it ends
in a result and leaves every dead broker empty. -/
theorem evacuation_complete {measured : Resource → Prop} (operations : List Operation)
    (hmeasured : ∀ o ∈ operations, o.IsMeasured measured) (hdisk : measured .disk)
    {g : DistributionGoal} {options : Options} (hexcluded : options.excludedBrokers = [])
    (hall : options.onlyImmigrants = false)
    (hlimits : (Cluster.after operations).aliveBrokers ≠ [] →
      (Limits.of (Cluster.after operations).size (Cluster.after operations).aliveBrokers.length
        g.constraint.percentage).isOk = true) :
    ((∃ f s, pursue [] options (g, { cluster := .after operations }) = .error f s ∧
        f.isFailure = true) ↔
      (Cluster.after operations).aliveBrokers = [] ∨ ∃ tp,
        (Cluster.after operations).aliveBrokers.length <
          ((Cluster.after operations).copies tp).length) ∧
    ((Cluster.after operations).aliveBrokers ≠ [] → (Cluster.after operations).Spreadable →
      ∃ satisfied g' p', pursue [] options (g, { cluster := .after operations }) =
        .ok satisfied (g', p') ∧ ∀ b ∈ p'.cluster.brokers, b.isAlive = false → b.count = 0) := by
  have hstable := Cluster.stable_after hmeasured
  have hcomes : ∀ {g}, DistributionGoal.Comes (pursue [] options) g { cluster := .after operations }
      (DistributionGoal.Pursued [] options g ⟨.after operations, []⟩) :=
    comes_pursue (p := { cluster := .after operations }) hstable.toSound
  rw [← Cluster.not_spreadable_iff]
  by_cases hne : (Cluster.after operations).aliveBrokers = []
  · refine ⟨iff_of_true ?_ (.inl hne), fun h ↦ absurd hne h⟩
    cases hpursue : pursue [] options (g, { cluster := .after operations }) with
    | ok satisfied s => cases (hcomes.of_ok hpursue).eq_noAliveBroker hne
    | error f s =>
      obtain rfl := Except.error.inj ((hcomes.of_error hpursue).eq_noAliveBroker hne)
      exact ⟨_, s, rfl, rfl⟩
  · have hfree : DistributionGoal.Unrestricted options := ⟨hexcluded, hall⟩
    cases hpursue : pursue [] options (g, { cluster := .after operations }) with
    | ok satisfied s =>
      cases (hcomes.of_ok hpursue).evacuates hstable hdisk hfree hne (hlimits hne) with
      | done hspread hempty =>
        refine ⟨iff_of_false ?_ ?_, fun _ _ ↦ ⟨satisfied, s.1, s.2, rfl, hempty⟩⟩
        · rintro ⟨f, s', hf, -⟩
          cases hf
        · rintro (hnone | hnot)
          · exact hne hnone
          · exact hnot hspread
    | error f s =>
      cases (hcomes.of_error hpursue).evacuates hstable hdisk hfree hne (hlimits hne) with
      | failed hnot hfailure =>
        exact ⟨iff_of_true ⟨f, s, rfl, hfailure⟩ (.inr hnot), fun _ hspread ↦ absurd hspread hnot⟩

/-- The one copy of a partition can leave a dead broker, but not one of two copies if only the other
one is on an alive broker. -/
theorem evacuation_complete_copies :
    (∃ satisfied g' p', pursue [] {} ({}, { cluster := .after [.addBroker 0 none .alive,
      .addBroker 1 none .dead, .place ⟨"a", 0⟩ 1 true {}] }) = .ok satisfied (g', p') ∧
      ∀ b ∈ p'.cluster.brokers, b.isAlive = false → b.count = 0) ∧
    ∃ f s, pursue [] {} ({}, { cluster := .after [.addBroker 0 none .alive,
      .addBroker 1 none .dead, .place ⟨"a", 0⟩ 0 true {}, .place ⟨"a", 0⟩ 1 false {}] }) =
      .error f s ∧ f.isFailure = true := by
  constructor
  · refine (evacuation_complete _ (?_ : ∀ o ∈ _, Operation.IsMeasured (fun _ ↦ True) o) trivial rfl
      rfl (by decide +kernel)).2 (by decide +kernel) (by decide +kernel)
    simp [Operation.IsMeasured, Load.isNumeric_default]
  · refine (evacuation_complete _ (?_ : ∀ o ∈ _, Operation.IsMeasured (fun _ ↦ True) o) trivial rfl
      rfl (by decide +kernel)).1.2 (.inr ⟨⟨"a", 0⟩, by decide +kernel⟩)
    simp [Operation.IsMeasured, Load.isNumeric_default]

/-- A history in which a view orders by a use of processors that is not a number. -/
def Operation.unordered : List Operation :=
  [.addBroker 0 none .dead, .addBroker 1 none .alive, .place ⟨"t", 0⟩ 0 false { cpu := 2 },
    .place ⟨"t", 1⟩ 0 false { cpu := .nan }, .place ⟨"t", 2⟩ 0 false { cpu := 1 },
    .place ⟨"t", 3⟩ 0 false { cpu := 2 }, .track "v" { score := some .cpu }]

/-- The view cannot find a replica that is to leave the dead broker. So the pursuit fails, although
its limits can be computed, the use of disks is a number and copies can be spread. -/
theorem evacuation_stopped_out_of_order :
    (∃ f s, pursue [] {} ({}, { cluster := .after Operation.unordered }) = .error f s ∧
      f = .viewOutOfOrder) ∧
    (Cluster.after Operation.unordered).aliveBrokers ≠ [] ∧
    (Cluster.after Operation.unordered).Spreadable ∧
    (∀ r ∈ (Cluster.after Operation.unordered).replicas, r.load.of .disk ≠ .nan) ∧
    (Limits.of (Cluster.after Operation.unordered).size
      (Cluster.after Operation.unordered).aliveBrokers.length
      Constraint.standard.percentage).isOk = true := by
  refine ⟨Ends.exists_error (by decide +kernel : Ends (pursue [] {})
    ({}, { cluster := .after Operation.unordered }) (fun _ _ ↦ False)
    fun f _ ↦ f = .viewOutOfOrder), ?_⟩
  decide +kernel

end Rebalance
