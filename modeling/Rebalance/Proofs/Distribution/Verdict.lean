import Rebalance.Proofs.Distribution.Counting

/-!
# The verdict

When a pursuit tells that the goal is satisfied, every dead broker is empty and every alive one is
exempt: within the limits, or left alone because new brokers come first or because only immigrants
may leave it. A broker that is tidy in this way stays so under every later move, and the verdict
says that tending left each of them tidy. A second round never comes to that verdict.
-/

namespace Rebalance.DistributionGoal

variable {g g' : DistributionGoal} {guards : List Guard} {options : Options} {t t' : Stage}
  {candidates : List BrokerId} {i : ReplicaId} {r : Replica} {d id : BrokerId} {b b' : Broker}
  {c c' : Cluster} {states : List (BrokerId × BrokerState)}

/-! ## Brokers under moves -/

/-- What a move does to a broker. -/
structure Follows (b : Broker) (gains loses : Prop) [Decidable gains] [Decidable loses]
    (b' : Broker) : Prop where
  id : b'.id = b.id
  state : b'.state = b.state
  count : (b'.count : Int) = b.count + (if gains then 1 else 0) - (if loses then 1 else 0)
  immigrants : ¬ gains → b.immigrants = [] → b'.immigrants = []

theorem Moves.follows (h : t.cluster.Sound) (hmoves : g.Moves guards options t candidates i r d t')
    (hb : t.cluster.broker? id = some b) :
    ∃ b', t'.cluster.broker? id = some b' ∧ Follows b (id = d) (id = r.broker) b' := by
  have hcount := hmoves.relocated.count_eq h id
  obtain ⟨j, r', -, hbroker, hm, hcluster⟩ := hmoves.relocated.cluster
  have hb' : t'.cluster.broker? id = some (b.onMove j r' d) := by
    rw [hcluster, Cluster.broker?_moved, hb]
    rfl
  obtain rfl := Cluster.id_of_broker? hb
  refine ⟨_, hb', Broker.id_onMove .., Broker.state_onMove .., ?_, ?_⟩
  · rwa [count_of_broker? hb', count_of_broker? hb] at hcount
  · intro hd hnone
    by_cases hs : b.id = r'.broker
    · rw [Broker.onMove_source hs, Broker.immigrants_release, hnone]
      rfl
    · rw [Broker.onMove_other hs hd]
      exact hnone

namespace Follows

variable {gains loses : Prop} [Decidable gains] [Decidable loses]

theorem isAlive_eq (h : Follows b gains loses b') : b'.isAlive = b.isAlive := by
  rw [Broker.isAlive, h.state, Broker.isAlive]

theorem isNew_eq (h : Follows b gains loses b') : b'.isNew = b.isNew := by
  rw [Broker.isNew, h.state, Broker.isNew]

end Follows

/-! ## Tidy brokers -/

/-- A broker holds as many replicas as an alive one should. -/
def InLimits (g : DistributionGoal) (b : Broker) : Prop :=
  g.limits.lower ≤ b.count ∧ (b.count : Int) ≤ g.limits.upper

instance (g : DistributionGoal) (b : Broker) : Decidable (g.InLimits b) :=
  inferInstanceAs (Decidable (g.limits.lower ≤ b.count ∧ (b.count : Int) ≤ g.limits.upper))

/-- Why an alive broker is left outside the limits: it holds too few, but new brokers come first, or
too many, but only immigrants may leave it and there are none. -/
inductive Spared (g : DistributionGoal) (options : Options) (c : Cluster) (b : Broker) : Prop where
  | deferred : c.hasNew = true → b.isNew = false → (b.count : Int) < g.limits.lower →
    Spared g options c b
  | native : c.hasDead = true ∨ options.onlyImmigrants = true → b.immigrants = [] →
    g.limits.upper < b.count → Spared g options c b

/-- A broker that is spared is not within the limits. -/
theorem Spared.not_inLimits (h : g.Spared options c b) : ¬ g.InLimits b := by
  rintro ⟨hlow, hup⟩
  cases h with
  | deferred _ _ hfew => omega
  | native _ _ hmany => omega

/-- A broker on which nothing is left to do: it is dead, and empty or without immigrants when only
these may move, or it is alive and exempt. -/
inductive Tidy (g : DistributionGoal) (options : Options) (c : Cluster) (b : Broker) : Prop where
  | empty : b.isAlive = false → b.count = 0 → Tidy g options c b
  | native : b.isAlive = false → options.onlyImmigrants = true → b.immigrants = [] →
    Tidy g options c b
  | exempt : b.isAlive = true → g.Exempt options c b → Tidy g options c b

theorem tooMany_iff (hb : b.isAlive = true) : g.TooMany b ↔ g.limits.upper < b.count := by
  rw [TooMany, ceiling, if_pos hb]

theorem tooFew_iff (hb : b.isAlive = true) : g.TooFew b ↔ (b.count : Int) < g.limits.lower :=
  and_iff_right hb

theorem ceiling_of_dead (hb : b.isAlive = false) : g.ceiling b = 0 := if_neg (by simp [hb])

theorem not_tooFew_of_dead (hb : b.isAlive = false) : ¬ g.TooFew b := fun h ↦
  Bool.false_ne_true (hb.symm.trans h.1)

/-- A dead broker is exempt only if nothing on it may move. -/
theorem Exempt.of_dead (h : g.Exempt options c b) (hb : b.isAlive = false) :
    options.onlyImmigrants = true ∧ b.immigrants = [] := by
  cases h with
  | settled halive => exact absurd (hb.symm.trans halive) Bool.false_ne_true
  | deferred _ hfew => exact absurd hfew (not_tooFew_of_dead hb)
  | native himm _ hnone =>
    refine ⟨himm.resolve_left fun h ↦ ?_, hnone⟩
    exact Bool.false_ne_true (hb.symm.trans h.2)

/-- For an alive broker, to be exempt is to be within the limits or to be spared. -/
theorem exempt_of_alive (hb : b.isAlive = true) :
    g.Exempt options c b ↔ g.InLimits b ∨ g.Spared options c b := by
  constructor
  · rintro (⟨-, hfew, hmany⟩ | ⟨hnew, hfew, hold⟩ | ⟨himm, hmany, hnone⟩)
    · rw [tooFew_iff hb, Int.not_lt] at hfew
      rw [tooMany_iff hb, Int.not_lt] at hmany
      exact .inl ⟨hfew, hmany⟩
    · exact .inr (.deferred hnew hold ((tooFew_iff hb).1 hfew))
    · exact .inr (.native (himm.imp_left And.left) hnone ((tooMany_iff hb).1 hmany))
  · rintro (⟨hlow, hup⟩ | ⟨hnew, hold, hfew⟩ | ⟨himm, hnone, hmany⟩)
    · refine .settled hb ?_ ?_
      · rwa [tooFew_iff hb, Int.not_lt]
      · rwa [tooMany_iff hb, Int.not_lt]
    · exact .deferred hnew ((tooFew_iff hb).2 hfew) hold
    · exact .native (himm.imp_left fun h ↦ ⟨h, hb⟩) ((tooMany_iff hb).2 hmany) hnone

/-- A broker that is tidy stays tidy while the limits are regarded. -/
theorem Law.tidy (hev : g.evacuating = false) (states : List (BrokerId × BrokerState))
    (id : BrokerId) :
    g.Law guards options
      (Course states fun c ↦ ∃ b, c.broker? id = some b ∧ g.Tidy options c b) fun _ _ ↦ True := by
  refine Course.of_moves fun {t t' candidates i r d} hsound _ ht h ↦ ?_
  obtain ⟨b, hb, htidy⟩ := ht
  obtain ⟨b', hb', hfollows⟩ := h.follows hsound hb
  refine ⟨b', hb', ?_⟩
  have hcount := hfollows.count
  have hwithin := h.within hsound hev
  have halive := (h.fits hsound).alive
  have hsource : id = r.broker → (b.isAlive = true → g.limits.lower + 1 ≤ b.count) ∧
      (b.isAlive = false → 1 ≤ b.count) := by
    rintro rfl
    rw [← count_of_broker? hb]
    exact ⟨fun ha ↦ hwithin.lower ⟨b, hb, ha⟩, fun hd ↦ hwithin.nonempty ⟨b, hb, hd⟩⟩
  have hdest : id = d → b.isAlive = true ∧ (b.count : Int) + 1 ≤ g.limits.upper := by
    rintro rfl
    rw [← count_of_broker? hb]
    exact ⟨(alive_iff_isAlive hb).1 halive, hwithin.upper⟩
  cases htidy with
  | empty hdead hzero =>
    refine .empty (hfollows.isAlive_eq.trans hdead) ?_
    have hd : id ≠ d := fun hd ↦ by
      rw [(hdest hd).1] at hdead
      cases hdead
    rw [if_neg hd, hzero] at hcount
    split at hcount <;> omega
  | native hdead honly hnone =>
    have hd : id ≠ d := fun hd ↦ by
      rw [(hdest hd).1] at hdead
      cases hdead
    exact .native (hfollows.isAlive_eq.trans hdead) honly (hfollows.immigrants hd hnone)
  | exempt ha hex =>
    have ha' := hfollows.isAlive_eq.trans ha
    refine .exempt ha' ?_
    rw [exempt_of_alive ha] at hex
    rw [exempt_of_alive ha']
    have hnew' := Cluster.hasNew_congr h.relocated.states_eq
    have hdead' := Cluster.hasDead_congr h.relocated.states_eq
    by_cases hd : id = d
    · -- It gains one, and is not brought above the upper limit by that.
      have hs : id ≠ r.broker := fun hs ↦ (h.fits hsound).ne (hd.symm.trans hs)
      have hup := (hdest hd).2
      rw [if_pos hd, if_neg hs] at hcount
      rcases hex with ⟨hlow, -⟩ | ⟨hnew, hold, hfew⟩ | ⟨-, -, hmany⟩
      · exact .inl ⟨by omega, by omega⟩
      · by_cases hfew' : (b'.count : Int) < g.limits.lower
        · exact .inr (.deferred (hnew'.trans hnew) (hfollows.isNew_eq.trans hold) hfew')
        · exact .inl ⟨by omega, by omega⟩
      · omega
    · rw [if_neg hd] at hcount
      by_cases hs : id = r.broker
      · -- It loses one, and is not brought below the lower limit by that.
        have hlow := (hsource hs).1 ha
        rw [if_pos hs] at hcount
        rcases hex with ⟨-, hup⟩ | ⟨-, -, hfew⟩ | ⟨himm, hnone, hmany⟩
        · exact .inl ⟨by omega, by omega⟩
        · omega
        · by_cases hmany' : g.limits.upper < (b'.count : Int)
          · exact .inr (.native (himm.imp_left hdead'.trans) (hfollows.immigrants hd hnone) hmany')
          · exact .inl ⟨by omega, by omega⟩
      · rw [if_neg hs] at hcount
        rcases hex with ⟨hlow, hup⟩ | ⟨hnew, hold, hfew⟩ | ⟨himm, hnone, hmany⟩
        · exact .inl ⟨by omega, by omega⟩
        · exact .inr (.deferred (hnew'.trans hnew) (hfollows.isNew_eq.trans hold) (by omega))
        · have hnone' := hfollows.immigrants hd hnone
          exact .inr (.native (himm.imp_left hdead'.trans) hnone' (by omega))

/-! ## Tending leaves brokers tidy -/

theorem Lowered.eq_of_not_tooMany {x : Except Fault Bool} (h : g.Lowered guards options b t x t')
    (hmany : ¬ g.TooMany b) : t' = t := by
  cases h with
  | untouched => rfl
  | untracked h => exact absurd h hmany
  | drained h => exact absurd h hmany

theorem Raised.eq_of_not_tooFew {x : Except Fault Bool} (h : g.Raised guards options b t x t')
    (hfew : ¬ g.TooFew b) : t' = t := by
  cases h with
  | untouched => rfl
  | filled h => exact absurd h hfew

/-- Only a broker that has too many can be left with too many. -/
theorem Lowered.tooMany (h : g.Lowered guards options b t (.ok true) t') : g.TooMany b := by
  cases h with
  | drained hmany => exact hmany

/-- Only a broker that has too few can be left with too few. -/
theorem Raised.tooFew (h : g.Raised guards options b t (.ok true) t') : g.TooFew b := by
  cases h with
  | filled hfew => exact hfew

/-- What an alive broker holds within the limits makes it tidy. -/
theorem tidy_of_within (hb : c.broker? id = some b) (ha : c.Alive id)
    (hlow : g.limits.lower ≤ (c.count id : Int)) (hup : (c.count id : Int) ≤ g.limits.upper) :
    g.Tidy options c b := by
  rw [alive_iff_isAlive hb] at ha
  rw [count_of_broker? hb] at hlow hup
  exact .exempt ha ((exempt_of_alive ha).2 (.inl ⟨hlow, hup⟩))

/-- A drained broker that may hold no more than the upper limit ends with no more. -/
theorem Lowered.count_le (hb : t.cluster.broker? b.id = some b)
    (hnonneg : 0 ≤ g.ceiling b) (h : g.Lowered guards options b t (.ok false) t') :
    (t'.cluster.count b.id : Int) ≤ g.ceiling b := by
  cases h with
  | untouched hmany =>
    rw [TooMany, Int.not_lt] at hmany
    rwa [count_of_broker? hb]
  | drained _ _ hdrained =>
    rcases hdrained.count_le rfl with hle | hzero
    · exact hle
    · rw [hzero]
      exact hnonneg

/-- A dead broker that could be drained ends empty. -/
theorem Lowered.count_eq_zero (hb : t.cluster.broker? b.id = some b) (hdead : b.isAlive = false)
    (h : g.Lowered guards options b t (.ok false) t') : t'.cluster.count b.id = 0 := by
  have hle := h.count_le hb (ceiling_of_dead hdead).ge
  rw [ceiling_of_dead hdead] at hle
  omega

/-- A filled broker ends with exactly what it should hold. -/
theorem Raised.count_eq (ht : t.cluster.Sound) (hb : t.cluster.broker? b.id = some b)
    (hfew : g.TooFew b) (h : g.Raised guards options b t (.ok false) t') :
    (t'.cluster.count b.id : Int) = g.limits.lower := by
  cases h with
  | untouched h => exact absurd hfew h
  | filled _ hb' hfilled =>
    rw [hb] at hb'
    obtain rfl := Option.some.inj hb'
    have hbottom : g.bottom b = g.limits.lower := if_pos hfew.1
    have hlt := hfew.2
    rw [hbottom] at hfilled
    have hcount := hfilled.count_eq ht rfl (by omega)
    rw [if_neg Bool.false_ne_true, count_of_broker? hb] at hcount
    omega

/-- The limits leave an alive broker room for what it should hold; for a dead one they do not
matter. -/
def Allows (g : DistributionGoal) (c : Cluster) (id : BrokerId) : Prop :=
  c.Alive id → g.limits.lower ≤ g.limits.upper ∧ 0 ≤ g.limits.upper

/-- A broker that was tended and not recorded is tidy. -/
theorem Tended.tidy (hev : g.evacuating = false) (hallows : g.Allows t.cluster id)
    (ht : t.cluster.Sound)
    (h : Tended guards options id g t (.ok ()) g' t') (habove : id ∉ g'.above)
    (hunder : id ∉ g'.under) :
    ∃ b, t'.cluster.broker? id = some b ∧ g.Tidy options t'.cluster b := by
  cases h with
  | above => exact absurd (mem_insertAscending.2 (.inl rfl)) habove
  | under => exact absurd (mem_insertAscending.2 (.inl rfl)) hunder
  | exempt hb hex =>
    rename_i b
    refine ⟨b, hb, ?_⟩
    cases ha : b.isAlive with
    | true => exact .exempt ha hex
    | false =>
      obtain ⟨honly, hnone⟩ := hex.of_dead ha
      exact .native ha honly hnone
  | balanced hb hex hlowered hraised =>
    rename_i t₁ b
    obtain rfl := Cluster.id_of_broker? hb
    have law := Law.sound g guards options t.cluster.states
    obtain ⟨hsound₁, hstates₁⟩ := law.lowered hb hlowered ⟨ht, rfl⟩
    obtain ⟨-, hstates⟩ := law.raised hraised ⟨hsound₁, hstates₁⟩
    obtain ⟨b', hb'⟩ := Cluster.exists_broker?_of_states hstates hb
    refine ⟨b', hb', ?_⟩
    cases ha : b.isAlive with
    | false =>
      obtain rfl := hraised.eq_of_not_tooFew (not_tooFew_of_dead ha)
      have hzero := hlowered.count_eq_zero hb ha
      rw [count_of_broker? hb'] at hzero
      refine .empty ?_ hzero
      rw [← dead_iff_isAlive hb', Cluster.dead_congr hstates]
      exact ⟨b, hb, ha⟩
    | true =>
      obtain ⟨hlimits, hnonneg⟩ := hallows ⟨b, hb, ha⟩
      have hceiling : g.ceiling b = g.limits.upper := if_pos ha
      have halive' : t'.cluster.Alive b.id := (Cluster.alive_congr hstates).2 ⟨b, hb, ha⟩
      by_cases hmany : g.TooMany b
      · -- It was drained, and not below the lower limit.
        have hfew : ¬ g.TooFew b := fun h ↦ by
          rw [tooFew_iff ha] at h
          rw [tooMany_iff ha] at hmany
          omega
        obtain rfl := hraised.eq_of_not_tooFew hfew
        have hle := hlowered.count_le hb (hceiling ▸ hnonneg)
        rw [hceiling] at hle
        have hlow : Course t.cluster.states
            (fun c ↦ c.Alive b.id ∧ g.limits.lower ≤ (c.count b.id : Int)) t' := by
          refine (Law.lower hev t.cluster.states b.id).lowered hb hlowered
            ⟨ht, rfl, ⟨b, hb, ha⟩, ?_⟩
          rw [tooMany_iff ha] at hmany
          rw [count_of_broker? hb]
          omega
        exact tidy_of_within hb' halive' hlow.holds.2 hle
      · obtain rfl := hlowered.eq_of_not_tooMany hmany
        by_cases hfew : g.TooFew b
        · have heq := hraised.count_eq ht hb hfew
          exact tidy_of_within hb' halive' heq.ge (heq.le.trans hlimits)
        · exact absurd (.settled ha hfew hmany) hex

/-- What is recorded stays recorded. -/
theorem Tended.recorded {x : Except Fault Unit} (h : Tended guards options id g t x g' t') :
    g.above ⊆ g'.above ∧ g.under ⊆ g'.under := by
  have hinsert : ∀ as : List BrokerId, as ⊆ insertAscending id as := fun as a ha ↦
    mem_insertAscending.2 (.inr ha)
  cases h with
  | above => exact ⟨hinsert g.above, List.Subset.refl _⟩
  | under => exact ⟨List.Subset.refl _, hinsert g.under⟩
  | _ => exact ⟨List.Subset.refl _, List.Subset.refl _⟩

theorem TendedAll.recorded {ids : List BrokerId} {x : Except Fault Unit}
    (h : TendedAll guards options ids g t x g' t') : g.above ⊆ g'.above ∧ g.under ⊆ g'.under := by
  induction h with
  | nil => exact ⟨List.Subset.refl _, List.Subset.refl _⟩
  | cons htended _ ih =>
    obtain ⟨habove, hunder⟩ := htended.recorded
    exact ⟨List.Subset.trans habove ih.1, List.Subset.trans hunder ih.2⟩
  | failed htended => exact htended.recorded

theorem Tidy.congr (h : g.Tidy options c b) (hlimits : g'.limits = g.limits) :
    g'.Tidy options c b := by
  cases h with
  | empty hdead hzero => exact .empty hdead hzero
  | native hdead honly hnone => exact .native hdead honly hnone
  | exempt ha hex =>
    refine .exempt ha ?_
    rw [exempt_of_alive ha, InLimits] at *
    rw [hlimits]
    refine hex.imp_right fun h ↦ ?_
    cases h with
    | deferred hnew hold hfew => exact .deferred hnew hold (hlimits ▸ hfew)
    | native himm hnone hmany => exact .native himm hnone (hlimits ▸ hmany)

/-- After a round that recorded no broker, every broker it tended is tidy. -/
theorem TendedAll.tidy (hev : g.evacuating = false) {ids : List BrokerId} {x : Except Fault Unit}
    (ht : t.cluster.Sound) (h : TendedAll guards options ids g t x g' t') (hx : x = .ok ())
    (hids : ∀ id ∈ ids, id ∈ t.cluster.states.map Prod.fst) (habove : g'.above = [])
    (hunder : g'.under = []) : ∀ id ∈ ids, g.Allows t.cluster id →
      ∃ b, t'.cluster.broker? id = some b ∧ g.Tidy options t'.cluster b := by
  induction h with
  | nil => simp
  | @cons id rest g g₁ g' t t₁ t' x htended hrest ih =>
    subst hx
    rw [List.forall_mem_cons] at hids
    obtain ⟨hsound₁, hstates₁⟩ := htended.sound ht
    have halike := htended.alike
    have hrec := hrest.recorded
    rw [habove, hunder] at hrec
    have hev₁ := halike.evacuating.trans hev
    have hrest₁ : ∀ id ∈ rest, id ∈ t₁.cluster.states.map Prod.fst := by
      rw [hstates₁]
      exact hids.2
    rw [List.forall_mem_cons]
    constructor
    · intro hallows
      obtain ⟨b, hb, htidy⟩ := htended.tidy hev hallows ht
        (fun hid ↦ List.not_mem_nil (hrec.1 hid)) (fun hid ↦ List.not_mem_nil (hrec.2 hid))
      have hcourse := (Law.tidy hev₁ t.cluster.states id).tendedAll (fun t ht ↦ ht.sound) hrest
        hrest₁ ⟨hsound₁, hstates₁, b, hb, htidy.congr halike.limits⟩
      obtain ⟨b', hb', htidy'⟩ := hcourse.holds
      exact ⟨b', hb', htidy'.congr halike.limits.symm⟩
    · intro id' hid' hallows
      have hallows₁ : g₁.Allows t₁.cluster id' := by
        rw [Allows, Cluster.alive_congr hstates₁, halike.limits]
        exact hallows
      obtain ⟨b, hb, htidy⟩ := ih hev₁ hsound₁ rfl hrest₁ habove hunder id' hid' hallows₁
      exact ⟨b, hb, htidy.congr halike.limits.symm⟩
  | failed => cases hx

end Rebalance.DistributionGoal
