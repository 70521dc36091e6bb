import Rebalance.Proofs.Distribution.Tending

/-!
# Brokers that were recorded

A broker is recorded as above the upper limit when it is clogged: what could leave it has to stay or
suits no broker below the lower limit. It is recorded as under the lower limit, where no broker is
dead, when it is starved: what could leave a broker above the upper limit has to stay or does not
suit it. Under guards that last, no later step on another broker changes that. So these verdicts
are final, and right when a round ends.
-/

namespace Rebalance.DistributionGoal

variable {g g' : DistributionGoal} {guards : List Guard} {options : Options} {t t' : Stage}
  {candidates : List BrokerId} {i : ReplicaId} {r : Replica} {d e id id' : BrokerId} {b : Broker}
  {c : Cluster} {ids : List BrokerId}

/-- A broker is above the upper limit, and what its view shows has to stay or suits no broker that
is below the lower limit. -/
structure Clogged (g : DistributionGoal) (guards : List Guard) (options : Options) (c : Cluster)
    (id : BrokerId) : Prop where
  many : g.limits.upper < c.count id
  stuck : ∀ i r, c.On id i r → (criteria options).admits r = true →
    c.mustStay options.excludedTopics r = true ∨
      ∀ d, (c.count d : Int) < g.limits.lower → ¬ g.Suits guards options c r d

/-- A broker is below the lower limit, and what the views of brokers above the upper limit show has
to stay or does not suit it. -/
structure Starved (g : DistributionGoal) (guards : List Guard) (options : Options) (c : Cluster)
    (id : BrokerId) : Prop where
  few : (c.count id : Int) < g.limits.lower
  stuck : ∀ e, g.limits.upper < c.count e → ∀ i r, c.On e i r →
    (criteria options).admits r = true →
    c.mustStay options.excludedTopics r = true ∨ ¬ g.Suits guards options c r id

/-! ## Steps on other brokers -/

section

variable (h : t.cluster.Sound) (hmoves : g.Moves guards options t candidates i r d t')

include h hmoves

/-- A broker that is above the upper limit after a move got nothing. -/
theorem Moves.ne_destination (hev : g.evacuating = false)
    (hid : g.limits.upper < t'.cluster.count id) :
    id ≠ d := by
  rintro rfl
  have hup := (hmoves.within h hev).upper
  have hcount := hmoves.count_destination h
  omega

/-- An alive broker that is below the lower limit after a move lost nothing. -/
theorem Moves.ne_source (hev : g.evacuating = false) (halive : t.cluster.Alive id)
    (hid : (t'.cluster.count id : Int) < g.limits.lower) : id ≠ r.broker := by
  rintro rfl
  have hlow := (hmoves.within h hev).lower halive
  have hcount := hmoves.count_source h
  omega

end

section

variable (hlasting : ∀ γ ∈ guards, γ.IsLasting) (h : t.cluster.Sound) (hev : g.evacuating = false)
  (hstep : g.Step guards options id' t t') (hne : id ≠ id')

include hlasting h hev hstep hne

/-- A clogged broker can lose nothing to a broker that is filled, and no broker that is drained can
bring it anything. -/
theorem Clogged.step (hclogged : g.Clogged guards options t.cluster id) :
    g.Clogged guards options t'.cluster id := by
  obtain ⟨candidates, i, r, d, hon, hmoves, hs⟩ : ∃ candidates i r d, t.cluster.On r.broker i r ∧
      g.Moves guards options t candidates i r d t' ∧ id ≠ r.broker := by
    cases hstep with
    | drains hdrains =>
      obtain ⟨s, i, r, d, -, hbroker, -, hon, hmoves⟩ := hdrains.moves
      exact ⟨_, i, r, d, hon, hmoves, hbroker ▸ hne⟩
    | fills hfills =>
      obtain ⟨i, r, -, hoffered, hon, hmoves⟩ := hfills.moves
      refine ⟨_, i, r, id', hon, hmoves, ?_⟩
      -- What is filled is below the lower limit, and nothing of a clogged broker suits it there.
      rintro rfl
      rcases hclogged.stuck i r hon hoffered.1 with hstay | hnone
      · rw [hmoves.free] at hstay
        cases hstay
      · exact hnone id' hfills.few (hmoves.suits h)
  have hd : id ≠ d := by
    rintro rfl
    have hup := (hmoves.within h hev).upper
    have hmany := hclogged.many
    omega
  refine ⟨?_, fun j r' hon' hadmits ↦ ?_⟩
  · rw [hmoves.count_other h hd hs]
    exact hclogged.many
  · have hold := (hmoves.on_of_on h hon hd hon').1
    have hbroker := h.broker_of_on hold
    rw [mustStay_congr hmoves.relocated.states_eq]
    refine (hclogged.stuck j r' hold hadmits).imp_right fun hnone e hfew hsuits ↦ ?_
    have halive := (Cluster.alive_congr hmoves.relocated.states_eq).1 hsuits.alive
    have he := hmoves.ne_source h hev halive hfew
    refine hnone e ?_ (hmoves.suits_of_suits h hon hlasting hsuits he (hbroker ▸ hd))
    have hcount := hmoves.relocated.count_eq h e
    rw [if_neg he] at hcount
    split at hcount <;> omega

/-- A starved broker can get nothing from a broker that is drained, and no broker that is filled can
take anything from it. -/
theorem Starved.step (hdead : t.cluster.hasDead = false) (halive : t.cluster.Alive id)
    (hstarved : g.Starved guards options t.cluster id) :
    g.Starved guards options t'.cluster id := by
  obtain ⟨candidates, i, r, d, hon, hmoves, hd⟩ : ∃ candidates i r d, t.cluster.On r.broker i r ∧
      g.Moves guards options t candidates i r d t' ∧ id ≠ d := by
    cases hstep with
    | fills hfills =>
      obtain ⟨i, r, -, -, hon, hmoves⟩ := hfills.moves
      exact ⟨_, i, r, id', hon, hmoves, hne⟩
    | drains hdrains =>
      obtain ⟨s, i, r, d, -, rfl, hadmits, hon, hmoves⟩ := hdrains.moves
      refine ⟨_, i, r, d, hon, hmoves, ?_⟩
      rintro rfl
      have hsource : t.cluster.Alive r.broker := by
        obtain ⟨b, hb⟩ := h.exists_broker?_of_on hon
        exact Cluster.alive_of_hasDead_eq_false hdead hb
      rcases hstarved.stuck r.broker (hdrains.many hsource) i r hon hadmits with hstay | hno
      · rw [hmoves.free] at hstay
        cases hstay
      · exact hno (hmoves.suits h)
  have hs : id ≠ r.broker := by
    rintro rfl
    have hlow := (hmoves.within h hev).lower halive
    have hfew := hstarved.few
    omega
  refine ⟨?_, fun e hmany j r' hon' hadmits ↦ ?_⟩
  · rw [hmoves.count_other h hd hs]
    exact hstarved.few
  · have he := hmoves.ne_destination h hev hmany
    have hold := (hmoves.on_of_on h hon he hon').1
    have hbroker := h.broker_of_on hold
    rw [mustStay_congr hmoves.relocated.states_eq]
    refine (hstarved.stuck e ?_ j r' hold hadmits).imp_right fun hno hsuits ↦ hno ?_
    · have hcount := hmoves.relocated.count_eq h e
      rw [if_neg he] at hcount
      split at hcount <;> omega
    · exact hmoves.suits_of_suits h hon hlasting hsuits hs (hbroker ▸ he)

end

/-! ## Goals that differ in what they recorded -/

/-- Where a replica suits does not depend on what was recorded. -/
theorem Suits.congr (halike : g.Alike g') (hsuits : g'.Suits guards options c r d) :
    g.Suits guards options c r d := by
  refine ⟨⟨hsuits.ne, hsuits.allowed, hsuits.alive, hsuits.vacant, ?_⟩, hsuits.accepted⟩
  rw [← halike.evacuating]
  refine hsuits.within.imp_right fun hwithin ↦ ⟨?_, ?_, hwithin.nonempty⟩
  · rw [← halike.limits]
    exact hwithin.upper
  · rw [← halike.limits]
    exact hwithin.lower

theorem Clogged.congr (halike : g.Alike g') (hclogged : g.Clogged guards options c id) :
    g'.Clogged guards options c id where
  many := by
    rw [halike.limits]
    exact hclogged.many
  stuck i r hon hadmits := by
    refine (hclogged.stuck i r hon hadmits).imp_right fun hnone d hfew hsuits ↦ ?_
    rw [halike.limits] at hfew
    exact hnone d hfew (hsuits.congr halike)

theorem Starved.congr (halike : g.Alike g') (hstarved : g.Starved guards options c id) :
    g'.Starved guards options c id where
  few := by
    rw [halike.limits]
    exact hstarved.few
  stuck e hmany i r hon hadmits := by
    rw [halike.limits] at hmany
    exact (hstarved.stuck e hmany i r hon hadmits).imp_right (mt (Suits.congr halike))

/-! ## When a broker is recorded -/

section

variable (hlasting : ∀ γ ∈ guards, γ.IsLasting) (ht : t.cluster.Sound)
  (hf : t.cluster.Faithful g.name (criteria options)) (hb : t.cluster.broker? b.id = some b)

include hlasting ht hf hb

/-- An alive broker that could not be drained is clogged. -/
theorem Lowered.clogged (hev : g.evacuating = false) (halive : b.isAlive = true)
    (h : g.Lowered guards options b t (.ok true) t') :
    g.Clogged guards options t'.cluster b.id := by
  have hev' : g.evacuating = true → b.isAlive = false := fun he ↦
    absurd he (ne_true_of_eq_false hev)
  refine ⟨?_, fun i r hon hadmits ↦ ?_⟩
  · have hmore := h.more ht hf hb hev'
    rwa [ceiling, if_pos halive] at hmore
  · exact (h.stuck ht hf hb hev' hlasting hon hadmits).imp_right fun hnone d _ ↦ hnone d

/-- Where no broker is dead, one that could not be filled is starved. -/
theorem Raised.starved (hlimits : g.limits.lower ≤ g.limits.upper)
    (hdead : t.cluster.hasDead = false) (hstates : t'.cluster.states = t.cluster.states)
    (ht' : t'.cluster.Sound) (h : g.Raised guards options b t (.ok true) t') :
    g.Starved guards options t'.cluster b.id := by
  refine ⟨h.few ht hf hb, fun e hmany i r hon hadmits ↦ ?_⟩
  have hdead' := (Cluster.hasDead_congr hstates).trans hdead
  have halive : t'.cluster.Alive e := by
    obtain ⟨b', hb', rfl, -⟩ := hon
    exact Cluster.alive_of_hasDead_eq_false hdead' (ht'.broker?_of_mem hb')
  have he : e ≠ b.id := by
    rintro rfl
    have hlt := h.few ht hf hb
    omega
  refine h.spent ht hf hb hlasting ((Cluster.alive_congr hstates).1 halive) he i r hon ?_
  exact ⟨hadmits, fun hsome ↦ absurd hsome (ne_true_of_eq_false hdead')⟩

end

/-! ## Which brokers are recorded -/

/-- Tending records no other broker. -/
theorem Tended.mem_iff_of_ne {x : Except Fault Unit}
    (h : Tended guards options id' g t x g' t') (hne : id ≠ id') :
    (id ∈ g'.above ↔ id ∈ g.above) ∧ (id ∈ g'.under ↔ id ∈ g.under) := by
  have hinsert : ∀ as : List BrokerId, id ∈ insertAscending id' as ↔ id ∈ as := fun as ↦ by
    rw [mem_insertAscending, or_iff_right hne]
  cases h with
  | above => exact ⟨hinsert g.above, Iff.rfl⟩
  | under => exact ⟨Iff.rfl, hinsert g.under⟩
  | _ => exact ⟨Iff.rfl, Iff.rfl⟩

theorem TendedAll.mem_iff_of_not_mem {x : Except Fault Unit}
    (h : TendedAll guards options ids g t x g' t') (hid : id ∉ ids) :
    (id ∈ g'.above ↔ id ∈ g.above) ∧ (id ∈ g'.under ↔ id ∈ g.under) := by
  induction h with
  | nil => exact ⟨Iff.rfl, Iff.rfl⟩
  | cons htended _ ih =>
    rw [List.mem_cons, not_or] at hid
    obtain ⟨habove, hunder⟩ := htended.mem_iff_of_ne hid.1
    obtain ⟨habove', hunder'⟩ := ih hid.2
    exact ⟨habove'.trans habove, hunder'.trans hunder⟩
  | failed htended =>
    rw [List.mem_cons, not_or] at hid
    exact htended.mem_iff_of_ne hid.1

/-- After a round that began with nothing recorded, what is recorded was tended. -/
theorem TendedAll.mem_of_recorded {x : Except Fault Unit}
    (h : TendedAll guards options ids g t x g' t') (habove : g.above = []) (hunder : g.under = [])
    (hid : id ∈ g'.above ∨ id ∈ g'.under) : id ∈ ids := by
  by_contra hnot
  obtain ⟨habove', hunder'⟩ := h.mem_iff_of_not_mem hnot
  rw [habove] at habove'
  rw [hunder] at hunder'
  rcases hid with hid | hid
  · exact List.not_mem_nil (habove'.1 hid)
  · exact List.not_mem_nil (hunder'.1 hid)

/-! ## Verdicts -/

/-- A verdict on a broker is final: steps on other brokers keep it, and it depends on nothing that
is recorded of these. -/
structure Final (guards : List Guard) (options : Options) (c₀ : Cluster) (id : BrokerId)
    (V : DistributionGoal → Cluster → Prop) : Prop where
  step : ∀ {g : DistributionGoal} {t t' : Stage} {id' : BrokerId}, t.cluster.Sound →
    t.cluster.states = c₀.states → id ≠ id' → g.Step guards options id' t t' →
    V g t.cluster → V g t'.cluster
  congr : ∀ {g g' : DistributionGoal} {c : Cluster}, g.Alike g' → (id ∈ g'.above ↔ id ∈ g.above) →
    (id ∈ g'.under ↔ id ∈ g.under) → V g c → V g' c

namespace Final

variable {c₀ : Cluster} {V : DistributionGoal → Cluster → Prop} {g₁ : DistributionGoal}
  (hfinal : Final guards options c₀ id V) (ht : t.cluster.Sound)
  (hstates : t.cluster.states = c₀.states)

include hfinal ht hstates

/-- Tending another broker does not change it. -/
theorem tended (hf : t.cluster.Faithful g.name (criteria options))
    (hev : g.evacuating = true → t.cluster.Dead id') (hne : id ≠ id')
    (h : Tended guards options id' g t (.ok ()) g' t') (hV : V g t.cluster) : V g' t'.cluster := by
  have hsteps : Relation.ReflTransGen (g.Step guards options id') t t' := h.arrives ht hf hev
  obtain ⟨habove, hunder⟩ := h.mem_iff_of_ne hne
  refine hfinal.congr h.alike habove hunder ?_
  obtain ⟨-, -, -, hV'⟩ := keeps_of_steps (fun c ↦ c.states = c₀.states ∧ V g c)
    (fun hs ↦ ⟨g, id', hs⟩) (fun ht ⟨hstates, hV⟩ hs ↦ ⟨hs.states_eq.trans hstates,
      hfinal.step ht hstates hne hs hV⟩) hsteps ht ⟨hstates, hV⟩
  exact hV'

/-- So it is right after a round if it is when the broker was tended. -/
theorem tendedAll
    (hown : ∀ {g₁ g₂ : DistributionGoal} {t t' : Stage}, g.Alike g₁ → t.cluster.Sound →
      t.cluster.Faithful g₁.name (criteria options) → t.cluster.states = c₀.states →
      (g₁.evacuating = true → t.cluster.Dead id) → id ∉ g₁.above → id ∉ g₁.under →
      Tended guards options id g₁ t (.ok ()) g₂ t' → V g₂ t'.cluster)
    {x : Except Fault Unit} (halike : g.Alike g₁) (h : TendedAll guards options ids g₁ t x g' t')
    (hx : x = .ok ()) (hf : t.cluster.Faithful g₁.name (criteria options))
    (hev : g₁.evacuating = true → ∀ id ∈ ids, t.cluster.Dead id) (hids : ids.Nodup)
    (hid : id ∈ ids ∧ id ∉ g₁.above ∧ id ∉ g₁.under ∨ id ∉ ids ∧ V g₁ t.cluster) :
    V g' t'.cluster := by
  induction h with
  | nil => exact (hid.resolve_left fun h ↦ List.not_mem_nil h.1).2
  | @cons id' rest _ _ _ _ _ _ _ htended _ ih =>
    have hev' := fun he ↦ hev he id' List.mem_cons_self
    obtain ⟨ht', hstates'⟩ := htended.sound ht
    rw [List.nodup_cons] at hids
    refine ih ht' (hstates'.trans hstates) (halike.trans htended.alike) hx
      (htended.faithful ht hf hev') (fun he id hid ↦ ?_) hids.2 ?_
    · exact (Cluster.dead_congr hstates').2
        (hev (htended.alike.evacuating.symm.trans he) id (List.mem_cons_of_mem _ hid))
    -- No broker is tended twice: before its turn nothing is recorded of it, and then it has had it.
    rcases hid with ⟨hid, habove, hunder⟩ | ⟨hid, hV⟩
    · rcases List.mem_cons.1 hid with rfl | hrest
      · exact .inr ⟨hids.1, hown halike ht hf hstates hev' habove hunder htended⟩
      · obtain ⟨habove', hunder'⟩ := htended.mem_iff_of_ne (ne_of_mem_of_not_mem hrest hids.1)
        exact .inl ⟨hrest, mt habove'.1 habove, mt hunder'.1 hunder⟩
    · rw [List.mem_cons, not_or] at hid
      exact .inr ⟨hid.2, hfinal.tended ht hstates hf hev' hid.1 htended hV⟩
  | failed => cases hx

end Final

end Rebalance.DistributionGoal
