import Rebalance.Proofs.Distribution.Progress

/-!
# Native replicas while a broker is dead

While some broker is dead, an alive one offers only immigrants when another is filled. But when it
is drained itself it may lose any replica, as long as it had an immigrant to begin with. No broker
comes above the upper limit in the meantime, so natives leave only such brokers as were above it,
with an immigrant, from the beginning.
-/

namespace Rebalance

open Relation (ReflTransGen)

/-! ## Immigrants -/

namespace Cluster

variable {c : Cluster} {id : BrokerId}

theorem hasImmigrant_track (name : String) (criteria : Criteria) :
    (c.track name criteria).HasImmigrant id ↔ c.HasImmigrant id := by
  unfold HasImmigrant
  simp only [on_track_iff]

theorem count_track (name : String) (criteria : Criteria) :
    (c.track name criteria).count id = c.count id := by
  rw [count, broker?_of_map (brokers_track name criteria c) (fun _ ↦ rfl), Option.map_map, count]
  rfl

end Cluster

/-- What an alive broker gives away is an immigrant, or the broker is above a limit, and was above
it with an immigrant at first. -/
def Retains (upper : Int) (c₀ c : Cluster) (m : Move) (_ : Cluster) : Prop :=
  c.Alive m.source →
    (∃ i r, c.On m.source i r ∧ r.partition = m.partition ∧ r.isImmigrant = true) ∨
      upper < c.count m.source ∧ upper < c₀.count m.source ∧ c₀.HasImmigrant m.source

namespace DistributionGoal

variable {g g' g₁ : DistributionGoal} {guards : List Guard} {options : Options} {t t' : Stage}
  {candidates : List BrokerId} {i : ReplicaId} {r : Replica} {d id : BrokerId}
  {ids : List BrokerId} {c₀ : Cluster} {m : Move} {p p' : Plan}

/-! ## Brokers that are above the upper limit -/

/-- A broker that is above a limit was so at first, and unless it had immigrants then it has none.
-/
def StaysAbove (upper : Int) (c₀ c : Cluster) (id : BrokerId) : Prop :=
  upper < c.count id → upper < c₀.count id ∧ (c.HasImmigrant id → c₀.HasImmigrant id)

section

variable (h : t.cluster.Sound) (hev : g.evacuating = false)
  (hmoves : g.Moves guards options t candidates i r d t')

include h hev hmoves

/-- No move brings a broker above the upper limit. -/
theorem Moves.above_of_above (hid : g.limits.upper < t'.cluster.count id) :
    g.limits.upper < t.cluster.count id := by
  by_contra hnot
  exact absurd hid (Int.not_lt.2 (hmoves.count_le_upper h hev (Int.not_lt.1 hnot)))

theorem Moves.staysAbove (hon : t.cluster.On r.broker i r)
    (hstays : StaysAbove g.limits.upper c₀ t.cluster id) :
    StaysAbove g.limits.upper c₀ t'.cluster id := by
  intro hid
  obtain ⟨habove, himm⟩ := hstays (hmoves.above_of_above h hev hid)
  refine ⟨habove, fun ⟨j, r', hon', himm'⟩ ↦ himm ⟨j, r', ?_, himm'⟩⟩
  refine (hmoves.on_of_on h hon ?_ hon').1
  rintro rfl
  have hup := (hmoves.within h hev).upper
  have hcount := hmoves.count_destination h
  omega

end

/-! ## Tending brokers -/

/-- A step off an alive broker takes an immigrant, or drains the broker that is tended. -/
theorem Step.retains (hstep : g.Step guards options id t t') (hdead : t.cluster.hasDead = true)
    (hmany : t.cluster.Alive id → g.limits.upper < t.cluster.count id →
      g.limits.upper < c₀.count id ∧ c₀.HasImmigrant id)
    (hm : t'.moves = t.moves ++ [m]) : Retains g.limits.upper c₀ t.cluster m t'.cluster := by
  intro halive
  cases hstep with
  | drains hdrains =>
    obtain ⟨s, i, r, d, -, rfl, -, hon, hmoves⟩ := hdrains.moves
    obtain rfl := hmoves.eq_of_moves hm
    have habove := hdrains.many halive
    exact .inr ⟨habove, hmany halive habove⟩
  | fills hfills =>
    obtain ⟨i, r, hsource, hoffered, hon, hmoves⟩ := hfills.moves
    obtain rfl := hmoves.eq_of_moves hm
    exact .inl ⟨i, r, hon, rfl, hoffered.2 hdead hsource⟩

/-- A step whose move retains natives. -/
structure Retaining (g : DistributionGoal) (guards : List Guard) (options : Options) (c₀ : Cluster)
    (t t' : Stage) : Prop extends g.Advances guards options t t' where
  retains : ∀ m, t'.moves = t.moves ++ [m] → Retains g.limits.upper c₀ t.cluster m t'.cluster

/-- Nothing is done to a broker that is exempt. -/
theorem Tended.arrives_or_not_exempt {x : Except Fault Unit}
    (h : Tended guards options id g t x g' t') : (∀ step, Arrives step t x t') ∨
      ∃ b, t.cluster.broker? id = some b ∧ ¬ g.Exempt options t.cluster b := by
  cases h with
  | unknown => exact .inl fun _ ↦ .here
  | exempt => exact .inl fun _ ↦ ReflTransGen.refl
  | above hb hex => exact .inr ⟨_, hb, hex⟩
  | undrained hb hex => exact .inr ⟨_, hb, hex⟩
  | under hb hex => exact .inr ⟨_, hb, hex⟩
  | unfilled hb hex => exact .inr ⟨_, hb, hex⟩
  | balanced hb hex => exact .inr ⟨_, hb, hex⟩

section

variable {x : Except Fault Unit} (ht : t.cluster.Sound)
  (hf : t.cluster.Faithful g.name (criteria options)) (hev : g.evacuating = false)
  (hdead : t.cluster.hasDead = true)

include ht hf hev hdead

/-- While the limits are regarded and some broker is dead, an alive one that is above the upper
limit is tended only if it has immigrants. -/
theorem Tended.retains (halike : g.Alike g₁) (hstays : StaysAbove g.limits.upper c₀ t.cluster id)
    (h : Tended guards options id g₁ t x g' t') :
    Arrives (g.Retaining guards options c₀) t x t' := by
  obtain harrives | ⟨b, hb, hex⟩ := h.arrives_or_not_exempt
  · exact harrives _
  have hev' := halike.evacuating.trans hev
  -- Immigrants are asked for only here, so from now on the bound is about what it had at first.
  have hmany : t.cluster.Alive id → g.limits.upper < t.cluster.count id →
      g.limits.upper < c₀.count id ∧ c₀.HasImmigrant id := by
    intro halive habove
    obtain ⟨habove₀, himm⟩ := hstays habove
    refine ⟨habove₀, himm ((ht.hasImmigrant_iff hb).2 fun hnone ↦ hex ?_)⟩
    rw [alive_iff_isAlive hb] at halive
    refine .native (.inl ⟨hdead, halive⟩) ?_ hnone
    rwa [tooMany_iff halive, halike.limits, ← count_of_broker? hb]
  have hsteps : Arrives (g₁.Step guards options id) t x t' :=
    h.arrives ht (halike.name ▸ hf) fun he ↦ absurd he (ne_true_of_eq_false hev')
  refine (Arrives.along (P := fun t ↦ t.cluster.Sound ∧
    t.cluster.Faithful g.name (criteria options) ∧ t.cluster.hasDead = true ∧
    (t.cluster.Alive id → g.limits.upper < t.cluster.count id →
      g.limits.upper < c₀.count id ∧ c₀.HasImmigrant id)) ?_ hsteps ⟨ht, hf, hdead, hmany⟩).mono ?_
  · rintro t t' ⟨ht, hf, hdead, hmany⟩ hs
    refine ⟨hs.sound ht, hs.faithful ht hf, (Cluster.hasDead_congr hs.states_eq).trans hdead,
      fun halive habove ↦ hmany ((Cluster.alive_congr hs.states_eq).1 halive) ?_⟩
    obtain ⟨_, i, r, d, -, -, hmoves⟩ := hs.exists_moves
    exact (halike.moves hmoves).above_of_above ht hev habove
  · rintro t t' ⟨⟨ht, hf, hdead, hmany⟩, hs⟩
    refine ⟨⟨ht, hf, g₁, id, halike, fun he ↦ absurd he (ne_true_of_eq_false hev), hs⟩,
      fun m hm ↦ ?_⟩
    rw [← halike.limits] at hmany ⊢
    exact hs.retains hdead hmany hm

theorem TendedAll.retains (hstays : ∀ id, StaysAbove g.limits.upper c₀ t.cluster id)
    (h : TendedAll guards options ids g t x g' t') :
    Arrives (Takes (Retains g.limits.upper c₀)) t x t' := by
  have harrives : Arrives (g.Retaining guards options c₀) t x t' := by
    refine TendedAll.arrives (P := fun t ↦ t.cluster.Sound ∧
      t.cluster.Faithful g.name (criteria options) ∧ t.cluster.hasDead = true ∧
      ∀ id, StaysAbove g.limits.upper c₀ t.cluster id) ?_ ?_ (.refl g) h ⟨ht, hf, hdead, hstays⟩
    · rintro t t' ⟨ht, hf, hdead, hstays⟩ hretaining
      obtain ⟨_, _, -, -, hs⟩ := hretaining.step
      obtain ⟨_, i, r, d, -, hon, hmoves⟩ := hretaining.exists_moves
      exact ⟨hs.sound ht, hs.faithful ht hf, (Cluster.hasDead_congr hs.states_eq).trans hdead,
        fun id ↦ hmoves.staysAbove ht hev hon (hstays id)⟩
    · rintro g₁ g₂ t t' y id - halike ⟨ht, hf, hdead, hstays⟩ htended
      exact htended.retains ht hf hev hdead halike (hstays id)
  refine harrives.mono fun t t' hretaining ↦ ?_
  obtain ⟨_, i, r, d, -, -, hmoves⟩ := hretaining.exists_moves
  exact hmoves.takes hretaining.sound (hretaining.retains _ hmoves.relocated.moves)

end

/-! ## Whole pursuits -/

theorem Rounded.limits_eq {x : Except Fault Unit} (h : Rounded guards options g t x g' t') :
    g'.limits = g.limits := by
  cases h with
  | tended htended hclosed => exact hclosed.limits_eq.trans htended.alike.limits
  | failed htended => exact htended.alike.limits

/-- The limits that could be computed are those that the goal ends with. -/
theorem Account.limits_eq {x : Except Fault Bool} {limits : Limits}
    (h : Account guards options g p x g' p')
    (hlimits : Limits.of p.cluster.size p.cluster.aliveBrokers.length g.constraint.percentage =
      .ok limits) : g'.limits = limits := by
  cases h with
  | noAliveBroker hnone => exact absurd hnone (aliveBrokers_ne_nil hlimits)
  | unlimited _ hf =>
    rw [hlimits] at hf
    cases hf
  | once _ hok hround =>
    obtain rfl := Except.ok.inj (hok.symm.trans hlimits)
    exact hround.limits_eq
  | twice _ hok hround _ _ hround' =>
    obtain rfl := Except.ok.inj (hok.symm.trans hlimits)
    exact hround'.limits_eq.trans hround.limits_eq

/-- In the first round alive brokers retain their natives, unless they are above the upper limit
with an immigrant from the beginning, and in the second one they lose nothing. -/
theorem Account.exists_retaining {x : Except Fault Bool} (h : Account guards options g p x g' p')
    (ht : p.cluster.Sound) (hdisk : ∀ r ∈ p.cluster.replicas, r.load.of .disk ≠ .nan)
    (hdead : p.cluster.hasDead = true) :
    ∃ events c, p'.journal = p.journal ++ events ∧
      Trail (Retains g'.limits.upper p.cluster) (p.cluster.track g.name (criteria options))
        events.moves c ∧ Remains x c p'.cluster := by
  have hf := faithful_tracked ht hdisk g options
  have hdead' := (Cluster.hasDead_congr
    (Cluster.states_track g.name (criteria options) p.cluster)).trans hdead
  refine (h.travels_of_takes (Retains g'.limits.upper p.cluster)
    (Retains g'.limits.upper p.cluster) ht hdisk ?_ ?_).exists_trail
  · intro _ _ _ _ hev _ hadvances hm halive
    exact absurd (hadvances.evacuates hev hm).1 (Cluster.not_dead_of_alive halive)
  · intro limits _ _ _ hlimits htended
    rw [h.limits_eq hlimits]
    refine htended.retains (ht.track g.name (criteria options)) hf rfl hdead' fun id habove ↦ ?_
    change limits.upper < ((p.cluster.track g.name (criteria options)).count id : Int) at habove
    rw [Cluster.count_track] at habove
    exact ⟨habove, (Cluster.hasImmigrant_track ..).1⟩

end DistributionGoal

open DistributionGoal (pursue exists_account)

/-- After any history that left some broker dead and in which the use of disks is a number, for any
guards, options and whatever was written before: what a pursuit takes off an alive broker is an
immigrant, or the broker is above the upper limit just then, and was above it at the beginning, when
it had an immigrant. But for views the last move leads to the cluster that the pursuit leaves,
unless a view fails to find a replica on its way. -/
theorem natives_retained (operations : List Operation)
    (hdisk : ∀ r ∈ (Cluster.after operations).replicas, r.load.of .disk ≠ .nan)
    (hdead : (Cluster.after operations).hasDead = true) (guards : List Guard) (options : Options)
    (journal : Journal) (g : DistributionGoal) :
    ∃ events c,
      (stateAfter (pursue guards options) (g, ⟨.after operations, journal⟩)).2.journal =
        journal ++ events ∧
      Trail (Retains
          (stateAfter (pursue guards options) (g, ⟨.after operations, journal⟩)).1.limits.upper
          (.after operations))
        ((Cluster.after operations).track g.name (DistributionGoal.criteria options))
        events.moves c ∧
      ((∃ s, pursue guards options (g, ⟨.after operations, journal⟩) =
          .error .viewOutOfOrder s) ∨
        (stateAfter (pursue guards options) (g, ⟨.after operations, journal⟩)).2.cluster.bare =
          c.bare) := by
  have hsound := Cluster.sound_after operations
  obtain ⟨x, haccount, hfault⟩ := exists_account (p := ⟨.after operations, journal⟩) hsound g
  obtain ⟨events, c, hj, htrail, hremains⟩ := haccount.exists_retaining hsound hdisk hdead
  exact ⟨events, c, hj, htrail, hremains.imp_left (hfault _)⟩

/-- A broker with five natives and an immigrant, one that is empty and a dead one. -/
def Operation.mixed : List Operation :=
  [.addBroker 0 none .alive, .addBroker 1 none .alive, .addBroker 2 none .dead,
    .place ⟨"a", 0⟩ 0 true {}, .place ⟨"a", 1⟩ 0 true {}, .place ⟨"a", 2⟩ 0 true {},
    .place ⟨"a", 3⟩ 0 true {}, .place ⟨"a", 4⟩ 0 true {}, .place ⟨"b", 0⟩ 1 true {},
    .relocate ⟨"b", 0⟩ 1 0]

/-- The upper limit is four, and the broker gives away the immigrant and a native. -/
theorem natives_retained_mixed :
    (stateAfter (pursue [] {}) ({}, ⟨.after Operation.mixed, #[]⟩)).2.journal.moves =
      [.replica ⟨"b", 0⟩ 0 1, .replica ⟨"a", 0⟩ 0 1] ∧
    ∃ (events : Journal) (c : Cluster),
      (stateAfter (pursue [] {}) ({}, ⟨.after Operation.mixed, #[]⟩)).2.journal = #[] ++ events ∧
      Trail (Retains 4 (.after Operation.mixed))
        ((Cluster.after Operation.mixed).track "ReplicaDistributionGoal"
          (DistributionGoal.criteria {})) events.moves c := by
  have hupper : (stateAfter (pursue [] {})
      ({}, ⟨.after Operation.mixed, #[]⟩)).1.limits.upper = 4 := by decide +kernel
  obtain ⟨events, c, hj, htrail, -⟩ := natives_retained Operation.mixed (by decide +kernel)
    (by decide +kernel) [] {} #[] {}
  rw [hupper] at htrail
  exact ⟨by decide +kernel, events, c, hj, htrail⟩

/-- So a native may leave an alive broker while another is dead. -/
theorem native_given_away :
    (∀ r ∈ (Cluster.after Operation.mixed).replicas, r.load.of .disk ≠ .nan) ∧
    (Cluster.after Operation.mixed).hasDead = true ∧
    ¬ ∃ (events : Journal) (c : Cluster),
      (stateAfter (pursue [] {}) ({}, ⟨.after Operation.mixed, #[]⟩)).2.journal = #[] ++ events ∧
      Trail (fun c m _ ↦ c.Alive m.source →
          ∃ i r, c.On m.source i r ∧ r.partition = m.partition ∧ r.isImmigrant = true)
        ((Cluster.after Operation.mixed).track "ReplicaDistributionGoal"
          (DistributionGoal.criteria {})) events.moves c := by
  refine ⟨by decide +kernel, by decide +kernel, ?_⟩
  rintro ⟨events, c, hj, htrail⟩
  have hmoves : events.moves = [.replica ⟨"b", 0⟩ 0 1, .replica ⟨"a", 0⟩ 0 1] := by
    rw [Array.empty_append] at hj
    rw [← hj]
    decide +kernel
  rw [hmoves] at htrail
  -- After the first move the broker is still alive, and what moves next is native to it.
  cases htrail with
  | @cons _ c₁ _ _ _ _ _ hfirst _ hrest =>
    have hc₁ : stateAfter (Cluster.relocate ⟨"b", 0⟩ 0 1)
        ((Cluster.after Operation.mixed).track "ReplicaDistributionGoal"
          (DistributionGoal.criteria {})) = c₁ := by
      rw [stateAfter, hfirst]
    have halive : (c₁.broker? 0).any Broker.isAlive = true := by
      rw [← hc₁]
      decide +kernel
    have hnative : ∀ r ∈ c₁.replicas, r.partition = ⟨"a", 0⟩ → r.isImmigrant = false := by
      rw [← hc₁]
      decide +kernel
    cases hrest with
    | cons _ hstep =>
      obtain ⟨i, r, hon, hp, himm⟩ := hstep ((Option.any_eq_true ..).1 halive)
      rw [hnative r (List.mem_of_getElem? hon.replica?_eq) hp] at himm
      cases himm

end Rebalance
