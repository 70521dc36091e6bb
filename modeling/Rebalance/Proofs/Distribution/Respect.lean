import Rebalance.Proofs.Distribution.Progress

/-!
# Goals optimized before

Every guard has accepted every move of a pursuit, just before it. A distribution goal that stands
guard accepts a move only if both brokers stay within its limits. So if all alive brokers are within
these at first they remain so, even when the goal that is pursued gives up its own.
-/

namespace Rebalance

/-! ## Limits that all alive brokers keep -/

namespace Cluster

variable {c c' : Cluster} {limits : Limits}

/-- All alive brokers are within the limits. -/
def Balanced (limits : Limits) (c : Cluster) : Prop :=
  ∀ b ∈ c.brokers, b.isAlive = true → limits.lower ≤ b.count ∧ (b.count : Int) ≤ limits.upper

instance (limits : Limits) (c : Cluster) : Decidable (c.Balanced limits) :=
  inferInstanceAs (Decidable (∀ b ∈ c.brokers, _ → _))

theorem Sound.balanced_iff (h : c.Sound) : c.Balanced limits ↔
    ∀ id, c.Alive id → limits.lower ≤ c.count id ∧ (c.count id : Int) ≤ limits.upper := by
  constructor
  · rintro hall id ⟨b, hb, halive⟩
    rw [DistributionGoal.count_of_broker? hb]
    exact hall b (mem_of_broker? hb) halive
  · intro hall b hb halive
    rw [← h.count_of_mem hb]
    exact hall b.id ⟨b, h.broker?_of_mem hb, halive⟩

theorem balanced_track (name : String) (criteria : Criteria) :
    (c.track name criteria).Balanced limits ↔ c.Balanced limits := by
  unfold Balanced
  rw [brokers_track, List.forall_mem_map]
  exact Iff.rfl

end Cluster

/-- Every guard has accepted a move just before. After it, the limits of each goal that stands guard
are kept if they were at first. -/
structure Respects (guards : List Guard) (c₀ c : Cluster) (m : Move) (c' : Cluster) : Prop where
  accepted : ∀ γ ∈ guards, γ.judge m.action c = .ok .accept
  balanced : ∀ earlier : DistributionGoal, earlier.guard ∈ guards →
    c₀.Balanced earlier.limits → c'.Balanced earlier.limits

/-- If each move of a trail respects the goals before it, given the limits that are kept just before
it, then it does so given those that are kept at first. -/
theorem Trail.respects {guards : List Guard} {c c' : Cluster} {moves : List Move}
    (h : Trail (fun c m c' ↦ Respects guards c c m c') c moves c') :
    Trail (Respects guards c) c moves c' := by
  have hstep : ∀ c₁ m c₂, (∀ earlier : DistributionGoal, earlier.guard ∈ guards →
      c.Balanced earlier.limits → c₁.Balanced earlier.limits) → Respects guards c₁ c₁ m c₂ →
      ∀ earlier : DistributionGoal, earlier.guard ∈ guards →
        c.Balanced earlier.limits → c₂.Balanced earlier.limits :=
    fun _ _ _ hall hrespects earlier hmem hbalanced ↦
      hrespects.balanced earlier hmem (hall earlier hmem hbalanced)
  refine (h.along hstep fun _ _ ↦ id).mono ?_
  rintro c₁ m c₂ ⟨hall, hrespects⟩
  exact ⟨hrespects.accepted, hstep c₁ m c₂ hall hrespects⟩

namespace DistributionGoal

variable {g g' earlier : DistributionGoal} {guards : List Guard} {options : Options} {t t' : Stage}
  {candidates : List BrokerId} {i : ReplicaId} {r : Replica} {d : BrokerId}

/-- A move that a goal accepts as a guard keeps its limits. -/
theorem Moves.balanced (h : t.cluster.Sound)
    (hmoves : g.Moves guards options t candidates i r d t') (hmem : earlier.guard ∈ guards)
    (hbalanced : t.cluster.Balanced earlier.limits) : t'.cluster.Balanced earlier.limits := by
  obtain ⟨b, b', hs, hd, hup, hlow⟩ :=
    judge_move_eq_accept_iff.1 ((hmoves.suits h).accepted _ hmem)
  have hdest := (alive_iff_isAlive hd).1 (hmoves.fits h).alive
  rw [ceiling, if_pos hdest, ← count_of_broker? hd] at hup
  rw [(hmoves.relocated.sound h).balanced_iff]
  intro id halive'
  have halive := (Cluster.alive_congr hmoves.relocated.states_eq).1 halive'
  obtain ⟨hlow', hup'⟩ := h.balanced_iff.1 hbalanced id halive
  -- Only the two ends of the move count differently, and the verdict bounds both.
  by_cases hid : id = d
  · subst hid
    have hcount := hmoves.count_destination h
    omega
  · by_cases hsource : id = r.broker
    · subst hsource
      rw [bottom, if_pos ((alive_iff_isAlive hs).1 halive), ← count_of_broker? hs] at hlow
      have hcount := hmoves.count_source h
      omega
    · rw [hmoves.count_other h hid hsource]
      exact ⟨hlow', hup'⟩

theorem Moves.respects (h : t.cluster.Sound)
    (hmoves : g.Moves guards options t candidates i r d t') :
    Respects guards t.cluster t.cluster (.replica r.partition r.broker d) t'.cluster where
  accepted := (hmoves.suits h).accepted
  balanced _ hmem := hmoves.balanced h hmem

end DistributionGoal

open DistributionGoal (pursue exists_account)

/-- After any history, for any guards, options and whatever was written before: every move that a
pursuit makes, before the limits are given up and afterwards, was accepted by every guard just
before. So the limits of each distribution goal that stands guard, if all alive brokers keep them at
first, are kept after every move. But for views the last move leads to the cluster that the pursuit
leaves, unless a view fails to find a replica on its way. -/
theorem guards_respected (operations : List Operation) (guards : List Guard) (options : Options)
    (journal : Journal) (g : DistributionGoal) :
    ∃ events c,
      (stateAfter (pursue guards options) (g, ⟨.after operations, journal⟩)).2.journal =
        journal ++ events ∧
      Trail (Respects guards (.after operations))
        ((Cluster.after operations).track g.name (DistributionGoal.criteria options))
        events.moves c ∧
      ((∃ s, pursue guards options (g, ⟨.after operations, journal⟩) =
          .error .viewOutOfOrder s) ∨
        (stateAfter (pursue guards options) (g, ⟨.after operations, journal⟩)).2.cluster.bare =
          c.bare) := by
  have hsound := Cluster.sound_after operations
  obtain ⟨x, haccount, hfault⟩ := exists_account (p := ⟨.after operations, journal⟩) hsound g
  obtain ⟨events, c, hj, htrail, hremains⟩ :=
    haccount.exists_trail_of_moves (fun c m c' ↦ Respects guards c c m c')
      (fun h hmoves ↦ hmoves.respects h) hsound
  refine ⟨events, c, hj, htrail.respects.mono ?_, hremains.imp_left (hfault _)⟩
  rintro c₁ m c₂ ⟨haccepted, hbalanced⟩
  exact ⟨haccepted, fun earlier hmem h ↦
    hbalanced earlier hmem ((Cluster.balanced_track ..).2 h)⟩

/-- A goal whose limits are wide enough for the replica that moves once those of the goal that is
pursued are given up. -/
theorem guards_respected_displaced :
    (stateAfter (pursue [DistributionGoal.guard { limits := ⟨1, 5, .ofRatio false 3 1⟩ }] {})
        ({}, ⟨.after Operation.displaced, #[]⟩)).2.journal.moves =
      [.replica ⟨"d", 0⟩ 2 1, .replica ⟨"c", 0⟩ 2 0] ∧
    ∃ (events : Journal) (c : Cluster),
      (stateAfter (pursue [DistributionGoal.guard { limits := ⟨1, 5, .ofRatio false 3 1⟩ }] {})
        ({}, ⟨.after Operation.displaced, #[]⟩)).2.journal = #[] ++ events ∧
      Trail (fun _ _ c' ↦ c'.Balanced ⟨1, 5, .ofRatio false 3 1⟩)
        ((Cluster.after Operation.displaced).track "ReplicaDistributionGoal"
          (DistributionGoal.criteria {})) events.moves c := by
  refine ⟨by decide +kernel, ?_⟩
  obtain ⟨events, c, hj, htrail, -⟩ := guards_respected Operation.displaced
    [DistributionGoal.guard { limits := ⟨1, 5, .ofRatio false 3 1⟩ }] {} #[] {}
  refine ⟨events, c, hj, htrail.mono fun _ _ _ h ↦ ?_⟩
  exact h.balanced _ List.mem_cons_self (by decide +kernel)

end Rebalance
