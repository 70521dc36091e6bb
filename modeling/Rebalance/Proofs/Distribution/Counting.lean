import Rebalance.Proofs.Distribution.Pursuit

/-!
# Counting replicas

What single moves and whole passes do to the counts of brokers. As long as the limits are regarded,
no broker is brought above the upper one and no alive broker below the lower one. Draining that
reports success leaves few enough replicas, and filling that does has filled the broker up.
-/

namespace Rebalance.DistributionGoal

variable {g g' : DistributionGoal} {guards : List Guard} {options : Options} {t t' : Stage}
  {candidates : List BrokerId} {i : ReplicaId} {r : Replica} {d id giver : BrokerId}
  {states : List (BrokerId × BrokerState)}

/-! ## Single moves -/

namespace Moves

theorem suits (h : t.cluster.Sound) (hmoves : g.Moves guards options t candidates i r d t') :
    g.Suits guards options t.cluster r d := suits_of_relocated h hmoves.relocated hmoves.admissible

theorem fits (h : t.cluster.Sound) (hmoves : g.Moves guards options t candidates i r d t') :
    g.Fits options t.cluster r d := (hmoves.suits h).toFits

theorem within (h : t.cluster.Sound) (hev : g.evacuating = false)
    (hmoves : g.Moves guards options t candidates i r d t') : g.Within t.cluster r.broker d := by
  rcases (hmoves.fits h).within with ⟨hev', -⟩ | hwithin
  · rw [hev] at hev'
    cases hev'
  · exact hwithin

/-- The destination gains one. -/
theorem count_destination (h : t.cluster.Sound)
    (hmoves : g.Moves guards options t candidates i r d t') :
    t'.cluster.count d = t.cluster.count d + 1 := by
  have hcount := hmoves.relocated.count_eq h d
  rw [if_pos rfl, if_neg (hmoves.fits h).ne] at hcount
  omega

/-- The source loses one. -/
theorem count_source (h : t.cluster.Sound)
    (hmoves : g.Moves guards options t candidates i r d t') :
    t'.cluster.count r.broker + 1 = t.cluster.count r.broker := by
  have hcount := hmoves.relocated.count_eq h r.broker
  rw [if_pos rfl, if_neg (Ne.symm (hmoves.fits h).ne)] at hcount
  omega

/-- All other brokers keep what they have. -/
theorem count_other (h : t.cluster.Sound)
    (hmoves : g.Moves guards options t candidates i r d t') (hd : id ≠ d) (hs : id ≠ r.broker) :
    t'.cluster.count id = t.cluster.count id := by
  have hcount := hmoves.relocated.count_eq h id
  rw [if_neg hd, if_neg hs] at hcount
  omega

/-- No broker is brought above the upper limit. -/
theorem count_le_upper (h : t.cluster.Sound) (hev : g.evacuating = false)
    (hmoves : g.Moves guards options t candidates i r d t')
    (hle : (t.cluster.count id : Int) ≤ g.limits.upper) :
    (t'.cluster.count id : Int) ≤ g.limits.upper := by
  have hcount := hmoves.relocated.count_eq h id
  by_cases hd : id = d
  · have hup := (hmoves.within h hev).upper
    rw [← hd] at hup
    rw [if_pos hd] at hcount
    split at hcount <;> omega
  · rw [if_neg hd] at hcount
    split at hcount <;> omega

/-- No alive broker is brought below the lower limit. -/
theorem lower_le_count (h : t.cluster.Sound) (hev : g.evacuating = false)
    (hmoves : g.Moves guards options t candidates i r d t') (halive : t.cluster.Alive id)
    (hle : g.limits.lower ≤ t.cluster.count id) : g.limits.lower ≤ t'.cluster.count id := by
  have hcount := hmoves.relocated.count_eq h id
  by_cases hs : id = r.broker
  · have hlow := (hmoves.within h hev).lower (hs ▸ halive)
    rw [← hs] at hlow
    rw [if_pos hs] at hcount
    split at hcount <;> omega
  · rw [if_neg hs] at hcount
    split at hcount <;> omega

end Moves

/-! ## Limits that are kept -/

/-- What moves keep is kept by passes that end in a result. -/
theorem Law.of_moves {keep : Stage → Prop}
    (hmoves : ∀ {t t' : Stage} {candidates : List BrokerId} {i : ReplicaId} {r : Replica}
      {d : BrokerId}, keep t → g.Moves guards options t candidates i r d t' → keep t') :
    g.Law guards options keep fun _ _ ↦ True where
  moves := hmoves
  fails _ _ := trivial
  offers _ _ := trivial
  views _ _ _ := trivial

/-- A sound cluster with the same brokers as at first, in which something more holds. -/
structure Course (states : List (BrokerId × BrokerState)) (P : Cluster → Prop) (t : Stage) : Prop
  where
  sound : t.cluster.Sound
  states_eq : t.cluster.states = states
  holds : P t.cluster

theorem Course.of_moves {P : Cluster → Prop}
    (hmoves : ∀ {t t' : Stage} {candidates : List BrokerId} {i : ReplicaId} {r : Replica}
      {d : BrokerId}, t.cluster.Sound → t.cluster.states = states → P t.cluster →
      g.Moves guards options t candidates i r d t' → P t'.cluster) :
    g.Law guards options (Course states P) fun _ _ ↦ True :=
  .of_moves fun ht h ↦ ⟨h.relocated.sound ht.sound, h.relocated.states_eq.trans ht.states_eq,
    hmoves ht.sound ht.states_eq ht.holds h⟩

/-- No alive broker is brought below the lower limit. -/
theorem Law.lower (hev : g.evacuating = false) (states : List (BrokerId × BrokerState))
    (id : BrokerId) :
    g.Law guards options
      (Course states fun c ↦ c.Alive id ∧ g.limits.lower ≤ (c.count id : Int)) fun _ _ ↦ True :=
  Course.of_moves fun hsound _ hle h ↦ ⟨(Cluster.alive_congr h.relocated.states_eq).2 hle.1,
    h.lower_le_count hsound hev hle.1 hle.2⟩

/-! ## What passes achieve -/

/-- Draining that reports success has brought the broker down to what is enough, or emptied it. -/
theorem Drained.count_le {enough : Int} {replicas : List ReplicaId} {s : BrokerSet}
    {x : Except Fault Bool} (h : g.Drained guards options id enough replicas s t x t')
    (hx : x = .ok false) : (t'.cluster.count id : Int) ≤ enough ∨ t'.cluster.count id = 0 := by
  induction h with
  | spent =>
    have hzero := of_decide_eq_false (Except.ok.inj hx)
    exact .inr (Nat.eq_zero_of_not_pos hzero)
  | skipped _ _ ih => exact ih hx
  | moved _ _ _ ih => exact ih hx
  | sufficed _ hle => exact .inl hle
  | failed => cases hx

/-- How many replicas are wanted when drawing from a giver has ended. -/
def Ending.left : Ending → Nat
  | filled => 0
  | overtaken left => left
  | exhausted left => left

/-- Whether nothing is wanted any more. -/
def Ending.isFilled : Ending → Bool
  | filled => true
  | _ => false

/-- What is drawn and what is still wanted is what was wanted. -/
theorem Drawn.count_eq {queue : List Fullness} {wanted : Nat} {replicas : List ReplicaId}
    {x : Except Fault Ending} {e : Ending} (ht : t.cluster.Sound)
    (h : g.Drawn guards options id giver queue wanted replicas t x t') (hx : x = .ok e)
    (hwanted : 1 ≤ wanted) :
    t'.cluster.count id + e.left = t.cluster.count id + wanted ∧
      (e.isFilled = false → 1 ≤ e.left) := by
  induction h with
  | spent =>
    cases hx
    exact ⟨rfl, fun _ ↦ hwanted⟩
  | skipped _ _ ih => exact ih ht hx hwanted
  | filled hmoves hle =>
    cases hx
    have hcount := hmoves.count_destination ht
    refine ⟨?_, nofun⟩
    change _ + 0 = _
    omega
  | @overtaken wanted _ _ _ _ _ hmoves hlt _ =>
    cases hx
    have hcount := hmoves.count_destination ht
    change _ + (wanted - 1) = _ ∧ (_ → 1 ≤ wanted - 1)
    omega
  | moved hmoves hlt _ _ ih =>
    have hcount := hmoves.count_destination ht
    obtain ⟨hsum, hleft⟩ := ih (hmoves.relocated.sound ht) hx (by omega)
    exact ⟨by omega, hleft⟩
  | failed => cases hx

/-- Filling that reports success has brought exactly what was wanted, other filling less. -/
theorem Filled.count_eq {wanted : Nat} {queue : List Fullness} {x : Except Fault Bool} {few : Bool}
    (ht : t.cluster.Sound) (h : g.Filled guards options id wanted queue t x t') (hx : x = .ok few)
    (hwanted : 1 ≤ wanted) :
    if few then t'.cluster.count id < t.cluster.count id + wanted
    else t'.cluster.count id = t.cluster.count id + wanted := by
  induction h with
  | spent =>
    cases hx
    rw [if_pos rfl]
    omega
  | unoffered => cases hx
  | filled _ hdrawn =>
    cases hx
    rw [if_neg Bool.false_ne_true]
    exact (hdrawn.count_eq ht rfl hwanted).1
  | overtaken _ hdrawn _ ih =>
    obtain ⟨hsum, hleft⟩ := hdrawn.count_eq ht rfl hwanted
    obtain ⟨hsound, -⟩ := (Law.sound g guards options _).drawn hdrawn ⟨ht, rfl⟩
    have hrest := ih hsound hx (hleft rfl)
    change _ + _ = _ at hsum
    rwa [← hsum]
  | exhausted _ hdrawn _ ih =>
    obtain ⟨hsum, hleft⟩ := hdrawn.count_eq ht rfl hwanted
    obtain ⟨hsound, -⟩ := (Law.sound g guards options _).drawn hdrawn ⟨ht, rfl⟩
    have hrest := ih hsound hx (hleft rfl)
    change _ + _ = _ at hsum
    rwa [← hsum]
  | failed => cases hx

end Rebalance.DistributionGoal
