import Rebalance.Proofs.Distribution.Itinerary
import Rebalance.Proofs.History

/-!
# Progress

The imbalance of a cluster is how far its alive brokers are from the limits and how many replicas
its dead ones still have. Before the limits are given up every move lowers it and brings no alive
broker further away from the limits. From then on every move takes a replica off a dead broker. So
there are at most as many moves as the imbalance was at first.
-/

namespace Rebalance

/-! ## Imbalance -/

/-- How far a number of replicas is from the limits. -/
def Limits.distance (l : Limits) (n : Nat) : Nat := (l.lower - n).toNat + (n - l.upper).toNat

theorem Limits.distance_eq_zero_iff {l : Limits} {n : Nat} :
    l.distance n = 0 ↔ l.lower ≤ n ∧ (n : Int) ≤ l.upper := by
  unfold distance
  omega

namespace Cluster

variable {c c' : Cluster} {limits : Limits}

/-- How far alive brokers are from the limits, and how many replicas dead ones have. -/
def imbalance (limits : Limits) : Cluster → Nat :=
  weight fun s n ↦ if s = .dead then n else limits.distance n

/-- How many replicas dead brokers have. -/
def leftovers : Cluster → Nat := weight fun s n ↦ if s = .dead then n else 0

theorem leftovers_le_imbalance (limits : Limits) (c : Cluster) :
    c.leftovers ≤ c.imbalance limits := by
  refine weight_mono (fun s n ↦ ?_) c
  split
  · exact le_rfl
  · exact Nat.zero_le _

theorem imbalance_track (limits : Limits) (name : String) (criteria : Criteria) (c : Cluster) :
    (c.track name criteria).imbalance limits = c.imbalance limits :=
  weight_congr (brokers_track name criteria c) (fun _ ↦ rfl) fun _ ↦ rfl

/-- A move lowers the imbalance and brings no alive broker further away from the limits. -/
structure Improves (limits : Limits) (c : Cluster) (_ : Move) (c' : Cluster) : Prop where
  imbalance_lt : c'.imbalance limits < c.imbalance limits
  distance_le : ∀ id, c.Alive id → limits.distance (c'.count id) ≤ limits.distance (c.count id)

/-- A broker within the limits stays there. -/
theorem Improves.within {m : Move} {id : BrokerId} (h : Improves limits c m c')
    (halive : c.Alive id) (hlow : limits.lower ≤ c.count id)
    (hup : (c.count id : Int) ≤ limits.upper) :
    limits.lower ≤ c'.count id ∧ (c'.count id : Int) ≤ limits.upper := by
  have hzero := Limits.distance_eq_zero_iff.2 ⟨hlow, hup⟩
  have hle := h.distance_le id halive
  rw [hzero] at hle
  exact Limits.distance_eq_zero_iff.1 (Nat.le_zero.1 hle)

end Cluster

/-! ## Moves -/

namespace DistributionGoal

open Cluster (Improves)

variable {g g' : DistributionGoal} {guards : List Guard} {options : Options} {t t' : Stage}
  {candidates : List BrokerId} {i : ReplicaId} {r : Replica} {d id : BrokerId} {m : Move}

/-- What a move does to a sum over the brokers: the destination is alive and gains a replica, and
the source loses one. -/
theorem Moves.weight_eq (h : t.cluster.Sound)
    (hmoves : g.Moves guards options t candidates i r d t') (hon : t.cluster.On r.broker i r)
    (w : BrokerState → Nat → Nat) :
    ∃ s s', (s ≠ .dead ↔ t.cluster.Alive r.broker) ∧ s' ≠ .dead ∧
      t'.cluster.weight w + (w s (t.cluster.count r.broker) + w s' (t.cluster.count d)) =
        t.cluster.weight w +
          (w s (t.cluster.count r.broker - 1) + w s' (t.cluster.count d + 1)) := by
  obtain ⟨hm, hcluster⟩ := hmoves.relocated.eq_moved h hon
  obtain ⟨b', hd, halive⟩ := (hmoves.fits h).alive
  obtain ⟨b, hs⟩ := h.exists_broker?_of_on hon
  refine ⟨b.state, b'.state, ?_, of_decide_eq_true halive, ?_⟩
  · rw [alive_iff_isAlive hs]
    exact decide_eq_true_iff.symm
  · rw [hcluster, count_of_broker? hs, count_of_broker? hd]
    exact h.weight_moved hm w hs hd

/-- While the limits are regarded, no alive broker comes further away from them. -/
theorem Moves.distance_le (h : t.cluster.Sound) (hev : g.evacuating = false)
    (hmoves : g.Moves guards options t candidates i r d t') (halive : t.cluster.Alive id) :
    g.limits.distance (t'.cluster.count id) ≤ g.limits.distance (t.cluster.count id) := by
  have hwithin := hmoves.within h hev
  have hup := hwithin.upper
  unfold Limits.distance
  by_cases hd : id = d
  · subst hd
    have hcount := hmoves.count_destination h
    omega
  · by_cases hs : id = r.broker
    · subst hs
      have hlow := hwithin.lower halive
      have hcount := hmoves.count_source h
      omega
    · rw [hmoves.count_other h hd hs]

/-- A replica that moves from a dead broker or one above the upper limit, or to one below the lower
limit, improves the cluster. -/
theorem Moves.improves (h : t.cluster.Sound) (hev : g.evacuating = false)
    (hle : g.limits.lower ≤ g.limits.upper)
    (hmoves : g.Moves guards options t candidates i r d t') (hon : t.cluster.On r.broker i r)
    (hgain : (t.cluster.Alive r.broker → g.limits.upper < t.cluster.count r.broker) ∨
      (t.cluster.count d : Int) < g.limits.lower) :
    Improves g.limits t.cluster m t'.cluster := by
  refine ⟨?_, fun _ ↦ hmoves.distance_le h hev⟩
  obtain ⟨s, s', hs, hs', hweight⟩ := hmoves.weight_eq h hon
    fun s n ↦ if s = .dead then n else g.limits.distance n
  have hwithin := hmoves.within h hev
  have hup := hwithin.upper
  have hsource := hmoves.count_source h
  change t'.cluster.weight _ < t.cluster.weight _
  simp only [if_neg hs'] at hweight
  by_cases hdead : s = .dead
  · simp only [if_pos hdead] at hweight
    unfold Limits.distance at *
    omega
  · have halive := hs.1 hdead
    have hlow := hwithin.lower halive
    have hgain' := hgain.imp_left fun hmany ↦ hmany halive
    simp only [if_neg hdead] at hweight
    unfold Limits.distance at *
    omega

namespace Advances

/-- While the limits are regarded every step improves the cluster. -/
theorem improves (h : g.Advances guards options t t') (hev : g.evacuating = false)
    (hle : g.limits.lower ≤ g.limits.upper) : Improves g.limits t.cluster m t'.cluster := by
  obtain ⟨g', id, halike, -, hstep⟩ := h.step
  have hev' := halike.evacuating.trans hev
  rw [← halike.limits] at hle ⊢
  cases hstep with
  | drains hdrains =>
    obtain ⟨s, i, r, d, -, rfl, -, hon, hmoves⟩ := hdrains.moves
    exact hmoves.improves h.sound hev' hle hon (.inl hdrains.many)
  | fills hfills =>
    obtain ⟨i, r, -, -, hon, hmoves⟩ := hfills.moves
    exact hmoves.improves h.sound hev' hle hon (.inr hfills.few)

/-- When dead brokers are evacuated every step takes a replica off one. -/
theorem evacuates (h : g.Advances guards options t t') (hev : g.evacuating = true)
    (hm : t'.moves = t.moves ++ [m]) :
    t.cluster.Dead m.source ∧ t'.cluster.leftovers < t.cluster.leftovers := by
  obtain ⟨g', id, -, hdead, hstep⟩ := h.step
  cases hstep with
  | drains hdrains =>
    obtain ⟨s, i, r, d, -, rfl, -, hon, hmoves⟩ := hdrains.moves
    have hd := hdead hev
    obtain rfl := hmoves.eq_of_moves hm
    refine ⟨hd, ?_⟩
    obtain ⟨s, s', hs, hs', hweight⟩ := hmoves.weight_eq h.sound hon
      fun s n ↦ if s = .dead then n else 0
    have hs : s = .dead := not_not.1 fun hne ↦ Cluster.not_dead_of_alive (hs.1 hne) hd
    have hsource := hmoves.count_source h.sound
    simp only [if_pos hs, if_neg hs'] at hweight
    change t'.cluster.weight _ < t.cluster.weight _
    omega
  | fills hfills =>
    obtain ⟨i, r, -, -, hon, hmoves⟩ := hfills.moves
    exact absurd (hdead hev) (Cluster.not_dead_of_alive (hmoves.fits h.sound).alive)

end Advances

/-- Every move of the first round lowers the imbalance, every other one takes a replica off a dead
broker, and there are no more of them than the imbalance at first. -/
theorem Account.exists_progress {p p' : Plan} {x : Except Fault Bool}
    (h : Account guards options g p x g' p') (ht : p.cluster.Sound)
    (hdisk : ∀ r ∈ p.cluster.replicas, r.load.of .disk ≠ .nan) {limits : Limits}
    (hlimits : Limits.of p.cluster.size p.cluster.aliveBrokers.length g.constraint.percentage =
      .ok limits) (hle : limits.lower ≤ limits.upper) :
    ∃ first second c, p'.journal = p.journal ++ first ++ second ∧
      Itinerary (Improves limits) (fun c m _ ↦ c.Dead m.source)
        (p.cluster.track g.name (criteria options)) first second c ∧
      first.moves.length + second.moves.length ≤ p.cluster.imbalance limits := by
  obtain ⟨first, second, c, hj, ⟨hfirst, hsecond, c₁, hearly, hlate⟩, -⟩ :=
    h.travels_of_advances (Improves limits)
      (fun c m c' ↦ c.Dead m.source ∧ c'.leftovers < c.leftovers) ht hdisk
      (fun hev _ h hm ↦ h.evacuates hev hm) fun hlimits' _ h _ ↦ by
        obtain rfl := Except.ok.inj (hlimits'.symm.trans hlimits)
        exact h.improves rfl hle
  refine ⟨first, second, c, hj, ⟨hfirst, hsecond, c₁, hearly, ?_⟩, ?_⟩
  · exact hlate.mono fun _ _ _ h ↦ h.1
  · have hbound := hearly.length_add_le fun _ _ _ h ↦ h.imbalance_lt
    have hbound' := hlate.length_add_le fun _ _ _ h ↦ h.2
    rw [Cluster.imbalance_track] at hbound
    calc first.moves.length + second.moves.length
        ≤ first.moves.length + c₁.leftovers :=
          Nat.add_le_add_left (Nat.le_of_add_right_le hbound') _
      _ ≤ first.moves.length + c₁.imbalance limits :=
          Nat.add_le_add_left (Cluster.leftovers_le_imbalance limits c₁) _
      _ ≤ p.cluster.imbalance limits := hbound

end DistributionGoal

open DistributionGoal (pursue exists_account Itinerary)
open Cluster (Improves)

/-- After any history in which the use of disks is a number, for any guards, options and whatever
was written before: as long as a pursuit does not give up the limits, every move lowers the
imbalance and brings no alive broker further away from the limits, and from then on every move takes
a replica off a dead broker. Whether the pursuit ends in a result or a fault, it makes at most as
many moves as the imbalance is when it begins. -/
theorem moves_le_imbalance (operations : List Operation)
    (hdisk : ∀ r ∈ (Cluster.after operations).replicas, r.load.of .disk ≠ .nan)
    (guards : List Guard) (options : Options) (journal : Journal) {g : DistributionGoal}
    {limits : Limits}
    (hlimits : Limits.of (Cluster.after operations).size
      (Cluster.after operations).aliveBrokers.length g.constraint.percentage = .ok limits)
    (hle : limits.lower ≤ limits.upper) :
    ∃ first second c,
      (stateAfter (pursue guards options) (g, ⟨.after operations, journal⟩)).2.journal =
        journal ++ first ++ second ∧
      Itinerary (Improves limits) (fun c m _ ↦ c.Dead m.source)
        ((Cluster.after operations).track g.name (DistributionGoal.criteria options))
        first second c ∧
      first.moves.length + second.moves.length ≤ (Cluster.after operations).imbalance limits := by
  have hsound := Cluster.sound_after operations
  obtain ⟨x, haccount, -⟩ := exists_account (p := ⟨.after operations, journal⟩) hsound g
  exact haccount.exists_progress hsound hdisk hlimits hle

/-- A dead broker with two replicas, one of which fits on an alive broker only once the limits are
given up. -/
def Operation.displaced : List Operation :=
  [.addBroker 0 none .alive, .addBroker 1 none .alive, .addBroker 2 none .dead,
    .place ⟨"a", 0⟩ 0 true {}, .place ⟨"b", 0⟩ 0 true {}, .place ⟨"e", 0⟩ 0 true {},
    .place ⟨"f", 0⟩ 0 true {}, .place ⟨"c", 0⟩ 1 true {}, .place ⟨"c", 0⟩ 2 false {},
    .place ⟨"d", 0⟩ 2 true {}]

/-- One replica moves in each round, and the imbalance is four. -/
theorem moves_le_imbalance_displaced :
    (stateAfter (pursue [] {}) ({}, ⟨.after Operation.displaced, #[]⟩)).2.journal.moves =
        [.replica ⟨"d", 0⟩ 2 1, .replica ⟨"c", 0⟩ 2 0] ∧
      (Cluster.after Operation.displaced).imbalance ⟨3, 4, .ofRatio false 7 2⟩ = 4 ∧
      ∃ first second c,
        (stateAfter (pursue [] {}) ({}, ⟨.after Operation.displaced, #[]⟩)).2.journal =
          #[] ++ first ++ second ∧
        Itinerary (Improves ⟨3, 4, .ofRatio false 7 2⟩) (fun c m _ ↦ c.Dead m.source)
          ((Cluster.after Operation.displaced).track "ReplicaDistributionGoal"
            (DistributionGoal.criteria {})) first second c ∧
        first.moves.length + second.moves.length ≤
          (Cluster.after Operation.displaced).imbalance ⟨3, 4, .ofRatio false 7 2⟩ := by
  refine ⟨by decide +kernel, by decide +kernel, ?_⟩
  exact moves_le_imbalance Operation.displaced (by decide +kernel) [] {} #[] (by decide +kernel)
    (by decide)

end Rebalance
