import Rebalance.Distribution.Goal
import Rebalance.Proofs.Attempt

/-!
# What the distribution goal demands

For the goal, a replica fits a destination if the destination is alive and without the partition and
both brokers stay within the limits; when dead brokers are evacuated, limits do not count for what
leaves them. A replica may move exactly to where it fits and every guard accepts it. Guards that
distribution goals keep do not change their minds about a move while the destination only fills up
and the source only empties.
-/

namespace Rebalance.DistributionGoal

variable {g : DistributionGoal} {options : Options} {guards : List Guard} {c c' : Cluster}
  {s d : BrokerId} {b b' : Broker} {r : Replica} {f : Fault} {t t' : Stage}

/-- One more replica on the destination does not exceed the upper limit, and one less on the source
does not fall below the lower one, if it is alive, or below none. -/
structure Within (g : DistributionGoal) (c : Cluster) (s d : BrokerId) : Prop where
  upper : (c.count d : Int) + 1 ≤ g.limits.upper
  lower : c.Alive s → g.limits.lower + 1 ≤ c.count s
  nonempty : c.Dead s → 1 ≤ c.count s

/-- The goal and the options let a replica move to a destination. -/
structure Fits (g : DistributionGoal) (options : Options) (c : Cluster) (r : Replica)
    (d : BrokerId) : Prop where
  ne : d ≠ r.broker
  allowed : options.allows .replicaMovement d = true
  alive : c.Alive d
  vacant : ¬ c.Hosts d r.partition
  within : g.evacuating = true ∧ c.Dead r.broker ∨ g.Within c r.broker d

/-- A replica fits a destination, and every guard accepts it there. -/
structure Suits (g : DistributionGoal) (guards : List Guard) (options : Options) (c : Cluster)
    (r : Replica) (d : BrokerId) : Prop extends g.Fits options c r d where
  accepted : ∀ γ ∈ guards, γ.judge (r.move d) c = .ok .accept

/-! ## Judging -/

theorem count_of_broker? (hb : c.broker? s = some b) : c.count s = b.count := by
  rw [Cluster.count, hb]
  rfl

theorem alive_iff_isAlive (hb : c.broker? s = some b) : c.Alive s ↔ b.isAlive = true := by
  constructor
  · rintro ⟨b', hb', halive⟩
    rw [hb] at hb'
    rwa [Option.some.inj hb']
  · intro halive
    exact ⟨b, hb, halive⟩

theorem dead_iff_isAlive (hb : c.broker? s = some b) : c.Dead s ↔ b.isAlive = false := by
  constructor
  · rintro ⟨b', hb', hdead⟩
    rw [hb] at hb'
    rwa [Option.some.inj hb']
  · intro hdead
    exact ⟨b, hb, hdead⟩

/-- Brokers stay alive or dead as long as the states are the same. -/
theorem isAlive_congr (hstates : c'.states = c.states) (hb : c.broker? d = some b)
    (hb' : c'.broker? d = some b') : b'.isAlive = b.isAlive := by
  rw [Bool.eq_iff_iff, ← alive_iff_isAlive hb, ← alive_iff_isAlive hb', Cluster.alive_congr hstates]

theorem judge_move (hs : c.broker? r.broker = some b) (hd : c.broker? d = some b') :
    g.judge (r.move d) c = .ok (if (b'.count : Int) + 1 ≤ g.ceiling b' ∧
      g.bottom b ≤ (b.count : Int) - 1 then .accept else .rejectReplica) := by
  unfold judge Replica.move
  dsimp only
  rw [Cluster.broker_eq_ok_iff.2 hs, Cluster.broker_eq_ok_iff.2 hd]
  exact (apply_ite Except.ok ..).symm

theorem judge_move_iff (hs : c.broker? r.broker = some b) (hd : c.Alive d) :
    g.judge (r.move d) c = .ok .accept ↔ g.Within c r.broker d := by
  obtain ⟨b', hb', halive⟩ := hd
  rw [judge_move hs hb', Except.ok.injEq]
  have hceiling : g.ceiling b' = g.limits.upper := if_pos halive
  have hiff : ((b'.count : Int) + 1 ≤ g.ceiling b' ∧ g.bottom b ≤ (b.count : Int) - 1) ↔
      g.Within c r.broker d := by
    rw [hceiling, bottom]
    constructor
    · rintro ⟨hup, hlow⟩
      refine ⟨by rwa [count_of_broker? hb'], ?_, ?_⟩
      · intro ha
        rw [alive_iff_isAlive hs] at ha
        rw [if_pos ha] at hlow
        rw [count_of_broker? hs]
        omega
      · intro hdead
        rw [dead_iff_isAlive hs] at hdead
        rw [hdead, if_neg Bool.false_ne_true] at hlow
        rw [count_of_broker? hs]
        omega
    · rintro ⟨hup, hlow, hne⟩
      rw [count_of_broker? hb'] at hup
      rw [count_of_broker? hs, alive_iff_isAlive hs] at hlow
      rw [count_of_broker? hs, dead_iff_isAlive hs] at hne
      refine ⟨hup, ?_⟩
      split
      · rename_i ha
        have := hlow ha
        omega
      · rename_i hdead
        have := hne (Bool.not_eq_true _ ▸ hdead)
        omega
  rw [← hiff]
  split
  · rename_i hw
    exact iff_of_true rfl hw
  · rename_i hw
    exact iff_of_false nofun hw

/-- An action satisfies the goal if it is accepted; evacuating, any that takes a replica off a dead
broker does. -/
theorem demand_move_iff (hs : c.broker? r.broker = some b) (hd : c.Alive d) :
    g.demand (r.move d) c = .ok true ↔
      g.evacuating = true ∧ c.Dead r.broker ∨ g.Within c r.broker d := by
  rw [← judge_move_iff hs hd, dead_iff_isAlive hs]
  have haccept : (do return (← g.judge (r.move d) c) = .accept : Except Fault Bool) = .ok true ↔
      g.judge (r.move d) c = .ok .accept := by
    cases g.judge (r.move d) c with
    | error f => exact iff_of_false nofun nofun
    | ok v => simp [pure, Except.pure, bind, Except.bind]
  unfold demand
  by_cases hev : g.evacuating = true
  · rw [if_pos ⟨hev, rfl⟩]
    change (c.broker r.broker >>= fun source ↦ if (!source.isAlive) = true then Except.ok true else
      (do return (← g.judge (r.move d) c) = .accept : Except Fault Bool)) = _ ↔ _
    rw [Cluster.broker_eq_ok_iff.2 hs]
    change (if (!b.isAlive) = true then _ else _) = _ ↔ _
    cases hb : b.isAlive with
    | true => simpa [hev] using haccept
    | false => simp [hev]
  · rw [if_neg fun h ↦ hev h.1]
    simpa [hev] using haccept

/-- Judging a move between brokers that are there cannot go wrong. -/
theorem demand_move_ne_error (hs : c.broker? r.broker = some b) (hd : c.broker? d = some b')
    (f : Fault) : g.demand (r.move d) c ≠ .error f := by
  unfold demand
  rw [judge_move hs hd]
  split
  · change (c.broker r.broker >>= _) ≠ _
    rw [Cluster.broker_eq_ok_iff.2 hs]
    change (if (!b.isAlive) = true then _ else _) ≠ _
    split <;> exact nofun
  · exact nofun

/-! ## Where a replica may move -/

/-- A replica may move exactly to where it fits and every guard accepts it. -/
theorem admissible_iff (h : c.Sound) (hs : c.broker? r.broker = some b) :
    Admissible g.demand guards options c r d ↔ g.Suits guards options c r d := by
  have hvacant : ∀ {b'}, c.broker? d = some b' →
      (b'.hosts r.partition = false ↔ ¬ c.Hosts d r.partition) := by
    intro b' hb'
    rw [← Bool.not_eq_true, h.hosts_iff (Cluster.mem_of_broker? hb'), Cluster.id_of_broker? hb']
  constructor
  · intro hadm
    obtain ⟨b', hb', halive, hhosts⟩ := hadm.legal
    refine ⟨⟨hadm.ne, hadm.allowed, ⟨b', hb', halive⟩, (hvacant hb').1 hhosts, ?_⟩, hadm.accepted⟩
    exact (demand_move_iff hs ⟨b', hb', halive⟩).1 hadm.demanded
  · rintro ⟨hfits, haccepted⟩
    obtain ⟨b', hb', halive⟩ := hfits.alive
    refine ⟨⟨⟨b', hb', halive, (hvacant hb').2 hfits.vacant⟩, ?_, haccepted⟩, hfits.ne,
      hfits.allowed⟩
    exact (demand_move_iff hs hfits.alive).2 hfits.within

/-- Whatever moves suits its destination. -/
theorem suits_of_relocated (h : t.cluster.Sound) (hmoved : Relocated t r d t')
    (hadm : Admissible g.demand guards options t.cluster r d) :
    g.Suits guards options t.cluster r d := by
  obtain ⟨i, r', -, hbroker, hm, -⟩ := hmoved.cluster
  obtain ⟨b, hb⟩ := h.exists_broker?_of_on hm.on
  exact (admissible_iff h (hbroker ▸ hb)).1 hadm

end Rebalance.DistributionGoal

/-! ## Guards that last -/

namespace Rebalance

/-- A guard that accepts a move would have accepted it before, when the destination had no more
replicas and the source no fewer. So what it refuses it goes on to refuse while the destination only
fills up and the source only empties. -/
def Guard.IsLasting (γ : Guard) : Prop :=
  ∀ (c c' : Cluster) (r : Replica) (d : BrokerId), c'.states = c.states →
    c.count d ≤ c'.count d → c'.count r.broker ≤ c.count r.broker →
    γ.judge (r.move d) c' = .ok .accept → γ.judge (r.move d) c = .ok .accept

namespace DistributionGoal

variable {g : DistributionGoal} {c c' : Cluster} {s d : BrokerId} {b b' : Broker} {r : Replica}

/-- The goal accepts a move exactly if both brokers are there and stay within their limits. -/
theorem judge_move_eq_accept_iff : g.judge (r.move d) c = .ok .accept ↔
    ∃ b b', c.broker? r.broker = some b ∧ c.broker? d = some b' ∧
      (b'.count : Int) + 1 ≤ g.ceiling b' ∧ g.bottom b ≤ (b.count : Int) - 1 := by
  constructor
  · intro h
    cases hs : c.broker? r.broker with
    | none =>
      unfold judge Replica.move at h
      rw [Cluster.broker_eq_error_iff.2 ⟨hs, rfl⟩] at h
      cases h
    | some b =>
      cases hd : c.broker? d with
      | none =>
        unfold judge Replica.move at h
        rw [Cluster.broker_eq_ok_iff.2 hs, Cluster.broker_eq_error_iff.2 ⟨hd, rfl⟩] at h
        cases h
      | some b' =>
        rw [judge_move hs hd, Except.ok.injEq] at h
        refine ⟨b, b', rfl, rfl, ?_⟩
        by_contra hno
        rw [if_neg hno] at h
        cases h
  · rintro ⟨b, b', hs, hd, hbounds⟩
    rw [judge_move hs hd, if_pos hbounds]

/-- Guards that distribution goals keep last. -/
theorem isLasting_guard (g : DistributionGoal) : g.guard.IsLasting := by
  intro c c' r d hstates hdest hsource haccept
  obtain ⟨b₁, b₁', hs₁, hd₁, hup, hlow⟩ := judge_move_eq_accept_iff.1 haccept
  obtain ⟨b, hs⟩ := Cluster.exists_broker?_of_states hstates.symm hs₁
  obtain ⟨b', hd⟩ := Cluster.exists_broker?_of_states hstates.symm hd₁
  rw [count_of_broker? hs, count_of_broker? hs₁] at hsource
  rw [count_of_broker? hd, count_of_broker? hd₁] at hdest
  rw [ceiling, isAlive_congr hstates hd hd₁] at hup
  rw [bottom, isAlive_congr hstates hs hs₁] at hlow
  refine judge_move_eq_accept_iff.2 ⟨b, b', hs, hd, ?_, ?_⟩
  · unfold ceiling
    omega
  · unfold bottom
    omega

end DistributionGoal

end Rebalance
