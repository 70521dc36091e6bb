import Rebalance.Proofs.Distribution.Diagnostics
import Rebalance.Proofs.Distribution.Evacuation

/-!
# Balance where nothing is in the way

If no partition has a second copy, every replica fits on every broker that has room. Then a broker
that cannot be drained has left no room anywhere, and one that cannot be filled has left nothing to
give. Counting shows that there would have to be more replicas than the upper limits allow, or fewer
than the lower ones demand. So a pursuit ends with every broker within the limits.
-/

namespace Rebalance

namespace DistributionGoal

variable {measured : Resource → Prop} {g g' : DistributionGoal} {t t' : Stage} {id d e : BrokerId}
  {i : ReplicaId} {r : Replica} {b : Broker} {c c' : Cluster}

/-- No partition has a second copy, and the limits of all brokers together leave room for as many
replicas as there are, and ask for no more. -/
structure Unobstructed (limits : Limits) (c : Cluster) : Prop where
  single : c.Single
  enough : limits.lower * c.brokers.length ≤ c.size
  room : c.size ≤ limits.upper * c.brokers.length

/-- Where replicas are does not matter to that. -/
theorem Unobstructed.congr {limits : Limits} (h : Unobstructed limits c)
    (horigins : c'.origins = c.origins) (hstates : c'.states = c.states) :
    Unobstructed limits c' := by
  have hsize : c'.size = c.size := by
    have hlen := congrArg List.length horigins
    rwa [Cluster.origins, Cluster.origins, List.length_map, List.length_map] at hlen
  have hbrokers : c'.brokers.length = c.brokers.length := by
    have hlen := congrArg List.length hstates
    rwa [Cluster.states, Cluster.states, List.length_map, List.length_map] at hlen
  refine ⟨fun tp ↦ ?_, ?_, ?_⟩
  · rw [Cluster.length_copies, horigins, ← Cluster.length_copies]
    exact h.single tp
  · rw [hsize, hbrokers]
    exact h.enough
  · rw [hsize, hbrokers]
    exact h.room

section

variable (h : c.Stable measured) (hclear : Unobstructed g.limits c)

include h hclear

/-- What is on a broker above the lower limit fits on every other one below the upper limit. -/
theorem Unobstructed.fits (hon : c.On e i r) (hd : c.Alive d) (hne : d ≠ e)
    (hup : (c.count d : Int) < g.limits.upper) (hlow : g.limits.lower < c.count e) :
    g.Fits {} c r d := by
  obtain rfl := h.broker_of_on hon
  refine ⟨hne, rfl, hd, hclear.single.vacant h.toSound hon.replica?_eq hne, .inr ⟨hup, ?_, ?_⟩⟩
  · intro _
    exact hlow
  · intro _
    exact h.toSound.count_pos hon

variable (hplain : Plain {} c) (hlow : 0 ≤ g.limits.lower) (hle : g.limits.lower ≤ g.limits.upper)

include hplain hlow hle

/-- Where something is stuck on a broker above the upper limit, there are too many replicas. -/
theorem Unobstructed.not_stuck (hb : b ∈ c.brokers) (hmany : g.limits.upper < b.count)
    (hstuck : ∀ i r, c.On b.id i r → g.Stuck [] {} c r) : False := by
  rw [← h.count_of_mem hb] at hmany
  have hpos : 0 < c.count b.id := by omega
  obtain ⟨i, r, hon⟩ := h.toSound.exists_on hpos
  have hfull : ∀ b' ∈ c.brokers, g.limits.upper ≤ b'.count := by
    intro b' hb'
    rw [← h.count_of_mem hb']
    by_contra hroom
    have hne : b'.id ≠ b.id := by
      intro heq
      rw [heq] at hroom
      omega
    rcases hstuck i r hon with hstay | hnone
    · cases hstay
    · have halive := Cluster.alive_of_hasDead_eq_false hplain.hasDead (h.broker?_of_mem hb')
      have hfits := hclear.fits h hon halive hne (by omega) (by omega)
      exact hnone b'.id ⟨hfits, by simp⟩
  rw [h.count_of_mem hb] at hmany
  exact absurd hclear.room (not_le.2 (h.mul_lt_size hfull hb hmany))

/-- Where nothing is offered that fits a broker below the lower limit, there are too few replicas.
-/
theorem Unobstructed.not_spent (hb : b ∈ c.brokers) (hfew : (b.count : Int) < g.limits.lower)
    (hspent : ∀ e, c.Alive e → e ≠ b.id → g.Spent [] {} c b.id e) : False := by
  have hpoor : ∀ b' ∈ c.brokers, (b'.count : Int) ≤ g.limits.lower := by
    intro b' hb'
    have hcount := h.count_of_mem hb
    have hcount' := h.count_of_mem hb'
    by_contra hrich
    have hne : b'.id ≠ b.id := by
      intro heq
      rw [heq] at hcount'
      omega
    have halive := Cluster.alive_of_hasDead_eq_false hplain.hasDead (h.broker?_of_mem hb)
    have halive' := Cluster.alive_of_hasDead_eq_false hplain.hasDead (h.broker?_of_mem hb')
    have hpos : 0 < c.count b'.id := by omega
    obtain ⟨i, r, hon⟩ := h.toSound.exists_on hpos
    have hoffered : Offered {} c r := by
      refine ⟨rfl, fun hdead ↦ ?_⟩
      rw [hplain.hasDead] at hdead
      cases hdead
    rcases hspent b'.id halive' hne i r hon hoffered with hstay | hno
    · cases hstay
    · have hfits := hclear.fits h hon halive hne.symm (by omega) (by omega)
      exact hno ⟨hfits, by simp⟩
  exact absurd hclear.enough (not_le.2 (h.size_lt_mul hpoor hb hfew))

end

/-- What lasts while brokers are tended where nothing is in the way. -/
structure Clear (measured : Resource → Prop) (g : DistributionGoal) (c : Cluster) : Prop extends
    c.Intact measured g.name (criteria {}) where
  plain : Plain {} c
  unobstructed : Unobstructed g.limits c

section

variable (ht : Clear measured g t.cluster) (hev : g.evacuating = false)
  (hlow : 0 ≤ g.limits.lower) (hle : g.limits.lower ≤ g.limits.upper)

include ht

theorem Tended.clear {x : Except Fault Unit} (h : Tended [] {} id g t x g' t')
    (hb : t.cluster.broker? id = some b) (hx : x = .ok ()) : Clear measured g t'.cluster := by
  have hintact := (Law.intact g [] {} t.cluster.states measured g.name t.cluster.Spreadable).tended
    h hb ⟨ht.toSound, rfl, ht.toIntact, Iff.rfl⟩
  have horigins := (Law.origins g [] {} t.cluster.origins).tended h hb ⟨ht.toSound, rfl⟩
  subst hx
  exact ⟨hintact.holds.1, ht.plain.congr hintact.states_eq,
    ht.unobstructed.congr horigins.2 hintact.states_eq⟩

include hev hlow hle

/-- No broker is recorded. -/
theorem Tended.eq_of_clear (h : Tended [] {} id g t (.ok ()) g' t') : g' = g := by
  have hev' : ∀ {b : Broker}, g.evacuating = true → b.isAlive = false := fun h ↦ by
    rw [hev] at h
    cases h
  have hclear : ∀ {b}, t.cluster.broker? id = some b → Clear measured g t'.cluster :=
    fun hb ↦ h.clear ht hb rfl
  have hstates := (h.sound ht.toSound).2
  cases h with
  | exempt => rfl
  | balanced => rfl
  | above hb _ hlowered =>
    obtain rfl := Cluster.id_of_broker? hb
    exfalso
    have ht' := hclear hb
    obtain ⟨b', hb'⟩ := Cluster.exists_broker?_of_states hstates hb
    have halive := Cluster.alive_of_hasDead_eq_false ht.plain.hasDead hb
    have hmore := hlowered.more ht.toSound ht.faithful hb hev'
    rw [ceiling, if_pos ((alive_iff_isAlive hb).1 halive), count_of_broker? hb'] at hmore
    refine ht'.unobstructed.not_stuck ht'.toStable ht'.plain hlow hle (Cluster.mem_of_broker? hb')
      hmore fun i r hon ↦ ?_
    rw [Cluster.id_of_broker? hb'] at hon
    exact hlowered.stuck ht.toSound ht.faithful hb hev' (by simp) hon (ht.plain.admits r)
  | under hb _ hlowered hraised =>
    obtain rfl := Cluster.id_of_broker? hb
    exfalso
    have ht' := hclear hb
    obtain ⟨b', hb'⟩ := Cluster.exists_broker?_of_states hstates hb
    obtain rfl := hlowered.eq_of_not_tooMany (not_tooMany_of_tooFew hle hraised.tooFew)
    have hless := hraised.few ht.toSound ht.faithful hb
    rw [count_of_broker? hb'] at hless
    refine ht'.unobstructed.not_spent ht'.toStable ht'.plain hlow hle (Cluster.mem_of_broker? hb')
      hless fun e halive hne ↦ ?_
    rw [Cluster.id_of_broker? hb'] at hne ⊢
    exact hraised.spent ht.toSound ht.faithful hb (by simp)
      ((Cluster.alive_congr hstates).1 halive) hne

end

/-- A round records no broker. -/
theorem TendedAll.eq_of_clear {ids : List BrokerId} {x : Except Fault Unit}
    (h : TendedAll [] {} ids g t x g' t') (hx : x = .ok ()) (ht : Clear measured g t.cluster)
    (hev : g.evacuating = false) (hlow : 0 ≤ g.limits.lower)
    (hle : g.limits.lower ≤ g.limits.upper)
    (hids : ∀ id ∈ ids, id ∈ t.cluster.states.map Prod.fst) : g' = g := by
  induction h with
  | nil => rfl
  | cons htended _ ih =>
    rw [List.forall_mem_cons] at hids
    obtain ⟨b, hb⟩ := Cluster.exists_broker?_iff.2 hids.1
    have ht' := htended.clear ht hb rfl
    have hstates := (htended.sound ht.toSound).2
    obtain rfl := htended.eq_of_clear ht hev hlow hle
    exact ih hx ht' hev hlow hle (hstates ▸ hids.2)
  | failed => cases hx

/-! ## The pursuit -/

/-- Where nothing is in the way a pursuit is satisfied, and every broker ends within the limits. -/
theorem Pursued.balanced {x : Except Fault Bool} {limits : Limits} (ht : t.cluster.Stable measured)
    (hdisk : measured .disk) (hplain : Plain {} t.cluster)
    (hclear : Unobstructed limits t.cluster) (hlow : 0 ≤ limits.lower)
    (hle : limits.lower ≤ limits.upper)
    (hlimits : Limits.of t.cluster.size t.cluster.aliveBrokers.length g.constraint.percentage =
      .ok limits) (h : Pursued [] {} g t x g' t') :
    x = .ok true ∧ g'.limits = limits ∧ ∀ b ∈ t'.cluster.brokers, g'.InLimits b := by
  have hintact : (g.tracked {} t).cluster.Intact measured g.name (criteria {}) := by
    refine ht.intact_track ?_
    rintro x ⟨⟩
    exact hdisk
  have hstates := Cluster.states_track g.name (criteria {}) t.cluster
  have hstart : Clear measured { g.renewed with limits } (g.tracked {} t).cluster :=
    ⟨hintact, hplain.congr hstates, hclear.congr rfl hstates⟩
  obtain ⟨y, g₁, t₁, htended, hends⟩ :=
    h.of_hasDead ht.toSound hplain.hasDead hlimits
  obtain rfl := htended.eq_ok hintact mem_brokersToBalance
  obtain rfl := htended.eq_of_clear rfl hstart rfl hlow hle mem_brokersToBalance
  obtain ⟨-, rfl, rfl, -⟩ | ⟨f, hf, -⟩ := hends
  · obtain ⟨-, habove, hunder⟩ := h.recorded ht.toSound hplain
      (fun r hr ↦ ht.numeric r hr .disk hdisk) hlow hle
    have hmany := habove.isEmpty_iff.1 rfl
    have hfew := hunder.isEmpty_iff.1 rfl
    exact ⟨rfl, rfl, fun b hb ↦ ⟨Int.not_lt.1 (hfew b hb), Int.not_lt.1 (hmany b hb)⟩⟩
  · cases hf

end DistributionGoal

open DistributionGoal (pursue comes_pursue)

/-- After any history in which views order by numbers, when all brokers are alive and none is new,
no partition has a second copy and the limits leave room for all replicas without asking for more: a
pursuit without guards and restrictions is satisfied and leaves every broker within the limits. -/
theorem balanced_of_unobstructed {measured : Resource → Prop} (operations : List Operation)
    (hmeasured : ∀ o ∈ operations, o.IsMeasured measured) (hdisk : measured .disk)
    {g : DistributionGoal} {limits : Limits}
    (halive : ∀ b ∈ (Cluster.after operations).brokers, b.state = .alive)
    (hsingle : (Cluster.after operations).Single)
    (hlimits : Limits.of (Cluster.after operations).size
      (Cluster.after operations).aliveBrokers.length g.constraint.percentage = .ok limits)
    (hlow : 0 ≤ limits.lower) (hle : limits.lower ≤ limits.upper)
    (henough : limits.lower * (Cluster.after operations).brokers.length ≤
      (Cluster.after operations).size)
    (hroom : (Cluster.after operations).size ≤
      limits.upper * (Cluster.after operations).brokers.length) :
    ∃ g' p', pursue [] {} (g, { cluster := .after operations }) = .ok true (g', p') ∧
      g'.limits = limits ∧ ∀ b ∈ p'.cluster.brokers, g'.InLimits b := by
  have hstable := Cluster.stable_after hmeasured
  have hcomes : DistributionGoal.Comes (pursue [] {}) g { cluster := .after operations }
      (DistributionGoal.Pursued [] {} g ⟨.after operations, []⟩) :=
    comes_pursue (p := { cluster := .after operations }) hstable.toSound
  have hclear : DistributionGoal.Unobstructed limits (.after operations) :=
    ⟨hsingle, henough, hroom⟩
  have hbalanced : ∀ {x g' t'}, DistributionGoal.Pursued [] {} g ⟨.after operations, []⟩ x g' t' →
      x = .ok true ∧ g'.limits = limits ∧ ∀ b ∈ t'.cluster.brokers, g'.InLimits b := fun h ↦
    h.balanced hstable hdisk (.of_states rfl halive) hclear hlow hle hlimits
  cases hpursue : pursue [] {} (g, { cluster := .after operations }) with
  | ok satisfied s =>
    obtain ⟨hx, hin⟩ := hbalanced (hcomes.of_ok hpursue)
    obtain rfl := Except.ok.inj hx
    exact ⟨s.1, s.2, rfl, hin⟩
  | error f s =>
    obtain ⟨hx, -⟩ := hbalanced (hcomes.of_error hpursue)
    cases hx

/-- Five replicas on one of three brokers. -/
theorem balanced_of_unobstructed_crowded :
    ∃ g' p', pursue [] {} ({}, { cluster := .after [.addBroker 0 none .alive,
      .addBroker 1 none .alive, .addBroker 2 none .alive, .place ⟨"a", 0⟩ 1 true {},
      .place ⟨"a", 1⟩ 1 true {}, .place ⟨"a", 2⟩ 1 true {}, .place ⟨"a", 3⟩ 1 true {},
      .place ⟨"a", 4⟩ 1 true {}] }) = .ok true (g', p') ∧
      g'.limits = ⟨1, 2, .ofRatio false 5 3⟩ ∧ ∀ b ∈ p'.cluster.brokers, g'.InLimits b := by
  refine balanced_of_unobstructed _ (?_ : ∀ o ∈ _, Operation.IsMeasured (fun _ ↦ True) o) trivial
    (by decide +kernel) (by decide +kernel) (by decide +kernel) (by decide) (by decide)
    (by decide +kernel) (by decide +kernel)
  simp [Operation.IsMeasured, Load.isNumeric_default]

/-- A history in which a view orders by a use of processors that is not a number; three replicas
leave the broker and three others are placed there. -/
def Operation.drifted : List Operation :=
  [.addBroker 0 none .alive, .addBroker 1 none .alive, .addBroker 2 none .alive,
    .place ⟨"t", 0⟩ 0 false { cpu := 2 }, .place ⟨"t", 1⟩ 0 false { cpu := .nan },
    .place ⟨"t", 2⟩ 0 false { cpu := 1 }, .place ⟨"t", 3⟩ 0 false { cpu := 2 },
    .track "v" { score := some .cpu }, .relocate ⟨"t", 0⟩ 0 1, .relocate ⟨"t", 1⟩ 0 1,
    .relocate ⟨"t", 2⟩ 0 2, .place ⟨"t", 4⟩ 0 false {}, .place ⟨"t", 5⟩ 0 false {},
    .place ⟨"t", 6⟩ 0 false {}]

/-- The view cannot find the replica that is to leave the broker. So the pursuit fails, although
nothing is in the way and the use of disks is a number. -/
theorem unbalanced_out_of_order :
    (∃ f s, pursue [] {} ({}, { cluster := .after Operation.drifted }) = .error f s ∧
      f = .viewOutOfOrder) ∧
    (Cluster.after Operation.drifted).brokers ≠ [] ∧
    (∀ b ∈ (Cluster.after Operation.drifted).brokers, b.state = .alive) ∧
    (Cluster.after Operation.drifted).Single ∧
    (∀ r ∈ (Cluster.after Operation.drifted).replicas, r.load.of .disk ≠ .nan) ∧
    Limits.of (Cluster.after Operation.drifted).size
      (Cluster.after Operation.drifted).aliveBrokers.length Constraint.standard.percentage =
        .ok ⟨2, 3, .ofRatio false 7 3⟩ ∧
    2 * (Cluster.after Operation.drifted).brokers.length ≤ (Cluster.after Operation.drifted).size ∧
    (Cluster.after Operation.drifted).size ≤
      3 * (Cluster.after Operation.drifted).brokers.length := by
  refine ⟨Ends.exists_error (by decide +kernel : Ends (pursue [] {})
    ({}, { cluster := .after Operation.drifted }) (fun _ _ ↦ False)
    fun f _ ↦ f = .viewOutOfOrder), ?_⟩
  decide +kernel

end Rebalance
