import Rebalance.Proofs.Distribution.Faultless
import Rebalance.Proofs.Distribution.Underway

/-!
# Passes are thorough

Without guards a pass stops exactly at its limit, or it leaves nothing that could still be moved:
off a broker that could not be drained, or onto one that could not be filled. What was refused once
in a pass is refused until its end, as the candidates only fill up and the sources only empty.
-/

namespace Rebalance

namespace DistributionGoal

open Relation (ReflTransGen)

variable {g : DistributionGoal} {guards : List Guard} {options : Options} {t t' : Stage} {p : Plan}
  {candidates : List BrokerId} {i : ReplicaId} {r : Replica} {d e id giver : BrokerId} {b : Broker}
  {s : BrokerSet} {enough : Int} {replicas : List ReplicaId} {wanted : Nat} {queue : List Fullness}
  {c : Cluster} {f : Fault}

/-! ## What a pass may fail with -/

/-- Without guards, offering a replica that is on a broker to brokers that are there fails only if a
view has lost it. -/
theorem Fails.eq_viewOutOfOrder (h : t.cluster.Sound) (hon : t.cluster.On id i r)
    (hcandidates : ∀ d ∈ candidates, ∃ b, t.cluster.broker? d = some b)
    (hfails : g.Fails [] options t candidates i f t') : f = .viewOutOfOrder := by
  obtain rfl := h.broker_of_on hon
  obtain ⟨-, d, -, hadm, hf⟩ := hfails.refused h hon hcandidates
  obtain ⟨b, hb, -, hvacant⟩ := hadm.legal
  exact (h.lost_of_refused ⟨i, r, hon, rfl⟩ hb hvacant hf).1

theorem Drained.eq_viewOutOfOrder {x : Except Fault Bool}
    (h : g.Drained [] options id enough replicas s t x t') (hx : x = .error f)
    (hd : g.Emptying options id enough replicas s t) : f = .viewOutOfOrder := by
  induction h with
  | spent => cases hx
  | skipped _ _ ih => exact ih hx hd.tail
  | moved hmoves hmore _ ih => exact ih hx (hd.next hmoves hmore)
  | sufficed => cases hx
  | failed hfails =>
    cases hx
    obtain ⟨r, hon, -⟩ := hd.pending.here _ List.mem_cons_self
    refine hfails.eq_viewOutOfOrder hd.sound hon fun d hmem ↦ ?_
    obtain ⟨⟨b, hb, -⟩, -⟩ := (hd.covers.mem_brokers d).1 hmem
    exact ⟨b, hb⟩

theorem Drawn.eq_viewOutOfOrder {x : Except Fault Ending}
    (h : g.Drawn [] options id giver queue wanted replicas t x t') (hx : x = .error f)
    (hd : g.Drawing options id giver wanted replicas t)
    (hid : ∃ b, t.cluster.broker? id = some b) : f = .viewOutOfOrder := by
  induction h with
  | spent => cases hx
  | skipped _ _ ih => exact ih hx hd.tail hid
  | filled => cases hx
  | overtaken => cases hx
  | moved hmoves hlt _ _ ih =>
    obtain ⟨b, hb⟩ := hid
    exact ih hx (hd.next hmoves hlt)
      (Cluster.exists_broker?_of_states hmoves.relocated.states_eq hb)
  | failed hfails =>
    cases hx
    obtain ⟨r, hon, -⟩ := hd.pending.here _ List.mem_cons_self
    refine hfails.eq_viewOutOfOrder hd.sound hon fun d hmem ↦ ?_
    rwa [List.mem_singleton.1 hmem]

theorem Filled.eq_viewOutOfOrder {x : Except Fault Bool}
    (h : g.Filled [] options id wanted queue t x t') (hx : x = .error f)
    (hf : g.Filling options id wanted queue t) (hid : ∃ b, t.cluster.broker? id = some b) :
    f = .viewOutOfOrder := by
  have hdrawn : ∀ {giver queue wanted replicas ending} {t t' : Stage},
      g.Drawn [] options id giver queue wanted replicas t (.ok ending) t' →
      g.Drawing options id giver wanted replicas t → (∃ b, t.cluster.broker? id = some b) →
      ∃ b, t'.cluster.broker? id = some b := by
    rintro giver queue wanted replicas ending t t' h hd ⟨b, hb⟩
    exact Cluster.exists_broker?_of_states (states_of_fills (h.fills rfl hd)) hb
  induction h with
  | spent => cases hx
  | unoffered hunoffered => exact absurd hunoffered hf.offers_ne_error
  | filled => cases hx
  | overtaken hoffers h _ ih =>
    exact ih hx (hf.overtaken hoffers h) (hdrawn h (hf.drawing hoffers).1 hid)
  | exhausted hoffers h _ ih =>
    exact ih hx (hf.exhausted hoffers h) (hdrawn h (hf.drawing hoffers).1 hid)
  | failed hoffers h =>
    cases hx
    exact h.eq_viewOutOfOrder rfl (hf.drawing hoffers).1 hid

/-! ## Draining -/

/-- Draining that reports success stops just when it is enough. -/
theorem Drained.count_eq {x : Except Fault Bool}
    (h : g.Drained guards options id enough replicas s t x t') (hx : x = .ok false)
    (hd : g.Emptying options id enough replicas s t) (henough : 0 ≤ enough) :
    (t'.cluster.count id : Int) = enough := by
  induction h with
  | @spent _ t =>
    have hmore := hd.more
    have hzero : ¬ 0 < t.cluster.count id := of_decide_eq_false (Except.ok.inj hx)
    omega
  | skipped _ _ ih => exact ih hx hd.tail
  | moved hmoves hmore _ ih => exact ih hx (hd.next hmoves hmore)
  | sufficed hmoves hle =>
    have hmore := hd.more
    obtain ⟨rfl, -, -⟩ := hd.pending.on_source hd.sound hmoves
    have hcount := hmoves.count_source hd.sound
    omega
  | failed => cases hx

/-- Steps that drain keep views faithful. -/
theorem faithful_of_drains {name : String} {criteria : Criteria}
    (h : ReflTransGen (g.Drains guards options id) t t') (ht : t.cluster.Sound)
    (hf : t.cluster.Faithful name criteria) :
    t'.cluster.Sound ∧ t'.cluster.states = t.cluster.states ∧
      t'.cluster.Faithful name criteria :=
  keeps_of_steps _ (fun h ↦ ⟨g, id, .drains h⟩) (fun ht hf h ↦ (Step.drains h).faithful ht hf) h ht
    hf

/-- Nothing that the view of a broker shows may leave it: each replica has to stay, or every alive
broker that the options allow has its partition already, or is full as far as limits count. -/
def NothingLeaves (g : DistributionGoal) (options : Options) (c : Cluster) (id : BrokerId) : Prop :=
  ∃ b v, c.broker? id = some b ∧ b.view g.name = .ok v ∧ ∀ i ∈ v.replicas, ∃ r, c.On id i r ∧
    (c.mustStay options.excludedTopics r = true ∨
      ∀ d, c.Alive d → d ∉ options.excludedBrokers →
        c.Hosts d r.partition ∨ g.evacuating = false ∧ g.limits.upper ≤ c.count d)

/-- What is stuck on a broker that holds too many replicas may not go anywhere. -/
theorem Stuck.nowhere (h : c.Sound) (hlimits : g.limits.lower ≤ g.limits.upper)
    (hon : c.On id i r) (hstuck : g.Stuck [] options c r)
    (hmany : c.Alive id → g.evacuating = false ∧ g.limits.upper < c.count id)
    (hmany' : c.Dead id → 0 < c.count id) :
    c.mustStay options.excludedTopics r = true ∨
      ∀ d, c.Alive d → d ∉ options.excludedBrokers →
        c.Hosts d r.partition ∨ g.evacuating = false ∧ g.limits.upper ≤ c.count d := by
  refine hstuck.imp_right fun hnone d halive hallowed ↦ ?_
  obtain rfl := h.broker_of_on hon
  by_contra hno
  rw [not_or, not_and, Int.not_le] at hno
  obtain ⟨hvacant, hroom⟩ := hno
  refine hnone d
    ⟨⟨?_, Options.allows_iff.2 fun _ ↦ hallowed, halive, hvacant, ?_⟩, fun γ hγ ↦ by cases hγ⟩
  · rintro rfl
    exact hvacant ⟨i, r, hon, rfl⟩
  · cases hev : g.evacuating with
    | true =>
      obtain ⟨b, hb⟩ := h.exists_broker?_of_on hon
      refine .inl ⟨rfl, (Cluster.alive_or_dead hb).resolve_left fun halive' ↦ ?_⟩
      rw [(hmany halive').1] at hev
      cases hev
    | false =>
      have hup := hroom hev
      refine .inr ⟨by omega, fun halive' ↦ ?_, fun hdead ↦ ?_⟩
      · have hmore := (hmany halive').2
        omega
      · have hmore := hmany' hdead
        omega

section

variable (ht : t.cluster.Sound) (hf : t.cluster.Faithful g.name (criteria options))
  (hb : t.cluster.broker? b.id = some b) (hev : g.evacuating = true → b.isAlive = false)

include ht hf hb hev

theorem Lowered.count_eq (h : g.Lowered guards options b t (.ok false) t') (hmany : g.TooMany b)
    (hceiling : 0 ≤ g.ceiling b) : (t'.cluster.count b.id : Int) = g.ceiling b := by
  cases h with
  | untouched hnot => exact absurd hmany hnot
  | drained _ hview hdrained =>
    exact hdrained.count_eq rfl (draining_of_tooMany ht hf hb hev hmany hview).1.emptying hceiling

theorem Lowered.nothingLeaves (h : g.Lowered [] options b t (.ok true) t')
    (hlimits : g.limits.lower ≤ g.limits.upper) : g.NothingLeaves options t'.cluster b.id := by
  obtain ⟨ht', hstates, hf'⟩ := faithful_of_drains (h.arrives ht hf hb hev) ht hf
  obtain ⟨b', hb'⟩ := Cluster.exists_broker?_of_states hstates hb
  obtain ⟨v, hv, -, hmem⟩ := hf'.exists_view hb'
  refine ⟨b', v, hb', hv, fun i hi ↦ ?_⟩
  obtain ⟨r, hon, hadmits⟩ := (hmem i).1 hi
  have hstuck := h.stuck ht hf hb hev (by simp) hon hadmits
  have hmore := h.more ht hf hb hev
  refine ⟨r, hon, hstuck.nowhere ht' hlimits hon (fun halive ↦ ?_) fun hdead ↦ ?_⟩
  · rw [Cluster.alive_congr hstates, alive_iff_isAlive hb] at halive
    have hceiling : g.ceiling b = g.limits.upper := if_pos halive
    refine ⟨?_, hceiling ▸ hmore⟩
    rw [← Bool.not_eq_true]
    intro hev'
    rw [hev hev'] at halive
    cases halive
  · rw [Cluster.dead_congr hstates, dead_iff_isAlive hb] at hdead
    rw [ceiling_of_dead hdead] at hmore
    omega

theorem Lowered.eq_viewOutOfOrder (h : g.Lowered [] options b t (.error f) t') :
    f = .viewOutOfOrder := by
  cases h with
  | untracked _ hunknown => exact absurd hunknown (hf.view_ne_error hb)
  | drained hmany hview hdrained =>
    exact hdrained.eq_viewOutOfOrder rfl (draining_of_tooMany ht hf hb hev hmany hview).1.emptying

end

/-- Inside a run without guards, draining a broker that holds too many replicas stops just at the
upper limit, or when a dead broker is empty, or it leaves more than that and nothing that may leave;
unless a view has lost a replica on the way. -/
theorem drain_thorough (hrun : Underway [] options g p.cluster)
    (hdisk : ∀ r ∈ p.cluster.replicas, r.load.of .disk ≠ .nan) (hlower : 0 ≤ g.limits.lower)
    (hlimits : g.limits.lower ≤ g.limits.upper) (hb : p.cluster.broker? id = some b)
    (hmany : g.TooMany b) (hev : g.evacuating = true → b.isAlive = false) :
    Ends (g.drain [] options id) p
      (fun many p' ↦ if many then
          g.ceiling b < p'.cluster.count id ∧ g.NothingLeaves options p'.cluster id
        else (p'.cluster.count id : Int) = g.ceiling b)
      fun f _ ↦ f = .viewOutOfOrder := by
  obtain rfl := Cluster.id_of_broker? hb
  have hsound := hrun.sound
  have hfaithful := hrun.faithful hdisk
  refine (ends_drain hsound hb hmany).mono ?_ ?_
  · intro many p' hlowered
    cases many with
    | true =>
      exact ⟨hlowered.more hsound hfaithful hb hev,
        hlowered.nothingLeaves hsound hfaithful hb hev hlimits⟩
    | false =>
      refine hlowered.count_eq hsound hfaithful hb hev hmany ?_
      unfold ceiling
      split <;> omega
  · intro f p' hlowered
    exact hlowered.eq_viewOutOfOrder hsound hfaithful hb hev

/-- Three alive brokers. What the first one has more than it may is on the second one too, but for
one topic. -/
def cornered : List Operation :=
  [.addBroker 0 none .alive, .addBroker 1 none .alive, .addBroker 2 none .alive,
    .place ⟨"a", 0⟩ 0 true {}, .place ⟨"b", 0⟩ 0 true {}, .place ⟨"c", 0⟩ 0 true {},
    .place ⟨"d", 0⟩ 0 true {}, .place ⟨"b", 0⟩ 1 false {}, .place ⟨"c", 0⟩ 1 false {},
    .place ⟨"d", 0⟩ 1 false {}]

/-- That topic is excluded, and so is the third broker. -/
def cornering : Options := { excludedTopics := ["a"], excludedBrokers := [2] }

/-- So the first broker is left with more than the upper limit. -/
theorem drain_thorough_cornered :
    (started {} cornering cornered).1.limits.upper = 3 ∧
    Ends ((started {} cornering cornered).1.drain [] cornering 0) (started {} cornering cornered).2
      (fun many p' ↦ many = true ∧ 3 < (p'.cluster.count 0 : Int) ∧
        (started {} cornering cornered).1.NothingLeaves cornering p'.cluster 0)
      fun _ _ ↦ False := by
  have hrun := Underway.of_started [] {} cornered (by decide +kernel : Ends (prepare cornering)
    (_, { cluster := .after cornered }) (fun _ _ ↦ True) fun _ _ ↦ False)
  obtain ⟨s, hs⟩ : ∃ s, s = started {} cornering cornered := ⟨_, rfl⟩
  rw [← hs] at hrun ⊢
  have hdisk : ∀ r ∈ s.2.cluster.replicas, r.load.of .disk ≠ .nan := by
    rw [hs]
    decide +kernel
  have hlimits : s.1.limits.lower = 2 ∧ s.1.limits.upper = 3 := by
    rw [hs]
    decide +kernel
  have hb : s.2.cluster.broker? 0 = some ((s.2.cluster.broker? 0).getD default) := by
    rw [hs]
    decide +kernel
  obtain ⟨hmany, hev, hceiling⟩ : s.1.TooMany ((s.2.cluster.broker? 0).getD default) ∧
      s.1.evacuating = false ∧ s.1.ceiling ((s.2.cluster.broker? 0).getD default) = 3 := by
    rw [hs]
    decide +kernel
  have hdrain : Ends (s.1.drain [] cornering 0) s.2 (fun many _ ↦ many = true)
      fun _ _ ↦ False := by
    rw [hs]
    decide +kernel
  refine ⟨hlimits.2, (hdrain.and (drain_thorough hrun hdisk (by omega) (by omega) hb hmany
    (by simp [hev]))).mono ?_ ?_⟩
  · rintro _ p' ⟨rfl, hmore, hnothing⟩
    exact ⟨rfl, hceiling ▸ hmore, hnothing⟩
  · rintro _ _ ⟨hnone, -⟩
    exact hnone

/-! ## Filling -/

/-- Nothing may come to a broker that the views of fuller ones show: if immigrants alone are
offered, as some broker is dead, each immigrant, and otherwise each replica, is of an excluded topic
or of a partition that the broker has already. -/
def NothingComes (g : DistributionGoal) (options : Options) (c : Cluster) (id : BrokerId) : Prop :=
  ∀ e, c.Alive e → e ≠ id → g.limits.lower < c.count e →
    ∃ b v, c.broker? e = some b ∧ b.view g.name = .ok v ∧ ∀ i ∈ v.replicas, ∃ r, c.On e i r ∧
      ((c.hasDead = true → r.isImmigrant = true) →
        r.partition.topic ∉ options.excludedTopics → c.Hosts id r.partition)

/-- What a spent broker above the lower limit offers may not come to one that is short of it. -/
theorem Spent.hosts (h : c.Sound) (hspent : g.Spent [] options c id e) (hon : c.On e i r)
    (hoffered : Offered options c r) (halive : c.Alive id)
    (hallowed : id ∉ options.excludedBrokers) (hfew : (c.count id : Int) < g.limits.upper)
    (halive' : c.Alive e) (hmore : g.limits.lower < c.count e)
    (htopic : r.partition.topic ∉ options.excludedTopics) (hne : e ≠ id) :
    c.Hosts id r.partition := by
  obtain rfl := h.broker_of_on hon
  by_contra hvacant
  rcases hspent i r hon hoffered with hstay | hunsuited
  · exact htopic (by simpa using (mustStay_iff.1 hstay).1)
  · refine hunsuited ⟨⟨hne.symm, Options.allows_iff.2 fun _ ↦ hallowed, halive, hvacant,
      .inr ⟨by omega, fun _ ↦ by omega, fun hdead ↦ ?_⟩⟩, fun γ hγ ↦ by cases hγ⟩
    exact absurd hdead (Cluster.not_dead_of_alive halive')

section

variable (ht : t.cluster.Sound) (hf : t.cluster.Faithful g.name (criteria options))
  (hb : t.cluster.broker? b.id = some b)

include ht hf hb

theorem Raised.nothingComes (h : g.Raised [] options b t (.ok true) t') (hfew : g.TooFew b)
    (hlimits : g.limits.lower ≤ g.limits.upper) (hallowed : b.id ∉ options.excludedBrokers) :
    g.NothingComes options t'.cluster b.id := by
  have hsame : ∀ b', t.cluster.broker? b.id = some b' → g.TooFew b → g.TooFew b' := by
    intro b' hb'
    rw [hb] at hb'
    obtain rfl := Option.some.inj hb'
    exact fun h ↦ h
  have hfills : ReflTransGen (g.Fills [] options b.id) t t' := h.arrives ht hf hsame
  obtain ⟨ht', hf'⟩ := faithful_of_fills hfills ht hf
  have hstates := states_of_fills hfills
  intro e halive hne hmore
  obtain ⟨b', hb'⟩ := halive.imp fun _ ↦ And.left
  obtain ⟨v, hv, -, hmem⟩ := hf'.exists_view hb'
  refine ⟨b', v, hb', hv, fun i hi ↦ ?_⟩
  obtain ⟨r, hon, hadmits⟩ := (hmem i).1 hi
  refine ⟨r, hon, fun himmigrant htopic ↦ ?_⟩
  have hspent := h.spent ht hf hb (by simp) ((Cluster.alive_congr hstates).1 halive) hne
  have hshort := h.few ht hf hb
  refine hspent.hosts ht' hon ⟨hadmits, fun hdead _ ↦ himmigrant hdead⟩ ?_ hallowed (by omega)
    halive hmore htopic hne
  rw [Cluster.alive_congr hstates]
  exact ⟨b, hb, hfew.1⟩

theorem Raised.eq_viewOutOfOrder (h : g.Raised [] options b t (.error f) t') :
    f = .viewOutOfOrder := by
  cases h with
  | filled hfew hb' hfilled =>
    rw [hb] at hb'
    obtain rfl := Option.some.inj hb'
    exact hfilled.eq_viewOutOfOrder rfl (filling_of_tooFew ht hf hb hfew) ⟨b, hb⟩

end

/-- Inside a run without guards, filling a broker that holds too few replicas stops just at the
lower limit, or it leaves fewer than that, and either nothing may be brought to the broker or
nothing may come to it; unless a view has lost a replica on the way. -/
theorem fill_thorough (hrun : Underway [] options g p.cluster)
    (hdisk : ∀ r ∈ p.cluster.replicas, r.load.of .disk ≠ .nan)
    (hlimits : g.limits.lower ≤ g.limits.upper) (hb : p.cluster.broker? id = some b)
    (hfew : g.TooFew b) :
    Ends (g.fill [] options id) p
      (fun few p' ↦ if few then (p'.cluster.count id : Int) < g.limits.lower ∧
          (id ∈ options.excludedBrokers ∨ g.NothingComes options p'.cluster id)
        else (p'.cluster.count id : Int) = g.limits.lower)
      fun f _ ↦ f = .viewOutOfOrder := by
  obtain rfl := Cluster.id_of_broker? hb
  have hsound := hrun.sound
  have hfaithful := hrun.faithful hdisk
  refine (ends_fill hsound hb hfew).mono ?_ ?_
  · intro few p' hraised
    cases few with
    | true =>
      refine ⟨hraised.few hsound hfaithful hb, ?_⟩
      by_cases hallowed : b.id ∈ options.excludedBrokers
      · exact .inl hallowed
      · exact .inr (hraised.nothingComes hsound hfaithful hb hfew hlimits hallowed)
    | false => exact hraised.count_eq hsound hb hfew
  · intro f p' hraised
    exact hraised.eq_viewOutOfOrder hsound hfaithful hb

/-- Two alive brokers and a dead one. The one immigrant of the first broker is of a partition that
the second one has already. -/
def deprived : List Operation :=
  [.addBroker 0 none .alive, .addBroker 1 none .alive, .addBroker 2 none .dead,
    .place ⟨"a", 0⟩ 0 true {}, .place ⟨"b", 0⟩ 0 true {}, .place ⟨"c", 0⟩ 0 true {},
    .place ⟨"d", 0⟩ 1 true {}, .place ⟨"d", 0⟩ 2 false {}, .relocate ⟨"d", 0⟩ 2 0]

/-- So the second broker is left with less than the lower limit, as natives are not offered. -/
theorem fill_thorough_deprived :
    (started {} {} deprived).1.limits.lower = 2 ∧
    Ends ((started {} {} deprived).1.fill [] {} 1) (started {} {} deprived).2
      (fun few p' ↦ few = true ∧ (p'.cluster.count 1 : Int) < 2 ∧
        (started {} {} deprived).1.NothingComes {} p'.cluster 1) fun _ _ ↦ False := by
  have hrun := Underway.of_started [] {} deprived (by decide +kernel : Ends (prepare {})
    (_, { cluster := .after deprived }) (fun _ _ ↦ True) fun _ _ ↦ False)
  obtain ⟨s, hs⟩ : ∃ s, s = started {} {} deprived := ⟨_, rfl⟩
  rw [← hs] at hrun ⊢
  have hdisk : ∀ r ∈ s.2.cluster.replicas, r.load.of .disk ≠ .nan := by
    rw [hs]
    decide +kernel
  have hlimits : s.1.limits.lower = 2 ∧ s.1.limits.upper = 3 := by
    rw [hs]
    decide +kernel
  have hb : s.2.cluster.broker? 1 = some ((s.2.cluster.broker? 1).getD default) := by
    rw [hs]
    decide +kernel
  have hfew : s.1.TooFew ((s.2.cluster.broker? 1).getD default) := by
    rw [hs]
    decide +kernel
  have hfill : Ends (s.1.fill [] {} 1) s.2 (fun few _ ↦ few = true) fun _ _ ↦ False := by
    rw [hs]
    decide +kernel
  refine ⟨hlimits.1, (hfill.and (fill_thorough hrun hdisk (by omega) hb hfew)).mono ?_ ?_⟩
  · rintro _ p' ⟨rfl, hshort, hnothing⟩
    exact ⟨rfl, hlimits.1 ▸ hshort, hnothing.resolve_left List.not_mem_nil⟩
  · rintro _ _ ⟨hnone, -⟩
    exact hnone

end DistributionGoal

end Rebalance
