import Rebalance.Proofs.Distribution.Lockstep

/-!
# What decides a pursuit

Two pursuits are in lockstep when their clusters are of the same placement: they decide about
replicas that are alike, at each step of a round and from one round to the next. So neither the
order in which brokers and replicas came matters nor racks, leaderships and loads other than those
of disks.
-/

namespace Rebalance

namespace DistributionGoal

/-- Goals that cannot be told apart but by where they have their constraint from. -/
structure Twin (g g' : DistributionGoal) : Prop extends g.Alike g' where
  above : g'.above = g.above
  under : g'.under = g.under

namespace Twin

variable {g g' : DistributionGoal} (h : g.Twin g')

include h

theorem insertAbove (id : BrokerId) :
    Twin { g with above := insertAscending id g.above }
      { g' with above := insertAscending id g'.above } :=
  ⟨⟨h.name, h.limits, h.evacuating, h.finished, h.succeeded⟩,
    congrArg (insertAscending id) h.above, h.under⟩

theorem insertUnder (id : BrokerId) :
    Twin { g with under := insertAscending id g.under }
      { g' with under := insertAscending id g'.under } :=
  ⟨⟨h.name, h.limits, h.evacuating, h.finished, h.succeeded⟩, h.above,
    congrArg (insertAscending id) h.under⟩

theorem dissatisfy : Twin { g with succeeded := false } { g' with succeeded := false } :=
  ⟨⟨h.name, h.limits, h.evacuating, h.finished, rfl⟩, h.above, h.under⟩

theorem finish : Twin { g with finished := true } { g' with finished := true } :=
  ⟨⟨h.name, h.limits, h.evacuating, rfl, h.succeeded⟩, h.above, h.under⟩

theorem evacuate :
    Twin { g with evacuating := true, above := [], under := [] }
      { g' with evacuating := true, above := [], under := [] } :=
  ⟨⟨h.name, h.limits, rfl, h.finished, h.succeeded⟩, rfl, rfl⟩

end Twin

end DistributionGoal

open DistributionGoal (Twin)

/-- Two runs are at the same point of a round. -/
structure Coupling.InStep (k : Coupling) (options : Options) (s s' : DistributionGoal × Plan) :
    Prop where
  twin : s.1.Twin s'.1
  level : k.Level s.1.name options s.2 s'.2

/-- Two runs have ended a round: if the goal is not finished, they are at the same point. -/
structure Coupling.Ended (k : Coupling) (options : Options) (s s' : DistributionGoal × Plan) :
    Prop where
  twin : s.1.Twin s'.1
  journal : s'.2.journal = s.2.journal
  level : s.1.finished = false → k.Level s.1.name options s.2 s'.2

/-- Two runs begin on clusters of the same placement. -/
structure Coupling.Outset (k : Coupling) (p p' : Plan) : Prop where
  journal : p'.journal = p.journal
  paired : Cluster.Paired k.pair p.cluster p'.cluster
  size_eq : p'.cluster.size = p.cluster.size
  first : p.cluster.Stable k.first
  second : p'.cluster.Stable k.second
  disk : k.first .disk ∧ k.second .disk

theorem Coupling.Outset.record {k : Coupling} {p p' : Plan} (h : k.Outset p p') {e e' : Event}
    (he : e' = e) :
    k.Outset { p with journal := p.journal.push e } { p' with journal := p'.journal.push e' } :=
  { h with journal := by rw [he, h.journal] }

/-- With the views of the goal they are ready for a round. -/
theorem Coupling.Outset.tracked {k : Coupling} {p p' : Plan} (h : k.Outset p p') (name : String)
    (options : Options) :
    k.Level name options
      { p with cluster := p.cluster.track name (DistributionGoal.criteria options) }
      { p' with cluster := p'.cluster.track name (DistributionGoal.criteria options) } where
  journal := h.journal
  paired := h.paired.of_same rfl rfl (Cluster.states_track ..) (Cluster.states_track ..)
  first := h.first.intact_track (by rintro _ ⟨⟩; exact h.disk.1)
  second := h.second.intact_track (by rintro _ ⟨⟩; exact h.disk.2)

/-- Two runs have recorded the same brokers and written the same journal. -/
structure SameRecord (s s' : DistributionGoal × Plan) : Prop where
  above : s'.1.above = s.1.above
  under : s'.1.under = s.1.under
  journal : s'.2.journal = s.2.journal

theorem Coupling.InStep.sameRecord {k : Coupling} {options : Options}
    {s s' : DistributionGoal × Plan} (h : k.InStep options s s') : SameRecord s s' :=
  ⟨h.twin.above, h.twin.under, h.level.journal⟩

namespace DistributionGoal

variable {k : Coupling} {options : Options} {g g' : DistributionGoal} {p p' : Plan}
  {s s' : DistributionGoal × Plan} {id : BrokerId}

/-- Both note the same number of replicas. -/
theorem lockstep_note (htwin : g.Twin g') (h : k.Level g.name options p p') (id : BrokerId)
    (e : Nat → Event) {fail : DistributionGoal × Plan → DistributionGoal × Plan → Prop} :
    Lockstep
      (do Planning.record (e ((← Planning.cluster).count id)) : Pursuit DistributionGoal Unit)
      (do Planning.record (e ((← Planning.cluster).count id))) (g, p) (g', p')
      (fun _ _ ↦ k.InStep options) fail := by
  refine .bind (Pursuit.lockstep_planning (Planning.lockstep_cluster
    (Pursuit.lockstep_planning ?_)))
  rw [h.count_eq]
  exact Planning.lockstep_record ⟨htwin, h.record _⟩

theorem lockstep_tend (htwin : g.Twin g') (h : k.Level g.name options p p') (id : BrokerId) :
    Lockstep (tend [] options id) (tend [] options id) (g, p) (g', p')
      (fun _ _ ↦ k.InStep options) (k.InStep options) := by
  unfold tend
  refine .bind (Pursuit.lockstep_goal (.bind (Pursuit.lockstep_planning (Planning.lockstep_cluster
    (.bind (.except (h.agree_broker id) ?_ ⟨htwin, h⟩))))))
  intro b b' _ _ hmatches
  rw [htwin.limits]
  refine .bind (Pursuit.lockstep_planning (Planning.lockstep_record ?_))
  have hlevel := h.record (.tending id g.limits)
  extract_lets many few under above many' few' above'
  have hmany : many' = many := by
    simp only [many, many', htwin.ceiling_eq hmatches, hmatches.count]
  have hfew : few' = few := by
    simp only [few, few', hmatches.isAlive, hmatches.count]
  have hunder : ∀ (stillUnder : Bool) {q q' : Plan}, k.Level g.name options q q' →
      Lockstep (under stillUnder) (under stillUnder) (g, q) (g', q') (fun _ _ ↦ k.InStep options)
        (k.InStep options) := by
    intro stillUnder q q' hq
    refine .ite Iff.rfl (fun _ ↦ .bind (Pursuit.lockstep_adjust ?_)) fun _ ↦ ?_
    · exact lockstep_note (htwin.insertUnder id) hq id (.stillUnder id)
    · exact lockstep_note htwin hq id (.balanced id)
  have habove : ∀ (stillAbove : Bool) {q q' : Plan}, k.Level g.name options q q' →
      Lockstep (above stillAbove) (above' stillAbove) (g, q) (g', q') (fun _ _ ↦ k.InStep options)
        (k.InStep options) := by
    intro stillAbove q q' hq
    refine .ite Iff.rfl (fun _ ↦ .bind (Pursuit.lockstep_adjust ?_)) fun _ ↦ ?_
    · exact lockstep_note (htwin.insertAbove id) hq id (.stillAbove id)
    · refine .ite (by rw [hfew]) (fun _ ↦ .bind (Pursuit.lockstep_planning ?_))
        fun _ ↦ .bind (.pure (hunder false hq))
      refine (lockstep_fill htwin.toAlike hq id).mono ?_ fun _ _ hf ↦ ⟨htwin, hf⟩
      rintro _ stillUnder q₁ q₁' ⟨rfl, hq₁⟩
      exact hunder stillUnder hq₁
  rw [hmany, hfew, hmatches.isAlive, hmatches.isNew, hmatches.immigrants,
    Cluster.hasNew_congr h.paired.states_eq, Cluster.hasDead_congr h.paired.states_eq]
  refine .ite Iff.rfl (fun _ ↦ .pure ⟨htwin, hlevel⟩) fun _ ↦
    .ite Iff.rfl (fun _ ↦ .pure ⟨htwin, hlevel⟩) fun _ ↦
    .ite Iff.rfl (fun _ ↦ .pure ⟨htwin, hlevel⟩) fun _ ↦
    .ite Iff.rfl (fun _ ↦ .bind (Pursuit.lockstep_planning ?_))
      fun _ ↦ .bind (.pure (habove false hlevel))
  refine (lockstep_drain htwin.toAlike hlevel id).mono ?_ fun _ _ hf ↦ ⟨htwin, hf⟩
  rintro _ stillAbove q q' ⟨rfl, hq⟩
  exact habove stillAbove hq

/-! ## Rounds -/

theorem lockstep_tendAll (htwin : g.Twin g') (h : k.Level g.name options p p')
    (ids : List BrokerId) :
    Lockstep (tendAll [] options ids) (tendAll [] options ids) (g, p) (g', p')
      (fun _ _ ↦ k.InStep options) (k.InStep options) := by
  induction ids generalizing g g' p p' with
  | nil => exact .pure ⟨htwin, h⟩
  | cons id rest ih =>
    refine .bind ((lockstep_tend htwin h id).mono ?_ fun _ _ hf ↦ hf)
    exact fun _ _ t t' ht ↦ ih ht.twin ht.level

theorem lockstep_report (htwin : g.Twin g') (h : k.Level g.name options p p')
    (brokers : List BrokerId) (e : Event)
    {fail : DistributionGoal × Plan → DistributionGoal × Plan → Prop} :
    Lockstep (report brokers e) (report brokers e) (g, p) (g', p') (fun _ _ ↦ k.InStep options)
      fail := by
  unfold report
  refine .ite Iff.rfl (fun _ ↦ .pure ⟨htwin, h⟩) fun _ ↦ ?_
  exact .bind (Pursuit.lockstep_planning (Planning.lockstep_record
    (Pursuit.lockstep_adjust ⟨htwin.dissatisfy, h.record e⟩)))

theorem lockstep_conclude (htwin : g.Twin g') (h : k.Level g.name options p p')
    (left : List BrokerId) :
    Lockstep (conclude left) (conclude left) (g, p) (g', p') (fun _ _ ↦ k.Ended options)
      SameRecord := by
  unfold conclude
  refine .bind (Pursuit.lockstep_goal (.ite Iff.rfl (fun _ ↦ ?_) fun _ ↦ ?_))
  · exact .bind (Pursuit.lockstep_adjust
      (Pursuit.lockstep_changeCluster ⟨htwin.finish, h.journal, by simp⟩))
  · rw [htwin.evacuating, htwin.finished, htwin.name]
    refine .ite Iff.rfl (fun _ ↦ ?_) fun _ ↦ ?_
    · exact .bind (Pursuit.lockstep_changeCluster
        (.throw ⟨htwin.above, htwin.under, h.journal⟩))
    · have hlevel := h.record (.relaxed g.name left)
      refine .bind (Pursuit.lockstep_adjust (.bind (Pursuit.lockstep_planning
        (Planning.lockstep_record (.ite Iff.rfl (fun hfin ↦ ?_) fun _ ↦ .pure ?_)))))
      · refine Pursuit.lockstep_changeCluster ⟨htwin.evacuate, hlevel.journal, fun hfin' ↦ ?_⟩
        cases hfin.symm.trans hfin'
      · exact ⟨htwin.evacuate, hlevel.journal, fun _ ↦ hlevel⟩

/-- The same dead brokers still have replicas. -/
theorem unemptied_eq (h : k.Level g.name options p p') :
    unemptied p'.cluster = unemptied p.cluster := by
  refine map_eq_of_forall₂ (fun b b' (hb : b.Matches b') ↦ hb.id) ?_
  refine forall₂_filter (fun b b' hb ↦ ?_)
    (h.paired.deadBrokers h.first.toStable h.second.toStable)
  rw [hb.count]

theorem lockstep_close (htwin : g.Twin g') (h : k.Level g.name options p p') :
    Lockstep close close (g, p) (g', p') (fun _ _ ↦ k.Ended options) SameRecord := by
  unfold close
  refine .bind (Pursuit.lockstep_goal (.bind (Pursuit.lockstep_planning
    (Planning.lockstep_cluster ?_))))
  rw [htwin.above, htwin.under, htwin.name, htwin.limits, unemptied_eq h]
  refine .bind ((lockstep_report htwin h _ _).mono ?_ fun _ _ hf ↦ hf)
  intro _ _ t t' ht
  refine .bind ((lockstep_report ht.twin ht.level _ _).mono ?_ fun _ _ hf ↦ hf)
  exact fun _ _ t₁ t₁' ht₁ ↦ lockstep_conclude ht₁.twin ht₁.level _

/-- A round is about the same brokers. -/
theorem brokersToBalance_eq (htwin : g.Twin g') (h : k.Level g.name options p p') :
    (g'.brokersToBalance p'.cluster).map Broker.id =
      (g.brokersToBalance p.cluster).map Broker.id := by
  refine map_eq_of_forall₂ (fun b b' (hb : b.Matches b') ↦ hb.id) ?_
  unfold brokersToBalance
  rw [htwin.evacuating]
  split
  · exact h.paired.deadBrokers h.first.toStable h.second.toStable
  · exact h.paired.brokers h.first.toStable h.second.toStable

theorem lockstep_round (htwin : g.Twin g') (h : k.Level g.name options p p') :
    Lockstep (round [] options) (round [] options) (g, p) (g', p') (fun _ _ ↦ k.Ended options)
      SameRecord := by
  unfold round
  refine .bind (Pursuit.lockstep_goal (.bind (Pursuit.lockstep_planning
    (Planning.lockstep_cluster ?_))))
  rw [brokersToBalance_eq htwin h]
  refine .bind ((lockstep_tendAll htwin h _).mono ?_ fun _ _ hf ↦ hf.sameRecord)
  exact fun _ _ t t' ht ↦ lockstep_close ht.twin ht.level

/-! ## Pursuits -/

theorem lockstep_prepare (hname : g'.name = g.name) (hconstraint : g'.constraint = g.constraint)
    (hfinished : g'.finished = g.finished) (hsucceeded : g'.succeeded = g.succeeded)
    (h : k.Outset p p') :
    Lockstep (prepare options) (prepare options) (g, p) (g', p') (fun _ _ ↦ k.InStep options)
      SameRecord := by
  have halive := (h.paired.aliveBrokers h.first h.second).length_eq
  unfold prepare
  refine .bind (Pursuit.lockstep_adjust (.bind (Pursuit.lockstep_goal (.bind
    (Pursuit.lockstep_planning (Planning.lockstep_cluster ?_))))))
  rw [hname, hconstraint, h.size_eq, ← halive]
  refine .ite ?_ (fun _ ↦ .throw ⟨rfl, rfl, h.journal⟩) fun _ ↦ ?_
  · rw [List.isEmpty_iff_length_eq_zero, List.isEmpty_iff_length_eq_zero, halive]
  · refine .bind (.except (.refl _) ?_ ⟨rfl, rfl, h.journal⟩)
    rintro limits _ - - rfl
    refine .bind (Pursuit.lockstep_adjust (.bind (Pursuit.lockstep_planning
      (Planning.lockstep_record (Pursuit.lockstep_changeCluster ⟨?_, ?_⟩)))))
    · exact ⟨⟨rfl, rfl, rfl, hfinished, hsucceeded⟩, rfl, rfl⟩
    · exact (h.record (rfl : Event.limited g.name limits = _)).tracked g.name options

/-- Both note in the same words how the pursuit ended. -/
theorem lockstep_finish (htwin : g.Twin g') (hjournal : p'.journal = p.journal) (n : Nat)
    {fail : DistributionGoal × Plan → DistributionGoal × Plan → Prop} :
    Lockstep
      (do Planning.record (.finished g.name n g.succeeded)
          return g.succeeded : Pursuit DistributionGoal Bool)
      (do Planning.record (.finished g'.name n g'.succeeded)
          return g'.succeeded) (g, p) (g', p')
      (fun x x' s s' ↦ x' = x ∧ SameRecord s s') fail := by
  refine .bind (Pursuit.lockstep_planning (Planning.lockstep_record (.pure ⟨htwin.succeeded, ?_⟩)))
  refine ⟨htwin.above, htwin.under, ?_⟩
  rw [htwin.name, htwin.succeeded, hjournal]

/-- Two pursuits of goals of one name and constraint, on clusters of the same placement, are in
lockstep. -/
theorem lockstep_pursue (hname : g'.name = g.name) (hconstraint : g'.constraint = g.constraint)
    (h : k.Outset p p') :
    Lockstep (pursue [] options) (pursue [] options) (g, p) (g', p')
      (fun x x' s s' ↦ x' = x ∧ SameRecord s s') SameRecord := by
  have hprepare : Lockstep (prepare options) (prepare options)
      ({ g with succeeded := true, finished := false },
        { p with journal := p.journal.push (.started g.name) })
      ({ g' with succeeded := true, finished := false },
        { p' with journal := p'.journal.push (.started g'.name) })
      (fun _ _ ↦ k.InStep options) SameRecord :=
    lockstep_prepare hname hconstraint rfl rfl (h.record (congrArg Event.started hname))
  unfold pursue
  refine .bind (Pursuit.lockstep_adjust (.bind (Pursuit.lockstep_goal (.bind
    (Pursuit.lockstep_planning (Planning.lockstep_record (.bind (hprepare.mono ?_
      fun _ _ hf ↦ hf))))))))
  intro _ _ s s' hs
  refine .bind ((lockstep_round hs.twin hs.level).mono ?_ fun _ _ hf ↦ hf)
  rintro _ _ ⟨g₁, p₁⟩ ⟨g₁', p₁'⟩ h₁
  refine .bind (Pursuit.lockstep_goal (.ite ?_ (fun _ ↦ ?_) fun hfin ↦ ?_))
  · rw [h₁.twin.finished]
  · exact lockstep_finish h₁.twin h₁.journal 1
  · refine .bind ((lockstep_round h₁.twin (h₁.level ?_)).mono ?_ fun _ _ hf ↦ hf)
    · exact Bool.not_eq_true _ ▸ hfin
    · rintro _ _ ⟨g₂, p₂⟩ ⟨g₂', p₂'⟩ h₂
      exact .bind (Pursuit.lockstep_goal (lockstep_finish h₂.twin h₂.journal 2))

end DistributionGoal

open DistributionGoal (pursue lockstep_pursue)

/-- Two clusters of the same placement, each of which came about by a history in which views order
by numbers, may differ in the order in which brokers and replicas came, in racks, in leaderships and
in all that replicas use but disks. Still goals of one name and constraint, pursued on them without
guards and with the same options, come to the same result or the same fault, record the same
brokers, and write the same journal: the same moves in the same order, among all that happened. -/
theorem pursuit_determined {measured measured' : Resource → Prop} (hdisk : measured .disk)
    (hdisk' : measured' .disk) {c c' : Cluster} (hc : c.Reachable measured)
    (hc' : c'.Reachable measured') (hsame : c.SamePlacement c') {g g' : DistributionGoal}
    (hname : g'.name = g.name) (hconstraint : g'.constraint = g.constraint) (options : Options)
    (journal : Journal) :
    Lockstep (pursue [] options) (pursue [] options) (g, ⟨c, journal⟩) (g', ⟨c', journal⟩)
      (fun satisfied satisfied' s s' ↦ satisfied' = satisfied ∧ SameRecord s s') SameRecord := by
  obtain ⟨pair, hpaired⟩ := hsame.exists_paired
  have hsize : c'.size = c.size := by
    have hlen := hsame.sites_perm.length_eq
    rwa [List.length_map, List.length_map] at hlen
  have houtset : Coupling.Outset ⟨measured, measured', pair⟩ ⟨c, journal⟩ ⟨c', journal⟩ :=
    ⟨rfl, hpaired, hsize, hc.stable, hc'.stable, hdisk, hdisk'⟩
  exact lockstep_pursue hname hconstraint houtset

/-- Three alive brokers, one of which holds all replicas but one, and an immigrant among them. -/
def Operation.early : List Operation :=
  [.addBroker 0 none .alive, .addBroker 1 none .alive, .addBroker 2 none .alive,
    .place ⟨"a", 0⟩ 0 true {}, .place ⟨"a", 1⟩ 0 true {}, .place ⟨"a", 2⟩ 0 true {},
    .place ⟨"a", 0⟩ 1 false {}, .place ⟨"b", 0⟩ 1 true {}, .relocate ⟨"b", 0⟩ 1 0]

/-- The same placement, reached in another order, with racks, other leaders and a use of processors
that is not a number. -/
def Operation.late : List Operation :=
  [.addBroker 2 (some "r") .alive, .addBroker 1 (some "s") .dead, .place ⟨"b", 0⟩ 1 false {},
    .place ⟨"a", 0⟩ 1 true { cpu := .nan }, .addBroker 0 none .alive, .relocate ⟨"b", 0⟩ 1 0,
    .place ⟨"a", 2⟩ 0 false {}, .place ⟨"a", 0⟩ 0 false {}, .place ⟨"a", 1⟩ 0 true {},
    .setState 1 .alive]

/-- Although the clusters differ, both pursuits move the immigrant and then the same copy. -/
theorem pursuit_determined_reordered :
    (Cluster.after Operation.late).replicas ≠ (Cluster.after Operation.early).replicas ∧
    Lockstep (pursue [] {}) (pursue [] {}) ({}, { cluster := .after Operation.early })
      ({}, { cluster := .after Operation.late })
      (fun satisfied satisfied' s s' ↦ satisfied' = satisfied ∧ SameRecord s s') SameRecord ∧
    (stateAfter (pursue [] {}) ({}, { cluster := .after Operation.early })).2.journal.moves =
      [.replica ⟨"b", 0⟩ 0 2, .replica ⟨"a", 0⟩ 0 2] := by
  have hearly : (Cluster.after Operation.early).Reachable (fun _ ↦ True) := by
    refine ⟨_, ?_, rfl⟩
    simp [Operation.early, Operation.IsMeasured, Load.isNumeric_default]
  have hload : Load.IsNumeric (· = .disk) { cpu := .nan } := by
    rintro _ rfl
    simpa only [Load.of] using Load.isNumeric_default (fun _ ↦ True) .disk trivial
  have hlate : (Cluster.after Operation.late).Reachable (· = .disk) := by
    refine ⟨_, ?_, rfl⟩
    simp [Operation.late, Operation.IsMeasured, Load.isNumeric_default, hload]
  have hsame : (Cluster.after Operation.early).SamePlacement (Cluster.after Operation.late) :=
    ⟨by decide +kernel, by decide +kernel⟩
  refine ⟨by decide +kernel, ?_, by decide +kernel⟩
  -- Known clusters would invite the elaborator to run the pursuits.
  generalize Cluster.after Operation.early = c at hearly hsame ⊢
  generalize Cluster.after Operation.late = c' at hlate hsame ⊢
  exact pursuit_determined trivial (by rfl) hearly hlate hsame rfl rfl {} #[]

/-- A history in which a view orders by the use of processors, one of them as given. -/
def Operation.loaded (cpu : Double) : List Operation :=
  [.addBroker 0 none .dead, .addBroker 1 none .alive, .place ⟨"t", 0⟩ 0 false { cpu := 2 },
    .place ⟨"t", 1⟩ 0 false { cpu }, .place ⟨"t", 2⟩ 0 false { cpu := 1 },
    .place ⟨"t", 3⟩ 0 false { cpu := 2 }, .track "v" { score := some .cpu }]

/-- Where that use is not a number the view cannot find a replica that is to leave the dead broker.
So the placement does not decide how the pursuit ends, although the use of disks is the same. -/
theorem pursuit_undetermined_out_of_order :
    (Cluster.after (Operation.loaded 1)).SamePlacement (Cluster.after (Operation.loaded .nan)) ∧
    (∀ r ∈ (Cluster.after (Operation.loaded 1)).replicas, r.load.of .disk ≠ .nan) ∧
    (∃ satisfied s, pursue [] {} ({}, { cluster := .after (Operation.loaded 1) }) =
      .ok satisfied s ∧ satisfied = true) ∧
    ∃ f s, pursue [] {} ({}, { cluster := .after (Operation.loaded .nan) }) = .error f s ∧
      f = .viewOutOfOrder := by
  refine ⟨⟨by decide +kernel, by decide +kernel⟩, by decide +kernel, ?_, ?_⟩
  · exact Ends.exists_ok (by decide +kernel : Ends (pursue [] {})
      ({}, { cluster := .after (Operation.loaded 1) }) (fun satisfied _ ↦ satisfied = true)
      fun _ _ ↦ False)
  · exact Ends.exists_error (by decide +kernel : Ends (pursue [] {})
      ({}, { cluster := .after (Operation.loaded .nan) }) (fun _ _ ↦ False)
      fun f _ ↦ f = .viewOutOfOrder)

end Rebalance
