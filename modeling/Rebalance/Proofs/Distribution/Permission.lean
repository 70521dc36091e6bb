import Rebalance.Proofs.Distribution.Progress

/-!
# Permitted moves

Where each restriction on moves is looked after: views show what may leave while only immigrants
may, what has to stay is skipped, and candidates that are excluded, dead or have a copy already are
passed over. So every move is permitted when it is made. Over a pursuit, a partition of an excluded
topic loses only dead brokers, and every broker that a partition gains is alive and not excluded,
even if a fault cuts the pursuit short.
-/

namespace Rebalance

/-! ## What may move where -/

/-- A move takes a replica that is there, an immigrant if only these may move, to another broker
that is alive, not excluded and without a copy. What is of an excluded topic leaves a dead broker.
-/
structure Permitted (options : Options) (c : Cluster) (m : Move) : Prop where
  hosted : ∃ i r, c.On m.source i r ∧ r.partition = m.partition ∧
    (options.onlyImmigrants = true → r.isImmigrant = true)
  ne : m.destination ≠ m.source
  alive : c.Alive m.destination
  vacant : ¬ c.Hosts m.destination m.partition
  allowed : m.destination ∉ options.excludedBrokers
  excluded : m.partition.topic ∈ options.excludedTopics → c.Dead m.source

/-- From one cluster to another, partitions of excluded topics have lost only dead brokers, and all
have gained only such that are alive and not excluded. -/
structure Restricted (options : Options) (c c' : Cluster) : Prop where
  lost : ∀ id tp, tp.topic ∈ options.excludedTopics → c.Hosts id tp → ¬ c'.Hosts id tp → c.Dead id
  gained : ∀ id tp, c'.Hosts id tp → ¬ c.Hosts id tp → c.Alive id ∧ id ∉ options.excludedBrokers

namespace Restricted

variable {options : Options} {c c' c'' : Cluster}

theorem of_hosts_iff (h : ∀ id tp, c'.Hosts id tp ↔ c.Hosts id tp) : Restricted options c c' where
  lost id tp _ hon hoff := absurd ((h id tp).2 hon) hoff
  gained id tp hon hoff := absurd ((h id tp).1 hon) hoff

/-- What came and what went on the way adds up. -/
theorem trans (h : Restricted options c c') (hstates : c'.states = c.states)
    (h' : Restricted options c' c'') : Restricted options c c'' where
  lost id tp htopic hon hoff := by
    by_cases hmid : c'.Hosts id tp
    · exact (Cluster.dead_congr hstates).1 (h'.lost id tp htopic hmid hoff)
    · exact h.lost id tp htopic hon hmid
  gained id tp hon hoff := by
    by_cases hmid : c'.Hosts id tp
    · exact h.gained id tp hmid hoff
    · exact (h'.gained id tp hon hmid).imp_left (Cluster.alive_congr hstates).1

end Restricted

/-! ## What brokers host -/

namespace Cluster

variable {c c' : Cluster} {id s d : BrokerId} {tp tp' : TopicPartition} {f : Fault}

/-- Where views do not matter, neither do they for what is hosted. -/
theorem hosts_of_map {f : Broker → Broker} (hc : c'.brokers = c.brokers.map f)
    (hr : c'.replicas = c.replicas) (hid : ∀ b, (f b).id = b.id)
    (hhosted : ∀ b, (f b).hosted = b.hosted) : c'.Hosts id tp ↔ c.Hosts id tp := by
  unfold Hosts
  simp only [on_of_map hc hr hid fun b _ ↦ hhosted b]

/-- A refused relocation brings nothing anywhere. -/
theorem Refused.hosts_of_hosts (h : c.Refused tp s d f c') (hhosts : c'.Hosts id tp') :
    c.Hosts id tp' := by
  cases h with
  | lost =>
    obtain ⟨i, r, ⟨b', hb', hid, hmem, hr⟩, hp⟩ := hhosts
    obtain ⟨b, hb, rfl⟩ := List.mem_map.1 hb'
    refine ⟨i, r, ⟨b, hb, ?_, ?_, hr⟩, hp⟩
    · split at hid <;> exact hid
    · split at hmem
      · rw [Broker.hosted_release, Roster.without_eq_filter] at hmem
        exact (List.mem_filter.1 hmem).1
      · exact hmem
  | _ => exact hhosts

/-- The only thing that may be missing after it is what was to be moved. -/
theorem Refused.eq_of_lost (h : c.Refused tp s d f c') (hon : c.Hosts id tp')
    (hoff : ¬ c'.Hosts id tp') : (∃ b, c.broker? s = some b) ∧ id = s ∧ tp' = tp := by
  cases h with
  | lost hs =>
    -- The source has released the replica before a view fails to find it.
    refine ⟨⟨_, hs⟩, ?_⟩
    by_contra hne
    obtain ⟨i, r, ⟨b, hb, hid, hmem, hr⟩, hp⟩ := hon
    refine hoff ⟨i, r, ⟨_, List.mem_map_of_mem hb, ?_, ?_, hr⟩, hp⟩
    · split <;> exact hid
    · split
      · rename_i hsource
        rw [Broker.hosted_release, Roster.without_eq_filter, List.mem_filter]
        refine ⟨hmem, decide_eq_true fun heq ↦ hne ⟨hid.symm.trans hsource, ?_⟩⟩
        exact hp.symm.trans heq
      · exact hmem
  | _ => exact absurd hon hoff

end Cluster

namespace DistributionGoal

variable {g g' : DistributionGoal} {guards : List Guard} {options : Options} {t t' : Stage}
  {candidates : List BrokerId} {i : ReplicaId} {r : Replica} {d : BrokerId} {f : Fault}
  {c : Cluster} {m : Move}

/-! ## Single moves -/

/-- What need not stay although its topic is excluded is on a dead broker. -/
theorem dead_of_free (hfree : c.mustStay options.excludedTopics r = false)
    (htopic : r.partition.topic ∈ options.excludedTopics) {b : Broker}
    (hb : c.broker? r.broker = some b) : c.Dead r.broker := by
  rw [dead_iff_isAlive hb, ← Bool.not_eq_true, ← alive_iff_isAlive hb]
  intro halive
  rw [mustStay_iff.2 ⟨List.contains_iff_mem.2 htopic, halive⟩] at hfree
  cases hfree

theorem Fits.not_mem_excludedBrokers (h : g.Fits options c r d) :
    d ∉ options.excludedBrokers := Options.allows_iff.1 h.allowed rfl

theorem isImmigrant_of_admits (honly : options.onlyImmigrants = true)
    (hadmits : (criteria options).admits r = true) : r.isImmigrant = true := by
  rwa [Criteria.admits, criteria, honly] at hadmits

/-- Every step makes a permitted move. -/
theorem Advances.permitted (h : g.Advances guards options t t') (hm : t'.moves = t.moves ++ [m]) :
    Permitted options t.cluster m := by
  obtain ⟨candidates, i, r, d, hadmits, hon, hmoves⟩ := h.exists_moves
  obtain rfl := hmoves.eq_of_moves hm
  have hfits := hmoves.fits h.sound
  refine ⟨⟨i, r, hon, rfl, fun honly ↦ isImmigrant_of_admits honly hadmits⟩, hfits.ne, hfits.alive,
    hfits.vacant, hfits.not_mem_excludedBrokers, fun htopic ↦ ?_⟩
  obtain ⟨b, hb⟩ := h.sound.exists_broker?_of_on hon
  exact dead_of_free hmoves.free htopic hb

theorem Moves.restricted (h : t.cluster.Sound)
    (hmoves : g.Moves guards options t candidates i r d t') :
    Restricted options t.cluster t'.cluster := by
  obtain ⟨j, r', hpart, hbroker, hm, hcluster⟩ := hmoves.relocated.cluster
  have hfits := hmoves.fits h
  constructor
  · intro id tp htopic hon hoff
    rw [hcluster, Cluster.hosts_moved_iff h hm, not_or, not_and_not_right] at hoff
    obtain ⟨rfl, rfl⟩ := hoff.2 hon
    obtain ⟨b, hb⟩ := h.exists_broker?_of_on hm.on
    rw [hbroker] at hb ⊢
    exact dead_of_free hmoves.free (hpart ▸ htopic) hb
  · intro id tp hon hoff
    rw [hcluster, Cluster.hosts_moved_iff h hm] at hon
    obtain ⟨rfl, -⟩ := hon.resolve_right fun hold ↦ hoff hold.1
    exact ⟨hfits.alive, hfits.not_mem_excludedBrokers⟩

/-- Neither does a fault bring a replica where it must not be, or take one off where it must stay.
-/
theorem Fails.restricted (hfails : g.Fails guards options t candidates i f t') :
    Restricted options t.cluster t'.cluster := by
  obtain ⟨r, -, hfree, hbreaks⟩ := hfails.breaks
  cases hbreaks with
  | judging => exact .of_hosts_iff fun _ _ ↦ Iff.rfl
  | moving _ _ _ hrefused =>
    constructor
    · intro id tp htopic hon hoff
      obtain ⟨⟨b, hb⟩, rfl, rfl⟩ := hrefused.eq_of_lost hon hoff
      exact dead_of_free hfree htopic hb
    · intro id tp hon hoff
      exact absurd (hrefused.hosts_of_hosts hon) hoff

/-! ## Whole pursuits -/

/-- So whatever is done since the beginning is restricted. -/
theorem Law.restricted (g : DistributionGoal) (guards : List Guard) (options : Options)
    (c₀ : Cluster) :
    g.Law guards options
      (fun t ↦ t.cluster.Sound ∧ t.cluster.states = c₀.states ∧ Restricted options c₀ t.cluster)
      fun _ t ↦ t.cluster.Sound ∧ t.cluster.states = c₀.states ∧ Restricted options c₀ t.cluster
    where
  moves {t t' candidates i r d} ht hmoves :=
    ⟨hmoves.relocated.sound ht.1, hmoves.relocated.states_eq.trans ht.2.1,
      ht.2.2.trans ht.2.1 (hmoves.restricted ht.1)⟩
  fails ht hfails := by
    obtain ⟨hsound, hstates⟩ := (Law.sound g guards options c₀.states).fails ⟨ht.1, ht.2.1⟩ hfails
    exact ⟨hsound, hstates, ht.2.2.trans ht.2.1 hfails.restricted⟩
  offers ht _ := ht
  views ht _ _ := ht

theorem Pursued.restricted {x : Except Fault Bool} (h : Pursued guards options g t x g' t')
    (ht : t.cluster.Sound) : Restricted options t.cluster t'.cluster := by
  have hkeeps := h.keeps (fun g ↦ Law.restricted g guards options t.cluster) (fun _ h ↦ h.1) ?_ ?_
    ⟨ht, rfl, .of_hosts_iff fun _ _ ↦ Iff.rfl⟩
  · exact hkeeps.2.2
  · rintro g t₁ ⟨hsound, hstates, hrestricted⟩
    refine ⟨hsound.track g.name (criteria options),
      (Cluster.states_track ..).trans hstates, hrestricted.trans hstates (.of_hosts_iff ?_)⟩
    exact fun _ _ ↦ Cluster.hosts_of_map (Cluster.brokers_track ..) rfl (fun _ ↦ rfl) fun _ ↦ rfl
  · rintro g t₁ ⟨hsound, hstates, hrestricted⟩
    refine ⟨hsound.untrack g.name, (Cluster.states_untrack ..).trans hstates,
      hrestricted.trans hstates (.of_hosts_iff ?_)⟩
    exact fun _ _ ↦ Cluster.hosts_of_map (Cluster.brokers_untrack ..) rfl (fun _ ↦ rfl) fun _ ↦ rfl

end DistributionGoal

open DistributionGoal (pursue exists_account)

/-- After any history in which the use of disks is a number, for any guards, options and whatever
was written before: every move that a pursuit makes is permitted in the cluster just before. But for
views the last one leads to the cluster that the pursuit leaves, unless a view fails to find a
replica on its way. And whether it ends in a result or a fault, partitions of excluded topics have
lost only dead brokers since the beginning, and what brokers partitions have gained are alive and
not excluded. -/
theorem moves_permitted (operations : List Operation)
    (hdisk : ∀ r ∈ (Cluster.after operations).replicas, r.load.of .disk ≠ .nan)
    (guards : List Guard) (options : Options) (journal : Journal) (g : DistributionGoal) :
    (∃ events c,
      (stateAfter (pursue guards options) (g, ⟨.after operations, journal⟩)).2.journal =
        journal ++ events ∧
      Trail (fun c m _ ↦ Permitted options c m)
        ((Cluster.after operations).track g.name (DistributionGoal.criteria options))
        events.moves c ∧
      ((∃ s, pursue guards options (g, ⟨.after operations, journal⟩) =
          .error .viewOutOfOrder s) ∨
        (stateAfter (pursue guards options) (g, ⟨.after operations, journal⟩)).2.cluster.bare =
          c.bare)) ∧
    Restricted options (.after operations)
      (stateAfter (pursue guards options) (g, ⟨.after operations, journal⟩)).2.cluster := by
  have hsound := Cluster.sound_after operations
  obtain ⟨x, haccount, hfault⟩ := exists_account (p := ⟨.after operations, journal⟩) hsound g
  refine ⟨?_, haccount.pursued.restricted hsound⟩
  obtain ⟨events, c, hj, htrail, hremains⟩ := (haccount.travels_of_advances
    (fun c m _ ↦ Permitted options c m) (fun c m _ ↦ Permitted options c m) hsound hdisk
    (fun _ _ h hm ↦ h.permitted hm) fun _ _ h hm ↦ h.permitted hm).exists_trail
  exact ⟨events, c, hj, htrail, hremains.imp_left (hfault _)⟩

/-- A dead broker, an alive one that is empty and a new one; of one topic there are replicas on the
dead broker and on an alive one. -/
def Operation.parted : List Operation :=
  [.addBroker 0 none .alive, .addBroker 1 none .alive, .addBroker 2 none .dead,
    .addBroker 3 none .new, .place ⟨"a", 0⟩ 0 true {}, .place ⟨"a", 1⟩ 0 true {},
    .place ⟨"a", 2⟩ 0 true {}, .place ⟨"a", 3⟩ 2 true {}, .place ⟨"b", 0⟩ 2 true {}]

/-- If that topic is excluded, and the new broker too, all goes from the dead one to the empty one.
-/
theorem moves_permitted_parted :
    (stateAfter (pursue [] { excludedTopics := ["a"], excludedBrokers := [3] })
        ({}, ⟨.after Operation.parted, #[]⟩)).2.journal.moves =
      [.replica ⟨"a", 3⟩ 2 1, .replica ⟨"b", 0⟩ 2 1] ∧
    (∃ (events : Journal) (c : Cluster),
      (stateAfter (pursue [] { excludedTopics := ["a"], excludedBrokers := [3] })
        ({}, ⟨.after Operation.parted, #[]⟩)).2.journal = #[] ++ events ∧
      Trail (fun c m _ ↦ Permitted { excludedTopics := ["a"], excludedBrokers := [3] } c m)
        ((Cluster.after Operation.parted).track "ReplicaDistributionGoal"
          (DistributionGoal.criteria {})) events.moves c) ∧
    Restricted { excludedTopics := ["a"], excludedBrokers := [3] } (.after Operation.parted)
      (stateAfter (pursue [] { excludedTopics := ["a"], excludedBrokers := [3] })
        ({}, ⟨.after Operation.parted, #[]⟩)).2.cluster := by
  obtain ⟨⟨events, c, hj, htrail, -⟩, hrestricted⟩ := moves_permitted Operation.parted
    (by decide +kernel) [] { excludedTopics := ["a"], excludedBrokers := [3] } #[] {}
  exact ⟨by decide +kernel, ⟨events, c, hj, htrail⟩, hrestricted⟩

end Rebalance
