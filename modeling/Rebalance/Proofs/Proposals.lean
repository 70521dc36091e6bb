import Mathlib.Data.List.Forall2
import Rebalance.Optimizer
import Rebalance.Proofs.Cluster.Placement
import Rebalance.Proofs.Cluster.Trail
import Rebalance.Proofs.History

/-!
# Proposals

Goals that rearrange a cluster move replicas and leaderships any number of times. Since that neither
makes nor loses replicas, both ends of it list the same partitions, each with as many hosts. So what
is proposed is the difference between the two ends, whatever happened in between.
-/

namespace Rebalance

/-! ## Rearrangements -/

/-- Operations that only move replicas and leaderships, and keep views of replicas. -/
def Operation.IsRearrangement : Operation → Prop
  | relocate _ _ _ => True
  | passLeadership _ _ _ => True
  | track _ _ => True
  | untrack _ => True
  | _ => False

theorem Operation.IsRearrangement.not_placement {o : Operation} (h : o.IsRearrangement) :
    ¬ o.IsPlacement := by
  cases o with
  | place => exact h.elim
  | _ => exact id

namespace Cluster

variable {measured : Resource → Prop} {c c' c'' : Cluster} {i : ReplicaId} {r : Replica}
  {d : BrokerId}

/-- A cluster becomes another by moves of replicas and leaderships. -/
def Rearranged (measured : Resource → Prop) (c c' : Cluster) : Prop :=
  ∃ operations : List Operation, (∀ o ∈ operations, o.IsRearrangement ∧ o.IsMeasured measured) ∧
    c' = operations.foldl Operation.apply c

namespace Rearranged

theorem refl (c : Cluster) : c.Rearranged measured c :=
  ⟨[], fun _ h ↦ absurd h List.not_mem_nil, rfl⟩

theorem trans (h : c.Rearranged measured c') (h' : c'.Rearranged measured c'') :
    c.Rearranged measured c'' := by
  obtain ⟨operations, hall, rfl⟩ := h
  obtain ⟨operations', hall', rfl⟩ := h'
  refine ⟨operations ++ operations', fun o ho ↦ ?_, List.foldl_append.symm⟩
  exact (List.mem_append.1 ho).elim (hall o) (hall' o)

/-- One operation more. -/
theorem apply (h : c.Rearranged measured c') {o : Operation} (ho : o.IsRearrangement)
    (hmeasured : o.IsMeasured measured) : c.Rearranged measured (o.apply c') :=
  h.trans ⟨[o], List.forall_mem_singleton.2 ⟨ho, hmeasured⟩, rfl⟩

/-- A replica moved more. -/
theorem moved (h : c.Rearranged measured c') (hc' : c'.Sound) (hm : c'.Movable i r d) :
    c.Rearranged measured (c'.moved i r d) := by
  have hmoved : (Operation.relocate r.partition r.broker d).apply c' = c'.moved i r d := by
    rw [Operation.apply, stateAfter, relocate_of_movable hc' hm]
  rw [← hmoved]
  exact h.apply trivial trivial

theorem reachable (h : c.Rearranged measured c') (hc : c.Reachable measured) :
    c'.Reachable measured := by
  obtain ⟨operations, hall, rfl⟩ := h
  obtain ⟨operations₀, hall₀, rfl⟩ := hc
  refine ⟨operations₀ ++ operations, fun o ho ↦ ?_, List.foldl_append.symm⟩
  exact (List.mem_append.1 ho).elim (hall₀ o) fun ho ↦ (hall o ho).2

/-- The replicas keep all but their brokers. -/
theorem origins_eq (h : c.Rearranged measured c') (hc : c.Sound) : c'.origins = c.origins := by
  obtain ⟨operations, hall, rfl⟩ := h
  induction operations generalizing c with
  | nil => rfl
  | cons o rest ih =>
    rw [List.forall_mem_cons] at hall
    obtain ⟨hsound, horigins⟩ := o.sound_apply hc
    exact (ih hsound hall.2).trans (horigins hall.1.1.not_placement)

end Rearranged

end Cluster

/-- Wherever a goal is pursued to a result, it has only rearranged the cluster. -/
def Goal.Rearranges {γ : Type} [Goal γ] (measured : Resource → Prop) (g : γ) : Prop :=
  ∀ guards options (p : Plan), p.cluster.Reachable measured →
    Ends (Goal.pursue guards options) (g, p)
      (fun _ s ↦ p.cluster.Rearranged measured s.2.cluster) fun _ _ ↦ True

namespace DistributionGoal

variable {measured : Resource → Prop} {c : Cluster} {guards : List Guard} {options : Options}

/-- Moves rearrange a stable cluster. -/
theorem Law.rearranged (g : DistributionGoal) (guards : List Guard) (options : Options)
    (measured : Resource → Prop) (c : Cluster) :
    g.Law guards options
      (fun t ↦ t.cluster.Stable measured ∧ c.Rearranged measured t.cluster)
      fun _ t ↦ t.cluster.Stable measured ∧ c.Rearranged measured t.cluster where
  moves ht hmoves := by
    refine ⟨(Law.stable g guards options measured).moves ht.1 hmoves, ?_⟩
    obtain ⟨j, r, -, -, hm, hcluster⟩ := hmoves.relocated.cluster
    rw [hcluster]
    exact ht.2.moved ht.1.toSound hm
  fails ht hfails := by
    obtain ⟨r, -, -, hf⟩ := hfails.breaks
    cases hf with
    | judging => exact ht
    | moving _ _ _ hf =>
      rw [ht.1.eq_of_refused hf]
      exact ht
  offers ht _ := ht
  views ht _ _ := ht

/-- The distribution goal is such a goal. -/
theorem rearranges (hdisk : measured .disk) (g : DistributionGoal) :
    Goal.Rearranges measured g := by
  intro guards options p hp
  have key : ∀ y g' t, Pursued guards options g p.stage y g' t →
      p.cluster.Rearranged measured t.cluster := by
    intro y g' t hpursued
    refine (hpursued.keeps (fun g ↦ Law.rearranged g guards options measured p.cluster)
      (fun t ht ↦ ht.1.toSound) ?_ ?_ ⟨hp.stable, .refl _⟩).2
    · intro g t ht
      have hmeasured : (Operation.track g.name (criteria options)).IsMeasured measured := by
        rintro x ⟨⟩
        exact hdisk
      exact ⟨Operation.stable_apply ht.1 hmeasured,
        ht.2.apply (o := .track g.name (criteria options)) trivial hmeasured⟩
    · intro g t ht
      exact ⟨ht.1.untrack g.name, ht.2.apply (o := .untrack g.name) trivial trivial⟩
  exact (comes_pursue hp.stable.toSound).mono (fun _ _ ↦ key _ _ _) fun _ _ _ ↦ trivial

end DistributionGoal

/-! ## Optimizations -/

namespace Optimization

variable {γ : Type} [Goal γ] {measured : Resource → Prop} {options : Options} {g : γ}
  {o o' : Optimization γ}

theorem ends_pursueAt (hg : Goal.Rearranges measured g) (hc : o.plan.cluster.Reachable measured)
    (place : Nat) :
    Ends (pursueAt options place g) o
      (fun _ o' ↦ o.plan.cluster.Rearranged measured o'.plan.cluster) fun _ _ ↦ True := by
  have hpursue := hg ((o.goals.take place).map Goal.guard) options o.plan hc
  unfold Ends at hpursue
  unfold Ends pursueAt
  dsimp only
  cases hx : Goal.pursue ((o.goals.take place).map Goal.guard) options (g, o.plan) with
  | ok satisfied s =>
    rw [hx] at hpursue
    exact hpursue
  | error f s => trivial

theorem ends_step (hg : Goal.Rearranges measured g) (hc : o.plan.cluster.Reachable measured)
    (place : Nat) :
    Ends (step options place g) o
      (fun _ o' ↦ o.plan.cluster.Rearranged measured o'.plan.cluster) fun _ _ ↦ True := by
  unfold step
  refine .bind (.get (.bind ((ends_pursueAt hg hc place).mono ?_ fun _ _ hf ↦ hf)))
  intro satisfied o' hrearranged
  refine .bind (.get ?_)
  dsimp only
  split
  · exact hrearranged
  · split
    · trivial
    · exact hrearranged

/-- Goals that rearrange do so together. -/
theorem ends_steps (goals : List γ) (hgoals : ∀ g ∈ goals, Goal.Rearranges measured g)
    (hc : o.plan.cluster.Reachable measured) (place : Nat) :
    Ends (steps options place goals) o
      (fun _ o' ↦ o.plan.cluster.Rearranged measured o'.plan.cluster) fun _ _ ↦ True := by
  induction goals generalizing o place with
  | nil => exact .pure (.refl _)
  | cons g rest ih =>
    rw [List.forall_mem_cons] at hgoals
    refine .bind ((ends_step hgoals.1 hc place).mono ?_ fun _ _ hf ↦ hf)
    intro _ o₁ hfirst
    refine .bind ((ih hgoals.2 (hfirst.reachable hc) (place + 1)).mono ?_ fun _ _ hf ↦ hf)
    exact fun _ o₂ hrest ↦ hfirst.trans hrest

theorem ends_run (hgoals : ∀ g ∈ o.goals, Goal.Rearranges measured g)
    (hc : o.plan.cluster.Reachable measured) :
    Ends (run options) o
      (fun report o' ↦ o.plan.cluster.Rearranged measured o'.plan.cluster ∧
        report.proposals =
          Proposal.ofPlacements o.plan.cluster.placements o'.plan.cluster.placements)
      fun _ _ ↦ True := by
  unfold run
  refine .bind (.get (.bind ((ends_steps o.goals hgoals hc 0).mono ?_ fun _ _ hf ↦ hf)))
  exact fun _ o' hrearranged ↦ .bind (.get ⟨hrearranged, rfl⟩)

end Optimization

/-! ## Exchanges of brokers -/

/-- The brokers that receive a copy are not those that lose theirs, there are as many of them, and
together they make the new brokers out of the old ones. -/
structure Proposal.Exchanges (p : Proposal) : Prop where
  disjoint : p.added.Disjoint p.removed
  length_eq : p.added.length = p.removed.length
  mem_new_iff : ∀ id, id ∈ p.new ↔ id ∈ p.old ∧ id ∉ p.removed ∨ id ∈ p.added

theorem Proposal.exchanges {p : Proposal} (hold : p.old.Nodup) (hnew : p.new.Nodup)
    (hlen : p.old.length = p.new.length) : p.Exchanges where
  disjoint id hadded hremoved := by
    have hold := (List.mem_filter.1 hremoved).1
    have hnot := (List.mem_filter.1 hadded).2
    rw [List.contains_iff_mem.2 hold] at hnot
    cases hnot
  length_eq := by
    have hstay : (p.new.filter p.old.contains).length = (p.old.filter p.new.contains).length := by
      refine List.Perm.length_eq ((List.perm_ext_iff_of_nodup (hnew.filter _) (hold.filter _)).2 ?_)
      intro id
      rw [List.mem_filter, List.mem_filter, List.contains_iff_mem, List.contains_iff_mem]
      exact and_comm
    have hnew' := List.length_eq_length_filter_add (l := p.new) p.old.contains
    have hold' := List.length_eq_length_filter_add (l := p.old) p.new.contains
    unfold added removed
    omega
  mem_new_iff id := by
    unfold added removed
    simp only [List.mem_filter, Bool.not_eq_true', List.contains_eq_mem, decide_eq_false_iff_not]
    tauto

/-! ## The difference between two clusters -/

/-- A placement, as proposals say it becomes. -/
def Placement.revised (proposals : List Proposal) (pl : Placement) : Placement :=
  match proposals.find? (·.partition = pl.partition) with
  | some p => { pl with hosts := p.new, leader := p.newLeader }
  | none => pl

/-- Placements are the same if they have the same hosts, in whatever order, and the same leader. -/
structure Placement.Same (pl pl' : Placement) : Prop where
  partition : pl.partition = pl'.partition
  hosts : pl.hosts.Perm pl'.hosts
  leader : pl.leader = pl'.leader

namespace Cluster

variable {measured : Resource → Prop} {before after : Cluster} {tp : TopicPartition} {p : Proposal}

/-- Proposals are the difference between two clusters. -/
structure Difference (before after : Cluster) (proposals : List Proposal) : Prop where
  ascending : (proposals.map Proposal.partition).Pairwise (· < ·)
  complete : ∀ tp, tp ∈ proposals.map Proposal.partition ↔
    (¬ ∀ id, id ∈ before.hosts tp ↔ id ∈ after.hosts tp) ∨ before.leader tp ≠ after.leader tp
  placed : ∀ p ∈ proposals,
    p = .between (before.placement p.partition) (after.placement p.partition)
  distinct : ∀ p ∈ proposals, p.old.Nodup ∧ p.new.Nodup ∧ p.old.length = p.new.length
  exchanges : ∀ p ∈ proposals, p.Exchanges
  applied : List.Forall₂ Placement.Same (before.placements.map (Placement.revised proposals))
    after.placements

/-- How a partition changes from one cluster to another. -/
def changeTo (before after : Cluster) (tp : TopicPartition) : Proposal :=
  .between (before.placement tp) (after.placement tp)

/-- Whether a partition changes from one cluster to another. -/
def changesTo (before after : Cluster) (tp : TopicPartition) : Bool :=
  (before.changeTo after tp).movesReplicas || (before.changeTo after tp).movesLeader

theorem changesTo_iff : before.changesTo after tp = true ↔
    (¬ ∀ id, id ∈ before.hosts tp ↔ id ∈ after.hosts tp) ∨ before.leader tp ≠ after.leader tp := by
  have hreplicas : (before.changeTo after tp).movesReplicas = true ↔
      ¬ ∀ id, id ∈ before.hosts tp ↔ id ∈ after.hosts tp := by
    unfold Proposal.movesReplicas changeTo Proposal.between placement
    simp only [Bool.not_eq_true', Bool.and_eq_false_iff, List.all_eq_false, List.contains_iff_mem]
    rw [← not_iff_not, not_not, not_or, not_exists, not_exists]
    simp only [not_and, not_not]
    exact ⟨fun h id ↦ ⟨h.1 id, h.2 id⟩, fun h ↦ ⟨fun id ↦ (h id).1, fun id ↦ (h id).2⟩⟩
  rw [changesTo, Bool.or_eq_true, hreplicas]
  exact or_congr Iff.rfl decide_eq_true_iff

/-- Among the same partitions, those are proposed that change. -/
theorem ofPlacements_eq (h : after.partitions = before.partitions) :
    Proposal.ofPlacements before.placements after.placements =
      (after.partitions.filter (before.changesTo after)).map (before.changeTo after) := by
  unfold Proposal.ofPlacements placements
  rw [List.filterMap_map, ← List.filterMap_eq_filter, List.map_filterMap]
  refine List.filterMap_congr fun tp htp ↦ ?_
  rw [Function.comp_apply, show (after.placement tp).partition = tp from rfl,
    ← placements, find?_placements (h ▸ htp)]
  change (if before.changesTo after tp = true then some (before.changeTo after tp) else none) = _
  rw [Option.guard]
  split <;> rfl

theorem find?_changes (htp : tp ∈ after.partitions) :
    ((after.partitions.filter (before.changesTo after)).map (before.changeTo after)).find?
        (·.partition = tp) =
      if before.changesTo after tp then some (before.changeTo after tp) else none := by
  have hpartition : ∀ tp', ((fun p : Proposal ↦ decide (p.partition = tp)) ∘
      before.changeTo after) tp' = true ↔ tp' = tp := fun tp' ↦ by
    rw [Function.comp_apply, decide_eq_true_eq]
    rfl
  rw [List.find?_map]
  split
  · rename_i hchanges
    rw [find?_eq_some_of_iff (List.mem_filter.2 ⟨htp, hchanges⟩) fun tp' _ ↦ hpartition tp']
    rfl
  · rename_i hsame
    rw [Option.map_eq_none_iff, List.find?_eq_none]
    intro tp' htp' heq
    rw [hpartition] at heq
    rw [heq] at htp'
    exact hsame (List.mem_filter.1 htp').2

/-- Once it is revised, the placement before is the one after. -/
theorem same_revised (hbefore : before.Stable measured) (hafter : after.Stable measured)
    (htp : tp ∈ after.partitions) :
    ((before.placement tp).revised
      ((after.partitions.filter (before.changesTo after)).map (before.changeTo after))).Same
      (after.placement tp) := by
  unfold Placement.revised
  rw [show (before.placement tp).partition = tp from rfl, find?_changes htp]
  by_cases hchanges : before.changesTo after tp = true
  · rw [if_pos hchanges]
    exact ⟨rfl, .refl _, rfl⟩
  · rw [if_neg hchanges]
    rw [changesTo_iff, not_or, not_not, not_not] at hchanges
    obtain ⟨hhosts, hleader⟩ := hchanges
    refine ⟨rfl, ?_, hleader⟩
    exact (List.perm_ext_iff_of_nodup (hbefore.hosts_nodup tp) (hafter.hosts_nodup tp)).2 hhosts

theorem difference_ofPlacements (hbefore : before.Stable measured) (hafter : after.Stable measured)
    (horigins : after.origins = before.origins) :
    before.Difference after (Proposal.ofPlacements before.placements after.placements) := by
  have hpartitions := partitions_congr horigins
  rw [ofPlacements_eq hpartitions]
  have hmap : ((after.partitions.filter (before.changesTo after)).map
      (before.changeTo after)).map Proposal.partition =
        after.partitions.filter (before.changesTo after) := by
    rw [List.map_map]
    exact List.map_id _
  have hdistinct : ∀ tp, (before.changeTo after tp).old.Nodup ∧
      (before.changeTo after tp).new.Nodup ∧
      (before.changeTo after tp).old.length = (before.changeTo after tp).new.length := fun tp ↦
    ⟨hbefore.hosts_nodup tp, hafter.hosts_nodup tp, (length_hosts_congr horigins tp).symm⟩
  constructor
  · rw [hmap]
    exact after.pairwise_partitions.filter _
  · intro tp
    rw [hmap, List.mem_filter, ← changesTo_iff, and_iff_right_iff_imp]
    intro hchanges
    -- What has no copies has no hosts and no leader, before or after.
    by_contra htp
    rw [changesTo_iff, hosts_eq_nil htp, leader_eq_none htp] at hchanges
    rw [hpartitions] at htp
    rw [hosts_eq_nil htp, leader_eq_none htp] at hchanges
    exact hchanges.elim (fun h ↦ h fun _ ↦ Iff.rfl) fun h ↦ h rfl
  · intro p hp
    obtain ⟨tp, -, rfl⟩ := List.mem_map.1 hp
    rfl
  · intro p hp
    obtain ⟨tp, -, rfl⟩ := List.mem_map.1 hp
    exact hdistinct tp
  · intro p hp
    obtain ⟨tp, -, rfl⟩ := List.mem_map.1 hp
    obtain ⟨hold, hnew, hlen⟩ := hdistinct tp
    exact Proposal.exchanges hold hnew hlen
  · unfold placements
    rw [List.map_map, ← hpartitions, List.forall₂_map_left_iff, List.forall₂_map_right_iff,
      List.forall₂_same]
    exact fun tp htp ↦ same_revised hbefore hafter htp

end Cluster

open Optimization (ends_run)

/-- After any history whose views are measured like the loads of all replicas, and for any goals
that change a cluster only by moves of replicas and leaderships: if an optimization comes to a
report, then what it proposes is exactly the difference between the cluster at the beginning and the
one at the end. -/
theorem proposals_exact {measured : Resource → Prop} (operations : List Operation)
    (hoperations : ∀ o ∈ operations, ¬ o.IsPlacement → o.IsMeasured measured)
    (hnumeric : (Cluster.after operations).Numeric measured) {γ : Type} [Goal γ]
    {options : Options} {o o' : Optimization γ} {report : Report}
    (hplan : o.plan.cluster = .after operations)
    (hgoals : ∀ g ∈ o.goals, Goal.Rearranges measured g)
    (hrun : Optimization.run options o = .ok report o') :
    (Cluster.after operations).Difference o'.plan.cluster report.proposals := by
  have hreachable : o.plan.cluster.Reachable measured :=
    hplan ▸ Cluster.reachable_after hoperations hnumeric
  obtain ⟨hrearranged, hproposals⟩ := (ends_run hgoals hreachable).of_ok hrun
  rw [hproposals, ← hplan]
  exact Cluster.difference_ofPlacements hreachable.stable
    (hrearranged.reachable hreachable).stable
    (hrearranged.origins_eq hreachable.stable.toSound)

/-- A broker with two leaders and two followers gives away the first leader and what comes next. -/
theorem proposals_exact_led :
    let operations : List Operation := [.addBroker 0 none .alive, .addBroker 1 none .alive,
      .addBroker 2 none .alive, .place ⟨"a", 0⟩ 0 true {}, .place ⟨"a", 0⟩ 1 false {},
      .place ⟨"b", 0⟩ 0 false {}, .place ⟨"c", 0⟩ 0 true {}, .place ⟨"d", 0⟩ 0 false {}]
    ∃ report o', Optimization.run {} (⟨[{}], ⟨.after operations, #[]⟩⟩ :
        Optimization DistributionGoal) = .ok report o' ∧
      report.proposals = [⟨⟨"a", 0⟩, [0, 1], [2, 1], some 0, some 2⟩,
        ⟨⟨"b", 0⟩, [0], [1], none, none⟩] ∧
      (Cluster.after operations).Difference o'.plan.cluster report.proposals := by
  intro operations
  obtain ⟨report, o', hrun, hproposals⟩ := Ends.exists_ok (by decide +kernel :
    Ends (Optimization.run {}) (⟨[{}], ⟨.after operations, #[]⟩⟩ : Optimization DistributionGoal)
      (fun report _ ↦ report.proposals = [⟨⟨"a", 0⟩, [0, 1], [2, 1], some 0, some 2⟩,
        ⟨⟨"b", 0⟩, [0], [1], none, none⟩]) fun _ _ ↦ False)
  refine ⟨report, o', hrun, hproposals, ?_⟩
  refine proposals_exact operations
    (?_ : ∀ o ∈ operations, ¬ o.IsPlacement → o.IsMeasured fun _ ↦ True) ?_ rfl ?_ hrun
  · simp [operations, Operation.IsPlacement, Operation.IsMeasured]
  · have hloads : ∀ r ∈ (Cluster.after operations).replicas, r.load = {} := by decide +kernel
    intro r hr
    rw [hloads r hr]
    exact Load.isNumeric_default _
  · exact fun g _ ↦ g.rearranges trivial

end Rebalance
