import Rebalance.Proofs.Cluster.Pairing
import Rebalance.Proofs.Cluster.Trail
import Rebalance.Proofs.Distribution.Faultless

/-!
# Two runs on one placement

A pursuit of the goal without guards looks at nothing but the placement: the states of the brokers,
where replicas are and were first, and how much of the disk they use. So on two clusters of the same
placement it takes the same decisions one after another, on replicas that are partners of each
other, and writes the same journal.
-/

namespace Rebalance

open Cluster (Paired)

/-! ## Views -/

namespace Double

variable {x x' y y' : Double} (hx : x.position = x'.position) (hy : y.position = y'.position)

include hx hy

theorem same_congr : x.same y = x'.same y' := by
  unfold same
  rw [hx, hy]

theorem lt_congr : x < y ↔ x' < y' := by
  rw [lt_iff, lt_iff, hx, hy]

end Double

namespace DistributionGoal

variable {options : Options} {r r' r₁ r₁' : Replica}

/-- The views of the goal admit what is alike. -/
theorem admits_of_site (h : r.site = r'.site) :
    (criteria options).admits r' = (criteria options).admits r := by
  unfold Criteria.admits criteria
  cases options.onlyImmigrants with
  | true => exact (Replica.isImmigrant_of_site h).symm
  | false => rfl

/-- They order what is alike in the same way. -/
theorem rank_lt_of_site (h : r.site = r'.site) (h₁ : r₁.site = r₁'.site) :
    (criteria options).rank r < (criteria options).rank r₁ ↔
      (criteria options).rank r' < (criteria options).rank r₁' := by
  have hpriorities : ∀ {r r' : Replica}, r.site = r'.site →
      ((criteria options).rank r).priorities = ((criteria options).rank r').priorities := by
    intro r r' h
    change [if r.isImmigrant then 0 else 1] = [if r'.isImmigrant then 0 else 1]
    rw [Replica.isImmigrant_of_site h]
  have hpartition : ∀ {r r' : Replica}, r.site = r'.site →
      ((criteria options).rank r).partition = ((criteria options).rank r').partition := fun h ↦
    Replica.partition_of_site h
  have hscore : ∀ {r r' : Replica}, r.site = r'.site → ((criteria options).rank r).score.position =
      ((criteria options).rank r').score.position := fun h ↦ Replica.disk_of_site h
  rw [Rank.lt_iff, Rank.lt_iff, hpriorities h, hpriorities h₁, hpartition h, hpartition h₁,
    Double.same_congr (hscore h) (hscore h₁), Double.lt_congr (hscore h) (hscore h₁)]

end DistributionGoal

/-! ## Plans on the same placement -/

/-- Two runs, on clusters in each of which some resources are measured, and which replicas are
partners. -/
structure Coupling where
  first : Resource → Prop
  second : Resource → Prop
  pair : ReplicaId → ReplicaId → Prop

/-- While the goal of a name is pursued, two plans have had the same journal so far, and their
clusters are paired. -/
structure Coupling.Level (k : Coupling) (name : String) (options : Options) (p p' : Plan) : Prop
    where
  journal : p'.journal = p.journal
  paired : Paired k.pair p.cluster p'.cluster
  first : p.cluster.Intact k.first name (DistributionGoal.criteria options)
  second : p'.cluster.Intact k.second name (DistributionGoal.criteria options)

namespace Coupling.Level

variable {k : Coupling} {name : String} {options : Options} {p p' : Plan} {i j : ReplicaId}
  {r r' : Replica} {d id : BrokerId} {b b' : Broker}

theorem record (h : k.Level name options p p') (e : Event) :
    k.Level name options { p with journal := p.journal.push e }
      { p' with journal := p'.journal.push e } :=
  ⟨congrArg (Array.push · e) h.journal, h.paired, h.first, h.second⟩

theorem agree_broker (h : k.Level name options p p') (id : BrokerId) :
    Agree Broker.Matches (p.cluster.broker id) (p'.cluster.broker id) :=
  h.paired.agree_broker h.first.toStable h.second.toStable id

theorem count_eq (h : k.Level name options p p') (id : BrokerId) :
    p'.cluster.count id = p.cluster.count id :=
  h.paired.count_eq h.first.toStable h.second.toStable id

theorem mustStay_eq (h : k.Level name options p p') (hij : k.pair i j) (topics : List String) :
    (p'.cluster.replica? j).any (p'.cluster.mustStay topics) =
      (p.cluster.replica? i).any (p.cluster.mustStay topics) :=
  h.paired.mustStay_eq h.first.toStable h.second.toStable hij topics

/-- The views of a broker show partners in the same order. -/
theorem agree_view (h : k.Level name options p p') (hb : p.cluster.broker? id = some b)
    (hb' : p'.cluster.broker? id = some b') :
    Agree (fun v v' : View ↦ List.Forall₂ k.pair v.replicas v'.replicas) (b.view name)
      (b'.view name) := by
  obtain ⟨v, hv, hcriteria, hshows⟩ := h.first.faithful.shows b (Cluster.mem_of_broker? hb)
  obtain ⟨v', hv', hcriteria', hshows'⟩ := h.second.faithful.shows b' (Cluster.mem_of_broker? hb')
  rw [Cluster.id_of_broker? hb] at hshows
  rw [Cluster.id_of_broker? hb'] at hshows'
  rw [Broker.view, Broker.view, hv, hv']
  exact h.paired.forall₂_replicas h.first.toStable h.second.toStable
    DistributionGoal.admits_of_site DistributionGoal.rank_lt_of_site hshows hshows' hcriteria
    hcriteria'

end Coupling.Level

namespace DistributionGoal

variable {k : Coupling} {options : Options} {g g' : DistributionGoal} {p p' : Plan}
  {i j : ReplicaId} {r r' : Replica} {d id : BrokerId} {b b' : Broker}

/-! ## Attempts -/

theorem agree_judge (h : k.Level g.name options p p') {a : Action}
    (ha : a.kind = .replicaMovement) :
    Agree Eq (g.judge a p.cluster) (g.judge a p'.cluster) := by
  unfold judge
  rw [ha]
  refine .bind (h.agree_broker _) fun s s' _ _ hs ↦
    .bind (h.agree_broker _) fun d d' _ _ hd ↦ ?_
  rw [hs.count, hd.count, show g.ceiling d' = g.ceiling d by rw [ceiling, ceiling, hd.isAlive],
    show g.bottom s' = g.bottom s by rw [bottom, bottom, hs.isAlive]]
  exact .refl _

theorem agree_demand (h : k.Level g.name options p p') {a : Action}
    (ha : a.kind = .replicaMovement) :
    Agree Eq (g.demand a p.cluster) (g.demand a p'.cluster) := by
  have hjudge : Agree Eq (do return decide ((← g.judge a p.cluster) = .accept))
      (do return decide ((← g.judge a p'.cluster) = .accept)) := by
    refine .bind (agree_judge h ha) ?_
    rintro verdict _ - - rfl
    exact .refl _
  unfold demand
  split
  · refine .bind (h.agree_broker _) fun s s' _ _ hs ↦ ?_
    rw [hs.isAlive]
    split
    · exact .refl _
    · exact hjudge
  · exact hjudge

open Attempt (isAdmitted first eligible)

/-- A destination admits partners alike, and those whom it admits may move there. -/
theorem lockstep_isAdmitted (h : k.Level g.name options p p') (hij : k.pair i j)
    (hr : p.cluster.replica? i = some r) (hr' : p'.cluster.replica? j = some r') (d : BrokerId) :
    Lockstep
      (isAdmitted g.demand [] r { partition := r.partition, source := r.broker, destination := d,
                                  kind := .replicaMovement })
      (isAdmitted g.demand [] r' { partition := r.partition, source := r.broker, destination := d,
                                   kind := .replicaMovement })
      p p'
      (fun x x' q q' ↦ x' = x ∧ q = p ∧ q' = p' ∧
        (x = true → p.cluster.Movable i r d ∧ p'.cluster.Movable j r' d))
      (k.Level g.name options) := by
  have hsite := h.paired.site_eq hij hr hr'
  unfold isAdmitted
  refine .bind (Planning.lockstep_cluster (.bind (.except (h.agree_broker d) ?_ h)))
  intro b b' hb hb' hmatches
  rw [Cluster.broker_eq_ok_iff] at hb hb'
  have hlegal : b'.isLegalFor .replicaMovement r' = b.isLegalFor .replicaMovement r := by
    unfold Broker.isLegalFor
    rw [if_pos rfl, if_pos rfl, hmatches.isAlive, hmatches.hosts, Replica.partition_of_site hsite]
  refine .ite (by rw [hlegal]) (fun hmay ↦ ?_) fun _ ↦ .pure ⟨rfl, rfl, rfl, nofun⟩
  refine .bind (.except (agree_demand h rfl) ?_ h)
  rintro satisfied _ - - rfl
  refine .ite Iff.rfl (fun _ ↦ ?_) fun _ ↦ .pure ⟨rfl, rfl, rfl, nofun⟩
  have hvacant : b.hosts r.partition = false := by
    change (b.isAlive && !b.hosts r.partition) = true at hmay
    simpa using (Bool.and_eq_true_iff.1 hmay).2
  have hvacant' : b'.hosts r'.partition = false := by
    rw [hmatches.hosts, ← Replica.partition_of_site hsite, hvacant]
  exact .pure ⟨rfl, rfl, rfl, fun _ ↦ ⟨h.first.movable hr hb hvacant,
    h.second.movable hr' hb' hvacant'⟩⟩

/-- Partners that may move do so. -/
theorem lockstep_relocate (h : k.Level g.name options p p') (hij : k.pair i j)
    (hm : p.cluster.Movable i r d) (hm' : p'.cluster.Movable j r' d)
    {fail : Plan → Plan → Prop} :
    Lockstep (Planning.relocate r.partition r.broker d) (Planning.relocate r.partition r.broker d)
      p p' (fun _ _ ↦ k.Level g.name options) fail := by
  have hr := hm.on.replica?_eq
  have hr' := hm'.on.replica?_eq
  have hsite := h.paired.site_eq hij hr hr'
  have hmoved := Cluster.relocate_of_movable h.first.toSound hm
  have hmoved' := Cluster.relocate_of_movable h.second.toSound hm'
  rw [← Replica.partition_of_site hsite, ← Replica.broker_of_site hsite] at hmoved'
  unfold Planning.relocate
  have hpaired := h.paired.moved h.first.toStable h.second.toStable hij hr hr' d
  refine .bind (Planning.lockstep_change (.of_ok hmoved hmoved' (Planning.lockstep_record ?_)))
  exact ⟨congrArg (Array.push · _) h.journal, hpaired, h.first.moved hm, h.second.moved hm'⟩

theorem lockstep_first (h : k.Level g.name options p p') (hij : k.pair i j)
    (hr : p.cluster.replica? i = some r) (hr' : p'.cluster.replica? j = some r')
    (candidates : List BrokerId) :
    Lockstep (first g.demand [] .replicaMovement r candidates)
      (first g.demand [] .replicaMovement r' candidates) p p'
      (fun x x' q q' ↦ x' = x ∧ k.Level g.name options q q') (k.Level g.name options) := by
  have hsite := h.paired.site_eq hij hr hr'
  induction candidates with
  | nil => exact .pure ⟨rfl, h⟩
  | cons d rest ih =>
    unfold first
    rw [← Replica.partition_of_site hsite, ← Replica.broker_of_site hsite]
    refine .bind ((lockstep_isAdmitted h hij hr hr' d).mono ?_ fun _ _ ↦ id)
    rintro admitted _ _ _ ⟨rfl, rfl, rfl, hmovable⟩
    refine .ite Iff.rfl (fun htrue ↦ ?_) fun _ ↦ ih
    obtain ⟨hm, hm'⟩ := hmovable htrue
    refine .bind ((lockstep_relocate h hij hm hm').mono ?_ fun _ _ ↦ id)
    exact fun _ _ q q' hq ↦ .pure ⟨rfl, hq⟩

/-- Partners are moved to the same candidate, or neither is moved. -/
theorem lockstep_attempt (h : k.Level g.name options p p') (hij : k.pair i j)
    (candidates : List BrokerId) :
    Lockstep (attempt g.demand [] options .replicaMovement i candidates)
      (attempt g.demand [] options .replicaMovement j candidates) p p'
      (fun x x' q q' ↦ x' = x ∧ k.Level g.name options q q') (k.Level g.name options) := by
  obtain ⟨r, r', hr, hr', hsite⟩ := h.paired.alike i j hij
  unfold attempt
  rw [if_pos (.inl rfl), if_pos (.inl rfl)]
  refine .bind (Planning.lockstep_cluster ?_)
  rw [hr, hr']
  have heligible : eligible options .replicaMovement r' candidates =
      eligible options .replicaMovement r candidates := by
    rw [eligible, eligible, Replica.broker_of_site hsite]
  dsimp only
  rw [heligible]
  exact lockstep_first h hij hr hr' _

/-! ## Draining -/

section

variable (halike : g.Alike g')

include halike

theorem Alike.ceiling_eq (hb : b.Matches b') : g'.ceiling b' = g.ceiling b := by
  rw [ceiling, ceiling, hb.isAlive, halike.limits]

theorem Alike.bottom_eq (hb : b.Matches b') : g'.bottom b' = g.bottom b := by
  rw [bottom, bottom, hb.isAlive, halike.limits]

theorem Alike.mayReceive_eq (hb : b.Matches b') : g'.mayReceive b' = g.mayReceive b := by
  rw [mayReceive, mayReceive, halike.evacuating, hb.count, halike.limits]

theorem ofReceivers_eq (h : k.Level g.name options p p') :
    BrokerSet.ofBrokers (g'.receivers p'.cluster) = .ofBrokers (g.receivers p.cluster) := by
  have hreceivers : List.Forall₂ Broker.Matches (g.receivers p.cluster)
      (g'.receivers p'.cluster) :=
    forall₂_filter (fun b b' hb ↦ halike.mayReceive_eq hb)
      (h.paired.aliveBrokers h.first.toStable h.second.toStable)
  refine foldl_eq_of_forall₂ (fun s b b' hb ↦ ?_) hreceivers _
  rw [BrokerSet.add, BrokerSet.add, hb.id, hb.fullness]

theorem reposition_eq (h : k.Level g.name options p p') (d : BrokerId) (s : BrokerSet) :
    g'.reposition p'.cluster d s = g.reposition p.cluster d s := by
  have hrel := h.paired.broker?_rel h.first.toStable h.second.toStable d
  unfold reposition
  generalize p.cluster.broker? d = x, p'.cluster.broker? d = x' at hrel ⊢
  cases hrel with
  | none => rfl
  | @some b b' hb =>
    rw [Option.filter_some, Option.filter_some, halike.mayReceive_eq hb]
    by_cases hmay : g.mayReceive b = true
    · rw [if_pos hmay, if_pos hmay]
      change (s.discard d).add b' = (s.discard d).add b
      rw [BrokerSet.add, BrokerSet.add, hb.id, hb.fullness]
    · rw [if_neg hmay, if_neg hmay]

theorem lockstep_drainFrom (h : k.Level g.name options p p') (id : BrokerId) (enough : Int)
    (s : BrokerSet) {is js : List ReplicaId} (hpairs : List.Forall₂ k.pair is js) :
    Lockstep (g.drainFrom [] options id enough is s) (g'.drainFrom [] options id enough js s) p p'
      (fun x x' q q' ↦ x' = x ∧ k.Level g.name options q q') (k.Level g.name options) := by
  induction hpairs generalizing p p' s with
  | nil =>
    refine .bind (Planning.lockstep_cluster (.pure ⟨?_, h⟩))
    rw [h.count_eq]
  | cons hij _ ih =>
    unfold drainFrom
    refine .bind (Planning.lockstep_cluster (.ite (by rw [h.mustStay_eq hij]) (fun _ ↦ ih h s)
      fun _ ↦ .bind ?_))
    rw [halike.demand_eq]
    refine (lockstep_attempt h hij _).mono ?_ fun _ _ hf ↦ hf
    rintro _ destination q q' ⟨rfl, hq⟩
    cases destination with
    | none => exact ih hq s
    | some d =>
      refine .bind (Planning.lockstep_cluster (.ite (by rw [hq.count_eq])
        (fun _ ↦ .pure ⟨rfl, hq⟩) fun _ ↦ ?_))
      rw [reposition_eq halike hq]
      exact ih hq _

theorem lockstep_drain (h : k.Level g.name options p p') (id : BrokerId) :
    Lockstep (g.drain [] options id) (g'.drain [] options id) p p'
      (fun x x' q q' ↦ x' = x ∧ k.Level g.name options q q') (k.Level g.name options) := by
  unfold drain
  refine .bind (Planning.lockstep_cluster (.bind (.except (h.agree_broker id) ?_ h)))
  intro b b' hb hb' hmatches
  rw [Cluster.broker_eq_ok_iff] at hb hb'
  rw [halike.name, halike.ceiling_eq hmatches, ofReceivers_eq halike h]
  refine .bind (.except (h.agree_view hb hb') (fun v v' _ _ hpairs ↦ ?_) h)
  exact lockstep_drainFrom halike h id _ _ hpairs

/-! ## Filling -/

theorem givers_eq (h : k.Level g.name options p p') :
    g'.givers p'.cluster = g.givers p.cluster := by
  have hgivers : List.Forall₂ Broker.Matches
      (p.cluster.aliveBrokers.filter fun b ↦ g.limits.lower < b.count)
      (p'.cluster.aliveBrokers.filter fun b ↦ g'.limits.lower < b.count) := by
    refine forall₂_filter (fun b b' hb ↦ ?_)
      (h.paired.aliveBrokers h.first.toStable h.second.toStable)
    rw [halike.limits, hb.count]
  refine foldl_eq_of_forall₂ (fun queue b b' hb ↦ ?_) hgivers _
  rw [hb.fullness]

theorem agree_offers (h : k.Level g.name options p p') (id : BrokerId) :
    Agree (List.Forall₂ k.pair) (g.offers p.cluster id) (g'.offers p'.cluster id) := by
  have himmigrant : ∀ i j, k.pair i j → (p'.cluster.replica? j).any Replica.isImmigrant =
      (p.cluster.replica? i).any Replica.isImmigrant := by
    intro i j hij
    obtain ⟨r, r', hr, hr', hsite⟩ := h.paired.alike i j hij
    rw [hr, hr', Option.any_some, Option.any_some, Replica.isImmigrant_of_site hsite]
  unfold offers
  refine .bind (h.agree_broker id) fun b b' hb hb' hmatches ↦ ?_
  rw [Cluster.broker_eq_ok_iff] at hb hb'
  rw [halike.name, Cluster.hasDead_congr h.paired.states_eq, hmatches.isAlive]
  refine .bind (h.agree_view hb hb') fun v v' _ _ hpairs ↦ ?_
  split
  · exact forall₂_filter himmigrant hpairs
  · exact hpairs

theorem lockstep_drawFrom (h : k.Level g.name options p p') (id giver : BrokerId)
    (queue : List Fullness) (wanted : Nat) {is js : List ReplicaId}
    (hpairs : List.Forall₂ k.pair is js) :
    Lockstep (g.drawFrom [] options id giver queue wanted is)
      (g'.drawFrom [] options id giver queue wanted js) p p'
      (fun x x' q q' ↦ x' = x ∧ k.Level g.name options q q') (k.Level g.name options) := by
  induction hpairs generalizing p p' wanted with
  | nil => exact .pure ⟨rfl, h⟩
  | cons hij _ ih =>
    unfold drawFrom
    refine .bind (Planning.lockstep_cluster (.ite (by rw [h.mustStay_eq hij]) (fun _ ↦ ih h wanted)
      fun _ ↦ .bind ?_))
    rw [halike.demand_eq]
    refine (lockstep_attempt h hij _).mono ?_ fun _ _ hf ↦ hf
    rintro _ destination q q' ⟨rfl, hq⟩
    cases destination with
    | none => exact ih hq wanted
    | some d =>
      dsimp only
      by_cases hlast : wanted ≤ 1
      · rw [dif_pos hlast, dif_pos hlast]
        exact .pure ⟨rfl, hq⟩
      · rw [dif_neg hlast, dif_neg hlast]
        refine .bind (Planning.lockstep_cluster (.ite (by rw [hq.count_eq])
          (fun _ ↦ .pure ⟨rfl, hq⟩) fun _ ↦ .bind ?_))
        refine (ih hq (wanted - 1)).mono ?_ fun _ _ hf ↦ hf
        rintro _ draw q₁ q₁' ⟨rfl, hq₁⟩
        exact .pure ⟨rfl, hq₁⟩

theorem lockstep_fillFrom (h : k.Level g.name options p p') (id : BrokerId) (wanted : Nat)
    (queue : List Fullness) :
    Lockstep (g.fillFrom [] options id wanted queue) (g'.fillFrom [] options id wanted queue) p p'
      (fun x x' q q' ↦ x' = x ∧ k.Level g.name options q q') (k.Level g.name options) := by
  induction wanted, queue using fillFrom.induct generalizing p p' with
  | case1 wanted =>
    rw [fillFrom, fillFrom]
    exact .pure ⟨rfl, h⟩
  | case2 wanted giver queue ih₁ ih₂ =>
    rw [fillFrom, fillFrom]
    refine .bind (Planning.lockstep_cluster (.bind (.except (agree_offers halike h _) ?_ h)))
    intro is js _ _ hpairs
    refine .bind ((lockstep_drawFrom halike h id giver.broker queue wanted hpairs).mono ?_
      fun _ _ hf ↦ hf)
    rintro _ draw q q' ⟨rfl, hq⟩
    cases draw with
    | filled => exact .pure ⟨rfl, hq⟩
    | overtaken left hlt =>
      refine .bind (Planning.lockstep_cluster ?_)
      rw [hq.count_eq]
      exact ih₁ left hlt q.cluster hq
    | exhausted left hle => exact ih₂ left hle hq

theorem lockstep_fill (h : k.Level g.name options p p') (id : BrokerId) :
    Lockstep (g.fill [] options id) (g'.fill [] options id) p p'
      (fun x x' q q' ↦ x' = x ∧ k.Level g.name options q q') (k.Level g.name options) := by
  unfold fill
  refine .bind (Planning.lockstep_cluster (.bind (.except (h.agree_broker id) ?_ h)))
  intro b b' _ _ hmatches
  rw [halike.bottom_eq hmatches, hmatches.count, givers_eq halike h]
  exact lockstep_fillFrom halike h id _ _

end

end DistributionGoal

end Rebalance
