import Rebalance.Proofs.Cluster.Spread
import Rebalance.Proofs.Distribution.Tending
import Rebalance.Proofs.History

/-!
# What cannot go wrong

In a stable cluster in which the views of the goal are faithful, every broker, view and replica that
is looked up while brokers are tended is there, and every move that is decided on is carried out. So
without guards tending never fails.
-/

namespace Rebalance

namespace Cluster

variable {measured : Resource → Prop} {name : String} {criteria : Criteria} {c : Cluster}
  {i : ReplicaId} {r : Replica} {d : BrokerId}

/-- A stable cluster in which the views of a name are faithful. -/
structure Intact (measured : Resource → Prop) (name : String) (criteria : Criteria) (c : Cluster) :
    Prop extends c.Stable measured where
  faithful : c.Faithful name criteria

protected theorem Intact.moved (h : c.Intact measured name criteria) (hm : c.Movable i r d) :
    (c.moved i r d).Intact measured name criteria :=
  ⟨h.toStable.moved hm, h.faithful.moved h.toSound hm⟩

/-- Views that were just built are faithful in a stable cluster if they order by what is measured.
-/
protected theorem Stable.intact_track (h : c.Stable measured)
    (hscore : ∀ x ∈ criteria.score, measured x) :
    (c.track name criteria).Intact measured name criteria := by
  refine ⟨h.track name hscore, h.toSound.faithful_track name fun r hr ↦ ?_⟩
  exact Criteria.score_rank_ne_nan fun x hx ↦ h.numeric r hr x (hscore x hx)

end Cluster

namespace DistributionGoal

open Relation (ReflTransGen)

variable {measured : Resource → Prop} {g g' : DistributionGoal} {guards : List Guard}
  {options : Options} {t t' : Stage} {candidates : List BrokerId} {i : ReplicaId} {r : Replica}
  {d id giver : BrokerId} {s : BrokerSet} {enough : Int} {wanted : Nat} {replicas : List ReplicaId}
  {queue : List Fullness} {b b' : Broker} {f : Fault}
  {states : List (BrokerId × BrokerState)}

/-! ## Moves -/

/-- Candidates that are there can be judged. So offering them a replica that is on a broker fails
only if a relocation is refused where there is room. -/
theorem Fails.refused (h : t.cluster.Sound) (hon : t.cluster.On id i r)
    (hcandidates : ∀ d ∈ candidates, ∃ b, t.cluster.broker? d = some b)
    (hfails : g.Fails [] options t candidates i f t') :
    t.cluster.mustStay options.excludedTopics r = false ∧
      ∃ d ∈ candidates, Admissible g.demand [] options t.cluster r d ∧
        Cluster.Refused t.cluster r.partition r.broker d f t'.cluster := by
  obtain ⟨r', hr', hfree, hbreaks⟩ := hfails.breaks
  obtain rfl := hon.eq_of_replica? hr'
  obtain rfl := h.broker_of_on hon
  obtain ⟨b, hs⟩ := h.exists_broker?_of_on hon
  refine ⟨hfree, ?_⟩
  cases hbreaks with
  | judging hd hf =>
    obtain ⟨b', hb'⟩ := hcandidates _ (Attempt.mem_eligible.1 hd).1
    cases hf with
    | unknown hnone =>
      rw [hb'] at hnone
      cases hnone
    | demand hf => exact absurd hf (demand_move_ne_error hs hb' f)
    | guard hγ => cases hγ
  | moving hd hadmits _ hf =>
    obtain ⟨hmem, hne, hallowed⟩ := Attempt.mem_eligible.1 hd
    exact ⟨_, hmem, ⟨hadmits, hne, hallowed⟩, hf⟩

/-- In a stable cluster whatever is admitted gets the replica. -/
theorem not_fails (h : t.cluster.Stable measured)
    (hcandidates : ∀ d ∈ candidates, ∃ b, t.cluster.broker? d = some b) :
    ¬ g.Fails [] options t candidates i f t' := by
  intro hfails
  obtain ⟨r, hr, -⟩ := hfails.breaks
  have hon := h.complete i r hr
  obtain ⟨-, d, -, hadm, hf⟩ := hfails.refused h.toSound hon hcandidates
  obtain ⟨b, hb, -, hvacant⟩ := hadm.legal
  exact h.not_refused ⟨i, r, hon, rfl⟩ hb hvacant hf

/-- Moves keep a cluster intact, and whether copies can be spread. -/
theorem Law.intact (g : DistributionGoal) (guards : List Guard) (options : Options)
    (states : List (BrokerId × BrokerState)) (measured : Resource → Prop) (name : String)
    (spread : Prop) :
    g.Law guards options (Course states fun c ↦ c.Intact measured name (criteria options) ∧
      (c.Spreadable ↔ spread)) fun _ _ ↦ True := by
  refine Course.of_moves fun {t t' candidates i r d} _ _ h hmoves ↦ ?_
  have hstates := hmoves.relocated.states_eq
  obtain ⟨j, r', -, -, hm, hcluster⟩ := hmoves.relocated.cluster
  have horigins : t'.cluster.origins = t.cluster.origins := by
    rw [hcluster, Cluster.origins_moved hm.on.replica?_eq]
  refine ⟨?_, (Cluster.spreadable_congr horigins hstates).trans h.2⟩
  rw [hcluster]
  exact h.1.moved hm

/-! ## Draining -/

theorem Drained.exists_ok {x : Except Fault Bool}
    (h : g.Drained [] options id enough replicas s t x t') (ht : t.cluster.Stable measured)
    (hd : g.Emptying options id enough replicas s t) : ∃ many, x = .ok many := by
  induction h with
  | spent => exact ⟨_, rfl⟩
  | skipped _ _ ih => exact ih ht hd.tail
  | moved hmoves hmore _ ih =>
    have ht' := (Law.stable g [] options measured).moves ht hmoves
    exact ih ht' (hd.next hmoves hmore)
  | sufficed => exact ⟨_, rfl⟩
  | failed hf =>
    refine absurd hf (not_fails ht fun d hmem ↦ ?_)
    obtain ⟨⟨b, hb, -⟩, -⟩ := (hd.covers.mem_brokers d).1 hmem
    exact ⟨b, hb⟩

theorem Lowered.exists_ok {x : Except Fault Bool}
    (ht : t.cluster.Intact measured g.name (criteria options))
    (hb : t.cluster.broker? b.id = some b) (h : g.Lowered [] options b t x t') :
    ∃ many, x = .ok many := by
  cases h with
  | untouched => exact ⟨_, rfl⟩
  | untracked _ hunknown => exact absurd hunknown (ht.faithful.view_ne_error hb)
  | drained hmany hview hdrained =>
    exact hdrained.exists_ok ht.toStable
      (emptying_of_tooMany ht.toSound ht.faithful hb hmany hview).1

/-! ## Filling -/

theorem Drawn.exists_ok {x : Except Fault Ending}
    (h : g.Drawn [] options id giver queue wanted replicas t x t')
    (ht : t.cluster.Stable measured) (hid : ∃ b, t.cluster.broker? id = some b) :
    ∃ e, x = .ok e := by
  induction h with
  | spent => exact ⟨_, rfl⟩
  | skipped _ _ ih => exact ih ht hid
  | filled => exact ⟨_, rfl⟩
  | overtaken => exact ⟨_, rfl⟩
  | moved hmoves _ _ _ ih =>
    obtain ⟨b, hb⟩ := hid
    have ht' := (Law.stable g [] options measured).moves ht hmoves
    exact ih ht' (Cluster.exists_broker?_of_states hmoves.relocated.states_eq hb)
  | failed hf =>
    refine absurd hf (not_fails ht fun d hd ↦ ?_)
    rwa [List.mem_singleton.1 hd]

theorem Filled.exists_ok {x : Except Fault Bool}
    (h : g.Filled [] options id wanted queue t x t') (ht : t.cluster.Stable measured)
    (hid : ∃ b, t.cluster.broker? id = some b) (hf : g.Filling options id wanted queue t) :
    ∃ few, x = .ok few := by
  have hdrawn : ∀ {giver queue wanted replicas ending} {t t' : Stage},
      g.Drawn [] options id giver queue wanted replicas t (.ok ending) t' →
      t.cluster.Stable measured → (∃ b, t.cluster.broker? id = some b) →
      t'.cluster.Stable measured ∧ ∃ b, t'.cluster.broker? id = some b := by
    rintro giver queue wanted replicas ending t t' h ht ⟨b, hb⟩
    obtain ⟨hsound, hstates⟩ := (Law.sound g [] options _).drawn h ⟨ht.toSound, rfl⟩
    exact ⟨(Law.stable g [] options measured).drawn h ht,
      Cluster.exists_broker?_of_states hstates hb⟩
  induction h with
  | spent => exact ⟨_, rfl⟩
  | unoffered hunoffered => exact absurd hunoffered hf.offers_ne_error
  | filled => exact ⟨_, rfl⟩
  | overtaken hoffers h _ ih =>
    obtain ⟨ht', hid'⟩ := hdrawn h ht hid
    exact ih ht' hid' (hf.overtaken hoffers h)
  | exhausted hoffers h _ ih =>
    obtain ⟨ht', hid'⟩ := hdrawn h ht hid
    exact ih ht' hid' (hf.exhausted hoffers h)
  | failed _ h =>
    obtain ⟨e, he⟩ := h.exists_ok ht hid
    cases he

theorem Raised.exists_ok {x : Except Fault Bool}
    (ht : t.cluster.Intact measured g.name (criteria options))
    (hfew : ∀ b', t.cluster.broker? b.id = some b' → g.TooFew b → g.TooFew b')
    (h : g.Raised [] options b t x t') : ∃ few, x = .ok few := by
  cases h with
  | untouched => exact ⟨_, rfl⟩
  | filled hfew' hb' hfilled =>
    rename_i b'
    have hid := Cluster.id_of_broker? hb'
    rw [← hid] at hb' hfilled
    have hfilling := filling_of_tooFew ht.toSound ht.faithful hb' (hfew b' (hid ▸ hb') hfew')
    exact hfilled.exists_ok ht.toStable ⟨b', hb'⟩ hfilling

/-! ## Tending -/

/-- Tending a broker that is there does not fail. -/
theorem Tended.eq_ok {x : Except Fault Unit}
    (ht : t.cluster.Intact measured g.name (criteria options))
    (hid : ∃ b, t.cluster.broker? id = some b) (h : Tended [] options id g t x g' t') :
    x = .ok () := by
  cases h with
  | unknown hnone =>
    obtain ⟨b, hb⟩ := hid
    rw [hb] at hnone
    cases hnone
  | undrained hb _ hlowered =>
    obtain rfl := Cluster.id_of_broker? hb
    obtain ⟨many, hmany⟩ := hlowered.exists_ok ht hb
    cases hmany
  | unfilled hb _ hlowered hraised =>
    obtain rfl := Cluster.id_of_broker? hb
    have law := Law.intact g [] options t.cluster.states measured g.name t.cluster.Spreadable
    have ht' := (law.lowered hb hlowered ⟨ht.toSound, rfl, ht, Iff.rfl⟩).holds.1
    obtain ⟨few, hfew⟩ := hraised.exists_ok ht' fun b' hb' hfew ↦
      hlowered.tooFew ht.toSound ht.faithful hb hfew hb'
    cases hfew
  | _ => rfl

/-- A round does not fail before all brokers are tended. -/
theorem TendedAll.eq_ok {ids : List BrokerId} {x : Except Fault Unit}
    (h : TendedAll [] options ids g t x g' t')
    (ht : t.cluster.Intact measured g.name (criteria options))
    (hids : ∀ id ∈ ids, id ∈ t.cluster.states.map Prod.fst) : x = .ok () := by
  induction h with
  | nil => rfl
  | @cons id rest g g₁ g' t t₁ t' x htended _ ih =>
    rw [List.forall_mem_cons] at hids
    obtain ⟨b, hb⟩ := Cluster.exists_broker?_iff.2 hids.1
    have halike := htended.alike
    have law := Law.intact g [] options t.cluster.states measured g.name t.cluster.Spreadable
    have hcourse := law.tended htended hb ⟨ht.toSound, rfl, ht, Iff.rfl⟩
    exact ih (halike.name ▸ hcourse.holds.1) (hcourse.states_eq ▸ hids.2)
  | failed htended =>
    rw [List.forall_mem_cons] at hids
    exact htended.eq_ok ht (Cluster.exists_broker?_iff.2 hids.1)

end DistributionGoal

end Rebalance
