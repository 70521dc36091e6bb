import Rebalance.Proofs.Distribution.Faultless

/-!
# Views that are kept up to date

A view judges a replica when it comes in, and follows what comes and goes. As long as neither its
choice nor its order depends on who leads, nothing else that happens to a replica matters to it. So
at any time it shows what a view would that were built from what is on the broker then.
-/

namespace Rebalance

/-! ## Criteria without leaders -/

/-- Neither the choice nor the order of replicas depends on who leads. -/
structure Criteria.Leaderless (criteria : Criteria) : Prop where
  choose : criteria.choose ≠ some .leader
  priorities : .leader ∉ criteria.priorities

namespace Criteria.Leaderless

variable {criteria : Criteria}

theorem has_eq {x : Trait} (hx : x ≠ .leader) (r : Replica) (leads : Bool) :
    Replica.has { r with leads } x = r.has x := by
  cases x with
  | immigrant => rfl
  | leader => exact absurd rfl hx

theorem admits_eq (h : criteria.Leaderless) (r : Replica) (leads : Bool) :
    criteria.admits { r with leads } = criteria.admits r := by
  have hchoose := h.choose
  unfold Criteria.admits
  cases hx : criteria.choose with
  | none => rfl
  | some x =>
    rw [hx] at hchoose
    exact has_eq (fun heq ↦ hchoose (congrArg some heq)) r leads

theorem rank_eq (h : criteria.Leaderless) (r : Replica) (leads : Bool) :
    criteria.rank { r with leads } = criteria.rank r := by
  have hpriorities :
      criteria.priorities.map (fun x ↦ if Replica.has { r with leads } x then 0 else 1) =
        criteria.priorities.map fun x ↦ if r.has x then 0 else 1 := by
    refine List.map_congr_left fun x hx ↦ ?_
    rw [has_eq (fun heq ↦ h.priorities (heq ▸ hx))]
  unfold Criteria.rank
  rw [hpriorities]

end Criteria.Leaderless

namespace Cluster

variable {measured : Resource → Prop} {c c' : Cluster} {id : BrokerId} {i j : ReplicaId}
  {r r' : Replica} {name : String} {criteria : Criteria}

/-! ## Changes that views follow -/

section

variable {v : View}

theorem Placeable.shows_home (h : c.Sound) (hp : c.Placeable r) (hshows : v.Shows (c.On r.home))
    (hr : v.criteria.admits r = true → (v.criteria.rank r).score ≠ .nan) :
    (v.insert c.replicas.length r).Shows ((c.placed r).On r.home) := by
  refine (hshows.insert _ hr ?_).congr fun j r' ↦ ?_
  · intro j r' hon
    obtain ⟨b', hb', hvacant⟩ := hp.vacant
    exact h.partition_ne_of_vacant hb' hvacant hon
  · rw [on_placed_iff h hp, or_comm]
    exact or_congr_left (and_iff_right rfl).symm

theorem Placeable.shows_other (h : c.Sound) (hp : c.Placeable r) (hid : id ≠ r.home)
    (hshows : v.Shows (c.On id)) : v.Shows ((c.placed r).On id) := by
  refine hshows.congr fun j r' ↦ ?_
  rw [on_placed_iff h hp]
  exact (or_iff_right fun heq ↦ hid heq.1).symm

end

/-- A replica that is placed comes into the views of the broker where it is placed. -/
theorem Faithful.placed (hf : c.Faithful name criteria) (h : c.Sound) (hp : c.Placeable r)
    (hr : (criteria.rank r).score ≠ .nan) : (c.placed r).Faithful name criteria where
  numeric r' hr' := by
    rcases List.mem_append.1 hr' with hr' | hr'
    · exact hf.numeric r' hr'
    · rw [List.mem_singleton.1 hr']
      exact hr
  shows := by
    rw [brokers_placed, List.forall_mem_map]
    intro b hb
    obtain ⟨v, hv, rfl, hshows⟩ := hf.shows b hb
    rw [id_onPlace]
    by_cases hid : b.id = r.home
    · refine ⟨v.insert c.replicas.length r, ?_, View.criteria_insert v _ _, ?_⟩
      · rw [onPlace, if_pos hid, Broker.views_host, hv, Option.map_some]
      · rw [hid] at hshows ⊢
        exact hp.shows_home h hshows fun _ ↦ hr
    · refine ⟨v, ?_, rfl, hp.shows_other h hid hshows⟩
      rwa [onPlace, if_neg hid]

/-- The state of a broker does not matter to views. -/
theorem Faithful.setState (hf : c.Faithful name criteria) (id : BrokerId) (state : BrokerState) :
    (c.update id fun b ↦ { b with state }).Faithful name criteria where
  numeric := hf.numeric
  shows := by
    change ∀ b' ∈ c.brokers.map _, _
    rw [List.forall_mem_map]
    intro b hb
    obtain ⟨v, hv, hcriteria, hshows⟩ := hf.shows b hb
    have hsame : (if b.id = id then { b with state } else b).id = b.id ∧
        (if b.id = id then { b with state } else b).views = b.views := by
      split <;> exact ⟨rfl, rfl⟩
    rw [hsame.1, hsame.2]
    refine ⟨v, hv, hcriteria, hshows.congr fun j r' ↦ ?_⟩
    exact (on_update_iff (f := fun b ↦ { b with state }) (fun _ ↦ rfl) fun _ _ ↦ rfl).symm

/-- Who leads does not matter to where replicas are. -/
theorem on_setLeads_iff {leads : Bool} : (c.setLeads i leads).On id j r' ↔
    ∃ r, c.On id j r ∧ (if i = j then { r with leads } else r) = r' := by
  have hreplica := c.replica?_setLeads i j leads
  constructor
  · rintro ⟨b, hb, hid, hmem, hr'⟩
    rw [hreplica, Option.map_eq_some_iff] at hr'
    obtain ⟨r, hr, rfl⟩ := hr'
    refine ⟨r, ⟨b, hb, hid, ?_, hr⟩, rfl⟩
    split at hmem <;> exact hmem
  · rintro ⟨r, ⟨b, hb, hid, hmem, hr⟩, rfl⟩
    refine ⟨b, hb, hid, ?_, ?_⟩
    · split <;> exact hmem
    · rw [hreplica, hr, Option.map_some]

/-- Views without leaders do not change with who leads. -/
theorem shows_setLeads {v : View} (hleaderless : v.criteria.Leaderless) (hshows : v.Shows (c.On id))
    (i : ReplicaId) (leads : Bool) : v.Shows ((c.setLeads i leads).On id) := by
  refine ⟨hshows.toInOrder, fun key j ↦ ?_⟩
  rw [hshows.mem_entries]
  constructor
  · rintro ⟨r, hon, hadmits, hrank⟩
    refine ⟨_, on_setLeads_iff.2 ⟨r, hon, rfl⟩, ?_, ?_⟩
    · split
      · rwa [hleaderless.admits_eq]
      · exact hadmits
    · split
      · rwa [hleaderless.rank_eq]
      · exact hrank
  · rintro ⟨_, hon, hadmits, hrank⟩
    obtain ⟨r, hr, rfl⟩ := on_setLeads_iff.1 hon
    refine ⟨r, hr, ?_, ?_⟩
    · split at hadmits
      · rwa [hleaderless.admits_eq] at hadmits
      · exact hadmits
    · split at hrank
      · rwa [hleaderless.rank_eq] at hrank
      · exact hrank

theorem Faithful.setLeads (hf : c.Faithful name criteria) (hleaderless : criteria.Leaderless)
    (i : ReplicaId) (leads : Bool) : (c.setLeads i leads).Faithful name criteria where
  numeric r' hr' := by
    obtain ⟨j, hj⟩ := List.mem_iff_getElem?.1 hr'
    change (c.setLeads i leads).replica? j = _ at hj
    rw [replica?_setLeads] at hj
    obtain ⟨r, hr, rfl⟩ := Option.map_eq_some_iff.1 hj
    have hscore := hf.numeric r (List.mem_of_getElem? hr)
    split
    · rwa [hleaderless.rank_eq]
    · exact hscore
  shows b hb := by
    obtain ⟨v, hv, rfl, hshows⟩ := hf.shows b hb
    exact ⟨v, hv, rfl, shows_setLeads hleaderless hshows i leads⟩

end Cluster

/-! ## Operations -/

/-- An operation on replicas or on the state of a broker; which brokers and views there are does not
change. -/
def Operation.IsUpdate : Operation → Prop
  | place _ _ _ _ | setState _ _ | relocate _ _ _ | passLeadership _ _ _ => True
  | _ => False

namespace Cluster

variable {measured : Resource → Prop} {c : Cluster} {name : String} {criteria : Criteria}

/-- Updates, whether they succeed or fail, keep the views of a name faithful. -/
theorem Intact.apply (h : c.Intact measured name criteria) (hleaderless : criteria.Leaderless)
    (hscore : ∀ x ∈ criteria.score, measured x) {o : Operation} (ho : o.IsMeasured measured)
    (hupdate : o.IsUpdate) : (o.apply c).Intact measured name criteria := by
  refine ⟨o.stable_apply h.toStable ho, ?_⟩
  cases o with
  | place tp id leads load =>
    refine Ends.stateAfter ((ends_place c tp id leads load).mono ?_ ?_)
    · rintro - c' ⟨r, -, -, -, rfl, hp, rfl⟩
      exact h.faithful.placed h.toSound hp
        (Criteria.score_rank_ne_nan fun x hx ↦ ho x (hscore x hx))
    · rintro - c' rfl
      exact h.faithful
  | setState id state =>
    refine Ends.stateAfter ((ends_setState c id state).mono ?_ ?_)
    · rintro - c' rfl
      exact h.faithful.setState id state
    · rintro - c' rfl
      exact h.faithful
  | relocate tp s d =>
    refine Ends.stateAfter ((ends_relocate h.toSound tp s d).mono ?_ ?_)
    · rintro - c' ⟨i, r, -, -, hm, rfl⟩
      exact h.faithful.moved h.toSound hm
    · intro f c' hf
      rw [h.toStable.eq_of_refused hf]
      exact h.faithful
  | passLeadership tp s d =>
    refine Ends.stateAfter ((ends_passLeadership c tp s d).mono ?_ ?_)
    · rintro - c' (⟨-, rfl⟩ | ⟨-, i, r, j, -, -, -, -, rfl⟩)
      · exact h.faithful
      · exact (h.faithful.setLeads hleaderless i false).setLeads hleaderless j true
    · rintro - c' rfl
      exact h.faithful
  | addBroker => exact hupdate.elim
  | track => exact hupdate.elim
  | untrack => exact hupdate.elim
  | pursue => exact hupdate.elim

/-- Any number of updates keep the views of a name faithful. -/
theorem Intact.foldl (h : c.Intact measured name criteria) (hleaderless : criteria.Leaderless)
    (hscore : ∀ x ∈ criteria.score, measured x) {operations : List Operation}
    (hoperations : ∀ o ∈ operations, o.IsMeasured measured ∧ o.IsUpdate) :
    (operations.foldl Operation.apply c).Intact measured name criteria := by
  induction operations generalizing c with
  | nil => exact h
  | cons o rest ih =>
    rw [List.forall_mem_cons] at hoperations
    obtain ⟨⟨ho, hupdate⟩, hrest⟩ := hoperations
    exact ih (h.apply hleaderless hscore ho hupdate) hrest

/-! ## Views built anew -/

/-- A broker has a view of a name, and it is as if it were built from what is on the broker: each
replica that is admitted is shown once, in strict order. -/
structure Current (name : String) (criteria : Criteria) (c : Cluster) (b : Broker) (v : View) :
    Prop where
  view : b.view name = .ok v
  rebuilt : v.replicas = (View.build criteria (c.replicasOn b)).replicas
  nodup : v.replicas.Nodup
  mem : ∀ i, i ∈ v.replicas ↔ ∃ r, (i, r) ∈ c.replicasOn b ∧ criteria.admits r = true
  ascending : v.replicas.Pairwise fun i j ↦ ∀ r r', c.replica? i = some r → c.replica? j = some r' →
    criteria.rank r < criteria.rank r'

theorem Faithful.exists_current (hf : c.Faithful name criteria) (h : c.Sound) {b : Broker}
    (hb : b ∈ c.brokers) : ∃ v, Current name criteria c b v := by
  obtain ⟨v, hv, rfl, hshows⟩ := hf.shows b hb
  have hfun : ∀ i r r', c.On b.id i r → c.On b.id i r' → r = r' := fun _ _ _ hon hon' ↦
    hon.eq_of_replica? hon'.replica?_eq
  have hmem : ∀ i, i ∈ v.replicas ↔ ∃ r, (i, r) ∈ c.replicasOn b ∧ v.criteria.admits r = true :=
    fun i ↦ by simp only [hshows.mem_replicas, h.mem_replicasOn hb]
  refine ⟨v, ?_, ?_, hshows.nodup_replicas hfun, hmem, ?_⟩
  · rw [Broker.view, hv]
  · have hscores : v.criteria.Scores (c.On b.id) := fun i r hon _ ↦
      hf.numeric r (List.mem_of_getElem? hon.replica?_eq)
    exact hshows.replicas_eq (h.shows_build hb hscores) (View.criteria_build ..).symm
  · refine (hshows.pairwise_replicas hfun).imp_of_mem fun {i j} hi hj hlt r r' hr hr' ↦ ?_
    obtain ⟨r₁, hon, -⟩ := hshows.mem_replicas.1 hi
    obtain ⟨r₂, hon', -⟩ := hshows.mem_replicas.1 hj
    obtain rfl := hon.eq_of_replica? hr
    obtain rfl := hon'.eq_of_replica? hr'
    exact hlt _ _ hon hon'

end Cluster

/-- After any history in which views order by numbers, when a view was tracked whose criteria do not
depend on who leads and after that only updates were made, on every broker the view is as if it were
built anew. -/
theorem views_current {measured : Resource → Prop} (operations updates : List Operation)
    {name : String} {criteria : Criteria} (hleaderless : criteria.Leaderless)
    (hscore : ∀ x ∈ criteria.score, measured x)
    (hoperations : ∀ o ∈ operations, o.IsMeasured measured)
    (hupdates : ∀ o ∈ updates, o.IsMeasured measured ∧ o.IsUpdate) :
    ∀ b ∈ (Cluster.after (operations ++ .track name criteria :: updates)).brokers, ∃ v,
      Cluster.Current name criteria
        (Cluster.after (operations ++ .track name criteria :: updates)) b v := by
  have hstable := Cluster.stable_after hoperations
  have htracked : ((Cluster.after operations).track name criteria).Intact measured name criteria :=
    hstable.intact_track hscore
  have hintact := htracked.foldl hleaderless hscore hupdates
  rw [Cluster.after_track]
  intro b hb
  exact hintact.faithful.exists_current hintact.toSound hb

/-- Updates of two brokers with three replicas. One replica leaves and does not leave again, a
leadership is passed, a replica is placed and a broker dies. -/
def Operation.updates : List Operation :=
  [.relocate ⟨"a", 0⟩ 0 1, .relocate ⟨"a", 0⟩ 0 1, .passLeadership ⟨"b", 0⟩ 1 0,
    .place ⟨"d", 0⟩ 1 true {}, .setState 0 .dead]

/-- The cluster with these brokers, on which a view is tracked and then updated. -/
def Operation.updated : List Operation :=
  [.addBroker 0 none .alive, .addBroker 1 none .alive, .place ⟨"a", 0⟩ 0 true {},
    .place ⟨"b", 0⟩ 1 true {}, .place ⟨"b", 0⟩ 0 false {}] ++
    .track "v" (DistributionGoal.criteria {}) :: Operation.updates

/-- The immigrant comes first among the replicas of the second broker. -/
theorem views_current_updates :
    ((Cluster.after Operation.updated).brokers.map fun b ↦ b.views.map fun e ↦ e.2.partitions) =
        [[[⟨"b", 0⟩]], [[⟨"a", 0⟩, ⟨"b", 0⟩, ⟨"d", 0⟩]]] ∧
      ∀ b ∈ (Cluster.after Operation.updated).brokers, ∃ v,
        Cluster.Current "v" (DistributionGoal.criteria {}) (Cluster.after Operation.updated) b
          v := by
  refine ⟨by decide +kernel, views_current _ _ ⟨nofun, by decide⟩ (fun _ _ ↦ trivial)
    (?_ : ∀ o ∈ _, Operation.IsMeasured (fun _ ↦ True) o) ?_⟩
  · simp [Operation.IsMeasured, Load.isNumeric_default]
  · simp [Operation.updates, Operation.IsMeasured, Operation.IsUpdate, Load.isNumeric_default]

end Rebalance
