import Rebalance.Proofs.Tracking

/-!
# Views in disorder

A replica whose score is not a number can put a view in disorder, so that it drops another replica
than the one that leaves, or cannot follow a departure at all. But that is confined to brokers where
such replicas have been: on all others the views show just what is there.
-/

namespace Rebalance

namespace Cluster

variable {c c' : Cluster} {id s d : BrokerId} {b : Broker} {i : ReplicaId} {r : Replica}
  {tp : TopicPartition} {name : String} {criteria : Criteria}

/-! ## Views of one broker -/

/-- Every view of a broker shows what is on it. -/
def Shown (c : Cluster) (id : BrokerId) : Prop :=
  ∀ b ∈ c.brokers, b.id = id → ∀ e ∈ b.views, e.2.Shows (c.On id)

/-- What any view of a broker admits of the replicas there has a number for a score. -/
def Scored (c : Cluster) (id : BrokerId) : Prop :=
  ∀ b ∈ c.brokers, b.id = id → ∀ e ∈ b.views, ∀ x ∈ c.replicasOn b,
    e.2.criteria.admits x.2 = true → (e.2.criteria.rank x.2).score ≠ .nan

instance (c : Cluster) (id : BrokerId) : Decidable (c.Scored id) :=
  inferInstanceAs (Decidable (∀ b ∈ c.brokers, b.id = id → ∀ e ∈ b.views, ∀ x ∈ c.replicasOn b,
    e.2.criteria.admits x.2 = true → (e.2.criteria.rank x.2).score ≠ .nan))

/-- When brokers have changed, their views still have numbers to go by. -/
theorem Scored.scores (hscored : c'.Scored id) (h : c'.Sound) {f : Broker → Broker}
    (hc : c'.brokers = c.brokers.map f) (hb : b ∈ c.brokers) (hid : (f b).id = id)
    {e : String × View} (he : e ∈ (f b).views) : e.2.criteria.Scores (c'.On id) := by
  have hmem : f b ∈ c'.brokers := hc ▸ List.mem_map_of_mem hb
  intro i r hon hadmits
  exact hscored (f b) hmem hid e he (i, r) ((h.mem_replicasOn hmem).2 (hid ▸ hon)) hadmits

namespace Shown

/-- Views that were there before go on showing what is on the broker, if that stays the same. -/
theorem frame (hs : c.Shown id) (hon : ∀ i r, c.On id i r ↔ c'.On id i r)
    (hviews : ∀ b' ∈ c'.brokers, b'.id = id → ∀ e ∈ b'.views, ∃ b ∈ c.brokers, b.id = id ∧
      e ∈ b.views) : c'.Shown id := by
  intro b' hb' hid e he
  obtain ⟨b, hb, hid', he'⟩ := hviews b' hb' hid e he
  exact (hs b hb hid' e he').congr hon

/-- Every view of the broker can follow a departure. -/
theorem found (hs : c.Shown id) (hb : b ∈ c.brokers) (hid : b.id = id) (tp : TopicPartition) :
    (b.release tp).2 = true := by
  rw [Broker.found_release]
  exact Broker.found_of_not_hasLost fun e he ↦ (hs b hb hid e he).hasLost_eq_false tp

/-- So no relocation off the broker fails halfway. -/
theorem ends_relocate (hs : c.Shown id) (h : c.Sound) (tp : TopicPartition) (d : BrokerId) :
    Ends (relocate tp id d) c (fun _ _ ↦ True) fun f _ ↦ f ≠ .viewOutOfOrder := by
  refine (Cluster.ends_relocate h tp id d).mono (fun _ _ _ ↦ trivial) fun f c' hf ↦ ?_
  cases hf with
  | lost hb _ _ _ hlost =>
    rw [hs.found (mem_of_broker? hb) (id_of_broker? hb) tp] at hlost
    cases hlost
  | _ => exact nofun

/-! ## Changes -/

theorem track (hs : c.Shown id) (h : c.Sound) (hscored : (c.track name criteria).Scored id) :
    (c.track name criteria).Shown id := by
  rw [Shown, brokers_track, List.forall_mem_map]
  intro b hb hid e he
  have hscores := hscored.scores (h.track name criteria) (brokers_track name criteria c) hb hid he
  obtain rfl : b.id = id := hid
  have hshows : e.2.Shows (c.On b.id) := by
    rcases Roster.mem_of_mem_put he with rfl | he'
    · rw [View.criteria_build] at hscores
      exact h.shows_build hb fun i r hon ↦ hscores i r (on_track_iff.2 hon)
    · exact hs b hb rfl e he'
  exact hshows.congr fun i r ↦ on_track_iff.symm

theorem placed (hs : c.Shown id) (h : c.Sound) (hp : c.Placeable r)
    (hscored : (c.placed r).Scored id) : (c.placed r).Shown id := by
  rw [Shown, brokers_placed, List.forall_mem_map]
  intro b hb hid e he
  have hscores := hscored.scores (h.placed hp) (brokers_placed c r) hb hid he
  rw [id_onPlace] at hid
  by_cases hhome : b.id = r.home
  · rw [onPlace, if_pos hhome] at he
    obtain ⟨e', he', rfl⟩ := List.mem_map.1 he
    obtain rfl := hid.symm.trans hhome
    rw [View.criteria_insert] at hscores
    exact hp.shows_home h (hs b hb hid e' he')
      (hscores _ r ((on_placed_iff h hp).2 (.inl ⟨rfl, rfl, rfl⟩)))
  · rw [onPlace, if_neg hhome] at he
    exact hp.shows_other h (hid ▸ hhome) (hs b hb hid e he)

theorem moved (hs : c.Shown id) (h : c.Sound) (hm : c.Movable i r d)
    (hscored : (c.moved i r d).Scored id) : (c.moved i r d).Shown id := by
  rw [Shown, brokers_moved, List.forall_mem_map]
  intro b hb hid e he
  have hscores := hscored.scores (h.moved hm) (brokers_moved c i r d) hb hid he
  rw [Broker.id_onMove] at hid
  by_cases hsource : b.id = r.broker
  · rw [Broker.onMove_source hsource, Broker.views_release,
      Broker.dropFromViews_of_found (hs.found hb hid r.partition)] at he
    obtain ⟨e', he', rfl⟩ := List.mem_map.1 he
    obtain rfl := hid.symm.trans hsource
    exact hm.shows_source h (hs b hb hid e' he')
  · by_cases hd : b.id = d
    · rw [Broker.onMove_destination hsource hd] at he
      obtain ⟨e', he', rfl⟩ := List.mem_map.1 he
      obtain rfl := hid.symm.trans hd
      rw [View.criteria_insert] at hscores
      exact hm.shows_destination h (hs b hb hid e' he')
        (hscores i _ ((on_moved_iff h hm).2 (.inl ⟨rfl, rfl, rfl⟩)))
    · rw [Broker.onMove_other hsource hd] at he
      exact hm.shows_other h (hid ▸ hsource) (hid ▸ hd) (hs b hb hid e he)

theorem setState (hs : c.Shown id) (s : BrokerId) (state : BrokerState) :
    (c.update s fun b ↦ { b with state }).Shown id := by
  refine hs.frame (fun i r ↦ (on_update_iff (f := fun b ↦ { b with state }) (fun _ ↦ rfl)
    fun _ _ ↦ rfl).symm) ?_
  change ∀ b' ∈ c.brokers.map _, _
  rw [List.forall_mem_map]
  intro b hb hid e he
  refine ⟨b, hb, ?_⟩
  split at hid <;> split at he <;> exact ⟨hid, he⟩

/-- A refused relocation does not matter to the views of a broker, unless they could not follow. -/
theorem of_refused (hs : c.Shown id) {f : Fault} (hf : Refused c tp s d f c') : c'.Shown id := by
  cases hf with
  | lost hb _ _ _ hlost =>
    have hne : id ≠ s := by
      rintro rfl
      rw [hs.found (mem_of_broker? hb) (id_of_broker? hb) tp] at hlost
      cases hlost
    refine hs.frame (fun i r ↦ (on_update_iff (f := fun b ↦ (b.release tp).1) (fun _ ↦ rfl)
      fun h ↦ absurd h hne).symm) ?_
    change ∀ b' ∈ c.brokers.map _, _
    rw [List.forall_mem_map]
    intro b hb hid e he
    have hid' : b.id = id := by split at hid <;> exact hid
    rw [if_neg (hid' ▸ hne)] at he
    exact ⟨b, hb, hid', he⟩
  | _ => exact hs

end Shown

end Cluster

/-! ## What brokers track -/

namespace Broker

variable {b : Broker} {tp : TopicPartition} {d : BrokerId} {i : ReplicaId} {r : Replica}

/-- The names of the views, each with its criteria. -/
def tracked (b : Broker) : Roster String Criteria := b.views.map fun e ↦ (e.1, e.2.criteria)

theorem entry?_tracked (b : Broker) (name : String) :
    b.tracked.entry? name = (b.views.entry? name).map View.criteria :=
  Roster.entry?_map View.criteria b.views name

@[simp] theorem tracked_host (b : Broker) (i : ReplicaId) (r : Replica) :
    (b.host i r).tracked = b.tracked := by
  change List.map _ (List.map _ b.views) = _
  rw [List.map_map]
  exact List.map_congr_left fun e _ ↦ congrArg (Prod.mk e.1) (View.criteria_insert e.2 i r)

/-- A view that cannot follow a departure is still there. -/
@[simp] theorem tracked_release (b : Broker) (tp : TopicPartition) :
    (b.release tp).1.tracked = b.tracked := by
  have key : ∀ views : Roster String View, (dropFromViews tp views).1.map
      (fun e ↦ (e.1, e.2.criteria)) = views.map fun e ↦ (e.1, e.2.criteria) := by
    intro views
    induction views with
    | nil => rfl
    | cons e rest ih =>
      obtain ⟨name, v⟩ := e
      unfold dropFromViews
      split
      · rfl
      · exact congrArg (List.cons _) ih
  exact key b.views

@[simp] theorem tracked_onMove (i : ReplicaId) (r : Replica) (d : BrokerId) (b : Broker) :
    (b.onMove i r d).tracked = b.tracked := by
  unfold onMove
  split
  · exact tracked_release b r.partition
  · split
    · exact tracked_host b i _
    · rfl

end Broker

/-! ## Arrangements -/

/-- An operation that places or moves a replica, or declares the state of a broker. -/
def Operation.IsArrangement : Operation → Prop
  | place _ _ _ _ | setState _ _ | relocate _ _ _ => True
  | _ => False

namespace Cluster

variable {c : Cluster} {id : BrokerId} {o : Operation} {updates : List Operation}

/-- Whatever becomes of an arrangement, the views stay those that are tracked. -/
theorem tracked_apply (h : c.Sound) (ho : o.IsArrangement) :
    (o.apply c).brokers.map Broker.tracked = c.brokers.map Broker.tracked := by
  have hupdate : ∀ {s f}, (∀ b, Broker.tracked (f b) = b.tracked) →
      (c.update s f).brokers.map Broker.tracked = c.brokers.map Broker.tracked := by
    intro s f hf
    refine map_brokers_congr rfl Broker.tracked fun b ↦ ?_
    split
    · exact hf b
    · rfl
  cases o with
  | place tp id leads load =>
    refine Ends.stateAfter (P := fun c' ↦ c'.brokers.map Broker.tracked = _)
      ((ends_place c tp id leads load).mono ?_ ?_)
    · rintro - c' ⟨r, -, -, -, -, -, rfl⟩
      exact hupdate fun b ↦ Broker.tracked_host b _ r
    · rintro - c' rfl
      rfl
  | setState id state =>
    refine Ends.stateAfter (P := fun c' ↦ c'.brokers.map Broker.tracked = _)
      ((ends_setState c id state).mono ?_ ?_)
    · rintro - c' rfl
      exact hupdate fun b ↦ rfl
    · rintro - c' rfl
      rfl
  | relocate tp s d =>
    refine Ends.stateAfter (P := fun c' ↦ c'.brokers.map Broker.tracked = _)
      ((ends_relocate h tp s d).mono ?_ ?_)
    · rintro - c' ⟨i, r, -, -, -, rfl⟩
      exact map_brokers_congr (brokers_moved c i r d) Broker.tracked (Broker.tracked_onMove i r d)
    · intro f c' hf
      cases hf with
      | lost => exact hupdate fun b ↦ Broker.tracked_release b tp
      | _ => rfl
  | _ => exact ho.elim

theorem tracked_foldl (h : c.Sound) (hupdates : ∀ o ∈ updates, o.IsArrangement) :
    (updates.foldl Operation.apply c).brokers.map Broker.tracked =
      c.brokers.map Broker.tracked := by
  induction updates generalizing c with
  | nil => rfl
  | cons o rest ih =>
    rw [List.forall_mem_cons] at hupdates
    exact (ih (o.sound_apply h).1 hupdates.2).trans (tracked_apply h hupdates.1)

/-- An arrangement keeps the views of a broker as they should be, if what is on the broker then has
scores. -/
theorem Shown.apply (hs : c.Shown id) (h : c.Sound) (ho : o.IsArrangement)
    (hscored : (o.apply c).Scored id) : (o.apply c).Shown id := by
  cases o with
  | place tp id' leads load =>
    refine Ends.stateAfter (P := fun c' ↦ c'.Scored id → c'.Shown id)
      ((ends_place c tp id' leads load).mono ?_ ?_) hscored
    · rintro - c' ⟨r, -, -, -, -, hp, rfl⟩
      exact hs.placed h hp
    · rintro - c' rfl _
      exact hs
  | setState id' state =>
    refine Ends.stateAfter (P := (Shown · id)) ((ends_setState c id' state).mono ?_ ?_)
    · rintro - c' rfl
      exact hs.setState id' state
    · rintro - c' rfl
      exact hs
  | relocate tp s d =>
    refine Ends.stateAfter (P := fun c' ↦ c'.Scored id → c'.Shown id)
      ((Cluster.ends_relocate h tp s d).mono ?_ ?_) hscored
    · rintro - c' ⟨i, r, -, -, hm, rfl⟩
      exact hs.moved h hm
    · exact fun f c' hf _ ↦ hs.of_refused hf
  | _ => exact ho.elim

/-- So do any number of arrangements, if what is on the broker has scores all along. -/
theorem Shown.foldl (hs : c.Shown id) (h : c.Sound) (hupdates : ∀ o ∈ updates, o.IsArrangement)
    (hscored : ∀ front, front <+: updates → (front.foldl Operation.apply c).Scored id) :
    (updates.foldl Operation.apply c).Shown id := by
  induction updates generalizing c with
  | nil => exact hs
  | cons o rest ih =>
    rw [List.forall_mem_cons] at hupdates
    have hfirst : (o.apply c).Scored id := hscored [o] (List.prefix_append [o] rest)
    refine ih (hs.apply h hupdates.1 hfirst) (o.sound_apply h).1 hupdates.2 fun front hfront ↦ ?_
    exact hscored (o :: front) (List.cons_prefix_cons.2 ⟨rfl, hfront⟩)

end Cluster

/-! ## Disorder is confined -/

/-- When a view was tracked after any history, and then replicas were placed and moved whatever
their loads, a broker shows in the view each replica once that is admitted and on it, and no
relocation off it fails halfway. That is so if its views were right before, and since then have
admitted no replica there whose score is not a number. -/
theorem views_shown_of_scored (operations updates : List Operation) {name : String}
    {criteria : Criteria} {id : BrokerId} (hbefore : (Cluster.after operations).Shown id)
    (hupdates : ∀ o ∈ updates, o.IsArrangement)
    (hscored : ∀ front, front <+: updates →
      (Cluster.after (operations ++ .track name criteria :: front)).Scored id) {b : Broker}
    (hb : (Cluster.after (operations ++ .track name criteria :: updates)).broker? id = some b) :
    (∃ v, b.view name = .ok v ∧ v.criteria = criteria ∧ v.replicas.Nodup ∧
      ∀ i, i ∈ v.replicas ↔ ∃ r,
        (Cluster.after (operations ++ .track name criteria :: updates)).On id i r ∧
          criteria.admits r = true) ∧
    ∀ tp d, Ends (Cluster.relocate tp id d)
      (Cluster.after (operations ++ .track name criteria :: updates)) (fun _ _ ↦ True)
      fun f _ ↦ f ≠ .viewOutOfOrder := by
  have hsound := Cluster.sound_after operations
  have hsound' := Cluster.sound_after (operations ++ .track name criteria :: updates)
  simp only [Cluster.after_track] at hscored hb hsound' ⊢
  have hshown := (hbefore.track hsound (hscored [] List.nil_prefix)).foldl (hsound.track ..)
    hupdates hscored
  refine ⟨?_, hshown.ends_relocate hsound'⟩
  -- The view is still tracked, by the same criteria.
  have htracked : b.tracked.entry? name = some criteria := by
    have hmem := List.mem_map_of_mem (f := Broker.tracked) (Cluster.mem_of_broker? hb)
    rw [Cluster.tracked_foldl (hsound.track ..) hupdates] at hmem
    obtain ⟨b', hb', heq⟩ := List.mem_map.1 hmem
    obtain ⟨b₀, -, rfl⟩ := List.mem_map.1 hb'
    rw [← heq, Broker.entry?_tracked, Roster.entry?_put_self, Option.map_some, View.criteria_build]
  rw [Broker.entry?_tracked, Option.map_eq_some_iff] at htracked
  obtain ⟨v, hv, rfl⟩ := htracked
  have hshows := hshown b (Cluster.mem_of_broker? hb) (Cluster.id_of_broker? hb) _
    (Roster.mem_of_entry_eq_some hv)
  refine ⟨v, ?_, rfl, ?_, fun i ↦ hshows.mem_replicas⟩
  · rw [Broker.view, hv]
  · exact hshows.nodup_replicas fun _ _ _ hon hon' ↦ hon.eq_of_replica? hon'.replica?_eq

/-- Three brokers, the first of which has four replicas. The disk load of one is not a number. -/
def Operation.unmeasured : List Operation :=
  [.addBroker 0 none .alive, .addBroker 1 none .alive, .addBroker 2 none .alive,
    .place ⟨"t", 0⟩ 0 false { disk := 2 }, .place ⟨"t", 1⟩ 0 false { disk := .nan },
    .place ⟨"t", 2⟩ 0 false { disk := 1 }, .place ⟨"t", 3⟩ 0 false { disk := 2 }]

/-- The replicas leave the first broker one after another. -/
def Operation.departures : List Operation :=
  [.relocate ⟨"t", 0⟩ 0 1, .relocate ⟨"t", 1⟩ 0 2, .relocate ⟨"t", 2⟩ 0 1, .relocate ⟨"t", 3⟩ 0 1]

/-- A view by disk loads shows, on the first broker, the replica that left instead of one that
stayed. The last replica cannot leave at all. -/
theorem views_in_disorder :
    ((Cluster.after (Operation.unmeasured ++ .track "v" { score := some .disk } ::
        Operation.departures.take 1)).brokers.map fun b ↦
          (b.hosted.keys, b.views.map fun e ↦ e.2.partitions)) =
      [([⟨"t", 1⟩, ⟨"t", 2⟩, ⟨"t", 3⟩], [[⟨"t", 2⟩, ⟨"t", 1⟩, ⟨"t", 0⟩]]),
        ([⟨"t", 0⟩], [[⟨"t", 0⟩]]), ([], [[]])] ∧
    Ends (Cluster.relocate ⟨"t", 3⟩ 0 1) (Cluster.after (Operation.unmeasured ++
      .track "v" { score := some .disk } :: Operation.departures.take 3)) (fun _ _ ↦ False)
      fun f _ ↦ f = .viewOutOfOrder := by
  decide +kernel

/-- The second broker is not touched by what goes wrong with the last of them. -/
theorem views_shown_beside_disorder :
    ∃ b, (Cluster.after (Operation.unmeasured ++ .track "v" { score := some .disk } ::
        Operation.departures)).broker? 1 = some b ∧
      (b.views.map fun e ↦ e.2.partitions) = [[⟨"t", 2⟩, ⟨"t", 0⟩]] ∧
      ∃ v, b.view "v" = .ok v ∧ v.replicas.Nodup ∧ ∀ i, i ∈ v.replicas ↔ ∃ r,
        (Cluster.after (Operation.unmeasured ++ .track "v" { score := some .disk } ::
          Operation.departures)).On 1 i r := by
  obtain ⟨b, hb, hviews⟩ : ∃ b, (Cluster.after (Operation.unmeasured ++
      .track "v" { score := some .disk } :: Operation.departures)).broker? 1 = some b ∧
      (b.views.map fun e ↦ e.2.partitions) = [[⟨"t", 2⟩, ⟨"t", 0⟩]] := by
    rw [← Option.map_eq_some_iff]
    decide +kernel
  have hnone : ∀ b ∈ (Cluster.after Operation.unmeasured).brokers, b.views = [] := by
    decide +kernel
  have hbefore : (Cluster.after Operation.unmeasured).Shown 1 := by
    intro b hb _ e he
    rw [hnone b hb] at he
    cases he
  have hscored : ∀ front ∈ Operation.departures.inits, (Cluster.after (Operation.unmeasured ++
      .track "v" { score := some .disk } :: front)).Scored 1 := by
    decide +kernel
  obtain ⟨⟨v, hv, -, hnodup, hmem⟩, -⟩ := views_shown_of_scored Operation.unmeasured
    Operation.departures hbefore (by simp [Operation.departures, Operation.IsArrangement])
    (fun front hfront ↦ hscored front ((List.mem_inits _ _).2 hfront)) hb
  exact ⟨b, hb, hviews, v, hv, hnodup, fun i ↦ (hmem i).trans
    (exists_congr fun r ↦ and_iff_left rfl)⟩

end Rebalance
