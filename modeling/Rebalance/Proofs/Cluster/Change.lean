import Rebalance.Proofs.Cluster.Stable

/-!
# Changes keep clusters sound

For every change, what it makes of a cluster, whether it succeeds or fails. Soundness survives all
of them, and stability those with loads that are numbers and views that order by what is measured.
Only a placement changes which replicas there are.
-/

namespace Rebalance

/-- What is fixed about a replica once it is placed. -/
def Replica.origin (r : Replica) : TopicPartition × BrokerId × Load :=
  (r.partition, r.home, r.load)

namespace Cluster

variable {measured : Resource → Prop} {c c' : Cluster} {id s d : BrokerId} {b b' : Broker}
  {i j : ReplicaId} {r r' : Replica} {tp : TopicPartition}

/-- The replicas ever placed, with what is fixed about them. -/
def origins (c : Cluster) : List (TopicPartition × BrokerId × Load) :=
  c.replicas.map Replica.origin

/-! ## A broker more -/

theorem mem_insertBroker {bs : List Broker} : b' ∈ insertBroker b bs ↔ b' = b ∨ b' ∈ bs := by
  induction bs with
  | nil => simp [insertBroker]
  | cons b₀ rest ih =>
    unfold insertBroker
    split
    · exact List.mem_cons
    · rw [List.mem_cons, ih, List.mem_cons, or_left_comm]

theorem ascending_insertBroker {bs : List Broker} (h : (bs.map Broker.id).Pairwise (· < ·))
    (hnew : ∀ b' ∈ bs, b'.id ≠ b.id) : ((insertBroker b bs).map Broker.id).Pairwise (· < ·) := by
  induction bs with
  | nil => exact List.pairwise_singleton _ _
  | cons b₀ rest ih =>
    rw [List.map_cons, List.pairwise_cons] at h
    rw [List.forall_mem_cons] at hnew
    unfold insertBroker
    split
    · rename_i hlt
      rw [List.map_cons, List.map_cons, List.pairwise_cons, List.forall_mem_cons,
        List.pairwise_cons]
      exact ⟨⟨hlt, fun id hid ↦ lt_trans hlt (h.1 id hid)⟩, h⟩
    · rename_i hge
      rw [List.map_cons, List.pairwise_cons]
      refine ⟨?_, ih h.2 hnew.2⟩
      rw [List.forall_mem_map]
      intro b' hb'
      rcases mem_insertBroker.1 hb' with rfl | hb'
      · exact lt_of_le_of_ne (not_lt.1 hge) hnew.1
      · exact h.1 _ (List.mem_map_of_mem hb')

/-- The cluster with a broker more. -/
def added (c : Cluster) (b : Broker) : Cluster := { c with brokers := insertBroker b c.brokers }

theorem ends_addBroker (c : Cluster) (id : BrokerId) (rack : Option String) (state : BrokerState) :
    Ends (addBroker id rack state) c
      (fun _ c' ↦ c.broker? id = none ∧ c' = c.added { id, rack, state }) fun _ c' ↦ c' = c := by
  unfold addBroker
  refine .bind (.get ?_)
  split
  · exact .throw rfl
  · rename_i hnone
    rw [Bool.not_eq_true, Option.isSome_eq_false_iff, Option.isNone_iff_eq_none] at hnone
    exact .set ⟨hnone, rfl⟩

/-- A broker that comes empty has nothing on it. -/
theorem on_added_iff (hempty : b.hosted = []) : (c.added b).On id i r ↔ c.On id i r := by
  constructor
  · rintro ⟨b', hb', rfl, hmem, hr⟩
    rcases mem_insertBroker.1 hb' with rfl | hb'
    · rw [hempty] at hmem
      cases hmem
    · exact ⟨b', hb', rfl, hmem, hr⟩
  · rintro ⟨b', hb', rfl, hmem, hr⟩
    exact ⟨b', mem_insertBroker.2 (.inr hb'), rfl, hmem, hr⟩

theorem Sound.added (h : c.Sound) (hid : c.broker? b.id = none) (hhosted : b.hosted = [])
    (himm : b.immigrants = []) : (c.added b).Sound := by
  constructor
  · refine ascending_insertBroker h.ascending fun b' hb' heq ↦ ?_
    rw [← heq, h.broker?_of_mem hb'] at hid
    cases hid
  · intro b' hb'
    rcases mem_insertBroker.1 hb' with rfl | hb'
    · rw [hhosted]
      exact List.nodup_nil
    · exact h.distinct b' hb'
  · intro b' hb' tp i hmem
    rcases mem_insertBroker.1 hb' with rfl | hb'
    · rw [hhosted] at hmem
      cases hmem
    · exact h.hosted b' hb' tp i hmem
  · intro b' hb'
    rcases mem_insertBroker.1 hb' with rfl | hb'
    · rw [hhosted, himm, List.filter_nil]
    · exact h.immigrants b' hb'

theorem Stable.added (h : c.Stable measured) (hid : c.broker? b.id = none) (hhosted : b.hosted = [])
    (himm : b.immigrants = []) (hviews : b.views = []) : (c.added b).Stable measured where
  toSound := h.toSound.added hid hhosted himm
  complete i r hr := (on_added_iff hhosted).2 (h.complete i r hr)
  numeric := h.numeric
  orderly b' hb' := by
    rcases mem_insertBroker.1 hb' with rfl | hb'
    · intro e he
      rw [hviews] at he
      cases he
    · exact h.orderly b' hb'

/-! ## A replica more -/

/-- The cluster with a replica more, on the broker where it is placed first. -/
def placed (c : Cluster) (r : Replica) : Cluster :=
  { c.update r.home (·.host c.replicas.length r) with replicas := c.replicas ++ [r] }

/-- There is room for a replica on the broker where it is placed first. -/
structure Placeable (c : Cluster) (r : Replica) : Prop where
  native : r.broker = r.home
  vacant : ∃ b, c.broker? r.home = some b ∧ b.hosts r.partition = false

theorem ends_place (c : Cluster) (tp : TopicPartition) (id : BrokerId) (leads : Bool)
    (load : Load) :
    Ends (place tp id leads load) c
      (fun _ c' ↦ ∃ r, r.partition = tp ∧ r.home = id ∧ r.leads = leads ∧ r.load = load ∧
        c.Placeable r ∧ c' = c.placed r)
      fun _ c' ↦ c' = c := by
  unfold place
  refine .bind (.get (.bind (.except ?_ fun f hf ↦ rfl)))
  intro b hb
  rw [broker_eq_ok_iff] at hb
  split
  · exact .throw rfl
  · rename_i hvacant
    rw [Bool.not_eq_true] at hvacant
    refine .set ⟨{ partition := tp, home := id, broker := id, leads, load }, rfl, rfl, rfl, rfl,
      ⟨rfl, b, hb, hvacant⟩, rfl⟩

theorem replica?_placed_of_some (hi : c.replica? i = some r') :
    (c.placed r).replica? i = some r' := by
  obtain ⟨hlt, -⟩ := List.getElem?_eq_some_iff.1 hi
  change (c.replicas ++ [r])[i]? = _
  rw [List.getElem?_append_left hlt]
  exact hi

theorem replica?_placed_self (c : Cluster) (r : Replica) :
    (c.placed r).replica? c.replicas.length = some r := List.getElem?_concat_length

theorem replica?_placed_iff : (c.placed r).replica? i = some r' ↔
    c.replica? i = some r' ∨ i = c.replicas.length ∧ r' = r := by
  constructor
  · intro hi
    rcases Nat.lt_trichotomy i c.replicas.length with hlt | rfl | hgt
    · have happend : (c.placed r).replica? i = c.replica? i := List.getElem?_append_left hlt
      exact .inl (happend.symm.trans hi)
    · rw [replica?_placed_self] at hi
      exact .inr ⟨rfl, (Option.some.inj hi).symm⟩
    · obtain ⟨hlt, -⟩ := List.getElem?_eq_some_iff.1 hi
      change i < (c.replicas ++ [r]).length at hlt
      rw [List.length_append, List.length_singleton] at hlt
      exact absurd hlt (Nat.not_lt.2 hgt)
  · rintro (hi | ⟨rfl, rfl⟩)
    · exact replica?_placed_of_some hi
    · exact replica?_placed_self c _

/-- A broker when a replica is placed. -/
def onPlace (c : Cluster) (r : Replica) (b : Broker) : Broker :=
  if b.id = r.home then b.host c.replicas.length r else b

theorem brokers_placed (c : Cluster) (r : Replica) :
    (c.placed r).brokers = c.brokers.map (c.onPlace r) := rfl

@[simp] theorem id_onPlace (c : Cluster) (r : Replica) (b : Broker) :
    (c.onPlace r b).id = b.id := by
  unfold onPlace
  split <;> rfl

namespace Placeable

theorem entry_home (h : c.Sound) (hp : c.Placeable r) (hb : b ∈ c.brokers) (hid : b.id = r.home) :
    b.hosted.entry? r.partition = none := by
  obtain ⟨b', hb', hvacant⟩ := hp.vacant
  obtain rfl := h.broker_unique hb (mem_of_broker? hb') (hid.trans (id_of_broker? hb').symm)
  rwa [Broker.hosts, Roster.has, Option.isSome_eq_false_iff, Option.isNone_iff_eq_none] at hvacant

theorem hosted_home (h : c.Sound) (hp : c.Placeable r) (hb : b ∈ c.brokers) (hid : b.id = r.home) :
    (c.onPlace r b).hosted = b.hosted ++ [(r.partition, c.replicas.length)] := by
  rw [onPlace, if_pos hid]
  exact Roster.put_of_entry?_eq_none _ (hp.entry_home h hb hid)

theorem immigrants_onPlace (hp : c.Placeable r) (b : Broker) :
    (c.onPlace r b).immigrants = b.immigrants := by
  have hnative : r.isImmigrant = false := by
    rw [Replica.isImmigrant, hp.native, decide_eq_false_iff_not]
    exact not_not_intro rfl
  unfold onPlace
  split
  · change (if r.isImmigrant then _ else _) = _
    rw [hnative, if_neg Bool.false_ne_true]
  · rfl

/-- The replica comes to where it is placed, and nothing else changes. -/
theorem mem_hosted_iff (h : c.Sound) (hp : c.Placeable r) (hb : b ∈ c.brokers) :
    (tp, j) ∈ (c.onPlace r b).hosted ↔
      b.id = r.home ∧ tp = r.partition ∧ j = c.replicas.length ∨ (tp, j) ∈ b.hosted := by
  by_cases hid : b.id = r.home
  · rw [hp.hosted_home h hb hid, List.mem_append, List.mem_singleton, Prod.mk.injEq, or_comm]
    simp only [hid, true_and]
  · rw [onPlace, if_neg hid]
    simp only [hid, false_and, false_or]

end Placeable

theorem on_placed_iff (h : c.Sound) (hp : c.Placeable r) :
    (c.placed r).On id j r' ↔
      id = r.home ∧ j = c.replicas.length ∧ r' = r ∨ c.On id j r' := by
  constructor
  · rintro ⟨b', hb', rfl, hmem, hr'⟩
    obtain ⟨b, hb, rfl⟩ := List.mem_map.1 hb'
    change (r'.partition, j) ∈ (c.onPlace r b).hosted at hmem
    change (c.onPlace r b).id = _ ∧ _ ∨ c.On (c.onPlace r b).id _ _
    rw [id_onPlace]
    rcases (hp.mem_hosted_iff h hb).1 hmem with ⟨hid, -, rfl⟩ | hmem
    · rw [replica?_placed_self] at hr'
      exact .inl ⟨hid, rfl, (Option.some.inj hr').symm⟩
    · obtain ⟨r₀, hr₀, -⟩ := h.hosted b hb _ _ hmem
      rw [replica?_placed_of_some hr₀] at hr'
      obtain rfl := Option.some.inj hr'
      exact .inr ⟨b, hb, rfl, hmem, hr₀⟩
  · rintro (⟨rfl, rfl, rfl⟩ | ⟨b, hb, rfl, hmem, hr'⟩)
    · obtain ⟨b, hb, -⟩ := hp.vacant
      have hmem := mem_of_broker? hb
      have hid := id_of_broker? hb
      refine ⟨_, List.mem_map_of_mem hmem, ?_, ?_, replica?_placed_self c _⟩
      · exact (id_onPlace c _ b).trans hid
      · exact (hp.mem_hosted_iff h hmem).2 (.inl ⟨hid, rfl, rfl⟩)
    · refine ⟨_, List.mem_map_of_mem hb, id_onPlace c r b, ?_, replica?_placed_of_some hr'⟩
      exact (hp.mem_hosted_iff h hb).2 (.inr hmem)

theorem Sound.placed (h : c.Sound) (hp : c.Placeable r) : (c.placed r).Sound := by
  constructor
  · rw [map_brokers_congr (brokers_placed c r) Broker.id (id_onPlace c r)]
    exact h.ascending
  · rw [brokers_placed, List.forall_mem_map]
    intro b hb
    by_cases hid : b.id = r.home
    · rw [onPlace, if_pos hid]
      exact Roster.nodup_keys_put _ (h.distinct b hb)
    · rw [onPlace, if_neg hid]
      exact h.distinct b hb
  · rw [brokers_placed, List.forall_mem_map]
    intro b hb tp j hj
    rw [id_onPlace]
    rcases (hp.mem_hosted_iff h hb).1 hj with ⟨hid, htp, rfl⟩ | hj
    · exact ⟨r, replica?_placed_self c r, htp.symm, hp.native.trans hid.symm⟩
    · obtain ⟨r', hr', hpartition, hbroker⟩ := h.hosted b hb tp j hj
      exact ⟨r', replica?_placed_of_some hr', hpartition, hbroker⟩
  · rw [brokers_placed, List.forall_mem_map]
    intro b hb
    have hold : b.hosted.filter (fun e ↦ ((c.placed r).replica? e.2).any Replica.isImmigrant) =
        b.immigrants := by
      rw [h.immigrants b hb]
      refine List.filter_congr fun e he ↦ ?_
      obtain ⟨r', hr', -⟩ := h.hosted b hb e.1 e.2 he
      rw [hr', replica?_placed_of_some hr']
    rw [hp.immigrants_onPlace]
    by_cases hid : b.id = r.home
    · rw [hp.hosted_home h hb hid, List.filter_append, hold, List.filter_singleton,
        replica?_placed_self, Option.any_some, Replica.isImmigrant, hp.native]
      simp
    · rw [onPlace, if_neg hid, hold]

theorem Stable.placed (h : c.Stable measured) (hp : c.Placeable r)
    (hr : r.load.IsNumeric measured) : (c.placed r).Stable measured where
  toSound := h.toSound.placed hp
  complete i r' hr' := by
    rw [on_placed_iff h.toSound hp]
    rcases replica?_placed_iff.1 hr' with hr' | ⟨rfl, rfl⟩
    · exact .inr (h.complete i r' hr')
    · exact .inl ⟨hp.native, rfl, rfl⟩
  numeric r' hr' := by
    rcases List.mem_append.1 hr' with hr' | hr'
    · exact h.numeric r' hr'
    · rw [List.mem_singleton.1 hr']
      exact hr
  orderly := by
    rw [brokers_placed, List.forall_mem_map]
    intro b hb
    unfold onPlace
    split
    · exact (h.orderly b hb).host hr
    · exact h.orderly b hb

/-! ## Brokers that keep their replicas -/

/-- What is on a broker does not depend on views, states and other brokers. -/
theorem on_of_map {f : Broker → Broker} (hc : c'.brokers = c.brokers.map f)
    (hr : c'.replicas = c.replicas) (hid : ∀ b, (f b).id = b.id)
    (hhosted : ∀ b, b.id = id → (f b).hosted = b.hosted) : c'.On id i r ↔ c.On id i r := by
  unfold On
  rw [replica?, replica?, hr, hc]
  constructor
  · rintro ⟨_, hb, rfl, hmem, hi⟩
    obtain ⟨b, hb', rfl⟩ := List.mem_map.1 hb
    rw [hhosted b (hid b).symm] at hmem
    exact ⟨b, hb', (hid b).symm, hmem, hi⟩
  · rintro ⟨b, hb, rfl, hmem, hi⟩
    refine ⟨f b, List.mem_map_of_mem hb, hid b, ?_, hi⟩
    rwa [hhosted b rfl]

theorem on_update_iff {f : Broker → Broker} (hid : ∀ b, (f b).id = b.id)
    (hhosted : id = s → ∀ b, (f b).hosted = b.hosted) :
    (c.update s f).On id i r ↔ c.On id i r := by
  refine on_of_map rfl rfl (fun b ↦ ?_) fun b hb ↦ ?_
  · split
    · exact hid b
    · rfl
  · split
    · rename_i hs
      exact hhosted (hb.symm.trans hs) b
    · rfl

theorem on_track_iff {name : String} {criteria : Criteria} :
    (c.track name criteria).On id i r ↔ c.On id i r :=
  on_of_map (brokers_track name criteria c) rfl (fun _ ↦ rfl) fun _ _ ↦ rfl

theorem Stable.of_map (h : c.Stable measured) {f : Broker → Broker}
    (hc : c'.brokers = c.brokers.map f) (hr : c'.replicas = c.replicas)
    (hid : ∀ b, (f b).id = b.id) (hhosted : ∀ b, (f b).hosted = b.hosted)
    (himm : ∀ b, (f b).immigrants = b.immigrants)
    (horderly : ∀ b ∈ c.brokers, (f b).Orderly measured) : c'.Stable measured where
  toSound := h.toSound.of_map hc hr hid hhosted himm
  complete i r hi := by
    rw [replica?, hr] at hi
    exact (on_of_map hc hr hid fun b _ ↦ hhosted b).2 (h.complete i r hi)
  numeric := by
    rw [hr]
    exact h.numeric
  orderly := by
    rw [hc, List.forall_mem_map]
    exact horderly

theorem ends_setState (c : Cluster) (id : BrokerId) (state : BrokerState) :
    Ends (setState id state) c (fun _ c' ↦ c' = c.update id fun b ↦ { b with state })
      fun _ c' ↦ c' = c := by
  unfold setState
  exact .bind (.get (.bind (.except (fun b _ ↦ .set rfl) fun f _ ↦ rfl)))

theorem Sound.setState (h : c.Sound) (id : BrokerId) (state : BrokerState) :
    (c.update id fun b ↦ { b with state }).Sound := by
  refine h.of_map rfl rfl ?_ ?_ ?_ <;> intro b <;> split <;> rfl

theorem Stable.setState (h : c.Stable measured) (id : BrokerId) (state : BrokerState) :
    (c.update id fun b ↦ { b with state }).Stable measured := by
  refine h.of_map rfl rfl ?_ ?_ ?_ ?_
  · intro b
    split <;> rfl
  · intro b
    split <;> rfl
  · intro b
    split <;> rfl
  · intro b hb
    split <;> exact h.orderly b hb

/-- A view that is built for a broker shows what is on it. -/
theorem Sound.shows_build (h : c.Sound) (hb : b ∈ c.brokers) {criteria : Criteria}
    (hscores : criteria.Scores (c.On b.id)) :
    (View.build criteria (c.replicasOn b)).Shows (c.On b.id) := by
  refine (View.shows_build criteria (c.replicasOn b) ?_ ?_).congr fun i r ↦ h.mem_replicasOn hb
  · rw [h.partitions_replicasOn hb]
    exact h.distinct b hb
  · intro i r hmem
    exact hscores i r ((h.mem_replicasOn hb).1 hmem)

theorem Stable.track (h : c.Stable measured) (name : String) {criteria : Criteria}
    (hscore : ∀ x ∈ criteria.score, measured x) :
    (Cluster.track name criteria c).Stable measured := by
  refine h.of_map (brokers_track name criteria c) rfl (fun _ ↦ rfl) (fun _ ↦ rfl) (fun _ ↦ rfl)
    fun b hb e he ↦ ?_
  rcases Roster.mem_of_mem_put he with rfl | he
  · dsimp only
    rw [View.criteria_build]
    refine ⟨(h.shows_build hb fun i r hon _ ↦ ?_).toInOrder, hscore⟩
    have hload := h.numeric_of_replica? hon.replica?_eq
    exact Criteria.score_rank_ne_nan fun x hx ↦ hload x (hscore x hx)
  · exact h.orderly b hb e he

theorem Stable.untrack (h : c.Stable measured) (name : String) :
    (Cluster.untrack name c).Stable measured := by
  refine h.of_map (brokers_untrack name c) rfl (fun _ ↦ rfl) (fun _ ↦ rfl) (fun _ ↦ rfl)
    fun b hb e he ↦ ?_
  change e ∈ b.views.without name at he
  rw [Roster.without_eq_filter] at he
  exact h.orderly b hb e (List.mem_filter.1 he).1

/-! ## A departure alone -/

/-- The rest of a broker's replicas stay sound when one leaves, even if a view has lost it. -/
theorem Sound.released (h : c.Sound) (s : BrokerId) (tp : TopicPartition) :
    (c.update s fun b ↦ (b.release tp).1).Sound := by
  have hmem : ∀ b' ∈ (c.update s fun b ↦ (b.release tp).1).brokers,
      ∃ b ∈ c.brokers, b'.id = b.id ∧
        (b' = b ∨ b'.hosted = b.hosted.filter (·.1 ≠ tp) ∧
          b'.immigrants = b.immigrants.filter (·.1 ≠ tp)) := by
    intro b' hb'
    obtain ⟨b, hb, rfl⟩ := List.mem_map.1 hb'
    refine ⟨b, hb, ?_⟩
    split
    · refine ⟨rfl, .inr ⟨?_, ?_⟩⟩
      · rw [Broker.hosted_release, Roster.without_eq_filter]
      · rw [Broker.immigrants_release, Roster.without_eq_filter]
    · exact ⟨rfl, .inl rfl⟩
  constructor
  · rw [map_id_update]
    · exact h.ascending
    · exact fun b ↦ rfl
  · intro b' hb'
    obtain ⟨b, hb, -, rfl | ⟨hhosted, -⟩⟩ := hmem b' hb'
    · exact h.distinct b' hb
    · rw [hhosted]
      exact (h.distinct b hb).sublist ((List.filter_sublist).map Prod.fst)
  · intro b' hb' tp' i hi
    obtain ⟨b, hb, hid, rfl | ⟨hhosted, -⟩⟩ := hmem b' hb'
    · exact h.hosted b' hb tp' i hi
    · rw [hhosted] at hi
      rw [hid]
      exact h.hosted b hb tp' i (List.mem_filter.1 hi).1
  · intro b' hb'
    obtain ⟨b, hb, -, rfl | ⟨hhosted, himm⟩⟩ := hmem b' hb'
    · exact h.immigrants b' hb
    · rw [hhosted, himm, h.immigrants b hb, List.filter_filter, List.filter_filter]
      exact List.filter_congr fun e _ ↦ Bool.and_comm _ _

theorem Sound.of_refused (h : c.Sound) {f : Fault} (hf : Refused c tp s d f c') : c'.Sound := by
  cases hf with
  | lost => exact h.released s tp
  | _ => exact h

theorem Refused.states_eq {f : Fault} (hf : Refused c tp s d f c') : c'.states = c.states := by
  cases hf with
  | lost =>
    refine states_of_map rfl ?_ ?_ <;> intro b <;> split <;> rfl
  | _ => rfl

/-- It may have taken a replica off the source, but leaves the counts of all other brokers. -/
theorem Refused.count_eq {f : Fault} {id : BrokerId} (hf : Refused c tp s d f c') (hid : id ≠ s) :
    c'.count id = c.count id := by
  cases hf with
  | lost =>
    have hfound : (c.update s fun b ↦ (b.release tp).1).broker? id = (c.broker? id).map _ :=
      broker?_of_map rfl (fun b ↦ by split <;> rfl) id
    rw [count, hfound, count]
    cases hb : c.broker? id with
    | none => rfl
    | some b => rw [Option.map_some, if_neg (by rwa [id_of_broker? hb])]
  | _ => rfl

theorem Refused.replicas_eq {f : Fault} (hf : Refused c tp s d f c') :
    c'.replicas = c.replicas := by
  cases hf <;> rfl

/-! ## Leaderships -/

/-- The leadership of a partition went from the replica on one broker, which led, to that on
another. -/
def Passed (c : Cluster) (tp : TopicPartition) (s d : BrokerId) (c' : Cluster) : Prop :=
  ∃ i r j, c.hostedAt tp s = .ok i ∧ c.replica? i = some r ∧ r.leads = true ∧
    c.hostedAt tp d = .ok j ∧ c' = (c.setLeads i false).setLeads j true

theorem ends_passLeadership (c : Cluster) (tp : TopicPartition) (s d : BrokerId) :
    Ends (passLeadership tp s d) c
      (fun passed c' ↦ passed = false ∧ c' = c ∨ passed = true ∧ c.Passed tp s d c')
      fun _ c' ↦ c' = c := by
  unfold passLeadership
  refine .bind (.get (.bind (.except (fun i hi ↦ ?_) fun f _ ↦ rfl)))
  split
  · rename_i hlead
    obtain ⟨r, hr, hleads⟩ := (Option.any_eq_true _ _).1 hlead
    exact .bind (.except (fun j hj ↦ .bind (.set (.pure (.inr ⟨rfl, i, r, j, hi, hr, hleads, hj,
      rfl⟩)))) fun f _ ↦ rfl)
  · exact .pure (.inl ⟨rfl, rfl⟩)

theorem replica?_setLeads (c : Cluster) (i j : ReplicaId) (leads : Bool) :
    (c.setLeads i leads).replica? j =
      (c.replica? j).map fun r ↦ if i = j then { r with leads } else r := by
  change (c.replicas.modify i _)[j]? = _
  rw [List.getElem?_modify]
  split
  · rfl
  · rw [replica?]
    cases c.replicas[j]? <;> rfl

theorem Stable.setLeads (h : c.Stable measured) (i : ReplicaId) (leads : Bool) :
    (c.setLeads i leads).Stable measured where
  toSound := h.toSound.setLeads i leads
  complete j r' hr' := by
    have hlead := hr'
    rw [replica?_setLeads] at hlead
    obtain ⟨r, hr, rfl⟩ := Option.map_eq_some_iff.1 hlead
    obtain ⟨b, hb, hid, hmem, -⟩ := h.complete j r hr
    refine ⟨b, hb, ?_, ?_, hr'⟩
    · rw [hid]
      split <;> rfl
    · split <;> exact hmem
  numeric r' hr' := by
    obtain ⟨j, hj⟩ := List.mem_iff_getElem?.1 hr'
    change (c.setLeads i leads).replica? j = _ at hj
    rw [replica?_setLeads] at hj
    obtain ⟨r, hr, rfl⟩ := Option.map_eq_some_iff.1 hj
    have hload := h.numeric_of_replica? hr
    split
    · exact hload
    · exact hload
  orderly := h.orderly

/-! ## What is fixed -/

/-- What a move leaves of the replicas, where they are aside. -/
theorem map_replicas_moved {α : Type} {f : Replica → α}
    (hf : ∀ r d, f { r with broker := d } = f r) (hr : c.replica? i = some r) (d : BrokerId) :
    (c.moved i r d).replicas.map f = c.replicas.map f := by
  obtain ⟨hi, hget⟩ := List.getElem?_eq_some_iff.1 hr
  change (c.replicas.set i { r with broker := d }).map f = _
  rw [List.map_set, hf]
  refine List.ext_getElem (List.length_set ..) fun j _ _ ↦ ?_
  rw [List.getElem_set]
  split
  · rename_i hij
    subst hij
    rw [List.getElem_map, hget]
  · rfl

/-- A move changes no origin. -/
theorem origins_moved (hr : c.replica? i = some r) (d : BrokerId) :
    (c.moved i r d).origins = c.origins :=
  map_replicas_moved (fun _ _ ↦ rfl) hr d

theorem origins_setLeads (c : Cluster) (i : ReplicaId) (leads : Bool) :
    (c.setLeads i leads).origins = c.origins := by
  refine List.ext_getElem? fun j ↦ ?_
  rw [origins, origins, List.getElem?_map, List.getElem?_map]
  change ((c.setLeads i leads).replica? j).map _ = (c.replica? j).map _
  rw [replica?_setLeads, Option.map_map]
  congr 1
  funext r
  rw [Function.comp_apply]
  split <;> rfl

end Cluster

end Rebalance
