import Rebalance.Proofs.Distribution.Counting

/-!
# What the views of the goal show

While the goal is pursued, the view it keeps of a broker shows nothing but replicas that are on the
broker or have moved on to an alive one. That holds whatever the scores are. If the disk loads are
numbers, the view shows exactly the admitted ones among the replicas that are on the broker.
-/

namespace Rebalance

namespace Cluster

variable {c c' : Cluster} {id d : BrokerId} {b : Broker} {i : ReplicaId} {r : Replica}
  {name : String} {criteria : Criteria} {replicas : List ReplicaId}

/-! ## Views that are loyal -/

/-- Some replicas are each on a broker, or on an alive one. -/
def Around (c : Cluster) (id : BrokerId) (replicas : List ReplicaId) : Prop :=
  ∀ i ∈ replicas, ∀ r, c.replica? i = some r → r.broker = id ∨ c.Alive r.broker

/-- The views of a name show only what is on their broker or on an alive one. -/
def Loyal (name : String) (c : Cluster) : Prop :=
  ∀ b ∈ c.brokers, ∀ v, b.views.entry? name = some v → c.Around b.id v.replicas

theorem Around.moved (h : c.Around id replicas) (hm : c.Movable i r d) (hd : c.Alive d) :
    (c.moved i r d).Around id replicas := by
  intro j hj r' hr'
  rw [alive_congr (states_moved c i r d)]
  by_cases hji : j = i
  · subst hji
    have hr := hm.on.replica?_eq
    rw [replica?_moved_self hr] at hr'
    obtain rfl := Option.some.inj hr'
    exact .inr hd
  · rw [replica?_moved_of_ne hji] at hr'
    exact h j hj r' hr'

theorem Around.mono {replicas' : List ReplicaId} (h : c.Around id replicas)
    (hsub : replicas' ⊆ replicas) : c.Around id replicas' := fun i hi ↦ h i (hsub hi)

theorem Loyal.moved (h : c.Loyal name) (hm : c.Movable i r d) (hd : c.Alive d) :
    (c.moved i r d).Loyal name := by
  rw [Loyal, brokers_moved, List.forall_mem_map]
  intro b hb v' hv'
  rw [Broker.id_onMove]
  by_cases hs : b.id = r.broker
  · rw [Broker.onMove_source hs, Broker.views_release] at hv'
    obtain ⟨v, hv, hsub⟩ := Broker.exists_of_entry_dropFromViews hv'
    exact ((h b hb v hv).moved hm hd).mono hsub
  · by_cases hdest : b.id = d
    · rw [Broker.onMove_destination hs hdest, Broker.views_host, Option.map_eq_some_iff] at hv'
      obtain ⟨v, hv, rfl⟩ := hv'
      intro j hj r' hr'
      rcases View.mem_of_mem_replicas_insert hj with rfl | hj
      · have hr := hm.on.replica?_eq
        rw [replica?_moved_self hr] at hr'
        obtain rfl := Option.some.inj hr'
        exact .inl hdest.symm
      · exact (h b hb v hv).moved hm hd j hj r' hr'
    · rw [Broker.onMove_other hs hdest] at hv'
      exact (h b hb v' hv').moved hm hd

/-- A view that was just built shows what is on its broker. -/
theorem Sound.loyal_track (h : c.Sound) (name : String) (criteria : Criteria) :
    (c.track name criteria).Loyal name := by
  intro b' hb' v hv i hi r hr
  obtain ⟨b, hb, rfl⟩ := List.mem_map.1 hb'
  change Roster.entry? (b.views.put name _) name = some v at hv
  rw [Roster.entry?_put, if_pos rfl] at hv
  obtain rfl := Option.some.inj hv
  obtain ⟨r', hr'⟩ := View.exists_of_mem_build hi
  rw [h.mem_replicasOn hb] at hr'
  have hsame := hr'.replica?_eq
  change c.replica? i = some r at hr
  rw [hsame] at hr
  obtain rfl := Option.some.inj hr
  exact .inl (h.broker_of_on hr')

/-! ## Views that are faithful -/

/-- Every broker has a view of a name, by given criteria, that shows what is on the broker. What the
criteria order by is a number. -/
structure Faithful (name : String) (criteria : Criteria) (c : Cluster) : Prop where
  numeric : ∀ r ∈ c.replicas, (criteria.rank r).score ≠ .nan
  shows : ∀ b ∈ c.brokers, ∃ v, b.views.entry? name = some v ∧ v.criteria = criteria ∧
    v.Shows (c.On b.id)

/-- What is on the source after a move. -/
theorem Movable.on_source_iff (h : c.Sound) (hm : c.Movable i r d) {j : ReplicaId} {r' : Replica} :
    (c.moved i r d).On r.broker j r' ↔ c.On r.broker j r' ∧ r'.partition ≠ r.partition := by
  rw [on_moved_iff h hm]
  constructor
  · rintro (⟨hd, -⟩ | ⟨hon, hne⟩)
    · exact absurd hd (hm.source_ne h)
    · exact ⟨hon, fun hp ↦ hne (h.on_unique hon hm.on hp)⟩
  · rintro ⟨hon, hp⟩
    refine .inr ⟨hon, ?_⟩
    rintro rfl
    exact hp (congrArg Replica.partition (hon.eq_of_replica? hm.on.replica?_eq))

/-- What is on another broker than the source after a move. -/
theorem Movable.on_other_iff (h : c.Sound) (hm : c.Movable i r d) {j : ReplicaId} {r' : Replica}
    (hs : id ≠ r.broker) :
    (c.moved i r d).On id j r' ↔ c.On id j r' ∨ id = d ∧ j = i ∧ r' = { r with broker := d } := by
  rw [on_moved_iff h hm, or_comm]
  refine or_congr_left (and_iff_left_of_imp ?_)
  rintro hon rfl
  obtain rfl := hon.eq_of_replica? hm.on.replica?_eq
  exact hs (h.broker_of_on hon).symm

section

variable {v : View}

theorem Movable.shows_source (h : c.Sound) (hm : c.Movable i r d)
    (hshows : v.Shows (c.On r.broker)) :
    (v.erase r.partition).Shows ((c.moved i r d).On r.broker) :=
  (hshows.erase r.partition).congr fun _ _ ↦ (hm.on_source_iff h).symm

theorem Movable.shows_destination (h : c.Sound) (hm : c.Movable i r d) (hshows : v.Shows (c.On d))
    (hr : v.criteria.admits { r with broker := d } = true →
      (v.criteria.rank { r with broker := d }).score ≠ .nan) :
    (v.insert i { r with broker := d }).Shows ((c.moved i r d).On d) := by
  refine (hshows.insert i hr ?_).congr fun j r' ↦ ?_
  · intro j r' hon
    obtain ⟨b', hb', hvacant⟩ := hm.vacant
    exact h.partition_ne_of_vacant hb' hvacant hon
  · rw [hm.on_other_iff h (hm.source_ne h).symm]
    exact or_congr_right (and_iff_right rfl).symm

theorem Movable.shows_other (h : c.Sound) (hm : c.Movable i r d) (hs : id ≠ r.broker) (hd : id ≠ d)
    (hshows : v.Shows (c.On id)) : v.Shows ((c.moved i r d).On id) := by
  refine hshows.congr fun j r' ↦ ?_
  rw [hm.on_other_iff h hs]
  exact (or_iff_left fun hid ↦ hd hid.1).symm

end

theorem Faithful.moved (hf : c.Faithful name criteria) (h : c.Sound) (hm : c.Movable i r d) :
    (c.moved i r d).Faithful name criteria where
  numeric := by
    intro r' hr'
    rcases List.mem_or_eq_of_mem_set hr' with hr' | rfl
    · exact hf.numeric r' hr'
    · exact hf.numeric r (List.mem_of_getElem? hm.on.replica?_eq)
  shows := by
    rw [brokers_moved, List.forall_mem_map]
    intro b hb
    obtain ⟨v, hv, rfl, hshows⟩ := hf.shows b hb
    rw [Broker.id_onMove]
    by_cases hs : b.id = r.broker
    · refine ⟨v.erase r.partition, ?_, View.criteria_erase v _, ?_⟩
      · have hfound := hm.found b (hs ▸ h.broker?_of_mem hb)
        rw [Broker.onMove_source hs, Broker.views_release, Broker.dropFromViews_of_found hfound,
          Roster.entry?_map (fun v : View ↦ v.erase r.partition), hv, Option.map_some]
      · rw [hs] at hshows ⊢
        exact hm.shows_source h hshows
    · by_cases hd : b.id = d
      · refine ⟨v.insert i { r with broker := d }, ?_, View.criteria_insert v _ _, ?_⟩
        · rw [Broker.onMove_destination hs hd, Broker.views_host, hv, Option.map_some]
        · rw [hd] at hshows ⊢
          refine hm.shows_destination h hshows fun _ ↦ ?_
          exact hf.numeric r (List.mem_of_getElem? hm.on.replica?_eq)
      · refine ⟨v, ?_, rfl, hm.shows_other h hs hd hshows⟩
        rwa [Broker.onMove_other hs hd]

/-- Views that were just built are faithful if what they order by is a number. -/
theorem Sound.faithful_track (h : c.Sound) (name : String)
    (hnumeric : ∀ r ∈ c.replicas, (criteria.rank r).score ≠ .nan) :
    (c.track name criteria).Faithful name criteria where
  numeric := hnumeric
  shows := by
    intro b' hb'
    obtain ⟨b, hb, rfl⟩ := List.mem_map.1 hb'
    refine ⟨.build criteria (c.replicasOn b), ?_, View.criteria_build .., ?_⟩
    · change Roster.entry? (b.views.put name _) name = _
      rw [Roster.entry?_put, if_pos rfl]
    · have hscores : criteria.Scores (c.On b.id) := fun i r hon _ ↦
        hnumeric r (List.mem_of_getElem? hon.replica?_eq)
      refine (h.shows_build hb hscores).congr fun i r ↦ ?_
      exact on_track_iff.symm

/-- Nothing is shown twice. -/
theorem Faithful.exists_view (hf : c.Faithful name criteria) (hb : c.broker? id = some b) :
    ∃ v, b.view name = .ok v ∧ v.replicas.Nodup ∧
      ∀ i, i ∈ v.replicas ↔ ∃ r, c.On id i r ∧ criteria.admits r = true := by
  obtain ⟨v, hv, rfl, hshows⟩ := hf.shows b (mem_of_broker? hb)
  refine ⟨v, ?_, ?_, ?_⟩
  · rw [Broker.view, hv]
  · exact hshows.nodup_replicas fun _ _ _ hon hon' ↦ hon.eq_of_replica? hon'.replica?_eq
  · intro i
    rw [hshows.mem_replicas, id_of_broker? hb]

theorem Faithful.view_ne_error {f : Fault} (hf : c.Faithful name criteria)
    (hb : c.broker? id = some b) : b.view name ≠ .error f := by
  obtain ⟨v, hv, -⟩ := hf.exists_view hb
  intro hunknown
  rw [hv] at hunknown
  cases hunknown

end Cluster

namespace DistributionGoal

open Cluster (Around Loyal)

variable {g : DistributionGoal} {guards : List Guard} {options : Options} {t t' : Stage}
  {candidates : List BrokerId} {i : ReplicaId} {r : Replica} {d id id' : BrokerId} {b : Broker}
  {enough : Int} {replicas : List ReplicaId} {s : BrokerSet}

/-- So are the views of the goal, if the use of disks is a number. -/
theorem faithful_tracked {c : Cluster} (h : c.Sound)
    (hdisk : ∀ r ∈ c.replicas, r.load.of .disk ≠ .nan) (g : DistributionGoal) (options : Options) :
    (c.track g.name (criteria options)).Faithful g.name (criteria options) :=
  h.faithful_track g.name hdisk

theorem Moves.around (h : t.cluster.Sound)
    (hmoves : g.Moves guards options t candidates i r d t')
    (haround : t.cluster.Around id replicas) : t'.cluster.Around id replicas := by
  obtain ⟨j, r', -, -, hm, hcluster⟩ := hmoves.relocated.cluster
  rw [hcluster]
  exact haround.moved hm (hmoves.fits h).alive

/-- The views of the goal stay loyal. -/
theorem Law.loyal (g : DistributionGoal) (guards : List Guard) (options : Options)
    (states : List (BrokerId × BrokerState)) (name : String) :
    g.Law guards options (Course states (Loyal name)) fun _ _ ↦ True := by
  refine Course.of_moves fun {t t' candidates i r d} hsound _ hloyal h ↦ ?_
  obtain ⟨j, r', -, -, hm, hcluster⟩ := h.relocated.cluster
  rw [hcluster]
  exact hloyal.moved hm (h.fits hsound).alive

end DistributionGoal

end Rebalance
