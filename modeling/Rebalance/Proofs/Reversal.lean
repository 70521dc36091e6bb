import Rebalance.Proofs.Cluster.Pairing
import Rebalance.Proofs.Disorder
import Rebalance.Proofs.Refusal

/-!
# Moves that are taken back or exchanged

As long as views do not depend on who leads, a cluster is determined by its replicas and by what its
brokers track, up to the order in which the replicas arrived. So a relocation and the one back lead
to where they began, and two relocations of different partitions to the same cluster in either
order.
-/

namespace Rebalance

variable {measured : Resource → Prop}

/-! ## Clusters that are displayed -/

/-- A view that is tracked neither chooses nor orders by who leads. -/
def Operation.IsLeaderless : Operation → Prop
  | track _ criteria => criteria.Leaderless
  | _ => True

theorem DistributionGoal.leaderless_criteria (options : Options) :
    (criteria options).Leaderless where
  choose := by
    unfold criteria
    dsimp only
    split <;> simp
  priorities := by simp [criteria]

namespace Cluster

variable {c c' : Cluster} {id d d' : BrokerId} {b b' : Broker} {i j : ReplicaId} {r r' : Replica}
  {tp tp' : TopicPartition}

/-- A stable cluster whose views all show what is on their brokers, whoever leads. -/
structure Displayed (measured : Resource → Prop) (c : Cluster) : Prop
    extends c.Stable measured where
  shown : ∀ id, c.Shown id
  leaderless : ∀ views ∈ c.brokers.map Broker.tracked, ∀ e ∈ views, e.2.Leaderless

/-- Where views order by what is measured, they have numbers to go by. -/
theorem Stable.scored (h : c.Stable measured) (id : BrokerId) : c.Scored id := by
  intro b hb _ e he x hx _
  have hload := h.numeric_of_replica? ((h.mem_replicasOn hb).1 hx).replica?_eq
  exact Criteria.score_rank_ne_nan fun y hy ↦ hload y ((h.orderly b hb e he).2 y hy)

theorem Shown.added (hs : c.Shown id) (hhosted : b.hosted = []) (hviews : b.views = []) :
    (c.added b).Shown id := by
  refine hs.frame (fun i r ↦ (on_added_iff hhosted).symm) fun b' hb' hid e he ↦ ?_
  rcases mem_insertBroker.1 hb' with rfl | hb'
  · rw [hviews] at he
    cases he
  · exact ⟨b', hb', hid, he⟩

theorem Shown.untrack (hs : c.Shown id) (name : String) : (c.untrack name).Shown id := by
  refine hs.frame (fun i r ↦ ?_) ?_
  · exact (on_of_map (brokers_untrack name c) rfl (fun _ ↦ rfl) fun _ _ ↦ rfl).symm
  · rw [brokers_untrack, List.forall_mem_map]
    intro b hb hid e he
    change e ∈ b.views.without name at he
    rw [Roster.without_eq_filter] at he
    exact ⟨b, hb, hid, (List.mem_filter.1 he).1⟩

namespace Displayed

protected theorem empty : Displayed measured ∅ where
  toStable := .empty
  shown _ _ h := by cases h
  leaderless _ h := by cases h

theorem leaderless_of_mem (h : c.Displayed measured) (hb : b ∈ c.brokers) {e : String × View}
    (he : e ∈ b.views) : e.2.criteria.Leaderless :=
  h.leaderless _ (List.mem_map_of_mem hb) _ (List.mem_map_of_mem he)

theorem moved (h : c.Displayed measured) (hm : c.Movable i r d) :
    (c.moved i r d).Displayed measured where
  toStable := h.toStable.moved hm
  shown id := (h.shown id).moved h.toSound hm ((h.toStable.moved hm).scored id)
  leaderless := by
    rw [map_brokers_congr (brokers_moved c i r d) Broker.tracked (Broker.tracked_onMove i r d)]
    exact h.leaderless

theorem added (h : c.Displayed measured) (hid : c.broker? b.id = none) (hhosted : b.hosted = [])
    (himm : b.immigrants = []) (hviews : b.views = []) : (c.added b).Displayed measured where
  toStable := h.toStable.added hid hhosted himm hviews
  shown id := (h.shown id).added hhosted hviews
  leaderless := by
    rw [List.forall_mem_map]
    intro b' hb' e he
    rcases mem_insertBroker.1 hb' with rfl | hb'
    · rw [Broker.tracked, hviews] at he
      cases he
    · exact h.leaderless _ (List.mem_map_of_mem hb') e he

theorem setLeads (h : c.Displayed measured) (i : ReplicaId) (leads : Bool) :
    (c.setLeads i leads).Displayed measured where
  toStable := h.toStable.setLeads i leads
  shown id b hb hid e he :=
    shows_setLeads (h.leaderless_of_mem hb he) (h.shown id b hb hid e he) i leads
  leaderless := h.leaderless

theorem track (h : c.Displayed measured) (name : String) {criteria : Criteria}
    (hleaderless : criteria.Leaderless) (hscore : ∀ x ∈ criteria.score, measured x) :
    (c.track name criteria).Displayed measured where
  toStable := h.toStable.track name hscore
  shown id := (h.shown id).track h.toSound ((h.toStable.track name hscore).scored id)
  leaderless := by
    rw [brokers_track, List.forall_mem_map, List.forall_mem_map]
    intro b hb
    change ∀ e ∈ List.map _ _, _
    rw [List.forall_mem_map]
    intro e he
    rcases Roster.mem_of_mem_put he with rfl | he
    · rwa [View.criteria_build]
    · exact h.leaderless_of_mem hb he

theorem untrack (h : c.Displayed measured) (name : String) :
    (c.untrack name).Displayed measured where
  toStable := h.toStable.untrack name
  shown id := (h.shown id).untrack name
  leaderless := by
    rw [brokers_untrack, List.forall_mem_map, List.forall_mem_map]
    intro b hb
    change ∀ e ∈ List.map _ (b.views.without name), _
    rw [List.forall_mem_map, Roster.without_eq_filter]
    intro e he
    exact h.leaderless_of_mem hb (List.mem_filter.1 he).1

end Displayed

end Cluster

namespace DistributionGoal

variable {guards : List Guard} {options : Options}

theorem Law.displayed (g : DistributionGoal) (guards : List Guard) (options : Options)
    (measured : Resource → Prop) :
    g.Law guards options (·.cluster.Displayed measured) fun _ t ↦ t.cluster.Displayed measured where
  moves ht hmoves := by
    obtain ⟨j, r', -, -, hm, hcluster⟩ := hmoves.relocated.cluster
    rw [hcluster]
    exact ht.moved hm
  fails ht hfails := by
    obtain ⟨r, -, -, hf⟩ := hfails.breaks
    cases hf with
    | judging => exact ht
    | moving _ _ _ hf =>
      rw [ht.eq_of_refused hf]
      exact ht
  offers ht _ := ht
  views ht _ _ := ht

theorem displayed_pursue {c : Cluster} (h : c.Displayed measured) (hdisk : measured .disk)
    (g : DistributionGoal) : ((Operation.pursue g guards options).apply c).Displayed measured := by
  refine (comes_pursue h.toSound).stateAfter (p := { cluster := c })
    (P := fun t ↦ t.cluster.Displayed measured) fun y g' t hpursued ↦ ?_
  refine hpursued.keeps (fun g ↦ Law.displayed g guards options measured) (fun t ht ↦ ht.toSound)
    ?_ ?_ h
  · intro g t ht
    refine ht.track g.name (leaderless_criteria options) ?_
    rintro x ⟨⟩
    exact hdisk
  · intro g t ht
    exact ht.untrack g.name

end DistributionGoal

namespace Cluster

variable {c c' : Cluster} {id d d' : BrokerId} {b b' : Broker} {i j : ReplicaId} {r r' : Replica}
  {tp tp' : TopicPartition}

/-- An arrangement keeps a cluster displayed. -/
theorem Displayed.arranged (h : c.Displayed measured) {o : Operation} (ho : o.IsArrangement)
    (hmeasured : o.IsMeasured measured) : (o.apply c).Displayed measured where
  toStable := o.stable_apply h.toStable hmeasured
  shown id := (h.shown id).apply h.toSound ho ((o.stable_apply h.toStable hmeasured).scored id)
  leaderless := by
    rw [tracked_apply h.toSound ho]
    exact h.leaderless

theorem Displayed.apply (h : c.Displayed measured) {o : Operation}
    (ho : o.IsMeasured measured ∧ o.IsLeaderless) : (o.apply c).Displayed measured := by
  cases o with
  | addBroker id rack state =>
    refine Ends.stateAfter ((ends_addBroker c id rack state).mono ?_ ?_)
    · rintro - c' ⟨hnone, rfl⟩
      exact h.added hnone rfl rfl rfl
    · rintro - c' rfl
      exact h
  | place => exact h.arranged trivial ho.1
  | setState => exact h.arranged trivial ho.1
  | relocate => exact h.arranged trivial ho.1
  | passLeadership tp s d =>
    refine Ends.stateAfter ((ends_passLeadership c tp s d).mono ?_ ?_)
    · rintro - c' (⟨-, rfl⟩ | ⟨-, i, r, j, -, -, -, -, rfl⟩)
      · exact h
      · exact (h.setLeads i false).setLeads j true
    · rintro - c' rfl
      exact h
  | track name criteria => exact h.track name ho.2 ho.1
  | untrack name => exact h.untrack name
  | pursue g guards options => exact DistributionGoal.displayed_pursue h ho.1 g

/-- After any history without views that depend on who leads, a cluster is displayed. -/
theorem displayed_after {operations : List Operation}
    (h : ∀ o ∈ operations, o.IsMeasured measured ∧ o.IsLeaderless) :
    (after operations).Displayed measured := by
  have key : ∀ (operations : List Operation) (c : Cluster),
      (∀ o ∈ operations, o.IsMeasured measured ∧ o.IsLeaderless) → c.Displayed measured →
      (operations.foldl Operation.apply c).Displayed measured := by
    intro operations
    induction operations with
    | nil => exact fun c _ hc ↦ hc
    | cons o rest ih =>
      intro c h hc
      rw [List.forall_mem_cons] at h
      exact ih _ h.2 (hc.apply h.1)
  exact key operations ∅ h .empty

end Cluster

/-! ## Up to the order of arrival -/

/-- Two views show the same in the same order, and know each replica by the same rank. -/
structure View.Same (v v' : View) : Prop where
  criteria : v.criteria = v'.criteria
  entries : v.ranking.entries = v'.ranking.entries
  known : ∀ tp, v.ranking.known.entry? tp = v'.ranking.known.entry? tp

theorem View.Shows.same {present : ReplicaId → Replica → Prop} {v v' : View} (h : v.Shows present)
    (h' : v'.Shows present) (hcriteria : v.criteria = v'.criteria) : v.Same v' where
  criteria := hcriteria
  entries := h.entries_eq h' hcriteria
  known tp := by
    have hkeys : v.ranking.keys = v'.ranking.keys :=
      congrArg (List.map Prod.fst) (h.entries_eq h' hcriteria)
    refine Option.ext fun key ↦ ?_
    rw [h.ordered.known, h'.ordered.known, hkeys]

namespace Broker

/-- What replicas that come and go do not change. -/
def frame (b : Broker) : BrokerId × Option String × BrokerState × Roster String Criteria :=
  (b.id, b.rack, b.state, b.tracked)

@[simp] theorem frame_onMove (i : ReplicaId) (r : Replica) (d : BrokerId) (b : Broker) :
    (b.onMove i r d).frame = b.frame := by
  have hrack : (b.onMove i r d).rack = b.rack := by
    unfold onMove
    split
    · rfl
    · split <;> rfl
  rw [frame, frame, id_onMove, hrack, state_onMove, tracked_onMove]

/-- Two brokers differ at most in the order in which their replicas arrived. -/
structure Reordered (b b' : Broker) : Prop where
  id : b.id = b'.id
  rack : b.rack = b'.rack
  state : b.state = b'.state
  hosted : b.hosted.Perm b'.hosted
  immigrants : b.immigrants.Perm b'.immigrants
  views : List.Forall₂ (fun e e' ↦ e.1 = e'.1 ∧ e.2.Same e'.2) b.views b'.views

end Broker

namespace Cluster

variable {c c' : Cluster} {id s d s' d' : BrokerId} {b b' : Broker} {i j : ReplicaId}
  {r r' : Replica} {tp tp' : TopicPartition}

/-- Two clusters differ at most in the order in which replicas arrived on brokers. -/
structure Reordered (c c' : Cluster) : Prop where
  replicas : c.replicas = c'.replicas
  brokers : List.Forall₂ Broker.Reordered c.brokers c'.brokers

/-- In a stable cluster the replicas themselves tell where they are. -/
theorem Stable.on_iff (h : c.Stable measured) :
    c.On id i r ↔ c.replica? i = some r ∧ r.broker = id := by
  constructor
  · intro hon
    exact ⟨hon.replica?_eq, h.broker_of_on hon⟩
  · rintro ⟨hr, rfl⟩
    exact h.complete i r hr

theorem Stable.mem_hosted_iff (h : c.Stable measured) (hb : b ∈ c.brokers) :
    (tp, i) ∈ b.hosted ↔ ∃ r, c.On b.id i r ∧ r.partition = tp := by
  constructor
  · exact h.on_of_mem_hosted hb
  · rintro ⟨r, ⟨b', hb', hid, hmem, -⟩, rfl⟩
    obtain rfl := h.broker_unique hb' hb hid
    exact hmem

/-- Replicas and frames determine a cluster that is displayed, but for the order of arrival. -/
theorem Displayed.reordered (h : c.Displayed measured) (h' : c'.Displayed measured)
    (hreplicas : c.replicas = c'.replicas)
    (hframes : c.brokers.map Broker.frame = c'.brokers.map Broker.frame) : c.Reordered c' where
  replicas := hreplicas
  brokers := by
    refine forall₂_of_map_eq hframes fun b hb b' hb' heq ↦ ?_
    simp only [Broker.frame, Prod.mk.injEq] at heq
    obtain ⟨hid, hrack, hstate, htracked⟩ := heq
    have hreplica : c.replica? = c'.replica? := funext fun i ↦ by
      rw [replica?, hreplicas, replica?]
    have hon : ∀ i r, c'.On b'.id i r ↔ c.On b.id i r := fun i r ↦ by
      rw [h'.on_iff, h.on_iff, hreplica, hid]
    have hhosted : b.hosted.Perm b'.hosted := by
      refine (List.perm_ext_iff_of_nodup ((h.distinct b hb).of_map _)
        ((h'.distinct b' hb').of_map _)).2 fun e ↦ ?_
      obtain ⟨tp, i⟩ := e
      rw [h.mem_hosted_iff hb, h'.mem_hosted_iff hb']
      simp only [hon]
    refine ⟨hid, hrack, hstate, hhosted, ?_, ?_⟩
    · rw [h.immigrants b hb, h'.immigrants b' hb', hreplica]
      exact hhosted.filter _
    · refine forall₂_of_map_eq htracked fun e he e' he' heq ↦ ?_
      obtain ⟨hname, hcriteria⟩ := Prod.mk.inj heq
      refine ⟨hname, (h.shown b.id b hb rfl e he).same ?_ hcriteria⟩
      exact (h'.shown b'.id b' hb' rfl e' he').congr hon

theorem map_frame_moved (c : Cluster) (i : ReplicaId) (r : Replica) (d : BrokerId) :
    (c.moved i r d).brokers.map Broker.frame = c.brokers.map Broker.frame :=
  map_brokers_congr (brokers_moved c i r d) Broker.frame (Broker.frame_onMove i r d)

/-! ## There and back -/

theorem Sound.entry?_hosted (h : c.Sound) (hon : c.On id i r) (hb : c.broker? id = some b) :
    b.hosted.entry? r.partition = some i := by
  obtain ⟨b', hb', hid, hmem, -⟩ := hon
  obtain rfl := h.broker_unique hb' (mem_of_broker? hb) (hid.trans (id_of_broker? hb).symm)
  exact Roster.entry?_of_mem (h.distinct b' hb') hmem

theorem Sound.entry?_immigrants (h : c.Sound) (hon : c.On id i r) (hb : c.broker? id = some b) :
    b.immigrants.entry? r.partition = if r.broker = r.home then none else some i := by
  have hmem := mem_of_broker? hb
  have hhosted := Roster.mem_of_entry_eq_some (h.entry?_hosted hon hb)
  have hnodup : b.immigrants.keys.Nodup := by
    rw [h.immigrants b hmem]
    exact (h.distinct b hmem).sublist ((List.filter_sublist).map Prod.fst)
  have himm : ∀ j, (r.partition, j) ∈ b.immigrants ↔ j = i ∧ r.broker ≠ r.home := by
    intro j
    rw [h.immigrants b hmem, List.mem_filter]
    constructor
    · rintro ⟨hj, himm⟩
      have hentry := Roster.entry?_of_mem (h.distinct b hmem) hj
      rw [h.entry?_hosted hon hb] at hentry
      obtain rfl := Option.some.inj hentry
      rw [hon.replica?_eq] at himm
      exact ⟨rfl, of_decide_eq_true himm⟩
    · rintro ⟨rfl, hne⟩
      rw [hon.replica?_eq]
      exact ⟨hhosted, decide_eq_true hne⟩
  split
  · rename_i hhome
    rw [Roster.entry?_eq_none_iff]
    intro hk
    obtain ⟨⟨tp, j⟩, he, rfl⟩ := List.mem_map.1 hk
    exact ((himm j).1 he).2 hhome
  · rename_i hhome
    exact Roster.entry?_of_mem hnodup ((himm i).2 ⟨rfl, hhome⟩)

namespace Displayed

/-- A broker that takes in a replica and lets go of it again is as it was. -/
theorem release_host (h : c.Displayed measured) (hm : c.Movable i r d) (hb : c.broker? d = some b)
    (hfound : ((b.host i { r with broker := d }).release r.partition).2 = true) :
    ((b.host i { r with broker := d }).release r.partition).1 = b := by
  have hmem := mem_of_broker? hb
  have hid := id_of_broker? hb
  have hhosted := hm.entry_destination h.toSound hmem hid
  have himm := hm.entry_immigrants_destination h.toSound hmem hid
  have hviews : ((b.host i { r with broker := d }).release r.partition).1.views = b.views := by
    rw [Broker.views_release, Broker.dropFromViews_of_found hfound]
    change List.map _ (List.map _ b.views) = _
    rw [List.map_map]
    refine (List.map_congr_left fun e he ↦ ?_).trans (List.map_id _)
    obtain ⟨b', hb', hvacant⟩ := hm.vacant
    have hshows := h.shown d b hmem hid e he
    exact congrArg (Prod.mk e.1) (hshows.erase_insert i
      (hshows.not_has fun j r' ↦ h.partition_ne_of_vacant hb' hvacant))
  have hhosted' : ((b.host i { r with broker := d }).release r.partition).1.hosted = b.hosted :=
    Roster.without_put i hhosted
  have himm' : ((b.host i { r with broker := d }).release r.partition).1.immigrants =
      b.immigrants := by
    rw [Broker.immigrants_release]
    unfold Broker.host
    dsimp only
    split
    · exact Roster.without_put i himm
    · exact Roster.without_eq_self himm
  change ({ b with
    hosted := ((b.host i { r with broker := d }).release r.partition).1.hosted
    immigrants := ((b.host i { r with broker := d }).release r.partition).1.immigrants
    views := ((b.host i { r with broker := d }).release r.partition).1.views } : Broker) = b
  rw [hhosted', himm', hviews]

theorem movable_back (h : c.Displayed measured) (hm : c.Movable i r d) :
    (c.moved i r d).Movable i { r with broker := d } r.broker := by
  obtain ⟨b, hb⟩ := h.exists_broker?_of_on hm.on
  have hb' : (c.moved i r d).broker? r.broker = some (b.onMove i r d) := by
    rw [broker?_moved, hb, Option.map_some]
  have hmoved := h.moved hm
  refine hmoved.movable (replica?_moved_self hm.on.replica?_eq d) hb' ?_
  rw [← Bool.not_eq_true, hmoved.hosts_iff_of_broker? hb', hosts_moved_iff h.toSound hm]
  rintro (⟨hid, -⟩ | ⟨-, hne⟩)
  · exact hm.source_ne h.toSound hid
  · exact hne ⟨rfl, rfl⟩

end Displayed

theorem replicas_back (hr : c.replica? i = some r) (d : BrokerId) :
    ((c.moved i r d).moved i { r with broker := d } r.broker).replicas = c.replicas := by
  obtain ⟨hi, hget⟩ := List.getElem?_eq_some_iff.1 hr
  change (c.replicas.set i _).set i r = c.replicas
  rw [List.set_set, ← hget, List.set_getElem_self]

/-- A broker other than the source is the same again, the order of arrival included. -/
theorem Displayed.broker?_back (h : c.Displayed measured) (hm : c.Movable i r d)
    (hid : id ≠ r.broker) :
    ((c.moved i r d).moved i { r with broker := d } r.broker).broker? id = c.broker? id := by
  rw [broker?_moved, broker?_moved]
  cases hb : c.broker? id with
  | none => rfl
  | some b =>
    have hs : b.id ≠ r.broker := by rwa [id_of_broker? hb]
    rw [Option.map_some, Option.map_some]
    refine congrArg some ?_
    by_cases hd : b.id = d
    · obtain rfl := (id_of_broker? hb).symm.trans hd
      have hfound := (h.movable_back hm).found (b.onMove i r id) (by
        rw [broker?_moved, hb, Option.map_some])
      have hhost : (b.host i { r with broker := id }).id =
        ({ r with broker := id } : Replica).broker := hd
      rw [Broker.onMove_destination hs hd] at hfound ⊢
      rw [Broker.onMove_source hhost]
      exact h.release_host hm hb hfound
    · rw [Broker.onMove_other hs hd, Broker.onMove_other hd hs]

end Cluster

/-- The entries after a key left and came back. -/
def Roster.renewed {κ α : Type} [DecidableEq κ] (r : Roster κ α) (k : κ) : Roster κ α :=
  r.without k ++ ((r.entry? k).map (Prod.mk k)).toList

namespace Cluster

variable {c c' c'' : Cluster} {id s d s' d' : BrokerId} {b b' : Broker} {i j : ReplicaId}
  {r r' : Replica} {tp tp' : TopicPartition}

/-- A cluster is as it was, but that the replica of a partition arrived anew on its broker. -/
structure Restored (c : Cluster) (tp : TopicPartition) (s : BrokerId) (c' : Cluster) : Prop
    extends c.Reordered c' where
  others : ∀ id, id ≠ s → c'.broker? id = c.broker? id
  renewed : ∀ b, c.broker? s = some b → ∃ b', c'.broker? s = some b' ∧
    b'.hosted = b.hosted.renewed tp ∧ b'.immigrants = b.immigrants.renewed tp

theorem Displayed.restored (h : c.Displayed measured) (hm : c.Movable i r d) :
    c.Restored r.partition r.broker
      ((c.moved i r d).moved i { r with broker := d } r.broker) where
  toReordered := by
    refine h.reordered ((h.moved hm).moved (h.movable_back hm))
      (replicas_back hm.on.replica?_eq d).symm ?_
    rw [map_frame_moved, map_frame_moved]
  others id hid := h.broker?_back hm hid
  renewed b hb := by
    have hid := id_of_broker? hb
    have hmem : b.onMove i r d ∈ (c.moved i r d).brokers :=
      List.mem_map_of_mem (mem_of_broker? hb)
    have hid' : (b.onMove i r d).id = r.broker := (Broker.id_onMove i r d b).trans hid
    have hback := h.movable_back hm
    have hsound := (h.moved hm).toSound
    have hb' : ((c.moved i r d).moved i { r with broker := d } r.broker).broker? r.broker =
        some ((b.onMove i r d).onMove i { r with broker := d } r.broker) := by
      rw [broker?_moved, broker?_moved, hb, Option.map_some, Option.map_some]
    refine ⟨_, hb', ?_, ?_⟩
    · rw [hback.hosted_destination hsound hmem hid', Broker.onMove_source hid,
        Broker.hosted_release, Roster.renewed, h.entry?_hosted hm.on hb]
      rfl
    · rw [hback.immigrants_destination hsound hmem hid', Broker.onMove_source hid,
        Broker.immigrants_release, Roster.renewed, h.entry?_immigrants hm.on hb]
      dsimp only
      split
      · exact (List.append_nil _).symm
      · rfl

/-- What goes to a broker that is without it can come back, and then all is as it was. -/
theorem Displayed.there_and_back (h : c.Displayed measured) (hs : c.Hosts s tp) (hd : c.Known d)
    (hvacant : ¬ c.Hosts d tp) : ∃ c' c'', relocate tp s d c = .ok () c' ∧
      relocate tp d s c' = .ok () c'' ∧ c.Restored tp s c'' := by
  obtain ⟨i, r, hon, rfl⟩ := hs
  obtain ⟨b, hb⟩ := hd
  obtain rfl := h.broker_of_on hon
  rw [← h.hosts_iff_of_broker? hb, Bool.not_eq_true] at hvacant
  have hm := h.movable hon.replica?_eq hb hvacant
  exact ⟨_, _, relocate_of_movable h.toSound hm,
    relocate_of_movable (h.moved hm).toSound (h.movable_back hm), h.restored hm⟩

/-! ## One after the other -/

theorem hosts_moved_of_ne (h : c.Sound) (hm : c.Movable i r d) (hne : tp ≠ r.partition) :
    (c.moved i r d).Hosts id tp ↔ c.Hosts id tp := by
  rw [hosts_moved_iff h hm]
  simp [hne]

/-- What may move may still move after a replica of another partition has moved. -/
theorem Stable.movable_moved_iff (h : c.Stable measured) (hm : c.Movable i r d)
    (hne : r'.partition ≠ r.partition) : (c.moved i r d).Movable j r' d' ↔ c.Movable j r' d' := by
  have hmoved := h.moved hm
  have hreplica : (c.moved i r d).replica? j = some r' ↔ c.replica? j = some r' := by
    by_cases hji : j = i
    · subst hji
      rw [replica?_moved_self hm.on.replica?_eq, hm.on.replica?_eq, Option.some.injEq,
        Option.some.injEq]
      constructor <;> rintro rfl <;> exact absurd rfl hne
    · rw [replica?_moved_of_ne hji]
  constructor
  · rintro ⟨hon, ⟨b', hb', hvacant⟩, -⟩
    rw [← Bool.not_eq_true, hmoved.hosts_iff_of_broker? hb', hosts_moved_of_ne h.toSound hm hne]
      at hvacant
    rw [broker?_moved, Option.map_eq_some_iff] at hb'
    obtain ⟨b, hb, -⟩ := hb'
    refine h.movable (hreplica.1 hon.replica?_eq) hb ?_
    rwa [← Bool.not_eq_true, h.hosts_iff_of_broker? hb]
  · rintro ⟨hon, ⟨b, hb, hvacant⟩, -⟩
    have hb' : (c.moved i r d).broker? d' = some (b.onMove i r d) := by
      rw [broker?_moved, hb, Option.map_some]
    refine hmoved.movable (hreplica.2 hon.replica?_eq) hb' ?_
    rw [← Bool.not_eq_true, h.hosts_iff_of_broker? hb] at hvacant
    rwa [← Bool.not_eq_true, hmoved.hosts_iff_of_broker? hb', hosts_moved_of_ne h.toSound hm hne]

/-- Relocations of different partitions that succeed in one order succeed in the other, and come to
the same. -/
theorem Displayed.exchanged (h : c.Displayed measured) (hne : tp ≠ tp')
    (hfirst : relocate tp s d c = .ok () c') (hsecond : relocate tp' s' d' c' = .ok () c'') :
    ∃ e' e'', relocate tp' s' d' c = .ok () e' ∧ relocate tp s d e' = .ok () e'' ∧
      c''.Reordered e'' := by
  obtain ⟨i, r, rfl, rfl, hm, rfl⟩ := h.exists_movable hfirst
  obtain ⟨j, r', rfl, rfl, hm', rfl⟩ := (h.moved hm).exists_movable hsecond
  have hm₁ := (h.movable_moved_iff hm hne.symm).1 hm'
  have hm₂ := (h.movable_moved_iff hm₁ hne).2 hm
  have hji : i ≠ j := by
    rintro rfl
    obtain rfl := hm.on.eq_of_replica? hm₁.on.replica?_eq
    exact hne rfl
  refine ⟨_, _, relocate_of_movable h.toSound hm₁,
    relocate_of_movable (h.moved hm₁).toSound hm₂, ?_⟩
  refine ((h.moved hm).moved hm').reordered ((h.moved hm₁).moved hm₂) (List.set_comm _ _ hji) ?_
  simp only [map_frame_moved]

end Cluster

open Cluster (relocate)

/-- After any history in which views order by numbers and do not depend on who leads. A replica that
goes to any broker without its partition can come back, and then the replicas with their places and
leaders, the immigrants of every broker and all views are as they were; only on its own broker has
the replica arrived anew. And two relocations of different partitions that succeed one after the
other do so in the other order as well, and lead to the same replicas, immigrants and views. -/
theorem relocations_reversible {measured : Resource → Prop} {operations : List Operation}
    (hoperations : ∀ o ∈ operations, o.IsMeasured measured ∧ o.IsLeaderless) {c : Cluster}
    (hc : c = .after operations) :
    (∀ tp s d, c.Hosts s tp → c.Known d → ¬ c.Hosts d tp → ∃ c' c'',
      relocate tp s d c = .ok () c' ∧ relocate tp d s c' = .ok () c'' ∧ c.Restored tp s c'') ∧
    ∀ tp tp' s d s' d' c' c'', tp ≠ tp' → relocate tp s d c = .ok () c' →
      relocate tp' s' d' c' = .ok () c'' → ∃ e' e'', relocate tp' s' d' c = .ok () e' ∧
        relocate tp s d e' = .ok () e'' ∧ c''.Reordered e'' := by
  obtain rfl := hc
  have hdisplayed := Cluster.displayed_after hoperations
  constructor
  · intro tp s d hs hd hvacant
    exact hdisplayed.there_and_back hs hd hvacant
  · intro tp tp' s d s' d' c' c'' hne hfirst hsecond
    exact hdisplayed.exchanged hne hfirst hsecond

/-- Two replicas on the first broker, and an immigrant on the second one; all are tracked. -/
def Operation.settled : List Operation :=
  [.addBroker 0 none .alive, .addBroker 1 none .alive, .place ⟨"a", 0⟩ 0 true {},
    .place ⟨"b", 0⟩ 0 false {}, .place ⟨"c", 0⟩ 0 true {},
    .track "v" { priorities := [.immigrant], score := some .disk }, .relocate ⟨"c", 0⟩ 0 1]

/-- A replica goes to the second broker, where it is an immigrant too, and comes back; or both go,
one after the other. -/
theorem relocations_reversible_settled :
    (∃ c' c'', relocate ⟨"a", 0⟩ 0 1 (.after Operation.settled) = .ok () c' ∧
      relocate ⟨"a", 0⟩ 1 0 c' = .ok () c'' ∧
      (Cluster.after Operation.settled).Restored ⟨"a", 0⟩ 0 c'') ∧
    ∃ c' c'' e' e'', relocate ⟨"a", 0⟩ 0 1 (.after Operation.settled) = .ok () c' ∧
      relocate ⟨"b", 0⟩ 0 1 c' = .ok () c'' ∧
      c''.brokers.map (fun b ↦ b.views.map fun e ↦ e.2.partitions) =
        [[[]], [[⟨"a", 0⟩, ⟨"b", 0⟩, ⟨"c", 0⟩]]] ∧
      relocate ⟨"b", 0⟩ 0 1 (.after Operation.settled) = .ok () e' ∧
      relocate ⟨"a", 0⟩ 0 1 e' = .ok () e'' ∧ c''.Reordered e'' := by
  have hleaderless : Criteria.Leaderless { priorities := [.immigrant], score := some .disk } :=
    ⟨by decide, by decide⟩
  obtain ⟨hback, hexchange⟩ := relocations_reversible
    (show ∀ o ∈ Operation.settled, o.IsMeasured (fun _ ↦ True) ∧ o.IsLeaderless by
      simp [Operation.settled, Operation.IsMeasured, Operation.IsLeaderless, Load.isNumeric_default,
        hleaderless]) rfl
  have hsound := Cluster.sound_after Operation.settled
  constructor
  · obtain ⟨b, hb, hhosts⟩ := (Option.any_eq_true _ _).1 (by decide +kernel :
      ((Cluster.after Operation.settled).broker? 0).any (·.hosts ⟨"a", 0⟩) = true)
    obtain ⟨b', hb', hvacant⟩ := (Option.any_eq_true _ _).1 (by decide +kernel :
      ((Cluster.after Operation.settled).broker? 1).any (!·.hosts ⟨"a", 0⟩) = true)
    refine hback _ _ _ ((hsound.hosts_iff_of_broker? hb).1 hhosts) ⟨b', hb'⟩ ?_
    rw [← hsound.hosts_iff_of_broker? hb']
    simpa using hvacant
  · obtain ⟨_, c', hfirst, hrest⟩ := (by decide +kernel :
      Ends (relocate ⟨"a", 0⟩ 0 1) (Cluster.after Operation.settled)
        (fun _ c' ↦ Ends (relocate ⟨"b", 0⟩ 0 1) c'
          (fun _ c'' ↦ c''.brokers.map (fun b ↦ b.views.map fun e ↦ e.2.partitions) =
            [[[]], [[⟨"a", 0⟩, ⟨"b", 0⟩, ⟨"c", 0⟩]]]) fun _ _ ↦ False)
        fun _ _ ↦ False).exists_ok
    obtain ⟨_, c'', hsecond, hviews⟩ := hrest.exists_ok
    obtain ⟨e', e'', hfirst', hsecond', hreordered⟩ :=
      hexchange _ _ _ _ _ _ c' c'' (by decide) hfirst hsecond
    exact ⟨c', c'', e', e'', hfirst, hsecond, hviews, hfirst', hsecond', hreordered⟩

end Rebalance
