import Mathlib.Data.List.Nodup
import Mathlib.Data.List.Sort
import Rebalance.Cluster.Change
import Rebalance.Proofs.Roster

/-!
# Sound clusters

A cluster is sound if its brokers ascend, no broker has a partition twice, whatever a broker refers
to is a replica of that partition that is on that broker, and the immigrants of a broker are those
of its replicas that were placed elsewhere first. Nothing is asked of the views, and a replica may
be on no broker at all; so soundness outlives even a departure that fails halfway.
-/

namespace Rebalance.Cluster

variable {c c' : Cluster} {id id' : BrokerId} {b b' : Broker} {i j : ReplicaId} {r : Replica}
  {tp : TopicPartition}

/-- What brokers refer to is what is on them. -/
structure Sound (c : Cluster) : Prop where
  ascending : (c.brokers.map Broker.id).Pairwise (· < ·)
  distinct : ∀ b ∈ c.brokers, b.hosted.keys.Nodup
  hosted : ∀ b ∈ c.brokers, ∀ tp i, (tp, i) ∈ b.hosted →
    ∃ r, c.replica? i = some r ∧ r.partition = tp ∧ r.broker = b.id
  immigrants : ∀ b ∈ c.brokers,
    b.immigrants = b.hosted.filter fun e ↦ (c.replica? e.2).any Replica.isImmigrant

/-- A replica is on a broker. -/
def On (c : Cluster) (id : BrokerId) (i : ReplicaId) (r : Replica) : Prop :=
  ∃ b ∈ c.brokers, b.id = id ∧ (r.partition, i) ∈ b.hosted ∧ c.replica? i = some r

theorem On.replica?_eq (h : c.On id i r) : c.replica? i = some r := by
  obtain ⟨-, -, -, -, hr⟩ := h
  exact hr

theorem On.eq_of_replica? {r' : Replica} (h : c.On id i r) (hr : c.replica? i = some r') :
    r = r' := Option.some.inj (h.replica?_eq.symm.trans hr)

/-- Some replica of a partition is on a broker. -/
def Hosts (c : Cluster) (id : BrokerId) (tp : TopicPartition) : Prop :=
  ∃ i r, c.On id i r ∧ r.partition = tp

/-- Some replica on a broker is an immigrant. -/
def HasImmigrant (c : Cluster) (id : BrokerId) : Prop :=
  ∃ i r, c.On id i r ∧ r.isImmigrant = true

/-! ## Brokers by number -/

theorem mem_of_broker? (h : c.broker? id = some b) : b ∈ c.brokers := List.mem_of_find?_eq_some h

theorem id_of_broker? (h : c.broker? id = some b) : b.id = id := by
  have hid := List.find?_some h
  simpa using hid

theorem broker_eq_ok_iff : c.broker id = .ok b ↔ c.broker? id = some b := by
  unfold broker
  cases c.broker? id with
  | none => simp
  | some b' => simp

theorem broker_eq_error_iff {f : Fault} :
    c.broker id = .error f ↔ c.broker? id = none ∧ f = .unknownBroker id := by
  unfold broker
  cases c.broker? id with
  | none => simp [eq_comm]
  | some b' => simp

/-- Changing brokers without renumbering them changes what is found. -/
theorem broker?_of_map {f : Broker → Broker} (hc : c'.brokers = c.brokers.map f)
    (hf : ∀ b, (f b).id = b.id) (id : BrokerId) : c'.broker? id = (c.broker? id).map f := by
  unfold broker?
  rw [hc, List.find?_map]
  simp only [Function.comp_def, hf]

theorem brokers_track (name : String) (criteria : Criteria) (c : Cluster) :
    (track name criteria c).brokers = c.brokers.map fun b ↦
      { b with views := b.views.put name (.build criteria (c.replicasOn b)) } := rfl

theorem brokers_untrack (name : String) (c : Cluster) :
    (untrack name c).brokers = c.brokers.map fun b ↦
      { b with views := b.views.without name } := rfl

theorem map_brokers_congr {f : Broker → Broker} (hc : c'.brokers = c.brokers.map f) {α : Type}
    (g : Broker → α) (hf : ∀ b, g (f b) = g b) : c'.brokers.map g = c.brokers.map g := by
  rw [hc, List.map_map]
  exact List.map_congr_left fun b _ ↦ hf b

namespace Sound

theorem ids_nodup (h : c.Sound) : (c.brokers.map Broker.id).Nodup :=
  h.ascending.imp ne_of_lt

/-- A number belongs to one broker. -/
theorem broker_unique (h : c.Sound) (hb : b ∈ c.brokers) (hb' : b' ∈ c.brokers)
    (hid : b.id = b'.id) : b = b' := List.inj_on_of_nodup_map h.ids_nodup hb hb' hid

theorem broker?_eq_some_iff (h : c.Sound) : c.broker? id = some b ↔ b ∈ c.brokers ∧ b.id = id := by
  constructor
  · intro hb
    exact ⟨mem_of_broker? hb, id_of_broker? hb⟩
  · rintro ⟨hb, rfl⟩
    cases hfound : c.broker? b.id with
    | none =>
      unfold broker? at hfound
      have hne := List.find?_eq_none.1 hfound b hb
      simp at hne
    | some b' => rw [h.broker_unique (mem_of_broker? hfound) hb (id_of_broker? hfound)]

theorem broker?_of_mem (h : c.Sound) (hb : b ∈ c.brokers) : c.broker? b.id = some b :=
  h.broker?_eq_some_iff.2 ⟨hb, rfl⟩

theorem count_of_mem (h : c.Sound) (hb : b ∈ c.brokers) : c.count b.id = b.count := by
  rw [Cluster.count, h.broker?_of_mem hb]
  rfl

/-! ## Replicas on brokers -/

theorem broker_of_on (h : c.Sound) (hon : c.On id i r) : r.broker = id := by
  obtain ⟨b, hb, rfl, hmem, hr⟩ := hon
  obtain ⟨r', hr', -, hbroker⟩ := h.hosted b hb _ _ hmem
  rw [hr] at hr'
  obtain rfl := Option.some.inj hr'
  exact hbroker

/-- A broker that something is on is there. -/
theorem exists_broker?_of_on (h : c.Sound) (hon : c.On id i r) : ∃ b, c.broker? id = some b := by
  obtain ⟨b, hb, rfl, -⟩ := hon
  exact ⟨b, h.broker?_of_mem hb⟩

theorem on_of_mem_hosted (h : c.Sound) (hb : b ∈ c.brokers) (hmem : (tp, i) ∈ b.hosted) :
    ∃ r, c.On b.id i r ∧ r.partition = tp := by
  obtain ⟨r, hr, rfl, -⟩ := h.hosted b hb _ _ hmem
  exact ⟨r, ⟨b, hb, rfl, hmem, hr⟩, rfl⟩

/-- Two replicas of a partition on a broker are one. -/
theorem on_unique (h : c.Sound) {r' : Replica} (hi : c.On id i r) (hj : c.On id j r')
    (hp : r.partition = r'.partition) : i = j := by
  obtain ⟨b, hb, rfl, hmem, -⟩ := hi
  obtain ⟨b', hb', hid, hmem', -⟩ := hj
  obtain rfl := h.broker_unique hb' hb hid
  rw [← hp] at hmem'
  have hfound := Roster.entry?_of_mem (h.distinct b' hb) hmem
  rw [Roster.entry?_of_mem (h.distinct b' hb) hmem'] at hfound
  exact (Option.some.inj hfound).symm

theorem hosts_iff (h : c.Sound) (hb : b ∈ c.brokers) :
    b.hosts tp = true ↔ c.Hosts b.id tp := by
  rw [Broker.hosts_iff]
  constructor
  · intro hk
    obtain ⟨⟨tp', i⟩, hmem, rfl⟩ := List.mem_map.1 hk
    obtain ⟨r, hon, hp⟩ := h.on_of_mem_hosted hb hmem
    exact ⟨i, r, hon, hp⟩
  · rintro ⟨i, r, ⟨b', hb', hid, hmem, -⟩, rfl⟩
    obtain rfl := h.broker_unique hb' hb hid
    exact Roster.mem_keys_of_mem hmem

/-- Nothing of a partition is on a broker that does not host it. -/
theorem partition_ne_of_vacant (h : c.Sound) (hb : c.broker? id = some b)
    (hvacant : b.hosts tp = false) (hon : c.On id i r) : r.partition ≠ tp := by
  intro hp
  obtain rfl := id_of_broker? hb
  rw [(h.hosts_iff (mem_of_broker? hb)).2 ⟨i, r, hon, hp⟩] at hvacant
  cases hvacant

/-- The replicas on a broker are listed under their partitions. -/
theorem partitions_replicasOn (h : c.Sound) (hb : b ∈ c.brokers) :
    (c.replicasOn b).map (·.2.partition) = b.hosted.keys := by
  have key : ∀ hosted : Roster TopicPartition ReplicaId,
      (∀ tp i, (tp, i) ∈ hosted → ∃ r, c.replica? i = some r ∧ r.partition = tp) →
      (c.resolve hosted.values).map (·.2.partition) = hosted.keys := by
    intro hosted
    induction hosted with
    | nil =>
      intro _
      rfl
    | cons e rest ih =>
      intro hall
      obtain ⟨r, hr, hp⟩ := hall e.1 e.2 List.mem_cons_self
      have hrest := ih fun tp i hmem ↦ hall tp i (List.mem_cons_of_mem _ hmem)
      rw [Roster.keys_cons, ← hp, ← hrest]
      unfold resolve Roster.values
      rw [List.map_cons, List.filterMap_cons, hr]
      rfl
  refine key b.hosted fun tp i hmem ↦ ?_
  obtain ⟨r, hr, hp, -⟩ := h.hosted b hb tp i hmem
  exact ⟨r, hr, hp⟩

theorem mem_replicasOn (h : c.Sound) (hb : b ∈ c.brokers) :
    (i, r) ∈ c.replicasOn b ↔ c.On b.id i r := by
  constructor
  · intro hmem
    obtain ⟨j, hj, heq⟩ := List.mem_filterMap.1 hmem
    obtain ⟨r', hr', heq⟩ := Option.map_eq_some_iff.1 heq
    obtain ⟨rfl, rfl⟩ := Prod.mk.inj heq
    obtain ⟨⟨tp, j⟩, he, rfl⟩ := List.mem_map.1 hj
    obtain ⟨r₀, hr₀, rfl, -⟩ := h.hosted b hb tp j he
    rw [hr'] at hr₀
    obtain rfl := Option.some.inj hr₀
    exact ⟨b, hb, rfl, he, hr'⟩
  · rintro ⟨b', hb', hid, he, hr⟩
    obtain rfl := h.broker_unique hb' hb hid
    refine List.mem_filterMap.2 ⟨i, List.mem_map.2 ⟨_, he, rfl⟩, ?_⟩
    rw [hr, Option.map_some]

theorem hasImmigrant_iff (h : c.Sound) (hb : c.broker? id = some b) :
    c.HasImmigrant id ↔ b.immigrants ≠ [] := by
  have hmem := mem_of_broker? hb
  obtain rfl := id_of_broker? hb
  rw [h.immigrants b hmem, ne_eq, List.filter_eq_nil_iff]
  constructor
  · rintro ⟨i, r, ⟨b', hb', hid, hhosted, hr⟩, himm⟩ hnone
    obtain rfl := h.broker_unique hb' hmem hid
    refine hnone _ hhosted ?_
    rw [hr]
    exact himm
  · intro hsome
    simp only [not_forall, not_not] at hsome
    obtain ⟨⟨tp, i⟩, he, himm⟩ := hsome
    obtain ⟨r, hr, rfl, -⟩ := h.hosted b hmem tp i he
    rw [hr] at himm
    exact ⟨i, r, ⟨b, hmem, rfl, he, hr⟩, himm⟩

/-! ## What leaves clusters sound -/

protected theorem empty : Sound ∅ where
  ascending := List.Pairwise.nil
  distinct _ h := by cases h
  hosted _ h := by cases h
  immigrants _ h := by cases h

/-- Soundness does not depend on views and states. -/
theorem of_map (h : c.Sound) {f : Broker → Broker} (hc : c'.brokers = c.brokers.map f)
    (hr : c'.replicas = c.replicas) (hid : ∀ b, (f b).id = b.id)
    (hhosted : ∀ b, (f b).hosted = b.hosted) (himm : ∀ b, (f b).immigrants = b.immigrants) :
    c'.Sound := by
  have hreplica : ∀ i, c'.replica? i = c.replica? i := fun i ↦ by
    rw [replica?, hr, replica?]
  constructor
  · rw [map_brokers_congr hc Broker.id hid]
    exact h.ascending
  · rw [hc, List.forall_mem_map]
    intro b hb
    rw [hhosted]
    exact h.distinct b hb
  · rw [hc, List.forall_mem_map]
    intro b hb tp i hmem
    rw [hhosted] at hmem
    rw [hreplica, hid]
    exact h.hosted b hb tp i hmem
  · rw [hc, List.forall_mem_map]
    intro b hb
    simp only [himm, hhosted, hreplica]
    exact h.immigrants b hb

theorem track (h : c.Sound) (name : String) (criteria : Criteria) :
    (Cluster.track name criteria c).Sound :=
  h.of_map (brokers_track name criteria c) rfl (fun _ ↦ rfl) (fun _ ↦ rfl) fun _ ↦ rfl

theorem untrack (h : c.Sound) (name : String) : (Cluster.untrack name c).Sound :=
  h.of_map (brokers_untrack name c) rfl (fun _ ↦ rfl) (fun _ ↦ rfl) fun _ ↦ rfl

/-- Soundness does not depend on who leads. -/
theorem of_replicas (h : c.Sound) (hb : c'.brokers = c.brokers)
    (hr : ∀ i, (c'.replica? i).map (fun r ↦ (r.partition, r.home, r.broker)) =
      (c.replica? i).map fun r ↦ (r.partition, r.home, r.broker)) : c'.Sound := by
  constructor
  · rw [hb]
    exact h.ascending
  · rw [hb]
    exact h.distinct
  · rw [hb]
    intro b hmem tp i hhost
    obtain ⟨r, hr', hp, hbroker⟩ := h.hosted b hmem tp i hhost
    have hri := hr i
    rw [hr', Option.map_some, Option.map_eq_some_iff] at hri
    obtain ⟨r', hr'', heq⟩ := hri
    obtain ⟨hp', -, hbroker'⟩ := by simpa only [Prod.mk.injEq] using heq
    exact ⟨r', hr'', hp'.trans hp, hbroker'.trans hbroker⟩
  · rw [hb]
    intro b hmem
    rw [h.immigrants b hmem]
    refine List.filter_congr fun e _ ↦ ?_
    have hri := hr e.2
    cases hc : c.replica? e.2 with
    | none =>
      rw [hc, Option.map_none, Option.map_eq_none_iff] at hri
      rw [hri]
    | some r =>
      rw [hc, Option.map_some, Option.map_eq_some_iff] at hri
      obtain ⟨r', hr'', heq⟩ := hri
      obtain ⟨-, hhome, hbroker⟩ := by simpa only [Prod.mk.injEq] using heq
      rw [hr'', Option.any_some, Option.any_some, Replica.isImmigrant, Replica.isImmigrant, hhome,
        hbroker]

theorem setLeads (h : c.Sound) (i : ReplicaId) (leads : Bool) : (c.setLeads i leads).Sound := by
  refine h.of_replicas rfl fun j ↦ ?_
  change Option.map _ (c.replicas.modify i _)[j]? = Option.map _ c.replicas[j]?
  rw [List.getElem?_modify]
  by_cases hij : i = j
  · simp [hij, Function.comp_def]
  · simp [hij]

end Sound

end Rebalance.Cluster
