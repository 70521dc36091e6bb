import Mathlib.Data.List.Forall2
import Rebalance.Proofs.Cluster.Census
import Rebalance.Proofs.Lockstep

/-!
# Paired clusters

Two clusters have the same placement if they have the same brokers in the same states, and replicas
that differ at most in their leadership, in the order in which they came and in what they use of
anything but disks. Each replica of the one then has a partner in the other. As long as partners
move together, what can be counted or found on a broker is the same in both clusters.
-/

namespace Rebalance

/-- What the placement tells about a replica: its partition, where it was placed first, where it is
and how much of the disk it uses. -/
def Replica.site (r : Replica) : TopicPartition × BrokerId × BrokerId × Option Int :=
  (r.partition, r.home, r.broker, r.load.disk.position)

section

variable {r r' : Replica} (h : r.site = r'.site)

include h

theorem Replica.partition_of_site : r.partition = r'.partition := congrArg Prod.fst h

theorem Replica.broker_of_site : r.broker = r'.broker := congrArg (·.2.2.1) h

theorem Replica.disk_of_site : r.load.disk.position = r'.load.disk.position := congrArg (·.2.2.2) h

theorem Replica.isImmigrant_of_site : r.isImmigrant = r'.isImmigrant := by
  rw [isImmigrant, isImmigrant, broker_of_site h, show r.home = r'.home from congrArg (·.2.1) h]

/-- Replicas that move to the same broker remain alike. -/
theorem Replica.site_moved (d : BrokerId) :
    ({ r with broker := d } : Replica).site = ({ r' with broker := d } : Replica).site :=
  congrArg (fun x ↦ (x.1, x.2.1, d, x.2.2.2)) h

end

/-- Brokers that are told apart neither by their states nor by what is on them. -/
structure Broker.Matches (b b' : Broker) : Prop where
  id : b'.id = b.id
  state : b'.state = b.state
  count : b'.count = b.count
  hosts : ∀ tp, b'.hosts tp = b.hosts tp
  immigrants : b'.immigrants.isEmpty = b.immigrants.isEmpty

theorem Broker.Matches.isAlive {b b' : Broker} (h : b.Matches b') : b'.isAlive = b.isAlive := by
  rw [Broker.isAlive, Broker.isAlive, h.state]

theorem Broker.Matches.isNew {b b' : Broker} (h : b.Matches b') : b'.isNew = b.isNew := by
  rw [Broker.isNew, Broker.isNew, h.state]

theorem Broker.Matches.fullness {b b' : Broker} (h : b.Matches b') :
    b'.fullness = b.fullness := by
  rw [Broker.fullness, Broker.fullness, h.count, h.id]

/-- What does not tell the members of two lists apart does not tell the lists apart. -/
theorem foldl_eq_of_forall₂ {α σ : Type} {rel : α → α → Prop} {f : σ → α → σ} {as bs : List α}
    (hf : ∀ s a b, rel a b → f s b = f s a) (h : List.Forall₂ rel as bs) (s : σ) :
    bs.foldl f s = as.foldl f s := by
  refine (List.rel_foldl (P := Eq) ?_ rfl h).symm
  rintro s _ rfl a b hab
  exact (hf s a b hab).symm

theorem forall₂_filter {α β : Type} {rel : α → β → Prop} {p : α → Bool} {q : β → Bool} {as : List α}
    {bs : List β} (hpq : ∀ a b, rel a b → q b = p a) (h : List.Forall₂ rel as bs) :
    List.Forall₂ rel (as.filter p) (bs.filter q) :=
  List.rel_filter (fun a b hab ↦ Bool.eq_iff_iff.1 (hpq a b hab).symm) h

theorem map_eq_of_forall₂ {α β : Type} {rel : α → α → Prop} {f : α → β} {as bs : List α}
    (hf : ∀ a b, rel a b → f b = f a) (h : List.Forall₂ rel as bs) : bs.map f = as.map f := by
  have hmap : List.Forall₂ Eq (as.map f) (bs.map f) :=
    List.rel_map (fun a b hab ↦ (hf a b hab).symm) h
  rw [List.forall₂_eq_eq_eq] at hmap
  exact hmap.symm

/-- Lists that look the same correspond one by one. -/
theorem forall₂_of_map_eq {α β γ : Type} {rel : α → β → Prop} {f : α → γ} {f' : β → γ} {as : List α}
    {bs : List β} (h : as.map f = bs.map f')
    (hrel : ∀ a ∈ as, ∀ b ∈ bs, f a = f' b → rel a b) : List.Forall₂ rel as bs := by
  rw [← List.forall₂_eq_eq_eq, List.forall₂_map_left_iff, List.forall₂_map_right_iff] at h
  rw [List.forall₂_iff_get] at h ⊢
  exact ⟨h.1, fun n hn hn' ↦ hrel _ (List.get_mem ..) _ (List.get_mem ..) (h.2 n hn hn')⟩

/-- Ordered lists of partners, where partners are in the same order, correspond one by one. -/
theorem forall₂_of_pairwise {α β : Type} {lt : α → α → Prop} {lt' : β → β → Prop}
    {rel : α → β → Prop} {as : List α} {bs : List β}
    (hasymm : ∀ {a a'}, lt a a' → ¬ lt a' a)
    (hrel : ∀ {a a' b b'}, rel a b → rel a' b' → (lt a a' ↔ lt' b b'))
    (has : as.Pairwise lt) (hbs : bs.Pairwise lt') (hleft : ∀ a ∈ as, ∃ b ∈ bs, rel a b)
    (hright : ∀ b ∈ bs, ∃ a ∈ as, rel a b) : List.Forall₂ rel as bs := by
  induction as generalizing bs with
  | nil =>
    cases bs with
    | nil => exact .nil
    | cons b bs =>
      obtain ⟨a, ha, -⟩ := hright b List.mem_cons_self
      exact absurd ha List.not_mem_nil
  | cons a as ih =>
    obtain ⟨b₁, hb₁, hab₁⟩ := hleft a List.mem_cons_self
    cases bs with
    | nil => exact absurd hb₁ List.not_mem_nil
    | cons b bs =>
      rw [List.pairwise_cons] at has hbs
      -- The partner of the one that is first cannot come after the other one.
      have hab : rel a b := by
        obtain ⟨a₁, ha₁, ha₁b⟩ := hright b List.mem_cons_self
        rcases List.mem_cons.1 hb₁ with rfl | hb₁
        · exact hab₁
        · rcases List.mem_cons.1 ha₁ with rfl | ha₁
          · exact ha₁b
          · exact absurd ((hrel ha₁b hab₁).2 (hbs.1 b₁ hb₁)) (hasymm (has.1 a₁ ha₁))
      have hirrefl : ∀ {a}, ¬ lt a a := fun h ↦ hasymm h h
      refine .cons hab (ih has.2 hbs.2 (fun a' ha' ↦ ?_) fun b' hb' ↦ ?_)
      · obtain ⟨b', hb', hab'⟩ := hleft a' (List.mem_cons_of_mem _ ha')
        rcases List.mem_cons.1 hb' with rfl | hb'
        · exact absurd ((hrel hab hab').1 (has.1 a' ha')) (mt (hrel hab hab).2 hirrefl)
        · exact ⟨b', hb', hab'⟩
      · obtain ⟨a', ha', hab'⟩ := hright b' (List.mem_cons_of_mem _ hb')
        rcases List.mem_cons.1 ha' with rfl | ha'
        · exact absurd ((hrel hab hab').2 (hbs.1 b' hb')) hirrefl
        · exact ⟨a', ha', hab'⟩

namespace Cluster

variable {measured measured' : Resource → Prop} {pair : ReplicaId → ReplicaId → Prop}
  {c c' : Cluster} {id d : BrokerId} {tp : TopicPartition} {i j i' j' : ReplicaId}
  {r r' : Replica} {b b' : Broker}

/-- Two clusters tell the same of their brokers and, in whatever order, of their replicas. -/
structure SamePlacement (c c' : Cluster) : Prop where
  states_eq : c'.states = c.states
  sites_perm : (c'.replicas.map Replica.site).Perm (c.replicas.map Replica.site)

/-- Every replica has a partner in the other cluster that is alike. -/
structure Paired (pair : ReplicaId → ReplicaId → Prop) (c c' : Cluster) : Prop where
  states_eq : c'.states = c.states
  left : ∀ i r, c.replica? i = some r → ∃ j, pair i j
  right : ∀ j r', c'.replica? j = some r' → ∃ i, pair i j
  alike : ∀ i j, pair i j →
    ∃ r r', c.replica? i = some r ∧ c'.replica? j = some r' ∧ r.site = r'.site

/-- In clusters of the same placement those are partners that are alike. -/
theorem SamePlacement.exists_paired (h : c.SamePlacement c') : ∃ pair, Paired pair c c' := by
  refine ⟨fun i j ↦ ∃ r r', c.replica? i = some r ∧ c'.replica? j = some r' ∧ r.site = r'.site,
    h.states_eq, fun i r hr ↦ ?_, fun j r' hr' ↦ ?_, fun _ _ ↦ id⟩
  · have hmem := h.sites_perm.mem_iff.2 (List.mem_map_of_mem (List.mem_of_getElem? hr))
    obtain ⟨r', hmem, hsite⟩ := List.mem_map.1 hmem
    obtain ⟨j, hj⟩ := List.mem_iff_getElem?.1 hmem
    exact ⟨j, r, r', hr, hj, hsite.symm⟩
  · have hmem := h.sites_perm.mem_iff.1 (List.mem_map_of_mem (List.mem_of_getElem? hr'))
    obtain ⟨r, hmem, hsite⟩ := List.mem_map.1 hmem
    obtain ⟨i, hi⟩ := List.mem_iff_getElem?.1 hmem
    exact ⟨i, r, r', hi, hr', hsite⟩

namespace Paired

variable (h : Paired pair c c') (hs : c.Stable measured) (hs' : c'.Stable measured')

include h

theorem symm : Paired (fun j i ↦ pair i j) c' c where
  states_eq := h.states_eq.symm
  left := h.right
  right := h.left
  alike j i hij := by
    obtain ⟨r, r', hr, hr', hsite⟩ := h.alike i j hij
    exact ⟨r', r, hr', hr, hsite.symm⟩

theorem site_eq (hij : pair i j) (hr : c.replica? i = some r) (hr' : c'.replica? j = some r') :
    r.site = r'.site := by
  obtain ⟨r₁, r₁', hr₁, hr₁', hsite⟩ := h.alike i j hij
  rw [hr] at hr₁
  rw [hr'] at hr₁'
  obtain rfl := Option.some.inj hr₁
  obtain rfl := Option.some.inj hr₁'
  exact hsite

/-- No replica has two partners. -/
theorem right_unique (hs' : c'.Stable measured') (hij : pair i j) (hij' : pair i j') : j = j' := by
  obtain ⟨r, r', hr, hr', hsite⟩ := h.alike i j hij
  obtain ⟨r₁, r₁', hr₁, hr₁', hsite₁⟩ := h.alike i j' hij'
  rw [hr] at hr₁
  obtain rfl := Option.some.inj hr₁
  have hsame := hsite.symm.trans hsite₁
  exact hs'.eq_of_same_place hr' hr₁' (Replica.partition_of_site hsame)
    (Replica.broker_of_site hsame)

theorem left_unique (hs : c.Stable measured) (hij : pair i j) (hij' : pair i' j) : i = i' :=
  h.symm.right_unique hs hij hij'

/-! ### On brokers -/

/-- The partner of what is on a broker is there too. -/
theorem exists_on (hs : c.Sound) (hs' : c'.Stable measured') (hon : c.On id i r) :
    ∃ j r', pair i j ∧ c'.On id j r' ∧ r.site = r'.site := by
  obtain ⟨j, hij⟩ := h.left i r hon.replica?_eq
  obtain ⟨r₁, r', hr₁, hr', hsite⟩ := h.alike i j hij
  obtain rfl := hon.eq_of_replica? hr₁
  have hon' := hs'.complete j r' hr'
  rw [← Replica.broker_of_site hsite, hs.broker_of_on hon] at hon'
  exact ⟨j, r', hij, hon', hsite⟩

include hs hs'

theorem hosts_iff : c'.Hosts id tp ↔ c.Hosts id tp := by
  constructor
  · rintro ⟨j, r', hon, rfl⟩
    obtain ⟨i, r, -, hon', hsite⟩ := h.symm.exists_on hs'.toSound hs hon
    exact ⟨i, r, hon', (Replica.partition_of_site hsite).symm⟩
  · rintro ⟨i, r, hon, rfl⟩
    obtain ⟨j, r', -, hon', hsite⟩ := h.exists_on hs.toSound hs' hon
    exact ⟨j, r', hon', (Replica.partition_of_site hsite).symm⟩

theorem hasImmigrant_iff : c'.HasImmigrant id ↔ c.HasImmigrant id := by
  constructor
  · rintro ⟨j, r', hon, himm⟩
    obtain ⟨i, r, -, hon', hsite⟩ := h.symm.exists_on hs'.toSound hs hon
    exact ⟨i, r, hon', (Replica.isImmigrant_of_site hsite).symm.trans himm⟩
  · rintro ⟨i, r, hon, himm⟩
    obtain ⟨j, r', -, hon', hsite⟩ := h.exists_on hs.toSound hs' hon
    exact ⟨j, r', hon', (Replica.isImmigrant_of_site hsite).symm.trans himm⟩

theorem matches_of_mem (hb : b ∈ c.brokers) (hb' : b' ∈ c'.brokers) (hid : b'.id = b.id)
    (hstate : b'.state = b.state) : b.Matches b' := by
  have hhosts : ∀ tp, b'.hosts tp = b.hosts tp := fun tp ↦ by
    rw [Bool.eq_iff_iff, hs.hosts_iff hb, hs'.hosts_iff hb', hid]
    exact h.hosts_iff hs hs'
  refine ⟨hid, hstate, ?_, hhosts, ?_⟩
  · have hkeys : b'.hosted.keys.Perm b.hosted.keys := by
      refine (List.perm_ext_iff_of_nodup (hs'.distinct b' hb') (hs.distinct b hb)).2 fun tp ↦ ?_
      rw [← Broker.hosts_iff, ← Broker.hosts_iff, hhosts]
    have hlen := hkeys.length_eq
    unfold Roster.keys at hlen
    rwa [List.length_map, List.length_map] at hlen
  · have himm : ¬ c'.HasImmigrant b.id ↔ ¬ c.HasImmigrant b.id :=
      not_congr (h.hasImmigrant_iff hs hs')
    rw [hs.toSound.hasImmigrant_iff (hs.broker?_of_mem hb),
      hs'.toSound.hasImmigrant_iff (hid ▸ hs'.broker?_of_mem hb'), not_not, not_not] at himm
    rw [Bool.eq_iff_iff, List.isEmpty_iff, List.isEmpty_iff]
    exact himm

/-- The brokers correspond one by one. -/
theorem brokers : List.Forall₂ Broker.Matches c.brokers c'.brokers := by
  have hstates := h.states_eq.symm
  unfold states at hstates
  refine forall₂_of_map_eq hstates fun b hb b' hb' heq ↦ ?_
  obtain ⟨hid, hstate⟩ := Prod.mk.inj heq
  exact h.matches_of_mem hs hs' hb hb' hid.symm hstate.symm

theorem aliveBrokers : List.Forall₂ Broker.Matches c.aliveBrokers c'.aliveBrokers :=
  forall₂_filter (fun _ _ hb ↦ hb.isAlive) (h.brokers hs hs')

theorem deadBrokers : List.Forall₂ Broker.Matches c.deadBrokers c'.deadBrokers :=
  forall₂_filter (fun _ _ hb ↦ congrArg not hb.isAlive) (h.brokers hs hs')

theorem exists_matches (hb : c.broker? id = some b) :
    ∃ b', c'.broker? id = some b' ∧ b.Matches b' := by
  obtain ⟨b', hb'⟩ := exists_broker?_of_states h.states_eq hb
  have hstate := state?_congr h.states_eq id
  rw [state?, state?, hb, hb', Option.map_some, Option.map_some] at hstate
  refine ⟨b', hb', h.matches_of_mem hs hs' (mem_of_broker? hb) (mem_of_broker? hb') ?_
    (Option.some.inj hstate)⟩
  rw [id_of_broker? hb, id_of_broker? hb']

theorem broker?_rel (id : BrokerId) :
    Option.Rel Broker.Matches (c.broker? id) (c'.broker? id) := by
  cases hb : c.broker? id with
  | none =>
    cases hb' : c'.broker? id with
    | none => exact .none
    | some b' =>
      obtain ⟨b, hsome⟩ := exists_broker?_of_states h.states_eq.symm hb'
      rw [hb] at hsome
      cases hsome
  | some b =>
    obtain ⟨b', hb', hmatches⟩ := h.exists_matches hs hs' hb
    rw [hb']
    exact .some hmatches

theorem agree_broker (id : BrokerId) : Agree Broker.Matches (c.broker id) (c'.broker id) := by
  have hrel := h.broker?_rel hs hs' id
  unfold broker
  generalize c.broker? id = x, c'.broker? id = x' at hrel ⊢
  cases hrel with
  | none => exact rfl
  | some hmatches => exact hmatches

theorem count_eq (id : BrokerId) : c'.count id = c.count id := by
  have hrel := h.broker?_rel hs hs' id
  unfold count
  generalize c.broker? id = x, c'.broker? id = x' at hrel ⊢
  cases hrel with
  | none => rfl
  | some hmatches => exact hmatches.count

theorem mustStay_eq (hij : pair i j) (topics : List String) :
    (c'.replica? j).any (c'.mustStay topics) = (c.replica? i).any (c.mustStay topics) := by
  obtain ⟨r, r', hr, hr', hsite⟩ := h.alike i j hij
  have halive : (c'.broker? r.broker).any Broker.isAlive =
      (c.broker? r.broker).any Broker.isAlive := by
    have hrel := h.broker?_rel hs hs' r.broker
    generalize c.broker? r.broker = x, c'.broker? r.broker = x' at hrel ⊢
    cases hrel with
    | none => rfl
    | some hmatches => exact hmatches.isAlive
  rw [hr, hr', Option.any_some, Option.any_some, mustStay, mustStay,
    ← Replica.partition_of_site hsite, ← Replica.broker_of_site hsite, halive]

/-! ### Views -/

/-- Views that admit what is alike, and order it in the same way, show partners. -/
theorem forall₂_replicas {criteria : Criteria} {v v' : View}
    (hadmits : ∀ {r r'}, r.site = r'.site → criteria.admits r' = criteria.admits r)
    (hrank : ∀ {r r' r₁ r₁'}, r.site = r'.site → r₁.site = r₁'.site →
      (criteria.rank r < criteria.rank r₁ ↔ criteria.rank r' < criteria.rank r₁'))
    (hv : v.Shows (c.On id)) (hv' : v'.Shows (c'.On id)) (hcriteria : v.criteria = criteria)
    (hcriteria' : v'.criteria = criteria) : List.Forall₂ pair v.replicas v'.replicas := by
  have hordered : ∀ {c : Cluster} {v : View}, v.Shows (c.On id) → v.criteria = criteria →
      v.replicas.Pairwise fun i i' ↦ ∃ r r', c.replica? i = some r ∧ c.replica? i' = some r' ∧
        criteria.rank r < criteria.rank r' := by
    rintro c v hv rfl
    refine (hv.pairwise_replicas ?_).imp_of_mem ?_
    · intro i r r' hon hon'
      exact Option.some.inj (hon.replica?_eq.symm.trans hon'.replica?_eq)
    · intro i i' hi hi' hlt
      obtain ⟨r, hon, -⟩ := hv.mem_replicas.1 hi
      obtain ⟨r', hon', -⟩ := hv.mem_replicas.1 hi'
      exact ⟨r, r', hon.replica?_eq, hon'.replica?_eq, hlt r r' hon hon'⟩
  refine forall₂_of_pairwise ?_ ?_ (hordered hv hcriteria) (hordered hv' hcriteria') ?_ ?_
  · rintro i i' ⟨r, r', hr, hr', hlt⟩ ⟨r₁', r₁, hr₁', hr₁, hgt⟩
    rw [hr] at hr₁
    rw [hr'] at hr₁'
    obtain rfl := Option.some.inj hr₁
    obtain rfl := Option.some.inj hr₁'
    exact Rank.lt_irrefl _ (Rank.lt_trans hlt hgt)
  · intro i i' j j' hij hij'
    obtain ⟨r, r', hr, hr', hsite⟩ := h.alike i j hij
    obtain ⟨r₁, r₁', hr₁, hr₁', hsite₁⟩ := h.alike i' j' hij'
    simp only [hr, hr', hr₁, hr₁', Option.some.injEq, exists_and_left, exists_eq_left']
    exact hrank hsite hsite₁
  · intro i hi
    obtain ⟨r, hon, hadm⟩ := hv.mem_replicas.1 hi
    obtain ⟨j, r', hij, hon', hsite⟩ := h.exists_on hs.toSound hs' hon
    rw [hcriteria, ← hadmits hsite, ← hcriteria'] at hadm
    exact ⟨j, hv'.mem_replicas.2 ⟨r', hon', hadm⟩, hij⟩
  · intro j hj
    obtain ⟨r', hon, hadm⟩ := hv'.mem_replicas.1 hj
    obtain ⟨i, r, hij, hon', hsite⟩ := h.symm.exists_on hs'.toSound hs hon
    rw [hcriteria', ← hadmits hsite, ← hcriteria] at hadm
    exact ⟨i, hv.mem_replicas.2 ⟨r, hon', hadm⟩, hij⟩

/-! ### Moves -/

/-- Partners that move together remain partners. -/
protected theorem moved (hij : pair i j) (hr : c.replica? i = some r)
    (hr' : c'.replica? j = some r') (d : BrokerId) :
    Paired pair (c.moved i r d) (c'.moved j r' d) where
  states_eq := by rw [states_moved, states_moved, h.states_eq]
  left i' r₁ hr₁ := by
    by_cases hi : i' = i
    · exact ⟨j, hi ▸ hij⟩
    · rw [replica?_moved_of_ne hi] at hr₁
      exact h.left i' r₁ hr₁
  right j' r₁ hr₁ := by
    by_cases hj : j' = j
    · exact ⟨i, hj ▸ hij⟩
    · rw [replica?_moved_of_ne hj] at hr₁
      exact h.right j' r₁ hr₁
  alike i' j' hij' := by
    by_cases hi : i' = i
    · subst hi
      obtain rfl := h.right_unique hs' hij hij'
      exact ⟨_, _, replica?_moved_self hr d, replica?_moved_self hr' d,
        Replica.site_moved (h.site_eq hij hr hr') d⟩
    · have hj : j' ≠ j := by
        rintro rfl
        exact hi (h.left_unique hs hij' hij)
      rw [replica?_moved_of_ne hi, replica?_moved_of_ne hj]
      exact h.alike i' j' hij'

end Paired

/-- Where replicas and states stay, partners remain partners. -/
theorem Paired.of_same {c₁ c₁' : Cluster} (h : Paired pair c c')
    (hreplicas : c₁.replicas = c.replicas) (hreplicas' : c₁'.replicas = c'.replicas)
    (hstates : c₁.states = c.states) (hstates' : c₁'.states = c'.states) :
    Paired pair c₁ c₁' := by
  have hr : ∀ i, c₁.replica? i = c.replica? i := fun i ↦ by rw [replica?, hreplicas, replica?]
  have hr' : ∀ j, c₁'.replica? j = c'.replica? j := fun j ↦ by rw [replica?, hreplicas', replica?]
  refine ⟨hstates'.trans (h.states_eq.trans hstates.symm), ?_, ?_, ?_⟩
  · simpa only [hr] using h.left
  · simpa only [hr'] using h.right
  · simpa only [hr, hr'] using h.alike

/-- In a stable cluster whatever is there can move to any broker without its partition. -/
theorem Stable.movable (h : c.Stable measured) (hr : c.replica? i = some r)
    (hd : c.broker? d = some b) (hvacant : b.hosts r.partition = false) : c.Movable i r d where
  on := h.complete i r hr
  vacant := ⟨b, hd, hvacant⟩
  found b' hb' := (h.orderly b' (mem_of_broker? hb')).found r.partition

end Cluster

end Rebalance
