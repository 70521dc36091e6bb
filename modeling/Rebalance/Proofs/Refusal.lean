import Rebalance.Proofs.Cluster.Trail
import Rebalance.Proofs.Leadership

/-!
# Moves are all or nothing

A relocation, and the passing of a leadership, are refused for reasons that can be told from the
cluster beforehand, and whatever is refused changes nothing. A relocation that is not refused
changes where one replica is, what its two brokers have and show, and nothing else.
-/

namespace Rebalance

namespace Fault

/-- A broker that is asked for is not there. -/
def IsUnknown : Fault → Prop
  | unknownBroker _ => True
  | _ => False

/-- A broker has a replica that it should not have, or lacks one that it should have. -/
def IsConflict : Fault → Prop
  | alreadyHosted _ _ | notHosted _ _ => True
  | _ => False

end Fault

namespace Cluster

variable {measured : Resource → Prop} {c c' : Cluster} {tp : TopicPartition} {s d id : BrokerId}
  {b : Broker} {i j : ReplicaId} {r : Replica} {f f' : Fault}

/-- A broker is there. -/
def Known (c : Cluster) (id : BrokerId) : Prop := ∃ b, c.broker? id = some b

theorem not_known_iff : ¬ c.Known id ↔ c.broker? id = none := by
  rw [Known, ← Option.isSome_iff_exists, Bool.not_eq_true, Option.isSome_eq_false_iff,
    Option.isNone_iff_eq_none]

theorem Sound.hosts_iff_of_broker? (h : c.Sound) (hb : c.broker? id = some b) :
    b.hosts tp = true ↔ c.Hosts id tp := by
  rw [h.hosts_iff (mem_of_broker? hb), id_of_broker? hb]

theorem Sound.known_of_hosts (h : c.Sound) (hhosts : c.Hosts id tp) : c.Known id := by
  obtain ⟨i, r, hon, -⟩ := hhosts
  exact h.exists_broker?_of_on hon

/-! ## Copies by reference -/

/-- The references to the copies of a partition, in order of placement. -/
def members (c : Cluster) (tp : TopicPartition) : List ReplicaId :=
  ((c.replicas.map Replica.partition).zipIdx.filter (·.1 = tp)).map Prod.snd

/-- The copies of a partition are what its members stand for. -/
theorem copies_eq_members (c : Cluster) (tp : TopicPartition) :
    c.copies tp = (c.members tp).filterMap c.replica? := by
  have hmem : ∀ e ∈ c.replicas.zipIdx, c.replica? e.2 = some e.1 := fun e he ↦
    List.mem_zipIdx_iff_getElem?.1 he
  have hcopies : c.copies tp = (c.replicas.zipIdx.filter (·.1.partition = tp)).map Prod.fst := by
    rw [copies, ← List.zipIdx_map_fst 0 c.replicas, List.filter_map, List.zipIdx_map_fst]
    rfl
  rw [members, List.zipIdx_map, List.filter_map, List.map_map, List.filterMap_map, hcopies,
    ← List.filterMap_eq_map]
  exact List.filterMap_congr fun e he ↦ (hmem e (List.mem_filter.1 he).1).symm

theorem members_moved (hr : c.replica? i = some r) (d : BrokerId) (tp : TopicPartition) :
    (c.moved i r d).members tp = c.members tp := by
  rw [members, map_replicas_moved (fun _ _ ↦ rfl) hr d, members]

/-! ## Relocations -/

/-- What stands in the way of a relocation. A broker that hosts the partition cannot receive it, be
it the source itself. -/
inductive Barred (c : Cluster) (tp : TopicPartition) (s d : BrokerId) : Fault → Prop where
  | unknownSource : ¬ c.Known s → Barred c tp s d (.unknownBroker s)
  | unknownDestination : c.Known s → ¬ c.Known d → Barred c tp s d (.unknownBroker d)
  | occupied : c.Known s → c.Known d → c.Hosts d tp → Barred c tp s d (.alreadyHosted d tp)
  | absent : c.Known s → c.Known d → ¬ c.Hosts d tp → ¬ c.Hosts s tp →
    Barred c tp s d (.notHosted s tp)

namespace Barred

/-- Only one thing is named that stands in the way. -/
theorem unique (h : c.Barred tp s d f) (h' : c.Barred tp s d f') : f = f' := by
  cases h <;> cases h' <;> first | rfl | contradiction

theorem exists_unknown_iff :
    (∃ f, c.Barred tp s d f ∧ f.IsUnknown) ↔ ¬ c.Known s ∨ ¬ c.Known d := by
  constructor
  · rintro ⟨f, hbarred, hunknown⟩
    cases hbarred with
    | unknownSource hs => exact .inl hs
    | unknownDestination _ hd => exact .inr hd
    | occupied => exact hunknown.elim
    | absent => exact hunknown.elim
  · intro hunknown
    by_cases hs : c.Known s
    · exact ⟨_, .unknownDestination hs (hunknown.resolve_left (not_not_intro hs)), trivial⟩
    · exact ⟨_, .unknownSource hs, trivial⟩

theorem exists_conflict_iff : (∃ f, c.Barred tp s d f ∧ f.IsConflict) ↔
    c.Known s ∧ c.Known d ∧ (c.Hosts d tp ∨ ¬ c.Hosts s tp) := by
  constructor
  · rintro ⟨f, hbarred, hconflict⟩
    cases hbarred with
    | unknownSource => exact hconflict.elim
    | unknownDestination => exact hconflict.elim
    | occupied hs hd hhosts => exact ⟨hs, hd, .inl hhosts⟩
    | absent hs hd _ habsent => exact ⟨hs, hd, .inr habsent⟩
  · rintro ⟨hs, hd, hconflict⟩
    by_cases hhosts : c.Hosts d tp
    · exact ⟨_, .occupied hs hd hhosts, trivial⟩
    · exact ⟨_, .absent hs hd hhosts (hconflict.resolve_left hhosts), trivial⟩

end Barred

/-- What may move is not barred. -/
theorem Movable.not_barred (h : c.Sound) (hm : c.Movable i r d) :
    ¬ c.Barred r.partition r.broker d f := by
  obtain ⟨b, hb, hvacant⟩ := hm.vacant
  have hhosts : c.Hosts r.broker r.partition := ⟨i, r, hm.on, rfl⟩
  intro hbarred
  cases hbarred with
  | unknownSource hs => exact hs (h.known_of_hosts hhosts)
  | unknownDestination _ hd => exact hd ⟨b, hb⟩
  | occupied _ _ hocc =>
    rw [(h.hosts_iff_of_broker? hb).2 hocc] at hvacant
    cases hvacant
  | absent _ _ _ habsent => exact habsent hhosts

/-- Where no view can lose an entry, what is refused was barred. -/
theorem Stable.barred_of_refused (h : c.Stable measured) (hf : Refused c tp s d f c') :
    c.Barred tp s d f := by
  cases hf with
  | unknownSource hs => exact .unknownSource (not_known_iff.2 hs)
  | unknownDestination hs hd => exact .unknownDestination ⟨_, hs⟩ (not_known_iff.2 hd)
  | occupied hs hd hocc =>
    exact .occupied ⟨_, hs⟩ ⟨_, hd⟩ ((h.hosts_iff_of_broker? hd).1 hocc)
  | absent hs hd hvacant habsent =>
    refine .absent ⟨_, hs⟩ ⟨_, hd⟩ ?_ ?_
    · rwa [← h.hosts_iff_of_broker? hd, Bool.not_eq_true]
    · rwa [← h.hosts_iff_of_broker? hs, Bool.not_eq_true]
  | lost hs _ _ _ hlost =>
    rw [(h.orderly _ (mem_of_broker? hs)).found tp] at hlost
    cases hlost

/-- A relocation fails exactly where it is barred, and then leaves all as it was. -/
theorem relocate_eq_error_iff (h : c.Stable measured) :
    relocate tp s d c = .error f c' ↔ c.Barred tp s d f ∧ c' = c := by
  have hends := (ends_relocate h.toSound tp s d).mono (fun _ _ ↦ id) fun f c' hf ↦
    And.intro (h.barred_of_refused hf) (h.eq_of_refused hf)
  refine hends.error_iff ?_ ?_
  · rintro - - ⟨i, r, rfl, rfl, hm, -⟩ ⟨hbarred, -⟩
    exact hm.not_barred h.toSound hbarred
  · rintro f' _ ⟨hbarred', rfl⟩ ⟨hbarred, rfl⟩
    exact ⟨hbarred'.unique hbarred, rfl⟩

/-- A replica went from one broker to another, and nothing changed but where it is, what the two
brokers have, and which of that is an immigrant or shown in their views. -/
structure Relocated (c : Cluster) (tp : TopicPartition) (s d : BrokerId) (i : ReplicaId)
    (r : Replica) (c' : Cluster) : Prop where
  on : c.On s i r
  partition : r.partition = tp
  replicas : c'.replicas = c.replicas.set i { r with broker := d }
  members : ∀ tp, c'.members tp = c.members tp
  ids : c'.brokers.map Broker.id = c.brokers.map Broker.id
  others : ∀ id, id ≠ s → id ≠ d → c'.broker? id = c.broker? id
  source : ∃ b, c.broker? s = some b ∧ c'.broker? s = some { b with
    hosted := b.hosted.filter (·.1 ≠ tp)
    immigrants := b.immigrants.filter (·.1 ≠ tp)
    views := b.views.map fun e ↦ (e.1, e.2.erase tp) }
  destination : ∃ b, c.broker? d = some b ∧ c'.broker? d = some { b with
    hosted := b.hosted ++ [(tp, i)]
    immigrants := if d = r.home then b.immigrants else b.immigrants ++ [(tp, i)]
    views := b.views.map fun e ↦ (e.1, e.2.insert i { r with broker := d }) }

theorem Movable.relocated (h : c.Sound) (hm : c.Movable i r d) :
    c.Relocated r.partition r.broker d i r (c.moved i r d) where
  on := hm.on
  partition := rfl
  replicas := rfl
  members := members_moved hm.on.replica?_eq d
  ids := map_brokers_congr rfl Broker.id (Broker.id_onMove i r d)
  others id hs hd := by
    rw [broker?_moved]
    cases hb : c.broker? id with
    | none => rfl
    | some b =>
      rw [← id_of_broker? hb] at hs hd
      rw [Option.map_some, Broker.onMove_other hs hd]
  source := by
    obtain ⟨b, hb⟩ := h.exists_broker?_of_on hm.on
    refine ⟨b, hb, ?_⟩
    have hviews := Broker.dropFromViews_of_found (hm.found b hb)
    rw [broker?_moved, hb, Option.map_some, Broker.onMove_source (id_of_broker? hb),
      ← Roster.without_eq_filter, ← Roster.without_eq_filter, ← hviews]
    rfl
  destination := by
    obtain ⟨b, hb, -⟩ := hm.vacant
    have hid := id_of_broker? hb
    have hs : b.id ≠ r.broker := fun hs ↦ hm.source_ne h (hs.symm.trans hid)
    refine ⟨b, hb, ?_⟩
    rw [broker?_moved, hb, Option.map_some, ← hm.hosted_destination h (mem_of_broker? hb) hid,
      ← hm.immigrants_destination h (mem_of_broker? hb) hid, Broker.onMove_destination hs hid]
    rfl

/-! ## Leaderships -/

/-- Why the replica of a partition cannot be looked up on a broker. -/
inductive Missing (c : Cluster) (tp : TopicPartition) (id : BrokerId) : Fault → Prop where
  | unknown : ¬ c.Known id → Missing c tp id (.unknownBroker id)
  | absent : c.Known id → ¬ c.Hosts id tp → Missing c tp id (.notHosted id tp)

/-- The replica of a partition on a broker leads. -/
def LeadsFrom (c : Cluster) (id : BrokerId) (tp : TopicPartition) : Prop :=
  ∃ i r, c.On id i r ∧ r.partition = tp ∧ r.leads = true

namespace Missing

theorem unique (h : c.Missing tp id f) (h' : c.Missing tp id f') : f = f' := by
  cases h <;> cases h' <;> first | rfl | contradiction

theorem not_hosts (h : c.Sound) (hmissing : c.Missing tp id f) : ¬ c.Hosts id tp := by
  intro hhosts
  cases hmissing with
  | unknown hnone => exact hnone (h.known_of_hosts hhosts)
  | absent _ habsent => exact habsent hhosts

end Missing

theorem LeadsFrom.hosts (h : c.LeadsFrom id tp) : c.Hosts id tp := by
  obtain ⟨i, r, hon, hp, -⟩ := h
  exact ⟨i, r, hon, hp⟩

theorem Sound.missing_of_hostedAt (h : c.Sound) (hf : c.hostedAt tp id = .error f) :
    c.Missing tp id f := by
  unfold hostedAt at hf
  cases hb : c.broker id with
  | error f' =>
    rw [hb] at hf
    cases hf
    obtain ⟨hnone, rfl⟩ := broker_eq_error_iff.1 hb
    exact .unknown (not_known_iff.2 hnone)
  | ok b =>
    rw [hb] at hf
    dsimp only at hf
    rw [broker_eq_ok_iff] at hb
    cases he : b.hosted.entry? tp with
    | some j =>
      rw [he] at hf
      cases hf
    | none =>
      rw [he] at hf
      cases hf
      refine .absent ⟨b, hb⟩ ?_
      rw [← h.hosts_iff_of_broker? hb, Broker.hosts, Roster.has, he]
      exact Bool.false_ne_true

/-- A leadership is passed by a copy that leads to one that is there. The second one is looked up
only if the first one leads. -/
theorem Sound.ends_passLeadership (h : c.Sound) (tp : TopicPartition) (s d : BrokerId) :
    Ends (passLeadership tp s d) c
      (fun passed c' ↦ passed = false ∧ (c.Hosts s tp ∧ ¬ c.LeadsFrom s tp) ∧ c' = c ∨
        passed = true ∧ (c.LeadsFrom s tp ∧ c.Hosts d tp) ∧ c.Passed tp s d c')
      fun f c' ↦ (c.Missing tp s f ∨ c.LeadsFrom s tp ∧ c.Missing tp d f) ∧ c' = c := by
  unfold passLeadership
  refine .bind (.get (.bind (.except (fun i hi ↦ ?_) fun f hf ↦
    ⟨.inl (h.missing_of_hostedAt hf), rfl⟩)))
  obtain ⟨r, hon, hp⟩ := h.on_of_hostedAt hi
  rw [hon.replica?_eq, Option.any_some]
  split
  · rename_i hleads
    have hleader : c.LeadsFrom s tp := ⟨i, r, hon, hp, hleads⟩
    refine .bind (.except (fun j hj ↦ .bind (.set (.pure (.inr ⟨rfl, ⟨hleader, ?_⟩, ?_⟩))))
      fun f hf ↦ ⟨.inr ⟨hleader, h.missing_of_hostedAt hf⟩, rfl⟩)
    · obtain ⟨r', hon', hp'⟩ := h.on_of_hostedAt hj
      exact ⟨j, r', hon', hp'⟩
    · exact ⟨i, r, j, hi, hon.replica?_eq, hleads, hj, rfl⟩
  · rename_i hfollows
    refine .pure (.inl ⟨rfl, ⟨⟨i, r, hon, hp⟩, ?_⟩, rfl⟩)
    rintro ⟨j, r', hon', hp', hleads⟩
    obtain rfl := h.on_unique hon hon' (hp.trans hp'.symm)
    obtain rfl := hon.eq_of_replica? hon'.replica?_eq
    exact hfollows hleads

theorem passLeadership_eq_error_iff (h : c.Sound) : passLeadership tp s d c = .error f c' ↔
    (c.Missing tp s f ∨ c.LeadsFrom s tp ∧ c.Missing tp d f) ∧ c' = c := by
  refine (h.ends_passLeadership tp s d).error_iff ?_ ?_
  · rintro - - (⟨-, ⟨hs, hleads⟩, -⟩ | ⟨-, ⟨hleads, hd⟩, -⟩) ⟨hmissing | ⟨hleads', hmissing⟩, -⟩
    · exact hmissing.not_hosts h hs
    · exact hleads hleads'
    · exact hmissing.not_hosts h hleads.hosts
    · exact hmissing.not_hosts h hd
  · rintro f' _ ⟨hmissing' | ⟨hleads', hmissing'⟩, rfl⟩ ⟨hmissing | ⟨hleads, hmissing⟩, rfl⟩
    · exact ⟨hmissing'.unique hmissing, rfl⟩
    · exact absurd hleads.hosts (hmissing'.not_hosts h)
    · exact absurd hleads'.hosts (hmissing.not_hosts h)
    · exact ⟨hmissing'.unique hmissing, rfl⟩

theorem passLeadership_eq_false_iff (h : c.Sound) : passLeadership tp s d c = .ok false c' ↔
    (c.Hosts s tp ∧ ¬ c.LeadsFrom s tp) ∧ c' = c := by
  constructor
  · intro hrun
    rcases (h.ends_passLeadership tp s d).of_ok hrun with ⟨-, hstays⟩ | ⟨⟨⟩, -⟩
    exact hstays
  · rintro ⟨⟨hhosts, hfollows⟩, rfl⟩
    cases hrun : passLeadership tp s d c' with
    | ok passed c'' =>
      rcases (h.ends_passLeadership tp s d).of_ok hrun with ⟨rfl, -, rfl⟩ | ⟨-, ⟨hleads, -⟩, -⟩
      · rfl
      · exact absurd hleads hfollows
    | error f c'' =>
      rcases (h.ends_passLeadership tp s d).of_error hrun with ⟨hmissing | ⟨hleads, -⟩, -⟩
      · exact absurd hhosts (hmissing.not_hosts h)
      · exact absurd hleads hfollows

end Cluster

open Cluster (relocate passLeadership)

/-- In every cluster that comes about by operations whose loads and views are measured, whatever the
arguments. A relocation is refused because a broker is unknown exactly if one of the two is, and
otherwise because of a conflict exactly if the destination has the partition or the source has not.
The passing of a leadership is refused exactly if a replica cannot be looked up, the second one
being looked up only where the first one leads. Whatever is refused, or tells that no leadership
passed, changes nothing; and a relocation that is done changes nothing beside what moves. -/
theorem moves_all_or_nothing {measured : Resource → Prop} {c : Cluster}
    (hc : c.Reachable measured) (tp : TopicPartition) (s d : BrokerId) :
    (∀ f c', relocate tp s d c = .error f c' ↔ c.Barred tp s d f ∧ c' = c) ∧
    ((∃ f, relocate tp s d c = .error f c ∧ f.IsUnknown) ↔ ¬ c.Known s ∨ ¬ c.Known d) ∧
    ((∃ f, relocate tp s d c = .error f c ∧ f.IsConflict) ↔
      c.Known s ∧ c.Known d ∧ (c.Hosts d tp ∨ ¬ c.Hosts s tp)) ∧
    (∀ c', relocate tp s d c = .ok () c' → ∃ i r, c.Relocated tp s d i r c') ∧
    (∀ f c', passLeadership tp s d c = .error f c' ↔
      (c.Missing tp s f ∨ c.LeadsFrom s tp ∧ c.Missing tp d f) ∧ c' = c) ∧
    ∀ c', passLeadership tp s d c = .ok false c' ↔
      (c.Hosts s tp ∧ ¬ c.LeadsFrom s tp) ∧ c' = c := by
  have hstable := hc.stable
  have herror : ∀ f c', relocate tp s d c = .error f c' ↔ c.Barred tp s d f ∧ c' = c :=
    fun f c' ↦ Cluster.relocate_eq_error_iff hstable
  refine ⟨herror, ?_, ?_, ?_, fun f c' ↦ Cluster.passLeadership_eq_error_iff hstable.toSound,
    fun c' ↦ Cluster.passLeadership_eq_false_iff hstable.toSound⟩
  · simp only [herror, and_true]
    exact Cluster.Barred.exists_unknown_iff
  · simp only [herror, and_true]
    exact Cluster.Barred.exists_conflict_iff
  · intro c' hrelocate
    obtain ⟨i, r, rfl, rfl, hm, rfl⟩ := hstable.exists_movable hrelocate
    exact ⟨i, r, hm.relocated hstable.toSound⟩

/-- Two of three brokers share a partition, which is led from the first. -/
def Operation.sharing : List Operation :=
  [.addBroker 0 none .alive, .addBroker 1 none .alive, .addBroker 2 none .alive,
    .place ⟨"a", 0⟩ 0 true {}, .place ⟨"a", 0⟩ 1 false {}, .track "v" { score := some .disk }]

/-- One copy cannot join the other, but can go where there is none. From the copy that does not lead
no leadership passes, even to a broker that is unknown; from the other one that is refused. -/
theorem moves_all_or_nothing_sharing :
    (Cluster.after Operation.sharing).Barred ⟨"a", 0⟩ 0 1 (.alreadyHosted 1 ⟨"a", 0⟩) ∧
    (∃ i r c', (Cluster.after Operation.sharing).Relocated ⟨"a", 0⟩ 1 2 i r c') ∧
    ¬ (Cluster.after Operation.sharing).LeadsFrom 1 ⟨"a", 0⟩ ∧
    (Cluster.after Operation.sharing).Missing ⟨"a", 0⟩ 3 (.unknownBroker 3) := by
  have hc : (Cluster.after Operation.sharing).Reachable fun _ ↦ True := by
    refine ⟨Operation.sharing, ?_, rfl⟩
    simp [Operation.sharing, Operation.IsMeasured, Load.isNumeric_default]
  have hpartner := moves_all_or_nothing hc ⟨"a", 0⟩ 0 1
  have hfree := moves_all_or_nothing hc ⟨"a", 0⟩ 1 2
  have hfollower := moves_all_or_nothing hc ⟨"a", 0⟩ 1 3
  have hleader := moves_all_or_nothing hc ⟨"a", 0⟩ 0 3
  refine ⟨?_, ?_, ?_, ?_⟩
  · obtain ⟨f, c', hrun, rfl, rfl⟩ := (by decide +kernel :
      Ends (relocate ⟨"a", 0⟩ 0 1) (Cluster.after Operation.sharing) (fun _ _ ↦ False)
        fun f c' ↦ f = .alreadyHosted 1 ⟨"a", 0⟩ ∧
          c' = Cluster.after Operation.sharing).exists_error
    exact ((hpartner.1 _ _).1 hrun).1
  · obtain ⟨_, c', hrun, -⟩ := (by decide +kernel :
      Ends (relocate ⟨"a", 0⟩ 1 2) (Cluster.after Operation.sharing) (fun _ _ ↦ True)
        fun _ _ ↦ False).exists_ok
    obtain ⟨i, r, hrelocated⟩ := hfree.2.2.2.1 c' hrun
    exact ⟨i, r, c', hrelocated⟩
  · obtain ⟨passed, c', hrun, rfl, rfl⟩ := (by decide +kernel :
      Ends (passLeadership ⟨"a", 0⟩ 1 3) (Cluster.after Operation.sharing)
        (fun passed c' ↦ passed = false ∧ c' = Cluster.after Operation.sharing)
        fun _ _ ↦ False).exists_ok
    exact ((hfollower.2.2.2.2.2 _).1 hrun).1.2
  · obtain ⟨f, c', hrun, rfl⟩ := (by decide +kernel :
      Ends (passLeadership ⟨"a", 0⟩ 0 3) (Cluster.after Operation.sharing) (fun _ _ ↦ False)
        fun f _ ↦ f = .unknownBroker 3).exists_error
    obtain ⟨hmissing | ⟨-, hmissing⟩, -⟩ := (hleader.2.2.2.2.1 _ _).1 hrun
    · cases hmissing
    · exact hmissing

end Rebalance
