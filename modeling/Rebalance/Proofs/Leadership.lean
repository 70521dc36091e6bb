import Mathlib.Data.List.Count
import Mathlib.Data.List.Sort
import Rebalance.Cluster.Placement
import Rebalance.Proofs.Cluster.Spread
import Rebalance.Proofs.History

/-!
# Leadership

A replica that moves keeps its role, and a leadership that passes makes two copies of a partition
change roles. So the roles of all replicas are permuted at most, and as many copies of each
partition lead after any operations as before. The leader of a partition is found in two ways: as
the first copy that leads, and at the head of the copies once those that lead come first.
-/

namespace Rebalance

/-- What a replica is a copy of, and whether it leads. -/
def Replica.role (r : Replica) : TopicPartition × Bool := (r.partition, r.leads)

namespace Cluster

variable {c c' : Cluster} {tp : TopicPartition} {id s d : BrokerId} {i : ReplicaId} {r r' : Replica}

/-- The roles of all replicas. -/
def roles (c : Cluster) : List (TopicPartition × Bool) := c.replicas.map Replica.role

/-- No partition has more than one copy that leads. -/
def Undisputed (c : Cluster) : Prop := ∀ tp, (c.copies tp).countP Replica.leads ≤ 1

instance (c : Cluster) : Decidable c.Undisputed :=
  decidable_of_iff _ (forall_copies_iff (P := fun rs ↦ rs.countP Replica.leads ≤ 1)
    (Nat.zero_le _)).symm

theorem countP_leads_copies (c : Cluster) (tp : TopicPartition) :
    (c.copies tp).countP Replica.leads = c.roles.count (tp, true) := by
  rw [copies, List.countP_filter, roles, List.count, List.countP_map]
  refine List.countP_congr fun r _ ↦ ?_
  simp only [Replica.role, Function.comp_apply, Bool.and_eq_true, decide_eq_true_eq, beq_iff_eq,
    Prod.mk.injEq]
  exact and_comm

theorem getElem?_roles (hr : c.replica? i = some r) : c.roles[i]? = some r.role := by
  rw [roles, List.getElem?_map]
  exact congrArg (Option.map _) hr

/-! ## Leaderships that pass -/

theorem Sound.on_of_hostedAt (h : c.Sound) (hi : c.hostedAt tp id = .ok i) :
    ∃ r, c.On id i r ∧ r.partition = tp := by
  unfold hostedAt at hi
  cases hb : c.broker id with
  | error f =>
    rw [hb] at hi
    cases hi
  | ok b =>
    rw [hb] at hi
    dsimp only at hi
    rw [broker_eq_ok_iff] at hb
    cases he : b.hosted.entry? tp with
    | none =>
      rw [he] at hi
      cases hi
    | some j =>
      rw [he] at hi
      cases hi
      rw [← id_of_broker? hb]
      exact h.on_of_mem_hosted (mem_of_broker? hb) (Roster.mem_of_entry_eq_some he)

theorem roles_setLeads (hr : c.replica? i = some r) (leads : Bool) :
    (c.setLeads i leads).roles = c.roles.set i (r.partition, leads) := by
  have hmodify : (c.setLeads i leads).roles = c.roles.modify i fun x ↦ (x.1, leads) := by
    refine List.ext_getElem? fun j ↦ ?_
    rw [roles, List.getElem?_map, List.getElem?_modify, roles, List.getElem?_map]
    change ((c.setLeads i leads).replica? j).map _ = _ <$> (c.replica? j).map _
    rw [replica?_setLeads, Option.map_map, Option.map_eq_map, Option.map_map]
    congr 1
    funext r
    rw [Function.comp_apply, Function.comp_apply]
    split <;> rfl
  rw [hmodify, List.modify_eq_set_getElem?, getElem?_roles hr]
  rfl

theorem Sound.roles_of_passed (h : c.Sound) (hp : c.Passed tp s d c') :
    ∃ i r j r', c.On s i r ∧ c.On d j r' ∧ r.role = (tp, true) ∧ r'.partition = tp ∧
      c'.On d j { r' with leads := true } ∧
      c'.roles = (c.roles.set i (tp, false)).set j (tp, true) := by
  obtain ⟨i, r, j, hi, hr, hleads, hj, rfl⟩ := hp
  obtain ⟨r₁, hon, rfl⟩ := h.on_of_hostedAt hi
  obtain ⟨r', hon', hpartition⟩ := h.on_of_hostedAt hj
  obtain rfl := hon.eq_of_replica? hr
  have hr' : ∃ leads, (c.setLeads i false).replica? j = some { r' with leads } := by
    rw [replica?_setLeads, hon'.replica?_eq, Option.map_some]
    split
    · exact ⟨false, rfl⟩
    · exact ⟨r'.leads, rfl⟩
  obtain ⟨leads, hr'⟩ := hr'
  refine ⟨i, r₁, j, r', hon, hon', Prod.ext rfl hleads, hpartition, ?_, ?_⟩
  · obtain ⟨b, hb, hid, hmem, -⟩ := hon'
    refine ⟨b, hb, hid, hmem, ?_⟩
    rw [replica?_setLeads, hr', Option.map_some, if_pos rfl]
  · rw [roles_setLeads hr', roles_setLeads hon.replica?_eq, hpartition]

/-- If no other copy led, the two copies between which a leadership passes change roles. -/
theorem Passed.roles_perm (h : c.Sound) (hone : c.Undisputed) (hp : c.Passed tp s d c') :
    c'.roles.Perm c.roles := by
  obtain ⟨i, r, j, r', hon, hon', hrole, hpartition, -, heq⟩ := h.roles_of_passed hp
  obtain ⟨hi, hgeti⟩ := List.getElem?_eq_some_iff.1 (getElem?_roles hon.replica?_eq)
  obtain ⟨hj, hgetj⟩ := List.getElem?_eq_some_iff.1 (getElem?_roles hon'.replica?_eq)
  rw [hrole] at hgeti
  rw [heq]
  by_cases hij : i = j
  · subst hij
    rw [List.set_set, ← hgeti, List.set_getElem_self]
  · -- Once the one copy that led is put aside, none is left that leads.
    have hnone : (tp, true) ∉ c.roles.set i (tp, false) := by
      have hcount := hone tp
      rw [countP_leads_copies] at hcount
      rw [← List.count_eq_zero, List.count_set hi, hgeti]
      simp only [beq_self_eq_true, if_true, beq_iff_eq, Prod.mk.injEq, Bool.false_eq_true,
        and_false, if_false]
      omega
    have hfollows : r'.leads = false := by
      rw [← Bool.not_eq_true]
      intro hleads
      refine hnone (List.mem_iff_getElem?.2 ⟨j, ?_⟩)
      rw [List.getElem?_set_ne hij, getElem?_roles hon'.replica?_eq, Replica.role, hpartition,
        hleads]
    have hswap := List.set_set_perm hi hj
    rwa [hgeti, hgetj, Replica.role, hpartition, hfollows] at hswap

/-! ## The leader -/

theorem Undisputed.of_perm (hone : c.Undisputed) (hperm : c'.roles.Perm c.roles) :
    c'.Undisputed := by
  intro tp
  rw [countP_leads_copies, hperm.count_eq, ← countP_leads_copies]
  exact hone tp

/-- There is no second copy that leads. -/
theorem Undisputed.eq (hone : c.Undisputed) (hr : r ∈ c.copies tp) (hleads : r.leads = true)
    (hr' : r' ∈ c.copies tp) (hleads' : r'.leads = true) : r = r' := by
  have hlen := hone tp
  rw [List.countP_eq_length_filter] at hlen
  have hmem := List.mem_filter.2 ⟨hr, hleads⟩
  have hmem' := List.mem_filter.2 ⟨hr', hleads'⟩
  obtain ⟨r₀, hr₀⟩ := List.length_eq_one_iff.1
    (Nat.le_antisymm hlen (List.length_pos_of_mem hmem))
  rw [hr₀, List.mem_singleton] at hmem hmem'
  rw [hmem, hmem']

theorem Undisputed.leader_eq (hone : c.Undisputed) (hr : r ∈ c.copies tp)
    (hleads : r.leads = true) : c.leader tp = some r.broker := by
  unfold leader
  cases hfound : (c.copies tp).find? Replica.leads with
  | none => exact absurd hleads (List.find?_eq_none.1 hfound r hr)
  | some r' =>
    rw [hone.eq hr hleads (List.mem_of_find?_eq_some hfound) (List.find?_some hfound)]
    rfl

/-- The leadership was with the replica on the source, and is now with the one on the destination.
-/
theorem Passed.leader_eq (h : c.Sound) (hone : c.Undisputed) (hp : c.Passed tp s d c') :
    c.leader tp = some s ∧ c'.leader tp = some d := by
  obtain ⟨i, r, j, r', hon, hon', hrole, hpartition, hleads, -⟩ := h.roles_of_passed hp
  obtain ⟨hr, hleadsr⟩ := Prod.mk.inj hrole
  have hone' := hone.of_perm (hp.roles_perm h hone)
  constructor
  · rw [hone.leader_eq (Stable.mem_copies.2 ⟨⟨i, hon.replica?_eq⟩, hr⟩) hleadsr, h.broker_of_on hon]
  · rw [hone'.leader_eq (Stable.mem_copies.2 ⟨⟨j, hleads.replica?_eq⟩, hpartition⟩) rfl]
    have hbroker := h.broker_of_on hon'
    exact congrArg some hbroker

/-- The leader that is told of a partition is the first of its hosts, if a copy leads, and else
none. -/
def LeaderFirst (c : Cluster) (tp : TopicPartition) : Prop :=
  (∃ r ∈ c.copies tp, r.leads = true ∧ (c.hosts tp).head? = some r.broker ∧
    c.leader tp = some r.broker) ∨ (∀ r ∈ c.copies tp, r.leads = false) ∧ c.leader tp = none

/-- To find the first copy that leads, and to look what comes first once those that lead are put in
front, is the same. -/
theorem leaderFirst (c : Cluster) (tp : TopicPartition) : c.LeaderFirst tp := by
  have hhead : ((c.copies tp).filter Replica.leads).head? = (c.copies tp).find? Replica.leads :=
    List.head?_filter
  unfold LeaderFirst leader hosts
  cases hfound : (c.copies tp).find? Replica.leads with
  | none =>
    refine .inr ⟨fun r hr ↦ ?_, rfl⟩
    have hfollows := List.find?_eq_none.1 hfound r hr
    rwa [Bool.not_eq_true] at hfollows
  | some r =>
    refine .inl ⟨r, List.mem_of_find?_eq_some hfound, List.find?_some hfound, ?_, rfl⟩
    rw [hfound] at hhead
    rw [List.head?_map, List.head?_append, hhead]
    rfl

/-- Putting those that lead first is sorting by whether they follow, as long as that is stable. -/
theorem hosts_eq_sorted (c : Cluster) (tp : TopicPartition) :
    c.hosts tp =
      ((c.copies tp).insertionSort fun r r' ↦ (!r.leads) ≤ !r'.leads).map Replica.broker := by
  have insert : ∀ (r : Replica) (front back : List Replica),
      (∀ r' ∈ front, ¬ (!r.leads) ≤ !r'.leads) → (∀ r' ∈ back, (!r.leads) ≤ !r'.leads) →
      (front ++ back).orderedInsert (fun r r' ↦ (!r.leads) ≤ !r'.leads) r =
        front ++ r :: back := by
    intro r front back hfront hback
    induction front with
    | nil =>
      cases back with
      | nil => rfl
      | cons r' back => exact List.orderedInsert_cons_of_le _ _ (hback r' List.mem_cons_self)
    | cons r' front ih =>
      rw [List.forall_mem_cons] at hfront
      rw [List.cons_append, List.orderedInsert_cons, if_neg hfront.1, ih hfront.2,
        List.cons_append]
  refine congrArg (List.map Replica.broker) ?_
  induction c.copies tp with
  | nil => rfl
  | cons r rs ih =>
    rw [List.insertionSort_cons, ← ih, List.filter_cons, List.filter_cons]
    cases hleads : r.leads with
    | true =>
      rw [if_pos rfl, if_neg (by simp), List.cons_append]
      refine (insert r [] _ (fun _ h ↦ absurd h List.not_mem_nil) fun r' _ ↦ ?_).symm
      rw [hleads]
      exact Bool.false_le _
    | false =>
      rw [if_neg (by simp), if_pos (by simp)]
      refine (insert r _ _ (fun r' hr' ↦ ?_) fun r' hr' ↦ ?_).symm
      · rw [hleads, (List.mem_filter.1 hr').2]
        decide
      · rw [(List.mem_filter.1 hr').2]
        exact Bool.le_true _

end Cluster

/-! ## Operations -/

namespace Operation

variable {c : Cluster} {o : Operation}

/-- Which copy leads changes only with a leadership that passes. -/
theorem roles_apply (h : c.Sound) (ho : ¬ o.IsPlacement) :
    (o.apply c).roles = c.roles ∨ ∃ tp s d, o = .passLeadership tp s d ∧
      Cluster.passLeadership tp s d c = .ok true (o.apply c) ∧ c.Passed tp s d (o.apply c) := by
  cases o with
  | addBroker id rack state =>
    refine .inl (Ends.stateAfter (P := fun c' ↦ c'.roles = c.roles)
      ((Cluster.ends_addBroker c id rack state).mono ?_ ?_))
    · rintro - c' ⟨-, rfl⟩
      rfl
    · rintro - c' rfl
      rfl
  | place => exact absurd trivial ho
  | setState id state =>
    refine .inl (Ends.stateAfter (P := fun c' ↦ c'.roles = c.roles)
      ((Cluster.ends_setState c id state).mono ?_ ?_))
    · rintro - c' rfl
      rfl
    · rintro - c' rfl
      rfl
  | relocate tp s d =>
    refine .inl (Ends.stateAfter (P := fun c' ↦ c'.roles = c.roles)
      ((Cluster.ends_relocate h tp s d).mono ?_ ?_))
    · rintro - c' ⟨i, r, -, -, hm, rfl⟩
      exact Cluster.map_replicas_moved (fun _ _ ↦ rfl) hm.on.replica?_eq d
    · intro f c' hf
      exact congrArg (List.map Replica.role) hf.replicas_eq
  | passLeadership tp s d =>
    have hpasses := Cluster.ends_passLeadership c tp s d
    have happly : (passLeadership tp s d).apply c =
        stateAfter (Cluster.passLeadership tp s d) c := rfl
    rw [happly, stateAfter]
    cases hrun : Cluster.passLeadership tp s d c with
    | ok passed c' =>
      rcases hpasses.of_ok hrun with ⟨-, rfl⟩ | ⟨rfl, hpassed⟩
      · exact .inl rfl
      · exact .inr ⟨tp, s, d, rfl, hrun, hpassed⟩
    | error f c' => exact .inl (congrArg Cluster.roles (hpasses.of_error hrun))
  | track => exact .inl rfl
  | untrack => exact .inl rfl
  | pursue g guards options =>
    exact .inl (DistributionGoal.fixed_pursue h (f := Replica.role) (fun _ _ ↦ rfl) g).2

/-- So the roles of the replicas are permuted at most. -/
theorem roles_perm_apply (h : c.Sound) (hone : c.Undisputed) (ho : ¬ o.IsPlacement) :
    (o.apply c).roles.Perm c.roles := by
  rcases roles_apply h ho with heq | ⟨tp, s, d, -, -, hpassed⟩
  · rw [heq]
  · exact hpassed.roles_perm h hone

end Operation

namespace Cluster

theorem roles_perm_after {operations moves : List Operation} (hone : (after operations).Undisputed)
    (hmoves : ∀ o ∈ moves, ¬ o.IsPlacement) :
    (after (operations ++ moves)).roles.Perm (after operations).roles := by
  induction moves generalizing operations with
  | nil => rw [List.append_nil]
  | cons o rest ih =>
    rw [List.forall_mem_cons] at hmoves
    have hperm := Operation.roles_perm_apply (sound_after operations) hone hmoves.1
    have happly : o.apply (after operations) = after (operations ++ [o]) := by
      rw [after_append]
      rfl
    rw [happly] at hperm
    rw [List.append_cons]
    exact (ih (hone.of_perm hperm) hmoves.2).trans hperm

end Cluster

namespace Operation

/-- An operation leaves the roles of all replicas alone, or else it passed a leadership and told so,
and the leadership went from the source to the destination. -/
def KeepsLeaders (c : Cluster) (o : Operation) : Prop :=
  (o.apply c).roles = c.roles ∨ ∃ tp s d, o = .passLeadership tp s d ∧
    Cluster.passLeadership tp s d c = .ok true (o.apply c) ∧
    c.leader tp = some s ∧ (o.apply c).leader tp = some d

theorem keepsLeaders {c : Cluster} {o : Operation} (h : c.Sound) (hone : c.Undisputed)
    (ho : ¬ o.IsPlacement) : o.KeepsLeaders c := by
  rcases roles_apply h ho with heq | ⟨tp, s, d, rfl, hrun, hpassed⟩
  · exact .inl heq
  · exact .inr ⟨tp, s, d, rfl, hrun, hpassed.leader_eq h hone⟩

end Operation

/-- Whatever is done but placing replicas, where no partition has two leaders: as many copies of
each partition lead afterwards as before, and only a leadership that passes changes which one
leads. The leader that is told of a partition is always the first of its hosts, or none if no
copy leads. -/
theorem leadership_conserved (operations moves : List Operation)
    (hone : (Cluster.after operations).Undisputed) (hmoves : ∀ o ∈ moves, ¬ o.IsPlacement) :
    (∀ tp, ((Cluster.after (operations ++ moves)).copies tp).countP Replica.leads =
      ((Cluster.after operations).copies tp).countP Replica.leads) ∧
    (∀ before o rest, moves = before ++ o :: rest →
      o.KeepsLeaders (Cluster.after (operations ++ before))) ∧
    ∀ tp, (Cluster.after (operations ++ moves)).LeaderFirst tp := by
  refine ⟨fun tp ↦ ?_, ?_, Cluster.leaderFirst _⟩
  · rw [Cluster.countP_leads_copies, (Cluster.roles_perm_after hone hmoves).count_eq,
      ← Cluster.countP_leads_copies]
  · rintro before o rest rfl
    have hbefore : ∀ o ∈ before, ¬ o.IsPlacement := fun o ho ↦
      hmoves o (List.mem_append_left _ ho)
    have ho := hmoves o (List.mem_append_right _ List.mem_cons_self)
    exact Operation.keepsLeaders (Cluster.sound_after (operations ++ before))
      (hone.of_perm (Cluster.roles_perm_after hone hbefore)) ho

/-- The leadership of one of two copies passes to the other, back to itself, and is refused, before
the copies move. -/
theorem leadership_conserved_passed :
    let operations : List Operation := [.addBroker 0 none .alive, .addBroker 1 none .alive,
      .addBroker 2 none .alive, .place ⟨"a", 0⟩ 0 true {}, .place ⟨"a", 0⟩ 1 false {},
      .place ⟨"b", 0⟩ 0 false {}]
    let moves : List Operation := [.passLeadership ⟨"a", 0⟩ 0 1, .passLeadership ⟨"a", 0⟩ 1 1,
      .passLeadership ⟨"a", 0⟩ 0 1, .passLeadership ⟨"a", 0⟩ 1 2, .relocate ⟨"a", 0⟩ 1 2,
      .pursue {} [] {}]
    (∀ tp, ((Cluster.after (operations ++ moves)).copies tp).countP Replica.leads =
      ((Cluster.after operations).copies tp).countP Replica.leads) ∧
    (Cluster.after operations).leader ⟨"a", 0⟩ = some 0 ∧
    (Cluster.after (operations ++ moves)).placement ⟨"a", 0⟩ = ⟨⟨"a", 0⟩, [2, 0], some 2⟩ :=
  ⟨(leadership_conserved _ _ (by decide +kernel) (by simp [Operation.IsPlacement])).1,
    by decide +kernel, by decide +kernel⟩

end Rebalance
