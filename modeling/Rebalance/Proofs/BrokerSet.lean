import Mathlib.Data.List.Induction
import Mathlib.Data.List.InsertIdx
import Mathlib.Data.List.Nodup
import Mathlib.Logic.Function.Basic
import Rebalance.BrokerSet
import Rebalance.Proofs.Ranking

/-!
# Broker sets while brokers change

A broker set finds places by the keys that it has stored, not by the brokers' present counts. So
whatever the counts do in the meantime, its keys stay in order and each broker is found again: which
brokers a run of steps leaves in the set, and under which keys, is told by the steps alone. Only for
the order to be the one of the present counts, brokers that changed must have been brought in anew.
-/

namespace Rebalance

instance : IsStrictOrder Fullness (· < ·) where
  irrefl := Fullness.lt_irrefl
  trans _ _ _ := Fullness.lt_trans

/-! ## Rankings in columns -/

namespace Ranking

/-- A ranking of which keys, items and what is known are kept and edited apart from each other. -/
structure Columns (ι κ α : Type) where
  keys : List κ := []
  items : List α := []
  known : Roster ι κ := []

variable {ι κ α : Type}

def columns (r : Ranking ι κ α) : Columns ι κ α := ⟨r.keys, r.items, r.known⟩

variable [DecidableEq ι] [LT κ] [DecidableLT κ]

namespace Columns

/-- Brings in an item: its key and itself at the place of the key among the others. -/
def insert (s : Columns ι κ α) (i : ι) (key : κ) (a : α) : Columns ι κ α :=
  if s.known.has i then s
  else
    { keys := s.keys.insertIdx (lowerBound s.keys key) key
      items := s.items.insertIdx (lowerBound s.keys key) a
      known := s.known.put i key }

/-- Takes out what stands at the place of the key that an identity came with, from each column.
There is no result where a column has no such place. -/
def erase? (s : Columns ι κ α) (i : ι) : Option (Columns ι κ α) :=
  match s.known.entry? i with
  | none => some s
  | some key =>
    if lowerBound s.keys key < s.keys.length ∧ lowerBound s.keys key < s.items.length then
      some
        { keys := s.keys.eraseIdx (lowerBound s.keys key)
          items := s.items.eraseIdx (lowerBound s.keys key)
          known := s.known.without i }
    else none

end Columns

variable {r : Ranking ι κ α}

theorem columns_insert (r : Ranking ι κ α) (i : ι) (key : κ) (a : α) :
    (r.insert i key a).columns = r.columns.insert i key a := by
  unfold Ranking.insert Columns.insert columns
  split
  · rfl
  · simp only [keys, items, List.map_insertIdx]

/-- Unless the entry is lost, the columns lose what the ranking loses. -/
theorem columns_erase (i : ι) (h : r.hasLost i = false) :
    r.columns.erase? i = some (r.erase i).columns := by
  unfold hasLost at h
  unfold Ranking.erase Columns.erase? columns
  dsimp only
  cases hi : r.known.entry? i with
  | none => rfl
  | some key =>
    rw [hi, decide_eq_false_iff_not, not_le, size] at h
    have hkeys : lowerBound r.keys key < r.keys.length := by rwa [keys, List.length_map]
    have hitems : lowerBound r.keys key < r.items.length := by rwa [items, List.length_map]
    dsimp only
    rw [if_pos ⟨hkeys, hitems⟩]
    simp only [keys, items, List.eraseIdx_map]

end Ranking

/-! ## Sets in order -/

namespace BrokerSet

variable {s : BrokerSet} {b : Broker} {bs : List Broker} {e : Fullness × BrokerId} {i : BrokerId}
  {key : Fullness}

theorem mem_brokers {id : BrokerId} : id ∈ s.brokers ↔ ∃ key, (key, id) ∈ s.entries := by
  rw [brokers, Ranking.items, List.mem_map]
  constructor
  · rintro ⟨⟨key, id⟩, he, rfl⟩
    exact ⟨key, he⟩
  · rintro ⟨key, he⟩
    exact ⟨_, he, rfl⟩

theorem ordered_add (h : s.Ordered Fullness.broker) (b : Broker) :
    (s.add b).Ordered Fullness.broker := by
  refine h.insert b.id rfl fun key _ hne ↦ ?_
  rcases Fullness.lt_or_eq_or_lt key b.fullness with hlt | rfl | hgt
  · exact .inl hlt
  · exact absurd rfl hne
  · exact .inr hgt

theorem mem_entries_add (h : s.Ordered Fullness.broker) (hb : s.has b.id = false) :
    e ∈ (s.add b).entries ↔ e = (b.fullness, b.id) ∨ e ∈ s.entries :=
  h.mem_entries_insert b.fullness b.id hb

theorem mem_entries_discard (h : s.Ordered Fullness.broker) (id : BrokerId) :
    e ∈ (s.discard id).entries ↔ e ∈ s.entries ∧ e.1.broker ≠ id := by
  rw [discard, h.entries_erase, List.mem_filter, decide_eq_true_eq]

theorem has_discard (h : s.Ordered Fullness.broker) (id : BrokerId) :
    (s.discard id).has id = false := by
  rw [discard, ← Bool.not_eq_true, (h.erase id).has_iff]
  rintro ⟨key, hk, hid⟩
  exact (h.mem_keys_erase.1 hk).2 hid

/-- A set of brokers with different numbers has each of them under its count. -/
theorem ofBrokers_spec (hbs : (bs.map Broker.id).Nodup) :
    (ofBrokers bs).Ordered Fullness.broker ∧
      ∀ e, e ∈ (ofBrokers bs).entries ↔ ∃ b ∈ bs, e = (b.fullness, b.id) := by
  have key : ∀ (bs : List Broker) (s : BrokerSet), (bs.map Broker.id).Nodup →
      s.Ordered Fullness.broker → (∀ b ∈ bs, s.has b.id = false) →
      (bs.foldl add s).Ordered Fullness.broker ∧
        ∀ e, e ∈ (bs.foldl add s).entries ↔ e ∈ s.entries ∨ ∃ b ∈ bs, e = (b.fullness, b.id) := by
    intro bs
    induction bs with
    | nil =>
      intro s _ h _
      exact ⟨h, by simp⟩
    | cons b rest ih =>
      intro s hnodup h hnew
      rw [List.map_cons, List.nodup_cons] at hnodup
      rw [List.forall_mem_cons] at hnew
      have hnew' : ∀ b' ∈ rest, (s.add b).has b'.id = false := by
        intro b' hb'
        rw [← Bool.not_eq_true, (ordered_add h b).has_iff]
        rintro ⟨key, hk, hid⟩
        rcases (h.mem_keys_insert b.fullness b.id hnew.1).1 hk with rfl | hk
        · exact hnodup.1 (List.mem_map.2 ⟨b', hb', hid.symm⟩)
        · have hhas := h.has_iff.2 ⟨key, hk, hid⟩
          rw [hnew.2 b' hb'] at hhas
          cases hhas
      obtain ⟨hordered, hmem⟩ := ih (s.add b) hnodup.2 (ordered_add h b) hnew'
      refine ⟨hordered, fun e ↦ ?_⟩
      rw [List.foldl_cons, hmem, mem_entries_add h hnew.1, List.exists_mem_cons_iff, or_assoc,
        or_left_comm]
  obtain ⟨hordered, hmem⟩ := key bs ∅ hbs Ranking.ordered_empty fun _ _ ↦ rfl
  refine ⟨hordered, fun e ↦ (hmem e).trans (or_iff_right ?_)⟩
  exact List.not_mem_nil

/-- A set in which each broker stands at the key that names it, and which knows each once. -/
structure Sorted (s : BrokerSet) : Prop where
  ordered : s.Ordered Fullness.broker
  keyed : ∀ e ∈ s.entries, e.1.broker = e.2
  known_nodup : s.known.keys.Nodup

namespace Sorted

theorem empty : Sorted ∅ where
  ordered := Ranking.ordered_empty
  keyed := by
    rintro e ⟨⟩
  known_nodup := List.nodup_nil

theorem add (h : s.Sorted) (b : Broker) : (s.add b).Sorted := by
  refine ⟨ordered_add h.ordered b, ?_, ?_⟩
  · intro e he
    cases hb : s.has b.id with
    | true =>
      rw [BrokerSet.add, Ranking.insert_of_has _ _ hb] at he
      exact h.keyed e he
    | false =>
      rcases (mem_entries_add h.ordered hb).1 he with rfl | he
      · rfl
      · exact h.keyed e he
  · unfold BrokerSet.add Ranking.insert
    split
    · exact h.known_nodup
    · exact Roster.nodup_keys_put _ h.known_nodup

theorem discard (h : s.Sorted) (id : BrokerId) : (s.discard id).Sorted := by
  refine ⟨h.ordered.erase id, fun e he ↦ ?_, ?_⟩
  · exact h.keyed e ((mem_entries_discard h.ordered id).1 he).1
  · rw [BrokerSet.discard, Ranking.known_erase]
    exact Roster.nodup_keys_without id h.known_nodup

/-- The keys name the brokers, in the same order. -/
theorem brokers_eq (h : s.Sorted) : s.brokers = s.keys.map Fullness.broker := by
  rw [brokers, Ranking.items, Ranking.keys, List.map_map]
  exact (List.map_congr_left h.keyed).symm

theorem nodup_brokers (h : s.Sorted) : s.brokers.Nodup := by
  rw [h.brokers_eq]
  exact h.ordered.keys_nodup.map_on fun k hk k' hk' ↦ h.ordered.key_unique hk hk'

theorem has_iff_mem (h : s.Sorted) : s.has i = true ↔ i ∈ s.brokers := by
  rw [h.brokers_eq, List.mem_map]
  exact h.ordered.has_iff

/-- As many keys are known as there are brokers. -/
theorem length_known (h : s.Sorted) : s.known.length = s.brokers.length := by
  have hperm : s.known.keys.Perm s.brokers := by
    rw [List.perm_ext_iff_of_nodup h.known_nodup h.nodup_brokers]
    intro i
    rw [← h.has_iff_mem, ← Roster.has_iff_mem_keys]
    rfl
  rw [← hperm.length_eq, Roster.keys, List.length_map]

/-- Each place of the set has one broker, its key, and what is known of it. -/
theorem at_place (h : s.Sorted) {p : Nat} (hp : s.keys[p]? = some key) :
    s.brokers[p]? = some key.broker ∧ s.known.entry? key.broker = some key := by
  refine ⟨?_, (h.ordered.known _ _).2 ⟨List.mem_of_getElem? hp, rfl⟩⟩
  rw [h.brokers_eq, List.getElem?_map, hp]
  rfl

/-- Taking out a broker takes out what is there of it, and nothing else. -/
theorem discard_eq (h : s.Sorted) (i : BrokerId) :
    (s.discard i).keys = s.keys.filter (·.broker ≠ i) ∧
      (s.discard i).brokers = s.brokers.filter (· ≠ i) ∧
      (s.discard i).known = s.known.filter (·.1 ≠ i) := by
  have hkeys : (s.discard i).keys = s.keys.filter (·.broker ≠ i) := by
    rw [Ranking.keys, BrokerSet.discard, h.ordered.entries_erase, Ranking.keys, List.filter_map]
    rfl
  refine ⟨hkeys, ?_, ?_⟩
  · rw [(h.discard i).brokers_eq, hkeys, h.brokers_eq, List.filter_map]
    rfl
  · rw [BrokerSet.discard, Ranking.known_erase, Roster.without_eq_filter]

end Sorted

/-! ## Steps -/

/-- Brokers, found by their numbers. -/
structure Fleet where
  broker : BrokerId → Broker
  id_broker : ∀ i, (broker i).id = i

/-- What is done to a set of brokers, or happens to one of them. -/
inductive Step where
  | add (i : BrokerId)
  | discard (i : BrokerId)
  /-- A broker becomes another one of the same number. -/
  | change (b : Broker)

def Fleet.step (f : Fleet) : Step → Fleet
  | .change b => ⟨Function.update f.broker b.id b, fun i ↦ by
      by_cases h : i = b.id
      · rw [h, Function.update_self]
      · rw [Function.update_of_ne h, f.id_broker]⟩
  | _ => f

def Fleet.after (f : Fleet) (steps : List Step) : Fleet := steps.foldl step f

def step (f : Fleet) (s : BrokerSet) : Step → BrokerSet
  | .add i => s.add (f.broker i)
  | .discard i => s.discard i
  | .change _ => s

/-- What steps make of a set, while they make of the brokers what they make of them. -/
def after (f : Fleet) (s : BrokerSet) : List Step → BrokerSet
  | [] => s
  | e :: rest => after (f.step e) (s.step f e) rest

/-- A step of a set in columns. -/
def columnsStep? (f : Fleet) (s : Ranking.Columns BrokerId Fullness BrokerId) :
    Step → Option (Ranking.Columns BrokerId Fullness BrokerId)
  | .add i => some (s.insert i (f.broker i).fullness i)
  | .discard i => s.erase? i
  | .change _ => some s

/-- What steps make of a set in columns. -/
def columnsAfter? (f : Fleet) (s : Ranking.Columns BrokerId Fullness BrokerId) :
    List Step → Option (Ranking.Columns BrokerId Fullness BrokerId)
  | [] => some s
  | e :: rest => (columnsStep? f s e).bind (columnsAfter? (f.step e) · rest)

variable {f : Fleet} {steps : List Step} {a d : Step} {P : List Step → Prop}

theorem Fleet.broker_change_self (f : Fleet) (b : Broker) :
    (f.step (.change b)).broker b.id = b := Function.update_self ..

theorem Fleet.broker_change_of_ne (f : Fleet) (h : i ≠ b.id) :
    (f.step (.change b)).broker i = f.broker i := Function.update_of_ne h ..

theorem Fleet.after_concat (f : Fleet) (steps : List Step) (a : Step) :
    f.after (steps ++ [a]) = (f.after steps).step a := by
  rw [after, after, List.foldl_concat]

theorem after_concat (f : Fleet) (s : BrokerSet) (steps : List Step) (a : Step) :
    after f s (steps ++ [a]) = (after f s steps).step (f.after steps) a := by
  induction steps generalizing f s with
  | nil => rfl
  | cons e rest ih => exact ih (f.step e) (s.step f e)

theorem Sorted.step (h : s.Sorted) (f : Fleet) (a : Step) : (s.step f a).Sorted := by
  cases a with
  | add i => exact h.add (f.broker i)
  | discard i => exact h.discard i
  | change b => exact h

theorem Sorted.after (h : s.Sorted) (f : Fleet) (steps : List Step) : (after f s steps).Sorted := by
  induction steps generalizing f s with
  | nil => exact h
  | cons e rest ih => exact ih (h.step f e) (f.step e)

theorem Sorted.columns_step (h : s.Sorted) (f : Fleet) (a : Step) :
    columnsStep? f s.columns a = some (s.step f a).columns := by
  cases a with
  | add i => rw [columnsStep?, ← Ranking.columns_insert, BrokerSet.step, BrokerSet.add, f.id_broker]
  | discard i => exact Ranking.columns_erase i (h.ordered.hasLost_eq_false i)
  | change b => rfl

/-- Columns that are kept apart go on to hold what the set holds; none of them is ever too short. -/
theorem Sorted.columns_after (h : s.Sorted) (f : Fleet) (steps : List Step) :
    columnsAfter? f s.columns steps = some (BrokerSet.after f s steps).columns := by
  induction steps generalizing f s with
  | nil => rfl
  | cons e rest ih =>
    rw [columnsAfter?, h.columns_step, Option.bind_some, ih (h.step f e)]
    rfl

/-! ## What the steps tell -/

/-- The step `a` was taken where `P` held of the steps before it, and `d` was not taken since. -/
def Since (P : List Step → Prop) (a d : Step) (steps : List Step) : Prop :=
  ∃ before later, steps = before ++ a :: later ∧ P before ∧ d ∉ later

theorem not_since_nil : ¬ Since P a d [] := by
  rintro ⟨before, later, h, -⟩
  exact List.append_ne_nil_of_right_ne_nil _ (List.cons_ne_nil _ _) h.symm

/-- With one step more, either that is the step since when, or it goes on and that step does not end
it. -/
theorem since_concat {e : Step} :
    Since P a d (steps ++ [e]) ↔ e = a ∧ P steps ∨ e ≠ d ∧ Since P a d steps := by
  constructor
  · rintro ⟨before, later, h, hP, hd⟩
    rcases List.eq_nil_or_concat' later with rfl | ⟨later, e', rfl⟩
    · obtain ⟨rfl, he⟩ := List.append_inj' h rfl
      exact .inl ⟨(List.cons.inj he).1, hP⟩
    · rw [← List.cons_append, ← List.append_assoc] at h
      obtain ⟨rfl, he⟩ := List.append_inj' h rfl
      cases he
      rw [List.mem_append, not_or, List.mem_singleton] at hd
      exact .inr ⟨Ne.symm hd.2, before, later, rfl, hP, hd.1⟩
  · rintro (⟨rfl, hP⟩ | ⟨hne, before, later, rfl, hP, hd⟩)
    · exact ⟨steps, [], rfl, hP, List.not_mem_nil⟩
    · refine ⟨before, later ++ [e], by simp, hP, ?_⟩
      rw [List.mem_append, not_or, List.mem_singleton]
      exact ⟨hd, Ne.symm hne⟩

/-- A key is known after a step if the step brings its broker in, or if it was known before and the
step does not take the broker out. -/
theorem entry?_step (f : Fleet) (s : BrokerSet) (a : Step) :
    (s.step f a).known.entry? i = some key ↔
      a = .add i ∧ s.has i = false ∧ (f.broker i).fullness = key ∨
        a ≠ .discard i ∧ s.known.entry? i = some key := by
  cases a with
  | add j =>
    rw [step, add, f.id_broker]
    cases hj : s.has j with
    | true =>
      rw [Ranking.insert_of_has _ _ hj]
      refine ⟨fun h ↦ .inr ⟨by simp, h⟩, ?_⟩
      rintro (⟨heq, hi, -⟩ | ⟨-, h⟩)
      · cases heq
        rw [hj] at hi
        cases hi
      · exact h
    | false =>
      rw [Ranking.insert_of_not_has _ _ hj, Roster.entry?_put]
      by_cases hij : i = j
      · subst hij
        simp [hj, Ranking.known_of_not_has hj]
      · simp [hij, Ne.symm hij]
  | discard j =>
    rw [step, discard, Ranking.known_erase, Roster.entry?_without]
    by_cases hij : i = j
    · simp [hij]
    · simp [hij, Ne.symm hij]
  | change b => simp [step]

theorem has_step (f : Fleet) (s : BrokerSet) (a : Step) :
    (s.step f a).has i = true ↔ a = .add i ∨ a ≠ .discard i ∧ s.has i = true := by
  have hknown : ∀ s : BrokerSet, s.has i = true ↔ ∃ key, s.known.entry? i = some key :=
    fun _ ↦ Option.isSome_iff_exists
  rw [hknown]
  simp only [ entry?_step]
  constructor
  · rintro ⟨key, ⟨rfl, -⟩ | ⟨hne, h⟩⟩
    · exact .inl rfl
    · exact .inr ⟨hne, (hknown s).2 ⟨key, h⟩⟩
  · rintro (rfl | ⟨hne, h⟩)
    · cases hs : s.has i with
      | true =>
        obtain ⟨key, h⟩ := (hknown s).1 hs
        exact ⟨key, .inr ⟨by simp, h⟩⟩
      | false => exact ⟨_, .inl ⟨rfl, rfl, rfl⟩⟩
    · obtain ⟨key, h⟩ := (hknown s).1 h
      exact ⟨key, .inr ⟨hne, h⟩⟩

/-- The brokers in a set are those that were added and not discarded since. -/
theorem has_after (f : Fleet) (steps : List Step) :
    (after f ∅ steps).has i = true ↔ Since (fun _ ↦ True) (.add i) (.discard i) steps := by
  induction steps using List.reverseRecOn with
  | nil => exact iff_of_false Bool.false_ne_true not_since_nil
  | append_singleton steps a ih => rw [after_concat, has_step, since_concat, ih, and_true]

/-- The key under which a broker is in a set is the one that it had when it was brought in. -/
theorem entry?_after (f : Fleet) (steps : List Step) :
    (after f ∅ steps).known.entry? i = some key ↔
      Since (fun before ↦ (after f ∅ before).has i = false ∧
        ((f.after before).broker i).fullness = key) (.add i) (.discard i) steps := by
  induction steps using List.reverseRecOn with
  | nil => exact iff_of_false (by rintro ⟨⟩) not_since_nil
  | append_singleton steps a ih => rw [after_concat, entry?_step, since_concat, ih]

/-! ## Present counts -/

/-- Whenever the count of a broker changes, the broker is discarded and added again later. -/
def Renewed (f : Fleet) (i : BrokerId) (steps : List Step) : Prop :=
  ∀ before b later, steps = before ++ .change b :: later → b.id = i →
    b.count ≠ ((f.after before).broker i).count → [.discard i, .add i].Sublist later

/-- Steps that never change the count of a broker leave it as full as it was. -/
theorem fullness_after (hcount : ∀ before b later, steps = before ++ .change b :: later → b.id = i →
      b.count = ((f.after before).broker i).count) :
    ((f.after steps).broker i).fullness = (f.broker i).fullness := by
  induction steps using List.reverseRecOn with
  | nil => rfl
  | append_singleton steps a ih =>
    rw [← ih fun before b later h ↦ hcount before b (later ++ [a]) (by rw [h]; simp),
      Fleet.after_concat]
    cases a with
    | change b =>
      by_cases hi : b.id = i
      · subst hi
        rw [Fleet.broker_change_self, Broker.fullness, hcount steps b [] rfl rfl, Broker.fullness,
          (f.after steps).id_broker]
      · rw [Fleet.broker_change_of_ne _ (Ne.symm hi)]
    | _ => rfl

/-- Of a broker that was brought in anew whenever its count changed, the present key is known. -/
theorem key_of_renewed (h : (after f ∅ steps).known.entry? i = some key)
    (hrenewed : Renewed f i steps) : ((f.after steps).broker i).fullness = key := by
  obtain ⟨before, later, rfl, ⟨-, rfl⟩, hlater⟩ := (entry?_after f steps).1 h
  have hcount : ∀ before' b later', later = before' ++ .change b :: later' → b.id = i →
      b.count = ((((f.after before).step (.add i)).after before').broker i).count := by
    intro before' b later' heq hi
    by_contra hne
    -- Had the count changed since, the broker would have been discarded since.
    have hsub := hrenewed (before ++ .add i :: before') b later' (by simp [heq]) hi
      (by rwa [Fleet.after, List.foldl_append])
    exact hlater (heq ▸ by simp [hsub.subset List.mem_cons_self])
  rw [Fleet.after, List.foldl_append, List.foldl_cons]
  exact fullness_after hcount

/-- Where every broker was brought in anew whenever its count changed, the keys are the present
ones. -/
theorem keys_of_renewed (hrenewed : ∀ i ∈ (after f ∅ steps).brokers, Renewed f i steps) :
    (after f ∅ steps).keys =
      (after f ∅ steps).brokers.map fun i ↦ ((f.after steps).broker i).fullness := by
  have h := Sorted.empty.after f steps
  rw [h.brokers_eq, List.map_map]
  refine (List.map_id _).symm.trans (List.map_congr_left fun key hkey ↦ ?_)
  have hmem : key.broker ∈ (after f ∅ steps).brokers := by
    rw [h.brokers_eq]
    exact List.mem_map_of_mem hkey
  exact (key_of_renewed ((h.ordered.known _ _).2 ⟨hkey, rfl⟩) (hrenewed _ hmem)).symm

/-- Whatever is added and discarded while brokers change, a set of brokers is in order: its keys
ascend, and its keys, its brokers and what it knows are the same brokers, place by place, also where
each is kept in a column of its own. In it are the brokers that were added and not discarded since,
each under the key that it had when it was brought in; adding one that is there does nothing. To
discard a broker takes out that one and no other. Where every broker in the set was discarded and
added again after its count changed, the set has them in the order of their present counts. -/
theorem arrivals_in_order (hs : after f ∅ steps = s) :
    columnsAfter? f {} steps = some s.columns ∧
    s.keys.Pairwise (· < ·) ∧
    s.brokers.length = s.keys.length ∧ s.known.length = s.keys.length ∧
    (∀ (p : Nat) (key : Fullness), s.keys[p]? = some key →
      s.brokers[p]? = some key.broker ∧ s.known.entry? key.broker = some key) ∧
    (∀ i, i ∈ s.brokers ↔ s.has i = true) ∧
    (∀ i, s.has i = true ↔ Since (fun _ ↦ True) (.add i) (.discard i) steps) ∧
    (∀ i key, s.known.entry? i = some key ↔
      Since (fun before ↦ (after f ∅ before).has i = false ∧
        ((f.after before).broker i).fullness = key) (.add i) (.discard i) steps) ∧
    (∀ b, s.has b.id = true → s.add b = s) ∧
    (∀ i, (s.discard i).keys = s.keys.filter (·.broker ≠ i) ∧
      (s.discard i).brokers = s.brokers.filter (· ≠ i) ∧
      (s.discard i).known = s.known.filter (·.1 ≠ i)) ∧
    ((∀ i ∈ s.brokers, Renewed f i steps) →
      s.keys = s.brokers.map (fun i ↦ ((f.after steps).broker i).fullness) ∧
        s.brokers.Pairwise fun i j ↦
          ((f.after steps).broker i).fullness < ((f.after steps).broker j).fullness) := by
  subst hs
  have h := Sorted.empty.after f steps
  have hlength : (after f ∅ steps).brokers.length = (after f ∅ steps).keys.length := by
    rw [h.brokers_eq, List.length_map]
  refine ⟨Sorted.empty.columns_after f steps, h.ordered.ascending, hlength,
    h.length_known.trans hlength, fun p key ↦ h.at_place, fun i ↦ h.has_iff_mem.symm,
    fun i ↦ has_after f steps, fun i key ↦ entry?_after f steps,
    fun b ↦ Ranking.insert_of_has b.fullness b.id, h.discard_eq, fun hrenewed ↦ ?_⟩
  have hkeys := keys_of_renewed hrenewed
  refine ⟨hkeys, ?_⟩
  have hascending := h.ordered.ascending
  rwa [hkeys, List.pairwise_map] at hascending

/-- A broker with as many replicas as told. -/
def stocked (i : BrokerId) (n : Nat) : Broker :=
  { id := i, hosted := (List.range n).map fun (r : Nat) ↦ (⟨"t", r⟩, r) }

/-- Brokers with one replica each. -/
def singles : Fleet := ⟨fun i ↦ stocked i 1, fun _ ↦ rfl⟩

/-- Two brokers come in, then the first one gets two more replicas and is put in order again. -/
def grown : List Step := [.add 1, .add 2, .change (stocked 1 3), .discard 1, .add 1]

/-- The broker that has grown keeps its place under its old key until it is taken out. -/
theorem arrivals_in_order_grown :
    (after singles ∅ (grown.take 3)).keys = [⟨1, 1⟩, ⟨1, 2⟩] ∧
      after singles ∅ grown =
        { entries := [(⟨1, 2⟩, 2), (⟨3, 1⟩, 1)], known := [(2, ⟨1, 2⟩), (1, ⟨3, 1⟩)] } ∧
      columnsAfter? singles {} grown = some (after singles ∅ grown).columns ∧
      (after singles ∅ grown).brokers.Pairwise fun i j ↦
        ((singles.after grown).broker i).fullness < ((singles.after grown).broker j).fullness := by
  have hrenewed : ∀ i, Renewed singles i grown := by
    rintro i before b later h rfl -
    rcases before with _ | ⟨_, _ | ⟨_, _ | ⟨_, _ | ⟨_, _ | ⟨_, _⟩⟩⟩⟩⟩ <;> simp [grown] at h
    obtain ⟨-, -, rfl, rfl⟩ := h
    exact List.Sublist.refl _
  obtain ⟨hcolumns, -, -, -, -, -, -, -, -, -, hpresent⟩ :=
    arrivals_in_order (rfl : after singles ∅ grown = _)
  exact ⟨by decide +kernel, by decide +kernel, hcolumns, (hpresent fun i _ ↦ hrenewed i).2⟩

end BrokerSet

end Rebalance
