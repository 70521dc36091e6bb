import Mathlib.Order.Defs.Unbundled
import Mathlib.Data.List.Basic
import Mathlib.Data.List.Sort
import Rebalance.Proofs.Roster
import Rebalance.Ranking

/-!
# Rankings in order

A ranking is in order if its keys ascend strictly and it knows each identity under the one key that
has it. Then the binary search finds every entry, so erasing an identity takes out its entry and no
other, and inserting a comparable key keeps the order.
-/

namespace Rebalance

/-! ## The search -/

section

variable {κ : Type} [LT κ] [DecidableLT κ] {front back : List κ} {key : κ}

/-- Between any bounds around the place where keys stop being below the given one, the search ends
at that place. -/
theorem searchBetween_append (hf : ∀ k ∈ front, k < key) (hb : ∀ k ∈ back, ¬ k < key) (lo hi : Nat)
    (hlo : lo ≤ front.length) (hhi : front.length ≤ hi) (hlen : hi ≤ (front ++ back).length) :
    searchBetween (front ++ back) key lo hi = front.length := by
  fun_induction searchBetween (front ++ back) key lo hi with
  | case1 lo hi hlt mid hmid ih =>
    refine ih ?_ hhi hlen
    by_contra hge
    have hle : front.length ≤ mid := by omega
    rw [List.getElem?_append_right hle, Option.any_eq_true_iff_get] at hmid
    obtain ⟨hsome, hkey⟩ := hmid
    exact hb _ (List.mem_of_getElem? (Option.some_get hsome).symm) (by simpa using hkey)
  | case2 lo hi hlt mid hmid ih =>
    refine ih hlo ?_ (by omega)
    by_contra hge
    have hmem : mid < front.length := by omega
    rw [List.getElem?_append_left hmem, List.getElem?_eq_getElem hmem, Option.any_some,
      decide_eq_true_eq] at hmid
    exact hmid (hf _ (List.getElem_mem hmem))
  | case3 lo hi hge => omega

theorem lowerBound_append (hf : ∀ k ∈ front, k < key) (hb : ∀ k ∈ back, ¬ k < key) :
    lowerBound (front ++ back) key = front.length :=
  searchBetween_append hf hb 0 _ (Nat.zero_le _) (by simp) (Nat.le_refl _)

end

namespace Ranking

variable {ι κ α : Type} [DecidableEq ι] [LT κ] [DecidableLT κ]

/-- The keys ascend, and each identity is known under the key that has it. -/
structure Ordered (ident : κ → ι) (r : Ranking ι κ α) : Prop where
  ascending : r.keys.Pairwise (· < ·)
  known : ∀ i key, r.known.entry? i = some key ↔ key ∈ r.keys ∧ ident key = i

variable {ident : κ → ι} {r : Ranking ι κ α} {i : ι} {key : κ} {a : α}

omit [DecidableEq ι] [LT κ] [DecidableLT κ] in
theorem mem_keys_of_mem (h : (key, a) ∈ r.entries) : key ∈ r.keys := List.mem_map.2 ⟨_, h, rfl⟩

omit [DecidableEq ι] [LT κ] [DecidableLT κ] in
theorem exists_of_mem_keys (h : key ∈ r.keys) : ∃ a, (key, a) ∈ r.entries := by
  obtain ⟨⟨k, a⟩, he, rfl⟩ := List.mem_map.1 h
  exact ⟨a, he⟩

omit [DecidableLT κ] in
theorem ordered_empty : (∅ : Ranking ι κ α).Ordered ident where
  ascending := List.Pairwise.nil
  known i key := by
    constructor
    · intro h
      cases h
    · rintro ⟨h, _⟩
      cases h

theorem known_erase (r : Ranking ι κ α) (i : ι) : (r.erase i).known = r.known.without i := by
  unfold Ranking.erase
  cases hi : r.known.entry? i with
  | none => exact (Roster.without_eq_self hi).symm
  | some key => rfl

omit [LT κ] [DecidableLT κ] in
theorem known_of_not_has (h : r.has i = false) : r.known.entry? i = none := by
  rwa [Ranking.has, Roster.has, Option.isSome_eq_false_iff, Option.isNone_iff_eq_none] at h

theorem erase_of_not_has (h : r.has i = false) : r.erase i = r := by
  rw [Ranking.erase, known_of_not_has h]

namespace Ordered

omit [DecidableLT κ] in
/-- Two keys of one identity are one key. -/
theorem key_unique (h : r.Ordered ident) {k k' : κ} (hk : k ∈ r.keys) (hk' : k' ∈ r.keys)
    (hi : ident k = ident k') : k = k' := by
  have hknown := (h.known (ident k) k).2 ⟨hk, rfl⟩
  rw [hi, (h.known _ _).2 ⟨hk', rfl⟩] at hknown
  exact (Option.some.inj hknown).symm

omit [DecidableLT κ] in
theorem has_iff (h : r.Ordered ident) : r.has i = true ↔ ∃ key ∈ r.keys, ident key = i := by
  rw [Ranking.has, Roster.has, Option.isSome_iff_exists]
  exact exists_congr fun key ↦ h.known i key

variable [IsStrictOrder κ (· < ·)]

omit [DecidableLT κ] in
theorem keys_nodup (h : r.Ordered ident) : r.keys.Nodup := by
  refine List.Pairwise.imp ?_ h.ascending
  rintro k _ hlt rfl
  exact irrefl_of (· < ·) k hlt

/-- The search for a key that is there ends at its entry. -/
theorem exists_split_at_key (h : r.Ordered ident) (hk : key ∈ r.keys) :
    ∃ front a back, r.entries = front ++ (key, a) :: back ∧
      lowerBound r.keys key = front.length := by
  obtain ⟨a, ha⟩ := exists_of_mem_keys hk
  obtain ⟨front, back, hsplit⟩ := List.append_of_mem ha
  refine ⟨front, a, back, hsplit, ?_⟩
  have hkeys : r.keys = front.map Prod.fst ++ (key :: back.map Prod.fst) := by
    rw [Ranking.keys, hsplit, List.map_append, List.map_cons]
  have hasc := h.ascending
  rw [hkeys, List.pairwise_append] at hasc
  obtain ⟨-, hback, hcross⟩ := hasc
  rw [hkeys, lowerBound_append, List.length_map]
  · intro k hk'
    exact hcross k hk' key List.mem_cons_self
  · intro k hk' hlt
    rcases List.mem_cons.1 hk' with rfl | hk'
    · exact irrefl_of (· < ·) k hlt
    · exact asymm_of (· < ·) hlt ((List.pairwise_cons.1 hback).1 k hk')

/-- No entry that is known is ever lost. -/
theorem hasLost_eq_false (h : r.Ordered ident) (i : ι) : r.hasLost i = false := by
  unfold Ranking.hasLost
  cases hi : r.known.entry? i with
  | none => rfl
  | some key =>
    obtain ⟨front, a, back, hsplit, hplace⟩ := h.exists_split_at_key ((h.known i key).1 hi).1
    rw [decide_eq_false_iff_not, hplace, Ranking.size, hsplit, List.length_append,
      List.length_cons]
    omega

/-- Erasing an identity takes out its entry and no other. -/
theorem entries_erase (h : r.Ordered ident) (i : ι) :
    (r.erase i).entries = r.entries.filter (ident ·.1 ≠ i) := by
  unfold Ranking.erase
  cases hi : r.known.entry? i with
  | none =>
    refine (List.filter_eq_self.2 ?_).symm
    rintro ⟨key, a⟩ he
    have hne : ident key ≠ i := fun hid ↦ by
      rw [(h.known i key).2 ⟨mem_keys_of_mem he, hid⟩] at hi
      cases hi
    simpa using hne
  | some key =>
    obtain ⟨hk, hid⟩ := (h.known i key).1 hi
    obtain ⟨front, a, back, hsplit, hplace⟩ := h.exists_split_at_key hk
    have hnodup := h.keys_nodup
    rw [Ranking.keys, hsplit, List.map_append, List.map_cons, List.nodup_middle,
      List.nodup_cons, List.mem_append] at hnodup
    have hother : ∀ e ∈ front ++ back, ident e.1 ≠ i := by
      intro e he heq
      have hmem : e ∈ r.entries := by
        rw [hsplit]
        rcases List.mem_append.1 he with he | he
        · exact List.mem_append_left _ he
        · exact List.mem_append_right _ (List.mem_cons_of_mem _ he)
      have hkey : e.1 = key := h.key_unique (mem_keys_of_mem hmem) hk (heq.trans hid.symm)
      refine hnodup.1 ?_
      rw [← hkey]
      exact (List.mem_append.1 he).imp (fun he ↦ List.mem_map.2 ⟨e, he, rfl⟩)
        fun he ↦ List.mem_map.2 ⟨e, he, rfl⟩
    change r.entries.eraseIdx (lowerBound r.keys key) = _
    rw [hplace, hsplit, List.eraseIdx_append_of_length_le (Nat.le_refl _), Nat.sub_self,
      List.eraseIdx_cons_zero, List.filter_append, List.filter_cons_of_neg (by simp [hid]),
      ← List.filter_append, List.filter_eq_self.2]
    intro e he
    simpa using hother e he

theorem mem_keys_erase (h : r.Ordered ident) :
    key ∈ (r.erase i).keys ↔ key ∈ r.keys ∧ ident key ≠ i := by
  rw [Ranking.keys, h.entries_erase i, Ranking.keys, List.mem_map, List.mem_map]
  constructor
  · rintro ⟨e, he, rfl⟩
    obtain ⟨he, hne⟩ := List.mem_filter.1 he
    exact ⟨⟨e, he, rfl⟩, by simpa using hne⟩
  · rintro ⟨⟨e, he, rfl⟩, hne⟩
    exact ⟨e, List.mem_filter.2 ⟨he, by simpa using hne⟩, rfl⟩

protected theorem erase (h : r.Ordered ident) (i : ι) : (r.erase i).Ordered ident where
  ascending := by
    rw [Ranking.keys, h.entries_erase i]
    exact h.ascending.sublist ((List.filter_sublist).map Prod.fst)
  known j key := by
    rw [known_erase, Roster.entry?_without, h.mem_keys_erase]
    by_cases hj : j = i
    · rw [if_pos hj]
      constructor
      · intro hnone
        cases hnone
      · rintro ⟨⟨_, hne⟩, hid⟩
        exact absurd (hid.trans hj) hne
    · rw [if_neg hj, h.known]
      constructor
      · rintro ⟨hk, hid⟩
        exact ⟨⟨hk, hid ▸ hj⟩, hid⟩
      · rintro ⟨⟨hk, _⟩, hid⟩
        exact ⟨hk, hid⟩

end Ordered

/-! ## Insertion -/

theorem insert_of_has (key : κ) (a : α) (h : r.has i = true) : r.insert i key a = r := if_pos h

theorem insert_of_not_has (key : κ) (a : α) (h : r.has i = false) :
    r.insert i key a = { entries := r.entries.insertIdx (lowerBound r.keys key) (key, a)
                         known := r.known.put i key } :=
  if_neg (by rw [Ranking.has] at h; simp [h])

/-- Ascending entries split where they stop being below a key. -/
theorem exists_split_below [IsStrictOrder κ (· < ·)] (key : κ) {entries : List (κ × α)}
    (h : (entries.map Prod.fst).Pairwise (· < ·)) :
    ∃ front back, entries = front ++ back ∧ (∀ e ∈ front, e.1 < key) ∧ ∀ e ∈ back, ¬ e.1 < key := by
  induction entries with
  | nil => exact ⟨[], [], rfl, by simp, by simp⟩
  | cons e rest ih =>
    rw [List.map_cons, List.pairwise_cons] at h
    by_cases hlt : e.1 < key
    · obtain ⟨front, back, hsplit, hfront, hback⟩ := ih h.2
      refine ⟨e :: front, back, by rw [hsplit, List.cons_append], ?_, hback⟩
      exact List.forall_mem_cons.2 ⟨hlt, hfront⟩
    · refine ⟨[], e :: rest, rfl, by simp, List.forall_mem_cons.2 ⟨hlt, ?_⟩⟩
      intro e' he' hlt'
      exact hlt (trans_of (· < ·) (h.1 _ (List.mem_map_of_mem he')) hlt')

omit [DecidableLT κ] in
/-- Ascending entries are determined by which they are. -/
theorem entries_eq_of_mem_iff [IsStrictOrder κ (· < ·)] {entries entries' : List (κ × α)}
    (h : (entries.map Prod.fst).Pairwise (· < ·)) (h' : (entries'.map Prod.fst).Pairwise (· < ·))
    (hmem : ∀ e, e ∈ entries ↔ e ∈ entries') : entries = entries' := by
  have hirrefl : Std.Irrefl fun e e' : κ × α ↦ e.1 < e'.1 := ⟨fun e ↦ irrefl_of (· < ·) e.1⟩
  have hantisymm : Std.Antisymm fun e e' : κ × α ↦ e.1 < e'.1 :=
    ⟨fun e _ hlt hgt ↦ absurd (trans_of (· < ·) hlt hgt) (irrefl_of (· < ·) e.1)⟩
  exact (List.pairwise_map.1 h).eq_of_mem_iff (List.pairwise_map.1 h') fun {e} ↦ hmem e

theorem insertIdx_length_append {β : Type} (front back : List β) (b : β) :
    (front ++ back).insertIdx front.length b = front ++ b :: back := by
  induction front with
  | nil => rfl
  | cons c front ih => rw [List.cons_append, List.length_cons, List.insertIdx_succ_cons, ih,
      List.cons_append]

namespace Ordered

variable [IsStrictOrder κ (· < ·)]

/-- A new key goes between the keys that are below it and the others. -/
theorem exists_split_insert (h : r.Ordered ident) (key : κ) (a : α) (hi : r.has i = false) :
    ∃ front back, r.entries = front ++ back ∧
      (r.insert i key a).entries = front ++ (key, a) :: back ∧
      (∀ e ∈ front, e.1 < key) ∧ ∀ e ∈ back, ¬ e.1 < key := by
  obtain ⟨front, back, hsplit, hfront, hback⟩ := exists_split_below key h.ascending
  refine ⟨front, back, hsplit, ?_, hfront, hback⟩
  have hplace : lowerBound r.keys key = front.length := by
    rw [Ranking.keys, hsplit, List.map_append, lowerBound_append, List.length_map]
    · exact List.forall_mem_map.2 hfront
    · exact List.forall_mem_map.2 hback
  rw [insert_of_not_has key a hi]
  change r.entries.insertIdx (lowerBound r.keys key) (key, a) = _
  rw [hplace, hsplit, insertIdx_length_append]

theorem mem_entries_insert (h : r.Ordered ident) (key : κ) (a : α) (hi : r.has i = false)
    {e : κ × α} : e ∈ (r.insert i key a).entries ↔ e = (key, a) ∨ e ∈ r.entries := by
  obtain ⟨front, back, hsplit, hins, -, -⟩ := h.exists_split_insert key a hi
  rw [hins, hsplit, List.mem_append, List.mem_cons, List.mem_append, or_left_comm]

theorem mem_keys_insert (h : r.Ordered ident) (key : κ) (a : α) (hi : r.has i = false) {k : κ} :
    k ∈ (r.insert i key a).keys ↔ k = key ∨ k ∈ r.keys := by
  constructor
  · intro hk
    obtain ⟨b, hb⟩ := exists_of_mem_keys hk
    rcases (h.mem_entries_insert key a hi).1 hb with heq | hb
    · exact .inl (congrArg Prod.fst heq)
    · exact .inr (mem_keys_of_mem hb)
  · rintro (rfl | hk)
    · exact mem_keys_of_mem ((h.mem_entries_insert k a hi).2 (.inl rfl))
    · obtain ⟨b, hb⟩ := exists_of_mem_keys hk
      exact mem_keys_of_mem ((h.mem_entries_insert key a hi).2 (.inr hb))

/-- An identity that comes in and is taken out again leaves nothing behind. -/
theorem erase_insert (h : r.Ordered ident) (key : κ) (a : α) (hi : r.has i = false) :
    (r.insert i key a).erase i = r := by
  obtain ⟨front, back, hsplit, hins, hfront, hback⟩ := h.exists_split_insert key a hi
  have hknown : (r.insert i key a).known = r.known.put i key := by
    rw [insert_of_not_has key a hi]
  have hplace : lowerBound (r.insert i key a).keys key = front.length := by
    rw [Ranking.keys, hins, List.map_append, List.map_cons, lowerBound_append, List.length_map]
    · exact List.forall_mem_map.2 hfront
    · exact List.forall_mem_cons.2 ⟨irrefl_of (· < ·) key, List.forall_mem_map.2 hback⟩
  have hentries : (r.insert i key a).entries.eraseIdx front.length = r.entries := by
    rw [hins, hsplit, List.eraseIdx_append_of_length_le (Nat.le_refl _), Nat.sub_self,
      List.eraseIdx_cons_zero]
  rw [Ranking.erase, hknown, Roster.entry?_put_self]
  dsimp only
  rw [hplace, hentries, Roster.without_put key (known_of_not_has hi)]

/-- Bringing in a key that is comparable with those of other identities keeps the order. -/
protected theorem insert (h : r.Ordered ident) (a : α) (hid : ident key = i)
    (hcmp : ∀ k ∈ r.keys, ident k ≠ i → k < key ∨ key < k) :
    (r.insert i key a).Ordered ident := by
  cases hi : r.has i with
  | true => rwa [insert_of_has key a hi]
  | false =>
    have hfresh : ∀ k ∈ r.keys, ident k ≠ i := fun k hk heq ↦ by
      rw [h.has_iff.2 ⟨k, hk, heq⟩] at hi
      cases hi
    obtain ⟨front, back, hsplit, hins, hfront, hback⟩ := h.exists_split_insert key a hi
    have hasc := h.ascending
    rw [Ranking.keys, hsplit, List.map_append, List.pairwise_append] at hasc
    obtain ⟨hascf, hascb, hcross⟩ := hasc
    have habove : ∀ k ∈ back.map Prod.fst, key < k := by
      intro k hk
      obtain ⟨e, he, rfl⟩ := List.mem_map.1 hk
      have hmem : e.1 ∈ r.keys := by
        rw [Ranking.keys, hsplit]
        exact List.mem_map_of_mem (List.mem_append_right _ he)
      exact (hcmp _ hmem (hfresh _ hmem)).resolve_left (hback e he)
    constructor
    · rw [Ranking.keys, hins, List.map_append, List.map_cons, List.pairwise_append]
      refine ⟨hascf, List.pairwise_cons.2 ⟨habove, hascb⟩, ?_⟩
      intro k hk k' hk'
      rcases List.mem_cons.1 hk' with rfl | hk'
      · obtain ⟨e, he, rfl⟩ := List.mem_map.1 hk
        exact hfront e he
      · exact hcross k hk k' hk'
    · intro j k
      rw [h.mem_keys_insert key a hi, insert_of_not_has key a hi, Roster.entry?_put]
      by_cases hj : j = i
      · rw [if_pos hj, Option.some.injEq]
        constructor
        · rintro rfl
          exact ⟨.inl rfl, hid.trans hj.symm⟩
        · rintro ⟨rfl | hk, hkid⟩
          · rfl
          · exact absurd (hkid.trans hj) (hfresh k hk)
      · rw [if_neg hj, h.known]
        constructor
        · rintro ⟨hk, hkid⟩
          exact ⟨.inr hk, hkid⟩
        · rintro ⟨rfl | hk, hkid⟩
          · exact absurd (hkid.symm.trans hid) hj
          · exact ⟨hk, hkid⟩

end Ordered

end Ranking

end Rebalance
