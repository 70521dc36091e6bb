import Mathlib.Data.List.Nodup
import Rebalance.Roster

/-!
# Rosters as finite maps

Storing under a key that is not there appends, removing a key filters; so what a roster holds after
either is read off from the list. Where no key occurs twice, an entry is found under its key exactly
when it is in the list.
-/

namespace Rebalance.Roster

variable {κ α β : Type} [DecidableEq κ] {r : Roster κ α} {k : κ} {a : α}

/-! ## Looking up -/

theorem mem_of_entry_eq_some (h : r.entry? k = some a) : (k, a) ∈ r := by
  induction r with
  | nil => simp at h
  | cons e rest ih =>
    obtain ⟨k', b⟩ := e
    by_cases h' : k' = k
    · subst h'
      simp only [if_pos, entry?, Option.some.injEq] at h
      simp [h]
    · simp only [if_neg h', entry?] at h
      exact List.mem_cons_of_mem _ (ih h)

omit [DecidableEq κ] in
theorem mem_keys_of_mem (h : (k, a) ∈ r) : k ∈ r.keys := List.mem_map.2 ⟨_, h, rfl⟩

theorem entry?_of_mem (hr : r.keys.Nodup) (h : (k, a) ∈ r) : r.entry? k = some a := by
  induction r with
  | nil => simp at h
  | cons e rest ih =>
    obtain ⟨k', b⟩ := e
    rw [keys_cons, List.nodup_cons] at hr
    rcases List.mem_cons.1 h with h | h
    · obtain ⟨rfl, rfl⟩ := Prod.mk.inj h
      simp [ entry?]
    · have hne : k' ≠ k := by
        rintro rfl
        exact hr.1 (mem_keys_of_mem h)
      unfold entry?
      rw [if_neg hne]
      exact ih hr.2 h

theorem entry?_eq_none_iff : r.entry? k = none ↔ k ∉ r.keys := by
  rw [← has_iff_mem_keys, has, Bool.not_eq_true, Option.isSome_eq_false_iff,
    Option.isNone_iff_eq_none]

theorem has_of_entry_eq_some (h : r.entry? k = some a) : r.has k = true := by
  rw [has, h]
  rfl

/-- Changing every value changes what is found. -/
theorem entry?_map (f : α → β) (r : Roster κ α) (k : κ) :
    entry? (r.map fun e ↦ (e.1, f e.2)) k = (r.entry? k).map f := by
  induction r with
  | nil => rfl
  | cons e rest ih =>
    obtain ⟨k', b⟩ := e
    by_cases h : k' = k <;> simp [h, entry?, ih]

/-! ## Storing under a new key -/

/-- A new key goes last. -/
theorem put_of_entry?_eq_none (a : α) (h : r.entry? k = none) : r.put k a = r ++ [(k, a)] := by
  induction r with
  | nil => rfl
  | cons e rest ih =>
    obtain ⟨k', b⟩ := e
    have hne : k' ≠ k := by
      rintro rfl
      simp [ entry?] at h
    unfold entry? at h
    rw [if_neg hne] at h
    rw [put, if_neg hne, ih h, List.cons_append]

theorem mem_of_mem_put {e : κ × α} (h : e ∈ r.put k a) : e = (k, a) ∨ e ∈ r := by
  induction r with
  | nil => exact .inl (List.mem_singleton.1 h)
  | cons e' rest ih =>
    obtain ⟨k', b⟩ := e'
    unfold put at h
    split at h
    · exact (List.mem_cons.1 h).imp_right (List.mem_cons_of_mem _)
    · rcases List.mem_cons.1 h with rfl | h
      · exact .inr List.mem_cons_self
      · exact (ih h).imp_right (List.mem_cons_of_mem _)

theorem put_put (r : Roster κ α) (k : κ) (a b : α) : Roster.put (r.put k a) k b = r.put k b := by
  induction r with
  | nil => simp [put]
  | cons e rest ih =>
    obtain ⟨k', c⟩ := e
    by_cases h : k' = k <;> simp [put, h, ih]

/-- What is there already changes nothing when it is stored. -/
theorem put_entry?_eq_self (h : r.entry? k = some a) : r.put k a = r := by
  induction r with
  | nil => simp at h
  | cons e rest ih =>
    obtain ⟨k', b⟩ := e
    by_cases h' : k' = k
    · subst h'
      simp only [if_pos, entry?, Option.some.injEq] at h
      simp [put, h]
    · simp only [if_neg h', entry?] at h
      rw [put, if_neg h', ih h]

theorem nodup_keys_put (a : α) (hr : r.keys.Nodup) : (r.put k a).keys.Nodup := by
  by_cases h : k ∈ r.keys
  · rwa [keys_put_of_mem a h]
  · rw [keys_put_of_not_mem a h]
    exact List.nodup_append.2 ⟨hr, by simp, by rintro x hx _ hy rfl; simp_all⟩

/-! ## Removing a key -/

theorem without_eq_filter (r : Roster κ α) (k : κ) : r.without k = r.filter (·.1 ≠ k) := by
  induction r with
  | nil => rfl
  | cons e rest ih =>
    obtain ⟨k', b⟩ := e
    by_cases h : k' = k <;> simp [without, h, ih]

theorem without_eq_self (h : r.entry? k = none) : r.without k = r := by
  rw [without_eq_filter, List.filter_eq_self]
  intro e he
  have hne : e.1 ≠ k := fun heq ↦ entry?_eq_none_iff.1 h (heq ▸ List.mem_map_of_mem he)
  simpa using hne

/-- A key that was not there leaves nothing behind. -/
theorem without_put (a : α) (h : r.entry? k = none) : Roster.without (r.put k a) k = r := by
  have hself := without_eq_self h
  rw [without_eq_filter] at hself
  rw [put_of_entry?_eq_none a h, without_eq_filter, List.filter_append, hself]
  simp

theorem nodup_keys_without (k : κ) (hr : r.keys.Nodup) : (r.without k).keys.Nodup := by
  rw [keys_without]
  exact hr.filter _

/-- Removing a key that occurs once takes one entry away. -/
theorem length_without (hr : r.keys.Nodup) (h : r.entry? k = some a) :
    (r.without k).length + 1 = r.length := by
  induction r with
  | nil => simp at h
  | cons e rest ih =>
    obtain ⟨k', b⟩ := e
    rw [keys_cons, List.nodup_cons] at hr
    by_cases h' : k' = k
    · subst h'
      simp [without, without_eq_self (entry?_eq_none_iff.2 hr.1)]
    · unfold entry? at h
      rw [if_neg h'] at h
      rw [without, if_neg h', List.length_cons, List.length_cons, ih hr.2 h]

theorem entry?_without (r : Roster κ α) (k k' : κ) :
    Roster.entry? (r.without k) k' = if k' = k then none else r.entry? k' := by
  by_cases h : k' = k
  · rw [if_pos h, h, entry?_without_self]
  · rw [if_neg h, entry?_without_of_ne r (Ne.symm h)]

theorem entry?_put (r : Roster κ α) (k k' : κ) (a : α) :
    Roster.entry? (r.put k a) k' = if k' = k then some a else r.entry? k' := by
  by_cases h : k' = k
  · rw [if_pos h, h, entry?_put_self]
  · rw [if_neg h, entry?_put_of_ne r a (Ne.symm h)]

end Rebalance.Roster
