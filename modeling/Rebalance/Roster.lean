/-!
# Rosters

A finite map that remembers the order in which its keys arrived. A new key goes last; a key that is
already there keeps its place and takes the new value; a key that left and comes back goes last.
-/

namespace Rebalance

/-- Keys with their values, in order of arrival. -/
abbrev Roster (κ α : Type) := List (κ × α)

namespace Roster

variable {κ α : Type}

def keys (r : Roster κ α) : List κ := r.map Prod.fst

def values (r : Roster κ α) : List α := r.map Prod.snd

@[simp] theorem keys_nil : keys ([] : Roster κ α) = [] := rfl

@[simp] theorem keys_cons (e : κ × α) (r : Roster κ α) : keys (e :: r) = e.1 :: keys r := rfl

variable [DecidableEq κ]

/-- The value under a key. -/
def entry? : Roster κ α → κ → Option α
  | [], _ => none
  | (k', a) :: rest, k => if k' = k then some a else entry? rest k

/-- Whether a key is there. -/
def has (r : Roster κ α) (k : κ) : Bool := (r.entry? k).isSome

/-- Stores a value under a key. -/
def put : Roster κ α → κ → α → Roster κ α
  | [], k, a => [(k, a)]
  | (k', b) :: rest, k, a => if k' = k then (k, a) :: rest else (k', b) :: put rest k a

/-- Removes a key, wherever it is. -/
def without : Roster κ α → κ → Roster κ α
  | [], _ => []
  | (k', a) :: rest, k => if k' = k then without rest k else (k', a) :: without rest k

@[simp] theorem entry?_nil (k : κ) : entry? ([] : Roster κ α) k = none := rfl

@[simp] theorem entry?_put_self (r : Roster κ α) (k : κ) (a : α) :
    entry? (put r k a) k = some a := by
  induction r with
  | nil => simp [put, entry?]
  | cons e rest ih =>
    obtain ⟨k', b⟩ := e
    by_cases h : k' = k <;> simp [put, entry?, h, ih]

theorem entry?_put_of_ne (r : Roster κ α) {k k' : κ} (a : α) (h : k ≠ k') :
    entry? (put r k a) k' = entry? r k' := by
  induction r with
  | nil => simp [put, entry?, h]
  | cons e rest ih =>
    obtain ⟨k₀, b⟩ := e
    by_cases h₀ : k₀ = k
    · subst h₀
      simp [put, entry?, h]
    · simp only [put, if_neg h₀, entry?, ih]

@[simp] theorem entry?_without_self (r : Roster κ α) (k : κ) : entry? (without r k) k = none := by
  induction r with
  | nil => rfl
  | cons e rest ih =>
    obtain ⟨k', b⟩ := e
    by_cases h : k' = k <;> simp [without, entry?, h, ih]

theorem entry?_without_of_ne (r : Roster κ α) {k k' : κ} (h : k ≠ k') :
    entry? (without r k) k' = entry? r k' := by
  induction r with
  | nil => rfl
  | cons e rest ih =>
    obtain ⟨k₀, b⟩ := e
    by_cases h₀ : k₀ = k
    · subst h₀
      simp [without, entry?, h, ih]
    · simp only [without, if_neg h₀, entry?, ih]

theorem keys_without (r : Roster κ α) (k : κ) : keys (without r k) = (keys r).filter (· ≠ k) := by
  induction r with
  | nil => rfl
  | cons e rest ih =>
    obtain ⟨k', b⟩ := e
    by_cases h : k' = k <;> simp [without, h, ih]

theorem has_iff_mem_keys (r : Roster κ α) (k : κ) : has r k = true ↔ k ∈ keys r := by
  induction r with
  | nil => simp [has, keys]
  | cons e rest ih =>
    obtain ⟨k', b⟩ := e
    simp only [has, keys] at ih
    by_cases h : k' = k
    · simp [has, entry?, keys, h]
    · have h' : k ≠ k' := fun e ↦ h e.symm
      simp [has, entry?, keys, h, h', ih]

theorem keys_put_of_mem {r : Roster κ α} {k : κ} (a : α) (h : k ∈ keys r) :
    keys (put r k a) = keys r := by
  induction r with
  | nil => simp at h
  | cons e rest ih =>
    obtain ⟨k', b⟩ := e
    by_cases h' : k' = k
    · simp [put, h']
    · have h'' : k ≠ k' := fun e ↦ h' e.symm
      simp only [keys_cons, List.mem_cons, h'', false_or] at h
      simp [put, h', ih h]

theorem keys_put_of_not_mem {r : Roster κ α} {k : κ} (a : α) (h : k ∉ keys r) :
    keys (put r k a) = keys r ++ [k] := by
  induction r with
  | nil => rfl
  | cons e rest ih =>
    obtain ⟨k', b⟩ := e
    simp only [keys_cons, List.mem_cons, not_or] at h
    have h' : k' ≠ k := fun e ↦ h.1 e.symm
    simp [put, h', ih h.2]

end Roster

end Rebalance
