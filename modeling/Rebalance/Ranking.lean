import Rebalance.Roster

/-!
# Rankings

A ranking keeps items in ascending order of the keys they had when they came in. It remembers under
which key each came, so that an item can be found again by binary search even after whatever its key
was computed from has changed.

The search is right for keys in strict ascending order. Where keys are not comparable it may end
past the last entry; then nothing is taken out and `hasLost` says so.
-/

namespace Rebalance

/-- The first place in the interval from `lo` to `hi` whose key is not below the given one, by
halving the interval. -/
def searchBetween {κ : Type} [LT κ] [DecidableLT κ] (keys : List κ) (key : κ) (lo hi : Nat) : Nat :=
  if _h : lo < hi then
    let mid := (lo + hi) / 2
    if keys[mid]?.any (· < key) then searchBetween keys key (mid + 1) hi
    else searchBetween keys key lo mid
  else lo
termination_by hi - lo

/-- The place of a key among ascending keys. -/
def lowerBound {κ : Type} [LT κ] [DecidableLT κ] (keys : List κ) (key : κ) : Nat :=
  searchBetween keys key 0 keys.length

/-- Items of type `α` in the order of their keys, each known by an identity. -/
structure Ranking (ι κ α : Type) where
  /-- Keys and items, in order. -/
  entries : List (κ × α) := []
  /-- The key under which each identity came in. -/
  known : Roster ι κ := []
deriving DecidableEq

namespace Ranking

variable {ι κ α : Type}

instance : EmptyCollection (Ranking ι κ α) := ⟨{}⟩

instance : Inhabited (Ranking ι κ α) := ⟨∅⟩

def keys (r : Ranking ι κ α) : List κ := r.entries.map Prod.fst

def items (r : Ranking ι κ α) : List α := r.entries.map Prod.snd

def size (r : Ranking ι κ α) : Nat := r.entries.length

@[simp] theorem keys_empty : (∅ : Ranking ι κ α).keys = [] := rfl

@[simp] theorem items_empty : (∅ : Ranking ι κ α).items = [] := rfl

@[simp] theorem size_empty : (∅ : Ranking ι κ α).size = 0 := rfl

variable [DecidableEq ι] [LT κ] [DecidableLT κ]

/-- Whether an identity is in the ranking. -/
def has (r : Ranking ι κ α) (i : ι) : Bool := r.known.has i

/-- Brings in an item under a key; an identity that is known stays as it is. -/
def insert (r : Ranking ι κ α) (i : ι) (key : κ) (a : α) : Ranking ι κ α :=
  if r.known.has i then r
  else
    { entries := r.entries.insertIdx (lowerBound r.keys key) (key, a)
      known := r.known.put i key }

/-- Takes out the entry at the place of the key that an identity came with. -/
def erase (r : Ranking ι κ α) (i : ι) : Ranking ι κ α :=
  match r.known.entry? i with
  | none => r
  | some key =>
    { entries := r.entries.eraseIdx (lowerBound r.keys key)
      known := r.known.without i }

/-- Whether the search for a known identity ends past the last entry. -/
def hasLost (r : Ranking ι κ α) (i : ι) : Bool :=
  match r.known.entry? i with
  | none => false
  | some key => r.size ≤ lowerBound r.keys key

end Ranking

end Rebalance
