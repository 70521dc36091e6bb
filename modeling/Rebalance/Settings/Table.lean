import Rebalance.Value

/-!
# Tables of settings

Settings are tables within tables. A setting is addressed by a path of keys, written with dots
between them. Two layers of settings are merged key by key, the upper one winning wherever it holds
anything but a table.
-/

namespace Rebalance

/-- Settings under their keys. -/
abbrev Table := Roster String Value

namespace Table

/-- The parts of a text between its dots. -/
def parts : List Char → List (List Char)
  | [] => [[]]
  | c :: rest =>
    if c = '.' then [] :: parts rest
    else
      match parts rest with
      | [] => [[c]]
      | part :: more => (c :: part) :: more

theorem parts_ne_nil (cs : List Char) : parts cs ≠ [] := by
  cases cs with
  | nil => simp [parts]
  | cons c rest =>
    unfold parts
    split
    · simp
    · split <;> simp

/-- The keys along a path that is written with dots. -/
def path (key : String) : List String := (parts key.toList).map String.ofList

theorem path_ne_nil (key : String) : path key ≠ [] := by
  simp [path, parts_ne_nil]

/-! ## Looking up -/

/-- What a path leads to from a value. -/
def lookFrom : Value → List String → Option Value
  | v, [] => some v
  | .table t, k :: ks =>
    match Roster.entry? t k with
    | some v => lookFrom v ks
    | none => none
  | _, _ :: _ => none

/-- What a path leads to in a table. -/
def look (t : Table) (ks : List String) : Option Value := lookFrom (.table t) ks

/-- The setting of a key, or a default. -/
def get (t : Table) (key : String) (default : Value) : Value := (t.look (path key)).getD default

@[simp] theorem look_nil (t : Table) : look t [] = some (.table t) := rfl

theorem look_cons (t : Table) (k : String) (ks : List String) :
    look t (k :: ks) = (Roster.entry? t k).bind (lookFrom · ks) := by
  simp only [look, lookFrom]
  cases Roster.entry? t k <;> rfl

/-! ## Storing -/

/-- A value at the end of a path of new tables. -/
def nest (v : Value) : List String → Value
  | [] => v
  | k :: ks => .table [(k, nest v ks)]

/-- Stores a value at the end of a path. Tables that are missing on the way are made; where
something else is in the way there is no result. -/
def store? (v : Value) : List String → Table → Option Table
  | [], t => some t
  | [k], t => some (Roster.put t k v)
  | k :: ks, t =>
    match Roster.entry? t k with
    | none => some (Roster.put t k (nest v ks))
    | some (.table sub) => (store? v ks sub).map fun sub ↦ Roster.put t k (.table sub)
    | some _ => none

/-- Stores the setting of a key. -/
def set? (t : Table) (key : String) (v : Value) : Option Table := store? v (path key) t

/-! ## Merging -/

mutual

/-- What comes of a value when another is laid over it. -/
def overlay (below : Option Value) : Value → Value
  | .table t =>
    match below with
    | some (.table b) => .table (merge b t)
    | _ => .table t
  | v => v

/-- Lays a table over another. -/
def merge (below : Table) : List (String × Value) → Table
  | [] => below
  | (k, v) :: rest => merge (Roster.put below k (overlay (Roster.entry? below k) v)) rest

end

end Table

end Rebalance
