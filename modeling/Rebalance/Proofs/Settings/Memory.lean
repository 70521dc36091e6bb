import Rebalance.Proofs.Settings.Layers

/-!
# Tables in memory

In memory a table stands at a place, and whatever refers to a place shares the table there. To lay
a table over another, the lower one is copied to a new place, and where both have a table under a
key, the lower one's is copied in turn. So all tables that were there before stay as they were,
although the result refers to many of them, and it reads as the merged table.
-/

namespace Rebalance

/-- What stands under a key of a table in memory: a value, or a reference to a table. -/
inductive Cell where
  | plain (v : Value)
  | ref (place : Nat)

/-- The tables by their places. -/
abbrev Memory := List (Roster String Cell)

namespace Memory

variable {m m' m'' m₁ : Memory} {p q base top : Nat} {k : String} {ks : List String} {c : Cell}
  {cells lower upper rest : Roster String Cell} {v : Value} {b o t : Table}

/-- The cell under a key of the table at a place. -/
def cell? (m : Memory) (p : Nat) (k : String) : Option Cell := m[p]?.bind (Roster.entry? · k)

/-- Stores a cell in the table at a place. -/
def put (m : Memory) (p : Nat) (k : String) (c : Cell) : Memory := m.modify p (Roster.put · k c)

/-- What a path leads to from a cell. -/
def follow (m : Memory) : Cell → List String → Option Cell
  | c, [] => some c
  | .ref p, k :: ks =>
    match m.cell? p k with
    | some c => follow m c ks
    | none => none
  | .plain _, _ :: _ => none

@[simp] theorem length_put (m : Memory) (p : Nat) (k : String) (c : Cell) :
    (m.put p k c).length = m.length := List.length_modify ..

theorem getElem?_put_self (h : m[p]? = some cells) (k : String) (c : Cell) :
    (m.put p k c)[p]? = some (Roster.put cells k c) := by
  rw [put, List.getElem?_modify_eq, h]
  rfl

theorem getElem?_put_of_ne (h : q ≠ p) (k : String) (c : Cell) : (m.put p k c)[q]? = m[q]? := by
  rw [put, List.getElem?_modify_ne _ _ (Ne.symm h)]

/-! ## Laying one table over another -/

/-- Cells are laid over the table at a place, one after the other. A reference that meets another is
laid over a copy of the table there; all other cells are stored. -/
inductive Lays : Nat → Memory → Roster String Cell → Memory → Prop where
  | done {p : Nat} {m : Memory} : Lays p m [] m
  | nested {p b o : Nat} {m m₁ m' : Memory} {k : String} {lower upper rest : Roster String Cell}
      (hbelow : m.cell? p k = some (.ref b)) (hlower : m[b]? = some lower)
      (hupper : m[o]? = some upper) (hcopy : Lays m.length (m ++ [lower]) upper m₁)
      (hrest : Lays p (m₁.put p k (.ref m.length)) rest m') : Lays p m ((k, .ref o) :: rest) m'
  | stored {p : Nat} {m m' : Memory} {k : String} {c : Cell} {rest : Roster String Cell}
      (h : ∀ b o, m.cell? p k = some (.ref b) → c ≠ .ref o)
      (hrest : Lays p (m.put p k c) rest m') : Lays p m ((k, c) :: rest) m'

/-- One table is laid over another: the lower one is copied to the end of the memory, and the cells
of the upper one are laid over the copy. -/
def Merges (m : Memory) (base top : Nat) (m' : Memory) : Prop :=
  ∃ lower upper, m[base]? = some lower ∧ m[top]? = some upper ∧
    Lays m.length (m ++ [lower]) upper m'

namespace Lays

theorem length_le (h : Lays p m cells m') : m.length ≤ m'.length := by
  induction h with
  | done => exact Nat.le_refl _
  | nested _ _ _ _ _ ihcopy ihrest =>
    rw [List.length_append] at ihcopy
    rw [length_put] at ihrest
    omega
  | stored _ _ ih => rwa [length_put] at ih

/-- No other table that was there is touched. -/
theorem getElem?_eq (h : Lays p m cells m') (hq : q < m.length) (hne : q ≠ p) : m'[q]? = m[q]? := by
  induction h with
  | done => rfl
  | nested _ _ _ hcopy _ ihcopy ihrest =>
    have hlength := hcopy.length_le
    rw [List.length_append] at hlength
    rw [ihrest (by rw [length_put]; omega) hne, getElem?_put_of_ne hne,
      ihcopy (by rw [List.length_append]; omega) (by omega), List.getElem?_append_left hq]
  | stored _ _ ih => rw [ih (by rwa [length_put]) hne, getElem?_put_of_ne hne]

/-- Work on a copy touches nothing that was there before the copy. -/
theorem getElem?_eq_of_copy (h : Lays m.length (m ++ [lower]) cells m₁) (hq : q < m.length) :
    m₁[q]? = m[q]? := by
  rw [h.getElem?_eq (by rw [List.length_append]; omega) (by omega), List.getElem?_append_left hq]

theorem length_le_of_copy (h : Lays m.length (m ++ [lower]) cells m₁) : m.length < m₁.length := by
  have hle := h.length_le
  rw [List.length_append, List.length_singleton] at hle
  omega

theorem unique (h : Lays p m cells m') (h' : Lays p m cells m'') : m' = m'' := by
  induction h generalizing m'' with
  | done => cases h'; rfl
  | nested hbelow hlower hupper _ _ ihcopy ihrest =>
    cases h' with
    | nested hbelow' hlower' hupper' hcopy' hrest' =>
      cases hbelow.symm.trans hbelow'
      cases hlower.symm.trans hlower'
      cases hupper.symm.trans hupper'
      cases ihcopy hcopy'
      exact ihrest hrest'
    | stored h' _ => exact absurd rfl (h' _ _ hbelow)
  | stored h _ ih =>
    cases h' with
    | nested hbelow => exact absurd rfl (h _ _ hbelow)
    | stored _ hrest' => exact ih hrest'

end Lays

/-! ## What a memory holds -/

/-- Some of the tables of a memory. -/
abbrev Part := Nat → Option (Roster String Cell)

def Part.Within (E E' : Part) : Prop := ∀ q cells, E q = some cells → E' q = some cells

/-- All tables of a memory. -/
def tables (m : Memory) : Part := fun q ↦ m[q]?

/-- A cell stands for a value: a reference for the table that is made of what its cells stand for,
any other cell for what is in it. -/
inductive Holds (E : Part) : Cell → Value → Prop where
  | plain {v : Value} (h : ¬ v.IsTable) : Holds E (.plain v) v
  | ref {p : Nat} {cells : Roster String Cell} {t : Table} (hp : E p = some cells)
      (hkeys : cells.keys = t.keys)
      (h : ∀ k c v, Roster.entry? cells k = some c → Roster.entry? t k = some v → Holds E c v) :
      Holds E (.ref p) (.table t)

/-- The cells of a table stand for its entries. -/
structure HoldsAll (E : Part) (cells : Roster String Cell) (t : Table) : Prop where
  keys : cells.keys = t.keys
  holds : ∀ k c v, Roster.entry? cells k = some c → Roster.entry? t k = some v → Holds E c v

variable {E E' : Part}

theorem holds_ref_iff :
    Holds E (.ref p) v ↔ ∃ cells t, v = .table t ∧ E p = some cells ∧ HoldsAll E cells t := by
  constructor
  · intro h
    cases h with
    | ref hp hkeys h => exact ⟨_, _, rfl, hp, hkeys, h⟩
  · rintro ⟨cells, t, rfl, hp, hkeys, h⟩
    exact .ref hp hkeys h

theorem Holds.mono (h : Holds E c v) (hle : E.Within E') :
    Holds E' c v := by
  induction h with
  | plain h => exact .plain h
  | ref hp hkeys _ ih => exact .ref (hle _ _ hp) hkeys ih

namespace HoldsAll

theorem nil : HoldsAll E [] [] := ⟨rfl, nofun⟩

theorem cons (k : String) (hc : Holds E c v) (h : HoldsAll E cells t) :
    HoldsAll E ((k, c) :: cells) ((k, v) :: t) := by
  refine ⟨congrArg (k :: ·) h.keys, fun k' c' v' hc' hv' ↦ ?_⟩
  unfold Roster.entry? at hc' hv'
  by_cases hk : k = k'
  · rw [if_pos hk] at hc' hv'
    cases hc'
    cases hv'
    exact hc
  · rw [if_neg hk] at hc' hv'
    exact h.holds k' c' v' hc' hv'

theorem mono (h : HoldsAll E cells t) (hle : E.Within E') :
    HoldsAll E' cells t :=
  ⟨h.keys, fun k c v hc hv ↦ (h.holds k c v hc hv).mono hle⟩

theorem entry?_eq_none_iff (h : HoldsAll E cells t) :
    Roster.entry? cells k = none ↔ Roster.entry? t k = none := by
  rw [Roster.entry?_eq_none_iff, Roster.entry?_eq_none_iff, h.keys]

theorem exists_entry (h : HoldsAll E cells t) (hc : Roster.entry? cells k = some c) :
    ∃ v, Roster.entry? t k = some v ∧ Holds E c v := by
  cases hv : Roster.entry? t k with
  | none =>
    rw [← h.entry?_eq_none_iff, hc] at hv
    cases hv
  | some v => exact ⟨v, rfl, h.holds k c v hc hv⟩

protected theorem put (h : HoldsAll E cells t) (hc : Holds E c v) (k : String) :
    HoldsAll E (Roster.put cells k c) (Roster.put t k v) := by
  constructor
  · by_cases hk : k ∈ t.keys
    · rw [Roster.keys_put_of_mem v hk, Roster.keys_put_of_mem c (h.keys ▸ hk), h.keys]
    · rw [Roster.keys_put_of_not_mem v hk, Roster.keys_put_of_not_mem c (h.keys ▸ hk), h.keys]
  · intro k' c' v' hc' hv'
    rw [Roster.entry?_put] at hc' hv'
    by_cases hk : k' = k
    · rw [if_pos hk] at hc' hv'
      cases hc'
      cases hv'
      exact hc
    · rw [if_neg hk] at hc' hv'
      exact h.holds k' c' v' hc' hv'

/-- What stands for a table with an entry in front has a cell for it in front. -/
theorem exists_cons (h : HoldsAll E cells ((k, v) :: t)) (hk : k ∉ t.keys) :
    ∃ c rest, cells = (k, c) :: rest ∧ Holds E c v ∧ HoldsAll E rest t := by
  cases cells with
  | nil => cases h.keys
  | cons e rest =>
    obtain ⟨k', c⟩ := e
    obtain ⟨rfl, hkeys⟩ := List.cons.inj h.keys
    refine ⟨c, rest, rfl, h.holds k' c v (if_pos rfl) (if_pos rfl), hkeys, ?_⟩
    intro k c' v' hc hv
    have hne : k' ≠ k := by
      rintro rfl
      exact hk ((Roster.has_iff_mem_keys t k').1 (Roster.has_of_entry_eq_some hv))
    exact h.holds k c' v' ((if_neg hne).trans hc) ((if_neg hne).trans hv)

/-- Unless a table meets a table, a value stays as it is when it is laid over another. -/
theorem overlay_eq_self (h : HoldsAll E lower b) (hc : Holds E c v)
    (hstored : ∀ b' o', Roster.entry? lower k = some (.ref b') → c ≠ .ref o') :
    Table.overlay (Roster.entry? b k) v = v := by
  cases hc with
  | plain hv => exact Table.overlay_of_not_isTable hv _
  | ref _ _ _ =>
    refine Table.overlay_of_no_table (fun tb htb ↦ ?_) _
    cases hk : Roster.entry? lower k with
    | none =>
      rw [h.entry?_eq_none_iff.1 hk] at htb
      cases htb
    | some c' =>
      cases h.holds k c' _ hk htb with
      | plain hv => exact absurd trivial hv
      | ref => exact hstored _ _ hk rfl

end HoldsAll

/-! ## What comes of a table that is laid over another -/

/-- A part of a memory that leaves out the table at one place. -/
structure Beside (E : Part) (p : Nat) (m : Memory) : Prop where
  there : ∀ q cells, E q = some cells → m[q]? = some cells
  apart : E p = none

/-- A part of a memory, with the tables that came later. -/
def since (m' m : Memory) (E : Part) : Part := fun q ↦ if q < m.length then E q else m'[q]?

theorem since_of_lt (hq : q < m.length) (m' : Memory) (E : Part) : since m' m E q = E q := if_pos hq

theorem since_of_le (hq : m.length ≤ q) (m' : Memory) (E : Part) : since m' m E q = m'[q]? :=
  if_neg (Nat.not_lt.2 hq)

theorem since_put (m' m : Memory) (p : Nat) (k : String) (c : Cell) (E : Part) :
    since m' (m.put p k c) E = since m' m E := by
  funext q
  rw [since, since, length_put]

namespace Beside

theorem lt_length (h : Beside E p m) (hq : E q = some cells) : q < m.length :=
  (List.getElem?_eq_some_iff.1 (h.there q cells hq)).1

theorem eq_none (h : Beside E p m) (hq : m.length ≤ q) : E q = none := by
  cases hE : E q with
  | none => rfl
  | some cells => exact absurd (h.lt_length hE) (Nat.not_lt.2 hq)

theorem within_since (h : Beside E p m) (m' : Memory) : E.Within (since m' m E) := by
  intro q cells hq
  rwa [since_of_lt (h.lt_length hq)]

theorem ne (h : Beside E p m) (hq : E q = some cells) : q ≠ p := by
  rintro rfl
  cases h.apart.symm.trans hq

/-- A copy of a table can be worked on beside the part that the table is in. -/
theorem copy (h : Beside E p m) (lower : Roster String Cell) :
    Beside E m.length (m ++ [lower]) where
  there q cells hq := by rw [List.getElem?_append_left (h.lt_length hq), h.there q cells hq]
  apart := h.eq_none (Nat.le_refl _)

/-- Once a copy is done, it is one of the tables that came later. -/
theorem within_since_of_copy (h : Beside E p m) (lower : Roster String Cell) :
    (since m₁ (m ++ [lower]) E).Within (since m₁ m E) := by
  intro q cells hq
  by_cases hlt : q < (m ++ [lower]).length
  · rw [since_of_lt hlt] at hq
    rwa [since_of_lt (h.lt_length hq)]
  · rw [List.length_append] at hlt
    rw [since_of_le (by rw [List.length_append]; omega)] at hq
    rwa [since_of_le (by omega)]

theorem put (h : Beside E p m) (k : String) (c : Cell) : Beside E p (m.put p k c) where
  there q cells hq := by rw [getElem?_put_of_ne (h.ne hq), h.there q cells hq]
  apart := h.apart

/-- The work goes on beside what was there and the copy that has been worked on. -/
theorem put_copy (h : Beside E p m) (hp : p < m.length)
    (hcopy : Lays m.length (m ++ [lower]) upper m₁) :
    Beside (since m₁ m E) p (m₁.put p k c) where
  there q cells hq := by
    have hapart : since m₁ m E p = none := (since_of_lt hp _ _).trans h.apart
    have hne : q ≠ p := by
      rintro rfl
      cases hapart.symm.trans hq
    rw [getElem?_put_of_ne hne]
    by_cases hlt : q < m.length
    · rw [since_of_lt hlt] at hq
      rw [hcopy.getElem?_eq_of_copy hlt, h.there q cells hq]
    · rwa [since_of_le (Nat.not_lt.1 hlt)] at hq
  apart := (since_of_lt hp _ _).trans h.apart

end Beside

/-- What came while a copy was worked on is among what came since. -/
theorem within_since_of_lays (hp : p < m.length) (hcopy : Lays m.length (m ++ [lower]) upper m₁)
    (h : Lays p (m₁.put p k c) rest m') :
    (since m' (m₁.put p k c) (since m₁ m E)).Within (since m' m E) := by
  intro q cells hq
  by_cases hlt : q < m.length
  · have hlt₁ : q < (m₁.put p k c).length := by
      rw [length_put]
      exact Nat.lt_trans hlt hcopy.length_le_of_copy
    rwa [since_of_lt hlt₁, since_of_lt hlt, ← since_of_lt hlt m' E] at hq
  · rw [since_of_le (Nat.not_lt.1 hlt)]
    by_cases hlt₁ : q < (m₁.put p k c).length
    · rw [since_of_lt hlt₁, since_of_le (Nat.not_lt.1 hlt)] at hq
      rwa [h.getElem?_eq hlt₁ (by omega), getElem?_put_of_ne (by omega)]
    · rwa [since_of_le (Nat.not_lt.1 hlt₁)] at hq

/-- Whatever stands for a table can be laid over any table in the making, which then stands for the
merged table. -/
def Spreads (o : Table) : Prop :=
  ∀ (E : Part) (p : Nat) (m : Memory) (lower upper : Roster String Cell) (b : Table),
    Beside E p m → m[p]? = some lower → HoldsAll E lower b → HoldsAll E upper o →
    ∃ m' cells, Lays p m upper m' ∧ m'[p]? = some cells ∧
      HoldsAll (since m' m E) cells (Table.merge b o)

namespace Spreads

theorem nil : Spreads [] := by
  intro E p m lower upper b hbeside hp hlower hupper
  cases upper with
  | nil => exact ⟨m, lower, .done, hp, hlower.mono (hbeside.within_since m)⟩
  | cons e rest => cases hupper.keys

theorem cons (hv : ∀ t, v = .table t → Spreads t) (ht : Spreads t) (hk : k ∉ t.keys) :
    Spreads ((k, v) :: t) := by
  intro E p m lower upper b hbeside hp hlower hupper
  obtain ⟨c, rest, rfl, hc, hrest⟩ := hupper.exists_cons hk
  have hplt : p < m.length := (List.getElem?_eq_some_iff.1 hp).1
  have hcell : m.cell? p k = Roster.entry? lower k := by rw [cell?, hp, Option.bind_some]
  rw [Table.merge_cons]
  by_cases hnested : ∃ b' o', m.cell? p k = some (.ref b') ∧ c = .ref o'
  · -- A table meets a table: a copy of the lower one is laid over first, beside all that was there.
    obtain ⟨b', o', hbelow, rfl⟩ := hnested
    obtain ⟨u, hu, hholds⟩ := hlower.exists_entry (hcell ▸ hbelow)
    obtain ⟨lower', tb, rfl, hb', hlower'⟩ := holds_ref_iff.1 hholds
    obtain ⟨upper', tv, rfl, ho', hupper'⟩ := holds_ref_iff.1 hc
    obtain ⟨m₁, cells₁, hcopy, hcells₁, hholds₁⟩ :=
      hv tv rfl E m.length (m ++ [lower']) lower' upper' tb (hbeside.copy lower')
        List.getElem?_concat_length hlower' hupper'
    have href : Holds (since m₁ m E) (.ref m.length) (.table (Table.merge tb tv)) :=
      holds_ref_iff.2 ⟨cells₁, _, rfl, (since_of_le (Nat.le_refl _) _ _).trans hcells₁,
        hholds₁.mono (hbeside.within_since_of_copy lower')⟩
    have hwithin := hbeside.within_since m₁
    obtain ⟨m', cells', hlays, hcells', hholds'⟩ :=
      ht (since m₁ m E) p (m₁.put p k (.ref m.length)) _ rest _ (hbeside.put_copy hplt hcopy)
        (getElem?_put_self ((hcopy.getElem?_eq_of_copy hplt).trans hp) k _)
        ((hlower.mono hwithin).put href k) (hrest.mono hwithin)
    refine ⟨m', cells', .nested hbelow (hbeside.there _ _ hb') (hbeside.there _ _ ho') hcopy hlays,
      hcells', ?_⟩
    rw [hu, Table.overlay_table]
    exact hholds'.mono (within_since_of_lays hplt hcopy hlays)
  · have hstored : ∀ b' o', m.cell? p k = some (.ref b') → c ≠ .ref o' := fun b' o' hb' ho' ↦
      hnested ⟨b', o', hb', ho'⟩
    obtain ⟨m', cells', hlays, hcells', hholds'⟩ := ht E p (m.put p k c) _ rest _
      (hbeside.put k c) (getElem?_put_self hp k c) (hlower.put hc k) hrest
    refine ⟨m', cells', .stored hstored hlays, hcells', ?_⟩
    rw [hlower.overlay_eq_self hc fun b' o' hb' ↦ hstored b' o' (hcell.trans hb')]
    rwa [since_put] at hholds'

theorem of_wellKeyed (h : v.WellKeyed) : ∀ t, v = .table t → Spreads t := by
  induction h with
  | plain h =>
    rintro t rfl
    exact absurd trivial h
  | @table t hkeys ht ih =>
    rintro _ ⟨⟩
    induction t with
    | nil => exact nil
    | cons e rest ihrest =>
      rw [Roster.keys_cons, List.nodup_cons] at hkeys
      rw [List.forall_mem_cons] at ht ih
      exact cons ih.1 (ihrest hkeys.2 ht.2 ih.2) hkeys.1

end Spreads

/-! ## Merging -/

/-- A path leads from a cell to what stands for what it leads to from the value. -/
theorem Holds.rel_follow (h : Holds m.tables c v) (ks : List String) :
    Option.Rel (Holds m.tables) (m.follow c ks) (Table.lookFrom v ks) := by
  induction ks generalizing c v with
  | nil =>
    rw [Table.lookFrom_nil]
    cases c <;> exact .some h
  | cons k ks ih =>
    cases h with
    | plain h =>
      rw [Table.lookFrom_cons_of_not_isTable h]
      exact .none
    | @ref p cells t hp hkeys h =>
      have hall : HoldsAll m.tables cells t := ⟨hkeys, h⟩
      have hcell : m.cell? p k = Roster.entry? cells k := by
        rw [cell?, show m[p]? = some cells from hp, Option.bind_some]
      rw [follow, hcell, Table.lookFrom_table_cons]
      cases hk : Roster.entry? cells k with
      | none =>
        rw [hall.entry?_eq_none_iff.1 hk]
        exact .none
      | some c =>
        obtain ⟨v, hv, hc⟩ := hall.exists_entry hk
        rw [hv]
        exact ih hc

namespace Merges

variable {E : Part}

/-- Merging changes no table that was there before. -/
theorem getElem?_eq (h : Merges m base top m') (hq : q < m.length) : m'[q]? = m[q]? := by
  obtain ⟨lower, upper, -, -, hlays⟩ := h
  exact hlays.getElem?_eq_of_copy hq

theorem within (h : Merges m base top m') : m.tables.Within m'.tables := fun _ _ hq ↦
  (h.getElem?_eq (List.getElem?_eq_some_iff.1 hq).1).trans hq

/-- Whatever was there leads where it led before. -/
theorem follow_eq (h : Merges m base top m') (hc : Holds m.tables c v) (ks : List String) :
    m'.follow c ks = m.follow c ks := by
  induction ks generalizing c v with
  | nil => cases c <;> rfl
  | cons k ks ih =>
    cases hc with
    | plain => rfl
    | @ref p cells t hp hkeys hall =>
      have hcell : m'.cell? p k = m.cell? p k := by
        rw [cell?, cell?, h.getElem?_eq (List.getElem?_eq_some_iff.1 hp).1]
      rw [follow, follow, hcell]
      cases hk : m.cell? p k with
      | none => rfl
      | some c =>
        rw [cell?, show m[p]? = some cells from hp, Option.bind_some] at hk
        obtain ⟨v, -, hv⟩ := HoldsAll.exists_entry ⟨hkeys, hall⟩ hk
        exact ih hv

end Merges

/-- Tables that are merged in memory come to one thing, and that stands for the merged table. -/
theorem exists_merges (ho : o.WellKeyed) (hbase : Holds m.tables (.ref base) (.table b))
    (htop : Holds m.tables (.ref top) (.table o)) :
    ∃ m', (∀ m'', Merges m base top m'' ↔ m'' = m') ∧
      Holds m'.tables (.ref m.length) (.table (Table.merge b o)) := by
  obtain ⟨lower, _, ⟨⟩, hb, hlower⟩ := holds_ref_iff.1 hbase
  obtain ⟨upper, _, ⟨⟩, ho', hupper⟩ := holds_ref_iff.1 htop
  have hbeside : Beside m.tables m.length m :=
    ⟨fun _ _ hq ↦ hq, List.getElem?_eq_none (Nat.le_refl _)⟩
  obtain ⟨m', cells, hlays, hcells, hholds⟩ := Spreads.of_wellKeyed ho o rfl m.tables m.length
    (m ++ [lower]) lower upper b (hbeside.copy lower) List.getElem?_concat_length hlower hupper
  have hmerges : Merges m base top m' := ⟨lower, upper, hb, ho', hlays⟩
  refine ⟨m', fun m'' ↦ ⟨?_, by rintro rfl; exact hmerges⟩, ?_⟩
  · rintro ⟨lower', upper', hb', ho'', hlays'⟩
    cases hb.symm.trans hb'
    cases ho'.symm.trans ho''
    exact hlays'.unique hlays
  · refine holds_ref_iff.2 ⟨cells, _, rfl, hcells, hholds.mono fun q cells hq ↦ ?_⟩
    by_cases hlt : q < m.length
    · have hpart := hbeside.within_since_of_copy lower q cells hq
      rw [since_of_lt hlt] at hpart
      exact hmerges.within q cells hpart
    · have hpart := hbeside.within_since_of_copy lower q cells hq
      rwa [since_of_le (Nat.not_lt.1 hlt)] at hpart

end Memory

namespace Table

variable {o : Table}

/-- In settings of two layers a path leads to the value that the upper layer has there, unless that
is a table; to nothing where the upper layer obstructs it; to what the lower layer has where the
upper one lacks it; and to the upper layer's table laid over the lower one's, if that is a table
too. The upper layer changes nothing when it is laid over them again. In memory, two tables can be
merged in one way; it leaves all tables that were there as they are, all that was there leads where
it led before, and so does the result lead where the merged table does. -/
theorem upper_layer_prevails (ho : o.WellKeyed) (b : Table) :
    (∀ ks,
      (∀ v, o.look ks = some v → ¬ v.IsTable → (merge b o).look ks = some v) ∧
      (o.Obstructed ks → (merge b o).look ks = none) ∧
      (o.look ks = none → ¬ o.Obstructed ks → (merge b o).look ks = b.look ks) ∧
      ∀ t, o.look ks = some (.table t) →
        (∀ s, b.look ks = some (.table s) → (merge b o).look ks = some (.table (merge s t))) ∧
        ((∀ s, b.look ks ≠ some (.table s)) → (merge b o).look ks = some (.table t))) ∧
    merge (merge b o) o = merge b o ∧
    ∀ (m : Memory) (base top : Nat), Memory.Holds m.tables (.ref base) (.table b) →
      Memory.Holds m.tables (.ref top) (.table o) →
      ∃ m', (∀ m'', m.Merges base top m'' ↔ m'' = m') ∧
        (∀ place < m.length, m'[place]? = m[place]?) ∧
        (∀ ks, m'.follow (.ref base) ks = m.follow (.ref base) ks) ∧
        ∀ ks, Option.Rel (Memory.Holds m'.tables) (m'.follow (.ref m.length) ks)
          ((merge b o).look ks) := by
  refine ⟨fun ks ↦ ?_, merge_merge ho b, fun m base top hbase htop ↦ ?_⟩
  · have hlook := lookFrom_overlay ho (some (.table b)) ks
    rw [overlay_table, Option.bind_some] at hlook
    change (∃ w, o.look ks = some w ∧ (merge b o).look ks = some (overlay (b.look ks) w)) ∨
      (o.Obstructed ks ∧ o.look ks = none ∧ (merge b o).look ks = none) ∨
      (¬ o.Obstructed ks ∧ o.look ks = none ∧ (merge b o).look ks = b.look ks) at hlook
    rcases hlook with ⟨w, hw, hmerged⟩ | ⟨hobstructed, hnone, hmerged⟩ | ⟨hfree, hnone, hmerged⟩
    · rw [hw, hmerged]
      refine ⟨?_, fun h ↦ ?_, by simp, ?_⟩
      · rintro _ ⟨⟩ hplain
        rw [overlay_of_not_isTable hplain]
      · rw [look, lookFrom_of_obstructedFrom h] at hw
        cases hw
      · rintro t ⟨⟩
        refine ⟨fun s hs ↦ ?_, fun hno ↦ ?_⟩
        · rw [hs, overlay_table]
        · rw [overlay_of_no_table hno]
    · rw [hnone, hmerged]
      exact ⟨by simp, fun _ ↦ rfl, fun _ hfree ↦ absurd hobstructed hfree, by simp⟩
    · rw [hnone, hmerged]
      exact ⟨by simp, fun hobstructed ↦ absurd hobstructed hfree, fun _ _ ↦ rfl, by simp⟩
  · obtain ⟨m', hunique, hresult⟩ := Memory.exists_merges ho hbase htop
    have hmerges := (hunique m').2 rfl
    exact ⟨m', hunique, fun _ ↦ hmerges.getElem?_eq, hmerges.follow_eq hbase, hresult.rel_follow⟩

/-- Settings with three sections, two of which are the same. -/
def sectioned : Table :=
  let logging : Value := .table [("level", .text "INFO"), ("format", .text "json")]
  [("analyzer", .table [("threshold", .int 2)]), ("logging", logging), ("spare", logging)]

/-- A layer with a value in place of one section, and a part of another. -/
def patch : Table := [("analyzer", .null), ("logging", .table [("level", .text "DEBUG")])]

/-- A memory with these settings, in which the two sections are one table, and with the layer. -/
def sharing : Memory :=
  [[("analyzer", .ref 1), ("logging", .ref 2), ("spare", .ref 2)],
    [("threshold", .plain (.int 2))],
    [("level", .plain (.text "INFO")), ("format", .plain (.text "json"))],
    [("analyzer", .plain .null), ("logging", .ref 4)],
    [("level", .plain (.text "DEBUG"))]]

theorem wellKeyed_patch : patch.WellKeyed := by
  simp only [WellKeyed, patch, Value.wellKeyed_table, List.forall_mem_cons]
  exact ⟨by decide, .plain id, ⟨by decide, .plain id, by simp⟩, by simp⟩

/-- The layer's value hides a section, its level replaces the one below, whose format stays; the
table that has been shared is not touched. -/
theorem upper_layer_prevails_patched :
    patch.WellKeyed ∧ (merge sectioned patch).look ["analyzer"] = some .null ∧
      (merge sectioned patch).look ["analyzer", "threshold"] = none ∧
      (merge sectioned patch).look ["logging", "level"] = some (.text "DEBUG") ∧
      (merge sectioned patch).look ["logging", "format"] = some (.text "json") ∧
      merge (merge sectioned patch) patch = merge sectioned patch ∧
      ∃ m', sharing.Merges 0 3 m' ∧
        m'.follow (.ref 0) ["logging", "level"] = some (.plain (.text "INFO")) := by
  obtain ⟨hlook, htwice, hmemory⟩ := upper_layer_prevails wellKeyed_patch sectioned
  have hlogging : Memory.Holds sharing.tables (.ref 2)
      (.table [("level", .text "INFO"), ("format", .text "json")]) :=
    Memory.holds_ref_iff.2 ⟨_, _, rfl, rfl, .cons _ (.plain id) (.cons _ (.plain id) .nil)⟩
  have hsectioned : Memory.Holds sharing.tables (.ref 0) (.table sectioned) :=
    Memory.holds_ref_iff.2 ⟨_, _, rfl, rfl, .cons _ (Memory.holds_ref_iff.2
      ⟨_, _, rfl, rfl, .cons _ (.plain id) .nil⟩) (.cons _ hlogging (.cons _ hlogging .nil))⟩
  have hpatch : Memory.Holds sharing.tables (.ref 3) (.table patch) :=
    Memory.holds_ref_iff.2 ⟨_, _, rfl, rfl, .cons _ (.plain id) (.cons _ (Memory.holds_ref_iff.2
      ⟨_, _, rfl, rfl, .cons _ (.plain id) .nil⟩) .nil)⟩
  obtain ⟨m', hmerges, -, hfollow, -⟩ := hmemory sharing 0 3 hsectioned hpatch
  refine ⟨wellKeyed_patch, (hlook _).1 _ rfl id, (hlook _).2.1 (by decide),
    (hlook _).1 _ rfl id, ((hlook _).2.2.1 rfl (by decide)).trans rfl, htwice, m',
    (hmerges m').2 rfl, (hfollow _).trans rfl⟩

end Table

end Rebalance
