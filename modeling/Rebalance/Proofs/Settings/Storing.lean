import Mathlib.Data.List.Infix
import Rebalance.Proofs.Settings.Paths
import Rebalance.Settings.Sources

/-!
# Storing settings

A value is stored at the end of a path exactly if the path is not obstructed. Then it is found
there, and every path that neither leads there nor beyond leads where it led before. That the tables
on the way are made while walking along the path does not matter: the walk cannot fail once it has
made one, so a failure leaves everything as it was.
-/

namespace Rebalance

namespace Table

variable {v : Value} {t t' s : Table} {k : String} {ks ks' : List String}

/-! ## One key after the other -/

/-- The table that a path goes on in beyond a key: an empty one where the key is missing. -/
def below? (t : Table) (k : String) : Option Table :=
  match Roster.entry? t k with
  | none => some []
  | some (.table s) => some s
  | some _ => none

theorem below?_eq_none_iff :
    t.below? k = none ↔ ∃ w, Roster.entry? t k = some w ∧ ¬ w.IsTable := by
  unfold below?
  cases hk : Roster.entry? t k with
  | none => simp
  | some w => cases w <;> simp [Value.IsTable]

theorem store?_nil (v : Value) (k : String) (ks : List String) :
    store? v (k :: ks) [] = some [(k, nest v ks)] := by
  cases ks <;> rfl

/-- Beyond its first key, a path is stored in the table that it goes on in. -/
theorem store?_cons (hks : ks ≠ []) (v : Value) (t : Table) : store? v (k :: ks) t =
    (t.below? k).bind fun s ↦ (store? v ks s).map fun s' ↦ Roster.put t k (.table s') := by
  unfold below?
  rw [store?]
  · cases Roster.entry? t k with
    | none =>
      obtain ⟨k', ks, rfl⟩ := List.exists_cons_of_ne_nil hks
      rw [Option.bind_some, store?_nil]
      rfl
    | some w => cases w <;> rfl
  · exact hks

/-- What is stored beyond a first key is stored in the table that the path goes on in. -/
theorem exists_store?_of_cons (hks : ks ≠ []) (h : store? v (k :: ks) t = some t') :
    ∃ s s', t.below? k = some s ∧ store? v ks s = some s' ∧ t' = Roster.put t k (.table s') := by
  rw [store?_cons hks, Option.bind_eq_some_iff] at h
  obtain ⟨s, hs, h⟩ := h
  obtain ⟨s', hs', rfl⟩ := Option.map_eq_some_iff.1 h
  exact ⟨s, s', hs, hs', rfl⟩

/-- Only what is under the first key changes. -/
theorem exists_put_of_store? (h : store? v (k :: ks) t = some t') :
    ∃ w, t' = Roster.put t k w := by
  by_cases hks : ks = []
  · subst hks
    cases h
    exact ⟨v, rfl⟩
  · obtain ⟨s, s', -, -, rfl⟩ := exists_store?_of_cons hks h
    exact ⟨_, rfl⟩

theorem below?_put_self (t : Table) (k : String) (s : Table) :
    below? (Roster.put t k (.table s)) k = some s := by
  rw [below?, Roster.entry?_put_self]

theorem look_cons_of_below? (hks : ks ≠ []) (h : t.below? k = some s) :
    look t (k :: ks) = look s ks := by
  obtain ⟨k', ks, rfl⟩ := List.exists_cons_of_ne_nil hks
  unfold below? at h
  rw [look_cons]
  cases hk : Roster.entry? t k with
  | none =>
    rw [hk] at h
    cases h
    rfl
  | some w =>
    rw [hk] at h
    cases w <;> cases h
    rfl

theorem obstructed_cons_of_below? (h : t.below? k = some s) :
    t.Obstructed (k :: ks) ↔ s.Obstructed ks := by
  rw [obstructed_cons]
  unfold below? at h
  cases hk : Roster.entry? t k with
  | none =>
    rw [hk] at h
    cases h
    refine ⟨by simp, ?_⟩
    rintro ⟨q, hq, hne, w, hw, hplain⟩
    cases q with
    | nil => cases hw; exact absurd trivial hplain
    | cons => cases hw
  | some w =>
    rw [hk] at h
    cases w <;> cases h
    simp [obstructedFrom_table]

theorem obstructed_of_below?_eq_none (hks : ks ≠ []) (h : t.below? k = none) :
    t.Obstructed (k :: ks) := by
  obtain ⟨k', ks, rfl⟩ := List.exists_cons_of_ne_nil hks
  obtain ⟨w, hw, hplain⟩ := below?_eq_none_iff.1 h
  exact obstructed_cons.2 ⟨w, hw, obstructedFrom_cons_of_not_isTable hplain k' ks⟩

/-! ## Stored values -/

/-- Nothing is stored exactly where something is in the way. -/
theorem store?_eq_none_iff (hks : ks ≠ []) : store? v ks t = none ↔ t.Obstructed ks := by
  induction ks generalizing t with
  | nil => exact absurd rfl hks
  | cons k ks ih =>
    by_cases hrest : ks = []
    · subst hrest
      simp [store?, obstructed_cons, not_obstructedFrom_nil]
    · rw [store?_cons hrest]
      cases hs : t.below? k with
      | none => exact iff_of_true rfl (obstructed_of_below?_eq_none hrest hs)
      | some s =>
        rw [Option.bind_some, Option.map_eq_none_iff, ih hrest, obstructed_cons_of_below? hs]

/-- A value that is stored is found. -/
theorem look_store?_self (hks : ks ≠ []) (h : store? v ks t = some t') : look t' ks = some v := by
  induction ks generalizing t t' with
  | nil => exact absurd rfl hks
  | cons k ks ih =>
    by_cases hrest : ks = []
    · subst hrest
      cases h
      rw [look_cons, Roster.entry?_put_self, Option.bind_some, lookFrom_nil]
    · obtain ⟨s, s', -, hs', rfl⟩ := exists_store?_of_cons hrest h
      rw [look_cons_of_below? hrest (below?_put_self t k s'), ih hrest hs']

/-- Paths that neither lead to a value that is stored nor through it lead where they led. -/
theorem look_store?_of_not_prefix (h : store? v ks t = some t') (hks : ¬ ks <+: ks')
    (hks' : ¬ ks' <+: ks) : look t' ks' = look t ks' := by
  induction ks generalizing t t' ks' with
  | nil => exact absurd List.nil_prefix hks
  | cons k ks ih =>
    cases ks' with
    | nil => exact absurd List.nil_prefix hks'
    | cons k' ks' =>
      rw [List.cons_prefix_cons, not_and] at hks hks'
      by_cases hk : k = k'
      · subst hk
        have hrest : ks ≠ [] := by
          rintro rfl
          exact hks rfl List.nil_prefix
        have hrest' : ks' ≠ [] := by
          rintro rfl
          exact hks' rfl List.nil_prefix
        obtain ⟨s, s', hbelow, hs', rfl⟩ := exists_store?_of_cons hrest h
        rw [look_cons_of_below? hrest' (below?_put_self t k s'), ih hs' (hks rfl) (hks' rfl),
          look_cons_of_below? hrest' hbelow]
      · obtain ⟨w, rfl⟩ := exists_put_of_store? h
        rw [look_cons, look_cons, Roster.entry?_put_of_ne t w hk]

/-- Storing a value obstructs no other path than those that lead to it or through it, and clears
none. -/
theorem obstructed_store?_iff (h : store? v ks t = some t') (hks : ¬ ks <+: ks') :
    t'.Obstructed ks' ↔ t.Obstructed ks' := by
  induction ks generalizing t t' ks' with
  | nil => exact absurd List.nil_prefix hks
  | cons k ks ih =>
    cases ks' with
    | nil => exact iff_of_false not_obstructedFrom_nil not_obstructedFrom_nil
    | cons k' ks' =>
      rw [List.cons_prefix_cons, not_and] at hks
      by_cases hk : k = k'
      · subst hk
        have hrest : ks ≠ [] := by
          rintro rfl
          exact hks rfl List.nil_prefix
        obtain ⟨s, s', hbelow, hs', rfl⟩ := exists_store?_of_cons hrest h
        rw [obstructed_cons_of_below? hbelow, obstructed_cons_of_below? (below?_put_self t k s'),
          ih hs' (hks rfl)]
      · obtain ⟨w, rfl⟩ := exists_put_of_store? h
        rw [obstructed_cons, obstructed_cons, Roster.entry?_put_of_ne t w hk]

end Table

/-! ## Walking along a path -/

namespace Value

variable {v w : Value} {k : String} {ks : List String}

/-- Whether a text is found in a value: among the keys of a table, the elements of a list or the
parts of a text. Nothing can be found in other values. -/
def contains? : Value → String → Option Bool
  | table t, k => some (Roster.has t k)
  | list vs, k => some (vs.any fun | text s => s = k | _ => false)
  | text s, k => some (k.toList <:+: s.toList)
  | _, _ => none

/-- What is under a text in a value. Lists and texts have nothing under a text, even if it is found
in them. -/
def item? : Value → String → Option Value
  | table t, k => Roster.entry? t k
  | _, _ => none

/-- Stores under a text in a value; only a table takes that. -/
def putItem? : Value → String → Value → Option Value
  | table t, k, v => some (table (Roster.put t k v))
  | _, _, _ => none

/-- Makes an empty table under a text that is not found. -/
def opened? (w : Value) (k : String) : Option Value :=
  match w.contains? k with
  | some true => some w
  | some false => w.putItem? k (table [])
  | none => none

/-- Stores a value by walking along a path, and tells whether the walk came to its end. What it has
done on the way stays, be it so or not. -/
def walk (v : Value) : List String → Value → Value × Bool
  | [], w => (w, false)
  | [k], w => ((w.putItem? k v).getD w, (w.putItem? k v).isSome)
  | k :: ks, w =>
    match w.opened? k with
    | none => (w, false)
    | some w =>
      match w.item? k with
      | none => (w, false)
      | some sub =>
        let (sub, arrived) := walk v ks sub
        ((w.putItem? k sub).getD w, arrived)

/-- Whatever is found in it, a value that is not a table ends the walk. -/
theorem walk_of_not_isTable (h : ¬ w.IsTable) (v : Value) (ks : List String) :
    walk v ks w = (w, false) := by
  have hput : ∀ k u, w.putItem? k u = none := fun k u ↦ by
    cases w <;> first | rfl | exact absurd trivial h
  have hitem : ∀ k, w.item? k = none := fun k ↦ by
    cases w <;> first | rfl | exact absurd trivial h
  match ks with
  | [] => rfl
  | [k] =>
    rw [walk, hput]
    rfl
  | k :: k' :: ks =>
    unfold walk opened?
    cases w.contains? k with
    | none => rfl
    | some found =>
      cases found with
      | true => simp only [hitem]
      | false => simp only [hput]

theorem opened?_table (t : Table) (k : String) : (table t).opened? k =
    some (table (Roster.put t k ((Roster.entry? t k).getD (table [])))) := by
  have hfound : (table t).contains? k = some (Roster.entry? t k).isSome := rfl
  rw [opened?, hfound]
  cases hk : Roster.entry? t k with
  | none => rfl
  | some w =>
    rw [Option.getD_some, Roster.put_entry?_eq_self hk]
    rfl

/-- In a table the walk goes on below a key, and what it makes of what is there is there then. -/
theorem walk_table_cons (hks : ks ≠ []) (v : Value) (k : String) (t : Table) :
    walk v (k :: ks) (.table t) =
      (.table (Roster.put t k (walk v ks ((Roster.entry? t k).getD (.table []))).1),
        (walk v ks ((Roster.entry? t k).getD (.table []))).2) := by
  rw [walk]
  · rw [opened?_table]
    simp only [item?, Roster.entry?_put_self, putItem?, Roster.put_put, Option.getD_some]
  · exact hks

/-- The walk comes to the end of every path that is not obstructed, and makes of the table what
storing the value there makes of it. Where it does not come to the end, it has changed nothing. -/
theorem walk_table (hks : ks ≠ []) (v : Value) (t : Table) :
    walk v ks (.table t) =
      ((Table.store? v ks t).map fun t' ↦ (table t', true)).getD (table t, false) := by
  induction ks generalizing t with
  | nil => exact absurd rfl hks
  | cons k ks ih =>
    by_cases hrest : ks = []
    · subst hrest
      rfl
    · rw [walk_table_cons hrest, Table.store?_cons hrest]
      unfold Table.below?
      cases hk : Roster.entry? t k with
      | none =>
        rw [Option.getD_none, ih hrest]
        obtain ⟨k', ks, rfl⟩ := List.exists_cons_of_ne_nil hrest
        rw [Option.bind_some, Table.store?_nil]
        rfl
      | some w =>
        rw [Option.getD_some]
        by_cases hw : w.IsTable
        · obtain ⟨s, rfl⟩ := isTable_iff.1 hw
          rw [ih hrest, Option.bind_some]
          cases Table.store? v ks s with
          | some s' => rfl
          | none =>
            rw [Option.map_none, Option.getD_none, Option.map_none, Option.map_none,
              Option.getD_none, Roster.put_entry?_eq_self hk]
        · rw [walk_of_not_isTable hw, Roster.put_entry?_eq_self hk]
          cases w <;> first | rfl | exact absurd trivial hw

end Value

namespace Settings

open Table (path path_ne_nil)

variable {t : Table} {key : String} {v : Value}

theorem set_eq_error_iff {f : Fault} :
    set t key v = .error f ↔ f = .notTable ∧ t.Obstructed (path key) := by
  rw [← Table.store?_eq_none_iff (v := v) (path_ne_nil key)]
  unfold set Table.set?
  cases Table.store? v (path key) t with
  | none => simp [eq_comm]
  | some t' => simp

theorem exists_set (h : ¬ t.Obstructed (path key)) (v : Value) :
    ∃ t', set t key v = .ok t' ∧ Table.store? v (path key) t = some t' := by
  rw [← Table.store?_eq_none_iff (v := v) (path_ne_nil key)] at h
  obtain ⟨t', ht'⟩ := Option.ne_none_iff_exists'.1 h
  refine ⟨t', ?_, ht'⟩
  rw [set, Table.set?, ht']

/-- A setting can be stored unless a proper part of its key leads to something other than a table,
be it a text or a list in which the next key is found; nothing else can go wrong, and then the walk
along the key has left everything as it was. A setting that is stored is what its key gives, and all
keys that neither lie on its path nor beyond it give what they gave. -/
theorem stored_unless_obstructed (t : Table) (key : String) (v : Value) :
    (∀ f, set t key v = .error f ↔ f = .notTable ∧ t.Obstructed (path key)) ∧
      (t.Obstructed (path key) → Value.walk v (path key) (.table t) = (.table t, false)) ∧
      (¬ t.Obstructed (path key) → ∃ t', set t key v = .ok t' ∧
        Value.walk v (path key) (.table t) = (.table t', true) ∧
        (∀ d, t'.get key d = v) ∧
        ∀ key', ¬ path key <+: path key' → ¬ path key' <+: path key →
          ∀ d, t'.get key' d = t.get key' d) := by
  refine ⟨fun f ↦ set_eq_error_iff, fun h ↦ ?_, fun h ↦ ?_⟩
  · rw [Value.walk_table (path_ne_nil key), (Table.store?_eq_none_iff (path_ne_nil key)).2 h]
    rfl
  · obtain ⟨t', hset, hstore⟩ := exists_set h v
    refine ⟨t', hset, ?_, fun d ↦ ?_, fun key' hkey hkey' d ↦ ?_⟩
    · rw [Value.walk_table (path_ne_nil key), hstore]
      rfl
    · rw [Table.get, Table.look_store?_self (path_ne_nil key) hstore, Option.getD_some]
    · rw [Table.get, Table.get, Table.look_store?_of_not_prefix hstore hkey hkey']

/-- Settings with a text and a list in which a key is found. -/
def tagged : Table :=
  [("note", .text "the level counts"), ("tags", .list [.text "level"]),
    ("logging", .table [("format", .text "json")])]

/-- Nothing can be stored below the text or the list; in the table there is room. -/
theorem stored_unless_obstructed_tagged :
    (Value.text "the level counts").contains? "level" = some true ∧
      set tagged "note.level" (.int 3) = .error .notTable ∧
      Value.walk (.int 3) ["tags", "level"] (.table tagged) = (.table tagged, false) ∧
      ∃ t', set tagged "logging.level.of" (.int 3) = .ok t' ∧
        t'.get "logging.level.of" .null = .int 3 ∧ t'.get "logging.format" .null = .text "json" ∧
        t'.get "tags" .null = .list [.text "level"] := by
  obtain ⟨t', hset, -, hself, hother⟩ :=
    (stored_unless_obstructed tagged "logging.level.of" (.int 3)).2.2 (by decide)
  refine ⟨by decide, ((stored_unless_obstructed tagged "note.level" _).1 _).2 ⟨rfl, by decide⟩,
    (stored_unless_obstructed tagged "tags.level" _).2.1 (by decide), t', hset, hself _, ?_, ?_⟩
  · exact hother "logging.format" (by decide) (by decide) _
  · exact hother "tags" (by decide) (by decide) _

end Settings

end Rebalance
