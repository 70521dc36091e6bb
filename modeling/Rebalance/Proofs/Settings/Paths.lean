import Rebalance.Proofs.Roster
import Rebalance.Settings.Table

/-!
# Paths through settings

A path leads from table to table. It ends early where a key is missing, or where something other
than a table stands in the way: then it is obstructed.
-/

namespace Rebalance

namespace Value

def IsTable : Value → Prop
  | table _ => True
  | _ => False

variable {v : Value}

@[simp] theorem isTable_table (t : Table) : (table t).IsTable := trivial

instance : DecidablePred IsTable := fun v ↦ by
  cases v <;> unfold IsTable <;> infer_instance

theorem isTable_iff : v.IsTable ↔ ∃ t, v = table t := by
  cases v <;> simp [IsTable]

end Value

namespace Table

variable {v w : Value} {t : Table} {k : String} {ks q : List String}

/-! ## Looking along a path -/

@[simp] theorem lookFrom_nil (v : Value) : lookFrom v [] = some v := by
  cases v <;> rfl

theorem lookFrom_table_cons (t : Table) (k : String) (ks : List String) :
    lookFrom (.table t) (k :: ks) = (Roster.entry? t k).bind (lookFrom · ks) := look_cons t k ks

theorem lookFrom_cons_of_not_isTable (h : ¬ v.IsTable) (k : String) (ks : List String) :
    lookFrom v (k :: ks) = none := by
  cases v <;> first | rfl | exact absurd trivial h

/-! ## Obstructed paths -/

/-- On the way from a value, before the end of a path, stands something other than a table. -/
def ObstructedFrom (v : Value) (ks : List String) : Prop :=
  ∃ q, q <+: ks ∧ q ≠ ks ∧ ∃ w, lookFrom v q = some w ∧ ¬ w.IsTable

/-- A proper part of a path leads to something other than a table. -/
def Obstructed (t : Table) (ks : List String) : Prop :=
  ∃ q, q <+: ks ∧ q ≠ ks ∧ ∃ w, t.look q = some w ∧ ¬ w.IsTable

theorem obstructedFrom_table : ObstructedFrom (.table t) ks ↔ t.Obstructed ks := Iff.rfl

theorem not_obstructedFrom_nil : ¬ ObstructedFrom v [] := by
  rintro ⟨q, hq, hne, -⟩
  exact hne (List.prefix_nil.1 hq)

theorem obstructedFrom_cons_of_not_isTable (h : ¬ v.IsTable) (k : String) (ks : List String) :
    ObstructedFrom v (k :: ks) :=
  ⟨[], List.nil_prefix, (List.cons_ne_nil _ _).symm, v, lookFrom_nil v, h⟩

/-- Beyond the first key, a path is obstructed from where that key leads. -/
theorem obstructed_cons :
    t.Obstructed (k :: ks) ↔ ∃ v, Roster.entry? t k = some v ∧ ObstructedFrom v ks := by
  constructor
  · rintro ⟨q, hq, hne, w, hw, htable⟩
    cases q with
    | nil => cases hw; exact absurd trivial htable
    | cons k' q =>
      obtain ⟨rfl, hrest⟩ := List.cons_prefix_cons.1 hq
      rw [look_cons, Option.bind_eq_some_iff] at hw
      obtain ⟨v, hv, hw⟩ := hw
      exact ⟨v, hv, q, hrest, fun heq ↦ hne (heq ▸ rfl), w, hw, htable⟩
  · rintro ⟨v, hv, q, hq, hne, w, hw, htable⟩
    refine ⟨k :: q, List.cons_prefix_cons.2 ⟨rfl, hq⟩, fun heq ↦ hne (List.cons.inj heq).2, w, ?_,
      htable⟩
    rw [look_cons, hv]
    exact hw

instance decidableObstructedFrom :
    (ks : List String) → (v : Value) → Decidable (ObstructedFrom v ks)
  | [], _ => isFalse not_obstructedFrom_nil
  | k :: ks, v =>
    match v with
    | .table t =>
      match hk : Roster.entry? t k with
      | none => isFalse (by rw [obstructedFrom_table, obstructed_cons, hk]; simp)
      | some w =>
        have := decidableObstructedFrom ks w
        decidable_of_iff (ObstructedFrom w ks) (by
          rw [obstructedFrom_table, obstructed_cons, hk]
          simp)
    | .null | .bool _ | .int _ | .float _ | .text _ | .list _ =>
      isTrue (obstructedFrom_cons_of_not_isTable id k ks)

instance (t : Table) (ks : List String) : Decidable (t.Obstructed ks) :=
  decidableObstructedFrom ks (.table t)

/-- A path that is obstructed leads nowhere. -/
theorem lookFrom_of_obstructedFrom (h : ObstructedFrom v ks) : lookFrom v ks = none := by
  induction ks generalizing v with
  | nil => exact absurd h not_obstructedFrom_nil
  | cons k ks ih =>
    cases v with
    | table t =>
      obtain ⟨w, hw, hrest⟩ := obstructed_cons.1 h
      rw [lookFrom_table_cons, hw]
      exact ih hrest
    | _ => rfl

end Table

end Rebalance
