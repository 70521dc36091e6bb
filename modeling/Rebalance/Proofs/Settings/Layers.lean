import Rebalance.Proofs.Settings.Paths

/-!
# Layers of settings

Where a table is laid over another, a path leads to what it leads to in the upper table, to nothing
where the upper table obstructs it, and otherwise to what it leads to in the lower table. Only where
both layers have a table does anything of the two come together. A layer that has been laid over
settings changes nothing when it is laid over them again.
-/

namespace Rebalance

namespace Value

variable {v : Value} {t : Table}

/-- No key occurs twice in a table, nor in the tables below it. -/
inductive WellKeyed : Value → Prop where
  | plain {v : Value} (h : ¬ v.IsTable) : WellKeyed v
  | table {t : Table} (hkeys : t.keys.Nodup) (h : ∀ e ∈ t, WellKeyed e.2) : WellKeyed (.table t)

theorem wellKeyed_table : (table t).WellKeyed ↔ t.keys.Nodup ∧ ∀ e ∈ t, e.2.WellKeyed := by
  constructor
  · intro h
    cases h with
    | plain h => exact absurd trivial h
    | table hkeys h => exact ⟨hkeys, h⟩
  · rintro ⟨hkeys, h⟩
    exact .table hkeys h

end Value

namespace Table

variable {b o t : Table} {v w : Value} {below : Option Value} {k : String} {ks : List String}

def WellKeyed (t : Table) : Prop := (Value.table t).WellKeyed

/-! ## Laying a value over another -/

theorem overlay_of_not_isTable (h : ¬ v.IsTable) (below : Option Value) : overlay below v = v := by
  cases v <;> first | rfl | exact absurd trivial h

theorem overlay_table (b t : Table) :
    overlay (some (.table b)) (.table t) = .table (merge b t) := by
  rw [overlay]

/-- A table that is not laid over another stays as it is. -/
theorem overlay_of_no_table (h : ∀ b, below ≠ some (.table b)) (v : Value) :
    overlay below v = v := by
  cases v with
  | table t =>
    rw [overlay]
    intro b hb
    exact h b hb
  | _ => rfl

@[simp] theorem overlay_none (v : Value) : overlay none v = v :=
  overlay_of_no_table (by simp) v

/-! ## What a layer does to each key -/

theorem merge_cons (b : Table) (k : String) (v : Value) (rest : Table) :
    merge b ((k, v) :: rest) = merge (Roster.put b k (overlay (Roster.entry? b k) v)) rest := by
  rw [merge]

/-- A key has what the layer has, laid over what was there; other keys stay. -/
theorem entry?_merge (ho : o.keys.Nodup) (b : Table) (k : String) :
    Roster.entry? (merge b o) k =
      ((Roster.entry? o k).map (overlay (Roster.entry? b k))).or (Roster.entry? b k) := by
  induction o generalizing b with
  | nil => rfl
  | cons e rest ih =>
    obtain ⟨k', v⟩ := e
    rw [Roster.keys_cons, List.nodup_cons] at ho
    rw [merge_cons, ih ho.2, Roster.entry?_put]
    by_cases h : k = k'
    · subst h
      rw [Roster.entry?_eq_none_iff.2 ho.1, if_pos rfl, Roster.entry?, if_pos rfl]
      rfl
    · rw [if_neg h, Roster.entry?, if_neg (Ne.symm h)]

/-! ## What a layer does to each path -/

/-- Over a value that comes below, a path leads to the upper one's value laid over the lower one's,
or nowhere, or to the lower one's. -/
theorem lookFrom_overlay (hv : v.WellKeyed) (below : Option Value) (ks : List String) :
    (∃ w, lookFrom v ks = some w ∧
        lookFrom (overlay below v) ks = some (overlay (below.bind (lookFrom · ks)) w)) ∨
      (ObstructedFrom v ks ∧ lookFrom v ks = none ∧ lookFrom (overlay below v) ks = none) ∨
      (¬ ObstructedFrom v ks ∧ lookFrom v ks = none ∧
        lookFrom (overlay below v) ks = below.bind (lookFrom · ks)) := by
  induction ks generalizing v below with
  | nil =>
    refine .inl ⟨v, lookFrom_nil v, ?_⟩
    rw [lookFrom_nil]
    cases below <;> simp
  | cons k ks ih =>
    cases hv with
    | plain h =>
      refine .inr (.inl ⟨obstructedFrom_cons_of_not_isTable h k ks, ?_, ?_⟩)
      · exact lookFrom_cons_of_not_isTable h k ks
      · rw [overlay_of_not_isTable h, lookFrom_cons_of_not_isTable h]
    | @table t hkeys hbelow =>
      by_cases hb : ∃ b, below = some (.table b)
      · obtain ⟨b, rfl⟩ := hb
        rw [overlay_table, lookFrom_table_cons, lookFrom_table_cons, entry?_merge hkeys,
          Option.bind_some, lookFrom_table_cons, obstructedFrom_table, obstructed_cons]
        cases hk : Roster.entry? t k with
        | none => exact .inr (.inr ⟨by simp, rfl, rfl⟩)
        | some w =>
          have hw := hbelow _ (Roster.mem_of_entry_eq_some hk)
          simpa using ih hw (Roster.entry? b k)
      · -- Nothing of what is below can be seen: the path leads where it leads in the upper table.
        have hlook : below.bind (lookFrom · (k :: ks)) = none := by
          cases below with
          | none => rfl
          | some u =>
            refine lookFrom_cons_of_not_isTable (fun hu ↦ hb ?_) k ks
            exact (Value.isTable_iff.1 hu).imp fun b hu ↦ congrArg some hu
        rw [overlay_of_no_table (not_exists.1 hb), hlook]
        cases hp : lookFrom (.table t) (k :: ks) with
        | none => tauto
        | some w => exact .inl ⟨w, rfl, by rw [overlay_none]⟩

/-! ## Laying the same once more -/

/-- Onto nothing, a layer puts itself. -/
theorem merge_nil (ht : t.keys.Nodup) : merge [] t = t := by
  have key : ∀ (t b : Table), (b.keys ++ t.keys).Nodup → merge b t = b ++ t := by
    intro t
    induction t with
    | nil =>
      intro b _
      rw [List.append_nil]
      rfl
    | cons e rest ih =>
      obtain ⟨k, v⟩ := e
      intro b hnodup
      rw [Roster.keys_cons, List.nodup_append] at hnodup
      have hk : Roster.entry? b k = none := Roster.entry?_eq_none_iff.2 fun hk ↦
        hnodup.2.2 k hk k List.mem_cons_self rfl
      rw [merge_cons, hk, overlay_none, Roster.put_of_entry?_eq_none v hk, ih, List.append_assoc]
      · rfl
      · rw [Roster.keys, List.map_append, List.append_assoc, List.nodup_append]
        exact hnodup
  exact key t [] ht

/-- A layer changes nothing where every key has what comes of laying it there. -/
theorem merge_eq_self (h : ∀ e ∈ o, ∃ w, Roster.entry? b e.1 = some w ∧ overlay (some w) e.2 = w) :
    merge b o = b := by
  induction o with
  | nil => rfl
  | cons e rest ih =>
    obtain ⟨k, v⟩ := e
    rw [List.forall_mem_cons] at h
    obtain ⟨⟨w, hw, hoverlay⟩, hrest⟩ := h
    rw [merge_cons, hw, hoverlay, Roster.put_entry?_eq_self hw, ih hrest]

theorem overlay_overlay (hv : v.WellKeyed) (below : Option Value) :
    overlay (some (overlay below v)) v = overlay below v := by
  induction hv generalizing below with
  | plain h => rw [overlay_of_not_isTable h, overlay_of_not_isTable h]
  | @table t hkeys _ ih =>
    have hmerge : ∀ b, merge (merge b t) t = merge b t := by
      intro b
      refine merge_eq_self fun e he ↦ ⟨_, ?_, ih e he (Roster.entry? b e.1)⟩
      rw [entry?_merge hkeys, Roster.entry?_of_mem hkeys he]
      rfl
    by_cases hb : ∃ b, below = some (.table b)
    · obtain ⟨b, rfl⟩ := hb
      rw [overlay_table, overlay_table, hmerge]
    · have hself := hmerge []
      rw [merge_nil hkeys] at hself
      rw [overlay_of_no_table (not_exists.1 hb), overlay_table, hself]

theorem merge_merge (ho : o.WellKeyed) (b : Table) : merge (merge b o) o = merge b o := by
  have h := overlay_overlay ho (some (.table b))
  rwa [overlay_table, overlay_table, Value.table.injEq] at h

end Table

end Rebalance
