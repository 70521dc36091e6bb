import Mathlib.Data.List.InsertIdx
import Mathlib.Data.List.Lex
import Mathlib.Data.List.Sort
import Rebalance.Cluster.View
import Rebalance.Proofs.Ranking

/-!
# Views in order

Ranks are ordered strictly, and two ranks of different partitions are comparable unless a score is
not a number. So a view whose scores are numbers stays in order while replicas come and go, and what
it shows is always the admitted ones among those that came and have not left.
-/

namespace Rebalance

/-! ## The order of ranks -/

namespace Double

theorem same_symm {x y : Double} (h : x.same y = true) : y.same x = true := by
  rw [same_iff] at *
  obtain ⟨a, ha, hb⟩ := h
  exact ⟨a, hb, ha⟩

theorem same_trans {x y z : Double} (h : x.same y = true) (h' : y.same z = true) :
    x.same z = true := by
  rw [same_iff] at *
  obtain ⟨a, hx, hy⟩ := h
  obtain ⟨b, hy', hz⟩ := h'
  rw [hy] at hy'
  obtain rfl := Option.some.inj hy'
  exact ⟨a, hx, hz⟩

theorem lt_of_same_of_lt {x y z : Double} (h : x.same y = true) (h' : y < z) : x < z := by
  rw [same_iff] at h
  rw [lt_iff] at *
  obtain ⟨a, hx, hy⟩ := h
  obtain ⟨b, d, hy', hz, hlt⟩ := h'
  rw [hy] at hy'
  obtain rfl := Option.some.inj hy'
  exact ⟨a, d, hx, hz, hlt⟩

theorem lt_of_lt_of_same {x y z : Double} (h : x < y) (h' : y.same z = true) : x < z := by
  rw [same_iff] at h'
  rw [lt_iff] at *
  obtain ⟨a, b, hx, hy, hlt⟩ := h
  obtain ⟨d, hy', hz⟩ := h'
  rw [hy] at hy'
  obtain rfl := Option.some.inj hy'
  exact ⟨a, b, hx, hz, hlt⟩

theorem not_same_of_lt {x y : Double} (h : x < y) : x.same y = false := by
  rw [← Bool.not_eq_true]
  intro hsame
  exact lt_irrefl x (lt_of_lt_of_same h (same_symm hsame))

/-- Rounding gives a number. -/
theorem ofUnits_ne_nan (negative : Bool) (num den : Nat) : ofUnits negative num den ≠ nan := by
  unfold ofUnits
  intro h
  split at h <;> cases h

theorem ofNat_ne_nan (n : Nat) : ofNat n ≠ nan := by
  unfold ofNat ofRatio
  exact ofUnits_ne_nan _ _ _

theorem literal_eq (n : Nat) : (OfNat.ofNat n : Double) = ofNat n := rfl

end Double

namespace Rank

variable {a b d : Rank}

theorem lt_iff_of_ne (h : a.priorities ≠ b.priorities) : a < b ↔ a.priorities < b.priorities := by
  rw [lt_iff, if_pos h]

theorem lt_iff_of_eq (h : a.priorities = b.priorities) :
    a < b ↔ if a.score.same b.score then a.partition < b.partition else a.score < b.score := by
  rw [lt_iff, if_neg (not_not_intro h)]

theorem lt_irrefl (a : Rank) : ¬ a < a := by
  rw [lt_iff_of_eq rfl]
  split
  · exact TopicPartition.lt_irrefl _
  · exact Double.lt_irrefl _

theorem lt_trans (h : a < b) (h' : b < d) : a < d := by
  by_cases hab : a.priorities = b.priorities
  · by_cases hbd : b.priorities = d.priorities
    · rw [lt_iff_of_eq hab] at h
      rw [lt_iff_of_eq hbd] at h'
      rw [lt_iff_of_eq (hab.trans hbd)]
      split at h <;> rename_i hs <;> split at h' <;> rename_i hs'
      · rw [if_pos (Double.same_trans hs hs')]
        exact TopicPartition.lt_trans h h'
      · have hlt := Double.lt_of_same_of_lt hs h'
        rwa [if_neg (by simp [Double.not_same_of_lt hlt])]
      · have hlt := Double.lt_of_lt_of_same h hs'
        rwa [if_neg (by simp [Double.not_same_of_lt hlt])]
      · have hlt := Double.lt_trans h h'
        rwa [if_neg (by simp [Double.not_same_of_lt hlt])]
    · rw [lt_iff_of_ne hbd] at h'
      rw [lt_iff_of_ne (hab ▸ hbd), hab]
      exact h'
  · rw [lt_iff_of_ne hab] at h
    by_cases hbd : b.priorities = d.priorities
    · rw [lt_iff_of_ne (hbd ▸ hab), ← hbd]
      exact h
    · rw [lt_iff_of_ne hbd] at h'
      have hlt : a.priorities < d.priorities := List.lt_trans h h'
      rwa [lt_iff_of_ne (fun heq ↦ List.lt_irrefl _ (heq ▸ hlt))]

instance : IsStrictOrder Rank (· < ·) where
  irrefl := lt_irrefl
  trans _ _ _ := lt_trans

/-- Ranks of different partitions are comparable if their scores are numbers. -/
theorem lt_or_gt (ha : a.score ≠ .nan) (hb : b.score ≠ .nan) (h : a.partition ≠ b.partition) :
    a < b ∨ b < a := by
  by_cases hp : a.priorities = b.priorities
  · rw [lt_iff_of_eq hp, lt_iff_of_eq hp.symm]
    rcases Double.lt_or_same_or_lt ha hb with hlt | hsame | hlt
    · rw [if_neg (by simp [Double.not_same_of_lt hlt])]
      exact .inl hlt
    · rw [if_pos hsame, if_pos (Double.same_symm hsame)]
      rcases TopicPartition.lt_or_eq_or_lt a.partition b.partition with hlt | heq | hlt
      · exact .inl hlt
      · exact absurd heq h
      · exact .inr hlt
    · right
      rw [Double.not_same_of_lt hlt, if_neg Bool.false_ne_true]
      exact hlt
  · rw [lt_iff_of_ne hp, lt_iff_of_ne (Ne.symm hp)]
    exact lt_or_gt_of_ne hp

end Rank

/-- Scores by a resource whose use is a number are numbers. -/
theorem Criteria.score_rank_ne_nan {c : Criteria} {r : Replica}
    (h : ∀ x ∈ c.score, r.load.of x ≠ .nan) : (c.rank r).score ≠ .nan := by
  unfold Criteria.rank
  cases hs : c.score with
  | none =>
    simp only [Double.literal_eq]
    exact Double.ofNat_ne_nan _
  | some x => exact h x hs

/-- What is admitted of some replicas has numbers for scores. -/
def Criteria.Scores (c : Criteria) (present : ReplicaId → Replica → Prop) : Prop :=
  ∀ i r, present i r → c.admits r = true → (c.rank r).score ≠ .nan

namespace View

/-! ## Comings and goings -/

theorem replicas_erase_subset (v : View) (tp : TopicPartition) :
    (v.erase tp).replicas ⊆ v.replicas := by
  intro i hi
  obtain ⟨e, he, rfl⟩ := List.mem_map.1 hi
  refine List.mem_map.2 ⟨e, ?_, rfl⟩
  unfold View.erase Ranking.erase at he
  cases hknown : v.ranking.known.entry? tp with
  | none =>
    simp only [hknown] at he
    exact he
  | some key =>
    simp only [hknown] at he
    exact List.mem_of_mem_eraseIdx he

theorem mem_of_mem_replicas_insert {v : View} {i j : ReplicaId} {r : Replica}
    (h : j ∈ (v.insert i r).replicas) : j = i ∨ j ∈ v.replicas := by
  obtain ⟨e, he, rfl⟩ := List.mem_map.1 h
  unfold View.insert at he
  split at he
  · unfold Ranking.insert at he
    dsimp only at he
    split at he
    · exact .inr (List.mem_map_of_mem he)
    · rcases List.eq_or_mem_of_mem_insertIdx he with rfl | he
      · exact .inl rfl
      · exact .inr (List.mem_map_of_mem he)
  · exact .inr (List.mem_map_of_mem he)

/-- A view shows only what it was built from. -/
theorem exists_of_mem_build {c : Criteria} {replicas : List (ReplicaId × Replica)} {i : ReplicaId}
    (h : i ∈ (build c replicas).replicas) : ∃ r, (i, r) ∈ replicas := by
  have key : ∀ (rest : List (ReplicaId × Replica)) (v : View),
      i ∈ (rest.foldl (fun v e ↦ v.insert e.1 e.2) v).replicas →
        i ∈ v.replicas ∨ ∃ r, (i, r) ∈ rest := by
    intro rest
    induction rest with
    | nil => exact fun v hi ↦ .inl hi
    | cons e rest ih =>
      intro v hi
      rcases ih _ hi with hi | ⟨r, hr⟩
      · rcases mem_of_mem_replicas_insert hi with rfl | hi
        · exact .inr ⟨e.2, List.mem_cons_self⟩
        · exact .inl hi
      · exact .inr ⟨r, List.mem_cons_of_mem _ hr⟩
  rcases key replicas { criteria := c } h with hi | hr
  · cases hi
  · exact hr

/-! ## Order -/

/-- The ranking is in order, and all scores are numbers. -/
structure InOrder (v : View) : Prop where
  ordered : v.ranking.Ordered Rank.partition
  numeric : ∀ key ∈ v.ranking.keys, key.score ≠ .nan

variable {v : View} {c : Criteria} {i : ReplicaId} {r : Replica} {tp : TopicPartition}

@[simp] theorem criteria_insert (v : View) (i : ReplicaId) (r : Replica) :
    (v.insert i r).criteria = v.criteria := by
  unfold insert
  split <;> rfl

@[simp] theorem criteria_erase (v : View) (tp : TopicPartition) :
    (v.erase tp).criteria = v.criteria := rfl

theorem inOrder_empty (c : Criteria) : InOrder { criteria := c } where
  ordered := Ranking.ordered_empty
  numeric _ h := by cases h

theorem InOrder.hasLost_eq_false (h : v.InOrder) (tp : TopicPartition) : v.hasLost tp = false :=
  h.ordered.hasLost_eq_false tp

theorem InOrder.erase (h : v.InOrder) (tp : TopicPartition) : (v.erase tp).InOrder where
  ordered := h.ordered.erase tp
  numeric key hk := h.numeric key (h.ordered.mem_keys_erase.1 hk).1

theorem InOrder.insert (h : v.InOrder) (i : ReplicaId)
    (hr : v.criteria.admits r = true → (v.criteria.rank r).score ≠ .nan) :
    (v.insert i r).InOrder := by
  unfold View.insert
  split
  · rename_i hadmits
    cases hhas : v.ranking.has r.partition with
    | true =>
      rw [Ranking.insert_of_has _ _ hhas]
      exact h
    | false =>
      constructor
      · refine h.ordered.insert i rfl ?_
        intro key hk hne
        exact Rank.lt_or_gt (h.numeric key hk) (hr hadmits) hne
      · intro key hk
        rcases (h.ordered.mem_keys_insert _ _ hhas).1 hk with rfl | hk
        · exact hr hadmits
        · exact h.numeric key hk
  · exact h

/-- A replica that comes and leaves again leaves nothing behind. -/
theorem InOrder.erase_insert (h : v.InOrder) (i : ReplicaId)
    (hhas : v.ranking.has r.partition = false) : (v.insert i r).erase r.partition = v := by
  unfold View.insert
  split
  · exact congrArg (View.mk _) (h.ordered.erase_insert _ i hhas)
  · exact congrArg (View.mk _) (Ranking.erase_of_not_has hhas)

/-! ## Contents -/

/-- The view is in order and shows those of some replicas that it admits, each where it belongs. -/
structure Shows (v : View) (present : ReplicaId → Replica → Prop) : Prop extends v.InOrder where
  mem_entries : ∀ key i, (key, i) ∈ v.ranking.entries ↔
    ∃ r, present i r ∧ v.criteria.admits r = true ∧ v.criteria.rank r = key

namespace Shows

variable {present : ReplicaId → Replica → Prop}

theorem mem_replicas (h : v.Shows present) :
    i ∈ v.replicas ↔ ∃ r, present i r ∧ v.criteria.admits r = true := by
  constructor
  · intro hi
    obtain ⟨⟨key, j⟩, he, rfl⟩ := List.mem_map.1 hi
    obtain ⟨r, hr, hadmits, -⟩ := (h.mem_entries key j).1 he
    exact ⟨r, hr, hadmits⟩
  · rintro ⟨r, hr, hadmits⟩
    exact List.mem_map.2 ⟨_, (h.mem_entries _ i).2 ⟨r, hr, hadmits, rfl⟩, rfl⟩

/-- A replica that stands for itself is shown once. -/
theorem nodup_replicas (h : v.Shows present)
    (hfun : ∀ i r r', present i r → present i r' → r = r') : v.replicas.Nodup := by
  have hentries : v.ranking.entries.Nodup := h.ordered.keys_nodup.of_map Prod.fst
  refine hentries.map_on ?_
  rintro ⟨key, i⟩ he ⟨key', j⟩ he' (rfl : i = j)
  obtain ⟨r, hr, -, rfl⟩ := (h.mem_entries key i).1 he
  obtain ⟨r', hr', -, rfl⟩ := (h.mem_entries key' i).1 he'
  rw [hfun i r r' hr hr']

/-- Entries stand in the strict order of their keys. -/
theorem pairwise_entries (h : v.Shows present) :
    v.ranking.entries.Pairwise fun e e' ↦ e.1 < e'.1 :=
  List.pairwise_map.1 h.ordered.ascending

/-- A view is determined by what it shows and by its criteria. -/
theorem entries_eq (h : v.Shows present) {v' : View} (h' : v'.Shows present)
    (hcriteria : v.criteria = v'.criteria) : v.ranking.entries = v'.ranking.entries := by
  refine Ranking.entries_eq_of_mem_iff h.ordered.ascending h'.ordered.ascending ?_
  rintro ⟨key, i⟩
  rw [h.mem_entries, h'.mem_entries, hcriteria]

theorem replicas_eq (h : v.Shows present) {v' : View} (h' : v'.Shows present)
    (hcriteria : v.criteria = v'.criteria) : v.replicas = v'.replicas := by
  rw [View.replicas, Ranking.items, h.entries_eq h' hcriteria]
  rfl

/-- What is not present is not in the view. -/
theorem not_has (h : v.Shows present) (habsent : ∀ i r, present i r → r.partition ≠ tp) :
    v.ranking.has tp = false := by
  rw [← Bool.not_eq_true, h.ordered.has_iff]
  rintro ⟨key, hkey, hp⟩
  obtain ⟨i, he⟩ := Ranking.exists_of_mem_keys hkey
  obtain ⟨r, hr, -, rfl⟩ := (h.mem_entries key i).1 he
  exact habsent i r hr hp

/-- What a view shows stands in the strict order of ranks. -/
theorem pairwise_replicas (h : v.Shows present)
    (hfun : ∀ i r r', present i r → present i r' → r = r') :
    v.replicas.Pairwise fun i j ↦ ∀ r r', present i r → present j r' →
      v.criteria.rank r < v.criteria.rank r' := by
  rw [View.replicas, Ranking.items, List.pairwise_map]
  refine h.pairwise_entries.imp_of_mem ?_
  rintro ⟨key, i⟩ ⟨key', j⟩ he he' hlt r r' hr hr'
  obtain ⟨r₁, hr₁, -, rfl⟩ := (h.mem_entries key i).1 he
  obtain ⟨r₂, hr₂, -, rfl⟩ := (h.mem_entries key' j).1 he'
  rw [hfun i r r₁ hr hr₁, hfun j r' r₂ hr' hr₂]
  exact hlt

theorem congr (h : v.Shows present) {present' : ReplicaId → Replica → Prop}
    (heq : ∀ i r, present i r ↔ present' i r) : v.Shows present' where
  toInOrder := h.toInOrder
  mem_entries key i := by
    rw [h.mem_entries]
    exact exists_congr fun r ↦ and_congr_left fun _ ↦ heq i r

protected theorem empty (c : Criteria) : Shows { criteria := c } fun _ _ ↦ False where
  toInOrder := inOrder_empty c
  mem_entries key i := by
    constructor
    · intro h
      cases h
    · rintro ⟨r, h, _⟩
      exact h.elim

protected theorem erase (h : v.Shows present) (tp : TopicPartition) :
    (v.erase tp).Shows fun i r ↦ present i r ∧ r.partition ≠ tp where
  toInOrder := h.toInOrder.erase tp
  mem_entries key i := by
    rw [View.erase, h.ordered.entries_erase, List.mem_filter, h.mem_entries]
    constructor
    · rintro ⟨⟨r, hr, hadmits, rfl⟩, hne⟩
      exact ⟨r, ⟨hr, of_decide_eq_true hne⟩, hadmits, rfl⟩
    · rintro ⟨r, ⟨hr, hne⟩, hadmits, rfl⟩
      exact ⟨⟨r, hr, hadmits, rfl⟩, decide_eq_true hne⟩

/-- A replica of a partition that is not yet present comes in. -/
protected theorem insert (h : v.Shows present) (i : ReplicaId)
    (hr : v.criteria.admits r = true → (v.criteria.rank r).score ≠ .nan)
    (hnew : ∀ j r', present j r' → r'.partition ≠ r.partition) :
    (v.insert i r).Shows fun j r' ↦ present j r' ∨ j = i ∧ r' = r where
  toInOrder := h.toInOrder.insert i hr
  mem_entries key j := by
    rw [criteria_insert]
    unfold View.insert
    split
    · rename_i hadmits
      have hhas : v.ranking.has r.partition = false := h.not_has hnew
      change (key, j) ∈ (v.ranking.insert r.partition (v.criteria.rank r) i).entries ↔ _
      rw [h.ordered.mem_entries_insert _ _ hhas, h.mem_entries]
      constructor
      · rintro (heq | ⟨r', hr', hadmits', hkey⟩)
        · obtain ⟨rfl, rfl⟩ := Prod.mk.inj heq
          exact ⟨r, .inr ⟨rfl, rfl⟩, hadmits, rfl⟩
        · exact ⟨r', .inl hr', hadmits', hkey⟩
      · rintro ⟨r', hr' | ⟨rfl, rfl⟩, hadmits', hkey⟩
        · exact .inr ⟨r', hr', hadmits', hkey⟩
        · exact .inl (Prod.mk.injEq .. ▸ ⟨hkey.symm, rfl⟩)
    · rename_i hadmits
      rw [h.mem_entries]
      constructor
      · rintro ⟨r', hr', hadmits', hkey⟩
        exact ⟨r', .inl hr', hadmits', hkey⟩
      · rintro ⟨r', hr' | ⟨rfl, rfl⟩, hadmits', hkey⟩
        · exact ⟨r', hr', hadmits', hkey⟩
        · exact absurd hadmits' hadmits

end Shows

@[simp] theorem criteria_build (c : Criteria) (replicas : List (ReplicaId × Replica)) :
    (build c replicas).criteria = c := by
  have key : ∀ (rest : List (ReplicaId × Replica)) (v : View),
      (rest.foldl (fun v e ↦ v.insert e.1 e.2) v).criteria = v.criteria := by
    intro rest
    induction rest with
    | nil =>
      intro v
      rfl
    | cons e rest ih =>
      intro v
      rw [List.foldl_cons, ih, criteria_insert]
  exact key replicas _

/-- A view that is built shows the admitted ones among the replicas it is built from. -/
theorem shows_build (c : Criteria) (replicas : List (ReplicaId × Replica))
    (hp : (replicas.map (·.2.partition)).Nodup) (hr : c.Scores fun i r ↦ (i, r) ∈ replicas) :
    (build c replicas).Shows fun i r ↦ (i, r) ∈ replicas := by
  have key : ∀ (rest done : List (ReplicaId × Replica)) (v : View), v.criteria = c →
      ((done ++ rest).map (·.2.partition)).Nodup → c.Scores (fun i r ↦ (i, r) ∈ rest) →
      v.Shows (fun i r ↦ (i, r) ∈ done) →
      (rest.foldl (fun v e ↦ v.insert e.1 e.2) v).Shows fun i r ↦ (i, r) ∈ done ++ rest := by
    intro rest
    induction rest with
    | nil =>
      intro done v _ _ _ h
      exact h.congr fun i r ↦ by rw [List.append_nil]
    | cons e rest ih =>
      obtain ⟨i, r⟩ := e
      intro done v hv hp hr h
      have hdone : ((done ++ [(i, r)]) ++ rest).map (·.2.partition) =
          (done ++ (i, r) :: rest).map (·.2.partition) := by
        rw [List.append_assoc, List.singleton_append]
      have hstep : (v.insert i r).Shows fun j r' ↦ (j, r') ∈ done ++ [(i, r)] := by
        refine (h.insert i (hv ▸ hr i r List.mem_cons_self) ?_).congr fun j r' ↦ by
          rw [List.mem_append, List.mem_singleton, Prod.mk.injEq]
        intro j r' hj heq
        rw [List.map_append, List.map_cons, List.nodup_middle, List.nodup_cons] at hp
        refine hp.1 (List.mem_append_left _ ?_)
        exact List.mem_map.2 ⟨(j, r'), hj, heq⟩
      have hrest := ih (done ++ [(i, r)]) (v.insert i r) (by rw [criteria_insert, hv])
        (hdone ▸ hp) (fun j r' he ↦ hr j r' (List.mem_cons_of_mem _ he)) hstep
      refine hrest.congr fun j r' ↦ ?_
      rw [List.append_assoc, List.singleton_append]
  refine (key replicas [] { criteria := c } rfl hp hr ?_).congr fun i r ↦ by rw [List.nil_append]
  exact (Shows.empty c).congr fun i r ↦ by simp

end View

end Rebalance
