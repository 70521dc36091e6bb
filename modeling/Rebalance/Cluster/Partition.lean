/-!
# Partitions and brokers by name

A partition is named by its topic and a number. Partitions are ordered by topic, code point by code
point, and then by number.
-/

namespace Rebalance

/-- The number of a broker. -/
abbrev BrokerId := Int

/-- The name of a partition. -/
structure TopicPartition where
  topic : String
  partition : Int
deriving DecidableEq, Inhabited

namespace TopicPartition

/-- Topic and number, joined by a hyphen. -/
def text (tp : TopicPartition) : String := tp.topic ++ "-" ++ toString tp.partition

instance : LT TopicPartition :=
  ⟨fun a b ↦ a.topic < b.topic ∨ a.topic = b.topic ∧ a.partition < b.partition⟩

theorem lt_iff {a b : TopicPartition} :
    a < b ↔ a.topic < b.topic ∨ a.topic = b.topic ∧ a.partition < b.partition := Iff.rfl

instance : DecidableLT TopicPartition := fun a b ↦
  inferInstanceAs (Decidable (a.topic < b.topic ∨ a.topic = b.topic ∧ a.partition < b.partition))

theorem lt_irrefl (a : TopicPartition) : ¬ a < a
  | .inl h => String.lt_irrefl _ h
  | .inr ⟨_, h⟩ => Int.lt_irrefl _ h

theorem lt_trans {a b c : TopicPartition} (h : a < b) (h' : b < c) : a < c := by
  rw [lt_iff] at *
  rcases h with h | ⟨h, hp⟩ <;> rcases h' with h' | ⟨h', hp'⟩
  · exact .inl (String.lt_trans h h')
  · exact .inl (h' ▸ h)
  · exact .inl (h ▸ h')
  · exact .inr ⟨h.trans h', by omega⟩

theorem lt_or_eq_or_lt (a b : TopicPartition) : a < b ∨ a = b ∨ b < a := by
  obtain ⟨s, m⟩ := a
  obtain ⟨t, n⟩ := b
  simp only [lt_iff, TopicPartition.mk.injEq]
  by_cases h : s < t
  · exact .inl (.inl h)
  · by_cases h' : t < s
    · exact .inr (.inr (.inl h'))
    · have hst : s = t := String.le_antisymm (String.not_lt.1 h') (String.not_lt.1 h)
      subst hst
      rcases Int.lt_trichotomy m n with hlt | heq | hgt
      · exact .inl (.inr ⟨rfl, hlt⟩)
      · exact .inr (.inl ⟨rfl, heq⟩)
      · exact .inr (.inr (.inr ⟨rfl, hgt⟩))

end TopicPartition

/-- Puts an element before the first one that it is below; the same element is not put in twice. -/
def insertAscending {α : Type} [LT α] [DecidableLT α] [DecidableEq α] (a : α) : List α → List α
  | [] => [a]
  | b :: rest =>
    if a = b then b :: rest else if a < b then a :: b :: rest else b :: insertAscending a rest

/-- The distinct elements of a list in ascending order. -/
def ascending {α : Type} [LT α] [DecidableLT α] [DecidableEq α] (as : List α) : List α :=
  as.foldl (fun sorted a ↦ insertAscending a sorted) []

section

variable {α : Type} [LT α] [DecidableLT α] [DecidableEq α]

@[simp] theorem mem_insertAscending {a b : α} {as : List α} :
    b ∈ insertAscending a as ↔ b = a ∨ b ∈ as := by
  induction as with
  | nil => simp [insertAscending]
  | cons c rest ih =>
    by_cases h : a = c
    · simp [insertAscending, h]
    · by_cases h' : a < c <;> simp [insertAscending, h, h', ih, or_left_comm]

/-- What was put in is not put in again. -/
theorem insertAscending_insertAscending (a : α) (as : List α) :
    insertAscending a (insertAscending a as) = insertAscending a as := by
  induction as with
  | nil => simp [insertAscending]
  | cons c rest ih =>
    by_cases h : a = c
    · simp [insertAscending, h]
    · by_cases h' : a < c <;> simp [insertAscending, h, h', ih]

theorem mem_foldl_insertAscending {b : α} (as sorted : List α) :
    b ∈ as.foldl (fun sorted a ↦ insertAscending a sorted) sorted ↔ b ∈ as ∨ b ∈ sorted := by
  induction as generalizing sorted with
  | nil => simp
  | cons a rest ih => simp [ih, or_left_comm, or_assoc]

@[simp] theorem mem_ascending {b : α} {as : List α} : b ∈ ascending as ↔ b ∈ as := by
  simp [ascending, mem_foldl_insertAscending]

end

end Rebalance
