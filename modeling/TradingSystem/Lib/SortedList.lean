import Mathlib.Data.List.Sort

/-!
# Lists sorted by a strict order

A list sorted by a strict order is a priority queue without repetitions: `List.orderedInsert` inserts,
the head is the least member, and the members determine the list (`List.Pairwise.eq_of_mem_iff`).
-/

namespace Lib

variable {α : Type*} {r : α → α → Prop}

/-- Insertion keeps the order when the new member is comparable to the old ones. -/
theorem pairwise_orderedInsert [DecidableRel r] [IsTrans α r] {a : α} {l : List α} (h : l.Pairwise r)
    (htotal : ∀ b ∈ l, r a b ∨ r b a) : (l.orderedInsert r a).Pairwise r := by
  induction l with
  | nil => exact List.pairwise_singleton r a
  | cons b l ih =>
    obtain ⟨hb, hl⟩ := List.pairwise_cons.mp h
    rw [List.orderedInsert_cons]
    split_ifs with hab
    · refine List.pairwise_cons.mpr ⟨fun c hc => ?_, h⟩
      rcases List.mem_cons.mp hc with rfl | hc
      · exact hab
      · exact IsTrans.trans a b c hab (hb c hc)
    · refine List.pairwise_cons.mpr ⟨fun c hc => ?_, ih hl fun c hc => htotal c (List.mem_cons_of_mem b hc)⟩
      rcases (List.mem_orderedInsert r).mp hc with rfl | hc
      · exact (htotal b List.mem_cons_self).resolve_left hab
      · exact hb c hc

/-- A member that comes before all others is the head. -/
theorem exists_cons_of_least [Std.Antisymm r] {a : α} {l : List α} (h : l.Pairwise r) (ha : a ∈ l)
    (hleast : ∀ b ∈ l, b ≠ a → r a b) : ∃ rest, l = a :: rest := by
  cases l with
  | nil => exact absurd ha List.not_mem_nil
  | cons b l =>
    rcases List.mem_cons.mp ha with rfl | ha
    · exact ⟨l, rfl⟩
    · have hba : r b a := (List.pairwise_cons.mp h).1 a ha
      by_cases hne : b = a
      · exact ⟨l, by rw [hne]⟩
      · exact ⟨l, by rw [Std.Antisymm.antisymm b a hba (hleast b List.mem_cons_self hne)]⟩

/-- The members of the tail are the others. -/
theorem mem_tail_iff [Std.Irrefl r] {a b : α} {l : List α} (h : (a :: l).Pairwise r) :
    b ∈ l ↔ b ∈ a :: l ∧ b ≠ a := by
  rw [List.mem_cons]
  constructor
  · intro hb
    refine ⟨Or.inr hb, ?_⟩
    rintro rfl
    exact Std.Irrefl.irrefl b ((List.pairwise_cons.mp h).1 b hb)
  · rintro ⟨rfl | hb, hne⟩
    · exact absurd rfl hne
    · exact hb

end Lib
