import Mathlib.Data.List.Destutter
import Mathlib.Data.List.Sort

/-!
# Sorting and removing repetitions

`std::sort` followed by `std::unique`: the result is the strictly increasing list of the elements
(`pairwise_sortUnique`, `mem_sortUnique`), and no other strictly increasing list has these elements
(`eq_of_pairwise_lt`).
-/

set_option autoImplicit false

namespace CppMeet.Lib.SortUnique

universe u

variable {α : Type u} [LE α] [LT α] [Std.IsLinearOrder α] [Std.LawfulOrderLT α] [DecidableLE α]
  [DecidableEq α]

/-- `std::unique` keeps the first element of each run of equal ones. -/
def sortUnique (l : List α) : List α := (l.mergeSort (· ≤ ·)).destutter (· ≠ ·)

omit [LT α] [Std.LawfulOrderLT α] [DecidableEq α] in
theorem pairwise_mergeSort_le (l : List α) : (l.mergeSort (· ≤ ·)).Pairwise (· ≤ ·) := by
  have h : (l.mergeSort (· ≤ ·)).Pairwise fun a b => decide (a ≤ b) = true := by
    apply List.pairwise_mergeSort
    · intro a b c hab hbc
      exact decide_eq_true (Std.le_trans (of_decide_eq_true hab) (of_decide_eq_true hbc))
    · intro a b
      simpa using Std.le_total (a := a) (b := b)
  simpa using h

omit [LT α] [Std.LawfulOrderLT α] in
/-- Removing equal neighbours of a sorted list removes all duplicates. -/
theorem sortUnique_eq_dedup (l : List α) : sortUnique l = (l.mergeSort (· ≤ ·)).dedup := by
  have hanti : Std.Antisymm (fun a b : α => a ≤ b) := ⟨fun a b => Std.le_antisymm⟩
  exact (pairwise_mergeSort_le l).destutter_eq_dedup

omit [LT α] [Std.LawfulOrderLT α] in
theorem mem_sortUnique {l : List α} {a : α} : a ∈ sortUnique l ↔ a ∈ l := by
  rw [sortUnique_eq_dedup, List.mem_dedup, List.mem_mergeSort]

theorem pairwise_sortUnique (l : List α) : (sortUnique l).Pairwise (· < ·) := by
  rw [sortUnique_eq_dedup]
  have hle := (pairwise_mergeSort_le l).sublist (List.dedup_sublist _)
  have hne : ((l.mergeSort (· ≤ ·)).dedup).Pairwise (· ≠ ·) := List.nodup_dedup _
  exact hle.imp₂ (fun a b hab hne => Std.lt_of_le_of_ne hab hne) hne

omit [DecidableLE α] [DecidableEq α] in
/-- A strictly increasing list is determined by its elements. -/
theorem eq_of_pairwise_lt {l l' : List α} (h : l.Pairwise (· < ·)) (h' : l'.Pairwise (· < ·))
    (hmem : ∀ a, a ∈ l ↔ a ∈ l') : l = l' := by
  have hanti : Std.Antisymm (fun a b : α => a < b) :=
    ⟨fun a b hab hba => absurd (Std.lt_trans hab hba) Std.lt_irrefl⟩
  have hirrefl : Std.Irrefl (fun a b : α => a < b) := ⟨fun a => Std.lt_irrefl⟩
  exact h.eq_of_mem_iff h' hmem

/-- A strictly increasing list stays as it is. -/
theorem sortUnique_eq_self {l : List α} (h : l.Pairwise (· < ·)) : sortUnique l = l :=
  eq_of_pairwise_lt (pairwise_sortUnique l) h fun _ => mem_sortUnique

end CppMeet.Lib.SortUnique
