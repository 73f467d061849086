import Mathlib.Data.List.Sort
import Mathlib.Order.Lattice

/-! The difference of two sorted lists, by one walk through both. -/
variable {α : Type} [LinearOrder α]

def sortedDifference : List α → List α → List α
  | _, [] => []
  | removed, item :: rest =>
    let removed := removed.dropWhile (· < item)
    if removed.head? = some item then sortedDifference removed rest
    else item :: sortedDifference removed rest

namespace sortedDifference
open List

theorem length_le (removed items : List α) : (sortedDifference removed items).length ≤ items.length := by
  induction items generalizing removed with
  | nil => exact Nat.le_refl 0
  | cons item rest ih =>
    have hRest := ih (removed.dropWhile (· < item))
    simp only [sortedDifference]
    split
    · rw [length_cons]
      omega
    · rw [length_cons, length_cons]
      omega

variable {removed : List α} {item a : α}

/-- Smaller elements of the first list do not matter any more. -/
theorem mem_dropWhile_iff (hSorted : removed.Pairwise (· ≤ ·)) (h : item ≤ a) :
    a ∈ removed.dropWhile (· < item) ↔ a ∈ removed := by
  induction removed with
  | nil => rfl
  | cons first others ih =>
    rw [dropWhile_cons]
    split
    · rename_i hLess
      have hNe : a ≠ first := ((of_decide_eq_true hLess).trans_le h).ne'
      rw [ih hSorted.of_cons, mem_cons, or_iff_right hNe]
    · rfl

theorem head_dropWhile_iff (hSorted : removed.Pairwise (· ≤ ·)) :
    (removed.dropWhile (· < item)).head? = some item ↔ item ∈ removed := by
  induction removed with
  | nil => simp
  | cons first others ih =>
    rw [dropWhile_cons]
    split
    · rename_i hLess
      have hNe : item ≠ first := (of_decide_eq_true hLess).ne'
      rw [ih hSorted.of_cons, mem_cons, or_iff_right hNe]
    · rename_i hNot
      have hLe : item ≤ first := not_lt.mp fun hLess => hNot (decide_eq_true hLess)
      rw [head?_cons, Option.some.injEq, mem_cons]
      constructor
      · exact fun hSame => .inl hSame.symm
      · rintro (hSame | hLater)
        · exact hSame.symm
        · exact le_antisymm (rel_of_pairwise_cons hSorted hLater) hLe

theorem mem_iff {items} (hRemoved : removed.Pairwise (· ≤ ·)) (hItems : items.Pairwise (· ≤ ·)) :
    a ∈ sortedDifference removed items ↔ a ∈ items ∧ a ∉ removed := by
  induction items generalizing removed with
  | nil => simp [sortedDifference]
  | cons item rest ih =>
    have hDropped : (removed.dropWhile (· < item)).Pairwise (· ≤ ·) :=
      hRemoved.sublist (dropWhile_sublist _)
    have hRest : a ∈ rest → (a ∈ removed.dropWhile (· < item) ↔ a ∈ removed) := fun hMem =>
      mem_dropWhile_iff hRemoved (rel_of_pairwise_cons hItems hMem)
    simp only [sortedDifference, head_dropWhile_iff hRemoved]
    split
    · rename_i hItem
      rw [ih hDropped hItems.of_cons, mem_cons]
      constructor
      · rintro ⟨hMem, hNot⟩
        exact ⟨.inr hMem, fun hIn => hNot ((hRest hMem).mpr hIn)⟩
      · rintro ⟨rfl | hMem, hNot⟩
        · exact absurd hItem hNot
        · exact ⟨hMem, fun hIn => hNot ((hRest hMem).mp hIn)⟩
    · rename_i hItem
      rw [mem_cons, ih hDropped hItems.of_cons, mem_cons]
      constructor
      · rintro (rfl | ⟨hMem, hNot⟩)
        · exact ⟨.inl rfl, hItem⟩
        · exact ⟨.inr hMem, fun hIn => hNot ((hRest hMem).mpr hIn)⟩
      · rintro ⟨rfl | hMem, hNot⟩
        · exact .inl rfl
        · exact .inr ⟨hMem, fun hIn => hNot ((hRest hMem).mp hIn)⟩

end sortedDifference
