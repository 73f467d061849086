import Mathlib.Data.List.Sort
import Mathlib.Logic.Function.Basic
import Mathlib.Order.Lattice

/-! Writes to a map, listed from the newest to the oldest: a stable sort by key, of which only
the first entry of each key is kept, leaves the latest write of each key. -/
namespace LatestWrites
open List
variable {κ ν : Type} [LinearOrder κ]

/-- `dedup_by` after an entry that is kept: an entry with the key of the last one kept goes. -/
def dedupAfter (last : κ) : List (κ × ν) → List (κ × ν)
  | [] => []
  | write :: rest => if write.1 = last then dedupAfter last rest else write :: dedupAfter write.1 rest

def dedupByKey : List (κ × ν) → List (κ × ν)
  | [] => []
  | write :: rest => write :: dedupAfter write.1 rest

def sortByKey (writes : List (κ × ν)) : List (κ × ν) := writes.insertionSort fun a b => a.1 ≤ b.1

def applyWrites (m : κ → ν) (writes : List (κ × ν)) : κ → ν :=
  writes.foldl (fun m write => Function.update m write.1 write.2) m

variable {writes : List (κ × ν)}

theorem dedupAfter_ascending {last} (hSorted : writes.Pairwise fun a b => a.1 ≤ b.1)
    (hLast : ∀ write ∈ writes, last ≤ write.1) :
    (∀ write ∈ dedupAfter last writes, last < write.1) ∧
      (dedupAfter last writes).Pairwise fun a b => a.1 < b.1 := by
  induction writes generalizing last with
  | nil => exact ⟨by simp [dedupAfter], List.Pairwise.nil⟩
  | cons write rest ih =>
    obtain ⟨hHead, hRest⟩ := pairwise_cons.mp hSorted
    rw [dedupAfter]
    split
    · exact ih hRest fun w hw => hLast w (mem_cons_of_mem _ hw)
    · rename_i hNe
      obtain ⟨hAbove, hAsc⟩ := ih hRest hHead
      have hLt : last < write.1 := lt_of_le_of_ne (hLast write mem_cons_self) (Ne.symm hNe)
      refine ⟨?_, pairwise_cons.mpr ⟨hAbove, hAsc⟩⟩
      intro w hw
      rcases mem_cons.mp hw with rfl | hw
      · exact hLt
      · exact hLt.trans (hAbove w hw)

theorem lookup_dedupAfter {last k} (hKey : k ≠ last) (writes : List (κ × ν)) :
    (dedupAfter last writes).lookup k = writes.lookup k := by
  induction writes generalizing last with
  | nil => rfl
  | cons write rest ih =>
    rw [dedupAfter]
    split
    · rename_i hSame
      rw [ih hKey, lookup_cons, beq_false_of_ne (hSame ▸ hKey)]
    · rw [lookup_cons, lookup_cons]
      by_cases hWrite : k = write.1
      · simp [hWrite]
      · rw [ih hWrite]

theorem lookup_dedupByKey (writes : List (κ × ν)) (k : κ) : (dedupByKey writes).lookup k = writes.lookup k := by
  cases writes with
  | nil => rfl
  | cons write rest =>
    rw [dedupByKey, lookup_cons, lookup_cons]
    by_cases hWrite : k = write.1
    · simp [hWrite]
    · rw [lookup_dedupAfter hWrite]

theorem dedupByKey_ascending (hSorted : writes.Pairwise fun a b => a.1 ≤ b.1) :
    (dedupByKey writes).Pairwise fun a b => a.1 < b.1 := by
  cases writes with
  | nil => exact List.Pairwise.nil
  | cons write rest =>
    obtain ⟨hHead, hRest⟩ := pairwise_cons.mp hSorted
    exact pairwise_cons.mpr (dedupAfter_ascending hRest hHead)

/-- An entry is inserted before the entries of its key, so that it hides them as it did in front. -/
theorem lookup_orderedInsert (write : κ × ν) (writes : List (κ × ν)) (k : κ) :
    (writes.orderedInsert (fun a b => a.1 ≤ b.1) write).lookup k = (write :: writes).lookup k := by
  induction writes with
  | nil => rfl
  | cons first rest ih =>
    rw [orderedInsert_cons]
    split
    · rfl
    · rename_i hAfter
      have hNe : write.1 ≠ first.1 := fun h => hAfter (le_of_eq h)
      rw [lookup_cons, ih, lookup_cons, lookup_cons, lookup_cons]
      by_cases hFirst : k = first.1
      · simp [hFirst, beq_false_of_ne hNe.symm]
      · simp only [beq_false_of_ne hFirst]

theorem lookup_sortByKey (writes : List (κ × ν)) (k : κ) : (sortByKey writes).lookup k = writes.lookup k := by
  induction writes with
  | nil => rfl
  | cons write rest ih =>
    have hStep : sortByKey (write :: rest) = (sortByKey rest).orderedInsert (fun a b => a.1 ≤ b.1) write := rfl
    rw [hStep, lookup_orderedInsert, lookup_cons, lookup_cons, ih]

theorem sortByKey_sorted (writes : List (κ × ν)) : (sortByKey writes).Pairwise fun a b => a.1 ≤ b.1 := by
  exact pairwise_insertionSort _ writes

theorem applyWrites_eq (hAsc : writes.Pairwise fun a b => a.1 ≠ b.1) (m : κ → ν) (k : κ) :
    applyWrites m writes k = (writes.lookup k).getD (m k) := by
  induction writes generalizing m with
  | nil => rfl
  | cons write rest ih =>
    obtain ⟨hHead, hRest⟩ := pairwise_cons.mp hAsc
    have hStep : applyWrites m (write :: rest) = applyWrites (Function.update m write.1 write.2) rest := rfl
    rw [hStep, ih hRest, lookup_cons]
    by_cases hWrite : k = write.1
    · have hRestNone : rest.lookup k = none := by
        rw [lookup_eq_none_iff]
        intro w hw
        simpa [hWrite] using hHead w hw
      rw [hRestNone, hWrite]
      simp
    · rw [beq_false_of_ne hWrite, Function.update_of_ne hWrite]

end LatestWrites
