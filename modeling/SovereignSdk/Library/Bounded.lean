import Mathlib.Algebra.BigOperators.Group.Finset.Basic
import Mathlib.Algebra.Order.BigOperators.Group.Finset
import Mathlib.Data.Nat.Basic

/-! Checked and saturating arithmetic below a bound, and bounds on the total of
a family of naturals whose support is not known to be finite. -/
namespace Bounded
open Function Finset

def checkedAdd (max a b : Nat) : Option Nat :=
  if a + b ≤ max then some (a + b) else none

def checkedMul (max a b : Nat) : Option Nat :=
  if a * b ≤ max then some (a * b) else none

def checkedSub (a b : Nat) : Option Nat :=
  if b ≤ a then some (a - b) else none

def saturatingAdd (max a b : Nat) : Nat := min (a + b) max

def saturatingMul (max a b : Nat) : Nat := min (a * b) max

variable {max a b : Nat}

@[simp] theorem checkedAdd_eq_some {c} : checkedAdd max a b = some c ↔ a + b ≤ max ∧ c = a + b := by
  unfold checkedAdd
  split <;> simp_all [eq_comm]

@[simp] theorem checkedAdd_eq_none : checkedAdd max a b = none ↔ max < a + b := by
  unfold checkedAdd
  split <;> simp <;> omega

@[simp] theorem checkedMul_eq_some {c} : checkedMul max a b = some c ↔ a * b ≤ max ∧ c = a * b := by
  unfold checkedMul
  split <;> simp_all [eq_comm]

@[simp] theorem checkedSub_eq_some {c} : checkedSub a b = some c ↔ b ≤ a ∧ c = a - b := by
  unfold checkedSub
  split <;> simp_all [eq_comm]

@[simp] theorem checkedSub_eq_none : checkedSub a b = none ↔ a < b := by
  unfold checkedSub
  split <;> simp <;> omega

section Total
variable {κ : Type*} {f g : κ → Nat} {c d : Nat}

/-- Every finite part of the family sums to at most `c`. -/
def TotalAtMost (f : κ → Nat) (c : Nat) : Prop := ∀ A : Finset κ, ∑ k ∈ A, f k ≤ c

theorem TotalAtMost.le (h : TotalAtMost f c) (k : κ) : f k ≤ c := by
  simpa using h {k}

theorem TotalAtMost.mono (h : TotalAtMost f c) (hcd : c ≤ d) : TotalAtMost f d :=
  fun A => (h A).trans hcd

theorem TotalAtMost.anti (h : TotalAtMost f c) (hgf : ∀ k, g k ≤ f k) : TotalAtMost g c :=
  fun A => (sum_le_sum fun k _ => hgf k).trans (h A)

variable [DecidableEq κ]

theorem TotalAtMost.pair (h : TotalAtMost f c) {k l} (hne : k ≠ l) : f k + f l ≤ c := by
  simpa [sum_pair hne] using h {k, l}

theorem TotalAtMost.change (h : TotalAtMost f c) (k : κ) (hOther : ∀ l, l ≠ k → g l = f l)
    (hHere : ∀ t, f k + t ≤ c → g k + t ≤ d) : TotalAtMost g d := by
  intro A
  have hRest : ∑ l ∈ A.erase k, g l = ∑ l ∈ A.erase k, f l :=
    sum_congr rfl fun l hl => hOther l (ne_of_mem_erase hl)
  have hAll := h (insert k (A.erase k))
  rw [sum_insert (notMem_erase k A)] at hAll
  have hNew : ∑ l ∈ A, g l ≤ ∑ l ∈ insert k (A.erase k), g l :=
    sum_le_sum_of_subset (by intro l hl; by_cases hk : l = k <;> simp [hk, hl])
  rw [sum_insert (notMem_erase k A), hRest] at hNew
  exact hNew.trans (hHere _ hAll)

theorem eq_update_of_ne {k l} (hOther : ∀ m, m ≠ k → m ≠ l → g m = f m) {m} (hm : m ≠ l) :
    g m = Function.update f k (g k) m := by
  by_cases hk : m = k
  · rw [hk, update_self]
  · rw [hOther m hk hm, update_of_ne hk]

theorem TotalAtMost.move (h : TotalAtMost f c) {k l} (hne : k ≠ l)
    (hOther : ∀ m, m ≠ k → m ≠ l → g m = f m) (hSum : g k + g l ≤ f k + f l) : TotalAtMost g c := by
  have hHalf : TotalAtMost (update f k (g k)) (c - f k + g k) := by
    refine h.change k (fun m hm => update_of_ne hm _ _) fun t ht => ?_
    rw [update_self]
    omega
  refine hHalf.change l (fun m => eq_update_of_ne hOther) fun t ht => ?_
  have hLe := h.le k
  rw [update_of_ne hne.symm] at ht
  omega

/-- The family has finite support and sums to `c`. -/
def TotalIs (f : κ → Nat) (c : Nat) : Prop := ∃ A : Finset κ, (∀ k, k ∉ A → f k = 0) ∧ ∑ k ∈ A, f k = c

namespace TotalIs

omit [DecidableEq κ] in
theorem zero (h : ∀ k, f k = 0) : TotalIs f 0 := ⟨∅, fun k _ => h k, sum_empty⟩

omit [DecidableEq κ] in
theorem congr (h : TotalIs f c) (hSame : ∀ k, g k = f k) : TotalIs g c :=
  funext hSame ▸ h

/-- The sum over any finite part that covers the support. -/
theorem sum_union {A} (hA : ∀ k, k ∉ A → f k = 0) (B : Finset κ) : ∑ k ∈ A ∪ B, f k = ∑ k ∈ A, f k :=
  (sum_subset subset_union_left fun k _ hk => hA k hk).symm

theorem eq (h : TotalIs f c) (h' : TotalIs f d) : c = d := by
  obtain ⟨A, hA, rfl⟩ := h
  obtain ⟨B, hB, rfl⟩ := h'
  rw [← sum_union hA B, union_comm, sum_union hB A]

theorem atMost (h : TotalIs f c) : TotalAtMost f c := by
  obtain ⟨A, hA, rfl⟩ := h
  intro B
  rw [← sum_union hA B]
  exact sum_le_sum_of_subset subset_union_right

theorem eq_zero (h : TotalIs f 0) (k : κ) : f k = 0 := Nat.le_zero.mp (h.atMost.le k)

theorem change (h : TotalIs f c) (k : κ) (hOther : ∀ l, l ≠ k → g l = f l) (hHere : d + f k = c + g k) :
    TotalIs g d := by
  obtain ⟨A, hA, rfl⟩ := h
  refine ⟨A ∪ {k}, fun l hl => ?_, ?_⟩
  · simp only [mem_union, mem_singleton, not_or] at hl
    rw [hOther l hl.2, hA l hl.1]
  · have hMem : k ∈ A ∪ {k} := by simp
    have hRest : ∑ l ∈ (A ∪ {k}).erase k, g l = ∑ l ∈ (A ∪ {k}).erase k, f l :=
      sum_congr rfl fun l hl => hOther l (ne_of_mem_erase hl)
    have hOld := sum_erase_add (A ∪ {k}) f hMem
    have hNew := sum_erase_add (A ∪ {k}) g hMem
    rw [sum_union hA] at hOld
    omega

theorem move (h : TotalIs f c) {k l} (hne : k ≠ l) (hOther : ∀ m, m ≠ k → m ≠ l → g m = f m)
    (hSum : g k + g l = f k + f l) : TotalIs g c := by
  have hLe := h.atMost.le k
  have hHalf : TotalIs (update f k (g k)) (c - f k + g k) := by
    refine h.change k (fun m hm => update_of_ne hm _ _) ?_
    rw [update_self]
    omega
  refine hHalf.change l (fun m => eq_update_of_ne hOther) ?_
  rw [update_of_ne hne.symm]
  omega

end TotalIs

end Total
end Bounded
