import Mathlib.Data.List.Basic
import Mathlib.Order.Lattice

/-! Positions in lists: rows of one length laid end to end, and the part of an ordered list
at which a key has one value. -/
namespace Segments
open List
variable {α β : Type}

variable {rows : List (List α)} {k : Nat}

theorem length_flatten_rows (hRows : ∀ row ∈ rows, row.length = k) : rows.flatten.length = rows.length * k := by
  induction rows with
  | nil => simp
  | cons row rest ih =>
    rw [flatten_cons, length_append, hRows row mem_cons_self,
      ih fun r hr => hRows r (mem_cons_of_mem row hr), length_cons, Nat.succ_mul, Nat.add_comm]

theorem length_le_flatten (hRows : ∀ row ∈ rows, row ≠ []) : rows.length ≤ rows.flatten.length := by
  induction rows with
  | nil => exact Nat.le_refl 0
  | cons row rest ih =>
    have hRow := length_pos_iff.mpr (hRows row mem_cons_self)
    have hRest := ih fun r hr => hRows r (mem_cons_of_mem row hr)
    rw [flatten_cons, length_append, length_cons]
    omega

theorem getElem?_flatten_rows (hRows : ∀ row ∈ rows, row.length = k) {c} (hc : c < k) (j : Nat) :
    rows.flatten[j * k + c]? = rows[j]?.bind (·[c]?) := by
  induction rows generalizing j with
  | nil => simp
  | cons row rest ih =>
    have hRow := hRows row mem_cons_self
    cases j with
    | zero =>
      rw [Nat.zero_mul, Nat.zero_add, flatten_cons, getElem?_append_left (hRow ▸ hc)]
      rfl
    | succ j =>
      have hIndex : (j + 1) * k + c - row.length = j * k + c := by
        rw [Nat.succ_mul]
        omega
      rw [flatten_cons, getElem?_append_right (by rw [Nat.succ_mul]; omega), hIndex,
        ih fun r hr => hRows r (mem_cons_of_mem row hr)]
      rfl

theorem block_flatten_rows {j} (hRows : ∀ row ∈ rows, row.length = k) {row}
    (hRow : rows[j]? = some row) : (rows.flatten.drop (j * k)).take k = row := by
  induction rows generalizing j with
  | nil => cases hRow
  | cons head rest ih =>
    have hHead := hRows head mem_cons_self
    cases j with
    | zero =>
      cases hRow
      rw [Nat.zero_mul, drop_zero, flatten_cons, ← hHead, take_left]
    | succ j =>
      have hIndex : (j + 1) * k = head.length + j * k := by
        rw [hHead, Nat.succ_mul, Nat.add_comm]
      rw [hIndex, ← drop_drop, flatten_cons, drop_left]
      exact ih (fun r hr => hRows r (mem_cons_of_mem head hr)) hRow

section Ordered
variable [LinearOrder β] (key : α → β) (a : β)

def lower (l : List α) : List α := l.filter fun x => key x < a

def stretch (l : List α) : List α := l.filter fun x => key x = a

def upper (l : List α) : List α := l.filter fun x => a < key x

theorem stretch_append (l l' : List α) : stretch key a (l ++ l') = stretch key a l ++ stretch key a l' :=
  filter_append _ _

variable {key a} {l : List α} (hOrdered : l.Pairwise fun x y => key x ≤ key y)
include hOrdered

theorem eq_append : l = lower key a l ++ (stretch key a l ++ upper key a l) := by
  induction l with
  | nil => rfl
  | cons x rest ih =>
    obtain ⟨hHead, hRest⟩ := pairwise_cons.mp hOrdered
    have ih := ih hRest
    rcases lt_trichotomy (key x) a with hLt | hEq | hGt
    · have hLower : lower key a (x :: rest) = x :: lower key a rest := filter_cons_of_pos (by simpa)
      have hSeg : stretch key a (x :: rest) = stretch key a rest :=
        filter_cons_of_neg (by simpa using hLt.ne)
      have hUpper : upper key a (x :: rest) = upper key a rest :=
        filter_cons_of_neg (by simpa using hLt.le)
      rw [hLower, hSeg, hUpper, cons_append, ← ih]
    · have hNone : lower key a rest = [] := by
        refine filter_eq_nil_iff.mpr fun y hy => ?_
        simpa using hEq ▸ hHead y hy
      have hLower : lower key a (x :: rest) = [] := by
        rw [lower, filter_cons_of_neg (by simpa using hEq.ge)]
        exact hNone
      have hSeg : stretch key a (x :: rest) = x :: stretch key a rest :=
        filter_cons_of_pos (by simpa)
      have hUpper : upper key a (x :: rest) = upper key a rest :=
        filter_cons_of_neg (by simpa using hEq.le)
      rw [hNone] at ih
      rw [hLower, hSeg, hUpper, nil_append]
      exact congrArg (x :: ·) ih
    · have hAll : ∀ y ∈ x :: rest, a < key y := by
        rintro y (_ | ⟨_, hy⟩)
        · exact hGt
        · exact lt_of_lt_of_le hGt (hHead y hy)
      have hLower : lower key a (x :: rest) = [] :=
        filter_eq_nil_iff.mpr fun y hy => by simpa using (hAll y hy).le
      have hSeg : stretch key a (x :: rest) = [] :=
        filter_eq_nil_iff.mpr fun y hy => by simpa using (hAll y hy).ne'
      have hUpper : upper key a (x :: rest) = x :: rest :=
        filter_eq_self.mpr fun y hy => by simpa using hAll y hy
      rw [hLower, hSeg, hUpper]
      rfl

variable {i : Nat} {x : α}

section
variable (hx : l[i]? = some x)
include hx

theorem index_lt (hKey : key x < a) : i < (lower key a l).length := by
  by_contra _
  rw [eq_append hOrdered (a := a), getElem?_append_right (by omega)] at hx
  have hMem := mem_of_getElem? hx
  simp only [stretch, upper, mem_append, mem_filter, decide_eq_true_eq] at hMem
  rcases hMem with ⟨-, hEq⟩ | ⟨-, hGt⟩
  · exact hKey.ne hEq
  · exact absurd hKey hGt.not_gt

theorem le_index (hKey : a ≤ key x) : (lower key a l).length ≤ i := by
  by_contra _
  rw [eq_append hOrdered (a := a), getElem?_append_left (by omega)] at hx
  have hMem := mem_of_getElem? hx
  simp only [lower, mem_filter, decide_eq_true_eq] at hMem
  exact absurd hMem.2 hKey.not_gt

theorem index_lt_end (hKey : key x ≤ a) : i < (lower key a l).length + (stretch key a l).length := by
  by_contra _
  rw [eq_append hOrdered (a := a), getElem?_append_right (by omega),
    getElem?_append_right (by omega)] at hx
  have hMem := mem_of_getElem? hx
  simp only [upper, mem_filter, decide_eq_true_eq] at hMem
  exact absurd hMem.2 hKey.not_gt

theorem end_le_index (hKey : a < key x) : (lower key a l).length + (stretch key a l).length ≤ i := by
  by_contra _
  rw [eq_append hOrdered (a := a), ← append_assoc, getElem?_append_left (by rw [length_append]; omega)] at hx
  have hMem := mem_of_getElem? hx
  simp only [lower, stretch, mem_append, mem_filter, decide_eq_true_eq] at hMem
  rcases hMem with ⟨-, hLt⟩ | ⟨-, hEq⟩
  · exact absurd hKey hLt.not_gt
  · exact hKey.ne' hEq

theorem getElem?_stretch (hKey : key x = a) : (stretch key a l)[i - (lower key a l).length]? = some x := by
  have hLower := le_index hOrdered hx hKey.ge
  have hEnd := index_lt_end hOrdered hx hKey.le
  rw [eq_append hOrdered (a := a), getElem?_append_right hLower, getElem?_append_left (by omega)] at hx
  exact hx

end

theorem block_eq_append (i k : Nat) : ∃ before after, (∀ x ∈ after, a < key x) ∧
    before = ((lower key a l).drop i).take k ∧
    (l.drop i).take k = before ++ (((stretch key a l).drop (i - (lower key a l).length)).take
      (k - ((lower key a l).length - i)) ++ after) := by
  refine ⟨_, ((upper key a l).drop (i - (lower key a l).length - (stretch key a l).length)).take
    (k - ((lower key a l).length - i) - ((stretch key a l).length - (i - (lower key a l).length))), ?_, rfl, ?_⟩
  · intro x hx
    have hUpper := (mem_filter.mp (mem_of_mem_drop (mem_of_mem_take hx))).2
    exact of_decide_eq_true hUpper
  · conv_lhs => rw [eq_append hOrdered (a := a)]
    rw [drop_append, drop_append, take_append, take_append, length_drop, length_drop]

theorem stretch_block (i k : Nat) :
    stretch key a ((l.drop i).take k) =
      ((stretch key a l).drop (i - (lower key a l).length)).take (k - ((lower key a l).length - i)) := by
  obtain ⟨before, after, hAfter, hBefore, hBlock⟩ := block_eq_append hOrdered (a := a) i k
  have hNone : stretch key a before = [] := by
    refine filter_eq_nil_iff.mpr fun x hx => ?_
    have hMem := mem_of_mem_drop (mem_of_mem_take (hBefore ▸ hx))
    simpa using (of_decide_eq_true (mem_filter.mp hMem).2).ne
  have hRest : stretch key a after = [] :=
    filter_eq_nil_iff.mpr fun x hx => by simpa using (hAfter x hx).ne'
  rw [hBlock, stretch, filter_append, filter_append]
  unfold stretch at hNone hRest
  rw [hNone, hRest, append_nil]
  refine filter_eq_self.mpr fun x hx => ?_
  exact (mem_filter.mp (mem_of_mem_drop (mem_of_mem_take hx))).2

theorem length_lower_block (i k : Nat) :
    (lower key a ((l.drop i).take k)).length = min k ((lower key a l).length - i) := by
  obtain ⟨before, after, hAfter, hBefore, hBlock⟩ := block_eq_append hOrdered (a := a) i k
  have hAll : lower key a before = before := by
    refine filter_eq_self.mpr fun x hx => ?_
    have hMem := mem_of_mem_drop (mem_of_mem_take (hBefore ▸ hx))
    exact (mem_filter.mp hMem).2
  rw [hBlock, lower, filter_append]
  have hRest : filter (fun x => decide (key x < a)) (((stretch key a l).drop (i - (lower key a l).length)).take
      (k - ((lower key a l).length - i)) ++ after) = [] := by
    refine filter_eq_nil_iff.mpr fun x hx => ?_
    rcases mem_append.mp hx with hStretch | hUpper
    · have hMem := mem_of_mem_drop (mem_of_mem_take hStretch)
      simpa using (of_decide_eq_true (mem_filter.mp hMem).2).ge
    · simpa using (hAfter x hUpper).le
  unfold lower at hAll
  rw [hRest, append_nil, hAll, hBefore, length_take, length_drop]

end Ordered
end Segments
