import Mathlib.Algebra.Group.Nat.Even
import Mathlib.Data.List.Basic

/-! The key to a policy as text: the addresses of payer and payee, with a separator between them that may also be
part of an address. -/
namespace SovereignSdk
open List Nat

/-- Addresses as text. The texts of addresses have one length, and nothing of another length is parsed. -/
structure AddressFormat (Address : Type) where
  display : Address → List Char
  fromStr : List Char → Option Address
  length : Nat
  length_display : ∀ a, (display a).length = length
  fromStr_display : ∀ a, fromStr (display a) = some a
  length_of_fromStr : ∀ text a, fromStr text = some a → text.length = length

structure PolicyKey (Address : Type) where
  payer : Address
  payee : Address

inductive PolicyKeyError where
  | missingPrefix
  | invalidPayee
  | noSplit

namespace PolicyKey

def payersPrefix : List Char := "payers/".toList

def policySeparator : List Char := "/policy/".toList

/-- `match_indices` for the separator, `idx` characters into the text: `skip` characters of the last match are
still to be passed, since matches do not overlap. -/
def matchIndices : Nat → Nat → List Char → List Nat
  | _, _, [] => []
  | skip + 1, idx, _ :: text => matchIndices skip (idx + 1) text
  | 0, idx, c :: text =>
    if policySeparator.isPrefixOf (c :: text) then idx :: matchIndices 7 (idx + 1) text
    else matchIndices 0 (idx + 1) text

variable {Address : Type} (A : AddressFormat Address)

def display (key : PolicyKey Address) : List Char :=
  payersPrefix ++ (A.display key.payer ++ (policySeparator ++ A.display key.payee))

def trySplits (s : List Char) : List Nat → Except PolicyKeyError (PolicyKey Address)
  | [] => .error .noSplit
  | idx :: rest =>
    match A.fromStr (s.take idx) with
    | none => trySplits s rest
    | some payer =>
      match A.fromStr (s.drop (idx + policySeparator.length)) with
      | none => .error .invalidPayee
      | some payee => .ok ⟨payer, payee⟩

def fromStr (s : List Char) : Except PolicyKeyError (PolicyKey Address) :=
  if payersPrefix.isPrefixOf s then
    trySplits A (s.drop payersPrefix.length) (matchIndices 0 0 (s.drop payersPrefix.length))
  else .error .missingPrefix

/-- The separator up to its last character, `k` times. A text that ends in it makes an occurrence of the separator
that overlaps the one behind the text. -/
def overlaps (k : Nat) : List Char := (replicate k "/policy".toList).flatten

theorem le_of_mem_matchIndices {skip idx n text} (h : n ∈ matchIndices skip idx text) : idx ≤ n := by
  induction text generalizing skip idx with
  | nil => simp [matchIndices] at h
  | cons c text ih =>
    cases skip with
    | succ skip => exact le_of_succ_le (ih h)
    | zero =>
      unfold matchIndices at h
      split at h
      · rcases mem_cons.mp h with rfl | h
        · exact le_refl _
        · exact le_of_succ_le (ih h)
      · exact le_of_succ_le (ih h)

/-- Two occurrences of the separator that overlap share one character only. -/
theorem eq_of_overlap {v r} (hPos : 0 < v.length) (hLe : v.length ≤ 7)
    (hFirst : policySeparator <+: v ++ r) (hSecond : policySeparator <+: r) : v = "/policy".toList := by
  have hPrefix : v <+: policySeparator :=
    prefix_of_prefix_length_le (prefix_append v r) hFirst (le_succ_of_le hLe)
  have hTake := prefix_iff_eq_take.mp hPrefix
  have hDrop : policySeparator.drop v.length <+: r := by
    rw [← prefix_append_right_inj v]
    nth_rewrite 1 [hTake]
    rwa [take_append_drop]
  have hBorder : policySeparator.drop v.length <+: policySeparator :=
    prefix_of_prefix_length_le hDrop hSecond (by simp)
  have hSeven : ∀ m < 8, 0 < m → policySeparator.drop m <+: policySeparator → m = 7 := by decide
  rw [hTake, hSeven _ (lt_succ_of_le hLe) hPos hBorder]
  rfl

/-- A text that does not end in an overlap is passed without a match that reaches behind it. -/
theorem mem_matchIndices_append {w r} (hEnd : ¬"/policy".toList <:+ w) (hNext : policySeparator <+: r)
    {skip idx n} (hSkip : skip ≤ w.length) (hn : idx + w.length ≤ n) :
    n ∈ matchIndices skip idx (w ++ r) ↔ n ∈ matchIndices 0 (idx + w.length) r := by
  induction w generalizing skip idx with
  | nil => rw [le_zero.mp hSkip, nil_append, length_nil, add_zero]
  | cons c w ih =>
    have hEnd' : ¬"/policy".toList <:+ w := fun h => hEnd (h.trans (suffix_cons c w))
    rw [length_cons, add_comm w.length, ← add_assoc] at hn ⊢
    cases skip with
    | succ skip => exact ih hEnd' (le_of_succ_le_succ hSkip) hn
    | zero =>
      rw [cons_append, matchIndices]
      split
      · rename_i hMatch
        have hLong : 7 ≤ w.length := by
          by_contra hShort
          have hHere : c :: w = _ :=
            eq_of_overlap (Nat.zero_lt_succ _) (Nat.lt_of_not_le hShort) ( isPrefixOf_iff_prefix.mp hMatch) hNext
          exact hEnd (hHere ▸ suffix_refl _)
        rw [mem_cons, ih hEnd' hLong hn]
        exact or_iff_right (by omega)
      · exact ih hEnd' (zero_le _) hn

theorem overlaps_succ (k : Nat) : overlaps (k + 1) = "/policy".toList ++ overlaps k := rfl

theorem starts_with_separator (k : Nat) (q : List Char) : policySeparator <+: overlaps k ++ (policySeparator ++ q) := by
  induction k with
  | zero => exact prefix_append _ _
  | succ k ih =>
    obtain ⟨t, ht⟩ := ih
    rw [overlaps_succ, append_assoc, ← ht]
    exact ⟨"policy/".toList ++ t, rfl⟩

/-- Of overlaps in a row every second one is matched. -/
theorem mem_matchIndices_overlaps (k idx : Nat) (q : List Char) :
    idx + 7 * k ∈ matchIndices 0 idx (overlaps k ++ (policySeparator ++ q)) ↔ Even k := by
  induction k using Nat.twoStepInduction generalizing idx with
  | zero => exact iff_of_true mem_cons_self (by decide)
  | one =>
    refine iff_of_false (fun h => ?_) (by decide)
    have h : idx + 7 ∈ idx :: matchIndices 0 (idx + 8) ("policy/".toList ++ q) := h
    rcases mem_cons.mp h with h | h
    · omega
    · have hLe := le_of_mem_matchIndices h
      omega
  | more k ih _ =>
    change idx + 7 * (k + 2) ∈ idx :: matchIndices 0 (idx + 14) (overlaps k ++ (policySeparator ++ q)) ↔ _
    rw [mem_cons, or_iff_right (by omega), even_add, iff_true_right (by decide : Even 2), ← ih (idx + 14),
      Nat.add_assoc, Nat.mul_add, Nat.add_comm 14]

theorem exists_overlaps (text : List Char) : ∃ w k, text = w ++ overlaps k ∧ ¬"/policy".toList <:+ w := by
  by_cases hEnd : "/policy".toList <:+ text
  · obtain ⟨front, rfl⟩ := hEnd
    obtain ⟨w, k, rfl, hw⟩ := exists_overlaps front
    refine ⟨w, k + 1, ?_, hw⟩
    simp [overlaps, replicate_succ']
  · exact ⟨text, 0, by simp [overlaps], hEnd⟩
termination_by text.length
decreasing_by
  subst_vars
  simp

/-- Only the cut behind the payer gives texts of the right length. -/
theorem trySplits_ok (key : PolicyKey Address) (indices : List Nat) :
    trySplits A (A.display key.payer ++ (policySeparator ++ A.display key.payee)) indices = .ok key ↔
      A.length ∈ indices := by
  induction indices with
  | nil => simp [trySplits]
  | cons idx rest ih =>
    have hLen := A.length_display key.payer
    unfold trySplits
    by_cases hIdx : idx = A.length
    · subst hIdx
      rw [take_left' hLen, A.fromStr_display, drop_append, ← hLen]
      simp [drop_eq_nil_of_le, A.fromStr_display]
    · cases hPayer : A.fromStr ((A.display key.payer ++ (policySeparator ++ A.display key.payee)).take idx) with
      | none =>
        rw [mem_cons, ← ih, or_iff_right (Ne.symm hIdx)]
      | some payer =>
        have hCut := A.length_of_fromStr _ _ hPayer
        rw [length_take, length_append, length_append, hLen] at hCut
        have hSep : policySeparator.length = 8 := rfl
        omega

/-- For every format and every two addresses: the key is read back just if its payer's text ends in an even number of
overlaps. -/
theorem fromStr_display_iff (key : PolicyKey Address) :
    fromStr A (key.display A) = .ok key ↔
      ∃ w k, A.display key.payer = w ++ overlaps (2 * k) ∧ ¬"/policy".toList <:+ w := by
  have hFromStr : fromStr A (key.display A) = .ok key ↔ A.length ∈
      matchIndices 0 0 (A.display key.payer ++ (policySeparator ++ A.display key.payee)) := by
    exact trySplits_ok A key _
  have hEven (w : List Char) (k : Nat) (hText : A.display key.payer = w ++ overlaps k)
      (hEnd : ¬"/policy".toList <:+ w) : fromStr A (key.display A) = .ok key ↔ Even k := by
    rw [hFromStr, ← A.length_display key.payer, hText, append_assoc, length_append,
      mem_matchIndices_append hEnd (starts_with_separator k _) (zero_le _) (by omega), zero_add,
      ← mem_matchIndices_overlaps k w.length (A.display key.payee)]
    simp [overlaps, mul_comm]
  constructor
  · intro hRead
    obtain ⟨w, k, hText, hEnd⟩ := exists_overlaps (A.display key.payer)
    obtain ⟨j, rfl⟩ := (hEven w k hText hEnd).mp hRead
    exact ⟨w, j, by rw [hText, Nat.two_mul], hEnd⟩
  · rintro ⟨w, k, hText, hEnd⟩
    exact (hEven w _ hText hEnd).mpr ⟨k, Nat.two_mul k⟩

def twelveCharacters : AddressFormat { text : List Char // text.length = 12 } where
  display := Subtype.val
  fromStr text := if h : text.length = 12 then some ⟨text, h⟩ else none
  length := 12
  length_display a := a.2
  fromStr_display a := dif_pos a.2
  length_of_fromStr text a h := by
    by_contra hOther
    rw [dif_neg hOther] at h
    cases h

/-- The separator is first found in the payer's text, and the real one overlaps it. -/
theorem overlapping_separator_is_missed :
    fromStr twelveCharacters (display twelveCharacters
      ⟨⟨"evil1/policy".toList, rfl⟩, ⟨"innocuouskey".toList, rfl⟩⟩) = .error .noSplit := rfl

end PolicyKey
end SovereignSdk
