import Mathlib.Algebra.Field.Rat
import Mathlib.Algebra.GroupWithZero.Basic
import Mathlib.Data.List.DropRight

/-! The texts of amounts that the universal wallet displays. -/
namespace SovereignSdk.UniversalWallet
open List

def toText : Int → List Char
  | .ofNat n => Nat.toDigits 10 n
  | .negSucc n => '-' :: Nat.toDigits 10 (n + 1)

/-- Without the zeros at the end, and without a point there. -/
def trim (text : List Char) : List Char := (text.rdropWhile (· = '0')).rdropWhile (· = '.')

/-- A zero goes before the point even if there are not enough digits. -/
def insertPoint (digits : List Char) (decimals : Nat) : List Char :=
  let padded := digits.leftpad (decimals + 1) '0'
  let decimalIdx := padded.length - decimals
  trim (padded.take decimalIdx ++ '.' :: padded.drop decimalIdx)

def formatFixedPoint (decimals : Nat) : List Char → List Char
  | '-' :: digits => '-' :: insertPoint digits decimals
  | digits => insertPoint digits decimals

def unsignedValue (text : List Char) : ℚ :=
  Nat.ofDigitChars 10 (text.filter (· ≠ '.')) 0 / 10 ^ (text.dropWhile (· ≠ '.')).tail.length

def textValue : List Char → ℚ
  | '-' :: text => -unsignedValue text
  | text => unsignedValue text

/-- A fraction does not end in zeros, and there is no point without one. -/
def Trimmed (text : List Char) : Prop := '.' ∈ text → ∀ c ∈ text.getLast?, c ≠ '0' ∧ c ≠ '.'

variable {whole fraction digits : List Char} {d : Nat}

theorem ne_point {l : List Char} (h : '.' ∉ l) : ∀ c ∈ l, decide (c ≠ '.') = true :=
  fun _ hc => decide_eq_true (ne_of_mem_of_not_mem hc h)

/-- The digits around the point are those of the number, up to zeros at the end. -/
theorem trim_pointed (hWhole : '.' ∉ whole) (hFraction : '.' ∉ fraction) :
    unsignedValue (trim (whole ++ '.' :: fraction)) = Nat.ofDigitChars 10 (whole ++ fraction) 0 / 10 ^ fraction.length ∧
      Trimmed (trim (whole ++ '.' :: fraction)) := by
  have hFilter := filter_eq_self.mpr (ne_point hWhole)
  induction fraction using reverseRecOn with
  | nil =>
    have hTrim : trim (whole ++ ['.']) = whole := by
      rw [trim, rdropWhile_concat_neg _ _ _ (by decide), rdropWhile_concat_pos _ _ _ (by decide),
        rdropWhile_eq_self_iff]
      exact fun hNe hEq => hWhole (of_decide_eq_true hEq ▸ getLast_mem hNe)
    rw [hTrim, unsignedValue, hFilter, dropWhile_eq_nil_iff.mpr (ne_point hWhole), append_nil]
    exact ⟨rfl, fun h => absurd h hWhole⟩
  | append_singleton fraction c ih =>
    have hText : whole ++ '.' :: (fraction ++ [c]) = (whole ++ '.' :: fraction) ++ [c] := by simp
    by_cases hZero : c = '0'
    · have hTrim : trim (whole ++ '.' :: (fraction ++ [c])) = trim (whole ++ '.' :: fraction) := by
        rw [hText, trim, rdropWhile_concat_pos _ _ _ (by simpa using hZero), trim]
      obtain ⟨hValue, hTrimmed⟩ := ih fun h => hFraction (mem_append_left _ h)
      refine ⟨?_, hTrim ▸ hTrimmed⟩
      have hTen : Nat.ofDigitChars 10 (whole ++ (fraction ++ ['0'])) 0 =
          10 * Nat.ofDigitChars 10 (whole ++ fraction) 0 := by
        simp [Nat.ofDigitChars, mul_comm]
      rw [hTrim, hValue, hZero, hTen, length_append, length_singleton, pow_succ', Nat.cast_mul]
      exact (mul_div_mul_left _ _ (by decide)).symm
    · have hDot : c ≠ '.' := fun h => hFraction (by simp [h])
      have hTrim : trim (whole ++ '.' :: (fraction ++ [c])) = whole ++ '.' :: (fraction ++ [c]) := by
        rw [hText, trim, rdropWhile_concat_neg _ _ _ (by simpa using hZero),
          rdropWhile_concat_neg _ _ _ (by simpa using hDot)]
      rw [hTrim, unsignedValue, filter_append, dropWhile_append_of_pos (ne_point hWhole), hFilter,
        filter_cons_of_neg (by decide), filter_eq_self.mpr (ne_point hFraction)]
      refine ⟨rfl, fun _ last hLast => ?_⟩
      rw [hText, getLast?_concat] at hLast
      cases hLast
      exact ⟨hZero, hDot⟩

theorem insertPoint_value (hDigits : '.' ∉ digits) :
    unsignedValue (insertPoint digits d) = Nat.ofDigitChars 10 digits 0 / 10 ^ d ∧ Trimmed (insertPoint digits d) := by
  have hPadded : '.' ∉ digits.leftpad (d + 1) '0' := by simp [leftpad, hDigits]
  have hLength : (digits.leftpad (d + 1) '0').length = max (d + 1) digits.length := length_leftpad
  have hValue : Nat.ofDigitChars 10 (digits.leftpad (d + 1) '0') 0 = Nat.ofDigitChars 10 digits 0 := by
    simp [leftpad, Nat.ofDigitChars_append, Nat.ofDigitChars_replicate_zero]
  unfold insertPoint
  generalize digits.leftpad (d + 1) '0' = padded at *
  have hTrim := @trim_pointed (padded.take (padded.length - d)) (padded.drop (padded.length - d))
    (fun h => hPadded (mem_of_mem_take h)) fun h => hPadded (mem_of_mem_drop h)
  rwa [take_append_drop, hValue, length_drop, Nat.sub_sub_self (by omega)] at hTrim

/-- Only a minus at the start is a sign. -/
theorem unsigned_of_not_mem {text : List Char} (h : '-' ∉ text) :
    formatFixedPoint d text = insertPoint text d ∧ textValue text = unsignedValue text := by
  unfold formatFixedPoint textValue
  split
  · simp at h
  · exact ⟨rfl, rfl⟩

theorem not_mem_toDigits {c : Char} (hc : c.isDigit = false) (n : Nat) : c ∉ Nat.toDigits 10 n := by
  intro h
  rw [Nat.isDigit_of_mem_toDigits (by decide) (by decide) h] at hc
  cases hc

theorem formatFixedPoint_value (n : Int) (d : Nat) :
    textValue (formatFixedPoint d (toText n)) = n / 10 ^ d ∧ Trimmed (formatFixedPoint d (toText n)) := by
  cases n with
  | ofNat n =>
    have hMinus := @not_mem_toDigits '-' rfl n
    have hText : '-' ∉ insertPoint (Nat.toDigits 10 n) d := by
      intro hMem
      have hPointed := ( rdropWhile_prefix _ _).subset (( rdropWhile_prefix _ _).subset hMem)
      obtain hTake | hDrop := mem_append.mp hPointed
      · simpa [leftpad, hMinus] using mem_of_mem_take hTake
      · simpa [leftpad, hMinus] using mem_of_mem_drop ((mem_cons.mp hDrop).resolve_left (by decide))
    obtain ⟨hValue, hTrimmed⟩ := @insertPoint_value _ d (@not_mem_toDigits '.' rfl n)
    rw [toText, (unsigned_of_not_mem hMinus).1, (@unsigned_of_not_mem d _ hText).2, hValue,
      Nat.ofDigitChars_toDigits (by decide) (by decide)]
    exact ⟨rfl, hTrimmed⟩
  | negSucc n =>
    obtain ⟨hValue, hTrimmed⟩ := @insertPoint_value _ d (@not_mem_toDigits '.' rfl (n + 1))
    rw [toText, formatFixedPoint, textValue, hValue, Nat.ofDigitChars_toDigits (by decide) (by decide),
      Int.cast_negSucc, neg_div]
    refine ⟨rfl, fun hMem c hc => ?_⟩
    have hPoint : '.' ∈ insertPoint (Nat.toDigits 10 (n + 1)) d := by simpa using hMem
    rw [getLast?_cons_of_ne_nil (ne_nil_of_mem hPoint)] at hc
    exact hTrimmed hPoint c hc

/-- For every integer and every number of decimals. -/
theorem formatFixedPoint_exact (d : Nat) :
    (∀ n : Int, textValue (formatFixedPoint d (toText n)) = n / 10 ^ d ∧ Trimmed (formatFixedPoint d (toText n))) ∧
      ∀ n m : Int, formatFixedPoint d (toText n) = formatFixedPoint d (toText m) → n = m := by
  refine ⟨fun n => formatFixedPoint_value n d, fun n m h => ?_⟩
  have hValue := congrArg textValue h
  rw [(formatFixedPoint_value n d).1, (formatFixedPoint_value m d).1] at hValue
  exact Rat.intCast_inj.mp ((div_left_inj' (pow_ne_zero d (by decide))).mp hValue)

end SovereignSdk.UniversalWallet
