import SovereignSdk.ChainState

/-! The base fee update, computed on two limbs of the price, against the update of EIP-1559 in exact arithmetic. The
quotients of the limbs are rounded down one by one, which loses a unit when their remainders add up to the divisor. -/
namespace SovereignSdk
open Bounded ChainState Nat GasArray

/-- The update of EIP-1559 for a change `delta` of the price: at least one unit of change above the target, and a
price between 1 and the largest `u128`. -/
def updatedBaseFee (gasTarget gasUsed baseFee delta : Nat) : Nat :=
  if gasUsed = gasTarget then max baseFee 1
  else if gasTarget < gasUsed then min (baseFee + max delta 1) amountMax
  else max (baseFee - delta) 1

def exactDelta (divisor distance baseFee : Nat) : Nat := baseFee * distance / divisor

def limbDelta (divisor distance baseFee : Nat) : Nat :=
  baseFee / 2 ^ 64 * distance * 2 ^ 64 / divisor + baseFee % 2 ^ 64 * distance / divisor

def LimbsCarry (divisor distance baseFee : Nat) : Prop :=
  divisor ≤ baseFee / 2 ^ 64 * distance * 2 ^ 64 % divisor + baseFee % 2 ^ 64 * distance % divisor

instance (divisor distance baseFee : Nat) : Decidable (LimbsCarry divisor distance baseFee) :=
  inferInstanceAs (Decidable (_ ≤ _))

section limbs
variable {divisor distance baseFee gasTarget gasUsed : Nat}

theorem shifted_div (h : 0 < divisor) (n : Nat) :
    n * 2 ^ 64 / divisor = n / divisor * 2 ^ 64 + n % divisor * 2 ^ 64 / divisor := by
  calc n * 2 ^ 64 / divisor
      = (n % divisor * 2 ^ 64 + divisor * (n / divisor * 2 ^ 64)) / divisor := by
        rw [← mul_assoc, ← add_mul, mod_add_div]
    _ = n / divisor * 2 ^ 64 + n % divisor * 2 ^ 64 / divisor := by
        rw [add_mul_div_left _ _ h, add_comm]

theorem computeDeltaLimbs_eq {denominator} (h : 0 < gasTarget * denominator) :
    computeDeltaLimbs distance gasTarget baseFee denominator =
      min (limbDelta (gasTarget * denominator) distance baseFee) amountMax := by
  unfold computeDeltaLimbs limbDelta
  rw [shifted_div h]
  dsimp only
  generalize baseFee / 2 ^ 64 * distance % (gasTarget * denominator) * 2 ^ 64 / (gasTarget * denominator) = hiRest
  generalize baseFee % 2 ^ 64 * distance / (gasTarget * denominator) = lowRes
  unfold saturatingAdd u64Max amountMax
  split <;> omega

theorem exactDelta_eq (h : 0 < divisor) (distance baseFee : Nat) : exactDelta divisor distance baseFee =
    limbDelta divisor distance baseFee + if LimbsCarry divisor distance baseFee then 1 else 0 := by
  have hSum := Nat.add_div (a := baseFee / 2 ^ 64 * distance * 2 ^ 64) (b := baseFee % 2 ^ 64 * distance) h
  rw [Nat.mul_right_comm, ← Nat.add_mul, Nat.div_add_mod'] at hSum
  rw [exactDelta, hSum, mul_right_comm]
  rfl

/-- Limbs that carry leave a change below the price: a distance as large as the divisor leaves no remainders. -/
theorem exactDelta_lt (h : 0 < divisor) (hDistance : distance ≤ divisor)
    (hCarry : LimbsCarry divisor distance baseFee) : exactDelta divisor distance baseFee < baseFee := by
  refine Nat.div_lt_of_lt_mul ?_
  rw [Nat.mul_comm divisor]
  refine lt_of_le_of_ne (mul_le_mul_left _ hDistance) fun hEqual => ?_
  unfold LimbsCarry at hCarry
  rcases Nat.eq_zero_or_pos baseFee with rfl | hFee
  · simp at hCarry
    omega
  · rw [Nat.eq_of_mul_eq_mul_left hFee hEqual, Nat.mul_right_comm, Nat.mul_mod_left, Nat.mul_mod_left] at hCarry
    omega

theorem limbDelta_mono (divisor baseFee : Nat) {distance'} (h : distance ≤ distance') :
    limbDelta divisor distance baseFee ≤ limbDelta divisor distance' baseFee :=
  Nat.add_le_add (Nat.div_le_div_right (Nat.mul_le_mul_right _ (Nat.mul_le_mul_left _ h)))
    (Nat.div_le_div_right (Nat.mul_le_mul_left _ h))

/-- A unit lost to the limbs shows unless the price rises by one unit anyway or reaches the largest `u128`. -/
theorem updatedBaseFee_limbDelta_iff (h : 0 < divisor) (hSame : gasUsed = gasTarget → distance = 0)
    (hBelow : gasUsed < gasTarget → distance ≤ divisor) :
    updatedBaseFee gasTarget gasUsed baseFee (limbDelta divisor distance baseFee) =
        updatedBaseFee gasTarget gasUsed baseFee (exactDelta divisor distance baseFee) ↔
      (LimbsCarry divisor distance baseFee → gasTarget < gasUsed ∧
        (exactDelta divisor distance baseFee ≤ 1 ∨ amountMax < baseFee + exactDelta divisor distance baseFee)) := by
  have hDelta := exactDelta_eq h distance baseFee
  by_cases hCarry : LimbsCarry divisor distance baseFee
  · have hLt := fun hUsed => exactDelta_lt h (hBelow hUsed) hCarry
    rw [if_pos hCarry] at hDelta
    rw [hDelta] at hLt ⊢
    rcases lt_trichotomy gasUsed gasTarget with hUsed | hUsed | hUsed
    · simp only [updatedBaseFee, hCarry, true_imp_iff, hUsed.ne, hUsed.not_gt, if_false, false_and, iff_false]
      omega
    · simp [LimbsCarry, hSame hUsed] at hCarry
      omega
    · simp only [updatedBaseFee, hCarry, true_imp_iff, hUsed.ne', hUsed, if_true, if_false, true_and]
      generalize limbDelta divisor distance baseFee = limbs
      omega
  · simp [hDelta, hCarry]

end limbs

section update
variable {S : Spec} {gasLimit gasUsed p : Nat}

def ChainState.gasTarget (S : Spec) (gasLimit : Nat) : Nat := gasLimit / S.elasticityMultiplier

def gasUsedDelta (S : Spec) (gasLimit gasUsed : Nat) : Nat :=
  max (gasTarget S gasLimit) gasUsed - min (gasTarget S gasLimit) gasUsed

def feeDivisor (S : Spec) (gasLimit : Nat) : Nat := gasTarget S gasLimit * S.baseFeeMaxChangeDenominator

/-- The gas limits that pass the assertion of the update, with a target above zero. The denominator is a
`NonZeroRatio`. -/
structure ValidGasLimit (S : Spec) (gasLimit : Nat) : Prop where
  target_pos : 0 < gasTarget S gasLimit
  denominator_pos : 0 < S.baseFeeMaxChangeDenominator
  fits : S.baseFeeMaxChangeDenominator * gasTarget S gasLimit ≤ u64Max

theorem ValidGasLimit.divisor_pos (h : ValidGasLimit S gasLimit) : 0 < feeDivisor S gasLimit :=
  Nat.mul_pos h.target_pos h.denominator_pos

/-- The update of the code is that of EIP-1559 for the change computed on the limbs. -/
theorem computeBaseFeePerGasUnidimensional_eq (h : ValidGasLimit S gasLimit) (hFee : p ≤ amountMax) :
    computeBaseFeePerGasUnidimensional S gasLimit gasUsed p = updatedBaseFee (gasTarget S gasLimit) gasUsed p
      (limbDelta (feeDivisor S gasLimit) (gasUsedDelta S gasLimit gasUsed) p) := by
  have hDivisor : 0 < gasLimit / S.elasticityMultiplier * S.baseFeeMaxChangeDenominator := h.divisor_pos
  unfold computeBaseFeePerGasUnidimensional updatedBaseFee
  dsimp only
  rw [computeDeltaLimbs_eq hDivisor]
  unfold feeDivisor gasUsedDelta gasTarget saturatingAdd
  generalize limbDelta _ _ _ = delta
  split_ifs <;> omega

/-- The update is that of EIP-1559 in exact arithmetic, unless the limbs carry and the lost unit shows. -/
theorem base_fee_is_exact_iff (S : Spec) (gasLimit gasUsed p : Nat) (h : ValidGasLimit S gasLimit)
    (hFee : p ≤ amountMax) :
    computeBaseFeePerGasUnidimensional S gasLimit gasUsed p = updatedBaseFee (gasTarget S gasLimit) gasUsed p
        (exactDelta (feeDivisor S gasLimit) (gasUsedDelta S gasLimit gasUsed) p) ↔
      (LimbsCarry (feeDivisor S gasLimit) (gasUsedDelta S gasLimit gasUsed) p → gasTarget S gasLimit < gasUsed ∧
        (exactDelta (feeDivisor S gasLimit) (gasUsedDelta S gasLimit gasUsed) p ≤ 1 ∨
          amountMax < p + exactDelta (feeDivisor S gasLimit) (gasUsedDelta S gasLimit gasUsed) p)) := by
  have hTarget : gasTarget S gasLimit ≤ feeDivisor S gasLimit := Nat.le_mul_of_pos_right _ h.denominator_pos
  rw [computeBaseFeePerGasUnidimensional_eq h hFee]
  refine updatedBaseFee_limbDelta_iff h.divisor_pos ?_ ?_ <;> unfold gasUsedDelta <;> omega

/-- A price above 64 bits whose limbs leave the remainders 16 and 8 of the divisor 24. -/
theorem base_fee_loses_a_unit :
    ValidGasLimit testSpec 6 ∧ 2 ^ 64 + 8 ≤ amountMax ∧ computeBaseFeePerGasUnidimensional testSpec 6 4 (2 ^ 64 + 8) ≠
        updatedBaseFee 3 4 (2 ^ 64 + 8) (exactDelta 24 1 (2 ^ 64 + 8)) :=
  ⟨⟨by decide, by decide, by decide⟩, by decide, by decide⟩

/-- No product overflows, and the price moves by the exact amount. -/
theorem base_fee_is_exact_for_small_price :
    computeBaseFeePerGasUnidimensional testSpec 1000 600 80 = updatedBaseFee 500 600 80 (exactDelta 4000 100 80) :=
  (base_fee_is_exact_iff testSpec 1000 600 80 ⟨by decide, by decide, by decide⟩ (by decide)).mpr
    fun hCarry => absurd hCarry (by decide)

theorem exactDelta_le (h : ValidGasLimit S gasLimit)
    (hRest : gasLimit % S.elasticityMultiplier ≤ gasTarget S gasLimit) (hUsed : gasUsed ≤ gasLimit) (p : Nat) :
    exactDelta (feeDivisor S gasLimit) (gasUsedDelta S gasLimit gasUsed) p ≤
      p * S.elasticityMultiplier / S.baseFeeMaxChangeDenominator := by
  have hDistance : gasUsedDelta S gasLimit gasUsed ≤ gasTarget S gasLimit * S.elasticityMultiplier := by
    have hTarget := h.target_pos
    have hElasticity : 0 < S.elasticityMultiplier := pos_of_ne_zero fun hZero => by simp [gasTarget, hZero] at hTarget
    have hSplit := div_add_mod' gasLimit S.elasticityMultiplier
    have hOne := Nat.le_mul_of_pos_right (gasTarget S gasLimit) hElasticity
    unfold gasUsedDelta gasTarget at *
    omega
  calc p * gasUsedDelta S gasLimit gasUsed / feeDivisor S gasLimit
      ≤ p * (gasTarget S gasLimit * S.elasticityMultiplier) / feeDivisor S gasLimit :=
        Nat.div_le_div_right (Nat.mul_le_mul_left _ hDistance)
    _ = p * S.elasticityMultiplier / S.baseFeeMaxChangeDenominator := by
        rw [Nat.mul_left_comm, feeDivisor, Nat.mul_div_mul_left _ _ h.target_pos]

structure FeeStep (S : Spec) (gasLimit gasUsed p p' : Nat) : Prop where
  pos : 1 ≤ p'
  rises : gasTarget S gasLimit < gasUsed → p < amountMax → p < p'
  falls : gasUsed < gasTarget S gasLimit → p' ≤ p
  bounded : gasLimit % S.elasticityMultiplier ≤ gasTarget S gasLimit →
    (p' - p) + (p - p') ≤ max 1 (p * S.elasticityMultiplier / S.baseFeeMaxChangeDenominator)

theorem feeStep (h : ValidGasLimit S gasLimit) (hPos : 1 ≤ p) (hFee : p ≤ amountMax) (hUsed : gasUsed ≤ gasLimit) :
    FeeStep S gasLimit gasUsed p (computeBaseFeePerGasUnidimensional S gasLimit gasUsed p) := by
  rw [computeBaseFeePerGasUnidimensional_eq h hFee]
  have hLimbs := exactDelta_eq h.divisor_pos (gasUsedDelta S gasLimit gasUsed) p
  have hBound := fun hRest => exactDelta_le h hRest hUsed p
  generalize limbDelta _ _ _ = limbs at *
  unfold updatedBaseFee
  constructor <;> split_ifs <;> omega

theorem update_mono {more} (h : ValidGasLimit S gasLimit) (hPos : 1 ≤ p) (hFee : p ≤ amountMax)
    (hMore : gasUsed ≤ more) : computeBaseFeePerGasUnidimensional S gasLimit gasUsed p ≤
      computeBaseFeePerGasUnidimensional S gasLimit more p := by
  rw [computeBaseFeePerGasUnidimensional_eq h hFee, computeBaseFeePerGasUnidimensional_eq h hFee]
  -- the distance grows above the target and shrinks below it
  have hUp : gasTarget S gasLimit < gasUsed → gasUsedDelta S gasLimit gasUsed ≤ gasUsedDelta S gasLimit more := by
    unfold gasUsedDelta
    omega
  have hDown : more < gasTarget S gasLimit → gasUsedDelta S gasLimit more ≤ gasUsedDelta S gasLimit gasUsed := by
    unfold gasUsedDelta
    omega
  have hUp := fun hUsed => limbDelta_mono (feeDivisor S gasLimit) p (hUp hUsed)
  have hDown := fun hUsed => limbDelta_mono (feeDivisor S gasLimit) p (hDown hUsed)
  unfold updatedBaseFee
  split_ifs <;> omega

theorem idle_update (price : S.Price) (i : Fin S.dimensions) (hPos : 1 ≤ price i) (hFee : price i ≤ amountMax) :
    1 ≤ computeBaseFeeUpdateForSlot ⟨zeroed, price⟩ i ∧
      computeBaseFeeUpdateForSlot ⟨zeroed, price⟩ i ≤ price i := by
  have hValid : ValidGasLimit S (S.initialGasLimit i) :=
    ⟨Nat.pos_of_mul_pos_left (S.gasTarget_pos i), Nat.pos_of_mul_pos_right (S.gasTarget_pos i), S.gasTarget_fits i⟩
  have hStep := feeStep hValid hPos hFee (zero_le _)
  exact ⟨hStep.pos, hStep.falls hValid.target_pos⟩

theorem idle_slots (price : S.Price) (i : Fin S.dimensions) (hPos : 1 ≤ price i) (hFee : price i ≤ amountMax)
    (slots : Nat) : 1 ≤ computeBaseFeePerGas ⟨zeroed, price⟩ slots i ∧
      computeBaseFeePerGas ⟨zeroed, price⟩ (slots + 1) i ≤
        computeBaseFeePerGas ⟨zeroed, price⟩ slots i := by
  obtain ⟨hNext, hLe⟩ := idle_update price i hPos hFee
  induction slots generalizing price with
  | zero => exact ⟨hPos, hLe⟩
  | succ slots ih =>
    obtain ⟨hNext', hLe'⟩ := idle_update _ i hNext (hLe.trans hFee)
    exact ih _ hNext (hLe.trans hFee) hNext' hLe'

/-- One update moves a price of at least 1 in the direction of the gas used, within the bound if what the gas
limit leaves over the targets is at most one of them, and more gas never gives a lower price; so idle slots never raise the price, nor bring it to 0. -/
theorem base_fee_moves_within_bounds (S : Spec) :
    (∀ gasLimit p, ValidGasLimit S gasLimit → 1 ≤ p → p ≤ amountMax → ∀ gasUsed ≤ gasLimit,
      FeeStep S gasLimit gasUsed p (computeBaseFeePerGasUnidimensional S gasLimit gasUsed p) ∧
        ∀ more ≤ gasLimit, gasUsed ≤ more → computeBaseFeePerGasUnidimensional S gasLimit gasUsed p ≤
          computeBaseFeePerGasUnidimensional S gasLimit more p) ∧
    (∀ (price : S.Price) (i : Fin S.dimensions), 1 ≤ price i → price i ≤ amountMax →
      Antitone (fun slots => computeBaseFeePerGas ⟨zeroed, price⟩ slots i) ∧
        ∀ slots, 1 ≤ computeBaseFeePerGas ⟨zeroed, price⟩ slots i) := by
  constructor
  · intro gasLimit p h hPos hFee gasUsed hUsed
    exact ⟨feeStep h hPos hFee hUsed, fun more _ hMore => update_mono h hPos hFee hMore⟩
  · intro price i hPos hFee
    have hIdle := idle_slots price i hPos hFee
    exact ⟨antitone_nat_of_succ_le fun slots => (hIdle slots).2, fun slots => (hIdle slots).1⟩

/-- The price after a slot that uses all of its gas. -/
theorem base_fee_moves_in_full_slot :
    FeeStep testSpec 1000 1000 80 (computeBaseFeePerGasUnidimensional testSpec 1000 1000 80) :=
  ((base_fee_moves_within_bounds testSpec).1 1000 80 ⟨by decide, by decide, by decide⟩ (by decide) (by decide) 1000
    (by decide)).1

def elasticSpec : Spec :=
  { testSpec with elasticityMultiplier := 4, gasTarget_pos := by decide, gasTarget_fits := by decide }

/-- With a gas limit of 7 the target is 1, and 3 are left over: 7 is more than four targets away from it. -/
theorem base_fee_moves_too_far :
    ValidGasLimit elasticSpec 7 ∧
      max 1 (100 * elasticSpec.elasticityMultiplier / elasticSpec.baseFeeMaxChangeDenominator) <
        computeBaseFeePerGasUnidimensional elasticSpec 7 7 100 - 100 :=
  ⟨⟨by decide, by decide, by decide⟩, by decide⟩

end update
end SovereignSdk
