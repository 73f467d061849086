import SovereignSdk.SequencerRegistry.Calls

/-! Transactions and proofs as the blueprint sees them, and the split of a
locked fee after execution.

The bytes of a transaction are interpreted by the runtime: its authenticator,
its authorizer and the called modules. What these do with one transaction is
recorded here as a script of gas charges, check results and module calls, so
that a statement about every script covers every runtime. -/
namespace SovereignSdk
open Bounded Nat

structure TxDetails (S : Spec) where
  maxPriorityFeeBips : Nat
  maxFee : Amount
  gasLimit : Option S.Gas

/-- A check that charges gas while it runs; a refused charge also fails it. -/
structure MeteredCheck (S : Spec) where
  charges : List S.Gas
  passes : Bool

abbrev OtherModule := { m : ModuleId // m ≠ .bank ∧ m ≠ .sequencerRegistry }

inductive Action (S : Spec) where
  | chargeGas (amount : S.Gas)
  | bank (message : Bank.CallMessage S)
  | sequencerRegistry (message : SequencerRegistry.CallMessage S)
  | terminateSetupMode
  /-- Another module pays a user, collects from a user, or burns its own tokens. -/
  | payOut (payer : OtherModule) (receiver : S.Address) (amount : Amount)
  | collect (payer : S.Address) (receiver : OtherModule) (amount : Amount)
  | burn (owner : OtherModule) (token : TokenId) (amount : Amount)
  /-- Any other error of the called module. -/
  | fail

inductive AuthenticationResult where
  | authenticated
  | fatalError
  | outOfGas
deriving DecidableEq, Repr

/-- What the runtime does with a transaction, phase by phase. The payer is the
sender, or the paymaster that reserves the gas in its place. -/
structure TxBehaviour (S : Spec) where
  authCharges : List S.Gas
  authResult : AuthenticationResult
  details : TxDetails S
  sender : S.Address
  payer : S.Address
  resolveContext : MeteredCheck S
  checkUniqueness : MeteredCheck S
  markTxAttempted : MeteredCheck S
  /-- Charges of the state accesses made while reserving gas. -/
  reserveCharges : List S.Gas
  isUnauthorizedSystemTx : Bool
  actions : List (Action S)

structure FullyBakedTx (S : Spec) where
  len : Nat
  behaviour : TxBehaviour S

/-- A transaction that charges nothing, passes every check and does nothing. -/
def FullyBakedTx.idle {S : Spec} (sender : S.Address) : FullyBakedTx S where
  len := 1
  behaviour :=
    { authCharges := []
      authResult := .authenticated
      details := ⟨0, 0, none⟩
      sender
      payer := sender
      resolveContext := ⟨[], true⟩
      checkUniqueness := ⟨[], true⟩
      markTxAttempted := ⟨[], true⟩
      reserveCharges := []
      isUnauthorizedSystemTx := false
      actions := [] }

inductive ProofResult where
  | valid
  | invalidNotRevertable
  | invalidRevertable
deriving DecidableEq, Repr

structure ProofBehaviour (S : Spec) where
  deserialize : MeteredCheck S
  details : TxDetails S
  reserveCharges : List S.Gas
  actions : List (Action S)
  result : ProofResult

structure RawProof (S : Spec) where
  len : Nat
  behaviour : ProofBehaviour S

def RawProof.idle (S : Spec) : RawProof S where
  len := 1
  behaviour :=
    { deserialize := ⟨[], true⟩
      details := ⟨0, 0, none⟩
      reserveCharges := []
      actions := []
      result := .valid }

/-- `PriorityFeeBips::apply`: a fraction of a `u128` computed on its two 64-bit
halves, absent on overflow. -/
def applyPriorityFeeBips (bips quantity : Nat) : Option Nat :=
  let hi := quantity / 2 ^ 64
  let lo := quantity % 2 ^ 64
  let hiMul := hi * bips
  let hiRes := hiMul / 10000
  if u64Max < hiRes then none
  else do
    let partialFee ← checkedAdd amountMax (hiRes * 2 ^ 64) (lo * bips / 10000)
    checkedAdd amountMax partialFee (hiMul % 10000 * 2 ^ 64 / 10000)

/-- `priority_fee_limbs` with the overflow checks of the arithmetic on `u128`: the outer option is absent if
one of its products or shifts does not fit. -/
def priorityFeeLimbs (bips quantity : Nat) : Option (Option Nat) := do
  let hi := quantity / 2 ^ 64
  let lo := quantity % 2 ^ 64
  let hiMul ← checkedMul amountMax hi bips
  let hiRes := hiMul / 10000
  if u64Max < hiRes then return none
  let hiShifted ← checkedMul amountMax hiRes (2 ^ 64)
  let loMul ← checkedMul amountMax lo bips
  let remShifted ← checkedMul amountMax (hiMul % 10000) (2 ^ 64)
  return do
    let partialFee ← checkedAdd amountMax hiShifted (loMul / 10000)
    checkedAdd amountMax partialFee (remShifted / 10000)

/-- The percentage of a reward that is not paid out. -/
structure BurnRate where
  percent : Nat
  le : percent ≤ 100

def BurnRate.apply (rate : BurnRate) (amount : Nat) : Option Nat :=
  applyPriorityFeeBips ((100 - rate.percent) * 100) amount

variable {bips quantity : Nat} {S : Spec}

/-- Of the two fractions that are rounded down one may be lost. -/
theorem halves_fraction (base hi lo : Nat) :
    let fee := hi * bips / 10000 * base + lo * bips / 10000 + hi * bips % 10000 * base / 10000
    fee ≤ (base * hi + lo) * bips / 10000 ∧ (base * hi + lo) * bips / 10000 ≤ fee + 1 := by
  have hSplit : (base * hi + lo) * bips =
      10000 * (hi * bips / 10000 * base) + hi * bips % 10000 * base + lo * bips := by
    rw [← mul_assoc, ← add_mul, div_add_mod, add_mul, mul_assoc, mul_comm base]
  omega

/-- The base is a variable here: unification would unfold a power. -/
theorem halves_checkedAdd (base hi lo : Nat) :
    ((checkedAdd amountMax (hi * bips / 10000 * base) (lo * bips / 10000)).bind fun partialFee =>
        checkedAdd amountMax partialFee (hi * bips % 10000 * base / 10000)) =
      checkedAdd amountMax (hi * bips / 10000 * base + lo * bips / 10000) (hi * bips % 10000 * base / 10000) := by
  unfold checkedAdd
  split
  · rfl
  · rw [if_neg (by omega)]
    rfl

theorem applyPriorityFeeBips_eq (bips quantity : Nat) :
    ∃ fee, fee ≤ quantity * bips / 10000 ∧ quantity * bips / 10000 ≤ fee + 1 ∧
      applyPriorityFeeBips bips quantity = if fee ≤ amountMax then some fee else none := by
  obtain ⟨hLe, hGe⟩ := @halves_fraction bips (2 ^ 64) (quantity / 2 ^ 64) (quantity % 2 ^ 64)
  rw [div_add_mod quantity] at hLe hGe
  refine ⟨_, hLe, hGe, ?_⟩
  by_cases hOver : u64Max < quantity / 2 ^ 64 * bips / 10000
  · refine (if_pos hOver).trans (if_neg ?_).symm
    unfold u64Max amountMax at *
    omega
  · exact (if_neg hOver).trans (halves_checkedAdd (2 ^ 64) _ _)

theorem applyPriorityFeeBips_of_le (hBips : bips ≤ 10000) (hQuantity : quantity ≤ amountMax) :
    ∃ fee, applyPriorityFeeBips bips quantity = some fee ∧ fee ≤ quantity := by
  obtain ⟨fee, hLe, -, hFee⟩ := applyPriorityFeeBips_eq bips quantity
  have hFits : fee ≤ quantity :=
    hLe.trans (Nat.div_le_of_le_mul ((mul_le_mul_left _ hBips).trans (mul_comm _ _).le))
  exact ⟨fee, by rw [hFee, if_pos (hFits.trans hQuantity)], hFits⟩

theorem priorityFeeLimbs_eq (hBips : bips ≤ u64Max) (hQuantity : quantity ≤ amountMax) :
    priorityFeeLimbs bips quantity = some (applyPriorityFeeBips bips quantity) := by
  have hMul : ∀ {n}, n ≤ u64Max → checkedMul amountMax n bips = some (n * bips) := fun hn =>
    checkedMul_eq_some.mpr ⟨(Nat.mul_le_mul hn hBips).trans (by decide), rfl⟩
  have hShift : ∀ {n}, n ≤ u64Max → checkedMul amountMax n (2 ^ 64) = some (n * 2 ^ 64) := fun hn =>
    checkedMul_eq_some.mpr ⟨(mul_le_mul_right (2 ^ 64) hn).trans (by decide), rfl⟩
  have hHi := hMul ((Nat.div_le_div_right hQuantity).trans (show amountMax / 2 ^ 64 ≤ u64Max by decide))
  have hLo := hMul (show quantity % 2 ^ 64 ≤ u64Max from le_of_lt_succ (mod_lt quantity (by decide)))
  have hRem := hShift ((mod_lt (quantity / 2 ^ 64 * bips) (show 10000 > 0 by decide)).le.trans (by decide))
  simp only [priorityFeeLimbs, applyPriorityFeeBips, hHi, Option.bind_eq_bind, Option.bind_some]
  by_cases hOver : u64Max < quantity / 2 ^ 64 * bips / 10000
  · rw [if_pos hOver, if_pos hOver]
    rfl
  · rw [if_neg hOver, if_neg hOver, hShift (Nat.not_lt.mp hOver), hLo, hRem]
    rfl

theorem BurnRate.apply_of_le (rate : BurnRate) {amount} (h : amount ≤ amountMax) :
    ∃ paid, rate.apply amount = some paid ∧ paid ≤ amount :=
  applyPriorityFeeBips_of_le (mul_le_mul_right 100 (sub_le 100 rate.percent)) h

/-- No product or shift overflows, the fee is at most one less than the exact fraction, and an error
means that the fraction does not fit. -/
theorem priorityFee_within_one (bips : Fin (u64Max + 1)) (quantity : Fin (amountMax + 1)) :
    priorityFeeLimbs bips quantity = some (applyPriorityFeeBips bips quantity) ∧
      (quantity.1 * bips.1 / 10000 ≤ amountMax → ∃ fee, applyPriorityFeeBips bips quantity = some fee ∧
        quantity.1 * bips.1 / 10000 - 1 ≤ fee ∧ fee ≤ quantity.1 * bips.1 / 10000) ∧
      (amountMax + 1 < quantity.1 * bips.1 / 10000 → applyPriorityFeeBips bips quantity = none) ∧
      (bips.1 ≤ 10000 → ∃ fee, applyPriorityFeeBips bips quantity = some fee ∧ fee ≤ quantity) ∧
      ∀ rate : BurnRate, ∃ paid, rate.apply quantity = some paid ∧ paid ≤ quantity := by
  have hQuantity := le_of_lt_succ quantity.2
  obtain ⟨fee, hLe, hGe, hFee⟩ := applyPriorityFeeBips_eq bips quantity
  refine ⟨priorityFeeLimbs_eq (le_of_lt_succ bips.2) hQuantity, fun hFits => ?_, fun hOver => ?_,
    fun hBips => applyPriorityFeeBips_of_le hBips hQuantity, fun rate => rate.apply_of_le hQuantity⟩
  · exact ⟨fee, by rw [hFee, if_pos (hLe.trans hFits)], sub_le_of_le_add hGe, hLe⟩
  · rw [hFee, if_neg (by omega)]

structure TransactionConsumption (S : Spec) where
  remainingFunds : Nat
  baseFee : S.Gas
  baseFeeValue : Nat
  priorityFee : Nat

/-- `transaction_consumption` of a working set: the gas used is paid first, the
tip comes out of what is left. -/
def transactionConsumption {S : Spec} (meter : BasicGasMeter S.dimensions) (details : TxDetails S) :
    TransactionConsumption S :=
  let maxRemainingFunds := details.maxFee - meter.gasValue
  let maxEarned :=
    (applyPriorityFeeBips details.maxPriorityFeeBips meter.gasValue).getD maxRemainingFunds
  let priorityFee := min maxEarned maxRemainingFunds
  { remainingFunds := details.maxFee - meter.gasValue - priorityFee
    baseFee := meter.gasUsed
    baseFeeValue := meter.gasValue
    priorityFee }

def TxDetails.gasMeter {S : Spec} (details : TxDetails S) (price : S.Price) (slotGas : S.Gas) :
    BasicGasMeter S.dimensions :=
  BasicGasMeter.newWithFundsAndGas details.maxFee
    ((details.gasLimit.map (GasArray.calculateMin · slotGas)).getD slotGas) price

theorem transactionConsumption_sum {meter : BasicGasMeter S.dimensions} {details : TxDetails S}
    (h : meter.gasValue ≤ details.maxFee) :
    (transactionConsumption meter details).remainingFunds + (transactionConsumption meter details).baseFeeValue +
        (transactionConsumption meter details).priorityFee = details.maxFee := by
  simp only [transactionConsumption]
  omega

theorem TxDetails.gasMeter_initialGas_le (details : TxDetails S) (price : S.Price) (slotGas : S.Gas)
    (i : Fin S.dimensions) : (details.gasMeter price slotGas).initialGas i ≤ slotGas i := by
  unfold TxDetails.gasMeter
  cases details.gasLimit with
  | none => exact le_refl _
  | some limit => exact min_le_right _ _

end SovereignSdk
