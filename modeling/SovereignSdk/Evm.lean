import Mathlib.Data.Fin.VecNotation
import SovereignSdk.Gas.Meter

/-! The EVM module: the gas limit that a call hands to revm, and what the run is charged. -/
namespace SovereignSdk.Evm
open Outcome Bounded BasicGasMeter

variable {n : Nat}

/-- `gas_limit`: only the first dimension is read. -/
def gasLimit (txGasLimit : Option Nat) (meter : BasicGasMeter (n + 1)) : Nat :=
  let funds := meter.remainingFunds.getD 0
  let gas := meter.remainingGas 0
  let price := meter.gasPrice 0
  let gasLimit :=
    if gas = 0 then if funds = 0 then 0 else u64Max
    else
      let gasFromFunds := min (if price = 0 then u64Max else funds / price) u64Max
      min gas gasFromFunds
  min gasLimit (txGasLimit.getD u64Max)

/-- What revm reports of a run, and the other charges of the call. -/
structure Execution (n : Nat) where
  gasUsed : Nat
  gasSpentOnStorageAccess : Nat
  chargesBefore : List (GasUnit n)
  chargesAfter : List (GasUnit n)

/-- `rebate_gas`: the storage accesses are charged on their own. -/
def Execution.rebated (run : Execution n) : Nat := run.gasUsed - run.gasSpentOnStorageAccess

def chargeLinearGas (amount : GasUnit n) (parameter : Nat) (meter : BasicGasMeter n) :
    Except GasMeteringError (BasicGasMeter n) := do
  let totalAmount ← unwrap .overflow (GasArray.checkedScalarProduct u64Max amount parameter)
  meter.chargeGas totalAmount

/-- `execute_call` from where the gas limit is computed; the gas used is cast to `u32`. -/
def executeCall (g : GasUnit (n + 1)) (txGasLimit : Option Nat) (evm : Nat → Execution (n + 1))
    (meter : BasicGasMeter (n + 1)) : Except GasMeteringError (BasicGasMeter (n + 1)) := do
  let run := evm (gasLimit txGasLimit meter)
  let meter ← run.chargesBefore.foldlM chargeGas meter
  let meter ← chargeLinearGas g (run.rebated % 2 ^ 32) meter
  run.chargesAfter.foldlM chargeGas meter

def Affordable (g : GasUnit n) (meter : BasicGasMeter n) (limit : Nat) : Prop :=
  (∀ i, g i * limit ≤ meter.remainingGas i) ∧
    ∀ funds ∈ meter.remainingFunds, Gas.worth (fun i => g i * limit) meter.gasPrice ≤ funds

def Execution.cost (run : Execution n) (g : GasUnit n) (evmGas : Nat) : GasUnit n := fun i =>
  (run.chargesBefore.map (· i)).sum + g i * evmGas + (run.chargesAfter.map (· i)).sum

/-- Whatever the EVM does within its limit, the meter of a call that succeeds was charged for it. -/
def ChargedInFull (g : GasUnit (n + 1)) (txGasLimit : Option Nat) (meter : BasicGasMeter (n + 1)) : Prop :=
  ∀ run final, run.gasUsed ≤ gasLimit txGasLimit meter →
    executeCall g txGasLimit (fun _ => run) meter = .ok final →
      ∀ i, final.gasUsed i = meter.gasUsed i + run.cost g run.rebated i

variable {g : GasUnit (n + 1)} {txGasLimit : Option Nat} {meter final : BasicGasMeter (n + 1)}

theorem Affordable.mono {limit lower : Nat} (h : Affordable g meter limit) (hLe : lower ≤ limit) :
    Affordable g meter lower := by
  have hGas i : g i * lower ≤ g i * limit := Nat.mul_le_mul_left _ hLe
  refine ⟨fun i => (hGas i).trans (h.1 i), fun funds hFunds => ?_⟩
  exact (Gas.worth_mono _ hGas).trans (h.2 funds hFunds)

theorem affordable_zero (h : ∀ i, g i = 0) (limit : Nat) : Affordable g meter limit := by
  simp [Affordable, Gas.worth, h]

theorem executeCall_ok {evm} (h : executeCall g txGasLimit evm meter = .ok final) (i : Fin (n + 1)) :
    let run := evm (gasLimit txGasLimit meter)
    final.gasUsed i = meter.gasUsed i + run.cost g (run.rebated % 2 ^ 32) i := by
  simp only [executeCall, chargeLinearGas, bind_eq_ok, unwrap_eq_ok] at h
  obtain ⟨before, hBefore, charged, ⟨total, hTotal, hCharge⟩, hAfter⟩ := h
  unfold GasArray.checkedScalarProduct at hTotal
  split at hTotal
  · cases hTotal
    rw [gasUsed_chargeAll hAfter, gasUsed_chargeGas hCharge]
    dsimp only [Execution.cost]
    rw [gasUsed_chargeAll hBefore]
    omega
  · cases hTotal

theorem chargeGas_zeroed : meter.chargeGas GasArray.zeroed = .ok meter := by
  have hFunds : meter.computeRemainingFunds GasArray.zeroed = .ok meter.remainingFunds := by
    unfold computeRemainingFunds
    cases meter.remainingFunds with
    | none => rfl
    | some funds =>
      have hValue : Gas.checkedValue GasArray.zeroed meter.gasPrice = some 0 := by
        simp [Gas.checkedValue_eq_some]
      simp [hValue, checkedSub]
  have hGas : GasArray.checkedSub meter.remainingGas GasArray.zeroed = some meter.remainingGas := by
    simp [GasArray.zeroed]
  have hValue := Gas.checkedValue_eq_some.mpr ⟨meter.value_le, rfl⟩
  unfold chargeGas
  rw [hFunds]
  dsimp only
  split
  · rename_i hNone
    cases hGas.symm.trans hNone
  · rename_i hRemaining
    cases hGas.symm.trans hRemaining
    split
    · rename_i hNone
      cases hValue.symm.trans hNone
    · rfl

/-- A run of `2 ^ 32` gas is charged nothing. -/
theorem executeCall_wraps : executeCall g txGasLimit (fun _ => ⟨2 ^ 32, 0, [], []⟩) meter = .ok meter := by
  refine bind_eq_ok.mpr ⟨meter, rfl, bind_eq_ok.mpr ⟨meter, ?_, rfl⟩⟩
  have hNone : GasArray.checkedScalarProduct u64Max g (2 ^ 32 % 2 ^ 32) = some GasArray.zeroed := by
    rw [Nat.mod_self]
    exact if_pos fun _ => Nat.zero_le _
  exact bind_eq_ok.mpr ⟨GasArray.zeroed, unwrap_eq_ok.mpr hNone, chargeGas_zeroed⟩

theorem chargedInFull_iff :
    ChargedInFull g txGasLimit meter ↔ (∀ i, g i = 0) ∨ gasLimit txGasLimit meter < 2 ^ 32 := by
  constructor
  · intro h
    refine or_iff_not_imp_right.mpr fun hLimit i => ?_
    have hCharged := h _ _ (not_lt.mp hLimit) executeCall_wraps i
    simpa [Execution.cost, Execution.rebated] using hCharged
  · intro hCase run final hUsed hCall i
    rw [executeCall_ok hCall]
    obtain hZero | hLimit := hCase
    · simp only [Execution.cost, hZero, Nat.zero_mul]
    · have hRebated : run.rebated < 2 ^ 32 := (Nat.sub_le _ _).trans_lt (hUsed.trans_lt hLimit)
      rw [Nat.mod_eq_of_lt hRebated]

/-- A call can pay for its gas, and pays for all of it, exactly if its gas costs nothing, if nothing is left to
pay with, or if a limit below `2 ^ 32` that it can pay for applies to it. -/
theorem gas_paid_for_iff (g : GasUnit (n + 1)) (txGasLimit : Option Nat) (meter : BasicGasMeter (n + 1)) :
    Affordable g meter (gasLimit txGasLimit meter) ∧ ChargedInFull g txGasLimit meter ↔
      (∀ i, g i = 0) ∨ (meter.remainingGas 0 = 0 ∧ meter.remainingFunds.getD 0 = 0) ∨
        ∃ limit < 2 ^ 32, Affordable g meter limit ∧
          (txGasLimit = some limit ∨ meter.remainingGas 0 ≠ 0 ∧ (limit = meter.remainingGas 0 ∨
            meter.gasPrice 0 ≠ 0 ∧ limit = meter.remainingFunds.getD 0 / meter.gasPrice 0)) := by
  rw [chargedInFull_iff]
  constructor
  · rintro ⟨hAffordable, hZero | hLimit⟩
    · exact .inl hZero
    · refine .inr (or_iff_not_imp_left.mpr fun hNot => ⟨_, hLimit, hAffordable, ?_⟩)
      revert hLimit
      cases txGasLimit <;> simp only [gasLimit, u64Max] <;> grind
  · rintro (hZero | ⟨hGas, hFunds⟩ | ⟨limit, hLimit, hAffordable, hTaken⟩)
    · exact ⟨affordable_zero hZero _, .inl hZero⟩
    · have hLimit : gasLimit txGasLimit meter = 0 := by simp [gasLimit, hGas, hFunds]
      simp [hLimit, Affordable, Gas.worth]
    · have hLe : gasLimit txGasLimit meter ≤ limit := by
        unfold gasLimit
        grind
      exact ⟨hAffordable.mono hLe, .inr (hLe.trans_lt hLimit)⟩

/-- The first dimension is used up, and the limit of the configuration is handed to revm all the same; and of a run
of `2 ^ 32` gas nothing is charged. -/
theorem unpaid_gas :
    gasLimit (some 30000000) (.newWithFundsAndGas 1000 ![0, 100] ![1, 1]) = 30000000 ∧
      2 ^ 32 ≤ gasLimit (some (10 ^ 10)) (.newWithFundsAndGas (10 ^ 10) ![10 ^ 10, 10 ^ 10] ![1, 1]) ∧
      executeCall ![1, 1] (some (10 ^ 10)) (fun _ => ⟨2 ^ 32, 0, [], []⟩)
          (.newWithFundsAndGas (10 ^ 10) ![10 ^ 10, 10 ^ 10] ![1, 1]) =
        .ok (.newWithFundsAndGas (10 ^ 10) ![10 ^ 10, 10 ^ 10] ![1, 1]) :=
  ⟨rfl, by decide, executeCall_wraps⟩

end SovereignSdk.Evm
