import SovereignSdk.StfBlueprint.Payments

/-! What decides, before its execution starts, whether a transaction is rejected,
and the gas that a transaction uses in either case. -/
namespace SovereignSdk
open Bounded Outcome BasicGasMeter Accounts

variable {S : Spec}

/-- The meter after the checks made on a transaction, and whether the transaction
is attempted after them. -/
def checkTx (gasLimit : S.Gas) (accounts : Accounts S) (tx : TxBehaviour S)
    (preExec : BasicGasMeter S.dimensions) : BasicGasMeter S.dimensions × Bool :=
  let (preExec, passed) := runChecks preExec tx.checks
  if ¬ passed then (preExec, false)
  else
    match tryReserveGas accounts preExec tx.reserveCharges tx.details tx.payer with
    | (preExec, none) => (preExec, false)
    | (preExec, some _) =>
      match (tx.details.gasMeter preExec.gasPrice gasLimit).chargeGas preExec.gasUsed with
      | .error _ => (preExec, false)
      | .ok _ => (preExec, true)

/-- The meter of a transaction that is rejected after its checks were paid for. -/
def rejectedMeter (price : S.Price) (accounts : Accounts S) (slotGas : S.Gas) (bond : Nat)
    (tx : TxBehaviour S) : Option (BasicGasMeter S.dimensions) :=
  if ¬ sequencerAuthorized S price bond slotGas then none
  else
    match preExecMeter S price with
    | .error _ => none
    | .ok preExec =>
      let (preExec, paid) := preExec.chargeEach tx.authCharges
      if ¬ paid ∨ tx.authResult ≠ .authenticated then some preExec
      else
        match checkTx slotGas accounts tx preExec with
        | (preExec, false) => some preExec
        | (_, true) => none

def BasicGasMeter.SameTerms {n : Nat} (m m' : BasicGasMeter n) : Prop :=
  m'.initialGas = m.initialGas ∧ m'.gasPrice = m.gasPrice

variable {n : Nat} {accounts : Accounts S} {meter : BasicGasMeter S.dimensions} {w : WorkingSet S}
variable {gasLimit : S.Gas} {p : ProcessedTx S} {block : BlockContext S} {out : AuthAndProcessOutput S}

theorem BasicGasMeter.sameTerms_chargeEach (m : BasicGasMeter n) (amounts : List (GasUnit n)) :
    m.SameTerms (m.chargeEach amounts).1 :=
  ⟨m.chargeEach_initialGas amounts, m.chargeEach_gasPrice amounts⟩

theorem BasicGasMeter.SameTerms.trans {m₁ m₂ m₃ : BasicGasMeter n} (h : m₁.SameTerms m₂) (h' : m₂.SameTerms m₃) :
    m₁.SameTerms m₃ :=
  ⟨h'.1.trans h.1, h'.2.trans h.2⟩

theorem runChecks_sameTerms (checks : List (MeteredCheck S)) (meter : BasicGasMeter S.dimensions) :
    meter.SameTerms (runChecks meter checks).1 := by
  induction checks generalizing meter with
  | nil => exact ⟨rfl, rfl⟩
  | cons check rest ih =>
    have hHere := meter.sameTerms_chargeEach check.charges
    simp only [runChecks]
    split
    · exact hHere.trans (ih _)
    · exact hHere

theorem checkTx_sameTerms (gasLimit : S.Gas) (accounts : Accounts S) (tx : TxBehaviour S)
    (preExec : BasicGasMeter S.dimensions) : preExec.SameTerms (checkTx gasLimit accounts tx preExec).1 := by
  have hChecks := runChecks_sameTerms tx.checks preExec
  have hAll := hChecks.trans (sameTerms_chargeEach _ tx.reserveCharges)
  unfold checkTx
  dsimp only
  split
  · exact hChecks
  · simp only [tryReserveGas]
    split
    · rename_i hPair
      simp only [Prod.mk.injEq] at hPair
      rw [← hPair.1]
      exact hAll
    · rename_i hPair
      simp only [Prod.mk.injEq] at hPair
      rw [← hPair.1]
      split
      · exact hAll
      · exact hAll

variable {price : S.Price} {bond : Nat} {slotGas : S.Gas} {preExec : BasicGasMeter S.dimensions}
variable {tx : TxBehaviour S} {chain : ChainState S} {context : Context S} {state : TxState S}

theorem sequencerAuthorized_iff :
    sequencerAuthorized S price bond slotGas = true ↔
      Gas.worth S.maxTxCheckCosts price ≤ amountMax ∧ Gas.worth S.maxTxCheckCosts price ≤ bond ∧
        ∃ i, S.maxTxCheckCosts i < slotGas i := by
  unfold sequencerAuthorized
  split
  · rename_i hNone
    simp [Nat.not_le.mpr (Gas.checkedValue_eq_none.mp hNone)]
  · rename_i value hSome
    obtain ⟨hFits, rfl⟩ := Gas.checkedValue_eq_some.mp hSome
    simp [hFits, GasArray.dimIsLessOrEq]

theorem preExecMeter_ok (h : preExecMeter S price = .ok preExec) :
    preExec.initialGas = S.maxTxCheckCosts ∧ preExec.gasPrice = price := by
  unfold preExecMeter at h
  split at h
  · rename_i hCharge
    cases h
    obtain ⟨-, hInit, hPrice, -⟩ := chargeGas_ok hCharge
    exact ⟨hInit, hPrice⟩
  · cases h

theorem rejectedMeter_some (h : rejectedMeter price accounts slotGas bond tx = some meter) :
    sequencerAuthorized S price bond slotGas = true ∧ meter.initialGas = S.maxTxCheckCosts ∧
      meter.gasPrice = price := by
  unfold rejectedMeter at h
  split at h
  · cases h
  · rename_i hAuth
    refine ⟨not_not.mp hAuth, ?_⟩
    split at h
    · cases h
    · rename_i preExec hPre
      obtain ⟨hGas, hPrice⟩ := preExecMeter_ok hPre
      have hCharges := preExec.sameTerms_chargeEach tx.authCharges
      dsimp only at h
      split at h
      · cases h
        exact ⟨hCharges.1.trans hGas, hCharges.2.trans hPrice⟩
      · have hChecks := hCharges.trans (checkTx_sameTerms slotGas accounts tx _)
        split at h
        · rename_i hCheck
          cases h
          rw [hCheck] at hChecks
          exact ⟨hChecks.1.trans hGas, hChecks.2.trans hPrice⟩
        · cases h

theorem ActEffect.initialGas {w'} (h : ActEffect chain context w w') : w'.meter.initialGas = w.meter.initialGas := by
  cases h with
  | charge hMeter _ => exact (chargeGas_ok hMeter).2.1
  | bank hEq _ _ => rw [hEq]; rfl
  | registry hMeter _ _ | setup hMeter => rw [hMeter]

theorem applyTx_ok {r} (hw : w.meter.Funded tx.details.maxFee) (h : applyTx chain context tx w = .ok r) :
    (∀ i, r.consumption.baseFee i ≤ w.meter.initialGas i) ∧ r.state.accounts.gasBalance bankAccount =
        w.state.accounts.gasBalance bankAccount ∧
      r.consumption.remainingFunds + r.consumption.baseFeeValue + r.consumption.priorityFee =
        tx.details.maxFee := by
  unfold applyTx at h
  split at h
  · cases h
    exact ⟨w.meter.gasUsed_le, rfl, transactionConsumption_sum hw.gasValue_le⟩
  · simp only [bind_eq_ok, pure_eq_ok] at h
    obtain ⟨⟨final, successful⟩, hRun, rfl⟩ := h
    obtain ⟨hFunded, hBank⟩ := WorkingSet.run_accounted hw hRun
    have hInit : final.meter.initialGas = w.meter.initialGas :=
      WorkingSet.run_invariant (fun v => v.meter.initialGas = w.meter.initialGas)
        (fun _ _ hv hStep => hStep.initialGas.trans hv) rfl hRun
    refine ⟨fun i => ?_, ?_, transactionConsumption_sum hFunded.gasValue_le⟩
    · rw [← hInit]
      exact final.meter.gasUsed_le i
    · split
      · exact hBank
      · rfl

theorem transactionConsumption_unused (details : TxDetails S) (price : S.Price) (slotGas : S.Gas) :
    (transactionConsumption (details.gasMeter price slotGas) details).remainingFunds = details.maxFee := by
  have hZero : (details.gasMeter price slotGas).gasValue = 0 := by
    simp [TxDetails.gasMeter, newWithFundsAndGas, gasValue, gasUsed, Gas.worth]
  simp [transactionConsumption, hZero, applyPriorityFeeBips, checkedAdd]

theorem tryReserveGas_bank {accounts' charges details payer}
    (h : tryReserveGas accounts preExec charges details payer = (meter, some accounts')) :
    accounts'.gasBalance bankAccount = accounts.gasBalance bankAccount + details.maxFee := by
  simp only [tryReserveGas, Prod.mk.injEq] at h
  obtain ⟨-, h⟩ := h
  split at h
  · exact (reserveGas_some h).1.receiver (by simp)
  · cases h

theorem attemptTx_ok {before}
    (hBefore : state.accounts.gasBalance bankAccount = before + tx.details.maxFee)
    (h : attemptTx chain context gasLimit tx state preExec = .ok p) :
    let verdict : BasicGasMeter S.dimensions × Bool :=
      match (tx.details.gasMeter preExec.gasPrice gasLimit).chargeGas preExec.gasUsed with
      | .error _ => (preExec, false)
      | .ok _ => (preExec, true)
    p.preExec = verdict.1 ∧
      match verdict.2 with
      | false => p.result = none ∧ p.state.accounts.gasBalance bankAccount = before
      | true => ∃ r, p.result = some r ∧ (∀ i, r.consumption.baseFee i ≤ gasLimit i) ∧
          p.state.accounts.gasBalance bankAccount = before + r.consumption.priorityFee := by
  unfold attemptTx at h
  cases hCharge : (tx.details.gasMeter preExec.gasPrice gasLimit).chargeGas preExec.gasUsed with
  | error e =>
    simp only [hCharge, bind_eq_ok, pure_eq_ok] at h
    obtain ⟨accounts, hRefund, rfl⟩ := h
    have hBank := refundRemainingGas_bank hRefund
    rw [transactionConsumption_unused] at hBank
    simp only [TxState.withAccounts]
    exact ⟨trivial, trivial, by omega⟩
  | ok meter =>
    simp only [hCharge, bind_eq_ok, pure_eq_ok] at h
    obtain ⟨r, hApply, refunded, hRefund, rewarded, hReward, rfl⟩ := h
    obtain ⟨hGas, hKept, _⟩ :=
      applyTx_ok ((tx.details.gasMeter_funded preExec.gasPrice gasLimit).chargeGas hCharge) hApply
    have h₁ := refundRemainingGas_bank hRefund
    have h₂ := rewardProver_bank hReward
    have hInit := (chargeGas_ok hCharge).2.1
    refine ⟨rfl, _, rfl, fun i => ?_, ?_⟩
    · refine (hGas i).trans ?_
      rw [hInit]
      exact tx.details.gasMeter_initialGas_le _ _ i
    · simp only [TxState.withAccounts] at hKept ⊢
      omega

theorem processTx_ok (h : processTx chain context gasLimit tx state preExec = .ok p) :
    p.preExec = (checkTx gasLimit state.accounts tx preExec).1 ∧
      match (checkTx gasLimit state.accounts tx preExec).2 with
      | false => p.result = none ∧ p.state.accounts.gasBalance bankAccount =
          state.accounts.gasBalance bankAccount
      | true => ∃ r, p.result = some r ∧ (∀ i, r.consumption.baseFee i ≤ gasLimit i) ∧
          p.state.accounts.gasBalance bankAccount =
            state.accounts.gasBalance bankAccount + r.consumption.priorityFee := by
  unfold processTx at h
  unfold checkTx
  dsimp only at h ⊢
  by_cases hPassed : (runChecks preExec tx.checks).2 = true
  · rw [if_neg (not_not.mpr hPassed)] at h ⊢
    cases hRes : tryReserveGas state.accounts (runChecks preExec tx.checks).1 tx.reserveCharges
        tx.details tx.payer with
    | mk meter reserved =>
      simp only [hRes] at h ⊢
      cases reserved with
      | none =>
        cases h
        exact ⟨rfl, rfl, rfl⟩
      | some accounts => exact attemptTx_ok (tryReserveGas_bank hRes) h
  · rw [if_pos hPassed] at h ⊢
    cases h
    exact ⟨rfl, rfl, rfl⟩

inductive TxFate (block : BlockContext S) (slotGas : S.Gas) (tx : TxBehaviour S) (bond : Nat)
    (state : TxState S) (out : AuthAndProcessOutput S) : Prop where
  | refused (hMeter : rejectedMeter block.gasPrice state.accounts slotGas bond tx = none)
      (hOut : out = ⟨state, GasArray.zeroed, .illegalSequencer⟩)
  | rejected {meter : BasicGasMeter S.dimensions}
      (hMeter : rejectedMeter block.gasPrice state.accounts slotGas bond tx = some meter)
      (hGas : out.gasUsed = meter.gasUsed)
      (hOutcome : out.outcome = .skipped ∨ out.outcome = .illegalSequencer)
      (hBank : out.state.accounts.gasBalance bankAccount + meter.gasValue = state.accounts.gasBalance bankAccount)
  | applied {consumption : TransactionConsumption S}
      (hAuth : sequencerAuthorized S block.gasPrice bond slotGas = true)
      (hMeter : rejectedMeter block.gasPrice state.accounts slotGas bond tx = none)
      (hOutcome : out.outcome = .applied consumption) (hGas : out.gasUsed = consumption.baseFee)
      (hLimit : ∀ i, consumption.baseFee i ≤ slotGas i)
      (hBank : out.state.accounts.gasBalance bankAccount =
        state.accounts.gasBalance bankAccount + consumption.priorityFee)

theorem chargeForChecks_ok {outcome} (h : chargeForChecks block state preExec outcome = .ok out) :
    out.gasUsed = preExec.gasUsed ∧ out.outcome = outcome ∧
      out.state.accounts.gasBalance bankAccount + preExec.gasValue =
        state.accounts.gasBalance bankAccount := by
  simp only [chargeForChecks, bind_eq_ok, pure_eq_ok] at h
  obtain ⟨accounts, hPen, rfl⟩ := h
  exact ⟨rfl, rfl, (payFromBank_ok hPen).1.paid block.chain.proverTokenHolder_ne_bank⟩

theorem authAndProcessTx_ok {sequencer address}
    (h : authAndProcessTx block slotGas tx sequencer address bond state = .ok out) :
    TxFate block slotGas tx bond state out := by
  unfold authAndProcessTx at h
  split at h
  · rename_i hAuth
    cases h
    exact .refused (by rw [rejectedMeter, if_pos hAuth]) rfl
  · rename_i hAuth
    rw [bind_eq_ok] at h
    obtain ⟨preExec, hPre, h⟩ := h
    have hMeter : rejectedMeter block.gasPrice state.accounts slotGas bond tx =
        if ¬ (preExec.chargeEach tx.authCharges).2 ∨ tx.authResult ≠ .authenticated then
          some (preExec.chargeEach tx.authCharges).1
        else
          match checkTx slotGas state.accounts tx (preExec.chargeEach tx.authCharges).1 with
          | (preExec, false) => some preExec
          | (_, true) => none := by
      rw [rejectedMeter, if_neg hAuth, hPre]
    dsimp only at h
    split at h
    · rename_i hResult
      obtain ⟨hGas, hOutcome, hBank⟩ := chargeForChecks_ok h
      refine .rejected (hMeter.trans (if_pos ?_)) hGas (.inl hOutcome) hBank
      split at hResult
      · exact .inr (by simp [hResult])
      · exact .inl ‹_›
    · rename_i hResult
      obtain ⟨hGas, hOutcome, hBank⟩ := chargeForChecks_ok h
      refine .rejected (hMeter.trans (if_pos ?_)) hGas (.inr hOutcome) hBank
      split at hResult
      · exact .inr (by simp [hResult])
      · exact .inl ‹_›
    · rename_i hResult
      split at hResult
      · rename_i hPaid
        rw [if_neg (by simp [hPaid, hResult])] at hMeter
        rw [bind_eq_ok] at h
        obtain ⟨processed, hProcess, h⟩ := h
        obtain ⟨hPreExec, hProc⟩ := processTx_ok hProcess
        cases hCheck : checkTx slotGas state.accounts tx (preExec.chargeEach tx.authCharges).1 with
        | mk meter attempted =>
          rw [hCheck] at hMeter hPreExec hProc
          cases attempted with
          | false =>
            obtain ⟨hResult, hKept⟩ := hProc
            rw [hResult, hPreExec] at h
            obtain ⟨hGas, hOutcome, hBank⟩ := chargeForChecks_ok h
            exact .rejected hMeter hGas (.inl hOutcome) (hBank.trans hKept)
          | true =>
            obtain ⟨r, hResult, hLimit, hBank⟩ := hProc
            rw [hResult] at h
            cases h
            exact .applied (not_not.mp hAuth) hMeter rfl rfl hLimit hBank
      · cases hResult

end SovereignSdk
