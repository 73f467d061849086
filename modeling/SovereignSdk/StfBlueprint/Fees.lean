import SovereignSdk.Genesis
import SovereignSdk.StfBlueprint.PreExecution
import SovereignSdk.StfBlueprint.Steps

/-! What becomes of the fee that is locked for a transaction: it is refunded, paid to the
prover or left for the sequencer, and each of these payments succeeds. -/
namespace SovereignSdk
open Bounded Outcome Accounts WorkingSet

variable {S : Spec}

/-- A split of the locked fee in which no subtraction is cut off at zero, with the value of
the gas used at the price it was charged at. -/
structure TransactionConsumption.Splits (c : TransactionConsumption S) (price : S.Price) (maxFee : Nat) :
    Prop where
  sum : c.remainingFunds + c.baseFeeValue + c.priorityFee = maxFee
  baseFee_le : c.baseFeeValue ≤ maxFee
  priorityFee_le : c.priorityFee ≤ maxFee - c.baseFeeValue
  value : Gas.checkedValue c.baseFee price = some c.baseFeeValue

theorem transactionConsumption_splits {meter : BasicGasMeter S.dimensions} {details : TxDetails S}
    (h : meter.Funded details.maxFee) :
    (transactionConsumption meter details).Splits meter.gasPrice details.maxFee where
  sum := transactionConsumption_sum h.gasValue_le
  baseFee_le := h.gasValue_le
  priorityFee_le := Nat.min_le_right _ _
  value := Gas.checkedValue_eq_some.mpr ⟨meter.value_le, rfl⟩

variable {s : Accounts S} {tx : TxBehaviour S}

theorem Accounts.Solvent.payFromBank_ok (hs : s.Solvent) (panic : Panic) (receiver : S.Holder) {amount}
    (hFunds : amount ≤ s.gasBalance bankAccount) : ∃ s', s.payFromBank panic receiver amount = .ok s' := by
  rcases hs.covered.doTransfer_cases bankAccount receiver S.gasTokenId amount with
    ⟨bank, hOk, -, -⟩ | ⟨hShort, -⟩
  · exact ⟨s.withBank bank, by simp only [payFromBank, Bank.transferGas, hOk]⟩
  · exact absurd hShort (Nat.not_lt.mpr hFunds)

namespace WorkingSet
variable {chain : ChainState S} {context : Context S} {w : WorkingSet S} {p : Panic}

/-- In a solvent state a step of a call stops the node only if the slot numbers run out. -/
theorem act_error {action} (hs : w.state.accounts.Solvent) (h : w.act chain context action = .error p) :
    p = .slotNumberOverflow := by
  cases action with
  | sequencerRegistry message =>
    simp only [act, callRegistry, bind_eq_error] at h
    rcases h with hCall | ⟨result, -, h⟩
    · exact hs.call_error hCall
    · cases result <;> cases h
  | chargeGas | bank | terminateSetupMode | payOut | collect | burn | fail => cases h

theorem run_error {actions} (hs : w.state.accounts.Solvent)
    (h : run chain context w actions = .error p) : p = .slotNumberOverflow := by
  induction actions generalizing w with
  | nil => cases h
  | cons action rest ih =>
    simp only [run, bind_eq_error] at h
    rcases h with hAct | ⟨result, hAct, h⟩
    · exact act_error hs hAct
    · cases result with
      | none => cases h
      | some next =>
        refine ih ?_ h
        rcases (act_some hAct).execStep with hSame | hStep
        · rwa [hSame]
        · exact kept_solvent chain _ _ hs hStep

end WorkingSet

variable {chain : ChainState S} {context : Context S}

theorem ActEffect.gasPrice {w w'} (h : ActEffect chain context w w') : w'.meter.gasPrice = w.meter.gasPrice := by
  cases h with
  | charge hMeter _ => exact (BasicGasMeter.chargeGas_ok hMeter).2.2.1
  | bank hEq _ _ =>
    rw [hEq]
    rfl
  | registry hMeter _ _ | setup hMeter => rw [hMeter]

theorem applyTx_splits {w : WorkingSet S} {r : ApplyTxResult S}
    (hw : w.meter.Funded tx.details.maxFee) (h : applyTx chain context tx w = .ok r) :
    r.consumption.Splits w.meter.gasPrice tx.details.maxFee := by
  unfold applyTx at h
  split at h
  · cases h
    exact transactionConsumption_splits hw
  · simp only [bind_eq_ok, pure_eq_ok] at h
    obtain ⟨⟨final, successful⟩, hRun, rfl⟩ := h
    have hPrice : final.meter.gasPrice = w.meter.gasPrice :=
      run_invariant (fun v => v.meter.gasPrice = w.meter.gasPrice)
        (fun _ _ hv hStep => hStep.gasPrice.trans hv) rfl hRun
    rw [← hPrice]
    exact transactionConsumption_splits (run_accounted hw hRun).1

theorem applyTx_error {w p}
    (hs : w.state.accounts.Solvent) (h : applyTx chain context tx w = .error p) : p = .slotNumberOverflow := by
  unfold applyTx at h
  split at h
  · cases h
  · rw [bind_eq_error] at h
    rcases h with hRun | ⟨_, -, h⟩
    · exact run_error hs hRun
    · cases h

/-- How the fee locked for a transaction is settled, with `locked` in the bank account: it
is refunded in full if the checks could not be charged, and otherwise refunded in part and
paid to the prover in part. The priority fee stays in the bank account. -/
inductive FeeSettled (chain : ChainState S) (tx : TxBehaviour S) (price : S.Price) (locked : Nat)
    (p : ProcessedTx S) : Prop where
  | uncharged {before : Accounts S} {c : TransactionConsumption S} (hResult : p.result = none)
      (hSplits : c.Splits price tx.details.maxFee) (hBase : c.baseFeeValue = 0)
      (hPriority : c.priorityFee = 0) (hLocked : before.gasBalance bankAccount = locked)
      (hRefund : GasMoved before p.state.accounts bankAccount (.user tx.payer) c.remainingFunds)
  | executed {r : ApplyTxResult S} {before refunded : Accounts S} (hResult : p.result = some r)
      (hSplits : r.consumption.Splits price tx.details.maxFee)
      (hLocked : before.gasBalance bankAccount = locked)
      (hRefund : GasMoved before refunded bankAccount (.user tx.payer) r.consumption.remainingFunds)
      (hReward : GasMoved refunded p.state.accounts bankAccount chain.proverTokenHolder
        r.consumption.baseFeeValue)

theorem Accounts.Solvent.settles_fee (hs : s.Solvent) (chain : ChainState S) (payer : S.Address)
    {c : TransactionConsumption S} {price : S.Price} {before maxFee : Nat} (hSplits : c.Splits price maxFee)
    (hBank : s.gasBalance bankAccount = before + maxFee) :
    ∃ refunded rewarded, s.refundRemainingGas payer c.remainingFunds = .ok refunded ∧
      refunded.rewardProver chain c.baseFeeValue = .ok rewarded ∧
      GasMoved s refunded bankAccount (.user payer) c.remainingFunds ∧
      GasMoved refunded rewarded bankAccount chain.proverTokenHolder c.baseFeeValue := by
  have hSum := hSplits.sum
  obtain ⟨refunded, hRefund⟩ := hs.payFromBank_ok .gasRefund (.user payer)
    (show c.remainingFunds ≤ _ by omega)
  obtain ⟨hMoved, hReg⟩ := Accounts.payFromBank_ok hRefund
  have hPaid := hMoved.paid (by simp)
  obtain ⟨rewarded, hReward⟩ := (hs.of_moved hMoved hReg (by simp)).payFromBank_ok .proverReward
    chain.proverTokenHolder (show c.baseFeeValue ≤ _ by omega)
  exact ⟨refunded, rewarded, hRefund, hReward, hMoved, (Accounts.payFromBank_ok hReward).1⟩

/-- Once the fee of a transaction is locked, the transaction is processed and the fee is
settled, whatever its gas limit, its tip, the price and what it charges, and whether it
succeeds, fails or cannot pay for its checks. The node stops only if the slot numbers run
out in a call to withdraw. -/
theorem locked_fee_settled {chain : ChainState S} {context : Context S} {gasLimit : S.Gas}
    {tx : TxBehaviour S} {state : TxState S} {preExec checked : BasicGasMeter S.dimensions}
    {locked : Accounts S} (hs : state.accounts.Solvent)
    (hLock : tryReserveGas state.accounts preExec tx.reserveCharges tx.details tx.payer = (checked, some locked)) :
    Yields (FeeSettled chain tx checked.gasPrice
        (state.accounts.gasBalance bankAccount + tx.details.maxFee))
      (fun p => p = .slotNumberOverflow)
      (attemptTx chain context gasLimit tx (state.withAccounts locked) checked) := by
  have hBank := tryReserveGas_bank hLock
  have hSolvent : locked.Solvent := (kept_solvent chain).tryReserveGas hs hLock
  have hFunded := tx.details.gasMeter_funded checked.gasPrice gasLimit
  unfold attemptTx
  dsimp only
  cases hCharge : (tx.details.gasMeter checked.gasPrice gasLimit).chargeGas checked.gasUsed with
  | error e =>
    have hSplits := transactionConsumption_splits hFunded
    have hUnused := transactionConsumption_unused tx.details checked.gasPrice gasLimit
    have hSum := hSplits.sum
    obtain ⟨refunded, hRefund⟩ := hSolvent.payFromBank_ok .gasRefund (.user tx.payer)
      (show (transactionConsumption (tx.details.gasMeter checked.gasPrice gasLimit)
        tx.details).remainingFunds ≤ _ by omega)
    have hPay : (state.withAccounts locked).accounts.refundRemainingGas tx.payer _ = .ok refunded := hRefund
    simp only [hPay, ok_bind]
    exact .uncharged rfl hSplits (by omega) (by omega) hBank (payFromBank_ok hRefund).1
  | ok meter =>
    have hFunded' := hFunded.chargeGas hCharge
    have hPrice : meter.gasPrice = checked.gasPrice := (BasicGasMeter.chargeGas_ok hCharge).2.2.1
    have hApplied : Yields (fun r => applyTx chain context tx ⟨meter, state.withAccounts locked⟩ = .ok r)
        (fun p => p = .slotNumberOverflow) (applyTx chain context tx ⟨meter, state.withAccounts locked⟩) :=
      .intro (fun _ h => h) fun _ h => applyTx_error hSolvent h
    refine hApplied.bind fun r hApply => ?_
    have hSplits := hPrice ▸ applyTx_splits hFunded' hApply
    have hHere := (applyTx_ok hFunded' hApply).2.1.trans hBank
    have hExecuted : r.state.accounts.Solvent := (kept_solvent chain).applyTx hSolvent hApply
    obtain ⟨refunded, rewarded, hRefund, hReward, hMoved, hMoved'⟩ :=
      hExecuted.settles_fee chain tx.payer hSplits hHere
    simp only [hRefund, hReward, ok_bind]
    exact .executed rfl hSplits hHere hMoved hMoved'

/-- A transaction that uses gas of the value of 14, with a tip of a tenth of it. -/
def chargingTx : TxBehaviour testSpec :=
  { (FullyBakedTx.idle (7 : Nat) : FullyBakedTx testSpec).behaviour with
    details := ⟨1000, 50, none⟩
    actions := [.chargeGas fun _ => 7, .fail] }

/-- A call that fails pays for the gas that it has used. -/
theorem locked_fee_settled_for_charging_tx :
    ∃ (start : RollupState testSpec) (locked : Accounts testSpec) (p : ProcessedTx testSpec) (meter : BasicGasMeter 2),
      genesis (soloGenesis (7 : Nat) (1 : Nat) 1000 100 true) = .ok start ∧
      tryReserveGas start.accounts meter [] chargingTx.details (7 : Nat) = (meter, some locked) ∧
      attemptTx start.chain ⟨(7 : Nat), (7 : Nat), (1 : Nat)⟩ (fun _ => 100) chargingTx ⟨locked, none, []⟩
        meter = .ok p ∧
      p.state.accounts.gasBalance (.user (7 : Nat)) = 885 ∧
      FeeSettled start.chain chargingTx meter.gasPrice 50 p := by
  simp only [exists_and_left]
  refine exists_and_of returned fun hGenesis => ⟨_, _, .newWithGas (fun _ => 10) fun _ => 1, and_of rfl fun hReserve =>
    and_of rfl fun hAttempt => ⟨rfl, ?_⟩⟩
  have hSolvent : (⟨_, none, []⟩ : TxState testSpec).accounts.Solvent := (genesis_atGenesis hGenesis).solvent
  exact (locked_fee_settled hSolvent hReserve).of_ok hAttempt

end SovereignSdk
