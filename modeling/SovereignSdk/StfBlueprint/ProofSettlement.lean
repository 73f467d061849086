import SovereignSdk.BlobStorage.Validation
import SovereignSdk.StfBlueprint.PreExecution

/-! The penalty that a batch accumulates, compared to the bond of its sequencer. -/
namespace SovereignSdk
open Bounded Outcome BatchState Accounts Nat Gas

variable {S : Spec}

namespace BatchState

/-- The gas of the checks of the next transaction, if it is rejected after them. -/
def rejection (block : BlockContext S) (sequencer : S.DaAddress) (b : BatchState S) (tx : FullyBakedTx S) :
    Option (BasicGasMeter S.dimensions) :=
  rejectedMeter block.gasPrice b.state.accounts (b.slotGas.remainingSlotGas sequencer) b.bondPerTx tx.behaviour

/-- What the sequencer of a batch is to pay for the next transaction: the value of
its checks if it is rejected after them, nothing otherwise. -/
def rejectionValue (block : BlockContext S) (sequencer : S.DaAddress) (b : BatchState S)
    (tx : FullyBakedTx S) : Nat :=
  ((b.rejection block sequencer tx).map (·.gasValue)).getD 0

variable {block : BlockContext S} {sequencer : S.DaAddress} {address : S.Address} {preferred : Bool}
  {b b' : BatchState S} {tx : FullyBakedTx S} {txs : List (FullyBakedTx S)}

variable {price : S.Price} {out : AuthAndProcessOutput S}

theorem settle_unapplied (hOutcome : out.outcome = .skipped ∨ out.outcome = .illegalSequencer)
    (h : b.settle price preferred out = .ok b') :
    b'.penalty = b.penalty + worth out.gasUsed price ∧ b'.bondPerTx ≤ b.bondPerTx ∧
      b'.reward = b.reward ∧ b'.state = out.state := by
  rcases hOutcome with hOutcome | hOutcome
  all_goals
    simp only [settle, hOutcome, bind_eq_ok, unwrap_eq_ok, checkedValue_eq_some, checkedAdd_eq_some, pure_eq_ok] at h
    obtain ⟨_, ⟨-, rfl⟩, _, ⟨-, rfl⟩, rfl⟩ := h
    refine ⟨rfl, ?_, rfl, rfl⟩
  · exact le_refl _
  · split
    · exact sub_le _ _
    · exact le_refl _

theorem applyTx_ok (h : b.applyTx block sequencer address preferred tx = .ok b') :
    b'.penalty = b.penalty + b.rejectionValue block sequencer tx ∧ b'.bondPerTx ≤ b.bondPerTx ∧
      b'.state.accounts.gasBalance bankAccount + b'.penalty + b.reward =
        b.state.accounts.gasBalance bankAccount + b.penalty + b'.reward := by
  simp only [applyTx, bind_eq_ok] at h
  obtain ⟨out, hProc, slotGas, -, hSettle⟩ := h
  unfold rejectionValue rejection
  cases authAndProcessTx_ok hProc with
  | refused hMeter hOut =>
    obtain ⟨hPen, hBond, hReward, hState⟩ := settle_unapplied (.inr (by rw [hOut])) hSettle
    rw [hOut, worth_zeroed] at hPen
    rw [hState, hOut, hPen, hReward, hMeter]
    exact ⟨rfl, hBond, rfl⟩
  | rejected hMeter hGas hOutcome hBank =>
    obtain ⟨hPen, hBond, hReward, hState⟩ := settle_unapplied hOutcome hSettle
    rw [hGas, ← (rejectedMeter_some hMeter).2.2] at hPen
    rw [hState, hReward, hMeter]
    refine ⟨hPen, hBond, ?_⟩
    simp only [BasicGasMeter.gasValue] at hBank
    dsimp only at hPen ⊢
    omega
  | applied _ hMeter hOutcome _ _ _ =>
    simp only [settle, hOutcome, bind_eq_ok, unwrap_eq_ok, checkedAdd_eq_some, pure_eq_ok] at hSettle
    obtain ⟨_, ⟨-, rfl⟩, rfl⟩ := hSettle
    rw [hMeter]
    refine ⟨rfl, le_refl _, ?_⟩
    dsimp only
    omega

end BatchState

section
variable {block : BlockContext S} {state : TxState S} {slotGas : SlotMeter S} {txs : List (FullyBakedTx S)}
  {sequencer : S.DaAddress} {address : S.Address} {bond : Nat} {b : BatchState S}

end

/-! Where the bond of a proof and the fee locked for it end up. -/
open Accounts

/-- The path of a proof through `process_proof`, with the value of the gas used
by the checks where the sequencer is to pay for it. -/
inductive ProofPath where
  | refused
  | unreadable (checks : Nat)
  | notReserved (checks : Nat)
  | checksNotPaid (checks : Nat)
  | verified
deriving DecidableEq, Repr

def proofPath (block : BlockContext S) (accounts : Accounts S) (slotGas : S.Gas) (raw : ProofBehaviour S)
    (address : S.Address) (bond : Nat) : ProofPath :=
  if ¬ sequencerAuthorized S block.gasPrice bond slotGas then .refused
  else
    match preExecMeter S block.gasPrice with
    | .error _ => .refused
    | .ok preExec =>
      let (preExec, read) := runChecks preExec [raw.deserialize]
      if ¬ read then .unreadable preExec.gasValue
      else
        match tryReserveGas accounts preExec raw.reserveCharges raw.details address with
        | (preExec, none) => .notReserved preExec.gasValue
        | (preExec, some _) =>
          match (raw.details.gasMeter block.gasPrice slotGas).chargeGas preExec.gasUsed with
          | .error _ => .checksNotPaid preExec.gasValue
          | .ok _ => .verified

/-- What the bank account holds after a proof, compared to before. -/
def ProofPath.Balance (path : ProofPath) (maxCheckValue bond maxFee before after : Nat) : Prop :=
  match path with
  | .refused => after = before
  | .unreadable checks => checks ≤ maxCheckValue ∧ maxCheckValue ≤ bond ∧
      after + (maxCheckValue - checks) = before
  | .notReserved checks => checks ≤ bond ∧ after + (bond - checks) = before
  | .checksNotPaid checks => checks ≤ bond ∧ after + (bond - checks) = before + maxFee
  | .verified => after + bond = before

variable {raw : ProofBehaviour S} {state state' : TxState S} {sequencer : S.DaAddress} {gas : S.Gas}

theorem verifyProof_ok {chain context w consumption} (hw : w.meter.Funded raw.details.maxFee)
    (h : verifyProof chain context raw w = .ok (state, consumption)) :
    state.accounts.gasBalance bankAccount = w.state.accounts.gasBalance bankAccount ∧
      consumption.remainingFunds + consumption.baseFeeValue + consumption.priorityFee = raw.details.maxFee := by
  simp only [verifyProof, bind_eq_ok, pure_eq_ok] at h
  obtain ⟨⟨final, finished⟩, hRun, rfl, rfl⟩ := h
  obtain ⟨hFunded, hBank⟩ := WorkingSet.run_accounted hw hRun
  refine ⟨?_, transactionConsumption_sum hFunded.gasValue_le⟩
  split
  · exact hBank
  · rfl

variable {preExec : BasicGasMeter S.dimensions} {block : BlockContext S} {slotGas : S.Gas} {address : S.Address}
variable {bond : Nat}

theorem chargeSequencerAndRewardProver_bank {reserved}
    (h : chargeSequencerAndRewardProver state sequencer preExec reserved = .ok (state', gas)) :
    preExec.gasValue ≤ reserved ∧ state'.accounts.gasBalance bankAccount + (reserved - preExec.gasValue) =
        state.accounts.gasBalance bankAccount := by
  simp only [chargeSequencerAndRewardProver, bind_eq_ok, pure_eq_ok] at h
  obtain ⟨accounts, hReturn, rfl, rfl⟩ := h
  obtain ⟨hLe, hBank⟩ := returnEscrowedFundsToSequencer_bank hReturn
  exact ⟨hLe, by simpa [TxState.withAccounts] using hBank⟩

theorem settleProof_balance {before}
    (hBefore : state.accounts.gasBalance bankAccount = before + raw.details.maxFee)
    (h : settleProof block state slotGas raw sequencer address bond preExec = .ok (state', gas)) :
    (match (raw.details.gasMeter block.gasPrice slotGas).chargeGas preExec.gasUsed with
      | .error _ => ProofPath.checksNotPaid preExec.gasValue
      | .ok _ => ProofPath.verified).Balance (worth S.maxTxCheckCosts block.gasPrice) bond
        raw.details.maxFee before (state'.accounts.gasBalance bankAccount) := by
  unfold settleProof at h
  cases hCharge : (raw.details.gasMeter block.gasPrice slotGas).chargeGas preExec.gasUsed with
  | error e =>
    rw [hCharge] at h
    obtain ⟨hLe, hBank⟩ := chargeSequencerAndRewardProver_bank h
    exact ⟨hLe, hBank.trans hBefore⟩
  | ok meter =>
    have hFunded := (raw.details.gasMeter_funded block.gasPrice slotGas).chargeGas hCharge
    simp only [hCharge, bind_eq_ok, pure_eq_ok] at h
    obtain ⟨⟨verified, consumption⟩, hVerify, refunded, hRefund, rewarded, hReward, returned, hReturn, rfl, rfl⟩ := h
    obtain ⟨hKept, _⟩ := verifyProof_ok hFunded hVerify
    have h₁ := refundRemainingGas_bank hRefund
    have h₂ := rewardProver_bank hReward
    have h₃ := (returnEscrowedFundsToSequencer_bank hReturn).2
    simp only [ProofPath.Balance, TxState.withAccounts] at hKept h₁ h₂ h₃ ⊢
    omega

theorem processProof_balance (h : processProof block state slotGas raw sequencer address bond = .ok (state', gas)) :
    (proofPath block state.accounts slotGas raw address bond).Balance
      (worth S.maxTxCheckCosts block.gasPrice) bond raw.details.maxFee
      (state.accounts.gasBalance bankAccount)
      (state'.accounts.gasBalance bankAccount) := by
  unfold processProof at h
  unfold proofPath
  by_cases hAuth : sequencerAuthorized S block.gasPrice bond slotGas = true
  · have hValue := sequencerAuthorized_iff.mp hAuth
    rw [if_neg (not_not.mpr hAuth)] at h ⊢
    rw [bind_eq_ok] at h
    obtain ⟨preExec, hPre, h⟩ := h
    simp only [hPre]
    by_cases hRead : (runChecks preExec [raw.deserialize]).2 = true
    · simp only [hRead, not_true_eq_false] at h ⊢
      cases hRes : tryReserveGas state.accounts (runChecks preExec [raw.deserialize]).1
          raw.reserveCharges raw.details address with
      | mk paid reserved =>
        simp only [hRes] at h ⊢
        cases reserved with
        | none => exact chargeSequencerAndRewardProver_bank h
        | some accounts => exact settleProof_balance (tryReserveGas_bank hRes) h
    · simp only [hRead, not_false_eq_true, if_true, Bool.false_eq_true] at h ⊢
      simp only [bind_eq_ok, unwrap_eq_ok, checkedValue_eq_some] at h
      obtain ⟨_, ⟨-, rfl⟩, h⟩ := h
      obtain ⟨hLe, hBank⟩ := chargeSequencerAndRewardProver_bank h
      exact ⟨hLe, hValue.2.1, hBank⟩
  · rw [if_pos hAuth] at h ⊢
    cases h
    rfl

def ProofPath.SettlesAll (path : ProofPath) (maxCheckValue bond maxFee : Nat) : Prop :=
  match path with
  | .refused => bond = 0
  | .unreadable checks => checks = 0 ∧ bond = maxCheckValue
  | .notReserved checks => checks = 0
  | .checksNotPaid checks => checks = 0 ∧ maxFee = 0
  | .verified => True

/-- Exactly on these paths a proof leaves nothing of its bond and of its fee in
the bank account. -/
theorem processProof_settles_iff {block : BlockContext S} {state state' : TxState S} {slotGas gas : S.Gas}
    {raw : ProofBehaviour S} {sequencer : S.DaAddress} {address : S.Address} {bond : Nat}
    (h : processProof block state slotGas raw sequencer address bond = .ok (state', gas)) :
    state'.accounts.gasBalance bankAccount + bond = state.accounts.gasBalance bankAccount ↔
      (proofPath block state.accounts slotGas raw address bond).SettlesAll
        (worth S.maxTxCheckCosts block.gasPrice) bond raw.details.maxFee := by
  have hBalance := processProof_balance h
  cases hPath : proofPath block state.accounts slotGas raw address bond with
  | refused | unreadable | notReserved | checksNotPaid =>
    simp only [hPath, ProofPath.Balance, ProofPath.SettlesAll] at hBalance ⊢
    omega
  | verified =>
    simp only [hPath, ProofPath.SettlesAll, iff_true] at hBalance ⊢
    exact hBalance

/-- The bank account holds a bond of 20, the sequencer a few tokens. -/
def bondedAccounts (funds : Nat) : Accounts testSpec where
  bank := (Bank.empty.setBalance bankAccount 0 20).setBalance (.user (7 : Nat)) 0 funds
  registry :=
    { knownSequencers := fun a : Nat => if a = 1 then some ⟨(7 : Nat), 0, .active⟩ else none
      preferredSequencer := none
      minimumBond := some 0 }

def proofOffering (fee : Amount) : ProofBehaviour testSpec :=
  { (RawProof.idle testSpec).behaviour with details := ⟨0, fee, none⟩ }

/-- A fee of one token does not pay for the checks, which cost two. Both amounts
stay in the bank account after the settlement. -/
theorem cheap_proof_leaves_fee :
    (processProof unitPriceBlock ⟨bondedAccounts 1, none, []⟩ (fun _ => 100) (proofOffering 1) (1 : Nat)
        (7 : Nat) 20).map (fun out => (out.1.accounts.gasBalance bankAccount,
          out.1.accounts.stakeOf (1 : Nat), out.1.accounts.gasBalance (.user (7 : Nat)))) = .ok (3, 18, 0) := rfl

/-- A fee of ten pays for everything, and nothing stays in the bank account. -/
theorem well_paid_proof_settles :
    ∃ out, processProof unitPriceBlock ⟨bondedAccounts 10, none, []⟩ (fun _ => 100) (proofOffering 10)
        (1 : Nat) (7 : Nat) 20 = .ok out ∧ out.1.accounts.gasBalance bankAccount + 20 = 20 := by
  refine exists_and_of returned fun hOut => (processProof_settles_iff hOut).mpr ?_
  trivial

end SovereignSdk
