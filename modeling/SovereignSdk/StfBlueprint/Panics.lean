import SovereignSdk.StfBlueprint.Payments

/-! Which panics the execution of a blob can raise, part by part. -/
namespace SovereignSdk
open Bounded Outcome Accounts Panic WorkingSet

variable {S : Spec} {s : Accounts S} {context : Context S} {w : WorkingSet S} {chain : ChainState S}
  {tx : TxBehaviour S}
  {state : TxState S} {preExec : BasicGasMeter S.dimensions} {block : BlockContext S} {slotGas gasLimit gas : S.Gas}
  {sequencer sender : S.DaAddress} {address : S.Address} {bond : Nat} {raw : ProofBehaviour S} {price : S.Price}
  {b : BatchState S} {preferred : Bool} {m : SlotMeter S}

/-- The panics of execution proper: everything but those of the slot gas meter and
of the return of a bond. -/
def Panic.ofExecution : Panic → Bool
  | .slotNumberOverflow | .withdrawal | .preExecChecksGas | .proverReward | .gasRefund
  | .sequencerPenalty | .sequencerReward | .gasValueOverflow | .rewardOverflow => true
  | _ => false

def Panic.ofReturn : Panic → Bool
  | .penaltyAboveBond | .addToStake => true
  | _ => false

namespace Accounts

theorem call_raises {visible message} : Raises ofExecution (s.call context visible message) := by
  cases message with
  | register | deposit => exact .ok
  | initiateWithdrawal a =>
    simp only [call, initiateWithdrawal]
    split
    · exact .ok
    · split
      · exact .ok
      · split
        · exact .ok
        · exact .bind (.unwrap rfl) fun _ => .ok
  | withdraw a =>
    simp only [call, withdraw]
    split
    · exact .ok
    · split
      · exact .ok
      · split
        · exact .ok
        · split
          · exact .error rfl
          · exact .ok

theorem payFromBank_raises {kind p receiver amount} (h : kind p = true) :
    Raises kind (s.payFromBank p receiver amount) := by
  unfold payFromBank
  split
  · exact .error h
  · exact .ok

theorem returnEscrowedFundsToSequencer_raises {reward penalty a} :
    Raises (fun p => p.ofExecution || p.ofReturn)
      (s.returnEscrowedFundsToSequencer bond reward penalty a) := by
  refine .bind (.unwrap rfl) fun net => .bind (.unwrap rfl) fun total => ?_
  split
  · exact .error rfl
  · exact .ok

end Accounts

theorem WorkingSet.act_raises {action} : Raises ofExecution (w.act chain context action) := by
  cases action with
  | sequencerRegistry message =>
    refine .bind call_raises fun result => ?_
    cases result with
    | error | ok => exact .ok
  | chargeGas | bank | terminateSetupMode | payOut | collect | burn | fail => exact .ok

theorem WorkingSet.run_raises {actions} : Raises ofExecution (run chain context w actions) := by
  induction actions generalizing w with
  | nil => exact .ok
  | cons action rest ih =>
    refine .bind act_raises fun result => ?_
    cases result with
    | none => exact .ok
    | some next => exact ih

theorem applyTx_raises : Raises ofExecution (applyTx chain context tx w) := by
  unfold applyTx
  split
  · exact .ok
  · exact .bind (run_raises) fun _ => .ok

theorem attemptTx_raises : Raises ofExecution (attemptTx chain context gasLimit tx state preExec) := by
  unfold attemptTx
  dsimp only
  split
  · exact .bind (payFromBank_raises rfl) fun _ => .ok
  · exact .bind applyTx_raises fun _ => .bind (payFromBank_raises rfl) fun _ =>
      .bind (payFromBank_raises rfl) fun _ => .ok

theorem processTx_raises : Raises ofExecution (processTx chain context gasLimit tx state preExec) := by
  unfold processTx
  dsimp only
  split
  · exact .ok
  · split
    · exact .ok
    · exact attemptTx_raises

theorem preExecMeter_raises : Raises ofExecution (preExecMeter S price) := by
  unfold preExecMeter
  split
  · exact .ok
  · exact .error rfl

theorem chargeForChecks_raises {outcome} : Raises ofExecution (chargeForChecks block state preExec outcome) :=
  .bind (payFromBank_raises rfl) fun _ => .ok

theorem authAndProcessTx_raises :
    Raises ofExecution (authAndProcessTx block slotGas tx sequencer address bond state) := by
  unfold authAndProcessTx
  split
  · exact .ok
  · refine .bind preExecMeter_raises fun preExec => ?_
    dsimp only
    split
    · exact chargeForChecks_raises
    · exact chargeForChecks_raises
    · refine .bind processTx_raises fun processed => ?_
      split
      · exact chargeForChecks_raises
      · exact .ok

theorem BatchState.settle_raises {out} : Raises ofExecution (b.settle price preferred out) := by
  unfold settle
  split
  · exact .bind (.unwrap rfl) fun _ => .bind (.unwrap rfl) fun _ => .ok
  · exact .bind (.unwrap rfl) fun _ => .bind (.unwrap rfl) fun _ => .ok
  · exact .bind (.unwrap rfl) fun _ => .ok

theorem applyEmergencyRegistration_raises {tx} :
    Raises ofExecution (applyEmergencyRegistration block state slotGas tx sequencer) := by
  unfold applyEmergencyRegistration
  dsimp only
  split
  · exact .ok
  · split
    · exact .ok
    · refine .bind processTx_raises fun processed => ?_
      split
      · exact .ok
      · refine .bind ?_ fun _ => .ok
        unfold rewardSequencerOrRefund
        split
        · exact payFromBank_raises rfl
        · exact .ok

theorem settleProof_raises : Raises (fun p => p.ofExecution || p.ofReturn)
      (settleProof block state slotGas raw sequencer address bond preExec) := by
  have hRun : ∀ w, Raises (fun p => p.ofExecution || p.ofReturn)
      (verifyProof block.chain ⟨address, address, sequencer⟩ raw w) := fun w =>
    .bind (run_raises.mono (by simp +contextual)) fun _ => .ok
  unfold settleProof
  split
  · exact .bind returnEscrowedFundsToSequencer_raises fun _ => .ok
  · exact .bind (hRun _) fun _ => .bind (payFromBank_raises rfl) fun _ =>
      .bind (payFromBank_raises rfl) fun _ =>
        .bind returnEscrowedFundsToSequencer_raises fun _ => .ok

theorem processProof_raises :
    Raises (fun p => p.ofExecution || p.ofReturn)
      (processProof block state slotGas raw sequencer address bond) := by
  unfold processProof
  split
  · exact .ok
  · refine .bind (preExecMeter_raises.mono (by simp +contextual)) fun preExec => ?_
    dsimp only
    split
    · exact .bind (.unwrap rfl) fun _ =>
        .bind returnEscrowedFundsToSequencer_raises fun _ => .ok
    · split
      · exact .bind returnEscrowedFundsToSequencer_raises fun _ => .ok
      · exact settleProof_raises

def Panic.ofBlob (p : Panic) : Bool :=
  p.ofExecution || p.ofReturn ||
    p == .slotOutOfGas || p == .missingBond || p == .emergencyRegistrationWithBond

theorem Panic.ofBlob_of_execution {p : Panic} (h : p.ofExecution = true) : p.ofBlob = true := by
  simp [ofBlob, h]

theorem Panic.ofBlob_of_return {p : Panic} (h : (p.ofExecution || p.ofReturn) = true) : p.ofBlob = true := by
  simp [ofBlob, h]

theorem chargeSlotGas_slotOutOfGas : Raises (· == .slotOutOfGas) (chargeSlotGas m gas sender) := by
  unfold chargeSlotGas
  split
  · exact .ok
  · exact .error rfl

theorem chargeSlotGas_ofBlob : Raises ofBlob (chargeSlotGas m gas sender) :=
  chargeSlotGas_slotOutOfGas.mono fun p hp => by simp [ofBlob, hp]

theorem BatchState.applyTx_ofExecution {tx} :
    Raises (fun p => p.ofExecution || p == .slotOutOfGas)
      (b.applyTx block sequencer address preferred tx) := by
  refine .bind (authAndProcessTx_raises.mono fun p hp => by simp [hp]) fun out =>
    .bind (chargeSlotGas_slotOutOfGas.mono fun p hp => by simp [hp]) fun slotGas =>
      settle_raises.mono fun p hp => by simp [hp]

theorem applyBlob_ofBlob {progress : TxState S × SlotMeter S} {blob : SelectedBlob S} :
    Raises ofBlob (applyBlob block progress blob) := by
  unfold applyBlob
  dsimp only
  split
  · refine .bind (.unwrap rfl) fun bond => .bind (.foldlM fun b tx => ?_) fun b =>
      .bind (returnEscrowedFundsToSequencer_raises.mono fun _ =>
        ofBlob_of_return) fun _ => .ok
    refine BatchState.applyTx_ofExecution.mono fun p hp => ?_
    rcases Bool.or_eq_true_iff.mp hp with hp | hp
    · exact ofBlob_of_execution hp
    · simp [ofBlob, hp]
  · exact .bind (.ensure rfl) fun _ => .bind
      (applyEmergencyRegistration_raises.mono fun _ => ofBlob_of_execution) fun _ =>
        .bind chargeSlotGas_ofBlob fun _ => .ok
  · exact .bind (.unwrap rfl) fun _ => .bind
      (processProof_raises.mono fun _ => ofBlob_of_return) fun _ =>
        .bind chargeSlotGas_ofBlob fun _ => .ok

end SovereignSdk
