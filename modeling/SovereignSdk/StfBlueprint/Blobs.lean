import SovereignSdk.BlobStorage.Preferred
import SovereignSdk.StfBlueprint.Execution

/-! Execution of the selected blobs: batches of registered sequencers, emergency
registrations and proofs. -/
namespace SovereignSdk
open Bounded Outcome GasArray

variable {S : Spec}

structure BlockContext (S : Spec) where
  chain : ChainState S
  gasPrice : S.Price

/-- A block of the test instance in which one unit of gas costs one token. -/
def unitPriceBlock : BlockContext testSpec := ⟨.genesis .zk none (9 : Nat), fun _ => 1⟩

abbrev SlotMeter (S : Spec) := SlotGasMeter S.DaAddress S.dimensions

inductive TxOutcome (S : Spec) where
  /-- The sequencer was not allowed to have the transaction processed. -/
  | illegalSequencer
  /-- The transaction failed before its execution started. -/
  | skipped
  | applied (consumption : TransactionConsumption S)

structure AuthAndProcessOutput (S : Spec) where
  state : TxState S
  gasUsed : S.Gas
  outcome : TxOutcome S

/-- The meter of the pre-execution checks, after the charge for those made by the
blueprint itself. -/
def preExecMeter (S : Spec) (price : S.Price) : Except Panic (BasicGasMeter S.dimensions) :=
  match (BasicGasMeter.newWithGas S.maxTxCheckCosts price).chargeGas S.processTxPreExecChecksGas with
  | .ok meter => .ok meter
  | .error _ => .error .preExecChecksGas

/-- The checks made before any gas is metered: the value of the check costs does
not overflow, the bond covers it, and the slot has gas left in some dimension. -/
def sequencerAuthorized (S : Spec) (price : S.Price) (bond : Nat) (slotGas : S.Gas) : Bool :=
  match Gas.checkedValue S.maxTxCheckCosts price with
  | none => false
  | some value => decide (value ≤ bond) && !dimIsLessOrEq slotGas S.maxTxCheckCosts

variable (block : BlockContext S) (state : TxState S)

/-- A transaction that failed before its execution: the sequencer pays for the
gas used. -/
def chargeForChecks (preExec : BasicGasMeter S.dimensions)
    (outcome : TxOutcome S) : Except Panic (AuthAndProcessOutput S) := do
  let accounts ← state.accounts.penalizeSequencer block.chain preExec.gasValue
  return ⟨state.withAccounts accounts, preExec.gasUsed, outcome⟩

variable (slotGas : S.Gas)

def authAndProcessTx (tx : TxBehaviour S)
    (sequencer : S.DaAddress) (sequencerAddress : S.Address) (bond : Nat) (state : TxState S) :
    Except Panic (AuthAndProcessOutput S) :=
  if ¬ sequencerAuthorized S block.gasPrice bond slotGas then
    return ⟨state, zeroed, .illegalSequencer⟩
  else do
    let preExec ← preExecMeter S block.gasPrice
    let (preExec, paid) := preExec.chargeEach tx.authCharges
    match if paid then tx.authResult else .outOfGas with
    | .fatalError => chargeForChecks block state preExec .skipped
    | .outOfGas => chargeForChecks block state preExec .illegalSequencer
    | .authenticated =>
      let context := ⟨tx.sender, sequencerAddress, sequencer⟩
      let processed ← processTx block.chain context slotGas tx state preExec
      match processed.result with
      | none => chargeForChecks block processed.state processed.preExec .skipped
      | some applied =>
        return ⟨processed.state, applied.consumption.baseFee, .applied applied.consumption⟩

structure BatchState (S : Spec) where
  state : TxState S
  slotGas : SlotMeter S
  reward : Nat
  penalty : Nat
  bondPerTx : Nat

def chargeSlotGas (meter : SlotMeter S) (gas : S.Gas) (sequencer : S.DaAddress) : Except Panic (SlotMeter S) :=
  match meter.chargeGas gas sequencer with
  | .ok meter => .ok meter
  | .error _ => .error .slotOutOfGas

/-- The bookkeeping of `apply_batch` for one transaction. Only an ignored
transaction reduces the bond that the preferred sequencer has left. -/
def BatchState.settle (b : BatchState S) (price : S.Price) (preferred : Bool)
    (out : AuthAndProcessOutput S) : Except Panic (BatchState S) := do
  match out.outcome with
  | .illegalSequencer =>
    let value ← unwrap .gasValueOverflow (Gas.checkedValue out.gasUsed price)
    let penalty ← unwrap .rewardOverflow (checkedAdd amountMax b.penalty value)
    return { b with
      state := out.state
      penalty
      bondPerTx := if preferred then b.bondPerTx - value else b.bondPerTx }
  | .skipped =>
    let value ← unwrap .gasValueOverflow (Gas.checkedValue out.gasUsed price)
    let penalty ← unwrap .rewardOverflow (checkedAdd amountMax b.penalty value)
    return { b with state := out.state, penalty }
  | .applied consumption =>
    let reward ← unwrap .rewardOverflow (checkedAdd amountMax b.reward consumption.priorityFee)
    return { b with state := out.state, reward }

def BatchState.applyTx (sequencer : S.DaAddress) (address : S.Address)
    (preferred : Bool) (b : BatchState S) (tx : FullyBakedTx S) : Except Panic (BatchState S) := do
  let out ← authAndProcessTx block (b.slotGas.remainingSlotGas sequencer) tx.behaviour sequencer address
    b.bondPerTx b.state
  let slotGas ← chargeSlotGas b.slotGas out.gasUsed sequencer
  { b with slotGas }.settle block.gasPrice preferred out

/-- The bond available to each transaction: all of it for the preferred
sequencer, an equal share otherwise. -/
def bondPerTx (preferred : Bool) (bond : Nat) (txs : List (FullyBakedTx S)) : Nat :=
  if preferred then bond else bond / max txs.length 1

def isPreferredSequencer (accounts : Accounts S) (sequencer : S.DaAddress) : Bool :=
  decide (accounts.registry.preferredSequencer = some sequencer)

def runBatch (slotGas : SlotMeter S)
    (txs : List (FullyBakedTx S)) (sequencer : S.DaAddress) (address : S.Address) (bond : Nat) :
    Except Panic (BatchState S) :=
  let preferred := isPreferredSequencer state.accounts sequencer
  txs.foldlM (BatchState.applyTx block sequencer address preferred) ⟨state, slotGas, 0, 0, bondPerTx preferred bond txs⟩

def applyBatch (slotGas : SlotMeter S)
    (txs : List (FullyBakedTx S)) (sequencer : S.DaAddress) (address : S.Address) (bond : Nat) :
    Except Panic (TxState S × SlotMeter S) := do
  let b ← runBatch block state slotGas txs sequencer address bond
  let accounts ← b.state.accounts.returnEscrowedFundsToSequencer bond b.reward b.penalty sequencer
  return (b.state.withAccounts accounts, b.slotGas)

/-- `apply_batch` for an emergency registration: the gas price is zero, and the
gas used counts against the slot only. -/
def applyEmergencyRegistration (tx : FullyBakedTx S) (sequencer : S.DaAddress) : Except Panic (TxState S × S.Gas) :=
  if dimIsLessOrEq slotGas S.maxUnregisteredTxGas then return (state, zeroed)
  else
    let (preExec, paid) :=
      (BasicGasMeter.newWithGas S.maxUnregisteredTxGas zeroed).chargeEach tx.behaviour.authCharges
    if ¬ paid ∨ tx.behaviour.authResult ≠ .authenticated then return (state, preExec.gasUsed)
    else do
      let context := ⟨tx.behaviour.sender, tx.behaviour.sender, sequencer⟩
      let processed ← processTx block.chain context
        (calculateMin slotGas S.maxUnregisteredTxGas) tx.behaviour state preExec
      match processed.result with
      | none => return (processed.state, processed.preExec.gasUsed)
      | some applied =>
        let accounts ← processed.state.accounts.rewardSequencerOrRefund sequencer tx.behaviour.payer
          applied.consumption.priorityFee
        return (processed.state.withAccounts accounts, applied.consumption.baseFee)

/-- The verification of a proof whose fee is locked: the state it leaves and what
it consumed. Only a valid proof, or an invalid one that is not to be reverted,
keeps its changes. -/
def verifyProof (chain : ChainState S) (context : Context S) (raw : ProofBehaviour S) (w : WorkingSet S) :
    Except Panic (TxState S × TransactionConsumption S) := do
  let (final, finished) ← WorkingSet.run chain context w raw.actions
  let kept := raw.result = .invalidNotRevertable ∨ (finished ∧ raw.result = .valid)
  return (if kept then final.state else w.state, transactionConsumption final.meter raw.details)

/-- `charge_sequencer_and_reward_prover`: what is left of the reserved tokens goes
back to the stake; the prover is not paid. -/
def chargeSequencerAndRewardProver (sequencer : S.DaAddress)
    (preExec : BasicGasMeter S.dimensions) (reserved : Nat) : Except Panic (TxState S × S.Gas) := do
  let accounts ← state.accounts.returnEscrowedFundsToSequencer reserved 0 preExec.gasValue sequencer
  return (state.withAccounts accounts, preExec.gasUsed)

/-- A proof whose fee is locked: the gas of the checks is recovered from the fee,
the proof is verified, and fee and bond are settled. -/
def settleProof (raw : ProofBehaviour S)
    (sequencer : S.DaAddress) (address : S.Address) (bond : Nat) (preExec : BasicGasMeter S.dimensions) :
    Except Panic (TxState S × S.Gas) :=
  match (raw.details.gasMeter block.gasPrice slotGas).chargeGas preExec.gasUsed with
  | .error _ => chargeSequencerAndRewardProver state sequencer preExec bond
  | .ok meter => do
      let (state, consumption) ← verifyProof block.chain ⟨address, address, sequencer⟩ raw ⟨meter, state⟩
      let accounts ← state.accounts.refundRemainingGas address consumption.remainingFunds
      let accounts ← accounts.rewardProver block.chain consumption.baseFeeValue
      let accounts ← accounts.returnEscrowedFundsToSequencer bond consumption.priorityFee 0 sequencer
      return (state.withAccounts accounts, consumption.baseFee)

def processProof (raw : ProofBehaviour S)
    (sequencer : S.DaAddress) (address : S.Address) (bond : Nat) : Except Panic (TxState S × S.Gas) :=
  if ¬ sequencerAuthorized S block.gasPrice bond slotGas then return (state, zeroed)
  else do
    let preExec ← preExecMeter S block.gasPrice
    let (preExec, read) := runChecks preExec [raw.deserialize]
    if ¬ read then
      let maxTxCheckValue ← unwrap .gasValueOverflow
        (Gas.checkedValue S.maxTxCheckCosts block.gasPrice)
      chargeSequencerAndRewardProver state sequencer preExec maxTxCheckValue
    else
      match tryReserveGas state.accounts preExec raw.reserveCharges raw.details address with
      | (preExec, none) => chargeSequencerAndRewardProver state sequencer preExec bond
      | (preExec, some accounts) =>
        settleProof block (state.withAccounts accounts) slotGas raw sequencer address bond preExec

def applyBlob (progress : TxState S × SlotMeter S) (blob : SelectedBlob S) :
    Except Panic (TxState S × SlotMeter S) := do
  let (state, slotGas) := progress
  match blob.blobData with
  | .batch txs _ address =>
    let bond ← unwrap .missingBond blob.reservedGasTokens
    applyBatch block state slotGas txs blob.sender address bond
  | .emergencyRegistration tx _ =>
    ensure .emergencyRegistrationWithBond (blob.reservedGasTokens = none)
    let (state, gasUsed) ← applyEmergencyRegistration block state
      (slotGas.remainingSlotGas blob.sender) tx blob.sender
    let slotGas ← chargeSlotGas slotGas gasUsed blob.sender
    return (state, slotGas)
  | .proof raw _ address =>
    let bond ← unwrap .missingBond blob.reservedGasTokens
    let (state, gasUsed) ← processProof block state (slotGas.remainingSlotGas blob.sender)
      raw.behaviour blob.sender address bond
    let slotGas ← chargeSlotGas slotGas gasUsed blob.sender
    return (state, slotGas)

end SovereignSdk
