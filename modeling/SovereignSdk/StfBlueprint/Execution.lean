import SovereignSdk.ChainState
import SovereignSdk.Transaction

/-! Execution of one transaction: pre-execution checks, reservation of gas, the
call itself and the payments after it. -/
namespace SovereignSdk
open Bounded

variable {S : Spec}

structure TxState (S : Spec) where
  accounts : Accounts S
  setupModeTerminationHeight : Option Nat
  /-- Events: the sequencers that have withdrawn in this block. -/
  withdrawn : List S.DaAddress

def TxState.withAccounts (state : TxState S) (accounts : Accounts S) : TxState S := { state with accounts }

/-- A gas limit, if there is one, must be affordable at the current price. -/
def TxDetails.gasLimitAffordable (details : TxDetails S) (price : S.Price) : Bool :=
  match details.gasLimit with
  | none => true
  | some limit =>
    match Gas.checkedValue limit price with
    | none => false
    | some value => decide (value ≤ details.maxFee)

namespace Accounts
variable (s : Accounts S)

/-- Pay gas tokens out of the bank account, which must hold them. -/
def payFromBank (panic : Panic) (receiver : S.Holder) (amount : Nat) : Except Panic (Accounts S) :=
  match s.bank.transferGas bankAccount receiver amount with
  | (_, .error _) => .error panic
  | (bank, .ok ()) => .ok (s.withBank bank)

def refundRemainingGas (recipient : S.Address) (remainingFunds : Nat) : Except Panic (Accounts S) :=
  s.payFromBank .gasRefund (.user recipient) remainingFunds

def rewardProver (chain : ChainState S) (reward : Nat) : Except Panic (Accounts S) :=
  s.payFromBank .proverReward chain.proverTokenHolder reward

/-- `penalize_sequencer`: the prover is paid out of the escrow for the checks. -/
def penalizeSequencer (chain : ChainState S) (authCost : Nat) : Except Panic (Accounts S) :=
  s.payFromBank .sequencerPenalty chain.proverTokenHolder authCost

def returnEscrowedFundsToSequencer (bond reward penalty : Nat)
    (sequencer : S.DaAddress) : Except Panic (Accounts S) := do
  let net ← Outcome.unwrap .penaltyAboveBond (checkedSub bond penalty)
  let net ← Outcome.unwrap .rewardOverflow (checkedAdd amountMax net reward)
  match s.addToStake bankAccount sequencer net with
  | (_, .error _) => .error .addToStake
  | (s, .ok ()) => .ok s

/-- `reward_sequencer_or_refund`: the user gets the reward if the registration
was reverted. -/
def rewardSequencerOrRefund (sequencer : S.DaAddress) (user : S.Address) (reward : Nat) : Except Panic (Accounts S) :=
  match s.addToStake bankAccount sequencer reward with
  | (s, .error _) => s.payFromBank .sequencerReward (.user user) reward
  | (s, .ok ()) => .ok s

/-- `reserve_gas`: lock the fee of a transaction in the bank account. -/
def reserveGas (details : TxDetails S) (price : S.Price) (payer : S.Address) : Option (Accounts S) :=
  if s.gasBalance (.user payer) < details.maxFee then none
  else if ¬ details.gasLimitAffordable price then none
  else
    match s.bank.transferGas (.user payer) bankAccount details.maxFee with
    | (_, .error _) => none
    | (bank, .ok ()) => some (s.withBank bank)

end Accounts

/-- A transaction under execution: its gas meter and the state it sees. -/
structure WorkingSet (S : Spec) where
  meter : BasicGasMeter S.dimensions
  state : TxState S

namespace WorkingSet

def withBank (w : WorkingSet S) (bank : Bank S) : WorkingSet S :=
  { w with state := w.state.withAccounts (w.state.accounts.withBank bank) }

variable (w : WorkingSet S)

def transfer (sender receiver : S.Holder) (amount : Nat) : Option (WorkingSet S) :=
  match w.state.accounts.bank.transferGas sender receiver amount with
  | (_, .error _) => none
  | (bank, .ok ()) => some (w.withBank bank)

variable (chain : ChainState S)

def terminateSetupMode (sender : S.Address) : Option (WorkingSet S) :=
  if chain.adminAddress ≠ some sender ∨ w.state.setupModeTerminationHeight.isSome then none
  else some { w with state := { w.state with
    setupModeTerminationHeight := some (saturatingAdd u64Max chain.rollupHeight 1) } }

def recordWithdrawal (withdrawn : List S.DaAddress) : SequencerRegistry.CallMessage S → List S.DaAddress
  | .withdraw a => a :: withdrawn
  | _ => withdrawn

def callRegistry (context : Context S)
    (message : SequencerRegistry.CallMessage S) : Except Panic (Option (WorkingSet S)) := do
  match ← w.state.accounts.call context chain.visibleSlotNumber message with
  | .error _ => return none
  | .ok accounts =>
    return some { w with state := { w.state with
      accounts, withdrawn := recordWithdrawal w.state.withdrawn message } }

def act (context : Context S) :
    Action S → Except Panic (Option (WorkingSet S))
  | .chargeGas amount =>
    .ok (match w.meter.chargeGas amount with
      | .ok meter => some { w with meter }
      | .error _ => none)
  | .bank message =>
    .ok (match w.state.accounts.bank.call context message with
      | .ok bank => some (w.withBank bank)
      | .error _ => none)
  | .sequencerRegistry message => w.callRegistry chain context message
  | .terminateSetupMode => .ok (w.terminateSetupMode chain context.sender)
  | .payOut payer receiver amount => .ok (w.transfer (.moduleAccount payer) (.user receiver) amount)
  | .collect payer receiver amount => .ok (w.transfer (.user payer) (.moduleAccount receiver) amount)
  | .burn owner token amount =>
    .ok (match w.state.accounts.bank.burn token amount (.moduleAccount owner) with
      | .ok bank => some (w.withBank bank)
      | .error _ => none)
  | .fail => .ok none

/-- Execute a call up to its end or to the step that fails; the flag says which. -/
def run (chain : ChainState S) (context : Context S) :
    WorkingSet S → List (Action S) → Except Panic (WorkingSet S × Bool)
  | w, [] => .ok (w, true)
  | w, action :: rest => do
      match ← w.act chain context action with
      | none => return (w, false)
      | some w => run chain context w rest

end WorkingSet

structure ApplyTxResult (S : Spec) where
  state : TxState S
  consumption : TransactionConsumption S
  successful : Bool

variable (chain : ChainState S) (context : Context S)

/-- `apply_tx`: a failed call is reverted, but its gas is paid for. -/
def applyTx (tx : TxBehaviour S) (w : WorkingSet S) : Except Panic (ApplyTxResult S) :=
  if tx.isUnauthorizedSystemTx then
    return ⟨w.state, transactionConsumption w.meter tx.details, false⟩
  else do
    let (final, successful) ← WorkingSet.run chain context w tx.actions
    return ⟨if successful then final.state else w.state, transactionConsumption final.meter tx.details, successful⟩

def runChecks : BasicGasMeter S.dimensions → List (MeteredCheck S) → BasicGasMeter S.dimensions × Bool
  | meter, [] => (meter, true)
  | meter, check :: rest =>
    let (meter, paid) := meter.chargeEach check.charges
    if paid && check.passes then runChecks meter rest else (meter, false)

def TxBehaviour.checks (tx : TxBehaviour S) : List (MeteredCheck S) :=
  [tx.resolveContext, tx.checkUniqueness, tx.markTxAttempted]

/-- `try_reserve_gas`, with the charges of the state accesses it makes. -/
def tryReserveGas (accounts : Accounts S) (preExec : BasicGasMeter S.dimensions) (charges : List S.Gas)
    (details : TxDetails S) (payer : S.Address) : BasicGasMeter S.dimensions × Option (Accounts S) :=
  let (meter, paid) := preExec.chargeEach charges
  (meter, if paid then accounts.reserveGas details preExec.gasPrice payer else none)

/-- What became of a transaction that passed authentication: the state, the
meter of the pre-execution checks and, if the transaction was attempted, its
result. -/
structure ProcessedTx (S : Spec) where
  state : TxState S
  preExec : BasicGasMeter S.dimensions
  result : Option (ApplyTxResult S)

def attemptTx (gasLimit : S.Gas) (tx : TxBehaviour S)
    (state : TxState S) (preExec : BasicGasMeter S.dimensions) : Except Panic (ProcessedTx S) :=
  let meter := tx.details.gasMeter preExec.gasPrice gasLimit
  match meter.chargeGas preExec.gasUsed with
  | .error _ => do
      let accounts ← state.accounts.refundRemainingGas tx.payer
        (transactionConsumption meter tx.details).remainingFunds
      return ⟨state.withAccounts accounts, preExec, none⟩
  | .ok meter => do
      let applied ← applyTx chain context tx ⟨meter, state⟩
      let accounts ← applied.state.accounts.refundRemainingGas tx.payer
        applied.consumption.remainingFunds
      let accounts ← accounts.rewardProver chain applied.consumption.baseFeeValue
      let state := applied.state.withAccounts accounts
      return ⟨state, preExec, some { applied with state }⟩

/-- The common part of `process_tx_and_reward_prover` and
`process_unauthorized_tx`. -/
def processTx (gasLimit : S.Gas) (tx : TxBehaviour S)
    (state : TxState S) (preExec : BasicGasMeter S.dimensions) : Except Panic (ProcessedTx S) :=
  let (preExec, passed) := runChecks preExec tx.checks
  if ¬ passed then return ⟨state, preExec, none⟩
  else
    match tryReserveGas state.accounts preExec tx.reserveCharges tx.details tx.payer with
    | (preExec, none) => return ⟨state, preExec, none⟩
    | (preExec, some accounts) =>
      attemptTx chain context gasLimit tx (state.withAccounts accounts) preExec

end SovereignSdk
