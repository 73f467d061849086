import SovereignSdk.Bank.Calls

/-! The sequencer registry: stakes of known sequencers, the operations of the
kernel on them and the calls by which users register, deposit and withdraw. -/
namespace SovereignSdk
open Bounded

inductive BalanceState where
  | active
  | pendingWithdrawal (readyAt : Nat)
deriving DecidableEq, Repr

structure KnownSequencer (S : Spec) where
  address : S.Address
  balance : Nat
  balanceState : BalanceState

structure SequencerRegistry (S : Spec) where
  knownSequencers : S.DaAddress → Option (KnownSequencer S)
  preferredSequencer : Option S.DaAddress
  minimumBond : Option Nat

inductive RegistryError where
  | notRegistered
  | notActive
  | stakeTooLow
  | stakeOverflow
  | transfer (error : BankError)
  | alreadyRegistered
  | noMinimumBondSet
  | insufficientStakeAmount
  | insufficientFundsToRegister
  | toppingAccountMakesBalanceOverflow
  | insufficientFundsToTopUpAccount
  | cannotUnregisterDuringOwnBatch
  | withdrawalAlreadyPending
  | withdrawalNotInitiated
  | withdrawalNotReady
  | suppliedAddressDoesNotMatchTxSender
deriving DecidableEq, Repr

inductive EscrowError where
  | noReservedBalance
  | notEnoughReservedBalance
  | refund (error : BankError)
deriving DecidableEq, Repr

structure Accounts (S : Spec) where
  bank : Bank S
  registry : SequencerRegistry S

namespace Accounts
variable {S : Spec}

abbrev bankAccount : S.Holder := .moduleAccount .bank

abbrev registryAccount : S.Holder := .moduleAccount .sequencerRegistry

variable (s : Accounts S)

def known (a : S.DaAddress) : Option (KnownSequencer S) :=
  s.registry.knownSequencers a

def gasBalance (holder : S.Holder) : Nat := s.bank.balanceOf holder S.gasTokenId

/-- The staked balance of a sequencer, zero if it is not registered. -/
def stakeOf (a : S.DaAddress) : Nat := ((s.known a).map (·.balance)).getD 0

def setSequencer (a : S.DaAddress) (k : Option (KnownSequencer S)) : Accounts S :=
  { s with
    registry := { s.registry with
      knownSequencers := Function.update s.registry.knownSequencers a k } }

def withBank (bank : Bank S) : Accounts S := { s with bank }

def removePartOfTheStake (sequencer : S.DaAddress) (beneficiary : S.Holder)
    (amount : Nat) : Accounts S × Except RegistryError Unit :=
  match s.known sequencer with
  | none => (s, .error .notRegistered)
  | some k =>
    if k.balanceState ≠ .active then (s, .error .notActive)
    else
      match checkedSub k.balance amount with
      | none => (s, .error .stakeTooLow)
      | some balance =>
        match s.bank.transferGas registryAccount beneficiary amount with
        | (bank, .error e) => (s.withBank bank, .error (.transfer e))
        | (bank, .ok ()) =>
          ((s.withBank bank).setSequencer sequencer (some { k with balance }), .ok ())

/-- `add_to_stake`; the sequencer need not be active. -/
def addToStake (sender : S.Holder) (sequencer : S.DaAddress) (amount : Nat) :
    Accounts S × Except RegistryError Unit :=
  match s.known sequencer with
  | none => (s, .error .notRegistered)
  | some k =>
    match checkedAdd amountMax k.balance amount with
    | none => (s, .error .stakeOverflow)
    | some balance =>
      match s.bank.transferGas sender registryAccount amount with
      | (bank, .error e) => (s.withBank bank, .error (.transfer e))
      | (bank, .ok ()) =>
        ((s.withBank bank).setSequencer sequencer (some { k with balance }), .ok ())

/-- `slash_sequencer`: forgets the sequencer, and the preferred sequencer if it
is the one slashed. The stake stays with the registry account. -/
def slashSequencer (a : S.DaAddress) : Accounts S :=
  let s := s.setSequencer a none
  if s.registry.preferredSequencer = some a then
    { s with registry := { s.registry with preferredSequencer := none } }
  else s

/-- `get_preferred_sequencer`: the preferred sequencer while it is known. -/
def getPreferredSequencer : Option (S.DaAddress × S.Address) := do
  let a ← s.registry.preferredSequencer
  let k ← s.known a
  return (a, k.address)

inductive AllowedSequencerError where
  | notRegistered
  | notActive
deriving DecidableEq, Repr

def isSenderAllowed (sender : S.DaAddress) : Except AllowedSequencerError (KnownSequencer S) :=
  match s.known sender with
  | none => .error .notRegistered
  | some k => if k.balanceState = .active then .ok k else .error .notActive

def getSenderBalance (sender : S.DaAddress) : Option Nat :=
  (s.known sender).map (·.balance)

/-- `retrieve_funds_from_escrow`: the surplus goes to the recipient, the amount
needed for the checks to the bank account. -/
def retrieveFundsFromEscrow (holder : Hash) (recipient : S.Address)
    (needed : Nat) : Except Panic (Accounts S × Except EscrowError Unit) :=
  match s.bank.balances (.derived holder) S.gasTokenId with
  | none => .ok (s, .error .noReservedBalance)
  | some reserved =>
    match checkedSub reserved needed with
    | none => .ok (s, .error .notEnoughReservedBalance)
    | some refund =>
      match s.bank.transferGas (.derived holder) (.user recipient) refund with
      | (bank, .error e) => .ok (s.withBank bank, .error (.refund e))
      | (bank, .ok ()) =>
        match bank.transferGas (.derived holder) bankAccount needed with
        | (_, .error _) => .error .escrowTransfer
        | (bank, .ok ()) => .ok (s.withBank bank, .ok ())

def refundAllReservedGas (holder : Hash) (recipient : S.Address) : Except Panic (Accounts S) :=
  match s.bank.balances (.derived holder) S.gasTokenId with
  | none => .ok s
  | some reserved =>
    match s.bank.transferGas (.derived holder) (.user recipient) reserved with
    | (_, .error _) => .error .escrowTransfer
    | (bank, .ok ()) => .ok (s.withBank bank)

section
variable (s : Accounts S)

@[simp] theorem known_withBank (bank : Bank S) : (s.withBank bank).known = s.known :=
  rfl

@[simp] theorem bank_withBank (bank : Bank S) : (s.withBank bank).bank = bank := rfl

@[simp] theorem bank_setSequencer (a : S.DaAddress) (k : Option (KnownSequencer S)) :
    (s.setSequencer a k).bank = s.bank := rfl

@[simp] theorem known_setSequencer (a c : S.DaAddress) (k : Option (KnownSequencer S)) :
    (s.setSequencer a k).known c = if c = a then k else s.known c := by
  by_cases h : c = a
  · subst h
    simp [setSequencer, known]
  · simp [setSequencer, known, h]

@[simp] theorem known_slashSequencer (a c : S.DaAddress) :
    (s.slashSequencer a).known c = if c = a then none else s.known c := by
  unfold slashSequencer
  dsimp only
  split
  · exact known_setSequencer s a c none
  · exact known_setSequencer s a c none

@[simp] theorem bank_slashSequencer (a : S.DaAddress) : (s.slashSequencer a).bank = s.bank := by
  unfold slashSequencer
  dsimp only
  split <;> rfl

end

/-- The supply covers the balances and the registry account covers the stakes. -/
structure Solvent (s : Accounts S) : Prop where
  covered : s.bank.Covered
  staked : TotalAtMost s.stakeOf (s.gasBalance registryAccount)

end Accounts
end SovereignSdk
