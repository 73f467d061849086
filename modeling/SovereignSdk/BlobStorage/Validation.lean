import SovereignSdk.BlobStorage.Preferred

/-! Validation of a blob: its sender is charged for decoding it and funds for
its pre-execution checks are set aside. -/
namespace SovereignSdk
open Bounded GasArray Gas

variable {S : Spec}

def asU32 (n : Nat) : Except Panic Nat :=
  if n ≤ u32Max then .ok n else .error .u32Overflow

def deserializationCost (blob : BlobTransaction S) (price : S.Price) : Option Nat := do
  let gas ← checkedScalarProduct u64Max S.gasToChargePerByteBorshDeserialization blob.totalLen
  checkedValue gas price

/-- `num_pre_exec_checks_needed`: one check for each transaction of a batch, one
for any other blob. -/
def numPreExecChecksNeeded : BlobData S → Except Panic Nat
  | .batch txs _ _ => asU32 txs.length
  | _ => .ok 1

def preExecChecksCost (S : Spec) (checks : Nat) (price : S.Price) : Option Nat := do
  let gas ← checkedScalarProduct u64Max S.maxTxCheckCosts checks
  checkedValue gas price

def conservativeKeySize : Nat := 256

def worstCaseGasPriceIncrease : Nat := 2

/-- What a stored blob of the given estimated size costs to store, to retrieve at
twice the price and to delete, in tokens. -/
def storageCosts (S : Spec) (bytesToStore : Nat) (price : S.Price) : Option Nat := do
  let bytesWithKey := conservativeKeySize + bytesToStore
  let hashTwice ← checkedScalarProduct u64Max S.gasToChargeHashUpdate 2
  let access ← checkedCombine u64Max S.biasToChargeForAccess S.biasToChargeStorageUpdate
  let fixedStoring ← checkedCombine u64Max access hashTwice
  let fixedStoring ← checkedValue fixedStoring price
  let perByte ← checkedCombine u64Max S.gasToChargePerByteStorageUpdate
    S.gasToChargePerByteHashUpdate
  let variableStoring ← checkedScalarProduct u64Max perByte bytesWithKey
  let variableStoring ← checkedValue variableStoring price
  let storing ← checkedAdd amountMax fixedStoring variableStoring
  let read ← checkedCombine u64Max S.biasToChargeForAccess S.biasToChargeForRead
  let read ← checkedCombine u64Max read hashTwice
  let fixedRetrieval ← checkedScalarProduct u64Max read worstCaseGasPriceIncrease
  let fixedRetrieval ← checkedValue fixedRetrieval price
  let hashing ← checkedScalarProduct u64Max S.gasToChargePerByteHashUpdate
    (worstCaseGasPriceIncrease * bytesWithKey)
  let reading ← checkedCombine u64Max S.gasToChargePerByteRead hashing
  let decoding ← checkedScalarProduct u64Max S.gasToChargePerByteBorshDeserialization
    (worstCaseGasPriceIncrease * bytesToStore)
  let variableRetrieval ← checkedCombine u64Max reading decoding
  let variableRetrieval ← checkedValue variableRetrieval price
  let retrieval ← checkedAdd amountMax fixedRetrieval variableRetrieval
  let deletion ← checkedScalarProduct u64Max S.biasToChargeStorageUpdate
    worstCaseGasPriceIncrease
  let deletion ← checkedValue deletion price
  let total ← checkedAdd amountMax storing retrieval
  checkedAdd amountMax total deletion

/-- `account_for_deferral_costs`: storage costs and one more round of checks, in
case the price doubles. -/
def accountForDeferralCosts (blob : BlobData S) (sender : S.DaAddress) (price : S.Price) :
    Except Panic (Option Nat) := do
  let checks ← numPreExecChecksNeeded blob
  let bytesToStore ← asU32 (ValidatedBlob.conservativeSerializedSize blob sender)
  return do
    let moreChecks ← preExecChecksCost S checks price
    let storage ← storageCosts S bytesToStore price
    checkedAdd amountMax storage moreChecks

/-- The price of the block under selection, the true slot number, and whether the
blobs of this slot may be deferred. -/
structure BlockTerms (S : Spec) where
  price : S.Price
  trueSlotNumber : Nat
  accountForDeferral : Bool

def deferralCosts (terms : BlockTerms S) (blob : BlobData S) (sender : S.DaAddress) : Except Panic (Option Nat) :=
  if terms.accountForDeferral then accountForDeferralCosts blob sender terms.price else .ok (some 0)

def fundsNeeded (terms : BlockTerms S) (blob : BlobData S) (sender : S.DaAddress) : Except Panic (Option Nat) := do
  match ← deferralCosts terms blob sender with
  | none => return none
  | some deferral =>
    let checks ← numPreExecChecksNeeded blob
    return do
      let checksCost ← preExecChecksCost S checks terms.price
      checkedAdd amountMax deferral checksCost

namespace Accounts

/-- `deserialize_or_try_slash_sender`: `decoded` is the blob read at the wanted
type. The fee for decoding is burned by moving it within the registry account. -/
def deserializeOrTrySlashSender {β : Type} (s : Accounts S) (blob : BlobTransaction S)
    (decoded : Option β) (chargeForDeserialization : Option (KnownSequencer S × S.Price))
    (slashOnFailure : Bool) : Except Panic (Accounts S × Option β) :=
  let decode (s : Accounts S) : Accounts S × Option β :=
    match decoded with
    | some value => (s, some value)
    | none => (if slashOnFailure then s.slashSequencer blob.sender else s, none)
  match chargeForDeserialization with
  | none => .ok (decode s)
  | some (sequencer, price) =>
    match deserializationCost blob price with
    | none => .ok (s, none)
    | some funds =>
      if sequencer.balance < funds then .ok (s, none)
      else
        match s.removePartOfTheStake blob.sender registryAccount funds with
        | (_, .error _) => .error .deserializationFee
        | (s, .ok ()) => .ok (decode s)

variable (s : Accounts S)

/-- `validate_blob`: the funds go to an account of their own if the blob may be
deferred, and to the bank account otherwise. -/
def validateBlob (terms : BlockTerms S) (idx : Nat) (blob : BlobData S)
    (sender : S.DaAddress) (availableBalance : Nat) : Except Panic (Accounts S × Option (ValidatedBlob S)) := do
  match ← fundsNeeded terms blob sender with
  | none => return (s, none)
  | some funds =>
    if availableBalance < funds then return (s, none)
    else
      let holder := S.hashDerivedHolder blob.id idx terms.trueSlotNumber
      let (beneficiary, escrow) :=
        if terms.accountForDeferral then (.derived holder, Escrow.derivedHolder holder)
        else (bankAccount, Escrow.direct funds)
      match s.removePartOfTheStake sender beneficiary funds with
      | (s, .error _) => return (s, none)
      | (s, .ok ()) => return (s, some ⟨blob, sender, escrow⟩)

def escrowFundsForPreferredSequencer (amount : Nat) : Except Panic (Accounts S × Except RegistryError Unit) := do
  let preferred ← Outcome.unwrap .preferredSequencerNotSet s.registry.preferredSequencer
  return s.removePartOfTheStake preferred bankAccount amount

/-- `validate_preferred_blob`: only the checks of a single transaction are paid
for in advance. -/
def validatePreferredBlob (price : S.Price) (blob : BlobData S)
    (sender : S.DaAddress) (availableBalance : Nat) : Except Panic (Accounts S × Option (ValidatedBlob S)) :=
  match checkedValue S.maxTxCheckCosts price with
  | none => .ok (s, none)
  | some funds =>
    if availableBalance < funds then .ok (s, none)
    else do
      match ← s.escrowFundsForPreferredSequencer funds with
      | (s, .error _) => return (s, none)
      | (s, .ok ()) => return (s, some ⟨blob, sender, .direct funds⟩)

/-- Who is refunded what an escrow holds beyond the funds for the checks. -/
def escrowRecipient : BlobData S → Except Panic S.Address
  | .batch _ _ address => .ok address
  | .emergencyRegistration _ _ => .error .emergencyRegistrationInEscrow
  | .proof _ _ address => .ok address

/-- `move_funds_from_escrow_to_bank`: the funds for the checks of a deferred blob,
or nothing if its escrow does not cover them, in which case it is refunded. -/
def moveFundsFromEscrowToBank (v : ValidatedBlob S) (holder : Hash)
    (price : S.Price) : Except Panic (Accounts S × Option Nat) := do
  let recipient ← escrowRecipient v.blob
  let checks ← numPreExecChecksNeeded v.blob
  match preExecChecksCost S checks price with
  | none => return (← s.refundAllReservedGas holder recipient, none)
  | some needed =>
    match ← s.retrieveFundsFromEscrow holder recipient needed with
    | (s, .ok ()) => return (s, some needed)
    | (s, .error _) => return (← s.refundAllReservedGas holder recipient, none)

end Accounts
end SovereignSdk
