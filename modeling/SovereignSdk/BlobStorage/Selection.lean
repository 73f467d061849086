import SovereignSdk.BlobStorage.Validation
import SovereignSdk.ChainState

/-! Selection of the blobs to execute in a slot: in DA order, for a preferred
sequencer, and while recovering from the loss of one. -/
namespace SovereignSdk
open Bounded

variable {S : Spec}

inductive BlobOrigin (S : Spec) where
  | batch (blob : BlobTransaction S)
  | proof (blob : BlobTransaction S)

def BlobOrigin.get : BlobOrigin S → BlobTransaction S
  | .batch blob => blob
  | .proof blob => blob

structure RelevantBlobs (S : Spec) where
  batchBlobs : List (BlobTransaction S)
  proofBlobs : List (BlobTransaction S)

/-- `BlobStorage`, without its sibling modules. -/
structure BlobStorage (S : Spec) where
  /-- Deferred blobs under the true slot number they arrived in. -/
  deferredBlobs : Nat → Option (List (ValidatedBlob S))
  preferred : PreferredStore S

namespace BlobStorage

def empty : BlobStorage S := ⟨fun _ => none, .initial⟩

/-- `store_batches`: nothing is stored for a slot without blobs. -/
def storeBatches (b : BlobStorage S) (trueSlotNumber : Nat) (batches : List (ValidatedBlob S)) : BlobStorage S :=
  if batches.isEmpty then b
  else { b with deferredBlobs := Function.update b.deferredBlobs trueSlotNumber (some batches) }

def takeBlobsForSlot (b : BlobStorage S) (slot : Nat) : BlobStorage S × List (ValidatedBlob S) :=
  ({ b with deferredBlobs := Function.update b.deferredBlobs slot none }, (b.deferredBlobs slot).getD [])

end BlobStorage

structure Selection (S : Spec) where
  accounts : Accounts S
  blobs : BlobsAccumulator S
  discarded : List DiscardedBlob

namespace Selection
variable (sel : Selection S)

def discard (blobHash : Hash) (reason : BlobDiscardReason) : Selection S :=
  { sel with discarded := sel.discarded ++ [⟨blobHash, reason⟩] }

/-- Push a blob or, for lack of room, discard it. -/
def push (kind : SequencerType) (v : ValidatedBlob S) : Selection S :=
  match sel.blobs.pushOrIgnore kind v with
  | (blobs, true) => { sel with blobs }
  | (blobs, false) => { sel with blobs }.discard v.blob.id .outOfCapacity

variable (terms : BlockTerms S)

/-- The tail of both validation functions: validate what was decoded, with the
balance left after paying for the decoding. -/
def validateDecoded (idx : Nat) (blob : BlobTransaction S)
    (decoded : Accounts S × Option (BlobData S)) : Except Panic (Selection S) := do
  let (accounts, data) := decoded
  match data with
  | none => return { sel with accounts }.discard blob.hash .senderInsufficientStake
  | some data =>
    let available := (accounts.getSenderBalance blob.sender).getD 0
    match ← accounts.validateBlob terms idx data blob.sender available with
    | (accounts, none) =>
      return { sel with accounts }.discard blob.hash .senderInsufficientStake
    | (accounts, some v) => return { sel with accounts }.push .nonPreferred v

/-- A proof in DA order: `try_validate_proof_and_reserve_funds`. -/
def selectProof (idx : Nat) (blob : BlobTransaction S) : Except Panic (Selection S) := do
  let idx ← asU32 idx
  match sel.accounts.isSenderAllowed blob.sender with
  | .error _ => return sel.discard blob.hash .senderInsufficientStake
  | .ok sequencer =>
    let (accounts, raw) ← sel.accounts.deserializeOrTrySlashSender blob blob.asProof
      (some (sequencer, terms.price)) true
    sel.validateDecoded terms idx blob
      (accounts, raw.map fun raw => .proof raw blob.hash sequencer.address)

/-- A batch of a registered sequencer in DA order:
`try_validate_batch_and_reserve_funds_if_needed`. -/
def selectRegisteredBatch (idx : Nat)
    (blob : BlobTransaction S) (sequencer : KnownSequencer S) : Except Panic (Selection S) := do
  let idx ← asU32 idx
  let (accounts, txs) ← sel.accounts.deserializeOrTrySlashSender blob blob.asBatch
    (some (sequencer, terms.price)) true
  sel.validateDecoded terms idx blob
    (accounts, txs.map fun txs => .batch txs blob.hash sequencer.address)

def maxEmergencyRegistrationBlobSize : Nat := 1000

/-- A batch of an unknown sender: an emergency registration, read without charge
and without a penalty. The count is of the attempts to read one. -/
def selectUnregisteredBatch (unregistered : Nat) (blob : BlobTransaction S) : Except Panic (Selection S × Nat) :=
  if S.unregisteredBlobsPerSlot ≤ unregistered then
    return (sel.discard blob.hash .maxAllowedUnregisteredBlobs, unregistered)
  else if maxEmergencyRegistrationBlobSize < blob.totalLen then
    return (sel.discard blob.hash .emergencyRegistrationTooLarge, unregistered)
  else do
    let (accounts, tx) ← sel.accounts.deserializeOrTrySlashSender blob blob.asTx none false
    match tx with
    | some tx =>
      let v := ⟨.emergencyRegistration tx blob.hash, blob.sender, .none⟩
      return ({ sel with accounts }.push .nonPreferred v, unregistered + 1)
    | none =>
      return ({ sel with accounts }.discard blob.hash .invalidSerialization, unregistered + 1)

def selectNext (state : Selection S × Nat) (item : BlobOrigin S × Nat) : Except Panic (Selection S × Nat) :=
  let (sel, unregistered) := state
  let (origin, idx) := item
  if ¬ sel.blobs.canAcceptBlob .nonPreferred origin.get.totalLen then
    return (sel.discard origin.get.hash .outOfCapacity, unregistered)
  else
    match origin with
    | .proof blob => return (← sel.selectProof terms idx blob, unregistered)
    | .batch blob =>
      match sel.accounts.isSenderAllowed blob.sender with
      | .ok sequencer =>
        return (← sel.selectRegisteredBatch terms idx blob sequencer, unregistered)
      | .error _ => sel.selectUnregisteredBatch unregistered blob

def selectBlobsDaOrderingHelper (items : List (BlobOrigin S)) : Except Panic (Selection S) := do
  let (sel, _) ← items.zipIdx.foldlM (selectNext terms) (sel, 0)
  return sel

/-- A blob taken from storage is selected if its escrow pays for its checks. -/
def retrieveBlob (price : S.Price) (sel : Selection S) (v : ValidatedBlob S) : Except Panic (Selection S) :=
  match v.balanceStore with
  | .derivedHolder holder => do
      match ← sel.accounts.moveFundsFromEscrowToBank v holder price with
      | (accounts, some funds) =>
        return { sel with accounts }.push .nonPreferred { v with balanceStore := .direct funds }
      | (accounts, none) => return { sel with accounts }.discard v.blob.id .insufficientReservedGas
  | .direct _ => .error .directEscrowInStorage
  | .none => return sel.push .nonPreferred v

def intoBlobData (blob : PreferredBlobDataWithId S) (sequencer : S.Address) : BlobData S :=
  match blob.inner with
  | .batch batch => .batch batch.data blob.id sequencer
  | .proof raw => .proof raw.data blob.id sequencer

def addPreferredBlob (price : S.Price) (preferredSender : S.DaAddress) (preferredSequencer : S.Address)
    (sel : Selection S) (blob : PreferredBlobDataWithId S) : Except Panic (Selection S) :=
  let data := intoBlobData blob preferredSequencer
  let available := (sel.accounts.getSenderBalance preferredSender).getD 0
  if ¬ sel.blobs.canAcceptBlob .preferred data.blobSize then
    return sel.discard blob.id .outOfCapacity
  else do
    match ← sel.accounts.validatePreferredBlob price data preferredSender available with
    | (accounts, none) => return { sel with accounts }.discard blob.id .senderInsufficientStake
    | (accounts, some v) => return { sel with accounts }.push .preferred v

end Selection

/-- What a retrieval from storage leaves behind, with the blobs taken under each
slot number. -/
structure Retrieval (S : Spec) where
  storage : BlobStorage S
  selection : Selection S
  taken : List (Nat × List (ValidatedBlob S))

def Retrieval.takeSlot (price : S.Price) (r : Retrieval S) (slot : Nat) : Except Panic (Retrieval S) := do
  let (storage, blobs) := r.storage.takeBlobsForSlot slot
  let selection ← blobs.foldlM (Selection.retrieveBlob price) r.selection
  return ⟨storage, selection, r.taken ++ [(slot, blobs)]⟩

/-- `retrieve_stored_blobs_and_add_to_selection` for the `n` slots after the
visible one. -/
def retrieveStoredBlobs (storage : BlobStorage S) (selection : Selection S) (visible n : Nat)
    (price : S.Price) : Except Panic (Retrieval S) :=
  ((List.range n).map fun i => saturatingAdd u64Max visible (i + 1)).foldlM
    (Retrieval.takeSlot price) ⟨storage, selection, []⟩

/-- What a selection hands to the state transition, together with the blobs it
stored under the true slot number and took out under each visible one. -/
structure SelectorOutput (S : Spec) where
  accounts : Accounts S
  storage : BlobStorage S
  selectedBlobs : List (SelectedBlob S)
  visibleSlotNumberIncrease : Nat
  discarded : List DiscardedBlob
  stored : List (ValidatedBlob S)
  taken : List (Nat × List (ValidatedBlob S))

def selectBlobsDaOrdering (accounts : Accounts S) (terms : BlockTerms S) (current : RelevantBlobs S)
    (discarded : List DiscardedBlob) : Except Panic (Selection S) :=
  Selection.selectBlobsDaOrderingHelper ⟨accounts, .empty, discarded⟩ terms
    (current.batchBlobs.map .batch ++ current.proofBlobs.map .proof)

variable (chain : ChainState S)

def selectBlobsAsBasedSequencerInner (accounts : Accounts S)
    (current : RelevantBlobs S) : Except Panic (Selection S × Nat) := do
  let increase := chain.trueSlotNumber - chain.visibleSlotNumber
  let sel ← selectBlobsDaOrdering accounts
    ⟨chain.getNewGasPrice increase, chain.trueSlotNumber, false⟩ current []
  return (sel, increase)

/-- The end of every selection: `into_selected_blob` for the blobs collected. -/
def finishSelection (storage : BlobStorage S) (selection : Selection S) (increase : Nat)
    (stored : List (ValidatedBlob S)) (taken : List (Nat × List (ValidatedBlob S))) :
    Except Panic (SelectorOutput S) := do
  let selectedBlobs ← selection.blobs.blobsWithAddress.mapM ValidatedBlob.intoSelectedBlob
  return {
    accounts := selection.accounts
    storage
    selectedBlobs
    visibleSlotNumberIncrease := increase
    discarded := selection.discarded
    stored
    taken }

/-- The blobs of the current slot in recovery mode: the number of slots to take
from storage, the selection so far and the blobs to store. -/
def recoveryBlobs (accounts : Accounts S) (current : RelevantBlobs S) :
    Except Panic (Nat × Selection S × List (ValidatedBlob S)) :=
  match chain.trueSlotNumber - chain.visibleSlotNumber with
  | 0 => .error .zeroDelta
  | 1 => do
      let (sel, _) ← selectBlobsAsBasedSequencerInner chain accounts current
      return (1, sel.blobs.blobsWithAddress.foldl (fun sel v => sel.push .nonPreferred v)
        { sel with blobs := .empty }, [])
  | _ + 2 => do
      let sel ← selectBlobsDaOrdering accounts
        ⟨chain.getNewGasPrice 2, chain.trueSlotNumber, true⟩ current []
      return (2, { sel with blobs := .empty }, sel.blobs.blobsWithAddress)

/-- `select_blobs_in_recovery_mode`: two visible slots at a time, until only the
current slot is left. -/
def selectBlobsInRecoveryMode (accounts : Accounts S) (storage : BlobStorage S)
    (current : RelevantBlobs S) : Except Panic (SelectorOutput S) := do
  let (slotsNeeded, selection, stored) ← recoveryBlobs chain accounts current
  let r ← retrieveStoredBlobs (storage.storeBatches chain.trueSlotNumber stored) selection
    chain.visibleSlotNumber slotsNeeded
    (chain.getNewGasPrice (min (chain.trueSlotNumber - chain.visibleSlotNumber) 2))
  finishSelection r.storage r.selection slotsNeeded stored r.taken

def readPreferredBlob (state : Accounts S × List (PreferredBlobDataWithId S)) (item : BlobOrigin S) :
    Except Panic (Accounts S × List (PreferredBlobDataWithId S)) := do
  let (accounts, blobs) := state
  match item with
  | .proof blob =>
    let (accounts, raw) ← accounts.deserializeOrTrySlashSender blob blob.asPreferredProof none true
    return (accounts, blobs ++ (raw.map fun raw => ⟨.proof raw, blob.hash⟩).toList)
  | .batch blob =>
    let (accounts, batch) ← accounts.deserializeOrTrySlashSender blob blob.asPreferredBatch none true
    return (accounts, blobs ++ (batch.map fun batch => ⟨.batch batch, blob.hash⟩).toList)

/-- The blobs sent by the preferred sequencer, proofs first, and those sent by
anyone else, batches first. -/
def preferredOrigins (current : RelevantBlobs S) (preferredSender : S.DaAddress) : List (BlobOrigin S) :=
  (current.proofBlobs.filter (·.sender = preferredSender)).map .proof ++
    (current.batchBlobs.filter (·.sender = preferredSender)).map .batch

def nonPreferredOrigins (current : RelevantBlobs S) (preferredSender : S.DaAddress) : List (BlobOrigin S) :=
  (current.batchBlobs.filter (·.sender ≠ preferredSender)).map .batch ++
    (current.proofBlobs.filter (·.sender ≠ preferredSender)).map .proof

/-- The largest advance that a batch may ask for: the lag of the visible slot if
it fits a `u8`, and never more than the configured maximum. -/
def maxSlotsToAdvance : Nat :=
  let lag := chain.trueSlotNumber - chain.visibleSlotNumber
  min (if lag ≤ u8Max then lag else S.maxVisibleHeightIncreasePerSlot) S.maxVisibleHeightIncreasePerSlot

/-- The advance of the visible slot: what the batch at the end of the run asks
for, or one slot if there is no run and the lag has reached its limit. -/
def visibleHeightIncrease (selected : List (PreferredBlobDataWithId S)) : Except Panic Nat :=
  match selected.getLast? with
  | some last => do
      let requested ← Outcome.unwrap .lastItemIsNotBatch last.inner.visibleSlotNumberIncrease
      return min requested (maxSlotsToAdvance chain)
  | none => do
      let limit ← advanceSlot chain.visibleSlotNumber S.deferredSlotsCount
      return if limit ≤ chain.trueSlotNumber then 1 else 0

def selectBlobsForPreferredSequencer (accounts : Accounts S)
    (storage : BlobStorage S) (current : RelevantBlobs S) (preferredSender : S.DaAddress)
    (preferredSequencer : S.Address) : Except Panic (SelectorOutput S) := do
  let (accounts, wellFormed) ←
    (preferredOrigins current preferredSender).foldlM readPreferredBlob (accounts, [])
  let low := PreferredStore.tooLow storage.preferred.tracker.nextSequenceNumber wellFormed
  let (preferred, selected) ← storage.preferred.pickPreferredBlobsToProcess wellFormed
  let increase ← visibleHeightIncrease chain selected
  let price := chain.getNewGasPrice increase
  let selection ← selected.foldlM (Selection.addPreferredBlob price preferredSender preferredSequencer)
    ⟨accounts, .empty, low.map fun b => ⟨b.id, .sequenceNumberTooLow⟩⟩
  let r ← retrieveStoredBlobs { storage with preferred } selection chain.visibleSlotNumber increase price
  let others := nonPreferredOrigins current preferredSender
  if saturatingAdd u64Max chain.visibleSlotNumber increase = chain.trueSlotNumber then
    let selection ← r.selection.selectBlobsDaOrderingHelper ⟨price, chain.trueSlotNumber, false⟩ others
    finishSelection r.storage selection increase [] r.taken
  else
    let deferral ← { r.selection with blobs := .empty }.selectBlobsDaOrderingHelper
      ⟨price, chain.trueSlotNumber, true⟩ others
    let stored := deferral.blobs.blobsWithAddress
    finishSelection (r.storage.storeBatches chain.trueSlotNumber stored)
      { deferral with blobs := r.selection.blobs } increase stored r.taken

def getBlobsForThisSlot (accounts : Accounts S) (storage : BlobStorage S)
    (current : RelevantBlobs S) : Except Panic (SelectorOutput S) :=
  if S.deferredSlotsCount = 0 then do
    let (selection, increase) ← selectBlobsAsBasedSequencerInner chain accounts current
    finishSelection storage selection increase [] []
  else
    match accounts.getPreferredSequencer with
    | some (preferredSender, preferredSequencer) =>
      selectBlobsForPreferredSequencer chain accounts storage current preferredSender
        preferredSequencer
    | none => selectBlobsInRecoveryMode chain accounts storage current

end SovereignSdk
