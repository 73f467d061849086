import SovereignSdk.Library.OrderedMap
import SovereignSdk.Transaction

/-! Blobs on their way from the DA layer to execution. -/
namespace SovereignSdk
open Nat

inductive SequencerType where
  | preferred
  | nonPreferred
deriving DecidableEq, Repr

inductive BlobType where
  | batch
  | proof
deriving DecidableEq, Repr

inductive BlobDiscardReason where
  | sequenceNumberTooLow
  | senderInsufficientStake
  | maxAllowedUnregisteredBlobs
  | outOfCapacity
  | insufficientReservedGas
  | invalidSerialization
  | emergencyRegistrationTooLarge
deriving DecidableEq, Repr

structure DiscardedBlob where
  blobHash : Hash
  reason : BlobDiscardReason
deriving DecidableEq, Repr

/-- A batch of the preferred sequencer. The advance is a `NonZero<u8>`, and the
encoding of a list starts with its length as a `u32`. -/
structure PreferredBatchData (S : Spec) where
  sequenceNumber : Nat
  data : List (FullyBakedTx S)
  visibleSlotsToAdvance : Nat
  data_length : data.length ≤ u32Max
  advance_pos : 0 < visibleSlotsToAdvance
  advance_le : visibleSlotsToAdvance ≤ u8Max

theorem one_le_u8Max : 1 ≤ u8Max := le_of_ble_eq_true rfl

structure PreferredProofData (S : Spec) where
  sequenceNumber : Nat
  data : RawProof S

inductive PreferredBlobData (S : Spec) where
  | batch (data : PreferredBatchData S)
  | proof (data : PreferredProofData S)

namespace PreferredBlobData
variable {S : Spec}

def sequenceNumber : PreferredBlobData S → Nat
  | .batch b => b.sequenceNumber
  | .proof p => p.sequenceNumber

def blobType : PreferredBlobData S → BlobType
  | .batch _ => .batch
  | .proof _ => .proof

def visibleSlotNumberIncrease : PreferredBlobData S → Option Nat
  | .batch b => some b.visibleSlotsToAdvance
  | .proof _ => none

end PreferredBlobData

structure PreferredBlobDataWithId (S : Spec) where
  inner : PreferredBlobData S
  id : Hash

/-- A blob of the DA block: its sender, hash and length, and what
`try_from_slice` makes of its bytes at each type it is read as. A decoded list
has a `u32` as its length, and decoded data is no longer than the blob. -/
structure BlobTransaction (S : Spec) where
  sender : S.DaAddress
  hash : Hash
  totalLen : Nat
  asBatch : Option (List (FullyBakedTx S))
  asProof : Option (RawProof S)
  asTx : Option (FullyBakedTx S)
  asPreferredBatch : Option (PreferredBatchData S)
  asPreferredProof : Option (PreferredProofData S)
  batch_length : ∀ txs ∈ asBatch, txs.length ≤ u32Max
  batch_len_le : ∀ txs ∈ asBatch, (txs.map (·.len)).sum ≤ totalLen
  proof_len_le : ∀ raw ∈ asProof, raw.len ≤ totalLen

/-- `BlobDataWithId`. -/
inductive BlobData (S : Spec) where
  | batch (txs : List (FullyBakedTx S)) (id : Hash) (sequencerAddress : S.Address)
  | emergencyRegistration (tx : FullyBakedTx S) (id : Hash)
  | proof (raw : RawProof S) (id : Hash) (sequencerAddress : S.Address)

namespace BlobData
variable {S : Spec}

def blobSize : BlobData S → Nat
  | .batch txs _ address => (txs.map (·.len)).sum + 32 + S.addressLen address
  | .proof raw _ address => raw.len + 32 + S.addressLen address
  | .emergencyRegistration tx _ => tx.len + 32

def id : BlobData S → Hash
  | .batch _ id _ => id
  | .proof _ id _ => id
  | .emergencyRegistration _ id => id

def isEmergencyRegistration : BlobData S → Bool
  | .emergencyRegistration _ _ => true
  | _ => false

end BlobData

inductive Escrow where
  | derivedHolder (holder : Hash)
  | direct (amount : Nat)
  | none
deriving DecidableEq, Repr

structure ValidatedBlob (S : Spec) where
  blob : BlobData S
  sender : S.DaAddress
  balanceStore : Escrow

structure SelectedBlob (S : Spec) where
  blobData : BlobData S
  sender : S.DaAddress
  reservedGasTokens : Option Nat

namespace ValidatedBlob
variable {S : Spec}

/-- `conservative_serialized_size`: the blob, its discriminant, the sender, the
escrow and the length fields. -/
def conservativeSerializedSize (blob : BlobData S) (sender : S.DaAddress) : Nat :=
  blob.blobSize + 1 + S.daAddressLen sender + 33 + 12

def intoSelectedBlob (v : ValidatedBlob S) : Except Panic (SelectedBlob S) :=
  match v.balanceStore with
  | .derivedHolder _ => .error .derivedHolderSelected
  | .direct amount => .ok ⟨v.blob, v.sender, some amount⟩
  | .none =>
    if v.blob.isEmergencyRegistration then .ok ⟨v.blob, v.sender, none⟩
    else .error .reservedBalanceMissing

end ValidatedBlob

/-- `BlobsAccumulatorWithSizeLimit`: the blobs accepted so far and the room left
for each kind of sequencer. -/
structure BlobsAccumulator (S : Spec) where
  blobsWithAddress : List (ValidatedBlob S)
  remainingPreferredSize : Nat
  remainingNonPreferredSize : Nat

namespace BlobsAccumulator
variable {S : Spec}

def empty : BlobsAccumulator S :=
  let total := S.maxAllowedDataSizeReturnedByBlobStorage
  let preferred := total / preferredDenominator * preferredNumerator
  { blobsWithAddress := []
    remainingPreferredSize := preferred
    remainingNonPreferredSize := total - preferred }

variable (acc : BlobsAccumulator S)

def remaining : SequencerType → Nat
  | .preferred => acc.remainingPreferredSize
  | .nonPreferred => acc.remainingNonPreferredSize

variable (kind : SequencerType)

def canAcceptBlob (blobLen : Nat) : Bool :=
  decide (blobLen ≤ u32Max ∧ blobLen ≤ acc.remaining kind)

variable (v : ValidatedBlob S)

/-- `push_or_ignore`: the flag says whether the blob was accepted. -/
def pushOrIgnore : BlobsAccumulator S × Bool :=
  if acc.canAcceptBlob kind v.blob.blobSize then
    match kind with
    | .preferred =>
      ({ acc with
          blobsWithAddress := acc.blobsWithAddress ++ [v]
          remainingPreferredSize := acc.remainingPreferredSize - v.blob.blobSize }, true)
    | .nonPreferred =>
      ({ acc with
          blobsWithAddress := acc.blobsWithAddress ++ [v]
          remainingNonPreferredSize := acc.remainingNonPreferredSize - v.blob.blobSize }, true)
  else (acc, false)

theorem pushOrIgnore_room :
    (acc.pushOrIgnore kind v).1.remainingNonPreferredSize ≤ acc.remainingNonPreferredSize := by
  unfold pushOrIgnore
  split
  · cases kind with
    | preferred => exact le_refl _
    | nonPreferred => exact sub_le _ _
  · exact le_refl _

theorem pushOrIgnore_blobs :
    (acc.pushOrIgnore kind v).1.blobsWithAddress = acc.blobsWithAddress ++ [v] ∨
      acc.pushOrIgnore kind v = (acc, false) := by
  unfold pushOrIgnore
  split
  · cases kind <;> exact .inl rfl
  · exact .inr rfl

end BlobsAccumulator

/-! Blobs of the preferred sequencer: the index of saved sequence numbers, the
store of early blobs, and the choice of the run to process in a slot. -/

/-- Successor of a `u64`; the increment is unchecked in release builds. -/
def nextU64 (n : Nat) : Nat := (n + 1) % 2 ^ 64

structure SequencerNumberTracker where
  nextSequenceNumber : Nat
  savedSequencerNumbers : OrderedMap Nat BlobType

def SequencerNumberTracker.initial : SequencerNumberTracker := ⟨0, OrderedMap.empty⟩

/-- The two state items of blob storage for the preferred sequencer. -/
structure PreferredStore (S : Spec) where
  upcomingSequenceNumbers : Option SequencerNumberTracker
  deferredPreferredSequencerBlobs : Nat → Option (PreferredBlobDataWithId S)

inductive BlobArrival (S : Spec) where
  | new (blob : PreferredBlobDataWithId S)
  | stored (sequenceNumber : Nat) (blobType : BlobType)

namespace PreferredBlobDataWithId
variable {S : Spec}

def number (b : PreferredBlobDataWithId S) : Nat := b.inner.sequenceNumber

def blobType (b : PreferredBlobDataWithId S) : BlobType := b.inner.blobType

end PreferredBlobDataWithId

namespace BlobArrival
variable {S : Spec}

def number : BlobArrival S → Nat
  | .new b => b.number
  | .stored k _ => k

def blobType : BlobArrival S → BlobType
  | .new b => b.blobType
  | .stored _ t => t

end BlobArrival

namespace PreferredStore
variable {S : Spec}

def initial : PreferredStore S := ⟨none, fun _ => none⟩

variable (p : PreferredStore S)

def tracker : SequencerNumberTracker :=
  p.upcomingSequenceNumbers.getD .initial

/-- The blob with the expected number: a new one if it is next in line,
otherwise a stored one if that is next in line. -/
def nextArrival (next : Nat) (new : List (PreferredBlobDataWithId S)) (stored : List (Nat × BlobType)) :
    Option (BlobArrival S × List (PreferredBlobDataWithId S) × List (Nat × BlobType)) :=
  match new.head?.filter (·.number = next), stored.head?.filter (·.1 = next) with
  | some blob, _ => some (.new blob, new.tail, stored)
  | none, some entry => some (.stored entry.1 entry.2, new, stored.tail)
  | none, none => none

/-- A run of arrivals, the new blobs that were not reached and, if the run ends
with a batch, the number after it. -/
structure Run (S : Spec) where
  arrivals : List (BlobArrival S)
  rest : List (PreferredBlobDataWithId S)
  nextNumber : Option Nat

/-- The loop of `find_next_run_of_blobs`. Every round takes a blob from one of
the two lists, so their total length bounds the number of rounds. -/
def nextRun : Nat → Nat → List (PreferredBlobDataWithId S) → List (Nat × BlobType) → Run S
  | 0, _, new, _ => ⟨[], new, none⟩
  | rounds + 1, next, new, stored =>
    match nextArrival next new stored with
    | none => ⟨[], new, none⟩
    | some (arrival, new, stored) =>
      if arrival.blobType = .batch then ⟨[arrival], new, some (nextU64 next)⟩
      else
        let run := nextRun rounds (nextU64 next) new stored
        { run with arrivals := arrival :: run.arrivals }

/-- The blobs at or above the expected number, in order of sequence number and,
for equal numbers, in order of arrival. -/
def inOrder (next : Nat) (blobs : List (PreferredBlobDataWithId S)) : List (PreferredBlobDataWithId S) :=
  (blobs.insertionSort fun a b => a.number ≤ b.number).filter fun b => next ≤ b.number

def tooLow (next : Nat) (blobs : List (PreferredBlobDataWithId S)) : List (PreferredBlobDataWithId S) :=
  (blobs.insertionSort fun a b => a.number ≤ b.number).filter fun b => b.number < next

def findNextRunOfBlobs (tracker : SequencerNumberTracker) (blobs : List (PreferredBlobDataWithId S)) : Run S :=
  let new := inOrder tracker.nextSequenceNumber blobs
  let stored := tracker.savedSequencerNumbers.entries
  nextRun (new.length + stored.length + 1) tracker.nextSequenceNumber new stored

/-- Save blobs for later, in order; a blob replaces one of the same number. -/
def saveBlobs (saved : OrderedMap Nat BlobType) (deferred : Nat → Option (PreferredBlobDataWithId S)) :
    List (PreferredBlobDataWithId S) → OrderedMap Nat BlobType × (Nat → Option (PreferredBlobDataWithId S))
  | [] => (saved, deferred)
  | b :: rest =>
    saveBlobs (saved.insert b.number b.blobType) (Function.update deferred b.number (some b)) rest

/-- Collect the blobs of a run, taking the stored ones out of the store. -/
def collectRun (deferred : Nat → Option (PreferredBlobDataWithId S)) :
    List (BlobArrival S) → Except Panic ((Nat → Option (PreferredBlobDataWithId S)) × List (PreferredBlobDataWithId S))
  | [] => .ok (deferred, [])
  | .new b :: rest => do
      let (deferred, output) ← collectRun deferred rest
      return (deferred, b :: output)
  | .stored k _ :: rest => do
      let b ← Outcome.unwrap .indexedBlobNotInStorage (deferred k)
      let (deferred, output) ← collectRun (Function.update deferred k none) rest
      return (deferred, b :: output)

def newBlobs : List (BlobArrival S) → List (PreferredBlobDataWithId S)
  | [] => []
  | .new b :: rest => b :: newBlobs rest
  | .stored _ _ :: rest => newBlobs rest

/-- `get_blobs_to_process_from_run`: saves what is not used and, if the run ends
with a batch, hands out its blobs. -/
def getBlobsToProcessFromRun (run : Run S) : Except Panic (PreferredStore S × List (PreferredBlobDataWithId S)) :=
  let next := run.nextNumber.getD p.tracker.nextSequenceNumber
  let (saved, deferred) :=
    saveBlobs (p.tracker.savedSequencerNumbers.splitOff next) p.deferredPreferredSequencerBlobs
      run.rest
  if run.arrivals.getLast?.any (·.blobType = .batch) then do
    let (deferred, output) ← collectRun deferred run.arrivals
    return (⟨some ⟨next, saved⟩, deferred⟩, output)
  else
    let (saved, deferred) := saveBlobs saved deferred (newBlobs run.arrivals)
    .ok (⟨some ⟨next, saved⟩, deferred⟩, [])

def consecutive : List (PreferredBlobDataWithId S) → Bool
  | a :: b :: rest => decide (nextU64 a.number = b.number) && consecutive (b :: rest)
  | _ => true

variable (blobs : List (PreferredBlobDataWithId S))

def batchCount : Nat :=
  (blobs.filter (·.blobType = .batch)).length

/-- `pick_preferred_blobs_to_process`: the blobs to process in this slot and
those dropped for their sequence number. -/
def pickPreferredBlobsToProcess : Except Panic (PreferredStore S × List (PreferredBlobDataWithId S)) := do
  let (p', output) ← p.getBlobsToProcessFromRun (findNextRunOfBlobs p.tracker blobs)
  Outcome.ensure .blobsNotConsecutive (consecutive output = true)
  Outcome.ensure .severalBatches (batchCount output ≤ 1)
  return (p', output)

end PreferredStore
end SovereignSdk
