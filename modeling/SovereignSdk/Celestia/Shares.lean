import Mathlib.Order.Defs.LinearOrder
import SovereignSdk.Gas.Meter

/-! Shares, headers and proofs of Celestia as far as its verifier reads them. What comes
from `celestia_types` and `nmt_rs` is a parameter. -/
namespace SovereignSdk.Celestia
open Outcome Bounded

structure DataAvailabilityHeader (NamespacedHash : Type) where
  rowRoots : List NamespacedHash
  columnRoots : List NamespacedHash

structure DaTypes where
  Namespace : Type
  /-- The bytes of a share, with the fields that are read from them. -/
  ShareData : Type
  Address : Type
  Hash : Type
  NamespacedHash : Type
  NamespaceProof : Type
  Commitment : Type
  namespaceOrder : LinearOrder Namespace
  shareDataDecEq : DecidableEq ShareData
  addressDecEq : DecidableEq Address
  hashDecEq : DecidableEq Hash
  parityShare : Namespace
  versionField : ShareData → Nat
  sequenceStartField : ShareData → Bool
  sequenceLengthField : ShareData → Nat
  signerField : ShareData → Address
  payloadField : ShareData → List UInt8
  minNamespace : NamespacedHash → Namespace
  maxNamespace : NamespacedHash → Namespace
  contains : NamespacedHash → Namespace → Bool
  startIdx : NamespaceProof → Nat
  leftmostRightSibling : NamespaceProof → Option NamespacedHash
  rightmostLeftSibling : NamespaceProof → Option NamespacedHash
  verifyRange : NamespaceProof → NamespacedHash → List ShareData → Namespace → Bool
  verifyCompleteNamespace : NamespaceProof → NamespacedHash → List ShareData → Namespace → Bool
  isOfPresence : NamespaceProof → Bool
  /-- The proof of a part of the leaves, by the leaves on its left and on its right. -/
  narrowRange : NamespaceProof → (left right : List ShareData) → Namespace → Option NamespaceProof
  /-- `Commitment::from_shares`. -/
  commitmentFromShares : Namespace → List ShareData → Option Commitment
  validateBasic : DataAvailabilityHeader NamespacedHash → Bool
  dahHash : DataAvailabilityHeader NamespacedHash → Hash
  /-- `usize::MAX` of the platform, in the zkVM or outside. -/
  usizeMax : Nat
  usizeMax_le : usizeMax ≤ u64Max

variable {D : DaTypes}

instance : LinearOrder D.Namespace := D.namespaceOrder
instance : DecidableEq D.ShareData := D.shareDataDecEq
instance : DecidableEq D.Address := D.addressDecEq
instance : DecidableEq D.Hash := D.hashDecEq

inductive ProofError where
  | missing
  | corrupted
  | invalid
deriving DecidableEq, Repr

inductive RowProofError where
  | wrongStartShareIndex (expected actual : Nat)
  | wrongNumberOfShares (expected actual : Nat)
  | proofError (error : ProofError)
deriving DecidableEq, Repr

def RowProofError.missingProof : RowProofError := .proofError .missing

inductive BlobDataError where
  | moreProofsThanBlobs
  | unexpectedBlobs
  | nonMatchingShare
  | wrongSender
deriving DecidableEq, Repr

inductive IncompleteNamespaceError where
  | proofError (error : ProofError)
  | missingBlobs
deriving DecidableEq, Repr

def IncompleteNamespaceError.corruptedProof : IncompleteNamespaceError := .proofError .corrupted

inductive NamespaceValidationError where
  | invalidBlobData (error : BlobDataError)
  | invalidRowProof (error : RowProofError)
  | incompleteNamespace (error : IncompleteNamespaceError)
deriving DecidableEq, Repr

inductive NamespaceType where
  | batch
  | proof
deriving DecidableEq, Repr

inductive ValidationError where
  | invalidDah
  | missingDataHash
  | invalidDataRoot
  | namespaceValidationError (type : NamespaceType) (error : NamespaceValidationError)
deriving DecidableEq, Repr

inductive VerifierPanic where
  | invalidSquareSize
  | indexOutOfBounds
  | shareIndexOverflow
  | squareOverflow
  | lastShareUnset
  | wrongNumberProven
  | sequenceLengthUnset
  | paddingWithoutPayload
  | supportedBlobSkipped
  | badMath
deriving DecidableEq, Repr

inductive Failure (ε : Type) where
  | error (e : ε)
  | panic (p : VerifierPanic)
deriving DecidableEq, Repr

abbrev Verified (α : Type) := Except (Failure NamespaceValidationError) α

structure InfoByte where
  version : Nat
  isSequenceStart : Bool
deriving DecidableEq, Repr

/-- A share as its holder presents it; whether it is a parity share is not in its bytes. -/
structure Share (D : DaTypes) where
  data : D.ShareData
  isParity : Bool

namespace Share
variable (share : Share D)

def infoByte : Option InfoByte :=
  if share.isParity then none else some ⟨D.versionField share.data, D.sequenceStartField share.data⟩

def sequenceLength : Option Nat := do
  let info ← share.infoByte
  if info.isSequenceStart then some (D.sequenceLengthField share.data) else none

/-- Only the first share of a blob of version 1 has a signer. -/
def signer : Option D.Address := do
  let info ← share.infoByte
  if info.isSequenceStart && info.version == 1 then some (D.signerField share.data) else none

def payload : Option (List UInt8) := do
  let _ ← share.infoByte
  return D.payloadField share.data

end Share

def isTailPadding (share : Share D) : Bool := share.sequenceLength == some 0

def supportedShareVersion : Nat := 1

def firstSparseShareContentSize : Nat := 478

def continuationSparseShareContentSize : Nat := 482

def sharesNeededForBytes (payloadBytes : Nat) : Nat :=
  if payloadBytes < firstSparseShareContentSize then 1
  else 1 + (payloadBytes - firstSparseShareContentSize + (continuationSparseShareContentSize - 1)) /
    continuationSparseShareContentSize

/-- Reads the payload of a sequence of shares. -/
structure BlobIterator (D : DaTypes) where
  sequenceLen : Nat
  consumed : Nat
  current : List UInt8
  currentIdx : Nat
  blob : List (Share D)

structure CountedBufReader (B : Type) where
  inner : B
  accumulator : List UInt8

structure BlobWithSender (D : DaTypes) where
  blob : CountedBufReader (BlobIterator D)
  /-- Start and end of the blob among the shares of the namespace. -/
  rangeInNamespace : Nat × Nat
  sender : D.Address
  hash : D.Commitment

def BlobWithSender.accumulator (blob : BlobWithSender D) : List UInt8 := blob.blob.accumulator

structure RangeProof (D : DaTypes) where
  shares : List (Share D)
  proof : D.NamespaceProof
  startShareIdx : Nat

/-- One range proof for each row that the blob touches. -/
structure BlobProof (D : DaTypes) where
  rangeProofs : List (RangeProof D)

structure NamespaceBoundaryProof (D : DaTypes) where
  lastShareProof : D.NamespaceProof
  lastShare : Option (Share D)

structure CelestiaHeader (D : DaTypes) where
  dah : DataAvailabilityHeader D.NamespacedHash
  dataHash : Option D.Hash

namespace CelestiaHeader

def squareWidth (header : CelestiaHeader D) : Nat := header.dah.rowRoots.length

/-- Half of the width: the other half is parity data. -/
def rowLength (header : CelestiaHeader D) : Nat := header.squareWidth / 2

def calculateRowNumberForShare (header : CelestiaHeader D) (shareIdx : Nat) : Verified Nat := do
  ensure (.panic .invalidSquareSize) (header.rowLength ≠ 0)
  return shareIdx / header.rowLength

def validateDah (header : CelestiaHeader D) : Except (Failure ValidationError) Unit := do
  ensure (.error .invalidDah) (D.validateBasic header.dah = true)
  let dataHash ← unwrap (.error .missingDataHash) header.dataHash
  ensure (.error .invalidDataRoot) (D.dahHash header.dah = dataHash)

def namespaceRowRoots (header : CelestiaHeader D) (ns : D.Namespace) : List D.NamespacedHash :=
  header.dah.rowRoots.filter fun root => D.contains root ns

end CelestiaHeader

/-! Reading blobs from shares: the iterator over the bytes of a blob, and the one that splits the
shares of a namespace into blobs. -/

inductive AdapterPanic where
  | consumedTooMuch
  | dataNotProvided
  | emptyBlob
  | noStartShare
  | parityShare
  | lastShareExhausted
  | noProgress
  | startUnset
  | startAfterShares
  | invalidBlob
  | relevantEnd
  | indexOutOfBounds
  | indexOverflow
  | missingInfoByte
  | missingSequenceLength
  | paddingWithoutPayload
  | supportedBlobSkipped
  | rowTooLong
  | rowLengthZero
  | beforeFirstShare
  | narrowRange
  | selfCheck
  | emptyProof
  | presenceWithoutShares
  | missingShares
deriving DecidableEq, Repr

namespace BlobIterator

def ofBlob (shares : List (Share D)) : Except AdapterPanic (BlobIterator D) := do
  let first ← unwrap .emptyBlob shares.head?
  let sequenceLength ← unwrap .noStartShare first.sequenceLength
  let current ← unwrap .parityShare first.payload
  return ⟨sequenceLength, 0, current, 0, shares⟩

variable (iterator : BlobIterator D)

def remaining : Except AdapterPanic Nat :=
  unwrap .consumedTooMuch (checkedSub iterator.sequenceLen iterator.consumed)

/-- The rest of the current share, or the next one; the bytes that fill up the last share are cut off. -/
def chunk : Except AdapterPanic (List UInt8) :=
  if iterator.current ≠ [] then do
    let remaining ← iterator.remaining
    return iterator.current.take remaining
  else
    match iterator.blob[iterator.currentIdx + 1]? with
    | none => .ok []
    | some share => do
        let payload ← unwrap .parityShare share.payload
        let remaining ← iterator.remaining
        return payload.take remaining

/-- The loop of `advance` over the shares after the current one. -/
def advanceOver : List (Share D) → BlobIterator D → Nat → Except AdapterPanic (BlobIterator D)
  | _, iterator, 0 => .ok iterator
  | rest, iterator, cnt + 1 =>
    if cnt + 1 < iterator.current.length then
      .ok { iterator with current := iterator.current.drop (cnt + 1) }
    else
      match rest with
      | share :: rest => do
          let payload ← unwrap .parityShare share.payload
          advanceOver rest { iterator with currentIdx := iterator.currentIdx + 1, current := payload }
            (cnt + 1 - iterator.current.length)
      | [] => do
          ensure .lastShareExhausted (iterator.current.length = cnt + 1)
          return { iterator with current := [] }

def advance (cnt : Nat) : Except AdapterPanic (BlobIterator D) :=
  advanceOver (iterator.blob.drop (iterator.currentIdx + 1)) { iterator with consumed := iterator.consumed + cnt } cnt

/-- `Buf::copy_to_slice`, chunk by chunk. Every chunk has a byte, so there are not more chunks than
bytes; with an empty one the loop would not end. -/
def copyChunks : (chunks : Nat) → BlobIterator D → Nat → Except AdapterPanic (List UInt8 × BlobIterator D)
  | _, iterator, 0 => .ok ([], iterator)
  | 0, _, _ + 1 => .error .noProgress
  | chunks + 1, iterator, len + 1 => do
      let src ← iterator.chunk
      let cnt := min src.length (len + 1)
      let iterator ← iterator.advance cnt
      let (bytes, iterator) ← copyChunks chunks iterator (len + 1 - cnt)
      return (src.take cnt ++ bytes, iterator)

def copyToSlice (len : Nat) : Except AdapterPanic (List UInt8 × BlobIterator D) :=
  copyChunks len iterator len

end BlobIterator

namespace CountedBufReader

def new {B : Type} (inner : B) : CountedBufReader B := ⟨inner, []⟩

variable (reader : CountedBufReader (BlobIterator D))

/-- More bytes than there are left are not an error. -/
def advance (numBytes : Nat) : Except AdapterPanic (CountedBufReader (BlobIterator D)) := do
  let remaining ← reader.inner.remaining
  if remaining = 0 then return reader
  else
    let (bytes, inner) ← reader.inner.copyToSlice (min remaining numBytes)
    return ⟨inner, reader.accumulator ++ bytes⟩

def totalLen : Except AdapterPanic Nat := do
  let remaining ← reader.inner.remaining
  return saturatingAdd D.usizeMax remaining reader.accumulator.length

end CountedBufReader

namespace BlobWithSender

def totalLen (blob : BlobWithSender D) : Except AdapterPanic Nat := blob.blob.totalLen

def advance (blob : BlobWithSender D) (numBytes : Nat) : Except AdapterPanic (BlobWithSender D) := do
  let reader ← blob.blob.advance numBytes
  return { blob with blob := reader }

end BlobWithSender

/-- The shares of one blob with their place in the namespace. -/
structure ShareSequence (D : DaTypes) where
  shares : List (Share D)
  rangeInNs : Nat × Nat

/-- An iterator over the shares of a namespace, row after row: how many it has passed, and the rest. -/
structure NamespaceDataIterator (D : DaTypes) where
  totalOffset : Nat
  rest : List (Share D)

namespace NamespaceDataIterator

def isStart (share : Share D) : Bool := (share.infoByte.map (·.isSequenceStart)).getD false

/-- Shares are collected up to the next start; padding is passed over. -/
def collectShares (offset : Nat) (start : Option Nat) (current : List (Share D)) :
    List (Share D) → Except AdapterPanic (Option (ShareSequence D) × NamespaceDataIterator D)
  | [] =>
    if current ≠ [] then do
      let start ← unwrap .startUnset start
      return (some ⟨current, start, offset⟩, ⟨offset, []⟩)
    else return (none, ⟨offset, []⟩)
  | share :: rest =>
    if isStart share ∧ current ≠ [] then do
      let start ← unwrap .startUnset start
      return (some ⟨current, start, offset⟩, ⟨offset, share :: rest⟩)
    else if isTailPadding share = false ∧ share.isParity = false then do
      if start = none then ensure .startAfterShares (current = [])
      collectShares (offset + 1) (some (start.getD offset)) (current ++ [share]) rest
    else collectShares (offset + 1) start current rest

def next (iterator : NamespaceDataIterator D) :
    Except AdapterPanic (Option (ShareSequence D) × NamespaceDataIterator D) :=
  collectShares iterator.totalOffset none [] iterator.rest

/-- All sequences; there are not more than shares. -/
def collect : (sequences : Nat) → NamespaceDataIterator D → Except AdapterPanic (List (ShareSequence D))
  | 0, _ => .ok []
  | sequences + 1, iterator => do
      match ← iterator.next with
      | (none, _) => return []
      | (some sequence, iterator) => return sequence :: (← collect sequences iterator)

end NamespaceDataIterator
end SovereignSdk.Celestia
