import SovereignSdk.Celestia.Shares

/-! The verifier of the blobs of a namespace. -/
namespace SovereignSdk.Celestia
open Outcome Bounded

variable {D : DaTypes}

namespace BlobProof
variable (proof : BlobProof D)

/-- Each range starts where the one before it ends. -/
def enforceContinuity : Except RowProofError Unit :=
  go proof.rangeProofs
where
  go : List (RangeProof D) → Except RowProofError Unit
    | l :: r :: rest => do
        let leftEnd := saturatingAdd D.usizeMax l.startShareIdx l.shares.length
        ensure .missingProof (r.startShareIdx = leftEnd)
        go (r :: rest)
    | _ => .ok ()

def firstShare : Except RowProofError (Share D) :=
  unwrap (.wrongNumberOfShares 1 0) (proof.rangeProofs.head?.bind (·.shares.head?))

def isSupportedBlob : Verified Bool := do
  let firstShare ← proof.firstShare.mapError fun e => .error (.invalidRowProof e)
  let infoByte ← unwrap (.error (.invalidBlobData .nonMatchingShare)) firstShare.infoByte
  return infoByte.version == supportedShareVersion && !isTailPadding firstShare

def getFirstSubProof : Except RowProofError (RangeProof D) :=
  unwrap .missingProof proof.rangeProofs.head?

def verifyLeftBoundary (header : CelestiaHeader D) (ns : D.Namespace) : Verified Nat := do
  let first ← proof.getFirstSubProof.mapError fun e => .error (.invalidRowProof e)
  let rowNumber ← header.calculateRowNumberForShare first.startShareIdx
  ensure (.error (.incompleteNamespace .missingBlobs)) (rowNumber = 0)
  ensure (.error (.invalidRowProof (.wrongStartShareIndex first.startShareIdx (D.startIdx first.proof))))
    (first.startShareIdx = D.startIdx first.proof)
  if 0 < D.startIdx first.proof then do
    let sibling ← unwrap (.error (.incompleteNamespace .missingBlobs)) (D.rightmostLeftSibling first.proof)
    ensure (.error (.incompleteNamespace .missingBlobs)) (D.maxNamespace sibling < ns)
  return first.startShareIdx

def verifyContinuity (lastValidatedShareIdx : Nat) : Verified Nat := do
  let expected ← unwrap (.panic .shareIndexOverflow) (checkedAdd D.usizeMax lastValidatedShareIdx 1)
  let first ← proof.getFirstSubProof.mapError fun e => .error (.invalidRowProof e)
  ensure (.error (.invalidRowProof (.wrongStartShareIndex expected first.startShareIdx)))
    (first.startShareIdx = expected)
  return first.startShareIdx

end BlobProof

/-- The root of the row in which a range claims to start, and the check of the range. -/
def verifyRangeProof (header : CelestiaHeader D) (rowRoots : List D.NamespacedHash) (ns : D.Namespace)
    (range : RangeProof D) : Verified Unit := do
  let rowNumber ← header.calculateRowNumberForShare range.startShareIdx
  let rowRoot ← unwrap (.panic .indexOutOfBounds) rowRoots[rowNumber]?
  ensure (.error (.invalidRowProof (.proofError .invalid)))
    (D.verifyRange range.proof rowRoot (range.shares.map (·.data)) ns = true)

/-- The variables of the loop over the range proofs of a blob. -/
structure BlobCheck where
  sharesProven : Nat
  startBlobDataIdx : Nat
  sequenceLength : Option Nat
deriving DecidableEq, Repr

def matchShareData (read : List UInt8) (share : Share D) (check : BlobCheck) : Verified BlobCheck := do
  let shareData ← unwrap (.error (.invalidBlobData .unexpectedBlobs)) share.payload
  let start := check.startBlobDataIdx
  if read.length ≤ start + shareData.length then do
    -- `blob_data_read.len() - start_blob_data_idx`
    ensure (.panic .indexOutOfBounds) (start ≤ read.length)
    ensure (.error (.invalidBlobData .nonMatchingShare)) (read.drop start = shareData.take (read.length - start))
  else
    ensure (.error (.invalidBlobData .nonMatchingShare)) ((read.drop start).take shareData.length = shareData)
  return { check with startBlobDataIdx := start + shareData.length }

/-- One share of a range proof; the first share of a blob names its length and its signer. -/
def authenticateShare (blob : BlobWithSender D) (rangeIdx : Nat) (check : BlobCheck)
    (share : Share D × Nat) : Verified BlobCheck := do
  let check ← if rangeIdx = 0 ∧ share.2 = 0 then do
      let signer ← unwrap (.error (.invalidBlobData .nonMatchingShare)) share.1.signer
      ensure (.error (.invalidBlobData .wrongSender)) (signer = blob.sender)
      pure { check with sequenceLength := share.1.sequenceLength }
    else pure check
  matchShareData blob.accumulator share.1 check

/-- One range proof of a blob. The root of its row is looked up before its shares are read. -/
def authenticateRange (header : CelestiaHeader D) (rowRoots : List D.NamespacedHash) (ns : D.Namespace)
    (blob : BlobWithSender D) (check : BlobCheck) (range : RangeProof D × Nat) : Verified BlobCheck := do
  let rowNumber ← header.calculateRowNumberForShare range.1.startShareIdx
  let rowRoot ← unwrap (.panic .indexOutOfBounds) rowRoots[rowNumber]?
  let check ← range.1.shares.zipIdx.foldlM (authenticateShare blob range.2) check
  ensure (.error (.invalidRowProof (.proofError .invalid)))
    (D.verifyRange range.1.proof rowRoot (range.1.shares.map (·.data)) ns = true)
  return { check with sharesProven := check.sharesProven + range.1.shares.length }

def authenticateBlobData (header : CelestiaHeader D) (rowRoots : List D.NamespacedHash) (ns : D.Namespace)
    (blob : BlobWithSender D) (proof : BlobProof D) : Verified Nat := do
  ensure (.error (.invalidBlobData .unexpectedBlobs)) (ns ≠ D.parityShare)
  let numSharesToProve := max (sharesNeededForBytes blob.accumulator.length) 1
  let numSharesWithProofs := (proof.rangeProofs.map (·.shares.length)).sum
  ensure (.error (.invalidRowProof (.wrongNumberOfShares numSharesToProve numSharesWithProofs)))
    (numSharesToProve = numSharesWithProofs)
  let check ← proof.rangeProofs.zipIdx.foldlM (authenticateRange header rowRoots ns blob) ⟨0, 0, none⟩
  ensure (.panic .wrongNumberProven) (check.sharesProven = numSharesToProve)
  let sequenceLength ← unwrap (.panic .sequenceLengthUnset) check.sequenceLength
  return sharesNeededForBytes sequenceLength

def verifySkippedBlob (header : CelestiaHeader D) (rowRoots : List D.NamespacedHash) (ns : D.Namespace)
    (proof : BlobProof D) : Verified Nat := do
  let firstShare ← proof.firstShare.mapError fun e => .error (.invalidRowProof e)
  let infoByte ← unwrap (.error (.invalidBlobData .nonMatchingShare)) firstShare.infoByte
  let sequenceLength ← unwrap (.error (.invalidBlobData .nonMatchingShare)) firstShare.sequenceLength
  if sequenceLength = 0 then
    -- The assertion asks for a payload, not for one without other bytes than zero.
    ensure (.panic .paddingWithoutPayload) (firstShare.payload.isSome = true)
  else
    ensure (.panic .supportedBlobSkipped) (infoByte.version ≠ supportedShareVersion)
  let subProof ← unwrap (.error (.invalidRowProof .missingProof)) proof.rangeProofs.head?
  verifyRangeProof header rowRoots ns subProof
  return sharesNeededForBytes sequenceLength

def checkNamespaceEndBoundary (header : CelestiaHeader D) (rowRoots : List D.NamespacedHash) (ns : D.Namespace)
    (lastProvenShareIdx : Nat) (boundaryProof : Option (NamespaceBoundaryProof D)) : Verified Unit := do
  let lastShareLastRowIdx := rowRoots.length * header.rowLength - 1
  ensure (.panic .badMath) (lastProvenShareIdx ≤ lastShareLastRowIdx)
  if lastProvenShareIdx < lastShareLastRowIdx then do
    let boundary ← unwrap (.error (.incompleteNamespace (.proofError .missing))) boundaryProof
    let startIdx := (rowRoots.length - 1) * header.rowLength + D.startIdx boundary.lastShareProof
    ensure (.panic .squareOverflow) (startIdx ≤ u64Max)
    ensure (.error (.incompleteNamespace .missingBlobs)) (startIdx ≤ lastProvenShareIdx)
    ensure (.error (.incompleteNamespace .corruptedProof)) (lastProvenShareIdx ≤ startIdx)
    let lastRowRoot ← unwrap (.panic .indexOutOfBounds) rowRoots.getLast?
    let lastShare ← unwrap (.error (.incompleteNamespace .corruptedProof)) boundary.lastShare
    ensure (.error (.incompleteNamespace (.proofError .invalid)))
      (D.verifyRange boundary.lastShareProof lastRowRoot [lastShare.data] ns = true)
    let sibling ← unwrap (.error (.incompleteNamespace .corruptedProof))
      (D.leftmostRightSibling boundary.lastShareProof)
    ensure (.error (.incompleteNamespace .missingBlobs)) (ns < D.minNamespace sibling)

inductive PreValidationOutput where
  | earlyReturn
  | continueVerification
deriving DecidableEq, Repr

def prevalidateBlobs (rowRoots : List D.NamespacedHash) (blobs : List (BlobWithSender D)) (ns : D.Namespace)
    (inclusionProof : List (BlobProof D)) (boundaryProof : Option (NamespaceBoundaryProof D)) :
    Verified PreValidationOutput :=
  match rowRoots, blobs with
  | [], [] => .ok .earlyReturn
  | [], _ :: _ => .error (.error (.invalidBlobData .unexpectedBlobs))
  | rowRoot :: others, [] => do
      ensure (.error (.incompleteNamespace .missingBlobs)) (others = [])
      let boundary ← unwrap (.error (.incompleteNamespace (.proofError .missing))) boundaryProof
      ensure (.error (.incompleteNamespace (.proofError .invalid)))
        (D.verifyCompleteNamespace boundary.lastShareProof rowRoot [] ns = true)
      return .earlyReturn
  | _ :: _, _ :: _ => do
      ensure (.error (.invalidRowProof .missingProof)) (blobs.length ≤ inclusionProof.length)
      return .continueVerification

def blobProofRangeStart (header : CelestiaHeader D) (ns : D.Namespace) (blobIdx : Nat)
    (lastValidatedShareIdx : Option Nat) (proof : BlobProof D) : Verified Nat := do
  let start ← if blobIdx = 0 then proof.verifyLeftBoundary header ns
    else do
      let last ← unwrap (.panic .lastShareUnset) lastValidatedShareIdx
      proof.verifyContinuity last
  proof.enforceContinuity.mapError fun e => .error (.invalidRowProof e)
  return start

def advanceShareIdx (start sharesChecked : Nat) : Option Nat → Nat
  | none => start + sharesChecked - 1
  | some prev => prev + sharesChecked

/-- The loop over the proofs, which ends when both the proofs and the blobs are used up. -/
def verifyBlobProofs (header : CelestiaHeader D) (rowRoots : List D.NamespacedHash) (ns : D.Namespace) :
    (blobIdx : Nat) → (lastValidatedShareIdx : Option Nat) → List (BlobProof D) → List (BlobWithSender D) →
      Verified (Option Nat)
  | _, last, [], [] => .ok last
  | _, _, [], _ :: _ => .error (.error (.invalidRowProof .missingProof))
  | blobIdx, last, proof :: proofs, blobs => do
      let start ← blobProofRangeStart header ns blobIdx last proof
      if ← proof.isSupportedBlob then
        match blobs with
        | [] => .error (.error (.invalidBlobData .moreProofsThanBlobs))
        | blob :: blobs => do
            let sharesChecked ← authenticateBlobData header rowRoots ns blob proof
            verifyBlobProofs header rowRoots ns (blobIdx + 1) (some (advanceShareIdx start sharesChecked last))
              proofs blobs
      else do
        let sharesChecked ← verifySkippedBlob header rowRoots ns proof
        verifyBlobProofs header rowRoots ns (blobIdx + 1) (some (advanceShareIdx start sharesChecked last)) proofs blobs

def verifyBlobs (header : CelestiaHeader D) (blobs : List (BlobWithSender D)) (ns : D.Namespace)
    (inclusionProof : List (BlobProof D)) (boundaryProof : Option (NamespaceBoundaryProof D)) : Verified Unit := do
  let rowRoots := header.namespaceRowRoots ns
  match ← prevalidateBlobs rowRoots blobs ns inclusionProof boundaryProof with
  | .earlyReturn => return ()
  | .continueVerification => do
      let last ← verifyBlobProofs header rowRoots ns 0 none inclusionProof blobs
      let lastProvenShareIdx ← unwrap (.panic .lastShareUnset) last
      checkNamespaceEndBoundary header rowRoots ns lastProvenShareIdx boundaryProof

structure CelestiaVerifier (D : DaTypes) where
  rollupBatchNamespace : D.Namespace
  rollupProofNamespace : D.Namespace

/-- The blobs of one namespace with their proofs. -/
structure NamespaceBlobs (D : DaTypes) where
  blobs : List (BlobWithSender D)
  inclusionProof : List (BlobProof D)
  completenessProof : Option (NamespaceBoundaryProof D)

def Failure.inNamespace (type : NamespaceType) : Failure NamespaceValidationError → Failure ValidationError
  | .error e => .error (.namespaceValidationError type e)
  | .panic p => .panic p

def CelestiaVerifier.verifyRelevantTxList (verifier : CelestiaVerifier D) (header : CelestiaHeader D)
    (batch proof : NamespaceBlobs D) : Except (Failure ValidationError) Unit := do
  header.validateDah
  (verifyBlobs header batch.blobs verifier.rollupBatchNamespace batch.inclusionProof
    batch.completenessProof).mapError (Failure.inNamespace .batch)
  (verifyBlobs header proof.blobs verifier.rollupProofNamespace proof.inclusionProof
    proof.completenessProof).mapError (Failure.inNamespace .proof)

end SovereignSdk.Celestia
