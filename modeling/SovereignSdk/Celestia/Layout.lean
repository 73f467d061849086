import SovereignSdk.Celestia.Square

/-! What the node does with a block: it extracts the blobs of the rollup's namespaces and, once
they have been read, builds the proofs for the verifier. -/
namespace SovereignSdk.Celestia
open Outcome Bounded List

variable {D : DaTypes}

/-- The shares of a namespace in one row, with the proof that they are all of them. -/
structure RowNamespaceData (D : DaTypes) where
  proof : D.NamespaceProof
  shares : List (Share D)

structure NamespaceRelevantData (D : DaTypes) where
  ns : D.Namespace
  rows : List (RowNamespaceData D)

variable (data : NamespaceRelevantData D)

def NamespaceRelevantData.flatShares : List (Share D) :=
  data.rows.flatMap (·.shares)

/-- A sequence of shares as a blob; one without a signer is not for the rollup. -/
def ShareSequence.blobWithSender (ns : D.Namespace) (sequence : ShareSequence D) :
    Except AdapterPanic (Option (BlobWithSender D)) := do
  let commitment ← unwrap .invalidBlob (D.commitmentFromShares ns (sequence.shares.map (·.data)))
  let first ← unwrap .emptyBlob sequence.shares.head?
  match first.signer with
  | none => return none
  | some sender => do
      let iterator ← BlobIterator.ofBlob sequence.shares
      return some ⟨CountedBufReader.new iterator, sequence.rangeInNs, sender, commitment⟩

def NamespaceRelevantData.getBlobsWithSender : Except AdapterPanic (List (BlobWithSender D)) := do
  let sequences ← NamespaceDataIterator.collect data.flatShares.length ⟨0, data.flatShares⟩
  let blobs ← sequences.mapM (ShareSequence.blobWithSender data.ns)
  return blobs.reduceOption

/-- One share of each blob between two positions is proven. The loop passes over at least one
share for each blob. -/
def buildRangesToProveForSkippedBlobs (flatShares : List (Share D)) (stop : Nat) :
    (blobs start : Nat) → Except AdapterPanic (List (Nat × Nat))
  | 0, _ => .ok []
  | blobs + 1, start =>
    if start < stop then do
      let share ← unwrap .indexOutOfBounds flatShares[start]?
      let infoByte ← unwrap .missingInfoByte share.infoByte
      let sequenceLength ← unwrap .missingSequenceLength share.sequenceLength
      if sequenceLength = 0 then ensure .paddingWithoutPayload (share.payload.isSome = true)
      else ensure .supportedBlobSkipped (infoByte.version ≠ supportedShareVersion)
      let sharesInBlob := max (sharesNeededForBytes sequenceLength) 1
      let ranges ← buildRangesToProveForSkippedBlobs flatShares stop blobs (start + sharesInBlob)
      return (start, start + 1) :: ranges
    else .ok []

/-- The shares to prove for one blob: those of the blobs skipped before it, and its own as far as
it has been read. -/
def neededShareRanges (flatShares : List (Share D)) (needed : List (Nat × Nat) × Option Nat)
    (blob : BlobWithSender D) : Except AdapterPanic (List (Nat × Nat) × Option Nat) := do
  let (start, stop) := blob.rangeInNamespace
  let relevantEnd := start + max (sharesNeededForBytes blob.accumulator.length) 1
  ensure .relevantEnd (relevantEnd ≤ stop)
  let prevRangeEnd := needed.2.getD 0
  let skipped ← if start ≠ 0 ∧ start ≠ prevRangeEnd then
      buildRangesToProveForSkippedBlobs flatShares start (start - prevRangeEnd) prevRangeEnd
    else .ok []
  return (needed.1 ++ skipped ++ [(start, relevantEnd)], some stop)

/-- The loop of `split_blob_range_by_rows` from one row to the last one. -/
def splitRows (usizeMax squareSize stop : Nat) : (rowsLeft currentRow start : Nat) →
    Except AdapterPanic (List (Nat × Nat))
  | 0, currentRow, start => do
      ensure .indexOverflow (currentRow * squareSize + squareSize ≤ usizeMax)
      return [(start, stop)]
  | rowsLeft + 1, currentRow, start => do
      let rowEnd := currentRow * squareSize + squareSize
      ensure .indexOverflow (rowEnd ≤ usizeMax)
      let ranges ← splitRows usizeMax squareSize stop rowsLeft (currentRow + 1) rowEnd
      return (start, rowEnd) :: ranges

/-- A range of the namespace as ranges of rows, counted from the start of the first row. -/
def splitBlobRangeByRows (usizeMax : Nat) (nsRange : Nat × Nat) (firstRowOffset squareSize : Nat) :
    Except AdapterPanic (List (Nat × Nat)) :=
  if nsRange.2 ≤ nsRange.1 then .ok []
  else do
    let start ← unwrap .indexOverflow (checkedAdd usizeMax nsRange.1 firstRowOffset)
    let stop ← unwrap .indexOverflow (checkedAdd usizeMax nsRange.2 firstRowOffset)
    ensure .rowLengthZero (squareSize ≠ 0)
    let startRow := start / squareSize
    let endRow := (stop - 1) / squareSize
    if startRow = endRow then return [(start, stop)]
    else splitRows usizeMax squareSize stop (endRow - startRow) startRow start

variable (rowLength : Nat) (data : NamespaceRelevantData D) (rowRoots : List D.NamespacedHash)

def proveSubRange (firstRowOffset : Nat) (subRange : Nat × Nat) : Except AdapterPanic (RangeProof D) := do
  ensure .rowLengthZero (rowLength ≠ 0)
  let rowNum := subRange.1 / rowLength
  let row ← unwrap .indexOutOfBounds data.rows[rowNum]?
  let offset := if rowNum = 0 then firstRowOffset else 0
  let relativeStart ← unwrap .beforeFirstShare (checkedSub (subRange.1 % rowLength) offset)
  let relativeEnd ← unwrap .beforeFirstShare
    (checkedSub (subRange.1 % rowLength + (subRange.2 - subRange.1)) offset)
  ensure .indexOutOfBounds (relativeStart ≤ relativeEnd ∧ relativeEnd ≤ row.shares.length)
  let shares := (row.shares.take relativeEnd).drop relativeStart
  let proof ← unwrap .narrowRange (D.narrowRange row.proof ((row.shares.take relativeStart).map (·.data))
    ((row.shares.drop relativeEnd).map (·.data)) data.ns)
  let rowRoot ← unwrap .indexOutOfBounds rowRoots[rowNum]?
  ensure .selfCheck (D.verifyRange proof rowRoot (shares.map (·.data)) data.ns = true)
  return ⟨shares, proof, subRange.1⟩

/-- The shares of the first row are taken to be the last ones of it. -/
def firstRowOffset : Except AdapterPanic Nat :=
  match data.rows.head? with
  | some firstRow => unwrap .rowTooLong (checkedSub rowLength firstRow.shares.length)
  | none => .ok 0

def proveBlobRange (offset : Nat) (blobRange : Nat × Nat) : Except AdapterPanic (BlobProof D) := do
  let subRanges ← splitBlobRangeByRows D.usizeMax blobRange offset rowLength
  let rangeProofs ← subRanges.mapM (proveSubRange rowLength data rowRoots offset)
  ensure .emptyProof (rangeProofs.isEmpty = false)
  return ⟨rangeProofs⟩

def subNamespaceInclusionProofs (blobRangesToProve : List (Nat × Nat)) :
    Except AdapterPanic (List (BlobProof D)) := do
  let offset ← firstRowOffset rowLength data
  blobRangesToProve.mapM (proveBlobRange rowLength data rowRoots offset)

/-- The shares to prove after the last blob that was read; without one there are none. -/
def rangesAfterLastBlob (flatShares : List (Share D)) : Option Nat → Except AdapterPanic (List (Nat × Nat))
  | some stop =>
    if stop ≠ flatShares.length then
      buildRangesToProveForSkippedBlobs flatShares flatShares.length (flatShares.length - stop) stop
    else .ok []
  | none => .ok []

def newInclusionProof (header : CelestiaHeader D) (data : NamespaceRelevantData D) (blobs : List (BlobWithSender D)) :
    Except AdapterPanic (List (BlobProof D)) := do
  let flatShares := data.flatShares
  let (needed, prevRangeEnd) ← blobs.foldlM (neededShareRanges flatShares) ([], none)
  let skipped ← rangesAfterLastBlob flatShares prevRangeEnd
  subNamespaceInclusionProofs header.rowLength data (header.namespaceRowRoots data.ns) (needed ++ skipped)

def NamespaceBoundaryProof.fromNamespaceData : Except AdapterPanic (Option (NamespaceBoundaryProof D)) :=
  match data.rows.getLast? with
  | none => .ok none
  | some lastRow =>
    if lastRow.shares.isEmpty then
      if D.isOfPresence lastRow.proof then .error .presenceWithoutShares
      else .ok (some ⟨lastRow.proof, none⟩)
    else do
      let allBeforeLast := lastRow.shares.take (lastRow.shares.length - 1)
      let lastShare ← unwrap .missingShares lastRow.shares.getLast?
      let lastShareProof ← unwrap .narrowRange
        (D.narrowRange lastRow.proof (allBeforeLast.map (·.data)) [] data.ns)
      return some ⟨lastShareProof, some lastShare⟩

structure FilteredCelestiaBlock (D : DaTypes) where
  header : CelestiaHeader D
  rollupBatchData : NamespaceRelevantData D
  rollupProofData : NamespaceRelevantData D

structure RelevantBlobs (D : DaTypes) where
  proofBlobs : List (BlobWithSender D)
  batchBlobs : List (BlobWithSender D)

variable (block : FilteredCelestiaBlock D)

def extractRelevantBlobs : Except AdapterPanic (RelevantBlobs D) := do
  let proofBlobs ← block.rollupProofData.getBlobsWithSender
  let batchBlobs ← block.rollupBatchData.getBlobsWithSender
  return ⟨proofBlobs, batchBlobs⟩

def namespaceProofs (header : CelestiaHeader D) (data : NamespaceRelevantData D) (blobs : List (BlobWithSender D)) :
    Except AdapterPanic (NamespaceBlobs D) := do
  let inclusionProof ← newInclusionProof header data blobs
  let completenessProof ← NamespaceBoundaryProof.fromNamespaceData data
  return ⟨blobs, inclusionProof, completenessProof⟩

/-- The blobs are handed on with their proofs, those of batches first. -/
def getExtractionProof (blobs : RelevantBlobs D) : Except AdapterPanic (NamespaceBlobs D × NamespaceBlobs D) := do
  let batch ← namespaceProofs block.header block.rollupBatchData blobs.batchBlobs
  let proof ← namespaceProofs block.header block.rollupProofData blobs.proofBlobs
  return (batch, proof)


/-! Blocks as Celestia lays them out, and the shares of a namespace as they are fetched from it. -/
open Segments List
variable {square : ExtendedDataSquare D} {root : Row D → D.NamespacedHash} {data : NamespaceRelevantData D}

/-- The payload bytes in a start share; version 1 has the signer before them. -/
def startCapacity (version : Nat) : Nat := if version = 1 then 458 else firstSparseShareContentSize

/-- The shares of a blob of which the first one carries `capacity` bytes. -/
def sharesOfLength (capacity length : Nat) : Nat :=
  1 + (length - capacity + (continuationSparseShareContentSize - 1)) / continuationSparseShareContentSize

/-- A blob of version 0 or 1, or padding, as Celestia lays it out. -/
structure ValidBlob (first : D.ShareData) (tail : List D.ShareData) : Prop where
  start : D.sequenceStartField first = true
  version : D.versionField first = 0 ∨ D.versionField first = 1
  startPayload : (D.payloadField first).length = startCapacity (D.versionField first)
  payload : ∀ share ∈ tail, (D.payloadField share).length = continuationSparseShareContentSize
  count : (first :: tail).length = sharesOfLength (startCapacity (D.versionField first)) (D.sequenceLengthField first)

/-- All blobs of a namespace are valid and have a share commitment. -/
def ValidNamespace (square : ExtendedDataSquare D) (ns : D.Namespace) : Prop :=
  ∀ blob ∈ square.blobs ns, (∃ first tail, blob = first :: tail ∧ ValidBlob first tail) ∧
    (D.commitmentFromShares ns blob).isSome = true

/-- The shares of a namespace in one row, with a proof from which that of every part of them can
be obtained. -/
structure RowNamespaceData.IsOf (rowData : RowNamespaceData D) (square : ExtendedDataSquare D)
    (root : Row D → D.NamespacedHash) (ns : D.Namespace) (row : Row D) : Prop where
  shares : rowData.shares = (stretch Prod.fst ns (row.take square.dataWidth)).map fun leaf => ⟨leaf.2, false⟩
  presence : D.isOfPresence rowData.proof = !rowData.shares.isEmpty
  absence : rowData.shares = [] → D.verifyCompleteNamespace rowData.proof (root row) [] ns = true
  narrow : ∀ left mid right, rowData.shares.map (·.data) = left ++ (mid ++ right) → mid ≠ [] →
    ∃ proof, D.narrowRange rowData.proof left right ns = some proof ∧ D.verifyRange proof (root row) mid ns = true ∧
      D.startIdx proof = (lower Prod.fst ns (row.take square.dataWidth)).length + left.length ∧
      (0 < D.startIdx proof →
        (D.rightmostLeftSibling proof).map D.maxNamespace = row[D.startIdx proof - 1]?.map Prod.fst) ∧
      (D.leftmostRightSibling proof).map D.minNamespace = row[D.startIdx proof + mid.length]?.map Prod.fst

/-- The data of a namespace, not that of the parity data, as the node fetches it: one entry for each row
whose root covers the namespace, and a root covers no namespace outside of its row. -/
structure NamespaceRelevantData.IsOf (data : NamespaceRelevantData D) (square : ExtendedDataSquare D)
    (root : Row D → D.NamespacedHash) : Prop where
  parity : data.ns ≠ D.parityShare
  rows : Forall₂ (fun rowData row => rowData.IsOf square root data.ns row) data.rows
    (namespaceRows square root data.ns)
  covers : ∀ row ∈ square.rows, D.contains (root row) data.ns = true →
    (∃ leaf ∈ row.take square.dataWidth, leaf.1 ≤ data.ns) ∧ ∃ leaf ∈ row.take square.dataWidth, data.ns ≤ leaf.1

def shareOf (share : D.ShareData) : Share D := ⟨share, false⟩

def fetchedShares (square : ExtendedDataSquare D) (ns : D.Namespace) : List (Share D) :=
  (square.shares ns).map shareOf

variable {ns : D.Namespace} {j : Nat} {row : Row D}

@[simp] theorem length_fetchedShares : (fetchedShares square ns).length = (square.shares ns).length := length_map _

theorem row_take (hRow : (namespaceRows square root ns)[j]? = some row) :
    row.take square.dataWidth =
      ((namespaceData square root ns).drop (j * square.dataWidth)).take square.dataWidth := by
  unfold namespaceData dataShares
  rw [block_flatten_rows (fun _ => namespaceData_rows) (by rw [getElem?_map, hRow]; rfl)]

theorem exists_getElem?_namespaceData (hRow : (namespaceRows square root ns)[j]? = some row)
    {leaf} (hLeaf : leaf ∈ row.take square.dataWidth) :
    ∃ c < square.dataWidth, (namespaceData square root ns)[j * square.dataWidth + c]? = some leaf := by
  obtain ⟨c, hc⟩ := List.getElem?_of_mem hLeaf
  have hLt : c < square.dataWidth :=
    Nat.lt_of_lt_of_le (List.getElem?_eq_some_iff.mp hc).1 (List.length_take_le _ _)
  refine ⟨c, hLt, ?_⟩
  rw [namespaceData_getElem? hRow hLt, ← hc, getElem?_take_of_lt hLt]

theorem rowShares_eq (hSound : NmtSound square root) (hParity : ns ≠ D.parityShare) {rowData : RowNamespaceData D}
    (hRow : (namespaceRows square root ns)[j]? = some row) (hIsOf : rowData.IsOf square root ns row) :
    rowData.shares = ((fetchedShares square ns).drop
      (j * square.dataWidth - namespaceStart square root ns)).take
        (square.dataWidth - (namespaceStart square root ns - j * square.dataWidth)) := by
  rw [hIsOf.shares, row_take hRow, stretch_block namespaceData_ordered, fetchedShares,
    shares_eq hSound hParity, map_map, ← map_drop, ← map_take]
  rfl

section Fetched
variable (hData : data.IsOf square root)
include hData

theorem length_rows : data.rows.length = (namespaceRows square root data.ns).length := hData.rows.length_eq

theorem contains_of_row {row} (hRow : row ∈ namespaceRows square root data.ns) :
    (∃ leaf ∈ row.take square.dataWidth, leaf.1 ≤ data.ns) ∧ ∃ leaf ∈ row.take square.dataWidth, data.ns ≤ leaf.1 :=
  hData.covers row (mem_rows hRow) (mem_filter.mp hRow).2

theorem namespace_bounds (hSound : NmtSound square root) (hRows : namespaceRows square root data.ns ≠ []) :
    namespaceStart square root data.ns < square.dataWidth ∧
      ((namespaceRows square root data.ns).length - 1) * square.dataWidth <
        namespaceStart square root data.ns + (square.shares data.ns).length := by
  have hLen := length_pos_iff.mpr hRows
  constructor
  · obtain ⟨row, rest, hCons⟩ := exists_cons_of_ne_nil hRows
    obtain ⟨-, leaf, hLeaf, hAbove⟩ := contains_of_row hData (hCons ▸ mem_cons_self : row ∈ _)
    obtain ⟨c, hc, hHere⟩ := exists_getElem?_namespaceData (j := 0) (by rw [hCons]; rfl) hLeaf
    rw [Nat.zero_mul, Nat.zero_add] at hHere
    exact Nat.lt_of_le_of_lt (le_index namespaceData_ordered hHere hAbove) hc
  · have hLast : (namespaceRows square root data.ns)[(namespaceRows square root data.ns).length - 1]? =
        some ((namespaceRows square root data.ns)[(namespaceRows square root data.ns).length - 1]) :=
      getElem?_eq_getElem (by omega)
    obtain ⟨⟨leaf, hLeaf, hBelow⟩, -⟩ := contains_of_row hData (mem_of_getElem? hLast)
    obtain ⟨c, -, hHere⟩ := exists_getElem?_namespaceData hLast hLeaf
    have hEnd := index_lt_end namespaceData_ordered hHere hBelow
    rw [shares_eq hSound hData.parity, length_map]
    unfold namespaceStart
    omega

theorem flatShares_eq (hSound : NmtSound square root) : data.flatShares = fetchedShares square data.ns := by
  have hRows := hData.rows
  rw [fetchedShares, shares_eq hSound hData.parity, NamespaceRelevantData.flatShares, namespaceData, dataShares]
  generalize data.rows = rows at hRows
  generalize namespaceRows square root data.ns = squareRows at hRows
  induction hRows with
  | nil => rfl
  | cons hHead _ ih =>
    rw [flatMap_cons, ih, hHead.shares, map_cons, flatten_cons, stretch_append,
      map_append, map_append, map_map, map_map]
    rfl

end Fetched
end SovereignSdk.Celestia
