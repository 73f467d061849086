import SovereignSdk.Celestia.Acceptance

/-! Which blocks can be proven: the node never panics on a valid block, but there are blocks whose
proofs its own verifier rejects. -/
namespace SovereignSdk.Celestia
open Outcome Bounded List CelestiaVerifier

variable {D : DaTypes} {square : ExtendedDataSquare D} {root : Row D → D.NamespacedHash}
  {header : CelestiaHeader D} {ns : D.Namespace}

/-- The namespace is empty, or it has a blob for the rollup, goes on to the end of its first row, and
each of these blobs has as many shares as are counted for its length. -/
def Provable (square : ExtendedDataSquare D) (root : Row D → D.NamespacedHash) (ns : D.Namespace) : Prop :=
  square.shares ns = [] ∨ square.supportedBlobs ns ≠ [] ∧
      square.dataWidth ≤ namespaceStart square root ns + (square.shares ns).length ∧
      ∀ blob ∈ square.supportedBlobs ns, CountedRight blob

theorem Walk.position_eq {rowRoots position stop start proof proofs blobs}
    (h : Walk header rowRoots ns position (proof :: proofs) blobs stop) (hStarts : StartsAt start proof.rangeProofs) :
    position = start := by
  cases h with
  | skipped hFirst _ hStart _ rest =>
    obtain ⟨range, others, more, hRanges, -⟩ := hFirst.ranges
    rw [hRanges] at hStart hStarts
    rw [← hStart range rfl, hStarts.1]
  | accepted hFirst _ hStart _ rest =>
    obtain ⟨range, others, more, hRanges, -⟩ := hFirst.ranges
    rw [hRanges] at hStart hStarts
    rw [← hStart.1, hStarts.1]

section Rejected
variable {q position stop : Nat} {groups : List (List D.ShareData)} {blobs : List (BlobWithSender D)}
  {ranges : List (Nat × Nat)} {proofs : List (BlobProof D)} {rowRoots : List D.NamespacedHash}

section
variable (h : Extracted q groups blobs ranges)
include h

theorem Extracted.position_eq (hProofs : ProvesAll square root ns proofs ranges)
    (hWalk : Walk header rowRoots ns position proofs blobs stop)
    (hPos : position ≤ claimedStart square root ns + q)
    (hStop : claimedStart square root ns + q + groups.flatten.length ≤ stop) :
    position = claimedStart square root ns + q := by
  cases groups with
  | nil =>
    cases h
    cases hProofs
    cases hWalk
    exact Nat.le_antisymm hPos hStop
  | cons group groups =>
    obtain ⟨proof, others, m, rfl, -, hProves⟩ := h.first_proof hProofs
    exact hWalk.position_eq hProves.starts

/-- A blob whose shares are not counted right is not accepted. -/
theorem Extracted.countedRight (hProofs : ProvesAll square root ns proofs ranges)
    (hGroups : groups.flatten = (square.shares ns).drop q)
    (hWalk : Walk header rowRoots ns (claimedStart square root ns + q) proofs blobs stop)
    (hStop : claimedStart square root ns + q + groups.flatten.length ≤ stop) :
    ∀ group ∈ groups, CountedRight group := by
  induction h generalizing proofs with
  | done q => exact fun _ hMem => absurd hMem not_mem_nil
  | @skipped q first tail groups blobs ranges hValid hSupp rest ih =>
    obtain ⟨proof, others, hProves, hOthers, rfl⟩ := forall₂_cons_right_iff.mp hProofs
    rw [flatten_cons] at hGroups
    rw [flatten_cons, length_append] at hStop
    have hCounted : CountedRight (first :: tail) := by
      rintro _ ⟨⟩
      exact hValid.length_of_unsupported hSupp
    have hFirst := hProves.startsWith (by simp) hGroups.symm
    cases hWalk with
    | accepted hFirst' hSupp' =>
      rw [hFirst.unique hFirst', shareOf_data, hSupp] at hSupp'
      cases hSupp'
    | skipped hFirst' _ _ hSkip hRest =>
      cases hFirst.unique hFirst'
      rw [hSkip.occupies, shareOf_data, ← hCounted first rfl, Nat.add_assoc] at hRest
      refine forall_mem_cons.mpr ⟨hCounted, ih hOthers ?_ hRest (by omega)⟩
      rw [← drop_drop, ← hGroups, drop_left]
  | @read q first tail groups blob blobs ranges hValid hSupp _ _ _ rest ih =>
    obtain ⟨proof, others, hProves, hOthers, rfl⟩ := forall₂_cons_right_iff.mp hProofs
    rw [flatten_cons] at hGroups
    rw [flatten_cons, length_append] at hStop
    have hFirst := hProves.startsWith (by simp) hGroups.symm
    cases hWalk with
    | skipped hFirst' hSupp' =>
      rw [hFirst.unique hFirst', shareOf_data, hSupp] at hSupp'
      cases hSupp'
    | accepted hFirst' _ _ hAuth hRest =>
      cases hFirst.unique hFirst'
      have hOccupies := hAuth.occupies
      have hLe := hValid.sharesNeeded_le
      rw [shareOf_data] at hOccupies
      have hNext := rest.position_eq hOthers hRest (by omega) (by omega)
      have hCounted : CountedRight (first :: tail) := by
        rintro _ ⟨⟩
        omega
      rw [hNext] at hRest
      refine forall_mem_cons.mpr ⟨hCounted, ih hOthers ?_ hRest (by omega)⟩
      rw [← drop_drop, ← hGroups, drop_left]

theorem Extracted.length_le : blobs.length ≤ ranges.length := by
  induction h with
  | done q => exact Nat.le_refl 0
  | skipped _ _ rest ih => exact Nat.le_succ_of_le ih
  | read _ _ _ _ _ rest ih => exact Nat.succ_le_succ ih

theorem Extracted.countedRight_of_supported
    (hCounted : ∀ group ∈ groups.filter fun shares => shares.head?.any isSupported, CountedRight group) :
    ∀ group ∈ groups, CountedRight group := by
  induction h with
  | done q => exact fun _ hMem => absurd hMem not_mem_nil
  | skipped hValid hSupp rest ih =>
    rw [filter_cons_of_neg (by simpa using hSupp)] at hCounted
    refine forall_mem_cons.mpr ⟨?_, ih hCounted⟩
    rintro _ ⟨⟩
    exact hValid.length_of_unsupported hSupp
  | read _ hSupp _ _ _ rest ih =>
    rw [filter_cons_of_pos (by simpa using hSupp)] at hCounted
    obtain ⟨hHere, hOthers⟩ := forall_mem_cons.mp hCounted
    exact forall_mem_cons.mpr ⟨hHere, ih hOthers⟩

end

end Rejected

theorem verifyBlobs_of_loop {blobs proofs boundaryProof last} (hBlobs : blobs ≠ [])
    (hRows : header.namespaceRowRoots ns ≠ []) (hLen : blobs.length ≤ proofs.length)
    (hLoop : verifyBlobProofs header (header.namespaceRowRoots ns) ns 0 none proofs blobs = .ok (some last))
    (hEnd : checkNamespaceEndBoundary header (header.namespaceRowRoots ns) ns last boundaryProof = .ok ()) :
    verifyBlobs header blobs ns proofs boundaryProof = .ok () := by
  have hPrevalidated : prevalidateBlobs (header.namespaceRowRoots ns) blobs ns proofs boundaryProof =
      .ok .continueVerification := by
    obtain ⟨rowRoot, others, hCons⟩ := exists_cons_of_ne_nil hRows
    obtain ⟨blob, rest, rfl⟩ := exists_cons_of_ne_nil hBlobs
    rw [hCons]
    exact bind_eq_ok.mpr ⟨(), ensure_eq_ok.mpr hLen, rfl⟩
  simp only [verifyBlobs, hPrevalidated, hLoop]
  exact hEnd

/-- The node proves the blobs, and its verifier accepts that if and only if the namespace can be proven. -/
def Proved (header : CelestiaHeader D) (square : ExtendedDataSquare D) (root : Row D → D.NamespacedHash)
    (data : NamespaceRelevantData D) (blobs : List (BlobWithSender D)) : Prop :=
  ∃ proven, namespaceProofs header data blobs = .ok proven ∧
    (verifyBlobs header proven.blobs data.ns proven.inclusionProof proven.completenessProof = .ok () ↔
      Provable square root data.ns)

section Fetched
variable {data : NamespaceRelevantData D} (hSound : NmtSound square root) (hData : data.IsOf square root)
  (hRoots : header.dah.rowRoots = square.rows.map root) {blobs : List (BlobWithSender D)} {ranges : List (Nat × Nat)}
include hSound hData hRoots

theorem namespaceProofs_nil (hExtr : Extracted 0 (square.blobs data.ns) [] ranges) :
    Proved header square root data [] := by
  have hIncl := newInclusionProof_nil hSound hData hRoots
  have hNone : square.supportedBlobs data.ns = [] := hExtr.blobs_eq_nil_iff.mp rfl
  rcases eq_or_ne (namespaceRows square root data.ns) [] with hEmpty | hRows
  · have hFetch : data.rows = [] := length_eq_zero_iff.mp (by rw [length_rows hData, hEmpty]; rfl)
    have hRowRoots : header.namespaceRowRoots data.ns = [] := by
      rw [namespaceRowRoots_eq hRoots, hEmpty]
      rfl
    refine ⟨⟨[], [], none⟩, ?_, fun _ => .inl (shares_eq_nil_of_rows hSound hData.parity hEmpty), fun _ => ?_⟩
    · simp only [namespaceProofs, hIncl, NamespaceBoundaryProof.fromNamespaceData, hFetch]
      rfl
    · rw [verifyBlobs, hRowRoots]
      rfl
  · rcases eq_or_ne (square.shares data.ns) [] with hNothing | hSome
    · obtain ⟨boundary, row, hBound, hOne, hAbsence⟩ := fromNamespaceData_absence hSound hData hRows hNothing
      refine ⟨⟨[], [], some boundary⟩, ?_, fun _ => .inl hNothing, fun _ => ?_⟩
      · simp only [namespaceProofs, hIncl, hBound]
        rfl
      · simp [verifyBlobs, namespaceRowRoots_eq hRoots, hOne, prevalidateBlobs, hAbsence, ensure, pure, Except.pure]
    · obtain ⟨boundary, hBound, -⟩ := checkNamespaceEndBoundary_of_presence hSound hData hRows hRoots hSome
      refine ⟨⟨[], [], boundary⟩, ?_, fun hAccepted => ?_, fun hProvable => ?_⟩
      · simp only [namespaceProofs, hIncl, hBound]
        rfl
      · have hBlobs := blobs_eq_nil_of_accepted hSound hRoots hData.parity hAccepted
        rw [← flatten_blobs, hBlobs] at hSome
        exact absurd rfl hSome
      · rcases hProvable with hNothing | ⟨hSupp, -⟩
        · exact absurd hNothing hSome
        · exact absurd hNone hSupp

/-- With blobs for the rollup, the proofs are accepted if the namespace can be proven. -/
theorem namespaceProofs_cons (hBlobs : blobs ≠ [])
    (hExtr : Extracted 0 (square.blobs data.ns) blobs ranges) : Proved header square root data blobs := by
  have hSome : square.shares data.ns ≠ [] := by
    intro hNothing
    exact hBlobs (hExtr.blobs_eq_nil (by rw [flatten_blobs, hNothing]))
  have hRows : namespaceRows square root data.ns ≠ [] := fun hNone => hSome (shares_eq_nil_of_rows hSound hData.parity hNone)
  have hInRow := claimedStart_lt hSound hData hRows (length_pos_iff.mpr hSome)
  have hSupp : square.supportedBlobs data.ns ≠ [] := fun hNone => hBlobs (hExtr.blobs_eq_nil_iff.mpr hNone)
  obtain ⟨proofs, hIncl, hProofs⟩ := newInclusionProof_ok hSound hData hRoots hBlobs hExtr
  obtain ⟨boundary, hBound, hEnd⟩ := checkNamespaceEndBoundary_of_presence hSound hData hRows hRoots hSome
  refine ⟨⟨blobs, proofs, boundary⟩, ?_, fun hAccepted => ?_, fun hProvable => ?_⟩
  · simp only [namespaceProofs, hIncl, hBound]
    rfl
  · obtain ⟨-, stop, hWalk, hStop⟩ := walk_of_accepted hSound hRoots hBlobs hAccepted
    have hStart : namespaceStart square root data.ns = claimedStart square root data.ns + 0 := by
      obtain ⟨group, groups, hCons⟩ : ∃ group groups, square.blobs data.ns = group :: groups := by
        refine exists_cons_of_ne_nil fun hNone => hSome ?_
        rw [← flatten_blobs, hNone]
        rfl
      rw [hCons] at hExtr
      obtain ⟨proof, others, m, rfl, -, hProves⟩ := hExtr.first_proof hProofs
      exact hWalk.position_eq hProves.starts
    rw [hStart] at hWalk hStop
    have hCounted := hExtr.countedRight hProofs (flatten_blobs data.ns) hWalk (by rw [flatten_blobs]; exact hStop)
    refine .inr ⟨hSupp, ?_, fun blob hMem => hCounted blob (mem_filter.mp hMem).1⟩
    rcases claimedStart_cases hSound hData hRows with ⟨-, hReaches⟩ | ⟨-, _, -⟩
    · exact hReaches
    · omega
  · obtain ⟨-, _, hCounted⟩ := hProvable.resolve_left hSome
    have hAlign : claimedStart square root data.ns = namespaceStart square root data.ns := by
      rcases claimedStart_cases hSound hData hRows with ⟨hSame, -⟩ | ⟨-, -, _⟩
      · exact hSame
      · omega
    have hLoop := hExtr.verifyBlobProofs_start hRoots (Nat.zero_lt_of_lt hInRow) hData.parity hProofs
      (flatten_blobs data.ns) hSome (hExtr.countedRight_of_supported hCounted) hInRow hAlign
    refine verifyBlobs_of_loop hBlobs ?_ (hExtr.length_le.trans_eq hProofs.length_eq.symm) hLoop hEnd
    rw [namespaceRowRoots_eq hRoots]
    exact fun hNone => hRows (map_eq_nil_iff.mp hNone)

theorem namespaceProofs_ok (hExtr : Extracted 0 (square.blobs data.ns) blobs ranges) :
    Proved header square root data blobs := by
  rcases eq_or_ne blobs [] with rfl | hBlobs
  · exact namespaceProofs_nil hSound hData hRoots hExtr
  · exact namespaceProofs_cons hSound hData hRoots hBlobs hExtr

end Fetched

/-- The rollup reads some of each blob; `requests` are the numbers of bytes that it asks for, one
after another. -/
def readBlobs (requests : Nat → List Nat) (blobs : List (BlobWithSender D)) :
    Except AdapterPanic (List (BlobWithSender D)) :=
  blobs.zipIdx.mapM fun blob => blob.1.advanceAll (requests blob.2)

/-- A slot as the node sees it: the blobs are extracted, read, and proven. -/
def proveBlock (block : FilteredCelestiaBlock D) (batchRequests proofRequests : Nat → List Nat) :
    Except AdapterPanic (NamespaceBlobs D × NamespaceBlobs D) := do
  let blobs ← extractRelevantBlobs block
  let batchBlobs ← readBlobs batchRequests blobs.batchBlobs
  let proofBlobs ← readBlobs proofRequests blobs.proofBlobs
  getExtractionProof block ⟨proofBlobs, batchBlobs⟩

/-- A block of Celestia with the data of both namespaces of the rollup, as they were fetched. -/
structure ValidBlock (block : FilteredCelestiaBlock D) (square : ExtendedDataSquare D)
    (root : Row D → D.NamespacedHash) : Prop where
  header : block.header.IsOf square root
  dah : block.header.validateDah = .ok ()
  batchData : block.rollupBatchData.IsOf square root
  proofData : block.rollupProofData.IsOf square root
  batchValid : ValidNamespace square block.rollupBatchData.ns
  proofValid : ValidNamespace square block.rollupProofData.ns

theorem exists_readBlobs {data : NamespaceRelevantData D} (hSound : NmtSound square root)
    (hData : data.IsOf square root) (hValid : ValidNamespace square data.ns) (requests : Nat → List Nat) :
    ∃ blobs read ranges, data.getBlobsWithSender = .ok blobs ∧ readBlobs requests blobs = .ok read ∧
      Extracted 0 (square.blobs data.ns) read ranges := by
  obtain ⟨blobs, ranges, hBlobs, hExtr⟩ := getBlobsWithSender_ok hSound hData hValid
  obtain ⟨read, ranges', hRead, hExtr'⟩ := hExtr.advanceAll requests 0
  exact ⟨blobs, read, ranges', hBlobs, hRead, hExtr'⟩

/-- The node never panics on a valid block, and its verifier accepts what it proves if and only if
both namespaces can be proven. -/
theorem proveBlock_accepted_iff {block : FilteredCelestiaBlock D} (hSound : NmtSound square root)
    (hBlock : ValidBlock block square root) (batchRequests proofRequests : Nat → List Nat) :
    ∃ batch proof, proveBlock block batchRequests proofRequests = .ok (batch, proof) ∧
      ((mk block.rollupBatchData.ns block.rollupProofData.ns).verifyRelevantTxList block.header
          batch proof = .ok () ↔
        Provable square root block.rollupBatchData.ns ∧ Provable square root block.rollupProofData.ns) := by
  have hRoots := hBlock.header.rowRoots hBlock.dah
  obtain ⟨batchBlobs, batchRead, batchRanges, hBatchBlobs, hBatchRead, hBatch⟩ :=
    exists_readBlobs hSound hBlock.batchData hBlock.batchValid batchRequests
  obtain ⟨proofBlobs, proofRead, proofRanges, hProofBlobs, hProofRead, hProof⟩ :=
    exists_readBlobs hSound hBlock.proofData hBlock.proofValid proofRequests
  obtain ⟨batch, hBatchProven, hBatchAccepted⟩ :=
    namespaceProofs_ok hSound hBlock.batchData hRoots hBatch
  obtain ⟨proof, hProofProven, hProofAccepted⟩ :=
    namespaceProofs_ok hSound hBlock.proofData hRoots hProof
  refine ⟨batch, proof, ?_, ?_⟩
  · simp only [proveBlock, extractRelevantBlobs, hProofBlobs, hBatchBlobs, ok_bind, pure_bind, hBatchRead, hProofRead,
      getExtractionProof, hBatchProven, hProofProven]
    rfl
  · rw [← hBatchAccepted, ← hProofAccepted]
    simp only [verifyRelevantTxList, hBlock.dah, ok_bind, bind_eq_ok, mapError_eq_ok]
    exact ⟨fun ⟨_, hFirst, hSecond⟩ => ⟨hFirst, hSecond⟩, fun ⟨hFirst, hSecond⟩ => ⟨(), hFirst, hSecond⟩⟩

/-- The rows of a square with two shares in the first one; the other data is padding. -/
def paddedRows (left right : Nat × TableShare) : List TableRow :=
  [[left, right, parityLeaf, parityLeaf], [paddingLeaf, paddingLeaf, parityLeaf, parityLeaf],
    [parityLeaf, parityLeaf, parityLeaf, parityLeaf], [parityLeaf, parityLeaf, parityLeaf, parityLeaf]]

section Padded
variable {left right : Nat × TableShare}

theorem paddedRows_row_length : ∀ row ∈ paddedRows left right, row.length = (paddedRows left right).length := by
  simp [paddedRows]

theorem paddedRows_parity : ∀ row ∈ paddedRows left right,
    ∀ leaf ∈ row.drop ((paddedRows left right).length / 2), leaf.1 = tableParity := by
  simp [paddedRows, parityLeaf]

theorem paddedRows_ordered (h : left.1 ≤ right.1 ∧ right.1 ≤ 2) :
    (@dataShares tableTypes ((paddedRows left right).length / 2) (paddedRows left right)).Pairwise
      fun a b => a.1 ≤ b.1 := by
  simp [dataShares, paddedRows, paddingLeaf, parityLeaf, tableParity]
  omega

theorem paddedRows_short
    (h : left.2.length < firstSparseShareContentSize ∧ right.2.length < firstSparseShareContentSize) :
    ∀ row ∈ paddedRows left right, ∀ leaf ∈ row, leaf.2.length < firstSparseShareContentSize := by
  simp only [paddedRows, forall_mem_cons]
  exact ⟨⟨h.1, h.2, by decide⟩, by decide⟩

theorem paddedRows_fits :
    (paddedRows left right).length * ((paddedRows left right).length / 2) ≤ tableTypes.usizeMax := by
  show 4 * (4 / 2) ≤ 2 ^ 32 - 1
  decide

end Padded

def rowSquare (left right : Nat × TableShare) (hOrdered : left.1 ≤ right.1 ∧ right.1 ≤ 2)
    (hShort : left.2.length < firstSparseShareContentSize ∧ right.2.length < firstSparseShareContentSize) :
    ExtendedDataSquare tableTypes where
  rows := paddedRows left right
  row_length := paddedRows_row_length
  parity := paddedRows_parity
  ordered := paddedRows_ordered hOrdered
  sequences ns _ := sequences_of_short (paddedRows_short hShort) ns
  fits := paddedRows_fits

variable (square : ExtendedDataSquare tableTypes)

def rowHeader : CelestiaHeader tableTypes :=
  ⟨⟨square.rows, square.rows⟩, some (square.rows, square.rows)⟩

def rowBlock : FilteredCelestiaBlock tableTypes :=
  ⟨rowHeader square, tableData square 1, tableData square 3⟩

theorem rowBlock_valid {square : ExtendedDataSquare tableTypes} (hData : isTableData square 1 && isTableData square 3)
    (hBlobs : ∀ ns ∈ [1, 3], ∀ blob ∈ square.blobs ns, isValidTableBlob blob = true) :
    ValidBlock (rowBlock square) square id where
  header := ⟨square.rows, by simp [rowBlock, rowHeader], fun _ => by simp [rowBlock, rowHeader]⟩
  dah := by
    simp [rowBlock, rowHeader, CelestiaHeader.validateDah, ensure]
  batchData := tableData_isOf (Bool.and_eq_true_iff.mp hData).1 (by decide)
  proofData := tableData_isOf (Bool.and_eq_true_iff.mp hData).2 (by decide)
  batchValid := validNamespace_of_table (hBlobs 1 (by decide))
  proofValid := validNamespace_of_table (hBlobs 3 (by decide))

def otherBlobShare : TableShare := ⟨0, true, 1, 0, [30]⟩

/-- A blob of two shares: with its signer, 460 bytes do not fit into one. -/
def longBlobShare : TableShare := ⟨1, true, 460, 7, [40]⟩

def longBlobTail : TableShare := ⟨1, false, 0, 0, [50]⟩

def otherBlobsSquare : ExtendedDataSquare tableTypes :=
  rowSquare (1, otherBlobShare) (1, otherBlobShare) (by decide) (by decide)

def leftBlobSquare : ExtendedDataSquare tableTypes :=
  rowSquare (1, firstBlobShare) paddingLeaf (by decide) (by decide)

def longBlobSquare : ExtendedDataSquare tableTypes :=
  rowSquare (1, longBlobShare) (1, longBlobTail) (by decide) (by decide)

/-- A valid block of which the node's proofs are rejected. -/
structure Rejected (square : ExtendedDataSquare tableTypes) (error : NamespaceValidationError) : Prop where
  sound : NmtSound square id
  valid : ValidBlock (rowBlock square) square id
  rejected : (proveBlock (rowBlock square) (fun _ => [1]) fun _ => []).map (fun proven =>
      (mk (rowBlock square).rollupBatchData.ns (rowBlock square).rollupProofData.ns).verifyRelevantTxList
        (rowBlock square).header proven.1 proven.2) = .ok (.error (.error (.namespaceValidationError .batch error)))

/-- Three blobs that make a slot unprovable: one that is not for the rollup and alone in the
namespace, one that ends before its row does, and one whose shares are counted wrong. -/
theorem blobs_make_slot_unprovable :
    Rejected otherBlobsSquare (.incompleteNamespace (.proofError .invalid)) ∧
      Rejected leftBlobSquare (.invalidRowProof (.wrongStartShareIndex 1 0)) ∧
      Rejected longBlobSquare (.incompleteNamespace .missingBlobs) := by
  refine ⟨⟨tableTypes_sound _, rowBlock_valid ?_ ?_, ?_⟩, ⟨tableTypes_sound _, rowBlock_valid ?_ ?_, ?_⟩,
    ⟨tableTypes_sound _, rowBlock_valid ?_ ?_, ?_⟩⟩
  all_goals decide +kernel

def fullRowSquare : ExtendedDataSquare tableTypes :=
  rowSquare (1, firstBlobShare) (1, secondBlobShare) (by decide) (by decide)

/-- With one byte read of each of them, the two blobs are accepted. -/
theorem full_row_accepted :
    ∃ batch proof, proveBlock (rowBlock fullRowSquare) (fun _ => [1]) (fun _ => []) = .ok (batch, proof) ∧
      (mk (rowBlock fullRowSquare).rollupBatchData.ns
        (rowBlock fullRowSquare).rollupProofData.ns).verifyRelevantTxList (rowBlock fullRowSquare).header batch
          proof = .ok () := by
  have hBlock : ValidBlock (rowBlock fullRowSquare) fullRowSquare id :=
    rowBlock_valid (by decide +kernel) (by decide +kernel)
  obtain ⟨batch, proof, hProven, hAccepted⟩ :=
    proveBlock_accepted_iff (tableTypes_sound _) hBlock (fun _ => [1]) fun _ => []
  have hCounted : ∀ blob ∈ fullRowSquare.supportedBlobs (1 : Nat), CountedRight blob := by
    rintro blob (_ | ⟨_, _ | ⟨_, hMem⟩⟩)
    · rintro _ ⟨⟩
      rfl
    · rintro _ ⟨⟩
      rfl
    · exact absurd hMem not_mem_nil
  exact ⟨batch, proof, hProven, hAccepted.mpr ⟨.inr ⟨by decide, by decide, hCounted⟩, .inl (by decide)⟩⟩

end SovereignSdk.Celestia
