import SovereignSdk.Celestia.Layout

/-! Rows that are their own roots: an instance of the Celestia types on which the verifier can be
run, and in which proofs say what is assumed of namespaced Merkle trees. -/
namespace SovereignSdk.Celestia
open List Bool

structure TableShare where
  version : Nat
  isStart : Bool
  length : Nat
  signer : Nat
  bytes : List UInt8
deriving DecidableEq, Repr

namespace TableShare
variable (share : TableShare)

/-- A start share of version 1 has room for less, by the twenty bytes of the signer. -/
def capacity : Nat :=
  if share.isStart then if share.version = 1 then 458 else firstSparseShareContentSize
  else continuationSparseShareContentSize

def payload : List UInt8 := share.bytes ++ List.replicate (share.capacity - share.bytes.length) 0

theorem length_payload : share.payload.length = max share.bytes.length share.capacity := by
  rw [payload, length_append, length_replicate]
  omega

end TableShare

abbrev TableRow := List (Nat × TableShare)

/-- A range of a row with the leaves next to it. -/
structure TableProof where
  start : Nat
  left : Option (Nat × TableShare)
  right : Option (Nat × TableShare)
  isOfPresence : Bool
deriving DecidableEq, Repr

namespace TableProof

def verifyRange (proof : TableProof) (row : TableRow) (leaves : List TableShare) (ns : Nat) : Bool :=
  (row.drop proof.start).take leaves.length = leaves.map (fun data => (ns, data)) ∧
    proof.left = (if proof.start = 0 then none else row[proof.start - 1]?) ∧
    proof.right = row[proof.start + leaves.length]?

def narrowRange (proof : TableProof) (left right : List TableShare) (ns : Nat) : TableProof where
  start := proof.start + left.length
  left := (left.getLast?.map fun data => (ns, data)).or proof.left
  right := (right.head?.map fun data => (ns, data)).or proof.right
  isOfPresence := proof.isOfPresence

end TableProof

def tableParity : Nat := 255

/-- The root of a row names its smallest and its largest namespace. Parity data counts only in a row
that has nothing else. -/
def tableContains (row : TableRow) (ns : Nat) : Bool :=
  let counted := if row.all (·.1 == tableParity) then row else row.filter (·.1 != tableParity)
  counted.any (·.1 ≤ ns) && counted.any (ns ≤ ·.1)

variable {row : TableRow} {ns : Nat}

theorem tableContains_of_mem {leaf} (h : leaf ∈ row) (hParity : leaf.1 ≠ tableParity) :
    tableContains row leaf.1 = true := by
  have hData : ¬row.all (·.1 == tableParity) = true := by
    simp only [all_eq_true, beq_iff_eq]
    exact fun hAll => hParity (hAll leaf h)
  have hMem : leaf ∈ row.filter (·.1 != tableParity) := mem_filter.mpr ⟨h, by simpa using hParity⟩
  simp only [tableContains, if_neg hData, and_eq_true, any_eq_true, decide_eq_true_eq]
  exact ⟨⟨leaf, hMem, Nat.le_refl _⟩, leaf, hMem, Nat.le_refl _⟩

variable {proof : TableProof} {leaves : List TableShare}

theorem TableProof.verifyRange_iff :
    proof.verifyRange row leaves ns = true ↔
      (row.drop proof.start).take leaves.length = leaves.map (fun data => (ns, data)) ∧
        proof.left = (if proof.start = 0 then none else row[proof.start - 1]?) ∧
        proof.right = row[proof.start + leaves.length]? := by
  simp [verifyRange]

theorem TableProof.left_of_verifyRange (h : proof.verifyRange row leaves ns = true) (hStart : 0 < proof.start) :
    proof.left = row[proof.start - 1]? := by
  rw [(verifyRange_iff.mp h).2.1, if_neg (Nat.pos_iff_ne_zero.mp hStart)]

def tableComplete (row : TableRow) (leaves : List TableShare) (ns : Nat) : Bool :=
  (row.filter fun leaf => leaf.1 = ns).map Prod.snd = leaves

theorem ne_of_tableComplete (h : tableComplete row [] ns = true) : ∀ leaf ∈ row, leaf.1 ≠ ns := by
  simpa [tableComplete] using h

@[reducible] def tableTypes : DaTypes where
  Namespace := Nat
  ShareData := TableShare
  Address := Nat
  Hash := List TableRow × List TableRow
  NamespacedHash := TableRow
  NamespaceProof := TableProof
  Commitment := List TableShare
  namespaceOrder := inferInstance
  shareDataDecEq := inferInstance
  addressDecEq := inferInstance
  hashDecEq := inferInstance
  parityShare := tableParity
  versionField := TableShare.version
  sequenceStartField := TableShare.isStart
  sequenceLengthField := TableShare.length
  signerField := TableShare.signer
  payloadField := TableShare.payload
  minNamespace row := (row.head?.map Prod.fst).getD 0
  maxNamespace row := (row.getLast?.map Prod.fst).getD 0
  contains := tableContains
  startIdx := TableProof.start
  leftmostRightSibling proof := proof.right.map ([·])
  rightmostLeftSibling proof := proof.left.map ([·])
  verifyRange := TableProof.verifyRange
  verifyCompleteNamespace _ := tableComplete
  isOfPresence := TableProof.isOfPresence
  narrowRange proof left right ns := some (proof.narrowRange left right ns)
  commitmentFromShares _ shares := some shares
  validateBasic dah := dah.rowRoots.length = dah.columnRoots.length
  dahHash dah := (dah.rowRoots, dah.columnRoots)
  usizeMax := 2 ^ 32 - 1
  usizeMax_le := by decide

variable (square : ExtendedDataSquare tableTypes)

theorem tableTypes_sound : NmtSound square id where
  contains := by
    rintro row ns _ hParity hNot leaf hLeaf rfl
    exact false_ne_true (hNot.symm.trans (tableContains_of_mem hLeaf hParity))
  range _ _ hVer := (TableProof.verifyRange_iff.mp hVer).1
  left := by
    intro row proof leaves ns sibling _ _ _ hVer hStart hSib
    obtain ⟨leaf, hLeaf, rfl⟩ := Option.map_eq_some_iff.mp hSib
    exact ⟨leaf, (TableProof.left_of_verifyRange hVer hStart).symm.trans hLeaf, rfl⟩
  right := by
    intro row proof leaves ns sibling _ _ _ hVer hSib
    obtain ⟨-, -, hRight⟩ := TableProof.verifyRange_iff.mp hVer
    obtain ⟨leaf, hLeaf, rfl⟩ := Option.map_eq_some_iff.mp hSib
    exact ⟨leaf, hRight.symm.trans hLeaf, rfl⟩
  complete _ _ hVer := ne_of_tableComplete hVer

theorem sequences_of_short {D : DaTypes} {k rows}
    (hShort : ∀ row ∈ rows, ∀ leaf ∈ row, D.sequenceLengthField leaf.2 < firstSparseShareContentSize)
    (ns : D.Namespace) : ∀ blob ∈ blobsOf (sharesOf k rows ns), ∀ first ∈ blob.head?,
      D.sequenceStartField first = true → sharesNeededForBytes (D.sequenceLengthField first) ≤ blob.length := by
  intro blob hBlob first hFirst _
  obtain ⟨_, rest, rfl, -⟩ := blobsOf_cons hBlob
  cases hFirst
  have hMem : first ∈ sharesOf k rows ns := by
    rw [← flatten_splitBy (fun _ next => !D.sequenceStartField next) (sharesOf k rows ns)]
    exact mem_flatten.mpr ⟨_, hBlob, mem_cons_self⟩
  obtain ⟨leaf, hLeaf, rfl⟩ := mem_map.mp hMem
  obtain ⟨_, hTaken, hIn⟩ := mem_flatten.mp (mem_filter.mp hLeaf).1
  obtain ⟨row, hRow, rfl⟩ := mem_map.mp hTaken
  rw [sharesNeededForBytes, if_pos (hShort row hRow leaf (mem_of_mem_take hIn))]
  exact Nat.le_add_left 1 _

/-! The data of a namespace, fetched from a square of tables. -/
open Segments

/-- The shares of a namespace in one row, with their neighbours. -/
def tableRowData (k ns : Nat) (row : TableRow) : RowNamespaceData tableTypes :=
  let start := (lower Prod.fst ns (row.take k)).length
  let shares := stretch Prod.fst ns (row.take k)
  ⟨⟨start, if start = 0 then none else row[start - 1]?, row[start + shares.length]?, !shares.isEmpty⟩,
    shares.map fun leaf => ⟨leaf.2, false⟩⟩

def tableData (ns : Nat) : NamespaceRelevantData tableTypes :=
  ⟨ns, (namespaceRows square id ns).map (tableRowData square.dataWidth ns)⟩

variable {k ns : Nat} {row : TableRow}

/-- What is fetched of the square is complete, and every part of the shares of a row can be proven. -/
def isTableData (ns : Nat) : Bool :=
  square.rows.all fun row =>
    let data := row.take square.dataWidth
    let shares := (stretch Prod.fst ns data).map Prod.snd
    (!shares.isEmpty || tableComplete row [] ns) &&
      (!tableContains row ns || data.any (fun leaf => leaf.1 ≤ ns) && data.any fun leaf => ns ≤ leaf.1) &&
      (List.range (shares.length + 1)).all fun i => (List.range (shares.length + 1)).all fun j =>
        ((tableRowData square.dataWidth ns row).proof.narrowRange (shares.take i) (shares.drop (i + j)) ns).verifyRange
          row ((shares.drop i).take j) ns

section Square
variable {square : ExtendedDataSquare tableTypes} (h : isTableData square ns = true)
include h

theorem tableRowData_isOf (hRow : row ∈ square.rows) :
    (tableRowData square.dataWidth ns row).IsOf square id ns row := by
  have hChk := all_eq_true.mp h row hRow
  simp only [and_eq_true, or_eq_true, all_eq_true] at hChk
  refine ⟨rfl, by simp [tableRowData], fun hEmpty => ?_, fun left mid right hShares _ => ?_⟩
  · refine hChk.1.1.resolve_left ?_
    simp [map_eq_nil_iff.mp hEmpty]
  · have hData : (stretch Prod.fst ns (row.take square.dataWidth)).map Prod.snd = left ++ (mid ++ right) := by
      rw [← hShares, tableRowData, map_map]
      rfl
    have hLen := congrArg length hData
    rw [length_append, length_append] at hLen
    have hVer := hChk.2 left.length (mem_range.mpr (by omega)) mid.length (mem_range.mpr (by omega))
    rw [hData, ← drop_drop, take_left, drop_left, take_left, drop_left] at hVer
    obtain ⟨-, _, hRight⟩ := TableProof.verifyRange_iff.mp hVer
    refine ⟨_, rfl, hVer, rfl, fun hPos => ?_, ?_⟩
    · rw [← TableProof.left_of_verifyRange hVer hPos]
      rw [Option.map_map]
      rfl
    · rw [← hRight]
      rw [Option.map_map]
      rfl

theorem tableData_isOf (hParity : ns ≠ tableParity) : (tableData square ns).IsOf square id where
  parity := hParity
  rows := by
    refine forall₂_map_left_iff.mpr (forall₂_same.mpr fun row hRow => ?_)
    exact tableRowData_isOf h (mem_rows hRow)
  covers := by
    intro row hRow hContains
    have hContains : tableContains row ns = true := hContains
    have hChk := all_eq_true.mp h row hRow
    simp only [and_eq_true] at hChk
    simpa [hContains, tableData] using hChk.1.2

end Square

/-- The fields of a start share and of those that continue it are as Celestia lays them out. -/
def isValidTableBlob : List TableShare → Bool
  | [] => false
  | first :: tail =>
    first.isStart && (first.version == 0 || first.version == 1) &&
      first.bytes.length ≤ startCapacity first.version &&
      tail.all (fun share => !share.isStart && share.bytes.length ≤ continuationSparseShareContentSize) &&
      tail.length + 1 == sharesOfLength (startCapacity first.version) first.length

theorem isValidTableBlob_cons {first tail}
    (h : isValidTableBlob (first :: tail) = true) : @ValidBlob tableTypes first tail := by
  simp only [isValidTableBlob, and_eq_true, or_eq_true, beq_iff_eq, decide_eq_true_eq, all_eq_true,
    not_eq_true'] at h
  obtain ⟨⟨⟨⟨hStart, hVers⟩, hFirst⟩, hTail⟩, hCount⟩ := h
  refine ⟨hStart, hVers, ?_, fun share hMem => ?_, hCount⟩
  · refine first.length_payload.trans ?_
    rw [TableShare.capacity, if_pos hStart]
    exact Nat.max_eq_right hFirst
  · obtain ⟨hContinues, hBytes⟩ := hTail share hMem
    refine share.length_payload.trans ?_
    rw [TableShare.capacity, hContinues]
    exact Nat.max_eq_right hBytes

theorem validNamespace_of_table {square : ExtendedDataSquare tableTypes}
    (h : ∀ blob ∈ square.blobs ns, isValidTableBlob blob = true) : ValidNamespace square ns := by
  intro blob hMem
  refine ⟨?_, rfl⟩
  cases blob with
  | nil => exact absurd (h [] hMem) false_ne_true
  | cons first tail => exact ⟨first, tail, rfl, isValidTableBlob_cons (h _ hMem)⟩

end SovereignSdk.Celestia
