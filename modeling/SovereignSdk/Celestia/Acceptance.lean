import SovereignSdk.Celestia.Completeness
import SovereignSdk.Celestia.Sequences

/-! The checks of the verifier, on proofs as the node makes them. -/
namespace SovereignSdk.Celestia
open Outcome Bounded BlobProof List NamespaceBoundaryProof CelestiaHeader Nat

variable {D : DaTypes} {header : CelestiaHeader D} {rowRoots : List D.NamespacedHash} {ns : D.Namespace}

/-- Every one of the shares, before which there are `before` bytes, starts within the bytes read. -/
def Reached (read : List UInt8) (before : Nat) (shares : List (Share D)) : Prop :=
  ∀ pre share post, shares = pre ++ share :: post → before + (payloadOf pre).length ≤ read.length

theorem payloadOf_append (shares shares' : List (Share D)) :
    payloadOf (shares ++ shares') = payloadOf shares ++ payloadOf shares' := List.flatMap_append

variable {read : List UInt8} {before : Nat} {shares shares' : List (Share D)}

theorem Reached.left (h : Reached read before (shares ++ shares')) : Reached read before shares := by
  rintro pre share post rfl
  exact h pre share (post ++ shares') (by simp)

theorem Reached.right (h : Reached read before (shares ++ shares')) :
    Reached read (before + (payloadOf shares).length) shares' := by
  rintro pre share post rfl
  have hHere := h (shares ++ pre) share post (by simp)
  rwa [payloadOf_append, length_append, ← add_assoc] at hHere

theorem matchShareData_of_isPrefix {read before after share check}
    (hData : share.isParity = false) (hStart : check.startBlobDataIdx = before.length)
    (hReach : before.length ≤ read.length) (hRead : read <+: before ++ (D.payloadField share.data ++ after)) :
    matchShareData read share check =
      .ok { check with startBlobDataIdx := before.length + (D.payloadField share.data).length } := by
  obtain ⟨rest, hRest⟩ := hRead
  have hDrop : read.drop before.length ++ rest = D.payloadField share.data ++ after := by
    have hBoth := congrArg (drop before.length) hRest
    rwa [drop_left, drop_append_of_le_length hReach] at hBoth
  simp only [matchShareData, payload_of_not_parity hData, unwrap_some, ok_bind, hStart]
  split
  · have hSame : read.drop before.length = (D.payloadField share.data).take (read.length - before.length) := by
      have hTake := congrArg (take (read.length - before.length)) hDrop
      rwa [take_append_of_le_length (by rw [length_drop]), take_of_length_le (by rw [length_drop]),
        take_append_of_le_length (by omega)] at hTake
    exact bind_eq_ok.mpr ⟨(), ensure_eq_ok.mpr hReach, bind_eq_ok.mpr ⟨(), ensure_eq_ok.mpr hSame, rfl⟩⟩
  · have hSame : (read.drop before.length).take (D.payloadField share.data).length = D.payloadField share.data := by
      have hTake := congrArg (take (D.payloadField share.data).length) hDrop
      rwa [take_append_of_le_length (by rw [length_drop]; omega), take_left] at hTake
    exact bind_eq_ok.mpr ⟨(), ensure_eq_ok.mpr hSame, rfl⟩

section Compared
variable {blob : BlobWithSender D} {after : List UInt8}

theorem foldlM_authenticateShare {rangeIdx i shares check before} (hLater : rangeIdx ≠ 0 ∨ i ≠ 0)
    (hData : ∀ share ∈ shares, share.isParity = false)
    (hStart : check.startBlobDataIdx = before.length) (hReach : Reached blob.accumulator before.length shares)
    (hRead : blob.accumulator <+: before ++ (payloadOf shares ++ after)) :
    (shares.zipIdx i).foldlM (authenticateShare blob rangeIdx) check =
      .ok { check with startBlobDataIdx := before.length + (payloadOf shares).length } := by
  induction shares generalizing check i before with
  | nil =>
    obtain ⟨proven, idx, length⟩ := check
    cases hStart
    rfl
  | cons share rest ih =>
    have hLoad : payloadOf (share :: rest) = D.payloadField share.data ++ payloadOf rest := flatMap_cons
    have hNot : ¬(rangeIdx = 0 ∧ i = 0) := fun hBoth => hLater.elim (· hBoth.1) (· hBoth.2)
    rw [hLoad, append_assoc] at hRead
    have hHere := matchShareData_of_isPrefix (hData share mem_cons_self) hStart
      (by simpa [payloadOf] using hReach [] share rest rfl) hRead
    rw [zipIdx_cons, foldlM_cons]
    simp only [authenticateShare, if_neg hNot, pure_bind, hHere, ok_bind]
    rw [@ih (i + 1) { check with startBlobDataIdx := before.length + (D.payloadField share.data).length }
      (before ++ D.payloadField share.data) (.inr (succ_ne_zero i))
      (fun other hMem => hData other (mem_cons_of_mem share hMem)) length_append.symm ?_
      (by rwa [append_assoc])]
    · rw [hLoad, length_append, length_append, add_assoc]
    · have hRight := (show Reached blob.accumulator before.length ([share] ++ rest) from hReach).right
      simpa [payloadOf] using hRight

theorem authenticateRange_of_checked {check mid range i}
    (hChk : range.Checked header rowRoots ns)
    (hShares : range.shares.zipIdx.foldlM (authenticateShare blob i) check = .ok mid) :
    authenticateRange header rowRoots ns blob check (range, i) =
      .ok { mid with sharesProven := mid.sharesProven + range.shares.length } := by
  obtain ⟨rowRoot, hRoot, hVer⟩ := hChk.verified
  simp only [authenticateRange, calculateRowNumberForShare, bind_eq_ok, ensure_eq_ok, unwrap_eq_ok]
  exact ⟨_, ⟨(), hChk.width, rfl⟩, rowRoot, hRoot, mid, hShares, (), hVer, rfl⟩

theorem foldlM_authenticateRange {i : Nat} {ranges : List (RangeProof D)} {check : BlobCheck} {before : List UInt8}
    (hLater : i ≠ 0) (hChk : ∀ range ∈ ranges, range.Checked header rowRoots ns)
    (hData : ∀ share ∈ ranges.flatMap (·.shares), share.isParity = false)
    (hStart : check.startBlobDataIdx = before.length)
    (hReach : Reached blob.accumulator before.length (ranges.flatMap (·.shares)))
    (hRead : blob.accumulator <+: before ++ (payloadOf (ranges.flatMap (·.shares)) ++ after)) :
    (ranges.zipIdx i).foldlM (authenticateRange header rowRoots ns blob) check =
      .ok ⟨check.sharesProven + (ranges.flatMap (·.shares)).length,
        before.length + (payloadOf (ranges.flatMap (·.shares))).length, check.sequenceLength⟩ := by
  induction ranges generalizing check i before with
  | nil =>
    obtain ⟨proven, idx, length⟩ := check
    cases hStart
    rfl
  | cons range rest ih =>
    rw [flatMap_cons] at hData hReach hRead ⊢
    rw [payloadOf_append, append_assoc] at hRead
    have hHere := foldlM_authenticateShare (i := 0) (.inl hLater)
      (fun share hMem => hData share (mem_append_left _ hMem)) hStart hReach.left hRead
    rw [zipIdx_cons, foldlM_cons, authenticateRange_of_checked (hChk range mem_cons_self) hHere, ok_bind]
    rw [@ih (i + 1) _ (before ++ payloadOf range.shares) (succ_ne_zero i)
      (fun other hMem => hChk other (mem_cons_of_mem range hMem))
      (fun share hMem => hData share (mem_append_right _ hMem)) length_append.symm
      (by rw [length_append]; exact hReach.right) (by rwa [append_assoc])]
    rw [payloadOf_append]
    simp only [length_append, add_assoc]

theorem authenticateBlobData_of_checked {proof : BlobProof D} {first : Share D} {length : Nat}
    (hParity : ns ≠ D.parityShare) (hCount : proof.shares.length = max (sharesNeededForBytes blob.accumulator.length) 1)
    (hChk : ∀ range ∈ proof.rangeProofs, range.Checked header rowRoots ns)
    (hData : ∀ share ∈ proof.shares, share.isParity = false) (hFirst : proof.StartsWith first)
    (hSigner : first.signer = some blob.sender) (hLen : first.sequenceLength = some length)
    (hReach : Reached blob.accumulator 0 proof.shares)
    (hRead : blob.accumulator <+: payloadOf proof.shares ++ after) :
    authenticateBlobData header rowRoots ns blob proof = .ok (sharesNeededForBytes length) := by
  obtain ⟨range, rest, more, hRanges, hShares⟩ := hFirst.ranges
  have hAll : proof.shares = first :: more ++ rest.flatMap (·.shares) := by
    rw [shares, hRanges, flatMap_cons, hShares]
  have hSum : (proof.rangeProofs.map (·.shares.length)).sum = proof.shares.length := by
    rw [shares, length_flatMap]
  rw [hAll] at hData hReach hRead
  rw [payloadOf_append, append_assoc] at hRead
  have hNotParity := hData first mem_cons_self
  have hLoad : payloadOf (first :: more) = D.payloadField first.data ++ payloadOf more := flatMap_cons
  -- The first share names the length, and is then compared like the others.
  have hLoop : range.shares.zipIdx.foldlM (authenticateShare blob 0) ⟨0, 0, none⟩ =
      .ok ⟨0, (payloadOf (first :: more)).length, some length⟩ := by
    rw [hLoad, append_assoc] at hRead
    have hHere := @matchShareData_of_isPrefix _ blob.accumulator [] _ first ⟨0, 0, some length⟩ hNotParity rfl
      (zero_le _) hRead
    have hOthers := @foldlM_authenticateShare _ blob (payloadOf (rest.flatMap (·.shares)) ++ after) 0 1 more
      ⟨0, (D.payloadField first.data).length, some length⟩ (D.payloadField first.data) (.inr one_ne_zero)
      (fun share hMem => hData share (mem_append_left _ (mem_cons_of_mem first hMem))) rfl ?_ hRead
    · rw [hShares, zipIdx_cons, foldlM_cons, authenticateShare, if_pos ⟨rfl, rfl⟩, hSigner]
      simp only [unwrap_some, ok_bind, ensure, if_true, pure_bind, hLen]
      rw [hHere, length_nil, zero_add, ok_bind, hOthers, hLoad, length_append]
    · have hRight := (show Reached blob.accumulator 0 ([first] ++ more) from hReach.left).right
      simpa [payloadOf] using hRight
  have hFirstRange := authenticateRange_of_checked (hChk range (hRanges ▸ mem_cons_self)) hLoop
  have hRest := @foldlM_authenticateRange _ header rowRoots ns blob after 1 rest
    ⟨0 + range.shares.length, (payloadOf (first :: more)).length, some length⟩ (payloadOf (first :: more))
    one_ne_zero (fun other hMem => hChk other (hRanges ▸ mem_cons_of_mem range hMem))
    (fun share hMem => hData share (mem_append_right _ hMem)) rfl (by simpa using hReach.right) hRead
  simp only [authenticateBlobData, bind_eq_ok, ensure_eq_ok, unwrap_eq_ok]
  have hRanges : proof.rangeProofs.zipIdx.foldlM (authenticateRange header rowRoots ns blob) ⟨0, 0, none⟩ =
      .ok ⟨0 + range.shares.length + (rest.flatMap (·.shares)).length,
        (payloadOf (first :: more)).length + (payloadOf (rest.flatMap (·.shares))).length, some length⟩ := by
    rw [hRanges, zipIdx_cons, foldlM_cons, hFirstRange]
    exact hRest
  refine ⟨(), hParity, (), hCount.symm.trans hSum.symm, _, hRanges, (), ?_, length, rfl, rfl⟩
  rw [← hCount, hAll, length_append, hShares, zero_add]

end Compared

theorem enforceContinuity_of_startsAt {start : Nat} {ranges : List (RangeProof D)} (h : StartsAt start ranges)
    (hUsize : ∀ range ∈ ranges, range.startShareIdx ≤ D.usizeMax) : enforceContinuity.go ranges = .ok () := by
  induction ranges generalizing start with
  | nil => rfl
  | cons range rest ih =>
    obtain ⟨rfl, hRest⟩ := h
    cases rest with
    | nil => rfl
    | cons next rest =>
      have hNext := hUsize next (mem_cons_of_mem range mem_cons_self)
      refine bind_eq_ok.mpr ⟨(), ensure_eq_ok.mpr ?_, ih hRest fun r hr => hUsize r (mem_cons_of_mem range hr)⟩
      rw [hRest.1] at hNext ⊢
      unfold saturatingAdd
      omega

variable {proof : BlobProof D}

theorem BlobProof.StartsWith.firstShare {first} (h : proof.StartsWith first) : proof.firstShare = .ok first := by
  obtain ⟨range, rest, more, hRanges, hShares⟩ := h.ranges
  simp [BlobProof.firstShare, hRanges, hShares]

theorem isSupportedBlob_of_startsWith {first}
    (h : proof.StartsWith (shareOf first)) : proof.isSupportedBlob = .ok (isSupported first) := by
  simp only [isSupportedBlob, bind_eq_ok, unwrap_eq_ok, h.firstShare]
  refine ⟨_, rfl, _, shareOf_infoByte first, ?_⟩
  rw [NamespaceDataIterator.isTailPadding_shareOf]
  rfl

theorem verifySkippedBlob_of_checked {first tail}
    (hFirst : proof.StartsWith (shareOf first)) (hValid : ValidBlob first tail) (hSupp : isSupported first = false)
    (hChk : ∀ range ∈ proof.rangeProofs, range.Checked header rowRoots ns) :
    verifySkippedBlob header rowRoots ns proof = .ok (sharesNeededForBytes (D.sequenceLengthField first)) := by
  obtain ⟨range, rest, more, hRanges, -⟩ := hFirst.ranges
  have hRange := hChk range (hRanges ▸ mem_cons_self)
  obtain ⟨rowRoot, hRoot, hVer⟩ := hRange.verified
  have hProof : verifyRangeProof header rowRoots ns range = .ok () := by
    simp only [verifyRangeProof, calculateRowNumberForShare, bind_eq_ok, ensure_eq_ok, unwrap_eq_ok]
    exact ⟨_, ⟨(), hRange.width, rfl⟩, rowRoot, hRoot, hVer⟩
  have hFirstShare : (proof.firstShare.mapError fun e => Failure.error (NamespaceValidationError.invalidRowProof e)) =
      .ok (shareOf first) := mapError_eq_ok.mpr hFirst.firstShare
  rw [verifySkippedBlob, hFirstShare]
  simp only [ok_bind, shareOf_infoByte, unwrap_some, shareOf_sequenceLength hValid.start, hRanges, head?_cons, hProof]
  split
  · exact bind_eq_ok.mpr ⟨(), ensure_eq_ok.mpr rfl, rfl⟩
  · rename_i hSome
    refine bind_eq_ok.mpr ⟨(), ensure_eq_ok.mpr ?_, rfl⟩
    rw [(hValid.unsupported_cases hSupp).resolve_left hSome]
    decide

section Proven
variable {square : ExtendedDataSquare D} {root : Row D → D.NamespacedHash} {proof : BlobProof D} {q m : Nat}
  {group after : List D.ShareData}

theorem RangeProof.Proven.checked {range : RangeProof D} (h : range.Proven square root ns)
    (hRoots : header.dah.rowRoots = square.rows.map root) (hWidth : 0 < square.dataWidth) :
    range.Checked header (header.namespaceRowRoots ns) ns := by
  obtain ⟨row, hRow, hVer, -⟩ := h.row
  refine ⟨by rw [rowLength_eq hRoots]; omega, root row, ?_, hVer⟩
  rw [rowLength_eq hRoots, namespaceRowRoots_eq hRoots, getElem?_map, hRow]
  rfl

theorem BlobProof.Proves.shares_eq (h : proof.Proves square root ns q m)
    (hShares : (square.shares ns).drop q = group ++ after) (hm : m ≤ group.length) :
    proof.shares = (group.take m).map shareOf := by
  rw [h.shares, fetchedShares, ← map_drop, ← map_take, hShares, take_append_of_le_length hm]

variable {first : D.ShareData}

theorem BlobProof.Proves.startsWith (h : proof.Proves square root ns q m) (hm : 0 < m)
    (hShares : (square.shares ns).drop q = first :: after) : proof.StartsWith (shareOf first) := by
  have hAll : proof.shares = shareOf first :: (after.take (m - 1)).map shareOf := by
    rw [h.shares, fetchedShares, ← map_drop, ← map_take, hShares, take_cons hm, map_cons]
  cases hRanges : proof.rangeProofs with
  | nil =>
    rw [BlobProof.shares, hRanges] at hAll
    cases hAll
  | cons range rest =>
    cases hHere : range.shares with
    | nil => exact absurd hHere (h.proven range (hRanges ▸ mem_cons_self)).nonempty
    | cons share more =>
      rw [BlobProof.shares, hRanges, flatMap_cons, hHere] at hAll
      refine ⟨range, rest, more, hRanges, ?_⟩
      rw [hHere, (cons.inj hAll).1]

variable {tail : List D.ShareData}

theorem ValidBlob.reached (h : ValidBlob first tail) (read : List UInt8) :
    Reached read 0 (((first :: tail).take (max (sharesNeededForBytes read.length) 1)).map shareOf) := by
  intro pre share post hSplit
  have hPre : pre = ((first :: tail).take pre.length).map shareOf ∧
      pre.length < max (sharesNeededForBytes read.length) 1 := by
    have hTake := congrArg (take pre.length) hSplit
    have hLen := congrArg length hSplit
    simp only [length_map, length_take, length_append, length_cons] at hLen
    have hLt : pre.length < max (sharesNeededForBytes read.length) 1 := by omega
    rw [take_left, ← map_take, take_take, min_eq_left (le_of_lt hLt)] at hTake
    exact ⟨hTake.symm, hLt⟩
  obtain ⟨hPre, hLt⟩ := hPre
  rw [hPre, payloadOf_map_shareOf]
  generalize pre.length = j at hLt
  cases j with
  | zero => simp
  | succ j =>
    have hTail : ((tail.take j).flatMap D.payloadField).length ≤ j * continuationSparseShareContentSize := by
      rw [length_flatMap_payloadField fun share hMem => h.payload share (mem_of_mem_take hMem)]
      exact mul_le_mul_right _ (length_take_le j tail)
    rw [take_succ_cons, flatMap_cons, length_append, h.startPayload]
    unfold startCapacity
    unfold sharesNeededForBytes at hLt
    unfold firstSparseShareContentSize continuationSparseShareContentSize at *
    split at hLt <;> split <;> omega

/-- The signer takes twenty bytes of the first share, which the count of the shares leaves out. It is
right if the last share holds more than that, or is full. -/
def CountsRight (length : Nat) : Prop :=
  (length - 458) % continuationSparseShareContentSize = 0 ∨ 20 < (length - 458) % continuationSparseShareContentSize

/-- The number of shares counted is that of the blob, and the shares counted for `r` of its bytes hold them, exactly if
both counts are right. -/
theorem ValidBlob.sharesNeeded_cover_iff (h : ValidBlob first tail) (hSupp : isSupported first = true) {r}
    (hr : r ≤ D.sequenceLengthField first) :
    (sharesNeededForBytes (D.sequenceLengthField first) = (first :: tail).length ∧
        r ≤ (((first :: tail).take (max 1 (sharesNeededForBytes r))).flatMap D.payloadField).length) ↔
      CountsRight (D.sequenceLengthField first) ∧ CountsRight r := by
  have hVersion : D.versionField first = 1 := by
    simp only [isSupported, Bool.and_eq_true, beq_iff_eq] at hSupp
    exact hSupp.1
  have hStart : (D.payloadField first).length = 458 := by rw [h.startPayload, hVersion]; rfl
  have hCount : (first :: tail).length = sharesOfLength 458 (D.sequenceLengthField first) := by
    rw [h.count, hVersion]
    rfl
  have hFits := (sharesNeededForBytes_mono hr).trans h.sharesNeeded_le
  obtain ⟨j, hj⟩ := exists_eq_succ_of_ne_zero (ne_of_gt (sharesNeededForBytes_pos r))
  rw [hj, length_cons] at hFits
  have hTail : ((tail.take j).flatMap D.payloadField).length = j * continuationSparseShareContentSize := by
    rw [length_flatMap_payloadField fun share hMem => h.payload share (mem_of_mem_take hMem), length_take,
      min_eq_left (le_of_succ_le_succ hFits)]
  rw [hj, max_eq_right (succ_pos j), take_succ_cons, flatMap_cons, length_append, hStart, hTail, hCount]
  unfold sharesNeededForBytes firstSparseShareContentSize at *
  unfold CountsRight sharesOfLength
  unfold continuationSparseShareContentSize at *
  refine and_congr ?_ ?_
  · split <;> omega
  · split at hj <;> omega

def lastByteShare : TableShare := ⟨1, false, 0, 0, [1]⟩

/-- Of a blob of 459 bytes, in two shares, the one share that is counted holds 458. -/
theorem last_byte_not_covered : ∃ first : TableShare,
    ValidBlob (D := tableTypes) first [lastByteShare] ∧ isSupported (D := tableTypes) first = true ∧
      first.length = 459 ∧ sharesNeededForBytes 459 = 1 ∧
      (([first, lastByteShare].take (max 1 (sharesNeededForBytes 459))).flatMap TableShare.payload).length = 458 := by
  refine ⟨⟨1, true, 459, 7, []⟩, ⟨rfl, .inr rfl, TableShare.length_payload _, ?_, rfl⟩, rfl, rfl, rfl, ?_⟩
  · rintro _ (_ | ⟨_, ⟨⟩⟩)
    exact lastByteShare.length_payload
  · change ([_].flatMap TableShare.payload).length = 458
    rw [flatMap_singleton, TableShare.length_payload]
    rfl

/-- A blob of 1000 bytes has three shares; the first 500 of them lie in two. -/
theorem three_shares_covered :
    let first : tableTypes.ShareData := ⟨1, true, 1000, 7, []⟩
    let blob : List tableTypes.ShareData := [first, lastByteShare, lastByteShare]
    sharesNeededForBytes 1000 = blob.length ∧
      500 ≤ ((blob.take (max 1 (sharesNeededForBytes 500))).flatMap tableTypes.payloadField).length := by
  intro first
  have hValid : ValidBlob first [lastByteShare, lastByteShare] := by
    refine ⟨rfl, .inr rfl, TableShare.length_payload _, fun share hShare => ?_, by decide⟩
    obtain rfl : share = lastByteShare := by simpa using hShare
    exact lastByteShare.length_payload
  exact (hValid.sharesNeeded_cover_iff rfl (by decide)).mpr ⟨.inr (by decide), .inr (by decide)⟩

theorem left_lt {row i} (hRow : (namespaceRows square root ns)[0]? = some row)
    (hi : i < namespaceStart square root ns) (hColumn : i < square.dataWidth) :
    ∃ leaf, row[i]? = some leaf ∧ leaf.1 < ns := by
  have hCell := namespaceData_getElem? hRow hColumn
  have hLen : i < (namespaceData square root ns).length :=
    lt_of_lt_of_le hi (length_filter_le _ _)
  rw [zero_mul, zero_add, getElem?_eq_getElem hLen] at hCell
  refine ⟨_, hCell.symm, ?_⟩
  by_contra hNot
  have hLe := Segments.le_index namespaceData_ordered (getElem?_eq_getElem hLen) (not_lt.mp hNot)
  exact absurd hi (not_lt.mpr hLe)

variable (hRoots : header.dah.rowRoots = square.rows.map root) (hWidth : 0 < square.dataWidth)
include hRoots hWidth

/-- The proof of a blob that was read authenticates it. -/
theorem authenticateBlobData_of_proves {blob : BlobWithSender D} (hParity : ns ≠ D.parityShare)
    (hProves : proof.Proves square root ns q (max (sharesNeededForBytes blob.accumulator.length) 1))
    (hShares : (square.shares ns).drop q = (first :: tail) ++ after) (hValid : ValidBlob first tail)
    (hSupp : isSupported first = true) (hSender : D.signerField first = blob.sender)
    (hReading : blob.blob.Reading ((first :: tail).flatMap D.payloadField) (D.sequenceLengthField first)) :
    authenticateBlobData header (header.namespaceRowRoots ns) ns blob proof =
      .ok (sharesNeededForBytes (D.sequenceLengthField first)) := by
  have hFits := hValid.sharesRead_le hReading.isPrefix
  have hAll := hProves.shares_eq hShares hFits
  have hContent : blob.accumulator <+: payloadOf proof.shares ++
      ((first :: tail).drop (max (sharesNeededForBytes blob.accumulator.length) 1)).flatMap D.payloadField := by
    rw [hAll, payloadOf_map_shareOf, ← flatMap_append, take_append_drop]
    exact hReading.isPrefix.trans <| take_prefix _ _
  have hSigner : (shareOf first).signer = some blob.sender := by
    have hVers : D.versionField first = 1 := by
      simp only [isSupported, Bool.and_eq_true, beq_iff_eq] at hSupp
      exact hSupp.1
    simp [Share.signer, hValid.start, hVers, hSender]
  refine authenticateBlobData_of_checked hParity ?_ (fun range hMem => (hProves.proven range hMem).checked hRoots hWidth)
    ?_ (hProves.startsWith (by omega) hShares) hSigner (shareOf_sequenceLength hValid.start) ?_ hContent
  · rw [hAll, length_map, length_take]
    exact min_eq_left hFits
  · intro share hMem
    rw [hAll] at hMem
    obtain ⟨data, -, rfl⟩ := mem_map.mp hMem
    rfl
  · rw [hAll]
    exact hValid.reached blob.accumulator

theorem Proves.startShareIdx_le (h : proof.Proves square root ns q m) :
    ∀ range ∈ proof.rangeProofs, range.startShareIdx ≤ D.usizeMax := by
  intro range hMem
  have hLt := ((h.proven range hMem).checked hRoots hWidth).startShareIdx_lt
  have hFit : (header.namespaceRowRoots ns).length * header.rowLength ≤ D.usizeMax := namespaceRowRoots_fit hRoots
  omega

theorem blobProofRangeStart_later {blobIdx last : Nat} (hIdx : blobIdx ≠ 0)
    (hProves : proof.Proves square root ns q m) (hm : 0 < m) (hShares : (square.shares ns).drop q = first :: after)
    (hLast : claimedStart square root ns + q = last + 1) :
    blobProofRangeStart header ns blobIdx (some last) proof = .ok (claimedStart square root ns + q) := by
  obtain ⟨range, rest, more, hRanges, -⟩ := (hProves.startsWith hm hShares).ranges
  have hUsize := Proves.startShareIdx_le hRoots hWidth hProves
  have hStarts := hProves.starts
  have hCont := enforceContinuity_of_startsAt hStarts hUsize
  have hFirst := hUsize range (hRanges ▸ mem_cons_self)
  rw [hRanges] at hStarts
  rw [hStarts.1] at hFirst
  simp only [blobProofRangeStart, if_neg hIdx, verifyContinuity, getFirstSubProof, bind_eq_ok,
    unwrap_eq_ok, mapError_eq_ok, checkedAdd_eq_some, ensure_eq_ok, pure_eq_ok]
  exact ⟨last, rfl, _, ⟨_, ⟨by omega, rfl⟩, range, by rw [hRanges]; rfl, (), hStarts.1.trans hLast, hStarts.1⟩, (),
    hCont, rfl⟩

theorem blobProofRangeStart_first (hProves : proof.Proves square root ns 0 m) (hm : 0 < m)
    (hShares : square.shares ns = first :: after) (hInRow : claimedStart square root ns < square.dataWidth)
    (hAlign : claimedStart square root ns = namespaceStart square root ns) :
    blobProofRangeStart header ns 0 none proof = .ok (claimedStart square root ns) := by
  obtain ⟨range, rest, more, hRanges, -⟩ := (hProves.startsWith hm hShares).ranges
  have hStarts := hProves.starts
  have hCont := enforceContinuity_of_startsAt hStarts (Proves.startShareIdx_le hRoots hWidth hProves)
  have hProven := hProves.proven range (hRanges ▸ mem_cons_self)
  rw [hRanges, add_zero] at hStarts
  have hColumn : range.startShareIdx = D.startIdx range.proof := by
    rw [hProven.column hStarts.1, hStarts.1, hAlign]
  obtain ⟨row, hRow, -, hLeft⟩ := hProven.row
  rw [hStarts.1, div_eq_of_lt hInRow] at hRow
  have hBound : proof.verifyLeftBoundary header ns = .ok (claimedStart square root ns) := by
    simp only [verifyLeftBoundary, getFirstSubProof, calculateRowNumberForShare,
      bind_eq_ok, ensure_eq_ok, pure, Except.pure, rowLength_eq hRoots]
    refine ⟨range, by rw [hRanges]; rfl, 0, ⟨(), pos_iff_ne_zero.mp hWidth, ?_⟩, (), rfl, (), hColumn, ?_⟩
    · rw [hStarts.1, div_eq_of_lt hInRow]
    · split
      · rename_i hPos
        rw [← hColumn, hStarts.1] at hPos hLeft
        obtain ⟨leaf, hLeaf, hBelow⟩ := left_lt hRow (by omega : claimedStart square root ns - 1 < _) (by omega)
        rw [hLeaf] at hLeft
        obtain ⟨sibling, hSib, hMax⟩ := Option.map_eq_some_iff.mp (hLeft hPos)
        simp only [bind_eq_ok, unwrap_eq_ok, ensure_eq_ok, Except.ok.injEq]
        exact ⟨sibling, hSib, (), hMax ▸ hBelow, hStarts.1⟩
      · exact congrArg Except.ok hStarts.1
  simp only [blobProofRangeStart, if_pos, bind_eq_ok, mapError_eq_ok]
  exact ⟨_, hBound, (), hCont, rfl⟩

end Proven

def ProvesAll (square : ExtendedDataSquare D) (root : Row D → D.NamespacedHash) (ns : D.Namespace)
    (proofs : List (BlobProof D)) (ranges : List (Nat × Nat)) : Prop :=
  List.Forall₂ (fun proof range => proof.Proves square root ns range.1 (range.2 - range.1)) proofs ranges

def CountedRight (group : List D.ShareData) : Prop :=
  ∀ first ∈ group.head?, group.length = sharesNeededForBytes (D.sequenceLengthField first)

section Loop
variable {square : ExtendedDataSquare D} {root : Row D → D.NamespacedHash} {q : Nat}
  {group : List D.ShareData} {groups : List (List D.ShareData)} {blobs : List (BlobWithSender D)}
  {ranges : List (Nat × Nat)} {proofs : List (BlobProof D)}

theorem Extracted.first_proof (h : Extracted q (group :: groups) blobs ranges)
    (hProofs : ProvesAll square root ns proofs ranges) :
    ∃ proof rest m, proofs = proof :: rest ∧ 0 < m ∧ proof.Proves square root ns q m := by
  cases h with
  | skipped | read =>
    obtain ⟨proof, others, hProves, -, rfl⟩ := forall₂_cons_right_iff.mp hProofs
    exact ⟨proof, others, _, rfl, by simp, hProves⟩

variable (hRoots : header.dah.rowRoots = square.rows.map root) (hWidth : 0 < square.dataWidth)
  (hParity : ns ≠ D.parityShare)
include hRoots hWidth hParity

variable {blobIdx : Nat}

/-- One step of the loop, over a blob whose shares are counted right. -/
theorem Extracted.verifyBlobProofs_step (h : Extracted q (group :: groups) blobs ranges)
    (hProofs : ProvesAll square root ns proofs ranges)
    (hGroups : (group :: groups).flatten = (square.shares ns).drop q) (hCounted : CountedRight group) {start : Nat}
    {last}
    (hStart : ∀ proof ∈ proofs.head?, blobProofRangeStart header ns blobIdx last proof = .ok start) :
    ∃ proofs' blobs' ranges', Extracted (q + group.length) groups blobs' ranges' ∧
      ProvesAll square root ns proofs' ranges' ∧
      verifyBlobProofs header (header.namespaceRowRoots ns) ns blobIdx last proofs blobs =
        verifyBlobProofs header (header.namespaceRowRoots ns) ns (blobIdx + 1)
          (some (advanceShareIdx start group.length last)) proofs' blobs' := by
  cases h with
  | skipped hValid hSupp rest =>
    obtain ⟨proof, others, hProves, hOthers, rfl⟩ := forall₂_cons_right_iff.mp hProofs
    have hFirst := hProves.startsWith (by simp) hGroups.symm
    have hSkip := verifySkippedBlob_of_checked hFirst hValid hSupp
      (fun range hMem => (hProves.proven range hMem).checked hRoots hWidth)
    refine ⟨others, blobs, _, rest, hOthers, ?_⟩
    rw [verifyBlobProofs, hStart proof rfl, ok_bind, isSupportedBlob_of_startsWith hFirst, ok_bind, hSupp,
      if_neg Bool.false_ne_true, hSkip, ok_bind, hCounted _ rfl]
  | @read _ first tail _ blob blobs ranges hValid hSupp _ hSender hReading rest =>
    obtain ⟨proof, others, hProves, hOthers, rfl⟩ := forall₂_cons_right_iff.mp hProofs
    rw [Nat.add_sub_cancel_left] at hProves
    have hFirst := hProves.startsWith (by omega) hGroups.symm
    have hBlob := authenticateBlobData_of_proves hRoots hWidth hParity hProves hGroups.symm hValid hSupp
      hSender hReading
    refine ⟨others, blobs, _, rest, hOthers, ?_⟩
    rw [verifyBlobProofs, hStart proof rfl, ok_bind, isSupportedBlob_of_startsWith hFirst, ok_bind, hSupp, if_pos rfl]
    dsimp only
    rw [hBlob, ok_bind, hCounted _ rfl]

theorem Extracted.verifyBlobProofs_later (h : Extracted q groups blobs ranges)
    (hProofs : ProvesAll square root ns proofs ranges) (hGroups : groups.flatten = (square.shares ns).drop q)
    (hCounted : ∀ group ∈ groups, CountedRight group) {last} (hIdx : blobIdx ≠ 0)
    (hLast : claimedStart square root ns + q = last + 1) :
    verifyBlobProofs header (header.namespaceRowRoots ns) ns blobIdx (some last) proofs blobs =
      .ok (some (last + groups.flatten.length)) := by
  induction groups generalizing q blobs ranges proofs blobIdx last with
  | nil =>
    cases h
    cases hProofs
    rfl
  | cons group groups ih =>
    obtain ⟨proof, others, m, rfl, hm, hProves⟩ := h.first_proof hProofs
    have hNe : ∃ first tail, group = first :: tail := by
      cases h <;> exact ⟨_, _, rfl⟩
    obtain ⟨first, tail, rfl⟩ := hNe
    have hStart := blobProofRangeStart_later hRoots hWidth hIdx hProves hm
      (by rw [← hGroups, flatten_cons, cons_append]) hLast
    obtain ⟨proofs', blobs', ranges', hRest, hOthers, hStep⟩ := h.verifyBlobProofs_step hRoots hWidth hParity hProofs
      hGroups (hCounted _ mem_cons_self) (by
        rintro _ ⟨⟩
        exact hStart)
    rw [hStep, ih hRest hOthers ?_ (fun other hMem => hCounted other (mem_cons_of_mem _ hMem))
      (succ_ne_zero _) ?_, flatten_cons, length_append, ← add_assoc]
    · rfl
    · rw [← drop_drop, ← hGroups, flatten_cons, drop_left]
    · show _ = last + (first :: tail).length + 1
      omega

theorem Extracted.verifyBlobProofs_start (h : Extracted 0 groups blobs ranges)
    (hProofs : ProvesAll square root ns proofs ranges) (hGroups : groups.flatten = square.shares ns)
    (hNe : square.shares ns ≠ []) (hCounted : ∀ group ∈ groups, CountedRight group)
    (hInRow : claimedStart square root ns < square.dataWidth)
    (hAlign : claimedStart square root ns = namespaceStart square root ns) :
    verifyBlobProofs header (header.namespaceRowRoots ns) ns 0 none proofs blobs =
      .ok (some (namespaceStart square root ns + (square.shares ns).length - 1)) := by
  cases groups with
  | nil => exact absurd hGroups.symm hNe
  | cons group groups =>
    obtain ⟨proof, others, m, rfl, hm, hProves⟩ := h.first_proof hProofs
    obtain ⟨first, tail, rfl⟩ : ∃ first tail, group = first :: tail := by
      cases h <;> exact ⟨_, _, rfl⟩
    have hStart := blobProofRangeStart_first hRoots hWidth hProves hm
      (by rw [← hGroups, flatten_cons, cons_append]) hInRow hAlign
    obtain ⟨proofs', blobs', ranges', hRest, hOthers, hStep⟩ := h.verifyBlobProofs_step hRoots hWidth hParity hProofs
      hGroups (hCounted _ mem_cons_self) (by
        rintro _ ⟨⟩
        exact hStart)
    have hLoop := hRest.verifyBlobProofs_later hRoots hWidth hParity hOthers
      (by rw [zero_add, ← hGroups, flatten_cons, drop_left])
      (fun other hMem => hCounted other (mem_cons_of_mem _ hMem)) one_ne_zero
      (show _ = claimedStart square root ns + (first :: tail).length - 1 + 1 by
        rw [length_cons]
        omega)
    rw [hStep]
    refine hLoop.trans ?_
    rw [← hGroups, flatten_cons, length_append, length_cons]
    congr 2
    omega

end Loop

section Boundary
variable {square : ExtendedDataSquare D} {root : Row D → D.NamespacedHash} {data : NamespaceRelevantData D}

theorem right_lt (hSound : NmtSound square root) (hParity : ns ≠ D.parityShare) {row j i}
    (hRow : (namespaceRows square root ns)[j]? = some row)
    (hi : namespaceStart square root ns + (square.shares ns).length = j * square.dataWidth + i)
    (hColumn : i < square.dataWidth) : ∃ leaf, row[i]? = some leaf ∧ ns < leaf.1 := by
  have hCell := namespaceData_getElem? hRow hColumn
  have hLen : j * square.dataWidth + i < (namespaceData square root ns).length := by
    have hLt := (List.getElem?_eq_some_iff.mp hRow).1
    have hRows := mul_le_mul_right square.dataWidth hLt
    rw [succ_mul] at hRows
    rw [namespaceData_length]
    omega
  rw [getElem?_eq_getElem hLen] at hCell
  refine ⟨_, hCell.symm, ?_⟩
  by_contra hNot
  have hEnd := Segments.index_lt_end namespaceData_ordered (getElem?_eq_getElem hLen) (not_lt.mp hNot)
  rw [shares_eq hSound hParity, length_map, namespaceStart] at hi
  omega

section Fetched
variable (hSound : NmtSound square root) (hData : data.IsOf square root)
  (hRows : namespaceRows square root data.ns ≠ [])
include hSound hData hRows

theorem exists_lastRow : ∃ rowData row, data.rows.getLast? = some rowData ∧
    (namespaceRows square root data.ns)[(namespaceRows square root data.ns).length - 1]? = some row ∧
    rowData.IsOf square root data.ns row ∧
    ((namespaceRows square root data.ns).length - 1) * square.dataWidth + (namespaceStart square root data.ns -
      ((namespaceRows square root data.ns).length - 1) * square.dataWidth) + rowData.shares.length =
        namespaceStart square root data.ns + (square.shares data.ns).length := by
  have hLen := length_pos_iff.mpr hRows
  obtain ⟨rowData, row, hFetch, hRow, hIsOf⟩ :=
    exists_row hData (by omega : (namespaceRows square root data.ns).length - 1 < _)
  obtain ⟨-, _⟩ := namespace_bounds hData hSound hRows
  have hEnd : namespaceStart square root data.ns + (square.shares data.ns).length ≤ _ := namespaceEnd_le hSound hData.parity
  have hShares := congrArg length (rowShares_eq hSound hData.parity hRow hIsOf)
  rw [length_take, length_drop, length_fetchedShares] at hShares
  refine ⟨rowData, row, ?_, hRow, hIsOf, ?_⟩
  · rw [getLast?_eq_getElem?, length_rows hData]
    exact hFetch
  · have hSplit := rows_before_last hRow
    omega

theorem fromNamespaceData_absence (hNone : square.shares data.ns = []) :
    ∃ boundary row, fromNamespaceData data = .ok (some boundary) ∧
      namespaceRows square root data.ns = [row] ∧
      D.verifyCompleteNamespace boundary.lastShareProof (root row) [] data.ns = true := by
  obtain ⟨rowData, row, hLastRow, hRow, hIsOf, hCount⟩ := exists_lastRow hSound hData hRows
  obtain ⟨_, hLast⟩ := namespace_bounds hData hSound hRows
  have hLen := length_pos_iff.mpr hRows
  have hOne : (namespaceRows square root data.ns).length = 1 := by
    by_contra _
    have hTwo : square.dataWidth ≤ ((namespaceRows square root data.ns).length - 1) * square.dataWidth :=
      Nat.le_mul_of_pos_left _ (by omega)
    rw [hNone, length_nil] at hLast
    omega
  obtain ⟨only, hOnly⟩ := length_eq_one_iff.mp hOne
  rw [hOne, hNone, length_nil, Nat.sub_self] at hCount
  have hEmpty : rowData.shares = [] := length_eq_zero_iff.mp (by omega)
  have hSame : only = row := by
    rw [hOnly] at hRow
    exact Option.some.inj hRow
  refine ⟨⟨rowData.proof, none⟩, row, ?_, hSame ▸ hOnly, hIsOf.absence hEmpty⟩
  have hAbsence : D.isOfPresence rowData.proof = false := by
    rw [hIsOf.presence, hEmpty]
    rfl
  simp [fromNamespaceData, hLastRow, hEmpty, hAbsence]

theorem fromNamespaceData_presence (hSome : square.shares data.ns ≠ []) :
    ∃ proof share row, fromNamespaceData data = .ok (some ⟨proof, some share⟩) ∧
      (namespaceRows square root data.ns)[(namespaceRows square root data.ns).length - 1]? = some row ∧
      D.verifyRange proof (root row) [share.data] data.ns = true ∧
      ((namespaceRows square root data.ns).length - 1) * square.dataWidth + D.startIdx proof + 1 =
        namespaceStart square root data.ns + (square.shares data.ns).length ∧
      (D.leftmostRightSibling proof).map D.minNamespace = row[D.startIdx proof + 1]?.map Prod.fst := by
  obtain ⟨rowData, row, hLastRow, hRow, hIsOf, hCount⟩ := exists_lastRow hSound hData hRows
  obtain ⟨_, _⟩ := namespace_bounds hData hSound hRows
  have hPos := length_pos_iff.mpr hSome
  have hNe : rowData.shares ≠ [] := by
    intro hEmpty
    rw [hEmpty, length_nil] at hCount
    omega
  obtain ⟨init, share, hShares⟩ := (eq_nil_or_concat rowData.shares).resolve_left hNe
  rw [concat_eq_append] at hShares
  have hInit : rowData.shares.take (rowData.shares.length - 1) = init := by
    rw [hShares, length_append, length_singleton, Nat.add_sub_cancel, take_left]
  obtain ⟨proof, hNarrow, hVer, hColumn, -, hRight⟩ := hIsOf.narrow (init.map (·.data)) [share.data] []
    (by rw [hShares, map_append]; rfl) (cons_ne_nil _ _)
  refine ⟨proof, share, row, ?_, hRow, hVer, ?_, hRight⟩
  · have hPresent : rowData.shares.isEmpty = false := by simpa using hNe
    have hEnd : rowData.shares.getLast? = some share := by rw [hShares, getLast?_concat]
    simp only [fromNamespaceData, hLastRow, hPresent, hInit, hEnd, hNarrow, unwrap_some]
    rfl
  · rw [hShares, length_append, length_singleton] at hCount
    rw [hColumn, row_take hRow, Segments.length_lower_block namespaceData_ordered, length_map]
    unfold namespaceStart at *
    omega

/-- The end of the namespace is accepted. -/
theorem checkNamespaceEndBoundary_of_presence (hRoots : header.dah.rowRoots = square.rows.map root)
    (hSome : square.shares data.ns ≠ []) :
    ∃ boundary, fromNamespaceData data = .ok boundary ∧
      checkNamespaceEndBoundary header (header.namespaceRowRoots data.ns) data.ns
        (namespaceStart square root data.ns + (square.shares data.ns).length - 1) boundary = .ok () := by
  obtain ⟨proof, share, row, hBound, hRow, hVer, _, hRight⟩ :=
    fromNamespaceData_presence hSound hData hRows hSome
  have hEnd : namespaceStart square root data.ns + (square.shares data.ns).length ≤ _ := namespaceEnd_le hSound hData.parity
  have hFit : (header.namespaceRowRoots data.ns).length * header.rowLength ≤ D.usizeMax := namespaceRowRoots_fit hRoots
  have hU64 := D.usizeMax_le
  have hSplit := rows_before_last hRow
  refine ⟨_, hBound, ?_⟩
  rw [namespaceRowRoots_eq hRoots, rowLength_eq hRoots, length_map] at hFit
  simp only [checkNamespaceEndBoundary, namespaceRowRoots_eq hRoots, rowLength_eq hRoots, length_map, bind_eq_ok,
    ensure_eq_ok]
  refine ⟨(), by omega, ?_⟩
  split
  · obtain ⟨leaf, hLeaf, hAbove⟩ := right_lt hSound hData.parity hRow
      (show _ = _ + (D.startIdx proof + 1) by omega) (by omega)
    rw [hLeaf] at hRight
    obtain ⟨sibling, hSib, hMin⟩ := Option.map_eq_some_iff.mp hRight
    simp only [unwrap_some, ok_bind, bind_eq_ok, ensure_eq_ok, unwrap_eq_ok]
    refine ⟨(), by omega, (), by omega, (), by omega, root row, ?_, (), hVer, sibling, hSib, hMin ▸ hAbove⟩
    rw [getLast?_map, getLast?_eq_getElem?, hRow]
    rfl
  · rfl

end Fetched
end Boundary
end SovereignSdk.Celestia
