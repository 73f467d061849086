import SovereignSdk.Celestia.Verifier

/-! What the checks of one blob proof establish: where its ranges claim to start, which
ranges are verified, and how far the bytes read agree with the shares. -/
namespace SovereignSdk.Celestia
open Outcome Bounded BlobProof List Option Share Nat

variable {D : DaTypes} {header : CelestiaHeader D} {rowRoots : List D.NamespacedHash} {ns : D.Namespace}

theorem calculateRowNumberForShare_ok {shareIdx rowNumber}
    (h : header.calculateRowNumberForShare shareIdx = .ok rowNumber) :
    header.rowLength ≠ 0 ∧ rowNumber = shareIdx / header.rowLength := by
  simp only [CelestiaHeader.calculateRowNumberForShare, bind_eq_ok, ensure_eq_ok, pure_eq_ok] at h
  obtain ⟨_, hWidth, rfl⟩ := h
  exact ⟨hWidth, rfl⟩

/-- The range is verified against the root of the row in which it claims to start. -/
structure RangeProof.Checked (header : CelestiaHeader D) (rowRoots : List D.NamespacedHash) (ns : D.Namespace)
    (range : RangeProof D) : Prop where
  width : header.rowLength ≠ 0
  verified : ∃ rowRoot, rowRoots[range.startShareIdx / header.rowLength]? = some rowRoot ∧
    D.verifyRange range.proof rowRoot (range.shares.map (·.data)) ns = true

variable {range : RangeProof D} {payload : List UInt8} {share : Share D} {blob : BlobWithSender D}
variable {proof : BlobProof D}

theorem RangeProof.Checked.startShareIdx_lt (h : range.Checked header rowRoots ns) :
    range.startShareIdx < rowRoots.length * header.rowLength := by
  obtain ⟨rowRoot, hRow, -⟩ := h.verified
  obtain ⟨hRow, -⟩ := List.getElem?_eq_some_iff.mp hRow
  exact (div_lt_iff_lt_mul (pos_of_ne_zero h.width)).mp hRow

def StartsAt : Nat → List (RangeProof D) → Prop
  | _, [] => True
  | start, range :: rest => range.startShareIdx = start ∧ StartsAt (start + range.shares.length) rest

theorem enforceContinuity_ok {rest} (hUsize : rowRoots.length * header.rowLength ≤ D.usizeMax)
    (hChk : ∀ r ∈ range :: rest, r.Checked header rowRoots ns)
    (h : BlobProof.enforceContinuity.go (range :: rest) = .ok ()) : StartsAt range.startShareIdx (range :: rest) := by
  induction rest generalizing range with
  | nil => exact ⟨rfl, trivial⟩
  | cons next rest ih =>
    simp only [enforceContinuity.go, bind_eq_ok, ensure_eq_ok] at h
    obtain ⟨-, hNext, hRest⟩ := h
    have hBound := (hChk next (by simp)).startShareIdx_lt
    -- A sum that saturates would not be the start of a row.
    have hStart : next.startShareIdx = range.startShareIdx + range.shares.length := by
      unfold saturatingAdd at hNext
      omega
    have hLater := ih (fun r hr => hChk r (mem_cons_of_mem range hr)) hRest
    rw [hStart] at hLater
    exact ⟨rfl, hLater⟩

def payloadOf (shares : List (Share D)) : List UInt8 := shares.flatMap fun share => D.payloadField share.data

/-- The bytes read and the payload are the same as far as both go. -/
def Agrees (read payload : List UInt8) : Prop := read.take payload.length = payload.take read.length

theorem Agrees.nil (read : List UInt8) : Agrees read [] := by
  simp [Agrees]

variable {read : List UInt8}

theorem Agrees.of_length_le (h : Agrees read payload) (hLen : read.length ≤ payload.length) : read <+: payload := by
  rw [Agrees, take_of_length_le hLen] at h
  exact h ▸ take_prefix _ _

variable {data : List UInt8} {i occupied start : Nat} {first : Share D}

theorem Agrees.append_last (h : Agrees read payload) (hStart : payload.length ≤ read.length)
    (hEnd : read.length ≤ payload.length + data.length)
    (hSame : read.drop payload.length = data.take (read.length - payload.length)) : Agrees read (payload ++ data) := by
  rw [Agrees, take_of_length_le hStart] at h
  have hRead : read = payload ++ data.take (read.length - payload.length) := by
    rw [← hSame]
    conv_lhs => rw [← take_append_drop payload.length read, h]
  rw [Agrees, take_of_length_le (by rw [length_append]; exact hEnd), take_append,
    take_of_length_le hStart]
  exact hRead

theorem Agrees.append (h : Agrees read payload) (hEnd : payload.length + data.length < read.length)
    (hSame : (read.drop payload.length).take data.length = data) : Agrees read (payload ++ data) := by
  have hStart : payload.length ≤ read.length := by omega
  rw [Agrees, take_of_length_le hStart] at h
  rw [Agrees, length_append, take_add, h, hSame, take_of_length_le (by rw [length_append]; omega)]

theorem share_of_not_parity (h : share.isParity = false) :
    share.infoByte = some ⟨D.versionField share.data, D.sequenceStartField share.data⟩ := by
  simp [Share.infoByte, h]

theorem payload_eq_some (h : share.payload = some payload) :
    share.isParity = false ∧ payload = D.payloadField share.data := by
  cases hParity : share.isParity <;> simp [Share.payload, Share.infoByte, hParity] at h ⊢
  exact h.symm

theorem signer_eq_some {signer} (hData : share.isParity = false) (h : share.signer = some signer) :
    D.sequenceStartField share.data = true ∧ signer = D.signerField share.data := by
  simp only [Share.signer, share_of_not_parity hData, bind_eq_bind, bind_some] at h
  split at h
  · rename_i hStart
    exact ⟨(Bool.and_eq_true_iff.mp hStart).1, (some.inj h).symm⟩
  · cases h

theorem sequenceLength_eq_some {length} (h : share.sequenceLength = some length) :
    D.sequenceStartField share.data = true ∧ length = D.sequenceLengthField share.data := by
  cases hData : share.isParity with
  | true => simp [sequenceLength, infoByte, hData] at h
  | false =>
    simp only [sequenceLength, share_of_not_parity hData, bind_eq_bind, bind_some] at h
    split at h
    · exact ⟨‹_›, (some.inj h).symm⟩
    · cases h

theorem matchShareData_ok {check check'} (h : matchShareData read share check = .ok check') :
    share.isParity = false ∧ check' = { check with
        startBlobDataIdx := check.startBlobDataIdx + (D.payloadField share.data).length } ∧
      ∀ payload, payload.length = check.startBlobDataIdx → Agrees read payload →
        Agrees read (payload ++ D.payloadField share.data) := by
  simp only [matchShareData, bind_eq_ok, unwrap_eq_ok] at h
  obtain ⟨shareData, hLoad, h⟩ := h
  obtain ⟨hParity, rfl⟩ := payload_eq_some hLoad
  refine ⟨hParity, ?_⟩
  split at h
  · rename_i hEnd
    simp only [bind_eq_ok, ensure_eq_ok, pure_eq_ok] at h
    obtain ⟨-, hStart, -, hSame, rfl⟩ := h
    refine ⟨rfl, fun payload hLen hAgrees => ?_⟩
    rw [← hLen] at hStart hSame hEnd
    exact hAgrees.append_last hStart hEnd hSame
  · rename_i hEnd
    simp only [bind_eq_ok, ensure_eq_ok, pure_eq_ok] at h
    obtain ⟨-, hSame, rfl⟩ := h
    refine ⟨rfl, fun payload hLen hAgrees => ?_⟩
    rw [← hLen] at hSame hEnd
    exact hAgrees.append (by omega) hSame

/-- How the checks of some shares, one after another, change the variables of the loop. -/
structure Compared (read : List UInt8) (shares : List (Share D)) (check check' : BlobCheck) : Prop where
  data : ∀ share ∈ shares, share.isParity = false
  index : check'.startBlobDataIdx = check.startBlobDataIdx + (payloadOf shares).length
  sequenceLength : check'.sequenceLength = check.sequenceLength
  agrees : ∀ payload, payload.length = check.startBlobDataIdx → Agrees read payload →
    Agrees read (payload ++ payloadOf shares)

namespace Compared
variable {read : List UInt8} {shares shares' : List (Share D)} {check check' check'' : BlobCheck}

theorem nil (read : List UInt8) (check : BlobCheck) : Compared read ([] : List (Share D)) check check :=
  ⟨fun _ h => (nomatch h), rfl, rfl, fun payload _ h => (append_nil payload).symm ▸ h⟩

theorem append (h : Compared read shares check check') (h' : Compared read shares' check' check'') :
    Compared read (shares ++ shares') check check'' := by
  have hLoad : payloadOf (shares ++ shares') = payloadOf shares ++ payloadOf shares' := flatMap_append
  refine ⟨fun share hMem => ?_, ?_, h'.sequenceLength.trans h.sequenceLength, fun payload hLen hAgrees => ?_⟩
  · exact (mem_append.mp hMem).elim (h.data share) (h'.data share)
  · rw [h'.index, h.index, hLoad, length_append, add_assoc]
  · rw [hLoad, ← append_assoc]
    refine h'.agrees _ ?_ (h.agrees payload hLen hAgrees)
    rw [length_append, h.index, hLen]

theorem of_matchShareData (h : matchShareData read share check = .ok check') :
    Compared read [share] check check' := by
  obtain ⟨hData, rfl, hAgrees⟩ := matchShareData_ok h
  have hLoad : payloadOf [share] = D.payloadField share.data := by simp [payloadOf]
  refine ⟨fun other hMem => ?_, ?_, rfl, fun payload hLen h => ?_⟩
  · rw [mem_singleton.mp hMem]
    exact hData
  · rw [hLoad]
  · rw [hLoad]
    exact hAgrees payload hLen h

theorem of_authenticateShares {blob rangeIdx i} (hLater : rangeIdx ≠ 0 ∨ i ≠ 0)
    (h : (shares.zipIdx i).foldlM (authenticateShare blob rangeIdx) check = .ok check') :
    Compared blob.accumulator shares check check' := by
  induction shares generalizing check i with
  | nil =>
    cases h
    exact .nil _ _
  | cons share rest ih =>
    rw [zipIdx_cons, foldlM_cons, bind_eq_ok] at h
    obtain ⟨next, hShare, hRest⟩ := h
    have hNot : ¬(rangeIdx = 0 ∧ i = 0) := fun hBoth => hLater.elim (· hBoth.1) (· hBoth.2)
    simp only [authenticateShare, if_neg hNot] at hShare
    exact (of_matchShareData hShare).append (ih (.inr (succ_ne_zero i)) hRest)

end Compared

theorem authenticateRange_ok {check check'}
    (h : authenticateRange header rowRoots ns blob check (range, i) = .ok check') :
    range.Checked header rowRoots ns ∧ ∃ mid, range.shares.zipIdx.foldlM (authenticateShare blob i) check = .ok mid ∧
        check' = { mid with sharesProven := mid.sharesProven + range.shares.length } := by
  simp only [authenticateRange, bind_eq_ok, unwrap_eq_ok, ensure_eq_ok, pure_eq_ok] at h
  obtain ⟨rowNumber, hRow, rowRoot, hRoot, mid, hShares, -, hVer, rfl⟩ := h
  obtain ⟨hWidth, rfl⟩ := calculateRowNumberForShare_ok hRow
  exact ⟨⟨hWidth, rowRoot, hRoot, hVer⟩, mid, hShares, rfl⟩

theorem authenticateRanges_ok {ranges : List (RangeProof D)} {check check' : BlobCheck} (hLater : i ≠ 0)
    (h : (ranges.zipIdx i).foldlM (authenticateRange header rowRoots ns blob) check = .ok check') :
    (∀ range ∈ ranges, range.Checked header rowRoots ns) ∧
      Compared blob.accumulator (ranges.flatMap (·.shares)) check check' := by
  induction ranges generalizing check i with
  | nil =>
    cases h
    exact ⟨fun _ hMem => (nomatch hMem), .nil _ _⟩
  | cons range rest ih =>
    rw [zipIdx_cons, foldlM_cons, bind_eq_ok] at h
    obtain ⟨next, hRange, hRest⟩ := h
    obtain ⟨hChk, mid, hShares, rfl⟩ := authenticateRange_ok hRange
    obtain ⟨hOthers, hCompared⟩ := ih (succ_ne_zero i) hRest
    have hHere : Compared blob.accumulator range.shares check
        { mid with sharesProven := mid.sharesProven + range.shares.length } := by
      obtain ⟨hData, hIndex, hLen, hAgrees⟩ := Compared.of_authenticateShares (.inl hLater) hShares
      exact ⟨hData, hIndex, hLen, hAgrees⟩
    refine ⟨?_, hHere.append hCompared⟩
    rintro r (_ | ⟨_, hMem⟩)
    · exact hChk
    · exact hOthers r hMem

namespace BlobProof

def shares (proof : BlobProof D) : List (Share D) := proof.rangeProofs.flatMap (·.shares)

/-- The proof has a first range, and that one a first share. -/
structure StartsWith (proof : BlobProof D) (first : Share D) : Prop where
  ranges : ∃ range rest more, proof.rangeProofs = range :: rest ∧ range.shares = first :: more

theorem firstShare_ok (h : proof.firstShare = .ok first) :
    proof.StartsWith first := by
  simp only [firstShare, unwrap_eq_ok, bind_eq_some_iff, head?_eq_some_iff] at h
  obtain ⟨range, ⟨rest, hRanges⟩, more, hShares⟩ := h
  exact ⟨range, rest, more, hRanges, hShares⟩

end BlobProof

/-- A share starts a blob of the version that the rollup reads, and not padding. -/
def isSupported (data : D.ShareData) : Bool :=
  D.versionField data == supportedShareVersion &&
    !(D.sequenceStartField data && D.sequenceLengthField data == 0)

theorem isSupportedBlob_ok {supported : Bool} (h : proof.isSupportedBlob = .ok supported) :
    ∃ first, proof.StartsWith first ∧ first.isParity = false ∧ supported = isSupported first.data := by
  simp only [isSupportedBlob, bind_eq_ok, mapError_eq_ok, unwrap_eq_ok, pure_eq_ok] at h
  obtain ⟨first, hFirst, info, hInfo, rfl⟩ := h
  refine ⟨first, firstShare_ok hFirst, ?_⟩
  cases hParity : first.isParity with
  | true => simp [infoByte, hParity] at hInfo
  | false =>
    rw [share_of_not_parity hParity, some.injEq] at hInfo
    subst hInfo
    unfold isSupported isTailPadding sequenceLength
    rw [share_of_not_parity hParity]
    cases hStart : D.sequenceStartField first.data <;> simp

/-- What is known of a proof after its blob was authenticated as one of `occupied` shares. -/
structure Authenticated (header : CelestiaHeader D) (rowRoots : List D.NamespacedHash) (ns : D.Namespace)
    (blob : BlobWithSender D) (proof : BlobProof D) (first : Share D) (occupied : Nat) : Prop where
  parity : ns ≠ D.parityShare
  count : proof.shares.length = max (sharesNeededForBytes blob.accumulator.length) 1
  checked : ∀ range ∈ proof.rangeProofs, range.Checked header rowRoots ns
  start : D.sequenceStartField first.data = true
  sender : D.signerField first.data = blob.sender
  occupies : occupied = sharesNeededForBytes (D.sequenceLengthField first.data)
  agrees : Agrees blob.accumulator (payloadOf proof.shares)

theorem authenticateBlobData_ok (hFirst : proof.StartsWith first) (hData : first.isParity = false)
    (h : authenticateBlobData header rowRoots ns blob proof = .ok occupied) :
    Authenticated header rowRoots ns blob proof first occupied := by
  obtain ⟨range, rest, more, hRanges, hShares⟩ := hFirst.ranges
  simp only [authenticateBlobData, bind_eq_ok, ensure_eq_ok, unwrap_eq_ok, pure_eq_ok] at h
  obtain ⟨-, hParity, -, hCount, check, hLoop, -, -, sequenceLength, hLen, rfl⟩ := h
  rw [hRanges, zipIdx_cons, foldlM_cons, bind_eq_ok] at hLoop
  obtain ⟨next, hRange, hRest⟩ := hLoop
  obtain ⟨hChk, mid, hLoop, rfl⟩ := authenticateRange_ok hRange
  obtain ⟨hOthers, hCompared⟩ := authenticateRanges_ok one_ne_zero hRest
  rw [hShares, zipIdx_cons, foldlM_cons, bind_eq_ok] at hLoop
  obtain ⟨after, hShare, hMore⟩ := hLoop
  simp only [authenticateShare, and_self, if_true, bind_eq_ok, unwrap_eq_ok, ensure_eq_ok, pure,
    Except.pure, Except.ok.injEq] at hShare
  obtain ⟨signer, hSigner, -, hSender, _, rfl, hMatch⟩ := hShare
  obtain ⟨hStart, rfl⟩ := signer_eq_some hData hSigner
  have hFirst : Compared blob.accumulator range.shares ⟨0, 0, first.sequenceLength⟩
      { mid with sharesProven := mid.sharesProven + range.shares.length } := by
    rw [hShares]
    obtain ⟨hNotParity, hIndex, hSame, hAgrees⟩ := (Compared.of_matchShareData hMatch).append
      (Compared.of_authenticateShares (.inr one_ne_zero) hMore)
    exact ⟨hNotParity, hIndex, hSame, hAgrees⟩
  have hAll := hFirst.append hCompared
  have hProof : proof.shares = range.shares ++ rest.flatMap (·.shares) := by
    rw [shares, hRanges, flatMap_cons]
  rw [← hProof] at hAll
  refine ⟨hParity, ?_, ?_, hStart, hSender, ?_, ?_⟩
  · rw [hCount, shares, length_flatMap]
  · rw [hRanges]
    rintro r (_ | ⟨_, hMem⟩)
    · exact hChk
    · exact hOthers r hMem
  · have hField : some sequenceLength = some (D.sequenceLengthField first.data) := by
      rw [← hLen, hAll.sequenceLength, Share.sequenceLength, share_of_not_parity hData]
      simp [hStart]
    rw [some.inj hField]
  · have hAgrees := hAll.agrees [] rfl (Agrees.nil _)
    rwa [nil_append] at hAgrees

theorem verifyRangeProof_ok {u} (h : verifyRangeProof header rowRoots ns range = .ok u) :
    range.Checked header rowRoots ns := by
  simp only [verifyRangeProof, bind_eq_ok, unwrap_eq_ok, ensure_eq_ok] at h
  obtain ⟨rowNumber, hRow, rowRoot, hRoot, hVer⟩ := h
  obtain ⟨hWidth, rfl⟩ := calculateRowNumberForShare_ok hRow
  exact ⟨hWidth, rowRoot, hRoot, hVer⟩

structure Skipped (header : CelestiaHeader D) (rowRoots : List D.NamespacedHash) (ns : D.Namespace)
    (proof : BlobProof D) (first : Share D) (occupied : Nat) : Prop where
  checked : ∀ range ∈ proof.rangeProofs.head?, range.Checked header rowRoots ns
  start : D.sequenceStartField first.data = true
  occupies : occupied = sharesNeededForBytes (D.sequenceLengthField first.data)

theorem verifySkippedBlob_ok (hFirst : proof.StartsWith first)
    (h : verifySkippedBlob header rowRoots ns proof = .ok occupied) :
    Skipped header rowRoots ns proof first occupied := by
  obtain ⟨range, rest, more, hRanges, hShares⟩ := hFirst.ranges
  have hShare : proof.firstShare = .ok first := by
    simp [firstShare, hRanges, hShares]
  simp only [verifySkippedBlob, bind_eq_ok, mapError_eq_ok, hShare, Except.ok.injEq, unwrap_eq_ok] at h
  obtain ⟨_, rfl, info, _, length, hLen, h⟩ := h
  obtain ⟨hStart, rfl⟩ := sequenceLength_eq_some hLen
  have hChk : ∃ u, verifyRangeProof header rowRoots ns range = .ok u ∧
      sharesNeededForBytes (D.sequenceLengthField first.data) = occupied := by
    split at h <;>
      simp only [hRanges, head?_cons, unwrap_some, ok_bind, bind_eq_ok, pure_eq_ok] at h
    · obtain ⟨-, -, hRange⟩ := h
      exact hRange
    · obtain ⟨-, -, hRange⟩ := h
      exact hRange
  obtain ⟨_, hRange, rfl⟩ := hChk
  refine ⟨fun r hr => ?_, hStart, rfl⟩
  rw [hRanges, head?_cons, mem_some_iff] at hr
  exact hr ▸ verifyRangeProof_ok hRange

/-- The first proof starts in the first row, with nothing of the namespace on its left. -/
theorem verifyLeftBoundary_ok (h : proof.verifyLeftBoundary header ns = .ok start) :
    ∃ range rest, proof.rangeProofs = range :: rest ∧ range.startShareIdx = start ∧
      start / header.rowLength = 0 ∧ D.startIdx range.proof = start ∧
      (0 < D.startIdx range.proof → ∃ sibling, D.rightmostLeftSibling range.proof = some sibling ∧
        D.maxNamespace sibling < ns) := by
  simp only [verifyLeftBoundary, getFirstSubProof, bind_eq_ok, mapError_eq_ok, unwrap_eq_ok,
    head?_eq_some_iff, ensure_eq_ok] at h
  obtain ⟨range, ⟨rest, hRanges⟩, rowNumber, hRow, -, rfl, -, hStart, h⟩ := h
  obtain ⟨-, hZero⟩ := calculateRowNumberForShare_ok hRow
  split at h
  · simp only [bind_eq_ok, unwrap_eq_ok, ensure_eq_ok, pure_eq_ok] at h
    obtain ⟨sibling, hSib, -, hBelow, rfl⟩ := h
    exact ⟨range, rest, hRanges, rfl, hZero.symm, hStart.symm, fun _ => ⟨sibling, hSib, hBelow⟩⟩
  · rename_i hFirst
    cases h
    exact ⟨range, rest, hRanges, rfl, hZero.symm, hStart.symm, fun hPos => absurd hPos hFirst⟩

theorem verifyContinuity_ok {last} (h : proof.verifyContinuity last = .ok start) :
    start = last + 1 ∧ ∃ range rest, proof.rangeProofs = range :: rest ∧ range.startShareIdx = start := by
  simp only [verifyContinuity, getFirstSubProof, bind_eq_ok, mapError_eq_ok, unwrap_eq_ok,
    head?_eq_some_iff, ensure_eq_ok, checkedAdd_eq_some, pure_eq_ok] at h
  obtain ⟨_, ⟨-, rfl⟩, range, ⟨rest, hRanges⟩, -, hStart, rfl⟩ := h
  exact ⟨hStart, range, rest, hRanges, rfl⟩

end SovereignSdk.Celestia
