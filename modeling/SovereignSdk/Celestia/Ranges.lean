import SovereignSdk.Celestia.Proving
import SovereignSdk.Celestia.Reader
import SovereignSdk.Celestia.Walk

/-! Which shares the node proves: those that were read of a supported blob, and the first one of
every other blob. -/
namespace SovereignSdk.Celestia
open Outcome Bounded List Nat

variable {D : DaTypes} {first : D.ShareData} {tail : List D.ShareData}

theorem sharesNeededForBytes_eq (length : Nat) :
    sharesNeededForBytes length = sharesOfLength firstSparseShareContentSize length := by
  unfold sharesNeededForBytes sharesOfLength firstSparseShareContentSize continuationSparseShareContentSize
  split <;> omega

theorem sharesNeededForBytes_le (version length : Nat) :
    sharesNeededForBytes length ≤ sharesOfLength (startCapacity version) length := by
  rw [sharesNeededForBytes_eq]
  unfold sharesOfLength startCapacity firstSparseShareContentSize continuationSparseShareContentSize
  split <;> omega

namespace ValidBlob

theorem sharesNeeded_le (h : ValidBlob first tail) :
    sharesNeededForBytes (D.sequenceLengthField first) ≤ (first :: tail).length :=
  h.count ▸ sharesNeededForBytes_le _ _

theorem unsupported_cases (h : ValidBlob first tail) (hSupported : isSupported first = false) :
    D.sequenceLengthField first = 0 ∨ D.versionField first = 0 := by
  rcases h.version with hZero | hOne
  · exact .inr hZero
  · simp [isSupported, hOne, h.start, supportedShareVersion] at hSupported
    exact .inl hSupported

theorem length_of_unsupported (h : ValidBlob first tail) (hSupported : isSupported first = false) :
    (first :: tail).length = sharesNeededForBytes (D.sequenceLengthField first) := by
  rw [h.count]
  rcases h.unsupported_cases hSupported with hEmpty | hZero
  · rw [hEmpty]
    unfold startCapacity
    split <;> rfl
  · rw [hZero, sharesNeededForBytes_eq]
    rfl

end ValidBlob

variable (share : D.ShareData)

@[simp] theorem shareOf_data : (shareOf share).data = share := rfl

theorem data_map_shareOf (shares : List D.ShareData) : (shares.map shareOf).map (·.data) = shares := by
  rw [map_map]
  exact map_id _

@[simp] theorem shareOf_infoByte :
    (shareOf share).infoByte = some ⟨D.versionField share, D.sequenceStartField share⟩ := rfl

@[simp] theorem shareOf_payload : (shareOf share).payload = some (D.payloadField share) := rfl

theorem shareOf_sequenceLength {share} (h : D.sequenceStartField share = true) :
    (shareOf share).sequenceLength = some (D.sequenceLengthField share) := by
  simp [Share.sequenceLength, h]

def AllSkipped (groups : List (List D.ShareData)) : Prop :=
  ∀ group ∈ groups, ∃ first tail, group = first :: tail ∧ ValidBlob first tail ∧ isSupported first = false

def skippedRanges : Nat → List (List D.ShareData) → List (Nat × Nat)
  | _, [] => []
  | q, group :: groups => (q, q + 1) :: skippedRanges (q + group.length) groups

theorem skippedRanges_append (q : Nat) (groups groups' : List (List D.ShareData)) :
    skippedRanges q (groups ++ groups') =
      skippedRanges q groups ++ skippedRanges (q + groups.flatten.length) groups' := by
  induction groups generalizing q with
  | nil => rfl
  | cons group groups ih =>
    rw [cons_append, skippedRanges, ih, skippedRanges, cons_append, flatten_cons, length_append, add_assoc]

variable {groups : List (List D.ShareData)} {shares before : List D.ShareData} {q : Nat}
variable {ranges : List (Nat × Nat)}

theorem AllSkipped.length_le (h : AllSkipped groups) : groups.length ≤ groups.flatten.length := by
  refine Segments.length_le_flatten fun group hMem => ?_
  obtain ⟨first, tail, rfl, -⟩ := h group hMem
  exact cons_ne_nil first tail

variable {after : List D.ShareData} {bytes : List UInt8} {pending : List (List D.ShareData)}

theorem buildRangesToProveForSkippedBlobs_ok {blobs} (hSkip : AllSkipped groups)
    (hShares : shares = before ++ (groups.flatten ++ after)) (hBlobs : groups.length ≤ blobs) :
    buildRangesToProveForSkippedBlobs (shares.map shareOf) (before.length + groups.flatten.length) blobs
      before.length = .ok (skippedRanges before.length groups) := by
  induction groups generalizing before blobs with
  | nil =>
    cases blobs with
    | zero => rfl
    | succ blobs => rw [buildRangesToProveForSkippedBlobs, if_neg (by simp), skippedRanges]
  | cons group groups ih =>
    obtain ⟨first, tail, rfl, hValid, hSupported⟩ := hSkip group mem_cons_self
    cases blobs with
    | zero => exact absurd hBlobs (not_succ_le_zero _)
    | succ blobs =>
      have hNext : before.length + max (sharesNeededForBytes (D.sequenceLengthField first)) 1 =
          (before ++ (first :: tail)).length := by
        rw [length_append, hValid.length_of_unsupported hSupported, max_eq_left (sharesNeededForBytes_pos _)]
      have hHere : (shares.map shareOf)[before.length]? = some (shareOf first) := by
        rw [getElem?_map, hShares, getElem?_append_right (Nat.le_refl _), Nat.sub_self]
        rfl
      have hRest := @ih (before ++ (first :: tail)) blobs
        (fun other hMem => hSkip other (mem_cons_of_mem _ hMem))
        (by rw [hShares, flatten_cons, append_assoc, append_assoc])
        (le_of_succ_le_succ hBlobs)
      have hLen : (before ++ (first :: tail)).length = before.length + (first :: tail).length :=
        length_append
      have hStop : (before ++ (first :: tail)).length + groups.flatten.length =
          before.length + ((first :: tail) :: groups).flatten.length := by
        rw [flatten_cons, length_append, length_append, add_assoc]
      rw [hStop] at hRest
      rw [buildRangesToProveForSkippedBlobs, if_pos (by simp), skippedRanges, ← hLen]
      simp only [hHere, unwrap_some, ok_bind, shareOf_infoByte, shareOf_sequenceLength hValid.start, hNext, hRest]
      split
      · exact bind_eq_ok.mpr ⟨(), ensure_eq_ok.mpr rfl, rfl⟩
      · rename_i hSome
        refine bind_eq_ok.mpr ⟨(), ensure_eq_ok.mpr ?_, rfl⟩
        rw [(hValid.unsupported_cases hSupported).resolve_left hSome]
        decide

/-- The blobs of a namespace from its share `q` on, those of them that were extracted, with what has
been read of each, and the shares that are to be proven. -/
inductive Extracted : Nat → List (List D.ShareData) → List (BlobWithSender D) → List (Nat × Nat) → Prop where
  | done (q : Nat) : Extracted q [] [] []
  | skipped {q : Nat} {first : D.ShareData} {tail : List D.ShareData} {groups : List (List D.ShareData)}
      {blobs : List (BlobWithSender D)} {ranges : List (Nat × Nat)} (hValid : ValidBlob first tail)
      (hSupported : isSupported first = false)
      (rest : Extracted (q + (first :: tail).length) groups blobs ranges) :
      Extracted q ((first :: tail) :: groups) blobs ((q, q + 1) :: ranges)
  | read {q : Nat} {first : D.ShareData} {tail : List D.ShareData} {groups : List (List D.ShareData)}
      {blob : BlobWithSender D} {blobs : List (BlobWithSender D)} {ranges : List (Nat × Nat)}
      (hValid : ValidBlob first tail) (hSupported : isSupported first = true)
      (hRange : blob.rangeInNamespace = (q, q + (first :: tail).length))
      (hSender : D.signerField first = blob.sender)
      (hReading : blob.blob.Reading ((first :: tail).flatMap D.payloadField) (D.sequenceLengthField first))
      (rest : Extracted (q + (first :: tail).length) groups blobs ranges) :
      Extracted q ((first :: tail) :: groups) (blob :: blobs)
        ((q, q + max (sharesNeededForBytes blob.accumulator.length) 1) :: ranges)

theorem ValidBlob.sharesRead_le (h : ValidBlob first tail) {read}
    (hRead : read <+: bytes.take (D.sequenceLengthField first)) :
    max (sharesNeededForBytes read.length) 1 ≤ (first :: tail).length := by
  have hLen := hRead.length_le
  rw [length_take] at hLen
  have hMono := sharesNeededForBytes_mono (le_trans hLen (min_le_left _ _))
  exact Nat.max_le.mpr ⟨hMono.trans h.sharesNeeded_le, by simp⟩

variable {blobs : List (BlobWithSender D)}

theorem Extracted.ranges_le (h : Extracted q groups blobs ranges) :
    ∀ range ∈ ranges, range.1 < range.2 ∧ range.2 ≤ q + groups.flatten.length := by
  induction h with
  | done q => exact fun _ hMem => absurd hMem not_mem_nil
  | skipped _ _ rest ih =>
    rintro range (_ | ⟨_, hMem⟩)
    · simp
    · obtain ⟨hLt, _⟩ := ih range hMem
      rw [flatten_cons, length_append]
      exact ⟨hLt, by omega⟩
  | read hValid _ _ _ hReading rest ih =>
    rintro range (_ | ⟨_, hMem⟩)
    · have hLe := hValid.sharesRead_le hReading.isPrefix
      rw [flatten_cons, length_append, BlobWithSender.accumulator]
      omega
    · obtain ⟨hLt, _⟩ := ih range hMem
      rw [flatten_cons, length_append]
      exact ⟨hLt, by omega⟩

theorem Extracted.blobs_eq_nil (h : Extracted q groups blobs ranges) (hNone : groups.flatten = []) : blobs = [] := by
  cases h with
  | done => rfl
  | skipped | read => cases hNone

theorem neededShareRanges_ok (needed : List (Nat × Nat)) {prev blob} (hPend : AllSkipped pending)
    (hPrev : prev.getD 0 = before.length)
    (hShares : shares = before ++ (pending.flatten ++ ((first :: tail) ++ after))) (hValid : ValidBlob first tail)
    (hRange : blob.rangeInNamespace = (before.length + pending.flatten.length,
      before.length + pending.flatten.length + (first :: tail).length)) (hRead : blob.accumulator <+: bytes.take (D.sequenceLengthField first)) :
    neededShareRanges (shares.map shareOf) (needed, prev) blob =
      .ok (needed ++ skippedRanges before.length pending ++ [(before.length + pending.flatten.length,
          before.length + pending.flatten.length + max (sharesNeededForBytes blob.accumulator.length) 1)],
        some (before.length + pending.flatten.length + (first :: tail).length)) := by
  have hFits := hValid.sharesRead_le hRead
  have hSkip : (if before.length + pending.flatten.length ≠ 0 ∧
        before.length + pending.flatten.length ≠ before.length then
      buildRangesToProveForSkippedBlobs (shares.map shareOf) (before.length + pending.flatten.length)
        (before.length + pending.flatten.length - before.length) before.length
    else .ok []) = .ok (skippedRanges before.length pending) := by
    have hCount := hPend.length_le
    split
    · exact buildRangesToProveForSkippedBlobs_ok hPend hShares (by omega)
    · have hNone : pending = [] := length_eq_zero_iff.mp (by omega)
      rw [hNone]
      rfl
  simp only [neededShareRanges, hRange, hPrev, bind_eq_ok, ensure_eq_ok]
  refine ⟨(), by omega, ?_⟩
  split at hSkip
  · rename_i hBetween
    rw [if_pos hBetween, hSkip]
    rfl
  · rename_i hNext
    rw [if_neg hNext, ← Except.ok.inj hSkip]
    rfl

/-- The loop over the blobs asks for the shares that are to be proven. -/
theorem Extracted.neededShareRanges (h : Extracted q groups blobs ranges)
    (needed : List (Nat × Nat)) (prev : Option Nat) (hPend : AllSkipped pending)
    (hPrev : prev.getD 0 = before.length) (hq : q = before.length + pending.flatten.length)
    (hShares : shares = before ++ (pending.flatten ++ groups.flatten)) (hSome : prev = none → blobs ≠ []) :
    ∃ needed' prev' skipped,
      blobs.foldlM (neededShareRanges (shares.map shareOf)) (needed, prev) = .ok (needed', prev') ∧
        rangesAfterLastBlob (shares.map shareOf) prev' = .ok skipped ∧
        needed' ++ skipped = needed ++ skippedRanges before.length pending ++ ranges := by
  induction h generalizing before pending needed prev with
  | done q =>
    obtain ⟨stop, rfl⟩ := Option.ne_none_iff_exists'.mp fun hNone => hSome hNone rfl
    cases hPrev
    rw [flatten_nil] at hShares
    refine ⟨needed, some before.length, skippedRanges before.length pending, rfl, ?_, (append_nil _).symm⟩
    have hLen : (shares.map shareOf).length = before.length + pending.flatten.length := by
      rw [length_map, hShares, length_append, append_nil]
    have hCount := hPend.length_le
    rw [rangesAfterLastBlob, hLen]
    split
    · exact buildRangesToProveForSkippedBlobs_ok hPend hShares (by omega)
    · have hNone : pending = [] := length_eq_zero_iff.mp (by omega)
      rw [hNone]
      rfl
  | @skipped q first tail groups blobs ranges hValid hSupported rest ih =>
    have hPend' : AllSkipped (pending ++ [first :: tail]) := by
      intro group hMem
      rcases mem_append.mp hMem with hBefore | hHere
      · exact hPend group hBefore
      · exact ⟨first, tail, mem_singleton.mp hHere, hValid, hSupported⟩
    have hFlat : (pending ++ [first :: tail]).flatten = pending.flatten ++ (first :: tail) := by simp
    obtain ⟨needed', prev', skipped, hLoop, hSkip, hAll⟩ := @ih before _ needed prev hPend' hPrev
      (by rw [hFlat, length_append, hq, add_assoc])
      (by rw [hShares, hFlat, flatten_cons, append_assoc]) hSome
    refine ⟨needed', prev', skipped, hLoop, hSkip, hAll.trans ?_⟩
    rw [skippedRanges_append, ← hq]
    simp [skippedRanges]
  | @read q first tail groups blob blobs ranges hValid _ hRange _ hReading rest ih =>
    subst hq
    have hHere := neededShareRanges_ok needed hPend hPrev hShares hValid hRange hReading.isPrefix
    obtain ⟨needed', prev', skipped, hLoop, hSkip, hAll⟩ := @ih
      (before ++ pending.flatten ++ (first :: tail)) []
      (needed ++ skippedRanges before.length pending ++ [(before.length + pending.flatten.length,
        before.length + pending.flatten.length + max (sharesNeededForBytes blob.accumulator.length) 1)])
      (some (before.length + pending.flatten.length + (first :: tail).length))
      (fun _ hMem => absurd hMem not_mem_nil) (by simp [add_assoc]) (by simp [add_assoc])
      (by rw [hShares]; simp) (by simp)
    refine ⟨needed', prev', skipped, ?_, hSkip, hAll.trans (by simp [skippedRanges])⟩
    rw [foldlM_cons, hHere]
    exact hLoop

section Fetched
variable {square : ExtendedDataSquare D} {root : Row D → D.NamespacedHash} {data : NamespaceRelevantData D}
  {header : CelestiaHeader D}

theorem flatten_blobs (ns : D.Namespace) : (square.blobs ns).flatten = square.shares ns := List.flatten_splitBy ..

theorem shares_eq_nil_of_rows (hSound : NmtSound square root) {ns} (hParity : ns ≠ D.parityShare)
    (hRows : namespaceRows square root ns = []) : square.shares ns = [] := by
  rw [shares_eq hSound hParity, namespaceData, hRows]
  rfl

variable (hSound : NmtSound square root) (hData : data.IsOf square root)
  (hRoots : header.dah.rowRoots = square.rows.map root) {blobs : List (BlobWithSender D)}
include hSound hData hRoots

theorem newInclusionProof_ok {ranges} (hBlobs : blobs ≠ [])
    (hExtr : Extracted 0 (square.blobs data.ns) blobs ranges) :
    ∃ proofs, newInclusionProof header data blobs = .ok proofs ∧
      List.Forall₂ (fun proof range => proof.Proves square root data.ns range.1 (range.2 - range.1)) proofs ranges := by
  have hRows : namespaceRows square root data.ns ≠ [] := by
    intro hNone
    refine hBlobs (hExtr.blobs_eq_nil ?_)
    rw [flatten_blobs, shares_eq_nil_of_rows hSound hData.parity hNone]
  have hShares : square.shares data.ns = [] ++ (([] : List (List D.ShareData)).flatten ++ (square.blobs data.ns).flatten) := by
    rw [flatten_blobs]
    rfl
  obtain ⟨needed, prev, skipped, hLoop, hSkip, hAll⟩ := hExtr.neededShareRanges [] none
    (fun _ hMem => absurd hMem not_mem_nil) rfl rfl hShares fun _ => hBlobs
  have hLe := hExtr.ranges_le
  rw [flatten_blobs, zero_add] at hLe
  obtain ⟨proofs, hProofs, hProves⟩ := subNamespaceInclusionProofs_ok hSound hData hRows hRoots hLe
  refine ⟨proofs, ?_, hProves⟩
  rw [newInclusionProof, flatShares_eq hData hSound]
  refine bind_eq_ok.mpr ⟨_, hLoop, bind_eq_ok.mpr ⟨skipped, hSkip, ?_⟩⟩
  rw [hAll]
  exact hProofs

theorem newInclusionProof_nil : newInclusionProof header data [] = .ok [] := by
  have hOffset : ∃ offset, firstRowOffset header.rowLength data = .ok offset := by
    rcases eq_or_ne (namespaceRows square root data.ns) [] with hNone | hRows
    · have hFetch : data.rows = [] := length_eq_zero_iff.mp (by rw [length_rows hData, hNone]; rfl)
      exact ⟨0, by rw [firstRowOffset, hFetch]; rfl⟩
    · exact ⟨_, by rw [rowLength_eq hRoots]; exact firstRowOffset_eq hSound hData hRows⟩
  obtain ⟨offset, hOffset⟩ := hOffset
  refine bind_eq_ok.mpr ⟨_, rfl, bind_eq_ok.mpr ⟨[], rfl, ?_⟩⟩
  rw [subNamespaceInclusionProofs, hOffset]
  rfl

end Fetched
end SovereignSdk.Celestia
