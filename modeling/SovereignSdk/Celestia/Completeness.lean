import SovereignSdk.Celestia.TableData
import SovereignSdk.Celestia.Walk

/-! What acceptance says about the blobs that are laid out in a namespace. The verifier compares
the positions that the ranges claim; the leaves that a range proof verifies are at the position of
the proof itself. -/
namespace SovereignSdk.Celestia
open Outcome Bounded List Option ExtendedDataSquare RangeProof Nat

variable {D : DaTypes} {square : ExtendedDataSquare D} {root : Row D → D.NamespacedHash}
  {header : CelestiaHeader D} {ns : D.Namespace}

namespace RangeProof

/-- The position of a range, by the start index of its own proof. -/
def place (k : Nat) (range : RangeProof D) : Nat := range.startShareIdx / k * k + D.startIdx range.proof

def InPlace (k : Nat) (range : RangeProof D) : Prop :=
  range.shares ≠ [] → D.startIdx range.proof = range.startShareIdx % k

theorem inPlace_iff {k : Nat} {range : RangeProof D} :
    range.InPlace k ↔ (range.shares ≠ [] → range.place k = range.startShareIdx) := by
  have hSplit := div_add_mod' range.startShareIdx k
  unfold InPlace place
  constructor
  · intro h hShares
    rw [h hShares, hSplit]
  · intro h hShares
    have hPlace := h hShares
    omega

end RangeProof

def LieAt (k : Nat) : Nat → List (RangeProof D) → Prop
  | _, [] => True
  | start, range :: rest =>
    (range.shares ≠ [] → range.place k = start) ∧ LieAt k (start + range.shares.length) rest

variable {k start position stop : Nat} {groups : List (List D.ShareData)} {proofs : List (BlobProof D)}
variable {blobs : List (BlobWithSender D)} {rowRoots : List D.NamespacedHash}
variable {boundaryProof : Option (NamespaceBoundaryProof D)}

theorem StartsAt.lieAt_iff {ranges : List (RangeProof D)} (h : StartsAt start ranges) :
    LieAt k start ranges ↔ ∀ range ∈ ranges, range.InPlace k := by
  induction ranges generalizing start with
  | nil => exact ⟨fun _ _ hMem => (nomatch hMem), fun _ => trivial⟩
  | cons range rest ih =>
    obtain ⟨rfl, hRest⟩ := h
    rw [LieAt, forall_mem_cons, inPlace_iff, ih hRest]

variable {proof : BlobProof D} {first : Share D}

theorem StartsAt.head (hFirst : proof.StartsWith first)
    (h : StartsAt start proof.rangeProofs) : ∀ range ∈ proof.rangeProofs.head?, range.startShareIdx = start := by
  obtain ⟨range, rest, more, hRanges, -⟩ := hFirst.ranges
  rw [hRanges] at h ⊢
  simpa using h.1

/-- Which blobs the proofs have authenticated: all laid out from `start` on, each by the proof at
its own place. A supported one is the next blob that was read, and the bytes read are in the
shares proven. -/
inductive Authentic (k : Nat) :
    Nat → List (List D.ShareData) → List (BlobProof D) → List (BlobWithSender D) → Prop where
  | done (start : Nat) : Authentic k start [] [] []
  | skipped {start : Nat} {first : Share D} {tail : List D.ShareData} {groups : List (List D.ShareData)}
      {proof : BlobProof D} {proofs : List (BlobProof D)} {blobs : List (BlobWithSender D)}
      (hFirst : proof.StartsWith first) (hSupported : isSupported first.data = false)
      (hPlace : ∀ range ∈ proof.rangeProofs.head?, range.place k = start)
      (rest : Authentic k (start + (first.data :: tail).length) groups proofs blobs) :
      Authentic k start ((first.data :: tail) :: groups) (proof :: proofs) blobs
  | accepted {start : Nat} {first : Share D} {tail : List D.ShareData} {groups : List (List D.ShareData)}
      {proof : BlobProof D} {blob : BlobWithSender D} {proofs : List (BlobProof D)}
      {blobs : List (BlobWithSender D)} (hFirst : proof.StartsWith first)
      (hSupported : isSupported first.data = true) (hPlaces : LieAt k start proof.rangeProofs)
      (hShares : proof.shares.map (·.data) <+: first.data :: tail)
      (hSender : D.signerField first.data = blob.sender)
      (hRead : blob.accumulator <+: (payloadOf proof.shares).take (D.sequenceLengthField first.data))
      (rest : Authentic k (start + (first.data :: tail).length) groups proofs blobs) :
      Authentic k start ((first.data :: tail) :: groups) (proof :: proofs) (blob :: blobs)

/-- The first share of the proof starts a blob that the rollup reads. -/
def BlobProof.supported (proof : BlobProof D) : Bool :=
  proof.shares.head?.any fun share => isSupported share.data

/-- No more bytes were read than the blob has and than the shares of the proof carry. -/
def BlobProof.Covers (proof : BlobProof D) (blob : BlobWithSender D) : Prop :=
  blob.accumulator.length ≤ (payloadOf proof.shares).length ∧
    ∀ first ∈ proof.shares.head?, blob.accumulator.length ≤ D.sequenceLengthField first.data

/-- Every range that is verified is in its place, and every blob is covered by its proof. -/
def Honest (k : Nat) : List (BlobProof D) → List (BlobWithSender D) → Prop
  | [], _ => True
  | proof :: proofs, blobs =>
    if proof.supported then
      (∀ range ∈ proof.rangeProofs, range.InPlace k) ∧ (∀ blob ∈ blobs.head?, proof.Covers blob) ∧
        Honest k proofs blobs.tail
    else (∀ range ∈ proof.rangeProofs.head?, range.InPlace k) ∧ Honest k proofs blobs

namespace BlobProof.StartsWith
variable {proof : BlobProof D} {first first' : Share D}

section
variable (h : proof.StartsWith first)
include h

theorem shares : proof.shares.head? = some first := by
  obtain ⟨range, rest, more, hRanges, hShares⟩ := h.ranges
  simp [BlobProof.shares, hRanges, hShares]

theorem unique (h' : proof.StartsWith first') : first' = first :=
  some.inj (h'.shares.symm.trans h.shares)

theorem supported : proof.supported = isSupported first.data := by
  rw [BlobProof.supported, h.shares, any_some]

end

end BlobProof.StartsWith

theorem place_of_inPlace (hFirst : proof.StartsWith first)
    (hInPlace : ∀ range ∈ proof.rangeProofs.head?, range.InPlace k)
    (hStart : ∀ range ∈ proof.rangeProofs.head?, range.startShareIdx = position) :
    ∀ range ∈ proof.rangeProofs.head?, range.place k = position := by
  obtain ⟨range, rest, more, hRanges, hShares⟩ := hFirst.ranges
  simp only [hRanges, head?_cons, mem_some_iff, forall_eq'] at hInPlace hStart ⊢
  rw [inPlace_iff.mp hInPlace (hShares ▸ cons_ne_nil _ _), hStart]

theorem blob_at {q data} (hGroups : groups.flatten = (square.shares ns).drop q)
    (hBlobs : ∀ blob ∈ groups, blob ∈ square.blobs ns) (hShare : (square.shares ns)[q]? = some data) :
    ∃ tail rest, groups = (data :: tail) :: rest := by
  cases groups with
  | nil =>
    have hNone := congrArg (·[0]?) hGroups
    rw [getElem?_drop, add_zero, hShare] at hNone
    cases hNone
  | cons blob rest =>
    obtain ⟨first, tail, rfl, -⟩ := blobsOf_cons (hBlobs blob mem_cons_self)
    have hHead := congrArg (·[0]?) hGroups
    rw [getElem?_drop, add_zero, hShare] at hHead
    cases hHead
    exact ⟨tail, rest, rfl⟩

section Forward
variable (hSound : NmtSound square root) (hRoots : header.dah.rowRoots = square.rows.map root)
  (hParity : ns ≠ D.parityShare)
include hSound hRoots hParity

theorem checked_shares {range : RangeProof D} (h : range.Checked header (header.namespaceRowRoots ns) ns)
    (hShares : range.shares ≠ []) :
    namespaceStart square root ns ≤ range.place square.dataWidth ∧
      range.shares.map (·.data) <+:
        (square.shares ns).drop (range.place square.dataWidth - namespaceStart square root ns) := by
  obtain ⟨rowRoot, hRoot, hVer⟩ := h.verified
  rw [namespaceRowRoots_eq hRoots, rowLength_eq hRoots, getElem?_map, map_eq_some_iff] at hRoot
  obtain ⟨row, hRow, rfl⟩ := hRoot
  exact verifyRange_shares hSound hParity hRow hVer (by simpa using hShares)

theorem LieAt.shares {ranges} (h : LieAt square.dataWidth start ranges)
    (hChk : ∀ range ∈ ranges, range.Checked header (header.namespaceRowRoots ns) ns)
    (hStart : namespaceStart square root ns ≤ start) :
    (ranges.flatMap (·.shares)).map (·.data) <+:
      (square.shares ns).drop (start - namespaceStart square root ns) := by
  induction ranges generalizing start with
  | nil => exact nil_prefix
  | cons range rest ih =>
    obtain ⟨hPlace, hRest⟩ := h
    have hLater := ih hRest (fun r hr => hChk r (mem_cons_of_mem range hr)) (by omega)
    rw [flatMap_cons, map_append]
    rcases eq_or_ne range.shares [] with hNone | hSome
    · simpa [hNone] using hLater
    · have hHere := (checked_shares hSound hRoots hParity (hChk range mem_cons_self) hSome).2
      rw [hPlace hSome] at hHere
      obtain ⟨more, hMore⟩ := hHere
      have hIndex : start + range.shares.length - namespaceStart square root ns =
          start - namespaceStart square root ns + (range.shares.map (·.data)).length := by
        rw [length_map]
        omega
      rw [hIndex, ← drop_drop, ← hMore, drop_left] at hLater
      rw [← hMore]
      exact (prefix_append_right_inj _).mpr hLater

theorem first_share (hFirst : proof.StartsWith first)
    (hChk : ∀ range ∈ proof.rangeProofs.head?, range.Checked header (header.namespaceRowRoots ns) ns)
    (hPlace : ∀ range ∈ proof.rangeProofs.head?, range.place square.dataWidth = position) :
    namespaceStart square root ns ≤ position ∧
      (square.shares ns)[position - namespaceStart square root ns]? = some first.data := by
  obtain ⟨range, rest, more, hRanges, hShares⟩ := hFirst.ranges
  simp only [hRanges, head?_cons, mem_some_iff, forall_eq'] at hChk hPlace
  obtain ⟨hStart, tail, hTail⟩ := checked_shares hSound hRoots hParity hChk (hShares ▸ cons_ne_nil _ _)
  rw [hPlace] at hStart hTail
  have hHead := congrArg (·[0]?) hTail
  simp only [hShares, getElem?_drop] at hHead
  exact ⟨hStart, hHead.symm⟩

theorem Walk.next_start (hWalk : Walk header (header.namespaceRowRoots ns) ns position proofs blobs stop)
    (hHonest : Honest square.dataWidth proofs blobs) :
    position = stop ∨ namespaceStart square root ns ≤ position ∧
      ∃ data, (square.shares ns)[position - namespaceStart square root ns]? = some data ∧
        D.sequenceStartField data = true := by
  cases hWalk with
  | done => exact .inl rfl
  | skipped hFirst hSupported hStart hSkip rest =>
    rw [Honest, hFirst.supported, hSupported] at hHonest
    have hPlace := place_of_inPlace hFirst hHonest.1 hStart
    obtain ⟨hLe, hShare⟩ := first_share hSound hRoots hParity hFirst hSkip.checked hPlace
    exact .inr ⟨hLe, _, hShare, hSkip.start⟩
  | accepted hFirst hSupported hStarts hAuth rest =>
    rw [Honest, hFirst.supported, hSupported] at hHonest
    have hPlace := place_of_inPlace hFirst
      (fun range hr => hHonest.1 range (mem_of_mem_head? hr)) (hStarts.head hFirst)
    obtain ⟨hLe, hShare⟩ := first_share hSound hRoots hParity hFirst
      (fun range hr => hAuth.checked range (mem_of_mem_head? hr)) hPlace
    exact .inr ⟨hLe, _, hShare, hAuth.start⟩

/-- The share count that the walk goes on by is that of the blob. -/
theorem occupied_eq {q occupied first tail groups}
    (hGroups : ((first :: tail) :: groups).flatten = (square.shares ns).drop q)
    (hBlob : first :: tail ∈ square.blobs ns) (hStart : D.sequenceStartField first = true)
    (hOcc : occupied = sharesNeededForBytes (D.sequenceLengthField first))
    (hWalk : Walk header (header.namespaceRowRoots ns) ns (namespaceStart square root ns + q + occupied)
      proofs blobs stop) (hHonest : Honest square.dataWidth proofs blobs)
    (hStop : namespaceStart square root ns + (square.shares ns).length ≤ stop) : occupied = (first :: tail).length := by
  have hPos : 0 < occupied := hOcc ▸ sharesNeededForBytes_pos _
  have hFits : occupied ≤ (first :: tail).length := by
    rw [hOcc]
    exact square.sequences ns hParity _ hBlob first rfl hStart
  rcases hWalk.next_start hSound hRoots hParity hHonest with _ | ⟨-, data, hData, hNext⟩
  · have hLen := congrArg length hGroups
    rw [flatten_cons, length_append, length_drop] at hLen
    omega
  · by_contra _
    have hIndex : namespaceStart square root ns + q + occupied - namespaceStart square root ns = q + occupied := by
      omega
    rw [hIndex, ← getElem?_drop, ← hGroups, flatten_cons,
      getElem?_append_left (by omega), getElem?_cons, if_neg (by omega)] at hData
    obtain ⟨_, _, hSame, hOthers⟩ := blobsOf_cons hBlob
    cases hSame
    exact Bool.false_ne_true ((hOthers data (mem_of_getElem? hData)).symm.trans hNext)

/-- Honest proofs that are accepted authenticate the blobs laid out. -/
theorem Walk.authentic {q : Nat} {groups}
    (hWalk : Walk header (header.namespaceRowRoots ns) ns position proofs blobs stop)
    (hHonest : Honest square.dataWidth proofs blobs) (hPos : position = namespaceStart square root ns + q)
    (hGroups : groups.flatten = (square.shares ns).drop q) (hBlobs : ∀ blob ∈ groups, blob ∈ square.blobs ns)
    (hStop : namespaceStart square root ns + (square.shares ns).length ≤ stop) :
    Authentic square.dataWidth position groups proofs blobs := by
  induction hWalk generalizing q groups with
  | done position =>
    cases groups with
    | nil => exact .done position
    | cons blob rest =>
      obtain ⟨first, tail, rfl, -⟩ := blobsOf_cons (hBlobs blob mem_cons_self)
      have hLen := congrArg length hGroups
      rw [flatten_cons, length_append, length_drop, length_cons] at hLen
      omega
  | skipped hFirst hSupported hStart hSkip rest ih =>
    rw [Honest, hFirst.supported, hSupported] at hHonest
    obtain ⟨hInPlace, hLater⟩ := hHonest
    have hPlace := place_of_inPlace hFirst hInPlace hStart
    obtain ⟨-, hShare⟩ := first_share hSound hRoots hParity hFirst hSkip.checked hPlace
    rw [hPos, Nat.add_sub_cancel_left] at hShare
    obtain ⟨tail, others, rfl⟩ := blob_at hGroups hBlobs hShare
    have hOcc := occupied_eq hSound hRoots hParity hGroups (hBlobs _ mem_cons_self) hSkip.start
      hSkip.occupies (hPos ▸ rest) hLater hStop
    refine .skipped hFirst hSupported hPlace ?_
    rw [← hOcc]
    refine ih hLater (by rw [hPos, add_assoc]) ?_ (fun b hb => hBlobs b (mem_cons_of_mem _ hb)) hStop
    rw [← drop_drop, ← hGroups, flatten_cons, hOcc, drop_left]
  | accepted hFirst hSupported hStarts hAuth rest ih =>
    rw [Honest, hFirst.supported, hSupported] at hHonest
    obtain ⟨hInPlace, hCovers, hLater⟩ := hHonest
    obtain ⟨hLoad, hLen⟩ := hCovers _ rfl
    have hLie := hStarts.lieAt_iff.mpr hInPlace
    have hPlace := place_of_inPlace hFirst
      (fun range hr => hInPlace range (mem_of_mem_head? hr)) (hStarts.head hFirst)
    obtain ⟨hLe, hShare⟩ := first_share hSound hRoots hParity hFirst
      (fun range hr => hAuth.checked range (mem_of_mem_head? hr)) hPlace
    have hShares := hLie.shares hSound hRoots hParity hAuth.checked hLe
    rw [hPos, Nat.add_sub_cancel_left] at hShare hShares
    obtain ⟨tail, others, rfl⟩ := blob_at hGroups hBlobs hShare
    have hOcc := occupied_eq hSound hRoots hParity hGroups (hBlobs _ mem_cons_self)
      hAuth.start hAuth.occupies (hPos ▸ rest) hLater hStop
    have hLen := hLen _ hFirst.shares
    refine .accepted hFirst hSupported hLie ?_ hAuth.sender ?_ ?_
    · rw [← hGroups] at hShares
      refine prefix_of_prefix_length_le hShares (prefix_append _ _) ?_
      have hMono := sharesNeededForBytes_mono hLen
      rw [length_map, hAuth.count, ← hOcc, hAuth.occupies]
      exact Nat.max_le.mpr ⟨hMono, sharesNeededForBytes_pos _⟩
    · rw [prefix_take_iff]
      exact ⟨hAuth.agrees.of_length_le hLoad, hLen⟩
    · rw [← hOcc]
      refine ih hLater (by rw [hPos, add_assoc]) ?_ (fun b hb => hBlobs b (mem_cons_of_mem _ hb)) hStop
      rw [← drop_drop, ← hGroups, flatten_cons, hOcc, drop_left]

end Forward

/-- Authentic proofs occupy at most the blobs laid out; if they reach their end, each proof is
about the blob at the position that it claims. -/
theorem Authentic.honest (h : Authentic square.dataWidth start groups proofs blobs)
    (hWalk : Walk header rowRoots ns position proofs blobs stop) (hBlobs : ∀ blob ∈ groups, blob ∈ square.blobs ns)
    (hParity : ns ≠ D.parityShare) :
    stop ≤ position + groups.flatten.length ∧
      (position = start → position + groups.flatten.length ≤ stop → Honest square.dataWidth proofs blobs) := by
  induction h generalizing position with
  | done start =>
    cases hWalk
    exact ⟨le_refl _, fun _ _ => trivial⟩
  | @skipped start first tail groups proof proofs blobs hFirst hSupported hPlace rest ih =>
    cases hWalk with
    | accepted hFirst' hSupported' =>
      rw [hFirst.unique hFirst', hSupported] at hSupported'
      cases hSupported'
    | @skipped _ occupied _ _ _ _ _ hFirst' _ hStart hSkip hRest =>
      cases hFirst.unique hFirst'
      have hFits := square.sequences ns hParity _ (hBlobs _ mem_cons_self) first.data rfl hSkip.start
      rw [← hSkip.occupies] at hFits
      obtain ⟨_, hLater⟩ := ih hRest fun b hb => hBlobs b (mem_cons_of_mem _ hb)
      rw [flatten_cons, length_append]
      refine ⟨by omega, fun hSame hStop => ?_⟩
      rw [Honest, hFirst.supported, hSupported]
      refine ⟨fun range hr => inPlace_iff.mpr fun _ => ?_, hLater (by omega) (by omega)⟩
      rw [hPlace range hr, hStart range hr, hSame]
  | @accepted start first tail groups proof blob proofs blobs hFirst hSupported hPlaces _ _ hRead rest
      ih =>
      cases hWalk with
      | skipped hFirst' hSupported' =>
        rw [hFirst.unique hFirst', hSupported] at hSupported'
        cases hSupported'
      | @accepted _ occupied _ _ _ _ _ _ hFirst' _ hStarts hAuth hRest =>
        cases hFirst.unique hFirst'
        have hFits := square.sequences ns hParity _ (hBlobs _ mem_cons_self) first.data rfl hAuth.start
        rw [← hAuth.occupies] at hFits
        obtain ⟨_, hLater⟩ := ih hRest fun b hb => hBlobs b (mem_cons_of_mem _ hb)
        rw [flatten_cons, length_append]
        refine ⟨by omega, fun hSame hStop => ?_⟩
        rw [prefix_take_iff] at hRead
        rw [Honest, hFirst.supported, hSupported]
        refine ⟨hStarts.lieAt_iff.mp (hSame ▸ hPlaces), ?_, hLater (by omega) (by omega)⟩
        rintro _ ⟨⟩
        refine ⟨hRead.1.length_le, fun share hShare => ?_⟩
        rw [hFirst.shares, mem_some_iff] at hShare
        exact hShare ▸ hRead.2

theorem checkNamespaceEndBoundary_ok {last}
    (h : checkNamespaceEndBoundary header rowRoots ns last boundaryProof = .ok ()) :
    last = rowRoots.length * header.rowLength - 1 ∨
      last < rowRoots.length * header.rowLength - 1 ∧ ∃ proof data lastRowRoot sibling,
        last = (rowRoots.length - 1) * header.rowLength + D.startIdx proof ∧ rowRoots.getLast? = some lastRowRoot ∧
        D.verifyRange proof lastRowRoot [data] ns = true ∧ D.leftmostRightSibling proof = some sibling ∧
        ns < D.minNamespace sibling := by
  simp only [checkNamespaceEndBoundary, bind_eq_ok, ensure_eq_ok] at h
  obtain ⟨-, _, h⟩ := h
  split at h
  · rename_i hLess
    simp only [bind_eq_ok, ensure_eq_ok, unwrap_eq_ok] at h
    obtain ⟨boundary, -, -, -, -, hLe, -, hGe, lastRowRoot, hRoot, share, -, -, hVer, sibling, hSib, hAbove⟩ := h
    exact .inr ⟨hLess, boundary.lastShareProof, share.data, lastRowRoot, sibling, le_antisymm hGe hLe, hRoot,
      hVer, hSib, hAbove⟩
  · exact .inl (by omega)

theorem namespaceEnd_le_last (hSound : NmtSound square root) (hRoots : header.dah.rowRoots = square.rows.map root)
    (hParity : ns ≠ D.parityShare) {last} (h : checkNamespaceEndBoundary header (header.namespaceRowRoots ns) ns last boundaryProof = .ok ()) :
    namespaceStart square root ns + (square.shares ns).length ≤ last + 1 := by
  have hEnd : namespaceStart square root ns + (square.shares ns).length ≤
      (namespaceRows square root ns).length * square.dataWidth := namespaceEnd_le hSound hParity
  have hBound := checkNamespaceEndBoundary_ok h
  rw [namespaceRowRoots_eq hRoots, rowLength_eq hRoots, length_map] at hBound
  obtain _ | ⟨_, proof, data, lastRowRoot, sibling, hLast, hRoot, hVer, hSib, hAbove⟩ := hBound
  · omega
  · rw [getLast?_map, map_eq_some_iff] at hRoot
    obtain ⟨row, hRow, rfl⟩ := hRoot
    rw [getLast?_eq_getElem?] at hRow
    have hSplit := rows_before_last hRow
    rw [hLast]
    exact namespaceEnd_le_of_sibling hSound hParity hRow hVer hSib hAbove (by omega)

/-- The sender and the bytes that were read are those of a blob that is laid out. -/
def Reads (blob : BlobWithSender D) (shares : List D.ShareData) : Prop :=
  ∃ first ∈ shares.head?, D.signerField first = blob.sender ∧
    blob.accumulator <+: (shares.flatMap D.payloadField).take (D.sequenceLengthField first)

def ExtendedDataSquare.supportedBlobs (square : ExtendedDataSquare D) (ns : D.Namespace) : List (List D.ShareData) :=
  (square.blobs ns).filter fun shares => shares.head?.any isSupported

theorem payloadOf_isPrefix {shares blob}
    (h : shares.map (·.data) <+: blob) : payloadOf shares <+: blob.flatMap D.payloadField := by
  obtain ⟨more, rfl⟩ := h
  rw [flatMap_append, flatMap_map]
  exact prefix_append _ _

theorem Authentic.reads (h : Authentic k start groups proofs blobs) :
    Forall₂ Reads blobs (groups.filter fun shares => shares.head?.any isSupported) := by
  induction h with
  | done => exact .nil
  | skipped _ hSupported _ rest ih =>
    rw [filter_cons_of_neg (by simpa using hSupported)]
    exact ih
  | accepted _ hSupported _ hShares hSender hRead rest ih =>
    rw [filter_cons_of_pos (by simpa using hSupported)]
    refine .cons ⟨_, rfl, hSender, hRead.trans ?_⟩ ih
    exact (payloadOf_isPrefix hShares).take _

def examined (blobs : List (BlobWithSender D)) (proofs : List (BlobProof D)) : List (BlobProof D) :=
  if blobs = [] then [] else proofs

theorem verifyBlobs_ok (hBlobs : blobs ≠ []) (h : verifyBlobs header blobs ns proofs boundaryProof = .ok ()) :
    ∃ out last, verifyBlobProofs header (header.namespaceRowRoots ns) ns 0 none proofs blobs = .ok out ∧
      out = some last ∧ checkNamespaceEndBoundary header (header.namespaceRowRoots ns) ns last boundaryProof = .ok () := by
  obtain ⟨blob, others, rfl⟩ := exists_cons_of_ne_nil hBlobs
  simp only [verifyBlobs, bind_eq_ok] at h
  obtain ⟨next, hNext, h⟩ := h
  have hNext : next = .continueVerification := by
    cases hRows : header.namespaceRowRoots ns with
    | nil => simp [hRows, prevalidateBlobs] at hNext
    | cons rowRoot rest =>
      simp only [hRows, prevalidateBlobs, bind_eq_ok, pure_eq_ok] at hNext
      obtain ⟨-, -, hNext⟩ := hNext
      exact hNext.symm
  subst hNext
  simp only [bind_eq_ok, unwrap_eq_ok] at h
  obtain ⟨out, hLoop, last, hOut, hEnd⟩ := h
  exact ⟨out, last, hLoop, hOut, hEnd⟩

theorem blobs_eq_nil_of_accepted (hSound : NmtSound square root) (hRoots : header.dah.rowRoots = square.rows.map root)
    (hParity : ns ≠ D.parityShare) (h : verifyBlobs header [] ns proofs boundaryProof = .ok ()) :
    square.blobs ns = [] := by
  refine blobs_eq_nil hSound hParity fun row hRow => ?_
  rw [verifyBlobs, namespaceRowRoots_eq hRoots] at h
  cases hRows : namespaceRows square root ns with
  | nil => exact absurd (hRows ▸ hRow) not_mem_nil
  | cons only others =>
    simp only [hRows, map_cons, prevalidateBlobs, bind_eq_ok, ensure_eq_ok] at h
    obtain ⟨_, ⟨-, hOne, boundary, -, -, hComplete, -⟩, -⟩ := h
    have hOne : others = [] := map_eq_nil_iff.mp hOne
    rw [hRows, hOne, mem_singleton] at hRow
    subst hRow
    exact hSound.complete (mem_rows (hRows ▸ mem_cons_self)) hParity hComplete

theorem Walk.parity (h : Walk header rowRoots ns position proofs blobs stop) (hBlobs : blobs ≠ []) :
    ns ≠ D.parityShare := by
  induction h with
  | done => exact absurd rfl hBlobs
  | skipped _ _ _ _ rest ih => exact ih hBlobs
  | accepted _ _ _ hAuth rest ih => exact hAuth.parity

theorem Walk.first_checked (h : Walk header rowRoots ns position (proof :: proofs) blobs stop) :
    ∃ first, proof.StartsWith first ∧ ∀ range ∈ proof.rangeProofs.head?, range.Checked header rowRoots ns := by
  cases h with
  | skipped hFirst _ _ hSkip rest => exact ⟨_, hFirst, hSkip.checked⟩
  | accepted hFirst _ _ hAuth rest =>
    exact ⟨_, hFirst, fun range hr => hAuth.checked range (mem_of_mem_head? hr)⟩

theorem verifyLeftBoundary_start (hSound : NmtSound square root)
    (hRoots : header.dah.rowRoots = square.rows.map root) (hParity : ns ≠ D.parityShare)
    (hFirst : proof.StartsWith first)
    (hChk : ∀ range ∈ proof.rangeProofs.head?, range.Checked header (header.namespaceRowRoots ns) ns)
    (h : proof.verifyLeftBoundary header ns = .ok start) : start = namespaceStart square root ns := by
  obtain ⟨range, rest, hRanges, rfl, hRow, hStart, hLeft⟩ := verifyLeftBoundary_ok h
  obtain ⟨_, _, more, hSame, hShares⟩ := hFirst.ranges
  rw [hRanges] at hSame hChk
  cases hSame
  obtain ⟨rowRoot, hRoot, hVer⟩ := (hChk range rfl).verified
  rw [hRow, namespaceRowRoots_eq hRoots, getElem?_map, map_eq_some_iff] at hRoot
  obtain ⟨row, hRow, rfl⟩ := hRoot
  rw [namespaceStart_eq hSound hParity hRow hVer (by simp [hShares]) hLeft, hStart]

theorem namespaceRowRoots_fit (hRoots : header.dah.rowRoots = square.rows.map root) :
    (header.namespaceRowRoots ns).length * header.rowLength ≤ D.usizeMax := by
  rw [rowLength_eq hRoots, namespaceRowRoots_eq hRoots, length_map]
  exact (mul_le_mul_right _ (length_filter_le ..)).trans square.fits

/-- What acceptance with blobs establishes: a walk over the whole namespace. -/
theorem walk_of_accepted (hSound : NmtSound square root) (hRoots : header.dah.rowRoots = square.rows.map root)
    (hBlobs : blobs ≠ []) (h : verifyBlobs header blobs ns proofs boundaryProof = .ok ()) :
    ns ≠ D.parityShare ∧ ∃ stop,
      Walk header (header.namespaceRowRoots ns) ns (namespaceStart square root ns) proofs blobs stop ∧
        namespaceStart square root ns + (square.shares ns).length ≤ stop := by
  obtain ⟨out, last, hLoop, rfl, hEnd⟩ := verifyBlobs_ok hBlobs h
  cases proofs with
  | nil => cases blobs <;> cases hLoop
  | cons proof proofs =>
    obtain ⟨start, stop, hBound, hWalk, _, hLast⟩ :=
      verifyBlobProofs_start (namespaceRowRoots_fit hRoots) hLoop
    obtain ⟨first, hFirst, hChk⟩ := hWalk.first_checked
    have hParity := hWalk.parity hBlobs
    obtain rfl := verifyLeftBoundary_start hSound hRoots hParity hFirst hChk hBound
    have hStop := namespaceEnd_le_last hSound hRoots hParity hEnd
    cases hLast
    exact ⟨hParity, stop, hWalk, by omega⟩

/-- An accepted block has exactly the blobs of its namespace, authenticated one by one, if and
only if the proofs are honest. -/
theorem verifyBlobs_authentic_iff (hSound : NmtSound square root) (hHeader : header.IsOf square root)
    (hDah : header.validateDah = .ok ()) {blobs : List (BlobWithSender D)} {proofs : List (BlobProof D)}
    {boundaryProof : Option (NamespaceBoundaryProof D)}
    (hAccepted : verifyBlobs header blobs ns proofs boundaryProof = .ok ()) (hParity : blobs = [] → ns ≠ D.parityShare) :
    (Authentic square.dataWidth (namespaceStart square root ns) (square.blobs ns) (examined blobs proofs) blobs ∧
        Forall₂ Reads blobs (square.supportedBlobs ns)) ↔
      Honest square.dataWidth (examined blobs proofs) blobs := by
  have hRoots := hHeader.rowRoots hDah
  have hAll : ∀ blob ∈ square.blobs ns, blob ∈ square.blobs ns := fun _ h => h
  have hFlatten : (square.blobs ns).flatten = square.shares ns := flatten_splitBy ..
  rcases eq_or_ne blobs [] with rfl | hBlobs
  · have hNone := blobs_eq_nil_of_accepted hSound hRoots (hParity rfl) hAccepted
    rw [supportedBlobs, hNone]
    exact ⟨fun _ => trivial, fun _ => ⟨.done _, .nil⟩⟩
  · obtain ⟨hParity, stop, hWalk, hStop⟩ := walk_of_accepted hSound hRoots hBlobs hAccepted
    rw [examined, if_neg hBlobs]
    constructor
    · rintro ⟨hAuthentic, -⟩
      exact (hAuthentic.honest hWalk hAll hParity).2 rfl (by rw [hFlatten]; exact hStop)
    · intro hHonest
      have hAuthentic := hWalk.authentic hSound hRoots hParity hHonest (q := 0) rfl (by rw [hFlatten, drop_zero])
        hAll hStop
      exact ⟨hAuthentic, hAuthentic.reads⟩

/-- Two blobs of one share and one byte each, from different signers, that fill a row. -/
def firstBlobShare : TableShare := ⟨1, true, 1, 7, [10]⟩

def secondBlobShare : TableShare := ⟨1, true, 1, 8, [20]⟩

def parityLeaf : Nat × TableShare := (tableParity, ⟨0, false, 0, 0, []⟩)

def paddingLeaf : Nat × TableShare := (2, ⟨0, true, 0, 0, []⟩)

def twoBlobRows : List TableRow :=
  [[(1, firstBlobShare), (1, secondBlobShare), parityLeaf, parityLeaf],
    [paddingLeaf, paddingLeaf, parityLeaf, parityLeaf],
    [parityLeaf, parityLeaf, parityLeaf, parityLeaf], [parityLeaf, parityLeaf, parityLeaf, parityLeaf]]

def twoBlobSquare : ExtendedDataSquare tableTypes where
  rows := twoBlobRows
  row_length := by decide
  parity := by decide
  ordered := by decide
  sequences _ _ := sequences_of_short (by decide) _
  fits := by decide

def twoBlobHeader : CelestiaHeader tableTypes := ⟨⟨twoBlobRows, twoBlobRows⟩, some (twoBlobRows, twoBlobRows)⟩

theorem twoBlobHeader_isOf : twoBlobHeader.IsOf twoBlobSquare id :=
  ⟨twoBlobRows, rfl, fun _ => rfl⟩

def readBlob (sender : Nat) (byte : UInt8) (share : TableShare) (start : Nat) : BlobWithSender tableTypes :=
  ⟨⟨⟨1, 1, [], 0, [⟨share, false⟩]⟩, [byte]⟩, (start, start + 1), sender, [share]⟩

def oneShareProof (share : TableShare) (proof : TableProof) (startShareIdx : Nat) : BlobProof tableTypes :=
  ⟨[⟨[⟨share, false⟩], proof, startShareIdx⟩]⟩

/-- A proof of the first blob that claims the position of the second one is accepted: the first
blob is read twice and the second one not at all. -/
theorem first_blob_replaces_second :
    NmtSound twoBlobSquare id ∧ twoBlobHeader.IsOf twoBlobSquare id ∧ twoBlobHeader.validateDah = .ok () ∧
      let blob := readBlob 7 10 firstBlobShare 0
      let proof : TableProof := ⟨0, none, some (1, secondBlobShare), true⟩
      verifyBlobs twoBlobHeader [blob, blob] (1 : Nat)
          [oneShareProof firstBlobShare proof 0, oneShareProof firstBlobShare proof 1] none = .ok () ∧
        ¬ Forall₂ Reads [blob, blob] (twoBlobSquare.supportedBlobs (1 : Nat)) := by
  refine ⟨tableTypes_sound _, twoBlobHeader_isOf, by decide, by decide +kernel, fun h => ?_⟩
  obtain ⟨-, h⟩ := forall₂_cons.mp h
  obtain ⟨⟨first, hFirst, hSender, -⟩, -⟩ := forall₂_cons.mp h
  cases hFirst
  cases hSender

/-- With the proof of the second blob both are authenticated. -/
theorem both_blobs_authentic : let blobs := [readBlob 7 10 firstBlobShare 0, readBlob 8 20 secondBlobShare 1]
    let proofs := [oneShareProof firstBlobShare ⟨0, none, some (1, secondBlobShare), true⟩ 0,
      oneShareProof secondBlobShare ⟨1, some (1, firstBlobShare), some parityLeaf, true⟩ 1]
    verifyBlobs twoBlobHeader blobs (1 : Nat) proofs none = .ok () ∧
      Authentic 2 0 [[firstBlobShare], [secondBlobShare]] proofs blobs ∧
      Forall₂ Reads blobs [[firstBlobShare], [secondBlobShare]] := by
  intro blobs proofs
  have hAccepted : verifyBlobs twoBlobHeader blobs (1 : Nat) proofs none = .ok () := by decide +kernel
  have hHonest : Honest twoBlobSquare.dataWidth proofs blobs := by
    simp [Honest, proofs, blobs, oneShareProof, readBlob, BlobProof.shares, BlobProof.Covers,
      RangeProof.InPlace, BlobWithSender.accumulator, payloadOf, firstBlobShare,
      secondBlobShare, twoBlobSquare, dataWidth, twoBlobRows, TableShare.length_payload]
  exact ⟨hAccepted, (verifyBlobs_authentic_iff (tableTypes_sound _) twoBlobHeader_isOf (by decide) hAccepted
    fun h => absurd h (cons_ne_nil _ _)).mpr hHonest⟩

end SovereignSdk.Celestia
