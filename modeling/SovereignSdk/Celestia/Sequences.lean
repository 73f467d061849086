import SovereignSdk.Celestia.Ranges

/-! The iterator over the shares of a namespace finds the blobs that are laid out in it. -/
namespace SovereignSdk.Celestia
open Outcome Bounded List Nat ShareSequence

variable {D : DaTypes} {first : D.ShareData} {tail : List D.ShareData}

/-- A valid blob, with its shares as the iterator tells them apart. -/
structure LaidOut (first : D.ShareData) (tail : List D.ShareData) : Prop extends ValidBlob first tail where
  continues : ∀ data ∈ tail, D.sequenceStartField data = false

def AllLaidOut (groups : List (List D.ShareData)) : Prop :=
  ∀ group ∈ groups, ∃ first tail, group = first :: tail ∧ LaidOut first tail

/-- The sequences that the iterator returns for the blobs from share `q` on: all but the padding. -/
def sequencesOf : Nat → List (List D.ShareData) → List (ShareSequence D)
  | _, [] => []
  | q, group :: groups =>
    if group.head?.any fun first => D.sequenceLengthField first == 0 then sequencesOf (q + group.length) groups
    else ⟨group.map shareOf, (q, q + group.length)⟩ :: sequencesOf (q + group.length) groups

namespace NamespaceDataIterator

theorem isStart_shareOf (data : D.ShareData) : isStart (shareOf data) = D.sequenceStartField data := rfl

theorem isTailPadding_shareOf (data : D.ShareData) :
    isTailPadding (shareOf data) = (D.sequenceStartField data && D.sequenceLengthField data == 0) := by
  cases hStart : D.sequenceStartField data with
  | true => rw [isTailPadding, shareOf_sequenceLength hStart]; rfl
  | false => simp [isTailPadding, Share.sequenceLength, hStart]

variable {rest : List (Share D)} {q : Nat}

variable {offset start : Nat} {current : List (Share D)}

theorem collectShares_tail (hTail : ∀ data ∈ tail, D.sequenceStartField data = false) :
    collectShares offset (some start) current (tail.map shareOf ++ rest) =
      collectShares (offset + tail.length) (some start) (current ++ tail.map shareOf) rest := by
  induction tail generalizing offset current with
  | nil => rw [map_nil, nil_append, append_nil, length_nil, add_zero]
  | cons data tail ih =>
    have hData := hTail data mem_cons_self
    rw [map_cons, cons_append, collectShares, if_neg (by simp [isStart_shareOf, hData]),
      if_pos (by rw [isTailPadding_shareOf, hData]; exact ⟨rfl, rfl⟩)]
    dsimp only [Option.getD_some]
    rw [ih fun other hMem => hTail other (mem_cons_of_mem data hMem), append_assoc, add_assoc, add_comm 1]
    rfl

theorem collectShares_stop (hCur : current ≠ []) (hRest : ∀ share ∈ rest.head?, isStart share = true) :
    collectShares offset (some start) current rest = .ok (some ⟨current, start, offset⟩, ⟨offset, rest⟩) := by
  cases rest with
  | nil =>
    rw [collectShares, if_pos hCur]
    rfl
  | cons share rest =>
    rw [collectShares, if_pos ⟨hRest share rfl, hCur⟩]
    rfl

theorem next_blob (hBlob : LaidOut first tail) (hLen : D.sequenceLengthField first ≠ 0)
    (hRest : ∀ share ∈ rest.head?, isStart share = true) :
    next ⟨q, (first :: tail).map shareOf ++ rest⟩ =
      .ok (some ⟨(first :: tail).map shareOf, q, q + (first :: tail).length⟩, ⟨q + (first :: tail).length, rest⟩) := by
  have hPadding : isTailPadding (shareOf first) = false := by
    rw [isTailPadding_shareOf, Bool.and_eq_false_iff]
    exact .inr (beq_eq_false_iff_ne.mpr hLen)
  rw [next, map_cons, cons_append, collectShares, if_neg (by simp), if_pos ⟨hPadding, rfl⟩]
  rw [collectShares_tail hBlob.continues, collectShares_stop (by simp) hRest, add_assoc,
    add_comm 1]
  rfl

theorem next_padding (hBlob : LaidOut first tail) (hLen : D.sequenceLengthField first = 0) :
    next ⟨q, (first :: tail).map shareOf ++ rest⟩ = next ⟨q + (first :: tail).length, rest⟩ := by
  have hAlone : (first :: tail).length = 1 := by
    rw [hBlob.count, hLen]
    unfold startCapacity
    split <;> rfl
  have hTail : tail = [] := length_eq_zero_iff.mp (succ.inj hAlone)
  rw [next, hTail, map_cons, cons_append, collectShares,
    if_neg (by simp), if_neg (by simp [isTailPadding_shareOf, hBlob.start, hLen])]
  rfl

theorem head_isStart {groups : List (List D.ShareData)} (h : AllLaidOut groups) :
    ∀ share ∈ (groups.flatten.map shareOf).head?, isStart share = true := by
  cases groups with
  | nil => exact fun _ hMem => absurd hMem (by simp)
  | cons group groups =>
    obtain ⟨first, tail, rfl, hBlob⟩ := h group mem_cons_self
    rintro share hMem
    cases hMem
    exact hBlob.start

theorem collect_ok {n : Nat} {groups : List (List D.ShareData)} (h : AllLaidOut groups) (hn : groups.length ≤ n) :
    collect n ⟨q, groups.flatten.map shareOf⟩ = .ok (sequencesOf q groups) := by
  induction groups generalizing q n with
  | nil =>
    cases n with
    | zero | succ => rfl
  | cons group groups ih =>
    obtain ⟨first, tail, rfl, hBlob⟩ := h group mem_cons_self
    have hOthers : AllLaidOut groups := fun other hMem => h other (mem_cons_of_mem _ hMem)
    cases n with
    | zero => exact absurd hn (not_succ_le_zero _)
    | succ n =>
      have hn : groups.length ≤ n := le_of_succ_le_succ hn
      rw [flatten_cons, map_append]
      rcases eq_or_ne (D.sequenceLengthField first) 0 with hZero | hSome
      · rw [sequencesOf, if_pos (by simp [hZero]), ← ih hOthers (le_succ_of_le hn), collect, collect,
          next_padding hBlob hZero]
      · rw [sequencesOf, if_neg (by simpa using hSome), collect, next_blob hBlob hSome (head_isStart hOthers)]
        simp only [ok_bind, ih hOthers hn]
        rfl

end NamespaceDataIterator

theorem length_flatMap_payloadField (hLoad : ∀ share ∈ tail,
      (D.payloadField share).length = continuationSparseShareContentSize) :
    (tail.flatMap D.payloadField).length = tail.length * continuationSparseShareContentSize := by
  induction tail with
  | nil => exact (zero_mul _).symm
  | cons share tail ih =>
    rw [flatMap_cons, length_append, hLoad share mem_cons_self,
      ih fun other hMem => hLoad other (mem_cons_of_mem share hMem), length_cons, succ_mul,
      add_comm]

theorem ValidBlob.length_le (h : ValidBlob first tail) :
    D.sequenceLengthField first ≤ ((first :: tail).flatMap D.payloadField).length := by
  have hCount := h.count
  rw [flatMap_cons, length_append, h.startPayload, length_flatMap_payloadField h.payload]
  unfold sharesOfLength continuationSparseShareContentSize at hCount
  rw [length_cons] at hCount
  unfold continuationSparseShareContentSize
  omega

theorem ValidBlob.payload_ne_nil (h : ValidBlob first tail) : ∀ share ∈ first :: tail, D.payloadField share ≠ [] := by
  rintro share (_ | ⟨_, hMem⟩)
  · rw [← length_pos_iff, h.startPayload]
    unfold startCapacity
    split <;> decide
  · rw [← length_pos_iff, h.payload share hMem]
    decide

theorem payloadOf_map_shareOf (shares : List D.ShareData) :
    payloadOf (shares.map shareOf) = shares.flatMap D.payloadField := List.flatMap_map ..

variable {ns : D.Namespace} {q : Nat} {groups : List (List D.ShareData)}

theorem blobWithSender_supported (hBlob : ValidBlob first tail)
    (hCommit : (D.commitmentFromShares ns (first :: tail)).isSome = true) (hSupp : isSupported first = true) :
    ∃ blob, (⟨(first :: tail).map shareOf, q, q + (first :: tail).length⟩ : ShareSequence D).blobWithSender ns =
        .ok (some blob) ∧
      blob.rangeInNamespace = (q, q + (first :: tail).length) ∧ D.signerField first = blob.sender ∧
      blob.blob.Reading ((first :: tail).flatMap D.payloadField) (D.sequenceLengthField first) := by
  obtain ⟨commitment, hCommit⟩ := Option.isSome_iff_exists.mp hCommit
  have hSigner : (shareOf first).signer = some (D.signerField first) := by
    have hVers : D.versionField first = 1 := by
      simp only [isSupported, Bool.and_eq_true, beq_iff_eq] at hSupp
      exact hSupp.1
    simp [Share.signer, hBlob.start, hVers]
  have hEnough : D.sequenceLengthField first ≤ (payloadOf ((first :: tail).map shareOf)).length := by
    rw [payloadOf_map_shareOf]
    exact hBlob.length_le
  have hData : ∀ share ∈ shareOf first :: tail.map shareOf, share.isParity = false ∧ D.payloadField share.data ≠ [] := by
    intro share hMem
    rw [← map_cons] at hMem
    obtain ⟨data, hData, rfl⟩ := mem_map.mp hMem
    exact ⟨rfl, hBlob.payload_ne_nil data hData⟩
  obtain ⟨iterator, hIterator, hReading⟩ := CountedBufReader.Reading.of_ofBlob hData hBlob.start hEnough
  refine ⟨⟨CountedBufReader.new iterator, (q, q + (first :: tail).length), D.signerField first, commitment⟩, ?_,
    rfl, rfl, ?_⟩
  · simp only [blobWithSender, data_map_shareOf, hCommit, unwrap_some]
    simp only [map_cons, head?_cons, unwrap_some, ok_bind, hSigner, hIterator]
    rfl
  · rw [← payloadOf_map_shareOf]
    exact hReading

theorem exists_extracted (q : Nat) (h : AllLaidOut groups)
    (hCommitments : ∀ group ∈ groups, (D.commitmentFromShares ns group).isSome = true) :
    ∃ found ranges, (sequencesOf q groups).mapM (blobWithSender ns) = .ok found ∧
      Extracted q groups found.reduceOption ranges := by
  induction groups generalizing q with
  | nil => exact ⟨[], [], rfl, .done q⟩
  | cons group groups ih =>
    obtain ⟨first, tail, rfl, hBlob⟩ := h group mem_cons_self
    obtain ⟨found, ranges, hFound, hRest⟩ := ih (q + (first :: tail).length)
      (fun other hMem => h other (mem_cons_of_mem _ hMem))
      (fun other hMem => hCommitments other (mem_cons_of_mem _ hMem))
    have hCommit := hCommitments _ mem_cons_self
    rcases eq_or_ne (D.sequenceLengthField first) 0 with hZero | hSome
    · have hSupp : isSupported first = false := by simp [isSupported, hBlob.start, hZero]
      rw [sequencesOf, if_pos (by simp [hZero])]
      exact ⟨found, _, hFound, .skipped hBlob.toValidBlob hSupp hRest⟩
    · rw [sequencesOf, if_neg (by simpa using hSome)]
      cases hSupp : isSupported first with
      | false =>
        have hVers := (hBlob.unsupported_cases hSupp).resolve_left hSome
        refine ⟨none :: found, _, mapM_cons_eq_ok.mpr ⟨none, found, ?_, hFound, rfl⟩,
          .skipped hBlob.toValidBlob hSupp hRest⟩
        obtain ⟨commitment, hCommit⟩ := Option.isSome_iff_exists.mp hCommit
        have hSigner : (shareOf first).signer = none := by simp [Share.signer, hVers]
        simp only [blobWithSender, data_map_shareOf, hCommit, unwrap_some]
        simp only [map_cons, head?_cons, unwrap_some, ok_bind, hSigner]
        rfl
      | true =>
        obtain ⟨blob, hBlobOk, hRange, hSender, hReading⟩ :=
          blobWithSender_supported (q := q) hBlob.toValidBlob hCommit hSupp
        exact ⟨some blob :: found, _, mapM_cons_eq_ok.mpr ⟨some blob, found, hBlobOk, hFound, rfl⟩,
          .read hBlob.toValidBlob hSupp hRange hSender hReading hRest⟩

variable {blobs : List (BlobWithSender D)} {ranges : List (Nat × Nat)}

theorem Extracted.advanceAll (h : Extracted q groups blobs ranges) (requests : Nat → List Nat) (i : Nat) :
    ∃ read ranges', (blobs.zipIdx i).mapM (fun blob => blob.1.advanceAll (requests blob.2)) = .ok read ∧
      Extracted q groups read ranges' := by
  induction h generalizing i with
  | done q => exact ⟨[], [], rfl, .done q⟩
  | skipped hValid hSupp rest ih =>
    obtain ⟨read, ranges', hRead, hRest⟩ := ih i
    exact ⟨read, _, hRead, .skipped hValid hSupp hRest⟩
  | @read q first tail groups blob blobs ranges hValid hSupp hRange hSender hReading rest ih =>
    obtain ⟨read, ranges', hRead, hRest⟩ := ih (i + 1)
    obtain ⟨reader, hReader, hReading⟩ := BlobWithSender.advanceAll_ok hReading (requests i)
    refine ⟨{ blob with blob := reader } :: read, _, ?_, .read hValid hSupp hRange hSender hReading hRest⟩
    exact mapM_cons_eq_ok.mpr ⟨_, _, hReader, hRead, rfl⟩

theorem Extracted.blobs_eq_nil_iff (h : Extracted q groups blobs ranges) :
    blobs = [] ↔ (groups.filter fun shares => shares.head?.any isSupported) = [] := by
  induction h with
  | done q => exact ⟨fun _ => rfl, fun _ => rfl⟩
  | skipped _ hSupp rest ih => rw [filter_cons_of_neg (by simpa using hSupp), ih]
  | read _ hSupp _ _ _ rest ih =>
    rw [filter_cons_of_pos (by simpa using hSupp)]
    simp

section Fetched
variable {square : ExtendedDataSquare D} {root : Row D → D.NamespacedHash} {data : NamespaceRelevantData D}

theorem allLaidOut_blobs {ns} (hValid : ValidNamespace square ns) : AllLaidOut (square.blobs ns) := by
  intro group hMem
  obtain ⟨first, tail, rfl, hBlob⟩ := (hValid group hMem).1
  obtain ⟨_, _, hSame, hContinues⟩ := blobsOf_cons hMem
  cases hSame
  exact ⟨first, tail, rfl, hBlob, hContinues⟩

theorem getBlobsWithSender_ok (hSound : NmtSound square root) (hData : data.IsOf square root)
    (hValid : ValidNamespace square data.ns) :
    ∃ blobs ranges, data.getBlobsWithSender = .ok blobs ∧ Extracted 0 (square.blobs data.ns) blobs ranges := by
  have hLaidOut := allLaidOut_blobs hValid
  obtain ⟨found, ranges, hFound, hExtr⟩ := exists_extracted 0 hLaidOut fun group hMem => (hValid group hMem).2
  refine ⟨found.reduceOption, ranges, ?_, hExtr⟩
  rw [NamespaceRelevantData.getBlobsWithSender, flatShares_eq hData hSound, fetchedShares, ← flatten_blobs]
  refine bind_eq_ok.mpr ⟨_, NamespaceDataIterator.collect_ok hLaidOut ?_, bind_eq_ok.mpr ⟨found, hFound, rfl⟩⟩
  rw [length_map]
  exact Segments.length_le_flatten fun group hMem => ne_nil_of_mem_splitBy hMem

end Fetched
end SovereignSdk.Celestia
