import SovereignSdk.Celestia.Completeness

/-! What the state transition function reads of an accepted blob, and how far the block fixes it. -/
namespace SovereignSdk.Celestia
open Outcome Bounded List Nat

variable {D : DaTypes} {square : ExtendedDataSquare D} {root : Row D → D.NamespacedHash}
  {header : CelestiaHeader D} {ns : D.Namespace}

/-- The reading part of `deserialize_or_try_slash_sender` in the zkVM; without a value the sender
is slashed. -/
def BlobWithSender.deserialize {β : Type} (tryFromSlice : List UInt8 → Option β) (blob : BlobWithSender D) :
    Except AdapterPanic (Option β) :=
  match tryFromSlice blob.accumulator with
  | some value => .ok (some value)
  | none => do
      let totalLen ← blob.totalLen
      ensure .dataNotProvided (blob.accumulator.length = totalLen)
      return none

def contentOf (shares : List D.ShareData) : List UInt8 :=
  (shares.flatMap D.payloadField).take (shares.head?.elim 0 D.sequenceLengthField)

def BlobAt (square : ExtendedDataSquare D) (root : Row D → D.NamespacedHash) (ns : D.Namespace) (position : Nat)
    (shares : List D.ShareData) : Prop :=
  ∃ before after, square.blobs ns = before ++ shares :: after ∧
    position = namespaceStart square root ns + before.flatten.length

variable {groups : List (List D.ShareData)} {shares shares' : List D.ShareData} {position length : Nat}
variable {read payload : List UInt8}

theorem eq_of_same_start {before before' after after'}
    (hGroups : ∀ blob ∈ groups, blob ≠ []) (h : groups = before ++ shares :: after)
    (h' : groups = before' ++ shares' :: after') (hStart : before.flatten.length = before'.flatten.length) :
    shares = shares' := by
  induction before generalizing groups before' with
  | nil =>
    cases before' with
    | nil => exact (cons.inj (h.symm.trans h')).1
    | cons blob rest =>
      subst h'
      have hNe := length_pos_iff.mpr (hGroups blob mem_cons_self)
      rw [flatten_nil, flatten_cons, length_append, length_nil] at hStart
      omega
  | cons blob rest ih =>
    cases before' with
    | nil =>
      subst h
      have hNe := length_pos_iff.mpr (hGroups blob mem_cons_self)
      rw [flatten_nil, flatten_cons, length_append, length_nil] at hStart
      omega
    | cons blob' rest' =>
      obtain ⟨rfl, hTail⟩ := cons.inj (h.symm.trans h')
      rw [flatten_cons, flatten_cons, length_append, length_append] at hStart
      subst h
      exact ih (fun b hb => hGroups b (mem_cons_of_mem _ hb)) rfl hTail (by omega)

theorem BlobAt.unique (h : BlobAt square root ns position shares) (h' : BlobAt square root ns position shares') :
    shares = shares' := by
  obtain ⟨before, after, hBlobs, _⟩ := h
  obtain ⟨before', after', hBlobs', _⟩ := h'
  exact eq_of_same_start (fun _ => ne_nil_of_mem_splitBy) hBlobs hBlobs' (by omega)

/-- What a blob says of itself and no check reads is true of the shares in the block. -/
structure Declared (ns : D.Namespace) (blob : BlobWithSender D) (shares : List D.ShareData) : Prop where
  totalLen : blob.totalLen = .ok (shares.head?.elim 0 D.sequenceLengthField)
  hash : D.commitmentFromShares ns shares = some blob.hash

/-- All that can be read of the blob is that of the shares in the block, and a sender is only
slashed for what is in the block. -/
structure FixedBy (ns : D.Namespace) (blob : BlobWithSender D) (shares : List D.ShareData) : Prop
    extends Declared ns blob shares where
  sender : shares.head?.map D.signerField = some blob.sender
  data : blob.accumulator <+: contentOf shares
  slashed : ∀ {β : Type} (tryFromSlice : List UInt8 → Option β), blob.deserialize tryFromSlice = .ok none →
    tryFromSlice (contentOf shares) = none

/-- The ranges that lie one after another, up to the first one out of place. -/
def placedRanges (k : Nat) : Nat → List (RangeProof D) → List (RangeProof D)
  | _, [] => []
  | start, range :: rest =>
    if range.shares = [] ∨ range.place k = start then
      range :: placedRanges k (start + range.shares.length) rest
    else []

theorem placedRanges_lieAt (k start : Nat) (ranges : List (RangeProof D)) :
    LieAt k start (placedRanges k start ranges) := by
  induction ranges generalizing start with
  | nil => trivial
  | cons range rest ih =>
    unfold placedRanges
    split
    · rename_i hPlaced
      exact ⟨fun hShares => hPlaced.resolve_left hShares, ih _⟩
    · trivial

theorem placedRanges_isPrefix (k start : Nat) (ranges : List (RangeProof D)) :
    placedRanges k start ranges <+: ranges := by
  induction ranges generalizing start with
  | nil => exact nil_prefix
  | cons range rest ih =>
    unfold placedRanges
    split
    · exact (prefix_cons_inj range).mpr (ih _)
    · exact nil_prefix

namespace BlobProof

def place (k : Nat) (proof : BlobProof D) : Nat := proof.rangeProofs.head?.elim 0 (·.place k)

/-- The shares that are proven to lie one after another from the first one on. -/
def placedShares (k : Nat) (proof : BlobProof D) : List (Share D) :=
  (placedRanges k (proof.place k) proof.rangeProofs).flatMap (·.shares)

theorem placedShares_isPrefix (k : Nat) (proof : BlobProof D) : proof.placedShares k <+: proof.shares := by
  obtain ⟨rest, hRest⟩ := placedRanges_isPrefix k (proof.place k) proof.rangeProofs
  unfold placedShares shares
  conv_rhs => rw [← hRest, flatMap_append]
  exact prefix_append _ _

end BlobProof

/-- The bytes read that no check covers are as in the block: there are none beyond its sequence
length, and those outside of the shares that are proven in their place are the same. -/
structure Unaltered (k : Nat) (proof : BlobProof D) (blob : BlobWithSender D) (shares : List D.ShareData) : Prop where
  length : blob.accumulator.length ≤ shares.head?.elim 0 D.sequenceLengthField
  unproven : blob.accumulator.drop (payloadOf (proof.placedShares k)).length <+:
    (contentOf shares).drop (payloadOf (proof.placedShares k)).length

/-- Every blob that was read was authenticated with its proof. -/
theorem Walk.authenticated {rowRoots stop proofs blobs} (h : Walk header rowRoots ns position proofs blobs stop)
    {proof blob}
    (hPair : (proof, blob) ∈ (proofs.filter BlobProof.supported).zip blobs) :
    ∃ first occupied, proof.StartsWith first ∧ Authenticated header rowRoots ns blob proof first occupied := by
  induction h with
  | done => cases hPair
  | skipped hFirst hSupp _ _ rest ih =>
    rw [filter_cons_of_neg (by rw [hFirst.supported, hSupp]; exact Bool.false_ne_true)] at hPair
    exact ih hPair
  | accepted hFirst hSupp _ hAuthenticated rest ih =>
    rw [filter_cons_of_pos (by rw [hFirst.supported, hSupp]), zip_cons_cons, mem_cons] at hPair
    rcases hPair with hHere | hLater
    · cases hHere
      exact ⟨_, _, hFirst, hAuthenticated⟩
    · exact ih hLater

theorem exists_blob_at
    (hGroups : ∀ blob ∈ groups, ∃ first rest, blob = first :: rest ∧ ∀ data ∈ rest, D.sequenceStartField data = false)
    {i data} (hShare : groups.flatten[i]? = some data)
    (hStart : D.sequenceStartField data = true) :
    ∃ before tail after, groups = before ++ (data :: tail) :: after ∧ before.flatten.length = i := by
  induction groups generalizing i with
  | nil => cases hShare
  | cons blob rest ih =>
    obtain ⟨first, tail, rfl, hTail⟩ := hGroups blob mem_cons_self
    rw [flatten_cons] at hShare
    rcases lt_or_ge i (first :: tail).length with hHere | hLater
    · rw [getElem?_append_left hHere] at hShare
      cases i with
      | zero =>
        cases hShare
        exact ⟨[], tail, rest, rfl, rfl⟩
      | succ i =>
        have hNot := hTail data (mem_of_getElem? hShare)
        exact absurd (hNot.symm.trans hStart) Bool.false_ne_true
    · rw [getElem?_append_right hLater] at hShare
      obtain ⟨before, tail', after, hRest, _⟩ :=
        ih (fun b hb => hGroups b (mem_cons_of_mem _ hb)) hShare
      refine ⟨(first :: tail) :: before, tail', after, by rw [hRest]; rfl, ?_⟩
      rw [flatten_cons, length_append]
      omega

theorem Agrees.of_append {more} (h : Agrees read (payload ++ more)) : Agrees read payload := by
  have hTake := congrArg (take payload.length) h
  rw [take_take, take_take, length_append, min_eq_left (le_add_right _ _), min_comm,
    ← take_take, take_left] at hTake
  exact hTake

theorem Agrees.isPrefix {covered} (h : Agrees read covered) (hCover : covered <+: payload)
    (hLen : read.length ≤ length) (hRest : read.drop covered.length <+: (payload.take length).drop covered.length) :
    read <+: payload.take length := by
  refine prefix_take_iff.mpr ⟨?_, hLen⟩
  rcases le_total read.length covered.length with hShort | hLong
  · exact (h.of_length_le hShort).trans hCover
  · obtain ⟨rest, rfl⟩ := hCover
    rw [Agrees, take_of_length_le hLong] at h
    rw [← take_append_drop covered.length read, h]
    refine (prefix_append_right_inj covered).mpr (hRest.trans ?_)
    rw [drop_take, drop_left]
    exact take_prefix _ _

theorem place_eq {k : Nat} {proof : BlobProof D} {first : Share D} (hFirst : proof.StartsWith first) :
    ∀ range ∈ proof.rangeProofs.head?, range.place k = proof.place k := by
  obtain ⟨range, rest, more, hRanges, -⟩ := hFirst.ranges
  simp [BlobProof.place, hRanges]

theorem deserialize_eq_none {β : Type} {tryFromSlice : List UInt8 → Option β} {blob : BlobWithSender D}
    (hTotal : blob.totalLen = .ok length) (h : blob.deserialize tryFromSlice = .ok none) :
    tryFromSlice blob.accumulator = none ∧ blob.accumulator.length = length := by
  unfold BlobWithSender.deserialize at h
  cases hRead : tryFromSlice blob.accumulator with
  | some value =>
    rw [hRead] at h
    cases h
  | none =>
    simp only [hRead, hTotal, ok_bind, bind_eq_ok, ensure_eq_ok] at h
    obtain ⟨_, hLen, -⟩ := h
    exact ⟨rfl, hLen⟩

section Accepted
variable (hSound : NmtSound square root) (hRoots : header.dah.rowRoots = square.rows.map root)
  {proof : BlobProof D} {blob : BlobWithSender D} {first : Share D} {occupied : Nat}
  (hAuthenticated : Authenticated header (header.namespaceRowRoots ns) ns blob proof first occupied)
include hSound hRoots hAuthenticated

theorem exists_blobAt (hFirst : proof.StartsWith first) :
    ∃ tail, BlobAt square root ns (proof.place square.dataWidth) (first.data :: tail) := by
  obtain ⟨_, hShare⟩ := first_share hSound hRoots hAuthenticated.parity hFirst
    (fun range hr => hAuthenticated.checked range (mem_of_mem_head? hr)) (place_eq hFirst)
  have hFlat : (square.blobs ns).flatten = square.shares ns := flatten_splitBy ..
  rw [← hFlat] at hShare
  obtain ⟨before, tail, after, hBlobs, _⟩ :=
    exists_blob_at (fun _ => blobsOf_cons) hShare hAuthenticated.start
  exact ⟨tail, before, after, hBlobs, by omega⟩

theorem placedShares_in_blob {tail}
    (hBlob : BlobAt square root ns (proof.place square.dataWidth) (first.data :: tail))
    (hLen : blob.accumulator.length ≤ D.sequenceLengthField first.data) :
    (proof.placedShares square.dataWidth).map (·.data) <+: first.data :: tail := by
  obtain ⟨before, after, hBlobs, hPlace⟩ := hBlob
  have hFlat : (square.blobs ns).flatten = square.shares ns := flatten_splitBy ..
  have hChk : ∀ range ∈ placedRanges square.dataWidth (proof.place square.dataWidth) proof.rangeProofs,
      range.Checked header (header.namespaceRowRoots ns) ns :=
    fun range hr => hAuthenticated.checked range ((placedRanges_isPrefix _ _ _).subset hr)
  have hShares := (placedRanges_lieAt square.dataWidth _ proof.rangeProofs).shares hSound hRoots
    hAuthenticated.parity hChk (by omega)
  rw [hPlace, Nat.add_sub_cancel_left, ← hFlat, hBlobs, flatten_append, drop_left, ← hPlace] at hShares
  refine prefix_of_prefix_length_le hShares (prefix_append _ _) ?_
  have hNeeded := square.sequences ns hAuthenticated.parity _ (hBlobs ▸ mem_append_right before mem_cons_self)
    first.data rfl hAuthenticated.start
  calc ((proof.placedShares square.dataWidth).map (·.data)).length
      ≤ proof.shares.length := by
        rw [length_map]
        exact (proof.placedShares_isPrefix square.dataWidth).length_le
    _ ≤ sharesNeededForBytes (D.sequenceLengthField first.data) := by
        rw [hAuthenticated.count]
        exact Nat.max_le.mpr ⟨sharesNeededForBytes_mono hLen, sharesNeededForBytes_pos _⟩
    _ ≤ (first.data :: tail).length := hNeeded

end Accepted

/-- There is one blob of the block at the place of an accepted one. Unless the length and the hash that
no check reads are false, all that can be read is fixed by the block if and only if the bytes that no
check covers were left as they are. -/
theorem accepted_blob_fixed_iff (hSound : NmtSound square root) (hHeader : header.IsOf square root)
    (hDah : header.validateDah = .ok ()) {blobs : List (BlobWithSender D)} {proofs : List (BlobProof D)}
    {boundaryProof : Option (NamespaceBoundaryProof D)}
    (hAccepted : verifyBlobs header blobs ns proofs boundaryProof = .ok ()) {proof : BlobProof D}
    {blob : BlobWithSender D} (hPair : (proof, blob) ∈ (proofs.filter BlobProof.supported).zip blobs) :
    (∃ shares, BlobAt square root ns (proof.place square.dataWidth) shares) ∧
      ∀ shares, BlobAt square root ns (proof.place square.dataWidth) shares → Declared ns blob shares →
        (FixedBy ns blob shares ↔ Unaltered square.dataWidth proof blob shares) := by
  have hRoots := hHeader.rowRoots hDah
  have hBlobs : blobs ≠ [] := by
    rintro rfl
    rw [zip_nil_right] at hPair
    cases hPair
  obtain ⟨-, stop, hWalk, -⟩ := walk_of_accepted hSound hRoots hBlobs hAccepted
  obtain ⟨first, occupied, hFirst, hAuthenticated⟩ := hWalk.authenticated hPair
  obtain ⟨tail, hBlob⟩ := exists_blobAt hSound hRoots hAuthenticated hFirst
  refine ⟨⟨_, hBlob⟩, fun shares hShares hDeclared => ?_⟩
  obtain rfl := hShares.unique hBlob
  refine ⟨fun h => ⟨?_, h.data.drop _⟩, fun h => ?_⟩
  · exact h.data.length_le.trans (length_take_le _ _)
  · have hPlaced := placedShares_in_blob hSound hRoots hAuthenticated hBlob h.length
    obtain ⟨more, hMore⟩ := proof.placedShares_isPrefix square.dataWidth
    have hAgrees := hAuthenticated.agrees
    rw [← hMore, payloadOf, flatMap_append] at hAgrees
    have hData : blob.accumulator <+: contentOf (first.data :: tail) :=
      hAgrees.of_append.isPrefix (payloadOf_isPrefix hPlaced) h.length h.unproven
    refine ⟨hDeclared, congrArg some hAuthenticated.sender, hData, fun tryFromSlice hNone => ?_⟩
    obtain ⟨hRead, hAll⟩ := deserialize_eq_none hDeclared.totalLen hNone
    rw [← hData.eq_of_length_le (hAll ▸ length_take_le _ _)]
    exact hRead

def readTen (bytes : List UInt8) : Option Unit := if bytes = [10] then some () else none

/-- A blob of which nothing has been read and that claims to have nothing, under the hash of another one. -/
def emptiedBlob : BlobWithSender tableTypes := ⟨⟨⟨0, 0, [], 0, []⟩, []⟩, (0, 1), (7 : Nat), [secondBlobShare]⟩

/-- The verifier accepts the emptied blob for a well-formed batch, and its sender is slashed. -/
theorem emptied_blob_is_slashed :
    NmtSound twoBlobSquare id ∧ twoBlobHeader.IsOf twoBlobSquare id ∧ twoBlobHeader.validateDah = .ok () ∧
      let blobs := [emptiedBlob, readBlob 8 20 secondBlobShare 1]
      let proofs := [oneShareProof firstBlobShare ⟨0, none, some (1, secondBlobShare), true⟩ 0,
        oneShareProof secondBlobShare ⟨1, some (1, firstBlobShare), some parityLeaf, true⟩ 1]
      verifyBlobs twoBlobHeader blobs (1 : Nat) proofs none = .ok () ∧
        BlobAt twoBlobSquare id (1 : Nat) 0 [firstBlobShare] ∧
        readTen (contentOf (D := tableTypes) [firstBlobShare]) = some () ∧
        emptiedBlob.deserialize readTen = .ok none ∧ ¬ FixedBy (1 : Nat) emptiedBlob [firstBlobShare] := by
  refine ⟨tableTypes_sound _, twoBlobHeader_isOf, by decide, by decide +kernel,
    ⟨[], [[secondBlobShare]], by decide, by decide⟩, by decide +kernel, by decide, fun h => ?_⟩
  cases h.totalLen

/-- Nothing is altered in the blobs of the honest reader. -/
theorem first_blob_is_fixed : FixedBy (1 : Nat) (readBlob 7 10 firstBlobShare 0) [firstBlobShare] := by
  have hAccepted : verifyBlobs twoBlobHeader [readBlob 7 10 firstBlobShare 0, readBlob 8 20 secondBlobShare 1] (1 : Nat)
      [oneShareProof firstBlobShare ⟨0, none, some (1, secondBlobShare), true⟩ 0,
        oneShareProof secondBlobShare ⟨1, some (1, firstBlobShare), some parityLeaf, true⟩ 1] none = .ok () := by
    decide +kernel
  have hBlob : BlobAt twoBlobSquare id (1 : Nat) 0 [firstBlobShare] := ⟨[], [[secondBlobShare]], by decide, by decide⟩
  refine ((accepted_blob_fixed_iff (tableTypes_sound _) twoBlobHeader_isOf (by decide) hAccepted
    mem_cons_self).2 _ hBlob ⟨by decide, rfl⟩).mpr ⟨by decide, ?_⟩
  decide +kernel

end SovereignSdk.Celestia
