import SovereignSdk.Celestia.BlobChecks

/-! The loop over the proofs of a namespace as a walk over the positions that they claim. -/
namespace SovereignSdk.Celestia
open Outcome Bounded Nat

variable {D : DaTypes} {header : CelestiaHeader D} {rowRoots : List D.NamespacedHash} {ns : D.Namespace}
  {proof : BlobProof D} {proofs : List (BlobProof D)} {blobs : List (BlobWithSender D)}

/-- Proofs that follow one another from one position to another; each supported one takes
the next blob. -/
inductive Walk (header : CelestiaHeader D) (rowRoots : List D.NamespacedHash) (ns : D.Namespace) :
    Nat → List (BlobProof D) → List (BlobWithSender D) → Nat → Prop where
  | done (position : Nat) : Walk header rowRoots ns position [] [] position
  | skipped {position occupied stop : Nat} {proof : BlobProof D} {first : Share D}
      {proofs : List (BlobProof D)} {blobs : List (BlobWithSender D)} (hFirst : proof.StartsWith first)
      (hSupported : isSupported first.data = false)
      (hStart : ∀ range ∈ proof.rangeProofs.head?, range.startShareIdx = position)
      (hSkipped : Skipped header rowRoots ns proof first occupied)
      (rest : Walk header rowRoots ns (position + occupied) proofs blobs stop) :
      Walk header rowRoots ns position (proof :: proofs) blobs stop
  | accepted {position occupied stop : Nat} {proof : BlobProof D} {first : Share D} {blob : BlobWithSender D}
      {proofs : List (BlobProof D)} {blobs : List (BlobWithSender D)} (hFirst : proof.StartsWith first)
      (hSupported : isSupported first.data = true) (hStarts : StartsAt position proof.rangeProofs)
      (hAuthenticated : Authenticated header rowRoots ns blob proof first occupied)
      (rest : Walk header rowRoots ns (position + occupied) proofs blobs stop) :
      Walk header rowRoots ns position (proof :: proofs) (blob :: blobs) stop

theorem sharesNeededForBytes_pos (payloadBytes : Nat) : 0 < sharesNeededForBytes payloadBytes := by
  unfold sharesNeededForBytes
  split
  · exact one_pos
  · exact Nat.add_pos_left Nat.one_pos _

theorem sharesNeededForBytes_mono {m n} (h : m ≤ n) : sharesNeededForBytes m ≤ sharesNeededForBytes n := by
  unfold sharesNeededForBytes firstSparseShareContentSize continuationSparseShareContentSize
  split <;> split <;> omega

variable {blobIdx : Nat} {out : Option Nat}

variable {last : Option Nat} {occupied : Nat} {first : Share D} {blobs' : List (BlobWithSender D)}

theorem blobProofRangeStart_ok {start} (h : blobProofRangeStart header ns blobIdx last proof = .ok start) :
    BlobProof.enforceContinuity.go proof.rangeProofs = .ok () ∧
      (blobIdx = 0 → proof.verifyLeftBoundary header ns = .ok start) ∧
      (blobIdx ≠ 0 → ∃ prev, last = some prev ∧ proof.verifyContinuity prev = .ok start) := by
  simp only [blobProofRangeStart] at h
  split at h
  · simp only [bind_eq_ok, mapError_eq_ok, pure_eq_ok] at h
    obtain ⟨_, hBound, _, hCont, rfl⟩ := h
    exact ⟨hCont, fun _ => hBound, fun hNot => absurd ‹_› hNot⟩
  · simp only [bind_eq_ok, mapError_eq_ok, unwrap_eq_ok, pure_eq_ok] at h
    obtain ⟨prev, hPrev, _, hNext, _, hCont, rfl⟩ := h
    exact ⟨hCont, fun hZero => absurd hZero ‹_›, fun _ => ⟨prev, hPrev, hNext⟩⟩

theorem verifyBlobProofs_cons_ok
    (h : verifyBlobProofs header rowRoots ns blobIdx last (proof :: proofs) blobs = .ok out) :
    ∃ start first occupied blobs', blobProofRangeStart header ns blobIdx last proof = .ok start ∧
      proof.StartsWith first ∧
      (isSupported first.data = false ∧ blobs' = blobs ∧ Skipped header rowRoots ns proof first occupied ∨
        isSupported first.data = true ∧
          ∃ blob, blobs = blob :: blobs' ∧ Authenticated header rowRoots ns blob proof first occupied) ∧
      0 < occupied ∧ verifyBlobProofs header rowRoots ns (blobIdx + 1) (some (advanceShareIdx start occupied last)) proofs
        blobs' = .ok out := by
  rw [verifyBlobProofs] at h
  simp only [bind_eq_ok] at h
  obtain ⟨start, hStart, supported, hSupported, h⟩ := h
  obtain ⟨first, hFirst, hData, rfl⟩ := isSupportedBlob_ok hSupported
  split at h
  · rename_i hYes
    cases blobs with
    | nil => cases h
    | cons blob blobs =>
      obtain ⟨occupied, hBlob, hRest⟩ := bind_eq_ok.mp h
      have hAuth := authenticateBlobData_ok hFirst hData hBlob
      exact ⟨start, first, occupied, blobs, hStart, hFirst, .inr ⟨hYes, blob, rfl, hAuth⟩,
        hAuth.occupies ▸ sharesNeededForBytes_pos _, hRest⟩
  · rename_i hNot
    obtain ⟨occupied, hBlob, hRest⟩ := bind_eq_ok.mp h
    have hSkipped := verifySkippedBlob_ok hFirst hBlob
    exact ⟨start, first, occupied, blobs, hStart, hFirst, .inl ⟨Bool.eq_false_iff.mpr hNot, rfl, hSkipped⟩,
      hSkipped.occupies ▸ sharesNeededForBytes_pos _, hRest⟩

theorem walk_cons {position stop range rest}
    (hUsize : rowRoots.length * header.rowLength ≤ D.usizeMax) (hFirst : proof.StartsWith first)
    (hRanges : proof.rangeProofs = range :: rest) (hStart : range.startShareIdx = position)
    (hCont : BlobProof.enforceContinuity.go proof.rangeProofs = .ok ())
    (hBlob : isSupported first.data = false ∧ blobs' = blobs ∧ Skipped header rowRoots ns proof first occupied ∨
      isSupported first.data = true ∧
        ∃ blob, blobs = blob :: blobs' ∧ Authenticated header rowRoots ns blob proof first occupied)
    (hRest : Walk header rowRoots ns (position + occupied) proofs blobs' stop) :
    Walk header rowRoots ns position (proof :: proofs) blobs stop := by
  obtain ⟨hSupported, rfl, hSkipped⟩ | ⟨hSupported, blob, rfl, hAuthenticated⟩ := hBlob
  · refine .skipped hFirst hSupported (fun r hr => ?_) hSkipped hRest
    rw [hRanges, List.head?_cons, Option.mem_some_iff] at hr
    exact hr ▸ hStart
  · refine .accepted hFirst hSupported ?_ hAuthenticated hRest
    rw [hRanges] at hCont ⊢
    rw [← hStart]
    exact enforceContinuity_ok hUsize (hRanges ▸ hAuthenticated.checked) hCont

theorem verifyBlobProofs_walk (hUsize : rowRoots.length * header.rowLength ≤ D.usizeMax) {last}
    (hIdx : blobIdx ≠ 0) (h : verifyBlobProofs header rowRoots ns blobIdx (some last) proofs blobs = .ok out) :
    ∃ stop, Walk header rowRoots ns (last + 1) proofs blobs stop ∧ last + 1 ≤ stop ∧ out = some (stop - 1) := by
  induction proofs generalizing blobIdx last blobs with
  | nil =>
    cases blobs with
    | nil =>
      cases h
      exact ⟨last + 1, .done _, le_refl _, rfl⟩
    | cons blob blobs => cases h
  | cons proof proofs ih =>
    obtain ⟨start, first, occupied, blobs', hStart, hFirst, hBlob, -, hLoop⟩ := verifyBlobProofs_cons_ok h
    obtain ⟨hCont, -, hNext⟩ := blobProofRangeStart_ok hStart
    obtain ⟨prev, hPrev, hNext⟩ := hNext hIdx
    cases hPrev
    obtain ⟨rfl, range, rest, hRanges, hPos⟩ := verifyContinuity_ok hNext
    obtain ⟨stop, hWalk, hStop, hOut⟩ := ih (succ_ne_zero blobIdx) hLoop
    have hMove : last + occupied + 1 = last + 1 + occupied := add_right_comm ..
    rw [show advanceShareIdx (last + 1) occupied (some last) = last + occupied from rfl, hMove] at hWalk hStop
    exact ⟨stop, walk_cons hUsize hFirst hRanges hPos hCont hBlob hWalk, by omega, hOut⟩

/-- The whole loop is a walk from the start of the first proof. -/
theorem verifyBlobProofs_start (hUsize : rowRoots.length * header.rowLength ≤ D.usizeMax)
    (h : verifyBlobProofs header rowRoots ns 0 none (proof :: proofs) blobs = .ok out) :
    ∃ start stop, proof.verifyLeftBoundary header ns = .ok start ∧
      Walk header rowRoots ns start (proof :: proofs) blobs stop ∧ start < stop ∧ out = some (stop - 1) := by
  obtain ⟨start, first, occupied, blobs', hStart, hFirst, hBlob, hPos, hLoop⟩ := verifyBlobProofs_cons_ok h
  obtain ⟨hCont, hBound, -⟩ := blobProofRangeStart_ok hStart
  have hBound := hBound rfl
  obtain ⟨range, rest, hRanges, hPosition, -⟩ := verifyLeftBoundary_ok hBound
  obtain ⟨stop, hWalk, hStop, hOut⟩ := verifyBlobProofs_walk hUsize one_ne_zero hLoop
  have hMove : start + occupied - 1 + 1 = start + occupied := by omega
  rw [show advanceShareIdx start occupied none = start + occupied - 1 from rfl, hMove] at hWalk hStop
  exact ⟨start, stop, hBound, walk_cons hUsize hFirst hRanges hPosition hCont hBlob hWalk, by omega, hOut⟩

end SovereignSdk.Celestia
