import SovereignSdk.BlobStorage.SelectionCases

/-! How far a selection moves the visible slot number, and which deferred blobs it
takes out of storage on the way. -/
namespace SovereignSdk
open Bounded Outcome List

variable {S : Spec}

/-- The heights right after the chain has been synchronized with a new DA block. -/
structure ChainState.Synced (c : ChainState S) : Prop where
  visible_lt : c.visibleSlotNumber < c.trueSlotNumber
  true_u64 : c.trueSlotNumber ≤ u64Max

/-- The lag of the visible slot number that a selection may find. -/
def ChainState.LagWithin (c : ChainState S) : Prop :=
  c.trueSlotNumber ≤ c.visibleSlotNumber + max S.deferredSlotsCount 1

theorem maxSlotsToAdvance_le (c : ChainState S) : maxSlotsToAdvance c ≤ c.trueSlotNumber - c.visibleSlotNumber := by
  have hMax := S.maxVisibleHeightIncreasePerSlot_u8
  unfold maxSlotsToAdvance
  dsimp only
  split
  · exact Nat.min_le_left _ _
  · omega

theorem maxSlotsToAdvance_pos {c : ChainState S} (hLag : c.visibleSlotNumber < c.trueSlotNumber)
    (hMax : 0 < S.maxVisibleHeightIncreasePerSlot) : 0 < maxSlotsToAdvance c := by
  unfold maxSlotsToAdvance
  dsimp only
  split
  · omega
  · omega

theorem visibleSlotNumberIncrease_pos {b : PreferredBlobData S} {n : Nat}
    (h : b.visibleSlotNumberIncrease = some n) : 0 < n := by
  cases b with
  | batch data =>
    cases h
    exact data.advance_pos
  | proof data => cases h

theorem visibleHeightIncrease_ok {c : ChainState S} {selected : List (PreferredBlobDataWithId S)} {n : Nat}
    (hLag : c.visibleSlotNumber < c.trueSlotNumber) (h : visibleHeightIncrease c selected = .ok n) :
    n ≤ c.trueSlotNumber - c.visibleSlotNumber ∧ (selected ≠ [] → 0 < S.maxVisibleHeightIncreasePerSlot → 0 < n) ∧
      (selected = [] → n = if c.visibleSlotNumber + S.deferredSlotsCount ≤ c.trueSlotNumber then 1 else 0) := by
  unfold visibleHeightIncrease at h
  split at h
  · rename_i last hLast
    simp only [bind_eq_ok, unwrap_eq_ok, pure_eq_ok] at h
    obtain ⟨requested, hReqd, rfl⟩ := h
    refine ⟨(Nat.min_le_right _ _).trans (maxSlotsToAdvance_le c), fun _ hMax => ?_, fun hNil => ?_⟩
    · exact Nat.lt_min.mpr ⟨visibleSlotNumberIncrease_pos hReqd, maxSlotsToAdvance_pos hLag hMax⟩
    · simp [hNil] at hLast
  · rename_i hLast
    simp only [advanceSlot, bind_eq_ok, unwrap_eq_ok, checkedAdd_eq_some, pure_eq_ok] at h
    obtain ⟨_, ⟨-, rfl⟩, rfl⟩ := h
    refine ⟨?_, fun hne => absurd (getLast?_eq_none_iff.mp hLast) hne, fun _ => rfl⟩
    split
    · omega
    · exact Nat.zero_le _

section Taking
variable {price : S.Price} {r r' : Retrieval S}

theorem takeSlot_ok {slot} (h : r.takeSlot price slot = .ok r') :
    r'.storage = (r.storage.takeBlobsForSlot slot).1 ∧
      r'.taken = r.taken ++ [(slot, (r.storage.deferredBlobs slot).getD [])] := by
  simp only [Retrieval.takeSlot, bind_eq_ok, pure_eq_ok] at h
  obtain ⟨selection, -, rfl⟩ := h
  exact ⟨rfl, rfl⟩

theorem foldlM_takeSlot {slots : List Nat} (hNodup : slots.Nodup)
    (h : slots.foldlM (Retrieval.takeSlot price) r = .ok r') :
    r'.taken = r.taken ++ slots.map (fun k => (k, (r.storage.deferredBlobs k).getD [])) ∧
      (∀ k, r'.storage.deferredBlobs k = if k ∈ slots then none else r.storage.deferredBlobs k) ∧
      r'.storage.preferred = r.storage.preferred := by
  induction slots generalizing r with
  | nil =>
    cases h
    simp
  | cons slot rest ih =>
    rw [foldlM_cons, bind_eq_ok] at h
    obtain ⟨next, hStep, hRest⟩ := h
    obtain ⟨hNot, hNodup⟩ := nodup_cons.mp hNodup
    obtain ⟨hStore, hTaken⟩ := takeSlot_ok hStep
    obtain ⟨hTaken', hDefer', hPref'⟩ := ih hNodup hRest
    have hDefer : ∀ k, next.storage.deferredBlobs k =
        if k = slot then none else r.storage.deferredBlobs k := fun k => by
      rw [hStore]
      exact Function.update_apply _ _ _ _
    refine ⟨?_, fun k => ?_, ?_⟩
    · have hKept : rest.map (fun k => (k, (next.storage.deferredBlobs k).getD [])) =
          rest.map fun k => (k, (r.storage.deferredBlobs k).getD []) := by
        refine map_congr_left fun k hk => ?_
        rw [hDefer k, if_neg]
        rintro rfl
        exact hNot hk
      rw [hTaken', hTaken, hKept, append_assoc]
      rfl
    · rw [hDefer' k, hDefer k]
      by_cases hk : k = slot
      · simp [hk]
      · simp [hk]
    · rw [hPref', hStore]
      rfl

theorem slots_eq {visible n} (hMax : visible + n ≤ u64Max) :
    ((List.range n).map fun i => saturatingAdd u64Max visible (i + 1)) = List.range' (visible + 1) n := by
  rw [range'_eq_map_range]
  refine map_congr_left fun i hi => ?_
  have := mem_range.mp hi
  unfold saturatingAdd
  omega

theorem retrieveStoredBlobs_ok {storage selection} {visible n : Nat}
    (hMax : visible + n ≤ u64Max) (h : retrieveStoredBlobs storage selection visible n price = .ok r) :
    r.taken = (List.range' (visible + 1) n).map (fun k => (k, (storage.deferredBlobs k).getD [])) ∧
      (∀ k, r.storage.deferredBlobs k = if visible < k ∧ k ≤ visible + n then none else storage.deferredBlobs k) ∧
      r.storage.preferred = storage.preferred := by
  unfold retrieveStoredBlobs at h
  rw [slots_eq hMax] at h
  obtain ⟨hTaken, hDefer, hPref⟩ := foldlM_takeSlot (nodup_range' ..) h
  refine ⟨by simpa using hTaken, fun k => ?_, hPref⟩
  rw [hDefer k]
  by_cases hk : visible < k ∧ k ≤ visible + n
  · rw [if_pos hk, if_pos (mem_range'_1.mpr (by omega))]
  · rw [if_neg hk, if_neg (fun hMem => hk (by have := mem_range'_1.mp hMem; omega))]

end Taking

section
variable {chain : ChainState S} {accounts : Accounts S} {storage : BlobStorage S}
  {current : RelevantBlobs S} {out : SelectorOutput S}

section
variable (turn : PreferredTurn chain accounts storage current)
include turn

theorem PreferredTurn.increase_le
    (hc : chain.Synced) : chain.visibleSlotNumber + turn.increase ≤ chain.trueSlotNumber := by
  have hLe := (visibleHeightIncrease_ok hc.visible_lt turn.increasing).1
  have hLag := hc.visible_lt
  omega

theorem PreferredTurn.lag_le (hc : chain.Synced)
    (hTrue : chain.LagWithin) (hMax : 0 < S.maxVisibleHeightIncreasePerSlot) :
    chain.trueSlotNumber - (chain.visibleSlotNumber + turn.increase) ≤ S.deferredSlotsCount - 1 := by
  obtain ⟨-, hRun, hNoRun⟩ := visibleHeightIncrease_ok hc.visible_lt turn.increasing
  unfold ChainState.LagWithin at hTrue
  by_cases hNil : turn.selected = []
  · have hEq := hNoRun hNil
    split at hEq
    · omega
    · omega
  · have hPos := hRun hNil hMax
    omega

theorem PreferredTurn.empty_of_zero
    (hc : chain.Synced) (hMax : 0 < S.maxVisibleHeightIncreasePerSlot) (hZero : turn.increase = 0) :
    turn.retrieval.selection.blobs.blobsWithAddress = [] := by
  obtain ⟨-, hRun, -⟩ := visibleHeightIncrease_ok hc.visible_lt turn.increasing
  have hNil : turn.selected = [] := by
    by_contra hne
    exact absurd hZero (hRun hne hMax).ne'
  have hAdded := turn.adding
  have hRetrieved := turn.retrieving
  rw [hNil] at hAdded
  rw [hZero] at hRetrieved
  rw [← Except.ok.inj hRetrieved, ← Except.ok.inj hAdded]
  rfl

end

section
variable (h : SelectionCase chain accounts storage current out)
include h

theorem SelectionCase.increase_le (hc : chain.Synced) :
    chain.visibleSlotNumber + out.visibleSlotNumberIncrease ≤ chain.trueSlotNumber := by
  have hLag := hc.visible_lt
  obtain ⟨-, hInc⟩ | ⟨-, -, hInc⟩ | ⟨turn, hInc⟩ := h.increase_cases
  · omega
  · omega
  · rw [hInc]
    exact turn.increase_le hc

/-- Over all modes: the lag is below its limit afterwards. -/
theorem SelectionCase.lag_le (hc : chain.Synced)
    (hTrue : chain.LagWithin) (hMax : 0 < S.maxVisibleHeightIncreasePerSlot) :
    chain.trueSlotNumber - (chain.visibleSlotNumber + out.visibleSlotNumberIncrease) ≤
      S.deferredSlotsCount - 1 := by
  have hWithin := hTrue
  unfold ChainState.LagWithin at hWithin
  obtain ⟨-, hInc⟩ | ⟨-, -, hInc⟩ | ⟨turn, hInc⟩ := h.increase_cases
  · omega
  · omega
  · rw [hInc]
    exact turn.lag_le hc hTrue hMax

theorem SelectionCase.empty_of_zero (hc : chain.Synced) (hMax : 0 < S.maxVisibleHeightIncreasePerSlot)
    (hZero : out.visibleSlotNumberIncrease = 0) : out.selectedBlobs = [] := by
  have hLag := hc.visible_lt
  cases h with
  | based _ _ hFin | recoveryEnd _ _ _ _ _ hFin | recovery _ _ _ _ _ hFin =>
    rw [(finishSelection_ok hFin).2.2.1] at hZero
    omega
  | caughtUp turn hReach _ hFin =>
    rw [(finishSelection_ok hFin).2.2.1] at hZero
    unfold saturatingAdd at hReach
    omega
  | behind turn _ _ hFin =>
    obtain ⟨-, -, hInc, -, -, hSelected⟩ := finishSelection_ok hFin
    rw [turn.empty_of_zero hc hMax (hInc.symm.trans hZero)] at hSelected
    exact (Except.ok.inj hSelected).symm

end

theorem storeBatches_deferred (b : BlobStorage S) (slot k : Nat) (batches : List (ValidatedBlob S)) :
    (b.storeBatches slot batches).deferredBlobs k =
      if k = slot ∧ batches ≠ [] then some batches else b.deferredBlobs k := by
  unfold BlobStorage.storeBatches
  cases batches with
  | nil => simp
  | cons v rest =>
    by_cases hk : k = slot
    · simp [hk]
    · simp [hk]

theorem SelectionCase.based_storage (h : SelectionCase chain accounts storage current out)
    (hCount : S.deferredSlotsCount = 0) : out.taken = [] ∧ out.storage = storage := by
  cases h with
  | based _ _ hFin =>
    obtain ⟨-, hStore, -, -, hTaken, -⟩ := finishSelection_ok hFin
    exact ⟨hTaken, hStore⟩
  | recoveryEnd hne | recovery hne => exact absurd hCount hne
  | caughtUp turn | behind turn => exact absurd hCount turn.count_ne

/-- Over all modes: what was stored before or in this slot is taken out under the
slot numbers that become visible, and the rest stays. -/
theorem SelectionCase.deferral (h : SelectionCase chain accounts storage current out)
    (hc : chain.Synced) (hCount : S.deferredSlotsCount ≠ 0) :
    out.taken = (List.range' (chain.visibleSlotNumber + 1) out.visibleSlotNumberIncrease).map (fun k =>
        (k, ((storage.storeBatches chain.trueSlotNumber out.stored).deferredBlobs k).getD [])) ∧
      ∀ k, out.storage.deferredBlobs k =
        if chain.visibleSlotNumber < k ∧ k ≤ chain.visibleSlotNumber + out.visibleSlotNumberIncrease then none
        else (storage.storeBatches chain.trueSlotNumber out.stored).deferredBlobs k := by
  have hU64 := hc.true_u64
  cases h with
  | based hZero _ _ => exact absurd hZero hCount
  | recoveryEnd _ _ _ _ hRetr hFin | recovery _ _ _ _ hRetr hFin =>
    obtain ⟨-, hStore, hInc, hStored, hTaken, -⟩ := finishSelection_ok hFin
    obtain ⟨hTakenEq, hDefer, -⟩ := retrieveStoredBlobs_ok (by omega) hRetr
    rw [hStore, hInc, hStored, hTaken]
    exact ⟨hTakenEq, hDefer⟩
  | caughtUp turn _ _ hFin =>
    have hLe := turn.increase_le hc
    obtain ⟨-, hStore, hInc, hStored, hTaken, -⟩ := finishSelection_ok hFin
    obtain ⟨hTakenEq, hDefer, -⟩ := retrieveStoredBlobs_ok (by omega) turn.retrieving
    rw [hStore, hInc, hStored, hTaken]
    exact ⟨hTakenEq, hDefer⟩
  | behind turn hBehind _ hFin =>
    have hLe := turn.increase_le hc
    obtain ⟨-, hStore, hInc, hStored, hTaken, -⟩ := finishSelection_ok hFin
    obtain ⟨hTakenEq, hDefer, -⟩ := retrieveStoredBlobs_ok (by omega) turn.retrieving
    -- the blobs of this slot are stored under a number that is not yet visible
    have hAbove : chain.visibleSlotNumber + turn.increase < chain.trueSlotNumber := by
      unfold saturatingAdd at hBehind
      omega
    rw [hStore, hInc, hStored, hTaken, hTakenEq]
    refine ⟨map_congr_left fun k hk => ?_, fun k => ?_⟩
    · have := mem_range'_1.mp hk
      rw [storeBatches_deferred, if_neg (by omega)]
    · rw [storeBatches_deferred, storeBatches_deferred, hDefer k]
      by_cases hTrue : k = chain.trueSlotNumber
      · rw [if_neg (show ¬ (chain.visibleSlotNumber < k ∧ k ≤ chain.visibleSlotNumber + turn.increase) by
          omega), if_neg (show ¬ (chain.visibleSlotNumber < k ∧ k ≤ chain.visibleSlotNumber + turn.increase) by omega)]
      · simp [hTrue]

end

end SovereignSdk
