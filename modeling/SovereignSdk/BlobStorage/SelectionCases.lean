import SovereignSdk.BlobStorage.Selection

/-! The ways in which the selection of a slot returns. -/
namespace SovereignSdk
open Bounded Outcome

variable {S : Spec}

/-- The blobs of the current slot, counted once more against the size limit. -/
def Selection.repush (sel : Selection S) : Selection S :=
  sel.blobs.blobsWithAddress.foldl (fun sel v => sel.push .nonPreferred v) { sel with blobs := .empty }

/-- A slot of the preferred sequencer up to the point where its blobs and the
stored ones have been added to the selection. -/
structure PreferredTurn (chain : ChainState S) (accounts : Accounts S) (storage : BlobStorage S)
    (current : RelevantBlobs S) where
  sender : S.DaAddress
  address : S.Address
  /-- The accounts after the blobs of the preferred sequencer have been read. -/
  read : Accounts S
  wellFormed : List (PreferredBlobDataWithId S)
  selected : List (PreferredBlobDataWithId S)
  preferred : PreferredStore S
  increase : Nat
  discarded : List DiscardedBlob
  added : Selection S
  retrieval : Retrieval S
  count_ne : S.deferredSlotsCount ≠ 0
  isPreferred : accounts.getPreferredSequencer = some (sender, address)
  reading : (preferredOrigins current sender).foldlM readPreferredBlob (accounts, []) = .ok (read, wellFormed)
  picking : storage.preferred.pickPreferredBlobsToProcess wellFormed = .ok (preferred, selected)
  increasing : visibleHeightIncrease chain selected = .ok increase
  adding : selected.foldlM (Selection.addPreferredBlob (chain.getNewGasPrice increase) sender address)
    ⟨read, .empty, discarded⟩ = .ok added
  retrieving : retrieveStoredBlobs { storage with preferred } added chain.visibleSlotNumber increase
    (chain.getNewGasPrice increase) = .ok retrieval

/-- The selection of a slot, mode by mode: the current blobs in DA order without a
preferred sequencer, the last slot of a recovery and an earlier one, and a slot of
the preferred sequencer that does or does not reach the true slot. -/
inductive SelectionCase (chain : ChainState S) (accounts : Accounts S) (storage : BlobStorage S)
    (current : RelevantBlobs S) (out : SelectorOutput S) : Prop where
  | based {sel : Selection S} (hCount : S.deferredSlotsCount = 0)
      (hSelect : selectBlobsDaOrdering accounts
        ⟨chain.getNewGasPrice (chain.trueSlotNumber - chain.visibleSlotNumber), chain.trueSlotNumber, false⟩
        current [] = .ok sel)
      (hFinish : finishSelection storage sel (chain.trueSlotNumber - chain.visibleSlotNumber) [] [] = .ok out)
  | recoveryEnd {sel : Selection S} {r : Retrieval S} (hCount : S.deferredSlotsCount ≠ 0)
      (hNone : accounts.getPreferredSequencer = none)
      (hLag : chain.trueSlotNumber - chain.visibleSlotNumber = 1)
      (hSelect : selectBlobsDaOrdering accounts ⟨chain.getNewGasPrice 1, chain.trueSlotNumber, false⟩
        current [] = .ok sel)
      (hRetrieve : retrieveStoredBlobs storage sel.repush chain.visibleSlotNumber 1
        (chain.getNewGasPrice 1) = .ok r)
      (hFinish : finishSelection r.storage r.selection 1 [] r.taken = .ok out)
  | recovery {sel : Selection S} {r : Retrieval S} (hCount : S.deferredSlotsCount ≠ 0)
      (hNone : accounts.getPreferredSequencer = none)
      (hLag : 2 ≤ chain.trueSlotNumber - chain.visibleSlotNumber)
      (hSelect : selectBlobsDaOrdering accounts ⟨chain.getNewGasPrice 2, chain.trueSlotNumber, true⟩
        current [] = .ok sel)
      (hRetrieve : retrieveStoredBlobs
        (storage.storeBatches chain.trueSlotNumber sel.blobs.blobsWithAddress) { sel with blobs := .empty }
        chain.visibleSlotNumber 2 (chain.getNewGasPrice 2) = .ok r)
      (hFinish : finishSelection r.storage r.selection 2 sel.blobs.blobsWithAddress r.taken = .ok out)
  | caughtUp {final : Selection S} (turn : PreferredTurn chain accounts storage current)
      (hReached : saturatingAdd u64Max chain.visibleSlotNumber turn.increase = chain.trueSlotNumber)
      (hSelect : turn.retrieval.selection.selectBlobsDaOrderingHelper
        ⟨chain.getNewGasPrice turn.increase, chain.trueSlotNumber, false⟩
        (nonPreferredOrigins current turn.sender) = .ok final)
      (hFinish : finishSelection turn.retrieval.storage final turn.increase [] turn.retrieval.taken = .ok out)
  | behind {deferral : Selection S} (turn : PreferredTurn chain accounts storage current)
      (hBehind : saturatingAdd u64Max chain.visibleSlotNumber turn.increase ≠ chain.trueSlotNumber)
      (hSelect : { turn.retrieval.selection with blobs := .empty }.selectBlobsDaOrderingHelper
        ⟨chain.getNewGasPrice turn.increase, chain.trueSlotNumber, true⟩
        (nonPreferredOrigins current turn.sender) = .ok deferral)
      (hFinish : finishSelection
        (turn.retrieval.storage.storeBatches chain.trueSlotNumber deferral.blobs.blobsWithAddress)
        { deferral with blobs := turn.retrieval.selection.blobs } turn.increase
        deferral.blobs.blobsWithAddress turn.retrieval.taken = .ok out)

variable {chain : ChainState S} {accounts : Accounts S} {storage : BlobStorage S} {current : RelevantBlobs S}
  {out : SelectorOutput S}

/-- Inversion of a selection that returns. -/
theorem getBlobsForThisSlot_ok (h : getBlobsForThisSlot chain accounts storage current = .ok out) :
    SelectionCase chain accounts storage current out := by
  unfold getBlobsForThisSlot at h
  split at h
  · rename_i hCount
    simp only [selectBlobsAsBasedSequencerInner, bind_eq_ok, pure_eq_ok] at h
    obtain ⟨_, ⟨sel, hSelect, rfl⟩, hFinish⟩ := h
    exact .based hCount hSelect hFinish
  · rename_i hCount
    split at h
    · rename_i sender address hSome
      simp only [selectBlobsForPreferredSequencer, bind_eq_ok] at h
      obtain ⟨⟨read, wellFormed⟩, hRead, ⟨preferred, selected⟩, hPick, increase, hInc, added, hAdd, r,
        hRetrieve, h⟩ := h
      let turn : PreferredTurn chain accounts storage current :=
        ⟨sender, address, read, wellFormed, selected, preferred, increase, _, added, r, hCount, hSome, hRead,
          hPick, hInc, hAdd, hRetrieve⟩
      split at h
      · rename_i hReached
        rw [bind_eq_ok] at h
        obtain ⟨final, hSelect, hFinish⟩ := h
        exact .caughtUp turn hReached hSelect hFinish
      · rename_i hBehind
        rw [bind_eq_ok] at h
        obtain ⟨deferral, hSelect, hFinish⟩ := h
        exact .behind turn hBehind hSelect hFinish
    · rename_i hNone
      simp only [selectBlobsInRecoveryMode, bind_eq_ok] at h
      obtain ⟨⟨slotsNeeded, selection, stored⟩, hRecov, r, hRetrieve, hFinish⟩ := h
      unfold recoveryBlobs at hRecov
      split at hRecov
      · cases hRecov
      · rename_i hLag
        simp only [selectBlobsAsBasedSequencerInner, bind_eq_ok, pure_eq_ok] at hRecov
        obtain ⟨_, ⟨sel, hSelect, rfl⟩, rfl, rfl, rfl⟩ := hRecov
        rw [hLag] at hSelect hRetrieve
        exact .recoveryEnd hCount hNone hLag hSelect hRetrieve hFinish
      · rename_i lag hLag
        simp only [bind_eq_ok, pure_eq_ok] at hRecov
        obtain ⟨sel, hSelect, rfl, rfl, rfl⟩ := hRecov
        rw [hLag, Nat.min_eq_right (Nat.le_add_left 2 lag)] at hRetrieve
        exact .recovery hCount hNone (by omega) hSelect hRetrieve hFinish

theorem finishSelection_ok {sel increase stored taken}
    (h : finishSelection storage sel increase stored taken = .ok out) :
    out.accounts = sel.accounts ∧ out.storage = storage ∧ out.visibleSlotNumberIncrease = increase ∧
      out.stored = stored ∧ out.taken = taken ∧
      sel.blobs.blobsWithAddress.mapM ValidatedBlob.intoSelectedBlob = .ok out.selectedBlobs := by
  simp only [finishSelection, bind_eq_ok, pure_eq_ok] at h
  obtain ⟨selected, hSelected, rfl⟩ := h
  exact ⟨rfl, rfl, rfl, rfl, rfl, hSelected⟩

/-- The advance of a slot: the whole lag without deferral, up to two slots of it in a
recovery, and otherwise what the preferred sequencer's turn has computed. -/
theorem SelectionCase.increase_cases (h : SelectionCase chain accounts storage current out) :
    S.deferredSlotsCount = 0 ∧ out.visibleSlotNumberIncrease = chain.trueSlotNumber - chain.visibleSlotNumber ∨
      S.deferredSlotsCount ≠ 0 ∧ accounts.getPreferredSequencer = none ∧
        out.visibleSlotNumberIncrease = min (chain.trueSlotNumber - chain.visibleSlotNumber) 2 ∨
      ∃ turn : PreferredTurn chain accounts storage current,
        out.visibleSlotNumberIncrease = turn.increase := by
  cases h with
  | based hCount _ hFinish => exact .inl ⟨hCount, (finishSelection_ok hFinish).2.2.1⟩
  | recoveryEnd hCount hNone _ _ _ hFinish | recovery hCount hNone _ _ _ hFinish =>
    have hInc := (finishSelection_ok hFinish).2.2.1
    exact .inr (.inl ⟨hCount, hNone, by omega⟩)
  | caughtUp turn _ _ hFinish | behind turn _ _ hFinish => exact .inr (.inr ⟨turn, (finishSelection_ok hFinish).2.2.1⟩)

end SovereignSdk
