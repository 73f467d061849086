import SovereignSdk.BlobStorage.Deferral
import SovereignSdk.BlobStorage.Funding
import SovereignSdk.BlobStorage.SequenceNumbers

/-! When the selection of a slot returns, and what it keeps. -/
namespace SovereignSdk
open Bounded Outcome Accounts Selection List ValidatedBlob

variable {S : Spec}

/-- The checks of a transaction are free at the price of some block that the next
selection could ask for. -/
def ChainState.FreeChecks (c : ChainState S) : Prop :=
  ∃ n, min 1 S.maxVisibleHeightIncreasePerSlot ≤ n ∧ Gas.checkedValue S.maxTxCheckCosts (c.getNewGasPrice n) = some 0

/-- The blobs of the preferred sequencer that make its slot return: saved numbers keep
their types, and the run can be paid for if the sequencer is slashed in this slot. -/
structure PreferredSelectable (chain : ChainState S) (storage : BlobStorage S) (current : RelevantBlobs S)
    (sender : S.DaAddress) (address : S.Address) : Prop where
  room : storage.preferred.Room (preferredBlobs current sender)
  keepsTypes : storage.preferred.KeepsTypes (preferredBlobs current sender)
  paid : preferredWellFormed current sender = true ∨ ¬ chain.FreeChecks ∨
    ∀ store run, storage.preferred.pickPreferredBlobsToProcess (preferredBlobs current sender) = .ok (store, run) →
      ∀ b ∈ run, (BlobsAccumulator.empty : BlobsAccumulator S).canAcceptBlob .preferred
        (Selection.intoBlobData b address).blobSize = false

variable {run : List (PreferredBlobDataWithId S)}

theorem visibleHeightIncrease_returns {chain next next'}
    (hRun : PreferredStore.HandsOut next run next') (hSlots : chain.visibleSlotNumber + S.deferredSlotsCount ≤ u64Max) :
    Returns (visibleHeightIncrease chain run) := by
  unfold visibleHeightIncrease
  rcases hRun.ends with rfl | ⟨init, last, rfl, hBatch, -⟩
  · refine Raises.bind (Returns.of_eq (a := chain.visibleSlotNumber + S.deferredSlotsCount) ?_)
      fun _ => Raises.ok
    rw [advanceSlot, unwrap_eq_ok, checkedAdd_eq_some]
    exact ⟨hSlots, rfl⟩
  · rw [getLast?_concat]
    obtain ⟨inner, id⟩ := last
    cases inner with
    | batch data => exact .bind .ok fun _ => .ok
    | proof data => cases hBatch

section
variable {chain : ChainState S} {accounts : Accounts S} {storage : BlobStorage S}
  {current : RelevantBlobs S} {out : SelectorOutput S}

theorem nonPreferredOrigins_length_le (current : RelevantBlobs S) (sender : S.DaAddress) :
    (nonPreferredOrigins current sender).length ≤ current.batchBlobs.length + current.proofBlobs.length := by
  have hBatches := length_filter_le (fun b : BlobTransaction S => decide (b.sender ≠ sender))
    current.batchBlobs
  have hProofs := length_filter_le (fun b : BlobTransaction S => decide (b.sender ≠ sender))
    current.proofBlobs
  simp only [nonPreferredOrigins, length_append, length_map]
  omega

variable {sender : S.DaAddress} {address : S.Address} {terms : BlockTerms S} {good : ValidatedBlob S → Prop}

theorem PreferredSelectable.paidFor
    (h : PreferredSelectable chain storage current sender address) (hc : chain.Synced)
    (hPref : accounts.getPreferredSequencer = some (sender, address)) {store run increase}
    (hPick : storage.preferred.pickPreferredBlobsToProcess (preferredBlobs current sender) =
      .ok (store, run)) (hInc : visibleHeightIncrease chain run = .ok increase) :
    let read := if preferredWellFormed current sender then accounts else accounts.slashSequencer sender
    (∃ a, read.registry.preferredSequencer = some a) ∨ read.known sender = none ∧ ∀ b ∈ run,
        Gas.checkedValue S.maxTxCheckCosts (chain.getNewGasPrice increase) ≠ some 0 ∨
          (BlobsAccumulator.empty : BlobsAccumulator S).canAcceptBlob .preferred
            (Selection.intoBlobData b address).blobSize = false := by
  by_cases hWell : preferredWellFormed current sender = true
  · left
    simp only [if_pos hWell]
    simp only [getPreferredSequencer, Option.bind_eq_bind, Option.bind_eq_some_iff] at hPref
    obtain ⟨a, ha, -⟩ := hPref
    exact ⟨a, ha⟩
  · right
    simp only [if_neg hWell, known_slashSequencer, if_true]
    refine ⟨trivial, fun b hb => ?_⟩
    rcases (h.paid.resolve_left hWell) with hCost | hFull
    · refine .inl fun hZero => hCost ⟨increase, ?_, hZero⟩
      have := (visibleHeightIncrease_ok hc.visible_lt hInc).2.1 (ne_nil_of_mem hb)
      omega
    · exact .inr (hFull store run hPick b hb)

theorem ready_of_direct (v : ValidatedBlob S) (h : if false then v.Storable else v.Ready) : v.Ready := by
  simpa using h

theorem storable_of_deferred (v : ValidatedBlob S) (h : if true then v.Storable else v.Ready) : v.Storable := by
  simpa using h

theorem selectBlobsDaOrdering_returns (hSizes : S.SizesFit)
    (hGood : ∀ v : ValidatedBlob S, (if terms.accountForDeferral then v.Storable else v.Ready) → good v)
    (hSolv : accounts.Solvent) (hCount : current.batchBlobs.length + current.proofBlobs.length ≤ u32Max + 1) :
    Returns (selectBlobsDaOrdering accounts terms current []) := by
  refine selectBlobsDaOrderingHelper_returns hSizes hGood ?_ (sound_empty good hSolv [])
  simpa using hCount

theorem selectBlobsDaOrdering_sound {sel}
    (hGood : ∀ v : ValidatedBlob S, (if terms.accountForDeferral then v.Storable else v.Ready) → good v)
    (hSolv : accounts.Solvent) (h : selectBlobsDaOrdering accounts terms current [] = .ok sel) : sel.Sound good :=
  selectBlobsDaOrderingHelper_sound hGood (sound_empty good hSolv []) h

section
variable (hSizes : S.SizesFit) (hc : chain.Synced) (hSolv : accounts.Solvent) (hStore : storage.AllStorable)
  (hCount : current.batchBlobs.length + current.proofBlobs.length ≤ u32Max + 1)
include hSizes hc hSolv hStore hCount

theorem selectBlobsForPreferredSequencer_returns (hCons : storage.preferred.Consistent)
    (hSlots : chain.visibleSlotNumber + S.deferredSlotsCount ≤ u64Max)
    (hPref : accounts.getPreferredSequencer = some (sender, address))
    (h : PreferredSelectable chain storage current sender address) :
    Returns (selectBlobsForPreferredSequencer chain accounts storage current sender address) := by
  obtain ⟨store, run, hPick, hRun, -⟩ := hCons.pick h.room h.keepsTypes
  have hOthers := (nonPreferredOrigins_length_le current sender).trans hCount
  have hRead : (if preferredWellFormed current sender then accounts
      else accounts.slashSequencer sender).Solvent := by
    split
    · exact hSolv
    · exact hSolv.slashSequencer sender
  unfold selectBlobsForPreferredSequencer
  rw [readPreferredBlobs_eq, ok_bind]
  dsimp only
  rw [hPick, ok_bind]
  refine .bind_ok (visibleHeightIncrease_returns hRun hSlots) fun increase hInc => ?_
  have hEmpty := sound_empty Ready hRead
    ((PreferredStore.tooLow storage.preferred.tracker.nextSequenceNumber
      (preferredBlobs current sender)).map fun b => ⟨b.id, .sequenceNumberTooLow⟩)
  refine .bind_ok (addPreferredBlobs_returns hEmpty
    (h.paidFor hc hPref hPick hInc)) fun added hAdded => ?_
  have hAddedSound := addPreferredBlobs_sound hEmpty hAdded
  have hStore' : ({ storage with preferred := store } : BlobStorage S).AllStorable := hStore
  refine .bind_ok (retrieveStoredBlobs_returns hStore' hAddedSound) fun r hRetr => ?_
  have hr := retrieveStoredBlobs_sound hStore' hAddedSound hRetr
  split
  · refine .bind_ok (selectBlobsDaOrderingHelper_returns hSizes ready_of_direct hOthers
      hr.selection) fun final hFinal => ?_
    exact finishSelection_returns
      (selectBlobsDaOrderingHelper_sound ready_of_direct hr.selection hFinal).blobs
  · have hStart := sound_empty Storable hr.selection.solvent
      r.selection.discarded
    refine .bind_ok (selectBlobsDaOrderingHelper_returns hSizes storable_of_deferred hOthers
      hStart) fun deferral _ => ?_
    exact finishSelection_returns hr.selection.blobs

theorem selectBlobsInRecoveryMode_returns :
    Returns (selectBlobsInRecoveryMode chain accounts storage current) := by
  have hLag := hc.visible_lt
  refine .bind_ok ?_ fun recovered hRecover => ?_
  · unfold recoveryBlobs
    split
    · omega
    · refine .bind (.bind ?_ fun _ => .ok) fun _ => .ok
      exact selectBlobsDaOrdering_returns hSizes ready_of_direct hSolv hCount
    · refine .bind ?_ fun _ => .ok
      exact selectBlobsDaOrdering_returns hSizes storable_of_deferred hSolv hCount
  · obtain ⟨slotsNeeded, selection, stored⟩ := recovered
    have hParts : selection.Sound Ready ∧ ∀ v ∈ stored, v.Storable := by
      unfold recoveryBlobs at hRecover
      split at hRecover
      · cases hRecover
      · simp only [selectBlobsAsBasedSequencerInner, bind_eq_ok, pure_eq_ok] at hRecover
        obtain ⟨_, ⟨sel, hSelect, rfl⟩, -, rfl, rfl⟩ := hRecover
        have hSel := selectBlobsDaOrdering_sound ready_of_direct hSolv hSelect
        exact ⟨hSel.repush, by simp⟩
      · simp only [bind_eq_ok, pure_eq_ok] at hRecover
        obtain ⟨sel, hSelect, -, rfl, rfl⟩ := hRecover
        have hSel := selectBlobsDaOrdering_sound storable_of_deferred hSolv hSelect
        exact ⟨sound_empty _ hSel.solvent _, hSel.blobs⟩
    have hStored := hStore.storeBatches (t := chain.trueSlotNumber) hParts.2
    refine .bind_ok (retrieveStoredBlobs_returns hStored hParts.1) fun r hRetr => ?_
    exact finishSelection_returns (retrieveStoredBlobs_sound hStored hParts.1 hRetr).selection.blobs

/-- In all modes the selection returns. -/
theorem getBlobsForThisSlot_returns (hCons : storage.preferred.Consistent)
    (hSlots : chain.visibleSlotNumber + S.deferredSlotsCount ≤ u64Max)
    (hPref : S.deferredSlotsCount ≠ 0 → ∀ sender address, accounts.getPreferredSequencer = some (sender, address) →
        PreferredSelectable chain storage current sender address) :
    Returns (getBlobsForThisSlot chain accounts storage current) := by
  unfold getBlobsForThisSlot
  split
  · refine .bind_ok (.bind ?_ fun _ => .ok) fun selected hSelected => ?_
    · exact selectBlobsDaOrdering_returns hSizes ready_of_direct hSolv hCount
    · simp only [selectBlobsAsBasedSequencerInner, bind_eq_ok, pure_eq_ok] at hSelected
      obtain ⟨sel, hSel, rfl⟩ := hSelected
      exact finishSelection_returns
        (selectBlobsDaOrdering_sound ready_of_direct hSolv hSel).blobs
  · rename_i hDefer
    split
    · rename_i sender address hSome
      exact selectBlobsForPreferredSequencer_returns hSizes hc hSolv hStore hCount hCons hSlots
        hSome (hPref hDefer sender address hSome)
    · exact selectBlobsInRecoveryMode_returns hSizes hc hSolv hStore hCount

end

theorem PreferredTurn.sound (turn : PreferredTurn chain accounts storage current)
    (hSolv : accounts.Solvent) (hStore : storage.AllStorable) : turn.retrieval.Sound := by
  have hRead : turn.read.Solvent := by
    rw [turn.read_eq.1]
    split
    · exact hSolv
    · exact hSolv.slashSequencer turn.sender
  have hAdded := addPreferredBlobs_sound
    (sound_empty Ready hRead turn.discarded) turn.adding
  have hStore' : ({ storage with preferred := turn.preferred } : BlobStorage S).AllStorable := hStore
  exact retrieveStoredBlobs_sound hStore' hAdded turn.retrieving

/-- A selection keeps the accounts solvent and the blobs in storage in order. -/
theorem SelectionCase.sound (h : SelectionCase chain accounts storage current out)
    (hSolv : accounts.Solvent) (hStore : storage.AllStorable) : out.accounts.Solvent ∧ out.storage.AllStorable := by
  cases h with
  | based _ hSelect hFin =>
    obtain ⟨hAcc, hOut, -⟩ := finishSelection_ok hFin
    rw [hAcc, hOut]
    exact ⟨(selectBlobsDaOrdering_sound ready_of_direct hSolv hSelect).solvent, hStore⟩
  | recoveryEnd _ _ _ hSelect hRetr hFin =>
    obtain ⟨hAcc, hOut, -⟩ := finishSelection_ok hFin
    rw [hAcc, hOut]
    have hSel := selectBlobsDaOrdering_sound ready_of_direct hSolv hSelect
    have hr := retrieveStoredBlobs_sound hStore hSel.repush hRetr
    exact ⟨hr.selection.solvent, hr.storage⟩
  | recovery _ _ _ hSelect hRetr hFin =>
    obtain ⟨hAcc, hOut, -⟩ := finishSelection_ok hFin
    rw [hAcc, hOut]
    have hSel := selectBlobsDaOrdering_sound storable_of_deferred hSolv hSelect
    have hr := retrieveStoredBlobs_sound (hStore.storeBatches hSel.blobs)
      (sound_empty _ hSel.solvent _) hRetr
    exact ⟨hr.selection.solvent, hr.storage⟩
  | caughtUp turn _ hSelect hFin =>
    obtain ⟨hAcc, hOut, -⟩ := finishSelection_ok hFin
    rw [hAcc, hOut]
    have hr := turn.sound hSolv hStore
    have hSel := selectBlobsDaOrderingHelper_sound ready_of_direct hr.selection hSelect
    exact ⟨hSel.solvent, hr.storage⟩
  | behind turn _ hSelect hFin =>
    obtain ⟨hAcc, hOut, -⟩ := finishSelection_ok hFin
    rw [hAcc, hOut]
    have hr := turn.sound hSolv hStore
    have hSel := selectBlobsDaOrderingHelper_sound storable_of_deferred
      (sound_empty _ hr.selection.solvent _) hSelect
    exact ⟨hSel.solvent, hr.storage.storeBatches hSel.blobs⟩

theorem storeBatches_preferred (b : BlobStorage S) (t : Nat) (l : List (ValidatedBlob S)) :
    (b.storeBatches t l).preferred = b.preferred := by
  unfold BlobStorage.storeBatches
  split <;> rfl

theorem SelectionCase.consistent (h : SelectionCase chain accounts storage current out) (hc : chain.Synced)
    (hCons : storage.preferred.Consistent) (hPref : S.deferredSlotsCount ≠ 0 → ∀ sender address,
      accounts.getPreferredSequencer = some (sender, address) →
        PreferredSelectable chain storage current sender address) : out.storage.preferred.Consistent := by
  have hTrue := hc.true_u64
  have hTurn : ∀ turn : PreferredTurn chain accounts storage current,
      turn.retrieval.storage.preferred.Consistent := fun turn => by
    have hSelectable := hPref turn.count_ne _ _ turn.isPreferred
    have hLe := turn.increase_le hc
    rw [(retrieveStoredBlobs_ok (by omega) turn.retrieving).2.2]
    obtain ⟨store, run, hPick, -, hStore⟩ := hCons.pick hSelectable.room hSelectable.keepsTypes
    have hPicked := turn.picking
    rw [turn.read_eq.2, hPick] at hPicked
    cases hPicked
    exact hStore
  cases h with
  | based _ _ hFin =>
    rw [(finishSelection_ok hFin).2.1]
    exact hCons
  | recoveryEnd _ _ _ _ hRetr hFin =>
    rw [(finishSelection_ok hFin).2.1, (retrieveStoredBlobs_ok (by omega) hRetr).2.2]
    exact hCons
  | recovery _ _ _ _ hRetr hFin =>
    rw [(finishSelection_ok hFin).2.1, (retrieveStoredBlobs_ok (by omega) hRetr).2.2,
      storeBatches_preferred]
    exact hCons
  | caughtUp turn _ _ hFin =>
    rw [(finishSelection_ok hFin).2.1]
    exact hTurn turn
  | behind turn _ _ hFin =>
    rw [(finishSelection_ok hFin).2.1, storeBatches_preferred]
    exact hTurn turn

end
end SovereignSdk
