import SovereignSdk.StfBlueprint.Selections

/-! The visible slot number of the preferred sequencer against the one of the kernel.
The sequencer chooses the advance of a batch before the batch is on the DA layer; the
kernel limits the advance again when it executes the batch. -/
namespace SovereignSdk
open Bounded Outcome List Option Nat

variable {S : Spec}

section Increase

/-- Why no advance is chosen. The last two are panics of the source. -/
inductive IncreaseError where
  | waitingOnDa (finalizedSlotNumber neededFinalizedSlotNumber : Nat)
  | maxIncreaseIsZero
  | slotNumberOverflow
deriving DecidableEq, Repr

def nextVisibleSlotNumberIncreaseInner (S : Spec) (currentVisibleSlotNumber latestFinalizedSlotNumber : Nat)
    (leaveSpaceForNextBatch : Bool) (idealLagBehindFinalizedSlot : Nat) : Except IncreaseError Nat := do
  let delta := checkedSub latestFinalizedSlotNumber currentVisibleSlotNumber
  let delta := if leaveSpaceForNextBatch then delta.bind fun x => checkedSub x 1 else delta
  let deltaToUse := delta.map fun delta =>
    if delta ≤ idealLagBehindFinalizedSlot then min delta 1 else delta - idealLagBehindFinalizedSlot
  -- `NonZero::new` of the delta as a `u8`
  match (deltaToUse.map fun delta => if delta ≤ u8Max then delta else u8Max).filter (0 < ·) with
  | some delta =>
    ensure .maxIncreaseIsZero (0 < S.maxVisibleHeightIncreasePerSlot)
    return min delta S.maxVisibleHeightIncreasePerSlot
  | none =>
    let needed ← unwrap .slotNumberOverflow (checkedAdd u64Max latestFinalizedSlotNumber 1)
    .error (.waitingOnDa latestFinalizedSlotNumber needed)

theorem nextVisibleSlotNumberIncreaseInner_ok {visible finalized idealLag increase leaveSpace}
    (h : nextVisibleSlotNumberIncreaseInner S visible finalized leaveSpace idealLag = .ok increase) :
    visible + increase ≤ finalized ∧ increase ≤ S.maxVisibleHeightIncreasePerSlot := by
  unfold nextVisibleSlotNumberIncreaseInner at h
  dsimp only at h
  split at h
  · rename_i delta hDelta
    simp only [bind_eq_ok, ensure_eq_ok, pure_eq_ok] at h
    obtain ⟨-, -, rfl⟩ := h
    rw [filter_eq_some_iff, map_eq_some_iff] at hDelta
    obtain ⟨⟨used, hUsed, rfl⟩, -⟩ := hDelta
    obtain ⟨lag, hLag, rfl⟩ := map_eq_some_iff.mp hUsed
    have hLagLe : visible + lag ≤ finalized := by
      cases leaveSpace with
      | false =>
        obtain ⟨_, rfl⟩ := checkedSub_eq_some.mp hLag
        omega
      | true =>
        obtain ⟨x, hx, hLag⟩ := bind_eq_some_iff.mp hLag
        obtain ⟨_, rfl⟩ := checkedSub_eq_some.mp hx
        obtain ⟨-, rfl⟩ := checkedSub_eq_some.mp hLag
        omega
    have hUsedLe : (if lag ≤ idealLag then min lag 1 else lag - idealLag) ≤ lag := by
      split <;> omega
    generalize (if lag ≤ idealLag then min lag 1 else lag - idealLag) = used at hUsedLe ⊢
    have hCapped : (if used ≤ u8Max then used else u8Max) ≤ used := by
      split <;> omega
    exact ⟨by omega, min_le_right _ _⟩
  · simp only [bind_eq_ok] at h
    obtain ⟨_, -, h⟩ := h
    cases h

end Increase

namespace PreferredStore
variable {P : PreferredBlobDataWithId S → Prop}

theorem saveBlobs_all {saved : OrderedMap Nat BlobType} {deferred blobs} (hStored : ∀ k b, deferred k = some b → P b)
    (hNew : ∀ b ∈ blobs, P b) : ∀ k b, (saveBlobs saved deferred blobs).2 k = some b → P b := by
  intro k b hb
  rcases @saveBlobs_deferred S saved deferred blobs k with hSame | ⟨c, hc, -, hSaved⟩
  · exact hStored k b (hSame.symm.trans hb)
  · cases hSaved.symm.trans hb
    exact hNew _ hc

variable {output : List (PreferredBlobDataWithId S)}

theorem collectRun_all {arrivals deferred deferred'}
    (h : collectRun deferred arrivals = .ok (deferred', output)) (hStored : ∀ k b, deferred k = some b → P b)
    (hNew : ∀ b ∈ newBlobs arrivals, P b) : (∀ k b, deferred' k = some b → P b) ∧ ∀ b ∈ output, P b := by
  induction arrivals generalizing deferred output with
  | nil =>
    cases h
    exact ⟨hStored, by simp⟩
  | cons a rest ih =>
    cases a with
    | new b =>
      simp only [collectRun, bind_eq_ok, pure_eq_ok] at h
      obtain ⟨⟨deferred'', output'⟩, hRest, rfl, rfl⟩ := h
      obtain ⟨hLeft, hOut⟩ := ih hRest hStored fun c hc => hNew c (mem_cons_of_mem b hc)
      exact ⟨hLeft, forall_mem_cons.mpr ⟨hNew b mem_cons_self, hOut⟩⟩
    | stored n t =>
      simp only [collectRun, bind_eq_ok, unwrap_eq_ok, pure_eq_ok] at h
      obtain ⟨b, hb, ⟨deferred'', output'⟩, hRest, rfl, rfl⟩ := h
      have hTaken : ∀ k c, Function.update deferred n none k = some c → P c := by
        intro k c hc
        by_cases hk : k = n
        · subst hk
          simp at hc
        · rw [Function.update_of_ne hk] at hc
          exact hStored k c hc
      obtain ⟨hLeft, hOut⟩ := ih hRest hTaken hNew
      exact ⟨hLeft, forall_mem_cons.mpr ⟨hStored n b hb, hOut⟩⟩

theorem pickPreferredBlobsToProcess_all {p p' : PreferredStore S} {blobs : List (PreferredBlobDataWithId S)}
    (h : p.pickPreferredBlobsToProcess blobs = .ok (p', output))
    (hStored : ∀ k b, p.deferredPreferredSequencerBlobs k = some b → P b) (hNew : ∀ b ∈ blobs, P b) :
    (∀ k b, p'.deferredPreferredSequencerBlobs k = some b → P b) ∧ ∀ b ∈ output, P b := by
  simp only [pickPreferredBlobsToProcess, bind_eq_ok, pure_eq_ok] at h
  obtain ⟨⟨store, out⟩, h, -, -, -, -, rfl, rfl⟩ := h
  have hSplit := (runs_findNextRunOfBlobs p.tracker blobs).new_eq
  generalize findNextRunOfBlobs p.tracker blobs = run at h hSplit
  have hArrived : ∀ b ∈ newBlobs run.arrivals ++ run.rest, P b := by
    rw [← hSplit]
    exact fun b hb => hNew b (mem_inOrder.mp hb).1
  obtain ⟨hFirst, hRest⟩ := forall_mem_append.mp hArrived
  have hSaved := @saveBlobs_all S P
    (p.tracker.savedSequencerNumbers.splitOff (run.nextNumber.getD p.tracker.nextSequenceNumber))
    p.deferredPreferredSequencerBlobs run.rest hStored hRest
  unfold getBlobsToProcessFromRun at h
  split at h
  · simp only [bind_eq_ok, pure_eq_ok] at h
    obtain ⟨⟨deferred, output'⟩, hCollect, rfl, rfl⟩ := h
    exact collectRun_all hCollect hSaved hFirst
  · cases h
    exact ⟨saveBlobs_all hSaved hFirst, by simp⟩

end PreferredStore

/-- The blobs of the preferred sequencer that the kernel picks in the next slot. -/
def RollupState.pickedBlobs (st : RollupState S) (blobs : RelevantBlobs S) : List (PreferredBlobDataWithId S) :=
  match st.accounts.getPreferredSequencer with
  | some (sender, _) =>
    match st.storage.preferred.pickPreferredBlobsToProcess (preferredBlobs blobs sender) with
    | .ok (_, picked) => picked
    | .error _ => []
  | none => []

variable {st : RollupState S} {blobs : RelevantBlobs S}

theorem PreferredTurn.pickedBlobs {synced}
    (turn : PreferredTurn synced st.accounts st.storage blobs) : st.pickedBlobs blobs = turn.selected := by
  have hPick := turn.picking
  rw [turn.read_eq.2] at hPick
  simp only [RollupState.pickedBlobs, turn.isPreferred, hPick]

theorem SlotTurn.preferredTurn (turn : SlotTurn st blobs) (hCount : S.deferredSlotsCount ≠ 0) {sender address}
    (hPref : st.accounts.getPreferredSequencer = some (sender, address))
    (hLe : st.chain.visibleSlotNumber ≤ st.chain.trueSlotNumber) :
    ∃ preferredTurn : PreferredTurn turn.synced st.accounts st.storage blobs,
      turn.out.visibleSlotNumberIncrease = preferredTurn.increase ∧
        turn.out.storage.preferred = preferredTurn.preferred := by
  have hSynced := (turn.slots hLe).1
  have hTrue := hSynced.true_u64
  have hKept : ∀ preferredTurn : PreferredTurn turn.synced st.accounts st.storage blobs,
      preferredTurn.retrieval.storage.preferred = preferredTurn.preferred := by
    intro preferredTurn
    have hIncrease := preferredTurn.increase_le hSynced
    exact (retrieveStoredBlobs_ok (by omega) preferredTurn.retrieving).2.2
  cases getBlobsForThisSlot_ok turn.selecting with
  | based hZero _ _ => exact absurd hZero hCount
  | recoveryEnd _ hNone _ _ _ _ | recovery _ hNone _ _ _ _ => cases hNone.symm.trans hPref
  | caughtUp preferredTurn _ _ hFin =>
    obtain ⟨-, hStore, hIncrease, -⟩ := finishSelection_ok hFin
    exact ⟨preferredTurn, hIncrease, by rw [hStore, hKept]⟩
  | behind preferredTurn _ _ hFin =>
    obtain ⟨-, hStore, hIncrease, -⟩ := finishSelection_ok hFin
    exact ⟨preferredTurn, hIncrease, by rw [hStore, storeBatches_preferred, hKept]⟩

/-- A batch as the sequencer started it, with the finalized slot it knew then. -/
structure CreatedBatch where
  sequenceNumber : Nat
  visibleSlotsToAdvance : Nat
  visibleSlotNumberAfterIncrease : Nat
  latestFinalizedSlotNumber : Nat
deriving DecidableEq, Repr

/-- The preferred sequencer next to the kernel of the rollup it sequences. -/
structure SequencedRollup (S : Spec) where
  rollup : RollupState S
  /-- The visible slot number in the checkpoint of the sequencer's executor. -/
  visibleSlotNumber : Nat
  latestFinalizedSlotNumber : Nat
  hasInProgressBatch : Bool
  created : List CreatedBatch
  /-- The visible slot number of the kernel after each batch it has executed. -/
  executed : List Nat

inductive SequencingEvent (S : Spec) where
  | finalize (slotNumber : Nat)
  | startBatch (sequenceNumber : Nat) (leaveSpaceForNextBatch : Bool)
  | closeBatch
  | slot (blobs : RelevantBlobs S)

inductive SequencingError where
  | notEnabled
  | notStarted (e : IncreaseError)
  | kernel (p : Panic)

namespace SequencedRollup

def start (rollup : RollupState S) : SequencedRollup S where
  rollup
  visibleSlotNumber := rollup.chain.visibleSlotNumber
  latestFinalizedSlotNumber := rollup.chain.visibleSlotNumber
  hasInProgressBatch := false
  created := []
  executed := []

/-- `try_to_create_and_start_batch_if_none_in_progress`, with the sequence number that
the start of the batch draws. -/
def tryToCreateAndStartBatch (w : SequencedRollup S) (idealLag : Nat) (sequenceNumber : Nat)
    (leaveSpaceForNextBatch : Bool) : Except SequencingError (SequencedRollup S) :=
  if w.hasInProgressBatch then return w
  else do
    let increase ← (nextVisibleSlotNumberIncreaseInner S w.visibleSlotNumber w.latestFinalizedSlotNumber
      leaveSpaceForNextBatch idealLag).mapError .notStarted
    ensure .notEnabled (∀ batch ∈ w.created, batch.sequenceNumber < sequenceNumber)
    let after := w.visibleSlotNumber + increase
    return { w with
      visibleSlotNumber := after
      hasInProgressBatch := true
      created := w.created ++ [⟨sequenceNumber, increase, after, w.latestFinalizedSlotNumber⟩] }

def step (idealLag : Nat) (w : SequencedRollup S) :
    SequencingEvent S → Except SequencingError (SequencedRollup S)
  | .finalize slotNumber => do
      ensure .notEnabled (w.latestFinalizedSlotNumber ≤ slotNumber)
      return { w with latestFinalizedSlotNumber := slotNumber }
  | .startBatch sequenceNumber leaveSpace => w.tryToCreateAndStartBatch idealLag sequenceNumber leaveSpace
  | .closeBatch => return { w with hasInProgressBatch := false }
  | .slot blobs => do
      let rollup ← (w.rollup.slot blobs).mapError .kernel
      return { w with
        rollup
        executed := if (w.rollup.pickedBlobs blobs).isEmpty then w.executed
          else w.executed ++ [rollup.chain.visibleSlotNumber] }

inductive Step (idealLag : Nat) (w : SequencedRollup S) : SequencingEvent S → SequencedRollup S → Prop where
  | finalized {slotNumber : Nat} (hLater : w.latestFinalizedSlotNumber ≤ slotNumber) :
      Step idealLag w (.finalize slotNumber) { w with latestFinalizedSlotNumber := slotNumber }
  | inProgress {sequenceNumber : Nat} {leaveSpace : Bool} :
      Step idealLag w (.startBatch sequenceNumber leaveSpace) w
  | started {sequenceNumber increase : Nat} {leaveSpace : Bool}
      (hIncrease : nextVisibleSlotNumberIncreaseInner S w.visibleSlotNumber w.latestFinalizedSlotNumber
        leaveSpace idealLag = .ok increase)
      (hNew : ∀ batch ∈ w.created, batch.sequenceNumber < sequenceNumber) :
      Step idealLag w (.startBatch sequenceNumber leaveSpace)
        { w with
          visibleSlotNumber := w.visibleSlotNumber + increase
          hasInProgressBatch := true
          created := w.created ++
            [⟨sequenceNumber, increase, w.visibleSlotNumber + increase, w.latestFinalizedSlotNumber⟩] }
  | closed : Step idealLag w .closeBatch { w with hasInProgressBatch := false }
  | slot {blobs : RelevantBlobs S} (turn : SlotTurn w.rollup blobs) :
      Step idealLag w (.slot blobs)
        { w with
          rollup := turn.next
          executed := if (w.rollup.pickedBlobs blobs).isEmpty then w.executed
            else w.executed ++ [turn.next.chain.visibleSlotNumber] }

variable {idealLag : Nat} {w w' : SequencedRollup S} {event : SequencingEvent S} {created : List CreatedBatch}

theorem step_ok (h : w.step idealLag event = .ok w') : Step idealLag w event w' := by
  cases event with
  | finalize slotNumber =>
    simp only [step, bind_eq_ok, ensure_eq_ok, pure_eq_ok] at h
    obtain ⟨-, hLater, rfl⟩ := h
    exact .finalized hLater
  | startBatch sequenceNumber leaveSpace =>
    simp only [step, tryToCreateAndStartBatch] at h
    split at h
    · cases h
      exact .inProgress
    · simp only [bind_eq_ok, mapError_eq_ok, ensure_eq_ok, pure_eq_ok] at h
      obtain ⟨increase, hIncrease, -, hNew, rfl⟩ := h
      exact .started hIncrease hNew
  | closeBatch =>
    cases h
    exact .closed
  | slot blobs =>
    simp only [step, bind_eq_ok, mapError_eq_ok, pure_eq_ok] at h
    obtain ⟨rollup, hSlot, rfl⟩ := h
    obtain ⟨turn, rfl⟩ := RollupState.slot_ok hSlot
    exact .slot turn

/-- A slot of the kind the sequencer counts on: it is registered, its batches that are
included here were started against a finalized slot before this one, the batch that the
kernel picks is the next one that the sequencer has started, and without such a batch the
lag does not force the visible slot ahead. -/
structure Cooperative (w : SequencedRollup S) (blobs : RelevantBlobs S) : Prop where
  count_ne : S.deferredSlotsCount ≠ 0
  registered : ∃ sender address, w.rollup.accounts.getPreferredSequencer = some (sender, address) ∧
    ∀ blob ∈ preferredBlobs blobs sender, ∀ batch, blob.inner = .batch batch →
      ∃ record ∈ w.created, record.sequenceNumber = batch.sequenceNumber ∧
        record.visibleSlotsToAdvance = batch.visibleSlotsToAdvance ∧
        record.latestFinalizedSlotNumber < w.rollup.chain.trueSlotNumber + 1
  inOrder : ∀ blob, (w.rollup.pickedBlobs blobs).getLast? = some blob →
    (w.created[w.executed.length]?).map (·.sequenceNumber) = some blob.number
  notForced : w.rollup.pickedBlobs blobs = [] →
    w.rollup.chain.trueSlotNumber + 1 < w.rollup.chain.visibleSlotNumber + S.deferredSlotsCount

def Admits (w : SequencedRollup S) : SequencingEvent S → Prop
  | .slot blobs => w.Cooperative blobs
  | _ => True

/-- The visible slot number after the first `n` batches, as the sequencer executed them. -/
def visibleAfter (created : List CreatedBatch) : Nat → Nat
  | 0 => 0
  | n + 1 => ((created[n]?).map (·.visibleSlotNumberAfterIncrease)).getD 0

theorem visibleAfter_append (batch : CreatedBatch) {n} (h : n ≤ created.length) :
    visibleAfter (created ++ [batch]) n = visibleAfter created n := by
  cases n with
  | zero => rfl
  | succ n => simp only [visibleAfter, getElem?_append_left (lt_of_succ_le h)]

/-- A batch that the sequencer has started against a finalized slot of the kernel. -/
def Known (created : List CreatedBatch) (trueSlotNumber : Nat) (blob : PreferredBlobDataWithId S) : Prop :=
  ∀ batch, blob.inner = .batch batch → ∃ record ∈ created, record.sequenceNumber = batch.sequenceNumber ∧
      record.visibleSlotsToAdvance = batch.visibleSlotsToAdvance ∧
      record.latestFinalizedSlotNumber < trueSlotNumber

theorem Known.mono {created' : List CreatedBatch} {trueSlot trueSlot' : Nat} {blob : PreferredBlobDataWithId S}
    (h : Known created trueSlot blob) (hCreated : created ⊆ created') (hTrue : trueSlot ≤ trueSlot') :
    Known created' trueSlot' blob := by
  intro batch hBatch
  obtain ⟨record, hMem, hNum, hAdv, hFinal⟩ := h batch hBatch
  exact ⟨record, hCreated hMem, hNum, hAdv, hFinal.trans_le hTrue⟩

/-- What a batch was started with: its advance leads from the batch before it to a slot
that is finalized. -/
structure Chained (created : List CreatedBatch) (n : Nat) (batch : CreatedBatch) : Prop where
  after_eq : batch.visibleSlotNumberAfterIncrease = visibleAfter created n + batch.visibleSlotsToAdvance
  after_le : batch.visibleSlotNumberAfterIncrease ≤ batch.latestFinalizedSlotNumber

/-- The sequencer and the kernel in step: both count the same visible slots, batch by
batch. -/
structure Aligned (w : SequencedRollup S) : Prop where
  visible_le : w.rollup.chain.visibleSlotNumber ≤ w.rollup.chain.trueSlotNumber
  numbers : w.created.Pairwise fun a b => a.sequenceNumber < b.sequenceNumber
  chained : ∀ n batch, w.created[n]? = some batch →
    Chained w.created n batch ∧ batch.visibleSlotsToAdvance ≤ S.maxVisibleHeightIncreasePerSlot
  sequencer : w.visibleSlotNumber = visibleAfter w.created w.created.length
  kernel : w.rollup.chain.visibleSlotNumber = visibleAfter w.created w.executed.length
  executed_le : w.executed.length ≤ w.created.length
  executed_eq : w.executed = (w.created.take w.executed.length).map (·.visibleSlotNumberAfterIncrease)
  finalized : w.visibleSlotNumber ≤ w.latestFinalizedSlotNumber
  stored : ∀ k blob, w.rollup.storage.preferred.deferredPreferredSequencerBlobs k = some blob →
    Known w.created (w.rollup.chain.trueSlotNumber + 1) blob

theorem aligned_start {rollup : RollupState S} (hStart : rollup.AtGenesis) : (start rollup).Aligned where
  visible_le := by simp [start, hStart.visibleSlotNumber]
  numbers := List.Pairwise.nil
  chained := by simp [start]
  sequencer := hStart.visibleSlotNumber
  kernel := hStart.visibleSlotNumber
  executed_le := le_refl _
  executed_eq := rfl
  finalized := le_refl _
  stored := by simp [start, hStart.storage, BlobStorage.empty, PreferredStore.initial]

/-- A new batch goes on top of the batches before it. -/
theorem Aligned.started {idealLag sequenceNumber increase : Nat} {leaveSpace : Bool}
    (h : w.Aligned) (hIncrease : nextVisibleSlotNumberIncreaseInner S w.visibleSlotNumber
      w.latestFinalizedSlotNumber leaveSpace idealLag = .ok increase)
    (hNew : ∀ batch ∈ w.created, batch.sequenceNumber < sequenceNumber) :
    Aligned { w with
      visibleSlotNumber := w.visibleSlotNumber + increase
      hasInProgressBatch := true
      created := w.created ++
        [⟨sequenceNumber, increase, w.visibleSlotNumber + increase, w.latestFinalizedSlotNumber⟩] } := by
  obtain ⟨hFinal, hMax⟩ := nextVisibleSlotNumberIncreaseInner_ok hIncrease
  refine ⟨h.visible_le, ?_, ?_, ?_, ?_, ?_, ?_, hFinal, ?_⟩
  · refine pairwise_append.mpr ⟨h.numbers, pairwise_singleton _ _, fun a ha b hb => ?_⟩
    cases mem_singleton.mp hb
    exact hNew a ha
  · intro n batch hBatch
    rw [getElem?_append] at hBatch
    split at hBatch
    · rename_i hn
      obtain ⟨hChained, hLe⟩ := h.chained n batch hBatch
      refine ⟨⟨?_, hChained.after_le⟩, hLe⟩
      rw [visibleAfter_append _ hn.le]
      exact hChained.after_eq
    · obtain ⟨_, rfl⟩ : n - w.created.length = 0 ∧ _ = batch := by
        cases hk : n - w.created.length with
        | zero => simpa [hk] using hBatch
        | succ k => simp [hk] at hBatch
      refine ⟨⟨?_, hFinal⟩, hMax⟩
      have hn' : n = w.created.length := by omega
      rw [hn', visibleAfter_append _ (le_refl _), ← h.sequencer]
  · simp [visibleAfter]
  · rw [visibleAfter_append _ h.executed_le]
    exact h.kernel
  · exact h.executed_le.trans (by simp)
  · rw [take_append_of_le_length h.executed_le]
    exact h.executed_eq
  · exact fun k blob hBlob => (h.stored k blob hBlob).mono (by simp) (le_refl _)

theorem Aligned.slot (h : w.Aligned)
    (hSlot : w.Cooperative blobs) (turn : SlotTurn w.rollup blobs) :
    Aligned { w with
      rollup := turn.next
      executed := if (w.rollup.pickedBlobs blobs).isEmpty then w.executed
        else w.executed ++ [turn.next.chain.visibleSlotNumber] } := by
  obtain ⟨sender, address, hPref, hIncluded⟩ := hSlot.registered
  obtain ⟨_, _, _, _, _, _, _⟩ := turn.slots h.visible_le
  obtain ⟨preferredTurn, _, hStore⟩ := turn.preferredTurn hSlot.count_ne hPref h.visible_le
  have hPicked := preferredTurn.pickedBlobs
  have hSender : preferredTurn.sender = sender := by
    have hSame := preferredTurn.isPreferred.symm.trans hPref
    exact congrArg Prod.fst (some.inj hSame)
  -- everything saved or picked was started by the sequencer in time
  obtain ⟨hSaved, hKnown⟩ := PreferredStore.pickPreferredBlobsToProcess_all
    (P := Known w.created (w.rollup.chain.trueSlotNumber + 1)) preferredTurn.picking h.stored (by
      rw [preferredTurn.read_eq.2, hSender]
      exact fun blob hBlob batch hBatch => hIncluded blob hBlob batch hBatch)
  have hStored : ∀ k blob, turn.next.storage.preferred.deferredPreferredSequencerBlobs k = some blob →
      Known w.created (turn.next.chain.trueSlotNumber + 1) blob := by
    intro k blob hBlob
    rw [show turn.next.storage.preferred = preferredTurn.preferred from hStore] at hBlob
    exact (hSaved k blob hBlob).mono (List.Subset.refl _) (by omega)
  have hNext : turn.next.chain.visibleSlotNumber =
      w.rollup.chain.visibleSlotNumber + preferredTurn.increase := by omega
  have hBound : turn.next.chain.visibleSlotNumber ≤ turn.next.chain.trueSlotNumber := by omega
  cases hLast : preferredTurn.selected.getLast? with
  | none =>
    have hNil : w.rollup.pickedBlobs blobs = [] := hPicked.trans (getLast?_eq_none_iff.mp hLast)
    have hZero : preferredTurn.increase = 0 := by
      have hIncr := preferredTurn.increasing
      have hForced := hSlot.notForced hNil
      simp only [visibleHeightIncrease, hLast, bind_eq_ok, advanceSlot, unwrap_eq_ok, checkedAdd_eq_some,
        pure_eq_ok] at hIncr
      obtain ⟨limit, ⟨-, rfl⟩, hIncr⟩ := hIncr
      rw [if_neg (by omega)] at hIncr
      exact hIncr.symm
    have hSame : turn.next.chain.visibleSlotNumber = w.rollup.chain.visibleSlotNumber := by omega
    simp only [hNil, isEmpty_nil]
    exact ⟨hBound, h.numbers, h.chained, h.sequencer, hSame.trans h.kernel, h.executed_le, h.executed_eq,
      h.finalized, hStored⟩
  | some last =>
    have hMem : last ∈ preferredTurn.selected := mem_of_getLast? hLast
    have hNum := hSlot.inOrder last (hPicked ▸ hLast)
    obtain ⟨record, hRecord, hRecordNumber⟩ := map_eq_some_iff.mp hNum
    obtain ⟨hChained, hMax⟩ := h.chained _ record hRecord
    -- the picked batch is the next one of the sequencer
    have hReqd : last.inner.visibleSlotNumberIncrease = some record.visibleSlotsToAdvance ∧
        record.latestFinalizedSlotNumber < w.rollup.chain.trueSlotNumber + 1 := by
      cases hInner : last.inner with
      | proof raw =>
        have hIncr := preferredTurn.increasing
        simp [visibleHeightIncrease, hLast, hInner, PreferredBlobData.visibleSlotNumberIncrease] at hIncr
      | batch batch =>
        obtain ⟨started, hStarted, hStartedNumber, hAdv, hFinal⟩ := hKnown last hMem batch hInner
        have hDistinct : (w.created.map (·.sequenceNumber)).Nodup :=
          (pairwise_map.mpr h.numbers).imp ne_of_lt
        have hSame : started = record := by
          refine inj_on_of_nodup_map hDistinct hStarted (mem_of_getElem? hRecord) ?_
          rw [hStartedNumber, hRecordNumber, PreferredBlobDataWithId.number, hInner]
          rfl
        subst hSame
        exact ⟨by rw [hAdv]; rfl, hFinal⟩
    have hGrant : preferredTurn.increase = record.visibleSlotsToAdvance := by
      have hIncreasing := preferredTurn.increasing
      simp only [visibleHeightIncrease, hLast, hReqd.1, unwrap_some, ok_bind, pure_eq_ok] at hIncreasing
      have hAfter := hChained.after_eq
      have hAfterLe := hChained.after_le
      have hKernel := h.kernel
      rw [← hIncreasing, Nat.min_eq_left]
      refine Nat.le_min.mpr ⟨?_, hMax⟩
      split <;> omega
    have hAfter : turn.next.chain.visibleSlotNumber = record.visibleSlotNumberAfterIncrease := by
      rw [hNext, hGrant, h.kernel, hChained.after_eq]
    have hShort : w.executed.length < w.created.length := (List.getElem?_eq_some_iff.mp hRecord).1
    have hNe : (w.rollup.pickedBlobs blobs).isEmpty = false := by
      rw [hPicked]
      exact isEmpty_eq_false_iff.mpr (ne_nil_of_mem hMem)
    simp only [hNe, Bool.false_eq_true, if_false]
    refine ⟨hBound, h.numbers, h.chained, h.sequencer, ?_, ?_, ?_, h.finalized, hStored⟩
    · simp [visibleAfter, hRecord, hAfter]
    · simpa using succ_le_iff.mpr hShort
    · rw [length_append, length_singleton, take_add_one, hRecord, map_append, ← h.executed_eq, hAfter]
      rfl

theorem Aligned.step (h : w.Aligned) (hAdmits : w.Admits event) (hStep : w.step idealLag event = .ok w') :
    w'.Aligned := by
  cases step_ok hStep with
  | finalized hLater =>
    exact ⟨h.visible_le, h.numbers, h.chained, h.sequencer, h.kernel, h.executed_le, h.executed_eq,
      h.finalized.trans hLater, h.stored⟩
  | inProgress => exact h
  | started hIncrease hNew => exact h.started hIncrease hNew
  | closed =>
    exact ⟨h.visible_le, h.numbers, h.chained, h.sequencer, h.kernel, h.executed_le, h.executed_eq,
      h.finalized, h.stored⟩
  | slot turn => exact h.slot hAdmits turn

/-- In every run in which the sequencer starts its batches against the finalized slot it
knows and the kernel executes them in order, in slots after that one and without a forced
advance: the visible slot number of the kernel after each batch is the one the sequencer
executed the batch with, and the one of the sequencer is never past the finalized slot. -/
theorem visible_slots_agree {idealLag : Nat} {rollup : RollupState S} (hStart : rollup.AtGenesis)
    {events : List (SequencingEvent S)} {w : SequencedRollup S}
    (hRun : events.foldlM (SequencedRollup.step idealLag) (start rollup) = .ok w)
    (hAdmits : Along (SequencedRollup.step idealLag) Admits (start rollup) events) :
    w.executed = (w.created.take w.executed.length).map (·.visibleSlotNumberAfterIncrease) ∧
      w.executed.length ≤ w.created.length ∧
      w.visibleSlotNumber ≤ w.latestFinalizedSlotNumber := by
  have hAll : Yields Aligned (fun _ => True)
      (events.foldlM (SequencedRollup.step idealLag) (start rollup)) := by
    refine Yields.foldlM_along Aligned (fun s event hs hEvent => ?_) (aligned_start hStart) hAdmits
    exact .intro (fun s' hStep => hs.step hEvent hStep) fun _ _ => trivial
  have hAligned := hAll.of_ok hRun
  exact ⟨hAligned.executed_eq, hAligned.executed_le, hAligned.finalized⟩

/-- Slot 1 is finalized, a batch is started against it, and the kernel executes the batch
in slot 2. -/
def oneBatchEvents : List (SequencingEvent setupSpec) :=
  [.slot ⟨[], []⟩, .finalize 1, .startBatch 0 false, .closeBatch, .slot ⟨[preferredBatchBlob], []⟩]

/-- The batch is executed at the visible slot that the sequencer has chosen for it. -/
theorem one_batch_agrees :
    ∃ (rollup : RollupState setupSpec) (w : SequencedRollup setupSpec),
      genesis (soloGenesis (7 : Nat) (1 : Nat) 1000 100 true) = .ok rollup ∧
      oneBatchEvents.foldlM (SequencedRollup.step 0) (start rollup) = .ok w ∧
      w.executed = [1] ∧
      w.executed = (w.created.take w.executed.length).map (·.visibleSlotNumberAfterIncrease) ∧
      w.visibleSlotNumber ≤ w.latestFinalizedSlotNumber := by
  simp only [exists_and_left]
  refine exists_and_of returned fun hGenesis => exists_and_of returned fun hRun => ⟨by decide +kernel, ?_⟩
  refine And.imp_right And.right (visible_slots_agree (genesis_atGenesis hGenesis) hRun ?_)
  refine (along_cons returned).mpr ⟨⟨by decide, ⟨_, _, rfl, ?_⟩, ?_, ?_⟩, ?_⟩
  · nofun
  · nofun
  · exact fun _ => by decide +kernel
  refine (along_cons returned).mpr ⟨trivial, (along_cons returned).mpr ⟨trivial, (along_cons returned).mpr ⟨trivial, ?_⟩⟩⟩
  refine (along_cons returned).mpr ⟨⟨by decide, ⟨_, _, rfl, ?_⟩, ?_, ?_⟩, trivial⟩
  · intro blob hBlob batch hBatch
    cases mem_singleton.mp hBlob
    cases hBatch
    exact ⟨_, mem_singleton.mpr rfl, rfl, rfl, by decide +kernel⟩
  · intro blob hBlob
    cases hBlob
    rfl
  · nofun

end SequencedRollup
end SovereignSdk
