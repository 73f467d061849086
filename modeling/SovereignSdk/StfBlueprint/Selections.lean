import SovereignSdk.BlobStorage.Selectable
import SovereignSdk.StfBlueprint.Withdrawals

/-! Selections over a run of slots: under which conditions on the blobs of each slot
none of them stops the node. -/
namespace SovereignSdk
open Bounded Outcome Accounts RollupState

variable {S : Spec}

structure RollupState.Sound (st : RollupState S) : Prop where
  visible_le : st.chain.visibleSlotNumber ≤ st.chain.trueSlotNumber
  solvent : st.accounts.Solvent
  storable : st.storage.AllStorable
  consistent : st.storage.preferred.Consistent

/-- The blobs of a slot: no more of them than can be numbered, the slot numbers do
not run out, and those of the preferred sequencer are selectable. -/
structure RollupState.Selectable (st : RollupState S) (blobs : RelevantBlobs S) : Prop where
  count : blobs.batchBlobs.length + blobs.proofBlobs.length ≤ u32Max + 1
  slots : st.chain.visibleSlotNumber + S.deferredSlotsCount ≤ u64Max
  preferred : S.deferredSlotsCount ≠ 0 → ∀ sender address, st.accounts.getPreferredSequencer = some (sender, address) →
      PreferredSelectable st.chain st.storage blobs sender address

/-- The price of the next block does not depend on the true slot number. -/
theorem RollupState.Selectable.synced {st : RollupState S} {blobs : RelevantBlobs S} {synced : ChainState S}
    (h : st.Selectable blobs) (hSync : st.chain.synchronizeChain = .ok synced) :
    synced.visibleSlotNumber + S.deferredSlotsCount ≤ u64Max ∧
      (S.deferredSlotsCount ≠ 0 → ∀ sender address, st.accounts.getPreferredSequencer = some (sender, address) →
          PreferredSelectable synced st.storage blobs sender address) := by
  obtain ⟨-, rfl⟩ := ChainState.synchronizeChain_ok hSync
  refine ⟨h.slots, fun hCount sender address hSome => ?_⟩
  obtain ⟨hRoom, hTypes, hPaid⟩ := h.preferred hCount sender address hSome
  exact ⟨hRoom, hTypes, hPaid⟩

namespace RollupState.Sound
variable {st : RollupState S} {blobs : RelevantBlobs S}

theorem start (hStart : st.AtGenesis) : st.Sound where
  visible_le := by rw [hStart.visibleSlotNumber]; exact Nat.zero_le _
  solvent := hStart.solvent
  storable := fun t l hEntry => by simp [hStart.storage, BlobStorage.empty] at hEntry
  consistent := by
    rw [hStart.storage]
    intro e he
    simp [BlobStorage.empty, PreferredStore.initial, PreferredStore.tracker, SequencerNumberTracker.initial] at he

theorem next (hSound : st.Sound) (hBlobs : st.Selectable blobs) (turn : SlotTurn st blobs) : turn.next.Sound := by
  obtain ⟨hSynced, -, -, -, hVis, hTrue, hLe⟩ := turn.slots hSound.visible_le
  have hCase := getBlobsForThisSlot_ok turn.selecting
  obtain ⟨hSolv, hStorable⟩ := hCase.sound hSound.solvent hSound.storable
  refine ⟨?_, turn.keeps (kept_solvent _) hSolv, hStorable, ?_⟩
  · rw [hVis, hTrue]
    exact hLe
  · exact hCase.consistent hSynced hSound.consistent (hBlobs.synced turn.synchronizing).2

end RollupState.Sound

/-- In every run whose slots are all selectable, setup mode included, the selection of
the next such slot returns: no panic of blob storage is reachable. -/
theorem selection_returns_in_run (hSizes : S.SizesFit) {start st : RollupState S} (hStart : start.AtGenesis)
    (run : Reaches slot Selectable start st) {blobs : RelevantBlobs S}
    (hBlobs : st.Selectable blobs) {synced : ChainState S} (hSync : st.chain.synchronizeChain = .ok synced) :
    ∃ out, getBlobsForThisSlot synced st.accounts st.storage blobs = .ok out := by
  have hSound : st.Sound := by
    refine run.invariant Sound (.start hStart) fun s s' blobs hs hAdmits hStep => ?_
    obtain ⟨turn, rfl⟩ := slot_ok hStep
    exact hs.next hAdmits turn
  have hVis := hSound.visible_le
  have hSynced : synced.Synced := by
    obtain ⟨hU64, rfl⟩ := ChainState.synchronizeChain_ok hSync
    exact ⟨Nat.lt_succ_of_le hVis, hU64⟩
  obtain ⟨hSlots, hPref⟩ := hBlobs.synced hSync
  exact (getBlobsForThisSlot_returns hSizes hSynced hSound.solvent hSound.storable hBlobs.count
    hSound.consistent hSlots hPref).exists_ok

def setupSpec : Spec := { testSpec with setupModeTerminationHeight := 5 }

/-- A blob of the preferred sequencer that holds a batch, and one that cannot be read. -/
def preferredBatchBlob : BlobTransaction setupSpec where
  sender := (1 : Nat)
  hash := 50
  totalLen := 5
  asBatch := none
  asProof := none
  asTx := none
  asPreferredBatch := some ⟨0, [], 1, Nat.zero_le _, Nat.one_pos, Nat.le_of_ble_eq_true rfl⟩
  asPreferredProof := none
  batch_length := by simp
  batch_len_le := by simp
  proof_len_le := by simp

def unreadableBlob : BlobTransaction setupSpec := { preferredBatchBlob with hash := 51, asPreferredBatch := none }

/-- In setup mode, a slot in which the preferred sequencer sends an unreadable proof and
a batch: it is slashed for the proof, and then the batch is to be paid for. -/
theorem free_run_of_slashed_sequencer :
    ∃ (start : RollupState setupSpec) (synced : ChainState setupSpec),
      genesis (soloGenesis (7 : Nat) (1 : Nat) 1000 100 true) = .ok start ∧
      start.chain.synchronizeChain = .ok synced ∧
      getBlobsForThisSlot synced start.accounts start.storage ⟨[preferredBatchBlob], [unreadableBlob]⟩ =
        .error .preferredSequencerNotSet :=
  ⟨_, _, rfl, rfl, rfl⟩

/-- Without the proof the batch is selected. -/
theorem free_run_of_registered_sequencer :
    ∃ (start : RollupState setupSpec) (synced : ChainState setupSpec),
      genesis (soloGenesis (7 : Nat) (1 : Nat) 1000 100 true) = .ok start ∧
      start.chain.synchronizeChain = .ok synced ∧
      ∃ out, getBlobsForThisSlot synced start.accounts start.storage ⟨[preferredBatchBlob], []⟩ = .ok out := by
  simp only [exists_and_left]
  refine exists_and_of returned fun hGenesis => exists_and_of returned fun hSync => ?_
  have hStart := genesis_atGenesis hGenesis
  refine selection_returns_in_run ?_ hStart .refl ⟨?_, ?_, ?_⟩ hSync
  · intro address sender
    show 10000 + 32 + 1 + 1 + 1 + 33 + 12 ≤ u32Max
    decide
  · decide
  · decide +kernel
  · rintro - sender address hSome
    cases hSome
    exact ⟨by decide, by decide, .inl rfl⟩

end SovereignSdk
