import SovereignSdk.StfBlueprint.Heights

/-! The gas price at which blobs are selected is the gas price at which they are executed,
although one is computed before the heights have moved and the other afterwards. -/
namespace SovereignSdk
open Bounded Outcome RollupState Nat

variable {S : Spec}

namespace ChainState
variable {c : ChainState S}

/-- Between slots the visible slot number of the latest block is on record. -/
structure Recorded (c : ChainState S) : Prop where
  height_u64 : c.rollupHeight ≤ u64Max
  visible : 0 < c.rollupHeight → c.slotNumberHistory c.rollupHeight = some c.visibleSlotNumber

theorem Recorded.incrementRollupHeight (hc : c.Recorded) {visible}
    (hProg : (c.incrementRollupHeight visible).rollupHeight ≠ c.rollupHeight) :
    (c.incrementRollupHeight visible).rollupHeight = c.rollupHeight + 1 ∧
      (c.incrementRollupHeight visible).Recorded := by
  have hU64 := hc.height_u64
  have hNext : (c.incrementRollupHeight visible).rollupHeight = c.rollupHeight + 1 := by
    simp only [ChainState.incrementRollupHeight, saturatingAdd] at hProg ⊢
    omega
  refine ⟨hNext, ?_, fun _ => ?_⟩
  · exact min_le_right _ _
  · simp only [ChainState.incrementRollupHeight, Function.update_self]

theorem Recorded.baseFeePerGas_eq (hc : c.Recorded) {increase}
    (hProg : (c.incrementRollupHeight (c.visibleSlotNumber + increase)).rollupHeight ≠ c.rollupHeight) :
    (c.incrementRollupHeight (c.visibleSlotNumber + increase)).baseFeePerGas = .ok (c.getNewGasPrice increase) := by
  obtain ⟨hHeight, -⟩ := hc.incrementRollupHeight hProg
  have hSat : saturatingAdd u64Max c.rollupHeight 1 = c.rollupHeight + 1 := hHeight
  have hSetup : (c.incrementRollupHeight (c.visibleSlotNumber + increase)).isSetupModeActive =
      c.isSetupModeActive := rfl
  unfold baseFeePerGas
  rw [hHeight, hSetup, getNewGasPrice]
  by_cases hActive : c.isSetupModeActive (c.rollupHeight + 1)
  · rw [if_pos hActive, computeNextGasPrice, hSat, if_pos hActive]
  · rw [if_neg hActive]
    by_cases hFirst : c.rollupHeight = 0
    · rw [if_pos (by omega), computeNextGasPrice, hSat, if_neg hActive, if_pos (.inl hFirst)]
    · -- Above height one the advance is read back from the history.
      have hHist : (c.incrementRollupHeight (c.visibleSlotNumber + increase)).slotNumberHistory
          c.rollupHeight = some c.visibleSlotNumber := by
        rw [← hc.visible (pos_of_ne_zero hFirst)]
        refine Function.update_of_ne ?_ _ _
        omega
      rw [if_neg (by omega), Nat.add_sub_cancel, hHist, unwrap_some, ok_bind]
      simp [ChainState.incrementRollupHeight, pure, Except.pure]
      rfl

end ChainState

variable {out : SelectorOutput S}

variable {chain synced : ChainState S} {accounts : Accounts S} {st : RollupState S}

theorem applyBatchesInUserSpace_history {chain' state}
    (h : applyBatchesInUserSpace chain accounts out = .ok (state, chain')) :
    chain'.slotNumberHistory = chain.slotNumberHistory := by
  simp only [applyBatchesInUserSpace, bind_eq_ok] at h
  obtain ⟨price, -, meter, -, ⟨final, slotGas⟩, -, h⟩ := h
  split at h
  · simp only [bind_eq_ok, pure_eq_ok] at h
    obtain ⟨_, -, -, rfl⟩ := h
    rfl
  · cases h
    rfl

theorem ChainState.Recorded.synchronize {c : ChainState S} (hc : c.Recorded) (h : c.synchronizeChain = .ok synced) :
    synced.Recorded := by
  obtain ⟨-, rfl⟩ := synchronizeChain_ok h
  exact ⟨hc.height_u64, hc.visible⟩

theorem ChainState.Recorded.advance {advanced} (hc : synced.Recorded)
    (h : advanceHeights synced out = .ok advanced) : advanced.Recorded := by
  rcases advanceHeights_cases h with ⟨-, rfl, hProg⟩ | ⟨-, rfl⟩
  · exact (hc.incrementRollupHeight hProg).2
  · exact hc

theorem SlotTurn.recorded {blobs : RelevantBlobs S} (turn : SlotTurn st blobs) (hc : st.chain.Recorded) :
    turn.next.chain.Recorded := by
  have hAdvanced := (hc.synchronize turn.synchronizing).advance turn.advancing
  obtain ⟨-, hVis, hHeight⟩ := applyBatchesInUserSpace_heights turn.executing
  have hHist := applyBatchesInUserSpace_history turn.executing
  refine ⟨hHeight ▸ hAdvanced.height_u64, fun hPos => ?_⟩
  show turn.chain.slotNumberHistory turn.chain.rollupHeight = some turn.chain.visibleSlotNumber
  rw [hHist, hHeight, hVis]
  exact hAdvanced.visible (hHeight ▸ hPos)

theorem Reaches.recorded {admits start}
    (run : Reaches slot admits start st) (hStart : start.AtGenesis) : st.chain.Recorded := by
  have hRec : start.chain.Recorded := by
    refine ⟨hStart.rollupHeight ▸ zero_le _, fun hPos => ?_⟩
    rw [hStart.rollupHeight] at hPos
    exact absurd hPos (lt_irrefl 0)
  refine run.invariant (fun st => st.chain.Recorded) hRec fun s s' blobs hs _ hStep => ?_
  obtain ⟨turn, rfl⟩ := slot_ok hStep
  exact turn.recorded hs

/-- In every run, setup mode and its early end included: when the selection of a slot
creates a block, the price for which it has reserved funds is the price of execution. The
advance from which that price is computed before the blobs are selected is the one chosen. -/
theorem selection_price_is_execution_price {start st : RollupState S} (hStart : start.AtGenesis)
    (run : Reaches slot (fun _ _ => True) start st) {blobs : RelevantBlobs S}
    {synced advanced : ChainState S} {out : SelectorOutput S} (hSync : st.chain.synchronizeChain = .ok synced)
    (hSelect : getBlobsForThisSlot synced st.accounts st.storage blobs = .ok out)
    (hBlock : 0 < out.visibleSlotNumberIncrease) (hAdvance : advanceHeights synced out = .ok advanced) :
    advanced.baseFeePerGas = .ok (synced.getNewGasPrice out.visibleSlotNumberIncrease) ∧
      (S.deferredSlotsCount = 0 → out.visibleSlotNumberIncrease = synced.trueSlotNumber - synced.visibleSlotNumber) ∧
      (S.deferredSlotsCount ≠ 0 → st.accounts.getPreferredSequencer = none →
        out.visibleSlotNumberIncrease = min (synced.trueSlotNumber - synced.visibleSlotNumber) 2) := by
  constructor
  · have hSynced := (Reaches.recorded run hStart).synchronize hSync
    rcases advanceHeights_cases hAdvance with ⟨-, rfl, hProgress⟩ | ⟨_, -⟩
    · exact hSynced.baseFeePerGas_eq hProgress
    · omega
  -- Without a preferred sequencer the advance is all of the lag, or two slots at most in recovery.
  · obtain ⟨hCount, hInc⟩ | ⟨hCount, -, hInc⟩ | ⟨turn, -⟩ := (getBlobsForThisSlot_ok hSelect).increase_cases
    · exact ⟨fun _ => hInc, fun hCount' => absurd hCount hCount'⟩
    · exact ⟨fun hCount' => absurd hCount' hCount, fun _ _ => hInc⟩
    · exact ⟨fun hCount => absurd hCount turn.count_ne, fun _ hNone => by simp [turn.isPreferred] at hNone⟩

/-- The second of two empty slots, the price of which follows from the first. -/
theorem price_of_second_empty_slot :
    ∃ (start st : RollupState testSpec) (synced advanced : ChainState testSpec) (out : SelectorOutput testSpec),
      genesis (soloGenesis (7 : Nat) (1 : Nat) 1000 100 false) = .ok start ∧
      start.slot ⟨[], []⟩ = .ok st ∧ st.chain.synchronizeChain = .ok synced ∧
      getBlobsForThisSlot synced st.accounts st.storage ⟨[], []⟩ = .ok out ∧
      advanceHeights synced out = .ok advanced ∧ advanced.rollupHeight = 2 ∧
      advanced.baseFeePerGas = .ok (synced.getNewGasPrice 1) := by
  refine ⟨_, _, _, _, _, returned, returned, returned, returned, returned, by decide +kernel, ?_⟩
  exact (selection_price_is_execution_price (genesis_atGenesis returned) (.tail .refl trivial returned) returned
    returned (by decide +kernel) returned).1

end SovereignSdk
