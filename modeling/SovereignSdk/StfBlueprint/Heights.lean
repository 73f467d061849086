import SovereignSdk.BlobStorage.Deferral
import SovereignSdk.BlobStorage.SelectionPanics
import SovereignSdk.Genesis
import SovereignSdk.StfBlueprint.Panics

/-! The heights over a run of slots: the visible slot number stays behind the true
one, and never by more than the configured number of slots. -/
namespace SovereignSdk
open Bounded Outcome ChainState RollupState

variable {S : Spec}

structure SlotTurn (st : RollupState S) (blobs : RelevantBlobs S) where
  synced : ChainState S
  out : SelectorOutput S
  advanced : ChainState S
  state : TxState S
  chain : ChainState S
  synchronizing : st.chain.synchronizeChain = .ok synced
  selecting : getBlobsForThisSlot synced st.accounts st.storage blobs = .ok out
  advancing : advanceHeights synced out = .ok advanced
  executing : applyBatchesInUserSpace advanced out.accounts out = .ok (state, chain)

namespace SlotTurn
variable {st : RollupState S} {blobs : RelevantBlobs S}

def next (turn : SlotTurn st blobs) : RollupState S := ⟨turn.chain, turn.state.accounts, turn.out.storage⟩

def report (turn : SlotTurn st blobs) : SlotReport S where
  trueSlotNumber := turn.synced.trueSlotNumber
  visibleBefore := turn.synced.visibleSlotNumber
  visibleAfter := turn.advanced.visibleSlotNumber
  selectedBlobs := turn.out.selectedBlobs
  discarded := turn.out.discarded
  stored := turn.out.stored
  taken := turn.out.taken
  withdrawn := turn.state.withdrawn

end SlotTurn

variable {blobs : RelevantBlobs S} {st : RollupState S}

theorem applySlot_ok {st' report} (h : applySlot st blobs = .ok (st', report)) :
    ∃ turn : SlotTurn st blobs, st' = turn.next ∧ report = turn.report := by
  simp only [applySlot, bind_eq_ok, pure_eq_ok] at h
  obtain ⟨synced, hSync, out, hSel, advanced, hAdv, ⟨state, chain⟩, hExec, rfl, rfl⟩ := h
  exact ⟨⟨synced, out, advanced, state, chain, hSync, hSel, hAdv, hExec⟩, rfl, rfl⟩

theorem RollupState.slot_ok {st'} (h : st.slot blobs = .ok st') : ∃ turn : SlotTurn st blobs, st' = turn.next := by
  simp only [slot, bind_eq_ok, pure_eq_ok] at h
  obtain ⟨⟨next, report⟩, hSlot, rfl⟩ := h
  obtain ⟨turn, hNext, -⟩ := applySlot_ok hSlot
  exact ⟨turn, hNext⟩

variable (turn : SlotTurn st blobs)

theorem SlotTurn.execution :
    ∃ gasPrice slotGas slotGas', turn.out.selectedBlobs.foldlM (applyBlob ⟨turn.advanced, gasPrice⟩)
      (⟨turn.out.accounts, turn.advanced.setupModeTerminationHeight, []⟩, slotGas) =
        .ok (turn.state, slotGas') := by
  have hExec := turn.executing
  simp only [applyBatchesInUserSpace, bind_eq_ok] at hExec
  obtain ⟨gasPrice, -, slotGas, -, ⟨state, slotGas'⟩, hFold, hExec⟩ := hExec
  refine ⟨gasPrice, slotGas, slotGas', hFold.trans ?_⟩
  split at hExec
  · simp only [bind_eq_ok, pure_eq_ok, Prod.mk.injEq] at hExec
    obtain ⟨_, -, rfl, -⟩ := hExec
    rfl
  · rw [← (Prod.mk.inj (Except.ok.inj hExec)).1]

variable {out : SelectorOutput S}

theorem applyBatchesInUserSpace_heights {chain chain' accounts state}
    (h : applyBatchesInUserSpace chain accounts out = .ok (state, chain')) :
    chain'.trueSlotNumber = chain.trueSlotNumber ∧ chain'.visibleSlotNumber = chain.visibleSlotNumber ∧
      chain'.rollupHeight = chain.rollupHeight := by
  simp only [applyBatchesInUserSpace, bind_eq_ok] at h
  obtain ⟨price, -, meter, -, ⟨final, slotGas⟩, -, h⟩ := h
  split at h
  · simp only [bind_eq_ok, pure_eq_ok] at h
    obtain ⟨_, -, -, rfl⟩ := h
    exact ⟨rfl, rfl, rfl⟩
  · cases h
    exact ⟨rfl, rfl, rfl⟩

/-- Between two slots: every block has moved the visible slot number, which is
behind the true one by less than the configured number of slots. -/
structure ChainState.Lagging (c : ChainState S) : Prop where
  height_le : c.rollupHeight ≤ c.visibleSlotNumber
  visible_le : c.visibleSlotNumber ≤ c.trueSlotNumber
  lag_le : c.trueSlotNumber - c.visibleSlotNumber ≤ S.deferredSlotsCount - 1

namespace ChainState.Lagging
variable {c synced advanced : ChainState S}

theorem synchronize (hc : c.Lagging) (h : c.synchronizeChain = .ok synced) :
    synced.Synced ∧ synced.LagWithin ∧ synced.rollupHeight ≤ synced.visibleSlotNumber := by
  obtain ⟨hU64, rfl⟩ := synchronizeChain_ok h
  have h₁ := hc.visible_le
  have h₂ := hc.lag_le
  refine ⟨⟨Nat.lt_succ_of_le h₁, hU64⟩, ?_, hc.height_le⟩
  unfold ChainState.LagWithin
  dsimp only
  omega

end ChainState.Lagging

theorem advanceHeights_ok {synced} (hc : synced.Synced)
    (hHeight : synced.rollupHeight ≤ synced.visibleSlotNumber)
    (hLe : synced.visibleSlotNumber + out.visibleSlotNumberIncrease ≤ synced.trueSlotNumber)
    (hEmpty : out.visibleSlotNumberIncrease = 0 → out.selectedBlobs = []) :
    ∃ advanced, advanceHeights synced out = .ok advanced ∧ advanced.rollupHeight ≤ advanced.visibleSlotNumber := by
  have hU64 := hc.true_u64
  unfold advanceHeights
  split
  · have hAdv : advanceSlot synced.visibleSlotNumber out.visibleSlotNumberIncrease =
        .ok (synced.visibleSlotNumber + out.visibleSlotNumberIncrease) := by
      rw [advanceSlot, unwrap_eq_ok, checkedAdd_eq_some]
      exact ⟨by omega, rfl⟩
    refine ⟨synced.incrementRollupHeight (synced.visibleSlotNumber + out.visibleSlotNumberIncrease), ?_, ?_⟩
    · rw [hAdv, ok_bind]
      dsimp only
      rw [ensure, if_pos hLe, ensure, if_pos]
      · rfl
      · simp only [incrementRollupHeight, saturatingAdd]
        omega
    · simp only [incrementRollupHeight, saturatingAdd]
      omega
  · rename_i hZero
    have hEq : out.visibleSlotNumberIncrease = 0 := Nat.eq_zero_of_not_pos hZero
    refine ⟨synced, ?_, hHeight⟩
    rw [hEmpty hEq]
    rfl

theorem advanceHeights_cases {synced advanced} (h : advanceHeights synced out = .ok advanced) :
    (0 < out.visibleSlotNumberIncrease ∧ advanced = synced.incrementRollupHeight
          (synced.visibleSlotNumber + out.visibleSlotNumberIncrease) ∧
        advanced.rollupHeight ≠ synced.rollupHeight) ∨
      out.visibleSlotNumberIncrease = 0 ∧ advanced = synced := by
  unfold advanceHeights at h
  split at h
  · rename_i hPos
    simp only [advanceSlot, bind_eq_ok, unwrap_eq_ok, checkedAdd_eq_some, ensure_eq_ok, pure_eq_ok] at h
    obtain ⟨visible, ⟨-, rfl⟩, -, -, -, hProg, rfl⟩ := h
    exact .inl ⟨hPos, rfl, hProg.2⟩
  · rename_i hZero
    simp only [bind_eq_ok, pure_eq_ok] at h
    obtain ⟨-, -, rfl⟩ := h
    exact .inr ⟨Nat.eq_zero_of_not_pos hZero, rfl⟩

theorem advanceHeights_eq {synced advanced} (h : advanceHeights synced out = .ok advanced) :
    advanced.visibleSlotNumber = synced.visibleSlotNumber + out.visibleSlotNumberIncrease ∧
      advanced.trueSlotNumber = synced.trueSlotNumber := by
  rcases advanceHeights_cases h with ⟨-, rfl, -⟩ | ⟨_, rfl⟩
  · exact ⟨rfl, rfl⟩
  · exact ⟨by omega, rfl⟩

theorem SlotTurn.slots (hLe : st.chain.visibleSlotNumber ≤ st.chain.trueSlotNumber) :
    turn.synced.Synced ∧ turn.synced.visibleSlotNumber = st.chain.visibleSlotNumber ∧
      turn.synced.trueSlotNumber = st.chain.trueSlotNumber + 1 ∧
      turn.advanced.visibleSlotNumber = turn.synced.visibleSlotNumber + turn.out.visibleSlotNumberIncrease ∧
      turn.next.chain.visibleSlotNumber = turn.advanced.visibleSlotNumber ∧
      turn.next.chain.trueSlotNumber = turn.synced.trueSlotNumber ∧
      turn.advanced.visibleSlotNumber ≤ turn.synced.trueSlotNumber := by
  obtain ⟨_, hEq⟩ := synchronizeChain_ok turn.synchronizing
  have hTrue : turn.synced.trueSlotNumber = st.chain.trueSlotNumber + 1 := by rw [hEq]
  have hVis : turn.synced.visibleSlotNumber = st.chain.visibleSlotNumber := by rw [hEq]
  have hSynced : turn.synced.Synced := ⟨by omega, by omega⟩
  have hInc := (getBlobsForThisSlot_ok turn.selecting).increase_le hSynced
  obtain ⟨hAdvanced, hSame⟩ := advanceHeights_eq turn.advancing
  obtain ⟨hTrue', hVis', -⟩ := applyBatchesInUserSpace_heights turn.executing
  exact ⟨hSynced, hVis, hTrue, hAdvanced, hVis', hTrue'.trans hSame, hAdvanced ▸ hInc⟩

theorem SlotTurn.lagging
    (hc : st.chain.Lagging) (hMax : 0 < S.maxVisibleHeightIncreasePerSlot) : turn.next.chain.Lagging := by
  obtain ⟨hSynced, hWithin, hHeight⟩ := hc.synchronize turn.synchronizing
  obtain ⟨-, -, -, hVis, hNextVis, hNextTrue, hLe⟩ := turn.slots hc.visible_le
  have hCase := getBlobsForThisSlot_ok turn.selecting
  have hLag := hCase.lag_le hSynced hWithin hMax
  obtain ⟨advanced, hAdv, hHeight'⟩ :=
    advanceHeights_ok hSynced hHeight (hCase.increase_le hSynced) (hCase.empty_of_zero hSynced hMax)
  cases hAdv.symm.trans turn.advancing
  obtain ⟨-, -, hRollup⟩ := applyBatchesInUserSpace_heights turn.executing
  refine ⟨?_, ?_, ?_⟩
  · rw [hNextVis]
    exact hRollup.trans_le hHeight'
  · rw [hNextVis, hNextTrue]
    exact hLe
  · rw [hNextVis, hNextTrue, hVis]
    exact hLag

theorem RollupState.AtGenesis.lagging (h : st.AtGenesis) : st.chain.Lagging where
  height_le := by rw [h.rollupHeight]; exact Nat.zero_le _
  visible_le := by rw [h.visibleSlotNumber]; exact Nat.zero_le _
  lag_le := by rw [h.trueSlotNumber]; omega

theorem Reaches.lagging {admits start}
    (run : Reaches slot admits start st) (hStart : start.AtGenesis)
    (hMax : 0 < S.maxVisibleHeightIncreasePerSlot) : st.chain.Lagging := by
  refine run.invariant (fun st => st.chain.Lagging) hStart.lagging fun s s' blobs hs _ hStep => ?_
  obtain ⟨turn, rfl⟩ := slot_ok hStep
  exact turn.lagging hs hMax

def Panic.ofHeights (p : Panic) : Bool :=
  p == .zeroDelta || p == .visibleSlotPastTrueSlot || p == .heightsDidNotProgress ||
    p == .blobsWithoutRollupBlock

theorem ChainState.baseFeePerGas_raises (c : ChainState S) :
    Raises (· == .slotNumberHistoryMissing) c.baseFeePerGas := by
  unfold baseFeePerGas
  split
  · exact .ok
  · split
    · exact .ok
    · exact .bind (.unwrap rfl) fun _ => .ok

theorem advanceHeights_raises (chain : ChainState S) (out : SelectorOutput S) :
    Raises (fun p => p.ofHeights || p == .slotNumberOverflow) (advanceHeights chain out) := by
  unfold advanceHeights
  split
  · exact .bind (.unwrap rfl) fun _ => .bind (.ensure rfl) fun _ =>
      .bind (.ensure rfl) fun _ => .ok
  · exact .bind (.ensure rfl) fun _ => .ok

theorem applyBatchesInUserSpace_raises (chain : ChainState S) (accounts : Accounts S) (out : SelectorOutput S) :
    Raises (fun p => p.ofBlob || p == .slotNumberHistoryMissing || p == .slotGasMeter)
      (applyBatchesInUserSpace chain accounts out) := by
  refine .bind (chain.baseFeePerGas_raises.mono fun p hp => by simp [hp]) fun price =>
    .bind (.unwrap rfl) fun meter =>
      .bind (.foldlM fun _ _ => applyBlob_ofBlob.mono fun p hp => by simp [hp]) fun _ => ?_
  dsimp only
  split
  · exact .bind (.unwrap rfl) fun _ => .ok
  · exact .ok

theorem applySlot_raises (hc : st.chain.Lagging)
    (hMax : 0 < S.maxVisibleHeightIncreasePerSlot) (blobs : RelevantBlobs S) :
    Raises (fun p => !p.ofHeights) (applySlot st blobs) := by
  refine .bind_ok (.bind (.unwrap rfl) fun _ => .ok) fun synced hSync => ?_
  obtain ⟨hSynced, -, hHeight⟩ := hc.synchronize hSync
  refine .bind_ok ((getBlobsForThisSlot_raises hSynced.visible_lt).mono ?_) fun out hOut => ?_
  · intro p hp
    cases p <;> first | rfl | cases hp
  · have hCase := getBlobsForThisSlot_ok hOut
    obtain ⟨advanced, hAdv, -⟩ := advanceHeights_ok hSynced hHeight (hCase.increase_le hSynced)
      (hCase.empty_of_zero hSynced hMax)
    rw [hAdv, ok_bind]
    refine .bind ((applyBatchesInUserSpace_raises _ _ _).mono ?_) fun _ => .ok
    intro p hp
    cases p <;> first | rfl | cases hp

/-- In every run of slots, in any mixture of preferred and recovery mode: between
slots the lag is below the limit, after synchronization it is between one and the
limit, a selection never pushes the visible slot past the true one, it only leaves
it where it is if nothing is selected, and no panic about heights is reachable. -/
theorem visible_slot_stays_behind (hCount : 1 ≤ S.deferredSlotsCount)
    (hMax : 1 ≤ S.maxVisibleHeightIncreasePerSlot) {start st : RollupState S} (hStart : start.AtGenesis)
    (run : Reaches slot (fun _ _ => True) start st) (blobs : RelevantBlobs S) :
    (st.chain.visibleSlotNumber ≤ st.chain.trueSlotNumber ∧
        st.chain.trueSlotNumber - st.chain.visibleSlotNumber ≤ S.deferredSlotsCount - 1) ∧
      (∀ synced, st.chain.synchronizeChain = .ok synced → 1 ≤ synced.trueSlotNumber - synced.visibleSlotNumber ∧
          synced.trueSlotNumber - synced.visibleSlotNumber ≤ S.deferredSlotsCount ∧
          ∀ out, getBlobsForThisSlot synced st.accounts st.storage blobs = .ok out →
            synced.visibleSlotNumber + out.visibleSlotNumberIncrease ≤ synced.trueSlotNumber ∧
              synced.trueSlotNumber - (synced.visibleSlotNumber + out.visibleSlotNumberIncrease) ≤
                S.deferredSlotsCount - 1 ∧
              (out.visibleSlotNumberIncrease = 0 → out.selectedBlobs = [])) ∧
      ∀ p, p = .zeroDelta ∨ p = .visibleSlotPastTrueSlot ∨ p = .heightsDidNotProgress ∨
        p = .blobsWithoutRollupBlock → applySlot st blobs ≠ .error p := by
  have hc := Reaches.lagging run hStart hMax
  refine ⟨⟨hc.visible_le, hc.lag_le⟩, fun synced hSync => ?_, fun p hp => ?_⟩
  · obtain ⟨hSynced, hWithin, -⟩ := hc.synchronize hSync
    have h₁ := hSynced.visible_lt
    have h₂ := hWithin
    unfold ChainState.LagWithin at h₂
    refine ⟨by omega, by omega, fun out hOut => ?_⟩
    have hCase := getBlobsForThisSlot_ok hOut
    exact ⟨hCase.increase_le hSynced, hCase.lag_le hSynced hWithin hMax, hCase.empty_of_zero hSynced hMax⟩
  · refine (applySlot_raises hc hMax blobs).ne ?_
    rcases hp with rfl | rfl | rfl | rfl <;> rfl

def preferredBatchOf (sender : S.DaAddress) (number : Nat) (advance : Fin 10) (txs : List (FullyBakedTx S))
    (hTxs : txs.length ≤ u32Max) : BlobTransaction S where
  sender
  hash := 50 + number
  totalLen := 5
  asBatch := none
  asProof := none
  asTx := none
  asPreferredBatch := some
    ⟨number, txs, advance + 1, hTxs, Nat.succ_pos _, le_trans advance.isLt (Nat.le_of_ble_eq_true rfl)⟩
  asPreferredProof := none
  batch_length := by simp
  batch_len_le := by simp
  proof_len_le := by simp

/-- A blob that holds an empty batch. -/
def emptyBatchBlob (sender : S.DaAddress) (hash : Hash) : BlobTransaction S where
  sender
  hash
  totalLen := 5
  asBatch := some []
  asProof := none
  asTx := none
  asPreferredBatch := none
  asPreferredProof := none
  batch_length := by simp
  batch_len_le := by simp
  proof_len_le := by simp

/-- A blob that cannot be read as anything. -/
def brokenBlob (sender : S.DaAddress) (hash : Hash) : BlobTransaction S :=
  { emptyBatchBlob sender hash with
    asBatch := none
    batch_length := by simp
    batch_len_le := by simp }

/-- The first slot brings a batch of the preferred sequencer, which makes it visible, the second one nothing. -/
theorem visible_slot_behind_after_batch :
    ∃ start st : RollupState testSpec, genesis (soloGenesis (7 : Nat) (1 : Nat) 1000 100 true) = .ok start ∧
      [⟨[preferredBatchOf (1 : Nat) 0 0 [] (Nat.zero_le _)], []⟩, ⟨[], []⟩].foldlM slot start = .ok st ∧
      st.chain.rollupHeight = 1 ∧ st.chain.visibleSlotNumber = 1 ∧ st.chain.trueSlotNumber = 2 ∧
      st.chain.visibleSlotNumber ≤ st.chain.trueSlotNumber := by
  refine ⟨_, _, returned, returned, by decide +kernel, by decide +kernel, by decide +kernel, ?_⟩
  exact (visible_slot_stays_behind (by decide) (by decide) (genesis_atGenesis returned)
    (.of_foldlM (fun _ _ => trivial) returned .refl) ⟨[], []⟩).1.1

end SovereignSdk
