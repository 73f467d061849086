import SovereignSdk.ChainState.Roots
import SovereignSdk.StfBlueprint.SelectionPrice

/-! The root passed to the finalize hook at the end of a block, and the root shown to the
transactions of the next one. -/
namespace SovereignSdk
open Bounded Outcome RollupState Nat StateRoots

variable {S : Spec}

/-- The rollup with the roots it keeps, the root that its latest slot returned, and the
root that the finalize hook was last called with. -/
structure RootedState (S : Spec) where
  rollup : RollupState S
  roots : StateRoots
  stateRoot : StorageRoot
  finalizedRoot : StorageRoot

/-- The root of the state after the slot is computed by the storage. -/
structure SlotInput (S : Spec) where
  blobs : RelevantBlobs S
  nextRootHash : StorageRoot

namespace RootedState

def initChain (delay : Nat) (rollup : RollupState S) (genesisRoot : StorageRoot) : Except Panic (RootedState S) := do
  let (roots, finalized) ←
    StateRoots.genesis.materializeSlot delay rollup.chain.rollupHeight true genesisRoot
  return ⟨rollup, roots, genesisRoot, finalized.getD genesisRoot⟩

def recordRoots (st : RootedState S) (synced : ChainState S) (out : SelectorOutput S)
    (advanced : ChainState S) : StateRoots :=
  let roots := st.roots.synchronizeChain st.rollup.chain.rollupHeight synced.trueSlotNumber st.stateRoot
  if 0 < out.visibleSlotNumberIncrease then
    roots.incrementRollupHeight advanced.rollupHeight advanced.visibleSlotNumber
  else roots

/-- `apply_slot_with_control_flow` with its roots; the root returned is the one shown to
transactions. -/
def applySlot (delay : Nat) (st : RootedState S) (input : SlotInput S) :
    Except Panic (RootedState S × StorageRoot) := do
  let synced ← st.rollup.chain.synchronizeChain
  let out ← getBlobsForThisSlot synced st.rollup.accounts st.rollup.storage input.blobs
  let advanced ← advanceHeights synced out
  let roots := st.recordRoots synced out advanced
  let visibleHash ← unwrap .visibleHashUnknown (roots.visibleHashFor delay advanced.rollupHeight advanced)
  let (state, chain) ← applyBatchesInUserSpace advanced out.accounts out
  let (roots, finalized) ← roots.materializeSlot delay chain.rollupHeight
    (decide (0 < out.visibleSlotNumberIncrease)) input.nextRootHash
  return (⟨⟨chain, state.accounts, out.storage⟩, roots, input.nextRootHash,
    finalized.getD st.finalizedRoot⟩, visibleHash)

def slot (delay : Nat) (st : RootedState S) (input : SlotInput S) : Except Panic (RootedState S) := do
  let (next, _) ← st.applySlot delay input
  return next

structure Sound (delay : Nat) (genesisRoot : StorageRoot) (st : RootedState S) : Prop where
  mirrored : st.roots.Mirrored st.rollup.chain genesisRoot
  recorded : st.rollup.chain.Recorded
  visible_le : st.rollup.chain.visibleSlotNumber ≤ st.rollup.chain.trueSlotNumber
  stateRoot : st.rollup.chain.trueSlotNumber = 0 → st.stateRoot = genesisRoot
  finalized : st.roots.nextVisibleRoot delay st.rollup.chain.rollupHeight = .ok st.finalizedRoot

namespace Sound
variable {delay : Nat} {genesisRoot : StorageRoot} {st : RootedState S} {input : SlotInput S}

theorem start {config rollup} (hGen : genesis config = .ok rollup)
    (hStart : initChain delay rollup genesisRoot = .ok st) : st.rollup = rollup ∧ st.Sound delay genesisRoot := by
  simp only [genesis, bind_eq_ok, pure_eq_ok] at hGen
  obtain ⟨bank, -, accounts, -, rfl⟩ := hGen
  simp only [initChain, bind_eq_ok, pure_eq_ok] at hStart
  obtain ⟨⟨roots, finalized⟩, hSlot, rfl⟩ := hStart
  simp only [materializeSlot, if_true, bind_eq_ok, pure_eq_ok] at hSlot
  obtain ⟨root, hRoot, rfl, rfl⟩ := hSlot
  refine ⟨rfl, ⟨.start _ _ _ _, ⟨zero_le _, fun hPos => ?_⟩, le_refl _, fun _ => rfl, hRoot⟩⟩
  exact absurd hPos (lt_irrefl 0)

theorem recordRoots (h : st.Sound delay genesisRoot) (turn : SlotTurn st.rollup input.blobs) :
    (st.recordRoots turn.synced turn.out turn.advanced).Mirrored turn.advanced genesisRoot := by
  have hSynced := h.mirrored.synchronizeChain turn.synchronizing h.stateRoot
  obtain ⟨-, _, -, hAdvanced, -, -, hLe⟩ := turn.slots h.visible_le
  unfold RootedState.recordRoots
  rcases advanceHeights_cases turn.advancing with ⟨hPos, hEq, hProg⟩ | ⟨_, hEq⟩
  · have hRec := h.recorded.synchronize turn.synchronizing
    rw [hEq] at hProg
    have hNext := (hRec.incrementRollupHeight hProg).1
    have hHeight : turn.synced.rollupHeight = st.rollup.chain.rollupHeight := by
      rw [(ChainState.synchronizeChain_ok turn.synchronizing).2]
    rw [if_pos hPos, hEq]
    refine hSynced.incrementRollupHeight hNext ⟨st.stateRoot.userRoot, ?_⟩ (by omega) (hAdvanced ▸ hLe)
    simp [synchronizeChain, hHeight]
  · rw [if_neg (by omega), hEq]
    exact hSynced

theorem applySlot (hDelay : delay ≠ 0) (h : st.Sound delay genesisRoot) (turn : SlotTurn st.rollup input.blobs) :
    ∃ next visibleHash, st.applySlot delay input = .ok (next, visibleHash) ∧ next.rollup = turn.next ∧
      next.Sound delay genesisRoot ∧
      (st.recordRoots turn.synced turn.out turn.advanced).visibleHashFor delay turn.advanced.rollupHeight
        turn.advanced = some visibleHash := by
  have hMirrored := h.recordRoots turn
  obtain ⟨-, -, _, -, hVis', hTrue', hLe⟩ := turn.slots h.visible_le
  obtain ⟨hSameTrue, -, hSameHeight⟩ := applyBatchesInUserSpace_heights turn.executing
  have hNext := hMirrored.congr hSameTrue hSameHeight (applyBatchesInUserSpace_history turn.executing)
  have hRec := turn.recorded h.recorded
  have hTruePos : 0 < turn.advanced.trueSlotNumber := by
    have hEq : turn.next.chain.trueSlotNumber = turn.advanced.trueSlotNumber := hSameTrue
    omega
  have hBelow : turn.advanced.rollupHeight - delay ≤ turn.advanced.rollupHeight := sub_le _ _
  obtain ⟨visibleHash, hHash⟩ := hMirrored.visibleHashFor_known hTruePos hBelow
  have hShown : ∀ {roots finalized}, (st.recordRoots turn.synced turn.out turn.advanced).materializeSlot delay
      turn.chain.rollupHeight (decide (0 < turn.out.visibleSlotNumberIncrease)) input.nextRootHash =
        .ok (roots, finalized) → st.applySlot delay input = .ok
          (⟨turn.next, roots, input.nextRootHash, finalized.getD st.finalizedRoot⟩, visibleHash) := by
    intro roots finalized hMaterialize
    rw [RootedState.applySlot, turn.synchronizing, ok_bind, turn.selecting, ok_bind, turn.advancing, ok_bind]
    dsimp only
    rw [hHash, unwrap_some, ok_bind, turn.executing, ok_bind]
    rw [hMaterialize]
    rfl
  have hVis : turn.next.chain.visibleSlotNumber ≤ turn.next.chain.trueSlotNumber := by
    rw [hVis', hTrue']
    exact hLe
  have hLater : turn.next.chain.trueSlotNumber = 0 → input.nextRootHash = genesisRoot := by
    omega
  rcases advanceHeights_cases turn.advancing with ⟨hPos, -⟩ | ⟨_, hEq⟩
  · obtain ⟨root, hRoot⟩ := hNext.nextVisibleRoot_ok hDelay hRec.height_u64
    rw [decide_eq_true hPos] at hShown
    refine ⟨_, visibleHash, hShown (hNext.materializeSlot_eq.2 root hRoot), rfl, ?_, hHash⟩
    exact ⟨hNext, hRec, hVis, hLater, hRoot⟩
  · have hNot : ¬0 < turn.out.visibleSlotNumberIncrease := by omega
    rw [decide_eq_false hNot] at hShown
    refine ⟨_, visibleHash, hShown hNext.materializeSlot_eq.1, rfl, ?_, hHash⟩
    refine ⟨hNext, hRec, hVis, hLater, ?_⟩
    show (st.recordRoots turn.synced turn.out turn.advanced).nextVisibleRoot delay turn.chain.rollupHeight =
      .ok st.finalizedRoot
    rw [hSameHeight, hEq, RootedState.recordRoots, if_neg hNot, ← h.finalized]
    exact h.mirrored.nextVisibleRoot_synchronizeChain hDelay h.recorded.height_u64 turn.synchronizing h.stateRoot

/-- The root shown in a new block, from the state before its slot: none of the roots that
the slot records is among those read. -/
theorem visibleHashFor_of_block (hDelay : delay ≠ 0) (h : st.Sound delay genesisRoot)
    (turn : SlotTurn st.rollup input.blobs) (hBlock : turn.advanced.rollupHeight = st.rollup.chain.rollupHeight + 1)
    (hLe : delay ≤ st.rollup.chain.rollupHeight) :
    (st.recordRoots turn.synced turn.out turn.advanced).visibleHashFor delay turn.advanced.rollupHeight
        turn.advanced = st.roots.visibleHashFor delay (st.rollup.chain.rollupHeight + 1) st.rollup.chain := by
  have hHeight : turn.synced.rollupHeight = st.rollup.chain.rollupHeight := by
    rw [(ChainState.synchronizeChain_ok turn.synchronizing).2]
  rcases advanceHeights_cases turn.advancing with ⟨hPos, hEq, -⟩ | ⟨-, hEq⟩
  · rw [hBlock, RootedState.recordRoots, if_pos hPos, (advanceHeights_eq turn.advancing).1, hEq]
    rw [hEq, ← hHeight] at hBlock
    rw [StateRoots.Mirrored.visibleHashFor_incrementRollupHeight hBlock (by omega)]
    exact h.mirrored.visibleHashFor_synchronizeChain turn.synchronizing (by omega) (by omega)
  · rw [hEq] at hBlock
    omega

theorem visibleHash_eq_finalized_iff (hDelay : delay ≠ 0) (h : st.Sound delay genesisRoot)
    (turn : SlotTurn st.rollup input.blobs)
    (hBlock : turn.advanced.rollupHeight = st.rollup.chain.rollupHeight + 1) {visibleHash}
    (hHash : (st.recordRoots turn.synced turn.out turn.advanced).visibleHashFor delay
      turn.advanced.rollupHeight turn.advanced = some visibleHash) :
    visibleHash = st.finalizedRoot ↔ (st.rollup.chain.rollupHeight = delay →
        ∀ slot, st.rollup.chain.slotNumberHistory 1 = some slot → st.roots.slots slot = some genesisRoot) := by
  have hNext : st.rollup.chain.rollupHeight + 1 ≤ u64Max := by
    obtain ⟨-, -, _⟩ := applyBatchesInUserSpace_heights turn.executing
    have hU64 : turn.chain.rollupHeight ≤ u64Max := (turn.recorded h.recorded).height_u64
    omega
  have hFinal := h.finalized
  rcases lt_trichotomy st.rollup.chain.rollupHeight delay with hLt | hEq | hGt
  · -- Both are the root after genesis.
    rw [h.mirrored.nextVisibleRoot_of_le hDelay hLt.le, Except.ok.injEq] at hFinal
    obtain ⟨-, -, _, -, -, _, -⟩ := turn.slots h.visible_le
    obtain ⟨hSame, -⟩ := applyBatchesInUserSpace_heights turn.executing
    have hTrue'' : turn.next.chain.trueSlotNumber = turn.advanced.trueSlotNumber := hSame
    rw [(h.recordRoots turn).visibleHashFor_of_eq_zero (by omega) (by omega), Option.some.injEq] at hHash
    exact iff_of_true (hHash.symm.trans hFinal) fun hEq => absurd hEq hLt.ne
  · -- The block shows the root before the slot of the first block.
    rw [h.mirrored.nextVisibleRoot_of_le hDelay hEq.le, Except.ok.injEq] at hFinal
    rw [h.visibleHashFor_of_block hDelay turn hBlock hEq.ge] at hHash
    obtain ⟨slot, hSlot, -, hRoot⟩ := h.mirrored.visibleHashFor_of_eq_one
      (show st.rollup.chain.rollupHeight + 1 - delay = 1 by omega) (by omega)
    rw [← hFinal]
    refine ⟨fun hShown _ slot' hSlot' => ?_, fun hShown => ?_⟩
    · rw [← Option.some.inj (hSlot.symm.trans hSlot'), ← hRoot, hHash, hShown]
    · exact Option.some.inj (hHash.symm.trans (hRoot.trans (hShown hEq slot hSlot)))
  · rw [h.visibleHashFor_of_block hDelay turn hBlock hGt.le] at hHash
    have hSat : saturatingAdd u64Max st.rollup.chain.rollupHeight 1 = st.rollup.chain.rollupHeight + 1 :=
      min_eq_left hNext
    rw [(h.mirrored.nextVisibleRoot_of_lt hDelay hGt h.recorded.height_u64).2.2, hSat, hHash,
      unwrap_some, Except.ok.injEq] at hFinal
    exact iff_of_true hFinal fun hEq => absurd hEq hGt.ne'

end Sound

theorem slot_ok {delay : Nat} {st st' : RootedState S} {input : SlotInput S}
    (h : st.slot delay input = .ok st') : Nonempty (SlotTurn st.rollup input.blobs) := by
  simp only [slot, RootedState.applySlot, bind_eq_ok] at h
  obtain ⟨_, ⟨synced, hSync, out, hSel, advanced, hAdv, _, -, ⟨state, chain⟩, hExec, -⟩, -⟩ := h
  exact ⟨⟨synced, out, advanced, state, chain, hSync, hSel, hAdv, hExec⟩⟩

end RootedState

theorem Reaches.rootsSound {delay : Nat} (hDelay : delay ≠ 0) {genesisRoot : StorageRoot}
    {admits : RootedState S → SlotInput S → Prop} {start st : RootedState S}
    (run : Reaches (RootedState.slot delay) admits start st) (hStart : start.Sound delay genesisRoot) :
    st.Sound delay genesisRoot := by
  refine run.invariant (RootedState.Sound delay genesisRoot) hStart fun s s' input hs _ hStep => ?_
  obtain ⟨turn⟩ := RootedState.slot_ok hStep
  obtain ⟨next, visibleHash, hSlot, -, hNext, -⟩ := hs.applySlot hDelay turn
  rw [RootedState.slot, hSlot] at hStep
  exact Except.ok.inj hStep ▸ hNext

/-- In every run, whenever a slot of the rollup returns, the roots it needs are known. If it
creates a block, the root shown to transactions is the one that the finalize hook was given
at the end of the block before, unless that was the last block to be given the root after
genesis: the root before the slot of the first block is shown then, which has to be the
same. -/
theorem finalized_root_is_shown_iff {delay : Nat} (hDelay : 1 ≤ delay) {config : GenesisConfig S}
    {rollup : RollupState S} {genesisRoot : StorageRoot} {start st : RootedState S}
    (hGenesis : genesis config = .ok rollup) (hStart : RootedState.initChain delay rollup genesisRoot = .ok start)
    (run : Reaches (RootedState.slot delay) (fun _ _ => True) start st) {input : SlotInput S}
    {next : RollupState S} (hSlot : st.rollup.slot input.blobs = .ok next) :
    ∃ st' visibleHash, st.applySlot delay input = .ok (st', visibleHash) ∧ st'.rollup = next ∧
      (next.chain.rollupHeight = st.rollup.chain.rollupHeight + 1 → (visibleHash = st.finalizedRoot ↔
          (st.rollup.chain.rollupHeight = delay → ∀ slot, st.rollup.chain.slotNumberHistory 1 = some slot →
              st.roots.slots slot = some genesisRoot))) := by
  have hNonzero : delay ≠ 0 := one_le_iff_ne_zero.mp hDelay
  have hSound := Reaches.rootsSound hNonzero run (RootedState.Sound.start hGenesis hStart).2
  obtain ⟨turn, rfl⟩ := slot_ok hSlot
  obtain ⟨st', visibleHash, hRooted, hRollup, -, hHash⟩ := hSound.applySlot hNonzero turn
  refine ⟨st', visibleHash, hRooted, hRollup, fun hBlock => ?_⟩
  obtain ⟨-, -, hSame⟩ := applyBatchesInUserSpace_heights turn.executing
  exact hSound.visibleHash_eq_finalized_iff hNonzero turn (hSame.symm.trans hBlock) hHash

def advancingBlob (number : Nat) (advance : Fin 10) : BlobTransaction testSpec :=
  preferredBatchOf (1 : Nat) number advance [] (zero_le _)

/-- The first slot brings no batch and only changes the kernel root. The first block is
created in the second slot, which it makes visible: at its end the finalize hook is given
the root after genesis, the second block is shown the one after the first slot. -/
theorem root_after_genesis_is_not_shown :
    ∃ (rollup : RollupState testSpec) (start first second third : RootedState testSpec) (shown : StorageRoot),
      genesis (soloGenesis (7 : Nat) (1 : Nat) 5000 1000 true) = .ok rollup ∧
      RootedState.initChain 1 rollup ⟨10, 20⟩ = .ok start ∧
      start.slot 1 ⟨⟨[], []⟩, ⟨10, 21⟩⟩ = .ok first ∧
      first.slot 1 ⟨⟨[advancingBlob 0 1], []⟩, ⟨12, 22⟩⟩ = .ok second ∧
      second.rollup.chain.rollupHeight = 1 ∧
      second.applySlot 1 ⟨⟨[advancingBlob 1 0], []⟩, ⟨13, 23⟩⟩ = .ok (third, shown) ∧
      third.rollup.chain.rollupHeight = 2 ∧
      second.finalizedRoot = ⟨10, 20⟩ ∧ shown = ⟨10, 21⟩ :=
  ⟨_, _, _, _, _, _, rfl, rfl, rfl, rfl, rfl, rfl, rfl, rfl, rfl⟩

/-- With a delay of two blocks the second block is shown the root after genesis as well. -/
theorem root_after_genesis_is_shown :
    ∃ (rollup : RollupState testSpec) (start first second third : RootedState testSpec) (shown : StorageRoot),
      genesis (soloGenesis (7 : Nat) (1 : Nat) 5000 1000 true) = .ok rollup ∧
      RootedState.initChain 2 rollup ⟨10, 20⟩ = .ok start ∧
      start.slot 2 ⟨⟨[], []⟩, ⟨10, 21⟩⟩ = .ok first ∧
      first.slot 2 ⟨⟨[advancingBlob 0 1], []⟩, ⟨12, 22⟩⟩ = .ok second ∧
      second.applySlot 2 ⟨⟨[advancingBlob 1 0], []⟩, ⟨13, 23⟩⟩ = .ok (third, shown) ∧
      shown = second.finalizedRoot := by
  simp only [exists_and_left]
  refine exists_and_of returned fun hGenesis => exists_and_of returned fun hStart => ?_
  refine exists_and_of returned fun hFirst => exists_and_of returned fun hSecond => ?_
  obtain ⟨third, shown, hThird, -, hShown⟩ := finalized_root_is_shown_iff (by decide) hGenesis hStart
    (.tail (.tail .refl trivial hFirst) trivial hSecond)
    (returned (x := slot _ (SlotInput.blobs ⟨⟨[advancingBlob 1 0], []⟩, ⟨13, 23⟩⟩)))
  exact ⟨third, shown, hThird, (hShown (by decide +kernel)).mpr fun hEq => absurd hEq (by decide +kernel)⟩

end SovereignSdk
