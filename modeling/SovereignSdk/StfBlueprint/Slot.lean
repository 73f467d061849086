import SovereignSdk.BlobStorage.Selection
import SovereignSdk.StfBlueprint.Blobs

/-! One slot of the rollup: the chain is synchronized with the DA layer, blobs
are selected, the visible slot number moves and the blobs are executed. -/
namespace SovereignSdk
open Bounded Outcome

variable {S : Spec}

structure RollupState (S : Spec) where
  chain : ChainState S
  accounts : Accounts S
  storage : BlobStorage S

structure RollupState.AtGenesis (st : RollupState S) : Prop where
  trueSlotNumber : st.chain.trueSlotNumber = 0
  visibleSlotNumber : st.chain.visibleSlotNumber = 0
  rollupHeight : st.chain.rollupHeight = 0
  solvent : st.accounts.Solvent
  storage : st.storage = .empty

structure SlotReport (S : Spec) where
  trueSlotNumber : Nat
  visibleBefore : Nat
  visibleAfter : Nat
  selectedBlobs : List (SelectedBlob S)
  discarded : List DiscardedBlob
  stored : List (ValidatedBlob S)
  taken : List (Nat × List (ValidatedBlob S))
  withdrawn : List S.DaAddress

/-- The heights after a selection: a block is created if the visible slot number
moves. -/
def advanceHeights (chain : ChainState S) (out : SelectorOutput S) : Except Panic (ChainState S) :=
  if 0 < out.visibleSlotNumberIncrease then do
    let visible ← advanceSlot chain.visibleSlotNumber out.visibleSlotNumberIncrease
    ensure .visibleSlotPastTrueSlot (visible ≤ chain.trueSlotNumber)
    let next := chain.incrementRollupHeight visible
    ensure .heightsDidNotProgress
      (next.visibleSlotNumber ≠ chain.visibleSlotNumber ∧ next.rollupHeight ≠ chain.rollupHeight)
    return next
  else do
    ensure .blobsWithoutRollupBlock (out.selectedBlobs.isEmpty = true)
    return chain

def applyBatchesInUserSpace (chain : ChainState S) (accounts : Accounts S) (out : SelectorOutput S) :
    Except Panic (TxState S × ChainState S) := do
  let gasPrice ← chain.baseFeePerGas
  let slotGas ← unwrap .slotGasMeter
    (SlotGasMeter.new S.initialGasLimit accounts.registry.preferredSequencer)
  let (state, slotGas) ← out.selectedBlobs.foldlM (applyBlob ⟨chain, gasPrice⟩)
    (⟨accounts, chain.setupModeTerminationHeight, []⟩, slotGas)
  let chain := { chain with setupModeTerminationHeight := state.setupModeTerminationHeight }
  if 0 < out.visibleSlotNumberIncrease then
    let gasUsed ← unwrap .slotGasMeter slotGas.totalGasUsed
    return (state, chain.recordGasUsage ⟨gasUsed, gasPrice⟩)
  else return (state, chain)

def applySlot (st : RollupState S) (blobs : RelevantBlobs S) : Except Panic (RollupState S × SlotReport S) := do
  let synced ← st.chain.synchronizeChain
  let out ← getBlobsForThisSlot synced st.accounts st.storage blobs
  let advanced ← advanceHeights synced out
  let (state, chain) ← applyBatchesInUserSpace advanced out.accounts out
  return (⟨chain, state.accounts, out.storage⟩,
    { trueSlotNumber := synced.trueSlotNumber
      visibleBefore := synced.visibleSlotNumber
      visibleAfter := advanced.visibleSlotNumber
      selectedBlobs := out.selectedBlobs
      discarded := out.discarded
      stored := out.stored
      taken := out.taken
      withdrawn := state.withdrawn })

def RollupState.slot (st : RollupState S) (blobs : RelevantBlobs S) : Except Panic (RollupState S) := do
  let (next, _) ← applySlot st blobs
  return next

end SovereignSdk
