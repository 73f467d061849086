import SovereignSdk.BlobStorage.SelectionCases

/-! Which panics the parts of a selection can raise. -/
namespace SovereignSdk
open Bounded Outcome Accounts Selection Panic

variable {S : Spec} {n idx available : Nat} {terms : BlockTerms S} {blob : BlobData S} {sender : S.DaAddress}
  {address recipient : S.Address} {price : S.Price} {holder : Hash} {v : ValidatedBlob S} {sel : Selection S}
  {storage : BlobStorage S} {s : Accounts S} {chain : ChainState S}

/-- The panics of a selection, apart from the one of a recovery without a lag. -/
def Panic.ofSelection : Panic → Bool
  | .u32Overflow | .slotNumberOverflow | .preferredSequencerNotSet | .deserializationFee
  | .directEscrowInStorage | .derivedHolderSelected | .reservedBalanceMissing
  | .emergencyRegistrationInEscrow | .lastItemIsNotBatch | .indexedBlobNotInStorage
  | .blobsNotConsecutive | .severalBatches | .escrowTransfer => true
  | _ => false

theorem asU32_raises : Raises ofSelection (asU32 n) := by
  unfold asU32
  split
  · exact .ok
  · exact .error rfl

theorem numPreExecChecksNeeded_raises : Raises ofSelection (numPreExecChecksNeeded blob) := by
  cases blob with
  | batch txs id address => exact asU32_raises
  | emergencyRegistration | proof => exact .ok

theorem fundsNeeded_raises : Raises ofSelection (fundsNeeded terms blob sender) := by
  refine .bind ?_ fun deferral => ?_
  · unfold deferralCosts
    split
    · exact .bind numPreExecChecksNeeded_raises fun _ => .bind asU32_raises fun _ => .ok
    · exact .ok
  · split
    · exact .ok
    · exact .bind numPreExecChecksNeeded_raises fun _ => .ok

namespace Accounts

theorem deserializeOrTrySlashSender_raises {β : Type} {blob : BlobTransaction S} {decoded : Option β}
    {charge : Option (KnownSequencer S × S.Price)} {slash : Bool} :
    Raises ofSelection (s.deserializeOrTrySlashSender blob decoded charge slash) := by
  unfold deserializeOrTrySlashSender
  dsimp only
  split
  · exact .ok
  · split
    · exact .ok
    · split
      · exact .ok
      · split
        · exact .error rfl
        · exact .ok

theorem validateBlob_raises : Raises ofSelection (s.validateBlob terms idx blob sender available) := by
  refine .bind fundsNeeded_raises fun funds => ?_
  split
  · exact .ok
  · split
    · exact .ok
    · dsimp only
      split
      · exact .ok
      · exact .ok

theorem validatePreferredBlob_raises :
    Raises ofSelection (s.validatePreferredBlob price blob sender available) := by
  unfold validatePreferredBlob
  split
  · exact .ok
  · split
    · exact .ok
    · refine .bind (.bind (.unwrap rfl) fun _ => .ok) fun result => ?_
      split
      · exact .ok
      · exact .ok

theorem refundAllReservedGas_raises : Raises ofSelection (s.refundAllReservedGas holder recipient) := by
  unfold refundAllReservedGas
  split
  · exact .ok
  · split
    · exact .error rfl
    · exact .ok

theorem retrieveFundsFromEscrow_raises {needed} :
    Raises ofSelection (s.retrieveFundsFromEscrow holder recipient needed) := by
  unfold retrieveFundsFromEscrow
  split
  · exact .ok
  · split
    · exact .ok
    · split
      · exact .ok
      · split
        · exact .error rfl
        · exact .ok

theorem moveFundsFromEscrowToBank_raises : Raises ofSelection (s.moveFundsFromEscrowToBank v holder price) := by
  refine .bind ?_ fun recipient => .bind numPreExecChecksNeeded_raises fun checks => ?_
  · cases v.blob with
    | batch | proof => exact .ok
    | emergencyRegistration tx id => exact .error rfl
  · split
    · exact .bind refundAllReservedGas_raises fun _ => .ok
    · refine .bind retrieveFundsFromEscrow_raises fun result => ?_
      split
      · exact .ok
      · exact .bind refundAllReservedGas_raises fun _ => .ok

end Accounts

namespace Selection

theorem validateDecoded_raises {blob decoded} :
    Raises ofSelection (sel.validateDecoded terms idx blob decoded) := by
  unfold validateDecoded
  dsimp only
  split
  · exact .ok
  · refine .bind validateBlob_raises fun result => ?_
    split
    · exact .ok
    · exact .ok

theorem selectNext_raises {state : Selection S × Nat} {item : BlobOrigin S × Nat} :
    Raises ofSelection (selectNext terms state item) := by
  unfold selectNext
  dsimp only
  split
  · exact .ok
  · split
    · refine .bind (.bind asU32_raises fun idx => ?_) fun _ => .ok
      split
      · exact .ok
      · exact .bind deserializeOrTrySlashSender_raises fun _ =>
          validateDecoded_raises
    · split
      · exact .bind (.bind asU32_raises fun idx =>
          .bind deserializeOrTrySlashSender_raises fun _ =>
            validateDecoded_raises) fun _ => .ok
      · unfold selectUnregisteredBatch
        split
        · exact .ok
        · split
          · exact .ok
          · refine .bind deserializeOrTrySlashSender_raises fun _ => ?_
            dsimp only
            split
            · exact .ok
            · exact .ok

theorem selectBlobsDaOrderingHelper_raises {items} :
    Raises ofSelection (sel.selectBlobsDaOrderingHelper terms items) :=
  .bind (.foldlM fun _ _ => selectNext_raises) fun _ => .ok

theorem retrieveBlob_raises : Raises ofSelection (retrieveBlob price sel v) := by
  unfold retrieveBlob
  split
  · refine .bind moveFundsFromEscrowToBank_raises fun result => ?_
    split
    · exact .ok
    · exact .ok
  · exact .error rfl
  · exact .ok

theorem addPreferredBlob_raises {blob} :
    Raises ofSelection (addPreferredBlob price sender address sel blob) := by
  unfold addPreferredBlob
  dsimp only
  split
  · exact .ok
  · refine .bind validatePreferredBlob_raises fun result => ?_
    split
    · exact .ok
    · exact .ok

end Selection

theorem retrieveStoredBlobs_raises {visible} :
    Raises ofSelection (retrieveStoredBlobs storage sel visible n price) :=
  .foldlM fun _ _ => .bind (.foldlM fun _ _ => retrieveBlob_raises) fun _ => .ok

theorem finishSelection_raises {increase stored taken} :
    Raises ofSelection (finishSelection storage sel increase stored taken) := by
  refine .bind (.mapM fun v => ?_) fun _ => .ok
  unfold ValidatedBlob.intoSelectedBlob
  split
  · exact .error rfl
  · exact .ok
  · split
    · exact .ok
    · exact .error rfl

theorem PreferredStore.collectRun_raises {arrivals : List (BlobArrival S)}
    {deferred : Nat → Option (PreferredBlobDataWithId S)} :
    Raises ofSelection (PreferredStore.collectRun deferred arrivals) := by
  induction arrivals generalizing deferred with
  | nil => exact .ok
  | cons arrival rest ih =>
    cases arrival with
    | new b => exact .bind ih fun _ => .ok
    | stored k t => exact .bind (.unwrap rfl) fun _ => .bind ih fun _ => .ok

theorem PreferredStore.pick_raises {p : PreferredStore S} {blobs : List (PreferredBlobDataWithId S)} :
    Raises ofSelection (p.pickPreferredBlobsToProcess blobs) := by
  refine .bind ?_ fun _ => .bind (.ensure rfl) fun _ => .bind (.ensure rfl) fun _ => .ok
  unfold getBlobsToProcessFromRun
  split
  · exact .bind collectRun_raises fun _ => .ok
  · exact .ok

theorem visibleHeightIncrease_raises {selected} :
    Raises ofSelection (visibleHeightIncrease chain selected) := by
  unfold visibleHeightIncrease
  split
  · exact .bind (.unwrap rfl) fun _ => .ok
  · exact .bind (.unwrap rfl) fun _ => .ok

theorem readPreferredBlob_raises {state : Accounts S × List (PreferredBlobDataWithId S)} {item : BlobOrigin S} :
    Raises ofSelection (readPreferredBlob state item) := by
  cases item with
  | proof | batch => exact .bind deserializeOrTrySlashSender_raises fun _ => .ok

theorem getBlobsForThisSlot_raises {accounts : Accounts S} {current : RelevantBlobs S}
    (hLag : chain.visibleSlotNumber < chain.trueSlotNumber) :
    Raises ofSelection (getBlobsForThisSlot chain accounts storage current) := by
  unfold getBlobsForThisSlot
  split
  · exact .bind (.bind selectBlobsDaOrderingHelper_raises fun _ => .ok)
      fun _ => finishSelection_raises
  · split
    · refine .bind (.foldlM fun _ _ => readPreferredBlob_raises) fun _ =>
        .bind PreferredStore.pick_raises fun _ =>
          .bind visibleHeightIncrease_raises fun _ =>
            .bind (.foldlM fun _ _ => addPreferredBlob_raises) fun _ =>
              .bind retrieveStoredBlobs_raises fun _ => ?_
      split
      · exact .bind selectBlobsDaOrderingHelper_raises fun _ =>
          finishSelection_raises
      · exact .bind selectBlobsDaOrderingHelper_raises fun _ =>
          finishSelection_raises
    · refine .bind ?_ fun _ => .bind retrieveStoredBlobs_raises fun _ =>
        finishSelection_raises
      unfold recoveryBlobs
      split
      · omega
      · exact .bind (.bind selectBlobsDaOrderingHelper_raises fun _ => .ok)
          fun _ => .ok
      · exact .bind selectBlobsDaOrderingHelper_raises fun _ => .ok

end SovereignSdk
