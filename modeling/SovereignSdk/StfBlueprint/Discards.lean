import SovereignSdk.BlobStorage.Discards
import SovereignSdk.StfBlueprint.Selections

/-! What the blobs that a run of slots discards cost their senders. -/
namespace SovereignSdk
open Bounded Outcome Accounts Selection RollupState

variable {S : Spec}

theorem Reaches.solvent {admits : RollupState S → RelevantBlobs S → Prop} {start st : RollupState S}
    (run : Reaches slot admits start st) (hStart : start.AtGenesis) :
    st.accounts.Solvent ∧ st.storage.AllStorable := by
  have hSound := Sound.start hStart
  refine run.invariant (fun st => st.accounts.Solvent ∧ st.storage.AllStorable)
    ⟨hSound.solvent, hSound.storable⟩ fun s s' blobs ⟨hs, hStorable⟩ _ hStep => ?_
  obtain ⟨turn, rfl⟩ := slot_ok hStep
  obtain ⟨hSolv, hStorable'⟩ := (getBlobsForThisSlot_ok turn.selecting).sound hs hStorable
  exact ⟨turn.keeps (kept_solvent _) hSolv, hStorable'⟩

/-- In every run and at every point of a selection: a blob of the current slot that is
discarded without a penalty costs its sender no more than the charge for decoding it, and
a blob from storage gets its escrow back, unless it is found too large only after its
funds have been set aside for the checks. -/
theorem discarded_blob_refunded_iff {start st : RollupState S} (hStart : start.AtGenesis)
    (run : Reaches slot (fun _ _ => True) start st) {sel sel' : Selection S}
    (hSel : Underway st.accounts sel) (hDiscarded : sel'.discarded ≠ sel.discarded) :
    (∀ terms origin idx n n', selectNext terms (sel, n) (origin, idx) = .ok (sel', n') →
      sel'.accounts.statusOf origin.sender = sel.accounts.statusOf origin.sender →
        (sel.accounts.Refunds sel'.accounts origin.sender
            ((deserializationCost origin.get terms.price).getD 0) ↔
          sel.lostEscrow terms origin = 0)) ∧
      ∀ price v holder recipient, v.balanceStore = .derivedHolder holder →
        escrowRecipient v.blob = .ok recipient → retrieveBlob price sel v = .ok sel' →
          (sel.accounts.GivesBack sel'.accounts holder recipient ↔ sel.lostOnRetrieval price v holder = 0) := by
  have hs := hSel.solvent (Reaches.solvent run hStart).1
  refine ⟨fun terms origin idx n n' h hStatus => ?_, fun price v holder recipient hEscrow hRecipient h => ?_⟩
  · have hBlobs := (selectNext_effect h).blobs_eq hDiscarded
    exact selectNext_refunds_iff hs h hBlobs hStatus
  · have hBlobs := (retrieveBlob_effect h).blobs_eq hDiscarded
    exact retrieveBlob_givesBack_iff hs hEscrow hRecipient h hBlobs

/-- A batch of one transaction that fits by its length on the DA layer, but not with
its hash and the address of the sequencer. -/
def wideBatchBlob : BlobTransaction testSpec where
  sender := (1 : Nat)
  hash := 60
  totalLen := 1000
  asBatch := some [{ FullyBakedTx.idle (7 : Nat) with len := 990 }]
  asProof := none
  asTx := none
  asPreferredBatch := none
  asPreferredProof := none
  batch_length := by simp [u32Max]
  batch_len_le := by simp
  proof_len_le := by simp

/-- The sequencer pays 2000 for decoding the batch; another 20 stay in the bank account. -/
theorem wide_batch_loses_escrow :
    ∃ (start : RollupState testSpec) (synced : ChainState testSpec) (out : SelectorOutput testSpec),
      genesis (soloGenesis (7 : Nat) (1 : Nat) 10000 5000 false) = .ok start ∧
      start.chain.synchronizeChain = .ok synced ∧
      getBlobsForThisSlot synced start.accounts start.storage ⟨[wideBatchBlob], []⟩ = .ok out ∧
      deserializationCost wideBatchBlob (synced.getNewGasPrice 1) = some 2000 ∧
      out.discarded = [⟨60, .outOfCapacity⟩] ∧
      start.accounts.stakeOf (1 : Nat) = 5000 ∧ out.accounts.stakeOf (1 : Nat) = 2980 ∧
      out.accounts.gasBalance (.user (7 : Nat)) = start.accounts.gasBalance (.user (7 : Nat)) ∧
      start.accounts.gasBalance bankAccount = 0 ∧ out.accounts.gasBalance bankAccount = 20 :=
  ⟨_, _, _, rfl, rfl, rfl, rfl, rfl, rfl, rfl, rfl, rfl, rfl⟩

/-- With a stake that does not pay for decoding the batch, it is discarded free of charge. -/
theorem wide_batch_of_small_stake_refunded :
    ∃ (start : RollupState testSpec) (sel' : Selection testSpec),
      genesis (soloGenesis (7 : Nat) (1 : Nat) 1000 100 false) = .ok start ∧
      selectNext ⟨fun _ => 1, 1, false⟩ (⟨start.accounts, .empty, []⟩, 0)
        (.batch wideBatchBlob, 0) = .ok (sel', 0) ∧
      sel'.discarded = [⟨60, .senderInsufficientStake⟩] ∧
      start.accounts.Refunds sel'.accounts (1 : Nat) 2000 := by
  simp only [exists_and_left]
  refine exists_and_of returned fun hGenesis => ⟨_, rfl, rfl, ?_⟩
  refine ((discarded_blob_refunded_iff (genesis_atGenesis hGenesis) .refl (.start []) ?_).1 ⟨fun _ => 1, 1, false⟩
    (.batch wideBatchBlob) 0 0 0 rfl rfl).mpr rfl
  exact List.cons_ne_nil _ _

end SovereignSdk
