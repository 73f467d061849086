import SovereignSdk.BlobStorage.Standing
import SovereignSdk.StfBlueprint.ProofSettlement
import SovereignSdk.StfBlueprint.Withdrawals

/-! The return of the funds set aside for a blob: it succeeds as long as the sender of
the blob is registered and the bank account holds the funds. -/
namespace SovereignSdk
open Bounded Outcome Accounts List TxState Panic RollupState BatchState

variable {S : Spec}

/-- Any panic but the one of a bond that cannot be added to a stake. -/
def Panic.notAddToStake (p : Panic) : Bool := p != .addToStake

theorem Panic.notAddToStake_of_execution {p : Panic} (h : p.ofExecution = true) : p.notAddToStake = true := by
  cases p <;> first | rfl | cases h

theorem Accounts.Solvent.return_raises {s : Accounts S} (hs : s.Solvent) {a : S.DaAddress}
    (hKnown : s.statusOf a ≠ none) {bond reward penalty : Nat}
    (hFunds : bond + reward ≤ s.gasBalance bankAccount + penalty) :
    Raises notAddToStake (s.returnEscrowedFundsToSequencer bond reward penalty a) := by
  refine .bind_ok (.unwrap rfl) fun net hNet => .bind_ok (.unwrap rfl) fun total hTotal => ?_
  obtain ⟨_, rfl⟩ := checkedSub_eq_some.mp (unwrap_eq_ok.mp hNet)
  obtain ⟨-, rfl⟩ := checkedAdd_eq_some.mp (unwrap_eq_ok.mp hTotal)
  obtain ⟨k, hk⟩ := Option.ne_none_iff_exists'.mp fun hNone => hKnown (statusOf_eq_none.mpr hNone)
  obtain ⟨s', hOk, -⟩ := hs.addToStake_ok hk (by simp)
    (show bond - penalty + reward ≤ s.gasBalance bankAccount by omega)
  rw [hOk]
  exact .ok

/-- A sequencer that stays registered for the rest of the block. -/
def Stays (bound : Nat) (a : S.DaAddress) (s : TxState S) : Prop :=
  Waits bound a s ∧ s.accounts.statusOf a ≠ none

variable {chain : ChainState S}

theorem kept_stays {bound} (hReady : chain.visibleSlotNumber < bound)
    (hBound : bound ≤ chain.visibleSlotNumber + (S.deferredSlotsCount + 1)) (a : S.DaAddress) :
    Kept chain (Stays bound a) := by
  rintro s s' ⟨hWaits, hKnown⟩ hStep
  refine ⟨kept_waits hReady hBound a s s' hWaits hStep, ?_⟩
  cases hStep.statusStep a with
  | same hStat _ => exact hStat ▸ hKnown
  | activated hActive _ => exact hActive.ne_none
  | initiated hStat _ => simp [hStat]
  | withdrawn hStat _ => exact absurd (hWaits.2 _ _ hStat) (by omega)

theorem kept_preferred (chain : ChainState S) (preferred : Option S.DaAddress) :
    Kept chain fun s => s.accounts.registry.preferredSequencer = preferred := by
  intro s s' hs hStep
  cases hStep with
  | transfer _ hReg _ _ | unstaked hReg _ _ | setup hReg _ => rwa [hReg]
  | stake _ _ hReg _ | bank hReg _ _ _ =>
    rw [hReg]
    exact hs
  | registry hEffect _ =>
    cases hEffect with
    | register _ hReg _ | deposit _ hReg _ | initiateWithdrawal _ _ _ hReg | withdraw _ _ _ hReg _ =>
      rw [hReg]
      exact hs

def Serves (bound : Nat) (a : S.DaAddress) (s : TxState S) : Prop := Stays bound a s ∧ s.accounts.Solvent

theorem Kept.serves {bound a} (h : Kept chain (Stays bound a)) : Kept chain (Serves bound a) :=
  fun s s' hs hStep => ⟨h s s' hs.1 hStep, kept_solvent chain s s' hs.2 hStep⟩

theorem BatchState.foldlM_bank {block : BlockContext S} {sequencer : S.DaAddress} {address : S.Address}
    {preferred : Bool} {b b' : BatchState S} {txs : List (FullyBakedTx S)}
    (h : txs.foldlM (applyTx block sequencer address preferred) b = .ok b') :
    b'.state.accounts.gasBalance bankAccount + b'.penalty + b.reward =
      b.state.accounts.gasBalance bankAccount + b.penalty + b'.reward := by
  refine foldlM_invariant (fun b' : BatchState S => b'.state.accounts.gasBalance bankAccount + b'.penalty +
    b.reward = b.state.accounts.gasBalance bankAccount + b.penalty + b'.reward)
    (fun mid tx next hMid hStep => ?_) rfl h
  have hNext := (applyTx_ok hStep).2.2
  omega

section
variable {block : BlockContext S} {bound : Nat} {a : S.DaAddress} {state state' : TxState S}

variable {slotGas : SlotMeter S} {address : S.Address} {bond : Nat} {raw : ProofBehaviour S} {b : SelectedBlob S}

variable {txs : List (FullyBakedTx S)} {slotGas' : SlotMeter S} {preExec : BasicGasMeter S.dimensions}
variable {gas : S.Gas}

theorem applyBatch_returns (hKept : Kept block.chain (Serves bound a)) (hs : Serves bound a state)
    (hFunds : bond ≤ state.accounts.gasBalance bankAccount) :
    Raises notAddToStake (applyBatch block state slotGas txs a address bond) := by
  refine .bind_ok (.foldlM fun b tx => applyTx_ofExecution.mono ?_) fun b hRun =>
    .bind ?_ fun _ => .ok
  · intro p hp
    cases p <;> first | rfl | cases hp
  · have hb : Serves bound a b.state :=
      foldlM_invariant (fun b : BatchState S => Serves bound a b.state) (fun _ _ _ hb => hKept.batchTx hb) hs
        hRun
    have hBank := foldlM_bank hRun
    refine hb.2.return_raises hb.1.2 ?_
    dsimp only at hBank
    omega

theorem applyBatch_bank (h : applyBatch block state slotGas txs a address bond = .ok (state', slotGas')) :
    state'.accounts.gasBalance bankAccount + bond = state.accounts.gasBalance bankAccount := by
  simp only [applyBatch, bind_eq_ok, pure_eq_ok] at h
  obtain ⟨b, hRun, accounts, hReturn, rfl, -⟩ := h
  have hBank := foldlM_bank hRun
  obtain ⟨_, _⟩ := returnEscrowedFundsToSequencer_bank hReturn
  simp only [withAccounts]
  dsimp only at hBank
  omega

theorem chargeSequencer_returns (hs : Serves bound a state) {reserved : Nat}
    (hFunds : reserved ≤ state.accounts.gasBalance bankAccount) :
    Raises notAddToStake (chargeSequencerAndRewardProver state a preExec reserved) := by
  refine .bind (hs.2.return_raises hs.1.2 ?_) fun _ => .ok
  omega

theorem settleProof_returns (hKept : Kept block.chain (Serves bound a)) (hs : Serves bound a state)
    {slotGas : S.Gas} (hFunds : bond + raw.details.maxFee ≤ state.accounts.gasBalance bankAccount) :
    Raises notAddToStake (settleProof block state slotGas raw a address bond preExec) := by
  unfold settleProof
  split
  · exact chargeSequencer_returns hs (by omega)
  · rename_i meter hCharge
    have hFunded := (raw.details.gasMeter_funded block.gasPrice slotGas).chargeGas hCharge
    refine .bind_ok (.bind (WorkingSet.run_raises.mono
      fun _ => notAddToStake_of_execution) fun _ => .ok) fun verified hVerify =>
        .bind_ok (payFromBank_raises rfl) fun refunded hRefund =>
          .bind_ok (payFromBank_raises rfl) fun rewarded hReward => .bind ?_ fun _ => .ok
    obtain ⟨mid, consumption⟩ := verified
    obtain ⟨hBank, _⟩ := verifyProof_ok hFunded hVerify
    have hMid := hKept.verifyProof hs hVerify
    have hRefunded := hKept.payFromBank hMid hRefund
    have hRewarded := hKept.payFromBank (s := mid.withAccounts refunded) hRefunded hReward
    have h₁ := refundRemainingGas_bank hRefund
    have h₂ := rewardProver_bank hReward
    refine Solvent.return_raises hRewarded.2 hRewarded.1.2 ?_
    simp only [withAccounts] at hBank h₁ h₂ ⊢
    omega

theorem processProof_returns (hKept : Kept block.chain (Serves bound a)) (hs : Serves bound a state)
    {slotGas : S.Gas} (hFunds : bond ≤ state.accounts.gasBalance bankAccount) :
    Raises notAddToStake (processProof block state slotGas raw a address bond) := by
  unfold processProof
  split
  · exact .ok
  · rename_i hAuth
    refine .bind (preExecMeter_raises.mono fun _ => notAddToStake_of_execution) fun preExec => ?_
    dsimp only
    split
    · refine .bind_ok (.unwrap rfl) fun value hValue => chargeSequencer_returns hs ?_
      obtain ⟨-, rfl⟩ := Gas.checkedValue_eq_some.mp (unwrap_eq_ok.mp hValue)
      exact (sequencerAuthorized_iff.mp (not_not.mp hAuth)).2.1.trans hFunds
    · split
      · exact chargeSequencer_returns hs hFunds
      · rename_i hRes
        have hBank := tryReserveGas_bank hRes
        refine settleProof_returns hKept (hKept.tryReserveGas hs hRes) ?_
        simp only [withAccounts]
        omega

theorem applyEmergencyRegistration_bank (hs : state.accounts.Solvent) {slotGas tx sequencer}
    (h : applyEmergencyRegistration block state slotGas tx sequencer = .ok (state', gas))
    : state'.accounts.gasBalance bankAccount = state.accounts.gasBalance bankAccount := by
  unfold applyEmergencyRegistration at h
  split at h
  · cases h
    rfl
  · dsimp only at h
    split at h
    · cases h
      rfl
    · rw [bind_eq_ok] at h
      obtain ⟨processed, hProcess, h⟩ := h
      have hSolv := (kept_solvent block.chain).processTx hs hProcess
      obtain ⟨-, hProc⟩ := processTx_ok hProcess
      split at hProc
      · rw [hProc.1] at h
        cases h
        exact hProc.2
      · obtain ⟨r, hResult, -, _⟩ := hProc
        simp only [hResult, bind_eq_ok, pure_eq_ok] at h
        obtain ⟨accounts, hReward, rfl, -⟩ := h
        simp only [withAccounts]
        unfold rewardSequencerOrRefund at hReward
        split at hReward
        · rename_i mid e hStake
          rw [(addToStake_error hStake).2 hSolv] at hReward
          have hPaid := (payFromBank_ok hReward).1.paid (by simp)
          omega
        · rename_i hStake
          cases hReward
          obtain ⟨k, -, hMoved, -⟩ := Accounts.addToStake_ok hStake
          have hPaid := hMoved.paid (by simp)
          omega

def SelectedBlob.Escrowed (b : SelectedBlob S) : Prop := b.blobData.isEmergencyRegistration = false

theorem applyBlob_returns (hKept : Kept block.chain (Stays bound b.sender)) (hs : state.accounts.Solvent)
    (hStays : b.Escrowed → Stays bound b.sender state) (hFunds : b.bond ≤ state.accounts.gasBalance bankAccount) :
    Raises notAddToStake (applyBlob block (state, slotGas) b) := by
  have hMeter : ∀ gas, Raises notAddToStake (chargeSlotGas slotGas gas b.sender) := fun gas =>
    chargeSlotGas_slotOutOfGas.mono fun p hp => by rw [eq_of_beq hp]; rfl
  unfold applyBlob
  dsimp only
  split
  · rename_i hData
    refine .bind_ok (.unwrap rfl) fun bond hBond => ?_
    rw [SelectedBlob.bond, unwrap_eq_ok.mp hBond] at hFunds
    have hServes : Serves bound b.sender state := ⟨hStays (by rw [SelectedBlob.Escrowed, hData]; rfl), hs⟩
    exact applyBatch_returns hKept.serves hServes hFunds
  · refine .bind (.ensure rfl) fun _ => .bind ?_ fun _ => .bind (hMeter _) fun _ => .ok
    exact applyEmergencyRegistration_raises.mono fun _ => notAddToStake_of_execution
  · rename_i hData
    refine .bind_ok (.unwrap rfl) fun bond hBond => ?_
    rw [SelectedBlob.bond, unwrap_eq_ok.mp hBond] at hFunds
    have hServes : Serves bound b.sender state := ⟨hStays (by rw [SelectedBlob.Escrowed, hData]; rfl), hs⟩
    exact .bind (processProof_returns hKept.serves hServes hFunds) fun _ =>
      .bind (hMeter _) fun _ => .ok

theorem applyBlob_bank (hs : state.accounts.Solvent) (h : applyBlob block (state, slotGas) b = .ok (state', slotGas')) :
    state.accounts.gasBalance bankAccount ≤ state'.accounts.gasBalance bankAccount + b.bond := by
  unfold applyBlob at h
  dsimp only at h
  split at h
  · simp only [bind_eq_ok, unwrap_eq_ok] at h
    obtain ⟨bond, hBond, hApply⟩ := h
    rw [SelectedBlob.bond, hBond]
    exact (applyBatch_bank hApply).ge
  · simp only [bind_eq_ok, pure_eq_ok] at h
    obtain ⟨-, -, ⟨next, gas⟩, hApply, meter, -, rfl, -⟩ := h
    rw [applyEmergencyRegistration_bank hs hApply]
    exact Nat.le_add_right _ _
  · simp only [bind_eq_ok, unwrap_eq_ok, pure_eq_ok] at h
    obtain ⟨bond, hBond, ⟨next, gas⟩, hApply, meter, -, rfl, -⟩ := h
    rw [SelectedBlob.bond, hBond]
    show _ ≤ next.accounts.gasBalance bankAccount + bond
    have hBal := processProof_balance hApply
    generalize proofPath _ _ _ _ _ _ = path at hBal
    cases path with
    | refused | unreadable checks | notReserved checks | checksNotPaid checks | verified =>
      simp only [ProofPath.Balance] at hBal
      omega

/-- In the middle of a block: the senders of the blobs that remain stay registered, and
the bank account holds their bonds. -/
structure Pledged (bound : Nat) (rest : List (SelectedBlob S)) (s : TxState S) : Prop where
  solvent : s.accounts.Solvent
  stays : ∀ b ∈ rest, b.Escrowed → Stays bound b.sender s
  funds : (rest.map SelectedBlob.bond).sum ≤ s.accounts.gasBalance bankAccount

theorem applyBlob_pledged (hKept : ∀ a, Kept block.chain (Stays bound a)) {rest progress}
    (hs : Pledged bound (b :: rest) progress.1) :
    Yields (fun progress => Pledged bound rest progress.1) (fun p => p.notAddToStake = true)
      (applyBlob block progress b) := by
  have hFunds := hs.funds
  rw [map_cons, sum_cons] at hFunds
  have hReturns : Raises notAddToStake (applyBlob block (progress.1, progress.2) b) :=
    applyBlob_returns (hKept b.sender) hs.solvent (hs.stays b (mem_cons_self ..)) ((Nat.le_add_right _ _).trans hFunds)
  refine .intro (fun next hApply => ⟨?_, ?_, ?_⟩) fun e he => hReturns.of_error he
  · exact (kept_solvent block.chain).applyBlob hs.solvent hApply
  · intro c hc hEscr
    exact (hKept c.sender).applyBlob (hs.stays c (mem_cons_of_mem b hc) hEscr) hApply
  · have hBank := applyBlob_bank hs.solvent hApply
    omega

end

/-- A slot without a malformed blob of a sender whose bond is still needed. -/
def RollupState.Tidy (st : RollupState S) (blobs : RelevantBlobs S) : Prop :=
  SovereignSdk.Tidy st.accounts st.storage (currentItems st.accounts blobs)

/-- Between slots: besides the waiting periods, the senders of the deferred blobs. -/
structure RollupState.Secured (st : RollupState S) : Prop where
  guarded : st.Guarded
  solvent : st.accounts.Solvent
  registered : st.storage.Registered st.accounts

namespace SlotOpening
variable {st : RollupState S} {blobs : RelevantBlobs S} (o : SlotOpening st blobs)

theorem kept_stays (a : S.DaAddress) : Kept o.advanced (Stays (o.advanced.visibleSlotNumber + 1) a) :=
  SovereignSdk.kept_stays (Nat.lt_succ_self _) (by omega) a

theorem selected_stays (hc : st.Secured) (hMax : 0 < S.maxVisibleHeightIncreasePerSlot)
    (hPat : st.Patient blobs) (hTidy : st.Tidy blobs) {b}
    (hb : b ∈ o.out.selectedBlobs) (hEscr : b.Escrowed) :
    Stays (o.advanced.visibleSlotNumber + 1) b.sender o.state := by
  have hStanding := (getBlobsForThisSlot_ok o.selecting).standing hTidy hc.registered
  exact ⟨o.selected_waits hc.guarded hMax hPat hb hEscr, hStanding.selected b hb hEscr⟩

end SlotOpening

variable {st : RollupState S}

theorem RollupState.AtGenesis.secured (h : st.AtGenesis) : st.Secured := by
  refine ⟨h.guarded, h.solvent, ?_⟩
  rintro v ⟨t, l, hEntry, -⟩
  simp [h.storage, BlobStorage.empty] at hEntry

theorem SlotTurn.secured {blobs} (turn : SlotTurn st blobs)
    (hc : st.Secured) (hMax : 0 < S.maxVisibleHeightIncreasePerSlot) (hTidy : st.Tidy blobs) : turn.next.Secured := by
  have hCase := getBlobsForThisSlot_ok turn.selecting
  have hStanding := hCase.standing hTidy hc.registered
  refine ⟨turn.guarded hc.guarded hMax, ?_, ?_⟩
  · exact turn.keeps (kept_solvent _) (hCase.backed hc.solvent).1
  · rintro v ⟨t, l, hEntry, hv⟩ hEscr
    obtain ⟨hKnown, hPref⟩ := hStanding.deferred v ⟨t, l, hEntry, hv⟩ hEscr
    obtain ⟨-, hAbove, hLe, -⟩ := turn.opening.left_entry hc.guarded hMax hEntry
    have hLag := (turn.opening.slots hc.guarded.lagging hMax).2.2.2.2.2
    have hStart : Stays (t + 2) v.sender turn.opening.state :=
      ⟨turn.opening.deferred_waits hc.guarded hMax hEntry hv hEscr, hKnown⟩
    have hAbove' : turn.advanced.visibleSlotNumber < t := hAbove
    have hLag' : turn.synced.trueSlotNumber - turn.advanced.visibleSlotNumber ≤ S.deferredSlotsCount - 1 := hLag
    have hLe' : t ≤ turn.synced.trueSlotNumber := hLe
    refine ⟨(turn.keeps (kept_stays (by omega) (by omega) v.sender) hStart).2, ?_⟩
    have hSame := turn.keeps (kept_preferred _ _) rfl
    exact hSame ▸ hPref

theorem Reaches.secured {admits start}
    (run : Reaches slot admits start st) (hAdmits : ∀ st blobs, admits st blobs → st.Tidy blobs)
    (hStart : start.AtGenesis) (hMax : 0 < S.maxVisibleHeightIncreasePerSlot) : st.Secured := by
  refine run.invariant Secured hStart.secured fun s s' blobs hs hHere hStep => ?_
  obtain ⟨turn, rfl⟩ := slot_ok hStep
  exact turn.secured hs hMax (hAdmits s blobs hHere)

theorem applySlot_returns (hc : st.Secured)
    (hMax : 0 < S.maxVisibleHeightIncreasePerSlot) {blobs} (hTidy : st.Tidy blobs)
    (hPat : st.Patient blobs) : Raises notAddToStake (applySlot st blobs) := by
  refine .bind_ok (.bind (.unwrap rfl) fun _ => .ok) fun synced hSync => ?_
  obtain ⟨hSynced, -⟩ := hc.guarded.lagging.synchronize hSync
  refine .bind_ok ((getBlobsForThisSlot_raises hSynced.visible_lt).mono ?_) fun out hSel =>
    .bind_ok ((advanceHeights_raises synced out).mono ?_) fun advanced hAdv =>
      .bind ?_ fun _ => .ok
  · intro p hp
    cases p <;> first | rfl | cases hp
  · intro p hp
    cases p <;> first | rfl | cases hp
  · let o : SlotOpening st blobs := ⟨synced, out, advanced, hSync, hSel, hAdv⟩
    refine .bind (advanced.baseFeePerGas_raises.mono fun p hp => by rw [eq_of_beq hp]; rfl) fun price =>
      .bind (.unwrap rfl) fun meter => .bind ?_ fun _ => ?_
    · obtain ⟨hSolv, hFunds⟩ := (getBlobsForThisSlot_ok hSel).backed hc.solvent
      exact (Yields.foldlM_suffix (fun rest progress => Pledged (advanced.visibleSlotNumber + 1) rest progress.1)
        (fun _ _ _ hs => applyBlob_pledged o.kept_stays hs) out.selectedBlobs _
        ⟨hSolv, fun b hb => o.selected_stays hc hMax hPat hTidy hb, hFunds⟩).mono (fun _ _ => trivial) fun _ he => he
    · dsimp only
      split
      · exact .bind (.unwrap rfl) fun _ => .ok
      · exact .ok

/-- In every run whose slots are all tidy, in the next slot that is tidy and patient: at
every point of its execution the senders of all batches and proofs handed to execution
are registered, and no bond fails to be added to the stake it came from. -/
theorem escrowed_senders_stay_registered (hMax : 0 < S.maxVisibleHeightIncreasePerSlot)
    {start st : RollupState S} (hStart : start.AtGenesis)
    (run : Reaches RollupState.slot RollupState.Tidy start st) {blobs : RelevantBlobs S}
    (hTidy : st.Tidy blobs) (hPatient : st.Patient blobs) :
    (∀ n m out state, st.partway blobs n m = .ok (out, state) →
      ∀ b ∈ out.selectedBlobs, b.Escrowed → state.accounts.known b.sender ≠ none) ∧
      applySlot st blobs ≠ .error .addToStake := by
  have hc := Reaches.secured run (fun _ _ h => h) hStart hMax
  refine ⟨fun n m out state hPartway b hb hEscrowed => ?_, ?_⟩
  · obtain ⟨o, rfl, hKeeps⟩ := partway_ok hPartway
    have hStays := o.selected_stays hc hMax hPatient hTidy hb hEscrowed
    exact fun hNone => (hKeeps _ (o.kept_stays b.sender) hStays).2 (statusOf_eq_none.mpr hNone)
  · exact (applySlot_returns hc hMax hTidy hPatient).ne rfl

/-- A sequencer sends a batch and a blob that cannot be read. The batch is selected, then
the sequencer is slashed, and the bond of the batch cannot be returned. -/
theorem slashed_sender_of_selected_batch :
    ∃ (start : RollupState testSpec) (out : SelectorOutput testSpec) (state : TxState testSpec)
      (b : SelectedBlob testSpec),
      genesis (soloGenesis (7 : Nat) (1 : Nat) 1000 100 false) = .ok start ∧
      start.partway ⟨[emptyBatchBlob (1 : Nat) 60, brokenBlob (1 : Nat) 61], []⟩ 0 0 = .ok (out, state) ∧
      out.selectedBlobs = [b] ∧ b.Escrowed ∧ state.accounts.known b.sender = none ∧
      applySlot start ⟨[emptyBatchBlob (1 : Nat) 60, brokenBlob (1 : Nat) 61], []⟩ = .error .addToStake :=
  ⟨_, _, _, _, rfl, rfl, rfl, rfl, rfl, rfl⟩

theorem RollupState.Tidy.of_inactive {blobs : RelevantBlobs S}
    (h : ∀ item ∈ currentItems st.accounts blobs, item.malformed = true → ¬st.accounts.IsActive item.sender) :
    st.Tidy blobs := by
  refine ⟨fun item hItem hMalformed hActive => absurd hActive (h item hItem hMalformed), ?_⟩
  refine pairwise_of_forall_mem_list fun _ _ later hLater _ hMalformed hActive => ?_
  exact absurd hActive (h later hLater hMalformed)

theorem RollupState.Tidy.of_wellFormed {blobs : RelevantBlobs S}
    (h : (currentItems st.accounts blobs).all (!·.malformed) = true) : st.Tidy blobs :=
  .of_inactive fun item hItem hMalformed => by simpa [hMalformed] using all_eq_true.mp h item hItem

/-- Sequencer 2, registered in the first slot, starts to withdraw while a batch of it is deferred. -/
def deferringSlot : RelevantBlobs threeSlotSpec :=
  registrySlot 1 (.initiateWithdrawal (2 : Nat)) (emptyBatchBlob (2 : Nat) 60)

/-- Next to a batch of the preferred sequencer there is a broken blob of an unknown sender. -/
def brokenSlot : RelevantBlobs threeSlotSpec :=
  registrySlot 2 (.initiateWithdrawal (2 : Nat)) (brokenBlob (3 : Nat) 61)

/-- The deferred batch is selected before the waiting period ends, and its sender is still registered. -/
theorem registered_sender_of_deferred_batch :
    ∃ (start st : RollupState threeSlotSpec) (out : SelectorOutput threeSlotSpec) (state : TxState threeSlotSpec)
      (first b : SelectedBlob threeSlotSpec), genesis twoAccountsGenesis = .ok start ∧
      Reaches RollupState.slot RollupState.Tidy start st ∧ st.partway brokenSlot 1 0 = .ok (out, state) ∧
      out.selectedBlobs = [first, b] ∧ b.sender = (2 : Nat) ∧ state.accounts.known b.sender ≠ none := by
  obtain ⟨start, hGenesis, one, hOne, two, hTwo, st, hThree, out, state, first, b, hPartway, hSelected, hSender, hEscrowed,
      hVisible, hTrue, hIncrease, v, hDeferred, hDeferredSender, hStatus, hUnknown, hClean, hClean', hClean'', hItems⟩ :
      ∃ start, genesis twoAccountsGenesis = .ok start ∧
        ∃ one, start.slot ⟨[registryBatch 0 0 (.register (2 : Nat) 1000)], []⟩ = .ok one ∧
        ∃ two, one.slot ⟨[], []⟩ = .ok two ∧ ∃ st, two.slot deferringSlot = .ok st ∧
        ∃ out state first b, st.partway brokenSlot 1 0 = .ok (out, state) ∧ out.selectedBlobs = [first, b] ∧
          b.sender = (2 : Nat) ∧ b.Escrowed ∧ st.chain.visibleSlotNumber = 2 ∧ st.chain.trueSlotNumber = 3 ∧
          st.advance brokenSlot = .ok 1 ∧ ∃ v, st.storage.deferredBlobs 3 = some [v] ∧ v.sender = (2 : Nat) ∧
            st.accounts.statusOf (2 : Nat) = some ((8 : Nat), .pendingWithdrawal 6) ∧
            st.accounts.statusOf (3 : Nat) = none ∧
            (currentItems start.accounts ⟨[registryBatch 0 0 (.register (2 : Nat) 1000)], []⟩).all (!·.malformed) ∧
            (currentItems one.accounts ⟨[], []⟩).all (!·.malformed) ∧
            (currentItems two.accounts deferringSlot).all (!·.malformed) ∧
            currentItems st.accounts brokenSlot = [.batch (brokenBlob (3 : Nat) 61)] :=
    ⟨_, rfl, _, rfl, _, rfl, _, rfl, _, _, _, _, rfl, rfl, rfl, rfl, rfl, rfl, rfl, _, rfl, rfl, rfl, rfl, rfl, rfl, rfl,
      rfl⟩
  have hStart := genesis_atGenesis hGenesis
  have hRun : Reaches RollupState.slot RollupState.Tidy start st :=
    ((Reaches.refl.tail (.of_wellFormed hClean) hOne).tail (.of_wellFormed hClean') hTwo).tail
      (.of_wellFormed hClean'') hThree
  have hTidy : st.Tidy brokenSlot := by
    refine .of_inactive fun item hItem _ => ?_
    rw [hItems] at hItem
    rintro ⟨address, hActive⟩
    rw [mem_singleton.mp hItem] at hActive
    cases hUnknown.symm.trans hActive
  have hPatient : st.Patient brokenSlot := by
    intro increase hInc t l hEntry _ held hHeld _ owner readyAt hWaiting
    cases hIncrease.symm.trans hInc
    -- only slot 3 is not yet visible, with the batch of sequencer 2
    obtain ⟨-, _, _⟩ := (Reaches.secured hRun (fun _ _ h => h) hStart (by decide)).guarded.deferred t l hEntry
    obtain rfl : t = 3 := by omega
    cases hDeferred.symm.trans hEntry
    rw [mem_singleton.mp hHeld, hDeferredSender, hStatus] at hWaiting
    cases hWaiting
    omega
  have hKnown := (escrowed_senders_stay_registered (by decide) hStart hRun hTidy hPatient).1 1 0 _ _ hPartway b
    (by simp [hSelected]) hEscrowed
  exact ⟨start, st, out, state, first, b, hGenesis, hRun, hPartway, hSelected, hSender, hKnown⟩

end SovereignSdk
