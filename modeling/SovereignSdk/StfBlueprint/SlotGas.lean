import SovereignSdk.StfBlueprint.Panics
import SovereignSdk.StfBlueprint.PreExecution

/-! The gas that blobs use, compared to what the slot has left. -/
namespace SovereignSdk
open Bounded Outcome BasicGasMeter SlotGasMeter Panic GasArray Nat

variable {S : Spec}

/-- Gas that a transaction or a proof may use: none if the slot is exhausted in
every dimension, and otherwise what its checks may cost or what the slot has left. -/
def UsesWithin (costs slotGas gas : S.Gas) : Prop :=
  gas = zeroed ∨ (∃ i, costs i < slotGas i) ∧ ((∀ i, gas i ≤ costs i) ∨ ∀ i, gas i ≤ slotGas i)

/-- The budget of the sender is exhausted in every dimension, or it covers the
checks in every dimension and the slot has all of it left. -/
def MeterSafe (m : SlotMeter S) (sender : S.DaAddress) : Prop :=
  (∀ i, m.remainingSlotGas sender i ≤ S.maxTxCheckCosts i) ∨ ∀ i, S.maxTxCheckCosts i ≤ m.remainingSlotGas sender i ∧
      m.remainingSlotGas sender i ≤ m.remainingTotalSlotGas i

/-- The same for an emergency registration, whose gas has a fixed limit. -/
def EmergencySafe (m : SlotMeter S) (sender : S.DaAddress) : Prop :=
  (∀ i, m.remainingSlotGas sender i ≤ S.maxUnregisteredTxGas i) ∨
    ∀ i, S.maxUnregisteredTxGas i ≤ m.remainingSlotGas sender i ∧ S.maxUnregisteredTxGas i ≤ m.remainingTotalSlotGas i

variable {n bond : Nat} {m : SlotMeter S} {sender sequencer : S.DaAddress} {gas slotGas : S.Gas}
variable {block : BlockContext S} {address : S.Address} {state state' : TxState S}
variable {preExec : BasicGasMeter S.dimensions} {raw : ProofBehaviour S}

variable {A : Type} {tx : FullyBakedTx S} {p : Panic}

theorem SlotGasMeter.chargeGas_of_le [DecidableEq A] {m : SlotGasMeter A n} {gas : GasUnit n} {sender : A}
    (hBudget : ∀ i, gas i ≤ m.remainingSlotGas sender i) (hTotal : ∀ i, gas i ≤ m.remainingTotalSlotGas i) :
    ∃ m', m.chargeGas gas sender = .ok m' := by
  refine chargeGas_isOk_iff.mpr ⟨fun hPref i => ?_, hTotal⟩
  have := hBudget i
  rwa [remainingSlotGas, if_pos hPref] at this

theorem SlotGasMeter.le_of_chargeGas [DecidableEq A] {m : SlotGasMeter A n} {gas : GasUnit n} {sender : A}
    (h : ∃ m', m.chargeGas gas sender = .ok m') (i : Fin n) :
    gas i ≤ m.remainingSlotGas sender i ∧ gas i ≤ m.remainingTotalSlotGas i := by
  obtain ⟨hPref, hTotal⟩ := chargeGas_isOk_iff.mp h
  refine ⟨?_, hTotal i⟩
  unfold remainingSlotGas
  split
  · exact hPref ‹_› i
  · exact hTotal i

theorem MeterSafe.charge (hSafe : MeterSafe m sender)
    (hUse : UsesWithin S.maxTxCheckCosts (m.remainingSlotGas sender) gas) : ∃ m', m.chargeGas gas sender = .ok m' := by
  rcases hUse with rfl | ⟨⟨j, hj⟩, hUse⟩
  · exact chargeGas_of_le (fun _ => zero_le _) fun _ => zero_le _
  · rcases hSafe with hExhausted | hSafe
    · exact absurd (hExhausted j) (not_le.mpr hj)
    · have hLe : ∀ i, gas i ≤ m.remainingSlotGas sender i := fun i =>
        hUse.elim (fun h => (h i).trans (hSafe i).1) fun h => h i
      exact chargeGas_of_le hLe fun i => (hLe i).trans (hSafe i).2

theorem BasicGasMeter.gasUsed_le_of_initial {m : BasicGasMeter n} {gas : GasUnit n} (h : m.initialGas = gas)
    (i : Fin n) : m.gasUsed i ≤ gas i :=
  h ▸ m.gasUsed_le i

theorem authAndProcessTx_uses {tx : TxBehaviour S} {out : AuthAndProcessOutput S}
    (h : authAndProcessTx block slotGas tx sequencer address bond state = .ok out) :
    UsesWithin S.maxTxCheckCosts slotGas out.gasUsed := by
  cases authAndProcessTx_ok h with
  | refused _ hOut => exact .inl (by rw [hOut])
  | rejected hMeter hGas _ _ =>
    obtain ⟨hAuth, hInit, -⟩ := rejectedMeter_some hMeter
    rw [hGas]
    exact .inr ⟨(sequencerAuthorized_iff.mp hAuth).2.2, .inl (gasUsed_le_of_initial hInit)⟩
  | applied hAuth _ _ hGas hLimit _ =>
    rw [hGas]
    exact .inr ⟨(sequencerAuthorized_iff.mp hAuth).2.2, .inr hLimit⟩

theorem chargeSequencerAndRewardProver_gas {reserved}
    (h : chargeSequencerAndRewardProver state sequencer preExec reserved = .ok (state', gas)) :
    gas = preExec.gasUsed := by
  simp only [chargeSequencerAndRewardProver, bind_eq_ok, pure_eq_ok] at h
  obtain ⟨accounts, -, -, rfl⟩ := h
  rfl

theorem verifyProof_gas {chain : ChainState S} {context : Context S} {w : WorkingSet S}
    {consumption : TransactionConsumption S} (h : verifyProof chain context raw w = .ok (state, consumption))
    (i : Fin S.dimensions) : consumption.baseFee i ≤ w.meter.initialGas i := by
  simp only [verifyProof, bind_eq_ok, pure_eq_ok] at h
  obtain ⟨⟨final, finished⟩, hRun, -, rfl⟩ := h
  have hInit : final.meter.initialGas = w.meter.initialGas :=
    WorkingSet.run_invariant (fun v => v.meter.initialGas = w.meter.initialGas)
      (fun _ _ hv hStep => hStep.initialGas.trans hv) rfl hRun
  exact gasUsed_le_of_initial hInit i

theorem settleProof_gas (h : settleProof block state slotGas raw sequencer address bond preExec = .ok (state', gas)) :
    gas = preExec.gasUsed ∨ ∀ i, gas i ≤ slotGas i := by
  unfold settleProof at h
  split at h
  · exact .inl (chargeSequencerAndRewardProver_gas h)
  · rename_i meter hCharge
    simp only [bind_eq_ok, pure_eq_ok] at h
    obtain ⟨⟨verified, consumption⟩, hVerify, _, -, _, -, _, -, -, rfl⟩ := h
    right
    intro i
    refine (verifyProof_gas hVerify i).trans ?_
    rw [(chargeGas_ok hCharge).2.1]
    exact raw.details.gasMeter_initialGas_le _ _ i

theorem tryReserveGas_sameTerms {accounts meter charges details payer reserved}
    (h : tryReserveGas accounts preExec charges details payer = (meter, reserved)) : preExec.SameTerms meter := by
  simp only [tryReserveGas, Prod.mk.injEq] at h
  rw [← h.1]
  exact preExec.sameTerms_chargeEach charges

theorem processProof_uses (h : processProof block state slotGas raw sequencer address bond = .ok (state', gas)) :
    UsesWithin S.maxTxCheckCosts slotGas gas := by
  unfold processProof at h
  split at h
  · cases h
    exact .inl rfl
  · rename_i hAuth
    refine .inr ⟨(sequencerAuthorized_iff.mp (not_not.mp hAuth)).2.2, ?_⟩
    rw [bind_eq_ok] at h
    obtain ⟨preExec, hPre, h⟩ := h
    have hInit := (preExecMeter_ok hPre).1
    have hRead := (runChecks_sameTerms [raw.deserialize] preExec).1.trans hInit
    dsimp only at h
    split at h
    · rw [bind_eq_ok] at h
      obtain ⟨_, -, h⟩ := h
      rw [chargeSequencerAndRewardProver_gas h]
      exact .inl (gasUsed_le_of_initial hRead)
    · split at h
      · rename_i hRes
        rw [chargeSequencerAndRewardProver_gas h]
        exact .inl (gasUsed_le_of_initial ((tryReserveGas_sameTerms hRes).1.trans hRead))
      · rename_i hRes
        rcases settleProof_gas h with rfl | hLimit
        · exact .inl (gasUsed_le_of_initial ((tryReserveGas_sameTerms hRes).1.trans hRead))
        · exact .inr hLimit

theorem applyEmergencyRegistration_uses
    (h : applyEmergencyRegistration block state slotGas tx sequencer = .ok (state', gas)) :
    gas = zeroed ∨
      (∃ i, S.maxUnregisteredTxGas i < slotGas i) ∧ ∀ i, gas i ≤ S.maxUnregisteredTxGas i := by
  unfold applyEmergencyRegistration at h
  split at h
  · cases h
    exact .inl rfl
  · rename_i hOpen
    refine .inr ⟨by simpa using hOpen, fun i => ?_⟩
    have hCharges := (newWithGas S.maxUnregisteredTxGas zeroed).sameTerms_chargeEach
      tx.behaviour.authCharges
    dsimp only at h
    split at h
    · cases h
      exact gasUsed_le_of_initial hCharges.1 i
    · rw [bind_eq_ok] at h
      obtain ⟨processed, hProcess, h⟩ := h
      obtain ⟨hPreExec, hProc⟩ := processTx_ok hProcess
      split at h
      · cases h
        rw [hPreExec]
        exact gasUsed_le_of_initial
          (hCharges.trans (checkTx_sameTerms _ state.accounts tx.behaviour _)).1 i
      · rename_i applied hResult
        simp only [bind_eq_ok, pure_eq_ok] at h
        obtain ⟨_, -, -, rfl⟩ := h
        split at hProc
        · rw [hProc.1] at hResult
          cases hResult
        · obtain ⟨r, hr, hLimit, -⟩ := hProc
          rw [hr] at hResult
          cases hResult
          exact (hLimit i).trans (min_le_right _ _)

theorem EmergencySafe.charge (hSafe : EmergencySafe m sender)
    (hUse : gas = zeroed ∨ (∃ i, S.maxUnregisteredTxGas i < m.remainingSlotGas sender i) ∧
      ∀ i, gas i ≤ S.maxUnregisteredTxGas i) : ∃ m', m.chargeGas gas sender = .ok m' := by
  rcases hUse with rfl | ⟨⟨j, hj⟩, hUse⟩
  · exact chargeGas_of_le (fun _ => zero_le _) fun _ => zero_le _
  · rcases hSafe with hExhausted | hSafe
    · exact absurd (hExhausted j) (not_le.mpr hj)
    · exact chargeGas_of_le (fun i => (hUse i).trans (hSafe i).1)
        fun i => (hUse i).trans (hSafe i).2

/-- The slot gas suffices for a blob: for each transaction of a batch in the state in
which it is reached, for a registration, or for a proof. -/
def BlobSafe (block : BlockContext S) (progress : TxState S × SlotMeter S) (blob : SelectedBlob S) : Prop :=
  match blob.blobData with
  | .batch txs _ address =>
    let preferred := isPreferredSequencer progress.1.accounts blob.sender
    Along (BatchState.applyTx block blob.sender address preferred) (fun b _ => MeterSafe b.slotGas blob.sender)
      ⟨progress.1, progress.2, 0, 0, bondPerTx preferred (blob.reservedGasTokens.getD 0) txs⟩ txs
  | .emergencyRegistration _ _ => EmergencySafe progress.2 blob.sender
  | .proof _ _ _ => MeterSafe progress.2 blob.sender

theorem chargeSlotGas_raises {kind} (h : ∃ m', m.chargeGas gas sender = .ok m') :
    Raises kind (chargeSlotGas m gas sender) := by
  obtain ⟨m', hCharge⟩ := h
  rw [chargeSlotGas, hCharge]
  exact .ok

theorem BatchState.applyTx_raises {preferred : Bool} {b : BatchState S} (hSafe : MeterSafe b.slotGas sequencer) :
    Raises ofExecution (b.applyTx block sequencer address preferred tx) := by
  refine .bind_ok authAndProcessTx_raises fun out hOut => ?_
  exact .bind (chargeSlotGas_raises (hSafe.charge (authAndProcessTx_uses hOut))) fun _ =>
    settle_raises

def Panic.notSlotGas (p : Panic) : Bool := p != .slotOutOfGas

theorem Panic.notSlotGas_of_execution (h : p.ofExecution = true) : p.notSlotGas = true := by
  cases p <;> first | rfl | cases h

theorem Panic.notSlotGas_of_return (h : (p.ofExecution || p.ofReturn) = true) : p.notSlotGas = true := by
  cases p <;> first | rfl | cases h

theorem applyBlob_raises {progress blob}
    (hSafe : BlobSafe block progress blob) : Raises notSlotGas (applyBlob block progress blob) := by
  unfold applyBlob
  unfold BlobSafe at hSafe
  dsimp only
  split
  · rename_i txs id address hData
    rw [hData] at hSafe
    cases hBond : blob.reservedGasTokens with
    | none => exact .error rfl
    | some bond =>
      rw [hBond] at hSafe
      have hRun := Yields.foldlM_along (fun _ => True) (fun _ _ _ hHere => BatchState.applyTx_raises hHere) trivial hSafe
      rw [unwrap_some, ok_bind]
      exact .bind (hRun.mono (fun _ _ => trivial) fun _ => notSlotGas_of_execution) fun b => .bind
        (Accounts.returnEscrowedFundsToSequencer_raises.mono fun _ =>
          notSlotGas_of_return) fun _ => .ok
  · rename_i tx id hData
    rw [hData] at hSafe
    refine .bind (.ensure rfl) fun _ => .bind_ok
      (applyEmergencyRegistration_raises.mono fun _ => notSlotGas_of_execution)
      fun out hOut => ?_
    exact .bind (chargeSlotGas_raises (EmergencySafe.charge hSafe
      (applyEmergencyRegistration_uses hOut))) fun _ => .ok
  · rename_i raw id address hData
    rw [hData] at hSafe
    refine .bind (.unwrap rfl) fun bond => .bind_ok
      (processProof_raises.mono fun _ => notSlotGas_of_return) fun out hOut => ?_
    exact .bind (chargeSlotGas_raises (MeterSafe.charge hSafe (processProof_uses hOut))) fun _ => .ok

end SovereignSdk
