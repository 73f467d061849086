import SovereignSdk.StfBlueprint.SlotGas

/-! The conditions under which no charge to the slot gas meter fails are the weakest
ones: where they do not hold, some transaction, proof or registration fails. At a
gas price of zero any amount of gas can be used. -/
namespace SovereignSdk
open Bounded Outcome BasicGasMeter Accounts WorkingSet SlotGasMeter Gas FullyBakedTx Nat Bank

variable {S : Spec}

@[simp] theorem Gas.worth_free {n} (g : GasUnit n) : Gas.worth g GasArray.zeroed = 0 := by
  simp [worth, GasArray.zeroed]

namespace BasicGasMeter
variable {n : Nat} {m : BasicGasMeter n}

section
variable (hPrice : m.gasPrice = GasArray.zeroed)
include hPrice

theorem chargeGas_free {amount} (hGas : ∀ i, amount i ≤ m.remainingGas i) : ∃ m', m.chargeGas amount = .ok m' := by
  have hValue : ∀ g, checkedValue g m.gasPrice = some 0 := fun g => by
    rw [hPrice, checkedValue_eq_some, worth_free]
    exact ⟨zero_le _, rfl⟩
  have hFunds : ∃ funds, m.computeRemainingFunds amount = .ok funds := by
    unfold computeRemainingFunds
    cases m.remainingFunds with
    | none => exact ⟨_, rfl⟩
    | some funds => simp [hValue, checkedSub]
  obtain ⟨funds, hFunds⟩ := hFunds
  unfold chargeGas
  rw [hFunds]
  dsimp only
  split
  · rename_i hNone
    obtain ⟨i, hi⟩ := GasArray.checkedSub_eq_none.mp hNone
    exact absurd (hGas i) (not_le.mpr hi)
  · split
    · rename_i hNone
      rw [hValue] at hNone
      cases hNone
    · exact ⟨_, rfl⟩

theorem spend_free (target : GasUnit n) (hFrom : ∀ i, m.gasUsed i ≤ target i) (hTo : ∀ i, target i ≤ m.initialGas i) :
    ∃ m', m.chargeGas (fun i => target i - m.gasUsed i) = .ok m' ∧ m'.gasUsed = target ∧
      m'.gasPrice = GasArray.zeroed ∧ m'.initialGas = m.initialGas := by
  have hRemain : ∀ i, target i - m.gasUsed i ≤ m.remainingGas i := fun i => by
    have h₁ := hFrom i
    have h₂ := hTo i
    simp only [gasUsed] at h₁ ⊢
    omega
  obtain ⟨m', hCharge⟩ := chargeGas_free hPrice hRemain
  obtain ⟨-, hInit, hPrice', -⟩ := chargeGas_ok hCharge
  refine ⟨m', hCharge, ?_, hPrice'.trans hPrice, hInit⟩
  rw [gasUsed_chargeGas hCharge]
  funext i
  exact Nat.add_sub_cancel' (hFrom i)

/-- The same from a meter from which nothing was used. -/
theorem spend_fresh {target : GasUnit n} (hFresh : ∀ i, m.gasUsed i = 0) (hTo : ∀ i, target i ≤ m.initialGas i) :
    ∃ m', m.chargeGas target = .ok m' ∧ m'.gasUsed = target ∧
      m'.gasPrice = GasArray.zeroed ∧ m'.initialGas = m.initialGas := by
  have h := spend_free hPrice target (fun i => hFresh i ▸ zero_le _) hTo
  simpa only [hFresh, Nat.sub_zero] using h

theorem gasValue_free : m.gasValue = 0 := by
  rw [gasValue, hPrice, worth_free]

end

end BasicGasMeter

def freeBlock (address : S.Address) : BlockContext S := ⟨.genesis .zk none address, GasArray.zeroed⟩

variable (sender : S.DaAddress)

def openState (address : S.Address) : TxState S where
  accounts :=
    { bank := empty
      registry :=
        { knownSequencers := Function.update (fun _ => none) sender (some ⟨address, 0, .active⟩)
          preferredSequencer := none
          minimumBond := none } }
  setupModeTerminationHeight := none
  withdrawn := []

theorem Accounts.payFromBank_zero (s : Accounts S) (panic : Panic) {receiver}
    (hne : bankAccount ≠ receiver) : s.payFromBank panic receiver 0 = .ok s := by
  simp only [payFromBank, transferGas, doTransfer, if_neg hne]
  rfl

theorem preExecMeter_free (S : Spec) :
    ∃ m, preExecMeter S GasArray.zeroed = .ok m ∧ m.gasUsed = S.processTxPreExecChecksGas ∧
      m.gasPrice = GasArray.zeroed ∧ m.initialGas = S.maxTxCheckCosts := by
  obtain ⟨m, hCharge, h⟩ := (newWithGas S.maxTxCheckCosts GasArray.zeroed).spend_fresh rfl
    (fun _ => Nat.sub_self _) fun i => (S.preExecChecks_lt i).le
  exact ⟨m, by rw [preExecMeter, hCharge], h⟩

/-- The gas of the checks is used up. -/
theorem checks_exhausted (S : Spec) :
    ∃ m₁ m₂, preExecMeter S GasArray.zeroed = .ok m₁ ∧
      m₁.chargeGas (fun i => S.maxTxCheckCosts i - S.processTxPreExecChecksGas i) = .ok m₂ ∧
      m₂.gasUsed = S.maxTxCheckCosts ∧ m₂.gasPrice = GasArray.zeroed := by
  obtain ⟨m₁, hPre, hUsed₁, hPrice₁, hInit₁⟩ := preExecMeter_free S
  obtain ⟨m₂, hCharge, hUsed₂, hPrice₂, -⟩ := m₁.spend_free hPrice₁ S.maxTxCheckCosts
    (fun i => by rw [hUsed₁]; exact (S.preExecChecks_lt i).le) (fun i => by rw [hInit₁])
  rw [hUsed₁] at hCharge
  exact ⟨m₁, m₂, hPre, hCharge, hUsed₂, hPrice₂⟩

variable {slotGas : S.Gas} (hOpen : ∃ i, S.maxTxCheckCosts i < slotGas i)

include hOpen in
theorem sequencerAuthorized_free :
    sequencerAuthorized S GasArray.zeroed 0 slotGas = true := by
  rw [sequencerAuthorized_iff, worth_free]
  exact ⟨zero_le _, le_refl _, hOpen⟩

/-- A transaction that fails authentication after using up the gas of its checks. -/
def exhaustingTx (address : S.Address) : TxBehaviour S :=
  { (idle address).behaviour with
    authCharges := [fun i => S.maxTxCheckCosts i - S.processTxPreExecChecksGas i]
    authResult := .fatalError }

variable (sender : S.DaAddress) (address : S.Address)

include hOpen in
theorem exhaustingTx_uses :
    ∃ out, authAndProcessTx (freeBlock address) slotGas (exhaustingTx address) sender address 0
      (openState sender address) = .ok out ∧ out.gasUsed = S.maxTxCheckCosts := by
  obtain ⟨m₁, m₂, hPre, hCharge, hUsed₂, hPrice₂⟩ := checks_exhausted S
  refine ⟨⟨openState sender address, m₂.gasUsed, .skipped⟩, ?_, hUsed₂⟩
  simp only [authAndProcessTx, freeBlock, sequencerAuthorized_free hOpen, hPre,
    exhaustingTx, chargeEach, hCharge, chargeForChecks, gasValue_free hPrice₂, ok_bind]
  rfl

def noFee : TxDetails S := ⟨0, 0, none⟩

theorem reserveGas_noFee (s : Accounts S) (payer : S.Address) : s.reserveGas noFee GasArray.zeroed payer = some s := by
  rfl

theorem gasMeter_free (hCovers : ∀ i, S.maxTxCheckCosts i ≤ slotGas i) :
    ∃ m m', ((noFee : TxDetails S).gasMeter GasArray.zeroed slotGas).chargeGas
        S.processTxPreExecChecksGas = .ok m ∧
      m.chargeGas (fun i => slotGas i - S.processTxPreExecChecksGas i) = .ok m' ∧
      m'.gasUsed = slotGas ∧ m'.gasPrice = GasArray.zeroed := by
  have hLe : ∀ i, S.processTxPreExecChecksGas i ≤ slotGas i := fun i =>
    (S.preExecChecks_lt i).le.trans (hCovers i)
  obtain ⟨m, hCharge, hUsed, hPrice, hInit⟩ :=
    ((noFee : TxDetails S).gasMeter GasArray.zeroed slotGas).spend_fresh rfl (fun _ => Nat.sub_self _) hLe
  obtain ⟨m', hCharge', hUsed', hPrice', -⟩ := m.spend_free hPrice slotGas
    (fun i => by rw [hUsed]; exact hLe i) (fun i => by rw [hInit]; exact le_refl _)
  rw [hUsed] at hCharge'
  exact ⟨m, m', hCharge, hCharge', hUsed', hPrice'⟩

theorem transactionConsumption_noFee (m : BasicGasMeter S.dimensions) (hPrice : m.gasPrice = GasArray.zeroed) :
    transactionConsumption m noFee = ⟨0, m.gasUsed, 0, 0⟩ := by
  simp [transactionConsumption, noFee, gasValue_free hPrice]

def greedyTx (address : S.Address) (slotGas : S.Gas) : TxBehaviour S :=
  { (idle address).behaviour with
    details := noFee
    actions := [.chargeGas fun i => slotGas i - S.processTxPreExecChecksGas i] }

include hOpen in
theorem greedyTx_uses (hCovers : ∀ i, S.maxTxCheckCosts i ≤ slotGas i) :
    ∃ out, authAndProcessTx (freeBlock address) slotGas (greedyTx address slotGas) sender address 0
      (openState sender address) = .ok out ∧ out.gasUsed = slotGas := by
  obtain ⟨m₁, hPre, hUsed, hPrice, -⟩ := preExecMeter_free S
  obtain ⟨m, m', hChecks, hRest, hAll, hFree⟩ := gasMeter_free hCovers
  refine ⟨⟨openState sender address, m'.gasUsed, .applied ⟨0, m'.gasUsed, 0, 0⟩⟩, ?_, hAll⟩
  simp only [authAndProcessTx, freeBlock, sequencerAuthorized_free hOpen, not_true_eq_false, if_false, hPre,
    greedyTx, idle, chargeEach, if_true, ok_bind, processTx, TxBehaviour.checks,
    runChecks, Bool.and_true, tryReserveGas, hPrice, reserveGas_noFee, attemptTx, hUsed, hChecks, applyTx,
    Bool.false_eq_true, run, act, hRest, transactionConsumption_noFee m' hFree,
    refundRemainingGas, rewardProver, TxState.withAccounts, pure, Except.pure]
  simp [payFromBank_zero, ChainState.proverTokenHolder_ne_bank]

theorem returnEscrowed_openState :
    ∃ s, (openState sender address).accounts.returnEscrowedFundsToSequencer 0 0 0 sender = .ok s := by
  simp [returnEscrowedFundsToSequencer, checkedSub, checkedAdd, addToStake, openState,
    known, transferGas, doTransfer]

/-- A proof that cannot be read after the gas of its checks is used up. -/
def exhaustingProof (S : Spec) : ProofBehaviour S :=
  { (RawProof.idle S).behaviour with
    deserialize := ⟨[fun i => S.maxTxCheckCosts i - S.processTxPreExecChecksGas i], false⟩ }

include hOpen in
theorem exhaustingProof_uses :
    ∃ state, processProof (freeBlock address) (openState sender address) slotGas (exhaustingProof S) sender
      address 0 = .ok (state, S.maxTxCheckCosts) := by
  obtain ⟨m₁, m₂, hPre, hCharge, hUsed₂, hPrice₂⟩ := checks_exhausted S
  obtain ⟨s, hReturn⟩ := returnEscrowed_openState sender address
  have hZero : checkedValue S.maxTxCheckCosts GasArray.zeroed = some 0 := by
    simp [checkedValue_eq_some]
  simp [processProof, freeBlock, sequencerAuthorized_free hOpen, hPre, exhaustingProof, runChecks,
    chargeEach, hCharge, hZero, chargeSequencerAndRewardProver,
    gasValue_free hPrice₂, hReturn, hUsed₂]

/-- A proof whose verification uses all the gas that the slot has left. -/
def greedyProof (slotGas : S.Gas) : ProofBehaviour S :=
  { (RawProof.idle S).behaviour with
    details := noFee
    actions := [.chargeGas fun i => slotGas i - S.processTxPreExecChecksGas i] }

include hOpen in
theorem greedyProof_uses (hCovers : ∀ i, S.maxTxCheckCosts i ≤ slotGas i) :
    ∃ state, processProof (freeBlock address) (openState sender address) slotGas (greedyProof slotGas) sender
      address 0 = .ok (state, slotGas) := by
  obtain ⟨m₁, hPre, hUsed, hPrice, -⟩ := preExecMeter_free S
  obtain ⟨m, m', hChecks, hRest, hAll, hFree⟩ := gasMeter_free hCovers
  obtain ⟨s, hReturn⟩ := returnEscrowed_openState sender address
  simp [processProof, freeBlock, sequencerAuthorized_free hOpen, hPre, greedyProof, RawProof.idle, runChecks,
    chargeEach, tryReserveGas, hPrice, reserveGas_noFee, settleProof, hUsed, hChecks,
    verifyProof, run, act, hRest, transactionConsumption_noFee m' hFree,
    refundRemainingGas, rewardProver, TxState.withAccounts, payFromBank_zero, ChainState.proverTokenHolder_ne_bank,
    hReturn, hAll]

/-- A registration that fails authentication after using up its gas. -/
def exhaustingRegistration (address : S.Address) : FullyBakedTx S :=
  { idle address with
    behaviour := { (idle address).behaviour with
      authCharges := [S.maxUnregisteredTxGas]
      authResult := .fatalError } }

theorem exhaustingRegistration_uses (hOpen : ∃ i, S.maxUnregisteredTxGas i < slotGas i) :
    ∃ state, applyEmergencyRegistration (freeBlock address) (openState sender address) slotGas
      (exhaustingRegistration address) sender = .ok (state, S.maxUnregisteredTxGas) := by
  obtain ⟨m, hCharge, hUsed, -⟩ := (newWithGas S.maxUnregisteredTxGas GasArray.zeroed).spend_fresh rfl
    (fun _ => Nat.sub_self _) fun i => Nat.le_refl (S.maxUnregisteredTxGas i)
  have hLeft : GasArray.dimIsLessOrEq slotGas S.maxUnregisteredTxGas = false := by
    simpa [GasArray.dimIsLessOrEq] using hOpen
  simp [applyEmergencyRegistration, hLeft, exhaustingRegistration, chargeEach, hCharge, hUsed, pure, Except.pure]

/-- Gas used by some transaction, proof or registration of the sender in a slot with
the given gas left. -/
def TxUses (slotGas gas : S.Gas) : Prop :=
  ∃ block tx address bond state out,
    authAndProcessTx block slotGas tx sender address bond state = .ok out ∧ out.gasUsed = gas

def ProofUses (slotGas gas : S.Gas) : Prop :=
  ∃ block state raw address bond state', processProof block state slotGas raw sender address bond = .ok (state', gas)

def RegistrationUses (slotGas gas : S.Gas) : Prop :=
  ∃ block state tx state', applyEmergencyRegistration block state slotGas tx sender = .ok (state', gas)

section
variable {m : SlotMeter S} {sender : S.DaAddress}

theorem MeterSafe.of_charges (hCosts : (∃ i, S.maxTxCheckCosts i < m.remainingSlotGas sender i) →
      ∃ m', m.chargeGas S.maxTxCheckCosts sender = .ok m')
    (hAll : (∃ i, S.maxTxCheckCosts i < m.remainingSlotGas sender i) →
      (∀ i, S.maxTxCheckCosts i ≤ m.remainingSlotGas sender i) →
      ∃ m', m.chargeGas (m.remainingSlotGas sender) sender = .ok m') : MeterSafe m sender := by
  by_cases hOpen : ∃ i, S.maxTxCheckCosts i < m.remainingSlotGas sender i
  · have hCovers := fun i => (le_of_chargeGas (hCosts hOpen) i).1
    exact .inr fun i => ⟨hCovers i, (le_of_chargeGas (hAll hOpen hCovers) i).2⟩
  · simp only [not_exists, not_lt] at hOpen
    exact .inl hOpen

include address

theorem meterSafe_iff_tx :
    MeterSafe m sender ↔ ∀ gas, TxUses sender (m.remainingSlotGas sender) gas →
      ∃ m', m.chargeGas gas sender = .ok m' := by
  constructor
  · rintro hSafe gas ⟨block, tx, _, bond, state, out, hOut, rfl⟩
    exact hSafe.charge (authAndProcessTx_uses hOut)
  · intro h
    refine .of_charges (fun hOpen => ?_) fun hOpen hCovers => ?_
    · obtain ⟨out, hOut, hGas⟩ := exhaustingTx_uses hOpen sender address
      exact h _ ⟨_, _, _, _, _, out, hOut, hGas⟩
    · obtain ⟨out, hOut, hGas⟩ := greedyTx_uses hOpen sender address hCovers
      exact h _ ⟨_, _, _, _, _, out, hOut, hGas⟩

theorem meterSafe_iff_proof :
    MeterSafe m sender ↔ ∀ gas, ProofUses sender (m.remainingSlotGas sender) gas →
      ∃ m', m.chargeGas gas sender = .ok m' := by
  constructor
  · rintro hSafe gas ⟨block, state, raw, _, bond, state', hOut⟩
    exact hSafe.charge (processProof_uses hOut)
  · intro h
    refine .of_charges (fun hOpen => ?_) fun hOpen hCovers => ?_
    · obtain ⟨state, hOut⟩ := exhaustingProof_uses hOpen sender address
      exact h _ ⟨_, _, _, _, _, state, hOut⟩
    · obtain ⟨state, hOut⟩ := greedyProof_uses hOpen sender address hCovers
      exact h _ ⟨_, _, _, _, _, state, hOut⟩

theorem emergencySafe_iff :
    EmergencySafe m sender ↔ ∀ gas, RegistrationUses sender (m.remainingSlotGas sender) gas →
      ∃ m', m.chargeGas gas sender = .ok m' := by
  constructor
  · rintro hSafe gas ⟨block, state, tx, state', hOut⟩
    exact hSafe.charge (applyEmergencyRegistration_uses hOut)
  · intro h
    by_cases hOpen : ∃ i, S.maxUnregisteredTxGas i < m.remainingSlotGas sender i
    · obtain ⟨state, hOut⟩ := exhaustingRegistration_uses sender address hOpen
      exact .inr (le_of_chargeGas (h _ ⟨_, _, _, state, hOut⟩))
    · simp only [not_exists, not_lt] at hOpen
      exact .inl hOpen

end

/-- Whatever blobs are executed from whatever meter: as long as the slot gas
suffices in the state in which each transaction, proof and registration is reached,
no charge to the meter fails. The three conditions are the weakest: they hold of a
meter exactly if no transaction, proof or registration can fail on it. -/
theorem slot_gas_charges_succeed (block : BlockContext S) (state : TxState S) (slotGas : SlotMeter S)
    (blobs : List (SelectedBlob S)) (hSafe : Along (applyBlob block) (BlobSafe block) (state, slotGas) blobs) :
    blobs.foldlM (applyBlob block) (state, slotGas) ≠ .error .slotOutOfGas ∧
      ∀ (m : SlotMeter S) (sender : S.DaAddress), S.Address →
        (MeterSafe m sender ↔ ∀ gas, TxUses sender (m.remainingSlotGas sender) gas →
          ∃ m', m.chargeGas gas sender = .ok m') ∧
        (MeterSafe m sender ↔ ∀ gas, ProofUses sender (m.remainingSlotGas sender) gas →
          ∃ m', m.chargeGas gas sender = .ok m') ∧
        (EmergencySafe m sender ↔ ∀ gas, RegistrationUses sender (m.remainingSlotGas sender) gas →
          ∃ m', m.chargeGas gas sender = .ok m') := by
  refine ⟨fun hPanic => ?_, fun m sender address =>
    ⟨meterSafe_iff_tx address, meterSafe_iff_proof address, emergencySafe_iff address⟩⟩
  have hRaises := Yields.foldlM_along (fun _ => True) (fun _ _ _ hHere => applyBlob_raises hHere) trivial hSafe
  exact Bool.false_ne_true (hRaises.of_error hPanic)

/-- The sequencer 1 has a bond of 40 in the bank account, the user 5 has 2000 tokens. -/
def unevenState : TxState testSpec where
  accounts :=
    { bank := (empty.setBalance Accounts.bankAccount 0 40).setBalance (.user (5 : Nat)) 0 2000
      registry := (openState (1 : Nat) (7 : Nat) : TxState testSpec).accounts.registry }
  setupModeTerminationHeight := none
  withdrawn := []

/-- A transaction that uses almost all gas of the second dimension, and one that
fails authentication. -/
def unevenBatch : SelectedBlob testSpec where
  blobData :=
    let heavy : TxBehaviour testSpec :=
      { (idle (S := testSpec) (5 : Nat)).behaviour with
        details := ⟨0, 2000, none⟩
        actions := [.chargeGas ![0, 992]] }
    .batch [⟨1, heavy⟩, ⟨1, exhaustingTx (S := testSpec) (5 : Nat)⟩] 0 (7 : Nat)
  sender := (1 : Nat)
  reservedGasTokens := some 40

/-- After the first transaction the slot has `(999, 7)` left. The second one passes
the check against `(10, 10)`, which only refuses a slot exhausted in both
dimensions, and its failed authentication uses `(10, 10)`. -/
theorem uneven_batch_panics :
    ∃ m, SlotGasMeter.new testSpec.initialGasLimit (none : Option Nat) = some m ∧
      [unevenBatch].foldlM (applyBlob unitPriceBlock) (unevenState, m) = .error .slotOutOfGas :=
  ⟨_, rfl, rfl⟩

/-- A proof on a fresh meter. -/
theorem fresh_meter_suffices :
    [(⟨.proof (.idle testSpec) 0 (7 : Nat), (1 : Nat), some 40⟩ : SelectedBlob testSpec)].foldlM
      (applyBlob unitPriceBlock) (unevenState, ⟨none, fun _ => 1000, fun _ => 900, fun _ => 1000⟩) ≠
        .error .slotOutOfGas := by
  refine (slot_gas_charges_succeed unitPriceBlock unevenState _ _ ?_).1
  exact ⟨.inr (show ∀ i : Fin 2, 10 ≤ 1000 ∧ 1000 ≤ 1000 by decide), fun _ _ => trivial⟩

end SovereignSdk
