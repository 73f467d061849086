import SovereignSdk.AttesterIncentives

/-! What one operation can do to the module, with the guards under which it does it. -/
namespace SovereignSdk
open Bounded Outcome Nat Except AttesterIncentives

variable {S : Spec} {env : AttesterSpec S}

namespace AttesterState
variable {s s' : AttesterState S} {sender : S.Address} {amount : Nat}

theorem transferTokensToSender_ok (h : s.transferTokensToSender sender amount = (s', .ok ())) :
    s'.incentives = s.incentives ∧
      Bank.Moved s.bank s'.bank account (.user sender) S.gasTokenId amount := by
  unfold transferTokensToSender at h
  cases hXfer : s.bank.transferGas account (.user sender) amount with
  | mk bank result =>
    rw [hXfer] at h
    cases h
    exact ⟨rfl, Bank.doTransfer_ok hXfer⟩

inductive Step (s : AttesterState S) : AttesterOperation env → AttesterState S → AttesterEvent → Prop where
  | unchanged (operation) : Step s operation s .nothing
  | called {sender message s'} (hCall : s.call env sender message = .ok s') :
      Step s (.call sender message) s' .nothing
  | slashed {chain sender serialized bond} (hBonded : s.incentives.bondedAttesters sender = some bond) :
      Step s (.attestation chain sender serialized) (s.withIncentives (s.incentives.slashAttester sender).1) .nothing
  | invalidated {chain sender} {attestation : Attestation env} {bond}
      (hBonded : s.incentives.bondedAttesters sender = some bond) :
      Step s (.attestation chain sender (some attestation))
        (s.withIncentives (s.incentives.slashAndInvalidateAttestation sender attestation.claimedSlotNumber))
        (.invalidated attestation.claimedSlotNumber bond)
  | rewarded {chain sender} {attestation : Attestation env} {transition reward s'}
      (hNext : attestation.claimedSlotNumber = s.incentives.maximumAttestedHeight + 1)
      (hRoom : attestation.claimedSlotNumber + 1 ≤ u64Max)
      (hSlot : chain.slotAtHeight attestation.claimedSlotNumber = some transition)
      (hReward : env.burnRate.apply (Gas.value transition.gasUsed transition.gasPrice) = some reward)
      (hPaid : (s.withIncentives { s.incentives with
        maximumAttestedHeight := attestation.claimedSlotNumber }).transferTokensToSender sender reward = (s', .ok ())) :
      Step s (.attestation chain sender (some attestation)) s' (.rewarded attestation.claimedSlotNumber)
  | challengerSlashed {chain sender proof height} :
      Step s (.challenge chain sender proof height) (s.withIncentives (s.incentives.setChallenger sender none)) .nothing
  | challengerRewarded {chain sender proof height pool reward paid}
      (hPool : s.incentives.badTransitionPool height = some pool)
      (hReward : env.burnRate.apply pool = some reward)
      (hPaid : s.transferTokensToSender sender reward = (paid, .ok ())) :
      Step s (.challenge chain sender proof height)
        (paid.withIncentives (paid.incentives.setPool height none)) (.challengerRewarded height)
  | otherModules (bank) : Step s (.otherModules bank) { s with bank } .nothing

variable {chain : ChainView S} {attestation : Attestation env}
variable {result : Except ProcessAttestationError (Attestation env)}

theorem historicalTransition_room {n t}
    (h : chain.getHistoricalTransitionDangerous n = some t) : n + 1 ≤ u64Max ∧ chain.slotAtHeight n = some t.1 := by
  simp only [ChainView.getHistoricalTransitionDangerous, bind, Option.bind_eq_some_iff, checkedAdd_eq_some,
    pure, Option.some.injEq] at h
  obtain ⟨next, ⟨hRoom, -⟩, nextSlot, -, slot, hSlot, rfl⟩ := h
  exact ⟨hRoom, hSlot⟩

theorem checkTransition_valid (h : checkTransition env chain attestation = .valid) :
    ∃ t, chain.getHistoricalTransitionDangerous attestation.claimedSlotNumber = some t := by
  unfold checkTransition at h
  cases hTrans : chain.getHistoricalTransitionDangerous attestation.claimedSlotNumber with
  | none =>
    rw [hTrans] at h
    cases h
  | some t => exact ⟨t, rfl⟩

variable {serialized : Option (Attestation env)} {e : ProcessAttestationError} {bond height : Nat}
variable {bondAmount : Amount} {message : CallMessage}

theorem Step.of_refused (h : ∀ reason, e ≠ .attesterSlashedNoRevert reason) :
    Step s (.attestation chain sender serialized)
      (s.afterAttestation s' (.error e : Except ProcessAttestationError (Attestation env)))
      (s.attestationEvent sender serialized (.error e)) := by
  cases e with
  | attesterSlashedNoRevert reason => exact absurd rfl (h reason)
  | _ => exact .unchanged _

theorem rewardAttester_step (hNext : attestation.claimedSlotNumber = s.incentives.maximumAttestedHeight + 1)
    (hRoom : attestation.claimedSlotNumber + 1 ≤ u64Max)
    (h : s.rewardAttester env chain sender attestation attestation.claimedSlotNumber = .ok (s', result)) :
    Step s (.attestation chain sender (some attestation)) (s.afterAttestation s' result)
      (s.attestationEvent sender (some attestation) result) := by
  simp only [rewardAttester, bind_eq_ok, unwrap_eq_ok] at h
  obtain ⟨transition, hSlot, reward, hReward, h⟩ := h
  split at h
  · cases h
    exact .of_refused fun _ => by simp
  · rename_i paid hPaid
    cases h
    have hEvent : s.attestationEvent sender (some attestation) (.ok attestation) =
        .rewarded attestation.claimedSlotNumber := if_pos hNext
    rw [hEvent]
    exact .rewarded hNext hRoom hSlot hReward hPaid

theorem processBondedAttestation_step (hBonded : s.incentives.bondedAttesters sender = some bond)
    (h : s.processBondedAttestation env chain sender attestation = .ok (s', result)) :
    Step s (.attestation chain sender (some attestation)) (s.afterAttestation s' result)
      (s.attestationEvent sender (some attestation) result) := by
  simp only [processBondedAttestation, bind_eq_ok, unwrap_eq_ok] at h
  obtain ⟨-, -, newHeight, hHeight, h⟩ := h
  obtain ⟨-, rfl⟩ := checkedAdd_eq_some.mp hHeight
  split at h
  · cases h
    exact .of_refused fun _ => by simp
  split at h
  · cases h
    exact .of_refused fun _ => by simp
  obtain ⟨status, -, h⟩ := bind_eq_ok.mp h
  cases status with
  | slash =>
    cases h
    exact .slashed hBonded
  | valid =>
    cases hTrans : checkTransition env chain attestation with
    | slashedNoHistoricalTransition =>
      rw [hTrans] at h
      cases h
      exact .slashed hBonded
    | slashInvalidateWrongHash =>
      rw [hTrans] at h
      cases h
      have hEvent : s.attestationEvent sender (some attestation)
          (.error (.attesterSlashedNoRevert .transitionInvalid)) =
            .invalidated attestation.claimedSlotNumber bond := by
        simp [attestationEvent, hBonded]
      rw [hEvent]
      exact .invalidated hBonded
    | valid =>
      rw [hTrans] at h
      dsimp only at h
      split at h
      · rename_i hNext
        obtain ⟨t, ht⟩ := checkTransition_valid hTrans
        rw [← hNext] at h
        exact rewardAttester_step hNext (historicalTransition_room ht).1 h
      · rename_i hOld
        cases h
        have hEvent : s.attestationEvent sender (some attestation) (.ok attestation) = .nothing := if_neg hOld
        rw [hEvent]
        exact .unchanged _

theorem checkBondingProof_ne_slashed {m}
    (h : checkBondingProof env chain m sender attestation = .error e) (reason : SlashingReason) :
    e ≠ .attesterSlashedNoRevert reason := by
  rintro rfl
  unfold checkBondingProof at h
  split at h
  · cases h
  · simp only [bind_eq_error] at h
    have hUnwrap : ∀ {α : Type} {e : ProcessAttestationError} {o : Option α},
        unwrap e o = .error (.attesterSlashedNoRevert reason) → e = .attesterSlashedNoRevert reason := by
      intro α e o ho
      cases o with
      | none => exact error.inj ho
      | some a => cases ho
    rcases h with h | ⟨_, -, h | ⟨_, -, h | ⟨_, -, h | ⟨_, -, h⟩⟩⟩⟩
    · cases hUnwrap h
    · cases hUnwrap h
    · cases hUnwrap h
    · cases hUnwrap h
    · unfold ensure at h
      split at h <;> cases h

theorem processAttestation_step (h : s.processAttestation env chain sender serialized = .ok (s', result)) :
    Step s (.attestation chain sender serialized) (s.afterAttestation s' result)
      (s.attestationEvent sender serialized result) := by
  unfold processAttestation at h
  split at h
  · cases h
    exact .of_refused fun _ => by simp
  cases serialized with
  | none =>
    cases h
    exact .of_refused fun _ => by simp
  | some attestation =>
    dsimp only at h
    split at h
    · cases h
      exact .of_refused fun _ => by simp
    cases hBonded : s.incentives.bondedAttesters sender with
    | none =>
      rw [hBonded] at h
      cases h
      exact .of_refused fun _ => by simp
    | some bond =>
      rw [hBonded] at h
      cases hProof : checkBondingProof env chain s.incentives sender attestation with
      | error e =>
        rw [hProof] at h
        cases h
        exact .of_refused (checkBondingProof_ne_slashed hProof)
      | ok u =>
        rw [hProof] at h
        exact processBondedAttestation_step hBonded h

theorem rewardChallenger_ok {outputs pool result}
    (h : s.rewardChallenger env sender outputs height pool = .ok (s', result)) :
    (∃ e, result = .error (.rewardTransferFailure e)) ∨
      ∃ reward paid, result = .ok outputs ∧ env.burnRate.apply pool = some reward ∧
        s.transferTokensToSender sender reward = (paid, .ok ()) ∧
        s' = paid.withIncentives (paid.incentives.setPool height none) := by
  simp only [rewardChallenger, bind_eq_ok, unwrap_eq_ok] at h
  obtain ⟨reward, hReward, h⟩ := h
  split at h
  · rename_i e _
    cases h
    exact .inl ⟨e, rfl⟩
  · rename_i paid hPaid
    cases h
    exact .inr ⟨reward, paid, rfl, hReward, hPaid, rfl⟩

theorem processChallenge_ok {proof result} (h : s.processChallenge env chain sender proof height = .ok (s', result)) :
    (∃ e, result = .error e ∧ ∀ reason, e ≠ .challengerSlashedNoRevert reason) ∨
      (∃ reason, (s', result) = s.slashChallenger sender reason) ∨
      ∃ pool outputs reward paid, s.incentives.badTransitionPool height = some pool ∧ result = .ok outputs ∧
        env.burnRate.apply pool = some reward ∧ s.transferTokensToSender sender reward = (paid, .ok ()) ∧
        s' = paid.withIncentives (paid.incentives.setPool height none) := by
  unfold processChallenge at h
  split at h
  · cases h
    exact .inl ⟨_, rfl, fun _ => by simp⟩
  split at h
  · cases h
    exact .inl ⟨_, rfl, fun _ => by simp⟩
  split at h
  · cases h
    exact .inl ⟨_, rfl, fun _ => by simp⟩
  split at h
  · exact .inr (.inl ⟨_, (ok.inj h).symm⟩)
  rename_i pool hPool
  split at h
  · exact .inr (.inl ⟨_, (ok.inj h).symm⟩)
  rename_i outputs _
  split at h
  · exact .inr (.inl ⟨_, (ok.inj h).symm⟩)
  rcases rewardChallenger_ok h with ⟨e, rfl⟩ | ⟨reward, paid, rfl, hReward, hPaid, rfl⟩
  · exact .inl ⟨_, rfl, fun _ => by simp⟩
  · exact .inr (.inr ⟨pool, outputs, reward, paid, hPool, rfl, hReward, hPaid, rfl⟩)

theorem perform_step {operation event}
    (h : s.perform env operation = .ok (s', event)) : Step s operation s' event := by
  cases operation with
  | call sender message =>
    simp only [perform] at h
    cases hCall : s.call env sender message with
    | error e =>
      rw [hCall] at h
      cases h
      exact .unchanged _
    | ok after =>
      rw [hCall] at h
      cases h
      exact .called hCall
  | attestation chain sender serialized =>
    simp only [perform, bind_eq_ok] at h
    obtain ⟨⟨after, result⟩, hProc, h⟩ := h
    cases h
    exact processAttestation_step hProc
  | challenge chain sender proof height =>
    simp only [perform, bind_eq_ok] at h
    obtain ⟨⟨after, result⟩, hProc, h⟩ := h
    rcases processChallenge_ok hProc with
      ⟨e, rfl, hKept⟩ | ⟨reason, hSlashed⟩ | ⟨pool, outputs, reward, paid, hPool, rfl, hReward, hPaid, rfl⟩
    · cases e with
      | challengerSlashedNoRevert reason => exact absurd rfl (hKept reason)
      | _ =>
        cases h
        exact .unchanged _
    · cases hSlashed
      cases h
      exact .challengerSlashed
    · cases h
      exact .challengerRewarded hPool hReward hPaid
  | otherModules bank =>
    cases h
    exact .otherModules bank

theorem processAttestation_of_bonded (hMode : env.operatingMode = .optimistic)
    (hClaim : attestation.claimedSlotNumber ≠ 0) (hBonded : s.incentives.bondedAttesters sender = some bond)
    (hProof : checkBondingProof env chain s.incentives sender attestation = .ok ()) :
    s.processAttestation env chain sender (some attestation) =
      s.processBondedAttestation env chain sender attestation := by
  simp only [processAttestation, hMode, hClaim, hBonded, hProof, ne_eq, not_true_eq_false, if_false]

theorem processBondedAttestation_of_valid
    (hFinal : s.incentives.lightClientFinalizedHeight ≤ s.incentives.maximumAttestedHeight)
    (hRoom : s.incentives.maximumAttestedHeight + 1 ≤ u64Max)
    (hMin : s.incentives.maximumAttestedHeight + 1 - s.incentives.rollupFinalityPeriod ≤
      attestation.claimedSlotNumber) (hMax : attestation.claimedSlotNumber ≤ s.incentives.maximumAttestedHeight + 1)
    (hInit : checkInitialHash env chain attestation = .ok .valid)
    (hTrans : checkTransition env chain attestation = .valid) :
    s.processBondedAttestation env chain sender attestation =
      if attestation.claimedSlotNumber = s.incentives.maximumAttestedHeight + 1 then
        s.rewardAttester env chain sender attestation (s.incentives.maximumAttestedHeight + 1)
      else .ok (s, .ok attestation) := by
  have hHeight := checkedAdd_eq_some.mpr ⟨hRoom, rfl⟩
  have hEnsure : ensure AttesterPanic.finalizedAboveAttested
      (s.incentives.lightClientFinalizedHeight ≤ s.incentives.maximumAttestedHeight) = .ok () := if_pos hFinal
  simp only [processBondedAttestation, hEnsure, hHeight, unwrap_some, ok_bind, if_neg (not_lt.mpr hMin),
    if_neg (not_lt.mpr hMax), hInit, hTrans]
  rfl

/-- What a call leaves alone: the heights, the pools and the attesters other than its sender. -/
structure CallFrame (sender : S.Address) (m m' : AttesterIncentives S) : Prop where
  period : m'.rollupFinalityPeriod = m.rollupFinalityPeriod
  finalized : m'.lightClientFinalizedHeight = m.lightClientFinalizedHeight
  attested : m'.maximumAttestedHeight = m.maximumAttestedHeight
  pool : m'.badTransitionPool = m.badTransitionPool
  bonded : ∀ a, a ≠ sender → m'.bondedAttesters a = m.bondedAttesters a
  unbonding : ∀ a, a ≠ sender → m'.unbondingAttesters a = m.unbondingAttesters a

namespace CallFrame
variable {m m' m'' : AttesterIncentives S}

theorem refl (sender : S.Address) (m : AttesterIncentives S) : CallFrame sender m m :=
  ⟨rfl, rfl, rfl, rfl, fun _ _ => rfl, fun _ _ => rfl⟩

theorem setBonded (m : AttesterIncentives S) (bond : Option Nat) : CallFrame sender m (m.setBonded sender bond) :=
  ⟨rfl, rfl, rfl, rfl, fun _ hNe => Function.update_of_ne hNe .., fun _ _ => rfl⟩

theorem setUnbonding (h : CallFrame sender m m') (info : Option UnbondingInfo) :
    CallFrame sender m (m'.setUnbonding sender info) :=
  ⟨h.period, h.finalized, h.attested, h.pool, h.bonded,
    fun a hNe => (Function.update_of_ne hNe ..).trans (h.unbonding a hNe)⟩

theorem setChallenger (m : AttesterIncentives S) (challenger : S.Address) (bond : Option Nat) :
    CallFrame sender m (m.setChallenger challenger bond) :=
  ⟨rfl, rfl, rfl, rfl, fun _ _ => rfl, fun _ _ => rfl⟩

end CallFrame

theorem registerAttester_ok (h : s.registerAttester sender bondAmount = .ok s') :
    s.incentives.unbondingAttesters sender = none ∧
      s'.incentives = s.incentives.setBonded sender (some bondAmount) := by
  simp only [registerAttester, bind_eq_ok, ensure_eq_ok] at h
  obtain ⟨-, hUnbonding, -, -, bank, -, h⟩ := h
  cases h
  exact ⟨hUnbonding, rfl⟩

theorem depositAttester_ok {amount} (h : s.depositAttester sender amount = .ok s') :
    s.incentives.unbondingAttesters sender = none ∧
      ∃ balance, s'.incentives = s.incentives.setBonded sender (some balance) := by
  simp only [depositAttester, bind_eq_ok, ensure_eq_ok] at h
  obtain ⟨-, hUnbonding, -, -, balance, -, bank, -, h⟩ := h
  cases h
  exact ⟨hUnbonding, balance, rfl⟩

theorem exitAttester_ok (h : s.exitAttester sender = .ok s') :
    s'.incentives = (s.incentives.setBonded sender none).setUnbonding sender none := by
  unfold exitAttester at h
  split at h
  · cases h
  split at h
  · cases h
  split at h
  · cases h
  · rename_i paid hPaid
    cases h
    simp only [withIncentives, (transferTokensToSender_ok hPaid).1]

theorem registerChallenger_ok (h : s.registerChallenger sender bondAmount = .ok s') :
    s'.incentives = s.incentives.setChallenger sender (some bondAmount) := by
  simp only [registerChallenger, bind_eq_ok] at h
  obtain ⟨-, -, bank, -, h⟩ := h
  cases h
  rfl

theorem exitChallenger_ok (h : s.exitChallenger sender = .ok s') :
    s'.incentives = s.incentives.setChallenger sender none := by
  simp only [exitChallenger, bind_eq_ok] at h
  obtain ⟨balance, -, h⟩ := h
  split at h
  · cases h
  · rename_i paid hPaid
    cases h
    simp only [withIncentives, (transferTokensToSender_ok hPaid).1]

theorem call_eq_ok (h : s.call env sender message = .ok s') :
    match message with
    | .registerAttester bondAmount => s.registerAttester sender bondAmount = .ok s'
    | .depositAttester amount => s.depositAttester sender amount = .ok s'
    | .beginExitAttester => s' = s.beginExitAttester sender
    | .exitAttester => s.exitAttester sender = .ok s'
    | .registerChallenger bondAmount => s.registerChallenger sender bondAmount = .ok s'
    | .exitChallenger => s.exitChallenger sender = .ok s' := by
  unfold call at h
  split at h
  · cases h
  · cases message with
    | beginExitAttester => exact (ok.inj h).symm
    | _ => exact h

theorem call_frame (h : s.call env sender message = .ok s') : CallFrame sender s.incentives s'.incentives := by
  have hCall := call_eq_ok h
  cases message with
  | registerAttester bondAmount =>
    rw [(registerAttester_ok hCall).2]
    exact .setBonded _ _
  | depositAttester amount =>
    obtain ⟨-, balance, hSame⟩ := depositAttester_ok hCall
    rw [hSame]
    exact .setBonded _ _
  | beginExitAttester =>
    rw [show s' = s.beginExitAttester sender from hCall, beginExitAttester]
    split
    · exact .refl _ _
    · exact (CallFrame.setBonded _ _).setUnbonding _
  | exitAttester =>
    rw [exitAttester_ok hCall]
    exact (CallFrame.setBonded _ _).setUnbonding _
  | registerChallenger bondAmount =>
    rw [registerChallenger_ok hCall]
    exact .setChallenger _ _ _
  | exitChallenger =>
    rw [exitChallenger_ok hCall]
    exact .setChallenger _ _ _

end AttesterState

/-! The two-phase exit of an attester. The second phase waits until the light client's finalized height
has passed the height of the first by the finality period; no operation moves that height. -/
open AttesterIncentives Function AttesterState

namespace AttesterState
variable {s s' : AttesterState S} {sender : S.Address}

/-- The module's account covers a refund, and the receiver has room for it. -/
def CanRefund (s : AttesterState S) (receiver : S.Address) (amount : Nat) : Prop :=
  amount = 0 ∨ amount ≤ s.bank.balanceOf account S.gasTokenId ∧
    s.bank.balanceOf (.user receiver) S.gasTokenId + amount ≤ amountMax

def NoDelay (m : AttesterIncentives S) : Prop :=
  m.rollupFinalityPeriod = 0 ∨ u64Max ≤ m.lightClientFinalizedHeight

/-- The attester has begun its exit, with `info`, under the heights of `start`. -/
structure Leaving (start : AttesterIncentives S) (sender : S.Address) (bond : Nat) (m : AttesterIncentives S) :
    Prop where
  unbonding : m.unbondingAttesters sender = some ⟨start.lightClientFinalizedHeight, bond⟩
  notBonded : m.bondedAttesters sender = none
  period : m.rollupFinalityPeriod = start.rollupFinalityPeriod
  finalized : m.lightClientFinalizedHeight = start.lightClientFinalizedHeight

theorem transferTokensToSender_isOk_iff {amount} :
    (∃ s', s.transferTokensToSender sender amount = (s', .ok ())) ↔ s.CanRefund sender amount := by
  have hNe : (account : S.Holder) ≠ .user sender := by simp [account]
  unfold CanRefund
  rw [← Bank.doTransfer_isOk_iff hNe]
  simp only [transferTokensToSender, Prod.mk.injEq]
  constructor
  · rintro ⟨s', -, hOk⟩
    exact ⟨_, Prod.ext rfl hOk⟩
  · rintro ⟨b, hOk⟩
    exact ⟨_, rfl, congrArg Prod.snd hOk⟩

theorem exitAttester_eq_ok {info} (hInfo : s.incentives.unbondingAttesters sender = some info) :
    s.exitAttester sender = .ok s' ↔
      saturatingAdd u64Max info.unbondingInitiatedHeight s.incentives.rollupFinalityPeriod ≤
          s.incentives.lightClientFinalizedHeight ∧
        ∃ paid, s.transferTokensToSender sender info.amount = (paid, .ok ()) ∧
          s' = paid.withIncentives ((paid.incentives.setBonded sender none).setUnbonding sender none) := by
  unfold exitAttester
  rw [hInfo]
  dsimp only
  split
  · rename_i hEarly
    simp [not_le.mpr hEarly]
  · rename_i hOver
    rw [and_iff_right (not_lt.mp hOver)]
    split
    · rename_i e hXfer
      simp [hXfer]
    · rename_i paid hXfer
      simp [hXfer, eq_comm]

namespace Leaving
variable {start : AttesterIncentives S} {bond : Nat}

section
variable (h : Leaving start sender bond s.incentives)
include h

theorem period_over_iff :
    saturatingAdd u64Max start.lightClientFinalizedHeight s.incentives.rollupFinalityPeriod ≤
      s.incentives.lightClientFinalizedHeight ↔ NoDelay start := by
  rw [h.period, h.finalized]
  unfold saturatingAdd NoDelay
  omega

theorem exit_iff : (∃ s', s.exitAttester sender = .ok s') ↔ NoDelay start ∧ s.CanRefund sender bond := by
  simp only [exitAttester_eq_ok h.unbonding]
  rw [← h.period_over_iff, ← transferTokensToSender_isOk_iff]
  constructor
  · rintro ⟨s', hOver, paid, hPaid, -⟩
    exact ⟨hOver, paid, hPaid⟩
  · rintro ⟨hOver, paid, hPaid⟩
    exact ⟨_, hOver, paid, hPaid, rfl⟩

theorem setChallenger {challenger : S.Address} (bond' : Option Nat) :
    Leaving start sender bond (s.incentives.setChallenger challenger bond') :=
  ⟨h.unbonding, h.notBonded, h.period, h.finalized⟩

theorem call {caller message} (hCall : s.call env caller message = .ok s') :
    Leaving start sender bond s'.incentives ∨
      caller = sender ∧ message = .exitAttester ∧ s.exitAttester sender = .ok s' := by
  have hFrame := call_frame hCall
  by_cases hOther : sender ≠ caller
  · exact .inl ⟨(hFrame.unbonding sender hOther).trans h.unbonding, (hFrame.bonded sender hOther).trans h.notBonded,
      hFrame.period.trans h.period, hFrame.finalized.trans h.finalized⟩
  obtain rfl := not_not.mp hOther
  have hOwn := call_eq_ok hCall
  cases message with
  | registerAttester bondAmount =>
    have hNone := (registerAttester_ok hOwn).1
    simp [h.unbonding] at hNone
  | depositAttester amount =>
    have hNone := (depositAttester_ok hOwn).1
    simp [h.unbonding] at hNone
  | beginExitAttester =>
    -- Without a bond a second request does nothing.
    have hSame : s' = s := by
      rw [show s' = s.beginExitAttester sender from hOwn, beginExitAttester, h.notBonded]
    exact .inl (hSame ▸ h)
  | exitAttester => exact .inr ⟨rfl, rfl, hOwn⟩
  | registerChallenger bondAmount => exact .inl (registerChallenger_ok hOwn ▸ h.setChallenger _)
  | exitChallenger => exact .inl (exitChallenger_ok hOwn ▸ h.setChallenger _)

theorem slashed {attester b} (hBonded : s.incentives.bondedAttesters attester = some b) :
    Leaving start sender bond (s.incentives.slashAttester attester).1 := by
  have hNe : sender ≠ attester := by
    rintro rfl
    simp [h.notBonded] at hBonded
  exact ⟨(update_of_ne hNe ..).trans h.unbonding, (update_of_ne hNe ..).trans h.notBonded, h.period, h.finalized⟩

theorem step {operation : AttesterOperation env} {event : AttesterEvent} (hStep : Step s operation s' event) :
    Leaving start sender bond s'.incentives ∨ operation = .call sender .exitAttester ∧ s.exitAttester sender = .ok s' := by
  cases hStep with
  | unchanged | otherModules => exact .inl h
  | called hCall =>
    rcases h.call hCall with hKept | ⟨rfl, rfl, hExit⟩
    · exact .inl hKept
    · exact .inr ⟨rfl, hExit⟩
  | slashed hBonded => exact .inl (h.slashed hBonded)
  | invalidated hBonded =>
    have hSlashed := h.slashed hBonded
    exact .inl ⟨hSlashed.unbonding, hSlashed.notBonded, hSlashed.period, hSlashed.finalized⟩
  | rewarded _ _ _ _ hPaid =>
    rw [(transferTokensToSender_ok hPaid).1]
    exact .inl ⟨h.unbonding, h.notBonded, h.period, h.finalized⟩
  | challengerSlashed => exact .inl (h.setChallenger _)
  | challengerRewarded _ _ hPaid =>
    simp only [(transferTokensToSender_ok hPaid).1]
    exact .inl ⟨h.unbonding, h.notBonded, h.period, h.finalized⟩

end

end Leaving

theorem processAttestation_of_notBonded (h : s.incentives.bondedAttesters sender = none) (chain : ChainView S)
    (serialized : Option (Attestation env)) :
    ∃ e, s.processAttestation env chain sender serialized = .ok (s, .error e) := by
  unfold processAttestation
  split
  · exact ⟨_, rfl⟩
  cases serialized with
  | none => exact ⟨_, rfl⟩
  | some attestation =>
    dsimp only
    split
    · exact ⟨_, rfl⟩
    · rw [h]
      exact ⟨_, rfl⟩

theorem Step.unbonding_none {operation : AttesterOperation env} {event : AttesterEvent}
    (hNone : s.incentives.unbondingAttesters sender = none) (hStep : Step s operation s' event)
    (hOther : operation ≠ .call sender .beginExitAttester) : s'.incentives.unbondingAttesters sender = none := by
  have hSlash : ∀ attester, (s.incentives.slashAttester attester).1.unbondingAttesters sender = none := by
    intro attester
    show update _ _ _ _ = _
    rw [update_apply]
    split
    · rfl
    · exact hNone
  cases hStep with
  | unchanged | challengerSlashed | otherModules => exact hNone
  | @called caller message _ hCall =>
    have hFrame := call_frame hCall
    by_cases hCaller : sender ≠ caller
    · exact (hFrame.unbonding sender hCaller).trans hNone
    obtain rfl := not_not.mp hCaller
    have hOwn := call_eq_ok hCall
    cases message with
    | registerAttester bondAmount => exact (registerAttester_ok hOwn).2 ▸ hNone
    | depositAttester amount =>
      obtain ⟨-, balance, hSame⟩ := depositAttester_ok hOwn
      exact hSame ▸ hNone
    | beginExitAttester => exact absurd rfl hOther
    | exitAttester =>
      rw [exitAttester_ok hOwn]
      exact update_self ..
    | registerChallenger bondAmount => exact registerChallenger_ok hOwn ▸ hNone
    | exitChallenger => exact exitChallenger_ok hOwn ▸ hNone
  | slashed | invalidated => exact hSlash _
  | rewarded _ _ _ _ hPaid => exact (transferTokensToSender_ok hPaid).1 ▸ hNone
  | challengerRewarded _ _ hPaid =>
    simp only [(transferTokensToSender_ok hPaid).1]
    exact hNone

end AttesterState

/-- A run that never ends. -/
structure AttesterRun (env : AttesterSpec S) where
  states : Nat → AttesterState S
  operations : Nat → AttesterOperation env
  events : Nat → AttesterEvent
  performs : ∀ i, (states i).perform env (operations i) = .ok (states (i + 1), events i)

namespace AttesterRun
open AttesterState
variable (run : AttesterRun env) {sender : S.Address} {bond k n : Nat}

/-- Between two moments the attester does not complete its exit. -/
def NoExit (sender : S.Address) (k n : Nat) : Prop :=
  ∀ i, k < i → i < n → run.operations i = .call sender .exitAttester → ∀ s', (run.states i).exitAttester sender ≠ .ok s'

variable {run}

/-- Induction over the run, from the state that the request leaves. -/
theorem leaving (hMode : env.operatingMode = .optimistic) (hBegin : run.operations k = .call sender .beginExitAttester)
    (hBonded : (run.states k).incentives.bondedAttesters sender = some bond) (hLater : k < n)
    (hNoExit : run.NoExit sender k n) :
    Leaving (run.states k).incentives sender bond (run.states n).incentives := by
  induction n, hLater using le_induction with
  | base =>
    have hNext := run.performs k
    simp [hBegin, perform, call, hMode] at hNext
    rw [← hNext.1, beginExitAttester, hBonded]
    constructor <;> simp [withIncentives, setBonded, setUnbonding]
  | succ n hLe ih =>
    have hHere := ih fun i hFrom hTo => hNoExit i hFrom (lt_succ_of_lt hTo)
    rcases hHere.step (perform_step (run.performs n)) with hKept | ⟨hExit, hOk⟩
    · exact hKept
    · exact absurd hOk (hNoExit n hLe (lt_succ_self n) hExit _)

theorem gone {m : Nat} (hGone : (run.states n).incentives.unbondingAttesters sender = none) (hLater : n ≤ m)
    (hNoBegin : ∀ i, n ≤ i → i < m → run.operations i ≠ .call sender .beginExitAttester) :
    (run.states m).incentives.unbondingAttesters sender = none := by
  induction m, hLater using le_induction with
  | base => exact hGone
  | succ m hLe ih =>
    have hHere := ih fun i hFrom hTo => hNoBegin i hFrom (lt_succ_of_lt hTo)
    exact (perform_step (run.performs m)).unbonding_none hHere (hNoBegin m hLe (lt_succ_self m))

/-- An attester that has begun its exit stays as it is: it keeps its claim to the bond, and can neither
bond nor attest. Its exit succeeds at some moment just when there was nothing to wait for, and its refund
can be paid at some moment. The refund is the bond, and there is no second one. -/
theorem exit_completes_iff (hMode : env.operatingMode = .optimistic)
    (hBegin : run.operations k = .call sender .beginExitAttester)
    (hBonded : (run.states k).incentives.bondedAttesters sender = some bond) :
    (∀ n, k < n → run.NoExit sender k n → (run.states n).incentives.unbondingAttesters sender =
          some ⟨(run.states k).incentives.lightClientFinalizedHeight, bond⟩ ∧
        (∀ amount s', (run.states n).registerAttester sender amount ≠ .ok s') ∧
        (∀ amount s', (run.states n).depositAttester sender amount ≠ .ok s') ∧
        ∀ chain serialized, ∃ e,
          (run.states n).processAttestation env chain sender serialized = .ok (run.states n, .error e)) ∧
    ((∃ n, k < n ∧ run.NoExit sender k n ∧ ∃ s', (run.states n).call env sender .exitAttester = .ok s') ↔
      NoDelay (run.states k).incentives ∧ ∃ n, k < n ∧ run.NoExit sender k n ∧ (run.states n).CanRefund sender bond) ∧
    ∀ n s', k < n → run.NoExit sender k n → run.operations n = .call sender .exitAttester →
      (run.states n).exitAttester sender = .ok s' →
      run.states (n + 1) = s' ∧ Bank.Moved (run.states n).bank s'.bank account (.user sender) S.gasTokenId bond ∧
        ∀ m, n < m → (∀ i, n < i → i < m → run.operations i ≠ .call sender .beginExitAttester) →
          (run.states m).exitAttester sender = .error .attesterIsNotUnbonding := by
  have hLeaving : ∀ n, k < n → run.NoExit sender k n →
      Leaving (run.states k).incentives sender bond (run.states n).incentives :=
    fun n hLater hNoExit => leaving hMode hBegin hBonded hLater hNoExit
  have hCall : ∀ n, (run.states n).call env sender .exitAttester = (run.states n).exitAttester sender := by
    simp [call, hMode]
  refine ⟨?_, ?_, ?_⟩
  · intro n hLater hNoExit
    have hHere := hLeaving n hLater hNoExit
    refine ⟨hHere.unbonding, ?_, ?_, fun chain serialized =>
      processAttestation_of_notBonded hHere.notBonded chain serialized⟩
    · intro amount s' hOk
      have hNone := (registerAttester_ok hOk).1
      simp [hHere.unbonding] at hNone
    · intro amount s' hOk
      have hNone := (depositAttester_ok hOk).1
      simp [hHere.unbonding] at hNone
  · constructor
    · rintro ⟨n, hLater, hNoExit, hExit⟩
      rw [hCall n] at hExit
      obtain ⟨hNoDelay, hRefund⟩ := (hLeaving n hLater hNoExit).exit_iff.mp hExit
      exact ⟨hNoDelay, n, hLater, hNoExit, hRefund⟩
    · rintro ⟨hNoDelay, n, hLater, hNoExit, hRefund⟩
      refine ⟨n, hLater, hNoExit, ?_⟩
      rw [hCall n]
      exact (hLeaving n hLater hNoExit).exit_iff.mpr ⟨hNoDelay, hRefund⟩
  · intro n s' hLater hNoExit hOperation hExit
    have hNext : run.states (n + 1) = s' := by
      have hPerforms := run.performs n
      simp [hOperation, perform, hCall n, hExit] at hPerforms
      exact hPerforms.1.symm
    obtain ⟨-, paid, hPaid, hDone⟩ := (exitAttester_eq_ok (hLeaving n hLater hNoExit).unbonding).mp hExit
    have hGone : s'.incentives.unbondingAttesters sender = none := by
      rw [hDone]
      exact Function.update_self ..
    refine ⟨hNext, hDone ▸ (transferTokensToSender_ok hPaid).2, fun m hAfter hNoBegin => ?_⟩
    have hStill := gone (hNext ▸ hGone) hAfter fun i hFrom hTo => hNoBegin i hFrom hTo
    rw [exitAttester, hStill]

end AttesterRun

section Example
open AttesterState

def testAttesters : AttesterSpec testSpec where
  operatingMode := .optimistic
  burnRate := ⟨10, by decide⟩
  StorageProof := Unit
  SlotKey := Nat
  slotKeyDecEq := inferInstance
  bondKey := fun address => address
  openProof := fun _ _ => some ((2 : Nat), some [])
  decodeAmount := fun _ => some 10
  verify := fun _ => none

/-- Two attesters with bonds of ten; the finality period is a parameter. -/
def twoAttesters (finalityPeriod : Nat) : AttesterIncentivesConfig testSpec where
  minimumAttesterBond := fun _ => 0
  minimumChallengerBond := fun _ => 0
  initialAttesters := [((1 : Nat), 10), ((2 : Nat), 10)]
  rollupFinalityPeriod := finalityPeriod
  maximumAttestedHeight := 0
  lightClientFinalizedHeight := 0

def attestersBank : Bank testSpec :=
  ((Bank.empty.setBalance (.user (1 : Nat)) testSpec.gasTokenId 10).setBalance (.user (2 : Nat)) testSpec.gasTokenId 10)

def quietChain : ChainView testSpec where
  slots := fun _ => some ⟨0, ⟨0, 0⟩, fun _ => 0, fun _ => 0⟩
  visibleSlotNumber := u64Max
  gasPrice := fun _ => 0

def quietAttestation (slotNumber : Nat) : AttesterOperation testAttesters :=
  .attestation quietChain (2 : Nat) (some ⟨⟨0, 0⟩, 0, ⟨0, 0⟩, slotNumber, ()⟩)

/-- The second attester is bonded and `n` slots are attested, while the first waits. -/
structure AttestedUpTo (finalityPeriod n : Nat) (s : AttesterState testSpec) : Prop where
  period : s.incentives.rollupFinalityPeriod = finalityPeriod
  finalized : s.incentives.lightClientFinalizedHeight = 0
  attested : s.incentives.maximumAttestedHeight = n
  minimumBond : s.incentives.minimumAttesterBond = fun _ => 0
  bonded : s.incentives.bondedAttesters (2 : Nat) = some 10
  leaving : s.incentives.unbondingAttesters (1 : Nat) = some ⟨0, 10⟩

theorem quietChain_slotAtHeight {n} (h : n ≤ u64Max) :
    quietChain.slotAtHeight n = some ⟨0, ⟨0, 0⟩, fun _ => 0, fun _ => 0⟩ := if_neg (not_lt.mpr h)

theorem quietChain_rootAtHeight {n} (h : n + 1 ≤ u64Max) : quietChain.rootAtHeight n = some ⟨0, 0⟩ := by
  simp [ChainView.rootAtHeight, checkedAdd, h, quietChain_slotAtHeight h]

theorem quietAttestation_bonded (m : AttesterIncentives testSpec) {n}
    (hMinimum : m.minimumAttesterBond = fun _ => 0) (hRoom : n + 2 ≤ u64Max) :
    checkBondingProof testAttesters quietChain m (2 : Nat) ⟨⟨0, 0⟩, 0, ⟨0, 0⟩, n + 1, ()⟩ = .ok () := by
  have hValue : Gas.value m.minimumAttesterBond quietChain.gasPrice ≤ (10 : Amount).val := by
    rw [hMinimum]
    decide
  have hProof : verifyProof testAttesters ⟨0, 0⟩ () (2 : Nat) = some (some []) := rfl
  have hDecode : testAttesters.decodeAmount [] = some 10 := rfl
  simp only [checkBondingProof, add_one_ne_zero, if_false, quietChain_rootAtHeight hRoom, unwrap_some, ok_bind,
    hProof, hDecode]
  exact if_pos hValue

theorem AttestedUpTo.next {finalityPeriod n s} (h : AttestedUpTo finalityPeriod n s) (hRoom : n + 2 ≤ u64Max) :
    ∃ s', s.perform testAttesters (quietAttestation (n + 1)) = .ok (s', .rewarded (n + 1)) ∧
      AttestedUpTo finalityPeriod (n + 1) s' := by
  have hInit : checkInitialHash testAttesters quietChain ⟨⟨0, 0⟩, 0, ⟨0, 0⟩, n + 1, ()⟩ = .ok .valid := by
    simp [checkInitialHash, checkedSub, quietChain_rootAtHeight (le_of_succ_le hRoom), pure, Except.pure]
  have hTrans : checkTransition testAttesters quietChain ⟨⟨0, 0⟩, 0, ⟨0, 0⟩, n + 1, ()⟩ = .valid := by
    simp [checkTransition, ChainView.getHistoricalTransitionDangerous, checkedAdd, hRoom,
      quietChain_slotAtHeight hRoom, quietChain_slotAtHeight (le_of_succ_le hRoom)]
  have hProc : s.processAttestation testAttesters quietChain (2 : Nat)
      (some ⟨⟨0, 0⟩, 0, ⟨0, 0⟩, n + 1, ()⟩) =
        .ok (s.withIncentives { s.incentives with maximumAttestedHeight := n + 1 },
          .ok ⟨⟨0, 0⟩, 0, ⟨0, 0⟩, n + 1, ()⟩) := by
    refine (processAttestation_of_bonded rfl (succ_ne_zero n) h.bonded
      (quietAttestation_bonded s.incentives h.minimumBond hRoom)).trans ?_
    refine (processBondedAttestation_of_valid ?_ ?_ ?_ ?_ hInit hTrans).trans ?_
    · exact h.finalized ▸ zero_le _
    · exact h.attested ▸ le_of_succ_le hRoom
    · exact h.attested ▸ sub_le _ _
    · exact h.attested ▸ le_refl _
    · simp only [h.attested, rewardAttester, quietChain_slotAtHeight (le_of_succ_le hRoom)]
      rfl
  refine ⟨s.withIncentives { s.incentives with maximumAttestedHeight := n + 1 }, ?_,
    h.period, h.finalized, rfl, h.minimumBond, h.bonded, h.leaving⟩
  simp only [perform, quietAttestation, hProc, ok_bind, attestationEvent, h.attested]
  rfl

theorem AttestedUpTo.run {finalityPeriod n s} (h : AttestedUpTo finalityPeriod 0 s) (hRoom : n < u64Max) :
    ∃ t events, trace (perform testAttesters) s ((List.range n).map fun i => quietAttestation (i + 1)) =
      .ok (t, events) ∧ AttestedUpTo finalityPeriod n t := by
  induction n with
  | zero => exact ⟨s, [], rfl, h⟩
  | succ n ih =>
    obtain ⟨t, events, hTrace, hHere⟩ := ih (lt_of_succ_lt hRoom)
    obtain ⟨t', hStep, hNext⟩ := hHere.next hRoom
    refine ⟨t', events ++ [.rewarded (n + 1)], ?_, hNext⟩
    rw [List.range_succ, List.map_append, trace_append_eq_ok]
    refine ⟨t, events, _, hTrace, ?_, rfl⟩
    simp [trace, hStep]

theorem twoAttesters_genesis (finalityPeriod : Nat) :
    ∃ start, initModule (twoAttesters finalityPeriod) attestersBank = some start ∧
      start.incentives.bondedAttesters (1 : Nat) = some 10 ∧
      start.incentives.rollupFinalityPeriod = finalityPeriod ∧
      (start.beginExitAttester (1 : Nat)).CanRefund (1 : Nat) 10 ∧
      AttestedUpTo finalityPeriod 0 (start.beginExitAttester (1 : Nat)) :=
  ⟨_, rfl, rfl, rfl, .inr ⟨show 10 ≤ 20 by decide, show 0 + 10 ≤ amountMax by decide⟩, rfl, rfl, rfl, rfl, rfl, rfl⟩

/-- The request to leave, again and again: from the second time on it does nothing. -/
def requestsToLeave (s : AttesterState testSpec) (sender : testSpec.Address) : AttesterRun testAttesters where
  states
    | 0 => s
    | _ + 1 => s.beginExitAttester sender
  operations := fun _ => .call sender .beginExitAttester
  events := fun _ => .nothing
  performs
    | 0 => rfl
    | _ + 1 => by
        have hAgain : (s.beginExitAttester sender).beginExitAttester sender = s.beginExitAttester sender := by
          unfold beginExitAttester
          cases hBonded : s.incentives.bondedAttesters sender with
          | none => simp [hBonded]
          | some bond => simp [withIncentives, setBonded, setUnbonding]
        exact congrArg (fun t => ok (t, AttesterEvent.nothing)) hAgain

/-- Without a finality period the attester leaves with its bond. -/
theorem exit_without_period_completes :
    ∃ start, initModule (twoAttesters 0) attestersBank = some start ∧
      start.incentives.bondedAttesters (1 : Nat) = some 10 ∧
      ∃ n, 0 < n ∧ (requestsToLeave start (1 : Nat)).NoExit (1 : Nat) 0 n ∧
        ∃ s', ((requestsToLeave start (1 : Nat)).states n).call testAttesters (1 : Nat) .exitAttester = .ok s' := by
  obtain ⟨start, hGenesis, hBonded, hPeriod, hRefund, -⟩ := twoAttesters_genesis 0
  have hCompletes := @AttesterRun.exit_completes_iff _ _ (requestsToLeave start (1 : Nat)) (1 : Nat) 10 0 rfl rfl hBonded
  refine ⟨start, hGenesis, hBonded, hCompletes.2.1.mpr ⟨.inl hPeriod, 1, one_pos, ?_, hRefund⟩⟩
  nofun

/-- With a finality period of one, the exit fails after any number of attestations. -/
theorem exit_waits_after_every_attestation :
    ∃ start, initModule (twoAttesters 1) attestersBank = some start ∧
      start.incentives.bondedAttesters (1 : Nat) = some 10 ∧
      ∀ n, n < u64Max → ∃ t events, trace (perform testAttesters) start
          (.call (1 : Nat) .beginExitAttester :: (List.range n).map fun i => quietAttestation (i + 1)) =
            .ok (t, events) ∧
        t.incentives.maximumAttestedHeight = n ∧
        t.call testAttesters (1 : Nat) .exitAttester = .error .unbondingNotFinalized := by
  obtain ⟨start, hGenesis, hBonded, -, -, hLeaves⟩ := twoAttesters_genesis 1
  refine ⟨start, hGenesis, hBonded, fun n hRoom => ?_⟩
  obtain ⟨t, events, hTrace, hEnd⟩ := hLeaves.run hRoom
  refine ⟨t, .nothing :: events, ?_, hEnd.attested, ?_⟩
  · rw [trace_cons_eq_ok]
    exact ⟨_, _, _, rfl, hTrace, rfl⟩
  · have hMode : testAttesters.operatingMode = .optimistic := rfl
    have hEarly : 0 < saturatingAdd u64Max 0 1 := by decide
    simp [call, hMode, exitAttester, hEnd.leaving, hEnd.period, hEnd.finalized, hEarly]

end Example
end SovereignSdk
