import SovereignSdk.AttesterIncentives.Exits

/-! Attestations and challenges over whole runs: which attestations are safe, which slots are rewarded, and
what becomes of the bonds of slashed attesters. -/
namespace SovereignSdk
open Bounded Outcome AttesterIncentives ChainView Nat List

variable {S : Spec} {env : AttesterSpec S}

theorem Gas.value_le {n} (g : GasUnit n) (price : GasPrice n) : Gas.value g price ≤ amountMax := by
  have hFold : ∀ (l : List (Fin n)) (start : Nat), start ≤ amountMax →
      l.foldl (fun sum i => saturatingAdd amountMax sum (saturatingMul amountMax (g i) (price i))) start ≤
        amountMax := by
    intro l
    induction l with
    | nil => exact fun _ hStart => hStart
    | cons i rest ih => exact fun _ _ => ih _ (min_le_right _ _)
  exact hFold _ 0 (zero_le _)

/-- The heights are in order, with a next one to attest, and the pools fit their type. -/
structure AttesterIncentives.Consistent (m : AttesterIncentives S) : Prop where
  finalized : m.lightClientFinalizedHeight ≤ m.maximumAttestedHeight
  room : m.maximumAttestedHeight < u64Max
  pool : ∀ n owed, m.badTransitionPool n = some owed → owed ≤ amountMax

/-- What the chain has recorded for the claimed slot is what the attestation says. -/
def ChainView.Records (chain : ChainView S) (attestation : Attestation env) : Prop :=
  ∃ slot next, chain.slots attestation.claimedSlotNumber = some slot ∧
    chain.slots (attestation.claimedSlotNumber + 1) = some next ∧
    attestation.initialStateRoot = slot.prevStateRoot ∧ attestation.slotHash = slot.slotHash ∧
    attestation.postStateRoot = next.prevStateRoot

/-- The height is one that may be attested: the next one, or one within the finality period before it. -/
def AttesterIncentives.InWindow (m : AttesterIncentives S) (slotNumber : Nat) : Prop :=
  m.maximumAttestedHeight + 1 - m.rollupFinalityPeriod ≤ slotNumber ∧ slotNumber ≤ m.maximumAttestedHeight + 1

def rewardedSlots (events : List AttesterEvent) : List Nat :=
  events.filterMap fun
    | .rewarded slotNumber => some slotNumber
    | _ => none

/-- What a pool owes after an event: one more bond, or nothing once a challenger is paid. -/
def owedAfter (slotNumber : Nat) (owed : Option Nat) : AttesterEvent → Option Nat
  | .invalidated n bond => if n = slotNumber then some (saturatingAdd amountMax (owed.getD 0) bond) else owed
  | .challengerRewarded n => if n = slotNumber then none else owed
  | .rewarded _ => owed
  | .nothing => owed

def EventDue (s t : AttesterState S) (operation : AttesterOperation env) : AttesterEvent → Prop
  | .rewarded n => ∃ chain sender attestation transition reward,
      operation = .attestation chain sender (some attestation) ∧ attestation.claimedSlotNumber = n ∧
      chain.slotAtHeight n = some transition ∧
      env.burnRate.apply (Gas.value transition.gasUsed transition.gasPrice) = some reward ∧
      Bank.Moved s.bank t.bank AttesterState.account (.user sender) S.gasTokenId reward
  | .invalidated n bond => ∃ chain sender attestation,
      operation = .attestation chain sender (some attestation) ∧ attestation.claimedSlotNumber = n ∧
      s.incentives.bondedAttesters sender = some bond ∧ t.incentives.bondedAttesters sender = none
  | .challengerRewarded n => ∃ chain sender proof owed reward,
      operation = .challenge chain sender proof n ∧ s.incentives.badTransitionPool n = some owed ∧
      env.burnRate.apply owed = some reward ∧
      Bank.Moved s.bank t.bank AttesterState.account (.user sender) S.gasTokenId reward
  | .nothing => t.incentives.maximumAttestedHeight = s.incentives.maximumAttestedHeight ∧
      t.incentives.badTransitionPool = s.incentives.badTransitionPool

theorem range'_succ_append {a b c} (hab : a ≤ b) (hbc : b ≤ c) :
    range' (a + 1) (b - a) ++ range' (b + 1) (c - b) = range' (a + 1) (c - a) := by
  have hStart : b + 1 = a + 1 + (b - a) := by omega
  have hCount : c - a = b - a + (c - b) := by omega
  rw [hCount, ← range'_append_1, ← hStart]

namespace AttesterState
variable {s t : AttesterState S} {sender : S.Address}

namespace Step
variable {operation : AttesterOperation env} {event : AttesterEvent}

section
variable (h : Step s operation t event)
include h

theorem due : EventDue s t operation event := by
  cases h with
  | unchanged | slashed | challengerSlashed | otherModules => exact ⟨rfl, rfl⟩
  | called hCall => exact ⟨(call_frame hCall).attested, (call_frame hCall).pool⟩
  | invalidated hBonded => exact ⟨_, _, _, rfl, rfl, hBonded, Function.update_self ..⟩
  | rewarded _ _ hSlot hReward hPaid =>
    exact ⟨_, _, _, _, _, rfl, rfl, hSlot, hReward, (transferTokensToSender_ok hPaid).2⟩
  | challengerRewarded hPool hReward hPaid =>
    exact ⟨_, _, _, _, _, rfl, hPool, hReward, (transferTokensToSender_ok hPaid).2⟩

theorem finalized : t.incentives.lightClientFinalizedHeight = s.incentives.lightClientFinalizedHeight := by
  cases h with
  | called hCall => exact (call_frame hCall).finalized
  | rewarded _ _ _ _ hPaid => rw [(transferTokensToSender_ok hPaid).1, withIncentives]
  | challengerRewarded _ _ hPaid =>
    rw [(transferTokensToSender_ok hPaid).1]
    rfl
  | _ => rfl

theorem attested :
    s.incentives.maximumAttestedHeight ≤ t.incentives.maximumAttestedHeight ∧
      rewardedSlots [event] = range' (s.incentives.maximumAttestedHeight + 1)
        (t.incentives.maximumAttestedHeight - s.incentives.maximumAttestedHeight) := by
  have hCases : t.incentives.maximumAttestedHeight = s.incentives.maximumAttestedHeight ∧ rewardedSlots [event] = [] ∨
      t.incentives.maximumAttestedHeight = s.incentives.maximumAttestedHeight + 1 ∧
        rewardedSlots [event] = [s.incentives.maximumAttestedHeight + 1] := by
    cases h with
    | called hCall => exact .inl ⟨(call_frame hCall).attested, rfl⟩
    | rewarded hNext _ _ _ hPaid =>
      refine .inr ⟨?_, congrArg (fun n => [n]) hNext⟩
      rw [(transferTokensToSender_ok hPaid).1, withIncentives, hNext]
    | challengerRewarded _ _ hPaid =>
      refine .inl ⟨?_, rfl⟩
      rw [(transferTokensToSender_ok hPaid).1]
      rfl
    | _ => exact .inl ⟨rfl, rfl⟩
  obtain ⟨hHeight, hSlots⟩ | ⟨hHeight, hSlots⟩ := hCases
  · rw [hHeight, hSlots, Nat.sub_self]
    exact ⟨le_refl _, rfl⟩
  · rw [hHeight, hSlots, Nat.add_sub_cancel_left]
    exact ⟨le_succ _, rfl⟩

theorem pool (n : Nat) : t.incentives.badTransitionPool n = owedAfter n (s.incentives.badTransitionPool n) event := by
  cases h with
  | called hCall => rw [(call_frame hCall).pool, owedAfter]
  | @invalidated _ _ attestation bond hBonded =>
    by_cases hSlot : attestation.claimedSlotNumber = n
    · simp [withIncentives, slashAndInvalidateAttestation, slashAttester, setPool, owedAfter, hSlot, hBonded]
    · simp [withIncentives, slashAndInvalidateAttestation, slashAttester,
        setPool, setBonded, setUnbonding, owedAfter, hSlot,
        Function.update_of_ne (Ne.symm hSlot)]
  | rewarded _ _ _ _ hPaid => rw [(transferTokensToSender_ok hPaid).1, withIncentives, owedAfter]
  | @challengerRewarded _ _ _ height _ _ _ _ _ hPaid =>
    rw [withIncentives, (transferTokensToSender_ok hPaid).1]
    by_cases hSlot : height = n
    · simp [setPool, owedAfter, hSlot]
    · simp [setPool, owedAfter, hSlot, Function.update_of_ne (Ne.symm hSlot)]
  | _ => rfl

end

theorem consistent (hs : s.incentives.Consistent) (h : Step s operation t event) : t.incentives.Consistent := by
  have hGrows := h.attested.1
  have hFinal := h.finalized
  have hPool := h.pool
  refine ⟨?_, ?_, ?_⟩
  · rw [hFinal]
    exact hs.finalized.trans hGrows
  · cases h with
    | called hCall => rw [(call_frame hCall).attested]; exact hs.room
    | rewarded _ hRoom _ _ hPaid =>
      rw [(transferTokensToSender_ok hPaid).1]
      exact hRoom
    | challengerRewarded _ _ hPaid =>
      rw [(transferTokensToSender_ok hPaid).1]
      exact hs.room
    | _ => exact hs.room
  · intro n owed hOwed
    rw [hPool n] at hOwed
    cases event with
    | invalidated m bond =>
      simp only [owedAfter] at hOwed
      split at hOwed
      · cases hOwed
        exact min_le_right _ _
      · exact hs.pool n owed hOwed
    | challengerRewarded m =>
      simp only [owedAfter] at hOwed
      split at hOwed
      · cases hOwed
      · exact hs.pool n owed hOwed
    | rewarded | nothing => exact hs.pool n owed hOwed

end Step

variable {chain : ChainView S}

theorem checkBondingProof_visible {m attestation} (h : checkBondingProof env chain m sender attestation = .ok ()) :
    attestation.claimedSlotNumber ≠ 0 ∧ attestation.claimedSlotNumber + 1 ≤ u64Max ∧
      attestation.claimedSlotNumber + 1 ≤ chain.visibleSlotNumber := by
  unfold checkBondingProof at h
  split at h
  · cases h
  rename_i hClaim
  simp only [bind_eq_ok, unwrap_eq_ok] at h
  obtain ⟨root, hRoot, -⟩ := h
  simp only [rootAtHeight, bind, Option.bind_eq_some_iff, checkedAdd_eq_some] at hRoot
  obtain ⟨next, ⟨hRoom, rfl⟩, slot, hSlot, -⟩ := hRoot
  refine ⟨hClaim, hRoom, not_lt.mp fun hHidden => ?_⟩
  rw [slotAtHeight, if_pos hHidden] at hSlot
  cases hSlot

section Recorded
variable {chain : ChainView S} {attestation : Attestation env}

theorem checkInitialHash_of_records (hRec : chain.Records attestation)
    (hClaim : attestation.claimedSlotNumber ≠ 0) (hRoom : attestation.claimedSlotNumber + 1 ≤ u64Max)
    (hVis : attestation.claimedSlotNumber + 1 ≤ chain.visibleSlotNumber) :
    checkInitialHash env chain attestation = .ok .valid := by
  obtain ⟨slot, next, hSlot, -, hInit, -⟩ := hRec
  have hPrev := checkedSub_eq_some.mpr ⟨one_le_iff_ne_zero.mpr hClaim, rfl⟩
  have hNext : checkedAdd u64Max (attestation.claimedSlotNumber - 1) 1 = some attestation.claimedSlotNumber :=
    checkedAdd_eq_some.mpr ⟨by omega, by omega⟩
  have hHere : chain.slotAtHeight attestation.claimedSlotNumber = some slot := by
    rw [slotAtHeight, if_neg (by omega), hSlot]
  have hRoot : chain.rootAtHeight (attestation.claimedSlotNumber - 1) = some slot.prevStateRoot := by
    simp [rootAtHeight, hNext, hHere]
  simp only [checkInitialHash, hPrev, unwrap_some, ok_bind, hRoot, hInit, ne_eq, not_true_eq_false]
  rfl

theorem checkTransition_of_records (hRec : chain.Records attestation)
    (hRoom : attestation.claimedSlotNumber + 1 ≤ u64Max)
    (hVis : attestation.claimedSlotNumber + 1 ≤ chain.visibleSlotNumber) :
    checkTransition env chain attestation = .valid := by
  obtain ⟨slot, next, hSlot, hNextSlot, -, hHash, hPost⟩ := hRec
  have hNext := checkedAdd_eq_some.mpr ⟨hRoom, rfl⟩
  have hHere : chain.slotAtHeight attestation.claimedSlotNumber = some slot := by
    rw [slotAtHeight, if_neg (by omega), hSlot]
  have hAfter : chain.slotAtHeight (attestation.claimedSlotNumber + 1) = some next := by
    rw [slotAtHeight, if_neg (not_lt.mpr hVis), hNextSlot]
  simp [checkTransition, getHistoricalTransitionDangerous, hNext, hHere, hAfter, hHash, hPost]

/-- The three checks read different slots; a valid bonding proof shows that all of them are visible. -/
theorem processAttestation_of_records {bond} (hs : s.incentives.Consistent)
    (hMode : env.operatingMode = .optimistic) (hBonded : s.incentives.bondedAttesters sender = some bond)
    (hProof : checkBondingProof env chain s.incentives sender attestation = .ok ())
    (hWindow : s.incentives.InWindow attestation.claimedSlotNumber) (hRec : chain.Records attestation) :
    s.processAttestation env chain sender (some attestation) =
      if attestation.claimedSlotNumber = s.incentives.maximumAttestedHeight + 1 then
        s.rewardAttester env chain sender attestation (s.incentives.maximumAttestedHeight + 1)
      else .ok (s, .ok attestation) := by
  obtain ⟨hClaim, hRoom, hVis⟩ := checkBondingProof_visible hProof
  rw [processAttestation_of_bonded hMode hClaim hBonded hProof]
  exact processBondedAttestation_of_valid hs.finalized hs.room hWindow.1 hWindow.2
    (checkInitialHash_of_records hRec hClaim hRoom hVis)
    (checkTransition_of_records hRec hRoom hVis)

end Recorded

theorem rewardAttester_returns {attestation n transition} (hSlot : chain.slotAtHeight n = some transition) :
    ∃ t result, s.rewardAttester env chain sender attestation n = .ok (t, result) ∧
      ∀ reason, result ≠ .error (.attesterSlashedNoRevert reason) := by
  obtain ⟨reward, hReward, -⟩ := env.burnRate.apply_of_le (Gas.value_le transition.gasUsed transition.gasPrice)
  simp only [rewardAttester, hSlot, hReward, unwrap_some, ok_bind]
  split
  · exact ⟨_, _, rfl, fun _ => by simp⟩
  · exact ⟨_, _, rfl, fun _ => by simp⟩

section
variable (hs : s.incentives.Consistent)
include hs

theorem processBondedAttestation_returns {attestation} (hClaim : attestation.claimedSlotNumber ≠ 0) :
    ∃ r, s.processBondedAttestation env chain sender attestation = .ok r := by
  have hHeight : checkedAdd u64Max s.incentives.maximumAttestedHeight 1 =
      some (s.incentives.maximumAttestedHeight + 1) := checkedAdd_eq_some.mpr ⟨hs.room, rfl⟩
  have hEnsure : ensure AttesterPanic.finalizedAboveAttested
      (s.incentives.lightClientFinalizedHeight ≤ s.incentives.maximumAttestedHeight) = .ok () := if_pos hs.finalized
  simp only [processBondedAttestation, hEnsure, hHeight, unwrap_some, ok_bind]
  split
  · exact ⟨_, rfl⟩
  split
  · exact ⟨_, rfl⟩
  have hInit : ∃ status, checkInitialHash env chain attestation = .ok status := by
    have hPrev : checkedSub attestation.claimedSlotNumber 1 = some (attestation.claimedSlotNumber - 1) :=
      checkedSub_eq_some.mpr ⟨one_le_iff_ne_zero.mpr hClaim, rfl⟩
    simp only [checkInitialHash, hPrev, unwrap_some, ok_bind]
    split <;> exact ⟨_, rfl⟩
  obtain ⟨status, hStat⟩ := hInit
  rw [hStat]
  cases status with
  | slash => exact ⟨_, rfl⟩
  | valid =>
    cases hTrans : checkTransition env chain attestation with
    | slashedNoHistoricalTransition | slashInvalidateWrongHash => exact ⟨_, rfl⟩
    | valid =>
      dsimp only
      split
      · rename_i hNext
        obtain ⟨transition, hHistorical⟩ := checkTransition_valid hTrans
        obtain ⟨t, result, hReward, -⟩ :=
          @rewardAttester_returns S env s sender chain attestation _ _
            (hNext ▸ (historicalTransition_room hHistorical).2)
        exact ⟨_, hReward⟩
      · exact ⟨_, rfl⟩

theorem processAttestation_returns (chain : ChainView S)
    (serialized : Option (Attestation env)) : ∃ r, s.processAttestation env chain sender serialized = .ok r := by
  unfold processAttestation
  split
  · exact ⟨_, rfl⟩
  cases serialized with
  | none => exact ⟨_, rfl⟩
  | some attestation =>
    dsimp only
    split
    · exact ⟨_, rfl⟩
    rename_i hClaim
    split
    · exact ⟨_, rfl⟩
    split
    · exact ⟨_, rfl⟩
    · exact processBondedAttestation_returns hs hClaim

theorem processChallenge_returns (chain : ChainView S) (proof : List UInt8)
    (height : Nat) : ∃ r, s.processChallenge env chain sender proof height = .ok r := by
  unfold processChallenge
  split
  · exact ⟨_, rfl⟩
  split
  · exact ⟨_, rfl⟩
  split
  · exact ⟨_, rfl⟩
  split
  · exact ⟨_, rfl⟩
  rename_i owed hOwed
  split
  · exact ⟨_, rfl⟩
  split
  · exact ⟨_, rfl⟩
  obtain ⟨reward, hReward, -⟩ := env.burnRate.apply_of_le (hs.pool height owed hOwed)
  simp only [rewardChallenger, hReward, unwrap_some, ok_bind]
  split <;> exact ⟨_, rfl⟩

theorem perform_returns (operation : AttesterOperation env) :
    ∃ t event, s.perform env operation = .ok (t, event) := by
  cases operation with
  | call sender message =>
    simp only [perform]
    split <;> exact ⟨_, _, rfl⟩
  | attestation chain sender serialized =>
    obtain ⟨⟨after, result⟩, hProc⟩ := @processAttestation_returns S env s sender hs chain serialized
    simp only [perform, hProc]
    exact ⟨_, _, rfl⟩
  | challenge chain sender proof height =>
    obtain ⟨⟨after, result⟩, hProc⟩ := @processChallenge_returns S env s sender hs chain proof height
    simp only [perform, hProc, ok_bind]
    split <;> exact ⟨_, _, rfl⟩
  | otherModules bank => exact ⟨_, _, rfl⟩

/-- An attestation to what the chain has recorded is not slashed, whoever sends it. -/
theorem processAttestation_safe {attestation}
    (hProof : checkBondingProof env chain s.incentives sender attestation = .ok ())
    (hWindow : s.incentives.InWindow attestation.claimedSlotNumber) (hRec : chain.Records attestation) :
    ∃ t result, s.processAttestation env chain sender (some attestation) = .ok (t, result) ∧
      ∀ reason, result ≠ .error (.attesterSlashedNoRevert reason) := by
  by_cases hMode : env.operatingMode ≠ .optimistic
  · exact ⟨s, .error .invalidOperatingMode, if_pos hMode, fun _ => by simp⟩
  cases hBonded : s.incentives.bondedAttesters sender with
  | none =>
    refine ⟨s, .error .attesterNotBonded, ?_, fun _ => by simp⟩
    simp only [processAttestation, if_neg hMode, if_neg (checkBondingProof_visible hProof).1, hBonded]
  | some bond =>
    rw [processAttestation_of_records hs (not_not.mp hMode) hBonded hProof hWindow hRec]
    split
    · rename_i hNext
      obtain ⟨slot, -, hSlot, -⟩ := hRec
      have hVis := (checkBondingProof_visible hProof).2.2
      have hHere : chain.slotAtHeight (s.incentives.maximumAttestedHeight + 1) = some slot := by
        rw [← hNext, slotAtHeight, if_neg (by omega), hSlot]
      exact rewardAttester_returns hHere
    · exact ⟨_, _, rfl, fun _ => by simp⟩

/-- Induction over the run: the rewarded slots and the pools after it. -/
theorem trace_accounts (operations : List (AttesterOperation env)) :
    ∃ t events, trace (perform env) s operations = .ok (t, events) ∧ t.incentives.Consistent ∧
      s.incentives.maximumAttestedHeight ≤ t.incentives.maximumAttestedHeight ∧
      rewardedSlots events = range' (s.incentives.maximumAttestedHeight + 1)
        (t.incentives.maximumAttestedHeight - s.incentives.maximumAttestedHeight) ∧
      ∀ n, t.incentives.badTransitionPool n = events.foldl (owedAfter n) (s.incentives.badTransitionPool n) := by
  induction operations generalizing s with
  | nil =>
    refine ⟨s, [], rfl, hs, le_refl _, ?_, fun _ => rfl⟩
    rw [Nat.sub_self]
    rfl
  | cons operation rest ih =>
    obtain ⟨mid, event, hHere⟩ := perform_returns hs operation
    have hStep := perform_step hHere
    obtain ⟨t, events, hRest, ht, hLe, hSlots, hPools⟩ := ih (hStep.consistent hs)
    obtain ⟨hGrows, hSlot⟩ := hStep.attested
    refine ⟨t, event :: events, trace_cons_eq_ok.mpr ⟨mid, event, events, hHere, hRest, rfl⟩, ht,
      hGrows.trans hLe, ?_, ?_⟩
    · have hCons : rewardedSlots (event :: events) = rewardedSlots [event] ++ rewardedSlots events :=
        filterMap_append (l := [event]) ..
      rw [hCons, hSlot, hSlots, range'_succ_append hGrows hLe]
    · intro n
      rw [foldl_cons, ← hStep.pool n]
      exact hPools n

end

theorem initModule_heights {config bank} (h : initModule config bank = some s) :
    s.incentives.maximumAttestedHeight = config.maximumAttestedHeight ∧
      s.incentives.lightClientFinalizedHeight = config.lightClientFinalizedHeight ∧
      s.incentives.badTransitionPool = fun _ => none := by
  have hFold : ∀ (attesters : List (S.Address × Amount)) (first : AttesterState S),
      attesters.foldlM (fun s attester => (s.registerAttester attester.1 attester.2).toOption) first = some s →
      s.incentives.maximumAttestedHeight = first.incentives.maximumAttestedHeight ∧
        s.incentives.lightClientFinalizedHeight = first.incentives.lightClientFinalizedHeight ∧
        s.incentives.badTransitionPool = first.incentives.badTransitionPool := by
    intro attesters
    induction attesters with
    | nil =>
      intro first hAll
      cases hAll
      exact ⟨rfl, rfl, rfl⟩
    | cons attester rest ih =>
      intro first hAll
      obtain ⟨next, hFirst, hRest⟩ := Option.bind_eq_some_iff.mp hAll
      have hNext : next.incentives = first.incentives.setBonded attester.1 (some attester.2) := by
        cases hRegister : first.registerAttester attester.1 attester.2 with
        | error e => simp [hRegister, Except.toOption] at hFirst
        | ok after =>
          simp only [hRegister, Except.toOption, Option.some.injEq] at hFirst
          exact hFirst ▸ (registerAttester_ok hRegister).2
      have hLater := ih next hRest
      rw [hNext] at hLater
      exact hLater
  unfold initModule at h
  split at h
  · cases h
  · exact hFold _ _ h

/-- Where genesis puts the heights in order, no operation panics. After any of them an attestation to what
the chain has recorded is not slashed, the slots were rewarded one after another, a pool owes the bonds
that were added to it since it was last paid, and each event is as it should be. -/
theorem attestations_settle {config : AttesterIncentivesConfig S} {bank : Bank S}
    (hGenesis : initModule config bank = some s)
    (hHeights : config.lightClientFinalizedHeight ≤ config.maximumAttestedHeight)
    (hRoom : config.maximumAttestedHeight < u64Max) (operations : List (AttesterOperation env)) :
    ∃ t events, trace (perform env) s operations = .ok (t, events) ∧ (∀ chain sender (attestation : Attestation env),
        checkBondingProof env chain t.incentives sender attestation = .ok () →
        t.incentives.InWindow attestation.claimedSlotNumber → chain.Records attestation →
        ∃ t' result, t.processAttestation env chain sender (some attestation) = .ok (t', result) ∧
          ∀ reason, result ≠ .error (.attesterSlashedNoRevert reason)) ∧
      rewardedSlots events = range' (config.maximumAttestedHeight + 1)
        (t.incentives.maximumAttestedHeight - config.maximumAttestedHeight) ∧
      (∀ n, t.incentives.badTransitionPool n = events.foldl (owedAfter n) none) ∧
      ∀ (operation : AttesterOperation env) t' event, t.perform env operation = .ok (t', event) →
        EventDue t t' operation event := by
  obtain ⟨hAttested, hFinalized, hPool⟩ := initModule_heights hGenesis
  have hs : s.incentives.Consistent := by
    refine ⟨?_, ?_, ?_⟩
    · rw [hAttested, hFinalized]
      exact hHeights
    · rw [hAttested]
      exact hRoom
    · intro n owed hOwed
      simp [hPool] at hOwed
  obtain ⟨t, events, hTrace, ht, -, hSlots, hPools⟩ := trace_accounts hs operations
  refine ⟨t, events, hTrace, ?_, hAttested ▸ hSlots, ?_, fun _ _ _ hPerform => (perform_step hPerform).due⟩
  · intro chain sender attestation hProof hWindow hRecords
    exact processAttestation_safe ht hProof hWindow hRecords
  · intro n
    rw [hPools n, hPool]

end AttesterState

section Example
open AttesterState

theorem quietChain_records {n} : quietChain.Records (⟨⟨0, 0⟩, 0, ⟨0, 0⟩, n, ()⟩ : Attestation testAttesters) :=
  ⟨_, _, rfl, rfl, rfl, rfl, rfl⟩

/-- The test instance with a verifier that accepts every proof of a transition from the root of the quiet chain. -/
def challengedAttesters : AttesterSpec testSpec := { testAttesters with verify := fun _ => some ⟨⟨0, 0⟩, 0⟩ }

/-- The attester of the first slot is rewarded and slashed for a false root of the second one; user 3 challenges it and
is paid from the pool. -/
def challengedRun : List (AttesterOperation challengedAttesters) :=
  [.attestation quietChain (2 : Nat) (some ⟨⟨0, 0⟩, 0, ⟨0, 0⟩, 1, ()⟩),
    .attestation quietChain (2 : Nat) (some ⟨⟨0, 0⟩, 0, ⟨9, 9⟩, 2, ()⟩),
    .call (3 : Nat) (.registerChallenger 5), .challenge quietChain (3 : Nat) [] 2]

/-- The pool of the challenged slot is paid out and gone. -/
theorem challenged_slot_settles :
    ∃ start t events, initModule (twoAttesters 1) (attestersBank.setBalance (.user (3 : Nat)) testSpec.gasTokenId 10) =
        some start ∧ trace (perform challengedAttesters) start challengedRun = .ok (t, events) ∧
      events = [.rewarded 1, .invalidated 2 10, .nothing, .challengerRewarded 2] ∧ rewardedSlots events = [1] ∧
      t.incentives.badTransitionPool 2 = none := by
  simp only [exists_and_left]
  refine exists_and_of rfl fun hGenesis => ?_
  obtain ⟨t, events, hTrace, -, hSlots, hPools, -⟩ := @attestations_settle testSpec challengedAttesters _ (twoAttesters 1)
    _ hGenesis (by decide) (by decide) challengedRun
  refine ⟨t, events, hTrace, ?_, hSlots.trans ?_, (hPools 2).trans ?_⟩
  all_goals
    cases hTrace
    rfl

/-- A genesis whose finalized height is above the attested one is accepted, and the first attestation to
what the chain has recorded panics. -/
theorem misordered_heights_panic :
    ∃ start, initModule { twoAttesters 1 with lightClientFinalizedHeight := 1 } attestersBank = some start ∧
      start.incentives.bondedAttesters (2 : Nat) = some 10 ∧
      checkBondingProof testAttesters quietChain start.incentives (2 : Nat) ⟨⟨0, 0⟩, 0, ⟨0, 0⟩, 1, ()⟩ = .ok () ∧
      start.incentives.InWindow 1 ∧
      quietChain.Records (⟨⟨0, 0⟩, 0, ⟨0, 0⟩, 1, ()⟩ : Attestation testAttesters) ∧
      start.processAttestation testAttesters quietChain (2 : Nat) (some ⟨⟨0, 0⟩, 0, ⟨0, 0⟩, 1, ()⟩) =
        .error .finalizedAboveAttested := by
  refine ⟨_, rfl, rfl, quietAttestation_bonded _ rfl (by decide), ⟨by decide, by decide⟩, quietChain_records, ?_⟩
  exact processAttestation_of_bonded rfl (by decide) rfl (quietAttestation_bonded _ rfl (by decide))

end Example
end SovereignSdk
