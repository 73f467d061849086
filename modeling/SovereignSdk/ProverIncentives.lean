import SovereignSdk.AttesterIncentives

/-! The prover incentives: provers claim the gas fees of slots with aggregated proofs. One marker says up to which
slot the rewards have been claimed. -/
namespace SovereignSdk
open Bounded Outcome

inductive ProverPanic where
  | slotNumberOverflow
  | gasTokenOverflow
deriving DecidableEq

structure AggregatedProofPublicData where
  initialSlotNumber : Nat
  finalSlotNumber : Nat
  genesisStateRoot : StorageRoot
  initialStateRoot : StorageRoot
  finalStateRoot : StorageRoot
  initialSlotHash : Hash
  finalSlotHash : Hash

inductive Paycheck where
  | penalized
  | rewarded (totalReward : Nat)

namespace ProverIncentives

inductive SlashingReason where
  | incorrectGenesisHash
  | initialTransitionDoesNotExist
  | incorrectInitialStateRoot
  | incorrectInitialSlotHash
  | finalTransitionDoesNotExist
  | incorrectFinalSlotHash
  | incorrectFinalStateRoot
deriving DecidableEq

variable {S : Spec}

def checkProofOutputs (genesisHash : StorageRoot) (chain : ChainView S) (outputs : AggregatedProofPublicData) :
    Option SlashingReason :=
  if genesisHash ≠ outputs.genesisStateRoot then some .incorrectGenesisHash
  else
    match chain.slotAtHeight outputs.initialSlotNumber with
    | none => some .initialTransitionDoesNotExist
    | some initialSlot =>
      if initialSlot.prevStateRoot ≠ outputs.initialStateRoot then some .incorrectInitialStateRoot
      else if initialSlot.slotHash ≠ outputs.initialSlotHash then some .incorrectInitialSlotHash
      else
        match chain.getHistoricalTransitionDangerous outputs.finalSlotNumber with
        | none => some .finalTransitionDoesNotExist
        | some (slot, postStateRoot) =>
          if slot.slotHash ≠ outputs.finalSlotHash then some .incorrectFinalSlotHash
          else if postStateRoot ≠ outputs.finalStateRoot then some .incorrectFinalStateRoot
          else none

/-- The slots whose rewards a proof claims: none if the proof ends before the first of them. -/
def claimedSlots (lastClaimedReward initSlotNum finalSlotNum : Nat) : List Nat :=
  let firstClaimedReward := max initSlotNum (lastClaimedReward + 1)
  List.range' firstClaimedReward (finalSlotNum + 1 - firstClaimedReward)

def addReward (chain : ChainView S) (totalReward slotNum : Nat) : Except ProverPanic Nat :=
  match chain.slotAtHeight slotNum with
  | none => .ok totalReward
  | some transition =>
    unwrap .gasTokenOverflow (checkedAdd amountMax totalReward (Gas.value transition.gasUsed transition.gasPrice))

def calculateRewardAndRemove (chain : ChainView S) (lastClaimedReward initSlotNum finalSlotNum : Nat) :
    Except ProverPanic (Nat × Paycheck) := do
  let firstAvailableReward ← unwrap .slotNumberOverflow (checkedAdd u64Max lastClaimedReward 1)
  let totalReward ← (claimedSlots lastClaimedReward initSlotNum finalSlotNum).foldlM (addReward chain) 0
  return (max firstAvailableReward finalSlotNum,
    if finalSlotNum < max initSlotNum firstAvailableReward then .penalized else .rewarded totalReward)

/-- The marker, with the slots that have been paid for so far. -/
structure RewardClaims where
  lastClaimedReward : Nat
  paidSlots : List Nat

def genesisClaims : RewardClaims := ⟨0, []⟩

/-- A verified proof, with what the chain shows when it is processed and the rewards that the module can then pay. -/
structure VerifiedProof (S : Spec) where
  chain : ChainView S
  outputs : AggregatedProofPublicData
  canPay : Nat → Bool

variable (genesisHash : StorageRoot) (s : RewardClaims) (proof : VerifiedProof S)

def paycheck : Except ProverPanic (Nat × Paycheck) :=
  calculateRewardAndRemove proof.chain s.lastClaimedReward proof.outputs.initialSlotNumber proof.outputs.finalSlotNumber

/-- A prover whose outputs are wrong is slashed, and claims nothing. A reward that cannot be transferred is a failure
after which the state is reverted. -/
def processProof : Except ProverPanic RewardClaims :=
  if checkProofOutputs genesisHash proof.chain proof.outputs ≠ none then .ok s
  else do
    match ← paycheck s proof with
    | (lastClaimedReward, .penalized) => return ⟨lastClaimedReward, s.paidSlots⟩
    | (lastClaimedReward, .rewarded totalReward) =>
      if proof.canPay totalReward then
        return ⟨lastClaimedReward, s.paidSlots ++
          claimedSlots s.lastClaimedReward proof.outputs.initialSlotNumber proof.outputs.finalSlotNumber⟩
      else return s

def Claimable (slot : Nat) : Prop :=
  ∃ initSlotNum finalSlotNum, slot ∈ claimedSlots s.lastClaimedReward initSlotNum finalSlotNum

/-- The outputs are right, but the proof ends before the first slot that it could claim. -/
def Penalized : Prop :=
  checkProofOutputs genesisHash proof.chain proof.outputs = none ∧ s.lastClaimedReward < u64Max ∧
    proof.outputs.finalSlotNumber < max proof.outputs.initialSlotNumber (s.lastClaimedReward + 1)

/-- Slots are lost to other provers only through a reward that is paid, and up to the final slot of the proof. -/
def ClaimsByReward : Prop :=
  ∀ s', processProof genesisHash s proof = .ok s' → ∀ slot, Claimable s slot → ¬Claimable s' slot →
    slot ≤ proof.outputs.finalSlotNumber ∧
      ∃ last total, paycheck s proof = .ok (last, .rewarded total) ∧ proof.canPay total = true

theorem mem_claimedSlots {last init final slot} :
    slot ∈ claimedSlots last init final ↔ last < slot ∧ init ≤ slot ∧ slot ≤ final := by
  rw [claimedSlots, List.mem_range'_1]
  omega

variable {genesisHash s proof}

theorem claimable_iff {slot} : Claimable s slot ↔ s.lastClaimedReward < slot :=
  ⟨fun ⟨_, _, h⟩ => (mem_claimedSlots.mp h).1, fun h => ⟨slot, slot, mem_claimedSlots.mpr ⟨h, le_rfl, le_rfl⟩⟩⟩

theorem paycheck_ok {last pay} (h : paycheck s proof = .ok (last, pay)) :
    s.lastClaimedReward < u64Max ∧ last = max (s.lastClaimedReward + 1) proof.outputs.finalSlotNumber ∧
      (pay = .penalized ↔
        proof.outputs.finalSlotNumber < max proof.outputs.initialSlotNumber (s.lastClaimedReward + 1)) := by
  simp only [paycheck, calculateRewardAndRemove, bind_eq_ok, pure_eq_ok, unwrap_eq_ok, checkedAdd_eq_some,
    Prod.mk.injEq] at h
  obtain ⟨_, ⟨hNext, rfl⟩, total, -, rfl, rfl⟩ := h
  refine ⟨hNext, rfl, ?_⟩
  split
  · exact iff_of_true rfl ‹_›
  · exact iff_of_false (by simp) ‹_›

/-- A proof that is penalized has no slots to add up, so that it moves the marker without fail. -/
theorem Penalized.processProof (h : Penalized genesisHash s proof) :
    processProof genesisHash s proof =
      .ok ⟨max (s.lastClaimedReward + 1) proof.outputs.finalSlotNumber, s.paidSlots⟩ := by
  obtain ⟨hChk, hNext, hEnds⟩ := h
  have hNone : claimedSlots s.lastClaimedReward proof.outputs.initialSlotNumber proof.outputs.finalSlotNumber = [] := by
    rw [claimedSlots, Nat.sub_eq_zero_of_le hEnds]
    rfl
  have hPay : paycheck s proof = .ok (max (s.lastClaimedReward + 1) proof.outputs.finalSlotNumber, .penalized) := by
    rw [paycheck, calculateRewardAndRemove, checkedAdd_eq_some.mpr ⟨hNext, rfl⟩, hNone]
    simp only [unwrap_some, ok_bind, List.foldlM_nil, pure_bind, if_pos hEnds]
    rfl
  rw [ProverIncentives.processProof, if_neg (not_not.mpr hChk), hPay]
  rfl

theorem processProof_ok {s'} (h : processProof genesisHash s proof = .ok s') :
    s' = s ∨ Penalized genesisHash s proof ∨ ∃ total, paycheck s proof = .ok (s'.lastClaimedReward, .rewarded total) ∧
      proof.canPay total = true ∧ s'.paidSlots = s.paidSlots ++
        claimedSlots s.lastClaimedReward proof.outputs.initialSlotNumber proof.outputs.finalSlotNumber := by
  unfold processProof at h
  split at h
  · cases h
    exact .inl rfl
  · rename_i hChk
    obtain ⟨⟨last, pay⟩, hPay, h⟩ := bind_eq_ok.mp h
    cases pay with
    | penalized =>
      obtain ⟨hNext, -, hPenalized⟩ := paycheck_ok hPay
      exact .inr (.inl ⟨not_not.mp hChk, hNext, hPenalized.mp rfl⟩)
    | rewarded total =>
      dsimp only at h
      split at h
      · cases h
        exact .inr (.inr ⟨total, hPay, ‹_›, rfl⟩)
      · cases h
        exact .inl rfl

/-- The marker moves past a slot that nobody has claimed whenever a proof is penalized, and only then. -/
theorem claimsByReward_iff : ClaimsByReward genesisHash s proof ↔ ¬Penalized genesisHash s proof := by
  constructor
  · intro hClaims hPenalized
    obtain ⟨-, last, total, hRewarded, -⟩ := hClaims _ hPenalized.processProof (s.lastClaimedReward + 1)
      (claimable_iff.mpr (Nat.lt_succ_self _)) (by simp only [claimable_iff]; omega)
    cases (paycheck_ok hRewarded).2.2.mpr hPenalized.2.2
  · intro hNot s' hStep slot hBefore hAfter
    rw [claimable_iff] at hBefore hAfter
    rcases processProof_ok hStep with rfl | hPenalized | ⟨total, hPay, hPaid, -⟩
    · exact absurd hBefore hAfter
    · exact absurd hPenalized hNot
    · obtain ⟨-, hLast, hEnds⟩ := paycheck_ok hPay
      have hCovers := mt hEnds.mpr nofun
      exact ⟨by omega, _, total, hPay, hPaid⟩

/-- What has been paid for is not claimable any more. -/
structure PaidOnce (s : RewardClaims) : Prop where
  nodup : s.paidSlots.Nodup
  le : ∀ slot ∈ s.paidSlots, slot ≤ s.lastClaimedReward

theorem PaidOnce.processProof {s'} (h : PaidOnce s)
    (hStep : processProof genesisHash s proof = .ok s') : PaidOnce s' := by
  rcases processProof_ok hStep with rfl | hPenalized | ⟨total, hPay, -, hPaid⟩
  · exact h
  · cases hPenalized.processProof.symm.trans hStep
    refine ⟨h.nodup, fun slot hSlot => (h.le slot hSlot).trans ?_⟩
    dsimp only
    omega
  · obtain ⟨-, hLast, -⟩ := paycheck_ok hPay
    refine ⟨?_, fun slot hSlot => ?_⟩
    · rw [hPaid]
      refine h.nodup.append (List.nodup_range' ..) fun slot hOld hNew => ?_
      exact absurd (h.le slot hOld) (Nat.not_le_of_lt (mem_claimedSlots.mp hNew).1)
    · rw [hPaid, List.mem_append, mem_claimedSlots] at hSlot
      rcases hSlot with hOld | hNew
      · have hLe := h.le slot hOld
        omega
      · omega

/-- For every sequence of verified proofs: no slot is paid for twice, and slots stop being claimable only through a
reward exactly if no proof of the sequence is penalized. -/
theorem claims_by_reward_iff (genesisHash : StorageRoot) (proofs : List (VerifiedProof S)) :
    Yields (fun s => s.paidSlots.Nodup) (fun _ => True) (proofs.foldlM (processProof genesisHash) genesisClaims) ∧
      (Along (processProof genesisHash) (ClaimsByReward genesisHash) genesisClaims proofs ↔
        Along (processProof genesisHash) (fun s proof => ¬Penalized genesisHash s proof) genesisClaims proofs) := by
  refine ⟨.intro (fun s hRun => ?_) fun _ _ => trivial, ?_⟩
  · exact (foldlM_invariant PaidOnce (fun _ _ _ h => h.processProof) ⟨List.nodup_nil, by simp [genesisClaims]⟩ hRun).nodup
  · have hSame : @ClaimsByReward S genesisHash = fun s proof => ¬Penalized genesisHash s proof := by
      funext s proof
      exact propext claimsByReward_iff
    rw [hSame]

def firstSlotProof : VerifiedProof testSpec :=
  ⟨⟨fun _ => some ⟨0, ⟨0, 0⟩, fun _ => 1, fun _ => 1⟩, 3, fun _ => 1⟩, ⟨1, 1, ⟨0, 0⟩, ⟨0, 0⟩, ⟨0, 0⟩, 0, 0⟩, fun _ => true⟩

/-- The same proof once more is penalized, and takes the reward of the second slot with it. -/
theorem repeated_proof_loses_a_slot :
    checkProofOutputs ⟨0, 0⟩ firstSlotProof.chain firstSlotProof.outputs = none ∧
      ∃ s, [firstSlotProof, firstSlotProof].foldlM (processProof ⟨0, 0⟩) genesisClaims = .ok s ∧ s.paidSlots = [1] ∧
        ¬Claimable s 2 :=
  ⟨rfl, _, rfl, rfl, by simp [claimable_iff]⟩

end ProverIncentives
end SovereignSdk
