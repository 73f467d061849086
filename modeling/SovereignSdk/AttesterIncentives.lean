import SovereignSdk.ChainState.Roots
import SovereignSdk.Library.Trace
import SovereignSdk.Transaction

/-! The attester incentives: attesters bond tokens and attest to slots, one after another, for a reward.
The bond of an attester that is slashed for a wrong transition goes to a pool, which a challenger wins. -/
namespace SovereignSdk
open Bounded Outcome Function

/-- `Gas::value`, which saturates. -/
def Gas.value {n : Nat} (g : GasUnit n) (price : GasPrice n) : Nat :=
  (List.finRange n).foldl (fun sum i => saturatingAdd amountMax sum (saturatingMul amountMax (g i) (price i))) 0

structure SlotInformation (S : Spec) where
  slotHash : Hash
  prevStateRoot : StorageRoot
  gasUsed : S.Gas
  gasPrice : S.Price

/-- What the module reads of the chain while it processes a proof. -/
structure ChainView (S : Spec) where
  slots : Nat → Option (SlotInformation S)
  visibleSlotNumber : Nat
  gasPrice : S.Price

namespace ChainView
variable {S : Spec} (chain : ChainView S) (slotNumber : Nat)

/-- A slot that is not visible yet is not found. -/
def slotAtHeight : Option (SlotInformation S) :=
  if chain.visibleSlotNumber < slotNumber then none else chain.slots slotNumber

def rootAtHeight : Option StorageRoot := do
  let nextSlotNumber ← checkedAdd u64Max slotNumber 1
  let slot ← chain.slotAtHeight nextSlotNumber
  return slot.prevStateRoot

/-- The slot with the root after it, which the next slot records. -/
def getHistoricalTransitionDangerous : Option (SlotInformation S × StorageRoot) := do
  let nextSlotNumber ← checkedAdd u64Max slotNumber 1
  let nextSlot ← chain.slotAtHeight nextSlotNumber
  let slot ← chain.slotAtHeight slotNumber
  return (slot, nextSlot.prevStateRoot)

end ChainView

structure StateTransitionPublicData where
  initialStateRoot : StorageRoot
  slotHash : Hash

/-- What the module takes from elsewhere: the constants of the rollup, the proofs of its storage and the
verifier of its zkVM. -/
structure AttesterSpec (S : Spec) where
  operatingMode : OperatingMode
  burnRate : BurnRate
  StorageProof : Type
  SlotKey : Type
  slotKeyDecEq : DecidableEq SlotKey
  /-- The key of an attester in the map of bonded attesters. -/
  bondKey : S.Address → SlotKey
  openProof : StorageRoot → StorageProof → Option (SlotKey × Option (List UInt8))
  decodeAmount : List UInt8 → Option Amount
  verify : List UInt8 → Option StateTransitionPublicData

instance {S : Spec} (env : AttesterSpec S) : DecidableEq env.SlotKey := env.slotKeyDecEq

variable {S : Spec} (env : AttesterSpec S)

structure Attestation where
  initialStateRoot : StorageRoot
  slotHash : Hash
  postStateRoot : StorageRoot
  claimedSlotNumber : Nat
  proofOfBond : env.StorageProof

structure UnbondingInfo where
  unbondingInitiatedHeight : Nat
  amount : Nat
deriving DecidableEq, Repr

structure AttesterIncentives (S : Spec) where
  rollupFinalityPeriod : Nat
  bondedAttesters : S.Address → Option Nat
  unbondingAttesters : S.Address → Option UnbondingInfo
  maximumAttestedHeight : Nat
  badTransitionPool : Nat → Option Nat
  bondedChallengers : S.Address → Option Nat
  minimumAttesterBond : S.Gas
  minimumChallengerBond : S.Gas
  lightClientFinalizedHeight : Nat

structure AttesterState (S : Spec) where
  incentives : AttesterIncentives S
  bank : Bank S

inductive SlashingReason where
  | transitionNotFound
  | transitionInvalid
  | invalidInitialHash
  | invalidZkProof
  | noInvalidTransition
deriving DecidableEq, Repr

inductive ProcessAttestationError where
  | invalidAttestationFormat
  | attesterSlashedNoRevert (reason : SlashingReason)
  | attesterNotBonded
  | invalidBondingProof
  | invalidBondFormat
  | invalidTransitionInvariant
  | rewardTransferFailure (error : BankError)
  | invalidOperatingMode
deriving DecidableEq, Repr

inductive ProcessChallengeError where
  | challengerSlashedNoRevert (reason : SlashingReason)
  | challengerNotBonded
  | rewardTransferFailure (error : BankError)
  | invalidOperatingMode
deriving DecidableEq, Repr

inductive AttesterCallError where
  | invalidOperatingMode
  | attesterIsUnbonding
  | unbondingNotFinalized
  | attesterIsNotUnbonding
  | alreadyRegistered
  | isNotRegistered
  | insufficientFundsToRegister
  | toppingAccountMakesBalanceOverflow
  | insufficientFundsToTopUpAccount
  | insufficientFundsToRefundStakedAmount
deriving DecidableEq, Repr

inductive AttesterPanic where
  | finalizedAboveAttested
  | endOfChain
  | genesisClaimed
  | transitionMissing
  | burnRateOverflow
deriving DecidableEq, Repr

inductive CheckInitialHashStatus where
  | valid
  | slash
deriving DecidableEq, Repr

inductive CheckTransitionStatus where
  | valid
  | slashedNoHistoricalTransition
  | slashInvalidateWrongHash
deriving DecidableEq, Repr

namespace AttesterIncentives
variable (m : AttesterIncentives S) (attester : S.Address)

def setBonded (bond : Option Nat) : AttesterIncentives S :=
  { m with bondedAttesters := update m.bondedAttesters attester bond }

def setUnbonding (info : Option UnbondingInfo) : AttesterIncentives S :=
  { m with unbondingAttesters := update m.unbondingAttesters attester info }

def setChallenger (challenger : S.Address) (bond : Option Nat) : AttesterIncentives S :=
  { m with bondedChallengers := update m.bondedChallengers challenger bond }

def setPool (slotNumber : Nat) (reward : Option Nat) : AttesterIncentives S :=
  { m with badTransitionPool := update m.badTransitionPool slotNumber reward }

/-- The bond is removed, and returned for the pool. -/
def slashAttester (user : S.Address) : AttesterIncentives S × Nat :=
  ((m.setUnbonding user none).setBonded user none, (m.bondedAttesters user).getD 0)

def slashAndInvalidateAttestation (height : Nat) : AttesterIncentives S :=
  let (slashed, reward) := m.slashAttester attester
  slashed.setPool height (some (saturatingAdd amountMax ((m.badTransitionPool height).getD 0) reward))

end AttesterIncentives

/-- `verify_proof`: the value of the bond at a root, if the proof is about the attester. -/
def AttesterIncentives.verifyProof (stateRoot : StorageRoot) (proof : env.StorageProof) (expectedKey : S.Address) :
    Option (Option (List UInt8)) := do
  let (storageKey, storageValue) ← env.openProof stateRoot proof
  if storageKey = env.bondKey expectedKey then some storageValue else none

variable (chain : ChainView S)

def checkBondingProof (m : AttesterIncentives S) (sender : S.Address)
    (attestation : Attestation env) : Except ProcessAttestationError Unit :=
  if attestation.claimedSlotNumber = 0 then .error .invalidTransitionInvariant
  else do
    let bondingRoot ← unwrap .invalidBondingProof (chain.rootAtHeight attestation.claimedSlotNumber)
    let bond ← unwrap .invalidBondingProof (AttesterIncentives.verifyProof env bondingRoot attestation.proofOfBond sender)
    let bond ← unwrap .attesterNotBonded bond
    let bond ← unwrap .invalidBondFormat (env.decodeAmount bond)
    ensure .attesterNotBonded (Gas.value m.minimumAttesterBond chain.gasPrice ≤ bond.val)

variable (attestation : Attestation env)

def checkInitialHash : Except AttesterPanic CheckInitialHashStatus := do
  let previousHeight ← unwrap .genesisClaimed (checkedSub attestation.claimedSlotNumber 1)
  match chain.rootAtHeight previousHeight with
  | none => return .slash
  | some claimedRoot => return if claimedRoot ≠ attestation.initialStateRoot then .slash else .valid

def checkTransition : CheckTransitionStatus :=
  match chain.getHistoricalTransitionDangerous attestation.claimedSlotNumber with
  | none => .slashedNoHistoricalTransition
  | some (slot, postStateRoot) =>
    if slot.slotHash ≠ attestation.slotHash then .slashInvalidateWrongHash
    else if postStateRoot ≠ attestation.postStateRoot then .slashInvalidateWrongHash
    else .valid

namespace AttesterState
variable (s : AttesterState S)

abbrev account : S.Holder := .moduleAccount .attesterIncentives

def withIncentives (m : AttesterIncentives S) : AttesterState S := { s with incentives := m }

variable (sender : S.Address)

def transferTokensToSender (amount : Nat) : AttesterState S × Except BankError Unit :=
  let (bank, result) := s.bank.transferGas account (.user sender) amount
  ({ s with bank }, result)

variable (chain : ChainView S) (sender : S.Address) (attestation : Attestation env)

/-- The attestation is for the next height: its reward is what the gas of the slot was worth. -/
def rewardAttester (newHeight : Nat) :
    Except AttesterPanic (AttesterState S × Except ProcessAttestationError (Attestation env)) := do
  let transition ← unwrap .transitionMissing (chain.slotAtHeight newHeight)
  let reward := Gas.value transition.gasUsed transition.gasPrice
  let s := s.withIncentives { s.incentives with maximumAttestedHeight := newHeight }
  let reward ← unwrap .burnRateOverflow (env.burnRate.apply reward)
  match s.transferTokensToSender sender reward with
  | (s, .error e) => return (s, .error (.rewardTransferFailure e))
  | (s, .ok ()) => return (s, .ok attestation)

def processBondedAttestation :
    Except AttesterPanic (AttesterState S × Except ProcessAttestationError (Attestation env)) := do
  ensure .finalizedAboveAttested (s.incentives.lightClientFinalizedHeight ≤ s.incentives.maximumAttestedHeight)
  let newHeight ← unwrap .endOfChain (checkedAdd u64Max s.incentives.maximumAttestedHeight 1)
  let minHeight := newHeight - s.incentives.rollupFinalityPeriod
  if attestation.claimedSlotNumber < minHeight then return (s, .error .invalidTransitionInvariant)
  else if newHeight < attestation.claimedSlotNumber then return (s, .error .invalidTransitionInvariant)
  else do
    match ← checkInitialHash env chain attestation with
    | .slash =>
      return (s.withIncentives (s.incentives.slashAttester sender).1,
        .error (.attesterSlashedNoRevert .invalidInitialHash))
    | .valid =>
      match checkTransition env chain attestation with
      | .slashedNoHistoricalTransition =>
        return (s.withIncentives (s.incentives.slashAttester sender).1,
          .error (.attesterSlashedNoRevert .transitionNotFound))
      | .slashInvalidateWrongHash =>
        return (s.withIncentives
            (s.incentives.slashAndInvalidateAttestation sender attestation.claimedSlotNumber),
          .error (.attesterSlashedNoRevert .transitionInvalid))
      | .valid =>
        if attestation.claimedSlotNumber = newHeight then s.rewardAttester env chain sender attestation newHeight
        else return (s, .ok attestation)

/-- `process_attestation`; an attestation that cannot be deserialized is `none`. -/
def processAttestation (serialized : Option (Attestation env)) :
    Except AttesterPanic (AttesterState S × Except ProcessAttestationError (Attestation env)) :=
  if env.operatingMode ≠ .optimistic then .ok (s, .error .invalidOperatingMode)
  else
    match serialized with
    | none => .ok (s, .error .invalidAttestationFormat)
    | some attestation =>
      if attestation.claimedSlotNumber = 0 then .ok (s, .error .invalidTransitionInvariant)
      else
        match s.incentives.bondedAttesters sender with
        | none => .ok (s, .error .attesterNotBonded)
        | some _ =>
          match checkBondingProof env chain s.incentives sender attestation with
          | .error e => .ok (s, .error e)
          | .ok () => s.processBondedAttestation env chain sender attestation

variable (outputs : StateTransitionPublicData)

def checkChallengeOutputsAgainstTransition (height : Nat) : Option SlashingReason :=
  match chain.slotAtHeight height with
  | none => some .transitionInvalid
  | some transition =>
    if outputs.initialStateRoot ≠ transition.prevStateRoot then some .invalidInitialHash
    else if outputs.slotHash ≠ transition.slotHash then some .transitionInvalid
    else none

def slashChallenger (reason : SlashingReason) :
    AttesterState S × Except ProcessChallengeError StateTransitionPublicData :=
  (s.withIncentives (s.incentives.setChallenger sender none), .error (.challengerSlashedNoRevert reason))

/-- The pool of a slot is paid out and removed. -/
def rewardChallenger (height attestationReward : Nat) :
    Except AttesterPanic (AttesterState S × Except ProcessChallengeError StateTransitionPublicData) := do
  let reward ← unwrap .burnRateOverflow (env.burnRate.apply attestationReward)
  match s.transferTokensToSender sender reward with
  | (s, .error e) => return (s, .error (.rewardTransferFailure e))
  | (s, .ok ()) => return (s.withIncentives (s.incentives.setPool height none), .ok outputs)

def processChallenge (proof : List UInt8) (height : Nat) :
    Except AttesterPanic (AttesterState S × Except ProcessChallengeError StateTransitionPublicData) :=
  if env.operatingMode ≠ .optimistic then .ok (s, .error .invalidOperatingMode)
  else
    match s.incentives.bondedChallengers sender with
    | none => .ok (s, .error .challengerNotBonded)
    | some oldBalance =>
      if oldBalance < Gas.value s.incentives.minimumChallengerBond chain.gasPrice then
        .ok (s, .error .challengerNotBonded)
      else
        match s.incentives.badTransitionPool height with
        | none => .ok (s.slashChallenger sender .noInvalidTransition)
        | some attestationReward =>
          match env.verify proof with
          | none => .ok (s.slashChallenger sender .invalidZkProof)
          | some outputs =>
            match checkChallengeOutputsAgainstTransition chain outputs height with
            | some reason => .ok (s.slashChallenger sender reason)
            | none => s.rewardChallenger env sender outputs height attestationReward

/-- Bonding, of attesters and of challengers: `register_staker`. -/
def transferBond (staker : S.Address) (amount : Nat) (e : AttesterCallError) : Except AttesterCallError (Bank S) :=
  match s.bank.transferGas (.user staker) account amount with
  | (_, .error _) => .error e
  | (bank, .ok ()) => .ok bank

def registerAttester (bondAmount : Amount) : Except AttesterCallError (AttesterState S) := do
  ensure .attesterIsUnbonding (s.incentives.unbondingAttesters sender = none)
  ensure .alreadyRegistered (s.incentives.bondedAttesters sender = none)
  let bank ← s.transferBond sender bondAmount .insufficientFundsToRegister
  return ⟨s.incentives.setBonded sender (some bondAmount), bank⟩

def depositAttester (amount : Amount) : Except AttesterCallError (AttesterState S) := do
  ensure .attesterIsUnbonding (s.incentives.unbondingAttesters sender = none)
  let balance ← unwrap .isNotRegistered (s.incentives.bondedAttesters sender)
  let balance ← unwrap .toppingAccountMakesBalanceOverflow (checkedAdd amountMax balance amount)
  let bank ← s.transferBond sender amount .insufficientFundsToTopUpAccount
  return ⟨s.incentives.setBonded sender (some balance), bank⟩

/-- The first phase of an exit; without a bond nothing happens. -/
def beginExitAttester : AttesterState S :=
  match s.incentives.bondedAttesters sender with
  | none => s
  | some bond =>
    s.withIncentives ((s.incentives.setBonded sender none).setUnbonding sender
      (some ⟨s.incentives.lightClientFinalizedHeight, bond⟩))

/-- The second phase of an exit: the finality period must have passed. -/
def exitAttester : Except AttesterCallError (AttesterState S) :=
  match s.incentives.unbondingAttesters sender with
  | none => .error .attesterIsNotUnbonding
  | some info =>
    if s.incentives.lightClientFinalizedHeight <
        saturatingAdd u64Max info.unbondingInitiatedHeight s.incentives.rollupFinalityPeriod then
      .error .unbondingNotFinalized
    else
      match s.transferTokensToSender sender info.amount with
      | (_, .error _) => .error .insufficientFundsToRefundStakedAmount
      | (s, .ok ()) => .ok (s.withIncentives ((s.incentives.setBonded sender none).setUnbonding sender none))

def registerChallenger (bondAmount : Amount) : Except AttesterCallError (AttesterState S) := do
  ensure .alreadyRegistered (s.incentives.bondedChallengers sender = none)
  let bank ← s.transferBond sender bondAmount .insufficientFundsToRegister
  return ⟨s.incentives.setChallenger sender (some bondAmount), bank⟩

def exitChallenger : Except AttesterCallError (AttesterState S) := do
  let balance ← unwrap .isNotRegistered (s.incentives.bondedChallengers sender)
  match s.transferTokensToSender sender balance with
  | (_, .error _) => .error .insufficientFundsToRefundStakedAmount
  | (s, .ok ()) => .ok (s.withIncentives (s.incentives.setChallenger sender none))

end AttesterState

namespace AttesterIncentives

inductive CallMessage where
  | registerAttester (bondAmount : Amount)
  | beginExitAttester
  | exitAttester
  | registerChallenger (bondAmount : Amount)
  | exitChallenger
  | depositAttester (amount : Amount)

end AttesterIncentives

def AttesterState.call (s : AttesterState S) (sender : S.Address) (message : AttesterIncentives.CallMessage) :
    Except AttesterCallError (AttesterState S) :=
  if env.operatingMode ≠ .optimistic then .error .invalidOperatingMode
  else
    match message with
    | .registerAttester bondAmount => s.registerAttester sender bondAmount
    | .depositAttester amount => s.depositAttester sender amount
    | .beginExitAttester => .ok (s.beginExitAttester sender)
    | .exitAttester => s.exitAttester sender
    | .registerChallenger bondAmount => s.registerChallenger sender bondAmount
    | .exitChallenger => s.exitChallenger sender

structure AttesterIncentivesConfig (S : Spec) where
  minimumAttesterBond : S.Gas
  minimumChallengerBond : S.Gas
  initialAttesters : List (S.Address × Amount)
  rollupFinalityPeriod : Nat
  maximumAttestedHeight : Nat
  lightClientFinalizedHeight : Nat

/-- `init_module`: the initial attesters register with their own tokens; without any there is no genesis. -/
def initModule (config : AttesterIncentivesConfig S) (bank : Bank S) : Option (AttesterState S) :=
  if config.initialAttesters = [] then none
  else
    let incentives : AttesterIncentives S :=
      { rollupFinalityPeriod := config.rollupFinalityPeriod
        bondedAttesters := fun _ => none
        unbondingAttesters := fun _ => none
        maximumAttestedHeight := config.maximumAttestedHeight
        badTransitionPool := fun _ => none
        bondedChallengers := fun _ => none
        minimumAttesterBond := config.minimumAttesterBond
        minimumChallengerBond := config.minimumChallengerBond
        lightClientFinalizedHeight := config.lightClientFinalizedHeight }
    config.initialAttesters.foldlM
      (fun s attester => (s.registerAttester attester.1 attester.2).toOption) ⟨incentives, bank⟩

/-- What happens to the module. Proofs see the chain as it is when they are processed. -/
inductive AttesterOperation where
  | call (sender : S.Address) (message : AttesterIncentives.CallMessage)
  | attestation (chain : ChainView S) (sender : S.Address) (serialized : Option (Attestation env))
  | challenge (chain : ChainView S) (sender : S.Address) (proof : List UInt8) (height : Nat)
  | otherModules (bank : Bank S)

inductive AttesterEvent where
  | rewarded (slotNumber : Nat)
  /-- The bond of a slashed attester is added to the pool of a slot. -/
  | invalidated (slotNumber bond : Nat)
  | challengerRewarded (slotNumber : Nat)
  | nothing
deriving DecidableEq, Repr

namespace AttesterState
variable {env}

def attestationEvent (s : AttesterState S) (sender : S.Address) (serialized : Option (Attestation env)) :
    Except ProcessAttestationError (Attestation env) → AttesterEvent
  | .ok attestation =>
    if attestation.claimedSlotNumber = s.incentives.maximumAttestedHeight + 1 then
      .rewarded attestation.claimedSlotNumber
    else .nothing
  | .error (.attesterSlashedNoRevert .transitionInvalid) =>
    match serialized with
    | some attestation =>
      .invalidated attestation.claimedSlotNumber ((s.incentives.bondedAttesters sender).getD 0)
    | none => .nothing
  | .error _ => .nothing

/-- An error reverts the attestation, unless the attester was slashed. -/
def afterAttestation (s s' : AttesterState S) :
    Except ProcessAttestationError (Attestation env) → AttesterState S
  | .ok _ => s'
  | .error (.attesterSlashedNoRevert _) => s'
  | .error _ => s

variable (env)

/-- One operation; a challenge is reverted as an attestation is. -/
def perform (s : AttesterState S) :
    AttesterOperation env → Except AttesterPanic (AttesterState S × AttesterEvent)
  | .call sender message =>
    match s.call env sender message with
    | .error _ => .ok (s, .nothing)
    | .ok s => .ok (s, .nothing)
  | .attestation chain sender serialized => do
      let (s', result) ← s.processAttestation env chain sender serialized
      return (s.afterAttestation s' result, s.attestationEvent sender serialized result)
  | .challenge chain sender proof height => do
      let (s', result) ← s.processChallenge env chain sender proof height
      match result with
      | .ok _ => return (s', .challengerRewarded height)
      | .error (.challengerSlashedNoRevert _) => return (s', .nothing)
      | .error _ => return (s, .nothing)
  | .otherModules bank => .ok ({ s with bank }, .nothing)

end AttesterState
end SovereignSdk
