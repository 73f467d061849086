import SovereignSdk.Gas.Meter

/-! The parameters of a rollup: its gas constants, its configuration values and
the types of its addresses, together with the ways a node can stop. -/
namespace SovereignSdk

abbrev Hash := Nat

abbrev TokenId := Hash

inductive ModuleId where
  | bank
  | sequencerRegistry
  | proverIncentives
  | attesterIncentives
  | other (id : Nat)
deriving DecidableEq, Repr

inductive TokenHolder (Address : Type) where
  | user (address : Address)
  | moduleAccount (id : ModuleId)
  | derived (holder : Hash)
deriving DecidableEq, Repr

structure GasSpec where
  dimensions : Nat
  biasToChargeForAccess : GasUnit dimensions
  biasToChargeStorageUpdate : GasUnit dimensions
  biasToChargeForRead : GasUnit dimensions
  gasToChargePerByteStorageUpdate : GasUnit dimensions
  gasToChargePerByteRead : GasUnit dimensions
  gasToChargeHashUpdate : GasUnit dimensions
  gasToChargePerByteHashUpdate : GasUnit dimensions
  gasToChargePerByteBorshDeserialization : GasUnit dimensions
  initialGasLimit : GasUnit dimensions
  initialBaseFeePerGas : GasPrice dimensions
  maxTxCheckCosts : GasUnit dimensions
  maxUnregisteredTxGas : GasUnit dimensions
  processTxPreExecChecksGas : GasUnit dimensions
  baseFeeMaxChangeDenominator : Nat
  elasticityMultiplier : Nat
  initialGasLimit_u64 : ∀ i, initialGasLimit i ≤ u64Max
  /-- The base fee update divides by the gas target. -/
  gasTarget_pos : ∀ i, 0 < baseFeeMaxChangeDenominator * (initialGasLimit i / elasticityMultiplier)
  /-- Asserted by the base fee update. -/
  gasTarget_fits : ∀ i, baseFeeMaxChangeDenominator * (initialGasLimit i / elasticityMultiplier) ≤ u64Max
  /-- Asserted when the blueprint is built. -/
  preExecChecks_lt : ∀ i, processTxPreExecChecksGas i < maxTxCheckCosts i

/-- A rollup specification: gas constants, configuration values, address types
and the hash functions it is instantiated with. -/
structure Spec extends GasSpec where
  DaAddress : Type
  Address : Type
  daAddressDecEq : DecidableEq DaAddress
  addressDecEq : DecidableEq Address
  /-- `as_ref().len()` of an address. -/
  daAddressLen : DaAddress → Nat
  addressLen : Address → Nat
  /-- Digest of a blob id, its index in the slot and the true slot number. -/
  hashDerivedHolder : Hash → Nat → Nat → Hash
  /-- Digest of a token name, its decimals and its minter. -/
  hashTokenId : String → Option Nat → TokenHolder Address → TokenId
  gasTokenId : TokenId
  deferredSlotsCount : Nat
  maxVisibleHeightIncreasePerSlot : Nat
  maxVisibleHeightIncreasePerSlot_u8 : maxVisibleHeightIncreasePerSlot ≤ u8Max
  unregisteredBlobsPerSlot : Nat
  maxAllowedDataSizeReturnedByBlobStorage : Nat
  setupModeTerminationHeight : Nat

namespace Spec
variable (S : Spec)

instance : DecidableEq S.DaAddress := S.daAddressDecEq

instance : DecidableEq S.Address := S.addressDecEq

abbrev Gas := GasUnit S.dimensions

abbrev Price := GasPrice S.dimensions

abbrev Holder := TokenHolder S.Address

end Spec

/-- A small instance with two gas dimensions and numbers as addresses. -/
def testSpec : Spec where
  dimensions := 2
  biasToChargeForAccess := fun _ => 1
  biasToChargeStorageUpdate := fun _ => 1
  biasToChargeForRead := fun _ => 1
  gasToChargePerByteStorageUpdate := fun _ => 0
  gasToChargePerByteRead := fun _ => 0
  gasToChargeHashUpdate := fun _ => 0
  gasToChargePerByteHashUpdate := fun _ => 0
  gasToChargePerByteBorshDeserialization := fun _ => 1
  initialGasLimit := fun _ => 1000
  initialBaseFeePerGas := fun _ => 1
  maxTxCheckCosts := fun _ => 10
  maxUnregisteredTxGas := fun _ => 20
  processTxPreExecChecksGas := fun _ => 1
  baseFeeMaxChangeDenominator := 8
  elasticityMultiplier := 2
  initialGasLimit_u64 := by decide
  gasTarget_pos := by decide
  gasTarget_fits := by decide
  preExecChecks_lt := by decide
  DaAddress := Nat
  Address := Nat
  daAddressDecEq := inferInstanceAs (DecidableEq Nat)
  addressDecEq := inferInstanceAs (DecidableEq Nat)
  daAddressLen := fun _ => 1
  addressLen := fun _ => 1
  hashDerivedHolder := fun id index slot => id + index + slot
  hashTokenId := fun _ _ _ => 1
  gasTokenId := 0
  deferredSlotsCount := 5
  maxVisibleHeightIncreasePerSlot := 10
  maxVisibleHeightIncreasePerSlot_u8 := by decide
  unregisteredBlobsPerSlot := 5
  maxAllowedDataSizeReturnedByBlobStorage := 10000
  setupModeTerminationHeight := 0

/-- The places where a node stops: failed assertions, `expect`s and explicit
panics of the modelled code. -/
inductive Panic where
  -- casts and counters
  | u32Overflow
  | slotNumberOverflow
  -- blob storage
  | preferredSequencerNotSet
  | deserializationFee
  | directEscrowInStorage
  | derivedHolderSelected
  | reservedBalanceMissing
  | emergencyRegistrationInEscrow
  | zeroDelta
  | lastItemIsNotBatch
  | indexedBlobNotInStorage
  | blobsNotConsecutive
  | severalBatches
  | escrowTransfer
  -- state transition
  | visibleSlotPastTrueSlot
  | heightsDidNotProgress
  | blobsWithoutRollupBlock
  | slotNumberHistoryMissing
  | slotGasMeter
  | slotOutOfGas
  | preExecChecksGas
  | proverReward
  | gasRefund
  | sequencerPenalty
  | penaltyAboveBond
  | gasValueOverflow
  | rewardOverflow
  | sequencerReward
  | addToStake
  | withdrawal
  | missingBond
  | emergencyRegistrationWithBond
  | stateRootDelayZero
  | genesisRootMissing
  | visibleHashUnknown
  | nextVisibleHashUnknown
deriving DecidableEq, Repr

end SovereignSdk
