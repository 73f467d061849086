import SovereignSdk.Spec

/-! The chain state module: the true slot number of the DA layer, the visible
slot number and rollup height of the rollup, and the gas price derived from
them. -/
namespace SovereignSdk
open Bounded GasArray Outcome

/-- Gas usage and price of a rollup block. The gas limit of every
`BlockGasInfo` is `initial_gas_limit`. -/
structure BlockGasInfo (S : Spec) where
  gasUsed : S.Gas
  baseFeePerGas : S.Price

inductive OperatingMode where
  | zk
  | optimistic
  | operator
deriving DecidableEq, Repr

structure ChainState (S : Spec) where
  trueSlotNumber : Nat
  visibleSlotNumber : Nat
  rollupHeight : Nat
  /-- Visible slot number at each rollup height. -/
  slotNumberHistory : Nat → Option Nat
  gasInfo : Nat → Option (BlockGasInfo S)
  /-- Height set by an early termination of setup mode. -/
  setupModeTerminationHeight : Option Nat
  adminAddress : Option S.Address
  operatingMode : OperatingMode
  /-- Reward address of the operator incentives module. -/
  rewardAddress : S.Address

namespace ChainState
variable {S : Spec}

def genesis (operatingMode : OperatingMode) (adminAddress : Option S.Address) (rewardAddress : S.Address) :
    ChainState S where
  trueSlotNumber := 0
  visibleSlotNumber := 0
  rollupHeight := 0
  slotNumberHistory := Function.update (fun _ => none) 0 (some 0)
  gasInfo := fun _ => none
  setupModeTerminationHeight := none
  adminAddress
  operatingMode
  rewardAddress

/-- `compute_delta_limbs`: the relative change of a `u128` price, computed on
its two 64-bit halves. -/
def computeDeltaLimbs (gasUsedDelta gasTarget baseFee denominator : Nat) : Nat :=
  let hi := baseFee / 2 ^ 64
  let lo := baseFee % 2 ^ 64
  let divisor := gasTarget * denominator
  let hiMul := hi * gasUsedDelta
  let hiRes := hiMul / divisor
  if u64Max < hiRes then amountMax
  else
    saturatingAdd amountMax
      (saturatingAdd amountMax (hiRes * 2 ^ 64) (hiMul % divisor * 2 ^ 64 / divisor))
      (lo * gasUsedDelta / divisor)

def computeBaseFeePerGasUnidimensional (S : Spec) (gasLimit gasUsed baseFee : Nat) : Nat :=
  let gasTarget := gasLimit / S.elasticityMultiplier
  if gasUsed = gasTarget then max baseFee 1
  else
    let gasUsedDelta := max gasTarget gasUsed - min gasTarget gasUsed
    let delta := computeDeltaLimbs gasUsedDelta gasTarget baseFee S.baseFeeMaxChangeDenominator
    if gasTarget < gasUsed then saturatingAdd amountMax baseFee (max delta 1)
    else max (baseFee - delta) 1

def computeBaseFeeUpdateForSlot (parent : BlockGasInfo S) : S.Price := fun i =>
  computeBaseFeePerGasUnidimensional S (S.initialGasLimit i) (parent.gasUsed i) (parent.baseFeePerGas i)

/-- `compute_base_fee_per_gas`: one update per elapsed slot, all but the first
with no gas used. -/
def computeBaseFeePerGas (parent : BlockGasInfo S) : Nat → S.Price
  | 0 => parent.baseFeePerGas
  | slots + 1 =>
    computeBaseFeePerGas ⟨zeroed, computeBaseFeeUpdateForSlot parent⟩ slots

variable (c : ChainState S)

def isSetupModeActive (height : Nat) : Bool :=
  if S.setupModeTerminationHeight ≤ height then false
  else
    match c.setupModeTerminationHeight with
    | none => true
    | some termination => decide (height < termination)

/-- `compute_next_gas_price`: free in setup mode, the initial price right after
genesis or setup mode, and otherwise derived from the previous block. -/
def computeNextGasPrice (staleRollupHeight visibleHeightIncrease : Nat) : S.Price :=
  if c.isSetupModeActive (saturatingAdd u64Max staleRollupHeight 1) then zeroed
  else if staleRollupHeight = 0 ∨ c.isSetupModeActive staleRollupHeight then
    S.initialBaseFeePerGas
  else
    computeBaseFeePerGas
      ((c.gasInfo staleRollupHeight).getD ⟨zeroed, S.initialBaseFeePerGas⟩)
      visibleHeightIncrease

/-- `get_new_gas_price` of blob storage: the price of the block under selection. -/
def getNewGasPrice (visibleHeightIncrease : Nat) : S.Price :=
  c.computeNextGasPrice c.rollupHeight visibleHeightIncrease

/-- `base_fee_per_gas`: the price charged at the current rollup height. -/
def baseFeePerGas : Except Panic S.Price :=
  if c.isSetupModeActive c.rollupHeight then .ok zeroed
  else if c.rollupHeight ≤ 1 then .ok S.initialBaseFeePerGas
  else do
    let prevVisible ← unwrap .slotNumberHistoryMissing
      (c.slotNumberHistory (c.rollupHeight - 1))
    return c.computeNextGasPrice (c.rollupHeight - 1) (c.visibleSlotNumber - prevVisible)

/-- `synchronize_chain`, as far as later steps read it: the true slot number
moves to the next DA block. -/
def synchronizeChain : Except Panic (ChainState S) := do
  let trueSlotNumber ← unwrap .slotNumberOverflow (checkedAdd u64Max c.trueSlotNumber 1)
  return { c with trueSlotNumber }

def incrementRollupHeight (visibleSlotNumber : Nat) : ChainState S :=
  let rollupHeight := saturatingAdd u64Max c.rollupHeight 1
  { c with
    rollupHeight
    visibleSlotNumber
    slotNumberHistory := Function.update c.slotNumberHistory rollupHeight (some visibleSlotNumber) }

def recordGasUsage (info : BlockGasInfo S) : ChainState S :=
  { c with gasInfo := Function.update c.gasInfo c.rollupHeight (some info) }

def proverTokenHolder : S.Holder :=
  match c.operatingMode with
  | .zk => .moduleAccount .proverIncentives
  | .optimistic => .moduleAccount .attesterIncentives
  | .operator => .user c.rewardAddress

theorem synchronizeChain_ok {c c' : ChainState S} (h : c.synchronizeChain = .ok c') :
    c.trueSlotNumber + 1 ≤ u64Max ∧ c' = { c with trueSlotNumber := c.trueSlotNumber + 1 } := by
  simp only [synchronizeChain, bind_eq_ok, unwrap_eq_ok, checkedAdd_eq_some, pure,
    Except.pure, Except.ok.injEq] at h
  obtain ⟨_, ⟨hLe, rfl⟩, rfl⟩ := h
  exact ⟨hLe, rfl⟩

end ChainState
end SovereignSdk
