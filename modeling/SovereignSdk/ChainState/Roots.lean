import SovereignSdk.ChainState

/-! The state roots recorded by the chain state, once in provable and once in accessory
state, and the visible hash computed from either of the two records. -/
namespace SovereignSdk
open Bounded Outcome Function Nat Option

variable {S : Spec}

/-- A state root, as the roots of its user and of its kernel namespace. -/
structure StorageRoot where
  userRoot : Hash
  kernelRoot : Hash
deriving DecidableEq, Repr

/-- The roots kept by the chain state. Of the information about a slot only
`prev_state_root` is read here. -/
structure StateRoots where
  slots : Nat → Option StorageRoot
  pastUserStateRoots : Nat → Option Hash
  accessorySlotNumberHistory : Nat → Option Nat
  accessoryPreStateRoots : Nat → Option StorageRoot
  accessoryPastUserStateRoots : Nat → Option Hash
  genesisRoot : Option StorageRoot

structure VisibleHashHelper where
  visibleSlotNumberFor : Nat → Option Nat
  preStateRootAtHeight : Nat → Option StorageRoot
  userPreStateRootAtHeight : Nat → Option Hash

/-- `visible_hash_for_inner`; `delay` is `STATE_ROOT_DELAY_BLOCKS`. -/
def visibleHashForInner (delay rollupHeight : Nat) (helper : VisibleHashHelper) : Option StorageRoot := do
  let rollupHeightToUse := rollupHeight - delay
  let slotNumber ← helper.visibleSlotNumberFor rollupHeightToUse
  -- The root before genesis is never shown.
  if slotNumber = 0 then helper.preStateRootAtHeight 1
  else do
    let kernelRoot ← helper.preStateRootAtHeight slotNumber
    if rollupHeightToUse ≤ 1 then return kernelRoot
    else do
      let userRoot ← helper.userPreStateRootAtHeight rollupHeightToUse
      return ⟨userRoot, kernelRoot.kernelRoot⟩

namespace StateRoots

def genesis : StateRoots where
  slots := update (fun _ => none) 0 (some ⟨0, 0⟩)
  pastUserStateRoots := fun _ => none
  accessorySlotNumberHistory := fun _ => none
  accessoryPreStateRoots := fun _ => none
  accessoryPastUserStateRoots := fun _ => none
  genesisRoot := none

variable (roots : StateRoots)

/-- Reading through a `KernelStateAccessor`, which sees the slots up to the true one. -/
def kernel (chain : ChainState S) : VisibleHashHelper where
  visibleSlotNumberFor := chain.slotNumberHistory
  preStateRootAtHeight slot := if slot ≤ chain.trueSlotNumber then roots.slots slot else none
  userPreStateRootAtHeight height := roots.pastUserStateRoots (height - 1)

def accessory : VisibleHashHelper where
  visibleSlotNumberFor := roots.accessorySlotNumberHistory
  preStateRootAtHeight := roots.accessoryPreStateRoots
  userPreStateRootAtHeight height := roots.accessoryPastUserStateRoots (height - 1)

def visibleHashFor (delay rollupHeight : Nat) (chain : ChainState S) : Option StorageRoot :=
  visibleHashForInner delay rollupHeight (roots.kernel chain)

def visibleHashWithAccessoryState (delay rollupHeight : Nat) : Option StorageRoot :=
  visibleHashForInner delay rollupHeight roots.accessory

/-- The roots recorded by `synchronize_chain`: the height is the one left over from the
slot before, the slot number the new one. -/
def synchronizeChain (leftoverRollupHeight trueSlotNumber : Nat) (preStateRoot : StorageRoot) : StateRoots :=
  { roots with
    pastUserStateRoots := update roots.pastUserStateRoots leftoverRollupHeight (some preStateRoot.userRoot)
    accessoryPastUserStateRoots :=
      update roots.accessoryPastUserStateRoots leftoverRollupHeight (some preStateRoot.userRoot)
    accessoryPreStateRoots := update roots.accessoryPreStateRoots trueSlotNumber (some preStateRoot)
    slots := update roots.slots trueSlotNumber (some preStateRoot) }

/-- The duplicate of the history written by `increment_rollup_height`. -/
def incrementRollupHeight (nextRollupHeight visibleSlotNumber : Nat) : StateRoots :=
  { roots with
    accessorySlotNumberHistory :=
      update roots.accessorySlotNumberHistory nextRollupHeight (some visibleSlotNumber) }

def saveGenesisRoot (genesisRoot : StorageRoot) : StateRoots :=
  { roots with genesisRoot := some genesisRoot }

/-- `next_visible_root`, with the check of the delay. -/
def nextVisibleRoot (delay rollupHeight : Nat) : Except Panic StorageRoot := do
  ensure .stateRootDelayZero (delay ≠ 0)
  if rollupHeight - delay = 0 then unwrap .genesisRootMissing roots.genesisRoot
  else
    unwrap .nextVisibleHashUnknown
      (roots.visibleHashWithAccessoryState delay (saturatingAdd u64Max rollupHeight 1))

/-- `materialize_slot`: the root passed to the finalize hook, if a block was created. -/
def materializeSlot (delay rollupHeight : Nat) (createRollupBlock : Bool)
    (nextRootHash : StorageRoot) : Except Panic (StateRoots × Option StorageRoot) :=
  let saved := if rollupHeight = 0 ∧ roots.genesisRoot = none then roots.saveGenesisRoot nextRootHash
    else roots
  if createRollupBlock then do
    let nextVisibleHash ← saved.nextVisibleRoot delay rollupHeight
    return (saved, some nextVisibleHash)
  else return (saved, none)

end StateRoots

/-- Only one slot number and the roots it leads to are read. -/
theorem visibleHashForInner_congr {delay rollupHeight a b}
    (hSlot : a.visibleSlotNumberFor (rollupHeight - delay) = b.visibleSlotNumberFor (rollupHeight - delay))
    (hPre : ∀ slot, a.visibleSlotNumberFor (rollupHeight - delay) = some slot →
      a.preStateRootAtHeight (max slot 1) = b.preStateRootAtHeight (max slot 1))
    (hUser : 1 < rollupHeight - delay → a.userPreStateRootAtHeight (rollupHeight - delay) =
      b.userPreStateRootAtHeight (rollupHeight - delay)) :
    visibleHashForInner delay rollupHeight a = visibleHashForInner delay rollupHeight b := by
  unfold visibleHashForInner
  dsimp only
  rw [← hSlot]
  cases hNum : a.visibleSlotNumberFor (rollupHeight - delay) with
  | none => rfl
  | some slot =>
    have hHere := hPre slot hNum
    simp only [bind_eq_bind, bind_some]
    split
    · rename_i hZero
      rwa [hZero] at hHere
    · rename_i hPos
      rw [max_eq_left (one_le_iff_ne_zero.mpr hPos)] at hHere
      rw [hHere]
      split
      · rfl
      · rename_i hHeight
        rw [hUser (Nat.lt_of_not_le hHeight)]

/-- Between slots: both records agree above genesis and are complete up to the current
heights, but for the user root of the current height, which the next slot brings. -/
structure StateRoots.Mirrored (roots : StateRoots) (chain : ChainState S) (genesisRoot : StorageRoot) :
    Prop where
  genesis : roots.genesisRoot = some genesisRoot
  first : chain.slotNumberHistory 0 = some 0
  visible : ∀ k, 0 < k → k ≤ chain.rollupHeight →
    ∃ slot, chain.slotNumberHistory k = some slot ∧ 0 < slot ∧ slot ≤ chain.trueSlotNumber
  slots : ∀ k, 0 < k → k ≤ chain.trueSlotNumber → ∃ root, roots.slots k = some root
  first_slot : 0 < chain.trueSlotNumber → roots.slots 1 = some genesisRoot
  user : ∀ k < chain.rollupHeight, ∃ root, roots.pastUserStateRoots k = some root
  copied_visible : ∀ k, 0 < k → roots.accessorySlotNumberHistory k = chain.slotNumberHistory k
  copied_slots : ∀ k, 0 < k → roots.accessoryPreStateRoots k = roots.slots k
  copied_user : roots.accessoryPastUserStateRoots = roots.pastUserStateRoots

namespace StateRoots.Mirrored
variable {roots : StateRoots} {chain : ChainState S} {genesisRoot : StorageRoot} {delay height : Nat}

theorem start (operatingMode : OperatingMode) (adminAddress : Option S.Address) (rewardAddress : S.Address)
    (genesisRoot : StorageRoot) :
    (StateRoots.genesis.saveGenesisRoot genesisRoot).Mirrored
      (ChainState.genesis operatingMode adminAddress rewardAddress) genesisRoot := by
  have hNone : ∀ k : Nat, 0 < k → ¬k ≤ 0 := fun k hPos => not_le.mpr hPos
  refine ⟨rfl, rfl, fun k hPos hLe => absurd hLe (hNone k hPos), fun k hPos hLe => absurd hLe (hNone k hPos),
    fun hPos => absurd hPos (lt_irrefl 0), fun k hLt => absurd hLt (not_lt_zero k), fun k hPos => ?_,
    fun k hPos => ?_, rfl⟩
  · exact (update_of_ne hPos.ne' _ _).symm
  · exact (update_of_ne hPos.ne' _ _).symm

section
variable (h : roots.Mirrored chain genesisRoot)
include h

theorem visibleHash_eq (hPos : 0 < height - delay) (hLe : height - delay ≤ chain.rollupHeight) :
    roots.visibleHashWithAccessoryState delay height = roots.visibleHashFor delay height chain := by
  obtain ⟨slot, hSlot, _, _⟩ := h.visible _ hPos hLe
  refine visibleHashForInner_congr (h.copied_visible _ hPos) (fun v hv => ?_) fun _ => ?_
  · have hEq : v = slot := some.inj (hv.symm.trans ((h.copied_visible _ hPos).trans hSlot))
    show roots.accessoryPreStateRoots (max v 1) = if max v 1 ≤ chain.trueSlotNumber then _ else _
    rw [if_pos (by omega), h.copied_slots _ (by omega)]
  · show roots.accessoryPastUserStateRoots _ = roots.pastUserStateRoots _
    rw [h.copied_user]

theorem visibleHashFor_of_two_le (hTwo : 2 ≤ height - delay)
    (hLe : height - delay ≤ chain.rollupHeight) : ∃ root, roots.visibleHashFor delay height chain = some root := by
  obtain ⟨slot, hSlot, hSlotPos, hSlotLe⟩ := h.visible (height - delay) (by omega) hLe
  obtain ⟨kernelRoot, hKernel⟩ := h.slots slot hSlotPos hSlotLe
  obtain ⟨userRoot, hUser⟩ := h.user (height - delay - 1) (by omega)
  have hNot : ¬height - delay ≤ 1 := by omega
  simp [visibleHashFor, visibleHashForInner, kernel, hSlot, hSlotPos.ne', hSlotLe, hKernel, hNot, hUser]

theorem visibleHashFor_of_eq_one (hOne : height - delay = 1) (hLe : 1 ≤ chain.rollupHeight) :
    ∃ slot, chain.slotNumberHistory 1 = some slot ∧ (∃ root, roots.slots slot = some root) ∧
      roots.visibleHashFor delay height chain = roots.slots slot := by
  obtain ⟨slot, hSlot, hSlotPos, hSlotLe⟩ := h.visible 1 one_pos hLe
  obtain ⟨root, hRoot⟩ := h.slots slot hSlotPos hSlotLe
  refine ⟨slot, hSlot, ⟨root, hRoot⟩, ?_⟩
  simp [visibleHashFor, visibleHashForInner, kernel, hOne, hSlot, hSlotPos.ne', hSlotLe]

theorem visibleHashFor_of_eq_zero (hZero : height - delay = 0)
    (hTrue : 0 < chain.trueSlotNumber) : roots.visibleHashFor delay height chain = some genesisRoot := by
  have hOne : 1 ≤ chain.trueSlotNumber := hTrue
  simp [visibleHashFor, visibleHashForInner, kernel, hZero, h.first, hOne, h.first_slot hTrue]

theorem visibleHashFor_known (hTrue : 0 < chain.trueSlotNumber)
    (hLe : height - delay ≤ chain.rollupHeight) : ∃ root, roots.visibleHashFor delay height chain = some root := by
  by_cases hZero : height - delay = 0
  · exact ⟨genesisRoot, h.visibleHashFor_of_eq_zero hZero hTrue⟩
  · by_cases hOne : height - delay = 1
    · obtain ⟨slot, -, ⟨root, hRoot⟩, hHash⟩ := h.visibleHashFor_of_eq_one hOne (hOne ▸ hLe)
      exact ⟨root, hHash.trans hRoot⟩
    · exact h.visibleHashFor_of_two_le (by omega) hLe

theorem congr {chain' : ChainState S}
    (hTrue : chain'.trueSlotNumber = chain.trueSlotNumber) (hHeight : chain'.rollupHeight = chain.rollupHeight)
    (hHist : chain'.slotNumberHistory = chain.slotNumberHistory) : roots.Mirrored chain' genesisRoot := by
  obtain ⟨h₁, h₂, h₃, h₄, h₅, h₆, h₇, h₈, h₉⟩ := h
  rw [← hHist] at h₂ h₃ h₇
  rw [← hTrue] at h₃ h₄ h₅
  rw [← hHeight] at h₃ h₆
  exact ⟨h₁, h₂, h₃, h₄, h₅, h₆, h₇, h₈, h₉⟩

end

section Synchronize
variable {synced : ChainState S} {preStateRoot : StorageRoot}

theorem synchronizeChain (h : roots.Mirrored chain genesisRoot) (hSync : chain.synchronizeChain = .ok synced)
    (hFirst : chain.trueSlotNumber = 0 → preStateRoot = genesisRoot) :
    (roots.synchronizeChain chain.rollupHeight synced.trueSlotNumber preStateRoot).Mirrored synced
      genesisRoot := by
  obtain ⟨-, rfl⟩ := ChainState.synchronizeChain_ok hSync
  refine ⟨h.genesis, h.first, fun k hPos hLe => ?_, fun k hPos hLe => ?_, fun _ => ?_, fun k hLt => ?_,
    h.copied_visible, fun k hPos => ?_, ?_⟩
  · obtain ⟨slot, hSlot, hSlotPos, hSlotLe⟩ := h.visible k hPos hLe
    exact ⟨slot, hSlot, hSlotPos, le_succ_of_le hSlotLe⟩
  · by_cases hNew : k = chain.trueSlotNumber + 1
    · exact ⟨preStateRoot, by simp [StateRoots.synchronizeChain, hNew]⟩
    · obtain ⟨root, hRoot⟩ := h.slots k hPos (by dsimp only at hLe; omega)
      exact ⟨root, by simp [StateRoots.synchronizeChain, hNew, hRoot]⟩
  · by_cases hZero : chain.trueSlotNumber = 0
    · simp [StateRoots.synchronizeChain, hZero, hFirst hZero]
    · show update roots.slots (chain.trueSlotNumber + 1) (some preStateRoot) 1 = some genesisRoot
      rw [update_of_ne (by omega)]
      exact h.first_slot (pos_of_ne_zero hZero)
  · obtain ⟨root, hRoot⟩ := h.user k hLt
    exact ⟨root, by simp [StateRoots.synchronizeChain, hLt.ne, hRoot]⟩
  · by_cases hNew : k = chain.trueSlotNumber + 1
    · simp [StateRoots.synchronizeChain, hNew]
    · simp [StateRoots.synchronizeChain, hNew, h.copied_slots k hPos]
  · simp [StateRoots.synchronizeChain, h.copied_user]

theorem visibleHashFor_synchronizeChain (h : roots.Mirrored chain genesisRoot)
    (hSync : chain.synchronizeChain = .ok synced) (hPos : 0 < height - delay)
    (hLe : height - delay ≤ chain.rollupHeight) :
    (roots.synchronizeChain chain.rollupHeight synced.trueSlotNumber preStateRoot).visibleHashFor delay height
      synced = roots.visibleHashFor delay height chain := by
  obtain ⟨-, rfl⟩ := ChainState.synchronizeChain_ok hSync
  obtain ⟨slot, hSlot, _, _⟩ := h.visible _ hPos hLe
  refine visibleHashForInner_congr rfl (fun v hv => ?_) fun hTwo => ?_
  · have hEq : v = slot := some.inj (hv.symm.trans hSlot)
    have hNe : max v 1 ≠ chain.trueSlotNumber + 1 := by omega
    have hKnown : max v 1 ≤ chain.trueSlotNumber := by omega
    simp [kernel, StateRoots.synchronizeChain, hNe, hKnown, le_succ_of_le hKnown]
  · have hNe : height - delay - 1 ≠ chain.rollupHeight := by omega
    simp [kernel, StateRoots.synchronizeChain, hNe]

end Synchronize

section Increment
variable {visible : Nat} (hNext : (chain.incrementRollupHeight visible).rollupHeight = chain.rollupHeight + 1)
include hNext

theorem incrementRollupHeight (h : roots.Mirrored chain genesisRoot)
    (hUser : ∃ root, roots.pastUserStateRoots chain.rollupHeight = some root) (hPos : 0 < visible)
    (hLe : visible ≤ chain.trueSlotNumber) :
    (roots.incrementRollupHeight (chain.incrementRollupHeight visible).rollupHeight visible).Mirrored
      (chain.incrementRollupHeight visible) genesisRoot := by
  have hSat : saturatingAdd u64Max chain.rollupHeight 1 = chain.rollupHeight + 1 := hNext
  refine ⟨h.genesis, ?_, fun k hk hkLe => ?_, h.slots, h.first_slot, fun k hk => ?_, fun k hk => ?_,
    h.copied_slots, h.copied_user⟩
  · simp [ChainState.incrementRollupHeight, hSat, h.first]
  · by_cases hNew : k = chain.rollupHeight + 1
    · exact ⟨visible, by simp [ChainState.incrementRollupHeight, hSat, hNew], hPos, hLe⟩
    · obtain ⟨slot, hSlot, hBounds⟩ := h.visible k hk (by omega)
      exact ⟨slot, by simp [ChainState.incrementRollupHeight, hSat, hNew, hSlot], hBounds⟩
  · by_cases hOld : k = chain.rollupHeight
    · exact hOld ▸ hUser
    · exact h.user k (by omega)
  · simp only [StateRoots.incrementRollupHeight, ChainState.incrementRollupHeight, update_apply, h.copied_visible k hk]

theorem visibleHashFor_incrementRollupHeight (hLe : height - delay ≤ chain.rollupHeight) :
    (roots.incrementRollupHeight (chain.incrementRollupHeight visible).rollupHeight visible).visibleHashFor
      delay height (chain.incrementRollupHeight visible) = roots.visibleHashFor delay height chain := by
  have hSat : saturatingAdd u64Max chain.rollupHeight 1 = chain.rollupHeight + 1 := hNext
  have hNe : height - delay ≠ chain.rollupHeight + 1 := by omega
  refine visibleHashForInner_congr ?_ (fun _ _ => rfl) fun _ => rfl
  simp [kernel, ChainState.incrementRollupHeight, hSat, hNe]

end Increment

theorem materializeSlot_eq (h : roots.Mirrored chain genesisRoot) {nextRootHash} :
    roots.materializeSlot delay height false nextRootHash = .ok (roots, none) ∧
      ∀ root, roots.nextVisibleRoot delay height = .ok root →
        roots.materializeSlot delay height true nextRootHash = .ok (roots, some root) := by
  have hSaved : ¬(height = 0 ∧ roots.genesisRoot = none) := by simp [h.genesis]
  refine ⟨?_, fun root hRoot => ?_⟩
  · simp only [materializeSlot, if_neg hSaved, Bool.false_eq_true]
    rfl
  · simp only [materializeSlot, if_neg hSaved, hRoot]
    rfl

section NextVisibleRoot
variable (hDelay : delay ≠ 0)
include hDelay

section
variable (h : roots.Mirrored chain genesisRoot)
include h

theorem nextVisibleRoot_of_le (hLe : height ≤ delay) : roots.nextVisibleRoot delay height = .ok genesisRoot := by
  rw [nextVisibleRoot, ensure, if_pos hDelay, if_pos (Nat.sub_eq_zero_of_le hLe), h.genesis]
  rfl

theorem nextVisibleRoot_of_lt (hLt : delay < chain.rollupHeight) (hU64 : chain.rollupHeight ≤ u64Max) :
    0 < saturatingAdd u64Max chain.rollupHeight 1 - delay ∧
      saturatingAdd u64Max chain.rollupHeight 1 - delay ≤ chain.rollupHeight ∧
      roots.nextVisibleRoot delay chain.rollupHeight = unwrap .nextVisibleHashUnknown
          (roots.visibleHashFor delay (saturatingAdd u64Max chain.rollupHeight 1) chain) := by
  have hPos : 0 < saturatingAdd u64Max chain.rollupHeight 1 - delay := by
    unfold saturatingAdd
    omega
  have hLe : saturatingAdd u64Max chain.rollupHeight 1 - delay ≤ chain.rollupHeight := by
    unfold saturatingAdd
    omega
  refine ⟨hPos, hLe, ?_⟩
  rw [nextVisibleRoot, ensure, if_pos hDelay, ok_bind, if_neg (by omega), h.visibleHash_eq hPos hLe]

theorem nextVisibleRoot_ok (hU64 : chain.rollupHeight ≤ u64Max) :
    ∃ root, roots.nextVisibleRoot delay chain.rollupHeight = .ok root := by
  by_cases hLe : chain.rollupHeight ≤ delay
  · exact ⟨genesisRoot, h.nextVisibleRoot_of_le hDelay hLe⟩
  · obtain ⟨hPos, hBound, hEq⟩ := h.nextVisibleRoot_of_lt hDelay (Nat.lt_of_not_le hLe) hU64
    obtain ⟨slot, -, hSlotPos, hSlotLe⟩ := h.visible _ hPos hBound
    obtain ⟨root, hRoot⟩ := h.visibleHashFor_known (lt_of_lt_of_le hSlotPos hSlotLe) hBound
    exact ⟨root, by rw [hEq, hRoot, unwrap_some]⟩

theorem nextVisibleRoot_synchronizeChain {synced preStateRoot}
    (hU64 : chain.rollupHeight ≤ u64Max)
    (hSync : chain.synchronizeChain = .ok synced) (hFirst : chain.trueSlotNumber = 0 → preStateRoot = genesisRoot) :
    (roots.synchronizeChain chain.rollupHeight synced.trueSlotNumber preStateRoot).nextVisibleRoot delay
      synced.rollupHeight = roots.nextVisibleRoot delay chain.rollupHeight := by
  have hSynced := h.synchronizeChain hSync hFirst
  have hSame : synced.rollupHeight = chain.rollupHeight := by
    obtain ⟨-, rfl⟩ := ChainState.synchronizeChain_ok hSync
    rfl
  by_cases hLe : chain.rollupHeight ≤ delay
  · rw [h.nextVisibleRoot_of_le hDelay hLe, hSynced.nextVisibleRoot_of_le hDelay (hSame ▸ hLe)]
  · obtain ⟨hPos, hBound, hEq⟩ := h.nextVisibleRoot_of_lt hDelay (Nat.lt_of_not_le hLe) hU64
    obtain ⟨-, -, hEq'⟩ := hSynced.nextVisibleRoot_of_lt hDelay (by omega) (hSame ▸ hU64)
    rw [hEq, hEq', hSame, h.visibleHashFor_synchronizeChain hSync hPos hBound]

end

end NextVisibleRoot

end StateRoots.Mirrored
end SovereignSdk
