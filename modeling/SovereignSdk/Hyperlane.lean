import Mathlib.Data.List.Basic
import SovereignSdk.Gas.Meter

/-! Hyperlane: the incremental Merkle tree of the dispatched messages, and the rate limiter of a warp route. -/
namespace SovereignSdk.Hyperlane
open Outcome Bounded

inductive TreeError where
  | treeFull
  /-- The loop over the branch ended without a place for the node. -/
  | unreachable
deriving DecidableEq, Repr

structure MerkleTree (H : Type) where
  branch : List H
  count : Nat

variable {H : Type} (hash : H → H → H)

/-- `ZERO_HASHES`: the zero leaf, and then the hash of two copies of the one before. -/
def zeroHashes (zero : H) (depth : Nat) : List H := List.iterate (fun z => hash z z) zero depth

def insertNode : List H → H → Nat → Except TreeError (List H)
  | [], _, _ => .error .unreachable
  | branchNode :: branch, currentNode, size =>
    if size % 2 = 1 then .ok (currentNode :: branch)
    else do return branchNode :: (← insertNode branch (hash branchNode currentNode) (size / 2))

def rootWithCtx : List H → List H → Nat → H → H
  | next :: branch, zero :: zeroes, idx, current =>
    rootWithCtx branch zeroes (idx / 2) (if idx % 2 = 1 then hash next current else hash current zero)
  | _, _, _, current => current

namespace MerkleTree

def default (zero : H) : MerkleTree H := ⟨zeroHashes hash zero 32, 0⟩

def insert (tree : MerkleTree H) (node : H) : Except TreeError (MerkleTree H) := do
  if tree.count < u32Max then
    return ⟨← insertNode hash tree.branch node (tree.count + 1), tree.count + 1⟩
  else .error .treeFull

def root (zero : H) (tree : MerkleTree H) : H :=
  rootWithCtx hash tree.branch (zeroHashes hash zero 32) tree.count zero

end MerkleTree

/-- The root of the full binary tree of a depth over its leaves. -/
def fullRoot : Nat → (Nat → H) → H
  | 0, leaf => leaf 0
  | depth + 1, leaf => hash (fullRoot depth leaf) (fullRoot depth fun i => leaf (2 ^ depth + i))

def parents (leaf : Nat → H) (i : Nat) : H := hash (leaf (2 * i)) (leaf (2 * i + 1))

theorem fullRoot_succ (depth : Nat) (leaf : Nat → H) :
    fullRoot hash (depth + 1) leaf = fullRoot hash depth (parents hash leaf) := by
  induction depth generalizing leaf with
  | zero => rfl
  | succ depth ih =>
    rw [fullRoot, ih, ih, fullRoot]
    congr 2
    funext i
    simp only [parents, pow_succ]
    congr 2 <;> omega

/-- For a set bit of the count, the branch has the last complete node of the level. -/
def Holds : List H → Nat → (Nat → H) → Prop
  | [], _, _ => True
  | node :: branch, n, leaf => (n % 2 = 1 → node = leaf (n - 1)) ∧ Holds branch (n / 2) (parents hash leaf)

variable {hash} {branch : List H} {n : Nat} {leaf : Nat → H}

theorem Holds.insertNode (h : Holds hash branch n leaf) (hSize : n + 1 < 2 ^ branch.length) :
    ∃ next, insertNode hash branch (leaf n) (n + 1) = .ok next ∧ Holds hash next (n + 1) leaf ∧
      next.length = branch.length := by
  induction branch generalizing n leaf with
  | nil => simp at hSize
  | cons node branch ih =>
    unfold Hyperlane.insertNode
    rw [List.length_cons, pow_succ] at hSize
    split
    · refine ⟨_, rfl, ⟨fun _ => rfl, ?_⟩, rfl⟩
      rw [show (n + 1) / 2 = n / 2 by omega]
      exact h.2
    · -- the last node and the new one make a node of the next level
      have hNode : hash node (leaf n) = parents hash leaf (n / 2) := by
        rw [h.1 (by omega), parents]
        congr 2 <;> omega
      obtain ⟨next, hNext, hHolds, hLength⟩ := ih h.2 (by omega)
      rw [hNode, show (n + 1) / 2 = n / 2 + 1 by omega, hNext]
      refine ⟨_, rfl, ⟨fun hOdd => by omega, ?_⟩, congrArg (· + 1) hLength⟩
      rwa [show (n + 1) / 2 = n / 2 + 1 by omega]

/-- The nodes of a level while the root is computed: the complete ones, the current one, and zeros. -/
def padded (leaf : Nat → H) (n : Nat) (current zero : H) (i : Nat) : H :=
  if i < n then leaf i else if i = n then current else zero

theorem Holds.rootWithCtx (h : Holds hash branch n leaf) (hCount : n < 2 ^ branch.length) (current zero : H) :
    rootWithCtx hash branch (zeroHashes hash zero branch.length) n current =
      fullRoot hash branch.length (padded leaf n current zero) := by
  induction branch generalizing n leaf current zero with
  | nil =>
    obtain rfl : n = 0 := by simpa using hCount
    rfl
  | cons node branch ih =>
    rw [List.length_cons, pow_succ] at hCount
    rw [List.length_cons, fullRoot_succ, zeroHashes, List.iterate, Hyperlane.rootWithCtx]
    refine (ih h.2 (by omega) _ _).trans ?_
    congr 1
    funext i
    unfold padded parents
    dsimp only
    rcases Nat.lt_trichotomy i (n / 2) with hLt | rfl | hGt
    · rw [if_pos hLt, if_pos (by omega), if_pos (by omega)]
    · rw [if_neg (Nat.lt_irrefl _), if_pos rfl]
      by_cases hOdd : n % 2 = 1
      · rw [if_pos hOdd, if_pos (by omega), if_neg (by omega), if_pos (by omega), h.1 hOdd]
        congr 2
        omega
      · rw [if_neg hOdd, if_neg (by omega), if_pos (by omega), if_neg (by omega), if_neg (by omega)]
    · simp (disch := omega) only [if_neg]

theorem Holds.insert_all (h : Holds hash branch n leaf) (hLength : branch.length = 32) {k} (hCount : n + k < 2 ^ 32) :
    ∃ next, ((List.range' n k).map leaf).foldlM (MerkleTree.insert hash) ⟨branch, n⟩ = .ok ⟨next, n + k⟩ ∧
      Holds hash next (n + k) leaf ∧ next.length = 32 := by
  induction k generalizing branch n with
  | zero => exact ⟨branch, rfl, h, hLength⟩
  | succ k ih =>
    obtain ⟨next, hNext, hHolds, hNextLen⟩ := h.insertNode (by rw [hLength]; omega)
    have hInsert : MerkleTree.insert hash ⟨branch, n⟩ (leaf n) = .ok ⟨next, n + 1⟩ := by
      have hRoom : n < u32Max := by unfold u32Max; omega
      simp only [MerkleTree.insert, if_pos hRoom, hNext]
      rfl
    obtain ⟨last, hLast⟩ := ih hHolds (hNextLen.trans hLength) (by omega)
    rw [Nat.add_right_comm] at hLast
    refine ⟨last, ?_, hLast.2⟩
    rw [List.range'_succ, List.map_cons, List.foldlM_cons, hInsert]
    exact hLast.1

theorem holds_zero (hash : H → H → H) (branch : List H) (leaf : Nat → H) : Holds hash branch 0 leaf := by
  induction branch generalizing leaf with
  | nil => trivial
  | cons node branch ih => exact ⟨fun h => by simp at h, ih _⟩

/-- Before the tree is full no insertion fails, and the root is that of the full tree with the
inserted leaves at its left. -/
theorem MerkleTree.root_eq_fullRoot (hash : H → H → H) (zero : H) (leaves : List H) (hCount : leaves.length < 2 ^ 32) :
    ∃ tree, leaves.foldlM (insert hash) (default hash zero) = .ok tree ∧
      tree.root hash zero = fullRoot hash 32 fun i => leaves.getD i zero := by
  have hLeaves : leaves = (List.range' 0 leaves.length).map fun i => leaves.getD i zero :=
    List.ext_getElem (by simp) fun i hi _ => by simp [hi]
  obtain ⟨branch, hRun, hHolds, hBranch⟩ := (holds_zero hash (zeroHashes hash zero 32) _).insert_all
    (by simp [zeroHashes]) (show 0 + leaves.length < 2 ^ 32 by omega)
  rw [← hLeaves, Nat.zero_add] at hRun
  rw [Nat.zero_add] at hHolds
  refine ⟨_, hRun, ?_⟩
  have hRoot := hHolds.rootWithCtx (hBranch ▸ hCount) zero zero
  rw [hBranch] at hRoot
  refine hRoot.trans ?_
  congr 1
  funext i
  unfold padded
  split
  · rfl
  · rw [ite_self, List.getD_eq_getElem?_getD, List.getElem?_eq_none (by omega), Option.getD_none]

/-- The root after three insertions, with the sum as the hash of two nodes. -/
theorem MerkleTree.three_leaves_root :
    ∃ tree, [1, 2, 3].foldlM (insert Nat.add) (default Nat.add 0) = .ok tree ∧
      tree.root Nat.add 0 = fullRoot Nat.add 32 fun i => [1, 2, 3].getD i 0 :=
  root_eq_fullRoot Nat.add 0 [1, 2, 3] (by decide)

/-- A bucket of transferrable tokens that is replenished in each slot. -/
structure RateLimiter where
  maxTransferrableTokens : Nat
  currentTransferrableTokens : Nat
  limitReplenishmentPerSlot : Nat
  lastSeenVisibleSlot : Nat

structure Transfer where
  amount : Nat
  visibleSlot : Nat

namespace RateLimiter

/-- The initial limit is that of a single replenishment. -/
def new (transferrableTokensLimit limitReplenishmentPerSlot visibleSlot : Nat) : RateLimiter :=
  ⟨transferrableTokensLimit, limitReplenishmentPerSlot, limitReplenishmentPerSlot, visibleSlot⟩

def currentLimitWithReplenishment (r : RateLimiter) (visibleSlot : Nat) : Nat :=
  if visibleSlot ≤ r.lastSeenVisibleSlot ∨ r.currentTransferrableTokens = r.maxTransferrableTokens then
    r.currentTransferrableTokens
  else
    min r.maxTransferrableTokens (saturatingAdd amountMax r.currentTransferrableTokens
      (saturatingMul amountMax r.limitReplenishmentPerSlot (visibleSlot - r.lastSeenVisibleSlot)))

def replenish (r : RateLimiter) (visibleSlot : Nat) : RateLimiter :=
  { r with
    currentTransferrableTokens := r.currentLimitWithReplenishment visibleSlot
    lastSeenVisibleSlot := visibleSlot }

/-- Absent if the transfer exceeds the limit. -/
def onTransfer (r : RateLimiter) (transfer : Transfer) : Option RateLimiter := do
  let r := r.replenish transfer.visibleSlot
  let rest ← checkedSub r.currentTransferrableTokens transfer.amount
  return { r with currentTransferrableTokens := rest }

/-- The limiter after the attempts, of which those that fail are reverted, and what was transferred. -/
def attempts : RateLimiter → List Transfer → RateLimiter × Nat
  | r, [] => (r, 0)
  | r, transfer :: rest =>
    match r.onTransfer transfer with
    | none => r.attempts rest
    | some next => ((next.attempts rest).1, transfer.amount + (next.attempts rest).2)

variable {r next : RateLimiter} {transfer : Transfer}

/-- At most the replenishments of the slots between are added. -/
theorem currentLimit_le (r : RateLimiter) (v d : Nat) :
    r.currentLimitWithReplenishment (v + d) ≤ r.currentLimitWithReplenishment v + r.limitReplenishmentPerSlot * d := by
  have hSlots : r.limitReplenishmentPerSlot * (v + d - r.lastSeenVisibleSlot) ≤
      r.limitReplenishmentPerSlot * (v - r.lastSeenVisibleSlot) + r.limitReplenishmentPerSlot * d := by
    rw [← Nat.mul_add]
    exact Nat.mul_le_mul_left _ (by omega)
  have hSeen : v ≤ r.lastSeenVisibleSlot → r.limitReplenishmentPerSlot * (v - r.lastSeenVisibleSlot) = 0 := by
    intro h
    rw [Nat.sub_eq_zero_of_le h, Nat.mul_zero]
  unfold currentLimitWithReplenishment saturatingAdd saturatingMul
  split <;> split <;> omega

/-- The limit goes down by the amount. -/
theorem onTransfer_ok (h : r.onTransfer transfer = some next) :
    transfer.amount + next.currentLimitWithReplenishment transfer.visibleSlot =
        r.currentLimitWithReplenishment transfer.visibleSlot ∧
      ∃ current ≤ r.currentLimitWithReplenishment transfer.visibleSlot,
        next = { r with currentTransferrableTokens := current, lastSeenVisibleSlot := transfer.visibleSlot } := by
  simp only [onTransfer, Option.bind_eq_bind, Option.bind_eq_some_iff, checkedSub_eq_some] at h
  obtain ⟨_, ⟨hLe, rfl⟩, h⟩ := h
  cases h
  refine ⟨?_, _, Nat.sub_le _ _, rfl⟩
  rw [currentLimitWithReplenishment, if_pos (.inl (Nat.le_refl _))]
  exact Nat.add_sub_of_le hLe

structure Limited (limit replenishment : Nat) (r : RateLimiter) : Prop where
  max : r.maxTransferrableTokens = limit
  perSlot : r.limitReplenishmentPerSlot = replenishment
  current : r.currentTransferrableTokens ≤ limit

variable {limit replenishment : Nat}

theorem Limited.currentLimit (h : r.Limited limit replenishment) (v : Nat) :
    r.currentLimitWithReplenishment v ≤ limit := by
  unfold currentLimitWithReplenishment
  split
  · exact h.current
  · exact h.max ▸ Nat.min_le_left _ _

theorem Limited.attempts (h : r.Limited limit replenishment) (transfers : List Transfer) :
    (r.attempts transfers).1.Limited limit replenishment := by
  induction transfers generalizing r with
  | nil => exact h
  | cons transfer rest ih =>
    unfold RateLimiter.attempts
    split
    · exact ih h
    · rename_i hNext
      obtain ⟨-, current, hLe, rfl⟩ := onTransfer_ok hNext
      exact ih ⟨h.max, h.perSlot, hLe.trans (h.currentLimit _)⟩

theorem attempts_le {first k : Nat} {transfers : List Transfer}
    (hOrder : transfers.Pairwise (·.visibleSlot ≤ ·.visibleSlot))
    (hWithin : ∀ t ∈ transfers, first ≤ t.visibleSlot ∧ t.visibleSlot ≤ first + k) :
    (r.attempts transfers).2 ≤ r.currentLimitWithReplenishment first + r.limitReplenishmentPerSlot * k := by
  induction transfers generalizing r first k with
  | nil => exact Nat.zero_le _
  | cons transfer rest ih =>
    obtain ⟨hLater, hOrder⟩ := List.pairwise_cons.mp hOrder
    obtain ⟨⟨hFirst, hLast⟩, hRest⟩ := List.forall_mem_cons.mp hWithin
    unfold attempts
    split
    · exact ih hOrder hRest
    · rename_i next hNext
      obtain ⟨d, hd⟩ := Nat.exists_eq_add_of_le hFirst
      obtain ⟨k, rfl⟩ := Nat.exists_eq_add_of_le (show d ≤ k by omega)
      -- the rest of the window starts with the slot of the transfer
      have hMore := @ih next (first + d) k hOrder fun t ht =>
        ⟨hd ▸ hLater t ht, (hRest t ht).2.trans_eq (Nat.add_assoc first d k).symm⟩
      obtain ⟨hTaken, _, -, rfl⟩ := onTransfer_ok hNext
      have hUntil := r.currentLimit_le first d
      rw [hd] at hTaken hMore ⊢
      rw [Nat.mul_add]
      dsimp only at hMore ⊢
      omega

/-- In any part of a run, and for any slots that it lies in. -/
theorem transfers_bounded_iff (limit replenishment visibleSlot : Nat) :
    (∀ before window : List Transfer, (before ++ window).Pairwise (·.visibleSlot ≤ ·.visibleSlot) →
      let out := ((new limit replenishment visibleSlot).attempts before).1.attempts window
      out.1.currentTransferrableTokens ≤ limit ∧
        ∀ first k, (∀ t ∈ window, first ≤ t.visibleSlot ∧ t.visibleSlot ≤ first + k) →
          out.2 ≤ limit + k * replenishment) ↔ replenishment ≤ limit := by
  constructor
  · exact fun h => (h [] [] .nil).1
  · intro hLe before window hOrder
    have hStart := (show (new limit replenishment visibleSlot).Limited limit replenishment from
      ⟨rfl, rfl, hLe⟩).attempts before
    refine ⟨(hStart.attempts window).current, fun first k hWithin => ?_⟩
    refine (attempts_le (List.pairwise_append.mp hOrder).2.1 hWithin).trans ?_
    rw [hStart.perSlot, Nat.mul_comm]
    exact Nat.add_le_add_right (hStart.currentLimit first) _

/-- A limit of 10 with a replenishment of 100: in the slot of the registration all 100 are transferred. -/
theorem first_replenishment_exceeds_limit :
    (new 10 100 5).currentTransferrableTokens = 100 ∧ ((new 10 100 5).attempts [⟨100, 5⟩]).2 = 100 :=
  ⟨rfl, rfl⟩

end RateLimiter

end SovereignSdk.Hyperlane
