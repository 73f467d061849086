import Mathlib.Algebra.GroupWithZero.Nat
import SovereignSdk.Library.OrderedMap
import SovereignSdk.Library.Outcome

/-! The cache of the task that computes state roots for the preferred sequencer. It keeps the write sets of the
latest heights within a limit on memory, and the roots of a limited number of heights. -/
namespace SovereignSdk
open Outcome OrderedMap Nat List

def memoryLimitForStateRootComputation : Nat := 100000000

def maxStateRootsToCache : Nat := 100

/-- The `unwrap` of the next entry to prune. -/
inductive StateRootPanic where
  | noEntry
deriving DecidableEq

/-- The keys written, with their values; a deleted key has none. -/
abbrev WriteSet := List (List UInt8 × Option (List UInt8))

def WriteSet.size (writes : WriteSet) : Nat := (writes.map fun w => w.1.length + w.2.elim 0 length).sum

structure StateRootCacheEntry (Root : Type) where
  root : Root
  writes : Option WriteSet
  size : Nat

/-- A request, with the root that is computed for it. -/
structure StateRootComputeRequest (Root : Type) where
  rollupHeight : Nat
  writes : WriteSet
  root : Root

abbrev CachedResults (Root : Type) := List (Nat × StateRootCacheEntry Root)

structure StateRootCache (Root : Type) where
  cachedResults : CachedResults Root
  cachedResultsSize : Nat

namespace StateRootCache
variable {Root : Type}

def empty : StateRootCache Root := ⟨[], 0⟩

variable (checkStateRoots : Bool)

def writesToSave (writes : WriteSet) : Option WriteSet × Nat :=
  if checkStateRoots = true ∧ writes.size ≤ memoryLimitForStateRootComputation / 5 then (some writes, writes.size)
  else (none, 0)

variable (c : StateRootCache Root) (r : StateRootComputeRequest Root)

def insert : StateRootCache Root :=
  let saved := writesToSave checkStateRoots r.writes
  ⟨insertEntry r.rollupHeight ⟨r.root, saved.1, saved.2⟩ c.cachedResults, c.cachedResultsSize + saved.2⟩

/-- The loop over the entries, the oldest first. The count is never below the size of an entry. -/
def pruneWrites : CachedResults Root → Nat → Except StateRootPanic (CachedResults Root × Nat)
  | [], size => if size > memoryLimitForStateRootComputation then .error .noEntry else .ok ([], size)
  | (height, entry) :: entries, size =>
    if size > memoryLimitForStateRootComputation then do
      let (entries, size) ← pruneWrites entries (size - entry.size)
      return ((height, { entry with size := 0, writes := none }) :: entries, size)
    else .ok ((height, entry) :: entries, size)

variable (entries : CachedResults Root)

/-- The oldest entry is dropped if there are too many. -/
def popFirst : CachedResults Root :=
  if entries.length > maxStateRootsToCache then entries.tail else entries

def pruneCache : Except StateRootPanic (StateRootCache Root) := do
  let (entries, size) ← pruneWrites c.cachedResults c.cachedResultsSize
  return ⟨popFirst entries, size⟩

/-- A height that is cached is answered from the cache. -/
def handle : Except StateRootPanic (StateRootCache Root) :=
  if c.cachedResults.any (·.1 = r.rollupHeight) then .ok c else (c.insert checkStateRoots r).pruneCache

def totalSize : Nat := (entries.map (·.2.size)).sum

def droppedSize : Nat :=
  if entries.length > maxStateRootsToCache then entries.head?.elim 0 (·.2.size) else 0

/-- What a request pushes out of the cache does not count: nothing is pushed out, or memory is short and the oldest
entry is emptied before it goes, or it has no size to begin with. -/
def DropsNoSize : Prop :=
  c.cachedResults.any (·.1 = r.rollupHeight) = true ∨ c.cachedResults.length < maxStateRootsToCache ∨
    memoryLimitForStateRootComputation < c.cachedResultsSize + (writesToSave checkStateRoots r.writes).2 ∨
    ∀ e ∈ (c.insert checkStateRoots r).cachedResults.head?, e.2.size = 0

theorem insertEntry_perm {height : Nat} {entry : StateRootCacheEntry Root} {entries : CachedResults Root}
    (hNew : ∀ e ∈ entries, e.1 ≠ height) :
    (insertEntry height entry entries).Perm ((height, entry) :: entries) := by
  induction entries with
  | nil => exact .refl _
  | cons e entries ih =>
    obtain ⟨hHere, hRest⟩ := forall_mem_cons.mp hNew
    rw [insertEntry, if_neg hHere.symm]
    split
    · exact .refl _
    · exact ((ih hRest).cons e).trans (.swap ..)

/-- Pruning returns a count within the limit, keeps the difference between the count and the sum, and empties the
oldest entry whenever it has anything to do. -/
theorem pruneWrites_spec (size : Nat) (hLe : totalSize entries ≤ size)
    (hSurplus : size ≤ memoryLimitForStateRootComputation + totalSize entries) :
    ∃ out, pruneWrites entries size = .ok out ∧ out.2 ≤ memoryLimitForStateRootComputation ∧
      out.1.length = entries.length ∧ out.2 + totalSize entries = size + totalSize out.1 ∧
      droppedSize out.1 = if memoryLimitForStateRootComputation < size then 0 else droppedSize entries := by
  induction entries generalizing size with
  | nil =>
    have hFits : ¬size > memoryLimitForStateRootComputation := Nat.not_lt.mpr hSurplus
    rw [pruneWrites, if_neg hFits, if_neg hFits]
    exact ⟨_, rfl, Nat.le_of_not_lt hFits, rfl, rfl, rfl⟩
  | cons e entries ih =>
    simp only [totalSize, map_cons, sum_cons, length_cons] at hLe hSurplus ih ⊢
    unfold pruneWrites
    split
    · obtain ⟨out, hOut, hLimit, hLen, hSizes, -⟩ := ih (size - e.2.size) (by omega) (by omega)
      rw [hOut]
      refine ⟨_, rfl, hLimit, congrArg (· + 1) hLen, ?_, ?_⟩
      · simp only [map_cons, sum_cons]
        omega
      · simp [droppedSize]
    · exact ⟨_, rfl, Nat.le_of_not_lt ‹_›, rfl, rfl, rfl⟩

theorem popFirst_spec :
    totalSize (popFirst entries) + droppedSize entries = totalSize entries ∧
      (entries.length ≤ maxStateRootsToCache + 1 → (popFirst entries).length ≤ maxStateRootsToCache) := by
  unfold popFirst droppedSize
  split
  · cases entries with
    | nil => exact ⟨rfl, fun _ => zero_le _⟩
    | cons e entries =>
      refine ⟨?_, fun hLen => le_of_succ_le_succ hLen⟩
      simp [totalSize, add_comm]
  · exact ⟨rfl, fun _ => Nat.le_of_not_lt ‹_›⟩

structure Within (c : StateRootCache Root) : Prop where
  size_le : c.cachedResultsSize ≤ memoryLimitForStateRootComputation
  length_le : c.cachedResults.length ≤ maxStateRootsToCache
  total_le : totalSize c.cachedResults ≤ c.cachedResultsSize

def Exact : Prop := c.cachedResultsSize = totalSize c.cachedResults

/-- A request is served and keeps the bounds; the count stays exact just if nothing that counts is pushed out. -/
theorem Within.handle {c : StateRootCache Root} (r : StateRootComputeRequest Root) (h : c.Within) :
    ∃ next, c.handle checkStateRoots r = .ok next ∧ next.Within ∧
      (next.Exact ↔ c.Exact ∧ c.DropsNoSize checkStateRoots r) := by
  unfold StateRootCache.handle DropsNoSize
  split
  · rename_i hCached
    exact ⟨c, rfl, h, by simp [hCached]⟩
  · rename_i hNew
    have hPerm : (c.insert checkStateRoots r).cachedResults.Perm (_ :: c.cachedResults) :=
      insertEntry_perm fun e he hEq => hNew (any_eq_true.mpr ⟨e, he, by simp [hEq]⟩)
    have hLen : _ = c.cachedResults.length + 1 := hPerm.length_eq
    have hTotal : totalSize (c.insert checkStateRoots r).cachedResults =
        (writesToSave checkStateRoots r.writes).2 + totalSize c.cachedResults := (hPerm.map _).sum_nat
    have hSize : (c.insert checkStateRoots r).cachedResultsSize =
        c.cachedResultsSize + (writesToSave checkStateRoots r.writes).2 := rfl
    have hLe := h.total_le
    have hMost := h.size_le
    obtain ⟨out, hOut, hLimit, hOutLen, hSizes, hDropped⟩ := pruneWrites_spec
      (c.insert checkStateRoots r).cachedResults (c.insert checkStateRoots r).cachedResultsSize (by omega) (by omega)
    obtain ⟨hPopped, hMax⟩ := popFirst_spec out.1
    refine ⟨⟨popFirst out.1, out.2⟩, ?_, ⟨hLimit, hMax ?_, ?_⟩, ?_⟩
    · rw [pruneCache, hOut]
      rfl
    · exact hOutLen.trans hLen |>.le.trans (succ_le_succ h.length_le)
    · dsimp only
      omega
    · have hNone : droppedSize out.1 = 0 ↔ c.cachedResults.length < maxStateRootsToCache ∨
          memoryLimitForStateRootComputation < c.cachedResultsSize + (writesToSave checkStateRoots r.writes).2 ∨
          ∀ e ∈ (c.insert checkStateRoots r).cachedResults.head?, e.2.size = 0 := by
        rw [hDropped, hSize, droppedSize, hLen]
        cases (c.insert checkStateRoots r).cachedResults.head? with
        | none => simp
        | some oldest =>
          simp only [Option.elim_some, Option.mem_def, Option.some.injEq, forall_eq', ite_eq_left_iff, ite_eq_right_iff]
          omega
      simp only [hNew, Bool.false_eq_true, false_or, ← hNone, Exact]
      omega

/-- For all requests: each is served without a failing `unwrap`, the count stays within the limit on memory and there
are never too many entries. The count is the sum of the sizes of the cached entries just if no request pushed out an
entry that still counted. -/
theorem cache_exact_iff (requests : List (StateRootComputeRequest Root)) :
    ∃ c : StateRootCache Root, requests.foldlM (StateRootCache.handle checkStateRoots) empty = .ok c ∧
      c.cachedResultsSize ≤ memoryLimitForStateRootComputation ∧ c.cachedResults.length ≤ maxStateRootsToCache ∧
      (c.cachedResultsSize = totalSize c.cachedResults ↔
        Along (StateRootCache.handle checkStateRoots) (DropsNoSize checkStateRoots) empty requests) := by
  have hStart : (empty : StateRootCache Root).Within := ⟨zero_le _, zero_le _, le_refl 0⟩
  have hStep : ∀ (c : StateRootCache Root) r next, c.Within → c.handle checkStateRoots r = .ok next →
      next.Within ∧ (next.Exact ↔ c.Exact ∧ c.DropsNoSize checkStateRoots r) := by
    intro c r next h hNext
    obtain ⟨_, hOk, hKept⟩ := h.handle checkStateRoots r
    rwa [← Except.ok.inj (hOk.symm.trans hNext)]
  have hReturns := Returns.foldlM Within (l := requests)
    (fun c r _ h => Returns.of_eq (h.handle checkStateRoots r).choose_spec.1)
    (fun c r _ next h hNext => (hStep c r next h hNext).1) hStart
  obtain ⟨c, hRun⟩ := hReturns.exists_ok
  have hWithin := foldlM_invariant Within (fun c r next h hNext => (hStep c r next h hNext).1) hStart hRun
  refine ⟨c, hRun, hWithin.size_le, hWithin.length_le, ?_⟩
  exact (foldlM_iff_along Within Exact hStep hStart hRun).trans (and_iff_right rfl)

def smallRequests (n : Nat) : List (StateRootComputeRequest Unit) :=
  (range n).map fun height => ⟨height, [([7], none)], ()⟩

/-- One more request than there is room for: the size of the entry that is dropped stays in the count. -/
theorem dropped_entry_stays_counted :
    ∃ c : StateRootCache Unit, (smallRequests 101).foldlM (StateRootCache.handle true) empty = .ok c ∧
      c.cachedResultsSize = 101 ∧ totalSize c.cachedResults = 100 :=
  ⟨_, returned, by decide +kernel⟩

end StateRootCache
end SovereignSdk
