import Mathlib.Algebra.GroupWithZero.Nat
import SovereignSdk.State.CacheLayers

/-! The pinned cache: buckets of values kept in memory, in front of the storage. A bucket that is not
dropped answers for every key that falls under it. Writes go to the buckets at once, beside the log
of the cache. -/
namespace SovereignSdk
open Outcome Option AList List

/-- Slot keys, as far as the pinned cache takes them apart: the two bytes that name the state item,
and the first bytes of the rest. -/
structure SlotKeyLayout (κ : Type) where
  ItemPrefix : Type
  prefixDecEq : DecidableEq ItemPrefix
  prefixOf : κ → ItemPrefix
  truncateTo : κ → Nat → Option κ

instance {κ : Type} (L : SlotKeyLayout κ) : DecidableEq L.ItemPrefix := L.prefixDecEq

/-- A bucket with a limit on its size. The size counts every insertion, and deletions do not reduce
it, so it is at least that of each value. -/
structure BucketStorage (κ : Type) [DecidableEq κ] where
  items : AList fun _ : κ => SlotValue
  currentSize : Nat
  maxSize : Nat
  fits : ∀ key v, items.lookup key = some v → v.Fits
  size_le : ∀ key v, items.lookup key = some v → v.value.length ≤ currentSize

variable {κ W : Type} [LinearOrder κ]

namespace BucketStorage
variable (bucket : BucketStorage κ)

def get (key : κ) : Option SlotValue := bucket.items.lookup key

theorem empty_fits (k : κ) (v : SlotValue) (h : (∅ : AList fun _ : κ => SlotValue).lookup k = some v) : v.Fits := by
  cases h

theorem empty_size_le (k : κ) (v : SlotValue) (h : (∅ : AList fun _ : κ => SlotValue).lookup k = some v) :
    v.value.length ≤ 0 := by
  cases h

def empty (maxSize : Nat) : BucketStorage κ where
  items := ∅
  currentSize := 0
  maxSize := maxSize
  fits := empty_fits
  size_le := empty_size_le

variable {key : κ} {value : SlotValue}

theorem insert_fits (hFits : value.value.length < UInt32.size) (k : κ) (v : SlotValue)
    (h : (bucket.items.insert key value).lookup k = some v) : v.Fits := by
  rw [lookup_insert] at h
  split at h
  · cases h
    exact hFits
  · exact bucket.fits k v h

theorem insert_size_le (k : κ) (v : SlotValue) (h : (bucket.items.insert key value).lookup k = some v) :
    v.value.length ≤ bucket.currentSize + value.value.length := by
  rw [lookup_insert] at h
  split at h
  · cases h
    omega
  · have hLe := bucket.size_le k v h
    omega

/-- The bucket with the value, or none if the value does not fit into it. -/
def tryInsert (key : κ) (value : SlotValue) : Except StatePanic (Option (BucketStorage κ)) :=
  -- `value.size()` stops at a value that is too long.
  if hFits : value.value.length < UInt32.size then
    if bucket.maxSize < bucket.currentSize + value.value.length then .ok none
    else
      .ok (some
        { items := bucket.items.insert key value
          currentSize := bucket.currentSize + value.value.length
          maxSize := bucket.maxSize
          fits := bucket.insert_fits hFits
          size_le := bucket.insert_size_le })
  else .error .sizeOverflow

theorem lookup_erase {k v} (h : (bucket.items.erase key).lookup k = some v) : bucket.items.lookup k = some v := by
  by_cases hKey : k = key
  · subst hKey
    rw [lookup_erase] at h
    cases h
  · rwa [lookup_erase_ne hKey] at h

/-- The value is removed. Its size is subtracted from `current_size` only to check that there is no
underflow, which `size_le` rules out; the difference is not stored. -/
def delete (key : κ) : BucketStorage κ where
  items := bucket.items.erase key
  currentSize := bucket.currentSize
  maxSize := bucket.maxSize
  fits k v h := bucket.fits k v (bucket.lookup_erase h)
  size_le k v h := bucket.size_le k v (bucket.lookup_erase h)

theorem tryInsert_ok {bucket bucket' : BucketStorage κ} (h : bucket.tryInsert key value = .ok (some bucket'))
    (k : κ) : bucket'.get k = if k = key then some value else bucket.get k := by
  unfold tryInsert at h
  split at h
  · split at h
    · cases h
    · cases h
      exact lookup_insert _ _ _ _
  · cases h

theorem tryInsert_error {bucket : BucketStorage κ} {p : StatePanic} (h : bucket.tryInsert key value = .error p) :
    p = .sizeOverflow ∧ ¬value.Fits := by
  unfold tryInsert at h
  split at h
  · split at h <;> cases h
  · cases h
    exact ⟨rfl, ‹_›⟩

theorem get_delete (key k : κ) : (bucket.delete key).get k = if k = key then none else bucket.get k := by
  by_cases hKey : k = key
  · subst hKey
    rw [if_pos rfl]
    exact AList.lookup_erase _ _
  · rw [if_neg hKey]
    exact lookup_erase_ne hKey

def liveSize : Nat := (bucket.items.entries.map fun e => e.2.value.length).sum

def sizeAt (key : κ) : Nat := (bucket.get key).elim 0 (·.value.length)

theorem sum_kerase (key : κ) (l : List (Sigma fun _ : κ => SlotValue)) :
    ((l.kerase key).map fun e => e.2.value.length).sum + (l.dlookup key).elim 0 (·.value.length) =
      (l.map fun e => e.2.value.length).sum := by
  induction l with
  | nil => rfl
  | cons e l ih =>
    obtain ⟨k, v⟩ := e
    by_cases hKey : key = k
    · subst hKey
      simp [Nat.add_comm]
    · rw [kerase_cons_ne hKey, dlookup_cons_ne _ _ hKey, map_cons, map_cons, sum_cons,
        sum_cons, ← ih, Nat.add_assoc]

theorem liveSize_erase (key : κ) : (bucket.delete key).liveSize + bucket.sizeAt key = bucket.liveSize :=
  sum_kerase key bucket.items.entries

inductive Operation (κ : Type) where
  | tryInsert (key : κ) (value : SlotValue)
  | delete (key : κ)

def perform (bucket : BucketStorage κ) : Operation κ → Except StatePanic (BucketStorage κ)
  | .tryInsert key value => do return (← bucket.tryInsert key value).getD bucket
  | .delete key => return bucket.delete key

/-- The size of the value that an operation deletes or replaces. -/
def sizeTakenOut (bucket : BucketStorage κ) : Operation κ → Nat
  | .tryInsert key value => if bucket.maxSize < bucket.currentSize + value.value.length then 0 else bucket.sizeAt key
  | .delete key => bucket.sizeAt key

/-- What is taken out stays in the count. -/
theorem perform_sizes {bucket bucket' : BucketStorage κ} {operation : Operation κ}
    (h : bucket.perform operation = .ok bucket') :
    bucket'.maxSize = bucket.maxSize ∧ (bucket.currentSize ≤ bucket.maxSize → bucket'.currentSize ≤ bucket.maxSize) ∧
      bucket'.currentSize + bucket.liveSize =
        bucket.currentSize + bucket'.liveSize + bucket.sizeTakenOut operation := by
  cases operation with
  | tryInsert key value =>
    simp only [perform, bind_eq_ok, pure_eq_ok, tryInsert] at h
    obtain ⟨inserted, hInsert, rfl⟩ := h
    split at hInsert
    · split at hInsert <;> rename_i hRoom <;> cases hInsert
      · simp [sizeTakenOut, hRoom]
      · have hErase := bucket.liveSize_erase key
        refine ⟨rfl, fun _ => Nat.le_of_not_lt hRoom, ?_⟩
        rw [sizeTakenOut, if_neg hRoom]
        change bucket.currentSize + value.value.length + bucket.liveSize =
          bucket.currentSize + (value.value.length + (bucket.delete key).liveSize) + bucket.sizeAt key
        omega
    · cases hInsert
  | delete key =>
    cases h
    refine ⟨rfl, id, ?_⟩
    rw [sizeTakenOut, Nat.add_assoc, liveSize_erase]
    rfl

theorem perform_error {operation} {p} (h : bucket.perform operation = .error p) :
    p = .sizeOverflow := by
  cases operation with
  | tryInsert key value =>
    rcases bind_eq_error.mp h with hInsert | ⟨_, -, hReturn⟩
    · exact (tryInsert_error hInsert).1
    · cases hReturn
  | delete key => cases h

/-- The count is at least the size of what is stored. -/
structure Counted (maxSize : Nat) (bucket : BucketStorage κ) : Prop where
  limit : bucket.maxSize = maxSize
  currentSize_le : bucket.currentSize ≤ maxSize
  liveSize_le : bucket.liveSize ≤ bucket.currentSize

theorem Counted.perform {maxSize : Nat} {bucket bucket' : BucketStorage κ} {operation : Operation κ}
    (h : bucket.Counted maxSize) (hStep : bucket.perform operation = .ok bucket') :
    bucket'.Counted maxSize ∧ (bucket'.currentSize = bucket'.liveSize ↔
      bucket.currentSize = bucket.liveSize ∧ bucket.sizeTakenOut operation = 0) := by
  obtain ⟨hMax, hLe, hSizes⟩ := perform_sizes hStep
  have hLive := h.liveSize_le
  rw [h.limit] at hMax hLe
  exact ⟨⟨hMax, hLe h.currentSize_le, by omega⟩, by omega⟩

/-- For every sequence of insertions and deletions: the count is never above the limit and never below the size of a
value that can be deleted. It is the size of what is stored, and a value is refused only for lack of room, just if no
value that takes up room was ever deleted or replaced. -/
theorem currentSize_exact_iff (maxSize : Nat) (operations : List (Operation κ)) :
    Yields
      (fun bucket : BucketStorage κ =>
        bucket.currentSize ≤ maxSize ∧ (∀ key, bucket.sizeAt key ≤ bucket.currentSize) ∧
          ((bucket.currentSize = bucket.liveSize ∧ ∀ key value, bucket.tryInsert key value = .ok none →
              maxSize < bucket.liveSize + value.value.length) ↔
            Along BucketStorage.perform (fun bucket operation => bucket.sizeTakenOut operation = 0) (empty maxSize)
              operations))
      (· = .sizeOverflow) (operations.foldlM BucketStorage.perform (empty maxSize)) := by
  have hStart : (empty maxSize : BucketStorage κ).Counted maxSize := ⟨rfl, Nat.zero_le _, Nat.le_refl 0⟩
  refine .intro (fun bucket hRun => ?_) fun p hRun => ?_
  · have hCounted := foldlM_invariant (Counted maxSize) (fun _ _ _ h hStep => (h.perform hStep).1) hStart hRun
    have hIff := foldlM_iff_along (Counted maxSize) (fun b => b.currentSize = b.liveSize)
      (fun _ _ _ h hStep => h.perform hStep) hStart hRun
    refine ⟨hCounted.currentSize_le, fun key => ?_, ?_⟩
    · cases hGet : bucket.get key with
      | none => simp [sizeAt, hGet]
      | some v => simpa [sizeAt, hGet] using bucket.size_le key v hGet
    · refine .trans (and_iff_left_of_imp fun hExact key value hRefused => ?_) (hIff.trans (and_iff_right rfl))
      rw [← hExact, ← hCounted.limit]
      unfold tryInsert at hRefused
      split at hRefused <;> [skip; cases hRefused]
      split at hRefused
      · assumption
      · cases hRefused
  · have hRaises : Yields (fun _ => True) (· = .sizeOverflow) (operations.foldlM BucketStorage.perform (empty maxSize)) :=
      .foldlM _ _ (fun b _ _ _ => .intro (fun _ _ => trivial) fun _ => b.perform_error) trivial
    exact hRaises.of_error hRun

/-- Of a value that was stored and deleted its size remains, and keeps another one out. -/
theorem deleted_value_keeps_its_size :
    ∃ bucket : BucketStorage Nat,
      [.tryInsert 0 ⟨[7]⟩, .delete 0].foldlM BucketStorage.perform (empty 1) = .ok bucket ∧ bucket.liveSize = 0 ∧
        bucket.currentSize = 1 ∧ bucket.tryInsert 0 ⟨[7]⟩ = .ok none :=
  ⟨_, rfl, rfl, rfl, rfl⟩

end BucketStorage

/-- The buckets of one state item; a dropped one is `none`. -/
structure StateItemCache (κ : Type) [DecidableEq κ] where
  bucketKeyLength : Nat
  items : AList fun _ : κ => Option (BucketStorage κ)

structure PinnedCache {κ : Type} [DecidableEq κ] (L : SlotKeyLayout κ) where
  itemCaches : AList fun _ : L.ItemPrefix => StateItemCache κ

namespace PinnedCache
variable {L : SlotKeyLayout κ} (pinned : PinnedCache L)

def bucketFor (key : κ) : Option (BucketStorage κ) := do
  let stateItemCache ← pinned.itemCaches.lookup (L.prefixOf key)
  let relevantKey ← L.truncateTo key stateItemCache.bucketKeyLength
  (stateItemCache.items.lookup relevantKey).join

def assignBucket (key : κ) (bucket : Option (BucketStorage κ)) : PinnedCache L :=
  match pinned.itemCaches.lookup (L.prefixOf key) with
  | none => pinned
  | some stateItemCache =>
    match L.truncateTo key stateItemCache.bucketKeyLength with
    | none => pinned
    | some relevantKey =>
      ⟨pinned.itemCaches.insert (L.prefixOf key)
        { stateItemCache with items := stateItemCache.items.insert relevantKey bucket }⟩

def dropBucketFor (key : κ) : PinnedCache L := pinned.assignBucket key none

theorem bucketFor_assignBucket {pinned : PinnedCache L} {key key' : κ} {old : BucketStorage κ}
    {bucket : Option (BucketStorage κ)} (hOld : pinned.bucketFor key = some old) :
    (pinned.assignBucket key bucket).bucketFor key' = pinned.bucketFor key' ∨
      pinned.bucketFor key' = some old ∧ (pinned.assignBucket key bucket).bucketFor key' = bucket := by
  simp only [bucketFor, bind_eq_bind, bind_eq_some_iff] at hOld
  obtain ⟨stateItemCache, hCache, relevantKey, hKey, hBucket⟩ := hOld
  have hFound (p : L.ItemPrefix) (hSame : p = L.prefixOf key) : pinned.itemCaches.lookup p = some stateItemCache := by
    rw [hSame, hCache]
  unfold assignBucket
  simp only [hCache, hKey, bucketFor, lookup_insert, bind_eq_bind]
  by_cases hSame : L.prefixOf key' = L.prefixOf key
  · rw [if_pos hSame, hFound _ hSame, bind_some, bind_some]
    cases hOther : L.truncateTo key' stateItemCache.bucketKeyLength with
    | none => exact .inl rfl
    | some other =>
      rw [bind_some]
      by_cases hBoth : other = relevantKey
      · subst hBoth
        refine .inr ⟨hBucket, ?_⟩
        rw [AList.lookup_insert, join_some]
      · rw [lookup_insert_ne hBoth]
        exact .inl rfl
  · rw [if_neg hSame]
    exact .inl rfl

theorem bucketFor_assignBucket_self {pinned : PinnedCache L} {key : κ} {old : BucketStorage κ}
    {bucket : Option (BucketStorage κ)} (hOld : pinned.bucketFor key = some old) :
    (pinned.assignBucket key bucket).bucketFor key = bucket := by
  simp only [bucketFor, bind_eq_bind, bind_eq_some_iff] at hOld
  obtain ⟨stateItemCache, hCache, relevantKey, hKey, -⟩ := hOld
  unfold assignBucket
  simp [bucketFor, hCache, hKey]

end PinnedCache

/-- The cache of a native node with its pinned cache, if it has one. -/
structure PinnedStorageCache {κ : Type} [DecidableEq κ] (L : SlotKeyLayout κ) where
  inner : ProvableStorageCache κ
  pinnedCache : Option (PinnedCache L)

namespace PinnedStorageCache
variable {L : SlotKeyLayout κ}

def bucketFor (c : PinnedStorageCache L) (key : κ) : Option (BucketStorage κ) := do
  (← c.pinnedCache).bucketFor key

variable (c : PinnedStorageCache L)

/-- The value that the pinned cache has for a key, if it answers for the key. -/
def checkPinnedCache (key : κ) : Option (Option SlotValue) :=
  (c.bucketFor key).map (·.get key)

def getSizeOrFetch (storage : Storage κ W) (c : PinnedStorageCache L) (witness : W) (key : κ) :
    Except StatePanic (Option UInt32 × PinnedStorageCache L × W) :=
  match c.inner.cache.get key, c.checkPinnedCache key with
  | none, some value => do
      -- The read is not added to the cache.
      let size ← value.mapM SlotValue.size
      return (size, c, witness)
  | _, _ => do
      let (size, inner, witness) ← c.inner.getSizeOrFetch storage witness key
      return (size, { c with inner }, witness)

def fetchFrom (storage : Storage κ W) (c : PinnedStorageCache L) : Storage κ W where
  getLeaf := storage.getLeaf
  get key witness :=
    match c.checkPinnedCache key with
    | some value => .ok (value, witness)
    | none => storage.get key witness
  putInWitness := storage.putInWitness

def getOrFetch (digest : List UInt8 → Digest) (storage : Storage κ W) (c : PinnedStorageCache L) (witness : W)
    (key : κ) : Except StatePanic (Option SlotValue × PinnedStorageCache L × W) := do
  let (value, inner, witness) ← c.inner.getOrFetch digest (c.fetchFrom storage) witness key
  return (value, { c with inner }, witness)

/-- The pinned cache after a value is set; a bucket that cannot take it is dropped. -/
def pinnedSet (key : κ) (value : SlotValue) : Except StatePanic (Option (PinnedCache L)) :=
  match c.pinnedCache with
  | none => .ok none
  | some pinned =>
    match pinned.bucketFor key with
    | none => .ok (some pinned)
    | some bucket => do
        match ← bucket.tryInsert key value with
        | some bucket => return some (pinned.assignBucket key (some bucket))
        | none => return some (pinned.dropBucketFor key)

def set (c : PinnedStorageCache L) (key : κ) (value : SlotValue) : Except StatePanic (PinnedStorageCache L) := do
  let pinnedCache ← c.pinnedSet key value
  let inner ← c.inner.set key value
  return { inner, pinnedCache }

def pinnedDelete (key : κ) : Option (PinnedCache L) :=
  c.pinnedCache.map fun pinned =>
    match pinned.bucketFor key with
    | none => pinned
    | some bucket => pinned.assignBucket key (some (bucket.delete key))

def delete (c : PinnedStorageCache L) (key : κ) : Except StatePanic (PinnedStorageCache L) := do
  let inner ← c.inner.delete key
  return { inner, pinnedCache := c.pinnedDelete key }

def commitRevertableStorageCache (c : PinnedStorageCache L) : Except StatePanic (PinnedStorageCache L) := do
  return { c with inner := ← c.inner.commitRevertableStorageCache }

/-- The pinned cache stays as it is. -/
def discardRevertableStorageCache (c : PinnedStorageCache L) : PinnedStorageCache L :=
  { c with inner := c.inner.discardRevertableStorageCache }

def perform (digest : List UInt8 → Digest) (storage : Storage κ W) (state : PinnedStorageCache L × W)
    (operation : CacheOperation κ) : Except StatePanic ((PinnedStorageCache L × W) × CacheAnswer) :=
  match operation with
  | .get key => do
      let (value, next) ← state.1.getOrFetch digest storage state.2 key
      return (next, .value value)
  | .getSize key => do
      let (size, next) ← state.1.getSizeOrFetch storage state.2 key
      return (next, .size size)
  | .set key value => do
      let c ← state.1.set key value
      return ((c, state.2), .done)
  | .delete key => do
      let c ← state.1.delete key
      return ((c, state.2), .done)
  | .commit => do
      let c ← state.1.commitRevertableStorageCache
      return ((c, state.2), .done)
  | .discard => return ((state.1.discardRevertableStorageCache, state.2), .done)

end PinnedStorageCache
end SovereignSdk
