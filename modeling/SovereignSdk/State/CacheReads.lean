import SovereignSdk.State.CacheLayers
import SovereignSdk.Library.OrderedMap
import SovereignSdk.State.Storage

/-! Operations on the cache, one after another: their answers, and the reads and writes
that are left at the end. -/
namespace SovereignSdk
open Outcome CacheOperation ProvableStorageCache CacheLog AList

variable {κ W : Type} [LinearOrder κ] {digest : List UInt8 → Digest} {storage : Storage κ W}
  {contents : κ → Option SlotValue} {m : LayeredMap κ SlotValue} {c : ProvableStorageCache κ}

def CacheOperation.onLayers (contents : κ → Option SlotValue) (m : LayeredMap κ SlotValue) :
    CacheOperation κ → LayeredMap κ SlotValue × CacheAnswer
  | .get key => (m, .value (m.read contents key))
  | .getSize key => (m, .size ((m.read contents key).map fun v => UInt32.ofNat v.value.length))
  | .set key value => (m.write key (some value), .done)
  | .delete key => (m.write key none, .done)
  | .commit => (m.commit, .done)
  | .discard => (m.discard, .done)

/-- A value that the storage holds or that is written, and that is too long. -/
def TooLong (contents : κ → Option SlotValue) (operations : List (CacheOperation κ)) : Prop :=
  ∃ v : SlotValue, ¬v.Fits ∧ ((∃ key, contents key = some v) ∨ ∃ key, .set key v ∈ operations)

omit [LinearOrder κ] in
theorem Oversized.tooLong {stored : Option SlotValue} {operations : List (CacheOperation κ)} {p}
    (h : Oversized stored p)
    (hWhere : ∀ v, stored = some v → (∃ key, contents key = some v) ∨ ∃ key, .set key v ∈ operations) :
    p = .sizeOverflow ∧ TooLong contents operations := by
  obtain ⟨hp, v, hStored, hLong⟩ := h
  exact ⟨hp, v, hLong, hWhere v hStored⟩

namespace ProvableStorageCache
variable {key : κ}

theorem addRead_layers (h : c.cache.Layers digest contents m) (hNone : c.cache.get key = none)
    {node} (hHolds : Holds digest (contents key) node) :
    ∃ c', c.addRead key node = .ok c' ∧ c'.cache.Layers digest contents m := by
  obtain ⟨cache, hAdd, hLayers⟩ := h.addRead hNone hHolds
  exact ⟨_, by rw [addRead, hAdd]; rfl, hLayers⟩

theorem addWrite_layers (h : c.cache.Layers digest contents m) (value : Option SlotValue) :
    Yields (fun c' => c'.cache.Layers digest contents (m.write key value))
      (Oversized value) (c.addWrite key value) := by
  refine (h.addWrite value).bind ?_
  rintro ⟨cache, cached⟩ hLayers
  exact hLayers

theorem getSizeOrFetch_layers (hFixed : storage.Fixed digest contents) (h : c.cache.Layers digest contents m)
    (witness : W) :
    Yields (fun out => out.1 = (m.read contents key).map (fun v => UInt32.ofNat v.value.length) ∧
        out.2.1.cache.Layers digest contents m)
      (Oversized (contents key)) (c.getSizeOrFetch storage witness key) := by
  have hSize : ∀ {stored : Option SlotValue} {node}, Holds digest stored node →
      node.map (·.leaf.size) = stored.map fun v => UInt32.ofNat v.value.length := by
    intro stored node hHolds
    cases hHolds <;> rfl
  have hEntry := h.get key
  unfold getSizeOrFetch LayeredMap.read
  cases hGet : c.cache.get key with
  | none =>
    rw [hGet] at hEntry
    refine (hFixed.getLeaf key witness).bind ?_
    rintro ⟨leaf, witness'⟩ hHolds
    obtain ⟨c', hAdd, hLayers⟩ := addRead_layers h hGet hHolds
    dsimp only
    rw [hAdd, hEntry.of_none]
    exact ⟨hSize hHolds, hLayers⟩
  | some access =>
    rw [hGet] at hEntry
    cases access with
    | read node =>
      rw [hEntry.of_read.1]
      exact ⟨hSize hEntry.of_read.2, h⟩
    | write value =>
      rw [hEntry.of_write.1]
      cases value with
      | none => exact ⟨rfl, h⟩
      | some v =>
        have hFits : v.Fits := hEntry.of_write.2 v rfl
        simp only [Option.mapM_some, hFits.size]
        exact ⟨rfl, h⟩

/-- The storage is asked for a value that is not cached, or of which only the size is. -/
def Fetches (c : ProvableStorageCache κ) (key : κ) : Prop :=
  c.cache.get key = none ∨ ∃ node, c.cache.get key = some (.read (some node)) ∧ node.value = .getSizeValueNotFetched

theorem getOrFetch_layers_of_fetch {witness}
    (hFetch : c.Fetches key → ∃ witness', storage.get key witness = .ok (contents key, witness'))
    (h : c.cache.Layers digest contents m) :
    Yields (fun out => out.1 = m.read contents key ∧ out.2.1.cache.Layers digest contents m)
      (Oversized (contents key)) (c.getOrFetch digest storage witness key) := by
  have hEntry := h.get key
  unfold getOrFetch LayeredMap.read
  cases hGet : c.cache.get key with
  | none =>
    obtain ⟨witness', hFetch⟩ := hFetch (.inl hGet)
    rw [hGet] at hEntry
    rw [hFetch, hEntry.of_none]
    refine (newRead_yields (contents key)).bind fun read hHolds => ?_
    obtain ⟨c', hAdd, hLayers⟩ := addRead_layers h hGet hHolds
    rw [hAdd]
    exact ⟨rfl, hLayers⟩
  | some access =>
    rw [hGet] at hEntry
    cases access with
    | write value =>
      rw [hEntry.of_write.1]
      exact ⟨rfl, h⟩
    | read node =>
      obtain ⟨hUnwr, hHolds⟩ := hEntry.of_read
      rw [hUnwr]
      cases node with
      | none => exact ⟨hHolds.of_none.symm, h⟩
      | some node =>
        obtain ⟨v, hStored, hFits, hLeaf, hStage⟩ := hHolds.of_some
        have hCached : (c.cache.assign key (.read (some { node with value := .read v }))).Layers digest
            contents m := by
          refine h.assign hGet ?_
          rw [hStored, hLeaf]
          exact .value hFits (.inr (.inr rfl))
        rcases hStage with hStage | hStage | hStage
        · obtain ⟨witness', hFetch⟩ := hFetch (.inr ⟨node, hGet, hStage⟩)
          rw [hStored] at hFetch ⊢
          simp only [hStage, hFetch, ok_bind, unwrap_some, hFits.makeLeaf, ensure, if_pos hLeaf]
          exact ⟨rfl, hCached⟩
        · rw [hStored]
          simp only [hStage]
          exact ⟨rfl, hCached⟩
        · rw [hStored]
          simp only [hStage]
          exact ⟨rfl, h⟩

theorem getOrFetch_layers (hFixed : storage.Fixed digest contents) (h : c.cache.Layers digest contents m)
    (witness : W) :
    Yields (fun out => out.1 = m.read contents key ∧ out.2.1.cache.Layers digest contents m)
      (Oversized (contents key)) (c.getOrFetch digest storage witness key) :=
  getOrFetch_layers_of_fetch (fun _ => hFixed.get key witness) h

theorem commitRevertableStorageCache_layers (h : c.cache.Layers digest contents m) :
    ∃ c', c.commitRevertableStorageCache = .ok c' ∧ c'.cache.Layers digest contents m.commit := by
  obtain ⟨log, hCommit, -, hLayers⟩ := h.commit
  exact ⟨_, by rw [commitRevertableStorageCache, hCommit]; rfl, hLayers⟩

theorem perform_layers (hFixed : storage.Fixed digest contents) {operations}
    (state : ProvableStorageCache κ × W) (m : LayeredMap κ SlotValue) (operation : CacheOperation κ)
    (hMem : operation ∈ operations) (h : state.1.cache.Layers digest contents m) :
    Yields (fun out => out.1.1.cache.Layers digest contents (operation.onLayers contents m).1 ∧
        out.2 = (operation.onLayers contents m).2)
      (fun p => p = .sizeOverflow ∧ TooLong contents operations)
      (perform digest storage state operation) := by
  cases operation with
  | get key =>
    refine .bind ((getOrFetch_layers hFixed h state.2).imp_error fun _ h => h.tooLong fun v hv => .inl ⟨key, hv⟩) ?_
    rintro ⟨value, next⟩ ⟨rfl, hNext⟩
    exact ⟨hNext, rfl⟩
  | getSize key =>
    refine .bind ((getSizeOrFetch_layers hFixed h state.2).imp_error fun _ h => h.tooLong fun v hv => .inl ⟨key, hv⟩) ?_
    rintro ⟨size, next⟩ ⟨rfl, hNext⟩
    exact ⟨hNext, rfl⟩
  | set key value =>
    refine .bind ((addWrite_layers h (some value)).imp_error fun _ h => h.tooLong ?_) fun _ hNext => ⟨hNext, rfl⟩
    rintro v ⟨⟩
    exact .inr ⟨key, hMem⟩
  | delete key =>
    exact .bind ((addWrite_layers h none).imp_error fun _ h => h.tooLong nofun) fun _ hNext => ⟨hNext, rfl⟩
  | commit =>
    obtain ⟨c', hCommit, hLayers⟩ := commitRevertableStorageCache_layers h
    simp only [perform, hCommit]
    exact ⟨hLayers, rfl⟩
  | discard => exact ⟨h.discard, rfl⟩

end ProvableStorageCache

/-! The reads that a cache lists: those of the operations that were not discarded, each at
its first access, unless that was a write. -/
open CacheOperation ProvableStorageCache CacheLog List

namespace CacheOperation

def readKey : CacheOperation κ → Option κ
  | .get key => some key
  | .getSize key => some key
  | _ => none

def writtenKey : CacheOperation κ → Option κ
  | .set key _ => some key
  | .delete key => some key
  | _ => none

def key (operation : CacheOperation κ) : Option κ := operation.readKey.or operation.writtenKey

end CacheOperation

/-- The operations that have been committed, and those that can still be discarded. -/
structure CacheHistory (κ : Type) where
  kept : List (CacheOperation κ)
  pending : List (CacheOperation κ)

def CacheHistory.operations (h : CacheHistory κ) : List (CacheOperation κ) := h.kept ++ h.pending

def CacheHistory.next (h : CacheHistory κ) : CacheOperation κ → CacheHistory κ
  | .commit => ⟨h.operations, []⟩
  | .discard => ⟨h.kept, []⟩
  | operation => ⟨h.kept, h.pending ++ [operation]⟩

variable (operations : List (CacheOperation κ))

/-- What is left of a list of operations without those that a discard has undone. -/
def survivors : List (CacheOperation κ) :=
  (operations.foldl CacheHistory.next ⟨[], []⟩).operations

def readsBeforeWrites (written : List κ) : List (CacheOperation κ) → List κ
  | [] => []
  | operation :: rest =>
    match operation.readKey with
    | some key =>
      if key ∈ written then readsBeforeWrites written rest else key :: readsBeforeWrites written rest
    | none => readsBeforeWrites (operation.writtenKey.toList ++ written) rest

/-- The keys read before any write to them, once each, in the order of their first read. -/
def storageReads : List κ :=
  (readsBeforeWrites [] operations).eraseDups

def accessed : List κ := operations.filterMap key

variable {written : List κ} {operations : List (CacheOperation κ)} {operation : CacheOperation κ} {key : κ}

theorem readsBeforeWrites_append_read (hRead : operation.readKey = some key) :
    readsBeforeWrites written (operations ++ [operation]) = readsBeforeWrites written operations ++
      if key ∈ written ∨ key ∈ operations.filterMap writtenKey then [] else [key] := by
  induction operations generalizing written with
  | nil => simp [readsBeforeWrites, hRead]
  | cons first rest ih =>
    cases first with
    | get k | getSize k =>
      simp only [cons_append, readsBeforeWrites, readKey, ih, filterMap_cons]
      split <;> rfl
    | set k v | delete k =>
      simp only [cons_append, readsBeforeWrites, readKey, ih, filterMap_cons,
        writtenKey, Option.toList_some, nil_append, mem_cons]
      simp only [or_assoc, or_left_comm]
    | commit | discard => exact ih

theorem readsBeforeWrites_append_other (hRead : operation.readKey = none) :
    readsBeforeWrites written (operations ++ [operation]) = readsBeforeWrites written operations := by
  induction operations generalizing written with
  | nil => simp [readsBeforeWrites, hRead]
  | cons first rest ih => simp only [cons_append, readsBeforeWrites, ih]

theorem mem_accessed (hKey : key ∉ written) :
    key ∈ accessed operations ↔
      key ∈ readsBeforeWrites written operations ∨ key ∈ operations.filterMap writtenKey := by
  unfold accessed
  induction operations generalizing written with
  | nil => simp [readsBeforeWrites]
  | cons first rest ih =>
    cases first with
    | get k | getSize k =>
      simp only [filterMap_cons, CacheOperation.key, CacheOperation.readKey, CacheOperation.writtenKey,
        Option.some_or, mem_cons, readsBeforeWrites, ih hKey]
      split
      · rename_i hWritten
        exact or_iff_right fun hEq => hKey (hEq ▸ hWritten)
      · rw [mem_cons, or_assoc]
    | set k v | delete k =>
      simp only [filterMap_cons, CacheOperation.key, CacheOperation.readKey, CacheOperation.writtenKey,
        Option.none_or, mem_cons, readsBeforeWrites, Option.toList_some]
      by_cases hEq : key = k
      · simp [hEq]
      · have hRest : key ∉ [k] ++ written := by simp [hEq, hKey]
        rw [ih hRest, or_left_comm]
    | commit | discard => exact ih hKey

theorem eraseDups_concat (keys : List κ) (key : κ) :
    (keys ++ [key]).eraseDups = keys.eraseDups ++ if key ∈ keys then [] else [key] := by
  rw [eraseDups_append]
  by_cases hKey : key ∈ keys
  · simp [removeAll, hKey]
  · simp [removeAll, hKey, eraseDups_cons]

theorem storageReads_append_read (hRead : operation.readKey = some key) :
    storageReads (operations ++ [operation]) =
      storageReads operations ++ if key ∈ accessed operations then [] else [key] := by
  have hAccessed : key ∈ accessed operations ↔ _ := mem_accessed (not_mem_nil)
  unfold storageReads
  rw [readsBeforeWrites_append_read hRead]
  by_cases hWritten : key ∈ operations.filterMap writtenKey
  · rw [if_pos (.inr hWritten), if_pos (hAccessed.mpr (.inr hWritten)), append_nil, append_nil]
  · have hUnwr : ¬(key ∈ [] ∨ key ∈ operations.filterMap writtenKey) := by simp [hWritten]
    rw [if_neg hUnwr, eraseDups_concat]
    simp only [hAccessed, or_iff_left hWritten]

theorem storageReads_append_other
    (hRead : operation.readKey = none) : storageReads (operations ++ [operation]) = storageReads operations := by
  unfold storageReads
  rw [readsBeforeWrites_append_other hRead]

variable {k : κ} {access : Access}

omit [LinearOrder κ] in
theorem mem_accessed_concat (hKey : operation.key = some key) :
    k ∈ accessed (operations ++ [operation]) ↔ k = key ∨ k ∈ accessed operations := by
  simp [accessed, filterMap_append, hKey, or_comm]

theorem CacheLog.get_insert_eq_none {c : CacheLog κ} :
    ({ c with revertableLog := c.revertableLog.insert key access } : CacheLog κ).get k = none ↔
      k ≠ key ∧ c.get k = none := by
  rw [get_eq_none, get_eq_none, lookup_insert_eq_none, and_assoc]

theorem CacheLog.assign_keys {c : CacheLog κ} (hCached : c.get key ≠ none) :
    (∀ k, (c.assign key access).log.lookup k = none ↔ c.log.lookup k = none) ∧
      ∀ k, (c.assign key access).get k = none ↔ c.get k = none := by
  unfold assign
  split
  · rename_i hMem
    refine ⟨fun _ => Iff.rfl, fun k => ?_⟩
    rw [get_insert_eq_none]
    refine and_iff_right_of_imp fun hNone hEq => ?_
    exact lookup_eq_none.mp (get_eq_none.mp hNone).1 (hEq ▸ hMem)
  · rename_i hNot
    have hMem : key ∈ c.log := by
      by_contra hLog
      exact hCached (get_eq_none.mpr ⟨lookup_eq_none.mpr hNot, lookup_eq_none.mpr hLog⟩)
    have hLog : ∀ k, (c.log.insert key access).lookup k = none ↔ c.log.lookup k = none := by
      intro k
      rw [lookup_insert_eq_none]
      exact and_iff_right_of_imp fun hNone hEq => lookup_eq_none.mp hNone (hEq ▸ hMem)
    refine ⟨hLog, fun k => ?_⟩
    rw [get_eq_none, get_eq_none, hLog]

def leafAt (digest : List UInt8 → Digest) (contents : κ → Option SlotValue) (key : κ) : κ × Option NodeLeaf :=
  (key, (contents key).map (NodeLeaf.of digest))

namespace ProvableStorageCache
variable {c c' : ProvableStorageCache κ} {h : CacheHistory κ} {operation : CacheOperation κ} {key : κ}

def allReads (c : ProvableStorageCache κ) : List (κ × Option NodeLeaf) :=
  c.orderedDbReads ++ c.revertableOrderedReads.map fun read => (read.1, read.2.map (·.leaf))

/-- The cache has the keys accessed by the operations that count, and lists their reads. -/
structure Lists (digest : List UInt8 → Digest) (contents : κ → Option SlotValue) (c : ProvableStorageCache κ)
    (h : CacheHistory κ) : Prop where
  logged : ∀ key, c.cache.log.lookup key = none ↔ key ∉ accessed h.kept
  cached : ∀ key, c.cache.get key = none ↔ key ∉ accessed h.operations
  committed : c.orderedDbReads = (storageReads h.kept).map (leafAt digest contents)
  reads : c.allReads = (storageReads h.operations).map (leafAt digest contents)

namespace Lists

theorem empty : Lists digest contents (.empty : ProvableStorageCache κ) ⟨[], []⟩ := by
  refine ⟨fun key => ?_, fun key => ?_, rfl, rfl⟩
  · simp [ProvableStorageCache.empty, CacheLog.empty, accessed]
  · simp [ProvableStorageCache.empty, CacheLog.empty, CacheLog.get, accessed, CacheHistory.operations]

omit [LinearOrder κ] in
theorem operations_pending (h : CacheHistory κ) (operation : CacheOperation κ) :
    CacheHistory.operations ⟨h.kept, h.pending ++ [operation]⟩ = h.operations ++ [operation] :=
  (append_assoc ..).symm

section
variable (hLists : c.Lists digest contents h)
include hLists

theorem readAgain (hRead : operation.readKey = some key) {access} (hFound : c.cache.get key = some access) {cache}
    (hLog : ∀ k, cache.log.lookup k = none ↔ c.cache.log.lookup k = none)
    (hGet : ∀ k, cache.get k = none ↔ c.cache.get k = none) :
    Lists digest contents { c with cache } ⟨h.kept, h.pending ++ [operation]⟩ := by
  have hKey : operation.key = some key := by rw [CacheOperation.key, hRead, Option.some_or]
  have hAccessed : key ∈ accessed h.operations := by
    by_contra hNot
    simp [(hLists.cached key).mpr hNot] at hFound
  refine ⟨fun k => (hLog k).trans (hLists.logged k), fun k => ?_, hLists.committed, ?_⟩
  · rw [hGet, hLists.cached, operations_pending, mem_accessed_concat hKey, not_or]
    exact ⟨fun hNot => ⟨fun hEq => hNot (hEq ▸ hAccessed), hNot⟩, fun hNot => hNot.2⟩
  · rw [operations_pending, storageReads_append_read hRead, if_pos hAccessed, append_nil]
    exact hLists.reads

theorem readNew (hRead : operation.readKey = some key)
    (hNone : c.cache.get key = none) {node : Option NodeLeafAndMaybeValue}
    (hHolds : Holds digest (contents key) node) (hAdd : c.addRead key node = .ok c') :
    c'.Lists digest contents ⟨h.kept, h.pending ++ [operation]⟩ := by
  have hKey : operation.key = some key := by rw [CacheOperation.key, hRead, Option.some_or]
  have hAccessed := (hLists.cached key).mp hNone
  rw [addRead_eq (get_eq_none.mp hNone).1, Except.ok.injEq] at hAdd
  subst hAdd
  refine ⟨hLists.logged, fun k => ?_, hLists.committed, ?_⟩
  · rw [operations_pending, mem_accessed_concat hKey, not_or, ← hLists.cached]
    exact get_insert_eq_none
  · rw [operations_pending, storageReads_append_read hRead, if_neg hAccessed, map_append, ← hLists.reads]
    simp [allReads, leafAt, hHolds.leaf]

theorem write (hWritten : operation.readKey = none)
    (hKey : operation.key = some key) {value : Option SlotValue} (hAdd : c.addWrite key value = .ok c') :
    c'.Lists digest contents ⟨h.kept, h.pending ++ [operation]⟩ := by
  obtain ⟨-, rfl⟩ := addWrite_ok hAdd
  refine ⟨hLists.logged, fun k => ?_, hLists.committed, ?_⟩
  · rw [operations_pending, mem_accessed_concat hKey, not_or, ← hLists.cached]
    exact get_insert_eq_none
  · rw [operations_pending, storageReads_append_other hWritten]
    exact hLists.reads

theorem commit {m} (hLayers : c.cache.Layers digest contents m) (hCommit : c.commitRevertableStorageCache = .ok c') :
    c'.Lists digest contents ⟨h.operations, []⟩ := by
  obtain ⟨log, hLog, hLookup, -⟩ := hLayers.commit
  simp only [commitRevertableStorageCache, hLog, ok_bind, pure_eq_ok] at hCommit
  subst hCommit
  have hOps : (⟨h.operations, []⟩ : CacheHistory κ).operations = h.operations := append_nil _
  refine ⟨fun k => ?_, fun k => ?_, hLists.reads, ?_⟩
  · rw [hLookup]
    exact hLists.cached k
  · rw [hOps, ← hLists.cached, get_eq_none, hLookup]
    simp
  · rw [hOps, ← hLists.reads]
    simp [allReads]

theorem discard : c.discardRevertableStorageCache.Lists digest contents ⟨h.kept, []⟩ := by
  have hOps : (⟨h.kept, []⟩ : CacheHistory κ).operations = h.kept := append_nil _
  refine ⟨hLists.logged, fun k => ?_, hLists.committed, ?_⟩
  · rw [hOps, ← hLists.logged]
    simp [discardRevertableStorageCache, CacheLog.discardRevertableLog, CacheLog.get]
  · rw [hOps, ← hLists.committed]
    simp [allReads, discardRevertableStorageCache]

end

end Lists

theorem perform_lists (hFixed : storage.Fixed digest contents) {state state' : ProvableStorageCache κ × W}
    {answer : CacheAnswer} (hLayers : state.1.cache.Layers digest contents m)
    (hLists : state.1.Lists digest contents h) (hStep : perform digest storage state operation = .ok (state', answer)) :
    state'.1.Lists digest contents (h.next operation) := by
  have hAgain : ∀ {key access}, operation.readKey = some key → state.1.cache.get key = some access →
      state.1.Lists digest contents ⟨h.kept, h.pending ++ [operation]⟩ :=
    fun hRead hGet => hLists.readAgain hRead hGet (fun _ => Iff.rfl) fun _ => Iff.rfl
  obtain ⟨c', witness'⟩ := state'
  cases perform_ok hStep with
  | @get key _ _ hFind =>
    have hAssigned : ∀ {node v}, state.1.cache.get key = some (.read (some node)) →
        (state.1.cacheRead key node v).Lists digest contents ⟨h.kept, h.pending ++ [.get key]⟩ := by
      intro node v hGet
      obtain ⟨hLog, hKeys⟩ := assign_keys (hGet ▸ Option.some_ne_none _)
      exact hLists.readAgain rfl hGet hLog hKeys
    cases getOrFetch_ok hFind with
    | fetched hGet hFetch hNode hAdd =>
      obtain ⟨_, hStored⟩ := hFixed.get key state.2
      cases hStored.symm.trans hFetch
      exact hLists.readNew rfl hGet ((newRead_yields _).of_ok hNode) hAdd
    | notFetched hGet | alreadyFetched hGet => exact hAssigned hGet
    | read hGet | absent hGet | written hGet => exact hAgain rfl hGet
  | @getSize key _ _ hFind =>
    cases getSizeOrFetch_ok hFind with
    | fetched hGet hFetch hAdd =>
      exact hLists.readNew rfl hGet ((hFixed.getLeaf key state.2).of_ok hFetch) hAdd
    | read hGet | written hGet => exact hAgain rfl hGet
  | set hAdd | delete hAdd => exact hLists.write rfl rfl hAdd
  | commit hCommit => exact hLists.commit hLayers hCommit
  | discard => exact hLists.discard

end ProvableStorageCache

namespace CacheLog

variable {entries : List (Sigma fun _ : κ => Access)}

omit [LinearOrder κ] in
theorem mem_writesOf {key value} : (key, value) ∈ writesOf entries ↔ ⟨key, .write value⟩ ∈ entries := by
  unfold writesOf
  rw [mem_filterMap]
  constructor
  · rintro ⟨⟨k, access⟩, hEntry, hWrite⟩
    cases access with
    | read node => cases hWrite
    | write modified =>
      cases hWrite
      exact hEntry
  · exact fun hEntry => ⟨_, hEntry, rfl⟩

omit [LinearOrder κ] in
theorem writesOf_keys (hKeys : entries.NodupKeys) : ((writesOf entries).map Prod.fst).Nodup := by
  have hSub : ((writesOf entries).map Prod.fst).Sublist entries.keys := by
    clear hKeys
    induction entries with
    | nil => exact .slnil
    | cons entry rest ih =>
      obtain ⟨k, access⟩ := entry
      cases access with
      | read node => exact ih.cons k
      | write modified => exact ih.cons_cons k
  exact hSub.nodup hKeys

end CacheLog

theorem ProvableStorageCache.toOrderedWritesAndReads_ok (h : c.cache.Layers digest contents m) :
    ∃ accesses, c.toOrderedWritesAndReads = .ok accesses ∧ accesses.orderedReads = c.allReads ∧
      accesses.orderedWrites.Pairwise (fun a b => a.1 < b.1) ∧
      ∀ key value, (key, value) ∈ accesses.orderedWrites ↔ m.overlay key = some value := by
  obtain ⟨log, hCommit, _, hLayers⟩ := h.commit
  refine ⟨⟨c.allReads, (writesOf log.entries).insertionSort fun a b => a.1 ≤ b.1⟩, ?_, rfl,
    OrderedMap.insertionSort_ascending (writesOf_keys log.nodupKeys), fun key value => ?_⟩
  · simp only [toOrderedWritesAndReads, commitRevertableStorageCache, hCommit]
    rfl
  · have hEntry : EntryFor digest (contents key) (log.lookup key) (m.overlay key) := hLayers.committed key
    rw [(perm_insertionSort _ _).mem_iff, mem_writesOf, ← mem_lookup_iff]
    constructor
    · intro hWrite
      rw [hWrite] at hEntry
      exact hEntry.of_write.1
    · intro hWritten
      rw [hWritten] at hEntry
      exact hEntry.eq_write

namespace ProvableStorageCache

theorem trace_layers (hFixed : storage.Fixed digest contents) (operations : List (CacheOperation κ)) (witness : W) :
    Yields (fun out =>
        out.1.1.cache.Layers digest contents (answers (onLayers contents) .empty operations).1 ∧
          out.2 = (answers (onLayers contents) .empty operations).2)
      (fun p => p = .sizeOverflow ∧ TooLong contents operations)
      (trace (perform digest storage) (.empty, witness) operations) := by
  refine trace_refines (fun (state : ProvableStorageCache κ × W) m => state.1.cache.Layers digest contents m) ?_ ?_
  · exact fun state m operation hMem h => perform_layers hFixed state m operation hMem h
  · exact Layers.empty

theorem trace_lists (hFixed : storage.Fixed digest contents) {operations witness state replies}
    (hRun : trace (perform digest storage) (.empty, witness) operations = .ok (state, replies)) :
    state.1.Lists digest contents (operations.foldl CacheHistory.next ⟨[], []⟩) := by
  refine (trace_follows (fun (state : ProvableStorageCache κ × W) h =>
    (∃ m, state.1.cache.Layers digest contents m) ∧ state.1.Lists digest contents h) ?_ ?_ hRun).2
  · rintro state h operation state' answer ⟨⟨m, hLayers⟩, hLists⟩ hStep
    have hNext := (perform_layers hFixed state m operation (mem_singleton_self operation) hLayers).of_ok hStep
    exact ⟨⟨_, hNext.1⟩, perform_lists hFixed hLayers hLists hStep⟩
  · exact ⟨⟨.empty, Layers.empty⟩, Lists.empty⟩

end ProvableStorageCache

/-- Over every storage with fixed contents, every list of operations is answered as by a map
in layers over these contents. At the end the writes are those of the two layers, by
ascending key, and the reads are those of the operations that were not discarded. A value
that is too long to be measured is all that can stop it. -/
theorem cache_is_layered_map (hFixed : storage.Fixed digest contents) (operations : List (CacheOperation κ))
    (witness : W) :
    Yields
      (fun out =>
        out.2 = (answers (onLayers contents) .empty operations).2 ∧
          ∃ accesses, out.1.1.toOrderedWritesAndReads = .ok accesses ∧
            accesses.orderedWrites.Pairwise (fun a b => a.1 < b.1) ∧
            (∀ key value, (key, value) ∈ accesses.orderedWrites ↔
              (answers (onLayers contents) .empty operations).1.overlay key = some value) ∧
            accesses.orderedReads = (storageReads (survivors operations)).map (leafAt digest contents))
      (fun p => p = .sizeOverflow ∧ TooLong contents operations)
      (trace (perform digest storage) (.empty, witness) operations) := by
  have hTrace := trace_layers hFixed operations witness
  refine .intro (fun out hRun => ?_) fun p hRun => hTrace.of_error hRun
  obtain ⟨hLayers, hAnswers⟩ := hTrace.of_ok hRun
  have hLists := trace_lists hFixed hRun
  obtain ⟨accesses, hOrdered, hReads, hSorted, hWrites⟩ :=
    toOrderedWritesAndReads_ok hLayers
  exact ⟨hAnswers, accesses, hOrdered, hSorted, hWrites, hReads.trans hLists.reads⟩

omit [LinearOrder κ] in
theorem proverStorage_fixed (codec : HintCodec) (contents : κ → Option SlotValue) :
    (proverStorage digest codec contents).Fixed digest contents := by
  refine ⟨fun key witness => ⟨_, rfl⟩, fun key witness => ?_⟩
  unfold proverStorage
  dsimp only
  cases hStored : contents key with
  | none => exact .absent
  | some v =>
    by_cases hFits : v.Fits
    · simp only [Option.mapM_some, hFits.makeLeaf]
      exact .value hFits (.inr (.inl rfl))
    · have hSize : v.size = .error .sizeOverflow := if_neg hFits
      simp only [Option.mapM_some, NodeLeaf.makeLeaf, hSize]
      exact ⟨rfl, v, rfl, hFits⟩

def twoKeys : Nat → Option SlotValue
  | 1 => some ⟨[7]⟩
  | 2 => some ⟨[8]⟩
  | _ => none

/-- A read that is discarded is not listed, although the storage was asked for it. -/
theorem discarded_read_is_not_listed :
    ∃ (state : ProvableStorageCache Nat × ArrayWitness plainCodec) (accesses : OrderedReadsAndWrites Nat),
      trace (perform (fun _ => Vector.replicate 32 0)
          (proverStorage (fun _ => Vector.replicate 32 0) plainCodec twoKeys))
        (.empty, []) [.get 1, .discard] = .ok (state, [.value (some ⟨[7]⟩), .done]) ∧
      state.2 = [.inl (some ⟨[7]⟩)] ∧ state.1.toOrderedWritesAndReads = .ok accesses ∧
      accesses.orderedReads = [] ∧ accesses.orderedWrites = [] :=
  ⟨_, _, rfl, rfl, rfl, rfl, rfl⟩

/-- Key 1 is read and then written; key 2 is read after a write to it was discarded. -/
theorem reads_around_a_discard :
    ∃ (state : ProvableStorageCache Nat × ArrayWitness plainCodec) (accesses : OrderedReadsAndWrites Nat),
      trace (perform (fun _ => Vector.replicate 32 0)
          (proverStorage (fun _ => Vector.replicate 32 0) plainCodec twoKeys))
        (.empty, []) [.get 1, .set 1 ⟨[9]⟩, .commit, .set 2 ⟨[9]⟩, .discard, .getSize 2, .get 2, .get 1] =
          .ok (state, [.value (some ⟨[7]⟩), .done, .done, .done, .done, .size (some 1), .value (some ⟨[8]⟩),
            .value (some ⟨[9]⟩)]) ∧
      state.1.toOrderedWritesAndReads = .ok accesses ∧
      accesses.orderedReads.map Prod.fst = [1, 2] ∧ (1, some ⟨[9]⟩) ∈ accesses.orderedWrites := by
  simp only [exists_and_left]
  refine exists_and_of rfl fun hRun => ?_
  obtain ⟨-, accesses, hOrdered, -, hWrites, hReads⟩ :=
    (cache_is_layered_map (proverStorage_fixed plainCodec twoKeys) _ []).of_ok hRun
  refine ⟨accesses, hOrdered, ?_, (hWrites 1 _).mpr rfl⟩
  rw [hReads]
  rfl

end SovereignSdk
