import SovereignSdk.Library.LatestWrites
import SovereignSdk.State.AccessorOverlays

/-! The state changes of rollup blocks that the sequencer has executed and the storage does not
have yet. Reads look through them, newest block first, and fall back to the storage; the state
root is computed from the latest write of each key. -/
namespace SovereignSdk
open Outcome LatestWrites List CacheLog NodeLeaf Option

variable {κ W : Type} [LinearOrder κ]

/-- A value that may be absent from a cache; a value that is present may be deleted. -/
inductive MaybePresentValue (α : Type) where
  | present (value : Option α)
  | absent
deriving DecidableEq, Repr

def MaybePresentValue.orElse {α : Type} (v : MaybePresentValue α) (fallback : Option α) : Option α :=
  match v with
  | .present value => value
  | .absent => fallback

theorem CacheLog.revertableLog_commit {c c' : CacheLog κ} (h : c.commitRevertableLog = .ok c') :
    c'.revertableLog = ∅ := by
  rw [commitRevertableLog] at h
  split at h
  · rename_i hEmpty
    cases h
    exact AList.ext (isEmpty_iff.mp hEmpty)
  · obtain ⟨log, -, hLog⟩ := bind_eq_ok.mp h
    cases hLog
    rfl

theorem ProvableStorageCache.revertableLog_commit {c c' : ProvableStorageCache κ}
    (h : c.commitRevertableStorageCache = .ok c') : c'.cache.revertableLog = ∅ := by
  obtain ⟨cache, hCache, hRest⟩ := bind_eq_ok.mp h
  cases hRest
  exact CacheLog.revertableLog_commit hCache

/-- The cache of a block, with its revertable part committed. Its reads do not count. -/
structure CachedWrites (κ : Type) where
  cache : CacheLog κ
  committed : cache.revertableLog = ∅

namespace CachedWrites

/-- The commit of a cache and its conversion. -/
def ofCache (cache : ProvableStorageCache κ) : Except StatePanic (CachedWrites κ) :=
  match h : cache.commitRevertableStorageCache with
  | .ok c => .ok ⟨c.cache, ProvableStorageCache.revertableLog_commit h⟩
  | .error e => .error e

def getWrites (w : CachedWrites κ) : Except StatePanic (List (κ × Option SlotValue)) := w.cache.takeWrites

def getFromCache (w : CachedWrites κ) (key : κ) : MaybePresentValue SlotValue :=
  match w.cache.get key with
  | some (.write modified) => .present modified
  | some (.read _) => .absent
  | none => .absent

def getLeafFromCache (digest : List UInt8 → Digest) (w : CachedWrites κ) (key : κ) :
    Except StatePanic (MaybePresentValue NodeLeafAndMaybeValue) :=
  match w.cache.get key with
  | some (.write modified) => do
      let node ← modified.mapM (NodeLeafAndMaybeValue.newRead digest)
      return .present node
  | some (.read _) => return .absent
  | none => return .absent

end CachedWrites

structure RawStateChanges (κ : Type) where
  user : CachedWrites κ
  kernel : CachedWrites κ
  accessory : AList fun _ : κ => Option SlotValue
  rollupHeight : Nat

namespace RawStateChanges

def cached (c : RawStateChanges κ) : ProvableNamespace → CachedWrites κ
  | .user => c.user
  | .kernel => c.kernel

def get (c : RawStateChanges κ) (ns : Namespace) (key : κ) : MaybePresentValue SlotValue :=
  match ns with
  | .user => c.user.getFromCache key
  | .kernel => c.kernel.getFromCache key
  | .accessory =>
    match c.accessory.lookup key with
    | some value => .present value
    | none => .absent

end RawStateChanges

def StateCheckpoint.toRawStateChanges (c : StateCheckpoint κ W) (rollupHeight : Nat) :
    Except StatePanic (RawStateChanges κ) := do
  let user ← CachedWrites.ofCache c.delta.userCache
  let kernel ← CachedWrites.ofCache c.delta.kernelCache
  return ⟨user, kernel, c.accessoryWrites, rollupHeight⟩

/-- The changes of contiguous blocks, newest first. -/
structure SequencerStateChanges (κ : Type) where
  changes : Option (List (RawStateChanges κ))

namespace SequencerStateChanges

def default : SequencerStateChanges κ := ⟨none⟩

variable (s : SequencerStateChanges κ)

def newestFirst : List (RawStateChanges κ) := s.changes.getD []

def pushFront (change : RawStateChanges κ) : SequencerStateChanges κ :=
  ⟨some (change :: s.newestFirst)⟩

def pruneChangesThrough (height : Nat) : SequencerStateChanges κ :=
  ⟨s.changes.map (·.filter fun change => change.rollupHeight > height)⟩

def ignoreChangesAfterHeight (height : Nat) : SequencerStateChanges κ :=
  ⟨s.changes.map (·.filter fun change => change.rollupHeight ≤ height)⟩

def extendWrites (writes : List (κ × Option SlotValue) × List (κ × Option SlotValue)) (change : RawStateChanges κ) :
    Except StatePanic (List (κ × Option SlotValue) × List (κ × Option SlotValue)) := do
  let user ← change.user.getWrites
  let kernel ← change.kernel.getWrites
  return (writes.1 ++ user, writes.2 ++ kernel)

def toStateAccesses : Except StatePanic (StateAccesses κ) := do
  let (user, kernel) ← s.newestFirst.foldlM extendWrites ([], [])
  return ⟨⟨[], dedupByKey (sortByKey user)⟩, ⟨[], dedupByKey (sortByKey kernel)⟩⟩

/-- The first block of the list that has the key. -/
def getIn (ns : Namespace) (key : κ) : List (RawStateChanges κ) → MaybePresentValue SlotValue
  | [] => .absent
  | change :: rest =>
    match change.get ns key with
    | .present value => .present value
    | .absent => getIn ns key rest

def get (ns : Namespace) (key : κ) : MaybePresentValue SlotValue :=
  getIn ns key s.newestFirst

def getLeafIn (digest : List UInt8 → Digest) (n : ProvableNamespace) (key : κ) :
    List (RawStateChanges κ) → Except StatePanic (MaybePresentValue NodeLeafAndMaybeValue)
  | [] => return .absent
  | change :: rest => do
      match ← (change.cached n).getLeafFromCache digest key with
      | .present node => return .present node
      | .absent => getLeafIn digest n key rest

variable (digest : List UInt8 → Digest)

def getLeaf (s : SequencerStateChanges κ) (n : ProvableNamespace) (key : κ) :
    Except StatePanic (MaybePresentValue NodeLeafAndMaybeValue) :=
  getLeafIn digest n key s.newestFirst

/-- The leaf of a key that is not cached, as `get_size_or_fetch` takes it. -/
def fetchLeaf (s : SequencerStateChanges κ) (storage : Storage κ W)
    (n : ProvableNamespace) (key : κ) (witness : W) : Except StatePanic (Option NodeLeafAndMaybeValue × W) := do
  match ← s.getLeaf digest n key with
  | .present node => return (node, witness)
  | .absent => storage.getLeaf key witness

end SequencerStateChanges

def ReadType.slotValue : ReadType → Option SlotValue
  | .getSizeValueNotFetched => none
  | .getSizeValueFetched value => some value
  | .read value => some value

def Access.written : Access → Option (Option SlotValue)
  | .read _ => none
  | .write modified => some modified

abbrev StateMap (κ : Type) := ProvableNamespace → κ → Option SlotValue

variable {w : CachedWrites κ} {s : SequencerStateChanges κ} {m : StateMap κ} {c : RawStateChanges κ}
  {blocks : List (RawStateChanges κ)} {n : ProvableNamespace} {key : κ} {digest : List UInt8 → Digest}

theorem CacheLog.lookup_writesOf {entries} (hKeys : entries.NodupKeys) (key : κ) :
    (writesOf entries).lookup key = (entries.dlookup key).bind Access.written := by
  induction entries with
  | nil => rfl
  | cons entry rest ih =>
    obtain ⟨k, access⟩ := entry
    obtain ⟨hFresh, hRest⟩ := nodupKeys_cons.mp hKeys
    have hTail := ih hRest
    by_cases hKey : key = k
    · subst hKey
      rw [dlookup_cons_eq]
      cases access with
      | read node =>
        have hNone : rest.dlookup key = none := dlookup_eq_none.mpr hFresh
        rw [hNone] at hTail
        exact hTail
      | write modified =>
        have hCons : writesOf (⟨key, .write modified⟩ :: rest) = (key, modified) :: writesOf rest := rfl
        rw [hCons, lookup_cons_self]
        rfl
    · rw [dlookup_cons_ne _ _ hKey, ← hTail]
      cases access with
      | read node => rfl
      | write modified =>
        have hCons : writesOf (⟨k, .write modified⟩ :: rest) = (k, modified) :: writesOf rest := rfl
        rw [hCons, lookup_cons, beq_false_of_ne hKey]

def MaybePresentValue.ofWrite {α : Type} : Option (Option α) → MaybePresentValue α
  | some value => .present value
  | none => .absent

def leafOfWrite (digest : List UInt8 → Digest) :
    Option (Option SlotValue) → Except StatePanic (MaybePresentValue NodeLeafAndMaybeValue)
  | some modified => do
      let node ← modified.mapM (NodeLeafAndMaybeValue.newRead digest)
      return .present node
  | none => return .absent

namespace CachedWrites

def writes (w : CachedWrites κ) : List (κ × Option SlotValue) := writesOf w.cache.log.entries

omit [LinearOrder κ] in
theorem getWrites_eq : w.getWrites = .ok w.writes := by
  rw [getWrites, takeWrites, w.committed]
  rfl

omit [LinearOrder κ] in
theorem writes_distinct : w.writes.Pairwise fun a b => a.1 ≠ b.1 :=
  pairwise_map.mp (writesOf_keys w.cache.log.nodupKeys)

theorem written_get : (w.cache.get key).bind Access.written = w.writes.lookup key := by
  rw [CacheLog.get, w.committed, writes, CacheLog.lookup_writesOf w.cache.log.nodupKeys]
  rfl

theorem getFromCache_eq : w.getFromCache key = .ofWrite (w.writes.lookup key) := by
  rw [← written_get, getFromCache]
  cases w.cache.get key with
  | none => rfl
  | some access => cases access <;> rfl

theorem getLeafFromCache_eq : w.getLeafFromCache digest key = leafOfWrite digest (w.writes.lookup key) := by
  rw [← written_get, getLeafFromCache]
  cases w.cache.get key with
  | none => rfl
  | some access => cases access <;> rfl

end CachedWrites

namespace RawStateChanges

def applyTo (m : StateMap κ) (c : RawStateChanges κ) : StateMap κ := fun n => applyWrites (m n) (c.cached n).writes

theorem applyTo_eq : c.applyTo m n key = ((c.cached n).writes.lookup key).getD (m n key) :=
  applyWrites_eq (c.cached n).writes_distinct (m n) key

theorem get_provable : c.get n.namespace key = (c.cached n).getFromCache key := by
  cases n <;> rfl

end RawStateChanges

/-- The latest write of a key in blocks listed from the newest to the oldest. -/
def latestWrite (n : ProvableNamespace) (key : κ) (blocks : List (RawStateChanges κ)) : Option (Option SlotValue) :=
  blocks.findSome? fun c => (c.cached n).writes.lookup key

theorem foldl_applyTo :
    blocks.foldl (fun m c => c.applyTo m) m n key = (latestWrite n key blocks.reverse).getD (m n key) := by
  induction blocks generalizing m with
  | nil => rfl
  | cons c rest ih =>
    rw [foldl_cons, ih, RawStateChanges.applyTo_eq, reverse_cons, latestWrite, latestWrite, findSome?_append]
    cases findSome? (fun c => (c.cached n).writes.lookup key) rest.reverse with
    | none => simp
    | some value => rfl

/-- Consecutive rollup blocks from height one on, oldest first. -/
structure RollupChain (κ : Type) where
  blocks : List (RawStateChanges κ)
  heights : ∀ i (h : i < blocks.length), blocks[i].rollupHeight = i + 1

namespace RollupChain

def stateAt (chain : RollupChain κ) (genesis : StateMap κ) (height : Nat) : StateMap κ :=
  (chain.blocks.take height).foldl (fun m c => c.applyTo m) genesis

/-- The blocks pushed in order, and pruned through the height that the storage has. -/
def changesFrom (chain : RollupChain κ) (committed : Nat) : SequencerStateChanges κ :=
  (chain.blocks.foldl SequencerStateChanges.pushFront .default).pruneChangesThrough committed

end RollupChain

namespace SequencerStateChanges

omit [LinearOrder κ] in
theorem newestFirst_push : (blocks.foldl pushFront s).newestFirst = blocks.reverse ++ s.newestFirst := by
  induction blocks generalizing s with
  | nil => rfl
  | cons c rest ih =>
    rw [foldl_cons, ih, reverse_cons, append_assoc]
    rfl

omit [LinearOrder κ] in
theorem newestFirst_prune (height : Nat) :
    (s.pruneChangesThrough height).newestFirst = s.newestFirst.filter fun c => c.rollupHeight > height := by
  obtain ⟨_ | changes⟩ := s <;> rfl

omit [LinearOrder κ] in
theorem newestFirst_ignore (height : Nat) :
    (s.ignoreChangesAfterHeight height).newestFirst = s.newestFirst.filter fun c => c.rollupHeight ≤ height := by
  obtain ⟨_ | changes⟩ := s <;> rfl

theorem get_eq : s.get n.namespace key = .ofWrite (latestWrite n key s.newestFirst) := by
  rw [get]
  induction s.newestFirst with
  | nil => rfl
  | cons c rest ih =>
    rw [getIn, RawStateChanges.get_provable, CachedWrites.getFromCache_eq, latestWrite, findSome?_cons]
    cases (c.cached n).writes.lookup key with
    | none => exact ih
    | some value => rfl

theorem orElse_get {fallback} :
    (s.get n.namespace key).orElse fallback = (latestWrite n key s.newestFirst).getD fallback := by
  rw [get_eq]
  cases latestWrite n key s.newestFirst <;> rfl

theorem getLeaf_eq : s.getLeaf digest n key = leafOfWrite digest (latestWrite n key s.newestFirst) := by
  rw [getLeaf]
  induction s.newestFirst with
  | nil => rfl
  | cons c rest ih =>
    rw [getLeafIn, CachedWrites.getLeafFromCache_eq, latestWrite, findSome?_cons]
    cases (c.cached n).writes.lookup key with
    | none => exact ih
    | some value =>
      rw [leafOfWrite]
      cases value.mapM (NodeLeafAndMaybeValue.newRead digest) <;> rfl

theorem fetchLeaf_shows {codec contents witness} :
    (s.fetchLeaf digest (proverStorage digest codec contents) n key witness).map
        (fun fetched => fetched.1.map fun node => (node.leaf, node.value.slotValue)) =
      ((latestWrite n key s.newestFirst).getD (contents key)).mapM
        (fun v => (makeLeaf digest v).map fun leaf => (leaf, some v)) := by
  rw [fetchLeaf, getLeaf_eq]
  cases latestWrite n key s.newestFirst with
  | none =>
    simp only [getD_none, proverStorage]
    cases contents key with
    | none => rfl
    | some v =>
      simp only [mapM_some]
      cases makeLeaf digest v <;> rfl
  | some value =>
    cases value with
    | none => rfl
    | some v =>
      simp only [leafOfWrite, getD_some, mapM_some, NodeLeafAndMaybeValue.newRead]
      cases makeLeaf digest v <;> rfl

omit [LinearOrder κ] in
theorem extendWrites_all {writes} :
    blocks.foldlM extendWrites writes =
      .ok (writes.1 ++ blocks.flatMap fun c => c.user.writes, writes.2 ++ blocks.flatMap fun c => c.kernel.writes) := by
  induction blocks generalizing writes with
  | nil => simp [pure, Except.pure]
  | cons c rest ih =>
    have hStep : extendWrites writes c = .ok (writes.1 ++ c.user.writes, writes.2 ++ c.kernel.writes) := by
      rw [extendWrites, CachedWrites.getWrites_eq, CachedWrites.getWrites_eq]
      rfl
    rw [foldlM_cons, hStep, ok_bind, ih]
    simp

theorem lookup_flatMap : (blocks.flatMap fun c => (c.cached n).writes).lookup key = latestWrite n key blocks := by
  induction blocks with
  | nil => rfl
  | cons c rest ih =>
    rw [flatMap_cons, lookup_append, ih, latestWrite, latestWrite, findSome?_cons]
    cases (c.cached n).writes.lookup key <;> rfl

end SequencerStateChanges

def StateAccesses.writes (accesses : StateAccesses κ) : ProvableNamespace → List (κ × Option SlotValue)
  | .user => accesses.user.orderedWrites
  | .kernel => accesses.kernel.orderedWrites

namespace SequencerStateChanges

theorem toStateAccesses_ok :
    ∃ accesses, s.toStateAccesses = .ok accesses ∧ ∀ n, ((accesses.writes n).Pairwise fun a b => a.1 < b.1) ∧
        ∀ key, (accesses.writes n).lookup key = latestWrite n key s.newestFirst := by
  have hWrites : ∀ n, ((dedupByKey (sortByKey (s.newestFirst.flatMap fun c => (c.cached n).writes))).Pairwise
      fun a b => a.1 < b.1) ∧
        ∀ key, (dedupByKey (sortByKey (s.newestFirst.flatMap fun c => (c.cached n).writes))).lookup key =
          latestWrite n key s.newestFirst := by
    intro n
    refine ⟨dedupByKey_ascending (sortByKey_sorted _), ?_⟩
    intro key
    rw [lookup_dedupByKey, lookup_sortByKey, lookup_flatMap]
  refine ⟨_, by rw [toStateAccesses, extendWrites_all]; rfl, ?_⟩
  intro n
  cases n with
  | user => exact hWrites .user
  | kernel => exact hWrites .kernel

end SequencerStateChanges

/-- Values and leaves read through the changes, with the storage below them, are those of a map. -/
structure SequencerStateChanges.ReadsAs (s : SequencerStateChanges κ) (digest : List UInt8 → Digest)
    (codec : HintCodec) (stored shown : StateMap κ) : Prop where
  values : ∀ n key, (s.get n.namespace key).orElse (stored n key) = shown n key
  leaves : ∀ n key witness, (s.fetchLeaf digest (proverStorage digest codec (stored n)) n key witness).map
        (fun fetched => fetched.1.map fun node => (node.leaf, node.value.slotValue)) =
      (shown n key).mapM fun v => (makeLeaf digest v).map fun leaf => (leaf, some v)

theorem SequencerStateChanges.readsAs (hBlocks : s.newestFirst = blocks.reverse) (digest : List UInt8 → Digest) (codec : HintCodec)
    (stored : StateMap κ) : s.ReadsAs digest codec stored (blocks.foldl (fun m c => c.applyTo m) stored) := by
  constructor
  · intro n key
    rw [orElse_get, hBlocks, foldl_applyTo]
  · intro n key witness
    rw [fetchLeaf_shows, hBlocks, foldl_applyTo]

namespace RollupChain
variable (chain : RollupChain κ)

variable {height m j : Nat} {c : RawStateChanges κ}

omit [LinearOrder κ] in
theorem height_of_mem_take {chain : RollupChain κ} (h : c ∈ chain.blocks.take height) : c.rollupHeight ≤ height := by
  obtain ⟨i, hi, rfl⟩ := mem_iff_getElem.mp h
  rw [length_take] at hi
  rw [getElem_take, chain.heights i (by omega)]
  omega

omit [LinearOrder κ] in
theorem height_of_mem_drop {chain : RollupChain κ} (h : c ∈ chain.blocks.drop height) : height < c.rollupHeight := by
  obtain ⟨i, hi, rfl⟩ := mem_iff_getElem.mp h
  rw [length_drop] at hi
  rw [getElem_drop, chain.heights (height + i) (by omega)]
  omega

omit [LinearOrder κ] in
theorem newestFirst_changesFrom (m : Nat) : (chain.changesFrom m).newestFirst = (chain.blocks.drop m).reverse := by
  have hTake : ((chain.blocks.take m).filter fun c => c.rollupHeight > m) = [] := by
    rw [filter_eq_nil_iff]
    intro c hc
    simpa using height_of_mem_take hc
  have hDrop : ((chain.blocks.drop m).filter fun c => c.rollupHeight > m) = chain.blocks.drop m := by
    rw [filter_eq_self]
    intro c hc
    simpa using height_of_mem_drop hc
  have hAll : (chain.blocks.filter fun c => c.rollupHeight > m) = chain.blocks.drop m := by
    rw [← take_append_drop m chain.blocks, filter_append, hTake, nil_append, take_append_drop, hDrop]
  rw [changesFrom, SequencerStateChanges.newestFirst_prune, SequencerStateChanges.newestFirst_push,
    ← reverse_reverse (chain.blocks.drop m), ← hAll]
  simp [SequencerStateChanges.newestFirst, SequencerStateChanges.default]

omit [LinearOrder κ] in
theorem newestFirst_ignore (h : m ≤ j) :
    ((chain.changesFrom m).ignoreChangesAfterHeight j).newestFirst =
      ((chain.blocks.drop m).take (j - m)).reverse := by
  have hTake : (((chain.blocks.drop m).take (j - m)).filter fun c => c.rollupHeight ≤ j) =
      (chain.blocks.drop m).take (j - m) := by
    rw [filter_eq_self]
    intro c hc
    rw [← drop_take] at hc
    simpa using height_of_mem_take (mem_of_mem_drop hc)
  have hDrop : (((chain.blocks.drop m).drop (j - m)).filter fun c => c.rollupHeight ≤ j) = [] := by
    rw [filter_eq_nil_iff]
    intro c hc
    rw [drop_drop, Nat.add_sub_cancel' h] at hc
    simpa using height_of_mem_drop hc
  have hAll : ((chain.blocks.drop m).filter fun c => c.rollupHeight ≤ j) = (chain.blocks.drop m).take (j - m) := by
    have hSplit := take_append_drop (j - m) (chain.blocks.drop m)
    rw [← congrArg (filter fun c => c.rollupHeight ≤ j) hSplit, filter_append, hTake, hDrop, append_nil]
  rw [SequencerStateChanges.newestFirst_ignore, newestFirst_changesFrom, filter_reverse, hAll]

theorem stateAt_from (genesis : StateMap κ) (h : m ≤ j) :
    ((chain.blocks.drop m).take (j - m)).foldl (fun m c => c.applyTo m) (chain.stateAt genesis m) =
      chain.stateAt genesis j := by
  rw [stateAt, stateAt, ← foldl_append, ← drop_take]
  have hTake : chain.blocks.take m = (chain.blocks.take j).take m := by rw [take_take, min_eq_left h]
  rw [hTake, take_append_drop]

/-- The changes of the blocks above the committed height amount to those blocks made one after
another: in the writes for the state root, in every read, and in the reads of an earlier height
that is not below the committed one. -/
theorem changes_amount_to_blocks (genesis : StateMap κ) (digest : List UInt8 → Digest) (codec : HintCodec) (m : Nat) :
    (∃ accesses, (chain.changesFrom m).toStateAccesses = .ok accesses ∧
      ∀ n, applyWrites (chain.stateAt genesis m n) (accesses.writes n) =
          (chain.blocks.drop m).foldl (fun m c => c.applyTo m) (chain.stateAt genesis m) n ∧
        (accesses.writes n).Pairwise fun a b => a.1 < b.1) ∧
      (chain.changesFrom m).ReadsAs digest codec (chain.stateAt genesis m)
        ((chain.blocks.drop m).foldl (fun m c => c.applyTo m) (chain.stateAt genesis m)) ∧
      ∀ j, m ≤ j → ((chain.changesFrom m).ignoreChangesAfterHeight j).ReadsAs digest codec (chain.stateAt genesis m)
          (chain.stateAt genesis j) := by
  refine ⟨?_, SequencerStateChanges.readsAs (chain.newestFirst_changesFrom m) digest codec _, ?_⟩
  · obtain ⟨accesses, hAccesses, hWrites⟩ := (chain.changesFrom m).toStateAccesses_ok
    refine ⟨accesses, hAccesses, ?_⟩
    intro n
    obtain ⟨hAscending, hLookup⟩ := hWrites n
    refine ⟨?_, hAscending⟩
    funext key
    rw [applyWrites_eq (hAscending.imp fun h => ne_of_lt h), hLookup, newestFirst_changesFrom, foldl_applyTo]
  · intro j hj
    rw [← chain.stateAt_from genesis hj]
    exact SequencerStateChanges.readsAs (chain.newestFirst_ignore hj) digest codec _

end RollupChain

section checkpoint
variable {layers : LayeredMap (κ × Namespace) SlotValue} {checkpoint : StateCheckpoint κ W}

omit [LinearOrder κ] in
theorem EntryFor.written {stored entry written} (h : EntryFor digest stored entry written) :
    entry.bind Access.written = written := by
  cases h <;> rfl

/-- The cache of a block has the latest write of each key, pending or committed. -/
theorem CachedWrites.ofCache_ok {cache : ProvableStorageCache κ} {contents} {m : LayeredMap κ SlotValue}
    (h : cache.cache.Layers digest contents m) :
    ∃ w, ofCache cache = .ok w ∧ ∀ key, w.writes.lookup key = m.overlay key := by
  obtain ⟨c, hCommit, hLayers⟩ := ProvableStorageCache.commitRevertableStorageCache_layers h
  unfold ofCache
  split
  · rename_i c' hCommit'
    cases hCommit.symm.trans hCommit'
    exact ⟨_, rfl, fun key => written_get.symm.trans (hLayers.get key).written⟩
  · rename_i hError
    cases hCommit.symm.trans hError

/-- The change set of a checkpoint makes its storage what the reads of the checkpoint show. -/
theorem StateCheckpoint.toRawStateChanges_ok (h : checkpoint.Shows digest m layers) (rollupHeight : Nat) :
    ∃ change, checkpoint.toRawStateChanges rollupHeight = .ok change ∧ change.rollupHeight = rollupHeight ∧
      ∀ n key, change.applyTo m n key = (layers.comap fun key => (key, n.namespace)).read (m n) key := by
  obtain ⟨user, hUser, hUserWrites⟩ := CachedWrites.ofCache_ok (h.provable .user)
  obtain ⟨kernel, hKernel, hKernelWrites⟩ := CachedWrites.ofCache_ok (h.provable .kernel)
  refine ⟨⟨user, kernel, checkpoint.accessoryWrites, rollupHeight⟩, ?_, rfl, fun n key => ?_⟩
  · rw [toRawStateChanges, show CachedWrites.ofCache checkpoint.delta.userCache = _ from hUser, ok_bind,
      show CachedWrites.ofCache checkpoint.delta.kernelCache = _ from hKernel, ok_bind]
    rfl
  · rw [RawStateChanges.applyTo_eq]
    cases n with
    | user => exact congrArg (Option.getD · _) (hUserWrites key)
    | kernel => exact congrArg (Option.getD · _) (hKernelWrites key)

/-- The changes of a checkpoint over the end of a chain are its next block, and the state after it is the one that
the reads of the checkpoint show. -/
theorem RollupChain.extend_checkpoint (chain : RollupChain κ) (genesis : StateMap κ)
    (h : checkpoint.Shows digest (chain.stateAt genesis chain.blocks.length) layers) :
    ∃ (change : RawStateChanges κ) (extended : RollupChain κ),
      checkpoint.toRawStateChanges (chain.blocks.length + 1) = .ok change ∧
      extended.blocks = chain.blocks ++ [change] ∧ ∀ n key, extended.stateAt genesis (chain.blocks.length + 1) n key =
        (layers.comap fun key => (key, n.namespace)).read (chain.stateAt genesis chain.blocks.length n) key := by
  obtain ⟨change, hChange, hHeight, hState⟩ := checkpoint.toRawStateChanges_ok h (chain.blocks.length + 1)
  refine ⟨change, ⟨chain.blocks ++ [change], fun i hi => ?_⟩, hChange, rfl, fun n key => ?_⟩
  · rw [getElem_append]
    split
    · exact chain.heights i _
    · rw [length_append, length_singleton] at hi
      rw [getElem_singleton, hHeight]
      omega
  · rw [← hState, stateAt, stateAt, take_of_length_le (by simp), foldl_append, take_of_length_le le_rfl]
    rfl

end checkpoint

def CachedWrites.single (key : κ) (value : Option SlotValue) : CachedWrites κ :=
  ⟨⟨∅, AList.singleton key (.write value)⟩, rfl⟩

/-- Two blocks, of which the first writes a key and the second deletes it. -/
def RollupChain.writeThenDelete : RollupChain Nat where
  blocks := [⟨.single 0 (some ⟨[1]⟩), ⟨.empty, rfl⟩, ∅, 1⟩, ⟨.single 0 none, ⟨.empty, rfl⟩, ∅, 2⟩]
  heights := by
    intro i h
    match i with
    | 0 => rfl
    | 1 => rfl
    | i + 2 => exact absurd h (by simp)

/-- The value of the first block, read through the changes that the storage at genesis lacks. -/
theorem RollupChain.writeThenDelete_reads :
    ((((writeThenDelete.changesFrom 0).ignoreChangesAfterHeight 1).get .user 0).orElse none = some ⟨[1]⟩) ∧
      (writeThenDelete.stateAt (fun _ _ => none) 1 .user 0 = some ⟨[1]⟩) := by
  have h := (writeThenDelete.changes_amount_to_blocks (fun _ _ => none) (fun _ => default) plainCodec 0).2.2 1
    (Nat.zero_le 1)
  exact ⟨h.values .user 0, rfl⟩

/-- Below the committed height the changes are pruned, and reads show the state of the storage. -/
theorem RollupChain.pruned_height_not_shown :
    ∃ (chain : RollupChain Nat) (genesis : StateMap Nat) (m j : Nat), m ≤ chain.blocks.length ∧ j ≤ m ∧
      (((chain.changesFrom m).ignoreChangesAfterHeight j).get .user 0).orElse (chain.stateAt genesis m .user 0) ≠
        chain.stateAt genesis j .user 0 :=
  ⟨writeThenDelete, fun _ _ => none, 2, 1, Nat.le_refl 2, by decide, by decide⟩

end SovereignSdk
