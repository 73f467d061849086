import Mathlib.Data.List.AList
import Mathlib.Data.List.Sort
import SovereignSdk.Library.Outcome

/-! The cache of reads and writes between the state accessors and the storage. A hash map
is an association list without repeated keys, and its iteration order is that of the list. -/
namespace SovereignSdk
open Outcome

/-- Where the state layer stops: failed assertions, `expect`s and explicit panics. -/
inductive StatePanic where
  | sizeOverflow
  | multipleAddReads
  | valueReadTwice
  | revertableLogNotEmpty
  | invalidRead
  | leafMismatch
  | emptyWitness
  | hintDeserialization
  | valuePreLoaded
  | invalidUpdate
deriving DecidableEq, Repr

abbrev Digest := Vector UInt8 32

structure SlotValue where
  value : List UInt8
deriving DecidableEq, Repr

def SlotValue.size (v : SlotValue) : Except StatePanic UInt32 :=
  if v.value.length < UInt32.size then .ok (UInt32.ofNat v.value.length) else .error .sizeOverflow

structure NodeLeaf where
  size : UInt32
  valHash : Digest
deriving DecidableEq, Repr

def NodeLeaf.makeLeaf (digest : List UInt8 → Digest) (v : SlotValue) : Except StatePanic NodeLeaf := do
  let size ← v.size
  return ⟨size, digest v.value⟩

inductive ReadType where
  | getSizeValueNotFetched
  | getSizeValueFetched (value : SlotValue)
  | read (value : SlotValue)
deriving DecidableEq, Repr

structure NodeLeafAndMaybeValue where
  leaf : NodeLeaf
  value : ReadType
deriving DecidableEq, Repr

def NodeLeafAndMaybeValue.newRead (digest : List UInt8 → Digest) (v : SlotValue) :
    Except StatePanic NodeLeafAndMaybeValue := do
  let leaf ← NodeLeaf.makeLeaf digest v
  return ⟨leaf, .read v⟩

theorem newRead_ok {digest value node} (h : value.mapM (NodeLeafAndMaybeValue.newRead digest) = .ok node) :
    value = none ∧ node = none ∨
      ∃ v leaf, value = some v ∧ NodeLeaf.makeLeaf digest v = .ok leaf ∧ node = some ⟨leaf, .read v⟩ := by
  obtain hNone | ⟨v, node', rfl, hRead, rfl⟩ := optionMapM_eq_ok.mp h
  · exact .inl hNone
  · simp only [NodeLeafAndMaybeValue.newRead, bind_eq_ok, pure_eq_ok] at hRead
    obtain ⟨leaf, hLeaf, rfl⟩ := hRead
    exact .inr ⟨v, leaf, rfl, hLeaf, rfl⟩

inductive Access where
  | read (original : Option NodeLeafAndMaybeValue)
  | write (modified : Option SlotValue)
deriving DecidableEq, Repr

inductive AccessSize where
  | read (size : UInt32)
  | write (size : UInt32)
deriving DecidableEq, Repr

inductive IsValueCached where
  | yes (access : AccessSize)
  | no
deriving DecidableEq, Repr

def writeSize : Option SlotValue → Except StatePanic UInt32
  | none => .ok 0
  | some v => v.size

def Access.addWrite (_ : Access) (write : Option SlotValue) : Access := .write write

variable {κ W : Type} [LinearOrder κ]

structure CacheLog (κ : Type) where
  revertableLog : AList fun _ : κ => Access
  log : AList fun _ : κ => Access

namespace CacheLog

def empty : CacheLog κ := ⟨∅, ∅⟩

variable (c : CacheLog κ)

def get (key : κ) : Option Access := (c.revertableLog.lookup key).or (c.log.lookup key)

/-- Assignment through the reference that `get_mut` returns for a cached key. -/
def assign (key : κ) (access : Access) : CacheLog κ :=
  if key ∈ c.revertableLog then { c with revertableLog := c.revertableLog.insert key access }
  else { c with log := c.log.insert key access }

def addRead (key : κ) (value : Option NodeLeafAndMaybeValue) : Except StatePanic (CacheLog κ) :=
  match c.revertableLog.lookup key with
  | some _ => .error .multipleAddReads
  | none => .ok { c with revertableLog := c.revertableLog.insert key (.read value) }

def addWrite (c : CacheLog κ) (key : κ) (value : Option SlotValue) :
    Except StatePanic (CacheLog κ × IsValueCached) := do
  let size ← writeSize value
  match c.revertableLog.lookup key with
  | some existing =>
    return ({ c with revertableLog := c.revertableLog.insert key (existing.addWrite value) }, .yes (.write size))
  | none =>
    -- The write goes to the revertable log only, also if the key is in the log.
    return ({ c with revertableLog := c.revertableLog.insert key (.write value) },
      if key ∈ c.log then .yes (.write size) else .no)

/-- One round of the loop that drains the revertable log. -/
def mergeEntry (log : AList fun _ : κ => Access) (entry : Sigma fun _ : κ => Access) :
    Except StatePanic (AList fun _ : κ => Access) :=
  match entry.2 with
  | .read original => do
      ensure .valueReadTwice (entry.1 ∉ log)
      return log.insert entry.1 (.read original)
  | .write modified =>
    match log.lookup entry.1 with
    | some existing => return log.insert entry.1 (existing.addWrite modified)
    | none => return log.insert entry.1 (.write modified)

def commitRevertableLog : Except StatePanic (CacheLog κ) :=
  if c.log.entries.isEmpty then .ok ⟨c.log, c.revertableLog⟩
  else do
    let log ← c.revertableLog.entries.foldlM mergeEntry c.log
    return ⟨∅, log⟩

def discardRevertableLog : CacheLog κ := { c with revertableLog := ∅ }

def writesOf (entries : List (Sigma fun _ : κ => Access)) : List (κ × Option SlotValue) :=
  entries.filterMap fun entry =>
    match entry.2 with
    | .read _ => none
    | .write modified => some (entry.1, modified)

def takeWrites : Except StatePanic (List (κ × Option SlotValue)) := do
  ensure .revertableLogNotEmpty (c.revertableLog.entries.isEmpty = true)
  return writesOf c.log.entries

end CacheLog

/-- `Storage` at one namespace, as far as the cache uses it; the witness is passed along. -/
structure Storage (κ W : Type) where
  getLeaf : κ → W → Except StatePanic (Option NodeLeafAndMaybeValue × W)
  get : κ → W → Except StatePanic (Option SlotValue × W)
  putInWitness : Option SlotValue → W → W

structure ProvableStorageCache (κ : Type) where
  cache : CacheLog κ
  revertableOrderedReads : List (κ × Option NodeLeafAndMaybeValue)
  orderedDbReads : List (κ × Option NodeLeaf)

structure OrderedReadsAndWrites (κ : Type) where
  orderedReads : List (κ × Option NodeLeaf)
  orderedWrites : List (κ × Option SlotValue)
deriving DecidableEq, Repr

namespace ProvableStorageCache

def empty : ProvableStorageCache κ := ⟨.empty, [], []⟩

def addRead (c : ProvableStorageCache κ) (key : κ) (node : Option NodeLeafAndMaybeValue) :
    Except StatePanic (ProvableStorageCache κ) := do
  let cache ← c.cache.addRead key node
  return { c with cache, revertableOrderedReads := c.revertableOrderedReads ++ [(key, node)] }

def getSizeOrFetch (storage : Storage κ W) (c : ProvableStorageCache κ) (witness : W) (key : κ) :
    Except StatePanic (Option UInt32 × ProvableStorageCache κ × W) :=
  match c.cache.get key with
  | some (.read original) => return (original.map (·.leaf.size), c, witness)
  | some (.write modified) => do
      let size ← modified.mapM SlotValue.size
      return (size, c, witness)
  | none => do
      let (leaf, witness) ← storage.getLeaf key witness
      let c ← c.addRead key leaf
      return (leaf.map (·.leaf.size), c, witness)

/-- `get_or_fetch`, where a value that is not cached comes from the storage. -/
def getOrFetch (digest : List UInt8 → Digest) (storage : Storage κ W) (c : ProvableStorageCache κ)
    (witness : W) (key : κ) : Except StatePanic (Option SlotValue × ProvableStorageCache κ × W) :=
  match c.cache.get key with
  | some (.read (some node)) =>
    match node.value with
    | .getSizeValueNotFetched => do
        let (fetched, witness) ← storage.get key witness
        let slotValue ← unwrap .invalidRead fetched
        let leaf ← NodeLeaf.makeLeaf digest slotValue
        ensure .leafMismatch (node.leaf = leaf)
        let cache := c.cache.assign key (.read (some { node with value := .read slotValue }))
        return (some slotValue, { c with cache }, witness)
    | .getSizeValueFetched slotValue =>
      let cache := c.cache.assign key (.read (some { node with value := .read slotValue }))
      return (some slotValue, { c with cache }, storage.putInWitness (some slotValue) witness)
    | .read slotValue => return (some slotValue, c, witness)
  | some (.read none) => return (none, c, witness)
  | some (.write modified) => return (modified, c, witness)
  | none => do
      let (storageValue, witness) ← storage.get key witness
      let read ← storageValue.mapM (NodeLeafAndMaybeValue.newRead digest)
      let c ← c.addRead key read
      return (storageValue, c, witness)

def addWrite (c : ProvableStorageCache κ) (key : κ) (value : Option SlotValue) :
    Except StatePanic (ProvableStorageCache κ) := do
  let (cache, _) ← c.cache.addWrite key value
  return { c with cache }

variable (c : ProvableStorageCache κ)

def set (key : κ) (value : SlotValue) : Except StatePanic (ProvableStorageCache κ) :=
  c.addWrite key (some value)

def delete (key : κ) : Except StatePanic (ProvableStorageCache κ) :=
  c.addWrite key none

def commitRevertableStorageCache : Except StatePanic (ProvableStorageCache κ) := do
  let cache ← c.cache.commitRevertableLog
  return {
    cache
    revertableOrderedReads := []
    orderedDbReads := c.orderedDbReads ++ c.revertableOrderedReads.map fun read => (read.1, read.2.map (·.leaf)) }

def discardRevertableStorageCache : ProvableStorageCache κ :=
  { c with cache := c.cache.discardRevertableLog, revertableOrderedReads := [] }

def toOrderedWritesAndReads : Except StatePanic (OrderedReadsAndWrites κ) := do
  let c ← c.commitRevertableStorageCache
  let writes ← c.cache.takeWrites
  return ⟨c.orderedDbReads, writes.insertionSort fun a b => a.1 ≤ b.1⟩

end ProvableStorageCache

namespace ProvableStorageCache
variable {digest : List UInt8 → Digest} {storage : Storage κ W} {c c' : ProvableStorageCache κ}
  {witness witness' : W} {key : κ}

def cacheRead (c : ProvableStorageCache κ) (key : κ) (node : NodeLeafAndMaybeValue) (v : SlotValue) :
    ProvableStorageCache κ :=
  { c with cache := c.cache.assign key (.read (some { node with value := .read v })) }

theorem addRead_eq (hNone : c.cache.revertableLog.lookup key = none) (node : Option NodeLeafAndMaybeValue) :
    c.addRead key node = .ok
      { c with
        cache := { c.cache with revertableLog := c.cache.revertableLog.insert key (.read node) }
        revertableOrderedReads := c.revertableOrderedReads ++ [(key, node)] } := by
  rw [addRead, CacheLog.addRead, hNone]
  rfl

theorem addWrite_eq (c : ProvableStorageCache κ) (key : κ) (value : Option SlotValue) :
    c.addWrite key value = do
      let _ ← writeSize value
      return { c with
        cache := { c.cache with revertableLog := c.cache.revertableLog.insert key (.write value) } } := by
  unfold addWrite CacheLog.addWrite
  cases writeSize value with
  | error p => rfl
  | ok size =>
    split <;> rfl

theorem addWrite_ok {value} (h : c.addWrite key value = .ok c') :
    (∃ size, writeSize value = .ok size) ∧
      c' = { c with cache := { c.cache with revertableLog := c.cache.revertableLog.insert key (.write value) } } := by
  rw [addWrite_eq, bind_eq_ok] at h
  obtain ⟨size, hSize, hEq⟩ := h
  exact ⟨⟨size, hSize⟩, (Except.ok.inj hEq).symm⟩

inductive GetCase (digest : List UInt8 → Digest) (storage : Storage κ W) (c : ProvableStorageCache κ)
    (witness : W) (key : κ) : Option SlotValue → ProvableStorageCache κ → W → Prop where
  | fetched {value : Option SlotValue} {c' : ProvableStorageCache κ} {witness' : W}
      {node : Option NodeLeafAndMaybeValue} (hGet : c.cache.get key = none)
      (hFetch : storage.get key witness = .ok (value, witness'))
      (hNode : value.mapM (NodeLeafAndMaybeValue.newRead digest) = .ok node)
      (hAdd : c.addRead key node = .ok c') : GetCase digest storage c witness key value c' witness'
  | notFetched {node : NodeLeafAndMaybeValue} {v : SlotValue} {witness' : W}
      (hGet : c.cache.get key = some (.read (some node))) (hStage : node.value = .getSizeValueNotFetched)
      (hFetch : storage.get key witness = .ok (some v, witness'))
      (hLeaf : NodeLeaf.makeLeaf digest v = .ok node.leaf) :
      GetCase digest storage c witness key (some v) (c.cacheRead key node v) witness'
  | alreadyFetched {node : NodeLeafAndMaybeValue} {v : SlotValue}
      (hGet : c.cache.get key = some (.read (some node))) (hStage : node.value = .getSizeValueFetched v) :
      GetCase digest storage c witness key (some v) (c.cacheRead key node v) (storage.putInWitness (some v) witness)
  | read {node : NodeLeafAndMaybeValue} {v : SlotValue} (hGet : c.cache.get key = some (.read (some node)))
      (hStage : node.value = .read v) : GetCase digest storage c witness key (some v) c witness
  | absent (hGet : c.cache.get key = some (.read none)) : GetCase digest storage c witness key none c witness
  | written {value : Option SlotValue} (hGet : c.cache.get key = some (.write value)) :
      GetCase digest storage c witness key value c witness

theorem getOrFetch_ok {value} (h : c.getOrFetch digest storage witness key = .ok (value, c', witness')) :
    GetCase digest storage c witness key value c' witness' := by
  unfold getOrFetch at h
  split at h
  · rename_i node hGet
    split at h
    · rename_i hStage
      simp only [bind_eq_ok, unwrap_eq_ok, ensure_eq_ok, pure_eq_ok] at h
      obtain ⟨⟨_, _⟩, hFetch, v, rfl, leaf, hLeaf, _, hSame, rfl, rfl, rfl⟩ := h
      exact .notFetched hGet hStage hFetch (hSame ▸ hLeaf)
    · rename_i v hStage
      cases h
      exact .alreadyFetched hGet hStage
    · rename_i v hStage
      cases h
      exact .read hGet hStage
  · cases h
    exact .absent ‹_›
  · cases h
    exact .written ‹_›
  · simp only [bind_eq_ok, pure_eq_ok] at h
    obtain ⟨⟨_, _⟩, hFetch, node, hNode, _, hAdd, rfl, rfl, rfl⟩ := h
    exact .fetched ‹_› hFetch hNode hAdd

inductive GetSizeCase (storage : Storage κ W) (c : ProvableStorageCache κ) (witness : W) (key : κ) :
    Option UInt32 → ProvableStorageCache κ → W → Prop where
  | fetched {c' : ProvableStorageCache κ} {witness' : W} {node : Option NodeLeafAndMaybeValue}
      (hGet : c.cache.get key = none) (hFetch : storage.getLeaf key witness = .ok (node, witness'))
      (hAdd : c.addRead key node = .ok c') :
      GetSizeCase storage c witness key (node.map (·.leaf.size)) c' witness'
  | read {node : Option NodeLeafAndMaybeValue} (hGet : c.cache.get key = some (.read node)) :
      GetSizeCase storage c witness key (node.map (·.leaf.size)) c witness
  | written {value : Option SlotValue} {size : Option UInt32} (hGet : c.cache.get key = some (.write value))
      (hSize : value.mapM SlotValue.size = .ok size) : GetSizeCase storage c witness key size c witness

theorem getSizeOrFetch_ok {size} (h : c.getSizeOrFetch storage witness key = .ok (size, c', witness')) :
    GetSizeCase storage c witness key size c' witness' := by
  unfold getSizeOrFetch at h
  split at h
  · cases h
    exact .read ‹_›
  · simp only [bind_eq_ok, pure_eq_ok] at h
    obtain ⟨_, hSize, rfl, rfl, rfl⟩ := h
    exact .written ‹_› hSize
  · simp only [bind_eq_ok, pure_eq_ok] at h
    obtain ⟨⟨_, _⟩, hFetch, _, hAdd, rfl, rfl, rfl⟩ := h
    exact .fetched ‹_› hFetch hAdd

end ProvableStorageCache

inductive CacheOperation (κ : Type) where
  | get (key : κ)
  | getSize (key : κ)
  | set (key : κ) (value : SlotValue)
  | delete (key : κ)
  | commit
  | discard
deriving DecidableEq, Repr

inductive CacheAnswer where
  | value (value : Option SlotValue)
  | size (size : Option UInt32)
  | done
deriving DecidableEq, Repr

def ProvableStorageCache.perform (digest : List UInt8 → Digest) (storage : Storage κ W)
    (state : ProvableStorageCache κ × W) (operation : CacheOperation κ) :
    Except StatePanic ((ProvableStorageCache κ × W) × CacheAnswer) :=
  match operation with
  | .get key => do
      let (value, next) ← state.1.getOrFetch digest storage state.2 key
      return (next, .value value)
  | .getSize key => do
      let (size, next) ← state.1.getSizeOrFetch storage state.2 key
      return (next, .size size)
  | .set key value => do
      let c ← state.1.set key value
      return ((c, state.2), .done)
  | .delete key => do
      let c ← state.1.delete key
      return ((c, state.2), .done)
  | .commit => do
      let c ← state.1.commitRevertableStorageCache
      return ((c, state.2), .done)
  | .discard => return ((state.1.discardRevertableStorageCache, state.2), .done)

namespace ProvableStorageCache
variable {digest : List UInt8 → Digest} {storage : Storage κ W} {state : ProvableStorageCache κ × W}
  {operation : CacheOperation κ} {out : (ProvableStorageCache κ × W) × CacheAnswer}

inductive Performed (digest : List UInt8 → Digest) (storage : Storage κ W) (state : ProvableStorageCache κ × W) :
    CacheOperation κ → (ProvableStorageCache κ × W) × CacheAnswer → Prop
  | get {key value next} (hGet : state.1.getOrFetch digest storage state.2 key = .ok (value, next)) :
      Performed digest storage state (.get key) (next, .value value)
  | getSize {key size next} (hGet : state.1.getSizeOrFetch storage state.2 key = .ok (size, next)) :
      Performed digest storage state (.getSize key) (next, .size size)
  | set {key value c} (hAdd : state.1.addWrite key (some value) = .ok c) :
      Performed digest storage state (.set key value) ((c, state.2), .done)
  | delete {key c} (hAdd : state.1.addWrite key none = .ok c) :
      Performed digest storage state (.delete key) ((c, state.2), .done)
  | commit {c} (hCommit : state.1.commitRevertableStorageCache = .ok c) :
      Performed digest storage state .commit ((c, state.2), .done)
  | discard : Performed digest storage state .discard ((state.1.discardRevertableStorageCache, state.2), .done)

theorem perform_ok (h : perform digest storage state operation = .ok out) :
    Performed digest storage state operation out := by
  cases operation <;> simp only [perform, bind_eq_ok, pure_eq_ok] at h
  case get => obtain ⟨_, hGet, rfl⟩ := h; exact .get hGet
  case getSize => obtain ⟨_, hGet, rfl⟩ := h; exact .getSize hGet
  case set => obtain ⟨_, hAdd, rfl⟩ := h; exact .set hAdd
  case delete => obtain ⟨_, hAdd, rfl⟩ := h; exact .delete hAdd
  case commit => obtain ⟨_, hCommit, rfl⟩ := h; exact .commit hCommit
  case discard => exact h ▸ .discard

end ProvableStorageCache

end SovereignSdk
