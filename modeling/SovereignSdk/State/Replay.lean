import SovereignSdk.State.CacheReads

/-! Operations performed by the prover and replayed inside the zkVM with the hints that the
prover has recorded. -/
namespace SovereignSdk
open Outcome ProvableStorageCache CacheLog List

variable {κ : Type} [LinearOrder κ] {digest : List UInt8 → Digest} {codec : HintCodec}
  {contents : κ → Option SlotValue}

/-- What the zkVM has cached where the prover has cached an access: it knows the size of a
value that was measured, but not the value. -/
inductive EntryReplays (digest : List UInt8 → Digest) : Option Access → Option Access → Prop where
  | untouched : EntryReplays digest none none
  | write (value : Option SlotValue) : EntryReplays digest (some (.write value)) (some (.write value))
  | absent : EntryReplays digest (some (.read none)) (some (.read none))
  | sized {leaf : NodeLeaf} {v : SlotValue} (hLeaf : NodeLeaf.makeLeaf digest v = .ok leaf) :
      EntryReplays digest (some (.read (some ⟨leaf, .getSizeValueFetched v⟩)))
        (some (.read (some ⟨leaf, .getSizeValueNotFetched⟩)))
  | read (leaf : NodeLeaf) (v : SlotValue) :
      EntryReplays digest (some (.read (some ⟨leaf, .read v⟩))) (some (.read (some ⟨leaf, .read v⟩)))

namespace EntryReplays
variable {a b : Option Access}

theorem eq_none_iff (h : EntryReplays digest a b) : a = none ↔ b = none := by
  cases h <;> simp

theorem eq_write_iff (h : EntryReplays digest a b) (value : Option SlotValue) :
    a = some (.write value) ↔ b = some (.write value) := by
  cases h <;> simp

variable {node : Option NodeLeafAndMaybeValue}

theorem read_of_read (h : EntryReplays digest a (some (.read node))) : ∃ node', a = some (.read node') := by
  cases h <;> exact ⟨_, rfl⟩

theorem or {a' b'} (h : EntryReplays digest a b) (h' : EntryReplays digest a' b') :
    EntryReplays digest (a.or a') (b.or b') := by
  cases h with
  | untouched => exact h'
  | write value => exact .write value
  | absent => exact .absent
  | sized hLeaf => exact .sized hLeaf
  | read leaf v => exact .read leaf v

theorem of_absent (h : EntryReplays digest (some (.read none)) b) : b = some (.read none) := by
  cases h
  rfl

theorem of_node {node} (h : EntryReplays digest (some (.read (some node))) b) :
    (∃ v, node.value = .getSizeValueFetched v ∧ NodeLeaf.makeLeaf digest v = .ok node.leaf ∧
        b = some (.read (some ⟨node.leaf, .getSizeValueNotFetched⟩))) ∨
      ∃ v, node.value = .read v ∧ b = some (.read (some node)) := by
  cases h with
  | sized hLeaf => exact .inl ⟨_, rfl, hLeaf, rfl⟩
  | read leaf v => exact .inr ⟨v, rfl, rfl⟩

theorem of_newRead {value : Option SlotValue} (h : value.mapM (NodeLeafAndMaybeValue.newRead digest) = .ok node) :
    EntryReplays digest (some (.read node)) (some (.read node)) := by
  obtain ⟨-, rfl⟩ | ⟨v, leaf, -, -, rfl⟩ := newRead_ok h
  · exact .absent
  · exact .read leaf v

variable {node' : Option NodeLeafAndMaybeValue}

section
variable (h : EntryReplays digest (some (.read node)) (some (.read node')))
include h

theorem leaf :
    node.map (·.leaf) = node'.map (·.leaf) := by
  cases h <;> rfl

theorem size :
    node.map (·.leaf.size) = node'.map (·.leaf.size) := by
  cases h <;> rfl

end

theorem of_read (h : EntryReplays digest (some (.read node)) b) : ∃ node', b = some (.read node') := by
  cases h <;> exact ⟨_, rfl⟩

end EntryReplays

def leavesOf (reads : List (κ × Option NodeLeafAndMaybeValue)) : List (κ × Option NodeLeaf) :=
  reads.map fun read => (read.1, read.2.map (·.leaf))

namespace ProvableStorageCache
variable {c z : ProvableStorageCache κ} {key : κ}

/-- The cache `z` of the zkVM has what the cache `c` of the prover has. -/
structure Replays (digest : List UInt8 → Digest) (c z : ProvableStorageCache κ) : Prop where
  revertable : ∀ key, EntryReplays digest (c.cache.revertableLog.lookup key) (z.cache.revertableLog.lookup key)
  log : ∀ key, EntryReplays digest (c.cache.log.lookup key) (z.cache.log.lookup key)
  once : c.cache.Once
  pendingReads : leavesOf c.revertableOrderedReads = leavesOf z.revertableOrderedReads
  reads : c.orderedDbReads = z.orderedDbReads

namespace Replays

theorem empty : (empty : ProvableStorageCache κ).Replays digest .empty :=
  ⟨fun _ => .untouched, fun _ => .untouched, fun _ _ h => (nomatch h), rfl, rfl⟩

theorem get (h : c.Replays digest z) (key : κ) : EntryReplays digest (c.cache.get key) (z.cache.get key) :=
  (h.revertable key).or (h.log key)

theorem once_replayed (h : c.Replays digest z) : z.cache.Once := by
  intro key node hRead
  have hEntry := h.revertable key
  rw [hRead] at hEntry
  obtain ⟨node', hNode⟩ := hEntry.read_of_read
  exact (h.log key).eq_none_iff.mp (h.once key node' hNode)

theorem entries_insert {log log' : AList fun _ : κ => Access}
    (h : ∀ k, EntryReplays digest (log.lookup k) (log'.lookup k)) {access access' : Access}
    (hAccess : EntryReplays digest (some access) (some access')) (k : κ) :
    EntryReplays digest ((log.insert key access).lookup k) ((log'.insert key access').lookup k) := by
  rw [lookup_insert, lookup_insert]
  split
  · exact hAccess
  · exact h k

variable {c' : ProvableStorageCache κ}

section
variable (h : c.Replays digest z)
include h

theorem addRead (hNone : c.cache.get key = none) {node node' : Option NodeLeafAndMaybeValue}
    (hRepl : EntryReplays digest (some (.read node)) (some (.read node'))) (hAdd : c.addRead key node = .ok c') :
    ∃ z', z.addRead key node' = .ok z' ∧ c'.Replays digest z' := by
  obtain ⟨hRev, hLog⟩ := get_eq_none.mp hNone
  rw [addRead_eq hRev, Except.ok.injEq] at hAdd
  subst hAdd
  refine ⟨_, addRead_eq ((h.revertable key).eq_none_iff.mp hRev) node',
    entries_insert h.revertable hRepl, h.log, h.once.insertRead hLog node, ?_, h.reads⟩
  have hPend := h.pendingReads
  unfold leavesOf at hPend ⊢
  simp [hPend, hRepl.leaf]

theorem cacheRead {node node' : NodeLeafAndMaybeValue} (v : SlotValue)
    (hGet : c.cache.get key = some (.read (some node))) (hGet' : z.cache.get key = some (.read (some node'))) :
    (c.cacheRead key node v).Replays digest (z.cacheRead key node' v) := by
  have hEntry := h.get key
  rw [hGet, hGet'] at hEntry
  have hLeaf : node.leaf = node'.leaf := Option.some.inj hEntry.leaf
  have hMem : key ∈ c.cache.revertableLog ↔ key ∈ z.cache.revertableLog := by
    rw [← not_iff_not, ← AList.lookup_eq_none, ← AList.lookup_eq_none]
    exact (h.revertable key).eq_none_iff
  have hRead : EntryReplays digest (some (.read (some { node with value := .read v })))
      (some (.read (some { node' with value := .read v }))) := by
    rw [hLeaf]
    exact .read node'.leaf v
  have hOnce := h.once.assign hGet (some { node with value := .read v })
  unfold ProvableStorageCache.cacheRead
  unfold assign at hOnce ⊢
  by_cases hHere : key ∈ c.cache.revertableLog
  · rw [if_pos hHere] at hOnce ⊢
    rw [if_pos (hMem.mp hHere)]
    exact ⟨entries_insert h.revertable hRead, h.log, hOnce, h.pendingReads, h.reads⟩
  · rw [if_neg hHere] at hOnce ⊢
    rw [if_neg (mt hMem.mpr hHere)]
    exact ⟨h.revertable, entries_insert h.log hRead, hOnce, h.pendingReads, h.reads⟩

theorem addWrite {value : Option SlotValue}
    (hAdd : c.addWrite key value = .ok c') : ∃ z', z.addWrite key value = .ok z' ∧ c'.Replays digest z' := by
  obtain ⟨⟨size, hSize⟩, rfl⟩ := addWrite_ok hAdd
  refine ⟨{ z with cache := { z.cache with revertableLog := z.cache.revertableLog.insert key (.write value) } },
    by rw [addWrite_eq, hSize]; rfl, entries_insert h.revertable (.write value), h.log,
    h.once.insertWrite key value, h.pendingReads, h.reads⟩

theorem commit (hCommit : c.commitRevertableStorageCache = .ok c') :
    ∃ z', z.commitRevertableStorageCache = .ok z' ∧ c'.Replays digest z' := by
  obtain ⟨log, hLog, hLookup⟩ := commitRevertableLog_ok h.once
  obtain ⟨log', hLog', hLookup'⟩ := commitRevertableLog_ok h.once_replayed
  rw [commitRevertableStorageCache, hLog] at hCommit
  cases hCommit
  refine ⟨⟨⟨∅, log'⟩, [], z.orderedDbReads ++ leavesOf z.revertableOrderedReads⟩,
    by rw [commitRevertableStorageCache, hLog']; rfl, fun _ => .untouched, fun k => ?_,
    fun _ _ hRead => (by cases hRead), rfl, ?_⟩
  · rw [hLookup, hLookup']
    exact h.get k
  · show c.orderedDbReads ++ leavesOf c.revertableOrderedReads = _
    rw [h.reads, h.pendingReads]

theorem discard : c.discardRevertableStorageCache.Replays digest z.discardRevertableStorageCache :=
  ⟨fun _ => .untouched, h.log, nofun, rfl, h.reads⟩

end

end Replays

variable {codec : HintCodec} {contents : κ → Option SlotValue} {c' : ProvableStorageCache κ}
  {hints hints' : ArrayWitness codec}

/-- A value that the prover finds, the zkVM finds with the hints recorded for it. -/
theorem Replays.getOrFetch (h : c.Replays digest z) {value : Option SlotValue}
    (hGet : c.getOrFetch digest (proverStorage digest codec contents) hints key = .ok (value, c', hints')) :
    ∃ new, hints' = hints ++ new ∧ ∃ z', c'.Replays digest z' ∧
      ∀ rest, z.getOrFetch digest (zkStorage codec) (new ++ rest) key = .ok (value, z', rest) := by
  have hEntry := h.get key
  have hHint : ∀ v rest, (zkStorage codec).get key (codec.ofValue v :: rest) = .ok (v, rest) :=
    fun v rest => ArrayWitness.getHint_cons (codec.toValue_ofValue v) rest
  cases getOrFetch_ok hGet with
  | fetched hNone hFetch hNode hAdd =>
    cases hFetch
    obtain ⟨z', hAdd', hRepl⟩ := h.addRead hNone (.of_newRead hNode) hAdd
    refine ⟨[codec.ofValue (contents key)], rfl, z', hRepl, fun rest => ?_⟩
    rw [getOrFetch, hEntry.eq_none_iff.mp hNone]
    simp only [singleton_append, hHint, ok_bind, hNode, hAdd']
    rfl
  | notFetched hRead hStage =>
    rw [hRead] at hEntry
    obtain ⟨_, hValue, -⟩ | ⟨_, hValue, -⟩ := hEntry.of_node <;> rw [hStage] at hValue <;> cases hValue
  | @alreadyFetched node v hRead hStage =>
    rw [hRead] at hEntry
    obtain ⟨_, hValue, hLeaf, hRead'⟩ | ⟨_, hValue, -⟩ := hEntry.of_node <;> rw [hStage] at hValue <;>
      cases hValue
    refine ⟨[codec.ofValue (some v)], rfl, _, h.cacheRead v hRead hRead', fun rest => ?_⟩
    rw [getOrFetch, hRead']
    simp only [singleton_append, hHint, ok_bind, unwrap_some, hLeaf, ensure]
    rfl
  | read hRead hStage =>
    rw [hRead] at hEntry
    obtain ⟨_, hValue, -⟩ | ⟨_, hValue, hRead'⟩ := hEntry.of_node <;> rw [hStage] at hValue <;> cases hValue
    refine ⟨[], (append_nil _).symm, z, h, fun rest => ?_⟩
    rw [getOrFetch, hRead']
    simp only [hStage]
    rfl
  | absent hRead =>
    rw [hRead] at hEntry
    refine ⟨[], (append_nil _).symm, z, h, fun rest => ?_⟩
    rw [getOrFetch, hEntry.of_absent]
    rfl
  | written hWrite =>
    refine ⟨[], (append_nil _).symm, z, h, fun rest => ?_⟩
    rw [getOrFetch, (hEntry.eq_write_iff _).mp hWrite]
    rfl

omit [LinearOrder κ] in
/-- The node that the prover caches, and the hint from which the zkVM gets its own. -/
theorem proverStorage_getLeaf_replays {node}
    (hFetch : (proverStorage digest codec contents).getLeaf key hints = .ok (node, hints')) :
    ∃ node', EntryReplays digest (some (.read node)) (some (.read node')) ∧
      node.map (·.leaf.size) = node'.map (·.leaf.size) ∧ hints' = hints ++ [codec.ofLeaf node'] ∧
      ∀ rest, (zkStorage codec).getLeaf key (codec.ofLeaf node' :: rest) = .ok (node', rest) := by
  simp only [proverStorage, bind_eq_ok, pure, Except.pure, Except.ok.injEq, Prod.mk.injEq] at hFetch
  obtain ⟨stored, hStored, rfl, rfl⟩ := hFetch
  have hHint : ∀ {node' : Option NodeLeafAndMaybeValue},
      (∀ n ∈ node', n.value = .getSizeValueNotFetched) →
        ∀ rest, (zkStorage codec).getLeaf key (codec.ofLeaf node' :: rest) = .ok (node', rest) := by
    intro node' hStage rest
    simp only [zkStorage, ArrayWitness.getHint_cons (codec.toLeaf_ofLeaf node'), ok_bind, ensure, if_pos hStage]
    rfl
  obtain ⟨-, rfl⟩ | ⟨v, _, -, hNode, rfl⟩ := optionMapM_eq_ok.mp hStored
  · exact ⟨none, .absent, rfl, rfl, hHint (by simp)⟩
  · simp only [bind_eq_ok, Except.ok.injEq] at hNode
    obtain ⟨leaf, hLeaf, rfl⟩ := hNode
    exact ⟨some ⟨leaf, .getSizeValueNotFetched⟩, .sized hLeaf, rfl, rfl, hHint (by simp)⟩

theorem Replays.getSizeOrFetch (h : c.Replays digest z) {size}
    (hGet : c.getSizeOrFetch (proverStorage digest codec contents) hints key = .ok (size, c', hints')) :
    ∃ new, hints' = hints ++ new ∧ ∃ z', c'.Replays digest z' ∧
      ∀ rest, z.getSizeOrFetch (zkStorage codec) (new ++ rest) key = .ok (size, z', rest) := by
  have hEntry := h.get key
  cases getSizeOrFetch_ok hGet with
  | fetched hNone hFetch hAdd =>
    obtain ⟨node', hRepl, hSize, rfl, hHint⟩ := proverStorage_getLeaf_replays hFetch
    obtain ⟨z', hAdd', hNext⟩ := h.addRead hNone hRepl hAdd
    refine ⟨_, rfl, z', hNext, fun rest => ?_⟩
    rw [getSizeOrFetch, hEntry.eq_none_iff.mp hNone]
    simp only [singleton_append, hHint, ok_bind, hAdd', hSize]
    rfl
  | read hRead =>
    rw [hRead] at hEntry
    obtain ⟨node', hRead'⟩ := hEntry.of_read
    rw [hRead'] at hEntry
    refine ⟨[], (append_nil _).symm, z, h, fun rest => ?_⟩
    rw [getSizeOrFetch, hRead', hEntry.size]
    rfl
  | written hWrite hSize =>
    refine ⟨[], (append_nil _).symm, z, h, fun rest => ?_⟩
    rw [getSizeOrFetch, (hEntry.eq_write_iff _).mp hWrite]
    simp only [hSize]
    rfl

/-- One operation: the hints that the prover appends are those that the zkVM consumes. -/
theorem Replays.perform (h : c.Replays digest z) {operation answer}
    (hStep : perform digest (proverStorage digest codec contents) (c, hints) operation = .ok ((c', hints'), answer)) :
    ∃ new, hints' = hints ++ new ∧ ∃ z', c'.Replays digest z' ∧
      ∀ rest, perform digest (zkStorage codec) (z, new ++ rest) operation =
        .ok ((z', rest), answer) := by
  cases perform_ok hStep with
  | get hGet =>
    obtain ⟨new, hNew, z', hNext, hReplay⟩ := h.getOrFetch hGet
    refine ⟨new, hNew, z', hNext, fun rest => ?_⟩
    simp only [ProvableStorageCache.perform, hReplay]
    rfl
  | getSize hGet =>
    obtain ⟨new, hNew, z', hNext, hReplay⟩ := h.getSizeOrFetch hGet
    refine ⟨new, hNew, z', hNext, fun rest => ?_⟩
    simp only [ProvableStorageCache.perform, hReplay]
    rfl
  | set hAdd | delete hAdd =>
    obtain ⟨z', hAdd', hNext⟩ := h.addWrite hAdd
    refine ⟨[], (append_nil _).symm, z', hNext, fun rest => ?_⟩
    simp only [perform, set, delete, hAdd']
    rfl
  | commit hCommit =>
    obtain ⟨z', hCommit', hNext⟩ := h.commit hCommit
    refine ⟨[], (append_nil _).symm, z', hNext, fun rest => ?_⟩
    simp only [perform, hCommit']
    rfl
  | discard => exact ⟨[], (append_nil _).symm, _, h.discard, fun _ => rfl⟩

theorem Replays.toOrderedWritesAndReads (h : c.Replays digest z) :
    ∃ accesses, c.toOrderedWritesAndReads = .ok accesses ∧ z.toOrderedWritesAndReads = .ok accesses := by
  obtain ⟨log, hLog, hLookup⟩ := commitRevertableLog_ok h.once
  obtain ⟨log', hLog', hLookup'⟩ := commitRevertableLog_ok h.once_replayed
  have hReads : z.allReads = c.allReads := by
    show z.orderedDbReads ++ leavesOf z.revertableOrderedReads = c.orderedDbReads ++ leavesOf c.revertableOrderedReads
    rw [h.reads, h.pendingReads]
  have hPerm : (writesOf log'.entries).Perm (writesOf log.entries) := by
    have hNodup : (writesOf log.entries).Nodup := (writesOf_keys log.nodupKeys).of_map
    have hNodup' : (writesOf log'.entries).Nodup := (writesOf_keys log'.nodupKeys).of_map
    rw [perm_ext_iff_of_nodup hNodup' hNodup]
    rintro ⟨key, value⟩
    rw [mem_writesOf, mem_writesOf, ← AList.mem_lookup_iff, ← AList.mem_lookup_iff, hLookup, hLookup']
    exact ((h.get key).eq_write_iff value).symm
  refine ⟨⟨c.allReads, (writesOf log.entries).insertionSort fun a b => a.1 ≤ b.1⟩, ?_, ?_⟩
  · simp only [ProvableStorageCache.toOrderedWritesAndReads, commitRevertableStorageCache, hLog]
    rfl
  · rw [← hReads, ← OrderedMap.insertionSort_eq_of_perm (writesOf_keys log'.nodupKeys) hPerm]
    simp only [ProvableStorageCache.toOrderedWritesAndReads, commitRevertableStorageCache, hLog']
    rfl

end ProvableStorageCache
end SovereignSdk
