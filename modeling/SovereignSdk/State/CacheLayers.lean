import SovereignSdk.Library.LayeredMap
import SovereignSdk.Library.Trace
import SovereignSdk.State.Cache

/-! The cache is a map in layers over the storage: what its entries say about the layers,
and that every operation keeps it so. -/
namespace SovereignSdk
open Outcome Option List SlotValue NodeLeafAndMaybeValue LayeredMap NodeLeaf AList

variable {κ W : Type} [LinearOrder κ] {digest : List UInt8 → Digest}

theorem lookup_insert {α β : Type} [DecidableEq α] (entries : AList fun _ : α => β) (key : α) (value : β) (k : α) :
    (entries.insert key value).lookup k = if k = key then some value else entries.lookup k := by
  split
  · rename_i hKey
    rw [hKey, AList.lookup_insert]
  · exact lookup_insert_ne ‹_›

/-- A longer value cannot be measured. -/
def SlotValue.Fits (v : SlotValue) : Prop := v.value.length < UInt32.size

def NodeLeaf.of (digest : List UInt8 → Digest) (v : SlotValue) : NodeLeaf :=
  ⟨UInt32.ofNat v.value.length, digest v.value⟩

variable {v : SlotValue}

theorem SlotValue.Fits.size (h : v.Fits) : v.size = .ok (UInt32.ofNat v.value.length) :=
  if_pos h

theorem SlotValue.size_ok {n} (h : v.size = .ok n) : v.Fits ∧ n = UInt32.ofNat v.value.length := by
  unfold size at h
  split at h
  · exact ⟨‹_›, (Except.ok.inj h).symm⟩
  · cases h

theorem SlotValue.size_error {p} (h : v.size = .error p) : p = .sizeOverflow ∧ ¬v.Fits := by
  unfold size at h
  split at h
  · cases h
  · exact ⟨(Except.error.inj h).symm, ‹_›⟩

theorem SlotValue.Fits.makeLeaf (h : v.Fits) : NodeLeaf.makeLeaf digest v = .ok (NodeLeaf.of digest v) := by
  rw [NodeLeaf.makeLeaf, h.size]
  rfl

theorem makeLeaf_ok {leaf} (h : makeLeaf digest v = .ok leaf) : v.Fits ∧ leaf = of digest v := by
  simp only [makeLeaf, bind_eq_ok, pure_eq_ok] at h
  obtain ⟨size, hSize, rfl⟩ := h
  obtain ⟨hFits, rfl⟩ := size_ok hSize
  exact ⟨hFits, rfl⟩

/-- What may be cached about a stored value after reading it. -/
inductive Holds (digest : List UInt8 → Digest) : Option SlotValue → Option NodeLeafAndMaybeValue → Prop where
  | absent : Holds digest none none
  | value {v : SlotValue} {readType : ReadType} (fits : v.Fits)
      (stage : readType = .getSizeValueNotFetched ∨ readType = .getSizeValueFetched v ∨ readType = .read v) :
      Holds digest (some v) (some ⟨of digest v, readType⟩)

variable {stored : Option SlotValue}

theorem Holds.leaf {node} (h : Holds digest stored node) : node.map (·.leaf) = stored.map (of digest) := by
  cases h <;> rfl

theorem Holds.of_none (h : Holds digest stored none) : stored = none := by
  cases h
  rfl

theorem Holds.of_some {node} (h : Holds digest stored (some node)) :
    ∃ v, stored = some v ∧ v.Fits ∧ node.leaf = of digest v ∧
      (node.value = .getSizeValueNotFetched ∨ node.value = .getSizeValueFetched v ∨ node.value = .read v) := by
  cases h with
  | value fits stage => exact ⟨_, rfl, fits, rfl, stage⟩

/-- What stops the cache at a value that is too long. -/
def Oversized (stored : Option SlotValue) (p : StatePanic) : Prop := p = .sizeOverflow ∧ ∃ v, stored = some v ∧ ¬v.Fits

theorem newRead_yields (stored : Option SlotValue) : Yields (Holds digest stored) (Oversized stored)
      (stored.mapM (NodeLeafAndMaybeValue.newRead digest)) := by
  cases stored with
  | none => exact .absent
  | some v =>
    by_cases hFits : v.Fits
    · simp only [mapM_some, newRead, hFits.makeLeaf]
      exact .value hFits (.inr (.inr rfl))
    · have hSize : v.size = .error .sizeOverflow := if_neg hFits
      simp only [mapM_some, newRead, makeLeaf, hSize]
      exact ⟨rfl, v, rfl, hFits⟩

/-- A storage that answers from fixed contents. The size of a value that is too long
stops it. -/
structure Storage.Fixed (storage : Storage κ W) (digest : List UInt8 → Digest)
    (contents : κ → Option SlotValue) : Prop where
  get : ∀ key witness, ∃ witness', storage.get key witness = .ok (contents key, witness')
  getLeaf : ∀ key witness, Yields (fun out => Holds digest (contents key) out.1)
      (fun p => p = .sizeOverflow ∧ ∃ v, contents key = some v ∧ ¬v.Fits) (storage.getLeaf key witness)

/-- What the entry of a key says about what is written for it in a layer. -/
inductive EntryFor (digest : List UInt8 → Digest) (stored : Option SlotValue) :
    Option Access → Option (Option SlotValue) → Prop where
  | absent : EntryFor digest stored none none
  | read {node : Option NodeLeafAndMaybeValue} (holds : Holds digest stored node) :
      EntryFor digest stored (some (.read node)) none
  | write {value : Option SlotValue} (fits : ∀ v ∈ value, v.Fits) :
      EntryFor digest stored (some (.write value)) (some value)

namespace EntryFor
variable {stored : Option SlotValue} {written : Option (Option SlotValue)}

theorem of_none (h : EntryFor digest stored none written) : written = none := by
  cases h
  rfl

theorem of_read {node} (h : EntryFor digest stored (some (.read node)) written) :
    written = none ∧ Holds digest stored node := by
  cases h with
  | read holds => exact ⟨rfl, holds⟩

theorem of_write {value} (h : EntryFor digest stored (some (.write value)) written) :
    written = some value ∧ ∀ v ∈ value, v.Fits := by
  cases h with
  | write fits => exact ⟨rfl, fits⟩

theorem eq_write {entry value} (h : EntryFor digest stored entry (some value)) : entry = some (.write value) := by
  cases h
  rfl

end EntryFor

namespace CacheLog
variable {c : CacheLog κ} {contents : κ → Option SlotValue} {m : LayeredMap κ SlotValue} {key : κ}

theorem get_eq_none : c.get key = none ↔ c.revertableLog.lookup key = none ∧ c.log.lookup key = none := by
  simp [get]

theorem foldlM_mergeEntry {log : AList fun _ : κ => Access} {entries : List (Sigma fun _ : κ => Access)}
    (hKeys : entries.NodupKeys) (hOnce : ∀ entry ∈ entries, ∀ node, entry.2 = .read node → entry.1 ∉ log) :
    ∃ log', entries.foldlM mergeEntry log = .ok log' ∧
      ∀ key, log'.lookup key = (entries.dlookup key).or (log.lookup key) := by
  induction entries generalizing log with
  | nil => exact ⟨log, rfl, fun key => by simp⟩
  | cons entry rest ih =>
    obtain ⟨hHead, hRest⟩ := nodupKeys_cons.mp hKeys
    have hMerge : mergeEntry log entry = .ok (log.insert entry.1 entry.2) := by
      obtain ⟨k, access⟩ := entry
      cases access with
      | read node =>
        have hNew := hOnce ⟨k, .read node⟩ mem_cons_self node rfl
        simp only [mergeEntry, ensure, if_pos hNew]
        rfl
      | write modified =>
        unfold mergeEntry
        dsimp only
        split <;> rfl
    have hOnce' : ∀ other ∈ rest, ∀ node, other.2 = .read node → other.1 ∉ log.insert entry.1 entry.2 := by
      intro other hOther node hRead
      have hNe : other.1 ≠ entry.1 := by
        intro hEq
        exact hHead (hEq ▸ mem_keys_of_mem hOther)
      rw [mem_insert]
      exact fun h => h.elim hNe (hOnce other (mem_cons_of_mem _ hOther) node hRead)
    obtain ⟨log', hLog', hLookup⟩ := ih hRest hOnce'
    refine ⟨log', by rw [foldlM_cons, hMerge, ok_bind, hLog'], fun key => ?_⟩
    rw [hLookup]
    obtain ⟨k, access⟩ := entry
    by_cases hKey : key = k
    · subst hKey
      rw [dlookup_eq_none.mpr hHead, dlookup_cons_eq, AList.lookup_insert]
      rfl
    · rw [dlookup_cons_ne _ _ hKey, lookup_insert_ne hKey]

/-- No key was read into the revertable log while the log had it. -/
def Once (c : CacheLog κ) : Prop :=
  ∀ key node, c.revertableLog.lookup key = some (.read node) → c.log.lookup key = none

namespace Once

theorem insertRead (h : c.Once) (hLog : c.log.lookup key = none) (node : Option NodeLeafAndMaybeValue) :
    Once { c with revertableLog := c.revertableLog.insert key (.read node) } := by
  intro k other hRead
  rw [lookup_insert] at hRead
  split at hRead
  · exact ‹k = key› ▸ hLog
  · exact h k other hRead

theorem insertWrite (h : c.Once) (key : κ) (value : Option SlotValue) :
    Once { c with revertableLog := c.revertableLog.insert key (.write value) } := by
  intro k other hRead
  rw [lookup_insert] at hRead
  split at hRead
  · cases hRead
  · exact h k other hRead

theorem assign (h : c.Once) {old} (hGet : c.get key = some (.read old))
    (new : Option NodeLeafAndMaybeValue) : (c.assign key (.read new)).Once := by
  unfold CacheLog.assign
  split
  · rename_i hMem
    intro k other hRead
    rw [lookup_insert] at hRead
    split at hRead
    · rename_i hKey
      subst hKey
      obtain ⟨access, hAccess⟩ := isSome_iff_exists.mp (lookup_isSome.mpr hMem)
      rw [CacheLog.get, hAccess, some_or] at hGet
      exact h k old (hGet ▸ hAccess)
    · exact h k other hRead
  · rename_i hNot
    intro k other hRead
    have hKey : k ≠ key := by
      rintro rfl
      rw [lookup_eq_none.mpr hNot] at hRead
      cases hRead
    rw [lookup_insert, if_neg hKey]
    exact h k other hRead

end Once

theorem commitRevertableLog_ok (hOnce : c.Once) :
    ∃ log, c.commitRevertableLog = .ok ⟨∅, log⟩ ∧ ∀ key, log.lookup key = c.get key := by
  unfold commitRevertableLog
  split
  · rename_i hEmpty
    have hLog : c.log = ∅ := ext (isEmpty_iff.mp hEmpty)
    simp [get, hLog]
  · have hNew : ∀ entry ∈ c.revertableLog.entries, ∀ node, entry.2 = .read node → entry.1 ∉ c.log := by
      rintro ⟨key, access⟩ hEntry node hRead
      have hAccess : access = .read node := hRead
      subst hAccess
      exact lookup_eq_none.mp (hOnce key node (mem_lookup_iff.mpr hEntry))
    obtain ⟨log, hLog, hLookup⟩ := foldlM_mergeEntry c.revertableLog.nodupKeys hNew
    exact ⟨log, by rw [hLog]; rfl, hLookup⟩

/-- The two logs are the two layers; a value is read from the storage into one of them. -/
structure Layers (digest : List UInt8 → Digest) (contents : κ → Option SlotValue) (c : CacheLog κ)
    (m : LayeredMap κ SlotValue) : Prop where
  pending : ∀ key, EntryFor digest (contents key) (c.revertableLog.lookup key) (m.pending key)
  committed : ∀ key, EntryFor digest (contents key) (c.log.lookup key) (m.committed key)
  once : c.Once

namespace Layers

theorem empty : Layers digest contents .empty .empty :=
  ⟨fun _ => .absent, fun _ => .absent, fun _ _ h => nomatch h⟩

section
variable (h : Layers digest contents c m)
include h

theorem get (key : κ) : EntryFor digest (contents key) (c.get key) (m.overlay key) := by
  have hPend := h.pending key
  have hComm := h.committed key
  unfold CacheLog.get overlay
  cases hEntry : c.revertableLog.lookup key with
  | none =>
    rw [hEntry] at hPend
    rw [hPend.of_none, none_or]
    exact hComm
  | some access =>
    rw [hEntry] at hPend
    cases access with
    | read node =>
      rw [h.once key node hEntry] at hComm
      rw [hPend.of_read.1, hComm.of_none]
      exact .read hPend.of_read.2
    | write value =>
      rw [hPend.of_write.1]
      exact .write hPend.of_write.2

theorem addRead (hNone : c.get key = none) {node} (hHolds : Holds digest (contents key) node) :
    ∃ c', c.addRead key node = .ok c' ∧ Layers digest contents c' m := by
  obtain ⟨hRev, hLog⟩ := get_eq_none.mp hNone
  have hUnwr : m.pending key = none := by
    have hPend := h.pending key
    rw [hRev] at hPend
    exact hPend.of_none
  refine ⟨{ c with revertableLog := c.revertableLog.insert key (.read node) }, ?_, fun k => ?_, h.committed,
    h.once.insertRead hLog node⟩
  · rw [CacheLog.addRead, hRev]
  · rw [lookup_insert]
    split
    · rename_i hKey
      rw [hKey, hUnwr]
      exact .read hHolds
    · exact h.pending k

theorem assign {old new} (hRead : c.get key = some (.read old)) (hHolds : Holds digest (contents key) new) :
    Layers digest contents (c.assign key (.read new)) m := by
  have hUnwr : m.pending key = none ∧ m.committed key = none := by
    have hEntry := h.get key
    rw [hRead] at hEntry
    exact or_eq_none_iff.mp hEntry.of_read.1
  have hOnce := h.once.assign hRead new
  unfold CacheLog.assign at hOnce ⊢
  split
  · rename_i hMem
    rw [if_pos hMem] at hOnce
    refine ⟨fun k => ?_, h.committed, hOnce⟩
    rw [lookup_insert]
    split
    · rename_i hKey
      rw [hKey, hUnwr.1]
      exact .read hHolds
    · exact h.pending k
  · rename_i hNot
    rw [if_neg hNot] at hOnce
    refine ⟨h.pending, fun k => ?_, hOnce⟩
    rw [lookup_insert]
    split
    · rename_i hKey
      rw [hKey, hUnwr.2]
      exact .read hHolds
    · exact h.committed k

end

theorem writeSize_yields (value : Option SlotValue) :
    Yields (fun _ => ∀ v ∈ value, v.Fits) (Oversized value) (writeSize value) := by
  cases value with
  | none => exact fun v hv => nomatch hv
  | some v =>
    refine .intro (fun n hn v' hv' => ?_) fun p hp => ?_
    · cases hv'
      exact (size_ok hn).1
    · exact ⟨(size_error hp).1, v, rfl, (size_error hp).2⟩

section
variable (h : Layers digest contents c m)
include h

theorem addWrite (value : Option SlotValue) :
    Yields (fun out => Layers digest contents out.1 (m.write key value)) (Oversized value) (c.addWrite key value) := by
  refine (writeSize_yields value).bind fun size hFits => ?_
  have hLayers : Layers digest contents { c with revertableLog := c.revertableLog.insert key (.write value) }
      (m.write key value) := by
    refine ⟨fun k => ?_, h.committed, h.once.insertWrite key value⟩
    rw [lookup_insert]
    split
    · rename_i hKey
      rw [hKey, pending_write_self]
      exact .write hFits
    · rw [pending_write_of_ne m ‹_›]
      exact h.pending k
  split <;> exact hLayers

theorem commit :
    ∃ log, c.commitRevertableLog = .ok ⟨∅, log⟩ ∧ (∀ key, log.lookup key = c.get key) ∧
      Layers digest contents ⟨∅, log⟩ m.commit := by
  obtain ⟨log, hCommit, hLookup⟩ := commitRevertableLog_ok h.once
  refine ⟨log, hCommit, hLookup, fun _ => .absent, fun k => ?_, fun _ _ hRead => nomatch hRead⟩
  rw [hLookup]
  exact h.get k

theorem discard : Layers digest contents c.discardRevertableLog m.discard :=
  ⟨fun _ => .absent, h.committed, fun _ _ hRead => nomatch hRead⟩

end

end Layers
end CacheLog
end SovereignSdk
