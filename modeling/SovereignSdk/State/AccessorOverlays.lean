import SovereignSdk.Library.Overlays
import SovereignSdk.State.CacheReads

/-! The state accessors: a checkpoint over the storage, and above it writers that keep their changes
to themselves until they are committed. A scratchpad is a writer over a checkpoint, and a working
set one over a scratchpad.

Gas, events, metrics and the caches of decoded values are left out. Changes that are not yet in the
storage when a checkpoint is opened count as its contents. -/
namespace SovereignSdk
open Outcome Overlays

inductive Namespace where
  | user
  | kernel
  | accessory
deriving DecidableEq, Repr

structure StateStorage (κ W : Type) where
  digest : List UInt8 → Digest
  provable : ProvableNamespace → Storage κ W
  getAccessory : κ → Option SlotValue

structure StateCheckpoint (κ W : Type) where
  delta : Delta κ
  accessoryWrites : AList fun _ : κ => Option SlotValue
  witness : W

structure FrozenState (κ : Type) where
  stateAccesses : StateAccesses κ
  accessoryDelta : List (κ × Option SlotValue)

variable {κ W : Type} [LinearOrder κ]

namespace StateCheckpoint
variable (storage : StateStorage κ W)

/-- A checkpoint over a storage, before anything is read or written. -/
def new (witness : W) : StateCheckpoint κ W := ⟨.empty, ∅, witness⟩

variable (c : StateCheckpoint κ W)

def onCache (n : ProvableNamespace) (cache : ProvableStorageCache κ) : StateCheckpoint κ W :=
  { c with delta := c.delta.setCache cache n }

def getProvable (n : ProvableNamespace) (key : κ) : Except StatePanic (Option SlotValue × StateCheckpoint κ W) := do
  let (value, cache, witness) ← (c.delta.cache n).getOrFetch storage.digest (storage.provable n) c.witness key
  return (value, { c.onCache n cache with witness })

variable (ns : Namespace)

def getValue (key : κ) : Except StatePanic (Option SlotValue × StateCheckpoint κ W) :=
  match ns with
  | .user => c.getProvable storage .user key
  | .kernel => c.getProvable storage .kernel key
  | .accessory =>
    match c.accessoryWrites.lookup key with
    | some write => return (write, c)
    | none => return (storage.getAccessory key, c)

def setValue (key : κ) (value : SlotValue) : Except StatePanic (StateCheckpoint κ W) :=
  match ns with
  | .user => do return c.onCache .user (← (c.delta.cache .user).set key value)
  | .kernel => do return c.onCache .kernel (← (c.delta.cache .kernel).set key value)
  | .accessory => return { c with accessoryWrites := c.accessoryWrites.insert key (some value) }

def deleteValue (key : κ) : Except StatePanic (StateCheckpoint κ W) :=
  match ns with
  | .user => do return c.onCache .user (← (c.delta.cache .user).delete key)
  | .kernel => do return c.onCache .kernel (← (c.delta.cache .kernel).delete key)
  -- The write is removed; nothing marks the key as deleted.
  | .accessory => return { c with accessoryWrites := c.accessoryWrites.erase key }

def commitRevertableStorageCache (c : StateCheckpoint κ W) : Except StatePanic (StateCheckpoint κ W) := do
  let user ← c.delta.userCache.commitRevertableStorageCache
  let kernel ← c.delta.kernelCache.commitRevertableStorageCache
  return { c with delta := ⟨user, kernel⟩ }

def discardRevertableStorageCache (c : StateCheckpoint κ W) : StateCheckpoint κ W :=
  { c with
    delta := ⟨c.delta.userCache.discardRevertableStorageCache, c.delta.kernelCache.discardRevertableStorageCache⟩ }

def freeze (c : StateCheckpoint κ W) : Except StatePanic (FrozenState κ) := do
  let stateAccesses ← c.delta.freeze
  return ⟨stateAccesses, c.accessoryWrites.entries.map fun entry => (entry.1, entry.2)⟩

end StateCheckpoint

def FrozenState.writes (frozen : FrozenState κ) : Namespace → List (κ × Option SlotValue)
  | .user => frozen.stateAccesses.user.orderedWrites
  | .kernel => frozen.stateAccesses.kernel.orderedWrites
  | .accessory => frozen.accessoryDelta

/-- A checkpoint, or a `RevertableWriter` over another accessor. -/
inductive Accessor (κ W : Type) where
  | checkpoint (c : StateCheckpoint κ W)
  | writer (inner : Accessor κ W) (writes : AList fun _ : κ × Namespace => Option SlotValue)

abbrev AccessorOperation (κ : Type) := Operation (κ × Namespace) SlotValue

namespace Accessor
variable (storage : StateStorage κ W)

def getValue (accessor : Accessor κ W) (i : κ × Namespace) : Except StatePanic (Option SlotValue × Accessor κ W) :=
  match accessor with
  | checkpoint c => do
      let (value, c) ← c.getValue storage i.2 i.1
      return (value, checkpoint c)
  | writer inner writes =>
    match writes.lookup i with
    | some value => return (value, writer inner writes)
    | none => do
        let (value, inner) ← inner.getValue i
        return (value, writer inner writes)

def setValue (accessor : Accessor κ W) (i : κ × Namespace) (value : SlotValue) : Except StatePanic (Accessor κ W) :=
  match accessor with
  | checkpoint c => do return checkpoint (← c.setValue i.2 i.1 value)
  | writer inner writes => return writer inner (writes.insert i (some value))

def deleteValue (accessor : Accessor κ W) (i : κ × Namespace) : Except StatePanic (Accessor κ W) :=
  match accessor with
  | checkpoint c => do return checkpoint (← c.deleteValue i.2 i.1)
  | writer inner writes => return writer inner (writes.insert i none)

def commitEntry (inner : Accessor κ W) (entry : Sigma fun _ : κ × Namespace => Option SlotValue) :
    Except StatePanic (Accessor κ W) :=
  match entry.2 with
  | some value => inner.setValue entry.1 value
  | none => inner.deleteValue entry.1

/-- The writes go to the accessor below; a checkpoint commits its revertable part. -/
def commit : Accessor κ W → Except StatePanic (Accessor κ W)
  | checkpoint c => do return checkpoint (← c.commitRevertableStorageCache)
  | writer inner writes => writes.entries.foldlM commitEntry inner

/-- The accessor below is left as it is; a checkpoint discards its revertable part. -/
def revert : Accessor κ W → Accessor κ W
  | checkpoint c => checkpoint c.discardRevertableStorageCache
  | writer inner _ => inner

def openLevel (accessor : Accessor κ W) : Accessor κ W := writer accessor ∅

/-- One operation on the topmost accessor, which owns those below. -/
def perform (accessor : Accessor κ W) :
    AccessorOperation κ → Except StatePanic (Accessor κ W × Option (Option SlotValue))
  | .get i => do
      let (value, accessor) ← accessor.getValue storage i
      return (accessor, some value)
  | .set i value => do return (← accessor.setValue i value, none)
  | .delete i => do return (← accessor.deleteValue i, none)
  | .openLevel => return (accessor.openLevel, none)
  | .commit => do return (← accessor.commit, none)
  | .revert => return (accessor.revert, none)

end Accessor

/-! The accessors as levels of changes above the storage. -/
open Overlays ProvableStorageCache LayeredMap List
variable {storage : StateStorage κ W} {digest : List UInt8 → Digest}
  {contents : ProvableNamespace → κ → Option SlotValue} {m : LayeredMap (κ × Namespace) SlotValue}

abbrev StateOverlays (κ : Type) := Overlays (κ × Namespace) SlotValue

def ProvableNamespace.namespace : ProvableNamespace → Namespace
  | .user => .user
  | .kernel => .kernel

def StateStorage.base (storage : StateStorage κ W) (contents : ProvableNamespace → κ → Option SlotValue)
    (i : κ × Namespace) : Option SlotValue :=
  match i.2 with
  | .user => contents .user i.1
  | .kernel => contents .kernel i.1
  | .accessory => storage.getAccessory i.1

/-- A value that is too long to be measured, and that the storage holds or that is written. -/
def Overflows (contents : ProvableNamespace → κ → Option SlotValue) (written : SlotValue → Prop) (p : StatePanic) :
    Prop :=
  p = .sizeOverflow ∧ ∃ v : SlotValue, ¬v.Fits ∧ ((∃ n key, contents n key = some v) ∨ written v)

omit [LinearOrder κ] in
theorem Overflows.mono {written written' : SlotValue → Prop} (hImp : ∀ v, written v → written' v) (p : StatePanic)
    (h : Overflows contents written p) : Overflows contents written' p := by
  obtain ⟨hp, v, hLong, hWhere⟩ := h
  exact ⟨hp, v, hLong, hWhere.imp_right (hImp v)⟩

omit [LinearOrder κ] in
theorem namespace_injective (ns : Namespace) : Function.Injective fun key : κ => (key, ns) := by
  intro key key' hSame
  exact (Prod.mk.inj hSame).1

namespace StateCheckpoint

structure Shows (digest : List UInt8 → Digest) (contents : ProvableNamespace → κ → Option SlotValue)
    (c : StateCheckpoint κ W) (m : LayeredMap (κ × Namespace) SlotValue) : Prop where
  provable : ∀ n, (c.delta.cache n).cache.Layers digest (contents n) (m.comap fun key => (key, n.namespace))
  accessory : ∀ key, c.accessoryWrites.lookup key = m.overlay (key, .accessory)

namespace Shows
variable {c : StateCheckpoint κ W}

theorem new (witness : W) : Shows digest contents (StateCheckpoint.new witness : StateCheckpoint κ W) .empty := by
  refine ⟨fun n => ?_, fun key => rfl⟩
  cases n <;> exact CacheLog.Layers.empty

theorem onCache (h : c.Shows digest contents m) {n cache m'} (witness : W)
    (hCache : cache.cache.Layers digest (contents n) (m'.comap fun key => (key, n.namespace)))
    (hOther : ∀ ns, ns ≠ n.namespace → (m'.comap fun key => (key, ns)) = m.comap fun key => (key, ns)) :
    Shows digest contents { c.onCache n cache with witness } m' := by
  refine ⟨fun n' => ?_, fun key => ?_⟩
  · show (((c.delta.setCache cache n).cache n').cache).Layers digest _ _
    rw [Delta.cache_setCache]
    by_cases hSame : n' = n
    · subst hSame
      rw [if_pos rfl]
      exact hCache
    · rw [if_neg hSame, hOther n'.namespace]
      · exact h.provable n'
      · cases n <;> cases n' <;> first | exact absurd rfl hSame | decide
  · have hAccessory := hOther .accessory (by cases n <;> decide)
    show c.accessoryWrites.lookup key = (m'.comap fun key => (key, Namespace.accessory)).overlay key
    rw [hAccessory]
    exact h.accessory key

section
variable (hFixed : ∀ n, (storage.provable n).Fixed storage.digest (contents n))
include hFixed

theorem getProvable (h : c.Shows storage.digest contents m) (n : ProvableNamespace) (key : κ) :
    Yields (fun out => out.1 = (m.comap fun k => (k, n.namespace)).read (contents n) key ∧
        out.2.Shows storage.digest contents m)
      (Overflows contents fun _ => False) (c.getProvable storage n key) := by
  have hGet := @ProvableStorageCache.getOrFetch_layers _ _ _ _ _ _ _ _ key (hFixed n) (h.provable n) c.witness
  refine (hGet.imp_error ?_).bind ?_
  · rintro p ⟨hp, v, hStored, hLong⟩
    exact ⟨hp, v, hLong, .inl ⟨n, key, hStored⟩⟩
  · rintro ⟨value, cache, witness⟩ ⟨rfl, hLayers⟩
    exact ⟨rfl, h.onCache witness hLayers fun _ _ => rfl⟩

theorem getValue (h : c.Shows storage.digest contents m) (ns : Namespace) (key : κ) :
    Yields (fun out => out.1 = m.read (storage.base contents) (key, ns) ∧ out.2.Shows storage.digest contents m)
      (Overflows contents fun _ => False) (c.getValue storage ns key) := by
  cases ns with
  | user => exact h.getProvable hFixed .user key
  | kernel => exact h.getProvable hFixed .kernel key
  | accessory =>
    unfold StateCheckpoint.getValue LayeredMap.read
    have hLookup := h.accessory key
    cases hWrite : c.accessoryWrites.lookup key with
    | none | some =>
      rw [← hLookup, hWrite]
      exact ⟨rfl, h⟩

end

section
variable (h : c.Shows digest contents m)
include h

theorem addWrite (n : ProvableNamespace) (key : κ) (value : Option SlotValue) :
    Yields (fun c' => c'.Shows digest contents (m.lay (LayeredMap.change (key, n.namespace) value)))
      (Overflows contents fun v => value = some v)
      (do return c.onCache n (← (c.delta.cache n).addWrite key value)) := by
  refine .bind ((addWrite_layers (h.provable n) value).imp_error ?_) ?_
  · rintro p ⟨hp, v, hValue, hLong⟩
    exact ⟨hp, v, hLong, .inr hValue⟩
  · intro cache hLayers
    refine h.onCache c.witness ?_ fun ns hNs => m.comap_lay_other ?_ value
    · rw [m.comap_lay_change (namespace_injective n.namespace)]
      exact hLayers
    · exact fun k hSame => hNs (Prod.mk.inj hSame).2

theorem setValue (i : κ × Namespace) (value : SlotValue) :
    Yields (fun c' => c'.Shows digest contents (m.lay (LayeredMap.change i (some value))))
      (Overflows contents fun v => v = value) (c.setValue i.2 i.1 value) := by
  have hFail : ∀ p, Overflows contents (fun v => some value = some v) p → Overflows contents (fun v => v = value) p :=
    Overflows.mono fun v hSame => (Option.some.inj hSame).symm
  obtain ⟨key, ns⟩ := i
  cases ns with
  | user => exact (h.addWrite .user key (some value)).imp_error hFail
  | kernel => exact (h.addWrite .kernel key (some value)).imp_error hFail
  | accessory =>
    refine ⟨fun n => ?_, fun k => ?_⟩
    · have hOther : ∀ k, (k, n.namespace) ≠ (key, Namespace.accessory) := by
        intro k hSame
        cases n <;> cases (Prod.mk.inj hSame).2
      rw [m.comap_lay_other hOther]
      exact h.provable n
    · rw [overlay_lay, ← h.accessory k]
      rw [lookup_insert, change]
      by_cases hKey : k = key
      · simp [hKey]
      · simp [hKey]

theorem deleteValue (i : κ × Namespace) (hProvable : i.2 ≠ .accessory) :
    Yields (fun c' => c'.Shows digest contents (m.lay (LayeredMap.change i none)))
      (Overflows contents fun _ => False) (c.deleteValue i.2 i.1) := by
  have hFail : ∀ p, Overflows contents (fun v => none = some v) p → Overflows contents (fun _ => False) p :=
    Overflows.mono nofun
  obtain ⟨key, ns⟩ := i
  cases ns with
  | user => exact (h.addWrite .user key none).imp_error hFail
  | kernel => exact (h.addWrite .kernel key none).imp_error hFail
  | accessory => exact absurd rfl hProvable

theorem commit : ∃ c', c.commitRevertableStorageCache = .ok c' ∧ c'.Shows digest contents m.commit := by
  obtain ⟨user, hUser, hUserLayers⟩ :=
    commitRevertableStorageCache_layers (h.provable .user)
  obtain ⟨kernel, hKernel, hKernelLayers⟩ :=
    commitRevertableStorageCache_layers (h.provable .kernel)
  refine ⟨{ c with delta := ⟨user, kernel⟩ }, ?_, fun n => ?_, h.accessory⟩
  · exact bind_eq_ok.mpr ⟨user, hUser, bind_eq_ok.mpr ⟨kernel, hKernel, rfl⟩⟩
  · cases n with
    | user => exact hUserLayers
    | kernel => exact hKernelLayers

/-- Nothing of the accessory state is discarded. -/
theorem discard (hAccessory : ∀ key, m.overlay (key, .accessory) = m.committed (key, .accessory)) :
    c.discardRevertableStorageCache.Shows digest contents m.discard := by
  refine ⟨fun n => ?_, fun key => (h.accessory key).trans (hAccessory key)⟩
  cases n with
  | user => exact (h.provable .user).discard
  | kernel => exact (h.provable .kernel).discard

theorem freeze :
    ∃ frozen, c.freeze = .ok frozen ∧
      ∀ ns key value, (key, value) ∈ frozen.writes ns ↔ m.overlay (key, ns) = some value := by
  obtain ⟨user, hUser, -, -, hUserWrites⟩ := toOrderedWritesAndReads_ok (h.provable .user)
  obtain ⟨kernel, hKernel, -, -, hKernelWrites⟩ :=
    toOrderedWritesAndReads_ok (h.provable .kernel)
  have hDelta : c.delta.freeze = .ok ⟨user, kernel⟩ :=
    bind_eq_ok.mpr ⟨user, hUser, bind_eq_ok.mpr ⟨kernel, hKernel, rfl⟩⟩
  refine ⟨⟨⟨user, kernel⟩, c.accessoryWrites.entries.map fun entry => (entry.1, entry.2)⟩, ?_, ?_⟩
  · exact bind_eq_ok.mpr ⟨_, hDelta, rfl⟩
  · intro ns key value
    cases ns with
    | user => exact hUserWrites key value
    | kernel => exact hKernelWrites key value
    | accessory =>
      rw [← h.accessory key]
      show (key, value) ∈ c.accessoryWrites.entries.map _ ↔ value ∈ c.accessoryWrites.lookup key
      rw [AList.mem_lookup_iff, mem_map]
      constructor
      · rintro ⟨⟨k, v⟩, hEntry, hSame⟩
        cases hSame
        exact hEntry
      · exact fun hEntry => ⟨_, hEntry, rfl⟩

end

end Shows
end StateCheckpoint

/-- No accessory value is deleted in a checkpoint, neither directly nor by a commit into it, and a
checkpoint that discards its revertable part has no accessory write since the last commit. -/
def Admits (o : StateOverlays κ) : AccessorOperation κ → Prop
  | .delete i => o.upper = [] → i.2 ≠ .accessory
  | .commit => ∀ top, o.upper = [top] → ∀ key, top (key, .accessory) ≠ some none
  | .revert =>
    o.upper = [] → ∀ key, o.bottom.overlay (key, .accessory) = o.bottom.committed (key, .accessory)
  | _ => True

namespace Accessor

def Shows (digest : List UInt8 → Digest) (contents : ProvableNamespace → κ → Option SlotValue) :
    Accessor κ W → StateOverlays κ → Prop
  | checkpoint c, ⟨m, []⟩ => c.Shows digest contents m
  | writer inner writes, ⟨m, top :: rest⟩ =>
    (∀ i, writes.lookup i = top i) ∧ inner.Shows digest contents ⟨m, rest⟩
  | _, _ => False

namespace Shows
variable {accessor : Accessor κ W} {o : StateOverlays κ} {written : SlotValue → Prop}

theorem getValue (hFixed : ∀ n, (storage.provable n).Fixed storage.digest (contents n))
    (h : accessor.Shows storage.digest contents o) (i : κ × Namespace) :
    Yields (fun out => out.1 = o.read (storage.base contents) i ∧ out.2.Shows storage.digest contents o)
      (Overflows contents fun _ => False) (accessor.getValue storage i) := by
  induction accessor generalizing o with
  | checkpoint c =>
    obtain ⟨m, upper⟩ := o
    cases upper with
    | cons top rest => exact h.elim
    | nil =>
      refine (StateCheckpoint.Shows.getValue hFixed h i.2 i.1).bind ?_
      rintro ⟨value, c'⟩ ⟨rfl, hShows⟩
      exact ⟨(read_nil m _ i).symm, hShows⟩
  | writer inner writes ih =>
    obtain ⟨m, upper⟩ := o
    cases upper with
    | nil => exact h.elim
    | cons top rest =>
      obtain ⟨hTop, hInner⟩ := h
      rw [read_cons, ← hTop i, Accessor.getValue]
      cases hWrite : writes.lookup i with
      | some value => exact ⟨rfl, hTop, hInner⟩
      | none =>
        refine (ih hInner).bind ?_
        rintro ⟨value, inner'⟩ ⟨rfl, hShows⟩
        exact ⟨rfl, hTop, hShows⟩

theorem insert {inner : Accessor κ W} {writes : AList fun _ : κ × Namespace => Option SlotValue}
    (h : (writer inner writes).Shows digest contents o) (i : κ × Namespace) (value : Option SlotValue) :
    (writer inner (writes.insert i value)).Shows digest contents (o.write i value) := by
  obtain ⟨m, upper⟩ := o
  cases upper with
  | nil => exact h.elim
  | cons top rest =>
    refine ⟨fun j => ?_, h.2⟩
    rw [lookup_insert, stacked, change, ← h.1 j]
    split <;> rfl

section
variable (h : accessor.Shows digest contents o)
include h

theorem setValue (i : κ × Namespace) {value : SlotValue} (hWritten : written value) :
    Yields (fun next => next.Shows digest contents (o.write i (some value))) (Overflows contents written)
      (accessor.setValue i value) := by
  cases accessor with
  | writer inner writes => exact h.insert i (some value)
  | checkpoint c =>
    obtain ⟨m, upper⟩ := o
    cases upper with
    | cons top rest => exact h.elim
    | nil =>
      refine ((StateCheckpoint.Shows.setValue h i value).imp_error (Overflows.mono ?_)).bind fun c' h => h
      rintro v rfl
      exact hWritten

theorem deleteValue (i : κ × Namespace) (hAdmits : o.upper = [] → i.2 ≠ .accessory) :
    Yields (fun next => next.Shows digest contents (o.write i none)) (Overflows contents written)
      (accessor.deleteValue i) := by
  cases accessor with
  | writer inner writes => exact h.insert i none
  | checkpoint c =>
    obtain ⟨m, upper⟩ := o
    cases upper with
    | cons top rest => exact h.elim
    | nil =>
      have hDelete := StateCheckpoint.Shows.deleteValue h i (hAdmits rfl)
      exact (hDelete.imp_error (Overflows.mono nofun)).bind fun c' hShows => hShows

theorem commitEntry (entry : Sigma fun _ : κ × Namespace => Option SlotValue)
    (hAdmits : o.upper = [] → entry.2 = none → entry.1.2 ≠ .accessory) (hWritten : ∀ v, entry.2 = some v → written v) :
    Yields (fun next => next.Shows digest contents (o.write entry.1 entry.2)) (Overflows contents written)
      (accessor.commitEntry entry) := by
  obtain ⟨i, value⟩ := entry
  cases value with
  | none => exact h.deleteValue i fun hUpper => hAdmits hUpper rfl
  | some v => exact h.setValue i (hWritten v rfl)

theorem commitEntries {entries : List (Sigma fun _ : κ × Namespace => Option SlotValue)}
    (hAdmits : o.upper = [] → ∀ entry ∈ entries, entry.2 = none → entry.1.2 ≠ .accessory)
    (hWritten : ∀ entry ∈ entries, ∀ v, entry.2 = some v → written v) :
    Yields (fun next => next.Shows digest contents (entries.foldl (fun o entry => o.write entry.1 entry.2) o))
      (Overflows contents written) (entries.foldlM Accessor.commitEntry accessor) := by
  induction entries generalizing accessor o with
  | nil => exact h
  | cons entry rest ih =>
    refine (h.commitEntry entry (fun hUpper => hAdmits hUpper entry mem_cons_self)
      (hWritten entry mem_cons_self)).bind fun next hNext => ?_
    refine ih hNext (fun hUpper other hOther => ?_) fun other hOther => hWritten other (mem_cons_of_mem _ hOther)
    have hSame : o.upper = [] := by
      rw [← length_eq_zero_iff, ← o.length_write entry.1 entry.2, hUpper]
      rfl
    exact hAdmits hSame other (mem_cons_of_mem _ hOther)

theorem commit (hAdmits : Admits o .commit) (hWithin : o.Within written) :
    Yields (fun next => next.Shows digest contents o.commit) (Overflows contents written) accessor.commit := by
  obtain ⟨m, upper⟩ := o
  cases accessor with
  | checkpoint c =>
    cases upper with
    | cons top rest => exact h.elim
    | nil =>
      obtain ⟨c', hCommit, hShows⟩ := StateCheckpoint.Shows.commit h
      rw [Accessor.commit, hCommit]
      exact hShows
  | writer inner writes =>
    cases upper with
    | nil => exact h.elim
    | cons top rest =>
      obtain ⟨hTop, hInner⟩ := h
      have hEntry : ∀ entry ∈ writes.entries, top entry.1 = some entry.2 := by
        intro entry hEntry
        rw [← hTop]
        exact AList.mem_lookup_iff.mpr hEntry
      have hMerged : (Overlays.commit ⟨m, top :: rest⟩ : StateOverlays κ) =
          writes.entries.foldl (fun o entry => o.write entry.1 entry.2) ⟨m, rest⟩ := by
        rw [foldl_write writes.nodupKeys]
        show merge _ top = merge _ fun i => writes.lookup i
        rw [show (fun i => writes.lookup i) = top from funext hTop]
      rw [hMerged]
      refine hInner.commitEntries (fun hUpper entry hMem hNone hAccessory => ?_) fun entry hMem v hValue => ?_
      · have hRest : rest = [] := hUpper
        refine hAdmits top (by rw [hRest]) entry.1.1 ?_
        rw [← hNone, ← hEntry entry hMem, ← hAccessory]
      · refine hWithin top mem_cons_self entry.1 v ?_
        rw [hEntry entry hMem, hValue]

theorem revert (hAdmits : Admits o .revert) : accessor.revert.Shows digest contents o.revert := by
  obtain ⟨m, upper⟩ := o
  cases accessor with
  | checkpoint c =>
    cases upper with
    | cons top rest => exact h.elim
    | nil => exact StateCheckpoint.Shows.discard h (hAdmits rfl)
  | writer inner writes =>
    cases upper with
    | nil => exact h.elim
    | cons top rest => exact h.2

theorem openLevel : accessor.openLevel.Shows digest contents o.openLevel :=
  ⟨fun _ => rfl, h⟩

end

/-- Every admitted operation does to an accessor what it does to the levels. -/
theorem perform (hFixed : ∀ n, (storage.provable n).Fixed storage.digest (contents n))
    (h : accessor.Shows storage.digest contents o) (hWithin : o.Within written) {operation}
    (hAdmits : Admits o operation) (hSet : ∀ i v, operation = .set i v → written v) :
    Yields (fun out => out.1.Shows storage.digest contents (o.perform (storage.base contents) operation).1 ∧
        out.2 = (o.perform (storage.base contents) operation).2)
      (Overflows contents written) (accessor.perform storage operation) := by
  cases operation with
  | get i =>
    refine ((h.getValue hFixed i).imp_error (Overflows.mono nofun)).bind ?_
    rintro ⟨value, next⟩ ⟨rfl, hShows⟩
    exact ⟨hShows, rfl⟩
  | set i value => exact (h.setValue i (hSet i value rfl)).bind fun next hShows => ⟨hShows, rfl⟩
  | delete i => exact (h.deleteValue i hAdmits).bind fun next hShows => ⟨hShows, rfl⟩
  | openLevel => exact ⟨h.openLevel, rfl⟩
  | commit => exact (h.commit hAdmits hWithin).bind fun next hShows => ⟨hShows, rfl⟩
  | revert => exact ⟨h.revert hAdmits, rfl⟩

end Shows

theorem Shows.of_checkpoint {c : StateCheckpoint κ W} {o : StateOverlays κ}
    (h : (checkpoint c).Shows digest contents o) : c.Shows digest contents o.bottom := by
  obtain ⟨m, upper⟩ := o
  cases upper with
  | nil => exact h
  | cons top rest => exact h.elim

theorem trace_shows (hFixed : ∀ n, (storage.provable n).Fixed storage.digest (contents n)) (witness : W)
    {operations : List (AccessorOperation κ)}
    (hAdmitted : Admitted (Overlays.perform (storage.base contents)) Admits .empty operations) :
    Yields (fun out => out.1.Shows storage.digest contents (run (storage.base contents) .empty operations) ∧
        out.2 = (answers (Overlays.perform (storage.base contents)) .empty operations).2)
      (Overflows contents fun v => ∃ i, .set i v ∈ operations)
      (trace (perform storage) (checkpoint (.new witness)) operations) := by
  refine (trace_refines_guarded (fun rest _ o => Admitted _ Admits o rest)
    (fun accessor o => accessor.Shows storage.digest contents o ∧ o.Within fun v => ∃ i, .set i v ∈ operations)
    (fun hGuard _ => hGuard.2) ?_ hAdmitted ⟨StateCheckpoint.Shows.new witness, ?_⟩).mono
    (fun _ h => ⟨h.1.1, h.2⟩) fun _ hp => hp
  · rintro accessor o operation hMem _ ⟨hAdmits, -⟩ ⟨hShows, hWithin⟩
    have hSet : ∀ i v, operation = .set i v → ∃ j, .set j v ∈ operations := fun i v hSame => ⟨i, hSame ▸ hMem⟩
    refine (hShows.perform hFixed hWithin hAdmits hSet).mono ?_ fun _ hp => hp
    rintro ⟨next, answer⟩ ⟨hNext, hAnswer⟩
    exact ⟨⟨hNext, hWithin.perform hSet _⟩, hAnswer⟩
  · nofun

end Accessor

/-- The changes that a checkpoint leaves are those given, deletions included. -/
def StateCheckpoint.Leaves (c : StateCheckpoint κ W) (changes : κ × Namespace → Option (Option SlotValue)) : Prop :=
  ∃ frozen, c.freeze = .ok frozen ∧ ∀ ns key value, (key, value) ∈ frozen.writes ns ↔ changes (key, ns) = some value

/-- Over every storage with fixed contents, every list of admitted operations is answered as by levels
of changes above these contents. A deleted value reads as absent, also below once it is committed,
until it is set or the deletion is reverted; after a revert everything reads as before the level was
opened; and what a checkpoint leaves for the storage are the changes, deletions included. Only a value
too long to be measured stops an accessor. -/
theorem accessors_are_overlays (hFixed : ∀ n, (storage.provable n).Fixed storage.digest (contents n)) (witness : W)
    (operations : List (AccessorOperation κ))
    (hAdmitted : Admitted (perform (storage.base contents)) Admits .empty operations) :
    Yields
      (fun out =>
        out.2 = (answers (perform (storage.base contents)) .empty operations).2 ∧
        (∀ before i after, operations = before ++ .delete i :: (after ++ [.get i]) →
          Keeps i (run (storage.base contents) .empty before).upper.length 0 after →
          out.2.getLast? = some (some none)) ∧
        (∀ before inside i, operations = before ++ .openLevel :: (inside ++ [.revert, .get i]) → Inside 0 inside →
          out.2.getLast? = (answers (perform (storage.base contents)) .empty (before ++ [.get i])).2.getLast?) ∧
        ∀ c, out.1 = .checkpoint c → c.Leaves (Overlays.run (storage.base contents) .empty operations).bottom.overlay)
      (Overflows contents fun v => ∃ i, .set i v ∈ operations)
      (trace (Accessor.perform storage) (.checkpoint (.new witness)) operations) := by
  refine (Accessor.trace_shows hFixed witness hAdmitted).mono ?_ fun p hp => hp
  rintro ⟨accessor, replies⟩ ⟨hShows, rfl⟩
  refine ⟨rfl, ?_, ?_, ?_⟩
  · rintro before i after rfl hKeeps
    rw [← cons_append, ← append_assoc, getLast_answers, run_append, run_deleted _ _ hKeeps]
  · rintro before inside i rfl hInside
    have hSplit : before ++ .openLevel :: (inside ++ [.revert, .get i]) =
        (before ++ .openLevel :: (inside ++ [.revert])) ++ [.get i] := by simp
    rw [hSplit, getLast_answers, getLast_answers, run_append, run_reverted _ _ hInside]
  · rintro c rfl
    exact hShows.of_checkpoint.freeze

def twoKeysStorage : StateStorage Nat (ArrayWitness plainCodec) where
  digest := fun _ => Vector.replicate 32 0
  provable := fun _ => proverStorage (fun _ => Vector.replicate 32 0) plainCodec twoKeys
  getAccessory := twoKeys

/-- A working set deletes an accessory value that the storage holds. The value reads as absent in the
working set and, once committed, in the scratchpad; in the checkpoint it is back, and no change is left
for the storage. -/
theorem deleted_accessory_value_returns :
    ∃ (c : StateCheckpoint Nat (ArrayWitness plainCodec)) (frozen : FrozenState Nat),
      trace (Accessor.perform twoKeysStorage) (.checkpoint (.new []))
          [.openLevel, .openLevel, .delete (1, .accessory), .get (1, .accessory), .commit, .get (1, .accessory),
            .commit, .get (1, .accessory)] =
        .ok (.checkpoint c, [none, none, none, some none, none, some none, none, some (some ⟨[7]⟩)]) ∧
      c.freeze = .ok frozen ∧ frozen.writes .accessory = [] :=
  ⟨_, _, rfl, rfl, rfl⟩

/-- A deleted user value stays absent below the level that deleted it. -/
theorem deleted_user_value_stays_absent :
    ∃ (c : StateCheckpoint Nat (ArrayWitness plainCodec)) (replies : List (Option (Option SlotValue))),
      trace (Accessor.perform twoKeysStorage) (.checkpoint (.new []))
          [.openLevel, .openLevel, .delete (1, .user), .commit, .set (2, .accessory) ⟨[9]⟩, .commit, .get (1, .user)] =
        .ok (.checkpoint c, replies) ∧
      replies.getLast? = some (some none) ∧
      ∃ frozen, c.freeze = .ok frozen ∧ (1, none) ∈ frozen.writes .user := by
  refine exists₂_and_of rfl fun hRun => ?_
  obtain ⟨-, -, -, hLeaves⟩ := Yields.of_ok (@accessors_are_overlays _ _ _ twoKeysStorage (fun _ => twoKeys)
    (fun _ => proverStorage_fixed plainCodec twoKeys) [] _ (by
      refine ⟨trivial, trivial, fun h => ?_, ?_, trivial, ?_, trivial, trivial⟩
      · cases h
      · rintro top ⟨⟩
      · rintro top ⟨⟩ key hDeleted
        simp [stacked, change] at hDeleted)) hRun
  obtain ⟨frozen, hFrozen, hWrites⟩ := hLeaves _ rfl
  refine ⟨?_, frozen, hFrozen, (hWrites _ _ _).mpr rfl⟩
  simp

end SovereignSdk
