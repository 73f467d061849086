import SovereignSdk.State.StateUpdate

/-! Reads inside the zkVM, where the hints may be anything: whatever a read returns is
listed, so that the state update checks it against the root. -/
namespace SovereignSdk
open Outcome List NodeLeaf CacheLog List.Subset ProvableStorageCache Delta Set

variable {κ : Type} [LinearOrder κ] {digest : List UInt8 → Digest} {codec : HintCodec}
  {values : Set SlotValue} {written : Set κ}

def ArrayWitness.ValuesIn (values : Set SlotValue) (witness : ArrayWitness codec) : Prop :=
  ∀ hint ∈ witness, ∀ v, codec.toValue hint = some (some v) → v ∈ values

namespace CacheLog

theorem get_insert (c : CacheLog κ) (key : κ) (access : Access) (k : κ) :
    get { c with revertableLog := c.revertableLog.insert key access } k =
      if k = key then some access else c.get k := by
  unfold get
  rw [lookup_insert]
  split <;> rfl

theorem get_assign (c : CacheLog κ) (key : κ) (access : Access) (k : κ) :
    (c.assign key access).get k = if k = key then some access else c.get k := by
  unfold assign
  split
  · exact get_insert c key access k
  · rename_i hNot
    unfold get
    rw [lookup_insert]
    split
    · rename_i hKey
      rw [hKey, AList.lookup_eq_none.mpr hNot]
      rfl
    · rfl

end CacheLog

/-- What is cached for a key: a write to one of the keys in `written`, or a read that is listed with
its leaf. A value that is known is one of `values` and has this leaf. -/
def Access.Recorded (digest : List UInt8 → Digest) (values : Set SlotValue) (written : Set κ)
    (reads : List (κ × Option NodeLeaf)) (key : κ) : Access → Prop
  | .write _ => key ∈ written
  | .read node => (key, node.map (·.leaf)) ∈ reads ∧
      ∀ n ∈ node, n.value = .getSizeValueNotFetched ∨ ∃ v ∈ values, n.value = .read v ∧ makeLeaf digest v = .ok n.leaf

omit [LinearOrder κ] in
theorem Access.Recorded.mono {reads reads'} {key : κ} {access : Access}
    (h : access.Recorded digest values written reads key) (hReads : reads ⊆ reads') :
    access.Recorded digest values written reads' key := by
  cases access with
  | write value => exact h
  | read node => exact ⟨hReads h.1, h.2⟩

namespace ProvableStorageCache
variable {c c' : ProvableStorageCache κ} {key : κ} {hints hints' : ArrayWitness codec}

structure Recorded (digest : List UInt8 → Digest) (values : Set SlotValue) (written : Set κ)
    (c : ProvableStorageCache κ) : Prop where
  once : c.cache.Once
  entry : ∀ key access, c.cache.get key = some access → access.Recorded digest values written c.allReads key

namespace Recorded

theorem empty : (empty : ProvableStorageCache κ).Recorded digest values written :=
  ⟨fun _ _ h => (nomatch h), fun _ _ h => (nomatch h)⟩

section
variable (h : c.Recorded digest values written)
include h

theorem update {access : Access} (hOnce : c'.cache.Once)
    (hGet : ∀ k, c'.cache.get k = if k = key then some access else c.cache.get k)
    (hReads : c.allReads ⊆ c'.allReads) (hAccess : access.Recorded digest values written c'.allReads key) :
    c'.Recorded digest values written := by
  refine ⟨hOnce, fun k other hOther => ?_⟩
  rw [hGet] at hOther
  split at hOther
  · rename_i hKey
    cases hOther
    exact hKey ▸ hAccess
  · exact (h.entry k other hOther).mono hReads

theorem addRead (hNone : c.cache.get key = none) {node} (hNode : ∀ n ∈ node, n.value = .getSizeValueNotFetched ∨
      ∃ v ∈ values, n.value = .read v ∧ makeLeaf digest v = .ok n.leaf)
    (hAdd : c.addRead key node = .ok c') :
    c'.Recorded digest values written ∧ c'.allReads = c.allReads ++ [(key, node.map (·.leaf))] := by
  obtain ⟨hRev, hLog⟩ := get_eq_none.mp hNone
  rw [addRead_eq hRev, Except.ok.injEq] at hAdd
  subst hAdd
  have hReads : ∀ cache, allReads { c with
      cache, revertableOrderedReads := c.revertableOrderedReads ++ [(key, node)] } =
        c.allReads ++ [(key, node.map (·.leaf))] := by
    simp [allReads]
  refine ⟨h.update (h.once.insertRead hLog node) (get_insert c.cache key _) ?_ ⟨?_, hNode⟩, hReads _⟩
  · rw [hReads]
    exact subset_append_left _ _
  · rw [hReads]
    exact mem_append_right _ mem_cons_self

theorem cacheRead {node v}
    (hGet : c.cache.get key = some (.read (some node))) (hValue : v ∈ values)
    (hLeaf : makeLeaf digest v = .ok node.leaf) : (c.cacheRead key node v).Recorded digest values written := by
  refine h.update (h.once.assign hGet _) (get_assign c.cache key _) (refl _) ⟨(h.entry key _ hGet).1, fun n hn => ?_⟩
  cases hn
  exact .inr ⟨v, hValue, rfl, hLeaf⟩

theorem addWrite (hKey : key ∈ written) {value}
    (hAdd : c.addWrite key value = .ok c') : c'.Recorded digest values written ∧ c'.allReads = c.allReads := by
  obtain ⟨-, rfl⟩ := addWrite_ok hAdd
  exact ⟨h.update (h.once.insertWrite key value) (get_insert c.cache key _) (refl _) hKey, rfl⟩

theorem commit (hCommit : c.commitRevertableStorageCache = .ok c') :
    c'.Recorded digest values written ∧ c'.allReads = c.allReads := by
  obtain ⟨log, hLog, hLookup⟩ := commitRevertableLog_ok h.once
  rw [commitRevertableStorageCache, hLog] at hCommit
  cases hCommit
  have hReads : ∀ cache, allReads ⟨cache, [], c.allReads⟩ = c.allReads := fun _ => append_nil _
  refine ⟨⟨fun _ _ hRead => (by cases hRead), fun key access hGet => ?_⟩, hReads _⟩
  have hEntry : c.cache.get key = some access := by
    rw [← hLookup]
    exact hGet
  exact (h.entry key access hEntry).mono (hReads _ ▸ refl _)

theorem widen : c.Recorded digest values univ := by
  refine ⟨h.once, fun key access hGet => ?_⟩
  have hAccess := h.entry key access hGet
  cases access with
  | write value => exact mem_univ key
  | read node => exact hAccess

end

end Recorded

omit [LinearOrder κ] in
theorem zkStorage_get_ok {value} (hHints : hints.ValuesIn values)
    (h : (zkStorage codec).get key hints = .ok (value, hints')) : hints'.ValuesIn values ∧ ∀ v ∈ value, v ∈ values := by
  cases hints with
  | nil => cases h
  | cons hint rest =>
    simp only [zkStorage, ArrayWitness.getHint, bind_eq_ok, unwrap_eq_ok, pure_eq_ok, Prod.mk.injEq] at h
    obtain ⟨_, hDecode, rfl, rfl⟩ := h
    refine ⟨fun other hMem => hHints other (mem_cons_of_mem hint hMem), fun v hv => ?_⟩
    cases hv
    exact hHints hint mem_cons_self v hDecode

omit [LinearOrder κ] in
theorem zkStorage_getLeaf_ok {node} (hHints : hints.ValuesIn values)
    (h : (zkStorage codec).getLeaf key hints = .ok (node, hints')) :
    hints'.ValuesIn values ∧ ∀ n ∈ node, n.value = .getSizeValueNotFetched := by
  cases hints with
  | nil => cases h
  | cons hint rest =>
    simp only [zkStorage, ArrayWitness.getHint, bind_eq_ok, unwrap_eq_ok, ensure_eq_ok, pure_eq_ok, Prod.mk.injEq] at h
    obtain ⟨_, ⟨_, -, rfl⟩, _, hStage, rfl, rfl⟩ := h
    exact ⟨fun other hMem => hHints other (mem_cons_of_mem hint hMem), hStage⟩

theorem Recorded.getOrFetch (h : c.Recorded digest values written) (hHints : hints.ValuesIn values)
    {value} (hGet : c.getOrFetch digest (zkStorage codec) hints key = .ok (value, c', hints')) :
    c'.Recorded digest values written ∧ hints'.ValuesIn values ∧ c.allReads ⊆ c'.allReads ∧
      (key ∉ written → ∃ leaf, (key, leaf) ∈ c'.allReads ∧
        value.mapM (makeLeaf digest) = .ok leaf ∧ ∀ v ∈ value, v ∈ values) := by
  have hKnown : ∀ {v leaf}, makeLeaf digest v = .ok leaf →
      (some v).mapM (makeLeaf digest) = .ok (some leaf) :=
    fun hLeaf => optionMapM_eq_ok.mpr (.inr ⟨_, _, rfl, hLeaf, rfl⟩)
  cases getOrFetch_ok hGet with
  | fetched hNone hFetch hNode hAdd =>
    obtain ⟨hRest, hValues⟩ := zkStorage_get_ok hHints hFetch
    obtain ⟨rfl, rfl⟩ | ⟨v, leaf, rfl, hLeaf, rfl⟩ := newRead_ok hNode
    · obtain ⟨hNext, hReads⟩ := h.addRead hNone (by simp) hAdd
      rw [hReads]
      exact ⟨hNext, hRest, subset_append_left _ _, fun _ =>
        ⟨none, mem_append_right _ mem_cons_self, rfl, hValues⟩⟩
    · obtain ⟨hNext, hReads⟩ := h.addRead hNone (fun n hn => by
        cases hn
        exact .inr ⟨v, hValues v rfl, rfl, hLeaf⟩) hAdd
      rw [hReads]
      exact ⟨hNext, hRest, subset_append_left _ _, fun _ =>
        ⟨some leaf, mem_append_right _ mem_cons_self, hKnown hLeaf, hValues⟩⟩
  | notFetched hRead _ hFetch hLeaf =>
    obtain ⟨hRest, hValues⟩ := zkStorage_get_ok hHints hFetch
    exact ⟨h.cacheRead hRead (hValues _ rfl) hLeaf, hRest, refl _, fun _ =>
      ⟨_, (h.entry key _ hRead).1, hKnown hLeaf, hValues⟩⟩
  | alreadyFetched hRead hStage =>
    obtain hOther | ⟨_, -, hOther, -⟩ := (h.entry key _ hRead).2 _ rfl <;> rw [hStage] at hOther <;> cases hOther
  | read hRead hStage =>
    obtain hOther | ⟨v, hValue, hSame, hLeaf⟩ := (h.entry key _ hRead).2 _ rfl
    · rw [hStage] at hOther
      cases hOther
    · rw [hStage] at hSame
      cases hSame
      refine ⟨h, hHints, refl _, fun _ => ⟨_, (h.entry key _ hRead).1, hKnown hLeaf, fun w hw => ?_⟩⟩
      cases hw
      exact hValue
  | absent hRead =>
    exact ⟨h, hHints, refl _, fun _ => ⟨none, (h.entry key _ hRead).1, rfl, fun _ hv => (nomatch hv)⟩⟩
  | written hWrite => exact ⟨h, hHints, refl _, fun hKey => absurd (h.entry key _ hWrite) hKey⟩

theorem Recorded.getSizeOrFetch (h : c.Recorded digest values written) (hHints : hints.ValuesIn values)
    {size} (hGet : c.getSizeOrFetch (zkStorage codec) hints key = .ok (size, c', hints')) :
    c'.Recorded digest values written ∧ hints'.ValuesIn values ∧ c.allReads ⊆ c'.allReads ∧
      (key ∉ written → ∃ leaf, (key, leaf) ∈ c'.allReads ∧ size = leaf.map (·.size)) := by
  have hSize : ∀ node : Option NodeLeafAndMaybeValue,
      node.map (·.leaf.size) = (node.map (·.leaf)).map (·.size) := by
    intro node
    cases node <;> rfl
  cases getSizeOrFetch_ok hGet with
  | fetched hNone hFetch hAdd =>
    obtain ⟨hRest, hStage⟩ := zkStorage_getLeaf_ok hHints hFetch
    obtain ⟨hNext, hReads⟩ := h.addRead hNone (fun n hn => .inl (hStage n hn)) hAdd
    rw [hReads]
    exact ⟨hNext, hRest, subset_append_left _ _, fun _ =>
      ⟨_, mem_append_right _ mem_cons_self, hSize _⟩⟩
  | read hRead =>
    exact ⟨h, hHints, refl _, fun _ => ⟨_, (h.entry key _ hRead).1, hSize _⟩⟩
  | written hWrite => exact ⟨h, hHints, refl _, fun hKey => absurd (h.entry key _ hWrite) hKey⟩

end ProvableStorageCache

/-- The answer of a read, in terms of the leaf that is listed for its key. -/
def CacheOperation.AnswersFrom (digest : List UInt8 → Digest) (values : Set SlotValue) (leaf : Option NodeLeaf) :
    CacheOperation κ → CacheAnswer → Prop
  | .get _, .value value => value.mapM (makeLeaf digest) = .ok leaf ∧ ∀ v ∈ value, v ∈ values
  | .getSize _, .size size => size = leaf.map (·.size)
  | _, _ => False

/-- No operation but a discard loses what is recorded, and the answer of a read is recorded. -/
theorem ProvableStorageCache.Recorded.perform {c c' hints hints'}
    (h : c.Recorded digest values written) (hHints : hints.ValuesIn values) {operation answer}
    (hDisc : operation ≠ .discard)
    (hWritten : ∀ key, operation.writtenKey = some key → key ∈ written)
    (hStep : perform digest (zkStorage codec) (c, hints) operation = .ok ((c', hints'), answer)) :
    c'.Recorded digest values written ∧ hints'.ValuesIn values ∧ c.allReads ⊆ c'.allReads ∧
      ∀ key, operation.readKey = some key → key ∉ written →
        ∃ leaf, (key, leaf) ∈ c'.allReads ∧ operation.AnswersFrom digest values leaf answer := by
  cases perform_ok hStep with
  | get hGet =>
    obtain ⟨hNext, hRest, hReads, hLeaf⟩ := h.getOrFetch hHints hGet
    refine ⟨hNext, hRest, hReads, fun k hKey => ?_⟩
    cases hKey
    exact hLeaf
  | getSize hGet =>
    obtain ⟨hNext, hRest, hReads, hLeaf⟩ := h.getSizeOrFetch hHints hGet
    refine ⟨hNext, hRest, hReads, fun k hKey => ?_⟩
    cases hKey
    exact hLeaf
  | set hAdd | delete hAdd =>
    obtain ⟨hNext, hReads⟩ := h.addWrite (hWritten _ rfl) hAdd
    exact ⟨hNext, hHints, hReads ▸ refl _, fun _ hKey => (by cases hKey)⟩
  | commit hCommit =>
    obtain ⟨hNext, hReads⟩ := h.commit hCommit
    exact ⟨hNext, hHints, hReads ▸ refl _, fun _ hKey => (by cases hKey)⟩
  | discard => exact absurd rfl hDisc

namespace Delta

def Recorded (digest : List UInt8 → Digest) (values : Set SlotValue) (written : ProvableNamespace → Set κ)
    (state : Delta κ × ArrayWitness codec) : Prop :=
  (∀ n, (state.1.cache n).Recorded digest values (written n)) ∧ state.2.ValuesIn values

namespace Recorded
variable {written : ProvableNamespace → Set κ} {state next : Delta κ × ArrayWitness codec}
  {operation : ProvableNamespace × CacheOperation κ} {answer : CacheAnswer}

theorem empty {witness : ArrayWitness codec} (hValues : witness.ValuesIn values) :
    Recorded digest values written ((empty : Delta κ), witness) := by
  refine ⟨fun n => ?_, hValues⟩
  cases n <;> exact .empty

theorem widen (h : Recorded digest values written state) : Recorded digest values (fun _ => univ) state :=
  ⟨fun n => (h.1 n).widen, h.2⟩

theorem perform (h : Recorded digest values written state) (hDisc : operation.2 ≠ .discard)
    (hWritten : ∀ key, operation.2.writtenKey = some key → key ∈ written operation.1)
    (hStep : perform digest (fun _ => zkStorage codec) state operation = .ok (next, answer)) :
    Recorded digest values written next ∧ (∀ n, (state.1.cache n).allReads ⊆ (next.1.cache n).allReads) ∧
      ∀ key, operation.2.readKey = some key → key ∉ written operation.1 →
        ∃ leaf, (key, leaf) ∈ (next.1.cache operation.1).allReads ∧
          operation.2.AnswersFrom digest values leaf answer := by
  obtain ⟨cache, hCache, hNext⟩ := perform_eq_ok.mp hStep
  obtain ⟨hRec, hHints, hReads, hAnswer⟩ := (h.1 operation.1).perform h.2 hDisc hWritten hCache
  refine ⟨⟨fun n => ?_, hHints⟩, fun n => ?_, ?_⟩
  · rw [hNext, cache_setCache]
    split
    · exact ‹n = operation.1› ▸ hRec
    · exact h.1 n
  · rw [hNext, cache_setCache]
    split
    · exact ‹n = operation.1› ▸ hReads
    · exact refl _
  · rw [hNext, cache_setCache, if_pos rfl]
    exact hAnswer

end Recorded

theorem freeze_reads {delta : Delta κ} {accesses : StateAccesses κ} (h : delta.freeze = .ok accesses)
    (n : ProvableNamespace) : (accesses.on n).orderedReads = (delta.cache n).allReads := by
  have hOrd : ∀ {c : ProvableStorageCache κ} {ordered}, c.toOrderedWritesAndReads = .ok ordered →
      ordered.orderedReads = c.allReads := by
    intro c ordered hc
    simp only [toOrderedWritesAndReads, commitRevertableStorageCache, bind_eq_ok, pure_eq_ok] at hc
    obtain ⟨_, ⟨_, -, rfl⟩, _, -, rfl⟩ := hc
    rfl
  simp only [freeze, bind_eq_ok, pure_eq_ok] at h
  obtain ⟨user, hUser, kernel, hKernel, rfl⟩ := h
  cases n with
  | user => exact hOrd hUser
  | kernel => exact hOrd hKernel

end Delta

/-- The value, or the absence of one, that a root commits to at a key. -/
def IsCommitted (digest : List UInt8 → Digest) (keyHash : κ → Digest)
    (tree : (root keyHash : Digest) → Option (List UInt8)) (root : Digest) (key : κ) (value : Option SlotValue) :
    Prop :=
  value.mapM (SlotValue.combineValHashAndSize digest) = .ok (tree root (keyHash key))

theorem mapM_combine_eq_ok {value : Option SlotValue} {bytes : Option (List UInt8)} :
    value.mapM (SlotValue.combineValHashAndSize digest) = .ok bytes ↔ ∃ leaf, value.mapM (makeLeaf digest) = .ok leaf ∧
        bytes = leaf.map combineValHashAndSize := by
  cases value with
  | none => simp [pure, Except.pure, eq_comm]
  | some v =>
    simp only [Option.mapM_some, SlotValue.combineValHashAndSize_eq]
    cases makeLeaf digest v <;> simp [Except.map, eq_comm]

theorem makeLeaf_injOn (hInj : InjOn (fun v : SlotValue => (digest v.value, v.value.length)) values)
    {v w} (hv : v ∈ values) (hw : w ∈ values) {leaf}
    (hLeaf : makeLeaf digest v = .ok leaf) (hLeaf' : makeLeaf digest w = .ok leaf) : v = w := by
  obtain ⟨hFits, rfl⟩ := makeLeaf_ok hLeaf
  obtain ⟨hFits', hSame⟩ := makeLeaf_ok hLeaf'
  obtain ⟨hSize, hHash⟩ := mk.inj hSame
  have hLen : v.value.length = w.value.length := by
    have hNat := congrArg UInt32.toNat hSize
    rwa [UInt32.toNat_ofNat_of_lt' hFits, UInt32.toNat_ofNat_of_lt' hFits'] at hNat
  exact hInj hv hw (Prod.ext hHash hLen)

theorem CacheOperation.AnswersFrom.committed {operation : CacheOperation κ} {answer : CacheAnswer} {key : κ}
    {leaf : Option NodeLeaf} {keyHash : κ → Digest} {tree : (root keyHash : Digest) → Option (List UInt8)}
    {root : Digest} (h : operation.AnswersFrom digest values leaf answer)
    (hInj : InjOn (fun v : SlotValue => (digest v.value, v.value.length)) values)
    (hRead : operation.readKey = some key) (hTree : tree root (keyHash key) = leaf.map combineValHashAndSize) :
    (∀ value, answer = .value value → IsCommitted digest keyHash tree root key value) ∧
      ∀ contents : κ → Option SlotValue, (∀ v ∈ contents key, v ∈ values) →
        IsCommitted digest keyHash tree root key (contents key) →
          answer = (operation.onLayers contents .empty).2 := by
  have hLeafOf : ∀ {stored}, IsCommitted digest keyHash tree root key stored →
      stored.mapM (makeLeaf digest) = .ok leaf := by
    intro stored hStored
    obtain ⟨leaf', hLeaf, hBytes⟩ := mapM_combine_eq_ok.mp hStored
    have hSame := Option.map_injective combineValHashAndSize_injective (hTree.symm.trans hBytes)
    rw [hLeaf, hSame]
  cases operation with
  | get k =>
    cases hRead
    cases answer with
    | value value =>
      refine ⟨fun other hOther => ?_, fun contents hKnown hStored => congrArg CacheAnswer.value ?_⟩
      · cases hOther
        exact mapM_combine_eq_ok.mpr ⟨leaf, h.1, hTree⟩
      · show value = contents key
        have hOther := hLeafOf hStored
        obtain ⟨rfl, hNone⟩ | ⟨v, node, rfl, hNode, hSome⟩ := optionMapM_eq_ok.mp h.1
        · obtain ⟨hStored, -⟩ | ⟨_, _, -, -, hSome⟩ := optionMapM_eq_ok.mp hOther
          · exact hStored.symm
          · cases hNone.symm.trans hSome
        · obtain ⟨-, hNone⟩ | ⟨w, node', hStored, hNode', hSome'⟩ := optionMapM_eq_ok.mp hOther
          · cases hNone.symm.trans hSome
          · cases hSome.symm.trans hSome'
            rw [hStored, makeLeaf_injOn hInj (h.2 v rfl) (hKnown w hStored) hNode hNode']
    | size | done => exact h.elim
  | getSize k =>
    cases hRead
    cases answer with
    | value | done => exact h.elim
    | size size =>
      refine ⟨fun _ hOther => (nomatch hOther), fun contents _ hStored => congrArg CacheAnswer.size ?_⟩
      show size = (contents key).map fun v => UInt32.ofNat v.value.length
      rw [show size = leaf.map (·.size) from h]
      obtain ⟨hNone, rfl⟩ | ⟨v, node, hSome, hNode, rfl⟩ := optionMapM_eq_ok.mp (hLeafOf hStored)
      · rw [hNone]
        rfl
      · rw [hSome]
        exact congrArg (fun leaf : NodeLeaf => some leaf.size) (makeLeaf_ok hNode).2
  | set | delete | commit | discard => cases hRead

/-- Whatever the hints are: if the operations and the state update return, then what is
returned for a key that was not written before is what the root before commits to. -/
theorem zkvm_reads_are_committed {jmt : Jmt codec} {tree : (root keyHash : Digest) → Option (List UInt8)}
    (hSound : jmt.Sound tree) (hInjective : InjOn (fun v : SlotValue => (digest v.value, v.value.length)) values)
    {keyHash : κ → Digest} {witness rest rest' : ArrayWitness codec} (hValues : witness.ValuesIn values)
    {before after : List (ProvableNamespace × CacheOperation κ)} {n : ProvableNamespace}
    {operation : CacheOperation κ} (hDiscard : ∀ o ∈ before ++ (n, operation) :: after, o.2 ≠ .discard)
    {delta : Delta κ} {replies : List CacheAnswer} {accesses : StateAccesses κ}
    (hRun : trace (Delta.perform digest fun _ => zkStorage codec) (.empty, witness)
      (before ++ (n, operation) :: after) = .ok ((delta, rest), replies))
    (hFreeze : delta.freeze = .ok accesses) {prevStateRoot newRoot : NamespaceRoots}
    (hUpdate : jmt.computeStateUpdate digest keyHash accesses rest prevStateRoot = .ok (newRoot, rest'))
    {key : κ} (hRead : operation.readKey = some key) (hFresh : ∀ o ∈ operationsOn n before, o.writtenKey ≠ some key) :
    ∃ answer, replies[before.length]? = some answer ∧
      (∀ value, answer = .value value → IsCommitted digest keyHash tree (prevStateRoot.namespaceRoot n) key value) ∧
      ∀ contents : κ → Option SlotValue, (∀ v ∈ contents key, v ∈ values) →
        IsCommitted digest keyHash tree (prevStateRoot.namespaceRoot n) key (contents key) →
          answer = (operation.onLayers contents .empty).2 := by
  obtain ⟨mid, replies₁, _, hBefore, hRest, rfl⟩ := trace_append_eq_ok.mp hRun
  obtain ⟨next, answer, replies₂, hStep, hAfter, rfl⟩ := trace_cons_eq_ok.mp hRest
  have hIndex : (replies₁ ++ answer :: replies₂)[before.length]? = some answer := by
    rw [← trace_length hBefore]
    simp
  let written : ProvableNamespace → Set κ := fun n' => {k | ∃ o ∈ operationsOn n' before, o.writtenKey = some k}
  have hMid : Recorded digest values written mid := by
    refine trace_keeps (Recorded digest values written) (fun o hMem {_ _ _} h hStep => ?_) (.empty hValues) hBefore
    exact (h.perform (hDiscard o (mem_append_left _ hMem)) (fun k hk => ⟨o.2, mem_operationsOn hMem, hk⟩) hStep).1
  have hOnlyRead : operation.writtenKey = none := by
    cases operation <;> first | rfl | cases hRead
  obtain ⟨hNext, -, hAnswer⟩ := hMid.perform (hDiscard (n, operation) (by simp))
    (fun k hk => absurd (hOnlyRead.symm.trans hk) (by simp)) hStep
  obtain ⟨leaf, hListed, hFrom⟩ := hAnswer key hRead fun ⟨o, ho, hk⟩ => hFresh o ho hk
  -- From here on any key may be written: nothing that is listed gets lost.
  have hLast : Recorded digest values (fun _ => univ) (delta, rest) ∧
      (key, leaf) ∈ (delta.cache n).allReads := by
    refine trace_keeps (fun state => Delta.Recorded digest values (fun _ => univ) state ∧
      (key, leaf) ∈ (state.1.cache n).allReads) (fun o hMem {_ _ _} h hStep => ?_) ⟨hNext.widen, hListed⟩ hAfter
    obtain ⟨hKept, hReads, -⟩ := h.1.perform
      (hDiscard o (mem_append_right _ (mem_cons_of_mem _ hMem))) (fun k _ => mem_univ k) hStep
    exact ⟨hKept, hReads n h.2⟩
  have hTree := Jmt.computeStateUpdate_ok hSound hUpdate n (key, leaf)
    (freeze_reads hFreeze n ▸ hLast.2)
  exact ⟨answer, hIndex, hFrom.committed hInjective hRead hTree⟩

variable (tree : (root keyHash : Digest) → Option (List UInt8))

def tableJmt : Jmt plainCodec where
  SparseMerkleProof := Unit
  UpdateMerkleProof := Unit
  toProof := fun _ => some ()
  toUpdateProof := fun _ => some ()
  toRoot := fun _ => some (Vector.replicate 32 1)
  verifyExistence := fun _ root keyHash value => tree root keyHash == some value
  verifyNonexistence := fun _ root keyHash => tree root keyHash == none
  verifyUpdate := fun _ _ _ _ => true

theorem tableJmt_sound : (tableJmt tree).Sound tree :=
  ⟨fun h => eq_of_beq h, fun h => eq_of_beq h⟩

def sevenTree (_ keyHash : Digest) : Option (List UInt8) :=
  if keyHash = Vector.replicate 32 1 then some (valHashAndSizeInner (Vector.replicate 32 0) 1) else none

/-- The leaf of that value, the value, and hints for the state update. -/
def sevenHints : ArrayWitness plainCodec :=
  .inr (some ⟨⟨1, Vector.replicate 32 0⟩, .getSizeValueNotFetched⟩) :: .inl (some ⟨[7]⟩) :: List.replicate 5 (.inl none)

theorem sevenHints_values : sevenHints.ValuesIn {⟨[7]⟩} := by
  rintro hint (_ | ⟨_, _ | ⟨_, hMem⟩⟩) v hv
  · cases hv
  · cases hv
    rfl
  · rw [(mem_replicate.mp hMem).2] at hv
    cases hv

/-- The size of a value and then the value are read from the hints; key 1 of the other
namespace is written before, and key 1 itself afterwards. -/
theorem size_then_value_is_committed :
    ∃ (delta : Delta Nat) (rest rest' : ArrayWitness plainCodec) (replies : List CacheAnswer)
      (accesses : StateAccesses Nat) (newRoot : NamespaceRoots),
      trace (Delta.perform (fun _ => Vector.replicate 32 0) fun _ => zkStorage plainCodec) (.empty, sevenHints)
          ([(.user, .getSize 1), (.kernel, .set 1 ⟨[9]⟩)] ++
            (.user, .get 1) :: [(.user, .set 1 ⟨[9]⟩), (.user, .commit)]) = .ok ((delta, rest), replies) ∧
        delta.freeze = .ok accesses ∧
        (tableJmt sevenTree).computeStateUpdate (fun _ => Vector.replicate 32 0)
          (fun key => Vector.replicate 32 (UInt8.ofNat key)) accesses rest
          ⟨Vector.replicate 32 0, Vector.replicate 32 0⟩ = .ok (newRoot, rest') ∧
        replies[2]? = some (.value (some ⟨[7]⟩)) := by
  refine ⟨_, _, _, _, _, _, and_of rfl fun hRun => and_of rfl fun hFreeze => and_of rfl fun hUpdate => ?_⟩
  obtain ⟨answer, hIndex, -, hAnswer⟩ := zkvm_reads_are_committed (tableJmt_sound sevenTree)
    (injOn_singleton (fun v : SlotValue => (Vector.replicate 32 (0 : UInt8), v.value.length)) ⟨[7]⟩)
    sevenHints_values (by decide) hRun hFreeze hUpdate rfl (by decide)
  refine hIndex.trans ?_
  rw [hAnswer (fun _ => some ⟨[7]⟩) (fun v hv => (Option.some.inj hv).symm) rfl]
  rfl

end SovereignSdk
