import SovereignSdk.State.CacheReads
import SovereignSdk.State.PinnedCache

/-! Reads through the pinned cache. Where the log has no entry for a key the buckets must have what
the storage has; a discard removes entries from the log but leaves what was written to the buckets. -/
namespace SovereignSdk
open Outcome ProvableStorageCache Option PinnedCache Vector CacheLog BucketStorage NodeLeafAndMaybeValue

variable {κ W : Type} [LinearOrder κ] {L : SlotKeyLayout κ} {digest : List UInt8 → Digest}
  {storage : Storage κ W} {contents : κ → Option SlotValue} {m : LayeredMap κ SlotValue}

def PinnedCache.Agrees (pinned : PinnedCache L) (contents : κ → Option SlotValue) : Prop :=
  ∀ key bucket, pinned.bucketFor key = some bucket → bucket.get key = contents key

structure Coherent (contents : κ → Option SlotValue) (log : CacheLog κ) (bucketFor : κ → Option (BucketStorage κ)) :
    Prop where
  values : ∀ key bucket, bucketFor key = some bucket → log.log.lookup key = none →
    log.revertableLog.lookup key = some (.write (bucket.get key)) ∨
      (∀ value, log.revertableLog.lookup key ≠ some (.write value)) ∧ bucket.get key = contents key
  /-- Of a key in a bucket the size is not cached without the value. -/
  sizes : ∀ key bucket node, bucketFor key = some bucket →
    log.revertableLog.lookup key = some (.read (some node)) ∨ log.log.lookup key = some (.read (some node)) →
    ∃ v, node.value = .read v

namespace Coherent
variable {log : CacheLog κ} {bucketFor : κ → Option (BucketStorage κ)} {key : κ} {bucket : BucketStorage κ}

section
variable (h : Coherent contents log bucketFor)
include h

theorem of_get_none (hBucket : bucketFor key = some bucket)
    (hGet : log.get key = none) : bucket.get key = contents key := by
  obtain ⟨hRev, hLog⟩ := get_eq_none.mp hGet
  obtain hWrite | ⟨-, hSame⟩ := h.values key bucket hBucket hLog
  · rw [hRev] at hWrite
    cases hWrite
  · exact hSame

/-- A read may be put where the revertable log has no write. -/
theorem insertRead {node} (hBefore : ∀ value, log.revertableLog.lookup key ≠ some (.write value))
    (hValue : bucketFor key ≠ none → ∀ n, node = some n → ∃ v, n.value = .read v) :
    Coherent contents { log with revertableLog := log.revertableLog.insert key (.read node) } bucketFor := by
  refine ⟨fun k bucket hBucket hLog => ?_, fun k bucket other hBucket hOther => ?_⟩
  · rw [lookup_insert]
    split
    · rename_i hKey
      subst hKey
      obtain hWrite | ⟨-, hSame⟩ := h.values k bucket hBucket hLog
      · exact absurd hWrite (hBefore _)
      · refine .inr ⟨fun value hWrite => ?_, hSame⟩
        cases hWrite
    · exact h.values k bucket hBucket hLog
  · rw [lookup_insert] at hOther
    split at hOther
    · rename_i hKey
      subst hKey
      obtain hNew | hLog := hOther
      · cases hNew
        exact hValue (by rw [hBucket]; exact some_ne_none _) other rfl
      · exact h.sizes k bucket other hBucket (.inr hLog)
    · exact h.sizes k bucket other hBucket hOther

theorem assign {old} (hGet : log.get key = some (.read old)) {node v}
    (hValue : node.value = .read v) : Coherent contents (log.assign key (.read (some node))) bucketFor := by
  unfold CacheLog.assign
  split
  · rename_i hMem
    obtain ⟨access, hAccess⟩ := isSome_iff_exists.mp (AList.lookup_isSome.mpr hMem)
    rw [CacheLog.get, hAccess, some_or] at hGet
    cases hGet
    refine h.insertRead (fun value hWrite => ?_) fun _ n hn => ?_
    · rw [hAccess] at hWrite
      cases hWrite
    · cases hn
      exact ⟨v, hValue⟩
  · refine ⟨fun k bucket hBucket hLog => ?_, fun k bucket other hBucket hOther => ?_⟩
    · rw [lookup_insert] at hLog
      split at hLog
      · cases hLog
      · exact h.values k bucket hBucket hLog
    · rw [lookup_insert] at hOther
      split at hOther
      · obtain hRev | hNew := hOther
        · exact h.sizes k bucket other hBucket (.inl hRev)
        · cases hNew
          exact ⟨v, hValue⟩
      · exact h.sizes k bucket other hBucket hOther

theorem write {bucketFor' value} (hBuckets : ∀ k bucket', bucketFor' k = some bucket' →
      ∃ bucket, bucketFor k = some bucket ∧ bucket'.get k = if k = key then value else bucket.get k) :
    Coherent contents { log with revertableLog := log.revertableLog.insert key (.write value) } bucketFor' := by
  refine ⟨fun k bucket' hBucket' hLog => ?_, fun k bucket' node hBucket' hNode => ?_⟩
  · obtain ⟨bucket, hBucket, hSame⟩ := hBuckets k bucket' hBucket'
    rw [lookup_insert, hSame]
    split
    · exact .inl rfl
    · exact h.values k bucket hBucket hLog
  · obtain ⟨bucket, hBucket, -⟩ := hBuckets k bucket' hBucket'
    rw [lookup_insert] at hNode
    split at hNode
    · obtain hWrite | hLog := hNode
      · cases hWrite
      · exact h.sizes k bucket node hBucket (.inr hLog)
    · exact h.sizes k bucket node hBucket hNode

theorem commit {committed}
    (hLookup : ∀ key, committed.lookup key = log.get key) : Coherent contents ⟨∅, committed⟩ bucketFor := by
  refine ⟨fun k bucket hBucket hLog => ?_, fun k bucket node hBucket hNode => ?_⟩
  · rw [hLookup] at hLog
    refine .inr ⟨fun value hWrite => ?_, h.of_get_none hBucket hLog⟩
    cases hWrite
  · obtain hNever | hNode := hNode
    · cases hNever
    · rw [show committed.lookup k = _ from hLookup k, CacheLog.get, or_eq_some_iff] at hNode
      exact h.sizes k bucket node hBucket (hNode.imp_right And.right)

theorem discard
    (hDisc : ∀ key bucket value, bucketFor key = some bucket → log.revertableLog.lookup key = some (.write value) →
      log.log.lookup key = none → value = contents key) : Coherent contents log.discardRevertableLog bucketFor := by
  refine ⟨fun k bucket hBucket hLog => ?_, fun k bucket node hBucket hNode => ?_⟩
  · have hValue : bucket.get k = contents k := by
      obtain hWrite | ⟨-, hSame⟩ := h.values k bucket hBucket hLog
      · exact hDisc k bucket _ hBucket hWrite hLog
      · exact hSame
    refine .inr ⟨fun value hWrite => ?_, hValue⟩
    cases hWrite
  · obtain hNever | hNode := hNode
    · cases hNever
    · exact h.sizes k bucket node hBucket (.inr hNode)

end

theorem empty {pinned : PinnedCache L} (hAgrees : pinned.Agrees contents) :
    Coherent contents .empty pinned.bucketFor := by
  refine ⟨fun key bucket hBucket _ => ?_, fun key bucket node _ hNode => ?_⟩
  · refine .inr ⟨fun value hWrite => ?_, hAgrees key bucket hBucket⟩
    cases hWrite
  · obtain hNever | hNever := hNode <;> cases hNever

end Coherent

/-- The buckets after a value is written for a key: none is new, and each has the value. -/
def Follows (key : κ) (value : Option SlotValue) (before after : κ → Option (BucketStorage κ)) : Prop :=
  ∀ k bucket', after k = some bucket' →
    ∃ bucket, before k = some bucket ∧ bucket'.get k = if k = key then value else bucket.get k

theorem Follows.unchanged {key : κ} {value bucketFor}
    (hNone : bucketFor key = none) : Follows key value bucketFor bucketFor := by
  intro k bucket hBucket
  refine ⟨bucket, hBucket, ?_⟩
  rw [if_neg]
  rintro rfl
  rw [hNone] at hBucket
  cases hBucket

theorem PinnedCache.assignBucket_follows {pinned : PinnedCache L} {key : κ} {value : Option SlotValue}
    {old : BucketStorage κ} {new : Option (BucketStorage κ)} (hOld : pinned.bucketFor key = some old)
    (hNew : ∀ bucket ∈ new, ∀ k, bucket.get k = if k = key then value else old.get k) :
    Follows key value pinned.bucketFor (pinned.assignBucket key new).bucketFor := by
  intro k bucket' hBucket'
  obtain hSame | ⟨hBefore, hAfter⟩ := @bucketFor_assignBucket _ _ _ pinned key k old new hOld
  · by_cases hKey : k = key
    · subst hKey
      rw [bucketFor_assignBucket_self hOld] at hBucket'
      exact ⟨old, hOld, hNew bucket' hBucket' k⟩
    · rw [hSame] at hBucket'
      exact ⟨bucket', hBucket', (if_neg hKey).symm⟩
  · rw [hAfter] at hBucket'
    exact ⟨old, hBefore, hNew bucket' hBucket' k⟩

namespace PinnedStorageCache
variable {c : PinnedStorageCache L} {key : κ}

theorem pinnedSet_follows (c : PinnedStorageCache L) (key : κ) (value : SlotValue) :
    Yields (fun pinnedCache => ∀ inner, Follows key (some value) c.bucketFor (bucketFor ⟨inner, pinnedCache⟩))
      (fun p => p = .sizeOverflow ∧ ¬value.Fits) (c.pinnedSet key value) := by
  unfold pinnedSet
  obtain ⟨inner, pinnedCache⟩ := c
  cases pinnedCache with
  | none => exact fun _ => .unchanged rfl
  | some pinned =>
    dsimp only
    cases hBucket : pinned.bucketFor key with
    | none => exact fun _ => .unchanged hBucket
    | some old =>
      dsimp only
      cases hInsert : old.tryInsert key value with
      | error p => exact tryInsert_error hInsert
      | ok new =>
        cases new with
        | none =>
          refine fun _ => assignBucket_follows hBucket ?_
          rintro bucket ⟨⟩
        | some bucket =>
          refine fun _ => assignBucket_follows hBucket ?_
          rintro _ ⟨⟩
          exact tryInsert_ok hInsert

theorem pinnedDelete_follows (c : PinnedStorageCache L) (key : κ) (inner : ProvableStorageCache κ) :
    Follows key none c.bucketFor (bucketFor ⟨inner, c.pinnedDelete key⟩) := by
  unfold pinnedDelete
  obtain ⟨_, pinnedCache⟩ := c
  cases pinnedCache with
  | none => exact .unchanged rfl
  | some pinned =>
    rw [map_some]
    cases hBucket : pinned.bucketFor key with
    | none => exact .unchanged hBucket
    | some old =>
      refine assignBucket_follows hBucket ?_
      rintro _ ⟨⟩
      exact old.get_delete key

/-- The cache is a map in layers, beside which the buckets are right. -/
def Shows (digest : List UInt8 → Digest) (contents : κ → Option SlotValue) (c : PinnedStorageCache L)
    (m : LayeredMap κ SlotValue) : Prop :=
  c.inner.cache.Layers digest contents m ∧ Coherent contents c.inner.cache c.bucketFor

section
variable (hFixed : storage.Fixed digest contents)
include hFixed

theorem fetchFrom_get (h : c.Shows digest contents m) (witness : W) (hFetch : c.inner.Fetches key) :
    ∃ witness', (c.fetchFrom storage).get key witness = .ok (contents key, witness') := by
  unfold fetchFrom checkPinnedCache
  dsimp only
  cases hBucket : c.bucketFor key with
  | none => exact hFixed.get key witness
  | some bucket =>
    obtain hNone | ⟨node, hNode, hStage⟩ := hFetch
    · rw [map_some, h.2.of_get_none hBucket hNone]
      exact ⟨witness, rfl⟩
    · rw [CacheLog.get, or_eq_some_iff] at hNode
      obtain ⟨v, hValue⟩ := h.2.sizes key bucket node hBucket (hNode.imp_right And.right)
      rw [hStage] at hValue
      cases hValue

theorem getOrFetch_shows (h : c.Shows digest contents m) (witness : W) :
    Yields (fun out => out.1 = m.read contents key ∧ out.2.1.Shows digest contents m)
      (Oversized (contents key)) (c.getOrFetch digest storage witness key) := by
  have hFetch : c.inner.Fetches key → _ := fetchFrom_get hFixed h witness
  have hInner := getOrFetch_layers_of_fetch hFetch h.1
  have hCoherent : ∀ out, c.inner.getOrFetch digest (c.fetchFrom storage) witness key = .ok out →
      Coherent contents out.2.1.cache c.bucketFor := by
    rintro ⟨value, inner, witness'⟩ hGet
    cases getOrFetch_ok hGet with
    | fetched hNone _ hNode hAdd =>
      have hRev := (get_eq_none.mp hNone).1
      rw [addRead_eq hRev, Except.ok.injEq] at hAdd
      subst hAdd
      refine h.2.insertRead (by simp [hRev]) fun _ n hn => ?_
      subst hn
      obtain ⟨-, hNever⟩ | ⟨v, _, -, hNew, hSome⟩ := optionMapM_eq_ok.mp hNode
      · cases hNever
      · cases hSome
        simp only [newRead, bind_eq_ok, pure_eq_ok] at hNew
        obtain ⟨leaf, -, rfl⟩ := hNew
        exact ⟨v, rfl⟩
    | notFetched hRead | alreadyFetched hRead => exact h.2.assign hRead rfl
    | read | absent | written => exact h.2
  exact (hInner.and_of_ok hCoherent).bind fun out hOut => ⟨hOut.1.1, hOut.1.2, hOut.2⟩

theorem getSizeOrFetch_shows (h : c.Shows digest contents m) (witness : W) :
    Yields (fun out => out.1 = (m.read contents key).map (fun v => UInt32.ofNat v.value.length) ∧
        out.2.1.Shows digest contents m)
      (Oversized (contents key)) (c.getSizeOrFetch storage witness key) := by
  have hInner := @getSizeOrFetch_layers _ _ _ _ _ _ _ _ key hFixed h.1 witness
  unfold getSizeOrFetch checkPinnedCache
  split
  · rename_i value hNone hPinned
    obtain ⟨bucket, hBucket, rfl⟩ := map_eq_some_iff.mp hPinned
    have hRead : m.read contents key = contents key := by
      have hEntry := h.1.get key
      rw [hNone] at hEntry
      rw [LayeredMap.read, hEntry.of_none]
      rfl
    have hContents := h.2.of_get_none hBucket hNone
    rw [hRead, ← hContents]
    cases hValue : bucket.get key with
    | none => exact ⟨rfl, h⟩
    | some v =>
      have hFits : v.Fits := bucket.fits key v hValue
      simp only [mapM_some, hFits.size]
      exact ⟨rfl, h⟩
  · rename_i hMissed
    have hCoherent : ∀ out, c.inner.getSizeOrFetch storage witness key = .ok out →
        Coherent contents out.2.1.cache c.bucketFor := by
      rintro ⟨size, inner, witness'⟩ hGet
      cases getSizeOrFetch_ok hGet with
      | fetched hNone _ hAdd =>
        have hRev := (get_eq_none.mp hNone).1
        rw [addRead_eq hRev, Except.ok.injEq] at hAdd
        subst hAdd
        refine h.2.insertRead (by simp [hRev]) fun hBucket => ?_
        obtain ⟨bucket, hBucket⟩ := ne_none_iff_exists'.mp hBucket
        exact absurd (by rw [hBucket, map_some]) (hMissed (bucket.get key) hNone)
      | read | written => exact h.2
    exact (hInner.and_of_ok hCoherent).bind fun out hOut => ⟨hOut.1.1, hOut.1.2, hOut.2⟩

end

theorem addWrite_shows (h : c.Shows digest contents m) {value : Option SlotValue} {pinnedCache : Option (PinnedCache L)}
    (hFollows : ∀ inner, Follows key value c.bucketFor (bucketFor ⟨inner, pinnedCache⟩)) :
    Yields (fun inner => Shows digest contents ⟨inner, pinnedCache⟩ (m.write key value))
      (Oversized value) (c.inner.addWrite key value) := by
  have hInner := @addWrite_layers _ _ _ _ _ _ key h.1 value
  refine .intro (fun inner hWrite => ⟨hInner.of_ok hWrite, ?_⟩) fun p hWrite => hInner.of_error hWrite
  obtain ⟨-, rfl⟩ := addWrite_ok hWrite
  exact h.2.write (hFollows _)

/-- A value written to the revertable log is discarded without harm if no bucket has it, if the log
has an entry that hides the bucket, or if it is what the storage has. -/
def Admits (contents : κ → Option SlotValue) (state : PinnedStorageCache L × W) : CacheOperation κ → Prop
  | .discard =>
    ∀ key bucket value, state.1.bucketFor key = some bucket →
      state.1.inner.cache.revertableLog.lookup key = some (.write value) →
      state.1.inner.cache.log.lookup key = none → value = contents key
  | _ => True

variable {operations : List (CacheOperation κ)}

theorem perform_shows (hFixed : storage.Fixed digest contents) (state : PinnedStorageCache L × W)
    (m : LayeredMap κ SlotValue) (operation : CacheOperation κ) (hMem : operation ∈ operations)
    (hAdmits : Admits contents state operation) (h : state.1.Shows digest contents m) :
    Yields (fun out => out.1.1.Shows digest contents (operation.onLayers contents m).1 ∧
        out.2 = (operation.onLayers contents m).2)
      (fun p => p = .sizeOverflow ∧ TooLong contents operations)
      (perform digest storage state operation) := by
  cases operation with
  | get key =>
    refine .bind ((getOrFetch_shows hFixed h state.2).imp_error fun _ h => h.tooLong fun v hv => .inl ⟨key, hv⟩) ?_
    rintro ⟨value, next⟩ ⟨rfl, hNext⟩
    exact ⟨hNext, rfl⟩
  | getSize key =>
    refine .bind ((getSizeOrFetch_shows hFixed h state.2).imp_error fun _ h => h.tooLong fun v hv => .inl ⟨key, hv⟩) ?_
    rintro ⟨size, next⟩ ⟨rfl, hNext⟩
    exact ⟨hNext, rfl⟩
  | set key value =>
    have hSet : Yields (fun c' => c'.Shows digest contents (m.write key (some value)))
        (fun p => p = .sizeOverflow ∧ TooLong contents operations) (state.1.set key value) := by
      refine .bind ((state.1.pinnedSet_follows key value).imp_error ?_) fun pinnedCache hFollows => ?_
      · exact fun p hp => ⟨hp.1, value, hp.2, .inr ⟨key, hMem⟩⟩
      · refine .bind ((addWrite_shows h hFollows).imp_error fun _ h => h.tooLong ?_) fun inner hNext => hNext
        rintro v ⟨⟩
        exact .inr ⟨key, hMem⟩
    exact hSet.bind fun _ hNext => ⟨hNext, rfl⟩
  | delete key =>
    have hDelete : Yields (fun c' => c'.Shows digest contents (m.write key none))
        (fun p => p = .sizeOverflow ∧ TooLong contents operations) (state.1.delete key) := by
      have hWrite := addWrite_shows h (state.1.pinnedDelete_follows key)
      exact .bind (hWrite.imp_error fun _ h => h.tooLong nofun) fun inner hNext => hNext
    exact hDelete.bind fun _ hNext => ⟨hNext, rfl⟩
  | commit =>
    obtain ⟨committed, hCommit, hLookup, hLayers⟩ := h.1.commit
    simp only [perform, commitRevertableStorageCache, ProvableStorageCache.commitRevertableStorageCache, hCommit]
    exact ⟨⟨hLayers, h.2.commit hLookup⟩, rfl⟩
  | discard => exact ⟨⟨h.1.discard, h.2.discard hAdmits⟩, rfl⟩

theorem trace_shows (hFixed : storage.Fixed digest contents) {pinned : PinnedCache L}
    (hAgrees : pinned.Agrees contents) {witness : W}
    (hAdmits : TraceAlong (perform digest storage) (Admits contents) (⟨.empty, some pinned⟩, witness) operations) :
    Yields (fun out =>
        out.1.1.Shows digest contents (answers (CacheOperation.onLayers contents) .empty operations).1 ∧
          out.2 = (answers (CacheOperation.onLayers contents) .empty operations).2)
      (fun p => p = .sizeOverflow ∧ TooLong contents operations)
      (trace (perform digest storage) (⟨.empty, some pinned⟩, witness) operations) := by
  refine trace_refines_guarded (fun rest state _ => TraceAlong _ (Admits contents) state rest)
    (fun (state : PinnedStorageCache L × W) m => state.1.Shows digest contents m)
    (fun hGuard hRun => hGuard.2 _ _ hRun) ?_ hAdmits ?_
  · exact fun state m operation hMem _ hHere h => perform_shows hFixed state m operation hMem hHere.1 h
  · exact ⟨Layers.empty, Coherent.empty hAgrees⟩

end PinnedStorageCache

/-- With a pinned cache that has what the storage has, every list of operations gets the answers it
gets without one, as long as no discard leaves a written value in a bucket. -/
theorem pinned_cache_is_transparent (hFixed : storage.Fixed digest contents) {pinned : PinnedCache L}
    (hAgrees : pinned.Agrees contents) (operations : List (CacheOperation κ)) (witness : W)
    (hAdmits : TraceAlong (PinnedStorageCache.perform digest storage) (PinnedStorageCache.Admits contents)
      (⟨.empty, some pinned⟩, witness) operations) :
    Yields
      (fun out => ∀ plain, trace (perform digest storage) (.empty, witness) operations = .ok plain → out.2 = plain.2)
      (fun p => p = .sizeOverflow ∧ TooLong contents operations)
      (trace (PinnedStorageCache.perform digest storage) (⟨.empty, some pinned⟩, witness) operations) := by
  refine (PinnedStorageCache.trace_shows hFixed hAgrees hAdmits).mono (fun out hOut plain hPlain => ?_) fun _ hp => hp
  exact hOut.2.trans ((trace_layers hFixed operations witness).of_ok hPlain).2.symm

def oneItem : SlotKeyLayout Nat := ⟨Unit, inferInstance, fun _ => (), fun _ _ => some 0⟩

def oneKey : Nat → Option SlotValue
  | 1 => some ⟨[7]⟩
  | _ => none

def loadedBucket : Option (BucketStorage Nat) :=
  match (empty 16).tryInsert 1 ⟨[7]⟩ with
  | .ok bucket => bucket
  | .error _ => none

def loadedCache : PinnedCache oneItem := ⟨AList.singleton () ⟨0, AList.singleton 0 loadedBucket⟩⟩

theorem loadedCache_agrees : loadedCache.Agrees oneKey := by
  intro key bucket hBucket
  have hGet : bucket.get key = if key = 1 then some ⟨[7]⟩ else none := by
    cases hBucket
    exact lookup_insert _ _ _ _
  unfold oneKey
  split <;> simp_all

/-- A value that was set and discarded is still read from its bucket. -/
theorem discarded_write_stays_pinned :
    loadedCache.Agrees oneKey ∧ ∃ (pinned : PinnedStorageCache oneItem × ArrayWitness plainCodec)
        (plain : ProvableStorageCache Nat × ArrayWitness plainCodec),
        trace (PinnedStorageCache.perform (fun _ => replicate 32 0)
            (proverStorage (fun _ => replicate 32 0) plainCodec oneKey))
          (⟨.empty, some loadedCache⟩, []) [.set 1 ⟨[9]⟩, .discard, .get 1] =
            .ok (pinned, [.done, .done, .value (some ⟨[9]⟩)]) ∧
        trace (perform (fun _ => replicate 32 0) (proverStorage (fun _ => replicate 32 0) plainCodec oneKey))
          (.empty, []) [.set 1 ⟨[9]⟩, .discard, .get 1] = .ok (plain, [.done, .done, .value (some ⟨[7]⟩)]) :=
  ⟨loadedCache_agrees, _, _, rfl, rfl⟩

/-- Key 1 is written and committed before a write to it is discarded; later its bucket is dropped. -/
def hiddenWrites : List (CacheOperation Nat) :=
  [.set 1 ⟨[9]⟩, .commit, .set 1 ⟨[5]⟩, .discard, .get 1, .set 2 ⟨List.replicate 20 0⟩, .getSize 2]

theorem hiddenWrites_admitted :
    TraceAlong (PinnedStorageCache.perform (fun _ => replicate 32 0)
        (proverStorage (fun _ => replicate 32 0) plainCodec oneKey))
      (PinnedStorageCache.Admits oneKey) ((⟨.empty, some loadedCache⟩ : PinnedStorageCache oneItem), [])
      hiddenWrites := by
  iterate 3
    refine ⟨trivial, ?_⟩
    rintro _ _ ⟨⟩
  constructor
  · -- The log has an entry for the only key in the revertable log.
    intro key bucket value _ hWrite hLog
    rw [lookup_insert] at hWrite hLog
    split at hLog
    · cases hLog
    · rw [if_neg ‹_›] at hWrite
      cases hWrite
  rintro _ _ ⟨⟩
  iterate 3
    refine ⟨trivial, ?_⟩
    rintro _ _ ⟨⟩
  trivial

/-- The answers are the same with the pinned cache and without it. -/
theorem committed_write_hides_bucket :
    ∃ (pinned : PinnedStorageCache oneItem × ArrayWitness plainCodec)
      (plain : ProvableStorageCache Nat × ArrayWitness plainCodec) (replies : List CacheAnswer),
      trace (PinnedStorageCache.perform (fun _ => replicate 32 0)
          (proverStorage (fun _ => replicate 32 0) plainCodec oneKey))
        (⟨.empty, some loadedCache⟩, []) hiddenWrites = .ok (pinned, replies) ∧
      trace (perform (fun _ => replicate 32 0) (proverStorage (fun _ => replicate 32 0) plainCodec oneKey))
        (.empty, []) hiddenWrites = .ok (plain, replies) ∧
      replies = [.done, .done, .done, .done, .value (some ⟨[9]⟩), .done, .size (some 20)] :=
  ⟨_, _, _, rfl, rfl, (pinned_cache_is_transparent (proverStorage_fixed plainCodec oneKey) loadedCache_agrees
    hiddenWrites [] hiddenWrites_admitted).of_ok rfl _ rfl⟩

end SovereignSdk
