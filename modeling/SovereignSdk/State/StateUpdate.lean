import SovereignSdk.State.Replay

/-! The caches of both namespaces, whose storages share one witness: a run of the prover,
and its replay inside the zkVM. -/
namespace SovereignSdk
open Outcome NodeLeaf Delta CacheOperation Function Vector

variable {κ : Type} [LinearOrder κ] {digest : List UInt8 → Digest} {codec : HintCodec}
  {contents : ProvableNamespace → κ → Option SlotValue}

def operationsOn (n : ProvableNamespace) (operations : List (ProvableNamespace × CacheOperation κ)) :
    List (CacheOperation κ) :=
  operations.filterMap fun operation => if operation.1 = n then some operation.2 else none

omit [LinearOrder κ] in
theorem mem_operationsOn {operations : List (ProvableNamespace × CacheOperation κ)}
    {operation : ProvableNamespace × CacheOperation κ} (hMem : operation ∈ operations) :
    operation.2 ∈ operationsOn operation.1 operations :=
  List.mem_filterMap.mpr ⟨operation, hMem, if_pos rfl⟩

/-- What an operation does where each namespace is a map in layers. -/
def CacheOperation.onNamespaces (contents : ProvableNamespace → κ → Option SlotValue)
    (maps : ProvableNamespace → LayeredMap κ SlotValue) (operation : ProvableNamespace × CacheOperation κ) :
    (ProvableNamespace → LayeredMap κ SlotValue) × CacheAnswer :=
  let next := operation.2.onLayers (contents operation.1) (maps operation.1)
  (update maps operation.1 next.1, next.2)

namespace Delta

theorem perform_eq_ok {W : Type} {storage : ProvableNamespace → Storage κ W} {delta : Delta κ} {witness : W}
    {operation : ProvableNamespace × CacheOperation κ} {next : Delta κ × W} {answer : CacheAnswer} :
    perform digest storage (delta, witness) operation = .ok (next, answer) ↔
      ∃ cache, ProvableStorageCache.perform digest (storage operation.1) (delta.cache operation.1, witness)
          operation.2 = .ok ((cache, next.2), answer) ∧
        next.1 = delta.setCache cache operation.1 := by
  obtain ⟨delta', witness'⟩ := next
  simp only [perform, bind_eq_ok, pure_eq_ok, Prod.mk.injEq]
  constructor
  · rintro ⟨⟨⟨cache, _⟩, _⟩, hStep, ⟨rfl, rfl⟩, rfl⟩
    exact ⟨cache, hStep, rfl⟩
  · rintro ⟨cache, hStep, rfl⟩
    exact ⟨_, hStep, ⟨rfl, rfl⟩, rfl⟩

def Layers (digest : List UInt8 → Digest) (contents : ProvableNamespace → κ → Option SlotValue)
    (delta : Delta κ) (maps : ProvableNamespace → LayeredMap κ SlotValue) : Prop :=
  ∀ n, (delta.cache n).cache.Layers digest (contents n) (maps n)

theorem trace_layers (operations : List (ProvableNamespace × CacheOperation κ)) :
    Yields (fun out => out.1.1.Layers digest contents
          (answers (onNamespaces contents) (fun _ => .empty) operations).1 ∧
        out.2 = (answers (onNamespaces contents) (fun _ => .empty) operations).2)
      (fun p => p = .sizeOverflow ∧ ∃ n, TooLong (contents n) (operationsOn n operations))
      (trace (perform digest fun n => proverStorage digest codec (contents n)) (.empty, []) operations) := by
  refine trace_refines (fun (state : Delta κ × ArrayWitness codec) maps => state.1.Layers digest contents maps) ?_ ?_
  · intro state maps operation hMem h
    have hCache := ProvableStorageCache.perform_layers (proverStorage_fixed codec (contents operation.1))
      (state.1.cache operation.1, state.2) (maps operation.1) operation.2 (mem_operationsOn hMem) (h operation.1)
    refine (hCache.imp_error fun p hp => ⟨hp.1, operation.1, hp.2⟩).bind ?_
    rintro ⟨⟨cache, witness⟩, answer⟩ ⟨hLayers, hAnswer⟩
    refine ⟨fun n => ?_, hAnswer⟩
    by_cases hNs : n = operation.1
    · subst hNs
      simp only [onNamespaces, cache_setCache, update_self]
      exact hLayers
    · simp only [onNamespaces, cache_setCache, if_neg hNs, update_of_ne hNs]
      exact h n
  · intro n
    cases n <;> exact CacheLog.Layers.empty

def Replays (digest : List UInt8 → Digest) (delta replayed : Delta κ) : Prop :=
  ∀ n, (delta.cache n).Replays digest (replayed.cache n)

namespace Replays
variable {delta delta' replayed : Delta κ}

theorem empty : (empty : Delta κ).Replays digest .empty := by
  intro n
  cases n <;> exact ProvableStorageCache.Replays.empty

theorem perform (h : delta.Replays digest replayed) {operation : ProvableNamespace × CacheOperation κ}
    {hints hints' : ArrayWitness codec} {answer : CacheAnswer}
    (hStep : perform digest (fun n => proverStorage digest codec (contents n)) (delta, hints) operation =
      .ok ((delta', hints'), answer)) :
    ∃ new, hints' = hints ++ new ∧ ∃ replayed', delta'.Replays digest replayed' ∧
      ∀ rest, perform digest (fun _ => zkStorage codec) (replayed, new ++ rest) operation =
        .ok ((replayed', rest), answer) := by
  obtain ⟨cache, hCache, rfl⟩ := perform_eq_ok.mp hStep
  obtain ⟨new, hNew, cache', hNext, hReplay⟩ := (h operation.1).perform hCache
  refine ⟨new, hNew, replayed.setCache cache' operation.1, fun n => ?_, fun rest => ?_⟩
  · rw [cache_setCache, cache_setCache]
    split
    · exact hNext
    · exact h n
  · exact perform_eq_ok.mpr ⟨cache', hReplay rest, rfl⟩

theorem freeze (h : delta.Replays digest replayed) :
    ∃ accesses, delta.freeze = .ok accesses ∧ replayed.freeze = .ok accesses := by
  obtain ⟨user, hUser, hUser'⟩ := (h .user).toOrderedWritesAndReads
  obtain ⟨kernel, hKernel, hKernel'⟩ := (h .kernel).toOrderedWritesAndReads
  refine ⟨⟨user, kernel⟩, ?_, ?_⟩
  · rw [Delta.freeze, show delta.userCache.toOrderedWritesAndReads = _ from hUser, show delta.kernelCache.toOrderedWritesAndReads = _ from hKernel]
    rfl
  · rw [Delta.freeze, show replayed.userCache.toOrderedWritesAndReads = _ from hUser', show replayed.kernelCache.toOrderedWritesAndReads = _ from hKernel']
    rfl

end Replays
end Delta

/-- Every list of operations that the prover performs on its storage, the zkVM answers
alike: it consumes the recorded hints and no others, and lists the same reads and writes.
Only a value too long to be measured stops the prover. -/
theorem zkvm_replays_prover (digest : List UInt8 → Digest) (codec : HintCodec)
    (contents : ProvableNamespace → κ → Option SlotValue) (operations : List (ProvableNamespace × CacheOperation κ)) :
    Yields
      (fun out => ∃ replayed accesses, (∀ stateUpdateHints, trace (perform digest fun _ => zkStorage codec)
          (.empty, out.1.2 ++ stateUpdateHints) operations = .ok ((replayed, stateUpdateHints), out.2)) ∧
        out.1.1.freeze = .ok accesses ∧ replayed.freeze = .ok accesses)
      (fun p => p = .sizeOverflow ∧ ∃ n, TooLong (contents n) (operationsOn n operations))
      (trace (perform digest fun n => proverStorage digest codec (contents n)) (.empty, []) operations) := by
  refine .intro (fun out hRun => ?_) fun p hRun => (trace_layers operations).of_error hRun
  obtain ⟨new, hNew, replayed, hReplays, hReplay⟩ :=
    trace_replays (Replays digest) (fun h hStep => Replays.perform h hStep) Replays.empty hRun
  obtain ⟨accesses, hAccesses, hAccesses'⟩ := hReplays.freeze
  subst hNew
  exact ⟨replayed, accesses, hReplay, hAccesses, hAccesses'⟩

/-- A size that is read before the value leaves a hint for each. -/
example : (trace (perform (fun _ => replicate 32 0) fun _ => zkStorage plainCodec)
    (.empty, [.inr (some ⟨⟨1, replicate 32 0⟩, .getSizeValueNotFetched⟩), .inl (some ⟨[7]⟩), .inl none])
    [(.user, .getSize (1 : Nat)), (.user, .get 1)]).map (fun out => (out.1.2, out.2)) =
      .ok ([.inl none], [.size (some 1), .value (some ⟨[7]⟩)]) := rfl


/-! `compute_state_update` of the storage inside the zkVM: every value read is checked
against the root before, and the writes against the root after. -/
variable {κ : Type} {digest : List UInt8 → Digest} {codec : HintCodec}

def toLeBytes (n : UInt32) : List UInt8 :=
  [n.toUInt8, (n >>> 8).toUInt8, (n >>> 16).toUInt8, (n >>> 24).toUInt8]

def valHashAndSizeInner (valHash : Digest) (size : UInt32) : List UInt8 := valHash.toList ++ toLeBytes size

def NodeLeaf.combineValHashAndSize (leaf : NodeLeaf) : List UInt8 := valHashAndSizeInner leaf.valHash leaf.size

def SlotValue.combineValHashAndSize (digest : List UInt8 → Digest) (v : SlotValue) :
    Except StatePanic (List UInt8) := do
  let size ← v.size
  return valHashAndSizeInner (digest v.value) size

theorem toNat_byte (n : UInt32) (shift : UInt32) :
    (n >>> shift).toUInt8.toNat = n.toNat >>> (shift.toNat % 32) % 256 := by
  rw [UInt32.toNat_toUInt8, UInt32.toNat_shiftRight]

theorem toLeBytes_injective : Injective toLeBytes := by
  intro m n h
  simp only [toLeBytes, List.cons.injEq, and_true] at h
  obtain ⟨h0, h1, h2, h3⟩ := h
  have hByte0 : m.toNat % 256 = n.toNat % 256 := by
    have := congrArg UInt8.toNat h0
    rwa [UInt32.toNat_toUInt8] at this
  have hByte : ∀ {shift : UInt32}, (m >>> shift).toUInt8 = (n >>> shift).toUInt8 →
      m.toNat >>> (shift.toNat % 32) % 256 = n.toNat >>> (shift.toNat % 32) % 256 := by
    intro shift hEq
    rw [← toNat_byte, ← toNat_byte, hEq]
  have hByte1 : m.toNat >>> 8 % 256 = n.toNat >>> 8 % 256 := hByte h1
  have hByte2 : m.toNat >>> 16 % 256 = n.toNat >>> 16 % 256 := hByte h2
  have hByte3 : m.toNat >>> 24 % 256 = n.toNat >>> 24 % 256 := hByte h3
  have hm := m.toNat_lt
  have hn := n.toNat_lt
  apply UInt32.toNat.inj
  omega

theorem NodeLeaf.combineValHashAndSize_injective : Injective combineValHashAndSize := by
  rintro ⟨size, valHash⟩ ⟨size', valHash'⟩ h
  obtain ⟨hHash, hSize⟩ := List.append_inj h (by rw [length_toList, length_toList])
  cases toList_inj.mp hHash
  cases toLeBytes_injective hSize
  rfl

theorem SlotValue.combineValHashAndSize_eq (v : SlotValue) :
    v.combineValHashAndSize digest = (NodeLeaf.makeLeaf digest v).map NodeLeaf.combineValHashAndSize := by
  unfold combineValHashAndSize makeLeaf
  cases v.size <;> rfl

/-- How `compute_state_update` fails: with a panic, or with the error of a proof that does
not verify. -/
inductive StateUpdateError where
  | panic (p : StatePanic)
  | invalidProof
deriving DecidableEq, Repr

/-- The proofs of the `jmt` crate, read from hints, and their verification. -/
structure Jmt (codec : HintCodec) where
  SparseMerkleProof : Type
  UpdateMerkleProof : Type
  toProof : codec.Hint → Option SparseMerkleProof
  toUpdateProof : codec.Hint → Option UpdateMerkleProof
  toRoot : codec.Hint → Option Digest
  verifyExistence : SparseMerkleProof → (root keyHash : Digest) → (value : List UInt8) → Bool
  verifyNonexistence : SparseMerkleProof → (root keyHash : Digest) → Bool
  verifyUpdate : UpdateMerkleProof → (root newRoot : Digest) → List (Digest × Option (List UInt8)) → Bool

/-- `StorageRoot`: the roots of both namespaces. -/
structure NamespaceRoots where
  user : Digest
  kernel : Digest
deriving DecidableEq, Repr

def NamespaceRoots.namespaceRoot (roots : NamespaceRoots) : ProvableNamespace → Digest
  | .user => roots.user
  | .kernel => roots.kernel

def StateAccesses.on (accesses : StateAccesses κ) : ProvableNamespace → OrderedReadsAndWrites κ
  | .user => accesses.user
  | .kernel => accesses.kernel

namespace Jmt

def getHint {α : Type} (decode : codec.Hint → Option α) (witness : ArrayWitness codec) :
    Except StateUpdateError (α × ArrayWitness codec) :=
  (witness.getHint decode).mapError .panic

variable (jmt : Jmt codec)

def verifyRead (keyHash : κ → Digest) (prevStateRoot : Digest)
    (witness : ArrayWitness codec) (read : κ × Option NodeLeaf) : Except StateUpdateError (ArrayWitness codec) := do
  let (proof, witness) ← getHint jmt.toProof witness
  match read.2 with
  | some leaf =>
    ensure .invalidProof
      (jmt.verifyExistence proof prevStateRoot (keyHash read.1) leaf.combineValHashAndSize = true)
  | none => ensure .invalidProof (jmt.verifyNonexistence proof prevStateRoot (keyHash read.1) = true)
  return witness

def jmtVerifyExistence (keyHash : κ → Digest) (prevStateRoot : Digest)
    (accesses : OrderedReadsAndWrites κ) (witness : ArrayWitness codec) :
    Except StateUpdateError (ArrayWitness codec) :=
  accesses.orderedReads.foldlM (jmt.verifyRead keyHash prevStateRoot) witness

def jmtVerifyUpdate (digest : List UInt8 → Digest) (keyHash : κ → Digest)
    (prevStateRoot : Digest) (accesses : OrderedReadsAndWrites κ) (witness : ArrayWitness codec) :
    Except StateUpdateError (Digest × ArrayWitness codec) := do
  let batch ← (accesses.orderedWrites.mapM fun (write : κ × Option SlotValue) => do
    let value ← write.2.mapM (SlotValue.combineValHashAndSize digest)
    return (keyHash write.1, value)).mapError .panic
  let (updateProof, witness) ← getHint jmt.toUpdateProof witness
  let (newRoot, witness) ← getHint jmt.toRoot witness
  ensure (.panic .invalidUpdate) (jmt.verifyUpdate updateProof prevStateRoot newRoot batch = true)
  return (newRoot, witness)

def computeStateUpdateNamespace (digest : List UInt8 → Digest) (keyHash : κ → Digest)
    (accesses : OrderedReadsAndWrites κ) (witness : ArrayWitness codec) (prevStateRoot : Digest) :
    Except StateUpdateError (Digest × ArrayWitness codec) := do
  let witness ← jmt.jmtVerifyExistence keyHash prevStateRoot accesses witness
  jmt.jmtVerifyUpdate digest keyHash prevStateRoot accesses witness

def computeStateUpdate (digest : List UInt8 → Digest) (keyHash : κ → Digest)
    (accesses : StateAccesses κ) (witness : ArrayWitness codec) (prevStateRoot : NamespaceRoots) :
    Except StateUpdateError (NamespaceRoots × ArrayWitness codec) := do
  let (userRoot, witness) ←
    jmt.computeStateUpdateNamespace digest keyHash accesses.user witness (prevStateRoot.namespaceRoot .user)
  let (kernelRoot, witness) ←
    jmt.computeStateUpdateNamespace digest keyHash accesses.kernel witness (prevStateRoot.namespaceRoot .kernel)
  return (⟨userRoot, kernelRoot⟩, witness)

/-- A proof verifies only for what the root commits to at the key. -/
structure Sound (jmt : Jmt codec) (tree : (root keyHash : Digest) → Option (List UInt8)) : Prop where
  existence : ∀ {proof root keyHash value}, jmt.verifyExistence proof root keyHash value = true →
    tree root keyHash = some value
  nonexistence : ∀ {proof root keyHash}, jmt.verifyNonexistence proof root keyHash = true → tree root keyHash = none

variable {jmt : Jmt codec} {tree : Digest → Digest → Option (List UInt8)} {keyHash : κ → Digest} {root : Digest}
  {witness witness' : ArrayWitness codec}

theorem verifyRead_ok (hSound : jmt.Sound tree) {read} (h : jmt.verifyRead keyHash root witness read = .ok witness') :
    tree root (keyHash read.1) = read.2.map combineValHashAndSize := by
  simp only [verifyRead, bind_eq_ok] at h
  obtain ⟨⟨proof, rest⟩, -, h⟩ := h
  obtain ⟨key, leaf⟩ := read
  cases leaf with
  | none =>
    obtain ⟨_, hVer, -⟩ := bind_eq_ok.mp h
    exact hSound.nonexistence (ensure_eq_ok.mp hVer)
  | some leaf =>
    obtain ⟨_, hVer, -⟩ := bind_eq_ok.mp h
    exact hSound.existence (ensure_eq_ok.mp hVer)

theorem jmtVerifyExistence_ok (hSound : jmt.Sound tree) {accesses}
    (h : jmt.jmtVerifyExistence keyHash root accesses witness = .ok witness') :
    ∀ read ∈ accesses.orderedReads, tree root (keyHash read.1) = read.2.map combineValHashAndSize := by
  unfold jmtVerifyExistence at h
  generalize accesses.orderedReads = reads at h
  induction reads generalizing witness with
  | nil => exact fun _ hMem => (nomatch hMem)
  | cons first rest ih =>
    rw [List.foldlM_cons, bind_eq_ok] at h
    obtain ⟨next, hFirst, hRest⟩ := h
    rintro read (_ | ⟨_, hMem⟩)
    · exact verifyRead_ok hSound hFirst
    · exact ih hRest read hMem

theorem computeStateUpdate_ok (hSound : jmt.Sound tree) {accesses prevStateRoot newRoot}
    (h : jmt.computeStateUpdate digest keyHash accesses witness prevStateRoot = .ok (newRoot, witness'))
    (n : ProvableNamespace) :
    ∀ read ∈ (accesses.on n).orderedReads,
      tree (prevStateRoot.namespaceRoot n) (keyHash read.1) = read.2.map combineValHashAndSize := by
  simp only [computeStateUpdate, computeStateUpdateNamespace, bind_eq_ok] at h
  obtain ⟨⟨userRoot, _⟩, ⟨_, hUser, -⟩, ⟨kernelRoot, _⟩, ⟨_, hKernel, -⟩, -⟩ := h
  cases n with
  | user => exact jmtVerifyExistence_ok hSound hUser
  | kernel => exact jmtVerifyExistence_ok hSound hKernel

end Jmt
end SovereignSdk
