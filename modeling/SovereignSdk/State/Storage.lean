import SovereignSdk.State.Cache

/-! The storage of the prover, which records hints, and the storage inside the zkVM, which
has nothing but hints. -/
namespace SovereignSdk
open Outcome

variable {κ : Type}

/-- The serialization of hints: what is written can be read back. Reading bytes that were
not written as a value of the type may fail or give any value. -/
structure HintCodec where
  Hint : Type
  ofValue : Option SlotValue → Hint
  ofLeaf : Option NodeLeafAndMaybeValue → Hint
  toValue : Hint → Option (Option SlotValue)
  toLeaf : Hint → Option (Option NodeLeafAndMaybeValue)
  toValue_ofValue : ∀ v, toValue (ofValue v) = some v
  toLeaf_ofLeaf : ∀ leaf, toLeaf (ofLeaf leaf) = some leaf

abbrev ArrayWitness (codec : HintCodec) := List codec.Hint

namespace ArrayWitness
variable {codec : HintCodec}

def addHint (witness : ArrayWitness codec) (hint : codec.Hint) : ArrayWitness codec := witness ++ [hint]

def getHint {α : Type} (decode : codec.Hint → Option α) :
    ArrayWitness codec → Except StatePanic (α × ArrayWitness codec)
  | [] => .error .emptyWitness
  | hint :: rest => do
      let a ← unwrap .hintDeserialization (decode hint)
      return (a, rest)

theorem getHint_cons {α : Type} {decode hint} {a : α}
    (h : decode hint = some a) (rest : ArrayWitness codec) : getHint decode (hint :: rest) = .ok (a, rest) := by
  rw [getHint, h]
  rfl

end ArrayWitness

/-- `ProverStorage` at one namespace; `contents` is what the database holds at its latest
version. -/
def proverStorage (digest : List UInt8 → Digest) (codec : HintCodec) (contents : κ → Option SlotValue) :
    Storage κ (ArrayWitness codec) where
  getLeaf key witness := do
    let withValue ← (contents key).mapM fun v => do
      let leaf ← NodeLeaf.makeLeaf digest v
      return (⟨leaf, .getSizeValueFetched v⟩ : NodeLeafAndMaybeValue)
    -- The node put into the witness does not have the value.
    let withoutValue := withValue.map fun node => { node with value := .getSizeValueNotFetched }
    return (withValue, witness.addHint (codec.ofLeaf withoutValue))
  get key witness := .ok (contents key, witness.addHint (codec.ofValue (contents key)))
  putInWitness value witness := witness.addHint (codec.ofValue value)

def zkStorage (codec : HintCodec) : Storage κ (ArrayWitness codec) where
  getLeaf _ witness := do
    let (leaf, witness) ← witness.getHint codec.toLeaf
    ensure .valuePreLoaded (∀ node ∈ leaf, node.value = .getSizeValueNotFetched)
    return (leaf, witness)
  get _ witness := witness.getHint codec.toValue
  putInWitness _ witness := witness

inductive ProvableNamespace where
  | user
  | kernel
deriving DecidableEq, Repr

structure Delta (κ : Type) where
  userCache : ProvableStorageCache κ
  kernelCache : ProvableStorageCache κ

structure StateAccesses (κ : Type) where
  user : OrderedReadsAndWrites κ
  kernel : OrderedReadsAndWrites κ
deriving DecidableEq, Repr

namespace Delta

def empty : Delta κ := ⟨.empty, .empty⟩

variable (delta : Delta κ)

def cache : ProvableNamespace → ProvableStorageCache κ
  | .user => delta.userCache
  | .kernel => delta.kernelCache

variable (cache : ProvableStorageCache κ)

def setCache : ProvableNamespace → Delta κ
  | .user => { delta with userCache := cache }
  | .kernel => { delta with kernelCache := cache }

/-- One operation on the cache of a namespace. Both caches share the witness; a commit of
the delta is one of each cache. -/
def perform [LinearOrder κ] {W : Type} (digest : List UInt8 → Digest) (storage : ProvableNamespace → Storage κ W)
    (state : Delta κ × W) (operation : ProvableNamespace × CacheOperation κ) :
    Except StatePanic ((Delta κ × W) × CacheAnswer) := do
  let ((cache, witness), answer) ← ProvableStorageCache.perform digest (storage operation.1)
    (state.1.cache operation.1, state.2) operation.2
  return ((state.1.setCache cache operation.1, witness), answer)

def freeze [LinearOrder κ] (delta : Delta κ) : Except StatePanic (StateAccesses κ) := do
  let user ← delta.userCache.toOrderedWritesAndReads
  let kernel ← delta.kernelCache.toOrderedWritesAndReads
  return ⟨user, kernel⟩

@[simp] theorem cache_setCache (n n' : ProvableNamespace) :
    (delta.setCache cache n).cache n' = if n' = n then cache else delta.cache n' := by
  cases n <;> cases n' <;> rfl

end Delta

def plainCodec : HintCodec where
  Hint := Option SlotValue ⊕ Option NodeLeafAndMaybeValue
  ofValue := .inl
  ofLeaf := .inr
  toValue := Sum.getLeft?
  toLeaf := Sum.getRight?
  toValue_ofValue := fun _ => rfl
  toLeaf_ofLeaf := fun _ => rfl

end SovereignSdk
