import SovereignSdk.Library.Encoding
import SovereignSdk.Library.Outcome

/-! The sizes that blobs are counted with: by the sequencer for the batch that it builds, and by blob storage
for the blobs that it defers. -/
namespace SovereignSdk.BlobSizes
open Outcome Encoding List Option

inductive BorshError where
  /-- A length is no `u32`. -/
  | lengthOverflow

structure FullyBakedTx where
  data : List UInt8
  sequencingData : Option (List UInt8)

def borshBytes (bytes : List UInt8) : Except BorshError (List UInt8) := do
  ensure .lengthOverflow (bytes.length < 2 ^ 32)
  return littleEndian 4 bytes.length ++ bytes

namespace FullyBakedTx
variable (tx : FullyBakedTx)

def borsh : Except BorshError (List UInt8) := do
  let data ← borshBytes tx.data
  match tx.sequencingData with
  | none => return data ++ [0]
  | some sequencing => return data ++ 1 :: (← borshBytes sequencing)

def len : Except BorshError Nat := do
  return (← tx.borsh).length

def size : Nat := 5 + tx.data.length + (tx.sequencingData.map fun bytes => 4 + bytes.length).getD 0

end FullyBakedTx

structure PreferredBatchData where
  sequenceNumber : Nat
  data : List FullyBakedTx
  visibleSlotsToAdvance : UInt8

def PreferredBatchData.borsh (b : PreferredBatchData) : Except BorshError (List UInt8) := do
  ensure .lengthOverflow (b.data.length < 2 ^ 32)
  return littleEndian 8 b.sequenceNumber ++ littleEndian 4 b.data.length ++ (← b.data.mapM FullyBakedTx.borsh).flatten ++
    [b.visibleSlotsToAdvance]

structure BatchSizeTracker where
  maxBatchSize : Nat
  currentBatchSize : Nat
  batchExecutionTimeMicros : Nat

namespace BatchSizeTracker

def new (maxBatchSize : Nat) : BatchSizeTracker := ⟨maxBatchSize, 8 + 1 + 4, 0⟩

def serializedTxSize (txSize : Nat) : Nat := txSize + 5

def canFitTxBytes (t : BatchSizeTracker) (txSize : Nat) : Bool :=
  t.currentBatchSize + serializedTxSize txSize ≤ t.maxBatchSize

def addTx (t : BatchSizeTracker) (txSize micros : Nat) : BatchSizeTracker :=
  ⟨t.maxBatchSize, t.currentBatchSize + serializedTxSize txSize, t.batchExecutionTimeMicros + micros⟩

/-- A transaction, with the time of its execution if the executor accepts it. -/
def doNewTx : BatchSizeTracker × List FullyBakedTx → FullyBakedTx × Option Nat →
    Except BorshError (BatchSizeTracker × List FullyBakedTx)
  | (tracker, txs), (tx, executed) => do
    let txLen ← tx.len
    if tracker.canFitTxBytes txLen then
      match executed with
      | none => return (tracker, txs)
      | some micros => return (tracker.addTx txLen micros, txs ++ [tx])
    else return (tracker, txs)

end BatchSizeTracker

def totalSize (txs : List FullyBakedTx) : Nat := (txs.map FullyBakedTx.size).sum

theorem borshBytes_length {bytes encoded} (h : borshBytes bytes = .ok encoded) :
    encoded.length = 4 + bytes.length := by
  simp only [borshBytes, bind_eq_ok, pure_eq_ok] at h
  obtain ⟨_, -, rfl⟩ := h
  rw [length_append, length_littleEndian]

namespace FullyBakedTx
variable {tx : FullyBakedTx}

theorem borsh_length {encoded} (h : tx.borsh = .ok encoded) : encoded.length = tx.size := by
  obtain ⟨data, sequencing⟩ := tx
  simp only [borsh, bind_eq_ok] at h
  obtain ⟨bytes, hData, h⟩ := h
  have hData := borshBytes_length hData
  cases sequencing with
  | none =>
    cases h
    simp only [length_append, length_singleton, size, map_none, getD_none]
    omega
  | some sequencing =>
    obtain ⟨more, hMore, h⟩ := bind_eq_ok.mp h
    cases h
    have hMore := borshBytes_length hMore
    simp only [length_append, length_cons, size, map_some, getD_some]
    omega

theorem len_eq {n} (h : tx.len = .ok n) : n = tx.size := by
  simp only [len, bind_eq_ok, pure_eq_ok] at h
  obtain ⟨encoded, hEncoded, rfl⟩ := h
  exact borsh_length hEncoded

theorem flatten_length {txs encoded} (h : txs.mapM borsh = .ok encoded) : encoded.flatten.length = totalSize txs := by
  induction txs generalizing encoded with
  | nil =>
    cases h
    rfl
  | cons tx rest ih =>
    obtain ⟨first, others, hFirst, hOthers, rfl⟩ := mapM_cons_eq_ok.mp h
    rw [flatten_cons, length_append, borsh_length hFirst, ih hOthers]
    rfl

end FullyBakedTx

theorem PreferredBatchData.borsh_length {b : PreferredBatchData} {encoded : List UInt8} (h : b.borsh = .ok encoded) :
    encoded.length = 13 + totalSize b.data := by
  simp only [borsh, bind_eq_ok, pure_eq_ok] at h
  obtain ⟨_, -, txs, hTxs, rfl⟩ := h
  simp only [length_append, length_littleEndian, FullyBakedTx.flatten_length hTxs, length_singleton]
  omega

namespace BatchSizeTracker
variable {tracker : BatchSizeTracker} {txs : List FullyBakedTx} {max number : Nat} {slots : UInt8}

theorem counted {requests : List (FullyBakedTx × Option Nat)}
    (hRun : requests.foldlM doNewTx (new max, []) = .ok (tracker, txs)) :
    tracker.maxBatchSize = max ∧ tracker.currentBatchSize = 13 + totalSize txs + 5 * txs.length := by
  refine foldlM_invariant (fun s : BatchSizeTracker × List FullyBakedTx => s.1.maxBatchSize = max ∧
    s.1.currentBatchSize = 13 + totalSize s.2 + 5 * s.2.length) ?_ ⟨rfl, rfl⟩ hRun
  rintro ⟨t, accepted⟩ ⟨tx, executed⟩ s' ⟨hMax, hCur⟩ hStep
  dsimp only at hMax hCur
  obtain ⟨n, hLen, hStep⟩ := bind_eq_ok.mp hStep
  split at hStep
  · cases executed with
    | none =>
      cases hStep
      exact ⟨hMax, hCur⟩
    | some micros =>
      cases hStep
      refine ⟨hMax, ?_⟩
      simp only [addTx, serializedTxSize, FullyBakedTx.len_eq hLen, hCur, totalSize, map_append,
        sum_append, map_singleton, sum_singleton, length_append, length_singleton]
      omega
  · cases hStep
    exact ⟨hMax, hCur⟩

/-- The tracked size is the one that is published if and only if there is no transaction yet, and a transaction
is refused exactly when the batch would be too long, unless the batch is short of the limit by less than the
bytes that are counted twice. -/
theorem tracked_size_is_published_iff {requests : List (FullyBakedTx × Option Nat)} {published : List UInt8}
    (hRun : requests.foldlM doNewTx (new max, []) = .ok (tracker, txs))
    (hPublished : PreferredBatchData.borsh ⟨number, txs, slots⟩ = .ok published) :
    (tracker.currentBatchSize = published.length ↔ txs = []) ∧
    ∀ tx txLen longer, tx.len = .ok txLen → PreferredBatchData.borsh ⟨number, txs ++ [tx], slots⟩ = .ok longer →
      ((tracker.canFitTxBytes txLen = false ↔ max < longer.length) ↔
        ¬(longer.length ≤ max ∧ max < longer.length + 5 * (txs.length + 1))) := by
  obtain ⟨hMax, hCurrent⟩ := counted hRun
  constructor
  · have hPublished : published.length = 13 + totalSize txs := PreferredBatchData.borsh_length hPublished
    rw [hCurrent, hPublished, ← length_eq_zero_iff]
    omega
  · intro tx txLen longer hLen hLonger
    have hLonger := PreferredBatchData.borsh_length hLonger
    simp only [totalSize, map_append, sum_append, map_singleton, sum_singleton] at hLonger hCurrent
    rw [canFitTxBytes, decide_eq_false_iff_not, hMax, serializedTxSize, FullyBakedTx.len_eq hLen]
    omega

/-- A batch of 19 bytes is tracked as one of 24, and refused where 20 are allowed. -/
theorem short_batch_refused :
    let tx : FullyBakedTx := ⟨[0], none⟩
    (∃ tracker published, [(tx, some 0)].foldlM doNewTx (new 30, []) = .ok (tracker, [tx]) ∧
      PreferredBatchData.borsh ⟨1, [tx], 1⟩ = .ok published ∧ published.length = 19 ∧ tracker.currentBatchSize = 24) ∧
    ∃ tracker, [(tx, some 0)].foldlM doNewTx (new 20, []) = .ok (tracker, []) :=
  ⟨⟨_, _, rfl, rfl, rfl, rfl⟩, _, rfl⟩

/-- For a batch with a transaction the two sizes differ. -/
theorem tracked_size_is_published_one :
    let tx : FullyBakedTx := ⟨[0], none⟩
    ∃ tracker published, [(tx, some 0)].foldlM doNewTx (new 30, []) = .ok (tracker, [tx]) ∧
      PreferredBatchData.borsh ⟨1, [tx], 1⟩ = .ok published ∧
      (tracker.currentBatchSize = published.length ↔ [tx] = []) :=
  ⟨_, _, rfl, rfl, (@tracked_size_is_published_iff _ [⟨[0], none⟩] 30 1 1 [(⟨[0], none⟩, some 0)] _ rfl rfl).1⟩

end BatchSizeTracker

section Deferred
variable {Address DaAddress : Type}

/-- The bytes of `as_ref`, and those of the BCS encoding. -/
structure AddressSizes (Address : Type) where
  asRef : Address → Nat
  bcs : Address → Nat

inductive Escrow where
  | derivedHolder (holder : Fin 32 → UInt8)
  | direct (amount : BitVec 128)
  | none

inductive BlobDataWithId (Address : Type) where
  | batch (batch : List FullyBakedTx) (id : Fin 32 → UInt8) (sequencerAddress : Address)
  | emergencyRegistration (tx : FullyBakedTx) (id : Fin 32 → UInt8)
  | proof (proof : List UInt8) (id : Fin 32 → UInt8) (sequencerAddress : Address)

structure ValidatedBlob (Address DaAddress : Type) where
  blob : BlobDataWithId Address
  sender : DaAddress
  balanceStore : Escrow

variable (A : AddressSizes Address) (D : AddressSizes DaAddress)

def blobSize : BlobDataWithId Address → Except BorshError Nat
  | .batch batch _ sequencerAddress => do return (← batch.mapM FullyBakedTx.len).sum + 32 + A.asRef sequencerAddress
  | .proof proof _ sequencerAddress => return proof.length + 32 + A.asRef sequencerAddress
  | .emergencyRegistration tx _ => do return (← tx.len) + 32

def conservativeSerializedSize (blob : BlobDataWithId Address) (sender : DaAddress) : Except BorshError Nat := do
  return (← blobSize A blob) + 1 + D.asRef sender + 33 + 12

def uleb128Size (n : Nat) : Nat :=
  if n < 2 ^ 7 then 1 else if n < 2 ^ 14 then 2 else if n < 2 ^ 21 then 3 else if n < 2 ^ 28 then 4 else 5

/-- A string: the padded base64 text of some bytes, after its length. -/
def base64Size (bytes : List UInt8) : Nat :=
  uleb128Size (4 * ((bytes.length + 2) / 3)) + 4 * ((bytes.length + 2) / 3)

def FullyBakedTx.bcsSize (tx : FullyBakedTx) : Nat :=
  base64Size tx.data + 1 + (tx.sequencingData.map base64Size).getD 0

def Escrow.bcsSize : Escrow → Nat
  | .derivedHolder _ => 1 + 32
  | .direct _ => 1 + 16
  | .none => 1

def BlobDataWithId.bcsSize : BlobDataWithId Address → Nat
  | .batch txs _ sequencerAddress =>
    1 + uleb128Size txs.length + (txs.map FullyBakedTx.bcsSize).sum + 32 + A.bcs sequencerAddress
  | .emergencyRegistration tx _ => 1 + tx.bcsSize + 32
  | .proof bytes _ sequencerAddress => 1 + uleb128Size bytes.length + bytes.length + 32 + A.bcs sequencerAddress

variable (b : ValidatedBlob Address DaAddress)

def ValidatedBlob.bcsSize : Nat :=
  b.blob.bcsSize A + D.bcs b.sender + b.balanceStore.bcsSize

/-- What base64 adds to some bytes, with its ULEB128 length in place of the four bytes of a borsh length. -/
def textGrowth (bytes : List UInt8) : Int :=
  4 * ((bytes.length + 2) / 3) - bytes.length + (uleb128Size (4 * ((bytes.length + 2) / 3)) - 4)

def FullyBakedTx.growth (tx : FullyBakedTx) : Int :=
  textGrowth tx.data + (tx.sequencingData.map textGrowth).getD 0

def AddressSizes.growth (a : Address) : Int := A.bcs a - A.asRef a

/-- What is left of the 45 bytes that are counted for escrow and lengths. -/
def Escrow.slack : Escrow → Int
  | .derivedHolder _ => 12
  | .direct _ => 28
  | .none => 44

/-- By their lengths, the data that is stored as text or after a ULEB128 length, and the addresses, grow by no more
than the slack. -/
def Estimated : Prop :=
  match b.blob with
  | .batch batch _ address => uleb128Size batch.length + (batch.map FullyBakedTx.growth).sum + A.growth address +
      D.growth b.sender ≤ b.balanceStore.slack
  | .emergencyRegistration tx _ => tx.growth + D.growth b.sender ≤ b.balanceStore.slack
  | .proof proof _ address => uleb128Size proof.length + A.growth address + D.growth b.sender ≤ b.balanceStore.slack

/-- The text of a transaction is longer than its borsh encoding by the growth of its parts. -/
theorem FullyBakedTx.bcsSize_eq (tx : FullyBakedTx) : (tx.bcsSize : Int) = tx.size + tx.growth := by
  obtain ⟨data, sequencing⟩ := tx
  cases sequencing with
  | none =>
    simp only [bcsSize, size, growth, base64Size, textGrowth, map_none, getD_none]
    omega
  | some sequencing =>
    simp only [bcsSize, size, growth, base64Size, textGrowth, map_some, getD_some]
    omega

theorem bcsSizes_eq (txs : List FullyBakedTx) :
    ((txs.map FullyBakedTx.bcsSize).sum : Int) = totalSize txs + (txs.map FullyBakedTx.growth).sum := by
  induction txs with
  | nil => rfl
  | cons tx rest ih =>
    have hHere := tx.bcsSize_eq
    simp only [totalSize, map_cons, sum_cons] at ih ⊢
    omega

theorem Escrow.bcsSize_eq (escrow : Escrow) : (escrow.bcsSize : Int) = 45 - escrow.slack := by
  cases escrow <;> rfl

theorem lens_sum {txs lens} (h : txs.mapM FullyBakedTx.len = .ok lens) : lens.sum = totalSize txs := by
  induction txs generalizing lens with
  | nil =>
    cases h
    rfl
  | cons tx rest ih =>
    obtain ⟨first, others, hFirst, hOthers, rfl⟩ := mapM_cons_eq_ok.mp h
    rw [sum_cons, FullyBakedTx.len_eq hFirst, ih hOthers]
    rfl

/-- The size that a deferred blob is counted with covers its BCS encoding just if what the encoding adds to the data,
by its lengths, fits in the slack. -/
theorem conservative_size_is_bound_iff {b : ValidatedBlob Address DaAddress} {size : Nat}
    (h : conservativeSerializedSize A D b.blob b.sender = .ok size) : b.bcsSize A D ≤ size ↔ Estimated A D b := by
  obtain ⟨blob, sender, escrow⟩ := b
  simp only [conservativeSerializedSize, bind_eq_ok, pure_eq_ok] at h
  obtain ⟨counted, hCounted, rfl⟩ := h
  have hEscrow := escrow.bcsSize_eq
  cases blob with
  | batch batch id address =>
    simp only [blobSize, bind_eq_ok, pure_eq_ok] at hCounted
    obtain ⟨lens, hLens, rfl⟩ := hCounted
    have hTxs := bcsSizes_eq batch
    simp only [ValidatedBlob.bcsSize, BlobDataWithId.bcsSize, Estimated, AddressSizes.growth, lens_sum hLens]
    omega
  | emergencyRegistration tx id =>
    simp only [blobSize, bind_eq_ok, pure_eq_ok] at hCounted
    obtain ⟨txLen, hLen, rfl⟩ := hCounted
    have hTx := tx.bcsSize_eq
    simp only [ValidatedBlob.bcsSize, BlobDataWithId.bcsSize, Estimated, AddressSizes.growth, FullyBakedTx.len_eq hLen]
    omega
  | proof proof id address =>
    cases hCounted
    simp only [ValidatedBlob.bcsSize, BlobDataWithId.bcsSize, Estimated, AddressSizes.growth]
    omega

def plainAddress : AddressSizes Unit := ⟨fun _ => 32, fun _ => 32⟩

def batchOf (n : Nat) : ValidatedBlob Unit Unit :=
  ⟨.batch [⟨replicate n 0, none⟩] (fun _ => 0) (), (), .derivedHolder fun _ => 0⟩

/-- A transaction of 60 bytes is stored as text of 80. -/
theorem conservative_size_too_small :
    ∃ size, conservativeSerializedSize plainAddress plainAddress (batchOf 60).blob () = .ok size ∧
      size < (batchOf 60).bcsSize plainAddress plainAddress :=
  ⟨_, rfl, by decide⟩

/-- The text of 30 bytes is 10 bytes longer, and the slack covers that. -/
theorem conservative_size_is_bound_thirty :
    ∃ size, conservativeSerializedSize plainAddress plainAddress (batchOf 30).blob () = .ok size ∧
      (batchOf 30).bcsSize plainAddress plainAddress ≤ size :=
  ⟨_, rfl, (@conservative_size_is_bound_iff _ _ plainAddress plainAddress (batchOf 30) _ rfl).mpr (show _ ≤ _ by decide)⟩

end Deferred
end SovereignSdk.BlobSizes
