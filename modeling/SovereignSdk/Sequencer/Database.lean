import Mathlib.Data.Prod.Lex
import SovereignSdk.Gas.Meter
import SovereignSdk.Library.OrderedMap

/-! The blobs of the preferred sequencer that have not been finalized yet: the copy in memory
and the tables of the RocksDB backend. -/
namespace SovereignSdk
open Outcome Bounded List Prod.Lex

inductive SequencerPanic where
  | sequenceNumberUnderflow
  | sequenceNumberOverflow
  | noBatchInProgress
  | batchAlreadyInProgress
  | inProgressBatchIsProof
  deriving DecidableEq, Repr

structure ReadBatch (Tx TxHash : Type) where
  sequenceNumber : Nat
  visibleSlotNumberAfterIncrease : Nat
  visibleSlotsToAdvance : Nat
  blobId : Nat
  txs : List Tx
  txHashes : List TxHash
  deriving DecidableEq

inductive ReadBlob (Tx TxHash : Type) where
  | batch (batch : ReadBatch Tx TxHash)
  | proof (blobId sequenceNumber : Nat) (data : List UInt8)
  deriving DecidableEq

/-- A batch without its transactions, as a backend is given it. -/
structure BatchToStore where
  blobId : Nat
  sequenceNumber : Nat
  visibleSlotNumberAfterIncrease : Nat
  visibleSlotsToAdvance : Nat
  deriving DecidableEq

inductive StoredBlob where
  | batch (blobId visibleSlotNumberAfterIncrease visibleSlotsToAdvance : Nat)
  | proof (blobId : Nat) (data : List UInt8)
  deriving DecidableEq

structure SnapshotData (Tx TxHash : Type) where
  completedBlobs : List (ReadBlob Tx TxHash)
  inProgressBatch : Option (ReadBatch Tx TxHash)
  deriving DecidableEq

variable {Tx TxHash : Type}

namespace ReadBlob

def sequenceNumber : ReadBlob Tx TxHash → Nat
  | batch b => b.sequenceNumber
  | proof _ number _ => number

end ReadBlob

namespace ReadBatch

def toStore (b : ReadBatch Tx TxHash) : BatchToStore :=
  ⟨b.blobId, b.sequenceNumber, b.visibleSlotNumberAfterIncrease, b.visibleSlotsToAdvance⟩

def pushTx (b : ReadBatch Tx TxHash) (tx : Tx) (hash : TxHash) : ReadBatch Tx TxHash :=
  { b with txs := b.txs ++ [tx], txHashes := b.txHashes ++ [hash] }

end ReadBatch

namespace BatchToStore

def toStoredBlob (b : BatchToStore) : StoredBlob :=
  .batch b.blobId b.visibleSlotNumberAfterIncrease b.visibleSlotsToAdvance

end BatchToStore

/-- The copy in memory, which the synchronized part of the sequencer updates at once. -/
structure BlobsCache (Tx TxHash : Type) where
  completedBlobs : List (ReadBlob Tx TxHash)
  inProgressBatch : Option (ReadBatch Tx TxHash)

namespace BlobsCache

def empty : BlobsCache Tx TxHash := ⟨[], none⟩

variable (c : BlobsCache Tx TxHash)

def insertTx (tx : Tx) (hash : TxHash) : Except SequencerPanic (BlobsCache Tx TxHash) := do
  let b ← unwrap .noBatchInProgress c.inProgressBatch
  return { c with inProgressBatch := some (b.pushTx tx hash) }

def startBatch (visibleSlotNumberAfterIncrease visibleSlotsToAdvance number
    blobId : Nat) : Except SequencerPanic (BlobsCache Tx TxHash) := do
  ensure .batchAlreadyInProgress (c.inProgressBatch.isNone = true)
  return { c with
    inProgressBatch := some ⟨number, visibleSlotNumberAfterIncrease, visibleSlotsToAdvance, blobId, [], []⟩ }

def insertProofBlob (blobId : Nat) (data : List UInt8) (number : Nat) : BlobsCache Tx TxHash :=
  { c with completedBlobs := c.completedBlobs ++ [.proof blobId number data] }

def terminateBatch : Except SequencerPanic (BlobsCache Tx TxHash × ReadBatch Tx TxHash) := do
  let b ← unwrap .noBatchInProgress c.inProgressBatch
  return (⟨c.completedBlobs ++ [.batch b], none⟩, b)

end BlobsCache

/-- The tables of the RocksDB backend. The transactions of all batches share one table, whose keys are
a sequence number and an index. -/
structure RocksDb (Tx TxHash : Type) where
  completedBlobs : OrderedMap Nat StoredBlob
  inProgressBatch : Option (Nat × StoredBlob)
  batchContents : OrderedMap (Nat ×ₗ Nat) (TxHash × Tx)
  firstUnprunedSequenceNumber : Nat

namespace RocksDb

def empty : RocksDb Tx TxHash := ⟨.empty, none, .empty, 0⟩

variable (db : RocksDb Tx TxHash)

def beginRollupBlock (b : BatchToStore) : RocksDb Tx TxHash :=
  { db with inProgressBatch := some (b.sequenceNumber, b.toStoredBlob) }

def addTx (number index : Nat) (tx : Tx) (hash : TxHash) : RocksDb Tx TxHash :=
  { db with batchContents := db.batchContents.insert (toLex (number, index)) (hash, tx) }

/-- The transactions get consecutive indices, under the one number. -/
def batchAddTxs (db : RocksDb Tx TxHash) (number index : Nat) : List (Tx × TxHash) → RocksDb Tx TxHash
  | [] => db
  | (tx, hash) :: txs => (db.addTx number index tx hash).batchAddTxs number (index + 1) txs

def endRollupBlock (b : BatchToStore) : RocksDb Tx TxHash :=
  { db with
    inProgressBatch := none
    completedBlobs := db.completedBlobs.insert b.sequenceNumber b.toStoredBlob }

def addProofBlob (number blobId : Nat) (data : List UInt8) : RocksDb Tx TxHash :=
  { db with completedBlobs := db.completedBlobs.insert number (.proof blobId data) }

/-- Ranges that have been deleted before are not deleted again. The upper bounds are exclusive. -/
def prune (upToIncluding : Nat) : Except SequencerPanic (RocksDb Tx TxHash) :=
  if upToIncluding < db.firstUnprunedSequenceNumber then return db
  else do
    let first := db.firstUnprunedSequenceNumber
    let next ← unwrap .sequenceNumberOverflow (checkedAdd u64Max upToIncluding 1)
    return { db with
      completedBlobs := db.completedBlobs.removeRange first (saturatingAdd u64Max upToIncluding 1)
      batchContents := db.batchContents.removeRange (toLex (first, 0)) (toLex (upToIncluding, u64Max))
      firstUnprunedSequenceNumber := next }

/-- The transactions stored under a number, in the order of their indices: the iterator stops at the first
key with another number. -/
def contents (number : Nat) : List (TxHash × Tx) :=
  ((db.batchContents.seek (toLex (number, 0))).takeWhile fun e => (ofLex e.1).1 = number).map Prod.snd

def readBlob (number : Nat) : StoredBlob → ReadBlob Tx TxHash
  | .batch blobId visibleSlotNumberAfterIncrease visibleSlotsToAdvance =>
    .batch ⟨number, visibleSlotNumberAfterIncrease, visibleSlotsToAdvance, blobId,
      (db.contents number).map Prod.snd, (db.contents number).map Prod.fst⟩
  | .proof blobId data => .proof blobId number data

def readCompletedBlobs : List (ReadBlob Tx TxHash) :=
  db.completedBlobs.entries.map fun e => db.readBlob e.1 e.2

def readInProgressBatch : Except SequencerPanic (Option (ReadBatch Tx TxHash)) :=
  match db.inProgressBatch with
  | none => return none
  | some (number, stored) =>
    match db.readBlob number stored with
    | .batch b => return some b
    | .proof .. => .error .inProgressBatchIsProof

def currentData : Except SequencerPanic (SnapshotData Tx TxHash) := do
  let inProgress ← db.readInProgressBatch
  return ⟨db.readCompletedBlobs, inProgress⟩

/-! The transactions read back after each update. -/

def rows (number : Nat) : List (Nat × (TxHash × Tx)) :=
  (db.batchContents.entries.filter fun e => decide ((ofLex e.1).1 = number)).map fun e => ((ofLex e.1).2, e.2)

variable (db : RocksDb Tx TxHash)

theorem contents_eq_rows (number : Nat) : db.contents number = (db.rows number).map Prod.snd := by
  have hGroup : Monotone fun k : Nat ×ₗ Nat => (ofLex k).1 := fun _ _ h => monotone_fst _ _ h
  have hLeast : ∀ j : Nat ×ₗ Nat, (ofLex j).1 = (ofLex (toLex (number, 0))).1 → toLex (number, 0) ≤ j := by
    intro j hj
    exact toLex_le_toLex.mpr (.inr ⟨hj.symm, Nat.zero_le _⟩)
  unfold contents rows
  rw [map_map]
  exact congrArg (map Prod.snd) (db.batchContents.seek_takeWhile hGroup hLeast)

variable {db : RocksDb Tx TxHash} {number other : Nat}

theorem mem_rows {row} : row ∈ db.rows number ↔ (toLex (number, row.1), row.2) ∈ db.batchContents.entries := by
  unfold rows
  simp only [mem_map, mem_filter, decide_eq_true_eq]
  constructor
  · rintro ⟨e, ⟨he, rfl⟩, rfl⟩
    exact he
  · intro he
    exact ⟨_, ⟨he, rfl⟩, rfl⟩

theorem rows_ascending (number : Nat) : (db.rows number).Pairwise fun a b => a.1 < b.1 := by
  refine pairwise_map.mpr ((db.batchContents.ascending.filter _).imp_of_mem ?_)
  intro a b ha hb hlt
  have ha := of_decide_eq_true (mem_filter.mp ha).2
  have hb := of_decide_eq_true (mem_filter.mp hb).2
  rcases toLex_lt_toLex.mp hlt with h | ⟨-, h⟩
  · exact absurd (ha.trans hb.symm) h.ne
  · exact h

theorem rows_addTx_other (index : Nat) (tx : Tx) (hash : TxHash) (h : other ≠ number) :
    (db.addTx number index tx hash).rows other = db.rows other :=
  congrArg (map _) (@OrderedMap.filter_insert_of_not _ _ _ (toLex (number, index)) (hash, tx) db.batchContents
      (fun k => decide ((ofLex k).1 = other)) (decide_eq_false (Ne.symm h)))

variable {index : Nat} {db' : RocksDb Tx TxHash}

theorem rows_addTx (tx : Tx) (hash : TxHash) (h : ∀ row ∈ db.rows number, row.1 < index) :
    (db.addTx number index tx hash).rows number = db.rows number ++ [(index, (hash, tx))] := by
  have hLast : ∀ e ∈ db.batchContents.entries, decide ((ofLex e.1).1 = number) = true →
      e.1 < toLex (number, index) := by
    intro e he hNum
    have hNum := of_decide_eq_true hNum
    refine toLex_lt_toLex.mpr (.inr ⟨hNum, h ((ofLex e.1).2, e.2) ?_⟩)
    subst hNum
    exact mem_rows.mpr he
  refine (congrArg (map _) (@OrderedMap.filter_insert_last _ _ _
    (toLex (number, index)) (hash, tx) db.batchContents (fun k => decide ((ofLex k).1 = number)) (decide_eq_true rfl)
    hLast)).trans ?_
  exact map_append

theorem contents_addTx_other (index : Nat) (tx : Tx) (hash : TxHash) (h : other ≠ number)
    : (db.addTx number index tx hash).contents other = db.contents other := by
  rw [contents_eq_rows, contents_eq_rows, db.rows_addTx_other index tx hash h]

theorem readBlob_congr (h : db'.contents number = db.contents number) (stored : StoredBlob) :
    db'.readBlob number stored = db.readBlob number stored := by
  cases stored with
  | batch => simp only [readBlob, h]
  | proof => rfl

def txRows (index : Nat) : List (Tx × TxHash) → List (Nat × (TxHash × Tx))
  | [] => []
  | (tx, hash) :: txs => (index, (hash, tx)) :: txRows (index + 1) txs

theorem txRows_indices (index : Nat) (txs : List (Tx × TxHash)) :
    (txRows index txs).map Prod.fst = List.range' index txs.length := by
  induction txs generalizing index with
  | nil => rfl
  | cons tx txs ih => exact congrArg (index :: ·) (ih (index + 1))

section
variable (db : RocksDb Tx TxHash)

theorem rows_batchAddTxs (txs : List (Tx × TxHash)) (h : ∀ row ∈ db.rows number, row.1 < index) :
    (db.batchAddTxs number index txs).rows number = db.rows number ++ txRows index txs := by
  induction txs generalizing db index with
  | nil => exact (append_nil _).symm
  | cons tx txs ih =>
    have hRows := db.rows_addTx tx.1 tx.2 h
    have hLater : ∀ row ∈ (db.addTx number index tx.1 tx.2).rows number, row.1 < index + 1 := by
      intro row hRow
      rw [hRows, mem_append, mem_singleton] at hRow
      rcases hRow with hRow | rfl
      · exact Nat.lt_succ_of_lt (h row hRow)
      · exact Nat.lt_succ_self index
    refine (ih _ hLater).trans ?_
    rw [hRows, append_assoc]
    rfl

theorem rows_batchAddTxs_other (index : Nat) (txs : List (Tx × TxHash))
    (h : other ≠ number) : (db.batchAddTxs number index txs).rows other = db.rows other := by
  induction txs generalizing db index with
  | nil => rfl
  | cons tx txs ih => exact (ih _ _).trans (db.rows_addTx_other index tx.1 tx.2 h)

/-- The transactions of a batch touch nothing but their rows. -/
@[simp] theorem batchAddTxs_keeps (number index : Nat) (txs : List (Tx × TxHash)) :
    (db.batchAddTxs number index txs).completedBlobs = db.completedBlobs ∧
      (db.batchAddTxs number index txs).inProgressBatch = db.inProgressBatch ∧
        (db.batchAddTxs number index txs).firstUnprunedSequenceNumber = db.firstUnprunedSequenceNumber := by
  induction txs generalizing db index with
  | nil => exact ⟨rfl, rfl, rfl⟩
  | cons tx txs ih => exact ih _ _

end

theorem prune_ok {n} (h : db.prune n = .ok db')
    (hFirst : ∀ e ∈ db.completedBlobs.entries, db.firstUnprunedSequenceNumber ≤ e.1) :
    db'.completedBlobs.entries = (db.completedBlobs.entries.filter fun e => n < e.1) ∧
      db'.inProgressBatch = db.inProgressBatch ∧ (∀ number, n < number → db'.rows number = db.rows number) ∧
      db'.firstUnprunedSequenceNumber = max db.firstUnprunedSequenceNumber (n + 1) := by
  unfold prune at h
  split at h
  · rename_i hSkip
    cases h
    refine ⟨?_, rfl, fun _ _ => rfl, (Nat.max_eq_left hSkip).symm⟩
    exact (filter_eq_self.mpr fun e he => decide_eq_true (hSkip.trans_le (hFirst e he))).symm
  · simp only [bind_eq_ok, unwrap_eq_ok, checkedAdd_eq_some] at h
    obtain ⟨next, ⟨hFits, rfl⟩, h⟩ := h
    have hSum : saturatingAdd u64Max n 1 = n + 1 := Nat.min_eq_left hFits
    cases h
    have hRaised : db.firstUnprunedSequenceNumber ≤ n + 1 := by omega
    refine ⟨?_, rfl, fun number hNum => ?_, (Nat.max_eq_right hRaised).symm⟩
    · refine filter_congr fun e he => decide_eq_decide.mpr ?_
      have := hFirst e he
      omega
    · refine congrArg (map _) ?_
      show filter _ (filter _ _) = _
      rw [filter_filter]
      refine filter_congr fun e _ => ?_
      by_cases hSame : (ofLex e.1).1 = number
      · have hAbove : ¬e.1 < toLex (n, u64Max) := by
          intro hlt
          have hLe : (ofLex e.1).1 ≤ n := monotone_fst _ _ hlt.le
          omega
        simp [hAbove]
      · simp [hSame]

end RocksDb
end SovereignSdk
