import SovereignSdk.Sequencer.Database

/-! The Postgres backend of the preferred sequencer: one log of events, with the proofs
and the in-progress batch in tables of their own. -/
namespace SovereignSdk
open Outcome Bounded List Prod

variable {Tx TxHash : Type}

def i64Max : Nat := 2 ^ 63 - 1

inductive DbError where
  | database
  | replicaDisallowed
  | panic (cause : SequencerPanic)
  deriving DecidableEq

inductive PgEvent (Tx TxHash : Type) where
  | transaction (indexInBatch : Nat) (hash : TxHash) (data : Tx)
  | batchStart (data : StoredBlob)
  | batchEnd (data : StoredBlob)
  | newProof

structure EventRow (Tx TxHash : Type) where
  eventId : Nat
  sequenceNumber : Nat
  event : PgEvent Tx TxHash

/-- The tables, as the leader sees them. The event ids are drawn from a sequence. -/
structure Postgres (Tx TxHash : Type) where
  events : List (EventRow Tx TxHash)
  nextEventId : Nat
  proofBlobs : OrderedMap Nat StoredBlob
  inProgressBatch : Option (Nat × StoredBlob)

namespace Postgres

def empty : Postgres Tx TxHash := ⟨[], 1, .empty, none⟩

variable (db : Postgres Tx TxHash) (number : Nat)

def insertEvent (event : PgEvent Tx TxHash) : Postgres Tx TxHash :=
  { db with events := db.events ++ [⟨db.nextEventId, number, event⟩], nextEventId := db.nextEventId + 1 }

def insertTxs (db : Postgres Tx TxHash) (number index : Nat) : List (Tx × TxHash) → Postgres Tx TxHash
  | [] => db
  | (tx, hash) :: txs => (db.insertEvent number (.transaction index hash tx)).insertTxs number (index + 1) txs

/-- The table of the in-progress batch has room for one row. -/
def beginRollupBlock (b : BatchToStore) : Except DbError (Postgres Tx TxHash) := do
  ensure .database (b.sequenceNumber ≤ i64Max)
  ensure .database (db.inProgressBatch.isNone = true)
  let db := { db with inProgressBatch := some (b.sequenceNumber, b.toStoredBlob) }
  return db.insertEvent b.sequenceNumber (.batchStart b.toStoredBlob)

def addTx (number index : Nat) (tx : Tx) (hash : TxHash) : Except DbError (Postgres Tx TxHash) := do
  ensure .database (number ≤ i64Max)
  ensure .database (index ≤ i64Max)
  return db.insertEvent number (.transaction index hash tx)

/-- An insertion of no rows is taken for a loss of leadership. -/
def batchAddTxs (number index : Nat) (txs : List (Tx × TxHash)) : Except DbError (Postgres Tx TxHash) := do
  ensure .database (index ≤ i64Max)
  ensure .database (number ≤ i64Max)
  ensure .replicaDisallowed (txs ≠ [])
  return db.insertTxs number index txs

def endRollupBlock (b : BatchToStore) : Except DbError (Postgres Tx TxHash) := do
  ensure .database (b.sequenceNumber ≤ i64Max)
  ensure .replicaDisallowed (db.inProgressBatch.isSome = true)
  let db := { db with inProgressBatch := none }
  return db.insertEvent b.sequenceNumber (.batchEnd b.toStoredBlob)

def addProofBlob (number blobId : Nat) (data : List UInt8) : Except DbError (Postgres Tx TxHash) := do
  ensure .database (number ≤ i64Max)
  ensure .database (∀ e ∈ db.proofBlobs.entries, e.1 ≠ number)
  let db := { db with proofBlobs := db.proofBlobs.insert number (.proof blobId data) }
  return db.insertEvent number .newProof

def deleteUpTo (bound : Nat) : Postgres Tx TxHash :=
  { db with
    events := db.events.filter fun row => ¬row.sequenceNumber ≤ bound
    proofBlobs := db.proofBlobs.removeRange 0 (bound + 1) }

/-- The bound is raised by one, though the deletion includes it. -/
def prune (upToIncluding : Nat) : Except DbError (Postgres Tx TxHash) := do
  let bound := saturatingAdd u64Max upToIncluding 1
  ensure .database (bound ≤ i64Max)
  return db.deleteUpTo bound

def rows : List (Nat × (TxHash × Tx)) :=
  db.events.filterMap fun row =>
    match row.event with
    | .transaction index hash tx => if row.sequenceNumber = number then some (index, (hash, tx)) else none
    | _ => none

def batchEnds : List (Nat × StoredBlob) :=
  db.events.filterMap fun row =>
    match row.event with
    | .batchEnd stored => some (row.sequenceNumber, stored)
    | _ => none

def contents : List (TxHash × Tx) :=
  ((db.rows number).insertionSort fun a b => a.1 ≤ b.1).map snd

def readBlob : StoredBlob → ReadBlob Tx TxHash
  | .batch blobId visibleSlotNumberAfterIncrease visibleSlotsToAdvance =>
    .batch ⟨number, visibleSlotNumberAfterIncrease, visibleSlotsToAdvance, blobId,
      (db.contents number).map snd, (db.contents number).map fst⟩
  | .proof blobId data => .proof blobId number data

/-- Only the batches are looked up. -/
def readCompletedBlobs : List (ReadBlob Tx TxHash) :=
  (db.batchEnds.insertionSort fun a b => a.1 ≤ b.1).map fun e => db.readBlob e.1 e.2

def readInProgressBatch : Except DbError (Option (ReadBatch Tx TxHash)) :=
  match db.inProgressBatch with
  | none => return none
  | some (number, stored) =>
    match db.readBlob number stored with
    | .batch b => return some b
    | .proof .. => .error (.panic .inProgressBatchIsProof)

def currentData : Except DbError (SnapshotData Tx TxHash) := do
  let inProgress ← db.readInProgressBatch
  return ⟨db.readCompletedBlobs, inProgress⟩

/-! The log after each update. -/

section
variable (db : Postgres Tx TxHash)

variable (number : Nat)

theorem rows_insertEvent (other : Nat) (event : PgEvent Tx TxHash) :
    (db.insertEvent number event).rows other = db.rows other ++ (match event with
        | .transaction index hash tx => if number = other then [(index, (hash, tx))] else []
        | _ => []) := by
  unfold rows insertEvent
  rw [filterMap_append]
  cases event with
  | transaction index hash tx =>
    by_cases h : number = other <;> simp [h]
  | batchStart | batchEnd | newProof => rfl

theorem batchEnds_insertEvent (event : PgEvent Tx TxHash) :
    (db.insertEvent number event).batchEnds = db.batchEnds ++ (match event with
        | .batchEnd stored => [(number, stored)]
        | _ => []) := by
  unfold batchEnds insertEvent
  rw [filterMap_append]
  cases event <;> rfl

variable (index : Nat) (txs : List (Tx × TxHash))

@[simp] theorem insertTxs_batchEnds : (db.insertTxs number index txs).batchEnds = db.batchEnds := by
  induction txs generalizing db index with
  | nil => rfl
  | cons tx txs ih => exact (ih _ _).trans ((db.batchEnds_insertEvent _ _).trans (append_nil _))

@[simp] theorem insertTxs_keeps : (db.insertTxs number index txs).proofBlobs = db.proofBlobs ∧
    (db.insertTxs number index txs).inProgressBatch = db.inProgressBatch := by
  induction txs generalizing db index with
  | nil => exact ⟨rfl, rfl⟩
  | cons tx txs ih => exact ih _ _

theorem rows_insertTxs :
    (db.insertTxs number index txs).rows number = db.rows number ++ RocksDb.txRows index txs := by
  induction txs generalizing db index with
  | nil => exact (append_nil _).symm
  | cons tx txs ih =>
    refine (ih _ _).trans ?_
    rw [rows_insertEvent, append_assoc]
    simp only [if_true]
    rfl

theorem rows_insertTxs_other {number other} (index : Nat)
    (txs : List (Tx × TxHash)) (h : other ≠ number) : (db.insertTxs number index txs).rows other = db.rows other := by
  induction txs generalizing db index with
  | nil => rfl
  | cons tx txs ih =>
    refine (ih _ _).trans ?_
    rw [rows_insertEvent]
    simp [Ne.symm h]

theorem rows_deleteUpTo (bound number : Nat) :
    (db.deleteUpTo bound).rows number = if number ≤ bound then [] else db.rows number := by
  unfold rows deleteUpTo
  rw [filterMap_filter]
  split
  · refine filterMap_eq_nil_iff.mpr fun row _ => ?_
    split
    · cases row.event with
      | transaction =>
        refine if_neg ?_
        rintro rfl
        simp_all
      | batchStart | batchEnd | newProof => rfl
    · rfl
  · refine filterMap_congr fun row _ => ?_
    cases row.event with
    | transaction =>
      by_cases h : row.sequenceNumber = number
      · simp_all
      · simp [h]
    | batchStart | batchEnd | newProof => simp

theorem batchEnds_deleteUpTo (bound : Nat) :
    (db.deleteUpTo bound).batchEnds = db.batchEnds.filter fun e => ¬e.1 ≤ bound := by
  unfold batchEnds deleteUpTo
  rw [filterMap_filter, filter_filterMap]
  refine filterMap_congr fun row _ => ?_
  cases row.event with
  | batchEnd stored => by_cases h : row.sequenceNumber ≤ bound <;> simp [Option.filter]
  | transaction | batchStart | newProof => simp

end

end Postgres

/-! The two database backends under the calls that the leader makes. -/

inductive DbCall (Tx TxHash : Type) where
  | beginRollupBlock (batch : BatchToStore)
  | addTx (number index : Nat) (tx : Tx) (hash : TxHash)
  | batchAddTxs (number index : Nat) (txs : List (Tx × TxHash))
  | endRollupBlock (batch : BatchToStore)
  | addProofBlob (number blobId : Nat) (data : List UInt8)
  | prune (upToIncluding : Nat)

def RocksDb.call (db : RocksDb Tx TxHash) : DbCall Tx TxHash → Except SequencerPanic (RocksDb Tx TxHash)
  | .beginRollupBlock b => return db.beginRollupBlock b
  | .addTx number index tx hash => return db.addTx number index tx hash
  | .batchAddTxs number index txs => return db.batchAddTxs number index txs
  | .endRollupBlock b => return db.endRollupBlock b
  | .addProofBlob number blobId data => return db.addProofBlob number blobId data
  | .prune n => db.prune n

def Postgres.call (db : Postgres Tx TxHash) : DbCall Tx TxHash → Except DbError (Postgres Tx TxHash)
  | .beginRollupBlock b => db.beginRollupBlock b
  | .addTx number index tx hash => db.addTx number index tx hash
  | .batchAddTxs number index txs => db.batchAddTxs number index txs
  | .endRollupBlock b => db.endRollupBlock b
  | .addProofBlob number blobId data => db.addProofBlob number blobId data
  | .prune n => db.prune n

/-- What the leader's calls depend on: the next number, and the in-progress batch with the
count of its transactions. -/
structure Leader where
  nextNumber : Nat
  openBatch : Option (BatchToStore × Nat)

namespace Leader

/-- Transactions of the in-progress batch, numbered by the last number handed out. -/
def addTxs (l : Leader) (number index count : Nat) : Option Leader :=
  match l.openBatch with
  | some (b, held) =>
    if number + 1 = l.nextNumber ∧ index = held then some { l with openBatch := some (b, held + count) } else none
  | none => none

def call (l : Leader) : DbCall Tx TxHash → Option Leader
  | .beginRollupBlock b =>
    if l.openBatch.isNone ∧ l.nextNumber ≤ b.sequenceNumber then some ⟨b.sequenceNumber + 1, some (b, 0)⟩ else none
  | .addTx number index _ _ => l.addTxs number index 1
  | .batchAddTxs number index txs => l.addTxs number index txs.length
  | .endRollupBlock b =>
    if l.openBatch.map fst = some b then some { l with openBatch := none } else none
  | .addProofBlob number _ _ =>
    if l.nextNumber ≤ number then some { l with nextNumber := number + 1 } else none
  | .prune n => if n < l.nextNumber then some l else none

end Leader

def SnapshotData.nextSequenceNumber (data : SnapshotData Tx TxHash) : Nat :=
  match data.completedBlobs.getLast?, data.inProgressBatch with
  | some blob, none => blob.sequenceNumber + 1
  | none, some b => b.sequenceNumber + 1
  | some blob, some b => max blob.sequenceNumber b.sequenceNumber + 1
  | none, none => 0

/-- A restart numbers on above the snapshot, whose blobs are listed by number. -/
theorem SnapshotData.lt_nextSequenceNumber {data : SnapshotData Tx TxHash}
    (hSorted : data.completedBlobs.Pairwise fun x y => x.sequenceNumber < y.sequenceNumber) :
    (∀ blob ∈ data.completedBlobs, blob.sequenceNumber < data.nextSequenceNumber) ∧
      ∀ b ∈ data.inProgressBatch, b.sequenceNumber < data.nextSequenceNumber := by
  unfold nextSequenceNumber
  cases hLast : data.completedBlobs.getLast? with
  | none =>
    rw [getLast?_eq_none_iff.mp hLast]
    refine ⟨by simp, fun b hb => ?_⟩
    rw [hb]
    exact Nat.lt_succ_self _
  | some last =>
    obtain ⟨before, hBlobs⟩ := getLast?_eq_some_iff.mp hLast
    have hBelow : ∀ blob ∈ data.completedBlobs, blob.sequenceNumber ≤ last.sequenceNumber := by
      intro blob hBlob
      rw [hBlobs] at hSorted hBlob
      rcases mem_append.mp hBlob with hBefore | hHere
      · exact ((pairwise_append.mp hSorted).2.2 blob hBefore last (mem_singleton.mpr rfl)).le
      · rw [mem_singleton.mp hHere]
    cases hOpen : data.inProgressBatch with
    | none => exact ⟨fun blob hBlob => Nat.lt_succ_of_le (hBelow blob hBlob), by simp⟩
    | some b =>
      refine ⟨fun blob hBlob => Nat.lt_succ_of_le ((hBelow blob hBlob).trans (le_max_left _ _)), ?_⟩
      intro b' hb'
      cases hb'
      exact Nat.lt_succ_of_le (le_max_right _ _)

/-- Both backends after the same calls, beside a database that is never pruned and the list of what
has been pruned. -/
structure Backends (Tx TxHash : Type) where
  leader : Leader
  rocks : RocksDb Tx TxHash
  postgres : Postgres Tx TxHash
  unpruned : RocksDb Tx TxHash
  pruned : List Nat

inductive CallError where
  | notMadeByLeader
  | rocks (cause : SequencerPanic)
  | postgres (cause : DbError)

namespace Backends

def start : Backends Tx TxHash := ⟨⟨0, none⟩, .empty, .empty, .empty, []⟩

def call (b : Backends Tx TxHash) (c : DbCall Tx TxHash) : Except CallError (Backends Tx TxHash) := do
  let leader ← unwrap .notMadeByLeader (b.leader.call c)
  let rocks ← (b.rocks.call c).mapError .rocks
  let postgres ← (b.postgres.call c).mapError .postgres
  match c with
  | .prune n => return { b with leader, rocks, postgres, pruned := n :: b.pruned }
  | c => do
      let unpruned ← (b.unpruned.call c).mapError .rocks
      return { b with leader, rocks, postgres, unpruned }

variable (b : Backends Tx TxHash)

/-- A number above everything that has been pruned. -/
def Kept (number : Nat) : Prop := ∀ n ∈ b.pruned, n < number

instance (b : Backends Tx TxHash) (number : Nat) : Decidable (b.Kept number) :=
  inferInstanceAs (Decidable (∀ n ∈ b.pruned, n < number))

def Stores (number : Nat) : Prop :=
  number ∈ b.rocks.completedBlobs.entries.map fst ∨ number ∈ b.rocks.inProgressBatch.map fst ∨
    number ∈ b.postgres.batchEnds.map fst ∨ number ∈ b.postgres.inProgressBatch.map fst ∨
    number ∈ b.postgres.proofBlobs.entries.map fst

/-- Both backends return the blobs above what has been pruned, and a restart numbers on above all
that is stored. -/
def Agree : Prop :=
  ∃ data all, b.rocks.currentData = .ok data ∧ b.postgres.currentData = .ok data ∧ b.unpruned.currentData = .ok all ∧
    data.completedBlobs = (all.completedBlobs.filter fun blob => b.Kept blob.sequenceNumber) ∧
    data.inProgressBatch = (all.inProgressBatch.filter fun batch => b.Kept batch.sequenceNumber) ∧
    ∀ number, b.Stores number → number < data.nextSequenceNumber

/-- No proof is added, and nothing is pruned while the next number has a completed blob or a transaction,
or past the in-progress batch. -/
def Safe : DbCall Tx TxHash → Prop
  | .addProofBlob .. => False
  | .prune n =>
    n + 1 ∉ b.rocks.completedBlobs.entries.map fst ∧
      ∀ o ∈ b.leader.openBatch, n < o.1.sequenceNumber ∧ (o.1.sequenceNumber = n + 1 → o.2 = 0)
  | _ => True

abbrev begun (batch : BatchToStore) : Backends Tx TxHash :=
  { b with
    leader := ⟨batch.sequenceNumber + 1, some (batch, 0)⟩
    rocks := b.rocks.beginRollupBlock batch
    postgres := { b.postgres with
      inProgressBatch := some (batch.sequenceNumber, batch.toStoredBlob)
      : Postgres Tx TxHash }.insertEvent batch.sequenceNumber (.batchStart batch.toStoredBlob)
    unpruned := b.unpruned.beginRollupBlock batch }

abbrev added (batch : BatchToStore) (number count : Nat) (txs : List (Tx × TxHash)) : Backends Tx TxHash :=
  { b with
    leader := { b.leader with openBatch := some (batch, count + txs.length) }
    rocks := b.rocks.batchAddTxs number count txs
    postgres := b.postgres.insertTxs number count txs
    unpruned := b.unpruned.batchAddTxs number count txs }

abbrev ended (batch : BatchToStore) : Backends Tx TxHash :=
  { b with
    leader := { b.leader with openBatch := none }
    rocks := b.rocks.endRollupBlock batch
    postgres := { b.postgres with inProgressBatch := none : Postgres Tx TxHash }.insertEvent
      batch.sequenceNumber (.batchEnd batch.toStoredBlob)
    unpruned := b.unpruned.endRollupBlock batch }

abbrev prunedUpTo (n : Nat) (rocks : RocksDb Tx TxHash) : Backends Tx TxHash :=
  { b with rocks, postgres := b.postgres.deleteUpTo (n + 1), pruned := n :: b.pruned }

inductive Step (b : Backends Tx TxHash) : DbCall Tx TxHash → Backends Tx TxHash → Prop where
  | begun {batch : BatchToStore} (hNone : b.leader.openBatch = none)
      (hNumber : b.leader.nextNumber ≤ batch.sequenceNumber) :
      Step b (.beginRollupBlock batch) (b.begun batch)
  | added {c : DbCall Tx TxHash} {number count : Nat} {batch : BatchToStore} {txs : List (Tx × TxHash)}
      (hOpen : b.leader.openBatch = some (batch, count)) (hNumber : number + 1 = b.leader.nextNumber)
      (hSafe : b.Safe c) : Step b c (b.added batch number count txs)
  | ended {batch : BatchToStore} {count : Nat} (hOpen : b.leader.openBatch = some (batch, count)) :
      Step b (.endRollupBlock batch) (b.ended batch)
  | proof {number blobId : Nat} {data : List UInt8} (hNumber : b.leader.nextNumber ≤ number) :
      Step b (.addProofBlob number blobId data)
        { b with
          leader := { b.leader with nextNumber := number + 1 }
          rocks := b.rocks.addProofBlob number blobId data
          postgres := { b.postgres with
            proofBlobs := b.postgres.proofBlobs.insert number (.proof blobId data)
            : Postgres Tx TxHash }.insertEvent number .newProof
          unpruned := b.unpruned.addProofBlob number blobId data }
  | pruned {n : Nat} {rocks : RocksDb Tx TxHash} (hNumber : n < b.leader.nextNumber) (hFits : n < u64Max)
      (hRocks : b.rocks.prune n = .ok rocks) : Step b (.prune n) (b.prunedUpTo n rocks)

theorem addTxs_eq_some {l l' : Leader} {number index count : Nat} (h : l.addTxs number index count = some l') :
    ∃ batch, l.openBatch = some (batch, index) ∧ number + 1 = l.nextNumber ∧
      l' = { l with openBatch := some (batch, index + count) } := by
  unfold Leader.addTxs at h
  split at h
  · rename_i batch held hOpen
    split at h
    · rename_i hGuard
      obtain ⟨hNumber, rfl⟩ := hGuard
      cases h
      exact ⟨batch, hOpen, hNumber, rfl⟩
    · cases h
  · cases h

theorem call_step {b b' : Backends Tx TxHash} {c : DbCall Tx TxHash} (h : b.call c = .ok b') : Step b c b' := by
  simp only [call, bind_eq_ok, unwrap_eq_ok, mapError_eq_ok] at h
  obtain ⟨leader, hLeader, rocks, hRocks, postgres, hPg, h⟩ := h
  cases c with
  | beginRollupBlock batch =>
    simp only [Leader.call] at hLeader
    split at hLeader
    · rename_i hGuard
      obtain ⟨hNone, hNumber⟩ := hGuard
      simp only [Postgres.call, Postgres.beginRollupBlock, bind_eq_ok] at hPg
      obtain ⟨_, -, _, -, hPg⟩ := hPg
      cases hLeader; cases hRocks; cases hPg; cases h
      exact .begun (Option.isNone_iff_eq_none.mp hNone) hNumber
    · cases hLeader
  | addTx number index tx hash =>
    obtain ⟨batch, hOpen, hNumber, rfl⟩ := addTxs_eq_some hLeader
    simp only [Postgres.call, Postgres.addTx, bind_eq_ok] at hPg
    obtain ⟨_, -, _, -, hPg⟩ := hPg
    cases hRocks; cases hPg; cases h
    exact @Step.added _ _ b _ number index batch [(tx, hash)] hOpen hNumber trivial
  | batchAddTxs number index txs =>
    obtain ⟨batch, hOpen, hNumber, rfl⟩ := addTxs_eq_some hLeader
    simp only [Postgres.call, Postgres.batchAddTxs, bind_eq_ok] at hPg
    obtain ⟨_, -, _, -, _, -, hPg⟩ := hPg
    cases hRocks; cases hPg; cases h
    exact .added hOpen hNumber trivial
  | endRollupBlock batch =>
    simp only [Leader.call] at hLeader
    split at hLeader
    · obtain ⟨⟨_, count⟩, hOpen, rfl⟩ := Option.map_eq_some_iff.mp ‹_›
      simp only [Postgres.call, Postgres.endRollupBlock, bind_eq_ok] at hPg
      obtain ⟨_, -, _, -, hPg⟩ := hPg
      cases hLeader; cases hRocks; cases hPg; cases h
      exact .ended hOpen
    · cases hLeader
  | addProofBlob number blobId data =>
    simp only [Leader.call] at hLeader
    split at hLeader
    · simp only [Postgres.call, Postgres.addProofBlob, bind_eq_ok] at hPg
      obtain ⟨_, -, _, -, hPg⟩ := hPg
      cases hLeader; cases hRocks; cases hPg; cases h
      exact .proof ‹_›
    · cases hLeader
  | prune n =>
    simp only [Leader.call] at hLeader
    split at hLeader
    · simp only [Postgres.call, Postgres.prune, bind_eq_ok, ensure_eq_ok] at hPg
      obtain ⟨_, hBound, hPg⟩ := hPg
      have hFits : n < u64Max := by
        unfold saturatingAdd i64Max at hBound
        unfold u64Max at hBound ⊢
        omega
      have hSum : saturatingAdd u64Max n 1 = n + 1 := Nat.min_eq_left hFits
      rw [hSum] at hPg
      cases hLeader; cases hPg; cases h
      exact .pruned ‹_› hFits hRocks
    · cases hLeader

end Backends
end SovereignSdk
