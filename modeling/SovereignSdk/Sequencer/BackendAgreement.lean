import SovereignSdk.Sequencer.Backends

/-! The two backends return the same data until a proof is added or the pruning of Postgres reaches a
number too far. -/
namespace SovereignSdk
open Outcome Bounded RocksDb List SnapshotData OrderedMap

variable {Tx TxHash : Type}

def BatchToStore.read (b : BatchToStore) (contents : List (TxHash × Tx)) : ReadBatch Tx TxHash :=
  ⟨b.sequenceNumber, b.visibleSlotNumberAfterIncrease, b.visibleSlotsToAdvance, b.blobId,
    contents.map Prod.snd, contents.map Prod.fst⟩

namespace RocksDb

theorem readBlob_sequenceNumber (db : RocksDb Tx TxHash) (number : Nat) (stored : StoredBlob) :
    (db.readBlob number stored).sequenceNumber = number := by
  cases stored <;> rfl

theorem currentData_of_header {db : RocksDb Tx TxHash} {o : Option (BatchToStore × Nat)}
    (h : db.inProgressBatch = o.map fun o => (o.1.sequenceNumber, o.1.toStoredBlob)) :
    db.currentData = .ok ⟨db.readCompletedBlobs, o.map fun o => o.1.read (db.contents o.1.sequenceNumber)⟩ := by
  unfold currentData readInProgressBatch
  rw [h]
  cases o <;> rfl

end RocksDb

namespace Postgres

variable {db : Postgres Tx TxHash}

theorem currentData_of_header {o : Option (BatchToStore × Nat)}
    (h : db.inProgressBatch = o.map fun o => (o.1.sequenceNumber, o.1.toStoredBlob)) :
    db.currentData = .ok ⟨db.readCompletedBlobs, o.map fun o => o.1.read (db.contents o.1.sequenceNumber)⟩ := by
  unfold currentData readInProgressBatch
  rw [h]
  cases o <;> rfl

theorem readBlob_sequenceNumber (db : Postgres Tx TxHash) (number : Nat) (stored : StoredBlob) :
    (db.readBlob number stored).sequenceNumber = number := by
  cases stored <;> rfl

theorem contents_of_rows {other : RocksDb Tx TxHash} {number : Nat} (h : db.rows number = other.rows number) :
    db.contents number = other.contents number := by
  unfold contents
  rw [h, ((other.rows_ascending number).imp fun hlt => hlt.le).insertionSort_eq, other.contents_eq_rows]

theorem readBlob_of_rows {other : RocksDb Tx TxHash} {number : Nat} (h : db.rows number = other.rows number)
    (stored : StoredBlob) : db.readBlob number stored = other.readBlob number stored := by
  cases stored with
  | batch => simp only [readBlob, RocksDb.readBlob, contents_of_rows h]
  | proof => rfl

end Postgres

namespace Backends

/-- The backends hold the same rows above what has been pruned. -/
structure InStep (b : Backends Tx TxHash) : Prop where
  ends : b.postgres.batchEnds = b.rocks.completedBlobs.entries
  noProofs : b.postgres.proofBlobs.entries = []
  rocksOpen : b.rocks.inProgressBatch = b.leader.openBatch.map fun o => (o.1.sequenceNumber, o.1.toStoredBlob)
  postgresOpen : b.postgres.inProgressBatch = b.leader.openBatch.map fun o => (o.1.sequenceNumber, o.1.toStoredBlob)
  unprunedOpen : b.unpruned.inProgressBatch = b.leader.openBatch.map fun o => (o.1.sequenceNumber, o.1.toStoredBlob)
  rows : ∀ number, b.Kept number →
    b.postgres.rows number = b.rocks.rows number ∧ b.unpruned.rows number = b.rocks.rows number
  completed : b.rocks.completedBlobs.entries = b.unpruned.completedBlobs.entries.filter fun e => b.Kept e.1
  completedBelow : ∀ e ∈ b.unpruned.completedBlobs.entries, e.1 < b.leader.nextNumber ∧
    ∀ o ∈ b.leader.openBatch, e.1 < o.1.sequenceNumber
  openLast : ∀ o ∈ b.leader.openBatch, o.1.sequenceNumber + 1 = b.leader.nextNumber ∧ b.Kept o.1.sequenceNumber ∧
    (b.rocks.rows o.1.sequenceNumber).map Prod.fst = range o.2
  owned : ∀ number, b.Kept number → b.rocks.rows number ≠ [] →
    number ∈ b.rocks.completedBlobs.entries.map Prod.fst ∨ ∃ o ∈ b.leader.openBatch, o.1.sequenceNumber = number
  prunedBelow : ∀ n ∈ b.pruned, n < b.leader.nextNumber
  first : ∀ number, b.Kept number ↔ b.rocks.firstUnprunedSequenceNumber ≤ number

namespace InStep
variable {b : Backends Tx TxHash}

theorem start : (start : Backends Tx TxHash).InStep where
  ends := rfl
  noProofs := rfl
  rocksOpen := rfl
  postgresOpen := rfl
  unprunedOpen := rfl
  rows := fun _ _ => ⟨rfl, rfl⟩
  completed := rfl
  completedBelow := nofun
  openLast := nofun
  owned := fun _ _ h => absurd rfl h
  prunedBelow := nofun
  first := fun number => iff_of_true (nofun) (Nat.zero_le number)

theorem completed_kept (h : b.InStep) : ∀ e ∈ b.rocks.completedBlobs.entries, b.Kept e.1 := by
  intro e he
  rw [h.completed] at he
  exact of_decide_eq_true (mem_filter.mp he).2

theorem completed_unpruned (h : b.InStep) :
    ∀ e ∈ b.rocks.completedBlobs.entries, e ∈ b.unpruned.completedBlobs.entries := by
  intro e he
  rw [h.completed] at he
  exact (mem_filter.mp he).1

variable {number : Nat}

section
variable (h : b.InStep)
include h

theorem kept_next (hNum : b.leader.nextNumber ≤ number) : b.Kept number :=
  fun n hn => (h.prunedBelow n hn).trans_le hNum

theorem rows_next (hNum : b.leader.nextNumber ≤ number) : b.rocks.rows number = [] := by
  by_contra hRows
  rcases h.owned number (h.kept_next hNum) hRows with hMem | ⟨o, ho, rfl⟩
  · obtain ⟨e, he, rfl⟩ := mem_map.mp hMem
    exact absurd hNum (not_le.mpr (h.completedBelow e (h.completed_unpruned e he)).1)
  · have := (h.openLast o ho).1
    omega

theorem readCompletedBlobs_eq : b.postgres.readCompletedBlobs = b.rocks.readCompletedBlobs := by
  unfold Postgres.readCompletedBlobs
  rw [h.ends, (b.rocks.completedBlobs.ascending.imp fun hlt => hlt.le).insertionSort_eq]
  exact map_congr_left fun e he => Postgres.readBlob_of_rows (h.rows e.1 (h.completed_kept e he)).1 e.2

theorem readCompletedBlobs_kept :
    b.rocks.readCompletedBlobs = b.unpruned.readCompletedBlobs.filter fun blob => b.Kept blob.sequenceNumber := by
  unfold readCompletedBlobs
  rw [filter_map, h.completed]
  have hFilter : (b.unpruned.completedBlobs.entries.filter
      ((fun blob => decide (b.Kept blob.sequenceNumber)) ∘ fun e => b.unpruned.readBlob e.1 e.2)) =
      b.unpruned.completedBlobs.entries.filter fun e => b.Kept e.1 := by
    refine filter_congr fun e _ => ?_
    simp only [Function.comp_apply, readBlob_sequenceNumber]
  rw [hFilter]
  refine map_congr_left fun e he => ?_
  have hKept : b.Kept e.1 := of_decide_eq_true (mem_filter.mp he).2
  refine readBlob_congr ?_ e.2
  rw [contents_eq_rows, contents_eq_rows, (h.rows e.1 hKept).2]

theorem stores_lt (number : Nat) (hStores : b.Stores number) :
    number < nextSequenceNumber ⟨b.rocks.readCompletedBlobs,
      b.leader.openBatch.map fun o => o.1.read (b.rocks.contents o.1.sequenceNumber)⟩ := by
  have hSorted : b.rocks.readCompletedBlobs.Pairwise fun x y => x.sequenceNumber < y.sequenceNumber := by
    refine pairwise_map.mpr (b.rocks.completedBlobs.ascending.imp fun hlt => ?_)
    simpa only [readBlob_sequenceNumber] using hlt
  obtain ⟨hBlobs, hBatch⟩ := @lt_nextSequenceNumber _ _ ⟨b.rocks.readCompletedBlobs,
    b.leader.openBatch.map fun o => o.1.read (b.rocks.contents o.1.sequenceNumber)⟩ hSorted
  generalize nextSequenceNumber _ = next at hBlobs hBatch ⊢
  have hCompl : number ∈ b.rocks.completedBlobs.entries.map Prod.fst → number < next := by
    intro hMem
    obtain ⟨e, he, rfl⟩ := mem_map.mp hMem
    have hBlob := hBlobs _ (mem_map_of_mem he)
    rwa [readBlob_sequenceNumber] at hBlob
  have hOpen : number ∈ (b.leader.openBatch.map fun o => (o.1.sequenceNumber, o.1.toStoredBlob)).map Prod.fst →
      number < next := by
    intro hMem
    obtain ⟨_, hMap, rfl⟩ := Option.map_eq_some_iff.mp hMem
    obtain ⟨o, ho, rfl⟩ := Option.map_eq_some_iff.mp hMap
    exact hBatch _ (Option.map_eq_some_iff.mpr ⟨o, ho, rfl⟩)
  rcases hStores with hMem | hMem | hMem | hMem | hMem
  · exact hCompl hMem
  · exact hOpen (h.rocksOpen ▸ hMem)
  · exact hCompl (h.ends ▸ hMem)
  · exact hOpen (h.postgresOpen ▸ hMem)
  · rw [h.noProofs] at hMem
    cases hMem

theorem agree : b.Agree := by
  refine ⟨_, _, currentData_of_header h.rocksOpen, ?_, currentData_of_header h.unprunedOpen,
    h.readCompletedBlobs_kept, ?_, h.stores_lt⟩
  · rw [Postgres.currentData_of_header h.postgresOpen, h.readCompletedBlobs_eq]
    cases hOpen : b.leader.openBatch with
    | none => rfl
    | some o =>
      have hRows := (h.rows _ (h.openLast o hOpen).2.1).1
      simp only [Option.map_some, Postgres.contents_of_rows hRows]
  · cases hOpen : b.leader.openBatch with
    | none => rfl
    | some o =>
      have hKept := (h.openLast o hOpen).2.1
      have hContents : b.unpruned.contents o.1.sequenceNumber = b.rocks.contents o.1.sequenceNumber := by
        rw [contents_eq_rows, contents_eq_rows, (h.rows _ hKept).2]
      simp only [Option.map_some, hContents]
      exact (if_pos (decide_eq_true hKept)).symm

end

variable {batch : BatchToStore}

theorem begun (h : b.InStep) (hNone : b.leader.openBatch = none) (hNum : b.leader.nextNumber ≤ batch.sequenceNumber) :
    (b.begun batch).InStep where
  ends := by
    rw [Postgres.batchEnds_insertEvent, append_nil]
    exact h.ends
  noProofs := h.noProofs
  rocksOpen := rfl
  postgresOpen := rfl
  unprunedOpen := rfl
  rows := by
    intro number hKept
    rw [Postgres.rows_insertEvent, append_nil]
    exact h.rows number hKept
  completed := h.completed
  completedBelow := by
    intro e he
    have hBelow := (h.completedBelow e he).1.trans_le hNum
    refine ⟨Nat.lt_succ_of_lt hBelow, ?_⟩
    rintro o ⟨⟩
    exact hBelow
  openLast := by
    rintro o ⟨⟩
    exact ⟨rfl, h.kept_next hNum, congrArg (map Prod.fst) (h.rows_next hNum)⟩
  owned := by
    intro number hKept hRows
    rcases h.owned number hKept hRows with hMem | ⟨o, ho, -⟩
    · exact .inl hMem
    · rw [hNone] at ho
      cases ho
  prunedBelow := fun n hn => Nat.lt_succ_of_lt ((h.prunedBelow n hn).trans_le hNum)
  first := h.first

theorem added (h : b.InStep) {number count} (txs : List (Tx × TxHash))
    (hOpen : b.leader.openBatch = some (batch, count)) (hNum : number + 1 = b.leader.nextNumber) :
    (b.added batch number count txs).InStep := by
  obtain ⟨hLast, hKept, hIdx⟩ := h.openLast _ hOpen
  have hSame : number = batch.sequenceNumber := Nat.succ_injective (hNum.trans hLast.symm)
  subst hSame
  have hBelow : ∀ row ∈ b.rocks.rows batch.sequenceNumber, row.1 < count := by
    intro row hRow
    have hMem := hIdx ▸ mem_map_of_mem hRow
    exact mem_range.mp hMem
  have hRocks := b.rocks.rows_batchAddTxs txs hBelow
  exact
  { ends := by
      rw [Postgres.insertTxs_batchEnds, (batchAddTxs_keeps ..).1]
      exact h.ends
    noProofs := by
      rw [(Postgres.insertTxs_keeps ..).1]
      exact h.noProofs
    rocksOpen := by
      rw [(batchAddTxs_keeps ..).2.1, h.rocksOpen, hOpen]
      rfl
    postgresOpen := by
      rw [(Postgres.insertTxs_keeps ..).2, h.postgresOpen, hOpen]
      rfl
    unprunedOpen := by
      rw [(batchAddTxs_keeps ..).2.1, h.unprunedOpen, hOpen]
      rfl
    rows := by
      intro other hOther
      obtain ⟨hPg, hUnpruned⟩ := h.rows other hOther
      by_cases hSame : other = batch.sequenceNumber
      · subst hSame
        rw [hRocks, Postgres.rows_insertTxs, hPg, b.unpruned.rows_batchAddTxs txs (hUnpruned ▸ hBelow), hUnpruned]
        exact ⟨rfl, rfl⟩
      · rw [Postgres.rows_insertTxs_other _ _ _ hSame, rows_batchAddTxs_other _ _ _ hSame,
          rows_batchAddTxs_other _ _ _ hSame]
        exact ⟨hPg, hUnpruned⟩
    completed := by
      rw [(batchAddTxs_keeps ..).1, (batchAddTxs_keeps ..).1]
      exact h.completed
    completedBelow := by
      intro e he
      rw [(RocksDb.batchAddTxs_keeps ..).1] at he
      refine ⟨(h.completedBelow e he).1, ?_⟩
      rintro o ⟨⟩
      exact (h.completedBelow e he).2 (batch, count) hOpen
    openLast := by
      rintro o ⟨⟩
      refine ⟨hLast, hKept, ?_⟩
      rw [hRocks, map_append, hIdx, txRows_indices, range_eq_range', range_eq_range']
      simpa using @range'_append_1 0 count txs.length
    owned := by
      intro other hOther hRows
      by_cases hSame : other = batch.sequenceNumber
      · exact .inr ⟨_, rfl, hSame.symm⟩
      · rw [(batchAddTxs_keeps ..).1]
        rw [rows_batchAddTxs_other _ _ _ hSame] at hRows
        rcases h.owned other hOther hRows with hMem | ⟨o, ho, rfl⟩
        · exact .inl hMem
        · cases hOpen.symm.trans ho
          exact absurd rfl hSame
    prunedBelow := h.prunedBelow
    first := by
      intro other
      rw [(batchAddTxs_keeps ..).2.2]
      exact h.first other }

theorem ended (h : b.InStep) {count} (hOpen : b.leader.openBatch = some (batch, count)) :
    (b.ended batch).InStep := by
  obtain ⟨hLast, hKept, -⟩ := h.openLast _ hOpen
  have hUnpruned : (b.unpruned.endRollupBlock batch).completedBlobs.entries =
      b.unpruned.completedBlobs.entries ++ [(batch.sequenceNumber, batch.toStoredBlob)] :=
    insert_last fun e he => (h.completedBelow e he).2 _ hOpen
  have hRocks : (b.rocks.endRollupBlock batch).completedBlobs.entries =
      b.rocks.completedBlobs.entries ++ [(batch.sequenceNumber, batch.toStoredBlob)] :=
    insert_last fun e he => (h.completedBelow e (h.completed_unpruned e he)).2 _ hOpen
  exact
  { ends := by
      rw [Postgres.batchEnds_insertEvent, hRocks, ← h.ends]
      rfl
    noProofs := h.noProofs
    rocksOpen := rfl
    postgresOpen := rfl
    unprunedOpen := rfl
    rows := by
      intro number hNum
      rw [Postgres.rows_insertEvent, append_nil]
      exact h.rows number hNum
    completed := by
      rw [hRocks, hUnpruned, filter_append, h.completed]
      have hSelf : ([(batch.sequenceNumber, batch.toStoredBlob)].filter fun e => decide (b.Kept e.1)) =
          [(batch.sequenceNumber, batch.toStoredBlob)] := by simp [hKept]
      exact congrArg (List.append _) hSelf.symm
    completedBelow := by
      intro e he
      refine ⟨?_, by rintro o ⟨⟩⟩
      rw [hUnpruned, mem_append, mem_singleton] at he
      rcases he with he | rfl
      · exact (h.completedBelow e he).1
      · exact hLast ▸ Nat.lt_succ_self _
    openLast := by rintro o ⟨⟩
    owned := by
      intro number hNum hRows
      left
      rw [hRocks, map_append, mem_append]
      rcases h.owned number hNum hRows with hMem | ⟨o, ho, rfl⟩
      · exact .inl hMem
      · cases hOpen.symm.trans ho
        exact .inr (mem_singleton.mpr rfl)
    prunedBelow := h.prunedBelow
    first := h.first }

theorem kept_cons {n pruned} :
    (∀ m ∈ n :: pruned, m < number) ↔ n < number ∧ ∀ m ∈ pruned, m < number := forall_mem_cons

theorem rocks_pruned (h : b.InStep) {n rocks} (hRocks : b.rocks.prune n = .ok rocks) :
    rocks.completedBlobs.entries = (b.rocks.completedBlobs.entries.filter fun e => n < e.1) ∧
      rocks.inProgressBatch = b.rocks.inProgressBatch ∧
      (∀ number, n < number → rocks.rows number = b.rocks.rows number) ∧
      rocks.firstUnprunedSequenceNumber = max b.rocks.firstUnprunedSequenceNumber (n + 1) :=
  prune_ok hRocks fun e he => (h.first e.1).mp (h.completed_kept e he)

theorem pruned (h : b.InStep) {n rocks} (hNum : n < b.leader.nextNumber)
    (hRocks : b.rocks.prune n = .ok rocks) (hSafe : b.Safe (.prune n)) :
    (b.prunedUpTo n rocks).InStep := by
  obtain ⟨hCompl, hHeader, hRows, hFirst⟩ := h.rocks_pruned hRocks
  obtain ⟨hFree, hOpen⟩ := hSafe
  -- nothing is stored under the number that Postgres prunes in excess
  have hNext : ∀ number, b.Kept number → number = n + 1 → b.rocks.rows number = [] := by
    rintro number hKept rfl
    by_contra hSome
    rcases h.owned _ hKept hSome with hMem | ⟨o, ho, hSame⟩
    · exact hFree hMem
    · have hIdx := (h.openLast o ho).2.2
      rw [(hOpen o ho).2 hSame, range_zero, map_eq_nil_iff, hSame] at hIdx
      exact hSome hIdx
  exact
  { ends := by
      refine (b.postgres.batchEnds_deleteUpTo (n + 1)).trans ?_
      rw [hCompl, h.ends]
      refine filter_congr fun e he => decide_eq_decide.mpr ?_
      have : e.1 ≠ n + 1 := fun hSame => hFree (hSame ▸ mem_map_of_mem he)
      omega
    noProofs := by
      show filter _ _ = _
      rw [h.noProofs, filter_nil]
    rocksOpen := hHeader.trans h.rocksOpen
    postgresOpen := h.postgresOpen
    unprunedOpen := h.unprunedOpen
    rows := by
      intro number hKept
      obtain ⟨hAbove, hKept⟩ := kept_cons.mp hKept
      obtain ⟨hPg, hUnpruned⟩ := h.rows number hKept
      refine ⟨(b.postgres.rows_deleteUpTo (n + 1) number).trans ?_, hUnpruned.trans (hRows number hAbove).symm⟩
      rw [hRows number hAbove]
      split
      · exact (hNext number hKept (by omega)).symm
      · exact hPg
    completed := by
      rw [hCompl, h.completed, filter_filter]
      refine filter_congr fun e _ => ?_
      rw [← Bool.decide_and]
      exact decide_eq_decide.mpr kept_cons.symm
    completedBelow := h.completedBelow
    openLast := by
      intro o ho
      obtain ⟨hLast, hKept, hIdx⟩ := h.openLast o ho
      have hAbove := (hOpen o ho).1
      exact ⟨hLast, kept_cons.mpr ⟨hAbove, hKept⟩, (hRows _ hAbove).symm ▸ hIdx⟩
    owned := by
      intro number hKept hSome
      obtain ⟨hAbove, hKept⟩ := kept_cons.mp hKept
      rw [hRows number hAbove] at hSome
      refine (h.owned number hKept hSome).imp_left fun hMem => ?_
      obtain ⟨e, he, rfl⟩ := mem_map.mp hMem
      exact mem_map_of_mem (hCompl ▸ mem_filter.mpr ⟨he, decide_eq_true hAbove⟩)
    prunedBelow := forall_mem_cons.mpr ⟨hNum, h.prunedBelow⟩
    first := by
      intro number
      rw [hFirst]
      refine kept_cons.trans ?_
      rw [max_le_iff, and_comm]
      exact and_congr_left fun _ => h.first number }

/-- A call that is safe keeps the backends in step. -/
theorem step (h : b.InStep) {c b'} (hStep : Step b c b') (hSafe : b.Safe c) : b'.InStep := by
  cases hStep with
  | begun hNone hNum => exact h.begun hNone hNum
  | added hOpen hNum => exact h.added _ hOpen hNum
  | ended hOpen => exact h.ended hOpen
  | proof => exact hSafe.elim
  | pruned hNum _ hRocks => exact h.pruned hNum hRocks hSafe

end InStep

/-! After a call that is not safe the backends differ. -/

theorem Agree.same {b : Backends Tx TxHash} (agree : b.Agree)
    (hRocks : b.rocks.inProgressBatch = b.leader.openBatch.map fun o => (o.1.sequenceNumber, o.1.toStoredBlob))
    (hPg : b.postgres.inProgressBatch = b.leader.openBatch.map fun o => (o.1.sequenceNumber, o.1.toStoredBlob)) :
    b.postgres.readCompletedBlobs = b.rocks.readCompletedBlobs ∧ ∀ o ∈ b.leader.openBatch, b.Kept o.1.sequenceNumber ∧
        (b.postgres.contents o.1.sequenceNumber).length = (b.rocks.contents o.1.sequenceNumber).length := by
  obtain ⟨data, all, hData, hData', -, -, hOpen, -⟩ := agree
  cases (currentData_of_header hRocks).symm.trans hData
  have hSame := Except.ok.inj ((Postgres.currentData_of_header hPg).symm.trans hData')
  injection hSame with hCompl hBatch
  refine ⟨hCompl, fun o ho => ?_⟩
  rw [ho, Option.map_some] at hBatch
  rw [ho] at hOpen
  have hTxs := congrArg ReadBatch.txs (Option.some.inj hBatch)
  have hKept := (Option.filter_eq_some_iff.mp hOpen.symm).2
  exact ⟨of_decide_eq_true hKept, by simpa [BatchToStore.read] using congrArg length hTxs⟩

namespace InStep
variable {b b' : Backends Tx TxHash}

theorem proof_differs (h : b.InStep) {number blobId : Nat} {data}
    (hStep : Step b (.addProofBlob number blobId data) b') : ¬b'.Agree := by
  intro agree
  cases hStep with
  | added _ _ hSafe => exact hSafe
  | proof hNum =>
    have hNew : ∀ e ∈ b.rocks.completedBlobs.entries, e.1 ≠ number := by
      intro e he
      exact ((h.completedBelow e (h.completed_unpruned e he)).1.trans_le hNum).ne
    have hLonger := (@insert_perm _ _ _ number b.rocks.completedBlobs (.proof blobId data) hNew).length_eq
    have hLen := congrArg length (agree.same h.rocksOpen h.postgresOpen).1
    simp only [Postgres.readCompletedBlobs, readCompletedBlobs, length_map, length_insertionSort,
      Postgres.batchEnds_insertEvent, append_nil] at hLen
    have hEnds : b.postgres.batchEnds.length = _ := congrArg length h.ends
    have hSame : b.postgres.batchEnds.length = b.rocks.completedBlobs.entries.length + 1 :=
      hLen.trans hLonger
    omega

theorem prune_differs (h : b.InStep) {n : Nat} (hStep : Step b (.prune n) b') (agree : b'.Agree) :
    b.Safe (.prune n) := by
  cases hStep with
  | added _ _ hSafe => exact hSafe
  | @pruned _ rocks _ _ hPrune =>
    obtain ⟨hCompl, hHeader, hRows, -⟩ := h.rocks_pruned hPrune
    obtain ⟨hBlobs, hOpen⟩ := agree.same (hHeader.trans h.rocksOpen) h.postgresOpen
    refine ⟨fun hMem => ?_, fun o ho => ?_⟩
    · -- the blob is read from RocksDB, but not from Postgres
      obtain ⟨e, he, _⟩ := mem_map.mp hMem
      have hRead : rocks.readBlob e.1 e.2 ∈ rocks.readCompletedBlobs := by
        refine mem_map.mpr ⟨e, ?_, rfl⟩
        rw [hCompl]
        exact mem_filter.mpr ⟨he, decide_eq_true (by omega)⟩
      have hRead := hBlobs ▸ hRead
      obtain ⟨d, hd, hSame⟩ := mem_map.mp hRead
      rw [mem_insertionSort, Postgres.batchEnds_deleteUpTo, mem_filter, decide_eq_true_eq] at hd
      have hSame := congrArg ReadBlob.sequenceNumber hSame
      rw [readBlob_sequenceNumber, Postgres.readBlob_sequenceNumber] at hSame
      omega
    · obtain ⟨hKept, hLen⟩ := hOpen o ho
      have hAbove : n < o.1.sequenceNumber := (kept_cons.mp hKept).1
      refine ⟨hAbove, fun hSame => ?_⟩
      have hPg : (b.postgres.deleteUpTo (n + 1)).rows o.1.sequenceNumber = [] := by
        rw [Postgres.rows_deleteUpTo, if_pos hSame.le]
      have hIdx := congrArg length (h.openLast o ho).2.2
      rw [length_map, length_range] at hIdx
      rw [Postgres.contents, hPg, contents_eq_rows, hRows _ hAbove, length_map, length_map, hIdx] at hLen
      exact hLen.symm

/-- The backends agree after a call just if it is safe. -/
theorem agree_iff (h : b.InStep) {c} (hStep : Step b c b') : b'.Agree ↔ b.Safe c := by
  refine ⟨fun agree => ?_, fun hSafe => (h.step hStep hSafe).agree⟩
  cases c with
  | addProofBlob => exact h.proof_differs hStep agree
  | prune => exact h.prune_differs hStep agree
  | beginRollupBlock | addTx | batchAddTxs | endRollupBlock => trivial

end InStep

theorem agree_along_iff {b final : Backends Tx TxHash} {calls : List (DbCall Tx TxHash)} (h : b.InStep)
    (hRun : calls.foldlM call b = .ok final) :
    (∀ made, made <+: calls → ∀ mid, made.foldlM call b = .ok mid → mid.Agree) ↔ Along call Safe b calls := by
  induction calls generalizing b with
  | nil =>
    refine iff_of_true ?_ trivial
    rintro made hMade mid hMid
    cases prefix_nil.mp hMade
    cases hMid
    exact h.agree
  | cons c calls ih =>
    rw [foldlM_cons, bind_eq_ok] at hRun
    obtain ⟨next, hCall, hRest⟩ := hRun
    have hStep := call_step hCall
    constructor
    · intro hAgree
      have hSafe : b.Safe c := by
        refine (h.agree_iff hStep).mp (hAgree [c] ⟨calls, rfl⟩ next ?_)
        rw [foldlM_cons, hCall]
        rfl
      refine ⟨hSafe, fun next' hCall' => ?_⟩
      cases hCall.symm.trans hCall'
      refine (ih (h.step hStep hSafe) hRest).mp fun made hMade mid hMid => ?_
      refine hAgree (c :: made) (prefix_cons_inj c |>.mpr hMade) mid ?_
      rw [foldlM_cons, hCall]
      exact hMid
    · rintro ⟨hSafe, hLater⟩ made hMade mid hMid
      cases made with
      | nil =>
        cases hMid
        exact h.agree
      | cons c' made =>
        obtain ⟨rfl, hLess⟩ := cons_prefix_cons.mp hMade
        rw [foldlM_cons, hCall] at hMid
        exact (ih (h.step hStep hSafe) hRest).mpr (hLater next hCall) made hLess mid hMid

/-- For every sequence of calls of the leader, the backends agree throughout just if every call is safe. -/
theorem backends_agree_iff {calls : List (DbCall Tx TxHash)} {final : Backends Tx TxHash}
    (hRun : calls.foldlM call start = .ok final) :
    (∀ made, made <+: calls → ∀ mid, made.foldlM call start = .ok mid → mid.Agree) ↔ Along call Safe start calls :=
  agree_along_iff InStep.start hRun

/-- Two batches with their transactions; the first one is pruned when the second has just begun. -/
theorem pruned_batch_agrees :
    ∃ final : Backends Nat Nat, [.beginRollupBlock ⟨10, 0, 1, 1⟩, .addTx 0 0 7 70, .batchAddTxs 0 1 [(8, 80)],
        .endRollupBlock ⟨10, 0, 1, 1⟩, .beginRollupBlock ⟨11, 1, 2, 1⟩, .prune 0, .addTx 1 0 9 90].foldlM call start =
          .ok final ∧ final.Agree := by
  refine exists_and_of returned fun hRun => (backends_agree_iff hRun).mpr ?_ _ prefix_rfl _ hRun
  iterate 5 refine (along_cons rfl).mpr ⟨trivial, ?_⟩
  refine (along_cons rfl).mpr ⟨⟨by decide, ?_⟩, trivial, fun _ _ => trivial⟩
  rintro _ ⟨⟩
  exact ⟨by decide, fun _ => rfl⟩

/-- Postgres forgets a completed batch above what is pruned, and never returns a proof; a restart then
hands out their numbers again. -/
theorem pruned_too_far :
    (∃ final : Backends Nat Nat,
      [.beginRollupBlock ⟨10, 0, 1, 1⟩, .endRollupBlock ⟨10, 0, 1, 1⟩, .beginRollupBlock ⟨11, 1, 2, 1⟩,
        .endRollupBlock ⟨11, 1, 2, 1⟩, .prune 0].foldlM call start = .ok final ∧
      final.rocks.currentData = .ok ⟨[.batch ⟨1, 2, 1, 11, [], []⟩], none⟩ ∧
      final.postgres.currentData = .ok ⟨[], none⟩) ∧
    ∃ final : Backends Nat Nat, [.addProofBlob 0 12 [5]].foldlM call start = .ok final ∧
      final.rocks.currentData = .ok ⟨[.proof 12 0 [5]], none⟩ ∧
      final.postgres.currentData = .ok ⟨[], none⟩ ∧ final.Stores 0 ∧
      nextSequenceNumber (⟨[], none⟩ : SnapshotData Nat Nat) = 0 := by
  refine ⟨⟨_, rfl, rfl, rfl⟩, ⟨_, rfl, rfl, rfl, .inl ?_, rfl⟩⟩
  exact mem_singleton.mpr rfl

end Backends
end SovereignSdk
