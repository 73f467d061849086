import SovereignSdk.Sequencer.SideEffects

/-! Whether a restart finds the blobs of the cache in the database. A transaction is stored under the
last sequence number handed out, which is that of its batch until a proof is published. -/
namespace SovereignSdk
open Outcome Bounded List OrderedMap RocksDb Nat

variable {Tx TxHash : Type}

namespace RocksDb

/-- The snapshot has the in-progress batch of the cache and its completed blobs, each with the same
number and transactions. The snapshot lists them by sequence number, the cache as they were completed. -/
def Restores (db : RocksDb Tx TxHash) (cache : BlobsCache Tx TxHash) : Prop :=
  ∃ data, db.currentData = .ok data ∧ data.inProgressBatch = cache.inProgressBatch ∧
    data.completedBlobs.Perm cache.completedBlobs

variable {number : Nat}

theorem readCompletedBlobs_insert (db : RocksDb Tx TxHash) (stored : StoredBlob)
    (h : ∀ e ∈ db.completedBlobs.entries, e.1 ≠ number) :
    ({ db with completedBlobs := db.completedBlobs.insert number stored }).readCompletedBlobs.Perm
      (db.readBlob number stored :: db.readCompletedBlobs) :=
  (insert_perm stored h).map fun e : Nat × StoredBlob => db.readBlob e.1 e.2

/-- The database says what the cache says, and all it stores has been numbered. -/
structure Mirrors (db : RocksDb Tx TxHash) (s : SequencerInner Tx TxHash) : Prop where
  completed : db.readCompletedBlobs.Perm s.cache.completedBlobs
  header : db.inProgressBatch = s.cache.inProgressBatch.map fun b => (b.sequenceNumber, b.toStore.toStoredBlob)
  txs : ∀ b, s.cache.inProgressBatch = some b →
    (db.contents b.sequenceNumber).map Prod.snd = b.txs ∧ (db.contents b.sequenceNumber).map Prod.fst = b.txHashes
  indices : ∀ b, s.cache.inProgressBatch = some b → ∀ row ∈ db.rows b.sequenceNumber, row.1 < b.txs.length
  openNumber : ∀ b, s.cache.inProgressBatch = some b →
    b.sequenceNumber < s.sequenceNumberOfNextBlob ∧ ∀ e ∈ db.completedBlobs.entries, e.1 ≠ b.sequenceNumber
  completedBelow : ∀ e ∈ db.completedBlobs.entries, e.1 < s.sequenceNumberOfNextBlob
  rowsAbove : ∀ number, s.sequenceNumberOfNextBlob ≤ number → db.rows number = []

namespace Mirrors
variable {db : RocksDb Tx TxHash} {s s' : SequencerInner Tx TxHash}

theorem start (next : Nat) : (empty : RocksDb Tx TxHash).Mirrors (.start next) where
  completed := List.Perm.nil
  header := rfl
  txs := nofun
  indices := nofun
  openNumber := nofun
  completedBelow := nofun
  rowsAbove := fun _ _ => rfl

variable {b : ReadBatch Tx TxHash}

section
variable (mirrors : db.Mirrors s)
include mirrors

theorem readBlob_open (hOpen : s.cache.inProgressBatch = some b) :
    db.readBlob b.sequenceNumber b.toStore.toStoredBlob = .batch b := by
  obtain ⟨hTxs, hHashes⟩ := mirrors.txs b hOpen
  simp only [ReadBatch.toStore, BatchToStore.toStoredBlob, readBlob, hTxs, hHashes]

theorem restores : db.Restores s.cache := by
  refine ⟨⟨db.readCompletedBlobs, s.cache.inProgressBatch⟩, ?_, rfl, mirrors.completed⟩
  unfold currentData readInProgressBatch
  rw [mirrors.header]
  cases hOpen : s.cache.inProgressBatch with
  | none => rfl
  | some b =>
    simp only [Option.map_some, mirrors.readBlob_open hOpen]
    rfl

theorem fresh : ∀ e ∈ db.completedBlobs.entries, e.1 ≠ s.sequenceNumberOfNextBlob :=
  fun e he => (mirrors.completedBelow e he).ne

theorem startBatch (slot increase blobId : Nat) :
    (db.beginRollupBlock ⟨blobId, s.sequenceNumberOfNextBlob, slot, increase⟩).Mirrors
      ⟨s.sequenceNumberOfNextBlob + 1,
        { s.cache with inProgressBatch := some ⟨s.sequenceNumberOfNextBlob, slot, increase, blobId, [], []⟩ }⟩ where
  completed := mirrors.completed
  header := rfl
  txs := by
    rintro b ⟨⟩
    have hRows : db.rows s.sequenceNumberOfNextBlob = [] := mirrors.rowsAbove _ le_rfl
    show (db.contents s.sequenceNumberOfNextBlob).map _ = _ ∧ (db.contents s.sequenceNumberOfNextBlob).map _ = _
    simp only [contents_eq_rows, hRows, map_nil, and_self]
  indices := by
    rintro b ⟨⟩ row hRow
    have hRows : db.rows s.sequenceNumberOfNextBlob = [] := mirrors.rowsAbove _ le_rfl
    exact absurd (hRows ▸ hRow) not_mem_nil
  openNumber := by
    rintro b ⟨⟩
    exact ⟨lt_succ_self _, mirrors.fresh⟩
  completedBelow := fun e he => lt_succ_of_lt (mirrors.completedBelow e he)
  rowsAbove := fun number hNum => mirrors.rowsAbove number (le_of_succ_le hNum)

theorem acceptTx (tx : Tx) (hash : TxHash) (hOpen : s.cache.inProgressBatch = some b) :
    (db.addTx b.sequenceNumber b.txs.length tx hash).Mirrors
      { s with cache := { s.cache with inProgressBatch := some (b.pushTx tx hash) } } where
  completed := by
    refine (Perm.of_eq (map_congr_left fun e he => ?_)).trans mirrors.completed
    exact readBlob_congr (db.contents_addTx_other _ tx hash ((mirrors.openNumber b hOpen).2 e he)) e.2
  header := by
    show db.inProgressBatch = _
    rw [mirrors.header, hOpen]
    rfl
  txs := by
    rintro b' ⟨⟩
    obtain ⟨hTxs, hHashes⟩ := mirrors.txs b hOpen
    show (contents _ b.sequenceNumber).map Prod.snd = b.txs ++ [tx] ∧
      (contents _ b.sequenceNumber).map Prod.fst = b.txHashes ++ [hash]
    rw [contents_eq_rows, db.rows_addTx tx hash (mirrors.indices b hOpen), map_append, ← contents_eq_rows]
    simp [hTxs, hHashes]
  indices := by
    rintro b' ⟨⟩ row hRow
    show row.1 < (b.txs ++ [tx]).length
    rw [length_append]
    have hRow : row ∈ (db.addTx b.sequenceNumber b.txs.length tx hash).rows b.sequenceNumber := hRow
    rw [db.rows_addTx tx hash (mirrors.indices b hOpen), mem_append, mem_singleton] at hRow
    rcases hRow with hRow | rfl
    · exact lt_succ_of_lt (mirrors.indices b hOpen row hRow)
    · exact lt_succ_self _
  openNumber := by
    rintro b' ⟨⟩
    exact mirrors.openNumber b hOpen
  completedBelow := mirrors.completedBelow
  rowsAbove := by
    intro number hNum
    rw [db.rows_addTx_other _ tx hash ((mirrors.openNumber b hOpen).1.trans_le hNum).ne']
    exact mirrors.rowsAbove number hNum

theorem closeBatch (hOpen : s.cache.inProgressBatch = some b) :
    (db.endRollupBlock b.toStore).Mirrors { s with cache := ⟨s.cache.completedBlobs ++ [.batch b], none⟩ } where
  completed := by
    obtain ⟨-, hFree⟩ := mirrors.openNumber b hOpen
    refine (db.readCompletedBlobs_insert b.toStore.toStoredBlob hFree).trans ?_
    refine (List.Perm.trans ?_ (perm_append_singleton _ _).symm)
    rw [mirrors.readBlob_open hOpen]
    exact mirrors.completed.cons _
  header := rfl
  txs := nofun
  indices := nofun
  openNumber := nofun
  completedBelow := by
    intro e he
    obtain rfl | ⟨-, he⟩ := mem_insert.mp he
    · exact (mirrors.openNumber b hOpen).1
    · exact mirrors.completedBelow e he
  rowsAbove := mirrors.rowsAbove

theorem proofBlob (blobId : Nat) (data : List UInt8) :
    (db.addProofBlob s.sequenceNumberOfNextBlob blobId data).Mirrors
      ⟨s.sequenceNumberOfNextBlob + 1, s.cache.insertProofBlob blobId data s.sequenceNumberOfNextBlob⟩ where
  completed := by
    refine (db.readCompletedBlobs_insert (.proof blobId data) mirrors.fresh).trans ?_
    exact (mirrors.completed.cons _).trans (perm_append_singleton _ _).symm
  header := mirrors.header
  txs := mirrors.txs
  indices := mirrors.indices
  openNumber := by
    intro b hOpen
    obtain ⟨hBelow, hFree⟩ := mirrors.openNumber b hOpen
    refine ⟨lt_succ_of_lt hBelow, fun e he => ?_⟩
    obtain rfl | ⟨-, he⟩ := mem_insert.mp he
    · exact hBelow.ne'
    · exact hFree e he
  completedBelow := by
    intro e he
    obtain rfl | ⟨-, he⟩ := mem_insert.mp he
    · exact lt_succ_self _
    · exact lt_succ_of_lt (mirrors.completedBelow e he)
  rowsAbove := fun number hNum => mirrors.rowsAbove number (le_of_succ_le hNum)

end

end Mirrors

/-- A batch of the cache has more transactions than are stored under its number, and its number
is not used again. -/
def Damaged (db : RocksDb Tx TxHash) (s : SequencerInner Tx TxHash) : Prop :=
  ∃ b, (s.cache.inProgressBatch = some b ∨ .batch b ∈ s.cache.completedBlobs) ∧
    b.sequenceNumber + 1 < s.sequenceNumberOfNextBlob ∧ (db.contents b.sequenceNumber).length < b.txs.length

variable {db : RocksDb Tx TxHash}

theorem readBlob_batch {stored b}
    (h : db.readBlob number stored = .batch b) : b.txs.length = (db.contents b.sequenceNumber).length := by
  cases stored with
  | batch =>
    cases h
    exact length_map _
  | proof => cases h

theorem currentData_length {data b}
    (hData : db.currentData = .ok data) (h : data.inProgressBatch = some b ∨ .batch b ∈ data.completedBlobs) :
    b.txs.length = (db.contents b.sequenceNumber).length := by
  obtain ⟨inProgress, hRead, hData⟩ := bind_eq_ok.mp hData
  cases hData
  rcases h with rfl | h
  · unfold readInProgressBatch at hRead
    split at hRead
    · cases hRead
    · split at hRead
      · cases hRead
        exact readBlob_batch ‹_›
      · cases hRead
  · obtain ⟨e, -, hRead⟩ := mem_map.mp h
    exact readBlob_batch hRead

theorem Damaged.not_restores {s} (damaged : db.Damaged s) : ¬db.Restores s.cache := by
  rintro ⟨data, hData, hOpen, hCompl⟩
  obtain ⟨b, hCached, -, hShort⟩ := damaged
  rw [← hOpen, ← hCompl.mem_iff] at hCached
  exact hShort.ne' (currentData_length hData hCached)

end RocksDb

/-- A transaction is accepted while the last number handed out is that of its batch, so no proof has been
published since the batch was started. -/
def SequencerInner.Aligned (s : SequencerInner Tx TxHash) : SequencerOp Tx TxHash → Prop
  | .acceptTx _ _ => ∀ b, s.cache.inProgressBatch = some b → b.sequenceNumber + 1 = s.sequenceNumberOfNextBlob
  | _ => True

namespace SequencerInner.Step
variable {s s' : SequencerInner Tx TxHash} {op : SequencerOp Tx TxHash} {events : List (ExecutorEvent Tx TxHash)}
  {db : RocksDb Tx TxHash}

section
variable (step : Step s op s' events)
include step

theorem mirrors (hAlign : s.Aligned op) (h : db.Mirrors s) : (events.foldl apply db).Mirrors s' := by
  cases step with
  | unchanged => exact h
  | started => exact h.startBatch ..
  | @accepted tx hash b number hOpen hNum =>
    have hSame : number = b.sequenceNumber := succ_injective (hNum.trans (hAlign b hOpen).symm)
    rw [hSame]
    exact h.acceptTx tx hash hOpen
  | closed hOpen => exact h.closeBatch hOpen
  | proof => exact h.proofBlob ..

theorem damages (hAlign : ¬s.Aligned op) (h : db.Mirrors s) : (events.foldl apply db).Damaged s' := by
  cases step with
  | @accepted tx hash b number hOpen _ =>
    have hOther : b.sequenceNumber + 1 ≠ s.sequenceNumberOfNextBlob := by
      intro hSame
      refine hAlign fun b' hOpen' => ?_
      cases hOpen.symm.trans hOpen'
      exact hSame
    have hBelow := (h.openNumber b hOpen).1
    refine ⟨b.pushTx tx hash, .inl rfl, lt_of_le_of_ne hBelow hOther, ?_⟩
    show (contents (db.addTx number b.txs.length tx hash) b.sequenceNumber).length < (b.txs ++ [tx]).length
    rw [db.contents_addTx_other _ _ _ (by omega), ← (h.txs b hOpen).1]
    simp
  | unchanged | started | closed | proof => exact absurd trivial hAlign

theorem damaged (h : db.Damaged s) : (events.foldl apply db).Damaged s' := by
  obtain ⟨b, hCached, hNum, hShort⟩ := h
  cases step with
  | unchanged => exact ⟨b, hCached, hNum, hShort⟩
  | started hNone =>
    have hCompl : .batch b ∈ s.cache.completedBlobs := by simpa [hNone] using hCached
    exact ⟨b, .inr hCompl, lt_succ_of_lt hNum, hShort⟩
  | @accepted tx hash b' number hOpen _ =>
    have hKept : contents (db.addTx number b'.txs.length tx hash) b.sequenceNumber =
        db.contents b.sequenceNumber := db.contents_addTx_other _ _ _ (by omega)
    rcases hCached with hCached | hCached
    · cases hOpen.symm.trans hCached
      refine ⟨b.pushTx tx hash, .inl rfl, hNum, ?_⟩
      show (contents _ b.sequenceNumber).length < (b.txs ++ [tx]).length
      exact (congrArg length hKept).trans_lt (hShort.trans (by simp))
    · exact ⟨b, .inr hCached, hNum, (congrArg length hKept).trans_lt hShort⟩
  | @closed b' hOpen =>
    refine ⟨b, .inr (mem_append.mpr ?_), hNum, hShort⟩
    rcases hCached with hCached | hCached
    · cases hOpen.symm.trans hCached
      exact .inr (mem_singleton.mpr rfl)
    · exact .inl hCached
  | proof =>
    refine ⟨b, hCached.imp_right fun h => mem_append_left _ h, lt_succ_of_lt hNum, hShort⟩

end

end SequencerInner.Step

namespace SequencerInner
variable {s s' : SequencerInner Tx TxHash} {ops : List (SequencerOp Tx TxHash)}
  {events : List (List (ExecutorEvent Tx TxHash))} {db : RocksDb Tx TxHash}

theorem trace_damaged (h : db.Damaged s) (hTrace : trace perform s ops = .ok (s', events)) :
    (events.flatten.foldl apply db).Damaged s' := by
  induction ops generalizing s db events with
  | nil =>
    cases hTrace
    exact h
  | cons op ops ih =>
    obtain ⟨mid, sent, later, hStep, hRest, rfl⟩ := trace_cons_eq_ok.mp hTrace
    rw [flatten_cons, foldl_append]
    exact ih ((perform_step hStep).damaged h) hRest

theorem trace_restores_iff (h : db.Mirrors s) (hTrace : trace perform s ops = .ok (s', events)) :
    (events.flatten.foldl apply db).Restores s'.cache ↔ TraceAlong perform Aligned s ops := by
  induction ops generalizing s db events with
  | nil =>
    cases hTrace
    exact iff_of_true h.restores trivial
  | cons op ops ih =>
    obtain ⟨mid, sent, later, hStep, hRest, rfl⟩ := trace_cons_eq_ok.mp hTrace
    rw [flatten_cons, foldl_append]
    by_cases hAlign : s.Aligned op
    · rw [ih ((perform_step hStep).mirrors hAlign h) hRest]
      constructor
      · intro hLater
        refine ⟨hAlign, fun next sent' hStep' => ?_⟩
        cases hStep.symm.trans hStep'
        exact hLater
      · exact fun hAlong => hAlong.2 mid sent hStep
    · refine iff_of_false ?_ fun hAlong => hAlign hAlong.1
      exact (trace_damaged ((perform_step hStep).damages hAlign h) hRest).not_restores

/-- After any run and however the side-effects task is scheduled, a restart finds the blobs of the
cache just if every transaction was accepted before a proof was published in its batch. -/
theorem restart_restores_iff {next : Nat} {final : SequencerInner Tx TxHash}
    (hTrace : trace perform (start next) ops = .ok (final, events))
    (hEffects : SideEffects .empty events.flatten db) :
    db.Restores final.cache ↔ TraceAlong perform Aligned (start next) ops := by
  have hNext := trace_events_next hTrace none (by simp)
  rw [hEffects.eq_foldl hNext]
  exact trace_restores_iff (Mirrors.start next) hTrace

/-- A proof published between two batches does no harm. -/
theorem proof_between_batches_restored :
    ∃ (final : SequencerInner Nat Nat) (events : List (List (ExecutorEvent Nat Nat))) (db : RocksDb Nat Nat),
      trace perform (start 0)
          [.startBatch 1 1 10, .acceptTx 7 70, .acceptTx 8 80, .closeBatch, .proofBlob 11 [5], .startBatch 2 1 12,
            .acceptTx 9 90] = .ok (final, events) ∧
        SideEffects .empty events.flatten db ∧ db.Restores final.cache := by
  simp only [exists_and_left]
  refine exists₂_and_of returned fun hTrace => ?_
  obtain ⟨db, hEffects⟩ := exists_sideEffects .empty (flatten _)
  refine ⟨db, hEffects, (restart_restores_iff hTrace hEffects).mpr ?_⟩
  iterate 7
    refine ⟨by first | trivial | (rintro b ⟨⟩; rfl), ?_⟩
    rintro _ _ ⟨⟩
  trivial

/-- A transaction accepted after a proof of the same batch is not found. -/
theorem tx_after_proof_lost :
    ∃ (final : SequencerInner Nat Nat) (events : List (List (ExecutorEvent Nat Nat))) (db : RocksDb Nat Nat),
      trace perform (start 0) [.startBatch 1 1 10, .acceptTx 7 70, .proofBlob 11 [5], .acceptTx 8 80] =
          .ok (final, events) ∧
        SideEffects .empty events.flatten db ∧
        final.cache.inProgressBatch = some ⟨0, 1, 1, 10, [7, 8], [70, 80]⟩ ∧
        db.currentData = .ok ⟨[.proof 11 1 [5]], some ⟨0, 1, 1, 10, [7], [70]⟩⟩ := by
  obtain ⟨db, hEffects⟩ := exists_sideEffects (.empty : RocksDb Nat Nat) _
  refine ⟨_, _, db, rfl, hEffects, rfl, ?_⟩
  rw [hEffects.eq_foldl (by simp [ExecutorEvent.Next])]
  rfl

end SequencerInner
end SovereignSdk
