import SovereignSdk.Library.Trace
import SovereignSdk.Sequencer.Database

/-! The synchronized operations of the preferred sequencer, the events they send to the
side-effects task, and what the database holds once the task has handled them. -/
namespace SovereignSdk
open Outcome Bounded List BlobsCache

variable {Tx TxHash : Type}

inductive ExecutorEvent (Tx TxHash : Type) where
  | startBatch (visibleSlotNumberAfterIncrease visibleSlotsToAdvance sequenceNumber blobId : Nat)
  | acceptedTx (tx : Tx) (hash : TxHash) (sequenceNumber txIdxWithinBatch : Nat)
  | closeBatch (batch : ReadBatch Tx TxHash)
  | publishProofBlob (blobId : Nat) (data : List UInt8) (sequenceNumber : Nat)

structure SequencerInner (Tx TxHash : Type) where
  sequenceNumberOfNextBlob : Nat
  cache : BlobsCache Tx TxHash

/-- The operations of the message loop that touch blobs. A batch is started with a new blob id;
requests that are refused change nothing and are left out. -/
inductive SequencerOp (Tx TxHash : Type) where
  | startBatch (visibleSlotNumberAfterIncrease visibleIncrease blobId : Nat)
  | acceptTx (tx : Tx) (hash : TxHash)
  | closeBatch
  | proofBlob (blobId : Nat) (data : List UInt8)

namespace SequencerInner

def start (next : Nat) : SequencerInner Tx TxHash := ⟨next, .empty⟩

variable (s : SequencerInner Tx TxHash)

def currentSequenceNumber : Except SequencerPanic Nat :=
  unwrap .sequenceNumberUnderflow (checkedSub s.sequenceNumberOfNextBlob 1)

def getAndIncNextSequenceNumber : Except SequencerPanic (SequencerInner Tx TxHash × Nat) := do
  let next ← unwrap .sequenceNumberOverflow (checkedAdd u64Max s.sequenceNumberOfNextBlob 1)
  return ({ s with sequenceNumberOfNextBlob := next }, s.sequenceNumberOfNextBlob)

def doBatchStart (visibleSlotNumberAfterIncrease visibleIncrease blobId : Nat) :
    Except SequencerPanic (SequencerInner Tx TxHash × List (ExecutorEvent Tx TxHash)) :=
  if s.cache.inProgressBatch.isSome then return (s, [])
  else do
    let (s, number) ← s.getAndIncNextSequenceNumber
    let cache ← s.cache.startBatch visibleSlotNumberAfterIncrease visibleIncrease number blobId
    return ({ s with cache }, [.startBatch visibleSlotNumberAfterIncrease visibleIncrease number blobId])

/-- The transaction is numbered by the last number handed out, and by the length of the batch in
memory. -/
def doNewTx (tx : Tx) (hash : TxHash) :
    Except SequencerPanic (SequencerInner Tx TxHash × List (ExecutorEvent Tx TxHash)) := do
  ensure .noBatchInProgress (s.cache.inProgressBatch.isSome = true)
  let number ← s.currentSequenceNumber
  let index := (s.cache.inProgressBatch.map fun b => b.txs.length).getD 0
  let cache ← s.cache.insertTx tx hash
  return ({ s with cache }, [.acceptedTx tx hash number index])

def closeCurrentBatch : Except SequencerPanic (SequencerInner Tx TxHash × List (ExecutorEvent Tx TxHash)) := do
  let (cache, batch) ← s.cache.terminateBatch
  return ({ s with cache }, [.closeBatch batch])

/-- Proofs are numbered from the same counter, whether a batch is in progress or not. -/
def processProofBlob (blobId : Nat) (data : List UInt8) :
    Except SequencerPanic (SequencerInner Tx TxHash × List (ExecutorEvent Tx TxHash)) := do
  let (s, number) ← s.getAndIncNextSequenceNumber
  return ({ s with cache := s.cache.insertProofBlob blobId data number }, [.publishProofBlob blobId data number])

def perform :
    SequencerOp Tx TxHash → Except SequencerPanic (SequencerInner Tx TxHash × List (ExecutorEvent Tx TxHash))
  | .startBatch slot increase blobId => s.doBatchStart slot increase blobId
  | .acceptTx tx hash => s.doNewTx tx hash
  | .closeBatch => s.closeCurrentBatch
  | .proofBlob blobId data => s.processProofBlob blobId data

inductive Step (s : SequencerInner Tx TxHash) :
    SequencerOp Tx TxHash → SequencerInner Tx TxHash → List (ExecutorEvent Tx TxHash) → Prop where
  | unchanged {slot increase blobId : Nat} {b : ReadBatch Tx TxHash} (hOpen : s.cache.inProgressBatch = some b) :
      Step s (.startBatch slot increase blobId) s []
  | started {slot increase blobId : Nat} (hNone : s.cache.inProgressBatch = none)
      (hRoom : s.sequenceNumberOfNextBlob < u64Max) :
      Step s (.startBatch slot increase blobId) ⟨s.sequenceNumberOfNextBlob + 1, { s.cache with
            inProgressBatch := some ⟨s.sequenceNumberOfNextBlob, slot, increase, blobId, [], []⟩ }⟩
        [.startBatch slot increase s.sequenceNumberOfNextBlob blobId]
  | accepted {tx : Tx} {hash : TxHash} {b : ReadBatch Tx TxHash} {number : Nat}
      (hOpen : s.cache.inProgressBatch = some b) (hNumber : number + 1 = s.sequenceNumberOfNextBlob) :
      Step s (.acceptTx tx hash) { s with cache := { s.cache with inProgressBatch := some (b.pushTx tx hash) } }
        [.acceptedTx tx hash number b.txs.length]
  | closed {b : ReadBatch Tx TxHash} (hOpen : s.cache.inProgressBatch = some b) :
      Step s .closeBatch { s with cache := ⟨s.cache.completedBlobs ++ [.batch b], none⟩ } [.closeBatch b]
  | proof {blobId : Nat} {data : List UInt8} (hRoom : s.sequenceNumberOfNextBlob < u64Max) :
      Step s (.proofBlob blobId data)
        ⟨s.sequenceNumberOfNextBlob + 1, s.cache.insertProofBlob blobId data s.sequenceNumberOfNextBlob⟩
        [.publishProofBlob blobId data s.sequenceNumberOfNextBlob]

variable {s s' : SequencerInner Tx TxHash}

theorem getAndIncNextSequenceNumber_ok {number} (h : s.getAndIncNextSequenceNumber = .ok (s', number)) :
    s' = { s with sequenceNumberOfNextBlob := s.sequenceNumberOfNextBlob + 1 } ∧
      number = s.sequenceNumberOfNextBlob ∧ s.sequenceNumberOfNextBlob < u64Max := by
  simp only [getAndIncNextSequenceNumber, bind_eq_ok, unwrap_eq_ok, checkedAdd_eq_some] at h
  obtain ⟨next, ⟨hRoom, rfl⟩, h⟩ := h
  cases h
  exact ⟨rfl, rfl, hRoom⟩

theorem perform_step {op events} (h : s.perform op = .ok (s', events)) : Step s op s' events := by
  cases op with
  | startBatch slot increase blobId =>
    simp only [perform, doBatchStart] at h
    split at h
    · obtain ⟨b, hOpen⟩ := Option.isSome_iff_exists.mp ‹_›
      cases h
      exact .unchanged hOpen
    · have hNone : s.cache.inProgressBatch = none := Option.not_isSome_iff_eq_none.mp ‹_›
      obtain ⟨⟨mid, number⟩, hNumber, h⟩ := bind_eq_ok.mp h
      obtain ⟨rfl, rfl, hRoom⟩ := getAndIncNextSequenceNumber_ok hNumber
      simp only [startBatch, bind_eq_ok] at h
      obtain ⟨cache, ⟨_, -, hCache⟩, h⟩ := h
      cases hCache
      cases h
      exact .started hNone hRoom
  | acceptTx tx hash =>
    simp only [perform, doNewTx, insertTx, currentSequenceNumber, bind_eq_ok, unwrap_eq_ok, checkedSub_eq_some] at h
    obtain ⟨_, -, number, ⟨hPos, rfl⟩, cache, ⟨b, hOpen, hCache⟩, h⟩ := h
    cases hCache
    cases h
    rw [hOpen]
    exact .accepted hOpen (Nat.sub_add_cancel hPos)
  | closeBatch =>
    simp only [perform, closeCurrentBatch, terminateBatch, bind_eq_ok, unwrap_eq_ok] at h
    obtain ⟨_, ⟨b, hOpen, hCache⟩, h⟩ := h
    cases hCache
    cases h
    exact .closed hOpen
  | proofBlob blobId data =>
    obtain ⟨⟨mid, number⟩, hNumber, h⟩ := bind_eq_ok.mp h
    obtain ⟨rfl, rfl, hRoom⟩ := getAndIncNextSequenceNumber_ok hNumber
    cases h
    exact .proof hRoom

end SequencerInner

/-! The side-effects task. -/

/-- The transactions of the accepted events at the front of the queue, and the queue behind them. -/
def drainConsecutiveAcceptedTxs :
    List (ExecutorEvent Tx TxHash) → List (Tx × TxHash) × List (ExecutorEvent Tx TxHash)
  | .acceptedTx tx hash _ _ :: queue =>
    ((tx, hash) :: (drainConsecutiveAcceptedTxs queue).1, (drainConsecutiveAcceptedTxs queue).2)
  | queue => ([], queue)

namespace RocksDb

/-- Handle the event at the front of the queue; accepted transactions that follow each other are
inserted together, numbered from the first of them. -/
def handleExecutorEvent (db : RocksDb Tx TxHash) :
    List (ExecutorEvent Tx TxHash) → RocksDb Tx TxHash × List (ExecutorEvent Tx TxHash)
  | [] => (db, [])
  | .startBatch slot increase number blobId :: queue => (db.beginRollupBlock ⟨blobId, number, slot, increase⟩, queue)
  | .acceptedTx tx hash number index :: queue =>
    let (txs, queue) := drainConsecutiveAcceptedTxs queue
    (db.batchAddTxs number index ((tx, hash) :: txs), queue)
  | .closeBatch batch :: queue => (db.endRollupBlock batch.toStore, queue)
  | .publishProofBlob blobId data number :: queue => (db.addProofBlob number blobId data, queue)

/-- The task has handled all the events in order. Each time it looks at its queue, some of the events
still to be handled have arrived there. -/
inductive SideEffects : RocksDb Tx TxHash → List (ExecutorEvent Tx TxHash) → RocksDb Tx TxHash → Prop where
  | done {db : RocksDb Tx TxHash} : SideEffects db [] db
  | handle {db db' : RocksDb Tx TxHash} {queue later : List (ExecutorEvent Tx TxHash)} (hQueue : queue ≠ [])
      (rest : SideEffects (db.handleExecutorEvent queue).1 ((db.handleExecutorEvent queue).2 ++ later) db') :
      SideEffects db (queue ++ later) db'

def apply (db : RocksDb Tx TxHash) (event : ExecutorEvent Tx TxHash) : RocksDb Tx TxHash :=
  (db.handleExecutorEvent [event]).1

end RocksDb

/-- An accepted transaction that follows another one has the same number and the next index. -/
def ExecutorEvent.Next : ExecutorEvent Tx TxHash → ExecutorEvent Tx TxHash → Prop
  | acceptedTx _ _ number index, acceptedTx _ _ number' index' => number' = number ∧ index' = index + 1
  | _, _ => True

namespace RocksDb

variable {queue : List (ExecutorEvent Tx TxHash)}

variable (db : RocksDb Tx TxHash)

theorem batchAddTxs_drain {tx hash number index}
    (hNext : IsChain ExecutorEvent.Next (.acceptedTx tx hash number index :: queue)) :
    (drainConsecutiveAcceptedTxs queue).2.foldl apply
        (db.batchAddTxs number index ((tx, hash) :: (drainConsecutiveAcceptedTxs queue).1)) =
      queue.foldl apply (db.addTx number index tx hash) := by
  induction queue generalizing db tx hash index with
  | nil => rfl
  | cons event queue ih =>
    cases event with
    | acceptedTx tx' hash' number' index' =>
      obtain ⟨⟨rfl, rfl⟩, hRest⟩ := isChain_cons_cons.mp hNext
      exact ih (db.addTx number' index tx hash) hRest
    | startBatch | closeBatch | publishProofBlob => rfl

theorem handleExecutorEvent_foldl (hNext : IsChain ExecutorEvent.Next queue) :
    (db.handleExecutorEvent queue).2.foldl apply (db.handleExecutorEvent queue).1 = queue.foldl apply db := by
  cases queue with
  | nil => rfl
  | cons event queue =>
    cases event with
    | acceptedTx tx hash number index => exact db.batchAddTxs_drain hNext
    | startBatch | closeBatch | publishProofBlob => rfl

theorem drainConsecutiveAcceptedTxs_suffix (queue : List (ExecutorEvent Tx TxHash)) :
    (drainConsecutiveAcceptedTxs queue).2 <:+ queue := by
  induction queue with
  | nil => exact suffix_rfl
  | cons event queue ih =>
    cases event with
    | acceptedTx => exact ih.trans (suffix_cons _ _)
    | startBatch | closeBatch | publishProofBlob => exact suffix_rfl

theorem handleExecutorEvent_suffix (event : ExecutorEvent Tx TxHash)
    (queue : List (ExecutorEvent Tx TxHash)) : (db.handleExecutorEvent (event :: queue)).2 <:+ queue := by
  cases event with
  | acceptedTx => exact drainConsecutiveAcceptedTxs_suffix queue
  | startBatch | closeBatch | publishProofBlob => exact suffix_rfl

theorem exists_sideEffects (events : List (ExecutorEvent Tx TxHash)) : ∃ db', SideEffects db events db' := by
  induction hLen : events.length using Nat.strong_induction_on generalizing db events with
  | _ n ih =>
    cases events with
    | nil => exact ⟨db, .done⟩
    | cons event queue =>
      have hShort : (db.handleExecutorEvent (event :: queue)).2.length < n :=
        (db.handleExecutorEvent_suffix event queue).length_le.trans_lt (hLen ▸ Nat.lt_succ_self _)
      obtain ⟨db', rest⟩ := ih _ hShort _ _ rfl
      rw [← append_nil (db.handleExecutorEvent (event :: queue)).2] at rest
      rw [← append_nil (event :: queue)]
      exact ⟨db', .handle (cons_ne_nil event queue) rest⟩

/-- How the events are spread over the task's queue makes no difference to the database. -/
theorem SideEffects.eq_foldl {db db' : RocksDb Tx TxHash} {events : List (ExecutorEvent Tx TxHash)}
    (effects : SideEffects db events db') (hNext : IsChain ExecutorEvent.Next events) :
    db' = events.foldl apply db := by
  induction effects with
  | done => rfl
  | @handle db db' queue later hQueue rest ih =>
    obtain ⟨event, queue, rfl⟩ := exists_cons_of_ne_nil hQueue
    obtain ⟨handled, hHandled⟩ := (db.handleExecutorEvent_suffix event queue).trans (suffix_cons event queue)
    have hRest : IsChain ExecutorEvent.Next ((db.handleExecutorEvent (event :: queue)).2 ++ later) := by
      refine hNext.suffix ⟨handled, ?_⟩
      rw [← append_assoc, hHandled]
    rw [ih hRest, foldl_append, foldl_append, db.handleExecutorEvent_foldl (isChain_append.mp hNext).1]

end RocksDb

namespace SequencerInner

def Sent (s : SequencerInner Tx TxHash) : ExecutorEvent Tx TxHash → Prop
  | .acceptedTx _ _ number index =>
    number + 1 = s.sequenceNumberOfNextBlob ∧ ∃ b, s.cache.inProgressBatch = some b ∧ b.txs.length = index + 1
  | _ => True

variable {s s' : SequencerInner Tx TxHash}

/-- An operation sends at most one event, which continues the events sent before. -/
theorem Step.sends {op events} (step : Step s op s' events) :
    (events = [] ∧ s' = s) ∨ ∃ event, events = [event] ∧ s'.Sent event ∧ ∀ last, s.Sent last → last.Next event := by
  cases step with
  | unchanged => exact .inl ⟨rfl, rfl⟩
  | @accepted tx hash b number hOpen hNumber =>
    refine .inr ⟨_, rfl, ⟨hNumber, _, rfl, by simp [ReadBatch.pushTx]⟩, ?_⟩
    intro last hLast
    cases last with
    | acceptedTx tx' hash' number' index' =>
      obtain ⟨_, b', hOpen', hIndex⟩ := hLast
      cases hOpen.symm.trans hOpen'
      exact ⟨by omega, hIndex⟩
    | startBatch | closeBatch | publishProofBlob => trivial
  | started | closed | proof =>
    refine .inr ⟨_, rfl, trivial, ?_⟩
    intro last _
    cases last <;> trivial

theorem trace_events_next {ops events}
    (hTrace : trace perform s ops = .ok (s', events)) (last : Option (ExecutorEvent Tx TxHash))
    (hLast : ∀ event ∈ last, s.Sent event) : IsChain ExecutorEvent.Next (last.toList ++ events.flatten) := by
  induction ops generalizing s last events with
  | nil =>
    cases hTrace
    cases last <;> simp
  | cons op ops ih =>
    obtain ⟨mid, sent, later, hStep, hRest, rfl⟩ := trace_cons_eq_ok.mp hTrace
    obtain ⟨rfl, rfl⟩ | ⟨event, rfl, hSent, hNext⟩ := (perform_step hStep).sends
    · simpa using ih hRest last hLast
    · have hLater : IsChain ExecutorEvent.Next (event :: later.flatten) := by
        refine ih hRest (some event) ?_
        intro e he
        cases he
        exact hSent
      cases last with
      | none => exact hLater
      | some e => exact isChain_cons_cons.mpr ⟨hNext e (hLast e rfl), hLater⟩

end SequencerInner
end SovereignSdk
