import SovereignSdk.Sequencer.SideEffects

/-! The replay of soft confirmations on top of a new node state, next to the live sequencer. The
replay task fetches the completed batches from the cache until none is left, then subscribes to
the events of the cache and replays the batch in progress and what has happened since. -/
namespace SovereignSdk
open Outcome Bounded

variable {Tx TxHash : Type}

inductive BlockOp (Tx TxHash : Type) where
  | startRollupBlock (visibleSlotNumberAfterIncrease visibleIncrease : Nat)
  | applyTx (tx : Tx) (hash : TxHash)
  | endRollupBlock
  deriving DecidableEq

inductive DbEvent (Tx TxHash : Type) where
  | txAccepted (tx : Tx) (hash : TxHash)
  | batchStarted (sequenceNumber visibleSlotNumberAfterIncrease visibleSlotsToAdvance : Nat)
  | batchClosed (sequenceNumber : Nat)
  | proofBlobAccepted (sequenceNumber : Nat)
  deriving DecidableEq

inductive ReplayError where
  | notEnabled
  /-- The event stream is full, and the message loop waits. -/
  | blocked
  | live (p : SequencerPanic)
  | sequenceNumberMismatch
  | blockInProgress
  | noBlockInProgress
  deriving DecidableEq

/-- Whether a block is in progress after an operation; none if the operation panics. -/
def BlockOp.next : Bool → BlockOp Tx TxHash → Option Bool
  | false, .startRollupBlock _ _ => some true
  | true, .applyTx _ _ => some true
  | true, .endRollupBlock => some false
  | _, _ => none

/-- A block executor: what has been applied to it, and whether its task for a block runs. -/
structure BlockExecutor (Tx TxHash : Type) where
  applied : List (BlockOp Tx TxHash)
  hasInProgressBatch : Bool
  deriving DecidableEq

def ReadBatch.blockOps (isInProgress : Bool) (b : ReadBatch Tx TxHash) : List (BlockOp Tx TxHash) :=
  .startRollupBlock b.visibleSlotNumberAfterIncrease b.visibleSlotsToAdvance ::
    (b.txs.zip b.txHashes).map (fun entry => .applyTx entry.1 entry.2) ++
      if isInProgress then [] else [.endRollupBlock]

def DbEvent.blockOps : DbEvent Tx TxHash → List (BlockOp Tx TxHash)
  | .txAccepted tx hash => [.applyTx tx hash]
  | .batchStarted _ slot increase => [.startRollupBlock slot increase]
  | .batchClosed _ => [.endRollupBlock]
  | .proofBlobAccepted _ => []

/-- `validate_seq_nr_from_node`: the update is given up if the node is ahead of the batch. -/
def validateSeqNrFromNode (seqNrOfInProgressBatch nextSequenceNumberAccordingToNode : Nat) : Except ReplayError Unit :=
  ensure .sequenceNumberMismatch (nextSequenceNumberAccordingToNode ≤ seqNrOfInProgressBatch)

namespace BlockExecutor

def new : BlockExecutor Tx TxHash := ⟨[], false⟩

def apply (e : BlockExecutor Tx TxHash) (op : BlockOp Tx TxHash) : Except ReplayError (BlockExecutor Tx TxHash) := do
  let flag ← unwrap (if e.hasInProgressBatch then .blockInProgress else .noBlockInProgress)
    (op.next e.hasInProgressBatch)
  return ⟨e.applied ++ [op], flag⟩

def replayBatch (e : BlockExecutor Tx TxHash) (isInProgress : Bool) (b : ReadBatch Tx TxHash) :
    Except ReplayError (BlockExecutor Tx TxHash) :=
  (b.blockOps isInProgress).foldlM apply e

def doNextEvent (nextSequenceNumberAccordingToNode : Nat) (e : BlockExecutor Tx TxHash) :
    DbEvent Tx TxHash → Except ReplayError (BlockExecutor Tx TxHash)
  | .txAccepted tx hash => e.apply (.applyTx tx hash)
  | .batchClosed number => do
      validateSeqNrFromNode number nextSequenceNumberAccordingToNode
      e.apply .endRollupBlock
  | .batchStarted number slot increase => do
      validateSeqNrFromNode number nextSequenceNumberAccordingToNode
      e.apply (.startRollupBlock slot increase)
  | .proofBlobAccepted _ => return e

end BlockExecutor

def ReadBlob.asBatch : ReadBlob Tx TxHash → Option (ReadBatch Tx TxHash)
  | .batch b => some b
  | .proof _ _ _ => none

namespace BlobsCache
variable (c : BlobsCache Tx TxHash)

def completedBatches : List (ReadBatch Tx TxHash) :=
  c.completedBlobs.filterMap ReadBlob.asBatch

/-- `fetch_completed_blobs_by_sequence`, without the batch in progress. -/
def completedBatchesToReplay (sequenceNumber : Nat) : List (ReadBatch Tx TxHash) :=
  c.completedBatches.filter fun b => sequenceNumber ≤ b.sequenceNumber

/-- `prune`: blobs leave from the front. -/
def prune (upToIncluding : Nat) : BlobsCache Tx TxHash :=
  { c with completedBlobs := c.completedBlobs.dropWhile fun blob => blob.sequenceNumber ≤ upToIncluding }

end BlobsCache

/-- What the cache sends to its subscriber along with an event for the side-effects task. -/
def ExecutorEvent.dbEvent : ExecutorEvent Tx TxHash → DbEvent Tx TxHash
  | .startBatch slot increase number _ => .batchStarted number slot increase
  | .acceptedTx tx hash _ _ => .txAccepted tx hash
  | .closeBatch batch => .batchClosed batch.sequenceNumber
  | .publishProofBlob _ _ number => .proofBlobAccepted number

/-- The operation on the live executor that an event reports, under the number of its batch. -/
def SequencerInner.blockOp (s : SequencerInner Tx TxHash) :
    ExecutorEvent Tx TxHash → Option (Nat × BlockOp Tx TxHash)
  | .startBatch slot increase number _ => some (number, .startRollupBlock slot increase)
  | .acceptedTx tx hash _ _ =>
    s.cache.inProgressBatch.map fun b => (b.sequenceNumber, .applyTx tx hash)
  | .closeBatch batch => some (batch.sequenceNumber, .endRollupBlock)
  | .publishProofBlob _ _ _ => none

/-- The live sequencer, with the operations on its executor so far. -/
structure LiveSequencer (Tx TxHash : Type) where
  inner : SequencerInner Tx TxHash
  executed : List (Nat × BlockOp Tx TxHash)

inductive LiveEvent (Tx TxHash : Type) where
  | op (op : SequencerOp Tx TxHash)
  | prune (upToIncluding : Nat)

namespace LiveSequencer

def start (next : Nat) : LiveSequencer Tx TxHash := ⟨.start next, []⟩

/-- One message of the loop, and the events that it sends to a subscriber. -/
def perform (l : LiveSequencer Tx TxHash) (op : SequencerOp Tx TxHash) :
    Except SequencerPanic (LiveSequencer Tx TxHash × List (DbEvent Tx TxHash)) := do
  let (inner, events) ← l.inner.perform op
  return (⟨inner, l.executed ++ events.filterMap l.inner.blockOp⟩, events.map ExecutorEvent.dbEvent)

def step (l : LiveSequencer Tx TxHash) : LiveEvent Tx TxHash → Except SequencerPanic (LiveSequencer Tx TxHash)
  | .op op => do
      let (l, _) ← l.perform op
      return l
  | .prune upToIncluding =>
    return { l with inner := { l.inner with cache := l.inner.cache.prune upToIncluding } }

/-- The operations on the live executor for the batches from a number on. -/
def opsFrom (l : LiveSequencer Tx TxHash) (number : Nat) : List (BlockOp Tx TxHash) :=
  (l.executed.filter fun entry => number ≤ entry.1).map Prod.snd

end LiveSequencer

inductive ReplayTask (Tx TxHash : Type) where
  | fetching (nextSequenceNumber : Nat)
  | replaying (nextSequenceNumber : Nat) (completed : List (ReadBatch Tx TxHash))
  | subscribed (nextSequenceNumber : Nat) (inProgressBatch : Option (ReadBatch Tx TxHash))
  | catchingUp (nextSequenceNumber : Nat)
  /-- The message for the final catch-up is on its way. -/
  | finishing
  | swapped

/-- A replay under way. The event stream is a bounded channel. -/
structure ReplayRun (Tx TxHash : Type) where
  live : LiveSequencer Tx TxHash
  eventStream : Option (List (DbEvent Tx TxHash))
  executor : BlockExecutor Tx TxHash
  task : ReplayTask Tx TxHash

inductive ReplayEvent (Tx TxHash : Type) where
  | live (op : SequencerOp Tx TxHash)
  | task

namespace ReplayRun

def start (live : LiveSequencer Tx TxHash) (nodeNext : Nat) : ReplayRun Tx TxHash :=
  ⟨live, none, .new, .fetching nodeNext⟩

/-- A message of the live sequencer: it waits while the event stream is full. -/
def liveStep (w : ReplayRun Tx TxHash) (capacity : Nat) (op : SequencerOp Tx TxHash) :
    Except ReplayError (ReplayRun Tx TxHash) := do
  ensure .blocked (∀ queue ∈ w.eventStream, queue.length < capacity)
  let (live, events) ← (w.live.perform op).mapError .live
  return { w with live, eventStream := w.eventStream.map (· ++ events) }

/-- The replay task. The loop over the event stream stops at one event, and the rest is handled
under the lock by `process_final_catchup`. -/
def taskStep (w : ReplayRun Tx TxHash) (nodeNext : Nat) : Except ReplayError (ReplayRun Tx TxHash) :=
  match w.task with
  | .fetching next =>
    match w.live.inner.cache.completedBatchesToReplay next with
    | [] => return { w with
        eventStream := some []
        task := .subscribed next w.live.inner.cache.inProgressBatch }
    | completed => return { w with task := .replaying next completed }
  | .replaying next [] => return { w with task := .fetching next }
  | .replaying _ (b :: rest) => do
      let executor ← w.executor.replayBatch false b
      return { w with executor, task := .replaying (saturatingAdd u64Max b.sequenceNumber 1) rest }
  | .subscribed next none => return { w with task := .catchingUp next }
  | .subscribed next (some b) => do
      validateSeqNrFromNode b.sequenceNumber next
      let executor ← w.executor.replayBatch true b
      return { w with executor, task := .catchingUp next }
  | .catchingUp next =>
    match w.eventStream.getD [] with
    | event :: other :: rest => do
        let executor ← w.executor.doNextEvent next event
        return { w with executor, eventStream := some (other :: rest) }
    | _ => return { w with task := .finishing }
  | .finishing => do
      let executor ← (w.eventStream.getD []).foldlM (BlockExecutor.doNextEvent nodeNext) w.executor
      return { w with executor, eventStream := none, task := .swapped }
  | .swapped => .error .notEnabled

def step (nodeNext capacity : Nat) (w : ReplayRun Tx TxHash) :
    ReplayEvent Tx TxHash → Except ReplayError (ReplayRun Tx TxHash)
  | .live op =>
    match w.task with
    | .swapped => .error .notEnabled
    | _ => w.liveStep capacity op
  | .task => w.taskStep nodeNext

end ReplayRun
end SovereignSdk
