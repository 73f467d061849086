import Mathlib.Data.List.TakeWhile
import SovereignSdk.Sequencer.Replay

/-! The replay applies what the live executor has applied. -/
namespace SovereignSdk
open BlockOp Nat BlobsCache ReadBlob Outcome Bounded SequencerInner LiveSequencer ExecutorEvent BlockExecutor List
  Option

variable {Tx TxHash : Type}

namespace BlockOp

/-- A list of operations that an executor takes without a panic. -/
def run (flag : Bool) (ops : List (BlockOp Tx TxHash)) : Option Bool := ops.foldlM next flag

theorem run_append {flag : Bool} {ops more : List (BlockOp Tx TxHash)} :
    run flag (ops ++ more) = (run flag ops).bind fun flag => run flag more := by
  simp [run]

theorem run_txs (entries : List (Tx × TxHash)) :
    run true (entries.map fun entry => applyTx entry.1 entry.2) = some true := by
  induction entries with
  | nil => rfl
  | cons entry rest ih => exact ih

end BlockOp

namespace ReadBatch

theorem run_blockOps (isInProgress : Bool) (b : ReadBatch Tx TxHash) :
    run false (b.blockOps isInProgress) = some isInProgress := by
  have hStart : ∀ ops : List (BlockOp Tx TxHash), run false
      (.startRollupBlock b.visibleSlotNumberAfterIncrease b.visibleSlotsToAdvance :: ops) = run true ops := fun _ => rfl
  rw [blockOps, cons_append, hStart, run_append, run_txs]
  cases isInProgress <;> rfl

theorem blockOps_close (b : ReadBatch Tx TxHash) : b.blockOps false = b.blockOps true ++ [.endRollupBlock] := by
  simp [blockOps]

theorem blockOps_pushTx {b : ReadBatch Tx TxHash} (hPaired : b.txs.length = b.txHashes.length) (tx : Tx)
    (hash : TxHash) : (b.pushTx tx hash).blockOps true = b.blockOps true ++ [.applyTx tx hash] := by
  simp [blockOps, pushTx, zip_append hPaired]

end ReadBatch

namespace BlockExecutor
variable {e e' : BlockExecutor Tx TxHash}

theorem foldlM_apply {ops flag}
    (h : run e.hasInProgressBatch ops = some flag) : ops.foldlM apply e = .ok ⟨e.applied ++ ops, flag⟩ := by
  induction ops generalizing e with
  | nil =>
    cases h
    simp [pure, Except.pure]
  | cons op rest ih =>
    obtain ⟨mid, hNext, hRest⟩ := bind_eq_some_iff.mp h
    have hApply : e.apply op = .ok ⟨e.applied ++ [op], mid⟩ := by
      simp only [apply, hNext, unwrap_some]
      rfl
    have hAll := @ih ⟨e.applied ++ [op], mid⟩ hRest
    rw [foldlM_cons, hApply, ok_bind, hAll, append_assoc, singleton_append]

end BlockExecutor

def DbEvent.Valid (number : Nat) : DbEvent Tx TxHash → Prop
  | .batchStarted started _ _ => number ≤ started
  | .batchClosed closed => number ≤ closed
  | .txAccepted _ _ => True
  | .proofBlobAccepted _ => True

variable {event : DbEvent Tx TxHash} {flag : Bool}

theorem DbEvent.Valid.anti {number number'} (h : event.Valid number) (hLe : number' ≤ number) :
    event.Valid number' := by
  cases event with
  | batchStarted | batchClosed => exact le_trans hLe h
  | txAccepted | proofBlobAccepted => trivial

theorem BlockExecutor.doNextEvent_yields {e : BlockExecutor Tx TxHash} {number : Nat}
    (hRun : run e.hasInProgressBatch event.blockOps = some flag) :
    Yields (fun e' => event.Valid number ∧ e' = ⟨e.applied ++ event.blockOps, flag⟩)
      (fun err => err = .sequenceNumberMismatch ∧ ¬event.Valid number) (e.doNextEvent number event) := by
  have hApply := foldlM_apply hRun
  cases event with
  | txAccepted tx hash =>
    simp only [DbEvent.blockOps, foldlM_cons, foldlM_nil, bind_pure] at hApply
    rw [doNextEvent, hApply]
    exact ⟨trivial, rfl⟩
  | batchClosed | batchStarted =>
    simp only [DbEvent.blockOps, foldlM_cons, foldlM_nil, bind_pure] at hApply
    simp only [doNextEvent, validateSeqNrFromNode, ensure, hApply]
    split
    · exact ⟨‹_›, rfl⟩
    · exact ⟨rfl, ‹_›⟩
  | proofBlobAccepted accepted =>
    cases hRun
    refine ⟨trivial, ?_⟩
    simp [DbEvent.blockOps]

theorem BlockExecutor.foldlM_doNextEvent_yields {number : Nat} {queue : List (DbEvent Tx TxHash)}
    {e : BlockExecutor Tx TxHash}
    (hRun : run e.hasInProgressBatch (queue.flatMap DbEvent.blockOps) = some flag) :
    Yields (fun e' => (∀ event ∈ queue, event.Valid number) ∧ e' = ⟨e.applied ++ queue.flatMap DbEvent.blockOps, flag⟩)
      (fun err => err = .sequenceNumberMismatch ∧ ¬∀ event ∈ queue, event.Valid number)
      (queue.foldlM (doNextEvent number) e) := by
  induction queue generalizing e with
  | nil =>
    cases hRun
    simp [pure, Except.pure]
  | cons event rest ih =>
    rw [flatMap_cons, run_append] at hRun
    obtain ⟨mid, hHead, hRest⟩ := bind_eq_some_iff.mp hRun
    refine .bind (doNextEvent_yields hHead |>.imp_error ?_) ?_
    · rintro err ⟨hErr, hInvalid⟩
      exact ⟨hErr, fun hAll => hInvalid (hAll event mem_cons_self)⟩
    · rintro next ⟨hValid, rfl⟩
      refine (ih hRest).mono ?_ ?_
      · rintro e' ⟨hAll, rfl⟩
        refine ⟨forall_mem_cons.mpr ⟨hValid, hAll⟩, ?_⟩
        simp
      · rintro err ⟨hErr, hInvalid⟩
        exact ⟨hErr, fun hAll => hInvalid fun other hOther => hAll other (mem_cons_of_mem _ hOther)⟩

namespace BlobsCache
variable {c : BlobsCache Tx TxHash}

def allBatches (c : BlobsCache Tx TxHash) : List (ReadBatch Tx TxHash) :=
  c.completedBatches ++ c.inProgressBatch.toList

def numbers (c : BlobsCache Tx TxHash) : List Nat := c.allBatches.map (·.sequenceNumber)

/-- The operations that the batches in the cache amount to, from a number on. -/
def blockOps (c : BlobsCache Tx TxHash) (number : Nat) : List (BlockOp Tx TxHash) :=
  (c.completedBatchesToReplay number).flatMap (ReadBatch.blockOps false) ++
    (c.inProgressBatch.toList.filter fun b => number ≤ b.sequenceNumber).flatMap (ReadBatch.blockOps true)

variable {upTo : Nat}

theorem completedBatchesToReplay_prune {number} (h : upTo < number) :
    (c.prune upTo).completedBatchesToReplay number = c.completedBatchesToReplay number := by
  have hDropped : ((c.completedBlobs.takeWhile fun blob => blob.sequenceNumber ≤ upTo).filterMap
      asBatch).filter (fun b => number ≤ b.sequenceNumber) = [] := by
    refine filter_eq_nil_iff.mpr fun b hb hNum => ?_
    obtain ⟨blob, hBlob, hBatch⟩ := mem_filterMap.mp hb
    have hTaken := mem_takeWhile_imp hBlob
    have hLow := of_decide_eq_true hTaken
    cases blob with
    | batch b' =>
      cases hBatch
      have := of_decide_eq_true hNum
      simp only [sequenceNumber] at hLow
      omega
    | proof blobId proofNumber data => cases hBatch
  unfold completedBatchesToReplay completedBatches prune
  conv_rhs =>
    rw [← @takeWhile_append_dropWhile _ (fun blob => blob.sequenceNumber ≤ upTo) c.completedBlobs]
  rw [filterMap_append, filter_append, hDropped, nil_append]

theorem blockOps_prune {number} (h : upTo < number) : (c.prune upTo).blockOps number = c.blockOps number := by
  rw [blockOps, completedBatchesToReplay_prune h]
  rfl

theorem completedBatches_append (c : BlobsCache Tx TxHash) (b : ReadBatch Tx TxHash) :
    completedBatches ⟨c.completedBlobs ++ [.batch b], none⟩ = c.completedBatches ++ [b] := by
  simp [completedBatches, asBatch]

theorem completedBatches_insertProofBlob (blobId : Nat) (data : List UInt8) (number : Nat) :
    (c.insertProofBlob blobId data number).completedBatches = c.completedBatches := by
  simp [completedBatches, insertProofBlob, asBatch]

end BlobsCache

namespace LiveSequencer
variable {l l' : LiveSequencer Tx TxHash}

/-- The cache has all batches from a number on, in order, each with the operations that the live
executor has applied for it. -/
structure Recorded (l : LiveSequencer Tx TxHash) (number : Nat) : Prop where
  executed : l.opsFrom number = l.inner.cache.blockOps number
  ordered : l.inner.cache.allBatches.Pairwise fun a b => a.sequenceNumber < b.sequenceNumber
  below : ∀ b ∈ l.inner.cache.allBatches, b.sequenceNumber < l.inner.sequenceNumberOfNextBlob
  paired : ∀ b ∈ l.inner.cache.inProgressBatch, b.txs.length = b.txHashes.length
  next_le : l.inner.sequenceNumberOfNextBlob ≤ u64Max

/-- The batch that the next message is about: the one in progress, or else the one to be started. -/
def current (l : LiveSequencer Tx TxHash) : Nat :=
  (l.inner.cache.inProgressBatch.map (·.sequenceNumber)).getD l.inner.sequenceNumberOfNextBlob

/-- What one message does, seen from the batch that it is about: the same operations reach the live
executor, the cache and the subscriber. -/
structure Touches (l l' : LiveSequencer Tx TxHash) (events : List (DbEvent Tx TxHash)) : Prop where
  executed : l'.executed = l.executed ++ (events.flatMap DbEvent.blockOps).map (Prod.mk l.current)
  cached : ∀ n, l'.inner.cache.blockOps n =
    l.inner.cache.blockOps n ++ if n ≤ l.current then events.flatMap DbEvent.blockOps else []
  flag : run l.inner.cache.inProgressBatch.isSome (events.flatMap DbEvent.blockOps) =
    some l'.inner.cache.inProgressBatch.isSome
  after : ∀ b ∈ l'.inner.cache.inProgressBatch, b.sequenceNumber = l.current
  next_le : l.inner.sequenceNumberOfNextBlob ≤ l'.inner.sequenceNumberOfNextBlob
  valid : ∀ n ≤ l.current, ∀ event ∈ events, event.Valid n
  counted : ∀ n, (∀ event ∈ events, event.Valid n) → (∀ b ∈ l.inner.cache.inProgressBatch, n ≤ b.sequenceNumber) →
    n ≤ l.current ∨
      (events.flatMap DbEvent.blockOps = [] ∧ l'.inner.cache.inProgressBatch = l.inner.cache.inProgressBatch)

theorem current_eq {b} (hOpen : l.inner.cache.inProgressBatch = some b) : l.current = b.sequenceNumber := by
  simp [current, hOpen]

theorem perform_ok {op events} (h : l.perform op = .ok (l', events)) :
    ∃ sent, l.inner.Step op l'.inner sent ∧ l'.executed = l.executed ++ sent.filterMap l.inner.blockOp ∧
      events = sent.map ExecutorEvent.dbEvent := by
  simp only [perform, bind_eq_ok, pure_eq_ok] at h
  obtain ⟨⟨inner, sent⟩, hPerf, rfl, rfl⟩ := h
  exact ⟨sent, perform_step hPerf, rfl, rfl⟩

section Message
variable {op : SequencerOp Tx TxHash} {events : List (DbEvent Tx TxHash)} {number : Nat}

theorem blockOps_closed {c : BlobsCache Tx TxHash} {b : ReadBatch Tx TxHash} (hOpen : c.inProgressBatch = some b)
    (n : Nat) : blockOps ⟨c.completedBlobs ++ [.batch b], none⟩ n =
      c.blockOps n ++ if n ≤ b.sequenceNumber then [.endRollupBlock] else [] := by
  unfold blockOps completedBatchesToReplay
  rw [completedBatches_append, hOpen]
  by_cases hn : n ≤ b.sequenceNumber
  · simp [hn, ReadBatch.blockOps_close]
  · simp [hn]

theorem perform_touches (hRec : l.Recorded number) (h : l.perform op = .ok (l', events)) : Touches l l' events := by
  obtain ⟨sent, hStep, hExecuted, rfl⟩ := perform_ok h
  obtain ⟨inner', executed'⟩ := l'
  subst hExecuted
  cases hStep with
  | unchanged hOpen =>
    refine ⟨by simp, by simp, rfl, ?_, le_refl _, by simp, fun _ _ _ => .inr ⟨rfl, rfl⟩⟩
    simp [hOpen, current_eq hOpen]
  | started hNone =>
    have hCur : l.current = l.inner.sequenceNumberOfNextBlob := by simp [current, hNone]
    refine ⟨?_, fun n => ?_, ?_, ?_, le_succ _, ?_, fun n hValid _ => .inl (hCur ▸ hValid _ mem_cons_self)⟩
    · rw [hCur]
      rfl
    · unfold blockOps
      by_cases hn : n ≤ l.inner.sequenceNumberOfNextBlob
      · simp [hCur, hNone, hn, completedBatchesToReplay, completedBatches, ReadBatch.blockOps, dbEvent, DbEvent.blockOps]
      · simp [hCur, hNone, hn, completedBatchesToReplay, completedBatches]
    · rw [hNone]
      rfl
    · simp [hCur]
    · simp [hCur, dbEvent, DbEvent.Valid]
  | @accepted tx hash b txNumber hOpen =>
    have hCur := current_eq hOpen
    refine ⟨?_, fun n => ?_, ?_, ?_, le_refl _, ?_, fun n _ hBefore => .inl (hCur ▸ hBefore b hOpen)⟩
    · simp [blockOp, hOpen, hCur, dbEvent, DbEvent.blockOps]
    · have hSame : (b.pushTx tx hash).sequenceNumber = b.sequenceNumber := rfl
      unfold blockOps
      by_cases hn : n ≤ b.sequenceNumber
      · simp [hOpen, hCur, hn, hSame, completedBatchesToReplay, completedBatches,
          ReadBatch.blockOps_pushTx (hRec.paired b hOpen), dbEvent, DbEvent.blockOps]
      · simp [hOpen, hCur, hn, hSame, completedBatchesToReplay, completedBatches]
    · rw [hOpen]
      rfl
    · simp [hCur, ReadBatch.pushTx]
    · simp [dbEvent, DbEvent.Valid]
  | closed hOpen =>
    have hCur := current_eq hOpen
    refine ⟨?_, ?_, ?_, by simp, le_refl _, ?_, fun n hValid _ => .inl (hCur ▸ hValid _ mem_cons_self)⟩
    · rw [hCur]
      rfl
    · rw [hCur]
      exact blockOps_closed hOpen
    · rw [hOpen]
      rfl
    · simp [hCur, dbEvent, DbEvent.Valid]
  | @proof blobId data =>
    have hSame : ∀ n, (l.inner.cache.insertProofBlob blobId data l.inner.sequenceNumberOfNextBlob).blockOps n =
        l.inner.cache.blockOps n := by
      intro n
      rw [blockOps, completedBatchesToReplay, completedBatches_insertProofBlob]
      rfl
    refine ⟨?_, fun n => ?_, rfl, fun b hb => (current_eq (l := l) hb).symm, le_succ _, ?_, fun _ _ _ => .inr ⟨rfl, rfl⟩⟩
    · simp [blockOp, dbEvent, DbEvent.blockOps]
    · rw [hSame]
      simp [dbEvent, DbEvent.blockOps]
    · simp [dbEvent, DbEvent.Valid]

theorem opsFrom_append {entries touched} (h : l'.executed = l.executed ++ entries.map (Prod.mk touched)) (n : Nat) :
    l'.opsFrom n = l.opsFrom n ++ if n ≤ touched then entries else [] := by
  unfold opsFrom
  rw [h, filter_append, map_append]
  by_cases hn : n ≤ touched <;> simp [List.filter_map, Function.comp_def, hn]

variable {s s' : SequencerInner Tx TxHash} {sent : List (ExecutorEvent Tx TxHash)}

theorem step_next_le (step : s.Step op s' sent) (hs : s.sequenceNumberOfNextBlob ≤ u64Max) :
    s'.sequenceNumberOfNextBlob ≤ u64Max := by
  cases step with
  | unchanged | accepted | closed => exact hs
  | started _ hRoom | proof hRoom => exact hRoom

theorem step_numbers (step : s.Step op s' sent) :
    s'.cache.numbers = s.cache.numbers ∧ s.sequenceNumberOfNextBlob ≤ s'.sequenceNumberOfNextBlob ∨
      s'.cache.numbers = s.cache.numbers ++ [s.sequenceNumberOfNextBlob] ∧
        s.sequenceNumberOfNextBlob < s'.sequenceNumberOfNextBlob := by
  cases step with
  | unchanged _ => exact .inl ⟨rfl, le_refl _⟩
  | started hNone => exact .inr ⟨by simp [numbers, allBatches, completedBatches, hNone], lt_succ_self _⟩
  | accepted hOpen _ => exact .inl ⟨by simp [numbers, allBatches, completedBatches, hOpen, ReadBatch.pushTx], le_refl _⟩
  | closed hOpen => exact .inl ⟨by simp [numbers, allBatches, completedBatches_append, hOpen], le_refl _⟩
  | proof =>
    refine .inl ⟨?_, le_succ _⟩
    rw [numbers, allBatches, completedBatches_insertProofBlob]
    rfl

theorem step_ordered (step : s.Step op s' sent) (hOrd : s.cache.numbers.Pairwise (· < ·))
    (hBelow : ∀ n ∈ s.cache.numbers, n < s.sequenceNumberOfNextBlob) :
    s'.cache.numbers.Pairwise (· < ·) ∧ ∀ n ∈ s'.cache.numbers, n < s'.sequenceNumberOfNextBlob := by
  obtain ⟨hSame, hNext⟩ | ⟨hMore, hNext⟩ := step_numbers step
  · rw [hSame]
    exact ⟨hOrd, fun n hn => (hBelow n hn).trans_le hNext⟩
  · rw [hMore]
    refine ⟨pairwise_append.mpr ⟨hOrd, pairwise_singleton _ _, fun a ha b hb => ?_⟩, fun n hn => ?_⟩
    · cases mem_singleton.mp hb
      exact hBelow a ha
    · rcases mem_append.mp hn with hn | hn
      · exact (hBelow n hn).trans hNext
      · cases mem_singleton.mp hn
        exact hNext

theorem step_paired (step : s.Step op s' sent)
    (hPaired : ∀ b ∈ s.cache.inProgressBatch, b.txs.length = b.txHashes.length) :
    ∀ b ∈ s'.cache.inProgressBatch, b.txs.length = b.txHashes.length := by
  cases step with
  | unchanged | proof => exact hPaired
  | started _ =>
    intro b hb
    cases mem_some_iff.mp hb
    rfl
  | @accepted tx hash b number hOpen _ =>
    intro b' hb'
    cases mem_some_iff.mp hb'
    simp [ReadBatch.pushTx, hPaired b hOpen]
  | closed _ => simp

theorem Recorded.perform (hRec : l.Recorded number) (h : l.perform op = .ok (l', events)) : l'.Recorded number := by
  have hTouch := perform_touches hRec h
  obtain ⟨sent, hStep, -, -⟩ := perform_ok h
  obtain ⟨hOrd, hBelow⟩ := step_ordered hStep (pairwise_map.mpr hRec.ordered)
    (forall_mem_map.mpr hRec.below)
  refine ⟨?_, pairwise_map.mp hOrd, forall_mem_map.mp hBelow, step_paired hStep hRec.paired,
    step_next_le hStep hRec.next_le⟩
  rw [opsFrom_append hTouch.executed, hTouch.cached, hRec.executed]

end Message

theorem recorded_start {next} (hNext : next ≤ u64Max) (number : Nat) :
    (start next : LiveSequencer Tx TxHash).Recorded number where
  executed := rfl
  ordered := Pairwise.nil
  below := by simp [start, SequencerInner.start, allBatches, completedBatches,
    empty]
  paired := by simp [start, SequencerInner.start, empty]
  next_le := hNext

theorem Recorded.prune {number upTo} (hRec : l.Recorded number) (h : upTo < number) :
    Recorded { l with inner := { l.inner with cache := l.inner.cache.prune upTo } } number := by
  have hSub : (l.inner.cache.prune upTo).allBatches.Sublist l.inner.cache.allBatches :=
    ((dropWhile_sublist _).filterMap _).append (Sublist.refl _)
  refine ⟨?_, hRec.ordered.sublist hSub, fun b hb => hRec.below b (hSub.subset hb), hRec.paired, hRec.next_le⟩
  rw [blockOps_prune h]
  exact hRec.executed

/-- After any history of messages and prunings below a number, the cache has all batches from that
number on. -/
theorem Recorded.history {number : Nat} {history : List (LiveEvent Tx TxHash)} (hRec : l.Recorded number)
    (hRun : history.foldlM LiveSequencer.step l = .ok l')
    (hPruned : ∀ upTo, .prune upTo ∈ history → upTo < number) : l'.Recorded number := by
  refine foldlM_keeps (fun l => l.Recorded number) (fun m event hEvent m' hm hStep => ?_) hRec hRun
  cases event with
  | op op =>
    simp only [step, bind_eq_ok, pure_eq_ok] at hStep
    obtain ⟨⟨m'', events⟩, hPerf, rfl⟩ := hStep
    exact hm.perform hPerf
  | prune upTo =>
    cases hStep
    exact hm.prune (hPruned upTo hEvent)

end LiveSequencer

namespace ReplayRun
variable {w w' : ReplayRun Tx TxHash} {nodeNext : Nat}

/-- The number that the task goes on from once it has replayed some completed batches. -/
def nextAfter (next : Nat) : List (ReadBatch Tx TxHash) → Nat
  | [] => next
  | b :: rest => nextAfter (saturatingAdd u64Max b.sequenceNumber 1) rest

theorem nextAfter_append (next : Nat) (batches : List (ReadBatch Tx TxHash)) (b : ReadBatch Tx TxHash) :
    nextAfter next (batches ++ [b]) = saturatingAdd u64Max b.sequenceNumber 1 := by
  induction batches generalizing next with
  | nil => rfl
  | cons b' rest ih => exact ih _

/-- No batch that the live sequencer works on is below a number. -/
def Above (w : ReplayRun Tx TxHash) (number : Nat) : Prop :=
  number ≤ w.live.inner.sequenceNumberOfNextBlob ∧ ∀ b ∈ w.live.inner.cache.inProgressBatch, number ≤ b.sequenceNumber

/-- Before the subscription: what is missing is in the fetched batches and in the cache. -/
structure Fetching (w : ReplayRun Tx TxHash) (nodeNext next : Nat) (batches : List (ReadBatch Tx TxHash)) :
    Prop where
  idle : w.executor.hasInProgressBatch = false
  unsubscribed : w.eventStream = none
  reached : nextAfter next batches = nodeNext ∨ nodeNext ≤ nextAfter next batches ∧ w.Above (nextAfter next batches)
  applied : w.live.opsFrom nodeNext = w.executor.applied ++
    (batches.flatMap (ReadBatch.blockOps false) ++ w.live.inner.cache.blockOps (nextAfter next batches))

/-- After the subscription: what is missing is in the batch that was fetched and in the queue, unless
the queue has an event at which the replay gives up. -/
structure CatchingUp (w : ReplayRun Tx TxHash) (nodeNext : Nat) (ops : List (BlockOp Tx TxHash))
    (queue : List (DbEvent Tx TxHash)) : Prop where
  flag : run w.executor.hasInProgressBatch (ops ++ queue.flatMap DbEvent.blockOps) =
    some w.live.inner.cache.inProgressBatch.isSome
  applied : (∀ event ∈ queue, event.Valid nodeNext) →
    (∀ b ∈ w.live.inner.cache.inProgressBatch, nodeNext ≤ b.sequenceNumber) ∧
      w.live.opsFrom nodeNext = w.executor.applied ++ (ops ++ queue.flatMap DbEvent.blockOps)

/-- The invariant of the replay, phase by phase. -/
inductive Tracks (w : ReplayRun Tx TxHash) (nodeNext : Nat) : Prop where
  | fetching {next : Nat} (hTask : w.task = .fetching next) (h : w.Fetching nodeNext next [])
  | replaying {next : Nat} {batches : List (ReadBatch Tx TxHash)} (hTask : w.task = .replaying next batches)
      (h : w.Fetching nodeNext next batches)
  | subscribed {next : Nat} {inProgress : Option (ReadBatch Tx TxHash)} {queue : List (DbEvent Tx TxHash)}
      (hTask : w.task = .subscribed next inProgress) (hStream : w.eventStream = some queue)
      (hNext : nodeNext ≤ next)
      (h : (∀ b ∈ inProgress, next ≤ b.sequenceNumber) →
        w.CatchingUp nodeNext (inProgress.toList.flatMap (ReadBatch.blockOps true)) queue)
  | catchingUp {next : Nat} {queue : List (DbEvent Tx TxHash)} (hTask : w.task = .catchingUp next)
      (hStream : w.eventStream = some queue) (hNext : nodeNext ≤ next) (h : w.CatchingUp nodeNext [] queue)
  | finishing {queue : List (DbEvent Tx TxHash)} (hTask : w.task = .finishing)
      (hStream : w.eventStream = some queue) (h : w.CatchingUp nodeNext [] queue)
  | swapped (hTask : w.task = .swapped) (h : w.executor.applied = w.live.opsFrom nodeNext)

section Live
variable {live : LiveSequencer Tx TxHash} {events : List (DbEvent Tx TxHash)}

theorem Above.le_current {number} (h : w.Above number) : number ≤ w.live.current := by
  cases hOpen : w.live.inner.cache.inProgressBatch with
  | none => simpa [current, hOpen] using h.1
  | some b => exact current_eq hOpen ▸ h.2 b hOpen

theorem Above.message {number} (h : w.Above number) (hTouch : w.live.Touches live events)
    (stream : Option (List (DbEvent Tx TxHash))) :
    Above { w with live, eventStream := stream } number :=
  ⟨h.1.trans hTouch.next_le, fun b hb => (hTouch.after b hb).symm ▸ h.le_current⟩

theorem Fetching.message {next batches} (h : w.Fetching nodeNext next batches)
    (hTouch : w.live.Touches live events) :
    Fetching { w with live, eventStream := w.eventStream.map (· ++ events) } nodeNext next batches := by
  have hCounted : nodeNext ≤ w.live.current ↔ nextAfter next batches ≤ w.live.current := by
    rcases h.reached with hSame | ⟨hLe, hAbove⟩
    · rw [hSame]
    · exact iff_of_true (hLe.trans hAbove.le_current) hAbove.le_current
  refine ⟨h.idle, by simp [h.unsubscribed], ?_, ?_⟩
  · exact h.reached.imp_right fun ⟨hLe, hAbove⟩ => ⟨hLe, hAbove.message hTouch _⟩
  · rw [opsFrom_append hTouch.executed, hTouch.cached, h.applied]
    simp only [hCounted, append_assoc]

theorem CatchingUp.message {ops : List (BlockOp Tx TxHash)} {queue : List (DbEvent Tx TxHash)}
    (h : w.CatchingUp nodeNext ops queue) (hTouch : w.live.Touches live events)
    (stream : Option (List (DbEvent Tx TxHash))) :
    CatchingUp { w with live, eventStream := stream } nodeNext ops (queue ++ events) := by
  constructor
  · rw [flatMap_append, ← append_assoc, run_append, h.flag]
    exact hTouch.flag
  · intro hValid
    obtain ⟨hOld, hNew⟩ := forall_mem_append.mp hValid
    obtain ⟨hOpen, hApplied⟩ := h.applied hOld
    rw [opsFrom_append hTouch.executed, hApplied]
    rcases hTouch.counted nodeNext hNew hOpen with hLe | ⟨hNone, hSame⟩
    · refine ⟨fun b hb => (hTouch.after b hb).symm ▸ hLe, ?_⟩
      rw [if_pos hLe]
      simp
    · refine ⟨fun b hb => hOpen b (hSame ▸ hb), ?_⟩
      simp [hNone]

theorem Tracks.message (h : w.Tracks nodeNext) (hTask : w.task ≠ .swapped)
    (hTouch : w.live.Touches live events) :
    Tracks { w with live, eventStream := w.eventStream.map (· ++ events) } nodeNext := by
  cases h with
  | fetching hTask h => exact .fetching hTask (h.message hTouch)
  | replaying hTask h => exact .replaying hTask (h.message hTouch)
  | subscribed hTask hStream hNext h =>
    refine .subscribed hTask (by rw [hStream]; rfl) hNext fun hValid => ?_
    exact (h hValid).message hTouch _
  | catchingUp hTask hStream hNext h =>
    exact .catchingUp hTask (by rw [hStream]; rfl) hNext (h.message hTouch _)
  | finishing hTask hStream h => exact .finishing hTask (by rw [hStream]; rfl) (h.message hTouch _)
  | swapped hSwapped h => exact absurd hSwapped hTask

end Live

def floor (nodeNext : Nat) : ReplayTask Tx TxHash → Nat
  | .fetching n => n
  | .replaying n batches => nextAfter n batches
  | .subscribed n _ => n
  | .catchingUp n => n
  | .finishing => nodeNext
  | .swapped => nodeNext

open List

/-- A replay that has no reason to give up. -/
structure Settled (w : ReplayRun Tx TxHash) (nodeNext : Nat) : Prop where
  above : w.Above (floor nodeNext w.task)
  fetched : ∀ next b, w.task = .subscribed next (some b) → next ≤ b.sequenceNumber
  queued : ∀ queue ∈ w.eventStream, ∀ event ∈ queue, event.Valid (floor nodeNext w.task)

theorem Settled.message {live events} (h : w.Settled nodeNext) (hTouch : w.live.Touches live events) :
    Settled { w with live, eventStream := w.eventStream.map (· ++ events) } nodeNext := by
  refine ⟨h.above.message hTouch _, h.fetched, fun queue hQueue event hEvent => ?_⟩
  obtain ⟨old, hOld, rfl⟩ := map_eq_some_iff.mp hQueue
  rcases mem_append.mp hEvent with hEvent | hEvent
  · exact h.queued old hOld event hEvent
  · exact hTouch.valid _ h.above.le_current event hEvent

section Task

variable {next : Nat} {queue : List (DbEvent Tx TxHash)}

variable {batches : List (ReadBatch Tx TxHash)}

theorem fetched_round {last} (hRec : w.live.Recorded nodeNext)
    (hFetch : w.live.inner.cache.completedBatchesToReplay next = batches ++ [last]) :
    next ≤ last.sequenceNumber ∧ nextAfter next (batches ++ [last]) = last.sequenceNumber + 1 ∧
      w.Above (last.sequenceNumber + 1) ∧
      w.live.inner.cache.blockOps next = (batches ++ [last]).flatMap (ReadBatch.blockOps false) ++
        w.live.inner.cache.blockOps (last.sequenceNumber + 1) := by
  obtain ⟨hCompl, -, hOpen⟩ := pairwise_append.mp hRec.ordered
  have hLast : last ∈ w.live.inner.cache.completedBatchesToReplay next := by
    rw [hFetch]
    exact mem_append_right _ mem_cons_self
  obtain ⟨hMem, hNext⟩ := mem_filter.mp hLast
  have hNext := of_decide_eq_true hNext
  have hBelow := hRec.below last (mem_append_left _ hMem)
  have hU64 := hRec.next_le
  -- no completed batch is above the last one
  have hNone : w.live.inner.cache.completedBatchesToReplay (last.sequenceNumber + 1) = [] := by
    refine filter_eq_nil_iff.mpr fun b hb hAbove => ?_
    have hAbove := of_decide_eq_true hAbove
    have hb' : b ∈ batches ++ [last] := by
      rw [← hFetch]
      exact mem_filter.mpr ⟨hb, decide_eq_true (by omega)⟩
    have hSorted : (batches ++ [last]).Pairwise fun a b => a.sequenceNumber < b.sequenceNumber :=
      hFetch ▸ hCompl.filter _
    rcases mem_append.mp hb' with hb' | hb'
    · have := (pairwise_append.mp hSorted).2.2 b hb' last mem_cons_self
      omega
    · cases mem_singleton.mp hb'
      omega
  have hInProgress : ∀ b ∈ w.live.inner.cache.inProgressBatch, last.sequenceNumber < b.sequenceNumber :=
    fun b hb => hOpen last hMem b (mem_toList.mpr hb)
  refine ⟨hNext, ?_, ⟨hBelow, hInProgress⟩, ?_⟩
  · rw [nextAfter_append, saturatingAdd]
    omega
  · rw [blockOps, blockOps, hFetch, hNone, flatMap_nil, nil_append]
    cases hCur : w.live.inner.cache.inProgressBatch with
    | none => rfl
    | some b =>
      have hLow := hInProgress b hCur
      have hKept : ∀ n ≤ b.sequenceNumber, ([b].filter fun b => n ≤ b.sequenceNumber) = [b] := fun n hn => by
        simp [hn]
      rw [toList_some, hKept next (by omega), hKept _ hLow]

/-- What a step of the task may do: keep track of the live sequencer, or give up for a reason. -/
def KeepsTrack (w : ReplayRun Tx TxHash) (nodeNext : Nat) : Prop :=
  Yields (fun w' => w'.live = w.live ∧ w'.Tracks nodeNext ∧ (w.Settled nodeNext → w'.Settled nodeNext))
    (fun e => e = .notEnabled ∨ e = .sequenceNumberMismatch ∧ ¬w.Settled nodeNext) (w.taskStep nodeNext)

theorem fetch_tracks (hRec : w.live.Recorded nodeNext) (hTask : w.task = .fetching next)
    (h : w.Fetching nodeNext next []) : w.KeepsTrack nodeNext := by
  have hNext : nodeNext ≤ next := by
    rcases h.reached with hSame | ⟨hLe, -⟩
    · exact hSame.ge
    · exact hLe
  unfold KeepsTrack taskStep
  rw [hTask]
  dsimp only
  split
  · -- nothing is left to fetch: subscribe, and take the batch in progress
    rename_i hNil
    refine ⟨rfl, .subscribed rfl rfl hNext fun hValid => ?_, fun hSettled => ?_⟩
    · have hOps : w.live.inner.cache.blockOps next =
          w.live.inner.cache.inProgressBatch.toList.flatMap (ReadBatch.blockOps true) := by
        rw [blockOps, hNil, flatMap_nil, nil_append, filter_eq_self.mpr]
        exact fun b hb => decide_eq_true (hValid b (mem_toList.mp hb))
      constructor
      · rw [h.idle, flatMap_nil, append_nil]
        cases w.live.inner.cache.inProgressBatch with
        | none => rfl
        | some b =>
          rw [toList_some, flatMap_singleton]
          exact b.run_blockOps true
      · refine fun _ => ⟨fun b hb => hNext.trans (hValid b hb), ?_⟩
        have hApplied := h.applied
        rw [nextAfter, hOps] at hApplied
        simpa using hApplied
    · have hAbove := hSettled.above
      rw [hTask] at hAbove
      refine ⟨hAbove, fun next' b hSubscribed => ?_, fun queue hQueue event hEvent => ?_⟩
      · obtain ⟨rfl, hOpen⟩ := ReplayTask.subscribed.inj hSubscribed
        exact hAbove.2 b hOpen
      · cases mem_some_iff.mp hQueue
        cases hEvent
  · -- a round of completed batches
    rename_i hSome
    obtain ⟨batches, last, hFetch⟩ := eq_nil_or_concat' _ |>.resolve_left hSome
    obtain ⟨_, hAfter, hAbove, hOps⟩ := fetched_round hRec hFetch
    rw [hFetch]
    refine ⟨rfl, .replaying rfl ⟨h.idle, h.unsubscribed, .inr ⟨?_, ?_⟩, ?_⟩, fun hSettled => ⟨?_, nofun, ?_⟩⟩
    · omega
    · rw [hAfter]
      exact hAbove
    · have hApplied := h.applied
      rw [nextAfter, hOps] at hApplied
      rw [hAfter]
      simpa using hApplied
    · rw [floor, hAfter]
      exact hAbove
    · rw [h.unsubscribed]
      nofun

theorem Settled.turn {task : ReplayTask Tx TxHash} (h : w.Settled nodeNext)
    (hFloor : floor nodeNext task = floor nodeNext w.task) (hTask : ∀ next b, task ≠ .subscribed next (some b))
    (executor : BlockExecutor Tx TxHash) : Settled { w with executor, task } nodeNext :=
  ⟨hFloor ▸ h.above, fun next b hSub => absurd hSub (hTask next b), hFloor ▸ h.queued⟩

theorem replay_tracks (hTask : w.task = .replaying next batches) (h : w.Fetching nodeNext next batches) :
    w.KeepsTrack nodeNext := by
  unfold KeepsTrack taskStep
  rw [hTask]
  cases batches with
  | nil =>
    refine ⟨rfl, .fetching rfl ⟨h.idle, h.unsubscribed, h.reached, h.applied⟩, fun hSettled => ?_⟩
    exact hSettled.turn (by rw [hTask]; rfl) (by nofun) _
  | cons b rest =>
    have hRun : run w.executor.hasInProgressBatch (b.blockOps false) = some false := by
      rw [h.idle]
      exact b.run_blockOps false
    have hReplay : w.executor.replayBatch false b = _ := foldlM_apply hRun
    dsimp only
    rw [hReplay]
    refine ⟨rfl, .replaying rfl ⟨rfl, h.unsubscribed, h.reached, ?_⟩, fun hSettled => ?_⟩
    · have hApplied := h.applied
      simpa [nextAfter] using hApplied
    · exact hSettled.turn (by rw [hTask]; rfl) (by nofun) _

/-- The executor takes the next operations, and the rest of the queue stays to be caught up with. -/
theorem CatchingUp.advance {ops more : List (BlockOp Tx TxHash)} {rest : List (DbEvent Tx TxHash)}
    {stream : Option (List (DbEvent Tx TxHash))} {task : ReplayTask Tx TxHash} (h : w.CatchingUp nodeNext ops queue)
    (hSplit : ops ++ queue.flatMap DbEvent.blockOps = more ++ rest.flatMap DbEvent.blockOps)
    (hFlag : run w.executor.hasInProgressBatch more = some flag)
    (hValid : (∀ event ∈ rest, event.Valid nodeNext) → ∀ event ∈ queue, event.Valid nodeNext) :
    CatchingUp ⟨w.live, stream, ⟨w.executor.applied ++ more, flag⟩, task⟩ nodeNext [] rest := by
  constructor
  · have hAll := h.flag
    rw [hSplit, run_append, hFlag] at hAll
    exact hAll
  · intro hRest
    obtain ⟨hOpen, hApplied⟩ := h.applied (hValid hRest)
    refine ⟨hOpen, ?_⟩
    rw [hApplied, hSplit, nil_append, append_assoc]

theorem subscribed_tracks {inProgress : Option (ReadBatch Tx TxHash)} (hTask : w.task = .subscribed next inProgress)
    (hStream : w.eventStream = some queue) (hNext : nodeNext ≤ next)
    (h : (∀ b ∈ inProgress, next ≤ b.sequenceNumber) →
      w.CatchingUp nodeNext (inProgress.toList.flatMap (ReadBatch.blockOps true)) queue) : w.KeepsTrack nodeNext := by
  unfold KeepsTrack taskStep
  rw [hTask]
  cases inProgress with
  | none =>
    have hCatching := h (by simp)
    exact ⟨rfl, .catchingUp rfl hStream hNext ⟨hCatching.flag, hCatching.applied⟩, fun hs => hs.turn (by rw [hTask]; rfl) (by nofun) _⟩
  | some b =>
    dsimp only
    by_cases hValid : next ≤ b.sequenceNumber
    · have hCatching := h (by simpa using hValid)
      rw [toList_some, flatMap_singleton] at hCatching
      obtain ⟨flag, hFlag, -⟩ := bind_eq_some_iff.mp (run_append ▸ hCatching.flag)
      have hReplay : w.executor.replayBatch true b = _ := foldlM_apply hFlag
      rw [validateSeqNrFromNode, ensure, if_pos hValid, hReplay]
      exact ⟨rfl, .catchingUp rfl hStream hNext (hCatching.advance rfl hFlag fun hRest => hRest),
        fun hs => hs.turn (by rw [hTask]; rfl) (by nofun) _⟩
    · rw [validateSeqNrFromNode, ensure, if_neg hValid]
      exact .inr ⟨rfl, fun hSettled => hValid (hSettled.fetched next b hTask)⟩

theorem catchingUp_tracks (hTask : w.task = .catchingUp next) (hStream : w.eventStream = some queue)
    (hNext : nodeNext ≤ next) (h : w.CatchingUp nodeNext [] queue) : w.KeepsTrack nodeNext := by
  obtain ⟨live, stream, executor, task⟩ := w
  subst hTask hStream
  unfold KeepsTrack taskStep
  dsimp only [getD_some]
  split
  · rename_i event other rest
    have hFlag := h.flag
    rw [nil_append, flatMap_cons, run_append] at hFlag
    obtain ⟨flag, hHead, -⟩ := bind_eq_some_iff.mp hFlag
    refine .bind ((doNextEvent_yields hHead).imp_error ?_) ?_
    · rintro err ⟨hErr, hInvalid⟩
      exact .inr ⟨hErr, fun hSettled => hInvalid (hSettled.queued _ rfl event mem_cons_self)⟩
    · rintro executor ⟨hValid, rfl⟩
      have hValid' : event.Valid nodeNext := hValid.anti hNext
      refine ⟨rfl, .catchingUp rfl rfl hNext ?_, fun hSettled => ⟨hSettled.above, nofun, ?_⟩⟩
      · refine h.advance (by simp) hHead fun hRest => ?_
        exact forall_mem_cons.mpr ⟨hValid', hRest⟩
      · intro queue hQueue event' hEvent'
        cases mem_some_iff.mp hQueue
        exact hSettled.queued _ rfl event' (mem_cons_of_mem _ hEvent')
  · refine ⟨rfl, .finishing rfl rfl ⟨h.flag, h.applied⟩, fun hSettled => ⟨?_, nofun, ?_⟩⟩
    · exact ⟨hNext.trans hSettled.above.1, fun b hb => hNext.trans (hSettled.above.2 b hb)⟩
    · exact fun queue' hQueue event hEvent => (hSettled.queued queue' hQueue event hEvent).anti hNext

theorem finishing_tracks (hTask : w.task = .finishing) (hStream : w.eventStream = some queue)
    (h : w.CatchingUp nodeNext [] queue) : w.KeepsTrack nodeNext := by
  obtain ⟨live, stream, executor, task⟩ := w
  subst hTask hStream
  refine .bind ((foldlM_doNextEvent_yields h.flag).imp_error ?_) ?_
  · rintro err ⟨hErr, hInvalid⟩
    exact .inr ⟨hErr, fun hSettled => hInvalid (hSettled.queued _ rfl)⟩
  · rintro executor ⟨hValid, rfl⟩
    obtain ⟨-, hApplied⟩ := h.applied hValid
    exact ⟨rfl, .swapped rfl hApplied.symm, fun hSettled => ⟨hSettled.above, nofun, nofun⟩⟩

theorem Tracks.keeps (h : w.Tracks nodeNext) (hRec : w.live.Recorded nodeNext) : w.KeepsTrack nodeNext := by
  cases h with
  | fetching hTask h => exact fetch_tracks hRec hTask h
  | replaying hTask h => exact replay_tracks hTask h
  | subscribed hTask hStream hNext h => exact subscribed_tracks hTask hStream hNext h
  | catchingUp hTask hStream hNext h => exact catchingUp_tracks hTask hStream hNext h
  | finishing hTask hStream h => exact finishing_tracks hTask hStream h
  | swapped hTask h =>
    unfold KeepsTrack taskStep
    rw [hTask]
    exact .inl rfl

end Task

variable {capacity : Nat}

theorem liveStep_ok {op} (h : w.liveStep capacity op = .ok w') :
    ∃ live events, w.live.perform op = .ok (live, events) ∧
      w' = { w with live, eventStream := w.eventStream.map (· ++ events) } := by
  simp only [liveStep, bind_eq_ok, mapError_eq_ok, pure_eq_ok] at h
  obtain ⟨-, -, ⟨live, events⟩, hPerf, rfl⟩ := h
  exact ⟨live, events, hPerf, rfl⟩

/-- The replay in step with the live sequencer. -/
structure InStep (w : ReplayRun Tx TxHash) (nodeNext : Nat) : Prop where
  recorded : w.live.Recorded nodeNext
  tracks : w.Tracks nodeNext

theorem step_keeps {event} (h : w.InStep nodeNext) (hStep : w.step nodeNext capacity event = .ok w') :
    w'.InStep nodeNext ∧ (w.Settled nodeNext → w'.Settled nodeNext) := by
  cases event with
  | live op =>
    have hLive : w.task ≠ .swapped ∧ w.liveStep capacity op = .ok w' := by
      unfold step at hStep
      dsimp only at hStep
      split at hStep
      · cases hStep
      · exact ⟨‹_›, hStep⟩
    obtain ⟨live, events, hPerf, rfl⟩ := liveStep_ok hLive.2
    have hTouch := perform_touches h.recorded hPerf
    exact ⟨⟨h.recorded.perform hPerf, h.tracks.message hLive.1 hTouch⟩, fun hSettled =>
      hSettled.message hTouch⟩
  | task =>
    obtain ⟨hSame, hTracks, hSettled⟩ := (h.tracks.keeps h.recorded).of_ok hStep
    exact ⟨⟨hSame ▸ h.recorded, hTracks⟩, hSettled⟩

theorem start_inStep {live : LiveSequencer Tx TxHash} (hRec : live.Recorded nodeNext) :
    (start live nodeNext).InStep nodeNext := by
  refine ⟨hRec, .fetching rfl ⟨rfl, rfl, .inl rfl, ?_⟩⟩
  simpa [start, new, nextAfter] using hRec.executed

/-- In every interleaving of messages of the live sequencer with a replay on top of a node state: once
the replay executor is swapped in, it has been given the operations of the live executor for the
batches from the node's next number on, in the same order. No step of the replay panics, and it
gives up only if the node is ahead of a batch in progress. -/
theorem replay_applies_live_operations {next nodeNext capacity : Nat} (hNext : next ≤ u64Max)
    {history : List (LiveEvent Tx TxHash)} {live : LiveSequencer Tx TxHash}
    (hHistory : history.foldlM LiveSequencer.step (.start next) = .ok live)
    (hPruned : ∀ upTo, .prune upTo ∈ history → upTo < nodeNext)
    {events : List (ReplayEvent Tx TxHash)} {w : ReplayRun Tx TxHash}
    (hRun : events.foldlM (ReplayRun.step nodeNext capacity) (start live nodeNext) = .ok w) :
    (w.task = .swapped → w.executor.applied = w.live.opsFrom nodeNext) ∧
      w.step nodeNext capacity .task ≠ .error .blockInProgress ∧
      w.step nodeNext capacity .task ≠ .error .noBlockInProgress ∧
      (nodeNext ≤ live.inner.sequenceNumberOfNextBlob →
        (∀ b ∈ live.inner.cache.inProgressBatch, nodeNext ≤ b.sequenceNumber) →
        w.step nodeNext capacity .task ≠ .error .sequenceNumberMismatch) := by
  have hRecorded := (recorded_start hNext nodeNext).history hHistory hPruned
  have hAll : w.InStep nodeNext ∧ ((start live nodeNext).Settled nodeNext → w.Settled nodeNext) := by
    refine foldlM_keeps
      (fun v => v.InStep nodeNext ∧ ((start live nodeNext).Settled nodeNext → v.Settled nodeNext))
      (fun v event _ v' hv hStep => ?_) ⟨start_inStep hRecorded, id⟩ hRun
    obtain ⟨hIn, hSettled⟩ := step_keeps hv.1 hStep
    exact ⟨hIn, fun hStart => hSettled (hv.2 hStart)⟩
  obtain ⟨hIn, hSettled⟩ := hAll
  have hKeeps := hIn.tracks.keeps hIn.recorded
  refine ⟨fun hSwapped => ?_, fun hError => ?_, fun hError => ?_, fun hAbove hOpen hError => ?_⟩
  · cases hIn.tracks with
    | swapped _ h => exact h
    | fetching hTask _ | replaying hTask _ | subscribed hTask _ _ _ | catchingUp hTask _ _ _ | finishing hTask _ _ =>
      cases hTask.symm.trans hSwapped
  · rcases hKeeps.of_error hError with hOther | ⟨hOther, -⟩ <;> cases hOther
  · rcases hKeeps.of_error hError with hOther | ⟨hOther, -⟩ <;> cases hOther
  · rcases hKeeps.of_error hError with hOther | ⟨-, hNot⟩
    · cases hOther
    · refine hNot (hSettled ⟨⟨hAbove, hOpen⟩, fun next' b hSubscribed => ?_, fun queue hQueue => ?_⟩)
      · cases hSubscribed
      · cases hQueue

/-- Batch 0 is completed when the replay starts and batch 1 is open; batch 1 is closed and batch 2
started while the replay catches up. -/
def busyReplay : List (ReplayEvent Nat Nat) :=
  [.task, .task, .live (.acceptTx 3 3), .task, .task, .task, .live .closeBatch, .live (.startBatch 3 1 12), .task,
    .live (.acceptTx 4 4), .task, .task, .task]

/-- A batch is ended and another one begun while the replay catches up. -/
theorem busy_replay_applies_live_operations :
    ∃ (live : LiveSequencer Nat Nat) (w : ReplayRun Nat Nat),
      [LiveEvent.op (.startBatch 1 1 10), .op (.acceptTx 1 1), .op .closeBatch, .op (.startBatch 2 1 11),
        .op (.acceptTx 2 2)].foldlM LiveSequencer.step (.start 0) = .ok live ∧
      busyReplay.foldlM (ReplayRun.step 0 8) (start live 0) = .ok w ∧ w.task = .swapped ∧
      w.executor.applied = w.live.opsFrom 0 ∧ w.executor.applied.length = 9 := by
  simp only [exists_and_left]
  refine exists_and_of returned fun hHistory => exists_and_of returned fun hRun => ?_
  have hApplied := (replay_applies_live_operations (zero_le _) hHistory (by simp) hRun).1 rfl
  exact ⟨rfl, hApplied, by decide +kernel⟩

end ReplayRun
end SovereignSdk
