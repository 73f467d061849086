import Mathlib.Data.List.AList
import SovereignSdk.StfBlueprint.Slot
import Mathlib.Logic.Function.Basic

/-! The ledger tables that are filled when a slot is committed, and what can be looked up there about a
blob. -/
namespace SovereignSdk
open List DiscardedBlob Function
variable {S : Spec}

/-- The receipts of a slot, by the hash of the blob they are about. -/
structure SlotReceipts where
  batches : List Hash
  proofs : List Hash

/-- Batches and emergency registrations give batch receipts, proofs give proof receipts. -/
def SlotReceipts.push (receipts : SlotReceipts) (selected : SelectedBlob S) : SlotReceipts :=
  match selected.blobData with
  | .batch _ id _ => { receipts with batches := receipts.batches ++ [id] }
  | .emergencyRegistration _ id => { receipts with batches := receipts.batches ++ [id] }
  | .proof _ id _ => { receipts with proofs := receipts.proofs ++ [id] }

def SlotReport.receipts (report : SlotReport S) : SlotReceipts :=
  report.selectedBlobs.foldl SlotReceipts.push ⟨[], []⟩

def BlobData.isProof : BlobData S → Bool
  | .proof .. => true
  | _ => false

theorem SlotReport.receipts_batches (report : SlotReport S) :
    report.receipts.batches =
      ((report.selectedBlobs.filter fun b => !b.blobData.isProof).map fun b => b.blobData.id) := by
  have hFold : ∀ (l : List (SelectedBlob S)) (receipts : SlotReceipts),
      (l.foldl SlotReceipts.push receipts).batches =
        receipts.batches ++ ((l.filter fun b => !b.blobData.isProof).map fun b => b.blobData.id) := by
    intro l
    induction l with
    | nil => simp
    | cons b rest ih =>
      intro receipts
      rw [foldl_cons, ih]
      cases hData : b.blobData <;> simp [SlotReceipts.push, hData, BlobData.isProof, BlobData.id]
  exact hFold report.selectedBlobs ⟨[], []⟩

structure StoredBatch where
  hash : Hash
  slotNumber : Nat
  deriving DecidableEq, Repr

structure StoredDiscardedBlob where
  discardedBlob : DiscardedBlob
  slotNumber : Nat
  deriving DecidableEq, Repr

/-- `BatchByNumber` is a list, and so is `SlotByNumber`, of which only the length matters here. -/
structure LedgerDb where
  nextSlotNumber : Nat
  batchByNumber : List StoredBatch
  batchByHash : AList fun _ : Hash => Nat
  discardedBlobByHash : AList fun _ : Hash => StoredDiscardedBlob
  latestFinalizedSlot : Option Nat

inductive BlobSelectorStatus where
  | discarded (reason : BlobDiscardReason)
  | accepted
  deriving DecidableEq, Repr

namespace LedgerDb

def empty : LedgerDb := ⟨0, [], ∅, ∅, none⟩

variable (db : LedgerDb)

def putBatch (hash : Hash) : LedgerDb :=
  { db with
    batchByNumber := db.batchByNumber ++ [⟨hash, db.nextSlotNumber⟩]
    batchByHash := db.batchByHash.insert hash db.batchByNumber.length }

def putDiscardedBlob (blob : DiscardedBlob) : LedgerDb :=
  { db with discardedBlobByHash := db.discardedBlobByHash.insert blob.blobHash ⟨blob, db.nextSlotNumber⟩ }

/-- The data to commit holds the batch receipts and the discarded blobs of a slot. -/
def materializeSlot (batchReceipts : List Hash) (discardedBlobs : List DiscardedBlob) : LedgerDb :=
  let db := discardedBlobs.foldl putDiscardedBlob (batchReceipts.foldl putBatch db)
  { db with nextSlotNumber := db.nextSlotNumber + 1 }

def materializeLatestFinalizeSlot (slotNumber : Nat) : LedgerDb :=
  { db with latestFinalizedSlot := some slotNumber }

def getBatchByHash (hash : Hash) : Option StoredBatch := do
  db.batchByNumber[← db.batchByHash.lookup hash]?

def getDiscardedBlobByHash (hash : Hash) : Option StoredDiscardedBlob :=
  db.discardedBlobByHash.lookup hash

def getLatestFinalizedSlotNumber : Nat := db.latestFinalizedSlot.getD 0

def blobFinalizedOrDiscarded (hash : Hash) : Option (Bool × BlobSelectorStatus) :=
  match db.getBatchByHash hash with
  | some batch => some (decide (batch.slotNumber ≤ db.getLatestFinalizedSlotNumber), .accepted)
  | none =>
    match db.getDiscardedBlobByHash hash with
    | some blob =>
      some (decide (blob.slotNumber ≤ db.getLatestFinalizedSlotNumber), .discarded blob.discardedBlob.reason)
    | none => none

section Tables
variable {db : LedgerDb} {hash other : Hash}

def Numbered (db : LedgerDb) : Prop :=
  ∀ hash n, db.batchByHash.lookup hash = some n → n < db.batchByNumber.length

theorem getBatchByHash_putBatch (h : db.Numbered) :
    (db.putBatch hash).getBatchByHash other =
      if other = hash then some ⟨hash, db.nextSlotNumber⟩ else db.getBatchByHash other := by
  unfold getBatchByHash putBatch
  split
  · subst other
    simp
  · rename_i hNe
    rw [AList.lookup_insert_ne hNe]
    cases hLookup : db.batchByHash.lookup other with
    | none => rfl
    | some n =>
      have hLt := h other n hLookup
      simp [getElem?_append_left hLt]

theorem Numbered.putBatch (h : db.Numbered) : (db.putBatch hash).Numbered := by
  intro other n hLookup
  simp only [LedgerDb.putBatch, length_append] at hLookup ⊢
  by_cases hSame : other = hash
  · subst other
    rw [AList.lookup_insert] at hLookup
    cases hLookup
    exact Nat.lt_succ_self _
  · rw [AList.lookup_insert_ne hSame] at hLookup
    exact Nat.lt_succ_of_lt (h other n hLookup)

theorem foldl_putBatch (batches : List Hash) (h : db.Numbered) : let next := batches.foldl LedgerDb.putBatch db
    next.Numbered ∧ next.nextSlotNumber = db.nextSlotNumber ∧ next.discardedBlobByHash = db.discardedBlobByHash ∧
      ∀ other, next.getBatchByHash other =
        if other ∈ batches then some ⟨other, db.nextSlotNumber⟩ else db.getBatchByHash other := by
  induction batches generalizing db with
  | nil => exact ⟨h, rfl, rfl, fun _ => by simp⟩
  | cons hash rest ih =>
    obtain ⟨hNumbered, hSlot, hDisc, hLookup⟩ := ih (Numbered.putBatch h)
    refine ⟨hNumbered, hSlot, hDisc, fun other => ?_⟩
    rw [foldl_cons, hLookup other, getBatchByHash_putBatch h]
    by_cases hRest : other ∈ rest
    · simp [hRest, LedgerDb.putBatch]
    · by_cases hSame : other = hash
      · subst other
        simp [hRest]
      · simp [hRest, hSame]

theorem foldl_putDiscardedBlob (blobs : List DiscardedBlob) : let next := blobs.foldl putDiscardedBlob db
    next = { db with discardedBlobByHash := next.discardedBlobByHash } ∧
      ∀ other, (next.getDiscardedBlobByHash other).isSome ↔
        other ∈ blobs.map blobHash ∨ (db.getDiscardedBlobByHash other).isSome := by
  induction blobs generalizing db with
  | nil => exact ⟨rfl, fun _ => by simp⟩
  | cons blob rest ih =>
    obtain ⟨hSame, hLookup⟩ := @ih (db.putDiscardedBlob blob)
    refine ⟨hSame, fun other => ?_⟩
    rw [foldl_cons, hLookup other]
    have hHere : ((db.putDiscardedBlob blob).getDiscardedBlobByHash other).isSome ↔
        other = blob.blobHash ∨ (db.getDiscardedBlobByHash other).isSome := by
      unfold getDiscardedBlobByHash putDiscardedBlob
      by_cases hEq : other = blob.blobHash
      · rw [hEq]
        simp
      · simp [hEq]
    rw [map_cons, mem_cons]
    tauto

@[simp] theorem getLatestFinalizedSlotNumber_materializeSlot (batches : List Hash) (discarded : List DiscardedBlob) :
    (db.materializeSlot batches discarded).getLatestFinalizedSlotNumber = db.getLatestFinalizedSlotNumber := by
  have hBatches : ∀ db : LedgerDb, (batches.foldl putBatch db).latestFinalizedSlot = db.latestFinalizedSlot := by
    induction batches with
    | nil => exact fun _ => rfl
    | cons hash rest ih => exact fun db => ih (db.putBatch hash)
  obtain ⟨hSame, -⟩ := @foldl_putDiscardedBlob (batches.foldl putBatch db) discarded
  unfold getLatestFinalizedSlotNumber materializeSlot
  rw [hSame]
  exact congrArg (·.getD 0) (hBatches db)

end Tables

/-- What has been committed: the batch receipts and the discarded blobs of each slot, in order. -/
abbrev Committed := List (List Hash × List DiscardedBlob)

/-- The ledger of a node that has committed these slots. -/
structure Holds (db : LedgerDb) (committed : Committed) : Prop where
  numbered : db.Numbered
  slots : db.nextSlotNumber = committed.length
  batches : ∀ hash batch, db.getBatchByHash hash = some batch →
    ∃ slot, committed[batch.slotNumber]? = some slot ∧ hash ∈ slot.1
  allBatches : ∀ slot ∈ committed, ∀ hash ∈ slot.1, (db.getBatchByHash hash).isSome
  discards : ∀ hash, (db.getDiscardedBlobByHash hash).isSome ↔ ∃ slot ∈ committed, hash ∈ slot.2.map blobHash

theorem holds_empty : empty.Holds [] where
  numbered := by simp [Numbered, empty]
  slots := rfl
  batches := by simp [getBatchByHash, empty]
  allBatches := by simp
  discards := by simp [getDiscardedBlobByHash, empty]

namespace Holds
variable {db : LedgerDb} {committed : Committed} {hash : Hash}

section
variable (h : db.Holds committed)
include h

theorem materializeSlot (batches : List Hash) (discarded : List DiscardedBlob) :
    (db.materializeSlot batches discarded).Holds (committed ++ [(batches, discarded)]) := by
  obtain ⟨hNumbered, hSlot, hDisc, hBatch⟩ := foldl_putBatch batches h.numbered
  obtain ⟨hSame, hDiscards⟩ := @foldl_putDiscardedBlob (batches.foldl LedgerDb.putBatch db) discarded
  have hGet : ∀ other, (db.materializeSlot batches discarded).getBatchByHash other =
      if other ∈ batches then some ⟨other, db.nextSlotNumber⟩ else db.getBatchByHash other := by
    intro other
    rw [← hBatch other]
    unfold LedgerDb.materializeSlot
    rw [hSame]
    rfl
  have hGetDiscarded : ∀ other, ((db.materializeSlot batches discarded).getDiscardedBlobByHash other).isSome ↔
      other ∈ discarded.map blobHash ∨ (db.getDiscardedBlobByHash other).isSome := by
    intro other
    refine (hDiscards other).trans (or_congr_right ?_)
    rw [getDiscardedBlobByHash, hDisc]
    rfl
  refine ⟨?_, ?_, ?_, ?_, ?_⟩
  · unfold LedgerDb.materializeSlot
    rw [hSame]
    exact hNumbered
  · have hNext : (db.materializeSlot batches discarded).nextSlotNumber = db.nextSlotNumber + 1 := by
      unfold LedgerDb.materializeSlot
      rw [hSame]
      exact congrArg (· + 1) hSlot
    rw [hNext, h.slots, length_append, length_singleton]
  · intro other batch hOther
    rw [hGet] at hOther
    split at hOther
    · rename_i hMem
      cases hOther
      exact ⟨(batches, discarded), by simp [h.slots], hMem⟩
    · obtain ⟨slot, hAt, hMem⟩ := h.batches other batch hOther
      exact ⟨slot, by rw [List.getElem?_append_left (List.getElem?_eq_some_iff.mp hAt).1, hAt], hMem⟩
  · intro slot hMem other hOther
    rw [hGet]
    split
    · rfl
    · rename_i hNot
      obtain hOld | hNew := mem_append.mp hMem
      · exact h.allBatches slot hOld other hOther
      · cases mem_singleton.mp hNew
        exact absurd hOther hNot
  · intro other
    rw [hGetDiscarded, h.discards]
    constructor
    · rintro (hNew | ⟨slot, hMem, hOther⟩)
      · exact ⟨_, mem_append_right _ (mem_singleton_self _), hNew⟩
      · exact ⟨slot, mem_append_left _ hMem, hOther⟩
    · rintro ⟨slot, hMem, hOther⟩
      obtain hOld | hNew := mem_append.mp hMem
      · exact .inr ⟨slot, hOld, hOther⟩
      · cases mem_singleton.mp hNew
        exact .inl hOther

theorem materializeLatestFinalizeSlot (slotNumber : Nat) :
    (db.materializeLatestFinalizeSlot slotNumber).Holds committed :=
  ⟨h.numbered, h.slots, h.batches, h.allBatches, h.discards⟩

theorem recognized_iff :
    (db.blobFinalizedOrDiscarded hash).isSome ↔
      ∃ slot ∈ committed, hash ∈ slot.1 ∨ hash ∈ slot.2.map blobHash := by
  have hBatches : (db.getBatchByHash hash).isSome ↔ ∃ slot ∈ committed, hash ∈ slot.1 := by
    constructor
    · intro hSome
      obtain ⟨batch, hBatch⟩ := Option.isSome_iff_exists.mp hSome
      obtain ⟨slot, hAt, hMem⟩ := h.batches hash batch hBatch
      exact ⟨slot, mem_of_getElem? hAt, hMem⟩
    · rintro ⟨slot, hMem, hHash⟩
      exact h.allBatches slot hMem hash hHash
  have hEither : (db.blobFinalizedOrDiscarded hash).isSome ↔
      (db.getBatchByHash hash).isSome ∨ (db.getDiscardedBlobByHash hash).isSome := by
    unfold blobFinalizedOrDiscarded
    cases db.getBatchByHash hash <;> cases db.getDiscardedBlobByHash hash <;> simp
  rw [hEither, hBatches, h.discards]
  simp only [and_or_left, exists_or]

theorem accepted_of_some {final status}
    (hNot : ∀ slot ∈ committed, hash ∉ slot.2.map blobHash)
    (hSome : db.blobFinalizedOrDiscarded hash = some (final, status)) : status = .accepted := by
  have hNone : db.getDiscardedBlobByHash hash = none := by
    rw [← Option.not_isSome_iff_eq_none, h.discards]
    rintro ⟨slot, hMem, hHash⟩
    exact hNot slot hMem hHash
  unfold blobFinalizedOrDiscarded at hSome
  rw [hNone] at hSome
  split at hSome <;> simp at hSome
  exact hSome.2.symm

end

end Holds
end LedgerDb

/-! The blob sender beside the node whose ledger it watches: one task for each blob that is published through
it, from the submission to the hook for the finalized blob. -/
open Function

inductive BlobToSend where
  | batch (data : List UInt8)
  | proof (data : List UInt8)
  deriving DecidableEq, Repr

structure SubmitBlobReceipt where
  blobHash : Hash
  daTransactionId : Nat
  deriving DecidableEq, Repr

inductive BlobSubmissionStatus where
  | mustSubmit
  | published (receipt : SubmitBlobReceipt)
  | processed (receipt : SubmitBlobReceipt)
  | finalized (receipt : SubmitBlobReceipt)
  deriving DecidableEq, Repr

structure BlobExecutionStatus where
  submission : BlobSubmissionStatus
  selector : Option BlobSelectorStatus
  deriving DecidableEq, Repr

def BlobExecutionStatus.toSubmit : BlobExecutionStatus := ⟨.mustSubmit, none⟩

inductive HookCall where
  | onPublishedBlob (blobId : Nat) (receipt : SubmitBlobReceipt)
  | onFinalizedBlob (blobId : Nat) (receipt : SubmitBlobReceipt)
  deriving DecidableEq, Repr

def HookCall.blobId : HookCall → Nat
  | onPublishedBlob blobId _ => blobId
  | onFinalizedBlob blobId _ => blobId

/-- A task in the map of blobs in flight. It stays there for a while when it has ended. -/
structure InFlightBlob where
  blob : BlobToSend
  status : BlobExecutionStatus
  timer : Nat
  attempted : Nat
  finished : Bool

def maxNbOfBlobSubmissionRetries : Nat := 3

/-- `da blobId n` is the answer of the DA service to the submission of a blob after `n` earlier ones of it. -/
structure BlobSenderConfig where
  blobProcessingTimeout : Nat
  da : Nat → Nat → Option SubmitBlobReceipt

/-- The node's rollup state and ledger, the sender's two tables and its map of tasks. The last fields record
what was asked of the sender, what it submitted at which time, the hooks called, and the slots committed. -/
structure BlobSenderNode (S : Spec) where
  now : Nat
  rollup : RollupState S
  ledger : LedgerDb
  blobs : Nat → Option BlobToSend
  blobInfos : Nat → Option BlobExecutionStatus
  inFlightBlobs : Nat → Option InFlightBlob
  shutdown : Bool
  requested : List (Nat × BlobToSend)
  submissions : List (Nat × Nat)
  hooks : List HookCall
  committed : List (SlotReport S)

inductive BlobSenderEvent (S : Spec) where
  | publish (blobId : Nat) (blob : BlobToSend)
  | submit (blobId : Nat)
  | poll (blobId : Nat)
  | slot (blobs : RelevantBlobs S)
  | finalize (slotNumber : Nat)
  | clock (time : Nat)
  | metricsTick

def BlobSenderEvent.blobId? : BlobSenderEvent S → Option Nat
  | .publish blobId _ => some blobId
  | .submit blobId => some blobId
  | .poll blobId => some blobId
  | _ => none

def BlobSenderEvent.requests : BlobSenderEvent S → List (Nat × BlobToSend)
  | .publish blobId blob => [(blobId, blob)]
  | _ => []

inductive NodeError where
  | notEnabled
  | selectorStatusIsNone
  | panic (p : Panic)

namespace BlobSenderNode
variable (cfg : BlobSenderConfig)

def start (rollup : RollupState S) : BlobSenderNode S :=
  ⟨0, rollup, .empty, fun _ => none, fun _ => none, fun _ => none, false, [], [], [], []⟩

/-- The tasks that have not ended. -/
def retain (tasks : Nat → Option InFlightBlob) : Nat → Option InFlightBlob :=
  fun blobId => (tasks blobId).filter fun task => !task.finished

section
variable (s : BlobSenderNode S) (blobId : Nat)

def task : Option InFlightBlob := retain s.inFlightBlobs blobId

def timesSubmitted : Nat := s.submissions.countP fun e => e.1 = blobId

def hooksOf : List HookCall :=
  s.hooks.filter fun call => call.blobId = blobId

variable (task : InFlightBlob)

def setTask : BlobSenderNode S :=
  { s with inFlightBlobs := update s.inFlightBlobs blobId (some task) }

def setStatus (status : BlobExecutionStatus) : BlobSenderNode S :=
  { s.setTask blobId { task with status } with
    blobInfos := update s.blobInfos blobId (some status) }

def shutDown : BlobSenderNode S :=
  { s.setTask blobId { task with finished := true } with shutdown := true }

def publish (blob : BlobToSend) : BlobSenderNode S :=
  let s := { s with requested := s.requested ++ [(blobId, blob)] }
  if s.shutdown then s
  else if (s.inFlightBlobs blobId).isSome then s
  else
    let tasks := update s.inFlightBlobs blobId (some ⟨blob, .toSubmit, 0, 0, false⟩)
    { s with blobs := update s.blobs blobId (some blob), inFlightBlobs := retain tasks }

/-- Send the blob. When the receipt is there the hook is called and the timer starts. -/
def submit : BlobSenderNode S :=
  let answer := cfg.da blobId (s.timesSubmitted blobId)
  let s := { s.setStatus blobId task .toSubmit with submissions := s.submissions ++ [(blobId, s.now)] }
  match answer with
  | none => s.shutDown blobId task
  | some receipt =>
    { s.setStatus blobId { task with timer := s.now, attempted := task.attempted + 1 } ⟨.published receipt, none⟩
        with hooks := s.hooks ++ [.onPublishedBlob blobId receipt] }

/-- A clock that went back counts as a timeout. -/
def checkTimeout (timer : Nat) : Bool :=
  s.now < timer || cfg.blobProcessingTimeout < s.now - timer

/-- One round of the wait for the blob to be processed. -/
def pollPublished (receipt : SubmitBlobReceipt) : BlobSenderNode S :=
  if s.checkTimeout cfg task.timer then
    if maxNbOfBlobSubmissionRetries ≤ task.attempted then s.shutDown blobId task
    else s.setStatus blobId task .toSubmit
  else
    match s.ledger.blobFinalizedOrDiscarded receipt.blobHash with
    | some (_, status) => s.setStatus blobId task ⟨.processed receipt, some status⟩
    | none => s

/-- One round of the wait for the blob to be finalized. -/
def pollProcessed (receipt : SubmitBlobReceipt) : BlobSenderNode S :=
  match s.ledger.blobFinalizedOrDiscarded receipt.blobHash with
  | some (false, _) => s
  | some (true, status) => s.setTask blobId { task with status := ⟨.finalized receipt, some status⟩ }
  | none => s.setStatus blobId task .toSubmit

/-- A finalized blob is done with, or sent again. -/
def pollFinalized (receipt : SubmitBlobReceipt) : Except NodeError (BlobSenderNode S) :=
  match task.status.selector with
  | some .accepted | some (.discarded .sequenceNumberTooLow) =>
    .ok { s.setTask blobId { task with finished := true } with
      hooks := s.hooks ++ [.onFinalizedBlob blobId receipt]
      blobs := update s.blobs blobId none
      blobInfos := update s.blobInfos blobId none }
  | some (.discarded _) => .ok (s.setStatus blobId task .toSubmit)
  | none => .error .selectorStatusIsNone

/-- The node executes a slot and commits it: of the receipts, the ledger gets those of batches. -/
def slot (blobs : RelevantBlobs S) : Except NodeError (BlobSenderNode S) := do
  let (rollup, report) ← (applySlot s.rollup blobs).mapError .panic
  return { s with
    rollup
    ledger := s.ledger.materializeSlot report.receipts.batches report.discarded
    committed := s.committed ++ [report] }

/-- A turn of a task that has ended, or that waits for the DA service, does nothing. -/
def step (event : BlobSenderEvent S) : Except NodeError (BlobSenderNode S) :=
  match event with
  | .publish blobId blob => .ok (s.publish blobId blob)
  | .submit blobId =>
    match s.shutdown, s.task blobId with
    | false, some task =>
      if task.status.submission = .mustSubmit then .ok (s.submit cfg blobId task) else .error .notEnabled
    | _, _ => .error .notEnabled
  | .poll blobId =>
    match s.shutdown, s.task blobId with
    | false, some task =>
      match task.status.submission with
      | .mustSubmit => .ok s
      | .published receipt => .ok (s.pollPublished cfg blobId task receipt)
      | .processed receipt => .ok (s.pollProcessed blobId task receipt)
      | .finalized receipt => s.pollFinalized blobId task receipt
    | _, _ => .ok s
  | .slot blobs => s.slot blobs
  | .finalize slotNumber => .ok { s with ledger := s.ledger.materializeLatestFinalizeSlot slotNumber }
  | .clock time => .ok { s with now := time }
  | .metricsTick => .ok { s with inFlightBlobs := retain s.inFlightBlobs }

end

inductive Step : BlobSenderNode S → BlobSenderEvent S → BlobSenderNode S → Prop where
  | publish {s} (blobId : Nat) (blob : BlobToSend) : Step s (.publish blobId blob) (s.publish blobId blob)
  | submit {s blobId task} (hOn : s.shutdown = false) (hTask : s.task blobId = some task)
      (hStatus : task.status.submission = .mustSubmit) : Step s (.submit blobId) (s.submit cfg blobId task)
  | idle {s} (blobId : Nat)
      (hIdle : s.shutdown = false → ∀ task ∈ s.task blobId, task.status.submission = .mustSubmit) :
      Step s (.poll blobId) s
  | pollPublished {s blobId task receipt} (hOn : s.shutdown = false) (hTask : s.task blobId = some task)
      (hStatus : task.status.submission = .published receipt) :
      Step s (.poll blobId) (s.pollPublished cfg blobId task receipt)
  | pollProcessed {s blobId task receipt} (hOn : s.shutdown = false) (hTask : s.task blobId = some task)
      (hStatus : task.status.submission = .processed receipt) :
      Step s (.poll blobId) (s.pollProcessed blobId task receipt)
  | pollFinalized {s s' blobId task receipt} (hOn : s.shutdown = false) (hTask : s.task blobId = some task)
      (hStatus : task.status.submission = .finalized receipt) (hNext : s.pollFinalized blobId task receipt = .ok s') :
      Step s (.poll blobId) s'
  | slot {s blobs rollup report} (hSlot : applySlot s.rollup blobs = .ok (rollup, report)) :
      Step s (.slot blobs) { s with
        rollup
        ledger := s.ledger.materializeSlot report.receipts.batches report.discarded
        committed := s.committed ++ [report] }
  | finalize {s} (slotNumber : Nat) :
      Step s (.finalize slotNumber) { s with ledger := s.ledger.materializeLatestFinalizeSlot slotNumber }
  | clock {s} (time : Nat) : Step s (.clock time) { s with now := time }
  | metricsTick {s} : Step s .metricsTick { s with inFlightBlobs := retain s.inFlightBlobs }

variable {cfg}

theorem step_ok {s s' : BlobSenderNode S} {event : BlobSenderEvent S} (h : step cfg s event = .ok s') :
    Step cfg s event s' := by
  cases event with
  | publish blobId blob =>
    cases h
    exact .publish blobId blob
  | submit blobId =>
    simp only [step] at h
    split at h
    · split at h <;> cases h
      exact .submit ‹_› ‹_› ‹_›
    · cases h
  | poll blobId =>
    simp only [step] at h
    split at h
    · rename_i task hOn hTask
      split at h
      · rename_i hStatus
        cases h
        refine .idle blobId fun _ other hOther => ?_
        cases hTask.symm.trans hOther
        exact hStatus
      · cases h
        exact .pollPublished hOn hTask ‹_›
      · cases h
        exact .pollProcessed hOn hTask ‹_›
      · exact .pollFinalized hOn hTask ‹_› h
    · rename_i hOff
      cases h
      exact .idle blobId fun hOn task hTask => absurd hTask (hOff task hOn)
  | slot blobs =>
    simp only [step, slot, Outcome.bind_eq_ok, Outcome.mapError_eq_ok] at h
    obtain ⟨⟨rollup, report⟩, hSlot, hNext⟩ := h
    cases hNext
    exact .slot hSlot
  | finalize slotNumber =>
    cases h
    exact .finalize slotNumber
  | clock time =>
    cases h
    exact .clock time
  | metricsTick =>
    cases h
    exact .metricsTick

/-- Nothing has happened to a blob; its task, if it had ended, may have been forgotten. -/
structure SameFor (s s' : BlobSenderNode S) (blobId : Nat) : Prop where
  task : s'.task blobId = s.task blobId
  absent : s.inFlightBlobs blobId = none → s'.inFlightBlobs blobId = none
  blobs : s'.blobs blobId = s.blobs blobId
  infos : s'.blobInfos blobId = s.blobInfos blobId
  submitted : s'.timesSubmitted blobId = s.timesSubmitted blobId
  hooks : s'.hooksOf blobId = s.hooksOf blobId

section Frames
variable {s s' : BlobSenderNode S} {event : BlobSenderEvent S} {blobId other : Nat}

theorem SameFor.refl : s.SameFor s blobId := ⟨rfl, id, rfl, rfl, rfl, rfl⟩

theorem retain_retain (tasks : Nat → Option InFlightBlob) : retain (retain tasks) = retain tasks := by
  funext blobId
  simp [retain]

theorem sameFor_publish (hNe : other ≠ blobId) (blob : BlobToSend) : s.SameFor (s.publish blobId blob) other := by
  unfold publish
  dsimp only
  split
  · exact ⟨rfl, id, rfl, rfl, rfl, rfl⟩
  · split
    · exact ⟨rfl, id, rfl, rfl, rfl, rfl⟩
    · refine ⟨?_, fun hNone => ?_, update_of_ne hNe _ _, rfl, rfl, rfl⟩
      · simp [task, retain, update_of_ne hNe]
      · simp [retain, update_of_ne hNe, hNone]

/-- A turn of the task of one blob: it leaves the node, the list of requests and the other blobs alone, and
takes no submission back. -/
structure TaskTurn (s s' : BlobSenderNode S) (blobId : Nat) : Prop where
  ledger : s'.ledger = s.ledger
  committed : s'.committed = s.committed
  requested : s'.requested = s.requested
  submissions : s.submissions <+: s'.submissions
  tasks : ∀ other ≠ blobId, s'.inFlightBlobs other = s.inFlightBlobs other
  blobs : ∀ other ≠ blobId, s'.blobs other = s.blobs other
  infos : ∀ other ≠ blobId, s'.blobInfos other = s.blobInfos other
  submitted : ∀ other ≠ blobId, s'.timesSubmitted other = s.timesSubmitted other
  hooks : ∀ other ≠ blobId, s'.hooksOf other = s.hooksOf other

theorem TaskTurn.sameFor (h : s.TaskTurn s' blobId) (hNe : other ≠ blobId) : s.SameFor s' other where
  task := by rw [task, retain, h.tasks other hNe, task, retain]
  absent := (h.tasks other hNe).trans
  blobs := h.blobs other hNe
  infos := h.infos other hNe
  submitted := h.submitted other hNe
  hooks := h.hooks other hNe

theorem Step.turn (hStep : Step cfg s event s') (h : event = .submit blobId ∨ event = .poll blobId) :
    s.TaskTurn s' blobId := by
  cases hStep with
  | publish | slot | finalize | clock | metricsTick => simp at h
  | idle => exact ⟨rfl, rfl, rfl, prefix_rfl, by simp, by simp, by simp, by simp, by simp⟩
  | submit =>
    obtain rfl : _ = blobId := by simpa using h
    unfold BlobSenderNode.submit
    dsimp only
    split <;> constructor <;> simp +contextual [setStatus, setTask, shutDown, timesSubmitted, hooksOf, HookCall.blobId]
    all_goals exact fun _ hNe => Ne.symm hNe
  | pollPublished =>
    obtain rfl : _ = blobId := by simpa using h
    unfold BlobSenderNode.pollPublished
    split <;> split <;> constructor <;> simp +contextual [setStatus, setTask, shutDown, timesSubmitted, hooksOf]
  | pollProcessed =>
    obtain rfl : _ = blobId := by simpa using h
    unfold BlobSenderNode.pollProcessed
    split <;> constructor <;> simp +contextual [setStatus, setTask, timesSubmitted, hooksOf]
  | pollFinalized _ _ _ hNext =>
    obtain rfl : _ = blobId := by simpa using h
    unfold BlobSenderNode.pollFinalized at hNext
    split at hNext <;> cases hNext <;> constructor <;>
      simp +contextual [setStatus, setTask, timesSubmitted, hooksOf, HookCall.blobId]
    all_goals exact fun _ hNe => Ne.symm hNe

theorem publish_skipped {blob} (h : s.shutdown = true ∨ (s.inFlightBlobs blobId).isSome) :
    s.publish blobId blob = { s with requested := s.requested ++ [(blobId, blob)] } := by
  unfold publish
  obtain hOff | hBusy := h
  · simp [hOff]
  · simp [hBusy]

theorem publish_new {blob} (hOn : s.shutdown = false) (hNone : s.inFlightBlobs blobId = none) :
    (s.publish blobId blob).task blobId = some ⟨blob, .toSubmit, 0, 0, false⟩ ∧
      (s.publish blobId blob).blobs blobId = some blob ∧ (s.publish blobId blob).hooks = s.hooks ∧
      (s.publish blobId blob).shutdown = false := by
  have hNew : s.publish blobId blob = { s with
      requested := s.requested ++ [(blobId, blob)]
      blobs := update s.blobs blobId (some blob)
      inFlightBlobs := retain (update s.inFlightBlobs blobId (some ⟨blob, .toSubmit, 0, 0, false⟩)) } := by
    simp [publish, hOn, hNone]
  rw [hNew]
  refine ⟨?_, update_self .., rfl, hOn⟩
  show retain (retain _) blobId = _
  simp [retain]

theorem publish_node (blob : BlobToSend) :
    (s.publish blobId blob).ledger = s.ledger ∧ (s.publish blobId blob).committed = s.committed ∧
      (s.publish blobId blob).requested = s.requested ++ [(blobId, blob)] ∧
      (s.publish blobId blob).submissions = s.submissions := by
  unfold publish
  dsimp only
  split
  · exact ⟨rfl, rfl, rfl, rfl⟩
  · split <;> exact ⟨rfl, rfl, rfl, rfl⟩

section
variable (hStep : Step cfg s event s')
include hStep

theorem Step.sameFor (hOther : event.blobId? ≠ some other) : s.SameFor s' other := by
  have hNe : ∀ {blobId}, event.blobId? = some blobId → other ≠ blobId := by
    rintro blobId hSome rfl
    exact hOther hSome
  cases event with
  | publish blobId blob =>
    cases hStep
    exact sameFor_publish (hNe rfl) blob
  | submit blobId => exact (hStep.turn (.inl rfl)).sameFor (hNe rfl)
  | poll blobId => exact (hStep.turn (.inr rfl)).sameFor (hNe rfl)
  | slot | finalize | clock =>
    cases hStep
    exact ⟨rfl, id, rfl, rfl, rfl, rfl⟩
  | metricsTick =>
    cases hStep
    refine ⟨congrFun (retain_retain s.inFlightBlobs) other, fun hNone => ?_, rfl, rfl, rfl, rfl⟩
    simp [retain, hNone]

theorem Step.extends : s.committed <+: s'.committed ∧ s'.requested = s.requested ++ event.requests ∧
    s.submissions <+: s'.submissions := by
  cases event with
  | publish blobId blob =>
    cases hStep
    obtain ⟨-, hCommitted, hRequested, hSubmissions⟩ := @publish_node _ s blobId blob
    rw [hCommitted, hSubmissions]
    exact ⟨prefix_rfl, hRequested, prefix_rfl⟩
  | submit blobId =>
    have hTurn := hStep.turn (.inl rfl)
    exact ⟨hTurn.committed ▸ prefix_rfl, hTurn.requested.trans (append_nil _).symm, hTurn.submissions⟩
  | poll blobId =>
    have hTurn := hStep.turn (.inr rfl)
    exact ⟨hTurn.committed ▸ prefix_rfl, hTurn.requested.trans (append_nil _).symm, hTurn.submissions⟩
  | slot | finalize | clock | metricsTick =>
    cases hStep
    simp [BlobSenderEvent.requests]

theorem Step.requested_extends : s.requested <+: s'.requested := ⟨_, hStep.extends.2.1.symm⟩

theorem Step.timesSubmitted_le (blobId : Nat) : s.timesSubmitted blobId ≤ s'.timesSubmitted blobId :=
  hStep.extends.2.2.sublist.countP_le

theorem Step.requested_iff (hOther : event.blobId? ≠ some other) (blob : BlobToSend) :
    (other, blob) ∈ s'.requested ↔ (other, blob) ∈ s.requested := by
  rw [hStep.extends.2.1, mem_append, or_iff_left]
  cases event <;> simp_all [BlobSenderEvent.requests, BlobSenderEvent.blobId?, eq_comm]

end

end Frames

end BlobSenderNode
end SovereignSdk
