import SovereignSdk.BlobSender.Task

/-! Which runs of the node deliver every blob that is published through the blob sender. -/
namespace SovereignSdk
open Outcome List SlotReport DiscardedBlob

variable {S : Spec}

def SlotReport.hashes (report : SlotReport S) : List Hash :=
  (report.selectedBlobs.map fun b => b.blobData.id) ++ report.discarded.map blobHash

/-- The hash of a blob identifies it among those of the chain. -/
structure Identified (committed : List (SlotReport S)) : Prop where
  slot : ∀ (i j : Nat) (report other : SlotReport S), committed[i]? = some report → committed[j]? = some other →
    ∀ hash ∈ report.hashes, hash ∈ other.hashes → i = j
  blob : ∀ report ∈ committed, report.hashes.Nodup

def SlotReport.Selects (report : SlotReport S) (blob : BlobToSend) (hash : Hash) : Prop :=
  ∃ b ∈ report.selectedBlobs, b.blobData.id = hash ∧
    match blob, b.blobData with
    | .batch _, .batch .. => True
    | .proof _, .proof .. => True
    | _, _ => False

def BlobSenderEvent.isPollOf (blobId : Nat) : BlobSenderEvent S → Bool
  | .poll other => other = blobId
  | _ => false

variable {report : SlotReport S} {hash : Hash} {b : SelectedBlob S}

theorem SlotReport.mem_hashes_of_batch (h : hash ∈ report.receipts.batches) : hash ∈ report.hashes := by
  rw [receipts_batches] at h
  obtain ⟨b, hMem, rfl⟩ := mem_map.mp h
  exact mem_append_left _ (mem_map_of_mem (mem_filter.mp hMem).1)

theorem SlotReport.mem_batches_of_selected (hMem : b ∈ report.selectedBlobs) (hProof : b.blobData.isProof = false) :
    b.blobData.id ∈ report.receipts.batches := by
  rw [receipts_batches]
  exact mem_map.mpr ⟨b, mem_filter.mpr ⟨hMem, by simp [hProof]⟩, rfl⟩

theorem SlotReport.mem_hashes_of_selected (hMem : b ∈ report.selectedBlobs) : b.blobData.id ∈ report.hashes :=
  mem_append_left _ (mem_map_of_mem hMem)

theorem SlotReport.mem_hashes_of_discarded (hMem : hash ∈ report.discarded.map blobHash) :
    hash ∈ report.hashes :=
  mem_append_right _ hMem

variable {committed : List (SlotReport S)} {other : SlotReport S}

theorem Identified.eq_of_mem (h : Identified committed) (hReport : report ∈ committed) (hOther : other ∈ committed)
    (hHash : hash ∈ report.hashes) (hHash' : hash ∈ other.hashes) : report = other := by
  obtain ⟨i, hi⟩ := mem_iff_getElem?.mp hReport
  obtain ⟨j, hj⟩ := mem_iff_getElem?.mp hOther
  obtain rfl := h.slot i j report other hi hj hash hHash hHash'
  exact Option.some.inj (hi.symm.trans hj)

theorem Identified.not_discarded (h : Identified committed) (hReport : report ∈ committed)
    (hOther : other ∈ committed) (hMem : b ∈ report.selectedBlobs) :
    b.blobData.id ∉ other.discarded.map blobHash := by
  intro hDisc
  obtain rfl := h.eq_of_mem hReport hOther (mem_hashes_of_selected hMem)
    (mem_hashes_of_discarded hDisc)
  have hDisjoint := (nodup_append.mp (h.blob report hReport)).2.2
  exact hDisjoint _ (mem_map_of_mem hMem) _ hDisc rfl

namespace BlobSenderNode
variable {cfg : BlobSenderConfig} {s s' : BlobSenderNode S} {event : BlobSenderEvent S} {blobId : Nat}

/-- A blob has been submitted, and within the timeout it is selected and its slot is finalized. -/
structure FinalizedInTime (cfg : BlobSenderConfig) (s : BlobSenderNode S) (blobId : Nat) (blob : BlobToSend)
    (receipt : SubmitBlobReceipt) : Prop where
  submitted : ∃ time, (blobId, time) ∈ s.submissions ∧ s.now ≤ time + cfg.blobProcessingTimeout
  selected : ∃ (n : Nat) (report : SlotReport S), s.committed[n]? = some report ∧ report.Selects blob receipt.blobHash ∧
    n ≤ s.ledger.getLatestFinalizedSlotNumber

/-- Finalized slots stay finalized, and a finished blob is not published again. -/
def Regular (s : BlobSenderNode S) : BlobSenderEvent S → Prop
  | .finalize slotNumber => s.ledger.getLatestFinalizedSlotNumber ≤ slotNumber
  | .publish blobId _ => ∀ receipt, .onFinalizedBlob blobId receipt ∉ s.hooks
  | _ => True

/-- The runs in question: no reorg, and each blob asked for is included, selected and finalized in time. After
that its task gets three more turns. -/
structure Served (cfg : BlobSenderConfig) (rollup : RollupState S) (events : List (BlobSenderEvent S))
    (s : BlobSenderNode S) : Prop where
  identified : Identified s.committed
  regular : Along (step cfg) Regular (start rollup) events
  each : ∀ request ∈ s.requested, ∃ receipt, cfg.da request.1 0 = some receipt ∧
    ∃ before after mid, events = before ++ after ∧ before.foldlM (step cfg) (start rollup) = .ok mid ∧
      mid.FinalizedInTime cfg request.1 request.2 receipt ∧ 3 ≤ after.countP (BlobSenderEvent.isPollOf request.1)

structure Delivered (s : BlobSenderNode S) : Prop where
  running : s.shutdown = false
  once : ∀ request ∈ s.requested, s.timesSubmitted request.1 = 1
  hooks : ∀ request ∈ s.requested, ∃ receipt,
    s.hooksOf request.1 = [.onPublishedBlob request.1 receipt, .onFinalizedBlob request.1 receipt]
  removed : ∀ request ∈ s.requested, s.blobs request.1 = none ∧ s.blobInfos request.1 = none
  recognized : ∀ report ∈ s.committed, ∀ hash ∈ report.hashes, (s.ledger.blobFinalizedOrDiscarded hash).isSome

/-- The slot executes no proof; and a published blob is looked up before its timeout has passed. -/
def Favourable (cfg : BlobSenderConfig) (s : BlobSenderNode S) : BlobSenderEvent S → Prop
  | .slot blobs => ∀ rollup report, applySlot s.rollup blobs = .ok (rollup, report) →
      ∀ b ∈ report.selectedBlobs, b.blobData.isProof = false
  | .poll blobId => ∀ task receipt, s.task blobId = some task → task.status.submission = .published receipt →
      task.timer ≤ s.now ∧ s.now ≤ task.timer + cfg.blobProcessingTimeout
  | _ => True

variable {task : InFlightBlob} {receipt : SubmitBlobReceipt}

theorem checkTimeout_of_favourable (h : s.Favourable cfg (.poll blobId)) (hTask : s.task blobId = some task)
    (hStatus : task.status.submission = .published receipt) : s.checkTimeout cfg task.timer = false := by
  obtain ⟨_, _⟩ := h task receipt hTask hStatus
  simp only [checkTimeout, Bool.or_eq_false_iff, decide_eq_false_iff_not]
  omega

variable {blob : BlobToSend}

theorem Regular.not_delivered {first} (h : s.Regular (.publish blobId blob)) :
    s.hooksOf blobId ≠ [.onPublishedBlob blobId first, .onFinalizedBlob blobId receipt] := by
  intro hHooks
  have hMem : HookCall.onFinalizedBlob blobId receipt ∈ s.hooksOf blobId := by
    rw [hHooks]
    simp
  exact h receipt (mem_filter.mp hMem).1

/-- The batch receipts and the discarded blobs of the committed slots. -/
def commits (s : BlobSenderNode S) : LedgerDb.Committed :=
  s.committed.map fun report => (report.receipts.batches, report.discarded)

/-- A committed slot has a batch receipt for the blob or has discarded it. -/
def Recorded (s : BlobSenderNode S) (hash : Hash) : Prop :=
  ∃ slot ∈ s.commits, hash ∈ slot.1 ∨ hash ∈ slot.2.map blobHash

/-- Where a blob stands in a run in which all goes well. -/
inductive Phase (cfg : BlobSenderConfig) (s : BlobSenderNode S) (blobId : Nat) : Prop where
  | unknown (hRequest : ∀ blob, (blobId, blob) ∉ s.requested) (hTask : s.inFlightBlobs blobId = none)
      (hSubmitted : s.timesSubmitted blobId = 0) (hHooks : s.hooksOf blobId = [])
  | waiting {task : InFlightBlob} (hRequest : ∃ blob, (blobId, blob) ∈ s.requested) (hTask : s.task blobId = some task)
      (hStatus : task.status.submission = .mustSubmit) (hSubmitted : s.timesSubmitted blobId = 0)
      (hHooks : s.hooksOf blobId = [])
  | submitted {task : InFlightBlob} {receipt : SubmitBlobReceipt} (hRequest : ∃ blob, (blobId, blob) ∈ s.requested)
      (hReceipt : cfg.da blobId 0 = some receipt) (hTask : s.task blobId = some task)
      (hStatus : task.status.submission = .published receipt ∨ s.Recorded receipt.blobHash ∧
        (task.status = ⟨.processed receipt, some .accepted⟩ ∨ task.status = ⟨.finalized receipt, some .accepted⟩))
      (hSubmitted : s.timesSubmitted blobId = 1) (hHooks : s.hooksOf blobId = [.onPublishedBlob blobId receipt])
  | delivered {receipt : SubmitBlobReceipt} (hTask : s.task blobId = none)
      (hBlob : s.blobs blobId = none ∧ s.blobInfos blobId = none)
      (hSubmitted : s.timesSubmitted blobId = 1)
      (hHooks : s.hooksOf blobId = [.onPublishedBlob blobId receipt, .onFinalizedBlob blobId receipt])

/-- What the outside grants to a blob: the DA service takes it, and it is not discarded. -/
def Granted (cfg : BlobSenderConfig) (s : BlobSenderNode S) (blobId : Nat) : Prop :=
  ∃ receipt, cfg.da blobId 0 = some receipt ∧ ∀ report ∈ s.committed, receipt.blobHash ∉ report.discarded.map blobHash

theorem task_setTask_running (h : task.finished = false) : (s.setTask blobId task).task blobId = some task := by
  simp [BlobSenderNode.task, retain, setTask, h]

theorem task_running (h : s.task blobId = some task) : s.inFlightBlobs blobId = some task ∧ task.finished = false := by
  obtain ⟨hSome, hRunning⟩ := Option.filter_eq_some_iff.mp h
  exact ⟨hSome, by simpa using hRunning⟩

theorem Phase.same (hPhase : Phase cfg s blobId) (hSame : s.SameFor s' blobId)
    (hReqd : ∀ blob, (blobId, blob) ∈ s'.requested ↔ (blobId, blob) ∈ s.requested)
    (hCommits : ∀ slot ∈ s.commits, slot ∈ s'.commits) : Phase cfg s' blobId := by
  cases hPhase with
  | unknown hRequest hTask hSubmitted hHooks =>
    exact .unknown (fun blob hMem => hRequest blob ((hReqd blob).mp hMem)) (hSame.absent hTask)
      (hSame.submitted.trans hSubmitted) (hSame.hooks.trans hHooks)
  | waiting hRequest hTask hStatus hSubmitted hHooks =>
    obtain ⟨blob, hMem⟩ := hRequest
    exact .waiting ⟨blob, (hReqd blob).mpr hMem⟩ (hSame.task.trans hTask) hStatus
      (hSame.submitted.trans hSubmitted) (hSame.hooks.trans hHooks)
  | submitted hRequest hReceipt hTask hStatus hSubmitted hHooks =>
    obtain ⟨blob, hMem⟩ := hRequest
    refine .submitted ⟨blob, (hReqd blob).mpr hMem⟩ hReceipt (hSame.task.trans hTask) (hStatus.imp_right (And.imp_left ?_))
      (hSame.submitted.trans hSubmitted) (hSame.hooks.trans hHooks)
    rintro ⟨slot, hMem, hHash⟩
    exact ⟨slot, hCommits slot hMem, hHash⟩
  | delivered hTask hBlob hSubmitted hHooks =>
    exact .delivered (hSame.task.trans hTask) ⟨hSame.blobs.trans hBlob.1, hSame.infos.trans hBlob.2⟩ (hSame.submitted.trans hSubmitted)
      (hSame.hooks.trans hHooks)

theorem Step.holds (hStep : Step cfg s event s') (h : s.ledger.Holds s.commits) : s'.ledger.Holds s'.commits := by
  cases event with
  | publish blobId blob =>
    cases hStep
    obtain ⟨hLedger, hComm, -⟩ := @publish_node _ s blobId blob
    rwa [commits, hLedger, hComm]
  | submit blobId =>
    have hKeeps := hStep.turn (.inl rfl)
    rwa [commits, hKeeps.ledger, hKeeps.committed]
  | poll blobId =>
    have hKeeps := hStep.turn (.inr rfl)
    rwa [commits, hKeeps.ledger, hKeeps.committed]
  | slot blobs =>
    cases hStep with
    | @slot _ rollup report _ =>
      simpa [commits] using h.materializeSlot report.receipts.batches report.discarded
  | finalize slotNumber =>
    cases hStep
    exact h.materializeLatestFinalizeSlot slotNumber
  | clock | metricsTick =>
    cases hStep
    exact h

section
variable (hPhase : Phase cfg s blobId)
include hPhase

theorem Phase.publish (hOn : s.shutdown = false) (hRegular : s.Regular (.publish blobId blob)) :
    Phase cfg (s.publish blobId blob) blobId ∧ (s.publish blobId blob).shutdown = false := by
  have hBusy : ∀ {task : InFlightBlob}, s.task blobId = some task →
      s.publish blobId blob = { s with requested := s.requested ++ [(blobId, blob)] } := fun hTask =>
    publish_skipped (.inr (by simp [(task_running hTask).1]))
  cases hPhase with
  | unknown _ hTask hSubmitted hHooks =>
    obtain ⟨hNewTask, -, hNewHooks, hNewOn⟩ := @publish_new _ _ _ blob hOn hTask
    refine ⟨.waiting ⟨blob, ?_⟩ hNewTask rfl ?_ ?_, hNewOn⟩
    · simp [(publish_node blob).2.2.1]
    · rw [timesSubmitted, (publish_node blob).2.2.2]
      exact hSubmitted
    · rw [hooksOf, hNewHooks]
      exact hHooks
  | waiting _ hTask hStatus hSubmitted hHooks =>
    rw [hBusy hTask]
    exact ⟨.waiting ⟨blob, by simp⟩ hTask hStatus hSubmitted hHooks, hOn⟩
  | submitted _ hReceipt hTask hStatus hSubmitted hHooks =>
    rw [hBusy hTask]
    exact ⟨.submitted ⟨blob, by simp⟩ hReceipt hTask hStatus hSubmitted hHooks, hOn⟩
  | delivered _ _ _ hHooks => exact absurd hHooks hRegular.not_delivered

theorem Phase.submit (hOn : s.shutdown = false) (hTask : s.task blobId = some task)
    (hStatus : task.status.submission = .mustSubmit)
    (hGrant : ∀ blob, (blobId, blob) ∈ s.requested → Granted cfg s blobId) :
    Phase cfg (s.submit cfg blobId task) blobId ∧ (s.submit cfg blobId task).shutdown = false := by
  cases hPhase with
  | unknown _ hNone => simp [(task_running hTask).1] at hNone
  | submitted _ _ hOther hSent =>
    cases hTask.symm.trans hOther
    obtain hSent | ⟨-, hSent | hSent⟩ := hSent <;> simp [hSent] at hStatus
  | delivered hNone => simp [hTask] at hNone
  | waiting hRequest _ _ hSubmitted hHooks =>
    obtain ⟨blob, hMem⟩ := hRequest
    obtain ⟨receipt, hReceipt, -⟩ := hGrant blob hMem
    have hAnswer : cfg.da blobId (s.timesSubmitted blobId) = some receipt := by rw [hSubmitted, hReceipt]
    have hRunning := (task_running hTask).2
    unfold BlobSenderNode.submit
    rw [hAnswer]
    refine ⟨.submitted ⟨blob, hMem⟩ hReceipt (task_setTask_running ?_) (.inl rfl) ?_ ?_, hOn⟩
    · exact hRunning
    · show countP _ (s.submissions ++ [(blobId, s.now)]) = 1
      rw [countP_append, show countP _ s.submissions = 0 from hSubmitted]
      simp
    · show filter _ (s.hooks ++ [HookCall.onPublishedBlob blobId receipt]) = _
      rw [filter_append, show filter _ s.hooks = [] from hHooks]
      simp [HookCall.blobId]

theorem Phase.of_task (hTask : s.task blobId = some task) (hStatus : task.status.submission ≠ .mustSubmit) :
    ∃ receipt, (∃ blob, (blobId, blob) ∈ s.requested) ∧ cfg.da blobId 0 = some receipt ∧
      (task.status.submission = .published receipt ∨ s.Recorded receipt.blobHash ∧
        (task.status = ⟨.processed receipt, some .accepted⟩ ∨ task.status = ⟨.finalized receipt, some .accepted⟩)) ∧
      s.timesSubmitted blobId = 1 ∧ s.hooksOf blobId = [.onPublishedBlob blobId receipt] := by
  cases hPhase with
  | unknown _ hNone => simp [(task_running hTask).1] at hNone
  | waiting _ hOther hMust =>
    cases hTask.symm.trans hOther
    exact absurd hMust hStatus
  | delivered hNone => simp [hTask] at hNone
  | submitted hRequest hReceipt hOther hSent hSubmitted hHooks =>
    cases hTask.symm.trans hOther
    exact ⟨_, hRequest, hReceipt, hSent, hSubmitted, hHooks⟩

end

theorem Granted.accepted {receipt} (hGrant : Granted cfg s blobId)
    (hHolds : s.ledger.Holds s.commits) (hReceipt : cfg.da blobId 0 = some receipt) {final status}
    (hFound : s.ledger.blobFinalizedOrDiscarded receipt.blobHash = some (final, status)) :
    status = .accepted := by
  obtain ⟨_, hReceipt', hNotDiscarded⟩ := hGrant
  cases hReceipt.symm.trans hReceipt'
  refine hHolds.accepted_of_some ?_ hFound
  simpa [commits] using hNotDiscarded

section
variable (hPhase : Phase cfg s blobId)
include hPhase

theorem Phase.pollPublished {task receipt}
    (hOn : s.shutdown = false) (hTask : s.task blobId = some task)
    (hStatus : task.status.submission = .published receipt) (hTime : s.Favourable cfg (.poll blobId))
    (hHolds : s.ledger.Holds s.commits) (hGrant : ∀ request ∈ s.requested, Granted cfg s request.1) :
    Phase cfg (s.pollPublished cfg blobId task receipt) blobId ∧
      (s.pollPublished cfg blobId task receipt).shutdown = false := by
  have hInTime := checkTimeout_of_favourable hTime hTask hStatus
  obtain ⟨receipt', ⟨blob, hRequest⟩, hReceipt, hSent, hSubmitted, hHooks⟩ := hPhase.of_task hTask (by simp [hStatus])
  have hSame : receipt' = receipt := by
    obtain hSent | ⟨-, hSent | hSent⟩ := hSent <;> simp [hSent] at hStatus
    exact hStatus
  subst receipt'
  unfold BlobSenderNode.pollPublished
  rw [hInTime, if_neg Bool.false_ne_true]
  split
  · rename_i final status hFound
    obtain rfl := (hGrant _ hRequest).accepted hHolds hReceipt hFound
    refine ⟨.submitted ⟨blob, hRequest⟩ hReceipt (task_setTask_running (task_running hTask).2) (.inr ⟨?_, .inl rfl⟩)
      hSubmitted hHooks, hOn⟩
    exact hHolds.recognized_iff.mp (by rw [hFound]; rfl)
  · exact ⟨.submitted ⟨blob, hRequest⟩ hReceipt hTask hSent hSubmitted hHooks, hOn⟩

theorem Phase.pollProcessed {task receipt}
    (hOn : s.shutdown = false) (hTask : s.task blobId = some task)
    (hStatus : task.status.submission = .processed receipt) (hHolds : s.ledger.Holds s.commits)
    (hGrant : ∀ request ∈ s.requested, Granted cfg s request.1) :
    Phase cfg (s.pollProcessed blobId task receipt) blobId ∧
      (s.pollProcessed blobId task receipt).shutdown = false := by
  obtain ⟨receipt', ⟨blob, hRequest⟩, hReceipt, hSent, hSubmitted, hHooks⟩ := hPhase.of_task hTask (by simp [hStatus])
  obtain ⟨_, hRec⟩ : receipt' = receipt ∧ s.Recorded receipt.blobHash := by
    obtain hSent | ⟨hRec, hSent | hSent⟩ := hSent <;> simp [hSent] at hStatus
    exact ⟨hStatus, hStatus ▸ hRec⟩
  subst receipt'
  unfold BlobSenderNode.pollProcessed
  split
  · exact ⟨.submitted ⟨blob, hRequest⟩ hReceipt hTask hSent hSubmitted hHooks, hOn⟩
  · rename_i status hFound
    obtain rfl := (hGrant _ hRequest).accepted hHolds hReceipt hFound
    exact ⟨.submitted ⟨blob, hRequest⟩ hReceipt (task_setTask_running (task_running hTask).2)
      (.inr ⟨hRec, .inr rfl⟩) hSubmitted hHooks, hOn⟩
  · rename_i hNone
    have hSome := hHolds.recognized_iff.mpr hRec
    simp [hNone] at hSome

theorem Phase.pollFinalized (hOn : s.shutdown = false)
    (hTask : s.task blobId = some task) (hStatus : task.status.submission = .finalized receipt)
    (hNext : s.pollFinalized blobId task receipt = .ok s') :
    Phase cfg s' blobId ∧ s'.shutdown = false ∧ s'.task blobId = none := by
  obtain ⟨receipt', -, -, hSent, hSubmitted, hHooks⟩ := hPhase.of_task hTask (by simp [hStatus])
  obtain ⟨_, hSelector⟩ : receipt' = receipt ∧ task.status.selector = some .accepted := by
    obtain hSent | ⟨-, hSent | hSent⟩ := hSent <;> simp [hSent] at hStatus
    exact ⟨hStatus, by rw [hSent]⟩
  subst receipt'
  unfold BlobSenderNode.pollFinalized at hNext
  rw [hSelector] at hNext
  cases hNext
  have hEnded : retain (Function.update s.inFlightBlobs blobId (some { task with finished := true })) blobId = none := by
    simp [retain]
  have hCalls : filter (fun call : HookCall => call.blobId = blobId)
      (s.hooks ++ [.onFinalizedBlob blobId receipt]) =
        [.onPublishedBlob blobId receipt, .onFinalizedBlob blobId receipt] := by
    rw [filter_append, show filter _ s.hooks = _ from hHooks]
    simp [HookCall.blobId]
  exact ⟨.delivered hEnded ⟨Function.update_self .., Function.update_self ..⟩ hSubmitted hCalls, hOn, hEnded⟩

end

/-- A favourable event keeps every blob on its way, and the node running. -/
theorem Phase.step (hPhase : ∀ blobId, Phase cfg s blobId) (hStep : Step cfg s event s') (hOn : s.shutdown = false)
    (hFav : s.Favourable cfg event) (hRegular : s.Regular event) (hHolds : s.ledger.Holds s.commits)
    (hGrant : ∀ request ∈ s.requested, Granted cfg s request.1) :
    (∀ blobId, Phase cfg s' blobId) ∧ s'.shutdown = false := by
  have hCommits : ∀ slot ∈ s.commits, slot ∈ s'.commits := fun slot hMem =>
    (hStep.extends.1.map _).subset hMem
  have hOthers : ∀ other, event.blobId? ≠ some other → Phase cfg s' other := fun other hOther =>
    (hPhase other).same (hStep.sameFor hOther) (hStep.requested_iff hOther) hCommits
  have hOwn : ∀ blobId, event.blobId? = some blobId → Phase cfg s' blobId ∧ s'.shutdown = false := by
    intro blobId hEvent
    cases hStep with
    | publish _ blob =>
      cases hEvent
      exact (hPhase blobId).publish hOn hRegular
    | submit _ hTask hStatus =>
      cases hEvent
      exact (hPhase blobId).submit hOn hTask hStatus fun blob hMem => hGrant _ hMem
    | idle =>
      exact ⟨hPhase blobId, hOn⟩
    | pollPublished _ hTask hStatus =>
      cases hEvent
      exact (hPhase blobId).pollPublished hOn hTask hStatus hFav hHolds hGrant
    | pollProcessed _ hTask hStatus =>
      cases hEvent
      exact (hPhase blobId).pollProcessed hOn hTask hStatus hHolds hGrant
    | pollFinalized _ hTask hStatus hNext =>
      cases hEvent
      obtain ⟨hNextPhase, hNextOn, -⟩ := (hPhase blobId).pollFinalized hOn hTask hStatus hNext
      exact ⟨hNextPhase, hNextOn⟩
    | slot | finalize | clock | metricsTick => cases hEvent
  refine ⟨fun blobId => ?_, ?_⟩
  · by_cases hEvent : event.blobId? = some blobId
    · exact (hOwn blobId hEvent).1
    · exact hOthers blobId hEvent
  · cases hEvent : event.blobId? with
    | some blobId => exact (hOwn blobId hEvent).2
    | none =>
      cases hStep with
      | slot | finalize | clock | metricsTick => exact hOn
      | publish | submit | idle | pollPublished | pollProcessed | pollFinalized => cases hEvent

end BlobSenderNode
end SovereignSdk
