import SovereignSdk.BlobSender.Delivery
import SovereignSdk.StfBlueprint.Selections

/-! All blobs of a run are delivered if and only if no slot executes a proof and no published blob is looked up
too late. -/
namespace SovereignSdk
open BlobSenderNode Nat
namespace BlobSenderNode
open Outcome BlobSenderNode SlotReport List BlobSenderEvent

variable {S : Spec} {cfg : BlobSenderConfig} {rollup : RollupState S} {s s' final : BlobSenderNode S}
  {event : BlobSenderEvent S} {events : List (BlobSenderEvent S)} {blobId : Nat}

theorem run_extends (hRun : events.foldlM (step cfg) s = .ok final) :
    s.committed <+: final.committed ∧ s.requested <+: final.requested := by
  refine foldlM_invariant (fun t => s.committed <+: t.committed ∧ s.requested <+: t.requested) ?_
    ⟨prefix_rfl, prefix_rfl⟩ hRun
  rintro t event t' ⟨hComm, hReqd⟩ hStep
  exact ⟨hComm.trans (step_ok hStep).extends.1, hReqd.trans (step_ok hStep).requested_extends⟩

structure OnTrack (cfg : BlobSenderConfig) (s : BlobSenderNode S) : Prop where
  phase : ∀ blobId, Phase cfg s blobId
  running : s.shutdown = false
  holds : s.ledger.Holds s.commits
  noProofs : ∀ report ∈ s.committed, ∀ b ∈ report.selectedBlobs, b.blobData.isProof = false

theorem onTrack_start : (start rollup).OnTrack cfg where
  phase _ := .unknown (fun _ => List.not_mem_nil) rfl rfl rfl
  running := rfl
  holds := LedgerDb.holds_empty
  noProofs := by simp [start]

theorem OnTrack.step (h : s.OnTrack cfg) (hStep : Step cfg s event s')
    (hAdmits : s.Favourable cfg event ∧ s.Regular event) (hGrant : ∀ request ∈ s.requested, Granted cfg s request.1) :
    s'.OnTrack cfg := by
  obtain ⟨hPhase, hRunning⟩ := Phase.step h.phase hStep h.running hAdmits.1 hAdmits.2 h.holds hGrant
  refine ⟨hPhase, hRunning, hStep.holds h.holds, ?_⟩
  cases event with
  | publish blobId blob =>
    cases hStep
    rw [(publish_node blob).2.1]
    exact h.noProofs
  | submit blobId =>
    rw [(hStep.turn (.inl rfl)).committed]
    exact h.noProofs
  | poll blobId =>
    rw [(hStep.turn (.inr rfl)).committed]
    exact h.noProofs
  | slot blobs =>
    cases hStep with
    | slot hSlot =>
      intro report hMem
      obtain hOld | hNew := mem_append.mp hMem
      · exact h.noProofs report hOld
      · cases mem_singleton.mp hNew
        exact hAdmits.1 _ _ hSlot
  | finalize | clock | metricsTick =>
    cases hStep
    exact h.noProofs

theorem Granted.earlier (h : Granted cfg final blobId) (hComm : s.committed <+: final.committed) :
    Granted cfg s blobId := by
  obtain ⟨receipt, hRcpt, hNot⟩ := h
  exact ⟨receipt, hRcpt, fun report hMem => hNot report (hComm.subset hMem)⟩

theorem OnTrack.run (h : s.OnTrack cfg) (hRun : events.foldlM (BlobSenderNode.step cfg) s = .ok final)
    (hAlong : Along (BlobSenderNode.step cfg) (fun s e => s.Favourable cfg e ∧ s.Regular e) s events)
    (hGrant : ∀ request ∈ final.requested, Granted cfg final request.1) : final.OnTrack cfg := by
  induction events generalizing s with
  | nil =>
    cases hRun
    exact h
  | cons event rest ih =>
    have hExt := run_extends hRun
    rw [foldlM_cons, bind_eq_ok] at hRun
    obtain ⟨next, hNext, hRest⟩ := hRun
    obtain ⟨hHere, hLater⟩ := (along_cons hNext).mp hAlong
    refine ih (h.step (step_ok hNext) hHere fun request hMem => ?_) hRest hLater
    exact (hGrant request (hExt.2.subset hMem)).earlier hExt.1

def remaining : Option InFlightBlob → Nat
  | none => 0
  | some task =>
    match task.status.submission with
    | .mustSubmit => 4
    | .published _ => 3
    | .processed _ => 2
    | .finalized _ => 1

def FinalAt (s : BlobSenderNode S) (hash : Hash) (n : Nat) : Prop :=
  (∃ report, s.committed[n]? = some report ∧ hash ∈ report.receipts.batches) ∧ n ≤ s.ledger.getLatestFinalizedSlotNumber

variable {n : Nat} {receipt : SubmitBlobReceipt}

variable {hash : Hash} {blob : BlobToSend} {task : InFlightBlob} {report : SlotReport S}

theorem FinalAt.step (h : s.FinalAt hash n) (hStep : Step cfg s event s') (hRegular : s.Regular event) :
    s'.FinalAt hash n := by
  obtain ⟨⟨report, hAt, hMem⟩, hFinal⟩ := h
  refine ⟨⟨report, ?_, hMem⟩, ?_⟩
  · obtain ⟨rest, hRest⟩ := hStep.extends.1
    rw [← hRest, List.getElem?_append_left (List.getElem?_eq_some_iff.mp hAt).1, hAt]
  · cases event with
    | publish blobId blob =>
      cases hStep
      rwa [(publish_node blob).1]
    | submit blobId => rwa [(hStep.turn (.inl rfl)).ledger]
    | poll blobId => rwa [(hStep.turn (.inr rfl)).ledger]
    | slot blobs =>
      cases hStep
      simpa using hFinal
    | finalize slotNumber =>
      cases hStep
      exact hFinal.trans hRegular
    | clock | metricsTick =>
      cases hStep
      exact hFinal

theorem FinalAt.found (h : s.FinalAt hash n) (hHolds : s.ledger.Holds s.commits)
    (hIdent : Identified final.committed) (hComm : s.committed <+: final.committed) :
    s.ledger.blobFinalizedOrDiscarded hash = some (true, .accepted) := by
  obtain ⟨⟨report, hAt, hMem⟩, hFinal⟩ := h
  have hLater : ∀ {i : Nat} {r : SlotReport S}, s.committed[i]? = some r → final.committed[i]? = some r := by
    intro i r hr
    obtain ⟨rest, hRest⟩ := hComm
    rw [← hRest, List.getElem?_append_left (List.getElem?_eq_some_iff.mp hr).1, hr]
  have hSlot : s.commits[n]? = some (report.receipts.batches, report.discarded) := by
    simp [commits, hAt]
  obtain ⟨batch, hBatch⟩ := Option.isSome_iff_exists.mp (hHolds.allBatches _ (List.mem_of_getElem? hSlot) hash hMem)
  obtain ⟨other, hOther, hHash⟩ := hHolds.batches hash batch hBatch
  simp only [commits, getElem?_map, Option.map_eq_some_iff] at hOther
  obtain ⟨r, hr, rfl⟩ := hOther
  have hSame := hIdent.slot batch.slotNumber n r report (hLater hr) (hLater hAt) hash (mem_hashes_of_batch hHash)
    (mem_hashes_of_batch hMem)
  simp [LedgerDb.blobFinalizedOrDiscarded, hBatch, hSame, hFinal]

section
variable (h : s.OnTrack cfg)
include h

theorem OnTrack.not_mustSubmit {task} (hTask : s.task blobId = some task) (hSubm : s.timesSubmitted blobId = 1) :
    task.status.submission ≠ .mustSubmit := by
  cases h.phase blobId with
  | unknown _ _ hNever | waiting _ _ _ hNever => simp [hSubm] at hNever
  | submitted _ _ hOther hSent =>
    cases hTask.symm.trans hOther
    obtain hSent | ⟨-, hSent | hSent⟩ := hSent <;> simp [hSent]
  | delivered hNone => simp [hTask] at hNone

/-- A turn brings the task of a finalized blob one stage further. -/
theorem OnTrack.poll (hStep : Step cfg s (.poll blobId) s')
    (hFav : s.Favourable cfg (.poll blobId)) (hSubm : s.timesSubmitted blobId = 1)
    (hRcpt : cfg.da blobId 0 = some receipt)
    (hFound : s.ledger.blobFinalizedOrDiscarded receipt.blobHash = some (true, .accepted)) :
    remaining (s'.task blobId) = remaining (s.task blobId) - 1 := by
  have hReceiptOf : ∀ {task : InFlightBlob} {other : SubmitBlobReceipt}, s.task blobId = some task →
      (task.status.submission = .published other ∨ task.status.submission = .processed other) → other = receipt := by
    intro task other hTask hStat
    obtain ⟨receipt', -, hRcpt', hSent, -, -⟩ := (h.phase blobId).of_task hTask (h.not_mustSubmit hTask hSubm)
    obtain _ | ⟨-, _ | _⟩ := hSent <;> obtain _ | _ := hStat <;> simp_all
  cases hStep with
  | idle _ hIdle =>
    cases hTask : s.task blobId with
    | none => rfl
    | some task =>
      have hMust := hIdle h.running task (by rw [hTask]; rfl)
      exact absurd hMust (h.not_mustSubmit hTask hSubm)
  | @pollPublished _ task other _ hTask hStat =>
    cases hReceiptOf hTask (.inl hStat)
    have hInTime := checkTimeout_of_favourable hFav hTask hStat
    have hNext : s.pollPublished cfg blobId task receipt =
        s.setStatus blobId task ⟨.processed receipt, some .accepted⟩ := by
      simp [pollPublished, hInTime, hFound]
    have hAfter : (s.setStatus blobId task ⟨.processed receipt, some .accepted⟩).task blobId =
        some { task with status := ⟨.processed receipt, some .accepted⟩ } :=
      task_setTask_running (task_running hTask).2
    rw [hNext, hAfter, hTask]
    simp [remaining, hStat]
  | @pollProcessed _ task other _ hTask hStat =>
    cases hReceiptOf hTask (.inr hStat)
    have hNext : s.pollProcessed blobId task receipt =
        s.setTask blobId { task with status := ⟨.finalized receipt, some .accepted⟩ } := by
      simp [pollProcessed, hFound]
    have hAfter : (s.setTask blobId { task with status := ⟨.finalized receipt, some .accepted⟩ }).task blobId =
        some { task with status := ⟨.finalized receipt, some .accepted⟩ } :=
      task_setTask_running (task_running hTask).2
    rw [hNext, hAfter, hTask]
    simp [remaining, hStat]
  | pollFinalized _ hTask hStat hNext =>
    obtain ⟨-, -, hEnded⟩ := (h.phase blobId).pollFinalized h.running hTask hStat hNext
    rw [hEnded, hTask]
    simp [remaining, hStat]

theorem OnTrack.other (hStep : Step cfg s event s') (hRegular : s.Regular event)
    (hSubm : s.timesSubmitted blobId = 1) (hEvent : event.isPollOf blobId = false) :
    s'.task blobId = s.task blobId := by
  by_cases hOwn : event.blobId? = some blobId
  · cases hStep with
    | publish _ blob =>
      cases hOwn
      cases h.phase blobId with
      | unknown _ _ hNever | waiting _ _ _ hNever => simp [hSubm] at hNever
      | submitted _ _ hTask =>
        rw [publish_skipped (.inr (by simp [(task_running hTask).1]))]
        rfl
      | delivered _ _ _ hHooks => exact absurd hHooks hRegular.not_delivered
    | submit _ hTask hStat =>
      cases hOwn
      exact absurd hStat (h.not_mustSubmit hTask hSubm)
    | idle | pollPublished | pollProcessed | pollFinalized =>
      cases hOwn
      simp [isPollOf] at hEvent
    | slot | finalize | clock | metricsTick => cases hOwn
  · exact (hStep.sameFor hOwn).task

theorem OnTrack.submitted_once (hSubm : 0 < s.timesSubmitted blobId) :
    s.timesSubmitted blobId = 1 ∧ remaining (s.task blobId) ≤ 3 := by
  cases h.phase blobId with
  | unknown _ _ hNever | waiting _ _ _ hNever => simp [hNever] at hSubm
  | submitted _ _ hTask hSent hOnce =>
    refine ⟨hOnce, ?_⟩
    rw [hTask]
    obtain hSent | ⟨-, hSent | hSent⟩ := hSent <;> simp [remaining, hSent]
  | delivered hNone _ hOnce =>
    refine ⟨hOnce, ?_⟩
    rw [hNone]
    exact zero_le _

/-- From the time when its slot is final, a blob needs as many turns as its task has stages. -/
theorem OnTrack.run_remaining (hRun : events.foldlM (BlobSenderNode.step cfg) s = .ok final)
    (hAlong : Along (BlobSenderNode.step cfg) (fun s e => s.Favourable cfg e ∧ s.Regular e) s events)
    (hGrant : ∀ request ∈ final.requested, Granted cfg final request.1)
    (hIdent : Identified final.committed) (hRcpt : cfg.da blobId 0 = some receipt)
    (hFinal : s.FinalAt receipt.blobHash n) (hSubm : 0 < s.timesSubmitted blobId) :
    remaining (final.task blobId) ≤ remaining (s.task blobId) - events.countP (BlobSenderEvent.isPollOf blobId) := by
  induction events generalizing s with
  | nil =>
    cases hRun
    simp
  | cons event rest ih =>
    have hExt := run_extends hRun
    rw [foldlM_cons, bind_eq_ok] at hRun
    obtain ⟨next, hNext, hRest⟩ := hRun
    obtain ⟨hHere, hLater⟩ := (along_cons hNext).mp hAlong
    have hStep := step_ok hNext
    have hOnce := (h.submitted_once hSubm).1
    have hOnTrack : next.OnTrack cfg := h.step hStep hHere fun request hMem =>
      (hGrant request (hExt.2.subset hMem)).earlier hExt.1
    have hLeft := ih hOnTrack hRest hLater (hFinal.step hStep hHere.2)
      (hSubm.trans_le (hStep.timesSubmitted_le blobId))
    rw [countP_cons]
    by_cases hPoll : event.isPollOf blobId
    · obtain ⟨_, rfl⟩ : ∃ _ : Unit, event = .poll blobId := by
        cases event <;> simp_all [isPollOf]
      have hTurn := h.poll hStep hHere.1 hOnce hRcpt (hFinal.found h.holds hIdent hExt.1)
      rw [if_pos hPoll]
      omega
    · have hSame := h.other hStep hHere.2 hOnce (by simpa using hPoll)
      rw [hSame] at hLeft
      rw [if_neg hPoll]
      omega

end

theorem Served.granted (hServed : Served cfg rollup events final)
    (hRun : events.foldlM (step cfg) (start rollup) = .ok final) :
    ∀ request ∈ final.requested, Granted cfg final request.1 := by
  intro request hReq
  obtain ⟨receipt, hRcpt, before, after, mid, rfl, hBefore, hFinal, -⟩ := hServed.each request hReq
  rw [foldlM_append, bind_eq_ok] at hRun
  obtain ⟨mid', hMid, hAfter⟩ := hRun
  cases hBefore.symm.trans hMid
  obtain ⟨n, report, hAt, ⟨b, hMem, hHash, -⟩, -⟩ := hFinal.selected
  have hReport : report ∈ final.committed := (run_extends hAfter).1.subset (mem_of_getElem? hAt)
  refine ⟨receipt, hRcpt, fun other hOther => ?_⟩
  rw [← hHash]
  exact hServed.identified.not_discarded hReport hOther hMem

/-- If all is favourable, the blobs are delivered. -/
theorem Served.delivered (hServed : Served cfg rollup events final)
    (hRun : events.foldlM (step cfg) (start rollup) = .ok final)
    (hFav : Along (BlobSenderNode.step cfg) (Favourable cfg) (start rollup) events) : final.Delivered := by
  have hGrant := hServed.granted hRun
  have hAlong := along_and.mpr ⟨hFav, hServed.regular⟩
  have hOnTrack : final.OnTrack cfg := onTrack_start.run hRun hAlong hGrant
  have hPhase : ∀ request ∈ final.requested, final.timesSubmitted request.1 = 1 ∧
      (final.blobs request.1 = none ∧ final.blobInfos request.1 = none) ∧ ∃ receipt, final.hooksOf request.1 = [.onPublishedBlob request.1 receipt, .onFinalizedBlob request.1 receipt] := by
    intro request hReq
    obtain ⟨receipt, hRcpt, before, after, mid, rfl, hBefore, hFinalized, _⟩ := hServed.each request hReq
    rw [foldlM_append, bind_eq_ok] at hRun
    obtain ⟨mid', hMid, hAfter⟩ := hRun
    cases hBefore.symm.trans hMid
    obtain ⟨hAlongBefore, hAlongAfter⟩ := (along_append hBefore).mp hAlong
    have hExt := run_extends hAfter
    have hMidTrack : mid.OnTrack cfg := onTrack_start.run hBefore hAlongBefore fun other hOther =>
      (hGrant other (hExt.2.subset hOther)).earlier hExt.1
    obtain ⟨n, report, hAt, ⟨b, hMem, hHash, -⟩, hFinal⟩ := hFinalized.selected
    have hFinalAt : mid.FinalAt receipt.blobHash n := by
      refine ⟨⟨report, hAt, ?_⟩, hFinal⟩
      rw [← hHash]
      exact mem_batches_of_selected hMem (hMidTrack.noProofs report (mem_of_getElem? hAt) b hMem)
    obtain ⟨time, hSubmission, -⟩ := hFinalized.submitted
    have hSubm : 0 < mid.timesSubmitted request.1 :=
      countP_pos_iff.mpr ⟨_, hSubmission, by simp⟩
    have hLeft := hMidTrack.run_remaining hAfter hAlongAfter hGrant hServed.identified hRcpt hFinalAt hSubm
    have hStages := (hMidTrack.submitted_once hSubm).2
    have hNone : remaining (final.task request.1) = 0 := by omega
    have hLater : 0 < final.timesSubmitted request.1 :=
      foldlM_invariant (fun t => 0 < t.timesSubmitted request.1)
        (fun _ _ _ ht hStep => ht.trans_le ((step_ok hStep).timesSubmitted_le _)) hSubm hAfter
    cases hOnTrack.phase request.1 with
    | unknown _ _ hNever | waiting _ _ _ hNever => simp [hNever] at hLater
    | submitted _ _ hTask hSent =>
      rw [hTask] at hNone
      obtain hSent | ⟨-, hSent | hSent⟩ := hSent <;> simp [remaining, hSent] at hNone
    | delivered _ hBlob hOnce hHooks => exact ⟨hOnce, hBlob, _, hHooks⟩
  refine ⟨hOnTrack.running, fun request h => (hPhase request h).1, fun request h => (hPhase request h).2.2,
    fun request h => (hPhase request h).2.1, fun report hReport hash hHash => ?_⟩
  refine hOnTrack.holds.recognized_iff.mpr ⟨_, mem_map_of_mem hReport, ?_⟩
  obtain hSelected | hDisc := mem_append.mp hHash
  · obtain ⟨b, hMem, rfl⟩ := mem_map.mp hSelected
    exact .inl (mem_batches_of_selected hMem (hOnTrack.noProofs report hReport b hMem))
  · exact .inr hDisc

theorem timesSubmitted_submit (task : InFlightBlob) :
    (s.submit cfg blobId task).timesSubmitted blobId = s.timesSubmitted blobId + 1 := by
  have hSubmissions : (s.submit cfg blobId task).submissions = s.submissions ++ [(blobId, s.now)] := by
    unfold submit
    dsimp only
    split <;> rfl
  simp [timesSubmitted, hSubmissions, countP_append]

theorem blobs_submit (task : InFlightBlob) : (s.submit cfg blobId task).blobs = s.blobs := by
  unfold submit
  dsimp only
  split <;> rfl

theorem Step.stored (hStep : Step cfg s (.poll blobId) s') :
    s'.task blobId = none ∨ s'.blobs blobId = s.blobs blobId := by
  cases hStep with
  | idle => exact .inr rfl
  | pollPublished =>
    refine .inr ?_
    unfold BlobSenderNode.pollPublished
    split
    · split <;> rfl
    · split <;> rfl
  | pollProcessed =>
    refine .inr ?_
    unfold BlobSenderNode.pollProcessed
    split <;> rfl
  | pollFinalized _ _ _ hNext =>
    unfold BlobSenderNode.pollFinalized at hNext
    split at hNext <;> cases hNext
    · exact .inl (by simp [task, retain, setTask])
    · exact .inl (by simp [task, retain, setTask])
    · exact .inr rfl

structure SaneTask (s : BlobSenderNode S) (blobId : Nat) (task : InFlightBlob) : Prop where
  requested : ∃ blob, (blobId, blob) ∈ s.requested
  stored : (s.blobs blobId).isSome
  sent : task.status.submission ≠ .mustSubmit → 0 < s.timesSubmitted blobId

structure Sane (s : BlobSenderNode S) : Prop where
  holds : s.ledger.Holds s.commits
  tasks : ∀ blobId task, s.task blobId = some task → s.SaneTask blobId task

theorem sane_start : (start rollup).Sane where
  holds := LedgerDb.holds_empty
  tasks := by simp [start, task, retain]

theorem Sane.publish (h : s.Sane) (hTask : (s.publish blobId blob).task blobId = some task) :
    (s.publish blobId blob).SaneTask blobId task := by
  have hReqd : ∃ blob', (blobId, blob') ∈ (s.publish blobId blob).requested :=
    ⟨blob, by simp [(publish_node blob).2.2.1]⟩
  by_cases hSkip : s.shutdown = true ∨ (s.inFlightBlobs blobId).isSome
  · rw [publish_skipped hSkip] at hTask hReqd ⊢
    obtain ⟨-, hStored, hSent⟩ := h.tasks blobId task hTask
    exact ⟨hReqd, hStored, hSent⟩
  · obtain ⟨hOn, hNone⟩ : s.shutdown = false ∧ s.inFlightBlobs blobId = none := by simpa using hSkip
    obtain ⟨hNewTask, hNewBlob, -, -⟩ := @publish_new _ _ _ blob hOn hNone
    cases hNewTask.symm.trans hTask
    exact ⟨hReqd, by simp [hNewBlob], fun hMust => absurd rfl hMust⟩

theorem Sane.step (h : s.Sane) (hStep : Step cfg s event s') : s'.Sane := by
  refine ⟨hStep.holds h.holds, fun blobId task hTask => ?_⟩
  have hKeep : ∀ {old}, s.task blobId = some old → s'.blobs blobId = s.blobs blobId →
      (task.status.submission ≠ .mustSubmit → 0 < s'.timesSubmitted blobId) → s'.SaneTask blobId task := by
    intro old hOld hBlobs hSent
    obtain ⟨⟨blob, hMem⟩, _, -⟩ := h.tasks blobId old hOld
    exact ⟨⟨blob, hStep.requested_extends.subset hMem⟩, by rwa [hBlobs], hSent⟩
  by_cases hOwn : event.blobId? = some blobId
  · cases event with
    | publish _ blob =>
      cases hOwn
      cases hStep
      exact h.publish hTask
    | submit _ =>
      cases hOwn
      cases hStep with
      | submit _ hOld _ =>
        refine hKeep hOld (congrFun (blobs_submit _) blobId) fun _ => ?_
        rw [timesSubmitted_submit]
        exact succ_pos _
    | poll _ =>
      cases hOwn
      have hBlobs : s'.blobs blobId = s.blobs blobId := by
        obtain hNone | hSame := hStep.stored
        · simp [hTask] at hNone
        · exact hSame
      have hSent : ∀ {old}, s.task blobId = some old → old.status.submission ≠ .mustSubmit →
          0 < s'.timesSubmitted blobId := fun hOld hStat =>
        ((h.tasks blobId _ hOld).sent hStat).trans_le (hStep.timesSubmitted_le blobId)
      cases hStep with
      | idle => exact h.tasks blobId task hTask
      | pollPublished _ hOld hStat | pollProcessed _ hOld hStat | pollFinalized _ hOld hStat =>
        exact hKeep hOld hBlobs fun _ => hSent hOld (by simp [hStat])
    | slot | finalize | clock | metricsTick => cases hOwn
  · have hSame := hStep.sameFor hOwn
    rw [hSame.task] at hTask
    refine hKeep hTask hSame.blobs fun hStat => ?_
    rw [hSame.submitted]
    exact (h.tasks blobId task hTask).sent hStat

/-- The blob can no longer be delivered with a single submission. -/
def Spoiled (s : BlobSenderNode S) (blobId : Nat) : Prop :=
  s.shutdown = true ∨ 2 ≤ s.timesSubmitted blobId ∨ 0 < s.timesSubmitted blobId ∧ (s.blobs blobId).isSome ∧
      ∃ task, s.task blobId = some task ∧ task.status.submission = .mustSubmit

theorem Step.shutdown (hStep : Step cfg s event s') (h : s.shutdown = true) : s'.shutdown = true := by
  cases hStep with
  | publish => simp [BlobSenderNode.publish, h]
  | submit hOn | pollPublished hOn | pollProcessed hOn | pollFinalized hOn => simp [h] at hOn
  | idle | slot | finalize | clock | metricsTick => exact h

theorem Spoiled.step (h : s.Spoiled blobId) (hStep : Step cfg s event s') : s'.Spoiled blobId := by
  obtain hOff | hTwice | ⟨hOnce, hStored, task, hTask, hMust⟩ := h
  · exact .inl (hStep.shutdown hOff)
  · exact .inr (.inl (hTwice.trans (hStep.timesSubmitted_le blobId)))
  · by_cases hOwn : event.blobId? = some blobId
    · cases hStep with
      | publish _ blob =>
        cases hOwn
        rw [publish_skipped (.inr (by simp [(task_running hTask).1]))]
        exact .inr (.inr ⟨hOnce, hStored, task, hTask, hMust⟩)
      | submit =>
        cases hOwn
        refine .inr (.inl ?_)
        rw [timesSubmitted_submit]
        exact succ_le_succ hOnce
      | idle => exact .inr (.inr ⟨hOnce, hStored, task, hTask, hMust⟩)
      | pollPublished _ hOther hStat | pollProcessed _ hOther hStat | pollFinalized _ hOther hStat =>
        cases hOwn
        cases hTask.symm.trans hOther
        simp [hMust] at hStat
      | slot | finalize | clock | metricsTick => cases hOwn
    · have hSame := hStep.sameFor hOwn
      exact .inr (.inr ⟨by rwa [hSame.submitted], by rwa [hSame.blobs], task, hSame.task.trans hTask, hMust⟩)

theorem Delivered.not_spoiled (h : s.Delivered) (hReq : (blobId, blob) ∈ s.requested) : ¬s.Spoiled blobId := by
  rintro (hOff | _ | ⟨-, hStored, -⟩)
  · simp [h.running] at hOff
  · have hOnce : s.timesSubmitted blobId = 1 := h.once _ hReq
    omega
  · simp [(h.removed _ hReq).1] at hStored

/-- A look that comes too late spoils a blob. -/
theorem Sane.late (h : s.Sane) (hStep : Step cfg s (.poll blobId) s') (hTask : s.task blobId = some task)
    (hStat : task.status.submission = .published receipt)
    (hLate : ¬(task.timer ≤ s.now ∧ s.now ≤ task.timer + cfg.blobProcessingTimeout)) : s'.Spoiled blobId := by
  cases hStep with
  | idle _ hIdle =>
    cases hOff : s.shutdown with
    | true => exact .inl hOff
    | false =>
      have hMust := hIdle hOff task hTask
      simp [hStat] at hMust
  | pollProcessed _ hOther hOtherStatus | pollFinalized _ hOther hOtherStatus =>
    cases hTask.symm.trans hOther
    simp [hStat] at hOtherStatus
  | pollPublished _ hOther _ =>
    cases hTask.symm.trans hOther
    have hTime : s.checkTimeout cfg task.timer = true := by
      simp only [checkTimeout, Bool.or_eq_true, decide_eq_true_eq]
      omega
    unfold pollPublished
    rw [if_pos hTime]
    split
    · exact .inl rfl
    · obtain ⟨-, hStored, hSent⟩ := h.tasks blobId task hTask
      exact .inr (.inr ⟨hSent (by simp [hStat]), hStored, _, task_setTask_running (task_running hTask).2, rfl⟩)

theorem Delivered.no_proof {b} (hDeliv : s.Delivered) (hIdent : Identified s.committed)
    (hHolds : s.ledger.Holds s.commits) (hReport : report ∈ s.committed) (hMem : b ∈ report.selectedBlobs) :
    b.blobData.isProof = false := by
  have hKnown := hDeliv.recognized report hReport _ (mem_hashes_of_selected hMem)
  obtain ⟨slot, hSlot, hHash⟩ := hHolds.recognized_iff.mp hKnown
  obtain ⟨other, hOther, rfl⟩ := mem_map.mp hSlot
  obtain hBatch | hDisc := hHash
  · obtain rfl := hIdent.eq_of_mem hReport hOther (mem_hashes_of_selected hMem)
      (mem_hashes_of_batch hBatch)
    rw [receipts_batches] at hBatch
    obtain ⟨b', hMem', hSame⟩ := mem_map.mp hBatch
    obtain ⟨hSelected, hNoProof⟩ := mem_filter.mp hMem'
    have hNodup := (nodup_append.mp (hIdent.blob report hReport)).1
    have hEq : b' = b := inj_on_of_nodup_map hNodup hSelected hMem hSame
    subst b'
    simpa using hNoProof
  · exact absurd hDisc (hIdent.not_discarded hReport hOther hMem)

theorem Sane.run (h : s.Sane) (hRun : events.foldlM (BlobSenderNode.step cfg) s = .ok final) : final.Sane :=
  foldlM_invariant (fun t => t.Sane) (fun _ _ _ ht hStep => ht.step (step_ok hStep)) h hRun

/-- If the blobs are delivered, all was favourable. -/
theorem Delivered.favourable (hDeliv : final.Delivered) (hIdent : Identified final.committed) (hSane : s.Sane)
    (hRun : events.foldlM (BlobSenderNode.step cfg) s = .ok final) :
    Along (BlobSenderNode.step cfg) (Favourable cfg) s events := by
  have hHolds := (hSane.run hRun).holds
  induction events generalizing s with
  | nil => trivial
  | cons event rest ih =>
    rw [foldlM_cons, bind_eq_ok] at hRun
    obtain ⟨next, hNext, hRest⟩ := hRun
    have hStep := step_ok hNext
    refine (along_cons hNext).mpr ⟨?_, ih (hSane.step hStep) hRest⟩
    have hExt := run_extends hRest
    cases event with
    | slot blobs =>
      intro rollup report hSlot b hMem
      cases hStep with
      | slot hSlot' =>
        cases hSlot.symm.trans hSlot'
        have hReport : report ∈ final.committed := hExt.1.subset (by simp)
        exact hDeliv.no_proof hIdent hHolds hReport hMem
    | poll blobId =>
      intro task receipt hTask hStat
      by_contra hLate
      have hSpoiled : final.Spoiled blobId :=
        foldlM_invariant (fun t => t.Spoiled blobId) (fun _ _ _ ht hLater => ht.step (step_ok hLater))
          (hSane.late hStep hTask hStat hLate) hRest
      obtain ⟨⟨blob, hReq⟩, -, -⟩ := hSane.tasks blobId task hTask
      have hFinalRequest := hExt.2.subset (hStep.requested_extends.subset hReq)
      exact hDeliv.not_spoiled hFinalRequest hSpoiled
    | publish | submit | finalize | clock | metricsTick => trivial

/-- For every run of the node without reorg in which each published blob is included, selected and finalized in
time: the sender delivers all blobs, and the ledger recognizes the blobs of all slots, exactly if no slot executes a
proof and no published blob is looked up after its timeout. -/
theorem blobs_delivered_iff (hRun : events.foldlM (step cfg) (start rollup) = .ok final)
    (hServed : Served cfg rollup events final) :
    final.Delivered ↔ Along (step cfg) (Favourable cfg) (start rollup) events :=
  ⟨fun hDelivered => hDelivered.favourable hServed.identified sane_start hRun, hServed.delivered hRun⟩

theorem identified_singleton (h : report.hashes.Nodup) : Identified [report] where
  slot i j _ _ hi hj _ _ _ := by
    have hFirst := (List.getElem?_eq_some_iff.mp hi).1
    have hSecond := (List.getElem?_eq_some_iff.mp hj).1
    simp only [length_singleton] at hFirst hSecond
    omega
  blob other hMem := by
    cases mem_singleton.mp hMem
    exact h

/-- The DA service gives a blob the hash `first`, and later copies of it other hashes. -/
def hashesFrom (first : Hash) : BlobSenderConfig := ⟨10, fun _ n => some ⟨first + 100 * n, n⟩⟩

/-- The preferred sequencer's proof with sequence number 0 and batch with number 1. -/
def publishedProof : BlobTransaction setupSpec :=
  { preferredBatchBlob with hash := 60, asPreferredBatch := none, asPreferredProof := some ⟨0, RawProof.idle _⟩ }

def batchAfterProof : BlobTransaction setupSpec :=
  { preferredBatchBlob with asPreferredBatch := some ⟨1, [], 1, Nat.zero_le _, Nat.one_pos, one_le_u8Max⟩ }

/-- The proof is executed and finalized, but the task never finds it, and after the timeout sends it again. -/
def proofRun : List (BlobSenderEvent setupSpec) :=
  [.publish 1 (.proof [5]), .submit 1, .slot ⟨[batchAfterProof], [publishedProof]⟩, .finalize 0,
    .poll 1, .poll 1, .clock 11, .poll 1, .submit 1]

/-- All that is asked of the run holds, and the proof is sent twice. -/
theorem proof_submitted_twice :
    ∃ (rollup : RollupState setupSpec) (final : BlobSenderNode setupSpec),
      genesis (soloGenesis (7 : Nat) (1 : Nat) 1000 100 true) = .ok rollup ∧
      proofRun.foldlM (step (hashesFrom 60)) (start rollup) = .ok final ∧
      Served (hashesFrom 60) rollup proofRun final ∧ ¬final.Delivered := by
  refine ⟨_, _, rfl, rfl, ⟨identified_singleton ?_, ?_, ?_⟩, fun hDelivered => ?_⟩
  · show List.Nodup [60, 50]
    decide
  · refine (along_cons rfl).mpr ⟨fun _ => not_mem_nil, ?_⟩
    iterate 8 refine (along_cons rfl).mpr ⟨by first | trivial | exact le_refl 0, ?_⟩
    trivial
  · intro request hRequest
    obtain rfl : request = (1, .proof [5]) := mem_singleton.mp hRequest
    refine ⟨_, rfl, proofRun.take 4, proofRun.drop 4, _, rfl, rfl, ⟨⟨0, mem_singleton_self _, zero_le _⟩, ?_⟩,
      by decide⟩
    exact ⟨0, _, rfl, ⟨_, mem_cons_self, rfl, trivial⟩, le_refl 0⟩
  · have hOnce : 2 = 1 := hDelivered.once (1, .proof [5]) (mem_singleton_self _)
    exact absurd hOnce (by decide)

def batchRun : List (BlobSenderEvent setupSpec) :=
  [.publish 1 (.batch [5]), .submit 1, .slot ⟨[preferredBatchBlob], []⟩, .finalize 0, .poll 1, .poll 1, .poll 1]

/-- A batch is found, finalized and removed. -/
theorem batch_delivered :
    ∃ (rollup : RollupState setupSpec) (final : BlobSenderNode setupSpec),
      genesis (soloGenesis (7 : Nat) (1 : Nat) 1000 100 true) = .ok rollup ∧
      batchRun.foldlM (step (hashesFrom 50)) (start rollup) = .ok final ∧ final.Delivered := by
  simp only [exists_and_left]
  refine exists_and_of returned fun _ => exists_and_of returned fun hRun => ?_
  refine (blobs_delivered_iff hRun ⟨identified_singleton (nodup_singleton _), ?_, ?_⟩).mpr ?_
  · refine (along_cons rfl).mpr ⟨fun _ => not_mem_nil, ?_⟩
    iterate 6 refine (along_cons rfl).mpr ⟨by first | trivial | exact le_refl 0, ?_⟩
    trivial
  · intro request hRequest
    obtain rfl : request = (1, .batch [5]) := mem_singleton.mp hRequest
    refine ⟨_, rfl, batchRun.take 4, batchRun.drop 4, _, rfl, rfl,
      ⟨⟨0, mem_singleton_self _, zero_le _⟩, ?_⟩, by decide⟩
    exact ⟨0, _, rfl, ⟨_, mem_cons_self, rfl, trivial⟩, le_refl 0⟩
  · refine (along_cons rfl).mpr ⟨trivial, (along_cons rfl).mpr ⟨trivial, (along_cons rfl).mpr ⟨?_, ?_⟩⟩⟩
    · rintro _ _ ⟨⟩ b hMem
      obtain rfl := mem_singleton.mp hMem
      rfl
    refine (along_cons rfl).mpr ⟨trivial, (along_cons rfl).mpr ⟨?_, (along_cons rfl).mpr ⟨?_, ?_⟩⟩⟩
    · rintro _ _ ⟨⟩ -
      exact ⟨le_refl 0, zero_le 10⟩
    · rintro _ _ ⟨⟩ ⟨⟩
    refine (along_cons rfl).mpr ⟨?_, trivial⟩
    rintro _ _ ⟨⟩ ⟨⟩

end BlobSenderNode
end SovereignSdk
