import SovereignSdk.BlobStorage.Handover
import SovereignSdk.StfBlueprint.Heights

/-! Deferred blobs over a run of slots. What is stored under a true slot number is
taken out once, in the slot in which that number becomes visible. -/
namespace SovereignSdk
open Outcome List Nat

variable {S : Spec}

/-- The state reached by a run and what could be observed of its slots. -/
structure History (S : Spec) where
  state : RollupState S
  reports : List (SlotReport S)

namespace History
variable {h : History S}

def slot (h : History S) (blobs : RelevantBlobs S) : Except Panic (History S) := do
  let (state, report) ← applySlot h.state blobs
  return ⟨state, h.reports ++ [report]⟩

def storedAt (h : History S) (t : Nat) : List (ValidatedBlob S) :=
  (h.reports.filter (·.trueSlotNumber = t)).flatMap (·.stored)

def takes (h : History S) : List (Nat × List (ValidatedBlob S)) := h.reports.flatMap (·.taken)

/-- The deferred blobs are those stored under the slot numbers that are not yet
visible; all others have been taken out, slot by slot. -/
structure Accounted (h : History S) : Prop where
  visible_le : h.state.chain.visibleSlotNumber ≤ h.state.chain.trueSlotNumber
  slots : h.reports.map (·.trueSlotNumber) = List.range' 1 h.state.chain.trueSlotNumber
  takes : h.takes = (List.range' 1 h.state.chain.visibleSlotNumber).map fun t => (t, h.storedAt t)
  deferred : ∀ t, h.state.storage.deferredBlobs t =
    if h.state.chain.visibleSlotNumber < t ∧ h.storedAt t ≠ [] then some (h.storedAt t) else none

theorem storedAt_append (state : RollupState S) (r : SlotReport S) (t : Nat) :
    storedAt ⟨state, h.reports ++ [r]⟩ t = h.storedAt t ++ if r.trueSlotNumber = t then r.stored else [] := by
  unfold storedAt
  by_cases ht : r.trueSlotNumber = t
  · simp [ht]
  · simp [ht]

theorem Accounted.storedAt_nil (hAcc : h.Accounted) {t} (ht : h.state.chain.trueSlotNumber < t) :
    h.storedAt t = [] := by
  unfold storedAt
  rw [filter_eq_nil_iff.mpr, flatMap_nil]
  intro r hr hEq
  have hMem := hAcc.slots ▸ mem_map_of_mem hr
  have := mem_range'_1.mp hMem
  have := of_decide_eq_true hEq
  omega

theorem storedAt_of_mem (hNodup : (h.reports.map (·.trueSlotNumber)).Nodup) {r}
    (hr : r ∈ h.reports) : h.storedAt r.trueSlotNumber = r.stored := by
  obtain ⟨before, after, hSplit⟩ := append_of_mem hr
  rw [hSplit, map_append, map_cons, nodup_middle, nodup_cons, mem_append] at hNodup
  have hOther : ∀ l : List (SlotReport S), r.trueSlotNumber ∉ l.map (·.trueSlotNumber) →
      l.filter (·.trueSlotNumber = r.trueSlotNumber) = [] := fun l hl => by
    refine filter_eq_nil_iff.mpr fun q hq hEq => hl ?_
    rw [← of_decide_eq_true hEq]
    exact mem_map_of_mem hq
  unfold storedAt
  rw [hSplit, filter_append, hOther before fun hMem => hNodup.1 (.inl hMem),
    filter_cons_of_pos (by simp), hOther after fun hMem => hNodup.1 (.inr hMem)]
  simp

theorem Accounted.next (hAcc : h.Accounted) {blobs} (turn : SlotTurn h.state blobs)
    (hCount : S.deferredSlotsCount ≠ 0) : Accounted ⟨turn.next, h.reports ++ [turn.report]⟩ := by
  obtain ⟨hSynced, hVis, hTrue, hAdvanced, hNextVis, hNextTrue, _⟩ := turn.slots hAcc.visible_le
  obtain ⟨hTaken, hDefer⟩ := (getBlobsForThisSlot_ok turn.selecting).deferral hSynced hCount
  have hVisibleLe := hAcc.visible_le
  have hStored := storedAt_append (h := h) turn.next turn.report
  have hReport : turn.report.trueSlotNumber = turn.synced.trueSlotNumber := rfl
  have hOld : ∀ t, t ≠ turn.synced.trueSlotNumber →
      storedAt ⟨turn.next, h.reports ++ [turn.report]⟩ t = h.storedAt t := fun t ht => by
    rw [hStored, hReport, if_neg (Ne.symm ht), append_nil]
  have hNew : storedAt ⟨turn.next, h.reports ++ [turn.report]⟩ turn.synced.trueSlotNumber = turn.out.stored := by
    rw [hStored, hReport, if_pos rfl, hAcc.storedAt_nil (by omega)]
    rfl
  -- storage after this slot's blobs have been stored, before any are taken out
  have hEntry : ∀ t, h.state.chain.visibleSlotNumber < t →
      (h.state.storage.storeBatches turn.synced.trueSlotNumber turn.out.stored).deferredBlobs t =
        if storedAt ⟨turn.next, h.reports ++ [turn.report]⟩ t ≠ [] then
          some (storedAt ⟨turn.next, h.reports ++ [turn.report]⟩ t) else none := fun t ht => by
    rw [storeBatches_deferred, hAcc.deferred t]
    by_cases hEq : t = turn.synced.trueSlotNumber
    · subst hEq
      rw [hNew, hAcc.storedAt_nil (by omega)]
      simp
    · rw [hOld t hEq]
      simp [hEq, ht]
  refine ⟨?_, ?_, ?_, fun t => ?_⟩
  · dsimp only
    omega
  · rw [map_append, hAcc.slots, hNextTrue, hTrue, range'_concat]
    simp only [map_cons, map_nil, hReport, hTrue, add_comm, one_mul]
  · unfold History.takes
    rw [flatMap_append, show h.reports.flatMap (·.taken) = _ from hAcc.takes, hNextVis, hAdvanced,
      hVis, ← range'_append_1, map_append]
    congr 1
    · refine map_congr_left fun t ht => ?_
      have := mem_range'_1.mp ht
      rw [hOld t (by omega)]
    · rw [flatMap_cons, flatMap_nil, append_nil, show turn.report.taken = _ from hTaken, hVis, add_comm 1]
      refine map_congr_left fun t ht => ?_
      have := mem_range'_1.mp ht
      rw [hEntry t (by omega)]
      split
      · rfl
      · rename_i hNil
        rw [not_not.mp hNil]
        rfl
  · show turn.out.storage.deferredBlobs t = _
    rw [hDefer t]
    rw [hNextVis, hAdvanced, hVis]
    by_cases ht : h.state.chain.visibleSlotNumber < t
    · rw [hEntry t ht]
      by_cases hTaken : t ≤ h.state.chain.visibleSlotNumber + turn.out.visibleSlotNumberIncrease
      · rw [if_pos ⟨ht, hTaken⟩, if_neg (by omega)]
      · simp [Nat.lt_of_not_le hTaken]
    · rw [if_neg (by omega), if_neg (by omega), storeBatches_deferred, if_neg (by omega), hAcc.deferred t,
        if_neg (by omega)]

theorem slot_ok {h' blobs} (hStep : h.slot blobs = .ok h') :
    ∃ turn : SlotTurn h.state blobs, h' = ⟨turn.next, h.reports ++ [turn.report]⟩ := by
  simp only [slot, bind_eq_ok, pure_eq_ok] at hStep
  obtain ⟨⟨state, report⟩, hSlot, rfl⟩ := hStep
  obtain ⟨turn, rfl, rfl⟩ := applySlot_ok hSlot
  exact ⟨turn, rfl⟩

theorem accounted_start {start : RollupState S} (hStart : start.AtGenesis) : Accounted ⟨start, []⟩ where
  visible_le := by rw [hStart.visibleSlotNumber]; exact zero_le _
  slots := by rw [hStart.trueSlotNumber]; rfl
  takes := by rw [hStart.visibleSlotNumber]; rfl
  deferred := fun t => by
    rw [hStart.storage, if_neg fun hStored => hStored.2 rfl]
    rfl

end History

/-- What holds of a slot by itself: blobs are taken out under the numbers that
become visible in it, and they are handed over to the selection. -/
structure SlotReport.Orderly (q : SlotReport S) : Prop where
  taken : q.taken.map Prod.fst = List.range' (q.visibleBefore + 1) (q.visibleAfter - q.visibleBefore)
  handedOver : HandedOver ((q.taken.flatMap (·.2)).map ValidatedBlob.content)
    (q.selectedBlobs.map SelectedBlob.content) q.discarded

theorem SlotReport.Orderly.mem_taken {q : SlotReport S} (hq : q.Orderly) (t : Nat) :
    (∃ l, (t, l) ∈ q.taken) ↔ q.visibleBefore < t ∧ t ≤ q.visibleAfter := by
  have hMem : (∃ l, (t, l) ∈ q.taken) ↔ t ∈ q.taken.map Prod.fst := by simp
  rw [hMem, hq.taken, mem_range'_1]
  omega

theorem Reaches.accounted {start : RollupState S} {h : History S} (hStart : start.AtGenesis)
    (hCount : S.deferredSlotsCount ≠ 0) (run : Reaches History.slot (fun _ _ => True) ⟨start, []⟩ h) :
    h.Accounted ∧ ∀ q ∈ h.reports, q.Orderly := by
  refine run.invariant (fun h => h.Accounted ∧ ∀ q ∈ h.reports, q.Orderly) ⟨History.accounted_start hStart, by simp⟩ ?_
  rintro h h' blobs ⟨hAcc, hOrderly⟩ - hStep
  obtain ⟨turn, rfl⟩ := History.slot_ok hStep
  refine ⟨hAcc.next turn hCount, fun q hq => ?_⟩
  rcases mem_append.mp hq with hq | hq
  · exact hOrderly q hq
  · rw [mem_singleton.mp hq]
    obtain ⟨hSynced, -, -, hAdvanced, -, -, -⟩ := turn.slots hAcc.visible_le
    have hCase := getBlobsForThisSlot_ok turn.selecting
    refine ⟨?_, hCase.handedOver⟩
    have hAfter : turn.report.visibleAfter - turn.report.visibleBefore = turn.out.visibleSlotNumberIncrease :=
      Nat.sub_eq_of_eq_add' hAdvanced
    rw [hAfter, show turn.report.taken = _ from (hCase.deferral hSynced hCount).1, map_map]
    exact map_id _

theorem History.Accounted.takes_filter {h : History S} (hAcc : h.Accounted) (t : Nat) :
    h.takes.filter (·.1 = t) = if 1 ≤ t ∧ t ≤ h.state.chain.visibleSlotNumber then [(t, h.storedAt t)] else [] := by
  rw [hAcc.takes, filter_map]
  have hFilter : (range' 1 h.state.chain.visibleSlotNumber).filter
      ((fun e : Nat × List (ValidatedBlob S) => decide (e.1 = t)) ∘ fun t => (t, h.storedAt t)) =
      replicate ((range' 1 h.state.chain.visibleSlotNumber).count t) t := filter_eq t
  rw [hFilter]
  split
  · rw [count_eq_one_of_mem (nodup_range' ..) (mem_range'_1.mpr (by omega))]
    rfl
  · rename_i ht
    rw [count_eq_zero_of_not_mem fun hMem => ht (by have := mem_range'_1.mp hMem; omega)]
    rfl

/-- In every run of slots with deferral, whatever the slots bring: what was stored
under a true slot number is taken out exactly once as soon as that number is
visible, and lies in storage unchanged until then. A slot takes out what is stored
under the numbers that become visible in it, no other entries are in storage than
those of slots that are not yet visible, and every blob taken out is selected, once
and in order, or listed as discarded. -/
theorem deferred_blobs_taken_once (hCount : 0 < S.deferredSlotsCount) {start : RollupState S}
    (hStart : start.AtGenesis) {h : History S} (run : Reaches History.slot (fun _ _ => True) ⟨start, []⟩ h) :
    (∀ r ∈ h.reports, if r.trueSlotNumber ≤ h.state.chain.visibleSlotNumber then
        h.takes.filter (·.1 = r.trueSlotNumber) = [(r.trueSlotNumber, r.stored)]
      else
        h.takes.filter (·.1 = r.trueSlotNumber) = [] ∧
          h.state.storage.deferredBlobs r.trueSlotNumber = if r.stored ≠ [] then some r.stored else none) ∧
      (∀ q ∈ h.reports, ∀ t, (∃ l, (t, l) ∈ q.taken) ↔ q.visibleBefore < t ∧ t ≤ q.visibleAfter) ∧
      (∀ t, h.state.storage.deferredBlobs t ≠ none →
        h.state.chain.visibleSlotNumber < t ∧ t ≤ h.state.chain.trueSlotNumber) ∧
      ∀ q ∈ h.reports, HandedOver ((q.taken.flatMap (·.2)).map ValidatedBlob.content)
        (q.selectedBlobs.map SelectedBlob.content) q.discarded := by
  obtain ⟨hAcc, hOrderly⟩ := Reaches.accounted hStart hCount.ne' run
  refine ⟨fun r hr => ?_, fun q hq => (hOrderly q hq).mem_taken, fun t ht => ?_, fun q hq => (hOrderly q hq).handedOver⟩
  · have hNodup : (h.reports.map (·.trueSlotNumber)).Nodup := hAcc.slots ▸ nodup_range' ..
    have hStored := History.storedAt_of_mem hNodup hr
    have hPos : 1 ≤ r.trueSlotNumber :=
      (mem_range'_1.mp (hAcc.slots ▸ mem_map_of_mem hr)).1
    rw [hAcc.takes_filter, hAcc.deferred, hStored]
    split
    · rename_i hVisible
      rw [if_pos ⟨hPos, hVisible⟩]
    · rename_i hVisible
      simp [Nat.lt_of_not_le hVisible]
  · rw [hAcc.deferred t] at ht
    split at ht
    · rename_i hBoth
      refine ⟨hBoth.1, Nat.le_of_not_lt fun hLt => hBoth.2 (hAcc.storedAt_nil hLt)⟩
    · exact absurd rfl ht

def twoSlotSpec : Spec := { testSpec with deferredSlotsCount := 2 }

def strayBlob : BlobTransaction twoSlotSpec where
  sender := (2 : Nat)
  hash := 77
  totalLen := 5
  asBatch := none
  asProof := none
  asTx := some (FullyBakedTx.idle (8 : Nat))
  asPreferredBatch := none
  asPreferredProof := none
  batch_length := by simp
  batch_len_le := by simp
  proof_len_le := by simp

/-- A blob that arrives in the first slot is executed in the second. -/
theorem stray_blob_taken_once :
    ∃ (start : RollupState twoSlotSpec) (h : History twoSlotSpec) (r : SlotReport twoSlotSpec),
      genesis (soloGenesis (7 : Nat) (1 : Nat) 1000 100 true) = .ok start ∧ r ∈ h.reports ∧
      r.stored.length = 1 ∧ h.takes.filter (·.1 = 1) = [(1, r.stored)] := by
  obtain ⟨start, hGenesis, h₁, hFirst, h₂, hSecond, r, hMem, hTrue, hStored, hVisible⟩ :
      ∃ start : RollupState twoSlotSpec, genesis (soloGenesis (7 : Nat) (1 : Nat) 1000 100 true) = .ok start ∧
        ∃ h₁, History.slot ⟨start, []⟩ ⟨[strayBlob], []⟩ = .ok h₁ ∧
        ∃ h₂, h₁.slot ⟨[], []⟩ = .ok h₂ ∧
        ∃ r, h₂.reports[0]? = some r ∧ r.trueSlotNumber = 1 ∧ r.stored.length = 1 ∧
          h₂.state.chain.visibleSlotNumber = 1 := ⟨_, rfl, _, rfl, _, rfl, _, rfl, rfl, rfl, rfl⟩
  have hRun : Reaches History.slot (fun _ _ => True) ⟨start, []⟩ h₂ :=
    .tail (.tail .refl trivial hFirst) trivial hSecond
  have hr : r ∈ h₂.reports := mem_of_getElem? hMem
  have hTaken := (deferred_blobs_taken_once (by decide) (genesis_atGenesis hGenesis) hRun).1 r hr
  rw [if_pos (by rw [hTrue, hVisible]), hTrue] at hTaken
  exact ⟨start, h₂, r, hGenesis, hr, hStored, hTaken⟩

end SovereignSdk
