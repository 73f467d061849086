import Mathlib.Order.Interval.Finset.Nat
import SovereignSdk.Library.Outcome

/-! The state transitions that the runner keeps for the prover: one entry for each slot, of which the oldest are
pruned once the prover has received them. -/
namespace SovereignSdk
open Outcome Finset

inductive StfInfoPanic where
  | nextAboveWrite
deriving DecidableEq

/-- The slot numbers of the stored entries, and the markers. The first slot is 1. -/
structure StfInfoManager where
  stfInfos : Finset Nat
  writeSlotNumber : Nat
  oldestSlotNumber : Option Nat
  nextHeightToReceive : Nat

namespace StfInfoManager
variable (maxInfos : Nat) (s : StfInfoManager)

def start : StfInfoManager := ⟨∅, 0, none, 1⟩

def getOldestSlotNumber : Nat := s.oldestSlotNumber.getD 1

/-- The loop stops at the first entry that the receiver still needs. -/
def deleteStfInfos (nextHeightToReceive : Nat) : List Nat → Finset Nat → Finset Nat
  | [], infos => infos
  | i :: rest, infos =>
    if i ≥ nextHeightToReceive then infos else deleteStfInfos nextHeightToReceive rest (infos.erase i)

def pruneEntries : StfInfoManager :=
  if s.writeSlotNumber < maxInfos then s
  else
    let pruneUpTo := s.writeSlotNumber - maxInfos
    let oldest := s.getOldestSlotNumber
    { s with
      stfInfos := deleteStfInfos s.nextHeightToReceive (List.range' oldest (pruneUpTo - oldest)) s.stfInfos
      oldestSlotNumber := if pruneUpTo > oldest then some pruneUpTo else s.oldestSlotNumber }

def write : StfInfoManager :=
  { s with
    stfInfos := insert (s.writeSlotNumber + 1) s.stfInfos
    writeSlotNumber := s.writeSlotNumber + 1 }

def materializeStfInfo : Except StfInfoPanic StfInfoManager := do
  let pruned := s.write.pruneEntries maxInfos
  ensure .nextAboveWrite (pruned.nextHeightToReceive ≤ pruned.writeSlotNumber)
  return pruned

inductive Event where
  | materialize
  | receive (count : Nat)

def perform (s : StfInfoManager) : Event → Except StfInfoPanic StfInfoManager
  | .materialize => s.materializeStfInfo maxInfos
  | .receive count => return { s with nextHeightToReceive := s.nextHeightToReceive + count }

def PrunesAll (s : StfInfoManager) : Event → Prop
  | .materialize => s.writeSlotNumber + 1 - maxInfos ≤ max s.getOldestSlotNumber s.nextHeightToReceive
  | .receive _ => True

theorem mem_deleteStfInfos {next oldest count n infos} :
    n ∈ deleteStfInfos next (List.range' oldest count) infos ↔
      n ∈ infos ∧ ¬(oldest ≤ n ∧ n < oldest + count ∧ n < next) := by
  induction count generalizing oldest infos with
  | zero => simp [deleteStfInfos]; omega
  | succ count ih =>
    rw [List.range'_succ, deleteStfInfos]
    split
    · refine (and_iff_left ?_).symm
      omega
    · rw [ih, mem_erase]
      refine ⟨fun h => ⟨h.1.2, by omega⟩, fun h => ⟨⟨by omega, h.1⟩, by omega⟩⟩

theorem mem_pruneEntries {n} :
    n ∈ (s.pruneEntries maxInfos).stfInfos ↔ n ∈ s.stfInfos ∧
      ¬(s.getOldestSlotNumber ≤ n ∧ n < s.writeSlotNumber - maxInfos ∧ n < s.nextHeightToReceive) := by
  unfold pruneEntries
  split
  · refine (and_iff_left ?_).symm
    omega
  · rw [mem_deleteStfInfos]
    refine and_congr_right fun _ => not_congr ?_
    omega

theorem pruneEntries_markers :
    (s.pruneEntries maxInfos).writeSlotNumber = s.writeSlotNumber ∧
      (s.pruneEntries maxInfos).nextHeightToReceive = s.nextHeightToReceive ∧
      (s.pruneEntries maxInfos).getOldestSlotNumber = max s.getOldestSlotNumber (s.writeSlotNumber - maxInfos) := by
  unfold pruneEntries
  split
  · exact ⟨rfl, rfl, by omega⟩
  · refine ⟨rfl, rfl, ?_⟩
    dsimp only
    split
    · exact (max_eq_right (Nat.le_of_lt ‹_›)).symm
    · exact (max_eq_left (Nat.le_of_not_lt ‹_›)).symm

structure Kept : Prop where
  oldest_le : s.getOldestSlotNumber ≤ s.writeSlotNumber + 1
  write_le : s.writeSlotNumber ≤ s.getOldestSlotNumber + maxInfos
  written : ∀ n ∈ s.stfInfos, n ≤ s.writeSlotNumber
  stored : ∀ n, s.getOldestSlotNumber ≤ n → n ≤ s.writeSlotNumber → n ∈ s.stfInfos
  unread : ∀ n, s.nextHeightToReceive ≤ n → n ≤ s.writeSlotNumber → n ∈ s.stfInfos

def NoneBelow : Prop := ∀ n ∈ s.stfInfos, s.getOldestSlotNumber ≤ n

variable {maxInfos s}

theorem Kept.perform {event s'} (h : s.Kept maxInfos) (hStep : s.perform maxInfos event = .ok s') :
    s'.Kept maxInfos ∧ (s'.NoneBelow ↔ s.NoneBelow ∧ s.PrunesAll maxInfos event) := by
  obtain ⟨hOldest, hWrite, hWritten, hStored, hUnread⟩ := h
  cases event with
  | receive count =>
    cases hStep
    exact ⟨⟨hOldest, hWrite, hWritten, hStored, fun n hn => hUnread n (Nat.le_of_add_right_le hn)⟩,
      (and_iff_left trivial).symm⟩
  | materialize =>
    simp only [StfInfoManager.perform, materializeStfInfo, bind_eq_ok, pure_eq_ok, ensure_eq_ok] at hStep
    obtain ⟨-, -, hPruned⟩ := hStep
    obtain ⟨hWrite', hNext', hOldest'⟩ := hPruned ▸ pruneEntries_markers maxInfos s.write
    change s'.writeSlotNumber = s.writeSlotNumber + 1 at hWrite'
    change s'.nextHeightToReceive = s.nextHeightToReceive at hNext'
    change s'.getOldestSlotNumber = max s.getOldestSlotNumber (s.writeSlotNumber + 1 - maxInfos) at hOldest'
    have hMem n : n ∈ s'.stfInfos ↔ (n = s.writeSlotNumber + 1 ∨ n ∈ s.stfInfos) ∧ ¬(s.getOldestSlotNumber ≤ n ∧
        n < s.writeSlotNumber + 1 - maxInfos ∧ n < s.nextHeightToReceive) :=
      (hPruned ▸ mem_pruneEntries maxInfos s.write).trans (and_congr_left' mem_insert)
    have hHere (n) (hn : n ≤ s.writeSlotNumber + 1) (hOld : n ≤ s.writeSlotNumber → n ∈ s.stfInfos) :=
      (Nat.le_or_eq_of_le_succ hn).symm.imp_right hOld
    refine ⟨⟨by omega, by omega, fun n hn => ?_, fun n hLe hn => ?_, fun n hLe hn => ?_⟩, ?_⟩
    · rcases ((hMem n).mp hn).1 with rfl | hn
      · exact hWrite'.ge
      · have hLe := hWritten n hn
        omega
    · exact (hMem n).mpr ⟨hHere n (by omega) (hStored n (by omega)), by omega⟩
    · exact (hMem n).mpr ⟨hHere n (by omega) (hUnread n (by omega)), by omega⟩
    · unfold NoneBelow PrunesAll
      constructor
      · intro hNone
        refine ⟨fun n hn => ?_, ?_⟩
        · by_contra hBelow
          have hLe := hNone n ((hMem n).mpr ⟨.inr hn, by omega⟩)
          omega
        · -- the first entry that the loop leaves is below the new marker
          by_contra hSkips
          have hLe := hNone (max s.getOldestSlotNumber s.nextHeightToReceive)
            ((hMem _).mpr ⟨.inr (hStored _ (by omega) (by omega)), by omega⟩)
          omega
      · rintro ⟨hNone, hAll⟩ n hn
        obtain ⟨rfl | hOld, hLeft⟩ := (hMem n).mp hn
        · omega
        · have hLe := hNone n hOld
          omega

/-- For every number of entries to keep and every interleaving: no entry that is still to be received is deleted. The
entries are those from the oldest to the last written slot number, and few enough once all are received, just if each
pruning could delete all entries below the new oldest slot number. -/
theorem stored_infos_exact_iff (maxInfos : Nat) (events : List Event) :
    Yields
      (fun s => (∀ n, s.nextHeightToReceive ≤ n → n ≤ s.writeSlotNumber → n ∈ s.stfInfos) ∧
        ((s.stfInfos = Icc s.getOldestSlotNumber s.writeSlotNumber ∧
            (s.writeSlotNumber < s.nextHeightToReceive → s.stfInfos.card ≤ maxInfos + 1)) ↔
          Along (perform maxInfos) (PrunesAll maxInfos) start events))
      (· = .nextAboveWrite) (events.foldlM (perform maxInfos) start) := by
  have hStart : start.Kept maxInfos := by
    refine ⟨by decide, Nat.zero_le _, by decide, fun n hOld hn => ?_, fun n hNext hn => ?_⟩
    · exact absurd (hOld.trans hn) (by decide)
    · exact absurd (hNext.trans hn) (by decide)
  refine .intro (fun s hRun => ?_) fun p _ => by cases p; rfl
  have hKept := foldlM_invariant (Kept maxInfos) (fun _ _ _ h hStep => (h.perform hStep).1) hStart hRun
  have hIff := foldlM_iff_along (Kept maxInfos) NoneBelow (fun _ _ _ h hStep => h.perform hStep) hStart hRun
  refine ⟨hKept.unread, .trans ⟨fun h n hn => ?_, fun hNone => ?_⟩ (hIff.trans (and_iff_right (by simp [NoneBelow, start])))⟩
  · rw [h.1, mem_Icc] at hn
    exact hn.1
  · have hExact : s.stfInfos = Icc s.getOldestSlotNumber s.writeSlotNumber := by
      ext n
      rw [mem_Icc]
      exact ⟨fun hn => ⟨hNone n hn, hKept.written n hn⟩, fun hn => hKept.stored n hn.1 hn.2⟩
    refine ⟨hExact, fun _ => ?_⟩
    have hWrite := hKept.write_le
    rw [hExact, Nat.card_Icc]
    omega

/-- The first entry is not received when the marker moves past it, and stays for ever. -/
theorem skipped_info_stays :
    ∃ s, [.materialize, .materialize, .materialize, .receive 3, .materialize, .receive 1].foldlM (perform 1) start =
        .ok s ∧
      s.stfInfos = {1, 3, 4} ∧ s.getOldestSlotNumber = 3 ∧ s.writeSlotNumber = 4 ∧ s.nextHeightToReceive = 5 :=
  ⟨_, rfl, by decide, rfl, rfl, rfl⟩

end StfInfoManager
end SovereignSdk
