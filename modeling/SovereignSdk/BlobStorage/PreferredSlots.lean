import SovereignSdk.BlobStorage.SequenceNumbers

/-! Runs of slots with a preferred sequencer, seen from its blob store. -/
namespace SovereignSdk
open Outcome List

variable {S : Spec}

/-- The store of the preferred sequencer with the lists handed out so far, one
for each slot. -/
structure HandOuts (S : Spec) where
  store : PreferredStore S
  lists : List (List (PreferredBlobDataWithId S))

namespace HandOuts

def initial : HandOuts S := ⟨.initial, []⟩

/-- One slot in which the given well-formed blobs of the preferred sequencer arrive. -/
def slot (h : HandOuts S) (blobs : List (PreferredBlobDataWithId S)) : Except Panic (HandOuts S) := do
  let (store, output) ← h.store.pickPreferredBlobsToProcess blobs
  return ⟨store, h.lists ++ [output]⟩

theorem slot_eq {h : HandOuts S} {blobs output : List (PreferredBlobDataWithId S)}
    {store : PreferredStore S} (hPick : h.store.pickPreferredBlobsToProcess blobs = .ok (store, output)) :
    h.slot blobs = .ok ⟨store, h.lists ++ [output]⟩ := by
  simp only [slot, hPick]
  rfl

/-- Everything handed out so far is numbered from zero without a gap, up to the
expected number, and every list is empty or ends with its only batch. -/
structure Ordered (h : HandOuts S) : Prop where
  consistent : h.store.Consistent
  numbers : h.lists.flatten.map (·.number) = List.range' 0 h.lists.flatten.length
  next_eq : h.store.tracker.nextSequenceNumber = h.lists.flatten.length
  ends : ∀ l ∈ h.lists, l = [] ∨ ∃ init last, l = init ++ [last] ∧ last.blobType = .batch ∧
    ∀ b ∈ init, b.blobType = .proof

theorem ordered_initial : Ordered (initial : HandOuts S) where
  consistent := fun e he => by simp [initial, PreferredStore.initial, PreferredStore.tracker,
    SequencerNumberTracker.initial] at he
  numbers := rfl
  next_eq := rfl
  ends := by simp [initial]

theorem Ordered.slot {h : HandOuts S} (hOrd : Ordered h) {blobs : List (PreferredBlobDataWithId S)}
    (hRoom : h.store.Room blobs) (hTypes : h.store.KeepsTypes blobs) : ∃ h', h.slot blobs = .ok h' ∧ Ordered h' := by
  obtain ⟨store, output, hPick, hHands, hCons⟩ := hOrd.consistent.pick hRoom hTypes
  refine ⟨_, slot_eq hPick, hCons, ?_, ?_, ?_⟩
  · simp only [flatten_append, flatten_singleton, map_append, length_append, hOrd.numbers, hHands.numbers, hOrd.next_eq]
    rw [← range'_append]
    simp
  · simp only [hHands.next_eq, hOrd.next_eq, flatten_append, flatten_singleton, length_append]
  · intro l hl
    rcases mem_append.mp hl with hl | hl
    · exact hOrd.ends l hl
    · cases mem_singleton.mp hl
      exact hHands.ends

/-- Over every run of slots in which no blob changes the type of a saved number
behind a number that arrives twice, the lists handed out carry the numbers
`0, 1, 2, …` in order, each list is empty or ends with its only batch, the
expected number is one more than the last one handed out, and the next such
slot does not panic. -/
theorem handed_out_in_order {h : HandOuts S} (run : Reaches HandOuts.slot
      (fun h blobs => h.store.Room blobs ∧ h.store.KeepsTypes blobs) initial h) :
    h.lists.flatten.map (·.number) = List.range' 0 h.lists.flatten.length ∧
      (∀ l ∈ h.lists, l = [] ∨ ∃ init last, l = init ++ [last] ∧ last.blobType = .batch ∧
        ∀ b ∈ init, b.blobType = .proof) ∧
      h.store.tracker.nextSequenceNumber = h.lists.flatten.length ∧
      ∀ blobs, h.store.Room blobs → h.store.KeepsTypes blobs → ∃ h', h.slot blobs = .ok h' := by
  have hOrdered : Ordered h := by
    refine run.invariant Ordered ordered_initial fun h h' blobs hOrdered hAdmits hStep => ?_
    obtain ⟨h'', hSlot, hNext⟩ := hOrdered.slot hAdmits.1 hAdmits.2
    rw [hSlot] at hStep
    cases hStep
    exact hNext
  refine ⟨hOrdered.numbers, hOrdered.ends, hOrdered.next_eq, fun blobs hRoom hTypes => ?_⟩
  obtain ⟨h', hSlot, -⟩ := hOrdered.slot hRoom hTypes
  exact ⟨h', hSlot⟩

/-- A batch and a proof of the preferred sequencer with a given number. -/
def batchNumbered (n : Nat) (id : Hash) : PreferredBlobDataWithId testSpec :=
  ⟨.batch ⟨n, [], 1, by decide, by decide, by decide⟩, id⟩

def proofNumbered (n : Nat) (id : Hash) : PreferredBlobDataWithId testSpec :=
  ⟨.proof ⟨n, .idle testSpec⟩, id⟩

/-- Batch 1 is saved; then proof 0 arrives twice together with a proof
numbered 1. The run uses the index entry of the batch, but the store has the
proof by then: a list is handed out that has no batch. -/
theorem handed_out_without_batch :
    ([[batchNumbered 1 10], [proofNumbered 0 11, proofNumbered 0 12, proofNumbered 1 13]].foldlM
        HandOuts.slot initial).map (fun h => h.lists.map (·.map fun b => (b.number, b.blobType))) =
      .ok [[], [(0, .proof), (1, .proof)]] := rfl

/-- A batch that arrives early is handed out after the proof with the number before it. -/
theorem handed_out_in_order_two_slots :
    ∃ h : HandOuts testSpec, h.lists.flatten.map (·.number) = [0, 1] ∧
      h.lists.flatten.map (·.number) = List.range' 0 h.lists.flatten.length := by
  have first : Reaches HandOuts.slot
      (fun h blobs => h.store.Room blobs ∧ h.store.KeepsTypes blobs) initial _ :=
    .tail (i := [batchNumbered 1 10]) .refl (by decide) rfl
  have second := first.tail (i := [proofNumbered 0 11, batchNumbered 1 12]) (by decide) rfl
  exact ⟨_, rfl, (handed_out_in_order second).1⟩

theorem synced_initial : (initial : HandOuts S).store.Synced where
  indexed := fun e he => by simp [initial, PreferredStore.initial, PreferredStore.tracker,
    SequencerNumberTracker.initial] at he
  listed := fun k b _ hb => by simp [initial, PreferredStore.initial] at hb
  upcoming := fun e he => by simp [initial, PreferredStore.initial, PreferredStore.tracker,
    SequencerNumberTracker.initial] at he

/-- Over every run of slots in which no number that a run reaches is held
twice, the index and the store of saved blobs agree in both directions, nothing
saved is below the expected number, and the next such slot does not panic. -/
theorem saved_blobs_match_index {h : HandOuts S} (run : Reaches HandOuts.slot
      (fun h blobs => h.store.Room blobs ∧ h.store.HeldOnce blobs) initial h) :
    (∀ e ∈ h.store.tracker.savedSequencerNumbers.entries,
        ∃ b, h.store.deferredPreferredSequencerBlobs e.1 = some b ∧ b.number = e.1 ∧ b.blobType = e.2) ∧
      (∀ k b, h.store.deferredPreferredSequencerBlobs k = some b →
        b.number = k ∧ (∃ t, (k, t) ∈ h.store.tracker.savedSequencerNumbers.entries) ∧
          h.store.tracker.nextSequenceNumber ≤ k) ∧
      ∀ blobs, h.store.Room blobs → h.store.HeldOnce blobs → ∃ h', h.slot blobs = .ok h' := by
  have hSynced : h.store.Synced := by
    refine run.invariant (fun h => h.store.Synced) synced_initial fun h h' blobs hSynced hAdmits hStep => ?_
    obtain ⟨store, output, hPick, hNext⟩ := hSynced.pick hAdmits.1 hAdmits.2
    rw [slot_eq hPick] at hStep
    cases hStep
    exact hNext
  refine ⟨fun e he => hSynced.indexed e he (Nat.zero_le _), fun k b hb => ?_, fun blobs hRoom hOnce => ?_⟩
  · obtain ⟨hNumber, hMem⟩ := hSynced.listed k b (Nat.zero_le _) hb
    exact ⟨hNumber, ⟨_, hMem⟩, hSynced.upcoming _ hMem⟩
  · obtain ⟨store, output, hPick, -⟩ := hSynced.pick hRoom hOnce
    exact ⟨_, slot_eq hPick⟩

/-- Batch 1 is saved and arrives again in the slot that uses it: the saved copy
stays in the store, below the expected number and without an index entry. -/
theorem saved_blob_left_behind :
    ([[batchNumbered 1 10], [proofNumbered 0 11, batchNumbered 1 12]].foldlM HandOuts.slot initial).map
        (fun h => (h.store.tracker.nextSequenceNumber, h.store.tracker.savedSequencerNumbers.entries,
          (h.store.deferredPreferredSequencerBlobs 1).map fun b => (b.number, b.id))) =
      .ok (2, [], some (1, 10)) := rfl

/-- A proof that arrives early is in the index and in the store. -/
theorem saved_blobs_match_index_two_slots :
    ∃ h : HandOuts testSpec, h.store.tracker.savedSequencerNumbers.entries = [(2, .proof)] ∧
      ∃ b, h.store.deferredPreferredSequencerBlobs 2 = some b ∧ b.number = 2 ∧ b.blobType = .proof := by
  have first : Reaches HandOuts.slot
      (fun h blobs => h.store.Room blobs ∧ h.store.HeldOnce blobs) initial _ :=
    .tail (i := [batchNumbered 1 10]) .refl (by decide) rfl
  have second := first.tail (i := [proofNumbered 0 11, proofNumbered 2 12]) (by decide) rfl
  exact ⟨_, rfl, (saved_blobs_match_index second).1 (2, .proof) (by decide)⟩

end HandOuts

namespace PreferredStore
open HandOuts
variable {next : Nat} {new blobs : List (PreferredBlobDataWithId S)} {stored : List (Nat × BlobType)} {run : Run S}

/-- A blob of this number and type has arrived, or is in the index. -/
def Available (blobs : List (PreferredBlobDataWithId S)) (stored : List (Nat × BlobType)) (k : Nat) (t : BlobType) :
    Prop :=
  (∃ b ∈ blobs, b.number = k ∧ b.blobType = t) ∨ (k, t) ∈ stored

/-- Consecutive numbers are available, of proofs and then of a batch. -/
inductive Covered (blobs : List (PreferredBlobDataWithId S)) (stored : List (Nat × BlobType)) : Nat → Prop where
  | batch {k : Nat} (h : Available blobs stored k .batch) : Covered blobs stored k
  | proof {k : Nat} (h : Available blobs stored k .proof) (rest : Covered blobs stored (k + 1)) : Covered blobs stored k

/-- The numbers ahead fit in a `u64`, no proof on the way to a batch is held twice, be it that it arrives twice or that
it arrives and is stored, and nothing is stored below the expected number. -/
structure Unrepeated (next : Nat) (blobs : List (PreferredBlobDataWithId S)) (stored : List (Nat × BlobType)) :
    Prop where
  room : next + blobs.length + stored.length ≤ u64Max
  once : ∀ k, next ≤ k → FollowsProofs next blobs stored (k + 1) → held k blobs stored ≤ 1
  upcoming : ∀ e ∈ stored, next ≤ e.1

section arrival
variable {new' : List (PreferredBlobDataWithId S)} {stored' : List (Nat × BlobType)} {a : BlobArrival S}
  (h : nextArrival next new stored = some (a, new', stored'))
include h

theorem available_of_nextArrival : Available new stored next a.blobType := by
  rcases nextArrival_eq_some h with ⟨b, rfl, rfl, -, hb⟩ | ⟨t, rfl, -, rfl, -⟩
  · exact .inl ⟨b, mem_cons_self, hb, rfl⟩
  · exact .inr mem_cons_self

/-- A round that takes a proof leaves the rest as it has to be. -/
theorem Unrepeated.of_nextArrival (hClear : Unrepeated next new stored) (ha : a.blobType ≠ .batch)
    (hFloor : ∀ b ∈ new, next ≤ b.number) :
    Unrepeated (next + 1) new' stored' ∧ (∀ b ∈ new', next + 1 ≤ b.number) ∧ ∀ e ∈ stored', e.1 ≠ next := by
  have hHere : FollowsProofs next new stored (next + 1) := by
    refine ⟨by omega, fun j hj hLe => ?_⟩
    obtain rfl : j = next := by omega
    have hAvailable := available_of_nextArrival h
    rwa [blobType_eq_proof ha] at hAvailable
  obtain ⟨hNew', hStored'⟩ := above_of_nextArrival h hFloor (hClear.once next le_rfl hHere)
  refine ⟨⟨?_, fun k hk hFollows => ?_, fun e he => ?_⟩, hNew', hStored'⟩
  · have hLen := nextArrival_length h
    have hRoom := hClear.room
    omega
  · exact (held_le_of_nextArrival h k).trans (hClear.once k (by omega) (hFollows.of_nextArrival h ha))
  · have hMem : e ∈ stored := by
      rcases nextArrival_eq_some h with ⟨-, -, -, rfl, -⟩ | ⟨t, -, -, rfl, -⟩
      · exact he
      · exact mem_cons_of_mem _ he
    have hLe := hClear.upcoming e hMem
    have hNe := hStored' e he
    omega

end arrival

end PreferredStore
end SovereignSdk
