import SovereignSdk.BlobStorage.Preferred

/-! The runs found by `find_next_run_of_blobs` and the blobs collected for them. -/
namespace SovereignSdk.PreferredStore
open List Option

variable {S : Spec}

variable {new' : List (PreferredBlobDataWithId S)} {stored' : List (Nat × BlobType)} {a : BlobArrival S}

/-- One round takes either the first new blob or the first stored entry. -/
theorem nextArrival_eq_some {next new} {stored : List (Nat × BlobType)}
    (h : nextArrival next new stored = some (a, new', stored')) :
    (∃ b, a = .new b ∧ new = b :: new' ∧ stored' = stored ∧ b.number = next) ∨
      (∃ t, a = .stored next t ∧ new' = new ∧ stored = (next, t) :: stored' ∧ ∀ b ∈ new.head?, b.number ≠ next) := by
  unfold nextArrival at h
  split at h
  · rename_i blob hNew
    rw [filter_eq_some_iff] at hNew
    obtain ⟨hHead, hNum⟩ := hNew
    cases new with
    | nil => simp at hHead
    | cons b rest =>
      obtain rfl : b = blob := by simpa using hHead
      obtain ⟨rfl, rfl, rfl⟩ := h
      exact .inl ⟨b, rfl, rfl, rfl, by simpa using hNum⟩
  · rename_i entry hNew hStored
    rw [filter_eq_some_iff] at hStored
    obtain ⟨hHead, hNum⟩ := hStored
    cases stored with
    | nil => simp at hHead
    | cons e rest =>
      obtain rfl : e = entry := by simpa using hHead
      have hNum : e.1 = next := by simpa using hNum
      simp only [tail_cons] at h
      obtain ⟨rfl, rfl, rfl⟩ := h
      refine .inr ⟨e.2, by rw [hNum], rfl, by rw [← hNum], ?_⟩
      intro b hb
      have := filter_eq_none_iff.mp hNew b hb
      simpa using this
  · cases h

/-- The runs of the loop, without a bound on the number of rounds. -/
inductive Runs : Nat → List (PreferredBlobDataWithId S) → List (Nat × BlobType) → Run S → Prop where
  | stuck {next : Nat} {new : List (PreferredBlobDataWithId S)} {stored : List (Nat × BlobType)}
      (h : nextArrival next new stored = none) : Runs next new stored ⟨[], new, none⟩
  | batch {next : Nat} {new new' : List (PreferredBlobDataWithId S)}
      {stored stored' : List (Nat × BlobType)} {a : BlobArrival S}
      (h : nextArrival next new stored = some (a, new', stored')) (hBatch : a.blobType = .batch) :
      Runs next new stored ⟨[a], new', some (nextU64 next)⟩
  | proof {next : Nat} {new new' : List (PreferredBlobDataWithId S)}
      {stored stored' : List (Nat × BlobType)} {a : BlobArrival S} {run : Run S}
      (h : nextArrival next new stored = some (a, new', stored')) (hProof : a.blobType ≠ .batch)
      (tail : Runs (nextU64 next) new' stored' run) :
      Runs next new stored { run with arrivals := a :: run.arrivals }

theorem nextArrival_length {next new} {stored : List (Nat × BlobType)}
    (h : nextArrival next new stored = some (a, new', stored')) :
    new.length + stored.length = new'.length + stored'.length + 1 := by
  rcases nextArrival_eq_some h with ⟨b, -, rfl, rfl, -⟩ | ⟨t, -, rfl, rfl, -⟩
  · simp only [length_cons]
    omega
  · simp only [length_cons]
    omega

/-- The bound on the rounds is never the reason to stop. -/
theorem runs_nextRun {rounds next : Nat} {new : List (PreferredBlobDataWithId S)}
    {stored : List (Nat × BlobType)} (h : new.length + stored.length < rounds) :
    Runs next new stored (nextRun rounds next new stored) := by
  induction rounds generalizing next new stored with
  | zero => omega
  | succ rounds ih =>
    unfold nextRun
    split
    · exact .stuck ‹_›
    · rename_i a new' stored' hArr
      have hLen := nextArrival_length hArr
      split
      · exact .batch hArr ‹_›
      · exact .proof hArr ‹_› (ih (by omega))

theorem runs_findNextRunOfBlobs (tracker : SequencerNumberTracker) (blobs : List (PreferredBlobDataWithId S)) :
    Runs tracker.nextSequenceNumber (inOrder tracker.nextSequenceNumber blobs)
      tracker.savedSequencerNumbers.entries (findNextRunOfBlobs tracker blobs) :=
  runs_nextRun (Nat.lt_succ_self _)

theorem nextU64_of_lt {n} (h : n < u64Max) : nextU64 n = n + 1 :=
  Nat.mod_eq_of_lt (by unfold u64Max at h; omega)

theorem blobType_eq_proof {t : BlobType} (h : t ≠ .batch) : t = .proof := by
  cases t with
  | batch => exact absurd rfl h
  | proof => rfl

theorem nextArrival_number {next new} {stored : List (Nat × BlobType)}
    (h : nextArrival next new stored = some (a, new', stored')) : a.number = next := by
  rcases nextArrival_eq_some h with ⟨b, rfl, -, -, hb⟩ | ⟨t, rfl, -, -, -⟩
  · exact hb
  · rfl

section runs
variable {next : Nat} {new : List (PreferredBlobDataWithId S)} {stored : List (Nat × BlobType)}
  {run : Run S}

section
variable (h : Runs next new stored run)
include h

/-- The numbers of a run follow each other, as long as the successor does not wrap. -/
theorem Runs.numbers (hRoom : next + new.length + stored.length ≤ u64Max) :
    run.arrivals.map (·.number) = List.range' next run.arrivals.length := by
  induction h with
  | stuck _ => rfl
  | batch hArr _ => simp [nextArrival_number hArr]
  | proof hArr _ _ ih =>
    have hLen := nextArrival_length hArr
    rw [nextU64_of_lt (by omega)] at ih
    simp only [map_cons, length_cons, range'_succ, nextArrival_number hArr, ih (by omega)]

/-- A run has proofs only, or it ends with its only batch and the next number is the one after it. -/
theorem Runs.ends (hRoom : next + new.length + stored.length ≤ u64Max) :
    (run.nextNumber = none ∧ ∀ a ∈ run.arrivals, a.blobType = .proof) ∨
      (run.nextNumber = some (next + run.arrivals.length) ∧
        ∃ init last, run.arrivals = init ++ [last] ∧ last.blobType = .batch ∧ ∀ a ∈ init, a.blobType = .proof) := by
  induction h with
  | stuck _ => exact .inl ⟨rfl, by simp⟩
  | @batch next _ _ _ _ a hArr hBatch =>
    have hLen := nextArrival_length hArr
    exact .inr ⟨by simp [nextU64_of_lt (show next < u64Max by omega)], [], a, rfl, hBatch, by simp⟩
  | @proof next _ _ _ _ a run hArr hProof _ ih =>
    have hLen := nextArrival_length hArr
    rw [nextU64_of_lt (by omega)] at ih
    have hFirst := blobType_eq_proof hProof
    rcases ih (by omega) with ⟨hNone, hAll⟩ | ⟨hSome, init, last, hEq, hLast, hInit⟩
    · exact .inl ⟨hNone, forall_mem_cons.mpr ⟨hFirst, hAll⟩⟩
    · refine .inr ⟨?_, a :: init, last, by simp [hEq], hLast,
        forall_mem_cons.mpr ⟨hFirst, hInit⟩⟩
      simp only [hSome, length_cons, some.injEq]
      omega

theorem Runs.new_eq : new = newBlobs run.arrivals ++ run.rest := by
  induction h with
  | stuck _ => rfl
  | batch hArr _ =>
    rcases nextArrival_eq_some hArr with ⟨b, rfl, rfl, -, -⟩ | ⟨t, rfl, rfl, -, -⟩
    · rfl
    · rfl
  | proof hArr _ _ ih =>
    rcases nextArrival_eq_some hArr with ⟨b, rfl, rfl, -, -⟩ | ⟨t, rfl, rfl, -, -⟩
    · simpa [newBlobs] using ih
    · exact ih

theorem Runs.stored_mem {k} {t : BlobType} (hMem : .stored k t ∈ run.arrivals) : (k, t) ∈ stored := by
  induction h with
  | stuck _ => simp at hMem
  | batch hArr _ =>
    rcases nextArrival_eq_some hArr with ⟨b, rfl, -, -, -⟩ | ⟨t', rfl, -, rfl, -⟩
    · simp at hMem
    · simp_all
  | proof hArr _ _ ih =>
    rcases nextArrival_eq_some hArr with ⟨b, rfl, -, rfl, -⟩ | ⟨t', rfl, -, rfl, -⟩
    · exact ih (by simpa using hMem)
    · rcases mem_cons.mp hMem with _ | hMem
      · simp_all
      · exact mem_cons_of_mem _ (ih hMem)

theorem Runs.le_number (hRoom : next + new.length + stored.length ≤ u64Max) {a}
    (ha : a ∈ run.arrivals) : next ≤ a.number ∧ a.number < next + run.arrivals.length := by
  have hMem := mem_map_of_mem (f := (·.number)) ha
  rw [h.numbers hRoom, mem_range'_1] at hMem
  exact hMem

theorem Runs.rest_subset : run.rest ⊆ new := by
  rw [h.new_eq]
  exact subset_append_right _ _

end

end runs

section repeated
variable {next : Nat} {new : List (PreferredBlobDataWithId S)} {stored : List (Nat × BlobType)}
  {run : Run S}

def copies (k : Nat) (blobs : List (PreferredBlobDataWithId S)) : Nat :=
  blobs.countP fun b => b.number = k

theorem copies_cons (k : Nat) (b : PreferredBlobDataWithId S) (blobs : List (PreferredBlobDataWithId S)) :
    copies k (b :: blobs) = copies k blobs + if b.number = k then 1 else 0 := by
  simp [copies, countP_cons]

variable {k : Nat} {new' : List (PreferredBlobDataWithId S)} {stored' : List (Nat × BlobType)} {a : BlobArrival S}

theorem copies_pos {blobs : List (PreferredBlobDataWithId S)} : 0 < copies k blobs ↔ ∃ b ∈ blobs, b.number = k := by
  simp [copies]

/-- If the first blob in line is not the expected one, none of the others is. -/
theorem above_of_head (hSorted : new.Pairwise fun a b => a.number ≤ b.number)
    (hFloor : ∀ b ∈ new, next ≤ b.number) (hHead : ∀ b ∈ new.head?, b.number ≠ next) :
    ∀ b ∈ new, next + 1 ≤ b.number := by
  cases new with
  | nil => simp
  | cons c rest =>
    have hc : c.number ≠ next := hHead c rfl
    have hcFloor := hFloor c mem_cons_self
    intro b hb
    rcases mem_cons.mp hb with rfl | hb
    · omega
    · have := (pairwise_cons.mp hSorted).1 b hb
      omega

theorem above_of_cons {b : PreferredBlobDataWithId S} (hFloor : ∀ c ∈ b :: new, b.number ≤ c.number) :
    (∀ c ∈ new, b.number + 1 ≤ c.number) ∨ 2 ≤ copies b.number (b :: new) := by
  by_cases hRepeat : ∃ c ∈ new, c.number = b.number
  · have := copies_pos.mpr hRepeat
    rw [copies_cons, if_pos rfl]
    exact .inr (by omega)
  · refine .inl fun c hc => ?_
    have hLe := hFloor c (mem_cons_of_mem _ hc)
    have hNe : c.number ≠ b.number := fun h => hRepeat ⟨c, hc, h⟩
    omega

/-- A stored entry is used while a new blob of its number is still in line only
behind a number that arrived twice. -/
theorem Runs.overtaken (h : Runs next new stored run) (hRoom : next + new.length + stored.length ≤ u64Max)
    (hSorted : new.Pairwise fun a b => a.number ≤ b.number) (hFloor : ∀ b ∈ new, next ≤ b.number) {t : BlobType}
    {b} (hMem : .stored k t ∈ run.arrivals) (hb : b ∈ run.rest)
    (hNum : b.number = k) : ∃ j, next ≤ j ∧ j < k ∧ 2 ≤ copies j new := by
  induction h with
  | stuck _ => simp at hMem
  | @batch next _ _ _ _ _ hArr _ =>
    rcases nextArrival_eq_some hArr with ⟨c, rfl, -, -, -⟩ | ⟨t', rfl, rfl, -, hHead⟩
    · simp at hMem
    · have hAbove := above_of_head hSorted hFloor hHead b hb
      have hk : k = next := by cases mem_singleton.mp hMem; rfl
      omega
  | @proof next new new' stored stored' a run hArr _ tail ih =>
    have hLen := nextArrival_length hArr
    rw [nextU64_of_lt (by omega)] at ih tail
    rcases nextArrival_eq_some hArr with ⟨c, rfl, rfl, rfl, rfl⟩ | ⟨t', rfl, rfl, rfl, hHead⟩
    · have hMem : .stored k t ∈ run.arrivals := by simpa using hMem
      have hLater := (tail.le_number (by omega) hMem).1
      rcases above_of_cons hFloor with hAbove | hTwice
      · obtain ⟨j, hj, hjk, hCopies⟩ :=
          ih (by omega) (pairwise_cons.mp hSorted).2 hAbove hMem hb
        exact ⟨j, by omega, hjk, hCopies.trans (by rw [copies_cons]; omega)⟩
      · exact ⟨c.number, le_rfl, hLater, hTwice⟩
    · have hAbove := above_of_head hSorted hFloor hHead
      rcases mem_cons.mp hMem with hEq | hMem
      · have hk : k = next := by cases hEq; rfl
        have := hAbove b (tail.rest_subset hb)
        omega
      · obtain ⟨j, hj, hjk, hCopies⟩ := ih (by omega) hSorted hAbove hMem hb
        exact ⟨j, by omega, hjk, hCopies⟩

/-- How often a number is held, among the new blobs and among the saved entries. -/
def held (k : Nat) (new : List (PreferredBlobDataWithId S)) (stored : List (Nat × BlobType)) : Nat :=
  copies k new + stored.countP fun e => e.1 = k

/-- Every number from `next` up to `k` is that of a proof, so that a run can reach `k`. -/
def FollowsProofs (next : Nat) (new : List (PreferredBlobDataWithId S)) (stored : List (Nat × BlobType))
    (k : Nat) : Prop :=
  next ≤ k ∧ ∀ j < k, next ≤ j → (∃ b ∈ new, b.number = j ∧ b.blobType = .proof) ∨ (j, .proof) ∈ stored

instance (k : Nat) : Decidable (FollowsProofs next new stored k) :=
  inferInstanceAs (Decidable (_ ∧ _))

theorem held_cons_new (k : Nat) (b : PreferredBlobDataWithId S) :
    held k (b :: new) stored = held k new stored + if b.number = k then 1 else 0 := by
  unfold held
  rw [copies_cons]
  omega

theorem held_cons_stored (k : Nat) (e : Nat × BlobType) :
    held k new (e :: stored) = held k new stored + if e.1 = k then 1 else 0 := by
  simp [held, countP_cons, Nat.add_assoc]

theorem not_mem_of_held (h : held k new stored = 0) : (∀ b ∈ new, b.number ≠ k) ∧ ∀ e ∈ stored, e.1 ≠ k := by
  simpa [held, copies] using h

section
variable (h : nextArrival next new stored = some (a, new', stored'))
include h

theorem FollowsProofs.of_nextArrival
    (ha : a.blobType ≠ .batch) (hk : FollowsProofs (next + 1) new' stored' k) : FollowsProofs next new stored k := by
  obtain ⟨_, hProofs⟩ := hk
  have hType := blobType_eq_proof ha
  refine ⟨by omega, fun j hjk hj => ?_⟩
  rcases nextArrival_eq_some h with ⟨b, rfl, rfl, rfl, hb⟩ | ⟨t, rfl, rfl, rfl, -⟩
  · rcases Nat.eq_or_lt_of_le hj with rfl | hj
    · exact .inl ⟨b, mem_cons_self, hb, hType⟩
    · exact (hProofs j hjk hj).imp_left fun ⟨c, hc, h⟩ => ⟨c, mem_cons_of_mem _ hc, h⟩
  · rcases Nat.eq_or_lt_of_le hj with rfl | hj
    · obtain rfl : t = .proof := hType
      exact .inr mem_cons_self
    · exact (hProofs j hjk hj).imp_right (mem_cons_of_mem _)

theorem held_le_of_nextArrival (k : Nat) : held k new' stored' ≤ held k new stored := by
  rcases nextArrival_eq_some h with ⟨b, -, rfl, rfl, -⟩ | ⟨t, -, rfl, rfl, -⟩
  · rw [held_cons_new]
    omega
  · rw [held_cons_stored]
    omega

theorem above_of_nextArrival (hFloor : ∀ b ∈ new, next ≤ b.number) (hOnce : held next new stored ≤ 1) :
    (∀ b ∈ new', next + 1 ≤ b.number) ∧ ∀ e ∈ stored', e.1 ≠ next := by
  have hRest : held next new' stored' = 0 ∧ new' ⊆ new := by
    rcases nextArrival_eq_some h with ⟨b, -, rfl, rfl, hb⟩ | ⟨t, -, rfl, rfl, -⟩
    · rw [held_cons_new, if_pos hb] at hOnce
      exact ⟨by omega, subset_cons_self _ _⟩
    · rw [held_cons_stored, if_pos rfl] at hOnce
      exact ⟨by omega, List.Subset.refl _⟩
  obtain ⟨hNew, hStored⟩ := not_mem_of_held hRest.1
  refine ⟨fun b hb => ?_, hStored⟩
  have hLe := hFloor b (hRest.2 hb)
  have hNe := hNew b hb
  omega

end

/-- If no number that the run reaches is held twice, then no new blob of the run
replaces a saved one and everything not reached lies above the run. -/
theorem Runs.once (h : Runs next new stored run)
    (hRoom : next + new.length + stored.length ≤ u64Max) (hFloor : ∀ b ∈ new, next ≤ b.number)
    (hOnce : ∀ k, FollowsProofs next new stored k → held k new stored ≤ 1) :
    (∀ b, .new b ∈ run.arrivals → ∀ e ∈ stored, e.1 ≠ b.number) ∧
      ∀ b ∈ run.rest, next + run.arrivals.length ≤ b.number := by
  induction h with
  | stuck _ => exact ⟨by simp, by simpa using hFloor⟩
  | @batch next new new' stored stored' a hArr _ =>
    have hHere := hOnce next ⟨le_rfl, fun j hjk hj => by omega⟩
    obtain ⟨hAbove, hLeft⟩ := above_of_nextArrival hArr hFloor hHere
    refine ⟨fun b hb e he => ?_, hAbove⟩
    rcases nextArrival_eq_some hArr with ⟨c, rfl, rfl, rfl, hc⟩ | ⟨t, rfl, -, -, -⟩
    · cases mem_singleton.mp hb
      rw [hc]
      exact hLeft e he
    · simp at hb
  | @proof next new new' stored stored' a run hArr hProof tail ih =>
    have hLen := nextArrival_length hArr
    rw [nextU64_of_lt (by omega)] at ih tail
    have hHere := hOnce next ⟨le_rfl, fun j hjk hj => by omega⟩
    obtain ⟨hAbove, hLeft⟩ := above_of_nextArrival hArr hFloor hHere
    obtain ⟨hNew, hRest⟩ := ih (by omega) hAbove fun k hk =>
      (held_le_of_nextArrival hArr k).trans (hOnce k (hk.of_nextArrival hArr hProof))
    refine ⟨fun b hb e he => ?_, fun b hb => ?_⟩
    · rcases nextArrival_eq_some hArr with ⟨c, rfl, rfl, rfl, hc⟩ | ⟨t, rfl, rfl, rfl, -⟩
      · rcases mem_cons.mp hb with hEq | hb
        · cases hEq
          rw [hc]
          exact hLeft e he
        · exact hNew b hb e he
      · have hb : .new b ∈ run.arrivals := by simpa using hb
        rcases mem_cons.mp he with rfl | he
        · have := (tail.le_number (by omega) hb).1
          exact Nat.ne_of_lt this
        · exact hNew b hb e he
    · have := hRest b hb
      simp only [length_cons]
      omega

end repeated

end SovereignSdk.PreferredStore
