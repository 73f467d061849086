import SovereignSdk.BlobStorage.PreferredRun

/-! The blobs of the preferred sequencer are handed out in the order of their
sequence numbers, and the saved ones agree with their index. -/
namespace SovereignSdk.PreferredStore
open Outcome OrderedMap List Function PreferredStore Nat

variable {S : Spec}

section inOrder
variable {next : Nat} {blobs : List (PreferredBlobDataWithId S)}

theorem inOrder_pairwise : (inOrder next blobs).Pairwise fun a b => a.number ≤ b.number := by
  exact (pairwise_insertionSort _ blobs).filter _

theorem mem_inOrder {b} : b ∈ inOrder next blobs ↔ b ∈ blobs ∧ next ≤ b.number := by
  simp [inOrder]

theorem inOrder_length_le : (inOrder next blobs).length ≤ blobs.length :=
  (length_filter_le _ _).trans (length_insertionSort _ blobs).le

theorem copies_inOrder_le (k : Nat) : copies k (inOrder next blobs) ≤ copies k blobs :=
  filter_sublist.countP_le.trans ((perm_insertionSort _ blobs).countP_eq _).le

end inOrder

/-- Every saved number from `floor` on has its blob in the store. -/
def Indexed (floor : Nat) (saved : OrderedMap Nat BlobType)
    (deferred : Nat → Option (PreferredBlobDataWithId S)) : Prop :=
  ∀ e ∈ saved.entries, floor ≤ e.1 → ∃ b, deferred e.1 = some b ∧ b.number = e.1 ∧ b.blobType = e.2

/-- Every blob in the store from `floor` on is saved in the index. -/
def Listed (floor : Nat) (saved : OrderedMap Nat BlobType)
    (deferred : Nat → Option (PreferredBlobDataWithId S)) : Prop :=
  ∀ k b, floor ≤ k → deferred k = some b → b.number = k ∧ (k, b.blobType) ∈ saved.entries

section saveBlobs
variable {floor : Nat} {saved : OrderedMap Nat BlobType}
  {deferred : Nat → Option (PreferredBlobDataWithId S)} {blobs : List (PreferredBlobDataWithId S)}

theorem saveBlobs_append (more : List (PreferredBlobDataWithId S)) :
    saveBlobs (saveBlobs saved deferred blobs).1 (saveBlobs saved deferred blobs).2 more =
      saveBlobs saved deferred (blobs ++ more) := by
  induction blobs generalizing saved deferred with
  | nil => rfl
  | cons b rest ih => exact ih

theorem Indexed.insert (h : Indexed floor saved deferred) (b : PreferredBlobDataWithId S) :
    Indexed floor (saved.insert b.number b.blobType) (Function.update deferred b.number (some b)) := by
  intro e he hFloor
  rcases mem_insert.mp he with rfl | ⟨hNe, he⟩
  · exact ⟨b, by simp, rfl, rfl⟩
  · rw [update_of_ne hNe]
    exact h e he hFloor

theorem Listed.insert (h : Listed floor saved deferred) (b : PreferredBlobDataWithId S) :
    Listed floor (saved.insert b.number b.blobType) (Function.update deferred b.number (some b)) := by
  intro k c hFloor hc
  by_cases hk : k = b.number
  · subst hk
    obtain rfl : b = c := by simpa using hc
    exact ⟨rfl, mem_insert.mpr (.inl rfl)⟩
  · rw [update_of_ne hk] at hc
    obtain ⟨hNum, hMem⟩ := h k c hFloor hc
    exact ⟨hNum, mem_insert.mpr (.inr ⟨hk, hMem⟩)⟩

theorem Indexed.saveBlobs (h : Indexed floor saved deferred) (blobs : List (PreferredBlobDataWithId S)) :
    Indexed floor (saveBlobs saved deferred blobs).1 (saveBlobs saved deferred blobs).2 := by
  induction blobs generalizing saved deferred with
  | nil => exact h
  | cons b rest ih => exact ih (h.insert b)

theorem Listed.saveBlobs (h : Listed floor saved deferred) (blobs : List (PreferredBlobDataWithId S)) :
    Listed floor (saveBlobs saved deferred blobs).1 (saveBlobs saved deferred blobs).2 := by
  induction blobs generalizing saved deferred with
  | nil => exact h
  | cons b rest ih => exact ih (h.insert b)

theorem mem_saveBlobs {e : Nat × BlobType} (h : e ∈ (saveBlobs saved deferred blobs).1.entries) :
    e ∈ saved.entries ∨ ∃ b ∈ blobs, b.number = e.1 := by
  induction blobs generalizing saved deferred with
  | nil => exact .inl h
  | cons b rest ih =>
    rcases ih h with h | ⟨c, hc, hNum⟩
    · rcases mem_insert.mp h with rfl | ⟨-, h⟩
      · exact .inr ⟨b, mem_cons_self, rfl⟩
      · exact .inl h
    · exact .inr ⟨c, mem_cons_of_mem _ hc, hNum⟩

theorem saveBlobs_deferred (k : Nat) :
    (saveBlobs saved deferred blobs).2 k = deferred k ∨
      ∃ b ∈ blobs, b.number = k ∧ (saveBlobs saved deferred blobs).2 k = some b := by
  induction blobs generalizing saved deferred with
  | nil => exact .inl rfl
  | cons b rest ih =>
    rcases @ih (saved.insert b.number b.blobType) (update deferred b.number (some b)) with h | ⟨c, hc, hNum, h⟩
    · by_cases hk : k = b.number
      · subst hk
        exact .inr ⟨b, mem_cons_self, rfl, h.trans (by simp)⟩
      · exact .inl (h.trans (update_of_ne hk _ _))
    · exact .inr ⟨c, mem_cons_of_mem _ hc, hNum, h⟩

end saveBlobs

theorem collectRun_ok {deferred : Nat → Option (PreferredBlobDataWithId S)}
    {arrivals : List (BlobArrival S)} (hNodup : (arrivals.map (·.number)).Nodup)
    (hKept : ∀ k t, .stored k t ∈ arrivals → ∃ b, deferred k = some b ∧ b.number = k ∧ b.blobType = t) :
    ∃ deferred' output, collectRun deferred arrivals = .ok (deferred', output) ∧
      output.map (·.number) = arrivals.map (·.number) ∧
      output.map (·.blobType) = arrivals.map (·.blobType) ∧
      (∀ k t, .stored k t ∈ arrivals → deferred' k = none) ∧
      ∀ k, (∀ t, .stored k t ∉ arrivals) → deferred' k = deferred k := by
  induction arrivals generalizing deferred with
  | nil => exact ⟨deferred, [], rfl, rfl, rfl, by simp, by simp⟩
  | cons a rest ih =>
    obtain ⟨hFresh, hDistinct⟩ := nodup_cons.mp hNodup
    cases a with
    | new b =>
      obtain ⟨deferred', output, hRest, hNumbers, hTypes, hGone, hSame⟩ :=
        ih hDistinct fun k t h => hKept k t (mem_cons_of_mem _ h)
      refine ⟨deferred', b :: output, by simp only [collectRun, hRest]; rfl, ?_, ?_, ?_, ?_⟩
      · simp only [map_cons, hNumbers]; rfl
      · simp only [map_cons, hTypes]; rfl
      · exact fun k t h => hGone k t (by simpa using h)
      · exact fun k h => hSame k fun t hMem => h t (mem_cons_of_mem _ hMem)
    | stored n s =>
      obtain ⟨b, hb, hNum, hType⟩ := hKept n s mem_cons_self
      have hOther : ∀ k t, .stored k t ∈ rest → k ≠ n := by
        rintro k t h rfl
        exact hFresh (mem_map_of_mem (f := (·.number)) h)
      obtain ⟨deferred', output, hRest, hNumbers, hTypes, hGone, hSame⟩ :=
        @ih (update deferred n none) hDistinct fun k t h => by
          rw [update_of_ne (hOther k t h)]
          exact hKept k t (mem_cons_of_mem _ h)
      refine ⟨deferred', b :: output, by simp only [collectRun, hb, hRest]; rfl, ?_, ?_, ?_, ?_⟩
      · simp only [map_cons, hNumbers, hNum]; rfl
      · simp only [map_cons, hTypes, hType]; rfl
      · intro k t h
        rcases mem_cons.mp h with hEq | h
        · cases hEq
          by_cases hAgain : ∃ t, .stored n t ∈ rest
          · exact hGone n _ hAgain.choose_spec
          · rw [hSame n fun t h => hAgain ⟨t, h⟩, update_self]
        · exact hGone k t h
      · intro k h
        have hk : k ≠ n := by
          rintro rfl
          exact h s mem_cons_self
        rw [hSame k fun t hMem => h t (mem_cons_of_mem _ hMem), update_of_ne hk]

/-- The blobs handed out in one slot: consecutive numbers from `next` up to
`next'`, and nothing or a run that ends with its only batch. -/
structure HandsOut (next : Nat) (output : List (PreferredBlobDataWithId S)) (next' : Nat) : Prop where
  numbers : output.map (·.number) = List.range' next output.length
  next_eq : next' = next + output.length
  ends : output = [] ∨ ∃ init last, output = init ++ [last] ∧ last.blobType = .batch ∧
    ∀ b ∈ init, b.blobType = .proof

variable {output : List (PreferredBlobDataWithId S)}

theorem consecutive_of_range' {next} (h : output.map (·.number) = List.range' next output.length)
    (hRoom : next + output.length ≤ u64Max + 1) : consecutive output = true := by
  induction output generalizing next with
  | nil => rfl
  | cons a rest ih =>
    cases rest with
    | nil => rfl
    | cons b rest =>
      simp only [map_cons, length_cons, range'_succ, cons.injEq] at h
      simp only [length_cons] at hRoom
      have hTail : consecutive (b :: rest) = true :=
        @ih (next + 1) (by simp [range'_succ, h.2.1, h.2.2]) (by simp; omega)
      simp only [consecutive, hTail, Bool.and_true, decide_eq_true_eq, h.1, h.2.1]
      exact nextU64_of_lt (by omega)

theorem batchCount_le_one (h : output = [] ∨ ∃ init last, output = init ++ [last] ∧ last.blobType = .batch ∧
      ∀ b ∈ init, b.blobType = .proof) : batchCount output ≤ 1 := by
  rcases h with rfl | ⟨init, last, rfl, hLast, hInit⟩
  · simp [batchCount]
  · have hNone : init.filter (·.blobType = .batch) = [] := by
      simp only [filter_eq_nil_iff]
      intro b hb
      simp [hInit b hb]
    simp [batchCount, hNone, hLast]

section pick
variable {p : PreferredStore S} {blobs : List (PreferredBlobDataWithId S)}

/-- The index and the store after the blobs that the run does not reach are saved. -/
def saveRest (p : PreferredStore S) (run : Run S) (next : Nat) :
    OrderedMap Nat BlobType × (Nat → Option (PreferredBlobDataWithId S)) :=
  saveBlobs (p.tracker.savedSequencerNumbers.splitOff next) p.deferredPreferredSequencerBlobs run.rest

def Room (p : PreferredStore S) (blobs : List (PreferredBlobDataWithId S)) : Prop :=
  p.tracker.nextSequenceNumber + blobs.length + p.tracker.savedSequencerNumbers.entries.length ≤ u64Max

instance : Decidable (Room p blobs) := inferInstanceAs (Decidable (_ ≤ _))

theorem Room.inOrder (h : Room p blobs) :
    p.tracker.nextSequenceNumber + (inOrder p.tracker.nextSequenceNumber blobs).length +
      p.tracker.savedSequencerNumbers.entries.length ≤ u64Max := by
  have := @inOrder_length_le S p.tracker.nextSequenceNumber blobs
  unfold Room at h
  omega

theorem Runs.length_le {next : Nat} {new}
    {stored : List (Nat × BlobType)} {run : Run S} (h : Runs next new stored run) :
    run.arrivals.length ≤ new.length + stored.length := by
  induction h with
  | stuck _ => simp
  | batch hArr _ =>
    have := nextArrival_length hArr
    simp only [length_cons, length_nil]
    omega
  | proof hArr _ _ ih =>
    have := nextArrival_length hArr
    simp only [length_cons]
    omega

variable {run : Run S} {next' k : Nat} (hRun : findNextRunOfBlobs p.tracker blobs = run)

include hRun in
theorem pick_none (hRoom : Room p blobs) (hNone : run.nextNumber = none) :
    pickPreferredBlobsToProcess p blobs =
      let (saved, deferred) :=
        saveBlobs (p.tracker.savedSequencerNumbers.splitOff p.tracker.nextSequenceNumber)
          p.deferredPreferredSequencerBlobs (run.rest ++ newBlobs run.arrivals)
      .ok (⟨some ⟨p.tracker.nextSequenceNumber, saved⟩, deferred⟩, []) := by
  have hRuns := hRun ▸ runs_findNextRunOfBlobs p.tracker blobs
  rcases hRuns.ends hRoom.inOrder with ⟨-, hAll⟩ | ⟨hSome, -⟩
  · have hLast : ¬ run.arrivals.getLast?.any (·.blobType = .batch) := by
      simp only [Option.any_eq_true, not_exists, not_and]
      intro a ha
      simp [hAll a (mem_of_getLast? ha)]
    simp only [pickPreferredBlobsToProcess, getBlobsToProcessFromRun, hRun, hNone, if_neg hLast, saveBlobs_append]
    rfl
  · rw [hNone] at hSome
    cases hSome

include hRun in
theorem pick_some (hRoom : Room p blobs) (hSome : run.nextNumber = some next')
    (hKept : ∀ k t, .stored k t ∈ run.arrivals →
      ∃ b, (saveRest p run next').2 k = some b ∧ b.number = k ∧ b.blobType = t) :
    ∃ deferred output, pickPreferredBlobsToProcess p blobs =
        .ok (⟨some ⟨next', (saveRest p run next').1⟩, deferred⟩, output) ∧
      output.length = run.arrivals.length ∧
      HandsOut p.tracker.nextSequenceNumber output next' ∧ output ≠ [] ∧
      (∀ k t, .stored k t ∈ run.arrivals → deferred k = none) ∧
      ∀ k, (∀ t, .stored k t ∉ run.arrivals) →
        deferred k = (saveRest p run next').2 k := by
  have hRuns := hRun ▸ runs_findNextRunOfBlobs p.tracker blobs
  have hNumbers := hRuns.numbers hRoom.inOrder
  have hLen := hRuns.length_le
  have hFits := hRoom.inOrder
  rcases hRuns.ends hRoom.inOrder with ⟨hNone, -⟩ | ⟨hNext, init, last, hEq, hLast, hInit⟩
  · rw [hSome] at hNone
    cases hNone
  obtain rfl : next' = p.tracker.nextSequenceNumber + run.arrivals.length := by
    simpa [hSome] using hNext
  obtain ⟨deferred, output, hCollect, hOutNumbers, hOutTypes, hGone, hSame⟩ :=
    collectRun_ok (hNumbers ▸ nodup_range') hKept
  have hOutLen : output.length = run.arrivals.length := by
    simpa using congrArg length hOutNumbers
  have hEnds : ∃ init last, output = init ++ [last] ∧ last.blobType = .batch ∧
      ∀ b ∈ init, b.blobType = .proof := by
    rw [hEq, map_append, map_eq_append_iff] at hOutTypes
    obtain ⟨init', last', rfl, hInit', hLast'⟩ := hOutTypes
    obtain ⟨b, rfl, hb⟩ := map_eq_singleton_iff.mp hLast'
    refine ⟨init', b, rfl, hb.trans hLast, fun c hc => ?_⟩
    have hMem : c.blobType ∈ init.map (·.blobType) := hInit' ▸ mem_map_of_mem hc
    obtain ⟨a, ha, hType⟩ := mem_map.mp hMem
    exact hType ▸ hInit a ha
  have hHands : HandsOut p.tracker.nextSequenceNumber output
      (p.tracker.nextSequenceNumber + run.arrivals.length) :=
    ⟨by rw [hOutNumbers, hNumbers, hOutLen], by rw [hOutLen], .inr hEnds⟩
  refine ⟨deferred, output, ?_, hOutLen, hHands, ?_, hGone, hSame⟩
  · have hBatch : run.arrivals.getLast?.any (·.blobType = .batch) := by simp [hEq, hLast]
    have hConsecutive := consecutive_of_range' hHands.numbers (by omega)
    have hCount := batchCount_le_one hHands.ends
    simp only [pickPreferredBlobsToProcess, getBlobsToProcessFromRun, hRun, hSome, Option.getD_some, if_pos hBatch]
    unfold saveRest at hCollect
    simp only [hCollect, bind, Except.bind, pure, Except.pure, hConsecutive, hCount]
    rfl
  · obtain ⟨init, last, rfl, -⟩ := hEnds
    simp

theorem Indexed.saveRest {next} (run : Run S) (hNext : p.tracker.nextSequenceNumber ≤ next)
    (h : Indexed p.tracker.nextSequenceNumber p.tracker.savedSequencerNumbers
      p.deferredPreferredSequencerBlobs) : Indexed next (saveRest p run next).1 (saveRest p run next).2 := by
  apply Indexed.saveBlobs
  intro e he hFloor
  exact h e (mem_splitOff.mp he).1 (hNext.trans hFloor)

/-- Every saved number that is still to come has its blob in the store. -/
def Consistent (p : PreferredStore S) : Prop :=
  Indexed p.tracker.nextSequenceNumber p.tracker.savedSequencerNumbers p.deferredPreferredSequencerBlobs

/-- No blob changes the type of a saved number behind a number that arrives twice. -/
def KeepsTypes (p : PreferredStore S) (blobs : List (PreferredBlobDataWithId S)) : Prop :=
  ∀ b ∈ blobs, ∀ e ∈ p.tracker.savedSequencerNumbers.entries, e.1 = b.number → e.2 ≠ b.blobType →
    ∀ j < b.number, p.tracker.nextSequenceNumber ≤ j → copies j blobs ≤ 1

instance : Decidable (KeepsTypes p blobs) :=
  inferInstanceAs (Decidable (∀ b ∈ blobs, _))

include hRun in
/-- Under `KeepsTypes` a saved blob of the run still has its indexed type when it is collected. -/
theorem Consistent.kept (h : Consistent p) (hRoom : Room p blobs) (hTypes : KeepsTypes p blobs) {t : BlobType}
    (hMem : .stored k t ∈ run.arrivals) :
    ∃ b, (saveRest p run next').2 k = some b ∧
      b.number = k ∧ b.blobType = t := by
  have hRuns := hRun ▸ runs_findNextRunOfBlobs p.tracker blobs
  have hSaved := hRuns.stored_mem hMem
  have hLe := (hRuns.le_number hRoom.inOrder hMem).1
  rcases @saveBlobs_deferred S (p.tracker.savedSequencerNumbers.splitOff next')
    p.deferredPreferredSequencerBlobs run.rest k
    with hSame | ⟨c, hc, hNum, hc'⟩
  · obtain ⟨b, hb, hNum, hType⟩ := h (k, t) hSaved hLe
    exact ⟨b, hSame.trans hb, hNum, hType⟩
  · refine ⟨c, hc', hNum, ?_⟩
    by_contra hType
    obtain ⟨j, hj, hjk, _⟩ := hRuns.overtaken hRoom.inOrder inOrder_pairwise
      (fun b hb => (mem_inOrder.mp hb).2) hMem hc hNum
    have hBlob := (mem_inOrder.mp (hRuns.rest_subset hc)).1
    have hOnce := hTypes c hBlob (k, t) hSaved hNum.symm (Ne.symm hType) j (hNum ▸ hjk) hj
    have := @copies_inOrder_le S p.tracker.nextSequenceNumber blobs j
    omega

/-- One slot hands out the next numbers in order and keeps the index right. -/
theorem Consistent.pick (h : Consistent p) (hRoom : Room p blobs) (hTypes : KeepsTypes p blobs) :
    ∃ p' output, pickPreferredBlobsToProcess p blobs = .ok (p', output) ∧
      HandsOut p.tracker.nextSequenceNumber output p'.tracker.nextSequenceNumber ∧ Consistent p' := by
  have hRuns := runs_findNextRunOfBlobs p.tracker blobs
  cases hNext : (findNextRunOfBlobs p.tracker blobs).nextNumber with
  | none =>
    refine ⟨_, _, pick_none rfl hRoom hNext, ⟨rfl, rfl, .inl rfl⟩, ?_⟩
    apply Indexed.saveBlobs
    exact fun e he => h e (mem_splitOff.mp he).1
  | some next' =>
    obtain ⟨deferred, output, hPick, _, hHands, -, -, hSame⟩ :=
      pick_some rfl hRoom hNext fun k t hMem => h.kept rfl hRoom hTypes hMem
    refine ⟨_, output, hPick, hHands, ?_⟩
    have hLe : p.tracker.nextSequenceNumber ≤ next' := by
      have := hHands.next_eq
      omega
    intro e he hFloor
    obtain ⟨b, hb, hb'⟩ := Indexed.saveRest (findNextRunOfBlobs p.tracker blobs) hLe h e he hFloor
    refine ⟨b, (hSame e.1 fun t hMem => ?_).trans hb, hb'⟩
    have hLt := (hRuns.le_number hRoom.inOrder hMem).2
    have hEnd := hHands.next_eq
    have hFloor : next' ≤ e.1 := hFloor
    simp only [BlobArrival.number] at hLt
    omega

/-- The index and the store hold the same numbers with the same types, all of
them still to come. -/
structure Synced (p : PreferredStore S) : Prop where
  indexed : Indexed 0 p.tracker.savedSequencerNumbers p.deferredPreferredSequencerBlobs
  listed : Listed 0 p.tracker.savedSequencerNumbers p.deferredPreferredSequencerBlobs
  upcoming : ∀ e ∈ p.tracker.savedSequencerNumbers.entries, p.tracker.nextSequenceNumber ≤ e.1

/-- No number that the run of this slot can reach is held twice. -/
def HeldOnce (p : PreferredStore S) (blobs : List (PreferredBlobDataWithId S)) : Prop :=
  ∀ b ∈ blobs, FollowsProofs p.tracker.nextSequenceNumber blobs p.tracker.savedSequencerNumbers.entries b.number →
      held b.number blobs p.tracker.savedSequencerNumbers.entries ≤ 1

instance : Decidable (HeldOnce p blobs) :=
  inferInstanceAs (Decidable (∀ b ∈ blobs, _))

theorem HeldOnce.inOrder (h : HeldOnce p blobs)
    (hk : FollowsProofs p.tracker.nextSequenceNumber (inOrder p.tracker.nextSequenceNumber blobs)
      p.tracker.savedSequencerNumbers.entries k) :
    held k (inOrder p.tracker.nextSequenceNumber blobs)
      p.tracker.savedSequencerNumbers.entries ≤ 1 := by
  have hFollows : FollowsProofs p.tracker.nextSequenceNumber blobs
      p.tracker.savedSequencerNumbers.entries k :=
    ⟨hk.1, fun j hjk hj => (hk.2 j hjk hj).imp_left fun ⟨b, hb, hb'⟩ => ⟨b, (mem_inOrder.mp hb).1, hb'⟩⟩
  have hSorted := @copies_inOrder_le S p.tracker.nextSequenceNumber blobs k
  have hSaved := p.tracker.savedSequencerNumbers.countP_key_le_one k
  rcases Nat.eq_zero_or_pos (copies k blobs) with _ | hPos
  · unfold held
    omega
  · obtain ⟨b, hb, rfl⟩ := copies_pos.mp hPos
    have hAll := h b hb hFollows
    unfold held at hAll ⊢
    omega

theorem Synced.consistent (h : Synced p) : Consistent p :=
  fun e he _ => h.indexed e he (zero_le _)

include hRun in
theorem Synced.pick_none (h : Synced p) (hRoom : Room p blobs)
    (hNone : run.nextNumber = none) :
    ∃ p', pickPreferredBlobsToProcess p blobs = .ok (p', []) ∧ Synced p' := by
  have hRuns := hRun ▸ runs_findNextRunOfBlobs p.tracker blobs
  refine ⟨_, PreferredStore.pick_none hRun hRoom hNone, ?_, ?_, ?_⟩
  · apply Indexed.saveBlobs
    exact fun e he => h.indexed e (mem_splitOff.mp he).1
  · apply Listed.saveBlobs
    intro k b hk hb
    obtain ⟨hNum, hMem⟩ := h.listed k b hk hb
    exact ⟨hNum, mem_splitOff.mpr ⟨hMem, h.upcoming _ hMem⟩⟩
  · intro e he
    rcases mem_saveBlobs he with he | ⟨b, hb, hNum⟩
    · exact (mem_splitOff.mp he).2
    · have hb : b ∈ inOrder p.tracker.nextSequenceNumber blobs := by
        rw [hRuns.new_eq]
        exact perm_append_comm.mem_iff.mp hb
      exact hNum ▸ (mem_inOrder.mp hb).2

include hRun in
/-- A complete run in which no number is held twice leaves nothing of its
numbers in the index or in the store. -/
theorem Synced.pick_some (h : Synced p) (hRoom : Room p blobs) (hOnce : HeldOnce p blobs)
    (hSome : run.nextNumber = some next') :
    ∃ p' output, pickPreferredBlobsToProcess p blobs = .ok (p', output) ∧ Synced p' := by
  have hRuns := hRun ▸ runs_findNextRunOfBlobs p.tracker blobs
  obtain ⟨hFresh, hRest⟩ := hRuns.once hRoom.inOrder (fun b hb => (mem_inOrder.mp hb).2)
    fun k hk => hOnce.inOrder hk
  have hEnd : next' = p.tracker.nextSequenceNumber + run.arrivals.length := by
    rcases hRuns.ends hRoom.inOrder with ⟨hNone, -⟩ | ⟨hNext, -⟩
    · simp [hSome] at hNone
    · simpa [hSome] using hNext
  have hBelow : ∀ k < next', (saveRest p run next').2 k =
      p.deferredPreferredSequencerBlobs k := by
    intro k hk
    rcases @saveBlobs_deferred S (p.tracker.savedSequencerNumbers.splitOff next')
      p.deferredPreferredSequencerBlobs run.rest k
      with hSame | ⟨b, hb, _, -⟩
    · exact hSame
    · have := hRest b hb
      omega
  have hRange : ∀ {k t}, .stored k t ∈ run.arrivals → k < next' := by
    intro k t hMem
    have := (hRuns.le_number hRoom.inOrder hMem).2
    simp only [BlobArrival.number] at this
    omega
  obtain ⟨deferred, output, hPick, -, -, -, hGone, hSame⟩ :=
    PreferredStore.pick_some hRun hRoom hSome fun k t hMem => by
      rw [hBelow k (hRange hMem)]
      exact h.indexed (k, t) (hRuns.stored_mem hMem) (zero_le _)
  have hUpcoming : ∀ e ∈ (saveRest p run next').1.entries,
      next' ≤ e.1 := by
    intro e he
    rcases mem_saveBlobs he with he | ⟨b, hb, hNum⟩
    · exact (mem_splitOff.mp he).2
    · exact hNum ▸ hEnd ▸ hRest b hb
  have hAbove : ∀ k, next' ≤ k →
      deferred k = (saveRest p run next').2 k :=
    fun k hk => hSame k fun t hMem => absurd (hRange hMem) (by omega)
  refine ⟨_, output, hPick, fun e he _ => ?_, fun k b _ hb => ?_, hUpcoming⟩
  · have hIndexed := Indexed.saveRest run
      (hEnd ▸ le_add_right _ _) h.consistent e he (hUpcoming e he)
    simpa only [hAbove e.1 (hUpcoming e he)] using hIndexed
  · have hb : deferred k = some b := hb
    rcases lt_or_ge k next' with hk | hk
    · -- a blob below the new number was saved before, so the run used it from the store
      exfalso
      have hNot : ∀ t, .stored k t ∉ run.arrivals := by
        intro t hMem
        simp [hGone k t hMem] at hb
      rw [hSame k hNot, hBelow k hk] at hb
      obtain ⟨-, hMem⟩ := h.listed k b (zero_le _) hb
      have hInRun : k ∈ run.arrivals.map (·.number) := by
        rw [hRuns.numbers hRoom.inOrder, mem_range'_1]
        exact ⟨h.upcoming _ hMem, hEnd ▸ hk⟩
      obtain ⟨a, ha, hNum⟩ := mem_map.mp hInRun
      cases a with
      | new c => exact hFresh c ha _ hMem hNum.symm
      | stored n t => exact hNot t (hNum ▸ ha)
    · have hListed : Listed next' (saveRest p run next').1
          (saveRest p run next').2 := by
        apply Listed.saveBlobs
        intro k b hk hb
        obtain ⟨hNum, hMem⟩ := h.listed k b (zero_le _) hb
        exact ⟨hNum, mem_splitOff.mpr ⟨hMem, hk⟩⟩
      exact hListed k b hk (hAbove k hk ▸ hb)

/-- One slot in which no number of the run is held twice keeps index and store in step. -/
theorem Synced.pick (h : Synced p) (hRoom : Room p blobs) (hOnce : HeldOnce p blobs) :
    ∃ p' output, pickPreferredBlobsToProcess p blobs = .ok (p', output) ∧ Synced p' := by
  cases hNext : (findNextRunOfBlobs p.tracker blobs).nextNumber with
  | none =>
    obtain ⟨p', hPick, hSynced⟩ := h.pick_none rfl hRoom hNext
    exact ⟨p', [], hPick, hSynced⟩
  | some next' => exact h.pick_some rfl hRoom hOnce hNext

end pick

end SovereignSdk.PreferredStore
