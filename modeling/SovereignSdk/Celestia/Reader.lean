import SovereignSdk.Celestia.BlobChecks

/-! Reading a blob: the bytes that an iterator has not yet passed, and a reader that has read some
of the content and can read the rest. -/
namespace SovereignSdk.Celestia
open Outcome Bounded List BlobIterator Nat

variable {D : DaTypes}

theorem payload_of_not_parity {share : Share D} (h : share.isParity = false) :
    share.payload = some (D.payloadField share.data) := by
  simp [Share.payload, share_of_not_parity h]

namespace BlobIterator

def unread (iterator : BlobIterator D) : List UInt8 :=
  iterator.current ++ payloadOf (iterator.blob.drop (iterator.currentIdx + 1))

/-- The iterator after some more bytes, of which it counts `cnt` as consumed. -/
structure MovedBy (iterator iterator' : BlobIterator D) (cnt : Nat) : Prop where
  blob : iterator'.blob = iterator.blob
  sequenceLen : iterator'.sequenceLen = iterator.sequenceLen
  consumed : iterator'.consumed = iterator.consumed + cnt

theorem advanceOver_ok {rest : List (Share D)} {iterator : BlobIterator D} {cnt : Nat}
    (hRest : rest = iterator.blob.drop (iterator.currentIdx + 1))
    (hData : ∀ share ∈ rest, share.isParity = false) (hCnt : cnt ≤ iterator.unread.length) :
    ∃ iterator', advanceOver rest iterator cnt = .ok iterator' ∧ iterator.MovedBy iterator' 0 ∧
      iterator'.unread = iterator.unread.drop cnt := by
  induction rest generalizing iterator cnt with
  | nil =>
    cases cnt with
    | zero => exact ⟨iterator, rfl, ⟨rfl, rfl, rfl⟩, rfl⟩
    | succ cnt =>
      have hUnread : iterator.unread = iterator.current := by
        rw [unread, ← hRest]
        exact append_nil _
      rw [hUnread] at hCnt
      rw [advanceOver]
      split
      · refine ⟨_, rfl, ⟨rfl, rfl, rfl⟩, ?_⟩
        rw [hUnread, unread, ← hRest]
        exact append_nil _
      · refine ⟨{ iterator with current := [] }, ?_, ⟨rfl, rfl, rfl⟩, ?_⟩
        · exact bind_eq_ok.mpr ⟨(), ensure_eq_ok.mpr (by omega), rfl⟩
        · rw [hUnread, unread, ← hRest, drop_of_length_le (by omega)]
          rfl
  | cons share rest ih =>
    cases cnt with
    | zero => exact ⟨iterator, rfl, ⟨rfl, rfl, rfl⟩, rfl⟩
    | succ cnt =>
      have hLoad := payload_of_not_parity (hData share mem_cons_self)
      have hUnread : iterator.unread = iterator.current ++ (D.payloadField share.data ++ payloadOf rest) := by
        rw [unread, ← hRest, payloadOf]
        rfl
      have hNext : rest = iterator.blob.drop (iterator.currentIdx + 1 + 1) := by
        rw [← drop_drop, ← hRest]
        rfl
      rw [advanceOver]
      split
      · rename_i hLt
        refine ⟨_, rfl, ⟨rfl, rfl, rfl⟩, ?_⟩
        rw [unread, unread, drop_append_of_le_length (le_of_lt hLt)]
      · rename_i hNot
        rw [hUnread, length_append] at hCnt
        have hMoved : ({ iterator with
            currentIdx := iterator.currentIdx + 1, current := D.payloadField share.data } :
              BlobIterator D).unread = D.payloadField share.data ++ payloadOf rest := by
          rw [unread, hNext]
        obtain ⟨iterator', hAdv, hSame, hAfter⟩ := @ih
          { iterator with currentIdx := iterator.currentIdx + 1, current := D.payloadField share.data }
          (cnt + 1 - iterator.current.length) hNext (fun other hMem => hData other (mem_cons_of_mem _ hMem))
          (by rw [hMoved]; omega)
        refine ⟨iterator', ?_, ⟨hSame.blob, hSame.sequenceLen, hSame.consumed⟩, ?_⟩
        · simp only [hLoad, unwrap_some]
          exact hAdv
        · have hPassed : (iterator.current ++ (D.payloadField share.data ++ payloadOf rest)).drop (cnt + 1) =
              (D.payloadField share.data ++ payloadOf rest).drop (cnt + 1 - iterator.current.length) := by
            rw [drop_append, drop_of_length_le (Nat.le_of_not_lt hNot), nil_append]
          rw [hAfter, hMoved, hUnread, hPassed]

/-- The iterator has not passed the end of the content, and every share of the blob has bytes. -/
structure WellFormed (iterator : BlobIterator D) : Prop where
  data : ∀ share ∈ iterator.blob, share.isParity = false ∧ D.payloadField share.data ≠ []
  consumed : iterator.consumed ≤ iterator.sequenceLen
  enough : iterator.sequenceLen - iterator.consumed ≤ iterator.unread.length

variable {iterator : BlobIterator D}

section
variable (h : iterator.WellFormed)
include h

theorem WellFormed.remaining : iterator.remaining = .ok (iterator.sequenceLen - iterator.consumed) := by
  exact unwrap_eq_ok.mpr (checkedSub_eq_some.mpr ⟨h.consumed, rfl⟩)

theorem WellFormed.chunk (hLeft : iterator.consumed < iterator.sequenceLen) :
    ∃ src, iterator.chunk = .ok src ∧ src ≠ [] ∧
      src <+: iterator.unread.take (iterator.sequenceLen - iterator.consumed) := by
  have hLeft : 0 < iterator.sequenceLen - iterator.consumed := by omega
  have hPos : ∀ {bytes : List UInt8}, bytes ≠ [] →
      bytes.take (iterator.sequenceLen - iterator.consumed) ≠ [] := by
    intro bytes hBytes hNone
    rcases take_eq_nil_iff.mp hNone with _ | hEmpty
    · omega
    · exact hBytes hEmpty
  unfold BlobIterator.chunk
  split
  · rename_i hCur
    refine ⟨_, bind_eq_ok.mpr ⟨_, h.remaining, rfl⟩, hPos hCur, ?_⟩
    exact (prefix_append _ _).take _
  · rename_i hCur
    rw [not_not] at hCur
    have hUnread : iterator.unread = payloadOf (iterator.blob.drop (iterator.currentIdx + 1)) := by
      rw [unread, hCur, nil_append]
    cases hNext : iterator.blob[iterator.currentIdx + 1]? with
    | none =>
      have hEmpty := h.enough
      rw [hUnread, List.drop_of_length_le (List.getElem?_eq_none_iff.mp hNext)] at hEmpty
      exact absurd (lt_of_lt_of_le hLeft hEmpty) (lt_irrefl 0)
    | some share =>
      obtain ⟨hData, hBytes⟩ := h.data share (List.mem_of_getElem? hNext)
      have hHead : iterator.blob.drop (iterator.currentIdx + 1) =
          share :: iterator.blob.drop (iterator.currentIdx + 1 + 1) := by
        obtain ⟨hLt, hShare⟩ := List.getElem?_eq_some_iff.mp hNext
        rw [drop_eq_getElem_cons hLt, hShare]
      refine ⟨(D.payloadField share.data).take (iterator.sequenceLen - iterator.consumed), ?_, hPos hBytes, ?_⟩
      · simp only [payload_of_not_parity hData, h.remaining]
        rfl
      · rw [hUnread, hHead, payloadOf]
        exact (prefix_append _ _).take _

theorem WellFormed.advance {cnt : Nat} (hCnt : cnt ≤ iterator.sequenceLen - iterator.consumed) :
    ∃ iterator', iterator.advance cnt = .ok iterator' ∧ iterator'.WellFormed ∧ iterator.MovedBy iterator' cnt ∧
      iterator'.unread = iterator.unread.drop cnt := by
  have hEnough := h.enough
  obtain ⟨iterator', hAdv, hSame, hUnread⟩ :=
    @advanceOver_ok _ _ { iterator with consumed := iterator.consumed + cnt } cnt rfl
      (fun share hMem => (h.data share (mem_of_mem_drop hMem)).1) (hCnt.trans hEnough)
  have hConsumed : iterator'.consumed = iterator.consumed + cnt := hSame.consumed
  have hLen : iterator'.sequenceLen = iterator.sequenceLen := hSame.sequenceLen
  have hUnread : iterator'.unread = iterator.unread.drop cnt := hUnread
  refine ⟨iterator', hAdv, ⟨?_, ?_, ?_⟩, ⟨hSame.blob, hLen, hConsumed⟩, hUnread⟩
  · rw [show iterator'.blob = iterator.blob from hSame.blob]
    exact h.data
  · have := h.consumed
    omega
  · rw [hUnread, length_drop]
    omega

theorem WellFormed.copyChunks {chunks len} (hChunks : len ≤ chunks)
    (hLen : len ≤ iterator.sequenceLen - iterator.consumed) :
    ∃ iterator', copyChunks chunks iterator len = .ok (iterator.unread.take len, iterator') ∧
      iterator'.WellFormed ∧ iterator.MovedBy iterator' len ∧ iterator'.unread = iterator.unread.drop len := by
  induction chunks generalizing iterator len with
  | zero =>
    cases le_zero.mp hChunks
    exact ⟨iterator, rfl, h, ⟨rfl, rfl, rfl⟩, rfl⟩
  | succ chunks ih =>
    cases len with
    | zero => exact ⟨iterator, rfl, h, ⟨rfl, rfl, rfl⟩, rfl⟩
    | succ len =>
      obtain ⟨src, hSrc, hSome, hPrefix⟩ := h.chunk (by omega)
      have hPos := length_pos_iff.mpr hSome
      obtain ⟨next, hNext, hWell, hMoved, hUnread⟩ :=
        h.advance (show min src.length (len + 1) ≤ iterator.sequenceLen - iterator.consumed by omega)
      generalize hCount : min src.length (len + 1) = cnt at hMoved hUnread hNext
      have hLeft : len + 1 - cnt ≤ next.sequenceLen - next.consumed := by
        rw [hMoved.sequenceLen, hMoved.consumed]
        omega
      obtain ⟨iterator', hRest, hWell', hMoved', hUnread'⟩ := ih hWell (by omega : len + 1 - cnt ≤ chunks) hLeft
      refine ⟨iterator', ?_, hWell', ⟨hMoved'.blob.trans hMoved.blob,
        hMoved'.sequenceLen.trans hMoved.sequenceLen, ?_⟩, ?_⟩
      · have hTaken : src.take cnt = iterator.unread.take cnt := by
          obtain ⟨more, hMore⟩ := hPrefix
          rw [← take_append_of_le_length (by omega : cnt ≤ src.length), hMore, take_take,
            min_eq_left (by omega)]
        simp only [copyChunks, hSrc, ok_bind, hCount, hNext, hRest]
        rw [hTaken, hUnread, ← take_add, Nat.add_sub_cancel' (by omega)]
        rfl
      · rw [hMoved'.consumed, hMoved.consumed]
        omega
      · rw [hUnread', hUnread, drop_drop]
        congr 1
        omega

theorem WellFormed.copyToSlice {len} (hLen : len ≤ iterator.sequenceLen - iterator.consumed) :
    ∃ iterator', iterator.copyToSlice len = .ok (iterator.unread.take len, iterator') ∧
      iterator'.WellFormed ∧ iterator.MovedBy iterator' len ∧ iterator'.unread = iterator.unread.drop len :=
  h.copyChunks (le_refl len) hLen

end

end BlobIterator

/-- Some of the first `length` of the bytes have been read, and the others can be. -/
structure CountedBufReader.Reading (reader : CountedBufReader (BlobIterator D)) (bytes : List UInt8) (length : Nat) :
    Prop where
  inner : reader.inner.WellFormed
  sequenceLen : reader.inner.sequenceLen = length
  consumed : reader.inner.consumed = reader.accumulator.length
  unread : reader.accumulator ++ reader.inner.unread = bytes

namespace CountedBufReader.Reading
variable {reader : CountedBufReader (BlobIterator D)} {bytes : List UInt8} {length : Nat}

theorem isPrefix (h : reader.Reading bytes length) : reader.accumulator <+: bytes.take length := by
  refine prefix_take_iff.mpr ⟨h.unread ▸ prefix_append _ _, ?_⟩
  rw [← h.consumed, ← h.sequenceLen]
  exact h.inner.consumed

theorem advance (h : reader.Reading bytes length) (numBytes : Nat) :
    ∃ reader', reader.advance numBytes = .ok reader' ∧ reader'.Reading bytes length := by
  simp only [CountedBufReader.advance, h.inner.remaining, ok_bind]
  split
  · exact ⟨reader, rfl, h⟩
  · obtain ⟨inner, hCopy, hInner, hMoved, hUnread⟩ := h.inner.copyToSlice
      (min_le_left (reader.inner.sequenceLen - reader.inner.consumed) numBytes)
    have hEnough := h.inner.enough
    rw [hCopy]
    refine ⟨_, rfl, hInner, hMoved.sequenceLen.trans h.sequenceLen, ?_, ?_⟩
    · have hConsumed := h.consumed
      rw [hMoved.consumed, length_append, length_take]
      omega
    · rw [hUnread, append_assoc, take_append_drop]
      exact h.unread

theorem of_ofBlob {first : Share D} {tail : List (Share D)}
    (hData : ∀ share ∈ first :: tail, share.isParity = false ∧ D.payloadField share.data ≠ [])
    (hStart : D.sequenceStartField first.data = true)
    (hEnough : D.sequenceLengthField first.data ≤ (payloadOf (first :: tail)).length) :
    ∃ iterator, ofBlob (first :: tail) = .ok iterator ∧
      (CountedBufReader.new iterator).Reading (payloadOf (first :: tail)) (D.sequenceLengthField first.data) := by
  have hParity := (hData first mem_cons_self).1
  have hLen : first.sequenceLength = some (D.sequenceLengthField first.data) := by
    simp [Share.sequenceLength, share_of_not_parity hParity, hStart]
  refine ⟨⟨D.sequenceLengthField first.data, 0, D.payloadField first.data, 0, first :: tail⟩, ?_,
    ⟨hData, zero_le _, ?_⟩, rfl, rfl, ?_⟩
  · simp [ofBlob, hLen, payload_of_not_parity hParity]
  · exact hEnough
  · rfl

end CountedBufReader.Reading

/-- A blob of which the rollup asks for some bytes, and then for more. -/
def BlobWithSender.advanceAll (blob : BlobWithSender D) (requests : List Nat) : Except AdapterPanic (BlobWithSender D) :=
  requests.foldlM BlobWithSender.advance blob

/-- Reading never panics, and changes nothing but the reader. -/
theorem BlobWithSender.advanceAll_ok {blob : BlobWithSender D} {bytes : List UInt8} {length : Nat}
    (h : blob.blob.Reading bytes length) (requests : List Nat) :
    ∃ reader, blob.advanceAll requests = .ok { blob with blob := reader } ∧ reader.Reading bytes length := by
  induction requests generalizing blob with
  | nil => exact ⟨blob.blob, rfl, h⟩
  | cons numBytes requests ih =>
    obtain ⟨next, hNext, hReading⟩ := h.advance numBytes
    obtain ⟨reader, hRest, hAll⟩ := @ih { blob with blob := next } hReading
    refine ⟨reader, ?_, hAll⟩
    rw [advanceAll, foldlM_cons, BlobWithSender.advance, hNext]
    exact hRest

end SovereignSdk.Celestia
