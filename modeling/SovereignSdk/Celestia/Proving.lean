import SovereignSdk.Celestia.BlobChecks
import SovereignSdk.Celestia.Layout

/-! What the node proves for a range of shares of the namespace. -/
namespace SovereignSdk.Celestia
open Outcome Bounded Segments List Nat

variable {D : DaTypes} {square : ExtendedDataSquare D} {root : Row D → D.NamespacedHash}
  {data : NamespaceRelevantData D}

/-- Where the node takes the namespace to start: its first row has the shares at the right. -/
def claimedStart (square : ExtendedDataSquare D) (root : Row D → D.NamespacedHash) (ns : D.Namespace) : Nat :=
  square.dataWidth - min (square.dataWidth - namespaceStart square root ns) (square.shares ns).length

/-- A range in one row, proven from what was fetched. -/
structure RangeProof.Proven (square : ExtendedDataSquare D) (root : Row D → D.NamespacedHash) (ns : D.Namespace)
    (range : RangeProof D) : Prop where
  nonempty : range.shares ≠ []
  row : ∃ row, (namespaceRows square root ns)[range.startShareIdx / square.dataWidth]? = some row ∧
    D.verifyRange range.proof (root row) (range.shares.map (·.data)) ns = true ∧
    (0 < D.startIdx range.proof →
      (D.rightmostLeftSibling range.proof).map D.maxNamespace = row[D.startIdx range.proof - 1]?.map Prod.fst)
  column : range.startShareIdx = claimedStart square root ns → D.startIdx range.proof = namespaceStart square root ns

theorem exists_row (hData : data.IsOf square root) {j} (hj : j < (namespaceRows square root data.ns).length) :
    ∃ rowData row, data.rows[j]? = some rowData ∧ (namespaceRows square root data.ns)[j]? = some row ∧
      rowData.IsOf square root data.ns row := by
  have hLen : j < data.rows.length := length_rows hData ▸ hj
  exact ⟨_, _, getElem?_eq_getElem hLen, getElem?_eq_getElem hj, hData.rows.get hLen hj⟩

section Fetched
variable (hSound : NmtSound square root) (hData : data.IsOf square root)
  (hRows : namespaceRows square root data.ns ≠ [])
include hSound hData hRows

theorem claimedStart_cases :
    claimedStart square root data.ns = namespaceStart square root data.ns ∧
        square.dataWidth ≤ namespaceStart square root data.ns + (square.shares data.ns).length ∨
      (namespaceRows square root data.ns).length = 1 ∧
        claimedStart square root data.ns + (square.shares data.ns).length = square.dataWidth ∧
        namespaceStart square root data.ns + (square.shares data.ns).length < square.dataWidth := by
  obtain ⟨_, _⟩ := namespace_bounds hData hSound hRows
  have hLen := length_pos_iff.mpr hRows
  unfold claimedStart
  rcases lt_or_ge (namespaceStart square root data.ns + (square.shares data.ns).length) square.dataWidth with
    _ | hLong
  · by_contra _
    have hTwo : square.dataWidth ≤ ((namespaceRows square root data.ns).length - 1) * square.dataWidth :=
      Nat.le_mul_of_pos_left _ (by omega)
    omega
  · exact .inl ⟨by omega, hLong⟩

theorem claimedStart_lt (hShares : 0 < (square.shares data.ns).length) :
    claimedStart square root data.ns < square.dataWidth := by
  obtain ⟨_, -⟩ := namespace_bounds hData hSound hRows
  unfold claimedStart
  omega

theorem claimedEnd_le :
    claimedStart square root data.ns + (square.shares data.ns).length ≤
      (namespaceRows square root data.ns).length * square.dataWidth := by
  rcases claimedStart_cases hSound hData hRows with ⟨hSame, -⟩ | ⟨hOne, hEnd, -⟩
  · rw [hSame]
    exact namespaceEnd_le hSound hData.parity
  · rw [hOne, one_mul, hEnd]

theorem firstRowOffset_eq : firstRowOffset square.dataWidth data = .ok (claimedStart square root data.ns) := by
  obtain ⟨row, rest, hCons⟩ := exists_cons_of_ne_nil hRows
  have hForall := hData.rows
  rw [hCons] at hForall
  cases hFetch : data.rows with
  | nil =>
    rw [hFetch] at hForall
    cases hForall
  | cons rowData others =>
    rw [hFetch] at hForall
    obtain ⟨hFirst, -⟩ := forall₂_cons.mp hForall
    have hShares := rowShares_eq hSound hData.parity (j := 0) (by rw [hCons]; rfl) hFirst
    have hLen : rowData.shares.length =
        min (square.dataWidth - namespaceStart square root data.ns) (square.shares data.ns).length := by
      rw [hShares, Nat.zero_mul, Nat.zero_sub, drop_zero, length_take, length_fetchedShares, Nat.sub_zero]
    unfold firstRowOffset
    rw [hFetch]
    refine unwrap_eq_ok.mpr (checkedSub_eq_some.mpr ⟨?_, ?_⟩)
    · omega
    · rw [hLen, claimedStart]

end Fetched

theorem take_drop_row {α : Type} {flat : List α} {x y re : Nat} (rs : Nat) (hRow : re ≤ ((flat.drop x).take y).length) :
    (((flat.drop x).take y).take re).drop rs = (flat.drop (x + rs)).take (re - rs) := by
  rw [length_take] at hRow
  rw [take_take, min_eq_left (by omega), drop_take, drop_drop]

theorem split_at_two {α : Type} (l : List α) {i j} (h : i ≤ j) : l = l.take i ++ ((l.take j).drop i ++ l.drop j) := by
  conv_lhs => rw [← take_append_drop j l, ← take_append_drop i (l.take j)]
  rw [take_take, min_eq_left h, append_assoc]

section Fetched
variable (hSound : NmtSound square root) (hData : data.IsOf square root)
  (hRows : namespaceRows square root data.ns ≠ []) {start stop : Nat}
  (hStart : claimedStart square root data.ns ≤ start) (hLt : start < stop)
  (hStop : stop ≤ claimedStart square root data.ns + (square.shares data.ns).length)
  (hRow : start / square.dataWidth = (stop - 1) / square.dataWidth)
include hSound hData hRows hStart hLt hStop hRow

theorem row_positions {j : Nat} (hj : j = start / square.dataWidth) {rowData : RowNamespaceData D} {row : Row D}
    (hHere : (namespaceRows square root data.ns)[j]? = some row) (hIsOf : rowData.IsOf square root data.ns row) :
    (if j = 0 then claimedStart square root data.ns else 0) ≤ start % square.dataWidth ∧
      start % square.dataWidth + (stop - start) - (if j = 0 then claimedStart square root data.ns else 0) ≤
        rowData.shares.length ∧
      j * square.dataWidth - namespaceStart square root data.ns +
          (start % square.dataWidth - if j = 0 then claimedStart square root data.ns else 0) =
        start - claimedStart square root data.ns := by
  obtain ⟨_, -⟩ := namespace_bounds hData hSound hRows
  have hCases := claimedStart_cases hSound hData hRows
  have hShares := congrArg length (rowShares_eq hSound hData.parity hHere hIsOf)
  rw [length_take, length_drop, length_fetchedShares] at hShares
  have hSplit := div_add_mod' start square.dataWidth
  have hStopSplit := div_add_mod' (stop - 1) square.dataWidth
  have hStopMod := mod_lt (stop - 1) (by omega : 0 < square.dataWidth)
  rw [← hRow, ← hj] at hStopSplit
  rw [← hj] at hSplit
  rcases Nat.eq_zero_or_pos j with hZero | hPos
  · subst hZero
    rw [if_pos rfl]
    omega
  · have hFull : square.dataWidth ≤ j * square.dataWidth := Nat.le_mul_of_pos_left _ hPos
    rw [if_neg (by omega)]
    omega

/-- The prover does not panic on a range within one row. -/
theorem proveSubRange_ok {header : CelestiaHeader D} (hRoots : header.dah.rowRoots = square.rows.map root) :
    ∃ range, proveSubRange square.dataWidth data (header.namespaceRowRoots data.ns)
        (claimedStart square root data.ns) (start, stop) = .ok range ∧
      range.startShareIdx = start ∧
      range.shares = ((fetchedShares square data.ns).drop (start - claimedStart square root data.ns)).take
        (stop - start) ∧
      range.Proven square root data.ns := by
  obtain ⟨hFirst, -⟩ := namespace_bounds hData hSound hRows
  have hEnd := claimedEnd_le hSound hData hRows
  have hj : start / square.dataWidth < (namespaceRows square root data.ns).length :=
    (div_lt_iff_lt_mul (by omega)).mpr (by omega)
  obtain ⟨rowData, row, hFetch, hHere, hIsOf⟩ := exists_row hData hj
  obtain ⟨hOffset, hLen, hIndex⟩ :=
    row_positions hSound hData hRows hStart hLt hStop hRow rfl hHere hIsOf
  have hShares := rowShares_eq hSound hData.parity hHere hIsOf
  generalize hRelative : (if start / square.dataWidth = 0 then claimedStart square root data.ns else 0) = offset
    at hOffset hLen hIndex
  have hMid := take_drop_row (start % square.dataWidth - offset) (hShares ▸ hLen)
  rw [← hShares, hIndex, show start % square.dataWidth + (stop - start) - offset - (start % square.dataWidth - offset) =
    stop - start by omega] at hMid
  have hParts := congrArg (map (·.data))
    (split_at_two rowData.shares (show start % square.dataWidth - offset ≤
      start % square.dataWidth + (stop - start) - offset by omega))
  rw [map_append, map_append] at hParts
  have hNe : (((rowData.shares.take (start % square.dataWidth + (stop - start) - offset)).drop
      (start % square.dataWidth - offset)).map (·.data)) ≠ [] := by
    rw [← length_pos_iff, length_map, length_drop, length_take]
    omega
  obtain ⟨proof, hNarrow, hVer, hColumn, hLeft, -⟩ := hIsOf.narrow _ _ _ hParts hNe
  refine ⟨⟨_, proof, start⟩, ?_, rfl, hMid, fun hNone => hNe (map_eq_nil_iff.mpr hNone),
    ⟨row, hHere, hVer, hLeft⟩, fun hSame => ?_⟩
  · simp only [proveSubRange, bind_eq_ok, ensure_eq_ok, unwrap_eq_ok, checkedSub_eq_some, hRelative]
    exact ⟨(), by omega, rowData, hFetch, _, ⟨hOffset, rfl⟩, _, ⟨by omega, rfl⟩, (), ⟨by omega, hLen⟩, proof,
      hNarrow, root row, by rw [namespaceRowRoots_eq hRoots, getElem?_map, hHere]; rfl, (), hVer, rfl⟩
  · dsimp only at hSame ⊢
    have hInRow := claimedStart_lt hSound hData hRows (by omega)
    rw [hSame, div_eq_of_lt hInRow, if_pos rfl] at hRelative
    rw [hColumn, row_take hHere, length_lower_block namespaceData_ordered, length_map, length_take,
      hSame, mod_eq_of_lt hInRow, div_eq_of_lt hInRow, hRelative]
    unfold namespaceStart at hFirst ⊢
    omega

end Fetched

/-- Ranges that cover the positions from one to another, each one within a row. -/
def Tiles (k stop : Nat) : Nat → List (Nat × Nat) → Prop
  | start, [] => start = stop
  | start, (first, next) :: rest =>
    first = start ∧ start < next ∧ start / k = (next - 1) / k ∧ Tiles k stop next rest

theorem splitRows_ok {usizeMax k stop rowsLeft currentRow start} (hk : 0 < k)
    (hStart : start / k = currentRow) (hStop : (stop - 1) / k = currentRow + rowsLeft) (hLt : start < stop)
    (hUsize : (currentRow + rowsLeft) * k + k ≤ usizeMax) :
    ∃ ranges, splitRows usizeMax k stop rowsLeft currentRow start = .ok ranges ∧ ranges ≠ [] ∧
      Tiles k stop start ranges := by
  induction rowsLeft generalizing currentRow start with
  | zero =>
    refine ⟨[(start, stop)], ?_, cons_ne_nil _ _, rfl, hLt, hStart.trans hStop.symm, rfl⟩
    simp only [splitRows, bind_eq_ok, ensure_eq_ok]
    exact ⟨(), hUsize, rfl⟩
  | succ rowsLeft ih =>
    have hNext : currentRow * k + k = (currentRow + 1) * k := (succ_mul ..).symm
    have hSame : currentRow + 1 + rowsLeft = currentRow + (rowsLeft + 1) := add_right_comm ..
    have hBefore : start < currentRow * k + k := by
      have := lt_div_mul_add hk (a := start)
      rwa [hStart] at this
    have hFurther : (currentRow + 1) * k ≤ (currentRow + (rowsLeft + 1)) * k :=
      mul_le_mul_right k (by omega)
    have hLast : (currentRow + (rowsLeft + 1)) * k ≤ stop - 1 := by
      rw [← hStop]
      exact div_mul_le_self _ _
    obtain ⟨ranges, hRanges, -, hTiles⟩ := @ih (currentRow + 1) (currentRow * k + k)
      (by rw [hNext, Nat.mul_div_cancel _ hk]) (by rw [hStop, hSame]) (by omega) (by rwa [hSame])
    refine ⟨(start, currentRow * k + k) :: ranges, ?_, cons_ne_nil _ _, rfl, hBefore, ?_, hTiles⟩
    · simp only [splitRows, bind_eq_ok, ensure_eq_ok]
      exact ⟨(), by omega, ranges, hRanges, rfl⟩
    · rw [hStart]
      exact (Nat.div_eq_of_lt_le (by omega) (by omega)).symm

theorem splitBlobRangeByRows_ok {usizeMax k m rows} (q offset : Nat) (hk : 0 < k) (hm : 0 < m)
    (hEnd : offset + (q + m) ≤ rows * k) (hUsize : rows * k ≤ usizeMax) :
    ∃ ranges, splitBlobRangeByRows usizeMax (q, q + m) offset k = .ok ranges ∧ ranges ≠ [] ∧
      Tiles k (offset + (q + m)) (offset + q) ranges := by
  have hRow : (offset + (q + m) - 1) / k < rows := (div_lt_iff_lt_mul hk).mpr (by omega)
  have hOrder : (offset + q) / k ≤ (offset + (q + m) - 1) / k := Nat.div_le_div_right (by omega)
  have hSplit : ∃ ranges, (if (offset + q) / k = (offset + (q + m) - 1) / k then
        .ok [(offset + q, offset + (q + m))]
      else splitRows usizeMax k (offset + (q + m)) ((offset + (q + m) - 1) / k - (offset + q) / k) ((offset + q) / k)
        (offset + q)) = .ok ranges ∧ ranges ≠ [] ∧ Tiles k (offset + (q + m)) (offset + q) ranges := by
    split
    · rename_i hSame
      exact ⟨_, rfl, cons_ne_nil _ _, rfl, by omega, hSame, rfl⟩
    · refine splitRows_ok hk rfl (by omega) (by omega) ?_
      rw [Nat.add_sub_cancel' hOrder, ← Nat.succ_mul]
      exact (mul_le_mul_right k hRow).trans hUsize
  obtain ⟨ranges, hRanges, hNe, hTiles⟩ := hSplit
  refine ⟨ranges, ?_, hNe, hTiles⟩
  simp only [splitBlobRangeByRows, if_neg (by omega : ¬ q + m ≤ q), bind_eq_ok, unwrap_eq_ok, checkedAdd_eq_some,
    ensure_eq_ok, add_comm q offset, add_comm (q + m) offset]
  exact ⟨_, ⟨by omega, rfl⟩, _, ⟨by omega, rfl⟩, (), by omega, hRanges⟩

/-- The proof of `m` shares of the namespace from the one at `q` on. -/
structure BlobProof.Proves (square : ExtendedDataSquare D) (root : Row D → D.NamespacedHash) (ns : D.Namespace)
    (proof : BlobProof D) (q m : Nat) : Prop where
  starts : StartsAt (claimedStart square root ns + q) proof.rangeProofs
  shares : proof.shares = ((fetchedShares square ns).drop q).take m
  proven : ∀ range ∈ proof.rangeProofs, range.Proven square root ns

section Fetched
variable (hSound : NmtSound square root) (hData : data.IsOf square root)
  (hRows : namespaceRows square root data.ns ≠ []) {header : CelestiaHeader D}
  (hRoots : header.dah.rowRoots = square.rows.map root)
include hSound hData hRows hRoots

theorem proveSubRanges_ok {subRanges start stop}
    (hTiles : Tiles square.dataWidth stop start subRanges) (hStart : claimedStart square root data.ns ≤ start)
    (hStop : stop ≤ claimedStart square root data.ns + (square.shares data.ns).length) :
    start ≤ stop ∧ ∃ ranges, subRanges.mapM (proveSubRange square.dataWidth data (header.namespaceRowRoots data.ns)
        (claimedStart square root data.ns)) = .ok ranges ∧
      StartsAt start ranges ∧
      ranges.flatMap (·.shares) = ((fetchedShares square data.ns).drop
        (start - claimedStart square root data.ns)).take (stop - start) ∧
      (∀ range ∈ ranges, range.Proven square root data.ns) ∧ ranges.length = subRanges.length := by
  induction subRanges generalizing start with
  | nil =>
    cases hTiles
    exact ⟨Nat.le_refl _, [], rfl, trivial, by rw [Nat.sub_self]; rfl, by simp, rfl⟩
  | cons subRange subRanges ih =>
    obtain ⟨first, next⟩ := subRange
    obtain ⟨rfl, hLt, hRow, hRest⟩ := hTiles
    obtain ⟨hNext, ranges, hRanges, hStarts, hShares, hProven, hLen⟩ :=
      ih hRest (le_trans hStart (le_of_lt hLt))
    obtain ⟨range, hRange, hFirst, hHere, hThis⟩ :=
      proveSubRange_ok hSound hData hRows hStart hLt (hNext.trans hStop) hRow hRoots
    have hCount : range.shares.length = next - first := by
      rw [hHere, length_take, length_drop, length_fetchedShares]
      omega
    refine ⟨(le_of_lt hLt).trans hNext, range :: ranges,
      mapM_cons_eq_ok.mpr ⟨range, ranges, hRange, hRanges, rfl⟩, ⟨hFirst, ?_⟩, ?_,
      forall_mem_cons.mpr ⟨hThis, hProven⟩, congrArg (· + 1) hLen⟩
    · rw [hCount, Nat.add_sub_cancel' (Nat.le_of_lt hLt)]
      exact hStarts
    · rw [flatMap_cons, hHere, hShares, show stop - first = (next - first) + (stop - next) by omega,
        take_add, drop_drop,
        show first - claimedStart square root data.ns + (next - first) = next - claimedStart square root data.ns by
          omega]

theorem proveBlobRange_ok {q m} (hm : 0 < m) (hEnd : q + m ≤ (square.shares data.ns).length) :
    ∃ proof, proveBlobRange square.dataWidth data (header.namespaceRowRoots data.ns)
        (claimedStart square root data.ns) (q, q + m) = .ok proof ∧ proof.Proves square root data.ns q m := by
  have hLast := claimedEnd_le hSound hData hRows
  have hWidth := claimedStart_lt hSound hData hRows (by omega)
  have hUsize : (namespaceRows square root data.ns).length * square.dataWidth ≤ D.usizeMax :=
    (mul_le_mul_right _ (length_filter_le ..)).trans square.fits
  obtain ⟨subRanges, hSplit, hNe, hTiles⟩ := splitBlobRangeByRows_ok q
    (claimedStart square root data.ns) (by omega) hm (by omega) hUsize
  obtain ⟨-, ranges, hRanges, hStarts, hShares, hProven, hLen⟩ :=
    proveSubRanges_ok hSound hData hRows hRoots hTiles (le_add_right _ _) (by omega)
  rw [Nat.add_sub_cancel_left, ← Nat.add_assoc, Nat.add_sub_cancel_left] at hShares
  refine ⟨⟨ranges⟩, ?_, hStarts, hShares, hProven⟩
  simp only [proveBlobRange, bind_eq_ok]
  refine ⟨subRanges, hSplit, ranges, hRanges, (), ?_, rfl⟩
  cases ranges with
  | nil => exact absurd (length_eq_zero_iff.mp hLen.symm) hNe
  | cons => rfl

theorem subNamespaceInclusionProofs_ok {toProve}
    (hRanges : ∀ range ∈ toProve, range.1 < range.2 ∧ range.2 ≤ (square.shares data.ns).length) :
    ∃ proofs, subNamespaceInclusionProofs header.rowLength data (header.namespaceRowRoots data.ns) toProve =
        .ok proofs ∧
      List.Forall₂ (fun proof range => proof.Proves square root data.ns range.1 (range.2 - range.1)) proofs
        toProve := by
  have hEach : ∀ range ∈ toProve, ∃ proof, proveBlobRange square.dataWidth data (header.namespaceRowRoots data.ns)
      (claimedStart square root data.ns) range = .ok proof ∧
        proof.Proves square root data.ns range.1 (range.2 - range.1) := by
    rintro ⟨q, stop⟩ hMem
    obtain ⟨hLt, _⟩ := hRanges _ hMem
    have hStop : q + (stop - q) = stop := Nat.add_sub_cancel' (Nat.le_of_lt hLt)
    have hProof := proveBlobRange_ok hSound hData hRows hRoots (q := q) (m := stop - q) (by omega) (by omega)
    rwa [hStop] at hProof
  obtain ⟨proofs, hProofs, hAll⟩ := exists_mapM_eq_ok hEach
  refine ⟨proofs, ?_, hAll⟩
  rw [subNamespaceInclusionProofs, rowLength_eq hRoots, firstRowOffset_eq hSound hData hRows]
  exact hProofs

end Fetched
end SovereignSdk.Celestia
