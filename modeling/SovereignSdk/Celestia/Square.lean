import Mathlib.Data.List.Flatten
import Mathlib.Data.List.SplitBy
import SovereignSdk.Celestia.Verifier
import SovereignSdk.Library.Segments

/-! The extended data square of a block: which shares lie in a namespace, and what a proof
against the root of a row says about them. -/
namespace SovereignSdk.Celestia
open Outcome Segments List CelestiaHeader Prod

variable {D : DaTypes}

abbrev Row (D : DaTypes) := List (D.Namespace × D.ShareData)

def dataShares (k : Nat) (rows : List (Row D)) : Row D := (rows.map (·.take k)).flatten

def sharesOf (k : Nat) (rows : List (Row D)) (ns : D.Namespace) : List D.ShareData :=
  (stretch fst ns (dataShares k rows)).map snd

/-- A blob is the share that starts it with all shares up to the next start. -/
def blobsOf (shares : List D.ShareData) : List (List D.ShareData) :=
  shares.splitBy fun _ next => !D.sequenceStartField next

/-- A square with its parity data. Shares are ordered by namespace, and outside of the parity
data a blob has the shares that its length asks for. -/
structure ExtendedDataSquare (D : DaTypes) where
  rows : List (Row D)
  row_length : ∀ row ∈ rows, row.length = rows.length
  parity : ∀ row ∈ rows, ∀ leaf ∈ row.drop (rows.length / 2), leaf.1 = D.parityShare
  ordered : (dataShares (rows.length / 2) rows).Pairwise fun a b => a.1 ≤ b.1
  sequences : ∀ ns ≠ D.parityShare, ∀ blob ∈ blobsOf (sharesOf (rows.length / 2) rows ns), ∀ first ∈ blob.head?,
    D.sequenceStartField first = true → sharesNeededForBytes (D.sequenceLengthField first) ≤ blob.length
  fits : rows.length * (rows.length / 2) ≤ D.usizeMax

namespace ExtendedDataSquare
variable (square : ExtendedDataSquare D)

def dataWidth : Nat := square.rows.length / 2

def shares (ns : D.Namespace) : List D.ShareData :=
  sharesOf square.dataWidth square.rows ns

/-- The blobs of a namespace as they are laid out, padding included. -/
def blobs (ns : D.Namespace) : List (List D.ShareData) :=
  blobsOf (square.shares ns)

end ExtendedDataSquare

/-- What is assumed of namespaced Merkle trees, whose roots do not count the parity data of a
row: a root tells which namespaces its row may hold; a range proof verifies only for the leaves
at its own start index, and the siblings it reports are the true ones; without leaves a namespace
is complete only if the row has none. -/
structure NmtSound (square : ExtendedDataSquare D) (root : Row D → D.NamespacedHash) : Prop where
  contains : ∀ {row ns}, row ∈ square.rows → ns ≠ D.parityShare → D.contains (root row) ns = false →
    ∀ leaf ∈ row, leaf.1 ≠ ns
  range : ∀ {row proof leaves ns}, row ∈ square.rows → ns ≠ D.parityShare →
    D.verifyRange proof (root row) leaves ns = true →
      (row.drop (D.startIdx proof)).take leaves.length = leaves.map fun data => (ns, data)
  left : ∀ {row proof leaves ns sibling}, row ∈ square.rows → ns ≠ D.parityShare → leaves ≠ [] →
    D.verifyRange proof (root row) leaves ns = true → 0 < D.startIdx proof →
      D.rightmostLeftSibling proof = some sibling → ∃ leaf, row[D.startIdx proof - 1]? = some leaf ∧ leaf.1 = D.maxNamespace sibling
  right : ∀ {row proof leaves ns sibling}, row ∈ square.rows → ns ≠ D.parityShare → leaves ≠ [] →
    D.verifyRange proof (root row) leaves ns = true → D.leftmostRightSibling proof = some sibling →
      ∃ leaf, row[D.startIdx proof + leaves.length]? = some leaf ∧ leaf.1 = D.minNamespace sibling
  complete : ∀ {row proof ns}, row ∈ square.rows → ns ≠ D.parityShare →
    D.verifyCompleteNamespace proof (root row) [] ns = true → ∀ leaf ∈ row, leaf.1 ≠ ns

/-- The header of the block with this square: it has the hash of the square's roots, and the
roots that come with it do not collide with them. -/
structure CelestiaHeader.IsOf (header : CelestiaHeader D) (square : ExtendedDataSquare D)
    (root : Row D → D.NamespacedHash) : Prop where
  commits : ∃ columnRoots, header.dataHash = some (D.dahHash ⟨square.rows.map root, columnRoots⟩) ∧
    (D.dahHash header.dah = D.dahHash ⟨square.rows.map root, columnRoots⟩ →
      header.dah = ⟨square.rows.map root, columnRoots⟩)

variable {square : ExtendedDataSquare D} {root : Row D → D.NamespacedHash} {header : CelestiaHeader D}
  {ns : D.Namespace}

theorem CelestiaHeader.IsOf.rowRoots (h : header.IsOf square root) (hDah : header.validateDah = .ok ()) :
    header.dah.rowRoots = square.rows.map root := by
  obtain ⟨columnRoots, hHash, hSame⟩ := h.commits
  simp only [validateDah, hHash, unwrap_some, ok_bind, bind_eq_ok, ensure_eq_ok] at hDah
  obtain ⟨-, -, hRoot⟩ := hDah
  rw [hSame hRoot]

def namespaceRows (square : ExtendedDataSquare D) (root : Row D → D.NamespacedHash) (ns : D.Namespace) : List (Row D) :=
  square.rows.filter fun row => D.contains (root row) ns

theorem namespaceRowRoots_eq (hRoots : header.dah.rowRoots = square.rows.map root) :
    header.namespaceRowRoots ns = (namespaceRows square root ns).map root := by
  rw [namespaceRowRoots, hRoots, filter_map]
  rfl

theorem rowLength_eq (hRoots : header.dah.rowRoots = square.rows.map root) : header.rowLength = square.dataWidth := by
  rw [rowLength, squareWidth, hRoots, length_map]
  rfl

variable {row : Row D} {j : Nat} {proof : D.NamespaceProof} {leaves : List D.ShareData}

theorem mem_rows (h : row ∈ namespaceRows square root ns) : row ∈ square.rows :=
  (mem_filter.mp h).1

/-- The data of the rows that may hold the namespace; positions in the proofs refer to it. -/
def namespaceData (square : ExtendedDataSquare D) (root : Row D → D.NamespacedHash) (ns : D.Namespace) : Row D :=
  dataShares square.dataWidth (namespaceRows square root ns)

theorem namespaceData_ordered : (namespaceData square root ns).Pairwise fun a b => a.1 ≤ b.1 :=
  square.ordered.sublist (filter_sublist.map _).flatten

theorem shares_eq (hSound : NmtSound square root) (hParity : ns ≠ D.parityShare) :
    square.shares ns = (stretch fst ns (namespaceData square root ns)).map snd := by
  have hOther : ∀ row ∈ square.rows, D.contains (root row) ns = false →
      stretch fst ns (row.take square.dataWidth) = [] := by
    intro row hRow hNot
    refine filter_eq_nil_iff.mpr fun leaf hLeaf => ?_
    simpa using hSound.contains hRow hParity hNot leaf (mem_of_mem_take hLeaf)
  unfold ExtendedDataSquare.shares sharesOf namespaceData namespaceRows dataShares
  congr 1
  generalize square.rows = rows at hOther
  induction rows with
  | nil => rfl
  | cons row rest ih =>
    have ih := ih fun r hr => hOther r (mem_cons_of_mem row hr)
    unfold stretch at ih hOther ⊢
    cases hContains : D.contains (root row) ns with
    | true =>
      rw [filter_cons_of_pos (by simpa using hContains), map_cons, map_cons, flatten_cons,
        flatten_cons, filter_append, filter_append, ih]
    | false =>
      rw [filter_cons_of_neg (by simpa using hContains), map_cons, flatten_cons,
        filter_append, ih, hOther row mem_cons_self hContains, nil_append]

def namespaceStart (square : ExtendedDataSquare D) (root : Row D → D.NamespacedHash) (ns : D.Namespace) : Nat :=
  (lower fst ns (namespaceData square root ns)).length

theorem namespaceData_rows (h : row ∈ (namespaceRows square root ns).map (·.take square.dataWidth)) :
    row.length = square.dataWidth := by
  obtain ⟨full, hFull, rfl⟩ := mem_map.mp h
  rw [length_take, square.row_length full (mem_rows hFull), ExtendedDataSquare.dataWidth]
  omega

theorem namespaceData_length :
    (namespaceData square root ns).length = (namespaceRows square root ns).length * square.dataWidth := by
  unfold namespaceData dataShares
  rw [length_flatten_rows fun _ => namespaceData_rows, length_map]

theorem rows_before_last (hRow : (namespaceRows square root ns)[(namespaceRows square root ns).length - 1]? = some row) :
    (namespaceRows square root ns).length * square.dataWidth =
      ((namespaceRows square root ns).length - 1) * square.dataWidth + square.dataWidth := by
  have := (List.getElem?_eq_some_iff.mp hRow).1
  rw [← Nat.succ_mul]
  congr 1
  omega

theorem namespaceData_getElem? {c} (hRow : (namespaceRows square root ns)[j]? = some row)
    (hc : c < square.dataWidth) : (namespaceData square root ns)[j * square.dataWidth + c]? = row[c]? := by
  unfold namespaceData dataShares
  rw [getElem?_flatten_rows (fun _ => namespaceData_rows) hc, getElem?_map, hRow]
  exact getElem?_take_of_lt hc

theorem column_lt (hParity : ns ≠ D.parityShare) (hRow : row ∈ square.rows) {c data}
    (hLeaf : row[c]? = some (ns, data)) : c < square.dataWidth := by
  by_contra _
  refine hParity (square.parity row hRow (ns, data) ?_)
  refine mem_of_getElem? (i := c - square.dataWidth) ?_
  rw [getElem?_drop]
  rw [← hLeaf]
  congr 1
  show square.dataWidth + (c - square.dataWidth) = c
  omega

section
variable (hSound : NmtSound square root)
include hSound

theorem verifyRange_getElem? (hParity : ns ≠ D.parityShare) (hRow : (namespaceRows square root ns)[j]? = some row)
    (hVer : D.verifyRange proof (root row) leaves ns = true) {t} (ht : t < leaves.length) :
    D.startIdx proof + t < square.dataWidth ∧
      (namespaceData square root ns)[j * square.dataWidth + (D.startIdx proof + t)]? = some (ns, leaves[t]) := by
  have hMem : row ∈ square.rows := mem_rows (mem_of_getElem? hRow)
  have hHere : row[D.startIdx proof + t]? = some (ns, leaves[t]) := by
    have hTake := congrArg (·[t]?) (hSound.range hMem hParity hVer)
    simpa [ht] using hTake
  have hColumn := column_lt hParity hMem hHere
  rw [namespaceData_getElem? hRow hColumn, hHere]
  exact ⟨hColumn, rfl⟩

/-- The shares that a range proof verifies are shares of the namespace, from its own place on. -/
theorem verifyRange_shares (hParity : ns ≠ D.parityShare) (hRow : (namespaceRows square root ns)[j]? = some row)
    (hVer : D.verifyRange proof (root row) leaves ns = true) (hLeaves : leaves ≠ []) :
    namespaceStart square root ns ≤ j * square.dataWidth + D.startIdx proof ∧
      leaves <+: (square.shares ns).drop
        (j * square.dataWidth + D.startIdx proof - namespaceStart square root ns) := by
  have hLeaf : ∀ t (ht : t < leaves.length), (namespaceData square root ns)[
      j * square.dataWidth + (D.startIdx proof + t)]? = some (ns, leaves[t]) :=
    fun t ht => (verifyRange_getElem? hSound hParity hRow hVer ht).2
  have hStart := le_index namespaceData_ordered (hLeaf 0 (length_pos_iff.mpr hLeaves)) (le_refl ns)
  refine ⟨hStart, prefix_iff_getElem?.mpr fun t ht => ?_⟩
  have hSeg := getElem?_stretch namespaceData_ordered (hLeaf t ht) rfl
  rw [getElem?_drop, shares_eq hSound hParity, getElem?_map]
  have hIndex : j * square.dataWidth + D.startIdx proof - namespaceStart square root ns + t =
      j * square.dataWidth + (D.startIdx proof + t) -
        (lower fst ns (namespaceData square root ns)).length := by
    unfold namespaceStart at hStart ⊢
    omega
  rw [hIndex, hSeg]
  rfl

theorem namespaceStart_eq (hParity : ns ≠ D.parityShare)
    (hRow : (namespaceRows square root ns)[0]? = some row) (hVer : D.verifyRange proof (root row) leaves ns = true)
    (hLeaves : leaves ≠ []) (hLeft : 0 < D.startIdx proof → ∃ sibling, D.rightmostLeftSibling proof = some sibling ∧
      D.maxNamespace sibling < ns) : namespaceStart square root ns = D.startIdx proof := by
  have hStart := (verifyRange_shares hSound hParity hRow hVer hLeaves).1
  rcases Nat.eq_zero_or_pos (D.startIdx proof) with _ | hPos
  · omega
  obtain ⟨sibling, hSib, hBelow⟩ := hLeft hPos
  obtain ⟨leaf, hLeaf, hMax⟩ := hSound.left (mem_rows (mem_of_getElem? hRow)) hParity hLeaves hVer hPos hSib
  have hColumn := (verifyRange_getElem? hSound hParity hRow hVer (length_pos_iff.mpr hLeaves)).1
  have hHere : (namespaceData square root ns)[D.startIdx proof - 1]? = some leaf := by
    have hCell := namespaceData_getElem? (c := D.startIdx proof - 1) hRow (by omega)
    rw [Nat.zero_mul, Nat.zero_add] at hCell
    rw [hCell, hLeaf]
  have hIndex := index_lt namespaceData_ordered hHere (hMax ▸ hBelow)
  unfold namespaceStart at hStart ⊢
  omega

theorem namespaceEnd_le (hParity : ns ≠ D.parityShare) :
    namespaceStart square root ns + (square.shares ns).length ≤
      (namespaceRows square root ns).length * square.dataWidth := by
  rw [shares_eq hSound hParity, length_map, ← namespaceData_length, namespaceStart]
  have hOrd : (namespaceData square root ns).Pairwise fun a b => a.1 ≤ b.1 := namespaceData_ordered
  conv_rhs => rw [eq_append hOrd (a := ns)]
  rw [length_append, length_append]
  omega

theorem namespaceEnd_le_of_sibling (hParity : ns ≠ D.parityShare)
    (hRow : (namespaceRows square root ns)[j]? = some row) {data}
    (hVer : D.verifyRange proof (root row) [data] ns = true) {sibling}
    (hSib : D.leftmostRightSibling proof = some sibling) (hAbove : ns < D.minNamespace sibling)
    (hColumn : D.startIdx proof + 1 < square.dataWidth) :
    namespaceStart square root ns + (square.shares ns).length ≤ j * square.dataWidth + D.startIdx proof + 1 := by
  obtain ⟨leaf, hLeaf, hMin⟩ := hSound.right (mem_rows (mem_of_getElem? hRow)) hParity (cons_ne_nil _ _) hVer hSib
  have hHere : (namespaceData square root ns)[j * square.dataWidth + (D.startIdx proof + 1)]? = some leaf := by
    rw [namespaceData_getElem? hRow hColumn, ← hLeaf]
    rfl
  have hEnd := end_le_index namespaceData_ordered hHere (hMin ▸ hAbove)
  rw [shares_eq hSound hParity, length_map]
  unfold namespaceStart
  omega

theorem blobs_eq_nil (hParity : ns ≠ D.parityShare)
    (hNone : ∀ row ∈ namespaceRows square root ns, ∀ leaf ∈ row, leaf.1 ≠ ns) : square.blobs ns = [] := by
  have hSeg : stretch fst ns (namespaceData square root ns) = [] := by
    refine filter_eq_nil_iff.mpr fun leaf hLeaf => ?_
    obtain ⟨row, hRow, hMem⟩ := mem_flatten.mp hLeaf
    obtain ⟨full, hFull, rfl⟩ := mem_map.mp hRow
    simpa using hNone full hFull leaf (mem_of_mem_take hMem)
  rw [ExtendedDataSquare.blobs, shares_eq hSound hParity, hSeg]
  rfl

end

theorem blobsOf_cons {shares blob} (h : blob ∈ blobsOf shares) :
    ∃ first rest, blob = first :: rest ∧ ∀ data ∈ rest, D.sequenceStartField data = false := by
  have hChain := isChain_of_mem_splitBy h
  have hNe := ne_nil_of_mem_splitBy h
  obtain ⟨first, rest, rfl⟩ := exists_cons_of_ne_nil hNe
  refine ⟨first, rest, rfl, ?_⟩
  clear h hNe
  induction rest generalizing first with
  | nil => exact fun _ hMem => (nomatch hMem)
  | cons next rest ih =>
    obtain ⟨hNext, hRest⟩ := isChain_cons_cons.mp hChain
    rintro data (_ | ⟨_, hMem⟩)
    · simpa using hNext
    · exact ih next hRest data hMem

end SovereignSdk.Celestia
