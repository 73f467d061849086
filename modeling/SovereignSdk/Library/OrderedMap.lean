import Mathlib.Data.List.Pairwise
import Mathlib.Data.List.Sort
import Mathlib.Order.Basic
import Mathlib.Order.Lattice

/-! Finite maps kept as strictly ascending lists of entries, iterated in key
order. -/

/-- A finite map whose entries are listed by strictly ascending key. -/
structure OrderedMap (κ ν : Type) [LinearOrder κ] where
  entries : List (κ × ν)
  ascending : entries.Pairwise fun x y => x.1 < y.1

namespace OrderedMap
open List Prod
variable {κ ν : Type} [LinearOrder κ]

def empty : OrderedMap κ ν := ⟨[], List.Pairwise.nil⟩

/-- Insert an entry at its place, replacing the entry of the same key. -/
def insertEntry (k : κ) (v : ν) : List (κ × ν) → List (κ × ν)
  | [] => [(k, v)]
  | e :: rest =>
    if k < e.1 then (k, v) :: e :: rest
    else if k = e.1 then (k, v) :: rest
    else e :: insertEntry k v rest

variable {k : κ} {v : ν} {e : κ × ν} {m : OrderedMap κ ν} {l : List (κ × ν)}

theorem mem_insertEntry (hl : l.Pairwise fun x y => x.1 < y.1) :
    e ∈ insertEntry k v l ↔ e = (k, v) ∨ (e.1 ≠ k ∧ e ∈ l) := by
  induction l with
  | nil => simp [insertEntry]
  | cons d rest ih =>
    obtain ⟨hHead, hRest⟩ := pairwise_cons.mp hl
    unfold insertEntry
    split
    · -- the new key is below every key of the list
      rename_i hlt
      have hAll : ∀ e ∈ d :: rest, e.1 ≠ k := by
        intro e he
        rcases mem_cons.mp he with rfl | he
        · exact hlt.ne'
        · exact (hlt.trans (hHead e he)).ne'
      rw [mem_cons]
      exact or_congr_right ⟨fun he => ⟨hAll e he, he⟩, fun he => he.2⟩
    · split
      · rename_i _ heq
        subst heq
        have hAll : ∀ e ∈ rest, e.1 ≠ d.1 := fun e he => (hHead e he).ne'
        simp only [mem_cons]
        refine or_congr_right ⟨fun he => ⟨hAll e he, .inr he⟩, ?_⟩
        rintro ⟨hne, rfl | he⟩
        · exact absurd rfl hne
        · exact he
      · rename_i _ hne
        rw [mem_cons, ih hRest, mem_cons]
        constructor
        · rintro (rfl | rfl | ⟨hek, he⟩)
          · exact .inr ⟨fun h => hne h.symm, .inl rfl⟩
          · exact .inl rfl
          · exact .inr ⟨hek, .inr he⟩
        · rintro (rfl | ⟨hek, rfl | he⟩)
          · exact .inr (.inl rfl)
          · exact .inl rfl
          · exact .inr (.inr ⟨hek, he⟩)

theorem insertEntry_ascending (hl : l.Pairwise fun x y => x.1 < y.1) :
    (insertEntry k v l).Pairwise fun x y => x.1 < y.1 := by
  induction l with
  | nil => simp [insertEntry]
  | cons d rest ih =>
    obtain ⟨hHead, hRest⟩ := pairwise_cons.mp hl
    unfold insertEntry
    split
    · rename_i hlt
      refine pairwise_cons.mpr ⟨?_, hl⟩
      intro e he
      rcases mem_cons.mp he with rfl | he
      · exact hlt
      · exact hlt.trans (hHead e he)
    · split
      · rename_i _ heq
        subst heq
        exact pairwise_cons.mpr ⟨hHead, hRest⟩
      · rename_i hge hne
        refine pairwise_cons.mpr ⟨?_, ih hRest⟩
        intro e he
        rcases (mem_insertEntry hRest).mp he with rfl | ⟨-, he⟩
        · exact lt_of_le_of_ne (not_lt.mp hge) (fun h => hne h.symm)
        · exact hHead e he

def insert (m : OrderedMap κ ν) (k : κ) (v : ν) : OrderedMap κ ν :=
  ⟨insertEntry k v m.entries, insertEntry_ascending m.ascending⟩

def splitOff (m : OrderedMap κ ν) (k : κ) : OrderedMap κ ν :=
  ⟨m.entries.filter fun e => k ≤ e.1, m.ascending.filter _⟩

@[simp] theorem entries_empty : (empty : OrderedMap κ ν).entries = [] := rfl

@[simp] theorem mem_insert : e ∈ (m.insert k v).entries ↔ e = (k, v) ∨ (e.1 ≠ k ∧ e ∈ m.entries) :=
  mem_insertEntry m.ascending

@[simp] theorem mem_splitOff : e ∈ (m.splitOff k).entries ↔ e ∈ m.entries ∧ k ≤ e.1 := by
  simp [splitOff]

section
variable (m : OrderedMap κ ν)

theorem value_unique {w} (hv : (k, v) ∈ m.entries) (hw : (k, w) ∈ m.entries) : v = w := by
  have h := m.ascending
  generalize m.entries = l at h hv hw
  induction l with
  | nil => simp at hv
  | cons d rest ih =>
    obtain ⟨hHead, hRest⟩ := pairwise_cons.mp h
    rcases mem_cons.mp hv with hvd | hvr <;> rcases mem_cons.mp hw with hwd | hwr
    · exact (Prod.mk.inj (hvd.trans hwd.symm)).2
    · exact absurd (congrArg fst hvd.symm) (hHead _ hwr).ne
    · exact absurd (congrArg fst hwd.symm) (hHead _ hvr).ne
    · exact ih hRest hvr hwr

theorem countP_key_le_one (k : κ) : (m.entries.countP fun e => e.1 = k) ≤ 1 := by
  obtain ⟨entries, hAsc⟩ := m
  induction entries with
  | nil => simp
  | cons e rest ih =>
    obtain ⟨hHead, hRest⟩ := pairwise_cons.mp hAsc
    by_cases hk : e.1 = k
    · have hNone : (rest.countP fun e => e.1 = k) = 0 := by
        simp only [countP_eq_zero, decide_eq_true_eq]
        exact fun d hd => hk ▸ (hHead d hd).ne'
      simp [hk, hNone]
    · simpa [hk] using ih hRest

/-- The entries of the keys from `lo` on and below `hi` are dropped. -/
def removeRange (lo hi : κ) : OrderedMap κ ν :=
  ⟨m.entries.filter fun e => ¬(lo ≤ e.1 ∧ e.1 < hi), m.ascending.filter _⟩

/-- The entries at and above `k`, in the order in which an iterator positioned at `k` visits them. -/
def seek (k : κ) : List (κ × ν) := m.entries.dropWhile fun e => e.1 < k

theorem ascending_nodup (hl : l.Pairwise fun x y => x.1 < y.1) : l.Nodup :=
  hl.imp fun hlt heq => hlt.ne (congrArg fst heq)

theorem eq_of_mem_iff {l'} (hl : l.Pairwise fun x y => x.1 < y.1)
    (hl' : l'.Pairwise fun x y => x.1 < y.1) (h : ∀ e, e ∈ l ↔ e ∈ l') : l = l' := by
  refine List.Perm.eq_of_pairwise (fun a b _ _ hab hba => absurd hba hab.asymm) hl hl' ?_
  exact (perm_ext_iff_of_nodup (ascending_nodup hl) (ascending_nodup hl')).mpr h

def erase (k : κ) : OrderedMap κ ν :=
  ⟨m.entries.filter fun e => e.1 ≠ k, m.ascending.filter _⟩

end

@[simp] theorem mem_erase : e ∈ (m.erase k).entries ↔ e ∈ m.entries ∧ e.1 ≠ k := by
  simp [erase]

theorem insert_perm_erase (m : OrderedMap κ ν) (k : κ) (v : ν) :
    (m.insert k v).entries.Perm ((k, v) :: (m.erase k).entries) := by
  refine (perm_ext_iff_of_nodup (ascending_nodup (m.insert k v).ascending) ?_).mpr fun e => ?_
  · exact nodup_cons.mpr ⟨by simp, ascending_nodup (m.erase k).ascending⟩
  · rw [mem_insert, mem_cons, mem_erase, and_comm]

theorem insert_perm (v : ν) (hNew : ∀ e ∈ m.entries, e.1 ≠ k) :
    (m.insert k v).entries.Perm ((k, v) :: m.entries) := by
  have hErase : (m.erase k).entries = m.entries := filter_eq_self.mpr fun e he => by simpa using hNew e he
  exact hErase ▸ m.insert_perm_erase k v

theorem insert_eq_self (h : (k, v) ∈ m.entries) : (m.insert k v).entries = m.entries := by
  refine eq_of_mem_iff (m.insert k v).ascending m.ascending fun e => ?_
  rw [mem_insert]
  constructor
  · rintro (rfl | he)
    · exact h
    · exact he.2
  · intro he
    by_cases hk : e.1 = k
    · subst hk
      exact .inl (Prod.ext rfl (m.value_unique he h))
    · exact .inr ⟨hk, he⟩

theorem filter_insert_of_not {p : κ → Bool} (hk : p k = false) :
    ((m.insert k v).entries.filter fun e => p e.1) = m.entries.filter fun e => p e.1 := by
  refine eq_of_mem_iff ((m.insert k v).ascending.filter _) (m.ascending.filter _) fun e => ?_
  simp only [mem_filter, mem_insert]
  constructor
  · rintro ⟨rfl | ⟨-, he⟩, hp⟩
    · exact absurd hp (by simp [hk])
    · exact ⟨he, hp⟩
  · rintro ⟨he, hp⟩
    refine ⟨.inr ⟨?_, he⟩, hp⟩
    rintro rfl
    simp [hk] at hp

theorem filter_insert_last {p : κ → Bool} (hk : p k = true)
    (hLast : ∀ e ∈ m.entries, p e.1 = true → e.1 < k) :
    ((m.insert k v).entries.filter fun e => p e.1) = (m.entries.filter fun e => p e.1) ++ [(k, v)] := by
  refine eq_of_mem_iff ((m.insert k v).ascending.filter _) ?_ fun e => ?_
  · refine pairwise_append.mpr ⟨m.ascending.filter _, pairwise_singleton _ _, ?_⟩
    intro e he d hd
    obtain ⟨he, hp⟩ := mem_filter.mp he
    rw [mem_singleton.mp hd]
    exact hLast e he hp
  · simp only [mem_filter, mem_insert, mem_append, mem_singleton]
    constructor
    · rintro ⟨rfl | ⟨-, he⟩, hp⟩
      · exact .inr rfl
      · exact .inl ⟨he, hp⟩
    · rintro (⟨he, hp⟩ | rfl)
      · exact ⟨.inr ⟨(hLast e he hp).ne, he⟩, hp⟩
      · exact ⟨.inl rfl, hk⟩

theorem insert_last (hLast : ∀ e ∈ m.entries, e.1 < k) : (m.insert k v).entries = m.entries ++ [(k, v)] := by
  simpa using @filter_insert_last _ _ _ k v m (fun _ => true) rfl fun e he _ => hLast e he

/-- The entries of one group stand next to each other where the groups are ordered as the keys are: an
iterator positioned at the least key of a group that stops at the first key of another group visits just
the group. -/
theorem seek_takeWhile {α : Type} [LinearOrder α] (m : OrderedMap κ ν) {group : κ → α} (hGroup : Monotone group)
    (hLeast : ∀ j, group j = group k → k ≤ j) :
    ((m.seek k).takeWhile fun e => group e.1 = group k) = m.entries.filter fun e => group e.1 = group k := by
  obtain ⟨entries, hAsc⟩ := m
  unfold seek
  induction entries with
  | nil => rfl
  | cons e rest ih =>
    obtain ⟨hHead, hRest⟩ := pairwise_cons.mp hAsc
    by_cases hBelow : e.1 < k
    · have hOther : group e.1 ≠ group k := fun h => absurd hBelow (not_lt.mpr (hLeast e.1 h))
      simpa [hBelow, hOther] using ih hRest
    · have hNot : ∀ d ∈ rest, ¬d.1 < k := fun d hd => not_lt.mpr ((not_lt.mp hBelow).trans (hHead d hd).le)
      have hDrop : (rest.dropWhile fun e => decide (e.1 < k)) = rest := by
        cases rest with
        | nil => rfl
        | cons d rest => simp [hNot d mem_cons_self]
      have ih := ih hRest
      rw [hDrop] at ih
      by_cases hSame : group e.1 = group k
      · simpa [hBelow, hSame] using ih
      · -- past the group every later key is in a later group
        have hAbove : group k < group e.1 := lt_of_le_of_ne (hGroup (not_lt.mp hBelow)) (Ne.symm hSame)
        have hNone : ∀ d ∈ rest, group d.1 ≠ group k := by
          intro d hd
          exact (hAbove.trans_le (hGroup (hHead d hd).le)).ne'
        simp only [dropWhile_cons, hBelow, decide_false, Bool.false_eq_true, if_false, takeWhile_cons,
          hSame, filter_cons]
        symm
        exact filter_eq_nil_iff.mpr fun d hd => by simpa using hNone d hd

def lookup (m : OrderedMap κ ν) (k : κ) : Option ν := (m.entries.find? fun e => e.1 = k).map snd

theorem lookup_eq_some : m.lookup k = some v ↔ (k, v) ∈ m.entries := by
  unfold lookup
  constructor
  · intro h
    obtain ⟨e, he, rfl⟩ := Option.map_eq_some_iff.mp h
    have hKey : e.1 = k := by simpa using find?_some he
    exact hKey ▸ mem_of_find?_eq_some he
  · intro h
    cases hFind : m.entries.find? fun e => e.1 = k with
    | none => exact absurd (find?_eq_none.mp hFind (k, v) h) (by simp)
    | some e =>
      have hKey : e.1 = k := by simpa using find?_some hFind
      have he : (k, e.2) ∈ m.entries := hKey ▸ mem_of_find?_eq_some hFind
      exact congrArg some (m.value_unique he h)

def lastKey (m : OrderedMap κ ν) : Option κ := m.entries.getLast?.map fst

theorem le_lastKey (h : m.lastKey = some k) (he : e ∈ m.entries) : e.1 ≤ k := by
  obtain ⟨last, hLast, rfl⟩ := Option.map_eq_some_iff.mp h
  obtain ⟨before, hEntries⟩ := getLast?_eq_some_iff.mp hLast
  have hAsc := m.ascending
  rw [hEntries] at hAsc he
  rcases mem_append.mp he with he | he
  · exact ((pairwise_append.mp hAsc).2.2 e he last (mem_singleton_self last)).le
  · rw [mem_singleton.mp he]

section Sorting
variable {l l' : List (κ × ν)}

theorem insertionSort_ascending (hKeys : (l.map fst).Nodup) :
    (l.insertionSort fun a b => a.1 ≤ b.1).Pairwise fun a b => a.1 < b.1 := by
  have hSorted := l.pairwise_insertionSort fun a b : κ × ν => a.1 ≤ b.1
  have hDistinct : (l.insertionSort fun a b => a.1 ≤ b.1).Pairwise fun a b => a.1 ≠ b.1 := by
    have hPerm := (perm_insertionSort (fun a b : κ × ν => a.1 ≤ b.1) l).map fst
    exact pairwise_map.mp (hPerm.nodup_iff.mpr hKeys)
  exact hSorted.imp₂ (fun _ _ => lt_of_le_of_ne) hDistinct

theorem insertionSort_eq_of_perm (hKeys : (l.map fst).Nodup) (hPerm : l.Perm l') :
    l.insertionSort (fun a b => a.1 ≤ b.1) = l'.insertionSort fun a b => a.1 ≤ b.1 := by
  have hKeys' : (l'.map fst).Nodup := (hPerm.map fst).nodup_iff.mp hKeys
  refine List.Perm.eq_of_pairwise (fun a b _ _ h h' => absurd h' h.asymm) (insertionSort_ascending hKeys)
    (insertionSort_ascending hKeys') ?_
  exact (perm_insertionSort _ l).trans (hPerm.trans (perm_insertionSort _ l').symm)

end Sorting

end OrderedMap
