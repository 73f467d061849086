import Mathlib.Data.List.AList
import SovereignSdk.Library.LayeredMap
import SovereignSdk.Library.Trace

/-! A stack of levels of changes above a map: each level hides what is below it, and is merged into
the level below or dropped as a whole. The lowest level is a map in layers, which stays when its
pending changes are committed or discarded. -/

/-- The changes of the upper levels, the topmost first; `some none` is a deletion. -/
structure Overlays (ι ν : Type) where
  bottom : LayeredMap ι ν
  upper : List (ι → Option (Option ν))

namespace Overlays
open List Outcome
open LayeredMap (stacked change)
variable {ι ν : Type}

inductive Operation (ι ν : Type) where
  | get (i : ι)
  | set (i : ι) (v : ν)
  | delete (i : ι)
  | openLevel
  | commit
  | revert
deriving DecidableEq, Repr

def empty : Overlays ι ν := ⟨.empty, []⟩

def levels (o : Overlays ι ν) : List (ι → Option (Option ν)) := o.upper ++ [o.bottom.pending, o.bottom.committed]

def read (o : Overlays ι ν) (base : ι → Option ν) (i : ι) : Option ν :=
  (o.levels.findSome? fun level => level i).getD (base i)

def merge (o : Overlays ι ν) (changes : ι → Option (Option ν)) : Overlays ι ν :=
  match o.upper with
  | [] => { o with bottom := o.bottom.lay changes }
  | top :: rest => { o with upper := stacked changes top :: rest }

def openLevel (o : Overlays ι ν) : Overlays ι ν := { o with upper := (fun _ => none) :: o.upper }

def commit (o : Overlays ι ν) : Overlays ι ν :=
  match o.upper with
  | [] => { o with bottom := o.bottom.commit }
  | top :: rest => merge { o with upper := rest } top

def revert (o : Overlays ι ν) : Overlays ι ν :=
  match o.upper with
  | [] => { o with bottom := o.bottom.discard }
  | _ :: rest => { o with upper := rest }

variable [DecidableEq ι]

def write (o : Overlays ι ν) (i : ι) (v : Option ν) : Overlays ι ν := o.merge (change i v)

variable (base : ι → Option ν) (o : Overlays ι ν)

def perform (base : ι → Option ν) (o : Overlays ι ν) : Operation ι ν → Overlays ι ν × Option (Option ν)
  | .get i => (o, some (o.read base i))
  | .set i v => (o.write i (some v), none)
  | .delete i => (o.write i none, none)
  | .openLevel => (o.openLevel, none)
  | .commit => (o.commit, none)
  | .revert => (o.revert, none)

section Merging
omit [DecidableEq ι]

theorem read_nil (m : LayeredMap ι ν) (base : ι → Option ν) (i : ι) : read ⟨m, []⟩ base i = m.read base i := by
  simp only [read, levels, LayeredMap.read, LayeredMap.overlay, nil_append, findSome?_cons]
  cases m.pending i <;> cases m.committed i <;> rfl

theorem read_cons (m : LayeredMap ι ν) (top : ι → Option (Option ν)) (rest : List (ι → Option (Option ν)))
    (base : ι → Option ν) (i : ι) : read ⟨m, top :: rest⟩ base i = (top i).getD (read ⟨m, rest⟩ base i) := by
  simp only [read, levels, cons_append, findSome?_cons]
  cases top i <;> rfl

theorem stacked_assoc (a b c : ι → Option (Option ν)) : stacked (stacked a b) c = stacked a (stacked b c) := by
  funext i
  simp [stacked, Option.or_assoc]

theorem merge_merge (first second : ι → Option (Option ν)) :
    (o.merge first).merge second = o.merge (stacked second first) := by
  obtain ⟨bottom, upper⟩ := o
  cases upper <;> simp [merge, LayeredMap.lay, stacked_assoc]

theorem merge_none : o.merge (fun _ => none) = o := by
  obtain ⟨bottom, upper⟩ := o
  cases upper <;> rfl

end Merging

/-- Writes of different values, one after another, are merged as a whole. -/
theorem foldl_write {entries : List (Sigma fun _ : ι => Option ν)} (hKeys : entries.NodupKeys) (o : Overlays ι ν) :
    entries.foldl (fun o entry => o.write entry.1 entry.2) o = o.merge fun i => entries.dlookup i := by
  induction entries generalizing o with
  | nil => exact (merge_none o).symm
  | cons entry rest ih =>
    obtain ⟨hHead, hRest⟩ := nodupKeys_cons.mp hKeys
    rw [foldl_cons, ih hRest, write, merge_merge]
    congr 1
    funext i
    obtain ⟨k, v⟩ := entry
    by_cases hKey : i = k
    · subst hKey
      rw [stacked, dlookup_eq_none.mpr hHead, dlookup_cons_eq, change, if_pos rfl]
      rfl
    · rw [stacked, dlookup_cons_ne _ _ hKey, change, if_neg hKey, Option.or_none]

section Within
omit [DecidableEq ι]

def Within (kind : ν → Prop) (o : Overlays ι ν) : Prop :=
  ∀ level ∈ o.upper, ∀ i v, level i = some (some v) → kind v

variable {kind : ν → Prop} {o : Overlays ι ν}

section
variable (h : o.Within kind)
include h

theorem Within.merge {changes}
    (hChanges : ∀ i v, changes i = some (some v) → kind v) : (o.merge changes).Within kind := by
  obtain ⟨bottom, upper⟩ := o
  cases upper with
  | nil =>
    nofun
  | cons top rest =>
    intro level hLevel i v hValue
    cases hLevel with
    | head =>
      unfold stacked at hValue
      cases hChange : changes i with
      | none =>
        rw [hChange] at hValue
        exact h top mem_cons_self i v hValue
      | some change =>
        rw [hChange] at hValue
        exact hChanges i v (hChange.trans hValue)
    | tail _ hRest => exact h level (mem_cons_of_mem top hRest) i v hValue

theorem Within.commit : o.commit.Within kind := by
  obtain ⟨bottom, upper⟩ := o
  cases upper with
  | nil =>
    nofun
  | cons top rest =>
    have hRest : Within kind ⟨bottom, rest⟩ := fun level hLevel => h level (mem_cons_of_mem top hLevel)
    exact hRest.merge (h top mem_cons_self)

theorem Within.revert : o.revert.Within kind := by
  obtain ⟨bottom, upper⟩ := o
  cases upper with
  | nil => exact h
  | cons top rest => exact fun level hLevel => h level (mem_cons_of_mem top hLevel)

theorem Within.openLevel : o.openLevel.Within kind := by
  intro level hLevel i v hValue
  cases hLevel with
  | head => cases hValue
  | tail _ hRest => exact h level hRest i v hValue

end

end Within

/-- The values in the upper levels come from operations. -/
theorem Within.perform {kind : ν → Prop} {o : Overlays ι ν} (h : o.Within kind) {operation : Operation ι ν}
    (hSet : ∀ i v, operation = .set i v → kind v) (base : ι → Option ν) : (o.perform base operation).1.Within kind := by
  cases operation with
  | get i => exact h
  | set i v =>
    refine h.merge fun j w hChange => ?_
    unfold change at hChange
    split at hChange
    · cases hChange
      exact hSet i v rfl
    · cases hChange
  | delete i =>
    refine h.merge fun j w hChange => ?_
    unfold change at hChange
    split at hChange <;> cases hChange
  | openLevel => exact h.openLevel
  | commit => exact h.commit
  | revert => exact h.revert

section Hiding
omit [DecidableEq ι]

/-- Below `h` levels that have no value for `i` there is one that has deleted it. -/
def Hides (i : ι) : Nat → List (ι → Option (Option ν)) → Prop
  | 0, level :: _ => level i = some none
  | h + 1, level :: rest => (level i).join = none ∧ Hides i h rest
  | _, [] => False

variable {i : ι} {h : Nat} {below : ι → Option (Option ν)}

theorem Hides.findSome? {levels : List (ι → Option (Option ν))} (hHides : Hides i h levels) :
    levels.findSome? (fun level => level i) = some none := by
  induction levels generalizing h with
  | nil => cases h <;> exact hHides.elim
  | cons level rest ih =>
    cases h with
    | zero =>
      have hDeleted : level i = some none := hHides
      rw [findSome?_cons, hDeleted]
    | succ h =>
      obtain ⟨hNoValue, hRest⟩ := hHides
      rw [findSome?_cons]
      match hLevel : level i with
      | none => exact ih hRest
      | some none => rfl
      | some (some v) =>
        rw [hLevel] at hNoValue
        cases hNoValue

variable {o : Overlays ι ν}

theorem Hides.read (hHides : Hides i h o.levels) (base : ι → Option ν) : o.read base i = none := by
  rw [Overlays.read, hHides.findSome?]
  rfl

theorem join_over {above} (hAbove : (above i).join = none) (hBelow : (below i).join = none) :
    (stacked above below i).join = none := by
  unfold stacked
  match hLevel : above i with
  | none => exact hBelow
  | some none => rfl
  | some (some v) =>
    rw [hLevel] at hAbove
    cases hAbove

theorem over_deleted {above} (hAbove : (above i).join = none)
    (hBelow : below i = some none) : stacked above below i = some none := by
  unfold stacked
  match hLevel : above i with
  | none => exact hBelow
  | some none => rfl
  | some (some v) =>
    rw [hLevel] at hAbove
    cases hAbove

/-- Merging two levels keeps a deletion, one level closer to the top if it was not there. -/
theorem Hides.stacked {top rest}
    (hHides : Hides i h (top :: below :: rest)) : Hides i (h - 1) (LayeredMap.stacked top below :: rest) := by
  match h, hHides with
  | 0, hTop =>
    show LayeredMap.stacked top below i = some none
    rw [LayeredMap.stacked, show top i = some none from hTop]
    rfl
  | 1, ⟨hTop, hBelow⟩ => exact over_deleted hTop hBelow
  | h + 2, ⟨hTop, hBelow, hRest⟩ => exact ⟨join_over hTop hBelow, hRest⟩

/-- The level a deletion is in after a commit, counted from the top. -/
theorem Hides.commit (hHides : Hides i h o.levels) : Hides i (if o.upper = [] then 1 else h - 1) o.commit.levels := by
  obtain ⟨bottom, upper⟩ := o
  match upper with
  | [] =>
    have hMerged := Hides.stacked hHides
    refine ⟨rfl, ?_⟩
    match h, hHides, hMerged with
    | 0, _, hMerged => exact hMerged
    | 1, _, hMerged => exact hMerged
    | h + 2, ⟨_, _, hRest⟩, _ => cases h <;> exact hRest.elim
  | [top] =>
    exact Hides.stacked hHides
  | top :: below :: rest =>
    exact Hides.stacked hHides

theorem Hides.revert (hHides : Hides i (h + 1) o.levels) :
    Hides i (if o.upper = [] then 1 else h) o.revert.levels := by
  obtain ⟨bottom, upper⟩ := o
  match upper with
  | [] =>
    match h, hHides with
    | 0, ⟨_, hComm⟩ => exact ⟨rfl, hComm⟩
    | h + 1, ⟨_, _, hRest⟩ => cases h <;> exact hRest.elim
  | top :: rest =>
    exact hHides.2

end Hiding

variable {i : ι} {operations : List (Operation ι ν)}

theorem Hides.write {j : ι} {v : Option ν} {h : Nat} {o : Overlays ι ν} (hHides : Hides i h o.levels)
    (hWrite : v = none ∨ j ≠ i) : Hides i h (o.write j v).levels := by
  have hTop {level : ι → Option (Option ν)} {rest : List (ι → Option (Option ν))}
      (hLevels : Hides i h (level :: rest)) : Hides i h (LayeredMap.stacked (change j v) level :: rest) := by
    have hNone : (change j v i).join = none := by
      unfold change
      split
      · obtain rfl | hNe := hWrite
        · rfl
        · exact absurd ‹i = j›.symm hNe
      · rfl
    match h, hLevels with
    | 0, hDeleted => exact over_deleted hNone hDeleted
    | h + 1, ⟨hNoValue, hRest⟩ => exact ⟨join_over hNone hNoValue, hRest⟩
  obtain ⟨bottom, upper⟩ := o
  cases upper <;> exact hTop hHides

theorem hides_write_self (i : ι) : Hides i 0 (o.write i none).levels := by
  obtain ⟨bottom, upper⟩ := o
  cases upper <;> simp [write, merge, levels, Hides, LayeredMap.lay, stacked, change]

/-- None of the operations sets `i` or reverts its deletion, `h` levels below the top of a stack with
`depth` upper levels. -/
def Keeps (i : ι) : (depth h : Nat) → List (Operation ι ν) → Prop
  | _, _, [] => True
  | depth, h, .get _ :: rest => Keeps i depth h rest
  | depth, h, .set j _ :: rest => j ≠ i ∧ Keeps i depth h rest
  | depth, h, .delete _ :: rest => Keeps i depth h rest
  | depth, h, .openLevel :: rest => Keeps i (depth + 1) (h + 1) rest
  | depth, h, .commit :: rest => Keeps i (depth - 1) (if depth = 0 then 1 else h - 1) rest
  | depth, h, .revert :: rest => 0 < h ∧ Keeps i (depth - 1) (if depth = 0 then 1 else h - 1) rest

/-- The operations stay above a level: they close only what they have opened, `opened` levels so far. -/
def Inside : (opened : Nat) → List (Operation ι ν) → Prop
  | opened, [] => opened = 0
  | opened, .openLevel :: rest => Inside (opened + 1) rest
  | opened, .commit :: rest => 0 < opened ∧ Inside (opened - 1) rest
  | opened, .revert :: rest => 0 < opened ∧ Inside (opened - 1) rest
  | opened, _ :: rest => Inside opened rest

def run (base : ι → Option ν) (o : Overlays ι ν) (operations : List (Operation ι ν)) : Overlays ι ν :=
  (answers (perform base) o operations).1

section Depth

theorem length_write (i : ι) (v : Option ν) : (o.write i v).upper.length = o.upper.length := by
  obtain ⟨bottom, upper⟩ := o
  cases upper <;> rfl

omit [DecidableEq ι] in
theorem length_commit : o.commit.upper.length = o.upper.length - 1 := by
  obtain ⟨bottom, upper⟩ := o
  match upper with
  | [] => rfl
  | [top] => rfl
  | top :: below :: rest => rfl

omit [DecidableEq ι] in
theorem length_revert : o.revert.upper.length = o.upper.length - 1 := by
  obtain ⟨bottom, upper⟩ := o
  cases upper <;> rfl

end Depth

theorem run_append (before after : List (Operation ι ν)) :
    o.run base (before ++ after) = (o.run base before).run base after := by
  rw [run, answers_append]
  rfl

theorem getLast_answers (operations : List (Operation ι ν)) (i : ι) :
    (answers (perform base) o (operations ++ [.get i])).2.getLast? =
      some (some ((o.run base operations).read base i)) := by
  rw [answers_append]
  exact getLast?_concat

/-- What is deleted reads as absent until it is set, or until its deletion is reverted. -/
theorem run_keeps {base : ι → Option ν} {o : Overlays ι ν} {h : Nat} (hHides : Hides i h o.levels)
    (hKeeps : Keeps i o.upper.length h operations) : ((o.run base operations).read base i) = none := by
  induction operations generalizing o h with
  | nil => exact hHides.read base
  | cons operation rest ih =>
    cases operation with
    | get j => exact ih hHides hKeeps
    | set j v =>
      have hDepth : Keeps i (o.write j (some v)).upper.length h rest := by
        rw [length_write]
        exact hKeeps.2
      exact ih (hHides.write (.inr hKeeps.1)) hDepth
    | delete j =>
      have hDepth : Keeps i (o.write j none).upper.length h rest := by
        rw [length_write]
        exact hKeeps
      exact ih (hHides.write (.inl rfl)) hDepth
    | openLevel => exact @ih o.openLevel (h + 1) ⟨rfl, hHides⟩ hKeeps
    | commit =>
      have hDepth : Keeps i o.commit.upper.length (if o.upper = [] then 1 else h - 1) rest := by
        rw [length_commit]
        simpa only [Keeps, length_eq_zero_iff] using hKeeps
      exact ih hHides.commit hDepth
    | revert =>
      obtain ⟨hPos, hKeeps⟩ := hKeeps
      cases h with
      | zero => cases hPos
      | succ h =>
        have hDepth : Keeps i o.revert.upper.length (if o.upper = [] then 1 else h) rest := by
          rw [length_revert]
          simpa only [length_eq_zero_iff, Nat.add_sub_cancel] using hKeeps
        exact ih hHides.revert hDepth

theorem run_deleted (hKeeps : Keeps i o.upper.length 0 operations) :
    (o.run base (.delete i :: operations)).read base i = none := by
  show ((o.write i none).run base operations).read base i = none
  refine run_keeps (hides_write_self o i) ?_
  rw [length_write]
  exact hKeeps

theorem run_inside {base : ι → Option ν} {o : Overlays ι ν}
    {above : List (ι → Option (Option ν))} {top : ι → Option (Option ν)} {rest : List (ι → Option (Option ν))}
    (hUpper : o.upper = above ++ top :: rest) (hInside : Inside above.length operations) :
    ∃ top', o.run base operations = { bottom := o.bottom, upper := top' :: rest } := by
  induction operations generalizing o above top with
  | nil =>
    obtain rfl := length_eq_zero_iff.mp hInside
    exact ⟨top, by rw [← show o.upper = top :: rest from hUpper]; rfl⟩
  | cons operation operations ih =>
    obtain ⟨bottom, upper⟩ := o
    subst hUpper
    have hWrite (i : ι) (v : Option ν) (hInside : Inside above.length operations) :
        ∃ top', run base (write ⟨bottom, above ++ top :: rest⟩ i v) operations = ⟨bottom, top' :: rest⟩ := by
      cases above with
      | nil => exact @ih ⟨bottom, stacked (change i v) top :: rest⟩ [] _ rfl hInside
      | cons first others =>
        exact @ih ⟨bottom, stacked (change i v) first :: (others ++ top :: rest)⟩
          (stacked (change i v) first :: others) top rfl hInside
    cases operation with
    | get i => exact ih rfl hInside
    | set i v => exact hWrite i (some v) hInside
    | delete i => exact hWrite i none hInside
    | openLevel =>
      exact @ih ⟨bottom, (fun _ => none) :: (above ++ top :: rest)⟩ ((fun _ => none) :: above) top rfl hInside
    | commit =>
      obtain ⟨hPos, hInside⟩ := hInside
      match above with
      | [] => cases hPos
      | [first] => exact @ih ⟨bottom, stacked first top :: rest⟩ [] _ rfl hInside
      | first :: second :: others =>
        exact @ih ⟨bottom, stacked first second :: (others ++ top :: rest)⟩ (stacked first second :: others) top rfl
          hInside
    | revert =>
      obtain ⟨hPos, hInside⟩ := hInside
      match above with
      | [] => cases hPos
      | first :: others => exact @ih ⟨bottom, others ++ top :: rest⟩ others top rfl hInside

/-- A level that is opened and reverted leaves no trace. -/
theorem run_reverted (hInside : Inside 0 operations) : o.run base (.openLevel :: (operations ++ [.revert])) = o := by
  obtain ⟨top, hRun⟩ := @run_inside _ _ _ operations base o.openLevel [] _ o.upper rfl hInside
  show o.openLevel.run base (operations ++ [.revert]) = o
  rw [run_append, hRun]
  rfl

end Overlays
