import Mathlib.Logic.Function.Basic

/-! A map in layers: a base that does not change, committed changes above it, and pending
changes above those, which are committed or discarded as a whole. -/

/-- The two layers of changes; `some none` is a deletion. -/
structure LayeredMap (κ ν : Type) where
  committed : κ → Option (Option ν)
  pending : κ → Option (Option ν)

namespace LayeredMap
open LayeredMap Function
variable {κ ν : Type}

def empty : LayeredMap κ ν := ⟨fun _ => none, fun _ => none⟩

variable (m : LayeredMap κ ν)

def overlay (k : κ) : Option (Option ν) := (m.pending k).or (m.committed k)

def read (base : κ → Option ν) (k : κ) : Option ν := (m.overlay k).getD (base k)

def write [DecidableEq κ] (m : LayeredMap κ ν) (k : κ) (v : Option ν) : LayeredMap κ ν :=
  { m with pending := update m.pending k (some v) }

variable (m : LayeredMap κ ν)

@[simp] theorem pending_write_self [DecidableEq κ] (k : κ) (v : Option ν) :
    (m.write k v).pending k = some v := update_self ..

theorem pending_write_of_ne [DecidableEq κ] {k k'} (h : k' ≠ k) (v : Option ν) :
    (m.write k v).pending k' = m.pending k' := update_of_ne h ..

def commit : LayeredMap κ ν := ⟨m.overlay, fun _ => none⟩

def discard : LayeredMap κ ν := { m with pending := fun _ => none }

def comap {ι : Type} (m : LayeredMap ι ν) (f : κ → ι) : LayeredMap κ ν :=
  ⟨fun k => m.committed (f k), fun k => m.pending (f k)⟩

def stacked (above below : κ → Option (Option ν)) (k : κ) : Option (Option ν) := (above k).or (below k)

def change [DecidableEq κ] (k : κ) (v : Option ν) (k' : κ) : Option (Option ν) := if k' = k then some v else none

variable (changes : κ → Option (Option ν))

def lay : LayeredMap κ ν :=
  { m with pending := stacked changes m.pending }

theorem overlay_lay (k : κ) : (m.lay changes).overlay k = (changes k).or (m.overlay k) := by
  simp [overlay, lay, stacked, Option.or_assoc]

theorem lay_change [DecidableEq κ] (k : κ) (v : Option ν) : m.lay (change k v) = m.write k v := by
  simp only [lay, write, mk.injEq, true_and]
  funext k'
  by_cases hKey : k' = k
  · subst hKey
    simp [stacked, change]
  · simp [stacked, change, hKey]

theorem comap_lay_change {ι : Type} [DecidableEq ι] [DecidableEq κ] (m : LayeredMap ι ν) {f}
    (hInj : Injective f) (k : κ) (v : Option ν) :
    (m.lay (change (f k) v)).comap f = (m.comap f).write k v := by
  rw [← lay_change]
  simp only [comap, lay, mk.injEq, true_and]
  funext k'
  simp [stacked, change, hInj.eq_iff]

theorem comap_lay_other {ι : Type} [DecidableEq ι] (m : LayeredMap ι ν) {f : κ → ι} {i : ι}
    (hOther : ∀ k, f k ≠ i) (v : Option ν) : (m.lay (change i v)).comap f = m.comap f := by
  simp only [comap, lay, mk.injEq, true_and]
  funext k
  simp [stacked, change, hOther k]

end LayeredMap
