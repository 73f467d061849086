import Mathlib.Data.List.Basic
import Mathlib.Logic.Basic

/-! Pre- and postconditions for computations that return a value or stop with
an error, with the loop rule for monadic folds and the run rule for a partial
step function. -/
namespace Outcome
open List
variable {ε α β σ ι : Type} (e : ε)

/-- Continue only under the condition `c`; otherwise stop with `e`. -/
def ensure (c : Prop) [Decidable c] : Except ε Unit :=
  if c then .ok () else .error e

/-- The value held by an option; an empty option stops with `e`. -/
def unwrap : Option α → Except ε α
  | some a => .ok a
  | none => .error e

@[simp] theorem ensure_eq_ok {e : ε} {c : Prop} [Decidable c] {u : Unit} : ensure e c = .ok u ↔ c := by
  unfold ensure
  split <;> simp_all

@[simp] theorem unwrap_some (a : α) : unwrap e (some a) = .ok a := rfl

@[simp] theorem unwrap_none : unwrap e (none : Option α) = .error e := rfl

variable {a : α} {s' : σ} {l : List ι}

@[simp] theorem unwrap_eq_ok {e : ε} {o} : unwrap e o = .ok a ↔ o = some a := by
  cases o <;> simp

theorem ensure_eq_error {e e' : ε} {c : Prop} [Decidable c] : ensure e c = .error e' ↔ ¬c ∧ e = e' := by
  unfold ensure
  split <;> simp_all

theorem unwrap_eq_error {e e' : ε} {o : Option α} : unwrap e o = .error e' ↔ o = none ∧ e = e' := by
  cases o <;> simp

@[simp] theorem ok_bind (a : α) (f : α → Except ε β) : (Except.ok a >>= f) = f a := rfl

@[simp] theorem error_bind (f : α → Except ε β) : (Except.error e >>= f) = .error e := rfl

theorem pure_eq_ok {b} : (pure a : Except ε α) = .ok b ↔ a = b := by
  simp [pure, Except.pure]

variable {f : α → Except ε β} {x : Except ε α}

theorem bind_eq_ok {b} : x >>= f = .ok b ↔ ∃ a, x = .ok a ∧ f a = .ok b := by
  cases x <;> simp

theorem bind_eq_error {e} : x >>= f = .error e ↔ x = .error e ∨ ∃ a, x = .ok a ∧ f a = .error e := by
  cases x <;> simp

theorem mapError_eq_ok {ε' : Type} {f : ε → ε'} : x.mapError f = .ok a ↔ x = .ok a := by
  cases x <;> simp [Except.mapError]

theorem optionMapM_eq_ok {o o'} :
    o.mapM f = .ok o' ↔ o = none ∧ o' = none ∨ ∃ a b, o = some a ∧ f a = .ok b ∧ o' = some b := by
  cases o with
  | none => simp [pure, Except.pure, eq_comm]
  | some a =>
    cases hf : f a <;> simp [hf, eq_comm]

theorem stateful_bind_eq_ok {x : ExceptT ε (StateM σ) α} {f : α → ExceptT ε (StateM σ) β} {s t : σ} {b : β} :
    (x >>= f) s = (.ok b, t) ↔ ∃ a s', x s = (.ok a, s') ∧ f a s' = (.ok b, t) := by
  simp only [bind, ExceptT.bind, ExceptT.mk, StateT.bind]
  match x s with
  | (.ok a, s') =>
    refine ⟨fun h => ⟨a, s', rfl, h⟩, ?_⟩
    rintro ⟨_, _, hSame, h⟩
    cases hSame
    exact h
  | (.error e, s') =>
    refine ⟨fun h => ?_, ?_⟩
    · cases h
    · rintro ⟨_, _, hSame, -⟩
      cases hSame

theorem mapM_cons_eq_ok {l out} :
    (a :: l).mapM f = .ok out ↔ ∃ b rest, f a = .ok b ∧ l.mapM f = .ok rest ∧ out = b :: rest := by
  simp only [mapM_cons, bind_eq_ok, pure, Except.pure, Except.ok.injEq]
  constructor
  · rintro ⟨b, hb, rest, hRest, rfl⟩
    exact ⟨b, rest, hb, hRest, rfl⟩
  · rintro ⟨b, rest, hb, hRest, rfl⟩
    exact ⟨b, hb, rest, hRest, rfl⟩

theorem exists_mapM_eq_ok {R l}
    (h : ∀ a ∈ l, ∃ b, f a = .ok b ∧ R b a) : ∃ out, l.mapM f = .ok out ∧ List.Forall₂ R out l := by
  induction l with
  | nil => exact ⟨[], rfl, .nil⟩
  | cons a l ih =>
    obtain ⟨b, hb, hR⟩ := h a mem_cons_self
    obtain ⟨rest, hRest, hAll⟩ := ih fun a' ha' => h a' (mem_cons_of_mem a ha')
    exact ⟨b :: rest, mapM_cons_eq_ok.mpr ⟨b, rest, hb, hRest, rfl⟩, .cons hR hAll⟩

/-- `admits` holds at each element of a list in the state in which a fold over the
list reaches it. -/
def Along (step : σ → ι → Except ε σ) (admits : σ → ι → Prop) : σ → List ι → Prop
  | _, [] => True
  | s, i :: rest => admits s i ∧ ∀ s', step s i = .ok s' → Along step admits s' rest

variable {step : σ → ι → Except ε σ} {admits : σ → ι → Prop}

theorem along_cons {s i rest}
    (h : step s i = .ok s') : Along step admits s (i :: rest) ↔ admits s i ∧ Along step admits s' rest := by
  simp [Along, h]

theorem along_and {admits' s} :
    Along step (fun s i => admits s i ∧ admits' s i) s l ↔ Along step admits s l ∧ Along step admits' s l := by
  induction l generalizing s with
  | nil => simp [Along]
  | cons i rest ih =>
    simp only [Along, ih]
    constructor
    · rintro ⟨hHere, hRest⟩
      exact ⟨⟨hHere.1, fun s' h => (hRest s' h).1⟩, hHere.2, fun s' h => (hRest s' h).2⟩
    · rintro ⟨⟨hHere, hRest⟩, hHere', hRest'⟩
      exact ⟨⟨hHere, hHere'⟩, fun s' h => ⟨hRest s' h, hRest' s' h⟩⟩

theorem along_append {s l'} (h : l.foldlM step s = .ok s') :
    Along step admits s (l ++ l') ↔ Along step admits s l ∧ Along step admits s' l' := by
  induction l generalizing s with
  | nil =>
    cases h
    simp [Along]
  | cons i rest ih =>
    rw [foldlM_cons, bind_eq_ok] at h
    obtain ⟨next, hNext, hRest⟩ := h
    rw [cons_append, along_cons hNext, along_cons hNext, ih hRest, and_assoc]

variable (inv : σ → Prop)

/-- Loop rule for folds that return: what the step keeps at every element, the fold
keeps. -/
theorem foldlM_keeps {s}
    (hStep : ∀ s, ∀ i ∈ l, ∀ s', inv s → step s i = .ok s' → inv s') (hs : inv s) (h : l.foldlM step s = .ok s') :
    inv s' := by
  induction l generalizing s with
  | nil =>
    cases h
    exact hs
  | cons i rest ih =>
    rw [foldlM_cons, bind_eq_ok] at h
    obtain ⟨next, hNext, hRest⟩ := h
    refine ih (fun s j hj => hStep s j (mem_cons_of_mem i hj)) ?_ hRest
    exact hStep s i (mem_cons_self ..) next hs hNext

theorem foldlM_invariant
    (hStep : ∀ s i s', inv s → step s i = .ok s' → inv s') {s} (hs : inv s) (h : l.foldlM step s = .ok s') :
    inv s' :=
  foldlM_keeps inv (fun s i _ => hStep s i) hs h

/-- Run rule for a property that no step restores: it holds at the end just if it held at the start
and every step was one that keeps it. -/
theorem foldlM_iff_along (good : σ → Prop)
    (hStep : ∀ s i s', inv s → step s i = .ok s' → inv s' ∧ (good s' ↔ good s ∧ admits s i)) {s} (hs : inv s)
    (h : l.foldlM step s = .ok s') : good s' ↔ good s ∧ Along step admits s l := by
  induction l generalizing s with
  | nil =>
    cases h
    simp [Along]
  | cons i rest ih =>
    rw [foldlM_cons, bind_eq_ok] at h
    obtain ⟨next, hNext, hRest⟩ := h
    obtain ⟨hInv, hGood⟩ := hStep s i next hs hNext
    rw [ih hInv hRest, hGood, along_cons hNext, and_assoc]

/-- Every value returned satisfies `post` and every error satisfies `fail`. -/
def Yields (post : α → Prop) (fail : ε → Prop) : Except ε α → Prop
  | .ok a => post a
  | .error e => fail e

namespace Yields
variable {post post' : α → Prop} {fail fail' : ε → Prop} {a : α}

@[simp] theorem ok_iff : Yields post fail (.ok a) ↔ post a := Iff.rfl

@[simp] theorem pure_iff : Yields post fail (pure a) ↔ post a := Iff.rfl

@[simp] theorem error_iff {e} : Yields post fail (.error e) ↔ fail e := Iff.rfl

variable {x : Except ε α}

theorem of_ok (h : Yields post fail x) (hx : x = .ok a) : post a := by
  subst hx
  exact h

theorem of_error {e} (h : Yields post fail x) (hx : x = .error e) : fail e := by
  subst hx
  exact h

theorem intro (hOk : ∀ a, x = .ok a → post a) (hError : ∀ e, x = .error e → fail e) : Yields post fail x := by
  cases x with
  | ok a => exact hOk a rfl
  | error e => exact hError e rfl

theorem mono (h : Yields post fail x) (hPost : ∀ a, post a → post' a)
    (hFail : ∀ e, fail e → fail' e) : Yields post' fail' x := by
  cases x with
  | ok a => exact hPost a h
  | error e => exact hFail e h

theorem imp_error (h : Yields post fail x) (hFail : ∀ e, fail e → fail' e) : Yields post fail' x :=
  h.mono (fun _ h => h) hFail

theorem and_of_ok (h : Yields post fail x) (hOk : ∀ a, x = .ok a → post' a) :
    Yields (fun a => post a ∧ post' a) fail x :=
  intro (fun a ha => ⟨h.of_ok ha, hOk a ha⟩) fun _ he => h.of_error he

theorem bind {final : β → Prop}
    (hx : Yields post fail x) (hf : ∀ a, post a → Yields final fail (f a)) : Yields final fail (x >>= f) := by
  cases x with
  | ok a => exact hf a hx
  | error e => exact hx

variable {step : σ → ι → Except ε σ}

/-- Loop rule: the invariant may mention the elements still to be visited. -/
theorem foldlM_suffix (inv : List ι → σ → Prop)
    (hStep : ∀ s i rest, inv (i :: rest) s → Yields (inv rest) fail (step s i)) :
    ∀ (l : List ι) (s : σ), inv l s → Yields (inv []) fail (l.foldlM step s) := by
  intro l
  induction l with
  | nil => exact fun s h => h
  | cons i rest ih =>
    intro s h
    exact (hStep s i rest h).bind ih

/-- Loop rule for an invariant of the accumulator alone. -/
theorem foldlM (l : List ι) (hStep : ∀ s, ∀ i ∈ l, inv s → Yields inv fail (step s i)) {s} (h : inv s) :
    Yields inv fail (l.foldlM step s) := by
  refine (foldlM_suffix (fun rest s => (∀ i ∈ rest, i ∈ l) ∧ inv s) ?_ l s
    ⟨fun _ hi => hi, h⟩).mono (fun _ ha => ha.2) (fun _ he => he)
  rintro s i rest ⟨hMem, hs⟩
  refine (hStep s i (hMem i (by simp)) hs).mono (fun _ ha => ⟨?_, ha⟩) (fun _ he => he)
  exact fun j hj => hMem j (mem_cons_of_mem i hj)

/-- Loop rule for a fold whose steps are all admitted. -/
theorem foldlM_along {admits} (hStep : ∀ s i, inv s → admits s i → Yields inv fail (step s i)) {l s} (h : inv s)
    (hAlong : Along step admits s l) : Yields inv fail (l.foldlM step s) := by
  refine (foldlM_suffix (fun rest s => inv s ∧ Along step admits s rest) ?_ l s ⟨h, hAlong⟩).mono
    (fun _ ha => ha.1) (fun _ he => he)
  rintro s i rest ⟨hs, hAdmits, hRest⟩
  exact (hStep s i hs hAdmits).and_of_ok hRest

end Yields

/-- A computation that only stops with errors of the given kind. -/
abbrev Raises (kind : ε → Bool) (x : Except ε α) : Prop :=
  Yields (fun _ => True) (fun e => kind e = true) x

namespace Raises
variable {kind kind' : ε → Bool} {x : Except ε α} {f : α → Except ε β} {e : ε}

theorem ok : Raises kind (.ok a) := trivial

theorem error (h : kind e = true) : Raises kind (.error e : Except ε α) := h

theorem bind (hx : Raises kind x) (hf : ∀ a, Raises kind (f a)) : Raises kind (x >>= f) :=
  Yields.bind hx fun a _ => hf a

/-- The continuation may use what the first computation returned. -/
theorem bind_ok (hx : Raises kind x) (hf : ∀ a, x = .ok a → Raises kind (f a)) : Raises kind (x >>= f) := by
  cases x with
  | ok a => exact hf a rfl
  | error e => exact hx

theorem ensure {c : Prop} [Decidable c] (h : kind e = true) : Raises kind (Outcome.ensure e c) := by
  unfold Outcome.ensure
  split
  · trivial
  · exact h

theorem unwrap {o : Option α} (h : kind e = true) : Raises kind (Outcome.unwrap e o) := by
  cases o with
  | none => exact h
  | some a => trivial

theorem mono (hx : Raises kind x) (h : ∀ e, kind e = true → kind' e = true) : Raises kind' x :=
  Yields.mono hx (fun _ _ => trivial) h

theorem foldlM {step} {s : σ} (h : ∀ s i, Raises kind (step s i)) : Raises kind (l.foldlM step s) :=
  Yields.foldlM (fun _ => True) l (fun s i _ _ => h s i) trivial

theorem mapM {l : List α} (h : ∀ a, Raises kind (f a)) : Raises kind (l.mapM f) := by
  induction l with
  | nil => exact ok
  | cons a rest ih =>
    rw [mapM_cons]
    exact (h a).bind fun _ => ih.bind fun _ => ok

theorem ne (hx : Raises kind x) (h : kind e = false) : x ≠ .error e := by
  rintro rfl
  exact Bool.false_ne_true (h.symm.trans hx)

end Raises

abbrev Returns (x : Except ε α) : Prop := Raises (fun _ => false) x

namespace Returns
variable {x : Except ε α}

theorem exists_ok (h : Returns x) : ∃ a, x = .ok a := by
  cases x with
  | ok a => exact ⟨a, rfl⟩
  | error e => cases h

theorem of_eq (h : x = .ok a) : Returns x := by
  rw [h]
  exact Raises.ok

/-- Loop rule: a fold returns if its steps return from states that meet an
invariant, and keep it. -/
theorem foldlM (hReturns : ∀ s, ∀ i ∈ l, inv s → Returns (step s i))
    (hKeeps : ∀ s, ∀ i ∈ l, ∀ s', inv s → step s i = .ok s' → inv s') {s : σ} (hs : inv s) :
    Returns (l.foldlM step s) := by
  refine (Yields.foldlM inv l (fun s i hi h => ?_) hs).mono (fun _ _ => trivial) (fun _ he => he)
  exact Yields.intro (fun s' hs' => hKeeps s i hi s' h hs') (fun e he => (hReturns s i hi h).of_error he)

theorem mapM {l : List α} (h : ∀ a ∈ l, Returns (f a)) : Returns (l.mapM f) := by
  induction l with
  | nil => exact Raises.ok
  | cons a rest ih =>
    rw [mapM_cons]
    refine Raises.bind (h a (by simp)) fun _ => Raises.bind (ih fun b hb => ?_) fun _ => Raises.ok
    exact h b (mem_cons_of_mem a hb)

end Returns

def value : (x : Except ε α) → x.isOk = true → α
  | .ok a, _ => a

/-- A computation without variables is evaluated to see that it returns. -/
theorem returned (h : x.isOk = true := by decide +kernel) : x = .ok (value x h) := by
  cases x with
  | ok a => rfl
  | error e => cases h

/-- What is shown first may be used for the rest. -/
theorem and_of {first rest : Prop} (h : first) (hRest : first → rest) : first ∧ rest := ⟨h, hRest h⟩

theorem exists_and_of {first rest : α → Prop} (h : first a) (hRest : first a → rest a) :
    ∃ a, first a ∧ rest a :=
  ⟨a, h, hRest h⟩

theorem exists₂_and_of {first rest : α → β → Prop} {b : β} (h : first a b)
    (hRest : first a b → rest a b) : ∃ a b, first a b ∧ rest a b :=
  ⟨a, b, h, hRest h⟩

/-- The states reached from `start` by steps that return and that all meet
`admits` in the state they are taken in. -/
inductive Reaches (step : σ → ι → Except ε σ) (admits : σ → ι → Prop) (start : σ) : σ → Prop where
  | refl : Reaches step admits start start
  | tail {s s' : σ} {i : ι} (prior : Reaches step admits start s) (hAdmits : admits s i)
      (hStep : step s i = .ok s') : Reaches step admits start s'

namespace Reaches
variable {step : σ → ι → Except ε σ} {admits admits' : σ → ι → Prop} {start s : σ}

/-- Run rule: what holds at the start and is kept by every admitted step
holds in every state reached. -/
theorem invariant (run : Reaches step admits start s) (inv : σ → Prop) (hStart : inv start)
    (hKeep : ∀ s s' i, inv s → admits s i → step s i = .ok s' → inv s') : inv s := by
  induction run with
  | refl => exact hStart
  | tail prior hAdmits hStep ih => exact hKeep _ _ _ ih hAdmits hStep

theorem of_foldlM (hAdmits : ∀ s i, admits s i) (h : l.foldlM step s = .ok s')
    (prior : Reaches step admits start s) : Reaches step admits start s' :=
  foldlM_invariant (Reaches step admits start) (fun _ _ _ hs hStep => hs.tail (hAdmits _ _) hStep) prior h

end Reaches
end Outcome
