import SovereignSdk.Library.Outcome

/-! Lists of operations, each of which answers: refinement of a total machine, and replay
of the hints that another machine has recorded. -/
namespace Outcome
open List
variable {ε σ τ ι ρ η : Type}

/-- Perform operations one after another and collect the answers. -/
def trace (step : σ → ι → Except ε (σ × ρ)) : σ → List ι → Except ε (σ × List ρ)
  | s, [] => .ok (s, [])
  | s, i :: rest => do
      let (s, r) ← step s i
      let (s, rs) ← trace step s rest
      return (s, r :: rs)

def answers (spec : τ → ι → τ × ρ) : τ → List ι → τ × List ρ
  | t, [] => (t, [])
  | t, i :: rest =>
    let next := answers spec (spec t i).1 rest
    (next.1, (spec t i).2 :: next.2)

variable {step : σ → ι → Except ε (σ × ρ)} {s s' : σ} {rs : List ρ} {l : List ι} {spec : τ → ι → τ × ρ}
variable {fail : ε → Prop} {t : τ}

def Matches {α : Type} (rel : σ → τ → Prop) (next : τ × α) (out : σ × α) : Prop := rel out.1 next.1 ∧ out.2 = next.2

theorem trace_cons_eq_ok {i rest} : trace step s (i :: rest) = .ok (s', rs) ↔
      ∃ mid r rs', step s i = .ok (mid, r) ∧ trace step mid rest = .ok (s', rs') ∧ rs = r :: rs' := by
  simp only [trace, bind_eq_ok, pure_eq_ok, Prod.mk.injEq]
  constructor
  · rintro ⟨⟨mid, r⟩, hStep, ⟨last, rs'⟩, hRest, rfl, rfl⟩
    exact ⟨mid, r, rs', hStep, hRest, rfl⟩
  · rintro ⟨mid, r, rs', hStep, hRest, rfl⟩
    exact ⟨(mid, r), hStep, (s', rs'), hRest, rfl, rfl⟩

theorem trace_append_eq_ok {l'} : trace step s (l ++ l') = .ok (s', rs) ↔
      ∃ mid rs₁ rs₂, trace step s l = .ok (mid, rs₁) ∧ trace step mid l' = .ok (s', rs₂) ∧ rs = rs₁ ++ rs₂ := by
  induction l generalizing s rs with
  | nil => simp [trace]
  | cons i rest ih =>
    rw [cons_append, trace_cons_eq_ok]
    constructor
    · rintro ⟨next, r, rs', hStep, hRest, rfl⟩
      obtain ⟨mid, rs₁, rs₂, hFirst, hSecond, rfl⟩ := ih.mp hRest
      exact ⟨mid, r :: rs₁, rs₂, trace_cons_eq_ok.mpr ⟨next, r, rs₁, hStep, hFirst, rfl⟩, hSecond, rfl⟩
    · rintro ⟨mid, rs₁, rs₂, hFirst, hSecond, rfl⟩
      obtain ⟨next, r, rs', hStep, hRest, rfl⟩ := trace_cons_eq_ok.mp hFirst
      exact ⟨next, r, rs' ++ rs₂, hStep, ih.mpr ⟨mid, rs', rs₂, hRest, hSecond, rfl⟩, rfl⟩

theorem trace_length (h : trace step s l = .ok (s', rs)) : rs.length = l.length := by
  induction l generalizing s rs with
  | nil =>
    cases h
    rfl
  | cons i rest ih =>
    obtain ⟨next, r, rs', -, hRest, rfl⟩ := trace_cons_eq_ok.mp h
    rw [length_cons, length_cons, ih hRest]

/-- Invariant rule: what each of the operations keeps, all of them together keep. -/
theorem trace_keeps (inv : σ → Prop) (hStep : ∀ i ∈ l, ∀ {s s' r}, inv s → step s i = .ok (s', r) → inv s')
    (hs : inv s) (h : trace step s l = .ok (s', rs)) : inv s' := by
  induction l generalizing s rs with
  | nil =>
    cases h
    exact hs
  | cons i rest ih =>
    obtain ⟨next, r, rs', hHere, hRest, -⟩ := trace_cons_eq_ok.mp h
    exact ih (fun j hj => hStep j (mem_cons_of_mem i hj)) (hStep i mem_cons_self hs hHere) hRest

/-- Refinement rule: the guard of the states may mention the operations still to come. If each guarded step
answers as that of a total machine does, from related states to related states, so does the whole
list. -/
theorem trace_refines_guarded (guard : List ι → σ → τ → Prop) (rel : σ → τ → Prop)
    (hNext : ∀ {s t i rest s' r}, guard (i :: rest) s t → step s i = .ok (s', r) → guard rest s' (spec t i).1)
    (hStep : ∀ s t, ∀ i ∈ l, ∀ rest, guard (i :: rest) s t → rel s t → Yields (Matches rel (spec t i)) fail (step s i))
    (hGuard : guard l s t) (h : rel s t) :
    Yields (Matches rel (answers spec t l)) fail (trace step s l) := by
  induction l generalizing s t with
  | nil => exact ⟨h, rfl⟩
  | cons i rest ih =>
    have hHere := hStep s t i mem_cons_self rest hGuard h
    have hBoth := hHere.and_of_ok fun _ hRun => hNext hGuard hRun
    refine hBoth.bind ?_
    rintro ⟨mid, r⟩ ⟨⟨hMid, rfl⟩, hLater⟩
    refine (ih (fun s t j hj => hStep s t j (mem_cons_of_mem i hj)) hLater hMid).bind ?_
    rintro ⟨last, rs⟩ ⟨hLast, rfl⟩
    exact ⟨hLast, rfl⟩

/-- `admits` holds at each operation in the state in which a total machine reaches it. -/
def Admitted (spec : τ → ι → τ × ρ) (admits : τ → ι → Prop) : τ → List ι → Prop
  | _, [] => True
  | t, i :: rest => admits t i ∧ Admitted spec admits (spec t i).1 rest

variable (rel : σ → τ → Prop)

/-- `admits` holds at each operation in the state in which a run reaches it. -/
def TraceAlong (step : σ → ι → Except ε (σ × ρ)) (admits : σ → ι → Prop) : σ → List ι → Prop
  | _, [] => True
  | s, i :: rest => admits s i ∧ ∀ s' r, step s i = .ok (s', r) → TraceAlong step admits s' rest

/-- The rule for a machine all of whose steps are admitted. -/
theorem trace_refines (hStep : ∀ s t, ∀ i ∈ l, rel s t →
      Yields (Matches rel (spec t i)) fail (step s i)) (h : rel s t) :
    Yields (Matches rel (answers spec t l)) fail (trace step s l) :=
  trace_refines_guarded (fun _ _ _ => True) rel (fun _ _ => trivial) (fun s t i hi _ _ => hStep s t i hi) trivial h

theorem answers_append (spec : τ → ι → τ × ρ) (t : τ) (l l' : List ι) : answers spec t (l ++ l') =
      ((answers spec (answers spec t l).1 l').1, (answers spec t l).2 ++ (answers spec (answers spec t l).1 l').2) := by
  induction l generalizing t with
  | nil => rfl
  | cons i rest ih =>
    rw [cons_append, answers, ih]
    rfl

theorem trace_follows {next}
    (hStep : ∀ {s t i s' r}, rel s t → step s i = .ok (s', r) → rel s' (next t i)) (h : rel s t)
    (hTrace : trace step s l = .ok (s', rs)) : rel s' (l.foldl next t) := by
  induction l generalizing s t rs with
  | nil =>
    cases hTrace
    exact h
  | cons i rest ih =>
    obtain ⟨mid, r, rs', hHere, hRest, -⟩ := trace_cons_eq_ok.mp hTrace
    exact ih (hStep h hHere) hRest

/-- Replay rule: if each step of a recording machine appends hints, and a replaying machine
that finds those hints first answers alike and consumes just them, then a whole list of
operations does so. -/
theorem trace_replays {record : σ × List η → ι → Except ε ((σ × List η) × ρ)}
    {replay : τ × List η → ι → Except ε ((τ × List η) × ρ)}
    (hStep : ∀ {s t hints i s' hints' r}, rel s t → record (s, hints) i = .ok ((s', hints'), r) →
      ∃ new, hints' = hints ++ new ∧
        ∃ t', rel s' t' ∧ ∀ rest, replay (t, new ++ rest) i = .ok ((t', rest), r)) {hints hints' : List η} (h : rel s t)
    (hRecord : trace record (s, hints) l = .ok ((s', hints'), rs)) : ∃ new, hints' = hints ++ new ∧
      ∃ t', rel s' t' ∧ ∀ rest, trace replay (t, new ++ rest) l = .ok ((t', rest), rs) := by
  induction l generalizing s t hints rs with
  | nil =>
    cases hRecord
    exact ⟨[], (append_nil _).symm, t, h, fun _ => rfl⟩
  | cons i ops ih =>
    obtain ⟨⟨mid, midHints⟩, r, rs', hHere, hRest, rfl⟩ := trace_cons_eq_ok.mp hRecord
    obtain ⟨new, rfl, t', hMid, hReplay⟩ := hStep h hHere
    obtain ⟨later, hLater, t'', hLast, hRepl⟩ := ih hMid hRest
    refine ⟨new ++ later, by rw [hLater, append_assoc], t'', hLast, fun rest => ?_⟩
    rw [trace_cons_eq_ok]
    refine ⟨_, r, rs', ?_, hRepl rest, rfl⟩
    rw [append_assoc]
    exact hReplay (later ++ rest)

end Outcome
