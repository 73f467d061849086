import Mathlib.Data.List.Dedup
import Mathlib.Data.List.Induction

/-! The names of the EIP-712 types that the universal wallet emits for a value: that of the Rust type, with a number if
it has taken several forms. Names are lists of characters. -/
namespace SovereignSdk.UniversalWallet
open List Function

abbrev TypeName := List Char

structure PropertyDef where
  typeName : TypeName
  name : TypeName
deriving DecidableEq

structure TypeVariants where
  variants : List PropertyDef → Option TypeName
  nextSuffix : Nat

structure Output where
  types : TypeName → Option (List PropertyDef)
  visitedTypes : TypeName → TypeVariants

def suffixed (baseName : TypeName) (suffix : Nat) : TypeName :=
  if suffix = 0 then baseName else baseName ++ Nat.toDigits 10 suffix

abbrev NameCall := TypeName × List PropertyDef

namespace Output

def start : Output := ⟨fun _ => none, fun _ => ⟨fun _ => none, 0⟩⟩

def insertTypesAndGetOrCreateName (o : Output) (baseName : TypeName) (fields : List PropertyDef) : Output × TypeName :=
  let info := o.visitedTypes baseName
  match info.variants fields with
  | some existingName => (o, existingName)
  | none =>
    let uniqueName := suffixed baseName info.nextSuffix
    (⟨update o.types uniqueName (some fields), update o.visitedTypes baseName
      ⟨update info.variants fields (some uniqueName), info.nextSuffix + 1⟩⟩, uniqueName)

/-- The calls are kept with the names that they return. -/
def call (state : Output × List (NameCall × TypeName)) (c : NameCall) : Output × List (NameCall × TypeName) :=
  let (o, name) := state.1.insertTypesAndGetOrCreateName c.1 c.2
  (o, state.2 ++ [(c, name)])

def run (calls : List NameCall) : Output × List (NameCall × TypeName) := calls.foldl call (start, [])

def forms (calls : List NameCall) (baseName : TypeName) : List (List PropertyDef) :=
  ((calls.filter (·.1 = baseName)).map (·.2)).reverse.dedup.reverse

def nameIn (calls : List NameCall) (c : NameCall) : TypeName := suffixed c.1 ((forms calls c.1).idxOf c.2)

def Distinct (calls : List NameCall) : Prop := ∀ c ∈ calls, ∀ c' ∈ calls, nameIn calls c = nameIn calls c' → c = c'

/-- No name for a form of one Rust type is a name for a form of another. -/
def Unambiguous (calls : List NameCall) : Prop :=
  ∀ b b' i j, i < (forms calls b).length → j < (forms calls b').length → suffixed b i = suffixed b' j → b = b'

theorem suffixed_injective {b i j} (h : suffixed b i = suffixed b j) : i = j := by
  unfold suffixed at h
  have hDigits {k : Nat} (hk : b = b ++ Nat.toDigits 10 k) : False :=
    Nat.toDigits_ne_nil (self_eq_append_right.mp hk)
  split at h <;> split at h
  · simp_all
  · exact (hDigits h).elim
  · exact (hDigits h.symm).elim
  · simpa using congrArg (Nat.ofDigitChars 10 · 0) (append_cancel_left h)

variable {calls : List NameCall} {c : NameCall} {b : TypeName} {f : List PropertyDef}

theorem mem_forms : f ∈ forms calls b ↔ (b, f) ∈ calls := by
  simp [forms]

theorem forms_append :
    forms (calls ++ [c]) b = if c.1 = b ∧ c ∉ calls then forms calls b ++ [c.2] else forms calls b := by
  by_cases hb : c.1 = b
  · subst hb
    have hMem : c.2 ∈ ((calls.filter (·.1 = c.1)).map (·.2)).reverse ↔ c ∈ calls := by simp
    by_cases hc : c ∈ calls
    · simp [forms, hc, dedup_cons_of_mem (hMem.mpr hc)]
    · simp [forms, hc, dedup_cons_of_notMem (mt hMem.mp hc)]
  · simp [forms, hb]

theorem nameIn_append (c' : NameCall) (h : c ∈ calls) : nameIn (calls ++ [c']) c = nameIn calls c := by
  rw [nameIn, forms_append]
  split
  · rw [idxOf_append_of_mem (mem_forms.mpr h), nameIn]
  · rfl

theorem nameIn_new (h : c ∉ calls) : nameIn (calls ++ [c]) c = suffixed c.1 (forms calls c.1).length := by
  rw [nameIn, forms_append, if_pos ⟨rfl, h⟩, idxOf_append_of_notMem (mt mem_forms.mp h)]
  simp

structure Numbered (calls : List NameCall) (state : Output × List (NameCall × TypeName)) : Prop where
  nextSuffix : ∀ b, (state.1.visitedTypes b).nextSuffix = (forms calls b).length
  variants : ∀ b f, (state.1.visitedTypes b).variants f = if (b, f) ∈ calls then some (nameIn calls (b, f)) else none
  log : state.2 = calls.map fun c => (c, nameIn calls c)
  types : Distinct calls → ∀ c ∈ calls, state.1.types (nameIn calls c) = some c.2

theorem Numbered.call {state} (h : Numbered calls state) (c : NameCall) : Numbered (calls ++ [c]) (call state c) := by
  have hLog : state.2 ++ [(c, nameIn (calls ++ [c]) c)] =
      (calls ++ [c]).map fun c' => (c', nameIn (calls ++ [c]) c') := by
    rw [map_append, h.log]
    simp +contextual [nameIn_append]
  obtain ⟨b, f⟩ := c
  unfold Output.call insertTypesAndGetOrCreateName
  simp only [h.variants, h.nextSuffix]
  by_cases hc : (b, f) ∈ calls
  · have hForms (b') : forms (calls ++ [(b, f)]) b' = forms calls b' := by simp [forms_append, hc]
    have hName (c') : nameIn (calls ++ [(b, f)]) c' = nameIn calls c' := by rw [nameIn, hForms, nameIn]
    have hMem (c') : c' ∈ calls ++ [(b, f)] ↔ c' ∈ calls := by
      rw [mem_append, mem_singleton, or_iff_left_of_imp]
      rintro rfl
      exact hc
    simp only [if_pos hc]
    refine ⟨?_, ?_, hName (b, f) ▸ hLog, ?_⟩ <;> simp only [Distinct, hForms, hName, hMem]
    · exact h.nextSuffix
    · exact h.variants
    · exact h.types
  · simp only [if_neg hc, ← nameIn_new hc]
    refine ⟨fun b' => ?_, fun b' f' => ?_, hLog, fun hDistinct => ?_⟩
    · by_cases hb : b' = b
      · simp [hb, forms_append, hc]
      · simp [hb, forms_append, h.nextSuffix, Ne.symm hb]
    · by_cases hNew : (b', f') = (b, f)
      · cases hNew
        simp
      · have hOld := h.variants b' f'
        by_cases hb : b' = b <;> by_cases hOld' : (b', f') ∈ calls <;> simp_all [nameIn_append]
    · have hLater {c'} (hc' : c' ∈ calls) : c' ∈ calls ++ [(b, f)] := mem_append_left _ hc'
      have hOld := h.types fun c₁ h₁ c₂ h₂ hName => hDistinct c₁ (hLater h₁) c₂ (hLater h₂) (by
        rwa [nameIn_append _ h₁, nameIn_append _ h₂])
      rw [forall_mem_append, forall_mem_singleton]
      refine ⟨fun c' hc' => ?_, update_self ..⟩
      have hNe : nameIn (calls ++ [(b, f)]) c' ≠ nameIn (calls ++ [(b, f)]) (b, f) := fun hName =>
        hc (hDistinct c' (hLater hc') _ (by simp) hName ▸ hc')
      exact (update_of_ne hNe ..).trans (nameIn_append _ hc' ▸ hOld c' hc')

theorem Numbered.run (calls : List NameCall) : Numbered calls (run calls) := by
  induction calls using reverseRecOn with
  | nil => constructor <;> simp [Output.run, start, forms]
  | append_singleton calls c ih =>
    rw [Output.run, foldl_append]
    exact ih.call c

theorem distinct_iff : Distinct calls ↔ Unambiguous calls := by
  constructor
  · intro h b b' i j hi hj hName
    have hCall {b i} (hi : i < (forms calls b).length) : ∃ f, (b, f) ∈ calls ∧ nameIn calls (b, f) = suffixed b i := by
      refine ⟨(forms calls b)[i], mem_forms.mp (getElem_mem hi), ?_⟩
      rw [nameIn, Nodup.idxOf_getElem (by simp [forms, nodup_dedup])]
    obtain ⟨f, hMem, hf⟩ := hCall hi
    obtain ⟨f', hMem', hf'⟩ := hCall hj
    exact congrArg Prod.fst (h _ hMem _ hMem' (by rw [hf, hf', hName]))
  · rintro h ⟨b, f⟩ hMem ⟨b', f'⟩ hMem' hName
    have hLt {b f} (hMem : (b, f) ∈ calls) := idxOf_lt_length_iff.mpr (mem_forms.mpr hMem)
    obtain rfl := h b b' _ _ (hLt hMem) (hLt hMem') hName
    rw [(idxOf_inj (mem_forms.mpr hMem)).mp (suffixed_injective hName)]

/-- The three clauses about the names and the emitted types. -/
theorem insertTypesAndGetOrCreateName_names_iff (calls : List NameCall) :
    ((∀ e ∈ (run calls).2, ∀ e' ∈ (run calls).2, e.1 ≠ e'.1 → e.2 ≠ e'.2) ∧
      (∀ e ∈ (run calls).2, ∀ e' ∈ (run calls).2, e.1 = e'.1 → e.2 = e'.2) ∧
      ∀ e ∈ (run calls).2, (run calls).1.types e.2 = some e.1.2) ↔ Unambiguous calls := by
  have h := Numbered.run calls
  rw [← distinct_iff, h.log]
  simp only [forall_mem_map]
  constructor
  · rintro ⟨hDiff, -⟩ c hc c' hc' hName
    by_contra hNe
    exact hDiff c hc c' hc' hNe hName
  · intro hDistinct
    exact ⟨fun c hc c' hc' hNe hName => hNe (hDistinct c hc c' hc' hName), fun c _ c' _ hEq => by rw [hEq],
      h.types hDistinct⟩

/-- The second form of `A` and the first of `A1` are both called `A1`, and the fields of the former are lost. -/
theorem second_form_takes_name_of_other_type :
    let a : PropertyDef := ⟨['u'], ['x']⟩
    let o := run [(['A'], []), (['A'], [a]), (['A', '1'], [])]
    o.2.map (·.2) = [['A'], ['A', '1'], ['A', '1']] ∧ o.1.types ['A', '1'] = some [] := by
  decide +kernel

end Output
end SovereignSdk.UniversalWallet
