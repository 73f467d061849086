import Mathlib.Algebra.BigOperators.Fin

/-! Self-delimiting encodings: where the bytes of a value end does not depend on what follows, so
that values can be written one after another. -/
namespace Encoding
open List
variable {α β : Type}

structure Delimited (α : Type) where
  encode : α → List UInt8
  unique : ∀ {a b : α} {rest rest' : List UInt8}, encode a ++ rest = encode b ++ rest' → a = b ∧ rest = rest'

/-- The lowest digits of a number in base 256, the least significant one first. -/
def littleEndian : (width n : Nat) → List UInt8
  | 0, _ => []
  | width + 1, n => UInt8.ofNat n :: littleEndian width (n / 256)

theorem length_littleEndian (width n : Nat) : (littleEndian width n).length = width := by
  induction width generalizing n with
  | zero => rfl
  | succ width ih => rw [littleEndian, length_cons, ih]

theorem littleEndian_inj {width m n} (hm : m < 256 ^ width) (hn : n < 256 ^ width)
    (h : littleEndian width m = littleEndian width n) : m = n := by
  induction width generalizing m n with
  | zero =>
    omega
  | succ width ih =>
    obtain ⟨hDigit, hRest⟩ := cons.inj h
    have hDigit : m % 256 = n % 256 := by
      have hNat := congrArg UInt8.toNat hDigit
      rwa [UInt8.toNat_ofNat'] at hNat
    have hHigh := ih (Nat.div_lt_of_lt_mul (by omega)) (Nat.div_lt_of_lt_mul (by omega)) hRest
    omega

namespace Delimited

def fixed (width : Nat) (toNat : α → Nat) (hLt : ∀ a, toNat a < 256 ^ width)
    (hInjective : ∀ {a b}, toNat a = toNat b → a = b) : Delimited α where
  encode a := littleEndian width (toNat a)
  unique h := by
    obtain ⟨hSame, hRest⟩ := append_inj h (by rw [length_littleEndian, length_littleEndian])
    exact ⟨hInjective (littleEndian_inj (hLt _) (hLt _) hSame), hRest⟩

variable (E : Delimited α)

def prod (F : Delimited β) : Delimited (α × β) where
  encode pair := E.encode pair.1 ++ F.encode pair.2
  unique h := by
    rw [append_assoc, append_assoc] at h
    obtain ⟨hFirst, h⟩ := E.unique h
    obtain ⟨hSecond, hRest⟩ := F.unique h
    exact ⟨Prod.ext hFirst hSecond, hRest⟩

def option : Delimited (Option α) where
  encode
    | none => [0]
    | some a => 1 :: E.encode a
  unique {a b rest rest'} h := by
    cases a with
    | none =>
      cases b with
      | none => exact ⟨rfl, (cons.inj h).2⟩
      | some b => exact absurd (cons.inj h).1 (by decide)
    | some a =>
      cases b with
      | none => exact absurd (cons.inj h).1 (by decide)
      | some b =>
        obtain ⟨hSame, hRest⟩ := E.unique (cons.inj h).2
        exact ⟨congrArg some hSame, hRest⟩

def array (n : Nat) : Delimited (Fin n → α) where
  encode f := (ofFn f).flatMap E.encode
  unique {f g rest rest'} h := by
    induction n with
    | zero => exact ⟨funext fun i => i.elim0, h⟩
    | succ n ih =>
      rw [ofFn_succ, ofFn_succ, flatMap_cons, flatMap_cons, append_assoc, append_assoc] at h
      obtain ⟨hHead, h⟩ := E.unique h
      obtain ⟨hTail, hRest⟩ := ih h
      refine ⟨funext fun i => ?_, hRest⟩
      refine Fin.cases hHead (fun j => ?_) i
      exact congrFun hTail j

def comap (E : Delimited β) (f : α → β) (hInjective : ∀ {a b}, f a = f b → a = b) : Delimited α where
  encode a := E.encode (f a)
  unique h := by
    obtain ⟨hSame, hRest⟩ := E.unique h
    exact ⟨hInjective hSame, hRest⟩

end Delimited
end Encoding
