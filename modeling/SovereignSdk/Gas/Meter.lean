import Mathlib.Algebra.BigOperators.Fin
import SovereignSdk.Library.Bounded
import SovereignSdk.Library.Outcome

/-! Multidimensional gas. A gas amount has one `u64` and a gas price one `u128`
per dimension; every operation works dimension by dimension. -/
namespace SovereignSdk
open Bounded Nat Outcome Option

def u8Max : Nat := 2 ^ 8 - 1

def u32Max : Nat := 2 ^ 32 - 1

def u64Max : Nat := 2 ^ 64 - 1

def amountMax : Nat := 2 ^ 128 - 1

/-- Amounts that arrive from outside and are only known to fit their type. -/
abbrev Amount := Fin (amountMax + 1)

instance (n : Nat) : OfNat Amount n := ⟨Fin.ofNat (amountMax + 1) n⟩

theorem Amount.val_le (a : Amount) : a.val ≤ amountMax := le_of_lt_succ a.isLt

abbrev GasUnit (n : Nat) := Fin n → Nat

abbrev GasPrice (n : Nat) := Fin n → Nat

namespace GasArray
variable {n : Nat}

def zeroed : Fin n → Nat := fun _ => 0

def checkedSub (l r : Fin n → Nat) : Option (Fin n → Nat) :=
  if ∀ i, r i ≤ l i then some fun i => l i - r i else none

/-- `max` is the largest value of the scalar type: `u64` for gas units. -/
def checkedScalarProduct (max : Nat) (g : Fin n → Nat) (scalar : Nat) : Option (Fin n → Nat) :=
  if ∀ i, g i * scalar ≤ max then some fun i => g i * scalar else none

def checkedCombine (max : Nat) (l r : Fin n → Nat) : Option (Fin n → Nat) :=
  if ∀ i, l i + r i ≤ max then some fun i => l i + r i else none

def dimIsLessOrEq (l r : Fin n → Nat) : Bool := decide (∀ i, l i ≤ r i)

def calculateMin (l r : Fin n → Nat) : Fin n → Nat := fun i => min (l i) (r i)

/-- Division by zero gives zero, as `checked_div(..).unwrap_or(0)` does. -/
def scalarDivision (g : Fin n → Nat) (scalar : Nat) : Fin n → Nat := fun i => g i / scalar

variable {l r : Fin n → Nat}

@[simp] theorem checkedSub_eq_some {d} : checkedSub l r = some d ↔ (∀ i, r i ≤ l i) ∧ d = fun i => l i - r i := by
  unfold checkedSub
  split <;> simp_all [eq_comm]

@[simp] theorem checkedSub_eq_none : checkedSub l r = none ↔ ∃ i, l i < r i := by
  unfold checkedSub
  split <;> simp_all

@[simp] theorem dimIsLessOrEq_iff : dimIsLessOrEq l r = true ↔ ∀ i, l i ≤ r i := by
  simp [dimIsLessOrEq]

end GasArray

namespace Gas
variable {n : Nat}

/-- One round of the loop of `checked_value`. -/
def addDimension (g : GasUnit n) (price : GasPrice n) (value : Nat) (i : Fin n) : Option Nat := do
  let v ← checkedMul amountMax (g i) (price i)
  checkedAdd amountMax value v

/-- Token value of a gas amount, accumulated dimension by dimension and absent
as soon as a product or a partial sum overflows. -/
def checkedValue (g : GasUnit n) (price : GasPrice n) : Option Nat :=
  (List.finRange n).foldlM (addDimension g price) 0

/-- The exact value of a gas amount, without the overflow check. -/
def worth (g : GasUnit n) (price : GasPrice n) : Nat := ∑ i, g i * price i

variable {g : GasUnit n} {price : GasPrice n}

theorem addDimension_eq_some {value v i} :
    addDimension g price value i = some v ↔ value + g i * price i ≤ amountMax ∧ v = value + g i * price i := by
  simp only [addDimension, bind_eq_bind, bind_eq_some_iff, checkedMul_eq_some, checkedAdd_eq_some]
  constructor
  · rintro ⟨p, ⟨-, rfl⟩, h⟩
    exact h
  · intro h
    exact ⟨g i * price i, ⟨by omega, rfl⟩, h⟩

private theorem foldlM_addDimension (g : GasUnit n) (price : GasPrice n) (l : List (Fin n)) :
    ∀ acc v : Nat, acc ≤ amountMax →
      (l.foldlM (addDimension g price) acc = some v ↔ acc + (l.map fun i => g i * price i).sum ≤ amountMax ∧
          v = acc + (l.map fun i => g i * price i).sum) := by
  induction l with
  | nil =>
    intro acc v hAcc
    simp [hAcc, eq_comm]
  | cons i rest ih =>
    intro acc v hAcc
    simp only [List.foldlM_cons, bind_eq_bind, bind_eq_some_iff,
      addDimension_eq_some, List.map_cons, List.sum_cons]
    constructor
    · rintro ⟨acc', ⟨hSum, rfl⟩, hRest⟩
      rw [ih _ v hSum] at hRest
      omega
    · rintro ⟨_, hv⟩
      have hHere : acc + g i * price i ≤ amountMax := by omega
      refine ⟨acc + g i * price i, ⟨hHere, rfl⟩, ?_⟩
      rw [ih _ v hHere]
      omega

/-- The accumulation overflows exactly if the whole sum does, since no term is
negative. -/
theorem checkedValue_eq_some {v} : checkedValue g price = some v ↔ worth g price ≤ amountMax ∧ v = worth g price := by
  unfold checkedValue
  rw [foldlM_addDimension g price _ 0 v (zero_le _)]
  simp [worth, Fin.sum_univ_def]

theorem checkedValue_eq_none : checkedValue g price = none ↔ amountMax < worth g price := by
  constructor
  · intro h
    by_contra hle
    have := checkedValue_eq_some.mpr ⟨not_lt.mp hle, rfl⟩
    simp [h] at this
  · intro h
    cases hv : checkedValue g price with
    | none => rfl
    | some v =>
      have := (checkedValue_eq_some.mp hv).1
      omega

theorem worth_mono {h} (price : GasPrice n) (hle : ∀ i, g i ≤ h i) : worth g price ≤ worth h price :=
  Finset.sum_le_sum fun i _ => mul_le_mul_right _ (hle i)

theorem worth_add (g h : GasUnit n) (price : GasPrice n) :
    worth (fun i => g i + h i) price = worth g price + worth h price := by
  simp [worth, add_mul, Finset.sum_add_distrib]

@[simp] theorem worth_zeroed (price : GasPrice n) : worth GasArray.zeroed price = 0 := by
  simp [worth, GasArray.zeroed]

end Gas

/-! Gas meters: the meter of one transaction, the meter shared by the blobs of a
slot, and the split of a locked fee once execution ends. -/

inductive GasMeteringError where
  | overflow
  | outOfFunds
  | outOfGas
  | slotOutOfGas
deriving DecidableEq, Repr

/-- Meter with a gas budget and, for a transaction with a locked fee, a budget
of funds. The gas used never exceeds the budget and its value never overflows,
so reading the meter cannot fail. -/
structure BasicGasMeter (n : Nat) where
  initialGas : GasUnit n
  remainingGas : GasUnit n
  remainingFunds : Option Nat
  gasPrice : GasPrice n
  remaining_le : ∀ i, remainingGas i ≤ initialGas i
  value_le : Gas.worth (fun i => initialGas i - remainingGas i) gasPrice ≤ amountMax

namespace BasicGasMeter
variable {n : Nat}

def gasUsed (m : BasicGasMeter n) : GasUnit n := fun i => m.initialGas i - m.remainingGas i

/-- The value of `gasUsed`; the `expect` around it is discharged by `value_le`. -/
def gasValue (m : BasicGasMeter n) : Nat := Gas.worth m.gasUsed m.gasPrice

theorem worth_unused (g : GasUnit n) (price : GasPrice n) : Gas.worth (fun i => g i - g i) price ≤ amountMax := by
  simp [Gas.worth]

def newWithFundsAndGas (funds : Nat) (gas : GasUnit n) (price : GasPrice n) : BasicGasMeter n :=
  { initialGas := gas, remainingGas := gas, remainingFunds := some funds, gasPrice := price
    remaining_le := fun _ => le_refl _, value_le := worth_unused gas price }

def newWithGas (gas : GasUnit n) (price : GasPrice n) : BasicGasMeter n :=
  { initialGas := gas, remainingGas := gas, remainingFunds := none, gasPrice := price
    remaining_le := fun _ => le_refl _, value_le := worth_unused gas price }

variable {amount : GasUnit n} {m m' : BasicGasMeter n}

theorem remaining_le_of_checkedSub (m : BasicGasMeter n) {remaining : GasUnit n}
    (h : GasArray.checkedSub m.remainingGas amount = some remaining) (i : Fin n) : remaining i ≤ m.initialGas i := by
  obtain ⟨-, rfl⟩ := GasArray.checkedSub_eq_some.mp h
  exact (sub_le _ _).trans (m.remaining_le i)

/-- The funds left after paying for `amount`; a meter without funds skips the
computation. -/
def computeRemainingFunds (m : BasicGasMeter n) (amount : GasUnit n) : Except GasMeteringError (Option Nat) :=
  match m.remainingFunds with
  | none => .ok none
  | some funds =>
    match Gas.checkedValue amount m.gasPrice with
    | none => .error .overflow
    | some value =>
      match checkedSub funds value with
      | none => .error .outOfFunds
      | some rest => .ok (some rest)

def chargeGas (m : BasicGasMeter n) (amount : GasUnit n) : Except GasMeteringError (BasicGasMeter n) :=
  match m.computeRemainingFunds amount with
  | .error e => .error e
  | .ok funds =>
    match hGas : GasArray.checkedSub m.remainingGas amount with
    | none => .error .outOfGas
    | some remaining =>
      match hValue : Gas.checkedValue (fun i => m.initialGas i - remaining i) m.gasPrice with
      | none => .error .overflow
      | some _ =>
        .ok
          { initialGas := m.initialGas
            remainingGas := remaining
            remainingFunds := funds
            gasPrice := m.gasPrice
            remaining_le := remaining_le_of_checkedSub m hGas
            value_le := (Gas.checkedValue_eq_some.mp hValue).1 }

/-- Perform charges in order up to the first that is refused; the flag says
whether all were accepted. -/
def chargeEach (m : BasicGasMeter n) : List (GasUnit n) → BasicGasMeter n × Bool
  | [] => (m, true)
  | amount :: rest =>
    match m.chargeGas amount with
    | .ok m' => chargeEach m' rest
    | .error _ => (m, false)

theorem gasUsed_le (m : BasicGasMeter n) (i : Fin n) : m.gasUsed i ≤ m.initialGas i :=
  sub_le _ _

section
variable (h : m.chargeGas amount = .ok m')
include h

theorem chargeGas_ok :
    (∀ i, amount i ≤ m.remainingGas i) ∧ m'.initialGas = m.initialGas ∧ m'.gasPrice = m.gasPrice ∧
      (m'.remainingGas = fun i => m.remainingGas i - amount i) ∧
      m.computeRemainingFunds amount = .ok m'.remainingFunds := by
  unfold chargeGas at h
  split at h
  · cases h
  · rename_i funds hFunds
    split at h
    · cases h
    · rename_i remaining hGas
      obtain ⟨hLe, hRemain⟩ := GasArray.checkedSub_eq_some.mp hGas
      split at h
      · cases h
      · cases h
        exact ⟨hLe, rfl, rfl, hRemain, hFunds⟩

theorem gasUsed_chargeGas : m'.gasUsed = fun i => m.gasUsed i + amount i := by
  obtain ⟨hGas, hInit, -, hRemain, -⟩ := chargeGas_ok h
  funext i
  have hLe := m.remaining_le i
  have hHere := hGas i
  simp only [gasUsed, hInit, hRemain]
  omega

theorem gasValue_chargeGas : m'.gasValue = m.gasValue + Gas.worth amount m.gasPrice := by
  obtain ⟨-, -, hPrice, -, -⟩ := chargeGas_ok h
  rw [gasValue, gasUsed_chargeGas h, hPrice, Gas.worth_add]
  rfl

end

theorem gasUsed_chargeAll {amounts : List (GasUnit n)} (h : amounts.foldlM chargeGas m = .ok m') (i : Fin n) :
    m'.gasUsed i = m.gasUsed i + (amounts.map (· i)).sum := by
  induction amounts generalizing m with
  | nil =>
    cases h
    rfl
  | cons amount rest ih =>
    simp only [List.foldlM_cons, bind_eq_ok] at h
    obtain ⟨next, hCharge, hRest⟩ := h
    rw [ih hRest, gasUsed_chargeGas hCharge, List.map_cons, List.sum_cons, Nat.add_assoc]

/-- The funds of the meter and the value of the gas used add up to `maxFee`. -/
def Funded (m : BasicGasMeter n) (maxFee : Nat) : Prop :=
  ∃ funds, m.remainingFunds = some funds ∧ funds + m.gasValue = maxFee

theorem funded_newWithFundsAndGas (funds : Nat) (gas : GasUnit n) (price : GasPrice n) :
    (newWithFundsAndGas funds gas price).Funded funds := by
  refine ⟨funds, rfl, ?_⟩
  simp [gasValue, gasUsed, newWithFundsAndGas, Gas.worth]

theorem Funded.chargeGas {maxFee} (hm : m.Funded maxFee) (h : m.chargeGas amount = .ok m') : m'.Funded maxFee := by
  obtain ⟨funds, hFunds, _⟩ := hm
  have hRest := (chargeGas_ok h).2.2.2.2
  simp only [computeRemainingFunds, hFunds] at hRest
  split at hRest
  · cases hRest
  · rename_i value hValue
    obtain ⟨-, rfl⟩ := Gas.checkedValue_eq_some.mp hValue
    split at hRest
    · cases hRest
    · rename_i rest hSub
      obtain ⟨_, rfl⟩ := checkedSub_eq_some.mp hSub
      refine ⟨_, (Except.ok.inj hRest).symm, ?_⟩
      rw [gasValue_chargeGas h]
      omega

theorem Funded.gasValue_le {maxFee} (h : m.Funded maxFee) : m.gasValue ≤ maxFee := by
  obtain ⟨funds, -, _⟩ := h
  omega

theorem chargeEach_invariant (inv : BasicGasMeter n → Prop)
    (hStep : ∀ m m' amount, inv m → m.chargeGas amount = .ok m' → inv m') :
    ∀ (amounts : List (GasUnit n)) (m : BasicGasMeter n), inv m → inv (m.chargeEach amounts).1 := by
  intro amounts
  induction amounts with
  | nil => exact fun m h => h
  | cons amount rest ih =>
    intro m h
    unfold chargeEach
    split
    · rename_i m' hCharge
      exact ih m' (hStep m m' amount h hCharge)
    · exact h

theorem chargeEach_initialGas (m : BasicGasMeter n) (amounts : List (GasUnit n)) :
    (m.chargeEach amounts).1.initialGas = m.initialGas :=
  chargeEach_invariant (fun m' => m'.initialGas = m.initialGas)
    (fun _ _ _ hInv hCharge => (chargeGas_ok hCharge).2.1.trans hInv) amounts m rfl

theorem chargeEach_gasPrice (m : BasicGasMeter n) (amounts : List (GasUnit n)) :
    (m.chargeEach amounts).1.gasPrice = m.gasPrice :=
  chargeEach_invariant (fun m' => m'.gasPrice = m.gasPrice)
    (fun _ _ _ hInv hCharge => (chargeGas_ok hCharge).2.2.1.trans hInv) amounts m rfl

end BasicGasMeter

def preferredNumerator : Nat := 9

def preferredDenominator : Nat := 10

/-- Gas of one slot, with a separate budget for the preferred sequencer. -/
structure SlotGasMeter (A : Type) (n : Nat) where
  preferredSequencer : Option A
  initialSlotGas : GasUnit n
  remainingPreferredSlotGas : GasUnit n
  remainingTotalSlotGas : GasUnit n

namespace SlotGasMeter
variable {A : Type} {n : Nat}

/-- `SlotGasMeter::new`; the product is unwrapped in the source. -/
def new (limit : GasUnit n) (preferred : Option A) : Option (SlotGasMeter A n) := do
  let share ← GasArray.checkedScalarProduct u64Max
    (GasArray.scalarDivision limit preferredDenominator) preferredNumerator
  return { preferredSequencer := preferred, initialSlotGas := limit
           remainingPreferredSlotGas := share, remainingTotalSlotGas := limit }

variable [DecidableEq A] (m : SlotGasMeter A n)

def remainingSlotGas (sequencer : A) : GasUnit n :=
  if some sequencer = m.preferredSequencer then m.remainingPreferredSlotGas
  else m.remainingTotalSlotGas

def chargeGas (gas : GasUnit n) (sequencer : A) : Except GasMeteringError (SlotGasMeter A n) := do
  let preferred ←
    if some sequencer = m.preferredSequencer then
      unwrap .slotOutOfGas (GasArray.checkedSub m.remainingPreferredSlotGas gas)
    else .ok m.remainingPreferredSlotGas
  let total ← unwrap .slotOutOfGas (GasArray.checkedSub m.remainingTotalSlotGas gas)
  return { m with remainingPreferredSlotGas := preferred, remainingTotalSlotGas := total }

def totalGasUsed : Option (GasUnit n) :=
  GasArray.checkedSub m.initialSlotGas m.remainingTotalSlotGas

/-- A charge succeeds exactly if it fits every budget it draws on, in every dimension. -/
theorem chargeGas_isOk_iff {m : SlotGasMeter A n} {gas : GasUnit n} {sequencer : A} :
    (∃ m', m.chargeGas gas sequencer = .ok m') ↔
      (some sequencer = m.preferredSequencer → ∀ i, gas i ≤ m.remainingPreferredSlotGas i) ∧
        ∀ i, gas i ≤ m.remainingTotalSlotGas i := by
  unfold chargeGas
  split
  · simp [bind_eq_ok, pure, Except.pure, *]
  · simp [bind_eq_ok, pure, Except.pure, *]

end SlotGasMeter
end SovereignSdk
