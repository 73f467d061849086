import Mathlib.Algebra.Order.Sub.Basic
import SovereignSdk.Gas.Meter

/-! The rate limiter of the sequencer. Every key has a bucket of several resources; a request is admitted
while all of them are below their limits, and time refills the bucket. -/
namespace SovereignSdk
open Bounded Outcome GasArray

/-- The fields of a `Resource` that are limited; gas is tracked, but nothing is refused for it. -/
inductive Limited where
  | reqCounter
  | spaceInBytes
  | executionTimeMicros

def Limited.all : List Limited := [.reqCounter, .spaceInBytes, .executionTimeMicros]

theorem Limited.mem_all (d : Limited) : d ∈ all := by
  cases d <;> simp [all]

structure Resource (n : Nat) where
  used : Limited → Nat
  gasUsed : GasUnit n

inductive LimiterError where
  | limitExceeded (dimension : Limited) (totalAccumulated maxAllowed : Nat)
  | elapsedOverflow

variable {n : Nat}

namespace Resource

/-- Gas that would be negative in one dimension is zero in all of them. -/
def saturatingSub (r tokens : Resource n) : Resource n :=
  ⟨fun d => r.used d - tokens.used d, (checkedSub r.gasUsed tokens.gasUsed).getD zeroed⟩

def saturatingMulByScalar (r : Resource n) (scalar : Nat) : Resource n :=
  ⟨fun d => saturatingMul u64Max (r.used d) scalar, (checkedScalarProduct u64Max r.gasUsed scalar).getD fun _ => u64Max⟩

def errIfExceeding (r other : Resource n) : Except LimiterError Unit :=
  match Limited.all.find? fun d => other.used d ≤ r.used d with
  | some d => .error (.limitExceeded d (r.used d) (other.used d))
  | none => .ok ()

/-- The tokens of some milliseconds are taken off the usage. -/
def refill (used rate : Resource n) (millis : Nat) : Resource n := used.saturatingSub (rate.saturatingMulByScalar millis)

end Resource

structure RateLimiterConfig (n : Nat) where
  maxAllowedResources : Resource n
  refillRate : Resource n

/-- `last_refill` is in nanoseconds. -/
structure Throttler (n : Nat) where
  totalResourceUsed : Resource n
  lastRefill : Nat

def asMillis (nanos : Nat) : Nat := nanos / 1000000

namespace Throttler

def allowRequestAndRefillResourceUsed (t : Throttler n) (now : Nat) (config : RateLimiterConfig n) :
    Except LimiterError (Throttler n) := do
  ensure .elapsedOverflow (asMillis (now - t.lastRefill) ≤ u64Max)
  let used := t.totalResourceUsed.refill config.refillRate (asMillis (now - t.lastRefill))
  used.errIfExceeding config.maxAllowedResources
  return ⟨used, now⟩

end Throttler

namespace Resource
variable {used rate max : Resource n} {millis more : Nat} {d : Limited}

theorem errIfExceeding_eq_ok : used.errIfExceeding max = .ok () ↔ ∀ d, used.used d < max.used d := by
  unfold errIfExceeding
  cases hFind : Limited.all.find? fun d => max.used d ≤ used.used d with
  | some d =>
    have hReach := List.find?_some hFind
    simp only [reduceCtorEq, false_iff, not_forall]
    exact ⟨d, by simpa using hReach⟩
  | none =>
    simp only [List.find?_eq_none, decide_eq_true_eq, Nat.not_le] at hFind
    simp only [true_iff]
    exact fun d => hFind d (Limited.mem_all d)

structure Fits (r : Resource n) : Prop where
  used : ∀ d, r.used d ≤ u64Max
  gas : ∀ i, r.gasUsed i ≤ u64Max

theorem refill_used (hFits : used.Fits) (d : Limited) :
    (used.refill rate millis).used d = used.used d - rate.used d * millis := by
  have hMax := hFits.used d
  simp only [refill, saturatingSub, saturatingMulByScalar, saturatingMul]
  omega

def remaining (gas tokens : GasUnit n) : GasUnit n := if ∀ i, tokens i ≤ gas i then gas - tokens else 0

theorem remaining_remaining (gas a b : GasUnit n) :
    remaining (remaining gas a) b = remaining gas fun i => a i + b i := by
  unfold remaining
  by_cases hFirst : ∀ i, a i ≤ gas i
  · have hBoth : (∀ i, b i ≤ (gas - a) i) ↔ ∀ i, a i + b i ≤ gas i :=
      forall_congr' fun i => Nat.le_sub_iff_add_le' (hFirst i)
    simp only [if_pos hFirst, hBoth]
    split
    · funext i
      exact Nat.sub_sub ..
    · rfl
  · have hBoth : ¬∀ i, a i + b i ≤ gas i := fun h => hFirst fun i => (Nat.le_add_right ..).trans (h i)
    rw [if_neg hFirst, if_neg hBoth]
    split
    · funext i
      exact Nat.zero_sub _
    · rfl

theorem remaining_eq_iff {gas tokens : GasUnit n} : remaining gas tokens = gas ↔ gas = 0 ∨ tokens = 0 := by
  unfold remaining
  split
  · rename_i hLe
    constructor
    · intro h
      refine .inr (funext fun i => ?_)
      have hSame : gas i - tokens i = gas i := congrFun h i
      have hLe := hLe i
      change tokens i = 0
      omega
    · rintro (rfl | rfl)
      · exact funext fun i => Nat.zero_sub _
      · rfl
  · rename_i hShort
    constructor
    · exact fun h => .inl h.symm
    · rintro (rfl | rfl)
      · rfl
      · exact absurd (fun i => Nat.zero_le _) hShort

theorem refill_gas (hFits : used.Fits) :
    (used.refill rate millis).gasUsed = remaining used.gasUsed fun i => rate.gasUsed i * millis := by
  change (checkedSub used.gasUsed
    ((checkedScalarProduct u64Max rate.gasUsed millis).getD fun _ => u64Max)).getD _ = _
  rw [checkedScalarProduct, remaining]
  by_cases hProduct : ∀ i, rate.gasUsed i * millis ≤ u64Max
  · rw [if_pos hProduct, Option.getD_some, GasArray.checkedSub]
    split <;> rfl
  · have hShort : ¬∀ i, rate.gasUsed i * millis ≤ used.gasUsed i := fun h => hProduct fun i => (h i).trans (hFits.gas i)
    rw [if_neg hProduct, if_neg hShort, Option.getD_none, GasArray.checkedSub]
    split
    · simp only [Option.getD_some, Nat.sub_eq_zero_of_le (hFits.gas _)]
      rfl
    · rfl

theorem refill_fits (hFits : used.Fits) : (used.refill rate millis).Fits := by
  constructor
  · intro d
    exact (Nat.sub_le _ _).trans (hFits.used d)
  · intro i
    rw [refill_gas hFits, remaining]
    split
    · exact (Nat.sub_le _ _).trans (hFits.gas i)
    · exact Nat.zero_le _

theorem refill_refill (hFits : used.Fits) :
    (used.refill rate millis).refill rate more = used.refill rate (millis + more) := by
  refine congrArg₂ Resource.mk (funext fun d => ?_) ?_
  · change ((used.refill rate millis).refill rate more).used d = (used.refill rate (millis + more)).used d
    rw [refill_used (refill_fits hFits), refill_used hFits, refill_used hFits, Nat.mul_add, Nat.sub_sub]
  · change ((used.refill rate millis).refill rate more).gasUsed = (used.refill rate (millis + more)).gasUsed
    rw [refill_gas (refill_fits hFits), refill_gas hFits, refill_gas hFits, remaining_remaining]
    simp only [Nat.mul_add]

/-- Another millisecond changes nothing. -/
structure Settled (r rate : Resource n) : Prop where
  used : ∀ d, r.used d = 0 ∨ rate.used d = 0
  gas : r.gasUsed = 0 ∨ rate.gasUsed = 0

theorem refill_one_eq_iff (hFits : used.Fits) : used.refill rate 1 = used ↔ used.Settled rate := by
  have hUsed : (used.refill rate 1).used = used.used ↔ ∀ d, used.used d = 0 ∨ rate.used d = 0 := by
    refine funext_iff.trans (forall_congr' fun d => ?_)
    rw [refill_used hFits]
    omega
  have hGas : (used.refill rate 1).gasUsed = used.gasUsed ↔ used.gasUsed = 0 ∨ rate.gasUsed = 0 := by
    rw [refill_gas hFits, remaining_eq_iff]
    simp only [Nat.mul_one]
  constructor
  · intro h
    exact ⟨hUsed.mp (congrArg _ h), hGas.mp (congrArg _ h)⟩
  · rintro ⟨h, h'⟩
    exact congrArg₂ Resource.mk (hUsed.mpr h) (hGas.mpr h')

end Resource

namespace Throttler
variable {config : RateLimiterConfig n} {t t' first second : Throttler n} {now later : Nat}

theorem allow_eq_ok : t.allowRequestAndRefillResourceUsed now config = .ok t' ↔
    asMillis (now - t.lastRefill) ≤ u64Max ∧
    (∀ d, (t.totalResourceUsed.refill config.refillRate (asMillis (now - t.lastRefill))).used d <
      config.maxAllowedResources.used d) ∧
    t' = ⟨t.totalResourceUsed.refill config.refillRate (asMillis (now - t.lastRefill)), now⟩ := by
  simp only [allowRequestAndRefillResourceUsed, bind_eq_ok, ensure_eq_ok, pure_eq_ok]
  constructor
  · rintro ⟨_, hElapsed, _, hBelow, rfl⟩
    exact ⟨hElapsed, Resource.errIfExceeding_eq_ok.mp hBelow, rfl⟩
  · rintro ⟨hElapsed, hBelow, rfl⟩
    exact ⟨(), hElapsed, (), Resource.errIfExceeding_eq_ok.mpr hBelow, rfl⟩

/-- Two refills leave the usage that one refill leaves, if and only if no millisecond is lost between the two
roundings, or there is nothing left to refill. -/
theorem refills_add_up_iff (hFits : t.totalResourceUsed.Fits) (hNow : t.lastRefill ≤ now) (hLater : now ≤ later)
    (hFirst : t.allowRequestAndRefillResourceUsed now config = .ok first)
    (hSecond : first.allowRequestAndRefillResourceUsed later config = .ok second) :
    (∃ once, t.allowRequestAndRefillResourceUsed later config = .ok once ∧
      once.totalResourceUsed = second.totalResourceUsed) ↔
    asMillis (later - t.lastRefill) ≤ u64Max ∧
    (asMillis (now - t.lastRefill) + asMillis (later - now) = asMillis (later - t.lastRefill) ∨
      (t.totalResourceUsed.refill config.refillRate
        (asMillis (now - t.lastRefill) + asMillis (later - now))).Settled config.refillRate) := by
  obtain ⟨-, -, rfl⟩ := allow_eq_ok.mp hFirst
  obtain ⟨-, hBelow, rfl⟩ := allow_eq_ok.mp hSecond
  simp only [Resource.refill_refill hFits] at hBelow ⊢
  have hCarry : asMillis (later - t.lastRefill) = asMillis (now - t.lastRefill) + asMillis (later - now) ∨
      asMillis (later - t.lastRefill) = asMillis (now - t.lastRefill) + asMillis (later - now) + 1 := by
    unfold asMillis
    omega
  generalize asMillis (now - t.lastRefill) + asMillis (later - now) = millis at *
  have hOnce : (∃ once, t.allowRequestAndRefillResourceUsed later config = .ok once ∧
      once.totalResourceUsed = t.totalResourceUsed.refill config.refillRate millis) ↔
      asMillis (later - t.lastRefill) ≤ u64Max ∧
      t.totalResourceUsed.refill config.refillRate (asMillis (later - t.lastRefill)) =
        t.totalResourceUsed.refill config.refillRate millis := by
    constructor
    · rintro ⟨once, hAllow, hSame⟩
      obtain ⟨hElapsed, -, rfl⟩ := allow_eq_ok.mp hAllow
      exact ⟨hElapsed, hSame⟩
    · rintro ⟨hElapsed, hSame⟩
      exact ⟨_, allow_eq_ok.mpr ⟨hElapsed, hSame ▸ hBelow, rfl⟩, hSame⟩
  rw [hOnce]
  refine and_congr_right fun _ => ?_
  rcases hCarry with hSame | hLost
  · rw [hSame]
    simp
  · rw [hLost, ← Resource.refill_refill hFits, Resource.refill_one_eq_iff (Resource.refill_fits hFits)]
    simp

def onePerMilli : RateLimiterConfig 1 := ⟨⟨fun _ => 100, fun _ => 100⟩, ⟨fun _ => 1, fun _ => 1⟩⟩

/-- Two checks 0.6 milliseconds apart refill nothing; one check after 1.2 milliseconds does. -/
theorem frequent_checks_lose_time :
    let t : Throttler 1 := ⟨⟨fun _ => 10, fun _ => 10⟩, 0⟩
    ∃ first second once, t.allowRequestAndRefillResourceUsed 600000 onePerMilli = .ok first ∧
      first.allowRequestAndRefillResourceUsed 1200000 onePerMilli = .ok second ∧
      t.allowRequestAndRefillResourceUsed 1200000 onePerMilli = .ok once ∧
      second.totalResourceUsed.used .reqCounter = 10 ∧ once.totalResourceUsed.used .reqCounter = 9 :=
  ⟨_, _, _, rfl, rfl, rfl, rfl, rfl⟩

/-- Two refills after whole milliseconds are worth as much as one. -/
theorem whole_milliseconds_add_up :
    let t : Throttler 1 := ⟨⟨fun _ => 10, fun _ => 10⟩, 0⟩
    ∃ first second once, t.allowRequestAndRefillResourceUsed 1000000 onePerMilli = .ok first ∧
      first.allowRequestAndRefillResourceUsed 3000000 onePerMilli = .ok second ∧
      t.allowRequestAndRefillResourceUsed 3000000 onePerMilli = .ok once ∧
      once.totalResourceUsed = second.totalResourceUsed := by
  obtain ⟨once, hOnce, hSame⟩ := (@refills_add_up_iff 1 onePerMilli ⟨⟨fun _ => 10, fun _ => 10⟩, 0⟩ _ _ 1000000 3000000
    ⟨fun _ => show 10 ≤ u64Max by decide, by decide⟩ (by decide) (by decide) rfl rfl).mpr ⟨by decide, .inl rfl⟩
  exact ⟨_, _, once, rfl, rfl, hOnce, hSame⟩

end Throttler

end SovereignSdk
