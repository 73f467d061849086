import SovereignSdk.Spec

/-! The bank module: token balances, transfers and supply changes. A failing
operation returns the state it leaves behind, which matters for callers that
do not run inside a transaction. -/
namespace SovereignSdk
open Bounded

structure Token (S : Spec) where
  name : String
  totalSupply : Nat
  supplyCap : Nat
  admins : List S.Holder

structure Bank (S : Spec) where
  balances : S.Holder → TokenId → Option Nat
  tokens : TokenId → Option (Token S)

inductive BankError where
  | insufficientBalance
  | underflow
  | overflow
  | tokenNotFound
  | tokenFrozen
  | notAdmin
  | supplyCapExceeded
  | tooManyDecimals
  | initialBalanceExceedsSupplyCap
  | tokenAlreadyExists
  | adminDoesNotExist
  | adminAlreadyExists
deriving DecidableEq, Repr

namespace Bank
variable {S : Spec}

def empty : Bank S := ⟨fun _ _ => none, fun _ => none⟩

variable (b : Bank S)

def balanceOf (holder : S.Holder) (token : TokenId) : Nat :=
  (b.balances holder token).getD 0

def setBalance (holder : S.Holder) (token : TokenId) (amount : Nat) : Bank S :=
  { b with
    balances := Function.update b.balances holder
        (Function.update (b.balances holder) token (some amount)) }

@[simp] theorem tokens_setBalance (holder : S.Holder) (token : TokenId) (amount : Nat) :
    (b.setBalance holder token amount).tokens = b.tokens := rfl

@[simp] theorem balanceOf_setBalance (holder h : S.Holder) (token t : TokenId) (amount : Nat) :
    (b.setBalance holder token amount).balanceOf h t =
      if h = holder ∧ t = token then amount else b.balanceOf h t := by
  by_cases hh : h = holder
  · subst hh
    by_cases ht : t = token <;> simp [balanceOf, setBalance, ht]
  · simp [balanceOf, setBalance, hh]

/-- `decrease_balance_checked`: writes the reduced balance before returning it. -/
def decreaseBalanceChecked (token : TokenId) (sender : S.Holder) (amount : Nat) : Bank S × Except BankError Nat :=
  match checkedSub (b.balanceOf sender token) amount with
  | none => (b, .error .underflow)
  | some rest => (b.setBalance sender token rest, .ok rest)

/-- `do_transfer`: a transfer to self only checks the balance, a transfer of
zero does nothing, and an overflow of the receiver is noticed after the sender
has been charged. -/
def doTransfer (sender receiver : S.Holder) (token : TokenId) (amount : Nat) : Bank S × Except BankError Unit :=
  if sender = receiver then
    if b.balanceOf sender token < amount then (b, .error .insufficientBalance) else (b, .ok ())
  else if amount = 0 then (b, .ok ())
  else
    match b.decreaseBalanceChecked token sender amount with
    | (b, .error e) => (b, .error e)
    | (b, .ok rest) =>
      match checkedAdd amountMax (b.balanceOf receiver token) amount with
      | none => (b, .error .overflow)
      | some total => ((b.setBalance sender token rest).setBalance receiver token total, .ok ())

def transferGas (sender receiver : S.Holder) (amount : Nat) : Bank S × Except BankError Unit :=
  b.doTransfer sender receiver S.gasTokenId amount

/-- The balances after `amount` has moved from `sender` to `receiver`. -/
def Moved (b b' : Bank S) (sender receiver : S.Holder) (token : TokenId) (amount : Nat) : Prop :=
  b'.tokens = b.tokens ∧ amount ≤ b.balanceOf sender token ∧
    (∀ h t, (t = token → h ≠ sender ∧ h ≠ receiver) → b'.balanceOf h t = b.balanceOf h t) ∧
    (sender = receiver → b'.balanceOf sender token = b.balanceOf sender token) ∧
    (sender ≠ receiver → b'.balanceOf sender token = b.balanceOf sender token - amount ∧
        b'.balanceOf receiver token = b.balanceOf receiver token + amount)

variable {b : Bank S} {sender receiver : S.Holder} {token : TokenId} {amount : Nat}

theorem doTransfer_ok {b'} (h : b.doTransfer sender receiver token amount = (b', .ok ())) :
    Moved b b' sender receiver token amount := by
  unfold doTransfer at h
  split at h
  · rename_i hSame
    split at h
    · cases h
    · cases h
      exact ⟨rfl, by omega, fun _ _ _ => rfl, fun _ => rfl, fun hne => absurd hSame hne⟩
  · rename_i hne
    split at h
    · rename_i hZero
      cases h
      subst hZero
      exact ⟨rfl, Nat.zero_le _, fun _ _ _ => rfl, fun _ => rfl, fun _ => ⟨rfl, rfl⟩⟩
    · unfold decreaseBalanceChecked at h
      cases hSub : checkedSub (b.balanceOf sender token) amount with
      | none => simp [hSub] at h
      | some rest =>
        obtain ⟨hLe, rfl⟩ := checkedSub_eq_some.mp hSub
        simp only [hSub] at h
        split at h
        · cases h
        · rename_i total hAdd
          obtain ⟨-, rfl⟩ := checkedAdd_eq_some.mp hAdd
          cases h
          refine ⟨rfl, hLe, ?_, fun hSame => absurd hSame hne, fun _ => ⟨?_, ?_⟩⟩
          · intro h t hOther
            by_cases ht : t = token
            · simp [hOther ht]
            · simp [ht]
          · simp [hne]
          · simp [Ne.symm hne]

theorem doTransfer_isOk (hFunds : amount ≤ b.balanceOf sender token)
    (hRoom : sender ≠ receiver → b.balanceOf receiver token + amount ≤ amountMax) :
    ∃ b', b.doTransfer sender receiver token amount = (b', .ok ()) := by
  unfold doTransfer
  split
  · simp [Nat.not_lt.mpr hFunds]
  · rename_i hne
    split
    · exact ⟨_, rfl⟩
    · have hSub := checkedSub_eq_some.mpr ⟨hFunds, rfl⟩
      have hAdd := checkedAdd_eq_some.mpr ⟨hRoom hne, rfl⟩
      simp [decreaseBalanceChecked, hSub, Ne.symm hne, hAdd]

/-- Between two holders, nothing else makes a transfer succeed. -/
theorem doTransfer_isOk_iff (hne : sender ≠ receiver) :
    (∃ b', b.doTransfer sender receiver token amount = (b', .ok ())) ↔
      amount = 0 ∨ amount ≤ b.balanceOf sender token ∧ b.balanceOf receiver token + amount ≤ amountMax := by
  by_cases hZero : amount = 0
  · simp [doTransfer, hZero]
  constructor
  · rintro ⟨b', hOk⟩
    obtain ⟨-, hFunds, -⟩ := doTransfer_ok hOk
    refine .inr ⟨hFunds, Nat.not_lt.mp fun hOver => ?_⟩
    have hSub : checkedSub (b.balanceOf sender token) amount =
        some (b.balanceOf sender token - amount) := checkedSub_eq_some.mpr ⟨hFunds, rfl⟩
    have hAdd := checkedAdd_eq_none.mpr hOver
    simp [doTransfer, hne, hZero, decreaseBalanceChecked, hSub, Ne.symm hne, hAdd] at hOk
  · rintro (hNone | ⟨hFunds, hRoom⟩)
    · exact absurd hNone hZero
    · exact doTransfer_isOk hFunds fun _ => hRoom

end Bank
end SovereignSdk
