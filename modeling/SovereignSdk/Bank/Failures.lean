import SovereignSdk.Bank.Supply

/-! What a failing bank call leaves behind where nobody reverts it: the calls that write step by step, each write in
place. -/
namespace SovereignSdk
open Bounded Outcome

variable {S : Spec}

namespace Bank.InPlace

/-- `burn`: the reduced supply is written before the balance is checked. -/
def burn (b : Bank S) (token : TokenId) (amount : Nat) (owner : S.Holder) : Bank S × Except BankError Unit :=
  match b.tokens token with
  | none => (b, .error .tokenNotFound)
  | some t =>
    match checkedSub t.totalSupply amount with
    | none => (b, .error .underflow)
    | some supply =>
      match (b.setToken token { t with totalSupply := supply }).decreaseBalanceChecked token owner amount with
      | (b, .error e) => (b, .error e)
      | (b, .ok _) => (b, .ok ())

/-- `mint`: the raised supply is written before the balance is raised. -/
def mint (b : Bank S) (token : TokenId) (amount : Nat) (mintTo authorizer : S.Holder) :
    Bank S × Except BankError Unit :=
  match b.tokens token with
  | none => (b, .error .tokenNotFound)
  | some t =>
    match t.updateForMintIfAllowed authorizer amount with
    | .error e => (b, .error e)
    | .ok t =>
      match checkedAdd amountMax ((b.setToken token t).balanceOf mintTo token) amount with
      | none => (b.setToken token t, .error .overflow)
      | some total => ((b.setToken token t).setBalance mintTo token total, .ok ())

/-- The calls that other modules make without reverting a failure. -/
inductive Call (S : Spec) where
  | burn (token : TokenId) (amount : Amount) (owner : S.Holder)
  | mint (token : TokenId) (amount : Amount) (mintTo authorizer : S.Holder)
  | transferFrom (sender receiver : S.Holder) (token : TokenId) (amount : Amount)

def Call.operation : Call S → Operation S
  | .burn token amount owner => .burn token amount owner
  | .mint token amount mintTo authorizer => .mint token amount mintTo authorizer
  | .transferFrom sender receiver token amount => .transferFrom sender receiver token amount

def call (b : Bank S) : Call S → Bank S × Except BankError Unit
  | .burn token amount owner => burn b token amount owner
  | .mint token amount mintTo authorizer => mint b token amount mintTo authorizer
  | .transferFrom sender receiver token amount => b.doTransfer sender receiver token amount

/-- With its failures reverted, a call is the operation of the bank. -/
theorem perform_eq_call (b : Bank S) (c : Call S) : b.perform c.operation = match call b c with
    | (_, .error e) => .error e
    | (b, .ok ()) => .ok b := by
  cases c with
  | burn token amount owner =>
    simp only [Call.operation, perform, Bank.burn, call, burn]
    cases b.tokens token with
    | none => rfl
    | some t =>
      cases hSupply : checkedSub t.totalSupply amount with
      | none => simp [hSupply]
      | some supply =>
        cases hRest : checkedSub (b.balanceOf owner token) amount <;> simp [hSupply, decreaseBalanceChecked, hRest]
  | mint token amount mintTo authorizer =>
    simp only [Call.operation, perform, Bank.mint, call, mint]
    cases b.tokens token with
    | none => rfl
    | some t =>
      cases hToken : t.updateForMintIfAllowed authorizer amount with
      | error e => simp [hToken]
      | ok t' =>
        cases hTotal : checkedAdd amountMax (b.balanceOf mintTo token) amount <;> simp [hToken, hTotal]
  | transferFrom sender receiver token amount => rfl

/-- A burn of more than its owner has, but not more than there is. -/
def Call.Overdrawn (b : Bank S) : Call S → Prop
  | .burn token amount owner => b.balanceOf owner token < amount ∧ amount ≤ b.supplyOf token
  | _ => False

variable {b : Bank S} {token : TokenId} {amount : Nat} {owner mintTo authorizer sender receiver : S.Holder}

theorem burn_of_overdrawn (hShort : b.balanceOf owner token < amount) (hLe : amount ≤ b.supplyOf token) :
    (burn b token amount owner).2 = .error .underflow ∧ (burn b token amount owner).1 ≠ b := by
  cases ht : b.tokens token with
  | none =>
    simp only [supplyOf, ht, Option.map_none, Option.getD_none] at hLe
    omega
  | some t =>
    rw [supplyOf_of_tokens ht] at hLe
    have hBurn : burn b token amount owner =
        (b.setToken token { t with totalSupply := t.totalSupply - amount }, .error .underflow) := by
      have hSupply := checkedSub_eq_some.mpr ⟨hLe, rfl⟩
      have hRest := checkedSub_eq_none.mpr hShort
      simp [burn, ht, hSupply, decreaseBalanceChecked, hRest]
    refine ⟨congrArg Prod.snd hBurn, fun hSame => ?_⟩
    have hReduced := supplyOf_setToken_eq b token token { t with totalSupply := t.totalSupply - amount }
    rw [hBurn] at hSame
    dsimp only at hSame
    rw [hSame, if_pos rfl, supplyOf_of_tokens ht] at hReduced
    dsimp only at hReduced
    omega

variable {e : BankError}

theorem burn_failed (hNot : ¬(b.balanceOf owner token < amount ∧ amount ≤ b.supplyOf token))
    (h : (burn b token amount owner).2 = .error e) : (burn b token amount owner).1 = b := by
  unfold burn at h ⊢
  cases ht : b.tokens token with
  | none => rfl
  | some t =>
    rw [ht] at h
    rw [supplyOf_of_tokens ht] at hNot
    cases hSupply : checkedSub t.totalSupply amount with
    | none => simp [hSupply]
    | some supply =>
      have hFunds := (checkedSub_eq_some.mp hSupply).1
      have hRest := checkedSub_eq_some.mpr ⟨(by omega : amount ≤ b.balanceOf owner token), rfl⟩
      simp [hSupply, decreaseBalanceChecked, hRest] at h

theorem mint_failed (hCover : ∀ h, b.balanceOf h token ≤ b.supplyOf token)
    (h : (mint b token amount mintTo authorizer).2 = .error e) : (mint b token amount mintTo authorizer).1 = b := by
  unfold mint at h ⊢
  cases ht : b.tokens token with
  | none => rfl
  | some t =>
    rw [ht] at h
    cases hToken : t.updateForMintIfAllowed authorizer amount with
    | error e => simp [hToken]
    | ok t' =>
      have hRoom : b.balanceOf mintTo token + amount ≤ amountMax := by
        have := supplyOf_of_tokens ht
        have := hCover mintTo
        unfold Token.updateForMintIfAllowed at hToken
        split_ifs at hToken
        split at hToken
        · cases hToken
        · rename_i hAdd
          have := (checkedAdd_eq_some.mp hAdd).1
          omega
      have hTotal := checkedAdd_eq_some.mpr ⟨hRoom, rfl⟩
      simp [hToken, hTotal] at h

theorem doTransfer_failed
    (hRoom : sender ≠ receiver → b.balanceOf sender token + b.balanceOf receiver token ≤ amountMax)
    (h : (b.doTransfer sender receiver token amount).2 = .error e) :
    (b.doTransfer sender receiver token amount).1 = b := by
  by_cases hFunds : amount ≤ b.balanceOf sender token
  · obtain ⟨b', hOk⟩ := doTransfer_isOk hFunds fun hne => (by
      have := hRoom hne
      omega : b.balanceOf receiver token + amount ≤ amountMax)
    rw [hOk] at h
    cases h
  · have hSub := checkedSub_eq_none.mpr (Nat.not_le.mp hFunds)
    unfold doTransfer decreaseBalanceChecked
    split_ifs
    · rfl
    · rfl
    · rfl
    · rw [hSub]

/-- A failing call leaves the bank as it was, except for a burn that is overdrawn. -/
theorem failed_call_keeps_bank_iff (b : Bank S)
    (hTotal : ∀ token, TotalIs (fun holder => b.balanceOf holder token) (b.supplyOf token))
    (hFits : ∀ token, b.supplyOf token ≤ amountMax) (c : Call S) :
    ((∃ e, (call b c).2 = .error e) → (call b c).1 = b) ↔ ¬c.Overdrawn b := by
  cases c with
  | burn token amount owner =>
    refine ⟨fun hKept hOver => ?_, fun hNot ⟨e, h⟩ => burn_failed hNot h⟩
    obtain ⟨hError, hChanged⟩ := burn_of_overdrawn hOver.1 hOver.2
    exact hChanged (hKept ⟨_, hError⟩)
  | mint token amount mintTo authorizer =>
    simp only [Call.Overdrawn, not_false_eq_true, iff_true]
    rintro ⟨e, h⟩
    exact mint_failed (fun holder => (hTotal token).atMost.le holder) h
  | transferFrom sender receiver token amount =>
    simp only [Call.Overdrawn, not_false_eq_true, iff_true]
    rintro ⟨e, h⟩
    exact doTransfer_failed (fun hne => ((hTotal token).atMost.pair hne).trans (hFits token)) h

/-- A token with a supply of ten, four of them with the user 7 and six with the user 8. -/
def twoHolders : Bank testSpec :=
  ((((empty.setToken 0 ⟨"coin", 4, 10, []⟩).setBalance (.user (7 : Nat)) 0 4).setToken 0
    ⟨"coin", 10, 10, []⟩).setBalance (.user (8 : Nat)) 0 6)

theorem twoHolders_balanced : twoHolders.Balanced :=
  (balanced_empty.change (by decide) (by decide)).change (by decide) (by decide)

theorem twoHolders_fits (token : TokenId) : twoHolders.supplyOf token ≤ amountMax := by
  by_cases hToken : token = 0
  · subst hToken
    decide
  · have hNone : twoHolders.tokens token = none := by simp [twoHolders, setToken, empty, hToken]
    simp [supplyOf, hNone]

/-- The user 7 fails to burn five coins, and five are gone from the supply. -/
theorem overdrawn_burn_reduces_supply :
    (∀ token, TotalIs (fun holder => twoHolders.balanceOf holder token) (twoHolders.supplyOf token)) ∧
      (∀ token, twoHolders.supplyOf token ≤ amountMax) ∧
      (call twoHolders (.burn 0 5 (.user (7 : Nat)))).2 = .error .underflow ∧
      (call twoHolders (.burn 0 5 (.user (7 : Nat)))).1.supplyOf 0 = 5 ∧ twoHolders.supplyOf 0 = 10 :=
  ⟨twoHolders_balanced.total, twoHolders_fits, rfl, rfl, rfl⟩

/-- A burn of more than there is leaves the bank as it was. -/
theorem burn_above_supply_keeps_bank : (call twoHolders (.burn 0 11 (.user (7 : Nat)))).1 = twoHolders :=
  (failed_call_keeps_bank_iff twoHolders twoHolders_balanced.total twoHolders_fits (.burn 0 11 (.user (7 : Nat)))).mpr
    (fun h => absurd h.2 (by decide)) ⟨_, rfl⟩

end Bank.InPlace
end SovereignSdk
