import SovereignSdk.Bank

/-! The calls users make to the bank module, and the supply that covers all
balances. A failing call is reverted with its transaction, so only the error is
returned. -/
namespace SovereignSdk
open Bounded Outcome Token Nat

/-- The part of a transaction context that module calls read. -/
structure Context (S : Spec) where
  sender : S.Address
  /-- Rollup address of the sequencer of the batch. -/
  sequencer : S.Address
  sequencerDaAddress : S.DaAddress

namespace Token
variable {S : Spec} (t : Token S)

def findAdminIndex (admin : S.Address) : Option Nat :=
  t.admins.findIdx? (· = .user admin)

def freeze (sender : S.Holder) : Except BankError (Token S) :=
  if t.admins = [] then .error .tokenFrozen
  else if sender ∈ t.admins then .ok { t with admins := [] }
  else .error .notAdmin

def updateAdmin (newAdmin : Option S.Address) (adminToReplace : S.Address) : Except BankError (Token S) :=
  match t.findAdminIndex adminToReplace, newAdmin with
  | none, _ => .error .adminDoesNotExist
  | some position, some admin =>
    if (t.findAdminIndex admin).isSome then .error .adminAlreadyExists
    else .ok { t with admins := t.admins.set position (.user admin) }
  | some position, none => .ok { t with admins := t.admins.eraseIdx position }

def updateForMintIfAllowed (authorizer : S.Holder) (amount : Nat) : Except BankError (Token S) :=
  if t.admins = [] then .error .tokenFrozen
  else if authorizer ∈ t.admins then
    match checkedAdd amountMax t.totalSupply amount with
    | none => .error .overflow
    | some supply =>
      if t.supplyCap < supply then .error .supplyCapExceeded
      else .ok { t with totalSupply := supply }
  else .error .notAdmin

end Token

namespace Bank
variable {S : Spec}

def maxDecimals : Nat := 39

section
variable (b : Bank S)

def setToken (token : TokenId) (t : Token S) : Bank S :=
  { b with tokens := Function.update b.tokens token (some t) }

@[simp] theorem balanceOf_setToken (token k : TokenId) (t : Token S) (h : S.Holder) :
    (b.setToken token t).balanceOf h k = b.balanceOf h k := rfl

def createToken (name : String) (decimals : Option Nat) (initialBalance : Nat)
    (mintTo : S.Holder) (admins : List S.Holder) (supplyCap : Option Amount) (minter : S.Holder) :
    Except BankError (Bank S) :=
  if decimals.any (maxDecimals < ·) then .error .tooManyDecimals
  else
    let cap := (supplyCap.map Fin.val).getD amountMax
    if cap < initialBalance then .error .initialBalanceExceedsSupplyCap
    else
      let token := S.hashTokenId name decimals minter
      match b.tokens token with
      | some _ => .error .tokenAlreadyExists
      | none =>
        .ok ((b.setBalance mintTo token initialBalance).setToken token
          { name, totalSupply := initialBalance, supplyCap := cap, admins := admins.eraseDups })

def mint (token : TokenId) (amount : Nat) (mintTo authorizer : S.Holder) : Except BankError (Bank S) := do
  let t ← unwrap .tokenNotFound (b.tokens token)
  let t ← t.updateForMintIfAllowed authorizer amount
  let total ← unwrap .overflow (checkedAdd amountMax (b.balanceOf mintTo token) amount)
  return (b.setToken token t).setBalance mintTo token total

def burn (token : TokenId) (amount : Nat) (owner : S.Holder) : Except BankError (Bank S) := do
  let t ← unwrap .tokenNotFound (b.tokens token)
  let supply ← unwrap .underflow (checkedSub t.totalSupply amount)
  let rest ← unwrap .underflow (checkedSub (b.balanceOf owner token) amount)
  return (b.setToken token { t with totalSupply := supply }).setBalance owner token rest

def freeze (b : Bank S) (token : TokenId) (sender : S.Address) : Except BankError (Bank S) := do
  let t ← unwrap .tokenNotFound (b.tokens token)
  let t ← t.freeze (.user sender)
  return b.setToken token t

def updateAdminAddress (newAddress : Option S.Address) (token : TokenId)
    (sender : S.Address) : Except BankError (Bank S) := do
  let t ← unwrap .tokenNotFound (b.tokens token)
  let t ← t.updateAdmin newAddress sender
  return b.setToken token t

def transfer (sender receiver : S.Address) (token : TokenId) (amount : Nat) : Except BankError (Bank S) :=
  match b.doTransfer (.user sender) (.user receiver) token amount with
  | (_, .error e) => .error e
  | (b, .ok ()) => .ok b

/-- Call messages of the bank; a transfer with a memo moves the same coins. -/
inductive CallMessage (S : Spec) where
  | createToken (name : String) (decimals : Option Nat) (initialBalance : Amount)
      (mintTo : S.Address) (admins : List S.Address) (supplyCap : Option Amount)
  | transfer (receiver : S.Address) (token : TokenId) (amount : Amount)
  | burn (token : TokenId) (amount : Amount)
  | mint (token : TokenId) (amount : Amount) (mintTo : S.Address)
  | freeze (token : TokenId)
  | updateAdmin (newAdmin : Option S.Address) (token : TokenId)

def call (context : Context S) : CallMessage S → Except BankError (Bank S)
  | .createToken name decimals initialBalance mintTo admins supplyCap =>
    b.createToken name decimals initialBalance (.user mintTo) (admins.map .user) supplyCap
      (.user context.sender)
  | .transfer receiver token amount => b.transfer context.sender receiver token amount
  | .burn token amount => b.burn token amount (.user context.sender)
  | .mint token amount mintTo => b.mint token amount (.user mintTo) (.user context.sender)
  | .freeze token => b.freeze token context.sender
  | .updateAdmin newAdmin token => b.updateAdminAddress newAdmin token context.sender

def supplyOf (token : TokenId) : Nat := ((b.tokens token).map (·.totalSupply)).getD 0

end

variable {token : TokenId} {t t' : Token S} {amount : Nat} {owner : S.Holder} {sender : S.Address}
variable {context : Context S} {message : CallMessage S} {b : Bank S}

theorem supplyOf_of_tokens (h : b.tokens token = some t) : b.supplyOf token = t.totalSupply := by
  simp [supplyOf, h]

theorem supplyOf_setToken_eq (b : Bank S) (token k : TokenId) (t : Token S) :
    (b.setToken token t).supplyOf k = if k = token then t.totalSupply else b.supplyOf k := by
  by_cases hk : k = token <;> simp [supplyOf, setToken, hk]

theorem supplyOf_setToken (ht : b.tokens token = some t) (hSupply : t'.totalSupply = t.totalSupply)
    (k : TokenId) : (b.setToken token t').supplyOf k = b.supplyOf k := by
  rw [supplyOf_setToken_eq]
  split
  · rename_i hk
    rw [hk, supplyOf_of_tokens ht, hSupply]
  · rfl

/-- The recorded supply of every token covers the balances of all holders. -/
structure Covered (b : Bank S) : Prop where
  total : ∀ token, TotalAtMost (fun h => b.balanceOf h token) (b.supplyOf token)
  supply_le : ∀ token, b.supplyOf token ≤ amountMax

namespace Covered
variable {b b' : Bank S}

theorem pair_le (hb : b.Covered) (token : TokenId) {h k} (hne : h ≠ k) :
    b.balanceOf h token + b.balanceOf k token ≤ amountMax :=
  ((hb.total token).pair hne).trans (hb.supply_le token)

variable {token : TokenId}

theorem of_moved (hb : b.Covered) {sender receiver amount}
    (h : Moved b b' sender receiver token amount) : b'.Covered := by
  obtain ⟨hTokens, _, hOther, hSelf, hMove⟩ := h
  have hSupply : ∀ t, b'.supplyOf t = b.supplyOf t := fun t => by rw [supplyOf, hTokens]; rfl
  refine ⟨fun t => ?_, fun t => hSupply t ▸ hb.supply_le t⟩
  rw [hSupply t]
  by_cases ht : t = token
  · subst ht
    by_cases hSame : sender = receiver
    · refine (hb.total t).anti fun k => ?_
      by_cases hk : k = sender
      · subst hk
        exact (hSelf hSame).le
      · exact (hOther k t fun _ => ⟨hk, hSame ▸ hk⟩).le
    · obtain ⟨_, _⟩ := hMove hSame
      refine (hb.total t).move hSame (fun k hk hk' => hOther k t fun _ => ⟨hk, hk'⟩) ?_
      omega
  · exact (hb.total t).anti fun k => (hOther k t fun h => absurd h ht).le

theorem doTransfer_cases (hb : b.Covered) (sender receiver : S.Holder) (token : TokenId) (amount : Nat) :
    (∃ b', b.doTransfer sender receiver token amount = (b', .ok ()) ∧
        Moved b b' sender receiver token amount ∧ b'.Covered) ∨
      (b.balanceOf sender token < amount ∧ ∃ e, b.doTransfer sender receiver token amount = (b, .error e)) := by
  by_cases hFunds : amount ≤ b.balanceOf sender token
  · left
    have hRoom : sender ≠ receiver → b.balanceOf receiver token + amount ≤ amountMax := by
      intro hne
      have := hb.pair_le token hne
      omega
    obtain ⟨b', hOk⟩ := doTransfer_isOk hFunds hRoom
    exact ⟨b', hOk, doTransfer_ok hOk, hb.of_moved (doTransfer_ok hOk)⟩
  · right
    refine ⟨by omega, ?_⟩
    unfold doTransfer
    split
    · exact ⟨.insufficientBalance, by simp [Nat.lt_of_not_le hFunds]⟩
    · split
      · omega
      · have hSub : checkedSub (b.balanceOf sender token) amount = none :=
          checkedSub_eq_none.mpr (by omega)
        exact ⟨.underflow, by simp [decreaseBalanceChecked, hSub]⟩

theorem change (hb : b.Covered) {holder t amount} (hCap : t.totalSupply ≤ amountMax)
    (hHere : ∀ rest, b.balanceOf holder token + rest ≤ b.supplyOf token →
      amount + rest ≤ t.totalSupply) : ((b.setToken token t).setBalance holder token amount).Covered := by
  have hSupply : ∀ t', ((b.setToken token t).setBalance holder token amount).supplyOf t' =
      if t' = token then t.totalSupply else b.supplyOf t' :=
    fun t' => supplyOf_setToken_eq b token t' t
  have hBal : ∀ h t', ((b.setToken token t).setBalance holder token amount).balanceOf h t' =
      if h = holder ∧ t' = token then amount else b.balanceOf h t' :=
    fun h t' => balanceOf_setBalance _ _ _ _ _ _
  refine ⟨fun t' => ?_, fun t' => ?_⟩
  · rw [hSupply]
    by_cases ht : t' = token
    · subst ht
      refine (hb.total t').change holder (fun h hne => ?_) ?_
      · simp [hne]
      · simpa [hBal] using hHere
    · rw [if_neg ht]
      exact (hb.total t').anti fun h => by simp [ht]
  · rw [hSupply]
    split
    · exact hCap
    · exact hb.supply_le t'

theorem setToken (hb : b.Covered) {t t'} (ht : b.tokens token = some t)
    (hSupply : t'.totalSupply = t.totalSupply) : (b.setToken token t').Covered := by
  have hSame := supplyOf_setToken ht hSupply
  exact ⟨fun k => hSame k ▸ hb.total k, fun k => hSame k ▸ hb.supply_le k⟩

end Covered

/-- What a successful operation does, and whose tokens it takes. -/
inductive Effect (b b' : Bank S) : Option S.Holder → Prop where
  | moved {sender receiver : S.Holder} {token : TokenId} {amount : Nat}
      (hMoved : Moved b b' sender receiver token amount) : Effect b b' (some sender)
  | created {token : TokenId} {t : Token S} {holder : S.Holder} (hNone : b.tokens token = none)
      (hCap : t.totalSupply ≤ t.supplyCap) (hMax : t.totalSupply ≤ amountMax)
      (hState : b' = (b.setToken token t).setBalance holder token t.totalSupply) : Effect b b' none
  | minted {token : TokenId} {t : Token S} {holder : S.Holder} {amount : Nat}
      (hSome : b.tokens token = some t) (hAdmins : t.admins ≠ [])
      (hCap : t.totalSupply + amount ≤ t.supplyCap) (hMax : t.totalSupply + amount ≤ amountMax)
      (hState : b' = (b.setToken token { t with totalSupply := t.totalSupply + amount }).setBalance holder
        token (b.balanceOf holder token + amount)) : Effect b b' none
  | burned {token : TokenId} {t : Token S} {owner : S.Holder} {amount : Nat}
      (hSome : b.tokens token = some t) (hSupply : amount ≤ t.totalSupply)
      (hFunds : amount ≤ b.balanceOf owner token)
      (hState : b' = (b.setToken token { t with totalSupply := t.totalSupply - amount }).setBalance owner
        token (b.balanceOf owner token - amount)) : Effect b b' (some owner)
  | rewritten {token : TokenId} {t : Token S} {admins : List S.Holder} (hSome : b.tokens token = some t)
      (hAdmins : t.admins ≠ []) (hState : b' = b.setToken token { t with admins }) : Effect b b' none

theorem Token.freeze_ok {sender} (h : t.freeze sender = .ok t') : t.admins ≠ [] ∧ t' = { t with admins := [] } := by
  unfold Token.freeze at h
  split at h
  · cases h
  · rename_i hAdmins
    split at h
    · cases h
      exact ⟨hAdmins, rfl⟩
    · cases h

variable {admin : S.Address} {authorizer mintTo holder : S.Holder}

theorem Token.findAdminIndex_some {position} (h : t.findAdminIndex admin = some position) : t.admins ≠ [] := by
  rintro hNil
  simp [findAdminIndex, hNil] at h

theorem Token.updateAdmin_ok {newAdmin} (h : t.updateAdmin newAdmin admin = .ok t') :
    t.admins ≠ [] ∧ ∃ admins, t' = { t with admins } := by
  unfold updateAdmin at h
  split at h
  · cases h
  · rename_i hPos
    split at h
    · cases h
    · cases h
      exact ⟨findAdminIndex_some hPos, _, rfl⟩
  · rename_i hPos
    cases h
    exact ⟨findAdminIndex_some hPos, _, rfl⟩

theorem Token.updateForMintIfAllowed_ok (h : t.updateForMintIfAllowed authorizer amount = .ok t') :
    t.admins ≠ [] ∧ t.totalSupply + amount ≤ t.supplyCap ∧ t.totalSupply + amount ≤ amountMax ∧
      t' = { t with totalSupply := t.totalSupply + amount } := by
  unfold updateForMintIfAllowed at h
  split at h
  · cases h
  · rename_i hAdmins
    split at h
    · split at h
      · cases h
      · rename_i supply hAdd
        obtain ⟨hLe, rfl⟩ := checkedAdd_eq_some.mp hAdd
        split at h
        · cases h
        · rename_i hCap
          cases h
          exact ⟨hAdmins, Nat.le_of_not_lt hCap, hLe, rfl⟩
    · cases h

variable {b' : Bank S}

theorem mint_effect (h : b.mint token amount mintTo authorizer = .ok b') : Effect b b' none := by
  simp only [mint, bind_eq_ok, unwrap_eq_ok, checkedAdd_eq_some, pure, Except.pure, Except.ok.injEq] at h
  obtain ⟨t, ht, t', hMint, _, ⟨-, rfl⟩, rfl⟩ := h
  obtain ⟨hAdmins, hCap, hMax, rfl⟩ := Token.updateForMintIfAllowed_ok hMint
  exact .minted ht hAdmins hCap hMax rfl

theorem burn_effect (h : b.burn token amount owner = .ok b') : Effect b b' (some owner) := by
  simp only [burn, bind_eq_ok, unwrap_eq_ok, checkedSub_eq_some, pure, Except.pure, Except.ok.injEq] at h
  obtain ⟨t, ht, _, ⟨hSupply, rfl⟩, _, ⟨hFunds, rfl⟩, rfl⟩ := h
  exact .burned ht hSupply hFunds rfl

theorem createToken_effect {name decimals initialBalance minter admins supplyCap}
    (h : b.createToken name decimals initialBalance mintTo admins supplyCap minter = .ok b') : Effect b b' none := by
  unfold createToken at h
  split at h
  · cases h
  · dsimp only at h
    split at h
    · cases h
    · split at h
      · cases h
      · rename_i hCap _ hNone
        cases h
        refine .created (t := ⟨name, initialBalance, _, admins.eraseDups⟩) hNone
          (Nat.le_of_not_lt hCap) ?_ rfl
        cases supplyCap with
        | none => simpa using hCap
        | some cap => exact (Nat.le_of_not_lt hCap).trans cap.val_le

theorem freeze_effect (h : b.freeze token sender = .ok b') : Effect b b' none := by
  simp only [freeze, bind_eq_ok, unwrap_eq_ok, pure, Except.pure, Except.ok.injEq] at h
  obtain ⟨t, ht, t', hFreeze, rfl⟩ := h
  obtain ⟨hAdmins, rfl⟩ := Token.freeze_ok hFreeze
  exact .rewritten ht hAdmins rfl

theorem updateAdminAddress_effect {newAddress}
    (h : b.updateAdminAddress newAddress token sender = .ok b') : Effect b b' none := by
  simp only [updateAdminAddress, bind_eq_ok, unwrap_eq_ok, pure, Except.pure, Except.ok.injEq] at h
  obtain ⟨t, ht, t', hUpdate, rfl⟩ := h
  obtain ⟨hAdmins, admins, rfl⟩ := Token.updateAdmin_ok hUpdate
  exact .rewritten ht hAdmins rfl

theorem transfer_ok {receiver} (h : b.transfer sender receiver token amount = .ok b') :
    Moved b b' (.user sender) (.user receiver) token amount := by
  unfold transfer at h
  split at h
  · cases h
  · rename_i hXfer
    cases h
    exact doTransfer_ok hXfer

theorem call_effect (h : b.call context message = .ok b') :
    Effect b b' none ∨ Effect b b' (some (.user context.sender)) := by
  cases message with
  | createToken name decimals initialBalance mintTo admins supplyCap => exact .inl (createToken_effect h)
  | transfer receiver token amount => exact .inr (.moved (transfer_ok h))
  | burn token amount => exact .inr (burn_effect h)
  | mint token amount mintTo => exact .inl (mint_effect h)
  | freeze token => exact .inl (freeze_effect h)
  | updateAdmin newAdmin token => exact .inl (updateAdminAddress_effect h)

namespace Effect
variable {b b' : Bank S} {payer : Option S.Holder}

/-- An operation keeps the supply covering all balances. -/
theorem covered (h : Effect b b' payer) (hb : b.Covered) : b'.Covered := by
  cases h with
  | moved hMoved => exact hb.of_moved hMoved
  | @created token t holder hNone _ hMax hState =>
    subst hState
    refine hb.change hMax fun rest hRest => ?_
    have hZero : b.supplyOf token = 0 := by simp [supplyOf, hNone]
    omega
  | @minted token t holder amount hSome _ _ hMax hState =>
    subst hState
    refine hb.change hMax fun rest hRest => ?_
    rw [supplyOf_of_tokens hSome] at hRest
    dsimp only
    omega
  | @burned token t owner amount hSome _ _ hState =>
    subst hState
    have hMax := hb.supply_le token
    rw [supplyOf_of_tokens hSome] at hMax
    refine hb.change ((sub_le _ _).trans hMax) fun rest hRest => ?_
    rw [supplyOf_of_tokens hSome] at hRest
    dsimp only
    omega
  | rewritten hSome _ hState =>
    subst hState
    exact hb.setToken hSome rfl

/-- An operation takes tokens from nobody but its payer. -/
theorem balanceOf_le (h : Effect b b' payer) (hb : b.Covered) {holder}
    (hOther : payer ≠ some holder) (k : TokenId) : b.balanceOf holder k ≤ b'.balanceOf holder k := by
  cases h with
  | @moved sender receiver token amount hMoved =>
    have hSender : holder ≠ sender := fun hEq => hOther (by rw [hEq])
    by_cases hReceiver : holder = receiver ∧ k = token
    · obtain ⟨rfl, rfl⟩ := hReceiver
      rw [(hMoved.2.2.2.2 hSender.symm).2]
      exact le_add_right _ _
    · rw [hMoved.2.2.1 holder k fun hk => ⟨hSender, fun hEq => hReceiver ⟨hEq, hk⟩⟩]
  | @created token t receiver hNone _ _ hState =>
    subst hState
    rw [balanceOf_setBalance]
    split
    · rename_i hHere
      have hZero := (hb.total token).le holder
      rw [show b.supplyOf token = 0 by simp [supplyOf, hNone]] at hZero
      rw [hHere.2]
      omega
    · exact le_refl _
  | @minted token t receiver amount _ _ _ _ hState =>
    subst hState
    rw [balanceOf_setBalance]
    split
    · rename_i hHere
      rw [hHere.1, hHere.2]
      exact le_add_right _ _
    · exact le_refl _
  | @burned token t owner amount _ _ _ hState =>
    subst hState
    have hOwner : holder ≠ owner := fun hEq => hOther (by rw [hEq])
    simp [hOwner]
  | rewritten _ _ hState =>
    subst hState
    exact le_refl _

end Effect

theorem burn_covered (hb : b.Covered) (h : b.burn token amount owner = .ok b') : b'.Covered :=
  (burn_effect h).covered hb

theorem burn_other (h : b.burn token amount owner = .ok b') (hOther : holder ≠ owner) (k : TokenId) :
    b'.balanceOf holder k = b.balanceOf holder k := by
  simp only [burn, bind_eq_ok, pure, Except.pure, Except.ok.injEq] at h
  obtain ⟨t, -, _, -, _, -, rfl⟩ := h
  simp [hOther]

theorem call_covered (hb : b.Covered) (h : b.call context message = .ok b') : b'.Covered := by
  rcases call_effect h with hEffect | hEffect
  · exact hEffect.covered hb
  · exact hEffect.covered hb

theorem call_other (h : b.call context message = .ok b') (hUser : ∀ a, holder ≠ .user a)
    (k : TokenId) : b'.balanceOf holder k = b.balanceOf holder k := by
  cases message with
  | createToken name decimals initialBalance mintTo admins supplyCap =>
    simp only [call, createToken] at h
    repeat' split at h
    all_goals cases h
    simp [hUser mintTo]
  | transfer receiver token amount =>
    exact (transfer_ok h).2.2.1 holder k fun _ => ⟨hUser _, hUser _⟩
  | burn token amount => exact burn_other h (hUser _) k
  | mint token amount mintTo =>
    simp only [call, mint, bind_eq_ok, pure, Except.pure, Except.ok.injEq] at h
    obtain ⟨t, -, t', -, _, -, rfl⟩ := h
    simp [hUser mintTo]
  | freeze token =>
    simp only [call, freeze, bind_eq_ok, pure, Except.pure, Except.ok.injEq] at h
    obtain ⟨t, ht, t', -, rfl⟩ := h
    rfl
  | updateAdmin newAdmin token =>
    simp only [call, updateAdminAddress, bind_eq_ok, pure, Except.pure, Except.ok.injEq] at h
    obtain ⟨t, ht, t', -, rfl⟩ := h
    rfl

end Bank
end SovereignSdk
