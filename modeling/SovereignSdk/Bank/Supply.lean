import SovereignSdk.Genesis

/-! Runs of bank transactions: the supply recorded for a token against the balances of
all its holders. -/
namespace SovereignSdk
open Bounded Outcome Function List

variable {S : Spec}

namespace Bank

/-- Six operations of the bank, open to users and to other modules: `create_token`, `transfer_from`, `burn`, `mint`,
`freeze` and `update_admin_address`. Calls, the reservation of gas and payments between modules are among them; setting
a gas balance outright (`override_gas_balance`) is not. -/
inductive Operation (S : Spec) where
  | createToken (name : String) (decimals : Option Nat) (initialBalance : Amount) (mintTo : S.Holder)
      (admins : List S.Holder) (supplyCap : Option Amount) (minter : S.Holder)
  | transferFrom (sender receiver : S.Holder) (token : TokenId) (amount : Amount)
  | burn (token : TokenId) (amount : Amount) (owner : S.Holder)
  | mint (token : TokenId) (amount : Amount) (mintTo authorizer : S.Holder)
  | freeze (token : TokenId) (sender : S.Address)
  | updateAdmin (newAdmin : Option S.Address) (token : TokenId) (sender : S.Address)

def Operation.payer : Operation S → Option S.Holder
  | .transferFrom sender _ _ _ => some sender
  | .burn _ _ owner => some owner
  | _ => none

def perform (b : Bank S) : Operation S → Except BankError (Bank S)
  | .createToken name decimals initialBalance mintTo admins supplyCap minter =>
    b.createToken name decimals initialBalance mintTo admins supplyCap minter
  | .transferFrom sender receiver token amount =>
    match b.doTransfer sender receiver token amount with
    | (_, .error e) => .error e
    | (b, .ok ()) => .ok b
  | .burn token amount owner => b.burn token amount owner
  | .mint token amount mintTo authorizer => b.mint token amount mintTo authorizer
  | .freeze token sender => b.freeze token sender
  | .updateAdmin newAdmin token sender => b.updateAdminAddress newAdmin token sender

/-- A transaction is a list of operations, reverted as a whole if one of them fails. -/
def transact (b : Bank S) (tx : List (Operation S)) : Bank S :=
  match tx.foldlM perform b with
  | .ok b' => b'
  | .error _ => b

def Operation.ofCall (context : Context S) : CallMessage S → Operation S
  | .createToken name decimals initialBalance mintTo admins supplyCap =>
    .createToken name decimals initialBalance (.user mintTo) (admins.map .user) supplyCap
      (.user context.sender)
  | .transfer receiver token amount => .transferFrom (.user context.sender) (.user receiver) token amount
  | .burn token amount => .burn token amount (.user context.sender)
  | .mint token amount mintTo => .mint token amount (.user mintTo) (.user context.sender)
  | .freeze token => .freeze token context.sender
  | .updateAdmin newAdmin token => .updateAdmin newAdmin token context.sender

theorem call_eq_perform (b : Bank S) (context : Context S) (message : CallMessage S) :
    b.call context message = b.perform (.ofCall context message) := by
  cases message <;> rfl

variable {b b' : Bank S} {token : TokenId}

theorem perform_effect {op} (h : b.perform op = .ok b') : Effect b b' op.payer := by
  cases op with
  | createToken => exact createToken_effect h
  | transferFrom sender receiver token amount =>
    unfold perform at h
    dsimp only at h
    split at h
    · cases h
    · rename_i hXfer
      cases h
      exact .moved (doTransfer_ok hXfer)
  | burn => exact burn_effect h
  | mint => exact mint_effect h
  | freeze => exact freeze_effect h
  | updateAdmin => exact updateAdminAddress_effect h

theorem reserveGas_eq_perform {s s' : Accounts S} {details : TxDetails S} {price : S.Price}
    {payer : S.Address} (h : s.reserveGas details price payer = some s') :
    s.bank.perform (.transferFrom (.user payer) Accounts.bankAccount S.gasTokenId details.maxFee) =
      .ok s'.bank := by
  unfold Accounts.reserveGas at h
  repeat' split at h
  all_goals cases h
  rename_i hXfer
  simp only [perform, show s.bank.doTransfer _ _ _ _ = _ from hXfer, Accounts.bank_withBank]

/-- Run rule: what every operation keeps is kept by every run of transactions. -/
theorem run_invariant (inv : Bank S → Prop) (hKeep : ∀ b b' payer, Effect b b' payer → inv b → inv b')
    (txs : List (List (Operation S))) (hb : inv b) : inv (txs.foldl transact b) := by
  induction txs generalizing b with
  | nil => exact hb
  | cons tx rest ih =>
    refine ih ?_
    unfold transact
    split
    · rename_i hTx
      exact foldlM_invariant inv (fun _ _ _ hs hStep => hKeep _ _ _ (perform_effect hStep) hs) hb hTx
    · exact hb

/-- The supply of every token is what its holders have, and within its cap. -/
structure Balanced (b : Bank S) : Prop where
  total : ∀ token, TotalIs (fun h => b.balanceOf h token) (b.supplyOf token)
  capped : ∀ token t, b.tokens token = some t → t.totalSupply ≤ t.supplyCap

theorem Balanced.change (hb : b.Balanced) {holder t amount}
    (hCap : t.totalSupply ≤ t.supplyCap)
    (hHere : t.totalSupply + b.balanceOf holder token = b.supplyOf token + amount) :
    ((b.setToken token t).setBalance holder token amount).Balanced := by
  refine ⟨fun k => ?_, fun k t' ht' => ?_⟩
  · by_cases hk : k = token
    · subst hk
      rw [show ((b.setToken k t).setBalance holder k amount).supplyOf k = t.totalSupply from
        (supplyOf_setToken_eq b k k t).trans (if_pos rfl)]
      refine (hb.total k).change holder (fun h hne => by simp [hne]) ?_
      simpa using hHere
    · rw [show ((b.setToken token t).setBalance holder token amount).supplyOf k = b.supplyOf k from
        (supplyOf_setToken_eq b token k t).trans (if_neg hk)]
      exact (hb.total k).congr fun h => by simp [hk]
  · by_cases hk : k = token
    · subst hk
      simp only [setToken, tokens_setBalance, update_self, Option.some.injEq] at ht'
      exact ht' ▸ hCap
    · simp only [setToken, tokens_setBalance, update_of_ne hk] at ht'
      exact hb.capped k t' ht'

theorem Effect.balanced {payer} (h : Effect b b' payer) (hb : b.Balanced) : b'.Balanced := by
  cases h with
  | @moved sender receiver token amount hMoved =>
    obtain ⟨hTokens, _, hOther, hSelf, hMove⟩ := hMoved
    refine ⟨fun k => ?_, hTokens ▸ hb.capped⟩
    rw [show b'.supplyOf k = b.supplyOf k by rw [supplyOf, hTokens]; rfl]
    by_cases hk : k = token
    · subst hk
      by_cases hSame : sender = receiver
      · refine (hb.total k).congr fun h => ?_
        by_cases hh : h = sender
        · exact hh ▸ hSelf hSame
        · exact hOther h k fun _ => ⟨hh, hSame ▸ hh⟩
      · obtain ⟨_, _⟩ := hMove hSame
        refine (hb.total k).move hSame (fun h hh hh' => hOther h k fun _ => ⟨hh, hh'⟩) ?_
        omega
    · exact (hb.total k).congr fun h => hOther h k fun hEq => absurd hEq hk
  | @created token t holder hNone hCap _ hState =>
    subst hState
    have hZero : b.supplyOf token = 0 := by simp [supplyOf, hNone]
    have hEmpty := (hZero ▸ hb.total token).eq_zero holder
    exact hb.change hCap (by omega)
  | @minted token t holder amount hSome _ hCap _ hState =>
    subst hState
    have hSupply := supplyOf_of_tokens hSome
    exact hb.change hCap (by dsimp only; omega)
  | @burned token t owner amount hSome _ _ hState =>
    subst hState
    have hTotal := supplyOf_of_tokens hSome
    exact hb.change ((Nat.sub_le _ _).trans (hb.capped token t hSome)) (by dsimp only; omega)
  | @rewritten token t admins hSome _ hState =>
    subst hState
    refine ⟨fun k => ?_, fun k t' ht' => ?_⟩
    · have hSame : (b.setToken token { t with admins }).supplyOf k = b.supplyOf k :=
        supplyOf_setToken hSome (by rfl) k
      rw [hSame]
      exact hb.total k
    · by_cases hk : k = token
      · subst hk
        simp only [setToken, update_self, Option.some.injEq] at ht'
        exact ht' ▸ hb.capped k t hSome
      · simp only [setToken, update_of_ne hk] at ht'
        exact hb.capped k t' ht'

theorem Balanced.unissued (hb : b.Balanced) (hNone : b.tokens token = none) (h : S.Holder) :
    b.balanceOf h token = 0 := by
  have hTotal := hb.total token
  rw [show b.supplyOf token = 0 by simp [supplyOf, hNone]] at hTotal
  exact hTotal.eq_zero h

def FrozenAt (b : Bank S) (token : TokenId) (c : Nat) : Prop :=
  ∃ t, b.tokens token = some t ∧ t.admins = [] ∧ t.totalSupply ≤ c

theorem Effect.frozenAt {payer} (h : Effect b b' payer) {c} (hb : b.FrozenAt token c) : b'.FrozenAt token c := by
  obtain ⟨t, ht, hAdmins, hLe⟩ := hb
  -- A change of another token is not seen; this one can only be burned.
  have hOther : ∀ k t', k ≠ token → (b.setToken k t').FrozenAt token c := fun k t' hk =>
    ⟨t, by simpa [setToken, hk.symm] using ht, hAdmins, hLe⟩
  cases h with
  | moved hMoved => exact ⟨t, hMoved.1 ▸ ht, hAdmins, hLe⟩
  | @created k t' holder hNone _ _ hState =>
    subst hState
    exact hOther k t' fun hk => by simp [hk, ht] at hNone
  | @minted k _ _ _ hSome hMinters _ _ hState | @rewritten k _ _ hSome hMinters hState =>
    subst hState
    refine hOther k _ ?_
    rintro rfl
    cases hSome.symm.trans ht
    exact hMinters hAdmins
  | @burned k t' owner amount hSome _ _ hState =>
    subst hState
    by_cases hk : k = token
    · subst hk
      cases hSome.symm.trans ht
      exact ⟨{ t with totalSupply := t.totalSupply - amount }, by simp [setToken], hAdmins,
        (Nat.sub_le _ _).trans hLe⟩
    · exact hOther k _ hk

/-- The balances that a genesis lists for a token: none that is not zero is replaced by a
later one. -/
def NoneReplaced (entries : List (S.Address × Amount)) : Prop :=
  entries.Pairwise fun entry later => later.1 = entry.1 → entry.2.val = 0

theorem setGenesisBalances_total {entries c supply supply' total}
    (hTotal : TotalIs (fun h => b.balanceOf h token) total) (hLe : total ≤ supply)
    (h : entries.foldlM (setGenesisBalance token) (b, supply) = .ok (c, supply')) :
    ∃ total', TotalIs (fun h => c.balanceOf h token) total' ∧ total' ≤ supply' ∧
      (total' = supply' ↔ total = supply ∧ NoneReplaced entries ∧
        ∀ entry ∈ entries, b.balanceOf (.user entry.1) token = 0) := by
  induction entries generalizing b supply total with
  | nil =>
    cases h
    exact ⟨total, hTotal, hLe, by simp [NoneReplaced]⟩
  | cons entry rest ih =>
    simp only [foldlM_cons, setGenesisBalance, bind_eq_ok, unwrap_eq_ok, checkedAdd_eq_some, pure,
      Except.pure, Except.ok.injEq] at h
    obtain ⟨_, ⟨_, ⟨-, rfl⟩, rfl⟩, h⟩ := h
    have hOld : b.balanceOf (.user entry.1) token ≤ total := hTotal.atMost.le (.user entry.1)
    have hNew : TotalIs (fun h => (b.setBalance (.user entry.1) token entry.2).balanceOf h token)
        (total - b.balanceOf (.user entry.1) token + entry.2) := by
      refine hTotal.change (.user entry.1) (fun h hne => by simp [hne]) ?_
      rw [balanceOf_setBalance, if_pos ⟨rfl, rfl⟩]
      omega
    obtain ⟨total', hTotal', hLe', hIff⟩ := ih hNew (by omega) h
    refine ⟨total', hTotal', hLe', hIff.trans ?_⟩
    have hSet : ∀ later : S.Address × Amount,
        (b.setBalance (.user entry.1) token entry.2).balanceOf (.user later.1) token = 0 ↔
          if later.1 = entry.1 then entry.2.val = 0 else b.balanceOf (.user later.1) token = 0 := by
      intro later
      by_cases hSame : later.1 = entry.1 <;> simp [hSame]
    simp only [hSet, NoneReplaced, pairwise_cons, forall_mem_cons]
    constructor
    · rintro ⟨_, hRest, hAll⟩
      have hEmpty : b.balanceOf (.user entry.1) token = 0 := by omega
      refine ⟨by omega, ⟨fun later hLater hSame => ?_, hRest⟩, hEmpty, fun later hLater => ?_⟩
      · simpa [hSame] using hAll later hLater
      · by_cases hSame : later.1 = entry.1
        · rw [hSame, hEmpty]
        · simpa [hSame] using hAll later hLater
    · rintro ⟨rfl, ⟨hReplaced, hRest⟩, _, hAll⟩
      refine ⟨by omega, hRest, fun later hLater => ?_⟩
      split
      · rename_i hSame
        exact hReplaced later hLater hSame
      · exact hAll later hLater

def allTokens (config : BankConfig S) : List (TokenConfig S) :=
  (config.gasTokenConfig.map fun c : TokenConfig S => { c with tokenId := S.gasTokenId }).toList ++ config.tokens

theorem createGenesisToken_balanced_iff {config} (hb : b.Covered)
    (h : b.createGenesisToken config = .ok b') : b'.Balanced ↔ b.Balanced ∧ NoneReplaced config.addressAndBalances := by
  obtain ⟨c, t, hBals, hNone, hTokens, hCap, rfl⟩ := createGenesisToken_ok h
  have hSupply : ∀ k, c.supplyOf k = b.supplyOf k := fun k => by rw [supplyOf, hTokens]; rfl
  have hOther := (setGenesisBalances_ok hb hNone hBals).other
  have hEmpty : ∀ holder, b.balanceOf holder config.tokenId = 0 := by
    intro holder
    have hLe := (hb.total config.tokenId).le holder
    rw [show b.supplyOf config.tokenId = 0 by simp [supplyOf, hNone]] at hLe
    exact Nat.le_zero.mp hLe
  obtain ⟨total, hTotal, -, hIff⟩ := setGenesisBalances_total (.zero hEmpty) (Nat.le_refl 0) hBals
  have hHere : TotalIs (fun holder => c.balanceOf holder config.tokenId) t.totalSupply ↔
      NoneReplaced config.addressAndBalances := by
    have hReplaced : total = t.totalSupply ↔ NoneReplaced config.addressAndBalances :=
      hIff.trans (by simp [hEmpty])
    exact ⟨fun h => hReplaced.mp (hTotal.eq h), fun h => hReplaced.mpr h ▸ hTotal⟩
  constructor
  · intro hb'
    refine ⟨⟨fun k => ?_, fun k t' ht' => ?_⟩, hHere.mp ?_⟩
    · by_cases hk : k = config.tokenId
      · subst hk
        rw [show b.supplyOf config.tokenId = 0 by simp [supplyOf, hNone]]
        exact .zero hEmpty
      · have hTotal' := hb'.total k
        rw [supplyOf_setToken_eq, if_neg hk, hSupply] at hTotal'
        exact hTotal'.congr fun holder => (hOther holder k hk).symm
    · refine hb'.capped k t' ?_
      have hk : k ≠ config.tokenId := by
        rintro rfl
        simp [hNone] at ht'
      simpa [setToken, hk, hTokens] using ht'
    · simpa [supplyOf_setToken_eq] using hb'.total config.tokenId
  · rintro ⟨hBefore, hReplaced⟩
    refine ⟨fun k => ?_, fun k t' ht' => ?_⟩
    · rw [supplyOf_setToken_eq, hSupply]
      by_cases hk : k = config.tokenId
      · rw [if_pos hk, hk]
        exact hHere.mpr hReplaced
      · rw [if_neg hk]
        exact (hBefore.total k).congr fun holder => hOther holder k hk
    · by_cases hk : k = config.tokenId
      · simp only [setToken, hk, update_self, Option.some.injEq] at ht'
        exact ht' ▸ hCap
      · simp only [setToken, update_of_ne hk, hTokens] at ht'
        exact hBefore.capped k t' ht'

theorem balanced_empty : (empty : Bank S).Balanced where
  total := fun token => by
    exact .zero fun _ => rfl
  capped := nofun

theorem createGenesisTokens_balanced_iff {configs : List (TokenConfig S)} (hb : b.Covered)
    (h : configs.foldlM createGenesisToken b = .ok b') :
    b'.Balanced ↔ b.Balanced ∧ ∀ config ∈ configs, NoneReplaced config.addressAndBalances := by
  induction configs generalizing b with
  | nil =>
    cases h
    simp
  | cons config rest ih =>
    rw [foldlM_cons, bind_eq_ok] at h
    obtain ⟨mid, hCreate, h⟩ := h
    rw [ih (createGenesisToken_covered hb hCreate) h, createGenesisToken_balanced_iff hb hCreate,
      forall_mem_cons, and_assoc]

/-- After every run of transactions the balances of each token add up to its supply, the
supply is within the cap, a token that does not exist is held by nobody, and the supply of
a token without admins never rises again, exactly if the genesis replaces no balance. -/
theorem supply_is_total_iff {config : BankConfig S} {start : Bank S} (h : initModule config = .ok start) :
    (∀ txs : List (List (Operation S)), ∀ b, b = txs.foldl transact start →
      (∀ token, TotalIs (fun holder => b.balanceOf holder token) (b.supplyOf token)) ∧
      (∀ token t, b.tokens token = some t → t.totalSupply ≤ t.supplyCap) ∧
      (∀ token, b.tokens token = none → ∀ holder, b.balanceOf holder token = 0) ∧
      ∀ token t, b.tokens token = some t → t.admins = [] → ∀ more : List (List (Operation S)),
        (more.foldl transact b).supplyOf token ≤ t.totalSupply) ↔
      ∀ token ∈ allTokens config, NoneReplaced token.addressAndBalances := by
  have hIff := createGenesisTokens_balanced_iff covered_empty h
  rw [and_iff_right balanced_empty] at hIff
  refine Iff.trans ⟨fun hAll => ?_, fun hStart txs b hRun => ?_⟩ hIff
  · obtain ⟨hTotal, hCapped, -, -⟩ := hAll [] start rfl
    exact ⟨hTotal, hCapped⟩
  · have hb : b.Balanced :=
      hRun ▸ run_invariant Balanced (fun _ _ _ hEffect hb => hEffect.balanced hb) txs hStart
    refine ⟨hb.total, hb.capped, fun token hNone => hb.unissued hNone, fun token t ht hAdmins more => ?_⟩
    obtain ⟨t', ht', -, hLe⟩ := run_invariant (fun b => b.FrozenAt token t.totalSupply)
      (fun _ _ _ hEffect hFrozen => hEffect.frozenAt hFrozen) more ⟨t, ht, hAdmins, Nat.le_refl _⟩
    rw [supplyOf_of_tokens ht']
    exact hLe

def repeatedAddressConfig : BankConfig testSpec where
  gasTokenConfig := some ⟨"gas", 0, [((7 : Nat), 5), ((7 : Nat), 3)], [], none⟩
  tokens := []

/-- An address that is listed twice has its last balance, while the supply counts both. -/
theorem supply_above_repeated_balance :
    ∃ start : Bank testSpec, initModule repeatedAddressConfig = .ok start ∧ start.supplyOf 0 = 8 ∧
      ¬ TotalIs (fun holder => start.balanceOf holder 0) (start.supplyOf 0) := by
  refine exists_and_of returned fun _ => ⟨by decide +kernel, fun hTotal => ?_⟩
  have hLess : TotalIs (fun holder => ((((empty : Bank testSpec).setBalance (.user (7 : Nat)) 0 5).setBalance
      (.user (7 : Nat)) 0 3)).balanceOf holder 0) 3 := by
    have hEmpty : TotalIs (fun holder : testSpec.Holder => (empty : Bank testSpec).balanceOf holder 0) 0 :=
      .zero fun _ => rfl
    exact hEmpty.change (.user (7 : Nat)) (fun holder hne => by simp [hne]) rfl
  exact absurd (hTotal.eq hLess) (by decide +kernel)

/-- With one account the supply is what its holders have, also after a transfer. -/
theorem supply_is_total_after_transfer :
    ∃ start : Bank testSpec, initModule (soloGenesis (7 : Nat) (1 : Nat) 1000 100 true).bank = .ok start ∧
      TotalIs (fun holder => (start.transact [.transferFrom (.user (7 : Nat)) (.user (8 : Nat)) 0 10]).balanceOf
        holder 0) 1000 := by
  refine exists_and_of returned fun hGenesis => ?_
  have hNone : ∀ token ∈ allTokens (soloGenesis (7 : Nat) (1 : Nat) 1000 100 true : GenesisConfig testSpec).bank,
      NoneReplaced token.addressAndBalances := by
    intro token hToken
    rw [mem_singleton.mp hToken]
    exact pairwise_singleton _ _
  exact ((supply_is_total_iff hGenesis).mpr hNone [[.transferFrom (.user (7 : Nat)) (.user (8 : Nat)) 0 10]] _ rfl).1 0

/-- No run takes from a holder who pays in none of its operations. -/
theorem balance_kept_unless_payer (hb : b.Covered) (txs : List (List (Operation S))) {holder}
    (hPays : ∀ tx ∈ txs, ∀ op ∈ tx, op.payer ≠ some holder) (k : TokenId) :
    b.balanceOf holder k ≤ (txs.foldl transact b).balanceOf holder k := by
  induction txs generalizing b with
  | nil => exact le_rfl
  | cons tx rest ih =>
    obtain ⟨hTx, hRest⟩ := forall_mem_cons.mp hPays
    have hKept : (b.transact tx).Covered ∧ b.balanceOf holder k ≤ (b.transact tx).balanceOf holder k := by
      unfold transact
      split
      · refine foldlM_keeps (fun b' : Bank S => b'.Covered ∧ b.balanceOf holder k ≤ b'.balanceOf holder k)
          (fun _ op hOp _ hInv hStep => ?_) ⟨hb, le_rfl⟩ ‹_›
        have hEffect := perform_effect hStep
        exact ⟨hEffect.covered hInv.1, hInv.2.trans (hEffect.balanceOf_le hInv.1 (hTx op hOp) k)⟩
      · exact ⟨hb, le_rfl⟩
    exact hKept.2.trans (ih hKept.1 hRest)

/-- User 8, who has ten tokens from user 7, burns five of them and sends three back. -/
theorem balance_kept_in_other_payments :
    ∃ start : Bank testSpec, initModule (soloGenesis (7 : Nat) (1 : Nat) 1000 100 true).bank = .ok start ∧
      let paid := start.transact [.transferFrom (.user (7 : Nat)) (.user (8 : Nat)) 0 10]
      let final := [[.burn 0 5 (.user (8 : Nat))],
        [.transferFrom (.user (8 : Nat)) (.user (7 : Nat)) 0 3]].foldl transact paid
      paid.balanceOf (.user (7 : Nat)) 0 = 990 ∧ final.supplyOf 0 = 995 ∧ final.balanceOf (.user (8 : Nat)) 0 = 2 ∧
        paid.balanceOf (.user (7 : Nat)) 0 ≤ final.balanceOf (.user (7 : Nat)) 0 := by
  refine exists_and_of returned fun h => ⟨by decide +kernel, by decide +kernel, by decide +kernel, ?_⟩
  refine balance_kept_unless_payer ?_ _ (by decide) 0
  exact run_invariant Covered (fun _ _ _ hEffect => hEffect.covered)
    [[.transferFrom (.user (7 : Nat)) (.user (8 : Nat)) 0 10]] (initModule_covered h)

end Bank
end SovereignSdk
