import SovereignSdk.Paymaster.Revocation

/-! Who pays for a transaction. A payer pays only as its policy permits, at most as many transactions of
a payee as its allowance has left; otherwise the sender pays. -/
namespace SovereignSdk
open Bounded Outcome Option List PaymasterState Accounts TokenHolder

variable {S : Spec} {orders : AddressOrders S}

namespace Bank
variable {b b' : Bank S} {details : TxDetails S} {gasPrice : S.Price} {payer : S.Address}

def Locked (b b' : Bank S) (payer : S.Address) (fee : Nat) : Prop :=
  Moved b b' (.user payer) Accounts.bankAccount S.gasTokenId fee

theorem reserveGas_ok (h : b.reserveGas details gasPrice payer = (b', .ok ())) : b.Locked b' payer details.maxFee := by
  unfold reserveGas at h
  split at h
  · cases h
  · split at h
    · cases h
    · split at h
      · cases h
      · rename_i hXfer
        cases h
        exact doTransfer_ok hXfer

def Full (b : Bank S) (fee : Nat) : Prop :=
  fee ≠ 0 ∧ amountMax < b.balanceOf Accounts.bankAccount S.gasTokenId + fee

theorem transferGas_error {fee e}
    (h : b.transferGas (.user payer) Accounts.bankAccount fee = (b', .error e)) : b' = b ∨ b'.Full fee := by
  have hNe : (user payer : S.Holder) ≠ bankAccount := fun hSame => nomatch hSame
  unfold transferGas doTransfer at h
  rw [if_neg hNe] at h
  split at h
  · cases h
  · rename_i hFee
    unfold decreaseBalanceChecked at h
    cases hSub : checkedSub (b.balanceOf (.user payer) S.gasTokenId) fee with
    | none =>
      simp only [hSub] at h
      cases h
      exact .inl rfl
    | some rest =>
      simp only [hSub] at h
      split at h
      · rename_i hAdd
        cases h
        exact .inr ⟨hFee, checkedAdd_eq_none.mp hAdd⟩
      · cases h

theorem reserveGas_error {e} (h : b.reserveGas details gasPrice payer = (b', .error e)) :
    b' = b ∨ b'.Full details.maxFee := by
  unfold reserveGas at h
  split at h
  · cases h
    exact .inl rfl
  · split at h
    · cases h
      exact .inl rfl
    · split at h
      · rename_i hXfer
        cases h
        exact transferGas_error hXfer
      · cases h

theorem Full.reserveGas_ne_ok (hFull : b.Full details.maxFee) : b.reserveGas details gasPrice payer ≠ (b', .ok ()) := by
  intro h
  have hNe : (user payer : S.Holder) ≠ bankAccount := fun hSame => nomatch hSame
  have hBank : ∀ rest, checkedAdd amountMax
      ((b.setBalance (.user payer) S.gasTokenId rest).balanceOf bankAccount S.gasTokenId)
      details.maxFee = none := by
    intro rest
    exact checkedAdd_eq_none.mpr hFull.2
  unfold reserveGas at h
  split at h
  · cases h
  · split at h
    · cases h
    · split at h
      · cases h
      · rename_i hXfer
        unfold transferGas doTransfer at hXfer
        rw [if_neg hNe, if_neg hFull.1] at hXfer
        unfold decreaseBalanceChecked at hXfer
        split at hXfer
        · cases hXfer
        · rename_i hDecreased
          split at hDecreased
          · cases hDecreased
          · cases hDecreased
            rw [hBank] at hXfer
            cases hXfer

end Bank

def PayeePolicy.Allows (policy : PayeePolicy S) (details : TxDetails S) (gasPrice : S.Price) : Prop :=
  policy.authorizesMaxFee details.maxFee = true ∧ policy.authorizesGasPrice gasPrice = true ∧
    policy.authorizesGasLimit details.gasLimit = true

theorem PayeePolicy.authorizeTransaction_ok {policy : PayeePolicy S} {details : TxDetails S} {gasPrice : S.Price}
    {next : Option (PayeePolicy S)} (h : policy.authorizeTransaction details gasPrice = .ok next) :
    policy.Allows details gasPrice ∧ next = policy.maybeDecrementAllowance := by
  unfold authorizeTransaction at h
  split at h
  · cases h
  · split at h
    · cases h
    · rename_i hFee
      split at h
      · cases h
      · rename_i hPrice
        split at h
        · cases h
        · rename_i hLimit
          cases h
          exact ⟨⟨not_not.mp hFee, not_not.mp hPrice, not_not.mp hLimit⟩, rfl⟩

/-- The payer is mapped to the sequencer of a transaction, its policy covers the sequencer, and what
applies to the sender allows the transaction. -/
def Paymaster.Permits (p : Paymaster S) (payer : S.Address) (details : TxDetails S) (gasPrice : S.Price)
    (context : Context S) : Prop :=
  p.sequencerToPayer context.sequencerDaAddress = some payer ∧ ∃ policy, p.payers payer = some policy ∧
      policy.authorizedSequencers.covers context.sequencerDaAddress = true ∧
      ((p.policies payer context.sender).getD policy.defaultPayeePolicy).Allows details gasPrice

namespace PaymasterState
variable {s s' : PaymasterState S} {details : TxDetails S} {gasPrice : S.Price} {context : Context S}
  {payer : S.Address}

variable {policy : PayeePolicy S} {bank : Bank S}

theorem tryPurchasePaymasterGas_ok {next : Option (PayeePolicy S)}
    (h : s.tryPurchasePaymasterGas details gasPrice payer policy = (bank, .ok next)) :
    policy.Allows details gasPrice ∧ next = policy.maybeDecrementAllowance ∧
      s.bank.Locked bank payer details.maxFee := by
  unfold tryPurchasePaymasterGas at h
  split at h
  · cases h
  · rename_i hAuthorize
    obtain ⟨hAllows, hNext⟩ := PayeePolicy.authorizeTransaction_ok hAuthorize
    split at h
    · cases h
    · rename_i hRes
      cases h
      exact ⟨hAllows, hNext, Bank.reserveGas_ok hRes⟩

theorem tryPurchasePaymasterGas_error {e}
    (h : s.tryPurchasePaymasterGas details gasPrice payer policy = (bank, .error e)) :
    bank = s.bank ∨ bank.Full details.maxFee := by
  unfold tryPurchasePaymasterGas at h
  split at h
  · cases h
    exact .inl rfl
  · split at h
    · rename_i hRes
      cases h
      exact Bank.reserveGas_error hRes
    · cases h

theorem gasFromPaymaster_some (h : s.gasFromPaymaster details gasPrice context = (s', some payer)) :
    s.paymaster.sequencerToPayer context.sequencerDaAddress = some payer ∧ s.bank.Locked s'.bank payer details.maxFee ∧
      ∃ policy, s.paymaster.getPayeePolicyIfSequencerAuthorized payer context = some policy ∧
        policy.Allows details gasPrice ∧
        s'.paymaster = match policy.maybeDecrementAllowance with
          | some next => s.paymaster.setPayee payer context.sender (some next)
          | none => s.paymaster := by
  unfold gasFromPaymaster at h
  split at h
  · cases h
  · rename_i mapped hMapped
    split at h
    · cases h
    · rename_i policy hPolicy
      split at h
      case h_3 => cases h
      all_goals
        rename_i hPurchase
        cases h
        obtain ⟨hAllows, hNext, hLocked⟩ := tryPurchasePaymasterGas_ok hPurchase
        refine ⟨hMapped, hLocked, policy, hPolicy, hAllows, ?_⟩
        rw [← hNext]

theorem gasFromPaymaster_none (h : s.gasFromPaymaster details gasPrice context = (s', none)) :
    (s'.bank = s.bank ∨ s'.bank.Full details.maxFee) ∧ s'.paymaster.policies = s.paymaster.policies := by
  unfold gasFromPaymaster at h
  split at h
  · cases h
    exact ⟨.inl rfl, rfl⟩
  · split at h
    · cases h
      exact ⟨.inl rfl, rfl⟩
    · split at h
      · cases h
      · cases h
      · rename_i hPurchase
        cases h
        exact ⟨tryPurchasePaymasterGas_error hPurchase, rfl⟩

/-- Who has paid for a transaction: a payer that permits it, or else the sender. -/
structure Charged (s s' : PaymasterState S) (details : TxDetails S) (gasPrice : S.Price) (context : Context S)
    (recipient : S.Address) : Prop where
  locked : s.bank.Locked s'.bank recipient details.maxFee
  payer : (s.gasFromPaymaster details gasPrice context).2 = some recipient ∧
      s.paymaster.Permits recipient details gasPrice context ∨
    (s.gasFromPaymaster details gasPrice context).2 = none ∧ recipient = context.sender

theorem tryReserveGas_charged {recipient} (h : s.tryReserveGas details gasPrice context = .ok (s', recipient)) :
    s.Charged s' details gasPrice context recipient := by
  unfold tryReserveGas at h
  split at h
  · rename_i hGas
    cases h
    obtain ⟨hMapped, hLocked, policy, hPolicy, hAllows, -⟩ := gasFromPaymaster_some hGas
    refine ⟨hLocked, .inl ⟨by rw [hGas], hMapped, ?_⟩⟩
    simp only [Paymaster.getPayeePolicyIfSequencerAuthorized, bind_eq_bind, bind_eq_some_iff,
      ite_none_right_eq_some, some.injEq] at hPolicy
    obtain ⟨payerPolicy, hPayer, hCovers, rfl⟩ := hPolicy
    exact ⟨payerPolicy, hPayer, hCovers, hAllows⟩
  · rename_i mid hGas
    split at h
    · cases h
    · rename_i hRes
      cases h
      obtain hSame | hFull := (gasFromPaymaster_none hGas).1
      · refine ⟨?_, .inr ⟨by rw [hGas], rfl⟩⟩
        rw [← hSame]
        exact Bank.reserveGas_ok hRes
      · exact absurd hRes hFull.reserveGas_ne_ok

/-- The policy under which a payer pays for a payee in an operation, if it does. -/
def payment (payer payee : S.Address) (s : PaymasterState S) : PaymasterOperation S → Option (PayeePolicy S)
  | .reserveGas context details gasPrice =>
    if context.sender = payee ∧ (s.gasFromPaymaster details gasPrice context).2 = some payer then
      s.paymaster.getPayeePolicyIfSequencerAuthorized payer context
    else none
  | _ => none

/-- The policies under which a payer pays for a payee in a run, one for each payment. -/
def payments (orders : AddressOrders S) (payer payee : S.Address) :
    PaymasterState S → List (PaymasterOperation S) → List (PayeePolicy S)
  | _, [] => []
  | s, operation :: rest =>
    (s.payment payer payee operation).toList ++ payments orders payer payee (s.perform orders operation) rest

def EntryKept (orders : AddressOrders S) (payer payee : S.Address) :
    PaymasterState S → List (PaymasterOperation S) → Prop
  | _, [] => True
  | s, operation :: rest =>
    (∀ context message, operation = .call context message →
      (s.perform orders operation).paymaster.policies payer payee = s.paymaster.policies payer payee) ∧
    EntryKept orders payer payee (s.perform orders operation) rest

end PaymasterState

namespace PayeePolicy

def transactionLimit : PayeePolicy S → Option NonZeroU64
  | allow _ _ _ limit => limit
  | deny => none

/-- How many transactions a policy still pays for, if it is limited. -/
def allowance : PayeePolicy S → Option Nat
  | allow _ _ _ limit => limit.map NonZeroU64.get
  | deny => some 0

variable {policy : PayeePolicy S}

theorem allowance_of_limit {limit} (h : policy.transactionLimit = some limit) :
    policy.allowance = some limit.get := by
  cases policy with
  | deny => cases h
  | allow maxFee gasLimit maxGasPrice transactionLimit =>
    have hLimit : transactionLimit = some limit := h
    rw [allowance, hLimit, map_some]

theorem Allows.decrement {details gasPrice} (hAllows : policy.Allows details gasPrice)
    {n} (hLimited : policy.allowance = some n) :
    0 < n ∧ ∃ next, policy.maybeDecrementAllowance = some next ∧ next.allowance = some (n - 1) := by
  cases policy with
  | deny => cases hAllows.1
  | allow maxFee gasLimit maxGasPrice limit =>
    cases limit with
    | none => cases hLimited
    | some limit =>
      cases hLimited
      refine ⟨limit.pos, ?_⟩
      simp only [maybeDecrementAllowance]
      split
      · exact ⟨_, rfl, rfl⟩
      · rename_i hLast
        refine ⟨_, rfl, ?_⟩
        rw [allowance, Nat.eq_zero_of_not_pos hLast]

end PayeePolicy

namespace PaymasterState
variable {s : PaymasterState S} {payer payee : S.Address} {operation : PaymasterOperation S}

theorem policies_setPayee (p : Paymaster S) (payer payee payer' payee' : S.Address) (policy : Option (PayeePolicy S)) :
    (p.setPayee payer payee policy).policies payer' payee' =
      if payer' = payer ∧ payee' = payee then policy else p.policies payer' payee' := by
  unfold Paymaster.setPayee
  by_cases hPayer : payer' = payer
  · subst hPayer
    by_cases hPayee : payee' = payee
    · subst hPayee
      simp
    · simp [hPayee]
  · simp [hPayer]

theorem perform_of_no_payment (hPay : s.payment payer payee operation = none)
    (hCall : ∀ context message, operation = .call context message →
      (s.perform orders operation).paymaster.policies payer payee = s.paymaster.policies payer payee) :
    (s.perform orders operation).paymaster.policies payer payee = s.paymaster.policies payer payee := by
  cases operation with
  | call context message => exact hCall context message rfl
  | otherModules bank => rfl
  | reserveGas context details gasPrice =>
    cases hGas : s.gasFromPaymaster details gasPrice context with
    | mk mid paid =>
      cases paid with
      | none =>
        simp only [perform, tryReserveGas, hGas]
        split
        · rename_i hRes
          split at hRes
          · cases hRes
          · cases hRes
            rw [(gasFromPaymaster_none hGas).2]
        · rfl
      | some other =>
        obtain ⟨-, -, policy, hPolicy, -, hNext⟩ := gasFromPaymaster_some hGas
        simp only [perform, tryReserveGas, hGas, hNext]
        split
        · rw [policies_setPayee, if_neg]
          rintro ⟨rfl, rfl⟩
          simp only [payment, hGas, hPolicy] at hPay
          cases hPay
        · rfl

variable {policy : PayeePolicy S} {operations : List (PaymasterOperation S)}

/-- A payment is made under the policy that applies, and what it leaves becomes the entry. -/
theorem perform_of_payment (hPay : s.payment payer payee operation = some policy) :
    (∀ entry, s.paymaster.policies payer payee = some entry → entry = policy) ∧
      (∃ details gasPrice, policy.Allows details gasPrice) ∧
      ∀ next, policy.maybeDecrementAllowance = some next →
        (s.perform orders operation).paymaster.policies payer payee = some next := by
  cases operation with
  | call | otherModules => cases hPay
  | reserveGas context details gasPrice =>
    simp only [payment] at hPay
    split at hPay
    · rename_i hPaid
      obtain ⟨rfl, hPaid⟩ := hPaid
      have hGas : s.gasFromPaymaster details gasPrice context =
          ((s.gasFromPaymaster details gasPrice context).1, some payer) := by rw [← hPaid]
      obtain ⟨-, -, policy', hPolicy', hAllows, hNext⟩ := gasFromPaymaster_some hGas
      cases hPolicy'.symm.trans hPay
      refine ⟨fun entry hEntry => ?_, ⟨details, gasPrice, hAllows⟩, fun next hDecr => ?_⟩
      · simp only [Paymaster.getPayeePolicyIfSequencerAuthorized, bind_eq_bind, bind_eq_some_iff,
          ite_none_right_eq_some, some.injEq, hEntry, getD_some] at hPay
        obtain ⟨-, -, -, hSame⟩ := hPay
        exact hSame
      · rw [hDecr] at hNext
        simp only [perform, tryReserveGas]
        rw [hGas]
        rw [hNext, policies_setPayee, if_pos ⟨rfl, rfl⟩]
    · cases hPay

theorem payments_le_allowance {entry n} (hKept : EntryKept orders payer payee s operations)
    (hEntry : s.paymaster.policies payer payee = some entry) (hLimited : entry.allowance = some n) :
    (payments orders payer payee s operations).length ≤ n := by
  induction operations generalizing s entry n with
  | nil => exact Nat.zero_le n
  | cons operation rest ih =>
    unfold payments
    cases hPay : s.payment payer payee operation with
    | none =>
      exact ih hKept.2 ((perform_of_no_payment hPay hKept.1).trans hEntry) hLimited
    | some policy =>
      obtain ⟨hApplies, ⟨details, gasPrice, hAllows⟩, hNext⟩ := perform_of_payment hPay
      cases hApplies entry hEntry
      obtain ⟨_, next, hDecr, hLeft⟩ := hAllows.decrement hLimited
      have hRest := ih hKept.2 (hNext next hDecr) hLeft
      rw [toList_some, singleton_append, length_cons]
      omega

theorem payments_le_limit {limit} (hKept : EntryKept orders payer payee s operations)
    (hFirst : (payments orders payer payee s operations).head? = some policy)
    (hLimit : policy.transactionLimit = some limit) :
    (payments orders payer payee s operations).length ≤ limit.get := by
  induction operations generalizing s with
  | nil => exact Nat.zero_le _
  | cons operation rest ih =>
    unfold payments at hFirst ⊢
    cases hPay : s.payment payer payee operation with
    | none =>
      rw [hPay, toList_none] at hFirst
      exact ih hKept.2 hFirst
    | some first =>
      rw [hPay] at hFirst
      cases hFirst
      obtain ⟨-, ⟨details, gasPrice, hAllows⟩, hNext⟩ := perform_of_payment hPay
      obtain ⟨_, next, hDecr, hLeft⟩ := hAllows.decrement (PayeePolicy.allowance_of_limit hLimit)
      have hRest := payments_le_allowance hKept.2 (hNext next hDecr) hLeft
      rw [toList_some, singleton_append, length_cons]
      omega

end PaymasterState

/-- After any calls, reservations and changes of balances: a reservation that succeeds charges one
account, that of a payer that permits the transaction or else that of the sender. While no call changes
the entry of a payee, a payer pays at most the number of its transactions that limited the first. -/
theorem paymaster_pays_within_policy (s : PaymasterState S) (operations : List (PaymasterOperation S)) :
    (∀ details gasPrice context s' recipient,
      (s.run orders operations).tryReserveGas details gasPrice context = .ok (s', recipient) →
        (s.run orders operations).Charged s' details gasPrice context recipient ∧
        ∀ payer, s'.bank.balanceOf (.user payer) S.gasTokenId <
          (s.run orders operations).bank.balanceOf (.user payer) S.gasTokenId → payer = recipient) ∧
      ∀ payer payee policy limit, EntryKept orders payer payee s operations →
        (payments orders payer payee s operations).head? = some policy →
        policy.transactionLimit = some limit →
        (payments orders payer payee s operations).length ≤ limit.get := by
  constructor
  · intro details gasPrice context s' recipient hReserve
    have hCharged := tryReserveGas_charged hReserve
    refine ⟨hCharged, fun payer hLess => ?_⟩
    by_contra hOther
    have hSame := hCharged.locked.2.2.1 (.user payer) S.gasTokenId fun _ =>
      ⟨fun hUser => hOther (user.inj hUser), fun hBank => nomatch hBank⟩
    omega
  · intro payer payee policy limit hKept hFirst hLimit
    exact payments_le_limit hKept hFirst hLimit

def twoTransactionsPolicy : PaymasterPolicyInitializer testSpec :=
  { sequencerOnePolicy with defaultPayeePolicy := .allow (some 20) none none (some ⟨2, by decide, by decide⟩) }

def twoPayments : List (PaymasterOperation testSpec) :=
  [.call ⟨(5 : Nat), (0 : Nat), (1 : Nat)⟩ (.registerPaymaster twoTransactionsPolicy),
    .otherModules ((Bank.empty.setBalance (.user (5 : Nat)) 0 100).setBalance (.user (7 : Nat)) 0 100),
    .reserveGas ⟨(7 : Nat), (0 : Nat), (1 : Nat)⟩ ⟨0, 10, none⟩ fun _ => 1,
    .reserveGas ⟨(7 : Nat), (0 : Nat), (1 : Nat)⟩ ⟨0, 10, none⟩ fun _ => 1]

/-- The third transaction is paid for by its sender. -/
theorem third_transaction_is_not_paid :
    (payments testOrders (5 : Nat) (7 : Nat) ⟨.empty, .empty⟩ twoPayments).length ≤ 2 ∧
      ∃ s', (run testOrders ⟨.empty, .empty⟩ twoPayments).tryReserveGas ⟨0, 10, none⟩ (fun _ => 1)
          ⟨(7 : Nat), (0 : Nat), (1 : Nat)⟩ = .ok (s', (7 : Nat)) ∧
        (run testOrders ⟨.empty, .empty⟩ twoPayments).Charged s' ⟨0, 10, none⟩ (fun _ => 1)
          ⟨(7 : Nat), (0 : Nat), (1 : Nat)⟩ (7 : Nat) := by
  obtain ⟨hCharged, hLimited⟩ := @paymaster_pays_within_policy testSpec testOrders ⟨.empty, .empty⟩ twoPayments
  refine ⟨hLimited (5 : Nat) (7 : Nat) _ ⟨2, by decide, by decide⟩ ?_ rfl rfl,
    exists_and_of rfl fun hReserve => (hCharged _ _ _ _ _ hReserve).1⟩
  refine ⟨?_, ?_, ?_, ?_, trivial⟩
  · rintro _ _ ⟨⟩
    rfl
  · rintro _ _ ⟨⟩
  · rintro _ _ ⟨⟩
  · rintro _ _ ⟨⟩

end SovereignSdk
