import SovereignSdk.SequencerRegistry

/-! Solvency: what the kernel operations on stakes and escrows do to accounts
whose balances are covered, and that they stay covered. -/
namespace SovereignSdk.Accounts
open Bounded Bank

variable {S : Spec} {s s' : Accounts S}

variable {a : S.DaAddress} {k : KnownSequencer S} {amount : Nat}

theorem stakeOf_of_known (h : s.known a = some k) : s.stakeOf a = k.balance := by
  simp [stakeOf, h]

theorem stakeOf_congr (h : s'.known a = s.known a) : s'.stakeOf a = s.stakeOf a := by
  rw [stakeOf, h, stakeOf]

theorem Solvent.stake_le (hs : s.Solvent) (h : s.known a = some k) : k.balance ≤ s.gasBalance registryAccount :=
  stakeOf_of_known h ▸ hs.staked.le a

abbrev GasMoved (s s' : Accounts S) (sender receiver : S.Holder) (amount : Nat) : Prop :=
  s.bank.Moved s'.bank sender receiver S.gasTokenId amount

theorem GasMoved.other {sender receiver h} (hMoved : GasMoved s s' sender receiver amount)
    (hs : h ≠ sender) (hr : h ≠ receiver) : s'.gasBalance h = s.gasBalance h :=
  hMoved.2.2.1 h _ fun _ => ⟨hs, hr⟩

theorem GasMoved.sender {sender receiver} (hMoved : GasMoved s s' sender receiver amount)
    (hne : sender ≠ receiver) : s'.gasBalance sender = s.gasBalance sender - amount :=
  (hMoved.2.2.2.2 hne).1

theorem GasMoved.receiver {sender receiver} (hMoved : GasMoved s s' sender receiver amount)
    (hne : sender ≠ receiver) : s'.gasBalance receiver = s.gasBalance receiver + amount :=
  (hMoved.2.2.2.2 hne).2

theorem GasMoved.le {sender receiver} (hMoved : GasMoved s s' sender receiver amount) :
    amount ≤ s.gasBalance sender :=
  hMoved.2.1

theorem Solvent.of_moved (hs : s.Solvent) {sender receiver}
    (hMoved : GasMoved s s' sender receiver amount) (hReg : s'.registry = s.registry)
    (hSender : sender ≠ registryAccount) : s'.Solvent := by
  refine ⟨hs.covered.of_moved hMoved, ?_⟩
  have hKnown : s'.known = s.known := by simp [funext_iff, known, hReg]
  have hStake : s'.stakeOf = s.stakeOf := funext fun a => stakeOf_congr (congrFun hKnown a)
  rw [hStake]
  refine hs.staked.mono ?_
  by_cases hr : registryAccount = receiver
  · rw [hr, hMoved.receiver (hr ▸ hSender)]
    omega
  · rw [hMoved.other (Ne.symm hSender) hr]

theorem Solvent.withBank_moved (hs : s.Solvent) {bank sender receiver}
    (hMoved : s.bank.Moved bank sender receiver S.gasTokenId amount) (hSender : sender ≠ registryAccount) :
    (s.withBank bank).Solvent :=
  hs.of_moved hMoved rfl hSender

theorem Solvent.removePartOfTheStake_cases (hs : s.Solvent) (a : S.DaAddress) (beneficiary : S.Holder) (amount : Nat) :
    (∃ k s', s.known a = some k ∧ k.balanceState = .active ∧ amount ≤ k.balance ∧
        s.removePartOfTheStake a beneficiary amount = (s', .ok ()) ∧
        GasMoved s s' registryAccount beneficiary amount ∧
        s'.registry = (s.setSequencer a (some { k with balance := k.balance - amount })).registry ∧
        s'.Solvent) ∨
      (∃ e, s.removePartOfTheStake a beneficiary amount = (s, .error e)) ∧
        ∀ k, s.known a = some k → k.balanceState = .active → k.balance < amount := by
  unfold removePartOfTheStake
  cases hKnown : s.known a with
  | none => exact .inr ⟨⟨_, rfl⟩, by simp⟩
  | some k =>
    by_cases hActive : k.balanceState = .active
    · simp only [if_neg (not_not.mpr hActive)]
      cases hSub : checkedSub k.balance amount with
      | none =>
        refine .inr ⟨⟨_, rfl⟩, ?_⟩
        rintro _ ⟨⟩ -
        exact checkedSub_eq_none.mp hSub
      | some balance =>
        obtain ⟨hLe, rfl⟩ := checkedSub_eq_some.mp hSub
        have hStake := hs.stake_le hKnown
        rcases hs.covered.doTransfer_cases registryAccount beneficiary S.gasTokenId amount with
          ⟨bank, hOk, hMoved, hCover⟩ | ⟨_, -⟩
        · refine .inl ⟨k, (s.withBank bank).setSequencer a
            (some { k with balance := k.balance - amount }), rfl, hActive, hLe,
            by simp only [transferGas, hOk], hMoved, rfl, hCover, ?_⟩
          refine hs.staked.change a (fun c hc => stakeOf_congr (by simp [hc])) ?_
          rw [stakeOf_of_known (known_setSequencer _ a a _ |>.trans (if_pos rfl)), stakeOf_of_known hKnown]
          intro rest hRest
          simp only [gasBalance, bank_setSequencer, bank_withBank] at hRest ⊢
          by_cases hSelf : beneficiary = registryAccount
          · subst hSelf
            have := hMoved.2.2.2.1 rfl
            omega
          · have := (hMoved.2.2.2.2 (Ne.symm hSelf)).1
            omega
        · simp only [gasBalance] at hStake
          omega
    · refine .inr ⟨⟨.notActive, by simp [hActive]⟩, ?_⟩
      rintro _ ⟨⟩ h
      exact absurd h hActive

theorem Solvent.addToStake_ok (hs : s.Solvent) {sender} (hKnown : s.known a = some k)
    (hSender : sender ≠ registryAccount) (hFunds : amount ≤ s.gasBalance sender) :
    ∃ s', s.addToStake sender a amount = (s', .ok ()) ∧ GasMoved s s' sender registryAccount amount ∧
      s'.registry = (s.setSequencer a (some { k with balance := k.balance + amount })).registry ∧
      s'.Solvent := by
  have hStake := hs.stake_le hKnown
  have hPair := hs.covered.pair_le S.gasTokenId hSender
  simp only [gasBalance] at hStake hFunds
  have hAdd : checkedAdd amountMax k.balance amount = some (k.balance + amount) :=
    checkedAdd_eq_some.mpr ⟨by omega, rfl⟩
  rcases hs.covered.doTransfer_cases sender registryAccount S.gasTokenId amount with
    ⟨bank, hOk, hMoved, hCover⟩ | ⟨_, -⟩
  · refine ⟨(s.withBank bank).setSequencer a (some { k with balance := k.balance + amount }),
      by simp only [addToStake, hKnown, hAdd, transferGas, hOk], hMoved, rfl, hCover, ?_⟩
    refine hs.staked.change a (fun c hc => stakeOf_congr (by simp [hc])) ?_
    rw [stakeOf_of_known (known_setSequencer _ a a _ |>.trans (if_pos rfl)), stakeOf_of_known hKnown]
    intro rest hRest
    have := (hMoved.2.2.2.2 hSender).2
    simp only [gasBalance, bank_setSequencer, bank_withBank] at hRest ⊢
    omega
  · omega

theorem addToStake_ok {sender} (h : s.addToStake sender a amount = (s', .ok ())) :
    ∃ k, s.known a = some k ∧ GasMoved s s' sender registryAccount amount ∧
      s'.registry = (s.setSequencer a (some { k with balance := k.balance + amount })).registry := by
  unfold addToStake at h
  split at h
  · cases h
  · rename_i k hKnown
    split at h
    · cases h
    · rename_i balance hAdd
      obtain ⟨-, rfl⟩ := checkedAdd_eq_some.mp hAdd
      split at h
      · cases h
      · rename_i bank hXfer
        cases h
        exact ⟨k, hKnown, doTransfer_ok hXfer, rfl⟩

theorem addToStake_error {sender e}
    (h : s.addToStake sender a amount = (s', .error e)) : s'.registry = s.registry ∧ (s.Solvent → s' = s) := by
  unfold addToStake at h
  split at h
  · cases h
    exact ⟨rfl, fun _ => rfl⟩
  · split at h
    · cases h
      exact ⟨rfl, fun _ => rfl⟩
    · split at h
      · rename_i bank e' hXfer
        cases h
        refine ⟨rfl, fun hs => ?_⟩
        rcases hs.covered.doTransfer_cases sender registryAccount S.gasTokenId amount with
          ⟨b, hOk, -, -⟩ | ⟨-, e'', hError⟩
        · cases hOk.symm.trans hXfer
        · cases hError.symm.trans hXfer
          rfl
      · cases h

theorem Solvent.setSequencer_none (hs : s.Solvent) (a : S.DaAddress) : (s.setSequencer a none).Solvent := by
  refine ⟨hs.covered, hs.staked.anti fun c => ?_⟩
  by_cases hc : c = a
  · subst hc
    simp [stakeOf]
  · exact (stakeOf_congr (by simp [hc])).le

theorem Solvent.slashSequencer (hs : s.Solvent) (a : S.DaAddress) : (s.slashSequencer a).Solvent := by
  have h := hs.setSequencer_none a
  refine ⟨by simpa using h.covered, ?_⟩
  have hStake : (s.slashSequencer a).stakeOf = (s.setSequencer a none).stakeOf :=
    funext fun c => stakeOf_congr (by simp)
  have hBal : (s.slashSequencer a).gasBalance registryAccount = s.gasBalance registryAccount := by
    simp [gasBalance]
  rw [hStake, hBal]
  exact h.staked

/-- What the operations on a deferred escrow keep: the registry, the accounts of
the modules other than the bank's own, and solvency. -/
structure EscrowStep (s s' : Accounts S) (paid : Nat) : Prop where
  registry : s'.registry = s.registry
  bankAccount : s'.gasBalance bankAccount = s.gasBalance bankAccount + paid
  solvent : s'.Solvent

theorem Solvent.escrowStep_refl (hs : s.Solvent) : EscrowStep s s 0 := ⟨rfl, rfl, hs⟩

theorem balanceOf_of_balances {b : Bank S} {h t} (hb : b.balances h t = some amount) : b.balanceOf h t = amount := by
  simp [balanceOf, hb]

theorem Solvent.retrieveFundsFromEscrow_cases (hs : s.Solvent) (holder : Hash) (recipient : S.Address) (needed : Nat) :
    (∃ s', s.retrieveFundsFromEscrow holder recipient needed = .ok (s', .ok ()) ∧ EscrowStep s s' needed) ∨
      (∃ e, s.retrieveFundsFromEscrow holder recipient needed = .ok (s, .error e)) ∧
        (s.gasBalance (.derived holder) < needed ∨ s.gasBalance (.derived holder) = 0) := by
  unfold retrieveFundsFromEscrow
  cases hReserved : s.bank.balances (.derived holder) S.gasTokenId with
  | none => exact .inr ⟨⟨_, rfl⟩, .inr (by simp [gasBalance, balanceOf, hReserved])⟩
  | some reserved =>
    have hBal := balanceOf_of_balances hReserved
    cases hSub : checkedSub reserved needed with
    | none =>
      refine .inr ⟨⟨.notEnoughReservedBalance, by simp only [hSub]⟩, .inl ?_⟩
      rw [gasBalance, hBal]
      exact checkedSub_eq_none.mp hSub
    | some refund =>
      obtain ⟨_, rfl⟩ := checkedSub_eq_some.mp hSub
      left
      rcases hs.covered.doTransfer_cases (.derived holder) (.user recipient) S.gasTokenId
        (reserved - needed) with ⟨b₁, hOk₁, hMoved₁, hCover₁⟩ | ⟨_, -⟩
      · have hRest := (hMoved₁.2.2.2.2 (by simp)).1
        rcases hCover₁.doTransfer_cases (.derived holder) bankAccount S.gasTokenId needed with
          ⟨b₂, hOk₂, hMoved₂, -⟩ | ⟨_, -⟩
        · have hs₁ := hs.withBank_moved hMoved₁ (by simp)
          refine ⟨s.withBank b₂, by simp only [hSub, transferGas, hOk₁, hOk₂], rfl, ?_,
            hs₁.withBank_moved hMoved₂ (by simp)⟩
          have h₁ := hMoved₁.2.2.1 bankAccount S.gasTokenId fun _ => ⟨by simp, by simp⟩
          have h₂ := (hMoved₂.2.2.2.2 (by simp)).2
          simp only [gasBalance, bank_withBank]
          omega
        · omega
      · omega

theorem Solvent.refundAllReservedGas_ok (hs : s.Solvent) (holder : Hash) (recipient : S.Address) :
    ∃ s', s.refundAllReservedGas holder recipient = .ok s' ∧ EscrowStep s s' 0 := by
  unfold refundAllReservedGas
  cases hReserved : s.bank.balances (.derived holder) S.gasTokenId with
  | none => exact ⟨s, rfl, hs.escrowStep_refl⟩
  | some reserved =>
    have hBal := balanceOf_of_balances hReserved
    rcases hs.covered.doTransfer_cases (.derived holder) (.user recipient) S.gasTokenId reserved with
      ⟨b, hOk, hMoved, -⟩ | ⟨_, -⟩
    · refine ⟨s.withBank b, by simp only [transferGas, hOk], rfl, ?_,
        hs.withBank_moved hMoved (by simp)⟩
      exact hMoved.2.2.1 bankAccount S.gasTokenId fun _ => ⟨by simp, by simp⟩
    · omega

end SovereignSdk.Accounts
