import SovereignSdk.SequencerRegistry.Calls

/-! Who is registered, and whether a withdrawal is pending, apart from the funds
staked. Only a few operations change that. -/
namespace SovereignSdk.Accounts
open Bounded

variable {S : Spec} {s s' s'' : Accounts S}

def statusOf (s : Accounts S) (a : S.DaAddress) : Option (S.Address × BalanceState) :=
  (s.known a).map fun k => (k.address, k.balanceState)

variable {a : S.DaAddress}

theorem statusOf_eq_none : s.statusOf a = none ↔ s.known a = none := by
  simp [statusOf]

theorem statusOf_of_known {k} (h : s.known a = some k) : s.statusOf a = some (k.address, k.balanceState) := by
  simp [statusOf, h]

theorem statusOf_of_registry {c k} (h : s'.registry = (s.setSequencer a k).registry) :
    s'.statusOf c = if c = a then k.map (fun k => (k.address, k.balanceState)) else s.statusOf c := by
  unfold statusOf
  rw [known_of_registry h]
  split <;> rfl

@[simp] theorem statusOf_slashSequencer (a c : S.DaAddress) :
    (s.slashSequencer a).statusOf c = if c = a then none else s.statusOf c := by
  unfold statusOf
  rw [known_slashSequencer]
  split <;> rfl

theorem preferredSequencer_slashSequencer (a : S.DaAddress) :
    (s.slashSequencer a).registry.preferredSequencer =
      if s.registry.preferredSequencer = some a then none else s.registry.preferredSequencer := by
  unfold slashSequencer
  dsimp only
  split
  · rename_i h
    rw [if_pos (show s.registry.preferredSequencer = some a from h)]
  · rename_i h
    rw [if_neg (show ¬ s.registry.preferredSequencer = some a from h)]
    rfl

/-- A step that changes no registration but for its balance, and that moves an
amount to the bank account if the accounts are solvent. -/
structure Draws (s s' : Accounts S) (paid : Nat) : Prop where
  statusOf : s'.statusOf = s.statusOf
  preferred : s'.registry.preferredSequencer = s.registry.preferredSequencer
  solvent : s.Solvent → s'.Solvent
  bankAccount : s.Solvent → s'.gasBalance bankAccount = s.gasBalance bankAccount + paid

theorem Draws.refl (s : Accounts S) : Draws s s 0 := ⟨rfl, rfl, id, fun _ => rfl⟩

theorem Draws.trans {m n} (h : Draws s s' m) (h' : Draws s' s'' n) : Draws s s'' (m + n) where
  statusOf := h'.statusOf.trans h.statusOf
  preferred := h'.preferred.trans h.preferred
  solvent := fun hs => h'.solvent (h.solvent hs)
  bankAccount := fun hs => by rw [h'.bankAccount (h.solvent hs), h.bankAccount hs, Nat.add_assoc]

theorem removePartOfTheStake_statusOf (s : Accounts S) (a : S.DaAddress) (beneficiary : S.Holder) (amount : Nat) :
    (s.removePartOfTheStake a beneficiary amount).1.statusOf = s.statusOf ∧
      (s.removePartOfTheStake a beneficiary amount).1.registry.preferredSequencer =
        s.registry.preferredSequencer := by
  unfold removePartOfTheStake
  split
  · exact ⟨rfl, rfl⟩
  · rename_i k hKnown
    split
    · exact ⟨rfl, rfl⟩
    · split
      · exact ⟨rfl, rfl⟩
      · split
        · exact ⟨rfl, rfl⟩
        · refine ⟨funext fun c => ?_, rfl⟩
          refine (statusOf_of_registry rfl).trans ?_
          split
          · rename_i hc
            rw [hc, statusOf_of_known hKnown]
            rfl
          · rfl

variable {beneficiary : S.Holder} {amount : Nat} {holder : Hash} {recipient : S.Address}

theorem removePartOfTheStake_ok (h : s.removePartOfTheStake a beneficiary amount = (s', .ok ())) :
    (∃ address, s.statusOf a = some (address, .active)) ∧
      Draws s s' (if beneficiary = Accounts.bankAccount then amount else 0) := by
  have hKeeps := removePartOfTheStake_statusOf s a beneficiary amount
  rw [h] at hKeeps
  refine ⟨?_, hKeeps.1, hKeeps.2, fun hs => ?_, fun hs => ?_⟩
  · unfold removePartOfTheStake at h
    split at h
    · cases h
    · rename_i k hKnown
      split at h
      · cases h
      · rename_i hActive
        exact ⟨k.address, by rw [statusOf_of_known hKnown, not_not.mp hActive]⟩
  · rcases hs.removePartOfTheStake_cases a beneficiary amount with
      ⟨k, s₁, -, -, -, hOk, -, -, hSolv⟩ | ⟨⟨e, hError⟩, -⟩
    · cases hOk.symm.trans h
      exact hSolv
    · cases hError.symm.trans h
  · rcases hs.removePartOfTheStake_cases a beneficiary amount with
      ⟨k, s₁, -, -, -, hOk, hMoved, -, -⟩ | ⟨⟨e, hError⟩, -⟩
    · cases hOk.symm.trans h
      split
      · rename_i hBank
        subst hBank
        exact hMoved.receiver (by simp)
      · rename_i hBank
        exact hMoved.other (by simp) (Ne.symm hBank)
    · cases hError.symm.trans h

theorem removePartOfTheStake_error {e}
    (h : s.removePartOfTheStake a beneficiary amount = (s', .error e)) : Draws s s' 0 := by
  have hKeeps := removePartOfTheStake_statusOf s a beneficiary amount
  rw [h] at hKeeps
  have hSame : s.Solvent → s' = s := fun hs => by
    rcases hs.removePartOfTheStake_cases a beneficiary amount with
      ⟨k, s₁, -, -, -, hOk, -, -, -⟩ | ⟨⟨e', hError⟩, -⟩
    · cases hOk.symm.trans h
    · exact (Prod.mk.inj (h.symm.trans hError)).1
  exact ⟨hKeeps.1, hKeeps.2, fun hs => hSame hs ▸ hs, fun hs => by rw [hSame hs]; rfl⟩

theorem Draws.of_escrowStep {paid} (hReg : s'.registry = s.registry)
    (hStep : s.Solvent → EscrowStep s s' paid) : Draws s s' paid where
  statusOf := by unfold Accounts.statusOf known; rw [hReg]
  preferred := by rw [hReg]
  solvent := fun hs => (hStep hs).solvent
  bankAccount := fun hs => (hStep hs).bankAccount

theorem retrieveFundsFromEscrow_draws {needed result}
    (h : s.retrieveFundsFromEscrow holder recipient needed = .ok (s', result)) :
    Draws s s' (match result with | .ok () => needed | .error _ => 0) := by
  refine .of_escrowStep ?_ fun hs => ?_
  · unfold retrieveFundsFromEscrow at h
    repeat' split at h
    all_goals cases h <;> rfl
  · rcases hs.retrieveFundsFromEscrow_cases holder recipient needed with
      ⟨s₁, hOk, hStep⟩ | ⟨⟨e, hError⟩, -⟩
    · cases hOk.symm.trans h
      exact hStep
    · cases hError.symm.trans h
      exact hs.escrowStep_refl

theorem refundAllReservedGas_draws (h : s.refundAllReservedGas holder recipient = .ok s') : Draws s s' 0 := by
  refine .of_escrowStep ?_ fun hs => ?_
  · unfold refundAllReservedGas at h
    repeat' split at h
    all_goals cases h <;> rfl
  · obtain ⟨s₁, hOk, hStep⟩ := hs.refundAllReservedGas_ok holder recipient
    cases hOk.symm.trans h
    exact hStep

end SovereignSdk.Accounts
