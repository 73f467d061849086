import SovereignSdk.StfBlueprint.Blobs

/-! What transactions and the payments around them do to the accounts. -/
namespace SovereignSdk
open Bounded Outcome Bank Accounts

variable {S : Spec}

namespace Accounts
variable {s s' : Accounts S}

theorem payFromBank_ok {panic receiver amount} (h : s.payFromBank panic receiver amount = .ok s') :
    GasMoved s s' bankAccount receiver amount ∧ s'.registry = s.registry := by
  unfold payFromBank at h
  split at h
  · cases h
  · rename_i hXfer
    cases h
    exact ⟨doTransfer_ok hXfer, rfl⟩

theorem returnEscrowedFundsToSequencer_ok {bond reward penalty a}
    (h : s.returnEscrowedFundsToSequencer bond reward penalty a = .ok s') :
    penalty ≤ bond ∧ ∃ k, s.known a = some k ∧ GasMoved s s' bankAccount registryAccount (bond - penalty + reward) ∧
      s'.registry = (s.setSequencer a
        (some { k with balance := k.balance + (bond - penalty + reward) })).registry := by
  simp only [returnEscrowedFundsToSequencer, bind_eq_ok, unwrap_eq_ok, checkedSub_eq_some, checkedAdd_eq_some] at h
  obtain ⟨_, ⟨hLe, rfl⟩, _, ⟨-, rfl⟩, h⟩ := h
  split at h
  · cases h
  · rename_i hStake
    cases h
    exact ⟨hLe, addToStake_ok hStake⟩

theorem reserveGas_some {details price payer} (h : s.reserveGas details price payer = some s') :
    GasMoved s s' (.user payer) bankAccount details.maxFee ∧ s'.registry = s.registry := by
  unfold reserveGas at h
  split at h
  · cases h
  · split at h
    · cases h
    · split at h
      · cases h
      · rename_i bank hXfer
        cases h
        exact ⟨doTransfer_ok hXfer, rfl⟩

end Accounts

inductive ActEffect (chain : ChainState S) (context : Context S) (w w' : WorkingSet S) : Prop where
  | charge {amount : S.Gas} (hMeter : w.meter.chargeGas amount = .ok w'.meter) (hState : w'.state = w.state)
  | bank {b : Bank S} (hEq : w' = w.withBank b)
      (hCovered : w.state.accounts.bank.Covered → b.Covered)
      (hKept : ∀ m, m = .bank ∨ m = .sequencerRegistry → b.balanceOf (.moduleAccount m) S.gasTokenId =
          w.state.accounts.bank.balanceOf (.moduleAccount m) S.gasTokenId)
  | registry {message : SequencerRegistry.CallMessage S} (hMeter : w'.meter = w.meter)
      (hEffect : CallEffect context chain.visibleSlotNumber w.state.accounts w'.state.accounts
        message)
      (hWithdrawn : w'.state.withdrawn = WorkingSet.recordWithdrawal w.state.withdrawn message)
  | setup {height : Nat}
      (hEq : w' = { w with state := { w.state with setupModeTerminationHeight := some height } })

namespace WorkingSet
variable {chain : ChainState S} {context : Context S} {w w' : WorkingSet S}

theorem transfer_some {sender receiver amount} (h : w.transfer sender receiver amount = some w')
    (hSender : sender ≠ bankAccount ∧ sender ≠ registryAccount)
    (hReceiver : receiver ≠ bankAccount ∧ receiver ≠ registryAccount) :
    ActEffect chain context w w' := by
  unfold transfer at h
  split at h
  · cases h
  · rename_i bank hXfer
    cases h
    have hMoved := doTransfer_ok hXfer
    refine .bank rfl (fun hb => hb.of_moved hMoved) ?_
    rintro m (rfl | rfl)
    · exact hMoved.2.2.1 _ _ fun _ => ⟨hSender.1.symm, hReceiver.1.symm⟩
    · exact hMoved.2.2.1 _ _ fun _ => ⟨hSender.2.symm, hReceiver.2.symm⟩

theorem callRegistry_some {message}
    (h : w.callRegistry chain context message = .ok (some w')) : ActEffect chain context w w' := by
  unfold callRegistry at h
  rw [bind_eq_ok] at h
  obtain ⟨result, hCall, h⟩ := h
  cases result with
  | error e => cases h
  | ok accounts =>
    cases h
    exact .registry rfl (call_ok hCall) rfl

theorem act_some {action} (h : w.act chain context action = .ok (some w')) : ActEffect chain context w w' := by
  cases action with
  | chargeGas amount =>
    simp only [act] at h
    split at h
    · rename_i meter hCharge
      cases h
      exact .charge hCharge rfl
    · cases h
  | bank message =>
    simp only [act] at h
    split at h
    · rename_i bank hCall
      cases h
      exact .bank rfl (fun hb => call_covered hb hCall) fun m _ =>
        call_other hCall (by simp) _
    · cases h
  | sequencerRegistry message => exact callRegistry_some h
  | terminateSetupMode =>
    simp only [act, terminateSetupMode] at h
    split at h
    · cases h
    · cases h
      exact .setup rfl
  | payOut payer receiver amount =>
    exact transfer_some (Except.ok.inj h) (by simpa using payer.2) (by simp)
  | collect payer receiver amount =>
    exact transfer_some (Except.ok.inj h) (by simp) (by simpa using receiver.2)
  | burn owner token amount =>
    simp only [act] at h
    split at h
    · rename_i bank hBurn
      cases h
      refine .bank rfl (fun hb => burn_covered hb hBurn) ?_
      rintro m (rfl | rfl)
      · exact burn_other hBurn (by simpa using owner.2.1.symm) _
      · exact burn_other hBurn (by simpa using owner.2.2.symm) _
    · cases h
  | fail => cases h

theorem run_invariant (inv : WorkingSet S → Prop)
    (hStep : ∀ w w', inv w → ActEffect chain context w w' → inv w') {actions finished} (hw : inv w)
    (h : run chain context w actions = .ok (w', finished)) : inv w' := by
  induction actions generalizing w with
  | nil =>
    cases h
    exact hw
  | cons action rest ih =>
    simp only [run, bind_eq_ok] at h
    obtain ⟨result, hAct, h⟩ := h
    cases result with
    | none =>
      cases h
      exact hw
    | some next => exact ih (hStep w next hw (act_some hAct)) h

end WorkingSet

namespace ActEffect
variable {chain : ChainState S} {context : Context S} {w w' : WorkingSet S}

theorem bankAccount (h : ActEffect chain context w w') :
    w'.state.accounts.gasBalance bankAccount = w.state.accounts.gasBalance bankAccount := by
  cases h with
  | charge _ hState | setup hState => rw [hState]
  | bank hEq _ hKept =>
    rw [hEq]
    exact hKept .bank (.inl rfl)
  | registry _ hEffect _ => exact hEffect.bankAccount

theorem funded (h : ActEffect chain context w w') {maxFee} (hw : w.meter.Funded maxFee) : w'.meter.Funded maxFee := by
  cases h with
  | charge hMeter _ => exact hw.chargeGas hMeter
  | bank hEq _ _ | registry hEq _ _ | setup hEq =>
    rw [hEq]
    exact hw

end ActEffect

namespace WorkingSet
variable {chain : ChainState S} {context : Context S} {w w' : WorkingSet S}

theorem run_accounted {actions finished maxFee}
    (hw : w.meter.Funded maxFee) (h : run chain context w actions = .ok (w', finished)) :
    w'.meter.Funded maxFee ∧ w'.state.accounts.gasBalance bankAccount = w.state.accounts.gasBalance bankAccount :=
  run_invariant (fun v => v.meter.Funded maxFee ∧ v.state.accounts.gasBalance bankAccount =
      w.state.accounts.gasBalance bankAccount)
    (fun _ _ hv hStep => ⟨hStep.funded hv.1, hStep.bankAccount.trans hv.2⟩) ⟨hw, rfl⟩ h

end WorkingSet

theorem TxDetails.gasMeter_funded (details : TxDetails S) (price : S.Price) (slotGas : S.Gas) :
    (details.gasMeter price slotGas).Funded details.maxFee :=
  BasicGasMeter.funded_newWithFundsAndGas _ _ _

theorem ChainState.proverTokenHolder_ne_bank (chain : ChainState S) :
    bankAccount ≠ chain.proverTokenHolder := by
  unfold ChainState.proverTokenHolder
  split <;> simp

namespace Accounts
variable {s s' : Accounts S}

variable {amount : Nat}

theorem GasMoved.paid {receiver} (hMoved : GasMoved s s' bankAccount receiver amount)
    (hne : bankAccount ≠ receiver) : s'.gasBalance bankAccount + amount = s.gasBalance bankAccount := by
  have hLe := hMoved.le
  rw [hMoved.sender hne]
  omega

theorem refundRemainingGas_bank {recipient} (h : s.refundRemainingGas recipient amount = .ok s') :
    s'.gasBalance bankAccount + amount = s.gasBalance bankAccount :=
  (payFromBank_ok h).1.paid (by simp)

theorem rewardProver_bank {chain} (h : s.rewardProver chain amount = .ok s') :
    s'.gasBalance bankAccount + amount = s.gasBalance bankAccount :=
  (payFromBank_ok h).1.paid chain.proverTokenHolder_ne_bank

theorem returnEscrowedFundsToSequencer_bank {bond reward penalty a}
    (h : s.returnEscrowedFundsToSequencer bond reward penalty a = .ok s') :
    penalty ≤ bond ∧ s'.gasBalance bankAccount + (bond - penalty + reward) = s.gasBalance bankAccount := by
  obtain ⟨hLe, k, -, hMoved, -⟩ := returnEscrowedFundsToSequencer_ok h
  exact ⟨hLe, hMoved.paid (by simp)⟩

end Accounts

end SovereignSdk
