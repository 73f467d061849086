import SovereignSdk.Bank.Supply

/-! Runs of everything that touches stakes or gas tokens: calls to the registry, the
operations of the kernel on stakes, and the use of the bank by others. -/
namespace SovereignSdk
open Bounded Outcome

variable {S : Spec}

namespace Accounts

/-- One operation. The gas tokens of the registry are spent by the registry only, so it is
neither the payer of another's bank operation nor of an addition to a stake, which the
kernel pays from the bank account. -/
inductive Operation (S : Spec) where
  | call (context : Context S) (visible : Nat) (message : SequencerRegistry.CallMessage S)
  | removePartOfTheStake (sequencer : S.DaAddress) (beneficiary : S.Holder) (amount : Amount)
  | addToStake (sender : S.Holder) (sequencer : S.DaAddress) (amount : Amount)
      (sender_ne : sender ≠ registryAccount)
  | slashSequencer (sequencer : S.DaAddress)
  | transferGas (sender receiver : S.Holder) (amount : Amount) (sender_ne : sender ≠ registryAccount)
  | bank (op : Bank.Operation S) (payer_ne : op.payer ≠ some registryAccount)

/-- Calls and bank operations are reverted if they fail. The kernel's operations and
transfers are not: what they have changed by then stays. -/
def perform (s : Accounts S) : Operation S → Except Panic (Accounts S)
  | .call context visible message => do
      match ← s.call context visible message with
      | .ok s' => return s'
      | .error _ => return s
  | .removePartOfTheStake a beneficiary amount => .ok (s.removePartOfTheStake a beneficiary amount).1
  | .addToStake sender a amount _ => .ok (s.addToStake sender a amount).1
  | .slashSequencer a => .ok (s.slashSequencer a)
  | .transferGas sender receiver amount _ =>
    .ok (s.withBank (s.bank.transferGas sender receiver amount).1)
  | .bank op _ =>
    match s.bank.perform op with
    | .ok bank => .ok (s.withBank bank)
    | .error _ => .ok s

namespace Solvent
variable {s s' : Accounts S}

section
variable (hs : s.Solvent)
include hs

theorem removePartOfTheStake (a : S.DaAddress) (beneficiary : S.Holder) (amount : Nat) :
    (s.removePartOfTheStake a beneficiary amount).1.Solvent := by
  rcases hs.removePartOfTheStake_cases a beneficiary amount with
    ⟨k, s', -, -, -, hOk, -, -, hSolv⟩ | ⟨⟨e, hError⟩, -⟩
  · rw [hOk]
    exact hSolv
  · rw [hError]
    exact hs

theorem addToStake {sender} (hSender : sender ≠ registryAccount)
    (a : S.DaAddress) (amount : Nat) : (s.addToStake sender a amount).1.Solvent := by
  cases hAdd : s.addToStake sender a amount with
  | mk s' result =>
    cases result with
    | error e =>
      rw [(addToStake_error hAdd).2 hs]
      exact hs
    | ok u =>
      obtain ⟨k, hKnown, hMoved, _⟩ := Accounts.addToStake_ok hAdd
      obtain ⟨s₁, hOk, -, -, hSolv⟩ := hs.addToStake_ok hKnown hSender hMoved.le
      cases hOk.symm.trans hAdd
      exact hSolv

theorem transferGas {sender} (hSender : sender ≠ registryAccount) (receiver : S.Holder) (amount : Nat) :
    (s.withBank (s.bank.transferGas sender receiver amount).1).Solvent := by
  rcases hs.covered.doTransfer_cases sender receiver S.gasTokenId amount with
    ⟨bank, hOk, hMoved, -⟩ | ⟨-, e, hError⟩
  · rw [Bank.transferGas, hOk]
    exact hs.withBank_moved hMoved hSender
  · rw [Bank.transferGas, hError]
    exact hs

theorem perform {op} (h : s.perform op = .ok s') : s'.Solvent := by
  cases op with
  | call context visible message =>
    simp only [Accounts.perform, bind_eq_ok] at h
    obtain ⟨result, hCall, h⟩ := h
    cases result with
    | ok s₁ =>
      cases h
      exact (call_ok hCall).solvent hs
    | error e =>
      cases h
      exact hs
  | removePartOfTheStake a beneficiary amount =>
    cases h
    exact hs.removePartOfTheStake a beneficiary amount
  | addToStake sender a amount hSender =>
    cases h
    exact hs.addToStake hSender a amount
  | slashSequencer a =>
    cases h
    exact hs.slashSequencer a
  | transferGas sender receiver amount hSender =>
    cases h
    exact hs.transferGas hSender receiver amount
  | bank op hPayer =>
    unfold Accounts.perform at h
    dsimp only at h
    split at h
    · rename_i hPerf
      cases h
      have hEffect := Bank.perform_effect hPerf
      exact ⟨hEffect.covered hs.covered, hs.staked.mono (hEffect.balanceOf_le hs.covered hPayer _)⟩
    · cases h
      exact hs

end

end Solvent

/-- After every run from genesis the registry account covers the stakes of all sequencers,
and the transfer of a withdrawal does not fail. -/
theorem registry_covers_stakes {config : GenesisConfig S} {start : RollupState S}
    (hGenesis : genesis config = .ok start) {s : Accounts S}
    (run : Reaches perform (fun _ _ => True) start.accounts s) :
    TotalAtMost s.stakeOf (s.gasBalance registryAccount) ∧
      ∀ a sender visible, s.withdraw a sender visible ≠ .error .withdrawal := by
  have hs : s.Solvent := by
    refine run.invariant Accounts.Solvent (genesis_atGenesis hGenesis).solvent fun s s' op hs _ hStep => ?_
    exact hs.perform hStep
  refine ⟨hs.staked, fun a sender visible hError => ?_⟩
  have hCall : s.call ⟨sender, sender, a⟩ visible (.withdraw a) = .error .withdrawal := hError
  cases hs.call_error hCall

/-- A deserialization fee burned within the registry account, a registration by another
user and a slash. -/
def stakeOperations : List (Operation testSpec) :=
  [.bank (.transferFrom (.user (7 : Nat)) (.user (8 : Nat)) 0 200) (fun h => nomatch h),
    .removePartOfTheStake (1 : Nat) registryAccount 10,
    .call ⟨(8 : Nat), (7 : Nat), (1 : Nat)⟩ 0 (.register (2 : Nat) 50),
    .slashSequencer (1 : Nat)]

/-- The slashed stake stays with the registry, which covers the other one. -/
theorem registry_covers_stakes_after_slash :
    ∃ (start : RollupState testSpec) (s : Accounts testSpec),
      genesis (soloGenesis (7 : Nat) (1 : Nat) 1000 100 true) = .ok start ∧
      stakeOperations.foldlM perform start.accounts = .ok s ∧
      s.stakeOf (1 : Nat) = 0 ∧ s.stakeOf (2 : Nat) = 50 ∧ s.gasBalance registryAccount = 150 ∧
      TotalAtMost s.stakeOf (s.gasBalance registryAccount) := by
  simp only [exists_and_left]
  refine exists_and_of returned fun hGenesis => exists_and_of returned fun hRun => ?_
  refine ⟨by decide +kernel, by decide +kernel, by decide +kernel, ?_⟩
  exact (registry_covers_stakes hGenesis (.of_foldlM (fun _ _ => trivial) hRun .refl)).1

end Accounts
end SovereignSdk
