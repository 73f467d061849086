import SovereignSdk.SequencerRegistry.Stake

/-! Calls of users to the sequencer registry. A call either stops the node, or
fails and is reverted with its transaction, or returns the new accounts. -/
namespace SovereignSdk
open Bounded Option Outcome SequencerRegistry

namespace SequencerRegistry

inductive CallMessage (S : Spec) where
  | register (daAddress : S.DaAddress) (amount : Amount)
  | deposit (daAddress : S.DaAddress) (amount : Amount)
  | initiateWithdrawal (daAddress : S.DaAddress)
  | withdraw (daAddress : S.DaAddress)

end SequencerRegistry

def advanceSlot (slot n : Nat) : Except Panic Nat :=
  unwrap .slotNumberOverflow (checkedAdd u64Max slot n)

namespace Accounts
variable {S : Spec} (s : Accounts S) (a : S.DaAddress)

def registerStaker (amount : Nat) (address : S.Address) : Except RegistryError (Accounts S) :=
  match s.known a, s.registry.minimumBond with
  | some _, _ => .error .alreadyRegistered
  | none, none => .error .noMinimumBondSet
  | none, some minimumBond =>
    if amount < minimumBond then .error .insufficientStakeAmount
    else
      match s.bank.transferGas (.user address) registryAccount amount with
      | (_, .error _) => .error .insufficientFundsToRegister
      | (bank, .ok ()) =>
        .ok ((s.withBank bank).setSequencer a (some ⟨address, amount, .active⟩))

/-- `validate_sender`: only the owner of a registration may act on it. -/
def validateSender (sender : S.Address) : Except RegistryError (KnownSequencer S) :=
  match s.known a with
  | none => .error .notRegistered
  | some k => if sender = k.address then .ok k else .error .suppliedAddressDoesNotMatchTxSender

/-- `deposit`: tops up the stake and re-activates the sequencer. -/
def deposit (amount : Nat) (sender : S.Address) : Except RegistryError (Accounts S) := do
  let k ← s.validateSender a sender
  let balance ← unwrap .toppingAccountMakesBalanceOverflow
    (checkedAdd amountMax k.balance amount)
  match s.bank.transferGas (.user k.address) registryAccount amount with
  | (_, .error _) => .error .insufficientFundsToTopUpAccount
  | (bank, .ok ()) =>
    .ok ((s.withBank bank).setSequencer a (some { k with balance, balanceState := .active }))

def initiateWithdrawal (context : Context S) (visible : Nat) : Except Panic (Except RegistryError (Accounts S)) :=
  match s.validateSender a context.sender with
  | .error e => .ok (.error e)
  | .ok k =>
    if k.address = context.sequencer then .ok (.error .cannotUnregisterDuringOwnBatch)
    else if k.balanceState ≠ .active then .ok (.error .withdrawalAlreadyPending)
    else do
      let readyAt ← advanceSlot visible (S.deferredSlotsCount + 1)
      return .ok (s.setSequencer a (some { k with balanceState := .pendingWithdrawal readyAt }))

def withdraw (sender : S.Address) (visible : Nat) : Except Panic (Except RegistryError (Accounts S)) :=
  match s.validateSender a sender with
  | .error e => .ok (.error e)
  | .ok k =>
    match k.balanceState with
    | .active => .ok (.error .withdrawalNotInitiated)
    | .pendingWithdrawal readyAt =>
      if visible < readyAt then .ok (.error .withdrawalNotReady)
      else
        let s := s.setSequencer a none
        match s.bank.transferGas registryAccount (.user k.address) k.balance with
        | (_, .error _) => .error .withdrawal
        | (bank, .ok ()) => .ok (.ok (s.withBank bank))

def call (context : Context S) (visible : Nat) :
    CallMessage S → Except Panic (Except RegistryError (Accounts S))
  | .register a amount => .ok (s.registerStaker a amount context.sender)
  | .deposit a amount => .ok (s.deposit a amount context.sender)
  | .initiateWithdrawal a => s.initiateWithdrawal a context visible
  | .withdraw a => s.withdraw a context.sender visible

/-- What a successful call does to the registry and to the gas tokens. -/
inductive CallEffect (context : Context S) (visible : Nat) (s s' : Accounts S) :
    CallMessage S → Prop where
  | register {a : S.DaAddress} {amount : Amount} (hKnown : s.known a = none)
      (hRegistry : s'.registry = (s.setSequencer a (some ⟨context.sender, amount, .active⟩)).registry)
      (hMoved : GasMoved s s' (.user context.sender) registryAccount amount) :
      CallEffect context visible s s' (.register a amount)
  | deposit {a : S.DaAddress} {amount : Amount} {k : KnownSequencer S} (hKnown : s.known a = some k)
      (hRegistry : s'.registry = (s.setSequencer a
        (some { k with balance := k.balance + amount, balanceState := .active })).registry)
      (hMoved : GasMoved s s' (.user k.address) registryAccount amount) :
      CallEffect context visible s s' (.deposit a amount)
  | initiateWithdrawal {a : S.DaAddress} {k : KnownSequencer S} (hKnown : s.known a = some k)
      (hActive : k.balanceState = .active) (hOwn : k.address ≠ context.sequencer)
      (hState : s' = s.setSequencer a (some { k with
        balanceState := .pendingWithdrawal (visible + (S.deferredSlotsCount + 1)) })) :
      CallEffect context visible s s' (.initiateWithdrawal a)
  | withdraw {a : S.DaAddress} {k : KnownSequencer S} {readyAt : Nat} (hKnown : s.known a = some k)
      (hPending : k.balanceState = .pendingWithdrawal readyAt) (hReady : readyAt ≤ visible)
      (hRegistry : s'.registry = (s.setSequencer a none).registry)
      (hMoved : GasMoved s s' registryAccount (.user k.address) k.balance) :
      CallEffect context visible s s' (.withdraw a)

variable {s s' : Accounts S} {a : S.DaAddress} {context : Context S} {visible : Nat}
variable {message : CallMessage S}

variable {sender : S.Address} {amount : Nat} {k : Option (KnownSequencer S)}

theorem validateSender_ok {k} (h : s.validateSender a sender = .ok k) : s.known a = some k := by
  unfold validateSender at h
  split at h
  · cases h
  · rename_i hKnown
    split at h
    · cases h
      exact hKnown
    · cases h

theorem registerStaker_ok {address} (h : s.registerStaker a amount address = .ok s') :
    s.known a = none ∧ s'.registry = (s.setSequencer a (some ⟨address, amount, .active⟩)).registry ∧
      GasMoved s s' (.user address) registryAccount amount := by
  unfold registerStaker at h
  split at h
  · cases h
  · cases h
  · rename_i hKnown _
    split at h
    · cases h
    · split at h
      · cases h
      · rename_i bank hXfer
        cases h
        exact ⟨hKnown, rfl, Bank.doTransfer_ok hXfer⟩

theorem deposit_ok (h : s.deposit a amount sender = .ok s') :
    ∃ k, s.known a = some k ∧ s'.registry = (s.setSequencer a
        (some { k with balance := k.balance + amount, balanceState := .active })).registry ∧
      GasMoved s s' (.user k.address) registryAccount amount := by
  simp only [deposit, bind_eq_ok, unwrap_eq_ok, checkedAdd_eq_some] at h
  obtain ⟨k, hSender, balance, ⟨-, rfl⟩, h⟩ := h
  split at h
  · cases h
  · rename_i bank hXfer
    cases h
    exact ⟨k, validateSender_ok hSender, rfl, Bank.doTransfer_ok hXfer⟩

theorem initiateWithdrawal_ok (h : s.initiateWithdrawal a context visible = .ok (.ok s')) :
    CallEffect context visible s s' (.initiateWithdrawal a) := by
  unfold initiateWithdrawal at h
  split at h
  · cases h
  · rename_i k hSender
    split at h
    · cases h
    · rename_i hOwn
      split at h
      · cases h
      · rename_i hActive
        simp only [bind_eq_ok, advanceSlot, unwrap_eq_ok, checkedAdd_eq_some, pure, Except.pure, Except.ok.injEq] at h
        obtain ⟨readyAt, ⟨-, rfl⟩, rfl⟩ := h
        exact .initiateWithdrawal (validateSender_ok hSender) (not_not.mp hActive) hOwn rfl

theorem withdraw_ok (h : s.withdraw a context.sender visible = .ok (.ok s')) :
    CallEffect context visible s s' (.withdraw a) := by
  unfold withdraw at h
  split at h
  · cases h
  · rename_i k hSender
    split at h
    · cases h
    · rename_i readyAt hPending
      split at h
      · cases h
      · rename_i hReady
        dsimp only at h
        split at h
        · cases h
        · rename_i bank hXfer
          cases h
          exact .withdraw (validateSender_ok hSender) hPending (Nat.le_of_not_lt hReady) rfl
            (Bank.doTransfer_ok hXfer)

theorem call_ok (h : s.call context visible message = .ok (.ok s')) : CallEffect context visible s s' message := by
  cases message with
  | register a amount =>
    obtain ⟨hKnown, hRegistry, hMoved⟩ := registerStaker_ok (Except.ok.inj h)
    exact .register hKnown hRegistry hMoved
  | deposit a amount =>
    obtain ⟨k, hKnown, hRegistry, hMoved⟩ := deposit_ok (Except.ok.inj h)
    exact .deposit hKnown hRegistry hMoved
  | initiateWithdrawal a => exact initiateWithdrawal_ok h
  | withdraw a => exact withdraw_ok h

theorem known_of_registry {c} (h : s'.registry = (s.setSequencer a k).registry) :
    s'.known c = if c = a then k else s.known c := by
  rw [known, h]
  exact known_setSequencer s a c k

theorem Solvent.of_setSequencer (hs : s.Solvent) (hCover : s'.bank.Covered)
    (hRegistry : s'.registry = (s.setSequencer a k).registry)
    (hBal : ∀ rest, s.stakeOf a + rest ≤ s.gasBalance registryAccount →
      (k.map (·.balance)).getD 0 + rest ≤ s'.gasBalance registryAccount) : s'.Solvent := by
  refine ⟨hCover, hs.staked.change a (fun c hc => stakeOf_congr ?_) ?_⟩
  · rw [known_of_registry hRegistry, if_neg hc]
  · rw [show s'.stakeOf a = (k.map (·.balance)).getD 0 by
      rw [stakeOf, known_of_registry hRegistry, if_pos rfl]]
    exact hBal

theorem CallEffect.solvent (h : CallEffect context visible s s' message) (hs : s.Solvent) : s'.Solvent := by
  cases h with
  | @register a amount _ hRegistry hMoved =>
    refine hs.of_setSequencer (hs.covered.of_moved hMoved) hRegistry fun rest hRest => ?_
    rw [hMoved.receiver (by simp)]
    simp only [map_some, getD_some]
    omega
  | @deposit a amount k hKnown hRegistry hMoved =>
    refine hs.of_setSequencer (hs.covered.of_moved hMoved) hRegistry fun rest hRest => ?_
    rw [hMoved.receiver (by simp)]
    rw [stakeOf_of_known hKnown] at hRest
    simp only [map_some, getD_some]
    omega
  | @initiateWithdrawal a k hKnown _ _ hState =>
    subst hState
    refine hs.of_setSequencer hs.covered rfl fun rest hRest => ?_
    rw [stakeOf_of_known hKnown] at hRest
    exact hRest
  | @withdraw a k readyAt hKnown _ _ hRegistry hMoved =>
    refine hs.of_setSequencer (hs.covered.of_moved hMoved) hRegistry fun rest hRest => ?_
    rw [hMoved.sender (by simp)]
    rw [stakeOf_of_known hKnown] at hRest
    simp only [map_none, getD_none]
    omega

theorem CallEffect.bankAccount (h : CallEffect context visible s s' message) :
    s'.gasBalance bankAccount = s.gasBalance bankAccount := by
  cases h with
  | register _ _ hMoved | deposit _ _ hMoved | withdraw _ _ _ _ hMoved => exact hMoved.other (by simp) (by simp)
  | initiateWithdrawal _ _ _ hState => rw [hState]; rfl

/-- Under solvency the transfer of a withdrawal cannot fail. -/
theorem Solvent.call_error (hs : s.Solvent) {p} (h : s.call context visible message = .error p) :
    p = .slotNumberOverflow := by
  cases message with
  | register | deposit => cases h
  | initiateWithdrawal a =>
    simp only [call, initiateWithdrawal] at h
    split at h
    · cases h
    · split at h
      · cases h
      · split at h
        · cases h
        · simp only [bind_eq_error, advanceSlot, pure] at h
          rcases h with h | ⟨_, -, h⟩
          · unfold unwrap at h
            split at h <;> cases h
            rfl
          · cases h
  | withdraw a =>
    simp only [call, withdraw] at h
    split at h
    · cases h
    · rename_i k hSender
      split at h
      · cases h
      · split at h
        · cases h
        · have hStake := hs.stake_le (validateSender_ok hSender)
          rcases hs.covered.doTransfer_cases registryAccount (.user k.address) S.gasTokenId
            k.balance with ⟨bank, hOk, -, -⟩ | ⟨_, -⟩
          · simp only [Bank.transferGas, bank_setSequencer, hOk] at h
            cases h
          · simp only [gasBalance] at hStake
            omega

end Accounts
end SovereignSdk
