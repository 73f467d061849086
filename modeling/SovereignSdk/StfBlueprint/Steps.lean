import SovereignSdk.SequencerRegistry.Status
import SovereignSdk.StfBlueprint.Payments

/-! The elementary steps that the execution of blobs is made of. An invariant of
each of them is an invariant of execution. -/
namespace SovereignSdk
open Bounded Outcome Accounts WorkingSet

variable {S : Spec}

inductive ExecStep (chain : ChainState S) (s s' : TxState S) : Prop where
  /-- A payment of the kernel, out of the bank account or into it. -/
  | transfer {sender receiver : S.Holder} {amount : Nat}
      (hMoved : GasMoved s.accounts s'.accounts sender receiver amount)
      (hRegistry : s'.accounts.registry = s.accounts.registry) (hSender : sender ≠ registryAccount)
      (hWithdrawn : s'.withdrawn = s.withdrawn)
  | stake {a : S.DaAddress} {k : KnownSequencer S} {amount : Nat} (hKnown : s.accounts.known a = some k)
      (hMoved : GasMoved s.accounts s'.accounts bankAccount registryAccount amount)
      (hRegistry : s'.accounts.registry =
        (s.accounts.setSequencer a (some { k with balance := k.balance + amount })).registry)
      (hWithdrawn : s'.withdrawn = s.withdrawn)
  /-- A reward that could not be added to a stake. -/
  | unstaked (hRegistry : s'.accounts.registry = s.accounts.registry)
      (hSame : s.accounts.Solvent → s'.accounts = s.accounts) (hWithdrawn : s'.withdrawn = s.withdrawn)
  /-- A call to the bank, or a transfer by another module. -/
  | bank {b : Bank S} (hAccounts : s'.accounts = s.accounts.withBank b)
      (hCovered : s.accounts.bank.Covered → b.Covered)
      (hKept : ∀ m, m = .bank ∨ m = .sequencerRegistry → b.balanceOf (.moduleAccount m) S.gasTokenId =
          s.accounts.bank.balanceOf (.moduleAccount m) S.gasTokenId)
      (hWithdrawn : s'.withdrawn = s.withdrawn)
  | registry {context : Context S} {message : SequencerRegistry.CallMessage S}
      (hEffect : CallEffect context chain.visibleSlotNumber s.accounts s'.accounts message)
      (hWithdrawn : s'.withdrawn = recordWithdrawal s.withdrawn message)
  | setup (hAccounts : s'.accounts = s.accounts) (hWithdrawn : s'.withdrawn = s.withdrawn)

def Kept (chain : ChainState S) (inv : TxState S → Prop) : Prop :=
  ∀ s s', inv s → ExecStep chain s s' → inv s'

theorem ActEffect.execStep {chain : ChainState S} {context : Context S} {w w' : WorkingSet S}
    (h : ActEffect chain context w w') : w'.state = w.state ∨ ExecStep chain w.state w'.state := by
  cases h with
  | charge _ hState => exact .inl hState
  | bank hEq hCovered hKept =>
    subst hEq
    exact .inr (.bank rfl hCovered hKept rfl)
  | registry _ hEffect hWithdrawn => exact .inr (.registry hEffect hWithdrawn)
  | setup hEq =>
    subst hEq
    exact .inr (.setup rfl rfl)

namespace Kept
variable {chain : ChainState S} {block : BlockContext S} {inv : TxState S → Prop} {s : TxState S}
  {accounts : Accounts S}

theorem run (hKept : Kept chain inv) {context w w' actions}
    {finished : Bool} (hw : inv w.state)
    (h : run chain context w actions = .ok (w', finished)) : inv w'.state := by
  refine run_invariant (fun v => inv v.state) (fun v v' hv hStep => ?_) hw h
  rcases hStep.execStep with hSame | hStep
  · rw [hSame]
    exact hv
  · exact hKept _ _ hv hStep

theorem payFromBank (hKept : Kept chain inv) {panic receiver amount}
    (hs : inv s) (h : s.accounts.payFromBank panic receiver amount = .ok accounts) :
    inv (s.withAccounts accounts) := by
  obtain ⟨hMoved, hRegistry⟩ := payFromBank_ok h
  exact hKept _ _ hs (.transfer hMoved hRegistry (by simp) rfl)

variable {bond : Nat} {preExec : BasicGasMeter S.dimensions} {context : Context S} {tx : TxBehaviour S}
variable {sequencer : S.DaAddress} {address : S.Address} {slotGas slotGas' : SlotMeter S} {s' : TxState S}
variable {gas : S.Gas} {raw : ProofBehaviour S}

variable {reward : Nat} {w : WorkingSet S} {gasLimit : S.Gas} {p : ProcessedTx S} {out : AuthAndProcessOutput S}

section
variable (hKept : Kept chain inv)
include hKept

theorem returnEscrowed {penalty a} (hs : inv s)
    (h : s.accounts.returnEscrowedFundsToSequencer bond reward penalty a = .ok accounts) :
    inv (s.withAccounts accounts) := by
  obtain ⟨-, k, hKnown, hMoved, hRegistry⟩ := returnEscrowedFundsToSequencer_ok h
  exact hKept _ _ hs (.stake hKnown hMoved hRegistry rfl)

theorem tryReserveGas {meter charges details payer} (hs : inv s)
    (h : tryReserveGas s.accounts preExec charges details payer = (meter, some accounts)) :
    inv (s.withAccounts accounts) := by
  simp only [SovereignSdk.tryReserveGas, Prod.mk.injEq] at h
  obtain ⟨-, h⟩ := h
  split at h
  · obtain ⟨hMoved, hRegistry⟩ := reserveGas_some h
    exact hKept _ _ hs (.transfer hMoved hRegistry (by simp) rfl)
  · cases h

theorem applyTx {r} (hw : inv w.state) (h : applyTx chain context tx w = .ok r) : inv r.state := by
  unfold SovereignSdk.applyTx at h
  split at h
  · cases h
    exact hw
  · simp only [bind_eq_ok, pure_eq_ok] at h
    obtain ⟨⟨final, successful⟩, hRun, rfl⟩ := h
    have hFinal := hKept.run hw hRun
    split
    · exact hFinal
    · exact hw

theorem attemptTx (hs : inv s) (h : attemptTx chain context gasLimit tx s preExec = .ok p) : inv p.state := by
  unfold SovereignSdk.attemptTx at h
  dsimp only at h
  split at h
  · simp only [bind_eq_ok, pure_eq_ok] at h
    obtain ⟨accounts, hRefund, rfl⟩ := h
    exact hKept.payFromBank hs hRefund
  · simp only [bind_eq_ok, pure_eq_ok] at h
    obtain ⟨r, hApply, refunded, hRefund, rewarded, hReward, rfl⟩ := h
    have hRefunded := hKept.payFromBank (hKept.applyTx hs hApply) hRefund
    exact hKept.payFromBank (s := r.state.withAccounts refunded) hRefunded hReward

theorem processTx (hs : inv s) (h : processTx chain context gasLimit tx s preExec = .ok p) : inv p.state := by
  unfold SovereignSdk.processTx at h
  dsimp only at h
  split at h
  · cases h
    exact hs
  · split at h
    · cases h
      exact hs
    · rename_i hRes
      exact hKept.attemptTx (hKept.tryReserveGas hs hRes) h

end

section
variable (hKept : Kept block.chain inv)
include hKept

theorem chargeForChecks {outcome} (hs : inv s)
    (h : chargeForChecks block s preExec outcome = .ok out) : inv out.state := by
  simp only [SovereignSdk.chargeForChecks, bind_eq_ok, pure_eq_ok] at h
  obtain ⟨accounts, hPen, rfl⟩ := h
  exact hKept.payFromBank hs hPen

theorem authAndProcessTx {slotGas} (hs : inv s)
    (h : authAndProcessTx block slotGas tx sequencer address bond s = .ok out) : inv out.state := by
  unfold SovereignSdk.authAndProcessTx at h
  split at h
  · cases h
    exact hs
  · rw [bind_eq_ok] at h
    obtain ⟨preExec, -, h⟩ := h
    dsimp only at h
    split at h
    · exact hKept.chargeForChecks hs h
    · exact hKept.chargeForChecks hs h
    · rw [bind_eq_ok] at h
      obtain ⟨processed, hProcess, h⟩ := h
      have hProc := hKept.processTx hs hProcess
      split at h
      · exact hKept.chargeForChecks hProc h
      · cases h
        exact hProc

theorem batchTx {preferred : Bool} {b b' : BatchState S} {tx : FullyBakedTx S}
    (hb : inv b.state) (h : b.applyTx block sequencer address preferred tx = .ok b') : inv b'.state := by
  simp only [BatchState.applyTx, bind_eq_ok] at h
  obtain ⟨out, hProc, slotGas, -, h⟩ := h
  have hOut := hKept.authAndProcessTx hb hProc
  unfold BatchState.settle at h
  split at h
  all_goals
    simp only [bind_eq_ok, pure_eq_ok] at h
  · obtain ⟨_, -, _, -, rfl⟩ := h
    exact hOut
  · obtain ⟨_, -, _, -, rfl⟩ := h
    exact hOut
  · obtain ⟨_, -, rfl⟩ := h
    exact hOut

theorem applyBatch {txs : List (FullyBakedTx S)} (hs : inv s)
    (h : applyBatch block s slotGas txs sequencer address bond = .ok (s', slotGas')) : inv s' := by
  simp only [SovereignSdk.applyBatch, bind_eq_ok, pure_eq_ok] at h
  obtain ⟨b, hRun, accounts, hReturn, rfl, -⟩ := h
  have hb : inv b.state :=
    foldlM_invariant (fun b : BatchState S => inv b.state) (fun _ _ _ hb => hKept.batchTx hb) hs hRun
  exact hKept.returnEscrowed hb hReturn

end

theorem rewardSequencerOrRefund (hKept : Kept chain inv) {user} (hs : inv s)
    (h : s.accounts.rewardSequencerOrRefund sequencer user reward = .ok accounts) :
    inv (s.withAccounts accounts) := by
  unfold Accounts.rewardSequencerOrRefund at h
  split at h
  · rename_i mid e hStake
    have hMid : inv (s.withAccounts mid) := by
      obtain ⟨hRegistry, hSame⟩ := addToStake_error hStake
      exact hKept _ _ hs (.unstaked hRegistry hSame rfl)
    exact hKept.payFromBank (s := s.withAccounts mid) hMid h
  · rename_i hStake
    cases h
    obtain ⟨k, hKnown, hMoved, hRegistry⟩ := addToStake_ok hStake
    exact hKept _ _ hs (.stake hKnown hMoved hRegistry rfl)

theorem applyEmergencyRegistration (hKept : Kept block.chain inv) {slotGas tx}
    (hs : inv s) (h : applyEmergencyRegistration block s slotGas tx sequencer = .ok (s', gas)) : inv s' := by
  unfold SovereignSdk.applyEmergencyRegistration at h
  split at h
  · cases h
    exact hs
  · dsimp only at h
    split at h
    · cases h
      exact hs
    · rw [bind_eq_ok] at h
      obtain ⟨processed, hProcess, h⟩ := h
      have hProc := hKept.processTx hs hProcess
      split at h
      · cases h
        exact hProc
      · simp only [bind_eq_ok, pure_eq_ok] at h
        obtain ⟨accounts, hReward, rfl, -⟩ := h
        exact hKept.rewardSequencerOrRefund hProc hReward

theorem chargeSequencer (hKept : Kept chain inv) {reserved} (hs : inv s)
    (h : chargeSequencerAndRewardProver s sequencer preExec reserved = .ok (s', gas)) : inv s' := by
  simp only [chargeSequencerAndRewardProver, bind_eq_ok, pure_eq_ok] at h
  obtain ⟨accounts, hReturn, rfl, -⟩ := h
  exact hKept.returnEscrowed hs hReturn

theorem verifyProof (hKept : Kept chain inv) {consumption} (hw : inv w.state)
    (h : verifyProof chain context raw w = .ok (s', consumption)) : inv s' := by
  simp only [SovereignSdk.verifyProof, bind_eq_ok, pure_eq_ok] at h
  obtain ⟨⟨final, finished⟩, hRun, rfl, -⟩ := h
  have hFinal := hKept.run hw hRun
  split
  · exact hFinal
  · exact hw

section
variable (hKept : Kept block.chain inv)
include hKept

theorem settleProof {slotGas} (hs : inv s)
    (h : settleProof block s slotGas raw sequencer address bond preExec = .ok (s', gas)) : inv s' := by
  unfold SovereignSdk.settleProof at h
  split at h
  · exact hKept.chargeSequencer hs h
  · simp only [bind_eq_ok, pure_eq_ok] at h
    obtain ⟨⟨state, consumption⟩, hVerify, refunded, hRefund, rewarded, hReward, accounts, hReturn, rfl, -⟩ := h
    have hVer := hKept.verifyProof hs hVerify
    have hRefunded := hKept.payFromBank hVer hRefund
    have hRewarded := hKept.payFromBank (s := state.withAccounts refunded) hRefunded hReward
    exact hKept.returnEscrowed (s := state.withAccounts rewarded) hRewarded hReturn

theorem processProof {slotGas} (hs : inv s)
    (h : processProof block s slotGas raw sequencer address bond = .ok (s', gas)) : inv s' := by
  unfold SovereignSdk.processProof at h
  split at h
  · cases h
    exact hs
  · rw [bind_eq_ok] at h
    obtain ⟨preExec, -, h⟩ := h
    dsimp only at h
    split at h
    · rw [bind_eq_ok] at h
      obtain ⟨value, -, h⟩ := h
      exact hKept.chargeSequencer hs h
    · split at h
      · exact hKept.chargeSequencer hs h
      · rename_i hRes
        exact hKept.settleProof (hKept.tryReserveGas hs hRes) h

theorem applyBlob {blob} (hs : inv s) (h : applyBlob block (s, slotGas) blob = .ok (s', slotGas')) : inv s' := by
  unfold SovereignSdk.applyBlob at h
  dsimp only at h
  split at h
  · rw [bind_eq_ok] at h
    obtain ⟨bond, -, h⟩ := h
    exact hKept.applyBatch hs h
  · simp only [bind_eq_ok, pure_eq_ok] at h
    obtain ⟨-, -, ⟨state, gas⟩, hApply, meter, -, rfl, -⟩ := h
    exact hKept.applyEmergencyRegistration hs hApply
  · simp only [bind_eq_ok, pure_eq_ok] at h
    obtain ⟨bond, -, ⟨state, gas⟩, hApply, meter, -, rfl, -⟩ := h
    exact hKept.processProof hs hApply

theorem applyBlobs {blobs : List (SelectedBlob S)} (hs : inv s)
    (h : blobs.foldlM (SovereignSdk.applyBlob block) (s, slotGas) = .ok (s', slotGas')) : inv s' :=
  foldlM_invariant (fun progress : TxState S × SlotMeter S => inv progress.1) (fun _ _ _ hs => hKept.applyBlob hs) hs h

end

end Kept

theorem kept_solvent (chain : ChainState S) : Kept chain fun s => s.accounts.Solvent := by
  intro s s' hs hStep
  cases hStep with
  | transfer hMoved hRegistry hSender _ => exact hs.of_moved hMoved hRegistry hSender
  | stake hKnown hMoved hRegistry _ =>
    refine hs.of_setSequencer (hs.covered.of_moved hMoved) hRegistry fun rest hRest => ?_
    rw [stakeOf_of_known hKnown] at hRest
    rw [hMoved.receiver (by simp)]
    simp only [Option.map_some, Option.getD_some]
    omega
  | unstaked _ hSame _ =>
    rw [hSame hs]
    exact hs
  | bank hAccounts hCovered hKept _ =>
    rw [hAccounts]
    refine ⟨hCovered hs.covered, ?_⟩
    have hStaked := hs.staked
    rwa [gasBalance, ← hKept .sequencerRegistry (.inr rfl)] at hStaked
  | registry hEffect _ => exact hEffect.solvent hs
  | setup hAccounts _ =>
    rw [hAccounts]
    exact hs

end SovereignSdk
