import SovereignSdk.Paymaster

/-! Revocation of a sequencer by an updater of a policy. The update first unmaps the sequencers to
remove, and fails where one of them is not mapped to the payer. -/
namespace SovereignSdk
open Outcome Paymaster List PaymasterState SafeVec

variable {S : Spec} {orders : AddressOrders S}

namespace Paymaster
variable {p p' : Paymaster S} {payer : S.Address}

@[simp] theorem payers_addPayeePolicies (p : Paymaster S) (payer : S.Address)
    (toAdd : List (S.Address × PayeePolicy S)) : (p.addPayeePolicies payer toAdd).payers = p.payers := by
  induction toAdd generalizing p with
  | nil => rfl
  | cons entry rest ih => exact ih (p.setPayee payer entry.1 (some entry.2))

@[simp] theorem payers_removePayeePolicies (p : Paymaster S) (payer : S.Address) (toRemove : List S.Address) :
    (p.removePayeePolicies payer toRemove).payers = p.payers := by
  induction toRemove generalizing p with
  | nil => rfl
  | cons payee rest ih => exact ih (p.setPayee payer payee none)

@[simp] theorem payers_registerSequencers (p : Paymaster S) (payer : S.Address) (policy : PaymasterPolicy S)
    (sequencers : List S.DaAddress) : (p.registerSequencers payer policy sequencers).payers = p.payers := by
  unfold registerSequencers
  induction sequencers generalizing p with
  | nil => rfl
  | cons sequencer rest ih =>
    rw [foldl_cons, ih]
    split <;> rfl

theorem removeMapping_ok {sequencer} :
    removeMapping payer p sequencer = .ok p' ↔
      p.sequencerToPayer sequencer = some payer ∧ p' = p.setMapping sequencer none := by
  unfold removeMapping
  cases p.sequencerToPayer sequencer with
  | none => simp
  | some currentPayer =>
    dsimp only
    split
    · rename_i hSame
      simp [hSame, eq_comm]
    · rename_i hOther
      simp [hOther]

variable {sequencers : List S.DaAddress}

theorem removeMappings_ok :
    (∃ p', sequencers.foldlM (removeMapping payer) p = .ok p') ↔
      (∀ a ∈ sequencers, p.sequencerToPayer a = some payer) ∧ sequencers.Nodup := by
  induction sequencers generalizing p with
  | nil => simp [pure, Except.pure]
  | cons first rest ih =>
    have hRest : ∀ a, a ≠ first → (p.setMapping first none).sequencerToPayer a = p.sequencerToPayer a := by
      intro a hNe
      rw [sequencerToPayer_setMapping, if_neg hNe]
    simp only [foldlM_cons, bind_eq_ok, removeMapping_ok]
    constructor
    · rintro ⟨p', _, ⟨hFirst, rfl⟩, hFold⟩
      obtain ⟨hMapped, hNodup⟩ := ih.mp ⟨p', hFold⟩
      have hNew : first ∉ rest := by
        intro hMem
        have hAgain := hMapped first hMem
        rw [sequencerToPayer_setMapping, if_pos rfl] at hAgain
        cases hAgain
      refine ⟨?_, nodup_cons.mpr ⟨hNew, hNodup⟩⟩
      rintro a (_ | ⟨_, hMem⟩)
      · exact hFirst
      · rw [← hRest a fun hSame => hNew (hSame ▸ hMem)]
        exact hMapped a hMem
    · rintro ⟨hMapped, hNodup⟩
      obtain ⟨hNew, hNodup⟩ := nodup_cons.mp hNodup
      obtain ⟨p', hFold⟩ := (@ih (p.setMapping first none)).mpr ⟨fun a hMem => by
        rw [hRest a fun hSame => hNew (hSame ▸ hMem)]
        exact hMapped a (mem_cons_of_mem first hMem), hNodup⟩
      exact ⟨p', _, ⟨hMapped first mem_cons_self, rfl⟩, hFold⟩

theorem removeMappings_payers (h : sequencers.foldlM (removeMapping payer) p = .ok p') : p'.payers = p.payers := by
  refine foldlM_invariant (fun q => q.payers = p.payers) ?_ rfl h
  intro q sequencer q' hq hStep
  obtain ⟨-, rfl⟩ := removeMapping_ok.mp hStep
  exact hq

theorem updateAllowedSequencers_payers {update policy policy' context}
    (h : p.updateAllowedSequencers orders payer update policy context = .ok (policy', p')) :
    p'.payers = p.payers := by
  unfold updateAllowedSequencers at h
  split at h
  · cases h
    rfl
  · cases h
    rfl
  · obtain ⟨mid, hFold, h⟩ := bind_eq_ok.mp h
    have hMid := removeMappings_payers hFold
    dsimp only at h
    split at h
    · cases h
      exact hMid
    · split at h
      · cases h
      · cases h
        split <;> exact hMid

/-- A list of sequencers after an update of it. -/
def ListedAfter (list : AllowedSequencerUpdate S) (listed extended : SafeVec S.DaAddress defaultSafeVecLen) : Prop :=
  ∀ a, a ∈ extended.contents ↔
    (a ∈ listed.contents ∧ a ∉ (list.toRemove.getD .empty).contents) ∨ a ∈ (list.toAdd.getD .empty).contents

end Paymaster

def PaymasterOperation.Updates (payer : S.Address) : PaymasterOperation S → Prop
  | .call _ (.updatePolicy updated _) => updated = payer
  | _ => False

namespace Paymaster
variable {p p' : Paymaster S} {payer : S.Address} {policy : PaymasterPolicy S}

variable {update : PolicyUpdate S} {context : Context S}

theorem updatePolicyIfAuthorized_ok (h : p.updatePolicyIfAuthorized orders update context payer = .ok p') :
    ∃ policy, ∀ a, p'.payers a = if a = payer then some policy else p.payers a := by
  unfold updatePolicyIfAuthorized at h
  split at h
  · cases h
  · split at h
    · cases h
    · simp only [bind_eq_ok, pure_eq_ok] at h
      obtain ⟨⟨policy, mid⟩, hSeqs, policy', -, rfl⟩ := h
      refine ⟨{ policy' with defaultPayeePolicy := update.defaultPolicy.getD policy'.defaultPayeePolicy }, fun a => ?_⟩
      rw [payers_setPolicy, payers_addPayeePolicies, payers_removePayeePolicies, updateAllowedSequencers_payers hSeqs]

variable {list : AllowedSequencerUpdate S}

theorem removeMappings_of_update (hUpdate : update.sequencerUpdate = some (.update list))
    (h : p.call orders context (.updatePolicy payer update) = .ok p') :
    ∃ mid, (list.toRemove.getD .empty).contents.foldlM (removeMapping payer) p = .ok mid := by
  simp only [call, updatePolicyIfAuthorized, hUpdate] at h
  split at h
  · cases h
  · split at h
    · cases h
    · obtain ⟨_, hSeqs, -⟩ := bind_eq_ok.mp h
      obtain ⟨mid, hFold, -⟩ := bind_eq_ok.mp hSeqs
      exact ⟨mid, hFold⟩

theorem updateUpdaters_ok
    (hSize : (removeAllowedUpdaters orders update.updatersToRemove policy).authorizedUpdaters.contents.length +
      (update.updatersToAdd.getD .empty).contents.length ≤ defaultSafeVecLen) :
    ∃ policy', addAllowedUpdaters payer update.updatersToAdd
        (removeAllowedUpdaters orders update.updatersToRemove policy) = .ok policy' ∧
      policy'.authorizedSequencers = policy.authorizedSequencers := by
  have hSame : (removeAllowedUpdaters orders update.updatersToRemove policy).authorizedSequencers =
      policy.authorizedSequencers := by
    unfold removeAllowedUpdaters
    split <;> rfl
  unfold addAllowedUpdaters
  cases hAdd : update.updatersToAdd with
  | none => exact ⟨_, rfl, hSame⟩
  | some toAdd =>
    rw [hAdd, Option.getD_some] at hSize
    simp only [tryExtend, dif_pos hSize]
    exact ⟨_, rfl, hSame⟩

section
variable {listed : SafeVec S.DaAddress defaultSafeVecLen} {mid : Paymaster S}
  (hListed : policy.authorizedSequencers = .some listed)
  (hSize : (@removeEltsFromList _ _ orders.daAddress (list.toRemove.getD .empty) listed).contents.length +
    (list.toAdd.getD .empty).contents.length ≤ defaultSafeVecLen)
  (hFold : (list.toRemove.getD .empty).contents.foldlM (removeMapping payer) p = .ok mid)
include hListed hSize hFold

theorem updateAllowedSequencers_listed : ∃ extended p',
    p.updateAllowedSequencers orders payer (some (.update list)) policy context =
      .ok ({ policy with authorizedSequencers := .some extended }, p') ∧ ListedAfter list listed extended := by
  simp only [updateAllowedSequencers, hFold, hListed, tryExtend, dif_pos hSize]
  refine ⟨_, _, rfl, fun a => ?_⟩
  rw [mem_append, @mem_removeEltsFromList _ _ orders.daAddress]

theorem update_listed (hPolicy : p.payers payer = some policy)
    (hUpdater : context.sender ∈ policy.authorizedUpdaters.contents)
    (hUpdate : update.sequencerUpdate = some (.update list))
    (hUpdaters : (removeAllowedUpdaters orders update.updatersToRemove policy).authorizedUpdaters.contents.length +
      (update.updatersToAdd.getD .empty).contents.length ≤ defaultSafeVecLen) :
    ∃ p' policy' extended,
      p.call orders context (.updatePolicy payer update) = .ok p' ∧ p'.payers payer = some policy' ∧
      policy'.authorizedSequencers = .some extended ∧ ListedAfter list listed extended := by
  obtain ⟨extended, q, hUpdated, hMem⟩ :=
    @updateAllowedSequencers_listed _ orders p payer policy context list listed mid hListed hSize hFold
  obtain ⟨policy', hPolicy', hSame⟩ := @updateUpdaters_ok _ orders payer
    { policy with authorizedSequencers := .some extended } update (by
      unfold removeAllowedUpdaters at hUpdaters ⊢
      split at hUpdaters <;> exact hUpdaters)
  simp only [call, updatePolicyIfAuthorized, hPolicy, not_not.mpr hUpdater, hUpdate, hUpdated, ok_bind, hPolicy']
  exact ⟨_, _, extended, rfl, (payers_setPolicy _ _ _ _).trans (if_pos rfl), hSame, hMem⟩

end

theorem call_payers {message} (hNot : ¬(PaymasterOperation.call context message).Updates payer)
    (hPolicy : p.payers payer = some policy) (h : p.call orders context message = .ok p') :
    p'.payers payer = some policy := by
  cases message with
  | registerPaymaster initializer =>
    simp only [call, registerPaymaster, doRegistration] at h
    split at h
    · cases h
    · rename_i hNew
      cases h
      rw [payers_registerSequencers, payers_setPolicy, payers_addPayeePolicies, if_neg, hPolicy]
      rintro rfl
      rw [hNew] at hPolicy
      cases hPolicy
  | setPayerForSequencer other =>
    simp only [call, setPayerForSequencer] at h
    split at h
    · cases h
    · split at h
      · cases h
      · cases h
        exact hPolicy
  | updatePolicy other update =>
    obtain ⟨_, hPayers⟩ := updatePolicyIfAuthorized_ok h
    rw [hPayers, if_neg fun hSame => hNot hSame.symm]
    exact hPolicy

end Paymaster

namespace PaymasterState
variable {s : PaymasterState S} {payer : S.Address} {policy : PaymasterPolicy S}

theorem gasFromPaymaster_payers (s : PaymasterState S) (details : TxDetails S) (gasPrice : S.Price)
    (context : Context S) : (s.gasFromPaymaster details gasPrice context).1.paymaster.payers = s.paymaster.payers := by
  unfold gasFromPaymaster
  split
  · rfl
  · split
    · rfl
    · split <;> rfl

variable {details : TxDetails S} {gasPrice : S.Price}

theorem tryReserveGas_payers {context s' recipient}
    (h : s.tryReserveGas details gasPrice context = .ok (s', recipient)) :
    s'.paymaster.payers = s.paymaster.payers := by
  have hPayers := s.gasFromPaymaster_payers details gasPrice context
  unfold tryReserveGas at h
  split at h
  · rename_i mid payer hGas
    cases h
    rw [hGas] at hPayers
    exact hPayers
  · rename_i mid hGas
    rw [hGas] at hPayers
    split at h
    · cases h
    · cases h
      exact hPayers

theorem perform_payers {operation} (hNot : ¬operation.Updates payer)
    (hPolicy : s.paymaster.payers payer = some policy) :
    (s.perform orders operation).paymaster.payers payer = some policy := by
  cases operation with
  | call context message =>
    simp only [perform]
    cases hCall : s.paymaster.call orders context message with
    | error e => exact hPolicy
    | ok p' => exact call_payers hNot hPolicy hCall
  | reserveGas context details gasPrice =>
    simp only [perform]
    cases hRes : s.tryReserveGas details gasPrice context with
    | error e => exact hPolicy
    | ok out =>
      rw [tryReserveGas_payers hRes]
      exact hPolicy
  | otherModules bank => exact hPolicy

theorem run_payers {operations} (hNot : ∀ operation ∈ operations, ¬operation.Updates payer)
    (hPolicy : s.paymaster.payers payer = some policy) :
    (s.run orders operations).paymaster.payers payer = some policy := by
  induction operations generalizing s with
  | nil => exact hPolicy
  | cons operation rest ih =>
    exact ih (fun o ho => hNot o (mem_cons_of_mem operation ho)) (perform_payers (hNot operation mem_cons_self) hPolicy)

/-- A payer pays only for sequencers that its policy covers. -/
theorem gasFromPaymaster_covers {context} (hPolicy : s.paymaster.payers payer = some policy)
    (h : (s.gasFromPaymaster details gasPrice context).2 = some payer) :
    policy.authorizedSequencers.covers context.sequencerDaAddress = true := by
  by_contra hNot
  have hUnauthorized : s.paymaster.getPayeePolicyIfSequencerAuthorized payer context = none := by
    simp [getPayeePolicyIfSequencerAuthorized, hPolicy, hNot]
  unfold gasFromPaymaster at h
  split at h
  · cases h
  · rename_i mapped hMapped
    split at h
    · cases h
    · rename_i payeePolicy hAuthorized
      have hPayer : mapped = payer := by
        split at h
        · cases h
          rfl
        · cases h
          rfl
        · cases h
      rw [hPayer, hUnauthorized] at hAuthorized
      cases hAuthorized

end PaymasterState

/-- The policy of a payer does not cover a sequencer, and until the policy is changed again the payer
pays for none of its transactions. -/
structure Revoked (orders : AddressOrders S) (p : Paymaster S) (payer : S.Address) (sequencer : S.DaAddress) : Prop where
  uncovered : ∃ policy, p.payers payer = some policy ∧ policy.authorizedSequencers.covers sequencer = false
  unpaid : ∀ (bank : Bank S) (operations : List (PaymasterOperation S)),
    (∀ operation ∈ operations, ¬operation.Updates payer) →
    ∀ (details : TxDetails S) (gasPrice : S.Price) (context : Context S), context.sequencerDaAddress = sequencer →
      ((run orders ⟨p, bank⟩ operations).gasFromPaymaster details gasPrice context).2 ≠ some payer

theorem Revoked.of_uncovered {p payer sequencer policy}
    (hPolicy : p.payers payer = some policy) (hUncov : policy.authorizedSequencers.covers sequencer = false) :
    Revoked orders p payer sequencer := by
  refine ⟨⟨policy, hPolicy, hUncov⟩, ?_⟩
  rintro bank operations hNot details gasPrice context rfl hPaid
  have hLater : (run orders ⟨p, bank⟩ operations).paymaster.payers payer = some policy :=
    run_payers hNot hPolicy
  rw [gasFromPaymaster_covers hLater hPaid] at hUncov
  cases hUncov

/-- An authorized updater revokes a listed sequencer exactly if each sequencer to remove is mapped to the
payer and listed once, and the sequencer is not added again. -/
theorem revocation_succeeds_iff {p : Paymaster S} {payer : S.Address} {policy : PaymasterPolicy S}
    {context : Context S} {update : PolicyUpdate S} {list : AllowedSequencerUpdate S}
    {listed toRemove : SafeVec S.DaAddress defaultSafeVecLen} {sequencer : S.DaAddress}
    (hPolicy : p.payers payer = some policy) (hUpdater : context.sender ∈ policy.authorizedUpdaters.contents)
    (hListed : policy.authorizedSequencers = .some listed)
    (hUpdate : update.sequencerUpdate = some (.update list)) (hRemove : list.toRemove = some toRemove)
    (hRevoked : sequencer ∈ toRemove.contents)
    (hSequencers : (@removeEltsFromList _ _ orders.daAddress toRemove listed).contents.length +
      (list.toAdd.getD .empty).contents.length ≤ defaultSafeVecLen)
    (hUpdaters : (Paymaster.removeAllowedUpdaters orders update.updatersToRemove policy).authorizedUpdaters.contents.length +
      (update.updatersToAdd.getD .empty).contents.length ≤ defaultSafeVecLen) :
    (∃ p', p.call orders context (.updatePolicy payer update) = .ok p' ∧ Revoked orders p' payer sequencer) ↔
      (∀ a ∈ toRemove.contents, p.sequencerToPayer a = some payer) ∧ toRemove.contents.Nodup ∧
        sequencer ∉ (list.toAdd.getD .empty).contents := by
  have hRemoved : list.toRemove.getD .empty = toRemove := by rw [hRemove, Option.getD_some]
  have hMember : ∀ {extended} {policy' : PaymasterPolicy S}, policy'.authorizedSequencers = .some extended →
      ListedAfter list listed extended →
      (policy'.authorizedSequencers.covers sequencer = false ↔ sequencer ∉ (list.toAdd.getD .empty).contents) := by
    intro extended policy' hExtended hMem
    rw [hExtended, AuthorizedSequencers.covers, decide_eq_false_iff_not, hMem sequencer, hRemoved]
    simp [hRevoked]
  rw [← hRemoved] at hSequencers
  constructor
  · rintro ⟨p', hCall, hDone⟩
    obtain ⟨mid, hFold⟩ := removeMappings_of_update hUpdate hCall
    obtain ⟨p'', policy', extended, hCall', hPolicy', hExtended, hMem⟩ :=
      update_listed hListed hSequencers hFold hPolicy hUpdater hUpdate hUpdaters
    rw [hRemoved] at hFold
    obtain ⟨hMapped, hNodup⟩ := removeMappings_ok.mp ⟨mid, hFold⟩
    refine ⟨hMapped, hNodup, (hMember hExtended hMem).mp ?_⟩
    obtain ⟨policy'', hPolicy'', hUncovered⟩ := hDone.uncovered
    cases hCall'.symm.trans hCall
    cases hPolicy'.symm.trans hPolicy''
    exact hUncovered
  · rintro ⟨hMapped, hNodup, hAdded⟩
    obtain ⟨mid, hFold⟩ := removeMappings_ok.mpr ⟨hMapped, hNodup⟩
    rw [← hRemoved] at hFold
    obtain ⟨p', policy', extended, hCall, hPolicy', hExtended, hMem⟩ :=
      update_listed hListed hSequencers hFold hPolicy hUpdater hUpdate hUpdaters
    exact ⟨p', hCall, Revoked.of_uncovered hPolicy' ((hMember hExtended hMem).mpr hAdded)⟩

def testOrders : AddressOrders testSpec where
  daAddress := inferInstanceAs (LinearOrder Nat)
  address := inferInstanceAs (LinearOrder Nat)

def sequencerOnePolicy : PaymasterPolicyInitializer testSpec where
  defaultPayeePolicy := .allow none none none none
  payees := .empty
  authorizedUpdaters := ⟨[(5 : Nat)], by decide⟩
  authorizedSequencers := .some ⟨[(1 : Nat)], by decide⟩

def revokeSequencerOne : PolicyUpdate testSpec where
  sequencerUpdate := some (.update ⟨none, some ⟨[(1 : Nat)], by decide⟩⟩)
  updatersToAdd := none
  updatersToRemove := none
  payeePoliciesToSet := none
  payeePoliciesToDelete := none
  defaultPolicy := none

/-- User 5 registers as a payer for sequencer 1, and is then replaced: user 6 registers through the same
sequencer. -/
def replacedPayer : PaymasterState testSpec :=
  run testOrders ⟨.empty, .empty⟩
    [.call ⟨(5 : Nat), (0 : Nat), (1 : Nat)⟩ (.registerPaymaster sequencerOnePolicy),
      .call ⟨(6 : Nat), (0 : Nat), (1 : Nat)⟩ (.registerPaymaster sequencerOnePolicy)]

/-- Sequencer 1 uses another payer, so user 5 cannot revoke it, and the policy still covers it. -/
theorem replaced_payer_cannot_revoke :
    replacedPayer.paymaster.call testOrders ⟨(5 : Nat), (0 : Nat), (2 : Nat)⟩ (.updatePolicy (5 : Nat) revokeSequencerOne) =
        .error (.mappedToOtherPayer (1 : Nat) (5 : Nat) (6 : Nat)) ∧
      ∃ policy, replacedPayer.paymaster.payers (5 : Nat) = some policy ∧
        policy.authorizedSequencers.covers (1 : Nat) = true :=
  ⟨rfl, _, rfl, rfl⟩

/-- A payer that is still in use revokes the sequencer. -/
theorem payer_in_use_revokes :
    ∃ p', (run testOrders ⟨.empty, .empty⟩
        [.call ⟨(5 : Nat), (0 : Nat), (1 : Nat)⟩ (.registerPaymaster sequencerOnePolicy)]).paymaster.call testOrders
          ⟨(5 : Nat), (0 : Nat), (2 : Nat)⟩ (.updatePolicy (5 : Nat) revokeSequencerOne) = .ok p' ∧
      Revoked testOrders p' (5 : Nat) (1 : Nat) := by
  refine (revocation_succeeds_iff rfl mem_cons_self rfl rfl rfl mem_cons_self ?_ ?_).mpr ⟨?_, ?_, ?_⟩
  · decide
  · decide
  · rintro a (_ | ⟨_, hNever⟩)
    · rfl
    · cases hNever
  · exact nodup_singleton _
  · exact not_mem_nil

end SovereignSdk
