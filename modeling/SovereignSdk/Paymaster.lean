import SovereignSdk.Library.SortedDifference
import SovereignSdk.StfBlueprint.Execution

/-! The paymaster: payers register policies by which they pay the gas of others. A sequencer is mapped
to the payer that its transactions use. -/
namespace SovereignSdk
open Bounded List Function

structure SafeVec (α : Type) (maxSize : Nat) where
  contents : List α
  length_le : contents.length ≤ maxSize

namespace SafeVec
variable {α : Type} {maxSize : Nat}

theorem nil_length_le : ([] : List α).length ≤ maxSize := Nat.zero_le _

def empty : SafeVec α maxSize := ⟨[], nil_length_le⟩

theorem append_length_le {l l' : List α} (h : l.length + l'.length ≤ maxSize) : (l ++ l').length ≤ maxSize := by
  rwa [length_append]

/-- All elements of the second list are added, or none. -/
def tryExtend (v : SafeVec α maxSize) (items : List α) : Option (SafeVec α maxSize) :=
  if h : v.contents.length + items.length ≤ maxSize then some ⟨v.contents ++ items, append_length_le h⟩ else none

theorem removed_length_le [LinearOrder α] (toRemove original : SafeVec α maxSize) :
    (sortedDifference (toRemove.contents.insertionSort (· ≤ ·))
      (original.contents.insertionSort (· ≤ ·))).length ≤ maxSize := by
  refine (sortedDifference.length_le _ _).trans ?_
  rw [length_insertionSort]
  exact original.length_le

/-- `remove_elts_from_list`: both lists are sorted, and one walk through them keeps what is not removed. -/
def removeEltsFromList [LinearOrder α] (toRemove original : SafeVec α maxSize) : SafeVec α maxSize :=
  ⟨sortedDifference (toRemove.contents.insertionSort (· ≤ ·)) (original.contents.insertionSort (· ≤ ·)),
    removed_length_le toRemove original⟩

theorem mem_removeEltsFromList [LinearOrder α] {toRemove original : SafeVec α maxSize} {a : α} :
    a ∈ (removeEltsFromList toRemove original).contents ↔ a ∈ original.contents ∧ a ∉ toRemove.contents := by
  rw [removeEltsFromList, sortedDifference.mem_iff (pairwise_insertionSort _ _) (pairwise_insertionSort _ _),
    mem_insertionSort, mem_insertionSort]

end SafeVec

def defaultSafeVecLen : Nat := 20

/-- The orders in which the lists of a policy are sorted. -/
structure AddressOrders (S : Spec) where
  daAddress : LinearOrder S.DaAddress
  address : LinearOrder S.Address

structure NonZeroU64 where
  get : Nat
  pos : 0 < get
  le : get ≤ u64Max

inductive PayeePolicy (S : Spec) where
  | allow (maxFee : Option Amount) (gasLimit : Option S.Gas) (maxGasPrice : Option S.Price)
      (transactionLimit : Option NonZeroU64)
  | deny

inductive ReserveGasError where
  | insufficientBalanceToReserveGas
  | currentGasPriceTooHigh
  | maxGasLimitExceeded
  | impossibleToTransferGas (error : BankError)
deriving DecidableEq, Repr

variable {S : Spec}

namespace PayeePolicy

def authorizesMaxFee : PayeePolicy S → Amount → Bool
  | allow (some maxFee) _ _ _, txMaxFee => decide (txMaxFee.val ≤ maxFee.val)
  | allow none _ _ _, _ => true
  | deny, _ => false

def authorizesGasPrice : PayeePolicy S → S.Price → Bool
  | allow _ _ (some maxGasPrice) _, currentGasPrice => GasArray.dimIsLessOrEq currentGasPrice maxGasPrice
  | allow _ _ none _, _ => true
  | deny, _ => false

/-- Under a gas limit a transaction must have one too. -/
def authorizesGasLimit : PayeePolicy S → Option S.Gas → Bool
  | allow _ (some _) _ _, none => false
  | allow _ (some policyGasLimit) _ _, some txGasLimit => GasArray.dimIsLessOrEq txGasLimit policyGasLimit
  | allow _ none _ _, _ => true
  | deny, _ => false

theorem decremented_le (limit : NonZeroU64) : limit.get - 1 ≤ u64Max := (Nat.sub_le _ _).trans limit.le

def maybeDecrementAllowance : PayeePolicy S → Option (PayeePolicy S)
  | allow maxFee gasLimit maxGasPrice (some limit) =>
    if h : 0 < limit.get - 1 then
      some (allow maxFee gasLimit maxGasPrice (some ⟨limit.get - 1, h, decremented_le limit⟩))
    else some deny
  | allow _ _ _ none => none
  | deny => none

def authorizeTransaction (policy : PayeePolicy S) (details : TxDetails S) (gasPrice : S.Price) :
    Except ReserveGasError (Option (PayeePolicy S)) :=
  match policy with
  | deny => .error .insufficientBalanceToReserveGas
  | policy =>
    if ¬policy.authorizesMaxFee details.maxFee then .error .insufficientBalanceToReserveGas
    else if ¬policy.authorizesGasPrice gasPrice then .error .currentGasPriceTooHigh
    else if ¬policy.authorizesGasLimit details.gasLimit then .error .maxGasLimitExceeded
    else .ok policy.maybeDecrementAllowance

end PayeePolicy

inductive AuthorizedSequencers (S : Spec) where
  | all
  | some (addresses : SafeVec S.DaAddress defaultSafeVecLen)

def AuthorizedSequencers.covers : AuthorizedSequencers S → S.DaAddress → Bool
  | all, _ => true
  | .some addresses, address => decide (address ∈ addresses.contents)

structure PaymasterPolicyInitializer (S : Spec) where
  defaultPayeePolicy : PayeePolicy S
  payees : SafeVec (S.Address × PayeePolicy S) defaultSafeVecLen
  authorizedUpdaters : SafeVec S.Address defaultSafeVecLen
  authorizedSequencers : AuthorizedSequencers S

structure PaymasterPolicy (S : Spec) where
  defaultPayeePolicy : PayeePolicy S
  authorizedUpdaters : SafeVec S.Address defaultSafeVecLen
  authorizedSequencers : AuthorizedSequencers S

structure AllowedSequencerUpdate (S : Spec) where
  toAdd : Option (SafeVec S.DaAddress defaultSafeVecLen)
  toRemove : Option (SafeVec S.DaAddress defaultSafeVecLen)

inductive SequencerSetUpdate (S : Spec) where
  | allowAll
  | update (list : AllowedSequencerUpdate S)

structure PolicyUpdate (S : Spec) where
  sequencerUpdate : Option (SequencerSetUpdate S)
  updatersToAdd : Option (SafeVec S.Address defaultSafeVecLen)
  updatersToRemove : Option (SafeVec S.Address defaultSafeVecLen)
  payeePoliciesToSet : Option (SafeVec (S.Address × PayeePolicy S) defaultSafeVecLen)
  payeePoliciesToDelete : Option (SafeVec S.Address defaultSafeVecLen)
  defaultPolicy : Option (PayeePolicy S)

structure Paymaster (S : Spec) where
  payers : S.Address → Option (PaymasterPolicy S)
  /-- By payer and payee. -/
  policies : S.Address → S.Address → Option (PayeePolicy S)
  sequencerToPayer : S.DaAddress → Option S.Address

inductive PaymasterError (S : Spec) where
  | alreadyRegistered (payer : S.Address)
  | paymasterNotRegistered (payer : S.Address)
  | sequencerNotAuthorized (sequencer : S.DaAddress) (payer : S.Address)
  | notARegisteredPayer (payer : S.Address)
  | notAnAuthorizedUpdater (sender payer : S.Address)
  | mappedToOtherPayer (sequencer : S.DaAddress) (payer currentPayer : S.Address)
  | notMappedToAnyPayer (sequencer : S.DaAddress) (payer : S.Address)
  | tooManySequencers (payer : S.Address) (already : Nat)
  | tooManyUpdaters (payer : S.Address) (already : Nat)

namespace Paymaster

inductive CallMessage (S : Spec) where
  | registerPaymaster (policy : PaymasterPolicyInitializer S)
  | setPayerForSequencer (payer : S.Address)
  | updatePolicy (payer : S.Address) (update : PolicyUpdate S)

def empty : Paymaster S := ⟨fun _ => none, fun _ _ => none, fun _ => none⟩

variable (p : Paymaster S) (payer : S.Address) (policy : PaymasterPolicy S)

def setPolicy : Paymaster S :=
  { p with payers := update p.payers payer (some policy) }

def setPayee (payer payee : S.Address) (policy : Option (PayeePolicy S)) : Paymaster S :=
  { p with policies := update p.policies payer (update (p.policies payer) payee policy) }

variable (sequencer : S.DaAddress)

def setMapping (payer : Option S.Address) : Paymaster S :=
  { p with sequencerToPayer := update p.sequencerToPayer sequencer payer }

@[simp] theorem payers_setPayee (payer payee : S.Address) (policy : Option (PayeePolicy S)) :
    (p.setPayee payer payee policy).payers = p.payers := rfl

@[simp] theorem payers_setMapping (payer : Option S.Address) : (p.setMapping sequencer payer).payers = p.payers := rfl

@[simp] theorem policies_setMapping (payer : Option S.Address) :
    (p.setMapping sequencer payer).policies = p.policies := rfl

theorem sequencerToPayer_setMapping (sequencer a : S.DaAddress) (payer : Option S.Address) :
    (p.setMapping sequencer payer).sequencerToPayer a = if a = sequencer then payer else p.sequencerToPayer a :=
  update_apply _ _ _ _

theorem payers_setPolicy (payer a : S.Address) (policy : PaymasterPolicy S) :
    (p.setPolicy payer policy).payers a = if a = payer then some policy else p.payers a :=
  update_apply _ _ _ _

@[simp] theorem policies_setPolicy : (p.setPolicy payer policy).policies = p.policies := rfl

def addPayeePolicies (toAdd : List (S.Address × PayeePolicy S)) : Paymaster S :=
  toAdd.foldl (fun p entry => p.setPayee payer entry.1 (some entry.2)) p

def removePayeePolicies (toRemove : List S.Address) : Paymaster S :=
  toRemove.foldl (fun p payee => p.setPayee payer payee none) p

def registerSequencers (sequencers : List S.DaAddress) : Paymaster S :=
  sequencers.foldl
    (fun p sequencer =>
      if policy.authorizedSequencers.covers sequencer then p.setMapping sequencer (some payer) else p) p

def doRegistration (newPayer : S.Address) (sequencers : List S.DaAddress) (policy : PaymasterPolicyInitializer S) :
    Except (PaymasterError S) (Paymaster S) :=
  match p.payers newPayer with
  | some _ => .error (.alreadyRegistered newPayer)
  | none =>
    let p := p.addPayeePolicies newPayer policy.payees.contents
    let policy := ⟨policy.defaultPayeePolicy, policy.authorizedUpdaters, policy.authorizedSequencers⟩
    .ok ((p.setPolicy newPayer policy).registerSequencers newPayer policy sequencers)

def registerPaymaster (policy : PaymasterPolicyInitializer S) (context : Context S) :
    Except (PaymasterError S) (Paymaster S) :=
  p.doRegistration context.sender [context.sequencerDaAddress] policy

def setPayerForSequencer (context : Context S) : Except (PaymasterError S) (Paymaster S) :=
  match p.payers payer with
  | none => .error (.paymasterNotRegistered payer)
  | some policy =>
    if ¬policy.authorizedSequencers.covers context.sequencerDaAddress then
      .error (.sequencerNotAuthorized context.sequencerDaAddress payer)
    else .ok (p.setMapping context.sequencerDaAddress (some payer))

/-- A sequencer is removed only if it is mapped to this payer. -/
def removeMapping (p : Paymaster S) (sequencer : S.DaAddress) : Except (PaymasterError S) (Paymaster S) :=
  match p.sequencerToPayer sequencer with
  | none => .error (.notMappedToAnyPayer sequencer payer)
  | some currentPayer =>
    if currentPayer = payer then .ok (p.setMapping sequencer none)
    else .error (.mappedToOtherPayer sequencer payer currentPayer)

variable (orders : AddressOrders S)

/-- The authorized sequencers after an update, and the payers of the sequencers. -/
def updateAllowedSequencers (payer : S.Address) (update : Option (SequencerSetUpdate S))
    (policy : PaymasterPolicy S) (context : Context S) : Except (PaymasterError S) (PaymasterPolicy S × Paymaster S) :=
  match update with
  | none => .ok (policy, p)
  | some .allowAll => .ok ({ policy with authorizedSequencers := .all }, p)
  | some (.update list) => do
      let toRemove := list.toRemove.getD .empty
      let p ← toRemove.contents.foldlM (removeMapping payer) p
      let sequencersToAdd := list.toAdd.getD .empty
      match policy.authorizedSequencers with
      | .all => return ({ policy with authorizedSequencers := .some sequencersToAdd }, p)
      | .some existingList =>
        let remaining := @SafeVec.removeEltsFromList _ _ orders.daAddress toRemove existingList
        let p :=
          if context.sequencerDaAddress ∈ sequencersToAdd.contents then
            p.setMapping context.sequencerDaAddress (some payer)
          else p
        match remaining.tryExtend sequencersToAdd.contents with
        | none => .error (.tooManySequencers payer remaining.contents.length)
        | some extended => return ({ policy with authorizedSequencers := .some extended }, p)

def removeAllowedUpdaters (toRemove : Option (SafeVec S.Address defaultSafeVecLen))
    (policy : PaymasterPolicy S) : PaymasterPolicy S :=
  match toRemove with
  | none => policy
  | some toRemove =>
    { policy with
      authorizedUpdaters := @SafeVec.removeEltsFromList _ _ orders.address toRemove policy.authorizedUpdaters }

def addAllowedUpdaters (toAdd : Option (SafeVec S.Address defaultSafeVecLen))
    (policy : PaymasterPolicy S) : Except (PaymasterError S) (PaymasterPolicy S) :=
  match toAdd with
  | none => .ok policy
  | some toAdd =>
    match policy.authorizedUpdaters.tryExtend toAdd.contents with
    | none => .error (.tooManyUpdaters payer policy.authorizedUpdaters.contents.length)
    | some authorizedUpdaters => .ok { policy with authorizedUpdaters }

def updatePolicyIfAuthorized (update : PolicyUpdate S) (context : Context S)
    (payer : S.Address) : Except (PaymasterError S) (Paymaster S) :=
  match p.payers payer with
  | none => .error (.notARegisteredPayer payer)
  | some policy =>
    if context.sender ∉ policy.authorizedUpdaters.contents then
      .error (.notAnAuthorizedUpdater context.sender payer)
    else do
      let (policy, p) ← p.updateAllowedSequencers orders payer update.sequencerUpdate policy context
      let policy := removeAllowedUpdaters orders update.updatersToRemove policy
      let policy ← addAllowedUpdaters payer update.updatersToAdd policy
      let p := p.removePayeePolicies payer ((update.payeePoliciesToDelete.map SafeVec.contents).getD [])
      let p := p.addPayeePolicies payer ((update.payeePoliciesToSet.map SafeVec.contents).getD [])
      let policy := { policy with defaultPayeePolicy := update.defaultPolicy.getD policy.defaultPayeePolicy }
      return p.setPolicy payer policy

def call (context : Context S) : CallMessage S → Except (PaymasterError S) (Paymaster S)
  | .registerPaymaster policy => p.registerPaymaster policy context
  | .setPayerForSequencer payer => p.setPayerForSequencer payer context
  | .updatePolicy payer update => p.updatePolicyIfAuthorized orders update context payer

/-- The policy of a payer for the sender of a transaction, if it covers the sequencer. -/
def getPayeePolicyIfSequencerAuthorized (context : Context S) : Option (PayeePolicy S) := do
  let policy ← p.payers payer
  if policy.authorizedSequencers.covers context.sequencerDaAddress then
    some ((p.policies payer context.sender).getD policy.defaultPayeePolicy)
  else none

end Paymaster

def Bank.reserveGas (b : Bank S) (details : TxDetails S) (gasPrice : S.Price) (payer : S.Address) :
    Bank S × Except ReserveGasError Unit :=
  if b.balanceOf (.user payer) S.gasTokenId < details.maxFee then (b, .error .insufficientBalanceToReserveGas)
  else if ¬details.gasLimitAffordable gasPrice then (b, .error .currentGasPriceTooHigh)
  else
    match b.transferGas (.user payer) Accounts.bankAccount details.maxFee with
    | (b, .error e) => (b, .error (.impossibleToTransferGas e))
    | (b, .ok ()) => (b, .ok ())

structure PaymasterState (S : Spec) where
  paymaster : Paymaster S
  bank : Bank S

namespace PaymasterState
variable (s : PaymasterState S) (details : TxDetails S) (gasPrice : S.Price)

/-- The bank may have changed even if the payer does not pay. -/
def tryPurchasePaymasterGas (payer : S.Address)
    (policy : PayeePolicy S) : Bank S × Except ReserveGasError (Option (PayeePolicy S)) :=
  match policy.authorizeTransaction details gasPrice with
  | .error e => (s.bank, .error e)
  | .ok maybeMutatedPolicy =>
    match s.bank.reserveGas details gasPrice payer with
    | (bank, .error e) => (bank, .error e)
    | (bank, .ok ()) => (bank, .ok maybeMutatedPolicy)

/-- The payer that has paid, if the sequencer has one and its policy permits it. -/
def gasFromPaymaster (context : Context S) : PaymasterState S × Option S.Address :=
  match s.paymaster.sequencerToPayer context.sequencerDaAddress with
  | none => (s, none)
  | some payer =>
    match s.paymaster.getPayeePolicyIfSequencerAuthorized payer context with
    | none =>
      -- The entry is stale.
      ({ s with paymaster := s.paymaster.setMapping context.sequencerDaAddress none }, none)
    | some payeePolicy =>
      match s.tryPurchasePaymasterGas details gasPrice payer payeePolicy with
      | (bank, .ok (some mutatedPolicy)) =>
        (⟨s.paymaster.setPayee payer context.sender (some mutatedPolicy), bank⟩, some payer)
      | (bank, .ok none) => ({ s with bank }, some payer)
      | (bank, .error _) => ({ s with bank }, none)

/-- `try_reserve_gas`: the state after it and the recipient of refunds, who is the one that has paid. An
error reverts the transaction. -/
def tryReserveGas (context : Context S) : Except ReserveGasError (PaymasterState S × S.Address) :=
  match s.gasFromPaymaster details gasPrice context with
  | (s, some payer) => .ok (s, payer)
  | (s, none) =>
    match s.bank.reserveGas details gasPrice context.sender with
    | (_, .error e) => .error e
    | (bank, .ok ()) => .ok ({ s with bank }, context.sender)

end PaymasterState

/-- What happens to a paymaster: calls, reservations, and whatever else changes balances. -/
inductive PaymasterOperation (S : Spec) where
  | call (context : Context S) (message : Paymaster.CallMessage S)
  | reserveGas (context : Context S) (details : TxDetails S) (gasPrice : S.Price)
  | otherModules (bank : Bank S)

namespace PaymasterState

/-- A call or a reservation that fails is reverted. -/
def perform (orders : AddressOrders S) (s : PaymasterState S) : PaymasterOperation S → PaymasterState S
  | .call context message =>
    match s.paymaster.call orders context message with
    | .ok paymaster => { s with paymaster }
    | .error _ => s
  | .reserveGas context details gasPrice =>
    match s.tryReserveGas details gasPrice context with
    | .ok (s, _) => s
    | .error _ => s
  | .otherModules bank => { s with bank }

def run (orders : AddressOrders S) (s : PaymasterState S) (operations : List (PaymasterOperation S)) :
    PaymasterState S :=
  operations.foldl (perform orders) s

end PaymasterState
end SovereignSdk
