import SovereignSdk.BlobStorage.Effects
import SovereignSdk.Genesis

/-! What a discarded blob costs its sender. The room for a blob is checked twice, with
its length on the DA layer before its funds are set aside, and with the size of the
decoded data afterwards; the second check does not give the funds back. -/
namespace SovereignSdk
open Bounded Outcome Accounts BlobsAccumulator Except

variable {S : Spec}

/-- The data of a blob in the form in which it is validated for a registered sender. -/
def BlobOrigin.read (address : S.Address) : BlobOrigin S → Option (BlobData S)
  | .batch blob => blob.asBatch.map fun txs => .batch txs blob.hash address
  | .proof blob => blob.asProof.map fun raw => .proof raw blob.hash address

/-- The funds set aside for data that does not fit into the room that is left. -/
def BlobsAccumulator.unplaced (acc : BlobsAccumulator S) (data : BlobData S) (funds : Nat) : Nat :=
  if acc.canAcceptBlob .nonPreferred data.blobSize then 0 else funds

/-- The funds lost with a blob of the current slot that is found too large only after
they have been set aside. -/
def Selection.lostEscrow (sel : Selection S) (terms : BlockTerms S) (origin : BlobOrigin S) : Nat :=
  if ¬ sel.blobs.canAcceptBlob .nonPreferred origin.get.totalLen then 0
  else
    match sel.accounts.isSenderAllowed origin.sender with
    | .error _ => 0
    | .ok k =>
      match deserializationCost origin.get terms.price, origin.read k.address with
      | some cost, some data =>
        match fundsNeeded terms data origin.sender with
        | .ok (some funds) => if k.balance < cost + funds then 0 else sel.blobs.unplaced data funds
        | _ => 0
      | _, _ => 0

def Selection.lostOnRetrieval (sel : Selection S) (price : S.Price) (v : ValidatedBlob S) (holder : Hash) : Nat :=
  match numPreExecChecksNeeded v.blob with
  | .error _ => 0
  | .ok checks =>
    match preExecChecksCost S checks price with
    | none => 0
    | some needed =>
      if sel.accounts.gasBalance (.derived holder) < needed then 0 else sel.blobs.unplaced v.blob needed

/-- The sender has lost no more than a charge, and nothing has been set aside. -/
structure Accounts.Refunds (s s' : Accounts S) (a : S.DaAddress) (charge : Nat) : Prop where
  total : ∀ owner, s.stakeOf a + s.gasBalance (.user owner) ≤ s'.stakeOf a + s'.gasBalance (.user owner) + charge
  bankAccount : s'.gasBalance bankAccount = s.gasBalance bankAccount
  holders : ∀ holder, s'.gasBalance (.derived holder) = s.gasBalance (.derived holder)

/-- An escrow has been given back in full. -/
structure Accounts.GivesBack (s s' : Accounts S) (holder : Hash) (recipient : S.Address) : Prop where
  recipient : s'.gasBalance (.user recipient) = s.gasBalance (.user recipient) + s.gasBalance (.derived holder)
  holder : s'.gasBalance (.derived holder) = 0
  bankAccount : s'.gasBalance bankAccount = s.gasBalance bankAccount
  stake : ∀ a, s'.stakeOf a = s.stakeOf a

namespace Accounts
variable {s s' s'' : Accounts S} {a : S.DaAddress}

/-- Part of a stake has been paid to a beneficiary. -/
structure Drawn (s s' : Accounts S) (a : S.DaAddress) (k : KnownSequencer S) (beneficiary : S.Holder)
    (amount : Nat) : Prop where
  le : amount ≤ k.balance
  known : s'.known a = some { k with balance := k.balance - amount }
  moved : GasMoved s s' registryAccount beneficiary amount
  solvent : s'.Solvent

variable {k : KnownSequencer S} {beneficiary : S.Holder} {amount : Nat}

theorem Solvent.drawn (hs : s.Solvent) (hKnown : s.known a = some k)
    (h : s.removePartOfTheStake a beneficiary amount = (s', .ok ())) : Drawn s s' a k beneficiary amount := by
  rcases hs.removePartOfTheStake_cases a beneficiary amount with
    ⟨k', s₁, hk', -, hLe, hOk, hMoved, hReg, hSolv⟩ | ⟨⟨e, hError⟩, -⟩
  · cases hOk.symm.trans h
    cases hk'.symm.trans hKnown
    exact ⟨hLe, by rw [known_of_registry hReg, if_pos rfl], hMoved, hSolv⟩
  · cases hError.symm.trans h

theorem Solvent.not_drawn (hs : s.Solvent) (hKnown : s.known a = some k) (hActive : k.balanceState = .active)
    {e} (h : s.removePartOfTheStake a beneficiary amount = (s', .error e)) : k.balance < amount := by
  rcases hs.removePartOfTheStake_cases a beneficiary amount with
    ⟨k', s₁, -, -, -, hOk, -, -, -⟩ | ⟨-, hShort⟩
  · cases hOk.symm.trans h
  · exact hShort k hKnown hActive

theorem Drawn.burned {k amount} (h : Drawn s s' a k registryAccount amount)
    (holder : S.Holder) : s'.gasBalance holder = s.gasBalance holder := by
  by_cases hSelf : holder = registryAccount
  · subst hSelf
    exact h.moved.2.2.2.1 rfl
  · exact h.moved.other hSelf hSelf

theorem Refunds.refl (s : Accounts S) (a : S.DaAddress) (charge : Nat) : Refunds s s a charge :=
  ⟨fun _ => Nat.le_add_right _ _, rfl, fun _ => rfl⟩

theorem Drawn.refunds (hKnown : s.known a = some k) (h : Drawn s s' a k registryAccount amount) :
    Refunds s s' a amount := by
  refine ⟨fun owner => ?_, h.burned _, fun holder => h.burned _⟩
  rw [h.burned, stakeOf_of_known hKnown, stakeOf_of_known h.known]
  dsimp only
  omega

/-- Where the funds of a validated blob are. -/
inductive SetAside (funds : Nat) : Escrow → S.Holder → Prop where
  | bankAccount : SetAside funds (.direct funds) bankAccount
  | derived (holder : Hash) : SetAside funds (.derivedHolder holder) (.derived holder)

variable {funds : Nat} {escrow : Escrow}

theorem SetAside.ne_registry (h : SetAside funds escrow beneficiary) : registryAccount ≠ beneficiary := by
  cases h <;> simp

theorem Drawn.refunds_iff {charge} (hKnown : s.known a = some k) (h : Drawn s s' a k registryAccount charge)
    (h' : Drawn s' s'' a { k with balance := k.balance - charge } beneficiary funds)
    (hAside : SetAside funds escrow beneficiary) : Refunds s s'' a charge ↔ funds = 0 := by
  have hGain : s''.gasBalance beneficiary = s.gasBalance beneficiary + funds := by
    rw [h'.moved.receiver hAside.ne_registry, h.burned]
  constructor
  · intro hRefunds
    cases hAside with
    | bankAccount =>
      have := hRefunds.bankAccount
      omega
    | derived holder =>
      have := hRefunds.holders holder
      omega
  · rintro rfl
    have hSame : ∀ holder, holder ≠ registryAccount → s''.gasBalance holder = s.gasBalance holder := by
      intro holder hne
      by_cases hEq : holder = beneficiary
      · rw [hEq, hGain, Nat.add_zero]
      · rw [h'.moved.other hne hEq, h.burned]
    refine ⟨fun owner => ?_, hSame _ (by simp), fun holder => hSame _ (by simp)⟩
    rw [hSame _ (by simp), stakeOf_of_known hKnown, stakeOf_of_known h'.known]
    dsimp only
    omega

theorem Solvent.validateBlob_cases (hs : s.Solvent) (hKnown : s.known a = some k)
    (hActive : k.balanceState = .active) {terms idx data validated}
    (h : s.validateBlob terms idx data a k.balance = .ok (s', validated)) :
    (validated = none ∧ s' = s ∧ ∀ funds, fundsNeeded terms data a = .ok (some funds) → k.balance < funds) ∨
      ∃ v funds beneficiary, validated = some v ∧ fundsNeeded terms data a = .ok (some funds) ∧
        v.blob = data ∧ SetAside funds v.balanceStore beneficiary ∧ Drawn s s' a k beneficiary funds := by
  simp only [validateBlob, bind_eq_ok] at h
  obtain ⟨needed, hFunds, h⟩ := h
  cases needed with
  | none =>
    cases h
    exact .inl ⟨rfl, rfl, by simp [hFunds]⟩
  | some funds =>
    dsimp only at h
    split at h
    · rename_i hShort
      cases h
      refine .inl ⟨rfl, rfl, fun funds' hFunds' => ?_⟩
      cases hFunds'.symm.trans hFunds
      exact hShort
    · rename_i hEnough
      split at h
      · rename_i hRemove
        exact absurd (hs.not_drawn hKnown hActive hRemove) hEnough
      · rename_i hRemove
        cases h
        refine .inr ⟨_, funds, _, rfl, hFunds, rfl, ?_, hs.drawn hKnown hRemove⟩
        split
        · exact .derived _
        · exact .bankAccount

end Accounts

theorem Accounts.deserializeOrTrySlashSender_map {β γ : Type} (f : β → γ) (s : Accounts S)
    (blob : BlobTransaction S) (decoded : Option β) (charge : Option (KnownSequencer S × S.Price)) (slash : Bool) :
    s.deserializeOrTrySlashSender blob (decoded.map f) charge slash =
      (s.deserializeOrTrySlashSender blob decoded charge slash).map fun r => (r.1, r.2.map f) := by
  unfold deserializeOrTrySlashSender
  cases decoded <;> dsimp only [Option.map] <;> repeat' split
  all_goals rfl

namespace Accounts
variable {s s' : Accounts S} {holder : Hash} {recipient : S.Address} {needed : Nat}

theorem gasBalance_of_balances {h reserved}
    (hReserved : s.bank.balances h S.gasTokenId = reserved) : s.gasBalance h = reserved.getD 0 := by
  simp [gasBalance, Bank.balanceOf, hReserved]

theorem refundAllReservedGas_givesBack (h : s.refundAllReservedGas holder recipient = .ok s') :
    GivesBack s s' holder recipient := by
  unfold refundAllReservedGas at h
  split at h
  · rename_i hReserved
    cases h
    have hNone : s.gasBalance (.derived holder) = 0 := gasBalance_of_balances hReserved
    exact ⟨by rw [hNone, Nat.add_zero], hNone, rfl, fun _ => rfl⟩
  · rename_i reserved hReserved
    have hSome : s.gasBalance (.derived holder) = reserved := gasBalance_of_balances hReserved
    split at h
    · cases h
    · rename_i bank hXfer
      cases h
      have hMoved : GasMoved s (s.withBank bank) (.derived holder) (.user recipient) reserved :=
        Bank.doTransfer_ok hXfer
      refine ⟨?_, ?_, hMoved.other (by simp) (by simp), fun _ => rfl⟩
      · rw [hMoved.receiver (by simp), hSome]
      · rw [hMoved.sender (by simp), hSome, Nat.sub_self]

theorem retrieveFundsFromEscrow_paid (h : s.retrieveFundsFromEscrow holder recipient needed = .ok (s', .ok ())) :
    needed ≤ s.gasBalance (.derived holder) ∧ (GivesBack s s' holder recipient ↔ needed = 0) := by
  unfold retrieveFundsFromEscrow at h
  split at h
  · cases h
  · rename_i reserved hReserved
    have hSome : s.gasBalance (.derived holder) = reserved := gasBalance_of_balances hReserved
    split at h
    · cases h
    · rename_i refund hSub
      obtain ⟨_, rfl⟩ := checkedSub_eq_some.mp hSub
      split at h
      · cases h
      · rename_i b₁ hRefund
        split at h
        · cases h
        · rename_i b₂ hPay
          cases h
          have hMoved₁ : GasMoved s (s.withBank b₁) (.derived holder) (.user recipient) (reserved - needed) :=
            Bank.doTransfer_ok hRefund
          have hMoved₂ : GasMoved (s.withBank b₁) (s.withBank b₂) (.derived holder) bankAccount needed :=
            Bank.doTransfer_ok hPay
          have hUser := hMoved₁.receiver (by simp)
          have hUser' := hMoved₂.other (h := .user recipient) (by simp) (by simp)
          have hHolder := hMoved₁.sender (by simp)
          have hHolder' := hMoved₂.sender (by simp)
          have hBank := hMoved₁.other (h := bankAccount) (by simp) (by simp)
          have hBank' := hMoved₂.receiver (by simp)
          refine ⟨by omega, fun hBack => ?_, ?_⟩
          · have := hBack.bankAccount
            omega
          · rintro rfl
            exact ⟨by omega, by omega, by omega, fun _ => rfl⟩

theorem Solvent.retrieveFundsFromEscrow_refused (hs : s.Solvent) {e}
    (h : s.retrieveFundsFromEscrow holder recipient needed = .ok (s', .error e)) :
    s' = s ∧ (s.gasBalance (.derived holder) < needed ∨ needed = 0) := by
  rcases hs.retrieveFundsFromEscrow_cases holder recipient needed with ⟨s₁, hOk, -⟩ | ⟨⟨e', hError⟩, _⟩
  · cases hOk.symm.trans h
  · cases hError.symm.trans h
    exact ⟨rfl, by omega⟩

end Accounts

theorem asU32_ok {n m} (h : asU32 n = .ok m) : n = m := by
  unfold asU32 at h
  split at h
  · exact ok.inj h
  · cases h

namespace Selection
variable {terms : BlockTerms S} {sel sel' : Selection S} {origin : BlobOrigin S} {idx n n' : Nat}

theorem selectNext_allowed {k} (hRoom : sel.blobs.canAcceptBlob .nonPreferred origin.get.totalLen)
    (hAllow : sel.accounts.isSenderAllowed origin.sender = .ok k)
    (h : selectNext terms (sel, n) (origin, idx) = .ok (sel', n')) :
    ∃ s data, sel.accounts.deserializeOrTrySlashSender origin.get (origin.read k.address)
        (some (k, terms.price)) true = .ok (s, data) ∧
      sel.validateDecoded terms idx origin.get (s, data) = .ok sel' := by
  unfold selectNext at h
  dsimp only at h
  rw [if_neg (not_not.mpr hRoom)] at h
  cases origin with
  | proof blob =>
    simp only [BlobOrigin.sender, BlobOrigin.get] at hAllow
    simp only [selectProof, hAllow, bind_eq_ok, pure_eq_ok] at h
    obtain ⟨_, ⟨idx', hIdx, ⟨s, raw⟩, hRead, h⟩, rfl, -⟩ := h
    obtain rfl : idx = idx' := asU32_ok hIdx
    refine ⟨s, raw.map fun raw => .proof raw blob.hash k.address, ?_, h⟩
    simp only [BlobOrigin.read, BlobOrigin.get, deserializeOrTrySlashSender_map, hRead, Except.map]
  | batch blob =>
    simp only [BlobOrigin.sender, BlobOrigin.get] at hAllow
    simp only [selectRegisteredBatch, hAllow, bind_eq_ok, pure_eq_ok] at h
    obtain ⟨_, ⟨idx', hIdx, ⟨s, txs⟩, hRead, h⟩, rfl, -⟩ := h
    obtain rfl : idx = idx' := asU32_ok hIdx
    refine ⟨s, txs.map fun txs => .batch txs blob.hash k.address, ?_, h⟩
    simp only [BlobOrigin.read, BlobOrigin.get, deserializeOrTrySlashSender_map, hRead, Except.map]

theorem selectNext_unknown {e}
    (hAllow : sel.accounts.isSenderAllowed origin.sender = .error e)
    (h : selectNext terms (sel, n) (origin, idx) = .ok (sel', n')) : sel'.accounts = sel.accounts := by
  unfold selectNext at h
  dsimp only at h
  split at h
  · cases h
    rfl
  · cases origin with
    | proof blob =>
      simp only [BlobOrigin.sender, BlobOrigin.get] at hAllow
      simp only [selectProof, hAllow, bind_eq_ok, pure_eq_ok] at h
      obtain ⟨_, ⟨-, -, rfl⟩, rfl, -⟩ := h
      rfl
    | batch blob =>
      simp only [BlobOrigin.sender, BlobOrigin.get] at hAllow
      simp only [hAllow, selectUnregisteredBatch] at h
      cases hTx : blob.asTx <;> rw [hTx] at h <;> repeat' split at h
      all_goals
        cases h
        first | rfl | exact (push_cases _ _ _).1

variable {v : ValidatedBlob S} {id : Hash} {accepts : ValidatedBlob S → Prop} {slashes : S.DaAddress → Prop}

variable {s : Accounts S}

theorem push_discards (h : ({ sel with accounts := s }.push .nonPreferred v).blobs = sel.blobs) :
    sel.blobs.canAcceptBlob .nonPreferred v.blob.blobSize = false := by
  by_contra hFits
  rw [Bool.not_eq_false] at hFits
  have hLen := congrArg (fun acc => acc.blobsWithAddress.length) h
  simp [push, pushOrIgnore, hFits] at hLen

theorem validateDecoded_refunds_iff {k cost data}
    (hKnown : sel.accounts.known origin.sender = some k) (hActive : k.balanceState = .active)
    (hDrawn : Drawn sel.accounts s origin.sender k registryAccount cost)
    (h : sel.validateDecoded terms idx origin.get (s, some data) = .ok sel') (hDisc : sel'.blobs = sel.blobs) :
    sel.accounts.Refunds sel'.accounts origin.sender cost ↔ (match fundsNeeded terms data origin.sender with
        | .ok (some funds) => if k.balance < cost + funds then 0 else sel.blobs.unplaced data funds
        | _ => 0) = 0 := by
  have hLe := hDrawn.le
  have hAvailable : (s.getSenderBalance origin.get.sender).getD 0 = k.balance - cost := by
    have := hDrawn.known
    simp_all [getSenderBalance, BlobOrigin.sender]
  simp only [validateDecoded, hAvailable, bind_eq_ok] at h
  obtain ⟨⟨s', validated⟩, hValid, h⟩ := h
  rcases hDrawn.solvent.validateBlob_cases hDrawn.known hActive hValid with
    ⟨rfl, rfl, hShort⟩ | ⟨v, funds, beneficiary, rfl, hFunds, rfl, hAside, hDrawn'⟩
  · cases h
    refine iff_of_true (hDrawn.refunds hKnown) ?_
    split
    · rename_i funds hFunds
      have : k.balance - cost < funds := hShort funds hFunds
      rw [if_pos (by omega)]
    · rfl
  · cases h
    have hAcc := (push_cases { sel with accounts := s' } .nonPreferred v).1
    have hLe' := hDrawn'.le
    dsimp only at hLe'
    rw [hAcc, hDrawn.refunds_iff hKnown hDrawn' hAside, hFunds]
    dsimp only
    rw [if_neg (by omega), unplaced, push_discards hDisc]
    simp

theorem selectNext_refunds_iff (hs : sel.accounts.Solvent)
    (h : selectNext terms (sel, n) (origin, idx) = .ok (sel', n')) (hDisc : sel'.blobs = sel.blobs)
    (hStat : sel'.accounts.statusOf origin.sender = sel.accounts.statusOf origin.sender) :
    sel.accounts.Refunds sel'.accounts origin.sender ((deserializationCost origin.get terms.price).getD 0) ↔
      sel.lostEscrow terms origin = 0 := by
  unfold lostEscrow
  by_cases hRoom : sel.blobs.canAcceptBlob .nonPreferred origin.get.totalLen
  swap
  · rw [if_pos hRoom]
    simp only [selectNext, if_pos hRoom] at h
    cases h
    exact iff_of_true (.refl _ _ _) rfl
  rw [if_neg (not_not.mpr hRoom)]
  cases hAllow : sel.accounts.isSenderAllowed origin.sender with
  | error e =>
    rw [selectNext_unknown hAllow h]
    exact iff_of_true (.refl _ _ _) rfl
  | ok k =>
    obtain ⟨hKnown, hActive⟩ := isSenderAllowed_ok hAllow
    obtain ⟨s, data, hRead, hValid⟩ := selectNext_allowed hRoom hAllow h
    have hBal : k.balanceState = .active := by
      rw [statusOf_of_known hKnown] at hActive
      exact (Prod.mk.inj (Option.some.inj hActive)).2
    unfold deserializeOrTrySlashSender at hRead
    dsimp only at hRead ⊢
    cases hCost : deserializationCost origin.get terms.price with
    | none =>
      simp only [hCost, ok.injEq] at hRead
      obtain ⟨rfl, rfl⟩ := hRead
      cases hValid
      exact iff_of_true (.refl _ _ _) rfl
    | some cost =>
      simp only [hCost] at hRead
      split at hRead
      · cases hRead
        cases hValid
        refine iff_of_true (.refl _ _ _) ?_
        cases origin.read k.address with
        | none => rfl
        | some value =>
          dsimp only
          split
          · exact if_pos (by omega)
          · rfl
      · split at hRead
        · cases hRead
        · rename_i s₁ hRemove
          have hDrawn := hs.drawn hKnown hRemove
          cases hData : origin.read k.address with
          | none =>
            -- The sender is slashed, against the hypothesis on its status.
            simp only [hData, ok.injEq] at hRead
            obtain ⟨rfl, rfl⟩ := hRead
            cases hValid
            rw [hActive] at hStat
            simp [discard, BlobOrigin.sender] at hStat
          | some value =>
            simp only [hData, ok.injEq] at hRead
            obtain ⟨rfl, rfl⟩ := hRead
            exact validateDecoded_refunds_iff hKnown hBal hDrawn hValid hDisc

/-- A blob from storage that is discarded gets its escrow back in full exactly if no funds are lost with it. -/
theorem retrieveBlob_givesBack_iff (hs : sel.accounts.Solvent) {price holder recipient}
    (hEscrow : v.balanceStore = .derivedHolder holder)
    (hRecip : escrowRecipient v.blob = .ok recipient) (h : retrieveBlob price sel v = .ok sel')
    (hDisc : sel'.blobs = sel.blobs) :
    sel.accounts.GivesBack sel'.accounts holder recipient ↔ sel.lostOnRetrieval price v holder = 0 := by
  simp only [retrieveBlob, hEscrow, moveFundsFromEscrowToBank, hRecip, ok_bind, bind_eq_ok] at h
  obtain ⟨⟨s, funds⟩, ⟨checks, hChecks, hMove⟩, h⟩ := h
  unfold lostOnRetrieval
  rw [hChecks]
  cases hCost : preExecChecksCost S checks price with
  | none =>
    simp only [hCost, bind_eq_ok, pure_eq_ok] at hMove
    obtain ⟨_, hRefund, rfl, rfl⟩ := hMove
    cases h
    exact iff_of_true (refundAllReservedGas_givesBack hRefund) (by simp [hCost])
  | some needed =>
    simp only [hCost, bind_eq_ok] at hMove
    obtain ⟨⟨s₁, paid⟩, hRetr, hMove⟩ := hMove
    simp only [hCost]
    cases paid with
    | ok u =>
      cases hMove
      cases h
      obtain ⟨hLe, hIff⟩ := retrieveFundsFromEscrow_paid hRetr
      rw [(push_cases _ _ _).1, hIff, if_neg (Nat.not_lt.mpr hLe), unplaced, if_neg (by simp [push_discards hDisc])]
    | error e =>
      simp only [bind_eq_ok, pure_eq_ok] at hMove
      obtain ⟨_, hRefund, rfl, rfl⟩ := hMove
      cases h
      obtain ⟨rfl, hShort⟩ := hs.retrieveFundsFromEscrow_refused hRetr
      refine iff_of_true (refundAllReservedGas_givesBack hRefund) ?_
      rcases hShort with hShort | rfl
      · rw [if_pos hShort]
      · simp [unplaced]

/-- The states that the selection of a slot passes through, from the accounts at its
start on. -/
inductive Underway (s : Accounts S) : Selection S → Prop where
  | start (discarded : List DiscardedBlob) : Underway s ⟨s, .empty, discarded⟩
  | slashed {sel : Selection S} (a : S.DaAddress) (h : Underway s sel) :
      Underway s { sel with accounts := sel.accounts.slashSequencer a }
  | preferred {sel sel' : Selection S} {price : S.Price} {sender : S.DaAddress} {address : S.Address}
      {blob : PreferredBlobDataWithId S} (h : Underway s sel)
      (hStep : addPreferredBlob price sender address sel blob = .ok sel') : Underway s sel'
  | retrieved {sel sel' : Selection S} {price : S.Price} {v : ValidatedBlob S} (h : Underway s sel)
      (hStep : retrieveBlob price sel v = .ok sel') : Underway s sel'
  | next {sel sel' : Selection S} {terms : BlockTerms S} {item : BlobOrigin S × Nat} {n n' : Nat}
      (h : Underway s sel) (hStep : selectNext terms (sel, n) item = .ok (sel', n')) : Underway s sel'
  | regrouped {sel : Selection S} (blobs : BlobsAccumulator S) (h : Underway s sel) :
      Underway s { sel with blobs }

theorem Effect.solvent (h : Effect id accepts slashes sel sel') (hs : sel.accounts.Solvent) :
    sel'.accounts.Solvent := by
  cases h with
  | discarded hDraws | accepted _ _ hDraws => exact hDraws.solvent hs
  | slashed _ hDraws hAcc => exact hAcc ▸ (hDraws.solvent hs).slashSequencer _

theorem Effect.blobs_eq (h : Effect id accepts slashes sel sel') (hDisc : sel'.discarded ≠ sel.discarded) :
    sel'.blobs = sel.blobs := by
  cases h with
  | discarded _ hBlobs | slashed _ _ _ hBlobs => exact hBlobs
  | accepted _ _ _ _ _ hSame => exact absurd hSame hDisc

theorem Underway.solvent (hs : s.Solvent) (h : Underway s sel) : sel.accounts.Solvent := by
  induction h with
  | start => exact hs
  | slashed a h ih => exact ih.slashSequencer a
  | preferred h hStep ih => exact (addPreferredBlob_effect hStep).solvent ih
  | retrieved h hStep ih => exact (retrieveBlob_effect hStep).solvent ih
  | next h hStep ih => exact (selectNext_effect hStep).solvent ih
  | regrouped blobs h ih => exact ih

end Selection
end SovereignSdk
