import SovereignSdk.BlobStorage.Handover

/-! When the steps of a selection return: the accounts are solvent, the sizes and
counts involved fit in a `u32`, and whoever pays for a blob is registered. -/
namespace SovereignSdk
open Bounded Outcome Accounts Selection ValidatedBlob Raises Option

variable {S : Spec}

/-- The estimated size of any blob that can be accepted fits in a `u32`. -/
def Spec.SizesFit (S : Spec) : Prop :=
  ∀ (address : S.Address) (sender : S.DaAddress), S.maxAllowedDataSizeReturnedByBlobStorage + 32 +
    S.addressLen address + 1 + S.daAddressLen sender + 33 + 12 ≤ u32Max

def BlobData.Countable : BlobData S → Prop
  | .batch txs _ _ => txs.length ≤ u32Max
  | _ => True

variable {data : BlobData S} {n : Nat} {b storage : BlobStorage S}

theorem BlobOrigin.Decodes.countable {origin : BlobOrigin S} (h : origin.Decodes data) : data.Countable := by
  cases origin with
  | batch blob =>
    cases data with
    | batch txs id address => exact blob.batch_length txs h.1
    | _ => trivial
  | proof blob =>
    cases data with
    | batch txs id address => exact h.elim
    | _ => trivial

/-- What blob storage keeps for later. -/
structure ValidatedBlob.Storable (v : ValidatedBlob S) : Prop where
  deferrable : v.Deferrable
  countable : v.blob.Countable

theorem asU32_returns (h : n ≤ u32Max) : Returns (asU32 n) := .of_eq (if_pos h)

theorem BlobData.Countable.returns (h : data.Countable) : Returns (numPreExecChecksNeeded data) := by
  cases data with
  | batch txs id address => exact asU32_returns h
  | emergencyRegistration | proof => exact .ok

theorem fundsNeeded_returns {terms sender} (hCount : data.Countable)
    (hSize : conservativeSerializedSize data sender ≤ u32Max) :
    Returns (fundsNeeded terms data sender) := by
  refine .bind ?_ fun deferral => ?_
  · unfold deferralCosts
    split
    · exact .bind hCount.returns fun _ => .bind (asU32_returns hSize) fun _ => .ok
    · exact .ok
  · split
    · exact .ok
    · exact .bind hCount.returns fun _ => .ok

namespace Accounts
variable {s : Accounts S}

theorem validateBlob_returns {terms idx available data sender} (hCount : data.Countable)
    (hSize : conservativeSerializedSize data sender ≤ u32Max) :
    Returns (s.validateBlob terms idx data sender available) := by
  refine .bind (fundsNeeded_returns hCount hSize) fun funds => ?_
  split
  · exact .ok
  · split
    · exact .ok
    · dsimp only
      split
      · exact .ok
      · exact .ok

theorem Solvent.deserialize_returns {β : Type} (hs : s.Solvent) {blob : BlobTransaction S}
    {decoded : Option β} {k : KnownSequencer S} {price : S.Price} (hAllow : s.isSenderAllowed blob.sender = .ok k) :
    Returns (s.deserializeOrTrySlashSender blob decoded (some (k, price)) true) := by
  obtain ⟨hKnown, hStat⟩ := isSenderAllowed_ok hAllow
  have hActive : k.balanceState = .active := by
    rw [statusOf_of_known hKnown] at hStat
    exact (Prod.mk.inj (some.inj hStat)).2
  unfold deserializeOrTrySlashSender
  dsimp only
  split
  · exact .ok
  · rename_i funds hCost
    split
    · exact .ok
    · rename_i hEnough
      rcases hs.removePartOfTheStake_cases blob.sender registryAccount funds with
        ⟨_, s', -, -, -, hOk, -⟩ | ⟨-, hShort⟩
      · rw [hOk]
        exact .ok
      · exact absurd (hShort k hKnown hActive) hEnough

theorem Solvent.refundAllReservedGas_returns (hs : s.Solvent) (holder : Hash) (recipient : S.Address) :
    Returns (s.refundAllReservedGas holder recipient) := by
  obtain ⟨s', hOk, -⟩ := hs.refundAllReservedGas_ok holder recipient
  exact .of_eq hOk

theorem Solvent.moveFunds_returns (hs : s.Solvent) {v} (hCount : v.blob.Countable)
    (hEscr : v.Escrowed) (holder : Hash) (price : S.Price) :
    Returns (s.moveFundsFromEscrowToBank v holder price) := by
  have hRecip : Returns (escrowRecipient v.blob) := by
    unfold Escrowed at hEscr
    cases hBlob : v.blob with
    | emergencyRegistration tx id =>
      rw [hBlob] at hEscr
      cases hEscr
    | batch | proof => exact .ok
  refine .bind hRecip fun recipient => .bind hCount.returns fun checks => ?_
  split
  · exact .bind (hs.refundAllReservedGas_returns holder recipient) fun _ => .ok
  · rename_i needed hCost
    rcases hs.retrieveFundsFromEscrow_cases holder recipient needed with
      ⟨s', hOk, -⟩ | ⟨⟨e, hError⟩, -⟩
    · rw [hOk]
      exact .ok
    · rw [hError, ok_bind]
      exact .bind (hs.refundAllReservedGas_returns holder recipient) fun _ => .ok

end Accounts

variable {v : ValidatedBlob S} {selection : Selection S} {visible : Nat}

theorem Accepts.inOrder {terms : BlockTerms S} {s : Accounts S} {origin : BlobOrigin S}
    (h : Accepts terms s origin v) : if terms.accountForDeferral then v.Storable else v.Ready := by
  have hEscrow := h.escrow
  split
  · rename_i hDefer
    rw [if_pos hDefer] at hEscrow
    exact ⟨hEscrow, h.decodes.countable⟩
  · rename_i hDefer
    rwa [if_neg hDefer] at hEscrow

namespace Selection
variable {terms : BlockTerms S} {sel sel' : Selection S} {good : ValidatedBlob S → Prop}

/-- A selection under way: the accounts are solvent, the room left is no more than
there was at the start, and all blobs accepted so far are in order. -/
structure Sound (good : ValidatedBlob S → Prop) (sel : Selection S) : Prop where
  solvent : sel.accounts.Solvent
  room : sel.blobs.remainingNonPreferredSize ≤ S.maxAllowedDataSizeReturnedByBlobStorage
  blobs : ∀ v ∈ sel.blobs.blobsWithAddress, good v

theorem sound_empty (good : ValidatedBlob S → Prop) {s} (hs : s.Solvent)
    (discarded : List DiscardedBlob) : Sound good ⟨s, .empty, discarded⟩ :=
  ⟨hs, Nat.sub_le _ _, by simp [BlobsAccumulator.empty]⟩

theorem Effect.sound {id accepts slashes}
    (h : Effect id accepts slashes sel sel') (hGood : ∀ v, accepts v → good v) (hs : sel.Sound good) :
    sel'.Sound good := by
  cases h with
  | discarded hDraws hBlobs _ =>
    exact ⟨hDraws.solvent hs.solvent, hBlobs ▸ hs.room, hBlobs ▸ hs.blobs⟩
  | slashed _ hDraws hAcc hBlobs _ =>
    refine ⟨?_, hBlobs ▸ hs.room, hBlobs ▸ hs.blobs⟩
    rw [hAcc]
    exact (hDraws.solvent hs.solvent).slashSequencer _
  | accepted hAccepts _ hDraws hBlobs hRoom _ =>
    refine ⟨hDraws.solvent hs.solvent, hRoom.trans hs.room, fun v hv => ?_⟩
    rw [hBlobs, List.mem_append, List.mem_singleton] at hv
    rcases hv with hv | rfl
    · exact hs.blobs v hv
    · exact hGood v hAccepts

theorem Sound.repush (hs : sel.Sound good) : sel.repush.Sound good := by
  obtain ⟨hAcc, hBlobs, hRoom⟩ := repush_spec sel
  exact ⟨hAcc ▸ hs.solvent, hRoom, fun v hv => hs.blobs v (hBlobs.subset hv)⟩

variable {origin : BlobOrigin S}

theorem size_fits (hSizes : S.SizesFit) {data sender} (hDec : origin.Decodes data)
    (hEscr : data.isEmergencyRegistration = false)
    (hLen : origin.get.totalLen ≤ S.maxAllowedDataSizeReturnedByBlobStorage) :
    conservativeSerializedSize data sender ≤ u32Max := by
  unfold conservativeSerializedSize
  cases origin with
  | batch blob =>
    cases data with
    | batch txs id address =>
      have hTxs := blob.batch_len_le txs hDec.1
      have := hSizes address sender
      simp only [BlobData.blobSize, BlobOrigin.get] at hLen ⊢
      omega
    | emergencyRegistration tx id => cases hEscr
    | proof raw id address => exact hDec.elim
  | proof blob =>
    cases data with
    | proof raw id address =>
      have hRaw := blob.proof_len_le raw hDec.1
      have := hSizes address sender
      simp only [BlobData.blobSize, BlobOrigin.get] at hLen ⊢
      omega
    | emergencyRegistration tx id => cases hEscr
    | batch txs id address => exact hDec.elim

variable {idx : Nat} {items : List (BlobOrigin S)} {v : ValidatedBlob S}

theorem validateDecoded_returns {β : Type} {s : Accounts S} {decoded result : Option β} {data : β → BlobData S}
    (hSizes : S.SizesFit) (hDec : ∀ value, decoded = some value → origin.Decodes (data value))
    (hEscr : ∀ value, (data value).isEmergencyRegistration = false)
    (hLen : origin.get.totalLen ≤ S.maxAllowedDataSizeReturnedByBlobStorage)
    (hReading : Reading origin.sender decoded sel.accounts s result) :
    Returns (sel.validateDecoded terms idx origin.get (s, result.map data)) := by
  cases hReading with
  | refused | slashed => exact .ok
  | @read value _ hDecoded =>
    have hData := hDec value hDecoded
    refine .bind (validateBlob_returns hData.countable
      (size_fits hSizes hData (hEscr value) hLen)) fun validated => ?_
    split
    · exact .ok
    · exact .ok

theorem selectNext_returns (hSizes : S.SizesFit) (hs : sel.Sound good) (hIdx : idx ≤ u32Max) :
    Returns (selectNext terms (sel, n) (origin, idx)) := by
  unfold selectNext
  dsimp only
  split
  · exact .ok
  · rename_i hAccept
    have hLen : origin.get.totalLen ≤ S.maxAllowedDataSizeReturnedByBlobStorage := by
      have hFits := (of_decide_eq_true (not_not.mp hAccept)).2
      exact hFits.trans hs.room
    cases origin with
    | proof blob =>
      refine .bind (.bind (asU32_returns hIdx) fun idx' => ?_) fun _ => .ok
      split
      · exact .ok
      · rename_i k hAllow
        refine .bind_ok (hs.solvent.deserialize_returns hAllow) fun read hRead => ?_
        refine validateDecoded_returns hSizes ?_ (fun _ => rfl) hLen
          (deserializeOrTrySlashSender_charged hRead)
        exact fun _ hSome => ⟨hSome, rfl⟩
    | batch blob =>
      dsimp only
      split
      · rename_i k hAllow
        refine .bind (.bind (asU32_returns hIdx) fun idx' => ?_) fun _ => .ok
        refine .bind_ok (hs.solvent.deserialize_returns hAllow) fun read hRead => ?_
        refine validateDecoded_returns hSizes ?_ (fun _ => rfl) hLen
          (deserializeOrTrySlashSender_charged hRead)
        exact fun _ hSome => ⟨hSome, rfl⟩
      · unfold selectUnregisteredBatch
        split
        · exact .ok
        · split
          · exact .ok
          · refine .bind .ok fun read => ?_
            obtain ⟨accounts, tx⟩ := read
            cases tx with
            | none | some => exact .ok

/-- The blobs of the current slot: they can all be looked at, and those accepted are in order. -/
theorem selectBlobsDaOrderingHelper_returns (hSizes : S.SizesFit)
    (hGood : ∀ v : ValidatedBlob S, (if terms.accountForDeferral then v.Storable else v.Ready) → good v)
    (hCount : items.length ≤ u32Max + 1) (hs : sel.Sound good) :
    Returns (sel.selectBlobsDaOrderingHelper terms items) := by
  refine bind (Returns.foldlM (fun state : Selection S × Nat => state.1.Sound good) ?_ ?_ hs)
    fun _ => ok
  · rintro ⟨mid, n⟩ ⟨origin, idx⟩ hMem hMid
    have hLt := (List.mem_zipIdx' hMem).1
    exact selectNext_returns hSizes hMid (by omega)
  · rintro ⟨mid, n⟩ ⟨origin, idx⟩ - ⟨next, n'⟩ hMid hStep
    exact (selectNext_effect hStep).sound (fun v hv => hGood v hv.inOrder) hMid

theorem selectBlobsDaOrderingHelper_sound
    (hGood : ∀ v : ValidatedBlob S, (if terms.accountForDeferral then v.Storable else v.Ready) → good v)
    (hs : sel.Sound good) (h : sel.selectBlobsDaOrderingHelper terms items = .ok sel') : sel'.Sound good :=
  selectBlobsDaOrderingHelper_suffix (fun _ => Sound good)
    (fun _ _ _ _ hMid hEffect => hEffect.sound (fun v hv => hGood v hv.inOrder) hMid) hs h

theorem retrieveBlob_returns (hs : sel.Sound good) (hv : v.Storable) (price : S.Price) :
    Returns (retrieveBlob price sel v) := by
  have hDefer := hv.deferrable
  unfold Deferrable at hDefer
  unfold retrieveBlob
  cases hEscrow : v.balanceStore with
  | derivedHolder holder =>
    have hEscr : v.Escrowed := by
      unfold Escrowed
      by_contra hEmerg
      rw [if_pos (by simpa using hEmerg), hEscrow] at hDefer
      cases hDefer
    refine .bind (hs.solvent.moveFunds_returns hv.countable hEscr holder price) fun moved => ?_
    obtain ⟨accounts, funds⟩ := moved
    cases funds with
    | none | some => exact .ok
  | direct amount =>
    rw [hEscrow] at hDefer
    split at hDefer
    · cases hDefer
    · obtain ⟨holder, hHolder⟩ := hDefer
      cases hHolder
  | none => exact .ok

theorem retrieveBlob_sound {price} (hs : sel.Sound Ready) (hv : v.Storable)
    (h : retrieveBlob price sel v = .ok sel') : sel'.Sound Ready :=
  (retrieveBlob_effect h).sound (fun _ hw => hw.2.2 hv.deferrable) hs

end Selection

def BlobStorage.AllStorable (b : BlobStorage S) : Prop :=
  ∀ t l, b.deferredBlobs t = some l → ∀ v ∈ l, v.Storable

theorem BlobStorage.AllStorable.getD (h : b.AllStorable) (t : Nat) : ∀ v ∈ (b.deferredBlobs t).getD [], v.Storable := by
  cases hEntry : b.deferredBlobs t with
  | none => simp
  | some l => exact h t l hEntry

theorem BlobStorage.AllStorable.storeBatches (h : b.AllStorable) {t l}
    (hl : ∀ v ∈ l, v.Storable) : (b.storeBatches t l).AllStorable := by
  unfold BlobStorage.storeBatches
  split
  · exact h
  · intro k l' hEntry
    by_cases hk : k = t
    · subst hk
      simp only [Function.update_self, some.injEq] at hEntry
      exact hEntry ▸ hl
    · simp only [Function.update_of_ne hk] at hEntry
      exact h k l' hEntry

theorem BlobStorage.AllStorable.takeBlobsForSlot (h : b.AllStorable) (t : Nat) :
    (b.takeBlobsForSlot t).1.AllStorable := by
  intro k l hEntry
  by_cases hk : k = t
  · subst hk
    simp [BlobStorage.takeBlobsForSlot] at hEntry
  · simp only [BlobStorage.takeBlobsForSlot, Function.update_of_ne hk] at hEntry
    exact h k l hEntry

structure Retrieval.Sound (r : Retrieval S) : Prop where
  storage : r.storage.AllStorable
  selection : r.selection.Sound Ready

namespace Retrieval
variable {price : S.Price} {r r' : Retrieval S}

theorem Sound.takeSlot_returns (hr : r.Sound) (slot : Nat) : Returns (r.takeSlot price slot) := by
  refine bind (Returns.foldlM (fun sel : Selection S => sel.Sound Ready) ?_ ?_ hr.selection) fun _ => ok
  · exact fun sel v hv hSel => retrieveBlob_returns hSel (hr.storage.getD slot v hv) price
  · exact fun sel v hv sel' hSel hStep =>
      retrieveBlob_sound hSel (hr.storage.getD slot v hv) hStep

theorem Sound.takeSlot {slot} (hr : r.Sound) (h : r.takeSlot price slot = .ok r') : r'.Sound := by
  simp only [Retrieval.takeSlot, bind_eq_ok, pure_eq_ok] at h
  obtain ⟨selection, hFold, rfl⟩ := h
  refine ⟨hr.storage.takeBlobsForSlot slot, ?_⟩
  have hYields : Yields (fun sel : Selection S => sel.Sound Ready) (fun _ => True)
      ((r.storage.takeBlobsForSlot slot).2.foldlM (retrieveBlob price) r.selection) :=
    .foldlM _ _ (fun sel v hv hSel => .intro
      (fun sel' hStep => retrieveBlob_sound hSel (hr.storage.getD slot v hv) hStep)
      (fun _ _ => trivial)) hr.selection
  exact hYields.of_ok hFold

end Retrieval

theorem retrieveStoredBlobs_returns {price} (hStore : storage.AllStorable)
    (hs : selection.Sound Ready) : Returns (retrieveStoredBlobs storage selection visible n price) :=
  .foldlM Retrieval.Sound (fun _ slot _ hr => hr.takeSlot_returns slot)
    (fun _ _ _ _ hr hStep => hr.takeSlot hStep) ⟨hStore, hs⟩

theorem retrieveStoredBlobs_sound {price r} (hStore : storage.AllStorable)
    (hs : selection.Sound Ready) (h : retrieveStoredBlobs storage selection visible n price = .ok r) :
    r.Sound :=
  foldlM_invariant Retrieval.Sound (fun _ _ _ hr hStep => hr.takeSlot hStep) ⟨hStore, hs⟩ h

theorem ValidatedBlob.Ready.returns (hv : v.Ready) : Returns v.intoSelectedBlob := by
  unfold Ready at hv
  unfold intoSelectedBlob
  split at hv
  · rename_i hEmerg
    rw [hv]
    rw [if_pos hEmerg]
    exact .ok
  · obtain ⟨amount, hAmount⟩ := hv
    rw [hAmount]
    exact .ok

namespace Selection
variable {price : S.Price} {sender : S.DaAddress} {address : S.Address} {sel sel' : Selection S}
  {blob : PreferredBlobDataWithId S}

theorem addPreferredBlob_returns {a} (hPref : sel.accounts.registry.preferredSequencer = some a) :
    Returns (addPreferredBlob price sender address sel blob) := by
  unfold addPreferredBlob
  dsimp only
  split
  · exact .ok
  · refine .bind ?_ fun validated => ?_
    · unfold validatePreferredBlob
      split
      · exact .ok
      · split
        · exact .ok
        · rw [escrowFundsForPreferredSequencer, hPref]
          refine .bind .ok fun paid => ?_
          split
          · exact .ok
          · exact .ok
    · split
      · exact .ok
      · exact .ok

theorem addPreferredBlob_sound (hs : sel.Sound Ready)
    (h : addPreferredBlob price sender address sel blob = .ok sel') :
    sel'.Sound Ready ∧
      sel'.accounts.registry.preferredSequencer = sel.accounts.registry.preferredSequencer := by
  have hEffect := addPreferredBlob_effect h
  refine ⟨hEffect.sound (fun v hv => ?_) hs, ?_⟩
  · unfold Ready
    rw [hv.2.1, show (intoBlobData blob address).isEmergencyRegistration = false by unfold intoBlobData; split <;> rfl]
    exact hv.2.2.1
  · cases hEffect with
    | discarded hDraws | accepted _ _ hDraws => exact hDraws.preferred
    | slashed hSlashes => exact hSlashes.elim

theorem addPreferredBlob_unpaid (hKnown : sel.accounts.known sender = none)
    (h : Gas.checkedValue S.maxTxCheckCosts price ≠ some 0 ∨
      sel.blobs.canAcceptBlob .preferred (intoBlobData blob address).blobSize = false) :
    ∃ reason, addPreferredBlob price sender address sel blob = .ok (sel.discard blob.id reason) := by
  unfold addPreferredBlob
  by_cases hAccept : sel.blobs.canAcceptBlob .preferred (intoBlobData blob address).blobSize = true
  · have hCost := h.resolve_right (by simp [hAccept])
    rw [if_neg (not_not.mpr hAccept), getSenderBalance, hKnown]
    refine ⟨.senderInsufficientStake, ?_⟩
    have hRefused : sel.accounts.validatePreferredBlob price (intoBlobData blob address) sender 0 =
        .ok (sel.accounts, none) := by
      unfold validatePreferredBlob
      split
      · rfl
      · rename_i funds hFunds
        have hPos : 0 < funds := Nat.pos_of_ne_zero fun hZero => hCost (hZero ▸ hFunds)
        exact if_pos hPos
    simp only [map_none, getD_none, hRefused]
    rfl
  · exact ⟨.outOfCapacity, if_pos hAccept⟩

variable {run : List (PreferredBlobDataWithId S)}

theorem addPreferredBlobs_returns (hs : sel.Sound Ready)
    (hPaid : (∃ a, sel.accounts.registry.preferredSequencer = some a) ∨
      sel.accounts.known sender = none ∧ ∀ b ∈ run, Gas.checkedValue S.maxTxCheckCosts price ≠ some 0 ∨
        sel.blobs.canAcceptBlob .preferred (intoBlobData b address).blobSize = false) :
    Returns (run.foldlM (addPreferredBlob price sender address) sel) := by
  rcases hPaid with ⟨a, hPref⟩ | ⟨hKnown, hUnpaid⟩
  · refine .foldlM (fun sel : Selection S => sel.Sound Ready ∧
      sel.accounts.registry.preferredSequencer = some a) ?_ ?_ ⟨hs, hPref⟩
    · exact fun mid b _ hMid => addPreferredBlob_returns hMid.2
    · rintro mid b - next ⟨hMid, hSame⟩ hStep
      obtain ⟨hNext, hKept⟩ := addPreferredBlob_sound hMid hStep
      exact ⟨hNext, hKept.trans hSame⟩
  · have hDiscards : ∀ (mid : Selection S), ∀ b ∈ run, mid.accounts = sel.accounts ∧ mid.blobs = sel.blobs →
        ∃ reason, addPreferredBlob price sender address mid b = .ok (mid.discard b.id reason) :=
      fun mid b hb hMid => addPreferredBlob_unpaid (hMid.1 ▸ hKnown) (hMid.2 ▸ hUnpaid b hb)
    refine .foldlM (fun mid : Selection S => mid.accounts = sel.accounts ∧ mid.blobs = sel.blobs) ?_ ?_ ⟨rfl, rfl⟩
    · intro mid b hb hMid
      obtain ⟨reason, hOk⟩ := hDiscards mid b hb hMid
      exact .of_eq hOk
    · intro mid b hb next hMid hStep
      obtain ⟨reason, hOk⟩ := hDiscards mid b hb hMid
      cases hOk.symm.trans hStep
      exact hMid

theorem addPreferredBlobs_sound (hs : sel.Sound Ready)
    (h : run.foldlM (addPreferredBlob price sender address) sel = .ok sel') : sel'.Sound Ready :=
  foldlM_invariant (fun sel : Selection S => sel.Sound Ready)
    (fun _ _ _ hMid hStep => (addPreferredBlob_sound hMid hStep).1) hs h

end Selection

theorem finishSelection_returns {sel increase stored taken} (hs : ∀ v ∈ sel.blobs.blobsWithAddress, v.Ready) :
    Returns (finishSelection storage sel increase stored taken) :=
  bind (Returns.mapM fun v hv => (hs v hv).returns) fun _ => ok

end SovereignSdk
