import SovereignSdk.BlobStorage.Selection
import SovereignSdk.SequencerRegistry.Status

/-! What one step of a selection does: it discards a blob, slashes the sender of a
malformed one, or accepts a blob whose funds have been set aside. -/
namespace SovereignSdk
open Bounded Outcome Accounts List ValidatedBlob BlobOrigin

variable {S : Spec} (v : ValidatedBlob S)

def ValidatedBlob.bond : Nat :=
  match v.balanceStore with
  | .direct amount => amount
  | _ => 0

/-- Funds have been set aside for every blob but an emergency registration. -/
def ValidatedBlob.Escrowed : Prop := v.blob.isEmergencyRegistration = false

/-- A blob that can be executed: its funds are in the bank account. -/
def ValidatedBlob.Ready : Prop :=
  if v.blob.isEmergencyRegistration then v.balanceStore = .none
  else ∃ amount, v.balanceStore = .direct amount

/-- A blob that can be stored: its funds are in an account of their own. -/
def ValidatedBlob.Deferrable : Prop :=
  if v.blob.isEmergencyRegistration then v.balanceStore = .none
  else ∃ holder, v.balanceStore = .derivedHolder holder

namespace BlobOrigin

def sender (origin : BlobOrigin S) : S.DaAddress := origin.get.sender

def malformed : BlobOrigin S → Bool
  | .batch blob => blob.asBatch.isNone
  | .proof blob => blob.asProof.isNone

def Decodes : BlobOrigin S → BlobData S → Prop
  | .batch blob, .batch txs id _ => blob.asBatch = some txs ∧ id = blob.hash
  | .batch blob, .emergencyRegistration tx id => blob.asTx = some tx ∧ id = blob.hash
  | .proof blob, .proof raw id _ => blob.asProof = some raw ∧ id = blob.hash
  | _, _ => False

variable {data : BlobData S}

theorem Decodes.not_malformed {origin : BlobOrigin S} (h : origin.Decodes data)
    (hEscr : data.isEmergencyRegistration = false) : origin.malformed = false := by
  cases origin <;> cases data <;> simp_all [Decodes, malformed, BlobData.isEmergencyRegistration]

theorem Decodes.id_eq {origin : BlobOrigin S} (h : origin.Decodes data) : data.id = origin.get.hash := by
  cases origin <;> cases data <;> simp_all [Decodes, BlobData.id, get]

end BlobOrigin

inductive Selection.Effect (id : Hash) (accepts : ValidatedBlob S → Prop) (slashes : S.DaAddress → Prop)
    (sel sel' : Selection S) : Prop where
  | discarded {paid : Nat} {reason : BlobDiscardReason}
      (hDraws : sel.accounts.Draws sel'.accounts paid)
      (hBlobs : sel'.blobs = sel.blobs)
      (hDiscarded : sel'.discarded = sel.discarded ++ [⟨id, reason⟩])
  | slashed {a : S.DaAddress} {s : Accounts S} {reason : BlobDiscardReason} (hSlashes : slashes a)
      (hDraws : sel.accounts.Draws s 0) (hAccounts : sel'.accounts = s.slashSequencer a)
      (hBlobs : sel'.blobs = sel.blobs)
      (hDiscarded : sel'.discarded = sel.discarded ++ [⟨id, reason⟩])
  | accepted {v : ValidatedBlob S} (hAccepts : accepts v) (hId : v.blob.id = id)
      (hDraws : sel.accounts.Draws sel'.accounts v.bond)
      (hBlobs : sel'.blobs.blobsWithAddress = sel.blobs.blobsWithAddress ++ [v])
      (hRoom : sel'.blobs.remainingNonPreferredSize ≤ sel.blobs.remainingNonPreferredSize)
      (hDiscarded : sel'.discarded = sel.discarded)

namespace Selection
variable {id : Hash} {accepts : ValidatedBlob S → Prop} {slashes : S.DaAddress → Prop}
  {sel sel' mid : Selection S} {s : Accounts S}

theorem discard_effect {paid} (reason : BlobDiscardReason) (hDraws : sel.accounts.Draws s paid) :
    Effect id accepts slashes sel ({ sel with accounts := s }.discard id reason) :=
  .discarded hDraws rfl rfl

theorem push_cases (sel : Selection S) (kind : SequencerType) (v : ValidatedBlob S) :
    (sel.push kind v).accounts = sel.accounts ∧
      ((sel.push kind v).blobs.blobsWithAddress = sel.blobs.blobsWithAddress ++ [v] ∧
          (sel.push kind v).blobs.remainingNonPreferredSize ≤ sel.blobs.remainingNonPreferredSize ∧
          (sel.push kind v).discarded = sel.discarded ∨
        (sel.push kind v).blobs = sel.blobs ∧
          (sel.push kind v).discarded = sel.discarded ++ [⟨v.blob.id, .outOfCapacity⟩]) := by
  have hCases := sel.blobs.pushOrIgnore_blobs kind v
  have hRoom := sel.blobs.pushOrIgnore_room kind v
  unfold push
  split
  · rename_i blobs hPush
    rw [hPush] at hCases hRoom
    rcases hCases with hAppend | hSame
    · exact ⟨rfl, .inl ⟨hAppend, hRoom, rfl⟩⟩
    · cases hSame
  · rename_i blobs hPush
    refine ⟨rfl, .inr ⟨?_, rfl⟩⟩
    unfold BlobsAccumulator.pushOrIgnore at hPush
    split at hPush
    · cases kind <;> cases hPush
    · cases hPush
      rfl

theorem push_effect {v} (kind : SequencerType) (hAccepts : accepts v)
    (hId : v.blob.id = id) (hDraws : sel.accounts.Draws s v.bond) :
    Effect id accepts slashes sel ({ sel with accounts := s }.push kind v) := by
  obtain ⟨hAccounts, ⟨hBlobs, hRoom, hDiscarded⟩ | ⟨hBlobs, hDiscarded⟩⟩ :=
    push_cases { sel with accounts := s } kind v
  · exact .accepted hAccepts hId (by rwa [hAccounts]) hBlobs hRoom hDiscarded
  · exact .discarded (by rwa [hAccounts]) hBlobs (hId ▸ hDiscarded)

end Selection

/-- What reading a blob does to the accounts and what it returns. -/
inductive Reading {β : Type} (sender : S.DaAddress) (decoded : Option β) (s s' : Accounts S) :
    Option β → Prop where
  | read {value : β} (hDraws : s.Draws s' 0) (hDecoded : decoded = some value) :
      Reading sender decoded s s' (some value)
  | refused (hDraws : s.Draws s' 0) : Reading sender decoded s s' none
  | slashed {mid : Accounts S} (hDraws : s.Draws mid 0) (hDecoded : decoded = none)
      (hAccounts : s' = mid.slashSequencer sender) : Reading sender decoded s s' none

namespace Accounts
variable {s s' : Accounts S}

theorem deserializeOrTrySlashSender_charged {β : Type} {blob : BlobTransaction S} {decoded result : Option β}
    {sequencer : KnownSequencer S} {price : S.Price}
    (h : s.deserializeOrTrySlashSender blob decoded (some (sequencer, price)) true = .ok (s', result)) :
    Reading blob.sender decoded s s' result := by
  unfold deserializeOrTrySlashSender at h
  dsimp only at h
  split at h
  · cases h
    exact .refused (.refl _)
  · split at h
    · cases h
      exact .refused (.refl _)
    · split at h
      · cases h
      · rename_i mid hRemove
        have hDraws := (removePartOfTheStake_ok hRemove).2
        cases decoded with
        | none =>
          cases h
          exact .slashed hDraws rfl rfl
        | some value =>
          cases h
          exact .read hDraws rfl

variable {available : Nat} {data : BlobData S} {sender : S.DaAddress}

theorem validateBlob_none {terms idx}
    (h : s.validateBlob terms idx data sender available = .ok (s', none)) : s.Draws s' 0 := by
  simp only [validateBlob, bind_eq_ok] at h
  obtain ⟨funds, -, h⟩ := h
  split at h
  · cases h
    exact .refl _
  · split at h
    · cases h
      exact .refl _
    · split at h
      · rename_i hRemove
        cases h
        exact removePartOfTheStake_error hRemove
      · cases h

theorem validateBlob_some {terms idx v} (h : s.validateBlob terms idx data sender available = .ok (s', some v)) :
    v.blob = data ∧ v.sender = sender ∧ s.Draws s' v.bond ∧
      if terms.accountForDeferral then ∃ holder, v.balanceStore = .derivedHolder holder
      else ∃ amount, v.balanceStore = .direct amount := by
  simp only [validateBlob, bind_eq_ok] at h
  obtain ⟨funds, -, h⟩ := h
  split at h
  · cases h
  · split at h
    · cases h
    · cases hDefer : terms.accountForDeferral with
      | true =>
        simp only [hDefer] at h
        split at h
        · cases h
        · rename_i hRemove
          cases h
          exact ⟨rfl, rfl, (removePartOfTheStake_ok hRemove).2, _, rfl⟩
      | false =>
        simp only [hDefer, Bool.false_eq_true] at h
        split at h
        · cases h
        · rename_i hRemove
          cases h
          exact ⟨rfl, rfl, (removePartOfTheStake_ok hRemove).2, _, rfl⟩

theorem isSenderAllowed_ok {k} (h : s.isSenderAllowed sender = .ok k) :
    s.known sender = some k ∧ s.statusOf sender = some (k.address, .active) := by
  unfold isSenderAllowed at h
  split at h
  · cases h
  · rename_i hKnown
    split at h
    · rename_i hActive
      cases h
      exact ⟨hKnown, by rw [statusOf_of_known hKnown, hActive]⟩
    · cases h

end Accounts

/-- What a blob of the current slot is accepted as. -/
structure Accepts (terms : BlockTerms S) (s : Accounts S) (origin : BlobOrigin S) (v : ValidatedBlob S) :
    Prop where
  sender : v.sender = origin.sender
  decodes : origin.Decodes v.blob
  escrow : if terms.accountForDeferral then v.Deferrable else v.Ready
  active : v.Escrowed → ∃ address, s.statusOf origin.sender = some (address, .active)

/-- When the sender of a blob of the current slot is slashed. -/
structure Slashes (s : Accounts S) (origin : BlobOrigin S) (a : S.DaAddress) : Prop where
  sender : a = origin.sender
  malformed : origin.malformed = true
  active : ∃ address, s.statusOf origin.sender = some (address, .active)

namespace Selection
variable {terms : BlockTerms S} {sel sel' : Selection S} {origin : BlobOrigin S} {idx n n' : Nat}

variable {blob : BlobTransaction S} {address : S.Address} {price : S.Price}

theorem validateDecoded_effect {β : Type} {decoded result : Option β} {data : β → BlobData S} {s : Accounts S}
    (hGet : origin.get = blob) (hActive : sel.accounts.statusOf origin.sender = some (address, .active))
    (hMalformed : decoded = none → origin.malformed = true)
    (hDec : ∀ value, decoded = some value → origin.Decodes (data value))
    (hEscr : ∀ value, (data value).isEmergencyRegistration = false)
    (hReading : Reading origin.sender decoded sel.accounts s result)
    (h : sel.validateDecoded terms idx blob (s, result.map data) = .ok sel') :
    Effect origin.get.hash (Accepts terms sel.accounts origin) (Slashes sel.accounts origin) sel sel' := by
  subst hGet
  cases hReading with
  | refused hDraws =>
    cases h
    exact discard_effect _ hDraws
  | slashed hDraws hDecoded hAccounts =>
    cases h
    exact .slashed ⟨rfl, hMalformed hDecoded, address, hActive⟩ hDraws hAccounts rfl rfl
  | @read value hDraws hDecoded =>
    simp only [validateDecoded, Option.map_some, bind_eq_ok] at h
    obtain ⟨⟨s', validated⟩, hValid, h⟩ := h
    cases validated with
    | none =>
      cases h
      exact discard_effect _ (hDraws.trans (validateBlob_none hValid))
    | some v =>
      cases h
      obtain ⟨hBlob, hSender, hDraws', hEscrow⟩ := validateBlob_some hValid
      have hNot : v.blob.isEmergencyRegistration = false := hBlob ▸ hEscr value
      have hDec' : origin.Decodes v.blob := hBlob ▸ hDec value hDecoded
      refine push_effect _ ⟨hSender, hDec', ?_, fun _ => ⟨address, hActive⟩⟩ hDec'.id_eq
        (by simpa using hDraws.trans hDraws')
      simpa [Deferrable, Ready, hNot] using hEscrow

theorem selectUnregisteredBatch_effect (h : sel.selectUnregisteredBatch n blob = .ok (sel', n')) :
    Effect blob.hash (Accepts terms sel.accounts (.batch blob)) (Slashes sel.accounts (.batch blob)) sel
      sel' := by
  unfold selectUnregisteredBatch at h
  split at h
  · cases h
    exact discard_effect _ (.refl _)
  · split at h
    · cases h
      exact discard_effect _ (.refl _)
    · cases hTx : blob.asTx with
      | none =>
        simp only [hTx] at h
        obtain ⟨rfl, -⟩ := h
        exact discard_effect _ (.refl _)
      | some tx =>
        simp only [hTx] at h
        obtain ⟨rfl, -⟩ := h
        refine push_effect _ ⟨rfl, ⟨hTx, rfl⟩, ?_, fun hEscr => ?_⟩ rfl (.refl _)
        · simp [Deferrable, Ready, BlobData.isEmergencyRegistration]
        · cases hEscr

/-- One blob of the current slot in DA order. -/
theorem selectNext_effect (h : selectNext terms (sel, n) (origin, idx) = .ok (sel', n')) :
    Effect origin.get.hash (Accepts terms sel.accounts origin) (Slashes sel.accounts origin) sel sel' := by
  unfold selectNext at h
  dsimp only at h
  split at h
  · cases h
    exact discard_effect _ (.refl _)
  · cases origin with
    | proof blob =>
      simp only [selectProof, bind_eq_ok, pure_eq_ok] at h
      obtain ⟨_, ⟨idx', -, h⟩, rfl, -⟩ := h
      split at h
      · cases h
        exact discard_effect _ (.refl _)
      · rename_i sequencer hAllow
        rw [bind_eq_ok] at h
        obtain ⟨⟨s, result⟩, hRead, h⟩ := h
        refine validateDecoded_effect rfl (isSenderAllowed_ok hAllow).2 ?_ ?_
          (fun _ => rfl) (deserializeOrTrySlashSender_charged hRead) h
        · intro hNone
          simp [malformed, hNone]
        · exact fun value hSome => ⟨hSome, rfl⟩
    | batch blob =>
      dsimp only at h
      split at h
      · rename_i sequencer hAllow
        simp only [selectRegisteredBatch, bind_eq_ok, pure_eq_ok] at h
        obtain ⟨_, ⟨idx', -, ⟨s, result⟩, hRead, h⟩, rfl, -⟩ := h
        refine validateDecoded_effect rfl (isSenderAllowed_ok hAllow).2 ?_ ?_
          (fun _ => rfl) (deserializeOrTrySlashSender_charged hRead) h
        · intro hNone
          simp [malformed, hNone]
        · exact fun value hSome => ⟨hSome, rfl⟩
      · exact selectUnregisteredBatch_effect h

/-- Loop rule for the blobs of the current slot, by induction on those still to be
looked at. -/
theorem selectBlobsDaOrderingHelper_suffix {items}
    (inv : List (BlobOrigin S) → Selection S → Prop)
    (hStep : ∀ origin rest mid next, inv (origin :: rest) mid → Effect origin.get.hash
      (Accepts terms mid.accounts origin) (Slashes mid.accounts origin) mid next → inv rest next)
    (hSel : inv items sel) (h : sel.selectBlobsDaOrderingHelper terms items = .ok sel') : inv [] sel' := by
  simp only [selectBlobsDaOrderingHelper, bind_eq_ok, pure_eq_ok] at h
  obtain ⟨⟨final, n⟩, hFold, rfl⟩ := h
  have hRun : ∀ idx m, (items.zipIdx idx).foldlM (selectNext terms) (sel, m) = .ok (final, n) → inv [] final := by
    clear hFold
    induction items generalizing sel with
    | nil =>
      rintro idx m ⟨⟩
      exact hSel
    | cons origin rest ih =>
      intro idx m hFold
      rw [zipIdx_cons, foldlM_cons, bind_eq_ok] at hFold
      obtain ⟨⟨next, m'⟩, hNext, hRest⟩ := hFold
      exact ih (hStep origin rest sel next hSel (selectNext_effect hNext)) _ m' hRest
  exact hRun 0 0 hFold

/-- A blob taken from storage: nobody is slashed, and what was set aside for it moves to the bank account. -/
theorem retrieveBlob_effect {v} (h : retrieveBlob price sel v = .ok sel') :
    Effect v.blob.id (fun w => w.blob = v.blob ∧ w.sender = v.sender ∧ (v.Deferrable → w.Ready))
      (fun _ => False) sel sel' := by
  unfold retrieveBlob at h
  split at h
  · rw [bind_eq_ok] at h
    obtain ⟨⟨s, funds⟩, hMove, h⟩ := h
    simp only [moveFundsFromEscrowToBank, bind_eq_ok] at hMove
    obtain ⟨recipient, -, checks, -, hMove⟩ := hMove
    split at hMove
    · simp only [bind_eq_ok, pure_eq_ok] at hMove
      obtain ⟨_, hRefund, rfl, rfl⟩ := hMove
      cases h
      exact discard_effect _ (refundAllReservedGas_draws hRefund)
    · rw [bind_eq_ok] at hMove
      obtain ⟨⟨s₁, paid⟩, hRetr, hMove⟩ := hMove
      have hDraws := retrieveFundsFromEscrow_draws hRetr
      cases paid with
      | ok u =>
        cases hMove
        cases h
        refine push_effect _ ⟨rfl, rfl, fun hDefer => ?_⟩ rfl hDraws
        simp_all [Deferrable, Ready]
      | error e =>
        simp only [bind_eq_ok, pure_eq_ok] at hMove
        obtain ⟨_, hRefund, rfl, rfl⟩ := hMove
        cases h
        exact discard_effect _ (hDraws.trans (refundAllReservedGas_draws hRefund))
  · cases h
  · rename_i hEscrow
    cases h
    refine push_effect _ ⟨rfl, rfl, fun hDefer => ?_⟩ rfl ?_
    · simp_all [Deferrable, Ready]
    · simp only [bond, hEscrow]
      exact .refl _

theorem addPreferredBlob_effect {sender blob} (h : addPreferredBlob price sender address sel blob = .ok sel') :
    Effect blob.id (fun v => v.sender = sender ∧ v.blob = intoBlobData blob address ∧
        (∃ amount, v.balanceStore = .direct amount) ∧
        ∃ a address, sel.accounts.registry.preferredSequencer = some a ∧
          sel.accounts.statusOf a = some (address, .active)) (fun _ => False) sel sel' := by
  unfold addPreferredBlob at h
  dsimp only at h
  split at h
  · cases h
    exact discard_effect _ (.refl _)
  · rw [bind_eq_ok] at h
    obtain ⟨⟨s, validated⟩, hValid, h⟩ := h
    unfold validatePreferredBlob at hValid
    split at hValid
    · cases hValid
      cases h
      exact discard_effect _ (.refl _)
    · split at hValid
      · cases hValid
        cases h
        exact discard_effect _ (.refl _)
      · simp only [escrowFundsForPreferredSequencer, bind_eq_ok, unwrap_eq_ok, pure_eq_ok] at hValid
        obtain ⟨⟨s₁, paid⟩, ⟨preferred, hPref, hRemove⟩, hValid⟩ := hValid
        cases paid with
        | error e =>
          cases hValid
          cases h
          exact discard_effect _ (removePartOfTheStake_error hRemove)
        | ok u =>
          cases hValid
          cases h
          obtain ⟨⟨address', hActive⟩, hDraws⟩ := removePartOfTheStake_ok hRemove
          refine push_effect _ ⟨rfl, rfl, ⟨_, rfl⟩, preferred, address', hPref, hActive⟩ ?_ hDraws
          unfold intoBlobData
          split <;> rfl

end Selection

def BlobOrigin.asPreferred : BlobOrigin S → Option (PreferredBlobDataWithId S)
  | .proof blob => blob.asPreferredProof.map fun raw => ⟨.proof raw, blob.hash⟩
  | .batch blob => blob.asPreferredBatch.map fun batch => ⟨.batch batch, blob.hash⟩

theorem readPreferredBlob_eq (s : Accounts S) (blobs : List (PreferredBlobDataWithId S)) (item : BlobOrigin S) :
    readPreferredBlob (s, blobs) item = .ok (if item.asPreferred.isSome then s else s.slashSequencer item.sender,
        blobs ++ item.asPreferred.toList) := by
  cases item with
  | proof blob =>
    cases hRead : blob.asPreferredProof <;>
      simp [readPreferredBlob, deserializeOrTrySlashSender, BlobOrigin.asPreferred, BlobOrigin.sender,
        BlobOrigin.get, hRead]
  | batch blob =>
    cases hRead : blob.asPreferredBatch <;>
      simp [readPreferredBlob, deserializeOrTrySlashSender, BlobOrigin.asPreferred, BlobOrigin.sender,
        BlobOrigin.get, hRead]

theorem Accounts.slashSequencer_idem (s : Accounts S) (a : S.DaAddress) :
    (s.slashSequencer a).slashSequencer a = s.slashSequencer a := by
  have hSet : (s.slashSequencer a).setSequencer a none = s.slashSequencer a := by
    unfold slashSequencer setSequencer
    dsimp only
    split <;> simp
  have hPref : (s.slashSequencer a).registry.preferredSequencer ≠ some a := by
    rw [preferredSequencer_slashSequencer]
    split
    · simp
    · assumption
  generalize s.slashSequencer a = slashed at hSet hPref ⊢
  unfold slashSequencer
  rw [hSet]
  exact if_neg hPref

variable (current : RelevantBlobs S) (sender : S.DaAddress)

def preferredBlobs : List (PreferredBlobDataWithId S) :=
  (preferredOrigins current sender).filterMap asPreferred

/-- Whether the preferred sequencer has sent only well-formed blobs in a slot. -/
def preferredWellFormed : Bool :=
  (preferredOrigins current sender).all fun item => item.asPreferred.isSome

theorem foldlM_readPreferredBlob {a : S.DaAddress} {items : List (BlobOrigin S)}
    (hSender : ∀ item ∈ items, item.sender = a) (s : Accounts S) (blobs : List (PreferredBlobDataWithId S)) :
    items.foldlM readPreferredBlob (s, blobs) =
      .ok (if items.all fun item => item.asPreferred.isSome then s else s.slashSequencer a,
        blobs ++ items.filterMap asPreferred) := by
  induction items generalizing s blobs with
  | nil => simp [pure, Except.pure]
  | cons item rest ih =>
    rw [foldlM_cons, readPreferredBlob_eq, ok_bind, hSender item (by simp),
      ih fun i hi => hSender i (mem_cons_of_mem item hi)]
    cases hItem : item.asPreferred with
    | none => simp [hItem, slashSequencer_idem]
    | some blob => simp [hItem]

theorem preferredOrigins_sender {current : RelevantBlobs S} {sender : S.DaAddress} :
    ∀ item ∈ preferredOrigins current sender, item.sender = sender := by
  intro item hItem
  simp only [preferredOrigins, mem_append, mem_map, mem_filter, decide_eq_true_eq] at hItem
  rcases hItem with ⟨blob, ⟨-, hSender⟩, rfl⟩ | ⟨blob, ⟨-, hSender⟩, rfl⟩
  · exact hSender
  · exact hSender

theorem readPreferredBlobs_eq (s : Accounts S) :
    (preferredOrigins current sender).foldlM readPreferredBlob (s, []) =
      .ok (if preferredWellFormed current sender then s else s.slashSequencer sender, preferredBlobs current sender) :=
  foldlM_readPreferredBlob preferredOrigins_sender s []

end SovereignSdk
