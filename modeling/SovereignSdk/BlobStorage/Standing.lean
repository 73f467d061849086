import SovereignSdk.BlobStorage.Senders

/-! What a selection sets aside for the blobs it hands over lies in the bank account. -/
namespace SovereignSdk
open Bounded Outcome Accounts Selection BlobsAccumulator ValidatedBlob

variable {S : Spec}

def bonds (l : List (ValidatedBlob S)) : Nat := (l.map bond).sum

def SelectedBlob.bond (b : SelectedBlob S) : Nat := b.reservedGasTokens.getD 0

theorem bonds_append (l l' : List (ValidatedBlob S)) : bonds (l ++ l') = bonds l + bonds l' := by
  simp [bonds]

theorem bonds_le_of_sublist {l l' : List (ValidatedBlob S)} (h : l.Sublist l') : bonds l ≤ bonds l' :=
  (h.map _).sum_le_sum (fun _ _ => Nat.zero_le _)

theorem intoSelectedBlob_bond {v : ValidatedBlob S} {b : SelectedBlob S} (h : v.intoSelectedBlob = .ok b) :
    b.bond = v.bond := by
  unfold intoSelectedBlob at h
  unfold bond
  cases hEscrow : v.balanceStore with
  | derivedHolder holder => simp [hEscrow] at h
  | direct amount =>
    simp only [hEscrow, Except.ok.injEq] at h
    rw [← h]
    rfl
  | none =>
    simp only [hEscrow] at h
    split at h
    · cases h
      rfl
    · cases h

theorem mapM_intoSelectedBlob_bonds {l : List (ValidatedBlob S)} {selected : List (SelectedBlob S)}
    (h : l.mapM intoSelectedBlob = .ok selected) : (selected.map SelectedBlob.bond).sum = bonds l := by
  induction l generalizing selected with
  | nil =>
    cases h
    rfl
  | cons v rest ih =>
    simp only [List.mapM_cons, bind_eq_ok, pure_eq_ok] at h
    obtain ⟨b, hb, bs, hbs, rfl⟩ := h
    simp only [bonds, List.map_cons, List.sum_cons, intoSelectedBlob_bond hb, ih hbs]

namespace Selection
variable {sel sel' : Selection S} {aside : Nat}

/-- The bank account covers the bonds of the selected blobs, and an amount set aside for
others. -/
structure Backed (aside : Nat) (sel : Selection S) : Prop where
  solvent : sel.accounts.Solvent
  covered : aside + bonds sel.blobs.blobsWithAddress ≤ sel.accounts.gasBalance bankAccount

theorem Effect.backed {id accepts slashes}
    (h : Effect id accepts slashes sel sel') (hSel : sel.Backed aside) : sel'.Backed aside := by
  have hCover := hSel.covered
  cases h with
  | discarded hDraws hBlobs _ =>
    refine ⟨hDraws.solvent hSel.solvent, ?_⟩
    rw [hBlobs, hDraws.bankAccount hSel.solvent]
    omega
  | slashed _ hDraws hAcc hBlobs _ =>
    have hBank := hDraws.bankAccount hSel.solvent
    rw [gasBalance] at hBank
    refine ⟨by rw [hAcc]; exact (hDraws.solvent hSel.solvent).slashSequencer _, ?_⟩
    rw [hBlobs, hAcc, gasBalance, bank_slashSequencer, hBank]
    exact hCover
  | accepted _ _ hDraws hBlobs _ _ =>
    refine ⟨hDraws.solvent hSel.solvent, ?_⟩
    rw [hBlobs, bonds_append, hDraws.bankAccount hSel.solvent]
    simp only [bonds, List.map_singleton, List.sum_singleton] at hCover ⊢
    omega

theorem Backed.setAside (hSel : sel.Backed aside) :
    ({ sel with blobs := .empty } : Selection S).Backed (aside + bonds sel.blobs.blobsWithAddress) :=
  ⟨hSel.solvent, by simpa [empty, bonds] using hSel.covered⟩

theorem Backed.mono {aside'} (hSel : sel.Backed aside)
    (hAcc : sel'.accounts = sel.accounts)
    (hLe : aside' + bonds sel'.blobs.blobsWithAddress ≤ aside + bonds sel.blobs.blobsWithAddress) :
    sel'.Backed aside' :=
  ⟨hAcc ▸ hSel.solvent, hAcc ▸ hLe.trans hSel.covered⟩

theorem selectBlobsDaOrderingHelper_backed {terms items}
    (hSel : sel.Backed aside) (h : sel.selectBlobsDaOrderingHelper terms items = .ok sel') : sel'.Backed aside :=
  selectBlobsDaOrderingHelper_suffix (fun _ => Backed aside) (fun _ _ _ _ hMid hEffect => hEffect.backed hMid) hSel h

end Selection

theorem retrieveStoredBlobs_backed {storage : BlobStorage S} {selection : Selection S} {visible n aside : Nat}
    {price : S.Price} {r : Retrieval S} (hSel : selection.Backed aside)
    (h : retrieveStoredBlobs storage selection visible n price = .ok r) : r.selection.Backed aside := by
  refine foldlM_invariant (fun r : Retrieval S => r.selection.Backed aside) (fun r slot r' hr hStep => ?_) hSel h
  simp only [Retrieval.takeSlot, bind_eq_ok, pure_eq_ok] at hStep
  obtain ⟨next, hFold, rfl⟩ := hStep
  exact foldlM_invariant (fun sel : Selection S => sel.Backed aside)
    (fun _ _ _ hSel hStep => (retrieveBlob_effect hStep).backed hSel) hr hFold

section
variable {chain : ChainState S} {accounts : Accounts S} {storage : BlobStorage S}
  {current : RelevantBlobs S} {out : SelectorOutput S}

theorem Selection.backed_start (hSolv : accounts.Solvent) (discarded : List DiscardedBlob) :
    Selection.Backed 0 ⟨accounts, .empty, discarded⟩ :=
  ⟨hSolv, by simp [empty, bonds]⟩

theorem PreferredTurn.backed (turn : PreferredTurn chain accounts storage current)
    (hSolv : accounts.Solvent) : turn.retrieval.selection.Backed 0 := by
  have hRead : turn.read.Solvent := by
    rw [turn.read_eq.1]
    split
    · exact hSolv
    · exact hSolv.slashSequencer turn.sender
  refine retrieveStoredBlobs_backed ?_ turn.retrieving
  exact foldlM_invariant (fun sel : Selection S => sel.Backed 0)
    (fun _ _ _ hSel hStep => (addPreferredBlob_effect hStep).backed hSel)
    (backed_start hRead turn.discarded) turn.adding

/-- What a selection leaves in the bank account pays back every bond. -/
def SelectorOutput.Backed (out : SelectorOutput S) : Prop :=
  out.accounts.Solvent ∧ (out.selectedBlobs.map SelectedBlob.bond).sum ≤ out.accounts.gasBalance bankAccount

theorem Selection.Backed.finish {final} {increase : Nat} {stored taken} (hFinal : final.Backed 0)
    (h : finishSelection storage final increase stored taken = .ok out) : out.Backed := by
  obtain ⟨hAcc, -, -, -, -, hSelected⟩ := finishSelection_ok h
  refine ⟨hAcc ▸ hFinal.solvent, ?_⟩
  rw [mapM_intoSelectedBlob_bonds hSelected, hAcc]
  simpa using hFinal.covered

theorem SelectionCase.backed (h : SelectionCase chain accounts storage current out)
    (hSolv : accounts.Solvent) : out.Backed := by
  have hStart := backed_start hSolv []
  cases h with
  | based _ hSelect hFin =>
    exact (selectBlobsDaOrderingHelper_backed hStart hSelect).finish hFin
  | @recoveryEnd sel r _ _ _ hSelect hRetr hFin =>
    obtain ⟨hAcc, hBlobs, -⟩ := sel.repush_spec
    have hSel := (selectBlobsDaOrderingHelper_backed hStart hSelect).mono hAcc
      (Nat.add_le_add_left (bonds_le_of_sublist hBlobs) 0)
    exact (retrieveStoredBlobs_backed hSel hRetr).finish hFin
  | recovery _ _ _ hSelect hRetr hFin =>
    have hSel := selectBlobsDaOrderingHelper_backed hStart hSelect
    have hFinal := retrieveStoredBlobs_backed hSel.setAside hRetr
    exact (hFinal.mono rfl (by omega)).finish hFin
  | caughtUp turn _ hSelect hFin =>
    exact (selectBlobsDaOrderingHelper_backed (turn.backed hSolv) hSelect).finish hFin
  | behind turn _ hSelect hFin =>
    have hDefer :=
      selectBlobsDaOrderingHelper_backed (turn.backed hSolv).setAside hSelect
    refine Selection.Backed.finish (hDefer.mono ?_ ?_) hFin
    · rfl
    · dsimp only
      omega

end


/-! When a selection leaves the senders of all blobs with an escrow registered: none of
them may send a malformed blob after a blob that has been accepted or deferred. And
the bank account holds what has been set aside for the selected blobs. -/
open BlobStorage List

def BlobStorage.Holds (storage : BlobStorage S) (v : ValidatedBlob S) : Prop :=
  ∃ t l, storage.deferredBlobs t = some l ∧ v ∈ l

/-- The malformed blobs of a slot that are charged to an active sender: that sender has
nothing in storage, and has sent nothing well-formed before. -/
structure Tidy (s : Accounts S) (storage : BlobStorage S) (items : List (BlobOrigin S)) : Prop where
  deferred : ∀ item ∈ items, item.malformed = true → s.IsActive item.sender →
    ∀ v, storage.Holds v → v.Escrowed → v.sender ≠ item.sender
  current : items.Pairwise fun first later => first.malformed = false → later.malformed = true →
    s.IsActive later.sender → first.sender ≠ later.sender

namespace Selection

/-- The senders of the selected blobs and of those held elsewhere are registered, and no
blob that is still to be looked at can change that. -/
structure Standing (s : Accounts S) (held : ValidatedBlob S → Prop) (rest : List (BlobOrigin S))
    (sel : Selection S) : Prop where
  fades : s.Fades sel.accounts
  registered : ∀ v, v ∈ sel.blobs.blobsWithAddress ∨ held v → v.Escrowed → sel.accounts.statusOf v.sender ≠ none
  undisturbed : ∀ v, v ∈ sel.blobs.blobsWithAddress ∨ held v → v.Escrowed →
    ∀ item ∈ rest, item.malformed = true → s.IsActive item.sender → v.sender ≠ item.sender

variable {s : Accounts S} {held : ValidatedBlob S → Prop} {rest : List (BlobOrigin S)}
  {sel sel' : Selection S}

/-- One step of a selection that slashes nobody who is still needed. -/
theorem Effect.standing {id accepts slashes}
    (h : Effect id accepts slashes sel sel') (hSel : sel.Standing s held rest)
    (hAccepts : ∀ v, accepts v → v.Escrowed → sel.accounts.statusOf v.sender ≠ none ∧
      ∀ item ∈ rest, item.malformed = true → s.IsActive item.sender → v.sender ≠ item.sender)
    (hSlashes : ∀ a, slashes a → ∀ v, v ∈ sel.blobs.blobsWithAddress ∨ held v → v.Escrowed →
      v.sender ≠ a) : sel'.Standing s held rest := by
  cases h with
  | discarded hDraws hBlobs _ =>
    refine ⟨hSel.fades.trans (.of_draws hDraws), ?_, ?_⟩
    · rw [hBlobs, hDraws.statusOf]
      exact hSel.registered
    · rw [hBlobs]
      exact hSel.undisturbed
  | @slashed a mid reason ha hDraws hAcc hBlobs _ =>
    refine ⟨hSel.fades.trans ?_, fun v hv hEscr => ?_, ?_⟩
    · rw [hAcc]
      exact (Fades.of_draws hDraws).trans (.slashSequencer mid a)
    · rw [hBlobs] at hv
      rw [hAcc, statusOf_slashSequencer, if_neg (hSlashes a ha v hv hEscr), hDraws.statusOf]
      exact hSel.registered v hv hEscr
    · rw [hBlobs]
      exact hSel.undisturbed
  | @accepted v hv _ hDraws hBlobs _ _ =>
    have hMem : ∀ w, w ∈ sel'.blobs.blobsWithAddress ∨ held w →
        (w ∈ sel.blobs.blobsWithAddress ∨ held w) ∨ w = v := fun w hw => by
      rw [hBlobs, mem_append, mem_singleton] at hw
      tauto
    refine ⟨hSel.fades.trans (.of_draws hDraws), fun w hw hEscr => ?_, fun w hw hEscr => ?_⟩
    · rw [hDraws.statusOf]
      rcases hMem w hw with hOld | rfl
      · exact hSel.registered w hOld hEscr
      · exact (hAccepts w hv hEscr).1
    · rcases hMem w hw with hOld | rfl
      · exact hSel.undisturbed w hOld hEscr
      · exact (hAccepts w hv hEscr).2

theorem Standing.tail {item} (h : sel.Standing s held (item :: rest)) : sel.Standing s held rest :=
  ⟨h.fades, h.registered, fun v hv hEscr i hi =>
    h.undisturbed v hv hEscr i (mem_cons_of_mem item hi)⟩

theorem selectBlobsDaOrderingHelper_standing {terms items}
    (hPairwise : items.Pairwise fun first later => first.malformed = false → later.malformed = true →
      s.IsActive later.sender → first.sender ≠ later.sender)
    (hSel : sel.Standing s held items) (h : sel.selectBlobsDaOrderingHelper terms items = .ok sel') :
    sel'.Standing s held [] := by
  refine (selectBlobsDaOrderingHelper_suffix (fun rest mid => rest.Pairwise _ ∧ mid.Standing s held rest)
    (fun item rest mid next hMid hEffect => ?_) ⟨hPairwise, hSel⟩ h).2
  obtain ⟨hPairwise, hSel⟩ := hMid
  obtain ⟨hHead, hTail⟩ := pairwise_cons.mp hPairwise
  refine ⟨hTail, hEffect.standing hSel.tail (fun v hv hEscr => ?_) (fun a ha v hv hEscr => ?_)⟩
  · refine ⟨?_, fun later hLater hMalformed hActive => ?_⟩
    · rw [hv.sender]
      exact Accounts.IsActive.ne_none (hv.active hEscr)
    · rw [hv.sender]
      exact hHead later hLater (hv.decodes.not_malformed hEscr) hMalformed hActive
  · rw [ha.sender]
    exact hSel.undisturbed v hv hEscr item (mem_cons_self ..) ha.malformed
      (hSel.fades.isActive ha.active)

theorem retrieveBlob_standing {price v} (hv : held v)
    (hSel : sel.Standing s held rest) (h : retrieveBlob price sel v = .ok sel') : sel'.Standing s held rest := by
  refine (retrieveBlob_effect h).standing hSel (fun w hw hEscr => ?_) (fun _ hFalse => hFalse.elim)
  have hv' : v.Escrowed := by rw [Escrowed, ← hw.1]; exact hEscr
  rw [hw.2.1]
  exact ⟨hSel.registered v (.inr hv) hv', hSel.undisturbed v (.inr hv) hv'⟩

theorem addPreferredBlob_standing {price sender address blob} (hPref : s.registry.preferredSequencer = some sender)
    (hOthers : ∀ item ∈ rest, item.sender ≠ sender) (hSel : sel.Standing s held rest)
    (h : addPreferredBlob price sender address sel blob = .ok sel') : sel'.Standing s held rest := by
  refine (addPreferredBlob_effect h).standing hSel (fun v hv _ => ?_) (fun _ hFalse => hFalse.elim)
  obtain ⟨hSender, -, -, a, address', hSome, hActive⟩ := hv
  have hEq : a = sender := Option.some.inj ((hSel.fades.preferred a hSome).symm.trans hPref)
  subst hEq
  rw [hSender]
  exact ⟨Accounts.IsActive.ne_none ⟨address', hActive⟩, fun item hItem _ _ => (hOthers item hItem).symm⟩

theorem Standing.mono {held'} (hSel : sel.Standing s held rest)
    (hAcc : sel'.accounts = sel.accounts)
    (hBlobs : ∀ v, v ∈ sel'.blobs.blobsWithAddress ∨ held' v → v ∈ sel.blobs.blobsWithAddress ∨ held v) :
    sel'.Standing s held' rest :=
  ⟨hAcc ▸ hSel.fades, fun v hv => hAcc ▸ hSel.registered v (hBlobs v hv), fun v hv => hSel.undisturbed v (hBlobs v hv)⟩

end Selection

theorem retrieveStoredBlobs_standing {s : Accounts S} {held : ValidatedBlob S → Prop}
    {rest : List (BlobOrigin S)} {storage : BlobStorage S} {selection : Selection S} {visible n : Nat}
    {price : S.Price} {r : Retrieval S} (hHeld : ∀ v, storage.Holds v → held v) (hSel : selection.Standing s held rest)
    (h : retrieveStoredBlobs storage selection visible n price = .ok r) :
    (∀ v, r.storage.Holds v → storage.Holds v) ∧ r.selection.Standing s held rest := by
  refine foldlM_invariant (fun r : Retrieval S => (∀ v, r.storage.Holds v → storage.Holds v) ∧
    r.selection.Standing s held rest) (fun r slot r' hr hStep => ?_) ⟨fun _ hv => hv, hSel⟩ h
  simp only [Retrieval.takeSlot, bind_eq_ok, pure_eq_ok] at hStep
  obtain ⟨next, hFold, rfl⟩ := hStep
  refine ⟨fun v hv => hr.1 v ?_, ?_⟩
  · obtain ⟨t, l, hEntry, hv⟩ := hv
    by_cases ht : t = slot
    · simp [takeBlobsForSlot, ht] at hEntry
    · exact ⟨t, l, by simpa [takeBlobsForSlot, ht] using hEntry, hv⟩
  · refine foldlM_keeps (fun sel : Selection S => sel.Standing s held rest) (fun sel v hv sel' hSel hStep =>
      retrieveBlob_standing (hHeld v (hr.1 v ?_)) hSel hStep) hr.2 hFold
    cases hEntry : r.storage.deferredBlobs slot with
    | none => simp [takeBlobsForSlot, hEntry] at hv
    | some l => exact ⟨slot, l, hEntry, by simpa [takeBlobsForSlot, hEntry] using hv⟩

theorem Selection.selectBlobsDaOrderingHelper_senders {terms : BlockTerms S} {items : List (BlobOrigin S)}
    {sel sel' : Selection S} (h : sel.selectBlobsDaOrderingHelper terms items = .ok sel') :
    ∀ v ∈ sel'.blobs.blobsWithAddress, v ∈ sel.blobs.blobsWithAddress ∨
      ∃ item ∈ items, v.sender = item.sender := by
  refine (selectBlobsDaOrderingHelper_suffix (fun rest mid => rest ⊆ items ∧ ∀ v ∈ mid.blobs.blobsWithAddress,
    v ∈ sel.blobs.blobsWithAddress ∨ ∃ item ∈ items, v.sender = item.sender) ?_
    ⟨List.Subset.refl _, fun v hv => .inl hv⟩ h).2
  rintro origin rest mid next ⟨hMem, hMid⟩ hEffect
  obtain ⟨hOrigin, hRest⟩ := cons_subset.mp hMem
  refine ⟨hRest, fun v hv => ?_⟩
  cases hEffect with
  | discarded _ hBlobs _ | slashed _ _ _ hBlobs _ => exact hMid v (hBlobs ▸ hv)
  | accepted hAccepts _ _ hBlobs _ _ =>
    rw [hBlobs, mem_append, mem_singleton] at hv
    rcases hv with hv | rfl
    · exact hMid v hv
    · exact .inr ⟨origin, hOrigin, hAccepts.sender⟩

/-- The blobs that a slot goes through in DA order: without a preferred sequencer all of
them. -/
def currentItems (s : Accounts S) (current : RelevantBlobs S) : List (BlobOrigin S) :=
  match if S.deferredSlotsCount = 0 then none else s.getPreferredSequencer with
  | some (sender, _) => nonPreferredOrigins current sender
  | none => current.batchBlobs.map .batch ++ current.proofBlobs.map .proof

/-- The senders of the deferred blobs with an escrow are registered, and none of them is
the preferred sequencer. -/
def BlobStorage.Registered (storage : BlobStorage S) (s : Accounts S) : Prop :=
  ∀ v, storage.Holds v → v.Escrowed → s.statusOf v.sender ≠ none ∧ s.registry.preferredSequencer ≠ some v.sender

theorem BlobStorage.holds_storeBatches {storage : BlobStorage S} {slot : Nat} {l : List (ValidatedBlob S)}
    {v : ValidatedBlob S} (h : (storage.storeBatches slot l).Holds v) : v ∈ l ∨ storage.Holds v := by
  obtain ⟨t, l', hEntry, hv⟩ := h
  rw [storeBatches_deferred] at hEntry
  split at hEntry
  · cases hEntry
    exact .inl hv
  · exact .inr ⟨t, l', hEntry, hv⟩

/-- What is known of the senders of the blobs with an escrow after a tidy slot. -/
structure SelectorOutput.Standing (out : SelectorOutput S) : Prop where
  selected : ∀ b ∈ out.selectedBlobs, b.blobData.isEmergencyRegistration = false → out.accounts.statusOf b.sender ≠ none
  deferred : out.storage.Registered out.accounts

section
variable {chain : ChainState S} {accounts : Accounts S} {storage : BlobStorage S}
  {current : RelevantBlobs S} {out : SelectorOutput S}

theorem Selection.standing_start {items} (hTidy : Tidy accounts storage items)
    (hHeld : storage.Registered accounts) (discarded : List DiscardedBlob) :
    Selection.Standing accounts storage.Holds items ⟨accounts, .empty, discarded⟩ := by
  refine ⟨.refl _, fun v hv hEscr => ?_, fun v hv hEscr item hItem hMalformed hActive => ?_⟩
  · obtain hv | hv := hv
    · cases hv
    · exact (hHeld v hv hEscr).1
  · obtain hv | hv := hv
    · cases hv
    · exact hTidy.deferred item hItem hMalformed hActive v hv hEscr

theorem Selection.Standing.finish {final kept held increase stored taken} (hFinal : final.Standing accounts held [])
    (hKept : ∀ v, kept.Holds v → v ∈ final.blobs.blobsWithAddress ∨ held v)
    (hPref : ∀ v, kept.Holds v → v.Escrowed → accounts.registry.preferredSequencer ≠ some v.sender)
    (h : finishSelection kept final increase stored taken = .ok out) : out.Standing := by
  obtain ⟨hAcc, hStore, -, -, -, hSelected⟩ := finishSelection_ok h
  refine ⟨fun b hb hEscr => ?_, fun v hv hEscr => ?_⟩
  · obtain ⟨v, hv, hBlob, hSender⟩ := exists_of_mem_selected hSelected hb
    rw [hAcc, ← hSender]
    exact hFinal.registered v (.inl hv) (by rw [Escrowed, hBlob]; exact hEscr)
  · rw [hStore] at hv
    rw [hAcc]
    refine ⟨hFinal.registered v (hKept v hv) hEscr, fun hSome => ?_⟩
    exact hPref v hv hEscr (hFinal.fades.preferred _ hSome)

theorem preferredSequencer_ne (hNone : accounts.getPreferredSequencer = none) {a}
    (hKnown : accounts.statusOf a ≠ none) : accounts.registry.preferredSequencer ≠ some a := by
  intro hSome
  cases hSequencer : accounts.known a with
  | none => exact hKnown (statusOf_eq_none.mpr hSequencer)
  | some k => simp [getPreferredSequencer, hSome, hSequencer] at hNone

theorem nonPreferredOrigins_sender {sender} : ∀ item ∈ nonPreferredOrigins current sender, item.sender ≠ sender := by
  intro item hItem
  simp only [nonPreferredOrigins, mem_append, mem_map, mem_filter, decide_eq_true_eq] at hItem
  rcases hItem with ⟨blob, ⟨-, hSender⟩, rfl⟩ | ⟨blob, ⟨-, hSender⟩, rfl⟩
  · exact hSender
  · exact hSender

variable (turn : PreferredTurn chain accounts storage current)

theorem PreferredTurn.currentItems_eq : currentItems accounts current = nonPreferredOrigins current turn.sender := by
  simp only [currentItems, if_neg turn.count_ne, turn.isPreferred]

theorem PreferredTurn.standing
    (hTidy : Tidy accounts storage (currentItems accounts current)) (hHeld : storage.Registered accounts) :
    (∀ v, turn.retrieval.storage.Holds v → storage.Holds v) ∧
      turn.retrieval.selection.Standing accounts storage.Holds (nonPreferredOrigins current turn.sender) := by
  have hPref := getPreferredSequencer_some turn.isPreferred
  rw [turn.currentItems_eq] at hTidy
  have hRead : Selection.Standing accounts storage.Holds (nonPreferredOrigins current turn.sender)
      ⟨turn.read, .empty, turn.discarded⟩ := by
    have hStart := standing_start hTidy hHeld turn.discarded
    rw [turn.read_eq.1]
    split
    · exact hStart
    · refine ⟨.slashSequencer _ _, fun v hv hEscr => ?_, hStart.undisturbed⟩
      -- only the preferred sequencer is slashed, and none of its blobs is in storage
      have hNot : v.sender ≠ turn.sender := by
        rintro hEq
        obtain hv | hv := hv
        · cases hv
        · exact (hHeld v hv hEscr).2 (hEq ▸ hPref)
      rw [statusOf_slashSequencer, if_neg hNot]
      exact hStart.registered v hv hEscr
  have hAdded := foldlM_invariant
    (fun sel : Selection S => sel.Standing accounts storage.Holds (nonPreferredOrigins current turn.sender))
    (fun _ _ _ => addPreferredBlob_standing hPref nonPreferredOrigins_sender) hRead turn.adding
  have hSame : ∀ v, ({ storage with preferred := turn.preferred } : BlobStorage S).Holds v → storage.Holds v :=
    fun _ hv => hv
  obtain ⟨hLeft, hFinal⟩ := retrieveStoredBlobs_standing hSame hAdded turn.retrieving
  exact ⟨fun v hv => hSame v (hLeft v hv), hFinal⟩

theorem SelectionCase.standing (h : SelectionCase chain accounts storage current out)
    (hTidy : Tidy accounts storage (currentItems accounts current)) (hHeld : storage.Registered accounts) :
    out.Standing := by
  have hOld : ∀ v, storage.Holds v → v.Escrowed → accounts.registry.preferredSequencer ≠ some v.sender :=
    fun v hv hEscr => (hHeld v hv hEscr).2
  cases h with
  | based hCount hSelect hFin =>
    rw [currentItems, if_pos hCount] at hTidy
    have hSel := selectBlobsDaOrderingHelper_standing hTidy.current
      (standing_start hTidy hHeld []) hSelect
    exact hSel.finish (fun _ hv => .inr hv) hOld hFin
  | @recoveryEnd sel r hCount hNone _ hSelect hRetr hFin =>
    rw [currentItems, if_neg hCount, hNone] at hTidy
    have hSel := selectBlobsDaOrderingHelper_standing hTidy.current
      (standing_start hTidy hHeld []) hSelect
    obtain ⟨hAcc, hBlobs, -⟩ := sel.repush_spec
    have hRepush := hSel.mono hAcc fun _ hv => hv.imp_left fun hv => hBlobs.subset hv
    obtain ⟨hLeft, hFinal⟩ := retrieveStoredBlobs_standing (fun _ hv => hv) hRepush hRetr
    exact hFinal.finish (fun v hv => .inr (hLeft v hv)) (fun v hv => hOld v (hLeft v hv)) hFin
  | @recovery sel r hCount hNone _ hSelect hRetr hFin =>
    rw [currentItems, if_neg hCount, hNone] at hTidy
    have hStart := standing_start hTidy hHeld []
    have hSel := selectBlobsDaOrderingHelper_standing hTidy.current hStart hSelect
    have hClear : ({ sel with blobs := .empty } : Selection S).Standing accounts
        (fun v => v ∈ sel.blobs.blobsWithAddress ∨ storage.Holds v) [] := by
      refine hSel.mono rfl fun v hv => ?_
      obtain hv | hv := hv
      · cases hv
      · exact hv
    obtain ⟨hLeft, hFinal⟩ := retrieveStoredBlobs_standing
      (fun v hv => holds_storeBatches hv) hClear hRetr
    refine hFinal.finish (fun v hv => .inr (holds_storeBatches (hLeft v hv))) (fun v hv hEscr => ?_) hFin
    refine preferredSequencer_ne hNone ?_
    obtain hv | hv := holds_storeBatches (hLeft v hv)
    · have hVetted := selectBlobsDaOrderingHelper_vetted
        (vetted_start (.refl accounts) []) hSelect
      obtain hActive | hMem := hVetted.blobs v hv hEscr
      · exact hActive.ne_none
      · cases hMem
    · exact (hHeld v hv hEscr).1
  | caughtUp turn _ hSelect hFin =>
    obtain ⟨hLeft, hTurn⟩ := turn.standing hTidy hHeld
    rw [turn.currentItems_eq] at hTidy
    have hFinal := selectBlobsDaOrderingHelper_standing hTidy.current hTurn hSelect
    exact hFinal.finish (fun v hv => .inr (hLeft v hv)) (fun v hv => hOld v (hLeft v hv)) hFin
  | @behind deferral turn _ hSelect hFin =>
    obtain ⟨hLeft, hTurn⟩ := turn.standing hTidy hHeld
    rw [turn.currentItems_eq] at hTidy
    have hClear : ({ turn.retrieval.selection with blobs := .empty } : Selection S).Standing accounts
        (fun v => v ∈ turn.retrieval.selection.blobs.blobsWithAddress ∨ storage.Holds v)
        (nonPreferredOrigins current turn.sender) := by
      refine hTurn.mono rfl fun v hv => ?_
      obtain hv | hv := hv
      · cases hv
      · exact hv
    have hDefer := selectBlobsDaOrderingHelper_standing hTidy.current hClear hSelect
    have hFinal : ({ deferral with blobs := turn.retrieval.selection.blobs } : Selection S).Standing accounts
        (fun v => v ∈ deferral.blobs.blobsWithAddress ∨ storage.Holds v) [] :=
      hDefer.mono rfl fun v hv => by
        tauto
    refine hFinal.finish (fun v hv => .inr ?_) (fun v hv hEscr => ?_) hFin
    · exact (holds_storeBatches hv).imp_right (hLeft v)
    · obtain hv | hv := holds_storeBatches hv
      · obtain hv | ⟨item, hItem, hSender⟩ := selectBlobsDaOrderingHelper_senders hSelect v hv
        · cases hv
        · rw [getPreferredSequencer_some turn.isPreferred, hSender]
          exact fun hEq => nonPreferredOrigins_sender item hItem (Option.some.inj hEq).symm
      · exact hOld v (hLeft v hv) hEscr

end

end SovereignSdk
