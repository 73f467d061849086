import SovereignSdk.BlobStorage.Deferral
import SovereignSdk.BlobStorage.Handover

/-! The senders of the blobs that a selection hands over or stores. A selection
deletes registrations, but changes none in any other way. -/
namespace SovereignSdk
open Bounded Outcome Accounts Selection Option BlobsAccumulator ValidatedBlob

variable {S : Spec}

def Accounts.IsActive (s : Accounts S) (a : S.DaAddress) : Prop :=
  ∃ address, s.statusOf a = some (address, .active)

variable {a : S.DaAddress} {price : S.Price} {r : Retrieval S} {s : Accounts S}

theorem Accounts.IsActive.ne_none (h : s.IsActive a) : s.statusOf a ≠ none := by
  obtain ⟨address, h⟩ := h
  simp [h]

/-- Some registrations have been deleted, and the others are as they were. -/
structure Accounts.Fades (s s' : Accounts S) : Prop where
  statusOf : ∀ a, s'.statusOf a = s.statusOf a ∨ s'.statusOf a = none
  preferred : ∀ a, s'.registry.preferredSequencer = some a → s.registry.preferredSequencer = some a

namespace Accounts.Fades
variable {s s' s'' : Accounts S}

theorem refl (s : Accounts S) : Fades s s := ⟨fun _ => Or.inl rfl, fun _ h => h⟩

theorem trans (h : Fades s s') (h' : Fades s' s'') : Fades s s'' where
  statusOf := fun a => by
    rcases h'.statusOf a with hSame | hNone
    · rw [hSame]
      exact h.statusOf a
    · exact .inr hNone
  preferred := fun a hSome => h.preferred a (h'.preferred a hSome)

theorem of_draws {paid} (h : Draws s s' paid) : Fades s s' :=
  ⟨fun a => .inl (congrFun h.statusOf a), fun _ hSome => h.preferred ▸ hSome⟩

theorem slashSequencer (s : Accounts S) (a : S.DaAddress) : Fades s (s.slashSequencer a) where
  statusOf := fun c => by
    rw [statusOf_slashSequencer]
    split
    · exact .inr rfl
    · exact .inl rfl
  preferred := fun c hSome => by
    rw [preferredSequencer_slashSequencer] at hSome
    split at hSome
    · cases hSome
    · exact hSome

variable {a : S.DaAddress}

theorem statusOf_eq (h : Fades s s') {status} (hSome : s'.statusOf a = some status) : s.statusOf a = some status := by
  rcases h.statusOf a with hSame | hNone
  · exact hSame ▸ hSome
  · rw [hNone] at hSome
    cases hSome

theorem isActive (h : Fades s s') (hActive : s'.IsActive a) : s.IsActive a :=
  hActive.imp fun _ => h.statusOf_eq

end Accounts.Fades

theorem Accounts.getPreferredSequencer_some {address}
    (h : s.getPreferredSequencer = some (a, address)) : s.registry.preferredSequencer = some a := by
  unfold getPreferredSequencer at h
  cases hPref : s.registry.preferredSequencer with
  | none => simp [hPref] at h
  | some c =>
    cases hKnown : s.known c with
    | none => simp [hPref, hKnown] at h
    | some k =>
      simp only [hPref, hKnown, bind_eq_bind, bind_some, pure_def, some.injEq, Prod.mk.injEq] at h
      rw [h.1]

/-- A blob without escrow, of a sequencer active in the given accounts, or one of those
taken from storage. -/
def ValidatedBlob.Vetted (s : Accounts S) (taken : List (ValidatedBlob S)) (v : ValidatedBlob S) : Prop :=
  v.Escrowed → s.IsActive v.sender ∨ v.content ∈ taken.map content

theorem ValidatedBlob.Vetted.mono {taken taken' : List (ValidatedBlob S)}
    {v : ValidatedBlob S} (hTaken : taken ⊆ taken') (h : v.Vetted s taken) : v.Vetted s taken' :=
  fun hEscr => (h hEscr).imp_right fun hMem => List.map_subset _ hTaken hMem

namespace Selection

structure Vetted (s : Accounts S) (taken : List (ValidatedBlob S)) (sel : Selection S) : Prop where
  fades : s.Fades sel.accounts
  blobs : ∀ v ∈ sel.blobs.blobsWithAddress, v.Vetted s taken

variable {s : Accounts S} {taken : List (ValidatedBlob S)} {sel sel' : Selection S}

theorem Vetted.mono {taken' : List (ValidatedBlob S)} (hTaken : taken ⊆ taken') (h : sel.Vetted s taken) :
    sel.Vetted s taken' :=
  ⟨h.fades, fun v hv => (h.blobs v hv).mono hTaken⟩

theorem Effect.vetted {id accepts slashes}
    (h : Effect id accepts slashes sel sel') (hSel : sel.Vetted s taken)
    (hAccepts : ∀ v, accepts v → v.Vetted sel.accounts taken) : sel'.Vetted s taken := by
  cases h with
  | discarded hDraws hBlobs _ =>
    exact ⟨hSel.fades.trans (.of_draws hDraws), fun v hv => hSel.blobs v (hBlobs ▸ hv)⟩
  | @slashed a mid reason _ hDraws hAcc hBlobs _ =>
    refine ⟨hSel.fades.trans ?_, fun v hv => hSel.blobs v (hBlobs ▸ hv)⟩
    rw [hAcc]
    exact (Fades.of_draws hDraws).trans (.slashSequencer mid a)
  | @accepted v hv _ hDraws hBlobs _ _ =>
    refine ⟨hSel.fades.trans (.of_draws hDraws), fun w hw => ?_⟩
    rw [hBlobs, List.mem_append, List.mem_singleton] at hw
    rcases hw with hw | rfl
    · exact hSel.blobs w hw
    · exact fun hEscr => (hAccepts w hv hEscr).imp_left hSel.fades.isActive

theorem selectBlobsDaOrderingHelper_vetted {terms items}
    (hSel : sel.Vetted s taken) (h : sel.selectBlobsDaOrderingHelper terms items = .ok sel') : sel'.Vetted s taken := by
  refine selectBlobsDaOrderingHelper_suffix (fun _ => Vetted s taken) (fun origin _ mid next hMid hEffect => ?_) hSel h
  refine hEffect.vetted hMid fun v hv hEscr => .inl ?_
  rw [hv.sender]
  exact hv.active hEscr

variable {price : S.Price}

theorem Vetted.clear (hSel : sel.Vetted s taken) : { sel with blobs := .empty }.Vetted s taken :=
  ⟨hSel.fades, fun v hv => by simp [empty] at hv⟩

theorem Vetted.repush (hSel : sel.Vetted s taken) : sel.repush.Vetted s taken := by
  obtain ⟨hAcc, hBlobs, -⟩ := repush_spec sel
  exact ⟨hAcc ▸ hSel.fades, fun v hv => hSel.blobs v (hBlobs.subset hv)⟩

theorem addPreferredBlob_vetted {sender address blob}
    (hPref : s.registry.preferredSequencer = some sender) (hSel : sel.Vetted s taken)
    (h : addPreferredBlob price sender address sel blob = .ok sel') : sel'.Vetted s taken := by
  refine (addPreferredBlob_effect h).vetted hSel fun v hv _ => .inl ?_
  obtain ⟨hSender, -, -, a, address', hSome, hActive⟩ := hv
  have hEq : a = sender := some.inj ((hSel.fades.preferred a hSome).symm.trans hPref)
  rw [hSender, ← hEq]
  exact ⟨address', hActive⟩

end Selection

theorem Retrieval.takeSlot_vetted {r' slot}
    (hr : r.selection.Vetted s (r.taken.flatMap (·.2))) (h : r.takeSlot price slot = .ok r') :
    r'.selection.Vetted s (r'.taken.flatMap (·.2)) := by
  simp only [Retrieval.takeSlot, bind_eq_ok, pure_eq_ok] at h
  obtain ⟨selection, hFold, rfl⟩ := h
  refine foldlM_keeps (fun sel : Selection S => sel.Vetted s _) (fun sel v hv sel' hSel hStep => ?_) (hr.mono ?_) hFold
  · refine (retrieveBlob_effect hStep).vetted hSel fun w hw _ => .inr ?_
    exact List.mem_map.mpr ⟨v, by simp [hv], Prod.ext hw.1.symm hw.2.1.symm⟩
  · simp

theorem retrieveStoredBlobs_vetted {storage selection visible n} (hSel : selection.Vetted s [])
    (h : retrieveStoredBlobs storage selection visible n price = .ok r) :
    r.selection.Vetted s (r.taken.flatMap (·.2)) := by
  refine foldlM_invariant (fun r : Retrieval S => r.selection.Vetted s (r.taken.flatMap (·.2)))
    (fun _ _ _ hr hStep => Retrieval.takeSlot_vetted hr hStep) ?_ h
  exact hSel

section
variable {chain : ChainState S} {accounts : Accounts S} {storage : BlobStorage S}
  {current : RelevantBlobs S} {out : SelectorOutput S}

theorem Selection.vetted_start {s} (hFades : accounts.Fades s) (discarded : List DiscardedBlob) :
    Selection.Vetted accounts [] ⟨s, .empty, discarded⟩ :=
  ⟨hFades, fun v hv => by simp [empty] at hv⟩

theorem PreferredTurn.vetted (turn : PreferredTurn chain accounts storage current) :
    turn.retrieval.selection.Vetted accounts (turn.retrieval.taken.flatMap (·.2)) := by
  have hPref := getPreferredSequencer_some turn.isPreferred
  have hRead : accounts.Fades turn.read := by
    rw [turn.read_eq.1]
    split
    · exact .refl _
    · exact .slashSequencer _ _
  refine retrieveStoredBlobs_vetted ?_ turn.retrieving
  exact foldlM_invariant (fun sel : Selection S => sel.Vetted accounts []) (fun _ _ _ => addPreferredBlob_vetted hPref)
    (vetted_start hRead turn.discarded) turn.adding

/-- What is known of the senders when a selection returns: no registration has changed
unless it has been deleted, and every blob with an escrow is of a sender that was
active when the slot started, or comes from storage. -/
structure SelectorOutput.Vetted (accounts : Accounts S) (out : SelectorOutput S) : Prop where
  fades : accounts.Fades out.accounts
  selected : ∀ b ∈ out.selectedBlobs, b.blobData.isEmergencyRegistration = false →
    accounts.IsActive b.sender ∨ b.content ∈ (out.taken.flatMap (·.2)).map content
  stored : ∀ v ∈ out.stored, v.Escrowed → accounts.IsActive v.sender

theorem Selection.Vetted.finish {final increase stored taken} (hFinal : final.Vetted accounts (taken.flatMap (·.2)))
    (hStored : ∀ v ∈ stored, v.Vetted accounts [])
    (h : finishSelection storage final increase stored taken = .ok out) : out.Vetted accounts := by
  obtain ⟨hAcc, -, -, hOut, hTaken, hSelected⟩ := finishSelection_ok h
  refine ⟨hAcc ▸ hFinal.fades, fun b hb hEscr => ?_, fun v hv hEscr => ?_⟩
  · obtain ⟨v, hv, hBlob, hSender⟩ := exists_of_mem_selected hSelected hb
    have hVetted := hFinal.blobs v hv (by rw [Escrowed, hBlob]; exact hEscr)
    rw [hTaken, ← hSender, show b.content = v.content from Prod.ext hBlob.symm hSender.symm]
    exact hVetted
  · rw [hOut] at hv
    rcases hStored v hv hEscr with hActive | hMem
    · exact hActive
    · simp at hMem

theorem SelectionCase.vetted (h : SelectionCase chain accounts storage current out) : out.Vetted accounts := by
  have hStart := vetted_start (.refl accounts) []
  cases h with
  | based _ hSelect hFin =>
    exact (selectBlobsDaOrderingHelper_vetted hStart hSelect).finish (by simp) hFin
  | recoveryEnd _ _ _ hSelect hRetr hFin =>
    have hSel := selectBlobsDaOrderingHelper_vetted hStart hSelect
    exact (retrieveStoredBlobs_vetted hSel.repush hRetr).finish (by simp) hFin
  | recovery _ _ _ hSelect hRetr hFin =>
    have hSel := selectBlobsDaOrderingHelper_vetted hStart hSelect
    exact (retrieveStoredBlobs_vetted hSel.clear hRetr).finish hSel.blobs hFin
  | caughtUp turn _ hSelect hFin =>
    exact (selectBlobsDaOrderingHelper_vetted turn.vetted hSelect).finish (by simp) hFin
  | behind turn _ hSelect hFin =>
    have hTurn := turn.vetted
    have hDefer := selectBlobsDaOrderingHelper_vetted
      (vetted_start hTurn.fades _) hSelect
    refine Selection.Vetted.finish ⟨?_, ?_⟩ hDefer.blobs hFin
    · exact hDefer.fades
    · exact hTurn.blobs

end

end SovereignSdk
