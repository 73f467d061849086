import SovereignSdk.BlobStorage.Effects
import SovereignSdk.BlobStorage.SelectionCases

/-! What becomes of the blobs taken from storage: each is selected, once and in
order, or discarded with a receipt. -/
namespace SovereignSdk
open Bounded Outcome ValidatedBlob List List.Subset Selection

variable {S : Spec}

variable {storage : BlobStorage S} {out : SelectorOutput S}

variable {chain : ChainState S} {accounts : Accounts S} {current : RelevantBlobs S} {price : S.Price}
variable {r : Retrieval S} {b : SelectedBlob S} {l stored : List (ValidatedBlob S)}
variable {selected : List (SelectedBlob S)} {increase : Nat} {taken : List (Nat × List (ValidatedBlob S))}

theorem PreferredTurn.read_eq (turn : PreferredTurn chain accounts storage current) :
    turn.read = (if preferredWellFormed current turn.sender then accounts
        else accounts.slashSequencer turn.sender) ∧
      turn.wellFormed = preferredBlobs current turn.sender :=
  Prod.mk.inj (Except.ok.inj (turn.reading.symm.trans (readPreferredBlobs_eq current turn.sender accounts)))

theorem Selection.foldl_push (kind : SequencerType) (l : List (ValidatedBlob S)) (sel : Selection S) :
    (l.foldl (fun sel v => sel.push kind v) sel).accounts = sel.accounts ∧
      (∃ kept, (l.foldl (fun sel v => sel.push kind v) sel).blobs.blobsWithAddress =
        sel.blobs.blobsWithAddress ++ kept ∧ kept.Sublist l) ∧
      (l.foldl (fun sel v => sel.push kind v) sel).blobs.remainingNonPreferredSize ≤
        sel.blobs.remainingNonPreferredSize := by
  induction l generalizing sel with
  | nil => exact ⟨rfl, ⟨[], (append_nil _).symm, List.Sublist.refl _⟩, Nat.le_refl _⟩
  | cons v rest ih =>
    obtain ⟨hAcc, ⟨kept, hBlobs, hKept⟩, hRoom⟩ := ih (sel.push kind v)
    obtain ⟨hAcc', ⟨hBlobs', hRoom', -⟩ | ⟨hBlobs', -⟩⟩ := push_cases sel kind v
    · refine ⟨hAcc.trans hAcc', ⟨v :: kept, ?_, hKept.cons_cons v⟩, hRoom.trans hRoom'⟩
      rw [foldl_cons, hBlobs, hBlobs', append_assoc]
      rfl
    · refine ⟨hAcc.trans hAcc', ⟨kept, ?_, hKept.cons v⟩, ?_⟩
      · rw [foldl_cons, hBlobs, hBlobs']
      · rw [hBlobs'] at hRoom
        exact hRoom

theorem Selection.repush_spec (sel : Selection S) :
    sel.repush.accounts = sel.accounts ∧ sel.repush.blobs.blobsWithAddress.Sublist sel.blobs.blobsWithAddress ∧
      sel.repush.blobs.remainingNonPreferredSize ≤ S.maxAllowedDataSizeReturnedByBlobStorage := by
  obtain ⟨hAcc, ⟨kept, hBlobs, hKept⟩, hRoom⟩ :=
    foldl_push .nonPreferred sel.blobs.blobsWithAddress { sel with blobs := .empty }
  refine ⟨hAcc, ?_, hRoom.trans (Nat.sub_le _ _)⟩
  unfold repush
  rw [hBlobs]
  exact hKept

def ValidatedBlob.content (v : ValidatedBlob S) : BlobData S × S.DaAddress := (v.blob, v.sender)

def SelectedBlob.content (b : SelectedBlob S) : BlobData S × S.DaAddress := (b.blobData, b.sender)

/-- The blobs taken from storage are part of the selection, none of them twice, and
those left out are listed as discarded. -/
def HandedOver (taken selected : List (BlobData S × S.DaAddress)) (discarded : List DiscardedBlob) : Prop :=
  ∃ before kept after, selected = before ++ kept ++ after ∧ kept.Sublist taken ∧
    ∀ b ∈ taken, b ∈ kept ∨ ∃ d ∈ discarded, d.blobHash = b.1.id

namespace Selection
variable {sel sel' sel'' : Selection S}

structure Extends (sel sel' : Selection S) : Prop where
  blobs : sel.blobs.blobsWithAddress <+: sel'.blobs.blobsWithAddress
  discarded : sel.discarded ⊆ sel'.discarded

theorem Effect.extends {id accepts slashes} (h : Effect id accepts slashes sel sel') : Extends sel sel' := by
  cases h with
  | discarded _ hBlobs hDisc | slashed _ _ _ hBlobs hDisc =>
    exact ⟨by rw [hBlobs], by rw [hDisc]; exact subset_append_left _ _⟩
  | accepted _ _ _ hBlobs _ hDisc =>
    exact ⟨by rw [hBlobs]; exact prefix_append _ _, by rw [hDisc]; exact refl _⟩

theorem Extends.refl (sel : Selection S) : Extends sel sel := ⟨List.prefix_rfl, List.Subset.refl _⟩

theorem Extends.trans (h : Extends sel sel') (h' : Extends sel' sel'') : Extends sel sel'' :=
  ⟨h.blobs.trans h'.blobs, List.Subset.trans h.discarded h'.discarded⟩

theorem selectBlobsDaOrderingHelper_extends {terms items}
    (h : sel.selectBlobsDaOrderingHelper terms items = .ok sel') : Extends sel sel' :=
  selectBlobsDaOrderingHelper_suffix (fun _ => Extends sel) (fun _ _ _ _ hMid hEffect => hMid.trans hEffect.extends)
    (.refl sel) h

/-- The blobs of a list have been retrieved on the way from one selection to another. -/
def Retrieved (sel : Selection S) (l : List (ValidatedBlob S)) (sel' : Selection S) : Prop :=
  ∃ kept : List (ValidatedBlob S), sel'.blobs.blobsWithAddress = sel.blobs.blobsWithAddress ++ kept ∧
      sel.discarded ⊆ sel'.discarded ∧
      (kept.map content).Sublist (l.map content) ∧
      ∀ v ∈ l, v.content ∈ kept.map content ∨ ∃ d ∈ sel'.discarded, d.blobHash = v.blob.id

theorem Retrieved.nil (sel : Selection S) : Retrieved sel [] sel :=
  ⟨[], (append_nil _).symm, refl _, List.Sublist.refl _, by simp⟩

variable {l : List (ValidatedBlob S)} {price : S.Price}

theorem Retrieved.append {l'} (h : Retrieved sel l sel') (h' : Retrieved sel' l' sel'') :
    Retrieved sel (l ++ l') sel'' := by
  obtain ⟨kept, hBlobs, hDisc, hSub, hAll⟩ := h
  obtain ⟨kept', hBlobs', hDisc', hSub', hAll'⟩ := h'
  refine ⟨kept ++ kept', ?_, List.Subset.trans hDisc hDisc', ?_, fun v hv => ?_⟩
  · rw [hBlobs', hBlobs, append_assoc]
  · rw [map_append, map_append]
    exact hSub.append hSub'
  · rw [map_append, mem_append]
    rcases mem_append.mp hv with hv | hv
    · rcases hAll v hv with hKept | ⟨d, hd, hHash⟩
      · exact .inl (.inl hKept)
      · exact .inr ⟨d, hDisc' hd, hHash⟩
    · exact (hAll' v hv).imp_left .inr

theorem retrieveBlob_retrieved {v} (h : retrieveBlob price sel v = .ok sel') : Retrieved sel [v] sel' := by
  cases retrieveBlob_effect h with
  | discarded _ hBlobs hDisc =>
    refine ⟨[], by simp [hBlobs], by simp [hDisc], by simp, fun w hw => .inr ?_⟩
    rw [mem_singleton.mp hw, hDisc]
    exact ⟨_, mem_append_right _ (mem_singleton_self _), rfl⟩
  | slashed hSlashes => exact hSlashes.elim
  | @accepted w hAccepts _ _ hBlobs _ hDisc =>
    have hContent : w.content = v.content := Prod.ext hAccepts.1 hAccepts.2.1
    refine ⟨[w], hBlobs, by simp [hDisc], by simp [hContent], fun u hu => .inl ?_⟩
    rw [mem_singleton.mp hu]
    simp [hContent]

theorem foldlM_retrieved (h : l.foldlM (retrieveBlob price) sel = .ok sel') : Retrieved sel l sel' := by
  induction l generalizing sel with
  | nil =>
    cases h
    exact .nil _
  | cons v rest ih =>
    rw [foldlM_cons, bind_eq_ok] at h
    obtain ⟨mid, hStep, hRest⟩ := h
    exact (retrieveBlob_retrieved hStep).append (ih hRest)

end Selection

theorem foldlM_takeSlot_retrieved {slots : List Nat} {r' : Retrieval S}
    (h : slots.foldlM (Retrieval.takeSlot price) r = .ok r') :
    ∃ new, r'.taken = r.taken ++ new ∧
      Retrieved r.selection (new.flatMap (·.2)) r'.selection := by
  induction slots generalizing r with
  | nil =>
    cases h
    exact ⟨[], (append_nil _).symm, .nil _⟩
  | cons slot rest ih =>
    rw [foldlM_cons, bind_eq_ok] at h
    obtain ⟨mid, hStep, hRest⟩ := h
    simp only [Retrieval.takeSlot, bind_eq_ok, pure_eq_ok] at hStep
    obtain ⟨selection, hFold, rfl⟩ := hStep
    obtain ⟨new, hTaken, hRetrieved⟩ := ih hRest
    refine ⟨_ :: new, by rw [hTaken, append_assoc]; rfl, ?_⟩
    exact (foldlM_retrieved hFold).append hRetrieved

theorem retrieveStoredBlobs_retrieved {selection} {visible n : Nat}
    (h : retrieveStoredBlobs storage selection visible n price = .ok r) :
    selection.Retrieved (r.taken.flatMap (·.2)) r.selection := by
  obtain ⟨new, hTaken, hRetrieved⟩ := foldlM_takeSlot_retrieved h
  rw [hTaken]
  exact hRetrieved

theorem intoSelectedBlob_content {v : ValidatedBlob S} (h : v.intoSelectedBlob = .ok b) : b.content = v.content := by
  unfold intoSelectedBlob at h
  repeat' split at h
  all_goals cases h <;> rfl

theorem mapM_intoSelectedBlob_content (h : l.mapM intoSelectedBlob = .ok selected) :
    selected.map SelectedBlob.content = l.map content := by
  induction l generalizing selected with
  | nil =>
    cases h
    rfl
  | cons v rest ih =>
    simp only [mapM_cons, bind_eq_ok, pure_eq_ok] at h
    obtain ⟨b, hb, bs, hbs, rfl⟩ := h
    rw [map_cons, map_cons, intoSelectedBlob_content hb, ih hbs]

theorem exists_of_mem_selected (h : l.mapM intoSelectedBlob = .ok selected) (hb : b ∈ selected) :
    ∃ v ∈ l, v.blob = b.blobData ∧ v.sender = b.sender := by
  have hMem : b.content ∈ l.map content := by
    rw [← mapM_intoSelectedBlob_content h]
    exact mem_map_of_mem hb
  obtain ⟨v, hv, hContent⟩ := mem_map.mp hMem
  exact ⟨v, hv, Prod.mk.inj hContent⟩

theorem finishSelection_discarded {sel}
    (h : finishSelection storage sel increase stored taken = .ok out) : out.discarded = sel.discarded := by
  simp only [finishSelection, bind_eq_ok, pure_eq_ok] at h
  obtain ⟨selected, -, rfl⟩ := h
  rfl

theorem Selection.Retrieved.handedOver {start mid final : Selection S}
    (hRetrieved : start.Retrieved (taken.flatMap (·.2)) mid)
    (hBlobs : mid.blobs.blobsWithAddress <+: final.blobs.blobsWithAddress)
    (hDisc : mid.discarded ⊆ final.discarded)
    (hFin : finishSelection storage final increase stored taken = .ok out) :
    HandedOver ((out.taken.flatMap (·.2)).map content)
      (out.selectedBlobs.map SelectedBlob.content) out.discarded := by
  obtain ⟨-, -, -, -, hTaken, hSelected⟩ := finishSelection_ok hFin
  obtain ⟨kept, hMid, -, hSub, hAll⟩ := hRetrieved
  obtain ⟨after, hAfter⟩ := hBlobs
  rw [hTaken, finishSelection_discarded hFin, mapM_intoSelectedBlob_content hSelected, ← hAfter, hMid]
  refine ⟨start.blobs.blobsWithAddress.map content, kept.map content, after.map content, by simp, hSub, ?_⟩
  rintro _ hb
  obtain ⟨v, hv, rfl⟩ := mem_map.mp hb
  rcases hAll v hv with hKept | ⟨d, hd, hHash⟩
  · exact .inl hKept
  · exact .inr ⟨d, hDisc hd, hHash⟩

/-- Over all modes: the blobs taken from storage are handed over. -/
theorem SelectionCase.handedOver (h : SelectionCase chain accounts storage current out) :
    HandedOver ((out.taken.flatMap (·.2)).map content)
      (out.selectedBlobs.map SelectedBlob.content) out.discarded := by
  cases h with
  | @based sel _ _ hFin =>
    exact (Retrieved.nil sel).handedOver prefix_rfl (refl _) hFin
  | recoveryEnd _ _ _ _ hRetr hFin | recovery _ _ _ _ hRetr hFin =>
    exact (retrieveStoredBlobs_retrieved hRetr).handedOver prefix_rfl (refl _) hFin
  | caughtUp turn _ hSel hFin =>
    have hExt := selectBlobsDaOrderingHelper_extends hSel
    exact (retrieveStoredBlobs_retrieved turn.retrieving).handedOver hExt.blobs hExt.discarded
      hFin
  | behind turn _ hSel hFin =>
    have hExt := selectBlobsDaOrderingHelper_extends hSel
    refine (retrieveStoredBlobs_retrieved turn.retrieving).handedOver ?_ ?_ hFin
    · exact prefix_rfl
    · exact hExt.discarded

end SovereignSdk
