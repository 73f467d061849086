import SovereignSdk.StfBlueprint.Discards
import SovereignSdk.StfBlueprint.DeferredBlobs

/-! The stored blobs of a rollup block as the preferred sequencer extracts them for its own execution,
against those that the node selects for the same block. -/
namespace SovereignSdk
open Bounded Outcome BlobsAccumulator List BlobStorage Selection ValidatedBlob RollupState

variable {S : Spec}

/-- Push the blobs of other sequencers; those without room are discarded unreported. -/
def BlobsAccumulator.pushAll (acc : BlobsAccumulator S) (blobs : List (ValidatedBlob S)) : BlobsAccumulator S :=
  blobs.foldl (fun acc v => (acc.pushOrIgnore .nonPreferred v).1) acc

namespace BlobStorage

def extractSlot (state : BlobStorage S × BlobsAccumulator S) (slot : Nat) : BlobStorage S × BlobsAccumulator S :=
  let (storage, blobs) := state.1.takeBlobsForSlot slot
  (storage, state.2.pushAll blobs)

def getNonPreferredBlobs (storage : BlobStorage S) (slotRange : List Nat) : List (ValidatedBlob S) :=
  (slotRange.foldl extractSlot (storage, .empty)).2.blobsWithAddress

end BlobStorage

variable (storage : BlobStorage S)

def kernelNonPreferredBlobs (slotRange : List Nat) : Except Panic (List (SelectedBlob S)) :=
  (storage.getNonPreferredBlobs slotRange).mapM intoSelectedBlob

/-- The non-preferred blobs of `rollup_block_task_body`, for the slots after the old visible one up to the
next. Bonds are replaced by what is reserved for one check. -/
def blockNonPreferredBlobs (oldVisibleSlotNumber nextVisibleSlotNumber : Nat)
    (neededGasEscrow : Nat) : Except Panic (List (SelectedBlob S)) := do
  let blobs ← kernelNonPreferredBlobs storage
    (List.range' (oldVisibleSlotNumber + 1) (nextVisibleSlotNumber - oldVisibleSlotNumber))
  return blobs.map fun b => { b with reservedGasTokens := b.reservedGasTokens.map fun _ => neededGasEscrow }

def BlobStorage.blobsOf (slots : List Nat) : List (ValidatedBlob S) :=
  slots.flatMap fun slot => (storage.deferredBlobs slot).getD []

/-- Of some blobs, taken in order while there is room, only emergency registrations fit. -/
def OnlyRegistrationsFit (room : Nat) : List (ValidatedBlob S) → Prop
  | [] => True
  | v :: rest =>
    if v.blob.blobSize ≤ u32Max ∧ v.blob.blobSize ≤ room then
      v.blob.isEmergencyRegistration = true ∧ OnlyRegistrationsFit (room - v.blob.blobSize) rest
    else OnlyRegistrationsFit room rest

namespace BlobStorage
variable {storage : BlobStorage S}

variable {slots : List Nat}

theorem blobsOf_take {slot} (h : slot ∉ slots) :
    (storage.takeBlobsForSlot slot).1.blobsOf slots = storage.blobsOf slots := by
  refine flatMap_congr fun other hOther => ?_
  have hNe : other ≠ slot := fun hSame => h (hSame ▸ hOther)
  simp only [takeBlobsForSlot, Function.update_of_ne hNe]

theorem foldl_extractSlot (hSlots : slots.Nodup) (acc : BlobsAccumulator S) :
    (slots.foldl extractSlot (storage, acc)).2 = acc.pushAll (storage.blobsOf slots) := by
  induction slots generalizing storage acc with
  | nil => rfl
  | cons slot rest ih =>
    obtain ⟨hFresh, hRest⟩ := nodup_cons.mp hSlots
    have hHere : extractSlot (storage, acc) slot =
        ((storage.takeBlobsForSlot slot).1, acc.pushAll ((storage.deferredBlobs slot).getD [])) := rfl
    rw [foldl_cons, hHere, ih hRest, blobsOf_take hFresh]
    exact (foldl_append ..).symm

end BlobStorage

theorem foldlM_takeSlot_selection {price : S.Price} {slots : List Nat} (hSlots : slots.Nodup) {r r' : Retrieval S}
    (h : slots.foldlM (Retrieval.takeSlot price) r = .ok r') :
    (r.storage.blobsOf slots).foldlM (retrieveBlob price) r.selection = .ok r'.selection := by
  induction slots generalizing r with
  | nil =>
    cases h
    rfl
  | cons slot rest ih =>
    obtain ⟨hFresh, hRest⟩ := nodup_cons.mp hSlots
    rw [foldlM_cons, bind_eq_ok] at h
    obtain ⟨mid, hStep, hLater⟩ := h
    simp only [Retrieval.takeSlot, bind_eq_ok, pure_eq_ok] at hStep
    obtain ⟨selection, hFold, rfl⟩ := hStep
    have hHere := ih hRest hLater
    rw [blobsOf_take hFresh] at hHere
    rw [blobsOf, flatMap_cons, foldlM_append, bind_eq_ok]
    exact ⟨selection, hFold, hHere⟩

theorem mapM_ok_of_mem {ε α β : Type} {f : α → Except ε β} {l : List α} {out : List β} (h : l.mapM f = .ok out)
    {a : α} (ha : a ∈ l) : ∃ b, f a = .ok b := by
  induction l generalizing out with
  | nil => cases ha
  | cons first rest ih =>
    obtain ⟨b, bs, hFirst, hRest, -⟩ := mapM_cons_eq_ok.mp h
    rcases mem_cons.mp ha with rfl | hLater
    · exact ⟨b, hFirst⟩
    · exact ih hRest hLater

section Compare
variable {acc : BlobsAccumulator S} {sel sel' : Selection S} {price : S.Price} {v : ValidatedBlob S}

theorem canAcceptBlob_iff {size} :
    acc.canAcceptBlob .nonPreferred size = true ↔ size ≤ u32Max ∧ size ≤ acc.remainingNonPreferredSize :=
  decide_eq_true_iff

theorem pushOrIgnore_fits (h : v.blob.blobSize ≤ u32Max ∧ v.blob.blobSize ≤ acc.remainingNonPreferredSize) :
    acc.pushOrIgnore .nonPreferred v = ({ acc with
      blobsWithAddress := acc.blobsWithAddress ++ [v]
      remainingNonPreferredSize := acc.remainingNonPreferredSize - v.blob.blobSize }, true) :=
  if_pos (canAcceptBlob_iff.mpr h)

theorem pushOrIgnore_full (h : ¬(v.blob.blobSize ≤ u32Max ∧ v.blob.blobSize ≤ acc.remainingNonPreferredSize)) :
    acc.pushOrIgnore .nonPreferred v = (acc, false) :=
  if_neg fun hAccepts => h (canAcceptBlob_iff.mp hAccepts)

variable {rest : List (ValidatedBlob S)}

theorem pushAll_fits (h : v.blob.blobSize ≤ u32Max ∧ v.blob.blobSize ≤ acc.remainingNonPreferredSize) :
    acc.pushAll (v :: rest) = BlobsAccumulator.pushAll { acc with
      blobsWithAddress := acc.blobsWithAddress ++ [v]
      remainingNonPreferredSize := acc.remainingNonPreferredSize - v.blob.blobSize } rest := by
  rw [pushAll, foldl_cons, pushOrIgnore_fits h]
  rfl

theorem pushAll_full (h : ¬(v.blob.blobSize ≤ u32Max ∧ v.blob.blobSize ≤ acc.remainingNonPreferredSize)) :
    acc.pushAll (v :: rest) = acc.pushAll rest := by
  rw [pushAll, foldl_cons, pushOrIgnore_full h]
  rfl

variable {l : List (ValidatedBlob S)}

theorem mem_pushAll (h : v ∈ acc.blobsWithAddress) : v ∈ (acc.pushAll l).blobsWithAddress := by
  induction l generalizing acc with
  | nil => exact h
  | cons w rest ih =>
    refine @ih (acc.pushOrIgnore .nonPreferred w).1 ?_
    rcases acc.pushOrIgnore_blobs .nonPreferred w with hPushed | hIgnored
    · rw [hPushed]
      exact mem_append_left _ h
    · rw [hIgnored]
      exact h

theorem retrieveBlob_full
    (hFull : ¬(v.blob.blobSize ≤ u32Max ∧ v.blob.blobSize ≤ sel.blobs.remainingNonPreferredSize))
    (h : retrieveBlob price sel v = .ok sel') : sel'.blobs = sel.blobs := by
  have hPush : ∀ (accounts : Accounts S) (escrow : Escrow),
      (Selection.push { sel with accounts } .nonPreferred { v with balanceStore := escrow }).blobs = sel.blobs := by
    intro accounts escrow
    have hIgnored : sel.blobs.pushOrIgnore .nonPreferred { v with balanceStore := escrow } = (sel.blobs, false) :=
      pushOrIgnore_full hFull
    simp only [Selection.push, hIgnored, Selection.discard]
  unfold retrieveBlob at h
  split at h
  · obtain ⟨⟨accounts, funds⟩, -, h⟩ := bind_eq_ok.mp h
    cases funds with
    | none =>
      cases h
      rfl
    | some funds =>
      cases h
      exact hPush accounts _
  · cases h
  · cases h
    exact hPush sel.accounts v.balanceStore

theorem retrieveBlob_registration (hEmerg : v.blob.isEmergencyRegistration = true) (hv : v.Deferrable)
    (hFits : v.blob.blobSize ≤ u32Max ∧ v.blob.blobSize ≤ sel.blobs.remainingNonPreferredSize)
    (h : retrieveBlob price sel v = .ok sel') :
    sel'.blobs = { sel.blobs with
      blobsWithAddress := sel.blobs.blobsWithAddress ++ [v]
      remainingNonPreferredSize := sel.blobs.remainingNonPreferredSize - v.blob.blobSize } := by
  have hNone : v.balanceStore = .none := by
    unfold Deferrable at hv
    rwa [if_pos hEmerg] at hv
  unfold retrieveBlob at h
  rw [hNone] at h
  cases h
  simp only [push, pushOrIgnore_fits hFits]

/-- Where only emergency registrations fit, both paths take the same ones. -/
theorem retrieval_agrees (hStored : ∀ v ∈ l, v.Deferrable) (hFit : OnlyRegistrationsFit acc.remainingNonPreferredSize l)
    (hRoom : sel.blobs.remainingNonPreferredSize = acc.remainingNonPreferredSize)
    (h : l.foldlM (retrieveBlob price) sel = .ok sel') :
    ∃ fresh, (acc.pushAll l).blobsWithAddress = acc.blobsWithAddress ++ fresh ∧
      sel'.blobs.blobsWithAddress = sel.blobs.blobsWithAddress ++ fresh ∧
      ∀ v ∈ fresh, v.blob.isEmergencyRegistration = true ∧ v.balanceStore = .none := by
  induction l generalizing acc sel with
  | nil =>
    cases h
    exact ⟨[], (append_nil _).symm, (append_nil _).symm, by simp⟩
  | cons v rest ih =>
    rw [foldlM_cons, bind_eq_ok] at h
    obtain ⟨mid, hStep, hRest⟩ := h
    have hLater : ∀ v ∈ rest, v.Deferrable := fun w hw => hStored w (mem_cons_of_mem v hw)
    have hHere := hStored v mem_cons_self
    unfold OnlyRegistrationsFit at hFit
    split at hFit
    · rename_i hFits
      obtain ⟨hEmerg, hFit⟩ := hFit
      have hMid := retrieveBlob_registration hEmerg hHere (hRoom.symm ▸ hFits) hStep
      rw [pushAll_fits hFits]
      obtain ⟨fresh, hAcc, hSel, hFresh⟩ := @ih { acc with
        blobsWithAddress := acc.blobsWithAddress ++ [v]
        remainingNonPreferredSize := acc.remainingNonPreferredSize - v.blob.blobSize } mid hLater hFit
        (by rw [hMid, hRoom]) hRest
      refine ⟨v :: fresh, ?_, ?_, ?_⟩
      · rw [hAcc, append_assoc]
        rfl
      · rw [hSel, hMid, append_assoc]
        rfl
      · intro w hw
        rcases mem_cons.mp hw with rfl | hw
        · unfold Deferrable at hHere
          rw [if_pos hEmerg] at hHere
          exact ⟨hEmerg, hHere⟩
        · exact hFresh w hw
    · rename_i hFull
      have hMid := retrieveBlob_full (hRoom.symm ▸ hFull) hStep
      rw [pushAll_full hFull, ← hMid]
      exact ih hLater hFit (hMid.symm ▸ hRoom) hRest

theorem extraction_escrowed (hFit : ¬OnlyRegistrationsFit acc.remainingNonPreferredSize l) :
    ∃ v ∈ (acc.pushAll l).blobsWithAddress,
      v ∈ l ∧ v.blob.isEmergencyRegistration = false := by
  induction l generalizing acc with
  | nil => exact absurd trivial hFit
  | cons v rest ih =>
    unfold OnlyRegistrationsFit at hFit
    split at hFit
    · rename_i hFits
      rw [pushAll_fits hFits]
      by_cases hEmerg : v.blob.isEmergencyRegistration = true
      · obtain ⟨w, hw, hMem, hEscr⟩ := @ih { acc with
          blobsWithAddress := acc.blobsWithAddress ++ [v]
          remainingNonPreferredSize := acc.remainingNonPreferredSize - v.blob.blobSize }
          fun hRest => hFit ⟨hEmerg, hRest⟩
        exact ⟨w, hw, mem_cons_of_mem v hMem, hEscr⟩
      · refine ⟨v, mem_pushAll ?_, mem_cons_self, by simpa using hEmerg⟩
        exact mem_append_right _ (mem_singleton_self v)
    · rename_i hFull
      rw [pushAll_full hFull]
      obtain ⟨w, hw, hMem, hEscr⟩ := ih hFit
      exact ⟨w, hw, mem_cons_of_mem v hMem, hEscr⟩

theorem mapM_registrations {fresh : List (ValidatedBlob S)}
    (h : ∀ v ∈ fresh, v.blob.isEmergencyRegistration = true ∧ v.balanceStore = .none) :
    fresh.mapM intoSelectedBlob = .ok (fresh.map fun v => ⟨v.blob, v.sender, none⟩) := by
  induction fresh with
  | nil => rfl
  | cons v rest ih =>
    obtain ⟨hEmerg, hNone⟩ := h v mem_cons_self
    have hHere : v.intoSelectedBlob = .ok ⟨v.blob, v.sender, none⟩ := by
      simp [intoSelectedBlob, hNone, hEmerg]
    exact mapM_cons_eq_ok.mpr ⟨_, _, hHere, ih fun w hw => h w (mem_cons_of_mem v hw), rfl⟩

theorem addPreferredBlob_room {sender address blob}
    (h : addPreferredBlob price sender address sel blob = .ok sel') :
    sel'.blobs.remainingNonPreferredSize = sel.blobs.remainingNonPreferredSize := by
  unfold addPreferredBlob at h
  dsimp only at h
  split at h
  · cases h
    rfl
  obtain ⟨⟨accounts, validated⟩, -, h⟩ := bind_eq_ok.mp h
  cases validated with
  | none =>
    cases h
    rfl
  | some v =>
    cases h
    unfold push pushOrIgnore
    split
    · rename_i hPushed
      split at hPushed <;> cases hPushed
      rfl
    · rename_i hPushed
      split at hPushed <;> cases hPushed
      rfl

end Compare

theorem Reaches.visible_le {admits : RollupState S → RelevantBlobs S → Prop} {start st : RollupState S}
    (run : Reaches slot admits start st) (hStart : start.AtGenesis) :
    st.chain.visibleSlotNumber ≤ st.chain.trueSlotNumber := by
  refine run.invariant (fun st => st.chain.visibleSlotNumber ≤ st.chain.trueSlotNumber)
    hStart.lagging.visible_le fun s s' blobs hs _ hStep => ?_
  obtain ⟨turn, rfl⟩ := slot_ok hStep
  obtain ⟨-, -, -, -, hVis, hTrue, hLe⟩ := turn.slots hs
  rw [hVis, hTrue]
  exact hLe

/-- The sequencer's blobs for a block are those that the node adds to the selection of the same block. -/
def ExtractionAgrees {chain : ChainState S} {accounts : Accounts S} {storage : BlobStorage S}
    {current : RelevantBlobs S} (turn : PreferredTurn chain accounts storage current) (neededGasEscrow : Nat) : Prop :=
  ∃ selected fresh, blockNonPreferredBlobs storage chain.visibleSlotNumber (chain.visibleSlotNumber + turn.increase)
      neededGasEscrow = .ok selected ∧
    turn.retrieval.selection.blobs.blobsWithAddress = turn.added.blobs.blobsWithAddress ++ fresh ∧
    fresh.mapM intoSelectedBlob = .ok selected

/-- In every state that the node reaches, and for every advance of the preferred sequencer: the extraction
returns the blobs and the bonds of the node just when nothing but emergency registrations fits. -/
theorem extraction_agrees_iff {start st : RollupState S} (hStart : start.AtGenesis)
    (run : Reaches slot (fun _ _ => True) start st) {synced : ChainState S}
    (hSync : st.chain.synchronizeChain = .ok synced) {current : RelevantBlobs S}
    (turn : PreferredTurn synced st.accounts st.storage current) (neededGasEscrow : Nat) :
    ExtractionAgrees turn neededGasEscrow ↔
      OnlyRegistrationsFit (BlobsAccumulator.empty : BlobsAccumulator S).remainingNonPreferredSize
        (st.storage.blobsOf (List.range' (synced.visibleSlotNumber + 1) turn.increase)) := by
  have hVisible := Reaches.visible_le run hStart
  have hSynced : synced.Synced := by
    obtain ⟨hU64, rfl⟩ := ChainState.synchronizeChain_ok hSync
    exact ⟨Nat.lt_succ_of_le hVisible, hU64⟩
  have hFits := (turn.increase_le hSynced).trans hSynced.true_u64
  have hNodup : (range' (synced.visibleSlotNumber + 1) turn.increase).Nodup := nodup_range'
  have hDeferrable : ∀ v ∈ st.storage.blobsOf (range' (synced.visibleSlotNumber + 1) turn.increase),
      v.Deferrable := by
    intro v hv
    obtain ⟨slot, -, hv⟩ := mem_flatMap.mp hv
    exact ((Reaches.solvent run hStart).2.getD slot v hv).deferrable
  have hExtracted : st.storage.getNonPreferredBlobs (range' (synced.visibleSlotNumber + 1) turn.increase) =
      (empty.pushAll
        (st.storage.blobsOf (range' (synced.visibleSlotNumber + 1) turn.increase))).blobsWithAddress :=
    congrArg blobsWithAddress (foldl_extractSlot hNodup .empty)
  have hNode := turn.retrieving
  unfold retrieveStoredBlobs at hNode
  rw [slots_eq hFits] at hNode
  have hRetrieved := foldlM_takeSlot_selection hNodup hNode
  have hRoom := foldlM_invariant (fun sel : Selection S => sel.blobs.remainingNonPreferredSize = (empty :
    BlobsAccumulator S).remainingNonPreferredSize) (fun _ _ _ hMid hStep => (addPreferredBlob_room hStep).trans hMid)
    rfl turn.adding
  unfold ExtractionAgrees blockNonPreferredBlobs kernelNonPreferredBlobs
  rw [Nat.add_sub_cancel_left, hExtracted]
  constructor
  · rintro ⟨selected, fresh, hBlock, -⟩
    by_contra hFit
    obtain ⟨v, hv, hStored, hEscrowed⟩ := extraction_escrowed hFit
    obtain ⟨blobs, hBlobs, -⟩ := bind_eq_ok.mp hBlock
    obtain ⟨b, hb⟩ := mapM_ok_of_mem hBlobs hv
    have hHolder := hDeferrable v hStored
    unfold Deferrable at hHolder
    rw [if_neg (by simp [hEscrowed])] at hHolder
    obtain ⟨holder, hHolder⟩ := hHolder
    simp [intoSelectedBlob, hHolder] at hb
  · intro hFit
    obtain ⟨fresh, hAcc, hSel, hFresh⟩ := retrieval_agrees hDeferrable hFit hRoom hRetrieved
    have hSelected := mapM_registrations hFresh
    refine ⟨_, fresh, ?_, hSel, hSelected⟩
    rw [hAcc]
    refine bind_eq_ok.mpr ⟨_, hSelected, ?_⟩
    rw [map_map]
    rfl

/-- A batch of sequencer 2, deferred in the fourth slot, is selected by the node when the preferred sequencer
moves on to slot 6; the extraction for the same slots panics. -/
theorem extraction_panics_on_deferred_batch :
    ∃ (start st : RollupState threeSlotSpec) (synced : ChainState threeSlotSpec) (out : SelectorOutput threeSlotSpec)
      (b : SelectedBlob threeSlotSpec),
      genesis twoAccountsGenesis = .ok start ∧ Reaches slot (fun _ _ => True) start st ∧
      st.chain.synchronizeChain = .ok synced ∧
      getBlobsForThisSlot synced st.accounts st.storage ⟨[registryBatch 2 2 (.withdraw (2 : Nat))], []⟩ = .ok out ∧
      out.visibleSlotNumberIncrease = 3 ∧ out.selectedBlobs[1]? = some b ∧ b.sender = (2 : Nat) ∧
      b.reservedGasTokens.isSome = true ∧
      blockNonPreferredBlobs st.storage synced.visibleSlotNumber (synced.visibleSlotNumber + 3) 20 =
        .error .derivedHolderSelected :=
  ⟨_, _, _, _, _, rfl, .of_foldlM (l := withdrawalSlots) (fun _ _ => trivial) rfl .refl, rfl, rfl, rfl, rfl, rfl, rfl,
    rfl⟩

def firstPreferredBatch : BlobTransaction twoSlotSpec :=
  { strayBlob with
    sender := (1 : Nat)
    hash := 50
    asTx := none
    asPreferredBatch := some ⟨0, [], 1, Nat.zero_le _, Nat.one_pos, one_le_u8Max⟩ }

/-- An emergency registration that was deferred in the first slot is extracted as the node selects it. -/
theorem deferred_registration_extracted :
    ∃ (start st : RollupState twoSlotSpec) (synced : ChainState twoSlotSpec)
      (turn : PreferredTurn synced st.accounts st.storage ⟨[firstPreferredBatch], []⟩),
      genesis (soloGenesis (7 : Nat) (1 : Nat) 1000 100 true) = .ok start ∧
      Reaches slot (fun _ _ => True) start st ∧
      (st.storage.blobsOf [1]).length = 1 ∧ ExtractionAgrees turn 20 := by
  obtain ⟨start, hGenesis, st, hSlot, synced, hSync, turn, hVisible, hIncrease, hStored, v, hOne, hEmergency⟩ :
      ∃ start : RollupState twoSlotSpec, genesis (soloGenesis (7 : Nat) (1 : Nat) 1000 100 true) = .ok start ∧
        ∃ st, start.slot ⟨[strayBlob], []⟩ = .ok st ∧
        ∃ synced, st.chain.synchronizeChain = .ok synced ∧
        ∃ turn : PreferredTurn synced st.accounts st.storage ⟨[firstPreferredBatch], []⟩,
          synced.visibleSlotNumber = 0 ∧ turn.increase = 1 ∧ (st.storage.blobsOf [1]).length = 1 ∧
          ∃ v, st.storage.blobsOf [1] = [v] ∧ v.blob.isEmergencyRegistration = true :=
    ⟨_, rfl, _, rfl, _, rfl, ⟨(1 : Nat), (7 : Nat), _, _, _, _, _, [], _, _, by decide, rfl, rfl, rfl, rfl, rfl, rfl⟩,
      rfl, rfl, rfl, _, rfl, rfl⟩
  have hRun : Reaches slot (fun _ _ => True) start st := .tail .refl trivial hSlot
  refine ⟨start, st, synced, turn, hGenesis, hRun, hStored, ?_⟩
  refine (extraction_agrees_iff (genesis_atGenesis hGenesis) hRun hSync turn 20).mpr ?_
  rw [hVisible, hIncrease]
  change OnlyRegistrationsFit _ (st.storage.blobsOf [1])
  rw [hOne]
  unfold OnlyRegistrationsFit
  split
  · exact ⟨hEmergency, trivial⟩
  · trivial

end SovereignSdk
