import SovereignSdk.BlobStorage.Senders
import SovereignSdk.StfBlueprint.Heights
import SovereignSdk.StfBlueprint.Steps

/-! Withdrawals of sequencers against the blobs for which funds are still set aside.
The waiting period of a withdrawal is counted in visible slots, and the slot in which
it ends may bring more than one of them. -/
namespace SovereignSdk
open Bounded Outcome Accounts List RollupState

variable {S : Spec}

/-- The transactions of a batch up to the first `m`; any other blob is not started. -/
def startBlob (block : BlockContext S) (progress : TxState S × SlotMeter S) (m : Nat) :
    Option (SelectedBlob S) → Except Panic (TxState S)
  | some ⟨.batch txs _ address, sender, some bond⟩ => do
      let preferred := isPreferredSequencer progress.1.accounts sender
      let b ← (txs.take m).foldlM (BatchState.applyTx block sender address preferred)
        ⟨progress.1, progress.2, 0, 0, bondPerTx preferred bond txs⟩
      return b.state
  | _ => return progress.1

/-- A slot up to the point where `n` of its blobs have been executed, and `m`
transactions of the next one: the selection of the slot and the state. -/
def RollupState.partway (st : RollupState S) (blobs : RelevantBlobs S) (n m : Nat) :
    Except Panic (SelectorOutput S × TxState S) := do
  let synced ← st.chain.synchronizeChain
  let out ← getBlobsForThisSlot synced st.accounts st.storage blobs
  let advanced ← advanceHeights synced out
  let gasPrice ← advanced.baseFeePerGas
  let slotGas ← Outcome.unwrap .slotGasMeter
    (SlotGasMeter.new S.initialGasLimit out.accounts.registry.preferredSequencer)
  let progress ← (out.selectedBlobs.take n).foldlM (applyBlob ⟨advanced, gasPrice⟩)
    (⟨out.accounts, advanced.setupModeTerminationHeight, []⟩, slotGas)
  let state ← startBlob ⟨advanced, gasPrice⟩ progress m out.selectedBlobs[n]?
  return (out, state)

structure SlotOpening (st : RollupState S) (blobs : RelevantBlobs S) where
  synced : ChainState S
  out : SelectorOutput S
  advanced : ChainState S
  synchronizing : st.chain.synchronizeChain = .ok synced
  selecting : getBlobsForThisSlot synced st.accounts st.storage blobs = .ok out
  advancing : advanceHeights synced out = .ok advanced

def SlotOpening.state {st : RollupState S} {blobs : RelevantBlobs S} (o : SlotOpening st blobs) : TxState S :=
  ⟨o.out.accounts, o.advanced.setupModeTerminationHeight, []⟩

def SlotTurn.opening {st : RollupState S} {blobs : RelevantBlobs S} (turn : SlotTurn st blobs) : SlotOpening st blobs :=
  ⟨turn.synced, turn.out, turn.advanced, turn.synchronizing, turn.selecting, turn.advancing⟩

variable {inv : TxState S → Prop} {m : Nat} {chain : ChainState S}

variable {blobs : RelevantBlobs S} {st : RollupState S}

theorem RollupState.partway_ok {n out state} (h : st.partway blobs n m = .ok (out, state)) :
    ∃ o : SlotOpening st blobs, o.out = out ∧
      ∀ inv : TxState S → Prop, Kept o.advanced inv → inv o.state → inv state := by
  simp only [partway, bind_eq_ok, pure_eq_ok, Prod.mk.injEq] at h
  obtain ⟨synced, hSync, out', hSel, advanced, hAdv, gasPrice, -, slotGas, -, ⟨mid, slotGas'⟩, hFold,
    state', hStart, rfl, rfl⟩ := h
  refine ⟨⟨synced, out', advanced, hSync, hSel, hAdv⟩, rfl, fun inv hKept hs => ?_⟩
  have hMid : inv mid := hKept.applyBlobs hs hFold
  unfold startBlob at hStart
  split at hStart
  · simp only [bind_eq_ok, pure_eq_ok] at hStart
    obtain ⟨b, hRun, rfl⟩ := hStart
    exact foldlM_invariant (fun b : BatchState S => inv b.state) (fun _ _ _ hb => hKept.batchTx hb) hMid hRun
  · cases hStart
    exact hMid

theorem SlotTurn.keeps (turn : SlotTurn st blobs)
    (hKept : Kept turn.advanced inv) (hs : inv turn.opening.state) : inv turn.state := by
  obtain ⟨gasPrice, slotGas, slotGas', hFold⟩ := turn.execution
  exact hKept.applyBlobs hs hFold

theorem SlotOpening.slots (o : SlotOpening st blobs)
    (hc : st.chain.Lagging) (hMax : 0 < S.maxVisibleHeightIncreasePerSlot) :
    o.synced.Synced ∧ o.synced.visibleSlotNumber = st.chain.visibleSlotNumber ∧
      o.synced.trueSlotNumber = st.chain.trueSlotNumber + 1 ∧
      o.advanced.visibleSlotNumber = st.chain.visibleSlotNumber + o.out.visibleSlotNumberIncrease ∧
      o.advanced.visibleSlotNumber ≤ o.synced.trueSlotNumber ∧
      o.synced.trueSlotNumber - o.advanced.visibleSlotNumber ≤ S.deferredSlotsCount - 1 := by
  obtain ⟨-, hEq⟩ := ChainState.synchronizeChain_ok o.synchronizing
  have hTrue : o.synced.trueSlotNumber = st.chain.trueSlotNumber + 1 := by rw [hEq]
  have hVis : o.synced.visibleSlotNumber = st.chain.visibleSlotNumber := by rw [hEq]
  obtain ⟨hSynced, hWithin, -⟩ := hc.synchronize o.synchronizing
  have hCase := getBlobsForThisSlot_ok o.selecting
  have hAdvanced := (advanceHeights_eq o.advancing).1
  refine ⟨hSynced, hVis, hTrue, hVis ▸ hAdvanced, ?_, ?_⟩
  · rw [hAdvanced]
    exact hCase.increase_le hSynced
  · rw [hAdvanced]
    exact hCase.lag_le hSynced hWithin hMax

/-- What a step of execution does to the registration of one sequencer. -/
inductive StatusStep (visible : Nat) (a : S.DaAddress) (s s' : TxState S) : Prop where
  | same (hStatus : s'.accounts.statusOf a = s.accounts.statusOf a)
      (hWithdrawn : a ∈ s'.withdrawn → a ∈ s.withdrawn)
  | activated (hActive : s'.accounts.IsActive a) (hWithdrawn : a ∈ s'.withdrawn → a ∈ s.withdrawn)
  | initiated {address : S.Address}
      (hStatus : s'.accounts.statusOf a = some (address, .pendingWithdrawal (visible + (S.deferredSlotsCount + 1))))
      (hWithdrawn : a ∈ s'.withdrawn → a ∈ s.withdrawn)
  | withdrawn {address : S.Address} {readyAt : Nat}
      (hStatus : s.accounts.statusOf a = some (address, .pendingWithdrawal readyAt))
      (hReady : readyAt ≤ visible)

namespace StatusStep
variable {visible : Nat} {a : S.DaAddress} {s s' : TxState S}

theorem of_registry (hReg : s'.accounts.registry = s.accounts.registry)
    (hWithdrawn : s'.withdrawn = s.withdrawn) : StatusStep visible a s s' := by
  refine .same ?_ fun h => hWithdrawn ▸ h
  unfold Accounts.statusOf Accounts.known
  rw [hReg]

theorem of_other {c k} (hne : a ≠ c)
    (hReg : s'.accounts.registry = (s.accounts.setSequencer c k).registry)
    (hWithdrawn : a ∈ s'.withdrawn → a ∈ s.withdrawn) : StatusStep visible a s s' := by
  refine .same ?_ hWithdrawn
  rw [statusOf_of_registry hReg, if_neg hne]

theorem activate {c k} (hReg : s'.accounts.registry = (s.accounts.setSequencer c (some k)).registry)
    (hActive : k.balanceState = .active) (hSame : a ∈ s'.withdrawn → a ∈ s.withdrawn) : StatusStep visible a s s' := by
  by_cases hEq : a = c
  · refine .activated ⟨k.address, ?_⟩ hSame
    rw [statusOf_of_registry hReg, if_pos hEq, Option.map_some, hActive]
  · exact .of_other hEq hReg hSame

end StatusStep

theorem Accounts.CallEffect.statusStep {context visible s s' message}
    (h : CallEffect context visible s.accounts s'.accounts message)
    (hWithdrawn : s'.withdrawn = WorkingSet.recordWithdrawal s.withdrawn message) (a : S.DaAddress) :
    StatusStep visible a s s' := by
  cases h with
  | register _ hReg _ | deposit _ hReg _ => exact .activate hReg rfl fun h => by rwa [hWithdrawn] at h
  | @initiateWithdrawal c k _ _ _ hState =>
    have hSame : a ∈ s'.withdrawn → a ∈ s.withdrawn := fun h => by rwa [hWithdrawn] at h
    have hReg := congrArg Accounts.registry hState
    by_cases hEq : a = c
    · have hStatus := statusOf_of_registry (c := a) hReg
      rw [if_pos hEq] at hStatus
      exact .initiated hStatus hSame
    · exact .of_other hEq hReg hSame
  | @withdraw c k readyAt hKnown hPend hReady hReg _ =>
    by_cases hEq : a = c
    · subst hEq
      exact .withdrawn ((statusOf_of_known hKnown).trans (by rw [hPend])) hReady
    · refine .of_other hEq hReg fun h => ?_
      rw [hWithdrawn] at h
      exact (mem_cons.mp h).resolve_left hEq

theorem ExecStep.statusStep {s s'} (h : ExecStep chain s s') (a : S.DaAddress) :
    StatusStep chain.visibleSlotNumber a s s' := by
  cases h with
  | transfer _ hReg _ hWithdrawn | unstaked hReg _ hWithdrawn => exact .of_registry hReg hWithdrawn
  | @stake c k amount hKnown _ hReg hWithdrawn =>
    have hSame : a ∈ s'.withdrawn → a ∈ s.withdrawn := fun h => hWithdrawn ▸ h
    by_cases hEq : a = c
    · refine .same ?_ hSame
      rw [statusOf_of_registry hReg, if_pos hEq, hEq, statusOf_of_known hKnown]
      rfl
    · exact .of_other hEq hReg hSame
  | bank hAcc _ _ hWithdrawn => exact .of_registry (by rw [hAcc]; rfl) hWithdrawn
  | registry hEffect hWithdrawn => exact hEffect.statusStep hWithdrawn a
  | setup hAcc hWithdrawn => exact .of_registry (by rw [hAcc]) hWithdrawn

/-- A sequencer has not withdrawn in this block, and will not before a visible slot. -/
def Waits (bound : Nat) (a : S.DaAddress) (s : TxState S) : Prop :=
  a ∉ s.withdrawn ∧ ∀ address readyAt,
    s.accounts.statusOf a = some (address, .pendingWithdrawal readyAt) → bound ≤ readyAt

theorem kept_waits {bound} (hReady : chain.visibleSlotNumber < bound)
    (hBound : bound ≤ chain.visibleSlotNumber + (S.deferredSlotsCount + 1)) (a : S.DaAddress) :
    Kept chain (Waits bound a) := by
  rintro s s' ⟨hNot, hWaits⟩ hStep
  cases hStep.statusStep a with
  | same hStatus hWithdrawn =>
    exact ⟨fun h => hNot (hWithdrawn h), fun address r h => hWaits address r (hStatus ▸ h)⟩
  | activated hActive hWithdrawn =>
    refine ⟨fun h => hNot (hWithdrawn h), fun address r h => ?_⟩
    obtain ⟨owner, hActive⟩ := hActive
    cases hActive.symm.trans h
  | initiated hStatus hWithdrawn =>
    refine ⟨fun h => hNot (hWithdrawn h), fun address r h => ?_⟩
    cases hStatus.symm.trans h
    exact hBound
  | withdrawn hStatus _ => exact absurd (hWaits _ _ hStatus) (by omega)

def RollupState.advance (st : RollupState S) (blobs : RelevantBlobs S) : Except Panic Nat := do
  let synced ← st.chain.synchronizeChain
  let lag := synced.trueSlotNumber - synced.visibleSlotNumber
  if S.deferredSlotsCount = 0 then return lag
  else
    match st.accounts.getPreferredSequencer with
    | some (sender, _) =>
      let (_, run) ← st.storage.preferred.pickPreferredBlobsToProcess (preferredBlobs blobs sender)
      visibleHeightIncrease synced run
    | none => return min lag 2

/-- A slot that does not move past the end of a waiting period while it takes blobs of
the withdrawing sequencer from storage. -/
def RollupState.Patient (st : RollupState S) (blobs : RelevantBlobs S) : Prop :=
  ∀ increase, st.advance blobs = .ok increase →
    ∀ t l, st.storage.deferredBlobs t = some l → t ≤ st.chain.visibleSlotNumber + increase →
      ∀ v ∈ l, v.Escrowed → ∀ owner readyAt, st.accounts.statusOf v.sender = some (owner, .pendingWithdrawal readyAt) →
          st.chain.visibleSlotNumber + increase < readyAt

theorem PreferredTurn.advance {synced} (turn : PreferredTurn synced st.accounts st.storage blobs)
    (hSync : st.chain.synchronizeChain = .ok synced) : st.advance blobs = .ok turn.increase := by
  have hPick := turn.picking
  rw [turn.read_eq.2] at hPick
  simp only [RollupState.advance, hSync, if_neg turn.count_ne, turn.isPreferred, hPick]
  exact turn.increasing

theorem SlotOpening.advance (o : SlotOpening st blobs) : st.advance blobs = .ok o.out.visibleSlotNumberIncrease := by
  have hSync := o.synchronizing
  obtain ⟨hCount, hInc⟩ | ⟨hCount, hNone, hInc⟩ | ⟨turn, hInc⟩ :=
    (getBlobsForThisSlot_ok o.selecting).increase_cases
  · rw [hInc]
    simp only [RollupState.advance, hSync, if_pos hCount]
    rfl
  · rw [hInc]
    simp only [RollupState.advance, hSync, ok_bind, if_neg hCount, hNone]
    rfl
  · rw [hInc]
    exact turn.advance hSync

/-- Between slots: blobs are only deferred to slots that are not yet visible, and no
waiting period of their senders ends before the slot after the one they wait for. -/
structure RollupState.Guarded (st : RollupState S) : Prop where
  lagging : st.chain.Lagging
  deferred : ∀ t l, st.storage.deferredBlobs t = some l →
    S.deferredSlotsCount ≠ 0 ∧ st.chain.visibleSlotNumber < t ∧ t ≤ st.chain.trueSlotNumber
  waits : ∀ t l, st.storage.deferredBlobs t = some l → ∀ v ∈ l, v.Escrowed → ∀ owner readyAt,
    st.accounts.statusOf v.sender = some (owner, .pendingWithdrawal readyAt) → t + 2 ≤ readyAt

namespace SlotOpening
variable {st : RollupState S} {blobs : RelevantBlobs S} (o : SlotOpening st blobs)

theorem vetted : o.out.Vetted st.accounts := (getBlobsForThisSlot_ok o.selecting).vetted

theorem waits_of_active {a} (hActive : st.accounts.IsActive a) (bound : Nat) : Waits bound a o.state := by
  refine ⟨not_mem_nil, fun owner readyAt hPend => ?_⟩
  obtain ⟨address, hActive⟩ := hActive
  cases hActive.symm.trans (o.vetted.fades.statusOf_eq hPend)

variable {t : Nat} {l : List (ValidatedBlob S)}

theorem taken_entry (hc : st.chain.Lagging) (hMax : 0 < S.maxVisibleHeightIncreasePerSlot)
    (hTaken : (t, l) ∈ o.out.taken) :
    t ≤ o.advanced.visibleSlotNumber ∧
      (l = [] ∨ st.storage.deferredBlobs t = some l ∨ l = o.out.stored) := by
  obtain ⟨hSynced, _, -, _, -⟩ := o.slots hc hMax
  have hCase := getBlobsForThisSlot_ok o.selecting
  by_cases hCount : S.deferredSlotsCount = 0
  · rw [(hCase.based_storage hCount).1] at hTaken
    cases hTaken
  · rw [(hCase.deferral hSynced hCount).1] at hTaken
    obtain ⟨k, hk, hEq⟩ := mem_map.mp hTaken
    obtain ⟨rfl, rfl⟩ := Prod.mk.inj hEq
    refine ⟨by have := mem_range'_1.mp hk; omega, ?_⟩
    rw [storeBatches_deferred]
    split
    · exact .inr (.inr rfl)
    · cases st.storage.deferredBlobs k with
      | none => exact .inl rfl
      | some l => exact .inr (.inl rfl)

theorem left_entry (hc : st.Guarded) (hMax : 0 < S.maxVisibleHeightIncreasePerSlot)
    (hLeft : o.out.storage.deferredBlobs t = some l) :
    S.deferredSlotsCount ≠ 0 ∧ o.advanced.visibleSlotNumber < t ∧ t ≤ o.synced.trueSlotNumber ∧
      (st.storage.deferredBlobs t = some l ∨ l = o.out.stored) := by
  obtain ⟨hSynced, _, _, _, _, -⟩ := o.slots hc.lagging hMax
  have hCase := getBlobsForThisSlot_ok o.selecting
  by_cases hCount : S.deferredSlotsCount = 0
  · rw [(hCase.based_storage hCount).2] at hLeft
    exact absurd hCount (hc.deferred t l hLeft).1
  · rw [(hCase.deferral hSynced hCount).2] at hLeft
    split at hLeft
    · cases hLeft
    · rw [storeBatches_deferred] at hLeft
      split at hLeft
      · rename_i hHere
        refine ⟨hCount, ?_, hHere.1.le, .inr (Option.some.inj hLeft).symm⟩
        have := hSynced.visible_lt
        omega
      · have hOld := hc.deferred t l hLeft
        exact ⟨hCount, by omega, by omega, .inl hLeft⟩

theorem selected_waits (hc : st.Guarded) (hMax : 0 < S.maxVisibleHeightIncreasePerSlot)
    (hPat : st.Patient blobs) {b} (hb : b ∈ o.out.selectedBlobs)
    (hEscr : b.blobData.isEmergencyRegistration = false) :
    Waits (o.advanced.visibleSlotNumber + 1) b.sender o.state := by
  rcases o.vetted.selected b hb hEscr with hActive | hMem
  · exact o.waits_of_active hActive _
  · obtain ⟨v, hv, hContent⟩ := mem_map.mp hMem
    obtain ⟨hBlob, hSender⟩ := Prod.mk.inj hContent
    have hv' : v.Escrowed := by rw [ValidatedBlob.Escrowed, hBlob]; exact hEscr
    obtain ⟨⟨t, l⟩, hTaken, hv⟩ := mem_flatMap.mp hv
    obtain ⟨hLe, rfl | hOld | rfl⟩ := o.taken_entry hc.lagging hMax hTaken
    · cases hv
    · refine ⟨not_mem_nil, fun owner readyAt hPend => ?_⟩
      have hAdvanced := (o.slots hc.lagging hMax).2.2.2.1
      rw [← hSender] at hPend
      rw [hAdvanced] at hLe ⊢
      exact hPat _ o.advance t l hOld hLe v hv hv' owner readyAt
        (o.vetted.fades.statusOf_eq hPend)
    · rw [← hSender]
      exact o.waits_of_active (o.vetted.stored v hv hv') _

theorem deferred_waits (hc : st.Guarded) (hMax : 0 < S.maxVisibleHeightIncreasePerSlot)
    (hLeft : o.out.storage.deferredBlobs t = some l) {v} (hv : v ∈ l) (hEscr : v.Escrowed) :
    Waits (t + 2) v.sender o.state := by
  obtain ⟨-, -, -, hOld | rfl⟩ := o.left_entry hc hMax hLeft
  · refine ⟨not_mem_nil, fun owner readyAt hPend => ?_⟩
    exact hc.waits t l hOld v hv hEscr owner readyAt (o.vetted.fades.statusOf_eq hPend)
  · exact o.waits_of_active (o.vetted.stored v hv hEscr) _

theorem kept_selected (a : S.DaAddress) : Kept o.advanced (Waits (o.advanced.visibleSlotNumber + 1) a) :=
  kept_waits (Nat.lt_succ_self _) (by omega) a

theorem kept_deferred (hc : st.Guarded) (hMax : 0 < S.maxVisibleHeightIncreasePerSlot)
    (hLeft : o.out.storage.deferredBlobs t = some l) (a : S.DaAddress) : Kept o.advanced (Waits (t + 2) a) := by
  obtain ⟨_, _, _, -⟩ := o.left_entry hc hMax hLeft
  have hLag := (o.slots hc.lagging hMax).2.2.2.2.2
  exact kept_waits (by omega) (by omega) a

end SlotOpening

theorem RollupState.AtGenesis.guarded (h : st.AtGenesis) : st.Guarded where
  lagging := h.lagging
  deferred := fun t l hEntry => by simp [h.storage, BlobStorage.empty] at hEntry
  waits := fun t l hEntry => by simp [h.storage, BlobStorage.empty] at hEntry

theorem SlotTurn.guarded (turn : SlotTurn st blobs)
    (hc : st.Guarded) (hMax : 0 < S.maxVisibleHeightIncreasePerSlot) : turn.next.Guarded := by
  obtain ⟨-, -, -, -, hVis, hTrue, -⟩ := turn.slots hc.lagging.visible_le
  refine ⟨turn.lagging hc.lagging hMax, fun t l hEntry => ?_, fun t l hEntry v hv hEscr => ?_⟩
  · obtain ⟨hCount, hAbove, hLe, -⟩ := turn.opening.left_entry hc hMax hEntry
    rw [hVis, hTrue]
    exact ⟨hCount, hAbove, hLe⟩
  · exact (turn.keeps (turn.opening.kept_deferred hc hMax hEntry v.sender)
      (turn.opening.deferred_waits hc hMax hEntry hv hEscr)).2

theorem Reaches.guarded {admits start}
    (run : Reaches slot admits start st) (hStart : start.AtGenesis)
    (hMax : 0 < S.maxVisibleHeightIncreasePerSlot) : st.Guarded := by
  refine run.invariant Guarded hStart.guarded fun s s' blobs hs _ hStep => ?_
  obtain ⟨turn, rfl⟩ := slot_ok hStep
  exact turn.guarded hs hMax

/-- In every run of slots, at every point of a patient slot: for a sequencer that has
withdrawn in this slot, no blob with an escrow is left, neither among the blobs of the
slot nor in storage. -/
theorem no_blob_left_after_withdrawal (hMax : 0 < S.maxVisibleHeightIncreasePerSlot)
    {start st : RollupState S} (hStart : start.AtGenesis)
    (run : Reaches slot (fun _ _ => True) start st) {blobs : RelevantBlobs S}
    (hPatient : st.Patient blobs) {n m : Nat} {out : SelectorOutput S} {state : TxState S}
    (hPartway : st.partway blobs n m = .ok (out, state)) {a : S.DaAddress} (hWithdrawn : a ∈ state.withdrawn) :
    (∀ b ∈ out.selectedBlobs, b.sender = a → b.blobData.isEmergencyRegistration = true) ∧
      ∀ t l, out.storage.deferredBlobs t = some l → ∀ v ∈ l, v.sender = a →
        v.blob.isEmergencyRegistration = true := by
  have hc := Reaches.guarded run hStart hMax
  obtain ⟨o, rfl, hKeeps⟩ := partway_ok hPartway
  refine ⟨fun b hb hSender => ?_, fun t l hLeft v hv hSender => ?_⟩
  · by_contra hEscrowed
    have hWaits := o.selected_waits hc hMax hPatient hb (by simpa using hEscrowed)
    exact (hKeeps _ (o.kept_selected b.sender) hWaits).1 (hSender ▸ hWithdrawn)
  · by_contra hEscrowed
    have hWaits := o.deferred_waits hc hMax hLeft hv (by simpa [ValidatedBlob.Escrowed] using hEscrowed)
    exact (hKeeps _ (o.kept_deferred hc hMax hLeft v.sender) hWaits).1 (hSender ▸ hWithdrawn)

def threeSlotSpec : Spec := { testSpec with deferredSlotsCount := 3 }

/-- The preferred sequencer 1, owned by address 7, and a user 8 with funds of its own. -/
def twoAccountsGenesis : GenesisConfig threeSlotSpec where
  bank := { gasTokenConfig := some ⟨"gas", 0, [((7 : Nat), 5000), ((8 : Nat), 5000)], [], none⟩, tokens := [] }
  sequencerRegistry := ⟨0, ⟨(7 : Nat), (1 : Nat), 1000, true⟩⟩
  chainState := ⟨.zk, none, (7 : Nat)⟩

/-- A transaction of user 8 with one call to the sequencer registry. -/
def registryTx (message : SequencerRegistry.CallMessage threeSlotSpec) : FullyBakedTx threeSlotSpec :=
  let idle : FullyBakedTx threeSlotSpec := .idle (8 : Nat)
  { idle with
    behaviour := { idle.behaviour with
      details := ⟨0, 100, none⟩
      actions := [.sequencerRegistry message] } }

/-- A batch of the preferred sequencer with one such transaction. -/
def registryBatch (number : Nat) (advance : Fin 10) (message : SequencerRegistry.CallMessage threeSlotSpec) :
    BlobTransaction threeSlotSpec :=
  preferredBatchOf (1 : Nat) number advance [registryTx message] (Nat.le_of_ble_eq_true rfl)

/-- A slot with such a batch and another blob. -/
def registrySlot (number : Nat) (message : SequencerRegistry.CallMessage threeSlotSpec)
    (blob : BlobTransaction threeSlotSpec) : RelevantBlobs threeSlotSpec :=
  ⟨[registryBatch number 0 message, blob], []⟩

/-- User 8 registers sequencer 2 in the first slot and starts to withdraw in the fourth,
in which a batch of the sequencer is deferred; the visible slot is then slot 2. -/
def withdrawalSlots : List (RelevantBlobs threeSlotSpec) :=
  [⟨[registryBatch 0 0 (.register (2 : Nat) 1000)], []⟩, ⟨[], []⟩, ⟨[], []⟩,
    ⟨[registryBatch 1 0 (.initiateWithdrawal (2 : Nat)), emptyBatchBlob (2 : Nat) 60], []⟩, ⟨[], []⟩]

/-- In the sixth slot the preferred sequencer moves the visible slot from 3 to 6, where
the waiting period ends. Its batch withdraws the stake of sequencer 2 before the batch
deferred in the fourth slot is executed. -/
theorem blob_left_after_withdrawal :
    ∃ (start st : RollupState threeSlotSpec) (out : SelectorOutput threeSlotSpec)
      (state : TxState threeSlotSpec) (b : SelectedBlob threeSlotSpec),
      genesis twoAccountsGenesis = .ok start ∧
      Reaches slot (fun _ _ => True) start st ∧
      st.partway ⟨[registryBatch 2 2 (.withdraw (2 : Nat))], []⟩ 1 0 = .ok (out, state) ∧
      state.withdrawn = [(2 : Nat)] ∧ out.selectedBlobs[1]? = some b ∧ b.sender = (2 : Nat) ∧
      b.blobData.isEmergencyRegistration = false ∧
      applySlot st ⟨[registryBatch 2 2 (.withdraw (2 : Nat))], []⟩ = .error .addToStake :=
  ⟨_, _, _, _, _, rfl, .of_foldlM (l := withdrawalSlots) (fun _ _ => trivial) rfl .refl, rfl, rfl, rfl, rfl, rfl, rfl⟩

/-- The same withdrawal, started while no slot is deferred: the batch of sequencer 2 is
executed in the second slot, and nothing of it is left in the sixth. -/
theorem no_blob_left_after_early_batch :
    ∃ (start st : RollupState threeSlotSpec) (out : SelectorOutput threeSlotSpec) (state : TxState threeSlotSpec),
      genesis twoAccountsGenesis = .ok start ∧
      Reaches slot (fun _ _ => True) start st ∧
      st.partway ⟨[registryBatch 2 2 (.withdraw (2 : Nat))], []⟩ 1 0 = .ok (out, state) ∧
      state.withdrawn = [(2 : Nat)] ∧
      ∀ b ∈ out.selectedBlobs, b.sender = (2 : Nat) → b.blobData.isEmergencyRegistration = true := by
  obtain ⟨start, hGenesis, st, hRun, out, state, hPartway, hWithdrawn, _, _, hFour, hFive⟩ :
      ∃ start, genesis twoAccountsGenesis = .ok start ∧ ∃ st, ([⟨[registryBatch 0 0 (.register (2 : Nat) 1000)], []⟩,
            ⟨[registryBatch 1 0 (.initiateWithdrawal (2 : Nat)), emptyBatchBlob (2 : Nat) 60], []⟩, ⟨[], []⟩, ⟨[], []⟩,
            ⟨[], []⟩] : List (RelevantBlobs threeSlotSpec)).foldlM slot start = .ok st ∧
        ∃ out state, st.partway ⟨[registryBatch 2 2 (.withdraw (2 : Nat))], []⟩ 1 0 = .ok (out, state) ∧
          state.withdrawn = [(2 : Nat)] ∧ st.chain.visibleSlotNumber = 3 ∧ st.chain.trueSlotNumber = 5 ∧
          st.storage.deferredBlobs 4 = none ∧ st.storage.deferredBlobs 5 = none :=
    ⟨_, rfl, _, rfl, _, _, rfl, rfl, rfl, rfl, rfl, rfl⟩
  have hStart := genesis_atGenesis hGenesis
  have hReaches : Reaches slot (fun _ _ => True) start st :=
    .of_foldlM (fun _ _ => trivial) hRun .refl
  have hPatient : st.Patient ⟨[registryBatch 2 2 (.withdraw (2 : Nat))], []⟩ := by
    intro increase _ t l hEntry
    -- only slots 4 and 5 are not yet visible, and nothing is stored for them
    obtain ⟨-, _, _⟩ := (Reaches.guarded hReaches hStart (by decide)).deferred t l hEntry
    obtain rfl | rfl : t = 4 ∨ t = 5 := by omega
    · cases hFour.symm.trans hEntry
    · cases hFive.symm.trans hEntry
  have hNone := no_blob_left_after_withdrawal (by decide) hStart hReaches hPatient hPartway
    (hWithdrawn ▸ mem_singleton_self (2 : Nat))
  exact ⟨start, st, out, state, hGenesis, hReaches, hPartway, hWithdrawn, hNone.1⟩

end SovereignSdk
