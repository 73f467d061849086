import SovereignSdk.Library.Outcome

/-! The main loop of the runner: it asks the DA layer for one block after the other and executes those that continue a
processed block. While a block is awaited, the head of the DA layer may roll back. -/
namespace SovereignSdk
open Outcome Option

structure BlockHeader where
  height : Nat
  hash : Nat
  prevHash : Nat
deriving DecidableEq

/-- The last block that was processed and is final, and the processed ones that are not final yet. -/
structure StateManager where
  lastProcessedFinalizedHeader : BlockHeader
  stateOnBlock : List BlockHeader

def StateManager.isContinuation (m : StateManager) (header : BlockHeader) : Bool :=
  if header.height ≤ m.lastProcessedFinalizedHeader.height then false
  else
    let processed := m.stateOnBlock.any (·.hash = header.hash)
    let adjacentToLastFinalized := header.prevHash = m.lastProcessedFinalizedHeader.hash
    let hasSeenPredecessor := m.stateOnBlock.any (·.hash = header.prevHash)
    !processed && (adjacentToLastFinalized || hasSeenPredecessor)

/-- The loop's request, and the height that the reorg-aware fetch asks for in its present attempt. -/
structure BlockRequest where
  nextDaHeight : Nat
  requestedHeight : Nat
  attempt : Nat

def BlockRequest.new (nextDaHeight : Nat) : BlockRequest := ⟨nextDaHeight, nextDaHeight, 1⟩

/-- A processed block with the synced height that is published after it and the next height that is requested. -/
structure ProcessedSlot where
  header : BlockHeader
  syncedDaHeight : Nat
  nextDaHeight : Option Nat

def ProcessedSlot.Exact (slot : ProcessedSlot) : Prop :=
  slot.syncedDaHeight = slot.header.height ∧ ∀ next ∈ slot.nextDaHeight, next = slot.header.height + 1

theorem ProcessedSlot.exact_iff {header next} {stop : Prop} [Decidable stop] :
    Exact ⟨header, next, if stop then none else some (next + 1)⟩ ↔ header.height = next := by
  refine ⟨fun h => h.1.symm, fun h => ⟨h.symm, fun _ hNext => ?_⟩⟩
  split at hNext
  · cases hNext
  · exact (some.inj hNext).symm.trans (congrArg _ h.symm)

structure RunnerConfig where
  lastFinalizedHeight : Nat
  stopAtRollupHeight : Option Nat

/-- There is no request once the loop has ended. The processed slots are kept for the statements only. -/
structure Runner where
  request : Option BlockRequest
  syncedDaHeight : Nat
  targetDaHeight : Nat
  stateManager : StateManager
  slots : List ProcessedSlot

inductive RunnerError where
  | futureBlock
  | consecutiveReorgs
  | aboveStopHeight
deriving DecidableEq

/-- What the runner learns from the state manager and the execution: where to go on after a block that is no
continuation, the state manager after one that is (the block is added, final and orphaned ones have left), and the
rollup height. -/
structure SlotResult where
  heightToFetch : Nat
  stateManager : StateManager
  rollupHeight : Nat

/-- The status updater has seen a new head; the fetch looks at the status; the DA layer returns the block at the
requested height. -/
inductive RunnerEvent where
  | updateTarget (height : Nat)
  | pollStatus
  | block (hash prevHash : Nat) (result : SlotResult)

def maxGetBlockAttempts : Nat := 10

namespace Runner

def start (lastProcessed : BlockHeader) (targetDaHeight : Nat) : Runner :=
  ⟨some (.new (lastProcessed.height + 1)), lastProcessed.height, targetDaHeight, ⟨lastProcessed, []⟩, []⟩

variable (cfg : RunnerConfig) (s : Runner)

def updateSynced (height : Nat) : Runner :=
  { s with syncedDaHeight := height, targetDaHeight := max s.targetDaHeight height }

/-- A head just below the requested height is what a synced node waits at. Final heights come from the bulk fetcher,
which does not look at the status. -/
def pollStatus (request : BlockRequest) : Except RunnerError Runner :=
  if request.nextDaHeight ≤ cfg.lastFinalizedHeight ∨ request.requestedHeight ≤ s.targetDaHeight + 1 then .ok s
  else if request.attempt = maxGetBlockAttempts then .error .consecutiveReorgs
  else
    .ok { s with request := some ⟨request.nextDaHeight, s.targetDaHeight, request.attempt + 1⟩ }

def processNextSlot (next : Nat) (header : BlockHeader) (result : SlotResult) : Except RunnerError Runner := do
  ensure .futureBlock (header.height ≤ next)
  if s.stateManager.isContinuation header then
    let s := s.updateSynced next
    let following := if cfg.stopAtRollupHeight = some result.rollupHeight then none else some (next + 1)
    ensure .aboveStopHeight (∀ stop ∈ cfg.stopAtRollupHeight, result.rollupHeight ≤ stop)
    return { s with
      request := following.map .new
      stateManager := result.stateManager
      slots := s.slots ++ [⟨header, s.syncedDaHeight, following⟩] }
  else
    return { s with request := some (.new result.heightToFetch) }

def step (s : Runner) : RunnerEvent → Except RunnerError Runner
  | .updateTarget height => .ok { s with targetDaHeight := height }
  | .pollStatus => s.request.elim (.ok s) (s.pollStatus cfg)
  | .block hash prevHash result =>
    s.request.elim (.ok s) fun request =>
      s.processNextSlot cfg request.nextDaHeight ⟨request.requestedHeight, hash, prevHash⟩ result

/-- A block that continues a processed one is at the height that the loop has asked for, not at one that the fetch has
fallen back to. -/
def AsRequested (s : Runner) : RunnerEvent → Prop
  | .block hash prevHash _ => ∀ request ∈ s.request,
    s.stateManager.isContinuation ⟨request.requestedHeight, hash, prevHash⟩ →
      request.requestedHeight = request.nextDaHeight
  | _ => True

def Published : Prop := ∀ slot ∈ s.slots, slot.Exact

/-- A fetch only falls back. -/
def Behind : Prop := ∀ request ∈ s.request, request.requestedHeight ≤ request.nextDaHeight

variable {s}

theorem step_yields (hs : s.Behind) (event : RunnerEvent) :
    Yields (fun s' => s'.Behind ∧ (s'.Published ↔ s.Published ∧ s.AsRequested event)) (· ≠ .futureBlock)
      (s.step cfg event) := by
  cases hRequest : s.request with
  | none => cases event <;> simp [step, Behind, Published, AsRequested, hRequest]
  | some request =>
    have hLe := hs request hRequest
    cases event with
    | updateTarget height => exact ⟨hs, (and_iff_left trivial).symm⟩
    | pollStatus =>
      simp only [step, hRequest, elim_some, pollStatus]
      split
      · exact ⟨hs, (and_iff_left trivial).symm⟩
      · rename_i hBack
        split
        · simp
        · refine ⟨?_, (and_iff_left trivial).symm⟩
          rintro _ ⟨⟩
          dsimp only
          omega
    | block hash prevHash result =>
      simp only [step, hRequest, elim_some, processNextSlot, ensure, hLe, if_true, ok_bind]
      split
      · rename_i hCont
        split
        · refine ⟨?_, ?_⟩
          · simp only [Behind, mem_def, map_eq_some_iff]
            rintro _ ⟨next, -, rfl⟩
            exact Nat.le_refl _
          · simp [Published, updateSynced, AsRequested, hRequest, hCont, or_imp, forall_and, ProcessedSlot.exact_iff]
        · simp
      · rename_i hCont
        refine ⟨?_, ?_⟩
        · rintro _ ⟨⟩
          exact Nat.le_refl _
        · simp [Published, AsRequested, hRequest, hCont]

/-- For every configuration and every history of heads and blocks: the fetch never returns a block above the requested
height, and after each processed slot the published height is the block's and the next one is requested, just if no
block that a fetch has fallen back to continues a processed one. -/
theorem published_heights_exact_iff (cfg : RunnerConfig) (lastProcessed : BlockHeader) (target : Nat)
    (events : List RunnerEvent) :
    Yields (fun s => (∀ slot ∈ s.slots, slot.Exact) ↔ Along (step cfg) AsRequested (start lastProcessed target) events)
      (· ≠ .futureBlock) (events.foldlM (step cfg) (start lastProcessed target)) := by
  have hStart : (start lastProcessed target).Behind := by
    rintro _ ⟨⟩
    exact Nat.le_refl _
  refine ((Yields.foldlM Behind events (fun _ event _ h => ?_) hStart).and_of_ok fun s hRun => ?_).mono
    (fun _ h => h.2) fun _ h => h
  · exact (step_yields cfg h event).mono (fun _ h => h.1) fun _ h => h
  · have hIff := foldlM_iff_along Behind Published (fun _ event _ h => (step_yields cfg h event).of_ok) hStart hRun
    exact hIff.trans (and_iff_right (by simp [Published, start]))

def afterBlocks (blocks : List BlockHeader) : SlotResult := ⟨0, ⟨⟨0, 0, 0⟩, blocks⟩, 0⟩

/-- While the third block is awaited, the head rolls back to another first block, which is processed but published as
the third one. -/
theorem rolled_back_block_published_higher :
    ∃ s, [.block 1 0 (afterBlocks [⟨1, 1, 0⟩]), .block 2 1 (afterBlocks [⟨1, 1, 0⟩, ⟨2, 2, 1⟩]), .updateTarget 1,
        .pollStatus, .block 11 0 (afterBlocks [⟨1, 1, 0⟩, ⟨2, 2, 1⟩, ⟨1, 11, 0⟩])].foldlM (step ⟨0, none⟩)
          (start ⟨0, 0, 0⟩ 2) = .ok s ∧
      s.slots.map (·.header.height) = [1, 2, 1] ∧ s.syncedDaHeight = 3 ∧ s.request = some (.new 4) :=
  ⟨_, rfl, rfl, rfl, rfl⟩

end Runner
end SovereignSdk
