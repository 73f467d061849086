import SovereignSdk.Gas.Meter
import SovereignSdk.Library.OrderedMap

/-! Transactions that carry a generation are told apart by their hashes. The hashes of the latest
generations of a credential are kept in buckets; older generations are pruned, and refused. -/
namespace SovereignSdk
open Bounded Outcome OrderedMap Nat Finset Function Yields

/-- `PAST_TRANSACTION_GENERATIONS` and `MAX_STORED_TX_HASHES_PER_CREDENTIAL`. -/
structure UniquenessConfig where
  pastTransactionGenerations : Nat
  maxStoredTxHashesPerCredential : Nat

structure GenerationTx (Credential Hash : Type) where
  credentialId : Credential
  generation : Nat
  hash : Hash
deriving DecidableEq

inductive UniquenessError (Credential Hash : Type) where
  | pastGenerationsZero
  | badGeneration (tx : GenerationTx Credential Hash) (latestGeneration : Nat)
  | duplicate (tx : GenerationTx Credential Hash)
  | bucketLengthOverflow
  | addOverflow
  | incrementOverflow
  | lastGenerationOverflow
  | tooManyTransactions (tx : GenerationTx Credential Hash) (lastGenerationBeforePruning : Nat)
  /-- The `expect` on the first bucket panics. -/
  | noBucket

inductive MarkPanic (Credential Hash : Type) where
  | pastGenerationsZero
  | olderThanCutoff
  | duplicate (tx : GenerationTx Credential Hash)

abbrev TxBuckets (Hash : Type) := OrderedMap Nat (Finset Hash)

variable {Credential Hash : Type}

namespace TxBuckets

def latestGeneration (buckets : TxBuckets Hash) (generation : Nat) : Nat := buckets.lastKey.getD generation

/-- A generation above the latest one moves the range up. -/
def prune (cfg : UniquenessConfig) (buckets : TxBuckets Hash) (generation : Nat) : TxBuckets Hash :=
  if buckets.latestGeneration generation < generation then
    buckets.splitOff (generation - cfg.pastTransactionGenerations)
  else buckets

def numTxs (buckets : TxBuckets Hash) : Except (UniquenessError Credential Hash) Nat :=
  buckets.entries.foldlM (fun acc entry => do
    ensure .bucketLengthOverflow (entry.2.card ≤ u64Max)
    unwrap .addOverflow (checkedAdd u64Max acc entry.2.card)) 0

def record [DecidableEq Hash] (buckets : TxBuckets Hash) (generation : Nat) (hash : Hash) : TxBuckets Hash :=
  buckets.insert generation (insert hash ((buckets.lookup generation).getD ∅))

end TxBuckets

structure Uniqueness (Credential Hash : Type) where
  generations : Credential → Option (TxBuckets Hash)

namespace Uniqueness
variable [DecidableEq Credential] [DecidableEq Hash]

def empty : Uniqueness Credential Hash := ⟨fun _ => none⟩

def buckets (u : Uniqueness Credential Hash) (credentialId : Credential) : TxBuckets Hash :=
  (u.generations credentialId).getD .empty

variable (cfg : UniquenessConfig)

def checkGenerationUniqueness (u : Uniqueness Credential Hash)
    (tx : GenerationTx Credential Hash) : Except (UniquenessError Credential Hash) Unit := do
  let senders := u.buckets tx.credentialId
  let latest := senders.latestGeneration tx.generation
  let cutoff ← unwrap .pastGenerationsZero (checkedSub cfg.pastTransactionGenerations 1)
  ensure (.badGeneration tx latest) (latest - cutoff ≤ tx.generation)
  ensure (.duplicate tx) (∀ bucket ∈ senders.lookup tx.generation, tx.hash ∉ bucket)
  -- The buckets that marking will prune are not counted; nothing is saved here.
  let senders := senders.prune cfg tx.generation
  let count ← senders.numTxs
  let count ← unwrap .incrementOverflow (checkedAdd u64Max count 1)
  if cfg.maxStoredTxHashesPerCredential < count then
    let earliest ← unwrap .noBucket senders.entries.head?
    let last ← unwrap .lastGenerationOverflow (checkedAdd u64Max earliest.1 cfg.pastTransactionGenerations)
    throw (.tooManyTransactions tx last)

def markGenerationalTxAttempted (u : Uniqueness Credential Hash)
    (tx : GenerationTx Credential Hash) : Except (MarkPanic Credential Hash) (Uniqueness Credential Hash) := do
  let senders := u.buckets tx.credentialId
  let latest := senders.latestGeneration tx.generation
  let cutoff ← unwrap .pastGenerationsZero (checkedSub cfg.pastTransactionGenerations 1)
  ensure .olderThanCutoff (latest - cutoff ≤ tx.generation)
  let senders := senders.prune cfg tx.generation
  ensure (.duplicate tx) (tx.hash ∉ (senders.lookup tx.generation).getD ∅)
  return ⟨update u.generations tx.credentialId (some (senders.record tx.generation tx.hash))⟩

/-- A transaction is marked if its check passes, and refused otherwise. -/
def attempt :
    Uniqueness Credential Hash × List (GenerationTx Credential Hash) → GenerationTx Credential Hash →
      Except (MarkPanic Credential Hash) (Uniqueness Credential Hash × List (GenerationTx Credential Hash))
  | (u, accepted), tx =>
    match u.checkGenerationUniqueness cfg tx with
    | .error _ => .ok (u, accepted)
    | .ok () => do return (← u.markGenerationalTxAttempted cfg tx, accepted ++ [tx])

end Uniqueness

namespace TxBuckets
variable {cfg : UniquenessConfig} {buckets : TxBuckets Hash} {generation g : Nat} {hash h : Hash}
  {entry : Nat × Finset Hash}

def count (buckets : TxBuckets Hash) : Nat := (buckets.entries.map fun entry => entry.2.card).sum

def Holds (buckets : TxBuckets Hash) (generation : Nat) (hash : Hash) : Prop :=
  ∃ bucket, (generation, bucket) ∈ buckets.entries ∧ hash ∈ bucket

theorem numTxs_yields (Credential : Type) (buckets : TxBuckets Hash) : Yields (· = buckets.count)
    (fun e => u64Max < buckets.count ∧ ∀ tx last, e ≠ .tooManyTransactions tx last)
    (buckets.numTxs : Except (UniquenessError Credential Hash) Nat) := by
  refine foldlM_suffix (fun rest acc => acc + (rest.map fun entry => entry.2.card).sum = buckets.count)
    (fun acc entry rest hInv => ?_) _ 0 (zero_add _)
  rw [List.map_cons, List.sum_cons] at hInv
  refine intro (fun next hNext => ?_) fun e hError => ?_
  · simp only [bind_eq_ok, unwrap_eq_ok, checkedAdd_eq_some] at hNext
    obtain ⟨-, -, -, rfl⟩ := hNext
    rw [← hInv, add_assoc]
  · simp only [bind_eq_error, ensure_eq_error, unwrap_eq_error, checkedAdd_eq_none] at hError
    rcases hError with ⟨hOver, rfl⟩ | ⟨_, -, hOver, rfl⟩
    · exact ⟨by omega, by simp⟩
    · exact ⟨by omega, by simp⟩

theorem mem_bucket_iff : hash ∈ (buckets.lookup generation).getD ∅ ↔ buckets.Holds generation hash := by
  simp only [Holds, ← lookup_eq_some]
  cases buckets.lookup generation <;> simp

theorem mem_prune :
    entry ∈ (buckets.prune cfg generation).entries ↔ entry ∈ buckets.entries ∧
      (buckets.latestGeneration generation < generation → generation - cfg.pastTransactionGenerations ≤ entry.1) := by
  unfold prune
  split <;> simp [*]

theorem le_latestGeneration (hEntry : entry ∈ buckets.entries) : entry.1 ≤ buckets.latestGeneration generation := by
  unfold latestGeneration
  cases hLast : buckets.lastKey with
  | none =>
    rw [List.getLast?_eq_none_iff.mp (Option.map_eq_none_iff.mp hLast)] at hEntry
    cases hEntry
  | some latest => exact le_lastKey hLast hEntry

theorem exists_latestGeneration (hEntry : entry ∈ buckets.entries) (generation : Nat) :
    ∃ last ∈ buckets.entries, buckets.latestGeneration generation = last.1 := by
  cases hLast : buckets.entries.getLast? with
  | none =>
    rw [List.getLast?_eq_none_iff.mp hLast] at hEntry
    cases hEntry
  | some last => exact ⟨last, List.mem_of_getLast? hLast, by simp [latestGeneration, lastKey, hLast]⟩

theorem count_prune_le (cfg : UniquenessConfig) (buckets : TxBuckets Hash) (generation : Nat) :
    (buckets.prune cfg generation).count ≤ buckets.count := by
  unfold prune
  split
  · exact (List.filter_sublist.map _).sum_le_sum fun _ _ => zero_le _
  · exact le_refl _

structure Fresh (cfg : UniquenessConfig) (buckets : TxBuckets Hash) (generation : Nat) (hash : Hash) : Prop where
  past : 1 ≤ cfg.pastTransactionGenerations
  cutoff : buckets.latestGeneration generation - (cfg.pastTransactionGenerations - 1) ≤ generation
  new : ¬buckets.Holds generation hash
  room : (buckets.prune cfg generation).count + 1 ≤ cfg.maxStoredTxHashesPerCredential

/-- What every reachable state has: no bucket is empty, and the range of generations is bounded. -/
structure Spread (cfg : UniquenessConfig) (buckets : TxBuckets Hash) : Prop where
  nonempty : ∀ entry ∈ buckets.entries, entry.2.Nonempty
  within : ∀ entry ∈ buckets.entries, ∀ later ∈ buckets.entries, later.1 ≤ entry.1 + cfg.pastTransactionGenerations

/-- The hash is stored, or its generation is older than the cutoff. -/
def Remembers (cfg : UniquenessConfig) (buckets : TxBuckets Hash) (generation : Nat) (hash : Hash) : Prop :=
  buckets.Holds generation hash ∨ ∃ entry ∈ buckets.entries, generation < entry.1 - (cfg.pastTransactionGenerations - 1)

theorem Fresh.not_remembers (hFresh : buckets.Fresh cfg generation hash) : ¬buckets.Remembers cfg generation hash := by
  rintro (hHolds | ⟨entry, hEntry, hOld⟩)
  · exact hFresh.new hHolds
  · exact absurd (hOld.trans_le (Nat.sub_le_sub_right (le_latestGeneration hEntry) _)) (Nat.not_lt.mpr hFresh.cutoff)

theorem Fresh.new_prune (hFresh : buckets.Fresh cfg generation hash) :
    ¬(buckets.prune cfg generation).Holds generation hash :=
  fun ⟨bucket, hBucket, hMem⟩ => hFresh.new ⟨bucket, (mem_prune.mp hBucket).1, hMem⟩

/-- A generation that pushes the earliest bucket out of the range makes room for a hash. -/
theorem Spread.makes_room {earliest} (h : buckets.Spread cfg)
    (hHead : (buckets.prune cfg generation).entries.head? = some earliest)
    (hAbove : earliest.1 + cfg.pastTransactionGenerations < g) :
    buckets.latestGeneration g < g ∧ (buckets.prune cfg g).count < (buckets.prune cfg generation).count := by
  obtain ⟨hEntry, hKept⟩ := mem_prune.mp (List.mem_of_head? hHead)
  obtain ⟨last, hLast, hLatest⟩ := exists_latestGeneration hEntry g
  have hTop : buckets.latestGeneration g < g := by
    have hWithin := h.within earliest hEntry last hLast
    omega
  refine ⟨hTop, ?_⟩
  have hSame : (buckets.prune cfg g).entries =
      ((buckets.prune cfg generation).splitOff (g - cfg.pastTransactionGenerations)).entries := by
    refine eq_of_mem_iff (OrderedMap.ascending _) (OrderedMap.ascending _) fun entry => ?_
    rw [mem_splitOff, mem_prune, mem_prune]
    constructor
    · rintro ⟨hMem, hNew⟩
      have hNew := hNew hTop
      exact ⟨⟨hMem, fun hGeneration => by have := hKept hGeneration; omega⟩, hNew⟩
    · rintro ⟨⟨hMem, -⟩, hNew⟩
      exact ⟨hMem, fun _ => hNew⟩
  obtain ⟨rest, hRest⟩ := List.head?_eq_some_iff.mp hHead
  have hCard := card_pos.mpr (h.nonempty earliest hEntry)
  have hOut : ¬g - cfg.pastTransactionGenerations ≤ earliest.1 := by omega
  have hSum := ((@List.filter_sublist _ (fun e => g - cfg.pastTransactionGenerations ≤ e.1) rest).map
    fun entry => entry.2.card).sum_le_sum fun _ _ => zero_le _
  simp only [hSame, count, splitOff, hRest, List.filter_cons, hOut, decide_false, Bool.false_eq_true, if_false,
    List.map_cons, List.sum_cons]
  omega

variable [DecidableEq Hash]

theorem count_record (hNew : ¬buckets.Holds generation hash) :
    (buckets.record generation hash).count = buckets.count + 1 := by
  have hCard := card_insert_of_notMem (mem_bucket_iff.not.mpr hNew)
  unfold count record
  cases hBucket : buckets.lookup generation with
  | none =>
    have hNone : ∀ entry ∈ buckets.entries, entry.1 ≠ generation := by simpa [lookup] using hBucket
    rw [((insert_perm _ hNone).map _).sum_eq]
    simp [add_comm]
  | some bucket =>
    have hSame := insert_eq_self (lookup_eq_some.mp hBucket)
    rw [← hSame, ((buckets.insert_perm_erase generation _).map _).sum_eq,
      ((buckets.insert_perm_erase generation _).map _).sum_eq]
    simp only [hBucket, Option.getD_some] at hCard
    simp [hCard, add_right_comm]

theorem holds_record : (buckets.record generation hash).Holds generation hash :=
  ⟨_, mem_insert.mpr (.inl rfl), mem_insert_self _ _⟩

theorem Holds.record (hHolds : buckets.Holds g h) : (buckets.record generation hash).Holds g h := by
  by_cases hSame : g = generation
  · subst hSame
    exact ⟨_, mem_insert.mpr (.inl rfl), mem_insert_of_mem (mem_bucket_iff.mpr hHolds)⟩
  · obtain ⟨bucket, hBucket, hMem⟩ := hHolds
    exact ⟨bucket, mem_insert.mpr (.inr ⟨hSame, hBucket⟩), hMem⟩

theorem Remembers.record (hRemembers : buckets.Remembers cfg g h) :
    ((buckets.prune cfg generation).record generation hash).Remembers cfg g h := by
  have hNew : (generation, _) ∈ ((buckets.prune cfg generation).record generation hash).entries :=
    mem_insert.mpr (.inl rfl)
  by_cases hAbove : buckets.latestGeneration generation < generation
  · rcases hRemembers with ⟨bucket, hBucket, hMem⟩ | ⟨entry, hEntry, _⟩
    · by_cases hKept : generation - cfg.pastTransactionGenerations ≤ g
      · exact .inl (Holds.record ⟨bucket, mem_prune.mpr ⟨hBucket, fun _ => hKept⟩, hMem⟩)
      · exact .inr ⟨_, hNew, by omega⟩
    · have hTop := (le_latestGeneration hEntry).trans_lt hAbove
      exact .inr ⟨_, hNew, by omega⟩
  · rw [show buckets.prune cfg generation = buckets from if_neg hAbove] at hNew ⊢
    rcases hRemembers with hHolds | ⟨entry, hEntry, hOld⟩
    · exact .inl hHolds.record
    · by_cases hKey : entry.1 = generation
      · exact .inr ⟨_, hNew, hKey ▸ hOld⟩
      · exact .inr ⟨entry, mem_insert.mpr (.inr ⟨hKey, hEntry⟩), hOld⟩

theorem Spread.record (h : buckets.Spread cfg) (hFresh : buckets.Fresh cfg generation hash) :
    ((buckets.prune cfg generation).record generation hash).Spread cfg := by
  have hNear : ∀ entry ∈ (buckets.prune cfg generation).entries,
      generation ≤ entry.1 + cfg.pastTransactionGenerations ∧
        entry.1 ≤ generation + cfg.pastTransactionGenerations := by
    intro entry hEntry
    obtain ⟨hEntry, hKept⟩ := mem_prune.mp hEntry
    obtain ⟨last, hLast, hLatest⟩ := exists_latestGeneration hEntry generation
    have hTop : entry.1 ≤ buckets.latestGeneration generation := le_latestGeneration hEntry
    have hCutoff := hFresh.cutoff
    have hWithin := h.within entry hEntry last hLast
    by_cases hAbove : buckets.latestGeneration generation < generation
    · omega
    · omega
  constructor
  · intro entry hEntry
    rcases mem_insert.mp hEntry with rfl | ⟨-, hEntry⟩
    · exact insert_nonempty _ _
    · exact h.nonempty entry (mem_prune.mp hEntry).1
  · intro entry hEntry later hLater
    rcases mem_insert.mp hEntry with rfl | ⟨-, hEntry⟩
    · rcases mem_insert.mp hLater with rfl | ⟨-, hLater⟩
      · exact le_add_right _ _
      · exact (hNear later hLater).2
    · rcases mem_insert.mp hLater with rfl | ⟨-, hLater⟩
      · exact (hNear entry hEntry).1
      · exact h.within entry (mem_prune.mp hEntry).1 later (mem_prune.mp hLater).1

end TxBuckets

namespace Uniqueness
open TxBuckets
variable {cfg : UniquenessConfig} {u : Uniqueness Credential Hash} {tx : GenerationTx Credential Hash}
  [DecidableEq Hash]

theorem check_ok (h : u.checkGenerationUniqueness cfg tx = .ok ()) :
    (u.buckets tx.credentialId).Fresh cfg tx.generation tx.hash := by
  simp only [checkGenerationUniqueness, bind_eq_ok, unwrap_eq_ok, ensure_eq_ok, checkedSub_eq_some,
    checkedAdd_eq_some] at h
  obtain ⟨_, ⟨hPast, rfl⟩, _, hCutoff, _, hNew, count, hCount, _, ⟨-, rfl⟩, hRoom⟩ := h
  refine ⟨hPast, hCutoff, ?_, ?_⟩
  · rintro ⟨bucket, hBucket, hMem⟩
    exact hNew bucket (lookup_eq_some.mpr hBucket) hMem
  · rw [← (numTxs_yields ..).of_ok hCount]
    refine Nat.le_of_not_lt fun hFull => ?_
    rw [if_pos hFull] at hRoom
    simp [bind_eq_ok] at hRoom

theorem check_full {tx' last} (h : u.checkGenerationUniqueness cfg tx = .error (.tooManyTransactions tx' last)) :
    1 ≤ cfg.pastTransactionGenerations ∧
    ((u.buckets tx.credentialId).prune cfg tx.generation).count < u64Max ∧
    ∃ earliest, ((u.buckets tx.credentialId).prune cfg tx.generation).entries.head? = some earliest ∧
      last = earliest.1 + cfg.pastTransactionGenerations := by
  simp only [checkGenerationUniqueness, bind_eq_error, unwrap_eq_error, ensure_eq_error, unwrap_eq_ok, reduceCtorEq,
    and_false, false_or, checkedSub_eq_some, checkedAdd_eq_some] at h
  obtain ⟨_, ⟨hPast, rfl⟩, _, -, _, -, hCount | ⟨count, hCount, _, ⟨hLe, rfl⟩, h⟩⟩ := h
  · exact absurd rfl (((numTxs_yields ..).of_error hCount).2 _ _)
  · cases (numTxs_yields ..).of_ok hCount
    split at h
    · simp only [bind_eq_error, unwrap_eq_error, unwrap_eq_ok, reduceCtorEq, and_false, false_or,
        checkedAdd_eq_some] at h
      obtain ⟨earliest, hHead, _, ⟨-, rfl⟩, hThrow⟩ := h
      cases hThrow
      exact ⟨hPast, hLe, earliest, hHead, rfl⟩
    · cases h

variable [DecidableEq Credential]

theorem mark_of_fresh (h : (u.buckets tx.credentialId).Fresh cfg tx.generation tx.hash) :
    u.markGenerationalTxAttempted cfg tx = .ok ⟨update u.generations tx.credentialId
      (some (((u.buckets tx.credentialId).prune cfg tx.generation).record tx.generation tx.hash))⟩ := by
  simp only [markGenerationalTxAttempted, bind_eq_ok, unwrap_eq_ok, ensure_eq_ok, checkedSub_eq_some]
  exact ⟨_, ⟨h.past, rfl⟩, (), h.cutoff, (), mem_bucket_iff.not.mpr h.new_prune, rfl⟩

omit [DecidableEq Hash] in
theorem buckets_update {buckets c c'} :
    (⟨update u.generations c (some buckets)⟩ : Uniqueness Credential Hash).buckets c' =
      if c' = c then buckets else u.buckets c' := by
  simp only [Uniqueness.buckets, update_apply]
  split <;> rfl

structure AcceptsOnce (cfg : UniquenessConfig)
    (s : Uniqueness Credential Hash × List (GenerationTx Credential Hash)) : Prop where
  once : s.2.Nodup
  remembers : ∀ tx ∈ s.2, (s.1.buckets tx.credentialId).Remembers cfg tx.generation tx.hash
  bounded : ∀ credentialId, (s.1.buckets credentialId).count ≤ cfg.maxStoredTxHashesPerCredential
  spread : ∀ credentialId, (s.1.buckets credentialId).Spread cfg

theorem AcceptsOnce.attempt {s} (h : AcceptsOnce cfg s) (tx : GenerationTx Credential Hash) :
    Yields (AcceptsOnce cfg) (fun _ => False) (attempt cfg s tx) := by
  obtain ⟨u, accepted⟩ := s
  cases hCheck : u.checkGenerationUniqueness cfg tx with
  | error e => simpa only [Uniqueness.attempt, hCheck, ok_iff] using h
  | ok _ =>
    have hFresh := check_ok hCheck
    simp only [Uniqueness.attempt, hCheck, mark_of_fresh hFresh]
    refine ⟨?_, fun tx' hMem => ?_, fun credentialId => ?_, fun credentialId => ?_⟩
    · exact h.once.append (List.nodup_singleton tx)
        (List.disjoint_singleton.mpr fun hMem => hFresh.not_remembers (h.remembers tx hMem))
    · rw [buckets_update]
      rcases List.mem_append.mp hMem with hOld | hNew
      · split
        · rename_i hSame
          exact (hSame ▸ h.remembers tx' hOld).record
        · exact h.remembers tx' hOld
      · rw [List.mem_singleton.mp hNew, if_pos rfl]
        exact .inl holds_record
    · rw [buckets_update]
      split
      · exact (count_record hFresh.new_prune).trans_le hFresh.room
      · exact h.bounded credentialId
    · rw [buckets_update]
      split
      · rename_i hSame
        exact (hSame ▸ h.spread credentialId).record hFresh
      · exact h.spread credentialId

theorem acceptsOnce_run (txs : List (GenerationTx Credential Hash)) :
    Yields (AcceptsOnce cfg) (fun _ => False) (txs.foldlM (attempt cfg) (.empty, [])) :=
  foldlM (AcceptsOnce cfg) txs (fun _ tx _ h => h.attempt tx)
    ⟨List.nodup_nil, nofun, fun _ => zero_le _, fun _ => ⟨nofun, nofun⟩⟩

/-- Marking succeeds where the check has passed. Over any run no transaction is accepted twice, and no
credential has more hashes stored than allowed. -/
theorem generations_accepted_once (cfg : UniquenessConfig) (txs : List (GenerationTx Credential Hash)) :
    (∀ (u : Uniqueness Credential Hash) tx, u.checkGenerationUniqueness cfg tx = .ok () →
      ∃ u', u.markGenerationalTxAttempted cfg tx = .ok u') ∧
    ∃ u accepted, txs.foldlM (attempt cfg) (.empty, []) = .ok (u, accepted) ∧ accepted.Nodup ∧
      ∀ credentialId, (u.buckets credentialId).count ≤ cfg.maxStoredTxHashesPerCredential := by
  have hRun := @acceptsOnce_run _ _ cfg _ _ txs
  refine ⟨fun u tx hCheck => ⟨_, mark_of_fresh (check_ok hCheck)⟩, ?_⟩
  cases hFold : txs.foldlM (attempt cfg) (.empty, []) with
  | error e => exact (hRun.of_error hFold).elim
  | ok s => exact ⟨s.1, s.2, rfl, (hRun.of_ok hFold).once, (hRun.of_ok hFold).bounded⟩

/-- In every reachable state, a transaction of a generation above the advised one passes the check. -/
theorem advised_generation_passes {txs accepted : List (GenerationTx Credential Hash)}
    {tx' : GenerationTx Credential Hash} {last : Nat} (hRun : txs.foldlM (attempt cfg) (.empty, []) = .ok (u, accepted))
    (hFull : u.checkGenerationUniqueness cfg tx = .error (.tooManyTransactions tx last))
    (hCredential : tx'.credentialId = tx.credentialId) (hAbove : last < tx'.generation) :
    u.checkGenerationUniqueness cfg tx' = .ok () := by
  obtain ⟨-, -, hBounded, hSpread⟩ := (acceptsOnce_run txs).of_ok hRun
  have hBounded : (u.buckets tx'.credentialId).count ≤ _ := hBounded _
  have hSpread : (u.buckets tx'.credentialId).Spread cfg := hSpread _
  obtain ⟨hPast, hCount, earliest, hHead, rfl⟩ := check_full hFull
  rw [← hCredential] at hHead hCount
  obtain ⟨hTop, hRoom⟩ := hSpread.makes_room hHead hAbove
  have hPruned := count_prune_le cfg (u.buckets tx'.credentialId) tx.generation
  have hNum : ((u.buckets tx'.credentialId).prune cfg tx'.generation).numTxs =
      (.ok ((u.buckets tx'.credentialId).prune cfg tx'.generation).count : Except (UniquenessError Credential Hash) Nat) := by
    have hYields := ((u.buckets tx'.credentialId).prune cfg tx'.generation).numTxs_yields Credential
    cases hNum : ((u.buckets tx'.credentialId).prune cfg tx'.generation).numTxs with
    | ok count => rw [hYields.of_ok hNum]
    | error e =>
      have hOver := (hYields.of_error hNum).1
      omega
  simp only [checkGenerationUniqueness, bind_eq_ok, unwrap_eq_ok, ensure_eq_ok, checkedSub_eq_some, checkedAdd_eq_some]
  refine ⟨_, ⟨hPast, rfl⟩, (), by omega, (), fun bucket hBucket => ?_, _, hNum, _, ⟨by omega, rfl⟩, if_neg (by omega)⟩
  exact absurd (le_latestGeneration (lookup_eq_some.mp hBucket)) (not_le.mpr hTop)

/-- Two transactions fill a generation; the third one passes at the advised one. -/
theorem advised_generation_passes_three :
    let cfg : UniquenessConfig := ⟨2, 2⟩
    let refused : GenerationTx Nat Nat := ⟨7, 0, 3⟩
    ∃ u accepted, [⟨7, 0, 1⟩, ⟨7, 0, 2⟩].foldlM (attempt cfg) (.empty, []) = .ok (u, accepted) ∧
      u.checkGenerationUniqueness cfg refused = .error (.tooManyTransactions refused 2) ∧
      u.checkGenerationUniqueness cfg ⟨7, 3, 3⟩ = .ok () :=
  ⟨_, _, rfl, rfl, @advised_generation_passes _ _ ⟨2, 2⟩ _ ⟨7, 0, 3⟩ _ _ [⟨7, 0, 1⟩, ⟨7, 0, 2⟩] _ _ 2 rfl rfl rfl
    (by decide)⟩

end Uniqueness
end SovereignSdk
