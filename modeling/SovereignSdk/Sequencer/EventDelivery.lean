import SovereignSdk.Sequencer.Backends

/-! The replica's receiver of database events: it is notified of rows of the leader's log and forwards
the log page by page into its channel. -/
namespace SovereignSdk
open Outcome Bounded Backends List Nat EventRow Option

variable {Tx TxHash : Type}

inductive EventType where
  | transaction
  | batchStart
  | batchEnd
  | newProof
  deriving DecidableEq, Repr

inductive DbData (Tx TxHash : Type) where
  | batchStart (batch : BatchToStore)
  | transaction (sequenceNumber : Nat) (tx : Tx) (hash : TxHash)
  | batchEnd (batch : BatchToStore)
  | newProof
  deriving DecidableEq

/-- Why a fetch fails. Only database errors are retried; the others stop the task with a panic. -/
inductive EventReceiverError where
  | dbError
  | unexpectedProof (sequenceNumber : Nat)
  | nullColumn
  | invalidEventSequence (previous : Option EventType) (current : EventType)
  | dbRowDoesNotExist (eventId : Nat)
  | notificationBehind
  | tooManyDbErrors
  deriving DecidableEq, Repr

def maxDbErrorsAllowed : Nat := 10

namespace EventType

def isEventSequenceValid : Option EventType → EventType → Bool
  | some .batchStart, .batchStart => false
  | some .transaction, .batchStart => false
  | some .batchEnd, .transaction => false
  | some .batchEnd, .batchEnd => false
  | none, .batchStart => true
  | none, _ => false
  | _, _ => true

end EventType

def PgEvent.eventType : PgEvent Tx TxHash → EventType
  | transaction .. => .transaction
  | batchStart _ => .batchStart
  | batchEnd _ => .batchEnd
  | newProof => .newProof

def parseSerializedBatch (stored : StoredBlob) (number : Nat) : Except EventReceiverError BatchToStore :=
  match stored with
  | .batch blobId slot advance => return ⟨blobId, number, slot, advance⟩
  | .proof .. => .error (.unexpectedProof number)

/-- The `data` column is read before the type is looked at, as bytes that may not be null. -/
def rowToEvent (row : EventRow Tx TxHash) : Except EventReceiverError (DbData Tx TxHash × EventType) :=
  match row.event with
  | .batchStart stored => do return (.batchStart (← parseSerializedBatch stored row.sequenceNumber), .batchStart)
  | .transaction _ hash tx => return (.transaction row.sequenceNumber tx hash, .transaction)
  | .batchEnd stored => do return (.batchEnd (← parseSerializedBatch stored row.sequenceNumber), .batchEnd)
  | .newProof => .error .nullColumn

variable (log : List (EventRow Tx TxHash))

/-- The rows of the log from one event id to another, both included. -/
def rowsBetween (first last : Nat) : List (EventRow Tx TxHash) :=
  log.filter fun row => first ≤ row.eventId ∧ row.eventId ≤ last

/-- Forward rows one by one; those before a row that fails stay in the channel. -/
def forward : List (EventRow Tx TxHash) → Option EventType → List (DbData Tx TxHash) →
    List (DbData Tx TxHash) × Except EventReceiverError (Option EventType)
  | [], previous, channel => (channel, .ok previous)
  | row :: rows, previous, channel =>
    match rowToEvent row with
    | .error e => (channel, .error e)
    | .ok (event, type) =>
      if EventType.isEventSequenceValid previous type then forward rows (some type) (channel ++ [event])
      else (channel, .error (.invalidEventSequence previous type))

/-- The loop over the pages. `fault` says which of the page queries fails, if any; the fuel bounds the
number of pages. -/
def backfillToEventId (log : List (EventRow Tx TxHash)) (pageSize target : Nat) :
    Nat → Option Nat → Nat → Option EventType → List (DbData Tx TxHash) →
      List (DbData Tx TxHash) × Except EventReceiverError (Option EventType)
  | 0, _, _, previous, channel => (channel, .ok previous)
  | fuel + 1, fault, current, previous, channel =>
    if target < current then (channel, .ok previous)
    else if fault = some 0 then (channel, .error .dbError)
    else
      let pageEnd := min (current + pageSize) target
      let page := rowsBetween log current pageEnd
      if page.isEmpty then (channel, .error (.dbRowDoesNotExist current))
      else
        match forward page previous channel with
        | (channel, .error e) => (channel, .error e)
        | (channel, .ok previous) =>
          backfillToEventId log pageSize target fuel (fault.map (· - 1)) (pageEnd + 1) previous channel

/-- The task's variables, its channel, and the last event it was notified of. -/
structure EventReceiver (Tx TxHash : Type) where
  startEventId : Option Nat
  previousEventType : Option EventType
  consecutiveDbErrors : Nat
  channel : List (DbData Tx TxHash)
  lastNotified : Nat

/-- What the outside contributes to one round of the task's loop: waiting for a notification fails, or one
arrives and then perhaps one of the page queries fails. -/
inductive FetchRound where
  | connectionLost
  | notified (eventId : Nat) (fault : Option Nat)

namespace EventReceiver

/-- The task when it begins to listen, the log having reached `listening`. -/
def start (listening : Nat) : EventReceiver Tx TxHash := ⟨none, none, 0, [], listening⟩

/-- Database errors are counted and the fetch is tried again from where it started. -/
def retry (r : EventReceiver Tx TxHash) : Except EventReceiverError (EventReceiver Tx TxHash) :=
  if maxDbErrorsAllowed ≤ r.consecutiveDbErrors then .error .tooManyDbErrors
  else return { r with consecutiveDbErrors := r.consecutiveDbErrors + 1 }

variable (log : List (EventRow Tx TxHash))

def round (pageSize : Nat) (r : EventReceiver Tx TxHash) :
    FetchRound → Except EventReceiverError (EventReceiver Tx TxHash)
  | .connectionLost => r.retry
  | .notified target fault => do
      let first := r.startEventId.getD target
      ensure .notificationBehind (first ≤ target)
      match backfillToEventId log pageSize target (target + 1 - first) fault first r.previousEventType r.channel with
      | (channel, .ok previous) => return ⟨some (target + 1), previous, 0, channel, target⟩
      | (channel, .error .dbError) => retry { r with channel, lastNotified := target }
      | (_, .error e) => .error e

/-- Notifications arrive in the order of the log. Until the first fetch has succeeded, those that are not
of a batch start are skipped; afterwards only the latest one counts. Database errors do not exceed the
allowed number in a row. -/
def Occurs (r : EventReceiver Tx TxHash) : FetchRound → Prop
  | .connectionLost => r.consecutiveDbErrors < maxDbErrorsAllowed
  | .notified target fault =>
    (∃ row ∈ log, row.eventId = target ∧ r.lastNotified < target ∧
      (r.startEventId = none → row.event.eventType = .batchStart ∧
        ∀ row' ∈ log, row'.event.eventType = .batchStart → row'.eventId < target → row'.eventId ≤ r.lastNotified)) ∧
    (fault.isSome → r.consecutiveDbErrors < maxDbErrorsAllowed)

end EventReceiver

/-! What the replica's channel holds: the leader's log from the first batch start on, provided that no
proof is logged and that queries fail only before anything of a backfill has been forwarded. -/
open PgEvent List EventType

def Carries : DbData Tx TxHash → EventRow Tx TxHash → Prop
  | .batchStart b, row => row.event = .batchStart b.toStoredBlob ∧ row.sequenceNumber = b.sequenceNumber
  | .transaction number tx hash, row => row.sequenceNumber = number ∧ ∃ index, row.event = .transaction index hash tx
  | .batchEnd b, row => row.event = .batchEnd b.toStoredBlob ∧ row.sequenceNumber = b.sequenceNumber
  | .newProof, row => row.event = .newProof

variable {row : EventRow Tx TxHash} {rows : List (EventRow Tx TxHash)}

theorem rowToEvent_of_carries {event} (h : Carries event row)
    (hProof : row.event.eventType ≠ .newProof) : rowToEvent row = .ok (event, row.event.eventType) := by
  unfold rowToEvent
  cases event with
  | batchStart | batchEnd =>
    obtain ⟨hEvent, hNum⟩ := h
    simp only [hEvent, hNum]
    rfl
  | transaction number tx hash =>
    obtain ⟨rfl, index, hEvent⟩ := h
    simp only [hEvent]
    rfl
  | newProof =>
    rw [show row.event = .newProof from h] at hProof
    exact absurd rfl hProof

/-! The log that the leader writes. -/

/-- The events are numbered from one without gaps, each batch is started and ended in turn, and every row
has a content. -/
structure LeaderLog (log : List (EventRow Tx TxHash)) : Prop where
  ids : log.map eventId = range' 1 log.length
  valid : log.IsChain fun a b => EventType.isEventSequenceValid (some a.event.eventType) b.event.eventType = true
  contents : ∃ events, Forall₂ Carries events log

/-- A row that may follow the log: it has the next id and a content, and its type may follow the last one. -/
structure MayFollow (log : List (EventRow Tx TxHash)) (row : EventRow Tx TxHash) : Prop where
  id : row.eventId = log.length + 1
  type : ∀ last ∈ log.getLast?, EventType.isEventSequenceValid (some last.event.eventType) row.event.eventType = true
  content : ∃ event, Carries event row

theorem LeaderLog.append {log} (h : LeaderLog log) (hRow : MayFollow log row) : LeaderLog (log ++ [row]) where
  ids := by
    rw [map_append, h.ids, length_append, map_singleton, hRow.id, add_comm log.length 1]
    exact @range'_append_1 1 log.length 1
  valid := by
    refine isChain_append.mpr ⟨h.valid, isChain_singleton _, ?_⟩
    intro last hLast next hNext
    cases hNext
    exact hRow.type last hLast
  contents := by
    obtain ⟨events, hEvents⟩ := h.contents
    obtain ⟨event, hEvent⟩ := hRow.content
    exact ⟨events ++ [event], rel_append hEvents (.cons hEvent .nil)⟩

namespace Postgres

/-- Between batches the last row is not the start or a transaction of one, and within a batch it is not
the end of one. -/
def fits : Bool → EventType → Bool
  | false, .batchStart => false
  | false, .transaction => false
  | true, .batchEnd => false
  | _, _ => true

/-- The log is well formed and its last row fits the state of the leader. -/
structure Logged (db : Postgres Tx TxHash) (within : Bool) : Prop where
  log : LeaderLog db.events
  nextId : db.nextEventId = db.events.length + 1
  last : ∀ row ∈ db.events.getLast?, fits within row.event.eventType = true

variable {db : Postgres Tx TxHash}

theorem Logged.insertEvent {within within' number event} (h : db.Logged within)
    (hType : ∀ previous, fits within previous = true → isEventSequenceValid (some previous) event.eventType = true)
    (hContent : ∃ data, Carries data ⟨db.nextEventId, number, event⟩)
    (hFits : fits within' event.eventType = true) : (db.insertEvent number event).Logged within' where
  log := h.log.append ⟨h.nextId, fun row hRow => hType _ (h.last row hRow), hContent⟩
  nextId := by
    show db.nextEventId + 1 = (db.events ++ [_]).length + 1
    rw [h.nextId, length_append, length_singleton]
  last := by
    intro row hRow
    rw [show (db.insertEvent number event).events = db.events ++ [⟨db.nextEventId, number, event⟩] from rfl,
      getLast?_concat] at hRow
    cases hRow
    exact hFits

theorem Logged.insertTxs (h : db.Logged true) (number index : Nat) (txs : List (Tx × TxHash)) :
    (db.insertTxs number index txs).Logged true := by
  induction txs generalizing db index with
  | nil => exact h
  | cons tx txs ih =>
    refine ih (h.insertEvent (fun previous => ?_) ⟨.transaction number tx.1 tx.2, rfl, index, rfl⟩ rfl) _
    cases previous <;> simp [fits, isEventSequenceValid, eventType]

end Postgres

def ValidAfter : Option EventType → List (EventRow Tx TxHash) → Prop
  | _, [] => True
  | previous, row :: rows =>
    EventType.isEventSequenceValid previous row.event.eventType = true ∧ ValidAfter (some row.event.eventType) rows

def lastType (previous : Option EventType) : List (EventRow Tx TxHash) → Option EventType
  | [] => previous
  | row :: rows => lastType (some row.event.eventType) rows

variable {previous : Option EventType}

theorem validAfter_append {rows'} :
    ValidAfter previous (rows ++ rows') ↔ ValidAfter previous rows ∧ ValidAfter (lastType previous rows) rows' := by
  induction rows generalizing previous with
  | nil => exact (true_and _).symm ▸ Iff.rfl
  | cons row rows ih =>
    show _ ∧ ValidAfter _ (rows ++ rows') ↔ (_ ∧ _) ∧ _
    rw [ih, and_assoc]
    rfl

theorem lastType_append (previous : Option EventType) (rows rows' : List (EventRow Tx TxHash)) :
    lastType previous (rows ++ rows') = lastType (lastType previous rows) rows' := by
  induction rows generalizing previous with
  | nil => rfl
  | cons row rows ih => exact ih _

theorem validAfter_of_isChain (h : (row :: rows).IsChain fun a b =>
      EventType.isEventSequenceValid (some a.event.eventType) b.event.eventType = true) :
    ValidAfter (some row.event.eventType) rows := by
  induction rows generalizing row with
  | nil => trivial
  | cons next rows ih =>
    obtain ⟨hHere, hRest⟩ := isChain_cons_cons.mp h
    exact ⟨hHere, ih hRest⟩

theorem forward_ok {events channel} (hCarry : Forall₂ Carries events rows)
    (hValid : ValidAfter previous rows) (hProofs : ∀ row ∈ rows, row.event.eventType ≠ .newProof) :
    forward rows previous channel = (channel ++ events, .ok (lastType previous rows)) := by
  induction hCarry generalizing previous channel with
  | nil => simp [forward, lastType]
  | @cons event row events rows hEvent _ ih =>
    obtain ⟨hHere, hLater⟩ := hValid
    have hRow := rowToEvent_of_carries hEvent (hProofs row mem_cons_self)
    simp only [forward, hRow, hHere]
    rw [ih hLater fun row' hRow' => hProofs row' (mem_cons_of_mem row hRow'), append_assoc]
    rfl

section Slices
variable {log : List (EventRow Tx TxHash)}

variable {first : Nat} {row : EventRow Tx TxHash}

theorem rowsBetween_eq (hIds : log.map eventId = range' 1 log.length) (last : Nat)
    (hFirst : 1 ≤ first) : rowsBetween log first last = (log.take last).drop (first - 1) := by
  induction log using reverseRecOn with
  | nil => simp [rowsBetween]
  | append_singleton log row ih =>
    rw [map_append, length_append, length_singleton, ← @range'_append_1 1 log.length 1] at hIds
    obtain ⟨hLog, hRow⟩ := append_inj hIds (by simp)
    have hId : row.eventId = 1 + log.length := head_eq_of_cons_eq hRow
    have hSplit : rowsBetween (log ++ [row]) first last =
        rowsBetween log first last ++ rowsBetween [row] first last := filter_append ..
    have hLastRow : rowsBetween [row] first last = if first ≤ row.eventId ∧ row.eventId ≤ last then [row] else [] := by
      simp [rowsBetween, filter_cons]
    rw [hSplit, ih hLog, hLastRow]
    by_cases hLast : last ≤ log.length
    · rw [if_neg (by omega), append_nil, take_append_of_le_length hLast]
    · have hAll : (log ++ [row]).take last = log ++ [row] := take_of_length_le (by simp; omega)
      rw [hAll, take_of_length_le (by omega)]
      by_cases hInside : first - 1 ≤ log.length
      · rw [if_pos (by omega), drop_append_of_le_length hInside]
      · rw [if_neg (by omega), append_nil, drop_eq_nil_of_le (by omega), drop_eq_nil_of_le (by simp; omega)]

theorem rowsBetween_append (hIds : log.map eventId = range' 1 log.length) {first mid last}
    (hFirst : 1 ≤ first) (hMid : first ≤ mid + 1) (hLast : mid ≤ last) :
    rowsBetween log first last = rowsBetween log first mid ++ rowsBetween log (mid + 1) last := by
  rw [rowsBetween_eq hIds last hFirst, rowsBetween_eq hIds mid hFirst, rowsBetween_eq hIds last (Nat.le_add_left 1 mid)]
  have hTake : log.take mid = (log.take last).take mid := by rw [take_take, min_eq_left hLast]
  have hPart : ((log.take last).take mid).drop (first - 1) =
      ((log.take last).drop (first - 1)).take (mid - (first - 1)) := drop_take
  have hJoin := drop_take_append_drop (log.take last) (first - 1) (mid - (first - 1))
  rw [Nat.add_sub_cancel' (by omega)] at hJoin
  rw [hTake, hPart]
  exact hJoin.symm

variable {last : Nat}

theorem rowsBetween_nil (h : last < first) : rowsBetween log first last = [] := by
  refine filter_eq_nil_iff.mpr fun row _ => ?_
  simp only [decide_eq_true_eq]
  omega

section
variable (hIds : log.map eventId = range' 1 log.length)
include hIds

theorem rowsBetween_ne_nil (hFirst : 1 ≤ first)
    (hLast : first ≤ last) (hInside : last ≤ log.length) : rowsBetween log first last ≠ [] := by
  rw [rowsBetween_eq hIds last hFirst]
  refine ne_nil_of_length_pos ?_
  rw [length_drop, length_take]
  omega

/-- A backfill without errors forwards just the rows from the current one to the target. -/
theorem backfillToEventId_ok {pageSize target fuel current} {sent channel}
    (hFuel : target + 1 - current ≤ fuel) (hCur : 1 ≤ current) (hTarget : target ≤ log.length)
    (hCarry : Forall₂ Carries sent (rowsBetween log current target))
    (hValid : ValidAfter previous (rowsBetween log current target))
    (hProofs : ∀ row ∈ rowsBetween log current target, row.event.eventType ≠ .newProof) :
    backfillToEventId log pageSize target fuel none current previous channel =
      (channel ++ sent, .ok (lastType previous (rowsBetween log current target))) := by
  induction fuel generalizing current previous sent channel with
  | zero =>
    rw [rowsBetween_nil (by omega)] at hCarry ⊢
    cases hCarry
    rw [append_nil]
    rfl
  | succ fuel ih =>
    unfold backfillToEventId
    split
    · rename_i hDone
      rw [rowsBetween_nil hDone] at hCarry ⊢
      cases hCarry
      rw [List.append_nil]
      rfl
    · have hSplit := rowsBetween_append hIds hCur (show current ≤ min (current + pageSize) target + 1 by omega)
        (min_le_right (current + pageSize) target)
      have hPage : rowsBetween log current (min (current + pageSize) target) ≠ [] :=
        rowsBetween_ne_nil hIds hCur (by omega) (by omega)
      rw [hSplit] at hCarry hValid hProofs ⊢
      obtain ⟨hHere, hLater⟩ := validAfter_append.mp hValid
      have hFirst := forall₂_take_append _ _ _ hCarry
      have hSecond := forall₂_drop_append _ _ _ hCarry
      simp only [reduceCtorEq, if_false, List.isEmpty_iff, hPage]
      rw [forward_ok hFirst hHere fun row hRow => hProofs row (mem_append_left _ hRow)]
      simp only [map_none]
      rw [ih (by omega) (le_add_left 1 _) hSecond hLater fun row hRow => hProofs row (mem_append_right _ hRow),
        append_assoc, take_append_drop, lastType_append]

theorem eventId_bounds (hRow : row ∈ log) : 1 ≤ row.eventId ∧ row.eventId ≤ log.length := by
  have hMem : row.eventId ∈ range' 1 log.length := hIds ▸ mem_map_of_mem hRow
  rw [mem_range'_1] at hMem
  omega

theorem rowsBetween_self (hRow : row ∈ log) : rowsBetween log row.eventId row.eventId = [row] := by
  obtain ⟨hLow, _⟩ := eventId_bounds hIds hRow
  have hMem : row ∈ rowsBetween log row.eventId row.eventId :=
    mem_filter.mpr ⟨hRow, decide_eq_true ⟨le_rfl, le_rfl⟩⟩
  have hLen : (rowsBetween log row.eventId row.eventId).length = 1 := by
    rw [rowsBetween_eq hIds _ hLow, length_drop, length_take]
    omega
  obtain ⟨only, hOnly⟩ := length_eq_one_iff.mp hLen
  rw [hOnly] at hMem ⊢
  rw [mem_singleton.mp hMem]

end

/-- From a batch start on, the log is a valid sequence of events. -/
theorem LeaderLog.validAfter (h : LeaderLog log) (hRow : row ∈ log) (hStart : row.event.eventType = .batchStart)
    (last : Nat) : ValidAfter none (rowsBetween log row.eventId last) := by
  obtain ⟨hLow, -⟩ := eventId_bounds h.ids hRow
  by_cases hLast : row.eventId ≤ last
  · have hSplit := rowsBetween_append h.ids hLow (le_succ row.eventId) hLast
    have hChain : (rowsBetween log row.eventId last).IsChain fun a b =>
        isEventSequenceValid (some a.event.eventType) b.event.eventType = true := by
      rw [rowsBetween_eq h.ids last hLow]
      exact (h.valid.take last).drop _
    rw [hSplit, rowsBetween_self h.ids hRow] at hChain ⊢
    refine ⟨?_, validAfter_of_isChain hChain⟩
    rw [hStart]
    rfl
  · rw [rowsBetween_nil (not_le.mp hLast)]
    trivial

theorem LeaderLog.contents_between (h : LeaderLog log) (last : Nat) (hFirst : 1 ≤ first) :
    ∃ events, Forall₂ Carries events (rowsBetween log first last) := by
  obtain ⟨events, hEvents⟩ := h.contents
  rw [rowsBetween_eq h.ids last hFirst]
  exact ⟨_, forall₂_drop _ (forall₂_take _ hEvents)⟩

end Slices

def FirstStart (listening first : Nat) : Prop :=
  ∃ row ∈ log, row.eventId = first ∧ listening < first ∧ row.event.eventType = .batchStart ∧
    ∀ row' ∈ log, row'.event.eventType = .batchStart → row'.eventId < first → row'.eventId ≤ listening

def caughtUp (upTo : Option Nat) : FetchRound → Option Nat
  | .notified target none => some target
  | _ => upTo

namespace EventReceiver
variable (log : List (EventRow Tx TxHash))

/-- No proof is fetched, and a query fails only if it is the first of its backfill and the receiver has
had its first batch start. -/
def Undisturbed (r : EventReceiver Tx TxHash) : FetchRound → Prop
  | .connectionLost => True
  | .notified target none =>
    ∀ row ∈ rowsBetween log (r.startEventId.getD target) target, row.event.eventType ≠ .newProof
  | .notified _ (some page) => page = 0 ∧ r.startEventId.isSome = true

/-- The channel holds the log from the first batch start up to the last event that was caught up with. -/
structure Delivered (log : List (EventRow Tx TxHash)) (listening : Nat) (r : EventReceiver Tx TxHash)
    (upTo : Option Nat) : Prop where
  resumes : r.startEventId = upTo.map (· + 1)
  idle : upTo = none → r.channel = [] ∧ r.previousEventType = none ∧ r.lastNotified = listening
  exact : ∀ last ∈ upTo, ∃ first, FirstStart log listening first ∧ first ≤ last ∧ last ≤ r.lastNotified ∧
    last ≤ log.length ∧ Forall₂ Carries r.channel (rowsBetween log first last) ∧
    r.previousEventType = lastType none (rowsBetween log first last)

theorem Delivered.start (listening : Nat) : (start listening).Delivered log listening none :=
  ⟨rfl, fun _ => ⟨rfl, rfl, rfl⟩, nofun⟩

theorem retry_ok {r : EventReceiver Tx TxHash} (h : r.consecutiveDbErrors < maxDbErrorsAllowed) :
    r.retry = .ok { r with consecutiveDbErrors := r.consecutiveDbErrors + 1 } := if_neg (not_le.mpr h)

variable {log : List (EventRow Tx TxHash)} {listening pageSize : Nat} {r : EventReceiver Tx TxHash}

variable {target : Nat} {upTo : Option Nat}

/-- A round without a fault forwards what the log has from where the fetch starts up to the notified event. -/
theorem round_ok (pageSize : Nat) {first} (hLog : LeaderLog log) (hFrom : r.startEventId.getD target = first) (hLow : 1 ≤ first)
    (hLe : first ≤ target) (hHigh : target ≤ log.length)
    (hValid : ValidAfter r.previousEventType (rowsBetween log first target))
    (hClean : r.Undisturbed log (.notified target none)) :
    ∃ sent, Forall₂ Carries sent (rowsBetween log first target) ∧
      r.round log pageSize (.notified target none) = .ok ⟨some (target + 1),
        lastType r.previousEventType (rowsBetween log first target), 0, r.channel ++ sent, target⟩ := by
  obtain ⟨sent, hSent⟩ := hLog.contents_between target hLow
  refine ⟨sent, hSent, ?_⟩
  simp only [EventReceiver.round, hFrom, hLe]
  rw [backfillToEventId_ok hLog.ids le_rfl hLow hHigh hSent hValid (hFrom ▸ hClean)]
  rfl

theorem Delivered.first_round (h : r.Delivered log listening none) (hLog : LeaderLog log)
    (hOccurs : r.Occurs log (.notified target none)) (hClean : r.Undisturbed log (.notified target none)) :
    ∃ r', r.round log pageSize (.notified target none) = .ok r' ∧ r'.Delivered log listening (some target) := by
  obtain ⟨⟨row, hRow, rfl, hNew, hFirst⟩, -⟩ := hOccurs
  obtain ⟨hChannel, hPrev, rfl⟩ := h.idle rfl
  have hNone : r.startEventId = none := h.resumes
  obtain ⟨hStart, hEarliest⟩ := hFirst hNone
  obtain ⟨hLow, hHigh⟩ := eventId_bounds hLog.ids hRow
  obtain ⟨sent, hSent, hRound⟩ := round_ok pageSize hLog (by rw [hNone, getD_none]) hLow le_rfl hHigh
    (hPrev ▸ hLog.validAfter hRow hStart row.eventId) hClean
  refine ⟨_, hRound, rfl, by rintro ⟨⟩, ?_⟩
  rintro last ⟨⟩
  rw [hChannel, hPrev]
  exact ⟨row.eventId, ⟨row, hRow, rfl, hNew, hStart, hEarliest⟩, le_rfl, le_rfl, hHigh, hSent, rfl⟩

theorem Delivered.next_round {last} (h : r.Delivered log listening (some last)) (hLog : LeaderLog log)
    (hOccurs : r.Occurs log (.notified target none)) (hClean : r.Undisturbed log (.notified target none)) :
    ∃ r', r.round log pageSize (.notified target none) = .ok r' ∧ r'.Delivered log listening (some target) := by
  obtain ⟨⟨row, hRow, rfl, _, -⟩, -⟩ := hOccurs
  obtain ⟨first, hFirst, _, _, _, hChannel, hPrev⟩ := h.exact last rfl
  have hSome : r.startEventId = some (last + 1) := h.resumes
  obtain ⟨start, hStartRow, rfl, hAfter, hStart, hEarliest⟩ := hFirst
  obtain ⟨hLow, -⟩ := eventId_bounds hLog.ids hStartRow
  obtain ⟨-, hHigh⟩ := eventId_bounds hLog.ids hRow
  have hSplit := @rowsBetween_append _ _ log hLog.ids start.eventId last row.eventId hLow (by omega) (by omega)
  have hValid := hLog.validAfter hStartRow hStart row.eventId
  rw [hSplit, validAfter_append, ← hPrev] at hValid
  obtain ⟨sent, hSent, hRound⟩ := round_ok pageSize hLog (by rw [hSome, getD_some]) (le_add_left 1 last)
    (by omega) hHigh hValid.2 hClean
  refine ⟨_, hRound, rfl, by rintro ⟨⟩, ?_⟩
  rintro _ ⟨⟩
  refine ⟨start.eventId, ⟨start, hStartRow, rfl, hAfter, hStart, hEarliest⟩, by omega, le_rfl, hHigh, ?_, ?_⟩
  · rw [hSplit]
    exact rel_append hChannel hSent
  · rw [hSplit, lastType_append, ← hPrev]

theorem Delivered.round (h : r.Delivered log listening upTo) (hLog : LeaderLog log) {input : FetchRound}
    (hOccurs : r.Occurs log input) (hClean : r.Undisturbed log input) :
    ∃ r', r.round log pageSize input = .ok r' ∧ r'.Delivered log listening (caughtUp upTo input) := by
  cases input with
  | connectionLost => exact ⟨_, retry_ok hOccurs, h.resumes, h.idle, h.exact⟩
  | notified target fault =>
    cases fault with
    | none =>
      cases upTo with
      | none => exact h.first_round hLog hOccurs hClean
      | some last => exact h.next_round hLog hOccurs hClean
    | some page =>
      obtain ⟨rfl, hSome⟩ := hClean
      obtain ⟨⟨row, _, rfl, hNew, -⟩, hErrors⟩ := hOccurs
      cases upTo with
      | none => rw [h.resumes] at hSome; cases hSome
      | some last =>
        obtain ⟨first, hFirst, hReach, hNotified, hRest⟩ := h.exact last rfl
        have hResumes : r.startEventId = some (last + 1) := h.resumes
        have hAhead : last + 1 ≤ row.eventId := by omega
        -- the first page is not empty, and its query fails
        have hFuel : row.eventId + 1 - (last + 1) = row.eventId - last - 1 + 1 := by omega
        refine ⟨{ r with lastNotified := row.eventId, consecutiveDbErrors := r.consecutiveDbErrors + 1 }, ?_,
          hResumes, by rintro ⟨⟩, ?_⟩
        · simp only [EventReceiver.round, hResumes, getD_some, hAhead, hFuel,
            backfillToEventId, not_lt.mpr hAhead]
          exact retry_ok (hErrors rfl)
        · rintro _ ⟨⟩
          exact ⟨first, hFirst, hReach, hNotified.trans hNew.le, hRest⟩

theorem Delivered.rounds (h : r.Delivered log listening upTo) (hLog : LeaderLog log) {inputs}
    (hOccurs : Along (EventReceiver.round log pageSize) (Occurs log) r inputs)
    (hClean : Along (EventReceiver.round log pageSize) (Undisturbed log) r inputs) :
    ∃ r', inputs.foldlM (EventReceiver.round log pageSize) r = .ok r' ∧
      r'.Delivered log listening (inputs.foldl caughtUp upTo) := by
  induction inputs generalizing r upTo with
  | nil => exact ⟨r, rfl, h⟩
  | cons input inputs ih =>
    obtain ⟨mid, hRound, hMid⟩ := h.round hLog hOccurs.1 hClean.1
    obtain ⟨r', hRun, hFinal⟩ := ih hMid (hOccurs.2 mid hRound) (hClean.2 mid hRound)
    refine ⟨r', ?_, hFinal⟩
    rw [foldlM_cons, hRound]
    exact hRun

end EventReceiver
end SovereignSdk
