import Mathlib.Data.List.AList
import SovereignSdk.Library.OrderedMap
import SovereignSdk.Library.Outcome

/-! The nonce buffer of the preferred sequencer: what its main task does with one message. -/
namespace SovereignSdk
open Nat

inductive TxResult where
  | accepted
  | rejected
  | notFullySynced
  deriving DecidableEq, Repr

inductive TxAnswer where
  | executed (result : TxResult)
  | invalid
  | timeout
  | replaced
  | alreadyQueued
  | wiped
  deriving DecidableEq, Repr

/-- A transaction with its sender's credential and the handle by which its submitter is answered. -/
structure SubmittedTx where
  credential : Nat
  nonce : Nat
  hash : Nat
  queueId : Nat
  reply : Nat
  deriving DecidableEq, Repr

inductive NonceBufferInput where
  | newTx (tx : SubmittedTx)
  | txExecuted (credential nonce : Nat) (result : TxResult) (reply : Nat)
  | txPersisted (credential nonce : Nat)
  | txTimedOut (credential nonce hash : Nat)
  deriving DecidableEq, Repr

structure TimeoutRequest where
  credential : Nat
  nonce : Nat
  hash : Nat
  deriving DecidableEq, Repr

/-- What is known of a user's transactions before the state shows them. -/
structure NonPersistedTxs where
  lastSuccessfullyExecuted : Option Nat
  hasInFlight : Bool

namespace NonPersistedTxs
variable (t : NonPersistedTxs)

def userNonce : Option Nat := t.lastSuccessfullyExecuted.map (· + 1)

def userNonceToUseAsPrerequisiteStart : Option Nat :=
  if t.hasInFlight then some (t.userNonce.getD 0 + 1) else t.userNonce

/-- The flag tells whether the assertion on the nonce fails. -/
def markInflight (nonce : Nat) : NonPersistedTxs × Bool :=
  if t.userNonce.any (· ≠ nonce) then ({ t with hasInFlight := true }, true)
  else if t.lastSuccessfullyExecuted.isNone then
    ({ lastSuccessfullyExecuted := if nonce = 0 then none else some (nonce - 1), hasInFlight := true }, false)
  else ({ t with hasInFlight := true }, false)

def markInflightExecutionSucceeded (nonce : Nat) : NonPersistedTxs × Bool :=
  ({ lastSuccessfullyExecuted := some ((t.lastSuccessfullyExecuted.map (· + 1)).getD nonce), hasInFlight := false },
    t.lastSuccessfullyExecuted.any fun last => last + 1 ≠ nonce)

def markInflightExecutionFailed : NonPersistedTxs := { t with hasInFlight := false }

end NonPersistedTxs

/-- The transactions of one user that wait for earlier nonces. -/
structure AddressQueue where
  txs : OrderedMap Nat SubmittedTx
  nonPersisted : NonPersistedTxs

def AddressQueue.empty : AddressQueue := ⟨.empty, ⟨none, false⟩⟩

inductive NonceAction where
  | execute
  | enqueue
  | reject
  deriving DecidableEq, Repr

def determineAction (nonce userNonce maximumFutureNonceDelta : Nat) : NonceAction :=
  if userNonce < nonce ∧ nonce ≤ userNonce + maximumFutureNonceDelta then .enqueue
  else if nonce = userNonce then .execute
  else .reject

inductive Outgoing where
  | toMain (input : NonceBufferInput)
  | toTimeout (request : TimeoutRequest)
  deriving DecidableEq, Repr

abbrev NonceBuffers := AList fun _ : Nat => AddressQueue

structure Reaction where
  answers : List (Nat × TxAnswer)
  execution : Option SubmittedTx
  outgoing : Option Outgoing
  evicted : List SubmittedTx
  misnumbered : Bool
  wipes : Bool

namespace Reaction

def none : Reaction := ⟨[], .none, .none, [], false, false⟩

def answer (reply : Nat) (a : TxAnswer) : Reaction := { none with answers := [(reply, a)] }

end Reaction

namespace NonceBuffers
variable (buffers : NonceBuffers)

def queue (credential : Nat) : AddressQueue := (buffers.lookup credential).getD .empty

/-- The nonce tracked for a user, or else the one of the API state. -/
def userNonce (buffers : NonceBuffers) (credential apiNonce : Nat) : Nat :=
  (buffers.queue credential).nonPersisted.userNonce.getD apiNonce

/-- A transaction for a later nonce. One with the same nonce makes room for it, unless it is the same
transaction. -/
def enqueue (tx : SubmittedTx) : NonceBuffers × Reaction :=
  let q := buffers.queue tx.credential
  let accepted := buffers.insert tx.credential { q with txs := q.txs.insert tx.nonce tx }
  let request : Outgoing := .toTimeout ⟨tx.credential, tx.nonce, tx.hash⟩
  match q.txs.lookup tx.nonce with
  | some old =>
    if old.hash = tx.hash then (buffers.insert tx.credential q, .answer tx.reply .alreadyQueued)
    else (accepted, { Reaction.answer old.reply .replaced with outgoing := some request })
  | none => (accepted, { Reaction.none with outgoing := some request })

def handleNewTx (delta apiNonce executorQueueId : Nat) (tx : SubmittedTx) : NonceBuffers × Reaction :=
  let q := buffers.queue tx.credential
  match determineAction tx.nonce (buffers.userNonce tx.credential apiNonce) delta with
  | .enqueue => buffers.enqueue tx
  | .execute =>
    if tx.queueId < executorQueueId then (buffers, { Reaction.answer tx.reply .wiped with wipes := true })
    else
      let (nonPersisted, misnumbered) := q.nonPersisted.markInflight tx.nonce
      (buffers.insert tx.credential { q with nonPersisted }, { Reaction.none with execution := some tx, misnumbered })
  | .reject => (buffers.insert tx.credential q, .answer tx.reply .invalid)

/-- After an execution: transactions below the user's nonce are dropped, and the one at it is sent back to
the main queue. -/
def release (credential userNonce : Nat) (q : AddressQueue) : NonceBuffers × Reaction :=
  let evicted := (q.txs.entries.takeWhile fun e => e.1 < userNonce).map Prod.snd
  let txs := q.txs.splitOff userNonce
  match txs.lookup userNonce with
  | some tx =>
    let (nonPersisted, misnumbered) := q.nonPersisted.markInflight userNonce
    (buffers.insert credential ⟨txs.erase userNonce, nonPersisted⟩,
      { Reaction.none with outgoing := some (.toMain (.newTx { tx with nonce := userNonce })), evicted, misnumbered })
  | none => (buffers.insert credential { q with txs }, { Reaction.none with evicted })

def handleTxExecuted (apiNonce credential nonce : Nat) (result : TxResult) (reply : Nat) : NonceBuffers × Reaction :=
  let q := buffers.queue credential
  match result with
  | .notFullySynced => (buffers, { Reaction.answer reply (.executed result) with wipes := true })
  | _ =>
    let (nonPersisted, misnumbered) :=
      if result = .accepted then q.nonPersisted.markInflightExecutionSucceeded nonce
      else (q.nonPersisted.markInflightExecutionFailed, false)
    let (buffers, reaction) :=
      buffers.release credential (nonPersisted.userNonce.getD apiNonce) { q with nonPersisted }
    (buffers, { reaction with
      answers := [(reply, .executed result)]
      misnumbered := misnumbered || reaction.misnumbered })

def handleTxPersisted (credential nonce : Nat) : NonceBuffers × Reaction :=
  let q := buffers.queue credential
  if q.txs.entries.isEmpty ∧ q.nonPersisted.userNonceToUseAsPrerequisiteStart.all (· ≤ nonce) then
    (buffers.erase credential, .none)
  else (buffers, .none)

/-- If the hash is another one, the transaction has been replaced. -/
def handleTxTimedOut (credential nonce hash : Nat) : NonceBuffers × Reaction :=
  let q := buffers.queue credential
  match q.txs.lookup nonce with
  | some tx =>
    if tx.hash = hash then
      (buffers.insert credential { q with txs := q.txs.erase nonce }, .answer tx.reply .timeout)
    else (buffers.insert credential q, .none)
  | none => (buffers.insert credential q, .none)

def handle (delta apiNonce executorQueueId : Nat) :
    NonceBufferInput → NonceBuffers × Reaction
  | .newTx tx => buffers.handleNewTx delta apiNonce executorQueueId tx
  | .txExecuted credential nonce result reply => buffers.handleTxExecuted apiNonce credential nonce result reply
  | .txPersisted credential nonce => buffers.handleTxPersisted credential nonce
  | .txTimedOut credential nonce hash => buffers.handleTxTimedOut credential nonce hash

/-- During a wipe the main queue is emptied message by message. -/
def drain : NonceBufferInput → NonceBuffers × List (Nat × TxAnswer)
  | .newTx tx => (buffers, [(tx.reply, .wiped)])
  | .txExecuted _ _ result reply => (buffers, [(reply, .executed result)])
  | .txPersisted .. => (buffers, [])
  | .txTimedOut credential nonce hash =>
    let (buffers, reaction) := buffers.handleTxTimedOut credential nonce hash
    (buffers, reaction.answers)

/-- The end of a wipe: what waits in the buffers is refused. -/
def wipe : List (Nat × TxAnswer) :=
  buffers.entries.flatMap fun e => e.2.txs.entries.map fun t => (t.2.reply, .wiped)

end NonceBuffers

/-- What the main task is doing: waiting for a message, emptying its queue, or sending. -/
inductive MainTask where
  | waiting
  | draining
  | sending (out : Outgoing)
  deriving DecidableEq, Repr

inductive TimeoutQueueTask where
  | receiving
  | sleeping (request : TimeoutRequest)
  | sending (request : TimeoutRequest)
  deriving DecidableEq, Repr

structure NonceBufferConfig where
  mainCapacity : Nat
  timeoutCapacity : Nat
  maximumFutureNonceDelta : Nat

/-- The two tasks with their channels, the executions in progress, and the messages whose senders wait for
room in the main queue. The last four fields record what happened. -/
structure NonceBufferSystem where
  buffers : NonceBuffers
  main : MainTask
  mainQueue : List NonceBufferInput
  timeoutTask : TimeoutQueueTask
  timeoutQueue : List TimeoutRequest
  executions : List SubmittedTx
  senders : List NonceBufferInput
  answers : List (Nat × TxAnswer)
  successes : List (Nat × Nat)
  evicted : List SubmittedTx
  misnumbered : Bool

/-- What can happen next, chosen by the scheduler and the outside. -/
inductive NonceBufferEvent where
  | submit (tx : SubmittedTx)
  | persist (credential nonce : Nat)
  | finish (index : Nat) (result : TxResult)
  | send (index : Nat)
  | receive (apiNonce executorQueueId : Nat)
  | mainSend
  | forcedTxBatch
  | drain
  | timeoutReceive
  | timeoutDue
  | timeoutSend

inductive NonceBufferError where
  | notEnabled
  deriving DecidableEq, Repr

namespace NonceBufferSystem
variable (cfg : NonceBufferConfig)

def start : NonceBufferSystem := ⟨∅, .waiting, [], .receiving, [], [], [], [], [], [], false⟩

def react (s : NonceBufferSystem) (buffers : NonceBuffers) (reaction : Reaction) : NonceBufferSystem :=
  { s with
    buffers
    main := if reaction.wipes then .draining else (reaction.outgoing.map .sending).getD .waiting
    executions := s.executions ++ reaction.execution.toList
    answers := s.answers ++ reaction.answers
    evicted := s.evicted ++ reaction.evicted
    misnumbered := s.misnumbered || reaction.misnumbered }

/-- An execution ends, and its task goes on to report the result. -/
def finish (s : NonceBufferSystem) (index : Nat) (tx : SubmittedTx) (result : TxResult) : NonceBufferSystem :=
  { s with
    executions := s.executions.eraseIdx index
    successes := if result = .accepted then s.successes ++ [(tx.credential, tx.nonce)] else s.successes
    senders := s.senders ++ [.txExecuted tx.credential tx.nonce result tx.reply] }

def step (s : NonceBufferSystem) (event : NonceBufferEvent) : Except NonceBufferError NonceBufferSystem :=
  match event with
  | .submit tx => .ok { s with senders := s.senders ++ [.newTx tx] }
  | .persist credential nonce => .ok { s with senders := s.senders ++ [.txPersisted credential nonce] }
  | .finish index result =>
    match s.executions[index]? with
    | some tx => .ok (s.finish index tx result)
    | none => .error .notEnabled
  | .send index =>
    match s.senders[index]? with
    | some input =>
      if s.mainQueue.length < cfg.mainCapacity then
        .ok { s with senders := s.senders.eraseIdx index, mainQueue := s.mainQueue ++ [input] }
      else .error .notEnabled
    | none => .error .notEnabled
  | .receive apiNonce executorQueueId =>
    match s.main, s.mainQueue with
    | .waiting, input :: rest =>
      let (buffers, reaction) := s.buffers.handle cfg.maximumFutureNonceDelta apiNonce executorQueueId input
      .ok ({ s with mainQueue := rest }.react buffers reaction)
    | _, _ => .error .notEnabled
  | .mainSend =>
    match s.main with
    | .sending (.toMain input) =>
      if s.mainQueue.length < cfg.mainCapacity then
        .ok { s with main := .waiting, mainQueue := s.mainQueue ++ [input] }
      else .error .notEnabled
    | .sending (.toTimeout request) =>
      if s.timeoutQueue.length < cfg.timeoutCapacity then
        .ok { s with main := .waiting, timeoutQueue := s.timeoutQueue ++ [request] }
      else .error .notEnabled
    | _ => .error .notEnabled
  | .forcedTxBatch => if s.main = .waiting then .ok { s with main := .draining } else .error .notEnabled
  | .drain =>
    match s.main, s.mainQueue with
    | .draining, [] =>
      .ok { s with main := .waiting, buffers := ∅, answers := s.answers ++ s.buffers.wipe }
    | .draining, input :: rest =>
      let (buffers, answers) := s.buffers.drain input
      .ok { s with mainQueue := rest, buffers, answers := s.answers ++ answers }
    | _, _ => .error .notEnabled
  | .timeoutReceive =>
    match s.timeoutTask, s.timeoutQueue with
    | .receiving, request :: rest => .ok { s with timeoutTask := .sleeping request, timeoutQueue := rest }
    | _, _ => .error .notEnabled
  | .timeoutDue =>
    match s.timeoutTask with
    | .sleeping request => .ok { s with timeoutTask := .sending request }
    | _ => .error .notEnabled
  | .timeoutSend =>
    match s.timeoutTask with
    | .sending request =>
      if s.mainQueue.length < cfg.mainCapacity then
        .ok { s with
          timeoutTask := .receiving
          mainQueue := s.mainQueue ++ [.txTimedOut request.credential request.nonce request.hash] }
      else .error .notEnabled
    | _ => .error .notEnabled

/-- What each event does, with the condition under which it can happen. -/
inductive Step : NonceBufferSystem → NonceBufferEvent → NonceBufferSystem → Prop where
  | submit {s} (tx : SubmittedTx) : Step s (.submit tx) { s with senders := s.senders ++ [.newTx tx] }
  | persist {s} (credential nonce : Nat) :
      Step s (.persist credential nonce) { s with senders := s.senders ++ [.txPersisted credential nonce] }
  | finish {s index tx} (result : TxResult) (hTx : s.executions[index]? = some tx) :
      Step s (.finish index result) (s.finish index tx result)
  | send {s index input} (hInput : s.senders[index]? = some input) (hRoom : s.mainQueue.length < cfg.mainCapacity) :
      Step s (.send index) { s with senders := s.senders.eraseIdx index, mainQueue := s.mainQueue ++ [input] }
  | receive {s input rest buffers reaction} (apiNonce executorQueueId : Nat) (hMain : s.main = .waiting)
      (hQueue : s.mainQueue = input :: rest)
      (hHandle : s.buffers.handle cfg.maximumFutureNonceDelta apiNonce executorQueueId input = (buffers, reaction)) :
      Step s (.receive apiNonce executorQueueId) ({ s with mainQueue := rest }.react buffers reaction)
  | mainSend {s input} (hMain : s.main = .sending (.toMain input)) (hRoom : s.mainQueue.length < cfg.mainCapacity) :
      Step s .mainSend { s with main := .waiting, mainQueue := s.mainQueue ++ [input] }
  | mainSendTimeout {s request} (hMain : s.main = .sending (.toTimeout request))
      (hRoom : s.timeoutQueue.length < cfg.timeoutCapacity) :
      Step s .mainSend { s with main := .waiting, timeoutQueue := s.timeoutQueue ++ [request] }
  | forcedTxBatch {s} (hMain : s.main = .waiting) : Step s .forcedTxBatch { s with main := .draining }
  | drainEnd {s} (hMain : s.main = .draining) (hQueue : s.mainQueue = []) :
      Step s .drain { s with main := .waiting, buffers := ∅, answers := s.answers ++ s.buffers.wipe }
  | drain {s input rest buffers answers} (hMain : s.main = .draining) (hQueue : s.mainQueue = input :: rest)
      (hDrain : s.buffers.drain input = (buffers, answers)) :
      Step s .drain { s with mainQueue := rest, buffers, answers := s.answers ++ answers }
  | timeoutReceive {s request rest} (hTask : s.timeoutTask = .receiving) (hQueue : s.timeoutQueue = request :: rest) :
      Step s .timeoutReceive { s with timeoutTask := .sleeping request, timeoutQueue := rest }
  | timeoutDue {s request} (hTask : s.timeoutTask = .sleeping request) :
      Step s .timeoutDue { s with timeoutTask := .sending request }
  | timeoutSend {s request} (hTask : s.timeoutTask = .sending request) (hRoom : s.mainQueue.length < cfg.mainCapacity) :
      Step s .timeoutSend { s with
        timeoutTask := .receiving
        mainQueue := s.mainQueue ++ [.txTimedOut request.credential request.nonce request.hash] }

variable {cfg}

theorem step_ok {s s' event} (h : step cfg s event = .ok s') : Step cfg s event s' := by
  cases event with
  | submit tx =>
    cases h
    exact .submit tx
  | persist credential nonce =>
    cases h
    exact .persist credential nonce
  | finish index result =>
    simp only [step] at h
    split at h <;> cases h
    exact .finish result ‹_›
  | send index =>
    simp only [step] at h
    split at h
    · split at h <;> cases h
      exact .send ‹_› ‹_›
    · cases h
  | receive apiNonce executorQueueId =>
    simp only [step] at h
    split at h
    · cases h
      exact .receive apiNonce executorQueueId ‹_› ‹_› rfl
    · cases h
  | mainSend =>
    simp only [step] at h
    split at h
    · split at h <;> cases h
      exact .mainSend ‹_› ‹_›
    · split at h <;> cases h
      exact .mainSendTimeout ‹_› ‹_›
    · cases h
  | forcedTxBatch =>
    simp only [step] at h
    split at h <;> cases h
    exact .forcedTxBatch ‹_›
  | drain =>
    simp only [step] at h
    split at h
    · cases h
      exact .drainEnd ‹_› ‹_›
    · cases h
      exact .drain ‹_› ‹_› rfl
    · cases h
  | timeoutReceive =>
    simp only [step] at h
    split at h <;> cases h
    exact .timeoutReceive ‹_› ‹_›
  | timeoutDue =>
    simp only [step] at h
    split at h <;> cases h
    exact .timeoutDue ‹_›
  | timeoutSend =>
    simp only [step] at h
    split at h
    · split at h <;> cases h
      exact .timeoutSend ‹_› ‹_›
    · cases h

end NonceBufferSystem

/-! When the nonce buffer's main task blocks for ever on one of its own channels. -/
namespace NonceBufferSystem
open Outcome List

variable {cfg : NonceBufferConfig} {s s' : NonceBufferSystem} {event : NonceBufferEvent}

/-- The main task is sending, and whatever happens it will still be at the same send. -/
def BlockedForever (cfg : NonceBufferConfig) (s : NonceBufferSystem) : Prop :=
  ∃ out, ∀ s', Reaches (step cfg) (fun _ _ => True) s s' → s'.main = .sending out

/-- A send of the main task that only the timeout task could let through. -/
def NeedsTimeoutTask (cfg : NonceBufferConfig) (s : NonceBufferSystem) : Prop :=
  (∃ request, s.main = .sending (.toTimeout request)) ∧ s.timeoutQueue.length = cfg.timeoutCapacity ∧
    s.timeoutTask ≠ .receiving

/-- The event does not fill the main queue while the main task, or the timeout task that it waits for, still has
a message to put there. -/
def LeavesRoom (cfg : NonceBufferConfig) (s : NonceBufferSystem) : NonceBufferEvent → Prop
  | .send _ =>
    s.mainQueue.length + 1 = cfg.mainCapacity → (∀ input, s.main ≠ .sending (.toMain input)) ∧ ¬s.NeedsTimeoutTask cfg
  | .timeoutSend =>
    s.mainQueue.length + 1 = cfg.mainCapacity → ∀ input, s.main ≠ .sending (.toMain input)
  | _ => True

theorem leavesRoom_of_waiting (h : s.main = .waiting) : s.LeavesRoom cfg event := by
  cases event <;> simp [LeavesRoom, NeedsTimeoutTask, h]

structure WithinCapacity (cfg : NonceBufferConfig) (s : NonceBufferSystem) : Prop where
  main : s.mainQueue.length ≤ cfg.mainCapacity
  timeout : s.timeoutQueue.length ≤ cfg.timeoutCapacity

def Stuck (cfg : NonceBufferConfig) (s : NonceBufferSystem) : Prop :=
  s.mainQueue.length = cfg.mainCapacity ∧ ((∃ input, s.main = .sending (.toMain input)) ∨ s.NeedsTimeoutTask cfg)

variable {buffers : NonceBuffers} {reaction : Reaction} {request : TimeoutRequest}

@[simp] theorem react_mainQueue : (s.react buffers reaction).mainQueue = s.mainQueue := rfl

@[simp] theorem react_timeoutQueue : (s.react buffers reaction).timeoutQueue = s.timeoutQueue := rfl

theorem Step.withinCapacity (hStep : Step cfg s event s') (h : s.WithinCapacity cfg) : s'.WithinCapacity cfg := by
  have hMainQ := h.main
  have hTimeQ := h.timeout
  cases hStep with
  | send _ hRoom | mainSend _ hRoom | timeoutSend _ hRoom => exact ⟨by simpa [succ_le_iff] using hRoom, hTimeQ⟩
  | mainSendTimeout _ hRoom => exact ⟨hMainQ, by simpa [succ_le_iff] using hRoom⟩
  | receive _ _ _ hQueue _ | drain _ hQueue _ =>
    rw [hQueue] at hMainQ
    exact ⟨le_of_succ_le hMainQ, hTimeQ⟩
  | timeoutReceive _ hQueue =>
    rw [hQueue] at hTimeQ
    exact ⟨hMainQ, le_of_succ_le hTimeQ⟩
  | _ => exact ⟨hMainQ, hTimeQ⟩

/-- Nothing that can happen in a stuck state changes what the main task waits for. -/
theorem Stuck.keeps (h : s.Stuck cfg) (hStep : Step cfg s event s') : s'.Stuck cfg ∧ s'.main = s.main := by
  obtain ⟨hFull, hSending⟩ := h
  have hBusy : s.main ≠ .waiting ∧ s.main ≠ .draining := by
    obtain ⟨_, hMain⟩ | ⟨⟨_, hMain⟩, -⟩ := hSending <;> simp [hMain]
  cases hStep with
  | submit | persist | finish => exact ⟨⟨hFull, hSending⟩, rfl⟩
  | send _ hRoom | timeoutSend _ hRoom | mainSend _ hRoom => exact absurd hFull hRoom.ne
  | receive _ _ hMain | forcedTxBatch hMain => exact absurd hMain hBusy.1
  | drainEnd hMain | drain hMain => exact absurd hMain hBusy.2
  | mainSendTimeout hMain hRoom =>
    obtain ⟨_, hOther⟩ | ⟨-, hTimeout, -⟩ := hSending
    · simp [hMain] at hOther
    · exact absurd hTimeout hRoom.ne
  | timeoutReceive hTask _ =>
    obtain hOther | ⟨-, -, hIdle⟩ := hSending
    · exact ⟨⟨hFull, .inl hOther⟩, rfl⟩
    · exact absurd hTask hIdle
  | timeoutDue =>
    refine ⟨⟨hFull, hSending.imp_right fun hNeeds => ⟨hNeeds.1, hNeeds.2.1, ?_⟩⟩, rfl⟩
    simp

theorem Stuck.blockedForever (h : s.Stuck cfg) : s.BlockedForever cfg := by
  obtain ⟨out, hOut⟩ : ∃ out, s.main = .sending out := by
    obtain ⟨input, hMain⟩ | ⟨⟨request, hMain⟩, -⟩ := h.2
    · exact ⟨_, hMain⟩
    · exact ⟨_, hMain⟩
  refine ⟨out, fun s' hRun => ?_⟩
  have hKept := hRun.invariant (fun t => t.Stuck cfg ∧ t.main = .sending out) ⟨h, hOut⟩ ?_
  · exact hKept.2
  · intro t t' e ht _ hStep
    have hNext := ht.1.keeps (step_ok hStep)
    exact ⟨hNext.1, hNext.2.trans ht.2⟩

/-- The main task's send can go through after some further events. -/
def CanFinish (cfg : NonceBufferConfig) (s : NonceBufferSystem) : Prop :=
  ∃ s', Reaches (step cfg) (fun _ _ => True) s s' ∧ s'.main = .waiting

theorem CanFinish.not_blockedForever (h : s.CanFinish cfg) : ¬s.BlockedForever cfg := by
  rintro ⟨out, hOut⟩
  obtain ⟨s', hRun, hMain⟩ := h
  simp [hOut s' hRun] at hMain

theorem CanFinish.head (hStep : step cfg s event = .ok s') (h : s'.CanFinish cfg) : s.CanFinish cfg := by
  obtain ⟨t, hRun, hMain⟩ := h
  refine ⟨t, ?_, hMain⟩
  exact hRun.invariant (Reaches (step cfg) (fun _ _ => True) s) (.tail .refl trivial hStep)
    fun _ _ _ hPrior hAdmits hNext => hPrior.tail hAdmits hNext

theorem canFinish_of_main_room {input} (hMain : s.main = .sending (.toMain input))
    (hRoom : s.mainQueue.length < cfg.mainCapacity) : s.CanFinish cfg := by
  have hStep : step cfg s .mainSend = .ok { s with main := .waiting, mainQueue := s.mainQueue ++ [input] } := by
    simp [step, hMain, hRoom]
  exact .head hStep ⟨_, .refl, rfl⟩

theorem canFinish_of_timeout_room (hMain : s.main = .sending (.toTimeout request))
    (hRoom : s.timeoutQueue.length < cfg.timeoutCapacity) : s.CanFinish cfg := by
  have hStep : step cfg s .mainSend =
      .ok { s with main := .waiting, timeoutQueue := s.timeoutQueue ++ [request] } := by
    simp [step, hMain, hRoom]
  exact .head hStep ⟨_, .refl, rfl⟩

section
variable (hTimeout : 0 < cfg.timeoutCapacity)
include hTimeout

section
variable (hWithin : s.WithinCapacity cfg)
include hWithin

theorem canFinish_of_receiving
    (hMain : s.main = .sending (.toTimeout request)) (hTask : s.timeoutTask = .receiving) : s.CanFinish cfg := by
  cases hQueue : s.timeoutQueue with
  | nil => exact canFinish_of_timeout_room hMain (by simpa [hQueue] using hTimeout)
  | cons next rest =>
    have hStep : step cfg s .timeoutReceive =
        .ok { s with timeoutTask := .sleeping next, timeoutQueue := rest } := by
      simp [step, hTask, hQueue]
    have hLen := hWithin.timeout
    rw [hQueue] at hLen
    exact .head hStep (canFinish_of_timeout_room hMain hLen)

theorem canFinish_of_sending {due} (hMain : s.main = .sending (.toTimeout request))
    (hTask : s.timeoutTask = .sending due) (hRoom : s.mainQueue.length < cfg.mainCapacity) : s.CanFinish cfg := by
  let next : NonceBufferSystem := { s with
    timeoutTask := .receiving
    mainQueue := s.mainQueue ++ [.txTimedOut due.credential due.nonce due.hash] }
  have hStep : step cfg s .timeoutSend = .ok next := by
    simp [step, hTask, hRoom, next]
  exact .head hStep (canFinish_of_receiving hTimeout ((step_ok hStep).withinCapacity hWithin) hMain rfl)

/-- A send that is not stuck goes through if the other tasks are scheduled. -/
theorem canFinish_of_not_stuck {out}
    (hMain : s.main = .sending out) (h : ¬s.Stuck cfg) : s.CanFinish cfg := by
  cases out with
  | toMain input =>
    refine canFinish_of_main_room hMain (hWithin.main.lt_of_ne fun hFull => h ⟨hFull, .inl ⟨input, hMain⟩⟩)
  | toTimeout request =>
    by_cases hFull : s.timeoutQueue.length = cfg.timeoutCapacity
    · have hRoom : s.timeoutTask ≠ .receiving → s.mainQueue.length < cfg.mainCapacity := fun hBusy =>
        hWithin.main.lt_of_ne fun hMainFull => h ⟨hMainFull, .inr ⟨⟨request, hMain⟩, hFull, hBusy⟩⟩
      cases hTask : s.timeoutTask with
      | receiving => exact canFinish_of_receiving hTimeout hWithin hMain hTask
      | sending due => exact canFinish_of_sending hTimeout hWithin hMain hTask (hRoom (by simp [hTask]))
      | sleeping due =>
        have hStep : step cfg s .timeoutDue = .ok { s with timeoutTask := .sending due } := by
          simp [step, hTask]
        refine .head hStep (canFinish_of_sending hTimeout ⟨hWithin.main, hWithin.timeout⟩ hMain rfl ?_)
        exact hRoom (by simp [hTask])
    · exact canFinish_of_timeout_room hMain (hWithin.timeout.lt_of_ne hFull)

theorem blockedForever_iff : s.BlockedForever cfg ↔ s.Stuck cfg := by
  constructor
  · intro h
    obtain ⟨out, hOut⟩ := h
    by_contra hFree
    exact (canFinish_of_not_stuck hTimeout hWithin (hOut s .refl) hFree).not_blockedForever ⟨out, hOut⟩
  · exact Stuck.blockedForever

end

end

/-- The step into a stuck state is one that takes the last place of the main queue. -/
theorem Step.stuck_iff (hStep : Step cfg s event s') (hWithin : s.WithinCapacity cfg) (h : ¬s.Stuck cfg) :
    s'.Stuck cfg ↔ ¬s.LeavesRoom cfg event := by
  have hTrue : ¬¬True := not_not_intro trivial
  have hMainQ := hWithin.main
  cases hStep with
  | submit | persist | finish => exact iff_of_false h hTrue
  | send _ _ =>
    simp only [LeavesRoom, Classical.not_imp, not_and, not_not, ← not_exists, ← or_iff_not_imp_left, Stuck,
      length_append]
    exact Iff.rfl
  | timeoutSend _ _ =>
    simp only [Stuck, LeavesRoom, NeedsTimeoutTask, length_append, length_singleton, Classical.not_imp,
      not_not, not_forall, ne_eq, not_true_eq_false, and_false, or_false]
  | receive _ _ _ hQueue _ | drain _ hQueue _ =>
    refine iff_of_false (fun hStuck => ?_) hTrue
    rw [hQueue] at hMainQ
    exact absurd hStuck.1 (Nat.ne_of_lt hMainQ)
  | mainSend | mainSendTimeout | forcedTxBatch | drainEnd =>
    refine iff_of_false ?_ hTrue
    simp [Stuck, NeedsTimeoutTask]
  | timeoutReceive _ hQueue =>
    refine iff_of_false (fun hStuck => ?_) hTrue
    obtain ⟨hFull, hOther | ⟨-, hLen, -⟩⟩ := hStuck
    · exact h ⟨hFull, .inl hOther⟩
    · have hTimeQ := hWithin.timeout
      rw [hQueue] at hTimeQ
      exact absurd hLen (Nat.ne_of_lt hTimeQ)
  | timeoutDue hTask =>
    refine iff_of_false (fun hStuck => h ⟨hStuck.1, hStuck.2.imp_right fun hNeeds => ?_⟩) hTrue
    exact ⟨hNeeds.1, hNeeds.2.1, by simp [hTask]⟩

/-- For all capacities and all schedules: the state that a run ends in is not one that blocks the main task for
ever exactly if no event of the run has taken the last place of the main queue from the main task. -/
theorem main_task_progress_iff {events : List NonceBufferEvent} (hMain : 0 < cfg.mainCapacity)
    (hTimeout : 0 < cfg.timeoutCapacity) (hRun : events.foldlM (step cfg) start = .ok s) :
    ¬s.BlockedForever cfg ↔ Along (step cfg) (LeavesRoom cfg) start events := by
  have hStart : start.WithinCapacity cfg := ⟨zero_le _, zero_le _⟩
  have hWithin : s.WithinCapacity cfg :=
    foldlM_invariant (fun t => t.WithinCapacity cfg) (fun _ _ _ ht hStep => (step_ok hStep).withinCapacity ht)
      hStart hRun
  have hFree : ¬start.Stuck cfg := fun hStuck => absurd hStuck.1 (Nat.ne_of_lt hMain)
  rw [blockedForever_iff hTimeout hWithin,
    foldlM_iff_along (WithinCapacity cfg) (¬Stuck cfg ·) (fun t event next hWithin hNext => ?_) hStart hRun]
  · exact and_iff_right hFree
  · have hStep := step_ok hNext
    refine ⟨hStep.withinCapacity hWithin, ?_⟩
    by_cases hStuck : Stuck cfg t
    · exact iff_of_false (not_not_intro (hStuck.keeps hStep).1) fun hBoth => hBoth.1 hStuck
    · rw [hStep.stuck_iff hWithin hStuck, not_not, and_iff_right hStuck]

def smallConfig : NonceBufferConfig := ⟨1, 1, 10⟩

def userTx (nonce : Nat) : SubmittedTx := ⟨7, nonce, 100 + nonce, 0, nonce⟩

/-- Nonce 0 is being executed, nonce 1 waits for it, and the result of nonce 0 is in the main queue. -/
def nextWaits : List NonceBufferEvent :=
  [.submit (userTx 0), .send 0, .receive 0 0, .submit (userTx 1), .send 0, .receive 0 0, .mainSend,
    .finish 0 .accepted, .send 0]

/-- The main task takes the result and wants to send nonce 1 to itself, but the place in its queue goes to
another sender. -/
theorem main_task_blocks_itself :
    ∃ s, (nextWaits ++ [.receive 0 0, .persist 7 0, .send 0] : List NonceBufferEvent).foldlM (step smallConfig) start =
        .ok s ∧
      s.BlockedForever smallConfig := by
  refine ⟨_, rfl, Stuck.blockedForever ⟨rfl, .inl ⟨_, rfl⟩⟩⟩

def nextSentFirst : List NonceBufferEvent := nextWaits ++ [.receive 0 0, .persist 7 0, .mainSend]

/-- Nonce 1 takes the place in the queue before another sender does. -/
theorem next_nonce_sent_first :
    ∃ s, nextSentFirst.foldlM (step smallConfig) start = .ok s ∧ ¬s.BlockedForever smallConfig := by
  refine exists_and_of returned fun hRun => (main_task_progress_iff (by decide) (by decide) hRun).mpr ?_
  -- the places of the queue are taken while the main task waits
  iterate 12 refine (along_cons rfl).mpr ⟨by first | trivial | exact leavesRoom_of_waiting rfl, ?_⟩
  trivial

end NonceBufferSystem
end SovereignSdk
