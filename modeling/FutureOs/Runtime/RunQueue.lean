import FutureOs.Lib.Json
import FutureOs.Lib.Machine
import Mathlib.Data.List.Sort

/-!
# The run queue of one session

`InMemoryRunQueue` (`agent/src/runtime/scheduler_queue.rs`): a process-local FIFO
of prompts with request idempotency, bounded memory of finished requests, and a
quota in a budget that all sessions share.  Every operation is one critical
section of the queue's mutex; the budget has a mutex of its own, and an operation
calls it at most once to reserve and then only to release.

The hash map of requests is a sorted field list, the set of run ids a
duplicate-free list.  Byte counters are `usize` and saturate as the source's do.
What the source takes from outside (clock readings as text and as instants, the
generated run id) is an argument, and what it calls outside the repository (the
digest, the timestamp parser) is an environment.
-/

namespace FutureOs
namespace Runtime

/-- The largest `usize`. -/
def usizeMax : Nat := 2 ^ 64 - 1

/-- `usize::saturating_add`. -/
def satAdd (a b : Nat) : Nat := min (a + b) usizeMax

/-- The largest `u64`. -/
def u64Max : Nat := 2 ^ 64 - 1

inductive BusyPolicy
  | enqueueIfBusy
  | enqueueCoalescing
  | supersedeSession
deriving DecidableEq

namespace BusyPolicy

def asStr : BusyPolicy → String
  | enqueueIfBusy => "enqueue_if_busy"
  | enqueueCoalescing => "enqueue_coalescing"
  | supersedeSession => "supersede_session"

/-- Whether a queued request may absorb, and be absorbed by, its neighbours. -/
def coalesces : BusyPolicy → Bool
  | enqueueCoalescing => true
  | _ => false

theorem asStr_injective : Function.Injective asStr := by
  intro a b h
  cases a <;> cases b <;> simp_all [asStr]

end BusyPolicy

/-- Which boundary is draining the queue. -/
inductive QueueBoundary
  | afterRun
  | idle
deriving DecidableEq

structure ScheduledRunRequest where
  sessionId : String
  runId : String
  runSequence : Nat
  clientRequestId : String
  requestDigest : String
  busyPolicy : BusyPolicy
  payload : Json
  acceptedAt : String
  payloadBytes : Nat
deriving DecidableEq

inductive QueuedCancellationReason
  | cancelled
  | superseded
  | sessionDeleted
deriving DecidableEq

def QueuedCancellationReason.asStr : QueuedCancellationReason → String
  | cancelled => "cancelled"
  | superseded => "superseded"
  | sessionDeleted => "session_deleted"

structure TerminalRunAck where
  runId : String
  runSequence : Nat
  clientRequestId : String
  state : String
  reason : String
deriving DecidableEq

inductive RunQueueError
  | invalidRunId (runId : String)
  | missingClientRequestId
  | duplicateRequestConflict (clientRequestId : String)
  | duplicateRunId (runId : String)
  | supersedeRequiresSessionOperation
  | queueFull (limit : Nat)
  | requestTooLarge (actual limit : Nat)
  | queueBytesExceeded (actual limit : Nat)
  | globalQueueFull (limit : Nat)
  | globalQueueBytesExceeded (actual limit : Nat)
  | activeRunExists (runId : String)
  | queueEmpty
  | runNotQueued (runId : String)
  | runNotActive (expected : Option String) (actual : String)
  | sequenceExhausted
deriving DecidableEq

structure RequestIdentity where
  digest : String
  runId : String
  runSequence : Nat
deriving DecidableEq

/-- Why a queued prompt waits for a person instead of running itself. -/
inductive ParkReason
  | tooOld
  | unknownAge
deriving DecidableEq

structure ParkedRun where
  runId : String
  reason : ParkReason
deriving DecidableEq

structure HeldRun where
  request : ScheduledRunRequest
  reason : ParkReason
deriving DecidableEq

inductive RunAcceptedState
  | existing
  | running
  | queued
deriving DecidableEq

structure RunAck where
  runId : String
  runEpoch : Nat
  acceptedState : RunAcceptedState
  runSequence : Option Nat
  queuePosition : Option Nat
deriving DecidableEq

namespace RunAck

def existing (runId : String) (runEpoch : Nat) : RunAck :=
  ⟨runId, runEpoch, .existing, none, none⟩

def queued (runId : String) (runSequence queuePosition : Nat) : RunAck :=
  ⟨runId, 0, .queued, some runSequence, some queuePosition⟩

end RunAck

/-! ## The budget all sessions share -/

structure GlobalQueueBudget where
  maxCount : Nat
  maxBytes : Nat
  count : Nat
  bytes : Nat
deriving DecidableEq

namespace GlobalQueueBudget

def new (maxCount maxBytes : Nat) : GlobalQueueBudget :=
  ⟨maxCount, maxBytes, 0, 0⟩

def reserve (g : GlobalQueueBudget) (bytes : Nat) :
    Except RunQueueError GlobalQueueBudget :=
  if g.maxCount ≤ g.count then
    .error (.globalQueueFull g.maxCount)
  else
    let newBytes := satAdd g.bytes bytes
    if g.maxBytes < newBytes then
      .error (.globalQueueBytesExceeded newBytes g.maxBytes)
    else
      .ok { g with count := g.count + 1, bytes := newBytes }

def release (g : GlobalQueueBudget) (bytes : Nat) : GlobalQueueBudget :=
  { g with count := g.count - 1, bytes := g.bytes - bytes }

/-- Release each of several reservations. -/
def releaseAll (g : GlobalQueueBudget) (requests : List ScheduledRunRequest) :
    GlobalQueueBudget :=
  requests.foldl (fun g request => g.release request.payloadBytes) g

def replaceQueued
    (g : GlobalQueueBudget)
    (releasedCount releasedBytes newBytes : Nat) :
    Except RunQueueError GlobalQueueBudget :=
  let baseCount := g.count - releasedCount
  let baseBytes := g.bytes - releasedBytes
  if g.maxCount ≤ baseCount then
    .error (.globalQueueFull g.maxCount)
  else
    let projectedBytes := satAdd baseBytes newBytes
    if g.maxBytes < projectedBytes then
      .error (.globalQueueBytesExceeded projectedBytes g.maxBytes)
    else
      .ok { g with count := baseCount + 1, bytes := projectedBytes }

end GlobalQueueBudget

/-! ## The queue -/

/-- What the queue calls outside the repository. -/
structure QueueEnv where
  /-- Hex SHA-256 of the compact text of a value. -/
  sha256 : Json → String
  /-- The instant, in nanoseconds, that an RFC 3339 text names. -/
  parseRfc3339 : String → Option Int

/-- The construction parameters of a queue. -/
structure QueueLimits where
  sessionId : String
  capacity : Nat
  maxQueueBytes : Nat
  maxRequestBytes : Nat
  recentAckLimit : Nat
  /-- The staleness window, in seconds. -/
  staleAfter : Int
deriving DecidableEq

structure InMemoryRunQueue where
  limits : QueueLimits
  nextSequence : Nat
  active : Option (ScheduledRunRequest × Nat)
  queued : List ScheduledRunRequest
  held : List HeldRun
  queuedBytes : Nat
  requests : List (String × RequestIdentity)
  runIds : List String
  terminalAcks : List TerminalRunAck
deriving DecidableEq

namespace InMemoryRunQueue

def new (limits : QueueLimits) (nextSequence : Nat) : InMemoryRunQueue :=
  ⟨limits, max nextSequence 1, none, [], [], 0, [], [], []⟩

/-- `char::is_whitespace`: the Unicode property `White_Space`. -/
def isWhitespace (c : Char) : Bool :=
  let n := c.toNat
  (0x9 ≤ n ∧ n ≤ 0xd) ∨ n = 0x20 ∨ n = 0x85 ∨ n = 0xa0 ∨ n = 0x1680 ∨
    (0x2000 ≤ n ∧ n ≤ 0x200a) ∨ n = 0x2028 ∨ n = 0x2029 ∨ n = 0x202f ∨
    n = 0x205f ∨ n = 0x3000

/-- `trim().is_empty()`. -/
def isBlank (s : String) : Bool :=
  s.toList.all isWhitespace

/-- A run id is a short name of ASCII letters, digits, `_` and `-`. -/
def isSafeRunId (runId : String) : Bool :=
  runId.utf8ByteSize ≤ 128 ∧ runId ≠ "" ∧
    runId.toList.all fun c => c.isAlphanum ∨ c = '_' ∨ c = '-'

/-- The value whose digest identifies the content of a request. -/
def requestEnvelope
    (requestedRunId : Option String)
    (busyPolicy : BusyPolicy)
    (payload : Json) : Json :=
  .obj
    [("busy_policy", .str busyPolicy.asStr),
      ("payload", payload),
      ("requested_run_id", requestedRunId.elim .null .str)]

/-- `request_digest`; sorting the payload's keys is what `Json` does already. -/
def requestDigest
    (env : QueueEnv)
    (requestedRunId : Option String)
    (busyPolicy : BusyPolicy)
    (payload : Json) : String :=
  env.sha256 (requestEnvelope requestedRunId busyPolicy payload)

/-- The acknowledgement of a request that was accepted before. -/
def existingAck (q : InMemoryRunQueue) (identity : RequestIdentity) : RunAck :=
  match q.active.filter (·.1.runId = identity.runId) with
  | some (_, epoch) =>
      { RunAck.existing identity.runId epoch with
        runSequence := some identity.runSequence }
  | none =>
      { RunAck.existing identity.runId 0 with
        runSequence := some identity.runSequence
        queuePosition :=
          (q.queued.findIdx? (·.runId = identity.runId)).map (· + 1) }

/-- Forget the oldest acknowledgements until at most `limit` are left. -/
def evict (q : InMemoryRunQueue) : List TerminalRunAck → InMemoryRunQueue
  | [] => { q with terminalAcks := [] }
  | ack :: rest =>
      if q.limits.recentAckLimit < (ack :: rest).length then
        { q with
          requests := Fields.erase ack.clientRequestId q.requests
          runIds := q.runIds.erase ack.runId }.evict rest
      else
        { q with terminalAcks := ack :: rest }

/-- The acknowledgement that a request became terminal. -/
def terminalAck
    (request : ScheduledRunRequest)
    (terminalState reason : String) : TerminalRunAck :=
  { runId := request.runId
    runSequence := request.runSequence
    clientRequestId := request.clientRequestId
    state := terminalState
    reason }

def rememberTerminal
    (q : InMemoryRunQueue)
    (request : ScheduledRunRequest)
    (terminalState reason : String) : InMemoryRunQueue :=
  q.evict (q.terminalAcks ++ [terminalAck request terminalState reason])

/-- Remember several requests as terminal, one after the other. -/
def rememberAll
    (q : InMemoryRunQueue)
    (requests : List ScheduledRunRequest)
    (terminalState reason : String) : InMemoryRunQueue :=
  requests.foldl
    (fun q request => q.rememberTerminal request terminalState reason) q

/-- What the checks of a submission find: a known request, or a new run. -/
inductive Submission
  | known (identity : RequestIdentity)
  | fresh (runId : String)
deriving DecidableEq

/-- The checks of the requested or generated run id. -/
def checkRunId
    (q : InMemoryRunQueue)
    (requestedRunId : Option String)
    (generatedId : String) :
    Except RunQueueError Submission :=
  let runId := (requestedRunId.filter (· ≠ "")).getD generatedId
  if isSafeRunId runId = false then
    .error (.invalidRunId runId)
  else if runId ∈ q.runIds then
    .error (.duplicateRunId runId)
  else if q.nextSequence = u64Max then
    .error .sequenceExhausted
  else
    .ok (.fresh runId)

/-- Everything `accept` checks before it reserves quota. -/
def checkAccept
    (env : QueueEnv)
    (q : InMemoryRunQueue)
    (clientRequestId : String)
    (requestedRunId : Option String)
    (busyPolicy : BusyPolicy)
    (payload : Json)
    (generatedId : String) :
    Except RunQueueError Submission :=
  if isBlank clientRequestId then
    .error .missingClientRequestId
  else
    match Fields.lookup clientRequestId q.requests with
    | some identity =>
        if identity.digest ≠
            requestDigest env requestedRunId busyPolicy payload then
          .error (.duplicateRequestConflict clientRequestId)
        else
          .ok (.known identity)
    | none =>
        let newBytes := satAdd q.queuedBytes payload.compactLen
        if busyPolicy = .supersedeSession then
          .error .supersedeRequiresSessionOperation
        else if q.limits.maxRequestBytes < payload.compactLen then
          .error (.requestTooLarge payload.compactLen q.limits.maxRequestBytes)
        else if q.limits.capacity ≤ q.queued.length then
          .error (.queueFull q.limits.capacity)
        else if q.limits.maxQueueBytes < newBytes then
          .error (.queueBytesExceeded newBytes q.limits.maxQueueBytes)
        else
          q.checkRunId requestedRunId generatedId

/-- The request a new run is scheduled with. -/
def scheduled
    (env : QueueEnv)
    (q : InMemoryRunQueue)
    (clientRequestId : String)
    (requestedRunId : Option String)
    (busyPolicy : BusyPolicy)
    (payload : Json)
    (runId acceptedAt : String) : ScheduledRunRequest :=
  { sessionId := q.limits.sessionId
    runId
    runSequence := q.nextSequence
    clientRequestId
    requestDigest := requestDigest env requestedRunId busyPolicy payload
    busyPolicy
    payload
    acceptedAt
    payloadBytes := payload.compactLen }

/-- Append a new run and register its identity. -/
def enqueue
    (q : InMemoryRunQueue)
    (request : ScheduledRunRequest)
    (queuedBytes : Nat) : InMemoryRunQueue :=
  { q with
    nextSequence := q.nextSequence + 1
    queued := q.queued ++ [request]
    queuedBytes
    requests := Fields.insert request.clientRequestId
      ⟨request.requestDigest, request.runId, request.runSequence⟩ q.requests
    runIds := q.runIds.insert request.runId }

def accept
    (env : QueueEnv)
    (q : InMemoryRunQueue)
    (g : GlobalQueueBudget)
    (clientRequestId : String)
    (requestedRunId : Option String)
    (busyPolicy : BusyPolicy)
    (payload : Json)
    (generatedId acceptedAt : String) :
    Except RunQueueError RunAck × InMemoryRunQueue × GlobalQueueBudget :=
  match q.checkAccept env clientRequestId requestedRunId busyPolicy payload
      generatedId with
  | .error e => (.error e, q, g)
  | .ok (.known identity) => (.ok (q.existingAck identity), q, g)
  | .ok (.fresh runId) =>
      match g.reserve payload.compactLen with
      | .error e => (.error e, q, g)
      | .ok g' =>
          let request := q.scheduled env clientRequestId requestedRunId
            busyPolicy payload runId acceptedAt
          let q' := q.enqueue request
            (satAdd q.queuedBytes payload.compactLen)
          (.ok (RunAck.queued runId q.nextSequence q'.queued.length), q', g')

def startNext
    (q : InMemoryRunQueue)
    (g : GlobalQueueBudget)
    (epoch : Nat) :
    Except RunQueueError (ScheduledRunRequest × RunAck) ×
      InMemoryRunQueue × GlobalQueueBudget :=
  match q.active with
  | some (active, _) => (.error (.activeRunExists active.runId), q, g)
  | none =>
      match q.queued with
      | [] => (.error .queueEmpty, q, g)
      | request :: rest =>
          let ack : RunAck :=
            ⟨request.runId, epoch, .running, some request.runSequence, none⟩
          (.ok (request, ack),
            { q with
              active := some (request, epoch)
              queued := rest
              queuedBytes := q.queuedBytes - request.payloadBytes },
            g.release request.payloadBytes)

/-- How many requests fold into the front one, given the bytes it leaves. -/
def foldCount (remaining : Nat) : List ScheduledRunRequest → Nat
  | [] => 0
  | request :: rest =>
      if request.busyPolicy.coalesces = false ∨
          remaining < request.payloadBytes then
        0
      else
        foldCount (remaining - request.payloadBytes) rest + 1

/-- Take the requests that fold into the front one out of the queue. -/
def drainCoalescingAfterFirst
    (q : InMemoryRunQueue)
    (g : GlobalQueueBudget) :
    List ScheduledRunRequest × InMemoryRunQueue × GlobalQueueBudget :=
  match q.queued with
  | [] => ([], q, g)
  | front :: rest =>
      if front.busyPolicy.coalesces = false then
        ([], q, g)
      else
        let count :=
          foldCount (q.limits.maxRequestBytes - front.payloadBytes) rest
        let folded := rest.take count
        let q' :=
          { q with
            queued := front :: rest.drop count
            queuedBytes :=
              folded.foldl
                (fun bytes (request : ScheduledRunRequest) =>
                  bytes - request.payloadBytes) q.queuedBytes }
        (folded, q'.rememberAll folded "terminal" "merged",
          g.releaseAll folded)

/-- Everything `supersede` checks before it replaces the quota. -/
def checkSupersede
    (env : QueueEnv)
    (q : InMemoryRunQueue)
    (clientRequestId : String)
    (requestedRunId : Option String)
    (payload : Json)
    (generatedId : String) :
    Except RunQueueError Submission :=
  if isBlank clientRequestId then
    .error .missingClientRequestId
  else
    match Fields.lookup clientRequestId q.requests with
    | some identity =>
        if identity.digest ≠
            requestDigest env requestedRunId .supersedeSession payload then
          .error (.duplicateRequestConflict clientRequestId)
        else
          .ok (.known identity)
    | none =>
        if q.limits.maxRequestBytes < payload.compactLen ∨
            q.limits.maxQueueBytes < payload.compactLen then
          .error (.requestTooLarge payload.compactLen
            (min q.limits.maxRequestBytes q.limits.maxQueueBytes))
        else
          q.checkRunId requestedRunId generatedId

/-- Replace every queued request with one successor. -/
def supersede
    (env : QueueEnv)
    (q : InMemoryRunQueue)
    (g : GlobalQueueBudget)
    (clientRequestId : String)
    (requestedRunId : Option String)
    (payload : Json)
    (generatedId acceptedAt : String) :
    Except RunQueueError (RunAck × List ScheduledRunRequest × Option String) ×
      InMemoryRunQueue × GlobalQueueBudget :=
  match q.checkSupersede env clientRequestId requestedRunId payload
      generatedId with
  | .error e => (.error e, q, g)
  | .ok (.known identity) => (.ok (q.existingAck identity, [], none), q, g)
  | .ok (.fresh runId) =>
      match g.replaceQueued q.queued.length q.queuedBytes
          payload.compactLen with
      | .error e => (.error e, q, g)
      | .ok g' =>
          let cancelled := q.queued
          let q' := ({ q with queued := [], queuedBytes := 0 }).rememberAll
            cancelled "cancelled" "superseded"
          let request := q'.scheduled env clientRequestId requestedRunId
            .supersedeSession payload runId acceptedAt
          (.ok (RunAck.queued runId q'.nextSequence 1, cancelled,
              q.active.map (·.1.runId)),
            q'.enqueue request payload.compactLen, g')

def finishActive (q : InMemoryRunQueue) (runId : String) :
    Except RunQueueError Unit × InMemoryRunQueue :=
  match q.active with
  | none => (.error (.runNotActive none runId), q)
  | some (finished, _) =>
      if finished.runId ≠ runId then
        (.error (.runNotActive (some finished.runId) runId), q)
      else
        (.ok (), ({ q with active := none }).rememberTerminal finished
          "terminal" "settled")

def cancelQueued
    (q : InMemoryRunQueue)
    (g : GlobalQueueBudget)
    (runId : String)
    (reason : QueuedCancellationReason) :
    Except RunQueueError ScheduledRunRequest ×
      InMemoryRunQueue × GlobalQueueBudget :=
  match q.held.find? (·.request.runId = runId) with
  | some held =>
      (.ok held.request,
        ({ q with
          held := q.held.eraseP (·.request.runId = runId)
          queuedBytes :=
            q.queuedBytes - held.request.payloadBytes }).rememberTerminal
          held.request "cancelled" reason.asStr,
        g.release held.request.payloadBytes)
  | none =>
      match q.queued.find? (·.runId = runId) with
      | none => (.error (.runNotQueued runId), q, g)
      | some request =>
          (.ok request,
            ({ q with
              queued := q.queued.eraseP (·.runId = runId)
              queuedBytes :=
                q.queuedBytes - request.payloadBytes }).rememberTerminal
              request "cancelled" reason.asStr,
            g.release request.payloadBytes)

/-- The bytes several requests reserve together. -/
def bytesOf (requests : List ScheduledRunRequest) : Nat :=
  (requests.map ScheduledRunRequest.payloadBytes).sum

/-- Stable order by run sequence. -/
def sortRequests (requests : List ScheduledRunRequest) :
    List ScheduledRunRequest :=
  requests.insertionSort fun a b => a.runSequence ≤ b.runSequence

def cancelAllQueued
    (q : InMemoryRunQueue)
    (g : GlobalQueueBudget)
    (reason : QueuedCancellationReason) :
    List ScheduledRunRequest × InMemoryRunQueue × GlobalQueueBudget :=
  let cancelled := sortRequests (q.queued ++ q.held.map HeldRun.request)
  (cancelled,
    ({ q with queued := [], held := [], queuedBytes := 0 }).rememberAll
      cancelled "cancelled" reason.asStr,
    g.releaseAll cancelled)

/-- Why a waiting request is parked at this boundary, if it is. -/
def parkReason
    (env : QueueEnv)
    (q : InMemoryRunQueue)
    (boundary : QueueBoundary)
    (now : Int)
    (request : ScheduledRunRequest) : Option ParkReason :=
  match env.parseRfc3339 request.acceptedAt with
  | none => some .unknownAge
  | some instant =>
      if boundary = .afterRun then
        none
      else if q.limits.staleAfter ≤ (now - instant).tdiv 1000000000 then
        some .tooOld
      else
        none

/-- Stable order of parked requests by run sequence. -/
def sortHeld (held : List HeldRun) : List HeldRun :=
  held.insertionSort fun a b => a.request.runSequence ≤ b.request.runSequence

def parkStale
    (env : QueueEnv)
    (q : InMemoryRunQueue)
    (boundary : QueueBoundary)
    (now : Int) :
    List ParkedRun × InMemoryRunQueue :=
  let held := q.queued.filterMap fun request =>
    (q.parkReason env boundary now request).map (⟨request, ·⟩)
  (held.map fun h => ⟨h.request.runId, h.reason⟩,
    { q with
      queued := q.queued.filter fun request =>
        (q.parkReason env boundary now request).isNone
      held := sortHeld (q.held ++ held) })

/-- Insert before the first request with a larger run sequence. -/
def insertBySequence (request : ScheduledRunRequest) :
    List ScheduledRunRequest → List ScheduledRunRequest
  | [] => [request]
  | head :: rest =>
      if request.runSequence < head.runSequence then
        request :: head :: rest
      else
        head :: insertBySequence request rest

def releaseHeld
    (q : InMemoryRunQueue)
    (runId acceptedAt : String) :
    Except RunQueueError ScheduledRunRequest × InMemoryRunQueue :=
  match q.held.find? (·.request.runId = runId) with
  | none => (.error (.runNotQueued runId), q)
  | some held =>
      let request := { held.request with acceptedAt }
      (.ok request,
        { q with
          held := q.held.eraseP (·.request.runId = runId)
          queued := insertBySequence request q.queued })

def releaseActivePayload (q : InMemoryRunQueue) (runId : String) :
    InMemoryRunQueue :=
  { q with
    active := q.active.map fun active =>
      if active.1.runId = runId then
        ({ active.1 with payload := .null, payloadBytes := 0 }, active.2)
      else
        active }

end InMemoryRunQueue

/-! ## Steps -/

/-- One call on a queue, with what its caller and the outside supply. -/
inductive QueueOp
  | accept (clientRequestId : String) (requestedRunId : Option String)
      (busyPolicy : BusyPolicy) (payload : Json)
      (generatedId acceptedAt : String)
  | startNext (epoch : Nat)
  | drainCoalescingAfterFirst
  | supersede (clientRequestId : String) (requestedRunId : Option String)
      (payload : Json) (generatedId acceptedAt : String)
  | finishActive (runId : String)
  | cancelQueued (runId : String) (reason : QueuedCancellationReason)
  | cancelAllQueued (reason : QueuedCancellationReason)
  | parkStale (boundary : QueueBoundary) (now : Int)
  | releaseHeld (runId acceptedAt : String)
  | releaseActivePayload (runId : String)
deriving DecidableEq

namespace InMemoryRunQueue

/-- The queue and the budget after one call. -/
def step
    (env : QueueEnv)
    (q : InMemoryRunQueue)
    (g : GlobalQueueBudget) :
    QueueOp → InMemoryRunQueue × GlobalQueueBudget
  | .accept clientRequestId requestedRunId busyPolicy payload generatedId
      acceptedAt =>
      (q.accept env g clientRequestId requestedRunId busyPolicy payload
        generatedId acceptedAt).2
  | .startNext epoch => (q.startNext g epoch).2
  | .drainCoalescingAfterFirst => (q.drainCoalescingAfterFirst g).2
  | .supersede clientRequestId requestedRunId payload generatedId acceptedAt =>
      (q.supersede env g clientRequestId requestedRunId payload generatedId
        acceptedAt).2
  | .finishActive runId => ((q.finishActive runId).2, g)
  | .cancelQueued runId reason => (q.cancelQueued g runId reason).2
  | .cancelAllQueued reason => (q.cancelAllQueued g reason).2
  | .parkStale boundary now => ((q.parkStale env boundary now).2, g)
  | .releaseHeld runId acceptedAt => ((q.releaseHeld runId acceptedAt).2, g)
  | .releaseActivePayload runId => (q.releaseActivePayload runId, g)

/-- What a caller learns about the life of a run. -/
inductive Event
  | accepted (requestedRunId : Option String) (request : ScheduledRunRequest)
  | started (request : ScheduledRunRequest)
  | terminal (ack : TerminalRunAck)

/-- The run an acknowledgement says was appended to the queue. -/
def appended
    (requestedRunId : Option String)
    (ack : RunAck)
    (after : InMemoryRunQueue) : List Event :=
  if ack.acceptedState = .queued then
    (after.queued.getLast?.map (.accepted requestedRunId)).toList
  else
    []

/-- The events of one call, read off its answer. -/
def emit
    (env : QueueEnv)
    (q : InMemoryRunQueue)
    (g : GlobalQueueBudget) :
    QueueOp → List Event
  | .accept clientRequestId requestedRunId busyPolicy payload generatedId
      acceptedAt =>
      match q.accept env g clientRequestId requestedRunId busyPolicy payload
          generatedId acceptedAt with
      | (.ok ack, after, _) => appended requestedRunId ack after
      | (.error _, _) => []
  | .startNext epoch =>
      match (q.startNext g epoch).1 with
      | .ok (request, _) => [.started request]
      | .error _ => []
  | .drainCoalescingAfterFirst =>
      (q.drainCoalescingAfterFirst g).1.map fun request =>
        .terminal (terminalAck request "terminal" "merged")
  | .supersede clientRequestId requestedRunId payload generatedId acceptedAt =>
      match q.supersede env g clientRequestId requestedRunId payload
          generatedId acceptedAt with
      | (.ok (ack, cancelled, _), after, _) =>
          (cancelled.map fun request =>
            .terminal (terminalAck request "cancelled" "superseded")) ++
          appended requestedRunId ack after
      | (.error _, _) => []
  | .finishActive runId =>
      match q.active, (q.finishActive runId).1 with
      | some (request, _), .ok () =>
          [.terminal (terminalAck request "terminal" "settled")]
      | _, _ => []
  | .cancelQueued runId reason =>
      match (q.cancelQueued g runId reason).1 with
      | .ok request =>
          [.terminal (terminalAck request "cancelled" reason.asStr)]
      | .error _ => []
  | .cancelAllQueued reason =>
      (q.cancelAllQueued g reason).1.map fun request =>
        .terminal (terminalAck request "cancelled" reason.asStr)
  | .parkStale .. => []
  | .releaseHeld .. => []
  | .releaseActivePayload _ => []

/-! ## Frames of the registry of finished requests -/

/-- Remembering finished requests touches nothing but the registry. -/
structure SameQueue (q q' : InMemoryRunQueue) : Prop where
  limits : q'.limits = q.limits
  nextSequence : q'.nextSequence = q.nextSequence
  active : q'.active = q.active
  queued : q'.queued = q.queued
  held : q'.held = q.held
  queuedBytes : q'.queuedBytes = q.queuedBytes

theorem SameQueue.trans
    {q q' q'' : InMemoryRunQueue}
    (h : SameQueue q q')
    (h' : SameQueue q' q'') :
    SameQueue q q'' :=
  ⟨h'.limits.trans h.limits, h'.nextSequence.trans h.nextSequence,
    h'.active.trans h.active, h'.queued.trans h.queued,
    h'.held.trans h.held, h'.queuedBytes.trans h.queuedBytes⟩

section Frames

variable (q : InMemoryRunQueue)

theorem evict_frame (acks : List TerminalRunAck) :
    SameQueue q (q.evict acks) := by
  induction acks generalizing q with
  | nil =>
      exact ⟨rfl, rfl, rfl, rfl, rfl, rfl⟩
  | cons ack rest ih =>
      unfold evict
      split
      · have hrest := ih { q with
          requests := Fields.erase ack.clientRequestId q.requests
          runIds := q.runIds.erase ack.runId }
        exact ⟨hrest.limits, hrest.nextSequence, hrest.active, hrest.queued,
          hrest.held, hrest.queuedBytes⟩
      · exact ⟨rfl, rfl, rfl, rfl, rfl, rfl⟩

theorem rememberTerminal_frame
    (request : ScheduledRunRequest)
    (terminalState reason : String) :
    SameQueue q (q.rememberTerminal request terminalState reason) :=
  q.evict_frame _

theorem rememberAll_frame
    (requests : List ScheduledRunRequest)
    (terminalState reason : String) :
    SameQueue q (q.rememberAll requests terminalState reason) := by
  induction requests generalizing q with
  | nil =>
      exact ⟨rfl, rfl, rfl, rfl, rfl, rfl⟩
  | cons request rest ih =>
      exact (q.rememberTerminal_frame request terminalState reason).trans
        (ih _)

end Frames

/-! ## What a call can do -/

/-- Everything that waits: queued and parked prompts. -/
def waiting (q : InMemoryRunQueue) : List ScheduledRunRequest :=
  q.queued ++ q.held.map HeldRun.request

/-- The request of a submission that passed the checks. -/
structure Fresh
    (env : QueueEnv)
    (q : InMemoryRunQueue)
    (requestedRunId : Option String)
    (request : ScheduledRunRequest) : Prop where
  named : isBlank request.clientRequestId = false
  unknown : Fields.lookup request.clientRequestId q.requests = none
  unused : request.runId ∉ q.runIds
  next : request.runSequence = q.nextSequence
  room : q.nextSequence ≠ u64Max
  digest : request.requestDigest =
    requestDigest env requestedRunId request.busyPolicy request.payload
  bytes : request.payloadBytes = request.payload.compactLen

/-- Everything a call can do to the queue and the budget, with its events. -/
inductive Move (env : QueueEnv) (q : InMemoryRunQueue) (g : GlobalQueueBudget) :
    QueueOp → InMemoryRunQueue → GlobalQueueBudget → List Event → Prop
  | unchanged (op : QueueOp) : Move env q g op q g []
  | accepted
      (clientRequestId : String) (requestedRunId : Option String)
      (busyPolicy : BusyPolicy) (payload : Json)
      (generatedId acceptedAt : String)
      (request : ScheduledRunRequest) (g' : GlobalQueueBudget)
      (hfresh : q.Fresh env requestedRunId request)
      (hpayload : request.payload = payload)
      (hcheck : q.checkAccept env clientRequestId requestedRunId busyPolicy
        payload generatedId = .ok (.fresh request.runId))
      (hreserve : g.reserve request.payloadBytes = .ok g') :
      Move env q g
        (.accept clientRequestId requestedRunId busyPolicy payload generatedId
          acceptedAt)
        (q.enqueue request (satAdd q.queuedBytes request.payloadBytes))
        g'
        [.accepted requestedRunId request]
  | started
      (epoch : Nat) (request : ScheduledRunRequest)
      (rest : List ScheduledRunRequest)
      (hactive : q.active = none)
      (hqueued : q.queued = request :: rest) :
      Move env q g (.startNext epoch)
        { q with
          active := some (request, epoch)
          queued := rest
          queuedBytes := q.queuedBytes - request.payloadBytes }
        (g.release request.payloadBytes)
        [.started request]
  | folded
      (front : ScheduledRunRequest) (folded rest : List ScheduledRunRequest)
      (hqueued : q.queued = front :: (folded ++ rest)) :
      Move env q g .drainCoalescingAfterFirst
        (({ q with
            queued := front :: rest
            queuedBytes :=
              q.queuedBytes - bytesOf folded }).rememberAll
          folded "terminal" "merged")
        (g.releaseAll folded)
        (folded.map fun request =>
          .terminal (terminalAck request "terminal" "merged"))
  | superseded
      (clientRequestId : String) (requestedRunId : Option String)
      (payload : Json) (generatedId acceptedAt : String)
      (request : ScheduledRunRequest) (g' : GlobalQueueBudget)
      (hfresh : q.Fresh env requestedRunId request)
      (hpayload : request.payload = payload)
      (hcheck : q.checkSupersede env clientRequestId requestedRunId payload
        generatedId = .ok (.fresh request.runId))
      (hreplace : g.replaceQueued q.queued.length q.queuedBytes
        request.payloadBytes = .ok g') :
      Move env q g
        (.supersede clientRequestId requestedRunId payload generatedId
          acceptedAt)
        ((({ q with queued := [], queuedBytes := 0 }).rememberAll q.queued
          "cancelled" "superseded").enqueue request request.payloadBytes)
        g'
        ((q.queued.map fun request =>
            .terminal (terminalAck request "cancelled" "superseded")) ++
          [.accepted requestedRunId request])
  | finished
      (run : ScheduledRunRequest) (epoch : Nat)
      (hactive : q.active = some (run, epoch)) :
      Move env q g (.finishActive run.runId)
        (({ q with active := none }).rememberTerminal run "terminal" "settled")
        g
        [.terminal (terminalAck run "terminal" "settled")]
  | cancelled
      (runId : String) (reason : QueuedCancellationReason)
      (request : ScheduledRunRequest)
      (queued : List ScheduledRunRequest) (held : List HeldRun)
      (hperm : q.waiting.Perm
        (request :: (queued ++ held.map HeldRun.request)))
      (hqueued : queued.Sublist q.queued)
      (hheld : held.Sublist q.held) :
      Move env q g (.cancelQueued runId reason)
        (({ q with
            queued
            held
            queuedBytes :=
              q.queuedBytes - request.payloadBytes }).rememberTerminal request
          "cancelled" reason.asStr)
        (g.release request.payloadBytes)
        [.terminal (terminalAck request "cancelled" reason.asStr)]
  | cancelledAll
      (reason : QueuedCancellationReason)
      (cancelled : List ScheduledRunRequest)
      (hperm : cancelled.Perm q.waiting) :
      Move env q g (.cancelAllQueued reason)
        (({ q with queued := [], held := [], queuedBytes := 0 }).rememberAll
          cancelled "cancelled" reason.asStr)
        (g.releaseAll cancelled)
        (cancelled.map fun request =>
          .terminal (terminalAck request "cancelled" reason.asStr))
  | parked
      (boundary : QueueBoundary) (now : Int)
      (queued : List ScheduledRunRequest) (held : List HeldRun)
      (hperm : (queued ++ held.map HeldRun.request).Perm q.waiting)
      (hqueued : queued.Sublist q.queued)
      (hheld : held.Pairwise fun a b =>
        a.request.runSequence ≤ b.request.runSequence) :
      Move env q g (.parkStale boundary now) { q with queued, held } g []
  | released
      (runId acceptedAt : String) (run : HeldRun) (held : List HeldRun)
      (hperm : q.held.Perm (run :: held))
      (hheld : held.Sublist q.held) :
      Move env q g (.releaseHeld runId acceptedAt)
        { q with
          queued := insertBySequence { run.request with acceptedAt } q.queued
          held }
        g
        []
  | payloadReleased (runId : String) :
      Move env q g (.releaseActivePayload runId)
        (q.releaseActivePayload runId) g []

theorem checkRunId_ok
    {q : InMemoryRunQueue}
    {requestedRunId : Option String}
    {generatedId : String}
    {submission : Submission}
    (h : q.checkRunId requestedRunId generatedId = .ok submission) :
    ∃ runId, submission = .fresh runId ∧ runId ∉ q.runIds ∧
      q.nextSequence ≠ u64Max := by
  unfold checkRunId at h
  dsimp only at h
  split at h
  · simp at h
  · split at h
    · simp at h
    · split at h
      · simp at h
      · rename_i hunused hroom
        exact ⟨_, (Except.ok.inj h).symm, hunused, hroom⟩

theorem fresh_of_checkAccept
    {env : QueueEnv}
    {q : InMemoryRunQueue}
    {clientRequestId : String}
    {requestedRunId : Option String}
    {busyPolicy : BusyPolicy}
    {payload : Json}
    {generatedId runId : String}
    (h : q.checkAccept env clientRequestId requestedRunId busyPolicy payload
      generatedId = .ok (.fresh runId))
    (acceptedAt : String) :
    q.Fresh env requestedRunId
      (q.scheduled env clientRequestId requestedRunId busyPolicy payload runId
        acceptedAt) := by
  unfold checkAccept at h
  split at h
  · simp at h
  · rename_i hblank
    split at h
    · split at h <;> simp at h
    · rename_i hunknown
      dsimp only at h
      split_ifs at h
      obtain ⟨runId', heq, hunused, hroom⟩ := checkRunId_ok h
      obtain rfl : runId = runId' := Submission.fresh.inj heq
      exact ⟨eq_false_of_ne_true hblank, hunknown, hunused, rfl, hroom, rfl,
        rfl⟩

theorem fresh_of_checkSupersede
    {env : QueueEnv}
    {q : InMemoryRunQueue}
    {clientRequestId : String}
    {requestedRunId : Option String}
    {payload : Json}
    {generatedId runId : String}
    (h : q.checkSupersede env clientRequestId requestedRunId payload
      generatedId = .ok (.fresh runId))
    (acceptedAt : String) :
    q.Fresh env requestedRunId
      (q.scheduled env clientRequestId requestedRunId .supersedeSession payload
        runId acceptedAt) := by
  unfold checkSupersede at h
  split at h
  · simp at h
  · rename_i hblank
    split at h
    · split at h <;> simp at h
    · rename_i hunknown
      split_ifs at h
      obtain ⟨runId', heq, hunused, hroom⟩ := checkRunId_ok h
      obtain rfl : runId = runId' := Submission.fresh.inj heq
      exact ⟨eq_false_of_ne_true hblank, hunknown, hunused, rfl, hroom, rfl,
        rfl⟩

theorem existingAck_acceptedState
    (q : InMemoryRunQueue)
    (identity : RequestIdentity) :
    (q.existingAck identity).acceptedState = .existing := by
  unfold existingAck
  split <;> rfl

theorem appended_existing
    (q : InMemoryRunQueue)
    (requestedRunId : Option String)
    (identity : RequestIdentity)
    (after : InMemoryRunQueue) :
    appended requestedRunId (q.existingAck identity) after = [] := by
  simp [appended, existingAck_acceptedState]

theorem appended_enqueue
    (q : InMemoryRunQueue)
    (requestedRunId : Option String)
    (request : ScheduledRunRequest)
    (bytes position : Nat)
    (runId : String)
    (runSequence : Nat) :
    appended requestedRunId (RunAck.queued runId runSequence position)
      (q.enqueue request bytes) = [.accepted requestedRunId request] := by
  simp [appended, RunAck.queued, enqueue]

/-! Every call is a case of `step` and of `emit`. -/

attribute [local simp] step emit

theorem move_accept
    (env : QueueEnv)
    (q : InMemoryRunQueue)
    (g : GlobalQueueBudget)
    (clientRequestId : String)
    (requestedRunId : Option String)
    (busyPolicy : BusyPolicy)
    (payload : Json)
    (generatedId acceptedAt : String) :
    let op := QueueOp.accept clientRequestId requestedRunId busyPolicy payload
      generatedId acceptedAt
    Move env q g op (q.step env g op).1 (q.step env g op).2
      (q.emit env g op) := by
  intro op
  simp only [op, step, emit, accept]
  cases hcheck : q.checkAccept env clientRequestId requestedRunId busyPolicy
      payload generatedId with
  | error e =>
      exact .unchanged _
  | ok submission =>
      cases submission with
      | known identity =>
          simp only [appended_existing]
          exact .unchanged _
      | fresh runId =>
          cases hreserve : g.reserve payload.compactLen with
          | error e =>
              exact .unchanged _
          | ok g' =>
              simp only [appended_enqueue]
              exact .accepted clientRequestId requestedRunId busyPolicy payload
                generatedId acceptedAt _ g'
                (fresh_of_checkAccept hcheck acceptedAt) rfl hcheck hreserve

theorem move_supersede
    (env : QueueEnv)
    (q : InMemoryRunQueue)
    (g : GlobalQueueBudget)
    (clientRequestId : String)
    (requestedRunId : Option String)
    (payload : Json)
    (generatedId acceptedAt : String) :
    let op := QueueOp.supersede clientRequestId requestedRunId payload
      generatedId acceptedAt
    Move env q g op (q.step env g op).1 (q.step env g op).2
      (q.emit env g op) := by
  intro op
  simp only [op, step, emit, supersede]
  cases hcheck : q.checkSupersede env clientRequestId requestedRunId payload
      generatedId with
  | error e =>
      exact .unchanged _
  | ok submission =>
      cases submission with
      | known identity =>
          simp only [appended_existing]
          exact .unchanged _
      | fresh runId =>
          cases hreplace : g.replaceQueued q.queued.length q.queuedBytes
              payload.compactLen with
          | error e =>
              exact .unchanged _
          | ok g' =>
              simp only [appended_enqueue]
              have hframe := ({ q with queued := [], queuedBytes := 0 } :
                InMemoryRunQueue).rememberAll_frame q.queued "cancelled"
                  "superseded"
              have hsame : InMemoryRunQueue.scheduled env
                  (({ q with queued := [], queuedBytes := 0 }).rememberAll
                    q.queued "cancelled" "superseded") clientRequestId
                  requestedRunId .supersedeSession payload runId acceptedAt =
                  q.scheduled env clientRequestId requestedRunId
                    .supersedeSession payload runId acceptedAt := by
                simp only [scheduled, hframe.limits, hframe.nextSequence]
              rw [hsame]
              exact .superseded clientRequestId requestedRunId payload
                generatedId acceptedAt _ g'
                (fresh_of_checkSupersede hcheck acceptedAt) rfl hcheck hreplace

theorem move_startNext
    (env : QueueEnv)
    (q : InMemoryRunQueue)
    (g : GlobalQueueBudget)
    (epoch : Nat) :
    Move env q g (.startNext epoch) (q.step env g (.startNext epoch)).1
      (q.step env g (.startNext epoch)).2
      (q.emit env g (.startNext epoch)) := by
  simp only [step, emit, startNext]
  cases hactive : q.active with
  | some active =>
      exact .unchanged _
  | none =>
      cases hqueued : q.queued with
      | nil =>
          exact .unchanged _
      | cons request rest =>
          exact .started epoch request rest hactive hqueued

theorem foldl_sub_payloadBytes
    (bytes : Nat)
    (requests : List ScheduledRunRequest) :
    requests.foldl
        (fun bytes (request : ScheduledRunRequest) =>
          bytes - request.payloadBytes) bytes =
      bytes - bytesOf requests := by
  induction requests generalizing bytes with
  | nil =>
      rfl
  | cons request rest ih =>
      rw [List.foldl_cons, ih]
      simp only [bytesOf, List.map_cons, List.sum_cons]
      omega

theorem move_drain
    (env : QueueEnv)
    (q : InMemoryRunQueue)
    (g : GlobalQueueBudget) :
    Move env q g .drainCoalescingAfterFirst
      (q.step env g .drainCoalescingAfterFirst).1
      (q.step env g .drainCoalescingAfterFirst).2
      (q.emit env g .drainCoalescingAfterFirst) := by
  simp only [step, emit, drainCoalescingAfterFirst]
  cases hqueued : q.queued with
  | nil =>
      exact .unchanged _
  | cons front rest =>
      dsimp only
      split
      · exact .unchanged _
      · simp only [foldl_sub_payloadBytes]
        exact .folded front _ _ (by rw [hqueued, List.take_append_drop])

theorem perm_of_find?
    {α : Type}
    {p : α → Bool}
    {l : List α}
    {a : α}
    (h : l.find? p = some a) :
    l.Perm (a :: l.eraseP p) := by
  induction l with
  | nil =>
      simp at h
  | cons b rest ih =>
      by_cases hb : p b = true
      · rw [List.find?_cons_of_pos hb] at h
        obtain rfl := Option.some.inj h
        rw [List.eraseP_cons_of_pos hb]
      · rw [List.find?_cons_of_neg hb] at h
        rw [List.eraseP_cons_of_neg hb]
        exact ((ih h).cons b).trans (.swap _ _ _)

theorem move_cancelQueued
    (env : QueueEnv)
    (q : InMemoryRunQueue)
    (g : GlobalQueueBudget)
    (runId : String)
    (reason : QueuedCancellationReason) :
    Move env q g (.cancelQueued runId reason)
      (q.step env g (.cancelQueued runId reason)).1
      (q.step env g (.cancelQueued runId reason)).2
      (q.emit env g (.cancelQueued runId reason)) := by
  simp only [step, emit, cancelQueued]
  cases hheld : q.held.find? (·.request.runId = runId) with
  | some held =>
      refine .cancelled runId reason held.request q.queued _ ?_
        (List.Sublist.refl _) List.eraseP_sublist
      have hperm := ((perm_of_find? hheld).map HeldRun.request).append_left
        q.queued
      exact hperm.trans List.perm_middle
  | none =>
      cases hqueued : q.queued.find? (·.runId = runId) with
      | none =>
          exact .unchanged _
      | some request =>
          exact .cancelled runId reason request _ q.held
            ((perm_of_find? hqueued).append_right _) List.eraseP_sublist
            (List.Sublist.refl _)

/-- Parking splits the queue and loses nothing. -/
theorem perm_park
    (reason : ScheduledRunRequest → Option ParkReason)
    (queued : List ScheduledRunRequest) :
    (queued.filter (fun request => (reason request).isNone) ++
      (queued.filterMap fun request =>
        (reason request).map (HeldRun.mk request)).map HeldRun.request).Perm
      queued := by
  induction queued with
  | nil =>
      exact .nil
  | cons request rest ih =>
      cases hreason : reason request with
      | none =>
          rw [List.filter_cons_of_pos (by simp [hreason]),
            List.filterMap_cons_none (by simp [hreason])]
          exact ih.cons request
      | some why =>
          rw [List.filter_cons_of_neg (by simp [hreason]),
            List.filterMap_cons_some (b := ⟨request, why⟩) (by simp [hreason])]
          exact List.perm_middle.trans (ih.cons request)

theorem sortHeld_sorted (held : List HeldRun) :
    (sortHeld held).Pairwise fun a b =>
      a.request.runSequence ≤ b.request.runSequence :=
  have : Std.Total fun a b : HeldRun =>
      a.request.runSequence ≤ b.request.runSequence :=
    ⟨fun _ _ => Nat.le_total _ _⟩
  have : IsTrans HeldRun fun a b =>
      a.request.runSequence ≤ b.request.runSequence :=
    ⟨fun _ _ _ => Nat.le_trans⟩
  List.pairwise_insertionSort _ held

theorem move_parkStale
    (env : QueueEnv)
    (q : InMemoryRunQueue)
    (g : GlobalQueueBudget)
    (boundary : QueueBoundary)
    (now : Int) :
    Move env q g (.parkStale boundary now)
      (q.step env g (.parkStale boundary now)).1
      (q.step env g (.parkStale boundary now)).2
      (q.emit env g (.parkStale boundary now)) := by
  refine .parked boundary now _ _ ?_ List.filter_sublist ?_
  · have hsort := (List.perm_insertionSort
      (fun a b : HeldRun => a.request.runSequence ≤ b.request.runSequence)
      (q.held ++ q.queued.filterMap fun request =>
        (q.parkReason env boundary now request).map
          (HeldRun.mk request))).map HeldRun.request
    rw [List.map_append] at hsort
    have hpark := perm_park (q.parkReason env boundary now) q.queued
    -- kept ++ (held ++ parked) ~ (kept ++ parked) ++ held
    refine (hsort.append_left _).trans ?_
    refine (List.perm_append_comm.append_left _).trans ?_
    rw [← List.append_assoc]
    exact hpark.append_right _
  · exact sortHeld_sorted _

theorem insertBySequence_perm
    (request : ScheduledRunRequest)
    (queued : List ScheduledRunRequest) :
    (insertBySequence request queued).Perm (request :: queued) := by
  induction queued with
  | nil =>
      exact .refl _
  | cons head rest ih =>
      unfold insertBySequence
      split
      · exact .refl _
      · exact (ih.cons head).trans (.swap _ _ _)

/-- Every call moves the queue and the budget in one of these ways. -/
theorem move_step
    (env : QueueEnv)
    (q : InMemoryRunQueue)
    (g : GlobalQueueBudget)
    (op : QueueOp) :
    Move env q g op (q.step env g op).1 (q.step env g op).2
      (q.emit env g op) := by
  cases op with
  | accept => exact move_accept ..
  | startNext => exact move_startNext ..
  | drainCoalescingAfterFirst => exact move_drain ..
  | supersede => exact move_supersede ..
  | finishActive runId =>
      simp only [step, emit, finishActive]
      cases hactive : q.active with
      | none =>
          exact .unchanged _
      | some active =>
          obtain ⟨run, epoch⟩ := active
          dsimp only
          split
          · exact .unchanged _
          · rename_i hsame
            obtain rfl : run.runId = runId := not_not.1 hsame
            exact .finished run epoch hactive
  | cancelQueued => exact move_cancelQueued ..
  | cancelAllQueued reason =>
      exact .cancelledAll reason _ (List.perm_insertionSort _ _)
  | parkStale => exact move_parkStale ..
  | releaseHeld runId acceptedAt =>
      simp only [step, emit, releaseHeld]
      cases hheld : q.held.find? (·.request.runId = runId) with
      | none =>
          exact .unchanged _
      | some run =>
          exact .released runId acceptedAt run _ (perm_of_find? hheld)
            List.eraseP_sublist
  | releaseActivePayload runId => exact .payloadReleased runId

end InMemoryRunQueue

end Runtime
end FutureOs
