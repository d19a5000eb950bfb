import FutureOs.Host.RunRow
import FutureOs.Runtime.RunQueue

/-!
# Reading the Agent's state for one run row

`host/src/agent_bridge/reconciliation.rs`: what each writer does to the row of a
run when it acts on an answer of the Agent's `get_state`.  The writers read the
same answer in different orders:

* `settleQueuedRuns` reads the live markers and the terminal acknowledgements;
* `reconcileRunGone` and the watchdog's `reconcileActiveRunOnce` read the live
  markers, then the journal's terminal marker, then the interrupted marker;
* the settled-run repair and the startup reanimation correct rows that the host
  settled without evidence.

An answer here has the fields these writers read, already decoded.  A local row
has an id of its own; the Agent knows the run under the canonical id.  Logging,
the observer and the notifications of the window change no row and are left out,
and an Agent that cannot be reached leaves every row alone.
-/

namespace FutureOs
namespace Host

open FutureOs.Runtime (TerminalRunAck)

structure ActiveRunState where
  runId : String
  state : String
deriving DecidableEq

/-- The journal's terminal marker of the requested run. -/
structure RequestedRun where
  status : Option String
  error : Option String
  durationMs : Option Int
deriving DecidableEq

structure StateAnswer where
  isStreaming : Bool
  activeRun : Option ActiveRunState
  queuedRuns : List String
  recentTerminalAcks : List TerminalRunAck
  requestedRun : Option RequestedRun
  interruptedRun : Option String
deriving DecidableEq

/-- A refusal says whether the Agent has no such session. -/
inductive AgentReply
  | refused (sessionNotFound : Bool)
  | state (answer : StateAnswer)
deriving DecidableEq

namespace StateAnswer

def activeRunId (a : StateAnswer) : Option String :=
  a.activeRun.map ActiveRunState.runId

/-- What the Agent still owns: the run in flight and those behind it. -/
def live (a : StateAnswer) (runId : String) : Bool :=
  a.activeRunId = some runId ∨ runId ∈ a.queuedRuns

/-- The acknowledgement of a run; a later one replaces an earlier one. -/
def ackOf (a : StateAnswer) (runId : String) : Option TerminalRunAck :=
  a.recentTerminalAcks.reverse.find? (·.runId = runId)

theorem mem_of_ackOf
    {a : StateAnswer}
    {runId : String}
    {ack : TerminalRunAck}
    (h : a.ackOf runId = some ack) :
    ack ∈ a.recentTerminalAcks ∧ ack.runId = runId := by
  refine ⟨List.mem_reverse.1 (List.mem_of_find?_eq_some h), ?_⟩
  simpa using List.find?_some h

end StateAnswer

/-! ## The sweep of the send queue -/

/-- The status, message and error type an acknowledgement settles a row with. -/
def queueSettlement (ack : TerminalRunAck) : Option UpdateRunStatusInput :=
  if ack.state = "terminal" then
    some ⟨.completed, some "Folded into the preceding run.",
      some "queue_merged"⟩
  else if ack.state = "cancelled" then
    some ⟨.cancelled,
      some (if ack.reason = "" then
        "Removed from the send queue."
      else
        "Removed from the send queue (" ++ ack.reason ++ ")."),
      some "queue_cancelled"⟩
  else if ack.state = "failed" then
    some ⟨.failed,
      some (if ack.reason = "" then
        "Future Agent could not queue this message."
      else
        "Future Agent could not queue this message (" ++ ack.reason ++ ")."),
      some "queue_failed"⟩
  else
    none

/-- What the sweep settles the row with, if it settles it at all. -/
def sweptWith (runId : String) (row : RunRow) (answer : StateAnswer) :
    Option UpdateRunStatusInput :=
  if row.isActive ∧ answer.live runId = false then
    (answer.ackOf runId).bind queueSettlement
  else
    none

def settleQueuedRuns (runId : String) (reply : AgentReply) (row : RunRow) :
    RunRow :=
  match reply with
  | .refused _ => row
  | .state answer =>
      match sweptWith runId row answer with
      | none => row
      | some input => (row.updateRunStatusIfActive input).1

/-! ## The writers of live rows -/

def settleFromAgentTerminal
    (agentState : String)
    (error : Option String)
    (row : RunRow) : RunRow :=
  let settlement : Settlement :=
    if agentState = "completed" then
      ⟨.completed, none, none⟩
    else if agentState = "cancelled" then
      ⟨.cancelled, some "cancelled", some "Run was cancelled."⟩
    else if agentState = "error" ∨ agentState = "failed" then
      ⟨.failed, some "agent_error", some "Future Agent run failed."⟩
    else
      ⟨.failed, some "stream_interrupted",
        some "Future Agent response ended before a clean terminal."⟩
  (row.updateRunStatusIfActive
    { status := settlement.status
      errorMessage := error <|> settlement.defaultMessage
      errorType := settlement.errorType }).1

def settleInterrupted (row : RunRow) : RunRow :=
  (row.updateRunStatusIfActive
    { status := .cancelled
      errorMessage := some "Interrupted because Future Agent restarted."
      errorType := some "interrupted" }).1

def settleOrphanedRun (message : String) (row : RunRow) : RunRow :=
  (row.failRunIfActive message "stream_interrupted").1

def reconcileRunGone
    (canonicalRunId reason : String)
    (reply : AgentReply)
    (row : RunRow) : RunRow :=
  match reply with
  | .refused _ => row
  | .state answer =>
      if canonicalRunId ∈ answer.queuedRuns then
        row
      else if answer.activeRunId = some canonicalRunId then
        row
      else
        match answer.requestedRun with
        | some terminal =>
            settleFromAgentTerminal (terminal.status.getD "") terminal.error row
        | none =>
            if answer.interruptedRun = some canonicalRunId then
              settleInterrupted row
            else
              settleOrphanedRun
                ("Future Agent run no longer active: " ++ reason) row

/-! ## The watchdog's pass over live rows -/

def watchdogOrphanSecs : Nat := 600

inductive ActiveRunAction
  | attach
  | recoverFault
  | settleTerminal (agentState : String) (error : Option String)
  | settleInterrupted
  | settleOrphaned
  | skip
deriving DecidableEq

def planActiveRunReconciliation
    (answer : StateAnswer)
    (canonicalRunId : String)
    (ageSecs : Nat) : ActiveRunAction :=
  if answer.isStreaming ∧ answer.activeRunId = some canonicalRunId then
    match answer.activeRun.map ActiveRunState.state with
    | some "cancellation_stuck" => .recoverFault
    | some "persistence_degraded" => .recoverFault
    | _ => .attach
  else if canonicalRunId ∈ answer.queuedRuns then
    .skip
  else
    match answer.requestedRun with
    | some terminal =>
        .settleTerminal (terminal.status.getD "") terminal.error
    | none =>
        if answer.interruptedRun = some canonicalRunId then
          .settleInterrupted
        else if watchdogOrphanSecs ≤ ageSecs then
          .settleOrphaned
        else
          .skip

/-- After an abort of a stuck run, the row mirrors the terminal marker. -/
def recoverFault
    (canonicalRunId : String)
    (reply : AgentReply)
    (row : RunRow) : RunRow :=
  match reply with
  | .refused _ => row
  | .state answer =>
      if answer.activeRunId = some canonicalRunId then
        row
      else
        match answer.requestedRun with
        | none => row
        | some terminal =>
            settleFromAgentTerminal (terminal.status.getD "") terminal.error row

/--
One row of the watchdog's pass.  `again` is the answer read after the abort of a
stuck run, if the Agent accepted that abort.
-/
def reconcileActiveRunOnce
    (canonicalRunId : String)
    (threadExists : Bool)
    (ageSecs : Nat)
    (reply : AgentReply)
    (again : Option AgentReply)
    (row : RunRow) : RunRow :=
  if threadExists = false then
    settleOrphanedRun "The conversation for this run no longer exists." row
  else
    match reply with
    | .refused sessionNotFound =>
        if sessionNotFound = false ∨ ageSecs < watchdogOrphanSecs then
          row
        else
          settleOrphanedRun
            "The session for this run does not exist on Future Agent." row
    | .state answer =>
        match planActiveRunReconciliation answer canonicalRunId ageSecs with
        | .skip => row
        | .attach => row
        | .recoverFault =>
            match again with
            | none => row
            | some reply => recoverFault canonicalRunId reply row
        | .settleTerminal agentState error =>
            settleFromAgentTerminal agentState error row
        | .settleInterrupted => Host.settleInterrupted row
        | .settleOrphaned =>
            settleOrphanedRun
              "Future Agent run is no longer active on the agent." row

/-! ## The repairs of settled rows -/

inductive SettledRunLedger
  | alive
  | terminal (state : String) (error : Option String)
      (durationMs : Option Int)
  | consistent
deriving DecidableEq

def planSettledRunReconciliation
    (answer : StateAnswer)
    (canonicalRunId : String) : SettledRunLedger :=
  if answer.live canonicalRunId then
    .alive
  else
    match answer.requestedRun with
    | some terminal =>
        .terminal (terminal.status.getD "") terminal.error terminal.durationMs
    | none => .consistent

def reconcileSettledRunOnce
    (canonicalRunId : String)
    (reply : AgentReply)
    (row : RunRow) : RunRow :=
  match reply with
  | .refused _ => row
  | .state answer =>
      match planSettledRunReconciliation answer canonicalRunId with
      | .alive => row.reviveUnverifiedRun.1
      | .terminal state _ _ =>
          if state = "completed" then
            (row.settleUnverifiedRunFromAgent state none).1
          else
            row
      | .consistent => row

/-- A marker without a status is an error of this reader: no write. -/
def checkAndReanimateRun
    (runId : String)
    (reply : AgentReply)
    (row : RunRow) : RunRow :=
  match reply with
  | .refused _ => row
  | .state answer =>
      if answer.isStreaming ∧ answer.activeRunId = some runId then
        row.reanimateRun.1
      else if answer.interruptedRun = some runId then
        row
      else
        match answer.requestedRun with
        | none => row
        | some terminal =>
            match terminal.status with
            | none => row
            | some state =>
                row.settleInterruptedRunFromAgent state terminal.error

/-! ## The user's stop -/

/-- How the Agent took the abort the user's stop sends it. -/
inductive AbortOutcome
  | delivered
  | unavailable
  | refused
deriving DecidableEq

/-- Whether the row is marked; a refusal by a live Agent stops before that. -/
def abortMarks (threadExists : Bool) (outcome : AbortOutcome) (row : RunRow) :
    Bool :=
  row.isActive ∧ (threadExists = false ∨ outcome ≠ .refused)

def abortRun (threadExists : Bool) (outcome : AbortOutcome) (row : RunRow) :
    RunRow :=
  if threadExists ∧ outcome = .refused then
    row
  else
    (row.updateRunStatusIfActive
      { status := .cancelled
        errorMessage := some "Terminated by user."
        errorType := some "abort_requested" }).1

end Host
end FutureOs
