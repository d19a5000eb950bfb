import FutureOs.Host.RunLedger

/-!
# A row never asserts what the ledger denies

One run, its row, and every interleaving of the writers on the row with the
moves of the Agent.  A writer acts on an answer that was read earlier and was
true then; by the time it acts the Agent may have moved on, and other writers
may have moved the row.

`Agrees` is what should hold of every state.  It holds in a run exactly as long
as the sweep of the send queue settles no row by the acknowledgement of a run
that failed or was cancelled (`Unfolded`): the sweep reads every `terminal`
acknowledgement as that of a folded prompt, and the queue records the same state
for each run that ended in its live slot.
-/

namespace FutureOs
namespace Host

open FutureOs.Runtime

/-- The run, its row, what has been read so far, and whether a user stopped it. -/
structure World where
  ledger : Ledger
  row : RunRow
  read : List AgentReply
  aborted : Bool
deriving DecidableEq

/-- A writer of the row, with what it acts on. -/
inductive Writer
  | settleQueuedRuns (reply : AgentReply)
  | reconcileRunGone (reason : String) (reply : AgentReply)
  | reconcileActiveRunOnce (threadExists : Bool) (ageSecs : Nat)
      (reply : AgentReply) (again : Option AgentReply)
  | watchdogGaveUp (message : String)
  | reconcileSettledRunOnce (reply : AgentReply)
  | checkAndReanimateRun (reply : AgentReply)
deriving DecidableEq

namespace Writer

/-- The answers a writer acts on. -/
def replies : Writer → List AgentReply
  | settleQueuedRuns reply => [reply]
  | reconcileRunGone _ reply => [reply]
  | reconcileActiveRunOnce _ _ reply again => reply :: again.toList
  | watchdogGaveUp _ => []
  | reconcileSettledRunOnce reply => [reply]
  | checkAndReanimateRun reply => [reply]

def act (localRunId canonicalRunId : String) : Writer → RunRow → RunRow
  | settleQueuedRuns reply => Host.settleQueuedRuns localRunId reply
  | reconcileRunGone reason reply =>
      Host.reconcileRunGone canonicalRunId reason reply
  | reconcileActiveRunOnce threadExists ageSecs reply again =>
      Host.reconcileActiveRunOnce canonicalRunId threadExists ageSecs reply
        again
  | watchdogGaveUp message => settleOrphanedRun message
  | reconcileSettledRunOnce reply =>
      Host.reconcileSettledRunOnce canonicalRunId reply
  | checkAndReanimateRun reply => Host.checkAndReanimateRun localRunId reply

end Writer

/--
A step of the system: the Agent moves the run, the host reads an answer, a writer
acts on what was read, or the user stops the run.
-/
inductive HostOp
  | agent (move : AgentMove)
  | read (reply : AgentReply)
  | write (writer : Writer)
  | abortRun (threadExists : Bool) (outcome : AbortOutcome)
deriving DecidableEq

namespace World

/-- A new row and a run the Agent has not heard of. -/
def new (status : RunStatus) : World :=
  ⟨.unknown, ⟨status, none, none⟩, [], false⟩

/-- A reading is true when it is read, and a writer acts on a reading. -/
def step (localRunId canonicalRunId : String) (w : World) : HostOp → World
  | .agent move => { w with ledger := w.ledger.move move }
  | .read reply =>
      if reply.TrueOf localRunId canonicalRunId w.ledger then
        { w with read := reply :: w.read }
      else
        w
  | .write writer =>
      if ∀ reply ∈ writer.replies, reply ∈ w.read then
        { w with row := writer.act localRunId canonicalRunId w.row }
      else
        w
  | .abortRun threadExists outcome =>
      { w with
        row := abortRun threadExists outcome w.row
        aborted := w.aborted || abortMarks threadExists outcome w.row }

/-- The row asserts nothing the ledger denies. -/
structure Agrees (w : World) : Prop where
  completed : w.row.status = .completed →
    w.ledger = .ended .completed ∨ w.ledger = .ended .folded
  cancelled : w.row.status = .cancelled →
    w.row.errorType = some "interrupted" ∨ w.aborted = true ∨
      w.ledger = .ended .cancelled ∨
        ∃ reason, w.ledger = .ended (.dropped reason)
  aborted : w.aborted = true → w.row.status = .cancelled

/--
The sweep does not settle the row by a `terminal` acknowledgement of a run that
failed or was cancelled.
-/
def Unfolded (localRunId : String) (w : World) : HostOp → Prop
  | .write (.settleQueuedRuns (.state answer)) =>
      AgentReply.state answer ∈ w.read →
        w.ledger = .ended .failed ∨ w.ledger = .ended .cancelled →
          w.row.isActive = true → answer.live localRunId = false →
            (answer.ackOf localRunId).map TerminalRunAck.state ≠
              some "terminal"
  | _ => True

end World

/-! ## What a writer may do to a row -/

/-- No user has stopped this row. -/
def RunRow.Open (row : RunRow) : Prop :=
  ¬ (row.status = .cancelled ∧ row.errorType = some "abort_requested")

/-- The marker of an interruption stands on cancelled rows only. -/
def RunRow.MarksCancelled (row : RunRow) : Prop :=
  row.errorType = some "interrupted" → row.status = .cancelled

/-- Everything a writer that the ledger bears out does to a row. -/
inductive RowMove (l : Ledger) (row : RunRow) : RunRow → Prop
  | stay : RowMove l row row
  | interrupt
      (message : Option String)
      (hopen : row.Open) :
      RowMove l row ⟨.cancelled, message, some "interrupted"⟩
  | settle
      (row' : RunRow)
      (hopen : row.Open)
      (hmark : row'.errorType ≠ some "interrupted")
      (hcompleted : row'.status = .completed →
        l = .ended .completed ∨ l = .ended .folded)
      (hcancelled : row'.status = .cancelled →
        l = .ended .cancelled ∨ ∃ reason, l = .ended (.dropped reason)) :
      RowMove l row row'

section Moves

variable {l : Ledger}
variable {row : RunRow}

theorem open_of_active (h : row.isActive = true) : row.Open := by
  rintro ⟨hstatus, -⟩
  simp [RunRow.isActive, isTerminalRunStatus, hstatus] at h

theorem open_of_unverified (h : row.unverifiedTerminal = true) : row.Open := by
  rintro ⟨hstatus, htype⟩
  simp [RunRow.unverifiedTerminal, RunRow.isInterrupted, hstatus, htype] at h

/-- An active row carries no marker of an interruption. -/
theorem unmarked_of_active
    (hrow : row.MarksCancelled)
    (h : row.isActive = true) :
    row.errorType ≠ some "interrupted" := by
  intro htype
  simp [RunRow.isActive, isTerminalRunStatus, hrow htype] at h

/-- A guarded update settles an active row or leaves the row alone. -/
theorem update_move
    (hrow : row.MarksCancelled)
    (input : UpdateRunStatusInput)
    (hmark : input.errorType ≠ some "interrupted")
    (hcompleted : input.status = .completed → row.isActive = true →
      l = .ended .completed ∨ l = .ended .folded)
    (hcancelled : input.status = .cancelled → row.isActive = true →
      l = .ended .cancelled ∨ ∃ reason, l = .ended (.dropped reason)) :
    RowMove l row (row.updateRunStatusIfActive input).1 := by
  unfold RunRow.updateRunStatusIfActive
  split
  case isTrue hactive =>
    refine .settle _ (open_of_active hactive) ?_
      (fun h => hcompleted h hactive) (fun h => hcancelled h hactive)
    have hold := unmarked_of_active hrow hactive
    cases htype : input.errorType with
    | none => simpa using hold
    | some errorType => simpa [htype] using hmark
  case isFalse => exact .stay

theorem fail_move (message errorType : String)
    (hmark : errorType ≠ "interrupted") :
    RowMove l row (row.failRunIfActive message errorType).1 := by
  unfold RunRow.failRunIfActive
  split
  case isTrue hactive =>
    exact .settle _ (open_of_active hactive) (by simpa using hmark)
      (by simp) (by simp)
  case isFalse => exact .stay

theorem settleOrphanedRun_move (message : String) :
    RowMove l row (settleOrphanedRun message row) :=
  fail_move message _ (by decide)

theorem settleInterrupted_move : RowMove l row (settleInterrupted row) := by
  unfold settleInterrupted RunRow.updateRunStatusIfActive
  split
  case isTrue hactive => exact .interrupt _ (open_of_active hactive)
  case isFalse => exact .stay

/-- The row mirrors a marker the journal carries. -/
theorem settleFromAgentTerminal_move
    (hrow : row.MarksCancelled)
    {terminal : RequestedRun}
    (h : markerMatches terminal l = true) :
    RowMove l row (settleFromAgentTerminal (terminal.status.getD "")
      terminal.error row) := by
  have hstatus : ∀ {status : String}, status ≠ "" →
      terminal.status.getD "" = status → terminal.status = some status := by
    intro status hne hget
    cases hcase : terminal.status with
    | none => simp_all
    | some s => simp_all
  unfold settleFromAgentTerminal
  refine update_move hrow _ ?_ ?_ ?_
  · grind
  · intro hcompleted _
    have hget : terminal.status.getD "" = "completed" := by grind
    exact .inl (marker_completed h (hstatus (by decide) hget))
  · intro hcancelled _
    have hget : terminal.status.getD "" = "cancelled" := by grind
    exact marker_cancelled h (hstatus (by decide) hget)

theorem live_move (hopen : row.Open) : RowMove l row RunRow.live :=
  .settle _ hopen (by simp [RunRow.live]) (by simp [RunRow.live])
    (by simp [RunRow.live])

theorem settleUnverified_move
    {terminal : RequestedRun}
    (h : markerMatches terminal l = true)
    {agentState : String}
    (hstate : terminal.status = some agentState)
    (error : Option String) :
    RowMove l row (row.settleUnverifiedRunFromAgent agentState error).1 := by
  unfold RunRow.settleUnverifiedRunFromAgent
  cases hsettled : RunRow.agentTerminalSettlement agentState with
  | none => exact .stay
  | some settlement =>
      dsimp only
      split
      case isFalse => exact .stay
      case isTrue hunverified =>
        refine .settle _ (open_of_unverified hunverified)
          (RunRow.agentTerminalSettlement_terminal hsettled).2 ?_ ?_
        · intro hcompleted
          exact .inl (marker_completed h (hstate.trans (congrArg some
            (RunRow.agentTerminalSettlement_completed hsettled hcompleted))))
        · intro hcancelled
          exact marker_cancelled h (hstate.trans (congrArg some
            (RunRow.agentTerminalSettlement_cancelled hsettled hcancelled)))

/-- A marked row is cancelled, so the guard on the error type is enough. -/
theorem settleInterruptedRun_move
    {terminal : RequestedRun}
    (h : markerMatches terminal l = true)
    {agentState : String}
    (hstate : terminal.status = some agentState)
    (error : Option String) :
    RowMove l row (row.settleInterruptedRunFromAgent agentState error) := by
  unfold RunRow.settleInterruptedRunFromAgent
  cases hsettled : RunRow.agentTerminalSettlement agentState with
  | none => exact .stay
  | some settlement =>
      dsimp only
      split
      case isFalse => exact .stay
      case isTrue htype =>
        refine .settle _ (fun hstopped => by simp [htype] at hstopped)
          (RunRow.agentTerminalSettlement_terminal hsettled).2 ?_ ?_
        · intro hcompleted
          exact .inl (marker_completed h (hstate.trans (congrArg some
            (RunRow.agentTerminalSettlement_completed hsettled hcompleted))))
        · intro hcancelled
          exact marker_cancelled h (hstate.trans (congrArg some
            (RunRow.agentTerminalSettlement_cancelled hsettled hcancelled)))

end Moves

/-! ## What an earlier answer still proves -/

/-- The final parts of an answer: what it says of the run's outcome. -/
structure StateAnswer.Proves
    (localRunId : String)
    (l : Ledger)
    (answer : StateAnswer) : Prop where
  marker : ∀ terminal ∈ answer.requestedRun, markerMatches terminal l = true
  acks : ∀ ack ∈ answer.recentTerminalAcks, ack.runId = localRunId →
    ackMatches ack l = true

def AgentReply.Proves (localRunId : String) (l : Ledger) : AgentReply → Prop
  | .refused _ => True
  | .state answer => answer.Proves localRunId l

section Proves

variable {localRunId canonicalRunId : String}
variable {l : Ledger}
variable {row : RunRow}

theorem AgentReply.TrueOf.proves
    {reply : AgentReply}
    (h : reply.TrueOf localRunId canonicalRunId l) :
    reply.Proves localRunId l := by
  cases reply with
  | refused => trivial
  | state answer =>
      exact ⟨h.marker, fun ack hack hlocal => h.acks ack hack (.inr hlocal)⟩

theorem markerMatches_move
    {terminal : RequestedRun}
    (h : markerMatches terminal l = true)
    (m : AgentMove) :
    markerMatches terminal (l.move m) = true := by
  cases l with
  | ended outcome => rwa [Ledger.move_ended]
  | _ => simp [markerMatches] at h

theorem ackMatches_move
    {ack : TerminalRunAck}
    (h : ackMatches ack l = true)
    (m : AgentMove) :
    ackMatches ack (l.move m) = true := by
  cases l with
  | ended outcome => rwa [Ledger.move_ended]
  | _ => simp [ackMatches] at h

/-- An outcome is final, so what proved it once proves it from then on. -/
theorem AgentReply.Proves.move
    {reply : AgentReply}
    (h : reply.Proves localRunId l)
    (m : AgentMove) :
    reply.Proves localRunId (l.move m) := by
  cases reply with
  | refused => trivial
  | state answer =>
      exact ⟨fun terminal hmem => markerMatches_move (h.marker terminal hmem) m,
        fun ack hack hlocal => ackMatches_move (h.acks ack hack hlocal) m⟩

theorem reconcileRunGone_move
    (hrow : row.MarksCancelled)
    {reply : AgentReply}
    (h : reply.Proves localRunId l)
    (reason : String) :
    RowMove l row (reconcileRunGone canonicalRunId reason reply row) := by
  cases reply with
  | refused => exact .stay
  | state answer =>
      have hmarker := h.marker
      unfold reconcileRunGone
      dsimp only
      split
      · exact .stay
      · split
        · exact .stay
        · cases hrequested : answer.requestedRun with
          | some terminal =>
              exact settleFromAgentTerminal_move hrow (hmarker _ hrequested)
          | none =>
              dsimp only
              split
              · exact settleInterrupted_move
              · exact settleOrphanedRun_move _

theorem recoverFault_move
    (hrow : row.MarksCancelled)
    {reply : AgentReply}
    (h : reply.Proves localRunId l) :
    RowMove l row (recoverFault canonicalRunId reply row) := by
  cases reply with
  | refused => exact .stay
  | state answer =>
      have hmarker := h.marker
      unfold recoverFault
      dsimp only
      split
      · exact .stay
      · cases hrequested : answer.requestedRun with
        | none => exact .stay
        | some terminal =>
            exact settleFromAgentTerminal_move hrow (hmarker _ hrequested)

/-- The watchdog plans to mirror a marker only if the answer carries it. -/
theorem planActiveRun_settleTerminal
    {answer : StateAnswer}
    {ageSecs : Nat}
    {agentState : String}
    {error : Option String}
    (h : planActiveRunReconciliation answer canonicalRunId ageSecs =
      .settleTerminal agentState error) :
    ∃ terminal ∈ answer.requestedRun,
      agentState = terminal.status.getD "" ∧ error = terminal.error := by
  unfold planActiveRunReconciliation at h
  grind

theorem reconcileActiveRunOnce_move
    (hrow : row.MarksCancelled)
    (threadExists : Bool)
    (ageSecs : Nat)
    {reply : AgentReply}
    {again : Option AgentReply}
    (h : reply.Proves localRunId l)
    (hagain : ∀ reply ∈ again, reply.Proves localRunId l) :
    RowMove l row (reconcileActiveRunOnce canonicalRunId threadExists ageSecs
      reply again row) := by
  unfold reconcileActiveRunOnce
  split
  case isTrue => exact settleOrphanedRun_move _
  case isFalse =>
    cases reply with
    | refused sessionNotFound =>
        dsimp only
        split
        · exact .stay
        · exact settleOrphanedRun_move _
    | state answer =>
        dsimp only
        cases hplan : planActiveRunReconciliation answer canonicalRunId
            ageSecs with
        | skip => exact .stay
        | attach => exact .stay
        | recoverFault =>
            cases again with
            | none => exact .stay
            | some reply => exact recoverFault_move hrow (hagain reply rfl)
        | settleTerminal agentState error =>
            obtain ⟨terminal, hmem, rfl, rfl⟩ :=
              planActiveRun_settleTerminal hplan
            exact settleFromAgentTerminal_move hrow (h.marker terminal hmem)
        | settleInterrupted => exact settleInterrupted_move
        | settleOrphaned => exact settleOrphanedRun_move _

theorem planSettledRun_terminal
    {answer : StateAnswer}
    {state : String}
    {error : Option String}
    {durationMs : Option Int}
    (h : planSettledRunReconciliation answer canonicalRunId =
      .terminal state error durationMs) :
    ∃ terminal ∈ answer.requestedRun, state = terminal.status.getD "" := by
  unfold planSettledRunReconciliation at h
  grind

theorem reconcileSettledRunOnce_move
    {reply : AgentReply}
    (h : reply.Proves localRunId l) :
    RowMove l row (reconcileSettledRunOnce canonicalRunId reply row) := by
  cases reply with
  | refused => exact .stay
  | state answer =>
      unfold reconcileSettledRunOnce
      dsimp only
      cases hplan : planSettledRunReconciliation answer canonicalRunId with
      | alive =>
          dsimp only
          unfold RunRow.reviveUnverifiedRun
          split
          case isTrue hunverified =>
            exact live_move (open_of_unverified hunverified)
          case isFalse => exact .stay
      | consistent => exact .stay
      | terminal state error durationMs =>
          obtain ⟨terminal, hmem, rfl⟩ := planSettledRun_terminal hplan
          dsimp only
          split
          case isFalse => exact .stay
          case isTrue hstate =>
            refine settleUnverified_move (h.marker terminal hmem) ?_ _
            cases hstatus : terminal.status with
            | none => simp [hstatus] at hstate
            | some status => simp

theorem checkAndReanimateRun_move
    {reply : AgentReply}
    (h : reply.Proves localRunId l) :
    RowMove l row (checkAndReanimateRun localRunId reply row) := by
  cases reply with
  | refused => exact .stay
  | state answer =>
      have hmarker := h.marker
      unfold checkAndReanimateRun
      dsimp only
      split
      case isTrue =>
        unfold RunRow.reanimateRun
        split
        case isTrue hinterrupted =>
          exact live_move (open_of_unverified
            (by simp [RunRow.unverifiedTerminal, hinterrupted]))
        case isFalse => exact .stay
      case isFalse =>
        split
        · exact .stay
        · cases hrequested : answer.requestedRun with
          | none => exact .stay
          | some terminal =>
              dsimp only
              cases hstatus : terminal.status with
              | none => exact .stay
              | some state =>
                  exact settleInterruptedRun_move (hmarker _ hrequested)
                    hstatus _

/-- What the sweep settles an active row with, if it does. -/
theorem settleQueuedRuns_move
    (hrow : row.MarksCancelled)
    {reply : AgentReply}
    (h : reply.Proves localRunId l)
    (hfolded : ∀ answer, reply = .state answer →
      l = .ended .failed ∨ l = .ended .cancelled →
        row.isActive = true → answer.live localRunId = false →
          (answer.ackOf localRunId).map TerminalRunAck.state ≠
            some "terminal") :
    RowMove l row (settleQueuedRuns localRunId reply row) := by
  cases reply with
  | refused => exact .stay
  | state answer =>
      unfold settleQueuedRuns
      dsimp only
      cases hswept : sweptWith localRunId row answer with
      | none => exact .stay
      | some input =>
          unfold sweptWith at hswept
          split at hswept
          case isFalse => cases hswept
          case isTrue hguard =>
            obtain ⟨ack, hack, hinput⟩ := Option.bind_eq_some_iff.1 hswept
            have hmem := StateAnswer.mem_of_ackOf hack
            have hmatch := h.acks ack hmem.1 hmem.2
            have hfolded' := hfolded answer rfl
            rw [hack] at hfolded'
            unfold queueSettlement at hinput
            refine update_move hrow input ?_ ?_ ?_
            · grind
            · intro hcompleted hactive
              have hstate : ack.state = "terminal" := by grind
              rcases ack_terminal hmatch hstate with h | h | h | h
              · exact .inl h
              · exact absurd (congrArg some hstate)
                  (hfolded' (.inl h) hguard.1 hguard.2)
              · exact absurd (congrArg some hstate)
                  (hfolded' (.inr h) hguard.1 hguard.2)
              · exact .inr h
            · intro hcancelled hactive
              have hstate : ack.state = "cancelled" := by grind
              exact .inr (ack_cancelled hmatch hstate)

/-- The sweep settles a row as some ledger would bear out. -/
theorem settleQueuedRuns_shape
    (hrow : row.MarksCancelled)
    (reply : AgentReply) :
    ∃ l, RowMove l row (settleQueuedRuns localRunId reply row) := by
  cases reply with
  | refused => exact ⟨.unknown, .stay⟩
  | state answer =>
      unfold settleQueuedRuns
      dsimp only
      cases hswept : sweptWith localRunId row answer with
      | none => exact ⟨.unknown, .stay⟩
      | some input =>
          have hmark : input.errorType ≠ some "interrupted" := by
            unfold sweptWith at hswept
            split at hswept
            case isFalse => cases hswept
            case isTrue =>
              obtain ⟨ack, -, hinput⟩ := Option.bind_eq_some_iff.1 hswept
              unfold queueSettlement at hinput
              grind
          by_cases hcompleted : input.status = .completed
          · exact ⟨.ended .folded, update_move hrow input hmark
              (fun _ _ => .inr rfl) (by simp [hcompleted])⟩
          · exact ⟨.ended .cancelled, update_move hrow input hmark
              (fun h => absurd h hcompleted) (fun _ _ => .inl rfl)⟩

/-- An unearned acknowledgement makes the row completed. -/
theorem settleQueuedRuns_terminal
    {answer : StateAnswer}
    (hactive : row.isActive = true)
    (hlive : answer.live localRunId = false)
    (hack : (answer.ackOf localRunId).map TerminalRunAck.state =
      some "terminal") :
    (settleQueuedRuns localRunId (.state answer) row).status = .completed := by
  obtain ⟨ack, hack, hstate⟩ := Option.map_eq_some_iff.1 hack
  simp [settleQueuedRuns, sweptWith, hactive, hlive, hack, queueSettlement,
    hstate, RunRow.updateRunStatusIfActive]

/-- Every writer moves the row as the ledger bears out, the sweep if guarded. -/
theorem Writer.act_move
    (hrow : row.MarksCancelled)
    (writer : Writer)
    (h : ∀ reply ∈ writer.replies, reply.Proves localRunId l)
    (hfolded : ∀ answer, writer = .settleQueuedRuns (.state answer) →
      l = .ended .failed ∨ l = .ended .cancelled →
        row.isActive = true → answer.live localRunId = false →
          (answer.ackOf localRunId).map TerminalRunAck.state ≠
            some "terminal") :
    RowMove l row (writer.act localRunId canonicalRunId row) := by
  cases writer with
  | settleQueuedRuns reply =>
      exact settleQueuedRuns_move hrow (h reply (by simp [replies]))
        fun answer hreply => hfolded answer (hreply ▸ rfl)
  | reconcileRunGone reason reply =>
      exact reconcileRunGone_move hrow (h reply (by simp [replies])) reason
  | reconcileActiveRunOnce threadExists ageSecs reply again =>
      exact reconcileActiveRunOnce_move hrow threadExists ageSecs
        (h reply (by simp [replies]))
        fun reply hreply => h reply (by simp_all [replies])
  | watchdogGaveUp message => exact settleOrphanedRun_move message
  | reconcileSettledRunOnce reply =>
      exact reconcileSettledRunOnce_move (h reply (by simp [replies]))
  | checkAndReanimateRun reply =>
      exact checkAndReanimateRun_move (h reply (by simp [replies]))

/-- Every writer, guarded or not, moves the row as some ledger would. -/
theorem Writer.act_shape
    (hrow : row.MarksCancelled)
    (writer : Writer)
    (h : ∀ reply ∈ writer.replies, reply.Proves localRunId l) :
    ∃ l, RowMove l row (writer.act localRunId canonicalRunId row) := by
  by_cases hsweep : ∃ reply, writer = .settleQueuedRuns reply
  · obtain ⟨reply, rfl⟩ := hsweep
    exact settleQueuedRuns_shape hrow reply
  · exact ⟨l, writer.act_move hrow h fun answer heq =>
      absurd ⟨_, heq⟩ hsweep⟩

/-- A move keeps the marker on cancelled rows, and a stopped row as it is. -/
theorem RowMove.keeps
    {row' : RunRow}
    (hmove : RowMove l row row')
    (hrow : row.MarksCancelled) :
    row'.MarksCancelled ∧ (row.Open ∨ row' = row) := by
  cases hmove with
  | stay => exact ⟨hrow, .inr rfl⟩
  | interrupt message hopen => exact ⟨fun _ => rfl, .inl hopen⟩
  | settle row' hopen hmark =>
      exact ⟨fun h => absurd h hmark, .inl hopen⟩

end Proves

/-! ## Runs -/

namespace World

/-- What holds of every run, whatever the sweep does. -/
structure Sound (localRunId : String) (w : World) : Prop where
  marked : w.row.MarksCancelled
  stopped : w.aborted = true →
    w.row.status = .cancelled ∧ w.row.errorType = some "abort_requested"
  proved : ∀ reply ∈ w.read, reply.Proves localRunId w.ledger

section Runs

variable {localRunId canonicalRunId : String}

theorem sound_new (status : RunStatus) : (new status).Sound localRunId :=
  ⟨fun h => by simp [new] at h, fun h => by simp [new] at h, by simp [new]⟩

theorem agrees_new
    (status : RunStatus)
    (h : isTerminalRunStatus status = false) :
    (new status).Agrees := by
  cases status <;> simp [isTerminalRunStatus] at h <;>
    exact ⟨by simp [new], by simp [new], by simp [new]⟩

theorem abortRun_eq
    (threadExists : Bool)
    (outcome : AbortOutcome)
    (row : RunRow) :
    abortRun threadExists outcome row =
      if abortMarks threadExists outcome row then
        ⟨.cancelled, some "Terminated by user.", some "abort_requested"⟩
      else
        row := by
  unfold abortRun abortMarks RunRow.updateRunStatusIfActive
  grind

theorem sound_step
    (w : World)
    (op : HostOp)
    (h : w.Sound localRunId) :
    (w.step localRunId canonicalRunId op).Sound localRunId := by
  cases op with
  | agent move =>
      exact ⟨h.marked, h.stopped,
        fun reply hread => (h.proved reply hread).move move⟩
  | read reply =>
      unfold step
      dsimp only
      split
      case isFalse => exact h
      case isTrue htrue =>
        refine ⟨h.marked, h.stopped, fun reply' hread => ?_⟩
        rcases List.mem_cons.1 hread with rfl | hread
        · exact htrue.proves
        · exact h.proved reply' hread
  | write writer =>
      unfold step
      dsimp only
      split
      case isFalse => exact h
      case isTrue hread =>
        obtain ⟨l, hmove⟩ := writer.act_shape h.marked fun reply hreply =>
          h.proved reply (hread reply hreply)
        have hkeeps := hmove.keeps h.marked
        refine ⟨hkeeps.1, fun haborted => ?_, h.proved⟩
        have hstopped := h.stopped haborted
        rcases hkeeps.2 with hopen | heq
        · exact absurd hstopped hopen
        · simpa only [heq] using hstopped
  | abortRun threadExists outcome =>
      unfold step
      dsimp only
      rw [abortRun_eq]
      split
      case isTrue hmarks =>
        exact ⟨fun _ => rfl, fun _ => ⟨rfl, rfl⟩, h.proved⟩
      case isFalse hmarks =>
        refine ⟨h.marked, fun haborted => h.stopped ?_, h.proved⟩
        simpa [hmarks] using haborted

theorem agrees_move
    {w : World}
    (h : w.Agrees)
    (hstopped : w.aborted = true →
      w.row.status = .cancelled ∧ w.row.errorType = some "abort_requested")
    {row : RunRow}
    (hmove : RowMove w.ledger w.row row) :
    ({ w with row } : World).Agrees := by
  cases hmove with
  | stay => exact h
  | interrupt message hopen =>
      exact ⟨nofun, fun _ => .inl rfl,
        fun haborted => absurd (hstopped haborted) hopen⟩
  | settle row hopen hmark hcompleted hcancelled =>
      exact ⟨hcompleted, fun hstatus => .inr (.inr (hcancelled hstatus)),
        fun haborted => absurd (hstopped haborted) hopen⟩

theorem agrees_agent
    {w : World}
    (h : w.Agrees)
    (move : AgentMove) :
    ({ w with ledger := w.ledger.move move } : World).Agrees := by
  refine ⟨fun hstatus => ?_, fun hstatus => ?_, h.aborted⟩
  · rcases h.completed hstatus with hl | hl
    · exact .inl (by simp only [hl, Ledger.move_ended])
    · exact .inr (by simp only [hl, Ledger.move_ended])
  · rcases h.cancelled hstatus with hmark | haborted | hl | ⟨reason, hl⟩
    · exact .inl hmark
    · exact .inr (.inl haborted)
    · exact .inr (.inr (.inl (by simp only [hl, Ledger.move_ended])))
    · exact .inr (.inr (.inr ⟨reason, by simp only [hl, Ledger.move_ended]⟩))

/-- A step keeps the agreement exactly if its sweep is not misled. -/
theorem agrees_step
    (w : World)
    (op : HostOp)
    (hsound : w.Sound localRunId)
    (h : w.Agrees) :
    (w.step localRunId canonicalRunId op).Agrees ↔
      w.Unfolded localRunId op := by
  cases op with
  | agent move => exact iff_of_true (agrees_agent h move) trivial
  | read reply =>
      refine iff_of_true ?_ trivial
      unfold step
      dsimp only
      split
      case isTrue => exact ⟨h.completed, h.cancelled, h.aborted⟩
      case isFalse => exact h
  | abortRun threadExists outcome =>
      refine iff_of_true ?_ trivial
      unfold step
      dsimp only
      rw [abortRun_eq]
      split
      case isTrue hmarks =>
        exact ⟨nofun,
          fun _ => .inr (.inl (by simp [hmarks])), fun _ => rfl⟩
      case isFalse hmarks =>
        have hfalse : abortMarks threadExists outcome w.row = false := by
          simpa using hmarks
        simpa [hfalse] using h
  | write writer =>
      unfold step
      dsimp only
      split
      case isFalse hread =>
        refine iff_of_true h ?_
        unfold Unfolded
        split
        case h_1 answer heq =>
          cases heq
          exact fun hmem => absurd (by simpa [Writer.replies] using hmem) hread
        case h_2 => trivial
      case isTrue hread =>
        constructor
        · intro hagrees
          unfold Unfolded
          split
          case h_2 => trivial
          case h_1 answer heq =>
            cases heq
            intro _ hended hactive hlive hack
            have hcompleted := hagrees.completed
              (settleQueuedRuns_terminal hactive hlive hack)
            rcases hended with hl | hl <;> simp [hl] at hcompleted
        · intro hunfolded
          refine agrees_move h hsound.stopped (writer.act_move hsound.marked
            (fun reply hreply => hsound.proved reply (hread reply hreply)) ?_)
          rintro answer rfl
          exact hunfolded (hread _ (by simp [Writer.replies]))

/--
In every run from a new row, the row agrees with the ledger in every state
exactly if no step of the run is a misled sweep.
-/
theorem row_agrees_iff
    (localRunId canonicalRunId : String)
    (status : RunStatus)
    (hnew : isTerminalRunStatus status = false)
    (ops : List HostOp) :
    (∀ k, (Machine.run (step localRunId canonicalRunId) (new status)
        (ops.take k)).Agrees) ↔
      Machine.Guarded (step localRunId canonicalRunId)
        (Unfolded localRunId) (new status) ops := by
  have hsound : ∀ ops, (Machine.run (step localRunId canonicalRunId)
      (new status) ops).Sound localRunId :=
    Machine.run_invariant sound_step (sound_new status)
  rw [← Machine.forall_run_iff_guarded
    (P := fun w => w.Sound localRunId ∧ w.Agrees) ?_
    ⟨sound_new status, agrees_new status hnew⟩]
  · exact forall_congr' fun k => (and_iff_right (hsound _)).symm
  · rintro w op ⟨hs, ha⟩
    rw [and_iff_right (sound_step w op hs)]
    exact agrees_step w op hs ha

/-- What the Agent answers once the run has left its live slot. -/
def endedAnswer (outcome : Outcome) : StateAnswer where
  isStreaming := false
  activeRun := none
  queuedRuns := []
  recentTerminalAcks :=
    [⟨"run-1", 1, "request-1", outcome.ack.1, outcome.ack.2⟩]
  requestedRun := none
  interruptedRun := none

/-- A run starts, ends with this outcome, and the sweep reads its answer. -/
def sweepAfter (outcome : Outcome) : List HostOp :=
  [.agent .accept, .agent .start, .agent (.finish outcome),
    .read (.state (endedAnswer outcome)),
    .write (.settleQueuedRuns (.state (endedAnswer outcome)))]

theorem row_agrees_completed :
    isTerminalRunStatus .running = false ∧
      ∀ k, (Machine.run (step "run-1" "run-1") (new .running)
        ((sweepAfter .completed).take k)).Agrees :=
  ⟨rfl, (row_agrees_iff "run-1" "run-1" .running rfl _).2
    ⟨trivial, trivial, trivial, trivial,
      fun _ hended => hended.elim nofun nofun, trivial⟩⟩

/-- The sweep completes the row of a run that failed. -/
theorem failed_run_completed :
    ¬ ∀ localRunId canonicalRunId status,
      isTerminalRunStatus status = false → ∀ ops,
        (Machine.run (step localRunId canonicalRunId) (new status)
          ops).Agrees := by
  intro h
  have hagrees := h "run-1" "run-1" .running rfl (sweepAfter .failed)
  have hcompleted := hagrees.completed (by decide)
  revert hcompleted
  decide

end Runs

end World

end Host
end FutureOs
