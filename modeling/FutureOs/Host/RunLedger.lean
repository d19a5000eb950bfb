import FutureOs.Host.Reconciliation
import FutureOs.Runtime.QueueLifecycle

/-!
# What the Agent's ledger says of one run

The Agent takes a run through its queue and its one live slot to exactly one
outcome.  Two records of the outcome reach the host: the queue's terminal
acknowledgement (`agent/src/runtime/scheduler_queue.rs`) and the journal's
`run_terminal` marker as `run_terminal` of `packages/rpc/src/message.rs` reports
it.  An answer is true of a ledger if what it says about the run is so.  It may
say less: acknowledgements are bounded, and a journal that cannot be read yields
no marker.

`acks_are_outcomes` connects the two: along every run of the queue's calls, the
acknowledgements it keeps are those `Outcome.ack` names.
-/

namespace FutureOs
namespace Host

open FutureOs.Runtime

/-- How a run ends on the Agent. -/
inductive Outcome
  | completed
  | failed
  | cancelled
  | folded
  | dropped (reason : QueuedCancellationReason)
deriving DecidableEq

namespace Outcome

/-- State and reason of the acknowledgement the queue records. -/
def ack : Outcome → String × String
  | completed | failed | cancelled => ("terminal", "settled")
  | folded => ("terminal", "merged")
  | dropped reason => ("cancelled", reason.asStr)

/-- The states a journal marker of the run may carry. -/
def journalStates : Outcome → List String
  | completed => ["completed"]
  | failed => ["error", "incomplete", "interrupted_by_restart"]
  | cancelled => ["cancelled"]
  | folded => ["interrupted_by_restart"]
  | dropped _ => ["cancelled"]

end Outcome

/-- The status `run_terminal` reports for a journal state. -/
def terminalStatus : Option String → String
  | some "error" => "failed"
  | some "incomplete" => "interrupted"
  | some "interrupted_by_restart" => "interrupted"
  | some state => state
  | none => "unknown"

/--
Where the Agent has the run.  `interrupted` is a run that began and that a
restart cut off before it was committed.
-/
inductive Ledger
  | unknown
  | queued
  | active
  | interrupted
  | ended (outcome : Outcome)
deriving DecidableEq

/-- What the Agent does with the run. -/
inductive AgentMove
  | accept
  | start
  | finish (outcome : Outcome)
  | restart
  | resume
deriving DecidableEq

namespace Ledger

/--
The outcomes a run may reach from where it is.  A queued run ends without having
run: folded, taken back, or preserved as failed by a restart.  An interrupted run
may still be stopped or given up.
-/
def mayEnd : Ledger → Outcome → Bool
  | queued, .folded | queued, .dropped _ | queued, .failed => true
  | active, .completed | active, .failed | active, .cancelled => true
  | interrupted, .cancelled | interrupted, .failed => true
  | _, _ => false

def move (l : Ledger) : AgentMove → Ledger
  | .accept => if l = unknown then queued else l
  | .start => if l = unknown ∨ l = queued then active else l
  | .finish outcome => if l.mayEnd outcome then ended outcome else l
  | .restart => if l = active then interrupted else l
  | .resume => if l = interrupted then active else l

/-- An outcome is final. -/
theorem move_ended (outcome : Outcome) (m : AgentMove) :
    (ended outcome).move m = ended outcome := by
  cases m <;> simp [move, mayEnd]

/-- The Agent owns the run, so an outcome is not yet decided. -/
def owns : Ledger → Bool
  | queued | active => true
  | _ => false

end Ledger

/-! ## Answers that are true when they are read -/

/-- An acknowledgement that the outcome's own drain recorded. -/
def ackMatches (ack : TerminalRunAck) : Ledger → Bool
  | .ended outcome => (ack.state, ack.reason) = outcome.ack
  | _ => false

/-- A marker the journal carries for the outcome. -/
def markerMatches (terminal : RequestedRun) : Ledger → Bool
  | .ended outcome =>
      outcome.journalStates.any fun state =>
        terminal.status = some (terminalStatus (some state))
  | _ => false

/--
What the answer says about the run is so.  A run that has just ended may still
be shown as the one in flight, since its slot is released after its marker.
-/
structure StateAnswer.TrueOf
    (localRunId canonicalRunId : String)
    (l : Ledger)
    (answer : StateAnswer) : Prop where
  active : answer.activeRunId = some canonicalRunId →
    l ≠ .unknown ∧ l ≠ .queued ∧ l ≠ .interrupted
  queued : canonicalRunId ∈ answer.queuedRuns → l = .queued
  interrupted : answer.interruptedRun = some canonicalRunId → l = .interrupted
  marker : ∀ terminal ∈ answer.requestedRun, markerMatches terminal l = true
  acks : ∀ ack ∈ answer.recentTerminalAcks,
    ack.runId = canonicalRunId ∨ ack.runId = localRunId →
      ackMatches ack l = true

/-- A refusal says nothing about the run. -/
def AgentReply.TrueOf
    (localRunId canonicalRunId : String)
    (l : Ledger) : AgentReply → Prop
  | .refused _ => True
  | .state answer => answer.TrueOf localRunId canonicalRunId l

section Truth

variable {localRunId canonicalRunId : String}
variable {l : Ledger}
variable {answer : StateAnswer}

instance : Decidable (answer.TrueOf localRunId canonicalRunId l) :=
  decidable_of_iff
    ((answer.activeRunId = some canonicalRunId →
        l ≠ .unknown ∧ l ≠ .queued ∧ l ≠ .interrupted) ∧
      (canonicalRunId ∈ answer.queuedRuns → l = .queued) ∧
      (answer.interruptedRun = some canonicalRunId → l = .interrupted) ∧
      (∀ terminal ∈ answer.requestedRun,
        markerMatches terminal l = true) ∧
      ∀ ack ∈ answer.recentTerminalAcks,
        ack.runId = canonicalRunId ∨ ack.runId = localRunId →
          ackMatches ack l = true)
    ⟨fun h => ⟨h.1, h.2.1, h.2.2.1, h.2.2.2.1, h.2.2.2.2⟩,
      fun h => ⟨h.active, h.queued, h.interrupted, h.marker, h.acks⟩⟩

instance : ∀ reply : AgentReply,
    Decidable (reply.TrueOf localRunId canonicalRunId l)
  | .refused _ => isTrue trivial
  | .state answer =>
      inferInstanceAs (Decidable (answer.TrueOf localRunId canonicalRunId l))

/-- The journal calls a run completed only if it was. -/
theorem marker_completed
    {terminal : RequestedRun}
    (h : markerMatches terminal l = true)
    (hstatus : terminal.status = some "completed") :
    l = .ended .completed := by
  cases l with
  | ended outcome =>
      cases outcome <;>
        simp_all [markerMatches, Outcome.journalStates, terminalStatus]
  | _ => simp [markerMatches] at h

/-- The journal calls a run cancelled only if it was, or never ran. -/
theorem marker_cancelled
    {terminal : RequestedRun}
    (h : markerMatches terminal l = true)
    (hstatus : terminal.status = some "cancelled") :
    l = .ended .cancelled ∨ ∃ reason, l = .ended (.dropped reason) := by
  cases l with
  | ended outcome =>
      cases outcome <;>
        simp_all [markerMatches, Outcome.journalStates, terminalStatus]
  | _ => simp [markerMatches] at h

/-- The queue acknowledges a cancellation only for a dropped prompt. -/
theorem ack_cancelled
    {ack : TerminalRunAck}
    (h : ackMatches ack l = true)
    (hstate : ack.state = "cancelled") :
    ∃ reason, l = .ended (.dropped reason) := by
  cases l with
  | ended outcome =>
      cases outcome <;> simp_all [ackMatches, Outcome.ack]
  | _ => simp [ackMatches] at h

/-- A terminal acknowledgement is that of a run that ended or was folded. -/
theorem ack_terminal
    {ack : TerminalRunAck}
    (h : ackMatches ack l = true)
    (hstate : ack.state = "terminal") :
    l = .ended .completed ∨ l = .ended .failed ∨ l = .ended .cancelled ∨
      l = .ended .folded := by
  cases l with
  | ended outcome =>
      cases outcome <;> simp_all [ackMatches, Outcome.ack]
  | _ => simp [ackMatches] at h

end Truth

/-! ## The queue's acknowledgements -/

section Acknowledgements

open InMemoryRunQueue

variable {env : QueueEnv}

/-- Every acknowledgement a call answers with is that of an outcome. -/
theorem move_ack
    {q q' : InMemoryRunQueue}
    {g g' : GlobalQueueBudget}
    {op : QueueOp}
    {events : List Event}
    (hmove : Move env q g op q' g' events)
    {ack : TerminalRunAck}
    (hack : ack ∈ terminals events) :
    ∃ outcome : Outcome, (ack.state, ack.reason) = outcome.ack := by
  cases hmove with
  | folded front folded rest hqueued =>
      rw [terminals_terminals] at hack
      obtain ⟨request, -, rfl⟩ := List.mem_map.1 hack
      exact ⟨.folded, rfl⟩
  | superseded =>
      rw [terminals_append, terminals_terminals, List.mem_append] at hack
      obtain ⟨request, -, rfl⟩ := List.mem_map.1
        (hack.resolve_right (by simp [terminals]))
      exact ⟨.dropped .superseded, rfl⟩
  | finished =>
      obtain rfl : ack = _ := by simpa [terminals] using hack
      exact ⟨.completed, rfl⟩
  | cancelled runId reason =>
      obtain rfl : ack = _ := by simpa [terminals] using hack
      exact ⟨.dropped reason, rfl⟩
  | cancelledAll reason =>
      rw [terminals_terminals] at hack
      obtain ⟨request, -, rfl⟩ := List.mem_map.1 hack
      exact ⟨.dropped reason, rfl⟩
  | _ => simp [terminals] at hack

/-- The acknowledgements a queue keeps are those of outcomes, in every run. -/
theorem acks_are_outcomes
    (limits : QueueLimits)
    (nextSequence : Nat)
    (ops : List LocalOp)
    {ack : TerminalRunAck}
    (hack : ack ∈ (Machine.run (stepLocal env) (new limits nextSequence)
      ops).terminalAcks) :
    ∃ outcome : Outcome, (ack.state, ack.reason) = outcome.ack := by
  have hrun := @Machine.run_trace_invariant _ _ _ (stepLocal env)
    (emitLocal env)
    (fun q out => Lifecycle env q out ∧ ∀ ack ∈ terminals out,
      ∃ outcome : Outcome, (ack.state, ack.reason) = outcome.ack)
    (fun q out o h => ⟨lifecycle_step env q out o h.1, fun ack hmem => by
      rw [terminals_append, List.mem_append] at hmem
      rcases hmem with hmem | hmem
      · exact h.2 ack hmem
      · exact move_ack (move_step env q o.budget o.op) hmem⟩)
    _ _ ⟨lifecycle_new env limits nextSequence, by simp [terminals]⟩ ops
  rw [hrun.1.acks] at hack
  exact hrun.2 ack (List.mem_of_mem_drop hack)

end Acknowledgements

end Host
end FutureOs
