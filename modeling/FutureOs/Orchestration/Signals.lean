import FutureOs.Orchestration.Frontier

/-!
# What a decision observes

`decision/stall.rs`, `decision/oscillation.rs`, `decision/monitor.rs`, and the part of
`quota/slot_accounting.rs` they use.  The signals of a todo are advisories: they end up
in the text of a delivery and force nothing.  The monitors decide between a stall, a poll
and a wait.
-/

namespace FutureOs
namespace Orchestration

/-! ## Runs -/

inductive SlotSpendSource
  | run
  | agent
  | heartbeat
deriving DecidableEq

def SlotSpendSource.parse : String → Option SlotSpendSource
  | "run" => some .run
  | "agent" => some .agent
  | "heartbeat" => some .heartbeat
  | _ => none

inductive ValidationStatus
  | passed
  | progress
  | failed
  | inconclusive
  | unavailable
  | notRequired
deriving DecidableEq

def ValidationStatus.parse : String → Option ValidationStatus
  | "passed" => some .passed
  | "progress" => some .progress
  | "failed" => some .failed
  | "inconclusive" => some .inconclusive
  | "unavailable" => some .unavailable
  | "not_required" => some .notRequired
  | _ => none

/-- What is read of a validation receipt. -/
structure TaskValidation where
  status : ValidationStatus
  ok : Bool
deriving DecidableEq

namespace RunRecord

def recordedAt (record : RunRecord) : Nat :=
  ((record.rest.get? "recorded_at").bind Json.asU64?).getD 0

def spendSource (record : RunRecord) : Option String :=
  (record.rest.get? "spend_source").bind Json.asStr?

/-- The receipt of the independent validation, where there is one. -/
def validation (record : RunRecord) : Option TaskValidation :=
  (record.rest.get? "validation").bind fun receipt =>
    (receipt.get? "status").bind fun status =>
      (status.asStr?.bind ValidationStatus.parse).bind fun status =>
        ((receipt.get? "ok").bind Json.asBool?).map fun ok =>
          { status := status, ok := ok }

/-- `classify_record`: who pays for a recorded run. -/
def classify (record : RunRecord) : SlotSpendSource :=
  match record.spendSource.bind SlotSpendSource.parse with
  | some source => source
  | none => if record.terminalState = "completed" then .run else .heartbeat

end RunRecord

/-! ## Oscillation -/

def oscillationPatternLen : Nat := 4

inductive RunSignature
  | accepted
  | rejected
deriving DecidableEq

def RunSignature.symbol : RunSignature → String
  | .accepted => "A"
  | .rejected => "V"

/-- `signature_of`: only a completed run that is not quota-neutral has a verdict. -/
def signatureOf (record : RunRecord) : Option RunSignature :=
  if record.classify = .heartbeat then
    none
  else if record.terminalState ≠ "completed" then
    none
  else
    match record.validation with
    | some validation => if validation.ok then some .accepted else some .rejected
    | none => some .accepted

/-- Length of the alternating start of a list; the code reads its list from the end. -/
def alternatingLen : List RunSignature → Nat
  | [] => 0
  | [_] => 1
  | s :: s' :: rest => if s = s' then 1 else alternatingLen (s' :: rest) + 1

def alternatingSuffixLen (signatures : List RunSignature) : Nat :=
  alternatingLen signatures.reverse

structure OscillationReport where
  alternatingLen : Nat
  pattern : String
deriving DecidableEq

/-- `oscillation::detect`: the verdicts after `since`, in the order of their times. -/
def detectOscillation (history : List RunRecord) (since : Nat) : Option OscillationReport :=
  let verdicts := (history.filter fun record => since < record.recordedAt).filterMap
    fun record => (signatureOf record).map fun s => (record.recordedAt, s)
  let signatures := (verdicts.mergeSort fun v v' => v.1 ≤ v'.1).map Prod.snd
  let len := alternatingSuffixLen signatures
  if len < oscillationPatternLen then
    none
  else
    some {
      alternatingLen := len
      pattern := String.intercalate "→"
        ((signatures.drop (signatures.length - len)).map RunSignature.symbol) }

def oscillationReplanReason (goal : Goal) : Option String :=
  let since := (goal.replanAck.map ReplanAck.at').getD 0
  (detectOscillation goal.history since).map fun report =>
    "oscillation detected: delivery outcomes flip-flop " ++ report.pattern ++ " (" ++
      toString report.alternatingLen ++ " consecutive alternating turns) — record a " ++
      "frontier-changing replan delta to break the action/verify loop"

/-! ## The signals of a todo -/

def monitorNoChangeReplanThreshold : Nat := 3

def llmZombieTurnThreshold : Nat := 2

def isMonitorStalled (m : Todo) : Bool :=
  monitorNoChangeReplanThreshold ≤ m.consecutiveNoChange

def outcomeFloorBreach (goal : Goal) : Option String :=
  let threshold := goal.executionProfile.outcomeFloorStreakThreshold
  if 0 < threshold ∧ threshold ≤ goal.outcomeStreak then
    some ("outcome floor: " ++ toString goal.outcomeStreak ++
      " consecutive turns without a material outcome (threshold " ++ toString threshold ++ ")")
  else
    none

/-- The turns on a todo that wrote nothing. -/
def noProgressTurns (goal : Goal) (t : Todo) : Nat :=
  (goal.turnNoProgress.filter fun np => np.todoId = t.id).length

/-- `todo_signals`: the advisories of a runnable todo, in their order. -/
def todoSignals (goal : Goal) (t : Todo) : List String :=
  ((outcomeFloorBreach goal).map fun signal =>
    "[signal: " ++ signal ++
      " — consider changing strategy or superseding a stale todo]").toList ++
  ((oscillationReplanReason goal).map fun signal =>
    "[signal: " ++ signal ++ " — inspect artifacts and split work if useful; " ++
      "do not weaken acceptance criteria to obtain a pass]").toList ++
  (if 0 < t.failedAttempts then
    ["[signal: todo " ++ t.id ++ " has " ++ toString t.failedAttempts ++
      " failed attempt(s) — consider superseding or asking the operator]"] else []) ++
  (if llmZombieTurnThreshold ≤ noProgressTurns goal t then
    ["[signal: " ++ toString (noProgressTurns goal t) ++
      " turns with no write-class tool (write/edit) — activity is not progress; " ++
      "shell/read-only research may be productive. Inspect evidence, validation and " ++
      "reported milestones before deciding whether to restart]"] else [])

/-! ## The lanes of a goal -/

namespace Goal

/-- `open_of_at`: the open or due todos of a class. -/
def openOfAt (goal : Goal) (taskClass : TaskClass) (now : SystemTime) : List Todo :=
  goal.todos.filter fun t => t.taskClass = taskClass && t.isOpenAt now

def openGatesAt (goal : Goal) (now : SystemTime) : List Todo :=
  goal.openOfAt .userGate now

def openMonitorsAt (goal : Goal) (now : SystemTime) : List Todo :=
  goal.openOfAt .monitor now

end Goal

theorem mem_openOfAt
    {goal : Goal}
    {taskClass : TaskClass}
    {now : SystemTime}
    {t : Todo} :
    t ∈ goal.openOfAt taskClass now ↔
      t ∈ goal.todos ∧ t.taskClass = taskClass ∧ t.isOpenAt now = true := by
  unfold Goal.openOfAt
  rw [List.mem_filter, Bool.and_eq_true, decide_eq_true_eq]

/-- The next poll of a monitor is at or before `now`. -/
def Todo.isDueAt (m : Todo) (now : SystemTime) : Bool :=
  m.resumeWhen.any (· ≤ now)

/-! ## Monitors -/

inductive MonitorOutcome
  | stalled (m : Todo)
  | due (first : Todo) (rest : List Todo)
  /-- The next due time from now on, in milliseconds. -/
  | waiting (nextDueMs : Option Nat)
  | none
deriving DecidableEq

/-- The earliest of some times. -/
def earliest : List SystemTime → Option SystemTime
  | [] => none
  | time :: rest => some (rest.foldl min time)

/-- `duration_since(now)` in milliseconds, as a 64-bit word; `none` for an earlier time. -/
def millisSince (d now : SystemTime) : Option Nat :=
  if now ≤ d then some ((d - now).toNat / 10 ^ 6 % 2 ^ 64) else none

/-- `monitor_outcome`: a stall first, then the due monitors, then the wait. -/
def monitorOutcome (goal : Goal) (now : SystemTime) : MonitorOutcome :=
  let monitors := goal.openMonitorsAt now
  match monitors.find? isMonitorStalled with
  | some m => .stalled m
  | none =>
      match monitors.filter fun m => m.isDueAt now with
      | first :: rest => .due first rest
      | [] =>
          if monitors.isEmpty then
            .none
          else
            .waiting
              ((earliest (monitors.filterMap Todo.resumeWhen)).bind fun d => millisSince d now)

theorem monitorOutcome_due
    {goal : Goal}
    {now : SystemTime}
    {m : Todo}
    {rest : List Todo}
    (h : monitorOutcome goal now = .due m rest) :
    m ∈ goal.openMonitorsAt now ∧ m.isDueAt now = true := by
  unfold monitorOutcome at h
  dsimp only at h
  split at h
  · cases h
  · split at h
    · rename_i hdue
      rw [(MonitorOutcome.due.inj h).1] at hdue
      exact List.mem_filter.1 (hdue ▸ List.mem_cons_self)
    · split at h <;> cases h

/-- Without open monitors there is nothing to poll or to wait for. -/
theorem monitorOutcome_eq_none
    {goal : Goal}
    {now : SystemTime}
    (h : goal.openMonitorsAt now = []) :
    monitorOutcome goal now = .none := by
  unfold monitorOutcome
  rw [h]
  rfl

end Orchestration
end FutureOs
