import FutureOs.Orchestration.Signals

/-!
# When a goal is closed

The closure predicates of `state.rs` and the terminal judgement of
`goal_frontier/terminal.rs`.  `isTerminal` asks four questions of the state and none of
the clock; the judgement lists what is missing as gaps, some of them worded by the clock.
It has no gap exactly where the goal is terminal (`terminal_terminalJudgementAt`).
-/

namespace FutureOs
namespace Orchestration

namespace Goal

/-- Done advancements that name no successor and do not rule one out. -/
def completedWithoutClosureIntent (goal : Goal) : List Todo :=
  goal.todos.filter fun t =>
    t.taskClass = .advancement && t.status = .done && t.successorIds.isEmpty && !t.noFollowUp

def deliveryState (goal : Goal) (todoId : String) : Option DeliveryState :=
  goal.deliveryStates.find? fun d => d.todoId = todoId

def isDeliveryVerified (goal : Goal) (todoId : String) : Bool :=
  (goal.deliveryState todoId).any fun d => d.outcome = "verified"

/-- A run of the todo carries a passed receipt. -/
def hasPassedValidation (goal : Goal) (todoId : String) : Bool :=
  goal.history.any fun record =>
    record.todoId = todoId && record.validation.any fun v => v.status = .passed

/-- Done advancements with a validator that nothing shows to have passed. -/
def unvalidatedDeliveries (goal : Goal) : List Todo :=
  goal.todos.filter fun t =>
    t.taskClass = .advancement && t.status = .done && t.validator.isSome &&
      !goal.hasPassedValidation t.id && !goal.isDeliveryVerified t.id

def unsatisfiedGaps (goal : Goal) : List AcceptanceGap :=
  goal.acceptance.filter fun gap => !gap.satisfied

/-- `is_terminal`: closure from complete sources, at no time in particular. -/
def isTerminal (goal : Goal) : Bool :=
  goal.todos.all (fun t => t.status.terminal) && goal.unsatisfiedGaps.isEmpty &&
    goal.completedWithoutClosureIntent.isEmpty && goal.unvalidatedDeliveries.isEmpty

end Goal

/-! ## The summary -/

structure TerminalClosureProof where
  allTodosDone : Bool
  derived : Bool
  noFollowupCount : Nat
  monitorOpenCount : Nat
  successorGapCount : Nat
  schemaVersion : String
deriving DecidableEq

structure TodoSummary where
  schemaVersion : String
  userOpen : Nat
  userDone : Nat
  agentOpen : Nat
  agentDone : Nat
  monitorOpen : Nat
  itemCount : Nat
  terminalClosureProof : TerminalClosureProof
deriving DecidableEq

/-- `todo_summary_at`. -/
def Goal.todoSummaryAt (goal : Goal) (now : SystemTime) : TodoSummary :=
  let openOf (role : TodoRole) : Nat :=
    (goal.todos.filter fun t => t.role = role && t.isOpenAt now).length
  let doneOf (role : TodoRole) : Nat :=
    (goal.todos.filter fun t => t.role = role && t.status = .done).length
  let monitorOpen := (goal.openMonitorsAt now).length
  { schemaVersion := "todo_summary_v0"
    userOpen := openOf .user
    userDone := doneOf .user
    agentOpen := openOf .agent
    agentDone := doneOf .agent
    monitorOpen := monitorOpen
    itemCount := goal.todos.length
    terminalClosureProof := {
      allTodosDone := goal.isTerminal || goal.todos.all fun t => t.status = .done
      derived := true
      noFollowupCount := (goal.todos.filter fun t => t.noFollowUp).length
      monitorOpenCount := monitorOpen
      successorGapCount := goal.completedWithoutClosureIntent.length
      schemaVersion := "todo_terminal_closure_proof_v0" } }

/-! ## The judgement -/

/-- `future_goal_task_class`. -/
def futureGoalTaskClass : TaskClass → String
  | .advancement => "advancement_task"
  | .userGate => "user_gate"
  | .userAction => "user_action"
  | .monitor => "continuous_monitor"
  | .blocker => "blocker"
  | .coordination => "coordination"

structure TerminalGap where
  kind : String
  todoId : Option String
  gapId : Option String
  description : String
  satisfied : Bool
deriving DecidableEq

structure TerminalJudgement where
  schemaVersion : String
  terminal : Bool
  kind : Option String
  source : Option String
  gaps : List TerminalGap
  closureProof : TerminalClosureProof
deriving DecidableEq

/-- The gap of a todo that is not finished. -/
def openGap (now : SystemTime) (t : Todo) : TerminalGap :=
  if t.status = .deferred ∧ t.isDueDeferred now = false then
    { kind := "pending_deferred"
      todoId := some t.id
      gapId := none
      description := "deferred todo " ++ t.id ++ " not yet due"
      satisfied := false }
  else
    { kind := if t.taskClass = .monitor then "open_monitor" else "open_todo"
      todoId := some t.id
      gapId := none
      description := "todo " ++ t.id ++ " still " ++ t.status.name ++ " (class " ++
        futureGoalTaskClass t.taskClass ++ ")"
      satisfied := false }

def acceptanceGapOf (gap : AcceptanceGap) : TerminalGap where
  kind := "unsatisfied_acceptance"
  todoId := none
  gapId := some gap.id
  description := gap.description
  satisfied := false

def successionGap (t : Todo) : TerminalGap where
  kind := "succession_gap"
  todoId := some t.id
  gapId := none
  description := "todo " ++ t.id ++ " completed without successor or no-follow-up"
  satisfied := false

def unvalidatedGap (t : Todo) : TerminalGap where
  kind := "unvalidated_delivery"
  todoId := some t.id
  gapId := none
  description := "todo " ++ t.id ++ " has no passed validation or verified delivery"
  satisfied := false

/-- Everything that keeps the goal open, in the order it is listed. -/
def terminalGaps (goal : Goal) (now : SystemTime) : List TerminalGap :=
  (goal.todos.filter fun t => !t.status.terminal).map (openGap now) ++
    goal.unsatisfiedGaps.map acceptanceGapOf ++
    goal.completedWithoutClosureIntent.map successionGap ++
    goal.unvalidatedDeliveries.map unvalidatedGap

/-- `terminal_judgement_at`. -/
def terminalJudgementAt (goal : Goal) (now : SystemTime) : TerminalJudgement :=
  let gaps := terminalGaps goal now
  { schemaVersion := "goal_terminal_judgement_v0"
    terminal := gaps.isEmpty
    kind := if gaps.isEmpty then some "no_followup" else none
    source := if gaps.isEmpty then some "validated_goal_closure" else none
    gaps := gaps
    closureProof := (goal.todoSummaryAt now).terminalClosureProof }

/-- The judgement is the closure predicate, at every time. -/
theorem terminal_terminalJudgementAt
    (goal : Goal)
    (now : SystemTime) :
    (terminalJudgementAt goal now).terminal = goal.isTerminal := by
  have hopen : (goal.todos.filter fun t => !t.status.terminal).isEmpty =
      goal.todos.all fun t => t.status.terminal := by
    rw [Bool.eq_iff_iff, List.isEmpty_iff, List.filter_eq_nil_iff, List.all_eq_true]
    simp
  unfold terminalJudgementAt terminalGaps Goal.isTerminal
  rw [Bool.eq_iff_iff]
  simp only [Bool.and_eq_true, ← hopen, List.isEmpty_iff, List.append_eq_nil_iff,
    List.map_eq_nil_iff]

theorem status_terminal_of_isTerminal
    {goal : Goal}
    (h : goal.isTerminal = true)
    {t : Todo}
    (ht : t ∈ goal.todos) :
    t.status.terminal = true := by
  unfold Goal.isTerminal at h
  simp only [Bool.and_eq_true, List.all_eq_true] at h
  exact h.1.1.1 t ht

end Orchestration
end FutureOs
