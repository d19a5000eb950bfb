import FutureOs.Lib.Fields
import FutureOs.Orchestration.Cadence
import FutureOs.Orchestration.Event

/-!
# The fold of the event ledger

`apply` folds one event into a goal, at a clock reading `now`: the helpers that
complete and archive a todo read the clock, and only some arms put the time of the
event in its place afterwards.

`Event.edit` says what an event does to the todo it names, and `apply_todos` that
nothing else happens to the todos: every property of todos along a ledger is derived
from it.
-/

namespace FutureOs
namespace Orchestration

/-- `u64::saturating_mul`. -/
def saturatingMulU64 (a b : Nat) : Nat :=
  min (a * b) (2 ^ 64 - 1)

/-- `u64::saturating_add`. -/
def saturatingAddU64 (a b : Nat) : Nat :=
  min (a + b) (2 ^ 64 - 1)

/-- `u32::saturating_add`. -/
def saturatingAddU32 (a b : Nat) : Nat :=
  min (a + b) (2 ^ 32 - 1)

/-- An empty text clears the field, an absent one keeps it. -/
def clearable (value : Option String) (old : Option String) : Option String :=
  match value with
  | some text => if Text.trim text = "" then none else some text
  | none => old

/-- The deadline of a deferral: stored, or relative to the second of the event. -/
def deferralDeadline (resumeWhen : String) (resumeAtMs : Option Nat) (ts : Nat)
    (old : Option SystemTime) : Option SystemTime :=
  match resumeAtMs with
  | some atMs => some (epochMillisAsTime atMs)
  | none =>
      match (Text.stripPrefix "defer:" resumeWhen).bind Text.parseU64 with
      | some secs =>
          some (epochMillisAsTime
            (saturatingAddU64 (saturatingMulU64 ts 1000) (saturatingMulU64 secs 1000)))
      | none => old

/-- The status a text names; any other text keeps the old one. -/
def statusNamed (status : String) (old : TodoStatus) : TodoStatus :=
  if status = "open" then
    .open
  else if status = "blocked" then
    .blocked
  else if status = "deferred" then
    .deferred
  else if status = "superseded" then
    .superseded
  else
    old

namespace Todo

/-- A completion, stamped with the second of its event; a superseded todo stays as it is. -/
def completeAt (now ts : Nat) (noFollowUp : Bool) (successorIds : List String)
    (evidence : Option String) (t : Todo) : Todo :=
  if t.status = .superseded then
    t
  else
    { t.complete now noFollowUp successorIds with
      completedAt := some ts
      updatedAt := ts
      evidence := evidence.or t.evidence }

/-- A field-level update. -/
def update (ts : Nat) (text status evidence note priority resumeWhen : Option String)
    (blocks : Option (List String)) (acceptance owner : Option String)
    (resumeAtMs : Option Nat) (t : Todo) : Todo :=
  { t with
    text := text.getD t.text
    owner := clearable owner t.owner
    evidence := evidence.or t.evidence
    note := note.or t.note
    acceptance := clearable acceptance t.acceptance
    blockedByGate := match blocks with
      | some [] => none
      | some ids => some (String.intercalate "," ids)
      | none => t.blockedByGate
    priority := match priority with
      | some p =>
          if Text.upper p = "P0" then .p0 else if Text.upper p = "P2" then .p2 else .p1
      | none => t.priority
    resumeWhenText := resumeWhen.or t.resumeWhenText
    resumeWhen := match resumeWhen with
      | some text => deferralDeadline text resumeAtMs ts t.resumeWhen
      | none => t.resumeWhen
    status :=
      let held := if resumeWhen.isSome then TodoStatus.deferred else t.status
      match status with
      | some text => statusNamed text held
      | none => held
    updatedAt := ts }

/-- A gate is resolved: done, without a closure intent. -/
def resolve (ts : Nat) (decision : String) (note : Option String) (t : Todo) : Todo :=
  { t with
    status := .done
    decision := some decision
    completedAt := some ts
    updatedAt := ts
    note := note.or t.note }

def claimBy (agentId : String) (leaseExpiresAt : Nat) (holderPid : Option Nat) (t : Todo) :
    Todo :=
  { t with
    claimedBy := some agentId
    leaseExpiresAt := some leaseExpiresAt
    holderPid := holderPid }

/-- A monitor was polled: it closes on a change, else it is due again later. -/
def poll (ts : Nat) (result : String) (noChangeCount : Nat) (t : Todo) : Todo :=
  if result = "changed" then
    { t with consecutiveNoChange := 0, status := .done, updatedAt := ts }
  else
    { t with
      consecutiveNoChange := noChangeCount
      resumeWhen := some (epochSecsAsTime (nextPollDueEpoch ts t.monitorCadence))
      updatedAt := ts }

/-- A renewal extends the lease; the holder stays where there is one. -/
def renew (ts : Nat) (agentId : String) (leaseExpiresAt : Nat) (t : Todo) : Todo :=
  { t with
    claimedBy := t.claimedBy.or (some agentId)
    leaseExpiresAt := some leaseExpiresAt
    updatedAt := ts }

/-- The claim is cleared. -/
def unclaim (ts : Nat) (t : Todo) : Todo :=
  { t with claimedBy := none, leaseExpiresAt := none, updatedAt := ts }

/-- A release clears the claim of its own agent only. -/
def release (ts : Nat) (agentId : String) (t : Todo) : Todo :=
  if t.claimedBy = some agentId then t.unclaim ts else t

/-- An expiry clears whatever claim there is. -/
def expire (ts : Nat) (t : Todo) : Todo :=
  if t.claimedBy.isSome then t.unclaim ts else t

end Todo

/-- The summary of a completion. -/
def completionSummary (noFollowUp : Bool) (successorIds : List String) : String :=
  if noFollowUp then
    "no-follow-up"
  else if successorIds ≠ [] then
    "successor " ++ String.intercalate "," successorIds
  else
    "completed"

/-- The summary of a recorded run. -/
def runSummary (record : RunRecord) : String :=
  if Text.trim record.evidence = "" then
    record.terminalState
  else
    record.terminalState ++ " — " ++ truncate record.evidence 120

def isWriteClassTool (name : String) : Bool :=
  name ∈ ["write", "edit"]

/-- `apply`: fold one event into the goal, at the clock reading `now`. -/
def apply (now : Nat) (goal : Goal) (event : Event) : Goal :=
  let ts := event.ts
  match event.kind with
  | .goalStarted => { goal with createdAt := ts }
  | .todoAdded t => (goal.addTodo t).frontierChanged ts
  | .todoCompleted todoId noFollowUp successorIds evidence =>
      ((goal.todoMut todoId (Todo.completeAt now ts noFollowUp successorIds evidence)
        ).frontierChanged ts).recordSemanticEvent "todo_completed" (some todoId)
          (completionSummary noFollowUp successorIds) ts
  | .todoSuperseded todoId =>
      ((goal.supersede todoId).frontierChanged ts).recordSemanticEvent "todo_superseded"
        (some todoId) "superseded" ts
  | .todoUpdated todoId text status evidence note priority resumeWhen blocks acceptance owner
      resumeAtMs =>
      goal.todoMut todoId (Todo.update ts text status evidence note priority resumeWhen blocks
        acceptance owner resumeAtMs)
  | .goalCancelled _ => { goal with status := "cancelled" }
  | .gateResolved todoId decision note =>
      ((goal.todoMut todoId (Todo.resolve ts decision note)).frontierChanged ts
        ).recordSemanticEvent "gate_resolved" (some todoId) "gate resolved" ts
  | .gapSatisfied gapId =>
      (goal.satisfyGap gapId).recordSemanticEvent "acceptance_gap_satisfied" none
        ("acceptance gap " ++ gapId ++ " satisfied") ts
  | .runRecorded record =>
      let landed := goal.recordSemanticEvent "run_landed" (some record.todoId)
        (runSummary record) ts
      if record.tools.any isWriteClassTool then
        { landed with
          turnNoProgress := landed.turnNoProgress.filter fun np => np.todoId ≠ record.todoId }
      else
        landed
  | .todoClaimed todoId agentId leaseExpiresAt holderPid =>
      goal.todoMut todoId (Todo.claimBy agentId leaseExpiresAt holderPid)
  | .agentRegistered agentId workspaces =>
      goal.registerAgent { id := agentId, capabilities := [], workspaces := workspaces }
  | .agentOnboarded agentId capabilities workspaces =>
      goal.registerAgent
        { id := agentId, capabilities := capabilities, workspaces := workspaces }
  | .workerSessionBound agentId sessionId =>
      { goal with workerSessions := Fields.insert agentId sessionId goal.workerSessions }
  | .workspaceLockAcquired _ _ _ _ => goal
  | .replanAcked deltaKinds =>
      let ack : ReplanAck := { recorded := true, deltaKinds := deltaKinds, at' := ts }
      let acked := { goal with replanAck := some ack }
      (if ack.hasFrontierDelta then acked.frontierChanged ts else acked).recordSemanticEvent
        "replan_acked" none ("delta kinds: " ++ String.intercalate "," deltaKinds) ts
  | .profileSet threshold =>
      { goal with
        executionProfile :=
          { goal.executionProfile with outcomeFloorStreakThreshold := threshold } }
  | .authoritySet writeScope requiresApproval =>
      { goal with
        authority := { writeScope := writeScope, requiresApproval := requiresApproval } }
  | .todoArchived todoId => (goal.archiveTodo now todoId).frontierChanged ts
  | .monitorPolled todoId result noChangeCount =>
      (goal.todoMut todoId (Todo.poll ts result noChangeCount)).recordSemanticEvent
        "monitor_poll" (some todoId) result ts
  | .quotaSpent _ _ _ slots =>
      { goal with quotaSpentSlots := saturatingAddU32 goal.quotaSpentSlots slots }
  | .evidenceAttached todoId evidence =>
      goal.todoMut todoId fun t => { t with evidence := some evidence, updatedAt := ts }
  | .todoRenewed todoId agentId leaseExpiresAt =>
      goal.todoMut todoId (Todo.renew ts agentId leaseExpiresAt)
  | .todoReleased todoId agentId => goal.todoMut todoId (Todo.release ts agentId)
  | .todoExpired todoId => goal.todoMut todoId (Todo.expire ts)
  | .deliveryOutcomeRecorded todoId outcome note deliveredTurn seq =>
      (goal.applyDeliveryOutcome todoId outcome note deliveredTurn seq ts).recordSemanticEvent
        "delivery_outcome" (some todoId) outcome ts
  | .followthroughCreated sourceTodoId followupTodoId _ =>
      goal.applyFollowthrough sourceTodoId followupTodoId ts
  | .schedulerTicked agentId _ _ =>
      { goal with
        schedulerHeartbeats := Fields.insert agentId
          (max ((Fields.lookup agentId goal.schedulerHeartbeats).getD ts) ts)
          goal.schedulerHeartbeats }
  | .automationLivenessAlert agentId elapsedSecs thresholdSecs consecutive =>
      { goal with
        livenessAlerts := goal.livenessAlerts ++
          [{ agentId := agentId
             elapsedSecs := elapsedSecs
             thresholdSecs := thresholdSecs
             consecutive := consecutive
             ts := ts }] }
  | .turnNoProgress todoId agentId idleSecs toolCallsTotal =>
      let idle : Goal := { goal with
        turnNoProgress := goal.turnNoProgress ++
          [{ goalId := event.goalId
             todoId := todoId
             agentId := agentId
             idleSecs := idleSecs
             toolCallsTotal := toolCallsTotal
             ts := ts }] }
      idle.recordSemanticEvent "turn_no_progress" none
        (toString idleSecs ++ "s idle after " ++ toString toolCallsTotal ++ " tool calls") ts
  | .replanRuleSetUpdated ruleSetVersion ruleIds =>
      let ruled : Goal := { goal with
        replanRuleSet :=
          if ruleIds = [] then none
          else some { schemaVersion := ruleSetVersion, ruleIds := ruleIds } }
      ruled.recordSemanticEvent "replan_acked" none "replan rule set updated" ts
  | .supervisorRegistered sessionId => { goal with supervisorSessionId := some sessionId }
  | .workerSteered agentId instruction =>
      { goal with
        pendingSteer := some { agentId := agentId, instruction := instruction, ts := ts } }
  | .steerConsumed agentId steerTs =>
      if goal.pendingSteer.any fun s => s.ts = steerTs && s.agentId = agentId then
        { goal with pendingSteer := none }
      else
        goal
  -- Read from the ledger by their own projections.
  | .decisionSummaryRecorded _
  | .heartbeatReceiptRecorded _ _ _ _ _
  | .schedulerAcked _ _ _ _ _
  | .projectionRepaired _ _ _ _ _ _ _
  | .workerStopped _
  | .progressReported _ _ _
  | .supervisorNote _ _ _ _
  | .controlIssued _
  | .controlAcknowledged _ _
  | .supervisorBatchPrepared _ _ _ _
  | .supervisorBatchDelivered _ => goal

/-! ## What an event does to the todos -/

namespace EventKind

/-- The todo an event changes. -/
def target : EventKind → Option String
  | .todoCompleted todoId _ _ _
  | .todoSuperseded todoId
  | .todoUpdated todoId _ _ _ _ _ _ _ _ _ _
  | .gateResolved todoId _ _
  | .todoClaimed todoId _ _ _
  | .todoArchived todoId
  | .monitorPolled todoId _ _
  | .evidenceAttached todoId _
  | .todoRenewed todoId _ _
  | .todoReleased todoId _
  | .todoExpired todoId => some todoId
  | _ => none

/-- What the event makes of its todo. -/
def edit (now ts : Nat) : EventKind → Todo → Todo
  | .todoCompleted _ noFollowUp successorIds evidence =>
      Todo.completeAt now ts noFollowUp successorIds evidence
  | .todoSuperseded _ => fun t => { t with status := .superseded }
  | .todoUpdated _ text status evidence note priority resumeWhen blocks acceptance owner
      resumeAtMs =>
      Todo.update ts text status evidence note priority resumeWhen blocks acceptance owner
        resumeAtMs
  | .gateResolved _ decision note => Todo.resolve ts decision note
  | .todoClaimed _ agentId leaseExpiresAt holderPid =>
      Todo.claimBy agentId leaseExpiresAt holderPid
  | .todoArchived _ => Todo.archive now
  | .monitorPolled _ result noChangeCount => Todo.poll ts result noChangeCount
  | .evidenceAttached _ evidence => fun t =>
      { t with evidence := some evidence, updatedAt := ts }
  | .todoRenewed _ agentId leaseExpiresAt => Todo.renew ts agentId leaseExpiresAt
  | .todoReleased _ agentId => Todo.release ts agentId
  | .todoExpired _ => Todo.expire ts
  | _ => id

/-- The todos after the event. -/
def editTodos (now ts : Nat) (kind : EventKind) (todos : List Todo) : List Todo :=
  match kind.target with
  | some id => updateFirst (fun t => t.id = id) (kind.edit now ts) todos
  | none => todos

end EventKind

section Todos

variable (goal : Goal)

@[simp] theorem todos_recordSemanticEvent
    (kind : String)
    (todoId : Option String)
    (summary : String)
    (ts : Nat) :
    (goal.recordSemanticEvent kind todoId summary ts).todos = goal.todos := by
  unfold Goal.recordSemanticEvent
  rfl

@[simp] theorem todos_frontierChanged (ts : Nat) :
    (goal.frontierChanged ts).todos = goal.todos := rfl

@[simp] theorem todos_todoMut (id : String) (f : Todo → Todo) :
    (goal.todoMut id f).todos = updateFirst (fun t => t.id = id) f goal.todos := rfl

theorem todos_addTodo (t : Todo) :
    ∃ index, (goal.addTodo t).todos = goal.todos ++ [{ t with index := index }] := by
  unfold Goal.addTodo
  split
  · exact ⟨_, rfl⟩
  · exact ⟨t.index, rfl⟩

variable {goal}

/-- An event adds a todo or edits the one it names; nothing else happens to the todos. -/
theorem apply_todos (now : Nat) (goal : Goal) (event : Event) :
    (∃ t, event.kind = .todoAdded t ∧
      (apply now goal event).todos = (goal.addTodo t).todos) ∨
    ((∀ t, event.kind ≠ .todoAdded t) ∧
      (apply now goal event).todos = event.kind.editTodos now event.ts goal.todos) := by
  obtain ⟨goalId, kind, ts⟩ := event
  cases kind with
  | todoAdded t =>
      exact Or.inl ⟨t, rfl, rfl⟩
  | runRecorded record =>
      refine Or.inr ⟨by simp, ?_⟩
      simp only [apply]
      split <;> rfl
  | replanAcked deltaKinds =>
      refine Or.inr ⟨by simp, ?_⟩
      simp only [apply]
      split <;> rfl
  | steerConsumed agentId steerTs =>
      refine Or.inr ⟨by simp, ?_⟩
      simp only [apply]
      split <;> rfl
  | _ =>
      exact Or.inr ⟨by simp, rfl⟩

@[simp] theorem id_edit (now ts : Nat) (kind : EventKind) (t : Todo) :
    (kind.edit now ts t).id = t.id := by
  cases kind with
  | todoCompleted =>
      simp only [EventKind.edit, Todo.completeAt]
      split <;> rfl
  | monitorPolled =>
      simp only [EventKind.edit, Todo.poll]
      split <;> rfl
  | todoReleased =>
      simp only [EventKind.edit, Todo.release]
      split <;> rfl
  | todoExpired =>
      simp only [EventKind.edit, Todo.expire]
      split <;> rfl
  | _ =>
      rfl

theorem find?_updateFirst
    {f : Todo → Todo}
    (hid : ∀ t, (f t).id = t.id)
    (id id' : String)
    (todos : List Todo) :
    (updateFirst (fun t => t.id = id') f todos).find? (fun t => t.id = id) =
      (todos.find? fun t => t.id = id).map fun t => if id = id' then f t else t := by
  induction todos with
  | nil =>
      rfl
  | cons t rest ih =>
      unfold updateFirst
      by_cases htarget : t.id = id'
      · by_cases hwanted : t.id = id
        · simp [htarget, hid, htarget.symm.trans hwanted]
        · have hne : id ≠ id' := fun h => hwanted (htarget.trans h.symm)
          simp [htarget, hid, htarget ▸ hwanted, hne]
      · by_cases hwanted : t.id = id
        · simp [hwanted, hwanted ▸ htarget]
        · simp [htarget, hwanted, ih]

/-- What the event makes of the todo with the id. -/
def EventKind.effect (now ts : Nat) (kind : EventKind) (id : String) (t : Todo) : Todo :=
  if kind.target = some id then kind.edit now ts t else t

/-- A known todo stays known, and only the events that name it change it. -/
theorem todo_apply
    {t : Todo}
    {id : String}
    (h : goal.todo id = some t)
    (now : Nat)
    (event : Event) :
    (apply now goal event).todo id = some (event.kind.effect now event.ts id t) := by
  unfold Goal.todo at h ⊢
  rcases apply_todos now goal event with ⟨added, hkind, htodos⟩ | ⟨-, htodos⟩
  · obtain ⟨index, hadd⟩ := todos_addTodo goal added
    rw [htodos, hadd, List.find?_append, h, hkind]
    rfl
  · rw [htodos]
    unfold EventKind.editTodos EventKind.effect
    cases htarget : event.kind.target with
    | none =>
        simp [h]
    | some id' =>
        simp only [find?_updateFirst (id_edit now event.ts event.kind), h, Option.map_some,
          Option.some.injEq]
        by_cases hid : id = id'
        · simp [hid]
        · simp [hid, Ne.symm hid]

theorem mem_updateFirst
    {α : Type}
    {p : α → Bool}
    {f : α → α}
    {l : List α}
    {a : α}
    (h : a ∈ updateFirst p f l) :
    a ∈ l ∨ ∃ b ∈ l, p b ∧ a = f b := by
  induction l with
  | nil =>
      cases h
  | cons b rest ih =>
      unfold updateFirst at h
      split at h
      · rename_i hp
        rcases List.mem_cons.1 h with rfl | hrest
        · exact Or.inr ⟨b, List.mem_cons_self, hp, rfl⟩
        · exact Or.inl (List.mem_cons_of_mem _ hrest)
      · rcases List.mem_cons.1 h with rfl | hrest
        · exact Or.inl List.mem_cons_self
        · rcases ih hrest with hmem | ⟨c, hmem, hp, rfl⟩
          · exact Or.inl (List.mem_cons_of_mem _ hmem)
          · exact Or.inr ⟨c, List.mem_cons_of_mem _ hmem, hp, rfl⟩

/-- Where no todo is added, each todo is an old one or one the event edited. -/
theorem mem_todos_apply
    {now : Nat}
    {event : Event}
    (hadded : ∀ t, event.kind ≠ .todoAdded t)
    {t' : Todo}
    (h : t' ∈ (apply now goal event).todos) :
    ∃ t ∈ goal.todos, t' = t ∨
      (event.kind.target = some t.id ∧ t' = event.kind.edit now event.ts t) := by
  rcases apply_todos now goal event with ⟨t, hkind, -⟩ | ⟨-, htodos⟩
  · exact absurd hkind (hadded t)
  · rw [htodos] at h
    unfold EventKind.editTodos at h
    cases htarget : event.kind.target with
    | none =>
        rw [htarget] at h
        exact ⟨t', h, Or.inl rfl⟩
    | some id =>
        rw [htarget] at h
        rcases mem_updateFirst h with hmem | ⟨t, hmem, hid, rfl⟩
        · exact ⟨t', hmem, Or.inl rfl⟩
        · refine ⟨t, hmem, Or.inr ⟨?_, rfl⟩⟩
          rw [of_decide_eq_true hid]

end Todos

end Orchestration
end FutureOs
