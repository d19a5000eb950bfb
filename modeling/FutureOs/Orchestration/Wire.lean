import FutureOs.Lib.Json
import FutureOs.Orchestration.Event

/-!
# The text of events

The text an event is written as, for the events that add, change, claim or finish a todo
and those of the supervisor outbox.  The fields stand in the order of their declaration.
-/

namespace FutureOs
namespace Orchestration

def natJson (n : Nat) : Json :=
  .num (.posInt n)

def optionJson {α : Type} (render : α → Json) : Option α → Json
  | some a => render a
  | none => .null

def stringsJson (values : List String) : Json :=
  .arr (values.map Json.str)

/-- A time is written as its two parts. -/
def timeJson (t : SystemTime) : Json :=
  .obj [("secs_since_epoch", natJson t.secs),
    ("nanos_since_epoch", natJson (t % 1000000000).toNat)]

def TaskClass.json : TaskClass → Json
  | .advancement => .str "advancement_task"
  | .userGate => .str "user_gate"
  | .userAction => .str "user_action"
  | .monitor => .str "continuous_monitor"
  | .blocker => .str "blocker"
  | .coordination => .str "coordination"

def Priority.json : Priority → Json
  | .p0 => .str "P0"
  | .p1 => .str "P1"
  | .p2 => .str "P2"

def TodoRole.json : TodoRole → Json
  | .agent => .str "agent"
  | .user => .str "user"

def TodoStatus.json : TodoStatus → Json
  | .open => .str "open"
  | .done => .str "done"
  | .superseded => .str "superseded"
  | .deferred => .str "deferred"
  | .blocked => .str "blocked"

def Todo.json (t : Todo) : Json :=
  .obj
    [("id", .str t.id),
      ("parent_id", optionJson .str t.parentId),
      ("text", .str t.text),
      ("title", .str t.title),
      ("class", t.taskClass.json),
      ("status", t.status.json),
      ("priority", t.priority.json),
      ("role", t.role.json),
      ("index", natJson t.index),
      ("action_kind", optionJson .str t.actionKind),
      ("gate_question", optionJson .str t.gateQuestion),
      ("decision", optionJson .str t.decision),
      ("note", optionJson .str t.note),
      ("resume_when_text", optionJson .str t.resumeWhenText),
      ("resume_when", optionJson timeJson t.resumeWhen),
      ("consecutive_no_change", natJson t.consecutiveNoChange),
      ("monitor_target", optionJson .str t.monitorTarget),
      ("monitor_policy", optionJson .str t.monitorPolicy),
      ("monitor_cadence", optionJson .str t.monitorCadence),
      ("blocked_by_gate", optionJson .str t.blockedByGate),
      ("failed_attempts", natJson t.failedAttempts),
      ("successor_ids", stringsJson t.successorIds),
      ("no_follow_up", .bool t.noFollowUp),
      ("evidence", optionJson .str t.evidence),
      ("owner", optionJson .str t.owner),
      ("claimed_by", optionJson .str t.claimedBy),
      ("lease_expires_at", optionJson natJson t.leaseExpiresAt),
      ("holder_pid", optionJson natJson t.holderPid),
      ("goal_bound", .bool t.goalBound),
      ("global_gate", .bool t.globalGate),
      ("updated_at", natJson t.updatedAt),
      ("completed_at", optionJson natJson t.completedAt),
      ("archive_state", .str t.archiveState),
      ("task_repository", optionJson .str t.taskRepository),
      ("continuation_policy", optionJson .str t.continuationPolicy),
      ("required_write_scope", stringsJson t.requiredWriteScope),
      ("validator", optionJson .str t.validator),
      ("acceptance", optionJson .str t.acceptance),
      ("max_validation_attempts", natJson t.maxValidationAttempts)]

/-- The kind and the fields between the goal and the time. -/
def EventKind.json : EventKind → Option (String × List (String × Json))
  | .todoAdded t => some ("todo_added", [("todo", t.json)])
  | .todoCompleted todoId noFollowUp successorIds evidence =>
      some ("todo_completed",
        [("todo_id", .str todoId),
          ("no_follow_up", .bool noFollowUp),
          ("successor_ids", stringsJson successorIds),
          ("evidence", optionJson .str evidence)])
  | .todoSuperseded todoId => some ("todo_superseded", [("todo_id", .str todoId)])
  | .todoUpdated todoId text status evidence note priority resumeWhen blocks acceptance owner
      resumeAtMs =>
      some ("todo_updated",
        [("todo_id", .str todoId),
          ("text", optionJson .str text),
          ("status", optionJson .str status),
          ("evidence", optionJson .str evidence),
          ("note", optionJson .str note),
          ("priority", optionJson .str priority),
          ("resume_when", optionJson .str resumeWhen),
          ("blocks", optionJson stringsJson blocks),
          ("acceptance", optionJson .str acceptance),
          ("owner", optionJson .str owner)] ++
          resumeAtMs.toList.map fun ms => ("resume_at_ms", natJson ms))
  | .todoClaimed todoId agentId leaseExpiresAt holderPid =>
      some ("todo_claimed",
        [("todo_id", .str todoId),
          ("agent_id", .str agentId),
          ("lease_expires_at", natJson leaseExpiresAt),
          ("holder_pid", optionJson natJson holderPid)])
  | .workspaceLockAcquired agentId todoId paths forced =>
      some ("workspace_lock_acquired",
        [("agent_id", .str agentId),
          ("todo_id", .str todoId),
          ("paths", stringsJson paths),
          ("forced", .bool forced)])
  | .todoRenewed todoId agentId leaseExpiresAt =>
      some ("todo_renewed",
        [("todo_id", .str todoId),
          ("agent_id", .str agentId),
          ("lease_expires_at", natJson leaseExpiresAt)])
  | .todoReleased todoId agentId =>
      some ("todo_released", [("todo_id", .str todoId), ("agent_id", .str agentId)])
  | .todoExpired todoId => some ("todo_expired", [("todo_id", .str todoId)])
  | .supervisorNote todoId noteKind message dedupKey =>
      some ("supervisor_note",
        [("todo_id", .str todoId),
          ("note_kind", .str noteKind),
          ("message", .str message),
          ("dedup_key", .str dedupKey)])
  | .supervisorRegistered sessionId =>
      some ("supervisor_registered", [("session_id", .str sessionId)])
  | .supervisorBatchPrepared batchId sessionId noteKeys message =>
      some ("supervisor_batch_prepared",
        [("batch_id", .str batchId),
          ("session_id", .str sessionId),
          ("note_keys", stringsJson noteKeys),
          ("message", .str message)])
  | .supervisorBatchDelivered batchId =>
      some ("supervisor_batch_delivered", [("batch_id", .str batchId)])
  | _ => none

/-- The text of an event; the other kinds have none here. -/
def serializeEvent (event : Event) : List UInt8 :=
  match event.kind.json with
  | some (kind, fields) =>
      Utf8.encode (Json.obj
        ([("kind", .str kind), ("goal_id", .str event.goalId)] ++ fields ++
          [("ts", natJson event.ts)])).compact
  | none => []

end Orchestration
end FutureOs
