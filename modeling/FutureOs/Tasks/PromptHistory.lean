import FutureOs.Lib.Json
import FutureOs.Lib.Machine
import FutureOs.Tasks.TaskStore

/-!
# The prompt versions of a task

`prompt_change_revisions` of the kernel, `insert_revision` of the store and
`accept_revision` of the host.  A change of prompt reads the task and its history and
then writes: the rows the kernel asks for one by one, an active one together with the
demotion of the rows it replaces, and last the row of the task.  SQLite commits each
statement on its own, so a change that stops has made the first `cut` of its writes.

Ids come from a generator whose values no stored row carries.
-/

namespace FutureOs
namespace Tasks

def revisionStatusActive : String := "active"
def revisionStatusSuperseded : String := "superseded"
def revisionSourceSuperseded : String := "superseded"
def revisionSourceRollback : String := "rollback"
def legacyProposedStatus : String := "proposed"

structure PromptRevision where
  id : String
  taskId : String
  version : Int
  prompt : String
  source : String
  status : String
  reason : Option String
  confidence : Option Number
  sourceRunId : Option String
  createdAt : Int
deriving DecidableEq

def PromptRevision.isActive (r : PromptRevision) : Bool :=
  r.status = revisionStatusActive

/-- The row of the task with that revision in force. -/
def TaskRow.withPrompt (task : TaskRow) (applied : PromptRevision) (updatedAt : Int) :
    TaskRow :=
  { task with
    prompt := applied.prompt
    promptVersion := applied.version
    updatedAt := updatedAt }

namespace TaskRow

variable (task : TaskRow)
variable (applied : PromptRevision)
variable (updatedAt : Int)

@[simp] theorem withPrompt_id : (task.withPrompt applied updatedAt).id = task.id := rfl

@[simp] theorem withPrompt_prompt :
    (task.withPrompt applied updatedAt).prompt = applied.prompt := rfl

@[simp] theorem withPrompt_promptVersion :
    (task.withPrompt applied updatedAt).promptVersion = applied.version := rfl

end TaskRow

/-- The tables of tasks and runs and the table of revisions, its rows as inserted. -/
structure PromptStore extends TaskStore where
  revisions : List PromptRevision

/-- A statement that changes the database. -/
inductive PromptWrite
  | insert (rev : PromptRevision)
  /-- The active rows of the task below that version are superseded. -/
  | demote (taskId : String) (version : Int)
  | update (task : TaskRow)

/-- What a caller asks for: a recorded revision by its id, or a text of their own. -/
inductive PromptAsk
  | accept (revisionId : String)
  | edit (newPrompt source : String) (reason : Option String)

structure PromptOp where
  ask : PromptAsk
  atMs : Int
  updatedAt : Int
  /-- How many writes are made before the change stops. -/
  cut : Nat

structure PromptRequest where
  newPrompt : String
  source : String
  reason : Option String

inductive PromptError
  | lookup (message : String)
  | write (error : StoreError)
deriving DecidableEq

namespace PromptStore

def listRevisions (s : PromptStore) (taskId : String) : List PromptRevision :=
  (s.revisions.filter fun r => r.taskId = taskId).insertionSort
    fun a b => a.version ≤ b.version

/-- `UNIQUE(task_id, version)` holds another row of that key. -/
def versionTaken (s : PromptStore) (rev : PromptRevision) : Bool :=
  s.revisions.any fun r => r.taskId = rev.taskId && r.version = rev.version

def demoteRow (taskId : String) (version : Int) (r : PromptRevision) : PromptRevision :=
  if r.taskId = taskId ∧ r.version < version ∧ r.isActive = true then
    { r with status := revisionStatusSuperseded }
  else
    r

def execute (s : PromptStore) : PromptWrite → Except StoreError PromptStore
  | .insert rev =>
      if s.revisions.any fun r => r.id = rev.id then
        .error (.constraint "task_prompt_revisions.id")
      else if s.versionTaken rev then
        .error (.constraint "task_prompt_revisions.task_id, task_prompt_revisions.version")
      else if (s.getTask rev.taskId).isNone then
        .error (.constraint "FOREIGN KEY")
      else
        .ok { s with revisions := s.revisions ++ [rev] }
  | .demote taskId version =>
      .ok { s with revisions := s.revisions.map (demoteRow taskId version) }
  | .update task =>
      (s.updateTask task).map fun tables => { s with toTaskStore := tables }

/-- The writes in order, up to the first that is refused. -/
def executeAll (s : PromptStore) : List PromptWrite → PromptStore × Option StoreError
  | [] => (s, none)
  | w :: writes =>
      match s.execute w with
      | .ok s' => s'.executeAll writes
      | .error e => (s, some e)

/-- `insert_revision`: two statements for an active row. -/
def insertRevision (rev : PromptRevision) : List PromptWrite :=
  .insert rev :: if rev.isActive then [.demote rev.taskId rev.version] else []

/-- What the caller asks for, looked up in the history. -/
def request (s : PromptStore) (taskId : String) : PromptAsk → Except String PromptRequest
  | .accept revisionId =>
      match (s.listRevisions taskId).find? fun r => r.id = revisionId with
      | none => .error "revision not found"
      | some revision =>
          .ok
            { newPrompt := revision.prompt
              source := revisionSourceRollback
              reason := some ("applied revision " ++ revisionId ++ " (v" ++
                toString revision.version ++ ")") }
  | .edit newPrompt source reason => .ok ⟨newPrompt, source, reason⟩

end PromptStore

/-- The history has a row of the version in force (a suggestion is no version). -/
def recorded (task : TaskRow) (history : List PromptRevision) : Bool :=
  history.any fun r =>
    r.version = task.promptVersion && r.status ≠ legacyProposedStatus

/-- The row of the version a change replaces. -/
def outgoingRow (id : String) (task : TaskRow) (atMs : Int) : PromptRevision where
  id := id
  taskId := task.id
  version := task.promptVersion
  prompt := task.prompt
  source := revisionSourceSuperseded
  status := revisionStatusSuperseded
  reason := none
  confidence := none
  sourceRunId := none
  createdAt := atMs

/-- The row of the version a change puts in force. -/
def incomingRow (id : String) (task : TaskRow) (req : PromptRequest) (atMs : Int) :
    PromptRevision where
  id := id
  taskId := task.id
  version := task.promptVersion + 1
  prompt := req.newPrompt
  source := req.source
  status := revisionStatusActive
  reason := req.reason
  confidence := none
  sourceRunId := none
  createdAt := atMs

section Change

variable (newRevisionId : List PromptRevision → String)

/--
`prompt_change_revisions`: the rows a change of prompt leaves behind, in the order of
their insertion.  `stored` are the rows whose ids are in use.
-/
def promptChangeRevisions (stored : List PromptRevision) (task : TaskRow)
    (history : List PromptRevision) (req : PromptRequest) (atMs : Int) :
    List PromptRevision :=
  if req.newPrompt = task.prompt then
    []
  else
    let rows :=
      if recorded task history then [] else [outgoingRow (newRevisionId stored) task atMs]
    rows ++ [incomingRow (newRevisionId (stored ++ rows)) task req atMs]

namespace PromptStore

/-- The rows `accept_revision` inserts, after its lookups. -/
def changeRows (s : PromptStore) (taskId : String) (op : PromptOp) :
    Except String (TaskRow × List PromptRevision) :=
  match s.getTask taskId with
  | none => .error "task not found"
  | some task =>
      match s.request taskId op.ask with
      | .error message => .error message
      | .ok req =>
          .ok (task, promptChangeRevisions newRevisionId s.revisions task
            (s.listRevisions taskId) req op.atMs)

/-- The writes of `accept_revision`: none where the prompt is in force already. -/
def changeWrites (task : TaskRow) (rows : List PromptRevision) (updatedAt : Int) :
    List PromptWrite :=
  match rows.getLast? with
  | none => []
  | some applied =>
      rows.flatMap insertRevision ++
        [.update (task.withPrompt applied updatedAt)]

/-- `accept_revision`, and an edit of the prompt, stopped after `op.cut` writes. -/
def changePrompt (s : PromptStore) (taskId : String) (op : PromptOp) :
    PromptStore × Option PromptError :=
  match s.changeRows newRevisionId taskId op with
  | .error message => (s, some (.lookup message))
  | .ok (task, rows) =>
      let done := s.executeAll ((changeWrites task rows op.updatedAt).take op.cut)
      (done.1, done.2.map .write)

end PromptStore

end Change

end Tasks
end FutureOs
