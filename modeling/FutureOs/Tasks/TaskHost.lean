import FutureOs.Lib.Machine
import FutureOs.Tasks.TaskStore
import Mathlib.Logic.Function.Basic

/-!
# The host of the tasks database

`tasks.rs` of the host: the tick loop, the executors of claimed runs and the writes of
users.  Everyone reads a whole row and writes a whole row, with any number of other steps
between the two; a claim is two writes, the insert of the run and the update of the task.

`HostState` is the store with everyone who holds a copy of a row.  Two marks that the code
does not have are kept beside it: the number of the request a row shows, counted over the
calls that made one, and for each row how many writes of users it has seen.  The stop flag
of the loop is not modelled: a loop that stops claims nothing more.
-/

namespace FutureOs
namespace Tasks

section Edits

/-- The form of a task, parsed. -/
structure TaskInput where
  name : String
  prompt : String
  cwd : String
  modelId : Option String
  thinkingLevel : Option String
  timezone : Option String
  sessionPolicy : SessionPolicy
  sessionRetention : SessionRetention
  conversationMode : ConversationMode
  triggerKind : TriggerKind
  trigger : Option Json
  enabled : Option Bool
  /-- The version `prompt_change_revisions` gives a changed prompt. -/
  promptVersion : Option Int

/-- What the phone or the CLI names; the rest stays. -/
structure TaskPatch where
  name : Option String
  prompt : Option String
  cwd : Option String
  modelId : Option (Option String)
  thinkingLevel : Option (Option String)
  timezone : Option (Option String)
  sessionPolicy : Option SessionPolicy
  sessionRetention : Option SessionRetention
  conversationMode : Option ConversationMode
  triggerKind : Option TriggerKind
  trigger : Option Json
  enabled : Option Bool
  promptVersion : Option Int

/-- A write of a user. -/
inductive TaskEdit
  | save (input : TaskInput)
  | patch (patch : TaskPatch)
  | set (patch : TaskPatch)
  | setEnabled (enabled : Bool)
  | delete
  | runNow (origin : RunOrigin) (actor : String)
  | applyRevision (prompt : String) (version : Int)

/-- `create_task`. -/
def createdTask (env : TaskEnv) (id : String) (input : TaskInput) (now : Int) : TaskRow :=
  let task : TaskRow :=
    { id := id
      name := input.name
      enabled := input.enabled.getD true
      prompt := input.prompt
      promptVersion := 1
      cwd := input.cwd
      modelId := input.modelId
      thinkingLevel := input.thinkingLevel
      timezone := input.timezone
      sessionPolicy := input.sessionPolicy
      sessionRetention := input.sessionRetention
      conversationMode := input.conversationMode
      threadId := none
      triggerKind := input.triggerKind
      triggerJson := input.trigger.getD (.obj [])
      nextDueAt := none
      pendingRequestAt := none
      pendingOrigin := none
      pendingActor := none
      createdAt := now
      updatedAt := now
      deletedAt := none }
  match input.triggerKind with
  | .schedule => { task with nextDueAt := nextDue env task.toTask (now - 1) }
  | .manual => task

/-- `update_task` of the panel. -/
def savedTask (env : TaskEnv) (task : TaskRow) (input : TaskInput) (now : Int) : TaskRow :=
  let task :=
    { task with
      name := input.name
      prompt := input.prompt
      cwd := input.cwd
      modelId := input.modelId
      thinkingLevel := input.thinkingLevel
      timezone := input.timezone <|> task.timezone
      sessionPolicy := input.sessionPolicy
      sessionRetention := input.sessionRetention
      conversationMode := input.conversationMode
      triggerKind := input.triggerKind
      triggerJson := input.trigger.getD task.triggerJson
      enabled := input.enabled.getD task.enabled
      promptVersion := input.promptVersion.getD task.promptVersion
      updatedAt := now }
  match input.triggerKind with
  | .schedule => { task with nextDueAt := nextDue env task.toTask (now - 1) }
  | .manual => { task with nextDueAt := none }

/-- The fields a patch names. -/
def TaskPatch.onto (patch : TaskPatch) (task : TaskRow) (now : Int) : TaskRow :=
  { task with
    name := patch.name.getD task.name
    prompt := patch.prompt.getD task.prompt
    cwd := patch.cwd.getD task.cwd
    modelId := patch.modelId.getD task.modelId
    thinkingLevel := patch.thinkingLevel.getD task.thinkingLevel
    timezone := patch.timezone.getD task.timezone
    sessionPolicy := patch.sessionPolicy.getD task.sessionPolicy
    sessionRetention := patch.sessionRetention.getD task.sessionRetention
    conversationMode := patch.conversationMode.getD task.conversationMode
    triggerKind := patch.triggerKind.getD task.triggerKind
    triggerJson := patch.trigger.getD task.triggerJson
    enabled := patch.enabled.getD task.enabled
    promptVersion := patch.promptVersion.getD task.promptVersion
    updatedAt := now }

/-- `task_from_payload` over a stored task: an edited task is not deleted. -/
def patchedTask (env : TaskEnv) (task : TaskRow) (patch : TaskPatch) (now : Int) : TaskRow :=
  let task := { patch.onto task now with deletedAt := none, nextDueAt := none }
  match task.triggerKind with
  | .schedule => { task with nextDueAt := nextDue env task.toTask (now - 1) }
  | .manual => task

/-- `compute_next_due` of the CLI: as if the task were enabled. -/
def computeNextDue (env : TaskEnv) (task : TaskRow) (now : Int) : Option Int :=
  nextDue env { task.toTask with enabled := true } (now - 1)

/-- `future task set`: the slot is computed again where the trigger, the zone or the
switch asks for it. -/
def setTask (env : TaskEnv) (task : TaskRow) (patch : TaskPatch) (now : Int) : TaskRow :=
  let set := patch.onto task now
  let retimed := patch.triggerKind.isSome ||
    (patch.timezone.isSome && set.triggerKind == .schedule) ||
    (patch.enabled == some true && set.triggerKind == .schedule)
  if retimed then { set with nextDueAt := computeNextDue env set now } else set

/-- `apply_task_enabled`. -/
def applyTaskEnabled (env : TaskEnv) (task : TaskRow) (enabled : Bool) (now : Int) : TaskRow :=
  let task := { task with enabled := enabled, updatedAt := now }
  if enabled && task.triggerKind == .schedule then
    { task with nextDueAt := nextDue env task.toTask now }
  else
    task

/-- The row a user writes, from the row read. -/
def TaskEdit.apply (env : TaskEnv) (edit : TaskEdit) (task : TaskRow) (now : Int) : TaskRow :=
  match edit with
  | .save input => savedTask env task input now
  | .patch changes => patchedTask env task changes now
  | .set changes => setTask env task changes now
  | .setEnabled enabled => applyTaskEnabled env task enabled now
  | .delete => { task with deletedAt := some now, enabled := false, updatedAt := now }
  | .runNow origin actor =>
      { task with
        pendingRequestAt := some now
        pendingOrigin := some origin
        pendingActor := some actor
        updatedAt := now }
  | .applyRevision prompt version =>
      { task with prompt := prompt, promptVersion := version, updatedAt := now }

/-- The edit makes a request of its own. -/
def TaskEdit.requests : TaskEdit → Bool
  | .runNow _ _ => true
  | _ => false

end Edits

section Claim

inductive ClaimReason
  | explicit
  | schedule
deriving DecidableEq

/-- An explicit request outranks the schedule. -/
def claimReason (task : TaskRow) : ClaimReason :=
  if task.pendingRequestAt.isSome then .explicit else .schedule

theorem claimReason_eq_explicit
    {task : TaskRow} :
    claimReason task = .explicit ↔ task.pendingRequestAt.isSome = true := by
  unfold claimReason
  split <;> simp_all

theorem claimReason_eq_schedule
    {task : TaskRow} :
    claimReason task = .schedule ↔ task.pendingRequestAt.isSome = false := by
  unfold claimReason
  split <;> simp_all

def candidates (store : TaskStore) (now : Int) : List TaskRow :=
  store.listDueTasks now

/-- The run a claim inserts. -/
def claimedRun (task : TaskRow) (runId : String) (now : Int) : TaskRun where
  id := runId
  taskId := task.id
  kind := match claimReason task with | .explicit => .manual | .schedule => .main
  origin :=
    match claimReason task with
    | .explicit => task.pendingOrigin.getD .cli
    | .schedule => .schedule
  actor := task.pendingActor
  dueAt := match claimReason task with | .explicit => none | .schedule => task.nextDueAt
  status := .running
  threadId := none
  sessionId := none
  runId := none
  promptVersion := some task.promptVersion
  resultSummary := none
  feedback := none
  feedbackNote := none
  startedAt := some now
  finishedAt := none
  errorMessage := none
  sessionDeleted := false
  finishReason := none
  finishNote := none

/-- The row a claim writes: the schedule goes on, the request is cleared. -/
def claimedTask (env : TaskEnv) (task : TaskRow) (now : Int) : TaskRow :=
  { task with
    nextDueAt :=
      match claimReason task with
      | .explicit => task.nextDueAt
      | .schedule => nextDue env task.toTask now
    pendingRequestAt := none
    pendingOrigin := none
    pendingActor := none
    updatedAt := now }

/-- `claim`, with the store it leaves on either way out. -/
def claim (env : TaskEnv) (owner : String) (store : TaskStore) (task : TaskRow)
    (runId : String) (now : Int) : TaskStore × Except StoreError TaskRun :=
  let run := claimedRun task runId now
  match store.insertRunOwned run (some owner) with
  | .error e => (store, .error e)
  | .ok store =>
      match store.updateTask (claimedTask env task now) with
      | .error e => (store, .error e)
      | .ok store => (store, .ok run)

/-- A running row whose executor is gone. -/
def orphaned (owner : String) (live : List String) (id : String) (rowOwner : Option String) :
    Bool :=
  match rowOwner with
  | some other => if other = owner then !live.contains id else true
  | none => true

/-- `reap_orphaned_runs`; a write that fails is left to the next tick. -/
def reapOrphanedRuns (store : TaskStore) (owner : String) (live : List String) (now : Int)
    (failing : List String) : TaskStore :=
  store.runningRunOwners.foldl
    (fun store row =>
      if orphaned owner live row.1 row.2 && !failing.contains row.1 then
        store.reapRunningRun row.1 now
          "the host that claimed this run is gone; it was settled by a later tick"
          "interrupted"
          ("no live executor owned this run: its claim row was left in `running` when the " ++
            "host stopped (killed or crashed) mid-run, so its conversation is the only record left")
      else
        store)
    store

/-- What a tick leaves: the store, the runs it claimed, and the error that stopped it. -/
structure TickResult where
  store : TaskStore
  claimed : List TaskRun
  error : Option StoreError

/-- The claims of a tick, one candidate after the other. -/
def tickClaims (env : TaskEnv) (owner : String) (now : Nat → Int) (runId : Nat → String) :
    Nat → TaskStore → List TaskRow → TickResult
  | _, store, [] => ⟨store, [], none⟩
  | k, store, task :: rest =>
      if store.hasRunningRun task.id then
        tickClaims env owner now runId k store rest
      else
        match claim env owner store task (runId k) (now k) with
        | (store, .error e) => ⟨store, [], some e⟩
        | (store, .ok run) =>
            let result := tickClaims env owner now runId (k + 1) store rest
            { result with claimed := run :: result.claimed }

/-- `tick`, with nothing between its steps; the clock is read once for each of them. -/
def tick (env : TaskEnv) (owner : String) (live : List String) (store : TaskStore)
    (reapNow listNow : Int) (now : Nat → Int) (runId : Nat → String) : TickResult :=
  let store := reapOrphanedRuns store owner live reapNow []
  tickClaims env owner now runId 0 store (candidates store listNow)

end Claim

section Executor

/-- How the conversation of a run ended. -/
inductive Outcome
  | answer (text : String)
  | empty (note : String)
  | failed (error reason note : String)

/-- The run as `execute` settles it. -/
def settledRun (run : TaskRun) (outcome : Outcome) (now : Int) : TaskRun :=
  match outcome with
  | .answer text =>
      { run with
        resultSummary := some text
        status := .completed
        finishedAt := some now
        errorMessage := none
        finishReason := some "answer"
        finishNote := none }
  | .empty note =>
      { run with
        status := .failed
        finishedAt := some now
        errorMessage :=
          some "[EMPTY_ANSWER] the run finished without any answer; its turn produced no text"
        finishReason := some "empty_answer"
        finishNote := some note }
  | .failed error reason note =>
      { run with
        status := .failed
        finishedAt := some now
        errorMessage := some error
        finishReason := some reason
        finishNote := some note }

/-- `bind_task_thread`: the row as the tick read it, with the conversation. -/
def boundTask (task : TaskRow) (threadId : String) (now : Int) : TaskRow :=
  { task with threadId := some threadId, updatedAt := now }

/-- The run of a dropped executor, if it is still running. -/
def interruptRun (store : TaskStore) (id : String) (now : Int) : Except StoreError TaskStore :=
  match store.getRun id with
  | some run =>
      if run.status = .running then
        store.updateRun
          { run.toTaskRun with
            status := .failed
            finishedAt := some now
            errorMessage := some "Desktop stopped before task completion"
            finishReason := some "interrupted"
            finishNote := some ("the host stopped while this run was in flight; its " ++
              "conversation is the only record left") }
      else
        .ok store
  | none => .ok store

end Executor

/-- A row somebody has read, with the marks it had. -/
structure RowCopy where
  task : TaskRow
  /-- The number of the request the row shows. -/
  request : Option Nat
  /-- How many writes of users the row had seen. -/
  edition : Nat

/-- Where a tick is. -/
inductive Tick
  | waiting
  | reaped
  | scanning (rest : List RowCopy)
  /-- The run is inserted, the task not yet updated. -/
  | claiming (copy : RowCopy) (run : TaskRun) (now : Int) (rest : List RowCopy)

/-- Where an executor is. -/
inductive Stage
  | opening
  | binding (threadId sessionId : String)
  | recording (threadId sessionId : String)
  | working
  | ending
  | leaving

structure Executor where
  copy : RowCopy
  run : TaskRun
  stage : Stage

structure Editor where
  copy : RowCopy
  edit : TaskEdit

/-- An explicit request that got a run. -/
structure Claimed where
  taskId : String
  request : Option Nat
  runId : String
deriving DecidableEq

structure HostState where
  store : TaskStore
  /-- The token of the process that runs the loop. -/
  owner : Option String
  live : List String
  tick : Tick
  executors : List Executor
  editors : List Editor
  /-- The request each row shows. -/
  requestOf : String → Option Nat
  edition : String → Nat
  /-- How many requests have been made. -/
  calls : Nat
  claimed : List Claimed

inductive ExecutorAction
  /-- The session is there, or could not be made. -/
  | openSession (ids : Option (String × String))
  | bind (now : Int) (fails : Bool)
  | recordSession (fails : Bool)
  | settle (outcome : Outcome) (now : Int) (fails : Bool)
  | forgetConversation
  /-- The executor ends or is dropped. -/
  | leave (now : Int) (fails : Bool)

/-- One step of the host, of an executor or of a user; `fails` is an error of SQLite. -/
inductive HostStep
  | boot (owner : String) (now : Int) (fails : Bool)
  | crash
  | tickReap (now : Int) (failing : List String)
  | tickList (now : Int) (fails : Bool)
  | tickInsert (now : Int) (runId : String) (fails : Bool)
  | tickUpdate (fails : Bool)
  | execute (runId : String) (action : ExecutorAction)
  | create (id : String) (input : TaskInput) (now : Int)
  | read (taskId : String) (edit : TaskEdit)
  | write (index : Nat) (now : Int) (fails : Bool)

namespace HostState

def start : HostState where
  store := .empty
  owner := none
  live := []
  tick := .waiting
  executors := []
  editors := []
  requestOf := fun _ => none
  edition := fun _ => 0
  calls := 0
  claimed := []

/-- The copy a reader of the row gets. -/
def copyOf (s : HostState) (task : TaskRow) : RowCopy where
  task := task
  request := s.requestOf task.id
  edition := s.edition task.id

def crash (s : HostState) : HostState :=
  { s with owner := none, live := [], tick := .waiting, executors := [] }

/-- The next candidate: skipped while a run of its task is in flight, else its run is
inserted. -/
def tickInsert (s : HostState) (owner : String) (now : Int) (runId : String) (fails : Bool)
    (copy : RowCopy) (rest : List RowCopy) : HostState :=
  if fails then
    { s with tick := .waiting }
  else if s.store.hasRunningRun copy.task.id then
    { s with tick := .scanning rest }
  else
    match s.store.insertRunOwned (claimedRun copy.task runId now) (some owner) with
    | .error _ => { s with tick := .waiting }
    | .ok store =>
        { s with
          store := store
          tick := .claiming copy (claimedRun copy.task runId now) now rest
          claimed :=
            match claimReason copy.task with
            | .explicit => s.claimed ++ [⟨copy.task.id, copy.request, runId⟩]
            | .schedule => s.claimed }

/-- The update of the claimed task; on success the executor starts. -/
def tickUpdate (env : TaskEnv) (s : HostState) (fails : Bool) (copy : RowCopy) (run : TaskRun)
    (now : Int) (rest : List RowCopy) : HostState :=
  if fails then
    { s with tick := .waiting }
  else
    match s.store.updateTask (claimedTask env copy.task now) with
    | .error _ => { s with tick := .waiting }
    | .ok store =>
        { s with
          store := store
          tick := .scanning rest
          requestOf := Function.update s.requestOf copy.task.id none
          live := run.id :: s.live
          executors := ⟨copy, run, .opening⟩ :: s.executors }

def setExecutor (s : HostState) (executor : Executor) : HostState :=
  { s with
    executors := s.executors.map fun e => if e.run.id = executor.run.id then executor else e }

def bind (s : HostState) (e : Executor) (threadId sessionId : String) (now : Int)
    (fails : Bool) : HostState :=
  if fails then
    s.setExecutor { e with stage := .ending }
  else
    match s.store.updateTask (boundTask e.copy.task threadId now) with
    | .error _ => s.setExecutor { e with stage := .ending }
    | .ok store =>
        { s.setExecutor { e with stage := .recording threadId sessionId } with
          store := store
          requestOf := Function.update s.requestOf e.copy.task.id e.copy.request }

/-- A write of the executor's own run. -/
def writeRun (s : HostState) (e : Executor) (run : TaskRun) (fails : Bool)
    (done failed : Stage) : HostState :=
  if fails then
    s.setExecutor { e with run := run, stage := failed }
  else
    match s.store.updateRun run with
    | .error _ => s.setExecutor { e with run := run, stage := failed }
    | .ok store => { s.setExecutor { e with run := run, stage := done } with store := store }

def leave (s : HostState) (e : Executor) (now : Int) (fails : Bool) : HostState :=
  { s with
    store :=
      if fails then s.store else (interruptRun s.store e.run.id now).toOption.getD s.store
    live := s.live.filter (· ≠ e.run.id)
    executors := s.executors.filter fun e' => e'.run.id ≠ e.run.id }

def execute (s : HostState) (e : Executor) : ExecutorAction → HostState
  | .openSession ids =>
      match e.stage, ids with
      | .opening, none => s.setExecutor { e with stage := .ending }
      | .opening, some (threadId, sessionId) =>
          -- Only an `existing` task without a conversation is bound.
          if e.copy.task.sessionPolicy = .existing ∧ e.copy.task.threadId = none then
            s.setExecutor { e with stage := .binding threadId sessionId }
          else
            s.setExecutor { e with stage := .recording threadId sessionId }
      | _, _ => s
  | .bind now fails =>
      match e.stage with
      | .binding threadId sessionId => s.bind e threadId sessionId now fails
      | _ => s
  | .recordSession fails =>
      match e.stage with
      | .recording threadId sessionId =>
          s.writeRun e { e.run with threadId := some threadId, sessionId := some sessionId }
            fails .working .ending
      | _ => s
  | .settle outcome now fails =>
      match e.stage, outcome with
      | .working, _ => s.writeRun e (settledRun e.run outcome now) fails .leaving .leaving
      | .ending, .failed _ _ _ =>
          s.writeRun e (settledRun e.run outcome now) fails .leaving .leaving
      | _, _ => s
  | .forgetConversation =>
      match e.stage with
      | .leaving => { s with store := s.store.markRunConversationDeleted e.run.id }
      | _ => s
  | .leave now fails => s.leave e now fails

/-- A write of a user commits: the whole row as it was read, edited. -/
def write (env : TaskEnv) (s : HostState) (e : Editor) (now : Int) (fails : Bool) : HostState :=
  if fails then
    s
  else
    match s.store.updateTask (e.edit.apply env e.copy.task now) with
    | .error _ => s
    | .ok store =>
        { s with
          store := store
          requestOf :=
            Function.update s.requestOf e.copy.task.id
              (if e.edit.requests then some s.calls else e.copy.request)
          edition := Function.update s.edition e.copy.task.id (s.edition e.copy.task.id + 1)
          calls := if e.edit.requests then s.calls + 1 else s.calls }

/-- One step; a step that is not possible changes nothing. -/
def step (env : TaskEnv) (s : HostState) : HostStep → HostState
  | .boot owner now fails =>
      match s.owner with
      | some _ => s
      | none =>
          { s with
            owner := some owner
            store :=
              if fails then
                s.store
              else
                s.store.failRunning (fun _ => true) now "interrupted" "interrupted"
                  ("the tasks loop started and found this run still marked `running`: the " ++
                    "process that claimed it is gone, so its conversation is the only record left") }
  | .crash => s.crash
  | .tickReap now failing =>
      match s.owner, s.tick with
      | some owner, .waiting =>
          { s with store := reapOrphanedRuns s.store owner s.live now failing, tick := .reaped }
      | _, _ => s
  | .tickList now fails =>
      match s.tick with
      | .reaped =>
          if fails then
            { s with tick := .waiting }
          else
            { s with tick := .scanning ((candidates s.store now).map s.copyOf) }
      | _ => s
  | .tickInsert now runId fails =>
      match s.owner, s.tick with
      | some _, .scanning [] => { s with tick := .waiting }
      | some owner, .scanning (copy :: rest) => s.tickInsert owner now runId fails copy rest
      | _, _ => s
  | .tickUpdate fails =>
      match s.tick with
      | .claiming copy run now rest => s.tickUpdate env fails copy run now rest
      | _ => s
  | .execute runId action =>
      match s.executors.find? fun e => e.run.id = runId with
      | some e => s.execute e action
      | none => s
  | .create id input now =>
      match s.store.insertTask (createdTask env id input now) with
      | .error _ => s
      | .ok store =>
          { s with store := store, requestOf := Function.update s.requestOf id none }
  | .read taskId edit =>
      match s.store.getTask taskId with
      | some task => { s with editors := s.editors ++ [⟨s.copyOf task, edit⟩] }
      | none => s
  | .write index now fails =>
      match s.editors[index]? with
      | some e => { s.write env e now fails with editors := s.editors.eraseIdx index }
      | none => s

end HostState
end Tasks
end FutureOs
