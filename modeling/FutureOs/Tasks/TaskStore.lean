import FutureOs.Lib.Fallible
import FutureOs.Tasks.Schedule
import Mathlib.Data.List.Sort

/-!
# The tasks database

`store.rs` of `future-tasks`: the rows of tasks and of their runs, and the statements the
host, the panel, the phone and the CLI issue on them.  Every write of a task sets the whole
row (all but the key and the creation time).  What the schema refuses is an error: a second
undeleted task of one name, and a second run of one slot (`UNIQUE(task_id, due_at)`, in
which a missing slot equals no other).

Errors of SQLite that have nothing to do with the data are `StoreError.external`; the
callers of the model choose where they happen.
-/

namespace FutureOs
namespace Tasks

inductive SessionPolicy
  | new
  | existing
deriving DecidableEq

inductive SessionRetention
  | keep
  | delete
deriving DecidableEq

inductive ConversationMode
  | chat
  | workspace
deriving DecidableEq

inductive RunKind
  | main
  | manual
  | chain
deriving DecidableEq

inductive RunOrigin
  | schedule
  | ui
  | cli
  | chain
deriving DecidableEq

inductive RunStatus
  | running
  | completed
  | failed
  | skipped
deriving DecidableEq

/-- The row of a task: what `next_due` reads of it, and the rest. -/
structure TaskRow extends Task where
  id : String
  name : String
  prompt : String
  promptVersion : Int
  cwd : String
  modelId : Option String
  thinkingLevel : Option String
  sessionPolicy : SessionPolicy
  conversationMode : ConversationMode
  threadId : Option String
  nextDueAt : Option Int
  pendingRequestAt : Option Int
  pendingOrigin : Option RunOrigin
  pendingActor : Option String
  sessionRetention : SessionRetention
  createdAt : Int
  updatedAt : Int

structure TaskRun where
  id : String
  taskId : String
  kind : RunKind
  origin : RunOrigin
  actor : Option String
  dueAt : Option Int
  status : RunStatus
  threadId : Option String
  sessionId : Option String
  runId : Option String
  promptVersion : Option Int
  resultSummary : Option String
  feedback : Option String
  feedbackNote : Option String
  startedAt : Option Int
  finishedAt : Option Int
  errorMessage : Option String
  sessionDeleted : Bool
  finishReason : Option String
  finishNote : Option String

/-- The row of a run: with the host that claimed it. -/
structure RunRow extends TaskRun where
  owner : Option String

inductive StoreError
  /-- An undeleted task carries that name already. -/
  | taskNameTaken (name existingId : String)
  | constraint (columns : String)
  | external
deriving DecidableEq

structure TaskStore where
  tasks : List TaskRow
  runs : List RunRow

namespace TaskStore

def empty : TaskStore where
  tasks := []
  runs := []

section Tasks

def getTask (store : TaskStore) (id : String) : Option TaskRow :=
  store.tasks.find? fun t => t.id = id

def findTaskByName (store : TaskStore) (name : String) : Option TaskRow :=
  store.tasks.find? fun t => t.name = name && t.deletedAt.isNone

/-- The index `tasks_active_name` holds another row of that name. -/
def nameTaken (store : TaskStore) (task : TaskRow) : Bool :=
  task.deletedAt.isNone &&
    store.tasks.any fun t => t.id ≠ task.id && t.deletedAt.isNone && t.name = task.name

/-- `explain_write_error`, for the index of the names. -/
def nameError (store : TaskStore) (name : String) : StoreError :=
  .taskNameTaken name (((store.findTaskByName name).map (·.id)).getD "")

def insertTask (store : TaskStore) (task : TaskRow) : Except StoreError TaskStore :=
  if (store.getTask task.id).isSome then
    .error (.constraint "tasks.id")
  else if store.nameTaken task then
    .error (store.nameError task.name)
  else
    .ok { store with tasks := store.tasks ++ [task] }

/-- An update of that row breaks the index of the names. -/
def refuses (store : TaskStore) (task : TaskRow) : Bool :=
  (store.getTask task.id).isSome && store.nameTaken task

/-- `SQL_UPDATE_TASK` sets every column but the key and the creation time. -/
def updateTask (store : TaskStore) (task : TaskRow) : Except StoreError TaskStore :=
  if store.refuses task then
    .error (store.nameError task.name)
  else
    .ok { store with
      tasks := store.tasks.map fun t =>
        if t.id = task.id then { task with createdAt := t.createdAt } else t }

/-- Due now or explicitly requested. -/
def isDue (now : Int) (t : TaskRow) : Bool :=
  t.deletedAt.isNone && t.enabled &&
    (t.pendingRequestAt.isSome ||
      (t.triggerKind == .schedule && t.nextDueAt.any fun due => due ≤ now))

/-- `ORDER BY next_due_at, created_at`, a missing time first. -/
def dueBefore (a b : TaskRow) : Bool :=
  match a.nextDueAt, b.nextDueAt with
  | none, none => a.createdAt ≤ b.createdAt
  | none, some _ => true
  | some _, none => false
  | some x, some y => x < y || (x == y && a.createdAt ≤ b.createdAt)

def listDueTasks (store : TaskStore) (now : Int) : List TaskRow :=
  (store.tasks.filter (isDue now)).insertionSort fun a b => dueBefore a b = true

end Tasks

section Runs

def getRun (store : TaskStore) (id : String) : Option RunRow :=
  store.runs.find? fun r => r.id = id

/-- The task has a run for that slot. -/
def slotTaken (store : TaskStore) (taskId : String) (slot : Int) : Bool :=
  store.runs.any fun r => r.taskId = taskId && r.dueAt = some slot

/-- `UNIQUE(task_id, due_at)`, for a row of that key. -/
def slotConflict (store : TaskStore) (id taskId : String) (dueAt : Option Int) : Bool :=
  store.runs.any fun r => r.id ≠ id && r.taskId = taskId && dueAt.isSome && r.dueAt = dueAt

def insertRunOwned (store : TaskStore) (run : TaskRun) (owner : Option String) :
    Except StoreError TaskStore :=
  if (store.getRun run.id).isSome then
    .error (.constraint "task_runs.id")
  else if store.slotConflict run.id run.taskId run.dueAt then
    .error (.constraint "task_runs.task_id, task_runs.due_at")
  else if (store.getTask run.taskId).isNone then
    .error (.constraint "FOREIGN KEY")
  else
    .ok { store with runs := store.runs ++ [{ run with owner := owner }] }

/-- `SQL_UPDATE_RUN` leaves the key, the task and the owner alone. -/
def updateRun (store : TaskStore) (run : TaskRun) : Except StoreError TaskStore :=
  if store.runs.any fun r => r.id = run.id && store.slotConflict r.id r.taskId run.dueAt then
    .error (.constraint "task_runs.task_id, task_runs.due_at")
  else
    .ok { store with
      runs := store.runs.map fun r =>
        if r.id = run.id then { run with taskId := r.taskId, owner := r.owner } else r }

def hasRunningRun (store : TaskStore) (taskId : String) : Bool :=
  store.runs.any fun r => r.taskId = taskId && r.status = .running

def runningRunOwners (store : TaskStore) : List (String × Option String) :=
  (store.runs.filter (·.status = .running)).map fun r => (r.id, r.owner)

/-- The rows that meet the condition and are still running, settled as failed. -/
def failRunning (store : TaskStore) (p : RunRow → Bool) (now : Int)
    (error reason note : String) : TaskStore :=
  { store with
    runs := store.runs.map fun r =>
      if p r && r.status = .running then
        { r with
          status := .failed
          finishedAt := some now
          errorMessage := some error
          finishReason := some reason
          finishNote := some note }
      else
        r }

def reapRunningRun (store : TaskStore) (id : String) (now : Int)
    (error reason note : String) : TaskStore :=
  store.failRunning (fun r => r.id = id) now error reason note

def markRunConversationDeleted (store : TaskStore) (id : String) : TaskStore :=
  { store with
    runs := store.runs.map fun r =>
      if r.id = id then
        { r with threadId := none, sessionId := none, sessionDeleted := true }
      else
        r }

end Runs

section TaskLemmas

variable {store store' : TaskStore}

theorem mem_of_getTask
    {id : String}
    {t : TaskRow}
    (h : store.getTask id = some t) :
    t ∈ store.tasks ∧ t.id = id := by
  unfold getTask at h
  exact ⟨List.mem_of_find?_eq_some h, by simpa using List.find?_some h⟩

theorem getTask_isSome_of_mem
    {t : TaskRow}
    (h : t ∈ store.tasks) :
    (store.getTask t.id).isSome := by
  unfold getTask
  rw [List.find?_isSome]
  exact ⟨t, h, by simp⟩

theorem insertTask_eq_ok
    {task : TaskRow} :
    store.insertTask task = .ok store' ↔
      store.getTask task.id = none ∧ store.nameTaken task = false ∧
        store' = { store with tasks := store.tasks ++ [task] } := by
  unfold insertTask
  cases hget : store.getTask task.id <;> cases hname : store.nameTaken task <;>
    simp [eq_comm]

theorem updateTask_eq_ok
    {task : TaskRow} :
    store.updateTask task = .ok store' ↔
      store.refuses task = false ∧
        store' = { store with
          tasks := store.tasks.map fun t =>
            if t.id = task.id then { task with createdAt := t.createdAt } else t } := by
  unfold updateTask
  cases store.refuses task <;> simp [eq_comm]

/-- A written row is the only one that changes, and it keeps its creation time. -/
theorem getTask_updateTask
    {task : TaskRow}
    (h : store.updateTask task = .ok store')
    (id : String) :
    store'.getTask id =
      if id = task.id then
        (store.getTask id).map fun t => { task with createdAt := t.createdAt }
      else
        store.getTask id := by
  obtain ⟨-, rfl⟩ := updateTask_eq_ok.1 h
  unfold getTask
  rw [List.find?_map]
  have hkey : (fun t : TaskRow => decide (t.id = id)) ∘ (fun t : TaskRow =>
      if t.id = task.id then { task with createdAt := t.createdAt } else t) =
        fun t : TaskRow => decide (t.id = id) := by
    funext t
    by_cases ht : t.id = task.id <;> simp [ht]
  rw [hkey]
  cases hfound : store.tasks.find? fun t => t.id = id with
  | none =>
      simp
  | some t =>
      have ht : t.id = id := by simpa using List.find?_some hfound
      by_cases hid : id = task.id
      · simp [hid, ht]
      · simp [hid, ht]

theorem getTask_updateTask_of_ne
    {task : TaskRow}
    (h : store.updateTask task = .ok store')
    {id : String}
    (hne : id ≠ task.id) :
    store'.getTask id = store.getTask id := by
  rw [getTask_updateTask h, if_neg hne]

theorem updateTask_runs
    {task : TaskRow}
    (h : store.updateTask task = .ok store') :
    store'.runs = store.runs := by
  obtain ⟨-, rfl⟩ := updateTask_eq_ok.1 h
  rfl

theorem getTask_insertTask
    {task : TaskRow}
    (h : store.insertTask task = .ok store')
    (id : String) :
    store'.getTask id = if id = task.id then some task else store.getTask id := by
  obtain ⟨hnone, -, rfl⟩ := insertTask_eq_ok.1 h
  unfold getTask at hnone ⊢
  rw [List.find?_append]
  by_cases hid : id = task.id
  · subst hid
    simp [hnone]
  · rw [if_neg hid]
    simp [Ne.symm hid]

theorem mem_listDueTasks
    {now : Int}
    {t : TaskRow} :
    t ∈ store.listDueTasks now ↔ t ∈ store.tasks ∧ isDue now t = true := by
  unfold listDueTasks
  rw [List.mem_insertionSort, List.mem_filter]

/-- Without a request, a task that is due has a slot. -/
theorem nextDueAt_of_isDue
    {now : Int}
    {t : TaskRow}
    (h : isDue now t = true)
    (hpending : t.pendingRequestAt.isSome = false) :
    ∃ slot, t.nextDueAt = some slot ∧ slot ≤ now := by
  simp only [isDue, hpending, Bool.false_or, Bool.and_eq_true, Option.any_eq_true,
    decide_eq_true_eq] at h
  exact h.2.2

/-- The keys of the tasks are distinct. -/
def TasksDistinct (store : TaskStore) : Prop :=
  (store.tasks.map (·.id)).Nodup

theorem TasksDistinct.getTask
    {t : TaskRow}
    (hdistinct : store.TasksDistinct)
    (h : t ∈ store.tasks) :
    store.getTask t.id = some t := by
  obtain ⟨t', ht'⟩ := Option.isSome_iff_exists.1 (getTask_isSome_of_mem h)
  obtain ⟨hmem, hid⟩ := mem_of_getTask ht'
  rwa [List.inj_on_of_nodup_map hdistinct hmem h hid] at ht'

theorem TasksDistinct.insertTask
    {task : TaskRow}
    (hdistinct : store.TasksDistinct)
    (h : store.insertTask task = .ok store') :
    store'.TasksDistinct := by
  obtain ⟨hnone, -, rfl⟩ := insertTask_eq_ok.1 h
  unfold TasksDistinct at hdistinct ⊢
  rw [List.map_append, List.nodup_append]
  refine ⟨hdistinct, List.nodup_singleton _, fun id hid id' hid' heq => ?_⟩
  obtain ⟨t, ht, rfl⟩ := List.mem_map.1 hid
  obtain rfl := List.mem_singleton.1 hid'
  have hsome := getTask_isSome_of_mem ht
  rw [heq, hnone] at hsome
  cases hsome

theorem map_id_updateTask
    {task : TaskRow}
    (h : store.updateTask task = .ok store') :
    store'.tasks.map (·.id) = store.tasks.map (·.id) := by
  obtain ⟨-, rfl⟩ := updateTask_eq_ok.1 h
  rw [List.map_map]
  refine List.map_congr_left fun t _ => ?_
  by_cases ht : t.id = task.id <;> simp [ht]

theorem TasksDistinct.updateTask
    {task : TaskRow}
    (hdistinct : store.TasksDistinct)
    (h : store.updateTask task = .ok store') :
    store'.TasksDistinct := by
  unfold TasksDistinct
  rw [map_id_updateTask h]
  exact hdistinct

/-- No task is a candidate twice. -/
theorem TasksDistinct.listDueTasks
    (hdistinct : store.TasksDistinct)
    (now : Int) :
    ((store.listDueTasks now).map (·.id)).Nodup := by
  have hperm := (List.perm_insertionSort (fun a b => dueBefore a b = true)
    (store.tasks.filter (isDue now))).map (·.id)
  exact hperm.nodup_iff.2 (hdistinct.sublist (List.filter_sublist.map _))

end TaskLemmas

section RunLemmas

variable {store store' : TaskStore}

theorem insertRunOwned_eq_ok
    {run : TaskRun}
    {owner : Option String} :
    store.insertRunOwned run owner = .ok store' ↔
      store.getRun run.id = none ∧ store.slotConflict run.id run.taskId run.dueAt = false ∧
        (store.getTask run.taskId).isSome ∧
          store' = { store with runs := store.runs ++ [{ run with owner := owner }] } := by
  unfold insertRunOwned
  cases hrun : store.getRun run.id <;>
    cases hslot : store.slotConflict run.id run.taskId run.dueAt <;>
      cases htask : store.getTask run.taskId <;> simp [eq_comm]

theorem updateRun_eq_ok
    {run : TaskRun} :
    store.updateRun run = .ok store' ↔
      (∀ r ∈ store.runs, r.id = run.id →
        store.slotConflict r.id r.taskId run.dueAt = false) ∧
        store' = { store with
          runs := store.runs.map fun r =>
            if r.id = run.id then { run with taskId := r.taskId, owner := r.owner } else r } := by
  unfold updateRun
  split
  · rename_i h
    simp only [List.any_eq_true, Bool.and_eq_true, decide_eq_true_eq] at h
    obtain ⟨r, hr, hid, hconflict⟩ := h
    constructor
    · intro h
      cases h
    · rintro ⟨hno, -⟩
      rw [hno r hr hid] at hconflict
      cases hconflict
  · rename_i h
    simp only [List.any_eq_true, Bool.and_eq_true, decide_eq_true_eq, not_exists, not_and,
      Bool.not_eq_true] at h
    simp only [Except.ok.injEq]
    exact ⟨fun heq => ⟨h, heq.symm⟩, fun heq => heq.2.symm⟩

@[simp] theorem failRunning_tasks
    (store : TaskStore)
    (p : RunRow → Bool)
    (now : Int)
    (error reason note : String) :
    (store.failRunning p now error reason note).tasks = store.tasks := rfl

@[simp] theorem markRunConversationDeleted_tasks
    (store : TaskStore)
    (id : String) :
    (store.markRunConversationDeleted id).tasks = store.tasks := rfl

theorem insertRunOwned_tasks
    {run : TaskRun}
    {owner : Option String}
    (h : store.insertRunOwned run owner = .ok store') :
    store'.tasks = store.tasks := by
  obtain ⟨-, -, -, rfl⟩ := insertRunOwned_eq_ok.1 h
  rfl

theorem updateRun_tasks
    {run : TaskRun}
    (h : store.updateRun run = .ok store') :
    store'.tasks = store.tasks := by
  obtain ⟨-, rfl⟩ := updateRun_eq_ok.1 h
  rfl

/-- Keys are distinct, and no slot of a task has two runs. -/
def RunsDistinct (store : TaskStore) : Prop :=
  store.runs.Pairwise fun a b =>
    a.id ≠ b.id ∧ ∀ slot, a.taskId = b.taskId → a.dueAt = some slot → b.dueAt ≠ some slot

theorem slotConflict_eq_false
    {id taskId : String}
    {dueAt : Option Int} :
    store.slotConflict id taskId dueAt = false ↔
      ∀ r ∈ store.runs, r.id ≠ id → r.taskId = taskId →
        ∀ slot, dueAt = some slot → r.dueAt ≠ some slot := by
  simp only [slotConflict, List.any_eq_false, Bool.and_eq_true, decide_eq_true_eq]
  constructor
  · rintro h r hr hid htask slot rfl heq
    exact h r hr ⟨⟨⟨hid, htask⟩, rfl⟩, heq⟩
  · rintro h r hr ⟨⟨⟨hid, htask⟩, hsome⟩, heq⟩
    obtain ⟨slot, rfl⟩ := Option.isSome_iff_exists.1 hsome
    exact h r hr hid htask slot rfl heq

theorem RunsDistinct.map
    {f : RunRow → RunRow}
    (h : store.RunsDistinct)
    (hf : ∀ r, (f r).id = r.id ∧ (f r).taskId = r.taskId ∧ (f r).dueAt = r.dueAt) :
    RunsDistinct { store with runs := store.runs.map f } := by
  unfold RunsDistinct at h ⊢
  rw [List.pairwise_map]
  refine h.imp fun {a b} hab => ?_
  rw [(hf a).1, (hf b).1, (hf a).2.1, (hf b).2.1, (hf a).2.2, (hf b).2.2]
  exact hab

theorem RunsDistinct.failRunning
    (h : store.RunsDistinct)
    (p : RunRow → Bool)
    (now : Int)
    (error reason note : String) :
    (store.failRunning p now error reason note).RunsDistinct :=
  h.map fun r => by
    split <;> exact ⟨rfl, rfl, rfl⟩

theorem RunsDistinct.markRunConversationDeleted
    (h : store.RunsDistinct)
    (id : String) :
    (store.markRunConversationDeleted id).RunsDistinct :=
  h.map fun r => by
    split <;> exact ⟨rfl, rfl, rfl⟩

theorem RunsDistinct.insertRunOwned
    {run : TaskRun}
    {owner : Option String}
    (hdistinct : store.RunsDistinct)
    (h : store.insertRunOwned run owner = .ok store') :
    store'.RunsDistinct := by
  obtain ⟨hnone, hslot, -, rfl⟩ := insertRunOwned_eq_ok.1 h
  unfold RunsDistinct at hdistinct ⊢
  rw [List.pairwise_append]
  refine ⟨hdistinct, List.pairwise_singleton _ _, fun r hr new hnew => ?_⟩
  obtain rfl := List.mem_singleton.1 hnew
  have hid : r.id ≠ run.id := by
    intro heq
    have hfind := List.find?_eq_none.1 hnone r hr
    simp [heq] at hfind
  refine ⟨hid, fun slot htask hdue heq => ?_⟩
  exact slotConflict_eq_false.1 hslot r hr hid htask slot heq hdue

theorem RunsDistinct.updateRun
    {run : TaskRun}
    (hdistinct : store.RunsDistinct)
    (h : store.updateRun run = .ok store') :
    store'.RunsDistinct := by
  obtain ⟨hslot, rfl⟩ := updateRun_eq_ok.1 h
  have hfree : ∀ r ∈ store.runs, r.id = run.id → ∀ r' ∈ store.runs, r'.id ≠ r.id →
      r'.taskId = r.taskId → ∀ slot, run.dueAt = some slot → r'.dueAt ≠ some slot :=
    fun r hr hid => slotConflict_eq_false.1 (hslot r hr hid)
  unfold RunsDistinct at hdistinct ⊢
  rw [List.pairwise_map]
  refine hdistinct.imp_of_mem fun {a b} ha hb hab => ?_
  by_cases haid : a.id = run.id
  · have hbid : b.id ≠ run.id := fun hbid => hab.1 (haid.trans hbid.symm)
    rw [if_pos haid, if_neg hbid]
    refine ⟨hbid.symm, fun slot htask hdue => ?_⟩
    exact hfree a ha haid b hb hab.1.symm htask.symm slot hdue
  · by_cases hbid : b.id = run.id
    · rw [if_neg haid, if_pos hbid]
      refine ⟨haid, fun slot htask hdue heq => ?_⟩
      exact hfree b hb hbid a ha hab.1 htask slot heq hdue
    · rw [if_neg haid, if_neg hbid]
      exact hab

end RunLemmas

end TaskStore
end Tasks
end FutureOs
