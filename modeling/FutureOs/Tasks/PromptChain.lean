import FutureOs.Tasks.PromptHistory
import Mathlib.Algebra.Order.BigOperators.Group.List

/-!
# The chain of prompt versions at every crash point

`Sound` is what a history has between two changes: versions that increase and end at the
version in force, at most one active row, and the text in force where its version is
recorded.  A change that stops before its active row, or not at all, keeps it
(`Sound.backfill`, `Sound.apply`).  One that stops between the active row and the row of
the task leaves a history that is `Ahead` of its task: the version the next change takes is
taken, and every later change is refused (`Ahead.refuses_edit`).

`chain_iff_whole` puts the two together over runs.
-/

namespace FutureOs
namespace Tasks

/-- A store with what the code does not keep: the prompts that were in force, and whether
a change of prompt has completed. -/
structure PromptTrace where
  store : PromptStore
  inForce : List String
  changed : Bool

namespace PromptStore

/-- The rows of the task, as inserted. -/
def rowsOf (s : PromptStore) (taskId : String) : List PromptRevision :=
  s.revisions.filter fun r => r.taskId = taskId

def promptOf (s : PromptStore) (taskId : String) : Option String :=
  (s.getTask taskId).map (·.prompt)

/-- The text is in force, or a row has it. -/
def Recoverable (s : PromptStore) (taskId p : String) : Prop :=
  s.promptOf taskId = some p ∨ ∃ r ∈ s.rowsOf taskId, r.prompt = p

/-- How many rows a change inserts before its active one. -/
def missing (s : PromptStore) (task : TaskRow) : Nat :=
  if recorded task (s.listRevisions task.id) then 0 else 1

/-- The change asks for nothing new, stops before its active row, or does not stop. -/
def Whole (s : PromptStore) (taskId : String) (op : PromptOp) : Prop :=
  ∀ task req, s.getTask taskId = some task → s.request taskId op.ask = .ok req →
    req.newPrompt = task.prompt ∨ op.cut ≤ s.missing task ∨ s.missing task + 3 ≤ op.cut

/-- A change of that many writes asked for a new text and made all of them. -/
def completes (s : PromptStore) (taskId : String) (op : PromptOp) : Bool :=
  match s.getTask taskId, s.request taskId op.ask with
  | some task, .ok req => req.newPrompt ≠ task.prompt && s.missing task + 3 ≤ op.cut
  | _, _ => false

end PromptStore

/-- What a history has between two changes. -/
structure Sound (s : PromptStore) (taskId : String) (task : TaskRow) : Prop where
  found : s.getTask taskId = some task
  named : s.refuses task = false
  increasing : (s.rowsOf taskId).Pairwise fun a b => a.version < b.version
  bounded : ∀ r ∈ s.rowsOf taskId, r.version ≤ task.promptVersion
  oneActive : ((s.rowsOf taskId).filter (·.isActive)).length ≤ 1
  text : ∀ r ∈ s.rowsOf taskId, r.version = task.promptVersion → r.prompt = task.prompt
  real : ∀ r ∈ s.rowsOf taskId, r.status ≠ legacyProposedStatus

/-- The version after the one in force is in the history. -/
structure Ahead (s : PromptStore) (taskId : String) (task : TaskRow) : Prop where
  found : s.getTask taskId = some task
  known : ∃ r ∈ s.rowsOf taskId, r.version = task.promptVersion ∧
    r.status ≠ legacyProposedStatus
  taken : ∃ r ∈ s.rowsOf taskId, r.version = task.promptVersion + 1

section Rows

variable {s : PromptStore}
variable {taskId : String}
variable {task : TaskRow}

theorem filter_version_eq
    {rows : List PromptRevision}
    (h : rows.Pairwise fun a b => a.version < b.version)
    {r : PromptRevision}
    (hr : r ∈ rows) :
    rows.filter (·.version = r.version) = [r] := by
  obtain ⟨before, after, rfl⟩ := List.append_of_mem hr
  obtain ⟨-, hafter, hbefore⟩ := List.pairwise_append.1 h
  have hbefore' : before.filter (·.version = r.version) = [] := by
    refine List.filter_eq_nil_iff.2 fun a ha => ?_
    have := hbefore a ha r List.mem_cons_self
    simp only [decide_eq_true_eq]
    omega
  have hafter' : after.filter (·.version = r.version) = [] := by
    refine List.filter_eq_nil_iff.2 fun a ha => ?_
    have := (List.pairwise_cons.1 hafter).1 a ha
    simp only [decide_eq_true_eq]
    omega
  simp [List.filter_append, hbefore', hafter']

theorem mem_listRevisions {r : PromptRevision} :
    r ∈ s.listRevisions taskId ↔ r ∈ s.rowsOf taskId := by
  simp [PromptStore.listRevisions, PromptStore.rowsOf]

theorem mem_rowsOf {r : PromptRevision} :
    r ∈ s.rowsOf taskId ↔ r ∈ s.revisions ∧ r.taskId = taskId := by
  simp [PromptStore.rowsOf]

theorem recorded_iff :
    recorded task (s.listRevisions taskId) = true ↔
      ∃ r ∈ s.rowsOf taskId, r.version = task.promptVersion ∧
        r.status ≠ legacyProposedStatus := by
  simp [recorded, List.any_eq_true, mem_listRevisions]

theorem Sound.id_eq (h : Sound s taskId task) : task.id = taskId :=
  (TaskStore.mem_of_getTask h.found).2

/-- In a sound history the rows come in the order of their versions. -/
theorem Sound.listRevisions_eq (h : Sound s taskId task) :
    s.listRevisions taskId = s.rowsOf taskId :=
  (h.increasing.imp fun hab => le_of_lt hab).insertionSort_eq

theorem Sound.recorded_iff (h : Sound s taskId task) :
    recorded task (s.listRevisions taskId) = true ↔
      ∃ r ∈ s.rowsOf taskId, r.version = task.promptVersion := by
  rw [Tasks.recorded_iff]
  constructor
  · rintro ⟨r, hr, hv, -⟩
    exact ⟨r, hr, hv⟩
  · rintro ⟨r, hr, hv⟩
    exact ⟨r, hr, hv, h.real r hr⟩

end Rows

section Writes

variable {s : PromptStore}

theorem execute_insert
    {rev : PromptRevision}
    (hid : ∀ r ∈ s.revisions, r.id ≠ rev.id)
    (hfree : ∀ r ∈ s.rowsOf rev.taskId, r.version ≠ rev.version)
    (htask : (s.getTask rev.taskId).isSome) :
    s.execute (.insert rev) = .ok { s with revisions := s.revisions ++ [rev] } := by
  have hid' : (s.revisions.any fun r => r.id = rev.id) = false := by
    simpa using hid
  have hfree' : s.versionTaken rev = false := by
    simpa [PromptStore.versionTaken, mem_rowsOf] using hfree
  have htask' : (s.getTask rev.taskId).isNone = false := by
    simpa using htask
  simp [PromptStore.execute, hid', hfree', htask']

/-- `UNIQUE(task_id, version)` refuses a second row of a version. -/
theorem execute_insert_taken
    {r : PromptRevision}
    (rev : PromptRevision)
    (hr : r ∈ s.rowsOf rev.taskId)
    (hv : r.version = rev.version) :
    ∃ e, s.execute (.insert rev) = .error e := by
  have htaken : s.versionTaken rev = true := by
    obtain ⟨hmem, htask⟩ := mem_rowsOf.1 hr
    simp only [PromptStore.versionTaken, List.any_eq_true, Bool.and_eq_true,
      decide_eq_true_eq]
    exact ⟨r, hmem, htask, hv⟩
  simp only [PromptStore.execute, htaken, if_true]
  split <;> exact ⟨_, rfl⟩

/-- The index of the names does not see a change of prompt. -/
theorem execute_update
    {task : TaskRow}
    (hnamed : s.refuses task = false)
    (rev : PromptRevision)
    (updatedAt : Int) :
    ∃ tables, s.toTaskStore.updateTask (task.withPrompt rev updatedAt) = .ok tables ∧
      s.execute (.update (task.withPrompt rev updatedAt)) =
        .ok { s with toTaskStore := tables } := by
  have hrefuses : s.refuses (task.withPrompt rev updatedAt) = false := hnamed
  refine ⟨_, TaskStore.updateTask_eq_ok.2 ⟨hrefuses, rfl⟩, ?_⟩
  simp only [PromptStore.execute, TaskStore.updateTask_eq_ok.2 ⟨hrefuses, rfl⟩]
  rfl

/-- A row that was written is a row the index of the names allows. -/
theorem refuses_updateTask
    {store tables : TaskStore}
    {task : TaskRow}
    (h : store.updateTask task = .ok tables) :
    tables.refuses task = false := by
  obtain ⟨hrefuses, rfl⟩ := TaskStore.updateTask_eq_ok.1 h
  simp only [TaskStore.refuses, Bool.and_eq_false_iff] at hrefuses ⊢
  rcases hrefuses with hnone | hfree
  · left
    have hget := TaskStore.getTask_updateTask h task.id
    simp only [Option.isSome_eq_false_iff, Option.isNone_iff_eq_none] at hnone ⊢
    rw [hget, if_pos rfl, hnone]
    rfl
  · right
    simp only [TaskStore.nameTaken, Bool.and_eq_false_iff, List.any_eq_false] at hfree ⊢
    refine hfree.imp_right fun hfree t ht => ?_
    obtain ⟨t₀, ht₀, rfl⟩ := List.mem_map.1 ht
    by_cases heq : t₀.id = task.id
    · simp [heq]
    · simpa [heq] using hfree t₀ ht₀

theorem executeAll_cons_ok
    {s' : PromptStore}
    {w : PromptWrite}
    (h : s.execute w = .ok s')
    (writes : List PromptWrite) :
    s.executeAll (w :: writes) = s'.executeAll writes := by
  simp [PromptStore.executeAll, h]

@[simp] theorem executeAll_nil : s.executeAll [] = (s, none) := rfl

end Writes

section Rows

/-- The store with one more row. -/
def PromptStore.push (s : PromptStore) (rev : PromptRevision) : PromptStore :=
  { s with revisions := s.revisions ++ [rev] }

/-- The store with the active rows of the task below that version superseded. -/
def PromptStore.demoted (s : PromptStore) (taskId : String) (version : Int) :
    PromptStore :=
  { s with revisions := s.revisions.map (PromptStore.demoteRow taskId version) }

/-- The store once an active row is in, the rows it replaces are superseded and the row
of the task is written. -/
def PromptStore.activated (s : PromptStore) (rev : PromptRevision) (tables : TaskStore) :
    PromptStore :=
  { (s.push rev).demoted rev.taskId rev.version with toTaskStore := tables }

variable {s : PromptStore}
variable {taskId : String}
variable {task : TaskRow}
variable {rev : PromptRevision}

@[simp] theorem push_getTask (id : String) : (s.push rev).getTask id = s.getTask id := rfl

@[simp] theorem demoted_getTask (version : Int) (id : String) :
    (s.demoted taskId version).getTask id = s.getTask id := rfl

theorem execute_demote (version : Int) :
    s.execute (.demote taskId version) = .ok (s.demoted taskId version) := rfl

theorem rowsOf_push (h : rev.taskId = taskId) :
    (s.push rev).rowsOf taskId = s.rowsOf taskId ++ [rev] := by
  simp [PromptStore.push, PromptStore.rowsOf, h]

@[simp] theorem demoteRow_taskId (version : Int) (r : PromptRevision) :
    (PromptStore.demoteRow taskId version r).taskId = r.taskId := by
  unfold PromptStore.demoteRow
  split <;> rfl

@[simp] theorem demoteRow_version (version : Int) (r : PromptRevision) :
    (PromptStore.demoteRow taskId version r).version = r.version := by
  unfold PromptStore.demoteRow
  split <;> rfl

@[simp] theorem demoteRow_prompt (version : Int) (r : PromptRevision) :
    (PromptStore.demoteRow taskId version r).prompt = r.prompt := by
  unfold PromptStore.demoteRow
  split <;> rfl

theorem demoteRow_of_le
    {version : Int}
    {r : PromptRevision}
    (h : version ≤ r.version) :
    PromptStore.demoteRow taskId version r = r := by
  rw [PromptStore.demoteRow, if_neg]
  rintro ⟨-, hlt, -⟩
  omega

/-- A row of the task below that version is not active afterwards. -/
theorem isActive_demoteRow
    {version : Int}
    {r : PromptRevision}
    (htask : r.taskId = taskId)
    (h : r.version < version) :
    (PromptStore.demoteRow taskId version r).isActive = false := by
  unfold PromptStore.demoteRow
  split
  · simp [PromptRevision.isActive, revisionStatusSuperseded, revisionStatusActive]
  · rename_i hkeep
    simpa [htask, h] using hkeep

theorem demoteRow_real
    {version : Int}
    {r : PromptRevision}
    (h : r.status ≠ legacyProposedStatus) :
    (PromptStore.demoteRow taskId version r).status ≠ legacyProposedStatus := by
  unfold PromptStore.demoteRow
  split
  · simp [revisionStatusSuperseded, legacyProposedStatus]
  · exact h

theorem rowsOf_demoted
    (s : PromptStore)
    (taskId : String)
    (version : Int) :
    (s.demoted taskId version).rowsOf taskId =
      (s.rowsOf taskId).map (PromptStore.demoteRow taskId version) := by
  simp only [PromptStore.demoted, PromptStore.rowsOf, List.filter_map]
  congr 2
  funext r
  simp

theorem rowsOf_activated
    (htask : rev.taskId = taskId)
    (tables : TaskStore) :
    (s.activated rev tables).rowsOf taskId =
      (s.rowsOf taskId).map (PromptStore.demoteRow taskId rev.version) ++ [rev] := by
  have hrows := rowsOf_demoted (s.push rev) taskId rev.version
  rw [rowsOf_push htask, List.map_append, List.map_singleton,
    demoteRow_of_le (le_refl rev.version)] at hrows
  rw [← hrows, ← htask]
  rfl

end Rows

section Sound

variable {s : PromptStore}
variable {taskId : String}
variable {task : TaskRow}
variable {rev : PromptRevision}

/-- The row the history lacks, of the version in force, is not an active one. -/
theorem Sound.backfill
    (h : Sound s taskId task)
    (htask : rev.taskId = taskId)
    (hversion : rev.version = task.promptVersion)
    (hprompt : rev.prompt = task.prompt)
    (hstatus : rev.status = revisionStatusSuperseded)
    (hnew : ∀ r ∈ s.rowsOf taskId, r.version ≠ task.promptVersion) :
    Sound (s.push rev) taskId task := by
  have hinactive : rev.isActive = false := by
    simp [PromptRevision.isActive, hstatus, revisionStatusSuperseded, revisionStatusActive]
  refine ⟨h.found, h.named, ?_, ?_, ?_, ?_, ?_⟩ <;> rw [rowsOf_push htask]
  · refine List.pairwise_append.2 ⟨h.increasing, List.pairwise_singleton _ _, ?_⟩
    intro a ha b hb
    obtain rfl := List.mem_singleton.1 hb
    rw [hversion]
    exact lt_of_le_of_ne (h.bounded a ha) (hnew a ha)
  · intro r hr
    rcases List.mem_append.1 hr with hr | hr
    · exact h.bounded r hr
    · obtain rfl := List.mem_singleton.1 hr
      exact hversion.le
  · simpa [List.filter_append, hinactive] using h.oneActive
  · intro r hr hv
    rcases List.mem_append.1 hr with hr | hr
    · exact h.text r hr hv
    · obtain rfl := List.mem_singleton.1 hr
      exact hprompt
  · intro r hr
    rcases List.mem_append.1 hr with hr | hr
    · exact h.real r hr
    · obtain rfl := List.mem_singleton.1 hr
      simp [hstatus, revisionStatusSuperseded, legacyProposedStatus]

/-- The active row, the demotion it brings and the row of the task, all three made. -/
theorem Sound.apply
    (h : Sound s taskId task)
    (htask : rev.taskId = taskId)
    (hversion : rev.version = task.promptVersion + 1)
    (hstatus : rev.status = revisionStatusActive)
    {tables : TaskStore}
    {updatedAt : Int}
    (hupdate : s.toTaskStore.updateTask (task.withPrompt rev updatedAt) = .ok tables) :
    Sound (s.activated rev tables) taskId
      (task.withPrompt rev updatedAt) := by
  have hbelow : ∀ r ∈ s.rowsOf taskId, r.version < rev.version := fun r hr => by
    have := h.bounded r hr
    omega
  refine ⟨?_, refuses_updateTask hupdate, ?_, ?_, ?_, ?_, ?_⟩
  · have hget := TaskStore.getTask_updateTask hupdate taskId
    rw [TaskRow.withPrompt_id, if_pos h.id_eq.symm, h.found] at hget
    exact hget
  all_goals rw [rowsOf_activated htask]
  · refine List.pairwise_append.2 ⟨?_, List.pairwise_singleton _ _, ?_⟩
    · exact List.pairwise_map.2 (h.increasing.imp fun hab => by simpa using hab)
    · intro a ha b hb
      obtain ⟨r₀, hr₀, rfl⟩ := List.mem_map.1 ha
      obtain rfl := List.mem_singleton.1 hb
      simpa using hbelow r₀ hr₀
  · intro r hr
    rcases List.mem_append.1 hr with hr | hr
    · obtain ⟨r₀, hr₀, rfl⟩ := List.mem_map.1 hr
      rw [demoteRow_version]
      exact (hbelow r₀ hr₀).le
    · obtain rfl := List.mem_singleton.1 hr
      exact le_refl _
  · have hnone : ((s.rowsOf taskId).map
        (PromptStore.demoteRow taskId rev.version)).filter (·.isActive) = [] := by
      refine List.filter_eq_nil_iff.2 fun r hr => ?_
      obtain ⟨r₀, hr₀, rfl⟩ := List.mem_map.1 hr
      simp [isActive_demoteRow (mem_rowsOf.1 hr₀).2 (hbelow r₀ hr₀)]
    rw [List.filter_append, hnone]
    exact List.length_filter_le _ _
  · intro r hr hv
    rcases List.mem_append.1 hr with hr | hr
    · obtain ⟨r₀, hr₀, rfl⟩ := List.mem_map.1 hr
      have := hbelow r₀ hr₀
      simp only [demoteRow_version, TaskRow.withPrompt_promptVersion] at hv
      omega
    · obtain rfl := List.mem_singleton.1 hr
      rfl
  · intro r hr
    rcases List.mem_append.1 hr with hr | hr
    · obtain ⟨r₀, hr₀, rfl⟩ := List.mem_map.1 hr
      exact demoteRow_real (h.real r₀ hr₀)
    · obtain rfl := List.mem_singleton.1 hr
      simp [hstatus, revisionStatusActive, legacyProposedStatus]

end Sound

/-- `later` has a row for every row of `s`: of its version, with its text. -/
def Extends (s later : PromptStore) (taskId : String) : Prop :=
  ∀ r ∈ s.rowsOf taskId, ∃ r' ∈ later.rowsOf taskId,
    r'.version = r.version ∧ r'.prompt = r.prompt

section Active

variable {s : PromptStore}
variable {taskId : String}
variable {task : TaskRow}
variable {rev : PromptRevision}

theorem Extends.refl (s : PromptStore) (taskId : String) : Extends s s taskId :=
  fun r hr => ⟨r, hr, rfl, rfl⟩

theorem Extends.trans
    {mid later : PromptStore}
    (h : Extends s mid taskId)
    (h' : Extends mid later taskId) :
    Extends s later taskId := by
  intro r hr
  obtain ⟨r₁, hr₁, hv₁, hp₁⟩ := h r hr
  obtain ⟨r₂, hr₂, hv₂, hp₂⟩ := h' r₁ hr₁
  exact ⟨r₂, hr₂, hv₂.trans hv₁, hp₂.trans hp₁⟩

theorem extends_push (htask : rev.taskId = taskId) : Extends s (s.push rev) taskId := by
  intro r hr
  refine ⟨r, ?_, rfl, rfl⟩
  rw [rowsOf_push htask]
  exact List.mem_append_left _ hr

theorem extends_demoted (version : Int) : Extends s (s.demoted taskId version) taskId := by
  intro r hr
  refine ⟨PromptStore.demoteRow taskId version r, ?_, demoteRow_version _ _,
    demoteRow_prompt _ _⟩
  rw [rowsOf_demoted]
  exact List.mem_map_of_mem hr

/-- The rest of a change once the version in force is recorded. -/
def activeWrites (task : TaskRow) (rev : PromptRevision) (updatedAt : Int) :
    List PromptWrite :=
  [.insert rev, .demote rev.taskId rev.version,
    .update (task.withPrompt rev updatedAt)]

/-- A change of a sound history whose version in force is recorded. -/
structure NextRow (s : PromptStore) (taskId : String) (task : TaskRow)
    (rev : PromptRevision) : Prop where
  sound : Sound s taskId task
  known : ∃ r ∈ s.rowsOf taskId, r.version = task.promptVersion
  task_eq : rev.taskId = taskId
  version_eq : rev.version = task.promptVersion + 1
  active : rev.status = revisionStatusActive
  fresh : ∀ r ∈ s.revisions, r.id ≠ rev.id

theorem NextRow.execute_insert (h : NextRow s taskId task rev) :
    s.execute (.insert rev) = .ok (s.push rev) := by
  refine Tasks.execute_insert h.fresh (fun r hr => ?_) ?_
  · rw [h.task_eq] at hr
    have := h.sound.bounded r hr
    have := h.version_eq
    omega
  · rw [h.task_eq, h.sound.found]
    rfl

/-- Once the active row is in, the row of the task is behind the history. -/
theorem NextRow.ahead (h : NextRow s taskId task rev) :
    Ahead (s.push rev) taskId task := by
  obtain ⟨r, hr, hv⟩ := h.known
  refine ⟨h.sound.found, ⟨r, ?_, hv, h.sound.real r hr⟩, ⟨rev, ?_, h.version_eq⟩⟩ <;>
    rw [rowsOf_push h.task_eq]
  · exact List.mem_append_left _ hr
  · exact List.mem_append_right _ (List.mem_singleton_self _)

theorem Ahead.demoted
    (h : Ahead s taskId task)
    (version : Int) :
    Ahead (s.demoted taskId version) taskId task := by
  obtain ⟨r, hr, hv, hreal⟩ := h.known
  obtain ⟨r', hr', hv'⟩ := h.taken
  refine ⟨h.found, ⟨PromptStore.demoteRow taskId version r, ?_,
    (demoteRow_version version r).trans hv, demoteRow_real hreal⟩,
    ⟨PromptStore.demoteRow taskId version r', ?_,
      (demoteRow_version version r').trans hv'⟩⟩ <;> rw [rowsOf_demoted]
  · exact List.mem_map_of_mem hr
  · exact List.mem_map_of_mem hr'

theorem NextRow.execute_update
    (h : NextRow s taskId task rev)
    (updatedAt : Int) :
    ∃ tables,
      s.toTaskStore.updateTask (task.withPrompt rev updatedAt) = .ok tables ∧
      s.executeAll (activeWrites task rev updatedAt) = (s.activated rev tables, none) := by
  have hnamed : ((s.push rev).demoted rev.taskId rev.version).refuses task = false :=
    h.sound.named
  obtain ⟨tables, hupdate, hexecute⟩ := Tasks.execute_update hnamed rev updatedAt
  refine ⟨tables, hupdate, ?_⟩
  rw [activeWrites, executeAll_cons_ok h.execute_insert, executeAll_cons_ok (execute_demote _),
    executeAll_cons_ok hexecute]
  rfl

/-- Where such a change stops: before its first write, ahead of the task, or done. -/
theorem NextRow.executeAll_take
    (h : NextRow s taskId task rev)
    (updatedAt : Int)
    (n : Nat) :
    ∃ later, s.executeAll ((activeWrites task rev updatedAt).take n) = (later, none) ∧
      Extends s later taskId ∧
        (n = 0 ∧ later = s ∨
          0 < n ∧ n < 3 ∧ Ahead later taskId task ∨
          3 ≤ n ∧ (∃ r ∈ later.rowsOf taskId, r.version = rev.version) ∧
            Sound later taskId (task.withPrompt rev updatedAt)) := by
  match n with
  | 0 => exact ⟨s, rfl, Extends.refl _ _, .inl ⟨rfl, rfl⟩⟩
  | 1 =>
      refine ⟨s.push rev, executeAll_cons_ok h.execute_insert _, extends_push h.task_eq,
        .inr (.inl ⟨by omega, by omega, h.ahead⟩)⟩
  | 2 =>
      refine ⟨(s.push rev).demoted taskId rev.version, ?_,
        (extends_push h.task_eq).trans (extends_demoted _),
        .inr (.inl ⟨by omega, by omega, h.ahead.demoted _⟩)⟩
      rw [← h.task_eq]
      exact (executeAll_cons_ok h.execute_insert _).trans (executeAll_cons_ok (execute_demote _) _)
  | n + 3 =>
      obtain ⟨tables, hupdate, hexecute⟩ := h.execute_update updatedAt
      refine ⟨s.activated rev tables, by simpa [activeWrites] using hexecute, ?_,
        .inr (.inr ⟨by omega, ⟨rev, ?_, rfl⟩,
          h.sound.apply h.task_eq h.version_eq h.active hupdate⟩)⟩
      · intro r hr
        refine ⟨PromptStore.demoteRow taskId rev.version r, ?_, demoteRow_version _ _,
          demoteRow_prompt _ _⟩
        rw [rowsOf_activated h.task_eq]
        exact List.mem_append_left _ (List.mem_map_of_mem hr)
      · rw [rowsOf_activated h.task_eq]
        exact List.mem_append_right _ (List.mem_singleton_self _)

end Active

section Change

variable {newRevisionId : List PromptRevision → String}
variable {s : PromptStore}
variable {taskId : String}
variable {task : TaskRow}
variable {op : PromptOp}
variable {req : PromptRequest}

theorem changeRows_eq
    (hfound : s.getTask taskId = some task)
    (hreq : s.request taskId op.ask = .ok req) :
    s.changeRows newRevisionId taskId op =
      .ok (task, promptChangeRevisions newRevisionId s.revisions task
        (s.listRevisions taskId) req op.atMs) := by
  simp [PromptStore.changeRows, hfound, hreq]

/-- A text that is in force already writes nothing. -/
theorem changePrompt_same
    (hfound : s.getTask taskId = some task)
    (hreq : s.request taskId op.ask = .ok req)
    (hsame : req.newPrompt = task.prompt) :
    s.changePrompt newRevisionId taskId op = (s, none) := by
  simp [PromptStore.changePrompt, changeRows_eq hfound hreq, promptChangeRevisions, hsame,
    PromptStore.changeWrites]

/-- Where the version in force is recorded, a change is its active row and what follows. -/
theorem changePrompt_recorded
    (h : Sound s taskId task)
    (hreq : s.request taskId op.ask = .ok req)
    (hne : req.newPrompt ≠ task.prompt)
    (hrec : recorded task (s.listRevisions taskId) = true) :
    s.changePrompt newRevisionId taskId op =
      Prod.map id (Option.map .write) (s.executeAll
        ((activeWrites task (incomingRow (newRevisionId s.revisions) task req op.atMs)
          op.updatedAt).take op.cut)) := by
  simp [PromptStore.changePrompt, changeRows_eq h.found hreq, promptChangeRevisions, hne,
    hrec, PromptStore.changeWrites, PromptStore.insertRevision, PromptRevision.isActive,
    activeWrites, incomingRow, Prod.map]

/-- Where it is not, the row the history lacks comes first. -/
theorem changePrompt_unrecorded
    (newRevisionId : List PromptRevision → String)
    (h : Sound s taskId task)
    (hreq : s.request taskId op.ask = .ok req)
    (hne : req.newPrompt ≠ task.prompt)
    (hrec : recorded task (s.listRevisions taskId) = false) :
    s.changePrompt newRevisionId taskId op =
      Prod.map id (Option.map .write) (s.executeAll
        ((.insert (outgoingRow (newRevisionId s.revisions) task op.atMs) ::
          activeWrites task
            (incomingRow (newRevisionId (s.revisions ++
              [outgoingRow (newRevisionId s.revisions) task op.atMs])) task req op.atMs)
            op.updatedAt).take op.cut)) := by
  simp [PromptStore.changePrompt, changeRows_eq h.found hreq, promptChangeRevisions, hne,
    hrec, PromptStore.changeWrites, PromptStore.insertRevision, PromptRevision.isActive,
    activeWrites, incomingRow, outgoingRow, Prod.map, revisionStatusActive,
    revisionStatusSuperseded]

/--
A change of a sound history is refused nowhere.  It keeps the history sound where it stops
before its active row, leaves it ahead of the task where it stops before the row of the
task, and puts the new text in force where it does not stop.
-/
theorem Sound.changePrompt
    (hnewId : ∀ rows : List PromptRevision, ∀ r ∈ rows, r.id ≠ newRevisionId rows)
    (h : Sound s taskId task)
    (hreq : s.request taskId op.ask = .ok req)
    (hne : req.newPrompt ≠ task.prompt) :
    ∃ later, s.changePrompt newRevisionId taskId op = (later, none) ∧
      Extends s later taskId ∧
        (op.cut ≤ s.missing task ∧ Sound later taskId task ∨
          s.missing task < op.cut ∧ op.cut < s.missing task + 3 ∧ Ahead later taskId task ∨
          s.missing task + 3 ≤ op.cut ∧
            (∃ r ∈ later.rowsOf taskId, r.prompt = task.prompt) ∧
              ∃ task', Sound later taskId task' ∧ task'.prompt = req.newPrompt ∧
                ∃ r ∈ later.rowsOf taskId, r.version = task'.promptVersion) := by
  cases hrec : recorded task (s.listRevisions taskId) with
  | true =>
      have hmissing : s.missing task = 0 := by
        simp [PromptStore.missing, h.id_eq, hrec]
      obtain ⟨known, hknown, hversion⟩ := h.recorded_iff.1 hrec
      have hnext : NextRow s taskId task
          (incomingRow (newRevisionId s.revisions) task req op.atMs) :=
        ⟨h, ⟨known, hknown, hversion⟩, h.id_eq, rfl, rfl, hnewId _⟩
      obtain ⟨later, hlater, hext, hcases⟩ := hnext.executeAll_take op.updatedAt op.cut
      refine ⟨later, ?_, hext, ?_⟩
      · rw [changePrompt_recorded h hreq hne hrec, hlater]
        rfl
      · rw [hmissing]
        rcases hcases with ⟨hcut, rfl⟩ | ⟨hcut, hcut', hahead⟩ | ⟨hcut, hrow, hsound⟩
        · exact .inl ⟨hcut.le, h⟩
        · exact .inr (.inl ⟨hcut, by omega, hahead⟩)
        · obtain ⟨r, hr, -, hp⟩ := hext known hknown
          exact .inr (.inr ⟨by omega, ⟨r, hr, hp.trans (h.text known hknown hversion)⟩,
            _, hsound, rfl, hrow⟩)
  | false =>
      have hmissing : s.missing task = 1 := by
        simp [PromptStore.missing, h.id_eq, hrec]
      have hnone : ∀ r ∈ s.rowsOf taskId, r.version ≠ task.promptVersion := by
        intro r hr hv
        rw [h.recorded_iff.2 ⟨r, hr, hv⟩] at hrec
        cases hrec
      set back := outgoingRow (newRevisionId s.revisions) task op.atMs with hback
      have htask : back.taskId = taskId := h.id_eq
      have hsound : Sound (s.push back) taskId task :=
        h.backfill htask rfl rfl rfl hnone
      have hmem : back ∈ (s.push back).rowsOf taskId := by
        rw [rowsOf_push htask]
        exact List.mem_append_right _ (List.mem_singleton_self _)
      have hinsert : s.execute (.insert back) = .ok (s.push back) := by
        refine execute_insert (hnewId _) (fun r hr => hnone r ?_) ?_
        · rwa [← htask]
        · rw [htask, h.found]
          rfl
      have hnext : NextRow (s.push back) taskId task
          (incomingRow (newRevisionId (s.revisions ++ [back])) task req op.atMs) :=
        ⟨hsound, ⟨back, hmem, rfl⟩, h.id_eq, rfl, rfl, hnewId _⟩
      have hchange := changePrompt_unrecorded newRevisionId h hreq hne hrec
      rw [← hback] at hchange
      rw [hmissing]
      match hcut : op.cut with
      | 0 =>
          refine ⟨s, ?_, Extends.refl _ _, .inl ⟨by omega, h⟩⟩
          rw [hchange, hcut]
          rfl
      | n + 1 =>
          obtain ⟨later, hlater, hext, hcases⟩ := hnext.executeAll_take op.updatedAt n
          refine ⟨later, ?_, (extends_push htask).trans hext, ?_⟩
          · rw [hchange, hcut, List.take_succ_cons, executeAll_cons_ok hinsert, hlater]
            rfl
          · rcases hcases with ⟨hn, rfl⟩ | ⟨hn, hn', hahead⟩ | ⟨hn, hrow, hsound'⟩
            · exact .inl ⟨by omega, hsound⟩
            · exact .inr (.inl ⟨by omega, by omega, hahead⟩)
            · obtain ⟨r, hr, -, hp⟩ := hext back hmem
              exact .inr (.inr ⟨by omega, ⟨r, hr, hp⟩, _, hsound', rfl, hrow⟩)

/-- Once the history is ahead of the task, a change to any other text is refused. -/
theorem Ahead.refuses_edit
    (h : Ahead s taskId task)
    (hne : op.ask = .edit req.newPrompt req.source req.reason)
    (hcut : 0 < op.cut)
    (hprompt : req.newPrompt ≠ task.prompt) :
    (s.changePrompt newRevisionId taskId op).2 ≠ none := by
  obtain ⟨taken, htaken, hversion⟩ := h.taken
  have hid : task.id = taskId := (TaskStore.mem_of_getTask h.found).2
  have hreq : s.request taskId op.ask = .ok req := by
    rw [hne]
    rfl
  have hrec : recorded task (s.listRevisions taskId) = true := recorded_iff.2 h.known
  obtain ⟨e, he⟩ := execute_insert_taken
    (incomingRow (newRevisionId s.revisions) task req op.atMs)
    (show taken ∈ s.rowsOf task.id by rwa [hid]) hversion
  obtain ⟨n, hn⟩ : ∃ n, op.cut = n + 1 := ⟨op.cut - 1, by omega⟩
  simp [PromptStore.changePrompt, changeRows_eq h.found hreq, promptChangeRevisions,
    hprompt, hrec, PromptStore.changeWrites, PromptStore.insertRevision,
    PromptStore.executeAll, hn, he]

end Change

section Runs

variable (newRevisionId : List PromptRevision → String)
variable (taskId : String)

/-- The trace of a store nobody has changed yet. -/
def PromptTrace.start (store : PromptStore) : PromptTrace where
  store := store
  inForce := (store.promptOf taskId).toList
  changed := false

def PromptTrace.step (t : PromptTrace) (op : PromptOp) : PromptTrace :=
  let later := (t.store.changePrompt newRevisionId taskId op).1
  { store := later
    inForce := t.inForce ++ (later.promptOf taskId).toList
    changed := t.changed || t.store.completes taskId op }

/-- The complete chain of a task's prompts. -/
structure PromptChain (t : PromptTrace) : Prop where
  /-- Once a change has completed, the prompt in force has one row, with its text. -/
  recorded : t.changed = true → ∃ task, t.store.getTask taskId = some task ∧
    ∃ r, (t.store.listRevisions taskId).filter (·.version = task.promptVersion) = [r] ∧
      r.prompt = task.prompt
  oneActive : ((t.store.listRevisions taskId).filter (·.isActive)).length ≤ 1
  increasing : (t.store.rowsOf taskId).Pairwise fun a b => a.version < b.version
  recoverable : ∀ p ∈ t.inForce, t.store.Recoverable taskId p
  /-- No change is refused, and one that makes all its writes is in force. -/
  later : ∀ op req, t.store.request taskId op.ask = .ok req →
    (t.store.changePrompt newRevisionId taskId op).2 = none ∧
      (4 ≤ op.cut →
        (t.store.changePrompt newRevisionId taskId op).1.promptOf taskId =
          some req.newPrompt)

/-- What every whole change keeps. -/
structure Kept (t : PromptTrace) (task : TaskRow) : Prop where
  sound : Sound t.store taskId task
  known : t.changed = true →
    ∃ r ∈ t.store.rowsOf taskId, r.version = task.promptVersion
  recoverable : ∀ p ∈ t.inForce, t.store.Recoverable taskId p

variable {newRevisionId}
variable {taskId}

theorem missing_le (s : PromptStore) (task : TaskRow) : s.missing task ≤ 1 := by
  unfold PromptStore.missing
  split <;> omega

theorem Sound.promptOf
    {s : PromptStore}
    {task : TaskRow}
    (h : Sound s taskId task) :
    s.promptOf taskId = some task.prompt := by
  rw [PromptStore.promptOf, h.found]
  rfl

/-- What was recoverable stays so while rows stay and the prompt that leaves has one. -/
theorem Extends.recoverable
    {s later : PromptStore}
    {task : TaskRow}
    {p : String}
    (hext : Extends s later taskId)
    (hfound : s.getTask taskId = some task)
    (hleft : later.promptOf taskId = some task.prompt ∨
      ∃ r ∈ later.rowsOf taskId, r.prompt = task.prompt)
    (h : s.Recoverable taskId p) :
    later.Recoverable taskId p := by
  rcases h with hp | ⟨r, hr, rfl⟩
  · rw [PromptStore.promptOf, hfound] at hp
    obtain rfl : task.prompt = p := Option.some.inj hp
    exact hleft
  · obtain ⟨r', hr', -, hp⟩ := hext r hr
    exact .inr ⟨r', hr', hp⟩

theorem Kept.start
    {store : PromptStore}
    {task : TaskRow}
    (h : Sound store taskId task) :
    Kept taskId (PromptTrace.start taskId store) task where
  sound := h
  known := nofun
  recoverable := by
    intro p hp
    rw [PromptTrace.start, h.promptOf] at hp
    obtain rfl := List.mem_singleton.1 hp
    exact .inl h.promptOf

theorem Kept.chain
    (hnewId : ∀ rows : List PromptRevision, ∀ r ∈ rows, r.id ≠ newRevisionId rows)
    {t : PromptTrace}
    {task : TaskRow}
    (h : Kept taskId t task) :
    PromptChain newRevisionId taskId t := by
  refine ⟨fun hchanged => ?_, ?_, h.sound.increasing, h.recoverable, fun op req hreq => ?_⟩
  · obtain ⟨r, hr, hv⟩ := h.known hchanged
    refine ⟨task, h.sound.found, r, ?_, h.sound.text r hr hv⟩
    rw [h.sound.listRevisions_eq, ← hv]
    exact filter_version_eq h.sound.increasing hr
  · rw [h.sound.listRevisions_eq]
    exact h.sound.oneActive
  · by_cases hsame : req.newPrompt = task.prompt
    · rw [changePrompt_same h.sound.found hreq hsame]
      exact ⟨rfl, fun _ => hsame ▸ h.sound.promptOf⟩
    · obtain ⟨later, hlater, -, hcases⟩ := h.sound.changePrompt hnewId hreq hsame
      have := missing_le t.store task
      rw [hlater]
      refine ⟨rfl, fun hcut => ?_⟩
      rcases hcases with ⟨hcut', -⟩ | ⟨-, hcut', -⟩ | ⟨-, -, task', hsound, hprompt, -⟩
      · omega
      · omega
      · exact hsound.promptOf.trans (congrArg some hprompt)

/-- A whole change keeps the chain. -/
theorem Kept.step
    (hnewId : ∀ rows : List PromptRevision, ∀ r ∈ rows, r.id ≠ newRevisionId rows)
    {t : PromptTrace}
    {task : TaskRow}
    (h : Kept taskId t task)
    {op : PromptOp}
    (hwhole : t.store.Whole taskId op) :
    ∃ task', Kept taskId (PromptTrace.step newRevisionId taskId t op) task' := by
  have hkeep : ∀ later, (t.store.changePrompt newRevisionId taskId op).1 = later →
      Extends t.store later taskId → Sound later taskId task →
      t.store.completes taskId op = false →
        Kept taskId (PromptTrace.step newRevisionId taskId t op) task := by
    rintro later rfl hext hsound hno
    refine ⟨hsound, fun hchanged => ?_, fun p hp => ?_⟩
    · rw [PromptTrace.step, hno, Bool.or_false] at hchanged
      obtain ⟨r, hr, hv⟩ := h.known hchanged
      obtain ⟨r', hr', hv', -⟩ := hext r hr
      exact ⟨r', hr', hv'.trans hv⟩
    · rcases List.mem_append.1 hp with hp | hp
      · exact hext.recoverable h.sound.found (.inl hsound.promptOf) (h.recoverable p hp)
      · exact .inl (Option.mem_toList.1 hp)
  cases hreq : t.store.request taskId op.ask with
  | error message =>
      refine ⟨task, hkeep t.store ?_ (Extends.refl _ _) h.sound ?_⟩
      · simp [PromptStore.changePrompt, PromptStore.changeRows, h.sound.found, hreq]
      · simp [PromptStore.completes, h.sound.found, hreq]
  | ok req =>
      by_cases hsame : req.newPrompt = task.prompt
      · refine ⟨task, hkeep t.store ?_ (Extends.refl _ _) h.sound ?_⟩
        · rw [changePrompt_same h.sound.found hreq hsame]
        · simp [PromptStore.completes, h.sound.found, hreq, hsame]
      · obtain ⟨later, hlater, hext, hcases⟩ := h.sound.changePrompt hnewId hreq hsame
        have hfirst : (t.store.changePrompt newRevisionId taskId op).1 = later := by
          rw [hlater]
        have hcut := hwhole task req h.sound.found hreq
        rcases hcases with ⟨hlow, hsound⟩ | ⟨hlow, hhigh, -⟩ |
          ⟨-, hleft, task', hsound, -, hrow⟩
        · refine ⟨task, hkeep later hfirst hext hsound ?_⟩
          simp only [PromptStore.completes, h.sound.found, hreq, Bool.and_eq_false_iff,
            decide_eq_false_iff_not]
          exact .inr (by omega)
        · exact absurd hcut (by simp only [hsame, false_or]; omega)
        · refine ⟨task', ?_, fun _ => ?_, fun p hp => ?_⟩
          · rw [PromptTrace.step, hfirst]
            exact hsound
          · rw [PromptTrace.step, hfirst]
            exact hrow
          · simp only [PromptTrace.step, hfirst] at hp ⊢
            rcases List.mem_append.1 hp with hp | hp
            · exact hext.recoverable h.sound.found (.inr hleft) (h.recoverable p hp)
            · exact .inl (Option.mem_toList.1 hp)

/-- A change that stops between its active row and the row of the task breaks it. -/
theorem Kept.not_chain
    (hnewId : ∀ rows : List PromptRevision, ∀ r ∈ rows, r.id ≠ newRevisionId rows)
    {t : PromptTrace}
    {task : TaskRow}
    (h : Kept taskId t task)
    {op : PromptOp}
    (hcut : ¬ t.store.Whole taskId op) :
    ¬ PromptChain newRevisionId taskId (PromptTrace.step newRevisionId taskId t op) := by
  intro hchain
  simp only [PromptStore.Whole, not_forall, not_or] at hcut
  obtain ⟨task', req, hfound, hreq, hne, hlow, hhigh⟩ := hcut
  obtain rfl : task = task' := Option.some.inj (h.sound.found.symm.trans hfound)
  obtain ⟨later, hlater, -, hcases⟩ := h.sound.changePrompt hnewId hreq hne
  have hahead : Ahead later taskId task := by
    rcases hcases with ⟨hcut, -⟩ | ⟨-, -, hahead⟩ | ⟨hcut, -⟩
    · exact absurd hcut hlow
    · exact hahead
    · exact absurd hcut hhigh
  have hnext := hchain.later
    { ask := .edit req.newPrompt req.source req.reason
      atMs := op.atMs
      updatedAt := op.updatedAt
      cut := 1 } req rfl
  rw [PromptTrace.step, hlater] at hnext
  exact hahead.refuses_edit rfl Nat.one_pos hne hnext.1

/--
Through a run of prompt changes, each stopped anywhere, the chain of a task's prompts is
complete in every state exactly if no change that asks for a new text stops between its
active row and the row of the task.
-/
theorem chain_iff_whole
    (hnewId : ∀ rows : List PromptRevision, ∀ r ∈ rows, r.id ≠ newRevisionId rows)
    {store : PromptStore}
    {task : TaskRow}
    (hstart : Sound store taskId task)
    (ops : List PromptOp) :
    (∀ k, PromptChain newRevisionId taskId
        (Machine.run (PromptTrace.step newRevisionId taskId)
          (PromptTrace.start taskId store) (ops.take k))) ↔
      Machine.Guarded (PromptTrace.step newRevisionId taskId)
        (fun t op => t.store.Whole taskId op) (PromptTrace.start taskId store) ops := by
  refine Machine.forall_run_iff_guarded_of_invariant
    (I := fun t => ∃ task, Kept taskId t task) ?_ ?_ ?_ ⟨task, Kept.start hstart⟩ ops
  · rintro t ⟨task, h⟩
    exact h.chain hnewId
  · rintro t op ⟨task, h⟩ hwhole
    exact h.step hnewId hwhole
  · rintro t op ⟨task, h⟩ hcut
    exact h.not_chain hnewId hcut

/-! ## A task whose second version is in force -/

/-- An id longer than every id in use. -/
def longerId (rows : List PromptRevision) : String :=
  String.ofList (List.replicate ((rows.map (·.id.length)).sum + 1) 'r')

theorem longerId_fresh (rows : List PromptRevision) :
    ∀ r ∈ rows, r.id ≠ longerId rows := by
  intro r hr heq
  have hle := List.le_sum_of_mem (List.mem_map_of_mem hr : r.id.length ∈ rows.map (·.id.length))
  have hlen := congrArg String.length heq
  simp only [longerId, String.length_ofList, List.length_replicate] at hlen
  omega

def dailyTask : TaskRow where
  enabled := true
  deletedAt := none
  triggerKind := .manual
  triggerJson := .obj []
  timezone := none
  id := "tsk"
  name := "daily"
  prompt := "second"
  promptVersion := 2
  cwd := "/"
  modelId := none
  thinkingLevel := none
  sessionPolicy := .new
  conversationMode := .workspace
  threadId := none
  nextDueAt := none
  pendingRequestAt := none
  pendingOrigin := none
  pendingActor := none
  sessionRetention := .keep
  createdAt := 0
  updatedAt := 0

def dailyRow (id : String) (version : Int) (prompt status : String) : PromptRevision where
  id := id
  taskId := "tsk"
  version := version
  prompt := prompt
  source := "user"
  status := status
  reason := none
  confidence := none
  sourceRunId := none
  createdAt := 0

def dailyStore : PromptStore where
  tasks := [dailyTask]
  runs := []
  revisions :=
    [dailyRow "a" 1 "first" revisionStatusSuperseded,
      dailyRow "b" 2 "second" revisionStatusActive]

/-- Back to the first version, stopped after that many writes. -/
def dailyRevert (cut : Nat) : PromptOp where
  ask := .accept "a"
  atMs := 1
  updatedAt := 1
  cut := cut

theorem sound_dailyStore : Sound dailyStore "tsk" dailyTask := by
  refine ⟨rfl, by decide, ?_, ?_, by decide, ?_, ?_⟩
  · decide
  all_goals
    simp [PromptStore.rowsOf, dailyStore, dailyRow, dailyTask, revisionStatusSuperseded,
      revisionStatusActive, legacyProposedStatus]

theorem chain_iff_whole_daily :
    (∀ k, PromptChain longerId "tsk"
        (Machine.run (PromptTrace.step longerId "tsk")
          (PromptTrace.start "tsk" dailyStore)
          ([dailyRevert 0, dailyRevert 3, dailyRevert 1].take k))) ↔
      Machine.Guarded (PromptTrace.step longerId "tsk")
        (fun t op => t.store.Whole "tsk" op) (PromptTrace.start "tsk" dailyStore)
        [dailyRevert 0, dailyRevert 3, dailyRevert 1] :=
  chain_iff_whole longerId_fresh sound_dailyStore _

/--
A revert that stops right after its active row leaves two active rows; one that stops
before the row of the task makes every later change of that task fail.
-/
theorem stopped_revert_breaks_chain :
    ¬ PromptChain longerId "tsk"
        (PromptTrace.step longerId "tsk" (PromptTrace.start "tsk" dailyStore)
          (dailyRevert 1)) ∧
      ¬ PromptChain longerId "tsk"
        (PromptTrace.step longerId "tsk" (PromptTrace.start "tsk" dailyStore)
          (dailyRevert 2)) := by
  constructor
  · intro h
    exact absurd h.oneActive (by decide +kernel)
  · intro h
    have hrefused : ((PromptTrace.step longerId "tsk" (PromptTrace.start "tsk" dailyStore)
        (dailyRevert 2)).store.changePrompt longerId "tsk" (dailyRevert 3)).2 ≠ none := by
      decide +kernel
    exact hrefused (h.later (dailyRevert 3) ⟨"first", revisionSourceRollback,
      some "applied revision a (v1)"⟩ (by rfl)).1

end Runs

end Tasks
end FutureOs
