import FutureOs.Tasks.ClaimedOnce

/-!
# The tick loop goes on

A tick stops at the first claim the database refuses.  It refuses the run of a slot that
has one, so a row whose slot is taken stops this tick and every later one; and it refuses
the update of a row whose name another task has taken since.  A row's slot is taken exactly
while its claim is between its two writes, on the runs whose steps are all `Unwedging`: no
crash and no failed write there, and no write of a row back to a slot that was claimed.

From there a tick claims whatever is due: the runs that are still running after the reaping
belong to live executors, and all others are inserted.
-/

namespace FutureOs
namespace Tasks

/-- The slot at which the row comes due by its schedule. -/
def armedSlot (t : TaskRow) : Option Int :=
  if t.enabled && t.deletedAt.isNone && t.triggerKind == .schedule then t.nextDueAt else none

namespace TaskStore

variable {store store' : TaskStore}

section Names

/-- No two tasks that are not deleted share a name. -/
def NamesDistinct (store : TaskStore) : Prop :=
  ∀ t ∈ store.tasks, store.nameTaken t = false

theorem nameTaken_eq_false
    {task : TaskRow} :
    store.nameTaken task = false ↔
      (task.deletedAt.isNone = true → ∀ t ∈ store.tasks, t.id ≠ task.id →
        t.deletedAt.isNone = true → t.name ≠ task.name) := by
  simp only [nameTaken, Bool.and_eq_false_imp, List.any_eq_false, Bool.and_eq_true,
    decide_eq_true_eq, not_and, and_imp]

theorem NamesDistinct.insertTask
    {task : TaskRow}
    (h : store.NamesDistinct)
    (hinsert : store.insertTask task = .ok store') :
    store'.NamesDistinct := by
  obtain ⟨-, hfree, rfl⟩ := insertTask_eq_ok.1 hinsert
  intro t ht
  rw [nameTaken_eq_false]
  intro hactive t' ht' hid hactive' hname
  rcases List.mem_append.1 ht with hold | hnew <;>
    rcases List.mem_append.1 ht' with hold' | hnew'
  · exact nameTaken_eq_false.1 (h t hold) hactive t' hold' hid hactive' hname
  · obtain rfl := List.mem_singleton.1 hnew'
    exact nameTaken_eq_false.1 hfree hactive' t hold hid.symm hactive hname.symm
  · obtain rfl := List.mem_singleton.1 hnew
    exact nameTaken_eq_false.1 hfree hactive t' hold' hid hactive' hname
  · obtain rfl := List.mem_singleton.1 hnew
    obtain rfl := List.mem_singleton.1 hnew'
    exact hid rfl

theorem NamesDistinct.updateTask
    {task : TaskRow}
    (h : store.NamesDistinct)
    (hupdate : store.updateTask task = .ok store') :
    store'.NamesDistinct := by
  obtain ⟨hrefuses, rfl⟩ := updateTask_eq_ok.1 hupdate
  -- Where there is a row to write, its name is free.
  have hfree : ∀ t ∈ store.tasks, t.id = task.id → store.nameTaken task = false := by
    intro t ht hid
    have hrow := getTask_isSome_of_mem ht
    rw [hid] at hrow
    simpa [refuses, hrow] using hrefuses
  intro t ht
  rw [nameTaken_eq_false]
  intro hactive t' ht' hid hactive' hname
  obtain ⟨a, ha, rfl⟩ := List.mem_map.1 ht
  obtain ⟨b, hb, rfl⟩ := List.mem_map.1 ht'
  by_cases haid : a.id = task.id <;> by_cases hbid : b.id = task.id
  · simp [haid, hbid] at hid
  · simp only [haid, hbid, if_true, if_false] at hactive hactive' hid hname
    exact nameTaken_eq_false.1 (hfree a ha haid) hactive b hb hid hactive' hname
  · simp only [haid, hbid, if_true, if_false] at hactive hactive' hid hname
    exact nameTaken_eq_false.1 (hfree b hb hbid) hactive' a ha (Ne.symm hid) hactive hname.symm
  · simp only [haid, hbid, if_false] at hactive hactive' hid hname
    exact nameTaken_eq_false.1 (h a ha) hactive b hb hid hactive' hname

end Names

section Slots

/-- What the constraint on the runs reads of them. -/
def runKey (r : RunRow) : String × String × Option Int :=
  (r.id, r.taskId, r.dueAt)

theorem slotTaken_eq_true
    {taskId : String}
    {slot : Int} :
    store.slotTaken taskId slot = true ↔
      ∃ r ∈ store.runs, r.taskId = taskId ∧ r.dueAt = some slot := by
  simp [slotTaken]

theorem slotTaken_eq_false
    {taskId : String}
    {slot : Int} :
    store.slotTaken taskId slot = false ↔
      ∀ r ∈ store.runs, r.taskId = taskId → r.dueAt ≠ some slot := by
  simp [slotTaken]

theorem exists_of_runKey
    (hkeys : store'.runs.map runKey = store.runs.map runKey)
    {r : RunRow}
    (hr : r ∈ store.runs) :
    ∃ r' ∈ store'.runs, r'.id = r.id ∧ r'.taskId = r.taskId ∧ r'.dueAt = r.dueAt := by
  have hmem : runKey r ∈ store'.runs.map runKey := hkeys ▸ List.mem_map_of_mem hr
  obtain ⟨r', hr', hkey⟩ := List.mem_map.1 hmem
  simp only [runKey, Prod.mk.injEq] at hkey
  exact ⟨r', hr', hkey⟩

theorem RunsDistinct.of_runKey
    (hkeys : store'.runs.map runKey = store.runs.map runKey)
    (h : store.RunsDistinct) :
    store'.RunsDistinct := by
  let apart (a b : String × String × Option Int) : Prop :=
    a.1 ≠ b.1 ∧ ∀ slot, a.2.1 = b.2.1 → a.2.2 = some slot → b.2.2 ≠ some slot
  have hpairs : (store.runs.map runKey).Pairwise apart := List.pairwise_map.2 h
  rw [← hkeys] at hpairs
  exact List.pairwise_map.1 hpairs

theorem RunsDistinct.eq_of_id
    (h : store.RunsDistinct)
    {r r' : RunRow}
    (hr : r ∈ store.runs)
    (hr' : r' ∈ store.runs)
    (hid : r.id = r'.id) :
    r = r' := by
  have hnodup : (store.runs.map (·.id)).Nodup :=
    List.pairwise_map.2 (h.imp fun hab => hab.1)
  exact List.inj_on_of_nodup_map hnodup hr hr' hid

theorem slotTaken_of_runKey
    (hkeys : store'.runs.map runKey = store.runs.map runKey)
    (taskId : String)
    (slot : Int) :
    store'.slotTaken taskId slot = store.slotTaken taskId slot := by
  have hany : ∀ runs : List RunRow, (runs.any fun r => r.taskId = taskId && r.dueAt = some slot) =
      (runs.map runKey).any fun k => k.2.1 = taskId && k.2.2 = some slot := by
    intro runs
    rw [List.any_map]
    rfl
  unfold slotTaken
  rw [hany, hany, hkeys]

theorem slotTaken_insertRunOwned
    {run : TaskRun}
    {owner : Option String}
    (h : store.insertRunOwned run owner = .ok store')
    (taskId : String)
    (slot : Int) :
    store'.slotTaken taskId slot = true ↔
      store.slotTaken taskId slot = true ∨ run.taskId = taskId ∧ run.dueAt = some slot := by
  obtain ⟨-, -, -, rfl⟩ := insertRunOwned_eq_ok.1 h
  simp only [slotTaken, List.any_append, List.any_cons, List.any_nil, Bool.or_false,
    Bool.or_eq_true, Bool.and_eq_true, decide_eq_true_eq]

/-- A run of a free slot is not refused. -/
theorem insertRunOwned_of_free
    {run : TaskRun}
    (owner : Option String)
    (hfresh : ∀ r ∈ store.runs, r.id ≠ run.id)
    (hfree : ∀ slot, run.dueAt = some slot → store.slotTaken run.taskId slot = false)
    (htask : (store.getTask run.taskId).isSome = true) :
    ∃ store', store.insertRunOwned run owner = .ok store' := by
  refine ⟨_, insertRunOwned_eq_ok.2 ⟨?_, ?_, htask, rfl⟩⟩
  · refine List.find?_eq_none.2 fun r hr => ?_
    simpa using hfresh r hr
  · refine slotConflict_eq_false.2 fun r hr _ htaskId slot hslot => ?_
    exact slotTaken_eq_false.1 (hfree slot hslot) r hr htaskId

theorem runKey_map
    {f : RunRow → RunRow}
    (hf : ∀ r ∈ store.runs, (f r).id = r.id ∧ (f r).taskId = r.taskId ∧ (f r).dueAt = r.dueAt) :
    (store.runs.map f).map runKey = store.runs.map runKey := by
  rw [List.map_map]
  refine List.map_congr_left fun r hr => ?_
  obtain ⟨hid, htask, hdue⟩ := hf r hr
  simp only [Function.comp_apply, runKey, hid, htask, hdue]

theorem runKey_failRunning
    (store : TaskStore)
    (p : RunRow → Bool)
    (now : Int)
    (error reason note : String) :
    (store.failRunning p now error reason note).runs.map runKey = store.runs.map runKey :=
  runKey_map fun r _ => by
    split <;> exact ⟨rfl, rfl, rfl⟩

theorem runKey_markRunConversationDeleted
    (store : TaskStore)
    (id : String) :
    (store.markRunConversationDeleted id).runs.map runKey = store.runs.map runKey :=
  runKey_map fun r _ => by
    split <;> exact ⟨rfl, rfl, rfl⟩

/-- An update that leaves the slot of its run alone leaves all keys alone. -/
theorem runKey_updateRun
    {run : TaskRun}
    (hslot : ∀ r ∈ store.runs, r.id = run.id → r.dueAt = run.dueAt)
    (h : store.updateRun run = .ok store') :
    store'.runs.map runKey = store.runs.map runKey := by
  obtain ⟨-, rfl⟩ := updateRun_eq_ok.1 h
  refine runKey_map fun r hr => ?_
  split
  · rename_i hid
    exact ⟨hid.symm, rfl, (hslot r hr hid).symm⟩
  · exact ⟨rfl, rfl, rfl⟩

end Slots

end TaskStore

namespace HostState

/-! ## The condition -/

/-- The row does not come due at a slot that has a run. -/
def Free (s : HostState) (task : TaskRow) : Prop :=
  ∀ slot, armedSlot task = some slot → s.store.slotTaken task.id slot = false

/-- The row of a claim between its two writes does not come due at its slot any more. -/
def Unarmed (s : HostState) : Prop :=
  ∀ copy run now rest, s.tick = .claiming copy run now rest →
    ∀ slot, run.dueAt = some slot →
      ∀ t, s.store.getTask copy.task.id = some t → armedSlot t ≠ some slot

/-- The steps that leave no row at a slot that was claimed. -/
def Unwedging (env : TaskEnv) (s : HostState) : HostStep → Prop
  | .crash => s.Unarmed
  | .tickUpdate fails =>
      match s.tick with
      | .claiming copy run now _ =>
          if fails then
            s.Unarmed
          else
            -- The name is still free, and the clock is not behind a slot that was claimed.
            s.store.refuses copy.task = false ∧
              (run.dueAt.isSome = true → ∀ r ∈ s.store.runs, r.taskId = copy.task.id →
                ∀ slot, r.dueAt = some slot → slot ≤ now)
      | _ => True
  | .execute runId (.bind _ fails) =>
      match s.executors.find? fun e => e.run.id = runId with
      | some ⟨copy, _, .binding _ _⟩ => s.commits copy.task fails = true → s.Free copy.task
      | _ => True
  | .write index now fails =>
      match s.editors[index]? with
      | some e =>
          s.commits (e.edit.apply env e.copy.task now) fails = true →
            s.Free (e.edit.apply env e.copy.task now)
      | none => True
  | _ => True

/-! ## The invariant -/

/-- The slot is between the two writes of its claim. -/
def MidSlot (s : HostState) (taskId : String) (slot : Int) : Prop :=
  ∃ copy run now rest, s.tick = .claiming copy run now rest ∧
    copy.task.id = taskId ∧ run.dueAt = some slot

/-- The run has a row, with its slot. -/
def Inserted (store : TaskStore) (run : TaskRun) : Prop :=
  ∃ r ∈ store.runs, r.id = run.id ∧ r.dueAt = run.dueAt

/-- A row whose slot has a run is the one whose claim is under way. -/
structure Unwedged (s : HostState) : Prop where
  tasks : s.store.TasksDistinct
  names : s.store.NamesDistinct
  runs : s.store.RunsDistinct
  foreign : ∀ r ∈ s.store.runs, (s.store.getTask r.taskId).isSome = true
  armed : ∀ t ∈ s.store.tasks, ∀ slot, armedSlot t = some slot →
    s.store.slotTaken t.id slot = true → s.MidSlot t.id slot
  copies : ∀ copy ∈ s.tick.copies, (s.store.getTask copy.task.id).isSome = true ∧
    ∃ now, TaskStore.isDue now copy.task = true
  ids : (s.tick.copies.map (·.task.id)).Nodup
  waiting : ∀ copy ∈ s.tick.rest, s.Free copy.task
  claiming : ∀ copy run now rest, s.tick = .claiming copy run now rest →
    run = claimedRun copy.task run.id now ∧ Inserted s.store run ∧
      ∀ slot, armedSlot copy.task = some slot → s.store.slotTaken copy.task.id slot = true →
        run.dueAt = some slot
  carried : ∀ e ∈ s.executors, Inserted s.store e.run
  live : ∀ id ∈ s.live, ∃ e ∈ s.executors, e.run.id = id

variable {env : TaskEnv} {s s' : HostState}

theorem Inserted.of_runKey
    {store store' : TaskStore}
    {run : TaskRun}
    (h : Inserted store run)
    (hkeys : store'.runs.map TaskStore.runKey = store.runs.map TaskStore.runKey) :
    Inserted store' run := by
  obtain ⟨r, hr, hid, hdue⟩ := h
  obtain ⟨r', hr', hid', -, hdue'⟩ := TaskStore.exists_of_runKey hkeys hr
  exact ⟨r', hr', hid'.trans hid, hdue'.trans hdue⟩

/-- A step that leaves the tasks and the keys of the runs alone. -/
theorem Unwedged.sameKeys
    (h : s.Unwedged)
    (htasks : s'.store.tasks = s.store.tasks)
    (hkeys : s'.store.runs.map TaskStore.runKey = s.store.runs.map TaskStore.runKey)
    (hcopies : s'.tick.copies.Sublist s.tick.copies)
    (hrest : s'.tick.rest.Sublist s.tick.rest)
    (hmid : ∀ t ∈ s.store.tasks, ∀ slot, armedSlot t = some slot → s.MidSlot t.id slot →
      s'.MidSlot t.id slot)
    (hclaiming : ∀ copy run now rest, s'.tick = .claiming copy run now rest →
      s.tick = .claiming copy run now rest)
    (hexecutors : ∀ e ∈ s'.executors, ∃ e₀ ∈ s.executors,
      e.run.id = e₀.run.id ∧ e.run.dueAt = e₀.run.dueAt)
    (hlive : ∀ id ∈ s'.live, ∃ e ∈ s'.executors, e.run.id = id) :
    s'.Unwedged := by
  have hget : ∀ id, s'.store.getTask id = s.store.getTask id := by
    intro id
    simp only [TaskStore.getTask, htasks]
  have htaken := TaskStore.slotTaken_of_runKey hkeys
  refine ⟨?_, ?_, h.runs.of_runKey hkeys, ?_, ?_, ?_, h.ids.sublist (hcopies.map _), ?_, ?_, ?_,
    hlive⟩
  · unfold TaskStore.TasksDistinct
    rw [htasks]
    exact h.tasks
  · unfold TaskStore.NamesDistinct TaskStore.nameTaken
    rw [htasks]
    exact h.names
  · intro r hr
    obtain ⟨r', hr', -, htask, -⟩ := TaskStore.exists_of_runKey hkeys.symm hr
    rw [hget, ← htask]
    exact h.foreign r' hr'
  · intro t ht slot hslot htaken'
    rw [htasks] at ht
    rw [htaken] at htaken'
    exact hmid t ht slot hslot (h.armed t ht slot hslot htaken')
  · intro copy hcopy
    rw [hget]
    exact h.copies copy (hcopies.subset hcopy)
  · intro copy hcopy slot hslot
    rw [htaken]
    exact h.waiting copy (hrest.subset hcopy) slot hslot
  · intro copy run now rest heq
    obtain ⟨hrun, hinserted, htakenRun⟩ := h.claiming copy run now rest (hclaiming _ _ _ _ heq)
    refine ⟨hrun, hinserted.of_runKey hkeys, fun slot hslot => ?_⟩
    rw [htaken]
    exact htakenRun slot hslot
  · intro e he
    obtain ⟨e₀, he₀, hid, hdue⟩ := hexecutors e he
    obtain ⟨r, hr, hrid, hrdue⟩ := (h.carried e₀ he₀).of_runKey hkeys
    exact ⟨r, hr, hrid.trans hid.symm, hrdue.trans hdue.symm⟩

/-- A step of an executor or of the host beside the tick. -/
theorem Unwedged.sameTick
    (h : s.Unwedged)
    (htasks : s'.store.tasks = s.store.tasks)
    (hkeys : s'.store.runs.map TaskStore.runKey = s.store.runs.map TaskStore.runKey)
    (htick : s'.tick = s.tick)
    (hexecutors : ∀ e ∈ s'.executors, ∃ e₀ ∈ s.executors,
      e.run.id = e₀.run.id ∧ e.run.dueAt = e₀.run.dueAt)
    (hlive : ∀ id ∈ s'.live, ∃ e ∈ s'.executors, e.run.id = id) :
    s'.Unwedged := by
  refine h.sameKeys htasks hkeys (by rw [htick]) (by rw [htick]) ?_ ?_ hexecutors hlive
  · rintro t - slot - ⟨copy, run, now, rest, heq, hmid⟩
    exact ⟨copy, run, now, rest, htick.trans heq, hmid⟩
  · intro copy run now rest heq
    exact htick.symm.trans heq

/-- A step that ends the tick where no row is left at the slot of its claim. -/
theorem Unwedged.endTick
    (h : s.Unwedged)
    (hunarmed : s.Unarmed)
    (htasks : s'.store.tasks = s.store.tasks)
    (hkeys : s'.store.runs.map TaskStore.runKey = s.store.runs.map TaskStore.runKey)
    (hnone : s'.tick.copies = [])
    (hexecutors : s'.executors ⊆ s.executors)
    (hlive : ∀ id ∈ s'.live, ∃ e ∈ s'.executors, e.run.id = id) :
    s'.Unwedged := by
  have hrest : s'.tick.rest = [] := by
    cases htick : s'.tick <;> simp_all [Tick.copies, Tick.rest]
  refine h.sameKeys htasks hkeys (by simp [hnone]) (by simp [hrest]) ?_ ?_
    (fun e he => ⟨e, hexecutors he, rfl, rfl⟩) hlive
  · rintro t ht slot hslot ⟨copy, run, now, rest, heq, hid, hdue⟩
    have hrow := h.tasks.getTask ht
    rw [← hid] at hrow
    exact absurd hslot (hunarmed copy run now rest heq slot hdue t hrow)
  · intro copy run now rest heq
    rw [heq] at hnone
    cases hnone

/-- Outside a claim nothing is between two writes. -/
theorem unarmed_of_not_claiming
    (h : s.tick.isClaiming = false) :
    s.Unarmed :=
  fun copy run now rest heq => absurd heq (Tick.ne_claiming h copy run now rest)

/-! ## The steps of a tick -/

theorem Unwedged.tickList
    (h : s.Unwedged)
    (htick : s.tick = .reaped)
    (now : Int) :
    Unwedged { s with tick := .scanning ((candidates s.store now).map s.copyOf) } := by
  have hidle : s.tick.isClaiming = false := by
    rw [htick]
    rfl
  have hno := Tick.ne_claiming hidle
  have hcopy : ∀ copy ∈ (candidates s.store now).map s.copyOf,
      ∃ t ∈ s.store.tasks, TaskStore.isDue now t = true ∧ copy = s.copyOf t := by
    intro copy hmem
    obtain ⟨t, ht, rfl⟩ := List.mem_map.1 hmem
    obtain ⟨htasks, hdue⟩ := TaskStore.mem_listDueTasks.1 ht
    exact ⟨t, htasks, hdue, rfl⟩
  refine ⟨h.tasks, h.names, h.runs, h.foreign, ?_, ?_, ?_, ?_, ?_, h.carried, h.live⟩
  · intro t ht slot hslot htaken
    obtain ⟨copy, run, now, rest, heq, -⟩ := h.armed t ht slot hslot htaken
    exact absurd heq (hno copy run now rest)
  · intro copy hmem
    obtain ⟨t, ht, hdue, rfl⟩ := hcopy copy hmem
    exact ⟨TaskStore.getTask_isSome_of_mem ht, now, hdue⟩
  · have hids := h.tasks.listDueTasks now
    simpa [Tick.copies, candidates, HostState.copyOf, Function.comp_def] using hids
  · intro copy hmem slot hslot
    obtain ⟨t, ht, -, rfl⟩ := hcopy copy hmem
    by_contra htaken
    rw [Bool.not_eq_false] at htaken
    obtain ⟨copy, run, now, rest, heq, -⟩ := h.armed t ht slot hslot htaken
    exact hno copy run now rest heq
  · intro copy run now rest heq
    cases heq

/-- The slot a claim takes is the one its row comes due at. -/
theorem claimedRun_dueAt
    {task : TaskRow}
    {listed : Int}
    (hdue : TaskStore.isDue listed task = true)
    {runId : String}
    {now slot : Int}
    (hslot : (claimedRun task runId now).dueAt = some slot) :
    armedSlot task = some slot := by
  cases hreason : claimReason task with
  | explicit =>
      simp [claimedRun, hreason] at hslot
  | schedule =>
      have hpending := claimReason_eq_schedule.1 hreason
      simp only [TaskStore.isDue, hpending, Bool.false_or, Bool.and_eq_true] at hdue
      obtain ⟨⟨hdeleted, henabled⟩, hkind, -⟩ := hdue
      have hnext : task.nextDueAt = some slot := by
        simpa [claimedRun, hreason] using hslot
      simp only [armedSlot, henabled, hdeleted, hkind, Bool.and_self, if_true, hnext]

/-- A candidate without a run in flight gets its run. -/
theorem Unwedged.insert
    (h : s.Unwedged)
    {copy : RowCopy}
    {rest : List RowCopy}
    (htick : s.tick = .scanning (copy :: rest))
    (owner : Option String)
    (now : Int)
    {runId : String}
    (hfresh : ∀ r ∈ s.store.runs, r.id ≠ runId) :
    ∃ store, s.store.insertRunOwned (claimedRun copy.task runId now) owner = .ok store := by
  obtain ⟨hrow, listed, hdue⟩ := h.copies copy (by simp [htick, Tick.copies])
  refine TaskStore.insertRunOwned_of_free owner hfresh (fun slot hslot => ?_) hrow
  exact h.waiting copy (by simp [htick, Tick.rest]) slot (claimedRun_dueAt hdue hslot)

theorem Unwedged.tickInsert
    (h : s.Unwedged)
    {copy : RowCopy}
    {rest : List RowCopy}
    (htick : s.tick = .scanning (copy :: rest))
    (owner : String)
    (now : Int)
    (runId : String)
    (fails : Bool) :
    (s.tickInsert owner now runId fails copy rest).Unwedged := by
  have hidle : s.tick.isClaiming = false := by
    rw [htick]
    rfl
  have hno := Tick.ne_claiming hidle
  have hcopies : ∀ c ∈ copy :: rest, (s.store.getTask c.task.id).isSome = true ∧
      ∃ now, TaskStore.isDue now c.task = true := by
    simpa only [htick, Tick.copies] using h.copies
  have hids : ((copy :: rest).map (·.task.id)).Nodup := by
    simpa only [htick, Tick.copies] using h.ids
  have hwaiting : ∀ c ∈ copy :: rest, s.Free c.task := by
    simpa only [htick, Tick.rest] using h.waiting
  unfold HostState.tickInsert
  split
  · exact h.endTick (unarmed_of_not_claiming hidle) rfl rfl rfl (List.Subset.refl _) h.live
  split
  · refine h.sameKeys rfl rfl ?_ ?_ ?_ ?_ (fun e he => ⟨e, he, rfl, rfl⟩) h.live
    · simp [htick, Tick.copies]
    · simp [htick, Tick.rest]
    · rintro t - slot - ⟨copy, run, now, rest, heq, -⟩
      exact absurd heq (hno copy run now rest)
    · intro copy run now rest heq
      cases heq
  split
  · exact h.endTick (unarmed_of_not_claiming hidle) rfl rfl rfl (List.Subset.refl _) h.live
  rename_i store hinsert
  have htasks := TaskStore.insertRunOwned_tasks hinsert
  have hget : ∀ id, store.getTask id = s.store.getTask id := by
    intro id
    simp only [TaskStore.getTask, htasks]
  have htaken := TaskStore.slotTaken_insertRunOwned hinsert
  have hruns : store.runs = s.store.runs ++
      [{ claimedRun copy.task runId now with owner := some owner }] := by
    obtain ⟨-, -, -, rfl⟩ := TaskStore.insertRunOwned_eq_ok.1 hinsert
    rfl
  refine ⟨?_, ?_, h.runs.insertRunOwned hinsert, ?_, ?_, ?_, hids, ?_, ?_, ?_, h.live⟩
  · unfold TaskStore.TasksDistinct
    rw [htasks]
    exact h.tasks
  · unfold TaskStore.NamesDistinct TaskStore.nameTaken
    rw [htasks]
    exact h.names
  · intro r hr
    dsimp only at hr ⊢
    rw [hget]
    rw [hruns] at hr
    rcases List.mem_append.1 hr with hr | hr
    · exact h.foreign r hr
    · obtain rfl := List.mem_singleton.1 hr
      exact (hcopies copy List.mem_cons_self).1
  · intro t ht slot hslot htakenNow
    dsimp only at ht htakenNow
    rw [htasks] at ht
    rcases (htaken t.id slot).1 htakenNow with hbefore | ⟨hid, hdue⟩
    · obtain ⟨copy, run, now, rest, heq, -⟩ := h.armed t ht slot hslot hbefore
      exact absurd heq (hno copy run now rest)
    · exact ⟨copy, _, now, rest, rfl, hid, hdue⟩
  · intro c hc
    dsimp only
    rw [hget]
    exact hcopies c hc
  · intro c hc slot hslot
    have hother : c.task.id ≠ copy.task.id := by
      intro heq
      rw [List.map_cons, List.nodup_cons] at hids
      exact hids.1 (heq ▸ List.mem_map_of_mem hc)
    rw [← Bool.not_eq_true, htaken]
    rintro (hbefore | ⟨hid, -⟩)
    · rw [hwaiting c (List.mem_cons_of_mem _ hc) slot hslot] at hbefore
      cases hbefore
    · exact hother hid.symm
  · intro c run now' rest' heq
    cases heq
    refine ⟨rfl, ⟨_, hruns ▸ List.mem_append_right _ (List.mem_singleton.2 rfl), rfl, rfl⟩, ?_⟩
    intro slot hslot htakenNow
    rcases (htaken copy.task.id slot).1 htakenNow with hbefore | ⟨-, hdue⟩
    · rw [hwaiting copy List.mem_cons_self slot hslot] at hbefore
      cases hbefore
    · exact hdue
  · intro e he
    obtain ⟨r, hr, hid, hdue⟩ := h.carried e he
    exact ⟨r, hruns ▸ List.mem_append_left _ hr, hid, hdue⟩

/-- A write of a task row that does not come due at a claimed slot. -/
theorem armed_updateTask
    {store store' : TaskStore}
    {task : TaskRow}
    {mid : String → Int → Prop}
    (harmed : ∀ t ∈ store.tasks, ∀ slot, armedSlot t = some slot →
      store.slotTaken t.id slot = true → mid t.id slot)
    (hfree : ∀ slot, armedSlot task = some slot → store.slotTaken task.id slot = false)
    (h : store.updateTask task = .ok store') :
    ∀ t ∈ store'.tasks, ∀ slot, armedSlot t = some slot →
      store'.slotTaken t.id slot = true → t.id ≠ task.id ∧ mid t.id slot := by
  have hruns := TaskStore.updateTask_runs h
  obtain ⟨-, rfl⟩ := TaskStore.updateTask_eq_ok.1 h
  intro t' ht' slot hslot htaken
  obtain ⟨t, ht, rfl⟩ := List.mem_map.1 ht'
  by_cases hid : t.id = task.id
  · simp only [hid, if_true] at hslot htaken
    have hno : store.slotTaken task.id slot = false := hfree slot hslot
    exact absurd (hno.symm.trans htaken) Bool.false_ne_true
  · simp only [hid, if_false] at hslot htaken ⊢
    exact ⟨hid, harmed t ht slot hslot htaken⟩

theorem isSome_getTask_updateTask
    {store store' : TaskStore}
    {task : TaskRow}
    (h : store.updateTask task = .ok store')
    (id : String) :
    (store'.getTask id).isSome = (store.getTask id).isSome := by
  rw [TaskStore.getTask_updateTask h]
  split <;> simp

/-- A user or an executor writes a row that does not come due at a claimed slot. -/
theorem Unwedged.withTask
    (h : s.Unwedged)
    {task : TaskRow}
    {store : TaskStore}
    (hfree : s.Free task)
    (hupdate : s.store.updateTask task = .ok store) :
    Unwedged { s with store := store } := by
  have hruns := TaskStore.updateTask_runs hupdate
  have htaken : ∀ id slot, store.slotTaken id slot = s.store.slotTaken id slot := fun id slot =>
    TaskStore.slotTaken_of_runKey (by rw [hruns]) id slot
  refine ⟨h.tasks.updateTask hupdate, h.names.updateTask hupdate,
    h.runs.of_runKey (by rw [hruns]), ?_, ?_, ?_, h.ids, ?_, ?_, ?_, h.live⟩
  · intro r hr
    dsimp only at hr ⊢
    rw [hruns] at hr
    rw [isSome_getTask_updateTask hupdate]
    exact h.foreign r hr
  · intro t ht slot hslot htakenNow
    exact (armed_updateTask h.armed hfree hupdate t ht slot hslot htakenNow).2
  · intro copy hcopy
    dsimp only
    rw [isSome_getTask_updateTask hupdate]
    exact h.copies copy hcopy
  · intro copy hcopy slot hslot
    dsimp only
    rw [htaken]
    exact h.waiting copy hcopy slot hslot
  · intro copy run now rest heq
    obtain ⟨hrun, ⟨r, hr, hid⟩, htakenRun⟩ := h.claiming copy run now rest heq
    refine ⟨hrun, ⟨r, hruns ▸ hr, hid⟩, fun slot hslot => ?_⟩
    dsimp only
    rw [htaken]
    exact htakenRun slot hslot
  · intro e he
    obtain ⟨r, hr, hid⟩ := h.carried e he
    exact ⟨r, hruns ▸ hr, hid⟩

/-- The row a claim writes comes due at a slot that lies ahead. -/
theorem Unwedged.claimed_free
    (h : s.Unwedged)
    {copy : RowCopy}
    {run : TaskRun}
    {now : Int}
    {rest : List RowCopy}
    (htick : s.tick = .claiming copy run now rest)
    (hbehind : run.dueAt.isSome = true → ∀ r ∈ s.store.runs, r.taskId = copy.task.id →
      ∀ slot, r.dueAt = some slot → slot ≤ now) :
    s.Free (claimedTask env copy.task now) := by
  obtain ⟨hrun, -, htakenRun⟩ := h.claiming copy run now rest htick
  obtain ⟨-, listed, hdue⟩ := h.copies copy (by simp [htick, Tick.copies])
  intro slot hslot
  have hid : (claimedTask env copy.task now).id = copy.task.id := rfl
  rw [hid]
  by_contra htaken
  rw [Bool.not_eq_false] at htaken
  cases hreason : claimReason copy.task with
  | explicit =>
      have hsame : armedSlot copy.task = some slot := by
        simpa [armedSlot, claimedTask, hreason] using hslot
      have hnone := htakenRun slot hsame htaken
      rw [hrun] at hnone
      simp [claimedRun, hreason] at hnone
  | schedule =>
      obtain ⟨r, hr, htask, hslot'⟩ := TaskStore.slotTaken_eq_true.1 htaken
      have hsome : run.dueAt.isSome = true := by
        obtain ⟨due, hnext, -⟩ :=
          TaskStore.nextDueAt_of_isDue hdue (claimReason_eq_schedule.1 hreason)
        rw [hrun]
        simp [claimedRun, hreason, hnext]
      have hle := hbehind hsome r hr htask slot hslot'
      have hahead : nextDue env copy.task.toTask now = some slot := by
        simp only [armedSlot, claimedTask, hreason] at hslot
        split at hslot
        · exact hslot
        · cases hslot
      have hlt := lt_nextDue hahead
      omega

theorem Unwedged.tickUpdate
    (h : s.Unwedged)
    {copy : RowCopy}
    {run : TaskRun}
    {now : Int}
    {rest : List RowCopy}
    (htick : s.tick = .claiming copy run now rest)
    {fails : Bool}
    (hsound : if fails then s.Unarmed else
      s.store.refuses copy.task = false ∧
        (run.dueAt.isSome = true → ∀ r ∈ s.store.runs, r.taskId = copy.task.id →
          ∀ slot, r.dueAt = some slot → slot ≤ now)) :
    (s.tickUpdate env fails copy run now rest).Unwedged := by
  unfold HostState.tickUpdate
  cases fails with
  | true =>
      exact h.endTick hsound rfl rfl rfl (List.Subset.refl _) h.live
  | false =>
      obtain ⟨hname, hbehind⟩ := hsound
      have hfree : s.Free (claimedTask env copy.task now) := h.claimed_free htick hbehind
      have hrefuses : s.store.refuses (claimedTask env copy.task now) = false := hname
      have hupdate := TaskStore.updateTask_eq_ok.2 ⟨hrefuses, rfl⟩
      rw [if_neg Bool.false_ne_true, hupdate]
      obtain ⟨-, hinserted, -⟩ := h.claiming copy run now rest htick
      have hwritten := h.withTask hfree hupdate
      have hcopies := hwritten.copies
      have hids := h.ids
      simp only [htick, Tick.copies] at hcopies hids
      refine ⟨hwritten.tasks, hwritten.names, hwritten.runs, hwritten.foreign, ?_, ?_,
        (List.nodup_cons.1 hids).2, ?_, ?_, ?_, ?_⟩
      · intro t ht slot hslot htaken
        obtain ⟨hne, copy', run', now', rest', heq, hid, -⟩ :=
          armed_updateTask h.armed hfree hupdate t ht slot hslot htaken
        rw [htick] at heq
        cases heq
        exact absurd hid.symm hne
      · exact fun c hc => hcopies c (List.mem_cons_of_mem _ hc)
      · intro c hc
        refine hwritten.waiting c ?_
        dsimp only
        rw [htick]
        exact hc
      · intro copy run now rest heq
        cases heq
      · intro e he
        rcases List.mem_cons.1 he with rfl | he
        · exact hinserted
        · exact hwritten.carried e he
      · intro id hid
        rcases List.mem_cons.1 hid with rfl | hid
        · exact ⟨_, List.mem_cons_self, rfl⟩
        · obtain ⟨e, he, heq⟩ := h.live id hid
          exact ⟨e, List.mem_cons_of_mem _ he, heq⟩

/-! ## The other steps -/

theorem setExecutor_executors
    {e : Executor}
    {run : TaskRun}
    {stage : Stage}
    (he : e ∈ s.executors)
    (hrun : run.id = e.run.id ∧ run.dueAt = e.run.dueAt) :
    ∀ e' ∈ (s.setExecutor { e with run := run, stage := stage }).executors,
      ∃ e₀ ∈ s.executors, e'.run.id = e₀.run.id ∧ e'.run.dueAt = e₀.run.dueAt := by
  intro e' he'
  obtain ⟨e₀, he₀, rfl⟩ := List.mem_map.1 he'
  split
  · exact ⟨e, he, hrun⟩
  · exact ⟨e₀, he₀, rfl, rfl⟩

theorem setExecutor_live
    {e : Executor}
    (hlive : ∀ id ∈ s.live, ∃ e ∈ s.executors, e.run.id = id) :
    ∀ id ∈ (s.setExecutor e).live, ∃ e' ∈ (s.setExecutor e).executors, e'.run.id = id := by
  intro id hid
  obtain ⟨e₀, he₀, heq⟩ := hlive id hid
  by_cases hthis : e₀.run.id = e.run.id
  · refine ⟨_, List.mem_map_of_mem he₀, ?_⟩
    rw [if_pos hthis]
    exact hthis.symm.trans heq
  · refine ⟨_, List.mem_map_of_mem he₀, ?_⟩
    rw [if_neg hthis]
    exact heq

theorem Unwedged.setExecutor
    (h : s.Unwedged)
    {e : Executor}
    {run : TaskRun}
    {stage : Stage}
    (he : e ∈ s.executors)
    (hrun : run.id = e.run.id ∧ run.dueAt = e.run.dueAt) :
    (s.setExecutor { e with run := run, stage := stage }).Unwedged :=
  h.sameTick rfl rfl rfl (setExecutor_executors he hrun) (setExecutor_live h.live)

/-- An executor that writes its run leaves the slot of the run alone. -/
theorem Unwedged.runKey_updateRun
    (h : s.Unwedged)
    {e : Executor}
    (he : e ∈ s.executors)
    {run : TaskRun}
    (hrun : run.id = e.run.id ∧ run.dueAt = e.run.dueAt)
    {store : TaskStore}
    (hupdate : s.store.updateRun run = .ok store) :
    store.runs.map TaskStore.runKey = s.store.runs.map TaskStore.runKey := by
  refine TaskStore.runKey_updateRun (fun r hr hid => ?_) hupdate
  obtain ⟨r', hr', hid', hdue'⟩ := h.carried e he
  obtain rfl := h.runs.eq_of_id hr hr' (hid.trans (hrun.1.trans hid'.symm))
  exact hdue'.trans hrun.2.symm

theorem Unwedged.writeRun
    (h : s.Unwedged)
    {e : Executor}
    (he : e ∈ s.executors)
    {run : TaskRun}
    (hrun : run.id = e.run.id ∧ run.dueAt = e.run.dueAt)
    (fails : Bool)
    (done failed : Stage) :
    (s.writeRun e run fails done failed).Unwedged := by
  unfold HostState.writeRun
  split
  · exact h.setExecutor he hrun
  · split
    · exact h.setExecutor he hrun
    · rename_i store hupdate
      exact h.sameTick (TaskStore.updateRun_tasks hupdate) (h.runKey_updateRun he hrun hupdate) rfl
        (setExecutor_executors he hrun) (setExecutor_live h.live)

theorem Unwedged.runKey_interruptRun
    (h : s.Unwedged)
    {id : String}
    {now : Int}
    {store : TaskStore}
    (hinterrupt : interruptRun s.store id now = .ok store) :
    store.runs.map TaskStore.runKey = s.store.runs.map TaskStore.runKey := by
  unfold interruptRun at hinterrupt
  split at hinterrupt
  · rename_i run hrun
    have hmem : run ∈ s.store.runs := List.mem_of_find?_eq_some hrun
    split at hinterrupt
    · refine TaskStore.runKey_updateRun (fun r hr hid => ?_) hinterrupt
      rw [h.runs.eq_of_id hr hmem hid]
    · cases hinterrupt
      rfl
  · cases hinterrupt
    rfl

theorem Unwedged.leave
    (h : s.Unwedged)
    (e : Executor)
    (now : Int)
    (fails : Bool) :
    (s.leave e now fails).Unwedged := by
  have hkeys : (s.leave e now fails).store.runs.map TaskStore.runKey =
      s.store.runs.map TaskStore.runKey := by
    unfold HostState.leave
    cases fails with
    | true =>
        rfl
    | false =>
        cases hinterrupt : interruptRun s.store e.run.id now with
        | error err =>
            simp [Except.toOption]
        | ok store =>
            simpa [Except.toOption, hinterrupt] using h.runKey_interruptRun hinterrupt
  refine h.sameTick (sameRows_leave s e now fails).tasks hkeys rfl ?_ ?_
  · exact fun e' he' => ⟨e', List.mem_of_mem_filter he', rfl, rfl⟩
  · intro id hid
    obtain ⟨hlive, hne⟩ := List.mem_filter.1 hid
    obtain ⟨e', he', heq⟩ := h.live id hlive
    refine ⟨e', List.mem_filter.2 ⟨he', ?_⟩, heq⟩
    simpa [heq] using hne

theorem settledRun_dueAt
    (run : TaskRun)
    (outcome : Outcome)
    (now : Int) :
    (settledRun run outcome now).id = run.id ∧
      (settledRun run outcome now).dueAt = run.dueAt := by
  cases outcome <;> exact ⟨rfl, rfl⟩

theorem Unwedged.execute
    (h : s.Unwedged)
    {e : Executor}
    (he : e ∈ s.executors)
    {action : ExecutorAction}
    (hbind : ∀ threadId sessionId now fails, action = .bind now fails →
      e.stage = .binding threadId sessionId →
        s.commits e.copy.task fails = true → s.Free e.copy.task) :
    (s.execute e action).Unwedged := by
  cases action with
  | openSession ids =>
      simp only [HostState.execute]
      split
      · exact h.setExecutor he ⟨rfl, rfl⟩
      · split <;> exact h.setExecutor he ⟨rfl, rfl⟩
      · exact h
  | bind now fails =>
      simp only [HostState.execute]
      split
      · rename_i threadId sessionId hstage
        unfold HostState.bind
        split
        · exact h.setExecutor he ⟨rfl, rfl⟩
        rename_i hfails
        split
        · exact h.setExecutor he ⟨rfl, rfl⟩
        rename_i store hupdate
        have hrefuses : s.store.refuses e.copy.task = false :=
          (TaskStore.updateTask_eq_ok.1 hupdate).1
        have hfree := hbind threadId sessionId now fails rfl hstage
          (by simpa [commits, hrefuses] using hfails)
        have hbound : s.Free (boundTask e.copy.task threadId now) := hfree
        have hwritten := h.withTask hbound hupdate
        exact hwritten.sameTick rfl rfl rfl (setExecutor_executors he ⟨rfl, rfl⟩)
          (setExecutor_live h.live)
      · exact h
  | recordSession fails =>
      simp only [HostState.execute]
      split
      · refine h.writeRun he ?_ fails _ _
        exact ⟨rfl, rfl⟩
      · exact h
  | settle outcome now fails =>
      have hsettled := settledRun_dueAt e.run outcome now
      simp only [HostState.execute]
      split
      · exact h.writeRun he hsettled fails _ _
      · exact h.writeRun he hsettled fails _ _
      · exact h
  | forgetConversation =>
      simp only [HostState.execute]
      split
      · exact h.sameTick rfl (TaskStore.runKey_markRunConversationDeleted _ _) rfl
          (fun e' he' => ⟨e', he', rfl, rfl⟩) h.live
      · exact h
  | leave now fails =>
      exact h.leave e now fails

theorem runKey_reapOrphanedRuns
    (store : TaskStore)
    (owner : String)
    (live : List String)
    (now : Int)
    (failing : List String) :
    (reapOrphanedRuns store owner live now failing).runs.map TaskStore.runKey =
      store.runs.map TaskStore.runKey := by
  unfold reapOrphanedRuns
  generalize store.runningRunOwners = rows
  induction rows generalizing store with
  | nil =>
      rfl
  | cons row rows ih =>
      rw [List.foldl_cons, ih]
      split
      · exact TaskStore.runKey_failRunning _ _ _ _ _ _
      · rfl

theorem Unwedged.create
    (h : s.Unwedged)
    {task : TaskRow}
    {store : TaskStore}
    (hinsert : s.store.insertTask task = .ok store) :
    Unwedged { s with store := store } := by
  have hget := TaskStore.getTask_insertTask hinsert
  have hsome : ∀ id, (s.store.getTask id).isSome = true → (store.getTask id).isSome = true := by
    intro id hid
    rw [hget]
    split
    · rfl
    · exact hid
  have htasks := h.tasks.insertTask hinsert
  have hnames := h.names.insertTask hinsert
  obtain ⟨hnone, -, rfl⟩ := TaskStore.insertTask_eq_ok.1 hinsert
  refine ⟨htasks, hnames, h.runs, ?_, ?_, ?_, h.ids, h.waiting, h.claiming, h.carried, h.live⟩
  · exact fun r hr => hsome _ (h.foreign r hr)
  · intro t ht slot hslot htaken
    rcases List.mem_append.1 ht with hold | hnew
    · exact h.armed t hold slot hslot htaken
    · -- A task that was not there has no runs.
      obtain rfl := List.mem_singleton.1 hnew
      obtain ⟨r, hr, htask, -⟩ := TaskStore.slotTaken_eq_true.1 htaken
      have hforeign := h.foreign r hr
      rw [htask, hnone] at hforeign
      cases hforeign
  · exact fun copy hcopy => ⟨hsome _ (h.copies copy hcopy).1, (h.copies copy hcopy).2⟩

theorem Unwedged.write
    (h : s.Unwedged)
    {e : Editor}
    {now : Int}
    {fails : Bool}
    (hsound : s.commits (e.edit.apply env e.copy.task now) fails = true →
      s.Free (e.edit.apply env e.copy.task now)) :
    (s.write env e now fails).Unwedged := by
  unfold HostState.write
  split
  · exact h
  rename_i hfails
  split
  · exact h
  rename_i store hupdate
  have hrefuses := (TaskStore.updateTask_eq_ok.1 hupdate).1
  have hfree := hsound (by simpa [commits, hrefuses] using hfails)
  have hwritten := h.withTask hfree hupdate
  exact hwritten.sameTick rfl rfl rfl (fun e' he' => ⟨e', he', rfl, rfl⟩) hwritten.live

theorem Unwedged.step
    (h : s.Unwedged)
    (op : HostStep)
    (hsound : s.Unwedging env op) :
    (s.step env op).Unwedged := by
  cases op with
  | boot owner now fails =>
      simp only [HostState.step]
      split
      · exact h
      · refine h.sameTick ?_ ?_ rfl (fun e he => ⟨e, he, rfl, rfl⟩) h.live
        · cases fails <;> rfl
        · cases fails with
          | true => rfl
          | false => exact TaskStore.runKey_failRunning _ _ _ _ _ _
  | crash =>
      refine h.endTick hsound rfl rfl rfl ?_ ?_
      · exact fun e he => by cases he
      · exact fun id hid => by cases hid
  | tickReap now failing =>
      simp only [HostState.step]
      split
      · rename_i owner _ htick
        exact h.endTick (unarmed_of_not_claiming (by rw [htick]; rfl))
          (reapOrphanedRuns_tasks _ _ _ _ _) (runKey_reapOrphanedRuns _ _ _ _ _) rfl
          (List.Subset.refl _) h.live
      · exact h
  | tickList now fails =>
      simp only [HostState.step]
      split
      · rename_i htick
        split
        · exact h.endTick (unarmed_of_not_claiming (by rw [htick]; rfl)) rfl rfl rfl
            (List.Subset.refl _) h.live
        · exact h.tickList htick now
      · exact h
  | tickInsert now runId fails =>
      simp only [HostState.step]
      split
      · rename_i htick
        exact h.endTick (unarmed_of_not_claiming (by rw [htick]; rfl)) rfl rfl rfl
          (List.Subset.refl _) h.live
      · rename_i htick
        exact h.tickInsert htick _ now runId fails
      · exact h
  | tickUpdate fails =>
      simp only [HostState.step]
      split
      · rename_i copy run now rest htick
        simp only [Unwedging, htick] at hsound
        exact h.tickUpdate htick hsound
      · exact h
  | execute runId action =>
      simp only [HostState.step]
      split
      · rename_i e hfind
        refine h.execute (List.mem_of_find?_eq_some hfind) ?_
        rintro threadId sessionId now fails rfl hstage
        obtain ⟨copy, run, stage⟩ := e
        subst hstage
        simpa only [Unwedging, hfind] using hsound
      · exact h
  | create id input now =>
      simp only [HostState.step]
      split
      · exact h
      · rename_i store hinsert
        have hcreated := h.create hinsert
        exact hcreated.sameTick rfl rfl rfl (fun e he => ⟨e, he, rfl, rfl⟩) hcreated.live
  | read taskId edit =>
      simp only [HostState.step]
      split
      · exact h.sameTick rfl rfl rfl (fun e he => ⟨e, he, rfl, rfl⟩) h.live
      · exact h
  | write index now fails =>
      simp only [HostState.step]
      split
      · rename_i e he
        simp only [Unwedging, he] at hsound
        have hwritten := h.write hsound
        exact hwritten.sameTick rfl rfl rfl (fun e he => ⟨e, he, rfl, rfl⟩) hwritten.live
      · exact h

theorem unwedged_start : Unwedged start where
  tasks := List.nodup_nil
  names := fun _ ht => by cases ht
  runs := List.Pairwise.nil
  foreign := fun _ hr => by cases hr
  armed := fun _ ht => by cases ht
  copies := fun _ hc => by cases hc
  ids := List.nodup_nil
  waiting := fun _ hc => by cases hc
  claiming := fun _ _ _ _ heq => by cases heq
  carried := fun _ he => by cases he
  live := fun _ hid => by cases hid

/-! ## A whole tick -/

section Ticks

variable {store store' : TaskStore}

theorem orphaned_eq_false
    {owner : String}
    {live : List String}
    {id : String}
    {rowOwner : Option String} :
    orphaned owner live id rowOwner = false ↔ rowOwner = some owner ∧ id ∈ live := by
  cases rowOwner with
  | none =>
      simp [orphaned]
  | some other =>
      by_cases hother : other = owner <;> simp [orphaned, hother]

theorem mem_failRunning_running
    {p : RunRow → Bool}
    {now : Int}
    {error reason note : String}
    {r : RunRow}
    (hr : r ∈ (store.failRunning p now error reason note).runs)
    (hrunning : r.status = .running) :
    r ∈ store.runs ∧ p r = false := by
  obtain ⟨a, ha, rfl⟩ := List.mem_map.1 hr
  by_cases hfail : (p a && decide (a.status = .running)) = true
  · rw [if_pos hfail] at hrunning
    cases hrunning
  · rw [if_neg hfail] at hrunning ⊢
    refine ⟨ha, ?_⟩
    simpa [hrunning] using hfail

/-- What is still running behind the reaping belongs to a live executor of the loop. -/
theorem running_of_reap
    {owner : String}
    {live : List String}
    {now : Int}
    {r : RunRow}
    (hr : r ∈ (reapOrphanedRuns store owner live now []).runs)
    (hrunning : r.status = .running) :
    r ∈ store.runs ∧ r.id ∈ live := by
  have hfold : ∀ (rows : List (String × Option String)) (store : TaskStore),
      r ∈ (rows.foldl
        (fun store row =>
          if orphaned owner live row.1 row.2 && !([] : List String).contains row.1 then
            store.reapRunningRun row.1 now
              "the host that claimed this run is gone; it was settled by a later tick"
              "interrupted"
              ("no live executor owned this run: its claim row was left in `running` when the " ++
                "host stopped (killed or crashed) mid-run, so its conversation is the only record left")
          else
            store) store).runs →
        r ∈ store.runs ∧ ∀ row ∈ rows, orphaned owner live row.1 row.2 = true → r.id ≠ row.1 := by
    intro rows
    induction rows with
    | nil =>
        exact fun store hmem => ⟨hmem, fun row hrow => by cases hrow⟩
    | cons row rows ih =>
        intro store hmem
        rw [List.foldl_cons] at hmem
        obtain ⟨hstore, hrows⟩ := ih _ hmem
        by_cases horphan : orphaned owner live row.1 row.2 = true
        · have hreap : (orphaned owner live row.1 row.2 && !([] : List String).contains row.1) =
              true := by
            simp [horphan]
          rw [if_pos hreap] at hstore
          obtain ⟨hmemStore, hne⟩ := mem_failRunning_running hstore hrunning
          refine ⟨hmemStore, fun row' hrow' => ?_⟩
          rcases List.mem_cons.1 hrow' with rfl | hrow'
          · exact fun _ => by simpa using hne
          · exact hrows row' hrow'
        · rw [if_neg (by simp [horphan])] at hstore
          refine ⟨hstore, fun row' hrow' => ?_⟩
          rcases List.mem_cons.1 hrow' with rfl | hrow'
          · exact fun hyes => absurd hyes horphan
          · exact hrows row' hrow'
  obtain ⟨hstore, hrows⟩ := hfold store.runningRunOwners store hr
  have hrow : (r.id, r.owner) ∈ store.runningRunOwners :=
    List.mem_map.2 ⟨r, List.mem_filter.2 ⟨hstore, by simpa using hrunning⟩, rfl⟩
  have hkept : orphaned owner live r.id r.owner = false := by
    by_contra horphan
    rw [Bool.not_eq_false] at horphan
    exact hrows (r.id, r.owner) hrow horphan rfl
  exact ⟨hstore, (orphaned_eq_false.1 hkept).2⟩

/-- The claim of a row as it is, whose slot and name are free. -/
theorem claim_eq_ok
    (env : TaskEnv)
    (owner : String)
    {task : TaskRow}
    {runId : String}
    {now : Int}
    (hnames : store.NamesDistinct)
    (hrow : store.getTask task.id = some task)
    (hfree : ∀ slot, (claimedRun task runId now).dueAt = some slot →
      store.slotTaken task.id slot = false)
    (hfresh : ∀ r ∈ store.runs, r.id ≠ runId) :
    ∃ store', claim env owner store task runId now = (store', .ok (claimedRun task runId now)) ∧
      store'.NamesDistinct ∧
      store'.runs = store.runs ++ [{ claimedRun task runId now with owner := some owner }] ∧
      ∀ id, id ≠ task.id → store'.getTask id = store.getTask id := by
  have hid : (claimedRun task runId now).taskId = task.id := rfl
  obtain ⟨inserted, hinsert⟩ := TaskStore.insertRunOwned_of_free (some owner) hfresh hfree
    (by rw [hid, hrow]; rfl)
  have htasks := TaskStore.insertRunOwned_tasks hinsert
  have hnames' : inserted.NamesDistinct := by
    unfold TaskStore.NamesDistinct TaskStore.nameTaken
    rw [htasks]
    exact hnames
  have hname : inserted.nameTaken task = false := by
    refine hnames' task ?_
    rw [htasks]
    exact (TaskStore.mem_of_getTask hrow).1
  have hrefuses : inserted.refuses (claimedTask env task now) = false := by
    have hsame : inserted.nameTaken (claimedTask env task now) = false := hname
    simp [TaskStore.refuses, hsame]
  have hupdate := TaskStore.updateTask_eq_ok.2 ⟨hrefuses, rfl⟩
  refine ⟨_, ?_, hnames'.updateTask hupdate, ?_, ?_⟩
  · simp only [claim, hinsert, hupdate]
  · obtain ⟨-, -, -, rfl⟩ := TaskStore.insertRunOwned_eq_ok.1 hinsert
    rfl
  · intro id hne
    have hget := TaskStore.getTask_updateTask_of_ne hupdate hne
    refine hget.trans ?_
    simp only [TaskStore.getTask, htasks]

/-- The claims go through the candidates: each has a run in flight or gets one. -/
theorem tickClaims_total
    (env : TaskEnv)
    (owner : String)
    (now : Nat → Int)
    {runId : Nat → String}
    (hinj : Function.Injective runId)
    {tasks : List TaskRow}
    (hids : (tasks.map (·.id)).Nodup)
    (hdue : ∀ t ∈ tasks, ∃ listed, TaskStore.isDue listed t = true)
    {k : Nat}
    (hnames : store.NamesDistinct)
    (hrows : ∀ t ∈ tasks, store.getTask t.id = some t)
    (hfree : ∀ t ∈ tasks, ∀ slot, armedSlot t = some slot → store.slotTaken t.id slot = false)
    (hfresh : ∀ j, k ≤ j → ∀ r ∈ store.runs, r.id ≠ runId j) :
    (tickClaims env owner now runId k store tasks).error = none ∧
      store.runs ⊆ (tickClaims env owner now runId k store tasks).store.runs ∧
      ∀ t ∈ tasks,
        (∃ run ∈ (tickClaims env owner now runId k store tasks).claimed, run.taskId = t.id) ∨
          store.hasRunningRun t.id = true := by
  induction tasks generalizing store k with
  | nil =>
      exact ⟨rfl, List.Subset.refl _, fun t ht => by cases ht⟩
  | cons task rest ih =>
      obtain ⟨hnotin, hidsRest⟩ := List.nodup_cons.1 hids
      have hother : ∀ t ∈ rest, t.id ≠ task.id := by
        intro t ht heq
        exact hnotin (List.mem_map.2 ⟨t, ht, heq⟩)
      have hdueRest := fun t ht => hdue t (List.mem_cons_of_mem _ ht)
      by_cases hrunning : store.hasRunningRun task.id = true
      · obtain ⟨herror, hruns, hclaimed⟩ := ih hidsRest hdueRest hnames
          (fun t ht => hrows t (List.mem_cons_of_mem _ ht))
          (fun t ht => hfree t (List.mem_cons_of_mem _ ht)) hfresh
        simp only [tickClaims, hrunning, if_true]
        refine ⟨herror, hruns, fun t ht => ?_⟩
        rcases List.mem_cons.1 ht with rfl | ht
        · exact .inr hrunning
        · exact hclaimed t ht
      · obtain ⟨listed, hlisted⟩ := hdue task List.mem_cons_self
        have hslot : ∀ slot, (claimedRun task (runId k) (now k)).dueAt = some slot →
            store.slotTaken task.id slot = false := fun slot hslot =>
          hfree task List.mem_cons_self slot
            (claimedRun_dueAt hlisted hslot)
        obtain ⟨store', hclaim, hnames', hruns', hget'⟩ := claim_eq_ok env owner
          hnames (hrows task List.mem_cons_self) hslot (hfresh k (le_refl k))
        have hrowsRest : ∀ t ∈ rest, store'.getTask t.id = some t := fun t ht =>
          (hget' t.id (hother t ht)).trans (hrows t (List.mem_cons_of_mem _ ht))
        have hfreeRest : ∀ t ∈ rest, ∀ slot, armedSlot t = some slot →
            store'.slotTaken t.id slot = false := by
          intro t ht slot hslot
          have hbefore := TaskStore.slotTaken_eq_false.1
            (hfree t (List.mem_cons_of_mem _ ht) slot hslot)
          refine TaskStore.slotTaken_eq_false.2 fun r hr htask => ?_
          rw [hruns'] at hr
          rcases List.mem_append.1 hr with hr | hr
          · exact hbefore r hr htask
          · obtain rfl := List.mem_singleton.1 hr
            exact absurd htask.symm (hother t ht)
        have hfreshRest : ∀ j, k + 1 ≤ j → ∀ r ∈ store'.runs, r.id ≠ runId j := by
          intro j hj r hr
          rw [hruns'] at hr
          rcases List.mem_append.1 hr with hr | hr
          · exact hfresh j (by omega) r hr
          · obtain rfl := List.mem_singleton.1 hr
            intro heq
            have hkj : k = j := hinj heq
            omega
        obtain ⟨herror, hruns, hclaimed⟩ :=
          ih hidsRest hdueRest hnames' hrowsRest hfreeRest hfreshRest
        rw [Bool.not_eq_true] at hrunning
        simp only [tickClaims, hrunning, Bool.false_eq_true, if_false, hclaim]
        refine ⟨herror, ?_, fun t ht => ?_⟩
        · refine List.Subset.trans ?_ hruns
          rw [hruns']
          exact List.subset_append_left _ _
        · rcases List.mem_cons.1 ht with rfl | ht
          · exact .inl ⟨_, List.mem_cons_self, rfl⟩
          · rcases hclaimed t ht with ⟨run, hrun, htask⟩ | hstill
            · exact .inl ⟨run, List.mem_cons_of_mem _ hrun, htask⟩
            · refine .inr ?_
              simp only [TaskStore.hasRunningRun, List.any_eq_true] at hstill ⊢
              obtain ⟨r, hr, hthis⟩ := hstill
              rw [hruns'] at hr
              rcases List.mem_append.1 hr with hr | hr
              · exact ⟨r, hr, hthis⟩
              · obtain rfl := List.mem_singleton.1 hr
                simp only [Bool.and_eq_true, decide_eq_true_eq] at hthis
                exact absurd hthis.1.symm (hother t ht)

end Ticks

/-- A tick went through: each task that was due got its run, or has one that an executor
carries. -/
def WentThrough (s : HostState) (listNow : Int) (result : TickResult) : Prop :=
  result.error = none ∧
    ∀ t ∈ s.store.tasks, TaskStore.isDue listNow t = true →
      (∃ run ∈ result.claimed, run.taskId = t.id) ∨
        ∃ r ∈ result.store.runs, r.taskId = t.id ∧ r.status = .running ∧
          ∃ e ∈ s.executors, e.run.id = r.id

/-- The runs that are in flight when a tick begins are carried by executors. -/
theorem Unwedged.wentThrough
    (h : s.Unwedged)
    (htick : s.tick = .waiting)
    (env : TaskEnv)
    (owner : String)
    (reapNow listNow : Int)
    (now : Nat → Int)
    {runId : Nat → String}
    (hinj : Function.Injective runId)
    (hfresh : ∀ k, ∀ r ∈ s.store.runs, r.id ≠ runId k) :
    s.WentThrough listNow (Tasks.tick env owner s.live s.store reapNow listNow now runId) := by
  have htasks := reapOrphanedRuns_tasks s.store owner s.live reapNow []
  have hkeys := runKey_reapOrphanedRuns s.store owner s.live reapNow []
  have hreaped : Unwedged { s with store := reapOrphanedRuns s.store owner s.live reapNow [] } :=
    h.sameTick htasks hkeys rfl (fun e he => ⟨e, he, rfl, rfl⟩) h.live
  have hlist : ∀ t ∈ candidates (reapOrphanedRuns s.store owner s.live reapNow []) listNow,
      t ∈ (reapOrphanedRuns s.store owner s.live reapNow []).tasks ∧
        TaskStore.isDue listNow t = true := fun t ht => TaskStore.mem_listDueTasks.1 ht
  have hfree : ∀ t ∈ candidates (reapOrphanedRuns s.store owner s.live reapNow []) listNow,
      ∀ slot, armedSlot t = some slot →
        (reapOrphanedRuns s.store owner s.live reapNow []).slotTaken t.id slot = false := by
    intro t ht slot hslot
    by_contra htaken
    rw [Bool.not_eq_false] at htaken
    obtain ⟨copy, run, now, rest, heq, -⟩ := hreaped.armed t (hlist t ht).1 slot hslot htaken
    rw [htick] at heq
    cases heq
  have hfreshReaped : ∀ j, 0 ≤ j →
      ∀ r ∈ (reapOrphanedRuns s.store owner s.live reapNow []).runs, r.id ≠ runId j := by
    intro j _ r hr
    obtain ⟨r', hr', hid, -⟩ := TaskStore.exists_of_runKey hkeys.symm hr
    rw [← hid]
    exact hfresh j r' hr'
  obtain ⟨herror, hruns, hclaimed⟩ := tickClaims_total env owner now hinj
    (hreaped.tasks.listDueTasks listNow) (fun t ht => ⟨listNow, (hlist t ht).2⟩)
    hreaped.names (fun t ht => hreaped.tasks.getTask (hlist t ht).1) hfree hfreshReaped
  refine ⟨herror, fun t ht hdue => ?_⟩
  have hcandidate : t ∈ candidates (reapOrphanedRuns s.store owner s.live reapNow []) listNow :=
    TaskStore.mem_listDueTasks.2 ⟨htasks.symm ▸ ht, hdue⟩
  rcases hclaimed t hcandidate with hrun | hrunning
  · exact .inl hrun
  · refine .inr ?_
    simp only [TaskStore.hasRunningRun, List.any_eq_true, Bool.and_eq_true,
      decide_eq_true_eq] at hrunning
    obtain ⟨r, hr, htask, hstatus⟩ := hrunning
    obtain ⟨-, hlive⟩ := running_of_reap hr hstatus
    exact ⟨r, hruns hr, htask, hstatus, h.live r.id hlive⟩

/--
From every state of a run of unwedging steps a tick goes through, and whatever else happens
during a tick, the insert of a claim is not refused.
-/
theorem tick_never_wedged
    (env : TaskEnv)
    (ops : List HostStep)
    (hsound : Machine.Guarded (step env) (Unwedging env) start ops) :
    ((Machine.run (step env) start ops).tick = .waiting →
      ∀ owner reapNow listNow now runId, Function.Injective runId →
        (∀ k, ∀ r ∈ (Machine.run (step env) start ops).store.runs, r.id ≠ runId k) →
        (Machine.run (step env) start ops).WentThrough listNow
          (Tasks.tick env owner (Machine.run (step env) start ops).live
            (Machine.run (step env) start ops).store reapNow listNow now runId)) ∧
      ∀ copy rest, (Machine.run (step env) start ops).tick = .scanning (copy :: rest) →
        ∀ owner now runId,
          (∀ r ∈ (Machine.run (step env) start ops).store.runs, r.id ≠ runId) →
          ∃ store, (Machine.run (step env) start ops).store.insertRunOwned
            (claimedRun copy.task runId now) owner = .ok store := by
  have hunwedged : (Machine.run (step env) start ops).Unwedged :=
    hsound.invariant (fun _ op hs hop => hs.step op hop) unwedged_start
  refine ⟨?_, ?_⟩
  · intro htick owner reapNow listNow now runId hinj hfresh
    exact hunwedged.wentThrough htick env owner reapNow listNow now hinj hfresh
  · intro copy rest htick owner now runId hfresh
    exact hunwedged.insert htick owner now hfresh

/-! ## A crash inside a claim -/

/-- A task every day at nine. -/
def briefing (name : String) : TaskInput where
  name := name
  prompt := "Write the briefing"
  cwd := "/work"
  modelId := none
  thinkingLevel := none
  timezone := none
  sessionPolicy := .new
  sessionRetention := .keep
  conversationMode := .chat
  triggerKind := .schedule
  trigger := none
  enabled := none
  promptVersion := none

/-- Two tasks come due at nine, and the run of the first is inserted. -/
def briefingSteps : List HostStep :=
  [.create "first" (briefing "first") 0,
    .create "second" (briefing "second") 1,
    .boot "host" 2 false,
    .tickReap 32400000 [],
    .tickList 32400000 false,
    .tickInsert 32400001 "run" false]

/-- The claim under way can be finished. -/
def finishable (s : HostState) : Bool :=
  match s.tick with
  | .claiming copy _ now _ =>
      !s.store.refuses copy.task && s.store.runs.all fun r => r.dueAt.all fun slot => slot ≤ now
  | _ => true

theorem unwedging_of_finishable
    (h : s.finishable = true) :
    s.Unwedging env (.tickUpdate false) := by
  unfold finishable at h
  simp only [Unwedging]
  split
  · rename_i copy run now rest htick
    simp only [htick, Bool.and_eq_true, Bool.not_eq_true', List.all_eq_true] at h
    refine ⟨h.1, fun _ r hr _ slot hslot => ?_⟩
    simpa [hslot] using h.2 r hr
  · trivial

/-- The keys the next claims would generate. -/
def claimIds (k : Nat) : String :=
  String.ofList (List.replicate k 'r')

theorem claimIds_injective : Function.Injective claimIds := by
  intro a b h
  have hlist := String.ofList_injective h
  simpa using congrArg List.length hlist

theorem claimIds_ne (k : Nat) : "run" ≠ claimIds k := by
  intro h
  have hmem : 'u' ∈ "run".toList := by decide
  rw [h, claimIds, String.toList_ofList] at hmem
  exact absurd (List.eq_of_mem_replicate hmem) (by decide)

/-- The host dies there, and no later tick gets past the first task. -/
theorem crash_inside_claim_stops_ticks :
    ¬ (Machine.run (step reportEnv) start
      (briefingSteps ++ [.crash, .boot "again" 32400002 false])).WentThrough 32400003
      (Tasks.tick reportEnv "again"
        (Machine.run (step reportEnv) start
          (briefingSteps ++ [.crash, .boot "again" 32400002 false])).live
        (Machine.run (step reportEnv) start
          (briefingSteps ++ [.crash, .boot "again" 32400002 false])).store
        32400003 32400003 (fun _ => 32400003) claimIds) := by
  intro h
  have herror : (Tasks.tick reportEnv "again"
      (Machine.run (step reportEnv) start
        (briefingSteps ++ [.crash, .boot "again" 32400002 false])).live
      (Machine.run (step reportEnv) start
        (briefingSteps ++ [.crash, .boot "again" 32400002 false])).store
      32400003 32400003 (fun _ => 32400003) claimIds).error ≠ none := by
    decide +kernel
  exact herror h.1

/-- Where the claim is finished first, the second task is claimed by a later tick. -/
theorem tick_never_wedged_briefing :
    (Machine.run (step reportEnv) start
      (briefingSteps ++ [.tickUpdate false, .crash, .boot "again" 32400002 false])).WentThrough
      32400003
      (Tasks.tick reportEnv "again"
        (Machine.run (step reportEnv) start
          (briefingSteps ++ [.tickUpdate false, .crash, .boot "again" 32400002 false])).live
        (Machine.run (step reportEnv) start
          (briefingSteps ++ [.tickUpdate false, .crash, .boot "again" 32400002 false])).store
        32400003 32400003 (fun _ => 32400003) claimIds) := by
  have htick : (Machine.run (step reportEnv) start
      (briefingSteps ++ [.tickUpdate false, .crash, .boot "again" 32400002 false])).tick =
        .waiting := by
    rw [Machine.run_append]
    rfl
  have hsound : Machine.Guarded (step reportEnv) (Unwedging reportEnv) start
      (briefingSteps ++ [.tickUpdate false, .crash, .boot "again" 32400002 false]) :=
    ⟨trivial, trivial, trivial, trivial, trivial, trivial,
      unwedging_of_finishable (by decide +kernel), unarmed_of_not_claiming (by decide +kernel),
      trivial, trivial⟩
  have hids : (Machine.run (step reportEnv) start
      (briefingSteps ++ [.tickUpdate false, .crash, .boot "again" 32400002 false])).store.runs.map
        (·.id) = ["run"] := by
    decide +kernel
  have hfresh : ∀ k, ∀ r ∈ (Machine.run (step reportEnv) start
      (briefingSteps ++ [.tickUpdate false, .crash, .boot "again" 32400002 false])).store.runs,
      r.id ≠ claimIds k := by
    intro k r hr
    have hmem := hids ▸ List.mem_map_of_mem hr
    rw [List.mem_singleton] at hmem
    rw [hmem]
    exact claimIds_ne k
  exact (tick_never_wedged reportEnv _ hsound).1 htick "again" 32400003 32400003
    (fun _ => 32400003) claimIds claimIds_injective hfresh

end HostState

end Tasks
end FutureOs
