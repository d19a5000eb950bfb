import FutureOs.Tasks.OnSchedule
import FutureOs.Tasks.TaskHost

/-!
# What is claimed stays claimed

A request is run once and a row keeps what its users wrote, on the runs whose steps are all
`Sound`: no crash and no failed write between the two writes of an explicit claim, no
user's write between the listing of a task and the update of its claim, no conversation
bound to the row of a task, and no user who writes back a request that was claimed since it
was read.  Slots need none of this: the database refuses the second run.

The invariant follows the numbers of the requests.  A number a row shows is not claimed,
but for the one claim that is between its two writes; and a copy no user has written over
is the row.
-/

namespace FutureOs
namespace Tasks

section Schedule

variable {env : TaskEnv}

theorem lt_nextDueForMode
    {mode : ScheduleMode}
    {after due : Int}
    {tz : Zone}
    (h : nextDueForMode env mode after tz = some due) :
    after < due := by
  cases mode with
  | once date time =>
      simp only [nextDueForMode, Option.bind_eq_bind, Option.bind_eq_some_iff] at h
      obtain ⟨_, -, _, -, _, -, hdue⟩ := h
      split at hdue <;> simp_all
  | interval everyMinutes anchor =>
      simp only [nextDueForMode, Option.bind_eq_bind, Option.bind_eq_some_iff] at h
      obtain ⟨step, hstep, hdue⟩ := h
      have hmax := (intervalStep_eq_some_iff.1 hstep).2
      have hpos : 0 < step := by omega
      have hnext := (interval_next (intervalAnchor anchor after) after hpos).2.1
      split at hdue <;> simp_all
  | daily time =>
      simp only [nextDueForMode, Option.bind_eq_bind, Option.bind_eq_some_iff] at h
      obtain ⟨_, -, _, -, hdue⟩ := h
      split at hdue <;> simp_all
  | weekly days time =>
      simp only [nextDueForMode, Option.bind_eq_bind, Option.bind_eq_some_iff] at h
      obtain ⟨_, -, hdue⟩ := h
      split at hdue
      · cases hdue
      · exact (nextOf_eq_some_iff.1 hdue).2.1
  | monthly day time =>
      simp only [nextDueForMode, Option.bind_eq_bind, Option.bind_eq_some_iff] at h
      obtain ⟨_, -, hdue⟩ := h
      exact (nextOf_eq_some_iff.1 hdue).2.1
  | yearly month day time =>
      simp only [nextDueForMode, Option.bind_eq_bind, Option.bind_eq_some_iff] at h
      obtain ⟨_, -, hdue⟩ := h
      exact (nextOf_eq_some_iff.1 hdue).2.1

/-- A schedule goes on behind the time it is asked at. -/
theorem lt_nextDue
    {task : Task}
    {after due : Int}
    (h : nextDue env task after = some due) :
    after < due := by
  unfold nextDue at h
  split at h
  · cases h
  · split at h
    · cases h
    · obtain ⟨_, -, hdue⟩ := Option.bind_eq_some_iff.1 h
      exact lt_nextDueForMode hdue

end Schedule

/-! ## The condition and what it gives -/

/-- What users write of a task; the rest belongs to its claims. -/
def TaskRow.settings (t : TaskRow) : TaskRow :=
  { t with
    nextDueAt := none
    pendingRequestAt := none
    pendingOrigin := none
    pendingActor := none
    updatedAt := 0 }

/-- The step is a write of a user, or what comes before it. -/
def HostStep.byUser : HostStep → Bool
  | .create _ _ _ => true
  | .read _ _ => true
  | .write _ _ _ => true
  | _ => false

/-- The copies a tick has before it. -/
def Tick.copies : Tick → List RowCopy
  | .scanning rest => rest
  | .claiming copy _ _ rest => copy :: rest
  | _ => []

/-- A claim is between its two writes. -/
def Tick.isClaiming : Tick → Bool
  | .claiming _ _ _ _ => true
  | _ => false

theorem Tick.ne_claiming
    {tick : Tick}
    (h : tick.isClaiming = false)
    (copy : RowCopy)
    (run : TaskRun)
    (now : Int)
    (rest : List RowCopy) :
    tick ≠ .claiming copy run now rest := by
  rintro rfl
  cases h

/-- The copies whose claim has not begun. -/
def Tick.rest : Tick → List RowCopy
  | .scanning rest => rest
  | .claiming _ _ _ rest => rest
  | _ => []

namespace HostState

/-- No run was made for that request. -/
def Unclaimed (s : HostState) (taskId : String) (n : Nat) : Prop :=
  ∀ c ∈ s.claimed, c.taskId = taskId → c.request ≠ some n

/-- The database takes the row. -/
def commits (s : HostState) (task : TaskRow) (fails : Bool) : Bool :=
  !fails && !s.store.refuses task

/-- The steps that keep what is claimed claimed. -/
def Sound (s : HostState) : HostStep → Prop
  | .crash =>
      match s.tick with
      | .claiming copy _ _ _ => claimReason copy.task = .schedule
      | _ => True
  | .tickUpdate fails =>
      match s.tick with
      | .claiming copy run now _ =>
          if s.commits copy.task fails then
            -- No user has written the row since, and the clock did not run back.
            copy.edition = s.edition copy.task.id ∧ ∀ slot, run.dueAt = some slot → slot ≤ now
          else
            claimReason copy.task = .schedule
      | _ => True
  | .execute runId (.bind _ fails) =>
      match s.executors.find? fun e => e.run.id = runId with
      | some ⟨copy, _, .binding _ _⟩ => s.commits copy.task fails = false
      | _ => True
  | .write index _ fails =>
      match s.editors[index]? with
      | some e =>
          fails = true ∨ e.edit.requests = true ∨
            ∀ n, e.copy.request = some n → s.Unclaimed e.copy.task.id n
      | none => True
  | _ => True

/-- The row keeps its settings; its slot may move on and its request may be cleared. -/
structure RowKept (t t' : TaskRow) (request request' : Option Nat) : Prop where
  settings : t'.settings = t.settings
  slot : t'.nextDueAt = t.nextDueAt ∨
    ∃ slot, t.nextDueAt = some slot ∧ ∀ next, t'.nextDueAt = some next → slot < next
  request : t'.pendingRequestAt = none ∧ request' = none ∨
    t'.pendingRequestAt = t.pendingRequestAt ∧ request' = request

/-- Every row is kept. -/
def Kept (s s' : HostState) : Prop :=
  ∀ id t, s.store.getTask id = some t →
    ∃ t', s'.store.getTask id = some t' ∧ RowKept t t' (s.requestOf id) (s'.requestOf id)

/-! ## The invariant -/

/-- The marks of a copy fit the row read. -/
structure Shown (copy : RowCopy) (calls : Nat) : Prop where
  shows : copy.task.pendingRequestAt.isSome = copy.request.isSome
  numbered : ∀ n, copy.request = some n → n < calls

/-- A candidate is the row, unless a user has written it since. -/
structure Candidate (s : HostState) (copy : RowCopy) : Prop extends Shown copy s.calls where
  due : claimReason copy.task = .schedule → copy.task.nextDueAt.isSome = true
  edition_le : copy.edition ≤ s.edition copy.task.id
  current : copy.edition = s.edition copy.task.id →
    s.store.getTask copy.task.id = some copy.task ∧ s.requestOf copy.task.id = copy.request

/-- The request is between the two writes of its claim. -/
def MidClaim (s : HostState) (taskId : String) (n : Nat) : Prop :=
  ∃ copy run now rest, s.tick = .claiming copy run now rest ∧
    copy.task.id = taskId ∧ copy.request = some n

theorem not_midClaim
    {s : HostState}
    (h : s.tick.isClaiming = false)
    (id : String)
    (n : Nat) :
    ¬ s.MidClaim id n := by
  rintro ⟨copy, run, now, rest, heq, -⟩
  exact Tick.ne_claiming h copy run now rest heq

/-- The rows and their copies agree on which requests were claimed. -/
structure Accounted (s : HostState) : Prop where
  tasks : s.store.TasksDistinct
  shown : ∀ t ∈ s.store.tasks, t.pendingRequestAt.isSome = (s.requestOf t.id).isSome
  numbered : ∀ id n, s.requestOf id = some n → n < s.calls
  claimedNumbered : ∀ c ∈ s.claimed, ∃ n, c.request = some n ∧ n < s.calls
  distinct : (s.claimed.map fun c => (c.taskId, c.request)).Nodup
  unclaimed : ∀ id n, s.requestOf id = some n → s.Unclaimed id n ∨ s.MidClaim id n
  editors : ∀ e ∈ s.editors, Shown e.copy s.calls
  copies : ∀ copy ∈ s.tick.copies, s.Candidate copy
  ids : (s.tick.copies.map (·.task.id)).Nodup
  waiting : ∀ copy ∈ s.tick.rest, ∀ n, copy.request = some n → s.Unclaimed copy.task.id n
  claiming : ∀ copy run now rest, s.tick = .claiming copy run now rest →
    run = claimedRun copy.task run.id now

/-- The run was made for a request. -/
def ClaimedAs (s : HostState) (runId : String) : Prop :=
  ∃ c ∈ s.claimed, c.runId = runId

/-- Rows, requests and editors are as they were. -/
structure SameRows (s s' : HostState) : Prop where
  tasks : s'.store.tasks = s.store.tasks
  requestOf : s'.requestOf = s.requestOf
  edition : s'.edition = s.edition
  calls : s'.calls = s.calls
  claimed : s'.claimed = s.claimed
  editors : s'.editors = s.editors

variable {env : TaskEnv} {s s' : HostState}

theorem SameRows.refl (s : HostState) : SameRows s s :=
  ⟨rfl, rfl, rfl, rfl, rfl, rfl⟩

theorem SameRows.getTask
    (h : SameRows s s')
    (id : String) :
    s'.store.getTask id = s.store.getTask id := by
  simp only [TaskStore.getTask, h.tasks]

theorem SameRows.kept
    (h : SameRows s s') :
    s.Kept s' := by
  intro id t ht
  refine ⟨t, (h.getTask id).trans ht, rfl, .inl rfl, .inr ⟨rfl, ?_⟩⟩
  rw [h.requestOf]

theorem SameRows.candidate
    (h : SameRows s s')
    {copy : RowCopy}
    (hcopy : s.Candidate copy) :
    s'.Candidate copy where
  shows := hcopy.shows
  numbered := by
    rw [h.calls]
    exact hcopy.numbered
  due := hcopy.due
  edition_le := by
    rw [h.edition]
    exact hcopy.edition_le
  current := by
    rw [h.edition, h.getTask, h.requestOf]
    exact hcopy.current

theorem SameRows.unclaimed
    (h : SameRows s s')
    {id : String}
    {n : Nat}
    (hunclaimed : s.Unclaimed id n) :
    s'.Unclaimed id n := by
  unfold Unclaimed
  rw [h.claimed]
  exact hunclaimed

/-- A step that leaves the rows alone: its tick goes on with some of the copies. -/
theorem Accounted.sameRows
    (h : s.Accounted)
    (hsame : SameRows s s')
    (hcopies : s'.tick.copies.Sublist s.tick.copies)
    (hrest : s'.tick.rest.Sublist s.tick.rest)
    (hmid : ∀ id n, s.MidClaim id n → s'.MidClaim id n)
    (hclaiming : ∀ copy run now rest, s'.tick = .claiming copy run now rest →
      run = claimedRun copy.task run.id now) :
    s'.Accounted where
  tasks := by
    unfold TaskStore.TasksDistinct
    rw [hsame.tasks]
    exact h.tasks
  shown := by
    rw [hsame.tasks, hsame.requestOf]
    exact h.shown
  numbered := by
    rw [hsame.requestOf, hsame.calls]
    exact h.numbered
  claimedNumbered := by
    rw [hsame.claimed, hsame.calls]
    exact h.claimedNumbered
  distinct := by
    rw [hsame.claimed]
    exact h.distinct
  unclaimed := by
    rw [hsame.requestOf]
    intro id n hn
    rcases h.unclaimed id n hn with hunclaimed | hmidClaim
    · exact .inl (hsame.unclaimed hunclaimed)
    · exact .inr (hmid id n hmidClaim)
  editors := by
    rw [hsame.editors, hsame.calls]
    exact h.editors
  copies := fun copy hcopy => hsame.candidate (h.copies copy (hcopies.subset hcopy))
  ids := h.ids.sublist (hcopies.map _)
  waiting := fun copy hcopy n hn => hsame.unclaimed (h.waiting copy (hrest.subset hcopy) n hn)
  claiming := hclaiming

/-- A step that leaves rows and tick alone. -/
theorem Accounted.sameTick
    (h : s.Accounted)
    (hsame : SameRows s s')
    (htick : s'.tick = s.tick) :
    s'.Accounted := by
  refine h.sameRows hsame (by rw [htick]) (by rw [htick]) ?_ ?_
  · rintro id n ⟨copy, run, now, rest, heq, hid⟩
    exact ⟨copy, run, now, rest, htick.trans heq, hid⟩
  · intro copy run now rest heq
    exact h.claiming copy run now rest (htick.symm.trans heq)

/-- A step that ends the tick, not between the writes of an explicit claim. -/
theorem Accounted.endTick
    (h : s.Accounted)
    (hsame : SameRows s s')
    (hmid : ∀ id n, ¬ s.MidClaim id n)
    (hnone : s'.tick.copies = []) :
    s'.Accounted := by
  have hrest : s'.tick.rest = [] := by
    cases htick : s'.tick <;> simp_all [Tick.copies, Tick.rest]
  refine h.sameRows hsame (by simp [hnone]) (by simp [hrest])
    (fun id n hn => absurd hn (hmid id n)) ?_
  intro copy run now rest heq
  rw [heq] at hnone
  cases hnone

/-! ## Steps that leave the rows alone -/

theorem sameRows_setExecutor (s : HostState) (e : Executor) : SameRows s (s.setExecutor e) :=
  ⟨rfl, rfl, rfl, rfl, rfl, rfl⟩

/-- An update that does not commit is an error. -/
theorem updateTask_of_not_commits
    {task : TaskRow}
    {fails : Bool}
    (hcommits : s.commits task fails = false)
    (hfails : fails = false) :
    s.store.updateTask task = .error (s.store.nameError task.name) := by
  have hrefuses : s.store.refuses task = true := by
    simpa [commits, hfails] using hcommits
  simp only [TaskStore.updateTask, hrefuses, if_true]

theorem sameRows_writeRun
    (s : HostState)
    (e : Executor)
    (run : TaskRun)
    (fails : Bool)
    (done failed : Stage) :
    SameRows s (s.writeRun e run fails done failed) ∧
      (s.writeRun e run fails done failed).tick = s.tick := by
  unfold writeRun
  split
  · exact ⟨sameRows_setExecutor s _, rfl⟩
  · split
    · exact ⟨sameRows_setExecutor s _, rfl⟩
    · rename_i store hstore
      exact ⟨⟨TaskStore.updateRun_tasks hstore, rfl, rfl, rfl, rfl, rfl⟩, rfl⟩

theorem interruptRun_tasks
    {store store' : TaskStore}
    {id : String}
    {now : Int}
    (h : interruptRun store id now = .ok store') :
    store'.tasks = store.tasks := by
  unfold interruptRun at h
  split at h
  · split at h
    · exact TaskStore.updateRun_tasks h
    · cases h
      rfl
  · cases h
    rfl

theorem sameRows_leave
    (s : HostState)
    (e : Executor)
    (now : Int)
    (fails : Bool) :
    SameRows s (s.leave e now fails) := by
  refine ⟨?_, rfl, rfl, rfl, rfl, rfl⟩
  unfold leave
  cases fails with
  | true =>
      rfl
  | false =>
      cases hinterrupt : interruptRun s.store e.run.id now with
      | error err =>
          simp [Except.toOption]
      | ok store =>
          simpa [hinterrupt, Except.toOption] using interruptRun_tasks hinterrupt

/-- What an executor does but to bind a conversation. -/
theorem sameRows_execute
    {e : Executor}
    {action : ExecutorAction}
    (hbind : ∀ threadId sessionId now fails, action = .bind now fails →
      e.stage = .binding threadId sessionId → s.commits e.copy.task fails = false) :
    SameRows s (s.execute e action) ∧ (s.execute e action).tick = s.tick := by
  cases action with
  | openSession ids =>
      simp only [execute]
      split
      · exact ⟨sameRows_setExecutor s _, rfl⟩
      · split <;> exact ⟨sameRows_setExecutor s _, rfl⟩
      · exact ⟨.refl s, rfl⟩
  | bind now fails =>
      simp only [execute]
      split
      · rename_i threadId sessionId hstage
        have hcommits := hbind threadId sessionId now fails rfl hstage
        unfold bind
        cases fails with
        | true =>
            exact ⟨sameRows_setExecutor s _, rfl⟩
        | false =>
            have herror : s.store.updateTask (boundTask e.copy.task threadId now) =
                .error (s.store.nameError e.copy.task.name) :=
              updateTask_of_not_commits hcommits rfl
            rw [herror]
            exact ⟨sameRows_setExecutor s _, rfl⟩
      · exact ⟨.refl s, rfl⟩
  | recordSession fails =>
      simp only [execute]
      split
      · exact sameRows_writeRun s e _ fails _ _
      · exact ⟨.refl s, rfl⟩
  | settle outcome now fails =>
      simp only [execute]
      split
      · exact sameRows_writeRun s e _ fails _ _
      · exact sameRows_writeRun s e _ fails _ _
      · exact ⟨.refl s, rfl⟩
  | forgetConversation =>
      simp only [execute]
      split
      · exact ⟨⟨rfl, rfl, rfl, rfl, rfl, rfl⟩, rfl⟩
      · exact ⟨.refl s, rfl⟩
  | leave now fails =>
      exact ⟨sameRows_leave s e now fails, rfl⟩

theorem reapOrphanedRuns_tasks
    (store : TaskStore)
    (owner : String)
    (live : List String)
    (now : Int)
    (failing : List String) :
    (reapOrphanedRuns store owner live now failing).tasks = store.tasks := by
  unfold reapOrphanedRuns
  generalize store.runningRunOwners = rows
  induction rows generalizing store with
  | nil =>
      rfl
  | cons row rows ih =>
      rw [List.foldl_cons, ih]
      split <;> rfl

/-! ## Steps that read or write rows -/

section Rows

theorem Accounted.copyOf
    (h : s.Accounted)
    {t : TaskRow}
    (ht : t ∈ s.store.tasks) :
    Shown (s.copyOf t) s.calls :=
  ⟨h.shown t ht, h.numbered t.id⟩

/-- The candidates of a tick are rows just read. -/
theorem Accounted.tickList
    (h : s.Accounted)
    (htick : s.tick = .reaped)
    (now : Int) :
    Accounted { s with tick := .scanning ((candidates s.store now).map s.copyOf) } := by
  have hno : ∀ id n, ¬ s.MidClaim id n := not_midClaim (by rw [htick]; rfl)
  have hcopy : ∀ copy ∈ (candidates s.store now).map s.copyOf,
      ∃ t ∈ s.store.tasks, TaskStore.isDue now t = true ∧ copy = s.copyOf t := by
    intro copy hmem
    obtain ⟨t, ht, rfl⟩ := List.mem_map.1 hmem
    obtain ⟨htasks, hdue⟩ := TaskStore.mem_listDueTasks.1 ht
    exact ⟨t, htasks, hdue, rfl⟩
  have hunclaimed : ∀ id n, s.requestOf id = some n → s.Unclaimed id n := fun id n hn =>
    (h.unclaimed id n hn).resolve_right (hno id n)
  refine ⟨h.tasks, h.shown, h.numbered, h.claimedNumbered, h.distinct, ?_, h.editors, ?_, ?_,
    ?_, ?_⟩
  · exact fun id n hn => .inl (hunclaimed id n hn)
  · intro copy hmem
    obtain ⟨t, ht, hdue, rfl⟩ := hcopy copy hmem
    refine ⟨h.copyOf ht, fun hreason => ?_, le_refl _, fun _ => ⟨h.tasks.getTask ht, rfl⟩⟩
    obtain ⟨slot, hslot, -⟩ :=
      TaskStore.nextDueAt_of_isDue hdue (claimReason_eq_schedule.1 hreason)
    exact Option.isSome_iff_exists.2 ⟨slot, hslot⟩
  · have hids := h.tasks.listDueTasks now
    simpa [Tick.copies, candidates, HostState.copyOf, Function.comp_def] using hids
  · intro copy hmem n hn
    obtain ⟨t, -, -, rfl⟩ := hcopy copy hmem
    exact hunclaimed t.id n hn
  · intro copy run now rest heq
    cases heq

/-- The insert of a claim makes its request claimed. -/
theorem Accounted.tickInsert
    (h : s.Accounted)
    {copy : RowCopy}
    {rest : List RowCopy}
    (htick : s.tick = .scanning (copy :: rest))
    (owner : String)
    (now : Int)
    (runId : String)
    (fails : Bool) :
    (s.tickInsert owner now runId fails copy rest).Accounted := by
  have hno : ∀ id n, ¬ s.MidClaim id n := not_midClaim (by rw [htick]; rfl)
  have hcandidates : ∀ c ∈ copy :: rest, s.Candidate c := by
    simpa only [htick, Tick.copies] using h.copies
  have hids : ((copy :: rest).map (·.task.id)).Nodup := by
    simpa only [htick, Tick.copies] using h.ids
  have hwaiting : ∀ c ∈ copy :: rest, ∀ n, c.request = some n → s.Unclaimed c.task.id n := by
    simpa only [htick, Tick.rest] using h.waiting
  have hcopy := hcandidates copy List.mem_cons_self
  unfold HostState.tickInsert
  split
  · exact h.endTick ⟨rfl, rfl, rfl, rfl, rfl, rfl⟩ hno rfl
  split
  · refine h.sameRows ⟨rfl, rfl, rfl, rfl, rfl, rfl⟩ ?_ ?_ (fun id n hn => absurd hn (hno id n)) ?_
    · simp [htick, Tick.copies]
    · simp [htick, Tick.rest]
    · intro copy run now rest heq
      cases heq
  split
  · exact h.endTick ⟨rfl, rfl, rfl, rfl, rfl, rfl⟩ hno rfl
  rename_i store hinsert
  have htasks := TaskStore.insertRunOwned_tasks hinsert
  cases hreason : claimReason copy.task with
  | schedule =>
      have hnone : copy.request = none := by
        simpa [claimReason_eq_schedule.1 hreason] using hcopy.shows.symm
      refine h.sameRows ⟨htasks, rfl, rfl, rfl, rfl, rfl⟩ ?_ ?_
        (fun id n hn => absurd hn (hno id n)) ?_
      · simp [htick, Tick.copies]
      · simp [htick, Tick.rest]
      · intro copy run now rest heq
        cases heq
        rfl
  | explicit =>
      have hsome := claimReason_eq_explicit.1 hreason
      obtain ⟨n, hn⟩ := Option.isSome_iff_exists.1 (hcopy.shows ▸ hsome)
      have hfree := hwaiting copy List.mem_cons_self n hn
      -- What was unclaimed stays so, but for this request.
      have hstill : ∀ id m, s.Unclaimed id m → id ≠ copy.task.id ∨ m ≠ n →
          ∀ c ∈ s.claimed ++ [(⟨copy.task.id, copy.request, runId⟩ : Claimed)],
            c.taskId = id → c.request ≠ some m := by
        intro id m hunclaimed hne c hc htask
        rcases List.mem_append.1 hc with hc | hc
        · exact hunclaimed c hc htask
        · obtain rfl := List.mem_singleton.1 hc
          intro hreq
          obtain rfl : n = m := by
            rw [hn] at hreq
            exact Option.some.inj hreq
          rcases hne with hid | hm
          · exact hid htask.symm
          · exact hm rfl
      refine ⟨?_, ?_, h.numbered, ?_, ?_, ?_, h.editors, ?_, hids, ?_, ?_⟩
      · unfold TaskStore.TasksDistinct
        rw [htasks]
        exact h.tasks
      · dsimp only
        rw [htasks]
        exact h.shown
      · intro c hc
        rcases List.mem_append.1 hc with hc | hc
        · exact h.claimedNumbered c hc
        · obtain rfl := List.mem_singleton.1 hc
          exact ⟨n, hn, hcopy.numbered n hn⟩
      · dsimp only
        rw [List.map_append, List.nodup_append]
        refine ⟨h.distinct, List.nodup_singleton _, ?_⟩
        rintro key hkey key' hkey' rfl
        obtain ⟨c, hc, heq⟩ := List.mem_map.1 hkey
        obtain rfl := List.mem_singleton.1 hkey'
        obtain ⟨hid, hreq⟩ := Prod.mk.inj heq
        exact hfree c hc hid (hreq.trans hn)
      · intro id m hm
        by_cases hthis : id = copy.task.id ∧ m = n
        · obtain ⟨rfl, rfl⟩ := hthis
          exact .inr ⟨copy, _, now, rest, rfl, rfl, hn⟩
        · refine .inl (hstill id m ((h.unclaimed id m hm).resolve_right (hno id m)) ?_)
          by_cases hid : id = copy.task.id
          · exact .inr fun hmn => hthis ⟨hid, hmn⟩
          · exact .inl hid
      · intro c hc
        have hcand := hcandidates c hc
        refine ⟨hcand.toShown, hcand.due, hcand.edition_le, fun hedition => ?_⟩
        simp only [TaskStore.getTask, htasks]
        exact hcand.current hedition
      · intro c hc m hm
        refine hstill _ m (hwaiting c (List.mem_cons_of_mem _ hc) m hm) (.inl ?_)
        rw [List.map_cons, List.nodup_cons] at hids
        intro heq
        exact hids.1 (heq ▸ List.mem_map_of_mem hc)
      · intro copy run now rest heq
        cases heq
        rfl

theorem shown_updateTask
    {store store' : TaskStore}
    {task : TaskRow}
    {requestOf : String → Option Nat}
    {request : Option Nat}
    (hshown : ∀ t ∈ store.tasks, t.pendingRequestAt.isSome = (requestOf t.id).isSome)
    (h : store.updateTask task = .ok store')
    (htask : task.pendingRequestAt.isSome = request.isSome) :
    ∀ t ∈ store'.tasks,
      t.pendingRequestAt.isSome = (Function.update requestOf task.id request t.id).isSome := by
  obtain ⟨-, rfl⟩ := TaskStore.updateTask_eq_ok.1 h
  intro t' ht'
  obtain ⟨t, ht, rfl⟩ := List.mem_map.1 ht'
  by_cases hid : t.id = task.id
  · simpa [hid] using htask
  · simpa [hid] using hshown t ht

/-- The claim goes through: the row is the candidate, moved on and without its request. -/
theorem Accounted.tickUpdate
    (h : s.Accounted)
    {copy : RowCopy}
    {run : TaskRun}
    {now : Int}
    {rest : List RowCopy}
    (htick : s.tick = .claiming copy run now rest)
    {fails : Bool}
    (hsound : s.commits copy.task fails = false → claimReason copy.task = .schedule) :
    (s.tickUpdate env fails copy run now rest).Accounted := by
  have hcopies : ∀ c ∈ copy :: rest, s.Candidate c := by
    simpa only [htick, Tick.copies] using h.copies
  have hids : ((copy :: rest).map (·.task.id)).Nodup := by
    simpa only [htick, Tick.copies] using h.ids
  have hmidIff : ∀ id n, s.MidClaim id n → copy.task.id = id ∧ copy.request = some n := by
    rintro id n ⟨copy', run', now', rest', heq, hid, hn⟩
    rw [htick] at heq
    cases heq
    exact ⟨hid, hn⟩
  have hend : s.commits copy.task fails = false → ∀ id n, ¬ s.MidClaim id n := by
    intro hno id n hmid
    have hnone : copy.request.isSome = false := by
      rw [← (hcopies copy List.mem_cons_self).shows]
      exact claimReason_eq_schedule.1 (hsound hno)
    rw [(hmidIff id n hmid).2] at hnone
    cases hnone
  unfold HostState.tickUpdate
  split
  · rename_i hfails
    exact h.endTick ⟨rfl, rfl, rfl, rfl, rfl, rfl⟩ (hend (by simp [commits, hfails])) rfl
  split
  · rename_i err herr
    refine h.endTick ⟨rfl, rfl, rfl, rfl, rfl, rfl⟩ (hend ?_) rfl
    by_contra hcommits
    have hrefuses : s.store.refuses (claimedTask env copy.task now) = false := by
      have hboth : fails = false ∧ s.store.refuses copy.task = false := by
        simpa [commits] using hcommits
      exact hboth.2
    have hok := TaskStore.updateTask_eq_ok.2 ⟨hrefuses, rfl⟩
    rw [herr] at hok
    cases hok
  rename_i store hupdate
  have hother : ∀ c ∈ rest, c.task.id ≠ copy.task.id := by
    intro c hc heq
    rw [List.map_cons, List.nodup_cons] at hids
    exact hids.1 (heq ▸ List.mem_map_of_mem hc)
  refine ⟨h.tasks.updateTask hupdate, ?_, ?_, h.claimedNumbered, h.distinct, ?_, h.editors, ?_,
    (List.nodup_cons.1 hids).2, ?_, ?_⟩
  · have hnone : (claimedTask env copy.task now).pendingRequestAt.isSome =
        (none : Option Nat).isSome := rfl
    have hrows := shown_updateTask h.shown hupdate hnone
    exact hrows
  · intro id n hn
    by_cases hid : id = copy.task.id
    · simp [hid] at hn
    · dsimp only at hn ⊢
      rw [Function.update_of_ne hid] at hn
      exact h.numbered id n hn
  · intro id n hn
    by_cases hid : id = copy.task.id
    · simp [hid] at hn
    · dsimp only at hn ⊢
      rw [Function.update_of_ne hid] at hn
      rcases h.unclaimed id n hn with hunclaimed | hmid
      · exact .inl hunclaimed
      · exact absurd (hmidIff id n hmid).1.symm hid
  · intro c hc
    have hcand := hcopies c (List.mem_cons_of_mem _ hc)
    refine ⟨hcand.toShown, hcand.due, hcand.edition_le, fun hedition => ?_⟩
    have hrow := TaskStore.getTask_updateTask_of_ne hupdate (hother c hc)
    dsimp only
    rw [hrow, Function.update_of_ne (hother c hc)]
    exact hcand.current hedition
  · intro c hc n hn
    refine h.waiting c ?_ n hn
    rw [htick]
    exact hc
  · intro copy run now rest heq
    cases heq

/-- Every edit keeps the key of its task, and all but a request keep the request. -/
theorem TaskEdit_apply_id
    (env : TaskEnv)
    (edit : TaskEdit)
    (task : TaskRow)
    (now : Int) :
    (edit.apply env task now).id = task.id ∧
      (edit.apply env task now).pendingRequestAt =
        if edit.requests then some now else task.pendingRequestAt := by
  cases edit with
  | save input =>
      simp only [TaskEdit.apply, savedTask]
      split <;> exact ⟨rfl, rfl⟩
  | patch changes =>
      simp only [TaskEdit.apply, patchedTask]
      split <;> exact ⟨rfl, rfl⟩
  | set changes =>
      simp only [TaskEdit.apply, setTask]
      split <;> exact ⟨rfl, rfl⟩
  | setEnabled enabled =>
      simp only [TaskEdit.apply, applyTaskEnabled]
      split <;> exact ⟨rfl, rfl⟩
  | delete =>
      exact ⟨rfl, rfl⟩
  | runNow origin actor =>
      exact ⟨rfl, rfl⟩
  | applyRevision prompt version =>
      exact ⟨rfl, rfl⟩

/-- A user's write makes every copy of its row an old one. -/
theorem Accounted.write
    (h : s.Accounted)
    {e : Editor}
    (hshown : Shown e.copy s.calls)
    {now : Int}
    {fails : Bool}
    (hsound : fails = true ∨ e.edit.requests = true ∨
      ∀ n, e.copy.request = some n → s.Unclaimed e.copy.task.id n) :
    (s.write env e now fails).Accounted := by
  unfold HostState.write
  split
  · exact h
  rename_i hfails
  split
  · exact h
  rename_i store hupdate
  obtain ⟨hid, hpending⟩ := TaskEdit_apply_id env e.edit e.copy.task now
  have hcalls : s.calls ≤ if e.edit.requests then s.calls + 1 else s.calls := by
    split <;> omega
  -- The request the row shows from now on.
  have hrequest : ∀ n, (if e.edit.requests then some s.calls else e.copy.request) = some n →
      n < (if e.edit.requests then s.calls + 1 else s.calls) ∧
        s.Unclaimed e.copy.task.id n := by
    intro n hn
    cases hedit : e.edit.requests with
    | true =>
        simp only [hedit, if_true, Option.some.injEq] at hn ⊢
        subst hn
        refine ⟨Nat.lt_succ_self _, fun c hc _ hreq => ?_⟩
        obtain ⟨m, hm, hlt⟩ := h.claimedNumbered c hc
        rw [hreq] at hm
        exact absurd (Option.some.inj hm) (by omega)
    | false =>
        simp only [hedit, Bool.false_eq_true, if_false] at hn ⊢
        refine ⟨hshown.numbered n hn, ?_⟩
        rcases hsound with hfail | hreq | hunclaimed
        · exact absurd hfail hfails
        · rw [hedit] at hreq
          cases hreq
        · exact hunclaimed n hn
  have hold : ∀ c : RowCopy, Shown c s.calls →
      Shown c (if e.edit.requests then s.calls + 1 else s.calls) := fun c hc =>
    ⟨hc.shows, fun n hn => lt_of_lt_of_le (hc.numbered n hn) hcalls⟩
  refine ⟨h.tasks.updateTask hupdate, ?_, ?_, ?_, h.distinct, ?_, ?_, ?_, h.ids, h.waiting,
    h.claiming⟩
  · have hshows : (e.edit.apply env e.copy.task now).pendingRequestAt.isSome =
        (if e.edit.requests then some s.calls else e.copy.request).isSome := by
      rw [hpending]
      cases e.edit.requests
      · exact hshown.shows
      · rfl
    have hrows := shown_updateTask h.shown hupdate hshows
    rw [hid] at hrows
    exact hrows
  · intro id n hn
    dsimp only at hn ⊢
    by_cases hthis : id = e.copy.task.id
    · subst hthis
      rw [Function.update_self] at hn
      exact (hrequest n hn).1
    · rw [Function.update_of_ne hthis] at hn
      exact lt_of_lt_of_le (h.numbered id n hn) hcalls
  · intro c hc
    obtain ⟨n, hn, hlt⟩ := h.claimedNumbered c hc
    exact ⟨n, hn, lt_of_lt_of_le hlt hcalls⟩
  · intro id n hn
    dsimp only at hn ⊢
    by_cases hthis : id = e.copy.task.id
    · subst hthis
      rw [Function.update_self] at hn
      exact .inl (hrequest n hn).2
    · rw [Function.update_of_ne hthis] at hn
      exact h.unclaimed id n hn
  · exact fun e' he' => hold _ (h.editors e' he')
  · intro c hc
    have hcand := h.copies c hc
    refine ⟨hold c hcand.toShown, hcand.due, ?_, ?_⟩
    · dsimp only
      by_cases hthis : c.task.id = e.copy.task.id
      · rw [hthis, Function.update_self]
        have := hcand.edition_le
        rw [hthis] at this
        omega
      · rw [Function.update_of_ne hthis]
        exact hcand.edition_le
    · dsimp only
      intro hedition
      by_cases hthis : c.task.id = e.copy.task.id
      · rw [hthis, Function.update_self] at hedition
        have := hcand.edition_le
        rw [hthis] at this
        omega
      · rw [Function.update_of_ne hthis] at hedition
        rw [TaskStore.getTask_updateTask_of_ne hupdate (by rwa [hid]),
          Function.update_of_ne hthis]
        exact hcand.current hedition

/-- Editors come and go. -/
theorem Accounted.withEditors
    (h : s.Accounted)
    {editors : List Editor}
    (heditors : ∀ e ∈ editors, Shown e.copy s.calls) :
    Accounted { s with editors := editors } where
  tasks := h.tasks
  shown := h.shown
  numbered := h.numbered
  claimedNumbered := h.claimedNumbered
  distinct := h.distinct
  unclaimed := h.unclaimed
  editors := heditors
  copies := fun copy hcopy =>
    let hcand := h.copies copy hcopy
    ⟨hcand.toShown, hcand.due, hcand.edition_le, hcand.current⟩
  ids := h.ids
  waiting := h.waiting
  claiming := h.claiming

theorem write_editors
    (env : TaskEnv)
    (s : HostState)
    (e : Editor)
    (now : Int)
    (fails : Bool) :
    (s.write env e now fails).editors = s.editors := by
  unfold HostState.write
  split
  · rfl
  · split <;> rfl

theorem createdTask_id
    (env : TaskEnv)
    (id : String)
    (input : TaskInput)
    (now : Int) :
    (createdTask env id input now).id = id ∧
      (createdTask env id input now).pendingRequestAt = none := by
  unfold createdTask
  dsimp only
  split <;> exact ⟨rfl, rfl⟩

/-- A created task shows no request. -/
theorem Accounted.create
    (h : s.Accounted)
    {task : TaskRow}
    {store : TaskStore}
    (hpending : task.pendingRequestAt = none)
    (hinsert : s.store.insertTask task = .ok store) :
    Accounted
      { s with store := store, requestOf := Function.update s.requestOf task.id none } := by
  have hnone := (TaskStore.insertTask_eq_ok.1 hinsert).1
  have hrow : ∀ t ∈ s.store.tasks, t.id ≠ task.id := by
    intro t ht heq
    have hsome := TaskStore.getTask_isSome_of_mem ht
    rw [heq, hnone] at hsome
    cases hsome
  refine ⟨h.tasks.insertTask hinsert, ?_, ?_, h.claimedNumbered, h.distinct, ?_, h.editors, ?_,
    h.ids, h.waiting, h.claiming⟩
  · obtain ⟨-, -, rfl⟩ := TaskStore.insertTask_eq_ok.1 hinsert
    intro t ht
    rcases List.mem_append.1 ht with ht | ht
    · dsimp only
      rw [Function.update_of_ne (hrow t ht)]
      exact h.shown t ht
    · obtain rfl := List.mem_singleton.1 ht
      simp [hpending]
  · intro id n hn
    by_cases hid : id = task.id
    · simp [hid] at hn
    · dsimp only at hn ⊢
      rw [Function.update_of_ne hid] at hn
      exact h.numbered id n hn
  · intro id n hn
    by_cases hid : id = task.id
    · simp [hid] at hn
    · dsimp only at hn ⊢
      rw [Function.update_of_ne hid] at hn
      exact h.unclaimed id n hn
  · intro c hc
    have hcand := h.copies c hc
    refine ⟨hcand.toShown, hcand.due, hcand.edition_le, fun hedition => ?_⟩
    have hcurrent := hcand.current hedition
    have hid : c.task.id ≠ task.id := by
      intro heq
      rw [heq, hnone] at hcurrent
      cases hcurrent.1
    dsimp only
    rw [TaskStore.getTask_insertTask hinsert, if_neg hid, Function.update_of_ne hid]
    exact hcurrent

end Rows

/-! ## Whole steps -/

theorem Sound.bind
    {runId : String}
    {action : ExecutorAction}
    {e : Executor}
    (hsound : s.Sound (.execute runId action))
    (hfind : (s.executors.find? fun e => e.run.id = runId) = some e)
    (threadId sessionId : String)
    (now : Int)
    (fails : Bool)
    (haction : action = .bind now fails)
    (hstage : e.stage = .binding threadId sessionId) :
    s.commits e.copy.task fails = false := by
  subst haction
  obtain ⟨copy, run, stage⟩ := e
  subst hstage
  simpa only [Sound, hfind] using hsound

theorem Accounted.step
    (h : s.Accounted)
    (op : HostStep)
    (hsound : s.Sound op) :
    (s.step env op).Accounted := by
  cases op with
  | boot owner now fails =>
      simp only [HostState.step]
      split
      · exact h
      · refine h.sameTick ⟨?_, rfl, rfl, rfl, rfl, rfl⟩ rfl
        cases fails <;> rfl
  | crash =>
      refine h.endTick ⟨rfl, rfl, rfl, rfl, rfl, rfl⟩ ?_ rfl
      rintro id n ⟨copy, run, now, rest, htick, -, hn⟩
      have hcopy := h.copies copy (by simp [htick, Tick.copies])
      have hnone : copy.request.isSome = false := by
        rw [← hcopy.shows]
        simp only [Sound, htick] at hsound
        exact claimReason_eq_schedule.1 hsound
      rw [hn] at hnone
      cases hnone
  | tickReap now failing =>
      simp only [HostState.step]
      split
      · rename_i owner _ htick
        exact h.endTick ⟨reapOrphanedRuns_tasks _ _ _ _ _, rfl, rfl, rfl, rfl, rfl⟩
          (not_midClaim (by rw [htick]; rfl)) rfl
      · exact h
  | tickList now fails =>
      simp only [HostState.step]
      split
      · rename_i htick
        split
        · exact h.endTick ⟨rfl, rfl, rfl, rfl, rfl, rfl⟩ (not_midClaim (by rw [htick]; rfl)) rfl
        · exact h.tickList htick now
      · exact h
  | tickInsert now runId fails =>
      simp only [HostState.step]
      split
      · rename_i htick
        exact h.endTick ⟨rfl, rfl, rfl, rfl, rfl, rfl⟩ (not_midClaim (by rw [htick]; rfl)) rfl
      · rename_i htick
        exact h.tickInsert htick _ now runId fails
      · exact h
  | tickUpdate fails =>
      simp only [HostState.step]
      split
      · rename_i copy run now rest htick
        refine h.tickUpdate htick fun hno => ?_
        simpa only [Sound, htick, hno, Bool.false_eq_true, if_false] using hsound
      · exact h
  | execute runId action =>
      simp only [HostState.step]
      split
      · rename_i e hfind
        obtain ⟨hsame, htick⟩ := sameRows_execute (hsound.bind hfind)
        exact h.sameTick hsame htick
      · exact h
  | create id input now =>
      simp only [HostState.step]
      split
      · exact h
      · rename_i store hinsert
        obtain ⟨hid, hpending⟩ := createdTask_id env id input now
        have hcreated := h.create hpending hinsert
        rw [hid] at hcreated
        exact hcreated
  | read taskId edit =>
      simp only [HostState.step]
      split
      · rename_i task htask
        refine h.withEditors fun e he => ?_
        rcases List.mem_append.1 he with he | he
        · exact h.editors e he
        · obtain rfl := List.mem_singleton.1 he
          exact h.copyOf (TaskStore.mem_of_getTask htask).1
      · exact h
  | write index now fails =>
      simp only [HostState.step]
      split
      · rename_i e he
        simp only [Sound, he] at hsound
        have hwritten : (s.write env e now fails).Accounted :=
          h.write (h.editors e (List.mem_of_getElem? he)) hsound
        have hless : ∀ e' ∈ s.editors.eraseIdx index,
            Shown e'.copy (s.write env e now fails).calls := fun e' he' =>
          hwritten.editors e' (write_editors env s e now fails ▸ List.mem_of_mem_eraseIdx he')
        exact hwritten.withEditors hless
      · exact h

/-! ## Runs -/

section Runs

variable {store store' : TaskStore}

/-- Slots are run once, and the runs by request are among the given ones. -/
structure ManualIn (store : TaskStore) (claimed : String → Prop) : Prop where
  runs : store.RunsDistinct
  rows : ∀ r ∈ store.runs, r.kind = .manual → claimed r.id

theorem ManualIn.mono
    {p q : String → Prop}
    (h : ManualIn store p)
    (hpq : ∀ id, p id → q id) :
    ManualIn store q :=
  ⟨h.runs, fun r hr hkind => hpq r.id (h.rows r hr hkind)⟩

theorem ManualIn.failRunning
    {claimed : String → Prop}
    (h : ManualIn store claimed)
    (p : RunRow → Bool)
    (now : Int)
    (error reason note : String) :
    ManualIn (store.failRunning p now error reason note) claimed := by
  refine ⟨h.runs.failRunning p now error reason note, fun r' hr' => ?_⟩
  obtain ⟨r, hr, rfl⟩ := List.mem_map.1 hr'
  split <;> exact h.rows r hr

theorem ManualIn.markRunConversationDeleted
    {claimed : String → Prop}
    (h : ManualIn store claimed)
    (id : String) :
    ManualIn (store.markRunConversationDeleted id) claimed := by
  refine ⟨h.runs.markRunConversationDeleted id, fun r' hr' => ?_⟩
  obtain ⟨r, hr, rfl⟩ := List.mem_map.1 hr'
  split <;> exact h.rows r hr

theorem ManualIn.insertRunOwned
    {claimed : String → Prop}
    (h : ManualIn store claimed)
    {run : TaskRun}
    {owner : Option String}
    (hrun : run.kind = .manual → claimed run.id)
    (hinsert : store.insertRunOwned run owner = .ok store') :
    ManualIn store' claimed := by
  refine ⟨h.runs.insertRunOwned hinsert, fun r hr => ?_⟩
  obtain ⟨-, -, -, rfl⟩ := TaskStore.insertRunOwned_eq_ok.1 hinsert
  rcases List.mem_append.1 hr with hr | hr
  · exact h.rows r hr
  · obtain rfl := List.mem_singleton.1 hr
    exact hrun

theorem ManualIn.updateRun
    {claimed : String → Prop}
    (h : ManualIn store claimed)
    {run : TaskRun}
    (hrun : run.kind = .manual → claimed run.id)
    (hupdate : store.updateRun run = .ok store') :
    ManualIn store' claimed := by
  refine ⟨h.runs.updateRun hupdate, fun r' hr' => ?_⟩
  obtain ⟨-, rfl⟩ := TaskStore.updateRun_eq_ok.1 hupdate
  obtain ⟨r, hr, rfl⟩ := List.mem_map.1 hr'
  split
  · exact hrun
  · exact h.rows r hr

theorem ManualIn.interruptRun
    {claimed : String → Prop}
    (h : ManualIn store claimed)
    {id : String}
    {now : Int}
    (hinterrupt : interruptRun store id now = .ok store') :
    ManualIn store' claimed := by
  unfold Tasks.interruptRun at hinterrupt
  split at hinterrupt
  · rename_i run hrun
    have hmem : run ∈ store.runs := List.mem_of_find?_eq_some hrun
    split at hinterrupt
    · refine h.updateRun ?_ hinterrupt
      exact h.rows run hmem
    · cases hinterrupt
      exact h
  · cases hinterrupt
    exact h

theorem ManualIn.reapOrphanedRuns
    {claimed : String → Prop}
    (h : ManualIn store claimed)
    (owner : String)
    (live : List String)
    (now : Int)
    (failing : List String) :
    ManualIn (reapOrphanedRuns store owner live now failing) claimed := by
  unfold Tasks.reapOrphanedRuns
  generalize store.runningRunOwners = rows
  induction rows generalizing store with
  | nil =>
      exact h
  | cons row rows ih =>
      rw [List.foldl_cons]
      refine ih ?_
      split
      · exact h.failRunning _ now _ _ _
      · exact h

end Runs

/-- Everything that carries a run by request names a claimed one. -/
structure RunsClaimed (s : HostState) : Prop where
  store : ManualIn s.store s.ClaimedAs
  executors : ∀ e ∈ s.executors, e.run.kind = .manual → s.ClaimedAs e.run.id
  claiming : ∀ copy run now rest, s.tick = .claiming copy run now rest →
    run.kind = .manual → s.ClaimedAs run.id

/-- A step of the tick or of a user that leaves the runs alone. -/
theorem RunsClaimed.sameRuns
    (h : s.RunsClaimed)
    (hruns : s'.store.runs = s.store.runs)
    (hclaimed : s'.claimed = s.claimed)
    (hexecutors : s'.executors = s.executors)
    (htick : s'.tick = s.tick) :
    s'.RunsClaimed where
  store := by
    refine ⟨?_, ?_⟩
    · unfold TaskStore.RunsDistinct
      rw [hruns]
      exact h.store.runs
    · unfold ClaimedAs
      rw [hruns, hclaimed]
      exact h.store.rows
  executors := by
    unfold ClaimedAs
    rw [hexecutors, hclaimed]
    exact h.executors
  claiming := by
    unfold ClaimedAs
    rw [htick, hclaimed]
    exact h.claiming

theorem RunsClaimed.setExecutor
    (h : s.RunsClaimed)
    {e : Executor}
    (he : e.run.kind = .manual → s.ClaimedAs e.run.id) :
    (s.setExecutor e).RunsClaimed := by
  refine ⟨h.store, fun e' he' => ?_, h.claiming⟩
  obtain ⟨e₀, he₀, rfl⟩ := List.mem_map.1 he'
  split
  · exact he
  · exact h.executors e₀ he₀

theorem RunsClaimed.withStore
    (h : s.RunsClaimed)
    {store : TaskStore}
    (hstore : ManualIn store s.ClaimedAs) :
    RunsClaimed { s with store := store } :=
  ⟨hstore, h.executors, h.claiming⟩

theorem RunsClaimed.writeRun
    (h : s.RunsClaimed)
    {e : Executor}
    {run : TaskRun}
    (hrun : run.kind = .manual → s.ClaimedAs run.id)
    (fails : Bool)
    (done failed : Stage) :
    (s.writeRun e run fails done failed).RunsClaimed := by
  unfold HostState.writeRun
  split
  · exact h.setExecutor hrun
  · split
    · exact h.setExecutor hrun
    · rename_i store hupdate
      have hset : (s.setExecutor { e with run := run, stage := done }).RunsClaimed :=
        h.setExecutor hrun
      exact hset.withStore (h.store.updateRun hrun hupdate)

theorem settledRun_kind
    (run : TaskRun)
    (outcome : Outcome)
    (now : Int) :
    (settledRun run outcome now).kind = run.kind ∧ (settledRun run outcome now).id = run.id := by
  cases outcome <;> exact ⟨rfl, rfl⟩

theorem RunsClaimed.execute
    (h : s.RunsClaimed)
    {e : Executor}
    (he : e ∈ s.executors)
    (action : ExecutorAction) :
    (s.execute e action).RunsClaimed := by
  have hrun := h.executors e he
  cases action with
  | openSession ids =>
      simp only [HostState.execute]
      split
      · exact h.setExecutor hrun
      · split <;> exact h.setExecutor hrun
      · exact h
  | bind now fails =>
      simp only [HostState.execute]
      split
      · unfold HostState.bind
        split
        · exact h.setExecutor hrun
        · split
          · exact h.setExecutor hrun
          · rename_i threadId sessionId _ _ _ store hupdate
            have hset : (s.setExecutor
                { e with stage := .recording threadId sessionId }).RunsClaimed :=
              h.setExecutor hrun
            exact hset.sameRuns (TaskStore.updateTask_runs hupdate) rfl rfl rfl
      · exact h
  | recordSession fails =>
      simp only [HostState.execute]
      split
      · refine h.writeRun ?_ fails _ _
        exact hrun
      · exact h
  | settle outcome now fails =>
      obtain ⟨hkind, hid⟩ := settledRun_kind e.run outcome now
      have hsettled : (settledRun e.run outcome now).kind = .manual →
          s.ClaimedAs (settledRun e.run outcome now).id := by
        rw [hkind, hid]
        exact hrun
      simp only [HostState.execute]
      split
      · exact h.writeRun hsettled fails _ _
      · exact h.writeRun hsettled fails _ _
      · exact h
  | forgetConversation =>
      simp only [HostState.execute]
      split
      · exact h.withStore (h.store.markRunConversationDeleted e.run.id)
      · exact h
  | leave now fails =>
      have hstore : ManualIn (s.leave e now fails).store s.ClaimedAs := by
        unfold HostState.leave
        cases fails with
        | true =>
            exact h.store
        | false =>
            cases hinterrupt : interruptRun s.store e.run.id now with
            | error err =>
                simpa [Except.toOption] using h.store
            | ok store =>
                simpa [Except.toOption, hinterrupt] using h.store.interruptRun hinterrupt
      exact ⟨hstore, fun e' he' => h.executors e' (List.mem_of_mem_filter he'), h.claiming⟩

theorem RunsClaimed.tickInsert
    (h : s.RunsClaimed)
    (owner : String)
    (now : Int)
    (runId : String)
    (fails : Bool)
    (copy : RowCopy)
    (rest : List RowCopy) :
    (s.tickInsert owner now runId fails copy rest).RunsClaimed := by
  have hend : ∀ tick : Tick, (∀ copy run now rest, tick ≠ .claiming copy run now rest) →
      RunsClaimed { s with tick := tick } := fun tick hno =>
    ⟨h.store, h.executors, fun copy run now rest heq => absurd heq (hno copy run now rest)⟩
  unfold HostState.tickInsert
  split
  · exact hend .waiting fun _ _ _ _ heq => by cases heq
  split
  · exact hend (.scanning rest) fun _ _ _ _ heq => by cases heq
  split
  · exact hend .waiting fun _ _ _ _ heq => by cases heq
  rename_i store hinsert
  cases hreason : claimReason copy.task with
  | explicit =>
      have hmono : ∀ id, s.ClaimedAs id →
          ∃ c ∈ s.claimed ++ [(⟨copy.task.id, copy.request, runId⟩ : Claimed)], c.runId = id :=
        fun id ⟨c, hc, hid⟩ => ⟨c, List.mem_append_left _ hc, hid⟩
      have hnew : ∃ c ∈ s.claimed ++ [(⟨copy.task.id, copy.request, runId⟩ : Claimed)],
          c.runId = runId :=
        ⟨_, List.mem_append_right _ (List.mem_singleton.2 rfl), rfl⟩
      refine ⟨(h.store.mono hmono).insertRunOwned (fun _ => hnew) hinsert, ?_, ?_⟩
      · exact fun e he hkind => hmono _ (h.executors e he hkind)
      · intro copy run now rest heq _
        cases heq
        exact hnew
  | schedule =>
      have hmain : (claimedRun copy.task runId now).kind ≠ .manual := by
        simp [claimedRun, hreason]
      refine ⟨h.store.insertRunOwned (fun hkind => absurd hkind hmain) hinsert, h.executors, ?_⟩
      intro copy run now rest heq hkind
      cases heq
      exact absurd hkind hmain

theorem RunsClaimed.tickUpdate
    (h : s.RunsClaimed)
    {copy : RowCopy}
    {run : TaskRun}
    {now : Int}
    {rest : List RowCopy}
    (htick : s.tick = .claiming copy run now rest)
    (fails : Bool) :
    (s.tickUpdate env fails copy run now rest).RunsClaimed := by
  unfold HostState.tickUpdate
  split
  · exact ⟨h.store, h.executors, fun _ _ _ _ heq => by cases heq⟩
  split
  · exact ⟨h.store, h.executors, fun _ _ _ _ heq => by cases heq⟩
  rename_i store hupdate
  have hruns := TaskStore.updateTask_runs hupdate
  have hsame : RunsClaimed { s with store := store } := h.sameRuns hruns rfl rfl rfl
  refine ⟨hsame.store, fun e he => ?_, fun _ _ _ _ heq => by cases heq⟩
  rcases List.mem_cons.1 he with rfl | he
  · exact h.claiming copy run now rest htick
  · exact h.executors e he

theorem RunsClaimed.write
    (h : s.RunsClaimed)
    (env : TaskEnv)
    (e : Editor)
    (now : Int)
    (fails : Bool) :
    (s.write env e now fails).RunsClaimed := by
  unfold HostState.write
  split
  · exact h
  · split
    · exact h
    · rename_i store hupdate
      exact h.sameRuns (TaskStore.updateTask_runs hupdate) rfl rfl rfl

theorem RunsClaimed.step
    (h : s.RunsClaimed)
    (op : HostStep) :
    (s.step env op).RunsClaimed := by
  cases op with
  | boot owner now fails =>
      simp only [HostState.step]
      split
      · exact h
      · refine ⟨?_, h.executors, h.claiming⟩
        cases fails with
        | true => exact h.store
        | false => exact h.store.failRunning _ now _ _ _
  | crash =>
      refine ⟨h.store, ?_, ?_⟩
      · intro e he
        cases he
      · intro copy run now rest heq
        cases heq
  | tickReap now failing =>
      simp only [HostState.step]
      split
      · refine ⟨h.store.reapOrphanedRuns _ _ now failing, h.executors, ?_⟩
        intro copy run now rest heq
        cases heq
      · exact h
  | tickList now fails =>
      simp only [HostState.step]
      split
      · split
        · exact ⟨h.store, h.executors, fun _ _ _ _ heq => by cases heq⟩
        · exact ⟨h.store, h.executors, fun _ _ _ _ heq => by cases heq⟩
      · exact h
  | tickInsert now runId fails =>
      simp only [HostState.step]
      split
      · exact ⟨h.store, h.executors, fun _ _ _ _ heq => by cases heq⟩
      · exact h.tickInsert _ now runId fails _ _
      · exact h
  | tickUpdate fails =>
      simp only [HostState.step]
      split
      · rename_i copy run now rest htick
        exact h.tickUpdate htick fails
      · exact h
  | execute runId action =>
      simp only [HostState.step]
      split
      · rename_i e hfind
        exact h.execute (List.mem_of_find?_eq_some hfind) action
      · exact h
  | create id input now =>
      simp only [HostState.step]
      split
      · exact h
      · rename_i store hinsert
        obtain ⟨-, -, rfl⟩ := TaskStore.insertTask_eq_ok.1 hinsert
        exact ⟨⟨h.store.runs, h.store.rows⟩, h.executors, h.claiming⟩
  | read taskId edit =>
      simp only [HostState.step]
      split
      · exact ⟨h.store, h.executors, h.claiming⟩
      · exact h
  | write index now fails =>
      simp only [HostState.step]
      split
      · rename_i e he
        have hwritten := h.write env e now fails
        exact ⟨hwritten.store, hwritten.executors, hwritten.claiming⟩
      · exact h

/-! ## What a step keeps of the rows -/

theorem kept_of_eq
    (htasks : s'.store.tasks = s.store.tasks)
    (hrequest : s'.requestOf = s.requestOf) :
    s.Kept s' := by
  intro id t ht
  refine ⟨t, ?_, rfl, .inl rfl, .inr ⟨rfl, ?_⟩⟩
  · simpa only [TaskStore.getTask, htasks] using ht
  · rw [hrequest]

/-- A claim of the row as it is moves its slot on, or clears its request. -/
theorem Accounted.tickUpdate_kept
    (h : s.Accounted)
    {copy : RowCopy}
    {run : TaskRun}
    {now : Int}
    {rest : List RowCopy}
    (htick : s.tick = .claiming copy run now rest)
    {fails : Bool}
    (hsound : s.commits copy.task fails = true →
      copy.edition = s.edition copy.task.id ∧ ∀ slot, run.dueAt = some slot → slot ≤ now) :
    s.Kept (s.tickUpdate env fails copy run now rest) := by
  have hcopy := h.copies copy (by simp [htick, Tick.copies])
  have hrun := h.claiming copy run now rest htick
  unfold HostState.tickUpdate
  split
  · exact kept_of_eq rfl rfl
  rename_i hfails
  split
  · exact kept_of_eq rfl rfl
  rename_i store hupdate
  obtain ⟨hedition, hbehind⟩ := hsound (by
    have hrefuses : s.store.refuses copy.task = false := (TaskStore.updateTask_eq_ok.1 hupdate).1
    simpa [commits, hrefuses] using hfails)
  obtain ⟨hrow, -⟩ := hcopy.current hedition
  intro id t ht
  by_cases hid : id = copy.task.id
  · subst hid
    have hget := TaskStore.getTask_updateTask hupdate copy.task.id
    obtain rfl : copy.task = t := Option.some.inj (hrow.symm.trans ht)
    refine ⟨claimedTask env copy.task now, ?_, rfl, ?_, .inl ⟨rfl, Function.update_self _ _ _⟩⟩
    · dsimp only
      rw [hget, hrow]
      exact if_pos rfl
    · cases hreason : claimReason copy.task with
      | explicit =>
          refine .inl ?_
          simp [claimedTask, hreason]
      | schedule =>
          obtain ⟨slot, hslot⟩ := Option.isSome_iff_exists.1 (hcopy.due hreason)
          refine .inr ⟨slot, hslot, fun next hnext => ?_⟩
          have hdue : run.dueAt = some slot := by
            rw [hrun]
            simp [claimedRun, hreason, hslot]
          have hahead : nextDue env copy.task.toTask now = some next := by
            simpa [claimedTask, hreason] using hnext
          have hlt := lt_nextDue hahead
          have hle := hbehind slot hdue
          omega
  · refine ⟨t, ?_, rfl, .inl rfl, .inr ⟨rfl, Function.update_of_ne hid _ _⟩⟩
    have hget := TaskStore.getTask_updateTask_of_ne hupdate hid
    exact hget.trans ht

/-- No step but a user's changes what users wrote, and slots only move on. -/
theorem Accounted.step_kept
    (h : s.Accounted)
    (op : HostStep)
    (hsound : s.Sound op)
    (huser : op.byUser = false) :
    s.Kept (s.step env op) := by
  cases op with
  | boot owner now fails =>
      simp only [HostState.step]
      split
      · exact kept_of_eq rfl rfl
      · refine kept_of_eq ?_ rfl
        cases fails <;> rfl
  | crash =>
      exact kept_of_eq rfl rfl
  | tickReap now failing =>
      simp only [HostState.step]
      split
      · exact kept_of_eq (reapOrphanedRuns_tasks _ _ _ _ _) rfl
      · exact kept_of_eq rfl rfl
  | tickList now fails =>
      simp only [HostState.step]
      split
      · split <;> exact kept_of_eq rfl rfl
      · exact kept_of_eq rfl rfl
  | tickInsert now runId fails =>
      simp only [HostState.step]
      split
      · exact kept_of_eq rfl rfl
      · unfold HostState.tickInsert
        split
        · exact kept_of_eq rfl rfl
        split
        · exact kept_of_eq rfl rfl
        split
        · exact kept_of_eq rfl rfl
        · rename_i store hinsert
          exact kept_of_eq (TaskStore.insertRunOwned_tasks hinsert) rfl
      · exact kept_of_eq rfl rfl
  | tickUpdate fails =>
      simp only [HostState.step]
      split
      · rename_i copy run now rest htick
        refine h.tickUpdate_kept htick fun hcommits => ?_
        simpa only [Sound, htick, hcommits, if_true] using hsound
      · exact kept_of_eq rfl rfl
  | execute runId action =>
      simp only [HostState.step]
      split
      · rename_i e hfind
        exact (sameRows_execute (hsound.bind hfind)).1.kept
      · exact kept_of_eq rfl rfl
  | create id input now => cases huser
  | read taskId edit => cases huser
  | write index now fails => cases huser

theorem accounted_start : Accounted start where
  tasks := List.nodup_nil
  shown := fun _ ht => by cases ht
  numbered := fun _ _ hn => by cases hn
  claimedNumbered := fun _ hc => by cases hc
  distinct := List.nodup_nil
  unclaimed := fun _ _ hn => by cases hn
  editors := fun _ he => by cases he
  copies := fun _ hc => by cases hc
  ids := List.nodup_nil
  waiting := fun _ hc => by cases hc
  claiming := fun _ _ _ _ heq => by cases heq

theorem runsClaimed_start : RunsClaimed start where
  store := ⟨List.Pairwise.nil, fun _ hr => by cases hr⟩
  executors := fun _ he => by cases he
  claiming := fun _ _ _ _ heq => by cases heq

/--
On runs of sound steps a slot has one run, a run by request was made for a request of its
own, and only users change what users write.
-/
theorem claimed_once
    (env : TaskEnv)
    (ops : List HostStep)
    (hsound : Machine.Guarded (step env) Sound start ops) :
    (Machine.run (step env) start ops).store.RunsDistinct ∧
      ((Machine.run (step env) start ops).claimed.map fun c => (c.taskId, c.request)).Nodup ∧
      (∀ r ∈ (Machine.run (step env) start ops).store.runs, r.kind = .manual →
        ∃ c ∈ (Machine.run (step env) start ops).claimed, c.runId = r.id) ∧
      ∀ before op after, ops = before ++ op :: after → op.byUser = false →
        (Machine.run (step env) start before).Kept
          (Machine.run (step env) start (before ++ [op])) := by
  have haccounted : ∀ ops, Machine.Guarded (step env) Sound start ops →
      (Machine.run (step env) start ops).Accounted := fun ops h =>
    h.invariant (fun _ op hs hop => hs.step op hop) accounted_start
  have hclaimed : (Machine.run (step env) start ops).RunsClaimed :=
    Machine.run_invariant (fun _ op hs => hs.step op) runsClaimed_start ops
  refine ⟨hclaimed.store.runs, (haccounted ops hsound).distinct, hclaimed.store.rows, ?_⟩
  rintro before op after rfl huser
  obtain ⟨hbefore, hafter⟩ := (Machine.guarded_append start before (op :: after)).1 hsound
  rw [Machine.run_concat]
  exact (haccounted before hbefore).step_kept op hafter.1 huser

/-! ## A run that binds a conversation -/

/-- A task by hand, asked for once. -/
def report (policy : SessionPolicy) : TaskInput where
  name := "report"
  prompt := "Write the report"
  cwd := "/work"
  modelId := none
  thinkingLevel := none
  timezone := none
  sessionPolicy := policy
  sessionRetention := .keep
  conversationMode := .chat
  triggerKind := .manual
  trigger := none
  enabled := none
  promptVersion := none

/-- The task is run once by hand, then the loop ticks again. -/
def reportSteps (policy : SessionPolicy) : List HostStep :=
  [.create "task" (report policy) 1,
    .read "task" (.runNow .ui "user"),
    .write 0 2 false,
    .boot "host" 3 false,
    .tickReap 4 [],
    .tickList 4 false,
    .tickInsert 5 "run" false,
    .tickUpdate false,
    .execute "run" (.openSession (some ("thread", "session"))),
    .execute "run" (.bind 6 false),
    .execute "run" (.recordSession false),
    .execute "run" (.settle (.answer "done") 7 false),
    .execute "run" (.leave 8 false),
    .tickInsert 9 "run" false,
    .tickReap 10 [],
    .tickList 10 false,
    .tickInsert 11 "again" false]

def reportEnv : TaskEnv := taskEnv (.daily "09:00") 32400000 (Zone.fixed 0)

/-- The conversation bound to the row brings the request back, and it is run again. -/
theorem bind_runs_request_again :
    ¬ ((Machine.run (step reportEnv) start (reportSteps .existing)).claimed.map
      fun c => (c.taskId, c.request)).Nodup := by
  decide +kernel

/-- With a session of its own for each run nothing is bound. -/
theorem claimed_once_report :
    ((Machine.run (step reportEnv) start (reportSteps .new)).claimed.map
      fun c => (c.taskId, c.request)).Nodup :=
  (claimed_once reportEnv (reportSteps .new)
    ⟨trivial, trivial, .inr (.inl rfl), trivial, trivial, trivial, trivial,
      ⟨rfl, fun _ h => by cases h⟩, trivial, trivial, trivial, trivial, trivial, trivial, trivial,
      trivial, trivial, trivial⟩).2.1

end HostState

end Tasks
end FutureOs
