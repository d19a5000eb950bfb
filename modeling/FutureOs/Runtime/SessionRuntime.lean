import FutureOs.Runtime.RunControl

/-!
# The execution runtime of one session

`SessionRuntime` (`agent/src/runtime/session_runtime.rs`) puts the task slot,
the cancellation watchdogs and the completion channel around `RunControl`.  Its
lock order is task slot before control state, so each operation below is one
critical section of the slot.

A watchdog is a timer armed by an accepted cancellation.  Reading the snapshot
and calling `mark_stuck` are two critical sections of the control state, hence
two steps here (`watchdogWake`, `watchdogMark`), and anything may happen in
between.  Aborting a timer only withdraws a wake-up that has not been polled
yet; whether an armed watchdog ever wakes is left to the environment, which
covers the abort.

The task monitor is runtime-owned and runs once the task of the slot has ended,
with that task's outcome.
-/

namespace FutureOs
namespace Runtime

inductive WatchdogStage
  | armed
  | sawCancelling
  | done
deriving DecidableEq

structure Watchdog where
  lease : RunLease
  stage : WatchdogStage
deriving DecidableEq

structure SessionRuntime where
  control : RunControl
  signals : Signals
  /-- The lease of the task that owns the slot. -/
  task : Option RunLease
  hasCompletionSender : Bool
  /-- Leases sent on the completion channel, in order. -/
  completions : List RunLease
  /-- Every watchdog armed so far, in order. -/
  watchdogs : List Watchdog
deriving DecidableEq

namespace SessionRuntime

/-- The runtime as a session creates it, its completion sender installed. -/
def new : SessionRuntime :=
  ⟨RunControl.new, Signals.empty, none, true, [], []⟩

/-- Send a lease to the scheduler, if someone listens. -/
def sendCompletion (r : SessionRuntime) (lease : RunLease) : SessionRuntime :=
  if r.hasCompletionSender then
    { r with completions := r.completions ++ [lease] }
  else
    r

/-- No run begins while a task still owns the slot. -/
def beginUnlessOwned
    (r : SessionRuntime)
    (start : RunControl → Except String RunLease × RunControl) :
    Except String RunLease × SessionRuntime :=
  match r.task with
  | some owner =>
      (.error ("runtime task " ++ owner.runId ++ " at epoch " ++
        toString owner.epoch ++ " has not exited"), r)
  | none => ((start r.control).1, { r with control := (start r.control).2 })

def begin
    (r : SessionRuntime)
    (requestedRunId clientRequestId : Option String)
    (generatedId : String) :
    Except String RunLease × SessionRuntime :=
  r.beginUnlessOwned (·.begin requestedRunId clientRequestId generatedId)

def beginScheduled
    (r : SessionRuntime)
    (requestedRunId clientRequestId : String)
    (runSequence : Nat)
    (generatedId : String) :
    Except String RunLease × SessionRuntime :=
  r.beginUnlessOwned
    (·.beginWithSequence (some requestedRunId) (some clientRequestId)
      (some runSequence) generatedId)

def installCancellation
    (r : SessionRuntime)
    (lease : RunLease)
    (interruptTx interruptFlag : Nat) :
    Bool × SessionRuntime :=
  let (installed, control, signals) :=
    r.control.installCancellation r.signals lease interruptTx interruptFlag
  (installed, { r with control, signals })

/--
`request_cancellation`.  `onRuntime` is whether an async runtime handle is
there to spawn the acknowledgement timer on.
-/
def requestCancellation
    (r : SessionRuntime)
    (expectedRunId : Option String)
    (systemInterruption onRuntime : Bool) :
    Except String Unit × SessionRuntime :=
  match r.control.cancelExpected r.signals expectedRunId systemInterruption with
  | (.error message, control, signals) =>
      (.error message, { r with control, signals })
  | (.ok none, control, signals) => (.ok (), { r with control, signals })
  | (.ok (some snapshot), control, signals) =>
      let watchdogs :=
        if onRuntime then
          r.watchdogs ++ [⟨snapshot.lease, .armed⟩]
        else
          r.watchdogs
      (.ok (), { r with control, signals, watchdogs })

def requestAbort
    (r : SessionRuntime)
    (expectedRunId : Option String)
    (onRuntime : Bool) :
    Except String Unit × SessionRuntime :=
  r.requestCancellation expectedRunId false onRuntime

def interruptForShutdown (r : SessionRuntime) (onRuntime : Bool) :
    Except String Unit × SessionRuntime :=
  r.requestCancellation none true onRuntime

/-- The test both the watchdog and the monitor make on a snapshot. -/
def snapshotIs
    (r : SessionRuntime)
    (lease : RunLease)
    (phase : RunPhase) : Bool :=
  r.control.snapshot.any fun active =>
    active.runId = lease.runId ∧ active.epoch = lease.epoch ∧
      active.phase = phase

/-- A watchdog's first critical section: read the snapshot. -/
def watchdogWake (r : SessionRuntime) (i : Nat) : SessionRuntime :=
  match r.watchdogs[i]? with
  | some ⟨lease, .armed⟩ =>
      let stage : WatchdogStage :=
        if r.snapshotIs lease .cancelling then .sawCancelling else .done
      { r with watchdogs := r.watchdogs.set i ⟨lease, stage⟩ }
  | _ => r

/-- A watchdog's second critical section: mark the lease stuck. -/
def watchdogMark (r : SessionRuntime) (i : Nat) : SessionRuntime :=
  match r.watchdogs[i]? with
  | some ⟨lease, .sawCancelling⟩ =>
      { r with
        control := (r.control.markStuck lease).2
        watchdogs := r.watchdogs.set i ⟨lease, .done⟩ }
  | _ => r

def beginFinalizing (r : SessionRuntime) (lease : RunLease) :
    Bool × SessionRuntime :=
  ((r.control.beginFinalizing lease).1,
    { r with control := (r.control.beginFinalizing lease).2 })

def markStuck (r : SessionRuntime) (lease : RunLease) :
    Bool × SessionRuntime :=
  ((r.control.markStuck lease).1,
    { r with control := (r.control.markStuck lease).2 })

def markPersistenceDegraded (r : SessionRuntime) (lease : RunLease) :
    Bool × SessionRuntime :=
  ((r.control.markPersistenceDegraded lease).1,
    { r with control := (r.control.markPersistenceDegraded lease).2 })

def finish (r : SessionRuntime) (lease : RunLease) : Bool × SessionRuntime :=
  match r.task with
  | some _ => (false, r)
  | none =>
      ((r.control.finish lease).1,
        { r with control := (r.control.finish lease).2 })

def recoverPersistenceDegraded (r : SessionRuntime) (lease : RunLease) :
    Bool × SessionRuntime :=
  match r.task with
  | some _ => (false, r)
  | none =>
      let (recovered, control) := r.control.recoverPersistenceDegraded lease
      let r' := { r with control }
      (recovered, if recovered then r'.sendCompletion lease else r')

/-- Release an explicitly cancelled fault after its writer has exited. -/
def finishCancelledFault (r : SessionRuntime) (lease : RunLease) :
    Bool × SessionRuntime :=
  if r.task.isSome ∨
      ¬(r.snapshotIs lease .cancellationStuck ∨
        r.snapshotIs lease .persistenceDegraded) then
    (false, r)
  else
    let (finished, control) := r.control.finish lease
    let r' := { r with control }
    (finished, if finished then r'.sendCompletion lease else r')

/-- Register the only task of the session. -/
def spawn (r : SessionRuntime) (lease : RunLease) :
    Except String Unit × SessionRuntime :=
  match r.task with
  | some owner =>
      (.error ("runtime already owns task " ++ owner.runId ++ " at epoch " ++
        toString owner.epoch), r)
  | none => (.ok (), { r with task := some lease })

/-- What the monitor does with the control state once the task has ended. -/
def settle (r : SessionRuntime) (lease : RunLease) :
    Except String Unit → Bool × RunControl
  | .error _ => (false, (r.control.markStuck lease).2)
  | .ok () =>
      match r.control.snapshot with
      | none => (false, r.control)
      | some active =>
          if active.runId = lease.runId ∧ active.epoch = lease.epoch then
            match active.phase with
            | .finalizing => r.control.finish lease
            | .cancellationStuck | .persistenceDegraded => (false, r.control)
            | _ => (false, (r.control.markStuck lease).2)
          else
            (false, r.control)

/--
The completion monitor of the task in the slot.  The slot is handed back under
the same lock; the completion is sent right after, on an unbounded channel
nothing else in the runtime reads.
-/
def monitor (r : SessionRuntime) (outcome : Except String Unit) :
    SessionRuntime :=
  match r.task with
  | none => r
  | some lease =>
      let (completed, control) := r.settle lease outcome
      let r' := { r with control, task := none }
      if completed then r'.sendCompletion lease else r'

end SessionRuntime

/-- One step of the session's runtime, of whichever party takes it. -/
inductive SessionOp
  | begin (requestedRunId clientRequestId : Option String)
      (generatedId : String)
  | beginScheduled (requestedRunId clientRequestId : String)
      (runSequence : Nat) (generatedId : String)
  | spawn (lease : RunLease)
  | installCancellation (lease : RunLease) (interruptTx interruptFlag : Nat)
  | requestAbort (expectedRunId : Option String) (onRuntime : Bool)
  | interruptForShutdown (onRuntime : Bool)
  | watchdogWake (i : Nat)
  | watchdogMark (i : Nat)
  | beginFinalizing (lease : RunLease)
  | markStuck (lease : RunLease)
  | markPersistenceDegraded (lease : RunLease)
  | finish (lease : RunLease)
  | recoverPersistenceDegraded (lease : RunLease)
  | finishCancelledFault (lease : RunLease)
  | monitor (outcome : Except String Unit)
deriving DecidableEq

namespace SessionRuntime

def step (r : SessionRuntime) : SessionOp → SessionRuntime
  | .begin requestedRunId clientRequestId generatedId =>
      (r.begin requestedRunId clientRequestId generatedId).2
  | .beginScheduled requestedRunId clientRequestId runSequence generatedId =>
      (r.beginScheduled requestedRunId clientRequestId runSequence
        generatedId).2
  | .spawn lease => (r.spawn lease).2
  | .installCancellation lease interruptTx interruptFlag =>
      (r.installCancellation lease interruptTx interruptFlag).2
  | .requestAbort expectedRunId onRuntime =>
      (r.requestAbort expectedRunId onRuntime).2
  | .interruptForShutdown onRuntime => (r.interruptForShutdown onRuntime).2
  | .watchdogWake i => r.watchdogWake i
  | .watchdogMark i => r.watchdogMark i
  | .beginFinalizing lease => (r.beginFinalizing lease).2
  | .markStuck lease => (r.markStuck lease).2
  | .markPersistenceDegraded lease => (r.markPersistenceDegraded lease).2
  | .finish lease => (r.finish lease).2
  | .recoverPersistenceDegraded lease =>
      (r.recoverPersistenceDegraded lease).2
  | .finishCancelledFault lease => (r.finishCancelledFault lease).2
  | .monitor outcome => r.monitor outcome

/-! ## Frames of the runtime operations -/

@[simp] theorem sendCompletion_control
    (r : SessionRuntime)
    (lease : RunLease) :
    (r.sendCompletion lease).control = r.control := by
  unfold sendCompletion
  split <;> rfl

@[simp] theorem sendCompletion_task
    (r : SessionRuntime)
    (lease : RunLease) :
    (r.sendCompletion lease).task = r.task := by
  unfold sendCompletion
  split <;> rfl

@[simp] theorem sendCompletion_watchdogs
    (r : SessionRuntime)
    (lease : RunLease) :
    (r.sendCompletion lease).watchdogs = r.watchdogs := by
  unfold sendCompletion
  split <;> rfl

@[simp] theorem sendCompletion_hasCompletionSender
    (r : SessionRuntime)
    (lease : RunLease) :
    (r.sendCompletion lease).hasCompletionSender = r.hasCompletionSender := by
  unfold sendCompletion
  split <;> rfl

@[simp] theorem spawn_control (r : SessionRuntime) (lease : RunLease) :
    (r.spawn lease).2.control = r.control := by
  unfold spawn
  split <;> rfl

@[simp] theorem watchdogWake_control (r : SessionRuntime) (i : Nat) :
    (r.watchdogWake i).control = r.control := by
  unfold watchdogWake
  split <;> rfl

theorem watchdogMark_control (r : SessionRuntime) (i : Nat) :
    (r.watchdogMark i).control = r.control ∨
    ∃ lease, r.watchdogs[i]? = some ⟨lease, .sawCancelling⟩ ∧
      (r.watchdogMark i).control = (r.control.markStuck lease).2 := by
  unfold watchdogMark
  split
  · rename_i lease hi
    exact Or.inr ⟨lease, hi, rfl⟩
  · exact Or.inl rfl

theorem finish_control (r : SessionRuntime) (lease : RunLease) :
    (r.finish lease).2.control = r.control ∨
    (r.task = none ∧
      (r.finish lease).2.control = (r.control.finish lease).2) := by
  unfold finish
  split
  · exact Or.inl rfl
  · rename_i htask
    exact Or.inr ⟨htask, rfl⟩

theorem recoverPersistenceDegraded_control
    (r : SessionRuntime)
    (lease : RunLease) :
    (r.recoverPersistenceDegraded lease).2.control = r.control ∨
    (r.task = none ∧
      (r.recoverPersistenceDegraded lease).2.control =
        (r.control.recoverPersistenceDegraded lease).2) := by
  unfold recoverPersistenceDegraded
  split
  · exact Or.inl rfl
  · rename_i htask
    refine Or.inr ⟨htask, ?_⟩
    dsimp only
    split <;> simp

theorem finishCancelledFault_control
    (r : SessionRuntime)
    (lease : RunLease) :
    (r.finishCancelledFault lease).2.control = r.control ∨
    (r.task = none ∧
      (r.snapshotIs lease .cancellationStuck = true ∨
        r.snapshotIs lease .persistenceDegraded = true) ∧
      (r.finishCancelledFault lease).2.control =
        (r.control.finish lease).2) := by
  unfold finishCancelledFault
  split
  · exact Or.inl rfl
  · rename_i hfault
    rw [not_or, not_not] at hfault
    refine Or.inr ⟨by simpa using hfault.1, hfault.2, ?_⟩
    dsimp only
    split <;> simp

/-- A cancellation acts on the control state as its critical section does. -/
theorem requestCancellation_control
    (r : SessionRuntime)
    (expectedRunId : Option String)
    (systemInterruption onRuntime : Bool) :
    (r.requestCancellation expectedRunId systemInterruption
        onRuntime).2.control =
      (r.control.cancelLocked expectedRunId systemInterruption).2 := by
  rw [← RunControl.cancelExpected_control r.control r.signals]
  unfold requestCancellation
  split <;> rename_i heq <;> simp [heq]

/-- The monitor leaves the control state, marks its lease or finishes it. -/
theorem settle_control
    (r : SessionRuntime)
    (lease : RunLease)
    (outcome : Except String Unit) :
    (r.settle lease outcome).2 = r.control ∨
    (r.settle lease outcome).2 = (r.control.markStuck lease).2 ∨
    (r.settle lease outcome).2 = (r.control.finish lease).2 := by
  unfold settle
  split
  · exact Or.inr (Or.inl rfl)
  · split
    · exact Or.inl rfl
    · split
      · split
        · exact Or.inr (Or.inr rfl)
        · exact Or.inl rfl
        · exact Or.inl rfl
        · exact Or.inr (Or.inl rfl)
      · exact Or.inl rfl

theorem monitor_control
    (r : SessionRuntime)
    (outcome : Except String Unit) :
    (r.monitor outcome).control = r.control ∨
    ∃ lease, r.task = some lease ∧
      (r.monitor outcome).control = (r.settle lease outcome).2 := by
  unfold monitor
  split
  · exact Or.inl rfl
  · rename_i lease htask
    refine Or.inr ⟨lease, htask, ?_⟩
    dsimp only
    split <;> simp

/-- A `begin` of the runtime refuses, or is a `begin` of the control state. -/
theorem beginUnlessOwned_cases
    (r : SessionRuntime)
    (start : RunControl → Except String RunLease × RunControl) :
    (∃ message, r.beginUnlessOwned start = (.error message, r)) ∨
    (r.task = none ∧
      r.beginUnlessOwned start =
        ((start r.control).1, { r with control := (start r.control).2 })) := by
  unfold beginUnlessOwned
  split
  · exact Or.inl ⟨_, rfl⟩
  · rename_i htask
    exact Or.inr ⟨htask, rfl⟩

/-! ## What a step can do to the active run -/

/-- The steps that mark this lease stuck, if it is the active one. -/
def MarksStuck (r : SessionRuntime) (lease : RunLease) : SessionOp → Prop
  | .markStuck l => l = lease
  | .watchdogMark i => r.watchdogs[i]? = some ⟨lease, .sawCancelling⟩
  | .monitor (.error _) => r.task = some lease
  | .monitor (.ok ()) =>
      r.task = some lease ∧
        ∃ phase : RunPhase, phase.abortable = true ∧
          r.control.snapshot = some (lease.inPhase phase)
  | _ => False

/-- The steps that release this lease, if it is the active one. -/
def FreesLease (r : SessionRuntime) (lease : RunLease) : SessionOp → Prop
  | .finish l => l = lease ∧ r.task = none
  | .recoverPersistenceDegraded l =>
      l = lease ∧ r.task = none ∧
        r.control.snapshot = some (lease.inPhase .persistenceDegraded)
  | .finishCancelledFault l =>
      l = lease ∧ r.task = none ∧
        (r.control.snapshot = some (lease.inPhase .cancellationStuck) ∨
          r.control.snapshot = some (lease.inPhase .persistenceDegraded))
  | .monitor (.ok ()) =>
      r.task = some lease ∧
        r.control.snapshot = some (lease.inPhase .finalizing)
  | _ => False

/-- Everything a step can do to the snapshot of the active run. -/
inductive PhaseMove (r : SessionRuntime) : SessionOp → Option RunSnapshot → Prop
  | stays (op : SessionOp) : PhaseMove r op r.control.snapshot
  | admitted (op : SessionOp) (lease : RunLease)
      (hfree : r.control.snapshot = none ∨ ∃ dead : RunLease,
        r.control.snapshot = some (dead.inPhase .cancellationStuck)) :
      PhaseMove r op (some (lease.inPhase .starting))
  | started (op : SessionOp) (lease : RunLease)
      (hstarting : r.control.snapshot = some (lease.inPhase .starting)) :
      PhaseMove r op (some (lease.inPhase .running))
  | cancelled (op : SessionOp) (lease : RunLease) (phase : RunPhase)
      (hphase : r.control.snapshot = some (lease.inPhase phase))
      (habortable : phase.abortable = true) :
      PhaseMove r op (some (lease.inPhase .cancelling))
  | fenced (lease : RunLease)
      (hactive : r.control.activeLease = some lease) :
      PhaseMove r (.beginFinalizing lease) (some (lease.inPhase .finalizing))
  | stuck (op : SessionOp) (lease : RunLease)
      (hactive : r.control.activeLease = some lease)
      (hmarks : r.MarksStuck lease op) :
      PhaseMove r op (some (lease.inPhase .cancellationStuck))
  | degraded (lease : RunLease)
      (hactive : r.control.activeLease = some lease) :
      PhaseMove r (.markPersistenceDegraded lease)
        (some (lease.inPhase .persistenceDegraded))
  | released (op : SessionOp) (lease : RunLease)
      (hactive : r.control.activeLease = some lease)
      (hfrees : r.FreesLease lease op) :
      PhaseMove r op none

theorem PhaseMove.of_eq
    {r : SessionRuntime}
    {op : SessionOp}
    {s s' : Option RunSnapshot}
    (h : PhaseMove r op s)
    (heq : s' = s) :
    PhaseMove r op s' := by
  subst heq
  exact h

theorem phaseMove_beginUnlessOwned
    (r : SessionRuntime)
    (op : SessionOp)
    (requestedRunId clientRequestId : Option String)
    (runSequence : Option Nat)
    (generatedId : String) :
    PhaseMove r op
      (r.beginUnlessOwned (·.beginWithSequence requestedRunId clientRequestId
        runSequence generatedId)).2.control.snapshot := by
  rcases r.beginUnlessOwned_cases
      (·.beginWithSequence requestedRunId clientRequestId runSequence
        generatedId) with ⟨message, heq⟩ | ⟨_, heq⟩
  · rw [heq]
    exact .stays op
  · rw [heq]
    rcases r.control.snapshot_beginWithSequence requestedRunId clientRequestId
        runSequence generatedId with ⟨message, hrefused⟩ |
      ⟨lease, hfree, _, _, hsnap⟩
    · simp only [hrefused]
      exact .stays op
    · exact (PhaseMove.admitted op lease hfree).of_eq hsnap

theorem phaseMove_requestCancellation
    (r : SessionRuntime)
    (op : SessionOp)
    (expectedRunId : Option String)
    (systemInterruption onRuntime : Bool) :
    PhaseMove r op
      (r.requestCancellation expectedRunId systemInterruption
        onRuntime).2.control.snapshot := by
  rw [requestCancellation_control]
  rcases r.control.cancelLocked_cases expectedRunId systemInterruption with
    ⟨lease, phase, _, hphase, habortable, _, hsnap⟩ | ⟨_, hsame⟩
  · exact (PhaseMove.cancelled op lease phase hphase habortable).of_eq hsnap
  · rw [hsame]
    exact .stays op

theorem phaseMove_markStuck
    (r : SessionRuntime)
    (op : SessionOp)
    (lease : RunLease)
    (hmarks : r.control.activeLease = some lease → r.MarksStuck lease op) :
    PhaseMove r op (r.control.markStuck lease).2.snapshot := by
  rw [RunControl.snapshot_markStuck]
  split
  · rename_i hactive
    exact .stuck op lease hactive (hmarks hactive)
  · exact .stays op

theorem phaseMove_finish
    (r : SessionRuntime)
    (op : SessionOp)
    (lease : RunLease)
    (hfrees : r.control.activeLease = some lease → r.FreesLease lease op) :
    PhaseMove r op (r.control.finish lease).2.snapshot := by
  rw [RunControl.snapshot_finish]
  split
  · rename_i hactive
    exact .released op lease hactive (hfrees hactive)
  · exact .stays op

/-- A snapshot that is that of an active lease in some phase. -/
theorem snapshot_of_activeLease
    {r : SessionRuntime}
    {lease : RunLease}
    {active : RunSnapshot}
    (hsnap : r.control.snapshot = some active)
    (hactive : r.control.activeLease = some lease) :
    active = lease.inPhase active.phase := by
  obtain ⟨phase, hphase⟩ := (r.control.activeLease_eq_some_iff lease).1 hactive
  obtain rfl : active = lease.inPhase phase :=
    Option.some.inj (hsnap.symm.trans hphase)
  rfl

theorem phaseMove_monitor
    (r : SessionRuntime)
    (outcome : Except String Unit) :
    PhaseMove r (.monitor outcome) (r.monitor outcome).control.snapshot := by
  rcases r.monitor_control outcome with heq | ⟨owner, htask, heq⟩
  · rw [heq]
    exact .stays _
  · rw [heq]
    cases outcome with
    | error message =>
        exact r.phaseMove_markStuck _ owner fun _ => htask
    | ok =>
        unfold settle
        cases hsnap : r.control.snapshot with
        | none =>
            exact (PhaseMove.stays _).of_eq rfl
        | some active =>
            dsimp only
            split
            · split
              · rename_i hphase
                refine r.phaseMove_finish _ owner fun hactive => ⟨htask, ?_⟩
                rw [hsnap, snapshot_of_activeLease hsnap hactive, hphase]
              · exact .stays _
              · exact .stays _
              · rename_i hnotFinalizing hnotStuck hnotDegraded
                refine r.phaseMove_markStuck _ owner fun hactive =>
                  ⟨htask, active.phase, ?_, ?_⟩
                · cases hphase : active.phase <;>
                    simp_all [RunPhase.abortable]
                · rw [hsnap, ← snapshot_of_activeLease hsnap hactive]
            · exact .stays _

theorem snapshotIs_iff
    (r : SessionRuntime)
    {lease : RunLease}
    (hactive : r.control.activeLease = some lease)
    (phase : RunPhase) :
    r.snapshotIs lease phase = true ↔
      r.control.snapshot = some (lease.inPhase phase) := by
  obtain ⟨current, hsnap⟩ := (r.control.activeLease_eq_some_iff lease).1 hactive
  simp [snapshotIs, hsnap, RunLease.inPhase]

/-- Every step moves the active run in one of these ways. -/
theorem phaseMove_step (r : SessionRuntime) (op : SessionOp) :
    PhaseMove r op (r.step op).control.snapshot := by
  cases op with
  | begin => exact r.phaseMove_beginUnlessOwned _ _ _ _ _
  | beginScheduled => exact r.phaseMove_beginUnlessOwned _ _ _ _ _
  | spawn owner =>
      exact (PhaseMove.stays _).of_eq (by simp [step])
  | installCancellation lease interruptTx interruptFlag =>
      refine PhaseMove.of_eq ?_
        (r.control.snapshot_installCancellation r.signals lease interruptTx
          interruptFlag)
      split
      · rename_i hstarting
        exact .started _ lease hstarting
      · exact .stays _
  | requestAbort => exact r.phaseMove_requestCancellation _ _ _ _
  | interruptForShutdown => exact r.phaseMove_requestCancellation _ _ _ _
  | watchdogWake i =>
      exact (PhaseMove.stays _).of_eq (by simp [step])
  | watchdogMark i =>
      rcases r.watchdogMark_control i with heq | ⟨lease, hi, heq⟩
      · exact (PhaseMove.stays _).of_eq (by simp [step, heq])
      · simp only [step, heq]
        exact r.phaseMove_markStuck _ lease fun _ => hi
  | beginFinalizing lease =>
      refine PhaseMove.of_eq ?_ (r.control.snapshot_beginFinalizing lease)
      split
      · rename_i hactive
        exact .fenced lease hactive
      · exact .stays _
  | markStuck lease =>
      exact r.phaseMove_markStuck _ lease fun _ => rfl
  | markPersistenceDegraded lease =>
      refine PhaseMove.of_eq ?_
        (r.control.snapshot_markPersistenceDegraded lease)
      split
      · rename_i hactive
        exact .degraded lease hactive
      · exact .stays _
  | finish lease =>
      rcases r.finish_control lease with heq | ⟨htask, heq⟩
      · exact (PhaseMove.stays _).of_eq (by simp [step, heq])
      · simp only [step, heq]
        exact r.phaseMove_finish _ lease fun _ => ⟨rfl, htask⟩
  | recoverPersistenceDegraded lease =>
      rcases r.recoverPersistenceDegraded_control lease with
        heq | ⟨htask, heq⟩
      · exact (PhaseMove.stays _).of_eq (by simp [step, heq])
      · simp only [step, heq, RunControl.snapshot_recoverPersistenceDegraded]
        split
        · rename_i hdegraded
          exact .released _ lease
            ((r.control.activeLease_eq_some_iff lease).2 ⟨_, hdegraded⟩)
            ⟨rfl, htask, hdegraded⟩
        · exact .stays _
  | finishCancelledFault lease =>
      rcases r.finishCancelledFault_control lease with
        heq | ⟨htask, hfault, heq⟩
      · exact (PhaseMove.stays _).of_eq (by simp [step, heq])
      · simp only [step, heq]
        refine r.phaseMove_finish _ lease fun hactive => ⟨rfl, htask, ?_⟩
        rw [← r.snapshotIs_iff hactive, ← r.snapshotIs_iff hactive]
        exact hfault
  | monitor outcome => exact r.phaseMove_monitor outcome

/-! ## The runtime drives its control state -/

/-- Each step is at most one operation of the control state. -/
theorem step_control (r : SessionRuntime) (op : SessionOp) :
    (r.step op).control = r.control ∨
    ∃ cop, (r.step op).control =
      (ControlWorld.step ⟨r.control, r.signals⟩ cop).control := by
  cases op with
  | begin requestedRunId clientRequestId generatedId =>
      simp only [step, begin]
      rcases r.beginUnlessOwned_cases
          (·.begin requestedRunId clientRequestId generatedId) with
        ⟨_, heq⟩ | ⟨_, heq⟩
      · exact Or.inl (by rw [heq])
      · exact Or.inr ⟨.begin requestedRunId clientRequestId none generatedId,
          by rw [heq]; rfl⟩
  | beginScheduled requestedRunId clientRequestId runSequence generatedId =>
      simp only [step, beginScheduled]
      rcases r.beginUnlessOwned_cases
          (·.beginWithSequence (some requestedRunId) (some clientRequestId)
            (some runSequence) generatedId) with ⟨_, heq⟩ | ⟨_, heq⟩
      · exact Or.inl (by rw [heq])
      · exact Or.inr ⟨.begin (some requestedRunId) (some clientRequestId)
          (some runSequence) generatedId, by rw [heq]; rfl⟩
  | spawn lease => exact Or.inl (r.spawn_control lease)
  | installCancellation lease interruptTx interruptFlag =>
      exact Or.inr ⟨.installCancellation lease interruptTx interruptFlag, rfl⟩
  | requestAbort expectedRunId onRuntime =>
      refine Or.inr ⟨.cancel expectedRunId false, ?_⟩
      simp only [step, requestAbort, requestCancellation_control,
        ControlWorld.step, RunControl.cancelExpected_control]
  | interruptForShutdown onRuntime =>
      refine Or.inr ⟨.cancel none true, ?_⟩
      simp only [step, interruptForShutdown, requestCancellation_control,
        ControlWorld.step, RunControl.cancelExpected_control]
  | watchdogWake i => exact Or.inl (r.watchdogWake_control i)
  | watchdogMark i =>
      rcases r.watchdogMark_control i with heq | ⟨lease, _, heq⟩
      · exact Or.inl heq
      · exact Or.inr ⟨.markStuck lease, heq⟩
  | beginFinalizing lease => exact Or.inr ⟨.beginFinalizing lease, rfl⟩
  | markStuck lease => exact Or.inr ⟨.markStuck lease, rfl⟩
  | markPersistenceDegraded lease =>
      exact Or.inr ⟨.markPersistenceDegraded lease, rfl⟩
  | finish lease =>
      rcases r.finish_control lease with heq | ⟨_, heq⟩
      · exact Or.inl heq
      · exact Or.inr ⟨.finish lease, heq⟩
  | recoverPersistenceDegraded lease =>
      rcases r.recoverPersistenceDegraded_control lease with heq | ⟨_, heq⟩
      · exact Or.inl heq
      · exact Or.inr ⟨.recoverPersistenceDegraded lease, heq⟩
  | finishCancelledFault lease =>
      rcases r.finishCancelledFault_control lease with heq | ⟨_, _, heq⟩
      · exact Or.inl heq
      · exact Or.inr ⟨.finish lease, heq⟩
  | monitor outcome =>
      rcases r.monitor_control outcome with heq | ⟨lease, _, heq⟩
      · exact Or.inl heq
      · simp only [step, heq]
        rcases r.settle_control lease outcome with hsame | hstuck | hfinish
        · exact Or.inl hsame
        · exact Or.inr ⟨.markStuck lease, hstuck⟩
        · exact Or.inr ⟨.finish lease, hfinish⟩

theorem step_lease (r : SessionRuntime) (op : SessionOp) :
    ((r.step op).control.epoch = r.control.epoch ∧
      ∀ lease, (r.step op).control.activeLease = some lease →
        r.control.activeLease = some lease) ∨
    ((r.step op).control.epoch = max (wrappingSucc r.control.epoch) 1 ∧
      ∃ lease, (r.step op).control.activeLease = some lease ∧
        lease.epoch = (r.step op).control.epoch) := by
  rcases r.step_control op with heq | ⟨cop, heq⟩
  · rw [heq]
    exact Or.inl ⟨rfl, fun _ h => h⟩
  · rw [heq]
    exact ControlWorld.step_lease _ cop

/-! ## Completions -/

@[simp] theorem step_hasCompletionSender
    (r : SessionRuntime)
    (op : SessionOp) :
    (r.step op).hasCompletionSender = r.hasCompletionSender := by
  cases op with
  | begin => simp only [step, begin, beginUnlessOwned]; split <;> rfl
  | beginScheduled =>
      simp only [step, beginScheduled, beginUnlessOwned]; split <;> rfl
  | spawn => simp only [step, spawn]; split <;> rfl
  | installCancellation => rfl
  | requestAbort =>
      simp only [step, requestAbort, requestCancellation]; split <;> rfl
  | interruptForShutdown =>
      simp only [step, interruptForShutdown, requestCancellation]
      split <;> rfl
  | watchdogWake => simp only [step, watchdogWake]; split <;> rfl
  | watchdogMark => simp only [step, watchdogMark]; split <;> rfl
  | beginFinalizing => rfl
  | markStuck => rfl
  | markPersistenceDegraded => rfl
  | finish => simp only [step, finish]; split <;> rfl
  | recoverPersistenceDegraded =>
      simp only [step, recoverPersistenceDegraded]
      split
      · rfl
      · dsimp only
        split <;> simp
  | finishCancelledFault =>
      simp only [step, finishCancelledFault]
      split
      · rfl
      · dsimp only
        split <;> simp
  | monitor =>
      simp only [step, monitor]
      split
      · rfl
      · split <;> simp

theorem sendCompletion_cases (r : SessionRuntime) (lease : RunLease) :
    (r.sendCompletion lease).completions = r.completions ∨
    (r.sendCompletion lease).completions = r.completions ++ [lease] := by
  unfold sendCompletion
  split
  · exact Or.inr rfl
  · exact Or.inl rfl

/-- A `finish` that reports success has released the active lease. -/
theorem released_of_finish
    {c : RunControl}
    {lease : RunLease}
    (hfinished : (c.finish lease).1 = true) :
    c.activeLease = some lease ∧ (c.finish lease).2.snapshot = none := by
  rw [RunControl.finish_fst, decide_eq_true_iff] at hfinished
  exact ⟨hfinished, by rw [RunControl.snapshot_finish, if_pos hfinished]⟩

/-- The monitor completes a lease only after releasing it. -/
theorem released_of_settle
    {r : SessionRuntime}
    {lease : RunLease}
    {outcome : Except String Unit}
    (hcompleted : (r.settle lease outcome).1 = true) :
    r.control.activeLease = some lease ∧
      (r.settle lease outcome).2.snapshot = none := by
  cases outcome with
  | error message =>
      simp [settle] at hcompleted
  | ok =>
      unfold settle at hcompleted ⊢
      cases hsnap : r.control.snapshot with
      | none =>
          simp [hsnap] at hcompleted
      | some active =>
          rw [hsnap] at hcompleted
          dsimp only at hcompleted ⊢
          by_cases hlease : active.runId = lease.runId ∧
              active.epoch = lease.epoch
          · rw [if_pos hlease] at hcompleted ⊢
            cases hphase : active.phase <;> simp only [hphase] at hcompleted ⊢
            case finalizing => exact released_of_finish hcompleted
            all_goals simp at hcompleted
          · simp [hlease] at hcompleted

/-- A completion is sent only for the lease a step has just released. -/
theorem step_completions (r : SessionRuntime) (op : SessionOp) :
    (r.step op).completions = r.completions ∨
    ∃ lease, r.control.activeLease = some lease ∧
      (r.step op).control.snapshot = none ∧
      (r.step op).completions = r.completions ++ [lease] := by
  cases op with
  | recoverPersistenceDegraded lease =>
      simp only [step, recoverPersistenceDegraded]
      split
      · exact Or.inl rfl
      · dsimp only
        split
        · rename_i hrecovered
          rw [RunControl.recoverPersistenceDegraded_fst,
            decide_eq_true_iff] at hrecovered
          rcases sendCompletion_cases
              { r with control :=
                (r.control.recoverPersistenceDegraded lease).2 } lease with
            heq | heq
          · exact Or.inl heq
          · refine Or.inr ⟨lease,
              (r.control.activeLease_eq_some_iff lease).2 ⟨_, hrecovered⟩,
              ?_, heq⟩
            rw [sendCompletion_control,
              RunControl.snapshot_recoverPersistenceDegraded,
              if_pos hrecovered]
        · exact Or.inl rfl
  | finishCancelledFault lease =>
      simp only [step, finishCancelledFault]
      split
      · exact Or.inl rfl
      · dsimp only
        split
        · rename_i hfinished
          obtain ⟨hactive, hnone⟩ := released_of_finish hfinished
          rcases sendCompletion_cases
              { r with control := (r.control.finish lease).2 } lease with
            heq | heq
          · exact Or.inl heq
          · exact Or.inr ⟨lease, hactive,
              by rw [sendCompletion_control]; exact hnone, heq⟩
        · exact Or.inl rfl
  | monitor outcome =>
      simp only [step, monitor]
      split
      · exact Or.inl rfl
      · rename_i lease htask
        split
        · rename_i hcompleted
          obtain ⟨hactive, hnone⟩ := released_of_settle hcompleted
          rcases sendCompletion_cases
              { r with
                control := (r.settle lease outcome).2
                task := none } lease with heq | heq
          · exact Or.inl heq
          · exact Or.inr ⟨lease, hactive,
              by rw [sendCompletion_control]; exact hnone, heq⟩
        · exact Or.inl rfl
  | begin => left; simp only [step, begin, beginUnlessOwned]; split <;> rfl
  | beginScheduled =>
      left; simp only [step, beginScheduled, beginUnlessOwned]; split <;> rfl
  | spawn => left; simp only [step, spawn]; split <;> rfl
  | installCancellation => exact Or.inl rfl
  | requestAbort =>
      left; simp only [step, requestAbort, requestCancellation]; split <;> rfl
  | interruptForShutdown =>
      left
      simp only [step, interruptForShutdown, requestCancellation]
      split <;> rfl
  | watchdogWake => left; simp only [step, watchdogWake]; split <;> rfl
  | watchdogMark => left; simp only [step, watchdogMark]; split <;> rfl
  | beginFinalizing => exact Or.inl rfl
  | markStuck => exact Or.inl rfl
  | markPersistenceDegraded => exact Or.inl rfl
  | finish => left; simp only [step, finish]; split <;> rfl

end SessionRuntime

end Runtime
end FutureOs
