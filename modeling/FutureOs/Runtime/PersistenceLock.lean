import FutureOs.Runtime.SessionRuntime

/-!
# A run whose persistence failed stays locked

`begin` heals a cancellation-stuck predecessor and is documented not to heal a
persistence-degraded one.  The lock is the phase alone, and `begin_finalizing`
and `mark_stuck` overwrite the phase without looking at it; the task monitor
calls `mark_stuck` when a task panics, after whatever it reported before.

* `degraded_run_stays_locked`: the lock holds along every run in which no such
  step overwrites the phase of the degraded lease;
* `overwrites_unlocks`: each of those steps does take the lease out of the
  degraded phase;
* `panic_after_degraded_unlocks`: a task that reports the failure and then
  panics leaves the session open to the next `begin`.
-/

namespace FutureOs
namespace Runtime
namespace SessionRuntime

/-- The active lease is this one, with its persistence failed. -/
def DegradedUnder (r : SessionRuntime) (lease : RunLease) : Prop :=
  r.control.snapshot = some (lease.inPhase .persistenceDegraded)

instance (r : SessionRuntime) (lease : RunLease) :
    Decidable (r.DegradedUnder lease) :=
  inferInstanceAs (Decidable (_ = _))

/-- The two calls that may release a degraded lease. -/
def Releases (lease : RunLease) (r : SessionRuntime) (op : SessionOp) : Prop :=
  r.task = none ∧
    (op = .recoverPersistenceDegraded lease ∨ op = .finishCancelledFault lease)

instance (lease : RunLease) (r : SessionRuntime) (op : SessionOp) :
    Decidable (Releases lease r op) :=
  inferInstanceAs (Decidable (_ ∧ _))

/-- Steps that overwrite the phase of the lease without looking at it. -/
def Overwrites (lease : RunLease) (r : SessionRuntime) : SessionOp → Prop
  | .beginFinalizing l => l = lease
  | .markStuck l => l = lease
  | .watchdogMark i => r.watchdogs[i]? = some ⟨lease, .sawCancelling⟩
  | .monitor (.error _) => r.task = some lease
  | _ => False

instance (lease : RunLease) (r : SessionRuntime) :
    ∀ op : SessionOp, Decidable (Overwrites lease r op)
  | .beginFinalizing _ => inferInstanceAs (Decidable (_ = _))
  | .markStuck _ => inferInstanceAs (Decidable (_ = _))
  | .watchdogMark _ => inferInstanceAs (Decidable (_ = _))
  | .monitor (.error _) => inferInstanceAs (Decidable (_ = _))
  | .monitor (.ok _) => isFalse id
  | .begin .. => isFalse id
  | .beginScheduled .. => isFalse id
  | .spawn _ => isFalse id
  | .installCancellation .. => isFalse id
  | .requestAbort .. => isFalse id
  | .interruptForShutdown _ => isFalse id
  | .watchdogWake _ => isFalse id
  | .markPersistenceDegraded _ => isFalse id
  | .finish _ => isFalse id
  | .recoverPersistenceDegraded _ => isFalse id
  | .finishCancelledFault _ => isFalse id

/-- A step that does not touch the phase of a degraded lease. -/
def KeepsPhase (lease : RunLease) (r : SessionRuntime) (op : SessionOp) :
    Prop :=
  ¬Overwrites lease r op ∧ op ≠ .finish lease

instance (lease : RunLease) (r : SessionRuntime) (op : SessionOp) :
    Decidable (KeepsPhase lease r op) :=
  inferInstanceAs (Decidable (_ ∧ _))

section Locked

variable {r : SessionRuntime}
variable {lease : RunLease}

theorem DegradedUnder.activeLease
    (h : r.DegradedUnder lease) :
    r.control.activeLease = some lease :=
  (r.control.activeLease_eq_some_iff lease).2 ⟨_, h⟩

/-- A degraded lease refuses every `begin`. -/
theorem DegradedUnder.beginWithSequence
    (h : r.DegradedUnder lease)
    (requestedRunId clientRequestId : Option String)
    (runSequence : Option Nat)
    (generatedId : String) :
    ∃ message,
      r.control.beginWithSequence requestedRunId clientRequestId runSequence
        generatedId = (.error message, r.control) := by
  rcases r.control.snapshot_beginWithSequence requestedRunId clientRequestId
      runSequence generatedId with hrefused | ⟨_, hprior, _⟩
  · exact hrefused
  · rw [h] at hprior
    simp at hprior

theorem DegradedUnder.begin_refused
    (h : r.DegradedUnder lease)
    (requestedRunId clientRequestId : Option String)
    (generatedId : String) :
    ∃ message,
      r.begin requestedRunId clientRequestId generatedId =
        (.error message, r) := by
  unfold begin
  rcases r.beginUnlessOwned_cases
      (·.begin requestedRunId clientRequestId generatedId) with
    hrefused | ⟨_, heq⟩
  · exact hrefused
  · obtain ⟨message, hrefused⟩ :=
      h.beginWithSequence requestedRunId clientRequestId none generatedId
    exact ⟨message, by rw [heq]; simp [RunControl.begin, hrefused]⟩

theorem DegradedUnder.beginScheduled_refused
    (h : r.DegradedUnder lease)
    (requestedRunId clientRequestId : String)
    (runSequence : Nat)
    (generatedId : String) :
    ∃ message,
      r.beginScheduled requestedRunId clientRequestId runSequence
        generatedId = (.error message, r) := by
  unfold beginScheduled
  rcases r.beginUnlessOwned_cases
      (·.beginWithSequence (some requestedRunId) (some clientRequestId)
        (some runSequence) generatedId) with
    hrefused | ⟨_, heq⟩
  · exact hrefused
  · obtain ⟨message, hrefused⟩ :=
      h.beginWithSequence (some requestedRunId) (some clientRequestId)
        (some runSequence) generatedId
    exact ⟨message, by rw [heq]; simp [hrefused]⟩

/-- What marks a degraded lease stuck overwrites its phase. -/
theorem DegradedUnder.overwrites_of_marksStuck
    (h : r.DegradedUnder lease)
    {op : SessionOp}
    (hmarks : r.MarksStuck lease op) :
    Overwrites lease r op := by
  cases op with
  | monitor outcome =>
      cases outcome with
      | ok =>
          obtain ⟨_, phase, habortable, hphase⟩ := hmarks
          rw [h] at hphase
          simp only [Option.some.injEq, RunLease.inPhase_inj] at hphase
          rw [← hphase.2] at habortable
          simp [RunPhase.abortable] at habortable
      | error message => exact hmarks
  | markStuck l => exact hmarks
  | watchdogMark i => exact hmarks
  | _ => exact hmarks.elim

/-- What frees a degraded lease is a `finish` or one of the two releases. -/
theorem DegradedUnder.releases_of_freesLease
    (h : r.DegradedUnder lease)
    {op : SessionOp}
    (hfrees : r.FreesLease lease op) :
    op = .finish lease ∨ Releases lease r op := by
  cases op with
  | finish l =>
      obtain ⟨rfl, _⟩ := hfrees
      exact Or.inl rfl
  | recoverPersistenceDegraded l =>
      obtain ⟨rfl, htask, _⟩ := hfrees
      exact Or.inr ⟨htask, Or.inl rfl⟩
  | finishCancelledFault l =>
      obtain ⟨rfl, htask, _⟩ := hfrees
      exact Or.inr ⟨htask, Or.inr rfl⟩
  | monitor outcome =>
      cases outcome with
      | ok =>
          obtain ⟨_, hphase⟩ := hfrees
          rw [h] at hphase
          simp at hphase
      | error message => exact hfrees.elim
  | _ => exact hfrees.elim

/-- One step that keeps the phase and does not release keeps the lock. -/
theorem DegradedUnder.step
    (h : r.DegradedUnder lease)
    (op : SessionOp)
    (hkeeps : KeepsPhase lease r op)
    (hheld : ¬Releases lease r op) :
    (r.step op).DegradedUnder lease := by
  obtain ⟨hoverwrites, hfinish⟩ := hkeeps
  have hsame : ∀ l : RunLease, r.control.activeLease = some l → l = lease :=
    fun l hl => Option.some.inj (hl.symm.trans h.activeLease)
  have hmove := r.phaseMove_step op
  generalize hafter : (r.step op).control.snapshot = after at hmove
  show (r.step op).control.snapshot = _
  rw [hafter]
  cases hmove with
  | stays =>
      exact h
  | admitted _ l hfree =>
      rw [h] at hfree
      simp at hfree
  | started _ l hstarting =>
      rw [h] at hstarting
      simp at hstarting
  | cancelled _ l phase hphase habortable =>
      rw [h] at hphase
      simp only [Option.some.injEq, RunLease.inPhase_inj] at hphase
      rw [← hphase.2] at habortable
      simp [RunPhase.abortable] at habortable
  | fenced l hactive =>
      exact absurd (hsame l hactive) hoverwrites
  | stuck _ l hactive hmarks =>
      obtain rfl := hsame l hactive
      exact absurd (h.overwrites_of_marksStuck hmarks) hoverwrites
  | degraded l hactive =>
      rw [hsame l hactive]
  | released _ l hactive hfrees =>
      obtain rfl := hsame l hactive
      rcases h.releases_of_freesLease hfrees with heq | hreleases
      · exact absurd heq hfinish
      · exact absurd hreleases hheld

/-- Each overwriting step does take the lease out of the degraded phase. -/
theorem overwrites_unlocks
    (h : r.DegradedUnder lease)
    (op : SessionOp)
    (hover : Overwrites lease r op) :
    ¬(r.step op).DegradedUnder lease := by
  have hactive := h.activeLease
  cases op with
  | beginFinalizing l =>
      obtain rfl : l = lease := hover
      simp [DegradedUnder, SessionRuntime.step, SessionRuntime.beginFinalizing,
        RunControl.snapshot_beginFinalizing, hactive]
  | markStuck l =>
      obtain rfl : l = lease := hover
      simp [DegradedUnder, SessionRuntime.step, SessionRuntime.markStuck,
        RunControl.snapshot_markStuck, hactive]
  | watchdogMark i =>
      have hi : r.watchdogs[i]? = some ⟨lease, .sawCancelling⟩ := hover
      simp [DegradedUnder, SessionRuntime.step, watchdogMark, hi,
        RunControl.snapshot_markStuck, hactive]
  | monitor outcome =>
      cases outcome with
      | ok => exact hover.elim
      | error message =>
          have htask : r.task = some lease := hover
          simp [DegradedUnder, SessionRuntime.step, monitor, htask, settle,
            RunControl.snapshot_markStuck, hactive]
  | _ => exact hover.elim

end Locked

/--
Once the active lease is persistence-degraded, a run that neither overwrites its
phase nor releases it ends with the lease still held and every `begin` refused.
-/
theorem degraded_run_stays_locked
    (ops ops' : List SessionOp)
    (lease : RunLease)
    (hdegraded : (Machine.run step new ops).DegradedUnder lease)
    (hkeeps : Machine.Guarded step (KeepsPhase lease)
      (Machine.run step new ops) ops')
    (hheld : Machine.Guarded step (fun r op => ¬Releases lease r op)
      (Machine.run step new ops) ops') :
    let r := Machine.run step new (ops ++ ops')
    r.DegradedUnder lease ∧
    (∀ requestedRunId clientRequestId generatedId,
      ∃ message, r.begin requestedRunId clientRequestId generatedId =
        (.error message, r)) ∧
    ∀ requestedRunId clientRequestId runSequence generatedId,
      ∃ message, r.beginScheduled requestedRunId clientRequestId runSequence
        generatedId = (.error message, r) := by
  intro r
  have hboth : Machine.Guarded step
      (fun r op => KeepsPhase lease r op ∧ ¬Releases lease r op)
      (Machine.run step new ops) ops' :=
    hkeeps.and hheld
  have hr : r.DegradedUnder lease := by
    show (Machine.run step new (ops ++ ops')).DegradedUnder lease
    rw [Machine.run_append]
    exact Machine.Guarded.invariant (I := fun r => r.DegradedUnder lease)
      (fun _ op h hop => h.step op hop.1 hop.2) hdegraded hboth
  exact ⟨hr, hr.begin_refused, hr.beginScheduled_refused⟩

/-- A degraded run whose task ends normally; a retried `begin` stays refused. -/
theorem degraded_run_stays_locked_after_exit :
    let lease : RunLease := ⟨"a", 1, none⟩
    let r := Machine.run step new
      ([.begin (some "a") none "", .spawn lease,
        .markPersistenceDegraded lease] ++
        [.monitor (.ok ()), .requestAbort none true])
    r.DegradedUnder lease ∧
    ∃ message, r.begin (some "b") none "" = (.error message, r) := by
  intro lease r
  obtain ⟨hr, hbegin, _⟩ := degraded_run_stays_locked
    [.begin (some "a") none "", .spawn lease, .markPersistenceDegraded lease]
    [.monitor (.ok ()), .requestAbort none true] lease
    (by decide) (by decide) (by decide)
  exact ⟨hr, hbegin _ _ _⟩

/--
A task reports a persistence failure and then panics: its monitor marks the
lease stuck, and the next `begin` heals it.  Nobody recovered the run.
-/
theorem panic_after_degraded_unlocks :
    let lease : RunLease := ⟨"a", 1, none⟩
    let ops : List SessionOp :=
      [.begin (some "a") none "", .spawn lease, .markPersistenceDegraded lease]
    let ops' : List SessionOp := [.monitor (.error "panicked")]
    (Machine.run step new ops).DegradedUnder lease ∧
    Machine.Guarded step (fun r op => ¬Releases lease r op)
      (Machine.run step new ops) ops' ∧
    ((Machine.run step new (ops ++ ops')).begin (some "b") none "").1 =
      .ok ⟨"b", 2, none⟩ := by
  decide

end SessionRuntime
end Runtime
end FutureOs
