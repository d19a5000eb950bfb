import FutureOs.Lib.Machine
import Mathlib.Algebra.GroupWithZero.Nat
import Mathlib.Tactic.Common

/-!
# The lifecycle of one session's runs

`RunControl` (`agent/src/runtime/run_state.rs`) decides which run of a session
is live.  Every operation below is one critical section of the source's state
mutex; the two atomics that mirror it (`is_streaming`, `active_tasks`) are only
written inside it, so they are fields of the same record here.

Cancellation targets are the run task's channel and flag.  They outlive the
control state, so they are named by number and what has been signalled on them
is kept apart, in `Signals`.  A cancellation is two steps: the critical section
captures the targets, the delivery happens after the lock is released.

Main results:

* `Live`: streaming flag and task counter mirror the active run;
* `runControl_single_live_run`: this holds along every run of operations,
  epochs only grow, and an operation under a lease that is not the active one
  changes nothing but the stale-drop counter.
-/

namespace FutureOs
namespace Runtime

inductive RunPhase
  | starting
  | running
  | cancelling
  | cancellationStuck
  | persistenceDegraded
  | finalizing
deriving DecidableEq

namespace RunPhase

def asStr : RunPhase → String
  | starting => "starting"
  | running => "running"
  | cancelling => "cancelling"
  | cancellationStuck => "cancellation_stuck"
  | persistenceDegraded => "persistence_degraded"
  | finalizing => "finalizing"

/-- Whether an abort can still request cancellation. -/
def abortable : RunPhase → Bool
  | starting | running | cancelling => true
  | _ => false

end RunPhase

structure RunLease where
  runId : String
  epoch : Nat
  runSequence : Option Nat
deriving DecidableEq

structure RunSnapshot where
  runId : String
  epoch : Nat
  runSequence : Option Nat
  phase : RunPhase
deriving DecidableEq

/-- The lease a snapshot was taken of. -/
def RunSnapshot.lease (s : RunSnapshot) : RunLease :=
  ⟨s.runId, s.epoch, s.runSequence⟩

/-- What a snapshot of this lease in a given phase looks like. -/
def RunLease.inPhase (lease : RunLease) (phase : RunPhase) : RunSnapshot :=
  ⟨lease.runId, lease.epoch, lease.runSequence, phase⟩

@[simp] theorem RunLease.inPhase_lease (lease : RunLease) (phase : RunPhase) :
    (lease.inPhase phase).lease = lease := rfl

@[simp] theorem RunLease.inPhase_phase (lease : RunLease) (phase : RunPhase) :
    (lease.inPhase phase).phase = phase := rfl

@[simp] theorem RunLease.inPhase_inj
    {lease lease' : RunLease}
    {phase phase' : RunPhase} :
    lease.inPhase phase = lease'.inPhase phase' ↔
      lease = lease' ∧ phase = phase' := by
  cases lease
  cases lease'
  simp [RunLease.inPhase, and_assoc]

inductive CancellationCause
  | user
  | systemShutdown
deriving DecidableEq

/-- Where a cancellation is delivered: an interrupt channel and a flag. -/
structure Targets where
  interruptTx : Option Nat
  interruptFlag : Option Nat
deriving DecidableEq

/-- Flags raised and channels signalled so far, latest first. -/
structure Signals where
  raised : List Nat
  pinged : List Nat
deriving DecidableEq

namespace Signals

def empty : Signals := ⟨[], []⟩

/-- Deliver a cancellation to the targets captured in the critical section. -/
def deliver (s : Signals) (t : Targets) : Signals :=
  { raised := t.interruptFlag.toList ++ s.raised
    pinged := t.interruptTx.toList ++ s.pinged }

end Signals

structure ActiveRun where
  lease : RunLease
  clientRequestId : String
  phase : RunPhase
  targets : Targets
  cancellation : Option CancellationCause
deriving DecidableEq

namespace ActiveRun

def snapshot (active : ActiveRun) : RunSnapshot :=
  active.lease.inPhase active.phase

end ActiveRun

/-- Values of a `u64` or `usize` counter. -/
def wordSize : Nat := 2 ^ 64

/-- `wrapping_add(1)` and `fetch_add(1)`. -/
def wrappingSucc (n : Nat) : Nat := (n + 1) % wordSize

/-- `fetch_sub(1)`. -/
def wrappingPred (n : Nat) : Nat := (n + (wordSize - 1)) % wordSize

structure RunControl where
  epoch : Nat
  active : Option ActiveRun
  recentRequests : List (String × RunLease)
  isStreaming : Bool
  activeTasks : Nat
  staleEpochDrops : Nat
  persistenceDegraded : Nat
deriving DecidableEq

namespace RunControl

/-- A fresh control state; the session creates the shared flag as `false`. -/
def new : RunControl := ⟨0, none, [], false, 0, 0, 0⟩

/-- The lease of the active run. -/
def activeLease (c : RunControl) : Option RunLease :=
  c.active.map ActiveRun.lease

def snapshot (c : RunControl) : Option RunSnapshot :=
  c.active.map ActiveRun.snapshot

def isTerminalUnrecoverable (c : RunControl) : Bool :=
  c.active.any fun active =>
    active.phase = .cancellationStuck ∨ active.phase = .persistenceDegraded

def requestLease (c : RunControl) (clientRequestId : String) :
    Option RunLease :=
  if clientRequestId = "" then
    none
  else
    ((c.active.filter (·.clientRequestId = clientRequestId)).map
        ActiveRun.lease).or
      ((c.recentRequests.find? (·.1 = clientRequestId)).map Prod.snd)

def cancellationKind (c : RunControl) (lease : RunLease) :
    Option CancellationCause :=
  (c.active.filter (·.lease = lease)).bind ActiveRun.cancellation

/-- A late or duplicate completion is counted and dropped. -/
def stale (c : RunControl) : Bool × RunControl :=
  (false, { c with staleEpochDrops := wrappingSucc c.staleEpochDrops })

/-- Overwrite the phase of the active run. -/
def setPhase (c : RunControl) (active : ActiveRun) (phase : RunPhase) :
    RunControl :=
  { c with active := some { active with phase } }

/-- Clear the slot and the two mirrors. -/
def release (c : RunControl) : RunControl :=
  { c with
    active := none
    isStreaming := false
    activeTasks := wrappingPred c.activeTasks }

/--
Idempotency check of `begin`.  A cancellation-stuck run never completed, so its
request id does not count as accepted.
-/
def alreadyAccepted (c : RunControl) (clientRequestId : String) : Bool :=
  clientRequestId ≠ "" ∧
    (c.active.any (fun active =>
        active.clientRequestId = clientRequestId ∧
          active.phase ≠ .cancellationStuck) ∨
      c.recentRequests.any (·.1 = clientRequestId))

/-- The part of `begin` after the slot is known to be free. -/
def admitRun
    (c : RunControl)
    (requestedRunId : Option String)
    (clientRequestId : String)
    (runSequence : Option Nat)
    (generatedId : String) :
    RunLease × RunControl :=
  let epoch := max (wrappingSucc c.epoch) 1
  let lease : RunLease :=
    { runId := (requestedRunId.filter (· ≠ "")).getD generatedId
      epoch
      runSequence }
  (lease,
    { c with
      epoch
      active := some
        { lease
          clientRequestId
          phase := .starting
          targets := ⟨none, none⟩
          cancellation := none }
      isStreaming := true
      activeTasks := wrappingSucc c.activeTasks })

/-- `begin_with_sequence`; `generatedId` is what `generate_id` would return. -/
def beginWithSequence
    (c : RunControl)
    (requestedRunId clientRequestId : Option String)
    (runSequence : Option Nat)
    (generatedId : String) :
    Except String RunLease × RunControl :=
  let clientRequestId := clientRequestId.getD ""
  if c.alreadyAccepted clientRequestId then
    (.error s!"client request `{clientRequestId}` was already accepted", c)
  else
    match c.active with
    | none =>
        let (lease, c') :=
          c.admitRun requestedRunId clientRequestId runSequence generatedId
        (.ok lease, c')
    | some active =>
        -- self-heal: a stuck predecessor is released, any other phase refuses
        if active.phase = .cancellationStuck then
          let (lease, c') :=
            c.release.admitRun requestedRunId clientRequestId runSequence
              generatedId
          (.ok lease, c')
        else
          (.error ("agent run " ++ active.lease.runId ++ " is " ++
            active.phase.asStr ++
            "; wait for it to finish before starting another run"), c)

/-- `begin`: an unscheduled run has no run sequence. -/
def begin
    (c : RunControl)
    (requestedRunId clientRequestId : Option String)
    (generatedId : String) :
    Except String RunLease × RunControl :=
  c.beginWithSequence requestedRunId clientRequestId none generatedId

def installCancellation
    (c : RunControl)
    (signals : Signals)
    (lease : RunLease)
    (interruptTx interruptFlag : Nat) :
    Bool × RunControl × Signals :=
  match c.active with
  | none => (c.stale.1, c.stale.2, signals)
  | some active =>
      if active.lease ≠ lease then
        (c.stale.1, c.stale.2, signals)
      else
        let targets : Targets := ⟨some interruptTx, some interruptFlag⟩
        let signals' :=
          if active.phase = .cancelling ∨ active.phase = .cancellationStuck then
            signals.deliver targets
          else
            signals
        let phase :=
          if active.phase = .starting then .running else active.phase
        (true, { c with active := some { active with targets, phase } },
          signals')

/-- The run id check of an abort that names the run it expects. -/
def validateRunId (activeRunId : String) (expectedRunId : Option String) :
    Except String Unit :=
  match expectedRunId.filter (· ≠ "") with
  | none => .ok ()
  | some expected =>
      if expected = activeRunId then
        .ok ()
      else
        .error ("run `" ++ expected ++
          "` is no longer active; current run is `" ++ activeRunId ++ "`")

/--
The critical section of `cancel_expected`: phase and cause are set and the
targets captured.  `none` is the no-op answer.
-/
def cancelLocked
    (c : RunControl)
    (expectedRunId : Option String)
    (systemInterruption : Bool) :
    Except String (Option (RunSnapshot × Targets)) × RunControl :=
  match c.active with
  | none =>
      match expectedRunId.filter (· ≠ "") with
      | some expected =>
          (.error ("run `" ++ expected ++ "` is no longer active"), c)
      | none => (.ok none, c)
  | some active =>
      match validateRunId active.lease.runId expectedRunId with
      | .error message => (.error message, c)
      | .ok () =>
          if active.phase.abortable then
            let cause : CancellationCause :=
              if systemInterruption ∧ active.cancellation ≠ some .user then
                .systemShutdown
              else
                .user
            let active' : ActiveRun :=
              { active with phase := .cancelling, cancellation := some cause }
            (.ok (some (active'.snapshot, active.targets)),
              { c with active := some active' })
          else
            (.ok none, c)

/-- `cancel_expected`: the critical section, then the delivery. -/
def cancelExpected
    (c : RunControl)
    (signals : Signals)
    (expectedRunId : Option String)
    (systemInterruption : Bool) :
    Except String (Option RunSnapshot) × RunControl × Signals :=
  match c.cancelLocked expectedRunId systemInterruption with
  | (.error message, c') => (.error message, c', signals)
  | (.ok none, c') => (.ok none, c', signals)
  | (.ok (some (snapshot, targets)), c') =>
      (.ok (some snapshot), c', signals.deliver targets)

/-- Fence all final work of the run. -/
def beginFinalizing (c : RunControl) (lease : RunLease) :
    Bool × RunControl :=
  match c.active with
  | none => c.stale
  | some active =>
      if active.lease ≠ lease then
        c.stale
      else
        (true, c.setPhase active .finalizing)

def markStuck (c : RunControl) (lease : RunLease) : Bool × RunControl :=
  match c.active with
  | none => (false, c)
  | some active =>
      if active.lease ≠ lease then
        (false, c)
      else
        (true, c.setPhase active .cancellationStuck)

def markPersistenceDegraded (c : RunControl) (lease : RunLease) :
    Bool × RunControl :=
  match c.active with
  | none => (false, c)
  | some active =>
      if active.lease ≠ lease then
        (false, c)
      else if active.phase = .persistenceDegraded then
        (true, c)
      else
        (true,
          { c.setPhase active .persistenceDegraded with
            persistenceDegraded := wrappingSucc c.persistenceDegraded })

/-- How many finished requests are remembered for transport retries. -/
def recentRequestLimit : Nat := 64

/-- Remember a finished request in the bounded retry window. -/
def rememberRequest (c : RunControl) (finished : ActiveRun) :
    List (String × RunLease) :=
  if finished.clientRequestId = "" then
    c.recentRequests
  else
    let recent :=
      c.recentRequests ++ [(finished.clientRequestId, finished.lease)]
    recent.drop (recent.length - recentRequestLimit)

def finish (c : RunControl) (lease : RunLease) : Bool × RunControl :=
  match c.active with
  | none => c.stale
  | some finished =>
      if finished.lease ≠ lease then
        c.stale
      else
        (true,
          { c.release with recentRequests := c.rememberRequest finished })

def recoverPersistenceDegraded (c : RunControl) (lease : RunLease) :
    Bool × RunControl :=
  match c.active with
  | none => (false, c)
  | some active =>
      if active.lease ≠ lease ∨ active.phase ≠ .persistenceDegraded then
        (false, c)
      else
        (c.setPhase active .finalizing).finish lease

/-! ## What each operation does to the snapshot -/

/-- The control state `begin` may admit a run into: idle, or just healed. -/
inductive Freed (c : RunControl) : RunControl → Prop
  | idle (hactive : c.active = none) : Freed c c
  | healed {active : ActiveRun}
      (hactive : c.active = some active)
      (hstuck : active.phase = .cancellationStuck) :
      Freed c c.release

/-- `begin` refuses and changes nothing, or admits into a freed slot. -/
theorem beginWithSequence_cases
    (c : RunControl)
    (requestedRunId clientRequestId : Option String)
    (runSequence : Option Nat)
    (generatedId : String) :
    (∃ message,
      c.beginWithSequence requestedRunId clientRequestId runSequence
        generatedId = (.error message, c)) ∨
    (∃ free, c.Freed free ∧
      c.beginWithSequence requestedRunId clientRequestId runSequence
        generatedId =
        (.ok (free.admitRun requestedRunId (clientRequestId.getD "") runSequence
            generatedId).1,
          (free.admitRun requestedRunId (clientRequestId.getD "") runSequence
            generatedId).2)) := by
  by_cases hacc : c.alreadyAccepted (clientRequestId.getD "") = true
  · left
    simp only [RunControl.beginWithSequence, hacc, if_true]
    exact ⟨_, rfl⟩
  · cases hactive : c.active with
    | none =>
        right
        refine ⟨c, .idle hactive, ?_⟩
        simp only [RunControl.beginWithSequence, hacc, hactive]
        rfl
    | some active =>
        by_cases hstuck : active.phase = .cancellationStuck
        · right
          refine ⟨c.release, .healed hactive hstuck, ?_⟩
          simp only [RunControl.beginWithSequence, hacc, hactive, hstuck]
          rfl
        · left
          simp only [RunControl.beginWithSequence, hacc, hactive, hstuck]
          exact ⟨_, rfl⟩

theorem Freed.active_eq_none
    {c free : RunControl}
    (h : c.Freed free) :
    free.active = none := by
  cases h with
  | idle hactive => exact hactive
  | healed => rfl

theorem Freed.epoch_eq
    {c free : RunControl}
    (h : c.Freed free) :
    free.epoch = c.epoch := by
  cases h <;> rfl

theorem activeLease_eq_some_iff (c : RunControl) (lease : RunLease) :
    c.activeLease = some lease ↔
      ∃ phase, c.snapshot = some (lease.inPhase phase) := by
  unfold activeLease snapshot
  cases c.active with
  | none =>
      simp
  | some active =>
      simp only [Option.map_some, Option.some.injEq, ActiveRun.snapshot,
        RunLease.inPhase_inj]
      constructor
      · intro h
        exact ⟨_, h, rfl⟩
      · rintro ⟨_, h, _⟩
        exact h

theorem activeLease_eq (c : RunControl) :
    c.activeLease = c.snapshot.map RunSnapshot.lease := by
  unfold activeLease snapshot
  cases c.active <;> rfl

theorem activeLease_eq_none_iff (c : RunControl) :
    c.activeLease = none ↔ c.snapshot = none := by
  simp [activeLease, snapshot]

theorem snapshot_setPhase
    (c : RunControl)
    (active : ActiveRun)
    (phase : RunPhase) :
    (c.setPhase active phase).snapshot =
      some (active.lease.inPhase phase) := rfl

theorem snapshot_beginFinalizing (c : RunControl) (lease : RunLease) :
    (c.beginFinalizing lease).2.snapshot =
      if c.activeLease = some lease then
        some (lease.inPhase .finalizing)
      else
        c.snapshot := by
  unfold beginFinalizing activeLease
  cases hactive : c.active with
  | none =>
      simp [stale, snapshot, hactive]
  | some active =>
      by_cases hlease : active.lease = lease
      · simp [hlease, snapshot_setPhase]
      · simp [hlease, stale, snapshot, hactive]

theorem snapshot_markStuck (c : RunControl) (lease : RunLease) :
    (c.markStuck lease).2.snapshot =
      if c.activeLease = some lease then
        some (lease.inPhase .cancellationStuck)
      else
        c.snapshot := by
  unfold markStuck activeLease
  cases hactive : c.active with
  | none =>
      simp
  | some active =>
      by_cases hlease : active.lease = lease
      · simp [hlease, snapshot_setPhase]
      · simp [hlease]

theorem snapshot_markPersistenceDegraded (c : RunControl) (lease : RunLease) :
    (c.markPersistenceDegraded lease).2.snapshot =
      if c.activeLease = some lease then
        some (lease.inPhase .persistenceDegraded)
      else
        c.snapshot := by
  unfold markPersistenceDegraded activeLease
  cases hactive : c.active with
  | none =>
      simp
  | some active =>
      by_cases hlease : active.lease = lease
      · by_cases hphase : active.phase = .persistenceDegraded
        · simp [hlease, hphase, snapshot, hactive, ActiveRun.snapshot]
        · simp only [hlease, hphase, ne_eq, not_true_eq_false, if_false,
            Option.map_some, if_true]
          rw [← hlease]
          rfl
      · simp [hlease]

theorem snapshot_finish (c : RunControl) (lease : RunLease) :
    (c.finish lease).2.snapshot =
      if c.activeLease = some lease then none else c.snapshot := by
  unfold finish activeLease
  cases hactive : c.active with
  | none =>
      simp [stale, snapshot, hactive]
  | some active =>
      by_cases hlease : active.lease = lease
      · simp [hlease, snapshot, release]
      · simp [hlease, stale, snapshot, hactive]

/-- `finish` reports success exactly when it holds the active lease. -/
theorem finish_fst (c : RunControl) (lease : RunLease) :
    (c.finish lease).1 = decide (c.activeLease = some lease) := by
  unfold finish activeLease
  cases hactive : c.active with
  | none =>
      simp [stale]
  | some active =>
      by_cases hlease : active.lease = lease <;> simp [hlease, stale]

theorem snapshot_recoverPersistenceDegraded
    (c : RunControl)
    (lease : RunLease) :
    (c.recoverPersistenceDegraded lease).2.snapshot =
      if c.snapshot = some (lease.inPhase .persistenceDegraded) then
        none
      else
        c.snapshot := by
  unfold recoverPersistenceDegraded
  cases hactive : c.active with
  | none =>
      simp [snapshot, hactive]
  | some active =>
      have hsnap : c.snapshot = some (active.lease.inPhase active.phase) := by
        simp [snapshot, hactive, ActiveRun.snapshot]
      by_cases hlease : active.lease = lease
      · by_cases hphase : active.phase = .persistenceDegraded
        · simp [hsnap, hlease, hphase, snapshot_finish, activeLease, setPhase]
        · simp [hsnap, hlease, hphase]
      · simp [hsnap, hlease]

theorem recoverPersistenceDegraded_fst (c : RunControl) (lease : RunLease) :
    (c.recoverPersistenceDegraded lease).1 =
      decide (c.snapshot = some (lease.inPhase .persistenceDegraded)) := by
  unfold recoverPersistenceDegraded
  cases hactive : c.active with
  | none =>
      simp [snapshot, hactive]
  | some active =>
      have hsnap : c.snapshot = some (active.lease.inPhase active.phase) := by
        simp [snapshot, hactive, ActiveRun.snapshot]
      by_cases hlease : active.lease = lease
      · by_cases hphase : active.phase = .persistenceDegraded
        · simp [hsnap, hlease, hphase, finish_fst, activeLease, setPhase]
        · simp [hsnap, hlease, hphase]
      · simp [hsnap, hlease]

/-- Installing targets moves a run only from starting to running. -/
theorem snapshot_installCancellation
    (c : RunControl)
    (signals : Signals)
    (lease : RunLease)
    (interruptTx interruptFlag : Nat) :
    (c.installCancellation signals lease interruptTx
        interruptFlag).2.1.snapshot =
      if c.snapshot = some (lease.inPhase .starting) then
        some (lease.inPhase .running)
      else
        c.snapshot := by
  unfold installCancellation
  cases hactive : c.active with
  | none =>
      simp [stale, snapshot, hactive]
  | some active =>
      have hsnap : c.snapshot = some (active.lease.inPhase active.phase) := by
        simp [snapshot, hactive, ActiveRun.snapshot]
      by_cases hlease : active.lease = lease
      · rw [hsnap]
        by_cases hphase : active.phase = .starting
        · simp [hlease, hphase, snapshot, ActiveRun.snapshot]
        · simp [hlease, hphase, snapshot, ActiveRun.snapshot]
      · simp only [hlease, ne_eq, not_false_eq_true, if_true]
        rw [hsnap]
        simp [hlease, stale, snapshot, hactive, ActiveRun.snapshot]

/-- A cancellation moves an abortable run to cancelling, or does nothing. -/
theorem cancelLocked_cases
    (c : RunControl)
    (expectedRunId : Option String)
    (systemInterruption : Bool) :
    (∃ (lease : RunLease) (phase : RunPhase) (targets : Targets),
      c.snapshot = some (lease.inPhase phase) ∧
      phase.abortable = true ∧
      (c.cancelLocked expectedRunId systemInterruption).1 =
        .ok (some (lease.inPhase .cancelling, targets)) ∧
      (c.cancelLocked expectedRunId systemInterruption).2.snapshot =
        some (lease.inPhase .cancelling)) ∨
    ((∀ answer, (c.cancelLocked expectedRunId systemInterruption).1 ≠
        .ok (some answer)) ∧
      (c.cancelLocked expectedRunId systemInterruption).2 = c) := by
  unfold cancelLocked
  cases hactive : c.active with
  | none =>
      right
      dsimp only
      split <;> simp
  | some active =>
      dsimp only
      split
      · right
        simp
      · split
        · rename_i habort
          left
          exact ⟨active.lease, active.phase, active.targets,
            by simp [snapshot, hactive, ActiveRun.snapshot], habort, rfl, rfl⟩
        · right
          simp

/-- A `begin` that succeeds found the slot empty or holding a stuck run. -/
theorem snapshot_beginWithSequence
    (c : RunControl)
    (requestedRunId clientRequestId : Option String)
    (runSequence : Option Nat)
    (generatedId : String) :
    (∃ message,
      c.beginWithSequence requestedRunId clientRequestId runSequence
        generatedId = (.error message, c)) ∨
    ∃ lease : RunLease,
      (c.snapshot = none ∨
        ∃ dead : RunLease, c.snapshot = some (dead.inPhase .cancellationStuck)) ∧
      (c.beginWithSequence requestedRunId clientRequestId runSequence
        generatedId).1 = .ok lease ∧
      lease.epoch = max (wrappingSucc c.epoch) 1 ∧
      (c.beginWithSequence requestedRunId clientRequestId runSequence
        generatedId).2.snapshot = some (lease.inPhase .starting) := by
  rcases c.beginWithSequence_cases requestedRunId clientRequestId runSequence
      generatedId with h | ⟨free, hfree, heq⟩
  · exact Or.inl h
  · refine Or.inr ⟨_, ?_, by rw [heq], ?_, by rw [heq]; rfl⟩
    · cases hfree with
      | idle hactive =>
          left
          simp [snapshot, hactive]
      | @healed active hactive hstuck =>
          right
          exact ⟨active.lease, by simp [snapshot, hactive, ActiveRun.snapshot, hstuck]⟩
    · simp [admitRun, hfree.epoch_eq]

/-! ## Mirrors of the active run -/

/-- The streaming flag and the task counter mirror the active run. -/
structure Live (c : RunControl) : Prop where
  streaming : c.isStreaming = c.active.isSome
  tasks : c.activeTasks = if c.active.isSome then 1 else 0

theorem live_new : Live new :=
  ⟨rfl, rfl⟩

theorem Live.stale {c : RunControl} (h : Live c) : Live c.stale.2 :=
  ⟨h.streaming, h.tasks⟩

/-- Replacing the active run by another value keeps the mirrors. -/
theorem Live.withActive
    {c : RunControl}
    {active : ActiveRun}
    (h : Live c)
    (hactive : c.active = some active)
    (active' : ActiveRun) :
    Live { c with active := some active' } := by
  obtain ⟨hs, ht⟩ := h
  rw [hactive] at hs ht
  exact ⟨hs, ht⟩

theorem Live.setPhase
    {c : RunControl}
    {active : ActiveRun}
    (h : Live c)
    (hactive : c.active = some active)
    (phase : RunPhase) :
    Live (c.setPhase active phase) :=
  h.withActive hactive _

theorem Live.release
    {c : RunControl}
    {active : ActiveRun}
    (h : Live c)
    (hactive : c.active = some active) :
    Live c.release := by
  have ht := h.tasks
  rw [hactive] at ht
  refine ⟨rfl, ?_⟩
  simp [RunControl.release, ht, wrappingPred, wordSize]

theorem Live.admitRun
    {c : RunControl}
    (h : Live c)
    (hactive : c.active = none)
    (requestedRunId : Option String)
    (clientRequestId : String)
    (runSequence : Option Nat)
    (generatedId : String) :
    Live (c.admitRun requestedRunId clientRequestId runSequence
      generatedId).2 := by
  have ht := h.tasks
  rw [hactive] at ht
  refine ⟨rfl, ?_⟩
  simp [RunControl.admitRun, ht, wrappingSucc, wordSize]

theorem Live.freed
    {c free : RunControl}
    (h : Live c)
    (hfree : c.Freed free) :
    Live free := by
  cases hfree with
  | idle => exact h
  | healed hactive => exact h.release hactive

theorem Live.beginWithSequence
    {c : RunControl}
    (h : Live c)
    (requestedRunId clientRequestId : Option String)
    (runSequence : Option Nat)
    (generatedId : String) :
    Live (c.beginWithSequence requestedRunId clientRequestId runSequence
      generatedId).2 := by
  rcases c.beginWithSequence_cases requestedRunId clientRequestId runSequence
      generatedId with ⟨message, heq⟩ | ⟨free, hfree, heq⟩
  · rw [heq]
    exact h
  · rw [heq]
    exact (h.freed hfree).admitRun hfree.active_eq_none _ _ _ _

theorem Live.installCancellation
    {c : RunControl}
    (h : Live c)
    (signals : Signals)
    (lease : RunLease)
    (interruptTx interruptFlag : Nat) :
    Live (c.installCancellation signals lease interruptTx
      interruptFlag).2.1 := by
  unfold RunControl.installCancellation
  split
  · exact h.stale
  · rename_i active hactive
    split
    · exact h.stale
    · exact h.withActive hactive _

theorem Live.cancelLocked
    {c : RunControl}
    (h : Live c)
    (expectedRunId : Option String)
    (systemInterruption : Bool) :
    Live (c.cancelLocked expectedRunId systemInterruption).2 := by
  unfold RunControl.cancelLocked
  split
  · split <;> exact h
  · rename_i active hactive
    split
    · exact h
    · split
      · exact h.withActive hactive _
      · exact h

/-- The delivery step leaves the control state alone. -/
theorem cancelExpected_control
    (c : RunControl)
    (signals : Signals)
    (expectedRunId : Option String)
    (systemInterruption : Bool) :
    (c.cancelExpected signals expectedRunId systemInterruption).2.1 =
      (c.cancelLocked expectedRunId systemInterruption).2 := by
  unfold RunControl.cancelExpected
  split <;> simp_all

theorem Live.beginFinalizing
    {c : RunControl}
    (h : Live c)
    (lease : RunLease) :
    Live (c.beginFinalizing lease).2 := by
  unfold RunControl.beginFinalizing
  split
  · exact h.stale
  · rename_i active hactive
    split
    · exact h.stale
    · exact h.setPhase hactive _

theorem Live.markStuck
    {c : RunControl}
    (h : Live c)
    (lease : RunLease) :
    Live (c.markStuck lease).2 := by
  unfold RunControl.markStuck
  split
  · exact h
  · rename_i active hactive
    split
    · exact h
    · exact h.setPhase hactive _

theorem Live.markPersistenceDegraded
    {c : RunControl}
    (h : Live c)
    (lease : RunLease) :
    Live (c.markPersistenceDegraded lease).2 := by
  unfold RunControl.markPersistenceDegraded
  split
  · exact h
  · rename_i active hactive
    split
    · exact h
    · split
      · exact h
      · have hset := h.setPhase hactive .persistenceDegraded
        exact ⟨hset.streaming, hset.tasks⟩

theorem Live.finish
    {c : RunControl}
    (h : Live c)
    (lease : RunLease) :
    Live (c.finish lease).2 := by
  unfold RunControl.finish
  split
  · exact h.stale
  · rename_i finished hactive
    split
    · exact h.stale
    · have hrel := h.release hactive
      exact ⟨hrel.streaming, hrel.tasks⟩

theorem Live.recoverPersistenceDegraded
    {c : RunControl}
    (h : Live c)
    (lease : RunLease) :
    Live (c.recoverPersistenceDegraded lease).2 := by
  unfold RunControl.recoverPersistenceDegraded
  split
  · exact h
  · rename_i active hactive
    split
    · exact h
    · exact (h.setPhase hactive .finalizing).finish lease

@[simp] theorem finish_epoch (c : RunControl) (lease : RunLease) :
    (c.finish lease).2.epoch = c.epoch := by
  unfold RunControl.finish
  split
  · rfl
  · split <;> rfl

end RunControl

/-! ## Runs of operations -/

/-- The control state together with what has been signalled outside it. -/
structure ControlWorld where
  control : RunControl
  signals : Signals
deriving DecidableEq

/-- One call on a `RunControl`, with the values its caller passes. -/
inductive ControlOp
  | begin (requestedRunId clientRequestId : Option String)
      (runSequence : Option Nat) (generatedId : String)
  | installCancellation (lease : RunLease) (interruptTx interruptFlag : Nat)
  | cancel (expectedRunId : Option String) (systemInterruption : Bool)
  | beginFinalizing (lease : RunLease)
  | markStuck (lease : RunLease)
  | markPersistenceDegraded (lease : RunLease)
  | finish (lease : RunLease)
  | recoverPersistenceDegraded (lease : RunLease)
deriving DecidableEq

namespace ControlOp

/-- The lease an operation is issued under. -/
def lease? : ControlOp → Option RunLease
  | begin .. => none
  | installCancellation lease .. => some lease
  | cancel .. => none
  | beginFinalizing lease => some lease
  | markStuck lease => some lease
  | markPersistenceDegraded lease => some lease
  | finish lease => some lease
  | recoverPersistenceDegraded lease => some lease

end ControlOp

namespace ControlWorld

def new : ControlWorld := ⟨RunControl.new, Signals.empty⟩

def step (w : ControlWorld) : ControlOp → ControlWorld
  | .begin requestedRunId clientRequestId runSequence generatedId =>
      { w with control :=
          (w.control.beginWithSequence requestedRunId clientRequestId
            runSequence generatedId).2 }
  | .installCancellation lease interruptTx interruptFlag =>
      let r := w.control.installCancellation w.signals lease interruptTx
        interruptFlag
      ⟨r.2.1, r.2.2⟩
  | .cancel expectedRunId systemInterruption =>
      let r := w.control.cancelExpected w.signals expectedRunId
        systemInterruption
      ⟨r.2.1, r.2.2⟩
  | .beginFinalizing lease =>
      { w with control := (w.control.beginFinalizing lease).2 }
  | .markStuck lease =>
      { w with control := (w.control.markStuck lease).2 }
  | .markPersistenceDegraded lease =>
      { w with control := (w.control.markPersistenceDegraded lease).2 }
  | .finish lease =>
      { w with control := (w.control.finish lease).2 }
  | .recoverPersistenceDegraded lease =>
      { w with control := (w.control.recoverPersistenceDegraded lease).2 }

/-- The epoch a successful `begin` hands out. -/
def handedOut (w : ControlWorld) : ControlOp → List Nat
  | .begin requestedRunId clientRequestId runSequence generatedId =>
      match (w.control.beginWithSequence requestedRunId clientRequestId
          runSequence generatedId).1 with
      | .ok lease => [lease.epoch]
      | .error _ => []
  | _ => []

theorem live_step (w : ControlWorld) (op : ControlOp) (h : w.control.Live) :
    (w.step op).control.Live := by
  cases op with
  | begin => exact h.beginWithSequence _ _ _ _
  | installCancellation => exact h.installCancellation _ _ _ _
  | cancel expectedRunId systemInterruption =>
      simp only [step, RunControl.cancelExpected_control]
      exact h.cancelLocked _ _
  | beginFinalizing lease => exact h.beginFinalizing lease
  | markStuck lease => exact h.markStuck lease
  | markPersistenceDegraded lease => exact h.markPersistenceDegraded lease
  | finish lease => exact h.finish lease
  | recoverPersistenceDegraded lease =>
      exact h.recoverPersistenceDegraded lease

/-- An operation under a lease that is not active only counts a stale drop. -/
theorem step_of_stale
    (w : ControlWorld)
    (op : ControlOp)
    (lease : RunLease)
    (hlease : op.lease? = some lease)
    (hstale : w.control.activeLease ≠ some lease) :
    ∃ drops, w.step op =
      { w with control := { w.control with staleEpochDrops := drops } } := by
  have hother : ∀ active, w.control.active = some active →
      active.lease ≠ lease := by
    intro active hactive heq
    exact hstale (by simp [RunControl.activeLease, hactive, heq])
  cases op with
  | begin => simp [ControlOp.lease?] at hlease
  | cancel => simp [ControlOp.lease?] at hlease
  | installCancellation l tx flag =>
      obtain rfl : l = lease := by simpa [ControlOp.lease?] using hlease
      simp only [step, RunControl.installCancellation]
      split
      · exact ⟨_, rfl⟩
      · rename_i active hactive
        rw [if_pos (hother active hactive)]
        exact ⟨_, rfl⟩
  | beginFinalizing l =>
      obtain rfl : l = lease := by simpa [ControlOp.lease?] using hlease
      simp only [step, RunControl.beginFinalizing]
      split
      · exact ⟨_, rfl⟩
      · rename_i active hactive
        rw [if_pos (hother active hactive)]
        exact ⟨_, rfl⟩
  | markStuck l =>
      obtain rfl : l = lease := by simpa [ControlOp.lease?] using hlease
      simp only [step, RunControl.markStuck]
      split
      · exact ⟨_, rfl⟩
      · rename_i active hactive
        rw [if_pos (hother active hactive)]
        exact ⟨_, rfl⟩
  | markPersistenceDegraded l =>
      obtain rfl : l = lease := by simpa [ControlOp.lease?] using hlease
      simp only [step, RunControl.markPersistenceDegraded]
      split
      · exact ⟨_, rfl⟩
      · rename_i active hactive
        rw [if_pos (hother active hactive)]
        exact ⟨_, rfl⟩
  | finish l =>
      obtain rfl : l = lease := by simpa [ControlOp.lease?] using hlease
      simp only [step, RunControl.finish]
      split
      · exact ⟨_, rfl⟩
      · rename_i active hactive
        rw [if_pos (hother active hactive)]
        exact ⟨_, rfl⟩
  | recoverPersistenceDegraded l =>
      obtain rfl : l = lease := by simpa [ControlOp.lease?] using hlease
      simp only [step, RunControl.recoverPersistenceDegraded]
      split
      · exact ⟨_, rfl⟩
      · rename_i active hactive
        rw [if_pos (Or.inl (hother active hactive))]
        exact ⟨_, rfl⟩

/-- Only a `begin` that hands out a lease moves the epoch. -/
theorem step_epoch
    (w : ControlWorld)
    (op : ControlOp) :
    (w.handedOut op = [] ∧ (w.step op).control.epoch = w.control.epoch) ∨
    (w.handedOut op = [max (wrappingSucc w.control.epoch) 1] ∧
      (w.step op).control.epoch = max (wrappingSucc w.control.epoch) 1) := by
  cases op with
  | begin requestedRunId clientRequestId runSequence generatedId =>
      rcases w.control.beginWithSequence_cases requestedRunId clientRequestId
          runSequence generatedId with ⟨message, heq⟩ | ⟨free, hfree, heq⟩
      · left
        simp [handedOut, step, heq]
      · right
        simp [handedOut, step, heq, RunControl.admitRun, hfree.epoch_eq]
  | installCancellation lease tx flag =>
      refine Or.inl ⟨rfl, ?_⟩
      simp only [step, RunControl.installCancellation]
      split
      · rfl
      · split <;> rfl
  | cancel expectedRunId systemInterruption =>
      refine Or.inl ⟨rfl, ?_⟩
      simp only [step, RunControl.cancelExpected_control,
        RunControl.cancelLocked]
      split
      · split <;> rfl
      · split
        · rfl
        · split <;> rfl
  | beginFinalizing lease =>
      refine Or.inl ⟨rfl, ?_⟩
      simp only [step, RunControl.beginFinalizing]
      split
      · rfl
      · split <;> rfl
  | markStuck lease =>
      refine Or.inl ⟨rfl, ?_⟩
      simp only [step, RunControl.markStuck]
      split
      · rfl
      · split <;> rfl
  | markPersistenceDegraded lease =>
      refine Or.inl ⟨rfl, ?_⟩
      simp only [step, RunControl.markPersistenceDegraded]
      split
      · rfl
      · split
        · rfl
        · split <;> rfl
  | finish lease =>
      exact Or.inl ⟨rfl, w.control.finish_epoch lease⟩
  | recoverPersistenceDegraded lease =>
      refine Or.inl ⟨rfl, ?_⟩
      simp only [step, RunControl.recoverPersistenceDegraded]
      split
      · rfl
      · split
        · rfl
        · rw [RunControl.finish_epoch]
          rfl

/-- Only a `begin` that hands out a lease makes one active. -/
theorem activeLease_of_step
    (w : ControlWorld)
    (op : ControlOp)
    (hop : w.handedOut op = [])
    (lease : RunLease)
    (hactive : (w.step op).control.activeLease = some lease) :
    w.control.activeLease = some lease := by
  rw [RunControl.activeLease_eq] at hactive
  cases op with
  | begin requestedRunId clientRequestId runSequence generatedId =>
      rcases w.control.beginWithSequence_cases requestedRunId clientRequestId
          runSequence generatedId with ⟨message, heq⟩ | ⟨free, _, heq⟩
      · simpa [step, heq, ← RunControl.activeLease_eq] using hactive
      · simp [handedOut, heq] at hop
  | installCancellation l tx flag =>
      simp only [step, RunControl.snapshot_installCancellation] at hactive
      split at hactive
      · rename_i hstarting
        simpa [RunControl.activeLease_eq, hstarting] using hactive
      · rwa [RunControl.activeLease_eq]
  | cancel expectedRunId systemInterruption =>
      simp only [step, RunControl.cancelExpected_control] at hactive
      rcases w.control.cancelLocked_cases expectedRunId systemInterruption with
        ⟨l, phase, _, hphase, _, _, hsnap⟩ | ⟨_, hsame⟩
      · rw [hsnap] at hactive
        simpa [RunControl.activeLease_eq, hphase] using hactive
      · rwa [hsame, ← RunControl.activeLease_eq] at hactive
  | beginFinalizing l =>
      simp only [step, RunControl.snapshot_beginFinalizing] at hactive
      split at hactive
      · rename_i hl
        rwa [hl]
      · rwa [RunControl.activeLease_eq]
  | markStuck l =>
      simp only [step, RunControl.snapshot_markStuck] at hactive
      split at hactive
      · rename_i hl
        rwa [hl]
      · rwa [RunControl.activeLease_eq]
  | markPersistenceDegraded l =>
      simp only [step, RunControl.snapshot_markPersistenceDegraded] at hactive
      split at hactive
      · rename_i hl
        rwa [hl]
      · rwa [RunControl.activeLease_eq]
  | finish l =>
      simp only [step, RunControl.snapshot_finish] at hactive
      split at hactive
      · simp at hactive
      · rwa [RunControl.activeLease_eq]
  | recoverPersistenceDegraded l =>
      simp only [step, RunControl.snapshot_recoverPersistenceDegraded] at hactive
      split at hactive
      · simp at hactive
      · rwa [RunControl.activeLease_eq]

/-- A step keeps the epoch and makes no lease active, or hands out the next. -/
theorem step_lease
    (w : ControlWorld)
    (op : ControlOp) :
    ((w.step op).control.epoch = w.control.epoch ∧
      ∀ lease, (w.step op).control.activeLease = some lease →
        w.control.activeLease = some lease) ∨
    ((w.step op).control.epoch = max (wrappingSucc w.control.epoch) 1 ∧
      ∃ lease, (w.step op).control.activeLease = some lease ∧
        lease.epoch = (w.step op).control.epoch) := by
  rcases w.step_epoch op with ⟨hout, hepoch⟩ | ⟨hout, hepoch⟩
  · exact Or.inl ⟨hepoch, w.activeLease_of_step op hout⟩
  · refine Or.inr ⟨hepoch, ?_⟩
    cases op with
    | begin requestedRunId clientRequestId runSequence generatedId =>
        rcases w.control.beginWithSequence_cases requestedRunId clientRequestId
            runSequence generatedId with ⟨message, heq⟩ | ⟨free, _, heq⟩
        · simp [handedOut, heq] at hout
        · exact ⟨_, by simp only [step, heq]; rfl, by simp only [step, heq]; rfl⟩
    | _ => simp [handedOut] at hout

/-- Until the counter wraps, the epochs handed out are `1, 2, 3, …`. -/
def EpochsFromOne (w : ControlWorld) (epochs : List Nat) : Prop :=
  epochs.length < wordSize →
    w.control.epoch = epochs.length ∧ epochs = List.range' 1 epochs.length

theorem epochsFromOne_step
    (w : ControlWorld)
    (epochs : List Nat)
    (op : ControlOp)
    (h : w.EpochsFromOne epochs) :
    (w.step op).EpochsFromOne (epochs ++ w.handedOut op) := by
  intro hlen
  rcases w.step_epoch op with ⟨hout, hepoch⟩ | ⟨hout, hepoch⟩
  · rw [hout, List.append_nil] at hlen ⊢
    rw [hepoch]
    exact h hlen
  · rw [hout] at hlen ⊢
    simp only [List.length_append, List.length_singleton] at hlen ⊢
    obtain ⟨hnow, hrange⟩ := h (by omega)
    have hsucc : max (wrappingSucc w.control.epoch) 1 = epochs.length + 1 := by
      rw [hnow, wrappingSucc, Nat.mod_eq_of_lt hlen]
      omega
    refine ⟨by rw [hepoch, hsucc], ?_⟩
    rw [hsucc, List.range'_1_concat, ← hrange, Nat.add_comm]

/--
Single live run per session: along every run of operations, with any mixture of
current and stale leases.
-/
theorem runControl_single_live_run (ops : List ControlOp) :
    let w := Machine.run step new ops
    (w.control.isStreaming = true ↔ w.control.active.isSome = true) ∧
    w.control.activeTasks = (if w.control.active.isSome then 1 else 0) ∧
    ((Machine.trace step handedOut new ops).length < wordSize →
      (Machine.trace step handedOut new ops).Pairwise (· < ·)) ∧
    ∀ op lease, op.lease? = some lease →
      w.control.activeLease ≠ some lease →
      ∃ drops, w.step op =
        { w with control := { w.control with staleEpochDrops := drops } } := by
  intro w
  have hlive : w.control.Live :=
    Machine.run_invariant (I := fun w => w.control.Live)
      (fun w op h => live_step w op h) RunControl.live_new ops
  have hepochs : w.EpochsFromOne (Machine.trace step handedOut new ops) :=
    Machine.run_trace_invariant (I := EpochsFromOne) epochsFromOne_step
      (show new.EpochsFromOne [] from fun _ => ⟨rfl, rfl⟩) ops
  refine ⟨by rw [hlive.streaming], hlive.tasks, ?_, w.step_of_stale⟩
  intro hlen
  rw [(hepochs hlen).2]
  exact List.pairwise_lt_range'

/-- Two runs after each other, and a late `finish` of the first. -/
theorem runControl_single_live_run_two :
    let ops : List ControlOp :=
      [.begin (some "a") (some "r1") none "", .finish ⟨"a", 1, none⟩,
        .begin (some "b") (some "r2") none ""]
    let w := Machine.run step new ops
    (Machine.trace step handedOut new ops).Pairwise (· < ·) ∧
    ∃ drops, w.step (.finish ⟨"a", 1, none⟩) =
      { w with control := { w.control with staleEpochDrops := drops } } := by
  intro ops w
  obtain ⟨_, _, hepochs, hstale⟩ := runControl_single_live_run ops
  exact ⟨hepochs (by decide), hstale _ ⟨"a", 1, none⟩ rfl (by decide)⟩

end ControlWorld

end Runtime
end FutureOs
