import FutureOs.Runtime.SessionRuntime

/-!
# The cancellation watchdog and a run that is unwinding

A watchdog reads the snapshot, and if it sees its lease cancelling it calls
`mark_stuck`.  These are two critical sections, and `mark_stuck` does not look
at the phase again, so a `begin_finalizing` that falls between them is
overwritten: the run is faulted while it unwinds, and its monitor keeps the
session locked.

* `Unraced`: the steps that keep clear of this, and of the two faults the run
  task itself can report once it is finalizing;
* `finalizing_run_released_once`: along every unraced run a finalizing lease is
  never marked stuck, and its monitor releases it with one completion;
* `watchdog_marks_finalizing_run`: the race.
-/

namespace FutureOs
namespace Runtime
namespace SessionRuntime

/-- The active lease is this one, and its run is unwinding. -/
def FinalizingUnder (r : SessionRuntime) (lease : RunLease) : Prop :=
  r.control.snapshot = some (lease.inPhase .finalizing)

instance (r : SessionRuntime) (lease : RunLease) :
    Decidable (r.FinalizingUnder lease) :=
  inferInstanceAs (Decidable (_ = _))

/-- Some watchdog of the lease is between its check and its mark. -/
def MarkPending (r : SessionRuntime) (lease : RunLease) : Prop :=
  ⟨lease, .sawCancelling⟩ ∈ r.watchdogs

instance (r : SessionRuntime) (lease : RunLease) :
    Decidable (r.MarkPending lease) :=
  inferInstanceAs (Decidable (_ ∈ _))

/--
The run does not start finalizing while a mark is pending, and reports neither a
panic nor a persistence failure once it is finalizing.
-/
def Unraced (lease : RunLease) (r : SessionRuntime) : SessionOp → Prop
  | .beginFinalizing l =>
      l = lease → r.control.activeLease = some lease → ¬r.MarkPending lease
  | .markStuck l => l = lease → ¬r.FinalizingUnder lease
  | .markPersistenceDegraded l => l = lease → ¬r.FinalizingUnder lease
  | .monitor (.error _) => r.task = some lease → ¬r.FinalizingUnder lease
  | _ => True

instance (lease : RunLease) (r : SessionRuntime) :
    ∀ op : SessionOp, Decidable (Unraced lease r op)
  | .beginFinalizing _ => inferInstanceAs (Decidable (_ → _ → _))
  | .markStuck _ => inferInstanceAs (Decidable (_ → _))
  | .markPersistenceDegraded _ => inferInstanceAs (Decidable (_ → _))
  | .monitor (.error _) => inferInstanceAs (Decidable (_ → _))
  | .monitor (.ok _) => isTrue trivial
  | .begin .. => isTrue trivial
  | .beginScheduled .. => isTrue trivial
  | .spawn _ => isTrue trivial
  | .installCancellation .. => isTrue trivial
  | .requestAbort .. => isTrue trivial
  | .interruptForShutdown _ => isTrue trivial
  | .watchdogWake _ => isTrue trivial
  | .watchdogMark _ => isTrue trivial
  | .finish _ => isTrue trivial
  | .recoverPersistenceDegraded _ => isTrue trivial
  | .finishCancelledFault _ => isTrue trivial

/-- The step does not wrap the epoch counter. -/
def EpochKept (r : SessionRuntime) (op : SessionOp) : Prop :=
  r.control.epoch ≤ (r.step op).control.epoch

instance (r : SessionRuntime) (op : SessionOp) : Decidable (r.EpochKept op) :=
  inferInstanceAs (Decidable (_ ≤ _))

section Race

variable {r : SessionRuntime}
variable {lease : RunLease}

theorem FinalizingUnder.activeLease
    (h : r.FinalizingUnder lease) :
    r.control.activeLease = some lease :=
  (r.control.activeLease_eq_some_iff lease).2 ⟨_, h⟩

/-- While the run is finalizing, no watchdog is about to mark it. -/
def Quiet (r : SessionRuntime) (lease : RunLease) : Prop :=
  r.FinalizingUnder lease → ¬r.MarkPending lease

theorem markPending_requestCancellation
    (expectedRunId : Option String)
    (systemInterruption onRuntime : Bool)
    (h : (r.requestCancellation expectedRunId systemInterruption
      onRuntime).2.MarkPending lease) :
    r.MarkPending lease := by
  unfold requestCancellation at h
  split at h
  · exact h
  · exact h
  · cases onRuntime <;> simpa [MarkPending] using h

/-- A mark becomes pending only where a watchdog sees its lease cancelling. -/
theorem markPending_step
    (op : SessionOp)
    (h : (r.step op).MarkPending lease) :
    r.MarkPending lease ∨
    ((r.step op).control = r.control ∧
      r.snapshotIs lease .cancelling = true) := by
  cases op with
  | watchdogWake i =>
      simp only [step, watchdogWake] at h ⊢
      split at h
      · rename_i l hi
        rcases List.mem_or_eq_of_mem_set h with hmem | heq
        · exact Or.inl hmem
        · simp only [Watchdog.mk.injEq] at heq
          obtain ⟨rfl, hstage⟩ := heq
          refine Or.inr ⟨rfl, ?_⟩
          by_contra hnot
          simp [hnot] at hstage
      · exact Or.inl h
  | watchdogMark i =>
      simp only [step, watchdogMark] at h
      split at h
      · rcases List.mem_or_eq_of_mem_set h with hmem | heq
        · exact Or.inl hmem
        · simp at heq
      · exact Or.inl h
  | requestAbort =>
      exact Or.inl (markPending_requestCancellation _ _ _ h)
  | interruptForShutdown =>
      exact Or.inl (markPending_requestCancellation _ _ _ h)
  | begin =>
      left
      simp only [step, begin, beginUnlessOwned] at h
      split at h <;> exact h
  | beginScheduled =>
      left
      simp only [step, beginScheduled, beginUnlessOwned] at h
      split at h <;> exact h
  | spawn =>
      left
      simp only [step, spawn] at h
      split at h <;> exact h
  | installCancellation => exact Or.inl h
  | beginFinalizing => exact Or.inl h
  | markStuck => exact Or.inl h
  | markPersistenceDegraded => exact Or.inl h
  | finish =>
      left
      simp only [step, finish] at h
      split at h <;> exact h
  | recoverPersistenceDegraded =>
      left
      simp only [step, recoverPersistenceDegraded] at h
      split at h
      · exact h
      · dsimp only at h
        split at h
        · simpa [MarkPending] using h
        · exact h
  | finishCancelledFault =>
      left
      simp only [step, finishCancelledFault] at h
      split at h
      · exact h
      · dsimp only at h
        split at h
        · simpa [MarkPending] using h
        · exact h
  | monitor =>
      left
      simp only [step, monitor] at h
      split at h
      · exact h
      · split at h
        · simpa [MarkPending] using h
        · exact h

/-- A lease is fenced only by `begin_finalizing`. -/
theorem finalizing_of_step
    (op : SessionOp)
    (h : (r.step op).FinalizingUnder lease) :
    r.FinalizingUnder lease ∨
    (op = .beginFinalizing lease ∧ r.control.activeLease = some lease) := by
  have hmove := r.phaseMove_step op
  unfold FinalizingUnder at h
  rw [h] at hmove
  generalize hafter : some (lease.inPhase .finalizing) = after at hmove
  cases hmove with
  | stays => exact Or.inl hafter.symm
  | fenced l hactive =>
      simp only [Option.some.injEq, RunLease.inPhase_inj, and_true] at hafter
      subst hafter
      exact Or.inr ⟨rfl, hactive⟩
  | _ => simp at hafter

theorem Quiet.step
    (hquiet : r.Quiet lease)
    (op : SessionOp)
    (hunraced : Unraced lease r op) :
    (r.step op).Quiet lease := by
  intro hfinalizing hpending
  rcases markPending_step op hpending with hbefore | ⟨hsame, hsaw⟩
  · rcases finalizing_of_step op hfinalizing with hfin | ⟨rfl, hactive⟩
    · exact hquiet hfin hbefore
    · exact hunraced rfl hactive hbefore
  · have hfin : r.FinalizingUnder lease := by
      rw [FinalizingUnder, ← hsame]
      exact hfinalizing
    rw [r.snapshotIs_iff hfin.activeLease, hfin] at hsaw
    simp at hsaw

/-- No unraced step marks a finalizing lease stuck. -/
theorem FinalizingUnder.not_marksStuck
    (h : r.FinalizingUnder lease)
    (hquiet : r.Quiet lease)
    {op : SessionOp}
    (hunraced : Unraced lease r op) :
    ¬r.MarksStuck lease op := by
  intro hmarks
  cases op with
  | markStuck l => exact hunraced hmarks h
  | watchdogMark i => exact hquiet h (List.mem_of_getElem? hmarks)
  | monitor outcome =>
      cases outcome with
      | error message => exact hunraced hmarks h
      | ok =>
          obtain ⟨_, phase, habortable, hphase⟩ := hmarks
          rw [h] at hphase
          simp only [Option.some.injEq, RunLease.inPhase_inj] at hphase
          rw [← hphase.2] at habortable
          simp [RunPhase.abortable] at habortable
  | _ => exact hmarks

/-- An unraced step leaves a finalizing lease finalizing, or releases it. -/
theorem FinalizingUnder.step
    (h : r.FinalizingUnder lease)
    (hquiet : r.Quiet lease)
    (op : SessionOp)
    (hunraced : Unraced lease r op) :
    (r.step op).FinalizingUnder lease ∨
    (r.step op).control.snapshot = none := by
  have hsame : ∀ l : RunLease, r.control.activeLease = some l → l = lease :=
    fun l hl => Option.some.inj (hl.symm.trans h.activeLease)
  have hmove := r.phaseMove_step op
  unfold FinalizingUnder
  generalize (r.step op).control.snapshot = after at hmove ⊢
  cases hmove with
  | stays => exact Or.inl h
  | admitted _ l hfree =>
      rw [h] at hfree
      simp at hfree
  | started _ l hstarting =>
      rw [h] at hstarting
      simp at hstarting
  | cancelled _ l phase hphase habortable =>
      rw [h] at hphase
      simp only [Option.some.injEq, RunLease.inPhase_inj] at hphase
      rw [← hphase.2] at habortable
      simp [RunPhase.abortable] at habortable
  | fenced l hactive =>
      rw [hsame l hactive]
      exact Or.inl rfl
  | stuck _ l hactive hmarks =>
      obtain rfl := hsame l hactive
      exact absurd hmarks (h.not_marksStuck hquiet hunraced)
  | degraded l hactive =>
      exact absurd h (hunraced (hsame l hactive))
  | released => exact Or.inr rfl

/-- The monitor of a task that ended normally releases a finalizing lease. -/
theorem FinalizingUnder.monitor_ok
    (h : r.FinalizingUnder lease)
    (htask : r.task = some lease)
    (hsender : r.hasCompletionSender = true) :
    let r' := r.monitor (.ok ())
    r'.control.snapshot = none ∧
    r'.task = none ∧
    r'.completions = r.completions ++ [lease] := by
  have hsettle : r.settle lease (.ok ()) = r.control.finish lease := by
    unfold settle
    rw [h]
    simp [RunLease.inPhase]
  have hfinished : (r.control.finish lease).1 = true := by
    rw [RunControl.finish_fst, decide_eq_true_iff]
    exact h.activeLease
  simp only [monitor, htask, hsettle, hfinished, if_true]
  refine ⟨?_, by simp, by simp [sendCompletion, hsender]⟩
  rw [sendCompletion_control, RunControl.snapshot_finish, if_pos h.activeLease]

end Race

/-! ## Leases are handed out and completed once -/

/-- Every lease has its epoch, and completions follow the epochs. -/
structure EpochHistory (r : SessionRuntime) : Prop where
  bounded : r.control.epoch < wordSize
  active : ∀ lease, r.control.activeLease = some lease →
    lease.epoch = r.control.epoch
  sent : r.completions.Pairwise fun a b => a.epoch < b.epoch
  sentBefore : ∀ lease ∈ r.completions, lease.epoch ≤ r.control.epoch
  unsent : ∀ lease, r.control.activeLease = some lease →
    ∀ done ∈ r.completions, done.epoch < lease.epoch

theorem epochHistory_new : EpochHistory new := by
  refine ⟨by decide, ?_, .nil, ?_, ?_⟩ <;>
    simp [new, RunControl.new, RunControl.activeLease]

/-- An epoch handed out without wrapping is the next one. -/
theorem next_epoch
    {epoch : Nat}
    (hbounded : epoch < wordSize)
    (hkept : epoch ≤ max (wrappingSucc epoch) 1) :
    max (wrappingSucc epoch) 1 = epoch + 1 ∧ epoch + 1 < wordSize := by
  unfold wrappingSucc wordSize at *
  omega

theorem EpochHistory.step
    {r : SessionRuntime}
    (h : r.EpochHistory)
    (op : SessionOp)
    (hkept : r.EpochKept op) :
    (r.step op).EpochHistory := by
  unfold EpochKept at hkept
  rcases r.step_lease op with ⟨hepoch, hlease⟩ | ⟨hepoch, lease, hlease, hnew⟩
  · rcases r.step_completions op with hsent | ⟨done, hdone, hnone, hsent⟩
    · refine ⟨by rw [hepoch]; exact h.bounded, ?_, by rw [hsent]; exact h.sent,
        by rw [hsent, hepoch]; exact h.sentBefore, ?_⟩
      · intro lease hactive
        rw [hepoch]
        exact h.active lease (hlease lease hactive)
      · intro lease hactive
        rw [hsent]
        exact h.unsent lease (hlease lease hactive)
    · have hidle : (r.step op).control.activeLease = none :=
        (RunControl.activeLease_eq_none_iff _).2 hnone
      refine ⟨by rw [hepoch]; exact h.bounded, by simp [hidle], ?_, ?_,
        by simp [hidle]⟩
      · rw [hsent, List.pairwise_append]
        refine ⟨h.sent, List.pairwise_singleton _ _, ?_⟩
        intro before hbefore after hafter
        rw [List.mem_singleton.1 hafter]
        exact h.unsent done hdone before hbefore
      · rw [hsent, hepoch]
        intro lease hmem
        rcases List.mem_append.1 hmem with hmem | hmem
        · exact h.sentBefore lease hmem
        · rw [List.mem_singleton.1 hmem]
          exact Nat.le_of_eq (h.active done hdone)
  · rw [hepoch] at hkept
    obtain ⟨hnext, hlt⟩ := next_epoch h.bounded hkept
    rw [hnext] at hepoch
    have hsent : (r.step op).completions = r.completions := by
      rcases r.step_completions op with hsent | ⟨_, _, hnone, _⟩
      · exact hsent
      · rw [(RunControl.activeLease_eq_none_iff _).2 hnone] at hlease
        simp at hlease
    have hsame : ∀ l, (r.step op).control.activeLease = some l → l = lease :=
      fun l hl => Option.some.inj (hl.symm.trans hlease)
    refine ⟨by omega, ?_, by rw [hsent]; exact h.sent, ?_, ?_⟩
    · intro l hl
      rw [hsame l hl, hnew]
    · intro done hdone
      rw [hsent] at hdone
      have := h.sentBefore done hdone
      omega
    · intro l hl done hdone
      rw [hsent] at hdone
      have := h.sentBefore done hdone
      rw [hsame l hl, hnew]
      omega

/-- A lease that was sent was sent once. -/
theorem EpochHistory.count_eq_one
    {r : SessionRuntime}
    (h : r.EpochHistory)
    {lease : RunLease}
    (hmem : lease ∈ r.completions) :
    r.completions.count lease = 1 := by
  have hnodup : r.completions.Nodup :=
    h.sent.imp fun hlt heq => by
      rw [heq] at hlt
      exact Nat.lt_irrefl _ hlt
  rw [hnodup.count, if_pos hmem]

/-- Nothing that was sent is taken back. -/
theorem mem_completions_step
    {r : SessionRuntime}
    {lease : RunLease}
    (op : SessionOp)
    (hmem : lease ∈ r.completions) :
    lease ∈ (r.step op).completions := by
  rcases r.step_completions op with hsent | ⟨_, _, _, hsent⟩
  · rw [hsent]
    exact hmem
  · rw [hsent]
    exact List.mem_append_left _ hmem

/-- The lease is finalizing, or its run is over for good. -/
def Unwinding (r : SessionRuntime) (lease : RunLease) : Prop :=
  r.FinalizingUnder lease ∨
  (r.control.activeLease ≠ some lease ∧ lease.epoch ≤ r.control.epoch)

theorem Unwinding.step
    {r : SessionRuntime}
    {lease : RunLease}
    (h : r.Unwinding lease)
    (hquiet : r.Quiet lease)
    (hhistory : r.EpochHistory)
    (op : SessionOp)
    (hunraced : Unraced lease r op)
    (hkept : r.EpochKept op) :
    (r.step op).Unwinding lease := by
  rcases h with hfinalizing | ⟨hinactive, hold⟩
  · rcases hfinalizing.step hquiet op hunraced with hstill | hnone
    · exact Or.inl hstill
    · refine Or.inr ⟨?_, ?_⟩
      · rw [(RunControl.activeLease_eq_none_iff _).2 hnone]
        simp
      · rw [hhistory.active lease hfinalizing.activeLease]
        exact hkept
  · refine Or.inr ⟨?_, Nat.le_trans hold hkept⟩
    intro hactive
    rcases r.step_lease op with ⟨_, hlease⟩ | ⟨hepoch, l, hl, hnew⟩
    · exact hinactive (hlease lease hactive)
    · obtain rfl : l = lease := Option.some.inj (hl.symm.trans hactive)
      unfold EpochKept at hkept
      rw [hepoch] at hkept
      have := (next_epoch hhistory.bounded hkept).1
      omega

/-- The invariants an unraced run keeps for a lease. -/
structure Kept (r : SessionRuntime) (lease : RunLease) : Prop where
  quiet : r.Quiet lease
  history : r.EpochHistory
  sender : r.hasCompletionSender = true

theorem kept_new (lease : RunLease) : new.Kept lease :=
  ⟨by simp [Quiet, FinalizingUnder, new, RunControl.new, RunControl.snapshot],
    epochHistory_new, rfl⟩

theorem Kept.step
    {r : SessionRuntime}
    {lease : RunLease}
    (h : r.Kept lease)
    (op : SessionOp)
    (hop : Unraced lease r op ∧ r.EpochKept op) :
    (r.step op).Kept lease :=
  ⟨h.quiet.step op hop.1, h.history.step op hop.2,
    by rw [step_hasCompletionSender]; exact h.sender⟩

/-- A finalizing lease unwinds along every unraced run. -/
theorem unwinding_run
    {r : SessionRuntime}
    {lease : RunLease}
    (hkept : r.Kept lease)
    (hunwinding : r.Unwinding lease)
    {ops : List SessionOp}
    (hops : Machine.Guarded step
      (fun r op => Unraced lease r op ∧ r.EpochKept op) r ops) :
    (Machine.run step r ops).Kept lease ∧
    (Machine.run step r ops).Unwinding lease :=
  Machine.Guarded.invariant
    (I := fun r => r.Kept lease ∧ r.Unwinding lease)
    (fun _ op h hop =>
      ⟨h.1.step op hop,
        h.2.step h.1.quiet h.1.history op hop.1 hop.2⟩)
    ⟨hkept, hunwinding⟩ hops

/--
In an unraced run a lease that reached finalizing is never marked stuck, and
once its task has ended normally the monitor has released the session and sent
one completion for it.
-/
theorem finalizing_run_released_once
    (ops ops' : List SessionOp)
    (lease : RunLease)
    (hreached : (Machine.run step new ops).FinalizingUnder lease)
    (hunraced : Machine.Guarded step (Unraced lease) new (ops ++ ops'))
    (hepochs : Machine.Guarded step EpochKept new (ops ++ ops')) :
    (Machine.run step new (ops ++ ops')).control.snapshot ≠
      some (lease.inPhase .cancellationStuck) ∧
    ∀ before after, ops' = before ++ .monitor (.ok ()) :: after →
      (Machine.run step new (ops ++ before)).task = some lease →
      (Machine.run step new (ops ++ before)).control.activeLease =
        some lease →
      let r := (Machine.run step new (ops ++ before)).step (.monitor (.ok ()))
      r.control.snapshot = none ∧
      r.task = none ∧
      (Machine.run step new (ops ++ ops')).completions.count lease = 1 := by
  have hboth := hunraced.and hepochs
  obtain ⟨hops, hops'⟩ := (Machine.guarded_append _ _ _).1 hboth
  have hkept : (Machine.run step new ops).Kept lease :=
    Machine.Guarded.invariant (I := fun r => r.Kept lease)
      (fun _ op h hop => h.step op hop) (kept_new lease) hops
  obtain ⟨hkept', hunwinding'⟩ :=
    unwinding_run hkept (Or.inl hreached) hops'
  rw [← Machine.run_append] at hkept' hunwinding'
  refine ⟨?_, ?_⟩
  · intro hstuck
    rcases hunwinding' with hfinalizing | ⟨hinactive, _⟩
    · unfold FinalizingUnder at hfinalizing
      rw [hstuck] at hfinalizing
      simp at hfinalizing
    · exact hinactive ((RunControl.activeLease_eq_some_iff _ _).2 ⟨_, hstuck⟩)
  · rintro before after rfl htask hactive
    obtain ⟨hbefore, hafter⟩ := (Machine.guarded_append _ _ _).1 hops'
    obtain ⟨hkeptB, hunwindingB⟩ :=
      unwinding_run hkept (Or.inl hreached) hbefore
    rw [← Machine.run_append] at hkeptB hunwindingB
    have hfinalizing : (Machine.run step new
        (ops ++ before)).FinalizingUnder lease :=
      hunwindingB.resolve_right fun h => h.1 hactive
    obtain ⟨hnone, hslot, hsent⟩ :=
      hfinalizing.monitor_ok htask hkeptB.sender
    refine ⟨hnone, hslot, ?_⟩
    -- the completion stays on the channel for the rest of the run
    refine hkept'.history.count_eq_one ?_
    rw [← List.append_assoc, Machine.run_append, Machine.run_cons]
    refine Machine.run_invariant
      (I := fun r : SessionRuntime => lease ∈ r.completions)
      (fun _ op hmem => mem_completions_step op hmem) ?_ after
    show lease ∈ (SessionRuntime.monitor _ _).completions
    rw [hsent]
    exact List.mem_append_right _ (List.mem_singleton_self _)

/-- A late watchdog finds the run finalizing, and the monitor releases it. -/
theorem finalizing_run_released_once_late_watchdog :
    let lease : RunLease := ⟨"a", 1, none⟩
    let ops : List SessionOp :=
      [.begin (some "a") none "", .spawn lease, .requestAbort none true,
        .beginFinalizing lease]
    let ops' : List SessionOp :=
      [.requestAbort none true, .watchdogWake 0, .watchdogMark 0,
        .monitor (.ok ()), .begin (some "b") none ""]
    (Machine.run step new (ops ++ ops')).control.snapshot ≠
      some (lease.inPhase .cancellationStuck) ∧
    (Machine.run step new (ops ++ ops')).completions.count lease = 1 := by
  intro lease ops ops'
  obtain ⟨hnever, hmonitor⟩ := finalizing_run_released_once ops ops' lease
    (by decide) (by decide) (by decide)
  exact ⟨hnever,
    (hmonitor (ops'.take 3) (ops'.drop 4) (by decide) (by decide)
      (by decide)).2.2⟩

/--
The watchdog sees its lease cancelling, the run starts finalizing, the watchdog
marks it stuck; the task then ends normally and the session stays locked.
-/
theorem watchdog_marks_finalizing_run :
    let lease : RunLease := ⟨"a", 1, none⟩
    let ops : List SessionOp :=
      [.begin (some "a") none "", .spawn lease, .requestAbort none true,
        .watchdogWake 0, .beginFinalizing lease]
    let r := Machine.run step new (ops ++ [.watchdogMark 0])
    let r' := r.step (.monitor (.ok ()))
    (Machine.run step new ops).FinalizingUnder lease ∧
    r.control.snapshot = some (lease.inPhase .cancellationStuck) ∧
    r.task = some lease ∧
    r'.control.snapshot = some (lease.inPhase .cancellationStuck) ∧
    r'.completions = [] := by
  decide

end SessionRuntime
end Runtime
end FutureOs
