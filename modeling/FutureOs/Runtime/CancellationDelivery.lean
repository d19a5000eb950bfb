import FutureOs.Runtime.RunControl

/-!
# Cancellations race the installation of their targets

`cancel_expected` records a cancellation under the lock and delivers it after,
to the targets it saw there; `install_cancellation` may bring those targets
before, between or after.  Here the two halves are separate steps, so that any
other call can fall between them.

* `Reached`: what holds of the installed flag while cancellations are recorded,
  in flight and answered;
* `Reached.step`: every step that leaves the lease active keeps it, where
  targets are not installed into a run that is already unwinding;
* `cancellation_not_lost`: no cancellation of a lease is lost, and a user's stop
  stays the cause until the lease is released.
-/

namespace FutureOs
namespace Runtime

/-- A recorded cancellation that is not delivered yet. -/
structure Delivery where
  snapshot : RunSnapshot
  targets : Targets
deriving DecidableEq

/-- A control state and the cancellations between their two halves. -/
structure CancellationWorld where
  control : RunControl
  signals : Signals
  inFlight : List Delivery
deriving DecidableEq

/-- A whole call, or one half of a cancellation. -/
inductive CancellationOp
  | call (op : ControlOp)
  | lock (expectedRunId : Option String) (systemInterruption : Bool)
  | deliver (i : Nat)
deriving DecidableEq

/-- Installations and cancellations, and nothing else. -/
def CancellationOp.InstallsOrCancels : CancellationOp → Prop
  | .call (.installCancellation ..) => True
  | .call (.cancel ..) => True
  | .call _ => False
  | .lock .. => True
  | .deliver _ => True

namespace CancellationWorld

def step (w : CancellationWorld) : CancellationOp → CancellationWorld
  | .call op =>
      let w' := ControlWorld.step ⟨w.control, w.signals⟩ op
      { w with control := w'.control, signals := w'.signals }
  | .lock expectedRunId systemInterruption =>
      match w.control.cancelLocked expectedRunId systemInterruption with
      | (.ok (some (snapshot, targets)), control) =>
          { w with control, inFlight := w.inFlight ++ [⟨snapshot, targets⟩] }
      | (_, control) => { w with control }
  | .deliver i =>
      match w.inFlight[i]? with
      | none => w
      | some d =>
          { w with
            signals := w.signals.deliver d.targets
            inFlight := w.inFlight.eraseIdx i }

/-- The snapshot a cancellation answers with, when it returns. -/
def returned (w : CancellationWorld) : CancellationOp → List RunSnapshot
  | .call (.cancel expectedRunId systemInterruption) =>
      match (w.control.cancelExpected w.signals expectedRunId
          systemInterruption).1 with
      | .ok (some snapshot) => [snapshot]
      | _ => []
  | .deliver i => (w.inFlight[i]?.map Delivery.snapshot).toList
  | _ => []

/-- The step records a user's abort. -/
def AcceptsUserAbort (w : CancellationWorld) : CancellationOp → Prop
  | .call (.cancel expectedRunId false) =>
      ∃ answer, (w.control.cancelLocked expectedRunId false).1 =
        .ok (some answer)
  | .lock expectedRunId false =>
      ∃ answer, (w.control.cancelLocked expectedRunId false).1 =
        .ok (some answer)
  | _ => False

/-- The flag of the last installation into the active run. -/
def installedFlag (w : CancellationWorld) : Option Nat :=
  w.control.active.bind fun active => active.targets.interruptFlag

/-- The step leaves the lease active. -/
def Held (lease : RunLease) (w : CancellationWorld) (op : CancellationOp) :
    Prop :=
  (w.step op).control.activeLease = some lease

instance (lease : RunLease) (w : CancellationWorld) (op : CancellationOp) :
    Decidable (w.Held lease op) :=
  inferInstanceAs (Decidable (_ = _))

/-- No targets are installed into a run that is already unwinding. -/
def TimelyInstall (w : CancellationWorld) : CancellationOp → Prop
  | .call (.installCancellation ..) => ∀ active, w.control.active = some active →
      active.phase ≠ .finalizing ∧ active.phase ≠ .persistenceDegraded
  | _ => True

end CancellationWorld

/-! ## What a call does to the active run -/

/-- The same run, in the same phase or in one no run starts from. -/
structure SameRun (active active' : ActiveRun) : Prop where
  lease : active'.lease = active.lease
  targets : active'.targets = active.targets
  cancellation : active'.cancellation = active.cancellation
  phase : active'.phase = active.phase ∨
    (active'.phase ≠ .starting ∧ active'.phase ≠ .running)

/-- The run after a cancellation is recorded in it. -/
structure Cancelled (systemInterruption : Bool) (active active' : ActiveRun) :
    Prop where
  lease : active'.lease = active.lease
  targets : active'.targets = active.targets
  phase : active'.phase = .cancelling
  cancellation : active'.cancellation =
    some (if systemInterruption ∧ active.cancellation ≠ some .user then
      .systemShutdown else .user)

theorem SameRun.refl (active : ActiveRun) : SameRun active active :=
  ⟨rfl, rfl, rfl, Or.inl rfl⟩

namespace RunControl

variable {c : RunControl}
variable {active : ActiveRun}

theorem activeLease_of_active
    (hactive : c.active = some active) :
    c.activeLease = some active.lease := by
  rw [activeLease, hactive, Option.map_some]

theorem cancellationKind_of_active
    (hactive : c.active = some active) :
    c.cancellationKind active.lease = active.cancellation := by
  simp [cancellationKind, hactive, Option.filter]

theorem sameRun_setPhase
    (c : RunControl)
    (active : ActiveRun)
    (phase : RunPhase)
    (hphase : phase ≠ .starting ∧ phase ≠ .running) :
    ∃ active', (c.setPhase active phase).active = some active' ∧
      SameRun active active' :=
  ⟨_, rfl, rfl, rfl, rfl, Or.inr hphase⟩

theorem sameRun_beginFinalizing
    (hactive : c.active = some active)
    (lease : RunLease) :
    ∃ active', (c.beginFinalizing lease).2.active = some active' ∧
      SameRun active active' := by
  simp only [beginFinalizing, hactive]
  split
  · exact ⟨active, hactive, .refl active⟩
  · exact sameRun_setPhase c active _ ⟨by simp, by simp⟩

theorem sameRun_markStuck
    (hactive : c.active = some active)
    (lease : RunLease) :
    ∃ active', (c.markStuck lease).2.active = some active' ∧
      SameRun active active' := by
  simp only [markStuck, hactive]
  split
  · exact ⟨active, hactive, .refl active⟩
  · exact sameRun_setPhase c active _ ⟨by simp, by simp⟩

theorem sameRun_markPersistenceDegraded
    (hactive : c.active = some active)
    (lease : RunLease) :
    ∃ active', (c.markPersistenceDegraded lease).2.active = some active' ∧
      SameRun active active' := by
  simp only [markPersistenceDegraded, hactive]
  split
  · exact ⟨active, hactive, .refl active⟩
  · split
    · exact ⟨active, hactive, .refl active⟩
    · exact sameRun_setPhase c active _ ⟨by simp, by simp⟩

/-- A `finish` that leaves a lease active was not about the active run. -/
theorem sameRun_finish
    (hactive : c.active = some active)
    (lease : RunLease)
    (hheld : (c.finish lease).2.activeLease ≠ none) :
    ∃ active', (c.finish lease).2.active = some active' ∧
      SameRun active active' := by
  simp only [finish, hactive] at hheld ⊢
  split
  · exact ⟨active, hactive, .refl active⟩
  · rename_i hlease
    rw [if_neg hlease] at hheld
    exact absurd rfl hheld

theorem sameRun_recoverPersistenceDegraded
    (hactive : c.active = some active)
    (lease : RunLease)
    (hheld : (c.recoverPersistenceDegraded lease).2.activeLease ≠ none) :
    ∃ active', (c.recoverPersistenceDegraded lease).2.active = some active' ∧
      SameRun active active' := by
  simp only [recoverPersistenceDegraded, hactive] at hheld ⊢
  split
  · exact ⟨active, hactive, .refl active⟩
  · rename_i hrecover
    rw [if_neg hrecover] at hheld
    obtain ⟨active', hafter, hsame⟩ :=
      sameRun_finish (c := c.setPhase active .finalizing) rfl lease hheld
    exact ⟨active', hafter, hsame.lease, hsame.targets, hsame.cancellation,
      Or.inr (by
        rcases hsame.phase with heq | hne
        · rw [heq]
          exact ⟨by simp, by simp⟩
        · exact hne)⟩

/-- The next epoch is another one. -/
theorem next_epoch_ne
    {epoch : Nat}
    (hword : epoch < wordSize) :
    max (wrappingSucc epoch) 1 ≠ epoch := by
  have hlt : epoch < 2 ^ 64 := hword
  unfold wrappingSucc wordSize
  omega

theorem next_epoch_lt (epoch : Nat) :
    max (wrappingSucc epoch) 1 < wordSize := by
  unfold wrappingSucc wordSize
  omega

/-- A `begin` that leaves the lease active has refused. -/
theorem begin_of_held
    {lease : RunLease}
    (hcurrent : lease.epoch = c.epoch)
    (hword : c.epoch < wordSize)
    (requestedRunId clientRequestId : Option String)
    (runSequence : Option Nat)
    (generatedId : String)
    (hheld : (c.beginWithSequence requestedRunId clientRequestId runSequence
      generatedId).2.activeLease = some lease) :
    (c.beginWithSequence requestedRunId clientRequestId runSequence
      generatedId).2 = c := by
  rcases c.beginWithSequence_cases requestedRunId clientRequestId runSequence
      generatedId with ⟨message, heq⟩ | ⟨free, hfree, heq⟩
  · rw [heq]
  · have hlease : (free.admitRun requestedRunId (clientRequestId.getD "")
        runSequence generatedId).1 = lease := by
      rw [heq] at hheld
      exact Option.some.inj hheld
    have hepoch := congrArg RunLease.epoch hlease
    simp only [admitRun, hfree.epoch_eq] at hepoch
    exact absurd (hepoch.trans hcurrent) (next_epoch_ne hword)

/-- A cancellation records itself in the active run, or changes nothing. -/
theorem cancelLocked_active
    (hactive : c.active = some active)
    (expectedRunId : Option String)
    (systemInterruption : Bool) :
    (∃ active',
      c.cancelLocked expectedRunId systemInterruption =
        (.ok (some (active'.snapshot, active.targets)),
          { c with active := some active' }) ∧
      Cancelled systemInterruption active active') ∨
    ((∀ answer, (c.cancelLocked expectedRunId systemInterruption).1 ≠
        .ok (some answer)) ∧
      (c.cancelLocked expectedRunId systemInterruption).2 = c) := by
  simp only [cancelLocked, hactive]
  split
  · exact Or.inr ⟨by simp, rfl⟩
  · split
    · exact Or.inl ⟨_, rfl, rfl, rfl, rfl, rfl⟩
    · exact Or.inr ⟨by simp, rfl⟩

end RunControl

/-! ## The installed flag -/

namespace CancellationWorld

/-- The active run holds this lease, under the latest epoch. -/
structure Holds (w : CancellationWorld) (lease : RunLease) : Prop where
  active : w.control.activeLease = some lease
  epoch : lease.epoch = w.control.epoch
  word : w.control.epoch < wordSize

/--
Once a cancellation is recorded the run is past running; the installed flag is
raised or a recorded cancellation is on its way to it, and it is raised when one
has returned.
-/
structure Reached
    (active : ActiveRun)
    (signals : Signals)
    (inFlight : List Delivery)
    (out : List RunSnapshot) : Prop where
  phase : inFlight ≠ [] ∨ out ≠ [] →
    active.phase ≠ .starting ∧ active.phase ≠ .running
  inFlight : ∀ flag, active.targets.interruptFlag = some flag →
    ∀ d ∈ inFlight,
      d.targets.interruptFlag = some flag ∨ flag ∈ signals.raised
  returned : ∀ flag, active.targets.interruptFlag = some flag → out ≠ [] →
    flag ∈ signals.raised

section Reached

variable {active active' : ActiveRun}
variable {signals : Signals}
variable {inFlight : List Delivery}
variable {out : List RunSnapshot}

theorem mem_deliver
    {targets : Targets}
    {flag : Nat} :
    flag ∈ (signals.deliver targets).raised ↔
      targets.interruptFlag = some flag ∨ flag ∈ signals.raised := by
  simp [Signals.deliver]

theorem Reached.sameRun
    (h : Reached active signals inFlight out)
    (hsame : SameRun active active') :
    Reached active' signals inFlight out where
  phase hsome := by
    rcases hsame.phase with heq | hne
    · rw [heq]
      exact h.phase hsome
    · exact hne
  inFlight flag hflag := h.inFlight flag (hsame.targets ▸ hflag)
  returned flag hflag := h.returned flag (hsame.targets ▸ hflag)

/-- A recorded cancellation captures the targets that are installed. -/
theorem Reached.lock
    (h : Reached active signals inFlight out)
    {systemInterruption : Bool}
    (hcancelled : Cancelled systemInterruption active active')
    (snapshot : RunSnapshot) :
    Reached active' signals (inFlight ++ [⟨snapshot, active.targets⟩]) out where
  phase _ := by
    rw [hcancelled.phase]
    exact ⟨by simp, by simp⟩
  inFlight flag hflag d hd := by
    rw [hcancelled.targets] at hflag
    rcases List.mem_append.1 hd with hold | hnew
    · exact h.inFlight flag hflag d hold
    · rw [List.mem_singleton] at hnew
      subst hnew
      exact Or.inl hflag
  returned flag hflag hout :=
    h.returned flag (hcancelled.targets ▸ hflag) hout

/-- A cancellation that nothing comes between. -/
theorem Reached.cancel
    {systemInterruption : Bool}
    (hcancelled : Cancelled systemInterruption active active')
    (snapshot : RunSnapshot) :
    Reached active' (signals.deliver active.targets) inFlight
      (out ++ [snapshot]) where
  phase _ := by
    rw [hcancelled.phase]
    exact ⟨by simp, by simp⟩
  inFlight flag hflag _ _ :=
    Or.inr (mem_deliver.2 (Or.inl (hcancelled.targets ▸ hflag)))
  returned flag hflag _ :=
    mem_deliver.2 (Or.inl (hcancelled.targets ▸ hflag))

/-- Delivering a recorded cancellation raises the flag it is on its way to. -/
theorem Reached.deliver
    (h : Reached active signals inFlight out)
    {i : Nat}
    {d : Delivery}
    (hd : inFlight[i]? = some d) :
    Reached active (signals.deliver d.targets) (inFlight.eraseIdx i)
      (out ++ [d.snapshot]) where
  phase _ := h.phase (Or.inl (List.ne_nil_of_mem (List.mem_of_getElem? hd)))
  inFlight flag hflag d' hd' := by
    rcases h.inFlight flag hflag d' (List.mem_of_mem_eraseIdx hd') with
      hway | hraised
    · exact Or.inl hway
    · exact Or.inr (mem_deliver.2 (Or.inr hraised))
  returned flag hflag _ :=
    mem_deliver.2 (h.inFlight flag hflag d (List.mem_of_getElem? hd))

/-- Targets that are installed under a recorded cancellation get it at once. -/
theorem Reached.install
    (h : Reached active signals inFlight out)
    (htimely : active.phase ≠ .finalizing ∧
      active.phase ≠ .persistenceDegraded)
    (interruptTx interruptFlag : Nat) :
    Reached
      { active with
        targets := ⟨some interruptTx, some interruptFlag⟩
        phase :=
          if active.phase = .starting then .running else active.phase }
      (if active.phase = .cancelling ∨ active.phase = .cancellationStuck then
          signals.deliver ⟨some interruptTx, some interruptFlag⟩
        else
          signals)
      inFlight out := by
  have hraised : inFlight ≠ [] ∨ out ≠ [] →
      active.phase = .cancelling ∨ active.phase = .cancellationStuck := by
    intro hsome
    obtain ⟨hstarting, hrunning⟩ := h.phase hsome
    obtain ⟨hfinalizing, hdegraded⟩ := htimely
    cases hphase : active.phase <;> simp_all
  have hflag : ∀ flag, some interruptFlag = some flag →
      inFlight ≠ [] ∨ out ≠ [] →
      flag ∈ (if active.phase = .cancelling ∨
          active.phase = .cancellationStuck then
        signals.deliver ⟨some interruptTx, some interruptFlag⟩
      else
        signals).raised := by
    intro flag heq hsome
    rw [if_pos (hraised hsome)]
    exact mem_deliver.2 (Or.inl heq)
  refine ⟨?_, ?_, ?_⟩
  · intro hsome
    obtain ⟨hstarting, hrunning⟩ := h.phase hsome
    dsimp only
    rw [if_neg hstarting]
    exact ⟨hstarting, hrunning⟩
  · intro flag heq d hd
    exact Or.inr (hflag flag heq (Or.inl (List.ne_nil_of_mem hd)))
  · intro flag heq hout
    exact hflag flag heq (Or.inr hout)

end Reached

/-! ## Steps -/

variable {w : CancellationWorld}
variable {lease : RunLease}

theorem Holds.exists_active
    (h : w.Holds lease) :
    ∃ active, w.control.active = some active ∧ active.lease = lease :=
  Option.map_eq_some_iff.1 h.active

/-- The first half of a cancellation records it, or does nothing. -/
theorem step_lock_cases
    (w : CancellationWorld)
    {active : ActiveRun}
    (hactive : w.control.active = some active)
    (expectedRunId : Option String)
    (systemInterruption : Bool) :
    (∃ active',
      w.step (.lock expectedRunId systemInterruption) =
        { w with
          control := { w.control with active := some active' }
          inFlight := w.inFlight ++ [⟨active'.snapshot, active.targets⟩] } ∧
      Cancelled systemInterruption active active') ∨
    (w.step (.lock expectedRunId systemInterruption) = w ∧
      ∀ answer, (w.control.cancelLocked expectedRunId systemInterruption).1 ≠
        .ok (some answer)) := by
  rcases RunControl.cancelLocked_active hactive expectedRunId
    systemInterruption with ⟨active', heq, hcancelled⟩ | ⟨hnone, hsame⟩
  · refine Or.inl ⟨active', ?_, hcancelled⟩
    simp only [step, heq]
  · refine Or.inr ⟨?_, hnone⟩
    simp only [step]
    split
    · rename_i snapshot targets control heq
      exact absurd (congrArg Prod.fst heq) (hnone _)
    · rename_i control _ heq
      obtain rfl : control = w.control :=
        (congrArg Prod.snd heq).symm.trans hsame
      rfl

/-- Both halves of a cancellation together. -/
theorem step_cancel_cases
    (w : CancellationWorld)
    {active : ActiveRun}
    (hactive : w.control.active = some active)
    (expectedRunId : Option String)
    (systemInterruption : Bool) :
    (∃ active',
      w.step (.call (.cancel expectedRunId systemInterruption)) =
        { w with
          control := { w.control with active := some active' }
          signals := w.signals.deliver active.targets } ∧
      w.returned (.call (.cancel expectedRunId systemInterruption)) =
        [active'.snapshot] ∧
      Cancelled systemInterruption active active') ∨
    (w.step (.call (.cancel expectedRunId systemInterruption)) = w ∧
      w.returned (.call (.cancel expectedRunId systemInterruption)) = [] ∧
      ∀ answer, (w.control.cancelLocked expectedRunId systemInterruption).1 ≠
        .ok (some answer)) := by
  rcases RunControl.cancelLocked_active hactive expectedRunId
    systemInterruption with ⟨active', heq, hcancelled⟩ | ⟨hnone, hsame⟩
  · refine Or.inl ⟨active', ?_, ?_, hcancelled⟩
    · simp only [step, ControlWorld.step, RunControl.cancelExpected, heq]
    · simp only [returned, RunControl.cancelExpected, heq]
  · have hcall : ∃ answer, w.control.cancelExpected w.signals expectedRunId
        systemInterruption = (answer, w.control, w.signals) ∧
        ∀ snapshot, answer ≠ .ok (some snapshot) := by
      simp only [RunControl.cancelExpected]
      generalize w.control.cancelLocked expectedRunId systemInterruption =
        result at hnone hsame
      obtain ⟨answer, control⟩ := result
      obtain rfl : control = w.control := hsame
      cases answer with
      | error message => exact ⟨_, rfl, by simp⟩
      | ok answer =>
          cases answer with
          | none => exact ⟨_, rfl, by simp⟩
          | some answer => exact absurd rfl (hnone answer)
    obtain ⟨answer, heq, hanswer⟩ := hcall
    refine Or.inr ⟨?_, ?_, hnone⟩
    · simp only [step, ControlWorld.step, heq]
    · simp only [returned, heq]

/-- A call that is neither an installation nor a cancellation raises nothing. -/
theorem step_call_other
    (w : CancellationWorld)
    (op : ControlOp)
    (hinstall : ∀ l tx flag, op ≠ .installCancellation l tx flag)
    (hcancel : ∀ expected system, op ≠ .cancel expected system) :
    (w.step (.call op)).signals = w.signals ∧
    (w.step (.call op)).inFlight = w.inFlight ∧
    w.returned (.call op) = [] := by
  cases op with
  | installCancellation l tx flag => exact absurd rfl (hinstall l tx flag)
  | cancel expected system => exact absurd rfl (hcancel expected system)
  | _ => exact ⟨rfl, rfl, rfl⟩

/-- Such a call leaves the active run what it is, or releases it. -/
theorem sameRun_call
    (h : w.Holds lease)
    {active : ActiveRun}
    (hactive : w.control.active = some active)
    (op : ControlOp)
    (hinstall : ∀ l tx flag, op ≠ .installCancellation l tx flag)
    (hcancel : ∀ expected system, op ≠ .cancel expected system)
    (hheld : w.Held lease (.call op)) :
    ∃ active', (w.step (.call op)).control.active = some active' ∧
      SameRun active active' := by
  have hne : (w.step (.call op)).control.activeLease ≠ none := by
    rw [hheld]
    simp
  cases op with
  | installCancellation l tx flag => exact absurd rfl (hinstall l tx flag)
  | cancel expected system => exact absurd rfl (hcancel expected system)
  | begin requestedRunId clientRequestId runSequence generatedId =>
      refine ⟨active, ?_, .refl active⟩
      have hsame := RunControl.begin_of_held h.epoch h.word requestedRunId
        clientRequestId runSequence generatedId hheld
      simp only [step, ControlWorld.step, hsame]
      exact hactive
  | beginFinalizing l => exact RunControl.sameRun_beginFinalizing hactive l
  | markStuck l => exact RunControl.sameRun_markStuck hactive l
  | markPersistenceDegraded l =>
      exact RunControl.sameRun_markPersistenceDegraded hactive l
  | finish l => exact RunControl.sameRun_finish hactive l hne
  | recoverPersistenceDegraded l =>
      exact RunControl.sameRun_recoverPersistenceDegraded hactive l hne

theorem Holds.step
    (h : w.Holds lease)
    (op : CancellationOp)
    (hheld : w.Held lease op) :
    (w.step op).Holds lease := by
  cases op with
  | call op =>
      rcases ControlWorld.step_lease ⟨w.control, w.signals⟩ op with
        ⟨hepoch, _⟩ | ⟨hepoch, lease', hlease', hnext⟩
      · refine ⟨hheld, h.epoch.trans hepoch.symm, ?_⟩
        exact Nat.lt_of_le_of_lt (Nat.le_of_eq hepoch) h.word
      · obtain rfl : lease' = lease :=
          Option.some.inj (hlease'.symm.trans hheld)
        refine ⟨hheld, hnext, ?_⟩
        exact Nat.lt_of_le_of_lt (Nat.le_of_eq hepoch)
          (RunControl.next_epoch_lt _)
  | lock expectedRunId systemInterruption =>
      obtain ⟨active, hactive, _⟩ := h.exists_active
      rcases w.step_lock_cases hactive expectedRunId systemInterruption with
        ⟨active', heq, _⟩ | ⟨heq, _⟩
      · refine ⟨hheld, ?_, ?_⟩
        · rw [heq]
          exact h.epoch
        · rw [heq]
          exact h.word
      · rw [heq]
        exact h
  | deliver i =>
      simp only [CancellationWorld.step]
      split
      · exact h
      · exact ⟨h.active, h.epoch, h.word⟩

/-- A call installs targets, cancels, or does neither. -/
theorem call_cases (op : ControlOp) :
    (∃ l tx flag, op = .installCancellation l tx flag) ∨
    (∃ expected system, op = .cancel expected system) ∨
    ((∀ l tx flag, op ≠ .installCancellation l tx flag) ∧
      ∀ expected system, op ≠ .cancel expected system) := by
  cases op <;> simp

/-- What an installation does to the active run, whoever asks for it. -/
theorem step_install_cases
    (w : CancellationWorld)
    {active : ActiveRun}
    (hactive : w.control.active = some active)
    (l : RunLease)
    (interruptTx interruptFlag : Nat) :
    ((w.step (.call (.installCancellation l interruptTx interruptFlag))) =
      { w with
        control := { w.control with active := some { active with
          targets := ⟨some interruptTx, some interruptFlag⟩
          phase :=
            if active.phase = .starting then .running else active.phase } }
        signals :=
          if active.phase = .cancelling ∨ active.phase = .cancellationStuck then
            w.signals.deliver ⟨some interruptTx, some interruptFlag⟩
          else
            w.signals }) ∨
    ∃ drops, w.step (.call (.installCancellation l interruptTx
        interruptFlag)) =
      { w with control := { w.control with staleEpochDrops := drops } } := by
  simp only [step, ControlWorld.step, RunControl.installCancellation]
  split
  · rename_i hnone
    simp [hactive] at hnone
  · rename_i active' hactive'
    obtain rfl : active' = active :=
      Option.some.inj (hactive'.symm.trans hactive)
    split
    · exact Or.inr ⟨_, rfl⟩
    · exact Or.inl rfl

/-- The cancellations of the lease so far reach what is installed. -/
structure Followed
    (lease : RunLease)
    (w : CancellationWorld)
    (out : List RunSnapshot) : Prop where
  holds : w.Holds lease
  reached : ∀ active, w.control.active = some active →
    Reached active w.signals w.inFlight out

theorem Followed.step
    {out : List RunSnapshot}
    (h : Followed lease w out)
    (op : CancellationOp)
    (hheld : w.Held lease op)
    (htimely : w.TimelyInstall op) :
    Followed lease (w.step op) (out ++ w.returned op) := by
  refine ⟨h.holds.step op hheld, ?_⟩
  obtain ⟨active, hactive, hlease⟩ := h.holds.exists_active
  have hreached := h.reached active hactive
  cases op with
  | call op =>
      rcases call_cases op with ⟨l, tx, flag, rfl⟩ |
        ⟨expected, system, rfl⟩ | ⟨hinstall, hcancel⟩
      · rw [show w.returned (.call (.installCancellation l tx flag)) = []
          from rfl, List.append_nil]
        rcases w.step_install_cases hactive l tx flag with heq | ⟨_, heq⟩
        · rw [heq]
          rintro _ ⟨⟩
          exact hreached.install (htimely active hactive) tx flag
        · rw [heq]
          exact h.reached
      · rcases w.step_cancel_cases hactive expected system with
          ⟨active', heq, hout, hcancelled⟩ | ⟨heq, hout, _⟩
        · rw [heq, hout]
          rintro _ ⟨⟩
          exact .cancel hcancelled _
        · rw [heq, hout, List.append_nil]
          exact h.reached
      · obtain ⟨hsignals, hinFlight, hout⟩ :=
          w.step_call_other op hinstall hcancel
        obtain ⟨active', hafter, hsame⟩ :=
          sameRun_call h.holds hactive op hinstall hcancel hheld
        rw [hafter, hsignals, hinFlight, hout, List.append_nil]
        rintro _ ⟨⟩
        exact hreached.sameRun hsame
  | lock expectedRunId systemInterruption =>
      rw [show w.returned (.lock expectedRunId systemInterruption) = []
        from rfl, List.append_nil]
      rcases w.step_lock_cases hactive expectedRunId systemInterruption with
        ⟨active', heq, hcancelled⟩ | ⟨heq, _⟩
      · rw [heq]
        rintro _ ⟨⟩
        exact hreached.lock hcancelled _
      · rw [heq]
        exact h.reached
  | deliver i =>
      cases hd : w.inFlight[i]? with
      | none =>
          simp only [CancellationWorld.step, returned, hd, Option.map_none,
            Option.toList_none, List.append_nil]
          exact h.reached
      | some d =>
          simp only [CancellationWorld.step, returned, hd, Option.map_some,
            Option.toList_some]
          intro active' hactive'
          exact (h.reached active' hactive').deliver hd

/-! ## The cause of a cancellation -/

/-- A recorded cause survives every step that leaves the lease active. -/
theorem user_step
    (h : w.Holds lease)
    (huser : w.control.cancellationKind lease = some .user)
    (op : CancellationOp)
    (hheld : w.Held lease op) :
    (w.step op).control.cancellationKind lease = some .user := by
  obtain ⟨active, hactive, rfl⟩ := h.exists_active
  rw [RunControl.cancellationKind_of_active hactive] at huser
  have hkind : ∀ active', (w.step op).control.active = some active' →
      active'.lease = active.lease → active'.cancellation = some .user →
      (w.step op).control.cancellationKind active.lease = some .user := by
    intro active' hafter hlease hcause
    rw [← hlease, RunControl.cancellationKind_of_active hafter, hcause]
  have hcancelled : ∀ {system active'}, Cancelled system active active' →
      active'.cancellation = some .user := by
    intro system active' hc
    rw [hc.cancellation, huser]
    simp
  cases op with
  | call op =>
      rcases call_cases op with ⟨l, tx, flag, rfl⟩ |
        ⟨expected, system, rfl⟩ | ⟨hinstall, hcancel⟩
      · rcases w.step_install_cases hactive l tx flag with heq | ⟨_, heq⟩
        · refine hkind _ (congrArg (fun w => w.control.active) heq) ?_ ?_
          · rfl
          · exact huser
        · exact hkind active (by rw [heq]; exact hactive) rfl huser
      · rcases w.step_cancel_cases hactive expected system with
          ⟨active', heq, _, hc⟩ | ⟨heq, _⟩
        · exact hkind active' (by rw [heq]) hc.lease (hcancelled hc)
        · exact hkind active (by rw [heq]; exact hactive) rfl huser
      · obtain ⟨active', hafter, hsame⟩ :=
          sameRun_call h hactive op hinstall hcancel hheld
        exact hkind active' hafter hsame.lease
          (hsame.cancellation.trans huser)
  | lock expectedRunId systemInterruption =>
      rcases w.step_lock_cases hactive expectedRunId systemInterruption with
        ⟨active', heq, hc⟩ | ⟨heq, _⟩
      · exact hkind active' (by rw [heq]) hc.lease (hcancelled hc)
      · exact hkind active (by rw [heq]; exact hactive) rfl huser
  | deliver i =>
      refine hkind active ?_ rfl huser
      simp only [CancellationWorld.step]
      split
      · exact hactive
      · exact hactive

/-- Accepting a user's abort records it as the cause, whatever it was. -/
theorem user_accepted
    (h : w.Holds lease)
    (op : CancellationOp)
    (haccepts : w.AcceptsUserAbort op) :
    (w.step op).control.cancellationKind lease = some .user := by
  obtain ⟨active, hactive, rfl⟩ := h.exists_active
  have hkind : ∀ active', (w.step op).control.active = some active' →
      Cancelled false active active' →
      (w.step op).control.cancellationKind active.lease = some .user := by
    intro active' hafter hc
    rw [← hc.lease, RunControl.cancellationKind_of_active hafter,
      hc.cancellation]
    simp
  cases op with
  | call op =>
      cases op with
      | cancel expected system =>
          cases system with
          | false =>
              obtain ⟨answer, hanswer⟩ := haccepts
              rcases w.step_cancel_cases hactive expected false with
                ⟨active', heq, _, hc⟩ | ⟨_, _, hnone⟩
              · exact hkind active' (by rw [heq]) hc
              · exact absurd hanswer (hnone answer)
          | true => exact haccepts.elim
      | _ => exact haccepts.elim
  | lock expected system =>
      cases system with
      | false =>
          obtain ⟨answer, hanswer⟩ := haccepts
          rcases w.step_lock_cases hactive expected false with
            ⟨active', heq, hc⟩ | ⟨_, hnone⟩
          · exact hkind active' (by rw [heq]) hc
          · exact absurd hanswer (hnone answer)
      | true => exact haccepts.elim
  | deliver i => exact haccepts.elim

/-! ## Runs -/

/-- The lease is active and a cancellation can still reach its run. -/
def Abortable (w : CancellationWorld) (lease : RunLease) : Prop :=
  ∃ active, w.control.active = some active ∧ active.lease = lease ∧
    active.phase.abortable = true

theorem Abortable.activeLease
    (h : w.Abortable lease) :
    w.control.activeLease = some lease := by
  obtain ⟨active, hactive, rfl, _⟩ := h
  exact RunControl.activeLease_of_active hactive

/-- Installations and cancellations keep a run abortable. -/
theorem abortable_step
    (h : w.Abortable lease)
    (op : CancellationOp)
    (hop : op.InstallsOrCancels) :
    (w.step op).Abortable lease := by
  have hwhole := h
  obtain ⟨active, hactive, hlease, hphase⟩ := h
  have hcancelled : ∀ {system active'}, Cancelled system active active' →
      active'.lease = lease ∧ active'.phase.abortable = true := by
    intro system active' hc
    refine ⟨hc.lease.trans hlease, ?_⟩
    rw [hc.phase]
    rfl
  cases op with
  | call op =>
      rcases call_cases op with ⟨l, tx, flag, rfl⟩ |
        ⟨expected, system, rfl⟩ | ⟨hinstall, hcancel⟩
      · rcases w.step_install_cases hactive l tx flag with heq | ⟨_, heq⟩
        · rw [heq]
          refine ⟨_, rfl, hlease, ?_⟩
          dsimp only
          split
          · rfl
          · exact hphase
        · rw [heq]
          exact hwhole
      · rcases w.step_cancel_cases hactive expected system with
          ⟨active', heq, _, hc⟩ | ⟨heq, _⟩
        · rw [heq]
          exact ⟨active', rfl, hcancelled hc⟩
        · rw [heq]
          exact hwhole
      · cases op with
        | installCancellation l tx flag => exact absurd rfl (hinstall l tx flag)
        | cancel expected system => exact absurd rfl (hcancel expected system)
        | _ => exact hop.elim
  | lock expectedRunId systemInterruption =>
      rcases w.step_lock_cases hactive expectedRunId systemInterruption with
        ⟨active', heq, hc⟩ | ⟨heq, _⟩
      · rw [heq]
        exact ⟨active', rfl, hcancelled hc⟩
      · rw [heq]
        exact hwhole
  | deliver i =>
      simp only [step]
      split
      · exact hwhole
      · exact hwhole

/-- An abortable run is neither released nor unwinding under those steps. -/
theorem timely_of_abortable
    (h : w.Abortable lease)
    (op : CancellationOp)
    (hop : op.InstallsOrCancels) :
    w.Held lease op ∧ w.TimelyInstall op := by
  refine ⟨(abortable_step h op hop).activeLease, ?_⟩
  obtain ⟨active, hactive, _, hphase⟩ := h
  unfold TimelyInstall
  split
  · intro active' hactive'
    obtain rfl : active' = active :=
      Option.some.inj (hactive'.symm.trans hactive)
    constructor <;> intro heq <;> simp [heq, RunPhase.abortable] at hphase
  · trivial

/-- A run that has just begun, no cancellation of it recorded yet. -/
def begun
    (c : RunControl)
    (signals : Signals)
    (requestedRunId clientRequestId : Option String)
    (runSequence : Option Nat)
    (generatedId : String) : CancellationWorld :=
  ⟨(c.beginWithSequence requestedRunId clientRequestId runSequence
    generatedId).2, signals, []⟩

section Begun

variable {c : RunControl}
variable {signals : Signals}
variable {requestedRunId clientRequestId : Option String}
variable {runSequence : Option Nat}
variable {generatedId : String}

theorem abortable_begun
    (hbegin : (c.beginWithSequence requestedRunId clientRequestId runSequence
      generatedId).1 = .ok lease) :
    (begun c signals requestedRunId clientRequestId runSequence
      generatedId).Abortable lease := by
  unfold begun
  rcases c.beginWithSequence_cases requestedRunId clientRequestId runSequence
      generatedId with ⟨message, heq⟩ | ⟨free, hfree, heq⟩
  · rw [heq] at hbegin
    simp at hbegin
  · rw [heq] at hbegin ⊢
    obtain rfl := Except.ok.inj hbegin
    exact ⟨_, rfl, rfl, rfl⟩

theorem followed_begun
    (hbegin : (c.beginWithSequence requestedRunId clientRequestId runSequence
      generatedId).1 = .ok lease) :
    Followed lease (begun c signals requestedRunId clientRequestId runSequence
      generatedId) [] := by
  have hactive : (begun c signals requestedRunId clientRequestId runSequence
      generatedId).control.activeLease = some lease :=
    (abortable_begun hbegin).activeLease
  rcases c.beginWithSequence_cases requestedRunId clientRequestId runSequence
      generatedId with ⟨message, heq⟩ | ⟨free, hfree, heq⟩
  · rw [heq] at hbegin
    simp at hbegin
  · rw [heq] at hbegin
    obtain rfl := Except.ok.inj hbegin
    refine ⟨⟨hactive, ?_, ?_⟩, ?_⟩
    · simp only [begun, heq]
      rfl
    · simp only [begun, heq]
      exact RunControl.next_epoch_lt _
    · intro active _
      exact ⟨by simp [begun], by simp [begun], by simp⟩

end Begun

/--
No lost cancellation, and the user's stop wins.  From the state in which a lease
was handed out, along any interleaving of installations and of the halves of
cancellations, the installed flag is raised once a cancellation has returned;
and along any calls at all that leave the lease active, an accepted user's abort
stays the recorded cause.
-/
theorem cancellation_not_lost
    (c : RunControl)
    (signals : Signals)
    (requestedRunId clientRequestId : Option String)
    (runSequence : Option Nat)
    (generatedId : String)
    (lease : RunLease)
    (hbegin : (c.beginWithSequence requestedRunId clientRequestId runSequence
      generatedId).1 = .ok lease)
    (ops : List CancellationOp) :
    let start := begun c signals requestedRunId clientRequestId runSequence
      generatedId
    let w := Machine.run step start ops
    ((∀ op ∈ ops, op.InstallsOrCancels) →
      Machine.trace step returned start ops ≠ [] →
      ∀ flag, w.installedFlag = some flag → flag ∈ w.signals.raised) ∧
    (Machine.Guarded step (Held lease) start ops →
      ∀ before op after, ops = before ++ op :: after →
        (Machine.run step start before).AcceptsUserAbort op →
        w.control.cancellationKind lease = some .user) := by
  intro start w
  have hstart : Followed lease start [] := followed_begun hbegin
  refine ⟨?_, ?_⟩
  · intro hops hout flag hflag
    have hguarded : Machine.Guarded step
        (fun w op => w.Held lease op ∧ w.TimelyInstall op) start ops :=
      Machine.guarded_of_invariant (I := fun w => w.Abortable lease)
        (fun w op h hop => ⟨timely_of_abortable h op hop,
          abortable_step h op hop⟩) (abortable_begun hbegin) hops
    have hfollowed : Followed lease w
        (Machine.trace step returned start ops) :=
      hguarded.trace_invariant (I := Followed lease)
        (fun w out op h hok => h.step op hok.1 hok.2) hstart
    obtain ⟨active, hactive, hinstalled⟩ := Option.bind_eq_some_iff.1 hflag
    exact (hfollowed.reached active hactive).returned flag hinstalled hout
  · intro hheld before op after hsplit haccepts
    subst hsplit
    rw [Machine.guarded_append] at hheld
    obtain ⟨hbefore, hop, hafter⟩ := hheld
    have hholds : (Machine.run step start before).Holds lease :=
      hbefore.invariant (I := fun w => w.Holds lease)
        (fun w op h hok => h.step op hok) hstart.holds
    have hend := hafter.invariant
      (I := fun w => w.Holds lease ∧
        w.control.cancellationKind lease = some .user)
      (fun w op h hok => ⟨h.1.step op hok, user_step h.1 h.2 op hok⟩)
      ⟨hholds.step op hop, user_accepted hholds op haccepts⟩
    simp only [w, Machine.run_append, Machine.run_cons]
    exact hend.2

/--
A shutdown is recorded while the run starts, its targets come, a user's abort is
recorded, and both are delivered.
-/
theorem cancellation_not_lost_race :
    let start := begun RunControl.new Signals.empty (some "run") none none ""
    let ops : List CancellationOp :=
      [.lock none true, .call (.installCancellation ⟨"run", 1, none⟩ 0 7),
        .lock none false, .deliver 1, .deliver 0]
    let w := Machine.run step start ops
    7 ∈ w.signals.raised ∧
    w.control.cancellationKind ⟨"run", 1, none⟩ = some .user := by
  intro start ops w
  obtain ⟨hraised, huser⟩ := cancellation_not_lost RunControl.new Signals.empty
    (some "run") none none "" ⟨"run", 1, none⟩ (by decide) ops
  refine ⟨hraised ?_ (by decide) 7 (by decide), huser ?_ _ (.lock none false) _
    (show ops = [.lock none true,
      .call (.installCancellation ⟨"run", 1, none⟩ 0 7)] ++ _ from rfl) ?_⟩
  · simp [ops, CancellationOp.InstallsOrCancels]
  · decide
  · exact ⟨_, rfl⟩

end CancellationWorld

end Runtime
end FutureOs
