import FutureOs.Orchestration.Outbox
import FutureOs.Orchestration.Wire

/-!
# Runs of the outbox

A delivered batch has a note that was not delivered before.  Where a note is in no batch,
that note is older, so the number of older notes not delivered falls with each pass that
comes to its end: it bounds how many passes can leave the note out.
-/

namespace FutureOs
namespace Orchestration

section Runs

variable {derive : Event → String}
variable {entry : RegistryEntry}
variable {s : Outbox derive}

/-! ## The ledger grows -/

theorem Outbox.Sound.run
    (h : s.Sound)
    {ops : List OutboxOp}
    (hops : Machine.Guarded (Outbox.step entry) Outbox.Regular s ops) :
    (Machine.run (Outbox.step entry) s ops).Sound :=
  Machine.Guarded.invariant (I := Outbox.Sound) (fun _ _ hs hop => hs.step hop) h hops

/-! ## Deliveries -/

/-- A pass that comes to its end. -/
theorem Outbox.Sound.delivers
    (h : s.Sound)
    {op : OutboxOp}
    {b : Batch}
    (hb : b ∈ s.delivers entry op) :
    s.delivers entry op = [b] ∧ Undelivered s.log.events b ∧
      ∃ e, (s.step entry op).log.events = s.log.events ++ [e] ∧
        e.kind.prepared = none ∧ e.kind.delivered = some b.id := by
  cases op with
  | passDeliver ts =>
      have hpass := h.pass
      simp only [Outbox.delivers] at hb ⊢
      simp only [Outbox.step]
      split at hb
      · rename_i b' haccepted
        rw [haccepted] at hpass
        split at hb
        · rename_i log hrecord
          obtain rfl := List.mem_singleton.1 hb
          refine ⟨rfl, hpass, b.deliveredEvent entry ts, ?_, rfl, rfl⟩
          rcases EventLog.record_cases hrecord with ⟨hold, -⟩ | ⟨-, hadded⟩
          · have hid : b.id ∈ deliveredIds s.log.events := List.mem_filterMap.2 ⟨_, hold, rfl⟩
            exact absurd hid hpass.open'
          · exact hadded
        · cases hb
      · cases hb
  | _ =>
      cases hb

/-- The session of the last registration. -/
def registeredSession (events : List Event) : Option String :=
  (events.filterMap fun e => e.kind.registered).getLast?

theorem registeredSession_concat (events : List Event) (e : Event) :
    registeredSession (events ++ [e]) = e.kind.registered.or (registeredSession events) := by
  unfold registeredSession
  rw [List.filterMap_append]
  cases h : e.kind.registered <;> simp [h]

theorem supervisorSessionId_apply (now : Nat) (goal : Goal) (e : Event) :
    (apply now goal e).supervisorSessionId = e.kind.registered.or goal.supervisorSessionId := by
  obtain ⟨goalId, kind, ts⟩ := e
  cases kind with
  | todoAdded t =>
      change (goal.addTodo t).supervisorSessionId = goal.supervisorSessionId
      unfold Goal.addTodo
      split <;> rfl
  | runRecorded record =>
      simp only [apply]
      split <;> rfl
  | replanAcked deltaKinds =>
      simp only [apply]
      split <;> rfl
  | steerConsumed agentId steerTs =>
      simp only [apply]
      split <;> rfl
  | _ =>
      rfl

/-- A replay shows the session of the last registration. -/
theorem replayedSession_eq (now : Nat) (events : List Event) :
    replayedSession entry now events = registeredSession events := by
  unfold replayedSession
  have hrun : ∀ goal : Goal, (Machine.run (apply now) goal events).supervisorSessionId =
      (registeredSession events).or goal.supervisorSessionId := by
    intro goal
    induction events using List.reverseRecOn with
    | nil =>
        rfl
    | append_singleton events e ih =>
        rw [Machine.run_concat, supervisorSessionId_apply, ih, registeredSession_concat,
          Option.or_assoc]
  rw [hrun]
  exact Option.or_none

/-- The session of the batch or the reading a pass works with. -/
def Pass.session : Pass → String
  | .started session => session
  | .chosen b => b.session
  | .ready b => b.session
  | .accepted b => b.session

/-- The step registers no session. -/
def OutboxOp.quiet : OutboxOp → Bool
  | .append event => event.kind.registered.isNone
  | _ => true

/-- One session is registered, every pass works for it, and so does every batch not in the list. -/
structure OneSession (old : List Batch) (session : Option String) (s : Outbox derive) :
    Prop where
  registered : registeredSession s.log.events = session
  pass : ∀ pass ∈ s.pass, some pass.session = session
  batches : ∀ b ∈ prepared s.log.events, b ∈ old ∨ some b.session = session

theorem choosePass_session
    {events : List Event}
    {session id : String}
    {pass : Pass}
    (h : choosePass entry events session id = some pass) :
    pass.session = session := by
  unfold choosePass at h
  split at h
  · rename_i b hretry
    obtain rfl := Option.some.inj h
    exact (retryBatch_spec hretry).2
  · obtain ⟨b, hb, rfl⟩ := Option.map_eq_some_iff.1 h
    unfold newBatch at hb
    simp only at hb
    split at hb
    · cases hb
    · rw [← Option.some.inj hb]
      rfl

/-- An append of a quiet event that prepares no batch, or one for the session. -/
theorem OneSession.record
    {old : List Batch}
    {session : Option String}
    (h : OneSession old session s)
    {event : Event}
    {log : EventLog derive}
    (hrecord : s.log.record event = .ok log)
    (hquiet : event.kind.registered = none)
    (hbatch : ∀ b, event.kind.prepared = some b → some b.session = session) :
    registeredSession log.events = session ∧
      ∀ b ∈ prepared log.events, b ∈ old ∨ some b.session = session := by
  rcases EventLog.record_cases hrecord with ⟨-, hsame⟩ | ⟨-, hadded⟩
  · rw [hsame]
    exact ⟨h.registered, h.batches⟩
  · rw [hadded, registeredSession_concat, hquiet, prepared_concat]
    refine ⟨h.registered, fun b hb => ?_⟩
    rcases List.mem_append.1 hb with hold | hnew
    · exact h.batches b hold
    · exact Or.inr (hbatch b (Option.mem_toList.1 hnew))

theorem OneSession.step
    {old : List Batch}
    {session : Option String}
    (h : OneSession old session s)
    {op : OutboxOp}
    (hop : s.Regular op)
    (hquiet : op.quiet = true) :
    OneSession old session (s.step entry op) := by
  obtain ⟨hregistered, hpass, hbatches⟩ := h
  have hnone : ∀ pass ∈ (none : Option Pass), some pass.session = session :=
    fun _ hpass => by cases hpass
  cases op with
  | queueStart notes =>
      simp only [Outbox.step]
      split <;> exact ⟨hregistered, hpass, hbatches⟩
  | queueNext ts =>
      simp only [Outbox.step]
      split
      · split
        · rename_i hrecord
          obtain ⟨hregistered', hbatches'⟩ := OneSession.record
            ⟨hregistered, hpass, hbatches⟩ hrecord rfl (fun _ hb => by cases hb)
          exact ⟨hregistered', hpass, hbatches'⟩
        · exact ⟨hregistered, hpass, hbatches⟩
      · exact ⟨hregistered, hpass, hbatches⟩
  | queueStop =>
      exact ⟨hregistered, hpass, hbatches⟩
  | passStart now =>
      simp only [Outbox.step]
      split
      · refine ⟨hregistered, fun pass hmem => ?_, hbatches⟩
        rw [replayedSession_eq, hregistered] at hmem
        obtain ⟨name, hname, rfl⟩ := Option.map_eq_some_iff.1 hmem
        exact hname.symm
      · exact ⟨hregistered, hpass, hbatches⟩
  | passChoose id =>
      simp only [Outbox.step]
      split
      · rename_i name hstarted
        refine ⟨hregistered, fun pass hmem => ?_, hbatches⟩
        rw [choosePass_session hmem]
        exact hpass _ hstarted
      · exact ⟨hregistered, hpass, hbatches⟩
  | passPrepare ts =>
      simp only [Outbox.step]
      split
      · rename_i b hchosen
        have hsession : some b.session = session := hpass _ hchosen
        split
        · rename_i log hrecord
          obtain ⟨hregistered', hbatches'⟩ := OneSession.record
            ⟨hregistered, hpass, hbatches⟩ hrecord rfl (fun b' hb' => by
              obtain rfl := Option.some.inj hb'
              exact hsession)
          refine ⟨hregistered', fun pass hmem => ?_, hbatches'⟩
          obtain rfl := Option.some.inj hmem
          exact hsession
        · exact ⟨hregistered, hnone, hbatches⟩
      · exact ⟨hregistered, hpass, hbatches⟩
  | passPrompt =>
      simp only [Outbox.step]
      split
      · rename_i b hready
        have hsession : some b.session = session := hpass _ hready
        refine ⟨hregistered, fun pass hmem => ?_, hbatches⟩
        obtain rfl := Option.some.inj hmem
        exact hsession
      · exact ⟨hregistered, hpass, hbatches⟩
  | passDeliver ts =>
      simp only [Outbox.step]
      split
      · split
        · rename_i hrecord
          obtain ⟨hregistered', hbatches'⟩ := OneSession.record
            ⟨hregistered, hpass, hbatches⟩ hrecord rfl (fun _ hb => by cases hb)
          exact ⟨hregistered', hnone, hbatches'⟩
        · exact ⟨hregistered, hnone, hbatches⟩
      · exact ⟨hregistered, hpass, hbatches⟩
  | passStop =>
      exact ⟨hregistered, hnone, hbatches⟩
  | append event =>
      simp only [Outbox.step]
      split
      · rename_i hrecord
        obtain ⟨hregistered', hbatches'⟩ := OneSession.record
          ⟨hregistered, hpass, hbatches⟩ hrecord (Option.isNone_iff_eq_none.1 hquiet)
          (fun b hb => by rw [hop.2.1] at hb; cases hb)
        exact ⟨hregistered', hpass, hbatches'⟩
      · exact ⟨hregistered, hpass, hbatches⟩

theorem OneSession.run
    {old : List Batch}
    {session : Option String}
    (h : OneSession old session s)
    {ops : List OutboxOp}
    (hops : Machine.Guarded (Outbox.step entry) Outbox.Regular s ops)
    (hquiet : ∀ op ∈ ops, op.quiet = true) :
    OneSession old session (Machine.run (Outbox.step entry) s ops) := by
  induction ops generalizing s with
  | nil =>
      exact h
  | cons op ops ih =>
      exact ih (h.step hops.1 (hquiet op List.mem_cons_self)) hops.2
        (fun op' hop' => hquiet op' (List.mem_cons_of_mem _ hop'))

end Runs

end Orchestration
end FutureOs
