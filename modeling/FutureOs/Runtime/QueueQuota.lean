import FutureOs.Runtime.RunQueue

/-!
# Quota conservation of the run queues

The sessions of a process reserve quota in one shared budget.  What a session
counts (`queuedBytes`) and what the budget counts should be what actually waits:
queued and parked prompts.

`supersede` releases `queued.len()` reservations and *all* of `queued_bytes`, and
starts `queued_bytes` afresh from the new payload, but it leaves the parked
prompts where they are.  With no parked bytes the accounts stay right; otherwise
those bytes are gone from both of them.

* `Accounts.step_iff`: exactly the steps that keep the accounts of one session;
* `quota_conserved_iff`: a run keeps all accounts right throughout exactly if
  its submissions stay inside a `usize` and its supersedes find no parked bytes;
* `supersede_drops_parked_quota`: a run that loses quota.
-/

namespace FutureOs
namespace Runtime

/-- Several sessions and the budget they share. -/
structure Scheduler where
  budget : GlobalQueueBudget
  sessions : List InMemoryRunQueue
deriving DecidableEq

/-- One call on one of the sessions. -/
structure SchedulerOp where
  session : Nat
  op : QueueOp
deriving DecidableEq

namespace Scheduler

/-- Fresh sessions on a fresh budget. -/
def new
    (maxCount maxBytes : Nat)
    (sessions : List (QueueLimits × Nat)) : Scheduler :=
  ⟨GlobalQueueBudget.new maxCount maxBytes,
    sessions.map fun session => InMemoryRunQueue.new session.1 session.2⟩

def step (env : QueueEnv) (s : Scheduler) (o : SchedulerOp) : Scheduler :=
  match s.sessions[o.session]? with
  | none => s
  | some q =>
      { budget := (q.step env s.budget o.op).2
        sessions := s.sessions.set o.session (q.step env s.budget o.op).1 }

end Scheduler

/-- The releases of several reservations together. -/
theorem GlobalQueueBudget.releaseAll_eq
    (g : GlobalQueueBudget)
    (requests : List ScheduledRunRequest) :
    g.releaseAll requests =
      { g with
        count := g.count - requests.length
        bytes := g.bytes - InMemoryRunQueue.bytesOf requests } := by
  induction requests generalizing g with
  | nil =>
      rfl
  | cons request rest ih =>
      have hstep : g.releaseAll (request :: rest) =
          (g.release request.payloadBytes).releaseAll rest := rfl
      rw [hstep, ih]
      simp only [release, InMemoryRunQueue.bytesOf, List.map_cons,
        List.sum_cons, List.length_cons, GlobalQueueBudget.mk.injEq, true_and]
      omega

theorem GlobalQueueBudget.reserve_ok
    {g g' : GlobalQueueBudget}
    {bytes : Nat}
    (h : g.reserve bytes = .ok g') :
    g' = { g with count := g.count + 1, bytes := satAdd g.bytes bytes } := by
  unfold reserve at h
  dsimp only at h
  split_ifs at h
  exact (Except.ok.inj h).symm

theorem GlobalQueueBudget.replaceQueued_ok
    {g g' : GlobalQueueBudget}
    {releasedCount releasedBytes newBytes : Nat}
    (h : g.replaceQueued releasedCount releasedBytes newBytes = .ok g') :
    g' = { g with
      count := g.count - releasedCount + 1
      bytes := satAdd (g.bytes - releasedBytes) newBytes } := by
  unfold replaceQueued at h
  dsimp only at h
  split_ifs at h
  exact (Except.ok.inj h).symm

namespace InMemoryRunQueue

/-- The bytes of everything that waits. -/
def waitingBytes (q : InMemoryRunQueue) : Nat :=
  bytesOf q.waiting

/-- The bytes of what is parked. -/
def parkedBytes (q : InMemoryRunQueue) : Nat :=
  bytesOf (q.held.map HeldRun.request)

/--
A step that keeps the accounts.  A submission that goes through does not
saturate the budget's byte counter, and a supersede that goes through finds no
parked bytes.
-/
def KeepsQuota
    (env : QueueEnv)
    (q : InMemoryRunQueue)
    (g : GlobalQueueBudget) :
    QueueOp → Prop
  | .accept clientRequestId requestedRunId busyPolicy payload generatedId _ =>
      ∀ runId g', q.checkAccept env clientRequestId requestedRunId busyPolicy
          payload generatedId = .ok (.fresh runId) →
        g.reserve payload.compactLen = .ok g' →
        g.bytes + payload.compactLen ≤ usizeMax
  | .supersede clientRequestId requestedRunId payload generatedId _ =>
      ∀ runId g', q.checkSupersede env clientRequestId requestedRunId payload
          generatedId = .ok (.fresh runId) →
        g.replaceQueued q.queued.length q.queuedBytes payload.compactLen =
          .ok g' →
        q.parkedBytes = 0 ∧
          g.bytes - q.queuedBytes + payload.compactLen ≤ usizeMax
  | _ => True

/-- The accounts are right, next to what other sessions have reserved. -/
structure Accounts
    (q : InMemoryRunQueue)
    (g : GlobalQueueBudget)
    (otherCount otherBytes : Nat) : Prop where
  own : q.queuedBytes = q.waitingBytes
  count : g.count = q.waiting.length + otherCount
  bytes : g.bytes = q.waitingBytes + otherBytes

theorem bytesOf_perm
    {requests requests' : List ScheduledRunRequest}
    (h : requests.Perm requests') :
    bytesOf requests = bytesOf requests' :=
  (h.map _).sum_nat

@[simp] theorem bytesOf_nil : bytesOf [] = 0 := rfl

@[simp] theorem bytesOf_cons
    (request : ScheduledRunRequest)
    (rest : List ScheduledRunRequest) :
    bytesOf (request :: rest) = request.payloadBytes + bytesOf rest := by
  simp [bytesOf]

@[simp] theorem bytesOf_append (requests requests' : List ScheduledRunRequest) :
    bytesOf (requests ++ requests') = bytesOf requests + bytesOf requests' := by
  simp [bytesOf]

theorem waitingBytes_eq (q : InMemoryRunQueue) :
    q.waitingBytes = bytesOf q.queued + q.parkedBytes := by
  simp [waitingBytes, waiting, parkedBytes]

theorem SameQueue.waiting_eq
    {q q' : InMemoryRunQueue}
    (h : SameQueue q q') :
    q'.waiting = q.waiting := by
  simp only [waiting, h.queued, h.held]

/-- Remembering finished requests keeps the accounts. -/
theorem SameQueue.accounts
    {q q' : InMemoryRunQueue}
    (h : SameQueue q q')
    {g : GlobalQueueBudget}
    {otherCount otherBytes : Nat}
    (haccounts : q.Accounts g otherCount otherBytes) :
    q'.Accounts g otherCount otherBytes := by
  obtain ⟨hown, hcount, hbytes⟩ := haccounts
  refine ⟨?_, ?_, ?_⟩
  · rw [h.queuedBytes, waitingBytes, h.waiting_eq, hown, waitingBytes]
  · rw [h.waiting_eq, hcount]
  · rw [waitingBytes, h.waiting_eq, hbytes, waitingBytes]

section Accounts

variable {env : QueueEnv}
variable {q : InMemoryRunQueue}
variable {g : GlobalQueueBudget}
variable {otherCount otherBytes : Nat}

/-- A queue whose waiting prompts are the old ones without some. -/
theorem Accounts.remove
    (h : q.Accounts g otherCount otherBytes)
    {q' : InMemoryRunQueue}
    (gone : List ScheduledRunRequest)
    (hperm : q.waiting.Perm (gone ++ q'.waiting))
    (hown : q'.queuedBytes = q.queuedBytes - bytesOf gone) :
    q'.Accounts (g.releaseAll gone) otherCount otherBytes := by
  have hlength : q.waiting.length = gone.length + q'.waiting.length := by
    rw [hperm.length_eq, List.length_append]
  have hbytes : q.waitingBytes = bytesOf gone + q'.waitingBytes := by
    rw [waitingBytes, bytesOf_perm hperm, bytesOf_append, waitingBytes]
  obtain ⟨hq, hcount, hg⟩ := h
  refine ⟨by omega, ?_, ?_⟩
  · rw [GlobalQueueBudget.releaseAll_eq]
    simp only
    omega
  · rw [GlobalQueueBudget.releaseAll_eq]
    simp only
    omega

/-- A queue whose waiting prompts are the old ones in another arrangement. -/
theorem Accounts.rearrange
    (h : q.Accounts g otherCount otherBytes)
    {q' : InMemoryRunQueue}
    (hbytes : q'.waitingBytes = q.waitingBytes)
    (hlength : q'.waiting.length = q.waiting.length)
    (hown : q'.queuedBytes = q.queuedBytes) :
    q'.Accounts g otherCount otherBytes :=
  ⟨by rw [hown, hbytes, h.own], by rw [hlength, h.count],
    by rw [hbytes, h.bytes]⟩

/-- Appending a prompt whose bytes are counted on both accounts. -/
theorem Accounts.enqueue_iff
    {request : ScheduledRunRequest}
    {queuedBytes count bytes : Nat} :
    (q.enqueue request queuedBytes).Accounts
        { g with count, bytes } otherCount otherBytes ↔
      queuedBytes = q.waitingBytes + request.payloadBytes ∧
      count = q.waiting.length + 1 + otherCount ∧
      bytes = q.waitingBytes + request.payloadBytes + otherBytes := by
  have hwaiting : (q.enqueue request queuedBytes).waiting.Perm
      (request :: q.waiting) := by
    simp only [waiting, enqueue, List.append_assoc, List.singleton_append]
    exact List.perm_middle
  have hlength := hwaiting.length_eq
  have hbytes : (q.enqueue request queuedBytes).waitingBytes =
      q.waitingBytes + request.payloadBytes := by
    rw [waitingBytes, bytesOf_perm hwaiting, bytesOf_cons, waitingBytes,
      Nat.add_comm]
  rw [List.length_cons] at hlength
  constructor
  · rintro ⟨hown, hcount, hg⟩
    exact ⟨hbytes ▸ hown, by rw [← hlength]; exact hcount, hbytes ▸ hg⟩
  · rintro ⟨hown, hcount, hg⟩
    exact ⟨hbytes ▸ hown, by rw [hlength]; exact hcount, hbytes ▸ hg⟩

theorem Accounts.reserve_iff
    (h : q.Accounts g otherCount otherBytes)
    (request : ScheduledRunRequest)
    {g' : GlobalQueueBudget}
    (hreserve : g.reserve request.payloadBytes = .ok g') :
    (q.enqueue request (satAdd q.queuedBytes request.payloadBytes)).Accounts
        g' otherCount otherBytes ↔
      g.bytes + request.payloadBytes ≤ usizeMax := by
  obtain ⟨hown, hcount, hbytes⟩ := h
  rw [GlobalQueueBudget.reserve_ok hreserve, Accounts.enqueue_iff]
  unfold satAdd
  omega

/-- What `supersede` leaves on the accounts when it goes through. -/
theorem Accounts.replaceQueued_iff
    (h : q.Accounts g otherCount otherBytes)
    (request : ScheduledRunRequest)
    {g' : GlobalQueueBudget}
    (hreplace : g.replaceQueued q.queued.length q.queuedBytes
      request.payloadBytes = .ok g') :
    ((({ q with queued := [], queuedBytes := 0 }).rememberAll q.queued
        "cancelled" "superseded").enqueue request
        request.payloadBytes).Accounts g' otherCount otherBytes ↔
      q.parkedBytes = 0 ∧
        g.bytes - q.queuedBytes + request.payloadBytes ≤ usizeMax := by
  obtain ⟨hown, hcount, hbytes⟩ := h
  have hframe := ({ q with queued := [], queuedBytes := 0 } :
    InMemoryRunQueue).rememberAll_frame q.queued "cancelled" "superseded"
  rw [GlobalQueueBudget.replaceQueued_ok hreplace, Accounts.enqueue_iff,
    waitingBytes, hframe.waiting_eq]
  have hwaiting : ({ q with queued := [], queuedBytes := 0 } :
      InMemoryRunQueue).waiting = q.held.map HeldRun.request := rfl
  have hlength : q.waiting.length =
      q.queued.length + (q.held.map HeldRun.request).length :=
    List.length_append
  rw [waitingBytes_eq] at hown hbytes
  rw [hwaiting, show bytesOf (q.held.map HeldRun.request) = q.parkedBytes
    from rfl]
  unfold satAdd
  omega

/-- One step that keeps the quota keeps the accounts. -/
theorem Accounts.step
    (h : q.Accounts g otherCount otherBytes)
    (op : QueueOp)
    (hkeeps : q.KeepsQuota env g op) :
    (q.step env g op).1.Accounts (q.step env g op).2 otherCount
      otherBytes := by
  have hmove := move_step env q g op
  generalize (q.step env g op).1 = q' at hmove ⊢
  generalize (q.step env g op).2 = g' at hmove ⊢
  generalize q.emit env g op = events at hmove
  cases hmove with
  | unchanged => exact h
  | accepted clientRequestId requestedRunId busyPolicy payload generatedId
      acceptedAt request _ hfresh hpayload hcheck hreserve =>
      subst hpayload
      refine (h.reserve_iff request hreserve).2 ?_
      rw [hfresh.bytes] at hreserve ⊢
      exact hkeeps _ _ hcheck hreserve
  | started epoch request rest hactive hqueued =>
      refine h.remove [request] ?_ rfl
      simp [waiting, hqueued]
  | folded front folded rest hqueued =>
      refine (rememberAll_frame _ _ _ _).accounts (h.remove folded ?_ rfl)
      simp only [waiting, hqueued, List.cons_append, List.append_assoc]
      exact List.perm_middle.symm
  | superseded clientRequestId requestedRunId payload generatedId acceptedAt
      request _ hfresh hpayload hcheck hreplace =>
      subst hpayload
      refine (h.replaceQueued_iff request hreplace).2 ?_
      rw [hfresh.bytes] at hreplace ⊢
      exact hkeeps _ _ hcheck hreplace
  | finished run epoch hactive =>
      exact (rememberTerminal_frame _ _ _ _).accounts
        (h.rearrange rfl rfl rfl)
  | cancelled runId reason request queued held hperm =>
      exact (rememberTerminal_frame _ _ _ _).accounts
        (h.remove [request] hperm rfl)
  | cancelledAll reason cancelled hperm =>
      refine (rememberAll_frame _ _ _ _).accounts (h.remove cancelled ?_ ?_)
      · simpa [waiting] using hperm.symm
      · rw [bytesOf_perm hperm, h.own, waitingBytes, Nat.sub_self]
  | parked boundary now queued held hperm =>
      exact h.rearrange (bytesOf_perm hperm) hperm.length_eq rfl
  | released runId acceptedAt run held hperm =>
      have hinsert := insertBySequence_perm { run.request with acceptedAt }
        q.queued
      have hheld := hperm.map HeldRun.request
      refine h.rearrange ?_ ?_ rfl
      · simp only [waitingBytes, waiting, bytesOf_append, bytesOf_perm hinsert,
          bytesOf_perm hheld, List.map_cons, bytesOf_cons]
        omega
      · simp only [waiting, List.length_append, hinsert.length_eq,
          hheld.length_eq, List.map_cons, List.length_cons]
        omega
  | payloadReleased runId =>
      exact h.rearrange rfl rfl rfl

/-- The accounts survive a step exactly if it keeps the quota. -/
theorem Accounts.step_iff
    (h : q.Accounts g otherCount otherBytes)
    (op : QueueOp) :
    (q.step env g op).1.Accounts (q.step env g op).2 otherCount otherBytes ↔
      q.KeepsQuota env g op := by
  refine ⟨fun hafter => ?_, h.step op⟩
  cases op with
  | accept clientRequestId requestedRunId busyPolicy payload generatedId
      acceptedAt =>
      intro runId g' hcheck hreserve
      simp only [InMemoryRunQueue.step, accept, hcheck, hreserve] at hafter
      exact (h.reserve_iff (q.scheduled env clientRequestId requestedRunId
        busyPolicy payload runId acceptedAt) hreserve).1 hafter
  | supersede clientRequestId requestedRunId payload generatedId acceptedAt =>
      intro runId g' hcheck hreplace
      simp only [InMemoryRunQueue.step, supersede, hcheck, hreplace] at hafter
      exact (h.replaceQueued_iff _ hreplace).1 hafter
  | _ => trivial

end Accounts

end InMemoryRunQueue

namespace Scheduler

/-- The prompts that wait in some sessions. -/
def waitingCount (sessions : List InMemoryRunQueue) : Nat :=
  (sessions.map fun q => q.waiting.length).sum

/-- The bytes some sessions count for what waits in them. -/
def queuedBytes (sessions : List InMemoryRunQueue) : Nat :=
  (sessions.map InMemoryRunQueue.queuedBytes).sum

/-- Every session counts what waits in it, and the budget counts them all. -/
structure Conserved (s : Scheduler) : Prop where
  sessions : ∀ q ∈ s.sessions, q.queuedBytes = q.waitingBytes
  count : s.budget.count = waitingCount s.sessions
  bytes : s.budget.bytes = queuedBytes s.sessions

/-- The step keeps the quota of the session it is about. -/
def KeepsQuota (env : QueueEnv) (s : Scheduler) (o : SchedulerOp) : Prop :=
  ∀ q, s.sessions[o.session]? = some q → q.KeepsQuota env s.budget o.op

/-- The accounts of one session among the others. -/
theorem conserved_iff
    (g : GlobalQueueBudget)
    (before after : List InMemoryRunQueue)
    (q : InMemoryRunQueue) :
    Conserved ⟨g, before ++ q :: after⟩ ↔
      (∀ other ∈ before ++ after,
        other.queuedBytes = other.waitingBytes) ∧
      q.Accounts g (waitingCount (before ++ after))
        (queuedBytes (before ++ after)) := by
  have hcount : waitingCount (before ++ q :: after) =
      q.waiting.length + waitingCount (before ++ after) := by
    simp [waitingCount, Nat.add_left_comm]
  have hbytes : queuedBytes (before ++ q :: after) =
      q.queuedBytes + queuedBytes (before ++ after) := by
    simp [queuedBytes, Nat.add_left_comm]
  constructor
  · rintro ⟨hsessions, hc, hb⟩
    have hown := hsessions q (by simp)
    refine ⟨fun other hother => hsessions other ?_, hown, ?_, ?_⟩
    · rcases List.mem_append.1 hother with h | h
      · exact List.mem_append_left _ h
      · exact List.mem_append_right _ (List.mem_cons_of_mem _ h)
    · exact hc.trans hcount
    · rw [← hown]
      exact hb.trans hbytes
  · rintro ⟨hothers, hown, hc, hb⟩
    refine ⟨?_, hc.trans hcount.symm, ?_⟩
    · intro other hother
      rcases List.mem_append.1 hother with h | h
      · exact hothers other (List.mem_append_left _ h)
      · rcases List.mem_cons.1 h with rfl | h
        · exact hown
        · exact hothers other (List.mem_append_right _ h)
    · rw [hbytes, hown]
      exact hb

theorem step_conserved_iff
    (env : QueueEnv)
    (s : Scheduler)
    (o : SchedulerOp)
    (h : s.Conserved) :
    (s.step env o).Conserved ↔ s.KeepsQuota env o := by
  unfold step KeepsQuota
  cases hq : s.sessions[o.session]? with
  | none =>
      simpa using h
  | some q =>
      obtain ⟨hlt, hget⟩ := List.getElem?_eq_some_iff.1 hq
      obtain ⟨before, after, hsplit, _, hset⟩ :
          ∃ before after,
            s.sessions = before ++ s.sessions[o.session] :: after ∧
            before.length = o.session ∧
            s.sessions.set o.session (q.step env s.budget o.op).1 =
              before ++ (q.step env s.budget o.op).1 :: after :=
        List.exists_of_set hlt
      rw [hget] at hsplit
      have hs : Conserved ⟨s.budget, before ++ q :: after⟩ := hsplit ▸ h
      rw [conserved_iff] at hs
      dsimp only
      rw [hset, conserved_iff, hs.2.step_iff o.op]
      simp only [Option.some.injEq, forall_eq']
      exact ⟨fun hkeeps => hkeeps.2, fun hkeeps => ⟨hs.1, hkeeps⟩⟩

theorem conserved_new
    (maxCount maxBytes : Nat)
    (sessions : List (QueueLimits × Nat)) :
    (new maxCount maxBytes sessions).Conserved := by
  refine ⟨?_, ?_, ?_⟩
  · intro q hq
    obtain ⟨session, _, rfl⟩ := List.mem_map.1 hq
    rfl
  · simp [new, waitingCount, GlobalQueueBudget.new, InMemoryRunQueue.new,
      InMemoryRunQueue.waiting, Function.comp_def]
  · simp [new, queuedBytes, GlobalQueueBudget.new, InMemoryRunQueue.new,
      Function.comp_def]

/--
Quota is conserved in every state of a run exactly if the submissions that go
through never saturate the budget's byte counter, and the supersedes that go
through find no parked bytes in their session.
-/
theorem quota_conserved_iff
    (env : QueueEnv)
    (maxCount maxBytes : Nat)
    (sessions : List (QueueLimits × Nat))
    (ops : List SchedulerOp) :
    (∀ k, (Machine.run (step env) (new maxCount maxBytes sessions)
      (ops.take k)).Conserved) ↔
    Machine.Guarded (step env) (KeepsQuota env)
      (new maxCount maxBytes sessions) ops :=
  Machine.forall_run_iff_guarded (step_conserved_iff env)
    (conserved_new maxCount maxBytes sessions) ops

/-- The digests and the timestamp of the run below. -/
def parkedQuotaEnv : QueueEnv where
  sha256 v :=
    if v = InMemoryRunQueue.requestEnvelope (some "a") .enqueueIfBusy
        (.obj [("prompt", .str "one")]) then
      "48b367036ba9824940b3f0e32683a5656d6c0e4cf0c20d92a8e9867116a80601"
    else if v = InMemoryRunQueue.requestEnvelope (some "b") .supersedeSession
        (.obj [("prompt", .str "two")]) then
      "e7540d6dd0370b56dd60a82cc5ca8156210085923429736e140800bec96a3425"
    else
      ""
  parseRfc3339 text :=
    if text = "2024-01-01T00:00:00+00:00" then
      some (1704067200 * 1000000000)
    else
      none

/--
A prompt waits eleven minutes and is parked; a supersede then replaces the empty
queue.  The parked prompt still waits, but neither account counts its 16 bytes.
-/
theorem supersede_drops_parked_quota :
    let limits : QueueLimits := ⟨"s", 128, 1000, 1000, 256, 600⟩
    let s := Machine.run (step parkedQuotaEnv) (new 10 1000 [(limits, 1)])
      [⟨0, .accept "r1" (some "a") .enqueueIfBusy
          (.obj [("prompt", .str "one")]) "" "2024-01-01T00:00:00+00:00"⟩,
        ⟨0, .parkStale .idle (1704067860 * 1000000000)⟩,
        ⟨0, .supersede "r2" (some "b") (.obj [("prompt", .str "two")]) ""
          "2024-01-01T00:11:00+00:00"⟩]
    ¬s.Conserved ∧
    s.budget.count = 2 ∧
    s.budget.bytes = 16 ∧
    s.sessions.map InMemoryRunQueue.queuedBytes = [16] ∧
    s.sessions.map InMemoryRunQueue.waitingBytes = [32] := by
  intro limits s
  have hbytes : s.sessions.map InMemoryRunQueue.queuedBytes = [16] := by
    decide
  have hwaiting : s.sessions.map InMemoryRunQueue.waitingBytes = [32] := by
    decide
  refine ⟨?_, by decide, by decide, hbytes, hwaiting⟩
  intro h
  have hsame : s.sessions.map InMemoryRunQueue.queuedBytes =
      s.sessions.map InMemoryRunQueue.waitingBytes :=
    List.map_congr_left h.sessions
  rw [hbytes, hwaiting] at hsame
  simp at hsame

end Scheduler

end Runtime
end FutureOs
