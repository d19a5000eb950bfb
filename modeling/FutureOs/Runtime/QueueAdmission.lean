import FutureOs.Runtime.QueueLifecycle
import FutureOs.Runtime.QueueQuota

/-!
# The admission limit of a session queue

`accept` compares the length of the dequeue line with the capacity of the
session, and the bytes counted for waiting prompts with `max_queue_bytes`.
Parking takes prompts out of the line, so the next `accept` sees free places;
`release_held` puts them back without a check, and the line can grow beyond its
capacity.  `supersede` forgets the bytes of parked prompts, and later checks
compare with too small a count.

* `Admitted`: the line and the waiting bytes are within the limits;
* `KeepsAdmission`: the steps that keep it, exactly (`admitted_step_iff`);
* `admission_limit_iff`: the same for every run of calls;
* `release_exceeds_capacity`: a run that exceeds the capacity.
-/

namespace FutureOs
namespace Runtime
namespace InMemoryRunQueue

/-- The dequeue line and the bytes of all waiting prompts are in the limits. -/
structure Admitted (q : InMemoryRunQueue) : Prop where
  line : q.queued.length ≤ q.limits.capacity
  bytes : q.waitingBytes ≤ q.limits.maxQueueBytes

instance (q : InMemoryRunQueue) : Decidable q.Admitted :=
  decidable_of_iff (q.queued.length ≤ q.limits.capacity ∧
      q.waitingBytes ≤ q.limits.maxQueueBytes)
    ⟨fun h => ⟨h.1, h.2⟩, fun h => ⟨h.line, h.bytes⟩⟩

/--
A step that keeps the limits.  A parked prompt that is released finds a place in
the line; a supersede that goes through fits next to the parked prompts it
leaves; a submission that goes through fits next to all waiting prompts, counted
or not.
-/
def KeepsAdmission
    (env : QueueEnv)
    (q : InMemoryRunQueue)
    (g : GlobalQueueBudget) :
    QueueOp → Prop
  | .accept clientRequestId requestedRunId busyPolicy payload generatedId _ =>
      ∀ runId g', q.checkAccept env clientRequestId requestedRunId busyPolicy
          payload generatedId = .ok (.fresh runId) →
        g.reserve payload.compactLen = .ok g' →
        q.waitingBytes + payload.compactLen ≤ q.limits.maxQueueBytes
  | .supersede clientRequestId requestedRunId payload generatedId _ =>
      ∀ runId g', q.checkSupersede env clientRequestId requestedRunId payload
          generatedId = .ok (.fresh runId) →
        g.replaceQueued q.queued.length q.queuedBytes payload.compactLen =
          .ok g' →
        1 ≤ q.limits.capacity ∧
          q.parkedBytes + payload.compactLen ≤ q.limits.maxQueueBytes
  | .releaseHeld runId _ =>
      (q.held.find? (·.request.runId = runId)).isSome = true →
        q.queued.length < q.limits.capacity
  | _ => True

/-! ## What the checks establish -/

/-- A submission that passes the checks finds a place, and its counted bytes fit. -/
theorem checkAccept_room
    {env : QueueEnv}
    {q : InMemoryRunQueue}
    {clientRequestId : String}
    {requestedRunId : Option String}
    {busyPolicy : BusyPolicy}
    {payload : Json}
    {generatedId runId : String}
    (h : q.checkAccept env clientRequestId requestedRunId busyPolicy payload
      generatedId = .ok (.fresh runId)) :
    q.queued.length < q.limits.capacity ∧
    satAdd q.queuedBytes payload.compactLen ≤ q.limits.maxQueueBytes := by
  unfold checkAccept at h
  split at h
  · simp at h
  · split at h
    · split at h <;> simp at h
    · dsimp only at h
      split_ifs at h with hpolicy hlarge hfull hbytes
      exact ⟨Nat.lt_of_not_le hfull, Nat.le_of_not_lt hbytes⟩

/-! ## Steps -/

section Admission

variable {env : QueueEnv}
variable {q q' : InMemoryRunQueue}

/-- Remembering finished requests keeps the limits. -/
theorem SameQueue.admitted_iff (h : SameQueue q q') :
    q'.Admitted ↔ q.Admitted := by
  have hbytes : q'.waitingBytes = q.waitingBytes := by
    rw [waitingBytes, h.waiting_eq, waitingBytes]
  constructor
  · rintro ⟨hline, hwaiting⟩
    rw [h.queued, h.limits] at hline
    rw [hbytes, h.limits] at hwaiting
    exact ⟨hline, hwaiting⟩
  · rintro ⟨hline, hwaiting⟩
    refine ⟨?_, ?_⟩
    · rw [h.queued, h.limits]
      exact hline
    · rw [hbytes, h.limits]
      exact hwaiting

/-- A line that does not grow, and some waiting prompts gone. -/
theorem Admitted.shrink
    (h : q.Admitted)
    (hlimits : q'.limits = q.limits)
    (hline : q'.queued.length ≤ q.queued.length)
    (gone : List ScheduledRunRequest)
    (hperm : q.waiting.Perm (gone ++ q'.waiting)) :
    q'.Admitted := by
  have hbytes : q.waitingBytes = bytesOf gone + q'.waitingBytes := by
    rw [waitingBytes, bytesOf_perm hperm, bytesOf_append, waitingBytes]
  obtain ⟨hq, hwaiting⟩ := h
  refine ⟨?_, ?_⟩
  · rw [hlimits]
    omega
  · rw [hlimits]
    omega

theorem admitted_enqueue_iff
    {request : ScheduledRunRequest}
    {queuedBytes : Nat} :
    (q.enqueue request queuedBytes).Admitted ↔
      q.queued.length < q.limits.capacity ∧
      q.waitingBytes + request.payloadBytes ≤ q.limits.maxQueueBytes := by
  have hline : (q.enqueue request queuedBytes).queued.length =
      q.queued.length + 1 := by
    simp [enqueue]
  have hbytes : (q.enqueue request queuedBytes).waitingBytes =
      q.waitingBytes + request.payloadBytes := by
    simp only [waitingBytes, waiting, enqueue, bytesOf_append, bytesOf_cons,
      bytesOf_nil]
    omega
  constructor
  · rintro ⟨hq, hwaiting⟩
    rw [hline] at hq
    rw [hbytes] at hwaiting
    exact ⟨hq, hwaiting⟩
  · rintro ⟨hq, hwaiting⟩
    refine ⟨?_, ?_⟩
    · rw [hline]
      exact hq
    · rw [hbytes]
      exact hwaiting

/-- What `supersede` leaves in the line when it goes through. -/
theorem admitted_replaced_iff
    (q : InMemoryRunQueue)
    (request : ScheduledRunRequest)
    (queuedBytes : Nat) :
    ((({ q with queued := [], queuedBytes := 0 }).rememberAll q.queued
        "cancelled" "superseded").enqueue request queuedBytes).Admitted ↔
      1 ≤ q.limits.capacity ∧
      q.parkedBytes + request.payloadBytes ≤ q.limits.maxQueueBytes := by
  have hframe := ({ q with queued := [], queuedBytes := 0 } :
    InMemoryRunQueue).rememberAll_frame q.queued "cancelled" "superseded"
  rw [admitted_enqueue_iff, hframe.queued, hframe.limits, waitingBytes,
    hframe.waiting_eq]
  exact Iff.rfl

/-- Releasing a parked prompt only makes the line longer. -/
theorem admitted_released_iff
    (h : q.Admitted)
    {run : HeldRun}
    {held : List HeldRun}
    {acceptedAt : String}
    (hperm : q.held.Perm (run :: held)) :
    ({ q with
        queued := insertBySequence { run.request with acceptedAt } q.queued
        held } : InMemoryRunQueue).Admitted ↔
      q.queued.length < q.limits.capacity := by
  have hinsert := insertBySequence_perm { run.request with acceptedAt } q.queued
  have hheld := hperm.map HeldRun.request
  have hline := hinsert.length_eq
  have hbytes : ({ q with
      queued := insertBySequence { run.request with acceptedAt } q.queued
      held } : InMemoryRunQueue).waitingBytes = q.waitingBytes := by
    simp only [waitingBytes, waiting, bytesOf_append, bytesOf_perm hinsert,
      bytesOf_perm hheld, List.map_cons, bytesOf_cons]
    omega
  rw [List.length_cons] at hline
  constructor
  · rintro ⟨hafter, _⟩
    exact Nat.lt_of_succ_le (hline.ge.trans hafter)
  · intro hroom
    exact ⟨hline.le.trans hroom, hbytes.le.trans h.bytes⟩

/-- One step that finds room keeps the limits. -/
theorem Admitted.step
    (h : q.Admitted)
    (g : GlobalQueueBudget)
    (op : QueueOp)
    (hkeeps : q.KeepsAdmission env g op) :
    (q.step env g op).1.Admitted := by
  have hmove := move_step env q g op
  have hrelease : ∀ runId acceptedAt, op = .releaseHeld runId acceptedAt →
      (q.step env g op).1.Admitted := by
    rintro runId acceptedAt rfl
    simp only [InMemoryRunQueue.step, releaseHeld]
    cases hheld : q.held.find? (·.request.runId = runId) with
    | none =>
        exact h
    | some run =>
        exact (admitted_released_iff h (perm_of_find? hheld)).2
          (hkeeps (by rw [hheld]; rfl))
  generalize (q.step env g op).1 = q' at hmove hrelease ⊢
  generalize (q.step env g op).2 = g' at hmove
  generalize q.emit env g op = events at hmove
  cases hmove with
  | unchanged => exact h
  | accepted clientRequestId requestedRunId busyPolicy payload generatedId
      acceptedAt request _ hfresh hpayload hcheck hreserve =>
      subst hpayload
      rw [hfresh.bytes] at hreserve
      refine admitted_enqueue_iff.2 ⟨(checkAccept_room hcheck).1, ?_⟩
      rw [hfresh.bytes]
      exact hkeeps _ _ hcheck hreserve
  | started epoch request rest hactive hqueued =>
      refine h.shrink rfl ?_ [request] ?_
      · simp [hqueued]
      · simp [waiting, hqueued]
  | folded front folded rest hqueued =>
      refine (rememberAll_frame _ _ _ _).admitted_iff.2
        (h.shrink rfl ?_ folded ?_)
      · simp only [hqueued, List.length_cons, List.length_append]
        omega
      · simp only [waiting, hqueued, List.cons_append, List.append_assoc]
        exact List.perm_middle.symm
  | superseded clientRequestId requestedRunId payload generatedId acceptedAt
      request _ hfresh hpayload hcheck hreplace =>
      subst hpayload
      rw [hfresh.bytes] at hreplace
      refine (admitted_replaced_iff q request _).2 ?_
      rw [hfresh.bytes]
      exact hkeeps _ _ hcheck hreplace
  | finished run epoch hactive =>
      exact (rememberTerminal_frame _ _ _ _).admitted_iff.2
        (h.shrink rfl (Nat.le_refl _) [] (List.Perm.refl _))
  | cancelled runId reason request queued held hperm hqueued =>
      exact (rememberTerminal_frame _ _ _ _).admitted_iff.2
        (h.shrink rfl hqueued.length_le [request] hperm)
  | cancelledAll reason cancelled hperm =>
      refine (rememberAll_frame _ _ _ _).admitted_iff.2
        (h.shrink rfl (Nat.zero_le _) cancelled ?_)
      simpa [waiting] using hperm.symm
  | parked boundary now queued held hperm hqueued =>
      exact h.shrink rfl hqueued.length_le [] hperm.symm
  | released runId acceptedAt run held hperm =>
      exact hrelease runId acceptedAt rfl
  | payloadReleased runId =>
      exact h.shrink rfl (Nat.le_refl _) [] (List.Perm.refl _)

/-- The limits survive a step exactly if it finds room. -/
theorem admitted_step_iff
    (h : q.Admitted)
    (g : GlobalQueueBudget)
    (op : QueueOp) :
    (q.step env g op).1.Admitted ↔ q.KeepsAdmission env g op := by
  refine ⟨fun hafter => ?_, h.step g op⟩
  cases op with
  | accept clientRequestId requestedRunId busyPolicy payload generatedId
      acceptedAt =>
      intro runId g' hcheck hreserve
      simp only [InMemoryRunQueue.step, accept, hcheck, hreserve] at hafter
      exact (admitted_enqueue_iff.1 hafter).2
  | supersede clientRequestId requestedRunId payload generatedId acceptedAt =>
      intro runId g' hcheck hreplace
      simp only [InMemoryRunQueue.step, supersede, hcheck, hreplace] at hafter
      exact (admitted_replaced_iff q _ _).1 hafter
  | releaseHeld runId acceptedAt =>
      intro hsome
      obtain ⟨run, hheld⟩ := Option.isSome_iff_exists.1 hsome
      simp only [InMemoryRunQueue.step, releaseHeld, hheld] at hafter
      exact (admitted_released_iff h (perm_of_find? hheld)).1 hafter
  | _ => trivial

end Admission

/-! ## Runs -/

theorem admitted_new
    (limits : QueueLimits)
    (nextSequence : Nat) :
    (new limits nextSequence).Admitted :=
  ⟨Nat.zero_le _, Nat.zero_le _⟩

/--
The limits hold in every state of a run of calls, whatever other sessions do to
the budget, exactly if every release of a parked prompt finds a place in the
line, every supersede that goes through fits next to the parked prompts, and
every submission that goes through fits next to all waiting prompts.
-/
theorem admission_limit_iff
    (env : QueueEnv)
    (limits : QueueLimits)
    (nextSequence : Nat)
    (ops : List LocalOp) :
    (∀ k,
      let q := Machine.run (stepLocal env) (new limits nextSequence)
        (ops.take k)
      q.queued.length ≤ limits.capacity ∧
        q.waitingBytes ≤ limits.maxQueueBytes) ↔
    Machine.Guarded (stepLocal env)
      (fun q o => q.KeepsAdmission env o.budget o.op)
      (new limits nextSequence) ops := by
  have hstep : ∀ q o, Admitted q → ((q.stepLocal env o).Admitted ↔
      q.KeepsAdmission env o.budget o.op) :=
    fun q o h => admitted_step_iff h o.budget o.op
  rw [← Machine.forall_run_iff_guarded hstep (admitted_new limits nextSequence)
    ops]
  have hlimits : ∀ k, (Machine.run (stepLocal env) (new limits nextSequence)
      (ops.take k)).limits = limits := fun k =>
    Machine.run_invariant (I := fun q => q.limits = limits)
      (fun q o hq => (limits_step env q o).trans hq) rfl (ops.take k)
  refine forall_congr' fun k => ?_
  have hk := hlimits k
  generalize Machine.run (stepLocal env) (new limits nextSequence)
    (ops.take k) = q at hk
  subst hk
  constructor
  · rintro ⟨hline, hbytes⟩
    exact ⟨hline, hbytes⟩
  · rintro ⟨hline, hbytes⟩
    exact ⟨hline, hbytes⟩

/-- The digests and the timestamps of the run below. -/
def parkAndReleaseEnv : QueueEnv where
  sha256 _ := ""
  parseRfc3339 text :=
    if text = "2024-01-01T00:00:00+00:00" then
      some (1704067200 * 1000000000)
    else
      none

/--
A session for one prompt: the prompt is parked, the next one takes the free
place, and releasing the parked one makes the line two prompts long.
-/
theorem release_exceeds_capacity :
    let limits : QueueLimits := ⟨"s", 1, 1000, 1000, 256, 600⟩
    let g := GlobalQueueBudget.new 10 1000
    let q := Machine.run (stepLocal parkAndReleaseEnv) (new limits 1)
      [⟨.accept "r1" (some "a") .enqueueIfBusy
          (.obj [("prompt", .str "one")]) "" "2024-01-01T00:00:00+00:00", g⟩,
        ⟨.parkStale .idle (1704067860 * 1000000000), g⟩,
        ⟨.accept "r2" (some "b") .enqueueIfBusy
          (.obj [("prompt", .str "two")]) "" "2024-01-01T00:11:00+00:00", g⟩,
        ⟨.releaseHeld "a" "2024-01-01T00:12:00+00:00", g⟩]
    ¬q.queued.length ≤ limits.capacity ∧
    q.queued.map ScheduledRunRequest.runId = ["a", "b"] := by
  decide

end InMemoryRunQueue

end Runtime
end FutureOs
