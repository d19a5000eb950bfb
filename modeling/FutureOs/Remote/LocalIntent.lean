import FutureOs.Remote.SyncLane

/-!
# Local intent outlives its lane

What `mutate` is given waits in the queue of the current lane, is carried to the lane that
replaces it, and is applied once, in the order of the calls.  `Balanced` is what the drain
keeps while the queue is out of the lane: the mutations applied, those in the batch and those
that came in the meantime are all there are, and the bytes of the events are the bytes of the
lane.

The batch of a drain that waits for the body of an event is in no lane.  A restart, an
overflow and a session that is off the screen when the body arrives do not see it, and a
reducer that throws leaves it; on runs whose steps are `Undisturbed` none of this happens.
-/

namespace FutureOs
namespace Remote

section Queue

variable {T : Type}

namespace QueuedOp

/-- The number of a mutation. -/
def id? : QueuedOp T → Option Nat
  | .event .. => none
  | .mutate id _ => some id

def eventBytes : QueuedOp T → Nat
  | .event _ bytes => bytes
  | .mutate .. => 0

end QueuedOp

/-- The mutations of a queue. -/
def mutationIds (ops : List (QueuedOp T)) : List Nat :=
  ops.filterMap QueuedOp.id?

/-- The bytes of the events of a queue. -/
def queuedBytes (ops : List (QueuedOp T)) : Nat :=
  (ops.map QueuedOp.eventBytes).sum

@[simp] theorem mutationIds_nil : mutationIds ([] : List (QueuedOp T)) = [] := rfl

@[simp] theorem mutationIds_event
    (e : LiveEvent)
    (bytes : Nat)
    (ops : List (QueuedOp T)) :
    mutationIds (.event e bytes :: ops) = mutationIds ops := rfl

@[simp] theorem mutationIds_mutate
    (id : Nat)
    (apply : T → Mutated T)
    (ops : List (QueuedOp T)) :
    mutationIds (.mutate id apply :: ops) = id :: mutationIds ops := rfl

@[simp] theorem mutationIds_append (ops ops' : List (QueuedOp T)) :
    mutationIds (ops ++ ops') = mutationIds ops ++ mutationIds ops' :=
  List.filterMap_append

@[simp] theorem queuedBytes_nil : queuedBytes ([] : List (QueuedOp T)) = 0 := rfl

@[simp] theorem queuedBytes_event
    (e : LiveEvent)
    (bytes : Nat)
    (ops : List (QueuedOp T)) :
    queuedBytes (.event e bytes :: ops) = bytes + queuedBytes ops := rfl

@[simp] theorem queuedBytes_mutate
    (id : Nat)
    (apply : T → Mutated T)
    (ops : List (QueuedOp T)) :
    queuedBytes (.mutate id apply :: ops) = queuedBytes ops := by
  simp [queuedBytes, QueuedOp.eventBytes]

@[simp] theorem queuedBytes_append (ops ops' : List (QueuedOp T)) :
    queuedBytes (ops ++ ops') = queuedBytes ops + queuedBytes ops' := by
  simp [queuedBytes]

/-- Without its events a queue has the same mutations. -/
theorem mutationIds_mutations (ops : List (QueuedOp T)) :
    mutationIds (ops.filter fun op => !op.isEvent) = mutationIds ops := by
  induction ops with
  | nil =>
      rfl
  | cons op ops ih =>
      cases op <;> simpa [QueuedOp.isEvent] using ih

theorem queuedBytes_mutations (ops : List (QueuedOp T)) :
    queuedBytes (ops.filter fun op => !op.isEvent) = 0 := by
  induction ops with
  | nil =>
      rfl
  | cons op ops ih =>
      cases op <;> simpa [QueuedOp.isEvent] using ih

theorem mutationIds_events
    {ops : List (QueuedOp T)}
    (h : ∀ op ∈ ops, op.isEvent = true) :
    mutationIds ops = [] := by
  induction ops with
  | nil =>
      rfl
  | cons op ops ih =>
      rw [List.forall_mem_cons] at h
      cases op with
      | event e bytes =>
          exact ih h.2
      | mutate id apply =>
          cases h.1

end Queue

/-! ## What a lane holds -/

namespace SyncLane

variable {T : Type}

/-- The part of the batch the drain has not come to. -/
def batch (lane : SyncLane T) : List (QueuedOp T) :=
  match lane.phase with
  | .hydrating e bytes rest _ => .event e bytes :: rest
  | _ => []

/-- The operations of the lane, those taken out for a drain first. -/
def holds (lane : SyncLane T) : List (QueuedOp T) :=
  lane.batch ++ lane.ops

/-- The mutations that changed the timeline are in the log. -/
def Shows (published : Option (T × MutationLog)) (applied : MutationLog) : Prop :=
  ∀ id, (id, true) ∈ applied → ∃ commit, published = some commit ∧ (id, true) ∈ commit.2

/-- What holds of a lane in which nothing is lost: there were `n` mutations. -/
structure Kept (n : Nat) (published : Option (T × MutationLog)) (lane : SyncLane T) : Prop where
  order : lane.applied.map Prod.fst ++ mutationIds lane.holds = List.range n
  bytes : lane.bufferedBytes = queuedBytes lane.holds
  shown : Shows published lane.applied
  waiting : ∀ e bytes rest drain, lane.phase = .hydrating e bytes rest drain →
    drain.applied = lane.applied ∧ drain.changed = false ∧ drain.unsaved = []

/-! Asking for a replay leaves the queue alone. -/

theorem enqueueReplay_queue (lane : SyncLane T) (request : ReconcileRequest) :
    (lane.enqueueReplay request).ops = lane.ops ∧
      (lane.enqueueReplay request).bufferedBytes = lane.bufferedBytes ∧
      (lane.enqueueReplay request).applied = lane.applied ∧
      (lane.enqueueReplay request).phase = lane.phase := by
  unfold enqueueReplay
  cases requiresFreshPrefix request.reason <;> simp only [if_true, Bool.false_eq_true, if_false]
  all_goals
    split
    · exact ⟨rfl, rfl, rfl, rfl⟩
    · split <;> exact ⟨rfl, rfl, rfl, rfl⟩

@[simp] theorem enqueueReplay_ops (lane : SyncLane T) (request : ReconcileRequest) :
    (lane.enqueueReplay request).ops = lane.ops :=
  (lane.enqueueReplay_queue request).1

@[simp] theorem enqueueReplay_bufferedBytes (lane : SyncLane T) (request : ReconcileRequest) :
    (lane.enqueueReplay request).bufferedBytes = lane.bufferedBytes :=
  (lane.enqueueReplay_queue request).2.1

@[simp] theorem enqueueReplay_applied (lane : SyncLane T) (request : ReconcileRequest) :
    (lane.enqueueReplay request).applied = lane.applied :=
  (lane.enqueueReplay_queue request).2.2.1

@[simp] theorem enqueueReplay_phase (lane : SyncLane T) (request : ReconcileRequest) :
    (lane.enqueueReplay request).phase = lane.phase :=
  (lane.enqueueReplay_queue request).2.2.2

/-- Lanes with the same queue and the same batch keep the same. -/
theorem Kept.congr
    {n : Nat}
    {published : Option (T × MutationLog)}
    {lane lane' : SyncLane T}
    (h : lane.Kept n published)
    (hops : lane'.ops = lane.ops)
    (hbytes : lane'.bufferedBytes = lane.bufferedBytes)
    (happlied : lane'.applied = lane.applied)
    (hphase : lane'.phase = lane.phase) :
    lane'.Kept n published := by
  have hholds : lane'.holds = lane.holds := by
    rw [holds, holds, batch, batch, hops, hphase]
  constructor
  · rw [happlied, hholds]
    exact h.order
  · rw [hbytes, hholds]
    exact h.bytes
  · rw [happlied]
    exact h.shown
  · rw [hphase, happlied]
    exact h.waiting

end SyncLane

/-! ## The drain -/

section Drain

variable {T : Type}
variable {reducer : Reducer T}
variable {reading : Reading}

/--
A drain with the operations `left` in its batch: with what came into the lane meanwhile they
are what is left of the `n` mutations and of the bytes.  The lane still has the log `base`.
-/
structure Balanced (n : Nat) (base : MutationLog) (left : List (QueuedOp T)) (drain : Drain T)
    (lane : SyncLane T) : Prop where
  order : drain.applied.map Prod.fst ++ mutationIds left ++ mutationIds lane.ops = List.range n
  bytes : lane.bufferedBytes = (queuedBytes left + queuedBytes lane.ops : Nat)
  stored : lane.applied = base
  unsaved : drain.applied.map Prod.fst = base.map Prod.fst ++ mutationIds drain.unsaved
  unchanged : drain.changed = false → ∀ id, (id, true) ∈ drain.applied → (id, true) ∈ base

variable {n : Nat}
variable {base : MutationLog}
variable {left rest : List (QueuedOp T)}
variable {drain drain' : Drain T}
variable {lane lane' : SyncLane T}

theorem Balanced.congr
    (h : Balanced n base left drain lane)
    (hops : lane'.ops = lane.ops)
    (hbytes : lane'.bufferedBytes = lane.bufferedBytes)
    (happlied : lane'.applied = lane.applied) :
    Balanced n base left drain lane' where
  order := by rw [hops]; exact h.order
  bytes := by rw [hbytes, hops]; exact h.bytes
  stored := happlied.trans h.stored
  unsaved := h.unsaved
  unchanged := h.unchanged

/-- The batch is put back in front of the queue. -/
theorem Balanced.putBack
    (h : Balanced n base left drain lane) :
    Balanced n base [] drain { lane with ops := left ++ lane.ops } where
  order := by simpa using h.order
  bytes := by simpa using h.bytes
  stored := h.stored
  unsaved := h.unsaved
  unchanged := h.unchanged

/-- The event at the head is taken. -/
theorem Balanced.spend
    {e : LiveEvent}
    {bytes : Nat}
    (h : Balanced n base (.event e bytes :: rest) drain lane)
    (cursor : RunCursor) :
    Balanced n base rest drain
      { lane with
        cursor := cursor
        bufferedBytes := lane.bufferedBytes - bytes } where
  order := h.order
  bytes := by
    have hbytes := h.bytes
    rw [queuedBytes_event] at hbytes
    show lane.bufferedBytes - bytes = (queuedBytes rest + queuedBytes lane.ops : Nat)
    omega
  stored := h.stored
  unsaved := h.unsaved
  unchanged := h.unchanged

theorem Balanced.append
    (h : Balanced n base left drain lane)
    {e : LiveEvent}
    (happend : drain.append reducer e = some drain') :
    Balanced n base left drain' lane ∧ drain'.unsaved = drain.unsaved := by
  obtain ⟨timeline, -, rfl⟩ := Option.map_eq_some_iff.1 happend
  exact ⟨⟨h.order, h.bytes, h.stored, h.unsaved, fun hchanged => by cases hchanged⟩, rfl⟩

theorem Balanced.next
    (h : Balanced n base left drain lane) :
    Balanced n base left drain.next lane :=
  ⟨h.order, h.bytes, h.stored, h.unsaved, h.unchanged⟩

/-- A mutation has run; where it changed the timeline, the drain says so. -/
theorem Balanced.ran
    {id : Nat}
    {apply : T → Mutated T}
    (h : Balanced n base (.mutate id apply :: rest) drain lane)
    {changed : Bool}
    (htimeline : drain'.applied = drain.applied ∧ drain'.unsaved = drain.unsaved)
    (hchanged : drain'.changed = (drain.changed || changed)) :
    Balanced n base rest (drain'.ran (.mutate id apply) id changed).next lane where
  order := by
    have horder := h.order
    simpa [Drain.ran, Drain.next, htimeline.1] using horder
  bytes := by simpa using h.bytes
  stored := h.stored
  unsaved := by
    simp [Drain.ran, Drain.next, htimeline, h.unsaved]
  unchanged := by
    intro hfalse id' hmem
    change drain'.changed = false at hfalse
    rw [hchanged, Bool.or_eq_false_iff] at hfalse
    obtain ⟨hdrain, rfl⟩ := hfalse
    have hmem' : (id', true) ∈ drain'.applied := by simpa [Drain.ran, Drain.next] using hmem
    exact h.unchanged hdrain id' (htimeline.1 ▸ hmem')

/-- What an event leaves, however the drain goes on. -/
def EventKept (n : Nat) (base : MutationLog) (rest : List (QueuedOp T)) (drain : Drain T) :
    EventEnd T → Prop
  | .goOn drain' lane =>
      Balanced n base rest drain' lane ∧ drain'.unsaved = drain.unsaved
  | .stop lane => Balanced n base [] drain lane
  | .threw lane => Balanced n base rest drain lane

theorem Balanced.applied
    (h : Balanced n base rest drain lane)
    (reducer : Reducer T)
    (e : LiveEvent) :
    EventKept n base rest drain (applied reducer drain e lane) := by
  unfold Remote.applied
  cases happend : drain.append reducer e with
  | none =>
      exact h
  | some drain' =>
      exact h.append happend

/-- One event: where the drain goes on, the rest is left in the batch. -/
theorem Balanced.takeEvent
    {e : LiveEvent}
    {bytes : Nat}
    (h : Balanced n base (.event e bytes :: rest) drain lane)
    (reducer : Reducer T)
    (reading : Reading)
    (e' : LiveEvent) :
    EventKept n base rest drain
      (takeEvent reducer reading (.event e bytes) rest e' bytes drain lane) := by
  unfold Remote.takeEvent
  dsimp only
  split
  · exact (h.spend lane.cursor).applied reducer e'
  · split
    · -- overlap
      rename_i cursor _
      refine ⟨?_, rfl⟩
      split
      · exact (h.spend cursor).congr (by simp) (by simp) (by simp)
      · exact h.spend cursor
    · -- gap
      rename_i cursor _
      have hkept : Balanced n base [] drain
          { lane with
            cursor := cursor
            ops := .event e bytes :: rest ++ lane.ops } :=
        h.putBack.congr rfl rfl rfl
      split
      · split
        · exact hkept.congr (by simp [SyncLane.backOff]) (by simp [SyncLane.backOff])
            (by simp [SyncLane.backOff])
        · exact hkept.congr (by simp) (by simp) (by simp)
      · exact hkept
    · -- dup
      exact ⟨h.spend _, rfl⟩
    · -- apply
      rename_i idx cursor _
      have happlied := (h.spend (cursor.advance (e'.runId.getD "") idx false)).applied
        reducer e'
      split
      · rename_i hgoOn
        rw [hgoOn] at happlied
        refine ⟨?_, happlied.2⟩
        split
        · exact happlied.1.congr (by simp) (by simp) (by simp)
        · exact happlied.1
      · exact happlied
    · -- untracked
      exact (h.spend _).applied reducer e'

/-- What a drain leaves, however it comes to rest. -/
def DrainKept (n : Nat) (base : MutationLog) : DrainEnd T → Prop
  | .finished drain lane => Balanced n base [] drain lane
  | .suspended e bytes rest drain lane => Balanced n base (.event e bytes :: rest) drain lane
  | .threw lane lost => lost = [] →
      base.map Prod.fst ++ mutationIds lane.ops = List.range n ∧
        lane.bufferedBytes = queuedBytes lane.ops ∧ lane.applied = base

/-- A drain that threw with nothing else in hand has lost nothing. -/
theorem Balanced.threw
    (h : Balanced n base rest drain lane) :
    DrainKept n base (.threw lane (drain.unsaved ++ rest)) := by
  intro hlost
  obtain ⟨hunsaved, rfl⟩ := List.append_eq_nil_iff.1 hlost
  have horder := h.order
  rw [h.unsaved, hunsaved] at horder
  exact ⟨by simpa using horder, by simpa using h.bytes, h.stored⟩

theorem Balanced.drainOps
    (h : Balanced n base left drain lane) :
    DrainKept n base (drainOps reducer reading left drain lane) := by
  induction left generalizing drain lane with
  | nil =>
      exact h
  | cons op rest ih =>
      rw [Remote.drainOps.eq_def]
      dsimp only
      split
      · exact h.putBack
      · cases op with
        | mutate id apply =>
            dsimp only
            split
            · exact ih (h.ran ⟨rfl, rfl⟩ (by simp))
            · exact ih (h.ran ⟨rfl, rfl⟩ (by simp))
            · intro hlost
              simp at hlost
        | event e bytes =>
            dsimp only
            split
            · exact h
            · have hkept := h.takeEvent reducer reading e
              split
              · rename_i hgoOn
                rw [hgoOn] at hkept
                exact ih hkept.1.next
              · rename_i hstop
                rw [hstop] at hkept
                exact hkept
              · rename_i hthrew
                rw [hthrew] at hkept
                exact Balanced.threw hkept

end Drain

/-! ## Steps of the current lane -/

namespace SyncLane

variable {T : Type}
variable {reducer : Reducer T}
variable {current : Option (SyncLane T)}
variable {reading : Reading}
variable {n : Nat}
variable {published : Option (T × MutationLog)}
variable {lane : SyncLane T}

/-- What a step leaves of a lane, with what it commits. -/
def MoveKept (n : Nat) (published : Option (T × MutationLog)) (move : LaneMove T) : Prop :=
  move.lost = [] → move.lane.Kept n (move.commit.or published)

theorem Kept.quiet
    (h : lane.Kept n published) :
    MoveKept n published lane.quiet :=
  fun _ => h

/-- The log of a drain is shown once the drain is saved. -/
theorem shows_commits
    {base : MutationLog}
    {left : List (QueuedOp T)}
    {drain : Drain T}
    (h : Balanced n base left drain lane)
    (hshown : Shows published base) :
    Shows ((Commits drain).or published) drain.applied := by
  intro id hid
  cases hchanged : drain.changed with
  | true =>
      exact ⟨_, by rw [Commits, hchanged]; rfl, hid⟩
  | false =>
      obtain ⟨commit, hcommit, hmem⟩ := hshown id (h.unchanged hchanged id hid)
      exact ⟨commit, by rw [Commits, hchanged]; exact hcommit, hmem⟩

theorem moveKept_finish
    {base : MutationLog}
    {drain : Drain T}
    (h : Balanced n base [] drain lane)
    (hshown : Shows published base) :
    MoveKept n published (lane.finish reducer current drain) := by
  intro _
  have hsaved : ((lane.save drain).rest drain).Kept n ((Commits drain).or published) := by
    constructor
    · simpa [SyncLane.rest, save, holds, batch] using h.order
    · simpa [SyncLane.rest, save, holds, batch] using h.bytes
    · exact shows_commits h hshown
    · intro e bytes left drain hphase
      cases hphase
  unfold finish
  dsimp only
  split
  · split
    · exact hsaved.congr (by simp [SyncLane.rest]) (by simp [SyncLane.rest])
        (by simp [SyncLane.rest]) rfl
    · exact hsaved
  · exact hsaved

theorem moveKept_settle
    {base : MutationLog}
    {ended : DrainEnd T}
    (h : DrainKept n base ended)
    (hshown : Shows published base) :
    MoveKept n published (settle reducer current ended) := by
  cases ended with
  | finished drain lane =>
      exact moveKept_finish h hshown
  | suspended e bytes rest drain lane =>
      intro _
      have horder := h.order
      constructor
      · simpa [settle, save, holds, batch] using horder
      · simpa [settle, save, holds, batch, add_assoc] using h.bytes
      · exact shows_commits h hshown
      · intro e' bytes' rest' drain' hphase
        cases hphase
        exact ⟨rfl, rfl, rfl⟩
  | threw lane lost =>
      intro hlost
      obtain ⟨horder, hbytes, hstored⟩ := h hlost
      constructor
      · simpa [settle, holds, batch, hstored] using horder
      · simpa [settle, holds, batch] using hbytes
      · rw [← hstored] at hshown
        exact hshown
      · intro e' bytes' rest' drain' hphase
        cases hphase

/-- A lane at rest is drained. -/
theorem Kept.applyOps
    (h : lane.Kept n published)
    (hidle : lane.batch = [])
    (justReconciledRun : Option String)
    (request : Bool) :
    MoveKept n published
      (lane.applyOps reducer current reading justReconciledRun request) := by
  have horder := h.order
  have hbytes := h.bytes
  rw [holds, hidle, List.nil_append] at horder hbytes
  have hbalanced : Balanced n lane.applied lane.ops
      (lane.startDrain reducer justReconciledRun request) lane.takeOps := by
    refine ⟨?_, ?_, rfl, ?_, fun _ _ hmem => hmem⟩
    · simpa [startDrain, takeOps] using horder
    · simpa [takeOps] using hbytes
    · simp [startDrain]
  exact moveKept_settle hbalanced.drainOps h.shown

/-- The body of an event arrives while the session is on the screen. -/
theorem Kept.resume
    (h : lane.Kept n published)
    {read : Option LiveEvent}
    {e : LiveEvent}
    {bytes : Nat}
    {rest : List (QueuedOp T)}
    {drain : Drain T}
    (hphase : lane.phase = .hydrating e bytes rest drain) :
    MoveKept n published
      (lane.resume reducer current reading true read e bytes rest drain) := by
  obtain ⟨happlied, hchanged, hunsaved⟩ := h.waiting e bytes rest drain hphase
  have horder := h.order
  have hbytes := h.bytes
  rw [holds, batch, hphase] at horder hbytes
  have hbalanced : Balanced n lane.applied (.event e bytes :: rest) drain lane := by
    refine ⟨?_, ?_, rfl, ?_, fun _ _ hmem => happlied ▸ hmem⟩
    · simpa [happlied] using horder
    · simpa [add_assoc] using hbytes
    · simp [happlied, hunsaved]
  unfold SyncLane.resume
  rw [if_neg (by simp)]
  cases read with
  | none =>
      exact moveKept_finish (hbalanced.putBack.congr (by simp) (by simp) (by simp)) h.shown
  | some e' =>
      have hkept := hbalanced.takeEvent reducer reading e'
      dsimp only
      split
      · rename_i hgoOn
        rw [hgoOn] at hkept
        exact moveKept_settle hkept.1.next.drainOps h.shown
      · rename_i hstop
        rw [hstop] at hkept
        exact moveKept_finish hkept h.shown
      · rename_i hthrew
        rw [hthrew] at hkept
        exact moveKept_settle (Balanced.threw hkept) h.shown

/-- A body arrives only while the session is on the screen. -/
def Arrives (isVisible : Bool) (lane : SyncLane T) : LaneStep T → Prop
  | .hydrated .. => lane.batch ≠ [] → isVisible = true
  | _ => True

/-- Lanes without a batch, with the same queue, keep the same. -/
theorem Kept.same
    (h : lane.Kept n published)
    {lane' : SyncLane T}
    (hbatch : lane.batch = [])
    (hbatch' : lane'.batch = [])
    (hops : lane'.ops = lane.ops)
    (hbytes : lane'.bufferedBytes = lane.bufferedBytes)
    (happlied : lane'.applied = lane.applied) :
    lane'.Kept n published := by
  have hholds : lane'.holds = lane.holds := by
    rw [holds, holds, hbatch, hbatch', hops]
  refine ⟨?_, ?_, ?_, ?_⟩
  · rw [happlied, hholds]
    exact h.order
  · rw [hbytes, hholds]
    exact h.bytes
  · rw [happlied]
    exact h.shown
  · intro e bytes rest drain hphase
    rw [batch, hphase] at hbatch'
    cases hbatch'

theorem Kept.step
    (h : lane.Kept n published)
    (reducer : Reducer T)
    (current : Option (SyncLane T))
    {isVisible : Bool}
    (laneStep : LaneStep T)
    (harrives : lane.Arrives isVisible laneStep) :
    MoveKept n published (lane.step reducer current isVisible isVisible laneStep) := by
  cases laneStep with
  | begin reading =>
      cases hphase : lane.phase with
      | idle =>
          have hbatch : lane.batch = [] := by rw [batch, hphase]
          simp only [SyncLane.step, hphase]
          split
          · exact h.quiet
          · cases hqueue : lane.replayQueue with
            | nil =>
                exact h.applyOps hbatch none false
            | cons request queue =>
                exact Kept.quiet (h.same hbatch rfl rfl rfl rfl)
      | _ =>
          simp only [SyncLane.step, hphase]
          exact h.quiet
  | store timeline =>
      cases hphase : lane.phase with
      | reconciling version =>
          have hbatch : lane.batch = [] := by rw [batch, hphase]
          simp only [SyncLane.step, hphase]
          split
          · intro _
            have hkept : lane.Kept n (some (timeline, lane.applied)) :=
              ⟨h.order, h.bytes, fun id hid => ⟨_, rfl, hid⟩, h.waiting⟩
            exact hkept.same hbatch rfl rfl rfl rfl
          · exact h.quiet
      | _ =>
          simp only [SyncLane.step, hphase]
          exact h.quiet
  | storeCursor cursor =>
      cases hphase : lane.phase with
      | reconciling version =>
          have hbatch : lane.batch = [] := by rw [batch, hphase]
          simp only [SyncLane.step, hphase]
          split
          · exact Kept.quiet (h.same hbatch rfl rfl rfl rfl)
          · exact h.quiet
      | _ =>
          simp only [SyncLane.step, hphase]
          exact h.quiet
  | reconciled success invalidates reading =>
      cases hphase : lane.phase with
      | reconciling version =>
          have hbatch : lane.batch = [] := by rw [batch, hphase]
          cases hrequest : lane.reconciling with
          | none =>
              simp only [SyncLane.step, hphase, hrequest]
              exact h.quiet
          | some request =>
              simp only [SyncLane.step, hphase, hrequest]
              split
              · refine Kept.applyOps ?_ ?_ request.runId true
                · exact h.same hbatch rfl rfl rfl rfl
                · rfl
              · cases invalidates <;> split
                all_goals exact Kept.quiet (h.same hbatch rfl rfl rfl rfl)
      | _ =>
          simp only [SyncLane.step, hphase]
          exact h.quiet
  | hydrated read reading =>
      cases hphase : lane.phase with
      | hydrating e bytes rest drain =>
          obtain rfl := harrives (by simp [batch, hphase])
          simp only [SyncLane.step, hphase]
          exact h.resume hphase
      | _ =>
          simp only [SyncLane.step, hphase]
          exact h.quiet

end SyncLane

/-- Off the screen nothing is committed. -/
theorem SyncLane.commit_of_hidden
    {T : Type}
    (reducer : Reducer T)
    (current : Option (SyncLane T))
    (lane : SyncLane T)
    (laneStep : LaneStep T) :
    (lane.step reducer current false false laneStep).commit = none := by
  cases laneStep with
  | begin reading =>
      cases hphase : lane.phase <;> simp [SyncLane.step, hphase, SyncLane.quiet]
  | store timeline =>
      cases hphase : lane.phase <;> simp [SyncLane.step, hphase, SyncLane.quiet]
  | storeCursor cursor =>
      cases hphase : lane.phase <;> simp [SyncLane.step, hphase, SyncLane.quiet]
  | reconciled success invalidates reading =>
      cases hphase : lane.phase <;> cases hrequest : lane.reconciling <;>
        simp [SyncLane.step, hphase, hrequest, SyncLane.quiet]
  | hydrated read reading =>
      cases hphase : lane.phase <;> simp [SyncLane.step, hphase, SyncLane.resume, SyncLane.quiet]

/-! ## Calls of the session -/

namespace SyncLane

variable {T : Type}
variable {n : Nat}
variable {published : Option (T × MutationLog)}
variable {lane : SyncLane T}

@[simp] theorem enqueueReplay_batch (lane : SyncLane T) (request : ReconcileRequest) :
    (lane.enqueueReplay request).batch = lane.batch := by
  rw [batch, batch, enqueueReplay_phase]

theorem Kept.enqueueReplay
    (h : lane.Kept n published)
    (request : ReconcileRequest) :
    (lane.enqueueReplay request).Kept n published :=
  h.congr (by simp) (by simp) (by simp) (by simp)

theorem Kept.push
    (h : lane.Kept n published)
    (e : LiveEvent) :
    (lane.push e).Kept n published where
  order := by
    have horder := h.order
    simpa [SyncLane.push, holds, batch] using horder
  bytes := by
    have hbytes := h.bytes
    simp only [holds, queuedBytes_append] at hbytes
    show lane.bufferedBytes + (e.bytes : Int) =
      (queuedBytes (lane.batch ++ (lane.ops ++ [.event e e.bytes])) : Nat)
    simp only [queuedBytes_append, queuedBytes_event, queuedBytes_nil]
    omega
  shown := h.shown
  waiting := h.waiting

/-- Dropping the queued events keeps the mutations. -/
theorem Kept.dropEvents
    (h : lane.Kept n published)
    (hbatch : lane.batch = []) :
    lane.dropEvents.Kept n published where
  order := by
    have horder := h.order
    rw [holds, hbatch, List.nil_append] at horder
    show lane.applied.map Prod.fst ++
      mutationIds (lane.batch ++ lane.ops.filter fun op => !op.isEvent) = _
    rw [hbatch, List.nil_append, mutationIds_mutations, horder]
  bytes := by
    show (0 : Int) = (queuedBytes (lane.batch ++ lane.ops.filter fun op => !op.isEvent) : Nat)
    rw [hbatch, List.nil_append, queuedBytes_mutations]
    rfl
  shown := h.shown
  waiting := h.waiting

theorem Kept.event
    (h : lane.Kept n published)
    (sessionId : String)
    (e : LiveEvent)
    (hoverflow : lane.overflows e = true → lane.batch = []) :
    (lane.event sessionId e).Kept n published := by
  have hestablished : ∀ lane' : SyncLane T, lane'.Kept n published →
      (lane'.overflows e = true → lane'.batch = []) →
      (if lane'.overflows e then
        let lane := lane'.dropEvents.enqueueReplay ⟨.prefix_, none⟩
        if maxBufferedBytes < e.bytes then lane else lane.push e
      else
        lane'.push e).Kept n published := by
    intro lane' h hoverflow
    split
    · rename_i hover
      have hdropped := (h.dropEvents (hoverflow hover)).enqueueReplay ⟨.prefix_, none⟩
      dsimp only
      split
      · exact hdropped
      · exact hdropped.push e
    · exact h.push e
  unfold SyncLane.event
  dsimp only
  split
  · refine hestablished _ (h.enqueueReplay _) ?_
    simpa [overflows] using hoverflow
  · exact hestablished lane h hoverflow

/-- A call of `mutate`. -/
theorem Kept.mutate
    (h : lane.Kept n published)
    (apply : T → Mutated T) :
    Kept (n + 1) published { lane with ops := lane.ops ++ [.mutate n apply] } where
  order := by
    have horder := h.order
    rw [holds, mutationIds_append] at horder
    show lane.applied.map Prod.fst ++
      mutationIds (lane.batch ++ (lane.ops ++ [.mutate n apply])) = _
    rw [List.range_succ, ← horder]
    simp
  bytes := by
    have hbytes := h.bytes
    rw [holds, queuedBytes_append] at hbytes
    show lane.bufferedBytes = (queuedBytes (lane.batch ++ (lane.ops ++ [.mutate n apply])) : Nat)
    rw [hbytes]
    simp
  shown := h.shown
  waiting := h.waiting

/-- The lane that replaces one without mutations in its batch has them all. -/
theorem Kept.successor
    (h : lane.Kept n published)
    (hbatch : ∀ op ∈ lane.batch, op.isEvent = true)
    (reason : ReconcileReason) :
    (SyncLane.successor (some lane) reason).Kept n published := by
  have horder := h.order
  rw [holds, mutationIds_append, mutationIds_events hbatch, List.nil_append] at horder
  rw [SyncLane.successor]
  refine Kept.enqueueReplay ?_ _
  refine ⟨?_, ?_, h.shown, fun _ _ _ _ hphase => by cases hphase⟩
  · show lane.applied.map Prod.fst ++
      mutationIds ([] ++ lane.ops.filter fun op => !op.isEvent) = _
    rw [List.nil_append, mutationIds_mutations, horder]
  · show (0 : Int) = (queuedBytes ([] ++ lane.ops.filter fun op => !op.isEvent) : Nat)
    rw [List.nil_append, queuedBytes_mutations]
    rfl

theorem Kept.invalidateBaseline
    (h : lane.Kept n published) :
    lane.invalidateBaseline.Kept n published :=
  h.congr rfl rfl rfl rfl

end SyncLane

/-! ## Runs of the session -/

namespace SyncSession

variable {T : Type}
variable {reducer : Reducer T}

/--
Nothing is lost with a drain: no event overflows the queue and no restart finds mutations in
the batch while the drain waits for a body, the session is on the screen when the body
arrives, and a drain that throws holds nothing else.
-/
def Undisturbed (reducer : Reducer T) (s : SyncSession T) : SyncStep T → Prop
  | .event e =>
      s.isVisible = true → ∀ lane, s.current = some lane → lane.overflows e = true →
        lane.batch = []
  | .restart _ =>
      s.sessionId ≠ "" → s.isVisible = true → ∀ lane, s.current = some lane →
        ∀ op ∈ lane.batch, op.isEvent = true
  | .lane laneStep =>
      ∀ lane, s.current = some lane → lane.Arrives s.isVisible laneStep ∧
        (lane.step reducer none s.isVisible s.isVisible laneStep).lost = []
  | _ => True

local instance decidableForallSome
    {α : Type}
    {found : Option α}
    {p : α → Prop}
    [∀ a, Decidable (p a)] :
    Decidable (∀ a, found = some a → p a) :=
  match found with
  | none => isTrue fun a h => by cases h
  | some a => decidable_of_iff (p a) ⟨fun h a' h' => Option.some.inj h' ▸ h, fun h => h a rfl⟩

instance decidableArrives (isVisible : Bool) (lane : SyncLane T) (laneStep : LaneStep T) :
    Decidable (lane.Arrives isVisible laneStep) := by
  cases laneStep <;> simp only [SyncLane.Arrives] <;> infer_instance

instance decidableUndisturbed (s : SyncSession T) (op : SyncStep T) :
    Decidable (s.Undisturbed reducer op) := by
  cases op <;> simp only [Undisturbed] <;> infer_instance

/-- What `mutate` promises. -/
structure IntentKept (s : SyncSession T) : Prop where
  /-- All mutations, in the order of the calls: the applied ones, then those the lane holds. -/
  order : ∀ lane, s.current = some lane →
    lane.applied.map Prod.fst ++ mutationIds lane.holds = List.range s.mutations
  /-- With the queue drained every mutation is applied. -/
  drained : ∀ lane, s.current = some lane → lane.holds = [] →
    lane.applied.map Prod.fst = List.range s.mutations
  /-- What was applied, and changed anything, is in the last commit. -/
  shown : ∀ lane, s.current = some lane → SyncLane.Shows s.published lane.applied
  bytes : ∀ lane, s.current = some lane → lane.bufferedBytes = queuedBytes lane.holds
  /-- Without a lane there was no mutation. -/
  fresh : s.current = none → s.mutations = 0

/-- The current lane is kept. -/
structure Sound (s : SyncSession T) : Prop where
  kept : ∀ lane, s.current = some lane → lane.Kept s.mutations s.published
  fresh : s.current = none → s.mutations = 0

theorem Sound.intentKept
    {s : SyncSession T}
    (h : s.Sound) :
    s.IntentKept where
  order lane hlane := (h.kept lane hlane).order
  drained := by
    intro lane hlane hholds
    simpa [hholds] using (h.kept lane hlane).order
  shown lane hlane := (h.kept lane hlane).shown
  bytes lane hlane := (h.kept lane hlane).bytes
  fresh := h.fresh

theorem kept_new (published : Option (T × MutationLog)) :
    (SyncLane.new : SyncLane T).Kept 0 published where
  order := rfl
  bytes := rfl
  shown := by
    intro id hid
    cases hid
  waiting := by
    intro e bytes rest drain hphase
    cases hphase

theorem Sound.laneFor
    {s : SyncSession T}
    (h : s.Sound) :
    s.laneFor.Kept s.mutations s.published := by
  unfold SyncSession.laneFor
  cases hcurrent : s.current with
  | none =>
      rw [h.fresh hcurrent]
      exact kept_new s.published
  | some lane =>
      exact h.kept lane hcurrent

theorem Sound.withLane
    {s : SyncSession T}
    {lane : SyncLane T}
    (h : lane.Kept s.mutations s.published) :
    Sound { s with current := some lane } where
  kept := by
    rintro lane' ⟨⟩
    exact h
  fresh := by
    intro hnone
    cases hnone

theorem Sound.step
    {s : SyncSession T}
    (h : s.Sound)
    (op : SyncStep T)
    (hop : s.Undisturbed reducer op) :
    (s.step reducer op).Sound := by
  cases op with
  | event e =>
      unfold SyncSession.step
      dsimp only
      split
      · rename_i hvisible
        refine Sound.withLane (h.laneFor.event s.sessionId e ?_)
        intro hoverflow
        cases hcurrent : s.current with
        | none =>
            simp [SyncSession.laneFor, hcurrent, SyncLane.batch, SyncLane.new]
        | some lane =>
            simp only [SyncSession.laneFor, hcurrent, Option.getD_some] at hoverflow ⊢
            exact hop hvisible lane hcurrent hoverflow
      · exact h
  | reconcile reason runId =>
      unfold SyncSession.step
      dsimp only
      split
      · exact Sound.withLane (h.laneFor.enqueueReplay _)
      · split
        · cases hcurrent : s.current with
          | none =>
              refine ⟨?_, fun _ => h.fresh hcurrent⟩
              intro lane hlane
              cases hlane
          | some lane =>
              exact Sound.withLane (h.kept lane hcurrent).invalidateBaseline
        · exact h
  | mutate apply =>
      refine ⟨?_, fun hnone => by cases hnone⟩
      rintro lane ⟨⟩
      exact h.laneFor.mutate apply
  | restart reason =>
      unfold SyncSession.step
      dsimp only
      split
      · exact h
      · rename_i hrestart
        simp only [Bool.or_eq_true, decide_eq_true_eq, Bool.not_eq_true', not_or,
          Bool.not_eq_false] at hrestart
        cases hcurrent : s.current with
        | none =>
            have hnew := (kept_new s.published).enqueueReplay ⟨reason, none⟩
            rw [← h.fresh hcurrent] at hnew
            refine ⟨?_, fun hnone => by cases hnone⟩
            rintro lane ⟨⟩
            exact hnew
        | some lane =>
            have hnext := (h.kept lane hcurrent).successor
              (hop hrestart.1 hrestart.2 lane hcurrent) reason
            refine ⟨?_, fun hnone => by cases hnone⟩
            rintro lane' ⟨⟩
            exact hnext
  | visibility visible =>
      exact ⟨h.kept, h.fresh⟩
  | lane laneStep =>
      cases hcurrent : s.current with
      | none =>
          simpa only [SyncSession.step, hcurrent] using h
      | some lane =>
          obtain ⟨harrives, hlost⟩ := hop lane hcurrent
          have hmove := (h.kept lane hcurrent).step reducer none laneStep harrives hlost
          simp only [SyncSession.step, hcurrent]
          refine ⟨?_, fun hnone => by cases hnone⟩
          rintro lane' ⟨⟩
          cases hvisible : s.isVisible with
          | true =>
              rw [hvisible] at hmove
              exact hmove
          | false =>
              rw [hvisible, SyncLane.commit_of_hidden] at hmove
              exact hmove
  | retired index laneStep =>
      unfold SyncSession.step
      dsimp only
      split
      · exact h
      · exact ⟨h.kept, h.fresh⟩

theorem sound_start (sessionId : String) : (start sessionId : SyncSession T).Sound where
  kept := by
    intro lane hlane
    cases hlane
  fresh := fun _ => rfl

/--
On undisturbed runs every mutation is applied once, in the order of the calls, is in the last
commit once the queue is drained, and the bytes of the lane are those of its events.
-/
theorem intent_outlives_lane
    (reducer : Reducer T)
    (sessionId : String)
    (ops : List (SyncStep T))
    (h : Machine.Guarded (step reducer) (Undisturbed reducer) (start sessionId) ops)
    (k : Nat) :
    (Machine.run (step reducer) (start sessionId) (ops.take k)).IntentKept := by
  have hprefix : Machine.Guarded (step reducer) (Undisturbed reducer) (start sessionId)
      (ops.take k) := by
    rw [← List.take_append_drop k ops, Machine.guarded_append] at h
    exact h.1
  have hsound : Sound (Machine.run (step reducer) (start sessionId) (ops.take k)) :=
    hprefix.invariant (fun s op hs hop => hs.step op hop) (sound_start sessionId)
  exact hsound.intentKept

/-! ## A mutation behind a large event -/

/-- A timeline of texts. -/
def textReducer : Reducer (List String) where
  emptyTimeline := []
  append timeline e := some (timeline ++ [e.kind])
  streaming _ := false

def wholeBatch : Reading where
  now := 0
  late := liveOpBatchSize
  feedOmitsIndices := false

/-- The first event of a run, with a body of `units` UTF-16 units. -/
def firstEvent (units : Nat) : LiveEvent where
  kind := "text_chunk"
  runId := some "r1"
  idx := some 0
  coalescedCount := none
  data := none
  units := units
  mentionsRefs := false
  hasPayload := false
  size := units + 64
  size_pos := by omega

/-- An event and a mutation wait for the first reconcile, then the lane is replaced. -/
def restartedSteps (units : Nat) : List (SyncStep (List String)) :=
  [.event (firstEvent units), .mutate fun timeline => .next (timeline ++ ["bubble"]),
    .lane (.begin wholeBatch), .lane (.store ["history"]),
    .lane (.reconciled true false wholeBatch), .restart .reconnect]

/-- The large event waits for its body with the mutation behind it: the restart finds neither. -/
theorem restart_loses_mutation :
    ¬ (Machine.run (step textReducer) (start "s1") (restartedSteps 40000)).IntentKept := by
  intro h
  have hcurrent : (Machine.run (step textReducer) (start "s1")
      (restartedSteps 40000)).current.map
        (fun lane => lane.applied.map Prod.fst ++ mutationIds lane.holds) = some [] := by
    decide +kernel
  obtain ⟨lane, hlane, hnothing⟩ := Option.map_eq_some_iff.1 hcurrent
  have horder := h.order lane hlane
  rw [hnothing] at horder
  exact absurd horder (by decide +kernel)

/-- With a small event the queue is drained before the restart. -/
theorem intent_outlives_lane_small_event :
    Machine.Guarded (step textReducer) (Undisturbed textReducer) (start "s1")
        (restartedSteps 100) ∧
      (Machine.run (step textReducer) (start "s1")
        ((restartedSteps 100).take 6)).IntentKept := by
  have hguarded : Machine.Guarded (step textReducer) (Undisturbed textReducer) (start "s1")
      (restartedSteps 100) := by
    decide +kernel
  exact ⟨hguarded, intent_outlives_lane textReducer "s1" (restartedSteps 100) hguarded 6⟩

end SyncSession

end Remote
end FutureOs
