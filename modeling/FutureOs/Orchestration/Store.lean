import FutureOs.Orchestration.Replay
import FutureOs.Orchestration.TaskGraph
import FutureOs.Orchestration.WorkspaceGuard

/-!
# The event store

The ledger file of a goal as its lines, each an event under its id.  An append is
skipped where the same event is recorded already, and refused where its id is taken by
another; a reader collapses equal lines.  A claim decides on a replay under the lock of
the file and writes its lines without looking for equal ones.

`derive` is the content-derived id of an event; `deriveEventId` is the one of the code,
for the text an event serialises to.
-/

namespace FutureOs
namespace Orchestration

/-- `content_digest`: the FNV-1a digest of a text, in sixteen hexadecimal digits. -/
def contentDigest (bytes : List UInt8) : String :=
  let hash := bytes.foldl
    (fun hash b => (hash ^^^ b.toUInt64) * 0x00000100000001b3) (0xcbf29ce484222325 : UInt64)
  let digits := Nat.toDigits 16 hash.toNat
  String.ofList (List.replicate (16 - digits.length) '0' ++ digits)

/-- `derive_event_id`, for the serialised form of an event. -/
def deriveEventId (serialize : Event → List UInt8) (event : Event) : String :=
  "evt-" ++ contentDigest (serialize event)

/-- One line of the ledger. -/
structure StoredEvent where
  eventId : String
  event : Event
deriving DecidableEq

/-- The id of the line, or of its content where it has none. -/
def StoredEvent.effectiveId (derive : Event → String) (stored : StoredEvent) : String :=
  if stored.eventId = "" then derive stored.event else stored.eventId

/-- The line of an event under its content-derived id. -/
def storedAs (derive : Event → String) (event : Event) : StoredEvent where
  eventId := derive event
  event := event

/-- Append one line unless it is recorded already. -/
def appendEventLocked (lines : List StoredEvent) (stored : StoredEvent)
    (validate : List StoredEvent → Except String Unit) : Except String (List StoredEvent) :=
  match lines.find? fun line => line.eventId = stored.eventId with
  | some line =>
      if line.event = stored.event then
        .ok lines
      else
        .error ("conflicting event_id `" ++ stored.eventId ++
          "` — same id, different content (StateEventConflictError)")
  | none => do
      validate lines
      .ok (lines ++ [stored])

/-- One line of `parse_ledger`: an equal line collapses, an unequal one is an error. -/
def parseLine (derive : Event → String) (out : List StoredEvent) (stored : StoredEvent) :
    Except String (List StoredEvent) :=
  match out.find? fun prior => prior.effectiveId derive = stored.effectiveId derive with
  | some prior =>
      if prior.event = stored.event then
        .ok out
      else
        .error ("conflicting event_id `" ++ stored.effectiveId derive ++
          "` (StateEventConflictError)")
  | none => .ok (out ++ [stored])

def parseLedger (derive : Event → String) (lines : List StoredEvent) :
    Except String (List StoredEvent) :=
  lines.foldlM (parseLine derive) []

/-- `Store::append`, with the lines after it and the id it returns. -/
def append (derive : Event → String) (entry : Option RegistryEntry)
    (lines : List StoredEvent) (event : Event) :
    Except String (List StoredEvent × String) := do
  ensure entry.isSome
    ("goal `" ++ event.goalId ++ "` is not registered — register before appending events")
  let lines' ← appendEventLocked lines (storedAs derive event) fun _ => .ok ()
  .ok (lines', derive event)

/-- The goal folded from what a reader keeps of the lines. -/
def foldLedger (derive : Event → String) (now : Nat) (entry : RegistryEntry)
    (lines : List StoredEvent) : Except String Goal := do
  let stored ← parseLedger derive lines
  .ok (Machine.run (apply now) (Goal.new now entry.goalId entry.objective entry.cwd)
    (stored.map StoredEvent.event))

/-- The todo whose dependencies an edit changes; other events are refused. -/
def changedId (event : Event) : Except String (Option String) :=
  match event.kind with
  | .todoAdded t => .ok (some t.id)
  | .todoUpdated todoId _ _ _ _ _ _ (some _) _ _ _ => .ok (some todoId)
  | .todoUpdated _ _ _ _ _ _ _ none _ _ _ => .ok none
  | _ => .error "expected a todo add/update event"

/-- What an edit has to meet under the append lock. -/
def validateChange (derive : Event → String) (now : Nat) (entry : RegistryEntry)
    (event : Event) (lines : List StoredEvent) : Except String Unit := do
  let goal ← foldLedger derive now entry lines
  match ← changedId event with
  | some id => validateDependencyChange (apply now goal event) id
  | none => .ok ()

/-- `Store::append_todo_change`. -/
def appendTodoChange (derive : Event → String) (now : Nat) (entry : Option RegistryEntry)
    (lines : List StoredEvent) (event : Event) : Except String (List StoredEvent × String) := do
  let entry ← context entry "goal is not registered"
  let lines' ← appendEventLocked lines (storedAs derive event)
    (validateChange derive now entry event)
  .ok (lines', derive event)

def defaultTaskLeaseTtlSeconds : Nat := 45 * 60

def maxTaskLeaseTtlSeconds : Nat := 24 * 60 * 60

/-- `normalize_ttl`: zero is the default, too much is an error. -/
def normalizeTtl (ttlSeconds : Nat) : Except String Nat := do
  let ttl := if ttlSeconds = 0 then defaultTaskLeaseTtlSeconds else ttlSeconds
  ensure (ttl ≤ maxTaskLeaseTtlSeconds)
    ("ttl seconds must be between 1 and " ++ toString maxTaskLeaseTtlSeconds)
  .ok ttl

structure AtomicClaimOutcome where
  claimed : Bool
  stolen : Bool
deriving DecidableEq

/-- A claim request. -/
structure ClaimRequest where
  goalId : String
  todoId : String
  agentId : String
  leaseSecs : Nat
  holderPid : Option Nat
  forceWorkspace : Bool
deriving DecidableEq

/-- The todo is finished, or assigned to another agent. -/
def notClaimable (t : Todo) (agentId : String) : Bool :=
  t.status.terminal || t.owner.any (· ≠ agentId)

/-- Another agent holds a live lease, and its process is not known to be dead. -/
def heldByLiveOther (host : Host) (t : Todo) (agentId : String) (now : Nat) : Bool :=
  match t.claimedBy, t.leaseExpiresAt with
  | some holder, some expires =>
      now < expires && holder ≠ agentId && t.holderPid.all host.pidAlive
  | _, _ => false

/-- Relative write scopes that no absolute directory anchors. -/
def unresolvableScopes (host : Host) (goal : Goal) (todoId : String) (now : Nat) : Bool :=
  !host.isAbsolute goal.cwd && goal.todos.any fun t =>
    (t.id = todoId ||
      (t.claimedBy.isSome && t.leaseExpiresAt.any (now < ·) && !t.status.terminal)) &&
    t.requiredWriteScope.any fun scope =>
      Text.trim scope ≠ "" && !host.isAbsolute (Text.trim scope)

/-- The lines of a claim: the claim itself, and the paths it writes. -/
def claimLines (derive : Event → String) (now leaseSecs : Nat) (request : ClaimRequest)
    (paths : List String) (forced : Bool) : List StoredEvent :=
  storedAs derive
      { goalId := request.goalId
        kind := .todoClaimed request.todoId request.agentId (now + leaseSecs) request.holderPid
        ts := now } ::
    if paths = [] then
      []
    else
      [storedAs derive
        { goalId := request.goalId
          kind := .workspaceLockAcquired request.agentId request.todoId paths forced
          ts := now }]

/-- The decision of a claim on the goal the lines fold to. -/
def decideClaim (host : Host) (derive : Event → String) (now leaseSecs : Nat)
    (request : ClaimRequest) (goal : Goal) :
    Except String (List StoredEvent × AtomicClaimOutcome) := do
  let t ← context (goal.todo request.todoId) "unknown todo"
  if notClaimable t request.agentId || heldByLiveOther host t request.agentId now then
    .ok ([], { claimed := false, stolen := false })
  else
    ensure (¬unresolvableScopes host goal request.todoId now)
      ("cannot resolve relative task write scopes: legacy goal cwd is not absolute; " ++
        "recreate the goal with an absolute --cwd and re-declare its write scopes")
    let conflicts := todoWorkspaceConflicts host goal request.agentId t now
    ensure (conflicts = [] ∨ request.forceWorkspace)
      ("workspace conflict — claiming would race a peer writing the same workspace:\n" ++
        renderConflicts conflicts now ++
        "degrade to serial: retry after the holder releases its lease; declare disjoint " ++
        "--required-write-scope paths (goal-relative), or override only with proven " ++
        "disjoint writes (--force-workspace for run, --force for claim)")
    let paths := todoWorkspaces host goal request.agentId t
    let stolen := match t.claimedBy, t.leaseExpiresAt with
      | some holder, some _ => decide (holder ≠ request.agentId)
      | _, _ => false
    .ok (claimLines derive now leaseSecs request paths
        (conflicts ≠ [] && request.forceWorkspace),
      { claimed := true, stolen := stolen })

/-- `Store::try_claim_todo_with_workspace`, at the clock reading `now`. -/
def tryClaimTodo (host : Host) (derive : Event → String) (now : Nat)
    (entry : Option RegistryEntry) (lines : List StoredEvent) (request : ClaimRequest) :
    Except String (List StoredEvent × AtomicClaimOutcome) := do
  let leaseSecs ← normalizeTtl request.leaseSecs
  let entry ← context entry "goal is not registered"
  let goal ← foldLedger derive now entry lines
  let (written, outcome) ← decideClaim host derive now leaseSecs request goal
  .ok (lines ++ written, outcome)

/-! ## What readers keep -/

/-- Each event once, at its first place. -/
def keepFirst (events : List Event) : List Event :=
  events.foldl (fun out event => if event ∈ out then out else out ++ [event]) []

theorem keepFirst_concat (events : List Event) (event : Event) :
    keepFirst (events ++ [event]) =
      if event ∈ keepFirst events then keepFirst events else keepFirst events ++ [event] := by
  unfold keepFirst
  rw [List.foldl_append, List.foldl_cons, List.foldl_nil]

theorem mem_keepFirst
    {events : List Event}
    {event : Event} :
    event ∈ keepFirst events ↔ event ∈ events := by
  induction events using List.reverseRecOn with
  | nil =>
      rfl
  | append_singleton events e ih =>
      rw [keepFirst_concat, List.mem_append, List.mem_singleton]
      split
      · rename_i hold
        rw [ih]
        constructor
        · exact Or.inl
        · rintro (h | rfl)
          · exact h
          · exact ih.1 hold
      · rw [List.mem_append, List.mem_singleton, ih]

section Derived

variable {derive : Event → String}

/-- No two of the events have the same id. -/
def CollisionFree (derive : Event → String) (events : List Event) : Prop :=
  ∀ a ∈ events, ∀ b ∈ events, derive a = derive b → a = b

instance (events : List Event) : Decidable (CollisionFree derive events) :=
  inferInstanceAs (Decidable (∀ a ∈ events, ∀ b ∈ events, derive a = derive b → a = b))

theorem CollisionFree.subset
    {events events' : List Event}
    (h : CollisionFree derive events)
    (hsub : ∀ e ∈ events', e ∈ events) :
    CollisionFree derive events' :=
  fun a ha b hb => h a (hsub a ha) b (hsub b hb)

@[simp] theorem effectiveId_storedAs (event : Event) :
    (storedAs derive event).effectiveId derive = derive event := by
  unfold StoredEvent.effectiveId storedAs
  split <;> rfl

@[simp] theorem event_storedAs (event : Event) : (storedAs derive event).event = event := rfl

@[simp] theorem eventId_storedAs (event : Event) :
    (storedAs derive event).eventId = derive event := rfl

theorem parseLine_storedAs
    {out : List Event}
    {event : Event}
    (h : CollisionFree derive (event :: out)) :
    parseLine derive (out.map (storedAs derive)) (storedAs derive event) =
      .ok ((if event ∈ out then out else out ++ [event]).map (storedAs derive)) := by
  unfold parseLine
  cases hfind : (out.map (storedAs derive)).find?
      (fun prior => prior.effectiveId derive = (storedAs derive event).effectiveId derive) with
  | none =>
      have hnew : event ∉ out := by
        intro hmem
        have hnone := List.find?_eq_none.1 hfind (storedAs derive event)
          (List.mem_map_of_mem hmem)
        exact hnone (decide_eq_true rfl)
      simp [hnew]
  | some prior =>
      obtain ⟨b, hb, rfl⟩ := List.mem_map.1 (List.mem_of_find?_eq_some hfind)
      have hid : derive b = derive event := by simpa using List.find?_some hfind
      obtain rfl := h b (List.mem_cons_of_mem _ hb) event List.mem_cons_self hid
      simp [hb]

/-- A reader keeps each event of a content-derived ledger once. -/
theorem parseLedger_storedAs
    {events : List Event}
    (h : CollisionFree derive events) :
    parseLedger derive (events.map (storedAs derive)) =
      .ok ((keepFirst events).map (storedAs derive)) := by
  unfold parseLedger
  induction events using List.reverseRecOn with
  | nil =>
      rfl
  | append_singleton events e ih =>
      have hevents := ih (h.subset fun _ hmem => List.mem_append_left _ hmem)
      have hline : CollisionFree derive (e :: keepFirst events) := by
        refine h.subset fun a ha => ?_
        rcases List.mem_cons.1 ha with rfl | ha
        · exact List.mem_append_right _ (List.mem_singleton.2 rfl)
        · exact List.mem_append_left _ (mem_keepFirst.1 ha)
      rw [List.map_append, List.foldlM_append, hevents, except_ok_bind, List.map_singleton,
        List.foldlM_cons, parseLine_storedAs hline, except_ok_bind, List.foldlM_nil,
        keepFirst_concat]
      rfl

theorem map_event_storedAs (events : List Event) :
    (events.map (storedAs derive)).map StoredEvent.event = events := by
  rw [List.map_map]
  exact List.map_id events

theorem foldLedger_storedAs
    {events : List Event}
    (h : CollisionFree derive events)
    (now : Nat)
    (entry : RegistryEntry) :
    foldLedger derive now entry (events.map (storedAs derive)) =
      .ok (Machine.run (apply now) (Goal.new now entry.goalId entry.objective entry.cwd)
        (keepFirst events)) := by
  unfold foldLedger
  rw [parseLedger_storedAs h, except_ok_bind, map_event_storedAs]

/-- An append is skipped where the event is recorded, else checked and written. -/
theorem appendEventLocked_storedAs
    {events : List Event}
    {event : Event}
    (h : CollisionFree derive (event :: events))
    (validate : List StoredEvent → Except String Unit) :
    appendEventLocked (events.map (storedAs derive)) (storedAs derive event) validate =
      if event ∈ events then
        .ok (events.map (storedAs derive))
      else
        validate (events.map (storedAs derive)) >>= fun _ =>
          .ok ((events ++ [event]).map (storedAs derive)) := by
  unfold appendEventLocked
  cases hfind : (events.map (storedAs derive)).find?
      (fun line => line.eventId = (storedAs derive event).eventId) with
  | none =>
      have hnew : event ∉ events := by
        intro hmem
        have hnone := List.find?_eq_none.1 hfind (storedAs derive event)
          (List.mem_map_of_mem hmem)
        exact hnone (decide_eq_true rfl)
      rw [if_neg hnew, List.map_append, List.map_singleton]
  | some line =>
      obtain ⟨b, hb, rfl⟩ := List.mem_map.1 (List.mem_of_find?_eq_some hfind)
      have hsame := List.find?_some hfind
      have hid : derive b = derive event := of_decide_eq_true hsame
      obtain rfl := h b (List.mem_cons_of_mem _ hb) event List.mem_cons_self hid
      simp [hb]

end Derived

end Orchestration
end FutureOs
