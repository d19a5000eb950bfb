import FutureOs.Lib.Utf8
import FutureOs.Orchestration.Store

/-!
# Acknowledged appends

Appends, dependency edits and claims on one ledger, by any processes and at any times.
The goal a reader folds is to be the fold of all acknowledged events, where only an
event equal to the one just before it is absorbed.  What a reader keeps is each event at
its first place (`Recorded`), so an event that was recorded earlier takes no effect; the
goal is the expected one exactly as long as every such event would have changed nothing.
-/

namespace FutureOs
namespace Orchestration

/-- A call on the ledger, with what its process reads of clock and host. -/
inductive LedgerCall
  | append (event : Event)
  | appendTodoChange (now : Nat) (event : Event)
  | tryClaim (host : Host) (now : Nat) (request : ClaimRequest)

/-- The lines, and the events of the calls that returned success. -/
structure LedgerState where
  lines : List StoredEvent
  acknowledged : List Event

def LedgerState.empty : LedgerState where
  lines := []
  acknowledged := []

/-- The lines after a call and the events it acknowledges. -/
def LedgerCall.run (derive : Event → String) (entry : RegistryEntry) (call : LedgerCall)
    (lines : List StoredEvent) : Except String (List StoredEvent × List Event) :=
  match call with
  | .append event => do
      let (lines', _) ← Orchestration.append derive (some entry) lines event
      .ok (lines', [event])
  | .appendTodoChange now event => do
      let (lines', _) ← Orchestration.appendTodoChange derive now (some entry) lines event
      .ok (lines', [event])
  | .tryClaim host now request => do
      let (lines', _) ← tryClaimTodo host derive now (some entry) lines request
      .ok (lines', (lines'.drop lines.length).map StoredEvent.event)

/-- A failed call changes nothing. -/
def ledgerStep (derive : Event → String) (entry : RegistryEntry) (s : LedgerState)
    (call : LedgerCall) : LedgerState :=
  match call.run derive entry s.lines with
  | .ok (lines, events) => { lines := lines, acknowledged := s.acknowledged ++ events }
  | .error _ => s

/-- The events a call brings to the ledger. -/
def submitted (derive : Event → String) (entry : RegistryEntry) (s : LedgerState) :
    LedgerCall → List Event
  | .append event => [event]
  | .appendTodoChange _ event => [event]
  | .tryClaim host now request =>
      match (LedgerCall.tryClaim host now request).run derive entry s.lines with
      | .ok (_, events) => events
      | .error _ => []

/-- The ids of the events in the ledger and of the call's do not collide. -/
def NoCollision (derive : Event → String) (entry : RegistryEntry) (s : LedgerState)
    (call : LedgerCall) : Prop :=
  CollisionFree derive (s.acknowledged ++ submitted derive entry s call)

instance (derive : Event → String) (entry : RegistryEntry) (s : LedgerState)
    (call : LedgerCall) : Decidable (NoCollision derive entry s call) :=
  inferInstanceAs (Decidable (CollisionFree derive _))

/-- The events without those equal to the one just before. -/
def dropRepeats (events : List Event) : List Event :=
  events.foldl (fun out event => if out.getLast? = some event then out else out ++ [event]) []

/-- The goal after the events, where immediate repeats are absorbed. -/
def expectedGoal (now : Nat) (start : Goal) (events : List Event) : Goal :=
  Machine.run (apply now) start (dropRepeats events)

/-- A reader at `now` folds the ledger to the goal of the acknowledged events. -/
def TakesEffect (derive : Event → String) (now : Nat) (start : Goal) (s : LedgerState) :
    Prop :=
  ∃ stored, parseLedger derive s.lines = .ok stored ∧
    Machine.run (apply now) start (stored.map StoredEvent.event) =
      expectedGoal now start s.acknowledged

/--
Each event is new, equal to the one just before it, or one that changes nothing in the
goal it meets.
-/
def Harmless (now : Nat) (start : Goal) : List Event → List Event → Prop
  | _, [] => True
  | acknowledged, event :: rest =>
      (event ∈ acknowledged → acknowledged.getLast? = some event ∨
        apply now (expectedGoal now start acknowledged) event =
          expectedGoal now start acknowledged) ∧
      Harmless now start (acknowledged ++ [event]) rest

/-- The events a call acknowledges are harmless. -/
def HarmlessCall (derive : Event → String) (entry : RegistryEntry) (now : Nat)
    (start : Goal) (s : LedgerState) (call : LedgerCall) : Prop :=
  ∀ lines events, call.run derive entry s.lines = .ok (lines, events) →
    Harmless now start s.acknowledged events

theorem dropRepeats_concat (events : List Event) (event : Event) :
    dropRepeats (events ++ [event]) =
      if (dropRepeats events).getLast? = some event then dropRepeats events
      else dropRepeats events ++ [event] := by
  unfold dropRepeats
  rw [List.foldl_append, List.foldl_cons, List.foldl_nil]

theorem getLast?_dropRepeats (events : List Event) :
    (dropRepeats events).getLast? = events.getLast? := by
  induction events using List.reverseRecOn with
  | nil =>
      rfl
  | append_singleton events e ih =>
      rw [dropRepeats_concat]
      split
      · rename_i h
        rw [h]
        simp
      · simp

/-! ## The goal of the recorded events -/

section Fold

variable {now : Nat}
variable {start : Goal}
variable {events : List Event}

/-- The fold of what a reader keeps is the expected goal. -/
def Agrees (now : Nat) (start : Goal) (events : List Event) : Prop :=
  Machine.run (apply now) start (keepFirst events) = expectedGoal now start events

theorem agrees_concat_iff
    (h : Agrees now start events)
    (event : Event) :
    Agrees now start (events ++ [event]) ↔
      (event ∈ events → events.getLast? = some event ∨
        apply now (expectedGoal now start events) event = expectedGoal now start events) := by
  unfold Agrees expectedGoal at h ⊢
  rw [keepFirst_concat, dropRepeats_concat, getLast?_dropRepeats]
  by_cases hlast : events.getLast? = some event
  · have hmem : event ∈ events := List.mem_of_getLast? hlast
    simp [hlast, mem_keepFirst, hmem, h]
  · by_cases hmem : event ∈ events
    · rw [if_pos (mem_keepFirst.2 hmem), if_neg hlast, Machine.run_concat, h]
      simp [hlast, hmem, eq_comm]
    · rw [if_neg (fun hold => hmem (mem_keepFirst.1 hold)), if_neg hlast, Machine.run_concat,
        Machine.run_concat, h]
      simp [hmem]

/-- An event that is never folded into the goal. -/
theorem agrees_idle_iff
    {event : Event}
    (hidle : ∀ goal, apply now goal event = goal) :
    Agrees now start (events ++ [event]) ↔ Agrees now start events := by
  unfold Agrees expectedGoal
  have hkeep : Machine.run (apply now) start (keepFirst (events ++ [event])) =
      Machine.run (apply now) start (keepFirst events) := by
    rw [keepFirst_concat]
    split
    · rfl
    · rw [Machine.run_concat, hidle]
  have hdrop : Machine.run (apply now) start (dropRepeats (events ++ [event])) =
      Machine.run (apply now) start (dropRepeats events) := by
    rw [dropRepeats_concat]
    split
    · rfl
    · rw [Machine.run_concat, hidle]
  rw [hkeep, hdrop]

/-- What one call acknowledges: at most one event that is folded into the goal. -/
def OneFolded (now : Nat) (events : List Event) : Prop :=
  events = [] ∨ (∃ event, events = [event]) ∨
    ∃ event idle, events = [event, idle] ∧ ∀ goal, apply now goal idle = goal

theorem agrees_append_iff
    (h : Agrees now start events)
    {more : List Event}
    (hmore : OneFolded now more) :
    Agrees now start (events ++ more) ↔ Harmless now start events more := by
  rcases hmore with rfl | ⟨event, rfl⟩ | ⟨event, idle, rfl, hidle⟩
  · simp [Harmless, h]
  · rw [agrees_concat_iff h]
    simp [Harmless]
  · have hsplit : events ++ [event, idle] = (events ++ [event]) ++ [idle] := by simp
    rw [hsplit, agrees_idle_iff hidle, agrees_concat_iff h]
    simp [Harmless, hidle]

end Fold

/-! ## The recorded lines -/

section Recorded

variable {derive : Event → String}
variable {entry : RegistryEntry}

/-- The lines hold the acknowledged events, each first where it was first acknowledged. -/
structure Recorded (derive : Event → String) (s : LedgerState) : Prop where
  free : CollisionFree derive s.acknowledged
  lines : ∃ events, s.lines = events.map (storedAs derive) ∧
    keepFirst events = keepFirst s.acknowledged

theorem recorded_empty : Recorded derive LedgerState.empty :=
  ⟨fun _ ha => (List.not_mem_nil ha).elim, [], rfl, rfl⟩

theorem mem_of_keepFirst_eq
    {events events' : List Event}
    (h : keepFirst events = keepFirst events')
    (event : Event) :
    event ∈ events ↔ event ∈ events' := by
  rw [← mem_keepFirst, h, mem_keepFirst]

theorem keepFirst_append
    {events events' : List Event}
    (h : keepFirst events = keepFirst events')
    (more : List Event) :
    keepFirst (events ++ more) = keepFirst (events' ++ more) := by
  unfold keepFirst at h ⊢
  rw [List.foldl_append, List.foldl_append, h]

theorem Recorded.takesEffect_iff
    {s : LedgerState}
    (h : Recorded derive s)
    (now : Nat)
    (start : Goal) :
    TakesEffect derive now start s ↔ Agrees now start s.acknowledged := by
  obtain ⟨events, hlines, hkeep⟩ := h.lines
  have hfree : CollisionFree derive events :=
    h.free.subset fun e he => (mem_of_keepFirst_eq hkeep e).1 he
  unfold TakesEffect Agrees
  rw [hlines, parseLedger_storedAs hfree, hkeep]
  constructor
  · rintro ⟨stored, hstored, hrun⟩
    obtain rfl := Except.ok.inj hstored
    rwa [map_event_storedAs] at hrun
  · intro hrun
    exact ⟨_, rfl, by rwa [map_event_storedAs]⟩

/-- An append, checked or not. -/
theorem Recorded.append
    {s : LedgerState}
    (h : Recorded derive s)
    {event : Event}
    (hfree : CollisionFree derive (s.acknowledged ++ [event]))
    {validate : List StoredEvent → Except String Unit}
    {lines : List StoredEvent}
    (happend : appendEventLocked s.lines (storedAs derive event) validate = .ok lines) :
    Recorded derive { lines := lines, acknowledged := s.acknowledged ++ [event] } := by
  obtain ⟨events, hlines, hkeep⟩ := h.lines
  have hmem := mem_of_keepFirst_eq hkeep
  have hevents : CollisionFree derive (event :: events) := by
    refine hfree.subset fun e he => ?_
    rcases List.mem_cons.1 he with rfl | he
    · exact List.mem_append_right _ List.mem_cons_self
    · exact List.mem_append_left _ ((hmem e).1 he)
  rw [hlines, appendEventLocked_storedAs hevents] at happend
  split at happend
  · rename_i hold
    obtain rfl := Except.ok.inj happend
    refine ⟨hfree, events, rfl, ?_⟩
    rw [keepFirst_concat, if_pos (mem_keepFirst.2 ((hmem event).1 hold)), hkeep]
  · obtain ⟨-, -, hok⟩ := bind_eq_ok.1 happend
    obtain rfl := Except.ok.inj hok
    exact ⟨hfree, events ++ [event], rfl, keepFirst_append hkeep [event]⟩

/-- Lines written without a look at the ledger. -/
theorem Recorded.write
    {s : LedgerState}
    (h : Recorded derive s)
    {more : List Event}
    (hfree : CollisionFree derive (s.acknowledged ++ more)) :
    Recorded derive
      { lines := s.lines ++ more.map (storedAs derive)
        acknowledged := s.acknowledged ++ more } := by
  obtain ⟨events, hlines, hkeep⟩ := h.lines
  exact ⟨hfree, events ++ more, by rw [hlines, List.map_append], keepFirst_append hkeep more⟩

/-- The lines a claim decides to write. -/
theorem decideClaim_lines
    {host : Host}
    {now leaseSecs : Nat}
    {request : ClaimRequest}
    {goal : Goal}
    {written : List StoredEvent}
    {outcome : AtomicClaimOutcome}
    (h : decideClaim host derive now leaseSecs request goal = .ok (written, outcome))
    (at' : Nat) :
    ∃ events, written = events.map (storedAs derive) ∧ OneFolded at' events := by
  obtain ⟨t, -, h⟩ := bind_eq_ok.1 h
  split at h
  · obtain ⟨rfl, -⟩ := Prod.mk.inj (Except.ok.inj h)
    exact ⟨[], rfl, Or.inl rfl⟩
  · obtain ⟨-, -, h⟩ := bind_eq_ok.1 h
    obtain ⟨-, -, h⟩ := bind_eq_ok.1 h
    obtain ⟨rfl, -⟩ := Prod.mk.inj (Except.ok.inj h)
    unfold claimLines
    split
    · exact ⟨[_], rfl, Or.inr (Or.inl ⟨_, rfl⟩)⟩
    · exact ⟨[_, _], rfl, Or.inr (Or.inr ⟨_, _, rfl, fun _ => rfl⟩)⟩

/-- What one call does to a recorded ledger. -/
theorem Recorded.step
    {s : LedgerState}
    (h : Recorded derive s)
    {call : LedgerCall}
    (hfree : NoCollision derive entry s call)
    (at' : Nat) :
    (∃ error, call.run derive entry s.lines = .error error ∧
      ledgerStep derive entry s call = s) ∨
    ∃ lines events, call.run derive entry s.lines = .ok (lines, events) ∧
      ledgerStep derive entry s call =
        { lines := lines, acknowledged := s.acknowledged ++ events } ∧
      OneFolded at' events ∧ Recorded derive (ledgerStep derive entry s call) := by
  cases hrun : call.run derive entry s.lines with
  | error e =>
      exact Or.inl ⟨e, rfl, by unfold ledgerStep; rw [hrun]⟩
  | ok result =>
      obtain ⟨lines, events⟩ := result
      have hstep : ledgerStep derive entry s call =
          { lines := lines, acknowledged := s.acknowledged ++ events } := by
        unfold ledgerStep
        rw [hrun]
      refine Or.inr ⟨lines, events, rfl, hstep, ?_⟩
      rw [hstep]
      cases call with
      | append event =>
          obtain ⟨⟨lines', id⟩, happend, hok⟩ := bind_eq_ok.1 hrun
          obtain ⟨rfl, rfl⟩ := Prod.mk.inj (Except.ok.inj hok)
          obtain ⟨-, -, happend⟩ := bind_eq_ok.1 happend
          obtain ⟨lines'', hlocked, hok⟩ := bind_eq_ok.1 happend
          obtain ⟨rfl, -⟩ := Prod.mk.inj (Except.ok.inj hok)
          exact ⟨Or.inr (Or.inl ⟨event, rfl⟩), h.append hfree hlocked⟩
      | appendTodoChange now event =>
          obtain ⟨⟨lines', id⟩, happend, hok⟩ := bind_eq_ok.1 hrun
          obtain ⟨rfl, rfl⟩ := Prod.mk.inj (Except.ok.inj hok)
          obtain ⟨entry', -, happend⟩ := bind_eq_ok.1 happend
          obtain ⟨lines'', hlocked, hok⟩ := bind_eq_ok.1 happend
          obtain ⟨rfl, -⟩ := Prod.mk.inj (Except.ok.inj hok)
          exact ⟨Or.inr (Or.inl ⟨event, rfl⟩), h.append hfree hlocked⟩
      | tryClaim host now request =>
          simp only [NoCollision, submitted, hrun] at hfree
          obtain ⟨⟨lines', outcome⟩, hclaim, hok⟩ := bind_eq_ok.1 hrun
          obtain ⟨rfl, rfl⟩ := Prod.mk.inj (Except.ok.inj hok)
          obtain ⟨ttl, -, hclaim⟩ := bind_eq_ok.1 hclaim
          obtain ⟨entry', -, hclaim⟩ := bind_eq_ok.1 hclaim
          obtain ⟨goal, -, hclaim⟩ := bind_eq_ok.1 hclaim
          obtain ⟨⟨written, outcome'⟩, hdecide, hok⟩ := bind_eq_ok.1 hclaim
          obtain ⟨rfl, -⟩ := Prod.mk.inj (Except.ok.inj hok)
          obtain ⟨events, rfl, hone⟩ := decideClaim_lines hdecide at'
          rw [List.drop_left, map_event_storedAs] at hfree ⊢
          exact ⟨hone, h.write hfree⟩

/-- An event no earlier one equals is harmless. -/
theorem harmless_append_of_new
    {s : LedgerState}
    {event : Event}
    {now : Nat}
    {start : Goal}
    (hnew : event ∉ s.acknowledged) :
    HarmlessCall derive entry now start s (.append event) := by
  intro lines events hrun
  obtain ⟨⟨lines', id⟩, happend, hok⟩ := bind_eq_ok.1 hrun
  obtain ⟨-, rfl⟩ := Prod.mk.inj (Except.ok.inj hok)
  exact ⟨fun hold => absurd hold hnew, trivial⟩

/-- A recorded ledger takes effect after a call exactly if the call is harmless. -/
theorem Recorded.takesEffect_step_iff
    {s : LedgerState}
    (h : Recorded derive s)
    {call : LedgerCall}
    (hfree : NoCollision derive entry s call)
    {now : Nat}
    {start : Goal}
    (heffect : TakesEffect derive now start s) :
    Recorded derive (ledgerStep derive entry s call) ∧
      (TakesEffect derive now start (ledgerStep derive entry s call) ↔
        HarmlessCall derive entry now start s call) := by
  rcases h.step hfree now with ⟨error, hrun, hsame⟩ | ⟨lines, events, hrun, hstep, hone, hnext⟩
  · rw [hsame]
    refine ⟨h, fun _ lines events hok => ?_, fun _ => heffect⟩
    rw [hrun] at hok
    cases hok
  · refine ⟨hnext, ?_⟩
    rw [hnext.takesEffect_iff, hstep, agrees_append_iff ((h.takesEffect_iff now start).1 heffect)
      hone]
    unfold HarmlessCall
    rw [hrun]
    constructor
    · intro hharmless lines' events' hok
      obtain ⟨-, rfl⟩ := Prod.mk.inj (Except.ok.inj hok)
      exact hharmless
    · intro hharmless
      exact hharmless lines events rfl

/--
Over a run of calls whose ids do not collide, every acknowledged event has taken effect
after each call exactly if each event equal to an earlier one is equal to the one just
before it, or would have changed nothing.
-/
theorem acknowledged_take_effect_iff
    (derive : Event → String)
    (entry : RegistryEntry)
    (now : Nat)
    (start : Goal)
    (calls : List LedgerCall)
    (hfree : Machine.Guarded (ledgerStep derive entry) (NoCollision derive entry)
      LedgerState.empty calls) :
    (∀ k, TakesEffect derive now start
      (Machine.run (ledgerStep derive entry) LedgerState.empty (calls.take k))) ↔
      Machine.Guarded (ledgerStep derive entry) (HarmlessCall derive entry now start)
        LedgerState.empty calls := by
  have hstart : TakesEffect derive now start LedgerState.empty := ⟨[], rfl, rfl⟩
  have hrecorded : Recorded derive LedgerState.empty := recorded_empty
  generalize LedgerState.empty = s at hfree hstart hrecorded
  induction calls generalizing s with
  | nil =>
      simp [Machine.Guarded, hstart]
  | cons call calls ih =>
      obtain ⟨hnext, hiff⟩ := hrecorded.takesEffect_step_iff hfree.1 hstart
      constructor
      · intro hall
        have heffect := hall 1
        exact ⟨hiff.1 heffect, (ih _ hfree.2 heffect hnext).1 fun k => hall (k + 1)⟩
      · rintro ⟨hcall, hcalls⟩ k
        cases k with
        | zero => exact hstart
        | succ k => exact (ih _ hfree.2 (hiff.2 hcall) hnext).2 hcalls k

end Recorded

/-! ## The same change twice in one second -/

/-- The line of a profile change. -/
def serializeProfileSet (event : Event) : List UInt8 :=
  match event.kind with
  | .profileSet threshold =>
      Utf8.encode
        ("\x7b\"kind\":\"profile_set\",\"goal_id\":\"" ++ event.goalId ++
          "\",\"outcome_floor_streak_threshold\":" ++ toString threshold ++
          ",\"ts\":" ++ toString event.ts ++ "\x7d").toList
  | _ => []

def profileSetAt (threshold ts : Nat) : Event where
  goalId := "g"
  kind := .profileSet threshold
  ts := ts

def profileEntry : RegistryEntry where
  goalId := "g"
  objective := "ship"
  cwd := "/work"
  status := "active"
  createdAt := 5

/-- The third change, equal to the first, is acknowledged and lost. -/
theorem repeated_change_lost :
    let s := Machine.run (ledgerStep (deriveEventId serializeProfileSet) profileEntry)
      LedgerState.empty ([1, 2, 1].map fun n => .append (profileSetAt n 5))
    s.acknowledged = [profileSetAt 1 5, profileSetAt 2 5, profileSetAt 1 5] ∧
      CollisionFree (deriveEventId serializeProfileSet) s.acknowledged ∧
      (foldLedger (deriveEventId serializeProfileSet) 9 profileEntry s.lines).toOption.map
          (fun goal => goal.executionProfile.outcomeFloorStreakThreshold) = some 2 ∧
      ((expectedGoal 9 (Goal.new 9 "g" "ship" "/work")
        s.acknowledged).executionProfile.outcomeFloorStreakThreshold) = 1 := by
  decide +kernel

theorem acknowledged_take_effect_later :
    TakesEffect (deriveEventId serializeProfileSet) 9 (Goal.new 9 "g" "ship" "/work")
      (Machine.run (ledgerStep (deriveEventId serializeProfileSet) profileEntry)
        LedgerState.empty
        ([profileSetAt 1 5, profileSetAt 2 5, profileSetAt 1 6].map LedgerCall.append)) :=
  (acknowledged_take_effect_iff (deriveEventId serializeProfileSet) profileEntry 9
    (Goal.new 9 "g" "ship" "/work")
    ([profileSetAt 1 5, profileSetAt 2 5, profileSetAt 1 6].map LedgerCall.append)
    (by decide +kernel)).2
    ⟨harmless_append_of_new (by decide +kernel), harmless_append_of_new (by decide +kernel),
      harmless_append_of_new (by decide +kernel), trivial⟩ 3

end Orchestration
end FutureOs
