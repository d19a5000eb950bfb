import FutureOs.Orchestration.ClockFree
import FutureOs.Orchestration.Store

/-!
# Task leases

The derived lease of a todo and the operations on it, as the lease commands run them:
each reads a replay, decides, and hands over the event to be appended later.
-/

namespace FutureOs
namespace Orchestration

/-- The lease of a todo at a time. -/
inductive LeaseStatus
  | free
  | active (owner : String) (expiresAt : Nat)
  | expired (owner : String) (expiresAt : Nat)
deriving DecidableEq

def leaseStatus (t : Todo) (now : Nat) : LeaseStatus :=
  match t.claimedBy, t.leaseExpiresAt with
  | some owner, some expires =>
      if now < expires then .active owner expires else .expired owner expires
  | _, _ => .free

def LeaseStatus.isActive : LeaseStatus → Bool
  | .active _ _ => true
  | _ => false

/-- The outcome of a lease operation. -/
inductive LeaseOp
  | renewed
  | released (missing : Bool)
  | expired (hadLease : Bool)
deriving DecidableEq

namespace TaskLease

/-- `renew`: extends a live lease of the agent. -/
def renew (t : Todo) (agent : String) (leaseSecs now : Nat) : Except String (Todo × LeaseOp) := do
  let ttl ← normalizeTtl leaseSecs
  match leaseStatus t now with
  | .active owner _ =>
      if owner = agent then
        .ok ({ t with leaseExpiresAt := some (now + ttl), updatedAt := now }, .renewed)
      else
        .error "lease owner mismatch"
  | _ => .error "lease is missing or expired"

/-- `release`: only the owner of a live lease; else there is nothing to release. -/
def release (t : Todo) (agent : String) (now : Nat) : Except String (Todo × LeaseOp) :=
  match leaseStatus t now with
  | .active owner _ =>
      if owner = agent then
        .ok ({ t with claimedBy := none, leaseExpiresAt := none, updatedAt := now },
          .released false)
      else
        .error "lease owner mismatch"
  | _ => .ok (t, .released true)

/-- `expire`: clears a lapsed claim. -/
def expire (t : Todo) (now : Nat) : Except String (Todo × LeaseOp) :=
  match leaseStatus t now with
  | .expired _ _ =>
      .ok ({ t with claimedBy := none, leaseExpiresAt := none, updatedAt := now },
        .expired true)
  | .free => .ok (t, .expired false)
  | .active _ _ => .error "lease is still active"

end TaskLease

/-- A lease command. -/
inductive LeaseCommand
  | renew (todoId agentId : String) (leaseSecs : Nat)
  | release (todoId agentId : String)
  | expire (todoId : String)
deriving DecidableEq

def LeaseCommand.todoId : LeaseCommand → String
  | .renew todoId _ _ => todoId
  | .release todoId _ => todoId
  | .expire todoId => todoId

/-- The event an accepted command appends, if any. -/
def LeaseCommand.event (command : LeaseCommand) (goalId : String) (now : Nat) (goal : Goal) :
    Except String (Option Event) := do
  let t ← context (goal.todo command.todoId) ("todo " ++ command.todoId ++ " not found")
  match command with
  | .renew todoId agentId leaseSecs => do
      let (t', _) ← TaskLease.renew t agentId leaseSecs now
      .ok (some
        { goalId := goalId
          kind := .todoRenewed todoId agentId (t'.leaseExpiresAt.getD now)
          ts := now })
  | .release todoId agentId => do
      let (_, op) ← TaskLease.release t agentId now
      .ok (if op = .released true then none
        else some { goalId := goalId, kind := .todoReleased todoId agentId, ts := now })
  | .expire todoId => do
      let (_, op) ← TaskLease.expire t now
      .ok (if op = .expired true then
          some { goalId := goalId, kind := .todoExpired todoId, ts := now }
        else
          none)

theorem leaseStatus_eq_active_iff
    {t : Todo}
    {now expires : Nat}
    {owner : String} :
    leaseStatus t now = .active owner expires ↔
      t.claimedBy = some owner ∧ t.leaseExpiresAt = some expires ∧ now < expires := by
  unfold leaseStatus
  cases howner : t.claimedBy with
  | none =>
      simp
  | some owner' =>
      cases hexpires : t.leaseExpiresAt with
      | none =>
          simp
      | some expires' =>
          by_cases hlive : now < expires'
          · simp only [if_pos hlive, LeaseStatus.active.injEq, Option.some.injEq]
            constructor
            · rintro ⟨rfl, rfl⟩
              exact ⟨rfl, rfl, hlive⟩
            · rintro ⟨rfl, rfl, -⟩
              exact ⟨rfl, rfl⟩
          · simp only [if_neg hlive, reduceCtorEq, Option.some.injEq, false_iff]
            rintro ⟨-, rfl, h⟩
            exact hlive h

/-- A lapsed or free lease. -/
theorem expires_le_of_not_active
    {t : Todo}
    {now expires : Nat}
    {owner : String}
    (h : (leaseStatus t now).isActive = false)
    (howner : t.claimedBy = some owner)
    (hexpires : t.leaseExpiresAt = some expires) :
    expires ≤ now := by
  by_contra hlive
  rw [leaseStatus_eq_active_iff.2 ⟨howner, hexpires, Nat.lt_of_not_le hlive⟩] at h
  cases h

/-! ## Reading a ledger at any clock -/

/-- The goal of the events a reader keeps, at clock zero. -/
def storedGoal (entry : RegistryEntry) (stored : List StoredEvent) : Goal :=
  Machine.run (apply 0) (Goal.new 0 entry.goalId entry.objective entry.cwd)
    (stored.map StoredEvent.event)

/-- The todo of the events a reader keeps. -/
def storedTodo (entry : RegistryEntry) (stored : List StoredEvent) (id : String) :
    Option Todo :=
  (storedGoal entry stored).todo id

theorem storedTodo_concat
    {entry : RegistryEntry}
    {stored : List StoredEvent}
    {id : String}
    {t : Todo}
    (h : storedTodo entry stored id = some t)
    (line : StoredEvent) :
    storedTodo entry (stored ++ [line]) id =
      some (line.event.kind.effect 0 line.event.ts id t) := by
  unfold storedTodo storedGoal at h ⊢
  rw [List.map_append, List.map_singleton, Machine.run_concat, todo_apply h]

theorem fst_run_stamped
    (goal : Goal)
    (clocked : String → Bool)
    (events : List Event) :
    (Machine.run stamped (goal, clocked) events).1 = Machine.run (apply 0) goal events := by
  induction events generalizing goal clocked with
  | nil =>
      rfl
  | cons event rest ih =>
      exact ih _ _

/-- The fold at a clock reading has the todos of the fold at zero, up to a stamp. -/
theorem todo_run_dress
    (now createdAt : Nat)
    (freshness : Option DecisionFreshness)
    (entry : RegistryEntry)
    (stored : List StoredEvent)
    (id : String) :
    ∃ clocked, (Machine.run (apply now)
        ((Goal.new 0 entry.goalId entry.objective entry.cwd).dress now createdAt freshness
          fun _ => false) (stored.map StoredEvent.event)).todo id =
      (storedTodo entry stored id).map (Todo.paint now clocked) := by
  have hknows : (Goal.new 0 entry.goalId entry.objective entry.cwd).Knows fun _ => false :=
    fun _ hid => by cases hid
  obtain ⟨-, hrun⟩ := run_painted now freshness hknows createdAt (stored.map StoredEvent.event)
  refine ⟨(Machine.run stamped (Goal.new 0 entry.goalId entry.objective entry.cwd,
    fun _ => false) (stored.map StoredEvent.event)).2 id, ?_⟩
  rw [hrun, Goal.todo, Goal.dress, find?_paint, fst_run_stamped]
  rfl

/-- What a claim decides on. -/
theorem todo_foldLedger
    {derive : Event → String}
    {now : Nat}
    {entry : RegistryEntry}
    {lines : List StoredEvent}
    {goal : Goal}
    (h : foldLedger derive now entry lines = .ok goal) :
    ∃ stored, parseLedger derive lines = .ok stored ∧
      ∀ id, ∃ clocked, goal.todo id =
        (storedTodo entry stored id).map (Todo.paint now clocked) := by
  obtain ⟨stored, hstored, hgoal⟩ := bind_eq_ok.1 h
  obtain rfl := Except.ok.inj hgoal
  exact ⟨stored, hstored, todo_run_dress now now none entry stored⟩

/-- What a replay shows. -/
theorem todo_replay
    (now : Nat)
    (entry : RegistryEntry)
    (stored : List StoredEvent)
    (files : SideFiles)
    (id : String) :
    ∃ clocked, (replay now entry (stored.map StoredEvent.event) files).todo id =
      (storedTodo entry stored id).map (Todo.paint now clocked) :=
  todo_run_dress now (if 0 < entry.createdAt then entry.createdAt else now)
    (some (Goal.freshness now (stored.map StoredEvent.event))) entry stored id

end Orchestration
end FutureOs
