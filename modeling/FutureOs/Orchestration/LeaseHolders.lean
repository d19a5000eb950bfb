import FutureOs.Orchestration.EventLog
import FutureOs.Orchestration.TaskLease
import FutureOs.Orchestration.Wire

/-!
# One holder for each todo

Claims, lease commands and completions of any agents on one ledger.  A claim decides and
writes under the lock of the file; a command is decided on a replay and its event is
appended later, maybe more than once.  `Lease` follows what every successful claim was
promised.  The fold of a command looks neither at the holder nor at the expiry, and an
event equal to a recorded one takes no effect: `Orderly` is the condition under which
neither shortens a lease, and under it `Covered` holds along every run.
-/

namespace FutureOs
namespace Orchestration

/-- The lease of a successful claim. -/
structure Lease where
  todoId : String
  agentId : String
  expires : Nat
deriving DecidableEq

/-- The ledger, the latest clock reading, the events of accepted commands, the leases. -/
structure LeaseState where
  lines : List StoredEvent
  clock : Nat
  pending : List Event
  leases : List Lease

namespace LeaseState

def start (lines : List StoredEvent) (clock : Nat) : LeaseState where
  lines := lines
  clock := clock
  pending := []
  leases := []

/-- The events a reader keeps. -/
def stored (derive : Event → String) (s : LeaseState) : List StoredEvent :=
  (parseLedger derive s.lines).toOption.getD []

end LeaseState

/-- One operation, with what its process reads of clock and host. -/
inductive LeaseOperation
  | claim (host : Host) (now : Nat) (request : ClaimRequest)
  | accept (now : Nat) (command : LeaseCommand)
  | append (now : Nat) (event : Event)

def LeaseOperation.now : LeaseOperation → Nat
  | .claim _ now _ => now
  | .accept now _ => now
  | .append now _ => now

/-- The leases after an agent was granted a todo. -/
def grant (now : Nat) (lease : Lease) (leases : List Lease) : List Lease :=
  leases.filter (fun l => l.todoId ≠ lease.todoId ∨
    (l.agentId ≠ lease.agentId ∧ now < l.expires)) ++ [lease]

/-- A lease after an event was appended. -/
def Lease.after (now : Nat) (kind : EventKind) (l : Lease) : Option Lease :=
  match kind with
  | .todoRenewed todoId agentId leaseExpiresAt =>
      if l.todoId = todoId ∧ l.agentId = agentId then
        some { l with expires := leaseExpiresAt }
      else
        some l
  | .todoReleased todoId agentId =>
      if l.todoId = todoId ∧ l.agentId = agentId then none else some l
  | .todoExpired todoId => if l.todoId = todoId ∧ l.expires ≤ now then none else some l
  | .todoCompleted todoId _ _ _ => if l.todoId = todoId then none else some l
  | _ => some l

/-- One operation; what fails changes nothing. -/
def leaseStep (derive : Event → String) (entry : RegistryEntry) (s : LeaseState)
    (op : LeaseOperation) : LeaseState :=
  match op with
  | .claim host now request =>
      match tryClaimTodo host derive now (some entry) s.lines request with
      | .ok (lines, outcome) =>
          { s with
            lines := lines
            clock := now
            leases :=
              if outcome.claimed then
                grant now
                  { todoId := request.todoId
                    agentId := request.agentId
                    expires := now + (normalizeTtl request.leaseSecs).toOption.getD 0 } s.leases
              else
                s.leases }
      | .error _ => { s with clock := now }
  | .accept now command =>
      match foldLedger derive now entry s.lines >>= command.event entry.goalId now with
      | .ok event => { s with clock := now, pending := s.pending ++ event.toList }
      | .error _ => { s with clock := now }
  | .append now event =>
      match Orchestration.append derive (some entry) s.lines event with
      | .ok (lines, _) =>
          { s with
            lines := lines
            clock := now
            leases := s.leases.filterMap (Lease.after now event.kind) }
      | .error _ => { s with clock := now }

/-- The events of lease commands, and completions. -/
def EventKind.isLeaseEvent : EventKind → Bool
  | .todoRenewed _ _ _
  | .todoReleased _ _
  | .todoExpired _
  | .todoCompleted _ _ _ _ => true
  | _ => false

def EventKind.isCompletion : EventKind → Bool
  | .todoCompleted _ _ _ _ => true
  | _ => false

theorem EventKind.isLeaseEvent_of_completion
    {kind : EventKind}
    (h : kind.isCompletion = true) :
    kind.isLeaseEvent = true := by
  cases kind with
  | todoCompleted =>
      rfl
  | _ =>
      cases h

/-! ## Which steps there are, and what is asked of them -/

/--
The clock does not go back, the holder of a claimed todo is alive, and what is appended
is the event of an accepted command or a completion.
-/
def Possible (derive : Event → String) (entry : RegistryEntry) (s : LeaseState)
    (op : LeaseOperation) : Prop :=
  s.clock ≤ op.now ∧
    match op with
    | .claim host _ request =>
        (storedTodo entry (s.stored derive) request.todoId).all fun t =>
          t.holderPid.all host.pidAlive
    | .accept _ _ => True
    | .append _ event => event ∈ s.pending ∨ event.kind.isCompletion = true

instance (derive : Event → String) (entry : RegistryEntry) (s : LeaseState) :
    ∀ op, Decidable (Possible derive entry s op)
  | .claim _ _ _ => inferInstanceAs (Decidable (_ ∧ _ = true))
  | .accept _ _ => inferInstanceAs (Decidable (_ ∧ True))
  | .append _ event => inferInstanceAs (Decidable (_ ∧ (event ∈ s.pending ∨ _ = true)))

/-- The event of a claim. -/
def claimEvent (now leaseSecs : Nat) (request : ClaimRequest) : Event where
  goalId := request.goalId
  kind := .todoClaimed request.todoId request.agentId (now + leaseSecs) request.holderPid
  ts := now

/-- The lines a claim writes. -/
def writtenLines (derive : Event → String) (entry : RegistryEntry) (s : LeaseState)
    (host : Host) (now : Nat) (request : ClaimRequest) : List StoredEvent :=
  match tryClaimTodo host derive now (some entry) s.lines request with
  | .ok (lines, _) => lines.drop s.lines.length
  | .error _ => []

/-- The todo is claimed by the agent, until the given time at least. -/
def holdsUntil (t : Todo) (agentId : String) (expires : Nat) : Bool :=
  t.claimedBy = some agentId && t.leaseExpiresAt.any (expires ≤ ·)

/--
An event does not shorten the lease a todo shows: no renewal does, recorded before or
not, and no expiry clears a live one.
-/
def sparesLease (recorded : Bool) (now : Nat) (kind : EventKind) (t : Todo) : Bool :=
  match kind with
  | .todoRenewed _ agentId leaseExpiresAt =>
      if recorded then
        t.claimedBy ≠ some agentId || leaseExpiresAt ≤ now ||
          t.leaseExpiresAt.any (leaseExpiresAt ≤ ·)
      else
        t.claimedBy.all (· = agentId) || !(leaseStatus t now).isActive ||
          t.leaseExpiresAt.any (· ≤ leaseExpiresAt)
  | .todoExpired _ => recorded || !(leaseStatus t now).isActive
  | _ => true

/--
The ids of a claim are not taken, and one equal to a recorded claim finds the todo
claimed so already; what is appended spares the lease of its todo.
-/
def Orderly (derive : Event → String) (entry : RegistryEntry) (s : LeaseState)
    (op : LeaseOperation) : Prop :=
  match op with
  | .claim host now request =>
      FreeIds derive (s.stored derive) (writtenLines derive entry s host now request) ∧
        ∀ ttl ∈ (normalizeTtl request.leaseSecs).toOption,
          IsRecorded derive (s.stored derive) (claimEvent now ttl request) →
            (storedTodo entry (s.stored derive) request.todoId).all fun t =>
              holdsUntil t request.agentId (now + ttl)
  | .accept _ _ => True
  | .append now event =>
      ∀ id ∈ event.kind.target, (storedTodo entry (s.stored derive) id).all
        (sparesLease (IsRecorded derive (s.stored derive) event) now event.kind)

instance (derive : Event → String) (entry : RegistryEntry) (s : LeaseState) :
    ∀ op, Decidable (Orderly derive entry s op)
  | .claim _ _ request =>
      inferInstanceAs (Decidable (FreeIds _ _ _ ∧
        ∀ ttl ∈ (normalizeTtl request.leaseSecs).toOption, _ → _ = true))
  | .accept _ _ => inferInstanceAs (Decidable True)
  | .append _ event => inferInstanceAs (Decidable (∀ id ∈ event.kind.target, _ = true))

/--
A claim that succeeds finds no live lease of another agent, and leaves a ledger whose
replays show the todo claimed by its agent.
-/
def Exclusive (derive : Event → String) (entry : RegistryEntry) (s : LeaseState)
    (op : LeaseOperation) : Prop :=
  match op with
  | .claim host now request =>
      ∀ lines outcome,
        tryClaimTodo host derive now (some entry) s.lines request = .ok (lines, outcome) →
        outcome.claimed = true →
          (∀ l ∈ s.leases, l.todoId = request.todoId → l.agentId ≠ request.agentId →
            l.expires ≤ now) ∧
          ∃ stored, parseLedger derive lines = .ok stored ∧
            ∀ at' files, ∃ t,
              (replay at' entry (stored.map StoredEvent.event) files).todo request.todoId =
                some t ∧ t.claimedBy = some request.agentId
  | .accept _ _ => True
  | .append _ _ => True

/-! ## The invariant -/

/-- The todo shows the lease, or the lease has lapsed. -/
def Covers (clock : Nat) (t : Todo) (l : Lease) : Prop :=
  t.claimedBy = some l.agentId ∧
    (l.expires ≤ clock ∨ ∃ expires, t.leaseExpiresAt = some expires ∧ l.expires ≤ expires)

/-- Every lease is covered by its todo, as long as the ledger can be read. -/
def Covered (derive : Event → String) (entry : RegistryEntry) (s : LeaseState) : Prop :=
  ∀ stored, parseLedger derive s.lines = .ok stored →
    ∀ l ∈ s.leases, ∃ t, storedTodo entry stored l.todoId = some t ∧ Covers s.clock t l

section Covers

variable {clock now : Nat}
variable {t : Todo}
variable {l : Lease}

theorem Covers.mono
    (h : Covers clock t l)
    (hclock : clock ≤ now) :
    Covers now t l := by
  refine ⟨h.1, ?_⟩
  rcases h.2 with hlapsed | hexpires
  · exact Or.inl (hlapsed.trans hclock)
  · exact Or.inr hexpires

/-- A lease that its todo does not show as live has lapsed. -/
theorem Covers.lapsed
    (h : Covers now t l)
    (hidle : (leaseStatus t now).isActive = false) :
    l.expires ≤ now := by
  rcases h.2 with hlapsed | ⟨expires, hexpires, hle⟩
  · exact hlapsed
  · exact hle.trans (expires_le_of_not_active hidle h.1 hexpires)

/-- A claim is refused while its todo shows the live lease of another agent. -/
theorem Covers.lapsed_of_claimable
    {host : Host}
    {agentId : String}
    (h : Covers now t l)
    (halive : t.holderPid.all host.pidAlive = true)
    (hfree : heldByLiveOther host t agentId now = false)
    (hother : l.agentId ≠ agentId) :
    l.expires ≤ now := by
  rcases h.2 with hlapsed | ⟨expires, hexpires, hle⟩
  · exact hlapsed
  · rw [heldByLiveOther, h.1, hexpires] at hfree
    simp only [halive, Bool.and_true, Bool.and_eq_false_iff, decide_eq_false_iff_not,
      not_lt, not_not, hother, or_false, ne_eq] at hfree
    exact hle.trans hfree

/-- A renewal of the agent sets its lease; one of another agent does not shorten it. -/
theorem Covers.renewed
    {recorded : Bool}
    {agentId : String}
    {leaseExpiresAt : Nat}
    {l' : Lease}
    (h : Covers now t l)
    (hspares : sparesLease recorded now (.todoRenewed l.todoId agentId leaseExpiresAt) t = true)
    (hl' : l.after now (.todoRenewed l.todoId agentId leaseExpiresAt) = some l')
    (ts : Nat) :
    l'.todoId = l.todoId ∧
      Covers now (if recorded then t else Todo.renew ts agentId leaseExpiresAt t) l' := by
  have hclaimed : (Todo.renew ts agentId leaseExpiresAt t).claimedBy = some l.agentId := by
    rw [Todo.renew, h.1]
    rfl
  simp only [Lease.after, true_and] at hl'
  simp only [sparesLease, h.1] at hspares
  split at hl'
  · rename_i howner
    obtain rfl := Option.some.inj hl'
    refine ⟨rfl, ?_⟩
    cases recorded with
    | true =>
        refine ⟨h.1, ?_⟩
        simpa [howner, Option.any_eq_true] using hspares
    | false =>
        exact ⟨hclaimed, Or.inr ⟨leaseExpiresAt, rfl, le_rfl⟩⟩
  · rename_i hother
    obtain rfl := Option.some.inj hl'
    refine ⟨rfl, ?_⟩
    cases recorded with
    | true =>
        exact h
    | false =>
        refine ⟨hclaimed, ?_⟩
        simp only [Option.all_some, hother, decide_false, Bool.false_or, Bool.or_eq_true,
          Bool.not_eq_true', Option.any_eq_true, decide_eq_true_eq, Bool.false_eq_true,
          if_false] at hspares
        rcases hspares with hidle | ⟨expires, hexpires, hle⟩
        · exact Or.inl (h.lapsed hidle)
        · rcases h.2 with hlapsed | ⟨expires', hexpires', hle'⟩
          · exact Or.inl hlapsed
          · obtain rfl := Option.some.inj (hexpires.symm.trans hexpires')
            exact Or.inr ⟨leaseExpiresAt, rfl, hle'.trans hle⟩

/-- An event that spares the lease of a todo leaves the todo covering it. -/
theorem Covers.after
    {recorded : Bool}
    {kind : EventKind}
    {l' : Lease}
    (h : Covers now t l)
    (hspares : kind.target = some l.todoId → sparesLease recorded now kind t = true)
    (hkind : kind.isLeaseEvent = true)
    (hl' : l.after now kind = some l')
    (ts : Nat) :
    l'.todoId = l.todoId ∧
      Covers now (if recorded then t else kind.effect 0 ts l.todoId t) l' := by
  by_cases htarget : kind.target = some l.todoId
  · have hspares := hspares htarget
    rw [EventKind.effect, if_pos htarget]
    cases kind with
    | todoRenewed todoId agentId leaseExpiresAt =>
        obtain rfl : todoId = l.todoId := Option.some.inj htarget
        exact h.renewed hspares hl' ts
    | todoReleased todoId agentId =>
        obtain rfl : todoId = l.todoId := Option.some.inj htarget
        simp only [Lease.after, true_and] at hl'
        split at hl'
        · cases hl'
        · rename_i hother
          obtain rfl := Option.some.inj hl'
          have hkept : Todo.release ts agentId t = t := by
            rw [Todo.release, h.1, if_neg fun hsame => hother (Option.some.inj hsame)]
          rw [EventKind.edit, hkept, ite_self]
          exact ⟨rfl, h⟩
    | todoExpired todoId =>
        obtain rfl : todoId = l.todoId := Option.some.inj htarget
        simp only [Lease.after, true_and] at hl'
        split at hl'
        · cases hl'
        · rename_i hlive
          obtain rfl := Option.some.inj hl'
          -- The lease is live, so the event is a recorded one.
          have hrecorded : recorded = true := by
            by_contra hnew
            rw [Bool.not_eq_true] at hnew
            refine hlive (h.lapsed ?_)
            simpa [sparesLease, hnew] using hspares
          rw [if_pos hrecorded]
          exact ⟨rfl, h⟩
    | todoCompleted todoId noFollowUp successorIds evidence =>
        obtain rfl : todoId = l.todoId := Option.some.inj htarget
        simp [Lease.after] at hl'
    | _ =>
        cases hkind
  · rw [EventKind.effect, if_neg htarget, ite_self]
    have hsame : l' = l := by
      cases kind with
      | todoRenewed | todoReleased | todoExpired | todoCompleted =>
          simp only [EventKind.target, Option.some.injEq] at htarget
          simpa [Lease.after, Ne.symm htarget, eq_comm] using hl'
      | _ =>
          cases hkind
    rw [hsame]
    exact ⟨rfl, h⟩

end Covers

/-! ## What a claim and an append do to what is read -/

section Read

variable {derive : Event → String}
variable {entry : RegistryEntry}
variable {lines stored : List StoredEvent}

/-- A claim that succeeds writes its event, and maybe one that changes no todo. -/
theorem claim_cases
    {host : Host}
    {now : Nat}
    {request : ClaimRequest}
    {lines' : List StoredEvent}
    {outcome : AtomicClaimOutcome}
    (h : tryClaimTodo host derive now (some entry) lines request = .ok (lines', outcome)) :
    (outcome.claimed = false ∧ lines' = lines) ∨
      (outcome.claimed = true ∧ ∃ ttl stored t audit,
        normalizeTtl request.leaseSecs = .ok ttl ∧
        parseLedger derive lines = .ok stored ∧
        storedTodo entry stored request.todoId = some t ∧
        heldByLiveOther host t request.agentId now = false ∧
        lines' = lines ++ storedAs derive (claimEvent now ttl request) :: audit ∧
        ∀ line ∈ audit, line.event.kind.target = none) := by
  obtain ⟨ttl, httl, h⟩ := bind_eq_ok.1 h
  obtain ⟨entry', hentry, h⟩ := bind_eq_ok.1 h
  obtain rfl := Option.some.inj (context_eq_ok.1 hentry)
  obtain ⟨goal, hgoal, h⟩ := bind_eq_ok.1 h
  obtain ⟨⟨written, outcome'⟩, hdecide, hok⟩ := bind_eq_ok.1 h
  obtain ⟨rfl, rfl⟩ := Prod.mk.inj (Except.ok.inj hok)
  obtain ⟨t', htodo, hdecide⟩ := bind_eq_ok.1 hdecide
  split at hdecide
  · obtain ⟨rfl, rfl⟩ := Prod.mk.inj (Except.ok.inj hdecide)
    exact Or.inl ⟨rfl, List.append_nil lines⟩
  · rename_i hclaimable
    obtain ⟨-, -, hdecide⟩ := bind_eq_ok.1 hdecide
    obtain ⟨-, -, hdecide⟩ := bind_eq_ok.1 hdecide
    obtain ⟨rfl, rfl⟩ := Prod.mk.inj (Except.ok.inj hdecide)
    obtain ⟨stored, hstored, hshown⟩ := todo_foldLedger hgoal
    obtain ⟨clocked, hpaint⟩ := hshown request.todoId
    rw [context_eq_ok.1 htodo] at hpaint
    obtain ⟨t, ht, rfl⟩ := Option.map_eq_some_iff.1 hpaint.symm
    have hheld : heldByLiveOther host t request.agentId now = false := by
      rw [Bool.or_eq_true, not_or, Bool.not_eq_true, Bool.not_eq_true] at hclaimable
      exact hclaimable.2
    refine Or.inr ⟨rfl, ttl, stored, t, _, httl, hstored, ht, hheld, rfl, fun line hline => ?_⟩
    split at hline
    · cases hline
    · rw [List.mem_singleton.1 hline]
      rfl

/-- Events that do not name a todo leave it. -/
theorem storedTodo_append_idle
    {id : String}
    {t : Todo}
    (h : storedTodo entry stored id = some t)
    {more : List StoredEvent}
    (hidle : ∀ line ∈ more, line.event.kind.target = none) :
    storedTodo entry (stored ++ more) id = some t := by
  induction more using List.reverseRecOn with
  | nil =>
      rwa [List.append_nil]
  | append_singleton more line ih =>
      have hmore := ih fun l hl => hidle l (List.mem_append_left _ hl)
      have hline := hidle line (List.mem_append_right _ List.mem_cons_self)
      rw [← List.append_assoc, storedTodo_concat hmore, EventKind.effect, hline]
      rfl

/-- The todos after a claim with free ids: the claim is folded unless it was recorded. -/
theorem read_claim
    {now ttl : Nat}
    {request : ClaimRequest}
    {audit : List StoredEvent}
    (hstored : parseLedger derive lines = .ok stored)
    (hfree : FreeIds derive stored (storedAs derive (claimEvent now ttl request) :: audit))
    (hidle : ∀ line ∈ audit, line.event.kind.target = none) :
    ∃ stored', parseLedger derive
        (lines ++ storedAs derive (claimEvent now ttl request) :: audit) = .ok stored' ∧
      ∀ id t, storedTodo entry stored id = some t →
        storedTodo entry stored' id =
          some (if IsRecorded derive stored (claimEvent now ttl request) then t
            else (claimEvent now ttl request).kind.effect 0 now id t) := by
  have hsplit : lines ++ storedAs derive (claimEvent now ttl request) :: audit =
      (lines ++ [storedAs derive (claimEvent now ttl request)]) ++ audit := by
    rw [List.append_assoc]
    rfl
  obtain ⟨out, hout⟩ := parseLine_ok derive (fun prior hprior =>
    hfree _ List.mem_cons_self prior (List.mem_append_left _ hprior))
  have hread := (parseLedger_concat hstored _).trans hout
  have hsub : ∀ line ∈ out, line ∈ stored ++ [storedAs derive (claimEvent now ttl request)] := by
    intro line hline
    rcases parseLine_cases hout with ⟨-, rfl⟩ | ⟨-, rfl⟩
    · exact List.mem_append_left _ hline
    · exact hline
  have haudit : FreeIds derive out audit := by
    intro new hnew prior hprior
    refine hfree new (List.mem_cons_of_mem _ hnew) prior ?_
    rcases List.mem_append.1 hprior with hold | hmem
    · rcases List.mem_append.1 (hsub prior hold) with hprior' | hclaim
      · exact List.mem_append_left _ hprior'
      · exact List.mem_append_right _ (List.mem_singleton.1 hclaim ▸ List.mem_cons_self)
    · exact List.mem_append_right _ (List.mem_cons_of_mem _ hmem)
  obtain ⟨more, hmore, hmem⟩ := read_free haudit
  refine ⟨out ++ more, by rw [hsplit, parseLedger_append, hread, except_ok_bind, hmore], ?_⟩
  intro id t ht
  refine storedTodo_append_idle ?_ fun line hline => hidle line (hmem line hline)
  rcases parseLine_cases hout with ⟨⟨prior, hprior, hid, -⟩, rfl⟩ | ⟨hnew, rfl⟩
  · rw [if_pos ⟨prior, hprior, by rw [hid, effectiveId_storedAs]⟩]
    exact ht
  · rw [if_neg fun ⟨prior, hprior, hid⟩ =>
      hnew prior hprior (by rw [hid, effectiveId_storedAs])]
    exact storedTodo_concat ht _

/-- The event of an accepted command. -/
theorem isLeaseEvent_of_accepted
    {command : LeaseCommand}
    {goalId : String}
    {now : Nat}
    {goal : Goal}
    {event : Event}
    (h : command.event goalId now goal = .ok (some event)) :
    event.kind.isLeaseEvent = true := by
  obtain ⟨t, -, h⟩ := bind_eq_ok.1 h
  cases command with
  | renew todoId agentId leaseSecs =>
      obtain ⟨⟨t', op⟩, -, h⟩ := bind_eq_ok.1 h
      rw [← Option.some.inj (Except.ok.inj h)]
      rfl
  | release todoId agentId =>
      obtain ⟨⟨t', op⟩, -, h⟩ := bind_eq_ok.1 h
      have h := Except.ok.inj h
      split at h
      · cases h
      · rw [← Option.some.inj h]
        rfl
  | expire todoId =>
      obtain ⟨⟨t', op⟩, -, h⟩ := bind_eq_ok.1 h
      have h := Except.ok.inj h
      split at h
      · rw [← Option.some.inj h]
        rfl
      · cases h

end Read

/-! ## Runs -/

section Run

variable {derive : Event → String}
variable {entry : RegistryEntry}
variable {s : LeaseState}

/-- What holds between the operations. -/
structure LeaseInv (derive : Event → String) (entry : RegistryEntry) (s : LeaseState) :
    Prop where
  covered : Covered derive entry s
  pending : ∀ event ∈ s.pending, event.kind.isLeaseEvent = true

theorem stored_eq
    {stored : List StoredEvent}
    (h : parseLedger derive s.lines = .ok stored) :
    s.stored derive = stored := by
  unfold LeaseState.stored
  rw [h]
  rfl

theorem LeaseInv.tick
    (h : LeaseInv derive entry s)
    {now : Nat}
    (hnow : s.clock ≤ now) :
    LeaseInv derive entry { s with clock := now } :=
  ⟨fun stored hstored l hl =>
    let ⟨t, ht, hcovers⟩ := h.covered stored hstored l hl
    ⟨t, ht, hcovers.mono hnow⟩, h.pending⟩

theorem LeaseInv.append
    (h : LeaseInv derive entry s)
    {now : Nat}
    {event : Event}
    (hpossible : Possible derive entry s (.append now event))
    (horderly : Orderly derive entry s (.append now event)) :
    LeaseInv derive entry (leaseStep derive entry s (.append now event)) := by
  have hkind : event.kind.isLeaseEvent = true := by
    rcases hpossible.2 with hpending | hcompleted
    · exact h.pending event hpending
    · exact EventKind.isLeaseEvent_of_completion hcompleted
  simp only [leaseStep]
  split
  · rename_i lines id happend
    refine ⟨fun stored' hstored' l' hl' => ?_, h.pending⟩
    obtain ⟨l, hl, hafter⟩ := List.mem_filterMap.1 hl'
    obtain ⟨stored, hstored, hread⟩ := parse_append_cases happend hstored'
    obtain ⟨t, ht, hcovers⟩ := h.covered stored hstored l hl
    have hspares : event.kind.target = some l.todoId →
        sparesLease (IsRecorded derive stored event) now event.kind t = true := by
      intro htarget
      have hall := horderly l.todoId htarget
      rwa [stored_eq hstored, ht] at hall
    obtain ⟨hid, hcovers'⟩ :=
      (hcovers.mono hpossible.1).after hspares hkind hafter event.ts
    rw [hid]
    rcases hread with ⟨hold, rfl⟩ | ⟨hnew, rfl⟩
    · refine ⟨t, ht, ?_⟩
      rwa [if_pos (decide_eq_true hold)] at hcovers'
    · refine ⟨_, storedTodo_concat ht _, ?_⟩
      rwa [if_neg (by simpa using hnew)] at hcovers'
  · exact h.tick hpossible.1

theorem LeaseInv.accept
    (h : LeaseInv derive entry s)
    {now : Nat}
    {command : LeaseCommand}
    (hpossible : Possible derive entry s (.accept now command)) :
    LeaseInv derive entry (leaseStep derive entry s (.accept now command)) := by
  have htick := h.tick hpossible.1
  simp only [leaseStep]
  split
  · rename_i event haccepted
    refine ⟨htick.covered, fun e he => ?_⟩
    rcases List.mem_append.1 he with hold | hnew
    · exact h.pending e hold
    · obtain rfl := Option.mem_toList.1 hnew
      obtain ⟨goal, -, hevent⟩ := bind_eq_ok.1 haccepted
      exact isLeaseEvent_of_accepted hevent
  · exact htick

/-- A todo that can be claimed shows no live lease of another agent. -/
theorem LeaseInv.lapsed_of_claimable
    (h : LeaseInv derive entry s)
    {host : Host}
    {now : Nat}
    {todoId agentId : String}
    {stored : List StoredEvent}
    {t : Todo}
    (hnow : s.clock ≤ now)
    (hstored : parseLedger derive s.lines = .ok stored)
    (ht : storedTodo entry stored todoId = some t)
    (halive : t.holderPid.all host.pidAlive = true)
    (hfree : heldByLiveOther host t agentId now = false) :
    ∀ l ∈ s.leases, l.todoId = todoId → l.agentId ≠ agentId → l.expires ≤ now := by
  intro l hl hid hother
  obtain ⟨t', ht', hcovers⟩ := h.covered stored hstored l hl
  rw [hid, ht] at ht'
  obtain rfl := Option.some.inj ht'
  exact (hcovers.mono hnow).lapsed_of_claimable halive hfree hother

/-- The claimed todo covers the lease, where a recorded claim finds it covered. -/
theorem covers_claimed
    {recorded : Prop}
    [Decidable recorded]
    {now ttl : Nat}
    {request : ClaimRequest}
    {t : Todo}
    (hrepeat : recorded → holdsUntil t request.agentId (now + ttl) = true) :
    Covers now
      (if recorded then t
        else (claimEvent now ttl request).kind.effect 0 now request.todoId t)
      ⟨request.todoId, request.agentId, now + ttl⟩ := by
  by_cases hold : recorded
  · have hholds := hrepeat hold
    rw [holdsUntil, Bool.and_eq_true, decide_eq_true_eq, Option.any_eq_true] at hholds
    obtain ⟨howner, expires, hexpires, hle⟩ := hholds
    rw [if_pos hold]
    exact ⟨howner, Or.inr ⟨expires, hexpires, of_decide_eq_true hle⟩⟩
  · have htarget : (claimEvent now ttl request).kind.target = some request.todoId := rfl
    rw [if_neg hold, EventKind.effect, if_pos htarget]
    exact ⟨rfl, Or.inr ⟨now + ttl, rfl, le_rfl⟩⟩

/-- What an orderly claim that succeeds finds and leaves. -/
theorem LeaseInv.claim
    (h : LeaseInv derive entry s)
    {host : Host}
    {now : Nat}
    {request : ClaimRequest}
    (hpossible : Possible derive entry s (.claim host now request))
    (horderly : Orderly derive entry s (.claim host now request)) :
    LeaseInv derive entry (leaseStep derive entry s (.claim host now request)) ∧
      Exclusive derive entry s (.claim host now request) := by
  cases hclaim : tryClaimTodo host derive now (some entry) s.lines request with
  | error message =>
      have hstep : leaseStep derive entry s (.claim host now request) =
          { s with clock := now } := by
        simp only [leaseStep, hclaim]
      rw [hstep]
      refine ⟨h.tick hpossible.1, fun lines outcome hok => ?_⟩
      rw [hclaim] at hok
      cases hok
  | ok result =>
      obtain ⟨lines', outcome⟩ := result
      rcases claim_cases hclaim with ⟨hrefused, rfl⟩ |
        ⟨hclaimed, ttl, stored, t, audit, httl, hstored, ht, hheld, rfl, hidle⟩
      · have hstep : leaseStep derive entry s (.claim host now request) =
            { s with clock := now } := by
          simp only [leaseStep, hclaim, hrefused, Bool.false_eq_true, if_false]
        rw [hstep]
        refine ⟨h.tick hpossible.1, fun lines outcome' hok hclaimed => ?_⟩
        obtain ⟨-, rfl⟩ := Prod.mk.inj (Except.ok.inj (hclaim.symm.trans hok))
        rw [hrefused] at hclaimed
        cases hclaimed
      · have hstep : leaseStep derive entry s (.claim host now request) =
            { s with
              lines := s.lines ++ storedAs derive (claimEvent now ttl request) :: audit
              clock := now
              leases := grant now ⟨request.todoId, request.agentId, now + ttl⟩ s.leases } := by
          simp only [leaseStep, hclaim, hclaimed, if_true, httl]
          rfl
        have halive : t.holderPid.all host.pidAlive = true := by
          have hall : (storedTodo entry (s.stored derive) request.todoId).all
              (fun t => t.holderPid.all host.pidAlive) = true := hpossible.2
          rwa [stored_eq hstored, ht] at hall
        have hlapsed := h.lapsed_of_claimable hpossible.1 hstored ht halive hheld
        have hwritten : writtenLines derive entry s host now request =
            storedAs derive (claimEvent now ttl request) :: audit := by
          simp only [writtenLines, hclaim, List.drop_left]
        obtain ⟨hfree, hrepeat⟩ := horderly
        rw [hwritten, stored_eq hstored] at hfree
        obtain ⟨stored', hstored', hread⟩ := read_claim hstored hfree hidle
        have hholds : ∃ t', storedTodo entry stored' request.todoId = some t' ∧
            Covers now t' ⟨request.todoId, request.agentId, now + ttl⟩ := by
          refine ⟨_, hread _ t ht, covers_claimed fun hold => ?_⟩
          have hall := hrepeat ttl (by rw [httl]; rfl) (by rwa [stored_eq hstored])
          rwa [stored_eq hstored, ht] at hall
        rw [hstep]
        refine ⟨⟨fun stored'' hstored'' l hl => ?_, h.pending⟩,
          fun lines outcome' hok _ => ⟨hlapsed, ?_⟩⟩
        · obtain rfl := Except.ok.inj (hstored'.symm.trans hstored'')
          rcases List.mem_append.1 hl with hold | hnew
          · obtain ⟨hl, hkept⟩ := List.mem_filter.1 hold
            obtain ⟨t', ht', hcovers⟩ := h.covered stored hstored l hl
            have hother : l.todoId ≠ request.todoId := by
              intro hid
              rcases of_decide_eq_true hkept with hne | ⟨hne, hlive⟩
              · exact hne hid
              · exact Nat.not_le.2 hlive (hlapsed l hl hid hne)
            refine ⟨t', ?_, hcovers.mono hpossible.1⟩
            have hnot : (claimEvent now ttl request).kind.target ≠ some l.todoId :=
              fun htarget => hother (Option.some.inj htarget).symm
            rw [hread _ t' ht', EventKind.effect, if_neg hnot, ite_self]
          · rw [List.mem_singleton.1 hnew]
            exact hholds
        · obtain ⟨rfl, -⟩ := Prod.mk.inj (Except.ok.inj (hclaim.symm.trans hok))
          refine ⟨stored', hstored', fun at' files => ?_⟩
          obtain ⟨t', ht', hcovers⟩ := hholds
          obtain ⟨clocked, hshown⟩ := todo_replay at' entry stored' files request.todoId
          rw [ht'] at hshown
          exact ⟨_, hshown, hcovers.1⟩

/-- An orderly step keeps the invariant and is exclusive. -/
theorem LeaseInv.step
    (h : LeaseInv derive entry s)
    {op : LeaseOperation}
    (hpossible : Possible derive entry s op)
    (horderly : Orderly derive entry s op) :
    LeaseInv derive entry (leaseStep derive entry s op) ∧ Exclusive derive entry s op := by
  cases op with
  | claim host now request =>
      exact h.claim hpossible horderly
  | accept now command =>
      exact ⟨h.accept hpossible, trivial⟩
  | append now event =>
      exact ⟨h.append hpossible horderly, trivial⟩

/--
From any ledger, in every run whose steps are orderly, every claim that succeeds finds
no live lease of another agent and leaves the todo claimed by its own.
-/
theorem orderly_claims_exclusive
    (derive : Event → String)
    (entry : RegistryEntry)
    (lines : List StoredEvent)
    (clock : Nat)
    (ops : List LeaseOperation)
    (hpossible : Machine.Guarded (leaseStep derive entry) (Possible derive entry)
      (LeaseState.start lines clock) ops)
    (horderly : Machine.Guarded (leaseStep derive entry) (Orderly derive entry)
      (LeaseState.start lines clock) ops) :
    Machine.Guarded (leaseStep derive entry) (Exclusive derive entry)
      (LeaseState.start lines clock) ops := by
  have hinv : LeaseInv derive entry (LeaseState.start lines clock) :=
    ⟨fun _ _ l hl => (List.not_mem_nil hl).elim, fun _ he => (List.not_mem_nil he).elim⟩
  generalize LeaseState.start lines clock = s at hpossible horderly hinv
  induction ops generalizing s with
  | nil =>
      trivial
  | cons op ops ih =>
      obtain ⟨hnext, hexclusive⟩ := hinv.step hpossible.1 horderly.1
      exact ⟨hexclusive, ih _ hpossible.2 horderly.2 hnext⟩

end Run

/-! ## Two agents and one todo -/

def leaseHost : Host where
  pidAlive := fun _ => true
  normalizeAt := fun scope _ => scope
  isAbsolute := fun _ => true
  pathsOverlap := fun _ _ => false

def leaseEntry : RegistryEntry where
  goalId := "g"
  objective := "ship"
  cwd := "/work"
  status := "active"
  createdAt := 1

/-- The ledger of one open todo. -/
def leaseLines : List StoredEvent :=
  [storedAs (deriveEventId serializeEvent)
    { goalId := "g", kind := .todoAdded (Todo.new 1 "T1" "write" .advancement), ts := 1 }]

def claimRequest (agentId : String) : ClaimRequest where
  goalId := "g"
  todoId := "T1"
  agentId := agentId
  leaseSecs := 60
  holderPid := none
  forceWorkspace := false

def claimAt (now : Nat) (agentId : String) : LeaseOperation :=
  .claim leaseHost now (claimRequest agentId)

/-- A command is accepted, and its event appended at once. -/
def releaseAt (now : Nat) (agentId : String) : List LeaseOperation :=
  [.accept now (.release "T1" agentId),
    .append now { goalId := "g", kind := .todoReleased "T1" agentId, ts := now }]

/-- The state after operations on the ledger of one open todo. -/
def leaseRun (ops : List LeaseOperation) : LeaseState :=
  Machine.run (leaseStep (deriveEventId serializeEvent) leaseEntry)
    (LeaseState.start leaseLines 1) ops

/-- Two agents take turns within one second, and the first claims again. -/
def turnsInOneSecond : List LeaseOperation :=
  [claimAt 5 "a"] ++ releaseAt 5 "a" ++ [claimAt 5 "b"] ++ releaseAt 5 "b"

/--
The last claim succeeds and its line collapses into that of the first: a replay shows
the todo unclaimed.
-/
theorem repeated_claim_not_shown :
    Machine.Guarded (leaseStep (deriveEventId serializeEvent) leaseEntry)
        (Possible (deriveEventId serializeEvent) leaseEntry)
        (LeaseState.start leaseLines 1) (turnsInOneSecond ++ [claimAt 5 "a"]) ∧
      ¬ Exclusive (deriveEventId serializeEvent) leaseEntry (leaseRun turnsInOneSecond)
        (claimAt 5 "a") := by
  refine ⟨by decide +kernel, fun hexclusive => ?_⟩
  have hclaim : tryClaimTodo leaseHost (deriveEventId serializeEvent) 5 (some leaseEntry)
      (leaseRun turnsInOneSecond).lines (claimRequest "a") =
      .ok ((leaseRun (turnsInOneSecond ++ [claimAt 5 "a"])).lines, ⟨true, false⟩) := by
    decide +kernel
  obtain ⟨-, stored, hstored, hshown⟩ := hexclusive _ _ hclaim rfl
  have hread : parseLedger (deriveEventId serializeEvent)
      (leaseRun (turnsInOneSecond ++ [claimAt 5 "a"])).lines =
      .ok ((leaseRun turnsInOneSecond).stored (deriveEventId serializeEvent)) := by
    decide +kernel
  obtain rfl := Except.ok.inj (hread.symm.trans hstored)
  obtain ⟨t, ht, howner⟩ := hshown 5 ⟨none, none⟩
  have hfree : ((replay 5 leaseEntry
      (((leaseRun turnsInOneSecond).stored (deriveEventId serializeEvent)).map
        StoredEvent.event) ⟨none, none⟩).todo (claimRequest "a").todoId).bind
        Todo.claimedBy = none := by
    decide +kernel
  rw [ht, Option.bind_some, howner] at hfree
  cases hfree

/-- Two agents take turns, a second apart. -/
def turnsApart : List LeaseOperation :=
  [claimAt 5 "a"] ++ releaseAt 6 "a" ++ [claimAt 7 "b"] ++ releaseAt 8 "b" ++ [claimAt 9 "a"]

theorem orderly_claims_exclusive_apart :
    Machine.Guarded (leaseStep (deriveEventId serializeEvent) leaseEntry)
      (Exclusive (deriveEventId serializeEvent) leaseEntry)
      (LeaseState.start leaseLines 1) turnsApart :=
  orderly_claims_exclusive (deriveEventId serializeEvent) leaseEntry leaseLines 1 turnsApart
    (by decide +kernel) (by decide +kernel)

end Orchestration
end FutureOs
