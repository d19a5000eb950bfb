import FutureOs.Lib.Machine
import FutureOs.Orchestration.Apply

/-!
# Terminal todos along a ledger

A done or superseded todo is reopened by an update with an explicit status or resume
condition only.  A superseded todo is to stay superseded under late results: the fold
of a completion checks for it, the folds of a resolved gate and of a changed monitor
poll do not, and these two are exactly the events that make it done.
-/

namespace FutureOs
namespace Orchestration

/-- An update of the todo with an explicit status or resume condition. -/
def EventKind.reopens (id : String) : EventKind → Bool
  | .todoUpdated todoId _ status _ _ _ resumeWhen _ _ _ _ =>
      todoId = id && (status.isSome || resumeWhen.isSome)
  | _ => false

/-- A result for the todo that is folded without a look at its status. -/
def EventKind.closes (id : String) : EventKind → Bool
  | .gateResolved todoId _ _ => todoId = id
  | .monitorPolled todoId result _ => todoId = id && result = "changed"
  | _ => false

/-- The status of a todo. -/
def Goal.statusOf (goal : Goal) (id : String) : Option TodoStatus :=
  (goal.todo id).map Todo.status

/-- Every todo is done or superseded. -/
def Goal.AllTerminal (goal : Goal) : Prop :=
  ∀ t ∈ goal.todos, t.status.terminal = true

section Effect

variable (now ts : Nat)
variable {kind : EventKind}
variable {id : String}
variable {t : Todo}

theorem status_effect_superseded
    (hkind : kind.reopens id = false)
    (ht : t.status = .superseded) :
    (kind.effect now ts id t).status = if kind.closes id then .done else .superseded := by
  unfold EventKind.effect
  cases kind with
  | todoCompleted todoId =>
      by_cases hid : todoId = id <;>
        simp [EventKind.target, EventKind.edit, EventKind.closes, Todo.completeAt, hid, ht]
  | todoUpdated todoId =>
      by_cases hid : todoId = id
      · simp only [EventKind.reopens, hid, decide_true, Bool.true_and, Bool.or_eq_false_iff,
          Option.isSome_eq_false_iff, Option.isNone_iff_eq_none] at hkind
        simp [EventKind.target, EventKind.edit, EventKind.closes, Todo.update, hid, hkind, ht]
      · simp [EventKind.target, EventKind.closes, hid, ht]
  | monitorPolled todoId result =>
      by_cases hid : todoId = id <;> by_cases hresult : result = "changed" <;>
        simp [EventKind.target, EventKind.edit, EventKind.closes, Todo.poll, hid, hresult, ht]
  | todoReleased todoId agentId =>
      by_cases hid : todoId = id <;> by_cases hagent : t.claimedBy = some agentId <;>
        simp [EventKind.target, EventKind.edit, EventKind.closes, Todo.release, Todo.unclaim,
          hid, hagent, ht]
  | todoExpired todoId =>
      by_cases hid : todoId = id <;> by_cases hclaim : t.claimedBy.isSome <;>
        simp [EventKind.target, EventKind.edit, EventKind.closes, Todo.expire, Todo.unclaim,
          hid, hclaim, ht]
  | todoSuperseded todoId | gateResolved todoId | todoClaimed todoId | todoArchived todoId
  | evidenceAttached todoId | todoRenewed todoId =>
      by_cases hid : todoId = id <;>
        simp [EventKind.target, EventKind.edit, EventKind.closes, Todo.resolve, Todo.claimBy,
          Todo.archive, Todo.renew, hid, ht]
  | _ =>
      simp [EventKind.target, EventKind.closes, ht]

/-- The edit of a todo is terminal or leaves its status, unless it is a reopening. -/
theorem status_edit
    (hid : kind.target = some id)
    (hkind : kind.reopens id = false)
    (t : Todo) :
    (kind.edit now ts t).status.terminal = true ∨ (kind.edit now ts t).status = t.status := by
  cases kind with
  | todoCompleted =>
      simp only [EventKind.edit, Todo.completeAt]
      split
      · exact Or.inr rfl
      · exact Or.inl rfl
  | todoSuperseded | gateResolved =>
      exact Or.inl rfl
  | todoUpdated todoId =>
      simp only [EventKind.target, Option.some.injEq] at hid
      simp only [EventKind.reopens, hid, decide_true, Bool.true_and, Bool.or_eq_false_iff,
        Option.isSome_eq_false_iff, Option.isNone_iff_eq_none] at hkind
      exact Or.inr (by simp [EventKind.edit, Todo.update, hkind])
  | monitorPolled =>
      simp only [EventKind.edit, Todo.poll]
      split
      · exact Or.inl rfl
      · exact Or.inr rfl
  | todoReleased =>
      simp only [EventKind.edit, Todo.release]
      split <;> exact Or.inr rfl
  | todoExpired =>
      simp only [EventKind.edit, Todo.expire]
      split <;> exact Or.inr rfl
  | _ =>
      exact Or.inr rfl

theorem terminal_effect
    (hkind : kind.reopens id = false)
    (ht : t.status.terminal = true) :
    (kind.effect now ts id t).status.terminal = true := by
  unfold EventKind.effect
  split
  · rename_i hid
    rcases status_edit now ts hid hkind t with hterminal | hsame
    · exact hterminal
    · rw [hsame]
      exact ht
  · exact ht

end Effect

section Step

variable {goal : Goal}
variable {event : Event}
variable {id : String}

theorem statusOf_eq_some
    {status : TodoStatus} :
    goal.statusOf id = some status ↔ ∃ t, goal.todo id = some t ∧ t.status = status := by
  simp [Goal.statusOf]

theorem superseded_step_iff
    (now : Nat)
    (hkind : event.kind.reopens id = false)
    (h : goal.statusOf id = some .superseded) :
    (apply now goal event).statusOf id = some .superseded ↔ event.kind.closes id = false := by
  obtain ⟨t, htodo, hstatus⟩ := statusOf_eq_some.1 h
  have hnext := status_effect_superseded now event.ts hkind hstatus
  rw [Goal.statusOf, todo_apply htodo, Option.map_some, hnext]
  cases event.kind.closes id <;> simp

theorem terminal_step
    (now : Nat)
    (hkind : event.kind.reopens id = false)
    (h : ∃ status, goal.statusOf id = some status ∧ status.terminal = true) :
    ∃ status, (apply now goal event).statusOf id = some status ∧ status.terminal = true := by
  obtain ⟨status, hstatus, hterminal⟩ := h
  obtain ⟨t, htodo, rfl⟩ := statusOf_eq_some.1 hstatus
  exact ⟨_, by rw [Goal.statusOf, todo_apply htodo, Option.map_some],
    terminal_effect now event.ts hkind hterminal⟩

theorem allTerminal_step
    (now : Nat)
    (hadded : ∀ t, event.kind ≠ .todoAdded t)
    (hkind : ∀ id, event.kind.reopens id = false)
    (h : goal.AllTerminal) :
    (apply now goal event).AllTerminal := by
  intro t' ht'
  obtain ⟨t, ht, rfl | ⟨htarget, rfl⟩⟩ := mem_todos_apply hadded ht'
  · exact h t' ht
  · rcases status_edit now event.ts htarget (hkind t.id) t with
      hterminal | hsame
    · exact hterminal
    · rw [hsame]
      exact h t ht

end Step

/-- The goal after the first `k` events. -/
def Goal.after (goal : Goal) (now : Nat) (events : List Event) (k : Nat) : Goal :=
  Machine.run (apply now) goal (events.take k)

/-- What every event of a ledger keeps, every prefix of the ledger keeps. -/
theorem after_invariant
    {I : Goal → Prop}
    {now : Nat}
    {events : List Event}
    (hstep : ∀ goal, ∀ event ∈ events, I goal → I (apply now goal event))
    {goal : Goal}
    (h : I goal)
    (k : Nat) :
    I (goal.after now events k) := by
  have hguard : Machine.Guarded (apply now) (fun _ event => event ∈ events) goal
      (events.take k) :=
    Machine.guarded_of_invariant (I := fun _ => True)
      (fun _ _ _ hmem => ⟨hmem, trivial⟩) trivial fun _ hmem => List.mem_of_mem_take hmem
  exact Machine.Guarded.invariant (fun g event hg hmem => hstep g event hmem hg) h hguard

theorem superseded_after_iff
    {goal : Goal}
    {id : String}
    (now : Nat)
    {events : List Event}
    (hquiet : ∀ event ∈ events, event.kind.reopens id = false)
    (h : goal.statusOf id = some .superseded) :
    (∀ k, (goal.after now events k).statusOf id = some .superseded) ↔
      ∀ event ∈ events, event.kind.closes id = false := by
  unfold Goal.after
  induction events generalizing goal with
  | nil =>
      simp [h]
  | cons event rest ih =>
      have hstep := superseded_step_iff now (hquiet event List.mem_cons_self) h
      have hrest := fun hnext : (apply now goal event).statusOf id = some .superseded =>
        ih (fun e he => hquiet e (List.mem_cons_of_mem _ he)) hnext
      rw [List.forall_mem_cons]
      constructor
      · intro hall
        have hnext := hall 1
        exact ⟨hstep.1 hnext, (hrest hnext).1 fun k => hall (k + 1)⟩
      · rintro ⟨hevent, hevents⟩ k
        have hnext := hstep.2 hevent
        cases k with
        | zero => exact h
        | succ k => exact (hrest hnext).2 hevents k

/--
With no update that reopens the todo: a superseded todo stays superseded exactly if no
gate resolution and no changed poll names it, and a done todo stays terminal.  With no
reopening and no new todo, all todos stay terminal once they are.
-/
theorem terminal_todos_kept_iff
    (now : Nat)
    (goal : Goal)
    (id : String)
    (events : List Event)
    (hquiet : ∀ event ∈ events, event.kind.reopens id = false) :
    (goal.statusOf id = some .superseded →
      ((∀ k, (goal.after now events k).statusOf id = some .superseded) ↔
        ∀ event ∈ events, event.kind.closes id = false)) ∧
    (goal.statusOf id = some .done →
      ∀ k, ∃ status, (goal.after now events k).statusOf id = some status ∧
        status.terminal = true) ∧
    ((∀ event ∈ events, (∀ t, event.kind ≠ .todoAdded t) ∧
        ∀ other, event.kind.reopens other = false) →
      goal.AllTerminal → ∀ k, (goal.after now events k).AllTerminal) := by
  refine ⟨superseded_after_iff now hquiet, fun h k => ?_, fun hevents h k => ?_⟩
  · exact after_invariant
      (I := fun g => ∃ status, g.statusOf id = some status ∧ status.terminal = true)
      (fun g event hmem hg => terminal_step now (hquiet event hmem) hg) ⟨.done, h, rfl⟩ k
  · exact after_invariant (I := Goal.AllTerminal)
      (fun g event hmem hg => allTerminal_step now (hevents event hmem).1
        (hevents event hmem).2 hg) h k

/-- A goal with one superseded gate. -/
def supersededGate : Goal :=
  { Goal.new 0 "g" "ship" "/work" with
    todos := [{ Todo.new 0 "gate" "release?" .userGate with status := .superseded }] }

/-- The answer to the gate arrives after it was superseded. -/
def lateAnswer : Event where
  goalId := "g"
  kind := .gateResolved "gate" "yes" none
  ts := 7

/-- The late answer makes the superseded gate done. -/
theorem late_answer_revives_gate :
    supersededGate.statusOf "gate" = some .superseded ∧
      lateAnswer.kind.reopens "gate" = false ∧
      (supersededGate.after 9 [lateAnswer] 1).statusOf "gate" = some .done := by
  decide +kernel

theorem terminal_todos_kept_claimed :
    (supersededGate.after 9 [{ lateAnswer with kind := .todoClaimed "gate" "a" 60 none }]
      1).statusOf "gate" = some .superseded :=
  ((terminal_todos_kept_iff 9 supersededGate "gate"
    [{ lateAnswer with kind := .todoClaimed "gate" "a" 60 none }]
    (by decide +kernel)).1 (by decide +kernel)).2 (by decide +kernel) 1

end Orchestration
end FutureOs
