import FutureOs.Orchestration.Store
import FutureOs.Orchestration.Wire

/-!
# Dependency edits

A ledger written by checked todo changes alone.  A change is checked for the references
of its own todo and for cycles through it only; since all edges it adds touch that todo,
the whole graph stays valid (`ValidWork`), and the sort of the graph is complete.
-/

namespace FutureOs
namespace Orchestration

/-- What the work graph reads of a todo. -/
def Todo.work (t : Todo) : String × TaskClass × Option String :=
  (t.id, t.taskClass, t.blockedByGate)

/-- Distinct ids, known references and no cycle. -/
structure ValidWork (todos : List Todo) : Prop where
  distinct : (todos.map Todo.id).Nodup
  known : KnownReferences todos
  acyclic : Digraph.Acyclic (declaredEdges todos)

/-! ## Only the work of the todos matters -/

section Work

theorem predecessorIds_congr
    {t t' : Todo}
    (h : t.work = t'.work) :
    predecessorIds t = predecessorIds t' := by
  unfold predecessorIds
  rw [show t.blockedByGate = t'.blockedByGate from congrArg (fun w => w.2.2) h]

theorem edgeWith_congr
    {t t' : Todo}
    (h : t.work = t'.work) :
    t.edgeWith = t'.edgeWith := by
  have hid : t.id = t'.id := congrArg Prod.fst h
  have hclass : t.taskClass = t'.taskClass := congrArg (fun w => w.2.1) h
  funext other
  unfold Todo.edgeWith isBlockingSource
  rw [hid, hclass]

theorem exists_work
    {todos todos' : List Todo}
    (h : todos.map Todo.work = todos'.map Todo.work)
    {t : Todo}
    (ht : t ∈ todos) :
    ∃ t' ∈ todos', t'.work = t.work :=
  List.mem_map.1 (h ▸ List.mem_map_of_mem ht)

theorem declaredEdges_subset
    {todos todos' : List Todo}
    (h : todos.map Todo.work = todos'.map Todo.work)
    {e : String × String}
    (he : e ∈ declaredEdges todos) :
    e ∈ declaredEdges todos' := by
  obtain ⟨t, ht, other, hother, rfl⟩ := mem_declaredEdges.1 he
  obtain ⟨t', ht', hwork⟩ := exists_work h ht
  refine mem_declaredEdges.2 ⟨t', ht', other, ?_, ?_⟩
  · rwa [predecessorIds_congr hwork]
  · rw [edgeWith_congr hwork]

theorem ValidWork.congr
    {todos todos' : List Todo}
    (hv : ValidWork todos)
    (h : todos.map Todo.work = todos'.map Todo.work) :
    ValidWork todos' := by
  have hids : todos.map Todo.id = todos'.map Todo.id := by
    have hfst := congrArg (List.map Prod.fst) h
    rwa [List.map_map, List.map_map] at hfst
  refine ⟨hids ▸ hv.distinct, fun t' ht' other hother => ?_, fun a hcycle => ?_⟩
  · obtain ⟨t, ht, hwork⟩ := exists_work h.symm ht'
    obtain ⟨hne, t1, ht1, rfl⟩ := hv.known t ht other (predecessorIds_congr hwork ▸ hother)
    obtain ⟨t1', ht1', hwork1⟩ := exists_work h ht1
    have hid : t.id = t'.id := congrArg Prod.fst hwork
    exact ⟨hid ▸ hne, t1', ht1', congrArg Prod.fst hwork1⟩
  · exact hv.acyclic a
      (Relation.TransGen.mono (fun _ _ hedge => declaredEdges_subset h.symm hedge) a a hcycle)

end Work

/-! ## Todo changes -/

/-- The todo an event adds. -/
def EventKind.added : EventKind → Option Todo
  | .todoAdded t => some t
  | _ => none

def EventKind.isTodoChange : EventKind → Bool
  | .todoAdded _
  | .todoUpdated _ _ _ _ _ _ _ _ _ _ _ => true
  | _ => false

theorem map_updateFirst
    {α β : Type}
    {p : α → Bool}
    {f : α → α}
    {q : β → Bool}
    {g : β → β}
    {m : α → β}
    (hp : ∀ a, p a = q (m a))
    (hf : ∀ a, m (f a) = g (m a))
    (l : List α) :
    (updateFirst p f l).map m = updateFirst q g (l.map m) := by
  induction l with
  | nil =>
      rfl
  | cons a rest ih =>
      rw [List.map_cons]
      unfold updateFirst
      rw [hp a]
      split
      · rw [List.map_cons, hf]
      · rw [List.map_cons, ih]

theorem map_updateFirst_of_kept
    {α β : Type}
    (p : α → Bool)
    {f : α → α}
    {m : α → β}
    (hf : ∀ a, m (f a) = m a)
    (l : List α) :
    (updateFirst p f l).map m = l.map m := by
  induction l with
  | nil =>
      rfl
  | cons a rest ih =>
      unfold updateFirst
      split
      · rw [List.map_cons, List.map_cons, hf]
      · rw [List.map_cons, List.map_cons, ih]

/-- What an update makes of the work of its todo. -/
def changeWork (blocks : Option (List String)) (w : String × TaskClass × Option String) :
    String × TaskClass × Option String :=
  (w.1, w.2.1, match blocks with
    | some [] => none
    | some ids => some (String.intercalate "," ids)
    | none => w.2.2)

theorem work_update
    (ts : Nat)
    (text status evidence note priority resumeWhen : Option String)
    (blocks : Option (List String))
    (acceptance owner : Option String)
    (resumeAtMs : Option Nat)
    (t : Todo) :
    (t.update ts text status evidence note priority resumeWhen blocks acceptance owner
      resumeAtMs).work = changeWork blocks t.work :=
  rfl

/-- The work after a change depends on the work before it only. -/
theorem work_apply_congr
    {event : Event}
    (hchange : event.kind.isTodoChange = true)
    {goal goal' : Goal}
    (h : goal.todos.map Todo.work = goal'.todos.map Todo.work)
    (now now' : Nat) :
    (apply now goal event).todos.map Todo.work =
      (apply now' goal' event).todos.map Todo.work := by
  obtain ⟨goalId, kind, ts⟩ := event
  cases kind with
  | todoAdded t =>
      obtain ⟨index, hadd⟩ := todos_addTodo goal t
      obtain ⟨index', hadd'⟩ := todos_addTodo goal' t
      change (goal.addTodo t).todos.map _ = (goal'.addTodo t).todos.map _
      rw [hadd, hadd', List.map_append, List.map_append, h]
      rfl
  | todoUpdated todoId text status evidence note priority resumeWhen blocks acceptance owner
      resumeAtMs =>
      have hmap : ∀ g : Goal, (g.todoMut todoId (Todo.update ts text status evidence note
          priority resumeWhen blocks acceptance owner resumeAtMs)).todos.map Todo.work =
          updateFirst (fun w => w.1 = todoId) (changeWork blocks) (g.todos.map Todo.work) := by
        intro g
        rw [todos_todoMut]
        refine map_updateFirst (fun t => ?_) (fun t => ?_) g.todos
        · rfl
        · exact work_update ..
      exact (hmap goal).trans ((congrArg _ h).trans (hmap goal').symm)
  | _ =>
      cases hchange

theorem work_run_congr
    {events : List Event}
    (hchanges : ∀ event ∈ events, event.kind.isTodoChange = true)
    {goal goal' : Goal}
    (h : goal.todos.map Todo.work = goal'.todos.map Todo.work)
    (now now' : Nat) :
    (Machine.run (apply now) goal events).todos.map Todo.work =
      (Machine.run (apply now') goal' events).todos.map Todo.work := by
  induction events generalizing goal goal' with
  | nil =>
      exact h
  | cons event rest ih =>
      refine ih (fun e he => hchanges e (List.mem_cons_of_mem _ he)) ?_
      exact work_apply_congr (hchanges event List.mem_cons_self) h now now'

/-! ## Checked changes -/

/-- A self-reference, an unknown id or a cycle through the todo. -/
def Refusable (goal : Goal) (todoId : String) : Prop :=
  goal.todo todoId = none ∨
    ∃ t, goal.todo todoId = some t ∧
      (todoId ∈ predecessorIds t ∨
        (∃ other ∈ predecessorIds t, goal.todo other = none) ∨
        Relation.TransGen (Digraph.Edge (declaredEdges goal.todos)) todoId todoId)

theorem validateDependencyChange_eq_ok
    {goal : Goal}
    {todoId : String} :
    validateDependencyChange goal todoId = .ok () ↔
      ∃ t, goal.todo todoId = some t ∧
        (∀ other ∈ predecessorIds t, other ≠ todoId ∧ (goal.todo other).isSome = true) ∧
        ¬Relation.TransGen (Digraph.Edge (declaredEdges goal.todos)) todoId todoId := by
  unfold validateDependencyChange
  cases goal.todo todoId with
  | none =>
      simp
  | some t =>
      dsimp only
      rw [bind_eq_ok]
      constructor
      · rintro ⟨⟨⟩, hreferences, hcycle⟩
        rw [ensure_eq_ok, onCycle_iff] at hcycle
        exact ⟨t, rfl, checkReferences_eq_ok.1 hreferences, hcycle⟩
      · rintro ⟨t', ht', hreferences, hcycle⟩
        obtain rfl := Option.some.inj ht'
        refine ⟨(), checkReferences_eq_ok.2 hreferences, ?_⟩
        rw [ensure_eq_ok, onCycle_iff]
        exact hcycle

/-- Nothing else is refused. -/
theorem refusable_of_validate_error
    {goal : Goal}
    {todoId error : String}
    (h : validateDependencyChange goal todoId = .error error) :
    Refusable goal todoId := by
  by_contra hnot
  unfold Refusable at hnot
  cases ht : goal.todo todoId with
  | none =>
      exact hnot (Or.inl ht)
  | some t =>
      have hok : validateDependencyChange goal todoId = .ok () := by
        refine validateDependencyChange_eq_ok.2 ⟨t, ht, fun other hother => ⟨?_, ?_⟩, ?_⟩
        · rintro rfl
          exact hnot (Or.inr ⟨t, ht, Or.inl hother⟩)
        · by_contra hunknown
          rw [Bool.not_eq_true, Option.isSome_eq_false_iff, Option.isNone_iff_eq_none] at hunknown
          exact hnot (Or.inr ⟨t, ht, Or.inr (Or.inl ⟨other, hother, hunknown⟩)⟩)
        · exact fun hcycle => hnot (Or.inr ⟨t, ht, Or.inr (Or.inr hcycle)⟩)
      rw [h] at hok
      cases hok

theorem mem_of_todo
    {goal : Goal}
    {id : String}
    {t : Todo}
    (h : goal.todo id = some t) :
    t ∈ goal.todos ∧ t.id = id := by
  unfold Goal.todo at h
  exact ⟨List.mem_of_find?_eq_some h, by simpa using List.find?_some h⟩

theorem todo_isSome_iff
    {goal : Goal}
    {id : String} :
    (goal.todo id).isSome = true ↔ ∃ t ∈ goal.todos, t.id = id := by
  unfold Goal.todo
  rw [List.find?_isSome]
  simp

/-- A checked change of one todo keeps the work valid. -/
theorem ValidWork.of_validated
    {todos : List Todo}
    (hv : ValidWork todos)
    {goal : Goal}
    (todoId : String)
    (hdistinct : (goal.todos.map Todo.id).Nodup)
    (hchanged : ∀ t ∈ goal.todos, t ∈ todos ∨ t.id = todoId)
    (hkept : ∀ t ∈ todos, ∃ t' ∈ goal.todos, t'.id = t.id)
    (hok : validateDependencyChange goal todoId = .ok ()) :
    ValidWork goal.todos := by
  obtain ⟨t, ht, hreferences, hcycle⟩ := validateDependencyChange_eq_ok.1 hok
  obtain ⟨htmem, htid⟩ := mem_of_todo ht
  refine ⟨hdistinct, fun t' ht' other hother => ?_, ?_⟩
  · by_cases hid : t'.id = todoId
    · obtain rfl : t' = t := List.inj_on_of_nodup_map hdistinct ht' htmem (hid.trans htid.symm)
      obtain ⟨hne, hknown⟩ := hreferences other hother
      exact ⟨htid ▸ hne, todo_isSome_iff.1 hknown⟩
    · obtain ⟨hne, t1, ht1, rfl⟩ :=
        hv.known t' ((hchanged t' ht').resolve_right hid) other hother
      exact ⟨hne, hkept t1 ht1⟩
  · refine hv.acyclic.of_incident (fun a b hedge => ?_) hcycle
    obtain ⟨t', ht', other, hother, hedge⟩ := mem_declaredEdges.1 hedge
    rcases hchanged t' ht' with hold | rfl
    · exact Or.inl (mem_declaredEdges.2 ⟨t', hold, other, hother, hedge⟩)
    · unfold Todo.edgeWith at hedge
      split at hedge
      · exact Or.inr (Or.inl (congrArg Prod.fst hedge).symm)
      · exact Or.inr (Or.inr (congrArg Prod.snd hedge).symm)

/-- A change that passes its check keeps the work valid. -/
theorem ValidWork.apply
    {now : Nat}
    {goal : Goal}
    (hv : ValidWork goal.todos)
    {event : Event}
    (hchange : event.kind.isTodoChange = true)
    (hfresh : ∀ t ∈ event.kind.added, goal.todo t.id = none)
    (hcheck : ∀ id, changedId event = .ok (some id) →
      validateDependencyChange (Orchestration.apply now goal event) id = .ok ()) :
    ValidWork (Orchestration.apply now goal event).todos := by
  obtain ⟨goalId, kind, ts⟩ := event
  cases kind with
  | todoAdded t =>
      obtain ⟨index, hadd⟩ := todos_addTodo goal t
      have htodos : (Orchestration.apply now goal ⟨goalId, .todoAdded t, ts⟩).todos =
          goal.todos ++ [{ t with index := index }] := hadd
      refine hv.of_validated t.id ?_ ?_ ?_ (hcheck t.id rfl)
      · rw [htodos, List.map_append, List.nodup_append]
        refine ⟨hv.distinct, List.nodup_singleton _, fun a ha b hb heq => ?_⟩
        obtain ⟨t', ht', rfl⟩ := List.mem_map.1 ha
        have hnew := List.find?_eq_none.1 (hfresh t rfl) t' ht'
        exact hnew (decide_eq_true (heq.trans (List.mem_singleton.1 hb)))
      · intro t' ht'
        rw [htodos] at ht'
        rcases List.mem_append.1 ht' with hold | hnew
        · exact Or.inl hold
        · rw [List.mem_singleton.1 hnew]
          exact Or.inr rfl
      · intro t' ht'
        rw [htodos]
        exact ⟨t', List.mem_append_left _ ht', rfl⟩
  | todoUpdated todoId text status evidence note priority resumeWhen blocks acceptance owner
      resumeAtMs =>
      have htodos : (Orchestration.apply now goal ⟨goalId, .todoUpdated todoId text status
          evidence note priority resumeWhen blocks acceptance owner resumeAtMs, ts⟩).todos =
          updateFirst (fun t => t.id = todoId) (Todo.update ts text status evidence note
            priority resumeWhen blocks acceptance owner resumeAtMs) goal.todos := rfl
      have hids : (updateFirst (fun t => t.id = todoId) (Todo.update ts text status evidence note
          priority resumeWhen blocks acceptance owner resumeAtMs) goal.todos).map Todo.id =
          goal.todos.map Todo.id := by
        refine map_updateFirst_of_kept _ (fun t => ?_) _
        rfl
      cases blocks with
      | none =>
          refine hv.congr ?_
          rw [htodos]
          refine (map_updateFirst_of_kept _ (fun t => ?_) _).symm
          rfl
      | some ids =>
          refine hv.of_validated todoId ?_ ?_ ?_ (hcheck todoId rfl)
          · rw [htodos, hids]
            exact hv.distinct
          · intro t' ht'
            rw [htodos] at ht'
            rcases mem_updateFirst ht' with hold | ⟨t, -, hid, rfl⟩
            · exact Or.inl hold
            · exact Or.inr (of_decide_eq_true hid)
          · intro t ht
            have hmem : t.id ∈ goal.todos.map Todo.id := List.mem_map_of_mem ht
            rw [← hids] at hmem
            rw [htodos]
            exact List.mem_map.1 hmem
  | _ =>
      cases hchange

/-! ## Runs of checked changes -/

/-- A checked change, at a clock reading of its process. -/
structure EditCall where
  now : Nat
  event : Event

section Runs

variable (derive : Event → String)
variable (entry : RegistryEntry)

/-- The lines after a call; a refused one leaves them. -/
def editStep (lines : List StoredEvent) (call : EditCall) : List StoredEvent :=
  match appendTodoChange derive call.now (some entry) lines call.event with
  | .ok (lines', _) => lines'
  | .error _ => lines

/-- A todo change whose id does not collide; an added todo has a new id. -/
def FreshEdit (lines : List StoredEvent) (call : EditCall) : Prop :=
  call.event.kind.isTodoChange = true ∧
    CollisionFree derive (lines.map StoredEvent.event ++ [call.event]) ∧
    ∀ t ∈ call.event.kind.added,
      ∀ goal ∈ (foldLedger derive call.now entry lines).toOption, goal.todo t.id = none

instance (lines : List StoredEvent) (call : EditCall) :
    Decidable (FreshEdit derive entry lines call) :=
  inferInstanceAs (Decidable (_ ∧ _ ∧ _))

/-- The goal of the recorded changes. -/
def editedGoal (now : Nat) (events : List Event) : Goal :=
  Machine.run (apply now) (Goal.new now entry.goalId entry.objective entry.cwd)
    (keepFirst events)

/-- The ledger holds todo changes, and the work they fold to is valid. -/
structure ValidLedger (lines : List StoredEvent) (events : List Event) : Prop where
  lines : lines = events.map (storedAs derive)
  free : CollisionFree derive events
  changes : ∀ event ∈ events, event.kind.isTodoChange = true
  valid : ∀ now, ValidWork (editedGoal entry now events).todos

variable {derive}
variable {entry}

theorem validLedger_empty : ValidLedger derive entry [] [] where
  lines := rfl
  free := fun _ ha => (List.not_mem_nil ha).elim
  changes := by simp
  valid := fun now => by
    refine ⟨List.nodup_nil, fun t ht => (List.not_mem_nil ht).elim, fun a hcycle => ?_⟩
    obtain ⟨_, _, hedge⟩ := Relation.TransGen.tail'_iff.1 hcycle
    exact List.not_mem_nil hedge

theorem ValidLedger.foldLedger_eq
    {lines : List StoredEvent}
    {events : List Event}
    (h : ValidLedger derive entry lines events)
    (now : Nat) :
    foldLedger derive now entry lines = .ok (editedGoal entry now events) := by
  rw [h.lines]
  exact foldLedger_storedAs h.free now entry

/-- What an edit is checked for, on the goal of the recorded changes. -/
theorem ValidLedger.validateChange_eq
    {lines : List StoredEvent}
    {events : List Event}
    (h : ValidLedger derive entry lines events)
    {event : Event}
    (hchange : event.kind.isTodoChange = true)
    (now : Nat) :
    (∃ id, changedId event = .ok (some id) ∧
      validateChange derive now entry event lines =
        validateDependencyChange (apply now (editedGoal entry now events) event) id) ∨
    (changedId event = .ok none ∧ validateChange derive now entry event lines = .ok ()) := by
  unfold validateChange
  rw [h.foldLedger_eq now, except_ok_bind]
  obtain ⟨goalId, kind, ts⟩ := event
  cases kind with
  | todoAdded t =>
      exact Or.inl ⟨t.id, rfl, rfl⟩
  | todoUpdated todoId _ _ _ _ _ _ blocks =>
      cases blocks with
      | none => exact Or.inr ⟨rfl, rfl⟩
      | some ids => exact Or.inl ⟨todoId, rfl, rfl⟩
  | _ =>
      cases hchange

/-- A validated change leaves a valid ledger. -/
theorem ValidLedger.concat
    {lines : List StoredEvent}
    {events : List Event}
    (h : ValidLedger derive entry lines events)
    {call : EditCall}
    (hcall : FreshEdit derive entry lines call)
    (hnew : call.event ∉ events)
    (hvalidated : validateChange derive call.now entry call.event lines = .ok ()) :
    ValidLedger derive entry ((events ++ [call.event]).map (storedAs derive))
      (events ++ [call.event]) := by
  obtain ⟨hchange, hfree, hfresh⟩ := hcall
  have hevents : lines.map StoredEvent.event = events := by
    rw [h.lines, map_event_storedAs]
  rw [hevents] at hfree
  have hchanges : ∀ event ∈ events ++ [call.event], event.kind.isTodoChange = true := by
    intro event hevent
    rcases List.mem_append.1 hevent with hold | hlast
    · exact h.changes event hold
    · rwa [List.mem_singleton.1 hlast]
  refine ⟨rfl, hfree, hchanges, fun now => ?_⟩
  have hgoal : ∀ now, editedGoal entry now (events ++ [call.event]) =
      apply now (editedGoal entry now events) call.event := by
    intro now
    unfold editedGoal
    rw [keepFirst_concat, if_neg (fun hold => hnew (mem_keepFirst.1 hold)), Machine.run_concat]
  have hvalid : ValidWork (apply call.now (editedGoal entry call.now events) call.event).todos := by
    refine (h.valid call.now).apply hchange (fun t ht => ?_) (fun id hid => ?_)
    · refine hfresh t ht _ ?_
      rw [h.foldLedger_eq]
      rfl
    · rcases h.validateChange_eq hchange call.now with ⟨id', hid', hcheck⟩ | ⟨hnone, -⟩
      · rw [hid] at hid'
        obtain rfl := Option.some.inj (Except.ok.inj hid')
        rw [← hcheck]
        exact hvalidated
      · rw [hid] at hnone
        cases hnone
  -- The check ran at the clock of the call; the work is the same at any other.
  rw [← hgoal] at hvalid
  refine hvalid.congr ?_
  unfold editedGoal
  refine work_run_congr (fun event hevent => ?_) ?_ call.now now
  · exact hchanges event (mem_keepFirst.1 hevent)
  · rfl

/-- A call leaves a valid ledger, and what it refuses is refusable. -/
theorem ValidLedger.step
    {lines : List StoredEvent}
    {events : List Event}
    (h : ValidLedger derive entry lines events)
    {call : EditCall}
    (hcall : FreshEdit derive entry lines call) :
    (∃ events', ValidLedger derive entry (editStep derive entry lines call) events') ∧
      ∀ error, appendTodoChange derive call.now (some entry) lines call.event = .error error →
        ∃ id, changedId call.event = .ok (some id) ∧
          Refusable (apply call.now (editedGoal entry call.now events) call.event) id := by
  have hevents : lines.map StoredEvent.event = events := by
    rw [h.lines, map_event_storedAs]
  have hfree : CollisionFree derive (call.event :: events) := by
    refine hcall.2.1.subset fun e he => ?_
    rw [hevents]
    rcases List.mem_cons.1 he with rfl | he
    · exact List.mem_append_right _ List.mem_cons_self
    · exact List.mem_append_left _ he
  have happend : appendTodoChange derive call.now (some entry) lines call.event =
      (if call.event ∈ events then
        .ok (lines, derive call.event)
      else
        validateChange derive call.now entry call.event lines >>= fun _ =>
          .ok ((events ++ [call.event]).map (storedAs derive), derive call.event)) := by
    unfold appendTodoChange
    rw [context_some, except_ok_bind]
    conv_lhs => rw [h.lines]
    rw [appendEventLocked_storedAs hfree, ← h.lines]
    split
    · rfl
    · cases validateChange derive call.now entry call.event lines <;> rfl
  unfold editStep
  rw [happend]
  by_cases hold : call.event ∈ events
  · rw [if_pos hold]
    exact ⟨⟨events, h⟩, fun error herror => by cases herror⟩
  · rw [if_neg hold]
    cases hvalidated : validateChange derive call.now entry call.event lines with
    | ok u =>
        exact ⟨⟨_, h.concat hcall hold hvalidated⟩, fun error herror => by cases herror⟩
    | error e =>
        refine ⟨⟨events, h⟩, fun error _ => ?_⟩
        rcases h.validateChange_eq hcall.1 call.now with ⟨id, hid, hcheck⟩ | ⟨-, hok⟩
        · rw [hcheck] at hvalidated
          exact ⟨id, hid, refusable_of_validate_error hvalidated⟩
        · rw [hok] at hvalidated
          cases hvalidated

end Runs

/-! ## The graph after the changes -/

/-- The graph has no cycle, and its order lists each todo once with every edge forward. -/
structure GraphInOrder (goal : Goal) (graph : TaskGraph) (order : List String) : Prop where
  built : buildTaskGraph goal = .ok graph
  acyclic : graph.cycle = none
  ordered : graph.topologicalOrder = some order
  once : order.Nodup ∧ ∀ id, id ∈ order ↔ ∃ t ∈ goal.todos, t.id = id
  forward : ∀ edge ∈ graph.edges, order.idxOf edge.source < order.idxOf edge.target

theorem ValidWork.graph
    {goal : Goal}
    (hv : ValidWork goal.todos) :
    ∃ graph order, GraphInOrder goal graph order := by
  obtain ⟨graph, hgraph⟩ := exists_buildTaskGraph hv.known
  obtain ⟨-, hedges, hacyclic, hordered⟩ := buildTaskGraph_spec hgraph
  have hcycle := hacyclic hv.acyclic
  obtain ⟨order, horder, hspec, hall⟩ := hordered hcycle
  refine ⟨graph, order, hgraph, hcycle, horder, ⟨hspec.nodup, fun id => ⟨hspec.known id, ?_⟩⟩,
    fun edge hedge => ?_⟩
  · rintro ⟨t, ht, rfl⟩
    exact hall t ht
  · have he : Digraph.Edge (declaredEdges goal.todos) edge.source edge.target :=
      (hedges _ _).2 ⟨edge, hedge, rfl, rfl⟩
    obtain ⟨-, t, ht, hid⟩ := hv.known.edge he
    have htarget : edge.target ∈ order := by
      rw [← show t.id = edge.target from hid]
      exact hall t ht
    exact hspec.forward.idxOf_lt he htarget

/--
After any run of checked changes the graph of the goal is valid, at every clock reading,
and the next change is refused only for a self-reference, an unknown id or a cycle
through its own todo.
-/
theorem checked_changes_keep_graph
    (derive : Event → String)
    (entry : RegistryEntry)
    (calls : List EditCall)
    (hcalls : Machine.Guarded (editStep derive entry) (FreshEdit derive entry) [] calls) :
    let lines := Machine.run (editStep derive entry) [] calls
    (∀ now, ∃ goal graph order, foldLedger derive now entry lines = .ok goal ∧
      GraphInOrder goal graph order) ∧
    ∀ call, FreshEdit derive entry lines call → ∀ error,
      appendTodoChange derive call.now (some entry) lines call.event = .error error →
      ∃ goal id, foldLedger derive call.now entry lines = .ok goal ∧
        changedId call.event = .ok (some id) ∧ Refusable (apply call.now goal call.event) id := by
  intro lines
  obtain ⟨events, hledger⟩ : ∃ events, ValidLedger derive entry lines events :=
    Machine.Guarded.invariant (I := fun lines => ∃ events, ValidLedger derive entry lines events)
      (fun lines call ⟨events, h⟩ hcall => (h.step hcall).1) ⟨[], validLedger_empty⟩ hcalls
  refine ⟨fun now => ?_, fun call hcall error herror => ?_⟩
  · obtain ⟨graph, order, hgraph⟩ := (hledger.valid now).graph
    exact ⟨_, graph, order, hledger.foldLedger_eq now, hgraph⟩
  · obtain ⟨id, hid, hrefusable⟩ := (hledger.step hcall).2 error herror
    exact ⟨_, id, hledger.foldLedger_eq call.now, hid, hrefusable⟩

def editEntry : RegistryEntry where
  goalId := "g"
  objective := "ship"
  cwd := "/work"
  status := "active"
  createdAt := 5

/-- Two todos, the second blocked by the first. -/
def twoChanges : List EditCall :=
  [{ now := 5
     event :=
       { goalId := "g", kind := .todoAdded (Todo.new 5 "T1" "write" .advancement), ts := 5 } },
    { now := 6
      event :=
        { goalId := "g"
          kind := .todoAdded
            { Todo.new 6 "T2" "test" .advancement with blockedByGate := some "T1" }
          ts := 6 } }]

theorem two_changes_keep_graph :
    ∃ goal graph order,
      foldLedger (deriveEventId serializeEvent) 9 editEntry
        (Machine.run (editStep (deriveEventId serializeEvent) editEntry) [] twoChanges) =
        .ok goal ∧
      GraphInOrder goal graph order :=
  (checked_changes_keep_graph (deriveEventId serializeEvent) editEntry twoChanges
    (by decide +kernel)).1 9

end Orchestration
end FutureOs
