import FutureOs.Orchestration.Replay

/-!
# What a replay takes from the clock

Two replays of one ledger differ in the freshness stamp, which is not persisted, in the
creation time where nothing records it, and in the update stamps that an event leaves to
the clock.  `stamped` follows the latter through the fold: an archiving leaves the
clock's reading, and the events that write their own second afterwards remove it.  The
replay at any reading is the replay at reading zero with the reading painted over the
stamps that are left to the clock (`run_painted`).
-/

namespace FutureOs
namespace Orchestration

/--
Whether the update stamp of a todo is the clock's after an event that names it, given
whether it was before.
-/
def EventKind.leavesClock (kind : EventKind) (t : Todo) (before : Bool) : Bool :=
  match kind with
  | .todoArchived _ => true
  | .todoUpdated _ _ _ _ _ _ _ _ _ _ _
  | .gateResolved _ _ _
  | .monitorPolled _ _ _
  | .evidenceAttached _ _
  | .todoRenewed _ _ _ => false
  | .todoCompleted _ _ _ _ => before && t.status = .superseded
  | .todoReleased _ agentId => before && t.claimedBy ≠ some agentId
  | .todoExpired _ => before && t.claimedBy = none
  | _ => before

/-- The ids whose stamp is the clock's, one event later. -/
def stampedStep (goal : Goal) (clocked : String → Bool) (event : Event) : String → Bool :=
  fun id =>
    match goal.todo id with
    | some t =>
        if event.kind.target = some id then
          event.kind.leavesClock t (clocked id)
        else
          clocked id
    | none => false

/-- The fold together with the ids whose stamp is the clock's. -/
def stamped : Goal × (String → Bool) → Event → Goal × (String → Bool)
  | (goal, clocked), event => (apply 0 goal event, stampedStep goal clocked event)

/-- After the ledger no update stamp is the clock's. -/
def NoneClocked (entry : RegistryEntry) (ledger : List Event) : Prop :=
  ∀ id, (Machine.run stamped (Goal.seed 0 entry ledger, fun _ => false) ledger).2 id = false

/-- The goals agree in what is persisted, and in the creation time where it is known. -/
def SamePersisted (known : Prop) (goal goal' : Goal) : Prop :=
  { goal with decisionFreshness := none, createdAt := 0 } =
      { goal' with decisionFreshness := none, createdAt := 0 } ∧
    (known → goal.createdAt = goal'.createdAt)

/-- The creation time is recorded in the ledger or in the registry. -/
def CreationKnown (entry : RegistryEntry) (ledger : List Event) : Prop :=
  (∃ event ∈ ledger, event.kind = .goalStarted) ∨ 0 < entry.createdAt

/-! ## Painting a reading over the clocked stamps -/

def Todo.paint (now : Nat) (clocked : Bool) (t : Todo) : Todo :=
  { t with updatedAt := if clocked then now else t.updatedAt }

/-- Paint the first todo of every clocked id. -/
def paint (now : Nat) : (String → Bool) → List Todo → List Todo
  | _, [] => []
  | clocked, t :: rest =>
      t.paint now (clocked t.id) :: paint now (fun id => id ≠ t.id && clocked id) rest

@[simp] theorem id_paint (now : Nat) (b : Bool) (t : Todo) : (t.paint now b).id = t.id := rfl

@[simp] theorem paint_false (now : Nat) (t : Todo) : t.paint now false = t := rfl

theorem completeAt_paint
    (now ts : Nat)
    (noFollowUp : Bool)
    (successorIds : List String)
    (evidence : Option String)
    (t : Todo)
    (b : Bool) :
    Todo.completeAt now ts noFollowUp successorIds evidence (t.paint now b) =
      (Todo.completeAt 0 ts noFollowUp successorIds evidence t).paint now
        (b && t.status = .superseded) := by
  unfold Todo.completeAt
  by_cases h : t.status = .superseded
  · have hpaint : (t.paint now b).status = .superseded := h
    rw [if_pos h, if_pos hpaint]
    simp [h]
  · have hpaint : (t.paint now b).status ≠ .superseded := h
    rw [if_neg h, if_neg hpaint, decide_eq_false h, Bool.and_false]
    rfl

theorem poll_paint
    (now ts : Nat)
    (result : String)
    (noChangeCount : Nat)
    (t : Todo)
    (b : Bool) :
    Todo.poll ts result noChangeCount (t.paint now b) = Todo.poll ts result noChangeCount t := by
  unfold Todo.poll
  split <;> rfl

theorem release_paint
    (now ts : Nat)
    (agentId : String)
    (t : Todo)
    (b : Bool) :
    Todo.release ts agentId (t.paint now b) =
      (Todo.release ts agentId t).paint now (b && t.claimedBy ≠ some agentId) := by
  unfold Todo.release
  by_cases h : t.claimedBy = some agentId
  · have hpaint : (t.paint now b).claimedBy = some agentId := h
    rw [if_pos h, if_pos hpaint]
    simp only [h, ne_eq, not_true_eq_false, decide_false, Bool.and_false]
    rfl
  · have hpaint : (t.paint now b).claimedBy ≠ some agentId := h
    rw [if_neg h, if_neg hpaint]
    simp [h]

theorem expire_paint
    (now ts : Nat)
    (t : Todo)
    (b : Bool) :
    Todo.expire ts (t.paint now b) =
      (Todo.expire ts t).paint now (b && t.claimedBy = none) := by
  unfold Todo.expire
  have hpaint : (t.paint now b).claimedBy = t.claimedBy := rfl
  rw [hpaint]
  cases h : t.claimedBy with
  | none =>
      simp
  | some holder =>
      simp only [Option.isSome_some, if_true, reduceCtorEq, decide_false, Bool.and_false]
      rfl

/-- Painting before an edit is painting after it, where the edit leaves the stamp. -/
theorem edit_paint
    (now ts : Nat)
    (kind : EventKind)
    (t : Todo)
    (b : Bool)
    (htarget : kind.target.isSome) :
    kind.edit now ts (t.paint now b) = (kind.edit 0 ts t).paint now (kind.leavesClock t b) := by
  cases kind with
  | todoCompleted _ noFollowUp successorIds evidence =>
      exact completeAt_paint now ts noFollowUp successorIds evidence t b
  | monitorPolled _ result noChangeCount =>
      exact poll_paint now ts result noChangeCount t b
  | todoReleased _ agentId =>
      exact release_paint now ts agentId t b
  | todoExpired _ =>
      exact expire_paint now ts t b
  | todoSuperseded | todoUpdated | gateResolved | todoClaimed | todoArchived
  | evidenceAttached | todoRenewed =>
      rfl
  | _ =>
      cases htarget

theorem paint_congr
    (now : Nat)
    {clocked clocked' : String → Bool}
    {todos : List Todo}
    (h : ∀ t ∈ todos, clocked t.id = clocked' t.id) :
    paint now clocked todos = paint now clocked' todos := by
  induction todos generalizing clocked clocked' with
  | nil =>
      rfl
  | cons t rest ih =>
      unfold paint
      rw [h t List.mem_cons_self, ih]
      intro t' ht'
      simp [h t' (List.mem_cons_of_mem _ ht')]

theorem paint_false_all (now : Nat) (todos : List Todo) :
    paint now (fun _ => false) todos = todos := by
  induction todos with
  | nil =>
      rfl
  | cons t rest ih =>
      simp [paint, ih]

/-- The painted todo with an id. -/
theorem find?_paint
    (now : Nat)
    (clocked : String → Bool)
    (id : String)
    (todos : List Todo) :
    (paint now clocked todos).find? (fun t => t.id = id) =
      (todos.find? fun t => t.id = id).map (Todo.paint now (clocked id)) := by
  induction todos generalizing clocked with
  | nil =>
      rfl
  | cons t rest ih =>
      unfold paint
      by_cases h : t.id = id
      · simp [h]
      · simp [h, ih, Ne.symm h]

theorem paint_append_fresh
    (now : Nat)
    {clocked : String → Bool}
    {todos : List Todo}
    {t : Todo}
    (hknown : ∀ id, clocked id = true → ∃ t ∈ todos, t.id = id) :
    paint now clocked (todos ++ [t]) = paint now clocked todos ++ [t] := by
  induction todos generalizing clocked with
  | nil =>
      have hid : clocked t.id = false := by
        by_contra h
        simpa using hknown t.id (by simpa using h)
      simp [paint, hid]
  | cons t' rest ih =>
      simp only [List.cons_append, paint]
      rw [ih]
      intro id hid
      rw [Bool.and_eq_true, decide_eq_true_eq] at hid
      obtain ⟨t'', hmem, rfl⟩ := hknown id hid.2
      rcases List.mem_cons.1 hmem with rfl | hrest
      · exact absurd rfl hid.1
      · exact ⟨t'', hrest, rfl⟩

theorem updateFirst_paint
    (now ts : Nat)
    {kind : EventKind}
    {id : String}
    (htarget : kind.target = some id)
    (clocked clocked' : String → Bool)
    {todos : List Todo}
    (hfound : ∀ t, todos.find? (fun t => t.id = id) = some t →
      clocked' id = kind.leavesClock t (clocked id))
    (hother : ∀ other, other ≠ id → clocked' other = clocked other) :
    updateFirst (fun t => t.id = id) (kind.edit now ts) (paint now clocked todos) =
      paint now clocked' (updateFirst (fun t => t.id = id) (kind.edit 0 ts) todos) := by
  induction todos generalizing clocked clocked' with
  | nil =>
      rfl
  | cons t rest ih =>
      by_cases hid : t.id = id
      · have hclocked : clocked' id = kind.leavesClock t (clocked id) :=
          hfound t (by simp [hid])
        simp only [paint, updateFirst, id_paint, id_edit, hid, decide_true, if_true, hclocked]
        congr 1
        · exact edit_paint now ts kind t (clocked id) (by simp [htarget])
        · refine paint_congr now fun t' _ => ?_
          by_cases hid' : t'.id = id
          · simp [hid']
          · simp [hid', hother t'.id hid']
      · simp only [paint, updateFirst, id_paint, hid, decide_false, Bool.false_eq_true, if_false,
          hother t.id hid]
        congr 1
        refine ih _ _ (fun t' ht' => ?_) fun other hne => ?_
        · have hfirst : (t :: rest).find? (fun t => t.id = id) = some t' := by
            simpa [hid] using ht'
          simp [Ne.symm hid, hfound t' hfirst]
        · simp [hother other hne]

/-! ## The simulation -/

/-- The goal as a replay at `now` has it. -/
def Goal.dress (goal : Goal) (now createdAt : Nat) (freshness : Option DecisionFreshness)
    (clocked : String → Bool) : Goal :=
  { goal with
    createdAt := createdAt
    decisionFreshness := freshness
    todos := paint now clocked goal.todos }

/-- Only known todos have a clocked stamp. -/
def Goal.Knows (goal : Goal) (clocked : String → Bool) : Prop :=
  ∀ id, clocked id = true → ∃ t, goal.todo id = some t

section Dress

variable {goal : Goal}
variable {now createdAt ts : Nat}
variable {freshness : Option DecisionFreshness}
variable {clocked : String → Bool}

theorem dress_recordSemanticEvent
    (kind : String)
    (todoId : Option String)
    (summary : String) :
    (goal.dress now createdAt freshness clocked).recordSemanticEvent kind todoId summary ts =
      (goal.recordSemanticEvent kind todoId summary ts).dress now createdAt freshness
        clocked := by
  unfold Goal.recordSemanticEvent
  rfl

theorem dress_frontierChanged :
    (goal.dress now createdAt freshness clocked).frontierChanged ts =
      (goal.frontierChanged ts).dress now createdAt freshness clocked := rfl

theorem clocked_of_unknown
    (hknows : goal.Knows clocked)
    {id : String}
    (h : goal.todo id = none) :
    clocked id = false := by
  by_contra hclocked
  obtain ⟨t, ht⟩ := hknows id (by simpa using hclocked)
  rw [h] at ht
  cases ht

theorem stampedStep_of_ne
    (hknows : goal.Knows clocked)
    {event : Event}
    {id : String}
    (h : event.kind.target ≠ some id) :
    stampedStep goal clocked event id = clocked id := by
  unfold stampedStep
  cases htodo : goal.todo id with
  | none =>
      exact (clocked_of_unknown hknows htodo).symm
  | some t =>
      exact if_neg h

theorem dress_todoMut
    (hknows : goal.Knows clocked)
    {event : Event}
    {id : String}
    (htarget : event.kind.target = some id) :
    (goal.dress now createdAt freshness clocked).todoMut id (event.kind.edit now event.ts) =
      (goal.todoMut id (event.kind.edit 0 event.ts)).dress now createdAt freshness
        (stampedStep goal clocked event) := by
  have htodos := updateFirst_paint now event.ts htarget clocked
    (stampedStep goal clocked event)
    (fun t ht => by
      have htodo : goal.todo id = some t := ht
      simp [stampedStep, htodo, htarget])
    (fun other hne => stampedStep_of_ne hknows (by simpa [htarget] using Ne.symm hne))
  unfold Goal.todoMut Goal.dress
  simp only [htodos]

theorem dress_addTodo
    (hknows : goal.Knows clocked)
    (t : Todo) :
    (goal.dress now createdAt freshness clocked).addTodo t =
      (goal.addTodo t).dress now createdAt freshness clocked := by
  have hknown : ∀ id, clocked id = true → ∃ t ∈ goal.todos, t.id = id := by
    intro id hid
    obtain ⟨t', ht'⟩ := hknows id hid
    exact ⟨t', List.mem_of_find?_eq_some ht', by simpa using List.find?_some ht'⟩
  unfold Goal.addTodo Goal.dress
  split
  · simp only [paint_append_fresh now hknown]
  · simp only [paint_append_fresh now hknown]

/-- The fold at `now` of a painted goal is the painted fold at zero. -/
theorem apply_dress
    (hknows : goal.Knows clocked)
    (event : Event) :
    apply now (goal.dress now createdAt freshness clocked) event =
      (apply 0 goal event).dress now
        (if event.kind = .goalStarted then event.ts else createdAt) freshness
        (stampedStep goal clocked event) := by
  have hedit : ∀ {id}, event.kind.target = some id →
      (goal.dress now createdAt freshness clocked).todoMut id (event.kind.edit now event.ts) =
        (goal.todoMut id (event.kind.edit 0 event.ts)).dress now createdAt freshness
          (stampedStep goal clocked event) :=
    fun htarget => dress_todoMut hknows htarget
  have hkeep : event.kind.target = none → stampedStep goal clocked event = clocked :=
    fun htarget => funext fun id => stampedStep_of_ne hknows (by simp [htarget])
  obtain ⟨goalId, kind, ts⟩ := event
  cases kind with
  | goalStarted =>
      rw [hkeep rfl]
      rfl
  | todoAdded t =>
      rw [hkeep rfl]
      simp only [apply, dress_addTodo hknows, dress_frontierChanged, reduceCtorEq, if_false]
  | todoCompleted | todoSuperseded | gateResolved | todoArchived =>
      have h := hedit rfl
      simp only [EventKind.edit] at h
      simp only [apply, Goal.supersede, Goal.archiveTodo, h, dress_frontierChanged,
        dress_recordSemanticEvent, reduceCtorEq, if_false]
  | monitorPolled =>
      have h := hedit rfl
      simp only [EventKind.edit] at h
      simp only [apply, h, dress_recordSemanticEvent, reduceCtorEq, if_false]
  | todoUpdated | todoClaimed | evidenceAttached | todoRenewed | todoReleased | todoExpired =>
      exact hedit rfl
  | gapSatisfied gapId =>
      have h : (goal.dress now createdAt freshness clocked).satisfyGap gapId =
        (goal.satisfyGap gapId).dress now createdAt freshness clocked := rfl
      rw [hkeep rfl]
      simp only [apply, h, dress_recordSemanticEvent, reduceCtorEq, if_false]
  | runRecorded record =>
      rw [hkeep rfl]
      simp only [apply, dress_recordSemanticEvent, reduceCtorEq, if_false]
      split <;> rfl
  | replanAcked deltaKinds =>
      rw [hkeep rfl]
      simp only [apply, Goal.recordSemanticEvent, reduceCtorEq, if_false]
      split <;> rfl
  | deliveryOutcomeRecorded todoId outcome note deliveredTurn seq =>
      have h : (goal.dress now createdAt freshness clocked).applyDeliveryOutcome todoId outcome
          note deliveredTurn seq ts =
        (goal.applyDeliveryOutcome todoId outcome note deliveredTurn seq ts).dress now
          createdAt freshness clocked := rfl
      rw [hkeep rfl]
      simp only [apply, h, dress_recordSemanticEvent, reduceCtorEq, if_false]
  | turnNoProgress | replanRuleSetUpdated =>
      rw [hkeep rfl]
      simp only [apply, Goal.recordSemanticEvent, reduceCtorEq, if_false]
      rfl
  | steerConsumed =>
      rw [hkeep rfl]
      have h : (goal.dress now createdAt freshness clocked).pendingSteer =
        goal.pendingSteer := rfl
      simp only [apply, h, reduceCtorEq, if_false]
      split <;> rfl
  | _ =>
      rw [hkeep rfl]
      rfl

theorem knows_stampedStep (event : Event) :
    (apply 0 goal event).Knows (stampedStep goal clocked event) := by
  intro id hid
  unfold stampedStep at hid
  cases htodo : goal.todo id with
  | none =>
      rw [htodo] at hid
      cases hid
  | some t =>
      exact ⟨_, todo_apply htodo 0 event⟩

end Dress

/-- The creation time after a ledger: the last recorded one, else the given one. -/
def createdAfter (createdAt : Nat) (ledger : List Event) : Nat :=
  ledger.foldl
    (fun created event => if event.kind = .goalStarted then event.ts else created) createdAt

theorem createdAfter_of_started
    {ledger : List Event}
    (h : ∃ event ∈ ledger, event.kind = .goalStarted)
    (createdAt createdAt' : Nat) :
    createdAfter createdAt ledger = createdAfter createdAt' ledger := by
  induction ledger generalizing createdAt createdAt' with
  | nil =>
      simp at h
  | cons event rest ih =>
      unfold createdAfter
      rw [List.foldl_cons, List.foldl_cons]
      by_cases hevent : event.kind = .goalStarted
      · simp [hevent]
      · obtain ⟨started, hmem, hstarted⟩ := h
        rcases List.mem_cons.1 hmem with rfl | hrest
        · exact absurd hstarted hevent
        · rw [if_neg hevent, if_neg hevent]
          exact ih ⟨started, hrest, hstarted⟩ createdAt createdAt'

/-- The fold at any reading, from the fold at reading zero. -/
theorem run_painted
    (now : Nat)
    (freshness : Option DecisionFreshness)
    {goal : Goal}
    {clocked : String → Bool}
    (hknows : goal.Knows clocked)
    (createdAt : Nat)
    (ledger : List Event) :
    let after := Machine.run stamped (goal, clocked) ledger
    after.1.Knows after.2 ∧
      Machine.run (apply now) (goal.dress now createdAt freshness clocked) ledger =
        after.1.dress now (createdAfter createdAt ledger) freshness after.2 := by
  induction ledger generalizing goal clocked createdAt with
  | nil =>
      exact ⟨hknows, rfl⟩
  | cons event rest ih =>
      simp only [Machine.run_cons, apply_dress hknows]
      exact ih (knows_stampedStep event) _

/-- A replay at `now`, from what the fold at zero leaves. -/
theorem replay_painted
    (now : Nat)
    (entry : RegistryEntry)
    (ledger : List Event)
    (files : SideFiles) :
    let after := Machine.run stamped (Goal.seed 0 entry ledger, fun _ => false) ledger
    after.1.Knows after.2 ∧
      replay now entry ledger files =
        (after.1.dress now
          (createdAfter (if 0 < entry.createdAt then entry.createdAt else now) ledger)
          (some (Goal.freshness now ledger)) after.2).restore files := by
  have hseed : Goal.seed now entry ledger =
      (Goal.seed 0 entry ledger).dress now
        (if 0 < entry.createdAt then entry.createdAt else now)
        (some (Goal.freshness now ledger)) (fun _ => false) := rfl
  have hknows : (Goal.seed 0 entry ledger).Knows fun _ => false :=
    fun _ hid => by cases hid
  have hrun := run_painted now (some (Goal.freshness now ledger)) hknows
    (if 0 < entry.createdAt then entry.createdAt else now) ledger
  refine ⟨hrun.1, ?_⟩
  unfold replay
  rw [hseed, hrun.2]

/--
Two replays of a ledger agree in all that is persisted, whatever the clock shows, exactly
if no todo is archived with no event after it that writes its own second into the stamp.
-/
theorem replay_clock_free_iff
    (entry : RegistryEntry)
    (ledger : List Event)
    (files : SideFiles) :
    (∀ now now', SamePersisted (CreationKnown entry ledger)
      (replay now entry ledger files) (replay now' entry ledger files)) ↔
      NoneClocked entry ledger := by
  constructor
  · intro hsame id
    by_contra hid
    obtain ⟨hknows, h0⟩ := replay_painted 0 entry ledger files
    obtain ⟨-, h1⟩ := replay_painted 1 entry ledger files
    generalize Machine.run stamped (Goal.seed 0 entry ledger, fun _ => false) ledger = after
      at hid hknows h0 h1
    obtain ⟨t, ht⟩ := hknows id (by simpa using hid)
    have htodos : paint 0 after.2 after.1.todos = paint 1 after.2 after.1.todos := by
      have h := congrArg Goal.todos (hsame 0 1).1
      rw [h0, h1] at h
      exact h
    have hfound := congrArg (List.find? fun t => t.id = id) htodos
    rw [find?_paint, find?_paint] at hfound
    unfold Goal.todo at ht
    rw [ht] at hfound
    have hstamp := congrArg (Option.map Todo.updatedAt) hfound
    simp [Todo.paint, hid] at hstamp
  · intro hnone now now'
    have hclocked := funext hnone
    obtain ⟨-, h⟩ := replay_painted now entry ledger files
    obtain ⟨-, h'⟩ := replay_painted now' entry ledger files
    rw [h, h', hclocked]
    unfold Goal.dress
    rw [paint_false_all, paint_false_all]
    refine ⟨rfl, fun hcreated => ?_⟩
    rcases hcreated with hstarted | hregistered
    · exact createdAfter_of_started hstarted _ _
    · simp only [Goal.restore, if_pos hregistered]

/-- One todo, added and then archived. -/
def archivedLedger : List Event :=
  [{ goalId := "g", kind := .todoAdded (Todo.new 5 "T1" "write" .advancement), ts := 5 },
    { goalId := "g", kind := .todoArchived "T1", ts := 6 }]

def archivedEntry : RegistryEntry where
  goalId := "g"
  objective := "ship"
  cwd := "/work"
  status := "active"
  createdAt := 5

/-- The archived todo carries the second it was replayed in. -/
theorem archived_stamp_is_replay_time :
    ((replay 100 archivedEntry archivedLedger ⟨none, none⟩).todo "T1").map Todo.updatedAt =
        some 100 ∧
      ((replay 200 archivedEntry archivedLedger ⟨none, none⟩).todo "T1").map Todo.updatedAt =
        some 200 := by
  decide +kernel

end Orchestration
end FutureOs
