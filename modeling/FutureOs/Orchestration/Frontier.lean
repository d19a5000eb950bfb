import FutureOs.Orchestration.TaskGraph

/-!
# The frontier and the work graph

The todos an agent may start.  `isBlockedAt` reads the blocking sets of the sources and
of the todo itself; `Ready` says the same through the edges of the built graph.  The two
agree where ids are distinct and not empty, and then the first unfinished todo of the
order is on the frontier.
-/

namespace FutureOs
namespace Orchestration

/-- Open, or deferred and due. -/
def Todo.isOpenAt (t : Todo) (now : SystemTime) : Bool :=
  t.status = .open || t.isDueDeferred now

/-- Some id of the text, trimmed, is the one looked for. -/
def listsId (ids : String) (id : String) : Bool :=
  (Text.split ',' ids).any fun part => Text.trim part = id

namespace Goal

/-- `open_blocking_sources_at`: user gates and external blockers. -/
def openBlockingSourcesAt (goal : Goal) (now : SystemTime) : List Todo :=
  goal.todos.filter fun t => isBlockingSource t && t.isOpenAt now

/-- A predecessor that holds its dependents: unknown ids do not. -/
def holds (goal : Goal) (now : SystemTime) (id : String) : Bool :=
  match goal.todo id with
  | some t => if isBlockingSource t then t.isOpenAt now else !t.status.terminal
  | none => false

/-- `is_blocked_at`: held out of the frontier by an unresolved predecessor. -/
def isBlockedAt (goal : Goal) (t : Todo) (now : SystemTime) : Bool :=
  ((goal.openBlockingSourcesAt now).any fun source =>
    source.id ≠ t.id &&
      (source.globalGate || source.blockedByGate.any fun ids => listsId ids t.id)) ||
  t.blockedByGate.any fun ids =>
    (Text.split ',' ids).any fun part =>
      let id := Text.trim part
      id ≠ "" && goal.holds now id

/-- `runnable_advancement_for_at`. -/
def runnableAdvancementForAt (goal : Goal) (agentId : Option String) (now : SystemTime) :
    List Todo :=
  goal.todos.filter fun t =>
    t.taskClass = .advancement && t.isOpenAt now &&
      !t.claimedByOther agentId now.secs &&
      (t.owner.isNone || t.owner = agentId) &&
      !goal.isBlockedAt t now

end Goal

/-! ## The frontier through the graph -/

/-- An open or due gate or blocker, or another todo that is not finished. -/
def Todo.unresolved (t : Todo) (now : SystemTime) : Bool :=
  if isBlockingSource t then t.isOpenAt now else !t.status.terminal

/-- An open or due gate or blocker that holds all work. -/
def Todo.holdsAll (now : SystemTime) (t : Todo) : Bool :=
  isBlockingSource t && t.isOpenAt now && t.globalGate

/-- What the frontier is to hold, for a notion of what stops all work. -/
structure Ready (stops : Todo → Bool) (goal : Goal) (graph : TaskGraph)
    (agentId : Option String) (now : SystemTime) (t : Todo) : Prop where
  work : t.taskClass = .advancement ∧ t.isOpenAt now = true
  unleased : t.claimedByOther agentId now.secs = false
  ours : t.owner = none ∨ t.owner = agentId
  ungated : ∀ s ∈ goal.todos, stops s = false
  unblocked : ∀ edge ∈ graph.edges, edge.target = t.id →
    ∀ p ∈ goal.todos, p.id = edge.source → p.unresolved now = false

theorem mem_predecessorIds
    {t : Todo}
    {id : String} :
    id ∈ predecessorIds t ↔
      id ≠ "" ∧ ∃ ids, t.blockedByGate = some ids ∧
        ∃ part ∈ Text.split ',' ids, Text.trim part = id := by
  unfold predecessorIds
  cases t.blockedByGate with
  | none =>
      simp
  | some ids =>
      simp [and_comm]

theorem lists_iff
    {t : Todo}
    {id : String}
    (hid : id ≠ "") :
    (t.blockedByGate.any fun ids => listsId ids id) = true ↔ id ∈ predecessorIds t := by
  rw [mem_predecessorIds]
  unfold listsId
  simp [Option.any_eq_true, hid]

/-- The sources that name the todo, and the predecessors it names. -/
theorem isBlockedAt_iff
    {goal : Goal}
    {t : Todo}
    {now : SystemTime}
    (hid : t.id ≠ "") :
    goal.isBlockedAt t now = true ↔
      (∃ s ∈ goal.todos, isBlockingSource s = true ∧ s.isOpenAt now = true ∧ s.id ≠ t.id ∧
        (s.globalGate = true ∨ t.id ∈ predecessorIds s)) ∨
      ∃ other ∈ predecessorIds t, goal.holds now other = true := by
  unfold Goal.isBlockedAt
  rw [Bool.or_eq_true]
  refine or_congr ?_ ?_
  · unfold Goal.openBlockingSourcesAt
    rw [List.any_eq_true]
    constructor
    · rintro ⟨s, hs, hblocks⟩
      obtain ⟨hmem, hsource⟩ := List.mem_filter.1 hs
      rw [Bool.and_eq_true, Bool.or_eq_true, lists_iff hid, decide_eq_true_eq] at hblocks
      rw [Bool.and_eq_true] at hsource
      exact ⟨s, hmem, hsource.1, hsource.2, hblocks.1, hblocks.2⟩
    · rintro ⟨s, hmem, hsource, hopen, hne, hblocks⟩
      refine ⟨s, List.mem_filter.2 ⟨hmem, by rw [hsource, hopen]; rfl⟩, ?_⟩
      rw [Bool.and_eq_true, Bool.or_eq_true, lists_iff hid, decide_eq_true_eq]
      exact ⟨hne, hblocks⟩
  · simp only [Option.any_eq_true, List.any_eq_true, Bool.and_eq_true, decide_eq_true_eq,
      mem_predecessorIds]
    constructor
    · rintro ⟨ids, hids, part, hpart, hne, hholds⟩
      exact ⟨_, ⟨hne, ids, hids, part, hpart, rfl⟩, hholds⟩
    · rintro ⟨_, ⟨hne, ids, hids, part, hpart, rfl⟩, hholds⟩
      exact ⟨ids, hids, part, hpart, hne, hholds⟩

theorem isBlockingSource_advancement
    {t : Todo}
    (h : t.taskClass = .advancement) :
    isBlockingSource t = false := by
  unfold isBlockingSource
  rw [h]
  rfl

section Distinct

variable {goal : Goal}
variable {graph : TaskGraph}
variable (hgraph : buildTaskGraph goal = .ok graph)
variable (hdistinct : (goal.todos.map Todo.id).Nodup)
variable (hnonempty : ∀ t ∈ goal.todos, t.id ≠ "")

include hdistinct in
theorem todo_eq_of_mem
    {t : Todo}
    (ht : t ∈ goal.todos) :
    goal.todo t.id = some t := by
  cases h : goal.todo t.id with
  | none =>
      unfold Goal.todo at h
      exact absurd (decide_eq_true rfl) (List.find?_eq_none.1 h t ht)
  | some t' =>
      unfold Goal.todo at h
      have hid : t'.id = t.id := by simpa using List.find?_some h
      rw [List.inj_on_of_nodup_map hdistinct (List.mem_of_find?_eq_some h) ht hid]

include hdistinct in
theorem holds_iff
    {now : SystemTime}
    {id : String} :
    goal.holds now id = true ↔ ∃ p ∈ goal.todos, p.id = id ∧ p.unresolved now = true := by
  unfold Goal.holds
  constructor
  · intro h
    split at h
    · rename_i p hp
      unfold Goal.todo at hp
      exact ⟨p, List.mem_of_find?_eq_some hp, by simpa using List.find?_some hp, h⟩
    · cases h
  · rintro ⟨p, hp, rfl, hunresolved⟩
    rw [todo_eq_of_mem hdistinct hp]
    exact hunresolved

/-- The edges into an advancement: its own blocking set, and the sources that name it. -/
theorem edge_to_advancement
    {t : Todo}
    (hclass : t.taskClass = .advancement)
    (ht : t ∈ goal.todos)
    (hdistinct : (goal.todos.map Todo.id).Nodup)
    (a : String) :
    Digraph.Edge (declaredEdges goal.todos) a t.id ↔
      a ∈ predecessorIds t ∨
      ∃ s ∈ goal.todos, isBlockingSource s = true ∧ s.id = a ∧ t.id ∈ predecessorIds s := by
  have hplain : isBlockingSource t = false := isBlockingSource_advancement hclass
  unfold Digraph.Edge
  rw [mem_declaredEdges]
  constructor
  · rintro ⟨s, hs, other, hother, hedge⟩
    unfold Todo.edgeWith at hedge
    split at hedge
    · rename_i hsource
      obtain ⟨rfl, rfl⟩ := Prod.mk.inj hedge
      exact Or.inr ⟨s, hs, hsource, rfl, hother⟩
    · obtain ⟨rfl, hid⟩ := Prod.mk.inj hedge
      rw [← List.inj_on_of_nodup_map hdistinct hs ht hid]
      exact Or.inl hother
  · rintro (hown | ⟨s, hs, hsource, rfl, hother⟩)
    · exact ⟨t, ht, a, hown, by unfold Todo.edgeWith; rw [hplain]; rfl⟩
    · exact ⟨s, hs, t.id, hother, by unfold Todo.edgeWith; rw [hsource]; rfl⟩

include hgraph hdistinct hnonempty in
/-- The blocking sets and the edges of the graph hold the same todos. -/
theorem isBlockedAt_iff_edges
    {t : Todo}
    (ht : t ∈ goal.todos)
    (hclass : t.taskClass = .advancement)
    (now : SystemTime) :
    goal.isBlockedAt t now = true ↔
      (∃ s ∈ goal.todos, s.holdsAll now = true) ∨
      ∃ edge ∈ graph.edges, edge.target = t.id ∧
        ∃ p ∈ goal.todos, p.id = edge.source ∧ p.unresolved now = true := by
  obtain ⟨-, hedges, -, -⟩ := buildTaskGraph_spec hgraph
  have hplain : isBlockingSource t = false := isBlockingSource_advancement hclass
  have hother : ∀ s ∈ goal.todos, isBlockingSource s = true → s.id ≠ t.id := by
    intro s hs hsource hid
    rw [List.inj_on_of_nodup_map hdistinct hs ht hid, hplain] at hsource
    cases hsource
  rw [isBlockedAt_iff (hnonempty t ht)]
  constructor
  · rintro (⟨s, hs, hsource, hopen, -, hglobal | hlists⟩ | ⟨other, hlists, hholds⟩)
    · exact Or.inl ⟨s, hs, by unfold Todo.holdsAll; rw [hsource, hopen, hglobal]; rfl⟩
    · obtain ⟨edge, hedge, hfrom, hto⟩ := (hedges s.id t.id).1
        ((edge_to_advancement hclass ht hdistinct s.id).2 (Or.inr ⟨s, hs, hsource, rfl, hlists⟩))
      exact Or.inr ⟨edge, hedge, hto, s, hs, hfrom.symm, by
        unfold Todo.unresolved; rw [if_pos hsource]; exact hopen⟩
    · obtain ⟨p, hp, rfl, hunresolved⟩ := (holds_iff hdistinct).1 hholds
      obtain ⟨edge, hedge, hfrom, hto⟩ := (hedges p.id t.id).1
        ((edge_to_advancement hclass ht hdistinct p.id).2 (Or.inl hlists))
      exact Or.inr ⟨edge, hedge, hto, p, hp, hfrom.symm, hunresolved⟩
  · rintro (⟨s, hs, hall⟩ | ⟨edge, hedge, hto, p, hp, hfrom, hunresolved⟩)
    · unfold Todo.holdsAll at hall
      rw [Bool.and_eq_true, Bool.and_eq_true] at hall
      exact Or.inl ⟨s, hs, hall.1.1, hall.1.2, hother s hs hall.1.1, Or.inl hall.2⟩
    · have hdeclared := (hedges p.id t.id).2 ⟨edge, hedge, hfrom.symm, hto⟩
      rcases (edge_to_advancement hclass ht hdistinct p.id).1 hdeclared with hown | hnamed
      · exact Or.inr ⟨p.id, hown, (holds_iff hdistinct).2 ⟨p, hp, rfl, hunresolved⟩⟩
      · obtain ⟨s, hs, hsource, hid, hlists⟩ := hnamed
        obtain rfl := List.inj_on_of_nodup_map hdistinct hs hp hid
        unfold Todo.unresolved at hunresolved
        rw [if_pos hsource] at hunresolved
        exact Or.inl ⟨s, hs, hsource, hunresolved, hother s hs hsource, Or.inr hlists⟩

include hgraph hdistinct hnonempty in
theorem mem_runnable_iff
    (agentId : Option String)
    (now : SystemTime)
    {t : Todo}
    (ht : t ∈ goal.todos) :
    t ∈ goal.runnableAdvancementForAt agentId now ↔
      Ready (Todo.holdsAll now) goal graph agentId now t := by
  unfold Goal.runnableAdvancementForAt
  rw [List.mem_filter]
  simp only [Bool.and_eq_true, Bool.or_eq_true, Bool.not_eq_true', decide_eq_true_eq,
    Option.isNone_iff_eq_none]
  constructor
  · rintro ⟨-, ⟨⟨⟨hclass, hopen⟩, hfree⟩, hours⟩, hblocked⟩
    have hedges := isBlockedAt_iff_edges hgraph hdistinct hnonempty ht hclass now
    refine ⟨⟨hclass, hopen⟩, hfree, hours, fun s hs => ?_, fun edge hedge hto p hp hfrom => ?_⟩
    · by_contra hall
      rw [hedges.2 (Or.inl ⟨s, hs, by simpa using hall⟩)] at hblocked
      cases hblocked
    · by_contra hunresolved
      rw [hedges.2 (Or.inr ⟨edge, hedge, hto, p, hp, hfrom, by simpa using hunresolved⟩)]
        at hblocked
      cases hblocked
  · rintro ⟨⟨hclass, hopen⟩, hfree, hours, hungated, hunblocked⟩
    refine ⟨ht, ⟨⟨⟨hclass, hopen⟩, hfree⟩, hours⟩, ?_⟩
    by_contra hblocked
    rw [Bool.not_eq_false, isBlockedAt_iff_edges hgraph hdistinct hnonempty ht hclass now]
      at hblocked
    rcases hblocked with ⟨s, hs, hall⟩ | ⟨edge, hedge, hto, p, hp, hfrom, hunresolved⟩
    · rw [hungated s hs] at hall
      cases hall
    · rw [hunblocked edge hedge hto p hp hfrom] at hunresolved
      cases hunresolved

end Distinct

/-! ## Progress -/

/-- An advancement nobody owns or has claimed. -/
def Todo.free (t : Todo) : Bool :=
  t.taskClass = .advancement && t.status = .open && t.owner.isNone && t.claimedBy.isNone

/-- A finished todo is in no lane. -/
theorem isOpenAt_of_terminal
    {t : Todo}
    (h : t.status.terminal = true)
    (now : SystemTime) :
    t.isOpenAt now = false := by
  unfold Todo.isOpenAt Todo.isDueDeferred
  cases hstatus : t.status with
  | done => rfl
  | superseded => rfl
  | «open» => rw [hstatus] at h; cases h
  | deferred => rw [hstatus] at h; cases h
  | blocked => rw [hstatus] at h; cases h

/-- Where all unfinished todos are free work, no source is open. -/
theorem isOpenAt_source_of_free
    {s : Todo}
    (hfree : s.status.terminal = false → s.free = true)
    (hsource : isBlockingSource s = true)
    (now : SystemTime) :
    s.isOpenAt now = false := by
  cases hterminal : s.status.terminal with
  | true => exact isOpenAt_of_terminal hterminal now
  | false =>
      have hwork := hfree hterminal
      unfold Todo.free at hwork
      simp only [Bool.and_eq_true, decide_eq_true_eq] at hwork
      rw [isBlockingSource_advancement hwork.1.1.1] at hsource
      cases hsource

/-- Free work none of whose predecessors is unfinished is ready. -/
theorem ready_of_free
    {goal : Goal}
    (hfree : ∀ t ∈ goal.todos, t.status.terminal = false → t.free = true)
    {graph : TaskGraph}
    {t : Todo}
    (ht : t ∈ goal.todos)
    (hunfinished : t.status.terminal = false)
    (hfirst : ∀ edge ∈ graph.edges, edge.target = t.id →
      ∀ p ∈ goal.todos, p.id = edge.source → p.status.terminal = true)
    (agentId : Option String)
    (now : SystemTime) :
    Ready (Todo.holdsAll now) goal graph agentId now t := by
  have hwork := hfree t ht hunfinished
  unfold Todo.free at hwork
  simp only [Bool.and_eq_true, decide_eq_true_eq, Option.isNone_iff_eq_none] at hwork
  obtain ⟨⟨⟨hclass, hopen⟩, howner⟩, hclaim⟩ := hwork
  refine ⟨⟨hclass, ?_⟩, ?_, Or.inl howner, fun s hs => ?_, fun edge hedge hto p hp hfrom => ?_⟩
  · unfold Todo.isOpenAt
    rw [hopen]
    rfl
  · unfold Todo.claimedByOther
    rw [hclaim]
  · unfold Todo.holdsAll
    cases hsource : isBlockingSource s with
    | false => rfl
    | true => rw [isOpenAt_source_of_free (hfree s hs) hsource now]; rfl
  · unfold Todo.unresolved
    split
    · rename_i hsource
      exact isOpenAt_source_of_free (hfree p hp) hsource now
    · rw [hfirst edge hedge hto p hp hfrom]
      rfl

/--
Where ids are distinct and not empty and the graph has no cycle, the frontier of every
agent holds exactly the ready todos; and while all unfinished todos are free work, there
is one on it.
-/
theorem frontier_agrees_with_graph
    {goal : Goal}
    {graph : TaskGraph}
    (hgraph : buildTaskGraph goal = .ok graph)
    (hcycle : graph.cycle = none)
    (hdistinct : (goal.todos.map Todo.id).Nodup)
    (hnonempty : ∀ t ∈ goal.todos, t.id ≠ "")
    (agentId : Option String)
    (now : SystemTime) :
    (∀ t ∈ goal.todos, t ∈ goal.runnableAdvancementForAt agentId now ↔
      Ready (Todo.holdsAll now) goal graph agentId now t) ∧
    ((∀ t ∈ goal.todos, t.status.terminal = false → t.free = true) →
      (∃ t ∈ goal.todos, t.status.terminal = false) →
      goal.runnableAdvancementForAt agentId now ≠ []) := by
  have hready := fun (t : Todo) (ht : t ∈ goal.todos) =>
    mem_runnable_iff hgraph hdistinct hnonempty agentId now ht
  refine ⟨hready, fun hfree hleft => ?_⟩
  obtain ⟨-, hedges, -, hordered⟩ := buildTaskGraph_spec hgraph
  obtain ⟨order, -, hspec, hall⟩ := hordered hcycle
  -- The first unfinished todo of the order has finished predecessors only.
  obtain ⟨t, ⟨ht, hunfinished⟩, hleast⟩ :=
    (InvImage.wf (fun t : Todo => order.idxOf t.id) Nat.lt_wfRel.wf).has_min
      {t | t ∈ goal.todos ∧ t.status.terminal = false} hleft
  have hfirst : ∀ edge ∈ graph.edges, edge.target = t.id →
      ∀ p ∈ goal.todos, p.id = edge.source → p.status.terminal = true := by
    intro edge hedge hto p hp hfrom
    by_contra hp'
    have hlt := hspec.forward.idxOf_lt
      ((hedges p.id t.id).2 ⟨edge, hedge, hfrom.symm, hto⟩) (hall t ht)
    exact hleast p ⟨hp, by simpa using hp'⟩ hlt
  exact List.ne_nil_of_mem
    ((hready t ht).2 (ready_of_free hfree ht hunfinished hfirst agentId now))

/-- Two todos, the second blocked by the first. -/
def chainGoal : Goal :=
  { Goal.new 0 "g" "ship" "/work" with
    todos :=
      [Todo.new 0 "T1" "write" .advancement,
        { Todo.new 0 "T2" "test" .advancement with blockedByGate := some "T1" }] }

def chainGraph : TaskGraph where
  schemaVersion := "task_graph_v0"
  nodes :=
    [{ todoId := "T1", taskClass := "advancement", status := "open", text := "write" },
      { todoId := "T2", taskClass := "advancement", status := "open", text := "test" }]
  edges := [{ source := "T1", target := "T2", relation := "blocks" }]
  topologicalOrder := some ["T1", "T2"]
  cycle := none

theorem chain_frontier_not_empty :
    chainGoal.runnableAdvancementForAt none 0 ≠ [] :=
  (frontier_agrees_with_graph
    (show buildTaskGraph chainGoal = .ok chainGraph by decide +kernel) (by decide +kernel)
    (by decide +kernel) (by decide +kernel) none 0).2 (by decide +kernel) (by decide +kernel)

/-! ## What else holds work back -/

instance (stops : Todo → Bool) (goal : Goal) (graph : TaskGraph) (agentId : Option String)
    (now : SystemTime) (t : Todo) : Decidable (Ready stops goal graph agentId now t) :=
  decidable_of_iff
    ((t.taskClass = .advancement ∧ t.isOpenAt now = true) ∧
      t.claimedByOther agentId now.secs = false ∧ (t.owner = none ∨ t.owner = agentId) ∧
      (∀ s ∈ goal.todos, stops s = false) ∧
      ∀ edge ∈ graph.edges, edge.target = t.id →
        ∀ p ∈ goal.todos, p.id = edge.source → p.unresolved now = false)
    ⟨fun ⟨h1, h2, h3, h4, h5⟩ => ⟨h1, h2, h3, h4, h5⟩,
      fun ⟨h1, h2, h3, h4, h5⟩ => ⟨h1, h2, h3, h4, h5⟩⟩

/-- A user gate that is open and global. -/
def openGlobalGate (t : Todo) : Bool :=
  t.taskClass = .userGate && t.status = .open && t.globalGate

/-- In the todos, whose graph has no cycle, the frontier and the graph disagree on one. -/
def disagree (todos : List Todo) (t : Todo) : Bool :=
  let goal := { Goal.new 0 "g" "ship" "/work" with todos := todos }
  (buildTaskGraph goal).toOption.any fun graph =>
    graph.cycle = none &&
      decide (t ∈ goal.runnableAdvancementForAt none 0) !=
        decide (Ready openGlobalGate goal graph none 0 t)

/--
A due global gate and an open global blocker hold all work; a finished todo hides another
one with its id; and an empty part of a blocking set names a todo without an id.
-/
theorem frontier_disagrees :
    let t := Todo.new 0 "T" "write" .advancement
    disagree
        [t, { Todo.new 0 "G" "release?" .userGate with
          status := .deferred, resumeWhen := some 0, globalGate := true }] t = true ∧
      disagree [t, { Todo.new 0 "B" "outage" .blocker with globalGate := true }] t = true ∧
      disagree
        [{ Todo.new 0 "P" "plan" .advancement with status := .done },
          Todo.new 0 "P" "plan" .advancement, { t with blockedByGate := some "P" }]
        { t with blockedByGate := some "P" } = true ∧
      disagree
        [{ t with id := "" }, { Todo.new 0 "G" "release?" .userGate with
          blockedByGate := some "," }]
        { t with id := "" } = true := by
  decide +kernel

end Orchestration
end FutureOs
