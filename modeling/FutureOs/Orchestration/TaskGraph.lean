import FutureOs.Lib.Digraph
import FutureOs.Lib.Fallible
import FutureOs.Orchestration.State

/-!
# The work graph of a goal

A todo declares edges by its blocking set, a comma-separated text: a gate or blocker
lists the todos it blocks, any other todo the ones that block it.  `buildTaskGraph`
checks the references of all todos and orders the graph; `validateDependencyChange`
checks one todo's references and the cycles through it.
-/

namespace FutureOs
namespace Orchestration

structure TaskGraphNode where
  todoId : String
  taskClass : String
  status : String
  text : String
deriving DecidableEq

structure TaskGraphEdge where
  source : String
  target : String
  relation : String
deriving DecidableEq

structure TaskGraph where
  schemaVersion : String
  nodes : List TaskGraphNode
  edges : List TaskGraphEdge
  /-- Predecessors before successors; only where the graph is acyclic. -/
  topologicalOrder : Option (List String)
  /-- A cycle, where there is one. -/
  cycle : Option (List String)
deriving DecidableEq

/-- The ids in a blocking set. -/
def predecessorIds (t : Todo) : List String :=
  match t.blockedByGate with
  | some ids => ((Text.split ',' ids).map Text.trim).filter (· ≠ "")
  | none => []

/-- A gate or blocker lists the todos it blocks. -/
def isBlockingSource (t : Todo) : Bool :=
  t.taskClass = .userGate || t.taskClass = .blocker

/-- The edge a todo declares with the id. -/
def Todo.edgeWith (t : Todo) (other : String) : String × String :=
  if isBlockingSource t then (t.id, other) else (other, t.id)

/-- All declared edges, in the order of the todos. -/
def declaredEdges (todos : List Todo) : List (String × String) :=
  todos.flatMap fun t => (predecessorIds t).map t.edgeWith

/-- The first bad reference of a todo is an error. -/
def checkReferences (known : String → Bool) (todoId : String) :
    List String → Except String Unit
  | [] => .ok ()
  | other :: rest =>
      if other = todoId then
        .error ("todo `" ++ todoId ++ "` cannot reference itself")
      else if known other then
        checkReferences known todoId rest
      else
        .error ("todo `" ++ todoId ++ "` references unknown todo `" ++ other ++ "`")

/-- A depth-first walk from the successors of the todo comes back to it. -/
def onCycle (edges : List (String × String)) (todoId : String) : Bool :=
  let pending := (Digraph.outgoing edges todoId).reverse
  Digraph.meets edges todoId (Digraph.walkFuel edges pending []) pending []

/-- Only the changed references and the cycles through the todo are rejected. -/
def validateDependencyChange (goal : Goal) (todoId : String) : Except String Unit :=
  match goal.todo todoId with
  | none => .error ("unknown todo `" ++ todoId ++ "`")
  | some t => do
      checkReferences (fun id => (goal.todo id).isSome) todoId (predecessorIds t)
      ensure (¬onCycle (declaredEdges goal.todos) todoId)
        ("dependency cycle involving todo `" ++ todoId ++ "`")

/-- Pairs in the order of their components. -/
def pairLe (e e' : String × String) : Bool :=
  e.1 < e'.1 || (e.1 = e'.1 && e.2 ≤ e'.2)

/-- Sort and remove duplicates. -/
def sortedEdges (edges : List (String × String)) : List (String × String) :=
  (edges.insertionSort fun e e' => pairLe e e' = true).dedup

/-- The distinct ids, in order. -/
def sortedIds (todos : List Todo) : List String :=
  ((todos.map Todo.id).insertionSort (· ≤ ·)).dedup

/-- Walk successors among the leftover nodes until the start or a seen node comes up. -/
def cyclePath (edges : List (String × String)) (leftover : List String) (start : String) :
    Nat → String → List String → List String → List String
  | 0, _, _, path => path
  | fuel + 1, current, seen, path =>
      match (Digraph.outgoing edges current).find? (· ∈ leftover) with
      | none => path
      | some next =>
          if next = start then
            path ++ [next]
          else if next ∈ seen then
            path
          else
            cyclePath edges leftover start fuel next (next :: seen) (path ++ [next])

/-- Kahn's order, and a cycle where it is incomplete. -/
def topologicalSort (todos : List Todo) (edges : List (String × String)) :
    List String × List String :=
  let ids := sortedIds todos
  let known := edges.filter fun e => e.1 ∈ ids && e.2 ∈ ids
  let order := Digraph.topologicalOrder ids known
  if order.length = ids.length then
    (order, [])
  else
    match ids.filter fun id => id ∉ order with
    | [] => (order, [])
    | start :: rest =>
        (order, cyclePath known (start :: rest) start ids.length start [start] [start])

def TaskClass.name : TaskClass → String
  | .advancement => "advancement"
  | .userGate => "usergate"
  | .userAction => "useraction"
  | .monitor => "monitor"
  | .blocker => "blocker"
  | .coordination => "coordination"

def TodoStatus.name : TodoStatus → String
  | .open => "open"
  | .done => "done"
  | .superseded => "superseded"
  | .deferred => "deferred"
  | .blocked => "blocked"

/-- Every todo's references are checked, in order. -/
def checkAllReferences (todos : List Todo) : List Todo → Except String Unit
  | [] => .ok ()
  | t :: rest => do
      checkReferences (fun id => todos.any fun t' => t'.id = id) t.id (predecessorIds t)
      checkAllReferences todos rest

def buildTaskGraph (goal : Goal) : Except String TaskGraph := do
  checkAllReferences goal.todos goal.todos
  let edges := sortedEdges (declaredEdges goal.todos)
  let sorted := topologicalSort goal.todos edges
  .ok
    { schemaVersion := "task_graph_v0"
      nodes := goal.todos.map fun t =>
        { todoId := t.id, taskClass := t.taskClass.name, status := t.status.name, text := t.text }
      edges := edges.map fun e => { source := e.1, target := e.2, relation := "blocks" }
      topologicalOrder := if sorted.2 = [] then some sorted.1 else none
      cycle := if sorted.2 = [] then none else some sorted.2 }

/-! ## References -/

theorem checkReferences_eq_ok
    {known : String → Bool}
    {todoId : String}
    {ids : List String} :
    checkReferences known todoId ids = .ok () ↔
      ∀ other ∈ ids, other ≠ todoId ∧ known other = true := by
  induction ids with
  | nil =>
      simp [checkReferences]
  | cons other rest ih =>
      unfold checkReferences
      rw [List.forall_mem_cons]
      split
      · rename_i heq
        simp [heq]
      · rename_i hne
        split
        · rename_i hknown
          rw [ih]
          simp [hne, hknown]
        · rename_i hunknown
          simp [hunknown]

theorem checkAllReferences_eq_ok
    {todos list : List Todo} :
    checkAllReferences todos list = .ok () ↔
      ∀ t ∈ list, ∀ other ∈ predecessorIds t,
        other ≠ t.id ∧ ∃ t' ∈ todos, t'.id = other := by
  induction list with
  | nil =>
      simp [checkAllReferences]
  | cons t rest ih =>
      unfold checkAllReferences
      rw [List.forall_mem_cons, bind_eq_ok]
      constructor
      · rintro ⟨u, hu, hrest⟩
        refine ⟨fun other hother => ?_, ih.1 hrest⟩
        obtain ⟨hne, hknown⟩ := checkReferences_eq_ok.1 hu other hother
        exact ⟨hne, by simpa using hknown⟩
      · rintro ⟨ht, hrest⟩
        refine ⟨(), checkReferences_eq_ok.2 fun other hother => ?_, ih.2 hrest⟩
        obtain ⟨hne, hknown⟩ := ht other hother
        exact ⟨hne, by simpa using hknown⟩

theorem onCycle_iff
    {edges : List (String × String)}
    {todoId : String} :
    onCycle edges todoId = true ↔
      Relation.TransGen (Digraph.Edge edges) todoId todoId :=
  Digraph.meets_outgoing_iff (Nat.le_refl _)

theorem mem_declaredEdges
    {todos : List Todo}
    {e : String × String} :
    e ∈ declaredEdges todos ↔
      ∃ t ∈ todos, ∃ other ∈ predecessorIds t, t.edgeWith other = e := by
  simp [declaredEdges]

/-! ## The order -/

theorem mem_sortedEdges
    {edges : List (String × String)}
    {e : String × String} :
    e ∈ sortedEdges edges ↔ e ∈ edges := by
  unfold sortedEdges
  rw [List.mem_dedup, (List.perm_insertionSort _ _).mem_iff]

theorem mem_sortedIds
    {todos : List Todo}
    {id : String} :
    id ∈ sortedIds todos ↔ ∃ t ∈ todos, t.id = id := by
  unfold sortedIds
  rw [List.mem_dedup, (List.perm_insertionSort _ _).mem_iff, List.mem_map]

theorem nodup_sortedEdges (edges : List (String × String)) : (sortedEdges edges).Nodup :=
  List.nodup_dedup _

theorem nodup_sortedIds (todos : List Todo) : (sortedIds todos).Nodup :=
  List.nodup_dedup _

theorem cyclePath_ne_nil
    (edges : List (String × String))
    (leftover : List String)
    (start : String)
    (fuel : Nat)
    (current : String)
    (seen : List String)
    {path : List String}
    (h : path ≠ []) :
    cyclePath edges leftover start fuel current seen path ≠ [] := by
  induction fuel generalizing current seen path with
  | zero =>
      exact h
  | succ fuel ih =>
      unfold cyclePath
      split
      · exact h
      · split
        · simp
        · split
          · exact h
          · exact ih _ _ (by simp)

/-- The references of all todos are known. -/
def KnownReferences (todos : List Todo) : Prop :=
  ∀ t ∈ todos, ∀ other ∈ predecessorIds t, other ≠ t.id ∧ ∃ t' ∈ todos, t'.id = other

theorem KnownReferences.edge
    {todos : List Todo}
    (h : KnownReferences todos)
    {e : String × String}
    (he : e ∈ declaredEdges todos) :
    (∃ t ∈ todos, t.id = e.1) ∧ ∃ t ∈ todos, t.id = e.2 := by
  obtain ⟨t, ht, other, hother, rfl⟩ := mem_declaredEdges.1 he
  obtain ⟨-, hknown⟩ := h t ht other hother
  unfold Todo.edgeWith
  split
  · exact ⟨⟨t, ht, rfl⟩, hknown⟩
  · exact ⟨hknown, ⟨t, ht, rfl⟩⟩

/-- The order of a goal's todos, each after the todos with an edge to it. -/
structure Ordered (todos : List Todo) (order : List String) : Prop where
  nodup : order.Nodup
  known : ∀ id ∈ order, ∃ t ∈ todos, t.id = id
  forward : Digraph.Forward (declaredEdges todos) order

theorem KnownReferences.mem_sortedIds
    {todos : List Todo}
    (h : KnownReferences todos)
    (a b : String)
    (hab : Digraph.Edge (sortedEdges (declaredEdges todos)) a b) :
    a ∈ sortedIds todos ∧ b ∈ sortedIds todos := by
  obtain ⟨ha, hb⟩ := h.edge (mem_sortedEdges.1 hab)
  exact ⟨Orchestration.mem_sortedIds.2 ha, Orchestration.mem_sortedIds.2 hb⟩

/-- With known references the sort is Kahn's, and it reports a cycle where nodes are left. -/
theorem topologicalSort_eq
    {todos : List Todo}
    (h : KnownReferences todos) :
    let order := Digraph.topologicalOrder (sortedIds todos) (sortedEdges (declaredEdges todos))
    let sorted := topologicalSort todos (sortedEdges (declaredEdges todos))
    sorted.1 = order ∧
      (sorted.2 = [] ↔ order.length = (sortedIds todos).length ∨
        ∀ id ∈ sortedIds todos, id ∈ order) := by
  have hknown : (sortedEdges (declaredEdges todos)).filter
      (fun e => e.1 ∈ sortedIds todos && e.2 ∈ sortedIds todos) =
      sortedEdges (declaredEdges todos) := by
    rw [List.filter_eq_self]
    intro e he
    simpa using h.mem_sortedIds e.1 e.2 he
  unfold topologicalSort
  simp only [hknown]
  split
  · rename_i hlength
    simp [hlength]
  · rename_i hlength
    split
    · rename_i hleft
      refine ⟨rfl, iff_of_true rfl (Or.inr fun id hid => ?_)⟩
      simpa using List.filter_eq_nil_iff.1 hleft id hid
    · rename_i start rest hleft
      refine ⟨rfl, iff_of_false (cyclePath_ne_nil _ _ _ _ _ _ (by simp)) ?_⟩
      have hstart := List.mem_filter.1 (hleft ▸ List.mem_cons_self : start ∈ _)
      rintro (hsame | hall)
      · exact hlength hsame
      · exact of_decide_eq_true hstart.2 (hall start hstart.1)

theorem topologicalSort_spec
    {todos : List Todo}
    (h : KnownReferences todos) :
    let sorted := topologicalSort todos (sortedEdges (declaredEdges todos))
    Ordered todos sorted.1 ∧
      (sorted.2 = [] ↔ ∀ t ∈ todos, t.id ∈ sorted.1) ∧
      (Digraph.Acyclic (declaredEdges todos) → sorted.2 = []) := by
  obtain ⟨hfirst, hsecond⟩ := topologicalSort_eq h
  have hedge : Digraph.Edge (sortedEdges (declaredEdges todos)) =
      Digraph.Edge (declaredEdges todos) := by
    funext a b
    exact propext mem_sortedEdges
  obtain ⟨degrees, hdrained⟩ :=
    Digraph.topologicalOrder_spec (nodup_sortedEdges (declaredEdges todos)) h.mem_sortedIds
  dsimp only
  rw [hfirst, hsecond]
  refine ⟨⟨hdrained.nodupOrder, fun id hid => mem_sortedIds.1 (hdrained.known id hid), ?_⟩, ?_,
    fun hacyclic => Or.inr fun id hid => ?_⟩
  · have hforward := hdrained.forward
    unfold Digraph.Forward at hforward ⊢
    rwa [hedge] at hforward
  · constructor
    · rintro (hlength | hall) t ht
      · have hperm := (List.subperm_of_subset hdrained.nodupOrder hdrained.known).perm_of_length_le
          (Nat.le_of_eq hlength.symm)
        exact hperm.mem_iff.2 (mem_sortedIds.2 ⟨t, ht, rfl⟩)
      · exact hall t.id (mem_sortedIds.2 ⟨t, ht, rfl⟩)
    · intro hall
      refine Or.inr fun id hid => ?_
      obtain ⟨t, ht, rfl⟩ := mem_sortedIds.1 hid
      exact hall t ht
  · refine Digraph.topologicalOrder_complete (nodup_sortedEdges _) h.mem_sortedIds ?_ hid
    unfold Digraph.Acyclic
    rwa [hedge]

/-- The graph is built where all references are known. -/
theorem exists_buildTaskGraph
    {goal : Goal}
    (h : KnownReferences goal.todos) :
    ∃ graph, buildTaskGraph goal = .ok graph := by
  unfold buildTaskGraph
  rw [checkAllReferences_eq_ok.2 h, except_ok_bind]
  exact ⟨_, rfl⟩

/-- A built graph has the declared edges, and without a cycle it orders all todos. -/
theorem buildTaskGraph_spec
    {goal : Goal}
    {graph : TaskGraph}
    (h : buildTaskGraph goal = .ok graph) :
    KnownReferences goal.todos ∧
      (∀ a b, Digraph.Edge (declaredEdges goal.todos) a b ↔
        ∃ edge ∈ graph.edges, edge.source = a ∧ edge.target = b) ∧
      (Digraph.Acyclic (declaredEdges goal.todos) → graph.cycle = none) ∧
      (graph.cycle = none → ∃ order, graph.topologicalOrder = some order ∧
        Ordered goal.todos order ∧ ∀ t ∈ goal.todos, t.id ∈ order) := by
  obtain ⟨⟨⟩, hreferences, hgraph⟩ := bind_eq_ok.1 h
  have hknown : KnownReferences goal.todos := checkAllReferences_eq_ok.1 hreferences
  obtain ⟨hordered, hcomplete, hacyclic⟩ := topologicalSort_spec hknown
  obtain rfl := Except.ok.inj hgraph
  refine ⟨hknown, fun a b => ?_, fun h => if_pos (hacyclic h), fun hcycle => ?_⟩
  · rw [Digraph.Edge, ← mem_sortedEdges]
    constructor
    · intro he
      exact ⟨_, List.mem_map_of_mem he, rfl, rfl⟩
    · rintro ⟨edge, hedge, rfl, rfl⟩
      obtain ⟨e, he, rfl⟩ := List.mem_map.1 hedge
      exact he
  · have hnil : (topologicalSort goal.todos (sortedEdges (declaredEdges goal.todos))).2 = [] := by
      by_contra hne
      exact absurd hcycle (by simp [hne])
    exact ⟨_, if_pos hnil, hordered, hcomplete.1 hnil⟩

end Orchestration
end FutureOs
