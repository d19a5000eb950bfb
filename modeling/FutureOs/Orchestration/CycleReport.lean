import FutureOs.Lib.ReturnWalk
import FutureOs.Orchestration.GraphEdits

/-!
# Reported cycles and successors

`buildTaskGraph` reports a cycle exactly where there is one, but the path it reports follows
one successor from the least todo that is left, which need not lie on a cycle:
`buildTaskGraph_closed_iff` says when the path is closed.

`successorsOf` reads the declarations again.  For a gate or blocker it knows only the todos
that it names itself, not those that list it.
-/

namespace FutureOs
namespace Orchestration

/-- `successors_of`. -/
def successorsOf (goal : Goal) (todoId : String) : List String :=
  match goal.todo todoId with
  | none => []
  | some todo =>
      let refs := predecessorIds todo
      if isBlockingSource todo then
        refs
      else
        (goal.todos.filter fun t =>
          !isBlockingSource t && (predecessorIds t).any fun p => p = todoId).map Todo.id

/-- The edges of a built graph. -/
def GraphEdge (graph : TaskGraph) (a b : String) : Prop :=
  ∃ edge ∈ graph.edges, edge.source = a ∧ edge.target = b

/-- The todos other than gates and blockers that list the id. -/
def Lists (goal : Goal) (todoId listing : String) : Prop :=
  ∃ t ∈ goal.todos, isBlockingSource t = false ∧ todoId ∈ predecessorIds t ∧ t.id = listing

/-- The todos that a gate or blocker with the id names. -/
def Names (goal : Goal) (todoId named : String) : Prop :=
  ∃ t ∈ goal.todos, isBlockingSource t = true ∧ t.id = todoId ∧ named ∈ predecessorIds t

/-- A gate or blocker names the todos that list it itself, and other todos with its id name
nothing else. -/
def NamesItsListers (goal : Goal) (todoId : String) : Prop :=
  ∀ todo, goal.todo todoId = some todo →
    if isBlockingSource todo then
      (∀ listing, Lists goal todoId listing → listing ∈ predecessorIds todo) ∧
        ∀ named, Names goal todoId named → named ∈ predecessorIds todo
    else
      ∀ named, Names goal todoId named → Lists goal todoId named

/-! ## The reported path -/

section Path

variable {todos : List Todo}

theorem pairLe_total (e e' : String × String) : pairLe e e' = true ∨ pairLe e' e = true := by
  rcases lt_trichotomy e.1 e'.1 with h | h | h
  · exact .inl (by simp [pairLe, h])
  · rcases le_total e.2 e'.2 with h' | h'
    · exact .inl (by simp [pairLe, h, h'])
    · exact .inr (by simp [pairLe, h, h'])
  · exact .inr (by simp [pairLe, h])

theorem pairLe_iff (e e' : String × String) :
    pairLe e e' = true ↔ e.1 < e'.1 ∨ (e.1 = e'.1 ∧ e.2 ≤ e'.2) := by
  simp [pairLe]

theorem pairLe_trans
    {e e' e'' : String × String}
    (h : pairLe e e' = true)
    (h' : pairLe e' e'' = true) :
    pairLe e e'' = true := by
  rw [pairLe_iff] at h h' ⊢
  rcases h with h | ⟨heq, hle⟩
  · rcases h' with h' | ⟨heq', -⟩
    · exact .inl (h.trans h')
    · exact .inl (heq' ▸ h)
  · rcases h' with h' | ⟨heq', hle'⟩
    · exact .inl (heq ▸ h')
    · exact .inr ⟨heq.trans heq', hle.trans hle'⟩

theorem sorted_sortedEdges (edges : List (String × String)) :
    (sortedEdges edges).Pairwise fun e e' => pairLe e e' = true := by
  have : Std.Total fun e e' : String × String => pairLe e e' = true := ⟨pairLe_total⟩
  have : IsTrans (String × String) fun e e' => pairLe e e' = true :=
    ⟨fun _ _ _ h h' => pairLe_trans h h'⟩
  exact (List.pairwise_insertionSort _ edges).sublist (List.dedup_sublist _)

theorem sorted_outgoing
    (edges : List (String × String))
    (a : String) :
    (Digraph.outgoing (sortedEdges edges) a).Pairwise (· ≤ ·) := by
  unfold Digraph.outgoing
  rw [List.pairwise_map, List.pairwise_filter]
  refine (sorted_sortedEdges edges).imp fun {e e'} h ha ha' => ?_
  rcases (pairLe_iff e e').1 h with hlt | ⟨-, hle⟩
  · rw [of_decide_eq_true ha, of_decide_eq_true ha'] at hlt
    exact absurd hlt (lt_irrefl _)
  · exact hle

theorem sorted_sortedIds (todos : List Todo) : (sortedIds todos).Pairwise (· ≤ ·) :=
  (List.pairwise_insertionSort _ _).sublist (List.dedup_sublist _)

/-- The first leftover successor of a leftover todo is its least successor. -/
theorem find_outgoing_iff
    {edges : List (String × String)}
    {leftover : List String}
    {a b : String}
    (hleft : ∀ c, Digraph.Edge (sortedEdges edges) a c → c ∈ leftover) :
    (Digraph.outgoing (sortedEdges edges) a).find? (· ∈ leftover) = some b ↔
      Digraph.LeastStep (Digraph.Edge (sortedEdges edges)) a b := by
  have hmem : ∀ c, c ∈ Digraph.outgoing (sortedEdges edges) a ↔
      Digraph.Edge (sortedEdges edges) a c := fun c => Digraph.mem_outgoing
  unfold Digraph.LeastStep
  simp only [← hmem] at hleft ⊢
  have hsorted := sorted_outgoing edges a
  generalize Digraph.outgoing (sortedEdges edges) a = outgoing at hleft hsorted
  cases outgoing with
  | nil => simp
  | cons c rest =>
      have hc : c ∈ leftover := hleft c (by simp)
      rw [List.find?_cons_of_pos (by simpa using hc)]
      have hleast : ∀ d ∈ c :: rest, c ≤ d := by
        intro d hd
        rcases List.mem_cons.1 hd with rfl | hd
        · exact le_refl _
        · exact (List.pairwise_cons.1 hsorted).1 d hd
      constructor
      · rintro h
        obtain rfl := Option.some.inj h
        exact ⟨by simp, hleast⟩
      · rintro ⟨hb, hbleast⟩
        rw [le_antisymm (hleast b hb) (hbleast c (by simp))]

/-- The walk goes to the first leftover successor. -/
def leftoverNext (edges : List (String × String)) (leftover : List String) (a : String) :
    Option String :=
  (Digraph.outgoing edges a).find? (· ∈ leftover)

theorem cyclePath_eq
    (edges : List (String × String))
    (leftover : List String)
    (start : String)
    (fuel : Nat)
    (current : String)
    (seen path : List String) :
    cyclePath edges leftover start fuel current seen path =
      Digraph.walkBack (leftoverNext edges leftover) start fuel current seen path := by
  induction fuel generalizing current seen path with
  | zero => rfl
  | succ fuel ih =>
      rw [cyclePath, Digraph.walkBack, leftoverNext]
      cases (Digraph.outgoing edges current).find? (· ∈ leftover) with
      | none => rfl
      | some next =>
          simp only
          split
          · rfl
          · split
            · rfl
            · exact ih _ _ _

theorem leftoverNext_mem
    {edges : List (String × String)}
    {leftover : List String}
    {a b : String}
    (h : leftoverNext edges leftover a = some b) :
    Digraph.Edge edges a b ∧ b ∈ leftover :=
  ⟨Digraph.mem_outgoing.1 (List.mem_of_find?_eq_some h), by simpa using List.find?_some h⟩

/-- The edges of the graph that is built for the todos. -/
def builtEdges (todos : List Todo) : List (String × String) :=
  sortedEdges (declaredEdges todos)

/-- What Kahn's order leaves out, by id. -/
def leftovers (todos : List Todo) : List String :=
  (sortedIds todos).filter fun id =>
    id ∉ Digraph.topologicalOrder (sortedIds todos) (builtEdges todos)

theorem mem_leftovers
    (h : KnownReferences todos)
    {id : String} :
    id ∈ leftovers todos ↔ Digraph.BehindCycle (Digraph.Edge (builtEdges todos)) id := by
  have hbehind : ∀ id, id ∈ sortedIds todos →
      (id ∉ Digraph.topologicalOrder (sortedIds todos) (builtEdges todos) ↔
        Digraph.BehindCycle (Digraph.Edge (builtEdges todos)) id) :=
    fun id hid => Digraph.not_mem_topologicalOrder_iff (nodup_sortedEdges _) h.mem_sortedIds hid
  rw [leftovers, List.mem_filter, decide_eq_true_eq]
  constructor
  · rintro ⟨hid, hnew⟩
    exact (hbehind id hid).1 hnew
  · intro hid
    have hknown : id ∈ sortedIds todos := by
      obtain ⟨c, hcycle, hreach⟩ := hid
      obtain ⟨b, -, hedge⟩ := Relation.TransGen.tail'_iff.1 (hcycle.trans_left hreach)
      exact (h.mem_sortedIds b id hedge).2
    exact ⟨hknown, (hbehind id hknown).2 hid⟩

theorem topologicalSort_path
    (h : KnownReferences todos) :
    (topologicalSort todos (builtEdges todos)).2 = [] ∨
      ∃ start rest, leftovers todos = start :: rest ∧
        (topologicalSort todos (builtEdges todos)).2 =
          Digraph.walkBack (leftoverNext (builtEdges todos) (leftovers todos)) start
            (sortedIds todos).length start [start] [start] := by
  have hknown : (builtEdges todos).filter
      (fun e => e.1 ∈ sortedIds todos && e.2 ∈ sortedIds todos) = builtEdges todos := by
    rw [List.filter_eq_self]
    intro e he
    simpa using h.mem_sortedIds e.1 e.2 he
  rw [topologicalSort]
  simp only [hknown]
  split
  · exact .inl rfl
  · change _ ∨ ∃ start rest, leftovers todos = start :: rest ∧ _
    cases hleft : leftovers todos with
    | nil =>
        left
        simp only [leftovers] at hleft
        rw [hleft]
    | cons start rest =>
        refine .inr ⟨start, rest, rfl, ?_⟩
        simp only [leftovers] at hleft
        rw [hleft]
        exact cyclePath_eq _ _ _ _ _ _ _

/-- The reported path is closed exactly if least successors lead back to the least todo. -/
theorem topologicalSort_closed_iff
    (h : KnownReferences todos)
    (hcycle : (topologicalSort todos (builtEdges todos)).2 ≠ []) :
    Digraph.ClosedWalk (Digraph.Edge (builtEdges todos))
        (topologicalSort todos (builtEdges todos)).2 ↔
      Digraph.LeastReturns (Digraph.Edge (builtEdges todos)) := by
  rcases topologicalSort_path h with hnil | ⟨start, rest, hleft, hpath⟩
  · exact absurd hnil hcycle
  rw [hpath]
  let next := leftoverNext (builtEdges todos) (leftovers todos)
  have hids : ∀ a, a ∈ leftovers todos → a ∈ sortedIds todos :=
    fun a ha => (List.mem_filter.1 ha).1
  have hwithin : ∀ a b, next a = some b → b ∈ sortedIds todos :=
    fun a b hab => hids b (leftoverNext_mem hab).2
  have hstart : start ∈ leftovers todos := hleft ▸ List.mem_cons_self
  obtain ⟨hchain, hclosed⟩ := Digraph.walkBack_closed hwithin (hids start hstart) (Nat.le_refl _)
  have hsteps : Relation.TransGen (fun a b => next a = some b) start start ↔
      Relation.TransGen (Digraph.LeastStep (Digraph.Edge (builtEdges todos))) start start := by
    refine Digraph.transGen_congr (p := fun a => a ∈ leftovers todos) (fun a b ha => ?_)
      (fun a b _ hab => (leftoverNext_mem hab).2) hstart
    exact find_outgoing_iff fun c hc => (mem_leftovers h).2 (((mem_leftovers h).1 ha).step hc)
  have hleast : ∀ a, Digraph.BehindCycle (Digraph.Edge (builtEdges todos)) a → start ≤ a := by
    intro a ha
    have hsorted : (leftovers todos).Pairwise (· ≤ ·) :=
      (sorted_sortedIds todos).sublist List.filter_sublist
    rw [hleft] at hsorted
    rcases List.mem_cons.1 (hleft ▸ (mem_leftovers h).2 ha) with rfl | hrest
    · exact le_refl _
    · exact (List.pairwise_cons.1 hsorted).1 a hrest
  constructor
  · rintro ⟨-, hlength, hends⟩
    exact ⟨start, ⟨(mem_leftovers h).1 hstart, hleast⟩,
      hsteps.1 (hclosed.1 ⟨hlength, hends⟩)⟩
  · rintro ⟨start', ⟨hbehind, hleast'⟩, hreturns⟩
    obtain rfl : start = start' :=
      le_antisymm (hleast start' hbehind) (hleast' start ((mem_leftovers h).1 hstart))
    exact ⟨hchain.imp fun a b hab => (leftoverNext_mem hab).1, hclosed.2 (hsteps.2 hreturns)⟩

/-- A cycle is reported exactly if there is one. -/
theorem topologicalSort_cyclic_iff
    (h : KnownReferences todos) :
    (topologicalSort todos (builtEdges todos)).2 ≠ [] ↔
      ∃ a, Relation.TransGen (Digraph.Edge (builtEdges todos)) a a := by
  obtain ⟨hordered, hcomplete, hacyclic⟩ := topologicalSort_spec h
  have hedge : Digraph.Edge (builtEdges todos) = Digraph.Edge (declaredEdges todos) := by
    funext a b
    exact propext mem_sortedEdges
  rw [hedge]
  constructor
  · intro hne
    by_contra hnone
    exact hne (hacyclic fun a ha => hnone ⟨a, ha⟩)
  · rintro ⟨a, hcycle⟩ hnil
    obtain ⟨b, -, hab⟩ := Relation.TransGen.tail'_iff.1 hcycle
    obtain ⟨t, ht, rfl⟩ := (h.edge hab).2
    have hmem := hcomplete.1 hnil t ht
    exact lt_irrefl _ (hordered.forward.idxOf_lt_of_walk hcycle hmem)

end Path

/-! ## Successors -/

section Successors

variable {goal : Goal} {todoId : String}

theorem mem_successorsOf
    {todo : Todo}
    (h : goal.todo todoId = some todo)
    {b : String} :
    b ∈ successorsOf goal todoId ↔
      if isBlockingSource todo then b ∈ predecessorIds todo else Lists goal todoId b := by
  rw [successorsOf, h]
  simp only
  split
  · rfl
  · simp only [List.mem_map, List.mem_filter, Bool.and_eq_true, Bool.not_eq_true', List.any_eq_true,
      decide_eq_true_eq, exists_eq_right, Lists, and_assoc]

/-- An edge leaves a todo that names another, or that another lists. -/
theorem declaredEdge_iff {b : String} :
    Digraph.Edge (declaredEdges goal.todos) todoId b ↔
      Names goal todoId b ∨ Lists goal todoId b := by
  rw [Digraph.Edge, mem_declaredEdges]
  constructor
  · rintro ⟨t, ht, other, hother, hedge⟩
    unfold Todo.edgeWith at hedge
    split at hedge
    · rename_i hsource
      obtain ⟨rfl, rfl⟩ := Prod.mk.inj hedge
      exact .inl ⟨t, ht, hsource, rfl, hother⟩
    · rename_i hsource
      obtain ⟨rfl, rfl⟩ := Prod.mk.inj hedge
      exact .inr ⟨t, ht, by simpa using hsource, hother, rfl⟩
  · rintro (⟨t, ht, hsource, rfl, hother⟩ | ⟨t, ht, hsource, hother, rfl⟩)
    · exact ⟨t, ht, b, hother, by rw [Todo.edgeWith, if_pos hsource]⟩
    · exact ⟨t, ht, todoId, hother, by rw [Todo.edgeWith, hsource]; rfl⟩

theorem not_edge_of_unknown
    (h : KnownReferences goal.todos)
    (hnone : goal.todo todoId = none)
    (b : String) :
    ¬ Digraph.Edge (declaredEdges goal.todos) todoId b := by
  intro hedge
  have hsome := todo_isSome_iff.2 (h.edge hedge).1
  simp [hnone] at hsome

theorem successorsOf_mirror_iff
    (h : KnownReferences goal.todos) :
    (∀ b, b ∈ successorsOf goal todoId ↔ Digraph.Edge (declaredEdges goal.todos) todoId b) ↔
      NamesItsListers goal todoId := by
  cases htodo : goal.todo todoId with
  | none =>
      refine iff_of_true (fun b => iff_of_false ?_ (not_edge_of_unknown h htodo b)) ?_
      · simp [successorsOf, htodo]
      · simp [NamesItsListers, htodo]
  | some todo =>
      obtain ⟨hmem, hid⟩ := mem_of_todo htodo
      simp only [mem_successorsOf htodo, declaredEdge_iff, NamesItsListers, htodo,
        Option.some.injEq, forall_eq']
      split
      · rename_i hsource
        have hnames : ∀ b, b ∈ predecessorIds todo → Names goal todoId b :=
          fun b hb => ⟨todo, hmem, hsource, hid, hb⟩
        constructor
        · intro hall
          exact ⟨fun b hb => (hall b).2 (.inr hb), fun b hb => (hall b).2 (.inl hb)⟩
        · rintro ⟨hlists, hothers⟩ b
          exact ⟨fun hb => .inl (hnames b hb), fun hb => hb.elim (hothers b) (hlists b)⟩
      · constructor
        · intro hall b hb
          exact (hall b).2 (.inl hb)
        · intro hothers b
          exact ⟨.inr, fun hb => hb.elim (hothers b) id⟩

end Successors

/-! ## The built graph -/

theorem buildTaskGraph_eq
    {goal : Goal}
    (h : KnownReferences goal.todos) :
    ∃ graph, buildTaskGraph goal = .ok graph ∧
      GraphEdge graph = Digraph.Edge (builtEdges goal.todos) ∧
      graph.cycle =
        if (topologicalSort goal.todos (builtEdges goal.todos)).2 = [] then none
        else some (topologicalSort goal.todos (builtEdges goal.todos)).2 := by
  unfold buildTaskGraph
  rw [checkAllReferences_eq_ok.2 h, except_ok_bind]
  refine ⟨_, rfl, ?_, rfl⟩
  funext a b
  refine propext ⟨?_, fun hedge => ⟨_, List.mem_map_of_mem hedge, rfl, rfl⟩⟩
  rintro ⟨edge, hedge, rfl, rfl⟩
  obtain ⟨e, he, rfl⟩ := List.mem_map.1 hedge
  exact he

/-- A graph with known references reports a cycle exactly if it has one; the reported path is
closed exactly if least successors lead from the least todo on or behind a cycle back to it;
and the successors of a todo are those of the graph exactly if a gate or blocker names all
the todos that list it. -/
theorem reported_cycle_and_successors_iff
    (goal : Goal)
    (h : KnownReferences goal.todos) :
    ∃ graph, buildTaskGraph goal = .ok graph ∧
      (graph.cycle ≠ none ↔ ∃ a, Relation.TransGen (GraphEdge graph) a a) ∧
      (∀ path, graph.cycle = some path →
        (Digraph.ClosedWalk (GraphEdge graph) path ↔
          Digraph.LeastReturns (GraphEdge graph))) ∧
      ∀ todoId,
        (∀ b, b ∈ successorsOf goal todoId ↔ GraphEdge graph todoId b) ↔
          NamesItsListers goal todoId := by
  obtain ⟨graph, hgraph, hedges, hcycle⟩ := buildTaskGraph_eq h
  refine ⟨graph, hgraph, ?_, ?_, ?_⟩
  · rw [hedges, ← topologicalSort_cyclic_iff h, hcycle]
    split <;> simp_all
  · intro path hpath
    rw [hcycle] at hpath
    split at hpath
    · simp at hpath
    · rename_i hne
      rw [hedges, ← Option.some.inj hpath]
      exact topologicalSort_closed_iff h hne
  · intro todoId
    have hsame : GraphEdge graph = Digraph.Edge (declaredEdges goal.todos) := by
      rw [hedges]
      funext a b
      exact propext mem_sortedEdges
    rw [hsame]
    exact successorsOf_mirror_iff h

/-- Work that lists what it waits for. -/
def waiting (id : String) (blockers : Option String) : Todo :=
  { Todo.new 5 id id .advancement with blockedByGate := blockers }

/-- `c` and `b` wait for each other, and `a` and then `d` for them. -/
def behindGoal : Goal :=
  { Goal.new 5 "g" "ship" "/work" with
    todos := [waiting "a" (some "c"), waiting "b" (some "c"), waiting "c" (some "b"),
      waiting "d" (some "a")] }

/-- A gate that names nothing, and work that lists it. -/
def listedGoal : Goal :=
  { Goal.new 5 "g" "ship" "/work" with
    todos := [Todo.new 5 "G" "approve" .userGate, waiting "T" (some "G")] }

theorem listedGoal_known : KnownReferences listedGoal.todos :=
  checkAllReferences_eq_ok.1 (by decide +kernel)

theorem successors_of_listed_work :
    ∃ graph, buildTaskGraph listedGoal = .ok graph ∧
      ∀ b, b ∈ successorsOf listedGoal "T" ↔ GraphEdge graph "T" b := by
  obtain ⟨graph, hgraph, -, -, hsuccessors⟩ :=
    reported_cycle_and_successors_iff listedGoal listedGoal_known
  refine ⟨graph, hgraph, (hsuccessors "T").2 fun todo htodo => ?_⟩
  obtain rfl : waiting "T" (some "G") = todo := Option.some.inj htodo
  rintro named ⟨t, ht, hsource, hid, -⟩
  simp only [listedGoal, List.mem_cons, List.not_mem_nil, or_false] at ht
  rcases ht with rfl | rfl
  · exact absurd hid (by decide)
  · exact absurd hsource (by decide)

/-- The reported path starts behind the cycle and runs away from it, and a gate misses the
work that lists it. -/
theorem reported_path_leaves_cycle :
    (∃ graph, buildTaskGraph behindGoal = .ok graph ∧ graph.cycle = some ["a", "d"] ∧
      ["a", "d"].head? ≠ ["a", "d"].getLast?) ∧
    ∃ graph, buildTaskGraph listedGoal = .ok graph ∧ GraphEdge graph "G" "T" ∧
      "T" ∉ successorsOf listedGoal "G" := by
  have hbehind : ((buildTaskGraph behindGoal).toOption.bind TaskGraph.cycle) =
      some ["a", "d"] := by
    decide +kernel
  have hlisted : ((buildTaskGraph listedGoal).toOption.map TaskGraph.edges) =
      some [{ source := "G", target := "T", relation := "blocks" }] := by
    decide +kernel
  refine ⟨?_, ?_⟩
  · cases hgraph : buildTaskGraph behindGoal with
    | error e => simp [hgraph, Except.toOption] at hbehind
    | ok graph => exact ⟨graph, rfl, by simpa [hgraph, Except.toOption] using hbehind, by decide⟩
  · cases hgraph : buildTaskGraph listedGoal with
    | error e => simp [hgraph, Except.toOption] at hlisted
    | ok graph =>
        have hedges : graph.edges = [{ source := "G", target := "T", relation := "blocks" }] := by
          simpa [hgraph, Except.toOption] using hlisted
        exact ⟨graph, rfl, ⟨_, hedges ▸ List.mem_cons_self, rfl, rfl⟩, by decide +kernel⟩

end Orchestration
end FutureOs
