import FutureOs.Lib.Fields
import Mathlib.Data.List.Sort
import Mathlib.Logic.Relation
import Mathlib.Data.Set.Finite.List
import Mathlib.Order.WellFounded

/-!
# Directed graphs as lists of edges

Two algorithms on a graph given by its edges.  `meets` walks depth first from a stack
of pending nodes and answers whether the target is met; `meets_iff` is its meaning.
`topologicalOrder` is Kahn's algorithm with a sorted queue; `Forward` says that every
edge into a node of the order comes from an earlier node, which holds of any graph, and
`topologicalOrder_complete` that an acyclic graph is ordered completely.
-/

namespace FutureOs
namespace Digraph

universe u

variable {α : Type u}

/-- There is an edge from `a` to `b`. -/
def Edge (edges : List (α × α)) (a b : α) : Prop :=
  (a, b) ∈ edges

/-- No walk of one or more edges returns to where it started. -/
def Acyclic (edges : List (α × α)) : Prop :=
  ∀ a, ¬Relation.TransGen (Edge edges) a a

/-- The node lies on a cycle, or a cycle leads to it. -/
def BehindCycle (r : α → α → Prop) (a : α) : Prop :=
  ∃ c, Relation.TransGen r c c ∧ Relation.ReflTransGen r c a

/-- A walk that uses a new edge passes through the node all new edges touch. -/
theorem transGen_of_incident
    {edges edges' : List (α × α)}
    {x : α}
    (hnew : ∀ a b, Edge edges' a b → Edge edges a b ∨ a = x ∨ b = x)
    {a b : α}
    (h : Relation.TransGen (Edge edges') a b) :
    Relation.TransGen (Edge edges) a b ∨
      (Relation.ReflTransGen (Edge edges') a x ∧ Relation.ReflTransGen (Edge edges') x b) := by
  induction h with
  | single hedge =>
      rcases hnew _ _ hedge with hold | rfl | rfl
      · exact Or.inl (Relation.TransGen.single hold)
      · exact Or.inr ⟨Relation.ReflTransGen.refl, Relation.ReflTransGen.single hedge⟩
      · exact Or.inr ⟨Relation.ReflTransGen.single hedge, Relation.ReflTransGen.refl⟩
  | tail hwalk hedge ih =>
      rcases ih with hold | ⟨hto, hfrom⟩
      · rcases hnew _ _ hedge with hkept | rfl | rfl
        · exact Or.inl (hold.tail hkept)
        · exact Or.inr ⟨hwalk.to_reflTransGen, Relation.ReflTransGen.single hedge⟩
        · exact Or.inr ⟨(hwalk.tail hedge).to_reflTransGen, Relation.ReflTransGen.refl⟩
      · exact Or.inr ⟨hto, hfrom.tail hedge⟩

/-- An edit at one node keeps a graph acyclic if no cycle runs through the node. -/
theorem Acyclic.of_incident
    {edges edges' : List (α × α)}
    (h : Acyclic edges)
    {x : α}
    (hnew : ∀ a b, Edge edges' a b → Edge edges a b ∨ a = x ∨ b = x)
    (hx : ¬Relation.TransGen (Edge edges') x x) :
    Acyclic edges' := by
  intro a hcycle
  rcases transGen_of_incident hnew hcycle with hold | ⟨hto, hfrom⟩
  · exact h a hold
  · have hreturn : Relation.TransGen (Edge edges') x a :=
      Relation.TransGen.trans_right hfrom hcycle
    exact hx (hreturn.trans_left hto)

section Walk

variable [DecidableEq α]

/-- The heads of the edges out of a node, in the order of the edges. -/
def outgoing (edges : List (α × α)) (a : α) : List α :=
  (edges.filter fun e => e.1 = a).map Prod.snd

theorem mem_outgoing
    {edges : List (α × α)}
    {a b : α} :
    b ∈ outgoing edges a ↔ Edge edges a b := by
  unfold outgoing Edge
  constructor
  · intro h
    obtain ⟨⟨a', b'⟩, he, rfl⟩ := List.mem_map.1 h
    obtain ⟨hmem, ha⟩ := List.mem_filter.1 he
    rwa [← of_decide_eq_true ha]
  · intro h
    exact List.mem_map.2 ⟨(a, b), List.mem_filter.2 ⟨h, decide_eq_true rfl⟩, rfl⟩

/--
Whether the target is met by a depth-first walk.  The stack grows at its head; a node
is expanded at its first visit only.
-/
def meets (edges : List (α × α)) (target : α) : Nat → List α → List α → Bool
  | 0, _, _ => false
  | _ + 1, [], _ => false
  | fuel + 1, a :: pending, visited =>
      if a = target then
        true
      else if a ∈ visited then
        meets edges target fuel pending visited
      else
        meets edges target fuel ((outgoing edges a).reverse ++ pending) (a :: visited)

/-- Enough fuel for a walk: one step for each pending node and each edge not yet taken. -/
def walkFuel (edges : List (α × α)) (pending visited : List α) : Nat :=
  pending.length + (edges.filter fun e => e.1 ∉ visited).length + 1

theorem filter_visit
    (edges : List (α × α))
    {a : α}
    {visited : List α}
    (h : a ∉ visited) :
    (edges.filter fun e => e.1 ∉ a :: visited).length + (outgoing edges a).length =
      (edges.filter fun e => e.1 ∉ visited).length := by
  unfold outgoing
  rw [List.length_map]
  induction edges with
  | nil =>
      rfl
  | cons e rest ih =>
      by_cases ha : e.1 = a
      · have hv : e.1 ∉ visited := ha ▸ h
        rw [List.filter_cons_of_neg (by simp [ha]), List.filter_cons_of_pos (by simp [ha]),
          List.filter_cons_of_pos (by simpa using hv), List.length_cons, List.length_cons]
        omega
      · by_cases hv : e.1 ∈ visited
        · rw [List.filter_cons_of_neg (by simp [hv]), List.filter_cons_of_neg (by simp [ha]),
            List.filter_cons_of_neg (by simp [hv])]
          exact ih
        · rw [List.filter_cons_of_pos (by simp [ha, hv]),
            List.filter_cons_of_neg (by simp [ha]), List.filter_cons_of_pos (by simpa using hv),
            List.length_cons, List.length_cons]
          omega

theorem walkFuel_visit
    (edges : List (α × α))
    {a : α}
    (pending : List α)
    {visited : List α}
    (h : a ∉ visited) :
    walkFuel edges ((outgoing edges a).reverse ++ pending) (a :: visited) + 1 =
      walkFuel edges (a :: pending) visited := by
  have hfilter := filter_visit edges h
  unfold walkFuel
  simp only [List.length_append, List.length_reverse, List.length_cons]
  omega

theorem exists_of_meets
    {edges : List (α × α)}
    {target : α}
    {fuel : Nat}
    {pending visited : List α}
    (h : meets edges target fuel pending visited = true) :
    ∃ a ∈ pending, Relation.ReflTransGen (Edge edges) a target := by
  induction fuel generalizing pending visited with
  | zero =>
      cases h
  | succ fuel ih =>
      cases pending with
      | nil =>
          cases h
      | cons a pending =>
          unfold meets at h
          split at h
          · rename_i heq
            exact ⟨a, List.mem_cons_self, heq ▸ Relation.ReflTransGen.refl⟩
          · split at h
            · obtain ⟨b, hb, hwalk⟩ := ih h
              exact ⟨b, List.mem_cons_of_mem _ hb, hwalk⟩
            · obtain ⟨b, hb, hwalk⟩ := ih h
              rcases List.mem_append.1 hb with hout | hpending
              · have hedge := mem_outgoing.1 (List.mem_reverse.1 hout)
                exact ⟨a, List.mem_cons_self, Relation.ReflTransGen.head hedge hwalk⟩
              · exact ⟨b, List.mem_cons_of_mem _ hpending, hwalk⟩

/-- A walk that misses the target has visited everything it could reach. -/
theorem not_reach_of_not_meets
    {edges : List (α × α)}
    {target : α}
    {fuel : Nat}
    {pending visited : List α}
    (hfuel : walkFuel edges pending visited ≤ fuel)
    (htarget : target ∉ visited)
    (hclosed : ∀ a ∈ visited, ∀ b, Edge edges a b → b ∈ visited ∨ b ∈ pending)
    (h : meets edges target fuel pending visited = false) :
    ∀ a, a ∈ visited ∨ a ∈ pending → ¬Relation.ReflTransGen (Edge edges) a target := by
  induction fuel generalizing pending visited with
  | zero =>
      exact absurd hfuel (by simp [walkFuel])
  | succ fuel ih =>
      cases pending with
      | nil =>
          intro a ha hwalk
          have hvisited : a ∈ visited := by simpa using ha
          have hall : ∀ b, Relation.ReflTransGen (Edge edges) a b → b ∈ visited := by
            intro b hb
            induction hb with
            | refl => exact hvisited
            | tail _ hedge ih => simpa using hclosed _ ih _ hedge
          exact htarget (hall target hwalk)
      | cons a pending =>
          unfold meets at h
          split at h
          · cases h
          · rename_i hne
            split at h
            · rename_i hseen
              have hrest := ih
                (by unfold walkFuel at hfuel ⊢; simp only [List.length_cons] at hfuel; omega)
                htarget
                (fun b hb c hedge => by
                  rcases hclosed b hb c hedge with hc | hc
                  · exact Or.inl hc
                  · rcases List.mem_cons.1 hc with rfl | hc
                    · exact Or.inl hseen
                    · exact Or.inr hc) h
              intro b hb
              rcases hb with hb | hb
              · exact hrest b (Or.inl hb)
              · rcases List.mem_cons.1 hb with rfl | hb
                · exact hrest _ (Or.inl hseen)
                · exact hrest b (Or.inr hb)
            · rename_i hnew
              have hrest := ih
                (by have := walkFuel_visit edges pending hnew; omega)
                (by simp [Ne.symm hne, htarget])
                (fun b hb c hedge => by
                  rcases List.mem_cons.1 hb with rfl | hb
                  · exact Or.inr (List.mem_append_left _
                      (List.mem_reverse.2 (mem_outgoing.2 hedge)))
                  · rcases hclosed b hb c hedge with hc | hc
                    · exact Or.inl (List.mem_cons_of_mem _ hc)
                    · rcases List.mem_cons.1 hc with rfl | hc
                      · exact Or.inl List.mem_cons_self
                      · exact Or.inr (List.mem_append_right _ hc)) h
              intro b hb
              rcases hb with hb | hb
              · exact hrest b (Or.inl (List.mem_cons_of_mem _ hb))
              · rcases List.mem_cons.1 hb with rfl | hb
                · exact hrest _ (Or.inl List.mem_cons_self)
                · exact hrest b (Or.inr (List.mem_append_right _ hb))

/-- With enough fuel the walk meets the target exactly if a pending node reaches it. -/
theorem meets_iff
    {edges : List (α × α)}
    {target : α}
    {fuel : Nat}
    {pending : List α}
    (hfuel : walkFuel edges pending [] ≤ fuel) :
    meets edges target fuel pending [] = true ↔
      ∃ a ∈ pending, Relation.ReflTransGen (Edge edges) a target := by
  constructor
  · exact exists_of_meets
  · rintro ⟨a, ha, hwalk⟩
    by_contra h
    exact not_reach_of_not_meets hfuel (by simp) (by simp) (by simpa using h) a (Or.inr ha)
      hwalk

/-- A walk from the successors of a node meets it exactly if it lies on a cycle. -/
theorem meets_outgoing_iff
    {edges : List (α × α)}
    {a : α}
    {fuel : Nat}
    (hfuel : walkFuel edges (outgoing edges a).reverse [] ≤ fuel) :
    meets edges a fuel (outgoing edges a).reverse [] = true ↔
      Relation.TransGen (Edge edges) a a := by
  rw [meets_iff hfuel, Relation.TransGen.head'_iff]
  constructor
  · rintro ⟨b, hb, hwalk⟩
    exact ⟨b, mem_outgoing.1 (List.mem_reverse.1 hb), hwalk⟩
  · rintro ⟨b, hedge, hwalk⟩
    exact ⟨b, List.mem_reverse.2 (mem_outgoing.2 hedge), hwalk⟩

end Walk

section Kahn

variable [LinearOrder α]

/-- Push a node and sort the queue. -/
def enqueue (queue : List α) (a : α) : List α :=
  (queue ++ [a]).insertionSort (· ≤ ·)

/-- The number of edges into each node. -/
def inDegrees (nodes : List α) (edges : List (α × α)) : List (α × Nat) :=
  edges.foldl (fun degrees e =>
      Fields.insert e.2 ((Fields.lookup e.2 degrees).getD 0 + 1) degrees)
    (nodes.foldl (fun degrees a => Fields.insert a 0 degrees) [])

/-- Take one edge into `b` away; a node without edges joins the queue. -/
def release (state : List (α × Nat) × List α) (b : α) : List (α × Nat) × List α :=
  let degree := (Fields.lookup b state.1).getD 0 - 1
  (Fields.insert b degree state.1, if degree = 0 then enqueue state.2 b else state.2)

/-- Process the queue from its head. -/
def drain (edges : List (α × α)) :
    Nat → List (α × Nat) → List α → List α → List α
  | 0, _, _, order => order
  | _ + 1, _, [], order => order
  | fuel + 1, degrees, a :: queue, order =>
      let state := (outgoing edges a).foldl release (degrees, queue)
      drain edges fuel state.1 state.2 (order ++ [a])

/-- Kahn's algorithm: the nodes without edges first, in their own order. -/
def topologicalOrder (nodes : List α) (edges : List (α × α)) : List α :=
  let degrees := inDegrees nodes edges
  let queue := ((degrees.filter fun entry => entry.2 = 0).map Prod.fst).insertionSort (· ≤ ·)
  drain edges (nodes.length + 1) degrees queue []

/-- Every edge into a node of the order comes from a node before it. -/
def Forward (edges : List (α × α)) (order : List α) : Prop :=
  ∀ before a after, order = before ++ a :: after → ∀ b, Edge edges b a → b ∈ before

theorem mem_enqueue
    {queue : List α}
    {a b : α} :
    b ∈ enqueue queue a ↔ b ∈ queue ∨ b = a := by
  unfold enqueue
  rw [(List.perm_insertionSort _ _).mem_iff, List.mem_append, List.mem_singleton]

theorem nodup_enqueue
    {queue : List α}
    {a : α}
    (h : queue.Nodup)
    (ha : a ∉ queue) :
    (enqueue queue a).Nodup := by
  unfold enqueue
  rw [(List.perm_insertionSort _ _).nodup_iff, List.nodup_append]
  refine ⟨h, List.nodup_singleton a, ?_⟩
  intro b hb c hc heq
  rw [List.mem_singleton] at hc
  exact ha (hc ▸ heq ▸ hb)

theorem lookup_release
    (state : List (α × Nat) × List α)
    (a b : α) :
    Fields.lookup b (release state a).1 =
      if b = a then some ((Fields.lookup a state.1).getD 0 - 1)
      else Fields.lookup b state.1 :=
  Fields.lookup_insert _ _ _ _

theorem mem_release
    (state : List (α × Nat) × List α)
    (a b : α) :
    b ∈ (release state a).2 ↔
      b ∈ state.2 ∨ (b = a ∧ (Fields.lookup b state.1).getD 0 - 1 = 0) := by
  unfold release
  dsimp only
  split
  · rename_i hzero
    rw [mem_enqueue]
    constructor
    · rintro (hb | rfl)
      · exact Or.inl hb
      · exact Or.inr ⟨rfl, hzero⟩
    · rintro (hb | ⟨rfl, -⟩)
      · exact Or.inl hb
      · exact Or.inr rfl
  · rename_i hzero
    constructor
    · exact Or.inl
    · rintro (hb | ⟨rfl, hb⟩)
      · exact hb
      · exact absurd hb hzero

theorem nodup_release
    {state : List (α × Nat) × List α}
    {a : α}
    (h : state.2.Nodup)
    (ha : a ∉ state.2) :
    (release state a).2.Nodup := by
  unfold release
  dsimp only
  split
  · exact nodup_enqueue h ha
  · exact h

/-- What processing the successors of a node does. -/
theorem foldl_release
    {succs : List α}
    (hsuccs : succs.Nodup)
    (state : List (α × Nat) × List α)
    (hqueue : state.2.Nodup)
    (hfresh : ∀ b ∈ succs, b ∉ state.2) :
    (∀ b, Fields.lookup b (succs.foldl release state).1 =
      if b ∈ succs then some ((Fields.lookup b state.1).getD 0 - 1)
      else Fields.lookup b state.1) ∧
    (∀ b, b ∈ (succs.foldl release state).2 ↔
      b ∈ state.2 ∨ (b ∈ succs ∧ (Fields.lookup b state.1).getD 0 - 1 = 0)) ∧
    (succs.foldl release state).2.Nodup := by
  induction succs generalizing state with
  | nil =>
      exact ⟨by simp, by simp, hqueue⟩
  | cons a rest ih =>
      obtain ⟨harest, hrest⟩ := List.nodup_cons.1 hsuccs
      have hfresh' : ∀ b ∈ rest, b ∉ (release state a).2 := by
        intro b hb hq
        rcases (mem_release state a b).1 hq with hq | ⟨rfl, -⟩
        · exact hfresh b (List.mem_cons_of_mem _ hb) hq
        · exact harest hb
      obtain ⟨ih1, ih2, ih3⟩ := ih hrest (release state a)
        (nodup_release hqueue (hfresh a List.mem_cons_self)) hfresh'
      rw [List.foldl_cons]
      refine ⟨fun b => ?_, fun b => ?_, ih3⟩
      · rw [ih1, lookup_release]
        by_cases hb : b = a
        · subst hb
          simp [harest]
        · simp [hb]
      · rw [ih2, mem_release, lookup_release]
        by_cases hb : b = a
        · subst hb
          simp [harest]
        · simp [hb]

theorem nodup_outgoing
    {edges : List (α × α)}
    (h : edges.Nodup)
    (a : α) :
    (outgoing edges a).Nodup := by
  unfold outgoing
  refine List.Nodup.map_on ?_ (h.filter _)
  intro e he e' he' heq
  rw [List.mem_filter, decide_eq_true_eq] at he he'
  exact Prod.ext (he.2.trans he'.2.symm) heq

/-- The number of edges into a node from nodes not yet ordered. -/
def remaining (edges : List (α × α)) (order : List α) (b : α) : Nat :=
  edges.countP fun e => e.2 = b ∧ e.1 ∉ order

/-- Ordering a node takes its own edges away. -/
theorem remaining_concat
    {edges : List (α × α)}
    (hedges : edges.Nodup)
    {order : List α}
    {a : α}
    (ha : a ∉ order)
    (b : α) :
    remaining edges order b =
      remaining edges (order ++ [a]) b + if (a, b) ∈ edges then 1 else 0 := by
  unfold remaining
  induction edges with
  | nil =>
      rfl
  | cons e rest ih =>
      obtain ⟨hnot, hrest⟩ := List.nodup_cons.1 hedges
      rw [List.countP_cons, List.countP_cons, ih hrest]
      by_cases heq : e = (a, b)
      · subst heq
        simp [ha, hnot]
      · have hmem : (a, b) ∈ e :: rest ↔ (a, b) ∈ rest := by
          simp [Ne.symm heq]
        have hsame : (e.2 = b ∧ e.1 ∉ order ++ [a]) ↔ (e.2 = b ∧ e.1 ∉ order) := by
          constructor
          · rintro ⟨hb, hnew⟩
            exact ⟨hb, fun hold => hnew (List.mem_append_left _ hold)⟩
          · rintro ⟨hb, hold⟩
            refine ⟨hb, fun hnew => ?_⟩
            rcases List.mem_append.1 hnew with hnew | hnew
            · exact hold hnew
            · exact heq (Prod.ext (List.mem_singleton.1 hnew) hb)
        simp only [hmem, hsame]
        omega

theorem remaining_eq_zero_iff
    {edges : List (α × α)}
    {order : List α}
    {b : α} :
    remaining edges order b = 0 ↔ ∀ a, Edge edges a b → a ∈ order := by
  unfold remaining Edge
  rw [List.countP_eq_zero]
  constructor
  · intro h a hedge
    by_contra ha
    exact h (a, b) hedge (by simp [ha])
  · rintro h ⟨a, b'⟩ he hcond
    simp only [decide_eq_true_eq] at hcond
    exact hcond.2 (h a (hcond.1 ▸ he))

/-- What holds whenever the head of the queue is taken. -/
structure Draining (nodes : List α) (edges : List (α × α)) (degrees : List (α × Nat))
    (queue order : List α) : Prop where
  degree : ∀ b ∈ nodes, Fields.lookup b degrees = some (remaining edges order b)
  queued : ∀ b, b ∈ queue ↔ b ∈ nodes ∧ b ∉ order ∧ remaining edges order b = 0
  nodupQueue : queue.Nodup
  nodupOrder : order.Nodup
  known : ∀ b ∈ order, b ∈ nodes
  forward : Forward edges order

omit [LinearOrder α] in
theorem Forward.mem
    {edges : List (α × α)}
    {order : List α}
    (h : Forward edges order)
    {a b : α}
    (hedge : Edge edges b a)
    (ha : a ∈ order) :
    b ∈ order := by
  obtain ⟨before, after, rfl⟩ := List.append_of_mem ha
  exact List.mem_append_left _ (h before a after rfl b hedge)

/-- In a forward order the tail of an edge comes before its head. -/
theorem Forward.idxOf_lt
    {edges : List (α × α)}
    {order : List α}
    (h : Forward edges order)
    {a b : α}
    (hedge : Edge edges b a)
    (ha : a ∈ order) :
    order.idxOf b < order.idxOf a := by
  obtain ⟨before, after, rfl, hfirst⟩ := List.eq_append_cons_of_mem ha
  have hb : b ∈ before := h before a after rfl b hedge
  rw [List.idxOf_append_of_mem hb, List.idxOf_append_of_notMem hfirst, List.idxOf_cons_self]
  exact Nat.lt_of_lt_of_le (List.idxOf_lt_length_of_mem hb) (Nat.le_add_right _ _)

omit [LinearOrder α] in
theorem forward_concat
    {edges : List (α × α)}
    {order : List α}
    (h : Forward edges order)
    {a : α}
    (ha : ∀ b, Edge edges b a → b ∈ order) :
    Forward edges (order ++ [a]) := by
  intro before c after heq b hedge
  rcases List.eq_nil_or_concat after with rfl | ⟨rest, last, rfl⟩
  · obtain ⟨rfl, hlast⟩ := List.append_inj' heq rfl
    obtain rfl : a = c := by simpa using hlast
    exact ha b hedge
  · have hsplit : order ++ [a] = (before ++ c :: rest) ++ [last] := by
      rw [heq]
      simp
    obtain ⟨horder, -⟩ := List.append_inj' hsplit rfl
    exact h before c rest horder b hedge

theorem Draining.step
    {nodes : List α}
    {edges : List (α × α)}
    (hedges : edges.Nodup)
    (hwithin : ∀ a b, Edge edges a b → a ∈ nodes ∧ b ∈ nodes)
    {degrees : List (α × Nat)}
    {a : α}
    {queue order : List α}
    (h : Draining nodes edges degrees (a :: queue) order) :
    Draining nodes edges ((outgoing edges a).foldl release (degrees, queue)).1
      ((outgoing edges a).foldl release (degrees, queue)).2 (order ++ [a]) := by
  obtain ⟨hanodes, haorder, hazero⟩ := (h.queued a).1 List.mem_cons_self
  obtain ⟨haqueue, hqueue⟩ := List.nodup_cons.1 h.nodupQueue
  have hfresh : ∀ b ∈ outgoing edges a, b ∉ queue := by
    intro b hb hq
    have hzero := ((h.queued b).1 (List.mem_cons_of_mem _ hq)).2.2
    exact haorder (remaining_eq_zero_iff.1 hzero a (mem_outgoing.1 hb))
  obtain ⟨hlookup, hmem, hnodup⟩ :=
    foldl_release (nodup_outgoing hedges a) (degrees, queue) hqueue hfresh
  have hremaining : ∀ b, remaining edges order b =
      remaining edges (order ++ [a]) b + if b ∈ outgoing edges a then 1 else 0 := by
    intro b
    rw [remaining_concat hedges haorder b]
    congr 1
    exact if_congr mem_outgoing.symm rfl rfl
  refine ⟨fun b hb => ?_, fun b => ?_, hnodup, ?_, fun b hb => ?_, ?_⟩
  · rw [hlookup, h.degree b hb, hremaining b]
    split <;> simp
  · rw [hmem]
    constructor
    · rintro (hb | ⟨hb, hzero⟩)
      · obtain ⟨hnodes, horder, hzero⟩ := (h.queued b).1 (List.mem_cons_of_mem _ hb)
        have hne : b ≠ a := fun heq => haqueue (heq ▸ hb)
        exact ⟨hnodes, by simp [horder, hne], by have := hremaining b; omega⟩
      · have hedge := mem_outgoing.1 hb
        have hnodes := (hwithin a b hedge).2
        have horder : b ∉ order := fun hold => haorder (h.forward.mem hedge hold)
        have hne : b ≠ a := by
          rintro rfl
          exact haorder (remaining_eq_zero_iff.1 hazero b hedge)
        have hcount := hremaining b
        rw [if_pos hb] at hcount
        rw [h.degree b hnodes, Option.getD_some] at hzero
        exact ⟨hnodes, by simp [horder, hne], by omega⟩
    · rintro ⟨hnodes, hnew, hzero⟩
      simp only [List.mem_append, List.mem_singleton, not_or] at hnew
      have hcount := hremaining b
      by_cases hb : b ∈ outgoing edges a
      · rw [if_pos hb] at hcount
        refine Or.inr ⟨hb, ?_⟩
        rw [h.degree b hnodes, Option.getD_some]
        omega
      · rw [if_neg hb] at hcount
        have hqueued := (h.queued b).2 ⟨hnodes, hnew.1, by omega⟩
        exact Or.inl ((List.mem_cons.1 hqueued).resolve_left hnew.2)
  · rw [List.nodup_append]
    refine ⟨h.nodupOrder, List.nodup_singleton a, ?_⟩
    intro b hb c hc heq
    rw [List.mem_singleton] at hc
    exact haorder (hc ▸ heq ▸ hb)
  · rcases List.mem_append.1 hb with hb | hb
    · exact h.known b hb
    · exact List.mem_singleton.1 hb ▸ hanodes
  · exact forward_concat h.forward (remaining_eq_zero_iff.1 hazero)

theorem Draining.length_le
    {nodes : List α}
    {edges : List (α × α)}
    {degrees : List (α × Nat)}
    {queue order : List α}
    (h : Draining nodes edges degrees queue order) :
    order.length ≤ nodes.length :=
  (List.subperm_of_subset h.nodupOrder h.known).length_le

/-- The order a drained queue leaves. -/
theorem drain_spec
    {nodes : List α}
    {edges : List (α × α)}
    (hedges : edges.Nodup)
    (hwithin : ∀ a b, Edge edges a b → a ∈ nodes ∧ b ∈ nodes)
    {fuel : Nat}
    {degrees : List (α × Nat)}
    {queue order : List α}
    (h : Draining nodes edges degrees queue order)
    (hfuel : nodes.length < order.length + fuel) :
    ∃ degrees', Draining nodes edges degrees' [] (drain edges fuel degrees queue order) := by
  induction fuel generalizing degrees queue order with
  | zero =>
      exact absurd h.length_le (by omega)
  | succ fuel ih =>
      cases queue with
      | nil =>
          exact ⟨degrees, h⟩
      | cons a queue =>
          refine ih (h.step hedges hwithin) ?_
          rw [List.length_append, List.length_singleton]
          omega

theorem lookup_zeros
    (nodes : List α)
    (degrees : List (α × Nat))
    (b : α) :
    Fields.lookup b (nodes.foldl (fun m a => Fields.insert a 0 m) degrees) =
      if b ∈ nodes then some 0 else Fields.lookup b degrees := by
  induction nodes generalizing degrees with
  | nil =>
      simp
  | cons a rest ih =>
      rw [List.foldl_cons, ih, Fields.lookup_insert]
      by_cases hb : b ∈ rest
      · simp [hb]
      · by_cases ha : b = a <;> simp [hb, ha]

theorem lookup_counts
    (edges : List (α × α))
    (degrees : List (α × Nat))
    (b : α)
    {n : Nat}
    (h : Fields.lookup b degrees = some n) :
    Fields.lookup b (edges.foldl (fun degrees e =>
      Fields.insert e.2 ((Fields.lookup e.2 degrees).getD 0 + 1) degrees) degrees) =
      some (n + remaining edges [] b) := by
  induction edges generalizing degrees n with
  | nil =>
      exact h
  | cons e rest ih =>
      rw [List.foldl_cons]
      unfold remaining at ih ⊢
      by_cases hb : e.2 = b
      · rw [ih _ (n := n + 1) (by rw [Fields.lookup_insert, if_pos hb.symm, hb, h]; rfl),
          List.countP_cons]
        simp [hb]
        omega
      · rw [ih _ (n := n) (by rw [Fields.lookup_insert, if_neg (Ne.symm hb), h]),
          List.countP_cons]
        simp [hb]

theorem lookup_counts_none
    (edges : List (α × α))
    (degrees : List (α × Nat))
    {b : α}
    (hinto : ∀ a, ¬Edge edges a b)
    (h : Fields.lookup b degrees = none) :
    Fields.lookup b (edges.foldl (fun degrees e =>
      Fields.insert e.2 ((Fields.lookup e.2 degrees).getD 0 + 1) degrees) degrees) = none := by
  induction edges generalizing degrees with
  | nil =>
      exact h
  | cons e rest ih =>
      rw [List.foldl_cons]
      have hb : e.2 ≠ b := fun heq => hinto e.1 (heq ▸ List.mem_cons_self)
      exact ih _ (fun a hedge => hinto a (List.mem_cons_of_mem _ hedge))
        (by rw [Fields.lookup_insert, if_neg (Ne.symm hb), h])

theorem sorted_inDegrees (nodes : List α) (edges : List (α × α)) :
    Fields.Sorted (inDegrees nodes edges) := by
  have hnodes : ∀ (nodes : List α) (m : List (α × Nat)), Fields.Sorted m →
      Fields.Sorted (nodes.foldl (fun m a => Fields.insert a 0 m) m) := by
    intro nodes
    induction nodes with
    | nil => exact fun _ h => h
    | cons a rest ih => exact fun m h => ih _ (h.insert a 0)
  have hedges : ∀ (edges : List (α × α)) (m : List (α × Nat)), Fields.Sorted m →
      Fields.Sorted (edges.foldl (fun degrees e =>
        Fields.insert e.2 ((Fields.lookup e.2 degrees).getD 0 + 1) degrees) m) := by
    intro edges
    induction edges with
    | nil => exact fun _ h => h
    | cons e rest ih => exact fun m h => ih _ (h.insert _ _)
  exact hedges edges _ (hnodes nodes [] Fields.sorted_nil)

theorem lookup_inDegrees
    {nodes : List α}
    {edges : List (α × α)}
    (hwithin : ∀ a b, Edge edges a b → a ∈ nodes ∧ b ∈ nodes)
    (b : α) :
    Fields.lookup b (inDegrees nodes edges) =
      if b ∈ nodes then some (remaining edges [] b) else none := by
  unfold inDegrees
  split
  · rename_i hb
    rw [lookup_counts edges _ b (n := 0) (by rw [lookup_zeros, if_pos hb]), Nat.zero_add]
  · rename_i hb
    exact lookup_counts_none edges _ (fun a hedge => hb (hwithin a b hedge).2)
      (by rw [lookup_zeros, if_neg hb, Fields.lookup_nil])

theorem draining_start
    {nodes : List α}
    {edges : List (α × α)}
    (hwithin : ∀ a b, Edge edges a b → a ∈ nodes ∧ b ∈ nodes) :
    Draining nodes edges (inDegrees nodes edges)
      ((((inDegrees nodes edges).filter fun entry => entry.2 = 0).map
        Prod.fst).insertionSort (· ≤ ·)) [] := by
  have hsorted := sorted_inDegrees nodes edges
  refine ⟨fun b hb => ?_, fun b => ?_, ?_, List.nodup_nil, by simp, ?_⟩
  · rw [lookup_inDegrees hwithin, if_pos hb]
  · rw [(List.perm_insertionSort _ _).mem_iff]
    constructor
    · intro h
      obtain ⟨⟨b', n⟩, hmem, rfl⟩ := List.mem_map.1 h
      obtain ⟨hmem, hzero⟩ := List.mem_filter.1 hmem
      have hlookup := hsorted.lookup_of_mem hmem
      rw [lookup_inDegrees hwithin] at hlookup
      split at hlookup
      · rename_i hb
        have hn := Option.some.inj hlookup
        exact ⟨hb, by simp, hn.trans (of_decide_eq_true hzero)⟩
      · cases hlookup
    · rintro ⟨hb, -, hzero⟩
      have hlookup := lookup_inDegrees hwithin b
      rw [if_pos hb, hzero] at hlookup
      exact List.mem_map.2 ⟨(b, 0), List.mem_filter.2
        ⟨Fields.mem_of_lookup hlookup, decide_eq_true rfl⟩, rfl⟩
  · rw [(List.perm_insertionSort _ _).nodup_iff]
    have hkeys : ((inDegrees nodes edges).map Prod.fst).Nodup := by
      rw [List.nodup_iff_pairwise_ne, List.pairwise_map]
      exact hsorted.imp fun hlt => ne_of_lt hlt
    exact hkeys.sublist (List.filter_sublist.map _)
  · intro before a after h
    simp at h

/-- The order lists known nodes, each at most once and after its predecessors. -/
theorem topologicalOrder_spec
    {nodes : List α}
    {edges : List (α × α)}
    (hedges : edges.Nodup)
    (hwithin : ∀ a b, Edge edges a b → a ∈ nodes ∧ b ∈ nodes) :
    ∃ degrees, Draining nodes edges degrees [] (topologicalOrder nodes edges) :=
  drain_spec hedges hwithin (draining_start hwithin) (by simp)

/-- Every node outside a drained order has a predecessor outside it. -/
theorem Draining.exists_predecessor
    {nodes : List α}
    {edges : List (α × α)}
    {degrees : List (α × Nat)}
    {order : List α}
    (h : Draining nodes edges degrees [] order)
    {b : α}
    (hb : b ∈ nodes)
    (hnew : b ∉ order) :
    ∃ a, Edge edges a b ∧ a ∉ order := by
  by_contra hnone
  have hzero : remaining edges order b = 0 :=
    remaining_eq_zero_iff.2 fun a hedge => by
      by_contra ha
      exact hnone ⟨a, hedge, ha⟩
  exact absurd ((h.queued b).2 ⟨hb, hnew, hzero⟩) (by simp)

omit [LinearOrder α] in
/-- Where a forward order has a node, it has all from which the node is reached. -/
theorem Forward.mem_of_reach
    {edges : List (α × α)}
    {order : List α}
    (h : Forward edges order)
    {a b : α}
    (hreach : Relation.ReflTransGen (Edge edges) b a)
    (ha : a ∈ order) :
    b ∈ order := by
  induction hreach using Relation.ReflTransGen.head_induction_on with
  | refl => exact ha
  | head hedge _ ih => exact h.mem hedge ih

theorem Forward.idxOf_lt_of_walk
    {edges : List (α × α)}
    {order : List α}
    (h : Forward edges order)
    {a b : α}
    (hwalk : Relation.TransGen (Edge edges) b a)
    (ha : a ∈ order) :
    order.idxOf b < order.idxOf a := by
  induction hwalk using Relation.TransGen.head_induction_on with
  | single hedge => exact h.idxOf_lt hedge ha
  | head hedge hrest ih =>
      exact (h.idxOf_lt hedge (h.mem_of_reach hrest.to_reflTransGen ha)).trans ih

/-- What Kahn's order leaves out is what lies on a cycle or behind one. -/
theorem not_mem_topologicalOrder_iff
    {nodes : List α}
    {edges : List (α × α)}
    (hedges : edges.Nodup)
    (hwithin : ∀ a b, Edge edges a b → a ∈ nodes ∧ b ∈ nodes)
    {a : α}
    (ha : a ∈ nodes) :
    a ∉ topologicalOrder nodes edges ↔ BehindCycle (Edge edges) a := by
  obtain ⟨degrees, h⟩ := topologicalOrder_spec hedges hwithin
  constructor
  · intro hnew
    by_contra hfree
    -- A least node outside the order, among those that reach `a`, would have no predecessor
    -- outside it.
    let reaching := {x // x ∈ nodes ∧ Relation.ReflTransGen (Edge edges) x a}
    let walk : reaching → reaching → Prop := fun x y => Relation.TransGen (Edge edges) x.1 y.1
    have : IsTrans _ walk := ⟨fun _ _ _ hxy hyz => hxy.trans hyz⟩
    have : Std.Irrefl walk := ⟨fun x hcycle => hfree ⟨x.1, hcycle, x.2.2⟩⟩
    have : Finite reaching :=
      (nodes.finite_toSet.subset fun x hx => hx.1 :
        {x | x ∈ nodes ∧ Relation.ReflTransGen (Edge edges) x a}.Finite)
    obtain ⟨⟨b, hb, hreach⟩, hbnew, hleast⟩ :=
      (Finite.wellFounded_of_trans_of_irrefl walk).has_min
        {x | x.1 ∉ topologicalOrder nodes edges} ⟨⟨a, ha, .refl⟩, hnew⟩
    obtain ⟨c, hedge, hcnew⟩ := h.exists_predecessor hb hbnew
    exact hleast ⟨c, (hwithin c b hedge).1, hreach.head hedge⟩ hcnew
      (Relation.TransGen.single hedge)
  · rintro ⟨c, hcycle, hreach⟩ hmem
    exact lt_irrefl _ (h.forward.idxOf_lt_of_walk hcycle (h.forward.mem_of_reach hreach hmem))

/-- An acyclic graph is ordered completely. -/
theorem topologicalOrder_complete
    {nodes : List α}
    {edges : List (α × α)}
    (hedges : edges.Nodup)
    (hwithin : ∀ a b, Edge edges a b → a ∈ nodes ∧ b ∈ nodes)
    (hacyclic : Acyclic edges)
    {a : α}
    (ha : a ∈ nodes) :
    a ∈ topologicalOrder nodes edges := by
  by_contra hnew
  obtain ⟨c, hcycle, -⟩ := (not_mem_topologicalOrder_iff hedges hwithin ha).1 hnew
  exact hacyclic c hcycle

end Kahn

end Digraph
end FutureOs
