import FutureOs.Lib.Digraph
import Mathlib.Data.List.Chain

/-!
# Walks that follow one successor

`walkBack` follows a partial successor function from a start until it is back, comes to a node
it has seen, or finds no successor.  With fuel for all nodes the walk is closed exactly if
the start lies on a cycle of the function (`walkBack_closed_iff`).

`LeastStep` is the successor function of a relation that always takes the least one.
-/

namespace FutureOs
namespace Digraph

universe u

variable {α : Type u}

/-- The walk is closed: it has a step and ends where it starts. -/
def ClosedWalk (r : α → α → Prop) (path : List α) : Prop :=
  path.IsChain r ∧ 2 ≤ path.length ∧ path.head? = path.getLast?

/-- `b` is the least of the successors. -/
def LeastStep [LE α] (r : α → α → Prop) (a b : α) : Prop :=
  r a b ∧ ∀ c, r a c → b ≤ c

/-- The least node on or behind a cycle lies on a cycle of least successors. -/
def LeastReturns [LE α] (r : α → α → Prop) : Prop :=
  ∃ start, (BehindCycle r start ∧ ∀ a, BehindCycle r a → start ≤ a) ∧
    Relation.TransGen (LeastStep r) start start

/-- A step forward from a node behind a cycle leads to one. -/
theorem BehindCycle.step
    {r : α → α → Prop}
    {a b : α}
    (h : BehindCycle r a)
    (hab : r a b) :
    BehindCycle r b := by
  obtain ⟨c, hcycle, hreach⟩ := h
  exact ⟨c, hcycle, hreach.tail hab⟩

/-- Two relations that agree where a walk can be have the same walks. -/
theorem transGen_congr
    {r r' : α → α → Prop}
    {p : α → Prop}
    (hstep : ∀ a b, p a → (r a b ↔ r' a b))
    (hkeeps : ∀ a b, p a → r a b → p b)
    {a b : α}
    (ha : p a) :
    Relation.TransGen r a b ↔ Relation.TransGen r' a b := by
  constructor
  · intro hwalk
    have hboth : p b ∧ Relation.TransGen r' a b := by
      induction hwalk with
      | single h => exact ⟨hkeeps _ _ ha h, .single ((hstep _ _ ha).1 h)⟩
      | tail _ h ih => exact ⟨hkeeps _ _ ih.1 h, ih.2.tail ((hstep _ _ ih.1).1 h)⟩
    exact hboth.2
  · intro hwalk
    have hboth : p b ∧ Relation.TransGen r a b := by
      induction hwalk with
      | single h =>
          have h' := (hstep _ _ ha).2 h
          exact ⟨hkeeps _ _ ha h', .single h'⟩
      | tail _ h ih =>
          have h' := (hstep _ _ ih.1).2 h
          exact ⟨hkeeps _ _ ih.1 h', ih.2.tail h'⟩
    exact hboth.2

/-! ## The walk -/

variable [DecidableEq α] (next : α → Option α) (start : α)

def walkBack : Nat → α → List α → List α → List α
  | 0, _, _, path => path
  | fuel + 1, current, seen, path =>
      match next current with
      | none => path
      | some node =>
          if node = start then
            path ++ [node]
          else if node ∈ seen then
            path
          else
            walkBack fuel node (node :: seen) (path ++ [node])

/-- The nodes of the function's cycle or tail so far, each once. -/
structure Walked (path : List α) (current : α) : Prop where
  head : path.head? = some start
  last : path.getLast? = some current
  chain : path.IsChain fun a b => next a = some b
  nodup : path.Nodup

variable {next start}

omit [DecidableEq α] in
theorem Walked.ne_nil
    {path : List α}
    {current : α}
    (h : Walked next start path current) :
    path ≠ [] := by
  rintro rfl
  simpa using h.head

omit [DecidableEq α] in
theorem Walked.step
    {path : List α}
    {current node : α}
    (h : Walked next start path current)
    (hnext : next current = some node)
    (hnew : node ∉ path) :
    Walked next start (path ++ [node]) node where
  head := by
    rw [List.head?_append, h.head]
    rfl
  last := by simp
  chain := by
    refine h.chain.append (List.isChain_singleton _) fun a ha b hb => ?_
    rw [h.last, Option.mem_some_iff] at ha
    obtain rfl : node = b := by simpa using hb
    rw [← ha, hnext]
  nodup := by
    rw [List.nodup_append]
    refine ⟨h.nodup, List.nodup_singleton _, fun a ha b hb => ?_⟩
    rintro rfl
    exact hnew (List.mem_singleton.1 hb ▸ ha)

/-- The walk comes back to the start, or stops at a node that leads nowhere new. -/
theorem walkBack_spec
    {nodes : List α}
    (hwithin : ∀ a b, next a = some b → b ∈ nodes)
    {fuel : Nat}
    {current : α}
    {seen path : List α}
    (h : Walked next start path current)
    (hpath : path ⊆ nodes)
    (hseen : ∀ a, a ∈ seen ↔ a ∈ path)
    (hfuel : nodes.length < fuel + path.length) :
    (∃ p last, walkBack next start fuel current seen path = p ++ [start] ∧
        Walked next start p last ∧ next last = some start) ∨
      ∃ last, Walked next start (walkBack next start fuel current seen path) last ∧
        ∀ b, next last = some b →
          b ∈ walkBack next start fuel current seen path ∧ b ≠ start := by
  induction fuel generalizing current seen path with
  | zero =>
      have hlength := (List.subperm_of_subset h.nodup hpath).length_le
      omega
  | succ fuel ih =>
      rw [walkBack]
      cases hnext : next current with
      | none => exact .inr ⟨current, h, by simp [hnext]⟩
      | some node =>
          by_cases hback : node = start
          · simp only [if_pos hback]
            exact .inl ⟨path, current, by rw [hback], h, hback ▸ hnext⟩
          · simp only [if_neg hback]
            by_cases hold : node ∈ seen
            · simp only [if_pos hold]
              refine .inr ⟨current, h, fun b hb => ?_⟩
              obtain rfl : node = b := Option.some.inj (hnext.symm.trans hb)
              exact ⟨(hseen node).1 hold, hback⟩
            · simp only [if_neg hold]
              have hnew : node ∉ path := fun hmem => hold ((hseen node).2 hmem)
              refine ih (h.step hnext hnew) ?_ ?_ ?_
              · intro a ha
                rcases List.mem_append.1 ha with ha | ha
                · exact hpath ha
                · exact List.mem_singleton.1 ha ▸ hwithin current node hnext
              · intro a
                rw [List.mem_cons, List.mem_append, List.mem_singleton, hseen, or_comm]
              · rw [List.length_append, List.length_singleton]
                omega

omit [DecidableEq α] in
/-- The successor of a node before the last is the next one, and not the start. -/
theorem Walked.successor
    {path : List α}
    {last a b : α}
    (h : Walked next start path last)
    (hlast : ∀ b, next last = some b → b ∈ path ∧ b ≠ start)
    (ha : a ∈ path)
    (hab : next a = some b) :
    b ∈ path ∧ b ≠ start := by
  obtain ⟨front, back, rfl⟩ := List.append_of_mem ha
  cases back with
  | nil =>
      have haend : a = last := by simpa using h.last
      exact hlast b (haend ▸ hab)
  | cons c rest =>
      have hc : next a = some c := by
        have hchain := h.chain.right_of_append
        exact (List.isChain_cons_cons.1 hchain).1
      obtain rfl : c = b := Option.some.inj (hc.symm.trans hab)
      refine ⟨by simp, ?_⟩
      rintro rfl
      have hnodup := h.nodup
      cases front with
      | nil =>
          have hhead : a = c := by simpa using h.head
          simp [hhead] at hnodup
      | cons d front =>
          have hhead : d = c := by simpa using h.head
          simp [hhead] at hnodup

omit [DecidableEq α] in
/-- A walk that is stuck does not come back. -/
theorem Walked.not_returns
    {path : List α}
    {last : α}
    (h : Walked next start path last)
    (hlast : ∀ b, next last = some b → b ∈ path ∧ b ≠ start) :
    ¬ Relation.TransGen (fun a b => next a = some b) start start := by
  have hstart : start ∈ path := List.mem_of_mem_head? (by rw [h.head]; rfl)
  have hreach :
      ∀ b, Relation.TransGen (fun a b => next a = some b) start b → b ∈ path ∧ b ≠ start := by
    intro b hb
    induction hb with
    | single hstep => exact h.successor hlast hstart hstep
    | tail _ hstep ih => exact h.successor hlast ih.1 hstep
  exact fun hreturn => (hreach start hreturn).2 rfl

omit [DecidableEq α] in
theorem Walked.nodup_ends
    {path : List α}
    {last : α}
    (h : Walked next start path last)
    (hlength : 2 ≤ path.length) :
    path.head? ≠ path.getLast? := by
  intro hclosed
  have hnodup := h.nodup
  cases path with
  | nil => simp at hlength
  | cons a rest =>
      have hne : rest ≠ [] := by
        rintro rfl
        simp at hlength
      have hlast : rest.getLast hne = a := by
        rw [List.getLast?_eq_some_getLast (by simp), List.getLast_cons hne] at hclosed
        exact (Option.some.inj hclosed).symm
      exact (List.nodup_cons.1 hnodup).1 (hlast ▸ List.getLast_mem hne)

omit [DecidableEq α] in
/-- A walk that comes back closes a cycle. -/
theorem Walked.returns
    {path : List α}
    {last : α}
    (h : Walked next start path last)
    (hlast : next last = some start) :
    Relation.TransGen (fun a b => next a = some b) start start := by
  obtain ⟨rest, rfl⟩ : ∃ rest, path = start :: rest := by
    cases path with
    | nil => simpa using h.head
    | cons a rest => exact ⟨rest, by rw [show a = start by simpa using h.head]⟩
  have hreach : Relation.ReflTransGen (fun a b => next a = some b) start last := by
    have hend : (start :: rest).getLast (by simp) = last :=
      List.getLast_of_getLast?_eq_some h.last
    exact List.relationReflTransGen_of_exists_isChain_cons rest h.chain hend
  exact Relation.TransGen.tail' hreach hlast

/-- The path of a walk from the start is a chain, and closed exactly if the start is on a
cycle of the function; with one node only it ends where it starts if it has no successor. -/
theorem walkBack_closed
    {nodes : List α}
    (hwithin : ∀ a b, next a = some b → b ∈ nodes)
    (hstart : start ∈ nodes)
    {fuel : Nat}
    (hfuel : nodes.length ≤ fuel) :
    let path := walkBack next start fuel start [start] [start]
    path.IsChain (fun a b => next a = some b) ∧
      ((2 ≤ path.length ∧ path.head? = path.getLast?) ↔
        Relation.TransGen (fun a b => next a = some b) start start) := by
  have hwalk : Walked next start [start] start :=
    ⟨rfl, rfl, List.isChain_singleton _, List.nodup_singleton _⟩
  have hlength : nodes.length < fuel + [start].length := Nat.lt_succ_of_le hfuel
  intro path
  rcases walkBack_spec hwithin hwalk (by simpa using hstart) (fun a => Iff.rfl) hlength with
    ⟨p, last, heq, hp, hlast⟩ | ⟨last, hp, hlast⟩
  · have hclosed : path.head? = path.getLast? := by
      rw [show path = p ++ [start] from heq, List.head?_append, hp.head, List.getLast?_concat]
      rfl
    have hlength : 2 ≤ path.length := by
      have hpos := List.length_pos_of_ne_nil hp.ne_nil
      rw [show path = p ++ [start] from heq, List.length_append, List.length_singleton]
      omega
    refine ⟨?_, iff_of_true ⟨hlength, hclosed⟩ (hp.returns hlast)⟩
    rw [show path = p ++ [start] from heq]
    refine hp.chain.append (List.isChain_singleton _) fun a ha b hb => ?_
    rw [hp.last, Option.mem_some_iff] at ha
    obtain rfl : start = b := by simpa using hb
    exact ha ▸ hlast
  · refine ⟨hp.chain, iff_of_false ?_ (hp.not_returns hlast)⟩
    rintro ⟨hlength, hclosed⟩
    exact hp.nodup_ends hlength hclosed

end Digraph
end FutureOs
