import FutureOs.Lib.Fallible
import Mathlib.Data.List.Basic

/-!
# Directory trees and walks over them

A finite tree of directories, without links, and the depth-first walk that visits an entry
before what is below it.  A visitor answers whether to descend; `walk_invariant` is the
rule for a walk: what each visit preserves holds of the entries reached at the end.

* `mem_reached`: an entry is reached exactly if the walk descends into everything above it;
* `mem_paths_lookup`: what a tree has below a path is what the node there has.
-/

namespace FutureOs
namespace DirTree

universe u v w

mutual

/-- A file, a directory that cannot be listed, or a directory. -/
inductive Node (α : Type u)
  | file
  | closed (reason : String)
  | dir (entries : Entries α)

inductive Entries (α : Type u)
  | nil
  | cons (name : α) (node : Node α) (rest : Entries α)

end

section DirTree

variable {α : Type u}

def Node.isDir : Node α → Bool
  | .file => false
  | .closed _ => true
  | .dir _ => true

def Entries.names : Entries α → List α
  | .nil => []
  | .cons name _ rest => name :: rest.names

mutual

/-- No directory lists a name twice. -/
def Node.Distinct : Node α → Prop
  | .file => True
  | .closed _ => True
  | .dir entries => entries.names.Nodup ∧ entries.Distinct

def Entries.Distinct : Entries α → Prop
  | .nil => True
  | .cons _ node rest => node.Distinct ∧ rest.Distinct

end

/-! ## Entries -/

mutual

/-- The entries a walk visits, in order; it goes into the directories `descends` names. -/
def Node.reached (descends : List α → Bool) (path : List α) : Node α → List (List α)
  | .file => [path]
  | .closed _ => [path]
  | .dir entries =>
      path :: if descends path then entries.reached descends path else []

def Entries.reached (descends : List α → Bool) (path : List α) :
    Entries α → List (List α)
  | .nil => []
  | .cons name node rest =>
      node.reached descends (path ++ [name]) ++ rest.reached descends path

end

/-- All entries at and below a path. -/
def Node.paths (path : List α) (node : Node α) : List (List α) :=
  node.reached (fun _ => true) path

/-! ## Walks -/

section Walk

variable {σ : Type v}
variable {ε : Type w}

/-- What a walk calls: a visitor, and the error for a directory it cannot list. -/
structure Visitor (α : Type u) (σ : Type v) (ε : Type w) where
  /-- The path, whether it is a directory; the answer is whether to descend. -/
  visit : List α → Bool → σ → Except ε (σ × Bool)
  /-- A listing fails behind the visit. -/
  closed : List α → String → σ → ε

mutual

def Node.walk (visitor : Visitor α σ ε) (path : List α) :
    Node α → σ → Except ε σ
  | .file, s =>
      match visitor.visit path false s with
      | .error e => .error e
      | .ok (s, _) => .ok s
  | .closed reason, s =>
      match visitor.visit path true s with
      | .error e => .error e
      | .ok (s, descend) =>
          if descend then .error (visitor.closed path reason s) else .ok s
  | .dir entries, s =>
      match visitor.visit path true s with
      | .error e => .error e
      | .ok (s, descend) =>
          if descend then entries.walk visitor path s else .ok s

def Entries.walk (visitor : Visitor α σ ε) (path : List α) :
    Entries α → σ → Except ε σ
  | .nil, s => .ok s
  | .cons name node rest, s =>
      match node.walk visitor (path ++ [name]) s with
      | .error e => .error e
      | .ok s => rest.walk visitor path s

end

/-- A visit keeps `I` and says where the walk goes on. -/
def Visitor.Keeps
    (visitor : Visitor α σ ε)
    (descends : List α → Bool)
    (I : σ → List (List α) → Prop) : Prop :=
  ∀ path isDir s s' descend seen, I s seen →
    visitor.visit path isDir s = .ok (s', descend) →
      I s' (seen ++ [path]) ∧ (isDir = true → descend = descends path)

variable {visitor : Visitor α σ ε}
variable {descends : List α → Bool}
variable {I : σ → List (List α) → Prop}

mutual

/--
What each successful visit preserves of the state and the entries seen so far, a
successful walk preserves, and it has seen the entries it reaches.
-/
theorem Node.walk_invariant
    (hkeeps : visitor.Keeps descends I)
    (node : Node α)
    (path : List α)
    (s s' : σ)
    (seen : List (List α))
    (hs : I s seen)
    (h : node.walk visitor path s = .ok s') :
    I s' (seen ++ node.reached descends path) := by
  cases node with
  | file =>
      unfold Node.walk at h
      cases hvisit : visitor.visit path false s with
      | error e => simp [hvisit] at h
      | ok result =>
          simp only [hvisit, Except.ok.injEq] at h
          subst h
          exact (hkeeps path false s _ _ seen hs hvisit).1
  | closed reason =>
      unfold Node.walk at h
      cases hvisit : visitor.visit path true s with
      | error e => simp [hvisit] at h
      | ok result =>
          simp only [hvisit] at h
          split at h
          case isTrue => cases h
          case isFalse =>
            cases h
            exact (hkeeps path true s _ _ seen hs hvisit).1
  | dir entries =>
      unfold Node.walk at h
      cases hvisit : visitor.visit path true s with
      | error e => simp [hvisit] at h
      | ok result =>
          simp only [hvisit] at h
          have hkept := hkeeps path true s _ _ seen hs hvisit
          rw [Node.reached, ← hkept.2 rfl, List.append_cons]
          split at h
          case isTrue hdescend =>
            rw [if_pos hdescend]
            exact entries.walk_invariant hkeeps path _ s' _ hkept.1 h
          case isFalse hdescend =>
            cases h
            rw [if_neg hdescend, List.append_nil]
            exact hkept.1

theorem Entries.walk_invariant
    (hkeeps : visitor.Keeps descends I)
    (entries : Entries α)
    (path : List α)
    (s s' : σ)
    (seen : List (List α))
    (hs : I s seen)
    (h : entries.walk visitor path s = .ok s') :
    I s' (seen ++ entries.reached descends path) := by
  cases entries with
  | nil =>
      cases h
      simpa [Entries.reached] using hs
  | cons name node rest =>
      unfold Entries.walk at h
      cases hnode : node.walk visitor (path ++ [name]) s with
      | error e => simp [hnode] at h
      | ok s₁ =>
          simp only [hnode] at h
          rw [Entries.reached, ← List.append_assoc]
          exact rest.walk_invariant hkeeps path s₁ s' _
            (node.walk_invariant hkeeps (path ++ [name]) s s₁ seen hs hnode) h

end

end Walk

/-! ## What a walk reaches -/

/-- Everything from `top` down to what is right above `path` is descended into. -/
def Open (descends : List α → Bool) (top path : List α) : Prop :=
  ∀ above, top <+: above → above <+: path → above ≠ path → descends above = true

variable {descends : List α → Bool}

mutual

theorem Node.prefix_of_reached
    (node : Node α)
    (top path : List α)
    (h : path ∈ node.reached descends top) :
    top <+: path := by
  cases node with
  | file =>
      obtain rfl := List.mem_singleton.1 h
      exact List.prefix_rfl
  | closed reason =>
      obtain rfl := List.mem_singleton.1 h
      exact List.prefix_rfl
  | dir entries =>
      rcases List.mem_cons.1 h with rfl | h
      · exact List.prefix_rfl
      · split at h
        case isTrue =>
          obtain ⟨name, hname⟩ := entries.prefix_of_reached top path h
          exact (List.prefix_append top [name]).trans hname
        case isFalse => cases h

theorem Entries.prefix_of_reached
    (entries : Entries α)
    (top path : List α)
    (h : path ∈ entries.reached descends top) :
    ∃ name, top ++ [name] <+: path := by
  cases entries with
  | nil => cases h
  | cons name node rest =>
      rcases List.mem_append.1 h with h | h
      · exact ⟨name, node.prefix_of_reached _ path h⟩
      · exact rest.prefix_of_reached top path h

end

theorem open_cons
    {top path : List α}
    {name : α}
    (hpath : top ++ [name] <+: path) :
    Open descends top path ↔
      descends top = true ∧ Open descends (top ++ [name]) path := by
  have htop : top <+: top ++ [name] := List.prefix_append top [name]
  constructor
  · intro h
    refine ⟨h top List.prefix_rfl (htop.trans hpath) ?_, fun above habove =>
      h above (htop.trans habove)⟩
    rintro rfl
    have hlength := hpath.length_le
    rw [List.length_append, List.length_singleton] at hlength
    omega
  · rintro ⟨hhere, hbelow⟩ above habove hle hne
    by_cases hlength : above.length ≤ top.length
    · rw [← habove.eq_of_length_le hlength]
      exact hhere
    · refine hbelow above (List.prefix_of_prefix_length_le hpath hle ?_) hle hne
      rw [List.length_append, List.length_singleton]
      omega

mutual

/-- An entry is reached exactly if the walk descends into all that is above it. -/
theorem Node.mem_reached
    (node : Node α)
    (top path : List α) :
    path ∈ node.reached descends top ↔
      path ∈ node.paths top ∧ Open descends top path := by
  have hself : Open descends top top := fun above habove hle hne =>
    absurd (hle.eq_of_length_le habove.length_le) hne
  cases node with
  | file =>
      simp only [Node.paths, Node.reached, List.mem_singleton]
      constructor
      · rintro rfl
        exact ⟨rfl, hself⟩
      · exact And.left
  | closed reason =>
      simp only [Node.paths, Node.reached, List.mem_singleton]
      constructor
      · rintro rfl
        exact ⟨rfl, hself⟩
      · exact And.left
  | dir entries =>
      simp only [Node.paths, Node.reached, List.mem_cons, if_true]
      constructor
      · rintro (rfl | h)
        · exact ⟨.inl rfl, hself⟩
        · split at h
          case isTrue hdescends =>
            obtain ⟨hmem, hopen⟩ := (entries.mem_reached top path hdescends).1 h
            exact ⟨.inr hmem, hopen⟩
          case isFalse => cases h
      · rintro ⟨rfl | hmem, hopen⟩
        · exact .inl rfl
        · obtain ⟨name, hname⟩ := entries.prefix_of_reached top path hmem
          have hdescends := ((open_cons hname).1 hopen).1
          rw [if_pos hdescends]
          exact .inr ((entries.mem_reached top path hdescends).2 ⟨hmem, hopen⟩)

theorem Entries.mem_reached
    (entries : Entries α)
    (top path : List α)
    (hdescends : descends top = true) :
    path ∈ entries.reached descends top ↔
      path ∈ entries.reached (fun _ => true) top ∧ Open descends top path := by
  cases entries with
  | nil => simp [Entries.reached]
  | cons name node rest =>
      have hopen : path ∈ node.paths (top ++ [name]) →
          (Open descends top path ↔ Open descends (top ++ [name]) path) := by
        intro hmem
        rw [open_cons (node.prefix_of_reached _ path hmem), hdescends]
        exact and_iff_right rfl
      rw [Entries.reached, Entries.reached, List.mem_append, List.mem_append,
        node.mem_reached, rest.mem_reached top path hdescends, or_and_right]
      exact or_congr_left (and_congr_right fun hmem => (hopen hmem).symm)

end

/-! ## Looking a path up -/

/-- What there is at a path; behind what is no readable directory nothing is known. -/
inductive Lookup (α : Type u)
  | found (node : Node α)
  | missing
  | blocked (reason : String)

section Lookup

variable [DecidableEq α]

def Entries.find? (name : α) : Entries α → Option (Node α)
  | .nil => none
  | .cons other node rest => if other = name then some node else rest.find? name

def Node.lookup : List α → Node α → Lookup α
  | [], node => .found node
  | _ :: _, .file => .blocked "Not a directory"
  | _ :: _, .closed reason => .blocked reason
  | name :: names, .dir entries =>
      match entries.find? name with
      | none => .missing
      | some node => node.lookup names

theorem Entries.mem_names_of_find?
    {name : α}
    {node : Node α}
    (entries : Entries α)
    (h : entries.find? name = some node) :
    name ∈ entries.names := by
  cases entries with
  | nil => cases h
  | cons other first rest =>
      unfold Entries.find? at h
      split at h
      case isTrue heq =>
        subst heq
        exact List.mem_cons_self
      case isFalse => exact List.mem_cons_of_mem _ (rest.mem_names_of_find? h)

theorem Entries.distinct_of_find?
    {name : α}
    {node : Node α}
    (entries : Entries α)
    (hdistinct : entries.Distinct)
    (h : entries.find? name = some node) :
    node.Distinct := by
  cases entries with
  | nil => cases h
  | cons other first rest =>
      unfold Entries.find? at h
      split at h
      case isTrue =>
        cases h
        exact hdistinct.1
      case isFalse => exact rest.distinct_of_find? hdistinct.2 h

theorem Entries.mem_of_find?
    {name : α}
    {node : Node α}
    (entries : Entries α)
    (top path : List α)
    (hfind : entries.find? name = some node)
    (h : path ∈ node.reached descends (top ++ [name])) :
    path ∈ entries.reached descends top := by
  cases entries with
  | nil => cases hfind
  | cons other first rest =>
      unfold Entries.find? at hfind
      split at hfind
      case isTrue heq =>
        cases hfind
        subst heq
        exact List.mem_append_left _ h
      case isFalse => exact List.mem_append_right _ (rest.mem_of_find? top path hfind h)

/-- A name is listed once, so an entry below it is below the node it names. -/
theorem Entries.find?_of_mem
    (entries : Entries α)
    (top path : List α)
    (name : α)
    (hnodup : entries.names.Nodup)
    (hname : top ++ [name] <+: path)
    (h : path ∈ entries.reached descends top) :
    ∃ node, entries.find? name = some node ∧
      path ∈ node.reached descends (top ++ [name]) := by
  cases entries with
  | nil => cases h
  | cons other node rest =>
      obtain ⟨hother, hrest⟩ := List.nodup_cons.1 hnodup
      rcases List.mem_append.1 h with h | h
      · have heq : other = name := by
          have hprefix := node.prefix_of_reached _ path h
          have happend := List.prefix_of_prefix_length_le hprefix hname (by simp)
          simpa using happend.eq_of_length (by simp)
        subst heq
        exact ⟨node, if_pos rfl, h⟩
      · obtain ⟨found, hfound, hmem⟩ := rest.find?_of_mem top path name hrest hname h
        have hne : other ≠ name := by
          rintro rfl
          exact hother (rest.mem_names_of_find? hfound)
        exact ⟨found, (if_neg hne).trans hfound, hmem⟩

/-- What a tree has at and below a path is what the node there has. -/
theorem Node.mem_paths_lookup
    (names : List α)
    (node : Node α)
    (top path : List α)
    (hdistinct : node.Distinct)
    (hnames : top ++ names <+: path) :
    path ∈ node.paths top ↔
      ∃ sub, node.lookup names = .found sub ∧ path ∈ sub.paths (top ++ names) := by
  induction names generalizing node top with
  | nil =>
      rw [List.append_nil]
      constructor
      · exact fun h => ⟨node, by cases node <;> rfl, h⟩
      · rintro ⟨sub, hsub, hmem⟩
        cases node <;> cases hsub <;> exact hmem
  | cons name names ih =>
      have htop : path ≠ top := by
        rintro rfl
        have hlength := hnames.length_le
        rw [List.length_append, List.length_cons] at hlength
        omega
      have hname : top ++ [name] <+: path :=
        ((List.prefix_append_right_inj top).2 (List.prefix_append [name] names)).trans hnames
      rw [List.append_cons] at hnames ⊢
      cases node with
      | file =>
          simp only [Node.paths, Node.reached, List.mem_singleton, htop, Node.lookup,
            reduceCtorEq, false_and, exists_false]
      | closed reason =>
          simp only [Node.paths, Node.reached, List.mem_singleton, htop, Node.lookup,
            reduceCtorEq, false_and, exists_false]
      | dir entries =>
          simp only [Node.paths, Node.reached, List.mem_cons, htop, false_or, if_true,
            Node.lookup]
          constructor
          · intro h
            obtain ⟨node, hfind, hmem⟩ :=
              entries.find?_of_mem top path name hdistinct.1 hname h
            rw [hfind]
            exact (ih node (top ++ [name])
              (entries.distinct_of_find? hdistinct.2 hfind) hnames).1 hmem
          · rintro ⟨sub, hsub, hmem⟩
            cases hfind : entries.find? name with
            | none => simp [hfind] at hsub
            | some node =>
                rw [hfind] at hsub
                exact entries.mem_of_find? top path hfind
                  ((ih node (top ++ [name])
                    (entries.distinct_of_find? hdistinct.2 hfind) hnames).2
                      ⟨sub, hsub, hmem⟩)

end Lookup

end DirTree

end DirTree
end FutureOs
