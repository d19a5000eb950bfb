import Mathlib.Data.List.Basic
import Mathlib.Tactic.Common

/-!
# Reading S-expressions

A reader that takes a text character by character: lists, atoms, texts in quotes with a
backslash before a quote or a backslash, raw texts between `#"` and `"`, and comments from a
semicolon to the end of the line.

* `run_append`: a text is read piece by piece;
* `run_quote`: what is quoted is read back, whatever it contains.
-/

namespace FutureOs

inductive Sexp
  | nil
  | atom (name : List Char)
  | text (content : List Char)
  | raw (content : List Char)
  | cons (head tail : Sexp)
deriving DecidableEq

namespace Sexp

def ofList : List Sexp → Sexp
  | [] => nil
  | x :: xs => cons x (ofList xs)

/-- The members of a list. -/
def items : Sexp → List Sexp
  | cons head tail => head :: tail.items
  | _ => []

@[simp] theorem items_ofList (xs : List Sexp) : (ofList xs).items = xs := by
  induction xs with
  | nil =>
      rfl
  | cons x xs ih =>
      rw [ofList, items, ih]

/-! ## The reader -/

/-- What is being read. -/
inductive Mode
  | idle
  | atom (name : List Char)
  | text (content : List Char)
  | escape (content : List Char)
  | hash
  | raw (content : List Char)
  | comment
deriving DecidableEq

/-- The forms of the innermost open list, and of the lists around it. -/
structure Reader where
  outer : List (List Sexp)
  forms : List Sexp
  mode : Mode
deriving DecidableEq

def isBlank (c : Char) : Bool :=
  c = ' ' ∨ c = '\n'

def isDelimiter (c : Char) : Bool :=
  isBlank c ∨ c = '(' ∨ c = ')' ∨ c = '"' ∨ c = ';'

namespace Reader

def new : Reader := ⟨[], [], .idle⟩

def add (r : Reader) (x : Sexp) : Reader :=
  ⟨r.outer, r.forms ++ [x], .idle⟩

/-- A character in front of a form. -/
def start (r : Reader) (c : Char) : Option Reader :=
  if isBlank c then
    some { r with mode := .idle }
  else if c = '(' then
    some ⟨r.forms :: r.outer, [], .idle⟩
  else if c = ')' then
    match r.outer with
    | [] => none
    | forms :: outer => some ⟨outer, forms ++ [ofList r.forms], .idle⟩
  else if c = '"' then
    some { r with mode := .text [] }
  else if c = ';' then
    some { r with mode := .comment }
  else if c = '#' then
    some { r with mode := .hash }
  else
    some { r with mode := .atom [c] }

def step (r : Reader) (c : Char) : Option Reader :=
  match r.mode with
  | .idle => r.start c
  | .atom name =>
      if isDelimiter c then
        (r.add (.atom name)).start c
      else
        some { r with mode := .atom (name ++ [c]) }
  | .text content =>
      if c = '"' then
        some (r.add (.text content))
      else if c = '\\' then
        some { r with mode := .escape content }
      else
        some { r with mode := .text (content ++ [c]) }
  | .escape content =>
      if c = '"' ∨ c = '\\' then
        some { r with mode := .text (content ++ [c]) }
      else
        none
  | .hash => if c = '"' then some { r with mode := .raw [] } else none
  | .raw content =>
      if c = '"' then
        some (r.add (.raw content))
      else
        some { r with mode := .raw (content ++ [c]) }
  | .comment => if c = '\n' then some { r with mode := .idle } else some r

def run (r : Reader) (t : List Char) : Option Reader :=
  t.foldlM step r

end Reader

/-- The forms of a text in which every list is closed. -/
def read (t : List Char) : Option (List Sexp) :=
  match Reader.new.run t with
  | some ⟨[], forms, .idle⟩ => some forms
  | some ⟨[], forms, .comment⟩ => some forms
  | some ⟨[], forms, .atom name⟩ => some (forms ++ [.atom name])
  | _ => none

/-! ## Quoting -/

def escaped (c : Char) : List Char :=
  if c = '"' ∨ c = '\\' then ['\\', c] else [c]

/-- A text in quotes. -/
def quote (content : List Char) : List Char :=
  '"' :: content.flatMap escaped ++ ['"']

/-! ## Reading piece by piece -/

namespace Reader

theorem run_append (r : Reader) (s t : List Char) :
    r.run (s ++ t) = (r.run s).bind fun r => r.run t :=
  List.foldlM_append

theorem run_append_of_run
    {r r' : Reader}
    {s : List Char}
    (h : r.run s = some r')
    (t : List Char) :
    r.run (s ++ t) = r'.run t := by
  rw [run_append, h, Option.bind_some]

theorem run_cons_of_step
    {r r' : Reader}
    {c : Char}
    (h : r.step c = some r')
    (t : List Char) :
    r.run (c :: t) = r'.run t := by
  rw [run, List.foldlM_cons, h]
  rfl

/-- Escapes are taken out again. -/
theorem run_escaped
    (outer : List (List Sexp))
    (forms : List Sexp)
    (done content : List Char) :
    run ⟨outer, forms, .text done⟩ (content.flatMap escaped) =
      some ⟨outer, forms, .text (done ++ content)⟩ := by
  induction content generalizing done with
  | nil =>
      rw [List.append_nil]
      rfl
  | cons c content ih =>
      have hc : run ⟨outer, forms, .text done⟩ (escaped c) =
          some ⟨outer, forms, .text (done ++ [c])⟩ := by
        by_cases h : c = '"' ∨ c = '\\'
        · rcases h with rfl | rfl <;> rfl
        · obtain ⟨hquote, hslash⟩ := not_or.1 h
          rw [escaped, if_neg h]
          refine (run_cons_of_step ?_ []).trans rfl
          simp [step, hquote, hslash]
      rw [List.flatMap_cons, run_append_of_run hc, ih, List.append_assoc]
      rfl

theorem run_quote
    (outer : List (List Sexp))
    (forms : List Sexp)
    (content : List Char) :
    run ⟨outer, forms, .idle⟩ (quote content) =
      some ⟨outer, forms ++ [.text content], .idle⟩ := by
  have hopen : step ⟨outer, forms, .idle⟩ '"' = some ⟨outer, forms, .text []⟩ := rfl
  rw [quote, List.cons_append, run_cons_of_step hopen,
    run_append_of_run (run_escaped outer forms [] content)]
  rfl

end Reader

end Sexp
end FutureOs
