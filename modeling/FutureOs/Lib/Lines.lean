import FutureOs.Lib.Text
import FutureOs.Lib.Utf8

/-!
# Texts of lines

A text is cut at its line feeds into the lines that are terminated and the rest behind
the last line feed.  What is written behind a text goes to that rest first
(`cut_append`), which is all that matters to a log that is only appended to.
-/

namespace FutureOs
namespace Lines

/-- The terminated lines, and the rest behind the last line feed. -/
def cut : Text → List Text × Text
  | [] => ([], [])
  | c :: t =>
      if c = '\n' then
        ([] :: (cut t).1, (cut t).2)
      else
        match (cut t).1 with
        | [] => ([], c :: (cut t).2)
        | line :: lines => ((c :: line) :: lines, (cut t).2)

/-- A carriage return before the line feed belongs to it. -/
def stripReturn (line : Text) : Text :=
  if line.getLast? = some '\r' then line.dropLast else line

/-- `str::lines`. -/
def lines (t : Text) : List Text :=
  (cut t).1.map stripReturn ++ if (cut t).2 = [] then [] else [(cut t).2]

/-- `trim().is_empty()`. -/
def isBlank (line : Text) : Bool :=
  line.all Text.isWhitespace

@[simp] theorem cut_nil : cut [] = ([], []) := rfl

/-- A text without line feeds is all rest. -/
theorem cut_of_not_mem
    {t : Text}
    (h : '\n' ∉ t) :
    cut t = ([], t) := by
  induction t with
  | nil =>
      rfl
  | cons c t ih =>
      rw [List.mem_cons, not_or] at h
      rw [cut, if_neg (Ne.symm h.1), ih h.2]

/-- What is written behind a text. -/
theorem cut_append (t u : Text) :
    cut (t ++ u) =
      match (cut u).1 with
      | [] => ((cut t).1, (cut t).2 ++ (cut u).2)
      | line :: lines => ((cut t).1 ++ ((cut t).2 ++ line) :: lines, (cut u).2) := by
  induction t with
  | nil =>
      cases hu : (cut u).1 with
      | nil =>
          simp [hu, Prod.ext_iff]
      | cons line lines =>
          simp [hu, Prod.ext_iff]
  | cons c t ih =>
      rw [List.cons_append, cut, cut, ih]
      by_cases hc : c = '\n'
      · simp only [if_pos hc]
        cases (cut u).1 with
        | nil =>
            rfl
        | cons line lines =>
            rfl
      · simp only [if_neg hc]
        cases (cut u).1 with
        | nil =>
            cases (cut t).1 with
            | nil =>
                rfl
            | cons first rest =>
                rfl
        | cons line lines =>
            cases (cut t).1 with
            | nil =>
                rfl
            | cons first rest =>
                rfl

theorem cut_newline (u : Text) : cut ('\n' :: u) = ([] :: (cut u).1, (cut u).2) := rfl

/-- One line written behind a text, and more behind it. -/
theorem cut_append_line
    (t : Text)
    {line : Text}
    (h : '\n' ∉ line)
    (u : Text) :
    cut (t ++ (line ++ '\n' :: u)) =
      ((cut t).1 ++ ((cut t).2 ++ line) :: (cut u).1, (cut u).2) := by
  have hline : cut (line ++ '\n' :: u) = (line :: (cut u).1, (cut u).2) := by
    rw [cut_append, cut_newline, cut_of_not_mem h]
    simp
  rw [cut_append, hline]

/-- A partial line written behind a text. -/
theorem cut_append_part
    (t : Text)
    {part : Text}
    (h : '\n' ∉ part) :
    cut (t ++ part) = ((cut t).1, (cut t).2 ++ part) := by
  rw [cut_append, cut_of_not_mem h]

theorem stripReturn_of_not_mem
    {t line : Text}
    (hne : line ≠ [])
    (h : '\r' ∉ line) :
    stripReturn (t ++ line) = t ++ line := by
  unfold stripReturn
  rw [if_neg]
  intro hlast
  rw [List.getLast?_append_of_ne_nil _ hne] at hlast
  exact h (List.mem_of_getLast? hlast)

end Lines
end FutureOs
