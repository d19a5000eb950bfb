import FutureOs.Lib.JsonReading

/-!
# Object texts that are cut off

A `Cut` is a place in the text of an object where the text may break off: between two
characters of a string value, or right after a string or an object that is the value of a
member.  It knows what comes before it, level by level, and what is still to come.

`Cut.start` is the text up to the place and `Cut.received` what it says: the members that are
complete, the last one as far as it came.  A closing quote, if the place is in a string, and
one closing brace a level make an object text of it that says so (`Cut.closed_text`,
`Cut.closed_data`).
-/

namespace FutureOs
namespace JsonSyntax

/-- An object around one of its members. -/
structure Frame where
  inside : Blank
  done : List (Label × Syntax)
  label : Label
  later : List (Label × Syntax)

inductive Cut
  /-- In the string `received ++ missing`. -/
  | string (frame : Frame) (received missing : List Item)
  | afterString (frame : Frame) (items : List Item)
  | afterObject (frame : Frame) (inside : Blank) (members : List (Label × Syntax))
  /-- In the object that is the value of the frame's member. -/
  | member (frame : Frame) (inner : Cut)

namespace Frame

/-- The object when `value` is the value of the member. -/
def fill (frame : Frame) (value : Syntax) : Syntax :=
  .object frame.inside (frame.done ++ (frame.label, value) :: frame.later)

/-- The object when it ends with the member. -/
def close (frame : Frame) (value : Syntax) : Syntax :=
  .object frame.inside (frame.done ++ [({ frame.label with afterValue := [] }, value)])

def doneText : List (Label × Syntax) → List Char
  | [] => []
  | (label, value) :: rest =>
      label.text ++ value.text ++ blankText label.afterValue ++ ',' :: doneText rest

/-- The text up to the value of the member. -/
def start (frame : Frame) : List Char :=
  '\x7b' :: blankText frame.inside ++ doneText frame.done ++ frame.label.text

/-- The text after the value of the member. -/
def rest (frame : Frame) : List Char :=
  blankText frame.label.afterValue ++ Syntax.comma frame.later ++
    Syntax.textMembers frame.later ++ ['\x7d']

def data (frame : Frame) (value : Data) : Data :=
  .object (Syntax.dataMembers frame.done ++ [(frame.label.keyChars, value)])

theorem textMembers_done
    (done : List (Label × Syntax))
    (label : Label)
    (value : Syntax)
    (later : List (Label × Syntax)) :
    Syntax.textMembers (done ++ (label, value) :: later) =
      doneText done ++ label.text ++ value.text ++ blankText label.afterValue ++
        Syntax.comma later ++ Syntax.textMembers later := by
  induction done with
  | nil => simp [Syntax.textMembers, doneText]
  | cons first more ih =>
      have hcomma : Syntax.comma (more ++ (label, value) :: later) = [','] := by
        cases more <;> rfl
      simp [Syntax.textMembers, doneText, hcomma, ih]

theorem close_text
    (frame : Frame)
    (value : Syntax) :
    (frame.close value).text = frame.start ++ value.text ++ ['\x7d'] := by
  simp [close, Syntax.text, textMembers_done, start, Label.text, Syntax.comma,
    Syntax.textMembers, blankText]

theorem dataMembers_append (done later : List (Label × Syntax)) :
    Syntax.dataMembers (done ++ later) =
      Syntax.dataMembers done ++ Syntax.dataMembers later := by
  induction done with
  | nil => rfl
  | cons first more ih => simp [Syntax.dataMembers, ih]

theorem close_data
    (frame : Frame)
    (value : Syntax) :
    (frame.close value).data = frame.data value.data := by
  rw [close, Syntax.data, dataMembers_append]
  rfl

theorem outside_doneText (done : List (Label × Syntax)) : Outside (doneText done) 0 := by
  induction done with
  | nil => exact Outside.nil
  | cons first more ih =>
      exact (((Syntax.outside_label first.1).append (Syntax.outside_text first.2)).append
        (outside_blankText first.1.afterValue)).append (ih.cons (c := ',') (by decide))

/-- Before the member's value one brace is open. -/
theorem outside_start (frame : Frame) : Outside frame.start 1 :=
  (((outside_blankText frame.inside).append (outside_doneText frame.done)).append
    (Syntax.outside_label frame.label)).cons (c := '\x7b') (by decide)

end Frame

namespace Cut

/-- The whole object. -/
def whole : Cut → Syntax
  | string frame received missing => frame.fill (.string (received ++ missing))
  | afterString frame items => frame.fill (.string items)
  | afterObject frame inside members => frame.fill (.object inside members)
  | member frame inner => frame.fill inner.whole

/-- The text up to the cut. -/
def start : Cut → List Char
  | string frame received _ => frame.start ++ '"' :: itemsText received
  | afterString frame items => frame.start ++ stringText items
  | afterObject frame inside members => frame.start ++ (Syntax.object inside members).text
  | member frame inner => frame.start ++ inner.start

/-- The text after the cut. -/
def rest : Cut → List Char
  | string frame _ missing => itemsText missing ++ ['"'] ++ frame.rest
  | afterString frame _ => frame.rest
  | afterObject frame _ _ => frame.rest
  | member frame inner => inner.rest ++ frame.rest

def inString : Cut → Bool
  | string _ _ _ => true
  | afterString _ _ => false
  | afterObject _ _ _ => false
  | member _ inner => inner.inString

/-- How many objects are open. -/
def level : Cut → Nat
  | string _ _ _ => 1
  | afterString _ _ => 1
  | afterObject _ _ _ => 1
  | member _ inner => inner.level + 1

/-- The members that are complete, and the cut one as far as it came. -/
def received : Cut → Data
  | string frame received _ => frame.data (.string (received.map Item.char))
  | afterString frame items => frame.data (.string (items.map Item.char))
  | afterObject frame inside members => frame.data (Syntax.object inside members).data
  | member frame inner => frame.data inner.received

/-- The object that ends at the cut. -/
def closed : Cut → Syntax
  | string frame received _ => frame.close (.string received)
  | afterString frame items => frame.close (.string items)
  | afterObject frame inside members => frame.close (.object inside members)
  | member frame inner => frame.close inner.closed

/-- What closes the text at the cut. -/
def closing (cut : Cut) : List Char :=
  (bif cut.inString then ['"'] else []) ++ List.replicate cut.level '\x7d'

theorem rest_ne_nil (cut : Cut) : cut.rest ≠ [] := by
  cases cut <;> simp [rest, Frame.rest]

theorem level_pos (cut : Cut) : 0 < cut.level := by
  cases cut <;> simp [level]

theorem closed_text (cut : Cut) : cut.closed.text = cut.start ++ cut.closing := by
  induction cut with
  | string frame received missing =>
      simp [closed, Frame.close_text, start, closing, inString, level, Syntax.text, stringText]
  | afterString frame items =>
      simp [closed, Frame.close_text, start, closing, inString, level, Syntax.text]
  | afterObject frame inside members =>
      simp [closed, Frame.close_text, start, closing, inString, level]
  | member frame inner ih =>
      simp [closed, Frame.close_text, start, closing, inString, level, ih,
        List.replicate_succ']

theorem closed_data (cut : Cut) : cut.closed.data = cut.received := by
  induction cut with
  | string frame received missing => exact Frame.close_data _ _
  | afterString frame items => exact Frame.close_data _ _
  | afterObject frame inside members => exact Frame.close_data _ _
  | member frame inner ih => rw [closed, Frame.close_data, ih, received]

/-- Where the scanner stands at the cut. -/
def mark (cut : Cut) : Mark :=
  bif cut.inString then Mark.inside else Mark.outside

theorem scan_start (cut : Cut) :
    Mark.outside.scan cut.start = cut.mark ∧
      bareBraces Mark.outside cut.start = cut.level := by
  induction cut with
  | string frame received missing =>
      obtain ⟨hscan, hbraces⟩ := frame.outside_start
      obtain ⟨hitems, hbare⟩ := Inside.items received
      have hopen : Mark.outside.step '"' = Mark.inside := rfl
      refine ⟨?_, ?_⟩
      · rw [start, Mark.scan_append, hscan, Mark.scan_cons, hopen, hitems]
        rfl
      · rw [start, bareBraces_append, hscan, hbraces, bareBraces, hopen, hbare]
        rfl
  | afterString frame items => exact frame.outside_start.append (outside_stringText items)
  | afterObject frame inside members =>
      exact frame.outside_start.append (Syntax.outside_text (.object inside members))
  | member frame inner ih =>
      obtain ⟨hscan, hbraces⟩ := frame.outside_start
      refine ⟨by rw [start, Mark.scan_append, hscan, ih.1]; rfl, ?_⟩
      rw [start, bareBraces_append, hscan, hbraces, ih.2, level]
      omega

theorem scan_blank_start
    (before : Blank)
    (cut : Cut) :
    Mark.outside.scan (blankText before ++ cut.start) = cut.mark ∧
      bareBraces Mark.outside (blankText before ++ cut.start) = cut.level := by
  obtain ⟨hscan, hbraces⟩ := outside_blankText before
  rw [Mark.scan_append, bareBraces_append, hscan, hbraces, zero_add]
  exact cut.scan_start

theorem mark_inString (cut : Cut) : cut.mark.inString = cut.inString := by
  unfold mark
  cases cut.inString <;> rfl

/-- A quote and closing braces after the cut. -/
theorem bareBraces_closing
    (cut : Cut)
    (n : Nat) :
    bareBraces cut.mark ((bif cut.inString then ['"'] else []) ++ List.replicate n '\x7d') =
      -(n : Int) := by
  have hbraces : bareBraces Mark.outside (List.replicate n '\x7d') = -(n : Int) := by
    induction n with
    | zero => rfl
    | succ n ih =>
        have hstep : Mark.outside.step '\x7d' = Mark.outside := rfl
        have hvalue : bareBraces Mark.outside (List.replicate (n + 1) '\x7d') =
            -1 + bareBraces (Mark.outside.step '\x7d') (List.replicate n '\x7d') := rfl
        rw [hvalue, hstep, ih]
        omega
  unfold mark
  cases cut.inString with
  | false => exact hbraces
  | true =>
      have hquote : Mark.inside.step '"' = Mark.outside := rfl
      have hvalue : bareBraces Mark.inside (['"'] ++ List.replicate n '\x7d') =
          0 + bareBraces (Mark.inside.step '"') (List.replicate n '\x7d') := rfl
      exact hvalue.trans (by rw [hquote, hbraces, zero_add])

theorem start_head (cut : Cut) : ∃ rest, cut.start = '\x7b' :: rest := by
  cases cut <;> exact ⟨_, rfl⟩

end Cut

end JsonSyntax
end FutureOs
