import FutureOs.Llm.ResponseText

/-!
# The parts of a message, told and told again

Each part of a message is told by deltas, by its whole text, by both, or not at all; then the
item repeats them all.  The decoder keeps one record for the item, and a whole part replaces
it.  `parts_exact_iff` says for which parts the deltas it emits make up the item.
-/

namespace FutureOs
namespace Llm
namespace OpenAiResponses

/-- A part of a message, and how the stream tells it. -/
structure TextPart where
  text : String
  deltas : List String
  /-- Whether an event tells the whole part. -/
  done : Bool
  agree : deltas ≠ [] → String.join deltas = text

namespace TextPart

def streamed (part : TextPart) : Bool := !part.deltas.isEmpty

def inputs (part : TextPart) : List TextInput :=
  part.deltas.map .delta ++ if part.done then [.whole (some part.text)] else []

/-- What a whole text leaves recorded, or deltas add to it. -/
def record (before : String) (part : TextPart) : String :=
  if part.done then part.text
  else if part.streamed then before ++ part.text
  else before

/-- What comes through of the part: all of it if there are deltas, else what follows what was
recorded before. -/
def shown (before : String) (part : TextPart) : String :=
  if part.streamed then part.text
  else if part.done then (Text.stripPrefix before part.text).getD ""
  else ""

end TextPart

/-- The text of the last part that was told whole, and the parts with deltas only since. -/
def recordedParts (parts : List TextPart) : String :=
  parts.foldl TextPart.record ""

/-- What comes through of the parts before the item repeats them. -/
def shownParts : String → List TextPart → String
  | _, [] => ""
  | before, part :: rest => part.shown before ++ shownParts (part.record before) rest

/-- The text of the item. -/
def itemText (parts : List TextPart) : String :=
  String.join (parts.map (·.text))

/-- The record agrees with what was shown, where the item goes on from the record; else all
of the item was shown. -/
def PartsAgree (parts : List TextPart) : Prop :=
  if Text.startsWith (recordedParts parts) (itemText parts) then
    shownParts "" parts = recordedParts parts
  else
    shownParts "" parts = itemText parts

instance (parts : List TextPart) : Decidable (PartsAgree parts) :=
  inferInstanceAs (Decidable (ite _ _ _))

section Run

variable {i : Nat}

theorem restOf_append (before text : String) :
    restOf (before ++ text) text = [] := by
  rw [restOf, Text.stripPrefix]
  split
  · rename_i hstart
    have hlength := (List.isPrefixOf_iff_prefix.1 hstart).length_le
    rw [Option.getD_some, String.toList_ofList, List.drop_eq_nil_iff]
    rw [String.toList_append, List.length_append] at hlength ⊢
    omega
  · rfl

theorem run_deltas
    (deltas : List String)
    (seen : TextSeen) :
    (textView i).run seen (deltas.map .delta) =
      ({ seen with record := seen.record ++ String.join deltas },
        (String.join deltas).toList) := by
  induction deltas generalizing seen with
  | nil =>
      simp
  | cons delta deltas ih =>
      rw [List.map_cons, Emitting.View.run_cons]
      have htake : (textView i).take seen (.delta delta) =
        ({ seen with record := seen.record ++ delta }, delta.toList) := rfl
      rw [htake, ih, String.join_cons, String.toList_append, String.append_assoc]

@[simp] theorem take_whole
    (text : String)
    (seen : TextSeen) :
    (textView i).take seen (.whole (some text)) =
      ({ seen with record := text }, restOf seen.record text) := rfl

/-- A part, whichever way it is told. -/
theorem run_part
    (part : TextPart)
    (seen : TextSeen) :
    (textView i).run seen part.inputs =
      ({ seen with record := part.record seen.record }, (part.shown seen.record).toList) := by
  rw [TextPart.inputs, Emitting.View.run_append, run_deltas, TextPart.record, TextPart.shown]
  cases hdeltas : part.deltas with
  | nil =>
      have hstreamed : part.streamed = false := by simp [TextPart.streamed, hdeltas]
      cases hdone : part.done with
      | true =>
          simp [hstreamed, restOf]
      | false =>
          simp [hstreamed]
  | cons delta deltas =>
      have hstreamed : part.streamed = true := by simp [TextPart.streamed, hdeltas]
      have hjoin : String.join (delta :: deltas) = part.text := by
        rw [← hdeltas]
        exact part.agree (by simp [hdeltas])
      rw [hjoin]
      cases hdone : part.done with
      | true =>
          simp [hstreamed, restOf_append]
      | false =>
          simp [hstreamed]

theorem run_parts
    (parts : List TextPart)
    (seen : TextSeen) :
    (textView i).run seen (parts.flatMap TextPart.inputs) =
      ({ seen with record := parts.foldl TextPart.record seen.record },
        (shownParts seen.record parts).toList) := by
  induction parts generalizing seen with
  | nil =>
      simp [shownParts]
  | cons part parts ih =>
      rw [List.flatMap_cons, Emitting.View.run_append, run_part, ih, shownParts,
        String.toList_append, List.foldl_cons]

/-- What the final response says of an item that is finished. -/
def TextInput.isLate : TextInput → Bool
  | .response _ => true
  | .clear => true
  | _ => false

theorem run_late
    {later : List TextInput}
    (hlate : ∀ input ∈ later, input.isLate = true)
    {seen : TextSeen}
    (hfinished : seen.finished = true) :
    ((textView i).run seen later).2 = [] := by
  induction later generalizing seen with
  | nil =>
      rfl
  | cons input later ih =>
      have hrest := fun other hother => hlate other (List.mem_cons_of_mem _ hother)
      have hfirst := hlate input List.mem_cons_self
      rw [Emitting.View.run_cons]
      cases input with
      | response parts =>
          have htake : (textView i).take seen (.response parts) = (seen, []) := if_pos hfinished
          rw [htake, List.nil_append]
          exact ih hrest hfinished
      | clear =>
          exact ih hrest hfinished
      | _ =>
          cases hfirst

/-- What the stream says of an item from which all of its parts are known. -/
def Repeats (parts : List String) (inputs : List TextInput) : Prop :=
  ∃ whole later, inputs = whole :: later ∧
    (whole = .item (some parts) ∨ whole = .response (some parts)) ∧
    ∀ input ∈ later, input.isLate = true

theorem run_repeats
    {parts : List String}
    {inputs : List TextInput}
    (hrepeats : Repeats parts inputs)
    {seen : TextSeen}
    (hfinished : seen.finished = false) :
    ((textView i).run seen inputs).2 = restOf seen.record (String.join parts) := by
  obtain ⟨whole, later, rfl, hwhole, hlate⟩ := hrepeats
  have htake : (textView i).take seen whole =
      ({ record := String.join parts, finished := true },
        restOf seen.record (String.join parts)) := by
    rcases hwhole with rfl | rfl
    · rfl
    · exact if_neg (by rw [hfinished]; exact Bool.false_ne_true)
  rw [Emitting.View.run_cons, htake, run_late hlate rfl, List.append_nil]

theorem shown_then_rest_iff (shown record whole : String) :
    shown.toList ++ restOf record whole = whole.toList ↔
      if Text.startsWith record whole then shown = record else shown = whole := by
  by_cases hstarts : Text.startsWith record whole = true
  · obtain ⟨rest, hrest⟩ := List.isPrefixOf_iff_prefix.1 hstarts
    have hstrip : restOf record whole = rest := by
      have hstart : record.toList.isPrefixOf whole.toList = true := hstarts
      rw [restOf, Text.stripPrefix, if_pos hstart, Option.getD_some, String.toList_ofList,
        ← hrest, List.drop_left]
    rw [if_pos hstarts, hstrip, ← hrest, List.append_left_inj, String.toList_inj]
  · have hstrip : restOf record whole = [] := by
      have hstart : ¬ record.toList.isPrefixOf whole.toList = true := hstarts
      rw [restOf, Text.stripPrefix, if_neg hstart]
      rfl
    rw [if_neg hstarts, hstrip, List.append_nil, String.toList_inj]

/-- The deltas of an item make up its text just if shown and recorded text agree. -/
theorem parts_exact_iff
    (parts : List TextPart)
    {ending : List TextInput}
    (hending : Repeats (parts.map (·.text)) ending) :
    ((textView i).run { record := "", finished := false }
        (parts.flatMap TextPart.inputs ++ ending)).2 = (itemText parts).toList ↔
      PartsAgree parts := by
  rw [Emitting.View.run_append, run_parts]
  have hrest : ((textView i).run
      { record := parts.foldl TextPart.record "", finished := false } ending).2 =
      restOf (recordedParts parts) (itemText parts) := run_repeats hending rfl
  rw [hrest]
  exact shown_then_rest_iff (shownParts "" parts) (recordedParts parts) (itemText parts)

end Run

end OpenAiResponses
end Llm
end FutureOs
