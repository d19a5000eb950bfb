import FutureOs.Llm.ResponseSummaryRun
import FutureOs.Llm.ResponseTextRun

/-!
# The texts of a Responses stream, emitted once

A stream tells the parts of an item in order, each in its own way, and then the item or the
final response repeats them.  `response_texts_once_iff` says of which items the emitted deltas
make up the text and the summary, whatever the frames of other items between them.
-/

namespace FutureOs
namespace Llm
namespace OpenAiResponses

/-- The text deltas of one output item. -/
def textAt (i : Nat) (events : List (Option Nat × ModelStreamEvent)) : String :=
  String.join (events.filterMap fun event =>
    match event with
    | (some j, .textDelta _ text) => if j = i then some text else none
    | _ => none)

/-- The reasoning deltas of one output item. -/
def reasoningAt (i : Nat) (events : List (Option Nat × ModelStreamEvent)) : String :=
  String.join (events.filterMap fun event =>
    match event with
    | (some j, .reasoningDelta _ text) => if j = i then some text else none
    | _ => none)

section Streams

variable (fromStr : String → Option Json)
variable (i : Nat)

/-- A stream that tells these parts of the message at `i`, and then repeats them. -/
def TextStream (frames : List Sse.SseFrame) (parts : List TextPart) : Prop :=
  (∀ frame ∈ frames, Decodes fromStr frame) ∧
    ∃ ending, Repeats (parts.map (·.text)) ending ∧
      frames.flatMap (frameInputs fromStr (textInputs i)) =
        parts.flatMap TextPart.inputs ++ ending

/-- A stream that tells these parts of the summary at `i`, and then repeats them. -/
def SummaryStream (frames : List Sse.SseFrame) (parts : List SummaryPart) : Prop :=
  (∀ frame ∈ frames, Decodes fromStr frame) ∧
    ∃ ending, RepeatsSummary (parts.map (·.text)) ending ∧
      frames.flatMap (frameInputs fromStr (summaryInputs i)) =
        (partsSteps parts).map .step ++ ending

end Streams

section Once

variable (fromStr : String → Option Json)
variable (i : Nat)

theorem toList_textAt (events : List (Option Nat × ModelStreamEvent)) :
    (textAt i events).toList = events.flatMap (textView i).read := by
  rw [textAt, String.toList_join]
  induction events with
  | nil =>
      rfl
  | cons event events ih =>
      obtain ⟨index, event⟩ := event
      rw [List.flatMap_cons, ← ih, List.filterMap_cons]
      cases index with
      | none =>
          rfl
      | some j =>
          by_cases hj : j = i
          · cases event <;> simp [textView, textChars, hj]
          · cases event <;> simp [textView, hj]

theorem toList_reasoningAt (events : List (Option Nat × ModelStreamEvent)) :
    (reasoningAt i events).toList = events.flatMap (reasoningView i).read := by
  rw [reasoningAt, String.toList_join]
  induction events with
  | nil =>
      rfl
  | cons event events ih =>
      obtain ⟨index, event⟩ := event
      rw [List.flatMap_cons, ← ih, List.filterMap_cons]
      cases index with
      | none =>
          rfl
      | some j =>
          by_cases hj : j = i
          · cases event <;> simp [reasoningView, reasoningChars, hj]
          · cases event <;> simp [reasoningView, hj]

theorem finishStream_readText (st : ResponsesState) :
    (finishStream fromStr st).2.flatMap (textView i).read = [] := by
  rw [finishStream]
  split
  · rfl
  · show ((closeOpen fromStr _).2 ++ [_]).flatMap _ = []
    rw [List.flatMap_append, closeOpen_read]
    rfl

theorem finishStream_readReasoning (st : ResponsesState) :
    (finishStream fromStr st).2.flatMap (reasoningView i).read = [] := by
  rw [finishStream]
  split
  · rfl
  · show ((closeOpen fromStr _).2 ++ [_]).flatMap _ = []
    rw [List.flatMap_append, closeOpen_readReasoning]
    rfl

theorem textStream_exact_iff
    {frames : List Sse.SseFrame}
    {parts : List TextPart}
    (hstream : TextStream fromStr i frames parts) :
    ∃ events, decodeStream fromStr frames = .ok events ∧
      (textAt i events = itemText parts ↔ PartsAgree parts) := by
  obtain ⟨hframes, ending, hending, hinputs⟩ := hstream
  obtain ⟨events, hevents, hread⟩ := decodeStream_follows
    (decodeEvent_textFollows (i := i) fromStr) (finishStream_readText fromStr i) trivial hframes
  refine ⟨events, hevents, ?_⟩
  rw [← parts_exact_iff (i := i) parts hending, ← String.toList_inj, toList_textAt, hread,
    hinputs]
  rfl

theorem summaryStream_exact_iff
    {frames : List Sse.SseFrame}
    {parts : List SummaryPart}
    (hstream : SummaryStream fromStr i frames parts) :
    ∃ events, decodeStream fromStr frames = .ok events ∧
      (reasoningAt i events = summaryText parts ↔ OrderAgrees parts) := by
  obtain ⟨hframes, ending, hending, hinputs⟩ := hstream
  have hnew : (reasoningView i).good ResponsesState.new := by
    rintro reasoning ⟨⟩
  obtain ⟨events, hevents, hread⟩ := decodeStream_follows
    (decodeEvent_reasoningFollows (i := i) fromStr) (finishStream_readReasoning fromStr i) hnew
    hframes
  refine ⟨events, hevents, ?_⟩
  rw [← summary_exact_iff (i := i) parts hending, ← String.toList_inj, toList_reasoningAt,
    hread, hinputs]
  rfl

/--
The deltas of a message make up its parts, each once, exactly if what was shown before the
item was repeated agrees with what was recorded; those of a summary make up its parts exactly
if the parts told before the item come out in their order.
-/
theorem response_texts_once_iff (frames : List Sse.SseFrame) :
    (∀ parts : List TextPart, TextStream fromStr i frames parts →
      ∃ events, decodeStream fromStr frames = .ok events ∧
        (textAt i events = itemText parts ↔ PartsAgree parts)) ∧
    ∀ parts : List SummaryPart, SummaryStream fromStr i frames parts →
      ∃ events, decodeStream fromStr frames = .ok events ∧
        (reasoningAt i events = summaryText parts ↔ OrderAgrees parts) :=
  ⟨fun _ => textStream_exact_iff fromStr i, fun _ => summaryStream_exact_iff fromStr i⟩

end Once

section Samples

/-- What the parser gives on the printed forms of some values. -/
def parserOf (values : List Json) (text : String) : Option Json :=
  values.find? fun value => value.compact = text.toList

/-- Frames with these values, which carry their types in the data. -/
def framesOf (values : List Json) : List Sse.SseFrame :=
  values.map fun value => { event := none, data := String.ofList value.compact }

theorem parserOf_compact
    {values : List Json}
    (hnodup : (values.map Json.compact).Nodup)
    {value : Json}
    (hmem : value ∈ values) :
    parserOf values (String.ofList value.compact) = some value := by
  rw [parserOf, String.toList_ofList]
  induction values with
  | nil =>
      cases hmem
  | cons first rest ih =>
      obtain ⟨hfirst, hrest⟩ := List.nodup_cons.1 hnodup
      rcases List.mem_cons.1 hmem with rfl | hmem
      · exact List.find?_cons_of_pos (by simp)
      · have hne : first.compact ≠ value.compact := fun heq =>
          hfirst (heq ▸ List.mem_map_of_mem hmem)
        rw [List.find?_cons_of_neg (by simpa using hne)]
        exact ih hrest hmem

/-- The frame of an object has something to decode. -/
theorem isBlank_object (fields : List (String × Json)) :
    isBlank { event := none, data := String.ofList (Json.obj fields).compact } = false := by
  -- The brace at the start stays after trimming.
  have htrim : '{' ∈ (Text.trim (String.ofList (Json.obj fields).compact)).toList := by
    rw [Text.trim, String.toList_ofList, String.toList_ofList, Json.compact,
      List.dropWhile_cons_of_neg (by decide), List.mem_reverse, List.reverse_cons,
      List.reverse_append, List.reverse_singleton, List.singleton_append, List.cons_append,
      List.dropWhile_cons_of_neg (by decide)]
    simp
  rw [isBlank, Bool.or_eq_false_iff, decide_eq_false_iff_not, decide_eq_false_iff_not]
  constructor
  · intro heq
    rw [heq] at htrim
    cases htrim
  · intro heq
    rw [heq] at htrim
    revert htrim
    decide

/-- The inputs a list of values brings. -/
theorem framesOf_inputs
    {ι : Type}
    (inputs : EventType → Json → List ι)
    {values : List Json}
    (hobjects : ∀ value ∈ values, ∃ fields, value = .obj fields)
    (hnodup : (values.map Json.compact).Nodup) :
    (∀ frame ∈ framesOf values, Decodes (parserOf values) frame) ∧
      (framesOf values).flatMap (frameInputs (parserOf values) inputs) =
        values.flatMap fun value =>
          inputs (EventType.ofName ((textField value "type").getD "")) value := by
  have heach : ∀ value ∈ values,
      isBlank { event := none, data := String.ofList value.compact } = false ∧
        parserOf values (String.ofList value.compact) = some value := by
    intro value hvalue
    refine ⟨?_, parserOf_compact hnodup hvalue⟩
    obtain ⟨fields, rfl⟩ := hobjects value hvalue
    exact isBlank_object fields
  constructor
  · intro frame hframe
    obtain ⟨value, hvalue, rfl⟩ := List.mem_map.1 hframe
    exact Or.inr (Option.isSome_iff_exists.2 ⟨value, (heach value hvalue).2⟩)
  · rw [framesOf, List.flatMap_map]
    refine List.flatMap_congr fun value hvalue => ?_
    obtain ⟨hblank, hparse⟩ := heach value hvalue
    rw [frameInputs, hblank, if_neg Bool.false_ne_true, hparse]
    show inputs (eventTypeOf _ value) value = _
    rw [eventTypeOf]
    cases textField value "type" <;> rfl

def textDeltaEvent (index : Nat) (text : String) : Json :=
  .obj [("delta", .str text), ("output_index", .num (.posInt index)),
    ("type", .str "response.output_text.delta")]

def textDoneEvent (index : Nat) (text : String) : Json :=
  .obj [("output_index", .num (.posInt index)), ("text", .str text),
    ("type", .str "response.output_text.done")]

def summaryDeltaEvent (index k : Nat) (text : String) : Json :=
  .obj [("delta", .str text), ("output_index", .num (.posInt index)),
    ("summary_index", .num (.posInt k)), ("type", .str "response.reasoning_summary_text.delta")]

/-- A message, or a reasoning item, as `output_item.done` repeats it. -/
def itemDoneEvent (index : Nat) (type key partType : String) (texts : List String) : Json :=
  .obj [("item", .obj [(key, .arr (texts.map fun text =>
      .obj [("text", .str text), ("type", .str partType)])), ("type", .str type)]),
    ("output_index", .num (.posInt index)), ("type", .str "response.output_item.done")]

def messageDone (index : Nat) (texts : List String) : Json :=
  itemDoneEvent index "message" "content" "output_text" texts

def reasoningDone (index : Nat) (texts : List String) : Json :=
  itemDoneEvent index "reasoning" "summary" "summary_text" texts

/-- A text part told by one delta and, it may be, by its done event. -/
def deltaPart (text : String) (done : Bool) : TextPart where
  text := text
  deltas := [text]
  done := done
  agree _ := by simp

def donePart (text : String) : TextPart where
  text := text
  deltas := []
  done := true
  agree h := absurd rfl h

def deltaSummary (text : String) : SummaryPart where
  text := text
  deltas := [text]
  dones := 0
  agree _ := by simp

def lateSummary (text : String) : SummaryPart where
  text := text
  deltas := []
  dones := 0
  agree h := absurd rfl h

/-- Two parts of a message told by deltas and done events; of a summary only the first is told
before the item. -/
def tellingEvents : List Json :=
  [textDeltaEvent 0 "ab", textDoneEvent 0 "ab", textDeltaEvent 0 "cd", textDoneEvent 0 "cd",
   summaryDeltaEvent 1 0 "ab", messageDone 0 ["ab", "cd"], reasoningDone 1 ["ab", "cd"]]

/-- The second part of the message has a done event only, the first part of the summary is told
by the item only. -/
def losingEvents : List Json :=
  [textDeltaEvent 0 "ab", textDoneEvent 0 "ab", textDoneEvent 0 "cd",
   summaryDeltaEvent 1 1 "cd", messageDone 0 ["ab", "cd"], reasoningDone 1 ["ab", "cd"]]

theorem telling_objects : ∀ value ∈ tellingEvents, ∃ fields, value = .obj fields := by
  simp [tellingEvents, textDeltaEvent, textDoneEvent, summaryDeltaEvent, messageDone,
    reasoningDone, itemDoneEvent]

theorem losing_objects : ∀ value ∈ losingEvents, ∃ fields, value = .obj fields := by
  simp [losingEvents, textDeltaEvent, textDoneEvent, summaryDeltaEvent, messageDone,
    reasoningDone, itemDoneEvent]

/-- A message and a summary in one list of values. -/
structure ToldIn
    (values : List Json)
    (parts : List TextPart)
    (summary : List SummaryPart) : Prop where
  text : TextStream (parserOf values) 0 (framesOf values) parts
  summary : SummaryStream (parserOf values) 1 (framesOf values) summary

/-- Both lists repeat what they tell in the items that are done. -/
theorem toldIn_samples :
    ToldIn tellingEvents [deltaPart "ab" true, deltaPart "cd" true]
        [deltaSummary "ab", lateSummary "cd"] ∧
      ToldIn losingEvents [deltaPart "ab" true, donePart "cd"]
        [lateSummary "ab", deltaSummary "cd"] := by
  have hnodup : (tellingEvents.map Json.compact).Nodup ∧
      (losingEvents.map Json.compact).Nodup := by
    decide +kernel
  have htexts :
      (tellingEvents.flatMap fun value =>
        textInputs 0 (EventType.ofName ((textField value "type").getD "")) value) =
        [deltaPart "ab" true, deltaPart "cd" true].flatMap TextPart.inputs ++
          [.item (some ["ab", "cd"])] ∧
      (losingEvents.flatMap fun value =>
        textInputs 0 (EventType.ofName ((textField value "type").getD "")) value) =
        [deltaPart "ab" true, donePart "cd"].flatMap TextPart.inputs ++
          [.item (some ["ab", "cd"])] := by
    decide +kernel
  have hsummaries :
      (tellingEvents.flatMap fun value =>
        summaryInputs 1 (EventType.ofName ((textField value "type").getD "")) value) =
        (partsSteps [deltaSummary "ab", lateSummary "cd"]).map .step ++
          [.item (some [(0, "ab"), (1, "cd")])] ∧
      (losingEvents.flatMap fun value =>
        summaryInputs 1 (EventType.ofName ((textField value "type").getD "")) value) =
        (partsSteps [lateSummary "ab", deltaSummary "cd"]).map .step ++
          [.item (some [(0, "ab"), (1, "cd")])] := by
    decide +kernel
  have htelling := framesOf_inputs (textInputs 0) telling_objects hnodup.1
  have hlosing := framesOf_inputs (textInputs 0) losing_objects hnodup.2
  have htelling' := framesOf_inputs (summaryInputs 1) telling_objects hnodup.1
  have hlosing' := framesOf_inputs (summaryInputs 1) losing_objects hnodup.2
  refine ⟨⟨⟨htelling.1, _, ⟨_, [], rfl, Or.inl rfl, List.forall_mem_nil _⟩,
        htelling.2.trans htexts.1⟩,
      htelling.1, _, ⟨_, [], rfl, Or.inl rfl, List.forall_mem_nil _⟩,
        htelling'.2.trans hsummaries.1⟩,
    ⟨hlosing.1, _, ⟨_, [], rfl, Or.inl rfl, List.forall_mem_nil _⟩,
        hlosing.2.trans htexts.2⟩,
      hlosing.1, _, ⟨_, [], rfl, Or.inl rfl, List.forall_mem_nil _⟩,
        hlosing'.2.trans hsummaries.2⟩

theorem telling_text :
    TextStream (parserOf tellingEvents) 0 (framesOf tellingEvents)
      [deltaPart "ab" true, deltaPart "cd" true] :=
  toldIn_samples.1.text

theorem telling_summary :
    SummaryStream (parserOf tellingEvents) 1 (framesOf tellingEvents)
      [deltaSummary "ab", lateSummary "cd"] :=
  toldIn_samples.1.summary

theorem losing_text :
    TextStream (parserOf losingEvents) 0 (framesOf losingEvents)
      [deltaPart "ab" true, donePart "cd"] :=
  toldIn_samples.2.text

theorem losing_summary :
    SummaryStream (parserOf losingEvents) 1 (framesOf losingEvents)
      [lateSummary "ab", deltaSummary "cd"] :=
  toldIn_samples.2.summary

theorem response_texts_once_iff_told :
    (∃ events, decodeStream (parserOf tellingEvents) (framesOf tellingEvents) = .ok events ∧
      textAt 0 events = "abcd") ∧
    ∃ events, decodeStream (parserOf tellingEvents) (framesOf tellingEvents) = .ok events ∧
      reasoningAt 1 events = "ab\n\ncd" := by
  constructor
  · obtain ⟨events, hevents, hiff⟩ := (response_texts_once_iff (parserOf tellingEvents) 0
      (framesOf tellingEvents)).1 _ telling_text
    refine ⟨events, hevents, (hiff.2 ?_).trans ?_⟩
    · decide +kernel
    · decide +kernel
  · obtain ⟨events, hevents, hiff⟩ := (response_texts_once_iff (parserOf tellingEvents) 1
      (framesOf tellingEvents)).2 _ telling_summary
    refine ⟨events, hevents, (hiff.2 ?_).trans ?_⟩
    · decide +kernel
    · decide +kernel

/-- The done event of a second part, and a summary part that only the item tells: the events
agree on the texts, and the deltas do not make them up. -/
theorem second_part_lost :
    (TextStream (parserOf losingEvents) 0 (framesOf losingEvents)
        [deltaPart "ab" true, donePart "cd"] ∧
      ∃ events, decodeStream (parserOf losingEvents) (framesOf losingEvents) = .ok events ∧
        textAt 0 events ≠ itemText [deltaPart "ab" true, donePart "cd"]) ∧
    SummaryStream (parserOf losingEvents) 1 (framesOf losingEvents)
        [lateSummary "ab", deltaSummary "cd"] ∧
      ∃ events, decodeStream (parserOf losingEvents) (framesOf losingEvents) = .ok events ∧
        reasoningAt 1 events ≠ summaryText [lateSummary "ab", deltaSummary "cd"] := by
  refine ⟨⟨losing_text, ?_⟩, losing_summary, ?_⟩
  · obtain ⟨events, hevents, hiff⟩ := textStream_exact_iff (parserOf losingEvents) 0 losing_text
    refine ⟨events, hevents, fun heq => ?_⟩
    have hdisagree : ¬ PartsAgree [deltaPart "ab" true, donePart "cd"] := by
      decide +kernel
    exact hdisagree (hiff.1 heq)
  · obtain ⟨events, hevents, hiff⟩ :=
      summaryStream_exact_iff (parserOf losingEvents) 1 losing_summary
    refine ⟨events, hevents, fun heq => ?_⟩
    have hdisagree : ¬ OrderAgrees [lateSummary "ab", deltaSummary "cd"] := by
      decide +kernel
    exact hdisagree (hiff.1 heq)

end Samples

end OpenAiResponses
end Llm
end FutureOs
