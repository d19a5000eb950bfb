import FutureOs.Llm.ResponseChannels

/-!
# The text of an output item

What the decoder records and emits for one output index (`textView`): a delta is added to the
record, a complete text replaces it and what follows the old record in it is emitted.  The
frames of other items and of other kinds leave both alone (`textFrames_follow`).
-/

namespace FutureOs
namespace Llm
namespace OpenAiResponses

/-- What a stream says of the text of one output item. -/
inductive TextInput
  | delta (text : String)
  | whole (text : Option String)
  /-- The whole item, with the texts of its parts. -/
  | item (parts : Option (List String))
  /-- The item again, in the final response. -/
  | response (parts : Option (List String))
  | clear
deriving DecidableEq

structure TextSeen where
  record : String
  finished : Bool

/-- What follows the record in a complete text; nothing where they contradict each other. -/
def restOf (record complete : String) : List Char :=
  ((Text.stripPrefix record complete).getD "").toList

def TextSeen.takeWhole (seen : TextSeen) (complete : Option String) : TextSeen × List Char :=
  match complete with
  | some complete => ({ seen with record := complete }, restOf seen.record complete)
  | none => (seen, [])

def TextSeen.takeItem (seen : TextSeen) (parts : Option (List String)) : TextSeen × List Char :=
  let out := seen.takeWhole (parts.map String.join)
  ({ out.1 with finished := true }, out.2)

def TextSeen.take (seen : TextSeen) : TextInput → TextSeen × List Char
  | .delta text => ({ seen with record := seen.record ++ text }, text.toList)
  | .whole text => seen.takeWhole text
  | .item parts => seen.takeItem parts
  | .response parts => if seen.finished then (seen, []) else seen.takeItem parts
  | .clear => ({ seen with record := "" }, [])

def recordOf (slot : Option ResponseTextState) : String :=
  (slot.map (·.text)).getD ""

def textChars : ModelStreamEvent → List Char
  | .textDelta _ text => text.toList
  | _ => []

/-- The text of one output item, to one who reads its deltas. -/
def textView (i : Nat) :
    Emitting.View ResponsesState (Option Nat × ModelStreamEvent) TextSeen TextInput Char where
  good _ := True
  see st := { record := recordOf (Fields.lookup i st.texts)
              finished := st.finishedOutputItems.contains i }
  read event := if event.1 = some i then textChars event.2 else []
  take := TextSeen.take

section Steps

theorem suffixOf_toList
    (current : Option String)
    (complete : String) :
    (suffixOf current complete).toList = restOf (current.getD "") complete := by
  by_cases hempty : current.getD "" = ""
  · rw [restOf, hempty]
    cases current with
    | none =>
        simp [suffixOf, Text.stripPrefix]
    | some text =>
        have htext : text = "" := hempty
        simp [suffixOf, htext, Text.stripPrefix]
  · cases current with
    | none =>
        exact absurd rfl hempty
    | some text =>
        rw [suffixOf, restOf, if_neg hempty]
        rfl

theorem openText_text
    (id : String)
    (slot : Option ResponseTextState) :
    (openText id slot).1.text = recordOf slot ∧
      (openText id slot).2.flatMap textChars = [] := by
  cases slot with
  | none =>
      simp [openText, recordOf, textChars]
  | some text =>
      rw [openText]
      simp only [Option.getD_some, recordOf, Option.map_some]
      split <;> split <;> exact ⟨rfl, rfl⟩

theorem appendTextDelta_text
    (id delta : String)
    (slot : Option ResponseTextState) :
    recordOf (appendTextDelta id delta slot).1 = recordOf slot ++ delta ∧
      (appendTextDelta id delta slot).2.flatMap textChars = delta.toList := by
  rw [appendTextDelta]
  split
  · rename_i hempty
    rw [hempty]
    simp
  · obtain ⟨htext, hread⟩ := openText_text id slot
    refine ⟨?_, ?_⟩
    · simp [recordOf, htext]
    · rw [List.flatMap_append, hread]
      simp [textChars]

theorem takeComplete_text
    (id complete : String)
    (slot : Option ResponseTextState) :
    recordOf (takeComplete id complete slot).1 = complete ∧
      (takeComplete id complete slot).2.flatMap textChars =
        restOf (recordOf slot) complete := by
  obtain ⟨hrecord, hread⟩ :=
    appendTextDelta_text id (suffixOf (slot.map (·.text)) complete) slot
  refine ⟨?_, ?_⟩
  · rw [takeComplete]
    cases hout : (appendTextDelta id (suffixOf (slot.map (·.text)) complete) slot).1 with
    | some text =>
        simp [recordOf]
    | none =>
        -- Nothing was opened, so there was nothing to add to an empty record.
        rw [hout] at hrecord
        cases slot with
        | none =>
            simp_all [recordOf, suffixOf]
        | some text =>
            simp only [appendTextDelta] at hout
            split at hout <;> simp at hout
  · rw [recordOf, ← suffixOf_toList, ← hread]
    rfl

theorem closeText_text (slot : Option ResponseTextState) :
    recordOf (closeText slot).1 = recordOf slot ∧
      (closeText slot).2.flatMap textChars = [] := by
  cases slot with
  | none =>
      exact ⟨rfl, rfl⟩
  | some text =>
      rw [closeText]
      split <;> exact ⟨rfl, rfl⟩

theorem reconcileText_text
    (id : String)
    (complete : Option String)
    (slot : Option ResponseTextState)
    (finished : Bool) :
    TextSeen.takeWhole ⟨recordOf slot, finished⟩ complete =
      (⟨recordOf (reconcileText id complete slot).1, finished⟩,
        (reconcileText id complete slot).2.flatMap textChars) := by
  cases complete with
  | none =>
      obtain ⟨hrecord, hread⟩ := closeText_text slot
      rw [reconcileText, hrecord, hread]
      rfl
  | some complete =>
      obtain ⟨hrecord, hread⟩ := takeComplete_text id complete slot
      obtain ⟨hrecord', hread'⟩ := closeText_text (takeComplete id complete slot).1
      have hout : reconcileText id (some complete) slot =
          ((closeText (takeComplete id complete slot).1).1,
            (takeComplete id complete slot).2 ++
              (closeText (takeComplete id complete slot).1).2) := rfl
      rw [hout, hrecord', hrecord, List.flatMap_append, hread, hread', List.append_nil]
      rfl

end Steps

section Follows

variable {i : Nat}

theorem read_onIndex
    (index : Nat)
    (events : List ModelStreamEvent) :
    (events.map fun event => (some index, event)).flatMap (textView i).read =
      if index = i then events.flatMap textChars else [] := by
  rw [List.flatMap_map]
  by_cases hindex : index = i
  · simp [textView, hindex]
  · simp [textView, hindex]

/-- A step on the text of an item is an input to this item, and nothing to the others. -/
theorem onText_follows
    (index : Nat)
    {step : SlotStep ResponseTextState}
    {input : TextInput}
    (h : ∀ slot finished, TextSeen.take ⟨recordOf slot, finished⟩ input =
      (⟨recordOf (step slot).1, finished⟩, (step slot).2.flatMap textChars)) :
    (textView i).Follows (onText index step) (if index = i then [input] else []) := by
  intro st _
  refine ⟨trivial, ?_⟩
  rw [onText]
  by_cases hindex : index = i
  · subst hindex
    rw [if_pos rfl, Emitting.View.run_singleton, read_onIndex, if_pos rfl]
    have htake := h (Fields.lookup index st.texts) (st.finishedOutputItems.contains index)
    have hlookup : (textView index).take ((textView index).see st) input = _ := htake
    rw [hlookup]
    refine ⟨?_, rfl⟩
    simp only [textView, lookup_setSlot, if_true]
  · rw [if_neg hindex, Emitting.View.run_nil, read_onIndex, if_neg hindex]
    refine ⟨?_, rfl⟩
    simp only [textView, lookup_setSlot, if_neg (Ne.symm hindex)]

theorem textChars_eq_nil
    {events : List ModelStreamEvent}
    {channel : Channel}
    (hchannel : channel ≠ .text)
    (h : ∀ event ∈ events, channelOf event = channel) :
    events.flatMap textChars = [] := by
  rw [List.flatMap_eq_nil_iff]
  intro event hevent
  have hne := h event hevent
  cases event with
  | textDelta id text =>
      exact absurd hne.symm hchannel
  | _ =>
      rfl

theorem onReasoning_textSilent
    (index : Nat)
    {step : SlotStep ResponseReasoningState}
    (h : OnChannel .reasoning step) :
    (textView i).Follows (onReasoning index step) [] := by
  intro st _
  refine ⟨trivial, rfl, ?_⟩
  rw [onReasoning, read_onIndex, textChars_eq_nil (by decide) (h _)]
  split <;> rfl

theorem onTool_textSilent
    (index : Nat)
    {step : SlotStep ResponseToolState}
    (h : OnChannel .tool step) :
    (textView i).Follows (onTool index step) [] := by
  intro st _
  refine ⟨trivial, rfl, ?_⟩
  rw [onTool, read_onIndex, textChars_eq_nil (by decide) (h _)]
  split <;> rfl

end Follows

section Frames

variable {i : Nat}
variable (fromStr : String → Option Json)

/-- The texts of the parts of an item, if it carries any. -/
def itemParts (item : Json) : Option (List String) :=
  if typeOf item = "message" then messageParts item
  else if typeOf item = "refusal" then (textField item "refusal").map ([·])
  else none

/-- What an event says of the text of the item at `i`. -/
def textInputs (i : Nat) (type : EventType) (event : Json) : List TextInput :=
  let here (inputs : List TextInput) :=
    if indexField event "output_index" = i then inputs else []
  let again := ((outputOf (responseOf event)).zipIdx.flatMap fun entry =>
    if entry.2 = i then [.response (itemParts entry.1)] else []) ++ [.clear]
  match type with
  | .outputTextDelta => here ((textField event "delta").map .delta).toList
  | .refusalDelta => here ((textField event "delta").map .delta).toList
  | .outputTextDone => here [.whole (textField event "text")]
  | .refusalDone => here [.whole (textField event "refusal")]
  | .outputItemDone => here [.item (itemParts (itemOf event))]
  | .completed => again
  | .incomplete => again
  | _ => []

theorem appendTextDelta_follows
    (index : Nat)
    (id delta : String) :
    (textView i).Follows (onText index (appendTextDelta id delta))
      (if index = i then [.delta delta] else []) := by
  refine onText_follows index fun slot finished => ?_
  obtain ⟨hrecord, hread⟩ := appendTextDelta_text id delta slot
  rw [hrecord, hread]
  rfl

theorem deltaEvent_follows
    (index : Nat)
    (id : String)
    (delta : Option String) :
    (textView i).Follows (withText delta fun delta => onText index (appendTextDelta id delta))
      (if index = i then (delta.map .delta).toList else []) := by
  cases delta with
  | none =>
      have hskip : (if index = i then (none.map TextInput.delta : Option TextInput).toList
          else []) = [] := by
        split <;> rfl
      rw [hskip]
      exact Emitting.View.follows_skip
  | some delta =>
      exact appendTextDelta_follows index id delta

theorem reconcileText_follows
    (index : Nat)
    (id : String)
    (complete : Option String) :
    (textView i).Follows (onText index (reconcileText id complete))
      (if index = i then [.whole complete] else []) :=
  onText_follows index fun slot finished => reconcileText_text id complete slot finished

/-- A step with no text for the item is one that repeats no text of it. -/
theorem follows_whole_none
    {step : Emits}
    (index : Nat)
    (h : (textView i).Follows step []) :
    (textView i).Follows step (if index = i then [.whole none] else []) := by
  split
  · exact h
  · exact h

theorem reconcileOutputItem_follows
    (index : Nat)
    (item : Json) :
    (textView i).Follows (reconcileOutputItem fromStr index item)
      (if index = i then [.whole ((itemParts item).map String.join)] else []) := by
  rw [reconcileOutputItem, itemParts]
  by_cases hmessage : typeOf item = "message"
  · rw [if_pos hmessage, if_pos hmessage]
    exact reconcileText_follows index _ (messageText item)
  rw [if_neg hmessage, if_neg hmessage]
  by_cases hrefusal : typeOf item = "refusal"
  · rw [if_pos hrefusal, if_pos hrefusal, Option.map_map]
    have hparts : (textField item "refusal").map (String.join ∘ ([·])) =
        textField item "refusal" := by
      cases textField item "refusal" with
      | none =>
          rfl
      | some text =>
          simp
    rw [hparts]
    exact reconcileText_follows index _ _
  rw [if_neg hrefusal, if_neg hrefusal]
  refine follows_whole_none index ?_
  split
  · exact onTool_textSilent index (onChannel_reconcileFunctionCall fromStr index item)
  · split
    · exact onReasoning_textSilent index (onChannel_reconcileReasoningItem index item)
    · exact Emitting.View.follows_skip

theorem addOutputItem_textSilent
    (index : Nat)
    (item : Json) :
    (textView i).Follows (addOutputItem index item) [] := by
  rw [addOutputItem]
  split
  · exact onTool_textSilent index onChannel_startTool
  · split
    · exact onReasoning_textSilent index (onChannel_openReasoning index _)
    · exact Emitting.View.follows_skip

/-- The whole item, from its own event. -/
theorem finishedItem_follows
    (index : Nat)
    (item : Json) :
    (textView i).Follows
      ((reconcileOutputItem fromStr index item).andThen (finishItem index))
      (if index = i then [.item (itemParts item)] else []) := by
  intro st hst
  obtain ⟨-, hsee, hread⟩ := reconcileOutputItem_follows (i := i) fromStr index item st hst
  have hfinish : (textView i).see
      ((reconcileOutputItem fromStr index item).andThen (finishItem index) st).1 =
        { (textView i).see (reconcileOutputItem fromStr index item st).1 with
          finished := if index = i then true
            else ((textView i).see (reconcileOutputItem fromStr index item st).1).finished } :=
    congrArg (TextSeen.mk _) (contains_finishItem index i _)
  refine ⟨trivial, ?_, ?_⟩
  · rw [hfinish, hsee]
    by_cases hindex : index = i
    · rw [if_pos hindex, if_pos hindex, if_pos hindex]
      rfl
    · rw [if_neg hindex, if_neg hindex, if_neg hindex]
  · show ((reconcileOutputItem fromStr index item st).2 ++ []).flatMap _ = _
    rw [List.append_nil, hread]
    by_cases hindex : index = i
    · rw [if_pos hindex, if_pos hindex]
      rfl
    · rw [if_neg hindex, if_neg hindex]

theorem closeOpen_read (st : ResponsesState) :
    (closeOpen fromStr st).2.flatMap (textView i).read = [] := by
  simp only [closeOpen, List.flatMap_append, List.append_eq_nil_iff, List.flatMap_eq_nil_iff,
    List.mem_map]
  refine ⟨⟨?_, ?_⟩, ?_⟩ <;>
    · rintro event ⟨entry, -, rfl⟩
      simp [textView, textChars]

theorem closeOpen_follows : (textView i).Follows (closeOpen fromStr) [.clear] := by
  intro st _
  refine ⟨trivial, rfl, ?_⟩
  rw [closeOpen_read]
  rfl

theorem endWith_textSilent (event : ModelStreamEvent) :
    (textView i).Follows (endWith event) [] := fun _ _ => ⟨trivial, rfl, rfl⟩

/-- The final response, which repeats the item unless it was finished before. -/
theorem finalResponse_textFollows
    (response : Json)
    (event : ModelStreamEvent) :
    (textView i).Follows
      ((reconcileResponseOutput fromStr response).andThen
        ((closeOpen fromStr).andThen (endWith event)))
      (((outputOf response).zipIdx.flatMap fun entry =>
        if entry.2 = i then [TextInput.response (itemParts entry.1)] else []) ++ [.clear]) := by
  refine Emitting.View.Follows.andThen ?_
    ((closeOpen_follows fromStr).andThen_silent (endWith_textSilent event))
  refine Emitting.View.follows_inOrder fun entry _ => ?_
  exact reconcileUnfinished_follows (fun value => TextInput.item (itemParts value))
    (fun value => .response (itemParts value)) (finishedItem_follows fromStr)
    (fun _ _ => rfl) entry

theorem decodeEvent_textFollows
    (type : EventType)
    (event : Json) :
    (textView i).Follows (decodeEvent fromStr type event) (textInputs i type event) := by
  cases type with
  | outputTextDelta =>
      exact deltaEvent_follows _ _ _
  | refusalDelta =>
      exact deltaEvent_follows _ _ _
  | outputTextDone =>
      exact reconcileText_follows _ _ _
  | refusalDone =>
      exact reconcileText_follows _ _ _
  | outputItemDone =>
      exact finishedItem_follows fromStr _ _
  | completed =>
      exact finalResponse_textFollows fromStr _ _
  | incomplete =>
      exact finalResponse_textFollows fromStr _ _
  | outputItemAdded =>
      exact addOutputItem_textSilent _ _
  | reasoningSummaryPartAdded =>
      exact onReasoning_textSilent _ (onChannel_addReasoningSummary _ _ _)
  | reasoningSummaryTextDelta =>
      exact withText_silent _ fun delta =>
        onReasoning_textSilent _ (onChannel_appendReasoningSummaryDelta _ _ _ delta)
  | reasoningSummaryPartDone =>
      exact withText_silent _ fun text =>
        onReasoning_textSilent _ (onChannel_reconcileReasoningSummary _ _ _ text)
  | reasoningSummaryTextDone =>
      exact withText_silent _ fun text =>
        onReasoning_textSilent _ (onChannel_reconcileReasoningSummary _ _ _ text)
  | reasoningTextDelta =>
      exact withText_silent _ fun delta =>
        onReasoning_textSilent _ (onChannel_appendReasoningContent _ _ _ delta)
  | reasoningTextDone =>
      exact withText_silent _ fun text =>
        onReasoning_textSilent _ (onChannel_reconcileReasoningContent _ _ _ text)
  | functionCallArgumentsDelta =>
      exact onTool_textSilent _ (onChannel_appendToolArguments _ _)
  | failed =>
      exact endWith_textSilent _
  | other =>
      exact Emitting.View.follows_skip

end Frames

end OpenAiResponses
end Llm
end FutureOs
