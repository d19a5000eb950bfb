import FutureOs.Llm.OpenAiResponses

/-!
# The channels of the Responses decoder

A step on a text emits text events only, a step on a reasoning item reasoning events only,
and a step on a tool call tool events only.  Who watches one channel follows the other two
without noticing them.
-/

namespace FutureOs
namespace Llm
namespace OpenAiResponses

inductive Channel
  | text
  | reasoning
  | tool
  | response
deriving DecidableEq

def channelOf : ModelStreamEvent → Channel
  | .textStart _ => .text
  | .textDelta _ _ => .text
  | .textEnd _ => .text
  | .reasoningStart _ => .reasoning
  | .reasoningDelta _ _ => .reasoning
  | .reasoningEnd _ _ => .reasoning
  | .toolInputStart _ _ _ _ _ => .tool
  | .toolInputDelta _ _ _ _ => .tool
  | .toolInputEnd _ _ _ _ _ => .tool
  | .usage _ => .response
  | .finish _ _ => .response
  | .error _ => .response

/-- Whatever the step emits, it emits on one channel. -/
def OnChannel {α : Type} (channel : Channel) (step : SlotStep α) : Prop :=
  ∀ slot, ∀ event ∈ (step slot).2, channelOf event = channel

section Sequences

variable {α : Type}
variable {channel : Channel}

theorem onChannel_skip : OnChannel channel (Emitting.Step.skip : SlotStep α) := by
  intro slot event hevent
  cases hevent

theorem OnChannel.andThen
    {first second : SlotStep α}
    (hfirst : OnChannel channel first)
    (hsecond : OnChannel channel second) :
    OnChannel channel (first.andThen second) := by
  intro slot event hevent
  rcases List.mem_append.1 hevent with hmem | hmem
  · exact hfirst slot event hmem
  · exact hsecond _ event hmem

theorem onChannel_inOrder
    {β : Type}
    {items : List β}
    {step : β → SlotStep α}
    (h : ∀ item, OnChannel channel (step item)) :
    OnChannel channel (Emitting.Step.inOrder (items.map step)) := by
  induction items with
  | nil =>
      exact onChannel_skip
  | cons item items ih =>
      exact (h item).andThen ih

end Sequences

section Texts

theorem openText_channel
    (id : String)
    (slot : Option ResponseTextState) :
    ∀ event ∈ (openText id slot).2, channelOf event = .text := by
  intro event hevent
  rw [openText] at hevent
  generalize (if (slot.getD ⟨"", "", false⟩).id = "" then
    { slot.getD ⟨"", "", false⟩ with id := id } else slot.getD ⟨"", "", false⟩) = text at hevent
  split at hevent
  · cases hevent
  · rw [List.mem_singleton.1 hevent]
    rfl

theorem onChannel_appendTextDelta (id delta : String) :
    OnChannel .text (appendTextDelta id delta) := by
  intro slot event hevent
  rw [appendTextDelta] at hevent
  split at hevent
  · cases hevent
  · rcases List.mem_append.1 hevent with hmem | hmem
    · exact openText_channel id slot event hmem
    · rw [List.mem_singleton.1 hmem]
      rfl

theorem onChannel_takeComplete (id complete : String) :
    OnChannel .text (takeComplete id complete) := by
  intro slot
  exact onChannel_appendTextDelta id (suffixOf (slot.map (·.text)) complete) slot

theorem onChannel_closeText : OnChannel .text closeText := by
  intro slot event hevent
  cases slot with
  | none =>
      cases hevent
  | some text =>
      simp only [closeText] at hevent
      split at hevent
      · rw [List.mem_singleton.1 hevent]
        rfl
      · cases hevent

theorem onChannel_reconcileText (id : String) (complete : Option String) :
    OnChannel .text (reconcileText id complete) := by
  cases complete with
  | none =>
      exact onChannel_closeText
  | some complete =>
      exact (onChannel_takeComplete id complete).andThen onChannel_closeText

end Texts

section ReasoningItems

variable (index : Nat)
variable (id : String)

theorem onChannel_openReasoning : OnChannel .reasoning (openReasoning index id) := by
  intro slot event hevent
  cases slot with
  | none =>
      rw [List.mem_singleton.1 hevent]
      rfl
  | some reasoning =>
      cases hevent

theorem onChannel_onOpen
    {step : ResponseReasoningState → ResponseReasoningState × List ModelStreamEvent}
    (hstep : ∀ reasoning, ∀ event ∈ (step reasoning).2, channelOf event = .reasoning) :
    OnChannel .reasoning (onOpen index id step) := by
  refine (onChannel_openReasoning index id).andThen fun slot event hevent => ?_
  cases slot with
  | none =>
      cases hevent
  | some reasoning =>
      exact hstep reasoning event hevent

theorem takeDelta_channel
    (reasoning : ResponseReasoningState)
    (summaryIndex : Nat)
    (delta : String) :
    ∀ event ∈ (reasoning.takeDelta summaryIndex delta).2, channelOf event = .reasoning := by
  intro event hevent
  rw [ResponseReasoningState.takeDelta] at hevent
  rcases List.mem_append.1 hevent with hmem | hmem
  · split at hmem
    · rw [List.mem_singleton.1 hmem]
      rfl
    · cases hmem
  · rw [List.mem_singleton.1 hmem]
    rfl

theorem takeComplete_channel
    (reasoning : ResponseReasoningState)
    (summaryIndex : Nat)
    (complete : String) :
    ∀ event ∈ (reasoning.takeComplete summaryIndex complete).2,
      channelOf event = .reasoning := by
  intro event hevent
  rw [ResponseReasoningState.takeComplete] at hevent
  dsimp only at hevent
  split at hevent
  · cases hevent
  · exact takeDelta_channel _ _ _ event hevent

theorem onChannel_appendReasoningSummaryDelta (summaryIndex : Nat) (delta : String) :
    OnChannel .reasoning (appendReasoningSummaryDelta index id summaryIndex delta) := by
  rw [appendReasoningSummaryDelta]
  split
  · exact onChannel_skip
  · exact onChannel_onOpen index id fun reasoning => takeDelta_channel reasoning _ _

theorem onChannel_reconcileReasoningSummary (summaryIndex : Nat) (complete : String) :
    OnChannel .reasoning (reconcileReasoningSummary index id summaryIndex complete) :=
  onChannel_onOpen index id fun reasoning => takeComplete_channel reasoning _ _

theorem onChannel_addReasoningSummary (summaryIndex : Nat) :
    OnChannel .reasoning (addReasoningSummary index id summaryIndex) :=
  onChannel_onOpen index id fun _ _ hevent => by cases hevent

theorem onChannel_appendReasoningContent (contentIndex : Nat) (delta : String) :
    OnChannel .reasoning (appendReasoningContent index id contentIndex delta) :=
  onChannel_onOpen index id fun _ _ hevent => by cases hevent

theorem onChannel_reconcileReasoningContent (contentIndex : Nat) (complete : String) :
    OnChannel .reasoning (reconcileReasoningContent index id contentIndex complete) :=
  onChannel_onOpen index id fun _ _ hevent => by cases hevent

theorem onChannel_endReasoning (item : Json) : OnChannel .reasoning (endReasoning item id) := by
  intro slot event hevent
  rw [List.mem_singleton.1 hevent]
  rfl

theorem onChannel_reconcileReasoningItem (item : Json) :
    OnChannel .reasoning (reconcileReasoningItem index item) := by
  unfold reconcileReasoningItem
  refine (onChannel_openReasoning index _).andThen (OnChannel.andThen ?_ (OnChannel.andThen ?_ ?_))
  · exact onChannel_inOrder fun part => onChannel_reconcileReasoningSummary index _ part.1 part.2
  · exact onChannel_inOrder fun part => onChannel_reconcileReasoningContent index _ part.1 part.2
  · exact onChannel_endReasoning _ item

end ReasoningItems

section Tools

theorem onChannel_reconcileFunctionCall
    (fromStr : String → Option Json)
    (index : Nat)
    (item : Json) :
    OnChannel .tool (reconcileFunctionCall fromStr index item) := by
  intro slot event hevent
  rw [List.mem_singleton.1 hevent]
  rfl

theorem onChannel_startTool
    {tool : ResponseToolState}
    {index : Nat}
    {callId name : String}
    {metadata : Json} :
    OnChannel .tool
      (fun _ => (some tool, [.toolInputStart index callId name none metadata])) := by
  intro slot event hevent
  rw [List.mem_singleton.1 hevent]
  rfl

theorem onChannel_appendToolArguments (index : Nat) (delta : String) :
    OnChannel .tool (appendToolArguments index delta) := by
  intro slot event hevent
  cases slot with
  | none =>
      cases hevent
  | some tool =>
      rw [List.mem_singleton.1 hevent]
      rfl

end Tools

section Slots

variable {α : Type}

theorem lookup_setSlot
    (index index' : Nat)
    (slot : Option α)
    (slots : List (Nat × α)) :
    Fields.lookup index' (setSlot index slot slots) =
      if index' = index then slot else Fields.lookup index' slots := by
  cases slot with
  | none =>
      exact Fields.lookup_erase index index' slots
  | some value =>
      exact Fields.lookup_insert index index' value slots

end Slots

theorem contains_finishItem
    (index i : Nat)
    (st : ResponsesState) :
    (finishItem index st).1.finishedOutputItems.contains i =
      if index = i then true else st.finishedOutputItems.contains i := by
  rw [finishItem, List.contains_cons]
  by_cases hindex : index = i
  · simp [hindex]
  · simp [hindex, beq_eq_false_iff_ne.2 (Ne.symm hindex)]

section Frames

variable {fromStr : String → Option Json}
variable {υ ι τ : Type}
variable {view : Emitting.View ResponsesState (Option Nat × ModelStreamEvent) υ ι τ}

theorem withText_silent
    (text : Option String)
    {step : String → Emits}
    (h : ∀ text, view.Follows (step text) []) :
    view.Follows (withText text step) [] := by
  cases text with
  | none =>
      exact Emitting.View.follows_skip
  | some text =>
      exact h text

/-- An item of the final response is new to who follows it only if it was not finished. -/
theorem reconcileUnfinished_follows
    {i : Nat}
    (item again : Json → ι)
    (hitem : ∀ index value, view.Follows
      ((reconcileOutputItem fromStr index value).andThen (finishItem index))
      (if index = i then [item value] else []))
    (hagain : ∀ value st, view.take (view.see st) (again value) =
      if st.finishedOutputItems.contains i then (view.see st, [])
      else view.take (view.see st) (item value))
    (entry : Json × Nat) :
    view.Follows (reconcileUnfinished fromStr entry)
      (if entry.2 = i then [again entry.1] else []) := by
  intro st hst
  obtain ⟨hgood, hsee, hread⟩ := hitem entry.2 entry.1 st hst
  rw [reconcileUnfinished]
  by_cases hindex : entry.2 = i
  · rw [if_pos hindex, Emitting.View.run_singleton] at hsee hread ⊢
    rw [hagain, hindex]
    split
    · exact ⟨hst, rfl, rfl⟩
    · rw [hindex] at hgood hsee hread
      exact ⟨hgood, hsee, hread⟩
  · rw [if_neg hindex] at hsee hread ⊢
    split
    · exact ⟨hst, rfl, rfl⟩
    · exact ⟨hgood, hsee, hread⟩

/-- A frame that is blank or JSON. -/
def Decodes (fromStr : String → Option Json) (frame : Sse.SseFrame) : Prop :=
  isBlank frame = true ∨ (fromStr frame.data).isSome = true

/-- The inputs an observer of events takes from a frame. -/
def frameInputs (fromStr : String → Option Json) (inputs : EventType → Json → List ι)
    (frame : Sse.SseFrame) : List ι :=
  if isBlank frame then
    []
  else
    match fromStr frame.data with
    | none => []
    | some event => inputs (eventTypeOf frame event) event

theorem decodeFrame_follows
    {inputs : EventType → Json → List ι}
    (hdecode : ∀ type event, view.Follows (decodeEvent fromStr type event) (inputs type event))
    {frame : Sse.SseFrame}
    (hframe : Decodes fromStr frame) :
    ∃ step : Emits, (∀ st, decodeFrame fromStr frame st = .ok (step st)) ∧
      view.Follows step (frameInputs fromStr inputs frame) := by
  cases hblank : isBlank frame with
  | true =>
      refine ⟨Emitting.Step.skip, fun st => ?_, ?_⟩
      · rw [decodeFrame, if_pos hblank]
        rfl
      · rw [frameInputs, if_pos hblank]
        exact Emitting.View.follows_skip
  | false =>
      have hne : ¬ isBlank frame = true := by simp [hblank]
      obtain ⟨event, hevent⟩ := Option.isSome_iff_exists.1 (hframe.resolve_left hne)
      refine ⟨decodeEvent fromStr (eventTypeOf frame event) event, fun st => ?_, ?_⟩
      · rw [decodeFrame, if_neg hne, hevent]
      · rw [frameInputs, if_neg hne, hevent]
        exact hdecode _ event

theorem decodeFrames_follows
    {inputs : EventType → Json → List ι}
    (hdecode : ∀ type event, view.Follows (decodeEvent fromStr type event) (inputs type event))
    {frames : List Sse.SseFrame}
    (hframes : ∀ frame ∈ frames, Decodes fromStr frame) :
    ∃ step : Emits, (∀ st, decodeFrames fromStr frames st = .ok (step st)) ∧
      view.Follows step (frames.flatMap (frameInputs fromStr inputs)) := by
  induction frames with
  | nil =>
      exact ⟨Emitting.Step.skip, fun _ => rfl, Emitting.View.follows_skip⟩
  | cons frame frames ih =>
      obtain ⟨first, hfirst, hfollows⟩ :=
        decodeFrame_follows hdecode (hframes frame List.mem_cons_self)
      obtain ⟨rest, hrest, hfollows'⟩ :=
        ih fun other hother => hframes other (List.mem_cons_of_mem _ hother)
      refine ⟨first.andThen rest, fun st => ?_, hfollows.andThen hfollows'⟩
      rw [decodeFrames, hfirst]
      show (decodeFrames fromStr frames (first st).1 >>= _) = _
      rw [hrest]
      rfl

/-- The stream as a whole: what is read of it is what the observer's machine gives. -/
theorem decodeStream_follows
    {inputs : EventType → Json → List ι}
    (hdecode : ∀ type event, view.Follows (decodeEvent fromStr type event) (inputs type event))
    (hlast : ∀ st, (finishStream fromStr st).2.flatMap view.read = [])
    (hnew : view.good ResponsesState.new)
    {frames : List Sse.SseFrame}
    (hframes : ∀ frame ∈ frames, Decodes fromStr frame) :
    ∃ events, decodeStream fromStr frames = .ok events ∧
      events.flatMap view.read = (view.run (view.see ResponsesState.new)
        (frames.flatMap (frameInputs fromStr inputs))).2 := by
  obtain ⟨step, hstep, hfollows⟩ := decodeFrames_follows hdecode hframes
  refine ⟨(step .new).2 ++ (finishStream fromStr (step .new).1).2, ?_, ?_⟩
  · rw [decodeStream, hstep]
    rfl
  · rw [List.flatMap_append, hlast, List.append_nil]
    exact (hfollows _ hnew).2.2

end Frames

end OpenAiResponses
end Llm
end FutureOs
