import FutureOs.Llm.ResponseText

/-!
# The summary of a reasoning item

What the decoder keeps and emits for the summary at one output index (`summaryView`): a text
for each part, and which parts were begun.  A part that begins after a part with a text gets a
blank line first.  The item, when it is repeated, tells all parts again and goes.
-/

namespace FutureOs
namespace Llm
namespace OpenAiResponses

/-- The parts of a summary as the decoder sees them. -/
@[ext] structure Summary where
  texts : Nat → String
  begun : Nat → Bool

def Summary.empty : Summary where
  texts _ := ""
  begun _ := false

def blankLine : List Char := ['\n', '\n']

namespace Summary

/-- A part before this one has a text, and this one is not begun. -/
def separates (summary : Summary) (k : Nat) : Bool :=
  !summary.begun k && (List.range k).any fun j => summary.texts j ≠ ""

def takeDelta (summary : Summary) (k : Nat) (delta : String) : Summary × List Char :=
  if delta = "" then
    (summary, [])
  else
    ({ texts := Function.update summary.texts k (summary.texts k ++ delta)
       begun := Function.update summary.begun k true },
      (if summary.separates k then blankLine else []) ++ delta.toList)

def takeWhole (summary : Summary) (k : Nat) (complete : String) : Summary × List Char :=
  let out := summary.takeDelta k (String.ofList (restOf (summary.texts k) complete))
  ({ out.1 with texts := Function.update out.1.texts k complete }, out.2)

end Summary

/-- What a stream says of an open summary. -/
inductive SummaryStep
  | delta (k : Nat) (text : String)
  | whole (k : Nat) (text : String)
  | close
deriving DecidableEq

def Summary.take (summary : Summary) : SummaryStep → Summary × List Char
  | .delta k text => summary.takeDelta k text
  | .whole k text => summary.takeWhole k text
  | .close => (.empty, [])

def reasoningChars : ModelStreamEvent → List Char
  | .reasoningDelta _ text => text.toList
  | _ => []

def ResponseReasoningState.summary (reasoning : ResponseReasoningState) : Summary where
  texts k := (Fields.lookup k reasoning.summaryParts).getD ""
  begun k := reasoning.emittedSummaryParts.contains k

def summaryOf (slot : Option ResponseReasoningState) : Summary :=
  (slot.map (·.summary)).getD .empty

def SortedParts (slot : Option ResponseReasoningState) : Prop :=
  ∀ reasoning, slot = some reasoning → Fields.Sorted reasoning.summaryParts

/-- The summary of an open item, to one who reads its deltas. -/
def slotView :
    Emitting.View (Option ResponseReasoningState) ModelStreamEvent Summary SummaryStep Char where
  good := SortedParts
  see := summaryOf
  read := reasoningChars
  take := Summary.take

section Parts

theorem separates_eq
    {reasoning : ResponseReasoningState}
    (hsorted : Fields.Sorted reasoning.summaryParts)
    (k : Nat) :
    separates reasoning k = reasoning.summary.separates k := by
  rw [separates, Summary.separates, ResponseReasoningState.summary, Bool.and_assoc]
  congr 1
  rw [Bool.eq_iff_iff]
  simp only [Bool.and_eq_true, List.any_eq_true, decide_eq_true_eq, List.mem_range]
  constructor
  · rintro ⟨-, part, hpart, hlt, hne⟩
    refine ⟨part.1, hlt, ?_⟩
    rw [hsorted.lookup_of_mem hpart]
    exact hne
  · rintro ⟨j, hlt, hne⟩
    refine ⟨by omega, ?_⟩
    cases hlookup : Fields.lookup j reasoning.summaryParts with
    | none =>
        rw [hlookup] at hne
        exact absurd rfl hne
    | some text =>
        rw [hlookup] at hne
        exact ⟨(j, text), Fields.mem_of_lookup hlookup, hlt, hne⟩

theorem summary_insert
    (reasoning : ResponseReasoningState)
    (k : Nat)
    (text : String) :
    ({ reasoning with
        summaryParts := Fields.insert k text reasoning.summaryParts }).summary =
      { reasoning.summary with texts := Function.update reasoning.summary.texts k text } := by
  ext j
  · simp only [ResponseReasoningState.summary, Fields.lookup_insert, Function.update_apply]
    split <;> rfl
  · rfl

theorem takeDelta_summary
    {reasoning : ResponseReasoningState}
    (hsorted : Fields.Sorted reasoning.summaryParts)
    (k : Nat)
    {delta : String}
    (hdelta : delta ≠ "") :
    Fields.Sorted (reasoning.takeDelta k delta).1.summaryParts ∧
      reasoning.summary.takeDelta k delta =
        ((reasoning.takeDelta k delta).1.summary,
          (reasoning.takeDelta k delta).2.flatMap reasoningChars) := by
  refine ⟨hsorted.insert k _, ?_⟩
  rw [Summary.takeDelta, if_neg hdelta, ← separates_eq hsorted, ResponseReasoningState.takeDelta]
  refine Prod.ext ?_ ?_
  · ext j
    · simp only [ResponseReasoningState.summary, Fields.lookup_insert, Function.update_apply]
      split <;> rfl
    · simp only [ResponseReasoningState.summary, Function.update_apply]
      split <;> rename_i hj <;> split <;> rename_i hcontains <;> simp_all
  · cases separates reasoning k <;> simp [reasoningChars, blankLine]

theorem takeComplete_summary
    {reasoning : ResponseReasoningState}
    (hsorted : Fields.Sorted reasoning.summaryParts)
    (k : Nat)
    (complete : String) :
    Fields.Sorted (reasoning.takeComplete k complete).1.summaryParts ∧
      reasoning.summary.takeWhole k complete =
        ((reasoning.takeComplete k complete).1.summary,
          (reasoning.takeComplete k complete).2.flatMap reasoningChars) := by
  have hsuffix : String.ofList (restOf (reasoning.summary.texts k) complete) =
      suffixOf (Fields.lookup k reasoning.summaryParts) complete := by
    rw [← String.toList_inj, String.toList_ofList, suffixOf_toList]
    rfl
  rw [Summary.takeWhole, hsuffix, ResponseReasoningState.takeComplete]
  dsimp only
  by_cases hempty : suffixOf (Fields.lookup k reasoning.summaryParts) complete = ""
  · rw [hempty, if_pos rfl]
    refine ⟨hsorted.insert k _, ?_⟩
    rw [summary_insert]
    rfl
  · obtain ⟨hsorted', htake⟩ := takeDelta_summary hsorted k hempty
    rw [if_neg hempty, htake]
    refine ⟨hsorted'.insert k _, ?_⟩
    rw [summary_insert]

end Parts

section Slot

variable (index : Nat)
variable (id : String)

theorem openReasoning_follows : slotView.Follows (openReasoning index id) [] := by
  intro slot hslot
  cases slot with
  | none =>
      refine ⟨?_, rfl, rfl⟩
      rintro reasoning ⟨⟩
      exact Fields.sorted_nil
  | some reasoning =>
      refine ⟨?_, rfl, rfl⟩
      rintro opened ⟨⟩
      exact hslot reasoning rfl

theorem onOpen_follows
    {step : ResponseReasoningState → ResponseReasoningState × List ModelStreamEvent}
    {inputs : List SummaryStep}
    (h : ∀ reasoning, Fields.Sorted reasoning.summaryParts →
      Fields.Sorted (step reasoning).1.summaryParts ∧
        slotView.run reasoning.summary inputs =
          ((step reasoning).1.summary, (step reasoning).2.flatMap reasoningChars)) :
    slotView.Follows (onOpen index id step) inputs := by
  intro slot hslot
  obtain ⟨hgood, hsee, hread⟩ := openReasoning_follows index id slot hslot
  obtain ⟨opened, hopened⟩ : ∃ opened, (openReasoning index id slot).1 = some opened := by
    cases slot with
    | none =>
        exact ⟨_, rfl⟩
    | some reasoning =>
        exact ⟨_, rfl⟩
  obtain ⟨hsorted, hrun⟩ := h opened (hgood opened hopened)
  have hout : onOpen index id step slot =
      (some (step opened).1, (openReasoning index id slot).2 ++ (step opened).2) := by
    rw [onOpen, Emitting.Step.andThen, hopened]
  have hsummary : opened.summary = slotView.see slot := by
    have hsee' : slotView.see (openReasoning index id slot).1 = slotView.see slot := hsee
    rw [← hsee', hopened]
    rfl
  have hread' : (openReasoning index id slot).2.flatMap slotView.read = [] := hread
  rw [hout, ← hsummary, hrun]
  refine ⟨?_, rfl, ?_⟩
  · rintro reasoning ⟨⟩
    exact hsorted
  · rw [List.flatMap_append, hread', List.nil_append]
    rfl

theorem appendSummaryDelta_follows
    (k : Nat)
    (delta : String) :
    slotView.Follows (appendReasoningSummaryDelta index id k delta) [.delta k delta] := by
  rw [appendReasoningSummaryDelta]
  split
  · rename_i hempty
    rw [hempty]
    intro slot hslot
    exact ⟨hslot, rfl, rfl⟩
  · rename_i hne
    exact onOpen_follows index id fun reasoning hsorted => by
      rw [Emitting.View.run_singleton]
      exact takeDelta_summary hsorted k hne

theorem reconcileSummary_follows
    (k : Nat)
    (complete : String) :
    slotView.Follows (reconcileReasoningSummary index id k complete) [.whole k complete] :=
  onOpen_follows index id fun reasoning hsorted => by
    rw [Emitting.View.run_singleton]
    exact takeComplete_summary hsorted k complete

theorem addSummary_follows (k : Nat) :
    slotView.Follows (addReasoningSummary index id k) [] := by
  refine onOpen_follows index id fun reasoning hsorted => ⟨hsorted.insert k _, ?_⟩
  rw [summary_insert]
  have hsame : Function.update reasoning.summary.texts k
      ((Fields.lookup k reasoning.summaryParts).getD "") = reasoning.summary.texts :=
    Function.update_eq_self k _
  rw [hsame]
  rfl

theorem appendContent_follows
    (contentIndex : Nat)
    (delta : String) :
    slotView.Follows (appendReasoningContent index id contentIndex delta) [] :=
  onOpen_follows index id fun _ hsorted => ⟨hsorted, rfl⟩

theorem reconcileContent_follows
    (contentIndex : Nat)
    (complete : String) :
    slotView.Follows (reconcileReasoningContent index id contentIndex complete) [] :=
  onOpen_follows index id fun _ hsorted => ⟨hsorted, rfl⟩

theorem endReasoning_follows (item : Json) :
    slotView.Follows (endReasoning item id) [.close] := by
  intro slot _
  refine ⟨?_, rfl, rfl⟩
  rintro reasoning ⟨⟩

/-- What a reasoning item says of its summary. -/
def summarySteps (parts : List (Nat × String)) : List SummaryStep :=
  parts.map (fun part => .whole part.1 part.2) ++ [.close]

theorem reconcileItem_follows (item : Json) :
    slotView.Follows (reconcileReasoningItem index item)
      (summarySteps (indexedTexts item "summary")) := by
  unfold reconcileReasoningItem
  refine (openReasoning_follows index _).silent_andThen (Emitting.View.Follows.andThen ?_
    (Emitting.View.Follows.silent_andThen ?_ (endReasoning_follows _ item)))
  · exact Emitting.View.follows_inOrder_map fun part _ =>
      reconcileSummary_follows index _ part.1 part.2
  · exact Emitting.View.follows_inOrder_silent fun part _ =>
      reconcileContent_follows index _ part.1 part.2

end Slot

/-- What a stream says of the summary of one output item. -/
inductive SummaryInput
  | step (step : SummaryStep)
  /-- The whole item, with the parts of its summary if it is a reasoning item. -/
  | item (parts : Option (List (Nat × String)))
  /-- The item again, in the final response. -/
  | response (parts : Option (List (Nat × String)))
  | clear
deriving DecidableEq

structure SummarySeen where
  summary : Summary
  finished : Bool

def SummarySeen.takeItem (seen : SummarySeen) (parts : Option (List (Nat × String))) :
    SummarySeen × List Char :=
  let out := slotView.run seen.summary ((parts.map summarySteps).getD [])
  ({ summary := out.1, finished := true }, out.2)

def SummarySeen.take (seen : SummarySeen) : SummaryInput → SummarySeen × List Char
  | .step step => ({ seen with summary := (seen.summary.take step).1 }, (seen.summary.take step).2)
  | .item parts => seen.takeItem parts
  | .response parts => if seen.finished then (seen, []) else seen.takeItem parts
  | .clear => ({ seen with summary := .empty }, [])

def reasoningView (i : Nat) :
    Emitting.View ResponsesState (Option Nat × ModelStreamEvent) SummarySeen SummaryInput
      Char where
  good st := SortedParts (Fields.lookup i st.reasoningOpen)
  see st := { summary := summaryOf (Fields.lookup i st.reasoningOpen)
              finished := st.finishedOutputItems.contains i }
  read event := if event.1 = some i then reasoningChars event.2 else []
  take := SummarySeen.take

section Frames

variable {i : Nat}
variable (fromStr : String → Option Json)

theorem run_steps
    (seen : SummarySeen)
    (steps : List SummaryStep) :
    (reasoningView i).run seen (steps.map .step) =
      ({ seen with summary := (slotView.run seen.summary steps).1 },
        (slotView.run seen.summary steps).2) := by
  induction steps generalizing seen with
  | nil =>
      rfl
  | cons step steps ih =>
      rw [List.map_cons, Emitting.View.run_cons, ih, Emitting.View.run_cons]
      rfl

theorem readReasoning_onIndex
    (index : Nat)
    (events : List ModelStreamEvent) :
    (events.map fun event => (some index, event)).flatMap (reasoningView i).read =
      if index = i then events.flatMap reasoningChars else [] := by
  rw [List.flatMap_map]
  by_cases hindex : index = i
  · simp [reasoningView, hindex]
  · simp [reasoningView, hindex]

theorem onReasoning_follows
    (index : Nat)
    {step : SlotStep ResponseReasoningState}
    {inputs : List SummaryStep}
    (h : slotView.Follows step inputs) :
    (reasoningView i).Follows (onReasoning index step)
      (if index = i then inputs.map .step else []) := by
  intro st hst
  have hread := readReasoning_onIndex (i := i) index
    (step (Fields.lookup index st.reasoningOpen)).2
  by_cases hindex : index = i
  · subst hindex
    obtain ⟨hgood, hsee, hchars⟩ := h _ hst
    rw [if_pos rfl] at hread ⊢
    rw [run_steps]
    refine ⟨?_, ?_, hread.trans hchars⟩
    · show SortedParts (Fields.lookup index (setSlot index _ _))
      rw [lookup_setSlot, if_pos rfl]
      exact hgood
    · show SummarySeen.mk (summaryOf (Fields.lookup index (setSlot index _ _))) _ = _
      rw [lookup_setSlot, if_pos rfl]
      exact congrArg (SummarySeen.mk · _) hsee
  · rw [if_neg hindex] at hread ⊢
    refine ⟨?_, ?_, hread⟩
    · show SortedParts (Fields.lookup i (setSlot index _ _))
      rw [lookup_setSlot, if_neg (Ne.symm hindex)]
      exact hst
    · show SummarySeen.mk (summaryOf (Fields.lookup i (setSlot index _ _))) _ = _
      rw [lookup_setSlot, if_neg (Ne.symm hindex)]
      rfl

theorem onReasoning_silent
    (index : Nat)
    {step : SlotStep ResponseReasoningState}
    (h : slotView.Follows step []) :
    (reasoningView i).Follows (onReasoning index step) [] := by
  have hsteps := onReasoning_follows (i := i) index h
  rwa [List.map_nil, ite_self] at hsteps

theorem reasoningChars_eq_nil
    {events : List ModelStreamEvent}
    {channel : Channel}
    (hchannel : channel ≠ .reasoning)
    (h : ∀ event ∈ events, channelOf event = channel) :
    events.flatMap reasoningChars = [] := by
  rw [List.flatMap_eq_nil_iff]
  intro event hevent
  have hne := h event hevent
  cases event with
  | reasoningDelta id text =>
      exact absurd hne.symm hchannel
  | _ =>
      rfl

theorem onText_reasoningSilent
    (index : Nat)
    {step : SlotStep ResponseTextState}
    (h : OnChannel .text step) :
    (reasoningView i).Follows (onText index step) [] := by
  intro st hst
  refine ⟨hst, rfl, ?_⟩
  rw [onText, readReasoning_onIndex, reasoningChars_eq_nil (by decide) (h _), ite_self]
  rfl

theorem onTool_reasoningSilent
    (index : Nat)
    {step : SlotStep ResponseToolState}
    (h : OnChannel .tool step) :
    (reasoningView i).Follows (onTool index step) [] := by
  intro st hst
  refine ⟨hst, rfl, ?_⟩
  rw [onTool, readReasoning_onIndex, reasoningChars_eq_nil (by decide) (h _), ite_self]
  rfl

/-- The parts of the summary of an item. -/
def itemSummary (item : Json) : Option (List (Nat × String)) :=
  if typeOf item = "reasoning" then some (indexedTexts item "summary") else none

/-- What an event says of the summary of the item at `i`. -/
def summaryInputs (i : Nat) (type : EventType) (event : Json) : List SummaryInput :=
  let here (inputs : List SummaryInput) :=
    if indexField event "output_index" = i then inputs else []
  let k := indexField event "summary_index"
  let whole (text : Option String) := here (text.map fun text => .step (.whole k text)).toList
  let again := ((outputOf (responseOf event)).zipIdx.flatMap fun entry =>
    if entry.2 = i then [.response (itemSummary entry.1)] else []) ++ [.clear]
  match type with
  | .reasoningSummaryTextDelta =>
      here ((textField event "delta").map fun text => .step (.delta k text)).toList
  | .reasoningSummaryTextDone => whole (textField event "text")
  | .reasoningSummaryPartDone => whole ((event.get? "part").bind (textField · "text"))
  | .outputItemDone => here [.item (itemSummary (itemOf event))]
  | .completed => again
  | .incomplete => again
  | _ => []

theorem reconcileOutputItem_reasoningFollows
    (index : Nat)
    (item : Json) :
    (reasoningView i).Follows (reconcileOutputItem fromStr index item)
      (if index = i then (((itemSummary item).map summarySteps).getD []).map .step else []) := by
  rw [reconcileOutputItem, itemSummary]
  by_cases hreasoning : typeOf item = "reasoning"
  · rw [if_pos hreasoning, hreasoning, if_neg (by decide), if_neg (by decide),
      if_neg (by decide), if_pos rfl]
    exact onReasoning_follows index (reconcileItem_follows index item)
  · rw [if_neg hreasoning, if_neg hreasoning]
    rw [Option.map_none, Option.getD_none, List.map_nil, ite_self]
    split
    · exact onText_reasoningSilent index (onChannel_reconcileText _ _)
    · split
      · exact onText_reasoningSilent index (onChannel_reconcileText _ _)
      · split
        · exact onTool_reasoningSilent index (onChannel_reconcileFunctionCall fromStr index item)
        · exact Emitting.View.follows_skip

theorem finishedItem_reasoningFollows
    (index : Nat)
    (item : Json) :
    (reasoningView i).Follows
      ((reconcileOutputItem fromStr index item).andThen (finishItem index))
      (if index = i then [.item (itemSummary item)] else []) := by
  intro st hst
  obtain ⟨hgood, hsee, hread⟩ :=
    reconcileOutputItem_reasoningFollows (i := i) fromStr index item st hst
  have hfinish : (reasoningView i).see
      ((reconcileOutputItem fromStr index item).andThen (finishItem index) st).1 =
        { (reasoningView i).see (reconcileOutputItem fromStr index item st).1 with
          finished := if index = i then true
            else ((reasoningView i).see (reconcileOutputItem fromStr index item st).1).finished } :=
    congrArg (SummarySeen.mk _) (contains_finishItem index i _)
  refine ⟨hgood, ?_, ?_⟩
  · rw [hfinish, hsee]
    by_cases hindex : index = i
    · rw [if_pos hindex, if_pos hindex, if_pos hindex, run_steps]
      rfl
    · rw [if_neg hindex, if_neg hindex, if_neg hindex]
  · show ((reconcileOutputItem fromStr index item st).2 ++ []).flatMap _ = _
    rw [List.append_nil, hread]
    by_cases hindex : index = i
    · rw [if_pos hindex, if_pos hindex, run_steps, Emitting.View.run_singleton]
      rfl
    · rw [if_neg hindex, if_neg hindex]

theorem closeOpen_readReasoning (st : ResponsesState) :
    (closeOpen fromStr st).2.flatMap (reasoningView i).read = [] := by
  simp only [closeOpen, List.flatMap_append, List.append_eq_nil_iff, List.flatMap_eq_nil_iff,
    List.mem_map]
  refine ⟨⟨?_, ?_⟩, ?_⟩ <;>
    · rintro event ⟨entry, -, rfl⟩
      simp [reasoningView, reasoningChars]

theorem closeOpen_reasoningFollows : (reasoningView i).Follows (closeOpen fromStr) [.clear] := by
  intro st _
  refine ⟨?_, rfl, ?_⟩
  · rintro reasoning ⟨⟩
  · rw [closeOpen_readReasoning]
    rfl

theorem endWith_reasoningSilent (event : ModelStreamEvent) :
    (reasoningView i).Follows (endWith event) [] := fun _ hst => ⟨hst, rfl, rfl⟩

theorem finalResponse_reasoningFollows
    (response : Json)
    (event : ModelStreamEvent) :
    (reasoningView i).Follows
      ((reconcileResponseOutput fromStr response).andThen
        ((closeOpen fromStr).andThen (endWith event)))
      (((outputOf response).zipIdx.flatMap fun entry =>
        if entry.2 = i then [SummaryInput.response (itemSummary entry.1)] else []) ++
          [.clear]) := by
  refine Emitting.View.Follows.andThen ?_
    ((closeOpen_reasoningFollows fromStr).andThen_silent (endWith_reasoningSilent event))
  refine Emitting.View.follows_inOrder fun entry _ => ?_
  exact reconcileUnfinished_follows (fun value => SummaryInput.item (itemSummary value))
    (fun value => .response (itemSummary value)) (finishedItem_reasoningFollows fromStr)
    (fun _ _ => rfl) entry

theorem addOutputItem_reasoningSilent
    (index : Nat)
    (item : Json) :
    (reasoningView i).Follows (addOutputItem index item) [] := by
  rw [addOutputItem]
  split
  · exact onTool_reasoningSilent index onChannel_startTool
  · split
    · exact onReasoning_silent index (openReasoning_follows index _)
    · exact Emitting.View.follows_skip

/-- An event with a text that is a step on the summary of its item. -/
theorem withText_reasoningFollows
    (index : Nat)
    (text : Option String)
    {step : String → SlotStep ResponseReasoningState}
    {input : String → SummaryStep}
    (h : ∀ text, slotView.Follows (step text) [input text]) :
    (reasoningView i).Follows (withText text fun text => onReasoning index (step text))
      (if index = i then (text.map fun text => SummaryInput.step (input text)).toList
        else []) := by
  cases text with
  | none =>
      rw [Option.map_none, Option.toList_none, ite_self]
      exact Emitting.View.follows_skip
  | some text =>
      exact onReasoning_follows index (h text)

theorem decodeEvent_reasoningFollows
    (type : EventType)
    (event : Json) :
    (reasoningView i).Follows (decodeEvent fromStr type event) (summaryInputs i type event) := by
  cases type with
  | reasoningSummaryTextDelta =>
      exact withText_reasoningFollows _ _ fun delta => appendSummaryDelta_follows _ _ _ delta
  | reasoningSummaryPartDone =>
      exact withText_reasoningFollows _ _ fun text => reconcileSummary_follows _ _ _ text
  | reasoningSummaryTextDone =>
      exact withText_reasoningFollows _ _ fun text => reconcileSummary_follows _ _ _ text
  | outputItemDone =>
      exact finishedItem_reasoningFollows fromStr _ _
  | completed =>
      exact finalResponse_reasoningFollows fromStr _ _
  | incomplete =>
      exact finalResponse_reasoningFollows fromStr _ _
  | outputItemAdded =>
      exact addOutputItem_reasoningSilent _ _
  | reasoningSummaryPartAdded =>
      exact onReasoning_silent _ (addSummary_follows _ _ _)
  | reasoningTextDelta =>
      exact withText_silent _ fun delta => onReasoning_silent _ (appendContent_follows _ _ _ delta)
  | reasoningTextDone =>
      exact withText_silent _ fun text => onReasoning_silent _ (reconcileContent_follows _ _ _ text)
  | outputTextDelta =>
      exact withText_silent _ fun delta =>
        onText_reasoningSilent _ (onChannel_appendTextDelta _ delta)
  | refusalDelta =>
      exact withText_silent _ fun delta =>
        onText_reasoningSilent _ (onChannel_appendTextDelta _ delta)
  | outputTextDone =>
      exact onText_reasoningSilent _ (onChannel_reconcileText _ _)
  | refusalDone =>
      exact onText_reasoningSilent _ (onChannel_reconcileText _ _)
  | functionCallArgumentsDelta =>
      exact onTool_reasoningSilent _ (onChannel_appendToolArguments _ _)
  | failed =>
      exact endWith_reasoningSilent _
  | other =>
      exact Emitting.View.follows_skip

end Frames

end OpenAiResponses
end Llm
end FutureOs
