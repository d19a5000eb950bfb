import FutureOs.Llm.ChatArguments

/-!
# Tool calls of a chat stream, end to end

Only the end of the response ends a call, after the frame's own fragments
(`decodeFrame_ends`).  Fragments of one text add up to it exactly if none of them can be
taken for a snapshot of the text before it (`tool_arguments_exact`).
-/

namespace FutureOs
namespace Llm
namespace OpenAiChat

/-- The step ends no call. -/
def Endless (step : Emits) : Prop :=
  ∀ st, ∀ e ∈ (step st).2, ∀ i, endOf i e = none

/-- The step keeps the calls in the order of their indices. -/
def KeepsOrder (step : Emits) : Prop :=
  ∀ st, Fields.Sorted st.tools → Fields.Sorted (step st).1.tools

section Parts

theorem endsOf_eq_nil
    {i : Nat}
    {events : List ModelStreamEvent}
    (h : ∀ e ∈ events, endOf i e = none) :
    endsOf i events = [] :=
  List.filterMap_eq_nil_iff.2 h

theorem Endless.andThen
    {first second : Emits}
    (hfirst : Endless first)
    (hsecond : Endless second) :
    Endless (first.andThen second) := by
  intro st e he
  rcases List.mem_append.1 he with he | he
  · exact hfirst st e he
  · exact hsecond (first st).1 e he

theorem KeepsOrder.andThen
    {first second : Emits}
    (hfirst : KeepsOrder first)
    (hsecond : KeepsOrder second) :
    KeepsOrder (first.andThen second) :=
  fun st h => hsecond _ (hfirst st h)

theorem Silent.keepsOrder
    {step : Emits}
    (h : Silent step) :
    KeepsOrder step := by
  intro st hsorted
  rw [(h st).1]
  exact hsorted

theorem endless_reasoningPart (delta : Json) :
    Endless (reasoningPart delta) := by
  intro st e he i
  unfold reasoningPart at he
  split at he
  · simp at he
  · rcases List.mem_append.1 he with he | he
    · split at he
      · simp at he
      · rw [List.mem_singleton.1 he]
        rfl
    · rw [List.mem_singleton.1 he]
      rfl

theorem endless_textPart (delta : Json) :
    Endless (textPart delta) := by
  intro st e he i
  unfold textPart at he
  dsimp only at he
  split at he
  · simp at he
  · rcases List.mem_append.1 he with he | he
    · split at he
      · simp at he
      · rw [List.mem_singleton.1 he]
        rfl
    · rw [List.mem_singleton.1 he]
      rfl

theorem endless_toolCallPart (call : Json) :
    Endless (toolCallPart call) := by
  intro st e he i
  rcases List.mem_append.1 he with he | he
  · split at he
    · rw [List.mem_singleton.1 he]
      rfl
    · simp at he
  · unfold ChatToolState.receive at he
    split at he
    · simp at he
    · dsimp only at he
      split at he
      · rw [List.mem_singleton.1 he]
        rfl
      · simp at he

theorem keepsOrder_toolCallPart (call : Json) :
    KeepsOrder (toolCallPart call) :=
  fun _ h => h.insert _ _

theorem toolCallParts_inOrder (calls : List Json) :
    Endless (inOrder (calls.map toolCallPart)) ∧
      KeepsOrder (inOrder (calls.map toolCallPart)) := by
  induction calls with
  | nil =>
      exact ⟨fun st e he => absurd he List.not_mem_nil, fun st h => h⟩
  | cons call calls ih =>
      constructor
      · exact (endless_toolCallPart call).andThen ih.1
      · exact (keepsOrder_toolCallPart call).andThen ih.2

end Parts

section Ends

variable (fromStr : String → Option Json)

/-- What the end of the call at an index carries, once the call was started. -/
def parsedAt (st : ChatStreamState) (i : Nat) : List Json :=
  (((Fields.lookup i st.tools).filter (·.started)).map fun tool =>
    parseJsonArguments fromStr (.str tool.arguments)).toList

theorem endOf_toolEnd (i : Nat) (entry : Nat × ChatToolState) :
    (toolEnd fromStr entry).bind (endOf i) =
      if entry.1 = i ∧ entry.2.started then
        some (parseJsonArguments fromStr (.str entry.2.arguments))
      else
        none := by
  unfold toolEnd
  by_cases hstarted : entry.2.started <;> by_cases hindex : entry.1 = i <;>
    simp [hstarted, hindex, endOf]

theorem endsOf_toolEnds
    (i : Nat)
    {st : ChatStreamState}
    (h : Fields.Sorted st.tools) :
    endsOf i (st.tools.filterMap (toolEnd fromStr)) = parsedAt fromStr st i := by
  unfold endsOf parsedAt
  rw [List.filterMap_filterMap]
  generalize st.tools = tools at h
  induction tools with
  | nil =>
      rfl
  | cons entry tools ih =>
      obtain ⟨hhead, htail⟩ := List.pairwise_cons.1 h
      rw [List.filterMap_cons, endOf_toolEnd, ih htail, Fields.lookup_cons]
      by_cases hindex : i = entry.1
      · -- No other call has this index.
        have hrest : Fields.lookup i tools = none := by
          apply Fields.lookup_eq_none_of_forall_ne
          intro other hother heq
          have := hhead other hother
          omega
        rw [if_pos hindex, hrest]
        by_cases hstarted : entry.2.started <;> simp [Option.filter, hindex, hstarted]
      · rw [if_neg hindex, if_neg (fun h => hindex h.1.symm)]

theorem eq_of_mem_parsedAt
    {st : ChatStreamState}
    {i : Nat}
    {arguments : Json}
    (h : arguments ∈ parsedAt fromStr st i) :
    arguments = parseJsonArguments fromStr (.str (argumentsAt st i)) := by
  unfold parsedAt at h
  obtain ⟨tool, htool, rfl⟩ := Option.map_eq_some_iff.1 (Option.mem_toList.1 h)
  have hlook := (Option.filter_eq_some_iff.1 htool).1
  simp [argumentsAt, hlook]

theorem endsOf_finish
    (i : Nat)
    (reason : FinishReason)
    (usage : Option Json)
    {st : ChatStreamState}
    (h : Fields.Sorted st.tools) :
    endsOf i (finish fromStr reason usage st).2 =
      if st.finished then [] else parsedAt fromStr st i := by
  unfold finish
  split
  · apply endsOf_eq_nil
    intro e he
    obtain ⟨value, -, rfl⟩ := Option.map_eq_some_iff.1 (Option.mem_toList.1 he)
    rfl
  · rw [← endsOf_toolEnds fromStr i h]
    simp only [endsOf, List.filterMap_append]
    have hreasoning : ((if st.reasoningOpen then [.reasoningEnd "reasoning" (.obj [])] else []) :
        List ModelStreamEvent).filterMap (endOf i) = [] := by
      split <;> rfl
    have htext : ((if st.textOpen then [.textEnd "text"] else []) :
        List ModelStreamEvent).filterMap (endOf i) = [] := by
      split <;> rfl
    rw [hreasoning, htext]
    simp [endOf]

theorem finish_ends
    {i : Nat}
    (reason : FinishReason)
    (usage : Option Json)
    {st : ChatStreamState}
    (h : Fields.Sorted st.tools) :
    Fields.Sorted (finish fromStr reason usage st).1.tools ∧
      ∀ arguments ∈ endsOf i (finish fromStr reason usage st).2,
        arguments = parseJsonArguments fromStr
          (.str (argumentsAt (finish fromStr reason usage st).1 i)) := by
  have htools := (silent_finish fromStr reason usage st).1
  constructor
  · rw [htools]
    exact h
  · intro arguments hend
    rw [endsOf_finish fromStr i reason usage h] at hend
    split at hend
    · simp at hend
    · have hparsed := eq_of_mem_parsedAt fromStr hend
      unfold argumentsAt at hparsed ⊢
      rw [htools]
      exact hparsed

theorem endsOf_closingPart
    {i : Nat}
    {chunk : Json}
    {st : ChatStreamState}
    (h : Fields.Sorted st.tools)
    {arguments : Json}
    (hend : arguments ∈ endsOf i (closingPart fromStr chunk st).2) :
    arguments = parseJsonArguments fromStr (.str (argumentsAt st i)) := by
  unfold closingPart at hend
  dsimp only at hend
  split at hend
  · rw [endsOf_finish fromStr i _ _ h] at hend
    split at hend
    · simp at hend
    · exact eq_of_mem_parsedAt fromStr hend
  · obtain ⟨e, he, hend⟩ := List.mem_filterMap.1 hend
    obtain ⟨value, -, rfl⟩ := Option.map_eq_some_iff.1 (Option.mem_toList.1 he)
    simp [endOf] at hend

theorem decodeChunk_ends
    {i : Nat}
    {chunk : Json}
    {st : ChatStreamState}
    (h : Fields.Sorted st.tools) :
    Fields.Sorted (decodeChunk fromStr chunk st).1.tools ∧
      ∀ arguments ∈ endsOf i (decodeChunk fromStr chunk st).2,
        arguments = parseJsonArguments fromStr
          (.str (argumentsAt (decodeChunk fromStr chunk st).1 i)) := by
  let delta := deltaOf chunk
  let calls := inOrder ((toolCalls delta).map toolCallPart)
  let body := (reasoningPart delta).andThen ((textPart delta).andThen calls)
  have hchunk : decodeChunk fromStr chunk st = body.andThen (closingPart fromStr chunk) st := by
    simp only [decodeChunk, body, calls, delta, Emits.andThen, List.append_assoc]
  have hendless : Endless body :=
    (endless_reasoningPart delta).andThen
      ((endless_textPart delta).andThen (toolCallParts_inOrder _).1)
  have hkeeps : KeepsOrder body :=
    (silent_reasoningPart delta).keepsOrder.andThen
      ((silent_textPart delta).keepsOrder.andThen (toolCallParts_inOrder _).2)
  have hclosing := silent_closingPart fromStr chunk (body st).1
  rw [hchunk]
  constructor
  · exact (silent_closingPart fromStr chunk).keepsOrder _ (hkeeps st h)
  · intro arguments hend
    have hsame : argumentsAt (body.andThen (closingPart fromStr chunk) st).1 i =
        argumentsAt (body st).1 i := by
      unfold argumentsAt
      exact congrArg (fun tools => ((Fields.lookup i tools).map (·.arguments)).getD "") hclosing.1
    rw [hsame]
    apply endsOf_closingPart fromStr (hkeeps st h)
    have hbody : endsOf i (body st).2 = [] :=
      endsOf_eq_nil fun e he => hendless st e he i
    have happend : endsOf i (body.andThen (closingPart fromStr chunk) st).2 =
        endsOf i (body st).2 ++ endsOf i (closingPart fromStr chunk (body st).1).2 :=
      List.filterMap_append
    rw [happend, hbody] at hend
    exact hend

theorem decodeFrame_ends
    {i : Nat}
    {data : String}
    {st : ChatStreamState}
    {out : ChatStreamState × List ModelStreamEvent}
    (h : decodeFrame fromStr data st = .ok out)
    (hsorted : Fields.Sorted st.tools) :
    Fields.Sorted out.1.tools ∧
      ∀ arguments ∈ endsOf i out.2,
        arguments = parseJsonArguments fromStr (.str (argumentsAt out.1 i)) := by
  unfold decodeFrame at h
  split at h
  · cases h
    exact finish_ends fromStr _ _ hsorted
  · split at h
    · cases h
      exact ⟨hsorted, fun _ hend => absurd hend List.not_mem_nil⟩
    · split at h
      · cases h
      · split at h
        · cases h
          exact ⟨hsorted, fun _ hend => absurd hend List.not_mem_nil⟩
        · cases h
          exact decodeChunk_ends fromStr hsorted

theorem ne_empty_of_mem_fragmentsOf
    {i : Nat}
    {data fragment : String}
    (h : fragment ∈ fragmentsOf fromStr i data) :
    fragment ≠ "" := by
  unfold fragmentsOf at h
  split at h
  · simp at h
  · split at h
    · simp at h
    · split at h
      · simp at h
      · obtain ⟨call, -, hcall⟩ := List.mem_filterMap.1 h
        unfold fragmentOf at hcall
        rw [nonEmpty_some] at hcall
        rintro rfl
        split at hcall
        · split at hcall
          · simp at hcall
          · rename_i hne
            exact hne (Option.some.inj hcall)
        · simp at hcall

/-- Wherever a frame of a stream ends the call, it ends it with what is there after it. -/
theorem decodeFrames_ends
    {i : Nat}
    {frames : List String}
    {st : ChatStreamState}
    {out : ChatStreamState × List (List ModelStreamEvent)}
    (h : decodeFrames fromStr frames st = .ok out)
    (hsorted : Fields.Sorted st.tools) :
    Fields.Sorted out.1.tools ∧
      ∀ arguments ∈ endsOf i (out.2.getLast?.getD []),
        arguments = parseJsonArguments fromStr (.str (argumentsAt out.1 i)) := by
  induction frames generalizing st out with
  | nil =>
      cases h
      exact ⟨hsorted, fun _ hend => absurd hend List.not_mem_nil⟩
  | cons data frames ih =>
      obtain ⟨mid, hmid, rest, hrest, rfl⟩ := decodeFrames_cons_ok h
      obtain ⟨hsorted', hends⟩ := decodeFrame_ends fromStr hmid hsorted
      cases frames with
      | nil =>
          cases hrest
          exact ⟨hsorted', hends⟩
      | cons next frames =>
          obtain ⟨mid', -, rest', -, rfl⟩ := decodeFrames_cons_ok hrest
          have hmore := ih hrest hsorted'
          rw [List.getLast?_cons_cons]
          exact hmore

end Ends

section Exact

variable (fromStr : String → Option Json)

/--
The arguments of the call at `i` after the frames so far.  They are the text its fragments
were cut from exactly if none of these can be taken for a snapshot, and the last one if all of
them are growing snapshots; the delta events tell the same, and an end carries their parse.
-/
theorem tool_arguments_exact
    (i : Nat)
    {frames : List String}
    {st : ChatStreamState}
    {events : List (List ModelStreamEvent)}
    (h : decodeFrames fromStr frames ChatStreamState.new = .ok (st, events)) :
    let fragments := frames.flatMap (fragmentsOf fromStr i)
    (argumentsAt st i = String.join fragments ↔ NoneRepeats fragments) ∧
      (Growing fragments → argumentsAt st i = fragments.getLast?.getD "") ∧
      events.flatten.foldl (foldDelta i) "" = argumentsAt st i ∧
      (∀ arguments ∈ endsOf i (events.getLast?.getD []),
        arguments = parseJsonArguments fromStr (.str (argumentsAt st i))) ∧
      endsOf i (finishStream fromStr st).2 =
        if st.finished then [] else parsedAt fromStr st i := by
  intro fragments
  obtain ⟨hargs, hfold⟩ := decodeFrames_tracks i h
  obtain ⟨hsorted, hends⟩ := decodeFrames_ends fromStr (i := i) h Fields.sorted_nil
  have hfragments : ∀ f ∈ fragments, f ≠ "" := by
    intro f hf
    obtain ⟨data, -, hf⟩ := List.mem_flatMap.1 hf
    exact ne_empty_of_mem_fragmentsOf fromStr hf
  change argumentsAt st i = fragments.foldl receiveText "" at hargs
  refine ⟨?_, ?_, hfold, hends, ?_⟩
  · rw [hargs]
    exact foldl_receiveText_iff hfragments
  · intro hgrowing
    rw [hargs]
    exact foldl_receiveText_growing hgrowing
  · unfold finishStream
    split
    · rfl
    · rename_i hopen
      rw [endsOf_finish fromStr i _ _ hsorted, if_neg hopen]

/-- A chunk that brings one fragment of the arguments of call 0. -/
def argumentsChunk (fragment : String) : Json :=
  .obj [("choices", .arr [.obj [("delta", .obj [("tool_calls", .arr [.obj [
    ("function", .obj [("arguments", .str fragment), ("name", .str "write")]),
    ("id", .str "call-1"), ("index", .num (.posInt 0))]])])]])]

/-- The frame of such a chunk. -/
def argumentsFrame (escaped : String) : String :=
  "\x7b\"choices\":[\x7b\"delta\":\x7b\"tool_calls\":[\x7b\"index\":0,\"id\":\"call-1\"," ++
    "\"function\":\x7b\"name\":\"write\",\"arguments\":\"" ++ escaped ++ "\"\x7d\x7d]\x7d\x7d]\x7d"

/-- What the parser gives on the frames and the arguments below. -/
def sampleFromStr (text : String) : Option Json :=
  if text = argumentsFrame "\x7b\\\"a\\\":" then
    some (argumentsChunk "\x7b\"a\":")
  else if text = argumentsFrame "\x7b\\\"a\\\":1\x7d\x7d" then
    some (argumentsChunk "\x7b\"a\":1\x7d\x7d")
  else if text = argumentsFrame "1\x7d" then
    some (argumentsChunk "1\x7d")
  else if text = "\x7b\"a\":1\x7d" then
    some (.obj [("a", .num (.posInt 1))])
  else
    none

/-- The text comes in two fragments that no one takes for snapshots. -/
theorem tool_arguments_exact_fragments :
    let frames := [argumentsFrame "\x7b\\\"a\\\":", argumentsFrame "1\x7d"]
    ∃ st events, decodeFrames sampleFromStr frames ChatStreamState.new = .ok (st, events) ∧
      argumentsAt st 0 = "\x7b\"a\":1\x7d" ∧
      NoneRepeats (frames.flatMap (fragmentsOf sampleFromStr 0)) ∧
      endsOf 0 (finishStream sampleFromStr st).2 = [.obj [("a", .num (.posInt 1))]] := by
  intro frames
  have hrun : ((decodeFrames sampleFromStr frames ChatStreamState.new).toOption.map fun out =>
      (argumentsAt out.1 0, out.1.finished, parsedAt sampleFromStr out.1 0,
        String.join (frames.flatMap (fragmentsOf sampleFromStr 0)))) =
      some ("\x7b\"a\":1\x7d", false, [.obj [("a", .num (.posInt 1))]],
        "\x7b\"a\":1\x7d") := by
    decide +kernel
  cases hout : decodeFrames sampleFromStr frames ChatStreamState.new with
  | error e =>
      rw [hout] at hrun
      cases hrun
  | ok out =>
      rw [hout] at hrun
      simp only [Except.toOption, Option.map_some, Option.some.injEq, Prod.mk.injEq] at hrun
      obtain ⟨hargs, hfinished, hparsed, hjoin⟩ := hrun
      have h := tool_arguments_exact sampleFromStr 0 hout
      refine ⟨out.1, out.2, rfl, hargs, h.1.1 (hargs.trans hjoin.symm), ?_⟩
      rw [h.2.2.2.2, hfinished, hparsed]
      rfl

/-- A nested object that repeats the text before it is taken for a snapshot of it. -/
theorem nested_object_taken_for_snapshot :
    let frames := [argumentsFrame "\x7b\\\"a\\\":", argumentsFrame "\x7b\\\"a\\\":1\x7d\x7d"]
    String.join (frames.flatMap (fragmentsOf sampleFromStr 0)) =
        "\x7b\"a\":\x7b\"a\":1\x7d\x7d" ∧
      (decodeFrames sampleFromStr frames ChatStreamState.new).toOption.map
          (fun out => argumentsAt out.1 0) = some "\x7b\"a\":1\x7d\x7d" := by
  decide +kernel

end Exact

end OpenAiChat
end Llm
end FutureOs
