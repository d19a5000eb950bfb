import FutureOs.Lib.Fallible
import FutureOs.Llm.ToolArguments

/-!
# The arguments of one call of a chat stream

What a frame does to the arguments of the call at one index is what its fragments for that
index do (`decodeFrame_tracks`); text, reasoning, other calls and the end of the response
leave them alone.  The delta events fold to the same text, and an end event carries its parse.
-/

namespace FutureOs
namespace Llm
namespace OpenAiChat

section Reading

/-- The arguments accumulated for the call at an index. -/
def argumentsAt (st : ChatStreamState) (i : Nat) : String :=
  ((Fields.lookup i st.tools).map (·.arguments)).getD ""

/-- A consumer's text of the call at an index, after one more event. -/
def foldDelta (i : Nat) (text : String) : ModelStreamEvent → String
  | .toolInputDelta index _ delta snapshot =>
      if index = i then (if snapshot then delta else text ++ delta) else text
  | _ => text

/-- The arguments an event ends the call at an index with. -/
def endOf (i : Nat) : ModelStreamEvent → Option Json
  | .toolInputEnd index _ _ arguments _ => if index = i then some arguments else none
  | _ => none

def endsOf (i : Nat) (events : List ModelStreamEvent) : List Json :=
  events.filterMap (endOf i)

/-- The fragment that a tool call of a delta brings for an index. -/
def fragmentOf (i : Nat) (call : Json) : Option String :=
  if indexField call "index" = i then nonEmpty (some (incomingOf call)) else none

/-- The fragments that a frame brings for an index. -/
def fragmentsOf (fromStr : String → Option Json) (i : Nat) (data : String) : List String :=
  if Text.trim data = "[DONE]" ∨ Text.trim data = "" then
    []
  else
    match fromStr data with
    | none => []
    | some chunk =>
        match chunk.get? "error" with
        | some _ => []
        | none => (toolCalls (deltaOf chunk)).filterMap (fragmentOf i)

end Reading

/-- The step takes in these fragments for the index, and its events tell the same. -/
def Tracks (i : Nat) (step : Emits) (fragments : List String) : Prop :=
  ∀ st, argumentsAt (step st).1 i = fragments.foldl receiveText (argumentsAt st i) ∧
    (step st).2.foldl (foldDelta i) (argumentsAt st i) = argumentsAt (step st).1 i

/-- The step keeps the calls as they are and says nothing of their arguments. -/
def Silent (step : Emits) : Prop :=
  ∀ st, (step st).1.tools = st.tools ∧
    ∀ e ∈ (step st).2, ∀ i text, foldDelta i text e = text

section Tracks

variable {i : Nat}

theorem foldl_foldDelta_of_silent
    {events : List ModelStreamEvent}
    (h : ∀ e ∈ events, ∀ text, foldDelta i text e = text)
    (text : String) :
    events.foldl (foldDelta i) text = text := by
  induction events generalizing text with
  | nil =>
      rfl
  | cons e events ih =>
      rw [List.foldl_cons, h e List.mem_cons_self]
      exact ih (fun e he => h e (List.mem_cons_of_mem _ he)) text

theorem Silent.tracks
    {step : Emits}
    (h : Silent step) :
    Tracks i step [] := by
  intro st
  have hsame : argumentsAt (step st).1 i = argumentsAt st i := by
    simp only [argumentsAt, (h st).1]
  constructor
  · exact hsame
  · rw [hsame]
    exact foldl_foldDelta_of_silent (fun e he => (h st).2 e he i) _

theorem Tracks.andThen
    {first second : Emits}
    {before after : List String}
    (hfirst : Tracks i first before)
    (hsecond : Tracks i second after) :
    Tracks i (first.andThen second) (before ++ after) := by
  intro st
  obtain ⟨hargs, hfold⟩ := hfirst st
  obtain ⟨hargs', hfold'⟩ := hsecond (first st).1
  constructor
  · rw [List.foldl_append, ← hargs]
    exact hargs'
  · change List.foldl (foldDelta i) _ ((first st).2 ++ (second (first st).1).2) = _
    rw [List.foldl_append, hfold]
    exact hfold'

theorem receive_arguments
    (tool : ChatToolState)
    (index : Nat)
    (incoming : String) :
    (tool.receive index incoming).1.arguments =
      (nonEmpty (some incoming)).toList.foldl receiveText tool.arguments := by
  unfold ChatToolState.receive
  split
  · rename_i hempty
    simp [nonEmpty_some, hempty]
  · rename_i hne
    simp [nonEmpty_some, hne, receiveText]

theorem foldl_foldDelta_receive
    (tool : ChatToolState)
    (index : Nat)
    (incoming : String) :
    (tool.receive index incoming).2.foldl (foldDelta index) tool.arguments =
      (tool.receive index incoming).1.arguments := by
  unfold ChatToolState.receive
  split
  · rfl
  · dsimp only
    split
    · simp only [List.foldl_cons, List.foldl_nil, foldDelta, if_pos]
      by_cases hsnapshot : (normalizeToolDelta tool.arguments incoming).2 = true
      · simp only [hsnapshot, if_true]
        exact normalizeToolDelta_snapshot hsnapshot
      · simp [hsnapshot]
    · rename_i hquiet
      rw [not_or, not_not] at hquiet
      simp [hquiet.1, hquiet.2]

theorem foldDelta_receive_of_ne
    {tool : ChatToolState}
    {index : Nat}
    (hne : index ≠ i)
    {incoming : String}
    {e : ModelStreamEvent}
    (he : e ∈ (tool.receive index incoming).2)
    (text : String) :
    foldDelta i text e = text := by
  unfold ChatToolState.receive at he
  split at he
  · simp at he
  · dsimp only at he
    split at he
    · rw [List.mem_singleton] at he
      rw [he]
      exact if_neg hne
    · simp at he

theorem tracks_toolCallPart (i : Nat) (call : Json) :
    Tracks i (toolCallPart call) (fragmentOf i call).toList := by
  intro st
  have hkept : (((Fields.lookup (indexField call "index") st.tools).getD
      ChatToolState.new).named call).arguments =
        argumentsAt st (indexField call "index") := by
    unfold argumentsAt
    cases Fields.lookup (indexField call "index") st.tools <;> rfl
  -- The call goes on with the same arguments, whether it starts here or not.
  obtain ⟨tool, opening, htool, hstate, hopening, hevents⟩ :
      ∃ (tool : ChatToolState) (opening : List ModelStreamEvent),
        tool.arguments = argumentsAt st (indexField call "index") ∧
          (toolCallPart call st).1.tools = Fields.insert (indexField call "index")
            (tool.receive (indexField call "index") (incomingOf call)).1 st.tools ∧
          (∀ e ∈ opening, ∀ text, foldDelta i text e = text) ∧
            (toolCallPart call st).2 =
              opening ++ (tool.receive (indexField call "index") (incomingOf call)).2 := by
    let named := ((Fields.lookup (indexField call "index") st.tools).getD
      ChatToolState.new).named call
    let starts := !named.started && named.id ≠ "" && named.name ≠ ""
    refine ⟨{ named with started := named.started || starts },
      if starts then
        [.toolInputStart (indexField call "index") named.id named.name none (.obj [])]
      else
        [], hkept, rfl, ?_, rfl⟩
    intro e he text
    split at he
    · rw [List.mem_singleton.1 he]
      rfl
    · simp at he
  have hat : argumentsAt (toolCallPart call st).1 i =
      if i = indexField call "index" then
        (tool.receive (indexField call "index") (incomingOf call)).1.arguments
      else
        argumentsAt st i := by
    unfold argumentsAt
    rw [hstate, Fields.lookup_insert]
    split <;> rfl
  rw [hat, hevents, List.foldl_append, foldl_foldDelta_of_silent hopening]
  by_cases hindex : indexField call "index" = i
  · rw [hindex] at htool ⊢
    rw [if_pos rfl, fragmentOf, if_pos hindex, receive_arguments, htool]
    constructor
    · rfl
    · rw [← htool, foldl_foldDelta_receive, receive_arguments]
  · rw [if_neg (Ne.symm hindex), fragmentOf, if_neg hindex]
    constructor
    · rfl
    · apply foldl_foldDelta_of_silent
      intro e he
      exact foldDelta_receive_of_ne hindex he

theorem tracks_toolCallParts (i : Nat) (calls : List Json) :
    Tracks i (inOrder (calls.map toolCallPart)) (calls.filterMap (fragmentOf i)) := by
  induction calls with
  | nil =>
      intro st
      exact ⟨rfl, rfl⟩
  | cons call calls ih =>
      have h := (tracks_toolCallPart i call).andThen ih
      cases hfragment : fragmentOf i call with
      | none =>
          rw [List.filterMap_cons_none hfragment]
          rw [hfragment] at h
          exact h
      | some fragment =>
          rw [List.filterMap_cons_some hfragment]
          rw [hfragment] at h
          exact h

end Tracks

section Silent

variable (fromStr : String → Option Json)

theorem silent_reasoningPart (delta : Json) :
    Silent (reasoningPart delta) := by
  intro st
  unfold reasoningPart
  split
  · simp
  · constructor
    · rfl
    · intro e he i text
      rw [List.mem_append, List.mem_singleton] at he
      rcases he with he | rfl
      · split at he
        · simp at he
        · rw [List.mem_singleton.1 he]
          rfl
      · rfl

theorem silent_textPart (delta : Json) :
    Silent (textPart delta) := by
  intro st
  unfold textPart
  dsimp only
  split
  · simp
  · constructor
    · rfl
    · intro e he i text
      rw [List.mem_append, List.mem_singleton] at he
      rcases he with he | rfl
      · split at he
        · simp at he
        · rw [List.mem_singleton.1 he]
          rfl
      · rfl

theorem foldDelta_of_toolEnd
    {fromStr : String → Option Json}
    {entry : Nat × ChatToolState}
    {e : ModelStreamEvent}
    (h : toolEnd fromStr entry = some e)
    (i : Nat)
    (text : String) :
    foldDelta i text e = text := by
  unfold toolEnd at h
  split at h
  · rw [← Option.some.inj h]
    rfl
  · simp at h

theorem silent_finish (reason : FinishReason) (usage : Option Json) :
    Silent (finish fromStr reason usage) := by
  intro st
  unfold finish
  split
  · cases usage <;> simp [foldDelta]
  · constructor
    · rfl
    · intro e he i text
      simp only [List.mem_append, List.mem_filterMap, List.mem_singleton] at he
      rcases he with ((he | he) | ⟨entry, -, he⟩) | rfl
      · split at he
        · rw [List.mem_singleton.1 he]
          rfl
        · simp at he
      · split at he
        · rw [List.mem_singleton.1 he]
          rfl
        · simp at he
      · exact foldDelta_of_toolEnd he i text
      · rfl

theorem silent_closingPart (chunk : Json) :
    Silent (closingPart fromStr chunk) := by
  intro st
  unfold closingPart
  dsimp only
  split
  · exact silent_finish fromStr _ _ st
  · refine ⟨rfl, fun e he i text => ?_⟩
    obtain ⟨usage, -, rfl⟩ := Option.map_eq_some_iff.1 (Option.mem_toList.1 he)
    rfl

end Silent

section Frames

variable {fromStr : String → Option Json}

theorem tracks_decodeChunk (i : Nat) (chunk : Json) :
    Tracks i (decodeChunk fromStr chunk)
      ((toolCalls (deltaOf chunk)).filterMap (fragmentOf i)) := by
  have h := (silent_reasoningPart (deltaOf chunk)).tracks.andThen
    ((silent_textPart (deltaOf chunk)).tracks.andThen
      ((tracks_toolCallParts i (toolCalls (deltaOf chunk))).andThen
        (silent_closingPart fromStr chunk).tracks))
  rw [List.nil_append, List.nil_append, List.append_nil] at h
  exact h

/-- A frame takes in its fragments, and its events tell the same. -/
theorem decodeFrame_tracks
    (i : Nat)
    {data : String}
    {st : ChatStreamState}
    {out : ChatStreamState × List ModelStreamEvent}
    (h : decodeFrame fromStr data st = .ok out) :
    argumentsAt out.1 i =
        (fragmentsOf fromStr i data).foldl receiveText (argumentsAt st i) ∧
      out.2.foldl (foldDelta i) (argumentsAt st i) = argumentsAt out.1 i := by
  unfold decodeFrame at h
  unfold fragmentsOf
  split at h
  · rename_i hdone
    rw [if_pos (.inl hdone)]
    cases h
    exact (silent_finish fromStr .incomplete none).tracks { st with streamComplete := true }
  · rename_i hdone
    split at h
    · rename_i hblank
      rw [if_pos (.inr hblank)]
      cases h
      exact ⟨rfl, rfl⟩
    · rename_i hblank
      rw [if_neg (not_or.2 ⟨hdone, hblank⟩)]
      cases hchunk : fromStr data with
      | none =>
          rw [hchunk] at h
          cases h
      | some chunk =>
          rw [hchunk] at h
          cases herror : chunk.get? "error" with
          | some error =>
              simp only [herror] at h ⊢
              cases h
              exact ⟨rfl, rfl⟩
          | none =>
              simp only [herror] at h ⊢
              cases h
              exact tracks_decodeChunk i chunk st

theorem decodeFrames_cons_ok
    {data : String}
    {frames : List String}
    {st : ChatStreamState}
    {out : ChatStreamState × List (List ModelStreamEvent)}
    (h : decodeFrames fromStr (data :: frames) st = .ok out) :
    ∃ mid, decodeFrame fromStr data st = .ok mid ∧
      ∃ rest, decodeFrames fromStr frames mid.1 = .ok rest ∧
        (rest.1, mid.2 :: rest.2) = out := by
  unfold decodeFrames at h
  obtain ⟨mid, hmid, h⟩ := bind_eq_ok.1 h
  obtain ⟨rest, hrest, h⟩ := bind_eq_ok.1 h
  exact ⟨mid, hmid, rest, hrest, Except.ok.inj h⟩

/-- The frames so far take in their fragments, and their events tell the same. -/
theorem decodeFrames_tracks
    (i : Nat)
    {frames : List String}
    {st : ChatStreamState}
    {out : ChatStreamState × List (List ModelStreamEvent)}
    (h : decodeFrames fromStr frames st = .ok out) :
    argumentsAt out.1 i =
        (frames.flatMap (fragmentsOf fromStr i)).foldl receiveText (argumentsAt st i) ∧
      out.2.flatten.foldl (foldDelta i) (argumentsAt st i) = argumentsAt out.1 i := by
  induction frames generalizing st out with
  | nil =>
      cases h
      exact ⟨rfl, rfl⟩
  | cons data frames ih =>
      obtain ⟨mid, hmid, rest, hrest, rfl⟩ := decodeFrames_cons_ok h
      obtain ⟨hargs, hfold⟩ := decodeFrame_tracks i hmid
      obtain ⟨hargs', hfold'⟩ := ih hrest
      rw [List.flatMap_cons, List.foldl_append, ← hargs, List.flatten_cons, List.foldl_append,
        hfold]
      exact ⟨hargs', hfold'⟩

end Frames

end OpenAiChat
end Llm
end FutureOs
