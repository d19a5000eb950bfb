import FutureOs.Broadcast.ProjectionFold

/-!
# Repeated tool arguments

`strip_repeated_tool_arguments` is one filter (`stripRepeatedToolArguments_eq`).  What it
drops are plain fragments of tools whose text spells out the arguments of a start
(`repeatsStart_of_isRepeated`), and doing it twice drops nothing more
(`stripRepeatedToolArguments_idem`).

The fragments of one stream are of one tool, and plain together; so a run and its segments
lose the same streams (`segments_strip`).
-/

namespace FutureOs
namespace Broadcast

/-! ## What the fragments of a stream share -/

section Streams

theorem lookup_stable
    {key : String}
    {canonical : Bool}
    (hkey : varying canonical key = false)
    (fields : List (String × Json)) :
    Fields.lookup key ((fields.filter fun field => !varying canonical field.1).map fun field =>
      (field.1, field.2.normal)) = (Fields.lookup key fields).map Json.normal := by
  induction fields with
  | nil => rfl
  | cons field rest ih =>
      obtain ⟨k, v⟩ := field
      rw [Fields.lookup_cons]
      by_cases hk : key = k
      · subst hk
        simp [hkey, Fields.lookup_cons]
      · rw [if_neg hk, ← ih, List.filter_cons]
        split
        · rw [List.map_cons, Fields.lookup_cons, if_neg hk]
        · rfl

/-- A field that does not vary is that of the whole stream. -/
theorem Fragment.Follows.get?_normal
    {p f : Fragment}
    (h : p.Follows f)
    {key : String}
    (hkey : varying true key = false) :
    (p.value.get? key).map Json.normal = (f.value.get? key).map Json.normal := by
  have hlookup : ∀ v : Json, (v.get? key).map Json.normal =
      (stableFields true v).bind (Fields.lookup key) := by
    intro v
    cases v with
    | obj fields => exact (lookup_stable hkey fields).symm
    | _ => rfl
  rw [hlookup, hlookup, h.stable_of fun _ => rfl]

theorem asStr?_normal (v : Json) : v.normal.asStr? = v.asStr? := by
  cases v with
  | num n => cases n <;> rfl
  | _ => rfl

/-- The fragments of a stream are of one tool. -/
theorem Fragment.Follows.toolIdOf_eq
    {p f : Fragment}
    (h : p.Follows f) :
    toolIdOf p.value = toolIdOf f.value := by
  have hread : ∀ v : Json, ((v.get? "tool_id").or (v.get? "tool_call_id")).bind Json.asStr? =
      (((v.get? "tool_id").map Json.normal).or
        ((v.get? "tool_call_id").map Json.normal)).bind Json.asStr? := by
    intro v
    cases v.get? "tool_id" <;> cases v.get? "tool_call_id" <;> simp [asStr?_normal]
  unfold toolIdOf
  rw [hread, hread, h.get?_normal (by decide), h.get?_normal (by decide)]

theorem toolIdOf_appendText
    (v : Json)
    (t : String) :
    toolIdOf (appendText v t) = toolIdOf v := by
  unfold toolIdOf
  rw [get?_appendText_of_ne (by decide) (by decide),
    get?_appendText_of_ne (by decide) (by decide)]

/-- A canonical fragment says more than plain ones do. -/
theorem isPlain_of_isCanonical
    {v : Json}
    (h : isCanonical v = true) :
    isPlain v = false := by
  cases v with
  | obj fields =>
      obtain ⟨value, hvalue⟩ := Option.isSome_iff_exists.1 h
      have hmem := Fields.mem_of_lookup hvalue
      rw [isPlain, Json.asObject?, Option.any_some, List.all_eq_false]
      exact ⟨_, hmem, by simp [plainFields]⟩
  | _ => rfl

/-- Only the text of a plain fragment varies. -/
theorem isPlain_eq_stable
    (v : Json)
    (h : isCanonical v = false) :
    isPlain v = (stableFields false v).any fun fields =>
      fields.all fun field => field.1 ∈ plainFields := by
  cases v with
  | obj fields =>
      rw [isPlain, stableFields, Json.asObject?, Option.map_some, Option.any_some,
        Option.any_some, List.all_map, List.all_filter, Bool.eq_iff_iff, List.all_eq_true,
        List.all_eq_true]
      refine forall₂_congr fun field _ => ?_
      by_cases htext : field.1 = "text"
      · simp [varying, htext, plainFields]
      · simp [varying, htext]
  | _ => rfl

theorem Fragment.Follows.isPlain_eq
    {p f : Fragment}
    (h : p.Follows f) :
    isPlain p.value = isPlain f.value := by
  cases hcanonical : isCanonical p.value with
  | true =>
      rw [isPlain_of_isCanonical hcanonical,
        isPlain_of_isCanonical (h.isCanonical_eq.symm.trans hcanonical)]
  | false =>
      rw [isPlain_eq_stable _ hcanonical,
        isPlain_eq_stable _ (h.isCanonical_eq.symm.trans hcanonical),
        h.stable_of fun hp => absurd (hcanonical.symm.trans hp) nofun]

theorem isPlain_appendText
    (v : Json)
    (t : String) :
    isPlain (appendText v t) = isPlain v := by
  cases hcanonical : isCanonical v with
  | true =>
      rw [isPlain_of_isCanonical hcanonical,
        isPlain_of_isCanonical ((isCanonical_appendText t).trans hcanonical)]
  | false =>
      rw [isPlain_eq_stable _ hcanonical,
        isPlain_eq_stable _ ((isCanonical_appendText t).trans hcanonical),
        stableFields_appendText fun hv => absurd (hcanonical.symm.trans hv) nofun]

end Streams

section Strip

variable {fromStr : String → Option Json}

/-! ## One filter -/

/-- `strip_repeated_tool_arguments` drops the fragments of the repeated tools, if any. -/
theorem stripRepeatedToolArguments_eq (events : List SseEvent) :
    stripRepeatedToolArguments fromStr events =
      events.filter fun event => !isRepeated fromStr (repeatedTools fromStr events) event := by
  have hnothing : ∀ event, isRepeated fromStr [] event = false := by
    intro event
    unfold isRepeated
    cases fromStr event.data with
    | none => simp
    | some data => cases h : toolIdOf data <;> simp [repeats, h]
  have hnone : repeatedTools fromStr events = [] →
      events = events.filter fun event =>
        !isRepeated fromStr (repeatedTools fromStr events) event := by
    intro h
    simp [h, hnothing]
  unfold stripRepeatedToolArguments
  split
  · rename_i hstarts
    refine hnone ?_
    rw [repeatedTools, List.isEmpty_iff.1 hstarts]
    rfl
  · dsimp only
    split
    · rename_i hrepeated
      exact hnone (List.isEmpty_iff.1 hrepeated)
    · rfl

/-- The event is a plain fragment of a tool whose text is the arguments of a start. -/
def RepeatsStart (fromStr : String → Option Json) (events : List SseEvent)
    (event : SseEvent) : Prop :=
  event.eventType ∈ toolDeltaTypes ∧
  ∃ data tool, fromStr event.data = some data ∧ isPlain data = true ∧
    toolIdOf data = some tool ∧
    ∃ start ∈ events, ∃ arguments value,
      startArguments fromStr start = some (tool, arguments) ∧
      fromStr (streamedArguments fromStr events tool) = some value ∧
      value.same arguments = true

theorem mem_repeatedTools
    {events : List SseEvent}
    {tool : String} :
    tool ∈ repeatedTools fromStr events ↔
      ∃ start ∈ events, ∃ arguments value,
        startArguments fromStr start = some (tool, arguments) ∧
        fromStr (streamedArguments fromStr events tool) = some value ∧
        value.same arguments = true := by
  unfold repeatedTools
  constructor
  · intro h
    obtain ⟨⟨tool', arguments⟩, hfound, rfl⟩ := List.mem_map.1 h
    obtain ⟨hmem, hsame⟩ := List.mem_filter.1 hfound
    obtain ⟨start, hstart, harguments⟩ := List.mem_filterMap.1 hmem
    obtain ⟨hvalue, heq⟩ := (Option.any_eq_true_iff_get _ _).1 hsame
    exact ⟨start, hstart, arguments, _, harguments, (Option.some_get hvalue).symm, heq⟩
  · rintro ⟨start, hstart, arguments, value, harguments, hvalue, heq⟩
    refine List.mem_map.2 ⟨(tool, arguments), List.mem_filter.2 ⟨?_, ?_⟩, rfl⟩
    · exact List.mem_filterMap.2 ⟨start, hstart, harguments⟩
    · rw [hvalue]
      exact heq

theorem isRepeated_iff
    {repeated : List String}
    {event : SseEvent} :
    isRepeated fromStr repeated event = true ↔
      event.eventType ∈ toolDeltaTypes ∧ ∃ data tool, fromStr event.data = some data ∧
        isPlain data = true ∧ toolIdOf data = some tool ∧ tool ∈ repeated := by
  unfold isRepeated repeats
  rw [Bool.and_eq_true, decide_eq_true_eq]
  refine and_congr_right fun _ => ?_
  cases fromStr event.data with
  | none => simp
  | some data => cases h : toolIdOf data <;> simp [h]

/-- What is dropped repeats a start. -/
theorem repeatsStart_of_isRepeated
    {events : List SseEvent}
    {event : SseEvent} :
    isRepeated fromStr (repeatedTools fromStr events) event = true ↔
      RepeatsStart fromStr events event := by
  rw [isRepeated_iff, RepeatsStart]
  simp only [mem_repeatedTools]

/-! ## Stripping twice -/

theorem startArguments_eq_none
    {event : SseEvent}
    (h : event.eventType ∈ toolDeltaTypes) :
    startArguments fromStr event = none := by
  unfold startArguments
  rw [if_neg]
  intro heq
  rw [heq] at h
  revert h
  decide

/-- A start is never dropped. -/
theorem filterMap_startArguments
    (repeated : List String)
    (events : List SseEvent) :
    (events.filter fun event => !isRepeated fromStr repeated event).filterMap
        (startArguments fromStr) =
      events.filterMap (startArguments fromStr) := by
  induction events with
  | nil => rfl
  | cons event events ih =>
      by_cases hrepeated : isRepeated fromStr repeated event = true
      · rw [List.filter_cons_of_neg (by simp [hrepeated]), ih, List.filterMap_cons_none
          (startArguments_eq_none (isRepeated_iff.1 hrepeated).1)]
      · rw [List.filter_cons_of_pos (by simp [hrepeated]), List.filterMap_cons,
          List.filterMap_cons, ih]

/-- A tool that is not among the repeated ones keeps its text. -/
theorem streamedArguments_filter
    {repeated : List String}
    {tool : String}
    (htool : tool ∉ repeated)
    (events : List SseEvent) :
    streamedArguments fromStr (events.filter fun event => !isRepeated fromStr repeated event)
        tool =
      streamedArguments fromStr events tool := by
  have hsilent : ∀ streamed event, isRepeated fromStr repeated event = true →
      streamEvent fromStr tool streamed event = streamed := by
    intro streamed event hrepeated
    obtain ⟨htype, data, tool', hdata, -, htool', hmem⟩ := isRepeated_iff.1 hrepeated
    have hother : toolIdOf data ≠ some tool := by
      rw [htool']
      rintro ⟨⟩
      exact htool hmem
    rw [streamEvent, if_pos htype, hdata]
    exact if_neg hother
  unfold streamedArguments
  generalize "" = streamed
  induction events generalizing streamed with
  | nil => rfl
  | cons event events ih =>
      by_cases hrepeated : isRepeated fromStr repeated event = true
      · rw [List.filter_cons_of_neg (by simp [hrepeated]), List.foldl_cons,
          hsilent _ _ hrepeated, ih]
      · rw [List.filter_cons_of_pos (by simp [hrepeated]), List.foldl_cons, List.foldl_cons, ih]

/-- Without some tools, no other tool is repeated that was not before. -/
theorem mem_repeatedTools_of_filter
    {repeated : List String}
    {events : List SseEvent}
    {tool : String}
    (htool : tool ∉ repeated)
    (h : tool ∈ repeatedTools fromStr
      (events.filter fun event => !isRepeated fromStr repeated event)) :
    tool ∈ repeatedTools fromStr events := by
  unfold repeatedTools at h ⊢
  rw [filterMap_startArguments] at h
  obtain ⟨start, hstart, rfl⟩ := List.mem_map.1 h
  obtain ⟨hstart, hsame⟩ := List.mem_filter.1 hstart
  rw [streamedArguments_filter htool] at hsame
  exact List.mem_map.2 ⟨start, List.mem_filter.2 ⟨hstart, hsame⟩, rfl⟩

/-- Stripping once is enough. -/
theorem stripRepeatedToolArguments_idem (events : List SseEvent) :
    stripRepeatedToolArguments fromStr (stripRepeatedToolArguments fromStr events) =
      stripRepeatedToolArguments fromStr events := by
  rw [stripRepeatedToolArguments_eq (stripRepeatedToolArguments fromStr events),
    List.filter_eq_self]
  intro event hevent
  rw [stripRepeatedToolArguments_eq] at hevent ⊢
  obtain ⟨-, hkept⟩ := List.mem_filter.1 hevent
  rw [Bool.not_eq_true', Bool.eq_false_iff] at hkept ⊢
  -- a tool that is repeated after stripping was repeated before
  refine fun hagain => hkept ?_
  obtain ⟨htype, data, tool, hdata, hplain, htool, hmem⟩ := isRepeated_iff.1 hagain
  refine isRepeated_iff.2 ⟨htype, data, tool, hdata, hplain, htool, ?_⟩
  by_contra hnot
  exact hnot (mem_repeatedTools_of_filter hnot hmem)

/-! ## Stripping a run and its segments -/

theorem readEvent_cases (event : SseEvent) :
    readEvent fromStr event = none ∧ event.eventType = "text_delta" ∨
    (∃ data, readEvent fromStr event = some (.inl (fragment event data)) ∧
      fromStr event.data = some data ∧ event.eventType ∈ deltaTypes) ∨
    readEvent fromStr event = some (.inr event) := by
  unfold readEvent
  split
  · rename_i htype
    exact Or.inl ⟨rfl, htype⟩
  · refine Or.inr ?_
    cases hfragment : fragmentOf fromStr event with
    | none => exact Or.inr rfl
    | some found =>
        obtain ⟨htype, hdata, -⟩ := fragmentOf_eq_some_iff.1 hfragment
        exact Or.inl ⟨found.1, rfl, hdata, htype⟩

/-- The text of a tool after one more piece. -/
def streamPiece (fromStr : String → Option Json) (tool : String) (streamed : String) :
    Fragment ⊕ SseEvent → String
  | .inl f =>
      if f.header.eventType ∈ toolDeltaTypes then streamData tool streamed f.value
      else streamed
  | .inr event => streamEvent fromStr tool streamed event

theorem streamedArguments_eq
    (events : List SseEvent)
    (tool : String) :
    streamedArguments fromStr events tool =
      (pieces fromStr events).foldl (streamPiece fromStr tool) "" := by
  unfold streamedArguments
  generalize "" = streamed
  induction events generalizing streamed with
  | nil => rfl
  | cons event events ih =>
      rw [pieces_cons, List.foldl_cons, List.foldl_append, ih]
      congr 1
      rcases @readEvent_cases fromStr event with
        ⟨hread, htype⟩ | ⟨data, hread, hdata, -⟩ | hread
      · rw [hread, streamEvent, if_neg (by rw [htype]; decide)]
        rfl
      · rw [hread, streamEvent, hdata]
        rfl
      · rw [hread]
        rfl

theorem streamPiece_join
    (tool : String)
    (streamed : String)
    {p f : Fragment}
    (h : p.same f = true) :
    streamPiece fromStr tool (streamPiece fromStr tool streamed (.inl p)) (.inl f) =
      streamPiece fromStr tool streamed (.inl (p.join f)) := by
  have hfollows := Fragment.same_iff.1 h
  have htype : (p.join f).header.eventType = p.header.eventType := rfl
  have htool : toolIdOf (p.join f).value = toolIdOf p.value := toolIdOf_appendText _ _
  have hsnapshot : (p.join f).value.get? "snapshot" = p.value.get? "snapshot" :=
    get?_appendText_of_ne (by decide) (by decide) _
  have htext : (textOf (p.join f).value).getD "" =
      (textOf p.value).getD "" ++ (textOf f.value).getD "" := by
    have hobject : p.value.asObject?.isSome := by
      simpa [stableFields] using hfollows.isObject
    rw [Fragment.join, textOf_appendText_of_isObject hobject]
    rfl
  simp only [streamPiece]
  rw [htype, ← hfollows.eventType]
  split
  · unfold streamData
    rw [htool, ← hfollows.toolIdOf_eq, hsnapshot, if_neg hfollows.fresh, htext]
    split
    · rw [String.append_assoc]
    · rfl
  · rfl

/-- Whether a piece is dropped. -/
def dropsPiece (fromStr : String → Option Json) (repeated : List String) :
    Fragment ⊕ SseEvent → Bool
  | .inl f => f.header.eventType ∈ toolDeltaTypes && repeats repeated f.value
  | .inr event => isRepeated fromStr repeated event

theorem pieces_filter
    (repeated : List String)
    (events : List SseEvent) :
    pieces fromStr (events.filter fun event => !isRepeated fromStr repeated event) =
      (pieces fromStr events).filter fun piece => !dropsPiece fromStr repeated piece := by
  induction events with
  | nil => rfl
  | cons event events ih =>
      rw [pieces_cons, List.filter_append, ← ih, List.filter_cons]
      rcases @readEvent_cases fromStr event with
        ⟨hread, htype⟩ | ⟨data, hread, hdata, -⟩ | hread
      · have hkept : isRepeated fromStr repeated event = false := by
          rw [isRepeated, htype, decide_eq_false (by decide), Bool.false_and]
        rw [hread, hkept]
        simp [pieces_cons, hread]
      · have hdrops : dropsPiece fromStr repeated (.inl (fragment event data)) =
            isRepeated fromStr repeated event := by
          rw [isRepeated, hdata]
          rfl
        rw [hread]
        cases hrepeated : isRepeated fromStr repeated event <;>
          simp [pieces_cons, hread, hdrops, hrepeated]
      · rw [hread]
        cases hrepeated : isRepeated fromStr repeated event <;>
          simp [pieces_cons, hread, dropsPiece, hrepeated]

theorem filterMap_startArguments_pieces (events : List SseEvent) :
    events.filterMap (startArguments fromStr) =
      ((pieces fromStr events).filterMap Sum.getRight?).filterMap (startArguments fromStr) := by
  induction events with
  | nil => rfl
  | cons event events ih =>
      have hsilent : ∀ type, event.eventType = type → type ≠ "tool_start" →
          startArguments fromStr event = none := by
        rintro _ rfl hne
        rw [startArguments, if_neg hne]
      rw [pieces_cons, List.filterMap_append, List.filterMap_append, ← ih]
      rcases @readEvent_cases fromStr event with
        ⟨hread, htype⟩ | ⟨data, hread, hdata, htype⟩ | hread
      · rw [List.filterMap_cons_none (hsilent _ htype (by decide)), hread]
        rfl
      · have hne : event.eventType ≠ "tool_start" := by
          intro heq
          rw [heq] at htype
          revert htype
          decide
        rw [List.filterMap_cons_none (hsilent _ rfl hne), hread]
        rfl
      · cases hstart : startArguments fromStr event <;> simp [hread, hstart]

/-- A run and its segments repeat the arguments of the same tools. -/
theorem repeatedTools_eq
    {xs ys : List SseEvent}
    (h : Segments Fragment.same Fragment.join (pieces fromStr xs) (pieces fromStr ys)) :
    repeatedTools fromStr xs = repeatedTools fromStr ys := by
  have hstreamed : ∀ tool,
      streamedArguments fromStr xs tool = streamedArguments fromStr ys tool := by
    intro tool
    rw [streamedArguments_eq, streamedArguments_eq]
    exact h.foldl_eq (fun s _ _ => streamPiece_join tool s) ""
  unfold repeatedTools
  rw [filterMap_startArguments_pieces xs, filterMap_startArguments_pieces ys,
    h.others_eq]
  simp only [hstreamed]

/-- A run and its segments lose the same streams. -/
theorem segments_strip
    {xs ys : List SseEvent}
    (h : Segments Fragment.same Fragment.join (pieces fromStr xs) (pieces fromStr ys)) :
    Segments Fragment.same Fragment.join
      (pieces fromStr (stripRepeatedToolArguments fromStr xs))
      (pieces fromStr (stripRepeatedToolArguments fromStr ys)) := by
  rw [stripRepeatedToolArguments_eq, stripRepeatedToolArguments_eq, repeatedTools_eq h,
    pieces_filter, pieces_filter]
  refine h.filter (fun p f hsame => ?_) fun p f _ => ?_
  · have hfollows := Fragment.same_iff.1 hsame
    rw [dropsPiece, dropsPiece, repeats, repeats, hfollows.eventType, hfollows.isPlain_eq,
      hfollows.toolIdOf_eq]
  · have hplain : isPlain (p.join f).value = isPlain p.value := isPlain_appendText _ _
    have htool : toolIdOf (p.join f).value = toolIdOf p.value := toolIdOf_appendText _ _
    rw [dropsPiece, dropsPiece, repeats, repeats, hplain, htool]
    rfl

end Strip

end Broadcast
end FutureOs
