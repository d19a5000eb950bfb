import FutureOs.Broadcast.RepeatedArguments

/-!
# The live view and the historical fold agree

A run is described by its fragments joined without a limit, with the other events between
them (`describe`).  The live view and the folded journal describe the run they were made
from (`Describes`), each with its own segments; and where the fold drops the fragments of
repeated tool arguments, the view without them describes the same
(`live_view_describes_as_fold`).
-/

namespace FutureOs
namespace Broadcast

/-! ## What is never kept -/

section Quiet

variable {fromStr : String → Option Json}
variable {toStr : Json → String}

def Quiet (event : SseEvent) : Prop :=
  event.eventType ≠ "text_delta"

instance (event : SseEvent) : Decidable (Quiet event) :=
  inferInstanceAs (Decidable (event.eventType ≠ "text_delta"))

theorem quiet_concat
    {events : List SseEvent}
    {event : SseEvent}
    (h : ∀ e ∈ events, Quiet e)
    (hevent : Quiet event) :
    ∀ e ∈ events ++ [event], Quiet e := by
  intro e he
  rcases List.mem_append.1 he with he | he
  · exact h e he
  · rwa [List.mem_singleton.1 he]

namespace Projection

/-- No provider token is kept. -/
structure AllQuiet (p : Projection) : Prop where
  closed : ∀ event ∈ p.closed, Quiet event
  pending : ∀ event data, p.pending = some (event, data) → Quiet event

theorem AllQuiet.flush
    {p : Projection}
    (h : p.AllQuiet) :
    (p.flush toStr).AllQuiet := by
  refine ⟨?_, fun event data hpending => by rw [pending_flush] at hpending; cases hpending⟩
  unfold Projection.flush
  split
  · rename_i event data hpending
    exact quiet_concat h.closed (h.pending event data hpending :)
  · exact h.closed

theorem AllQuiet.pushClosed
    {p : Projection}
    (h : p.AllQuiet)
    {event : SseEvent}
    (hevent : Quiet event) :
    (p.pushClosed toStr event).AllQuiet :=
  ⟨quiet_concat h.flush.closed hevent, h.flush.pending⟩

theorem AllQuiet.openSegment
    {p : Projection}
    (h : p.AllQuiet)
    {event : SseEvent}
    (hevent : Quiet event)
    (data : Json)
    (text : String) :
    (p.openSegment toStr event data text).AllQuiet := by
  unfold Projection.openSegment
  split
  · exact ⟨h.flush.closed, by rintro _ _ ⟨⟩; exact hevent⟩
  · exact h.pushClosed hevent

theorem AllQuiet.pushFragment
    {p : Projection}
    (h : p.AllQuiet)
    {event : SseEvent}
    (hevent : Quiet event)
    (data : Json)
    (text : String) :
    (p.pushFragment toStr event data text).AllQuiet := by
  unfold Projection.pushFragment
  split
  · rename_i prior priorData hpending
    split
    · exact ⟨h.closed, by rintro _ _ ⟨⟩; exact h.pending prior priorData hpending⟩
    · exact h.openSegment hevent data text
  · exact h.openSegment hevent data text

theorem AllQuiet.push
    {p : Projection}
    (h : p.AllQuiet)
    (event : SseEvent) :
    (p.push fromStr toStr event).AllQuiet := by
  unfold Projection.push
  split
  · exact h
  · have hcounted : AllQuiet { p with
        bytes := p.bytes + (event.data.utf8ByteSize + 512) } := ⟨h.closed, h.pending⟩
    dsimp only
    split
    · exact ⟨fun _ hmem => absurd hmem List.not_mem_nil, nofun⟩
    · split
      · exact ⟨h.closed, h.pending⟩
      · rename_i htype
        split
        · exact hcounted.pushFragment htype _ _
        · exact hcounted.pushClosed htype

theorem quiet_materialize
    (budget : Option Nat)
    (events : List SseEvent) :
    ∀ event ∈ (ofEvents fromStr toStr budget events).materialize toStr, Quiet event := by
  have hall : ∀ p : Projection, p.AllQuiet →
      (events.foldl (Projection.push fromStr toStr) p).AllQuiet := by
    induction events with
    | nil => exact fun _ h => h
    | cons event events ih => exact fun p h => ih _ (h.push event)
  exact (hall _ ⟨fun _ hmem => absurd hmem List.not_mem_nil,
    fun _ _ => by rintro ⟨⟩⟩).flush.closed

end Projection

namespace DeltaFolder

/-- No provider token is kept. -/
structure AllQuiet (d : DeltaFolder) : Prop where
  output : ∀ event ∈ d.output, Quiet event
  pending : ∀ event data merged, d.pending = some (event, data, merged) → Quiet event

theorem AllQuiet.flush
    {d : DeltaFolder}
    (h : d.AllQuiet) :
    ∀ event ∈ (d.flush toStr).output, Quiet event := by
  unfold DeltaFolder.flush
  split
  · rename_i event data merged hpending
    refine quiet_concat h.output ?_
    split <;> exact h.pending event data merged hpending
  · exact h.output

theorem AllQuiet.push
    {d : DeltaFolder}
    (h : d.AllQuiet)
    (event : SseEvent) :
    (d.push fromStr toStr event).AllQuiet := by
  unfold DeltaFolder.push
  split
  · exact h
  · rename_i htype
    split
    · split
      · rename_i prior priorData merged hpending
        split
        · exact ⟨h.output, by rintro _ _ _ ⟨⟩; exact h.pending prior priorData merged hpending⟩
        · exact ⟨h.flush, by rintro _ _ _ ⟨⟩; exact htype⟩
      · exact ⟨h.output, by rintro _ _ _ ⟨⟩; exact htype⟩
    · refine ⟨quiet_concat h.flush htype, fun _ _ _ hpending => ?_⟩
      rw [(flush_spec d).1] at hpending
      cases hpending

theorem quiet_coalesceDeltas (events : List SseEvent) :
    ∀ event ∈ coalesceDeltas fromStr toStr events, Quiet event := by
  have hall : ∀ d : DeltaFolder, d.AllQuiet →
      (events.foldl (DeltaFolder.push fromStr toStr) d).AllQuiet := by
    induction events with
    | nil => exact fun _ h => h
    | cons event events ih => exact fun d h => ih _ (h.push event)
  exact (hall _ ⟨fun _ hmem => absurd hmem List.not_mem_nil,
    fun _ _ _ => by rintro ⟨⟩⟩).flush

end DeltaFolder

end Quiet

/-! ## Descriptions of a run -/

section Describes

variable (fromStr : String → Option Json)

/-- A run with its fragments joined without a limit. -/
def describe (events : List SseEvent) : List (Fragment ⊕ SseEvent) :=
  merge Fragment.same Fragment.join (pieces fromStr events)

/-- An event that no folder touches. -/
def isOther (event : SseEvent) : Bool :=
  Quiet event && (fragmentOf fromStr event).isNone

/-- Where an event stands: what a segment takes from its last fragment. -/
def SseEvent.position (event : SseEvent) : Int × String × String × Int × Int :=
  (event.idx, event.eventId, event.timestamp, event.sessionIdx, event.runSequence)

/-- A canonical delta declares the length of its text. -/
def DeclaresContent (event : SseEvent) : Prop :=
  ∀ found, fragmentOf fromStr event = some found → isCanonical found.1 = true →
    natField found.1 "content_bytes" = some found.2.utf8ByteSize

/-- The second list tells the run of the first one. -/
structure Describes (events out : List SseEvent) : Prop where
  described : describe fromStr out = describe fromStr events
  segments : Segments Fragment.same Fragment.join (pieces fromStr events) (pieces fromStr out)
  spelled : ∀ g, .inl g ∈ describe fromStr out →
    ∃ run : List Fragment, run.map Sum.inl <:+: pieces fromStr events ∧
      g.text = String.join (run.map Fragment.text)
  declared : ∀ g, .inl g ∈ pieces fromStr out ∨ .inl g ∈ describe fromStr out →
    isCanonical g.value = true →
    natField g.value "content_bytes" = some g.text.utf8ByteSize
  others : out.filter (isOther fromStr) = events.filter (isOther fromStr)
  quiet : ∀ event ∈ out, Quiet event
  position : out.getLast?.map SseEvent.position =
    (events.filter fun event => Quiet event).getLast?.map SseEvent.position

variable {fromStr}

def piecePosition : Fragment ⊕ SseEvent → Int × String × String × Int × Int
  | .inl f => f.header.position
  | .inr event => event.position

theorem map_piecePosition (events : List SseEvent) :
    (pieces fromStr events).map piecePosition =
      (events.filter fun event => Quiet event).map SseEvent.position := by
  induction events with
  | nil => rfl
  | cons event events ih =>
      rw [pieces_cons, List.map_append, ih, List.filter_cons]
      rcases @readEvent_cases fromStr event with
        ⟨hread, htype⟩ | ⟨data, hread, -, htype⟩ | hread
      · rw [hread, if_neg (by simp [Quiet, htype])]
        rfl
      · have hquiet : Quiet event := not_textDelta htype
        rw [hread, if_pos (decide_eq_true hquiet)]
        rfl
      · have hquiet : Quiet event := by
          intro htype
          rw [readEvent, if_pos htype] at hread
          cases hread
        rw [hread, if_pos (decide_eq_true hquiet)]
        rfl

theorem filterMap_getRight?_pieces (events : List SseEvent) :
    (pieces fromStr events).filterMap Sum.getRight? = events.filter (isOther fromStr) := by
  induction events with
  | nil => rfl
  | cons event events ih =>
      rw [pieces_cons, List.filterMap_append, ih, List.filter_cons, isOther]
      unfold readEvent
      by_cases htype : event.eventType = "text_delta"
      · simp [htype, Quiet]
      · rw [if_neg htype]
        cases hfragment : fragmentOf fromStr event <;> simp [Quiet, htype]

/-- The last piece of a run and that of its segments stand at one position. -/
theorem getLast?_position
    {xs ys : List (Fragment ⊕ SseEvent)}
    (h : Segments Fragment.same Fragment.join xs ys) :
    (xs.map piecePosition).getLast? = (ys.map piecePosition).getLast? := by
  have hlast : ∀ (zs : List (Fragment ⊕ SseEvent)) s,
      zs.foldl (fun _ piece => some (piecePosition piece)) s =
        (zs.map piecePosition).getLast?.or s := by
    intro zs
    induction zs with
    | nil => exact fun _ => rfl
    | cons z zs ih =>
        intro s
        rw [List.foldl_cons, ih, List.map_cons, List.getLast?_cons]
        cases (zs.map piecePosition).getLast? <;> rfl
  have hfold : xs.foldl (fun _ piece => some (piecePosition piece)) none =
      ys.foldl (fun _ piece => some (piecePosition piece)) none :=
    h.foldl_eq (fun _ _ _ _ => rfl) none
  rwa [hlast, hlast, Option.or_none, Option.or_none] at hfold

/-- The text of a chain is the text of its fragments. -/
theorem text_joinAll
    {f : Fragment}
    {fs : List Fragment}
    (hf : textOf f.value ≠ none) :
    (joinAll Fragment.join f fs).text = String.join ((f :: fs).map Fragment.text) := by
  induction fs generalizing f with
  | nil => simp
  | cons g gs ih =>
      have htext : textOf (f.join g).value ≠ none := by
        rw [Fragment.join, textOf_appendText hf]
        exact Option.some_ne_none _
      rw [joinAll_cons, ih htext, List.map_cons, List.map_cons, List.map_cons,
        String.join_cons, String.join_cons, String.join_cons, Fragment.text_join hf,
        String.append_assoc]

theorem declaresLength_of_mem
    {events : List SseEvent}
    (hdeclares : ∀ event ∈ events, DeclaresContent fromStr event)
    {f : Fragment}
    (hf : .inl f ∈ pieces fromStr events) :
    f.DeclaresLength := by
  obtain ⟨event, hevent, hread⟩ := List.mem_filterMap.1 hf
  unfold readEvent at hread
  split at hread
  · cases hread
  · split at hread
    · rename_i data text hfragment
      obtain rfl := Sum.inl.inj (Option.some.inj hread)
      have htext := (fragmentOf_eq_some_iff.1 hfragment).2.2
      refine ⟨by rw [fragment, htext]; exact Option.some_ne_none _, fun hcanonical => ?_⟩
      rw [text_fragment htext]
      exact hdeclares event hevent _ hfragment hcanonical
    · cases hread

/-- Segments of a run whose canonical deltas declare their lengths describe it. -/
theorem describes_of_segments
    {events out : List SseEvent}
    (hdeclares : ∀ event ∈ events, DeclaresContent fromStr event)
    (hquiet : ∀ event ∈ out, Quiet event)
    (h : Segments Fragment.same Fragment.join (pieces fromStr events) (pieces fromStr out)) :
    Describes fromStr events out := by
  have hgood : ∀ f, .inl f ∈ pieces fromStr events → f.DeclaresLength :=
    fun f hf => declaresLength_of_mem hdeclares hf
  have hdescribed : describe fromStr out = describe fromStr events :=
    (h.merge_eq Fragment.streamLaws hgood).symm
  have hmerged : Segments Fragment.same Fragment.join (pieces fromStr events)
      (describe fromStr out) := by
    rw [hdescribed]
    exact Segments.merge _
  have hrun : ∀ ys, Segments Fragment.same Fragment.join (pieces fromStr events) ys →
      ∀ g, .inl g ∈ ys → g.DeclaresLength ∧
        ∃ run : List Fragment, run.map Sum.inl <:+: pieces fromStr events ∧
          g.text = String.join (run.map Fragment.text) := by
    intro ys hys g hg
    obtain ⟨f, fs, hchain, hwithin, rfl⟩ := hys.exists_run hg
    have hmem : ∀ g ∈ f :: fs, g.DeclaresLength := fun g hg =>
      hgood g (hwithin.subset (List.mem_map_of_mem hg))
    obtain ⟨hf, hfs⟩ := List.forall_mem_cons.1 hmem
    exact ⟨(Fragment.streamLaws.joinAll_spec hf hfs hchain).1, f :: fs, hwithin,
      text_joinAll hf.hasText⟩
  refine ⟨hdescribed, h, fun g hg => (hrun _ hmerged g hg).2, fun g hg => ?_, ?_, hquiet, ?_⟩
  · rcases hg with hg | hg
    · exact (hrun _ h g hg).1.declared
    · exact (hrun _ hmerged g hg).1.declared
  · rw [← filterMap_getRight?_pieces, ← filterMap_getRight?_pieces, h.others_eq]
  · have hposition := getLast?_position h
    have hall : out.filter (fun event => Quiet event) = out :=
      List.filter_eq_self.2 fun event hevent => by simpa using hquiet event hevent
    rw [map_piecePosition, map_piecePosition, hall, List.getLast?_map, List.getLast?_map]
      at hposition
    exact hposition.symm

/-! ## The view and the fold -/

variable (fromStr)

/-- What is shown of a run: without canonical content, not the arguments it repeats. -/
def shown (events out : List SseEvent) : List SseEvent :=
  if hasCanonical fromStr events then out else stripRepeatedToolArguments fromStr out

variable {fromStr}
variable {toStr : Json → String}

theorem mem_of_mem_strip
    {events : List SseEvent}
    {event : SseEvent}
    (h : event ∈ stripRepeatedToolArguments fromStr events) :
    event ∈ events := by
  rw [stripRepeatedToolArguments_eq] at h
  exact (List.mem_filter.1 h).1

/-- What is shown of a run's segments describes what is shown of the run. -/
theorem describes_shown
    {events out : List SseEvent}
    (hdeclares : ∀ event ∈ events, DeclaresContent fromStr event)
    (hquiet : ∀ event ∈ out, Quiet event)
    (h : Segments Fragment.same Fragment.join (pieces fromStr events) (pieces fromStr out)) :
    Describes fromStr (shown fromStr events events) (shown fromStr events out) := by
  unfold shown
  split
  · exact describes_of_segments hdeclares hquiet h
  · exact describes_of_segments (fun event hevent => hdeclares event (mem_of_mem_strip hevent))
      (fun event hevent => hquiet event (mem_of_mem_strip hevent)) (segments_strip h)

/--
The live view tells its run, and shows what the historical fold shows; and what is not
shown repeats a start, so that leaving it out twice leaves out no more.
-/
theorem live_view_describes_as_fold
    (codec : JsonCodec fromStr toStr)
    {budget : Option Nat}
    {events : List SseEvent}
    (hreprints : ∀ event ∈ events, EventReprints fromStr toStr event)
    (hdeclares : ∀ event ∈ events, DeclaresContent fromStr event)
    (hwithin : (Projection.ofEvents fromStr toStr budget events).overBudget = false) :
    (let view := (Projection.ofEvents fromStr toStr budget events).materialize toStr
     Describes fromStr events view ∧
     Describes fromStr (shown fromStr events events) (shown fromStr events view) ∧
     Describes fromStr (shown fromStr events events) (foldEvents fromStr toStr events) ∧
     describe fromStr (shown fromStr events view) =
       describe fromStr (foldEvents fromStr toStr events)) ∧
    ∀ given : List SseEvent,
      stripRepeatedToolArguments fromStr (stripRepeatedToolArguments fromStr given) =
        stripRepeatedToolArguments fromStr given ∧
      ∃ keep : SseEvent → Bool,
        stripRepeatedToolArguments fromStr given = given.filter keep ∧
        ∀ event, keep event = false → RepeatsStart fromStr given event := by
  have hview : Segments Fragment.same Fragment.join (pieces fromStr events)
      (pieces fromStr ((Projection.ofEvents fromStr toStr budget events).materialize toStr)) := by
    rw [pieces_materialize codec hreprints hwithin]
    exact (Segments.cutFrom _ _ _).1
  have hfold : Segments Fragment.same Fragment.join (pieces fromStr events)
      (pieces fromStr (coalesceDeltas fromStr toStr events)) := by
    rw [pieces_coalesceDeltas codec hreprints]
    exact (Segments.cutFrom _ _ _).1
  have hviewQuiet := @Projection.quiet_materialize fromStr toStr budget events
  have hshown := describes_shown hdeclares hviewQuiet hview
  have hfolded : Describes fromStr (shown fromStr events events)
      (foldEvents fromStr toStr events) :=
    describes_shown hdeclares (DeltaFolder.quiet_coalesceDeltas events) hfold
  refine ⟨⟨describes_of_segments hdeclares hviewQuiet hview, hshown, hfolded,
    hshown.described.trans hfolded.described.symm⟩, fun given =>
    ⟨stripRepeatedToolArguments_idem given, _, stripRepeatedToolArguments_eq given,
      fun event hdropped => repeatsStart_of_isRepeated.1 ?_⟩⟩
  rwa [Bool.not_eq_false'] at hdropped

end Describes

/-! ## A tool whose text is its arguments -/

section Sample

/-- The data of a fragment of the tool, and its text. -/
def sampleData (text : String) : Json :=
  .obj [("tool_id", .str "t"), ("text", .str text)]

def sampleOpening : String :=
  "\x7b\"tool_id\":\"t\",\"text\":\""

def sampleText (text : String) : String :=
  sampleOpening ++ text ++ "\"\x7d"

/-- The data of a start with the arguments `7`, and its text. -/
def sampleStart : Json :=
  .obj [("tool_id", .str "t"), ("tool_args", .num (.posInt 7))]

def sampleStartText : String :=
  "\x7b\"tool_id\":\"t\",\"tool_args\":7\x7d"

/-- A canonical fragment that declares a wrong length, and its text. -/
def misdeclared : Json :=
  .obj [("content_key", .str "k"), ("content_offset", .num (.posInt 0)),
    ("content_bytes", .num (.posInt 9)), ("text", .str "a")]

def misdeclaredText : String :=
  "\x7b\"content_key\":\"k\",\"content_offset\":0,\"content_bytes\":9,\"text\":\"a\"\x7d"

/-- The text between the quotes of a fragment of the tool. -/
def sampleInner (s : String) : String :=
  String.ofList ((s.toList.drop 23).reverse.drop 2).reverse

def sampleFromStr (s : String) : Option Json :=
  if sampleText (sampleInner s) = s then some (sampleData (sampleInner s))
  else if s = "7" then some (.num (.posInt 7))
  else if s = sampleStartText then some sampleStart
  else if s = misdeclaredText then some misdeclared
  else none

def sampleToStr (data : Json) : String :=
  match textOf data with
  | some text => sampleText text
  | none => if data = sampleStart then sampleStartText else "7"

theorem sampleFromStr_sampleText (text : String) :
    sampleFromStr (sampleText text) = some (sampleData text) := by
  have hchars : (sampleText text).toList =
      sampleOpening.toList ++ (text.toList ++ ['"', '\x7d']) := by
    have hquote : "\"\x7d".toList = ['"', '\x7d'] := by decide
    rw [sampleText, String.toList_append, String.toList_append, List.append_assoc, hquote]
  have hinner : sampleInner (sampleText text) = text := by
    rw [sampleInner, hchars, List.drop_left' (by decide), List.reverse_append]
    simp
  unfold sampleFromStr
  rw [hinner, if_pos rfl]

theorem sampleCodec : JsonCodec sampleFromStr sampleToStr where
  setText := by
    intro v hv htext text
    obtain ⟨t, ht⟩ := Option.ne_none_iff_exists'.1 htext
    unfold Reprints sampleToStr at hv
    rw [ht, sampleFromStr_sampleText] at hv
    obtain rfl := Option.some.inj hv
    exact sampleFromStr_sampleText text
  setBytes := by
    intro v hv hcanonical
    exfalso
    unfold Reprints sampleToStr at hv
    cases htext : textOf v with
    | some t =>
        rw [htext, sampleFromStr_sampleText] at hv
        obtain rfl := Option.some.inj hv
        cases hcanonical
    | none =>
        rw [htext] at hv
        dsimp only at hv
        split at hv
        · rename_i hstart
          rw [hstart] at hcanonical
          revert hcanonical
          decide
        · have hseven : sampleFromStr "7" = some (.num (.posInt 7)) := by decide +kernel
          rw [hseven] at hv
          obtain rfl := Option.some.inj hv
          revert hcanonical
          decide

instance (event : SseEvent) : Decidable (EventReprints sampleFromStr sampleToStr event) :=
  inferInstanceAs (Decidable (∀ found ∈ fragmentOf sampleFromStr event,
    sampleFromStr (sampleToStr found.1) = some found.1))

instance (event : SseEvent) : Decidable (DeclaresContent sampleFromStr event) :=
  inferInstanceAs (Decidable (∀ found ∈ fragmentOf sampleFromStr event,
    isCanonical found.1 = true →
      natField found.1 "content_bytes" = some found.2.utf8ByteSize))

def sampleEvent (eventType data : String) (idx : Int) : SseEvent where
  eventType := eventType
  data := data
  runId := "run"
  epoch := 1
  idx := idx
  sessionId := "session"
  eventId := ""
  timestamp := ""
  sessionIdx := idx
  runSequence := idx

/-- A provider token, the arguments in two fragments, and the start that repeats them. -/
def sampleRun : List SseEvent :=
  [sampleEvent "text_delta" (sampleText "x") 0, sampleEvent "tool_delta" (sampleText "") 1,
    sampleEvent "tool_delta" (sampleText "7") 2, sampleEvent "tool_start" sampleStartText 3]

theorem live_view_describes_as_fold_sample :
    describe sampleFromStr (shown sampleFromStr sampleRun
        ((Projection.ofEvents sampleFromStr sampleToStr (some 4096) sampleRun).materialize
          sampleToStr)) =
      describe sampleFromStr (foldEvents sampleFromStr sampleToStr sampleRun) ∧
    foldEvents sampleFromStr sampleToStr sampleRun =
      [sampleEvent "tool_start" sampleStartText 3] :=
  ⟨(live_view_describes_as_fold sampleCodec (by decide +kernel) (by decide +kernel)
    (by decide +kernel)).1.2.2.2, by decide +kernel⟩

/--
The live view itself keeps the arguments that the fold drops; and a length that is wrong
in one fragment is wrong in both.
-/
theorem live_view_keeps_repeated_arguments :
    (Projection.ofEvents sampleFromStr sampleToStr none sampleRun).overBudget = false ∧
    describe sampleFromStr
        ((Projection.ofEvents sampleFromStr sampleToStr none sampleRun).materialize
          sampleToStr) ≠
      describe sampleFromStr (foldEvents sampleFromStr sampleToStr sampleRun) ∧
    ∃ g, .inl g ∈ describe sampleFromStr (foldEvents sampleFromStr sampleToStr
        [sampleEvent "text_chunk" misdeclaredText 0]) ∧
      isCanonical g.value = true ∧
      natField g.value "content_bytes" ≠ some g.text.utf8ByteSize := by
  refine ⟨by decide +kernel, fun heq => ?_, ?_⟩
  · have hlength := congrArg List.length heq
    revert hlength
    decide +kernel
  · refine ⟨fragment (sampleEvent "text_chunk" misdeclaredText 0) misdeclared, ?_, ?_, ?_⟩
    · have hfold : describe sampleFromStr (foldEvents sampleFromStr sampleToStr
          [sampleEvent "text_chunk" misdeclaredText 0]) =
          [.inl (fragment (sampleEvent "text_chunk" misdeclaredText 0) misdeclared)] := by
        decide +kernel
      rw [hfold]
      exact List.mem_singleton_self _
    · decide +kernel
    · decide +kernel

end Sample

end Broadcast
end FutureOs
