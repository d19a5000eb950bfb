import FutureOs.Broadcast.DeltaStreams

/-!
# What the two folders write

Both write the events they are given in segments: `pieces_materialize` for the live
projection, while it is within its budget, and `pieces_coalesceDeltas` for the folder.
They differ in where they cut, which merging forgets.
-/

namespace FutureOs
namespace Broadcast

/-- The value is printed so that it reads the same, as all are without floating point. -/
def Reprints (fromStr : String → Option Json) (toStr : Json → String) (data : Json) : Prop :=
  fromStr (toStr data) = some data

/-- What `serde_json` promises: of a value that reads as it is printed, the text or the
length may be replaced. -/
structure JsonCodec (fromStr : String → Option Json) (toStr : Json → String) : Prop where
  setText : ∀ {v}, Reprints fromStr toStr v → textOf v ≠ none →
    ∀ t, Reprints fromStr toStr (v.put "text" (.str t))
  setBytes : ∀ {v}, Reprints fromStr toStr v → isCanonical v = true →
    ∀ n < 2 ^ 64, Reprints fromStr toStr (v.put "content_bytes" (.num (.posInt n)))

section Reading

variable (fromStr : String → Option Json)

/-- The fragment of an event with its data read. -/
def fragment (event : SseEvent) (data : Json) : Fragment where
  header := { event with data := "" }
  value := data

/-- An event as it is read: a fragment, another event, or a duplicate that nobody reads. -/
def readEvent (event : SseEvent) : Option (Fragment ⊕ SseEvent) :=
  if event.eventType = "text_delta" then
    none
  else
    match fragmentOf fromStr event with
    | some (data, _) => some (.inl (fragment event data))
    | none => some (.inr event)

def pieces (events : List SseEvent) : List (Fragment ⊕ SseEvent) :=
  events.filterMap (readEvent fromStr)

variable {fromStr}

theorem text_fragment
    {event : SseEvent}
    {data : Json}
    {text : String}
    (h : textOf data = some text) :
    (fragment event data).text = text := by
  rw [Fragment.text, fragment, h]
  rfl

theorem pieces_append (events events' : List SseEvent) :
    pieces fromStr (events ++ events') = pieces fromStr events ++ pieces fromStr events' :=
  List.filterMap_append

theorem pieces_cons (event : SseEvent) (events : List SseEvent) :
    pieces fromStr (event :: events) =
      (readEvent fromStr event).toList ++ pieces fromStr events := by
  unfold pieces
  cases h : readEvent fromStr event <;> simp [h]

theorem fragmentOf_eq_some_iff
    {event : SseEvent}
    {data : Json}
    {text : String} :
    fragmentOf fromStr event = some (data, text) ↔
      event.eventType ∈ deltaTypes ∧ fromStr event.data = some data ∧
        textOf data = some text := by
  unfold fragmentOf
  by_cases htype : event.eventType ∈ deltaTypes
  · rw [if_pos htype]
    cases hdata : fromStr event.data with
    | none => simp
    | some v =>
        cases htext : textOf v with
        | none =>
            simp only [Option.bind_some, htext, Option.map_none, Option.some.injEq]
            exact iff_of_false nofun fun h => by rw [← h.2.1, htext] at h; cases h.2.2
        | some t =>
            simp only [Option.bind_some, htext, Option.map_some, Option.some.injEq,
              Prod.mk.injEq]
            constructor
            · rintro ⟨rfl, rfl⟩
              exact ⟨htype, rfl, htext⟩
            · rintro ⟨-, rfl, htext'⟩
              exact ⟨rfl, Option.some.inj (htext.symm.trans htext')⟩
  · rw [if_neg htype]
    exact iff_of_false nofun fun h => htype h.1

theorem not_textDelta
    {event : SseEvent}
    (h : event.eventType ∈ deltaTypes) :
    event.eventType ≠ "text_delta" := by
  intro heq
  rw [heq] at h
  revert h
  decide

/-- A delta whose text is read is a fragment. -/
theorem readEvent_fragment
    {event : SseEvent}
    {data : Json}
    (htype : event.eventType ∈ deltaTypes)
    (hdata : fromStr event.data = some data)
    (htext : textOf data ≠ none) :
    readEvent fromStr event = some (.inl (fragment event data)) := by
  obtain ⟨text, htext⟩ := Option.ne_none_iff_exists'.1 htext
  unfold readEvent
  rw [if_neg (not_textDelta htype), fragmentOf_eq_some_iff.2 ⟨htype, hdata, htext⟩]

end Reading

section Writing

variable {fromStr : String → Option Json}
variable {toStr : Json → String}

theorem JsonCodec.reprints_appendText
    (codec : JsonCodec fromStr toStr)
    {data : Json}
    (hdata : Reprints fromStr toStr data)
    (htext : textOf data ≠ none)
    {text : String}
    (hsize : isCanonical data = true → textLen data + text.utf8ByteSize < 2 ^ 64) :
    Reprints fromStr toStr (appendText data text) := by
  have hput := codec.setText hdata htext ((textOf data).getD "" ++ text)
  unfold appendText
  dsimp only
  split
  · rename_i hcanonical
    refine codec.setBytes hput ?_ _ (hsize hcanonical)
    unfold isCanonical at hcanonical ⊢
    rwa [Json.get?_put_of_ne (by decide)]
  · exact hput

/-- The deltas of an event read as they are printed. -/
def EventReprints (fromStr : String → Option Json) (toStr : Json → String)
    (event : SseEvent) : Prop :=
  ∀ found, fragmentOf fromStr event = some found → Reprints fromStr toStr found.1

/-- A segment as it will be written is read as the segment. -/
theorem Reprints.readEvent_printed
    {event : SseEvent}
    {data : Json}
    (hdata : Reprints fromStr toStr data)
    (htype : event.eventType ∈ deltaTypes)
    (htext : textOf data ≠ none) :
    readEvent fromStr { event with data := toStr data } = some (.inl (fragment event data)) :=
  @readEvent_fragment fromStr { event with data := toStr data } data htype hdata htext

/-! ## The live projection -/

namespace Projection

def fits (p f : Fragment) : Bool :=
  textLen p.value + f.text.utf8ByteSize ≤ projectionSegmentBytes

def holds (f : Fragment) : Bool :=
  f.text.utf8ByteSize ≤ projectionSegmentBytes

/-- The growing segment. -/
def growing (p : Projection) : Option Fragment :=
  p.pending.map fun segment => fragment segment.1 segment.2

/-- The growing segment can be written. -/
def Writable (fromStr : String → Option Json) (toStr : Json → String)
    (p : Projection) : Prop :=
  ∀ event data, p.pending = some (event, data) →
    event.eventType ∈ deltaTypes ∧ Reprints fromStr toStr data ∧ textOf data ≠ none

theorem pieces_flush
    {p : Projection}
    (hp : p.Writable fromStr toStr) :
    pieces fromStr (p.flush toStr).closed =
      pieces fromStr p.closed ++ p.growing.toList.map Sum.inl := by
  unfold flush growing
  cases hpending : p.pending with
  | none => simp
  | some segment =>
      obtain ⟨event, data⟩ := segment
      obtain ⟨htype, hdata, htext⟩ := hp event data hpending
      dsimp only
      rw [pieces_append, pieces_cons, hdata.readEvent_printed htype htext]
      rfl

/-- What is read of a projection that goes on with the events `xs`. -/
def written (fromStr : String → Option Json) (p : Projection)
    (xs : List (Fragment ⊕ SseEvent)) : List (Fragment ⊕ SseEvent) :=
  pieces fromStr p.closed ++ cutFrom Fragment.same Fragment.join fits holds p.growing xs

@[simp] theorem pending_flush (p : Projection) : (p.flush toStr).pending = none := by
  unfold flush
  split
  · rfl
  · assumption

theorem writable_of_none
    {p : Projection}
    (h : p.pending = none) :
    p.Writable fromStr toStr := by
  intro event data hsome
  rw [h] at hsome
  cases hsome

/-- A closed event comes after the growing segment. -/
theorem pushClosed_spec
    {p : Projection}
    (hp : p.Writable fromStr toStr)
    (event : SseEvent)
    (xs : List (Fragment ⊕ SseEvent)) :
    (p.pushClosed toStr event).written fromStr xs =
      pieces fromStr p.closed ++ (p.growing.toList.map Sum.inl ++
        ((readEvent fromStr event).toList ++
          cutFrom Fragment.same Fragment.join fits holds none xs)) := by
  have hnone : (p.pushClosed toStr event).growing = none :=
    congrArg (Option.map _) (pending_flush p)
  rw [written, hnone, pushClosed, pieces_append, pieces_flush hp, pieces_cons]
  simp [pieces]

/-- A fragment that does not join the growing segment. -/
theorem openSegment_spec
    {p : Projection}
    (hp : p.Writable fromStr toStr)
    {event : SseEvent}
    (hevent : EventReprints fromStr toStr event)
    {data : Json}
    {text : String}
    (hfragment : fragmentOf fromStr event = some (data, text))
    (hapart : ∀ q ∈ p.growing,
      (fits q (fragment event data) && q.same (fragment event data)) = false) :
    (p.openSegment toStr event data text).Writable fromStr toStr ∧
    ∀ xs, (p.openSegment toStr event data text).written fromStr xs =
      p.written fromStr (.inl (fragment event data) :: xs) := by
  obtain ⟨htype, hdata, htext⟩ := fragmentOf_eq_some_iff.1 hfragment
  have hsome : textOf data ≠ none := by
    rw [htext]
    nofun
  unfold openSegment
  split
  · rename_i hholds
    refine ⟨?_, fun xs => ?_⟩
    · rintro _ _ ⟨⟩
      exact ⟨htype, hevent _ hfragment, hsome⟩
    · rw [written, written, cutFrom_inl_apart _ _ hapart,
        if_pos (by rw [holds, text_fragment htext]; exact decide_eq_true hholds)]
      dsimp only
      rw [pieces_flush hp, List.append_assoc]
      rfl
  · rename_i hlong
    refine ⟨writable_of_none (pending_flush p), fun xs => ?_⟩
    rw [pushClosed_spec hp, written, cutFrom_inl_apart _ _ hapart,
      readEvent_fragment htype hdata hsome,
      if_neg (by rw [holds, text_fragment htext, decide_eq_true_eq]; exact hlong)]
    rfl

theorem pushFragment_spec
    (codec : JsonCodec fromStr toStr)
    {p : Projection}
    (hp : p.Writable fromStr toStr)
    {event : SseEvent}
    (hevent : EventReprints fromStr toStr event)
    {data : Json}
    {text : String}
    (hfragment : fragmentOf fromStr event = some (data, text)) :
    (p.pushFragment toStr event data text).Writable fromStr toStr ∧
    ∀ xs, (p.pushFragment toStr event data text).written fromStr xs =
      p.written fromStr (.inl (fragment event data) :: xs) := by
  have htext := (fragmentOf_eq_some_iff.1 hfragment).2.2
  unfold pushFragment
  split
  · rename_i prior priorData hpending
    obtain ⟨hprior, hpriorData, hpriorText⟩ := hp _ _ hpending
    have hgrowing : p.growing = some (fragment prior priorData) := by
      rw [growing, hpending]
      rfl
    have hjoins : (fits (fragment prior priorData) (fragment event data) &&
          (fragment prior priorData).same (fragment event data)) = true ↔
        textLen priorData + text.utf8ByteSize ≤ projectionSegmentBytes ∧
          sameDeltaStream prior event priorData data = true := by
      rw [Bool.and_eq_true, fits, text_fragment htext, decide_eq_true_eq]
      rfl
    split
    · rename_i hjoined
      refine ⟨?_, fun xs => ?_⟩
      · rintro _ _ ⟨⟩
        refine ⟨hprior, codec.reprints_appendText hpriorData hpriorText fun _ => ?_, ?_⟩
        · exact lt_of_le_of_lt hjoined.1 (by decide)
        · rw [textOf_appendText hpriorText]
          nofun
      · rw [written, written, hgrowing, cutFrom_inl_joined _ _ (hjoins.2 hjoined),
          Fragment.join, text_fragment htext]
        rfl
    · rename_i hapart
      refine openSegment_spec hp hevent hfragment fun q hq => ?_
      rw [hgrowing] at hq
      obtain rfl := Option.some.inj hq
      exact Bool.eq_false_iff.2 (mt hjoins.1 hapart)
  · rename_i hpending
    refine openSegment_spec hp hevent hfragment fun q hq => ?_
    rw [growing, hpending] at hq
    cases hq

/-- One event, within the budget. -/
theorem push_spec
    (codec : JsonCodec fromStr toStr)
    {p : Projection}
    (hp : p.Writable fromStr toStr)
    {event : SseEvent}
    (hevent : EventReprints fromStr toStr event)
    (hwithin : (p.push fromStr toStr event).overBudget = false) :
    (p.push fromStr toStr event).Writable fromStr toStr ∧
    ∀ xs, (p.push fromStr toStr event).written fromStr xs =
      p.written fromStr ((readEvent fromStr event).toList ++ xs) := by
  unfold push at hwithin ⊢
  split
  · rename_i hover
    rw [if_pos hover, hover] at hwithin
    cases hwithin
  · dsimp only at hwithin ⊢
    split
    · rename_i hexceeded
      rename_i hover
      rw [if_neg hover, if_pos hexceeded] at hwithin
      cases hwithin
    · unfold readEvent
      split
      · exact ⟨hp, fun xs => rfl⟩
      · rename_i htype
        cases hfragment : fragmentOf fromStr event with
        | some found =>
            obtain ⟨data, text⟩ := found
            exact pushFragment_spec (p := { p with
              bytes := p.bytes + (event.data.utf8ByteSize + 512) }) codec hp hevent hfragment
        | none =>
            refine ⟨writable_of_none (pending_flush _), fun xs => ?_⟩
            have hclosed := pushClosed_spec (p := { p with
              bytes := p.bytes + (event.data.utf8ByteSize + 512) }) hp event xs
            rw [readEvent, if_neg htype, hfragment] at hclosed
            exact hclosed.trans
              (congrArg (pieces fromStr p.closed ++ ·) (cutFrom_inr _ _ _ _ _).symm)

/-- A projection that is over its budget stays so. -/
theorem overBudget_of_push
    {p : Projection}
    {event : SseEvent}
    (h : (p.push fromStr toStr event).overBudget = false) :
    p.overBudget = false := by
  by_contra hover
  rw [Bool.not_eq_false] at hover
  rw [push, if_pos hover, hover] at h
  cases h

theorem overBudget_of_foldl
    (events : List SseEvent)
    {p : Projection}
    (h : (events.foldl (push fromStr toStr) p).overBudget = false) :
    p.overBudget = false := by
  induction events generalizing p with
  | nil => exact h
  | cons event events ih => exact overBudget_of_push (ih h)

/-- Within the budget, what is read of a run's projection is the run in small segments. -/
theorem written_run
    (codec : JsonCodec fromStr toStr)
    {events : List SseEvent}
    (hevents : ∀ event ∈ events, EventReprints fromStr toStr event)
    {p : Projection}
    (hp : p.Writable fromStr toStr)
    (hwithin : (events.foldl (push fromStr toStr) p).overBudget = false) :
    pieces fromStr ((events.foldl (push fromStr toStr) p).materialize toStr) =
      p.written fromStr (pieces fromStr events) := by
  induction events generalizing p with
  | nil => exact pieces_flush hp
  | cons event events ih =>
      rw [List.foldl_cons] at hwithin ⊢
      obtain ⟨hwritable, hwritten⟩ := push_spec codec hp (hevents event List.mem_cons_self)
        (overBudget_of_foldl events hwithin)
      rw [ih (fun e he => hevents e (List.mem_cons_of_mem _ he)) hwritable hwithin, hwritten,
        pieces_cons]

end Projection

/-- The live view is the run in segments. -/
theorem pieces_materialize
    (codec : JsonCodec fromStr toStr)
    {budget : Option Nat}
    {events : List SseEvent}
    (hevents : ∀ event ∈ events, EventReprints fromStr toStr event)
    (hwithin : (Projection.ofEvents fromStr toStr budget events).overBudget = false) :
    pieces fromStr ((Projection.ofEvents fromStr toStr budget events).materialize toStr) =
      cutFrom Fragment.same Fragment.join Projection.fits Projection.holds none
        (pieces fromStr events) :=
  Projection.written_run codec hevents (Projection.writable_of_none rfl) hwithin

/-! ## The folder -/

namespace DeltaFolder

def fits (bounded : Bool) (p f : Fragment) : Bool :=
  grows bounded p.value f.text

/-- The growing segment. -/
def growing (d : DeltaFolder) : Option Fragment :=
  d.pending.map fun segment => fragment segment.1 segment.2.1

/-- The growing segment can be written: it is an event as it came, or data to print. -/
def Writable (fromStr : String → Option Json) (toStr : Json → String)
    (d : DeltaFolder) : Prop :=
  ∀ event data merged, d.pending = some (event, data, merged) →
    event.eventType ∈ deltaTypes ∧ textOf data ≠ none ∧ Reprints fromStr toStr data ∧
      (merged = false → fromStr event.data = some data)

/-- What is read of a folder that goes on with the events `xs`. -/
def written (fromStr : String → Option Json) (d : DeltaFolder)
    (xs : List (Fragment ⊕ SseEvent)) : List (Fragment ⊕ SseEvent) :=
  pieces fromStr d.output ++
    cutFrom Fragment.same Fragment.join (fits d.boundedSegments) (fun _ => true) d.growing xs

theorem pieces_flush
    {d : DeltaFolder}
    (hd : d.Writable fromStr toStr) :
    pieces fromStr (d.flush toStr).output =
      pieces fromStr d.output ++ d.growing.toList.map Sum.inl := by
  unfold flush growing
  cases hpending : d.pending with
  | none => simp
  | some segment =>
      obtain ⟨event, data, merged⟩ := segment
      obtain ⟨htype, htext, hdata, hraw⟩ := hd event data merged hpending
      dsimp only
      rw [pieces_append, pieces_cons]
      cases merged with
      | false =>
          rw [if_neg (by decide), readEvent_fragment htype (hraw rfl) htext]
          rfl
      | true =>
          rw [if_pos rfl, hdata.readEvent_printed htype htext]
          rfl

theorem flush_spec (d : DeltaFolder) :
    (d.flush toStr).pending = none ∧
      (d.flush toStr).boundedSegments = d.boundedSegments := by
  unfold flush
  split
  · exact ⟨rfl, rfl⟩
  · exact ⟨by assumption, rfl⟩

/-- A fragment that does not join the growing segment opens the next one. -/
theorem open_spec
    {d : DeltaFolder}
    (hd : d.Writable fromStr toStr)
    {event : SseEvent}
    (hevent : EventReprints fromStr toStr event)
    {data : Json}
    {text : String}
    (hfragment : fragmentOf fromStr event = some (data, text))
    (hapart : ∀ q ∈ d.growing, (fits d.boundedSegments q (fragment event data) &&
      q.same (fragment event data)) = false) :
    Writable fromStr toStr { d.flush toStr with pending := some (event, data, false) } ∧
    ∀ xs, written fromStr { d.flush toStr with pending := some (event, data, false) } xs =
      d.written fromStr (.inl (fragment event data) :: xs) := by
  obtain ⟨htype, hdata, htext⟩ := fragmentOf_eq_some_iff.1 hfragment
  refine ⟨?_, fun xs => ?_⟩
  · rintro _ _ _ ⟨⟩
    exact ⟨htype, by rw [htext]; nofun, hevent _ hfragment, fun _ => hdata⟩
  · rw [written, written, cutFrom_inl_apart _ _ hapart, if_pos rfl]
    dsimp only
    rw [pieces_flush hd, (flush_spec d).2, List.append_assoc]
    rfl

/-- A canonical segment that grows stays small. -/
theorem size_of_grows
    {bounded : Bool}
    {data : Json}
    {text : String}
    (h : grows bounded data text = true)
    (hcanonical : isCanonical data = true) :
    textLen data + text.utf8ByteSize < 2 ^ 64 := by
  rw [grows, hcanonical, Bool.not_true, Bool.and_false, Bool.false_or, decide_eq_true_eq] at h
  exact lt_of_le_of_lt h (by decide)

theorem push_spec
    (codec : JsonCodec fromStr toStr)
    {d : DeltaFolder}
    (hd : d.Writable fromStr toStr)
    {event : SseEvent}
    (hevent : EventReprints fromStr toStr event) :
    (d.push fromStr toStr event).Writable fromStr toStr ∧
    ∀ xs, (d.push fromStr toStr event).written fromStr xs =
      d.written fromStr ((readEvent fromStr event).toList ++ xs) := by
  unfold push readEvent
  split
  · exact ⟨hd, fun xs => rfl⟩
  · rename_i htype
    cases hfragment : fragmentOf fromStr event with
    | some found =>
        obtain ⟨data, text⟩ := found
        have htext := (fragmentOf_eq_some_iff.1 hfragment).2.2
        dsimp only
        split
        · rename_i prior priorData merged hpending
          obtain ⟨hprior, hpriorText, hpriorData, -⟩ := hd _ _ _ hpending
          have hgrowing : d.growing = some (fragment prior priorData) := by
            rw [growing, hpending]
            rfl
          have hjoins : (fits d.boundedSegments (fragment prior priorData)
                (fragment event data) &&
              (fragment prior priorData).same (fragment event data)) =
              (sameDeltaStream prior event priorData data &&
                grows d.boundedSegments priorData text) := by
            rw [fits, text_fragment htext, Bool.and_comm]
            rfl
          split
          · rename_i hjoined
            refine ⟨?_, fun xs => ?_⟩
            · rintro _ _ _ ⟨⟩
              refine ⟨hprior, ?_, codec.reprints_appendText hpriorData hpriorText ?_, by simp⟩
              · rw [textOf_appendText hpriorText]
                exact Option.some_ne_none _
              · exact size_of_grows (Bool.and_eq_true_iff.1 hjoined).2
            · rw [written, written, hgrowing, Option.toList_some, List.singleton_append,
                cutFrom_inl_joined _ _ (hjoins.trans hjoined), Fragment.join,
                text_fragment htext]
              rfl
          · rename_i hapart
            refine open_spec hd hevent hfragment fun q hq => ?_
            rw [hgrowing] at hq
            obtain rfl := Option.some.inj hq
            exact hjoins.trans (Bool.eq_false_iff.2 hapart)
        · rename_i hpending
          have hflush : d.flush toStr = d := by
            rw [flush, hpending]
          have hopen := open_spec hd hevent hfragment fun q hq => by
            rw [growing, hpending] at hq
            cases hq
          rwa [hflush] at hopen
    | none =>
        refine ⟨fun _ _ _ hsome => ?_, fun xs => ?_⟩
        · cases (flush_spec d).1.symm.trans hsome
        · have hnone : (d.flush toStr).growing = none :=
            congrArg (Option.map _) (flush_spec d).1
          rw [written, written, Option.toList_some, List.singleton_append, cutFrom_inr]
          dsimp only
          rw [pieces_append, pieces_flush hd, pieces_cons, readEvent, if_neg htype,
            hfragment, (flush_spec d).2]
          simp [growing, pieces, (flush_spec d).1]

/-- What is read of the folder's output is the run in segments. -/
theorem written_run
    (codec : JsonCodec fromStr toStr)
    {events : List SseEvent}
    (hevents : ∀ event ∈ events, EventReprints fromStr toStr event)
    {d : DeltaFolder}
    (hd : d.Writable fromStr toStr) :
    pieces fromStr ((events.foldl (push fromStr toStr) d).finish toStr) =
      d.written fromStr (pieces fromStr events) := by
  induction events generalizing d with
  | nil =>
      rw [List.foldl_nil, finish, pieces_flush hd]
      rfl
  | cons event events ih =>
      obtain ⟨hwritable, hwritten⟩ := push_spec codec hd (hevents event List.mem_cons_self)
      rw [List.foldl_cons, ih (fun e he => hevents e (List.mem_cons_of_mem _ he)) hwritable,
        hwritten, pieces_cons]

end DeltaFolder

/-- The folded run is the run in segments. -/
theorem pieces_coalesceDeltas
    (codec : JsonCodec fromStr toStr)
    {events : List SseEvent}
    (hevents : ∀ event ∈ events, EventReprints fromStr toStr event) :
    pieces fromStr (coalesceDeltas fromStr toStr events) =
      cutFrom Fragment.same Fragment.join (DeltaFolder.fits false) (fun _ => true) none
        (pieces fromStr events) :=
  DeltaFolder.written_run codec hevents fun _ _ _ hsome => nomatch hsome

end Writing

end Broadcast
end FutureOs
