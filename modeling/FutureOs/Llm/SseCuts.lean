import FutureOs.Llm.SseRun

/-!
# The grammar of a stream, and its cuts

The frames of a stream by its lines (`grammar`): a blank line ends an event, which is a frame
if it has an event or a data field.  Read byte by byte, a stream of valid lines within the
limits gives these (`run_grammar`).  A cut that loses nothing gives what every other such cut
gives (`sse_cut_free_iff`).
-/

namespace FutureOs
namespace Llm
namespace Sse

/-! ## The line grammar -/

/-- The lines of a stream without their line feeds; the last one may lack its own. -/
def lineBytes : Bytes → List Bytes
  | [] => []
  | b :: rest =>
      if b = lineFeed then
        [] :: lineBytes rest
      else
        match lineBytes rest with
        | [] => [[b]]
        | line :: lines => (b :: line) :: lines

/-- The lines as texts, if they are valid UTF-8. -/
def lineTexts (stream : Bytes) : Option (List Text) :=
  (lineBytes stream).mapM fun line => Utf8.fromUtf8 (stripReturn line)

/-- The fields of the lines of an event; comments have none. -/
def fieldsOf (lines : List Text) : List (String × String) :=
  (lines.filter fun line => line.head? ≠ some ':').map fun line =>
    splitField (String.ofList line)

/-- The last event field. -/
def eventOf (lines : List Text) : Option String :=
  (((fieldsOf lines).filter (·.1 = "event")).getLast?).map (·.2)

/-- All data fields. -/
def dataOf (lines : List Text) : List String :=
  ((fieldsOf lines).filter (·.1 = "data")).map (·.2)

def frameOf (lines : List Text) : Option SseFrame :=
  if eventOf lines = none ∧ dataOf lines = [] then
    none
  else
    some { event := eventOf lines, data := String.intercalate "\n" (dataOf lines) }

/-- Events are separated by blank lines. -/
def grammar (lines : List Text) : List SseFrame :=
  (lines.splitOnP (·.isEmpty)).filterMap frameOf

/-- The bytes of the lines of an event with their line feeds. -/
def eventSize (lines : List Text) : Nat :=
  (lines.map fun line => Utf8.size line + 1).sum

/-- No line and no event exceeds the limit. -/
structure WithinLimit (stream : Bytes) (lines : List Text) : Prop where
  line : ∀ line ∈ lineBytes stream, line.length + 1 ≤ maxEventBytes
  event : ∀ event ∈ lines.splitOnP (·.isEmpty), eventSize event ≤ maxEventBytes

section Lines

theorem lineBytes_line
    {line : Bytes}
    (h : lineFeed ∉ line)
    (rest : Bytes) :
    lineBytes (line ++ lineFeed :: rest) = line :: lineBytes rest := by
  induction line with
  | nil =>
      rfl
  | cons b line ih =>
      rw [List.mem_cons, not_or] at h
      rw [List.cons_append, lineBytes, if_neg (Ne.symm h.1), ih h.2]

theorem lineBytes_of_not_mem
    {line : Bytes}
    (h : lineFeed ∉ line)
    (hne : line ≠ []) :
    lineBytes line = [line] := by
  induction line with
  | nil =>
      exact absurd rfl hne
  | cons b line ih =>
      rw [List.mem_cons, not_or] at h
      rw [lineBytes, if_neg (Ne.symm h.1)]
      cases line with
      | nil =>
          rfl
      | cons b' line =>
          rw [ih h.2 (List.cons_ne_nil _ _)]

/-- The first line is no shorter than what is known of it. -/
theorem exists_first_line
    {line : Bytes}
    (h : lineFeed ∉ line)
    (hne : line ≠ [])
    (rest : Bytes) :
    ∃ first more, lineBytes (line ++ rest) = first :: more ∧ line.length ≤ first.length := by
  induction line with
  | nil =>
      exact absurd rfl hne
  | cons b line ih =>
      rw [List.mem_cons, not_or] at h
      rw [List.cons_append, lineBytes, if_neg (Ne.symm h.1)]
      cases line with
      | nil =>
          cases hrest : lineBytes ([] ++ rest) with
          | nil =>
              exact ⟨[b], [], rfl, Nat.le_refl _⟩
          | cons first more =>
              exact ⟨b :: first, more, rfl, Nat.succ_le_succ (Nat.zero_le _)⟩
      | cons b' line =>
          obtain ⟨first, more, hlines, hle⟩ := ih h.2 (List.cons_ne_nil _ _)
          rw [hlines]
          exact ⟨b :: first, more, rfl, Nat.succ_le_succ hle⟩

end Lines

/-- The lines one at a time, and the end. -/
def readLines (p : PendingEvent) : List Bytes → List SseFrame × Bool
  | [] => (p.finishFrame.2.toList, true)
  | line :: rest =>
      match p.takeLine line with
      | .error _ => ([], false)
      | .ok (p', frame) => (frame.toList ++ (readLines p' rest).1, (readLines p' rest).2)

section Reading

/-- Within the limit for lines, a stream is read by its lines. -/
theorem run_eq_readLines
    {r : Reading}
    (hopen : lineFeed ∉ r.line)
    (stream : Bytes)
    (hfit : ∀ line ∈ lineBytes (r.line ++ stream), line.length + 1 ≤ maxEventBytes) :
    Chunked.run reader r stream =
      readLines r.toPendingEvent (lineBytes (r.line ++ stream)) := by
  induction stream generalizing r with
  | nil =>
      rw [List.append_nil] at hfit ⊢
      have hclose : reader.close r = r.close := rfl
      rw [Chunked.run_nil, hclose, Reading.close]
      by_cases hline : r.line = []
      · rw [if_neg (not_not.2 hline), hline]
        rfl
      · rw [lineBytes_of_not_mem hopen hline] at hfit ⊢
        have hshort := hfit r.line List.mem_cons_self
        rw [if_pos hline, Reading.take, if_neg (Nat.not_lt.2 hshort), if_pos rfl, readLines]
        cases r.takeLine r.line with
        | error e =>
            rfl
        | ok out =>
            rfl
  | cons b stream ih =>
      have hstep : reader.step r b = r.take b := rfl
      rw [Chunked.run_cons, hstep, Reading.take]
      by_cases hfeed : b = lineFeed
      · subst hfeed
        rw [lineBytes_line hopen] at hfit ⊢
        have hshort := hfit r.line List.mem_cons_self
        rw [if_neg (Nat.not_lt.2 hshort), if_pos rfl, readLines]
        cases r.takeLine r.line with
        | error e =>
            rfl
        | ok out =>
            have hmore := ih (r := { toPendingEvent := out.1, line := [] }) List.not_mem_nil
              (fun line hline => hfit line (List.mem_cons_of_mem _ hline))
            dsimp only
            rw [hmore]
            rfl
      · have hopen' : lineFeed ∉ r.line ++ [b] := by
          rw [List.mem_append, List.mem_singleton, not_or]
          exact ⟨hopen, Ne.symm hfeed⟩
        have hsplit : r.line ++ b :: stream = (r.line ++ [b]) ++ stream := by
          simp
        rw [hsplit] at hfit ⊢
        obtain ⟨first, more, hlines, hle⟩ := exists_first_line hopen' (by simp) stream
        have hshort := hfit first (by rw [hlines]; exact List.mem_cons_self)
        rw [List.length_append, List.length_singleton] at hle
        rw [if_neg (by omega), if_neg hfeed]
        exact ih (r := { r with line := r.line ++ [b] }) hopen' hfit

end Reading

section Grammar

/-- The unfinished event after these of its lines. -/
def pendingOf (lines : List Text) : PendingEvent where
  event := eventOf lines
  data := dataOf lines
  eventBytes := eventSize lines

theorem finishFrame_pendingOf (lines : List Text) :
    (pendingOf lines).finishFrame = (pendingOf [], frameOf lines) := by
  unfold PendingEvent.finishFrame frameOf
  change (if eventOf lines = none ∧ dataOf lines = [] then _ else _) = _
  by_cases hnone : eventOf lines = none ∧ dataOf lines = []
  · rw [if_pos hnone, if_pos hnone]
    simp only [pendingOf, hnone.1, hnone.2]
    rfl
  · rw [if_neg hnone, if_neg hnone]
    rfl

theorem eventSize_concat (lines : List Text) (text : Text) :
    eventSize (lines ++ [text]) = eventSize lines + (Utf8.size text + 1) := by
  simp [eventSize]

theorem fieldsOf_concat (lines : List Text) (text : Text) :
    fieldsOf (lines ++ [text]) =
      fieldsOf lines ++
        if text.head? = some ':' then [] else [splitField (String.ofList text)] := by
  by_cases hcomment : text.head? = some ':' <;> simp [fieldsOf, hcomment]

theorem pendingOf_concat
    (lines : List Text)
    {text : Text}
    (hfield : text.head? ≠ some ':') :
    pendingOf (lines ++ [text]) =
      { pendingOf lines with eventBytes := eventSize (lines ++ [text]) }.field
        (String.ofList text) := by
  unfold PendingEvent.field pendingOf eventOf dataOf
  rw [fieldsOf_concat, if_neg hfield]
  generalize splitField (String.ofList text) = f
  obtain ⟨name, value⟩ := f
  by_cases hevent : name = "event"
  · simp [hevent]
  · by_cases hdata : name = "data"
    · simp [hdata]
    · simp [hevent, hdata]

/-- One more line of an event. -/
theorem takeLine_pendingOf
    {line : Bytes}
    {text : Text}
    (htext : Utf8.fromUtf8 (stripReturn line) = some text)
    (hne : text ≠ [])
    {lines : List Text}
    (hfit : eventSize (lines ++ [text]) ≤ maxEventBytes) :
    (pendingOf lines).takeLine line = .ok (pendingOf (lines ++ [text]), none) := by
  have hbytes : (pendingOf lines).eventBytes + (Utf8.size text + 1) =
      eventSize (lines ++ [text]) := (eventSize_concat lines text).symm
  unfold PendingEvent.takeLine
  simp only [htext, if_neg hne, hbytes, if_neg (Nat.not_lt.2 hfit)]
  by_cases hcomment : text.head? = some ':'
  · rw [if_pos hcomment]
    simp only [pendingOf, eventOf, dataOf, fieldsOf_concat, if_pos hcomment, List.append_nil]
  · rw [if_neg hcomment, pendingOf_concat lines hcomment]

theorem takeLine_blank
    {line : Bytes}
    (htext : Utf8.fromUtf8 (stripReturn line) = some [])
    (lines : List Text) :
    (pendingOf lines).takeLine line = .ok (pendingOf [], frameOf lines) := by
  unfold PendingEvent.takeLine
  simp only [htext, if_true, finishFrame_pendingOf]

/-- Lines that decode are read as the grammar says, behind those of an unfinished event. -/
theorem readLines_eq
    {lines : List Bytes}
    {texts : List Text}
    (htexts : lines.mapM (fun line => Utf8.fromUtf8 (stripReturn line)) = some texts)
    (before : List Text)
    (hfit : ∀ event ∈ (texts.splitOnP (·.isEmpty)).modifyHead (before ++ ·),
      eventSize event ≤ maxEventBytes) :
    readLines (pendingOf before) lines =
      (((texts.splitOnP (·.isEmpty)).modifyHead (before ++ ·)).filterMap frameOf, true) := by
  induction lines generalizing texts before with
  | nil =>
      cases htexts
      rw [readLines, finishFrame_pendingOf, List.reverse_nil, List.splitOnP_nil]
      cases hframe : frameOf before with
      | none =>
          simp [hframe]
      | some frame =>
          simp [hframe]
  | cons line lines ih =>
      simp only [List.mapM_cons, Option.bind_eq_bind, Option.bind_eq_some_iff, Option.pure_def,
        Option.some.injEq] at htexts
      obtain ⟨text, htext, rest, hrest, rfl⟩ := htexts
      rw [List.splitOnP_cons_eq_if_modifyHead] at hfit ⊢
      by_cases hblank : text = []
      · -- A blank line: the event is finished, and the next one starts.
        subst hblank
        simp only [List.isEmpty_nil, if_true, List.modifyHead_cons, List.append_nil] at hfit ⊢
        have hid : (rest.splitOnP (·.isEmpty)).modifyHead ([] ++ ·) =
            rest.splitOnP (·.isEmpty) := by
          cases rest.splitOnP (·.isEmpty) <;> simp
        have hmore := ih hrest []
        rw [hid] at hmore
        rw [readLines, takeLine_blank htext]
        dsimp only
        rw [hmore fun event hevent => hfit event (List.mem_cons_of_mem _ hevent)]
        cases hframe : frameOf before with
        | none =>
            simp [hframe]
        | some frame =>
            simp [hframe]
      · have hnonempty : text.isEmpty = false := by
          simpa using hblank
        have hmodify : ((rest.splitOnP (·.isEmpty)).modifyHead (text :: ·)).modifyHead
            (before ++ ·) =
              (rest.splitOnP (·.isEmpty)).modifyHead ((before ++ [text]) ++ ·) := by
          cases rest.splitOnP (·.isEmpty) <;> simp
        simp only [hnonempty, Bool.false_eq_true, if_false] at hfit ⊢
        rw [hmodify] at hfit ⊢
        have hsize : eventSize (before ++ [text]) ≤ maxEventBytes := by
          cases hevents : rest.splitOnP (·.isEmpty) with
          | nil =>
              exact absurd hevents (List.splitOnP_ne_nil _ _)
          | cons event events =>
              rw [hevents, List.modifyHead_cons] at hfit
              have hwhole := hfit _ List.mem_cons_self
              simp only [eventSize, List.map_append, List.sum_append] at hwhole ⊢
              omega
        rw [readLines, takeLine_pendingOf htext hblank hsize]
        dsimp only
        rw [ih hrest (before ++ [text]) hfit]
        rfl

/-- Byte by byte, valid lines within the limits give the frames of the grammar. -/
theorem run_grammar
    {stream : Bytes}
    {texts : List Text}
    (htexts : lineTexts stream = some texts)
    (hfit : WithinLimit stream texts) :
    Chunked.run reader Reading.start stream = (grammar texts, true) := by
  have hid : (texts.splitOnP (·.isEmpty)).modifyHead ([] ++ ·) =
      texts.splitOnP (·.isEmpty) := by
    cases texts.splitOnP (·.isEmpty) <;> simp
  have hlines := readLines_eq htexts []
  rw [hid] at hlines
  have hrun := run_eq_readLines (r := Reading.start) List.not_mem_nil stream hfit.line
  rw [hrun]
  exact hlines hfit.event

end Grammar

/-! ## Cuts -/

/-- The frames completed before the first failing byte, if there is one, or the end. -/
def completed (stream : Bytes) : List SseFrame :=
  (Chunked.run reader Reading.start stream).1

/-- The two runs give the same frames and end alike, and every completed frame is given. -/
def SameDelivery (pushes pushes' : List Bytes) : Prop :=
  SseDecoder.default.run pushes = SseDecoder.default.run pushes' ∧
    completed pushes.flatten <+: (SseDecoder.default.run pushes).1 ∧
    completed pushes'.flatten <+: (SseDecoder.default.run pushes').1

/--
The first push that holds a failing byte, or whose bytes do not fit behind the unfinished
line, if there is one, completes no frame, and neither does what follows before the stream
fails.
-/
def Lossless (pushes : List Bytes) : Prop :=
  Chunked.Lossless reader Reading.start pushes

section Cuts

theorem run_default (pushes : List Bytes) :
    SseDecoder.default.run pushes = Chunked.runChunks reader Reading.start pushes :=
  run_eq Reading.start pushes

/-- Pushing single bytes loses nothing. -/
theorem lossless_bytes (stream : Bytes) : Lossless (stream.map fun b => [b]) := by
  refine Chunked.lossless_singletons reader ?_ Reading.start stream
  intro r b hfits
  refine ⟨.exceeded, ?_⟩
  have hfull : ¬ r.line.length + 1 ≤ maxEventBytes := of_decide_eq_false hfits
  exact if_pos (Nat.lt_of_not_ge hfull)

theorem run_of_lossless
    {pushes : List Bytes}
    (h : Lossless pushes) :
    SseDecoder.default.run pushes = Chunked.run reader Reading.start pushes.flatten := by
  rw [run_default]
  exact (Chunked.runChunks_eq_iff reader Reading.start pushes).2 h

/--
The pushes of a stream give what all other pushes of it that lose nothing give exactly if
they lose nothing themselves; then valid lines within the limits give the frames of the
grammar.
-/
theorem sse_cut_free_iff (pushes : List Bytes) :
    ((∀ pushes' : List Bytes, pushes'.flatten = pushes.flatten → Lossless pushes' →
        SameDelivery pushes pushes') ↔ Lossless pushes) ∧
      (Lossless pushes → ∀ texts, lineTexts pushes.flatten = some texts →
        WithinLimit pushes.flatten texts →
          SseDecoder.default.run pushes = (grammar texts, true)) := by
  constructor
  · constructor
    · intro h
      have hbytes := Chunked.flatten_singletons pushes.flatten
      have hsame := (h _ hbytes (lossless_bytes _)).1
      rw [run_of_lossless (lossless_bytes _), hbytes, run_default] at hsame
      exact (Chunked.runChunks_eq_iff reader Reading.start pushes).1 hsame
    · intro h pushes' hflatten h'
      refine ⟨?_, ?_, ?_⟩
      · rw [run_of_lossless h, run_of_lossless h', hflatten]
      · rw [run_of_lossless h]
        exact List.prefix_rfl
      · rw [run_of_lossless h']
        exact List.prefix_rfl
  · intro h texts htexts hfit
    rw [run_of_lossless h]
    exact run_grammar htexts hfit

/-- An event `data:a`, and a line that is no UTF-8. -/
def brokenStream : Bytes :=
  [0x64, 0x61, 0x74, 0x61, 0x3a, 0x61, 0x0a, 0x0a, 0xff, 0x0a]

/-- In one push the frame before the broken line is lost with it. -/
theorem frame_lost_with_broken_line :
    SseDecoder.default.run [brokenStream] = ([], false) ∧
      SseDecoder.default.run (brokenStream.map fun b => [b]) =
        ([{ event := none, data := "a" }], false) := by
  rw [run_default, run_default]
  decide +kernel

end Cuts

end Sse
end Llm
end FutureOs
