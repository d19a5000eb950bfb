import FutureOs.Orchestration.LedgerFile
import FutureOs.Orchestration.Wire
import Mathlib.Data.List.DropRight

/-!
# Writes that stop in the middle

A write of lines may stop at any byte.  The file stays usable (`Usable`: it is read as
the events before and the lines that were written, and every later successful call
shows) exactly if it was terminated before and the write stopped between two lines: a
file is terminated if only white space stands behind its last line feed, and behind
anything else the next line is lost, and the whole ledger with it.
-/

namespace FutureOs
namespace Orchestration

section File

variable {format : LineFormat}
variable {derive : Event → String}
variable {entry : RegistryEntry}

/-- Only white space stands behind the last line feed. -/
def Terminated (text : Text) : Prop :=
  ∀ c ∈ (Lines.cut text).2, isJsonSpace c = true

/-- A file of a terminated text. -/
def TerminatedFile (file : Bytes) : Prop :=
  ∃ text, Utf8.fromUtf8 file = some text ∧ Terminated text

/-- The lines a call writes read back, and their ids are not taken by other events. -/
def CleanCall (format : LineFormat) (derive : Event → String) (entry : RegistryEntry)
    (file : Bytes) (call : LedgerCall) : Prop :=
  ∀ stored written, readLedger format derive file = .ok stored →
    call.writes format derive entry file = .ok written →
    (∀ line ∈ written, format.Writes line) ∧ FreeIds derive stored written

/-- The file can be read, and shows the events. -/
def Shows (format : LineFormat) (derive : Event → String) (file : Bytes)
    (events : List Event) : Prop :=
  ∃ stored, readLedger format derive file = .ok stored ∧
    ∀ event ∈ events, event ∈ stored.map StoredEvent.event

/--
The file after a write that stopped at byte `k` is read as the events before and some
first lines that were completely written, up to the last line feed; and every run of
calls on it shows these and all that the calls acknowledge.
-/
def Usable (format : LineFormat) (derive : Event → String) (entry : RegistryEntry)
    (file : Bytes) (stored written : List StoredEvent) (k : Nat) : Prop :=
  ∃ j ≤ written.length, Utf8.size (format.rendered (written.take j)) ≤ k + 1 ∧
    ∃ out, (written.take j).foldlM (parseLine derive) stored = .ok out ∧
      readLedger format derive (tornFile format file written k) = .ok out ∧
      ∀ calls, Machine.Guarded (fileStep format derive entry) (CleanCall format derive entry)
          (tornFile format file written k) calls →
        Shows format derive
          (Machine.run (fileStep format derive entry) (tornFile format file written k) calls)
          (out.map StoredEvent.event ++
            Machine.trace (fileStep format derive entry) (acknowledgedBy format derive entry)
              (tornFile format file written k) calls)

/-! ## Reading line by line -/

/-- The events of the lines. -/
def storedLines (format : LineFormat) (text : Text) : List StoredEvent :=
  (ledgerLines text).filterMap fun line => (format.read line).stored?

/-- A ledger is read if every line is accepted and the events do not conflict. -/
theorem foldlM_parseText
    (lines : List Text)
    (out stored : List StoredEvent) :
    lines.foldlM (parseText format derive) out = .ok stored ↔
      (∀ line ∈ lines, (format.read line).isEntry = true) ∧
        (lines.filterMap fun line => (format.read line).stored?).foldlM
          (parseLine derive) out = .ok stored := by
  induction lines generalizing out with
  | nil =>
      simp
  | cons line rest ih =>
      rw [List.foldlM_cons, parseText]
      cases hread : format.read line with
      | notJson | malformed =>
          simp [hread, LineText.isEntry]
      | unknownKind eventId =>
          rw [except_ok_bind, ih]
          simp [hread, LineText.isEntry, LineText.stored?]
      | event s =>
          simp only [List.forall_mem_cons, hread, LineText.isEntry, true_and,
            List.filterMap_cons, LineText.stored?, List.foldlM_cons]
          cases parseLine derive out s with
          | error e =>
              simp
          | ok out' =>
              exact ih out'

theorem parseLedgerText_iff
    {text : Text}
    {stored : List StoredEvent} :
    parseLedgerText format derive text = .ok stored ↔
      (∀ line ∈ ledgerLines text, (format.read line).isEntry = true) ∧
        parseLedger derive (storedLines format text) = .ok stored :=
  foldlM_parseText _ _ _

theorem readLedger_iff
    {file : Bytes}
    {stored : List StoredEvent} :
    readLedger format derive file = .ok stored ↔
      ∃ text, Utf8.fromUtf8 file = some text ∧
        parseLedgerText format derive text = .ok stored := by
  unfold readLedger readToString
  rw [bind_eq_ok]
  simp only [context_eq_ok]

theorem isBlank_of_jsonSpace
    {t : Text}
    (h : ∀ c ∈ t, isJsonSpace c = true) :
    Lines.isBlank t = true := by
  unfold Lines.isBlank
  rw [List.all_eq_true]
  intro c hc
  have hspace := h c hc
  simp only [isJsonSpace, Bool.or_eq_true, decide_eq_true_eq] at hspace
  rcases hspace with ((rfl | rfl) | rfl) | rfl <;> decide

theorem not_isBlank_of_object
    {t u : Text}
    (h : u.head? = some '{') :
    Lines.isBlank (t ++ u) = false := by
  obtain ⟨rest, rfl⟩ : ∃ rest, u = '{' :: rest := by
    cases u with
    | nil =>
        cases h
    | cons c rest =>
        exact ⟨rest, by rw [Option.some.inj h]⟩
  have hbrace : Text.isWhitespace '{' = false := by decide
  simp [Lines.isBlank, hbrace]

/-- The lines of a text behind which a line is written. -/
theorem ledgerLines_append_line
    (text : Text)
    {line : Text}
    (hobject : line.head? = some '{')
    (hline : '\n' ∉ line ∧ '\r' ∉ line)
    (more : Text) :
    ∃ before, (Terminated text → before = ledgerLines text) ∧
      ledgerLines (text ++ (line ++ '\n' :: more)) =
        before ++ ((Lines.cut text).2 ++ line) :: ledgerLines more := by
  have hne : line ≠ [] := by
    rintro rfl
    cases hobject
  refine ⟨((Lines.cut text).1.map Lines.stripReturn).filter fun l => !Lines.isBlank l,
    fun hterminated => ?_, ?_⟩
  · unfold ledgerLines Lines.lines
    rw [List.filter_append]
    split
    · rw [List.filter_nil, List.append_nil]
    · simp [isBlank_of_jsonSpace hterminated]
  · unfold ledgerLines Lines.lines
    rw [Lines.cut_append_line text hline.1]
    simp [Lines.stripReturn_of_not_mem hne hline.2, not_isBlank_of_object hobject]

theorem ledgerLines_rendered
    {written : List StoredEvent}
    (hwrites : ∀ line ∈ written, format.Writes line) :
    ledgerLines (format.rendered written) = written.map format.render := by
  induction written with
  | nil =>
      rfl
  | cons line rest ih =>
      obtain ⟨hline, hrest⟩ := List.forall_mem_cons.1 hwrites
      obtain ⟨before, hbefore, hlines⟩ := ledgerLines_append_line [] hline.object hline.oneLine
        (format.rendered rest)
      have hsplit : format.rendered (line :: rest) =
          [] ++ (format.render line ++ '\n' :: format.rendered rest) := by
        simp [LineFormat.rendered]
      rw [hsplit, hlines, hbefore (fun c hc => (List.not_mem_nil hc).elim), ih hrest]
      rfl

/-- A file in which only whole lines were written stays terminated. -/
theorem terminated_append_rendered
    {text : Text}
    (h : Terminated text)
    {written : List StoredEvent}
    (hwrites : ∀ line ∈ written, format.Writes line) :
    Terminated (text ++ format.rendered written) := by
  induction written generalizing text with
  | nil =>
      simpa [LineFormat.rendered] using h
  | cons line rest ih =>
      obtain ⟨hline, hrest⟩ := List.forall_mem_cons.1 hwrites
      have hsplit : text ++ format.rendered (line :: rest) =
          (text ++ (format.render line ++ ['\n'])) ++ format.rendered rest := by
        simp [LineFormat.rendered]
      rw [hsplit]
      refine ih ?_ hrest
      unfold Terminated
      rw [Lines.cut_append_line text hline.oneLine.1]
      exact fun c hc => (List.not_mem_nil hc).elim

/-- Behind a terminated text, written lines are read as they are. -/
theorem parse_append_rendered
    (hlawful : format.Lawful)
    {text : Text}
    {stored : List StoredEvent}
    (hstored : parseLedgerText format derive text = .ok stored)
    (hterminated : Terminated text)
    {written : List StoredEvent}
    (hwrites : ∀ line ∈ written, format.Writes line)
    (out : List StoredEvent) :
    parseLedgerText format derive (text ++ format.rendered written) = .ok out ↔
      written.foldlM (parseLine derive) stored = .ok out := by
  cases written with
  | nil =>
      simp only [LineFormat.rendered, List.flatMap_nil, List.append_nil, hstored,
        List.foldlM_nil]
      rfl
  | cons line rest =>
      obtain ⟨hline, hrest⟩ := List.forall_mem_cons.1 hwrites
      obtain ⟨hentries, hparse⟩ := parseLedgerText_iff.1 hstored
      obtain ⟨before, hbefore, hlines⟩ := ledgerLines_append_line text hline.object
        hline.oneLine (format.rendered rest)
      have hsplit : text ++ format.rendered (line :: rest) =
          text ++ (format.render line ++ '\n' :: format.rendered rest) := by
        simp [LineFormat.rendered]
      have hread : format.read ((Lines.cut text).2 ++ format.render line) = .event line := by
        rw [hlawful.leading _ _ hterminated, hline.reads]
      have hreads : ∀ l ∈ rest, format.read (format.render l) = .event l :=
        fun l hl => (hrest l hl).reads
      have hback : (rest.map format.render).filterMap
          (fun l => (format.read l).stored?) = rest := by
        rw [List.filterMap_map, List.filterMap_congr (g := some), List.filterMap_some]
        intro l hl
        rw [Function.comp_apply, hreads l hl]
        rfl
      have hkept : storedLines format (text ++ format.rendered (line :: rest)) =
          storedLines format text ++ line :: rest := by
        unfold storedLines
        rw [hsplit, hlines, hbefore hterminated, ledgerLines_rendered hrest,
          List.filterMap_append, List.filterMap_cons, hread, hback]
        rfl
      have haccepted : ∀ l ∈ ledgerLines (text ++ format.rendered (line :: rest)),
          (format.read l).isEntry = true := by
        rw [hsplit, hlines, hbefore hterminated, ledgerLines_rendered hrest]
        intro l hl
        rcases List.mem_append.1 hl with hold | hnew
        · exact hentries l hold
        · rcases List.mem_cons.1 hnew with rfl | hmore
          · rw [hread]
            rfl
          · obtain ⟨s, hs, rfl⟩ := List.mem_map.1 hmore
            rw [hreads s hs]
            rfl
      rw [parseLedgerText_iff, hkept, parseLedger_append, hparse, except_ok_bind]
      exact and_iff_right haccepted

theorem head?_dropWhile_append
    {p : Char → Bool}
    {t : Text}
    (h : ∃ c ∈ t, p c = false)
    (u : Text) :
    ∃ d ∈ t, ((t ++ u).dropWhile p).head? = some d := by
  induction t with
  | nil =>
      obtain ⟨c, hc, -⟩ := h
      cases hc
  | cons c t ih =>
      cases hp : p c with
      | false =>
          exact ⟨c, List.mem_cons_self, by simp [hp]⟩
      | true =>
          obtain ⟨d, hd, hnot⟩ := h
          rcases List.mem_cons.1 hd with rfl | hmem
          · rw [hp] at hnot
            cases hnot
          · obtain ⟨e, he, hhead⟩ := ih ⟨d, hmem, hnot⟩
            exact ⟨e, List.mem_cons_of_mem _ he, by simpa [hp] using hhead⟩

/-- A line written behind anything else is not read. -/
theorem unreadable_of_unterminated
    (hlawful : format.Lawful)
    {text : Text}
    {stored : List StoredEvent}
    (hstored : parseLedgerText format derive text = .ok stored)
    (hopen : ¬ Terminated text)
    {line : StoredEvent}
    (hline : format.Writes line)
    (more : Text)
    (out : List StoredEvent) :
    parseLedgerText format derive (text ++ (format.render line ++ '\n' :: more)) ≠ .ok out := by
  intro hout
  obtain ⟨hentries, -⟩ := parseLedgerText_iff.1 hstored
  obtain ⟨haccepted, -⟩ := parseLedgerText_iff.1 hout
  obtain ⟨before, -, hlines⟩ := ledgerLines_append_line text hline.object hline.oneLine more
  have hentry := haccepted ((Lines.cut text).2 ++ format.render line) (by
    rw [hlines]
    exact List.mem_append_right _ List.mem_cons_self)
  obtain ⟨c, hc, hspace⟩ : ∃ c ∈ (Lines.cut text).2, isJsonSpace c = false := by
    simpa [Terminated] using hopen
  by_cases hblank : Lines.isBlank (Lines.cut text).2 = true
  · -- The rest is blank, but not for JSON: the line does not open with a brace.
    have hbrace := hlawful.opening _ hentry
    obtain ⟨d, hd, hhead⟩ := head?_dropWhile_append ⟨c, hc, hspace⟩ (format.render line)
    obtain rfl := Option.some.inj (hhead.symm.trans hbrace)
    have hwhite := List.all_eq_true.1 hblank '{' hd
    exact absurd hwhite (by decide)
  · -- The rest is a line of its own, which is complete.
    have hmem : (Lines.cut text).2 ∈ ledgerLines text := by
      have hne : (Lines.cut text).2 ≠ [] := List.ne_nil_of_mem hc
      simp [ledgerLines, Lines.lines, hne, hblank]
    have hobject : ∃ c ∈ format.render line, isJsonSpace c = false :=
      ⟨'{', List.mem_of_head? hline.object, by decide⟩
    rw [hlawful.trailing _ _ (hentries _ hmem) hobject] at hentry
    cases hentry

/-! ## Where a write stops -/

/-- What was written of some lines: first lines, and the start of one more. -/
theorem prefix_rendered
    {written : List StoredEvent}
    {x y : Text}
    (h : format.rendered written = x ++ y) :
    ∃ j ≤ written.length, ∃ part, x = format.rendered (written.take j) ++ part ∧
      (part = [] ∨ part ≠ [] ∧ ∃ line ∈ written, part <+: format.render line) := by
  induction written generalizing x with
  | nil =>
      obtain ⟨rfl, -⟩ := List.append_eq_nil_iff.1 h.symm
      exact ⟨0, le_rfl, [], rfl, Or.inl rfl⟩
  | cons line rest ih =>
      have hcons : format.rendered (line :: rest) =
          (format.render line ++ ['\n']) ++ format.rendered rest := rfl
      rw [hcons] at h
      rcases List.append_eq_append_iff.1 h with ⟨z, rfl, hz⟩ | ⟨z, hz, -⟩
      · obtain ⟨j, hj, part, rfl, hpart⟩ := ih hz
        refine ⟨j + 1, Nat.succ_le_succ hj, part, ?_, ?_⟩
        · simp [LineFormat.rendered]
        · rcases hpart with hnone | ⟨hne, l, hl, hstart⟩
          · exact Or.inl hnone
          · exact Or.inr ⟨hne, l, List.mem_cons_of_mem _ hl, hstart⟩
      · rcases List.eq_nil_or_concat z with rfl | ⟨z', c, rfl⟩
        · refine ⟨1, Nat.succ_le_succ (Nat.zero_le _), [], ?_, Or.inl rfl⟩
          simpa [LineFormat.rendered] using hz.symm
        · rw [List.concat_eq_append, ← List.append_assoc] at hz
          obtain ⟨hstart, -⟩ := List.append_inj' hz rfl
          refine ⟨0, Nat.zero_le _, x, rfl, ?_⟩
          by_cases hx : x = []
          · exact Or.inl hx
          · exact Or.inr ⟨hx, line, List.mem_cons_self, ⟨z', hstart.symm⟩⟩

/-- The start of a line leaves the file unterminated. -/
theorem not_terminated_of_part
    (text : Text)
    {part : Text}
    {line : StoredEvent}
    (hline : format.Writes line)
    (hstart : part <+: format.render line)
    (hne : part ≠ []) :
    ¬ Terminated (text ++ part) := by
  obtain ⟨c, t, rfl⟩ := List.exists_cons_of_ne_nil hne
  obtain ⟨u, hu⟩ := hstart
  have hc : c = '{' := by
    have hhead := hline.object
    rw [← hu] at hhead
    exact Option.some.inj hhead
  have hnewline : '\n' ∉ c :: t := fun hmem =>
    hline.oneLine.1 (hu ▸ List.mem_append_left u hmem)
  intro hterminated
  unfold Terminated at hterminated
  rw [Lines.cut_append_part text hnewline] at hterminated
  have hspace := hterminated c (List.mem_append_right _ List.mem_cons_self)
  rw [hc] at hspace
  exact absurd hspace (by decide)

/-- The text of a torn file, where it has one. -/
theorem fromUtf8_tornFile
    {file : Bytes}
    {text : Text}
    (htext : Utf8.fromUtf8 file = some text)
    {written : List StoredEvent}
    {k : Nat}
    {torn : Text}
    (htorn : Utf8.fromUtf8 (tornFile format file written k) = some torn) :
    ∃ x y, torn = text ++ x ∧ format.rendered written = x ++ y ∧
      (Utf8.encode (format.rendered written)).take k = Utf8.encode x := by
  rw [tornFile, ← Utf8.encode_of_fromUtf8 htext, Utf8.fromUtf8_encode_append] at htorn
  obtain ⟨x, hx, rfl⟩ := Option.map_eq_some_iff.1 htorn
  have hbytes := Utf8.encode_of_fromUtf8 hx
  have hwhole : Utf8.encode (format.rendered written) =
      Utf8.encode x ++ (Utf8.encode (format.rendered written)).drop k := by
    rw [hbytes, List.take_append_drop]
  have hdecode := congrArg Utf8.fromUtf8 hwhole
  rw [Utf8.fromUtf8_encode, Utf8.fromUtf8_encode_append] at hdecode
  obtain ⟨y, -, hy⟩ := Option.map_eq_some_iff.1 hdecode.symm
  exact ⟨x, y, rfl, hy.symm, hbytes.symm⟩

/-- The write stopped between two lines. -/
def BetweenLines (format : LineFormat) (written : List StoredEvent) (k : Nat) : Prop :=
  ∃ j ≤ written.length, k = Utf8.size (format.rendered (written.take j))

theorem tornFile_between
    (file : Bytes)
    (written : List StoredEvent)
    (j : Nat) :
    tornFile format file written (Utf8.size (format.rendered (written.take j))) =
      file ++ Utf8.encode (format.rendered (written.take j)) := by
  have hsplit : format.rendered written =
      format.rendered (written.take j) ++ format.rendered (written.drop j) := by
    unfold LineFormat.rendered
    rw [← List.flatMap_append, List.take_append_drop]
  unfold tornFile
  rw [hsplit, Utf8.encode_append, ← Utf8.length_encode, List.take_left']
  rfl

/--
A torn file that can be read and is terminated was terminated before, and the write
stopped between two lines.
-/
theorem between_of_readable
    (hlawful : format.Lawful)
    {file : Bytes}
    {stored written : List StoredEvent}
    (hstored : readLedger format derive file = .ok stored)
    (hwrites : ∀ line ∈ written, format.Writes line)
    {k : Nat}
    (hk : k ≤ Utf8.size (format.rendered written))
    {out : List StoredEvent}
    (hout : readLedger format derive (tornFile format file written k) = .ok out)
    (hterminated : TerminatedFile (tornFile format file written k)) :
    TerminatedFile file ∧ BetweenLines format written k := by
  obtain ⟨text, htext, hparse⟩ := readLedger_iff.1 hstored
  obtain ⟨torn, htorn, hparse'⟩ := readLedger_iff.1 hout
  obtain ⟨torn', htorn', hterminated⟩ := hterminated
  obtain rfl := Option.some.inj (htorn.symm.trans htorn')
  obtain ⟨x, y, rfl, hsplit, hbytes⟩ := fromUtf8_tornFile htext htorn
  obtain ⟨j, hj, part, rfl, hpart⟩ := prefix_rendered hsplit
  rcases hpart with rfl | ⟨hne, line, hline, hstart⟩
  · rw [List.append_nil] at hbytes hparse' hterminated
    refine ⟨⟨text, htext, ?_⟩, j, hj, ?_⟩
    · by_contra hopen
      cases htake : written.take j with
      | nil =>
          rw [htake] at hterminated
          simp only [LineFormat.rendered, List.flatMap_nil, List.append_nil] at hterminated
          exact hopen hterminated
      | cons line rest =>
          have hline := hwrites line (List.mem_of_mem_take (htake ▸ List.mem_cons_self))
          rw [htake] at hparse'
          refine unreadable_of_unterminated hlawful hparse hopen hline
            (format.rendered rest) out ?_
          simpa [LineFormat.rendered] using hparse'
    · have hlength := congrArg List.length hbytes
      rwa [List.length_take, Utf8.length_encode, Utf8.length_encode, min_eq_left hk] at hlength
  · rw [← List.append_assoc] at hterminated
    exact absurd hterminated (not_terminated_of_part _ (hwrites line hline) hstart hne)

/-! ## Runs on a terminated file -/

/-- Whole lines behind a terminated file. -/
theorem readLedger_write
    (hlawful : format.Lawful)
    {file : Bytes}
    {stored : List StoredEvent}
    (hstored : readLedger format derive file = .ok stored)
    (hterminated : TerminatedFile file)
    {written : List StoredEvent}
    (hwrites : ∀ line ∈ written, format.Writes line) :
    TerminatedFile (file ++ Utf8.encode (format.rendered written)) ∧
      ∀ out, written.foldlM (parseLine derive) stored = .ok out →
        readLedger format derive (file ++ Utf8.encode (format.rendered written)) = .ok out := by
  obtain ⟨text, htext, hparse⟩ := readLedger_iff.1 hstored
  obtain ⟨text', htext', hterminated⟩ := hterminated
  obtain rfl := Option.some.inj (htext.symm.trans htext')
  have hfile : Utf8.fromUtf8 (file ++ Utf8.encode (format.rendered written)) =
      some (text ++ format.rendered written) := by
    rw [← Utf8.encode_of_fromUtf8 htext, ← Utf8.encode_append, Utf8.fromUtf8_encode]
  refine ⟨⟨_, hfile, terminated_append_rendered hterminated hwrites⟩, fun out hout => ?_⟩
  exact readLedger_iff.2
    ⟨_, hfile, (parse_append_rendered hlawful hparse hterminated hwrites out).2 hout⟩

/-- The event of an accepted line is shown. -/
theorem shown_of_line
    {text : Text}
    {stored : List StoredEvent}
    (hstored : parseLedgerText format derive text = .ok stored)
    {line : Text}
    (hline : line ∈ ledgerLines text)
    {s : StoredEvent}
    (hs : (format.read line).stored? = some s) :
    s.event ∈ stored.map StoredEvent.event := by
  obtain ⟨-, hparse⟩ := parseLedgerText_iff.1 hstored
  obtain ⟨prior, hprior, -, hsame⟩ := kept_of_mem hparse (List.mem_filterMap.2 ⟨line, hline, hs⟩)
  exact hsame ▸ List.mem_map_of_mem hprior

/-- What is read behind a ledger is shown. -/
theorem shown_of_written
    {file : Bytes}
    {stored written out : List StoredEvent}
    (hstored : readLedger format derive file = .ok stored)
    (hout : written.foldlM (parseLine derive) stored = .ok out)
    {line : StoredEvent}
    (hline : line ∈ written) :
    line.event ∈ out.map StoredEvent.event := by
  obtain ⟨text, -, hparse⟩ := readLedger_iff.1 hstored
  obtain ⟨-, hparse⟩ := parseLedgerText_iff.1 hparse
  have hall : parseLedger derive (storedLines format text ++ written) = .ok out := by
    rw [parseLedger_append, hparse, except_ok_bind, hout]
  obtain ⟨prior, hprior, -, hsame⟩ := kept_of_mem hall (List.mem_append_right _ hline)
  exact hsame ▸ List.mem_map_of_mem hprior

/-- An append finds its event recorded, or writes it. -/
theorem appendText_cases
    {stored : StoredEvent}
    {validate : Text → Except String Unit}
    {file : Bytes}
    {written : List StoredEvent}
    (h : appendText format stored validate file = .ok written) :
    written = [stored] ∨ ∃ text s, Utf8.fromUtf8 file = some text ∧ s.event = stored.event ∧
      ∃ line ∈ ledgerLines text, (format.read line).stored? = some s := by
  obtain ⟨text, htext, h⟩ := bind_eq_ok.1 h
  split at h
  · rename_i line hfind
    split at h
    · rename_i hsame
      obtain ⟨s, hs, hevent⟩ := Option.map_eq_some_iff.1 hsame
      obtain ⟨l, hl, rfl⟩ := List.mem_map.1 (List.mem_of_find?_eq_some hfind)
      exact Or.inr ⟨text, s, context_eq_ok.1 htext, hevent, l, hl, hs⟩
    · cases h
  · obtain ⟨-, -, hok⟩ := bind_eq_ok.1 h
    exact Or.inl (Except.ok.inj hok).symm

/-- What a successful call acknowledges is shown after it. -/
theorem shown_of_acknowledged
    {file : Bytes}
    {stored written out : List StoredEvent}
    (hstored : readLedger format derive file = .ok stored)
    {call : LedgerCall}
    (hcall : call.writes format derive entry file = .ok written)
    (hout : written.foldlM (parseLine derive) stored = .ok out)
    (hkept : ∀ event ∈ stored.map StoredEvent.event, event ∈ out.map StoredEvent.event) :
    ∀ event ∈ acknowledgedBy format derive entry file call,
      event ∈ out.map StoredEvent.event := by
  have happend : ∀ {event : Event} {validate : Text → Except String Unit},
      appendText format (storedAs derive event) validate file = .ok written →
        event ∈ out.map StoredEvent.event := by
    intro event validate happend
    rcases appendText_cases happend with rfl | ⟨text, s, htext, hevent, line, hline, hs⟩
    · exact shown_of_written hstored hout (List.mem_singleton.2 rfl)
    · obtain ⟨text', htext', hparse⟩ := readLedger_iff.1 hstored
      obtain rfl := Option.some.inj (htext.symm.trans htext')
      have hshown := hkept _ (shown_of_line hparse hline hs)
      rwa [hevent] at hshown
  intro event hevent
  unfold acknowledgedBy at hevent
  rw [hcall] at hevent
  cases call with
  | append event' =>
      rw [List.mem_singleton.1 hevent]
      exact happend hcall
  | appendTodoChange now event' =>
      rw [List.mem_singleton.1 hevent]
      exact happend hcall
  | tryClaim host now request =>
      obtain ⟨line, hline, rfl⟩ := List.mem_map.1 hevent
      exact shown_of_written hstored hout hline

/-- A terminated file that can be read and shows the events. -/
structure Intact (format : LineFormat) (derive : Event → String) (file : Bytes)
    (events : List Event) : Prop where
  terminated : TerminatedFile file
  shows : Shows format derive file events

theorem Intact.step
    (hlawful : format.Lawful)
    {file : Bytes}
    {events : List Event}
    (h : Intact format derive file events)
    {call : LedgerCall}
    (hclean : CleanCall format derive entry file call) :
    Intact format derive (fileStep format derive entry file call)
      (events ++ acknowledgedBy format derive entry file call) := by
  obtain ⟨stored, hstored, hevents⟩ := h.shows
  cases hcall : call.writes format derive entry file with
  | error message =>
      have hnone : acknowledgedBy format derive entry file call = [] := by
        unfold acknowledgedBy
        rw [hcall]
      have hsame : fileStep format derive entry file call = file := by
        unfold fileStep
        rw [hcall]
      rw [hnone, hsame, List.append_nil]
      exact h
  | ok written =>
      obtain ⟨hwrites, hfree⟩ := hclean stored written hstored hcall
      obtain ⟨more, hmore, -⟩ := read_free hfree
      obtain ⟨hterminated, hread⟩ := readLedger_write hlawful hstored h.terminated hwrites
      have hstep : fileStep format derive entry file call =
          file ++ Utf8.encode (format.rendered written) := by
        unfold fileStep
        rw [hcall]
      have hkept : ∀ event ∈ stored.map StoredEvent.event,
          event ∈ (stored ++ more).map StoredEvent.event := by
        intro event hevent
        rw [List.map_append]
        exact List.mem_append_left _ hevent
      rw [hstep]
      refine ⟨hterminated, stored ++ more, hread _ hmore, fun event hevent => ?_⟩
      rcases List.mem_append.1 hevent with hold | hnew
      · exact hkept event (hevents event hold)
      · exact shown_of_acknowledged hstored hcall hmore hkept event hnew

/-- A run of calls on an intact file. -/
theorem Intact.run
    (hlawful : format.Lawful)
    {file : Bytes}
    {events : List Event}
    (h : Intact format derive file events)
    {calls : List LedgerCall}
    (hclean : Machine.Guarded (fileStep format derive entry) (CleanCall format derive entry)
      file calls) :
    Intact format derive (Machine.run (fileStep format derive entry) file calls)
      (events ++ Machine.trace (fileStep format derive entry)
        (acknowledgedBy format derive entry) file calls) :=
  hclean.trace_invariant (fun _ _ _ hintact hcall => hintact.step hlawful hcall) h

/--
A write that stops at byte `k` leaves the ledger usable exactly if the file was
terminated and the write stopped between two lines.
-/
theorem failed_append_usable_iff
    (format : LineFormat)
    (derive : Event → String)
    (entry : RegistryEntry)
    (hlawful : format.Lawful)
    (file : Bytes)
    (stored : List StoredEvent)
    (hstored : readLedger format derive file = .ok stored)
    (call : LedgerCall)
    (written : List StoredEvent)
    (hcall : call.writes format derive entry file = .ok written)
    (hclean : CleanCall format derive entry file call)
    (k : Nat)
    (hk : k ≤ Utf8.size (format.rendered written))
    (hnext : ∀ out, readLedger format derive (tornFile format file written k) = .ok out →
      ∃ event, (LedgerCall.append event).writes format derive entry
          (tornFile format file written k) = .ok [storedAs derive event] ∧
        CleanCall format derive entry (tornFile format file written k) (.append event)) :
    Usable format derive entry file stored written k ↔
      TerminatedFile file ∧ BetweenLines format written k := by
  obtain ⟨hwrites, hfree⟩ := hclean stored written hstored hcall
  constructor
  · rintro ⟨-, -, -, out, -, hout, hlater⟩
    refine between_of_readable hlawful hstored hwrites hk hout ?_
    -- Otherwise the next event makes the ledger unreadable.
    by_contra hopen
    obtain ⟨event, hwritten, hcleanNext⟩ := hnext out hout
    obtain ⟨shown, hshown, -⟩ := hlater [.append event] ⟨hcleanNext, trivial⟩
    obtain ⟨torn, htorn, hparse⟩ := readLedger_iff.1 hout
    have hline := List.forall_mem_singleton.1 (hcleanNext out _ hout hwritten).1
    have hstep : Machine.run (fileStep format derive entry)
        (tornFile format file written k) [.append event] =
        Utf8.encode (torn ++ (format.render (storedAs derive event) ++ ['\n'])) := by
      rw [Machine.run_cons, Machine.run_nil, fileStep, hwritten, Utf8.encode_append,
        Utf8.encode_of_fromUtf8 htorn]
      simp [LineFormat.rendered]
    rw [hstep, readLedger_iff, Utf8.fromUtf8_encode] at hshown
    obtain ⟨text, htext, hshown⟩ := hshown
    obtain rfl := Option.some.inj htext
    exact unreadable_of_unterminated hlawful hparse
      (fun hterminated => hopen ⟨torn, htorn, hterminated⟩) hline [] shown hshown
  · rintro ⟨hterminated, j, hj, rfl⟩
    have hwritesTake : ∀ line ∈ written.take j, format.Writes line :=
      fun line hline => hwrites line (List.mem_of_mem_take hline)
    have hfreeTake : FreeIds derive stored (written.take j) := by
      intro line hline prior hprior
      refine hfree line (List.mem_of_mem_take hline) prior ?_
      rcases List.mem_append.1 hprior with hold | hnew
      · exact List.mem_append_left _ hold
      · exact List.mem_append_right _ (List.mem_of_mem_take hnew)
    obtain ⟨more, hmore, -⟩ := read_free hfreeTake
    obtain ⟨hterminated', hread⟩ := readLedger_write hlawful hstored hterminated hwritesTake
    refine ⟨j, hj, Nat.le_succ _, stored ++ more, hmore, ?_⟩
    rw [tornFile_between]
    refine ⟨hread _ hmore, fun calls hcalls => ?_⟩
    have hintact : Intact format derive
        (file ++ Utf8.encode (format.rendered (written.take j)))
        ((stored ++ more).map StoredEvent.event) :=
      ⟨hterminated', stored ++ more, hread _ hmore, fun _ h => h⟩
    exact (hintact.run hlawful hcalls).shows

end File

/-! ## A ledger of three events -/

/-- The text of a line of the store: its id, the empty source fields, the event. -/
def renderStored (stored : StoredEvent) : Text :=
  match stored.event.kind.json with
  | some (kind, fields) =>
      (Json.obj
        ([("event_id", .str stored.eventId),
            ("producer", .null),
            ("source_ref", .null),
            ("source_section", .null),
            ("source_line", .null),
            ("privacy", .null),
            ("kind", .str kind),
            ("goal_id", .str stored.event.goalId)] ++ fields ++
          [("ts", natJson stored.event.ts)])).compact
  | none => []

/-- A reader of the given events. -/
def tableFormat (table : List StoredEvent) : LineFormat where
  render := renderStored
  read := fun line =>
    match table.find? fun stored =>
        renderStored stored = (line.dropWhile isJsonSpace).rdropWhile isJsonSpace with
    | some stored => .event stored
    | none => .notJson

/-- The events have texts that open with a brace, none the start of another. -/
def PrefixFree (table : List StoredEvent) : Prop :=
  ∀ s ∈ table, (renderStored s).head? = some '{' ∧
    ∀ s' ∈ table, renderStored s <+: renderStored s' → renderStored s = renderStored s'

instance (table : List StoredEvent) : Decidable (PrefixFree table) :=
  inferInstanceAs (Decidable (∀ s ∈ table, _ ∧ ∀ s' ∈ table, _ → _))

theorem read_tableFormat
    {table : List StoredEvent}
    {line : Text}
    (h : ((tableFormat table).read line).isEntry = true) :
    ∃ s ∈ table, renderStored s = (line.dropWhile isJsonSpace).rdropWhile isJsonSpace := by
  simp only [tableFormat] at h
  split at h
  · rename_i s hfind
    have hsame := List.find?_some hfind
    exact ⟨s, List.mem_of_find?_eq_some hfind, of_decide_eq_true hsame⟩
  · cases h

theorem rdropWhile_append_of_exists
    {p : Char → Bool}
    {u : Text}
    (h : ∃ c ∈ u, p c = false)
    (t : Text) :
    ∃ u', u' ≠ [] ∧ (t ++ u).rdropWhile p = t ++ u' := by
  have hne : u.reverse.dropWhile p ≠ [] := by
    rw [ne_eq, List.dropWhile_eq_nil_iff]
    intro hall
    obtain ⟨c, hc, hnot⟩ := h
    rw [hall c (List.mem_reverse.2 hc)] at hnot
    cases hnot
  refine ⟨u.rdropWhile p, ?_, ?_⟩
  · simpa [List.rdropWhile] using hne
  · rw [List.rdropWhile, List.reverse_append, List.dropWhile_append, if_neg (by simpa using hne),
      List.reverse_append, List.reverse_reverse]
    rfl

theorem lawful_tableFormat
    {table : List StoredEvent}
    (h : PrefixFree table) :
    (tableFormat table).Lawful where
  leading := by
    intro w t hw
    have hdrop : (w ++ t).dropWhile isJsonSpace = t.dropWhile isJsonSpace := by
      rw [List.dropWhile_append, List.dropWhile_eq_nil_iff.2 hw]
      rfl
    simp only [tableFormat, hdrop]
  opening := by
    intro t ht
    obtain ⟨s, hs, hsame⟩ := read_tableFormat ht
    obtain ⟨rest, hrest⟩ := List.rdropWhile_prefix isJsonSpace (t.dropWhile isJsonSpace)
    rw [← hrest, ← hsame, List.head?_append, (h s hs).1]
    rfl
  trailing := by
    intro t u ht hu
    by_contra hentry
    rw [Bool.not_eq_false] at hentry
    obtain ⟨s, hs, hsame⟩ := read_tableFormat ht
    obtain ⟨s', hs', hsame'⟩ := read_tableFormat hentry
    have hbody : t.dropWhile isJsonSpace ≠ [] := by
      intro hnil
      have hhead := (h s hs).1
      rw [hsame, hnil] at hhead
      cases hhead
    have hfront : (t ++ u).dropWhile isJsonSpace = t.dropWhile isJsonSpace ++ u := by
      rw [List.dropWhile_append, if_neg (by simpa using hbody)]
    obtain ⟨u', hu', hback⟩ := rdropWhile_append_of_exists hu (t.dropWhile isJsonSpace)
    have hstart := List.rdropWhile_prefix isJsonSpace (t.dropWhile isJsonSpace)
    rw [hfront, hback] at hsame'
    have hsmaller : renderStored s <+: renderStored s' := by
      rw [hsame, hsame']
      exact hstart.trans (List.prefix_append _ _)
    have hlength := congrArg List.length ((h s hs).2 s' hs' hsmaller)
    rw [hsame, hsame', List.length_append] at hlength
    have hle := hstart.length_le
    have hpos := List.length_pos_iff.2 hu'
    omega

def expiredAt (ts : Nat) : Event where
  goalId := "g"
  kind := .todoExpired "T1"
  ts := ts

/-- The line of an event under its content-derived id. -/
def expiredLine (ts : Nat) : StoredEvent :=
  storedAs (deriveEventId serializeEvent) (expiredAt ts)

def threeFormat : LineFormat :=
  tableFormat [expiredLine 1, expiredLine 2, expiredLine 3]

def oneLineFile : Bytes :=
  Utf8.encode (threeFormat.rendered [expiredLine 1])

def tornEntry : RegistryEntry where
  goalId := "g"
  objective := "ship"
  cwd := "/work"
  status := "active"
  createdAt := 1

theorem readLedger_encode
    {format : LineFormat}
    {derive : Event → String}
    (text : Text) :
    readLedger format derive (Utf8.encode text) = parseLedgerText format derive text := by
  rw [readLedger, readToString, Utf8.fromUtf8_encode]
  rfl

/-- A file of one event, to which two more can be appended. -/
structure OneLine : Prop where
  read : readLedger threeFormat (deriveEventId serializeEvent) oneLineFile =
    .ok [expiredLine 1]
  second : (LedgerCall.append (expiredAt 2)).writes threeFormat (deriveEventId serializeEvent)
    tornEntry oneLineFile = .ok [expiredLine 2]
  writes : ∀ line ∈ [expiredLine 2, expiredLine 3], threeFormat.Writes line
  terminated : Terminated (threeFormat.rendered [expiredLine 1])

theorem oneLine : OneLine where
  read := by
    rw [oneLineFile, readLedger_encode]
    decide +kernel
  second := by
    rw [LedgerCall.writes, appendText, readToString, oneLineFile, Utf8.fromUtf8_encode]
    decide +kernel
  writes := by
    intro line hline
    rcases List.mem_pair.1 hline with rfl | rfl
    · exact ⟨by decide +kernel, by decide +kernel, by decide +kernel⟩
    · exact ⟨by decide +kernel, by decide +kernel, by decide +kernel⟩
  terminated := by
    have hrest : (Lines.cut (threeFormat.rendered [expiredLine 1])).2 = [] := by
      decide +kernel
    unfold Terminated
    rw [hrest]
    exact fun c hc => (List.not_mem_nil hc).elim

theorem read_oneLineFile :
    readLedger threeFormat (deriveEventId serializeEvent) oneLineFile =
      .ok [expiredLine 1] :=
  oneLine.read

theorem writes_second :
    (LedgerCall.append (expiredAt 2)).writes threeFormat (deriveEventId serializeEvent)
      tornEntry oneLineFile = .ok [expiredLine 2] :=
  oneLine.second

/-- The write of the second event stops at its fifth byte: nothing can be read any more. -/
theorem torn_line_unreadable :
    readLedger threeFormat (deriveEventId serializeEvent) oneLineFile =
        .ok [expiredLine 1] ∧
      (LedgerCall.append (expiredAt 2)).writes threeFormat (deriveEventId serializeEvent)
        tornEntry oneLineFile = .ok [expiredLine 2] ∧
      ¬ Usable threeFormat (deriveEventId serializeEvent) tornEntry oneLineFile
        [expiredLine 1] [expiredLine 2] 5 := by
  refine ⟨read_oneLineFile, writes_second, ?_⟩
  rintro ⟨-, -, -, out, -, hout, -⟩
  have htorn : tornFile threeFormat oneLineFile [expiredLine 2] 5 =
      Utf8.encode (threeFormat.rendered [expiredLine 1] ++
        (threeFormat.rendered [expiredLine 2]).take 5) := by
    decide +kernel
  rw [htorn, readLedger_encode] at hout
  have herror : (parseLedgerText threeFormat (deriveEventId serializeEvent)
      (threeFormat.rendered [expiredLine 1] ++
        (threeFormat.rendered [expiredLine 2]).take 5)).isOk = false := by
    decide +kernel
  rw [hout] at herror
  cases herror

theorem writes_expiredLine :
    ∀ line ∈ [expiredLine 2, expiredLine 3], threeFormat.Writes line :=
  oneLine.writes

theorem terminated_oneLine : Terminated (threeFormat.rendered [expiredLine 1]) :=
  oneLine.terminated

/-- The second event was written to its end, and the third comes behind it. -/
theorem failed_append_usable_whole :
    Usable threeFormat (deriveEventId serializeEvent) tornEntry oneLineFile
      [expiredLine 1] [expiredLine 2] (Utf8.size (threeFormat.rendered [expiredLine 2])) := by
  have htorn : tornFile threeFormat oneLineFile [expiredLine 2]
      (Utf8.size (threeFormat.rendered [expiredLine 2])) =
      Utf8.encode (threeFormat.rendered [expiredLine 1, expiredLine 2]) := by
    have hbetween : tornFile threeFormat oneLineFile [expiredLine 2]
        (Utf8.size (threeFormat.rendered [expiredLine 2])) =
        oneLineFile ++ Utf8.encode (threeFormat.rendered [expiredLine 2]) :=
      tornFile_between oneLineFile [expiredLine 2] 1
    rw [hbetween, oneLineFile, ← Utf8.encode_append]
    simp [LineFormat.rendered]
  have hread : readLedger threeFormat (deriveEventId serializeEvent)
      (Utf8.encode (threeFormat.rendered [expiredLine 1, expiredLine 2])) =
      .ok [expiredLine 1, expiredLine 2] := by
    rw [readLedger_encode]
    decide +kernel
  have hthird : (LedgerCall.append (expiredAt 3)).writes threeFormat
      (deriveEventId serializeEvent) tornEntry
      (Utf8.encode (threeFormat.rendered [expiredLine 1, expiredLine 2])) =
      .ok [expiredLine 3] := by
    rw [LedgerCall.writes, appendText, readToString, Utf8.fromUtf8_encode]
    decide +kernel
  refine (failed_append_usable_iff threeFormat (deriveEventId serializeEvent) tornEntry
    (lawful_tableFormat (by decide +kernel)) oneLineFile [expiredLine 1] read_oneLineFile
    (.append (expiredAt 2)) [expiredLine 2] writes_second ?_ _ le_rfl ?_).2
    ⟨⟨_, Utf8.fromUtf8_encode _, terminated_oneLine⟩, 1, le_rfl, rfl⟩
  · intro stored written hstored hwritten
    obtain rfl := Except.ok.inj (read_oneLineFile.symm.trans hstored)
    obtain rfl := Except.ok.inj (writes_second.symm.trans hwritten)
    refine ⟨fun line hline => writes_expiredLine line ?_, by decide +kernel⟩
    exact List.mem_cons.2 (Or.inl (List.mem_singleton.1 hline))
  · rw [htorn]
    refine fun out _ => ⟨expiredAt 3, hthird, fun stored written hstored hwritten => ?_⟩
    obtain rfl := Except.ok.inj (hread.symm.trans hstored)
    obtain rfl := Except.ok.inj (hthird.symm.trans hwritten)
    refine ⟨fun line hline => writes_expiredLine line ?_, by decide +kernel⟩
    exact List.mem_cons_of_mem _ hline

end Orchestration
end FutureOs
