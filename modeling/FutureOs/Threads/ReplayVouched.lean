import FutureOs.Threads.Replay

/-!
# What a replay read vouches for

`pagesRead` are the pages that a read takes in.  `Taken` says what the variables of the loop
are after them: the events of the pages, the watermark of the first page that names one, the
raw counts if all pages state them.  What a read returns is read off the last of these states.
-/

namespace FutureOs
namespace Threads
namespace Replay

/-! ## The pages of a read -/

/-- The pages that the read takes in, in order. -/
def pagesRead (options : ReplayOptions) : Reading → List Turn → List JsValue
  | _, [] => []
  | reading, turn :: rest =>
      match pageOf options reading turn with
      | .error _ => []
      | .ok page =>
          match takePage options.runId reading page with
          | .error _ => []
          | .ok (.last _) => [page]
          | .ok (.more reading') => page :: pagesRead options reading' rest

def eventPages (pages : List JsValue) : List JsValue :=
  pages.filter fun page => !isSnapshot page

def watermarkOf (page : JsValue) : Option Int :=
  (page.get "watermark").safeInteger?

/-- The watermark that the first page to name one pins. -/
def pinned (pages : List JsValue) : Option Int :=
  (eventPages pages).findSome? watermarkOf

def pageEvents (pages : List JsValue) : List ReplayEvent :=
  (eventPages pages).flatMap fun page => normalizeReplayEvents (page.get "events")

def rawCountOf (page : JsValue) : Option Nat :=
  safeNat (page.get "rawEvents")

/-- The sum of the raw counts, if all pages state theirs. -/
def rawTotal (pages : List JsValue) : Option Int :=
  if (eventPages pages).all fun page => (rawCountOf page).isSome then
    some ((eventPages pages).map fun page => ((rawCountOf page).map Int.ofNat).getD 0).sum
  else
    none

def isTruncated (pages : List JsValue) : Bool :=
  (eventPages pages).any fun page => (page.get "truncated").truthy

/-- The last projection that came without the snapshot flag. -/
def lastLegacy (pages : List JsValue) : Option ReplayProjection :=
  (eventPages pages).reverse.findSome? legacyOf

section Concat

variable {pages : List JsValue} {page : JsValue}

theorem eventPages_concat (h : isSnapshot page = false) :
    eventPages (pages ++ [page]) = eventPages pages ++ [page] := by
  simp [eventPages, h]

theorem pinned_concat (h : isSnapshot page = false) :
    pinned (pages ++ [page]) = (pinned pages).or (watermarkOf page) := by
  rw [pinned, eventPages_concat h, List.findSome?_append]
  simp [pinned]

theorem pageEvents_concat (h : isSnapshot page = false) :
    pageEvents (pages ++ [page]) =
      pageEvents pages ++ normalizeReplayEvents (page.get "events") := by
  simp [pageEvents, eventPages_concat h]

theorem isTruncated_concat (h : isSnapshot page = false) :
    isTruncated (pages ++ [page]) = (isTruncated pages || (page.get "truncated").truthy) := by
  simp [isTruncated, eventPages_concat h]

theorem lastLegacy_concat (h : isSnapshot page = false) :
    lastLegacy (pages ++ [page]) = (legacyOf page).or (lastLegacy pages) := by
  rw [lastLegacy, eventPages_concat h, List.reverse_append]
  cases hlegacy : legacyOf page <;> simp [hlegacy, lastLegacy]

theorem rawTotal_concat (h : isSnapshot page = false) :
    rawTotal (pages ++ [page]) =
      (rawTotal pages).bind fun total => (rawCountOf page).map fun n => total + n := by
  rw [rawTotal, rawTotal, eventPages_concat h]
  simp only [List.all_append, List.map_append, List.sum_append]
  by_cases hall : (eventPages pages).all (fun page => (rawCountOf page).isSome) = true
  · cases hraw : rawCountOf page <;> simp [hall, hraw]
  · simp [hall]

end Concat

/-! ## The state of a read -/

/-- A snapshot page and what it bootstraps. -/
structure Bootstraps (runId : String) (page : JsValue) (bootstrap : Bootstrap) : Prop where
  flag : isSnapshot page = true
  cursor : ((page.get "projection").get "cursor").safeInteger? = some bootstrap.cursor
  events : bootstrap.events = projectionEvents (page.get "projection")
  run : bootstrap.runId = projectionRun (page.get "projection")
  valid : foldedValid runId bootstrap.cursor (-1) bootstrap.events = true

/-- The variables of the loop after the pages. -/
structure Taken (runId : String) (pages : List JsValue) (reading : Reading) : Prop where
  offset : (JsNumber.ofInt 0).le reading.offset = true
  events : reading.events = pageEvents pages
  ofRun : ∀ event ∈ reading.events, event.OfRun runId
  watermark : reading.watermark = pinned pages
  repeated : ∀ before page after, pages = before ++ page :: after →
    ∀ w, pinned before = some w → isSnapshot page = false ∧ watermarkOf page = some w
  raw : (if reading.rawEventsComplete then some reading.rawEvents else none) = rawTotal pages
  truncated : reading.truncated = isTruncated pages
  legacy : reading.legacyProjection = lastLegacy pages
  noLegacy : reading.bootstrap.isSome → lastLegacy pages = none
  bootstrap : (reading.bootstrap = none ∧ ∀ page ∈ pages, isSnapshot page = false) ∨
    ∃ bootstrap page rest, reading.bootstrap = some bootstrap ∧ pages = page :: rest ∧
      Bootstraps runId page bootstrap ∧ ∀ page ∈ rest, isSnapshot page = false

/-- Before another page is read, a first page has left its mark. -/
def Reading.Started (reading : Reading) : Prop :=
  reading.bootstrap.isSome ∨ reading.watermark.isSome ∨ reading.offset ≠ .ofInt 0

theorem taken_nil (options : ReplayOptions) : Taken options.runId [] options.start where
  offset := (by decide : (JsNumber.ofInt 0).le (JsNumber.ofInt 0) = true)
  events := rfl
  ofRun := by simp [ReplayOptions.start]
  watermark := rfl
  repeated := by simp
  raw := rfl
  truncated := rfl
  legacy := rfl
  noLegacy := fun _ => rfl
  bootstrap := .inl ⟨rfl, by simp⟩

/-- What holds of the last page and held before holds at every place. -/
theorem repeated_concat
    {p : List JsValue → JsValue → Prop}
    {pages : List JsValue}
    {page : JsValue}
    (h : ∀ before page after, pages = before ++ page :: after → p before page)
    (hlast : p pages page) :
    ∀ before page' after, pages ++ [page] = before ++ page' :: after → p before page' := by
  intro before page' after heq
  rcases List.eq_nil_or_concat after with rfl | ⟨rest, last, rfl⟩
  · obtain ⟨rfl, hpage⟩ := List.append_inj' heq rfl
    obtain rfl : page = page' := by simpa using hpage
    exact hlast
  · have hsplit : pages ++ [page] = (before ++ page' :: rest) ++ [last] := by
      rw [heq]
      simp
    obtain ⟨hpages, -⟩ := List.append_inj' hsplit rfl
    exact h before page' rest hpages

/-- A page of events that is taken in. -/
theorem Taken.addPage
    {runId : String}
    {pages : List JsValue}
    {reading : Reading}
    {page : JsValue}
    (h : Taken runId pages reading)
    (hevents : isSnapshot page = false)
    (hprojection : ¬ (reading.bootstrap.isSome && (page.get "projection").truthy) = true)
    (hwatermark : ¬ (reading.watermark.isSome &&
      (page.get "watermark").safeInteger? ≠ reading.watermark) = true)
    (hrun : ¬ ((normalizeReplayEvents (page.get "events")).any
      fun event => !event.OfRun runId) = true) :
    Taken runId (pages ++ [page]) (reading.addPage page) where
  offset := h.offset
  events := by rw [pageEvents_concat hevents, ← h.events]; rfl
  ofRun := by
    intro event hevent
    rcases List.mem_append.1 hevent with hold | hnew
    · exact h.ofRun event hold
    · by_contra hother
      exact hrun (List.any_eq_true.2 ⟨event, hnew, by simpa using hother⟩)
  watermark := by
    rw [pinned_concat hevents, ← h.watermark]
    change (watermarkOf page).or reading.watermark = reading.watermark.or (watermarkOf page)
    cases hpinned : reading.watermark with
    | none => simp
    | some w =>
        have hsame : watermarkOf page = some w := by simpa [hpinned, watermarkOf] using hwatermark
        simp [hsame]
  repeated := by
    refine repeated_concat h.repeated fun w hw => ⟨hevents, ?_⟩
    rw [← h.watermark] at hw
    simpa [hw, watermarkOf] using hwatermark
  raw := by
    rw [rawTotal_concat hevents, ← h.raw]
    change (if (reading.rawEventsComplete && (rawCountOf page).isSome) = true then
      some (reading.rawEvents + ((rawCountOf page).map Int.ofNat).getD 0) else none) = _
    cases reading.rawEventsComplete <;> cases rawCountOf page <;> simp
  truncated := by rw [isTruncated_concat hevents, ← h.truncated]; rfl
  legacy := by
    rw [lastLegacy_concat hevents, ← h.legacy]
    change (if reading.bootstrap.isNone = true then _ else _) = _
    split
    · rfl
    · rename_i hboot
      have hsome : reading.bootstrap.isSome = true :=
        Option.isSome_iff_ne_none.2 (by simpa using hboot)
      have hnone : legacyOf page = none := by
        have hfalsy : (page.get "projection").truthy = false := by
          simpa [hsome] using hprojection
        simp [legacyOf, hfalsy]
      rw [hnone, Option.none_or]
  noLegacy := by
    intro hboot
    have hsome : reading.bootstrap.isSome = true := hboot
    have hfalsy : (page.get "projection").truthy = false := by simpa [hsome] using hprojection
    have hnone : legacyOf page = none := by simp [legacyOf, hfalsy]
    rw [lastLegacy_concat hevents, hnone, Option.none_or, h.noLegacy hsome]
  bootstrap := by
    rcases h.bootstrap with ⟨hnone, hall⟩ | ⟨b, first, rest, hboot, rfl, hfirst, hall⟩
    · refine .inl ⟨hnone, fun q hq => ?_⟩
      rcases List.mem_append.1 hq with hq | hq
      · exact hall q hq
      · exact List.mem_singleton.1 hq ▸ hevents
    · refine .inr ⟨b, first, rest ++ [page], hboot, rfl, hfirst, fun q hq => ?_⟩
      rcases List.mem_append.1 hq with hq | hq
      · exact hall q hq
      · exact List.mem_singleton.1 hq ▸ hevents

/-- A snapshot is taken only as the first page. -/
theorem takeSnapshot_ok
    {runId : String}
    {reading reading' : Reading}
    {page : JsValue}
    (h : takeSnapshot runId reading page = .ok reading') :
    ¬ reading.Started ∧ ∃ boundary,
      ((page.get "projection").get "cursor").safeInteger? = some boundary ∧
        foldedValid runId boundary (-1) (projectionEvents (page.get "projection")) = true ∧
        reading' =
          { reading with
            bootstrap := some ⟨projectionRun (page.get "projection"), boundary,
              projectionEvents (page.get "projection")⟩
            cursor := .ofInt boundary } := by
  rw [takeSnapshot] at h
  cases hboundary : ((page.get "projection").get "cursor").safeInteger? with
  | none => simp [hboundary] at h
  | some boundary =>
      simp only [hboundary] at h
      split at h
      · simp at h
      · rename_i hcond
        simp only [Bool.or_eq_true, not_or, decide_eq_true_eq, Bool.not_eq_true',
          Bool.not_eq_false] at hcond
        obtain ⟨⟨⟨⟨⟨⟨⟨⟨⟨⟨⟨hboot, -⟩, hoffset⟩, hwatermark⟩, -⟩, -⟩, -⟩, -⟩, -⟩, -⟩, -⟩, hvalid⟩ :=
          hcond
        refine ⟨?_, boundary, rfl, hvalid, (Except.ok.inj h).symm⟩
        rintro (hsome | hsome | hne)
        · exact hboot hsome
        · exact hwatermark hsome
        · exact hoffset hne

theorem Taken.snapshot
    {runId : String}
    {reading reading' : Reading}
    {page : JsValue}
    (h : Taken runId [] reading)
    (hflag : isSnapshot page = true)
    (htake : takeSnapshot runId reading page = .ok reading') :
    Taken runId [page] reading' ∧ reading'.Started := by
  obtain ⟨-, boundary, hcursor, hvalid, rfl⟩ := takeSnapshot_ok htake
  have hpages : eventPages [page] = eventPages [] := by simp [eventPages, hflag]
  refine ⟨⟨h.offset, ?_, h.ofRun, ?_, ?_, ?_, ?_, ?_, ?_, ?_⟩, .inl rfl⟩
  · rw [pageEvents, hpages]
    exact h.events
  · rw [pinned, hpages]
    exact h.watermark
  · refine repeated_concat h.repeated fun w hw => ?_
    simp [pinned, eventPages] at hw
  · rw [rawTotal, hpages]
    exact h.raw
  · rw [isTruncated, hpages]
    exact h.truncated
  · rw [lastLegacy, hpages]
    exact h.legacy
  · intro _
    rw [lastLegacy, hpages]
    rfl
  · exact .inr ⟨_, page, [], rfl, rfl, ⟨hflag, hcursor, rfl, rfl, hvalid⟩, by simp⟩

theorem takeEvents_ok
    {runId : String}
    {reading : Reading}
    {page : JsValue}
    {progress : Progress}
    (h : takeEvents runId reading page = .ok progress) :
    ¬ (reading.bootstrap.isSome && (page.get "projection").truthy) = true ∧
      ¬ (reading.watermark.isSome &&
        (page.get "watermark").safeInteger? ≠ reading.watermark) = true ∧
      ¬ ((normalizeReplayEvents (page.get "events")).any
        fun event => !event.OfRun runId) = true ∧
      advance (reading.addPage page) page = .ok progress := by
  rw [takeEvents] at h
  split at h
  · simp at h
  · rename_i hprojection
    split at h
    · simp at h
    · rename_i hwatermark
      split at h
      · simp at h
      · rename_i hrun
        exact ⟨hprojection, hwatermark, hrun, h⟩

/-- A read that goes on has a new cursor or a new offset, and one that ends has neither. -/
theorem advance_ok
    {reading : Reading}
    {page : JsValue}
    {progress : Progress}
    (h : advance reading page = .ok progress) :
    progress = .last reading ∨
      (∃ next, (watermarkOf page).isSome ∧
        progress = .more { reading with cursor := .ofInt next, offset := .ofInt 0 }) ∨
      ∃ nextOffset, nextOffset.le reading.offset = false ∧
        progress = .more { reading with offset := nextOffset } := by
  rw [advance] at h
  split at h
  · exact .inl (Except.ok.inj h).symm
  split at h
  · rename_i hwatermark
    cases hnext : (page.get "nextSinceIdx").safeInteger? with
    | none => simp [hnext] at h
    | some next =>
        simp only [hnext] at h
        split at h
        · simp at h
        · exact .inr (.inl ⟨next, hwatermark, (Except.ok.inj h).symm⟩)
  · cases hoffset : (page.get "nextOffset").number? with
    | none =>
        simp only [hoffset] at h
        exact .inl (Except.ok.inj h).symm
    | some nextOffset =>
        simp only [hoffset] at h
        split at h
        · exact .inl (Except.ok.inj h).symm
        · rename_i hle
          exact .inr (.inr ⟨nextOffset, by simpa using hle, (Except.ok.inj h).symm⟩)

/-- Another cursor and offset change none of what the pages have told. -/
theorem Taken.moved
    {runId : String}
    {pages : List JsValue}
    {reading : Reading}
    (h : Taken runId pages reading)
    {cursor offset : JsNumber}
    (hoffset : (JsNumber.ofInt 0).le offset = true) :
    Taken runId pages { reading with cursor := cursor, offset := offset } :=
  ⟨hoffset, h.events, h.ofRun, h.watermark, h.repeated, h.raw, h.truncated, h.legacy,
    h.noLegacy, h.bootstrap⟩

/-- The reading of a progress. -/
def Progress.reading : Progress → Reading
  | .more reading => reading
  | .last reading => reading

/-- The state behind a page. -/
theorem Taken.page
    {runId : String}
    {pages : List JsValue}
    {reading : Reading}
    {page : JsValue}
    {progress : Progress}
    (h : Taken runId pages reading)
    (hstarted : pages = [] ∨ reading.Started)
    (htake : takePage runId reading page = .ok progress) :
    Taken runId (pages ++ [page]) progress.reading ∧
      ∀ reading', progress = .more reading' → reading'.Started := by
  rw [takePage] at htake
  split at htake
  · rename_i hflag
    cases hsnapshot : takeSnapshot runId reading page with
    | error e => simp [hsnapshot, Except.map] at htake
    | ok reading' =>
        have hprogress : Progress.more reading' = progress := by
          simpa [hsnapshot, Except.map] using htake
        have hfirst : pages = [] :=
          hstarted.resolve_right (takeSnapshot_ok hsnapshot).1
        obtain ⟨htaken, hnext⟩ := Taken.snapshot (hfirst ▸ h) hflag hsnapshot
        subst hfirst
        rw [← hprogress]
        refine ⟨htaken, fun reading'' heq => ?_⟩
        obtain rfl := Progress.more.inj heq
        exact hnext
  · rename_i hflag
    obtain ⟨hprojection, hwatermark, hrun, hadvance⟩ := takeEvents_ok htake
    have hadded := h.addPage (by simpa using hflag) hprojection hwatermark hrun
    rcases advance_ok hadvance with rfl | ⟨next, hsome, rfl⟩ | ⟨nextOffset, hle, rfl⟩
    · exact ⟨hadded, by simp⟩
    · refine ⟨hadded.moved (by decide), fun reading' heq => ?_⟩
      obtain rfl := Progress.more.inj heq
      refine .inr (.inl ?_)
      change ((watermarkOf page).or reading.watermark).isSome = true
      rw [Option.isSome_or, hsome, Bool.true_or]
    · have hpos := JsNumber.le_trans hadded.offset (JsNumber.le_of_not_le hle)
      refine ⟨hadded.moved hpos, fun reading' heq => ?_⟩
      obtain rfl := Progress.more.inj heq
      refine .inr (.inr fun hzero => ?_)
      have hback : nextOffset.le (reading.addPage page).offset = true := by
        rw [show nextOffset = JsNumber.ofInt 0 from hzero]
        exact hadded.offset
      simp [hback] at hle

/-- A read that returns ends in a state its pages have left. -/
theorem taken_readFrom
    {parse : String → Option JsValue}
    {options : ReplayOptions}
    {turns : List Turn}
    {pages : List JsValue}
    {reading : Reading}
    {replay : RunReplay}
    (h : Taken options.runId pages reading)
    (hstarted : pages = [] ∨ reading.Started)
    (hread : readFrom parse options reading turns = some (.ok replay)) :
    ∃ final, Taken options.runId (pages ++ pagesRead options reading turns) final ∧
      finish parse options final = .ok replay := by
  induction turns generalizing pages reading with
  | nil => simp [readFrom] at hread
  | cons turn rest ih =>
      rw [readFrom] at hread
      rw [pagesRead]
      cases hpage : pageOf options reading turn with
      | error e => simp [hpage] at hread
      | ok page =>
          simp only [hpage] at hread ⊢
          cases htake : takePage options.runId reading page with
          | error e => simp [htake] at hread
          | ok progress =>
              obtain ⟨htaken, hnext⟩ := h.page hstarted htake
              cases progress with
              | last final =>
                  simp only [htake] at hread ⊢
                  exact ⟨final, htaken, Option.some.inj hread⟩
              | more reading' =>
                  simp only [htake] at hread ⊢
                  obtain ⟨final, hfinal, hfinish⟩ := ih htaken (.inr (hnext _ rfl)) hread
                  exact ⟨final, by simpa [Progress.reading] using hfinal, hfinish⟩

/-! ## One event an index -/

/-- Each event has the next index, from `n` on. -/
def NumberedFrom : Int → List ReplayEvent → Prop
  | _, [] => True
  | n, event :: rest => event.idx = some (.ofInt n) ∧ NumberedFrom (n + 1) rest

/-- The index is a safe integer, and a canonical range does not start after it. -/
def StartsWithin (parse : String → Option JsValue) (event : ReplayEvent) : Prop :=
  ∃ idx, event.index? = some idx ∧
    ∀ start, contentRangeStart parse event.data = some start → (start : Int) ≤ idx

section Coverage

variable {parse : String → Option JsValue} {events : List ReplayEvent} {n : Int}

theorem numberedFrom_iff :
    events.map ReplayEvent.idx =
        (List.range events.length).map (fun index : Nat => some (JsNumber.ofInt (n + index))) ↔
      NumberedFrom n events := by
  induction events generalizing n with
  | nil => simp [NumberedFrom]
  | cons event rest ih =>
      have hshift : (List.range rest.length).map
          (fun index : Nat => some (JsNumber.ofInt (n + (index + 1 : Nat)))) =
          (List.range rest.length).map
            (fun index : Nat => some (JsNumber.ofInt (n + 1 + index))) := by
        refine List.map_congr_left fun index _ => ?_
        rw [show n + ((index + 1 : Nat) : Int) = n + 1 + index by omega]
      rw [List.length_cons, List.range_succ_eq_map, List.map_cons, List.map_cons, List.map_map,
        List.cons.injEq, NumberedFrom, ← ih (n := n + 1), ← hshift]
      simp [Function.comp_def]

theorem contiguous_iff :
    events.map ReplayEvent.idx =
        (List.range events.length).map (fun index : Nat => some (JsNumber.ofInt index)) ↔
      NumberedFrom 0 events := by
  rw [← numberedFrom_iff]
  simp

/-- A tail that is covered has only such events. -/
theorem startsWithin_of_coveredTo
    {cursor last : Int}
    (h : coveredTo parse cursor events = some last) :
    ∀ event ∈ events, StartsWithin parse event := by
  induction events generalizing cursor with
  | nil => simp
  | cons event rest ih =>
      rw [coveredTo] at h
      cases hidx : event.index? with
      | none => simp [hidx] at h
      | some idx =>
          simp only [hidx] at h
          split at h
          · simp at h
          split at h
          · simp at h
          split at h
          · simp at h
          rename_i hbounds _
          intro e he
          rcases List.mem_cons.1 he with rfl | he
          · refine ⟨idx, hidx, fun start hstart => ?_⟩
            rw [hstart] at hbounds
            have hle : ¬ idx < (start : Int) := fun hlt => hbounds (.inr (.inr hlt))
            omega
          · exact ih h e he

theorem index?_of_idx
    {event : ReplayEvent}
    {idx : Int}
    (hidx : event.idx = some (.ofInt n))
    (hindex : event.index? = some idx) :
    idx = n := by
  rw [ReplayEvent.index?, hidx] at hindex
  exact (JsNumber.ofInt_injective (JsNumber.safeInteger?_eq_some hindex)).symm

/-- One event an index covers the indices, where no range starts too late. -/
theorem coveredTo_numbered
    (hnumbered : NumberedFrom n events)
    (hpos : 0 ≤ n)
    (hwithin : ∀ event ∈ events, StartsWithin parse event) :
    coveredTo parse (n - 1) events = some (n - 1 + events.length) := by
  induction events generalizing n with
  | nil => simp [coveredTo]
  | cons event rest ih =>
      obtain ⟨hidx, hrest⟩ := hnumbered
      obtain ⟨idx, hindex, hstart⟩ := hwithin event (by simp)
      obtain rfl := index?_of_idx hidx hindex
      have htail := ih hrest (by omega) fun e he => hwithin e (by simp [he])
      rw [coveredTo, hindex]
      simp only
      rw [if_neg (by omega), if_neg, if_neg, show idx = idx + 1 - 1 by omega, htail,
        List.length_cons]
      · congr 1
        push_cast
        omega
      · rintro ⟨hlt, hnone⟩
        rw [hnone] at hlt
        simp at hlt
      · cases hcanonical : contentRangeStart parse event.data with
        | none =>
            simp only [Option.map_none, Option.getD_none]
            omega
        | some start =>
            have hle := hstart start hcanonical
            simp only [Option.map_some, Option.getD_some, Int.ofNat_eq_natCast]
            omega

theorem coveredTo_length
    {last : Int}
    (hnumbered : NumberedFrom n events)
    (h : coveredTo parse (n - 1) events = some last)
    (hpos : 0 ≤ n) :
    last = n - 1 + events.length := by
  rw [coveredTo_numbered hnumbered hpos (startsWithin_of_coveredTo h)] at h
  exact (Option.some.inj h).symm

end Coverage

/-! ## What the read returns -/

/-- The events cover the indices from 0 through the watermark, if there is one. -/
def CoversPrefix (parse : String → Option JsValue) (pages : List JsValue) : Prop :=
  tailCoversRange parse (pageEvents pages) (-1) (pinned pages) none = true

/-- One event an index, through the watermark. -/
def NumberedPrefix (pages : List JsValue) : Prop :=
  NumberedFrom 0 (pageEvents pages) ∧
    (pinned pages).all (· = ((pageEvents pages).length : Int) - 1) = true

/-- Of the events that cover the indices, none stands for several, and of those that are
numbered so none has a range that starts after it. -/
def PlainRanges (parse : String → Option JsValue) (pages : List JsValue) : Prop :=
  (CoversPrefix parse pages → NumberedFrom 0 (pageEvents pages)) ∧
    (NumberedPrefix pages → ∀ event ∈ pageEvents pages, StartsWithin parse event)

theorem coversPrefix_iff
    {parse : String → Option JsValue}
    {pages : List JsValue} :
    CoversPrefix parse pages ↔
      ∃ last, coveredTo parse (-1) (pageEvents pages) = some last ∧
        (pinned pages).all (last = ·) = true := by
  rw [CoversPrefix, tailCoversRange, isRawCount]
  cases coveredTo parse (-1) (pageEvents pages) <;> simp

/-- The two checks agree on a read exactly if its ranges are plain. -/
theorem numbered_iff_covers
    {parse : String → Option JsValue}
    {pages : List JsValue} :
    (NumberedPrefix pages ↔ CoversPrefix parse pages) ↔ PlainRanges parse pages := by
  have hlast : ∀ last, (pinned pages).all (last = ·) = (pinned pages).all (· = last) := by
    intro last
    cases pinned pages <;> simp [eq_comm]
  have hcovered :
      ∀ last, NumberedFrom 0 (pageEvents pages) →
        coveredTo parse (-1) (pageEvents pages) = some last →
          last = ((pageEvents pages).length : Int) - 1 := by
    intro last hnumbered hcovers
    have hlength := coveredTo_length (n := 0) hnumbered hcovers (le_refl _)
    omega
  constructor
  · intro hiff
    refine ⟨fun hcovers => (hiff.2 hcovers).1, fun hnumbered => ?_⟩
    obtain ⟨last, hcovers, -⟩ := coversPrefix_iff.1 (hiff.1 hnumbered)
    exact startsWithin_of_coveredTo hcovers
  · rintro ⟨hplain, hwithin⟩
    constructor
    · intro hnumbered
      have hcovers := coveredTo_numbered hnumbered.1 (le_refl _) (hwithin hnumbered)
      refine coversPrefix_iff.2 ⟨_, hcovers, ?_⟩
      rw [hlast, show (0 : Int) - 1 + (pageEvents pages).length =
        ((pageEvents pages).length : Int) - 1 by omega]
      exact hnumbered.2
    · intro hcovers
      have hnumbered := hplain hcovers
      obtain ⟨last, hcovered', hall⟩ := coversPrefix_iff.1 hcovers
      rw [hlast, hcovered last hnumbered hcovered'] at hall
      exact ⟨hnumbered, hall⟩

section Finish

variable {parse : String → Option JsValue} {options : ReplayOptions} {pages : List JsValue}
variable {final : Reading} {replay : RunReplay}

/-- A read without a snapshot returns the variables of the loop. -/
theorem finish_plain
    (hboot : final.bootstrap = none)
    (h : finish parse options final = .ok replay) :
    replay.events = final.events ∧ replay.watermark = final.watermark ∧
      replay.truncated = final.truncated ∧ replay.projection = final.legacyProjection ∧
      (replay.completePrefix = true ↔ final.legacyProjection.isSome = true ∨
        options.sinceIdx = .ofInt (-1) ∧ final.truncated = false ∧
          NumberedFrom 0 final.events ∧
          final.watermark.all (· = (final.events.length : Int) - 1) = true) := by
  rw [finish, hboot] at h
  obtain rfl := Except.ok.inj h
  refine ⟨rfl, rfl, rfl, rfl, ?_⟩
  simp only [Bool.or_eq_true, Bool.and_eq_true, decide_eq_true_eq, contiguous_iff, and_assoc,
    Bool.not_eq_true']

/-- A read with a snapshot returns it with the tail that follows it. -/
theorem finish_snapshot
    {bootstrap : Bootstrap}
    (hboot : final.bootstrap = some bootstrap)
    (h : finish parse options final = .ok replay) :
    ∃ watermark, final.watermark = some watermark ∧ replay.watermark = some watermark ∧
      replay.events = [] ∧
      replay.projection = some ⟨bootstrap.runId, .ofInt watermark,
        bootstrap.events ++ final.events⟩ ∧
      tailCoversRange parse final.events bootstrap.cursor (some watermark)
        (if final.rawEventsComplete then some final.rawEvents else none) = true := by
  rw [finish, hboot] at h
  generalize (if final.rawEventsComplete = true then some final.rawEvents else none) = raw at h ⊢
  cases hwatermark : final.watermark with
  | none => simp [hwatermark] at h
  | some watermark =>
      simp only [hwatermark] at h
      split at h
      · simp at h
      · rename_i hcond
        obtain rfl := Except.ok.inj h
        rw [Bool.or_eq_true, not_or] at hcond
        exact ⟨watermark, rfl, rfl, rfl, rfl, by simpa using hcond.2⟩

theorem ofRun_of_foldedValid
    {runId : String}
    {boundary previous : Int}
    {events : List ReplayEvent}
    (h : foldedValid runId boundary previous events = true) :
    ∀ event ∈ events, event.OfRun runId := by
  induction events generalizing previous with
  | nil => simp
  | cons event rest ih =>
      rw [foldedValid] at h
      cases hidx : event.index? with
      | none => simp [hidx] at h
      | some idx =>
          simp only [hidx, Bool.and_eq_true, decide_eq_true_eq] at h
          intro e he
          rcases List.mem_cons.1 he with rfl | he
          · exact h.1.2
          · exact ih h.2 e he

end Finish

/-- Whatever the pages: the events of a read are of its run; so are those of its projection
exactly if the last projection without the snapshot flag names no other run; a snapshot comes
back with a tail that covers what follows it; a read of the whole run that returns no
projection is complete when its events cover the run exactly if their ranges are plain; and no
page is taken in that does not repeat the watermark that is pinned. -/
theorem readRunReplay_vouches
    {parse : String → Option JsValue}
    {options : ReplayOptions}
    {turns : List Turn}
    {replay : RunReplay}
    (h : readRunReplay parse options turns = some (.ok replay)) :
    let pages := pagesRead options options.start turns
    (∀ event ∈ replay.events, event.OfRun options.runId) ∧
    ((∀ projection, replay.projection = some projection →
        ∀ event ∈ projection.events, event.OfRun options.runId) ↔
      ∀ projection, lastLegacy pages = some projection →
        ∀ event ∈ projection.events, event.OfRun options.runId) ∧
    (∀ page ∈ pages, isSnapshot page = true →
      ∃ boundary watermark,
        ((page.get "projection").get "cursor").safeInteger? = some boundary ∧
        pinned pages = some watermark ∧ replay.watermark = some watermark ∧
        replay.events = [] ∧
        replay.projection = some ⟨projectionRun (page.get "projection"), .ofInt watermark,
          projectionEvents (page.get "projection") ++ pageEvents pages⟩ ∧
        tailCoversRange parse (pageEvents pages) boundary (some watermark)
          (rawTotal pages) = true) ∧
    (options.sinceIdx = .ofInt (-1) → replay.projection = none →
      ((replay.completePrefix = true ↔ isTruncated pages = false ∧ CoversPrefix parse pages) ↔
        isTruncated pages = true ∨ PlainRanges parse pages)) ∧
    ∀ before page after, pages = before ++ page :: after →
      ∀ w, pinned before = some w → isSnapshot page = false ∧ watermarkOf page = some w := by
  obtain ⟨final, htaken, hfinish⟩ := taken_readFrom (taken_nil options) (.inl rfl) h
  rw [List.nil_append] at htaken
  intro pages
  change Taken options.runId pages final at htaken
  rcases htaken.bootstrap with
    ⟨hboot, hnone⟩ | ⟨bootstrap, first, rest, hboot, hpages, hfirst, hrest⟩
  · obtain ⟨hevents, hwatermark, htruncated, hprojection, hcomplete⟩ :=
      finish_plain hboot hfinish
    refine ⟨fun event hevent => htaken.ofRun event (hevents ▸ hevent), ?_, ?_, ?_,
      htaken.repeated⟩
    · rw [hprojection, htaken.legacy]
    · exact fun page hpage hflag => absurd hflag (by simp [hnone page hpage])
    · intro hsince hno
      rw [hprojection] at hno
      have hwhole : replay.completePrefix = true ↔
          isTruncated pages = false ∧ NumberedPrefix pages := by
        rw [hcomplete, hno, htaken.truncated, htaken.events, htaken.watermark, NumberedPrefix]
        simp [hsince]
      rw [hwhole]
      cases isTruncated pages with
      | true => simp
      | false => simp [numbered_iff_covers]
  · obtain ⟨watermark, hwatermark, hreturned, hevents, hprojection, hcovers⟩ :=
      finish_snapshot hboot hfinish
    refine ⟨by simp [hevents], ?_, ?_, ?_, htaken.repeated⟩
    · have hfolded := ofRun_of_foldedValid hfirst.valid
      refine iff_of_true (fun projection hsome event hevent => ?_) ?_
      · rw [hprojection] at hsome
        obtain rfl := Option.some.inj hsome
        rcases List.mem_append.1 hevent with hevent | hevent
        · exact hfolded event hevent
        · exact htaken.ofRun event hevent
      · rw [htaken.noLegacy (by simp [hboot])]
        simp
    · intro page hpage hflag
      have hsame : page = first := by
        rw [hpages] at hpage
        rcases List.mem_cons.1 hpage with rfl | hpage
        · rfl
        · exact absurd hflag (by simp [hrest page hpage])
      subst hsame
      refine ⟨bootstrap.cursor, watermark, hfirst.cursor, ?_, hreturned, hevents, ?_, ?_⟩
      · rw [← htaken.watermark, hwatermark]
      · rw [hprojection, ← hfirst.run, ← hfirst.events, htaken.events]
      · rw [← htaken.events, ← htaken.raw]
        exact hcovers
    · intro _ hno
      simp [hprojection] at hno

/-! ## Three reads -/

/-- A read of the run from its beginning. -/
def wholeRun : ReplayOptions where
  sessionId := "s1"
  runId := "r1"
  sinceIdx := .ofInt (-1)

def turnOf (page : JsValue) : Turn where
  isCurrent := true
  readPage := fun _ => .ok page
  stillCurrent := true

def wireInt (n : Int) : JsValue :=
  .number (.ofInt n)

/-- Two plain events through the watermark. -/
def plainPage : JsValue :=
  .object
    [("events", .array [.object [("type", .string "agent_start"), ("idx", wireInt 0)],
      .object [("type", .string "agent_end"), ("idx", wireInt 1)]]),
     ("watermark", wireInt 1)]

def plainEvent (type : String) (idx : Int) : ReplayEvent :=
  ⟨type, "", "", some (.ofInt idx), none, none, none⟩

theorem plain_read_vouches :
    ∃ replay, readRunReplay (fun _ => none) wholeRun [turnOf plainPage] = some (.ok replay) ∧
      ∀ event ∈ replay.events, event.OfRun "r1" := by
  have hread : readRunReplay (fun _ => none) wholeRun [turnOf plainPage] =
      some (.ok ⟨[plainEvent "agent_start" 0, plainEvent "agent_end" 1], some 1, none, false,
        none, true⟩) := by
    decide +kernel
  exact ⟨_, hread, (readRunReplay_vouches hread).1⟩

/-- A fragment of a body that stands for the indices 0 and 1. -/
def rangeData : String :=
  "\x7b\"content_key\":\"k\",\"content_first_idx\":0,\"content_offset\":0," ++
    "\"content_bytes\":2,\"text\":\"ab\"\x7d"

/-- `JSON.parse` of that text. -/
def parseRange (data : String) : Option JsValue :=
  if data = rangeData then
    some (.object [("content_key", .string "k"), ("content_first_idx", wireInt 0),
      ("content_offset", wireInt 0), ("content_bytes", wireInt 2), ("text", .string "ab")])
  else
    none

/-- The range covers the run, through the watermark. -/
def rangePage : JsValue :=
  .object
    [("events", .array [.object [("type", .string "text_chunk"), ("idx", wireInt 1),
      ("data", .string rangeData)]]),
     ("watermark", wireInt 1)]

/-- A projection without the snapshot flag, of another run. -/
def otherRunPage : JsValue :=
  .object
    [("projection", .object [("cursor", wireInt 3),
      ("events", .array [.object [("type", .string "agent_end"), ("idx", wireInt 3),
        ("runId", .string "r2")]])])]

/-- A range that covers the run does not count as the whole of it, and another run's projection
does. -/
theorem range_not_complete_other_run_vouched :
    (∃ replay, readRunReplay parseRange wholeRun [turnOf rangePage] = some (.ok replay) ∧
      replay.projection = none ∧ replay.truncated = false ∧
      tailCoversRange parseRange replay.events (-1) replay.watermark none = true ∧
      replay.completePrefix = false) ∧
    ∃ replay projection,
      readRunReplay (fun _ => none) wholeRun [turnOf otherRunPage] = some (.ok replay) ∧
        replay.projection = some projection ∧ replay.completePrefix = true ∧
        ∃ event ∈ projection.events, ¬ event.OfRun "r1" := by
  refine ⟨⟨⟨[⟨"text_chunk", rangeData, "", some (.ofInt 1), none, none, none⟩], some 1, none,
    false, none, false⟩, ?_, rfl, rfl, ?_, rfl⟩, ?_⟩
  · decide +kernel
  · decide +kernel
  · refine ⟨⟨[], none, none, false, some ⟨"", .ofInt 3,
      [⟨"agent_end", "", "r2", some (.ofInt 3), none, none, none⟩]⟩, true⟩, _, ?_, rfl, rfl,
      _, List.mem_singleton_self _, by decide⟩
    decide +kernel

end Replay
end Threads
end FutureOs
