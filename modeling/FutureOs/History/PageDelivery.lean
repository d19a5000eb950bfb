import FutureOs.History.PageSpec

/-!
# Reading a whole conversation

A client follows the pages of a conversation from the newest row backwards or from the first
row forwards; an entry that comes in parts is read to its end before the next page.  It gets
every row once, in order, in at most one page for each row (`history_pages_deliver`).
-/

namespace FutureOs
namespace History

section Client

variable (sha256 : Text → String)
variable (index : DisplayIndex)
variable (dir : Direction)
variable (limit : Nat → Option Int)
-- What other reads hold, at each request.
variable (live : Nat → Nat → Live)

/-- The rest of an entry, by requests at the byte offsets that are reached. -/
def readFragments (cursor totalBytes : Nat) :
    Nat → Text → Except String (List HistoryPage × Text)
  | 0, got => if totalBytes ≤ Utf8.size got then .ok ([], got) else .error "entry too long"
  | fuel + 1, got =>
      if totalBytes ≤ Utf8.size got then
        .ok ([], got)
      else do
        let page ← readHistoryPage sha256 (live cursor (Utf8.size got)) index
          (dir.request cursor (limit cursor) (some (Utf8.size got)))
        match page.fragment with
        | none => throw "fragment expected"
        | some fragment =>
            let out ← readFragments cursor totalBytes fuel (got ++ fragment.json)
            return (page :: out.1, out.2)

/-- The rows of a page in the order of the conversation, as JSON text. -/
def readEntries (cursor : Nat) (page : HistoryPage) :
    Except String (List HistoryPage × List Text) :=
  match page.fragment with
  | none => .ok ([page], page.entries.map Json.compact)
  | some fragment =>
      (readFragments sha256 index dir limit live cursor fragment.totalBytes fragment.totalBytes
        fragment.json).map fun out => (page :: out.1, [out.2])

/-- Rows of a page with those of the pages after it. -/
def Direction.join (dir : Direction) {α : Type} (here more : List α) : List α :=
  match dir with
  | .backward => more ++ here
  | .forward => here ++ more

/-- Pages from a cursor on, while there are more: all pages, and the rows they bring. -/
def readHistory : Nat → Nat → Except String (List HistoryPage × List Text)
  | 0, _ => .error "too many pages"
  | fuel + 1, cursor => do
      let page ← readHistoryPage sha256 (live cursor 0) index
        (dir.request cursor (limit cursor) none)
      let here ← readEntries sha256 index dir limit live cursor page
      if page.hasMore then
        let more ← readHistory fuel page.nextOffset
        return (here.1 ++ more.1, dir.join here.2 more.2)
      else
        return here

end Client

section Envelope

/-- What a page is sent in, besides its entries and the commas between them. -/
def HistoryPage.envelopeLen (page : HistoryPage) : Nat :=
  48 + (if page.hasMore then 4 else 5) + Json.Number.textLen (.posInt page.nextOffset) +
    Json.Number.textLen (.posInt page.total)

theorem compactLenValues_eq
    {values : List Json}
    (hne : values ≠ []) :
    Json.compactLenValues values + 1 = (values.map fun value => value.compactLen + 1).sum := by
  induction values with
  | nil =>
      exact absurd rfl hne
  | cons value values ih =>
      cases values with
      | nil =>
          simp [Json.compactLenValues]
      | cons next values =>
          rw [Json.compactLenValues, List.map_cons, List.sum_cons, ← ih (List.cons_ne_nil _ _)]
          · omega
          · simp

theorem encodedLen_eq
    {page : HistoryPage}
    (hwhole : page.fragment = none) :
    page.encodedLen = page.envelopeLen + Json.compactLenValues page.entries := by
  have hentries : Json.literalLen "entries" = 9 := by decide
  have hmore : Json.literalLen "hasMore" = 9 := by decide
  have hnext : Json.literalLen "nextOffset" = 12 := by decide
  have htotal : Json.literalLen "total" = 7 := by decide
  rw [HistoryPage.encodedLen, HistoryPage.toJson, hwhole, HistoryPage.envelopeLen]
  simp only [List.append_nil, List.singleton_append, Json.compactLen, Json.compactLenFields,
    hentries, hmore, hnext, htotal]
  omega

/-- The page and its commas take up what was counted, but for an estimate of 65 bytes. -/
theorem encodedLen_le
    {page : HistoryPage}
    (hwhole : page.fragment = none)
    {rows : List DisplayPageRow}
    {dir : Direction}
    (hentries : page.entries = dir.ordered (rows.map (·.payload)))
    (hbytes : 64 + countedBytes rows ≤ pageByteBudget) :
    page.encodedLen + 65 ≤ pageByteBudget + page.envelopeLen := by
  rw [encodedLen_eq hwhole]
  by_cases hne : page.entries = []
  · have hbudget : 65 ≤ pageByteBudget := by decide
    rw [hne, Json.compactLenValues]
    omega
  · have hcounted : (page.entries.map fun value => value.compactLen + 1).sum =
        countedBytes rows := by
      rw [hentries, countedBytes]
      cases dir with
      | backward =>
          rw [Direction.ordered, List.map_reverse, List.sum_reverse, List.map_map]
          simp only [Function.comp_def, Json.size_compact]
      | forward =>
          rw [Direction.ordered, List.map_map]
          simp only [Function.comp_def, Json.size_compact]
    have hvalues := compactLenValues_eq hne
    omega

theorem envelopeLen_le
    {page : HistoryPage}
    {total : Nat}
    (htotal : page.total = total)
    (hnext : page.nextOffset ≤ total)
    (hsmall : total < 10 ^ 6) :
    page.envelopeLen ≤ 65 := by
  have hdigits : Json.Number.textLen (.posInt page.total) ≤ 6 :=
    (Json.textLen_posInt_le_iff (by decide)).2 (by omega)
  have hdigits' : Json.Number.textLen (.posInt page.nextOffset) ≤ 6 :=
    (Json.textLen_posInt_le_iff (by decide)).2 (by omega)
  rw [HistoryPage.envelopeLen]
  split
  · omega
  · omega

end Envelope

/-- What holds of each page of a read. -/
structure GoodPage (index : DisplayIndex) (page : HistoryPage) : Prop where
  total : page.total = index.total
  progress : 0 < index.total → page.entries ≠ [] ∨ ∃ fragment ∈ page.fragment, fragment.json ≠ []
  /-- A page of whole entries; 65 bytes are what the envelope was expected to take. -/
  whole : page.fragment = none → page.encodedLen + 65 ≤ pageByteBudget + page.envelopeLen
  fits : page.fragment = none → index.total < 10 ^ 6 → page.encodedLen ≤ pageByteBudget
  part : ∀ fragment ∈ page.fragment, page.entries = [] ∧
    Utf8.size fragment.json ≤ entryFragmentByteBudget

section Delivery

variable (sha256 : Text → String)
variable {index : DisplayIndex}
variable {dir : Direction}
variable (limit : Nat → Option Int)
variable (live : Nat → Nat → Live)

theorem goodPage_of_takes
    {cursor : Nat}
    {taken left : List DisplayPageRow}
    {page : HistoryPage}
    (htakes : TakesRows index dir (index.queue dir cursor) taken left page)
    (hstart : index.queue dir cursor = [] → index.total = 0) :
    GoodPage index page := by
  have hwhole := encodedLen_le htakes.whole htakes.entries htakes.bytes
  refine ⟨htakes.total, fun hpos => .inl ?_, fun _ => hwhole, fun _ hsmall => ?_, ?_⟩
  · have htaken : taken ≠ [] := htakes.progress fun hnil => by
      rw [hstart hnil] at hpos
      exact Nat.lt_irrefl 0 hpos
    rw [htakes.entries]
    cases dir with
    | backward =>
        simpa [Direction.ordered] using htaken
    | forward =>
        simpa [Direction.ordered] using htaken
  · have henvelope := envelopeLen_le htakes.total htakes.nextLe hsmall
    omega
  · intro fragment hfragment
    rw [htakes.whole] at hfragment
    cases hfragment

theorem goodPage_of_part
    {page : HistoryPage}
    {fragment : HistoryEntryFragment}
    {rest : Text}
    (hfragment : page.fragment = some fragment)
    (hentries : page.entries = [])
    (htotal : page.total = index.total)
    (hjson : fragment.json = Utf8.takeBytes entryFragmentByteBudget rest)
    (hne : fragment.json ≠ []) :
    GoodPage index page := by
  refine ⟨htotal, fun _ => .inr ⟨fragment, hfragment, hne⟩, ?_, ?_, ?_⟩
  · intro hwhole
    rw [hfragment] at hwhole
    cases hwhole
  · intro hwhole
    rw [hfragment] at hwhole
    cases hwhole
  · intro other hother
    rw [hfragment] at hother
    obtain rfl := Option.some.inj hother
    refine ⟨hentries, ?_⟩
    rw [hjson]
    exact Utf8.size_takeBytes_le _ _

/-- The rest of an entry is read to its end. -/
theorem readFragments_spec
    (hheaders : SmallHeaders index)
    {cursor : Nat}
    {row : DisplayPageRow}
    {left : List DisplayPageRow}
    (hqueue : index.queue dir cursor = row :: left)
    (hroom : ∀ size, Room (live cursor size) row.payload)
    (hlarge : pageByteBudget - 65 < Utf8.size row.payload.compact)
    {fuel : Nat}
    {got rest : Text}
    (htext : row.payload.compact = got ++ rest)
    (hfuel : Utf8.size rest ≤ fuel) :
    ∃ pages, readFragments sha256 index dir limit live cursor
        (Utf8.size row.payload.compact) fuel got = .ok (pages, row.payload.compact) ∧
      ∀ page ∈ pages, GoodPage index page := by
  have hsize : Utf8.size row.payload.compact = Utf8.size got + Utf8.size rest := by
    rw [htext, Utf8.size_append]
  induction fuel generalizing got rest with
  | zero =>
      have hrest : rest = [] := Utf8.eq_nil_of_size (Nat.le_zero.1 hfuel)
      rw [hrest, List.append_nil] at htext
      refine ⟨[], ?_, fun page hpage => by cases hpage⟩
      rw [readFragments, htext, if_pos (Nat.le_refl _)]
  | succ fuel ih =>
      by_cases hrest : rest = []
      · rw [hrest, List.append_nil] at htext
        refine ⟨[], ?_, fun page hpage => by cases hpage⟩
        rw [readFragments, htext, if_pos (Nat.le_refl _)]
      · have hpos := Utf8.size_pos hrest
        have hoffset : (some (Utf8.size got : Int)).getD 0 = (Utf8.size got : Int) := rfl
        obtain ⟨out, fragment, hout, hfragment, hentries, htotal, -, -, -, -, hjson⟩ :=
          readHistoryPage_part sha256 hheaders hqueue (hroom (Utf8.size got)) hlarge
            (limit cursor) htext hrest hoffset
        have hne : Utf8.takeBytes entryFragmentByteBudget rest ≠ [] :=
          Utf8.takeBytes_ne_nil (by decide) hrest
        have hgood := goodPage_of_part hfragment hentries htotal hjson (hjson ▸ hne)
        have hparts := Utf8.takeBytes_append_dropBytes entryFragmentByteBudget rest
        have hsizes := congrArg Utf8.size hparts
        rw [Utf8.size_append] at hsizes
        have hpart := Utf8.size_pos hne
        have htext' : row.payload.compact =
            (got ++ fragment.json) ++ Utf8.dropBytes entryFragmentByteBudget rest := by
          rw [htext, hjson, List.append_assoc, hparts]
        obtain ⟨pages, hpages, hall⟩ := ih htext' (by omega) (by
          rw [htext', Utf8.size_append])
        refine ⟨out :: pages, ?_, List.forall_mem_cons.2 ⟨hgood, hall⟩⟩
        rw [readFragments, if_neg (by omega), hout]
        show (match out.fragment with | none => _ | some fragment => _) = _
        rw [hfragment]
        show (readFragments sha256 index dir limit live cursor _ fuel _ >>= _) = _
        rw [hpages]
        rfl

theorem join_ordered {α : Type} (dir : Direction) (here more : List α) :
    dir.join (dir.ordered here) (dir.ordered more) = dir.ordered (here ++ more) := by
  cases dir with
  | backward =>
      rw [Direction.join, Direction.ordered, Direction.ordered, Direction.ordered,
        List.reverse_append]
  | forward =>
      rfl

/-- The texts of rows in the order of the conversation. -/
def Direction.texts (dir : Direction) (rows : List DisplayPageRow) : List Text :=
  dir.ordered (rows.map fun row => row.payload.compact)

/-- The page at a cursor, with the parts of an entry that fills it alone. -/
theorem readPage_spec
    (hheaders : SmallHeaders index)
    (hroom : ∀ row ∈ index.numbered, ∀ cursor size, Room (live cursor size) row.payload)
    {cursor : Nat}
    (hstart : index.queue dir cursor = [] → index.total = 0) :
    ∃ page pages taken left,
      readHistoryPage sha256 (live cursor 0) index (dir.request cursor (limit cursor) none) =
          .ok page ∧
        readEntries sha256 index dir limit live cursor page = .ok (pages, dir.texts taken) ∧
        index.queue dir cursor = taken ++ left ∧ (index.queue dir cursor ≠ [] → taken ≠ []) ∧
        index.queue dir page.nextOffset = left ∧ page.hasMore = !left.isEmpty ∧
        ∀ page ∈ pages, GoodPage index page := by
  by_cases hsmall : ∀ row ∈ (index.queue dir cursor).head?,
      Utf8.size row.payload.compact ≤ pageByteBudget - 65
  · obtain ⟨page, taken, left, hpage, htakes⟩ := readHistoryPage_rows sha256 hheaders
      (fun row hrow => hroom row hrow cursor 0) dir cursor (limit cursor) hsmall
    refine ⟨page, [page], taken, left, hpage, ?_, htakes.front, htakes.progress, htakes.next,
      htakes.more, List.forall_mem_singleton.2 (goodPage_of_takes htakes hstart)⟩
    rw [readEntries, htakes.whole, htakes.entries, Direction.texts]
    cases dir with
    | backward =>
        simp [Direction.ordered]
    | forward =>
        simp [Direction.ordered]
  · push Not at hsmall
    obtain ⟨row, hrow, hlarge⟩ := hsmall
    obtain ⟨left, hqueue⟩ : ∃ left, index.queue dir cursor = row :: left := by
      cases hlist : index.queue dir cursor with
      | nil =>
          rw [hlist] at hrow
          cases hrow
      | cons first left =>
          rw [hlist] at hrow
          obtain rfl := Option.some.inj hrow
          exact ⟨left, rfl⟩
    have hmem : row ∈ index.numbered := by
      have hfirst : row ∈ index.queue dir cursor := by
        rw [hqueue]
        exact List.mem_cons_self
      exact mem_numbered hfirst
    have hne : row.payload.compact ≠ [] := by
      intro hnil
      rw [hnil] at hlarge
      exact absurd hlarge (by decide)
    have hoffset : (none : Option Int).getD 0 = (Utf8.size ([] : Text) : Int) := rfl
    obtain ⟨page, fragment, hpage, hfragment, hentries, htotal, hnext, hmore, -, hlen, hjson⟩ :=
      readHistoryPage_part sha256 hheaders hqueue (hroom row hmem cursor 0) hlarge (limit cursor)
        (List.nil_append _).symm hne hoffset
    have hgood := goodPage_of_part hfragment hentries htotal hjson
      (hjson ▸ Utf8.takeBytes_ne_nil (by decide) hne)
    have htext : row.payload.compact =
        fragment.json ++ Utf8.dropBytes entryFragmentByteBudget row.payload.compact := by
      rw [hjson, Utf8.takeBytes_append_dropBytes]
    have hsize := congrArg Utf8.size htext
    rw [Utf8.size_append] at hsize
    have hfuel : Utf8.size (Utf8.dropBytes entryFragmentByteBudget row.payload.compact) ≤
        fragment.totalBytes := by
      omega
    obtain ⟨pages, hpages, hall⟩ := readFragments_spec sha256 limit live hheaders hqueue
      (fun size => hroom row hmem cursor size) hlarge htext hfuel
    refine ⟨page, page :: pages, [row], left, hpage, ?_, hqueue, fun _ => List.cons_ne_nil _ _,
      hnext, hmore, List.forall_mem_cons.2 ⟨hgood, hall⟩⟩
    rw [readEntries, hfragment]
    show (readFragments sha256 index dir limit live cursor fragment.totalBytes
      fragment.totalBytes fragment.json).map _ = _
    rw [hlen] at hpages ⊢
    rw [hpages]
    cases dir <;> rfl

/-- Pages from a cursor on bring the rows of its queue. -/
theorem readHistory_spec
    (hheaders : SmallHeaders index)
    (hroom : ∀ row ∈ index.numbered, ∀ cursor size, Room (live cursor size) row.payload)
    {fuel cursor : Nat}
    (hstart : index.queue dir cursor = [] → index.total = 0)
    (hfuel : (index.queue dir cursor).length < fuel) :
    ∃ pages, readHistory sha256 index dir limit live fuel cursor =
        .ok (pages, dir.texts (index.queue dir cursor)) ∧
      ∀ page ∈ pages, GoodPage index page := by
  induction fuel generalizing cursor with
  | zero =>
      exact absurd hfuel (Nat.not_lt_zero _)
  | succ fuel ih =>
      obtain ⟨page, here, taken, left, hpage, hhere, hqueue, hprogress, hnext, hmore, hgood⟩ :=
        readPage_spec sha256 limit live hheaders hroom hstart
      rw [readHistory, hpage]
      cases left with
      | nil =>
          refine ⟨here, ?_, hgood⟩
          rw [List.append_nil] at hqueue
          show (readEntries sha256 index dir limit live cursor page >>= _) = _
          rw [hhere, hqueue]
          show (if page.hasMore = true then _ else _) = _
          rw [hmore]
          rfl
      | cons row left =>
          have hne : index.queue dir cursor ≠ [] := by
            rw [hqueue]
            simp
          have hlength := congrArg List.length hqueue
          rw [List.length_append] at hlength
          have htaken := List.length_pos_of_ne_nil (hprogress hne)
          obtain ⟨more, hhistory, hall⟩ := ih (by rw [hnext]; simp) (by rw [hnext]; omega)
          refine ⟨here ++ more, ?_, List.forall_mem_append.2 ⟨hgood, hall⟩⟩
          show (readEntries sha256 index dir limit live cursor page >>= _) = _
          rw [hhere]
          have htrue : page.hasMore = true := hmore
          show (if page.hasMore = true then _ else _) = _
          rw [if_pos htrue, hhistory, hnext, hqueue]
          show Except.ok (here ++ more, dir.join (dir.texts taken) (dir.texts (row :: left))) = _
          rw [Direction.texts, Direction.texts, join_ordered, ← List.map_append]
          rfl

theorem texts_numbered :
    (index.numbered.map fun row => row.payload.compact) =
      index.rows.map fun row => row.payload.compact := by
  have hpayload : ((fun row => row.payload.compact) ∘
      fun row : DisplayRow × Nat => index.selected row.1 row.2) =
        (fun row : DisplayRow => row.payload.compact) ∘ Prod.fst := rfl
  rw [DisplayIndex.numbered, List.map_map, hpayload, ← List.map_map, List.zipIdx_map_fst]

theorem queue_start : index.queue dir dir.start = dir.ordered index.numbered := by
  cases dir with
  | backward =>
      rw [DisplayIndex.queue, Direction.start, Direction.ordered, List.take_of_length_le]
      rw [length_numbered]
      exact index.fits
  | forward =>
      exact List.drop_zero

/-- A whole conversation is read in either direction, with any limits: every row once, in
order and to the byte.  Headers fit one read, and there is room for derived files. -/
theorem history_pages_deliver
    (index : DisplayIndex)
    (dir : Direction)
    (hheaders : SmallHeaders index)
    (hroom : ∀ row ∈ index.numbered, ∀ cursor size, Room (live cursor size) row.payload) :
    ∃ pages, readHistory sha256 index dir limit live (index.total + 1) dir.start =
        .ok (pages, index.rows.map fun row => row.payload.compact) ∧
      ∀ page ∈ pages, GoodPage index page := by
  have hlength : (index.queue dir dir.start).length = index.total := by
    rw [queue_start, ← length_numbered]
    cases dir with
    | backward =>
        exact List.length_reverse
    | forward =>
        rfl
  have htexts : dir.texts (index.queue dir dir.start) =
      index.rows.map fun row => row.payload.compact := by
    rw [queue_start, ← texts_numbered]
    cases dir with
    | backward =>
        rw [Direction.texts, Direction.ordered, Direction.ordered, ← List.map_reverse,
          List.reverse_reverse]
    | forward =>
        rfl
  rw [← htexts]
  refine readHistory_spec sha256 limit live hheaders hroom (fun hnil => ?_) ?_
  · rw [← hlength, hnil, List.length_nil]
  · rw [hlength]
    exact Nat.lt_succ_self _

end Delivery

section Limits

/-- An entry with a text of `n` bytes. -/
def textEntry (n : Nat) : Json :=
  .obj [("content", .str (String.ofList (List.replicate n 'x')))]

theorem literalLen_replicate (n : Nat) :
    Json.literalLen (String.ofList (List.replicate n 'x')) = 2 + n := by
  have hescaped : Json.escapedLen 'x' = 1 := by decide
  rw [Json.literalLen, String.toList_ofList, List.map_replicate, hescaped,
    List.sum_replicate_nat, Nat.mul_one]

theorem compactLen_textEntry (n : Nat) : (textEntry n).compactLen = n + 14 := by
  have hkey : Json.literalLen "content" = 9 := by decide
  rw [textEntry, Json.compactLen, Json.compactLenFields, Json.compactLen, literalLen_replicate,
    hkey]
  omega

/-- A row that shows an entry, found by a header in the canonical format. -/
def textRow (isUser : Bool) (position n : Nat) : DisplayRow where
  isUser := isUser
  indexPayload := "\x7b\x7d"
  entryRecord := none
  header := some { position := position, id := "entry" }
  payload := textEntry n

/-- A short question, and an answer of three mebibytes. -/
def longAnswer : DisplayIndex where
  canonical := true
  rows := [textRow true 0 20, textRow false 1 (3 * 1024 * 1024)]
  fits := by decide

theorem exists_row
    {index : DisplayIndex}
    {row : DisplayPageRow}
    (h : row ∈ index.numbered) :
    ∃ display ∈ index.rows, ∃ ordinal, row = index.selected display ordinal := by
  rw [DisplayIndex.numbered, List.mem_map] at h
  obtain ⟨⟨display, ordinal⟩, hmem, rfl⟩ := h
  exact ⟨display, List.fst_mem_of_mem_zipIdx hmem, ordinal, rfl⟩

theorem smallHeaders_of_text
    {index : DisplayIndex}
    (h : ∀ row ∈ index.rows, ∃ isUser position n, row = textRow isUser position n) :
    SmallHeaders index := by
  intro hcanonical row hrow
  obtain ⟨display, hmem, ordinal, rfl⟩ := exists_row hrow
  obtain ⟨isUser, position, n, rfl⟩ := h display hmem
  rw [DisplayPageRow.size, DisplayIndex.selected, hcanonical]
  show 2 + 0 + 37 ≤ readBytes
  decide

theorem text_longAnswer :
    ∀ row ∈ longAnswer.rows, ∃ isUser position n, row = textRow isUser position n ∧
      n ≤ 3 * 1024 * 1024 := by
  intro row hrow
  rcases List.mem_cons.1 hrow with rfl | hrow
  · exact ⟨true, 0, 20, rfl, by omega⟩
  · exact ⟨false, 1, 3 * 1024 * 1024, List.mem_singleton.1 hrow, Nat.le_refl _⟩

theorem history_pages_deliver_longAnswer :
    ∃ pages, readHistory (fun _ => "") longAnswer .backward (fun _ => some 1)
        (fun _ _ => { files := 3, bytes := 4096 }) 3 i64Max =
          .ok (pages, [(textEntry 20).compact, (textEntry (3 * 1024 * 1024)).compact]) ∧
        ∀ page ∈ pages, GoodPage longAnswer page := by
  have hheaders : SmallHeaders longAnswer := by
    refine smallHeaders_of_text fun row hrow => ?_
    obtain ⟨isUser, position, n, hrow, -⟩ := text_longAnswer row hrow
    exact ⟨isUser, position, n, hrow⟩
  refine history_pages_deliver (fun _ => "") (fun _ => some 1)
    (fun _ _ => { files := 3, bytes := 4096 }) longAnswer .backward hheaders ?_
  intro row hrow _ _ _
  obtain ⟨display, hmem, ordinal, rfl⟩ := exists_row hrow
  obtain ⟨isUser, position, n, rfl, hn⟩ := text_longAnswer display hmem
  have hsize : Utf8.size (textEntry n).compact = n + 14 := by
    rw [Json.size_compact, compactLen_textEntry]
  have hlimit : 4096 + (3 * 1024 * 1024 + 14) ≤ liveFileBytes := by decide
  refine ⟨by decide, ?_⟩
  show 4096 + Utf8.size (textEntry n).compact ≤ liveFileBytes
  omega

/-- A run that failed with an error of `n` bytes. -/
def failedRun (n : Nat) : Json :=
  .obj [("run", .obj [("error", .str (String.ofList (List.replicate n 'x')))])]

theorem compactLen_failedRun (n : Nat) : (failedRun n).compactLen = n + 20 := by
  have hrun : Json.literalLen "run" = 5 := by decide
  have herror : Json.literalLen "error" = 7 := by decide
  rw [failedRun, Json.compactLen, Json.compactLenFields, Json.compactLen, Json.compactLenFields,
    Json.compactLen, literalLen_replicate, hrun, herror]
  omega

/-- An answer of a run that failed with an error longer than a read. -/
def failedRow : DisplayRow where
  isUser := false
  indexPayload := String.ofList (failedRun readBytes).compact
  entryRecord := none
  header := some { position := 0, id := "entry" }
  payload := textEntry 20

def longError : DisplayIndex where
  canonical := true
  rows := [failedRow]
  fits := by decide

/-- An answer longer than all derived files together may be. -/
def hugeAnswer : DisplayIndex where
  canonical := true
  rows := [textRow false 0 liveFileBytes]
  fits := by decide

/-- A header that is larger than one read is refused. -/
theorem readHistoryPage_header
    (sha256 : Text → String)
    (live : Live)
    {index : DisplayIndex}
    {row : DisplayRow}
    (hcanonical : index.canonical = true)
    (hrows : index.rows = [row])
    (hbig : readBytes < (index.selected row 0).size) :
    readHistoryPage sha256 live index (Direction.forward.request 0 none none) =
      .error "canonical display header exceeds the read budget" := by
  have hlimit : clamp 1 1000 250 = 250 := by decide
  have hclamp : clamp 0 1 (0 : Int) = 0 := by decide
  have htotal : index.total = 1 := by
    rw [DisplayIndex.total, hrows]
    rfl
  have hwindow : index.rowsBetween 0 1 = [index.selected row 0] := by
    simp [DisplayIndex.rowsBetween, DisplayIndex.numbered, hrows]
  have htake : takeRows true none (·.ordinal + 1) 0 0 0 [index.selected row 0] =
      .error "canonical display header exceeds the read budget" := by
    rw [takeRows, if_neg (by omega), if_pos ⟨rfl, hbig⟩]
  have hread : readForward index (some 0) none =
      .error "canonical display header exceeds the read budget" := by
    rw [readForward, htotal, hcanonical]
    simp only [Option.getD_some, Option.getD_none, hclamp, hlimit]
    rw [show min (0 + 250) 1 = 1 by omega, hwindow, if_pos trivial,
      List.take_of_length_le (by simp), htake]
    rfl
  show readForward index (some 0) none >>= _ = _
  rw [hread]
  rfl

/-- An entry that no derived file is to be had for is refused. -/
theorem readHistoryPage_refused
    {sha256 : Text → String}
    {live : Live}
    {index : DisplayIndex}
    (hheaders : SmallHeaders index)
    {dir : Direction}
    {cursor : Nat}
    {row : DisplayPageRow}
    {left : List DisplayPageRow}
    (hqueue : index.queue dir cursor = row :: left)
    {message : String}
    (hrefused : encode sha256 live row.payload (pageByteBudget - 65) = .error message)
    (limit fragmentOffset : Option Int) :
    readHistoryPage sha256 live index (dir.request cursor limit fragmentOffset) =
      .error message := by
  obtain ⟨page, hpage, hreads⟩ := readDisplayPage_spec hheaders dir cursor limit fragmentOffset
  obtain ⟨rows, -, hrows, -⟩ := readsFrom_cons hreads hqueue
  rw [readHistoryPage, hpage]
  show materializeDisplayPage sha256 live page _ = _
  rw [materializeDisplayPage, hrows, materializeRows, hrefused]
  rfl

theorem size_selected_le
    (index : DisplayIndex)
    (row : DisplayRow)
    (ordinal : Nat) :
    row.indexPayload.utf8ByteSize ≤ (index.selected row ordinal).size := by
  rw [DisplayPageRow.size, Nat.add_assoc]
  exact Nat.le_add_right _ _

theorem size_failedRow : readBytes < failedRow.indexPayload.utf8ByteSize := by
  rw [failedRow, ← Utf8.size_toList, String.toList_ofList, Json.size_compact,
    compactLen_failedRun]
  omega

theorem encode_tooLarge
    (sha256 : Text → String)
    {live : Live}
    {value : Json}
    (hfiles : live.files < liveFileLimit)
    (hbytes : liveFileBytes < Utf8.size value.compact) :
    encode sha256 live value (pageByteBudget - 65) =
      .error "derived file byte budget exceeded; retry or request a smaller history range" := by
  have hbudget : pageByteBudget - 65 < liveFileBytes := by decide
  rw [encode, if_neg (by omega), if_neg (by omega), if_pos (by omega)]

theorem size_hugeAnswer : liveFileBytes < Utf8.size (textEntry liveFileBytes).compact := by
  rw [Json.size_compact, compactLen_textEntry]
  exact Nat.lt_add_of_pos_right (by decide)

theorem headers_hugeAnswer : SmallHeaders hugeAnswer := by
  refine smallHeaders_of_text fun row hrow => ?_
  exact ⟨false, 0, liveFileBytes, List.mem_singleton.1 hrow⟩

/-- The last page of a long conversation, when an entry fills it to the byte: the offsets
have more digits than were expected. -/
theorem encodedLen_gt
    {index : DisplayIndex}
    {front taken : List DisplayPageRow}
    {last : DisplayPageRow}
    {page : HistoryPage}
    (htakes : TakesRows index .forward (front ++ [last]) taken [] page)
    (hlast : Utf8.size last.payload.compact = pageByteBudget - 65)
    (hmany : 10 ^ 6 ≤ index.total) :
    pageByteBudget < page.encodedLen := by
  have htaken : taken = front ++ [last] := by
    rw [htakes.front, List.append_nil]
  have hnext : index.total ≤ page.nextOffset := by
    have hnil := htakes.next
    rw [DisplayIndex.queue, List.drop_eq_nil_iff, length_numbered] at hnil
    exact hnil
  have hdigits : ∀ n, 10 ^ 6 ≤ n → 7 ≤ Json.Number.textLen (.posInt n) := by
    intro n hn
    by_contra hshort
    have hsix : Json.Number.textLen (.posInt n) ≤ 6 := by omega
    have hlt := (Json.textLen_posInt_le_iff (by decide)).1 hsix
    omega
  have htotal := hdigits page.total (by rw [htakes.total]; exact hmany)
  have hoffset := hdigits page.nextOffset (Nat.le_trans hmany hnext)
  have hvalues : Json.compactLenValues page.entries + 1 = countedBytes taken := by
    have hentries : page.entries = taken.map (·.payload) := htakes.entries
    have hne : page.entries ≠ [] := by
      rw [hentries, htaken]
      simp
    rw [compactLenValues_eq hne, hentries, countedBytes, List.map_map]
    simp only [Function.comp_def, Json.size_compact]
  have hcounted : pageByteBudget - 65 + 1 ≤ countedBytes taken := by
    rw [htaken, countedBytes, List.map_append, List.sum_append, List.map_singleton,
      List.sum_singleton, hlast]
    exact Nat.le_add_left _ _
  have hbudget : 65 ≤ pageByteBudget := by decide
  rw [encodedLen_eq htakes.whole, HistoryPage.envelopeLen, htakes.more]
  show pageByteBudget < 48 + 5 + _ + _ + _
  omega

theorem ends_of_append {α : Type}
    {front taken left : List α}
    {last : α}
    (h : front ++ [last] = taken ++ left)
    (hne : left ≠ []) :
    ∃ rest, left = rest ++ [last] := by
  obtain ⟨rest, final, rfl⟩ := (List.eq_nil_or_concat left).resolve_left hne
  rw [List.concat_eq_append, ← List.append_assoc] at h
  obtain ⟨-, hlast⟩ := List.append_inj' h rfl
  refine ⟨rest, ?_⟩
  rw [hlast, List.concat_eq_append]

/-- Whatever the limits are, such a conversation is not read without a page over the budget. -/
theorem readHistory_over
    {sha256 : Text → String}
    {limit : Nat → Option Int}
    {live : Nat → Nat → Live}
    {index : DisplayIndex}
    (hheaders : SmallHeaders index)
    (hsmall : ∀ row ∈ index.numbered, Utf8.size row.payload.compact ≤ pageByteBudget - 65)
    (hmany : 10 ^ 6 ≤ index.total)
    {fuel cursor : Nat}
    {front : List DisplayPageRow}
    {last : DisplayPageRow}
    (hqueue : index.queue .forward cursor = front ++ [last])
    (hlast : Utf8.size last.payload.compact = pageByteBudget - 65)
    {pages : List HistoryPage}
    {texts : List Text}
    (hread : readHistory sha256 index .forward limit live fuel cursor = .ok (pages, texts)) :
    ∃ page ∈ pages, pageByteBudget < page.encodedLen := by
  induction fuel generalizing cursor front pages texts with
  | zero =>
      cases hread
  | succ fuel ih =>
      have hfirst : ∀ row ∈ (index.queue .forward cursor).head?,
          Utf8.size row.payload.compact ≤ pageByteBudget - 65 := by
        intro row hrow
        have hmem := List.mem_of_mem_head? hrow
        exact hsmall row (mem_numbered hmem)
      have hroom : ∀ row ∈ index.numbered, Room (live cursor 0) row.payload := by
        intro row hrow hlarge
        exact absurd (hsmall row hrow) (Nat.not_le_of_lt hlarge)
      obtain ⟨page, taken, left, hpage, htakes⟩ :=
        readHistoryPage_rows sha256 hheaders hroom .forward cursor (limit cursor) hfirst
      rw [hqueue] at htakes
      have hentries : readEntries sha256 index .forward limit live cursor page =
          .ok ([page], page.entries.map Json.compact) := by
        rw [readEntries, htakes.whole]
      rw [readHistory, hpage] at hread
      change (readEntries sha256 index .forward limit live cursor page >>= _) = _ at hread
      rw [hentries] at hread
      change (if page.hasMore = true then _ else _) = _ at hread
      have hmore := htakes.more
      cases left with
      | nil =>
          have hdone : page.hasMore ≠ true := by
            rw [hmore]
            simp
          rw [if_neg hdone] at hread
          cases hread
          exact ⟨page, List.mem_singleton_self _, encodedLen_gt htakes hlast hmany⟩
      | cons row left =>
          have htrue : page.hasMore = true := hmore
          rw [if_pos htrue] at hread
          obtain ⟨rest, hleft⟩ := ends_of_append htakes.front (List.cons_ne_nil row left)
          cases hmoreRead : readHistory sha256 index .forward limit live fuel page.nextOffset with
          | error message =>
              rw [hmoreRead] at hread
              cases hread
          | ok more =>
              rw [hmoreRead] at hread
              cases hread
              obtain ⟨wide, hwide, hlarge⟩ := ih (htakes.next.trans hleft) hmoreRead
              exact ⟨wide, List.mem_append_right _ hwide, hlarge⟩

/-- A million rows, the last of which fills a page. -/
def longConversation : DisplayIndex where
  canonical := true
  rows := (List.range 999999).map (fun position => textRow (position % 2 == 0) position 20) ++
    [textRow false 999999 (pageByteBudget - 65 - 14)]
  fits := by
    rw [List.length_append, List.length_map, List.length_range]
    decide

theorem rows_longConversation :
    longConversation.rows =
      (List.range 999999).map (fun position => textRow (position % 2 == 0) position 20) ++
        [textRow false 999999 (pageByteBudget - 65 - 14)] := rfl

theorem queue_last
    {index : DisplayIndex}
    {front : List DisplayRow}
    {last : DisplayRow}
    (h : index.rows = front ++ [last]) :
    ∃ before ordinal, index.queue .forward 0 = before ++ [index.selected last ordinal] := by
  rw [DisplayIndex.queue, List.drop_zero, DisplayIndex.numbered, h, List.zipIdx_append,
    List.map_append]
  exact ⟨_, _, rfl⟩

theorem text_longConversation :
    ∀ row ∈ longConversation.rows, ∃ isUser position n, row = textRow isUser position n ∧
      n ≤ pageByteBudget - 65 - 14 := by
  intro row hrow
  rcases List.mem_append.1 hrow with hrow | hrow
  · obtain ⟨position, -, rfl⟩ := List.mem_map.1 hrow
    exact ⟨_, position, 20, rfl, by decide⟩
  · exact ⟨false, 999999, _, List.mem_singleton.1 hrow, Nat.le_refl _⟩

theorem total_longConversation : longConversation.total = 10 ^ 6 := by
  rw [DisplayIndex.total, longConversation, List.length_append, List.length_map,
    List.length_range]
  rfl

theorem readHistory_longConversation :
    ∃ pages texts, readHistory (fun _ => "") longConversation .forward (fun _ => none)
        (fun _ _ => { files := 0, bytes := 0 }) (10 ^ 6 + 1) 0 = .ok (pages, texts) ∧
      ∃ page ∈ pages, pageByteBudget < page.encodedLen := by
  have hbudget : 65 + 14 ≤ pageByteBudget := by decide
  have hheaders : SmallHeaders longConversation := by
    refine smallHeaders_of_text fun row hrow => ?_
    obtain ⟨isUser, position, n, hrow, -⟩ := text_longConversation row hrow
    exact ⟨isUser, position, n, hrow⟩
  have hsize : ∀ n, Utf8.size (textEntry n).compact = n + 14 := by
    intro n
    rw [Json.size_compact, compactLen_textEntry]
  have hsmall : ∀ row ∈ longConversation.numbered,
      Utf8.size row.payload.compact ≤ pageByteBudget - 65 := by
    intro row hrow
    obtain ⟨display, hmem, ordinal, rfl⟩ := exists_row hrow
    obtain ⟨isUser, position, n, rfl, hn⟩ := text_longConversation display hmem
    show Utf8.size (textEntry n).compact ≤ _
    rw [hsize]
    omega
  obtain ⟨front, ordinal, hqueue⟩ := queue_last rows_longConversation
  have hlast : Utf8.size (textEntry (pageByteBudget - 65 - 14)).compact = pageByteBudget - 65 := by
    rw [hsize]
    omega
  have hlength : (longConversation.queue .forward 0).length < 10 ^ 6 + 1 := by
    rw [DisplayIndex.queue, List.drop_zero, length_numbered, total_longConversation]
    exact Nat.lt_succ_self _
  obtain ⟨pages, hpages, -⟩ := readHistory_spec (fun _ => "") (fun _ => none)
    (fun _ _ => { files := 0, bytes := 0 }) hheaders
    (fun row hrow _ _ hlarge => absurd (hsmall row hrow) (Nat.not_le_of_lt hlarge))
    (fun hnil => by rw [hqueue] at hnil; simp at hnil) hlength
  exact ⟨pages, _, hpages,
    readHistory_over hheaders hsmall total_longConversation.ge hqueue hlast hpages⟩

/-- Not every conversation is read: a header may be too large for a read and an entry for
the derived files, and past a million rows a page may be larger than its budget. -/
theorem history_pages_refused :
    readHistory (fun _ => "") longError .forward (fun _ => none)
        (fun _ _ => { files := 0, bytes := 0 }) 2 0 =
      .error "canonical display header exceeds the read budget" ∧
    readHistory (fun _ => "") hugeAnswer .forward (fun _ => none)
        (fun _ _ => { files := 0, bytes := 0 }) 2 0 =
      .error "derived file byte budget exceeded; retry or request a smaller history range" ∧
    ∃ pages texts, readHistory (fun _ => "") longConversation .forward (fun _ => none)
        (fun _ _ => { files := 0, bytes := 0 }) (10 ^ 6 + 1) 0 = .ok (pages, texts) ∧
      ∃ page ∈ pages, pageByteBudget < page.encodedLen := by
  refine ⟨?_, ?_, readHistory_longConversation⟩
  · have hbig := Nat.lt_of_lt_of_le size_failedRow (size_selected_le longError failedRow 0)
    rw [readHistory, readHistoryPage_header _ _ rfl rfl hbig]
    rfl
  · have hqueue : hugeAnswer.queue .forward 0 =
        [hugeAnswer.selected (textRow false 0 liveFileBytes) 0] := by
      simp [DisplayIndex.queue, DisplayIndex.numbered, hugeAnswer]
    rw [readHistory, readHistoryPage_refused headers_hugeAnswer hqueue
      (encode_tooLarge _ (by decide) size_hugeAnswer)]
    rfl

end Limits

end History
end FutureOs
