import FutureOs.Content.ReplayEvents

/-!
# A replay in pages

Whatever ends a page of `segmentedReplay`, the row limit, the budget of the metadata or
the budget of what goes over the wire, the next call goes on behind the last event, so
calls after calls deliver the changes of a run each once and in order
(`replay_answers`).  Only two things stop a replay, and they stop it for good: a fragment
whose text is longer than one read, and a page whose metadata is
(`segmented_replay_delivers_iff`).
-/

namespace FutureOs
namespace Content

open Broadcast (SseEvent)

section Delivery

variable {codec : Codec}
variable {pf : Platform}
variable {wire : WireCodec}
variable {db : Database}
variable {stream : StreamIdentity}
variable {identity : StorageIdentity}
variable {streamId : Nat}
variable {row : StreamRow}

/-! ## The events of one page -/

/-- Taking events adds no more than there are. -/
theorem takeEvents_length
    {bounded : Bool}
    {values : List (Except String SseEvent × Int)}
    {p p' : Progress}
    {stop : Bool}
    (h : takeEvents bounded values p = .ok (p', stop)) :
    p'.events.length ≤ p.events.length + values.length := by
  induction values generalizing p with
  | nil =>
      cases h
      exact Nat.le_refl _
  | cons value values ih =>
      obtain ⟨event, -, h⟩ := bind_eq_ok.1 h
      rw [List.length_cons]
      dsimp only at h
      split at h
      · obtain ⟨_, -, h⟩ := bind_eq_ok.1 h
        cases h
        rw [List.length_append, List.length_singleton]
        omega
      · have hrest := ih h
        rw [List.length_append, List.length_singleton] at hrest
        omega

/-- The events of a page are taken from the front, and at least one if there are any. -/
theorem takeEvents_spec
    (items : List ((Nat × ChangeRow) × SseEvent))
    (p : Progress) :
    ∃ done later p' stop, items = done ++ later ∧
      takeEvents true (items.map fun item => (.ok item.2, item.1.2.lastCursor)) p =
        .ok (p', stop) ∧
      p'.events = p.events ++ done.map Prod.snd ∧
      p'.cursor = ((done.map fun item => item.1.2.lastCursor).getLast?).getD p.cursor ∧
      (done = [] → later = []) ∧ (stop = false → later = []) := by
  induction items generalizing p with
  | nil =>
      exact ⟨[], [], p, false, rfl, rfl, (List.append_nil _).symm, rfl, fun _ => rfl,
        fun _ => rfl⟩
  | cons item items ih =>
      rw [List.map_cons, takeEvents, except_ok_bind]
      dsimp only
      split
      · rw [ensure_bind, if_pos rfl]
        exact ⟨[item], items, _, true, rfl, rfl, rfl, rfl, nofun, nofun⟩
      · obtain ⟨done, later, p', stop, hsplit, htake, hevents, hcursor, -, hstop⟩ := ih {
          events := p.events ++ [item.2]
          bytes := p.bytes + (strLen item.2.data + eventWireOverhead)
          cursor := item.1.2.lastCursor }
        refine ⟨item :: done, later, p', stop, ?_, htake, ?_, ?_, nofun, hstop⟩
        · rw [hsplit, List.cons_append]
        · rw [hevents, List.append_assoc, List.map_cons]
          rfl
        · rw [hcursor, List.map_cons, List.getLast?_cons, Option.getD_some]

/-- No fragment has more text than one read gives. -/
def FragmentsFit (entries : List (Nat × ChangeRow)) : Prop :=
  ∀ entry ∈ entries, entry.2.eventType ∈ deltaKinds →
    ∀ range ∈ entry.2.ranges, range.length ≤ readBytes

variable (pf db) in
/-- No page that may be selected reads more than one read gives. -/
def PagesFit (entries : List (Nat × ChangeRow)) : Prop :=
  ∀ block, block <:+: entries → block.length ≤ 128 → FitsPage db block →
    pageBytes pf db block ≤ readBytes

variable (codec pf wire db stream identity) in
/-- A page that is read behind a cursor: its changes with their events, and what is left. -/
structure PageRead (streamId : Nat) (since : Int) (limit : Nat)
    (items : List ((Nat × ChangeRow) × SseEvent)) (later : List (Nat × ChangeRow)) : Prop where
  split : changesAfter db streamId since = items.map Prod.fst ++ later
  progress : items = [] → later = []
  events : ∀ item ∈ items, EventOf codec pf wire db stream identity item.1 item.2
  read : ∃ page changes, readEncodedChanges pf db stream since limit = .ok page ∧
    page.changes.decode = .ok changes ∧ page.hasMore = !later.isEmpty ∧
    (∀ change ∈ changes, change.lastCursor ≤ page.durableCursor) ∧
    ∃ values, materializePage codec wire db stream identity changes = .ok values ∧
      values.zip (changes.map (·.lastCursor)) =
        items.map fun item => (.ok item.2, item.1.2.lastCursor)

/-- The changes of a page, each with its event. -/
theorem exists_items
    (hcodec : codec.Lossless)
    (h : StoredStream db stream streamId row)
    (hevents : ∀ entry ∈ streamEntries db streamId,
      ∃ event, EventOf codec pf wire db stream identity entry event)
    {entries : List (Nat × ChangeRow)}
    (hmem : ∀ entry ∈ entries, entry ∈ streamEntries db streamId)
    (hfits : FragmentsFit entries) :
    ∃ (items : List ((Nat × ChangeRow) × SseEvent)) (changes : List StoredChange),
      items.map Prod.fst = entries ∧
      (∀ item ∈ items, EventOf codec pf wire db stream identity item.1 item.2) ∧
      List.Forall₂ (Decodes pf db) entries changes ∧
      (∀ change ∈ changes, change.lastCursor ≤ row.durableCursor) ∧
      (changes.map (materializeChange codec wire db stream identity)).zip
          (changes.map (·.lastCursor)) =
        items.map fun item => (.ok item.2, item.1.2.lastCursor) := by
  induction entries with
  | nil => exact ⟨[], [], rfl, List.forall_mem_nil _, .nil, List.forall_mem_nil _, rfl⟩
  | cons entry entries ih =>
      obtain ⟨hentry, hmem⟩ := List.forall_mem_cons.1 hmem
      obtain ⟨hfirst, hfits⟩ := List.forall_mem_cons.1 hfits
      obtain ⟨items, changes, hentries, hitems, hdecodes, hdurable, hzip⟩ := ih hmem hfits
      obtain ⟨event, hevent⟩ := hevents entry hentry
      obtain ⟨change, hdecode, hmaterialize⟩ :=
        materializeChange_of_fits hcodec h hentry hfirst hevent
      obtain ⟨hcursor, -⟩ :=
        hdecode.spec (h.joined fun e he => List.mem_singleton.1 he ▸ hentry)
      obtain ⟨hlook, hstream⟩ := mem_streamEntries.1 hentry
      refine ⟨(entry, event) :: items, change :: changes, ?_, ?_, .cons hdecode hdecodes, ?_, ?_⟩
      · rw [List.map_cons, hentries]
      · exact List.forall_mem_cons.2 ⟨hevent, hitems⟩
      · refine List.forall_mem_cons.2 ⟨?_, hdurable⟩
        rw [hcursor]
        exact (h.tiled.within entry.1 entry.2 hlook hstream).2.2
      · rw [List.map_cons, List.map_cons, List.map_cons, List.zip_cons_cons, hzip, hmaterialize,
          hcursor]

theorem mem_changesAfter
    {since : Int}
    {entry : Nat × ChangeRow}
    (h : entry ∈ changesAfter db streamId since) :
    entry ∈ streamEntries db streamId :=
  List.mem_of_mem_filter h

/-- Every page is read, where nothing is too long for it. -/
theorem exists_pageRead
    (hcodec : codec.Lossless)
    (h : StoredStream db stream streamId row)
    (hevents : ∀ entry ∈ streamEntries db streamId,
      ∃ event, EventOf codec pf wire db stream identity entry event)
    {since : Int}
    (hfits : FragmentsFit (changesAfter db streamId since))
    (hpages : PagesFit pf db (changesAfter db streamId since))
    {limit : Nat}
    (hlimit : 1 ≤ limit)
    (hmax : limit ≤ 128) :
    ∃ items later, PageRead codec pf wire db stream identity streamId since limit items later := by
  obtain ⟨taken, later, hsplit, hselects, hread⟩ := @readEncodedChanges_spec db pf stream
    streamId row h.live since (fun entry hentry => h.contexts entry (mem_changesAfter hentry))
    limit hlimit (by omega)
  have hmem : ∀ entry ∈ taken, entry ∈ changesAfter db streamId since := by
    intro entry hentry
    rw [hsplit]
    exact List.mem_append_left later hentry
  have hentries : ∀ entry ∈ taken, entry ∈ streamEntries db streamId :=
    fun entry hentry => mem_changesAfter (hmem entry hentry)
  obtain ⟨items, changes, hitems, hitemEvents, hdecodes, hdurable, hzip⟩ :=
    exists_items hcodec h hevents hentries fun entry hentry => hfits entry (hmem entry hentry)
  have hshort : taken.length ≤ 128 := hselects.length_le.trans hmax
  have hbytes : pageBytes pf db taken ≤ readBytes :=
    hpages taken ⟨[], later, by rw [hsplit, List.nil_append]⟩ hshort hselects.fits
  have hencoded := (readEncoded_page (h.joined hentries) (by omega) _).2 ⟨hbytes, rfl⟩
  rw [hencoded, except_ok_bind] at hread
  refine ⟨items, later, ?_, ?_, hitemEvents, _, changes, hread, ?_, rfl, hdurable, _,
    materializePage_eq h.segmented changes, hzip⟩
  · rw [hitems, hsplit]
  · rintro rfl
    exact hselects.progress hitems.symm
  · exact decode_page (h.joined hentries) hdecodes

/-! ## The loop over the pages -/

theorem replayStream_full
    {limit fuel : Nat}
    {p : Progress}
    (h : limit ≤ p.events.length) :
    replayStream codec pf wire db identity stream (some limit) fuel p = .ok (p, false) := by
  cases fuel with
  | zero => rfl
  | succ fuel =>
      rw [replayStream, Option.map_some, Nat.sub_eq_zero_of_le h]
      rfl

theorem replayStream_succ
    {limit fuel : Nat}
    {p : Progress}
    (h : p.events.length < limit) :
    replayStream codec pf wire db identity stream (some limit) (fuel + 1) p = (do
      let page ← readEncodedChanges pf db stream p.cursor (min (limit - p.events.length) 128)
      let changes ← page.changes.decode
      ensure (∀ change ∈ changes, change.lastCursor ≤ page.durableCursor)
        "change exceeds durable watermark"
      let values ← materializePage codec wire db stream identity changes
      let (p, stop) ← takeEvents true (values.zip (changes.map (·.lastCursor))) p
      if stop then
        pure (p, true)
      else if page.hasMore then
        replayStream codec pf wire db identity stream (some limit) fuel p
      else
        pure (p, false)) := by
  rw [replayStream, Option.map_some]
  dsimp only
  rw [if_neg fun hnone => Nat.sub_ne_zero_of_lt h (Option.some.inj hnone)]
  rfl

/-- Behind the last event of a page come the changes that are left. -/
theorem changesAfter_of_page
    (h : StoredStream db stream streamId row)
    {since : Int}
    {items : List ((Nat × ChangeRow) × SseEvent)}
    {later : List (Nat × ChangeRow)}
    (hsplit : changesAfter db streamId since = items.map Prod.fst ++ later) :
    since ≤ ((items.map fun item => item.1.2.lastCursor).getLast?).getD since ∧
      changesAfter db streamId
        (((items.map fun item => item.1.2.lastCursor).getLast?).getD since) = later := by
  have hcursors : List.Forall₂ (fun (entry : Nat × ChangeRow) cursor =>
      cursor = entry.2.lastCursor) (items.map Prod.fst)
      (items.map fun item => item.1.2.lastCursor) := by
    rw [List.forall₂_map_left_iff, List.forall₂_map_right_iff, List.forall₂_same]
    exact fun _ _ => rfl
  have hnext := @entriesAfter_of_page _ _ _ _ (fun entry : Nat × ChangeRow => entry.2.lastCursor)
    id _ h.sorted _ (fun _ _ heq => heq) since _ later _ hsplit hcursors
  rw [Option.map_id] at hnext
  exact hnext

/-- A replay of one stream takes the changes behind its cursor, and some if there are any. -/
theorem replayStream_spec
    (h : StoredStream db stream streamId row)
    {since : Int}
    {limit : Nat}
    (hpages : ∀ c, since ≤ c → ∀ n, 1 ≤ n → n ≤ 128 →
      ∃ items later, PageRead codec pf wire db stream identity streamId c n items later)
    {fuel : Nat}
    {p : Progress}
    (hfuel : (changesAfter db streamId p.cursor).length < fuel)
    (hcursor : since ≤ p.cursor) :
    ∃ items later p' stop,
      replayStream codec pf wire db identity stream (some limit) fuel p = .ok (p', stop) ∧
      changesAfter db streamId p.cursor = items.map Prod.fst ++ later ∧
      (∀ item ∈ items, EventOf codec pf wire db stream identity item.1 item.2) ∧
      p'.events = p.events ++ items.map Prod.snd ∧
      (p.events.length < limit → items = [] → later = []) := by
  induction fuel generalizing p with
  | zero => exact absurd hfuel (Nat.not_lt_zero _)
  | succ fuel ih =>
      by_cases hroom : p.events.length < limit
      · obtain ⟨items, later, hsplit, hprogress, hevents, page, changes, hpage, hdecode, hmore,
          hdurable, values, hvalues, hzip⟩ :=
          hpages p.cursor hcursor (min (limit - p.events.length) 128) (by omega) (by omega)
        obtain ⟨done, rest, p', stop, hitems, htake, hadded, hlast, hsome, hall⟩ :=
          takeEvents_spec items p
        rw [replayStream_succ hroom, hpage, except_ok_bind, hdecode, except_ok_bind, ensure_bind,
          if_pos hdurable, hvalues, except_ok_bind, hzip, htake, except_ok_bind]
        dsimp only
        cases stop with
        | true =>
            refine ⟨done, rest.map Prod.fst ++ later, p', true, rfl, ?_, ?_, hadded, ?_⟩
            · rw [hsplit, hitems, List.map_append, List.append_assoc]
            · exact fun item hitem => hevents item (hitems ▸ List.mem_append_left rest hitem)
            · rintro - rfl
              obtain rfl := hsome rfl
              exact hprogress hitems
        | false =>
            obtain rfl := hall rfl
            rw [List.append_nil] at hitems
            subst hitems
            cases hlater : later with
            | nil =>
                rw [hmore, hlater]
                exact ⟨items, [], p', false, rfl, by rw [hsplit, hlater], hevents, hadded,
                  fun _ _ => rfl⟩
            | cons entry others =>
                -- the next page goes on behind the last event of this one
                obtain ⟨hnext, hafter⟩ := changesAfter_of_page h hsplit
                rw [← hlast] at hnext hafter
                have hne : items ≠ [] := fun hnil => by
                  rw [hprogress hnil] at hlater
                  cases hlater
                have hless : (changesAfter db streamId p'.cursor).length < fuel := by
                  rw [hsplit, List.length_append, List.length_map] at hfuel
                  rw [hafter]
                  have hpos := List.length_pos_of_ne_nil hne
                  omega
                obtain ⟨items', later', p'', stop, hreplay, hsplit', hevents', hadded', -⟩ :=
                  ih hless (hcursor.trans hnext)
                rw [hmore, hlater]
                refine ⟨items ++ items', later', p'', stop, hreplay, ?_, ?_, ?_, ?_⟩
                · rw [hsplit, ← hafter, hsplit', List.map_append, List.append_assoc]
                · exact List.forall_mem_append.2 ⟨hevents, hevents'⟩
                · rw [hadded', hadded, List.map_append, List.append_assoc]
                · exact fun _ hnil => absurd (List.append_eq_nil_iff.1 hnil).1 hne
      · rw [replayStream_full (Nat.le_of_not_lt hroom)]
        exact ⟨[], changesAfter db streamId p.cursor, p, false, rfl, rfl, List.forall_mem_nil _,
          (List.append_nil _).symm, fun hlt => absurd hlt hroom⟩

/-! ## A run of one epoch -/

/-- The stream is the only one of its run, and in the scope of the replay. -/
structure SingleEpoch (db : Database) (stream : StreamIdentity) (streamId : Nat)
    (sessionScope : Bool) : Prop where
  only : ∀ id row, db.streams.lookup id = some row →
    row.identity.sessionId = stream.sessionId → row.identity.runId = stream.runId →
    id ∉ db.retired → id = streamId
  scope : sessionScope = true → stream.epoch = -1

theorem SingleEpoch.epochs
    {sessionScope : Bool}
    (hsingle : SingleEpoch db stream streamId sessionScope)
    (h : StoredStream db stream streamId row)
    (since : Int) :
    epochsOf db stream.sessionId stream.runId since sessionScope = [stream] := by
  obtain ⟨hfound, hlive⟩ := Option.filter_eq_some_iff.1 h.live
  obtain ⟨hlook, hidentity⟩ := Table.find?_eq_some hfound
  rw [decide_eq_true_eq] at hlive hidentity
  have hscope : sessionScope = false ∨ stream.epoch = -1 ∨ since < -1 := by
    cases sessionScope with
    | false => exact Or.inl rfl
    | true => exact Or.inr (Or.inl (hsingle.scope rfl))
  have hnodup : db.streams.rows.Nodup :=
    db.streams.sorted.imp fun hlt heq => absurd (congrArg Prod.fst heq) hlt.ne
  unfold epochsOf
  suffices hrows : db.streams.rows.filter (fun row =>
      row.2.identity.sessionId = stream.sessionId ∧ row.2.identity.runId = stream.runId ∧
        row.1 ∉ db.retired ∧
          (sessionScope = false ∨ row.2.identity.epoch = -1 ∨ since < -1)) =
      [(streamId, row)] by
    rw [hrows, List.map_singleton, hidentity]
    rfl
  refine List.perm_singleton.1 ((List.perm_ext_iff_of_nodup (hnodup.filter _)
    (List.nodup_singleton _)).2 fun other => ?_)
  rw [List.mem_filter, List.mem_singleton, decide_eq_true_eq, Table.mem_rows_iff]
  constructor
  · rintro ⟨hother, hsession, hrun, hkept, -⟩
    obtain rfl := hsingle.only other.1 other.2 hother hsession hrun hkept
    rw [hlook] at hother
    exact Prod.ext rfl (Option.some.inj hother).symm
  · rintro rfl
    exact ⟨hlook, by rw [hidentity], by rw [hidentity], hlive, by rw [hidentity]; exact hscope⟩

/-- The replay of a run with one epoch is that of its stream. -/
theorem segmentedReplay_single
    {sessionScope : Bool}
    (hsingle : SingleEpoch db stream streamId sessionScope)
    (h : StoredStream db stream streamId row)
    (since : Int)
    (limit : Nat) :
    segmentedReplay codec pf wire db identity stream.sessionId stream.runId since sessionScope
        (some limit) =
      (replayStream codec pf wire db identity stream (some limit)
        (db.changes.rows.length + 1) { cursor := since }).map fun found =>
          { known := true, events := found.1.events } := by
  unfold segmentedReplay
  dsimp only
  rw [hsingle.epochs h since, replayEpochs]
  dsimp only
  cases replayStream codec pf wire db identity stream (some limit)
      (db.changes.rows.length + 1) { cursor := since } with
  | error message => rfl
  | ok found =>
      obtain ⟨p, stop⟩ := found
      rw [except_ok_bind]
      dsimp only
      split <;> rfl

/-- A call answers with the events of the next changes, and with some if there are any. -/
theorem replay_answers
    (hcodec : codec.Lossless)
    (h : StoredStream db stream streamId row)
    (hevents : ∀ entry ∈ streamEntries db streamId,
      ∃ event, EventOf codec pf wire db stream identity entry event)
    {sessionScope : Bool}
    (hsingle : SingleEpoch db stream streamId sessionScope)
    {since : Int}
    (hfits : FragmentsFit (changesAfter db streamId since))
    (hpages : PagesFit pf db (changesAfter db streamId since))
    {c : Int}
    (hc : since ≤ c)
    {limit : Nat}
    (hlimit : 1 ≤ limit) :
    Answers (EventOf codec pf wire db stream identity) (changesAfter db streamId c)
      ((segmentedReplay codec pf wire db identity stream.sessionId stream.runId c sessionScope
        (some limit)).map RunReplayPage.events) := by
  have hbehind : ∀ c, since ≤ c →
      changesAfter db streamId c <:+ changesAfter db streamId since :=
    fun c hc => entriesAfter_suffix h.sorted hc
  obtain ⟨items, later, p, stop, hreplay, hsplit, hitems, hadded, hprogress⟩ :=
    @replayStream_spec codec pf wire db stream identity streamId row h since limit
      (fun c hc n hn hmax => exists_pageRead hcodec h hevents
        (fun entry hentry => hfits entry ((hbehind c hc).mem hentry))
        (fun block hblock => hpages block (hblock.trans (hbehind c hc).isInfix)) hn hmax)
      (db.changes.rows.length + 1) { cursor := c } (by
        have hlength : (changesAfter db streamId c).length ≤ db.changes.rows.length := by
          refine (List.length_filter_le _ _).trans ?_
          unfold streamEntries
          rw [List.length_insertionSort]
          exact List.length_filter_le _ _
        exact Nat.lt_succ_of_le hlength) hc
  refine ⟨items.map Prod.snd, items.map Prod.fst, later, ?_, hsplit, ?_, ?_⟩
  · rw [segmentedReplay_single hsingle h, hreplay]
    exact congrArg Except.ok (hadded.trans (List.nil_append _))
  · rw [List.forall₂_map_left_iff, List.forall₂_map_right_iff, List.forall₂_same]
    exact hitems
  · intro hnil
    exact hprogress hlimit (List.map_eq_nil_iff.1 hnil)

/-! ## What a replay that goes on has read -/

/-- The changes of a page that has been read. -/
theorem pageRead_of_ok
    (h : StoredStream db stream streamId row)
    {since : Int}
    {limit : Nat}
    (hlimit : 1 ≤ limit)
    (hmax : limit ≤ 128)
    {page : EncodedChangePage}
    (hread : readEncodedChanges pf db stream since limit = .ok page) :
    ∃ taken later, changesAfter db streamId since = taken ++ later ∧
      Selects db limit taken later ∧ pageBytes pf db taken ≤ readBytes ∧
      page.changes = encodedPage pf db taken := by
  obtain ⟨taken, later, hsplit, hselects, hspec⟩ := @readEncodedChanges_spec db pf stream
    streamId row h.live since (fun entry hentry => h.contexts entry (mem_changesAfter hentry))
    limit hlimit (by omega)
  rw [hspec] at hread
  obtain ⟨encoded, hencoded, hread⟩ := bind_eq_ok.1 hread
  cases hread
  have hjoined : Joined db taken := h.joined fun entry hentry =>
    mem_changesAfter (hsplit ▸ List.mem_append_left later hentry)
  have hshort : taken.length ≤ 257 := by
    have hle := hselects.length_le
    omega
  obtain ⟨hbytes, rfl⟩ := (readEncoded_page hjoined hshort encoded).1 hencoded
  exact ⟨taken, later, hsplit, hselects, hbytes, rfl⟩

theorem decode_length
    {page : EncodedPage}
    {changes : List StoredChange}
    (h : page.decode = .ok changes) :
    changes.length = page.rows.length := by
  obtain ⟨parsed, -, hrows⟩ := bind_eq_ok.1 h
  exact (decodeRows_eq_ok_iff.1 hrows).length_eq.symm

/-- A replay that has an answer has read a page, and goes on from there. -/
theorem page_of_replayStream
    (h : StoredStream db stream streamId row)
    {limit fuel : Nat}
    {p : Progress}
    (hroom : p.events.length < limit)
    {result : Progress × Bool}
    (hok : replayStream codec pf wire db identity stream (some limit) (fuel + 1) p =
      .ok result) :
    ∃ taken later changes q stop, changesAfter db streamId p.cursor = taken ++ later ∧
      Selects db (min (limit - p.events.length) 128) taken later ∧
      pageBytes pf db taken ≤ readBytes ∧
      (encodedPage pf db taken).decode = .ok changes ∧
      takeEvents true ((changes.map (materializeChange codec wire db stream identity)).zip
        (changes.map (·.lastCursor))) p = .ok (q, stop) ∧
      (result.1 = q ∨ replayStream codec pf wire db identity stream (some limit) fuel q =
        .ok result) := by
  rw [replayStream_succ hroom] at hok
  obtain ⟨page, hpage, hok⟩ := bind_eq_ok.1 hok
  obtain ⟨changes, hdecode, hok⟩ := bind_eq_ok.1 hok
  obtain ⟨_, -, hok⟩ := bind_eq_ok.1 hok
  rw [materializePage_eq h.segmented, except_ok_bind] at hok
  obtain ⟨⟨q, stop⟩, htake, hok⟩ := bind_eq_ok.1 hok
  obtain ⟨taken, later, hsplit, hselects, hbytes, hencoded⟩ :=
    pageRead_of_ok h (by omega) (by omega) hpage
  rw [hencoded] at hdecode
  refine ⟨taken, later, changes, q, stop, hsplit, hselects, hbytes, hdecode, htake, ?_⟩
  dsimp only at hok
  split at hok
  · cases hok
    exact Or.inl rfl
  · split at hok
    · exact Or.inr hok
    · cases hok
      exact Or.inl rfl

/-- A replay never has more events than its limit. -/
theorem replayStream_length
    (h : StoredStream db stream streamId row)
    {limit fuel : Nat}
    {p : Progress}
    (hlength : p.events.length ≤ limit)
    {result : Progress × Bool}
    (hok : replayStream codec pf wire db identity stream (some limit) fuel p = .ok result) :
    result.1.events.length ≤ limit := by
  induction fuel generalizing p with
  | zero =>
      cases hok
      exact hlength
  | succ fuel ih =>
      by_cases hroom : p.events.length < limit
      · obtain ⟨taken, later, changes, q, stop, -, hselects, -, hdecode, htake, hresult⟩ :=
          page_of_replayStream h hroom hok
        have hadded := takeEvents_length htake
        have hcount := decode_length hdecode
        have hle := hselects.length_le
        rw [List.length_zip, List.length_map, List.length_map, Nat.min_self, hcount] at hadded
        unfold encodedPage at hadded
        rw [List.length_map] at hadded
        have hq : q.events.length ≤ limit := by omega
        rcases hresult with hsame | hreplay
        · rw [hsame]
          exact hq
        · exact ih hq hreplay
      · rw [replayStream_full (Nat.le_of_not_lt hroom)] at hok
        cases hok
        exact hlength

/-- What a call that answers has read first. -/
theorem page_of_replay
    (h : StoredStream db stream streamId row)
    {sessionScope : Bool}
    (hsingle : SingleEpoch db stream streamId sessionScope)
    {since : Int}
    {limit : Nat}
    (hlimit : 1 ≤ limit)
    {events : List SseEvent}
    (hok : (segmentedReplay codec pf wire db identity stream.sessionId stream.runId since
      sessionScope (some limit)).map RunReplayPage.events = .ok events) :
    events.length ≤ limit ∧
    ∃ taken later changes q, changesAfter db streamId since = taken ++ later ∧
      Selects db (min limit 128) taken later ∧ pageBytes pf db taken ≤ readBytes ∧
      (encodedPage pf db taken).decode = .ok changes ∧
      takeEvents true ((changes.map (materializeChange codec wire db stream identity)).zip
        (changes.map (·.lastCursor))) { cursor := since } = .ok q := by
  rw [segmentedReplay_single hsingle h] at hok
  cases hreplay : replayStream codec pf wire db identity stream (some limit)
      (db.changes.rows.length + 1) { cursor := since } with
  | error message =>
      rw [hreplay] at hok
      cases hok
  | ok result =>
      rw [hreplay] at hok
      cases hok
      refine ⟨replayStream_length h (Nat.zero_le _) hreplay, ?_⟩
      obtain ⟨taken, later, changes, q, stop, hsplit, hselects, hbytes, hdecode, htake, -⟩ :=
        page_of_replayStream h hlimit hreplay
      exact ⟨taken, later, changes, (q, stop), hsplit, hselects, hbytes, hdecode, htake⟩

/-- A page that holds the next changes holds their events. -/
theorem decodes_of_page
    (h : StoredStream db stream streamId row)
    (hevents : ∀ entry ∈ streamEntries db streamId,
      ∃ event, EventOf codec pf wire db stream identity entry event)
    {entries : List (Nat × ChangeRow)}
    (hmem : ∀ entry ∈ entries, entry ∈ streamEntries db streamId)
    {changes : List StoredChange}
    (hdecode : (encodedPage pf db entries).decode = .ok changes) :
    List.Forall₂ (Decodes pf db) entries changes := by
  obtain ⟨changes', hdecodes⟩ : ∃ changes', List.Forall₂ (Decodes pf db) entries changes' := by
    clear hdecode
    induction entries with
    | nil => exact ⟨[], .nil⟩
    | cons entry entries ih =>
        obtain ⟨hentry, hmem⟩ := List.forall_mem_cons.1 hmem
        obtain ⟨changes', hdecodes⟩ := ih hmem
        obtain ⟨event, change, _, hfirst, -⟩ := hevents entry hentry
        exact ⟨change :: changes', .cons hfirst hdecodes⟩
  rw [decode_page (h.joined hmem) hdecodes] at hdecode
  cases hdecode
  exact hdecodes

variable (codec pf wire db stream identity streamId) in
/--
Calls after calls, each from the cursor of the last event before, deliver the changes
behind a cursor, whatever their limits.
-/
def ReplayDelivers (sessionScope : Bool) (since : Int) : Prop :=
  Delivers (fun entry : Nat × ChangeRow => entry.2.lastCursor) (eventCursor stream)
    (EventOf codec pf wire db stream identity) (streamEntries db streamId) since
    fun c limit => (segmentedReplay codec pf wire db identity stream.sessionId stream.runId c
      sessionScope (some limit)).map RunReplayPage.events

section Delivers

variable {sessionScope : Bool}
variable {since : Int}

/-- A replay that delivers comes to every change, and goes on delivering from there. -/
theorem ReplayDelivers.reaches
    (h : StoredStream db stream streamId row)
    (hsingle : SingleEpoch db stream streamId sessionScope)
    (hdelivers : ReplayDelivers codec pf wire db stream identity streamId sessionScope since)
    {before later : List (Nat × ChangeRow)}
    {entry : Nat × ChangeRow}
    (hsplit : changesAfter db streamId since = before ++ entry :: later) :
    ∃ c, changesAfter db streamId c = entry :: later ∧
      ReplayDelivers codec pf wire db stream identity streamId sessionScope c := by
  obtain ⟨c, -, hc, hrest⟩ := Delivers.reaches h.sorted (fun _ _ hevent => hevent.cursor)
    (fun c page hpage => (page_of_replay h hsingle (Nat.le_refl 1) hpage).1) hdelivers hsplit
  exact ⟨c, hc, hrest⟩

/-- A replay that delivers reads the pages of any limit. -/
theorem ReplayDelivers.page
    (h : StoredStream db stream streamId row)
    (hsingle : SingleEpoch db stream streamId sessionScope)
    (hdelivers : ReplayDelivers codec pf wire db stream identity streamId sessionScope since)
    {limit : Nat}
    (hlimit : 1 ≤ limit) :
    ∃ taken later changes q, changesAfter db streamId since = taken ++ later ∧
      Selects db (min limit 128) taken later ∧ pageBytes pf db taken ≤ readBytes ∧
      (encodedPage pf db taken).decode = .ok changes ∧
      takeEvents true ((changes.map (materializeChange codec wire db stream identity)).zip
        (changes.map (·.lastCursor))) { cursor := since } = .ok q := by
  obtain ⟨page, -, -, hpage, -⟩ :=
    Delivers.step h.sorted (fun _ _ hevent => hevent.cursor) hdelivers hlimit
  exact (page_of_replay h hsingle hlimit hpage).2

/-- A replay that delivers has read every fragment. -/
theorem ReplayDelivers.fragmentsFit
    (h : StoredStream db stream streamId row)
    (hevents : ∀ entry ∈ streamEntries db streamId,
      ∃ event, EventOf codec pf wire db stream identity entry event)
    (hsingle : SingleEpoch db stream streamId sessionScope)
    (hdelivers : ReplayDelivers codec pf wire db stream identity streamId sessionScope since) :
    FragmentsFit (changesAfter db streamId since) := by
  intro entry hentry hfragment
  obtain ⟨before, later, hsplit⟩ := List.append_of_mem hentry
  obtain ⟨c, hc, hrest⟩ := hdelivers.reaches h hsingle hsplit
  obtain ⟨taken, left, changes, q, htaken, hselects, -, hdecode, htake⟩ :=
    hrest.page h hsingle (Nat.le_refl 1)
  rw [hc] at htaken
  -- a page of one change is the first of them
  obtain rfl : taken = [entry] :=
    hselects.eq_of_fits (by rw [← htaken]; rfl) rfl (Or.inl (Nat.le_refl 1))
  have hmem := mem_changesAfter hentry
  have hdecodes := decodes_of_page h hevents (List.forall_mem_singleton.2 hmem) hdecode
  obtain ⟨change, rest, hchange, hnone, rfl⟩ := List.forall₂_cons_left_iff.1 hdecodes
  obtain ⟨event, hevent, -⟩ := bind_eq_ok.1 htake
  exact fits_of_materializeChange h hmem hchange hevent hfragment

/-- A replay that delivers has read every page. -/
theorem ReplayDelivers.pagesFit
    (h : StoredStream db stream streamId row)
    (hsingle : SingleEpoch db stream streamId sessionScope)
    (hdelivers : ReplayDelivers codec pf wire db stream identity streamId sessionScope since) :
    PagesFit pf db (changesAfter db streamId since) := by
  intro block hblock hshort hfits
  obtain ⟨before, rest, hsplit⟩ := hblock
  cases block with
  | nil => exact Nat.zero_le _
  | cons entry block =>
      rw [List.append_assoc, List.cons_append] at hsplit
      obtain ⟨c, hc, hrest⟩ := hdelivers.reaches h hsingle hsplit.symm
      obtain ⟨taken, left, changes, q, htaken, hselects, hbytes, -, -⟩ :=
        hrest.page h hsingle (Nat.succ_pos block.length)
      rw [hc] at htaken
      have hsame : taken = entry :: block := by
        refine hselects.eq_of_fits htaken.symm ?_ hfits
        rw [List.length_cons] at hshort ⊢
        omega
      rw [← hsame]
      exact hbytes

end Delivers

/--
A run of one epoch is replayed in pages of any limits, each change after the cursor once
and in order, if and only if every fragment there fits one read, and so does what is read
for every page that may be selected.
-/
theorem segmented_replay_delivers_iff
    (codec : Codec)
    (hcodec : codec.Lossless)
    (pf : Platform)
    (wire : WireCodec)
    (db : Database)
    (stream : StreamIdentity)
    (identity : StorageIdentity)
    (streamId : Nat)
    (row : StreamRow)
    (h : StoredStream db stream streamId row)
    (hevents : ∀ entry ∈ streamEntries db streamId,
      ∃ event, EventOf codec pf wire db stream identity entry event)
    (sessionScope : Bool)
    (hsingle : SingleEpoch db stream streamId sessionScope)
    (since : Int) :
    ReplayDelivers codec pf wire db stream identity streamId sessionScope since ↔
      FragmentsFit (changesAfter db streamId since) ∧
        PagesFit pf db (changesAfter db streamId since) := by
  constructor
  · intro hdelivers
    exact ⟨hdelivers.fragmentsFit h hevents hsingle, hdelivers.pagesFit h hsingle⟩
  · rintro ⟨hfits, hpages⟩
    exact delivers_of_answers h.sorted (fun _ _ hevent => hevent.cursor)
      fun c hc limit hlimit => replay_answers hcodec h hevents hsingle hfits hpages hc hlimit

end Delivery

/-! ### One fragment

A fragment of `k` times 64 KiB, as `Writer::encode` stages it: piece by piece, and then its
cursor.
-/

def fragmentText (k : Nat) : Text := List.replicate (k * writeBytes) 'a'

def fragmentAppends (k : Nat) : List ContentOp :=
  (List.range k).map fun i => .append 1 ((i * writeBytes : Nat) : Int) (fragmentText 1)

def fragmentStream : StreamIdentity := { sessionId := "s", runId := "r", epoch := 1 }

def fragmentRange (k : Nat) : ContentRange :=
  { id := 1, offset := 0, length := ((k * writeBytes : Nat) : Int) }

def fragmentMetadata : Json := .obj [("data", .obj [("text", .str "")])]

def fragmentRow (k : Nat) : ChangeRow where
  streamId := 1
  contextId := 1
  firstCursor := 0
  lastCursor := 0
  eventKind := 6
  unknownKind := none
  flags := 0
  metadata := fragmentMetadata
  direct := some (fragmentRange k)

def fragmentContext : ContextRow where
  streamId := 1
  descriptor := .arr [.obj [], .str "/data/text", .str "text", .obj [], .num (.posInt 6)]
  symbolBytes := 0

def fragmentDatabase (k : Nat) : Database where
  objects := Machine.run (step letterCodec) (Store.create [] 1) (fragmentAppends k)
  streams := Table.empty.insert 1 { identity := fragmentStream, durableCursor := 0 }
  contexts := Table.empty.insert 1 fragmentContext
  changes := Table.empty.insert 1 (fragmentRow k)
  segmented := ["s"]

def fragmentChange (k : Nat) : StoredChange where
  firstCursor := 0
  lastCursor := 0
  eventType := "text_chunk"
  metadata := fragmentMetadata
  bodies := [{ field := "/data/text", range := fragmentRange k, encoding := .text }]

/-- No body of the sample is JSON. -/
def fragmentWire : WireCodec where
  fromStr _ := none
  modelSummary _ := none

def fragmentIdentity : StorageIdentity := { databaseId := "d", restoreGeneration := "0" }

theorem size_replicate_letter (n : Nat) : Utf8.size (List.replicate n 'a') = n := by
  induction n with
  | zero => rfl
  | succ n ih =>
      rw [List.replicate_succ, Utf8.size_cons, ih]
      exact Nat.add_comm 1 n

/-- The pieces make up the text. -/
theorem fragmentBody
    {k : Nat}
    (hk : k ≤ 5) :
    Machine.run (Body.step letterCodec 1) {} (fragmentAppends k) =
      { text := fragmentText k } := by
  induction k with
  | zero => rfl
  | succ k ih =>
      have happend : fragmentAppends (k + 1) = fragmentAppends k ++
          [.append 1 ((k * writeBytes : Nat) : Int) (fragmentText 1)] := by
        unfold fragmentAppends
        rw [List.range_succ, List.map_append]
        rfl
      have hextends : ({ text := fragmentText k } : Body).Extends ((k * writeBytes : Nat) : Int)
          (fragmentText 1) := by
        unfold Body.Extends fragmentText
        simp only [size_replicate_letter]
        unfold writeBytes
        exact ⟨by omega, by omega, rfl, trivial⟩
      rw [happend, Machine.run_concat, ih (by omega), Body.step, if_pos rfl, Body.append,
        if_pos hextends]
      unfold fragmentText
      rw [← List.replicate_add, Nat.one_mul, Nat.succ_mul]

theorem fragment_holdsText
    {k : Nat}
    (hk : k ≤ 5) :
    HoldsText letterCodec (fragmentDatabase k) (fragmentRange k) (fragmentText k) := by
  refine ⟨{ text := fragmentText k }, ?_, ⟨[], [], ?_, rfl⟩, ?_⟩
  · rw [← fragmentBody hk]
    exact run_stores letterCodec_lossless ⟨{}, rfl, holds_new⟩ _
  · rw [List.nil_append, List.append_nil]
  · unfold fragmentText
    rw [size_replicate_letter]
    rfl

theorem fragment_entries (k : Nat) :
    streamEntries (fragmentDatabase k) 1 = [(1, fragmentRow k)] := rfl

theorem lookup_fragment
    {k id : Nat}
    {row : ChangeRow}
    (h : (fragmentDatabase k).changes.lookup id = some row) :
    id = 1 ∧ row = fragmentRow k := by
  have hlook : (if id = 1 then some (fragmentRow k) else none) = some row := h
  split at hlook
  · rename_i hid
    exact ⟨hid, (Option.some.inj hlook).symm⟩
  · cases hlook

theorem fragment_stored (k : Nat) :
    StoredStream (fragmentDatabase k) fragmentStream 1
      { identity := fragmentStream, durableCursor := 0 } where
  live := rfl
  segmented := List.mem_singleton.2 rfl
  tiled := {
    bound := by decide
    within := by
      intro id row hlook _
      obtain ⟨rfl, rfl⟩ := lookup_fragment hlook
      exact ⟨le_refl 0, le_refl 0, le_refl 0⟩
    covered := by
      intro c hlo hhi
      exact ⟨1, fragmentRow k, rfl, rfl, hlo, hhi⟩
    apart := by
      intro id id' row row' c hlook hlook' _ _ _ _
      exact (lookup_fragment hlook).1.trans (lookup_fragment hlook').1.symm }
  contexts := List.forall_mem_singleton.2 rfl
  links := List.forall_mem_singleton.2 .nil

theorem fragment_decodes (k : Nat) :
    Decodes chunkPlatform (fragmentDatabase k) (1, fragmentRow k) (fragmentChange k) := rfl

theorem fragment_tokens :
    Json.pointerTokens "/data/text".toList = some ["data".toList, "text".toList] := by
  decide +kernel

/-- Whatever its text is, the fragment has an event. -/
theorem fragment_event
    {k : Nat}
    (hk : k ≤ 5) :
    ∃ event, EventOf letterCodec chunkPlatform fragmentWire (fragmentDatabase k) fragmentStream
      fragmentIdentity (1, fragmentRow k) event := by
  have hplaced : ∀ text : String,
      placeBodies fragmentWire fragmentStream fragmentIdentity 0
        (fun field => if field ∈ ["/data/text"] then some (.ok text) else none)
        (fragmentChange k).bodies fragmentMetadata =
          .ok (.obj [("data", .obj [("text", .str text)])]) := by
    intro text
    simp only [placeBodies, placeBody, fragmentChange, List.mem_singleton, if_true,
      except_ok_bind, bodyValue, setPointer]
    rw [fragment_tokens]
    simp [setTokens, fragmentMetadata, Fields.lookup, Fields.insert, pure, Except.pure]
  have hmaterialized : ∀ text : String,
      materializeWith fragmentWire fragmentStream fragmentIdentity (fragmentChange k)
        (fun field => if field ∈ ["/data/text"] then some (.ok text) else none) =
        .ok (stampEvent fragmentStream (fragmentChange k) (.obj [("data", .obj [
          ("content_format", .num (.posInt 2)), ("text", .str text)])])) := by
    intro text
    have hstart : materializeWith fragmentWire fragmentStream fragmentIdentity (fragmentChange k)
        (fun field => if field ∈ ["/data/text"] then some (.ok text) else none) = (do
          let event ← placeBodies fragmentWire fragmentStream fragmentIdentity 0
            (fun field => if field ∈ ["/data/text"] then some (.ok text) else none)
            (fragmentChange k).bodies fragmentMetadata
          let event ← setData event "content_format" (.num (.posInt 2))
          pure (stampEvent fragmentStream (fragmentChange k) event)) := rfl
    rw [hstart, hplaced, except_ok_bind]
    rfl
  have hsent : inlineBodies (fragmentChange k).eventType (fragmentChange k).bodies 0 =
      (fragmentChange k).bodies := inlineBodies_of_fragment
    (by decide : "text_chunk" ∈ deltaKinds) _ _
  have hholds := fragment_holdsText hk
  -- the text itself plays no part
  generalize fragmentText k = text at hholds
  obtain ⟨event, hevent⟩ := @sseEvent_stampEvent fragmentStream (fragmentChange k)
    [("data", .obj [("content_format", .num (.posInt 2)), ("text", .str (String.ofList text))])]
    (by decide) (by decide : (0 : Int) < 2 ^ 63) (fun _ h => by cases h) (fun _ h => by cases h)
    (fun _ h => by cases h)
  refine ⟨event, fragmentChange k, fun _ => text, fragment_decodes k, ?_, ?_⟩
  · rw [hsent]
    exact List.forall_mem_singleton.2 hholds
  · have htext : textOf (fragmentChange k).bodies (fun _ => text) = fun field =>
        if field ∈ ["/data/text"] then some (.ok (String.ofList text)) else none := rfl
    rw [hsent, htext, hmaterialized, except_ok_bind]
    exact hevent

theorem fragment_single (k : Nat) : SingleEpoch (fragmentDatabase k) fragmentStream 1 false where
  only := by
    intro id row hlook _ _ _
    have hfound : (if id = 1 then some { identity := fragmentStream, durableCursor := 0 }
      else (none : Option StreamRow)) = some row := hlook
    by_contra hid
    rw [if_neg hid] at hfound
    cases hfound
  scope := nofun

/-- The sample with its events. -/
theorem fragment_events
    {k : Nat}
    (hk : k ≤ 5) :
    ∀ entry ∈ streamEntries (fragmentDatabase k) 1, ∃ event, EventOf letterCodec chunkPlatform
      fragmentWire (fragmentDatabase k) fragmentStream fragmentIdentity entry event := by
  rw [fragment_entries]
  exact List.forall_mem_singleton.2 (fragment_event hk)

/-- A fragment of 64 KiB is replayed. -/
theorem segmented_replay_delivers_fragment :
    ReplayDelivers letterCodec chunkPlatform fragmentWire (fragmentDatabase 1) fragmentStream
      fragmentIdentity 1 false (-1) := by
  refine (segmented_replay_delivers_iff letterCodec letterCodec_lossless chunkPlatform
    fragmentWire (fragmentDatabase 1) fragmentStream fragmentIdentity 1 _ (fragment_stored 1)
    (fragment_events (by decide)) false (fragment_single 1) (-1)).2 ⟨?_, ?_⟩
  · intro entry hentry _ range hrange
    have hmem := mem_changesAfter hentry
    rw [fragment_entries, List.mem_singleton] at hmem
    subst hmem
    obtain rfl := List.mem_singleton.1 hrange
    decide
  · intro block hblock _ _
    have hbytes : pageBytes chunkPlatform (fragmentDatabase 1) [(1, fragmentRow 1)] ≤ readBytes := by
      decide +kernel
    have hpart : block <:+: [(1, fragmentRow 1)] := hblock
    cases block with
    | nil => exact Nat.zero_le _
    | cons entry block =>
        have hwhole := hpart.sublist.eq_of_length_le (by simp)
        rw [hwhole]
        exact hbytes

/-- A fragment of 320 KiB stops the replay of its stream for good. -/
theorem segmented_replay_stops_at_long_fragment :
    StoredStream (fragmentDatabase 5) fragmentStream 1
        { identity := fragmentStream, durableCursor := 0 } ∧
      (∀ entry ∈ streamEntries (fragmentDatabase 5) 1, ∃ event, EventOf letterCodec
        chunkPlatform fragmentWire (fragmentDatabase 5) fragmentStream fragmentIdentity entry
        event) ∧
      SingleEpoch (fragmentDatabase 5) fragmentStream 1 false ∧
      ¬ ReplayDelivers letterCodec chunkPlatform fragmentWire (fragmentDatabase 5)
        fragmentStream fragmentIdentity 1 false (-1) := by
  refine ⟨fragment_stored 5, fragment_events (Nat.le_refl 5), fragment_single 5, fun h => ?_⟩
  have hfits := h.fragmentsFit (fragment_stored 5) (fragment_events (Nat.le_refl 5))
    (fragment_single 5) (1, fragmentRow 5) (List.mem_singleton.2 rfl) (by decide)
    (fragmentRange 5) (List.mem_singleton.2 rfl)
  exact absurd hfits (by decide)

end Content
end FutureOs
