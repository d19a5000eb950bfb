import FutureOs.Content.OneBody
import FutureOs.Content.ReplayPages

/-!
# The events of a page

The event of a change is put together from the texts that its ranges hold (`EventOf`).
What `materializePage` does for a change depends on that change alone
(`materializePage_eq`), and it gives that event as long as no text that is sent along is
longer than one read (`materializeChange_of_fits`, `fits_of_materializeChange`).
-/

namespace FutureOs
namespace Content

open Broadcast (SseEvent)

section Events

variable {codec : Codec}
variable {pf : Platform}
variable {wire : WireCodec}
variable {db : Database}
variable {stream : StreamIdentity}
variable {identity : StorageIdentity}

/-! ## What a change is read as -/

/-- What a change refers to. -/
def ChangeRow.ranges (row : ChangeRow) : List ContentRange :=
  row.direct.toList ++ row.links.map fun link => link.2.range

/-- The fields of a change and what they refer to. -/
theorem Decodes.spec
    {entry : Nat × ChangeRow}
    (h : Joined db [entry])
    {change : StoredChange}
    (hdecode : Decodes pf db entry change) :
    change.lastCursor = entry.2.lastCursor ∧ change.eventType = entry.2.eventType ∧
      (entry.2.direct = none ∨ entry.2.links = []) ∧
      change.bodies.map FieldBody.range = entry.2.ranges ∧
      change.bodies.map (fun body => (body.field, body.range)) =
        contentRanges db entry.2 := by
  obtain ⟨context, parsed, hcontext, hstream, hkind, hparsed, hrow⟩ := hdecode.parts h
  have hfield : directField context.descriptor = parsed.2.1.asStr? := by
    unfold restore at hparsed
    split at hparsed
    · rename_i hdescriptor
      obtain ⟨_, -, hparsed⟩ := bind_eq_ok.1 hparsed
      obtain ⟨_, -, hparsed⟩ := bind_eq_ok.1 hparsed
      obtain ⟨_, -, hparsed⟩ := bind_eq_ok.1 hparsed
      cases hparsed
      rw [hdescriptor]
      rfl
    · cases hparsed
  have hranges : contentRanges db entry.2 =
      (entry.2.direct.bind fun range => parsed.2.1.asStr?.map fun field =>
        (field, range)).toList ++ entry.2.links.map fun link => (link.1, link.2.range) := by
    unfold contentRanges
    dsimp only
    rw [hcontext, Option.filter_some, if_pos (decide_eq_true hstream)]
    simp only [Option.bind_some, hfield]
  rw [hranges]
  unfold decodeRowOf encodedOf at hrow
  dsimp only at hrow
  rw [Fields.lookup_cons, if_pos rfl, context_some, except_ok_bind, Fields.lookup_cons,
    if_pos rfl, Option.getD_some] at hrow
  cases hdirect : entry.2.direct with
  | some range =>
      rw [hdirect] at hrow
      obtain ⟨_, hnone, hrow⟩ := bind_eq_ok.1 hrow
      obtain ⟨field, hfield, hrow⟩ := bind_eq_ok.1 hrow
      obtain ⟨_, -, hrow⟩ := bind_eq_ok.1 hrow
      obtain ⟨_, -, hrow⟩ := bind_eq_ok.1 hrow
      obtain ⟨bodies, hbodies, hrow⟩ := bind_eq_ok.1 hrow
      obtain ⟨_, -, hrow⟩ := bind_eq_ok.1 hrow
      cases hbodies
      cases hrow
      have hlinks : entry.2.links = [] := List.map_eq_nil_iff.1 (ensure_eq_ok.1 hnone)
      unfold ChangeRow.ranges
      refine ⟨rfl, rfl, Or.inr hlinks, by rw [hdirect, hlinks]; rfl, ?_⟩
      rw [hlinks, Option.bind_some, context_eq_ok.1 hfield]
      rfl
  | none =>
      rw [hdirect] at hrow
      obtain ⟨bodies, hbodies, hrow⟩ := bind_eq_ok.1 hrow
      obtain ⟨_, -, hrow⟩ := bind_eq_ok.1 hrow
      cases hbodies
      cases hrow
      unfold ChangeRow.ranges
      refine ⟨rfl, rfl, Or.inl rfl, by rw [hdirect, linkBodies, List.map_map]; rfl, ?_⟩
      rw [linkBodies, List.map_map, Option.bind_none]
      rfl

theorem Decodes.lastCursor
    {entry : Nat × ChangeRow}
    {change : StoredChange}
    (h : Decodes pf db entry change) :
    change.lastCursor = entry.2.lastCursor := by
  obtain ⟨parsed, -, hrows⟩ := bind_eq_ok.1 h
  have hrow := (List.forall₂_cons.1 (decodeRows_eq_ok_iff.1 hrows)).1
  unfold decodeRowOf at hrow
  obtain ⟨⟨stable, field, encoding⟩, -, hrow⟩ := bind_eq_ok.1 hrow
  dsimp only at hrow
  split at hrow
  · obtain ⟨_, -, hrow⟩ := bind_eq_ok.1 hrow
    obtain ⟨_, -, hrow⟩ := bind_eq_ok.1 hrow
    obtain ⟨_, -, hrow⟩ := bind_eq_ok.1 hrow
    obtain ⟨_, -, hrow⟩ := bind_eq_ok.1 hrow
    obtain ⟨_, -, hrow⟩ := bind_eq_ok.1 hrow
    obtain ⟨_, -, hrow⟩ := bind_eq_ok.1 hrow
    cases hrow
    rfl
  · obtain ⟨_, -, hrow⟩ := bind_eq_ok.1 hrow
    obtain ⟨_, -, hrow⟩ := bind_eq_ok.1 hrow
    cases hrow
    rfl

/-! ## A stored stream -/

theorem mem_streamEntries
    {streamId : Nat}
    {entry : Nat × ChangeRow} :
    entry ∈ streamEntries db streamId ↔
      db.changes.lookup entry.1 = some entry.2 ∧ entry.2.streamId = streamId := by
  unfold streamEntries
  rw [List.mem_insertionSort, List.mem_filter, Table.mem_rows_iff, decide_eq_true_eq]

/--
The tables of a stream that is there: its changes cover the cursors up to the durable one,
each with a context of its kind, and the links of a change are in the order of their
fields.
-/
structure StoredStream (db : Database) (stream : StreamIdentity) (streamId : Nat)
    (row : StreamRow) : Prop where
  live : db.liveStream stream = some (streamId, row)
  segmented : stream.sessionId ∈ db.segmented
  tiled : Tiled db.changes streamId row.durableCursor
  contexts : ∀ entry ∈ streamEntries db streamId, (contextOf db entry.2).isSome
  links : ∀ entry ∈ streamEntries db streamId, Fields.Sorted entry.2.links

section Stored

variable {streamId : Nat}
variable {row : StreamRow}

theorem StoredStream.joined
    (h : StoredStream db stream streamId row)
    {entries : List (Nat × ChangeRow)}
    (hmem : ∀ entry ∈ entries, entry ∈ streamEntries db streamId) :
    Joined db entries :=
  ⟨fun entry hentry => (mem_streamEntries.1 (hmem entry hentry)).1,
    fun entry hentry => h.contexts entry (hmem entry hentry)⟩

/-- No two changes end at one cursor. -/
theorem StoredStream.eq_of_cursor
    (h : StoredStream db stream streamId row)
    {a b : Nat × ChangeRow}
    (ha : a ∈ streamEntries db streamId)
    (hb : b ∈ streamEntries db streamId)
    (hsame : a.2.lastCursor = b.2.lastCursor) :
    a = b := by
  obtain ⟨halook, hastream⟩ := mem_streamEntries.1 ha
  obtain ⟨hblook, hbstream⟩ := mem_streamEntries.1 hb
  have hawithin := h.tiled.within a.1 a.2 halook hastream
  have hbwithin := h.tiled.within b.1 b.2 hblook hbstream
  have hid := h.tiled.apart a.1 b.1 a.2 b.2 a.2.lastCursor halook hblook hastream hbstream
    ⟨hawithin.2.1, le_refl _⟩ ⟨hsame ▸ hbwithin.2.1, hsame.le⟩
  rw [← hid, halook] at hblook
  exact Prod.ext hid (Option.some.inj hblook)

/-- The changes lie in the order of their cursors. -/
theorem StoredStream.sorted
    (h : StoredStream db stream streamId row) :
    (streamEntries db streamId).Pairwise fun a b => a.2.lastCursor < b.2.lastCursor := by
  have hsorted : (streamEntries db streamId).Pairwise
      fun a b => a.2.lastCursor ≤ b.2.lastCursor := List.pairwise_insertionSort _ _
  have hnodup : (streamEntries db streamId).Nodup :=
    (List.perm_insertionSort _ _).nodup_iff.2
      ((db.changes.sorted.imp fun hlt heq => absurd (congrArg Prod.fst heq) hlt.ne).filter _)
  refine (hsorted.and hnodup).imp_of_mem ?_
  rintro a b ha hb ⟨hle, hne⟩
  exact lt_of_le_of_ne hle fun hsame => hne (h.eq_of_cursor ha hb hsame)

theorem StoredStream.changeAt
    (h : StoredStream db stream streamId row)
    {entry : Nat × ChangeRow}
    (hentry : entry ∈ streamEntries db streamId) :
    db.changeAt streamId entry.2.lastCursor = some entry := by
  obtain ⟨hlook, hstream⟩ := mem_streamEntries.1 hentry
  unfold Database.changeAt
  cases hfound : db.changes.find? fun row =>
      row.streamId = streamId ∧ row.lastCursor = entry.2.lastCursor with
  | none =>
      have hnone := Table.find?_eq_none.1 hfound entry.1 entry.2 hlook
      exact absurd ⟨hstream, rfl⟩ (of_decide_eq_false hnone)
  | some found =>
      obtain ⟨hfoundLook, hcondition⟩ := Table.find?_eq_some hfound
      rw [decide_eq_true_eq] at hcondition
      rw [h.eq_of_cursor (mem_streamEntries.2 ⟨hfoundLook, hcondition.1⟩) hentry hcondition.2]

/-- The reference of a change's body is what the table says at its cursor. -/
theorem StoredStream.currentRange
    (h : StoredStream db stream streamId row)
    {entry : Nat × ChangeRow}
    (hentry : entry ∈ streamEntries db streamId)
    {change : StoredChange}
    (hdecode : Decodes pf db entry change)
    {body : FieldBody}
    (hbody : body ∈ change.bodies) :
    currentRange db stream change.lastCursor body.field = some body.range := by
  obtain ⟨hlook, hstream⟩ := mem_streamEntries.1 hentry
  have hjoined : Joined db [entry] :=
    h.joined fun e he => List.mem_singleton.1 he ▸ hentry
  obtain ⟨hcursor, -, hone, -, hranges⟩ := hdecode.spec hjoined
  have hmem : (body.field, body.range) ∈ contentRanges db entry.2 := by
    rw [← hranges]
    exact List.mem_map.2 ⟨body, hbody, rfl⟩
  have hsorted : Fields.Sorted (contentRanges db entry.2) := by
    unfold contentRanges
    rcases hone with hnone | hnone
    · rw [hnone, Option.bind_none]
      exact List.pairwise_map.2 (h.links entry hentry)
    · rw [hnone, List.map_nil, List.append_nil]
      exact Option.pairwise_toList
  have hwithin := h.tiled.within entry.1 entry.2 hlook hstream
  unfold Content.currentRange
  rw [h.live, Option.bind_some, hcursor, h.changeAt hentry, Option.filter_some,
    if_pos (decide_eq_true hwithin.2.2), Option.bind_some]
  exact hsorted.lookup_of_mem hmem

/-! ## The texts of a change -/

/-- The text that a range holds. -/
def HoldsText (codec : Codec) (db : Database) (range : ContentRange) (text : Text) : Prop :=
  ∃ body, Stores codec db.objects range.id body ∧ body.StoredAt range.offset text ∧
    range.length = Utf8.size text

/-- A text that fits one read is what the read gives. -/
theorem HoldsText.read
    (hcodec : codec.Lossless)
    {range : ContentRange}
    {text : Text}
    (h : HoldsText codec db range text)
    (hfits : range.length ≤ readBytes) :
    ∃ page, db.objects.read codec range.id range.offset range.length.toNat = .ok page ∧
      page.text = text ∧ page.nextOffset = range.offset + range.length := by
  obtain ⟨body, ⟨o, hlook, hholds⟩, hstored, hlength⟩ := h
  obtain ⟨hoffset, hend⟩ := hstored.bounds
  obtain ⟨offset, hnat⟩ := Int.eq_ofNat_of_zero_le hoffset
  rw [hnat] at hstored hend ⊢
  rw [hlength] at hfits ⊢
  obtain ⟨hboundary, htake⟩ := storedAt_iff.1 hstored
  have hread := read_holds hcodec hlook hholds offset (Utf8.size text) (by omega) (by omega)
  rw [if_pos hboundary, htake] at hread
  exact ⟨_, hread, rfl, Int.natCast_add _ _⟩

/-- The text of a body that fits one read. -/
theorem readInlineBody_of_fits
    (hcodec : codec.Lossless)
    (h : StoredStream db stream streamId row)
    {entry : Nat × ChangeRow}
    (hentry : entry ∈ streamEntries db streamId)
    {change : StoredChange}
    (hdecode : Decodes pf db entry change)
    {body : FieldBody}
    (hbody : body ∈ change.bodies)
    {text : Text}
    (htext : HoldsText codec db body.range text)
    (hfits : body.range.length ≤ readBytes) :
    readInlineBody codec db stream change.lastCursor body = .ok (String.ofList text) := by
  obtain ⟨page, hread, htake, hnext⟩ := htext.read hcodec hfits
  have hlength : 0 ≤ body.range.length := by
    obtain ⟨_, -, -, hlength⟩ := htext
    omega
  unfold readInlineBody
  dsimp only
  rw [ensure_bind, if_pos (h.currentRange hentry hdecode hbody), ensure_bind, if_pos hlength,
    hread, except_ok_bind, ensure_bind, if_pos hnext, htake]
  rfl

/-- A body that has been read fits one read. -/
theorem fits_of_readInlineBody
    {cursor : Int}
    {body : FieldBody}
    {text : String}
    (h : readInlineBody codec db stream cursor body = .ok text) :
    body.range.length ≤ readBytes := by
  obtain ⟨_, -, h⟩ := bind_eq_ok.1 h
  obtain ⟨_, hlength, h⟩ := bind_eq_ok.1 h
  obtain ⟨page, hread, -⟩ := bind_eq_ok.1 h
  obtain ⟨_, hbudget, -⟩ := bind_eq_ok.1 hread
  have hnonneg := ensure_eq_ok.1 hlength
  have hmax := (ensure_eq_ok.1 hbudget).2
  omega

end Stored

/-! ## The event of a change -/

/-- What a page makes of a change. -/
def materializeChange (codec : Codec) (wire : WireCodec) (db : Database)
    (stream : StreamIdentity) (identity : StorageIdentity) (change : StoredChange) :
    Except String SseEvent :=
  materializeWith wire stream identity change (fun field =>
    ((inlineBodies change.eventType change.bodies 0).find? fun body => body.field = field).map
      (readInlineBody codec db stream change.lastCursor)) >>= sseEvent

/-- The outcomes for one change of a page. -/
theorem lookup_outcomes
    {α : Type}
    (bodies : List FieldBody)
    (read : FieldBody → α)
    (k i : Nat)
    (field : String) :
    (bodies.map fun body => ((k, body.field), read body)).lookup (i, field) =
      if i = k then (bodies.find? fun body => body.field = field).map read else none := by
  induction bodies with
  | nil => split <;> rfl
  | cons body bodies ih =>
      rw [List.map_cons, List.lookup_cons]
      by_cases hkey : (i, field) = (k, body.field)
      · obtain ⟨rfl, rfl⟩ := Prod.mk.inj hkey
        simp
      · rw [beq_false_of_ne hkey, ih]
        by_cases hi : i = k
        · have hfield : ¬ body.field = field := fun heq => hkey (by rw [hi, heq])
          rw [List.find?_cons, decide_eq_false hfield]
        · simp only [if_neg hi]

/-- The outcomes for a change among those for its page. -/
theorem lookup_page
    {α : Type}
    (read : InlineBody → α)
    (field : String)
    {entries : List (StoredChange × Nat)}
    (hnodup : (entries.map Prod.snd).Nodup)
    {entry : StoredChange × Nat}
    (hentry : entry ∈ entries) :
    ((entries.flatMap fun entry =>
        (inlineBodies entry.1.eventType entry.1.bodies 0).map fun body =>
          { change := entry.2, cursor := entry.1.lastCursor, body := body : InlineBody }).map
        fun request => ((request.change, request.body.field), read request)).lookup
        (entry.2, field) =
      ((inlineBodies entry.1.eventType entry.1.bodies 0).find? fun body =>
        body.field = field).map fun body =>
          read { change := entry.2, cursor := entry.1.lastCursor, body := body } := by
  induction entries with
  | nil => cases hentry
  | cons first entries ih =>
      obtain ⟨hfirst, hnodup⟩ := List.nodup_cons.1 hnodup
      have hhead := lookup_outcomes (inlineBodies first.1.eventType first.1.bodies 0)
        (fun body => read { change := first.2, cursor := first.1.lastCursor, body := body })
        first.2 entry.2 field
      rw [List.flatMap_cons, List.map_append, List.lookup_append, List.map_map]
      refine (congrArg (Option.or · _) hhead).trans ?_
      rcases List.mem_cons.1 hentry with rfl | hrest
      · -- no other change has its place
        rw [if_pos rfl, Option.or_eq_left_of_none]
        refine List.lookup_eq_none_iff.2 fun outcome houtcome => ?_
        obtain ⟨request, hrequest, rfl⟩ := List.mem_map.1 houtcome
        obtain ⟨other, hother, hbody⟩ := List.mem_flatMap.1 hrequest
        obtain ⟨body, -, rfl⟩ := List.mem_map.1 hbody
        refine bne_iff_ne.2 fun heq => hfirst ?_
        rw [(Prod.mk.inj heq).1]
        exact List.mem_map_of_mem hother
      · have hne : entry.2 ≠ first.2 := fun heq => hfirst (heq ▸ List.mem_map_of_mem hrest)
        rw [if_neg hne, Option.none_or, ih hnodup hrest]

/-- A page is made of its changes one by one. -/
theorem materializePage_eq
    (hsegmented : stream.sessionId ∈ db.segmented)
    (changes : List StoredChange) :
    materializePage codec wire db stream identity changes =
      .ok (changes.map (materializeChange codec wire db stream identity)) := by
  have hread : readInlineBodies codec db stream (inlineBodyRequests changes) =
      .ok ((inlineBodyRequests changes).map fun request =>
        ((request.change, request.body.field),
          readInlineBody codec db stream request.cursor request.body)) := by
    unfold readInlineBodies
    split
    · rename_i hempty
      rw [List.isEmpty_iff.1 hempty]
      rfl
    · rw [ensure_bind, if_pos hsegmented]
      rfl
  have hnodup : (changes.zipIdx.map Prod.snd).Nodup := by
    rw [List.zipIdx_map_snd]
    exact List.nodup_range'
  unfold materializePage
  rw [hread, except_ok_bind]
  refine congrArg Except.ok ?_
  have hmap : changes.map (materializeChange codec wire db stream identity) =
      changes.zipIdx.map fun entry =>
        materializeChange codec wire db stream identity entry.1 := by
    conv_lhs => rw [← List.zipIdx_map_fst 0 changes, List.map_map]
    rfl
  rw [hmap]
  refine List.map_congr_left fun entry hentry => ?_
  unfold materializeChange inlineBodyRequests
  refine congrArg (fun text => materializeWith wire stream identity entry.1 text >>= sseEvent) ?_
  funext field
  exact lookup_page (fun request => readInlineBody codec db stream request.cursor request.body)
    field hnodup hentry

/-- The texts that are sent along, by field. -/
def textOf (bodies : List FieldBody) (texts : String → Text) (field : String) :
    Option (Except String String) :=
  if field ∈ bodies.map FieldBody.field then
    some (.ok (String.ofList (texts field)))
  else
    none

variable (codec pf wire db stream identity) in
/-- The event of a row: its change with the texts that its ranges hold. -/
def EventOf (entry : Nat × ChangeRow) (event : SseEvent) : Prop :=
  ∃ change texts, Decodes pf db entry change ∧
    (∀ body ∈ inlineBodies change.eventType change.bodies 0,
      HoldsText codec db body.range (texts body.field)) ∧
    (materializeWith wire stream identity change
      (textOf (inlineBodies change.eventType change.bodies 0) texts) >>= sseEvent) = .ok event

/-- A fragment takes all of its bodies along, another event only short ones. -/
theorem mem_inlineBodies
    {eventType : String}
    {bodies : List FieldBody}
    {inlineBytes : Nat}
    {body : FieldBody}
    (h : body ∈ inlineBodies eventType bodies inlineBytes) :
    body ∈ bodies ∧ (eventType ∈ deltaKinds ∨ body.range.length ≤ inlineFieldBytes) := by
  induction bodies generalizing inlineBytes with
  | nil => cases h
  | cons first bodies ih =>
      unfold inlineBodies at h
      dsimp only at h
      generalize hsize : (if 0 ≤ first.range.length then first.range.length.toNat
        else 2 ^ 64 - 1) = size at h
      split at h
      · exact (ih h).imp_left (List.mem_cons_of_mem first)
      · rename_i htake
        rcases List.mem_cons.1 h with rfl | hrest
        · refine ⟨List.mem_cons_self, ?_⟩
          by_cases hfragment : eventType ∈ deltaKinds
          · exact Or.inl hfragment
          · rw [not_and, not_or] at htake
            have hshort := (htake hfragment).1
            refine Or.inr ?_
            unfold inlineFieldBytes at hshort ⊢
            split at hsize <;> omega
        · exact (ih hrest).imp_left (List.mem_cons_of_mem first)

theorem inlineBodies_of_fragment
    {eventType : String}
    (h : eventType ∈ deltaKinds)
    (bodies : List FieldBody)
    (inlineBytes : Nat) :
    inlineBodies eventType bodies inlineBytes = bodies := by
  induction bodies generalizing inlineBytes with
  | nil => rfl
  | cons body bodies ih =>
      unfold inlineBodies
      dsimp only
      rw [if_neg (not_and_of_not_left _ (not_not_intro h)), ih]

/-- An event is stamped after its bodies are placed. -/
theorem materializeWith_eq_ok
    {change : StoredChange}
    {text : String → Option (Except String String)}
    {value : Json}
    (h : materializeWith wire stream identity change text = .ok value) :
    ∃ event placed stored,
      placeBodies wire stream identity change.lastCursor text change.bodies event = .ok placed ∧
      setData placed "content_format" (.num (.posInt 2)) = .ok stored ∧
      value = stampEvent stream change stored := by
  unfold materializeWith at h
  obtain ⟨_, -, h⟩ := bind_eq_ok.1 h
  dsimp only at h
  split at h
  all_goals
    obtain ⟨event, -, h⟩ := bind_eq_ok.1 h
    obtain ⟨placed, hplaced, h⟩ := bind_eq_ok.1 h
    obtain ⟨stored, hstored, h⟩ := bind_eq_ok.1 h
    exact ⟨event, placed, stored, hplaced, hstored, (Except.ok.inj h).symm⟩

/-- Every text that is put into an event has been read. -/
theorem read_of_placeBodies
    {cursor : Int}
    {text : String → Option (Except String String)}
    {bodies : List FieldBody}
    {event result : Json}
    (h : placeBodies wire stream identity cursor text bodies event = .ok result)
    {body : FieldBody}
    (hbody : body ∈ bodies)
    {outcome : Except String String}
    (htext : text body.field = some outcome) :
    ∃ value, outcome = .ok value := by
  induction bodies generalizing event with
  | nil => cases hbody
  | cons first bodies ih =>
      obtain ⟨placed, hplaced, h⟩ := bind_eq_ok.1 h
      rcases List.mem_cons.1 hbody with rfl | hrest
      · unfold placeBody at hplaced
        rw [htext] at hplaced
        obtain ⟨_, hread, -⟩ := bind_eq_ok.1 hplaced
        obtain ⟨value, hvalue, -⟩ := bind_eq_ok.1 hread
        exact ⟨value, hvalue⟩
      · exact ih h hrest

section Stored

variable {streamId : Nat}
variable {row : StreamRow}

/-- Where the texts that are sent along fit one read, the event is made of them. -/
theorem materializeChange_of_fits
    (hcodec : codec.Lossless)
    (h : StoredStream db stream streamId row)
    {entry : Nat × ChangeRow}
    (hentry : entry ∈ streamEntries db streamId)
    (hfits : entry.2.eventType ∈ deltaKinds →
      ∀ range ∈ entry.2.ranges, range.length ≤ readBytes)
    {event : SseEvent}
    (hevent : EventOf codec pf wire db stream identity entry event) :
    ∃ change, Decodes pf db entry change ∧
      materializeChange codec wire db stream identity change = .ok event := by
  obtain ⟨change, texts, hdecode, htexts, hmaterialize⟩ := hevent
  refine ⟨change, hdecode, ?_⟩
  obtain ⟨-, hkind, -, hranges, -⟩ :=
    hdecode.spec (h.joined fun e he => List.mem_singleton.1 he ▸ hentry)
  have hread : ∀ body ∈ inlineBodies change.eventType change.bodies 0,
      readInlineBody codec db stream change.lastCursor body =
        .ok (String.ofList (texts body.field)) := by
    intro body hbody
    obtain ⟨hmem, hshort⟩ := mem_inlineBodies hbody
    refine readInlineBody_of_fits hcodec h hentry hdecode hmem (htexts body hbody) ?_
    rcases hshort with hfragment | hshort
    · rw [hkind] at hfragment
      refine hfits hfragment body.range ?_
      rw [← hranges]
      exact List.mem_map_of_mem hmem
    · unfold inlineFieldBytes at hshort
      unfold readBytes
      omega
  unfold materializeChange
  rw [← hmaterialize]
  refine congrArg (fun text => materializeWith wire stream identity change text >>= sseEvent) ?_
  funext field
  unfold textOf
  cases hfound : (inlineBodies change.eventType change.bodies 0).find? fun body =>
      body.field = field with
  | none =>
      rw [if_neg, Option.map_none]
      intro hmem
      obtain ⟨body, hbody, hfield⟩ := List.mem_map.1 hmem
      exact List.find?_eq_none.1 hfound body hbody (decide_eq_true hfield)
  | some body =>
      have hbody := List.mem_of_find?_eq_some hfound
      obtain rfl : body.field = field := by simpa using List.find?_some hfound
      rw [if_pos (List.mem_map_of_mem hbody), Option.map_some, hread body hbody]

/-- An event has been made only if the texts that are sent along fit one read. -/
theorem fits_of_materializeChange
    (h : StoredStream db stream streamId row)
    {entry : Nat × ChangeRow}
    (hentry : entry ∈ streamEntries db streamId)
    {change : StoredChange}
    (hdecode : Decodes pf db entry change)
    {event : SseEvent}
    (hevent : materializeChange codec wire db stream identity change = .ok event)
    (hfragment : entry.2.eventType ∈ deltaKinds) :
    ∀ range ∈ entry.2.ranges, range.length ≤ readBytes := by
  obtain ⟨-, hkind, -, hranges, -⟩ :=
    hdecode.spec (h.joined fun e he => List.mem_singleton.1 he ▸ hentry)
  rw [← hranges]
  intro range hrange
  obtain ⟨body, hbody, rfl⟩ := List.mem_map.1 hrange
  unfold materializeChange at hevent
  rw [inlineBodies_of_fragment (hkind ▸ hfragment)] at hevent
  obtain ⟨value, hvalue, -⟩ := bind_eq_ok.1 hevent
  obtain ⟨_, _, _, hplaced, -⟩ := materializeWith_eq_ok hvalue
  have hsome : (change.bodies.find? fun other => other.field = body.field).isSome := by
    rw [List.find?_isSome]
    exact ⟨body, hbody, decide_eq_true rfl⟩
  obtain ⟨first, hfirst⟩ := Option.isSome_iff_exists.1 hsome
  obtain ⟨text, htext⟩ := read_of_placeBodies hplaced hbody (by rw [hfirst]; rfl)
  -- the first body of a field is the one the tables name
  have hsame : first.range = body.range := by
    have hcurrent := h.currentRange hentry hdecode (List.mem_of_find?_eq_some hfirst)
    have hfield : first.field = body.field := by simpa using List.find?_some hfirst
    rw [hfield, h.currentRange hentry hdecode hbody] at hcurrent
    exact (Option.some.inj hcurrent).symm
  rw [← hsame]
  exact fits_of_readInlineBody htext

end Stored

/-! ## The cursor of an event -/

/-- Where an event lies in its stream. -/
def eventCursor (stream : StreamIdentity) (event : SseEvent) : Int :=
  if isScoped stream = true then event.sessionIdx else event.idx

theorem requiredField_eq_ok
    {α : Type}
    {v : Json}
    {key : String}
    {read : Json → Option α}
    {a : α}
    (h : requiredField v key read = .ok a) :
    ∃ value, v.get? key = some value ∧ read value = some a := by
  obtain ⟨value, hvalue, h⟩ := bind_eq_ok.1 h
  exact ⟨value, context_eq_ok.1 hvalue, context_eq_ok.1 h⟩

/-- What the cursors of a stamped event are. -/
theorem get?_stampEvent
    {change : StoredChange}
    {event found : Json}
    (h : (stampEvent stream change event).get? "idx" = some found) :
    found = .ofInt (if isScoped stream then -1 else change.lastCursor) ∧
      (stampEvent stream change event).get? "session_idx" =
        some (.ofInt (if isScoped stream then change.lastCursor else -1)) := by
  obtain ⟨before, hkeep⟩ : ∃ before : Json, ∀ key, key ≠ "data" → key ≠ "event_id" →
      key ≠ "event_type" → (stampEvent stream change event).get? key =
        ((before.set "idx" (.ofInt (if isScoped stream then -1 else change.lastCursor))).set
          "session_idx" (.ofInt (if isScoped stream then change.lastCursor else -1))).get?
            key := by
    refine ⟨((event.set "session_id" (.str stream.sessionId)).set "run_id"
      (.str stream.runId)).set "epoch" (.ofInt (if isScoped stream then 0 else stream.epoch)),
      fun key hdata hid htype => ?_⟩
    unfold stampEvent
    dsimp only
    rw [Json.get?_set_of_ne hdata, Json.get?_ite_set hid, Json.get?_set_of_ne htype]
  rw [hkeep "idx" (by decide) (by decide) (by decide)] at h
  rw [hkeep "session_idx" (by decide) (by decide) (by decide)]
  have hsession := Json.get?_set_self (Option.isSome_of_eq_some h)
  rw [Json.get?_set_of_ne (by decide)] at h
  have hidx := Json.get?_set_self (Option.isSome_of_eq_some h)
  exact ⟨Option.some.inj (h.symm.trans hidx), hsession⟩

/-- An event lies at the last cursor of its change. -/
theorem EventOf.cursor
    {entry : Nat × ChangeRow}
    {event : SseEvent}
    (hevent : EventOf codec pf wire db stream identity entry event) :
    eventCursor stream event = entry.2.lastCursor := by
  obtain ⟨change, texts, hdecode, -, hmaterialize⟩ := hevent
  obtain ⟨value, hvalue, hsse⟩ := bind_eq_ok.1 hmaterialize
  obtain ⟨_, _, stored, -, -, rfl⟩ := materializeWith_eq_ok hvalue
  obtain ⟨_, -, hsse⟩ := bind_eq_ok.1 hsse
  obtain ⟨_, -, hsse⟩ := bind_eq_ok.1 hsse
  obtain ⟨_, -, hsse⟩ := bind_eq_ok.1 hsse
  obtain ⟨_, -, hsse⟩ := bind_eq_ok.1 hsse
  obtain ⟨idx, hidx, hsse⟩ := bind_eq_ok.1 hsse
  obtain ⟨_, -, hsse⟩ := bind_eq_ok.1 hsse
  obtain ⟨_, -, hsse⟩ := bind_eq_ok.1 hsse
  obtain ⟨_, -, hsse⟩ := bind_eq_ok.1 hsse
  obtain ⟨sessionIdx, hsession, hsse⟩ := bind_eq_ok.1 hsse
  obtain ⟨_, -, hsse⟩ := bind_eq_ok.1 hsse
  cases hsse
  obtain ⟨found, hfound, hread⟩ := requiredField_eq_ok hidx
  obtain ⟨rfl, hstamped⟩ := get?_stampEvent hfound
  unfold optionalField at hsession
  rw [hstamped] at hsession
  have hsession := Json.eq_ofInt_of_asI64? (context_eq_ok.1 hsession)
  have hread := Json.eq_ofInt_of_asI64? hread
  unfold eventCursor
  dsimp only
  rw [← hdecode.lastCursor]
  split
  · rename_i hscoped
    rw [if_pos hscoped] at hsession
    exact (Json.ofInt_injective hsession).symm
  · rename_i hscoped
    rw [if_neg hscoped] at hread
    exact (Json.ofInt_injective hread).symm

/-! ## What makes an event -/

theorem requiredField_ok
    {α : Type}
    {v value : Json}
    {key : String}
    {read : Json → Option α}
    (h : v.get? key = some value)
    (hread : (read value).isSome) :
    ∃ a, requiredField v key read = .ok a := by
  obtain ⟨a, ha⟩ := Option.isSome_iff_exists.1 hread
  exact ⟨a, by rw [requiredField, h, context_some, except_ok_bind, ha, context_some]⟩

theorem optionalField_ok
    {α : Type}
    {v : Json}
    {key : String}
    {read : Json → Option α}
    (h : ∀ value ∈ v.get? key, (read value).isSome)
    (missing : α) :
    ∃ a, optionalField v key read missing = .ok a := by
  unfold optionalField
  cases hvalue : v.get? key with
  | none => exact ⟨missing, rfl⟩
  | some value =>
      obtain ⟨a, ha⟩ := Option.isSome_iff_exists.1 (h value hvalue)
      exact ⟨a, by dsimp only; rw [ha]; rfl⟩

/-- A stamped object is an event, if the fields that it brings along are of their types. -/
theorem sseEvent_stampEvent
    {change : StoredChange}
    {fields : List (String × Json)}
    (hepoch : stream.epoch < 2 ^ 63)
    (hcursor : change.lastCursor < 2 ^ 63)
    (hid : ∀ value ∈ Fields.lookup "event_id" fields, value.asStr?.isSome)
    (htimestamp : ∀ value ∈ Fields.lookup "timestamp" fields, value.asStr?.isSome)
    (hsequence : ∀ value ∈ Fields.lookup "run_sequence" fields, value.asI64?.isSome) :
    ∃ event, sseEvent (stampEvent stream change (.obj fields)) = .ok event := by
  obtain ⟨v, hv⟩ : ∃ v, stampEvent stream change (.obj fields) = v := ⟨_, rfl⟩
  have hget : ∀ key, v.get? key =
      if key = "data" then some (.str (String.ofList ((Json.obj fields).index "data").compact))
      else if key = "event_id" then
        some ((Fields.lookup "event_id" fields).getD
          (.str (defaultEventId stream change.lastCursor)))
      else if key = "event_type" then some (.str change.eventType)
      else if key = "session_idx" then
        some (.ofInt (if isScoped stream then change.lastCursor else -1))
      else if key = "idx" then
        some (.ofInt (if isScoped stream then -1 else change.lastCursor))
      else if key = "epoch" then some (.ofInt (if isScoped stream then 0 else stream.epoch))
      else if key = "run_id" then some (.str stream.runId)
      else if key = "session_id" then some (.str stream.sessionId)
      else Fields.lookup key fields := by
    intro key
    rw [← hv]
    unfold stampEvent
    cases hvalue : Fields.lookup "event_id" fields with
    | none => simp [Json.set, Json.get?, Json.asObject?, Json.index, Fields.lookup_insert, hvalue]
    | some value =>
        by_cases hkey : key = "event_id"
        · simp [Json.set, Json.get?, Json.asObject?, Json.index, Fields.lookup_insert, hvalue, hkey]
        · simp [Json.set, Json.get?, Json.asObject?, Json.index, Fields.lookup_insert, hvalue, hkey]
  have hfit : ∀ n : Int, n < 2 ^ 63 → ∀ m : Int, m < 2 ^ 63 →
      (Json.ofInt (if isScoped stream then n else m)).asI64?.isSome := by
    intro n hn m hm
    split
    · rw [Json.asI64?_ofInt hn]
      rfl
    · rw [Json.asI64?_ofInt hm]
      rfl
  rw [hv]
  obtain ⟨_, htype⟩ := @requiredField_ok String v _ "event_type" Json.asStr? (hget _) rfl
  obtain ⟨_, hdata⟩ := @requiredField_ok String v _ "data" Json.asStr? (hget _) rfl
  obtain ⟨_, hrun⟩ := @requiredField_ok String v _ "run_id" Json.asStr? (hget _) rfl
  obtain ⟨_, hepochs⟩ := @requiredField_ok Int v _ "epoch" Json.asI64? (hget _)
    (hfit 0 (by decide) _ hepoch)
  obtain ⟨_, hidx⟩ := @requiredField_ok Int v _ "idx" Json.asI64? (hget _)
    (hfit (-1) (by decide) _ hcursor)
  obtain ⟨_, hsession⟩ := @optionalField_ok String v "session_id" Json.asStr? (by
    rw [hget]
    rintro _ ⟨⟩
    rfl) ""
  obtain ⟨_, heventId⟩ := @optionalField_ok String v "event_id" Json.asStr? (by
    rw [hget]
    rintro _ ⟨⟩
    cases hvalue : Fields.lookup "event_id" fields with
    | none => rfl
    | some value => exact hid value hvalue) ""
  obtain ⟨_, htime⟩ := @optionalField_ok String v "timestamp" Json.asStr? (by
    rw [hget]
    exact htimestamp) ""
  obtain ⟨_, hsessionIdx⟩ := @optionalField_ok Int v "session_idx" Json.asI64? (by
    rw [hget]
    rintro _ ⟨⟩
    exact hfit _ hcursor (-1) (by decide)) (-1)
  obtain ⟨_, hseq⟩ := @optionalField_ok Int v "run_sequence" Json.asI64? (by
    rw [hget]
    exact hsequence) (-1)
  unfold sseEvent
  simp only [htype, hdata, hrun, hepochs, hidx, hsession, heventId, htime, hsessionIdx, hseq,
    except_ok_bind]
  exact ⟨_, rfl⟩

end Events

end Content
end FutureOs
