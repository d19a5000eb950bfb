import FutureOs.Content.CompactPublish
import FutureOs.Content.Replay
import FutureOs.Lib.CursorPages

/-!
# Pages of changes

A page of changes decodes to what its changes decode to alone (`decode_page`), as long as
what is read for it stays within one read (`pageBytes`).  `readEncodedChanges` selects some
of the changes after a cursor, from the front and at least one if there are any
(`takeRows_spec`).
-/

namespace FutureOs
namespace Content

/-! ## Reading several rows -/

section Decoding

variable {pf : Platform}
variable {db : Database}

/-- A lookup in a list that is made from its keys. -/
theorem lookup_filterMap_eq
    {α β : Type}
    {keys : List Nat}
    {key : Nat}
    (hmem : key ∈ keys)
    (f : Nat → Option α)
    (g : α → β) :
    Fields.lookup key (keys.filterMap fun k => (f k).map fun v => (k, g v)) =
      (f key).map g := by
  cases hvalue : f key with
  | some value => exact Fields.lookup_filterMap hmem hvalue g
  | none =>
      refine Fields.lookup_eq_none_of_forall_ne fun entry hentry => ?_
      obtain ⟨k, -, hk⟩ := List.mem_filterMap.1 hentry
      obtain ⟨v, hv, rfl⟩ := Option.map_eq_some_iff.1 hk
      rintro rfl
      rw [hvalue] at hv
      cases hv

/-- Only the entries that are referred to matter. -/
theorem restoreFields_congr
    {streamId : Nat}
    {symbols symbols' : List (Nat × Nat × String)}
    {references : List (String × Json)}
    (h : ∀ reference ∈ references, ∀ id ∈ referenceId reference.2,
      Fields.lookup id symbols = Fields.lookup id symbols')
    (stable : List (String × Json)) :
    restoreFields streamId symbols references stable =
      restoreFields streamId symbols' references stable := by
  induction references generalizing stable with
  | nil => rfl
  | cons reference references ih =>
      obtain ⟨field, id⟩ := reference
      obtain ⟨hhead, hrest⟩ := List.forall_mem_cons.1 h
      unfold restoreFields
      cases hid : referenceId id with
      | none => rfl
      | some n =>
          rw [context_some, except_ok_bind, except_ok_bind, hhead n hid]
          simp only [ih hrest]

/-- What is read for the descriptor of a context. -/
theorem restore_page
    {contexts : List (Nat × Nat × Json)}
    {entry : Nat × Nat × Json}
    (hmem : entry ∈ contexts)
    {kind : Nat}
    (hkind : eventKindOf entry.2.2 = some kind) :
    restore entry.2.1 (readSymbols pf db contexts) entry.2.2 =
      restore entry.2.1 (readSymbols pf db [entry]) entry.2.2 := by
  obtain ⟨id, streamId, descriptor⟩ := entry
  dsimp only at hkind ⊢
  unfold eventKindOf at hkind
  split at hkind
  · rename_i stable field encoding references last
    have hrestore : ∀ symbols, restore streamId symbols
        (.arr [stable, field, encoding, references, last]) =
        (do
          let references ← context references.asObject? "missing context symbol map"
          let fields ← context stable.asObject? "invalid stream context"
          let fields ← restoreFields streamId symbols references fields
          pure (.obj fields, field, encoding)) := fun _ => rfl
    rw [hrestore, hrestore]
    cases references with
    | obj symbols =>
        have hlookup : ∀ contexts' : List (Nat × Nat × Json),
            (id, streamId, .arr [stable, field, encoding, .obj symbols, last]) ∈ contexts' →
            ∀ reference ∈ symbols, ∀ n ∈ referenceId reference.2,
              Fields.lookup n (readSymbols pf db contexts') =
                (db.symbols.lookup n).map fun row => (row.streamId, row.value.wire pf) := by
          intro contexts' hin reference href n hn
          refine lookup_filterMap_eq ?_ _ _
          rw [List.mem_dedup, List.mem_flatMap]
          exact ⟨_, hin, List.mem_filterMap.2 ⟨reference, href, hn⟩⟩
        have hcongr : ∀ fields, restoreFields streamId (readSymbols pf db contexts) symbols fields =
            restoreFields streamId (readSymbols pf db
              [(id, streamId, .arr [stable, field, encoding, .obj symbols, last])]) symbols
              fields :=
          restoreFields_congr fun reference href n hn => by
            rw [hlookup _ hmem reference href n hn,
              hlookup _ List.mem_cons_self reference href n hn]
        simp only [Json.asObject?, context_some, except_ok_bind, hcongr]
    | _ => rfl
  · cases hkind

/-! ## What a page reads -/

variable (pf db) in
/-- The contexts of some changes, each once. -/
def pageContexts (entries : List (Nat × ChangeRow)) : List (Nat × Nat × Json) :=
  (entries.map fun entry => entry.2.contextId).dedup.filterMap fun id =>
    (db.contexts.lookup id).map fun context => (id, context.streamId, context.descriptor)

variable (pf db) in
/-- What is read for a page: metadata, contexts, links and symbols. -/
def pageBytes (entries : List (Nat × ChangeRow)) : Nat :=
  (entries.map fun entry => entry.2.metadata.compactLen).sum +
    ((pageContexts db entries).map fun context => context.2.2.compactLen).sum +
    (entries.map fun entry => linksBytes (linkBodies entry.2.links)).sum +
    ((readSymbols pf db (pageContexts db entries)).map fun symbol => strLen symbol.2.2).sum

def encodedOf (entry : Nat × ChangeRow) : EncodedRow where
  id := entry.1
  context := entry.2.contextId
  first := entry.2.firstCursor
  last := entry.2.lastCursor
  kind := entry.2.eventType
  flags := entry.2.flags
  metadata := entry.2.metadata
  direct := entry.2.direct

variable (pf db) in
def encodedPage (entries : List (Nat × ChangeRow)) : EncodedPage where
  rows := entries.map encodedOf
  contexts := pageContexts db entries
  symbols := readSymbols pf db (pageContexts db entries)
  links := entries.map fun entry => (entry.1, linkBodies entry.2.links)

/-- Rows of the table, each with its context. -/
structure Joined (db : Database) (entries : List (Nat × ChangeRow)) : Prop where
  stored : ∀ entry ∈ entries, db.changes.lookup entry.1 = some entry.2
  context : ∀ entry ∈ entries, (contextOf db entry.2).isSome

theorem Joined.tail
    {entry : Nat × ChangeRow}
    {entries : List (Nat × ChangeRow)}
    (h : Joined db (entry :: entries)) :
    Joined db entries :=
  ⟨fun e he => h.stored e (List.mem_cons_of_mem _ he),
    fun e he => h.context e (List.mem_cons_of_mem _ he)⟩

theorem encodedRows_eq
    {entries : List (Nat × ChangeRow)}
    (h : Joined db entries) :
    encodedRows db entries = .ok (entries.map encodedOf) := by
  induction entries with
  | nil => rfl
  | cons entry entries ih =>
      obtain ⟨id, row⟩ := entry
      have hjoined : ((db.contexts.lookup row.contextId).filter fun context =>
          context.streamId = row.streamId ∧
            eventKindOf context.descriptor = some row.eventKind).isSome = true :=
        h.context (id, row) List.mem_cons_self
      rw [encodedRows, encodedRow, ensure_bind, if_pos hjoined, ih h.tail]
      rfl

theorem chargeAll_eq_ok_iff
    (message : String)
    {sizes : List Nat}
    {bytes total : Nat}
    (hbytes : bytes ≤ readBytes) :
    chargeAll message sizes bytes = .ok total ↔
      total = bytes + sizes.sum ∧ total ≤ readBytes := by
  induction sizes generalizing bytes with
  | nil =>
      constructor
      · rintro ⟨⟩
        exact ⟨rfl, hbytes⟩
      · rintro ⟨rfl, -⟩
        rfl
  | cons n sizes ih =>
      rw [chargeAll, ensure_bind, List.sum_cons]
      split
      · rename_i hfits
        rw [ih hfits, Nat.add_assoc]
      · rename_i hover
        exact iff_of_false (fun h => by cases h) fun h => by omega

/-- A page reads within one read, or not at all. -/
theorem readEncoded_page
    {entries : List (Nat × ChangeRow)}
    (h : Joined db entries)
    (hlength : entries.length ≤ 257)
    (page : EncodedPage) :
    readEncoded pf db (entries.map Prod.fst) = .ok page ↔
      pageBytes pf db entries ≤ readBytes ∧ page = encodedPage pf db entries := by
  have hselected : (entries.map Prod.fst).filterMap (fun id =>
      (db.changes.lookup id).map fun row => (id, row)) = entries := by
    rw [List.filterMap_map, List.filterMap_congr (g := some)]
    · exact List.filterMap_some
    · intro entry hentry
      rw [Function.comp_apply, h.stored entry hentry]
      rfl
  have hmetadata : (entries.map encodedOf).map (fun row => row.metadata.compactLen) =
      entries.map fun entry => entry.2.metadata.compactLen := by
    rw [List.map_map]
    rfl
  have hlinks : ((entries.map fun entry => (entry.1, linkBodies entry.2.links)).flatMap
      fun entry => entry.2.map fun body => strLen body.field + 64).sum =
      (entries.map fun entry => linksBytes (linkBodies entry.2.links)).sum := by
    rw [List.flatMap_def, List.sum_flatten, List.map_map, List.map_map]
    rfl
  unfold readEncoded
  dsimp only
  rw [ensure_bind, if_pos (by rwa [List.length_map]), hselected, encodedRows_eq h,
    except_ok_bind, hmetadata]
  constructor
  · intro hread
    obtain ⟨bytes, hbytes, hread⟩ := bind_eq_ok.1 hread
    obtain ⟨rfl, hfits⟩ := (chargeAll_eq_ok_iff _ (Nat.zero_le _)).1 hbytes
    obtain ⟨bytes, hbytes, hread⟩ := bind_eq_ok.1 hread
    obtain ⟨rfl, hfits⟩ := (chargeAll_eq_ok_iff _ hfits).1 hbytes
    obtain ⟨bytes, hbytes, hread⟩ := bind_eq_ok.1 hread
    obtain ⟨rfl, hfits⟩ := (chargeAll_eq_ok_iff _ hfits).1 hbytes
    obtain ⟨bytes, hbytes, hread⟩ := bind_eq_ok.1 hread
    obtain ⟨rfl, hfits⟩ := (chargeAll_eq_ok_iff _ hfits).1 hbytes
    cases hread
    refine ⟨?_, rfl⟩
    rw [hlinks, Nat.zero_add] at hfits
    exact hfits
  · rintro ⟨hfits, rfl⟩
    unfold pageBytes pageContexts at hfits
    rw [← hlinks] at hfits
    rw [chargeAll_ok _ (by omega), except_ok_bind, chargeAll_ok _ (by omega), except_ok_bind,
      chargeAll_ok _ (by omega), except_ok_bind, chargeAll_ok _ (by omega), except_ok_bind]
    rfl

/-! ## What a page decodes to -/

theorem lookup_parseContexts
    {symbols : List (Nat × Nat × String)}
    {contexts : List (Nat × Nat × Json)}
    {parsed : List (Nat × Json × Json × Json)}
    (h : parseContexts symbols contexts = .ok parsed)
    (id : Nat) :
    Fields.lookup id parsed = (Fields.lookup id contexts).bind fun context =>
      (restore context.1 symbols context.2).toOption := by
  induction contexts generalizing parsed with
  | nil =>
      cases h
      rfl
  | cons context contexts ih =>
      obtain ⟨key, streamId, raw⟩ := context
      obtain ⟨descriptor, hdescriptor, h⟩ := bind_eq_ok.1 h
      obtain ⟨rest, hrest, h⟩ := bind_eq_ok.1 h
      cases h
      rw [Fields.lookup_cons, Fields.lookup_cons]
      split
      · rw [Option.bind_some, hdescriptor]
        rfl
      · exact ih hrest

theorem parseContexts_ok
    {symbols : List (Nat × Nat × String)}
    {contexts : List (Nat × Nat × Json)}
    (h : ∀ context ∈ contexts, ∃ parsed, restore context.2.1 symbols context.2.2 = .ok parsed) :
    ∃ parsed, parseContexts symbols contexts = .ok parsed := by
  induction contexts with
  | nil => exact ⟨[], rfl⟩
  | cons context contexts ih =>
      obtain ⟨⟨descriptor, hdescriptor⟩, hrest⟩ := List.forall_mem_cons.1 h
      obtain ⟨rest, hrest⟩ := ih hrest
      refine ⟨(context.1, descriptor) :: rest, ?_⟩
      rw [parseContexts, hdescriptor, except_ok_bind, hrest]
      rfl

theorem decodeRowOf_congr
    {parsed parsed' : List (Nat × Json × Json × Json)}
    {links links' : List (Nat × List FieldBody)}
    {row : EncodedRow}
    (hparsed : Fields.lookup row.context parsed = Fields.lookup row.context parsed')
    (hlinks : (Fields.lookup row.id links).getD [] = (Fields.lookup row.id links').getD []) :
    decodeRowOf parsed links row = decodeRowOf parsed' links' row := by
  unfold decodeRowOf
  rw [hparsed, hlinks]

theorem decodeRows_eq_ok_iff
    {parsed : List (Nat × Json × Json × Json)}
    {links : List (Nat × List FieldBody)}
    {rows : List EncodedRow}
    {changes : List StoredChange} :
    decodeRows parsed links rows = .ok changes ↔
      List.Forall₂ (fun row change => decodeRowOf parsed links row = .ok change) rows
        changes := by
  induction rows generalizing changes with
  | nil =>
      rw [List.forall₂_nil_left_iff]
      exact ⟨fun h => by cases h; rfl, fun h => by rw [h]; rfl⟩
  | cons row rows ih =>
      rw [List.forall₂_cons_left_iff, decodeRows]
      constructor
      · intro h
        obtain ⟨change, hchange, h⟩ := bind_eq_ok.1 h
        obtain ⟨rest, hrest, h⟩ := bind_eq_ok.1 h
        cases h
        exact ⟨change, rest, hchange, ih.1 hrest, rfl⟩
      · rintro ⟨change, rest, hchange, hrest, rfl⟩
        rw [hchange, except_ok_bind, ih.2 hrest]
        rfl

/-- The links of a row in the links of its page. -/
theorem lookup_links
    {entries : List (Nat × ChangeRow)}
    (h : Joined db entries)
    {entry : Nat × ChangeRow}
    (hmem : entry ∈ entries) :
    Fields.lookup entry.1 (entries.map fun entry => (entry.1, linkBodies entry.2.links)) =
      some (linkBodies entry.2.links) := by
  induction entries with
  | nil => cases hmem
  | cons first entries ih =>
      rw [List.map_cons, Fields.lookup_cons]
      split
      · rename_i hid
        have hsame : some first.2 = some entry.2 :=
          (h.stored first List.mem_cons_self).symm.trans
            ((congrArg _ hid.symm).trans (h.stored entry hmem))
        rw [Option.some.inj hsame]
      · rename_i hid
        rcases List.mem_cons.1 hmem with rfl | hrest
        · exact absurd rfl hid
        · exact ih h.tail hrest

/-- The context of a row in the contexts of its page. -/
theorem lookup_pageContexts
    {entries : List (Nat × ChangeRow)}
    {entry : Nat × ChangeRow}
    (hmem : entry ∈ entries) :
    Fields.lookup entry.2.contextId (pageContexts db entries) =
      (db.contexts.lookup entry.2.contextId).map fun context =>
        (context.streamId, context.descriptor) := by
  refine lookup_filterMap_eq ?_ _ _
  rw [List.mem_dedup]
  exact List.mem_map_of_mem hmem

variable (pf db) in
/-- What a row is read as. -/
def Decodes (entry : Nat × ChangeRow) (change : StoredChange) : Prop :=
  (encodedPage pf db [entry]).decode = .ok [change]

/-- What it takes to read one change. -/
theorem Decodes.parts
    {entry : Nat × ChangeRow}
    (h : Joined db [entry])
    {change : StoredChange}
    (hdecode : Decodes pf db entry change) :
    ∃ context parsed, db.contexts.lookup entry.2.contextId = some context ∧
      context.streamId = entry.2.streamId ∧
      eventKindOf context.descriptor = some entry.2.eventKind ∧
      restore context.streamId
        (readSymbols pf db [(entry.2.contextId, context.streamId, context.descriptor)])
        context.descriptor = .ok parsed ∧
      decodeRowOf [(entry.2.contextId, parsed)] [(entry.1, linkBodies entry.2.links)]
        (encodedOf entry) = .ok change := by
  obtain ⟨context, hcontext⟩ := Option.isSome_iff_exists.1 (h.context entry List.mem_cons_self)
  obtain ⟨hlookup, hjoin⟩ := Option.filter_eq_some_iff.1 hcontext
  rw [decide_eq_true_eq] at hjoin
  have hcontexts : pageContexts db [entry] =
      [(entry.2.contextId, context.streamId, context.descriptor)] := by
    simp [pageContexts, hlookup]
  obtain ⟨parsed, hparsed, hrows⟩ := bind_eq_ok.1 hdecode
  unfold encodedPage at hparsed hrows
  dsimp only at hparsed hrows
  rw [hcontexts] at hparsed
  obtain ⟨descriptor, hdescriptor, hrest⟩ := bind_eq_ok.1 hparsed
  cases hrest
  refine ⟨context, descriptor, hlookup, hjoin.1, hjoin.2, hdescriptor, ?_⟩
  exact (List.forall₂_cons.1 (decodeRows_eq_ok_iff.1 hrows)).1

/-- A page decodes to what its changes decode to alone. -/
theorem decode_page
    {entries : List (Nat × ChangeRow)}
    (h : Joined db entries)
    {changes : List StoredChange}
    (hchanges : List.Forall₂ (Decodes pf db) entries changes) :
    (encodedPage pf db entries).decode = .ok changes := by
  have hsingle : ∀ entry ∈ entries, Joined db [entry] := fun entry hentry =>
    ⟨fun e he => h.stored e (List.mem_singleton.1 he ▸ hentry),
      fun e he => h.context e (List.mem_singleton.1 he ▸ hentry)⟩
  have hread : ∀ entry ∈ entries, ∃ change, Decodes pf db entry change := by
    intro entry hentry
    obtain ⟨i, hi, rfl⟩ := List.getElem_of_mem hentry
    exact ⟨_, hchanges.get hi (hchanges.length_eq ▸ hi)⟩
  have hrestore : ∀ entry ∈ entries, ∀ context,
      db.contexts.lookup entry.2.contextId = some context →
      restore context.streamId (readSymbols pf db (pageContexts db entries))
          context.descriptor =
        restore context.streamId
          (readSymbols pf db [(entry.2.contextId, context.streamId, context.descriptor)])
          context.descriptor := by
    intro entry hentry context hcontext
    obtain ⟨change, hchange⟩ := hread entry hentry
    obtain ⟨context', parsed, hcontext', -, hkind, -, -⟩ :=
      hchange.parts (hsingle entry hentry)
    rw [hcontext, Option.some.injEq] at hcontext'
    subst hcontext'
    refine @restore_page pf db _ (entry.2.contextId, context.streamId, context.descriptor) ?_ _
      hkind
    refine Fields.mem_of_lookup ?_
    rw [lookup_pageContexts hentry, hcontext]
    rfl
  obtain ⟨parsed, hparsed⟩ := @parseContexts_ok (readSymbols pf db
    (pageContexts db entries)) (pageContexts db entries) (by
      intro context hcontext
      obtain ⟨id, hid, hfound⟩ := List.mem_filterMap.1 hcontext
      obtain ⟨entry, hentry, rfl⟩ := List.mem_map.1 (List.mem_dedup.1 hid)
      obtain ⟨row, hrow, rfl⟩ := Option.map_eq_some_iff.1 hfound
      obtain ⟨change, hchange⟩ := hread entry hentry
      obtain ⟨row', parsed, hrow', -, -, hparsed, -⟩ := hchange.parts (hsingle entry hentry)
      rw [hrow, Option.some.injEq] at hrow'
      subst hrow'
      exact ⟨parsed, (hrestore entry hentry row hrow).trans hparsed⟩)
  unfold EncodedPage.decode encodedPage
  dsimp only
  rw [hparsed, except_ok_bind, decodeRows_eq_ok_iff, List.forall₂_map_left_iff]
  rw [List.forall₂_iff_zip] at hchanges ⊢
  refine ⟨hchanges.1, fun {entry change} hzip => ?_⟩
  have hentry := (List.of_mem_zip hzip).1
  obtain ⟨context, descriptor, hcontext, -, -, hdescriptor, hdecode⟩ :=
    (hchanges.2 hzip).parts (hsingle entry hentry)
  refine (decodeRowOf_congr ?_ ?_).trans hdecode
  · show Fields.lookup entry.2.contextId parsed = _
    rw [lookup_parseContexts hparsed, lookup_pageContexts hentry, hcontext, Option.map_some,
      Option.bind_some, hrestore entry hentry context hcontext, hdescriptor]
    simp [Fields.lookup_cons, Except.toOption, encodedOf]
  · show (Fields.lookup entry.1 _).getD [] = (Fields.lookup entry.1 _).getD []
    rw [lookup_links h hentry, Fields.lookup_cons, if_pos rfl]

end Decoding

/-! ## Which changes a page holds -/

section Selection

variable {db : Database}

/-- The bytes a change counts for. -/
def changeSize (db : Database) (entry : Nat × ChangeRow) : Nat :=
  (encodedSize db entry.2).getD 0

/-- Changes that a page may hold: one, or what fits the metadata budget. -/
def FitsPage (db : Database) (entries : List (Nat × ChangeRow)) : Prop :=
  entries.length ≤ 1 ∨ (entries.map (changeSize db)).sum ≤ changeMetadataBytes

/-- The rows of a page, from the front; and what stops it. -/
theorem takeRows_spec
    {limit : Nat}
    {rows : List (Nat × ChangeRow)}
    (hrows : ∀ entry ∈ rows, (contextOf db entry.2).isSome)
    {ids : List Nat}
    (hids : ids.length ≤ limit)
    (bytes : Nat) :
    ∃ taken later, rows = taken ++ later ∧
      takeRows db limit rows ids bytes = .ok (ids ++ taken.map Prod.fst, !later.isEmpty) ∧
      ids.length + taken.length ≤ limit ∧
      (taken = [] ∨ ids = [] ∧ taken.length = 1 ∨
        bytes + (taken.map (changeSize db)).sum ≤ changeMetadataBytes) ∧
      ∀ entry rest, later = entry :: rest → ids.length + taken.length = limit ∨
        ids ++ taken.map Prod.fst ≠ [] ∧
          changeMetadataBytes < bytes + (taken.map (changeSize db)).sum + changeSize db entry := by
  induction rows generalizing ids bytes with
  | nil =>
      refine ⟨[], [], rfl, ?_, by simpa using hids, Or.inl rfl, nofun⟩
      rw [List.map_nil, List.append_nil]
      rfl
  | cons first rows ih =>
      obtain ⟨id, row⟩ := first
      obtain ⟨hfirst, hrest⟩ := List.forall_mem_cons.1 hrows
      have hsize : encodedSize db row = some (changeSize db (id, row)) := by
        obtain ⟨context, hcontext⟩ := Option.isSome_iff_exists.1 hfirst
        simp only [changeSize, encodedSize] at hcontext ⊢
        rw [hcontext]
        rfl
      by_cases hstop : ids.length = limit ∨
          (ids ≠ [] ∧ changeMetadataBytes < bytes + changeSize db (id, row))
      · refine ⟨[], (id, row) :: rows, rfl, ?_, by simpa using hids, Or.inl rfl, ?_⟩
        · rw [takeRows, hsize, context_some, except_ok_bind, if_pos hstop, List.map_nil,
            List.append_nil]
          rfl
        · rintro _ _ ⟨⟩
          simpa using hstop
      · rw [not_or, not_and, Nat.not_lt] at hstop
        have hroom : (ids ++ [id]).length ≤ limit := by
          rw [List.length_append, List.length_singleton]
          omega
        obtain ⟨taken, later, rfl, htake, hlength, hfits, hwhy⟩ := ih hrest hroom
          (bytes + changeSize db (id, row))
        rw [List.length_append, List.length_singleton] at hlength hwhy
        refine ⟨(id, row) :: taken, later, rfl, ?_, ?_, Or.inr ?_, ?_⟩
        · rw [takeRows, hsize, context_some, except_ok_bind, if_neg (by
            rw [not_or, not_and, Nat.not_lt]
            exact hstop), htake, List.map_cons, List.append_assoc]
          rfl
        · rw [List.length_cons]
          omega
        · rw [List.length_cons, List.map_cons, List.sum_cons]
          rcases hfits with rfl | ⟨hnil, -⟩ | hfits
          · by_cases hfirst : ids = []
            · exact Or.inl ⟨hfirst, rfl⟩
            · exact Or.inr (by simpa using hstop.2 hfirst)
          · simp at hnil
          · exact Or.inr (by omega)
        · intro entry rest hlater
          rw [List.length_cons, List.map_cons, List.map_cons, List.sum_cons]
          rcases hwhy entry rest hlater with hlimit | ⟨-, hover⟩
          · exact Or.inl (by omega)
          · exact Or.inr ⟨by simp, by omega⟩

/-- The changes of one page: from the front, what fits; and what stops it. -/
structure Selects (db : Database) (limit : Nat) (taken later : List (Nat × ChangeRow)) :
    Prop where
  length_le : taken.length ≤ limit
  fits : FitsPage db taken
  progress : taken = [] → later = []
  full : ∀ entry rest, later = entry :: rest → taken.length = limit ∨
    changeMetadataBytes < (taken.map (changeSize db)).sum + changeSize db entry

/-- What `readEncodedChanges` selects, and reads. -/
theorem readEncodedChanges_spec
    {pf : Platform}
    {stream : StreamIdentity}
    {streamId : Nat}
    {row : StreamRow}
    (hlive : db.liveStream stream = some (streamId, row))
    {since : Int}
    (hcontexts : ∀ entry ∈ changesAfter db streamId since, (contextOf db entry.2).isSome)
    {limit : Nat}
    (hlimit : 1 ≤ limit)
    (hmax : limit ≤ 256) :
    ∃ taken later, changesAfter db streamId since = taken ++ later ∧
      Selects db limit taken later ∧
      readEncodedChanges pf db stream since limit =
        (readEncoded pf db (taken.map Prod.fst) >>= fun changes => pure {
          changes := changes
          durableCursor := row.durableCursor
          hasMore := !later.isEmpty }) := by
  generalize hall : changesAfter db streamId since = entries at hcontexts
  obtain ⟨taken, later, hsplit, htake, hlength, hfits, hwhy⟩ :=
    @takeRows_spec db limit (entries.take (limit + 1))
      (fun entry hentry => hcontexts entry (List.mem_of_mem_take hentry)) [] (Nat.zero_le _) 0
  rw [List.length_nil, Nat.zero_add] at hlength hwhy
  have hentries : entries = taken ++ (later ++ entries.drop (limit + 1)) := by
    rw [← List.append_assoc, ← hsplit, List.take_append_drop]
  -- without a row left over the page has come to the end
  have hend : later = [] → entries.drop (limit + 1) = [] := by
    rintro rfl
    rw [List.append_nil] at hsplit
    have hcut := congrArg List.length hsplit
    rw [List.length_take] at hcut
    exact List.drop_eq_nil_of_le (by omega)
  have hempty : (later ++ entries.drop (limit + 1)).isEmpty = later.isEmpty := by
    cases later with
    | nil => rw [hend rfl]; rfl
    | cons entry rest => rfl
  refine ⟨taken, later ++ entries.drop (limit + 1), hentries, ⟨hlength, ?_, ?_, ?_⟩, ?_⟩
  · rcases hfits with rfl | ⟨-, hone⟩ | hfits
    · exact Or.inl (Nat.zero_le _)
    · exact Or.inl hone.le
    · exact Or.inr (by omega)
  · rintro rfl
    cases later with
    | nil => rw [hend rfl]; rfl
    | cons entry rest =>
        rcases hwhy entry rest rfl with hfull | ⟨hne, -⟩
        · simp at hfull
          omega
        · simp at hne
  · intro entry rest hrest
    cases later with
    | nil =>
        rw [hend rfl] at hrest
        cases hrest
    | cons first others =>
        obtain ⟨rfl, -⟩ := List.cons.inj hrest
        exact (hwhy first others rfl).imp id fun h => by omega
  · rw [readEncodedChanges, ensure_bind, if_pos ⟨hlimit, hmax⟩, hlive]
    dsimp only
    rw [hall, htake, except_ok_bind, hempty]
    rfl

/-- A page of just as many changes as fit holds them. -/
theorem Selects.eq_of_fits
    {limit : Nat}
    {taken later block rest : List (Nat × ChangeRow)}
    (h : Selects db limit taken later)
    (hsplit : taken ++ later = block ++ rest)
    (hlength : block.length = limit)
    (hfits : FitsPage db block) :
    taken = block := by
  have hfront : taken <+: block :=
    List.prefix_of_prefix_length_le ⟨later, hsplit⟩ (List.prefix_append block rest)
      (h.length_le.trans_eq hlength.symm)
  obtain ⟨missing, rfl⟩ := hfront
  cases missing with
  | nil => rw [List.append_nil]
  | cons entry missing =>
      have hlater : later = entry :: (missing ++ rest) := by
        rw [List.append_assoc] at hsplit
        exact List.append_cancel_left hsplit
      exfalso
      rcases h.full entry _ hlater with hfull | hover
      · rw [List.length_append, List.length_cons] at hlength
        omega
      · rcases hfits with hone | hsum
        · -- the missing change is the only one, so the page is empty before its end
          rw [List.length_append, List.length_cons] at hone
          have hnil : taken = [] := List.eq_nil_of_length_eq_zero (by omega)
          rw [h.progress hnil] at hlater
          cases hlater
        · rw [List.map_append, List.sum_append, List.map_cons, List.sum_cons] at hsum
          omega

end Selection

end Content
end FutureOs
