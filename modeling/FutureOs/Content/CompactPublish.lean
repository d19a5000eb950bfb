import FutureOs.Content.Interning

/-!
# Publishing and reading back

A change that `publish` stores reads back as it was given, and its last cursor is
then taken by it: publishing it again is accepted and stores nothing, publishing
another one there is refused (`publish_round_trip`).
-/

namespace FutureOs
namespace Content

/-! ### Event kinds -/

theorem kindCode_le (kind : String) : kindCode kind ≤ 18 := by
  unfold kindCode
  split
  · rename_i i hi
    obtain ⟨hlt, -⟩ := List.idxOf?_eq_some_iff.1 hi
    have hlen : kinds.length = 18 := rfl
    omega
  · exact Nat.zero_le 18

/-- The generated column shows the kind that was written, known or not. -/
theorem eventType_kindCode
    {row : ChangeRow}
    {kind : String}
    (hcode : row.eventKind = kindCode kind)
    (hunknown : row.unknownKind = if kindCode kind = 0 then some kind else none) :
    row.eventType = kind := by
  unfold ChangeRow.eventType
  rw [hcode, hunknown]
  unfold kindCode
  cases hidx : kinds.idxOf? kind with
  | none =>
      rfl
  | some i =>
      obtain ⟨hlt, hkind, -⟩ := List.idxOf?_eq_some_iff.1 hidx
      show kinds.getD i "" = kind
      rw [List.getD_eq_getElem?_getD, List.getElem?_eq_getElem hlt, hkind]
      rfl

/-! ### The parts `encode` writes -/

theorem encode_eq (change : Change) (direct : Option FieldBody) :
    encode change direct =
      let split := splitStable change.metadata
      let rest := takeFlags change direct split.2
      (.arr [.obj split.1, optionalStr (direct.map FieldBody.field),
        optionalStr (direct.map fun body => body.encoding.name),
        .num (.posInt (kindCode change.eventType))], rest.1, rest.2) := rfl

theorem takeRangeFields_flags_lt
    {fields : List RangeField}
    (hfields : ∀ a ∈ fields, a.1 < 2 ^ 3)
    (data : List (String × Json))
    {flags : Nat}
    (hflags : flags < 2 ^ 3) :
    (takeRangeFields fields data flags).2 < 2 ^ 3 := by
  induction fields generalizing data flags with
  | nil =>
      exact hflags
  | cons a fields ih =>
      have hrest : ∀ b ∈ fields, b.1 < 2 ^ 3 :=
        fun b hb => hfields b (List.mem_cons_of_mem a hb)
      unfold takeRangeFields
      split
      · exact ih hrest _ (Nat.or_lt_two_pow hflags (hfields a List.mem_cons_self))
      · exact ih hrest _ hflags

theorem takeFlags_flags
    (change : Change)
    (direct : Option FieldBody)
    (remainder : Json) :
    (takeFlags change direct remainder).2 ≤ 7 ∧
      (direct = none → (takeFlags change direct remainder).2 = 0) := by
  cases direct with
  | none =>
      exact ⟨Nat.zero_le 7, fun _ => rfl⟩
  | some body =>
      refine ⟨?_, nofun⟩
      unfold takeFlags
      split
      · rename_i heq
        cases heq
        split
        · rename_i data _
          have hbits : ∀ a ∈ rangeFields body.range change.firstCursor, a.1 < 2 ^ 3 := by
            simp [rangeFields]
          exact Nat.le_of_lt_succ (takeRangeFields_flags_lt hbits data (by decide))
        · exact Nat.zero_le 7
      · exact Nat.zero_le 7

/-- The stable part is in key order, and so is its data. -/
theorem splitStable_sorted
    {object : List (String × Json)}
    (hordered : OrderedMetadata object) :
    Fields.Sorted (splitStable (.obj object)).1 ∧
      ∀ data, dataOf (splitStable (.obj object)).1 = some data → Fields.Sorted data := by
  have hsorted := hordered.sorted.moveFields Fields.sorted_nil ["run_sequence"]
  have hmoved := fun key => Fields.lookup_moveFields ["run_sequence"] object [] key
  have hnone : dataOf (Fields.moveFields ["run_sequence"] object []).2 = none := by
    unfold dataOf
    rw [(hmoved "data").2, if_neg (by decide)]
    rfl
  cases hdata : dataOf (Fields.moveFields ["run_sequence"] object []).1 with
  | none =>
      rw [splitStable_noData hdata]
      refine ⟨hsorted.2, fun data hstable => ?_⟩
      rw [hnone] at hstable
      cases hstable
  | some data =>
      have hobject : dataOf object = some data := by
        have hlook := dataOf_eq_some.1 hdata
        rw [(hmoved "data").1, if_neg (by decide)] at hlook
        exact dataOf_eq_some.2 hlook
      have hcontext :=
        ((hordered.sortedData data hobject).moveFields Fields.sorted_nil contextFields).2
      rw [splitStable_data hdata]
      dsimp only
      split
      · refine ⟨hsorted.2, fun data' hstable => ?_⟩
        rw [hnone] at hstable
        cases hstable
      · refine ⟨hsorted.2.insert _ _, fun data' hstable => ?_⟩
        rw [dataOf_insert] at hstable
        cases hstable
        exact hcontext

/-! ### Tables -/

/-- A row found by its content is the new one when none was found before. -/
theorem find?_insert_nextId
    {α : Type}
    {t : Table α}
    {p : α → Bool}
    (hnone : t.find? p = none)
    {row : α}
    (hrow : p row = true) :
    (t.insert t.nextId row).find? p = some (t.nextId, row) := by
  cases hfound : (t.insert t.nextId row).find? p with
  | none =>
      have hall := Table.find?_eq_none.1 hfound t.nextId row (Table.lookup_insert_self _ _ _)
      rw [hrow] at hall
      cases hall
  | some found =>
      obtain ⟨id, found⟩ := found
      obtain ⟨hlook, hp⟩ := Table.find?_eq_some hfound
      rw [Table.lookup_insert] at hlook
      split at hlook
      · rename_i heq
        cases hlook
        rw [show id = t.nextId from heq]
      · have hall := Table.find?_eq_none.1 hnone id found hlook
        rw [show p found = true from hp] at hall
        cases hall

/-- The context of a descriptor, reused or new. -/
theorem contextId_ok
    {pf : Platform}
    {db : Database}
    {streamId symbolBytes kind : Nat}
    {descriptor : Json}
    (hcollisions : (db.contexts.rows.filter fun row => row.2.streamId = streamId ∧
      pf.digest row.2.descriptor = pf.digest descriptor).length < 9)
    (hlen : descriptor.compactLen ≤ 16384)
    (hbytes : symbolBytes ≤ 16384)
    (hkind : eventKindOf descriptor = some kind)
    (hkindLe : kind ≤ 18)
    (hrefs : ∀ ref ∈ symbolRefs descriptor, ∃ id ∈ referenceId ref.2,
      ∃ symbol ∈ db.symbols.lookup id, symbol.streamId = streamId) :
    ∃ contexts id row,
      contextId pf db streamId descriptor symbolBytes =
        .ok ({ db with contexts := contexts }, id) ∧
      contexts.lookup id = some row ∧ row.streamId = streamId ∧
      row.descriptor = descriptor := by
  unfold contextId
  rw [List.take_of_length_le (by omega)]
  rw [ensure_bind, if_pos hcollisions]
  split
  · rename_i row hfound
    have hmem := List.mem_of_find?_eq_some hfound
    have hsame := List.find?_some hfound
    simp only [decide_eq_true_eq] at hsame
    obtain ⟨hmem, hscope⟩ := List.mem_filter.1 hmem
    simp only [decide_eq_true_eq] at hscope
    exact ⟨db.contexts, row.1, row.2, rfl, Table.mem_rows_iff.1 hmem, hscope.1, hsame⟩
  · unfold Database.insertContext
    rw [ensure_bind, if_pos ⟨hlen, hbytes, kind, hkind, hkindLe⟩, ensure_bind,
      if_pos hrefs]
    exact ⟨_, _, _, rfl, Table.lookup_insert_self _ _ _, rfl, rfl⟩

/-! ### Links -/

theorem linkBodies_insert
    {links : List (String × LinkRow)}
    {body : FieldBody}
    (hnew : Fields.lookup body.field links = none) :
    (linkBodies (Fields.insert body.field
        { encoding := body.encoding, range := body.range } links)).Perm
      (body :: linkBodies links) :=
  (Fields.insert_perm hnew _).map _

/-- All the links go in when their fields are distinct. -/
theorem insertLinks_ok
    {db : Database}
    {bodies : List FieldBody}
    (links : List (String × LinkRow))
    (hencodings : ∀ body ∈ bodies, body.encoding ≠ .toolArgumentsStringV1)
    (hranges : ∀ body ∈ bodies, db.AdmitsRange body.range)
    (hfields : (bodies.map FieldBody.field).Nodup)
    (hnew : ∀ body ∈ bodies, Fields.lookup body.field links = none)
    (hlinks : Fields.Sorted links) :
    ∃ out, db.insertLinks bodies links = .ok out ∧ Fields.Sorted out ∧
      (linkBodies out).Perm (bodies ++ linkBodies links) := by
  induction bodies generalizing links with
  | nil =>
      exact ⟨links, rfl, hlinks, List.Perm.refl _⟩
  | cons body bodies ih =>
      rw [List.map_cons, List.nodup_cons] at hfields
      have hbodyNew := hnew body List.mem_cons_self
      have hencoding : body.encoding ∈ [Encoding.text, Encoding.json, Encoding.shellSummary] := by
        have hne := hencodings body List.mem_cons_self
        cases hkind : body.encoding with
        | toolArgumentsStringV1 => exact absurd hkind hne
        | _ => simp
      obtain ⟨out, hrun, hsorted, hperm⟩ := ih
        (Fields.insert body.field
          { encoding := body.encoding, range := body.range } links)
        (fun b hb => hencodings b (List.mem_cons_of_mem body hb))
        (fun b hb => hranges b (List.mem_cons_of_mem body hb)) hfields.2
        (fun b hb => by
          rw [Fields.lookup_insert, if_neg]
          · exact hnew b (List.mem_cons_of_mem body hb)
          · exact fun heq => hfields.1 (heq ▸ List.mem_map_of_mem hb))
        (hlinks.insert _ _)
      refine ⟨out, ?_, hsorted, ?_⟩
      · rw [Database.insertLinks, Database.insertLink, ensure_bind, if_pos hencoding,
          ensure_bind, if_pos (hranges body List.mem_cons_self), ensure_bind,
          if_pos hbodyNew]
        exact hrun
      · have hback := (linkBodies_insert hbodyNew).append_left bodies
        exact hperm.trans (hback.trans List.perm_middle)

/-! ### A page of one change -/

theorem chargeAll_ok
    (message : String)
    {sizes : List Nat}
    {bytes : Nat}
    (h : bytes + sizes.sum ≤ readBytes) :
    chargeAll message sizes bytes = .ok (bytes + sizes.sum) := by
  induction sizes generalizing bytes with
  | nil =>
      rfl
  | cons n sizes ih =>
      rw [List.sum_cons] at h ⊢
      rw [chargeAll, ensure_bind, if_pos (by omega), ih (by omega), Nat.add_assoc]

def linksBytes (bodies : List FieldBody) : Nat :=
  (bodies.map fun body => strLen body.field + 64).sum

/-- Bytes of the dictionary entries one descriptor needs. -/
def dictionaryBytes (pf : Platform) (db : Database) (descriptor : Json) : Nat :=
  ((readSymbols pf db [(0, 0, descriptor)]).map fun symbol => strLen symbol.2.2).sum

/-- The entries of a descriptor are in its page. -/
theorem provides_readSymbols
    {pf : Platform}
    {db : Database}
    {id streamId : Nat}
    {stable field encoding kind : Json}
    {symbols : List (String × Json)} :
    Provides pf db symbols
      (readSymbols pf db [(id, streamId, .arr [stable, field, encoding, .obj symbols, kind])]) := by
  intro key ref row hkey hrow
  unfold readSymbols
  have hmem : ref ∈ (List.flatMap (fun context : Nat × Nat × Json =>
      (symbolRefs context.2.2).filterMap fun ref => referenceId ref.2)
        [(id, streamId, Json.arr [stable, field, encoding, .obj symbols, kind])]).dedup := by
    rw [List.mem_dedup, List.flatMap_singleton, List.mem_filterMap]
    exact ⟨(key, .num (.posInt ref)), Fields.mem_of_lookup hkey, rfl⟩
  exact Fields.lookup_filterMap hmem hrow fun row => (row.streamId, row.value.wire pf)

/-- The page of a single change. -/
def pageOf (pf : Platform) (db : Database) (id : Nat) (row : ChangeRow)
    (contextRow : ContextRow) : EncodedPage :=
  let context := (row.contextId, contextRow.streamId, contextRow.descriptor)
  { rows := [{
      id := id
      context := row.contextId
      first := row.firstCursor
      last := row.lastCursor
      kind := row.eventType
      flags := row.flags
      metadata := row.metadata
      direct := row.direct }]
    contexts := [context]
    symbols := readSymbols pf db [context]
    links := [(id, linkBodies row.links)] }

/-- What `readEncoded` fetches for a single change. -/
theorem readEncoded_single
    {pf : Platform}
    {db : Database}
    {id : Nat}
    {row : ChangeRow}
    {contextRow : ContextRow}
    (hrow : db.changes.lookup id = some row)
    (hcontext : db.contexts.lookup row.contextId = some contextRow)
    (hstream : contextRow.streamId = row.streamId)
    (hkind : eventKindOf contextRow.descriptor = some row.eventKind)
    (hbudget : row.metadata.compactLen + contextRow.descriptor.compactLen +
      linksBytes (linkBodies row.links) +
        dictionaryBytes pf db contextRow.descriptor ≤ readBytes) :
    readEncoded pf db [id] = .ok (pageOf pf db id row contextRow) := by
  have hone : [id].length ≤ 257 := by
    simp
  have hselected : [id].filterMap (fun id =>
      (db.changes.lookup id).map fun row => (id, row)) = [(id, row)] := by
    simp [hrow]
  have hrows : encodedRows db [(id, row)] = .ok (pageOf pf db id row contextRow).rows := by
    simp only [encodedRows, encodedRow, hcontext, Option.filter_some, hstream, hkind]
    rfl
  have hcontexts : ([(id, row)].map fun row => row.2.contextId).dedup.filterMap (fun id =>
      (db.contexts.lookup id).map fun context =>
        (id, context.streamId, context.descriptor)) =
      (pageOf pf db id row contextRow).contexts := by
    simp [hcontext, pageOf]
  have hlinks : ([(id, row)].map fun row => (row.1, linkBodies row.2.links)).flatMap
      (fun entry => entry.2.map fun body => strLen body.field + 64) =
      (linkBodies row.links).map fun body => strLen body.field + 64 := by
    simp
  have hdictionary : dictionaryBytes pf db contextRow.descriptor =
      ((readSymbols pf db (pageOf pf db id row contextRow).contexts).map
        fun symbol => strLen symbol.2.2).sum := rfl
  have hmetadata : ((pageOf pf db id row contextRow).rows.map
      fun row => row.metadata.compactLen).sum = row.metadata.compactLen := rfl
  have hdescriptor : ((pageOf pf db id row contextRow).contexts.map
      fun context => context.2.2.compactLen).sum = contextRow.descriptor.compactLen := rfl
  unfold linksBytes at hbudget
  rw [hdictionary, ← hmetadata, ← hdescriptor] at hbudget
  unfold readEncoded
  dsimp only
  rw [ensure_bind, if_pos hone, hselected, hrows, except_ok_bind, hcontexts, hlinks,
    chargeAll_ok _ (by omega), except_ok_bind, chargeAll_ok _ (by omega), except_ok_bind,
    chargeAll_ok _ (by omega), except_ok_bind, chargeAll_ok _ (by omega), except_ok_bind]
  rfl

/-! ### Bodies in field order -/

theorem sortBodies_perm (bodies : List FieldBody) : (sortBodies bodies).Perm bodies :=
  List.perm_insertionSort _ bodies

/-- The order of the bodies does not matter, as their fields are distinct. -/
theorem sortBodies_eq_iff
    {bodies : List FieldBody}
    (bodies' : List FieldBody)
    (hfields : (bodies.map FieldBody.field).Nodup) :
    sortBodies bodies = sortBodies bodies' ↔ bodies.Perm bodies' := by
  constructor
  · intro heq
    exact (sortBodies_perm bodies).symm.trans (heq ▸ sortBodies_perm bodies')
  · intro hperm
    have hsorted : ∀ l : List FieldBody,
        (sortBodies l).Pairwise fun a b => a.field ≤ b.field :=
      fun l => List.pairwise_insertionSort _ l
    have hall : (sortBodies bodies).Perm (sortBodies bodies') :=
      (sortBodies_perm bodies).trans (hperm.trans (sortBodies_perm bodies').symm)
    refine List.Perm.eq_of_pairwise (fun a b ha hb hab hba => ?_) (hsorted bodies)
      (hsorted bodies') hall
    have ha := (sortBodies_perm bodies).mem_iff.1 ha
    have hb := hperm.mem_iff.2 ((sortBodies_perm bodies').mem_iff.1 hb)
    exact List.inj_on_of_nodup_map hfields ha hb (le_antisymm hab hba)

/-! ### Publishing a new change -/

/-- What `publish` asks of a change and its bodies, its byte budgets apart. -/
structure Publishable (db : Database) (change : Change) (bodies : List FieldBody) :
    Prop where
  cursors : 0 ≤ change.firstCursor ∧ change.firstCursor ≤ change.lastCursor
  count : bodies.length ≤ 128
  fields : (bodies.map FieldBody.field).Nodup
  ranges : ∀ body ∈ bodies, db.AdmitsRange body.range
  encodings : bodies.length = 1 ∨
    ∀ body ∈ bodies, body.encoding ≠ .toolArgumentsStringV1

theorem Publishable.congr
    {db db' : Database}
    {change : Change}
    {bodies : List FieldBody}
    (h : Publishable db change bodies)
    (hobjects : db'.objects = db.objects) :
    Publishable db' change bodies where
  cursors := h.cursors
  count := h.count
  fields := h.fields
  ranges := by
    unfold Database.AdmitsRange
    rw [hobjects]
    exact h.ranges
  encodings := h.encodings

/-- The descriptor of a change, with its identifiers interned. -/
def internedDescriptor (pf : Platform) (db : Database) (streamId : Nat) (change : Change)
    (bodies : List FieldBody) : Except String (Database × Json × Nat) :=
  intern pf db streamId (encode change (directBody bodies)).1

/-- The bodies that need link rows of their own. -/
def linkedBodies (bodies : List FieldBody) : List FieldBody :=
  if (directBody bodies).isNone then bodies else []

/--
The byte budgets: of the interned identifiers and the descriptor, of the remainder,
and of the page that reads the change.
-/
def WithinBudgets (pf : Platform) (db : Database) (streamId : Nat) (change : Change)
    (bodies : List FieldBody) : Prop :=
  ∃ out, internedDescriptor pf db streamId change bodies = .ok out ∧
    let remainder := (encode change (directBody bodies)).2.1
    remainder.compactLen ≤ changeMetadataBytes ∧
      remainder.compactLen + out.2.1.compactLen + linksBytes (linkedBodies bodies) +
        dictionaryBytes pf out.1 out.2.1 ≤ readBytes

/-- Fewer than nine stored contexts of the stream have the digest of this one. -/
def FewCollisions (pf : Platform) (db : Database) (streamId : Nat) (change : Change)
    (bodies : List FieldBody) : Prop :=
  ∀ out, internedDescriptor pf db streamId change bodies = .ok out →
    (db.contexts.rows.filter fun row => row.2.streamId = streamId ∧
      pf.digest row.2.descriptor = pf.digest out.2.1).length < 9

/-- The row of a new change. -/
def writtenRow (streamId contextId : Nat) (change : Change) (bodies : List FieldBody)
    (links : List (String × LinkRow)) : ChangeRow where
  streamId := streamId
  contextId := contextId
  firstCursor := change.firstCursor
  lastCursor := change.lastCursor
  eventKind := kindCode change.eventType
  unknownKind := if kindCode change.eventType = 0 then some change.eventType else none
  flags := (encode change (directBody bodies)).2.2
  metadata := (encode change (directBody bodies)).2.1
  direct := (directBody bodies).map FieldBody.range
  links := links

theorem directBody_mem
    {bodies : List FieldBody}
    {body : FieldBody}
    (h : directBody bodies = some body) :
    bodies = [body] := by
  unfold directBody at h
  split at h
  · cases h
    rfl
  · cases h

theorem directBody_none
    {bodies : List FieldBody}
    (h : directBody bodies = none) :
    bodies.length ≠ 1 := by
  intro hlen
  obtain ⟨body, rfl⟩ := List.length_eq_one_iff.1 hlen
  cases h

/-- The row passes the checks of its table. -/
theorem writtenRow_wellFormed
    {db : Database}
    {change : Change}
    {bodies : List FieldBody}
    (hpublishable : Publishable db change bodies)
    (hremainder : (encode change (directBody bodies)).2.1.compactLen ≤ changeMetadataBytes)
    (streamId contextId : Nat)
    (links : List (String × LinkRow)) :
    (writtenRow streamId contextId change bodies links).WellFormed := by
  obtain ⟨hflags, hzero⟩ := takeFlags_flags change (directBody bodies)
    (splitStable change.metadata).2
  refine ⟨hpublishable.cursors.1, hpublishable.cursors.2, kindCode_le _, ?_, hflags,
    hremainder, fun hnone => hzero ?_⟩
  · show kindCode change.eventType = 0 ↔
      (if kindCode change.eventType = 0 then some change.eventType else none) ≠ none
    by_cases hcode : kindCode change.eventType = 0
    · simp [hcode]
    · simp [hcode]
  · have hmap : (directBody bodies).map FieldBody.range = none := hnone
    simpa using hmap

/-- The links of a new change. -/
theorem insertLinks_linkedBodies
    {db : Database}
    {change : Change}
    {bodies : List FieldBody}
    (hpublishable : Publishable db change bodies) :
    ∃ links, db.insertLinks (linkedBodies bodies) [] = .ok links ∧
      (linkBodies links).Perm (linkedBodies bodies) := by
  unfold linkedBodies
  cases hdirect : directBody bodies with
  | some body =>
      exact ⟨[], rfl, List.Perm.refl _⟩
  | none =>
      have hencodings := hpublishable.encodings.resolve_left (directBody_none hdirect)
      obtain ⟨links, hrun, -, hperm⟩ := insertLinks_ok [] hencodings
        hpublishable.ranges hpublishable.fields (fun _ _ => rfl) Fields.sorted_nil
      refine ⟨links, hrun, ?_⟩
      have hnil : linkBodies [] = [] := rfl
      rw [hnil, List.append_nil] at hperm
      exact hperm

/-- What `publishNew` leaves behind. -/
theorem publishNew_ok
    {pf : Platform}
    {db db₁ : Database}
    {streamId symbolBytes : Nat}
    {change : Change}
    {bodies : List FieldBody}
    {descriptor : Json}
    (hpublishable : Publishable db change bodies)
    (hfresh : db.changeAt streamId change.lastCursor = none)
    (hintern : internedDescriptor pf db streamId change bodies =
      .ok (db₁, descriptor, symbolBytes))
    (hadds : AddsSymbols db db₁)
    (hlen : descriptor.compactLen ≤ changeMetadataBytes)
    (hbytes : symbolBytes ≤ changeMetadataBytes)
    (hkind : eventKindOf descriptor = some (kindCode change.eventType))
    (hrefs : ∀ ref ∈ symbolRefs descriptor, ∃ id ∈ referenceId ref.2,
      ∃ symbol ∈ db₁.symbols.lookup id, symbol.streamId = streamId)
    (hremainder : (encode change (directBody bodies)).2.1.compactLen ≤ changeMetadataBytes)
    (hcollisions : FewCollisions pf db streamId change bodies) :
    ∃ db' id contextId contextRow links,
      publishNew pf db streamId change bodies = .ok db' ∧
      db'.symbols = db₁.symbols ∧
      db'.contexts.lookup contextId = some contextRow ∧
      contextRow.streamId = streamId ∧ contextRow.descriptor = descriptor ∧
      (linkBodies links).Perm (linkedBodies bodies) ∧
      db'.changeAt streamId change.lastCursor =
        some (id, writtenRow streamId contextId change bodies links) := by
  have hfew := hcollisions _ hintern
  have hcontexts : db₁.contexts = db.contexts := by
    rw [hadds.rest]
  have hobjects : db₁.objects = db.objects := by
    rw [hadds.rest]
  have hchanges : db₁.changes = db.changes := by
    rw [hadds.rest]
  rw [← hcontexts] at hfew
  obtain ⟨contexts, context, contextRow, hcontext, hlook, hstream, hdescriptor⟩ :=
    contextId_ok hfew hlen hbytes hkind (kindCode_le _) hrefs
  let db₂ : Database := { db₁ with contexts := contexts }
  have hpublishable' : Publishable db₂ change bodies := hpublishable.congr hobjects
  obtain ⟨links, hlinks, hperm⟩ := insertLinks_linkedBodies hpublishable'
  have hwellFormed := writtenRow_wellFormed hpublishable hremainder streamId context []
  have hdirect : ∀ range ∈ (writtenRow streamId context change bodies []).direct,
      db₂.AdmitsRange range := by
    intro range hrange
    obtain ⟨body, hbody, rfl⟩ := Option.map_eq_some_iff.1 hrange
    refine hpublishable'.ranges body ?_
    rw [directBody_mem hbody]
    exact List.mem_singleton_self body
  have hunique : db₂.changeAt streamId change.lastCursor = none := by
    rw [← hfresh]
    unfold Database.changeAt
    exact congrArg (fun t => Table.find? t _) hchanges
  have hunique' : db₂.changeAt (writtenRow streamId context change bodies []).streamId
      (writtenRow streamId context change bodies []).lastCursor = none := hunique
  let row := writtenRow streamId context change bodies links
  refine ⟨{ db₂ with changes := db₂.changes.insert db₂.changes.nextId row },
    db₂.changes.nextId, context, contextRow, links, ?_, rfl, hlook, hstream, hdescriptor,
    hperm, find?_insert_nextId hunique (by simp [row, writtenRow])⟩
  unfold publishNew
  show internedDescriptor pf db streamId change bodies >>= _ = _
  rw [hintern, except_ok_bind]
  show contextId pf db₁ streamId descriptor symbolBytes >>= _ = _
  rw [hcontext, except_ok_bind]
  show Database.insertChange db₂ (writtenRow streamId context change bodies [])
    (linkedBodies bodies) = _
  rw [Database.insertChange, ensure_bind, if_pos hwellFormed, ensure_bind, if_pos hdirect,
    ensure_bind, if_pos ⟨contextRow, hlook, hstream, by rw [hdescriptor]; exact hkind⟩,
    ensure_bind, if_pos hunique', hlinks]
  rfl

/-! ### Reading it back -/

/-- A stored change is this one, whatever the order of its bodies. -/
def SameChange (stored : StoredChange) (change : Change) (bodies : List FieldBody) : Prop :=
  stored.firstCursor = change.firstCursor ∧ stored.lastCursor = change.lastCursor ∧
    stored.eventType = change.eventType ∧ stored.metadata = change.metadata ∧
    stored.bodies.Perm bodies

/-- The bodies of a row, as its page decodes them. -/
def decodedBodies (bodies : List FieldBody) (links : List (String × LinkRow)) :
    List FieldBody :=
  match directBody bodies with
  | some body => [body]
  | none => linkBodies links

theorem decodedBodies_perm
    {bodies : List FieldBody}
    {links : List (String × LinkRow)}
    (h : (linkBodies links).Perm (linkedBodies bodies)) :
    (decodedBodies bodies links).Perm bodies := by
  unfold decodedBodies
  unfold linkedBodies at h
  cases hdirect : directBody bodies with
  | some body =>
      rw [directBody_mem hdirect]
  | none =>
      rw [hdirect] at h
      exact h

/-- The parts of the descriptor that `encode` makes of a change, restored. -/
def stableParts (change : Change) (bodies : List FieldBody) : Json × Json × Json :=
  (.obj (splitStable change.metadata).1,
    optionalStr ((directBody bodies).map FieldBody.field),
    optionalStr ((directBody bodies).map fun body => body.encoding.name))

/-- The change as `EncodedPage.decode` gives it. -/
def decodedChange (change : Change) (bodies : List FieldBody)
    (links : List (String × LinkRow)) : StoredChange where
  firstCursor := change.firstCursor
  lastCursor := change.lastCursor
  eventType := change.eventType
  metadata := change.metadata
  bodies := decodedBodies bodies links

/-- The row of a new change, as its page has it. -/
def encodedChange (id context : Nat) (change : Change) (bodies : List FieldBody) :
    EncodedRow where
  id := id
  context := context
  first := change.firstCursor
  last := change.lastCursor
  kind := change.eventType
  flags := (encode change (directBody bodies)).2.2
  metadata := (encode change (directBody bodies)).2.1
  direct := (directBody bodies).map FieldBody.range

theorem decodeRowOf_encodedChange
    {change : Change}
    {bodies : List FieldBody}
    {links : List (String × LinkRow)}
    {object : List (String × Json)}
    (hmetadata : change.metadata = .obj object)
    (hordered : OrderedMetadata object)
    (hlinks : (linkBodies links).Perm (linkedBodies bodies))
    (id context : Nat) :
    decodeRowOf [(context, stableParts change bodies)] [(id, linkBodies links)]
      (encodedChange id context change bodies) = .ok (decodedChange change bodies links) := by
  have hdecode := decode_encode change (directBody bodies) hmetadata hordered
  have hcontext : Fields.lookup context [(context, stableParts change bodies)] =
      some (stableParts change bodies) := by
    rw [Fields.lookup_cons, if_pos rfl]
  have hlinked : (Fields.lookup id [(id, linkBodies links)]).getD [] = linkBodies links := by
    rw [Fields.lookup_cons, if_pos rfl]
    rfl
  unfold decodeRowOf encodedChange
  rw [hcontext, context_some, except_ok_bind]
  simp only [hlinked, decodedChange, decodedBodies, stableParts, encode_eq]
  cases hdirect : directBody bodies with
  | none =>
      rw [hdirect] at hdecode
      simp only [Option.map_none] at hdecode ⊢
      rw [hdecode]
      rfl
  | some body =>
      rw [hdirect] at hdecode
      unfold linkedBodies at hlinks
      rw [hdirect] at hlinks
      have hempty : linkBodies links = [] := List.Perm.eq_nil hlinks
      simp only [Option.map_some, optionalStr, Json.asStr?, context_some, except_ok_bind,
        Encoding.parse_name] at hdecode ⊢
      rw [ensure_bind, if_pos hempty, hdecode]
      rfl

/-- The page of the row that was written holds the change. -/
theorem decode_pageOf
    {pf : Platform}
    {db : Database}
    {id streamId context : Nat}
    {change : Change}
    {bodies : List FieldBody}
    {links : List (String × LinkRow)}
    {contextRow : ContextRow}
    {object : List (String × Json)}
    (hmetadata : change.metadata = .obj object)
    (hordered : OrderedMetadata object)
    (hlinks : (linkBodies links).Perm (linkedBodies bodies))
    (hrestore : restore contextRow.streamId
        (readSymbols pf db [(context, contextRow.streamId, contextRow.descriptor)])
        contextRow.descriptor = .ok (stableParts change bodies)) :
    (pageOf pf db id (writtenRow streamId context change bodies links) contextRow).decode =
      .ok [decodedChange change bodies links] := by
  have hkind : (writtenRow streamId context change bodies links).eventType =
      change.eventType := eventType_kindCode rfl rfl
  have hparsed : parseContexts
      (readSymbols pf db [(context, contextRow.streamId, contextRow.descriptor)])
      [(context, contextRow.streamId, contextRow.descriptor)] =
        .ok [(context, stableParts change bodies)] := by
    rw [parseContexts, hrestore]
    rfl
  unfold EncodedPage.decode pageOf
  dsimp only
  rw [hkind]
  show parseContexts (readSymbols pf db
      [(context, contextRow.streamId, contextRow.descriptor)])
      [(context, contextRow.streamId, contextRow.descriptor)] >>= _ = _
  rw [hparsed, except_ok_bind]
  show decodeRowOf _ [(id, linkBodies links)] (encodedChange id context change bodies) >>= _ = _
  rw [decodeRowOf_encodedChange hmetadata hordered hlinks]
  rfl

/-- A new change is stored, and reads back. -/
theorem publishNew_readIds
    {pf : Platform}
    {db : Database}
    {streamId : Nat}
    {change : Change}
    {bodies : List FieldBody}
    {object : List (String × Json)}
    (hmetadata : change.metadata = .obj object)
    (hordered : OrderedMetadata object)
    (hpublishable : Publishable db change bodies)
    (hfresh : db.changeAt streamId change.lastCursor = none)
    (hbudgets : WithinBudgets pf db streamId change bodies)
    (hcollisions : FewCollisions pf db streamId change bodies) :
    ∃ db' id row stored, publishNew pf db streamId change bodies = .ok db' ∧
      db'.changeAt streamId change.lastCursor = some (id, row) ∧
      readIds pf db' [id] = .ok [stored] ∧ SameChange stored change bodies := by
  obtain ⟨⟨db₁, descriptor, symbolBytes⟩, hintern, hremainder, hpage⟩ := hbudgets
  obtain ⟨hsorted, hsortedData⟩ := splitStable_sorted hordered
  rw [← hmetadata] at hsorted hsortedData
  obtain ⟨hadds, hlen, hbytes, stable, symbols, hdescriptor, hresolves, -, hrestore⟩ :=
    restore_intern hsorted hsortedData hintern
  have hkind : eventKindOf descriptor = some (kindCode change.eventType) := by
    rw [hdescriptor]
    rfl
  have hrefs : ∀ ref ∈ symbolRefs descriptor, ∃ id ∈ referenceId ref.2,
      ∃ symbol ∈ db₁.symbols.lookup id, symbol.streamId = streamId := by
    rw [hdescriptor]
    intro ref href
    obtain ⟨value, id, heq, hlook⟩ := hresolves ref href
    exact ⟨id, by rw [heq]; rfl, _, hlook, rfl⟩
  obtain ⟨db', id, context, contextRow, links, hpublish, hsymbols, hcontext, hstream,
    hstored, hlinks, hat⟩ := publishNew_ok hpublishable hfresh hintern hadds hlen hbytes
      hkind hrefs hremainder hcollisions
  refine ⟨db', id, _, decodedChange change bodies links, hpublish, hat, ?_, rfl, rfl, rfl, rfl,
    decodedBodies_perm hlinks⟩
  obtain ⟨hrow, -⟩ := Table.find?_eq_some hat
  -- the page reads the symbols the descriptor was interned with
  have hread : ∀ contexts, readSymbols pf db' contexts = readSymbols pf db₁ contexts := by
    intro contexts
    unfold readSymbols
    rw [hsymbols]
  have hlinksBytes : linksBytes (linkBodies links) = linksBytes (linkedBodies bodies) :=
    (hlinks.map _).sum_nat
  have hbudget : (encode change (directBody bodies)).2.1.compactLen +
      contextRow.descriptor.compactLen + linksBytes (linkBodies links) +
        dictionaryBytes pf db' contextRow.descriptor ≤ readBytes := by
    unfold dictionaryBytes
    rw [hread, hstored, hlinksBytes]
    exact hpage
  have hsingle := readEncoded_single hrow hcontext hstream (hstored ▸ hkind) hbudget
  have hrestored : restore contextRow.streamId
      (readSymbols pf db' [(context, contextRow.streamId, contextRow.descriptor)])
      contextRow.descriptor = .ok (stableParts change bodies) := by
    rw [hread, hstream, hstored, hdescriptor]
    rw [hdescriptor] at hrestore
    exact hrestore _ provides_readSymbols
  unfold readIds
  rw [hsingle, except_ok_bind, decode_pageOf hmetadata hordered hlinks hrestored]

/-! ### Publishing again -/

/-- A change on a taken cursor is accepted exactly when it is the stored one. -/
theorem publishAgain_eq
    {pf : Platform}
    {db : Database}
    {id : Nat}
    {stored : StoredChange}
    (hread : readIds pf db [id] = .ok [stored])
    (hfields : (stored.bodies.map FieldBody.field).Nodup)
    {change : Change}
    (hcursor : stored.lastCursor = change.lastCursor)
    (bodies : List FieldBody) :
    (SameChange stored change bodies → publishAgain pf db id change bodies = .ok db) ∧
    (¬ SameChange stored change bodies →
      ∃ message, publishAgain pf db id change bodies = .error message) := by
  have hlast : [stored].getLast? = some stored := rfl
  unfold publishAgain
  rw [hread, except_ok_bind, hlast, context_some, except_ok_bind]
  have hsort := sortBodies_eq_iff bodies hfields
  rw [ensure_bind, ensure_bind]
  constructor
  · rintro ⟨hfirst, -, htype, hmetadata, hperm⟩
    rw [if_pos ⟨hfirst, htype, hmetadata⟩, if_pos (hsort.2 hperm)]
    rfl
  · intro hdiffers
    split
    · rename_i hsame
      rw [if_neg]
      · exact ⟨_, rfl⟩
      · rw [hsort]
        exact fun hperm => hdiffers ⟨hsame.1, hcursor, hsame.2.1, hsame.2.2, hperm⟩
    · exact ⟨_, rfl⟩

/--
A published change reads back as it was, and keeps its cursor: the same change is
accepted again without effect, a differing one is refused.
-/
theorem publish_round_trip
    (pf : Platform)
    (db : Database)
    (streamId : Nat)
    (change : Change)
    (bodies : List FieldBody)
    (object : List (String × Json))
    (hmetadata : change.metadata = .obj object)
    (hcanonical : change.metadata.Canonical)
    (hpublishable : Publishable db change bodies)
    (hfresh : db.changeAt streamId change.lastCursor = none)
    (hbudgets : WithinBudgets pf db streamId change bodies)
    (hcollisions : FewCollisions pf db streamId change bodies) :
    ∃ db' id row stored, publish pf db streamId change bodies = .ok db' ∧
      db'.changeAt streamId change.lastCursor = some (id, row) ∧
      readIds pf db' [id] = .ok [stored] ∧ SameChange stored change bodies ∧
      ∀ again bodies', again.lastCursor = change.lastCursor →
        (SameChange stored again bodies' →
          publish pf db' streamId again bodies' = .ok db') ∧
        (¬ SameChange stored again bodies' →
          ∃ message, publish pf db' streamId again bodies' = .error message) := by
  have hordered := orderedMetadata_of_canonical (hmetadata ▸ hcanonical)
  obtain ⟨db', id, row, stored, hpublish, hat, hread, hsame⟩ := publishNew_readIds
    hmetadata hordered hpublishable hfresh hbudgets hcollisions
  refine ⟨db', id, row, stored, ?_, hat, hread, hsame, fun again bodies' hlast => ?_⟩
  · unfold publish
    rw [ensure_bind, if_pos hpublishable.count, hfresh]
    exact hpublish
  · have hfields : (stored.bodies.map FieldBody.field).Nodup :=
      (hsame.2.2.2.2.map FieldBody.field).nodup_iff.2 hpublishable.fields
    have hagain := publishAgain_eq hread hfields (hsame.2.1.trans hlast.symm) bodies'
    unfold publish
    rw [ensure_bind, hlast, hat]
    split
    · exact hagain
    · rename_i hcount
      refine ⟨fun hsame' => absurd ?_ hcount, fun _ => ⟨_, rfl⟩⟩
      rw [← hsame'.2.2.2.2.length_eq, hsame.2.2.2.2.length_eq]
      exact hpublishable.count

/-! ### A text chunk

Its entry id is a UUID, its tool id is not, and its range fields have the values
they would get anyway.
-/

def chunkPlatform : Platform where
  digest _ := [64, 44, 233, 104, 144, 240, 63, 205, 179, 68, 91, 195, 87, 25, 83, 52, 209,
    22, 244, 17, 17, 107, 22, 154, 81, 13, 17, 109, 12, 155, 12, 12]
  parseUuid text :=
    if text = "0197c3f0-0000-7000-8000-00000000000a" then
      some 2117238906055919258255057607660142602
    else
      none
  renderUuid _ := "0197c3f0-0000-7000-8000-00000000000a"

def chunkDatabase : Database where
  objects := [(1, { byteLength := 5, segments := [(0, [104, 101, 108, 108, 111])] })]

def chunkBodies : List FieldBody :=
  [{ field := "/data/text"
     range := { id := 1, offset := 0, length := 5 }
     encoding := .text }]

def chunkMetadata : List (String × Json) :=
  [("data", .obj [
      ("content_bytes", .num (.posInt 5)),
      ("content_first_idx", .num (.posInt 3)),
      ("content_offset", .num (.posInt 0)),
      ("entry_id", .str "0197c3f0-0000-7000-8000-00000000000a"),
      ("note", .null),
      ("tool_id", .str "call_1")]),
    ("run_sequence", .num (.posInt 7)),
    ("type", .str "event")]

def chunkChange : Change where
  firstCursor := 3
  lastCursor := 4
  eventType := "text_chunk"
  metadata := .obj chunkMetadata

theorem chunkChange_publishable : Publishable chunkDatabase chunkChange chunkBodies where
  cursors := by decide
  count := by decide
  fields := by decide
  ranges := by decide
  encodings := by decide

theorem chunkMetadata_canonical : chunkChange.metadata.Canonical := by
  refine ⟨by decide, ?_⟩
  simp only [Json.canonicalFields_iff, chunkMetadata, List.mem_cons, List.not_mem_nil, or_false]
  rintro field (rfl | rfl | rfl)
  · refine ⟨by decide, ?_⟩
    simp [Json.CanonicalFields, Json.Canonical]
  · trivial
  · trivial

theorem publish_round_trip_chunk :
    ∃ db' id row stored,
      publish chunkPlatform chunkDatabase 1 chunkChange chunkBodies = .ok db' ∧
      db'.changeAt 1 chunkChange.lastCursor = some (id, row) ∧
      readIds chunkPlatform db' [id] = .ok [stored] ∧
      SameChange stored chunkChange chunkBodies ∧
      ∀ again bodies', again.lastCursor = chunkChange.lastCursor →
        (SameChange stored again bodies' →
          publish chunkPlatform db' 1 again bodies' = .ok db') ∧
        (¬ SameChange stored again bodies' →
          ∃ message, publish chunkPlatform db' 1 again bodies' = .error message) :=
  publish_round_trip chunkPlatform chunkDatabase 1 chunkChange chunkBodies chunkMetadata
    rfl chunkMetadata_canonical chunkChange_publishable rfl
    ⟨_, rfl, by decide, by decide⟩ (fun _ _ => Nat.zero_lt_succ 8)

/-! ### The encoding of entries -/

/-- A second body, in the encoding that only entries have. -/
def entryBodies : List FieldBody :=
  chunkBodies ++ [{
    field := "/data/args"
    range := { id := 1, offset := 0, length := 5 }
    encoding := .toolArgumentsStringV1 }]

/-- The link table refuses it, though everything else is in order. -/
theorem publish_refuses_entry_encoding :
    ¬ ∀ (pf : Platform) (db : Database) (streamId : Nat) (change : Change)
        (bodies : List FieldBody) (object : List (String × Json)),
      change.metadata = .obj object → change.metadata.Canonical →
      0 ≤ change.firstCursor ∧ change.firstCursor ≤ change.lastCursor →
      bodies.length ≤ 128 → (bodies.map FieldBody.field).Nodup →
      (∀ body ∈ bodies, db.AdmitsRange body.range) →
      db.changeAt streamId change.lastCursor = none →
      WithinBudgets pf db streamId change bodies →
      FewCollisions pf db streamId change bodies →
      ∃ db', publish pf db streamId change bodies = .ok db' := by
  intro h
  obtain ⟨db', hpublish⟩ := h chunkPlatform chunkDatabase 1 chunkChange entryBodies
    chunkMetadata rfl chunkMetadata_canonical (by decide) (by decide) (by decide) (by decide)
    rfl ⟨_, rfl, by decide, by decide⟩ (fun _ _ => Nat.zero_lt_succ 8)
  have hrefused : publish chunkPlatform chunkDatabase 1 chunkChange entryBodies =
      .error "CHECK constraint failed: encoding IN ('text','json','shell_summary')" := rfl
  rw [hrefused] at hpublish
  cases hpublish

end Content
end FutureOs
