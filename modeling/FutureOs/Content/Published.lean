import FutureOs.Content.CompactPublish
import FutureOs.Content.Stream

/-!
# What publishing leaves behind

A successful `publish` either finds its last cursor taken and changes nothing, or
adds one row of `stream_changes`, with symbols and a context for it and nothing
else (`publish_cases`).
-/

namespace FutureOs
namespace Content

variable {pf : Platform}

/-- Interning adds symbols only. -/
theorem internFields_adds
    {fields : List String}
    {streamId bytes bytes' : Nat}
    {db db' : Database}
    {data symbols data' symbols' : List (String × Json)}
    (h : internFields pf streamId fields db data symbols bytes =
      .ok (db', data', symbols', bytes')) :
    AddsSymbols db db' := by
  induction fields generalizing db data symbols bytes with
  | nil =>
      cases h
      exact AddsSymbols.refl _
  | cons field fields ih =>
      unfold internFields at h
      split at h
      · exact ih h
      · obtain ⟨⟨db₁, id⟩, hvalue, h⟩ := bind_eq_ok.1 h
        exact (internValue_spec hvalue).1.trans (ih h)

theorem intern_adds
    {streamId bytes : Nat}
    {db db' : Database}
    {descriptor encoded : Json}
    (h : intern pf db streamId descriptor = .ok (db', encoded, bytes)) :
    AddsSymbols db db' := by
  unfold intern at h
  split at h
  · split at h
    · obtain ⟨⟨db₁, data, symbols, bytes₁⟩, hfields, h⟩ := bind_eq_ok.1 h
      obtain ⟨_, hpure, h⟩ := bind_eq_ok.1 h
      cases hpure
      obtain ⟨_, -, h⟩ := bind_eq_ok.1 h
      cases h
      exact internFields_adds hfields
    · obtain ⟨_, hpure, h⟩ := bind_eq_ok.1 h
      cases hpure
      obtain ⟨_, -, h⟩ := bind_eq_ok.1 h
      cases h
      exact AddsSymbols.refl db
  · cases h

/-- More contexts, and no other difference. -/
structure AddsContexts (db db' : Database) : Prop where
  rest : db' = { db with contexts := db'.contexts }
  keeps : ∀ id row, db.contexts.lookup id = some row →
    db'.contexts.lookup id = some row

theorem contextId_adds
    {streamId symbolBytes context : Nat}
    {db db' : Database}
    {descriptor : Json}
    (h : contextId pf db streamId descriptor symbolBytes = .ok (db', context)) :
    AddsContexts db db' := by
  unfold contextId at h
  obtain ⟨_, -, h⟩ := bind_eq_ok.1 h
  split at h
  · cases h
    exact ⟨rfl, fun _ _ hlook => hlook⟩
  · unfold Database.insertContext at h
    obtain ⟨_, -, h⟩ := bind_eq_ok.1 h
    obtain ⟨_, -, h⟩ := bind_eq_ok.1 h
    cases h
    exact ⟨rfl, fun _ _ hlook => Table.lookup_insert_nextId hlook _⟩

/-- Links are made of bodies, and their ranges are admitted. -/
theorem insertLinks_mem
    {db : Database}
    {bodies : List FieldBody}
    {links out : List (String × LinkRow)}
    (h : db.insertLinks bodies links = .ok out) :
    ∀ link ∈ out, link ∈ links ∨ db.AdmitsRange link.2.range ∧ ∃ body ∈ bodies,
      link = (body.field, { encoding := body.encoding, range := body.range }) := by
  induction bodies generalizing links with
  | nil =>
      obtain rfl := Except.ok.inj h
      exact fun link hlink => Or.inl hlink
  | cons body bodies ih =>
      obtain ⟨links₁, hlink, h⟩ := bind_eq_ok.1 h
      unfold Database.insertLink at hlink
      obtain ⟨_, -, hlink⟩ := bind_eq_ok.1 hlink
      obtain ⟨_, hadmits, hlink⟩ := bind_eq_ok.1 hlink
      obtain ⟨_, -, hlink⟩ := bind_eq_ok.1 hlink
      obtain rfl := Except.ok.inj hlink
      have hadmits := ensure_eq_ok.1 hadmits
      intro link hmem
      rcases ih h link hmem with hold | ⟨hrange, body', hbody', rfl⟩
      · rcases Fields.mem_insert hold with rfl | hold
        · exact Or.inr ⟨hadmits, body, List.mem_cons_self, rfl⟩
        · exact Or.inl hold
      · exact Or.inr ⟨hrange, body', List.mem_cons_of_mem _ hbody', rfl⟩

/-- The row of a change that has just been published. -/
structure RowOf
    (db : Database)
    (streamId : Nat)
    (change : Change)
    (bodies : List FieldBody)
    (row : ChangeRow) : Prop where
  streamId : row.streamId = streamId
  firstCursor : row.firstCursor = change.firstCursor
  lastCursor : row.lastCursor = change.lastCursor
  eventKind : row.eventKind = kindCode change.eventType
  unknownKind : row.unknownKind =
    if kindCode change.eventType = 0 then some change.eventType else none
  wellFormed : row.WellFormed
  direct : ∀ range ∈ row.direct, db.AdmitsRange range ∧
    ∃ body, bodies = [body] ∧ body.range = range
  links : ∀ link ∈ row.links, db.AdmitsRange link.2.range ∧ ∃ body ∈ bodies,
    link = (body.field, { encoding := body.encoding, range := body.range })

/-- One row more, and what it refers to. -/
structure Adds (db db' : Database) (row : ChangeRow) : Prop where
  changes : db'.changes = db.changes.insert db.changes.nextId row
  symbols : ∀ id symbol, db.symbols.lookup id = some symbol →
    db'.symbols.lookup id = some symbol
  contexts : ∀ id context, db.contexts.lookup id = some context →
    db'.contexts.lookup id = some context
  rest : db' = { db with
    symbols := db'.symbols, contexts := db'.contexts, changes := db'.changes }

/-- Publishing finds the change, or adds its row. -/
theorem publish_cases
    {db db' : Database}
    {streamId : Nat}
    {change : Change}
    {bodies : List FieldBody}
    (h : publish pf db streamId change bodies = .ok db') :
    (db' = db ∧ db.changeAt streamId change.lastCursor ≠ none) ∨
      (db.changeAt streamId change.lastCursor = none ∧
        ∃ row, RowOf db streamId change bodies row ∧ Adds db db' row) := by
  unfold publish at h
  obtain ⟨_, -, h⟩ := bind_eq_ok.1 h
  split at h
  · rename_i id stored hstored
    unfold publishAgain at h
    obtain ⟨_, -, h⟩ := bind_eq_ok.1 h
    obtain ⟨_, -, h⟩ := bind_eq_ok.1 h
    obtain ⟨_, -, h⟩ := bind_eq_ok.1 h
    obtain ⟨_, -, h⟩ := bind_eq_ok.1 h
    exact Or.inl ⟨(Except.ok.inj h).symm, by rw [hstored]; simp⟩
  · rename_i hfresh
    refine Or.inr ⟨hfresh, ?_⟩
    unfold publishNew at h
    dsimp only at h
    obtain ⟨⟨db₁, descriptor, symbolBytes⟩, hintern, h⟩ := bind_eq_ok.1 h
    obtain ⟨⟨db₂, context⟩, hcontext, h⟩ := bind_eq_ok.1 h
    have hsymbols := intern_adds hintern
    have hcontexts := contextId_adds hcontext
    have hobjects : db₂.objects = db.objects := by
      rw [hcontexts.rest, hsymbols.rest]
    have hchanges : db₂.changes = db.changes := by
      rw [hcontexts.rest, hsymbols.rest]
    have hadmits : ∀ range, db₂.AdmitsRange range → db.AdmitsRange range := by
      intro range hrange
      unfold Database.AdmitsRange at hrange ⊢
      rwa [hobjects] at hrange
    unfold Database.insertChange at h
    obtain ⟨_, hwellFormed, h⟩ := bind_eq_ok.1 h
    obtain ⟨_, hdirect, h⟩ := bind_eq_ok.1 h
    obtain ⟨_, -, h⟩ := bind_eq_ok.1 h
    obtain ⟨_, -, h⟩ := bind_eq_ok.1 h
    obtain ⟨links, hlinks, h⟩ := bind_eq_ok.1 h
    have hwellFormed := ensure_eq_ok.1 hwellFormed
    have hdirect := ensure_eq_ok.1 hdirect
    obtain rfl := Except.ok.inj h
    refine ⟨writtenRow streamId context change bodies links,
      ⟨rfl, rfl, rfl, rfl, rfl, hwellFormed, ?_, ?_⟩, ⟨?_, ?_, ?_, ?_⟩⟩
    · intro range hrange
      refine ⟨hadmits range (hdirect range hrange), ?_⟩
      obtain ⟨body, hbody, rfl⟩ := Option.map_eq_some_iff.1 hrange
      exact ⟨body, directBody_mem hbody, rfl⟩
    · intro link hlink
      rcases insertLinks_mem hlinks link hlink with hnone | ⟨hrange, body, hbody, heq⟩
      · simp at hnone
      · refine ⟨hadmits _ hrange, body, ?_, heq⟩
        split at hbody
        · exact hbody
        · simp at hbody
    · dsimp only
      rw [hchanges]
      rfl
    · intro id symbol hlook
      have hkept := hsymbols.keeps id symbol hlook
      rw [hcontexts.rest]
      exact hkept
    · intro id row hlook
      have hrest : db₁.contexts = db.contexts := by
        rw [hsymbols.rest]
      exact hcontexts.keeps id row (by rw [hrest]; exact hlook)
    · dsimp only
      rw [hcontexts.rest, hsymbols.rest]

end Content
end FutureOs
