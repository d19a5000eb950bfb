import FutureOs.Content.Body
import FutureOs.Content.CompactPublish
import FutureOs.Content.Stream

/-!
# Staged bodies

What holds of the body owners of every stream (`OwnersHeld`), and what writing to
the tables never takes away (`Extends`).  A piece that was staged stays in its body,
so staging it again succeeds (`stagePiece_again`).
-/

namespace FutureOs
namespace Content

open Utf8

variable {codec : Codec}

/-! ### Bodies -/

/-- A body grows at its end, until it is sealed. -/
def Grew (b b' : Body) : Prop :=
  (∃ more, b'.text = b.text ++ more) ∧ (b.isSealed = true → b' = b)

theorem Grew.refl (b : Body) : Grew b b :=
  ⟨⟨[], (List.append_nil _).symm⟩, fun _ => rfl⟩

theorem Grew.trans
    {b₁ b₂ b₃ : Body}
    (h : Grew b₁ b₂)
    (h' : Grew b₂ b₃) :
    Grew b₁ b₃ := by
  obtain ⟨⟨more, hmore⟩, hsealed⟩ := h
  obtain ⟨⟨more', hmore'⟩, hsealed'⟩ := h'
  refine ⟨⟨more ++ more', by rw [hmore', hmore, List.append_assoc]⟩, fun h => ?_⟩
  rw [← hsealed h]
  refine (hsealed' ?_)
  rw [hsealed h]
  exact h

theorem Grew.size_le
    {b b' : Body}
    (h : Grew b b') :
    size b.text ≤ size b'.text := by
  obtain ⟨more, hmore⟩ := h.1
  rw [hmore, size_append]
  exact Nat.le_add_right _ _

theorem Grew.storedAt
    {b b' : Body}
    (h : Grew b b')
    {offset : Int}
    {text : Text}
    (hstored : b.StoredAt offset text) :
    b'.StoredAt offset text := by
  obtain ⟨more, hmore⟩ := h.1
  obtain ⟨front, back, hbody, hoffset⟩ := hstored
  exact ⟨front, back ++ more, by rw [hmore, hbody, List.append_assoc], hoffset⟩

def BodiesGrow (codec : Codec) (s s' : Store) : Prop :=
  ∀ id b, Stores codec s id b → ∃ b', Stores codec s' id b' ∧ Grew b b'

theorem BodiesGrow.refl (s : Store) : BodiesGrow codec s s :=
  fun _ b h => ⟨b, h, Grew.refl b⟩

theorem BodiesGrow.trans
    {s₁ s₂ s₃ : Store}
    (h : BodiesGrow codec s₁ s₂)
    (h' : BodiesGrow codec s₂ s₃) :
    BodiesGrow codec s₁ s₃ := by
  intro id b hstores
  obtain ⟨b₂, hstores₂, hgrew⟩ := h id b hstores
  obtain ⟨b₃, hstores₃, hgrew'⟩ := h' id b₂ hstores₂
  exact ⟨b₃, hstores₃, hgrew.trans hgrew'⟩

/-- A new object is empty, and no other changes. -/
theorem create_grows (s : Store) :
    Stores codec (s.create (Fields.nextKey s)) (Fields.nextKey s) {} ∧
      BodiesGrow codec s (s.create (Fields.nextKey s)) := by
  have hnone := Fields.lookup_nextKey s
  unfold Store.create
  rw [hnone]
  refine ⟨⟨{}, by rw [Fields.lookup_insert, if_pos rfl], holds_new⟩, fun id b h => ?_⟩
  refine ⟨b, h.insert (fun heq => ?_) (fun _ => rfl), Grew.refl b⟩
  obtain ⟨o, hlook, -⟩ := h
  rw [← heq, hnone] at hlook
  cases hlook

theorem append_grows
    (hcodec : codec.Lossless)
    {s s' : Store}
    {id : Nat}
    {offset : Int}
    {text : Text}
    {range : ContentRange}
    (h : s.append codec id offset text = .ok (s', range)) :
    BodiesGrow codec s s' := by
  intro id' b hstores
  by_cases hid : id = id'
  · subst hid
    have hnext := hstores.append hcodec offset text
    rw [h, commit_ok] at hnext
    refine ⟨_, hnext, ?_⟩
    unfold Body.append
    split
    · rename_i hext
      refine ⟨⟨text, rfl⟩, fun hsealed => ?_⟩
      rw [hext.2.2.1] at hsealed
      cases hsealed
    · exact Grew.refl b
  · have hnext := hstores.append_other hid offset text
    rw [h, commit_ok] at hnext
    exact ⟨b, hnext, Grew.refl b⟩

/-- After an append the text is in the body. -/
theorem append_stored
    (hcodec : codec.Lossless)
    {s s' : Store}
    {id : Nat}
    {b : Body}
    (hstores : Stores codec s id b)
    {offset : Int}
    {text : Text}
    {range : ContentRange}
    (h : s.append codec id offset text = .ok (s', range)) :
    range = { id := id, offset := offset, length := size text } ∧
    size text ≤ writeBytes ∧ offset + size text < 2 ^ 63 ∧
    ∃ b', Stores codec s' id b' ∧ b'.StoredAt offset text ∧ Grew b b' := by
  obtain ⟨o, hlook, hholds⟩ := hstores
  rcases append_holds hcodec hlook hholds offset text with
    ⟨e, hrun, -⟩ | ⟨hrun, haccepts, hstored, -⟩ | ⟨o', hrun, hext, hholds'⟩
  · rw [hrun] at h
    cases h
  · rw [hrun] at h
    cases h
    rcases haccepts with hext | ⟨hbudget, hrange, -⟩
    · exact ⟨rfl, hext.1, hext.2.1, b, ⟨o, hlook, hholds⟩, hstored, Grew.refl b⟩
    · exact ⟨rfl, hbudget, hrange, b, ⟨o, hlook, hholds⟩, hstored, Grew.refl b⟩
  · rw [hrun] at h
    cases h
    refine ⟨rfl, hext.1, hext.2.1, _, ⟨o', by rw [Fields.lookup_insert, if_pos rfl], hholds'⟩,
      ⟨b.text, [], by rw [List.append_nil], hext.2.2.2⟩, ⟨text, rfl⟩, fun hsealed => ?_⟩
    rw [hext.2.2.1] at hsealed
    cases hsealed

/-- Appending what is there succeeds. -/
theorem append_again
    (hcodec : codec.Lossless)
    {s : Store}
    {id : Nat}
    {b : Body}
    (hstores : Stores codec s id b)
    {offset : Int}
    {text : Text}
    (hstored : b.StoredAt offset text)
    (hbudget : size text ≤ writeBytes)
    (hrange : offset + size text < 2 ^ 63) :
    ∃ s', s.append codec id offset text =
      .ok (s', { id := id, offset := offset, length := size text }) := by
  obtain ⟨o, hlook, hholds⟩ := hstores
  rcases append_holds hcodec hlook hholds offset text with
    ⟨e, -, hrefused⟩ | ⟨hrun, -⟩ | ⟨o', hrun, -⟩
  · exact absurd (Or.inr ⟨hbudget, hrange, hstored⟩) hrefused
  · exact ⟨_, hrun⟩
  · exact ⟨_, hrun⟩

theorem sealBody_grows
    {s s' : Store}
    {id : Nat}
    {digest : ContentDigest}
    {range : ContentRange}
    (h : s.sealBody codec id digest = .ok (s', range)) :
    BodiesGrow codec s s' := by
  intro id' b hstores
  have hnext := hstores.sealBody id digest
  rw [h, commit_ok] at hnext
  refine ⟨_, hnext, ?_⟩
  split
  · unfold Body.sealBody
    split
    · rename_i hopen
      refine ⟨⟨[], (List.append_nil _).symm⟩, fun hsealed => ?_⟩
      rw [hopen.2] at hsealed
      cases hsealed
    · exact Grew.refl b
  · exact Grew.refl b

/-- The body is sealed with this digest. -/
def SealedBy (codec : Codec) (b : Body) (digest : ContentDigest) : Prop :=
  (size b.text : Int) = digest.bytes ∧ b.sha256 = some (digest.finish codec)

theorem SealedBy.grew
    {b b' : Body}
    {digest : ContentDigest}
    (h : SealedBy codec b digest)
    (hgrew : Grew b b') :
    SealedBy codec b' digest := by
  have hsealed : b.isSealed = true := by
    rw [Body.isSealed, h.2]
    rfl
  rw [hgrew.2 hsealed]
  exact h

/-- After sealing, the body of the object is sealed. -/
theorem sealBody_sealed
    {s s' : Store}
    {id : Nat}
    {b : Body}
    (hstores : Stores codec s id b)
    {digest : ContentDigest}
    {range : ContentRange}
    (h : s.sealBody codec id digest = .ok (s', range)) :
    ∃ b', Stores codec s' id b' ∧ SealedBy codec b' digest ∧ Grew b b' := by
  obtain ⟨o, hlook, hholds⟩ := hstores
  unfold Store.sealBody at h
  rw [objectRow_of_lookup hlook, except_ok_bind] at h
  dsimp only at h
  split at h
  · rename_i hopen
    cases h
    rw [hholds.isSealed, hholds.byteLength] at hopen
    refine ⟨_, ⟨_, by rw [Fields.lookup_insert, if_pos rfl],
      hholds.sealBody (digest.finish codec)⟩, ⟨hopen.1, rfl⟩,
      ⟨[], (List.append_nil _).symm⟩, fun hsealed => ?_⟩
    rw [hopen.2] at hsealed
    cases hsealed
  · obtain ⟨_, hcheck, h⟩ := bind_eq_ok.1 h
    have hcheck := ensure_eq_ok.1 hcheck
    cases h
    rw [hholds.byteLength, hholds.sha256] at hcheck
    exact ⟨b, ⟨o, hlook, hholds⟩, hcheck, Grew.refl b⟩

/-- Sealing again with the same digest succeeds. -/
theorem sealBody_again
    {s : Store}
    {id : Nat}
    {b : Body}
    (hstores : Stores codec s id b)
    {digest : ContentDigest}
    (hsealed : SealedBy codec b digest) :
    ∃ result, s.sealBody codec id digest = .ok result := by
  obtain ⟨o, hlook, hholds⟩ := hstores
  unfold Store.sealBody
  rw [objectRow_of_lookup hlook, except_ok_bind]
  dsimp only
  split
  · exact ⟨_, rfl⟩
  · rw [ensure_bind, if_pos]
    · exact ⟨_, rfl⟩
    · rw [hholds.byteLength, hholds.sha256]
      exact hsealed

/-! ### The owners of a database -/

/-- No stream has a symbol twice. -/
def SymbolsUnique (db : Database) : Prop :=
  ∀ id id' row, db.symbols.lookup id = some row → db.symbols.lookup id' = some row → id = id'

theorem symbolOf_eq_some
    {db : Database}
    (hunique : SymbolsUnique db)
    {pf : Platform}
    {streamId id : Nat}
    {value : String} :
    db.symbolOf pf streamId value = some id ↔ db.symbols.lookup id =
      some { streamId := streamId, value := StoredIdentity.key pf value } := by
  unfold Database.symbolOf
  constructor
  · intro h
    obtain ⟨found, hfound, rfl⟩ := Option.map_eq_some_iff.1 h
    obtain ⟨hlook, hrow⟩ := Table.find?_eq_some hfound
    simp only [decide_eq_true_eq] at hrow
    rw [hlook, ← hrow.1, ← hrow.2]
  · intro hlook
    cases hfound : db.symbols.find? fun row =>
        row.streamId = streamId ∧ row.value = StoredIdentity.key pf value with
    | none =>
        have hnot := Table.find?_eq_none.1 hfound id _ hlook
        simp at hnot
    | some found =>
        obtain ⟨hlook', hrow⟩ := Table.find?_eq_some hfound
        simp only [decide_eq_true_eq] at hrow
        have hsame : db.symbols.lookup found.1 = db.symbols.lookup id := by
          rw [hlook, hlook', ← hrow.1, ← hrow.2]
        rw [hlook] at hsame
        exact congrArg some (hunique _ _ _ hsame hlook)

/-- Interning keeps the symbols apart, and the symbol is found from then on. -/
theorem internValue_unique
    {pf : Platform}
    {db db' : Database}
    {streamId id : Nat}
    {value : String}
    (hunique : SymbolsUnique db)
    (h : internValue pf db streamId value = .ok (db', id)) :
    SymbolsUnique db' := by
  unfold internValue at h
  obtain ⟨_, -, h⟩ := bind_eq_ok.1 h
  dsimp only at h
  split at h
  · cases h
    exact hunique
  · rename_i hnone
    cases h
    intro i j row hi hj
    -- a row that was there before is not the one that was missing
    have hold : ∀ k, db.symbols.lookup k ≠
        some { streamId := streamId, value := StoredIdentity.key pf value } := by
      intro k hk
      have hnot := Table.find?_eq_none.1 hnone k _ hk
      simp at hnot
    rw [Table.lookup_insert] at hi hj
    split at hi
    · split at hj
      · rename_i hik hjk
        exact hik.trans hjk.symm
      · cases hi
        exact absurd hj (hold j)
    · split at hj
      · cases hj
        exact absurd hi (hold i)
      · exact hunique i j row hi hj

theorem internFields_unique
    {pf : Platform}
    {streamId : Nat}
    {fields : List String}
    {db db' : Database}
    {data symbols data' symbols' : List (String × Json)}
    {bytes bytes' : Nat}
    (hunique : SymbolsUnique db)
    (h : internFields pf streamId fields db data symbols bytes =
      .ok (db', data', symbols', bytes')) :
    SymbolsUnique db' := by
  induction fields generalizing db data symbols bytes with
  | nil =>
      cases h
      exact hunique
  | cons field fields ih =>
      unfold internFields at h
      split at h
      · exact ih hunique h
      · obtain ⟨⟨db₁, id⟩, hvalue, h⟩ := bind_eq_ok.1 h
        exact ih (internValue_unique hunique hvalue) h

theorem ownerAt_eq_some
    {db : Database}
    {streamId keyId : Nat}
    {owner : OwnerRow} :
    db.ownerAt streamId keyId = some owner ↔
      ∃ stream, db.streams.lookup streamId = some stream ∧
        stream.owners.lookup keyId = some owner :=
  Option.bind_eq_some_iff

/-- Writing an owner changes no other. -/
theorem ownerAt_setOwner
    {db : Database}
    {streamId : Nat}
    {stream : StreamRow}
    (hstream : db.streams.lookup streamId = some stream)
    (keyId : Nat)
    (owner : OwnerRow)
    (streamId' keyId' : Nat) :
    (db.setOwner streamId keyId owner).ownerAt streamId' keyId' =
      if streamId' = streamId ∧ keyId' = keyId then some owner
      else db.ownerAt streamId' keyId' := by
  unfold Database.setOwner Database.ownerAt
  rw [hstream]
  dsimp only
  rw [Table.lookup_insert]
  by_cases hid : streamId' = streamId
  · subst hid
    rw [if_pos rfl, hstream, Option.bind_some, Option.bind_some, Table.lookup_insert]
    by_cases hkey : keyId' = keyId
    · rw [if_pos hkey, if_pos ⟨rfl, hkey⟩]
    · rw [if_neg hkey, if_neg fun h => hkey h.2]
  · rw [if_neg hid, if_neg fun h => hid h.1]

/--
Symbols are unique, every owner has its bytes in its object, and an object belongs
to one stream.
-/
structure OwnersHeld (codec : Codec) (db : Database) : Prop where
  symbols : SymbolsUnique db
  held : ∀ streamId keyId owner, db.ownerAt streamId keyId = some owner →
    0 ≤ owner.range.length ∧ ∃ b, Stores codec db.objects owner.range.id b ∧
      owner.range.length ≤ size b.text
  apart : ∀ streamId streamId' keyId keyId' owner owner',
    db.ownerAt streamId keyId = some owner → db.ownerAt streamId' keyId' = some owner' →
    owner.range.id = owner'.range.id → streamId = streamId'

/-- What a write to the tables never takes away. -/
structure Extends (codec : Codec) (db db' : Database) : Prop where
  symbols : ∀ id row, db.symbols.lookup id = some row → db'.symbols.lookup id = some row
  contexts : ∀ id row, db.contexts.lookup id = some row → db'.contexts.lookup id = some row
  streams : ∀ id stream, db.streams.lookup id = some stream → ∃ stream',
    db'.streams.lookup id = some stream' ∧ stream'.identity = stream.identity ∧
      stream.durableCursor ≤ stream'.durableCursor
  owners : ∀ streamId keyId owner, db.ownerAt streamId keyId = some owner → ∃ owner',
    db'.ownerAt streamId keyId = some owner' ∧ owner'.range.id = owner.range.id ∧
      owner'.encoding = owner.encoding ∧ owner.range.length ≤ owner'.range.length
  bodies : BodiesGrow codec db.objects db'.objects

theorem Extends.refl (db : Database) : Extends codec db db where
  symbols := fun _ _ h => h
  contexts := fun _ _ h => h
  streams := fun _ stream h => ⟨stream, h, rfl, Int.le_refl _⟩
  owners := fun _ _ owner h => ⟨owner, h, rfl, rfl, Int.le_refl _⟩
  bodies := BodiesGrow.refl _

theorem Extends.trans
    {db₁ db₂ db₃ : Database}
    (h : Extends codec db₁ db₂)
    (h' : Extends codec db₂ db₃) :
    Extends codec db₁ db₃ where
  symbols := fun id row hlook => h'.symbols id row (h.symbols id row hlook)
  contexts := fun id row hlook => h'.contexts id row (h.contexts id row hlook)
  streams := by
    intro id stream hlook
    obtain ⟨stream₂, hlook₂, hidentity, hdurable⟩ := h.streams id stream hlook
    obtain ⟨stream₃, hlook₃, hidentity', hdurable'⟩ := h'.streams id stream₂ hlook₂
    exact ⟨stream₃, hlook₃, hidentity'.trans hidentity, Int.le_trans hdurable hdurable'⟩
  owners := by
    intro streamId keyId owner howner
    obtain ⟨owner₂, howner₂, hid, hencoding, hlength⟩ := h.owners streamId keyId owner howner
    obtain ⟨owner₃, howner₃, hid', hencoding', hlength'⟩ :=
      h'.owners streamId keyId owner₂ howner₂
    exact ⟨owner₃, howner₃, hid'.trans hid, hencoding'.trans hencoding,
      Int.le_trans hlength hlength'⟩
  bodies := h.bodies.trans h'.bodies

/-- More symbols are growth. -/
theorem AddsSymbols.grows
    {db db' : Database}
    (h : AddsSymbols db db') :
    Extends codec db db' := by
  have hrest := h.rest
  have hstreams : db'.streams = db.streams := by
    rw [hrest]
  have hcontexts : db'.contexts = db.contexts := by
    rw [hrest]
  have hobjects : db'.objects = db.objects := by
    rw [hrest]
  constructor
  · exact h.keeps
  · rw [hcontexts]
    exact fun _ _ hlook => hlook
  · rw [hstreams]
    exact fun _ stream hlook => ⟨stream, hlook, rfl, Int.le_refl _⟩
  · unfold Database.ownerAt
    rw [hstreams]
    exact fun _ _ owner howner => ⟨owner, howner, rfl, rfl, Int.le_refl _⟩
  · rw [hobjects]
    exact BodiesGrow.refl _

end Content
end FutureOs
