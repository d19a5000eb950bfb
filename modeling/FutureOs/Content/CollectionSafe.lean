import FutureOs.Content.Collection
import FutureOs.Content.OneBody
import FutureOs.Content.Published

/-!
# Collection spares what is referred to

Collection takes segments from the front, so an object is whole or its first row
is gone (`Begun`).  A binding or a seal that names an object of the second kind is
not refused.  Along every run without one (`Spares`), what is referred to is whole,
and what has begun to go is neither found by a digest nor referred to
(`collection_spares`).
-/

namespace FutureOs
namespace Content

open Utf8

variable {codec : Codec}

/-! ## Objects -/

/-- Collection has taken the first row of the object. -/
def Object.Begun (o : Object) : Prop :=
  o.byteLength ≠ 0 ∧ ∀ row ∈ o.segments, row.1 ≠ 0

instance (o : Object) : Decidable o.Begun :=
  inferInstanceAs (Decidable (_ ∧ _))

/-- A body that is stored has its first row. -/
theorem Holds.not_begun
    {o : Object}
    {b : Body}
    (h : Holds codec o b) :
    ¬o.Begun := by
  rintro ⟨hlength, hrows⟩
  obtain ⟨pieces, hlaid, hsegments⟩ := h.laid
  cases pieces with
  | nil =>
      have htext : b.text = [] := hlaid.body.symm
      rw [h.byteLength, htext] at hlength
      exact hlength rfl
  | cons p pieces =>
      obtain ⟨hp, -⟩ := laid_cons_iff.1 hlaid
      have hmem : (p.1, storedBytes codec (decide (o.encoding = some .gzip)) p.2) ∈
          o.segments := by
        rw [hsegments]
        exact List.mem_cons_self
      exact hrows _ hmem hp

/-- Once a row is gone from the front of a body, the first row is gone. -/
theorem Holds.begun_drop
    {o : Object}
    {b : Body}
    (h : Holds codec o b)
    {n : Nat}
    (hn : n ≠ 0)
    (hleft : o.segments.drop n ≠ []) :
    ({ o with sha256 := none, segments := o.segments.drop n } : Object).Begun := by
  obtain ⟨pieces, hlaid, hsegments⟩ := h.laid
  have hpairwise := hlaid.rows_pairwise
    (storedBytes codec (decide (o.encoding = some .gzip)))
  rw [← hsegments] at hpairwise
  cases hrows : o.segments with
  | nil =>
      rw [hrows] at hleft
      simp at hleft
  | cons first rest =>
      rw [hrows] at hpairwise hsegments
      obtain ⟨n, rfl⟩ := Nat.exists_eq_succ_of_ne_zero hn
      constructor
      · have hin := hlaid.bounds _ (hsegments ▸ List.mem_cons_self)
        change o.byteLength ≠ 0
        rw [h.byteLength]
        omega
      · intro row hrow
        have hmem : row ∈ rest := List.mem_of_mem_drop hrow
        have hlt := (List.pairwise_cons.1 hpairwise).1 row hmem
        omega

theorem Object.Begun.drop
    {o : Object}
    (h : o.Begun)
    (n : Nat) :
    ({ o with sha256 := none, segments := o.segments.drop n } : Object).Begun :=
  ⟨h.1, fun row hrow => h.2 row (List.mem_of_mem_drop hrow)⟩

/-- Rows written past the front leave the front as it is. -/
theorem Object.Begun.writeSegments
    {o o' : Object}
    (h : o.Begun)
    {offset fuel written : Nat}
    {text : Text}
    (hoffset : offset ≠ 0)
    (hwrite : Store.writeSegments offset text fuel written o = .ok o') :
    o'.Begun ∧ o'.sha256 = o.sha256 := by
  induction fuel generalizing written o with
  | zero =>
      obtain rfl := Except.ok.inj hwrite
      exact ⟨h, rfl⟩
  | succ fuel ih =>
      unfold Store.writeSegments at hwrite
      split at hwrite
      · obtain ⟨o₁, hinsert, hrest⟩ := bind_eq_ok.1 hwrite
        unfold Object.insertSegment at hinsert
        obtain ⟨_, -, hinsert⟩ := bind_eq_ok.1 hinsert
        obtain ⟨_, -, hinsert⟩ := bind_eq_ok.1 hinsert
        have hbegun : o₁.Begun ∧ o₁.sha256 = o.sha256 := by
          obtain rfl := Except.ok.inj hinsert
          refine ⟨⟨h.1, fun row hrow => ?_⟩, rfl⟩
          rcases Fields.mem_insert hrow with heq | hold
          · rw [heq]
            change offset + written ≠ 0
            omega
          · exact h.2 row hold
        obtain ⟨hbegun', hsha⟩ := ih hbegun.1 hrest
        exact ⟨hbegun', hsha.trans hbegun.2⟩
      · obtain rfl := Except.ok.inj hwrite
        exact ⟨h, rfl⟩

/-- What `append` does to the store. -/
theorem append_cases
    {s s' : Store}
    {id : Nat}
    {offset : Int}
    {text : Text}
    {range : ContentRange}
    (h : s.append codec id offset text = .ok (s', range)) :
    s' = s ∨ ∃ o o', Fields.lookup id s = some o ∧ offset = o.byteLength ∧
      Store.writeSegments offset.toNat text (size text) 0 o = .ok o' ∧
      s' = Fields.insert id { o' with byteLength := (offset + size text).toNat } s := by
  unfold Store.append at h
  obtain ⟨_, -, h⟩ := bind_eq_ok.1 h
  obtain ⟨o, hobject, h⟩ := bind_eq_ok.1 h
  obtain ⟨finish, hfinish, h⟩ := bind_eq_ok.1 h
  have hlook := context_eq_ok.1 hobject
  obtain ⟨hsum, -⟩ := checkedAdd_eq_some.1 (context_eq_ok.1 hfinish)
  dsimp only at h
  split at h
  · obtain ⟨_, -, h⟩ := bind_eq_ok.1 h
    obtain ⟨_, -, h⟩ := bind_eq_ok.1 h
    obtain ⟨_, -, h⟩ := bind_eq_ok.1 h
    exact Or.inl (Prod.mk.inj (Except.ok.inj h)).1.symm
  · obtain ⟨_, hend, h⟩ := bind_eq_ok.1 h
    obtain ⟨o', hwrite, h⟩ := bind_eq_ok.1 h
    have hend := (ensure_eq_ok.1 hend).2
    refine Or.inr ⟨o, o', hlook, hend, hwrite, ?_⟩
    rw [hsum]
    exact (Prod.mk.inj (Except.ok.inj h)).1.symm

/-- What `seal` does to the store. -/
theorem sealBody_cases
    {s s' : Store}
    {id : Nat}
    {digest : ContentDigest}
    {range : ContentRange}
    (h : s.sealBody codec id digest = .ok (s', range)) :
    s' = s ∨ ∃ o, Fields.lookup id s = some o ∧
      s' = Fields.insert id { o with sha256 := some (digest.finish codec) } s := by
  unfold Store.sealBody at h
  obtain ⟨o, hobject, h⟩ := bind_eq_ok.1 h
  have hlook := context_eq_ok.1 hobject
  dsimp only at h
  split at h
  · exact Or.inr ⟨o, hlook, (Prod.mk.inj (Except.ok.inj h)).1.symm⟩
  · obtain ⟨_, -, h⟩ := bind_eq_ok.1 h
    exact Or.inl (Prod.mk.inj (Except.ok.inj h)).1.symm

/-- Every object is whole, or has begun to go and is not sealed. -/
structure Sound (codec : Codec) (s : Store) : Prop where
  sorted : Fields.Sorted s
  objects : ∀ id o, Fields.lookup id s = some o →
    (o.Begun ∧ o.isSealed = false) ∨ ∃ b, Holds codec o b

theorem Sound.stores
    {s : Store}
    (h : Sound codec s)
    {id : Nat}
    {o : Object}
    (hlook : Fields.lookup id s = some o)
    (hwhole : ¬o.Begun ∨ o.isSealed = true) :
    ∃ b, Stores codec s id b := by
  rcases h.objects id o hlook with ⟨hbegun, hopen⟩ | ⟨b, hholds⟩
  · rcases hwhole with hnot | hsealed
    · exact absurd hbegun hnot
    · rw [hopen] at hsealed
      cases hsealed
  · exact ⟨b, o, hlook, hholds⟩

/-- A store whose object `id` has changed to one that may be there. -/
theorem Sound.insert
    {s : Store}
    (h : Sound codec s)
    (id : Nat)
    {o : Object}
    (ho : (o.Begun ∧ o.isSealed = false) ∨ ∃ b, Holds codec o b) :
    Sound codec (Fields.insert id o s) where
  sorted := h.sorted.insert id o
  objects := by
    intro id' o' hlook
    rw [Fields.lookup_insert] at hlook
    split at hlook
    · obtain rfl := Option.some.inj hlook
      exact ho
    · exact h.objects id' o' hlook

theorem Sound.erase
    {s : Store}
    (h : Sound codec s)
    (id : Nat) :
    Sound codec (Fields.erase id s) where
  sorted := h.sorted.erase id
  objects := by
    intro id' o' hlook
    rw [Fields.lookup_erase] at hlook
    split at hlook
    · cases hlook
    · exact h.objects id' o' hlook

/-- No stored body is lost. -/
def KeepsBodies (codec : Codec) (s s' : Store) : Prop :=
  ∀ id b, Stores codec s id b → ∃ b', Stores codec s' id b'

theorem sound_create
    {s : Store}
    (h : Sound codec s) :
    Sound codec (s.create (Fields.nextKey s)) ∧
      KeepsBodies codec s (s.create (Fields.nextKey s)) := by
  have hnew : s.create (Fields.nextKey s) = Fields.insert (Fields.nextKey s) {} s := by
    unfold Store.create
    rw [Fields.lookup_nextKey]
  rw [hnew]
  refine ⟨h.insert _ (Or.inr ⟨{}, holds_new⟩), fun id b hstores => ?_⟩
  refine ⟨b, hstores.insert (fun heq => ?_) (fun _ => rfl)⟩
  obtain ⟨o, hlook, -⟩ := hstores
  rw [← heq, Fields.lookup_nextKey] at hlook
  cases hlook

theorem sound_append
    (hcodec : codec.Lossless)
    {s : Store}
    (h : Sound codec s)
    (id : Nat)
    (offset : Int)
    (text : Text) :
    Sound codec (commit s (s.append codec id offset text)).1 ∧
      KeepsBodies codec s (commit s (s.append codec id offset text)).1 := by
  have hkeeps : KeepsBodies codec s (commit s (s.append codec id offset text)).1 := by
    intro id' b hstores
    by_cases hid : id = id'
    · subst hid
      exact ⟨_, hstores.append hcodec offset text⟩
    · exact ⟨b, hstores.append_other hid offset text⟩
  refine ⟨?_, hkeeps⟩
  cases hrun : s.append codec id offset text with
  | error e =>
      exact h
  | ok result =>
      obtain ⟨s', range⟩ := result
      rw [hrun, commit_ok] at hkeeps
      rw [commit_ok]
      rcases append_cases hrun with rfl | ⟨o, o', hlook, hend, hwrite, rfl⟩
      · exact h
      · refine h.insert id ?_
        rcases h.objects id o hlook with ⟨hbegun, hopen⟩ | ⟨b, hholds⟩
        · have hpos : offset.toNat ≠ 0 := by
            have hlength := hbegun.1
            omega
          obtain ⟨hbegun', hsha⟩ := hbegun.writeSegments hpos hwrite
          refine Or.inl ⟨⟨?_, hbegun'.2⟩, ?_⟩
          · change (offset + size text).toNat ≠ 0
            omega
          · unfold Object.isSealed at hopen ⊢
            rw [hsha]
            exact hopen
        · obtain ⟨b', o₁, hlook₁, hholds₁⟩ := hkeeps id b ⟨o, hlook, hholds⟩
          rw [Fields.lookup_insert, if_pos rfl] at hlook₁
          obtain rfl := Option.some.inj hlook₁
          exact Or.inr ⟨b', hholds₁⟩

/-- Sealing a whole body. -/
theorem sound_sealBody
    {s s' : Store}
    (h : Sound codec s)
    {id : Nat}
    {digest : ContentDigest}
    {range : ContentRange}
    (hwhole : ∀ o, Fields.lookup id s = some o → ¬o.Begun)
    (hrun : s.sealBody codec id digest = .ok (s', range)) :
    Sound codec s' ∧ KeepsBodies codec s s' := by
  have hkeeps : KeepsBodies codec s s' := by
    intro id' b hstores
    have hnext := hstores.sealBody id digest
    rw [hrun, commit_ok] at hnext
    exact ⟨_, hnext⟩
  refine ⟨?_, hkeeps⟩
  rcases sealBody_cases hrun with rfl | ⟨o, hlook, rfl⟩
  · exact h
  · obtain ⟨b, o', hlook', hholds⟩ := h.stores hlook (Or.inl (hwhole o hlook))
    obtain rfl := Option.some.inj (hlook.symm.trans hlook')
    exact h.insert id (Or.inr ⟨_, hholds.sealBody _⟩)

/-! ## References -/

namespace Archive

theorem refers_iff {a : Archive} {id : Nat} :
    a.Refers id ↔
      (∃ row ∈ a.references, row.2.range.id = id) ∨
      (∃ row ∈ a.db.changes.rows, id ∈ changeIds row.2) ∨
      ∃ row ∈ a.db.streams.rows, ∃ owner ∈ row.2.owners.rows, owner.2.range.id = id := by
  unfold Refers referred streamContentRanges streamBodyOwners changeIds
  simp only [List.mem_append, List.mem_map, List.mem_flatMap, or_assoc]
  constructor
  · rintro (hrow | ⟨range, ⟨row, hrow, hrange⟩, rfl⟩ | ⟨range, ⟨row, hrow, owner, howner, rfl⟩, rfl⟩)
    · exact Or.inl hrow
    · exact Or.inr (Or.inl ⟨row, hrow, range, hrange, rfl⟩)
    · exact Or.inr (Or.inr ⟨row, hrow, owner, howner, rfl⟩)
  · rintro (hrow | ⟨row, hrow, range, hrange, rfl⟩ | ⟨row, hrow, owner, howner, rfl⟩)
    · exact Or.inl hrow
    · exact Or.inr (Or.inl ⟨range, ⟨row, hrow, hrange⟩, rfl⟩)
    · exact Or.inr (Or.inr ⟨_, ⟨row, hrow, owner, howner, rfl⟩, rfl⟩)

/-- Collection has begun on the object. -/
def Begun (a : Archive) (id : Nat) : Prop :=
  ∃ o ∈ Fields.lookup id a.db.objects, o.Begun

instance (a : Archive) (id : Nat) : Decidable (a.Begun id) := by
  unfold Begun
  infer_instance

/-- What is referred to is whole. -/
structure Kept (codec : Codec) (a : Archive) : Prop where
  sound : Sound codec a.db.objects
  covered : ∀ id, a.Refers id → ∃ b, Stores codec a.db.objects id b

/-- Rows may come that refer to whole objects, and rows may go. -/
theorem Kept.rows
    {a a' : Archive}
    (h : Kept codec a)
    (hobjects : a'.db.objects = a.db.objects)
    (hrefers : ∀ id, a'.Refers id → a.Refers id ∨ ∃ b, Stores codec a.db.objects id b) :
    Kept codec a' where
  sound := hobjects ▸ h.sound
  covered := by
    intro id hid
    rw [hobjects]
    rcases hrefers id hid with hold | hnew
    · exact h.covered id hold
    · exact hnew

/-- Objects may change as long as no stored body is lost. -/
theorem Kept.objects
    {a a' : Archive}
    (h : Kept codec a)
    (hobjects : Sound codec a'.db.objects ∧ KeepsBodies codec a.db.objects a'.db.objects)
    (hrefers : ∀ id, a'.Refers id → a.Refers id) :
    Kept codec a' where
  sound := hobjects.1
  covered := by
    intro id hid
    obtain ⟨b, hb⟩ := h.covered id (hrefers id hid)
    exact hobjects.2 id b hb

/-- An object that is there and has not begun to go is whole. -/
theorem Kept.stores
    {a : Archive}
    (h : Kept codec a)
    {id : Nat}
    (hlook : Fields.lookup id a.db.objects ≠ none)
    (hwhole : ¬a.Begun id) :
    ∃ b, Stores codec a.db.objects id b := by
  obtain ⟨o, ho⟩ := Option.ne_none_iff_exists'.1 hlook
  exact h.sound.stores ho (Or.inl fun hbegun => hwhole ⟨o, ho, hbegun⟩)

/-- What has begun to go is not referred to. -/
theorem Kept.not_refers
    {a : Archive}
    (h : Kept codec a)
    {id : Nat}
    (hbegun : a.Begun id) :
    ¬a.Refers id := by
  intro hid
  obtain ⟨b, o, hlook, hholds⟩ := h.covered id hid
  obtain ⟨o', hlook', hbegun⟩ := hbegun
  obtain rfl := Option.some.inj (hlook.symm.trans hlook')
  exact hholds.not_begun hbegun

/-- An object that is sealed is whole. -/
theorem Kept.sealed
    {a : Archive}
    (h : Kept codec a)
    {row : Nat × Object}
    (hrow : row ∈ a.db.objects)
    (hsealed : row.2.isSealed = true) :
    ∃ b, Stores codec a.db.objects row.1 b :=
  h.sound.stores (h.sound.sorted.lookup_of_mem hrow) (Or.inr hsealed)

theorem Kept.findSealed
    {a : Archive}
    (h : Kept codec a)
    {sha256 : String}
    {bytes : Int}
    {range : ContentRange}
    (hfound : a.findSealed sha256 bytes = some range) :
    ∃ b, Stores codec a.db.objects range.id b := by
  obtain ⟨row, hrow, rfl⟩ := Option.map_eq_some_iff.1 hfound
  have hmem := List.mem_of_find?_eq_some hrow
  have hp := List.find?_some hrow
  simp only [decide_eq_true_eq] at hp
  refine h.sealed hmem ?_
  unfold Object.isSealed
  rw [hp.1]
  rfl

theorem Kept.findJson
    {a : Archive}
    (h : Kept codec a)
    {sha256 : String}
    {range : ContentRange}
    (hfound : a.findJson sha256 = some range) :
    ∃ b, Stores codec a.db.objects range.id b := by
  obtain ⟨row, hrow, rfl⟩ := Option.map_eq_some_iff.1 hfound
  have hmem := List.mem_of_find?_eq_some hrow
  have hp := List.find?_some hrow
  simp only [decide_eq_true_eq] at hp
  exact h.sealed hmem hp.1

/-! ### Bindings -/

theorem Kept.bindEncoded
    {a a' : Archive}
    (h : Kept codec a)
    {key : ReferenceKey}
    {range : ContentRange}
    {encoding : Encoding}
    (hstores : ∃ b, Stores codec a.db.objects range.id b)
    (hrun : a.bindEncoded key range encoding = .ok a') :
    Kept codec a' := by
  unfold Archive.bindEncoded at hrun
  obtain ⟨_, -, hrun⟩ := bind_eq_ok.1 hrun
  obtain ⟨o, -, hrun⟩ := bind_eq_ok.1 hrun
  obtain ⟨finish, -, hrun⟩ := bind_eq_ok.1 hrun
  obtain ⟨_, -, hrun⟩ := bind_eq_ok.1 hrun
  split at hrun
  · obtain ⟨_, -, hrun⟩ := bind_eq_ok.1 hrun
    obtain rfl := Except.ok.inj hrun
    exact h
  · obtain ⟨_, -, hrun⟩ := bind_eq_ok.1 hrun
    obtain rfl := Except.ok.inj hrun
    refine h.rows rfl fun id hid => ?_
    rw [refers_iff] at hid ⊢
    rcases hid with ⟨row, hrow, rfl⟩ | hid
    · rcases List.mem_append.1 hrow with hold | hnew
      · exact Or.inl (Or.inl ⟨row, hold, rfl⟩)
      · rw [List.mem_singleton.1 hnew]
        exact Or.inr hstores
    · exact Or.inl (Or.inr hid)

theorem Kept.extendReference
    {a a' : Archive}
    (h : Kept codec a)
    {key : ReferenceKey}
    {body : Nat}
    {next : Int}
    (hrun : a.extendReference key body next = .ok a') :
    Kept codec a' := by
  unfold Archive.extendReference at hrun
  obtain ⟨_, -, hrun⟩ := bind_eq_ok.1 hrun
  obtain rfl := Except.ok.inj hrun
  refine h.rows rfl fun id hid => Or.inl ?_
  rw [refers_iff] at hid ⊢
  rcases hid with ⟨row, hrow, rfl⟩ | hid
  · obtain ⟨old, hold, rfl⟩ := List.mem_map.1 hrow
    refine Or.inl ⟨old, hold, ?_⟩
    split <;> rfl
  · exact Or.inr hid

/-- Writing an owner of a stream. -/
theorem refers_setOwner
    {a : Archive}
    {db : Database}
    (hstreams : db.streams = a.db.streams)
    (hchanges : db.changes = a.db.changes)
    {streamId keyId : Nat}
    {owner : OwnerRow}
    {id : Nat}
    (hid : (a.withDatabase (db.setOwner streamId keyId owner)).Refers id) :
    a.Refers id ∨ id = owner.range.id := by
  rw [refers_iff] at hid ⊢
  unfold withDatabase Database.setOwner at hid
  rw [hstreams] at hid
  cases hlook : a.db.streams.lookup streamId with
  | none =>
      rw [hlook] at hid
      simp only [hstreams, hchanges] at hid
      exact Or.inl hid
  | some stream =>
      rw [hlook] at hid
      simp only [hchanges] at hid
      rcases hid with hid | hid | ⟨row, hrow, old, hold, rfl⟩
      · exact Or.inl (Or.inl hid)
      · exact Or.inl (Or.inr (Or.inl hid))
      · have hstream := Table.mem_rows_iff.2 hlook
        rcases Fields.mem_insert hrow with rfl | hrow
        · rcases Fields.mem_insert hold with rfl | hold
          · exact Or.inr rfl
          · exact Or.inl (Or.inr (Or.inr ⟨_, hstream, old, hold, rfl⟩))
        · exact Or.inl (Or.inr (Or.inr ⟨row, hrow, old, hold, rfl⟩))

/-- Nothing but symbols has come. -/
theorem refers_of_same
    {a : Archive}
    {db : Database}
    (hstreams : db.streams = a.db.streams)
    (hchanges : db.changes = a.db.changes)
    {id : Nat}
    (hid : (a.withDatabase db).Refers id) :
    a.Refers id := by
  rw [refers_iff] at hid ⊢
  unfold withDatabase at hid
  simpa only [hstreams, hchanges] using hid

theorem Kept.bindOwner
    {pf : Platform}
    {a : Archive}
    (h : Kept codec a)
    {streamId : Nat}
    {key : String}
    {range : ContentRange}
    {encoding : Encoding}
    (hwhole : ¬a.Begun range.id)
    {db : Database}
    (hrun : a.db.bindOwner pf streamId key range encoding = .ok db) :
    Kept codec (a.withDatabase db) := by
  unfold Database.bindOwner at hrun
  obtain ⟨⟨db₁, keyId⟩, hintern, hrun⟩ := bind_eq_ok.1 hrun
  have hadds := (internValue_spec hintern).1
  have hobjects : db₁.objects = a.db.objects := by
    rw [hadds.rest]
  have hstreams : db₁.streams = a.db.streams := by
    rw [hadds.rest]
  have hchanges : db₁.changes = a.db.changes := by
    rw [hadds.rest]
  dsimp only at hrun
  split at hrun
  · obtain ⟨_, -, hrun⟩ := bind_eq_ok.1 hrun
    obtain rfl := Except.ok.inj hrun
    exact h.rows hobjects fun id hid => Or.inl (refers_of_same hstreams hchanges hid)
  · obtain ⟨_, -, hrun⟩ := bind_eq_ok.1 hrun
    obtain ⟨_, hadmits, hrun⟩ := bind_eq_ok.1 hrun
    obtain rfl := Except.ok.inj hrun
    have hadmits := (ensure_eq_ok.1 hadmits).1
    rw [hobjects] at hadmits
    refine h.rows ?_ fun id hid => ?_
    · unfold withDatabase Database.setOwner
      split <;> exact hobjects
    · rcases refers_setOwner hstreams hchanges hid with hold | rfl
      · exact Or.inl hold
      · exact Or.inr (h.stores hadmits hwhole)

theorem Kept.extendOwner
    {pf : Platform}
    {a : Archive}
    (h : Kept codec a)
    {streamId : Nat}
    {key : String}
    {body : Nat}
    {next : Int}
    {db : Database}
    (hrun : a.db.extendOwner pf streamId key body next = .ok db) :
    Kept codec (a.withDatabase db) := by
  unfold Database.extendOwner at hrun
  obtain ⟨keyId, -, hrun⟩ := bind_eq_ok.1 hrun
  obtain ⟨owner, howner, hrun⟩ := bind_eq_ok.1 hrun
  obtain ⟨_, -, hrun⟩ := bind_eq_ok.1 hrun
  obtain rfl := Except.ok.inj hrun
  have howner := (Option.filter_eq_some_iff.1 (context_eq_ok.1 howner)).1
  obtain ⟨stream, hstream, howner⟩ := Option.bind_eq_some_iff.1 howner
  have hold : a.Refers owner.range.id :=
    refers_iff.2 (Or.inr (Or.inr ⟨_, Table.mem_rows_iff.2 hstream, _,
      Table.mem_rows_iff.2 howner, rfl⟩))
  refine h.rows ?_ fun id hid => Or.inl ?_
  · unfold withDatabase Database.setOwner
    split <;> rfl
  · rcases refers_setOwner rfl rfl hid with hid | rfl
    · exact hid
    · exact hold

theorem Kept.publish
    {pf : Platform}
    {a : Archive}
    (h : Kept codec a)
    {streamId : Nat}
    {change : Change}
    {bodies : List FieldBody}
    (hwhole : ∀ body ∈ bodies, ¬a.Begun body.range.id)
    {db : Database}
    (hrun : Content.publish pf a.db streamId change bodies = .ok db) :
    Kept codec (a.withDatabase db) := by
  rcases publish_cases hrun with ⟨rfl, -⟩ | ⟨-, row, hrow, hadds⟩
  · exact h
  · have hobjects : db.objects = a.db.objects := by
      rw [hadds.rest]
    have hstreams : db.streams = a.db.streams := by
      rw [hadds.rest]
    refine h.rows hobjects fun id hid => ?_
    rw [refers_iff] at hid ⊢
    unfold withDatabase at hid
    simp only [hstreams, hadds.changes] at hid
    rcases hid with hid | ⟨entry, hentry, hid⟩ | hid
    · exact Or.inl (Or.inl hid)
    · rcases Fields.mem_insert hentry with rfl | hold
      · right
        obtain ⟨range, hrange, rfl⟩ := List.mem_map.1 hid
        rcases List.mem_append.1 hrange with hdirect | hlink
        · obtain ⟨hadmits, body, rfl, rfl⟩ := hrow.direct range (by simpa using hdirect)
          exact h.stores hadmits.1 (hwhole body List.mem_cons_self)
        · obtain ⟨link, hmem, rfl⟩ := List.mem_map.1 hlink
          obtain ⟨hadmits, body, hbody, rfl⟩ := hrow.links link hmem
          exact h.stores hadmits.1 (hwhole body hbody)
      · exact Or.inl (Or.inr (Or.inl ⟨entry, hold, hid⟩))
    · exact Or.inl (Or.inr (Or.inr hid))

/-! ### Releases -/

theorem Kept.releaseReference
    {a : Archive}
    (h : Kept codec a)
    (key : ReferenceKey) :
    Kept codec (a.releaseReference key) := by
  refine h.rows rfl fun id hid => Or.inl ?_
  rw [refers_iff] at hid ⊢
  rcases hid with ⟨row, hrow, rfl⟩ | hid
  · exact Or.inl ⟨row, List.mem_of_mem_filter hrow, rfl⟩
  · exact Or.inr hid

theorem Kept.releaseOwner
    {a : Archive}
    (h : Kept codec a)
    (streamId keyId : Nat) :
    Kept codec (a.releaseOwner streamId keyId) := by
  unfold Archive.releaseOwner
  split
  · exact h
  · rename_i stream hstream
    refine h.rows rfl fun id hid => Or.inl ?_
    rw [refers_iff] at hid ⊢
    rcases hid with hid | hid | ⟨row, hrow, owner, howner, rfl⟩
    · exact Or.inl hid
    · exact Or.inr (Or.inl hid)
    · refine Or.inr (Or.inr ?_)
      rcases Fields.mem_insert hrow with rfl | hrow
      · exact ⟨_, Table.mem_rows_iff.2 hstream, owner, List.mem_of_mem_filter howner, rfl⟩
      · exact ⟨row, hrow, owner, howner, rfl⟩

theorem Kept.releaseLink
    {a : Archive}
    (h : Kept codec a)
    (changeId : Nat)
    (field : String) :
    Kept codec (a.releaseLink changeId field) := by
  unfold Archive.releaseLink
  split
  · exact h
  · rename_i row hlook
    refine h.rows rfl fun id hid => Or.inl ?_
    rw [refers_iff] at hid ⊢
    rcases hid with hid | ⟨entry, hentry, hid⟩ | hid
    · exact Or.inl hid
    · refine Or.inr (Or.inl ?_)
      rcases Fields.mem_insert hentry with rfl | hold
      · refine ⟨_, Table.mem_rows_iff.2 hlook, ?_⟩
        obtain ⟨range, hrange, rfl⟩ := List.mem_map.1 hid
        refine List.mem_map_of_mem ?_
        rcases List.mem_append.1 hrange with hdirect | hlink
        · exact List.mem_append_left _ hdirect
        · obtain ⟨link, hmem, rfl⟩ := List.mem_map.1 hlink
          exact List.mem_append_right _
            (List.mem_map_of_mem (List.mem_of_mem_filter hmem))
      · exact ⟨entry, hold, hid⟩
    · exact Or.inr (Or.inr hid)

theorem Kept.releaseChange
    {a : Archive}
    (h : Kept codec a)
    (changeId : Nat) :
    Kept codec (a.releaseChange changeId) := by
  unfold Archive.releaseChange
  split
  · exact h
  · refine h.rows rfl fun id hid => Or.inl ?_
    rw [refers_iff] at hid ⊢
    rcases hid with hid | ⟨entry, hentry, hid⟩ | hid
    · exact Or.inl hid
    · exact Or.inr (Or.inl ⟨entry, List.mem_of_mem_filter hentry, hid⟩)
    · exact Or.inr (Or.inr hid)

theorem Kept.releaseStream
    {a : Archive}
    (h : Kept codec a)
    (streamId : Nat) :
    Kept codec (a.releaseStream streamId) := by
  unfold Archive.releaseStream
  split
  · exact h
  · refine h.rows rfl fun id hid => Or.inl ?_
    rw [refers_iff] at hid ⊢
    rcases hid with hid | ⟨entry, hentry, hid⟩ | ⟨row, hrow, howner⟩
    · exact Or.inl hid
    · exact Or.inr (Or.inl ⟨entry, List.mem_of_mem_filter hentry, hid⟩)
    · exact Or.inr (Or.inr ⟨row, List.mem_of_mem_filter hrow, howner⟩)

theorem Kept.openStream
    {a : Archive}
    (h : Kept codec a)
    {stream : StreamIdentity}
    {db : Database}
    {id : Nat}
    (hrun : a.db.streamId stream = .ok (db, id)) :
    Kept codec (a.withDatabase db) := by
  unfold Database.streamId at hrun
  obtain ⟨_, -, hrun⟩ := bind_eq_ok.1 hrun
  obtain ⟨_, -, hrun⟩ := bind_eq_ok.1 hrun
  obtain ⟨rfl, -⟩ := Prod.mk.inj (Except.ok.inj hrun)
  split
  · exact h
  · refine h.rows rfl fun id hid => Or.inl ?_
    rw [refers_iff] at hid ⊢
    rcases hid with hid | hid | ⟨row, hrow, owner, howner, rfl⟩
    · exact Or.inl hid
    · exact Or.inr (Or.inl hid)
    · rcases Fields.mem_insert hrow with rfl | hrow
      · simp [Table.empty] at howner
      · exact Or.inr (Or.inr ⟨row, hrow, owner, howner, rfl⟩)

/-! ### Collection -/

/-- Taking rows from an object that nobody refers to. -/
theorem Kept.collectOne
    {a : Archive}
    (h : Kept codec a)
    (remainingSegments deleted id : Nat) :
    Kept codec (Archive.collectOne a remainingSegments deleted id).1 := by
  unfold Archive.collectOne
  cases hlook : Fields.lookup id a.db.objects with
  | none =>
      exact h
  | some o =>
      dsimp only
      by_cases hrefers : (a.enqueue [id]).Refers id
      · rw [if_pos hrefers]
        exact h.rows rfl fun id' hid => Or.inl hid
      · rw [if_neg hrefers]
        have hunowned : ∀ id', a.Refers id' → id' ≠ id := by
          rintro id' hid' rfl
          exact hrefers hid'
        by_cases hbudget : remainingSegments = 0
        · rw [if_pos hbudget]
          exact h.rows rfl fun id' hid => Or.inl hid
        · rw [if_neg hbudget]
          by_cases hleft : o.segments.drop remainingSegments = []
          · rw [if_pos hleft]
            refine ⟨h.sound.erase id, fun id' hid => ?_⟩
            obtain ⟨b, o', hlook', hholds⟩ := h.covered id' hid
            refine ⟨b, o', ?_, hholds⟩
            change Fields.lookup id' (Fields.erase id a.db.objects) = some o'
            rw [Fields.lookup_erase, if_neg (hunowned id' hid), hlook']
          · rw [if_neg hleft]
            constructor
            · refine h.sound.insert id (Or.inl ⟨?_, rfl⟩)
              rcases h.sound.objects id o hlook with ⟨hbegun, -⟩ | ⟨b, hholds⟩
              · exact hbegun.drop remainingSegments
              · exact hholds.begun_drop hbudget hleft
            · intro id' hid
              obtain ⟨b, hb⟩ := h.covered id' hid
              exact ⟨b, hb.insert (fun heq => absurd heq.symm (hunowned id' hid))
                (fun _ => rfl)⟩

theorem Kept.collectAll
    {a : Archive}
    (h : Kept codec a)
    (candidates : List Nat)
    (remainingSegments deleted : Nat) :
    Kept codec (Archive.collectAll candidates a remainingSegments deleted).1 := by
  induction candidates generalizing a remainingSegments deleted with
  | nil =>
      exact h
  | cons id candidates ih =>
      exact ih (h.collectOne remainingSegments deleted id) _ _

theorem Kept.collect
    {a a' : Archive}
    (h : Kept codec a)
    {candidates : List Nat}
    {deleted : Nat}
    (hrun : a.collect candidates = .ok (a', deleted)) :
    Kept codec a' := by
  unfold Archive.collect at hrun
  obtain ⟨_, -, hrun⟩ := bind_eq_ok.1 hrun
  have hkept := h.collectAll candidates 4 0
  rw [Except.ok.inj hrun] at hkept
  exact hkept

/-! ### Steps -/

/-- The objects an operation names as bodies to refer to or to seal. -/
def names : ArchiveOp → List Nat
  | .sealBody id _ => [id]
  | .sealJson id _ _ => [id]
  | .bind _ range _ => [range.id]
  | .bindOwner _ _ range _ => [range.id]
  | .publish _ _ bodies => bodies.map fun body => body.range.id
  | _ => []

/-- No object the operation names has begun to go. -/
def Spares (a : Archive) (op : ArchiveOp) : Prop :=
  ∀ id ∈ names op, ¬a.Begun id

instance (a : Archive) (op : ArchiveOp) : Decidable (Spares a op) := by
  unfold Spares
  infer_instance

/-- A transaction keeps what it keeps when it succeeds. -/
theorem Kept.orKeep
    {a : Archive}
    (h : Kept codec a)
    {result : Except String Archive}
    (hok : ∀ a', result = .ok a' → Kept codec a') :
    Kept codec (a.orKeep result) := by
  cases result with
  | error e =>
      exact h
  | ok a' =>
      exact hok a' rfl

theorem Kept.sealBody
    {a : Archive}
    (h : Kept codec a)
    {id : Nat}
    {digest : ContentDigest}
    (hwhole : ¬a.Begun id)
    {objects : Store}
    {range : ContentRange}
    (hrun : a.db.objects.sealBody codec id digest = .ok (objects, range)) :
    Kept codec (a.withObjects objects) :=
  h.objects (sound_sealBody h.sound
    (fun o hlook hbegun => hwhole ⟨o, hlook, hbegun⟩) hrun) fun _ hid => hid

theorem Kept.step
    (hcodec : codec.Lossless)
    {pf : Platform}
    {a : Archive}
    (h : Kept codec a)
    {op : ArchiveOp}
    (hspares : Spares a op) :
    Kept codec (a.step codec pf op) := by
  have hnamed : ∀ id, id ∈ names op → ¬a.Begun id := hspares
  cases op with
  | create =>
      exact h.objects (sound_create h.sound) fun _ hid => hid
  | append id offset text =>
      exact h.objects (sound_append hcodec h.sound id offset text) fun _ hid => hid
  | sealBody id digest =>
      rw [Archive.step]
      cases hrun : a.db.objects.sealBody codec id digest with
      | error e => exact h
      | ok result =>
          exact h.sealBody (hnamed id List.mem_cons_self) hrun
  | sealJson id raw canonical =>
      refine h.orKeep fun a' hrun => ?_
      unfold Archive.sealJson at hrun
      obtain ⟨⟨objects, range⟩, hseal, hrun⟩ := bind_eq_ok.1 hrun
      have hkept := h.sealBody (hnamed id List.mem_cons_self) hseal
      dsimp only at hrun
      split at hrun
      · obtain ⟨_, -, hrun⟩ := bind_eq_ok.1 hrun
        obtain rfl := Except.ok.inj hrun
        exact hkept
      · obtain rfl := Except.ok.inj hrun
        exact hkept.rows rfl fun _ hid => Or.inl hid
  | bind key range encoding =>
      refine h.orKeep fun a' hrun => h.bindEncoded ?_ hrun
      unfold Archive.bindEncoded at hrun
      obtain ⟨_, -, hrun⟩ := bind_eq_ok.1 hrun
      obtain ⟨o, hobject, -⟩ := bind_eq_ok.1 hrun
      refine h.stores ?_ (hnamed range.id List.mem_cons_self)
      rw [context_eq_ok.1 hobject]
      simp
  | extend key body next =>
      exact h.orKeep fun a' hrun => h.extendReference hrun
  | reuse key sha256 bytes encoding =>
      rw [Archive.step]
      split
      · rename_i range hfound
        exact h.orKeep fun a' hrun => h.bindEncoded (h.findSealed hfound) hrun
      · exact h
  | reuseJson key sha256 encoding =>
      rw [Archive.step]
      split
      · rename_i range hfound
        exact h.orKeep fun a' hrun => h.bindEncoded (h.findJson hfound) hrun
      · exact h
  | release key =>
      exact h.releaseReference key
  | openStream stream =>
      rw [Archive.step]
      cases hrun : a.db.streamId stream with
      | error e => exact h
      | ok result => exact h.openStream hrun
  | bindOwner streamId key range encoding =>
      rw [Archive.step]
      cases hrun : a.db.bindOwner pf streamId key range encoding with
      | error e => exact h
      | ok db => exact h.bindOwner (hnamed range.id List.mem_cons_self) hrun
  | extendOwner streamId key body next =>
      rw [Archive.step]
      cases hrun : a.db.extendOwner pf streamId key body next with
      | error e => exact h
      | ok db => exact h.extendOwner hrun
  | publish streamId change bodies =>
      rw [Archive.step]
      cases hrun : Content.publish pf a.db streamId change bodies with
      | error e => exact h
      | ok db =>
          exact h.publish (fun body hbody => hnamed _ (List.mem_map_of_mem hbody)) hrun
  | releaseOwner streamId keyId =>
      exact h.releaseOwner streamId keyId
  | releaseLink changeId field =>
      exact h.releaseLink changeId field
  | releaseChange changeId =>
      exact h.releaseChange changeId
  | releaseStream streamId =>
      exact h.releaseStream streamId
  | collect candidates =>
      rw [Archive.step]
      cases hrun : a.collect candidates with
      | error e => exact h
      | ok result => exact h.collect hrun
  | reclaim =>
      rw [Archive.step]
      cases hrun : a.collect (a.collection.take 16) with
      | error e => exact h
      | ok result => exact h.collect hrun

/-! ### Objects that have begun to go -/

/-- The object has begun to go, or is gone. -/
def Going (s : Store) (id : Nat) : Prop :=
  ∀ o, Fields.lookup id s = some o → o.Begun

theorem Going.insert
    {s : Store}
    {id : Nat}
    (h : Going s id)
    {id' : Nat}
    {o' : Object}
    (ho : id = id' → o'.Begun) :
    Going (Fields.insert id' o' s) id := by
  intro o hlook
  rw [Fields.lookup_insert] at hlook
  split at hlook
  · rename_i hid
    obtain rfl := Option.some.inj hlook
    exact ho hid
  · exact h o hlook

/-- An object that has begun to go is not completed by a later append. -/
theorem going_append
    {s : Store}
    {id : Nat}
    (h : Going s id)
    (id' : Nat)
    (offset : Int)
    (text : Text) :
    Going (commit s (s.append codec id' offset text)).1 id := by
  cases hrun : s.append codec id' offset text with
  | error e =>
      exact h
  | ok result =>
      obtain ⟨s', range⟩ := result
      rw [commit_ok]
      rcases append_cases hrun with rfl | ⟨o, o', hlook, hend, hwrite, rfl⟩
      · exact h
      · refine h.insert fun hid => ?_
        subst hid
        have hbegun := h o hlook
        have hlength := hbegun.1
        obtain ⟨hbegun', -⟩ := hbegun.writeSegments (by omega) hwrite
        refine ⟨?_, hbegun'.2⟩
        change (offset + size text).toNat ≠ 0
        omega

theorem going_sealBody
    {s s' : Store}
    {id : Nat}
    (h : Going s id)
    {id' : Nat}
    {digest : ContentDigest}
    {range : ContentRange}
    (hrun : s.sealBody codec id' digest = .ok (s', range)) :
    Going s' id := by
  rcases sealBody_cases hrun with rfl | ⟨o, hlook, rfl⟩
  · exact h
  · refine h.insert fun hid => ?_
    subst hid
    exact h o hlook

theorem going_collectOne
    {a : Archive}
    {id : Nat}
    (h : Going a.db.objects id)
    (remainingSegments deleted id' : Nat) :
    Going (Archive.collectOne a remainingSegments deleted id').1.db.objects id := by
  unfold Archive.collectOne
  cases hlook : Fields.lookup id' a.db.objects with
  | none =>
      exact h
  | some o =>
      dsimp only
      split
      · exact h
      · split
        · exact h
        · split
          · intro o' hlook'
            change Fields.lookup id (Fields.erase id' a.db.objects) = some o' at hlook'
            rw [Fields.lookup_erase] at hlook'
            split at hlook'
            · cases hlook'
            · exact h o' hlook'
          · refine Going.insert h fun hid => ?_
            subst hid
            exact (h o hlook).drop remainingSegments

theorem going_collectAll
    {a : Archive}
    {id : Nat}
    (h : Going a.db.objects id)
    (candidates : List Nat)
    (remainingSegments deleted : Nat) :
    Going (Archive.collectAll candidates a remainingSegments deleted).1.db.objects id := by
  induction candidates generalizing a remainingSegments deleted with
  | nil =>
      exact h
  | cons id' candidates ih =>
      exact ih (going_collectOne h remainingSegments deleted id') _ _

theorem going_collect
    {a : Archive}
    {id : Nat}
    (h : Going a.db.objects id)
    (candidates : List Nat) :
    Going (a.orKeep ((a.collect candidates).map Prod.fst)).db.objects id := by
  unfold Archive.collect
  rw [ensure_bind]
  split
  · exact going_collectAll h candidates 4 0
  · exact h

/-- Binding, publishing and releasing leave the objects alone. -/
theorem withDatabase_objects
    (a : Archive)
    (result : Except String Database)
    (hok : ∀ db, result = .ok db → db.objects = a.db.objects) :
    (a.orKeep (result.map a.withDatabase)).db.objects = a.db.objects := by
  cases result with
  | error e =>
      rfl
  | ok db =>
      exact hok db rfl

theorem bindEncoded_objects
    (a : Archive)
    (key : ReferenceKey)
    (range : ContentRange)
    (encoding : Encoding) :
    (a.orKeep (a.bindEncoded key range encoding)).db.objects = a.db.objects := by
  cases hrun : a.bindEncoded key range encoding with
  | error e =>
      rfl
  | ok a' =>
      unfold Archive.bindEncoded at hrun
      obtain ⟨_, -, hrun⟩ := bind_eq_ok.1 hrun
      obtain ⟨_, -, hrun⟩ := bind_eq_ok.1 hrun
      obtain ⟨_, -, hrun⟩ := bind_eq_ok.1 hrun
      obtain ⟨_, -, hrun⟩ := bind_eq_ok.1 hrun
      split at hrun
      · obtain ⟨_, -, hrun⟩ := bind_eq_ok.1 hrun
        obtain rfl := Except.ok.inj hrun
        rfl
      · obtain ⟨_, -, hrun⟩ := bind_eq_ok.1 hrun
        obtain rfl := Except.ok.inj hrun
        rfl

theorem setOwner_objects
    (db : Database)
    (streamId keyId : Nat)
    (owner : OwnerRow) :
    (db.setOwner streamId keyId owner).objects = db.objects := by
  unfold Database.setOwner
  split <;> rfl

theorem streamId_objects
    {db : Database}
    {stream : StreamIdentity}
    {result : Database × Nat}
    (h : db.streamId stream = .ok result) :
    result.1.objects = db.objects := by
  unfold Database.streamId at h
  obtain ⟨_, -, h⟩ := bind_eq_ok.1 h
  obtain ⟨_, -, h⟩ := bind_eq_ok.1 h
  obtain rfl := Except.ok.inj h
  split <;> rfl

/-- An object that has begun to go never comes back. -/
theorem going_step
    (codec : Codec)
    (pf : Platform)
    {a : Archive}
    {id : Nat}
    (hthere : a.Begun id)
    (op : ArchiveOp) :
    Going (a.step codec pf op).db.objects id := by
  have h : Going a.db.objects id := by
    obtain ⟨o, hlook, hbegun⟩ := hthere
    intro o' hlook'
    obtain rfl := Option.some.inj (hlook.symm.trans hlook')
    exact hbegun
  have hsame : ∀ a' : Archive, a'.db.objects = a.db.objects → Going a'.db.objects id := by
    intro a' hobjects
    rw [hobjects]
    exact h
  cases op with
  | create =>
      obtain ⟨o, hlook, -⟩ := hthere
      have hnew : a.db.objects.create (Fields.nextKey a.db.objects) =
          Fields.insert (Fields.nextKey a.db.objects) {} a.db.objects := by
        unfold Store.create
        rw [Fields.lookup_nextKey]
      change Going (a.db.objects.create (Fields.nextKey a.db.objects)) id
      rw [hnew]
      refine h.insert fun hid => ?_
      rw [hid] at hlook
      exact absurd (Fields.lookup_nextKey a.db.objects) (by rw [hlook]; simp)
  | append id' offset text =>
      exact going_append h id' offset text
  | sealBody id' digest =>
      rw [Archive.step]
      cases hrun : a.db.objects.sealBody codec id' digest with
      | error e => exact h
      | ok result => exact going_sealBody h hrun
  | sealJson id' raw canonical =>
      rw [Archive.step]
      cases hrun : a.sealJson codec id' raw canonical with
      | error e => exact h
      | ok a' =>
          unfold Archive.sealJson at hrun
          obtain ⟨⟨objects, range⟩, hseal, hrun⟩ := bind_eq_ok.1 hrun
          have hgoing := going_sealBody h hseal
          dsimp only at hrun
          split at hrun
          · obtain ⟨_, -, hrun⟩ := bind_eq_ok.1 hrun
            obtain rfl := Except.ok.inj hrun
            exact hgoing
          · obtain rfl := Except.ok.inj hrun
            exact hgoing
  | bind key range encoding =>
      exact hsame _ (bindEncoded_objects a key range encoding)
  | extend key body next =>
      rw [Archive.step, Archive.extendReference, ensure_bind]
      split <;> exact h
  | reuse key sha256 bytes encoding =>
      rw [Archive.step]
      split
      · exact hsame _ (bindEncoded_objects a key _ encoding)
      · exact h
  | reuseJson key sha256 encoding =>
      rw [Archive.step]
      split
      · exact hsame _ (bindEncoded_objects a key _ encoding)
      · exact h
  | release key =>
      exact h
  | openStream stream =>
      rw [Archive.step]
      cases hrun : a.db.streamId stream with
      | error e => exact h
      | ok result => exact hsame _ (streamId_objects hrun)
  | bindOwner streamId key range encoding =>
      refine hsame _ (withDatabase_objects a _ fun db hrun => ?_)
      unfold Database.bindOwner at hrun
      obtain ⟨⟨db₁, keyId⟩, hintern, hrun⟩ := bind_eq_ok.1 hrun
      have hobjects : db₁.objects = a.db.objects := by
        rw [(internValue_spec hintern).1.rest]
      dsimp only at hrun
      split at hrun
      · obtain ⟨_, -, hrun⟩ := bind_eq_ok.1 hrun
        obtain rfl := Except.ok.inj hrun
        exact hobjects
      · obtain ⟨_, -, hrun⟩ := bind_eq_ok.1 hrun
        obtain ⟨_, -, hrun⟩ := bind_eq_ok.1 hrun
        obtain rfl := Except.ok.inj hrun
        rw [setOwner_objects, hobjects]
  | extendOwner streamId key body next =>
      refine hsame _ (withDatabase_objects a _ fun db hrun => ?_)
      unfold Database.extendOwner at hrun
      obtain ⟨_, -, hrun⟩ := bind_eq_ok.1 hrun
      obtain ⟨_, -, hrun⟩ := bind_eq_ok.1 hrun
      obtain ⟨_, -, hrun⟩ := bind_eq_ok.1 hrun
      obtain rfl := Except.ok.inj hrun
      rw [setOwner_objects]
  | publish streamId change bodies =>
      refine hsame _ (withDatabase_objects a _ fun db hrun => ?_)
      rcases publish_cases hrun with ⟨rfl, -⟩ | ⟨-, row, -, hadds⟩
      · rfl
      · rw [hadds.rest]
  | releaseOwner streamId keyId =>
      rw [Archive.step, Archive.releaseOwner]
      split <;> exact h
  | releaseLink changeId field =>
      rw [Archive.step, Archive.releaseLink]
      split <;> exact h
  | releaseChange changeId =>
      rw [Archive.step, Archive.releaseChange]
      split <;> exact h
  | releaseStream streamId =>
      rw [Archive.step, Archive.releaseStream]
      split <;> exact h
  | collect candidates =>
      exact going_collect h candidates
  | reclaim =>
      exact going_collect h (a.collection.take 16)

/-! ### Runs -/

/-- No referred body is damaged, and none that is going is found or referred to. -/
structure Safe (codec : Codec) (a : Archive) : Prop where
  covered : ∀ id, a.Refers id → ∃ b, Stores codec a.db.objects id b
  unreferred : ∀ id, a.Begun id → ¬a.Refers id
  unfound : ∀ id, a.Begun id →
    (∀ sha256 bytes range, a.findSealed sha256 bytes = some range → range.id ≠ id) ∧
      ∀ sha256 range, a.findJson sha256 = some range → range.id ≠ id

theorem Kept.safe {a : Archive} (h : Kept codec a) : Safe codec a where
  covered := h.covered
  unreferred := fun _ => h.not_refers
  unfound := by
    intro id hbegun
    have hwhole : ∀ range : ContentRange,
        (∃ b, Stores codec a.db.objects range.id b) → range.id ≠ id := by
      rintro range ⟨b, o, hlook, hholds⟩ rfl
      obtain ⟨o', hlook', hbegun⟩ := hbegun
      obtain rfl := Option.some.inj (hlook.symm.trans hlook')
      exact hholds.not_begun hbegun
    exact ⟨fun _ _ range hfound => hwhole range (h.findSealed hfound),
      fun _ range hfound => hwhole range (h.findJson hfound)⟩

theorem kept_fresh (codec : Codec) (segmented : List String) :
    Kept codec (fresh segmented) where
  sound := ⟨Fields.sorted_nil, fun id o hlook => by simp [fresh] at hlook⟩
  covered := by
    intro id hid
    rw [refers_iff] at hid
    simp [fresh, Table.empty] at hid

theorem Kept.run
    (hcodec : codec.Lossless)
    {pf : Platform}
    {a : Archive}
    (h : Kept codec a)
    {ops : List ArchiveOp}
    (hspares : Machine.Guarded (Archive.step codec pf) Spares a ops) :
    Kept codec (Machine.run (Archive.step codec pf) a ops) :=
  hspares.invariant (I := Kept codec) (fun _ _ hkept => hkept.step hcodec) h

/--
Along every run that names no object whose collection has begun: what is referred
to is whole, and what has begun to go is neither found nor referred to, and goes on
going until it is gone.
-/
theorem collection_spares
    (codec : Codec)
    (hcodec : codec.Lossless)
    (pf : Platform)
    (segmented : List String)
    (ops : List ArchiveOp)
    (hspares : Machine.Guarded (Archive.step codec pf) Spares (fresh segmented) ops)
    (k : Nat) :
    Safe codec (Machine.run (Archive.step codec pf) (fresh segmented) (ops.take k)) ∧
    ∀ id op, ops[k]? = some op →
      (Machine.run (Archive.step codec pf) (fresh segmented) (ops.take k)).Begun id →
      Going (Machine.run (Archive.step codec pf) (fresh segmented)
        (ops.take (k + 1))).db.objects id := by
  constructor
  · rw [← List.take_append_drop k ops, Machine.guarded_append] at hspares
    exact ((kept_fresh codec segmented).run hcodec hspares.1).safe
  · intro id op hop hbegun
    have hnext : ops.take (k + 1) = ops.take k ++ [op] := by
      rw [List.take_add_one, hop]
      rfl
    rw [hnext, Machine.run_concat]
    exact going_step codec pf hbegun op

/-- The codec, with SHA-256 at the text `abcde`. -/
def fiveCodec : Codec :=
  { letterCodec with
    sha256 := fun _ => "36bbe50ed96841d10443bcb670d6554f0a34b761be67ec9c4a8ad2c0c44ca42c" }

/-- A text field of an entry. -/
def entryKey (entry : String) : ReferenceKey where
  sessionId := "s"
  ownerKind := "entry"
  ownerId := entry
  field := "/content/0/text"

/-- The text `abcde` is staged for entry `e`, one segment a letter. -/
def stagedCalls : List ArchiveOp :=
  [.create, .bind (entryKey "e") { id := 1, offset := 0, length := 0 } .text,
    .append 1 0 ['a'], .append 1 1 ['b'], .append 1 2 ['c'], .append 1 3 ['d'],
    .append 1 4 ['e'], .extend (entryKey "e") 1 5]

def fiveDigest : ContentDigest where
  hash := [97, 98, 99, 100, 101]
  bytes := 5

/-- Entry `f` shares the sealed text, and `e` goes; then `f` goes and it is collected. -/
def sharedCalls : List ArchiveOp :=
  stagedCalls ++
    [.sealBody 1 fiveDigest,
      .reuse (entryKey "f") (fiveDigest.finish fiveCodec) 5 .text,
      .release (entryKey "e"), .reclaim, .release (entryKey "f"), .reclaim, .reclaim]

theorem collection_spares_shared :
    Safe fiveCodec (Machine.run (Archive.step fiveCodec chunkPlatform)
      (fresh ["s"]) sharedCalls) := by
  have h := (collection_spares fiveCodec letterCodec_lossless chunkPlatform ["s"] sharedCalls
    (by decide +kernel) sharedCalls.length).1
  rwa [List.take_length] at h

/--
The owner of a staged body goes, collection takes four of its five segments, and
only then is the body sealed: its digest is found, and the next entry refers to
what is left.
-/
def revivedCalls : List ArchiveOp :=
  stagedCalls ++
    [.release (entryKey "e"), .reclaim, .sealBody 1 fiveDigest,
      .reuse (entryKey "f") (fiveDigest.finish fiveCodec) 5 .text]

theorem seal_revives :
    ¬Safe fiveCodec (Machine.run (Archive.step fiveCodec chunkPlatform) (fresh ["s"])
      revivedCalls) := by
  intro h
  have hbegun : (Machine.run (Archive.step fiveCodec chunkPlatform) (fresh ["s"])
      revivedCalls).Begun 1 := by
    decide +kernel
  exact h.unreferred 1 hbegun (by decide +kernel)

end Archive

end Content
end FutureOs
