import FutureOs.Content.CompactRoundTrip

/-!
# Interned identifiers

`intern` moves the identifiers of a descriptor into the symbols of the stream and
`restore` brings them back, byte for byte (`restore_intern`).  On the way the
database gains symbols and nothing else (`AddsSymbols`).
-/

namespace FutureOs
namespace Content

/-- More symbols, and no other difference. -/
structure AddsSymbols (db db' : Database) : Prop where
  rest : db' = { db with symbols := db'.symbols }
  keeps : ∀ id row, db.symbols.lookup id = some row →
    db'.symbols.lookup id = some row

theorem AddsSymbols.refl (db : Database) : AddsSymbols db db where
  rest := rfl
  keeps := fun _ _ h => h

theorem AddsSymbols.trans
    {db₁ db₂ db₃ : Database}
    (h : AddsSymbols db₁ db₂)
    (h' : AddsSymbols db₂ db₃) :
    AddsSymbols db₁ db₃ where
  rest := by
    have hrest := h'.rest
    rw [h.rest] at hrest
    exact hrest
  keeps := fun id row hlook => h'.keeps id row (h.keeps id row hlook)

/-- The symbol is there, as itself or as a new row. -/
theorem internValue_spec
    {pf : Platform}
    {db db' : Database}
    {streamId id : Nat}
    {value : String}
    (h : internValue pf db streamId value = .ok (db', id)) :
    AddsSymbols db db' ∧ db'.symbols.lookup id =
      some { streamId := streamId, value := StoredIdentity.key pf value } := by
  unfold internValue at h
  obtain ⟨_, -, h⟩ := bind_eq_ok.1 h
  dsimp only at h
  split at h
  · rename_i row hfound
    obtain ⟨hlook, hrow⟩ := Table.find?_eq_some hfound
    simp only [decide_eq_true_eq] at hrow
    cases h
    refine ⟨AddsSymbols.refl db, ?_⟩
    rw [hlook, ← hrow.1, ← hrow.2]
  · cases h
    exact ⟨⟨rfl, fun _ _ hlook => Table.lookup_insert_nextId hlook _⟩,
      Table.lookup_insert_self _ _ _⟩

/-! ### The loop over the fields -/

/-- A reference to the symbol of a text. -/
def Resolves (pf : Platform) (db : Database) (streamId : Nat) (ref : Json)
    (value : String) : Prop :=
  ∃ id, ref = .num (.posInt id) ∧ db.symbols.lookup id =
    some { streamId := streamId, value := StoredIdentity.key pf value }

theorem Resolves.mono
    {pf : Platform}
    {db db' : Database}
    {streamId : Nat}
    {ref : Json}
    {value : String}
    (h : Resolves pf db streamId ref value)
    (hadds : AddsSymbols db db') :
    Resolves pf db' streamId ref value := by
  obtain ⟨id, href, hlook⟩ := h
  exact ⟨id, href, hadds.keeps id _ hlook⟩

/-- Bytes of the text a reference stands for. -/
def refBytes (pf : Platform) (db : Database) (ref : Json) : Nat :=
  match (referenceId ref).bind db.symbols.lookup with
  | some row => strLen (row.value.wire pf)
  | none => 0

theorem Resolves.refBytes_eq
    {pf : Platform}
    {db : Database}
    {streamId : Nat}
    {ref : Json}
    {value : String}
    (h : Resolves pf db streamId ref value) :
    refBytes pf db ref = strLen value := by
  obtain ⟨id, rfl, hlook⟩ := h
  have hrow : (referenceId (.num (.posInt id))).bind db.symbols.lookup = _ := hlook
  rw [refBytes, hrow]
  exact congrArg strLen (StoredIdentity.wire_key pf value)

def refsBytes (pf : Platform) (db : Database) (symbols : List (String × Json)) : Nat :=
  (symbols.map fun ref => refBytes pf db ref.2).sum

/-- `data` and `symbols` are what `before` has become. -/
structure Interned (pf : Platform) (db : Database) (streamId : Nat)
    (before data symbols : List (String × Json)) : Prop where
  sortedData : Fields.Sorted data
  sortedSymbols : Fields.Sorted symbols
  kept : ∀ key, Fields.lookup key symbols = none →
    Fields.lookup key data = Fields.lookup key before
  moved : ∀ key ref, Fields.lookup key symbols = some ref →
    key ∈ symbolFields ∧ Fields.lookup key data = none ∧
      ∃ value, Fields.lookup key before = some (.str value) ∧
        Resolves pf db streamId ref value

theorem interned_nil
    (pf : Platform)
    (db : Database)
    (streamId : Nat)
    {data : List (String × Json)}
    (h : Fields.Sorted data) :
    Interned pf db streamId data data [] where
  sortedData := h
  sortedSymbols := Fields.sorted_nil
  kept := fun _ _ => rfl
  moved := fun _ _ h => nomatch h

section Interned

variable {pf : Platform}
variable {db db' : Database}
variable {streamId : Nat}
variable {before data symbols : List (String × Json)}

theorem Interned.mono
    (h : Interned pf db streamId before data symbols)
    (hadds : AddsSymbols db db') :
    Interned pf db' streamId before data symbols where
  sortedData := h.sortedData
  sortedSymbols := h.sortedSymbols
  kept := h.kept
  moved := by
    intro key ref href
    obtain ⟨hmem, hnone, value, hvalue, hres⟩ := h.moved key ref href
    exact ⟨hmem, hnone, value, hvalue, hres.mono hadds⟩

/-- One more field moves. -/
theorem Interned.move
    (h : Interned pf db streamId before data symbols)
    {field value : String}
    (hfield : field ∈ symbolFields)
    (hdata : Fields.lookup field data = some (.str value))
    {ref : Json}
    (hres : Resolves pf db streamId ref value) :
    Fields.lookup field symbols = none ∧
      Interned pf db streamId before (Fields.erase field data)
        (Fields.insert field ref symbols) := by
  have hnew : Fields.lookup field symbols = none := by
    by_contra hne
    obtain ⟨old, hold⟩ := Option.ne_none_iff_exists'.1 hne
    have hgone := (h.moved field old hold).2.1
    rw [hdata] at hgone
    cases hgone
  refine ⟨hnew, ⟨h.sortedData.erase field, h.sortedSymbols.insert field ref, ?_, ?_⟩⟩
  · intro key hkey
    rw [Fields.lookup_insert] at hkey
    rw [Fields.lookup_erase]
    split at hkey
    · cases hkey
    · rename_i hne
      rw [if_neg hne]
      exact h.kept key hkey
  · intro key found hkey
    rw [Fields.lookup_insert] at hkey
    rw [Fields.lookup_erase]
    split at hkey
    · rename_i heq
      cases hkey
      subst heq
      have hbefore := h.kept key hnew
      rw [hdata] at hbefore
      exact ⟨hfield, if_pos rfl, value, hbefore.symm, hres⟩
    · rename_i hne
      rw [if_neg hne]
      exact h.moved key found hkey

/-- What the references stand for does not change as symbols are added. -/
theorem Interned.refsBytes_mono
    (h : Interned pf db streamId before data symbols)
    (hadds : AddsSymbols db db') :
    refsBytes pf db' symbols = refsBytes pf db symbols := by
  unfold refsBytes
  congr 1
  refine List.map_congr_left fun ref hmem => ?_
  obtain ⟨-, -, value, -, hres⟩ :=
    h.moved ref.1 ref.2 (h.sortedSymbols.lookup_of_mem hmem)
  rw [hres.refBytes_eq, (hres.mono hadds).refBytes_eq]

theorem internFields_spec
    {fields : List String}
    (hfields : ∀ field ∈ fields, field ∈ symbolFields)
    {data' symbols' : List (String × Json)}
    {bytes' : Nat}
    (hinterned : Interned pf db streamId before data symbols)
    (h : internFields pf streamId fields db data symbols (refsBytes pf db symbols) =
      .ok (db', data', symbols', bytes')) :
    AddsSymbols db db' ∧ Interned pf db' streamId before data' symbols' ∧
      bytes' = refsBytes pf db' symbols' := by
  induction fields generalizing db data symbols with
  | nil =>
      cases h
      exact ⟨AddsSymbols.refl _, hinterned, rfl⟩
  | cons field fields ih =>
      have hrest : ∀ f ∈ fields, f ∈ symbolFields :=
        fun f hf => hfields f (List.mem_cons_of_mem field hf)
      unfold internFields at h
      split at h
      · exact ih hrest hinterned h
      · rename_i value hvalue
        obtain ⟨v, hdata, hv⟩ := Option.bind_eq_some_iff.1 hvalue
        obtain rfl : v = .str value := by
          cases v with
          | str s =>
              cases hv
              rfl
          | _ => cases hv
        obtain ⟨⟨db₁, id⟩, hvalueRun, h⟩ := bind_eq_ok.1 h
        obtain ⟨hadds, hlook⟩ := internValue_spec hvalueRun
        have hres : Resolves pf db₁ streamId (.num (.posInt id)) value :=
          ⟨id, rfl, hlook⟩
        obtain ⟨hnew, hmoved⟩ := (hinterned.mono hadds).move
          (hfields field List.mem_cons_self) hdata hres
        have hbytes : refsBytes pf db₁
            (Fields.insert field (.num (.posInt id)) symbols) =
              refsBytes pf db symbols + strLen value := by
          have hperm := (Fields.insert_perm hnew (Json.num (.posInt id))).map
            fun ref => refBytes pf db₁ ref.2
          have hsum : refsBytes pf db₁ _ = _ := hperm.sum_nat
          rw [hsum, List.map_cons, List.sum_cons, hres.refBytes_eq,
            ← hinterned.refsBytes_mono hadds]
          exact Nat.add_comm _ _
        rw [← hbytes] at h
        obtain ⟨hadds', hout, hbytes'⟩ := ih hrest hmoved h
        exact ⟨hadds.trans hadds', hout, hbytes'⟩

end Interned

/-! ### The way back -/

/-- The symbols of a page hold what a list of references needs. -/
def Provides (pf : Platform) (db : Database) (symbols : List (String × Json))
    (page : List (Nat × Nat × String)) : Prop :=
  ∀ key id row, Fields.lookup key symbols = some (.num (.posInt id)) →
    db.symbols.lookup id = some row →
    Fields.lookup id page = some (row.streamId, row.value.wire pf)

/-- Put the texts back one by one. -/
theorem restoreFields_eq
    (streamId : Nat)
    (page : List (Nat × Nat × String))
    {symbols data : List (String × Json)}
    (stable : List (String × Json))
    (text : String → String)
    (hsymbols : Fields.Sorted symbols)
    (hdata : Fields.Sorted data)
    (h : ∀ key ref, Fields.lookup key symbols = some ref →
      key ∈ symbolFields ∧ Fields.lookup key data = none ∧
        ∃ id, ref = .num (.posInt id) ∧
          Fields.lookup id page = some (streamId, text key)) :
    ∃ data', restoreFields streamId page symbols
        (Fields.insert "data" (.obj data) stable) =
          .ok (Fields.insert "data" (.obj data') stable) ∧
      Fields.Sorted data' ∧
      ∀ key, Fields.lookup key data' =
        if Fields.lookup key symbols = none then Fields.lookup key data
        else some (.str (text key)) := by
  induction symbols generalizing data with
  | nil =>
      exact ⟨data, rfl, hdata, fun key => rfl⟩
  | cons entry symbols ih =>
      obtain ⟨field, ref⟩ := entry
      have htail := hsymbols.lookup_tail
      have hsorted : Fields.Sorted symbols := (List.pairwise_cons.1 hsymbols).2
      obtain ⟨hmem, hnone, id, rfl, hpage⟩ :=
        h field ref (by rw [Fields.lookup_cons, if_pos rfl])
      have hother : ∀ key ref, Fields.lookup key symbols = some ref → key ≠ field := by
        rintro key ref hkey rfl
        rw [htail] at hkey
        cases hkey
      obtain ⟨data', hrun, hsorted', hlook⟩ := ih hsorted
        (hdata.insert field (.str (text field))) (fun key ref hkey => by
          have hne := hother key ref hkey
          have hspec := h key ref (by rw [Fields.lookup_cons, if_neg hne, hkey])
          rw [Fields.lookup_insert, if_neg hne]
          exact hspec)
      refine ⟨data', ?_, hsorted', fun key => ?_⟩
      · have hdataOf := dataOf_insert stable data
        unfold dataOf at hdataOf
        rw [restoreFields, ensure_bind, if_pos hmem]
        show context (some id) _ >>= _ = _
        rw [context_some, except_ok_bind, hpage, context_some, except_ok_bind]
        show ensure (streamId = streamId) _ >>= _ = _
        rw [ensure_bind, if_pos rfl, hdataOf, context_some, except_ok_bind,
          ensure_bind, if_pos hnone, Fields.insert_insert]
        exact hrun
      · rw [hlook key, Fields.lookup_cons, Fields.lookup_insert]
        by_cases hkey : key = field
        · rw [hkey, htail, if_pos rfl, if_pos rfl, if_pos rfl, if_neg nofun]
        · rw [if_neg hkey, if_neg hkey]

/-- A descriptor comes back as it was before its identifiers were interned. -/
theorem restore_intern
    {pf : Platform}
    {db db' : Database}
    {streamId bytes : Nat}
    {stable : List (String × Json)}
    {field encoding kind descriptor : Json}
    (hsorted : Fields.Sorted stable)
    (hdata : ∀ data, dataOf stable = some data → Fields.Sorted data)
    (h : intern pf db streamId (.arr [.obj stable, field, encoding, kind]) =
      .ok (db', descriptor, bytes)) :
    AddsSymbols db db' ∧
    descriptor.compactLen ≤ changeMetadataBytes ∧ bytes ≤ changeMetadataBytes ∧
    ∃ stable' symbols,
      descriptor = .arr [.obj stable', field, encoding, .obj symbols, kind] ∧
      (∀ ref ∈ symbols, ∃ value, Resolves pf db' streamId ref.2 value) ∧
      bytes = refsBytes pf db' symbols ∧
      ∀ page, Provides pf db' symbols page →
        restore streamId page descriptor = .ok (.obj stable, field, encoding) := by
  simp only [intern] at h
  cases hdataOf : dataOf stable with
  | none =>
      unfold dataOf at hdataOf
      rw [hdataOf] at h
      obtain ⟨_, hpure, h⟩ := bind_eq_ok.1 h
      cases hpure
      obtain ⟨_, hbudget, h⟩ := bind_eq_ok.1 h
      have hbudget := ensure_eq_ok.1 hbudget
      cases h
      exact ⟨AddsSymbols.refl db, hbudget.1, hbudget.2, stable, [], rfl,
        fun _ href => absurd href List.not_mem_nil, rfl, fun page _ => rfl⟩
  | some data =>
      have hlookData := dataOf_eq_some.1 hdataOf
      unfold dataOf at hdataOf
      rw [hdataOf] at h
      obtain ⟨⟨db₁, data', symbols, bytes₁⟩, hfields, h⟩ := bind_eq_ok.1 h
      obtain ⟨_, hpure, h⟩ := bind_eq_ok.1 h
      cases hpure
      obtain ⟨_, hbudget, h⟩ := bind_eq_ok.1 h
      have hbudget := ensure_eq_ok.1 hbudget
      cases h
      obtain ⟨hadds, hinterned, hbytes⟩ := internFields_spec (fun _ hf => hf)
        (interned_nil pf db streamId (hdata data (dataOf_eq_some.2 hlookData))) hfields
      refine ⟨hadds, hbudget.1, hbudget.2, _, symbols, rfl, fun ref href => ?_,
        hbytes, fun page hpage => ?_⟩
      · obtain ⟨-, -, value, -, hres⟩ :=
          hinterned.moved ref.1 ref.2 (hinterned.sortedSymbols.lookup_of_mem href)
        exact ⟨value, hres⟩
      · -- the text of a field is the one it had before
        let text : String → String := fun key =>
          ((Fields.lookup key data).bind Json.asStr?).getD ""
        obtain ⟨full, hrestore, hfull, hlook⟩ := restoreFields_eq streamId page
          stable text hinterned.sortedSymbols hinterned.sortedData
          (fun key ref href => by
            obtain ⟨hmem, hnone, value, hvalue, id, rfl, hrow⟩ :=
              hinterned.moved key ref href
            refine ⟨hmem, hnone, id, rfl, ?_⟩
            have htext : text key = value := by
              show ((Fields.lookup key data).bind Json.asStr?).getD "" = value
              rw [hvalue]
              rfl
            rw [hpage key id _ href hrow, htext, StoredIdentity.wire_key])
        have hsame : full = data := by
          refine Fields.ext hfull (hdata data (dataOf_eq_some.2 hlookData)) fun key => ?_
          rw [hlook key]
          cases href : Fields.lookup key symbols with
          | none =>
              rw [if_pos rfl, hinterned.kept key href]
          | some ref =>
              obtain ⟨-, -, value, hvalue, -⟩ := hinterned.moved key ref href
              rw [if_neg (Option.some_ne_none ref), hvalue]
              show some (Json.str (((Fields.lookup key data).bind Json.asStr?).getD "")) = _
              rw [hvalue]
              rfl
        simp only [restore, Json.asObject?, context_some, except_ok_bind]
        rw [hrestore, hsame, Fields.insert_of_lookup hsorted hlookData]
        rfl

end Content
end FutureOs
