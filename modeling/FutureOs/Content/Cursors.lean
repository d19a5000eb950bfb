import FutureOs.Content.Fold
import FutureOs.Lib.Tiling

/-!
# The cursors of a stream

`Tiled` says that the changes of a stream cover every cursor up to a bound once.
A change after the last cursor keeps it, and so does one row that takes the place
of neighbours.  In cursor order such changes tile the interval
(`Tiled.tiles`).
-/

namespace FutureOs
namespace Content

/-- The changes of a stream cover `0 ..= hi`, each cursor once. -/
structure Tiled (changes : Table ChangeRow) (streamId : Nat) (hi : Int) : Prop where
  bound : -1 ≤ hi
  within : ∀ id row, changes.lookup id = some row → row.streamId = streamId →
    0 ≤ row.firstCursor ∧ row.firstCursor ≤ row.lastCursor ∧ row.lastCursor ≤ hi
  covered : ∀ c, 0 ≤ c → c ≤ hi → ∃ id row, changes.lookup id = some row ∧
    row.streamId = streamId ∧ row.firstCursor ≤ c ∧ c ≤ row.lastCursor
  apart : ∀ id id' row row' c, changes.lookup id = some row →
    changes.lookup id' = some row' → row.streamId = streamId → row'.streamId = streamId →
    row.firstCursor ≤ c ∧ c ≤ row.lastCursor →
    row'.firstCursor ≤ c ∧ c ≤ row'.lastCursor → id = id'

/-- A stream without changes. -/
theorem tiled_empty
    {changes : Table ChangeRow}
    {streamId : Nat}
    (h : ∀ id row, changes.lookup id = some row → row.streamId ≠ streamId) :
    Tiled changes streamId (-1) where
  bound := Int.le_refl (-1)
  within := fun id row hlook hstream => absurd hstream (h id row hlook)
  covered := by
    intro c hlo hhi
    omega
  apart := fun id _ row _ _ hlook _ hstream => absurd hstream (h id row hlook)

/-- The next change. -/
theorem Tiled.insert_next
    {changes : Table ChangeRow}
    {streamId : Nat}
    {hi : Int}
    (h : Tiled changes streamId hi)
    {row : ChangeRow}
    (hstream : row.streamId = streamId)
    (hfirst : row.firstCursor = hi + 1)
    (hlast : row.firstCursor ≤ row.lastCursor) :
    Tiled (changes.insert changes.nextId row) streamId row.lastCursor := by
  have hbound := h.bound
  -- a row of the new table is the new one, or one from before it
  have hcases : ∀ id found,
      (changes.insert changes.nextId row).lookup id = some found →
      id = changes.nextId ∧ found = row ∨ changes.lookup id = some found := by
    intro id found hlook
    rw [Table.lookup_insert] at hlook
    split at hlook
    · rename_i hid
      cases hlook
      exact Or.inl ⟨hid, rfl⟩
    · exact Or.inr hlook
  constructor
  · omega
  · intro id found hlook hfound
    rcases hcases id found hlook with ⟨-, rfl⟩ | hold
    · omega
    · have hwithin := h.within id found hold hfound
      omega
  · intro c hlo hhi
    by_cases hc : c ≤ hi
    · obtain ⟨id, found, hlook, hspan⟩ := h.covered c hlo hc
      exact ⟨id, found, Table.lookup_insert_nextId hlook row, hspan⟩
    · exact ⟨changes.nextId, row, Table.lookup_insert_self _ _ _, hstream, by omega, hhi⟩
  · intro id id' found found' c hlook hlook' hfound hfound' hspan hspan'
    rcases hcases id found hlook with ⟨rfl, rfl⟩ | hold
    · rcases hcases id' found' hlook' with ⟨rfl, rfl⟩ | hold'
      · rfl
      · have hwithin := h.within id' found' hold' hfound'
        omega
    · rcases hcases id' found' hlook' with ⟨rfl, rfl⟩ | hold'
      · have hwithin := h.within id found hold hfound
        omega
      · exact h.apart id id' found found' c hold hold' hfound hfound' hspan hspan'

/-- A table with the same rows of the stream. -/
theorem Tiled.congr
    {changes changes' : Table ChangeRow}
    {streamId : Nat}
    {hi : Int}
    (h : Tiled changes streamId hi)
    (hsame : ∀ id row, row.streamId = streamId →
      (changes'.lookup id = some row ↔ changes.lookup id = some row)) :
    Tiled changes' streamId hi where
  bound := h.bound
  within := fun id row hlook hstream =>
    h.within id row ((hsame id row hstream).1 hlook) hstream
  covered := by
    intro c hlo hhi
    obtain ⟨id, row, hlook, hstream, hspan⟩ := h.covered c hlo hhi
    exact ⟨id, row, (hsame id row hstream).2 hlook, hstream, hspan⟩
  apart := fun id id' row row' c hlook hlook' hstream hstream' =>
    h.apart id id' row row' c ((hsame id row hstream).1 hlook)
      ((hsame id' row' hstream').1 hlook') hstream hstream'

/-- A change of another stream. -/
theorem Tiled.insert_other
    {changes : Table ChangeRow}
    {streamId : Nat}
    {hi : Int}
    (h : Tiled changes streamId hi)
    {row : ChangeRow}
    (hstream : row.streamId ≠ streamId) :
    Tiled (changes.insert changes.nextId row) streamId hi := by
  refine h.congr fun id found hfound => ?_
  rw [Table.lookup_insert]
  split
  · rename_i hid
    constructor
    · intro heq
      cases heq
      exact absurd hfound hstream
    · intro hlook
      exact absurd hid (Table.ne_nextId hlook)
  · rfl

/-! ### One row for several -/

/-- `merged` stands in the table for the rows of `group`, and all else is as it was. -/
structure Replaces (changes changes' : Table ChangeRow) (group : List Nat) (id : Nat)
    (merged : ChangeRow) : Prop where
  mem : id ∈ group
  set : changes'.lookup id = some merged
  gone : ∀ id' ∈ group, id' ≠ id → changes'.lookup id' = none
  kept : ∀ id', id' ∉ group → changes'.lookup id' = changes.lookup id'

theorem Replaces.cases
    {changes changes' : Table ChangeRow}
    {group : List Nat}
    {id : Nat}
    {merged : ChangeRow}
    (h : Replaces changes changes' group id merged)
    {id' : Nat}
    {row : ChangeRow}
    (hlook : changes'.lookup id' = some row) :
    id' = id ∧ row = merged ∨ id' ∉ group ∧ changes.lookup id' = some row := by
  by_cases hmem : id' ∈ group
  · by_cases hid : id' = id
    · subst hid
      rw [h.set] at hlook
      cases hlook
      exact Or.inl ⟨rfl, rfl⟩
    · rw [h.gone id' hmem hid] at hlook
      cases hlook
  · rw [h.kept id' hmem] at hlook
    exact Or.inr ⟨hmem, hlook⟩

/-- Neighbours of a stream may be replaced by one row over their cursors. -/
theorem Tiled.replace
    {changes changes' : Table ChangeRow}
    {streamId : Nat}
    {hi : Int}
    (h : Tiled changes streamId hi)
    {group : List (Nat × ChangeRow)}
    {id : Nat}
    {merged : ChangeRow}
    (hreplaces : Replaces changes changes' (group.map Prod.fst) id merged)
    (hgroup : ∀ entry ∈ group, changes.lookup entry.1 = some entry.2 ∧
      entry.2.streamId = streamId)
    (hmerged : merged.streamId = streamId)
    (htiles : Tiles (fun entry : Nat × ChangeRow => entry.2.firstCursor)
      (fun entry => entry.2.lastCursor + 1) merged.firstCursor group
      (merged.lastCursor + 1)) :
    Tiled changes' streamId hi := by
  have hpos : ∀ entry ∈ group, entry.2.firstCursor < entry.2.lastCursor + 1 := by
    intro entry hentry
    obtain ⟨hlook, hstream⟩ := hgroup entry hentry
    have hwithin := h.within _ _ hlook hstream
    omega
  -- the merged row is inside the interval, as its ends are ends of rows of the group
  have hspan : 0 ≤ merged.firstCursor ∧ merged.firstCursor ≤ merged.lastCursor ∧
      merged.lastCursor ≤ hi := by
    obtain ⟨entry, hentry, -⟩ := List.mem_map.1 hreplaces.mem
    have hle := htiles.bounds hpos hentry
    have hentryPos := hpos entry hentry
    obtain ⟨first, hfirst, hfirstLe, hfirstLt⟩ :=
      htiles.covers (c := merged.firstCursor) (by omega) (by omega)
    obtain ⟨last, hlast, hlastLe, hlastLt⟩ :=
      htiles.covers (c := merged.lastCursor) (by omega) (by omega)
    have hfirstBounds := htiles.bounds hpos hfirst
    have hlastBounds := htiles.bounds hpos hlast
    have hfirstWithin := h.within _ _ (hgroup first hfirst).1 (hgroup first hfirst).2
    have hlastWithin := h.within _ _ (hgroup last hlast).1 (hgroup last hlast).2
    omega
  -- a cursor of the merged row was one of the group's
  have hinside : ∀ c, merged.firstCursor ≤ c ∧ c ≤ merged.lastCursor →
      ∀ id' row', changes.lookup id' = some row' → row'.streamId = streamId →
        row'.firstCursor ≤ c ∧ c ≤ row'.lastCursor → id' ∈ group.map Prod.fst := by
    intro c hc id' row' hlook' hstream' hspan'
    obtain ⟨entry, hentry, hlo, hlt⟩ := htiles.covers (c := c) hc.1 (by omega)
    obtain ⟨hlook, hstream⟩ := hgroup entry hentry
    have hsame := h.apart id' entry.1 row' entry.2 c hlook' hlook hstream' hstream hspan'
      ⟨hlo, by omega⟩
    exact hsame ▸ List.mem_map_of_mem hentry
  constructor
  · exact h.bound
  · intro id' row hlook hstream
    rcases hreplaces.cases hlook with ⟨-, rfl⟩ | ⟨-, hold⟩
    · exact hspan
    · exact h.within id' row hold hstream
  · intro c hlo hhi
    obtain ⟨id', row, hlook, hstream, hc⟩ := h.covered c hlo hhi
    by_cases hmem : id' ∈ group.map Prod.fst
    · obtain ⟨entry, hentry, rfl⟩ := List.mem_map.1 hmem
      obtain ⟨hentryLook, -⟩ := hgroup entry hentry
      rw [hlook] at hentryLook
      cases hentryLook
      have hbounds := htiles.bounds hpos hentry
      exact ⟨id, merged, hreplaces.set, hmerged, by omega, by omega⟩
    · exact ⟨id', row, by rw [hreplaces.kept id' hmem, hlook], hstream, hc⟩
  · intro id₁ id₂ row₁ row₂ c hlook₁ hlook₂ hstream₁ hstream₂ hc₁ hc₂
    rcases hreplaces.cases hlook₁ with ⟨rfl, rfl⟩ | ⟨hout₁, hold₁⟩
    · rcases hreplaces.cases hlook₂ with ⟨rfl, rfl⟩ | ⟨hout₂, hold₂⟩
      · rfl
      · exact absurd (hinside c hc₁ id₂ row₂ hold₂ hstream₂ hc₂) hout₂
    · rcases hreplaces.cases hlook₂ with ⟨rfl, rfl⟩ | ⟨hout₂, hold₂⟩
      · exact absurd (hinside c hc₂ id₁ row₁ hold₁ hstream₁ hc₁) hout₁
      · exact h.apart id₁ id₂ row₁ row₂ c hold₁ hold₂ hstream₁ hstream₂ hc₁ hc₂

/-- Replacing rows of another stream. -/
theorem Tiled.replace_other
    {changes changes' : Table ChangeRow}
    {streamId : Nat}
    {hi : Int}
    (h : Tiled changes streamId hi)
    {group : List (Nat × ChangeRow)}
    {id : Nat}
    {merged : ChangeRow}
    (hreplaces : Replaces changes changes' (group.map Prod.fst) id merged)
    (hgroup : ∀ entry ∈ group, changes.lookup entry.1 = some entry.2 ∧
      entry.2.streamId ≠ streamId)
    (hmerged : merged.streamId ≠ streamId) :
    Tiled changes' streamId hi := by
  refine h.congr fun id' row hstream => ?_
  constructor
  · intro hlook
    rcases hreplaces.cases hlook with ⟨-, rfl⟩ | ⟨-, hold⟩
    · exact absurd hstream hmerged
    · exact hold
  · intro hlook
    rw [hreplaces.kept id' ?_, hlook]
    intro hmem
    obtain ⟨entry, hentry, rfl⟩ := List.mem_map.1 hmem
    obtain ⟨hentryLook, hne⟩ := hgroup entry hentry
    rw [hlook] at hentryLook
    cases hentryLook
    exact hne hstream

/-! ### In cursor order -/

/-- The changes of a stream, sorted by their last cursor. -/
def streamChanges (db : Database) (streamId : Nat) : List ChangeRow :=
  ((db.changes.rows.filter fun row => row.2.streamId = streamId).map Prod.snd).insertionSort
    fun a b => a.lastCursor ≤ b.lastCursor

theorem mem_streamChanges
    {db : Database}
    {streamId : Nat}
    {row : ChangeRow} :
    row ∈ streamChanges db streamId ↔
      row.streamId = streamId ∧ ∃ id, db.changes.lookup id = some row := by
  unfold streamChanges
  rw [List.mem_insertionSort]
  constructor
  · intro hmem
    obtain ⟨entry, hentry, rfl⟩ := List.mem_map.1 hmem
    obtain ⟨hrows, hstream⟩ := List.mem_filter.1 hentry
    exact ⟨by simpa using hstream, entry.1, Table.mem_rows_iff.1 hrows⟩
  · rintro ⟨hstream, id, hlook⟩
    refine List.mem_map.2 ⟨(id, row), List.mem_filter.2 ⟨Table.mem_rows_iff.2 hlook, ?_⟩, rfl⟩
    simpa using hstream

/-- Two changes without a cursor in common. -/
def Disjoint (a b : ChangeRow) : Prop :=
  ∀ c, a.firstCursor ≤ c ∧ c ≤ a.lastCursor → ¬ (b.firstCursor ≤ c ∧ c ≤ b.lastCursor)

theorem Tiled.disjoint
    {db : Database}
    {streamId : Nat}
    {hi : Int}
    (h : Tiled db.changes streamId hi) :
    (streamChanges db streamId).Pairwise Disjoint := by
  have hsymm : ∀ {a b : ChangeRow}, Disjoint a b → Disjoint b a :=
    fun hab c hb ha => hab c ha hb
  refine (List.Perm.pairwise_iff hsymm (List.perm_insertionSort _ _)).2 ?_
  rw [List.pairwise_map]
  have hrows := db.changes.sorted
  refine (hrows.filter _).imp_of_mem ?_
  intro a b ha hb hlt c hac hbc
  obtain ⟨haRows, haStream⟩ := List.mem_filter.1 ha
  obtain ⟨hbRows, hbStream⟩ := List.mem_filter.1 hb
  have hsame := h.apart a.1 b.1 a.2 b.2 c (Table.mem_rows_iff.1 haRows)
    (Table.mem_rows_iff.1 hbRows) (by simpa using haStream) (by simpa using hbStream) hac hbc
  exact absurd hsame (Nat.ne_of_lt hlt)

/-- Sorted by last cursor, the changes follow one another from `0` to the bound. -/
theorem Tiled.tiles
    {db : Database}
    {streamId : Nat}
    {hi : Int}
    (h : Tiled db.changes streamId hi) :
    Tiles ChangeRow.firstCursor (fun row => row.lastCursor + 1) 0
      (streamChanges db streamId) (hi + 1) := by
  have hbound := h.bound
  refine tiles_of_covers (by omega) ?_ ?_ ?_
  · intro row hrow
    obtain ⟨hstream, id, hlook⟩ := mem_streamChanges.1 hrow
    have hwithin := h.within id row hlook hstream
    omega
  · have hsorted : (streamChanges db streamId).Pairwise
        fun a b => a.lastCursor ≤ b.lastCursor := List.pairwise_insertionSort _ _
    refine (hsorted.and h.disjoint).imp_of_mem ?_
    rintro a b ha hb ⟨hle, hdisjoint⟩
    obtain ⟨hstream, id, hlook⟩ := mem_streamChanges.1 ha
    have hwithin := h.within id a hlook hstream
    have hnot := hdisjoint a.lastCursor ⟨by omega, Int.le_refl _⟩
    omega
  · intro c hlo hhi
    obtain ⟨id, row, hlook, hstream, hspan⟩ := h.covered c hlo (by omega)
    exact ⟨row, mem_streamChanges.2 ⟨hstream, id, hlook⟩, by omega, by omega⟩

end Content
end FutureOs
