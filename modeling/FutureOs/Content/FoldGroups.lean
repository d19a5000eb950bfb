import FutureOs.Content.Cursors
import Mathlib.Data.List.Chain

/-!
# The groups of a fold

The loop of `foldSettledRun` collapses one group of rows after the other
(`foldLoop_eq`).  A group is a chain of rows that continue one another, and
collapsing it puts one row over its cursors and its bytes in their place
(`collapse_spec`).
-/

namespace FutureOs
namespace Content

/-- The groups of the loop: the one it has begun, and those of the rows to come. -/
def groupRows (group : List FoldRow) : List FoldRow → List (List FoldRow)
  | [] => [group]
  | row :: rows =>
      if group.getLast?.any (fun prior => merges prior row) = true then
        groupRows (group ++ [row]) rows
      else
        group :: groupRows [row] rows

def collapseAll : List (List FoldRow) → Database → Nat → Except String (Database × Nat)
  | [], db, deleted => pure (db, deleted)
  | group :: groups, db, deleted => do
      let (db, count) ← collapse db group
      collapseAll groups db (deleted + count)

theorem foldLoop_eq
    (group rows : List FoldRow)
    (db : Database)
    (deleted : Nat) :
    foldLoop group rows db deleted = collapseAll (groupRows group rows) db deleted := by
  induction rows generalizing group db deleted with
  | nil =>
      rfl
  | cons row rows ih =>
      rw [foldLoop, groupRows]
      split
      · exact ih _ _ _
      · rw [collapseAll]
        congr 1
        funext result
        exact ih _ _ _

/-- The groups are the rows, cut into pieces. -/
theorem groupRows_flatten (group rows : List FoldRow) :
    (groupRows group rows).flatten = group ++ rows := by
  induction rows generalizing group with
  | nil =>
      simp [groupRows]
  | cons row rows ih =>
      rw [groupRows]
      split
      · rw [ih, List.append_assoc]
        rfl
      · rw [List.flatten_cons, ih]
        rfl

/-- Each row of a group continues the one before it. -/
def Chained (group : List FoldRow) : Prop :=
  group.IsChain fun a b => merges a b = true

theorem groupRows_chained
    {group rows : List FoldRow}
    (h : Chained group) :
    ∀ g ∈ groupRows group rows, Chained g := by
  induction rows generalizing group with
  | nil =>
      intro g hg
      rw [List.mem_singleton.1 hg]
      exact h
  | cons row rows ih =>
      rw [groupRows]
      split
      · rename_i hmerges
        refine ih ?_
        obtain ⟨prior, hprior, hstep⟩ := (Option.any_eq_true _ _).1 hmerges
        refine List.isChain_append.2 ⟨h, List.isChain_singleton row, ?_⟩
        intro a ha b hb
        rw [hprior] at ha
        cases ha
        cases hb
        exact hstep
      · intro g hg
        rcases List.mem_cons.1 hg with rfl | hg
        · exact h
        · exact ih (List.isChain_singleton row) g hg

/-! ### What a test that passes says -/

/-- The part of the merge test that is about places. -/
structure Continues (prior row : FoldRow) : Prop where
  kind : prior.eventType = row.eventType
  content : prior.contentId = row.contentId
  cursor : prior.lastCursor + 1 = row.firstCursor
  bytes : prior.byteOffset + prior.byteLength = row.byteOffset

theorem continues_of_merges
    {prior row : FoldRow}
    (h : merges prior row = true) :
    Continues prior row := by
  unfold merges at h
  simp only [decide_eq_true_eq] at h
  obtain ⟨hkind, -, hcontent, -, hcursor, hbytes, -⟩ := h
  exact ⟨hkind, hcontent, hcursor, hbytes⟩

/-- A chain covers its cursors, and its bytes, from end to end. -/
theorem Chained.tiles
    {group : List FoldRow}
    {survivor last : FoldRow}
    (h : Chained (survivor :: group))
    (hlast : (survivor :: group).getLast? = some last) :
    Tiles FoldRow.firstCursor (fun row => row.lastCursor + 1) survivor.firstCursor
      (survivor :: group) (last.lastCursor + 1) ∧
    Tiles FoldRow.byteOffset (fun row => row.byteOffset + row.byteLength)
      survivor.byteOffset (survivor :: group) (last.byteOffset + last.byteLength) ∧
    ∀ row ∈ survivor :: group,
      row.contentId = survivor.contentId ∧ row.eventType = survivor.eventType := by
  induction group generalizing survivor with
  | nil =>
      cases hlast
      exact ⟨⟨rfl, rfl⟩, ⟨rfl, rfl⟩, by simp⟩
  | cons next group ih =>
      obtain ⟨hmerges, hrest⟩ := List.isChain_cons_cons.1 h
      have hcontinues := continues_of_merges hmerges
      obtain ⟨hcursors, hbytes, hsame⟩ := ih hrest (by rwa [List.getLast?_cons_cons] at hlast)
      refine ⟨⟨rfl, ?_⟩, ⟨rfl, ?_⟩, ?_⟩
      · show Tiles _ _ (survivor.lastCursor + 1) _ _
        rw [hcontinues.cursor]
        exact hcursors
      · show Tiles _ _ (survivor.byteOffset + survivor.byteLength) _ _
        rw [hcontinues.bytes]
        exact hbytes
      · intro row hrow
        rcases List.mem_cons.1 hrow with rfl | hrow
        · exact ⟨rfl, rfl⟩
        · obtain ⟨hcontent, hkind⟩ := hsame row hrow
          exact ⟨hcontent.trans hcontinues.content.symm, hkind.trans hcontinues.kind.symm⟩

/-! ### Collapsing -/

/-- The row is in the table, as the fold read it. -/
def Reads (changes : Table ChangeRow) (row : FoldRow) : Prop :=
  ∃ entry, changes.lookup row.id = some entry ∧ toFoldRow (row.id, entry) = some row

/-- What the columns of a row say, read back. -/
theorem toFoldRow_eq_some
    {id : Nat}
    {entry : ChangeRow}
    {row : FoldRow}
    (h : toFoldRow (id, entry) = some row) :
    row.id = id ∧ row.eventType = entry.eventType ∧ row.firstCursor = entry.firstCursor ∧
      row.lastCursor = entry.lastCursor ∧ row.metadata = entry.metadata ∧
      row.flags = entry.flags ∧ entry.direct = some {
        id := row.contentId
        offset := row.byteOffset
        length := row.byteLength } := by
  unfold toFoldRow at h
  obtain ⟨range, hrange, hrow⟩ := Option.map_eq_some_iff.1 h
  cases hrow
  exact ⟨rfl, rfl, rfl, rfl, rfl, rfl, hrange⟩

theorem lookup_deleteChanges (db : Database) (ids : List Nat) (id : Nat) :
    (db.deleteChanges ids).changes.lookup id =
      if id ∈ ids then none else db.changes.lookup id := by
  unfold Database.deleteChanges
  dsimp only
  generalize db.changes = changes
  induction ids generalizing changes with
  | nil =>
      simp
  | cons id' ids ih =>
      rw [List.foldl_cons, ih, Table.lookup_erase]
      by_cases hid : id = id'
      · subst hid
        simp
      · simp [hid]

/-- The row that stands for a group. -/
def mergedRow (entry : ChangeRow) (survivor last : FoldRow) : ChangeRow :=
  let span := last.byteOffset + last.byteLength - survivor.byteOffset
  { entry with
    lastCursor := last.lastCursor
    direct := entry.direct.map fun range => { range with length := span }
    metadata := withSpan last.metadata survivor.byteOffset span survivor.firstCursor
    flags := entry.flags / 8 * 8 }

/-- Collapsing a group of several rows. -/
theorem collapse_spec
    {db db' : Database}
    {survivor next : FoldRow}
    {rest : List FoldRow}
    {count : Nat}
    {entry : ChangeRow}
    (hsurvivor : db.changes.lookup survivor.id = some entry)
    (hnodup : ((survivor :: next :: rest).map FoldRow.id).Nodup)
    (h : collapse db (survivor :: next :: rest) = .ok (db', count)) :
    ∃ last, (next :: rest).getLast? = some last ∧
      count = (next :: rest).length ∧
      db' = { db with changes := db'.changes } ∧
      (mergedRow entry survivor last).WellFormed ∧
      0 ≤ last.byteOffset + last.byteLength - survivor.byteOffset ∧
      Replaces db.changes db'.changes ((survivor :: next :: rest).map FoldRow.id)
        survivor.id (mergedRow entry survivor last) := by
  rw [List.map_cons, List.nodup_cons] at hnodup
  refine ⟨(next :: rest).getLastD next, by simp [List.getLast?_cons], ?_⟩
  simp only [collapse] at h
  obtain ⟨db₁, hupdate, h⟩ := bind_eq_ok.1 h
  cases h
  unfold Database.updateChange at hupdate
  rw [lookup_deleteChanges, if_neg hnodup.1, hsurvivor] at hupdate
  obtain ⟨_, hcheck, hupdate⟩ := bind_eq_ok.1 hupdate
  obtain ⟨hwellFormed, hspan⟩ := ensure_eq_ok.1 hcheck
  obtain ⟨_, -, hupdate⟩ := bind_eq_ok.1 hupdate
  cases hupdate
  refine ⟨rfl, rfl, hwellFormed, hspan, List.mem_cons_self, Table.lookup_insert_self _ _ _,
    ?_, ?_⟩
  · intro id hid hne
    have hgone : id ∈ (next :: rest).map FoldRow.id :=
      (List.mem_cons.1 hid).resolve_left hne
    show ((db.deleteChanges _).changes.insert survivor.id _).lookup id = none
    rw [Table.lookup_insert_of_ne hne, lookup_deleteChanges, if_pos hgone]
  · intro id hid
    rw [List.map_cons, List.mem_cons, not_or] at hid
    show ((db.deleteChanges _).changes.insert survivor.id _).lookup id = _
    rw [Table.lookup_insert_of_ne hid.1, lookup_deleteChanges, if_neg hid.2]

/-- Shorter groups stay as they are. -/
theorem collapse_short
    (db : Database)
    {group : List FoldRow}
    (h : group.length < 2) :
    collapse db group = .ok (db, 0) := by
  match group, h with
  | [], _ => rfl
  | [_], _ => rfl

/-- A group of several rows, with its ends. -/
theorem exists_cons_cons_of_length
    {group : List FoldRow}
    (h : ¬ group.length < 2) :
    ∃ survivor next rest, group = survivor :: next :: rest := by
  match group, h with
  | [], h => exact absurd (by simp) h
  | [_], h => exact absurd (by simp) h
  | survivor :: next :: rest, _ => exact ⟨survivor, next, rest, rfl⟩

/--
What every collapse keeps, the fold keeps: the rows it read stay as they were until
their own group comes.
-/
theorem collapseAll_invariant
    {I : Database → Prop}
    {groups : List (List FoldRow)}
    (hstep : ∀ db db' group count, group ∈ groups → I db →
      (∀ row ∈ group, Reads db.changes row) → (group.map FoldRow.id).Nodup →
      collapse db group = .ok (db', count) → I db')
    {db db' : Database}
    {deleted count : Nat}
    (hI : I db)
    (hreads : ∀ row ∈ groups.flatten, Reads db.changes row)
    (hnodup : (groups.flatten.map FoldRow.id).Nodup)
    (h : collapseAll groups db deleted = .ok (db', count)) :
    I db' := by
  induction groups generalizing db deleted with
  | nil =>
      cases h
      exact hI
  | cons group groups ih =>
      rw [List.flatten_cons] at hreads hnodup
      rw [List.map_append, List.nodup_append] at hnodup
      obtain ⟨hgroup, hrest, hapart⟩ := hnodup
      obtain ⟨⟨db₁, count₁⟩, hcollapse, h⟩ := bind_eq_ok.1 h
      have hgroupReads : ∀ row ∈ group, Reads db.changes row :=
        fun row hrow => hreads row (List.mem_append_left _ hrow)
      have hI₁ := hstep db db₁ group count₁ List.mem_cons_self hI hgroupReads hgroup hcollapse
      refine ih (fun db db' g n hg => hstep db db' g n (List.mem_cons_of_mem group hg)) hI₁
        (fun row hrow => ?_) hrest h
      obtain ⟨entry, hlook, hentry⟩ := hreads row (List.mem_append_right _ hrow)
      refine ⟨entry, ?_, hentry⟩
      have hout : row.id ∉ group.map FoldRow.id :=
        fun hmem => hapart row.id hmem row.id (List.mem_map_of_mem hrow) rfl
      by_cases hshort : group.length < 2
      · rw [collapse_short db hshort] at hcollapse
        cases hcollapse
        exact hlook
      · obtain ⟨survivor, next, rest, rfl⟩ := exists_cons_cons_of_length hshort
        obtain ⟨first, hfirst, -⟩ := hgroupReads survivor List.mem_cons_self
        obtain ⟨_, -, -, -, -, -, hreplaces⟩ := collapse_spec hfirst hgroup hcollapse
        rw [hreplaces.kept row.id hout]
        exact hlook

/-! ### The rows of a run -/

theorem reads_foldEntries
    {db : Database}
    {sessionId runId : String}
    {row : FoldRow}
    (h : row ∈ (foldEntries db sessionId runId).filterMap toFoldRow) :
    ∃ entry, db.changes.lookup row.id = some entry ∧
      Foldable db sessionId runId entry ∧ toFoldRow (row.id, entry) = some row := by
  obtain ⟨⟨id, entry⟩, hentry, hrow⟩ := List.mem_filterMap.1 h
  unfold foldEntries at hentry
  rw [List.mem_insertionSort] at hentry
  obtain ⟨hrows, hfoldable⟩ := List.mem_filter.1 hentry
  obtain ⟨rfl, -⟩ := toFoldRow_eq_some hrow
  exact ⟨entry, Table.mem_rows_iff.1 hrows, by simpa using hfoldable, hrow⟩

theorem filterMap_toFoldRow_ids (entries : List (Nat × ChangeRow)) :
    ((entries.filterMap toFoldRow).map FoldRow.id).Sublist (entries.map Prod.fst) := by
  induction entries with
  | nil =>
      exact List.Sublist.refl _
  | cons entry entries ih =>
      rw [List.filterMap_cons, List.map_cons]
      cases hrow : toFoldRow entry with
      | none =>
          exact ih.cons _
      | some row =>
          obtain ⟨hid, -⟩ := toFoldRow_eq_some hrow
          rw [List.map_cons, hid]
          exact ih.cons_cons _

theorem nodup_foldEntries (db : Database) (sessionId runId : String) :
    (((foldEntries db sessionId runId).filterMap toFoldRow).map FoldRow.id).Nodup := by
  have hids : (db.changes.rows.map Prod.fst).Nodup := by
    rw [List.Nodup, List.pairwise_map]
    exact db.changes.sorted.imp fun hlt => Nat.ne_of_lt hlt
  refine (filterMap_toFoldRow_ids _).nodup ?_
  unfold foldEntries
  rw [((List.perm_insertionSort _ _).map Prod.fst).nodup_iff]
  exact (List.filter_sublist.map Prod.fst).nodup hids

end Content
end FutureOs
