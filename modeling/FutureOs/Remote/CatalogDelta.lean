import FutureOs.Lib.Json
import FutureOs.Remote.SecureChannel
import Mathlib.Data.List.Nodup
import Mathlib.Order.Lex
import Mathlib.Data.List.Lex
import Mathlib.Data.List.Sort

/-!
# Catalogue packets

The host side of the delta lane, `compact_catalogue` and the packet of a tick of
`catalog_loop`, and the client side, `catalogDelta.ts`.  Rows are JSON objects; the texts the
host compares are as good as the values.  A row that names a workspace travels without the
fields of the workspace, and a dictionary with one entry for each workspace travels beside
the rows when it has moved.

The list is not windowed.  Timestamps are integers, and a number that is none counts as 0.
-/

namespace FutureOs
namespace Remote

abbrev Row : Type := List (String × Json)

namespace Row

/-- A field as it reads: a missing one is null. -/
def field (row : Row) (key : String) : Json :=
  (Fields.lookup key row).getD .null

def sessionId (row : Row) : String :=
  match row.field "sessionId" with
  | .str id => id
  | _ => ""

/-- `workspaceId`, where it is a string. -/
def workspace (row : Row) : Option String :=
  match row.field "workspaceId" with
  | .str id => some id
  | _ => none

end Row

/-! ## The host -/

/-- One entry of the dictionary. -/
structure CatalogWorkspace where
  name : Json
  pinned : Json
  orderedAt : Json
deriving DecidableEq

abbrev Dictionary : Type := List (String × CatalogWorkspace)

def workspaceFields : List String :=
  ["workspaceName", "workspacePinned", "workspaceOrderedAt"]

/-- The entry of the workspace a row names. -/
def Row.entry (row : Row) : CatalogWorkspace where
  name := row.field "workspaceName"
  pinned := row.field "workspacePinned"
  orderedAt := row.field "workspaceOrderedAt"

/-- The row as it travels. -/
def Row.compact (row : Row) : Row :=
  match row.workspace with
  | some _ =>
      Fields.erase "workspaceOrderedAt"
        (Fields.erase "workspacePinned" (Fields.erase "workspaceName" row))
  | none => row

/-- The first row of a workspace speaks for it. -/
def addEntry (dictionary : Dictionary) (row : Row) : Dictionary :=
  match row.workspace with
  | some id =>
      match Fields.lookup id dictionary with
      | some _ => dictionary
      | none => Fields.insert id row.entry dictionary
  | none => dictionary

def dictionaryOf (rows : List Row) : Dictionary :=
  rows.foldl addEntry []

structure CatalogPacket where
  full : Bool
  rows : List Row
  removed : List String
  workspaces : Option Dictionary

/-- What the host believes the connection has been told. -/
structure Delivered where
  /-- The compact row of each session. -/
  rows : List (String × Row)
  dictionary : Option Dictionary

namespace Delivered

def nothing : Delivered where
  rows := []
  dictionary := none

def full (delivered : Delivered) : Bool :=
  delivered.rows.isEmpty

/-- The row is not what the connection was told. -/
def carries (delivered : Delivered) (row : Row) : Bool :=
  delivered.full || Fields.lookup row.sessionId delivered.rows ≠ some row.compact

/-- `next_rows`. -/
def nextRows (snapshot : List Row) : List (String × Row) :=
  snapshot.foldl (fun next row => Fields.insert row.sessionId row.compact next) []

def departed (delivered : Delivered) (snapshot : List Row) : List String :=
  (delivered.rows.filter fun told =>
    (Fields.lookup told.1 (nextRows snapshot)).isNone).map (·.1)

def dictionaryMoved (delivered : Delivered) (snapshot : List Row) : Bool :=
  delivered.dictionary ≠ some (dictionaryOf snapshot)

/-- The packet of a tick, where there is something to say. -/
def packet (delivered : Delivered) (snapshot : List Row) : Option CatalogPacket :=
  let changed := (snapshot.filter delivered.carries).map Row.compact
  let removed := delivered.departed snapshot
  if delivered.full || !changed.isEmpty || !removed.isEmpty ||
      delivered.dictionaryMoved snapshot then
    some
      { full := delivered.full
        rows := changed
        removed := removed
        workspaces :=
          if delivered.dictionaryMoved snapshot then some (dictionaryOf snapshot) else none }
  else
    none

/-- After the packet has left. -/
def told (delivered : Delivered) (snapshot : List Row) : Delivered where
  rows := nextRows snapshot
  dictionary :=
    if delivered.dictionaryMoved snapshot then
      some (dictionaryOf snapshot)
    else
      delivered.dictionary

end Delivered

/-! ## The client -/

/-- `PINNED_FLOOR`: above every real timestamp. -/
def pinnedFloor : Int := 1000000000000000

/-- The value of a number. -/
def numberValue : Number → Int
  | .posInt n => n
  | .negInt n => -(n + 1)
  | .float _ => 0

/-- A value counts as true. -/
def truthy : Json → Bool
  | .null => false
  | .bool b => b
  | .num (.posInt 0) => false
  | .num (.float text) => text ≠ "0.0" && text ≠ "-0.0"
  | .num _ => true
  | .str s => s ≠ ""
  | .arr _ => true
  | .obj _ => true

namespace Row

def activity (row : Row) : Int :=
  match row.field "lastMessageAt" with
  | .num n => numberValue n
  | _ =>
      match row.field "createdAt" with
      | .num n => numberValue n
      | _ => 0

def pinned (row : Row) : Bool :=
  truthy (row.field "pinned")

def hostRank (row : Row) : Int :=
  row.activity + if row.pinned then pinnedFloor else 0

/-- The id as JavaScript compares it. -/
def idUnits (row : Row) : List Nat :=
  utf16 row.sessionId.toList

/-- The comparator of the sort. -/
def byHostOrder (a b : Row) : Int :=
  let delta := b.hostRank - a.hostRank
  if delta ≠ 0 then delta
  else if a.idUnits < b.idUnits then -1
  else if b.idUnits < a.idUnits then 1
  else 0

/-- `{ ...row, [key]: value }` where there is a value. -/
def withField (previous : Row) (row : Row) (key : String) : Row :=
  match Fields.lookup key previous with
  | some value => Fields.insert key value row
  | none => row

/-- The entry of the packet's dictionary for the row. -/
def entryIn (row : Row) (dictionary : Dictionary) : Option CatalogWorkspace :=
  match row.workspace with
  | some id => if id = "" then none else Fields.lookup id dictionary
  | none => none

def withWorkspace (row : Row) (dictionary : Dictionary) (previous : Option Row) : Row :=
  match row.entryIn dictionary with
  | some workspace =>
      Fields.insert "workspaceOrderedAt" workspace.orderedAt
        (Fields.insert "workspacePinned" workspace.pinned
          (Fields.insert "workspaceName" workspace.name row))
  | none =>
      match previous with
      | some previous => workspaceFields.foldl previous.withField row
      | none => row

end Row

/-- `Map.get` on the rows by session. -/
def rowFor (id : String) (rows : List Row) : Option Row :=
  rows.find? fun row => row.sessionId = id

/-- `Map.set`: in place, or at the end. -/
def setRow (row : Row) (rows : List Row) : List Row :=
  if (rowFor row.sessionId rows).isSome then
    rows.map fun old => if old.sessionId = row.sessionId then row else old
  else
    rows ++ [row]

/-- The rows of a packet are merged one after the other. -/
def mergeRows (dictionary : Dictionary) (merged incoming : List Row) : List Row :=
  incoming.foldl
    (fun merged row =>
      setRow (row.withWorkspace dictionary (rowFor row.sessionId merged)) merged)
    merged

/-- A whole list replaces what the client holds. -/
def baseRows (current : List Row) (full : Bool) : List Row :=
  if full then [] else current.foldl (fun merged row => setRow row merged) []

/-- Every row that names a workspace reads the dictionary's copy, where one came. -/
def renameRows (merged : List Row) : Option Dictionary → List Row
  | some dictionary => merged.map fun row => row.withWorkspace dictionary none
  | none => merged

def applyCatalogDelta (current : List Row) (packet : CatalogPacket) : List Row :=
  let dictionary := packet.workspaces.getD []
  let merged := mergeRows dictionary (baseRows current packet.full) packet.rows
  let renamed := renameRows merged packet.workspaces
  let kept := renamed.filter fun row => !packet.removed.contains row.sessionId
  kept.insertionSort fun a b => a.byHostOrder b ≤ 0

/-! ## How rows read -/

namespace Row

theorem field_insert
    (row : Row)
    (key key' : String)
    (value : Json) :
    field (Fields.insert key value row) key' = if key' = key then value else row.field key' := by
  rw [field, Fields.lookup_insert]
  split <;> rfl

theorem field_erase
    (row : Row)
    (key key' : String) :
    field (Fields.erase key row) key' = if key' = key then .null else row.field key' := by
  rw [field, Fields.lookup_erase]
  split <;> rfl

theorem sessionId_congr
    {row row' : Row}
    (h : row'.field "sessionId" = row.field "sessionId") :
    row'.sessionId = row.sessionId := by
  rw [sessionId, sessionId, h]

theorem workspace_congr
    {row row' : Row}
    (h : row'.field "workspaceId" = row.field "workspaceId") :
    row'.workspace = row.workspace := by
  rw [workspace, workspace, h]

/-- Only the fields of a named workspace stay at home. -/
theorem field_compact
    (row : Row)
    (key : String) :
    row.compact.field key =
      if row.workspace.isSome = true ∧ key ∈ workspaceFields then .null else row.field key := by
  cases hworkspace : row.workspace with
  | none =>
      simp [compact, hworkspace]
  | some id =>
      simp only [compact, hworkspace, field_erase, workspaceFields, Option.isSome_some, true_and,
        List.mem_cons, List.not_mem_nil, or_false]
      grind

@[simp] theorem compact_sessionId (row : Row) : row.compact.sessionId = row.sessionId :=
  sessionId_congr (by simp [field_compact, workspaceFields])

@[simp] theorem compact_workspace (row : Row) : row.compact.workspace = row.workspace :=
  workspace_congr (by simp [field_compact, workspaceFields])

end Row

/-- An entry's value for a field of the rows. -/
def CatalogWorkspace.field (workspace : CatalogWorkspace) (key : String) : Json :=
  if key = "workspaceName" then workspace.name
  else if key = "workspacePinned" then workspace.pinned
  else workspace.orderedAt

namespace Row

theorem entry_field
    (row : Row)
    {key : String}
    (h : key ∈ workspaceFields) :
    row.entry.field key = row.field key := by
  simp only [workspaceFields, List.mem_cons, List.not_mem_nil, or_false] at h
  rcases h with rfl | rfl | rfl <;> rfl

theorem field_withField
    (previous row : Row)
    (key key' : String) :
    field (previous.withField row key) key' =
      if key' = key then (Fields.lookup key previous).getD (row.field key) else row.field key' := by
  cases hvalue : Fields.lookup key previous with
  | none =>
      by_cases hkey : key' = key <;> simp [withField, hvalue, hkey]
  | some value =>
      simpa [withField, hvalue] using field_insert row key key' value

/-- What the client fills in where the packet says nothing about the workspace. -/
def restored (row : Row) (previous : Option Row) (key : String) : Json :=
  match previous with
  | some previous => (Fields.lookup key previous).getD (row.field key)
  | none => row.field key

theorem restored_of_field_eq
    {row previous : Row}
    {key : String}
    (h : previous.field key = row.field key) :
    row.restored (some previous) key = row.field key := by
  cases hlookup : Fields.lookup key previous with
  | none =>
      simp [restored, hlookup]
  | some value =>
      simpa [restored, field, hlookup] using h

theorem restored_of_field_null
    {row : Row}
    {key : String}
    (h : row.field key = .null)
    (previous : Row) :
    row.restored (some previous) key = previous.field key := by
  rw [restored, h, field]

theorem field_withWorkspace
    (row : Row)
    (dictionary : Dictionary)
    (previous : Option Row)
    (key : String) :
    (row.withWorkspace dictionary previous).field key =
      if key ∈ workspaceFields then
        match row.entryIn dictionary with
        | some workspace => workspace.field key
        | none => row.restored previous key
      else
        row.field key := by
  unfold withWorkspace
  cases row.entryIn dictionary with
  | some workspace =>
      simp only [field_insert, workspaceFields, List.mem_cons, List.not_mem_nil, or_false,
        CatalogWorkspace.field]
      grind
  | none =>
      cases previous with
      | none =>
          simp [restored]
      | some previous =>
          simp only [workspaceFields, List.foldl_cons, List.foldl_nil, field_withField,
            List.mem_cons, List.not_mem_nil, or_false, restored]
          grind

@[simp] theorem withWorkspace_sessionId
    (row : Row)
    (dictionary : Dictionary)
    (previous : Option Row) :
    (row.withWorkspace dictionary previous).sessionId = row.sessionId :=
  sessionId_congr (by simp [field_withWorkspace, workspaceFields])

@[simp] theorem withWorkspace_workspace
    (row : Row)
    (dictionary : Dictionary)
    (previous : Option Row) :
    (row.withWorkspace dictionary previous).workspace = row.workspace :=
  workspace_congr (by simp [field_withWorkspace, workspaceFields])

@[simp] theorem entryIn_nil (row : Row) : row.entryIn [] = none := by
  cases h : row.workspace <;> simp [entryIn, h]

/-- No dictionary and no earlier copy: the row as it came. -/
@[simp] theorem withWorkspace_nil (row : Row) : row.withWorkspace [] none = row := by
  simp [withWorkspace]

theorem entryIn_congr
    {row row' : Row}
    (h : row'.workspace = row.workspace)
    (dictionary : Dictionary) :
    row'.entryIn dictionary = row.entryIn dictionary := by
  rw [entryIn, entryIn, h]

end Row

/-! ## Rows by session -/

section RowFor

variable {rows rows' : List Row}

theorem sessionId_of_rowFor
    {id : String}
    {row : Row}
    (h : rowFor id rows = some row) :
    row ∈ rows ∧ row.sessionId = id :=
  ⟨List.mem_of_find?_eq_some h, by simpa using List.find?_some h⟩

theorem rowFor_of_mem
    (hnodup : (rows.map Row.sessionId).Nodup)
    {row : Row}
    (h : row ∈ rows) :
    rowFor row.sessionId rows = some row := by
  cases hfound : rowFor row.sessionId rows with
  | none =>
      have hnot := List.find?_eq_none.1 hfound row h
      simp at hnot
  | some other =>
      obtain ⟨hmem, hid⟩ := sessionId_of_rowFor hfound
      rw [List.inj_on_of_nodup_map hnodup hmem h hid]

theorem rowFor_eq_some_iff
    (hnodup : (rows.map Row.sessionId).Nodup)
    {id : String}
    {row : Row} :
    rowFor id rows = some row ↔ row ∈ rows ∧ row.sessionId = id := by
  constructor
  · exact sessionId_of_rowFor
  · rintro ⟨hmem, rfl⟩
    exact rowFor_of_mem hnodup hmem

theorem rowFor_cons
    (row : Row)
    (rows : List Row)
    (id : String) :
    rowFor id (row :: rows) = if row.sessionId = id then some row else rowFor id rows := by
  by_cases h : row.sessionId = id <;> simp [rowFor, h]

theorem rowFor_isSome_iff
    {id : String} :
    (rowFor id rows).isSome = true ↔ id ∈ rows.map Row.sessionId := by
  simp [rowFor, List.find?_isSome]

/-- Rows with distinct sessions are found in any order. -/
theorem rowFor_perm
    (hperm : rows'.Perm rows)
    (hnodup : (rows.map Row.sessionId).Nodup)
    (id : String) :
    rowFor id rows' = rowFor id rows := by
  have hnodup' : (rows'.map Row.sessionId).Nodup := (hperm.map _).nodup_iff.2 hnodup
  refine Option.ext fun row => ?_
  rw [rowFor_eq_some_iff hnodup', rowFor_eq_some_iff hnodup, hperm.mem_iff]

theorem rowFor_filter
    (p : String → Bool)
    (id : String) :
    rowFor id (rows.filter fun row => p row.sessionId) =
      if p id then rowFor id rows else none := by
  unfold rowFor
  rw [List.find?_filter]
  split
  · rename_i hp
    congr 1
    funext row
    by_cases hid : row.sessionId = id <;> simp [hid, hp]
  · rename_i hp
    refine List.find?_eq_none.2 fun row _ => ?_
    by_cases hid : row.sessionId = id <;> simp [hid, hp]

theorem rowFor_filter_of_nodup
    (hnodup : (rows.map Row.sessionId).Nodup)
    (p : Row → Bool)
    (id : String) :
    rowFor id (rows.filter p) = (rowFor id rows).filter p := by
  have hnodup' : ((rows.filter p).map Row.sessionId).Nodup :=
    hnodup.sublist ((List.filter_sublist).map _)
  refine Option.ext fun row => ?_
  rw [rowFor_eq_some_iff hnodup', List.mem_filter, Option.filter_eq_some_iff,
    rowFor_eq_some_iff hnodup, and_right_comm]

theorem rowFor_map
    {f : Row → Row}
    (hf : ∀ row, (f row).sessionId = row.sessionId)
    (id : String) :
    rowFor id (rows.map f) = (rowFor id rows).map f := by
  unfold rowFor
  rw [List.find?_map]
  simp only [Function.comp_def, hf]

theorem map_sessionId_map
    {f : Row → Row}
    (hf : ∀ row, (f row).sessionId = row.sessionId) :
    (rows.map f).map Row.sessionId = rows.map Row.sessionId := by
  rw [List.map_map]
  exact List.map_congr_left fun row _ => hf row

theorem rowFor_setRow
    (row : Row)
    (rows : List Row)
    (id : String) :
    rowFor id (setRow row rows) = if id = row.sessionId then some row else rowFor id rows := by
  unfold setRow
  split
  · rename_i hsome
    have hkeep : ∀ old : Row, (if old.sessionId = row.sessionId then row else old).sessionId =
        old.sessionId := by
      intro old
      split
      · rename_i h
        exact h.symm
      · rfl
    rw [rowFor_map hkeep]
    split
    · rename_i hid
      subst hid
      obtain ⟨old, hold⟩ := Option.isSome_iff_exists.1 hsome
      rw [hold, Option.map_some, if_pos (sessionId_of_rowFor hold).2]
    · rename_i hid
      cases hfound : rowFor id rows with
      | none =>
          rfl
      | some old =>
          rw [Option.map_some, if_neg]
          rw [(sessionId_of_rowFor hfound).2]
          exact hid
  · rename_i hnone
    unfold rowFor at hnone ⊢
    rw [List.find?_append]
    split
    · rename_i hid
      subst hid
      rw [Option.not_isSome_iff_eq_none.1 hnone]
      simp
    · rename_i hid
      simp [Ne.symm hid]

theorem nodup_setRow
    (row : Row)
    (h : (rows.map Row.sessionId).Nodup) :
    ((setRow row rows).map Row.sessionId).Nodup := by
  unfold setRow
  split
  · rw [map_sessionId_map]
    · exact h
    · intro old
      split
      · rename_i hid
        exact hid.symm
      · rfl
  · rename_i hnone
    rw [rowFor_isSome_iff] at hnone
    rw [List.map_append, List.nodup_append]
    refine ⟨h, List.nodup_singleton _, ?_⟩
    rintro id hid id' hid' rfl
    obtain rfl := List.mem_singleton.1 hid'
    exact hnone hid

/-- Rows of distinct sessions are laid over what is there. -/
theorem rowFor_base
    (hnodup : (rows.map Row.sessionId).Nodup)
    (merged : List Row)
    (id : String) :
    rowFor id (rows.foldl (fun merged row => setRow row merged) merged) =
      (rowFor id rows).or (rowFor id merged) := by
  induction rows generalizing merged with
  | nil =>
      rfl
  | cons row rows ih =>
      rw [List.map_cons, List.nodup_cons] at hnodup
      rw [List.foldl_cons, ih hnodup.2, rowFor_setRow]
      by_cases hid : row.sessionId = id
      · subst hid
        have hnone : rowFor row.sessionId rows = none :=
          Option.not_isSome_iff_eq_none.1 fun h => hnodup.1 (rowFor_isSome_iff.1 h)
        simp [rowFor_cons, hnone]
      · simp [rowFor_cons, hid, Ne.symm hid]

theorem nodup_base
    {merged : List Row}
    (h : (merged.map Row.sessionId).Nodup) :
    ((rows.foldl (fun merged row => setRow row merged) merged).map Row.sessionId).Nodup := by
  induction rows generalizing merged with
  | nil =>
      exact h
  | cons row rows ih =>
      exact ih (nodup_setRow row h)

theorem rowFor_mergeRows
    (dictionary : Dictionary)
    (hnodup : (rows.map Row.sessionId).Nodup)
    (merged : List Row)
    (id : String) :
    rowFor id (mergeRows dictionary merged rows) =
      match rowFor id rows with
      | some row => some (row.withWorkspace dictionary (rowFor id merged))
      | none => rowFor id merged := by
  unfold mergeRows
  induction rows generalizing merged with
  | nil =>
      rfl
  | cons row rows ih =>
      rw [List.map_cons, List.nodup_cons] at hnodup
      rw [List.foldl_cons, ih hnodup.2, rowFor_setRow, Row.withWorkspace_sessionId]
      by_cases hid : row.sessionId = id
      · subst hid
        have hnone : rowFor row.sessionId rows = none :=
          Option.not_isSome_iff_eq_none.1 fun h => hnodup.1 (rowFor_isSome_iff.1 h)
        simp [rowFor_cons, hnone]
      · simp [rowFor_cons, hid, Ne.symm hid]

theorem nodup_mergeRows
    (dictionary : Dictionary)
    {merged : List Row}
    (h : (merged.map Row.sessionId).Nodup) :
    ((mergeRows dictionary merged rows).map Row.sessionId).Nodup := by
  unfold mergeRows
  induction rows generalizing merged with
  | nil =>
      exact h
  | cons row rows ih =>
      exact ih (nodup_setRow _ h)

end RowFor

/-! ## What a packet does to the list -/

/-- The row of a session in the packet, filled in; else the client's own. -/
def mergedRow (previous : Option Row) (packet : CatalogPacket) (id : String) : Option Row :=
  match rowFor id packet.rows with
  | some row => some (row.withWorkspace (packet.workspaces.getD []) previous)
  | none => previous

/-- What the client held of a session when the rows of a packet are merged. -/
def heldRow (current : List Row) (packet : CatalogPacket) (id : String) : Option Row :=
  if packet.full then none else rowFor id current

section Apply

variable {current : List Row}
variable {packet : CatalogPacket}

/-- The list before it is sorted. -/
def unsorted (current : List Row) (packet : CatalogPacket) : List Row :=
  (renameRows (mergeRows (packet.workspaces.getD []) (baseRows current packet.full) packet.rows)
    packet.workspaces).filter fun row => !packet.removed.contains row.sessionId

theorem applyCatalogDelta_perm (current : List Row) (packet : CatalogPacket) :
    (applyCatalogDelta current packet).Perm (unsorted current packet) :=
  List.perm_insertionSort _ _

theorem nodup_baseRows (current : List Row) (full : Bool) :
    ((baseRows current full).map Row.sessionId).Nodup := by
  unfold baseRows
  split
  · exact List.nodup_nil
  · exact nodup_base List.nodup_nil

theorem nodup_renameRows
    {merged : List Row}
    (h : (merged.map Row.sessionId).Nodup)
    (workspaces : Option Dictionary) :
    ((renameRows merged workspaces).map Row.sessionId).Nodup := by
  cases workspaces with
  | none =>
      exact h
  | some dictionary =>
      rw [renameRows, map_sessionId_map fun row => row.withWorkspace_sessionId dictionary none]
      exact h

theorem rowFor_renameRows
    (merged : List Row)
    (workspaces : Option Dictionary)
    (id : String) :
    rowFor id (renameRows merged workspaces) =
      (rowFor id merged).map fun row => row.withWorkspace (workspaces.getD []) none := by
  cases workspaces with
  | none =>
      simp [renameRows]
  | some dictionary =>
      exact rowFor_map (fun row => row.withWorkspace_sessionId dictionary none) id

theorem nodup_unsorted (current : List Row) (packet : CatalogPacket) :
    ((unsorted current packet).map Row.sessionId).Nodup := by
  have hmerged : ((mergeRows (packet.workspaces.getD []) (baseRows current packet.full)
      packet.rows).map Row.sessionId).Nodup :=
    nodup_mergeRows _ (nodup_baseRows current packet.full)
  exact (nodup_renameRows hmerged packet.workspaces).sublist ((List.filter_sublist).map _)

theorem nodup_applyCatalogDelta (current : List Row) (packet : CatalogPacket) :
    ((applyCatalogDelta current packet).map Row.sessionId).Nodup :=
  ((applyCatalogDelta_perm current packet).map _).nodup_iff.2 (nodup_unsorted current packet)

/-- Session by session, whatever the order. -/
theorem rowFor_applyCatalogDelta
    (hcurrent : (current.map Row.sessionId).Nodup)
    (hrows : (packet.rows.map Row.sessionId).Nodup)
    (id : String) :
    rowFor id (applyCatalogDelta current packet) =
      if packet.removed.contains id then
        none
      else
        (mergedRow (heldRow current packet id) packet id).map
          fun row => row.withWorkspace (packet.workspaces.getD []) none := by
  have hheld : rowFor id (baseRows current packet.full) = heldRow current packet id := by
    unfold heldRow baseRows
    split
    · rfl
    · rw [rowFor_base hcurrent]
      exact Option.or_none
  have hmerged : rowFor id (mergeRows (packet.workspaces.getD [])
      (baseRows current packet.full) packet.rows) =
        mergedRow (heldRow current packet id) packet id := by
    rw [rowFor_mergeRows _ hrows, hheld]
    rfl
  rw [rowFor_perm (applyCatalogDelta_perm current packet) (nodup_unsorted current packet)]
  refine (rowFor_filter (fun id => !packet.removed.contains id) id).trans ?_
  rw [rowFor_renameRows, hmerged]
  cases packet.removed.contains id <;> rfl

end Apply

/-! ## The order of the list -/

namespace Row

theorem byHostOrder_le_iff
    (a b : Row) :
    a.byHostOrder b ≤ 0 ↔
      b.hostRank < a.hostRank ∨ (b.hostRank = a.hostRank ∧ a.idUnits ≤ b.idUnits) := by
  unfold byHostOrder
  rcases lt_trichotomy a.idUnits b.idUnits with hid | hid | hid
  · simp only [hid, if_true, hid.le, and_true]
    grind
  · simp only [hid, lt_irrefl, if_false, le_refl, and_true]
    grind
  · simp only [hid, not_lt_of_gt hid, not_le_of_gt hid, if_true, if_false, and_false, or_false]
    grind

end Row

instance byHostOrder_trans : IsTrans Row fun a b => a.byHostOrder b ≤ 0 where
  trans := by
    intro a b c hab hbc
    rw [Row.byHostOrder_le_iff] at hab hbc ⊢
    rcases hab with hab | ⟨hab, hidab⟩ <;> rcases hbc with hbc | ⟨hbc, hidbc⟩
    · exact Or.inl (lt_trans hbc hab)
    · exact Or.inl (hbc ▸ hab)
    · exact Or.inl (hab ▸ hbc)
    · exact Or.inr ⟨hbc.trans hab, hidab.trans hidbc⟩

instance byHostOrder_total : Std.Total fun a b : Row => a.byHostOrder b ≤ 0 where
  total := by
    intro a b
    rw [Row.byHostOrder_le_iff, Row.byHostOrder_le_iff]
    rcases lt_trichotomy a.hostRank b.hostRank with h | h | h
    · exact Or.inr (Or.inl h)
    · rcases le_total a.idUnits b.idUnits with hid | hid
      · exact Or.inl (Or.inr ⟨h.symm, hid⟩)
      · exact Or.inr (Or.inr ⟨h, hid⟩)
    · exact Or.inl (Or.inl h)

theorem pairwise_applyCatalogDelta (current : List Row) (packet : CatalogPacket) :
    (applyCatalogDelta current packet).Pairwise fun a b => a.byHostOrder b ≤ 0 :=
  List.pairwise_insertionSort _ _

end Remote
end FutureOs
