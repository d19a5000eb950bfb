import FutureOs.Lib.Machine
import FutureOs.Remote.CatalogDelta

/-!
# The delta lane

The host's record of what it has told the connection, and the client's list, over the ticks
of `catalog_loop`.  The list the client should hold is the session list of the last tick that
published its packet or had nothing to say.

A row whose workspace the packet says nothing about takes the workspace fields of the
client's previous copy, and where it has moved to another workspace these are the old ones.
`converges` says that the lane is right as long as every published packet leaves such rows
what they were.
-/

namespace FutureOs
namespace Remote

/-! ## The host's record -/

theorem lookup_dictionary
    (rows : List Row)
    (dictionary : Dictionary)
    (id : String) :
    Fields.lookup id (rows.foldl addEntry dictionary) =
      (Fields.lookup id dictionary).or
        ((rows.find? fun row => row.workspace = some id).map Row.entry) := by
  induction rows generalizing dictionary with
  | nil =>
      exact Option.or_none.symm
  | cons row rows ih =>
      rw [List.foldl_cons, ih]
      cases hworkspace : row.workspace with
      | none =>
          simp [addEntry, hworkspace]
      | some id' =>
          by_cases hid : id' = id
          · subst hid
            cases hlookup : Fields.lookup id' dictionary with
            | some _ =>
                simp [addEntry, hworkspace, hlookup]
            | none =>
                simp [addEntry, hworkspace, hlookup, Fields.lookup_insert]
          · cases hlookup : Fields.lookup id' dictionary with
            | some _ =>
                simp [addEntry, hworkspace, hlookup, hid]
            | none =>
                simp [addEntry, hworkspace, hlookup, hid, Fields.lookup_insert, Ne.symm hid]

theorem lookup_nextRows
    {rows : List Row}
    (hnodup : (rows.map Row.sessionId).Nodup)
    (next : List (String × Row))
    (id : String) :
    Fields.lookup id
        (rows.foldl (fun next row => Fields.insert row.sessionId row.compact next) next) =
      ((rowFor id rows).map Row.compact).or (Fields.lookup id next) := by
  induction rows generalizing next with
  | nil =>
      rfl
  | cons row rows ih =>
      rw [List.map_cons, List.nodup_cons] at hnodup
      rw [List.foldl_cons, ih hnodup.2, Fields.lookup_insert, rowFor_cons]
      by_cases hid : row.sessionId = id
      · subst hid
        have hnone : rowFor row.sessionId rows = none :=
          Option.not_isSome_iff_eq_none.1 fun h => hnodup.1 (rowFor_isSome_iff.1 h)
        simp [hnone]
      · simp [hid, Ne.symm hid]

/-! ## Session lists -/

/-- The timestamps a row is ordered by are integers below the floor of the pinned rows. -/
def Row.RealTimes (row : Row) : Prop :=
  ∀ key ∈ ["lastMessageAt", "createdAt"], ∀ n, row.field key = .num n →
    ∃ time : Nat, n = .posInt time ∧ (time : Int) < pinnedFloor

/-- A session list of the host. -/
structure Snapshot where
  rows : List Row
  named : ∀ row ∈ rows, ∃ id, row.field "sessionId" = .str id
  distinct : (rows.map Row.sessionId).Nodup
  /-- The rows of a workspace agree on its fields. -/
  agree : ∀ row ∈ rows, ∀ row' ∈ rows, row.workspace.isSome = true →
    row'.workspace = row.workspace → row'.entry = row.entry
  realTimes : ∀ row ∈ rows, row.RealTimes

namespace Snapshot

def empty : Snapshot where
  rows := []
  named := by simp
  distinct := List.nodup_nil
  agree := by simp
  realTimes := by simp

variable {snapshot : Snapshot}

theorem lookup_dictionaryOf
    {row : Row}
    {id : String}
    (hrow : row ∈ snapshot.rows)
    (hid : row.workspace = some id) :
    Fields.lookup id (dictionaryOf snapshot.rows) = some row.entry := by
  unfold dictionaryOf
  rw [lookup_dictionary, Fields.lookup_nil, Option.none_or]
  cases hfound : snapshot.rows.find? fun row => row.workspace = some id with
  | none =>
      have hnot := List.find?_eq_none.1 hfound row hrow
      simp [hid] at hnot
  | some row' =>
      have hid' : row'.workspace = some id := by simpa using List.find?_some hfound
      rw [Option.map_some, snapshot.agree row hrow row' (List.mem_of_find?_eq_some hfound)
        (by simp [hid]) (hid'.trans hid.symm)]

theorem entryIn_dictionaryOf
    {row : Row}
    {workspace : CatalogWorkspace}
    (hrow : row ∈ snapshot.rows)
    (hentry : row.entryIn (dictionaryOf snapshot.rows) = some workspace) :
    workspace = row.entry := by
  cases hid : row.workspace with
  | none =>
      simp [Row.entryIn, hid] at hentry
  | some id =>
      simp only [Row.entryIn, hid, lookup_dictionaryOf hrow hid, Option.ite_none_left_eq_some,
        Option.some.injEq] at hentry
      exact hentry.2.symm

theorem lookup_nextRows
    (snapshot : Snapshot)
    (id : String) :
    Fields.lookup id (Delivered.nextRows snapshot.rows) =
      (rowFor id snapshot.rows).map Row.compact := by
  unfold Delivered.nextRows
  rw [Remote.lookup_nextRows snapshot.distinct, Fields.lookup_nil, Option.or_none]

end Snapshot

/-! ## The lane -/

structure CatalogState where
  delivered : Delivered
  /-- The list of the client. -/
  client : List Row
  /-- The list it should hold. -/
  shown : Snapshot

inductive CatalogOp
  /-- The session list is read; a packet about it is published, or is not sent. -/
  | tick (snapshot : Snapshot) (sent : Bool)
  /-- Another device is in control: the record is cleared. -/
  | standby

namespace CatalogState

def init : CatalogState where
  delivered := Delivered.nothing
  client := []
  shown := Snapshot.empty

def step (s : CatalogState) : CatalogOp → CatalogState
  | .tick snapshot sent =>
      match s.delivered.packet snapshot.rows with
      | none => { s with shown := snapshot }
      | some packet =>
          if sent then
            { delivered := s.delivered.told snapshot.rows
              client := applyCatalogDelta s.client packet
              shown := snapshot }
          else
            s
  | .standby => { s with delivered := Delivered.nothing }

end CatalogState

/-! ## What the client should hold -/

/-- Two rows with the same fields. -/
def Same (row row' : Row) : Prop :=
  ∀ key, row.field key = row'.field key

/-- Pinned rows first, then by activity, then by id. -/
def InHostOrder (a b : Row) : Prop :=
  (a.pinned = true ∧ b.pinned = false) ∨
    (a.pinned = b.pinned ∧
      (b.activity < a.activity ∨ (b.activity = a.activity ∧ a.idUnits ≤ b.idUnits)))

/-- The client's list has exactly the rows of the host's, in order. -/
structure Matches (client : List Row) (snapshot : Snapshot) : Prop where
  distinct : (client.map Row.sessionId).Nodup
  rows : ∀ id, Option.Rel Same (rowFor id client) (rowFor id snapshot.rows)
  ordered : client.Pairwise InHostOrder

/-- The dictionary that leaves with the packet. -/
def Delivered.sentDictionary (delivered : Delivered) (snapshot : List Row) : Dictionary :=
  if delivered.dictionaryMoved snapshot then dictionaryOf snapshot else []

/-- The copy of a session that a packet fills the row in from. -/
def CatalogState.previous (s : CatalogState) (id : String) : Option Row :=
  if s.delivered.full then none else rowFor id s.client

/--
A published packet has an entry for the workspace of each row, or the client's copy of the
session already has the workspace fields of the row.
-/
def FieldsKept (s : CatalogState) : CatalogOp → Prop
  | .tick snapshot true =>
      (s.delivered.packet snapshot.rows).isSome = true → ∀ row ∈ snapshot.rows,
        row.entryIn (s.delivered.sentDictionary snapshot.rows) = none →
          ∀ key ∈ workspaceFields,
            row.compact.restored (s.previous row.sessionId) key = row.field key
  | _ => True

/-! ## Rows the host does not send again -/

section SameRows

variable {snapshot : Snapshot}
variable {row row' row'' : Row}

theorem Same.activity (h : Same row row') : row.activity = row'.activity := by
  rw [Row.activity, Row.activity, h, h]

theorem Same.pinned (h : Same row row') : row.pinned = row'.pinned := by
  rw [Row.pinned, Row.pinned, h]

theorem Same.workspace (h : Same row row') : row.workspace = row'.workspace :=
  Row.workspace_congr (h _)

/-- What travels says everything but the fields of a named workspace. -/
theorem field_of_compact
    (h : row'.compact = row.compact)
    {key : String}
    (hkey : row.workspace.isSome = true → key ∉ workspaceFields) :
    row'.field key = row.field key := by
  have hworkspace : row'.workspace = row.workspace := by
    rw [← Row.compact_workspace row', h, Row.compact_workspace]
  have hat := congrArg (fun r => Row.field r key) h
  simp only [Row.field_compact, hworkspace] at hat
  rwa [if_neg fun hboth => hkey hboth.1 hboth.2,
    if_neg fun hboth => hkey hboth.1 hboth.2] at hat

/-- For a row that is not sent, filling it in is the same as leaving it. -/
theorem restored_of_compact
    (hsame : Same row'' row')
    (h : row'.compact = row.compact)
    (key : String) :
    row.compact.restored (some row'') key = row.field key ↔ row''.field key = row.field key := by
  by_cases hhome : row.workspace.isSome = true ∧ key ∈ workspaceFields
  · rw [Row.restored_of_field_null]
    rw [Row.field_compact, if_pos hhome]
  · have hcompact : row.compact.field key = row.field key := by
      rw [Row.field_compact, if_neg hhome]
    have hat : row''.field key = row.field key :=
      (hsame key).trans (field_of_compact h fun hsome hkey => hhome ⟨hsome, hkey⟩)
    refine iff_of_true ?_ hat
    rw [Row.restored_of_field_eq (hat.trans hcompact.symm), hcompact]

/-- A merged row is right where the dictionary speaks for it, or if it is right already. -/
theorem same_withWorkspace_iff
    (hrow : row ∈ snapshot.rows)
    {dictionary : Dictionary}
    (hdictionary : dictionary = dictionaryOf snapshot.rows ∨ dictionary = [])
    (hworkspace : row'.workspace = row.workspace)
    (hrest : ∀ key, key ∉ workspaceFields → row'.field key = row.field key) :
    Same (row'.withWorkspace dictionary none) row ↔
      (row.entryIn dictionary = none → ∀ key ∈ workspaceFields, row'.field key = row.field key) := by
  have hentry : row'.entryIn dictionary = row.entryIn dictionary :=
    Row.entryIn_congr hworkspace dictionary
  cases hfound : row.entryIn dictionary with
  | none =>
      constructor
      · intro hsame _ key hkey
        have hat := hsame key
        rwa [Row.field_withWorkspace, if_pos hkey, hentry, hfound] at hat
      · intro hkept key
        rw [Row.field_withWorkspace, hentry, hfound]
        by_cases hkey : key ∈ workspaceFields
        · rw [if_pos hkey]
          exact hkept rfl key hkey
        · rw [if_neg hkey]
          exact hrest key hkey
  | some workspace =>
      refine iff_of_true (fun key => ?_) (by simp)
      have hspeaks : workspace = row.entry := by
        rcases hdictionary with rfl | rfl
        · exact Snapshot.entryIn_dictionaryOf hrow hfound
        · simp at hfound
      rw [Row.field_withWorkspace, hentry, hfound]
      by_cases hkey : key ∈ workspaceFields
      · rw [if_pos hkey]
        exact hspeaks ▸ Row.entry_field row hkey
      · rw [if_neg hkey]
        exact hrest key hkey

end SameRows

/-! ## Packets -/

section Packets

variable {delivered : Delivered}
variable {snapshot : Snapshot}
variable {packet : CatalogPacket}

theorem packet_eq_some
    {rows : List Row}
    (h : delivered.packet rows = some packet) :
    packet.full = delivered.full ∧
      packet.rows = (rows.filter delivered.carries).map Row.compact ∧
      packet.removed = delivered.departed rows ∧
      packet.workspaces.getD [] = delivered.sentDictionary rows := by
  simp only [Delivered.packet, Option.ite_none_right_eq_some, Option.some.injEq] at h
  obtain ⟨-, rfl⟩ := h
  refine ⟨rfl, rfl, rfl, ?_⟩
  rw [Delivered.sentDictionary]
  split <;> rfl

/-- A tick has nothing to say only if nothing has moved. -/
theorem packet_eq_none
    {rows : List Row}
    (h : delivered.packet rows = none) :
    delivered.full = false ∧ (∀ row ∈ rows, delivered.carries row = false) ∧
      delivered.departed rows = [] ∧ delivered.dictionaryMoved rows = false := by
  simp only [Delivered.packet, ite_eq_right_iff, reduceCtorEq, imp_false, Bool.or_eq_true,
    not_or, Bool.not_eq_true, Bool.not_eq_false', List.isEmpty_iff, List.map_eq_nil_iff,
    List.filter_eq_nil_iff] at h
  obtain ⟨⟨⟨hfull, hchanged⟩, hremoved⟩, hmoved⟩ := h
  exact ⟨hfull, hchanged, hremoved, hmoved⟩

theorem sentDictionary_cases (delivered : Delivered) (rows : List Row) :
    delivered.sentDictionary rows = dictionaryOf rows ∨ delivered.sentDictionary rows = [] := by
  rw [Delivered.sentDictionary]
  split
  · exact Or.inl rfl
  · exact Or.inr rfl

theorem told_dictionary (delivered : Delivered) (rows : List Row) :
    (delivered.told rows).dictionary = some (dictionaryOf rows) := by
  rw [Delivered.told]
  split
  · rfl
  · rename_i hmoved
    simpa [Delivered.dictionaryMoved] using hmoved

theorem carries_eq_false
    {row : Row}
    (h : delivered.carries row = false) :
    delivered.full = false ∧
      Fields.lookup row.sessionId delivered.rows = some row.compact := by
  simpa [Delivered.carries] using h

theorem mem_departed
    {id : String} :
    id ∈ delivered.departed snapshot.rows ↔
      (∃ told, (id, told) ∈ delivered.rows) ∧ rowFor id snapshot.rows = none := by
  simp [Delivered.departed, Snapshot.lookup_nextRows]

/-- The row of a session in a packet. -/
theorem rowFor_changed
    (delivered : Delivered)
    (snapshot : Snapshot)
    (id : String) :
    rowFor id ((snapshot.rows.filter delivered.carries).map Row.compact) =
      ((rowFor id snapshot.rows).filter delivered.carries).map Row.compact := by
  rw [rowFor_map Row.compact_sessionId, rowFor_filter_of_nodup snapshot.distinct]

theorem nodup_changed (delivered : Delivered) (snapshot : Snapshot) :
    (((snapshot.rows.filter delivered.carries).map Row.compact).map Row.sessionId).Nodup := by
  rw [map_sessionId_map Row.compact_sessionId]
  exact snapshot.distinct.sublist ((List.filter_sublist).map _)

end Packets

/-! ## What the host believes -/

theorem some_of_rel
    {found : Option Row}
    {row : Row}
    (h : Option.Rel Same found (some row)) :
    ∃ held, found = some held ∧ Same held row := by
  cases h with
  | some hsame => exact ⟨_, rfl, hsame⟩

/-- The host has told nothing, or just the rows shown. -/
def Faithful (delivered : Delivered) (shown : Snapshot) : Prop :=
  delivered = Delivered.nothing ∨
    (∀ id, Fields.lookup id delivered.rows = (rowFor id shown.rows).map Row.compact) ∧
      delivered.dictionary = some (dictionaryOf shown.rows)

section Faithful

variable {delivered : Delivered}
variable {client : List Row}
variable {shown snapshot : Snapshot}

theorem faithful_told (delivered : Delivered) (snapshot : Snapshot) :
    Faithful (delivered.told snapshot.rows) snapshot :=
  Or.inr ⟨snapshot.lookup_nextRows, told_dictionary delivered snapshot.rows⟩

theorem Faithful.lookup
    (h : Faithful delivered shown)
    (hfull : delivered.full = false)
    (id : String) :
    Fields.lookup id delivered.rows = (rowFor id shown.rows).map Row.compact := by
  rcases h with rfl | h
  · simp [Delivered.nothing, Delivered.full] at hfull
  · exact h.1 id

theorem Matches.none_of_shown
    (h : Matches client shown)
    {id : String}
    (hnone : rowFor id shown.rows = none) :
    rowFor id client = none := by
  have hrel := h.rows id
  rw [hnone] at hrel
  cases hclient : rowFor id client with
  | none =>
      rfl
  | some row =>
      rw [hclient] at hrel
      cases hrel

/-- A session that no packet names as gone was not shown. -/
theorem Faithful.none_of_not_departed
    (h : Faithful delivered shown)
    (hfull : delivered.full = false)
    {id : String}
    (hnone : rowFor id snapshot.rows = none)
    (hkept : id ∉ delivered.departed snapshot.rows) :
    rowFor id shown.rows = none := by
  cases hold : rowFor id shown.rows with
  | none =>
      rfl
  | some old =>
      have hlookup := h.lookup hfull id
      rw [hold] at hlookup
      exact absurd (mem_departed.2 ⟨⟨_, Fields.mem_of_lookup hlookup⟩, hnone⟩) hkept

/-- The client has what the host believes, for a row it does not send. -/
theorem Matches.kept
    (h : Matches client shown)
    (hfaithful : Faithful delivered shown)
    {row : Row}
    (hcarries : delivered.carries row = false) :
    ∃ old held, rowFor row.sessionId shown.rows = some old ∧
      rowFor row.sessionId client = some held ∧ Same held old ∧ old.compact = row.compact := by
  obtain ⟨hfull, hlookup⟩ := carries_eq_false hcarries
  rw [hfaithful.lookup hfull, Option.map_eq_some_iff] at hlookup
  obtain ⟨old, hold, hcompact⟩ := hlookup
  have hrel := h.rows row.sessionId
  rw [hold] at hrel
  obtain ⟨held, hheld, hsame⟩ := some_of_rel hrel
  exact ⟨old, held, hold, hheld, hsame, hcompact⟩

end Faithful

/-! ## The order -/

theorem Row.RealTimes.activity
    {row : Row}
    (h : row.RealTimes) :
    0 ≤ row.activity ∧ row.activity < pinnedFloor := by
  have hreal : ∀ key ∈ ["lastMessageAt", "createdAt"], ∀ n, row.field key = .num n →
      0 ≤ numberValue n ∧ numberValue n < pinnedFloor := by
    intro key hkey n hat
    obtain ⟨time, rfl, htime⟩ := h key hkey n hat
    exact ⟨Int.natCast_nonneg time, htime⟩
  unfold Row.activity
  split
  · rename_i n hat
    exact hreal "lastMessageAt" (by simp) n hat
  · split
    · rename_i n hat
      exact hreal "createdAt" (by simp) n hat
    · simp [pinnedFloor]

/-- The rank puts pinned rows first as long as timestamps are real. -/
theorem inHostOrder_of_byHostOrder
    {a b : Row}
    (ha : 0 ≤ a.activity ∧ a.activity < pinnedFloor)
    (hb : 0 ≤ b.activity ∧ b.activity < pinnedFloor)
    (h : a.byHostOrder b ≤ 0) :
    InHostOrder a b := by
  rw [Row.byHostOrder_le_iff, Row.hostRank, Row.hostRank] at h
  unfold InHostOrder
  cases hpa : a.pinned <;> cases hpb : b.pinned <;>
    simp only [hpa, hpb, Bool.false_eq_true, if_true, if_false, reduceCtorEq, true_and,
      false_and, and_self, and_false, or_false, false_or, add_zero, add_left_inj,
      add_lt_add_iff_right] at h ⊢
  · exact h
  · omega
  · exact h

theorem Matches.of_rows
    {client : List Row}
    {snapshot : Snapshot}
    (hdistinct : (client.map Row.sessionId).Nodup)
    (hrows : ∀ id, Option.Rel Same (rowFor id client) (rowFor id snapshot.rows))
    (hsorted : client.Pairwise fun a b => a.byHostOrder b ≤ 0) :
    Matches client snapshot where
  distinct := hdistinct
  rows := hrows
  ordered := by
    have htimes : ∀ a ∈ client, 0 ≤ a.activity ∧ a.activity < pinnedFloor := by
      intro a ha
      have hrel := hrows a.sessionId
      rw [rowFor_of_mem hdistinct ha] at hrel
      generalize hfound : rowFor a.sessionId snapshot.rows = found at hrel
      cases hrel with
      | some hsame =>
          rw [hsame.activity]
          exact (snapshot.realTimes _ (sessionId_of_rowFor hfound).1).activity
    exact hsorted.imp_of_mem fun ha hb h =>
      inHostOrder_of_byHostOrder (htimes _ ha) (htimes _ hb) h

/-! ## One tick -/

section Tick

variable {delivered : Delivered}
variable {client : List Row}
variable {shown snapshot : Snapshot}

/-- With nothing to say, the lists are the same. -/
theorem Matches.of_nothing_to_say
    (h : Matches client shown)
    (hfaithful : Faithful delivered shown)
    (hpacket : delivered.packet snapshot.rows = none) :
    Matches client snapshot ∧ Faithful delivered snapshot := by
  obtain ⟨hfull, hcarries, hdeparted, hmoved⟩ := packet_eq_none hpacket
  have hdictionary : delivered.dictionary = some (dictionaryOf snapshot.rows) := by
    simpa [Delivered.dictionaryMoved] using hmoved
  have hshown : delivered.dictionary = some (dictionaryOf shown.rows) := by
    rcases hfaithful with rfl | hfaithful
    · simp [Delivered.nothing, Delivered.full] at hfull
    · exact hfaithful.2
  have hsame : dictionaryOf shown.rows = dictionaryOf snapshot.rows :=
    Option.some.inj (hshown.symm.trans hdictionary)
  have hgone : ∀ id, rowFor id snapshot.rows = none → rowFor id shown.rows = none :=
    fun id hnone => hfaithful.none_of_not_departed hfull hnone (by simp [hdeparted])
  constructor
  · refine ⟨h.distinct, fun id => ?_, h.ordered⟩
    cases hrow : rowFor id snapshot.rows with
    | none =>
        rw [h.none_of_shown (hgone id hrow)]
        exact Option.Rel.none
    | some row =>
        obtain ⟨hmem, rfl⟩ := sessionId_of_rowFor hrow
        obtain ⟨old, held, hold, hheld, hsameRow, hcompact⟩ :=
          h.kept hfaithful (hcarries row hmem)
        have hworkspace : old.workspace = row.workspace := by
          rw [← Row.compact_workspace old, hcompact, Row.compact_workspace]
        rw [hheld]
        refine Option.Rel.some fun key => (hsameRow key).trans ?_
        by_cases hhome : row.workspace.isSome = true ∧ key ∈ workspaceFields
        · obtain ⟨workspace, hid⟩ := Option.isSome_iff_exists.1 hhome.1
          have hentry : old.entry = row.entry := by
            have hlookup := Snapshot.lookup_dictionaryOf (sessionId_of_rowFor hold).1
              (hworkspace.trans hid)
            rw [hsame, Snapshot.lookup_dictionaryOf hmem hid] at hlookup
            exact (Option.some.inj hlookup).symm
          rw [← Row.entry_field old hhome.2, hentry, Row.entry_field row hhome.2]
        · exact field_of_compact hcompact fun hsome hkey => hhome ⟨hsome, hkey⟩
  · refine Or.inr ⟨fun id => ?_, hdictionary⟩
    cases hrow : rowFor id snapshot.rows with
    | none =>
        rw [hfaithful.lookup hfull id, hgone id hrow, Option.map_none]
    | some row =>
        obtain ⟨hmem, rfl⟩ := sessionId_of_rowFor hrow
        exact (carries_eq_false (hcarries row hmem)).2

/-- The row of a session after a packet, before the dictionary speaks. -/
theorem mergedRow_spec
    (h : Matches client shown)
    (hfaithful : Faithful delivered shown)
    {packet : CatalogPacket}
    (hpacket : delivered.packet snapshot.rows = some packet)
    {row : Row}
    (hrow : row ∈ snapshot.rows) :
    ∃ merged, mergedRow (heldRow client packet row.sessionId) packet row.sessionId = some merged ∧
      merged.workspace = row.workspace ∧
      (∀ key, key ∉ workspaceFields → merged.field key = row.field key) ∧
      (row.entryIn (delivered.sentDictionary snapshot.rows) = none → ∀ key ∈ workspaceFields,
        (merged.field key = row.field key ↔
          row.compact.restored (heldRow client packet row.sessionId) key = row.field key)) := by
  obtain ⟨hfull, hrows, -, hdictionary⟩ := packet_eq_some hpacket
  have hfor := rowFor_changed delivered snapshot row.sessionId
  rw [rowFor_of_mem snapshot.distinct hrow, ← hrows] at hfor
  cases hcarries : delivered.carries row with
  | true =>
      rw [Option.filter_some, if_pos hcarries, Option.map_some] at hfor
      refine ⟨_, by rw [mergedRow, hfor], by simp, ?_, ?_⟩
      · intro key hkey
        rw [Row.field_withWorkspace, if_neg hkey, Row.field_compact, if_neg fun hboth => hkey hboth.2]
      · intro hentry key hkey
        rw [Row.field_withWorkspace, if_pos hkey, hdictionary,
          Row.entryIn_congr (Row.compact_workspace row), hentry]
  | false =>
      rw [Option.filter_some, if_neg (by simp [hcarries]), Option.map_none] at hfor
      obtain ⟨old, held, hold, hheld, hsameRow, hcompact⟩ := h.kept hfaithful hcarries
      have hheldRow : heldRow client packet row.sessionId = some held := by
        rw [heldRow, hfull, (carries_eq_false hcarries).1]
        exact hheld
      refine ⟨held, by rw [mergedRow, hfor, hheldRow], ?_, ?_, ?_⟩
      · rw [hsameRow.workspace, ← Row.compact_workspace old, hcompact, Row.compact_workspace]
      · intro key hkey
        exact (hsameRow key).trans (field_of_compact hcompact fun _ => hkey)
      · intro _ key _
        rw [hheldRow]
        exact (restored_of_compact hsameRow hcompact key).symm

/-- A session that is gone is taken off the list. -/
theorem rowFor_gone
    (h : Matches client shown)
    (hfaithful : Faithful delivered shown)
    {packet : CatalogPacket}
    (hpacket : delivered.packet snapshot.rows = some packet)
    {id : String}
    (hrow : rowFor id snapshot.rows = none)
    (hkept : packet.removed.contains id = false) :
    mergedRow (heldRow client packet id) packet id = none := by
  obtain ⟨hfull, hrows, hremoved, -⟩ := packet_eq_some hpacket
  have hfor := rowFor_changed delivered snapshot id
  rw [hrow, ← hrows] at hfor
  have hheld : heldRow client packet id = none := by
    unfold heldRow
    split
    · rfl
    · rename_i hnotfull
      rw [hfull, Bool.not_eq_true] at hnotfull
      refine h.none_of_shown (hfaithful.none_of_not_departed hnotfull hrow ?_)
      rw [← hremoved]
      simpa using hkept
  rw [mergedRow, hfor, hheld]
  rfl

/-- A packet is right exactly if it keeps the workspace fields it does not speak for. -/
theorem matches_applyCatalogDelta_iff
    (h : Matches client shown)
    (hfaithful : Faithful delivered shown)
    {packet : CatalogPacket}
    (hpacket : delivered.packet snapshot.rows = some packet) :
    Matches (applyCatalogDelta client packet) snapshot ↔
      ∀ row ∈ snapshot.rows, row.entryIn (delivered.sentDictionary snapshot.rows) = none →
        ∀ key ∈ workspaceFields,
          row.compact.restored (heldRow client packet row.sessionId) key = row.field key := by
  obtain ⟨hfull, hrows, hremoved, hdictionary⟩ := packet_eq_some hpacket
  have hnodup : (packet.rows.map Row.sessionId).Nodup := by
    rw [hrows]
    exact nodup_changed delivered snapshot
  have hstays : ∀ row ∈ snapshot.rows, packet.removed.contains row.sessionId = false := by
    intro row hrow
    have hnot : row.sessionId ∉ packet.removed := by
      rw [hremoved, mem_departed, rowFor_of_mem snapshot.distinct hrow]
      simp
    simpa using hnot
  -- what the list has for a row of the snapshot
  have hsame : ∀ row ∈ snapshot.rows, ∃ merged,
      rowFor row.sessionId (applyCatalogDelta client packet) = some merged ∧
        (Same merged row ↔
          (row.entryIn (delivered.sentDictionary snapshot.rows) = none →
            ∀ key ∈ workspaceFields,
              row.compact.restored (heldRow client packet row.sessionId) key = row.field key)) := by
    intro row hrow
    obtain ⟨merged, hmerged, hworkspace, hrest, hkept⟩ :=
      mergedRow_spec h hfaithful hpacket hrow
    refine ⟨_, by rw [rowFor_applyCatalogDelta h.distinct hnodup, hstays row hrow, hmerged]; rfl,
      ?_⟩
    rw [hdictionary, same_withWorkspace_iff hrow (sentDictionary_cases _ _) hworkspace hrest]
    exact forall_congr' fun hentry => forall₂_congr fun key hkey => hkept hentry key hkey
  constructor
  · intro hmatches row hrow
    obtain ⟨merged, hfound, hiff⟩ := hsame row hrow
    have hrel := hmatches.rows row.sessionId
    rw [hfound, rowFor_of_mem snapshot.distinct hrow] at hrel
    cases hrel with
    | some hsame => exact hiff.1 hsame
  · intro hkept
    refine Matches.of_rows (nodup_applyCatalogDelta client packet) (fun id => ?_)
      (pairwise_applyCatalogDelta client packet)
    cases hrow : rowFor id snapshot.rows with
    | none =>
        rw [rowFor_applyCatalogDelta h.distinct hnodup]
        cases hgone : packet.removed.contains id with
        | true =>
            exact Option.Rel.none
        | false =>
            rw [rowFor_gone h hfaithful hpacket hrow hgone]
            exact Option.Rel.none
    | some row =>
        obtain ⟨hmem, rfl⟩ := sessionId_of_rowFor hrow
        obtain ⟨merged, hfound, hiff⟩ := hsame row hmem
        rw [hfound]
        exact Option.Rel.some (hiff.2 (hkept row hmem))

end Tick

/-! ## Runs -/

namespace CatalogState

/-- The client has the list, and the host knows what the client was told. -/
structure Settled (s : CatalogState) : Prop where
  matching : Matches s.client s.shown
  faithful : Faithful s.delivered s.shown

theorem step_nothing
    {s : CatalogState}
    {snapshot : Snapshot}
    (hpacket : s.delivered.packet snapshot.rows = none)
    (sent : Bool) :
    s.step (.tick snapshot sent) = { s with shown := snapshot } := by
  simp only [step, hpacket]

theorem step_unsent
    {s : CatalogState}
    {snapshot : Snapshot}
    {packet : CatalogPacket}
    (hpacket : s.delivered.packet snapshot.rows = some packet) :
    s.step (.tick snapshot false) = s := by
  simp [step, hpacket]

theorem step_sent
    {s : CatalogState}
    {snapshot : Snapshot}
    {packet : CatalogPacket}
    (hpacket : s.delivered.packet snapshot.rows = some packet) :
    s.step (.tick snapshot true) =
      { delivered := s.delivered.told snapshot.rows
        client := applyCatalogDelta s.client packet
        shown := snapshot } := by
  simp [step, hpacket]

theorem settled_init : Settled init where
  matching :=
    { distinct := List.nodup_nil
      rows := fun _ => Option.Rel.none
      ordered := List.Pairwise.nil }
  faithful := Or.inl rfl

theorem faithful_step
    {s : CatalogState}
    (h : Matches s.client s.shown)
    (hfaithful : Faithful s.delivered s.shown)
    (op : CatalogOp) :
    Faithful (s.step op).delivered (s.step op).shown := by
  cases op with
  | standby =>
      exact Or.inl rfl
  | tick snapshot sent =>
      cases hpacket : s.delivered.packet snapshot.rows with
      | none =>
          rw [step_nothing hpacket]
          exact (h.of_nothing_to_say hfaithful hpacket).2
      | some packet =>
          cases sent with
          | false =>
              rw [step_unsent hpacket]
              exact hfaithful
          | true =>
              rw [step_sent hpacket]
              exact faithful_told s.delivered snapshot

theorem matches_step_iff
    {s : CatalogState}
    (h : s.Settled)
    (op : CatalogOp) :
    Matches (s.step op).client (s.step op).shown ↔ FieldsKept s op := by
  cases op with
  | standby =>
      exact iff_of_true h.matching trivial
  | tick snapshot sent =>
      cases hpacket : s.delivered.packet snapshot.rows with
      | none =>
          have hmatches := (h.matching.of_nothing_to_say h.faithful hpacket).1
          rw [step_nothing hpacket]
          refine iff_of_true hmatches ?_
          cases sent <;> simp [FieldsKept, hpacket]
      | some packet =>
          cases sent with
          | false =>
              rw [step_unsent hpacket]
              exact iff_of_true h.matching trivial
          | true =>
              have hheld : ∀ id, s.previous id = heldRow s.client packet id := by
                intro id
                rw [previous, heldRow, (packet_eq_some hpacket).1]
              rw [step_sent hpacket]
              simp only [FieldsKept, hpacket, Option.isSome_some, forall_const, hheld]
              exact matches_applyCatalogDelta_iff h.matching h.faithful hpacket

theorem settled_step_iff
    (s : CatalogState)
    (op : CatalogOp)
    (h : s.Settled) :
    (s.step op).Settled ↔ FieldsKept s op :=
  ⟨fun hnext => (matches_step_iff h op).1 hnext.matching,
    fun hkept => ⟨(matches_step_iff h op).2 hkept, faithful_step h.matching h.faithful op⟩⟩

theorem settled_run
    {s : CatalogState}
    (hs : s.Settled)
    {ops : List CatalogOp}
    (h : ∀ k, Matches (Machine.run step s (ops.take k)).client
      (Machine.run step s (ops.take k)).shown)
    (k : Nat) :
    (Machine.run step s (ops.take k)).Settled := by
  induction ops generalizing s k with
  | nil =>
      simpa using hs
  | cons op ops ih =>
      cases k with
      | zero =>
          exact hs
      | succ k =>
          exact ih ⟨h 1, faithful_step hs.matching hs.faithful op⟩ (fun k => h (k + 1)) k

/--
The client has the rows of the last list throughout a run, in order, exactly if every
published packet of the run keeps the workspace fields it has no entry for.
-/
theorem converges (ops : List CatalogOp) :
    (∀ k, Matches (Machine.run step init (ops.take k)).client
      (Machine.run step init (ops.take k)).shown) ↔
        Machine.Guarded step FieldsKept init ops := by
  rw [← Machine.forall_run_iff_guarded settled_step_iff settled_init]
  exact ⟨fun h => settled_run settled_init h, fun h k => (h k).matching⟩

end CatalogState

/-! ## A session that moves -/

def workspaceRow (id workspace name : String) : Row :=
  [("sessionId", .str id), ("workspaceId", .str workspace), ("workspaceName", .str name)]

theorem workspaceRow_realTimes (id workspace name : String) :
    (workspaceRow id workspace name).RealTimes := by
  intro key hkey n hat
  simp only [List.mem_cons, List.not_mem_nil, or_false] at hkey
  rcases hkey with rfl | rfl <;> cases hat

/-- Two workspaces with a session each, and a third session in the first one. -/
def beforeMove : Snapshot where
  rows := [workspaceRow "s1" "w1" "docs", workspaceRow "s2" "w1" "docs",
    workspaceRow "s3" "w2" "code"]
  named := by simp [workspaceRow, Row.field, Fields.lookup]
  distinct := by decide
  agree := by decide
  realTimes := by simp [workspaceRow_realTimes]

/-- The third session is in the other workspace. -/
def afterMove : Snapshot where
  rows := [workspaceRow "s1" "w2" "code", workspaceRow "s2" "w1" "docs",
    workspaceRow "s3" "w2" "code"]
  named := by simp [workspaceRow, Row.field, Fields.lookup]
  distinct := by decide
  agree := by decide
  realTimes := by simp [workspaceRow_realTimes]

/-- The dictionary stays what it was, and the row that has moved keeps the old name. -/
theorem moved_session_keeps_old_name :
    ¬ Matches (Machine.run CatalogState.step CatalogState.init
      [.tick beforeMove true, .tick afterMove true]).client afterMove := by
  intro h
  have hclient : (rowFor "s1" (Machine.run CatalogState.step CatalogState.init
      [.tick beforeMove true, .tick afterMove true]).client).map
        (Row.field · "workspaceName") = some (.str "docs") := by
    decide +kernel
  have hrow : rowFor "s1" afterMove.rows = some (workspaceRow "s1" "w2" "code") := rfl
  have hrel := h.rows "s1"
  rw [hrow] at hrel
  obtain ⟨held, hheld, hsame⟩ := some_of_rel hrel
  rw [hheld, Option.map_some, hsame] at hclient
  exact absurd hclient (by decide)

end Remote
end FutureOs
