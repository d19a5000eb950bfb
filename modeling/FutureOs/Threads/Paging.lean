import FutureOs.Lib.Digraph
import FutureOs.Lib.Keyset
import FutureOs.Lib.Text
import Mathlib.Data.Prod.Lex

/-!
# Pages of conversations

The rail shows conversations by pages of roots: a page is a set of roots, newest first,
each followed by what was forked from it.  Pinned conversations lead the list and are
read whole.

`rootRows_none` and `rootRows_after` read the roots of a page off the sorted list of roots.
-/

namespace FutureOs
namespace Threads

/-! ## Records -/

/-- What the lists read of a workspace. -/
structure Workspace where
  id : String
  archivedAt : Option Int
deriving DecidableEq

/-- What the lists read of a conversation. -/
structure Thread where
  id : String
  workspaceId : String
  mode : String
  status : String
  pinned : Bool
  agentSessionId : Option String
  parentSessionId : Option String
  lastMessageAt : Option Int
  updatedAt : Int
  deletedAt : Option Int
deriving DecidableEq

/-- An SQLite integer. -/
def IsStamp (n : Int) : Prop :=
  -2 ^ 63 ≤ n ∧ n < 2 ^ 63

instance (n : Int) : Decidable (IsStamp n) :=
  inferInstanceAs (Decidable (_ ∧ _))

/--
`COALESCE(last_message_at, updated_at, created_at)`; the second is never null, so the
third does not matter.
-/
def Thread.activity (t : Thread) : Int :=
  t.lastMessageAt.getD t.updatedAt

/-- SQLite's `TRIM`, which takes off blanks only. -/
def trimBlanks (s : String) : String :=
  String.ofList (((s.toList.dropWhile (· = ' ')).reverse.dropWhile (· = ' ')).reverse)

/-- `COALESCE(NULLIF(TRIM(agent_session_id), ''), id)`. -/
def Thread.sessionKey (t : Thread) : String :=
  ((t.agentSessionId.map trimBlanks).filter (· ≠ "")).getD t.id

/-- The order of the lists: activity, then id, by code points as by UTF-8 bytes. -/
def Thread.key (t : Thread) : Int ×ₗ String :=
  toLex (t.activity, t.id)

/-- The two tables, with their primary keys. -/
structure Store where
  workspaces : List Workspace
  threads : List Thread
  workspace_ids : (workspaces.map (·.id)).Nodup
  thread_ids : (threads.map (·.id)).Nodup
  stamps : ∀ t ∈ threads, IsStamp t.activity

/-! ## Scopes -/

inductive ThreadScope
  | chat
  | workspace (id : String)
  | archivedWorkspace (id : String)
  | recent
  | archived
  | shelved
deriving DecidableEq

namespace ThreadScope

/-- `thread_scope_filter`, over a conversation and its workspace. -/
def filter (scope : ThreadScope) (t : Thread) (w : Workspace) : Bool :=
  match scope with
  | chat => t.status = "active" && t.deletedAt.isNone && t.mode = "chat" && w.archivedAt.isNone
  | workspace id =>
      t.status = "active" && t.deletedAt.isNone && t.workspaceId = id && w.archivedAt.isNone
  | archivedWorkspace id =>
      t.deletedAt.isNone && t.workspaceId = id && (t.status = "archived" || w.archivedAt.isSome)
  | recent => t.status = "active" && t.deletedAt.isNone && w.archivedAt.isNone
  | archived => t.status = "archived" && t.deletedAt.isNone && w.archivedAt.isNone
  | shelved => t.deletedAt.isNone && (t.status = "archived" || w.archivedAt.isSome)

/--
`qualify_filter(filter, "p", "pw")`: the filter for a parent.  The aliases are renamed in
the text of the filter, and so is whatever looks like one inside the id of a workspace.
-/
def qualified : ThreadScope → ThreadScope
  | workspace id => workspace (Text.replace "w." "pw." (Text.replace "t." "p." id))
  | archivedWorkspace id =>
      archivedWorkspace (Text.replace "w." "pw." (Text.replace "t." "p." id))
  | scope => scope

end ThreadScope

namespace Store

/-- The row joins its workspace and passes the filter. -/
def admits (store : Store) (scope : ThreadScope) (t : Thread) : Bool :=
  match store.workspaces.find? (·.id = t.workspaceId) with
  | none => false
  | some w => scope.filter t w

/-- `root_predicate`: no conversation visible in the scope is the parent. -/
def rootPredicate (store : Store) (scope : ThreadScope) (t : Thread) : Bool :=
  match t.parentSessionId with
  | none => true
  | some parent => !store.threads.any fun p =>
      p.deletedAt.isNone && p.sessionKey = parent && store.admits scope.qualified p

/-- What the pages count as roots. -/
def isRoot (store : Store) (scope : ThreadScope) (t : Thread) : Bool :=
  store.admits scope t && !t.pinned && store.rootPredicate scope t

end Store

/-- `ORDER BY activity DESC, id DESC`. -/
def newestFirst (rows : List Thread) : List Thread :=
  rows.insertionSort fun a b => b.key ≤ a.key

/-! ## Cursors -/

def encodeCursor (stamp : Int) (id : String) : String :=
  toString stamp ++ String.singleton ':' ++ id

def decodeCursor (raw : String) : Option (Int × String) := do
  let (stamp, id) ← Text.splitOnce ':' raw
  return (← Text.parseI64 stamp, id)

theorem decodeCursor_encodeCursor
    {stamp : Int}
    (h : IsStamp stamp)
    (id : String) :
    decodeCursor (encodeCursor stamp id) = some (stamp, id) := by
  rw [decodeCursor, encodeCursor, Text.splitOnce_append (Text.notMem_toString stamp)]
  change ((Text.parseI64 (toString stamp)).bind fun n => some (n, id)) = _
  rw [Text.parseI64_toString h.1 h.2, Option.bind_some]

/-! ## Pages -/

structure ThreadsPage where
  threads : List Thread
  nextCursor : Option String
  totalRoots : Nat
deriving DecidableEq

namespace Store

/-- The rows of the roots query. -/
def rootRows (store : Store) (scope : ThreadScope) (cursor : Option (Int × String))
    (limit : Nat) : List Thread :=
  (newestFirst (store.threads.filter fun t => store.isRoot scope t &&
    match cursor with
    | none => true
    | some (stamp, id) => decide (t.key < toLex (stamp, id)))).take limit

/-- The recursive step of `subtree`: from a conversation to a fork that is not deleted. -/
def forks (store : Store) : List (String × String) :=
  store.threads.flatMap fun s =>
    (store.threads.filter fun t =>
      t.parentSessionId = some s.sessionKey && t.deletedAt.isNone).map fun t => (s.id, t.id)

/-- The ids of `subtree`, the least set that has the roots and is closed under forks. -/
def subtree (store : Store) (rootIds : List String) : List String :=
  (store.threads.map (·.id)).filter fun id =>
    Digraph.meets store.forks id (Digraph.walkFuel store.forks rootIds []) rootIds []

def descendantsOf (store : Store) (rootIds : List String) (scope : ThreadScope) :
    List Thread :=
  if rootIds = [] then
    []
  else
    newestFirst (store.threads.filter fun t =>
      (store.subtree rootIds).contains t.id && !rootIds.contains t.id && store.admits scope t)

def listThreadsPage (store : Store) (scope : ThreadScope) (cursor : Option String)
    (limit : Int) : ThreadsPage :=
  let limit := (max 1 (min limit 100)).toNat
  let rows := store.rootRows scope (cursor.bind decodeCursor) limit
  { threads := rows ++ store.descendantsOf (rows.map (·.id)) scope
    nextCursor :=
      if rows.length = limit then
        rows.getLast?.map fun t => encodeCursor t.activity t.id
      else
        none
    totalRoots := (store.threads.filter (store.isRoot scope)).length }

def listPinnedThreads (store : Store) (scope : ThreadScope) : List Thread :=
  newestFirst (store.threads.filter fun t => store.admits scope t && t.pinned)

end Store

/-- Reading on from a cursor until there is none. -/
inductive Follows (store : Store) (scope : ThreadScope) (limit : Int) :
    Option String → List ThreadsPage → Prop
  | last
      {cursor : Option String}
      (h : (store.listThreadsPage scope cursor limit).nextCursor = none) :
      Follows store scope limit cursor [store.listThreadsPage scope cursor limit]
  | more
      {cursor : Option String}
      {next : String}
      {rest : List ThreadsPage}
      (h : (store.listThreadsPage scope cursor limit).nextCursor = some next)
      (hrest : Follows store scope limit (some next) rest) :
      Follows store scope limit cursor (store.listThreadsPage scope cursor limit :: rest)

/-! ## The roots of a page -/

namespace Store

variable (store : Store)
variable (scope : ThreadScope)

/-- The roots of the scope, in the order of the list. -/
def roots : List Thread :=
  newestFirst (store.threads.filter (store.isRoot scope))

theorem keys_nodup : (store.threads.map Thread.key).Nodup := by
  have hids : (store.threads.map Thread.key).map (fun k => (ofLex k).2) =
      store.threads.map (·.id) := by
    simp [Thread.key, Function.comp_def]
  exact List.Nodup.of_map (fun k => (ofLex k).2) (hids ▸ store.thread_ids)

theorem picked_nodup (p : Thread → Bool) :
    ((store.threads.filter p).map Thread.key).Nodup :=
  store.keys_nodup.sublist (List.filter_sublist.map _)

theorem mem_newestFirst
    {rows : List Thread}
    {t : Thread} :
    t ∈ newestFirst rows ↔ t ∈ rows :=
  (List.perm_insertionSort _ rows).mem_iff

theorem mem_roots
    {store : Store}
    {scope : ThreadScope}
    {t : Thread} :
    t ∈ store.roots scope ↔ t ∈ store.threads ∧ store.isRoot scope t = true := by
  rw [roots, mem_newestFirst, List.mem_filter]

theorem descending_roots : Keyset.Descending Thread.key (store.roots scope) :=
  Keyset.descending_insertionSort (store.picked_nodup _)

theorem rootRows_none (limit : Nat) :
    store.rootRows scope none limit = (store.roots scope).take limit := by
  simp [rootRows, roots]

/-- Behind a cursor come the roots behind its row. -/
theorem rootRows_after
    {front back : List Thread}
    {a : Thread}
    (h : store.roots scope = front ++ a :: back)
    (limit : Nat) :
    store.rootRows scope (some (a.activity, a.id)) limit = back.take limit := by
  have hsplit : (store.threads.filter fun t => store.isRoot scope t &&
      decide (t.key < toLex (a.activity, a.id))) =
        (store.threads.filter (store.isRoot scope)).filter fun t => decide (t.key < a.key) := by
    rw [List.filter_filter]
    refine List.filter_congr fun t _ => ?_
    rw [Bool.and_comm]
    rfl
  have hsorted := Keyset.insertionSort_filter (store.picked_nodup (store.isRoot scope))
    fun t => decide (t.key < a.key)
  have hdescending := store.descending_roots scope
  rw [roots, newestFirst] at h
  rw [roots, newestFirst, h] at hdescending
  rw [rootRows, newestFirst, hsplit, hsorted, h, Keyset.filter_lt_of_split hdescending]

/-- The page that has these roots. -/
def pageOf (limit : Nat) (rows : List Thread) : ThreadsPage where
  threads := rows ++ store.descendantsOf (rows.map (·.id)) scope
  nextCursor :=
    if rows.length = limit then
      rows.getLast?.map fun t => encodeCursor t.activity t.id
    else
      none
  totalRoots := (store.threads.filter (store.isRoot scope)).length

end Store

/-- The bound of a page as the code takes it. -/
def pageLimit (limit : Int) : Nat :=
  (max 1 (min limit 100)).toNat

theorem pageLimit_pos (limit : Int) : 0 < pageLimit limit := by
  rw [pageLimit]
  omega

/-- Where reading stands behind the rows of `front`. -/
def cursorAfter (front : List Thread) : Option String :=
  front.getLast?.map fun t => encodeCursor t.activity t.id

theorem listThreadsPage_after
    {store : Store}
    {scope : ThreadScope}
    {front back : List Thread}
    (h : store.roots scope = front ++ back)
    (limit : Int) :
    store.listThreadsPage scope (cursorAfter front) limit =
      store.pageOf scope (pageLimit limit) (back.take (pageLimit limit)) := by
  have hrows : store.rootRows scope ((cursorAfter front).bind decodeCursor)
      (pageLimit limit) = back.take (pageLimit limit) := by
    rcases List.eq_nil_or_concat front with rfl | ⟨init, a, rfl⟩
    · rw [← List.nil_append back, ← h]
      exact store.rootRows_none scope _
    · have hmem : a ∈ store.roots scope := by simp [h]
      have hstamp := store.stamps a (Store.mem_roots.1 hmem).1
      rw [List.concat_eq_append, List.append_assoc, List.singleton_append] at h
      have hlast : (init ++ [a]).getLast? = some a := by simp
      rw [cursorAfter, List.concat_eq_append, hlast, Option.map_some, Option.bind_some,
        decodeCursor_encodeCursor hstamp]
      exact store.rootRows_after scope h _
  rw [← hrows]
  rfl

/-- Reading on gives the pages of the roots, from wherever it stands. -/
theorem follows_after
    {store : Store}
    {scope : ThreadScope}
    (limit : Int)
    {back : List Thread}
    {front : List Thread}
    (h : store.roots scope = front ++ back) :
    Follows store scope limit (cursorAfter front)
      ((Keyset.pagesOf (pageLimit limit) back).map (store.pageOf scope (pageLimit limit))) := by
  have hpos := pageLimit_pos limit
  have hpage := fun front back h => @listThreadsPage_after store scope front back h limit
  fun_induction Keyset.pagesOf (pageLimit limit) back generalizing front with
  | case1 back hfull ih =>
      have hsplit : store.roots scope =
          (front ++ back.take (pageLimit limit)) ++ back.drop (pageLimit limit) := by
        rw [List.append_assoc, List.take_append_drop, h]
      have hlength : (back.take (pageLimit limit)).length = pageLimit limit := by
        rw [List.length_take]
        omega
      have hne : back.take (pageLimit limit) ≠ [] :=
        List.ne_nil_of_length_pos (by omega)
      obtain ⟨a, ha⟩ := Option.isSome_iff_exists.1 (List.getLast?_isSome.2 hne)
      have hnext : (store.pageOf scope (pageLimit limit)
          (back.take (pageLimit limit))).nextCursor = some (encodeCursor a.activity a.id) := by
        rw [Store.pageOf, if_pos hlength, ha, Option.map_some]
      have hcursor : cursorAfter (front ++ back.take (pageLimit limit)) =
          some (encodeCursor a.activity a.id) := by
        rw [cursorAfter, List.getLast?_append, ha]
        rfl
      have hrest := ih hsplit
      rw [hcursor] at hrest
      rw [List.map_cons, ← hpage front back h]
      exact Follows.more (by rw [hpage front back h, hnext]) hrest
  | case2 back hlast =>
      have htake : back.take (pageLimit limit) = back :=
        List.take_of_length_le (by omega)
      have hnext : (store.pageOf scope (pageLimit limit) back).nextCursor = none := by
        rw [Store.pageOf, if_neg (by omega)]
      rw [List.map_singleton]
      have hhere := hpage front back h
      rw [htake] at hhere
      rw [← hhere]
      exact Follows.last (by rw [hhere, hnext])

theorem Follows.unique
    {store : Store}
    {scope : ThreadScope}
    {limit : Int}
    {cursor : Option String}
    {pages pages' : List ThreadsPage}
    (h : Follows store scope limit cursor pages)
    (h' : Follows store scope limit cursor pages') :
    pages = pages' := by
  induction h generalizing pages' with
  | last hnone =>
      cases h' with
      | last => rfl
      | more hsome => simp [hnone] at hsome
  | more hsome _ ih =>
      cases h' with
      | last hnone => simp [hnone] at hsome
      | more hsome' hrest =>
          obtain rfl := Option.some.inj (hsome.symm.trans hsome')
          rw [ih hrest]

/-- Reading on from the first page ends, and gives the pages of the roots. -/
theorem follows_iff
    (store : Store)
    (scope : ThreadScope)
    (limit : Int)
    (pages : List ThreadsPage) :
    Follows store scope limit none pages ↔
      pages = (Keyset.pagesOf (pageLimit limit) (store.roots scope)).map
        (store.pageOf scope (pageLimit limit)) := by
  have hfirst := @follows_after store scope limit (store.roots scope) [] rfl
  constructor
  · intro h
    exact h.unique hfirst
  · rintro rfl
    exact hfirst

end Threads
end FutureOs
