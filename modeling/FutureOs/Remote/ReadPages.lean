import FutureOs.Lib.Base64
import FutureOs.Lib.Json
import FutureOs.Lib.Machine
import Mathlib.Data.List.MinMax
import Mathlib.Data.List.Nodup

/-!
# Read pages

An answer too large for one reply is kept on the desktop as an immutable snapshot,
and the reply carries its first chunk.  The client asks for the others by the name of
the snapshot and an offset.  The cache of snapshots is bounded: what is old goes, and
so does the oldest when there is no room.

* the cache holds at most `maxCacheBytes` in every run (`size_cacheOf`);
* what is cached under a name, and every page of that name, comes from the answer of
  a command that was given the name (`kept_cacheOf`, `pageOf_answers`).
-/

namespace FutureOs
namespace Remote
namespace ReadPages

def pageThreshold : Nat := 512 * 1024
def chunkBytes : Nat := 192 * 1024
def maxSnapshotBytes : Nat := 16 * 1024 * 1024
def maxCacheBytes : Nat := 32 * 1024 * 1024

/-- Two minutes, in milliseconds. -/
def ttl : Nat := 120 * 1000

structure Owner where
  bridge : String
  session : String
  run : String
deriving DecidableEq

/-- The fields of a command that paging reads. -/
structure IncomingCmd where
  cmdType : String
  chunkedRead : Bool
  bridgeInstanceId : String
  sessionId : String
  runId : String
  replyId : String
  offset : Int

def IncomingCmd.owner (cmd : IncomingCmd) : Owner :=
  ⟨cmd.bridgeInstanceId, cmd.sessionId, cmd.runId⟩

structure Snapshot where
  owner : Owner
  bytes : Bytes
  created : Nat

/-- One page of a snapshot: the JSON that addresses it, and its bytes. -/
structure Page where
  header : Json
  body : Bytes

/-- The address of a chunk. -/
def address (id : String) (offset nextOffset totalBytes : Nat) : List (String × Json) :=
  [("id", .str id), ("nextOffset", .num (.posInt nextOffset)),
    ("offset", .num (.posInt offset)), ("totalBytes", .num (.posInt totalBytes))]

def header (id : String) (offset nextOffset totalBytes : Nat) : Json :=
  .obj [("readChunk", .obj (address id offset nextOffset totalBytes))]

def chunk (id : String) (snapshot : Snapshot) (offset : Nat) : Except String Page :=
  if snapshot.bytes.length ≤ offset ∨ offset % chunkBytes ≠ 0 then
    .error "remote_read_invalid_offset"
  else
    let last := min (offset + chunkBytes) snapshot.bytes.length
    .ok ⟨header id offset last snapshot.bytes.length,
      (snapshot.bytes.drop offset).take (last - offset)⟩

/-! ## The cache -/

/-- The snapshots by name. -/
abbrev Cache := List (String × Snapshot)

namespace Cache

def size (cache : Cache) : Nat :=
  (cache.map (·.2.bytes.length)).sum

def prune (now : Nat) (cache : Cache) : Cache :=
  cache.filter fun entry => now - entry.2.created < ttl

/--
The name of the oldest snapshot.  Of two of one age the code takes the one its map
lists first; here that is the order of the names.
-/
def oldest (cache : Cache) : Option String :=
  (cache.argmin (·.2.created)).map (·.1)

theorem mem_of_oldest
    {cache : Cache}
    {key : String}
    (h : cache.oldest = some key) :
    ∃ snapshot, (key, snapshot) ∈ cache := by
  obtain ⟨entry, hentry, rfl⟩ := Option.map_eq_some_iff.1 h
  exact ⟨entry.2, List.argmin_mem hentry⟩

theorem length_erase_lt
    {cache : Cache}
    {key : String}
    (h : cache.oldest = some key) :
    (Fields.erase key cache).length < cache.length := by
  obtain ⟨snapshot, hmem⟩ := mem_of_oldest h
  exact List.length_filter_lt_length_iff_exists.2 ⟨_, hmem, by simp⟩

/-- Drop the oldest while what comes in does not fit. -/
def makeRoom (incoming : Nat) (cache : Cache) : Cache :=
  if maxCacheBytes < cache.size + incoming then
    match _h : cache.oldest with
    | some key => makeRoom incoming (Fields.erase key cache)
    | none => cache
  else
    cache
termination_by cache.length
decreasing_by exact length_erase_lt _h

/-- `id` is the name generated for the snapshot. -/
def insert (now : Nat) (id : String) (owner : Owner) (bytes : Bytes) (cache : Cache) :
    Except String Page × Cache :=
  if maxSnapshotBytes < bytes.length then
    (.error "remote_read_too_large", cache)
  else
    let cache := makeRoom bytes.length (cache.prune now)
    let snapshot : Snapshot := ⟨owner, bytes, now⟩
    match chunk id snapshot 0 with
    | .error e => (.error e, cache)
    | .ok page => (.ok page, Fields.insert id snapshot cache)

def read (now : Nat) (cmd : IncomingCmd) (cache : Cache) : Except String Page × Cache :=
  let cache := cache.prune now
  (match Fields.lookup cmd.replyId cache with
    | none => .error "remote_read_expired"
    | some snapshot =>
        if snapshot.owner ≠ cmd.owner then
          .error "remote_read_owner_mismatch"
        else if cmd.offset < 0 then
          .error "remote_read_invalid_offset"
        else
          chunk cmd.replyId snapshot cmd.offset.toNat,
    cache)

end Cache

/-! ## Replies -/

/-- What a sink is handed. -/
inductive Reply
  | send (success : Bool) (data : Json) (error : Option String)
  | sendBinary (page : Page)

def pageable : List String :=
  ["get_session_entries", "get_event_content_range", "get_events_since", "get_messages",
    "list_session_files", "list_settings_models", "list_providers",
    "list_available_skills", "list_skills"]

/-- The JSON text of an answer. -/
def toVec (data : Json) : Bytes :=
  Utf8.encode (Json.compact data)

/-- `PagedReply::send`. -/
def pagedSend (now : Nat) (id : String) (cmd : IncomingCmd) (success : Bool) (data : Json)
    (error : Option String) (cache : Cache) : Reply × Cache :=
  if success && (cmd.chunkedRead && pageable.contains cmd.cmdType) &&
      decide (pageThreshold < (toVec data).length) then
    match cache.insert now id cmd.owner (toVec data) with
    | (.ok page, cache) => (.sendBinary page, cache)
    | (.error e, cache) => (.send false .null (some e), cache)
  else
    (.send success data error, cache)

/--
One command at the desktop.  `outcome` is what the business code hands to the reply,
and `id` the name a snapshot made for it gets.
-/
structure Call where
  now : Nat
  cmd : IncomingCmd
  id : String
  success : Bool
  data : Json
  error : Option String

/-- `DesktopHost::execute`. -/
def Call.execute (call : Call) (cache : Cache) : Reply × Cache :=
  if call.cmd.cmdType = "get_read_chunk" then
    match cache.read call.now call.cmd with
    | (.ok page, cache) => (.sendBinary page, cache)
    | (.error e, cache) => (.send false .null (some e), cache)
  else
    pagedSend call.now call.id call.cmd call.success call.data call.error cache

/-- A command, the regular pruning, or the end of remote access. -/
inductive HostOp
  | call (call : Call)
  | prune (now : Nat)
  | clear

def step (cache : Cache) : HostOp → Cache
  | .call call => (call.execute cache).2
  | .prune now => cache.prune now
  | .clear => []

/-- The cache after a run of the desktop. -/
def cacheOf (ops : List HostOp) : Cache :=
  Machine.run step [] ops

/-- The command of an operation. -/
def issued : HostOp → Option Call
  | .call call => some call
  | _ => none

/-- Every command has a snapshot name of its own. -/
def FreshIds (ops : List HostOp) : Prop :=
  ((ops.filterMap issued).map (·.id)).Nodup

/-- The run answers the command so. -/
def Answers (ops : List HostOp) (call : Call) (reply : Reply) : Prop :=
  ∃ before after, ops = before ++ .call call :: after ∧
    reply = (call.execute (cacheOf before)).1

/-! ## Carriers -/

/-- What a request gives the client: the JSON, and bytes carried beside it. -/
structure Response where
  data : Json
  chunkBytes : Option Bytes

def withBase64Page (header : Json) (body : Bytes) : Json :=
  match header.get? "readChunk" with
  | some (.obj fields) =>
      header.set "readChunk"
        (.obj (Fields.insert "data" (.str (String.ofList (Base64.encode body))) fields))
  | _ => header

/-- What the client gets of a reply, by either carrier; a failed reply is thrown. -/
def respond (binary : Bool) : Reply → Except String Response
  | .send true data _ => .ok ⟨data, none⟩
  | .send false _ error => .error (error.getD "command_failed")
  | .sendBinary page =>
      if binary then
        .ok ⟨page.header, some page.body⟩
      else
        .ok ⟨withBase64Page page.header page.body, none⟩

/-! ## The bound of the cache -/

namespace Cache

@[simp] theorem size_nil : size [] = 0 := rfl

@[simp] theorem size_cons (entry : String × Snapshot) (cache : Cache) :
    size (entry :: cache) = entry.2.bytes.length + size cache := by
  simp [size]

theorem size_filter_le (p : String × Snapshot → Bool) (cache : Cache) :
    size (cache.filter p) ≤ size cache := by
  induction cache with
  | nil =>
      simp
  | cons entry cache ih =>
      rw [List.filter_cons]
      split
      · simp only [size_cons]
        omega
      · rw [size_cons]
        omega

theorem size_insert_le (id : String) (snapshot : Snapshot) (cache : Cache) :
    size (Fields.insert id snapshot cache) ≤ size cache + snapshot.bytes.length := by
  induction cache with
  | nil =>
      simp [Fields.insert]
  | cons entry cache ih =>
      obtain ⟨key, kept⟩ := entry
      rw [Fields.insert]
      split
      · simp only [size_cons]
        omega
      · split
        · simp only [size_cons]
          omega
        · simp only [size_cons]
          omega

theorem makeRoom_sublist (incoming : Nat) (cache : Cache) :
    (makeRoom incoming cache).Sublist cache := by
  fun_induction makeRoom incoming cache with
  | case1 cache _ key _ ih =>
      exact ih.trans List.filter_sublist
  | case2 =>
      exact List.Sublist.refl _
  | case3 =>
      exact List.Sublist.refl _

/-- After making room, what comes in fits. -/
theorem size_makeRoom
    {incoming : Nat}
    (h : incoming ≤ maxCacheBytes)
    (cache : Cache) :
    (makeRoom incoming cache).size + incoming ≤ maxCacheBytes := by
  fun_induction makeRoom incoming cache with
  | case1 cache _ key _ ih =>
      exact ih
  | case2 cache _ hnone =>
      have hempty : cache = [] := by simpa [oldest] using hnone
      subst hempty
      simpa using h
  | case3 cache hfits =>
      omega

theorem size_insert_cache
    {cache : Cache}
    (h : cache.size ≤ maxCacheBytes)
    (now : Nat)
    (id : String)
    (owner : Owner)
    (bytes : Bytes) :
    (cache.insert now id owner bytes).2.size ≤ maxCacheBytes := by
  rw [insert]
  split
  · exact h
  · rename_i hsmall
    have hincoming : bytes.length ≤ maxCacheBytes := by
      simp only [maxSnapshotBytes, maxCacheBytes] at hsmall ⊢
      omega
    have hroom := size_makeRoom hincoming (cache.prune now)
    dsimp only
    split
    · dsimp only
      omega
    · exact le_trans (size_insert_le _ _ _) hroom

end Cache

theorem size_execute
    {cache : Cache}
    (h : cache.size ≤ maxCacheBytes)
    (call : Call) :
    (call.execute cache).2.size ≤ maxCacheBytes := by
  have hread : (cache.read call.now call.cmd).2.size ≤ maxCacheBytes :=
    le_trans (Cache.size_filter_le _ cache) h
  have hinsert := Cache.size_insert_cache h call.now call.id call.cmd.owner (toVec call.data)
  rw [Call.execute]
  split
  · split
    · rename_i heq
      rwa [heq] at hread
    · rename_i heq
      rwa [heq] at hread
  · rw [pagedSend]
    split
    · split
      · rename_i heq
        rwa [heq] at hinsert
      · rename_i heq
        rwa [heq] at hinsert
    · exact h

/-- The cache never holds more than its bound. -/
theorem size_cacheOf (ops : List HostOp) : (cacheOf ops).size ≤ maxCacheBytes := by
  refine Machine.run_invariant (I := fun cache : Cache => cache.size ≤ maxCacheBytes) ?_
    (by simp) ops
  intro cache op h
  cases op with
  | call call => exact size_execute h call
  | prune now => exact le_trans (Cache.size_filter_le _ cache) h
  | clear => simp [step]

/-! ## Where a page comes from -/

/-- What is kept under a name is the answer of a command that was given that name. -/
def Kept (calls : List Call) (cache : Cache) : Prop :=
  ∀ entry ∈ cache, ∃ call ∈ calls, entry.1 = call.id ∧ entry.2.owner = call.cmd.owner ∧
    entry.2.bytes = toVec call.data ∧ entry.2.bytes.length ≤ maxSnapshotBytes

theorem Kept.mono
    {calls : List Call}
    {cache cache' : Cache}
    (h : Kept calls cache)
    (hsub : ∀ entry ∈ cache', entry ∈ cache) :
    Kept calls cache' :=
  fun entry hentry => h entry (hsub entry hentry)

theorem Kept.insert
    {calls : List Call}
    {cache : Cache}
    (h : Kept calls cache)
    {call : Call}
    (hcall : call ∈ calls) :
    Kept calls (cache.insert call.now call.id call.cmd.owner (toVec call.data)).2 := by
  rw [Cache.insert]
  split
  · exact h
  · rename_i hsmall
    have hroom : Kept calls (Cache.makeRoom (toVec call.data).length (cache.prune call.now)) :=
      h.mono fun entry hentry =>
        List.mem_of_mem_filter ((Cache.makeRoom_sublist _ _).subset hentry)
    dsimp only
    split
    · exact hroom
    · intro entry hentry
      rcases Fields.mem_insert hentry with rfl | hmem
      · exact ⟨call, hcall, rfl, rfl, rfl, Nat.le_of_not_lt hsmall⟩
      · exact hroom entry hmem

theorem Kept.step
    {calls : List Call}
    {cache : Cache}
    (h : Kept calls cache)
    {op : HostOp}
    (hop : ∀ call, op = .call call → call ∈ calls) :
    Kept calls (ReadPages.step cache op) := by
  cases op with
  | prune now =>
      exact h.mono fun entry hentry => List.mem_of_mem_filter hentry
  | clear =>
      intro entry hentry
      exact absurd hentry List.not_mem_nil
  | call call =>
      have hread : Kept calls (cache.read call.now call.cmd).2 :=
        h.mono fun entry hentry => List.mem_of_mem_filter hentry
      have hinsert := h.insert (hop call rfl)
      simp only [ReadPages.step, Call.execute]
      split
      · split
        · rename_i heq
          rwa [heq] at hread
        · rename_i heq
          rwa [heq] at hread
      · rw [pagedSend]
        split
        · split
          · rename_i heq
            rwa [heq] at hinsert
          · rename_i heq
            rwa [heq] at hinsert
        · exact h

theorem mem_issued
    {ops : List HostOp}
    {call : Call} :
    call ∈ ops.filterMap issued ↔ .call call ∈ ops := by
  constructor
  · intro h
    obtain ⟨op, hop, hcall⟩ := List.mem_filterMap.1 h
    cases op with
    | call c =>
        obtain rfl : c = call := by simpa [issued] using hcall
        exact hop
    | prune => simp [issued] at hcall
    | clear => simp [issued] at hcall
  · intro h
    exact List.mem_filterMap.2 ⟨_, h, rfl⟩

theorem kept_cacheOf
    {ops : List HostOp}
    {calls : List Call}
    (hops : ∀ call, .call call ∈ ops → call ∈ calls) :
    Kept calls (cacheOf ops) := by
  have hguard : Machine.Guarded step (fun _ op => op ∈ ops) [] ops :=
    Machine.guarded_of_invariant (I := fun _ => True) (fun _ _ _ hop => ⟨hop, trivial⟩)
      trivial fun op hop => hop
  refine Machine.Guarded.invariant (fun cache op h hop => ?_) ?_ hguard
  · exact h.step fun call heq => hops call (heq ▸ hop)
  · intro entry hentry
    exact absurd hentry List.not_mem_nil

/-- The page is a chunk of the answer of the command. -/
def PageOf (source : Call) (page : Page) : Prop :=
  ∃ snapshot : Snapshot, ∃ offset, snapshot.owner = source.cmd.owner ∧
    snapshot.bytes = toVec source.data ∧ snapshot.bytes.length ≤ maxSnapshotBytes ∧
    chunk source.id snapshot offset = .ok page

theorem pageOf_read
    {calls : List Call}
    {cache : Cache}
    (h : Kept calls cache)
    {now : Nat}
    {cmd : IncomingCmd}
    {page : Page}
    (hpage : (cache.read now cmd).1 = .ok page) :
    ∃ source ∈ calls, source.id = cmd.replyId ∧ source.cmd.owner = cmd.owner ∧
      PageOf source page := by
  simp only [Cache.read] at hpage
  split at hpage
  · cases hpage
  · rename_i snapshot hlook
    obtain ⟨source, hsource, hid, howner, hbytes, hsmall⟩ :=
      h _ (List.mem_of_mem_filter (Fields.mem_of_lookup hlook))
    split at hpage
    · cases hpage
    · rename_i hsame
      split at hpage
      · cases hpage
      · dsimp only at hid howner hbytes hsmall
        rw [hid] at hpage
        refine ⟨source, hsource, hid.symm, ?_, snapshot, _, howner, hbytes, hsmall, hpage⟩
        rw [← howner]
        exact not_not.1 hsame

/-- A page is a chunk of the answer of a command that was given the page's name. -/
theorem pageOf_execute
    {calls : List Call}
    {cache : Cache}
    (h : Kept calls cache)
    {call : Call}
    (hcall : call ∈ calls)
    {page : Page}
    (hpage : (call.execute cache).1 = .sendBinary page) :
    ∃ source ∈ calls, PageOf source page := by
  rw [Call.execute] at hpage
  split at hpage
  · split at hpage
    · rename_i read _ heq
      obtain rfl : read = page := Reply.sendBinary.inj hpage
      obtain ⟨source, hsource, _, _, hof⟩ := pageOf_read h (congrArg Prod.fst heq)
      exact ⟨source, hsource, hof⟩
    · cases hpage
  · rw [pagedSend] at hpage
    split at hpage
    · split at hpage
      · rename_i first _ heq
        obtain rfl : first = page := Reply.sendBinary.inj hpage
        rw [Cache.insert] at heq
        split at heq
        · cases heq
        · rename_i hsmall
          dsimp only at heq
          split at heq
          · cases heq
          · rename_i made hmade
            obtain rfl : made = first := Except.ok.inj (congrArg Prod.fst heq)
            exact ⟨call, hcall, _, 0, rfl, rfl, Nat.le_of_not_lt hsmall, hmade⟩
      · cases hpage
    · cases hpage

theorem pageOf_answers
    {ops : List HostOp}
    {call : Call}
    {page : Page}
    (h : Answers ops call (.sendBinary page)) :
    ∃ source ∈ ops.filterMap issued, PageOf source page := by
  obtain ⟨before, after, rfl, hreply⟩ := h
  refine pageOf_execute (kept_cacheOf fun c hc => ?_) ?_ hreply.symm
  · exact mem_issued.2 (List.mem_append_left _ hc)
  · exact mem_issued.2 (List.mem_append_right _ List.mem_cons_self)

theorem FreshIds.eq_of_id
    {ops : List HostOp}
    (h : FreshIds ops)
    {call call' : Call}
    (hcall : call ∈ ops.filterMap issued)
    (hcall' : call' ∈ ops.filterMap issued)
    (hid : call.id = call'.id) :
    call = call' :=
  List.inj_on_of_nodup_map h hcall hcall' hid

end ReadPages
end Remote
end FutureOs
