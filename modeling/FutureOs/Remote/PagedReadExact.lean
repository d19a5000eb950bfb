import FutureOs.Remote.PagedRead

/-!
# A paged read is the unpaged read

Whatever snapshots come and go meanwhile, a read gives the answer that was snapshotted
for its first reply or fails; and while that snapshot stays, it gives the answer.  The
last needs that the client asks for the chunks as the owner of the snapshot.
-/

namespace FutureOs
namespace Remote
namespace ReadPages

/-! ## Pages by either carrier -/

theorem chunk_eq_ok
    {id : String}
    {snapshot : Snapshot}
    {offset : Nat}
    {page : Page}
    (h : chunk id snapshot offset = .ok page) :
    offset < snapshot.bytes.length ∧ offset % chunkBytes = 0 ∧
      page = ⟨header id offset (min (offset + chunkBytes) snapshot.bytes.length)
        snapshot.bytes.length, (snapshot.bytes.drop offset).take
          (min (offset + chunkBytes) snapshot.bytes.length - offset)⟩ := by
  rw [chunk] at h
  split at h
  · cases h
  · rename_i hok
    exact ⟨by omega, by omega, (Except.ok.inj h).symm⟩

theorem safeInteger?_posInt
    {n : Nat}
    (h : n ≤ maxReadBytes) :
    safeInteger? (.num (.posInt n)) = some (n : Int) := by
  rw [safeInteger?, if_pos (by simp only [maxReadBytes] at h; omega)]

section Fields

variable {value read : Json}
variable {id : String}
variable {offset nextOffset totalBytes : Nat}

/-- The fields of a chunk as the client finds them. -/
structure Addressed (value read : Json) (id : String)
    (offset nextOffset totalBytes : Nat) : Prop where
  readChunk : value.get? "readChunk" = some read
  id : read.index "id" = .str id
  offset : read.index "offset" = .num (.posInt offset)
  nextOffset : read.index "nextOffset" = .num (.posInt nextOffset)
  totalBytes : read.index "totalBytes" = .num (.posInt totalBytes)

theorem Addressed.chunkOf
    (h : Addressed value read id offset nextOffset totalBytes)
    (hoffset : offset ≤ totalBytes)
    (hnext : nextOffset ≤ totalBytes)
    (hpos : 0 < totalBytes)
    (htotal : totalBytes ≤ maxReadBytes)
    (carried : Option Bytes) :
    ReadPages.chunkOf value carried =
      if isChunkId id then
        match carried, (read.index "data").asStr? with
        | some bytes, data =>
            if bytes = [] ∨ chunkBytes < bytes.length then
              invalidChunk
            else
              .ok (some ⟨⟨id, offset, nextOffset, totalBytes, data⟩, some bytes⟩)
        | none, some data =>
            if chunkBytes * 4 / 3 < (utf16 data.toList).length then
              invalidChunk
            else
              .ok (some ⟨⟨id, offset, nextOffset, totalBytes, some data⟩, none⟩)
        | none, none => invalidChunk
      else
        invalidChunk := by
  have hbounds : ¬ ((totalBytes : Int) ≤ 0 ∨ (maxReadBytes : Int) < totalBytes) := by omega
  have hid : chunkId? (.str id) = if isChunkId id then some id else none := rfl
  simp only [ReadPages.chunkOf, h.readChunk, h.id, h.offset, h.nextOffset, h.totalBytes, hid,
    safeInteger?_posInt (hoffset.trans htotal), safeInteger?_posInt (hnext.trans htotal),
    safeInteger?_posInt htotal]
  by_cases hok : isChunkId id = true
  · simp only [if_pos hok, if_neg hbounds, Int.toNat_natCast]
    cases carried with
    | some bytes => rfl
    | none => cases (read.index "data").asStr? <;> rfl
  · simp only [if_neg hok]

end Fields

theorem addressed_header (id : String) (offset nextOffset totalBytes : Nat) :
    Addressed (header id offset nextOffset totalBytes)
      (.obj (address id offset nextOffset totalBytes)) id offset nextOffset totalBytes := by
  refine ⟨rfl, ?_, ?_, ?_, ?_⟩ <;>
    simp [Json.index, Json.get?, Json.asObject?, Fields.lookup, address]

/-- The same address with the base64 text beside it. -/
theorem addressed_base64
    (id : String)
    (offset nextOffset totalBytes : Nat)
    (body : Bytes)
    {read : Json}
    (hread : read = .obj (Fields.insert "data" (.str (String.ofList (Base64.encode body)))
      (address id offset nextOffset totalBytes))) :
    Addressed (withBase64Page (header id offset nextOffset totalBytes) body) read
        id offset nextOffset totalBytes ∧
      (read.index "data").asStr? = some (String.ofList (Base64.encode body)) := by
  subst hread
  refine ⟨⟨?_, ?_, ?_, ?_, ?_⟩, ?_⟩
  · simp only [withBase64Page, header, Json.get?, Json.asObject?, Option.bind_some,
      Fields.lookup, if_true, Json.set, Fields.lookup_insert]
  all_goals
    simp [Json.index, Json.get?, Json.asObject?, Json.asStr?, Fields.lookup_insert,
      Fields.lookup, address]

/-- The client reads the address and the bytes of a page from either carrier. -/
theorem chunkOf_respond
    (id : String)
    {offset nextOffset totalBytes : Nat}
    {body : Bytes}
    (hoffset : offset ≤ totalBytes)
    (hnext : nextOffset ≤ totalBytes)
    (hpos : 0 < totalBytes)
    (htotal : totalBytes ≤ maxReadBytes)
    (hbody : body ≠ [])
    (hsize : body.length ≤ chunkBytes)
    {binary : Bool}
    {response : Response}
    (hresponse : respond binary
      (.sendBinary ⟨header id offset nextOffset totalBytes, body⟩) = .ok response) :
    ∃ carried : CarriedChunk, carried.chunk.id = id ∧ carried.chunk.offset = offset ∧
      carried.chunk.nextOffset = nextOffset ∧ carried.chunk.totalBytes = totalBytes ∧
      carried.part = some body ∧
      chunkOf response.data response.chunkBytes =
        if isChunkId id then .ok (some carried) else invalidChunk := by
  cases binary with
  | true =>
      obtain rfl := Except.ok.inj hresponse
      have haddress := addressed_header id offset nextOffset totalBytes
      have hok : ¬ (body = [] ∨ chunkBytes < body.length) := by
        simp [hbody, hsize]
      refine ⟨⟨⟨id, offset, nextOffset, totalBytes,
        (Json.index (.obj (address id offset nextOffset totalBytes)) "data").asStr?⟩,
        some body⟩, rfl, rfl, rfl, rfl, rfl, ?_⟩
      rw [haddress.chunkOf hoffset hnext hpos htotal]
      simp only [if_neg hok]
  | false =>
      obtain rfl := Except.ok.inj hresponse
      obtain ⟨haddress, hdata⟩ :=
        addressed_base64 id offset nextOffset totalBytes body rfl
      have hok : ¬ chunkBytes * 4 / 3 <
          (utf16 (String.ofList (Base64.encode body)).toList).length := by
        rw [String.toList_ofList, SecureChannel.utf16_of_ascii (Base64.ascii_encode body),
          List.length_map, Base64.length_encode]
        simp only [chunkBytes] at hsize ⊢
        omega
      refine ⟨⟨⟨id, offset, nextOffset, totalBytes,
        some (String.ofList (Base64.encode body))⟩, none⟩, rfl, rfl, rfl, rfl, ?_, ?_⟩
      · simp [CarriedChunk.part, Base64.decodeBase64Url_encode]
      · rw [haddress.chunkOf hoffset hnext hpos htotal, hdata]
        simp only [if_neg hok]

/-! ## Pages of an answer at the client -/

/-- The chunk is the stretch of the answer at its offset. -/
structure StretchOf (bytes : Bytes) (start : Nat) (carried : CarriedChunk) : Prop where
  start_lt : start < bytes.length
  start_mod : start % chunkBytes = 0
  offset : carried.chunk.offset = start
  nextOffset : carried.chunk.nextOffset = (min (start + chunkBytes) bytes.length : Nat)
  totalBytes : carried.chunk.totalBytes = bytes.length
  part : carried.part = some ((bytes.drop start).take chunkBytes)

/-- What the client makes of a page. -/
theorem chunkOf_page
    {id : String}
    {snapshot : Snapshot}
    {offset : Nat}
    {page : Page}
    (hpage : chunk id snapshot offset = .ok page)
    (hsmall : snapshot.bytes.length ≤ maxSnapshotBytes)
    {binary : Bool}
    {response : Response}
    (hresponse : respond binary (.sendBinary page) = .ok response) :
    ∃ carried, carried.chunk.id = id ∧ StretchOf snapshot.bytes offset carried ∧
      chunkOf response.data response.chunkBytes =
        if isChunkId id then .ok (some carried) else invalidChunk := by
  obtain ⟨hlt, hmod, rfl⟩ := chunk_eq_ok hpage
  have hbody : (snapshot.bytes.drop offset).take
      (min (offset + chunkBytes) snapshot.bytes.length - offset) =
        (snapshot.bytes.drop offset).take chunkBytes := by
    rw [List.take_eq_take_iff, List.length_drop]
    omega
  have hlength : ((snapshot.bytes.drop offset).take chunkBytes).length =
      min chunkBytes (snapshot.bytes.length - offset) := by
    rw [List.length_take, List.length_drop]
  have hpos : 0 < chunkBytes := by decide
  rw [hbody] at hresponse
  obtain ⟨carried, hid, hoff, hnext, htotal, hpart, hchunk⟩ := chunkOf_respond id
    (Nat.le_of_lt hlt) (Nat.min_le_right _ _) (by omega) hsmall
    (List.ne_nil_of_length_pos (by omega)) (by omega) hresponse
  exact ⟨carried, hid, ⟨hlt, hmod, hoff, hnext, htotal, hpart⟩, hchunk⟩

/-- A stretch fits where it was asked for. -/
theorem StretchOf.storeChunk_ok
    {bytes : Bytes}
    {offset : Nat}
    {carried : CarriedChunk}
    (h : StretchOf bytes offset carried)
    (buffer : Bytes) :
    ∃ buffer', storeChunk carried.chunk.id bytes.length buffer carried offset =
      .ok buffer' := by
  have hlt := h.start_lt
  have hlength : ((bytes.drop offset).take chunkBytes).length =
      min chunkBytes (bytes.length - offset) := by
    rw [List.length_take, List.length_drop]
  have hpos : 0 < chunkBytes := by decide
  have hne : (bytes.drop offset).take chunkBytes ≠ [] :=
    List.ne_nil_of_length_pos (by omega)
  rw [storeChunk, if_neg (not_not.2 ⟨rfl, h.totalBytes, h.offset⟩), h.part]
  dsimp only
  rw [if_neg]
  · exact ⟨_, rfl⟩
  · rw [h.nextOffset]
    simp only [hne, false_or]
    omega

/-- If every chunk for an offset is the stretch there, the buffer is the answer. -/
theorem assemble_eq
    {net : Network}
    {first : CarriedChunk}
    {bytes : Bytes}
    (htotal : first.chunk.totalBytes = bytes.length)
    (hparts : ∀ asked carried, Received net first asked carried →
      carried.chunk.Names first.chunk.id first.chunk.totalBytes asked →
        StretchOf bytes asked carried)
    {buffer : Bytes}
    (h : assemble net first = .ok buffer) :
    buffer = bytes := by
  have hfilled := filled_assemble h
  have hlength := hfilled.length.trans htotal
  refine List.ext_getElem? fun i => ?_
  by_cases hi : i < bytes.length
  · obtain ⟨b, hb, asked, carried, part, hreceived, hnames, hpart, hle, hget⟩ :=
      hfilled.written i (htotal ▸ hi)
    have hstretch := hparts asked carried hreceived hnames
    obtain rfl := Option.some.inj (hpart.symm.trans hstretch.part)
    obtain ⟨hlt, hb'⟩ := List.getElem?_eq_some_iff.1 hget
    rw [List.getElem_take, List.getElem_drop] at hb'
    rw [hb, ← hb', List.getElem?_eq_getElem hi]
    congr 2
    omega
  · rw [List.getElem?_eq_none (by omega), List.getElem?_eq_none (by omega)]

/-- If whatever arrives can be stored, the read comes to its end. -/
theorem readWaves_ok
    {net : Network}
    {id : String}
    {total start : Nat}
    (hcurrent : ∀ offsets, (net.wave offsets).isCurrent = true)
    (hreceive : ∀ k, ∀ a ∈ (net.wave (waveOffsets total
      (start + k * (readConcurrency * chunkBytes)))).arrivals,
        ∀ buffer, ∃ buffer', receive id total buffer a = .ok buffer')
    (buffer : Bytes) :
    ∃ buffer', readWaves net id total buffer start = .ok buffer' := by
  have hfold : ∀ (arrivals : List Arrival), (∀ a ∈ arrivals, ∀ buffer, ∃ buffer',
      receive id total buffer a = .ok buffer') → ∀ buffer, ∃ buffer',
        arrivals.foldlM (receive id total) buffer = .ok buffer' := by
    intro arrivals
    induction arrivals with
    | nil =>
        intro _ buffer
        exact ⟨buffer, rfl⟩
    | cons a rest ih =>
        intro hall buffer
        obtain ⟨next, hnext⟩ := hall a List.mem_cons_self buffer
        rw [List.foldlM_cons, hnext]
        exact ih (fun b hb => hall b (List.mem_cons_of_mem _ hb)) next
  fun_induction readWaves net id total buffer start with
  | case1 buffer start hlt wave hstale =>
      rw [hcurrent] at hstale
      cases hstale
  | case2 buffer start hlt wave _ e hfailed =>
      obtain ⟨next, hnext⟩ := hfold wave.arrivals
        (fun a ha => hreceive 0 a (by simpa using ha)) buffer
      rw [hfailed] at hnext
      cases hnext
  | case3 buffer start hlt wave _ next _ ih =>
      refine ih fun k a ha => hreceive (k + 1) a ?_
      rwa [Nat.add_mul, Nat.one_mul, Nat.add_comm (k * _), ← Nat.add_assoc]
  | case4 buffer start =>
      exact ⟨buffer, rfl⟩

/-! ## The answer of one command -/

/-- The desktop has carried out the command, and `data` is its answer. -/
structure Asks (confirmed : String) (command : RemoteCommand) (data : Json) (call : Call) :
    Prop where
  cmd : call.cmd = command.opening confirmed
  success : call.success = true
  data : call.data = data

/-- A pageable command whose answer is too large for one reply, and not for a snapshot. -/
structure Paged (command : RemoteCommand) (data : Json) : Prop where
  pageable : command.type ∈ pageable
  large : pageThreshold < (toVec data).length
  small : (toVec data).length ≤ maxSnapshotBytes

/-- The snapshot the answer becomes. -/
def Call.snapshot (call : Call) : Snapshot :=
  ⟨call.cmd.owner, toVec call.data, call.now⟩

section Answer

variable {confirmed : String}
variable {command : RemoteCommand}
variable {data : Json}
variable {call : Call}

theorem Paged.execute
    (h : Paged command data)
    (hask : Asks confirmed command data call)
    (cache : Cache) :
    ∃ page, chunk call.id call.snapshot 0 = .ok page ∧
      call.execute cache = (.sendBinary page, Fields.insert call.id call.snapshot
        (Cache.makeRoom (toVec data).length (cache.prune call.now))) := by
  have hdata := hask.data
  subst hdata
  have htype : call.cmd.cmdType = command.type := by rw [hask.cmd]; rfl
  have hchunked : call.cmd.chunkedRead = true := by rw [hask.cmd]; rfl
  have hother : command.type ≠ "get_read_chunk" := by
    intro heq
    have hmem := h.pageable
    rw [heq] at hmem
    revert hmem
    decide
  have hpages : ReadPages.pageable.contains command.type = true := by simpa using h.pageable
  have hlarge := h.large
  have hchunk : chunk call.id call.snapshot 0 =
      .ok ⟨header call.id 0 (min (0 + chunkBytes) (toVec call.data).length)
        (toVec call.data).length, ((toVec call.data).drop 0).take
          (min (0 + chunkBytes) (toVec call.data).length - 0)⟩ := by
    rw [chunk, if_neg]
    · rfl
    · simp only [pageThreshold] at hlarge
      simp only [Call.snapshot, Nat.zero_mod]
      omega
  refine ⟨_, hchunk, ?_⟩
  rw [Call.execute, if_neg (htype ▸ hother), pagedSend, hask.success, hchunked, htype, hpages,
    decide_eq_true hlarge]
  simp only [Bool.and_self, if_true]
  rw [Cache.insert, if_neg (Nat.not_lt.2 h.small)]
  dsimp only
  rw [show (⟨call.cmd.owner, toVec call.data, call.now⟩ : Snapshot) = call.snapshot from rfl,
    hchunk]

/-- What the first reply gives the client. -/
theorem Paged.first
    (h : Paged command data)
    (hask : Asks confirmed command data call)
    (cache : Cache)
    {binary : Bool}
    {response : Response}
    (hresponse : respond binary (call.execute cache).1 = .ok response) :
    ∃ first, first.chunk.id = call.id ∧ StretchOf (toVec data) 0 first ∧
      chunkOf response.data response.chunkBytes =
        if isChunkId call.id then .ok (some first) else invalidChunk := by
  obtain ⟨page, hpage, hexecute⟩ := h.execute hask cache
  rw [hexecute] at hresponse
  have hsmall : call.snapshot.bytes.length ≤ maxSnapshotBytes := by
    rw [Call.snapshot, hask.data]
    exact h.small
  obtain ⟨first, hid, hstretch, hchunk⟩ := chunkOf_page hpage hsmall hresponse
  have hbytes : call.snapshot.bytes = toVec data := by rw [← hask.data]; rfl
  exact ⟨first, hid, hbytes ▸ hstretch, hchunk⟩

end Answer

/-- A chunk request is answered with a page or fails. -/
theorem page_of_respond
    {read : Call}
    (hread : read.cmd.cmdType = "get_read_chunk")
    {cache : Cache}
    {binary : Bool}
    {response : Response}
    (h : respond binary (read.execute cache).1 = .ok response) :
    ∃ page, (read.execute cache).1 = .sendBinary page ∧
      (cache.read read.now read.cmd).1 = .ok page := by
  rw [Call.execute, if_pos hread] at h ⊢
  split at h
  · rename_i page _ heq
    exact ⟨page, rfl, by rw [heq]⟩
  · cases h

/-! ## Whatever happens to the cache -/

/--
What a read meets comes from the run, or fails: the first reply is the answer to the
command, and what arrives for a chunk is what the run has answered to some chunk
request, of whoever it was.
-/
structure FromRun (ops : List HostOp) (call : Call) (net : Network) : Prop where
  first : ∀ response, net.first = .ok response → ∃ reply binary,
    Answers ops call reply ∧ respond binary reply = .ok response
  arrivals : ∀ offsets, ∀ a ∈ (net.wave offsets).arrivals, ∀ response,
    a.reply = .ok response → ∃ read reply binary, read.cmd.cmdType = "get_read_chunk" ∧
      Answers ops read reply ∧ respond binary reply = .ok response

theorem mem_of_answers
    {ops : List HostOp}
    {call : Call}
    {reply : Reply}
    (h : Answers ops call reply) :
    call ∈ ops.filterMap issued := by
  obtain ⟨before, after, rfl, _⟩ := h
  exact mem_issued.2 (List.mem_append_right _ List.mem_cons_self)

/-- A chunk with the name of the answer is a stretch of the answer. -/
theorem stretchOf_of_answers
    {ops : List HostOp}
    (hfresh : FreshIds ops)
    {call : Call}
    (hcall : call ∈ ops.filterMap issued)
    {read : Call}
    (hread : read.cmd.cmdType = "get_read_chunk")
    {reply : Reply}
    (hanswer : Answers ops read reply)
    {binary : Bool}
    {response : Response}
    (hresponse : respond binary reply = .ok response)
    {carried : CarriedChunk}
    (hcarried : chunkOf response.data response.chunkBytes = .ok (some carried))
    {total asked : Nat}
    (hnames : carried.chunk.Names call.id total asked) :
    StretchOf (toVec call.data) asked carried := by
  obtain ⟨before, after, hops, rfl⟩ := id hanswer
  obtain ⟨page, hpage, _⟩ := page_of_respond hread hresponse
  rw [hpage] at hresponse hanswer
  obtain ⟨source, hsource, snapshot, offset, _, hbytes, hsmall, hchunk⟩ :=
    pageOf_answers hanswer
  obtain ⟨made, hid, hstretch, hmade⟩ := chunkOf_page hchunk hsmall hresponse
  rw [hmade] at hcarried
  split at hcarried
  · obtain rfl := Option.some.inj (Except.ok.inj hcarried)
    obtain rfl := hfresh.eq_of_id hsource hcall (hid.symm.trans hnames.1)
    have hoffset : (offset : Int) = asked := hstretch.offset.symm.trans hnames.2.2
    obtain rfl : offset = asked := by exact_mod_cast hoffset
    exact hbytes ▸ hstretch
  · cases hcarried

theorem exact_of_fromRun
    {confirmed : String}
    {command : RemoteCommand}
    {data : Json}
    (hpaged : Paged command data)
    {decode : Bytes → Option Json}
    (hdecode : decode (toVec data) = some data)
    {ops : List HostOp}
    (hfresh : FreshIds ops)
    {call : Call}
    (hask : Asks confirmed command data call)
    {net : Network}
    (hnet : FromRun ops call net)
    {value : Json}
    (hvalue : requestReadPage decode net = .ok value) :
    value = data := by
  rw [requestReadPage] at hvalue
  split at hvalue
  · cases hvalue
  · split at hvalue
    · cases hvalue
    · rename_i response hresponse
      obtain ⟨reply, binary, hanswer, hrespond⟩ := hnet.first response hresponse
      have hcall := mem_of_answers hanswer
      obtain ⟨before, after, _, rfl⟩ := hanswer
      obtain ⟨made, hid, hstretch, hmade⟩ := hpaged.first hask _ hrespond
      split at hvalue
      · cases hvalue
      · split at hvalue
        · cases hvalue
        · rename_i hnone
          rw [hmade] at hnone
          split at hnone <;> cases hnone
        · rename_i first hfirst
          rw [hmade] at hfirst
          split at hfirst
          · obtain rfl := Option.some.inj (Except.ok.inj hfirst)
            split at hvalue
            · cases hvalue
            · rename_i buffer hassemble
              have hbuffer : buffer = toVec data := by
                refine assemble_eq hstretch.totalBytes ?_ hassemble
                rintro asked carried (⟨rfl, rfl⟩ | ⟨a, ⟨k, ha⟩, rfl, next, hreply, hcarried⟩)
                  hnames
                · exact hstretch
                · obtain ⟨read, reply', binary', hread, hanswer', hrespond'⟩ :=
                    hnet.arrivals _ a ha next hreply
                  rw [hid] at hnames
                  exact hask.data ▸ stretchOf_of_answers hfresh hcall hread hanswer' hrespond'
                    hcarried hnames
              rw [hbuffer, hdecode] at hvalue
              exact (Except.ok.inj hvalue).symm
          · cases hfirst

/-! ## While the snapshot stays -/

/-- The cache still has the snapshot, young enough to be read. -/
def Held (cache : Cache) (now : Nat) (id : String) : Prop :=
  ∃ snapshot, Fields.lookup id (cache.prune now) = some snapshot

/--
Nothing goes wrong: the read stays current, its command is answered, and so is every
chunk request, at some later time at which the snapshot is still there.
-/
structure Undisturbed (confirmed sessionId : String) (command : RemoteCommand)
    (before : List HostOp) (call : Call) (after : List HostOp) (net : Network) : Prop where
  startCurrent : net.startCurrent = true
  firstCurrent : net.firstCurrent = true
  waveCurrent : ∀ offsets, (net.wave offsets).isCurrent = true
  first : ∃ binary, net.first = respond binary (call.execute (cacheOf before)).1
  arrivals : ∀ k, ∀ a ∈ (net.wave (waveOffsets (toVec call.data).length
    (chunkBytes + k * (readConcurrency * chunkBytes)))).arrivals,
      a.isCurrent = true ∧ ∃ mid read rest binary, after = mid ++ .call read :: rest ∧
        read.cmd = command.next confirmed sessionId call.id a.offset ∧
        Held (cacheOf (before ++ .call call :: mid)) read.now call.id ∧
        a.reply = respond binary
          (read.execute (cacheOf (before ++ .call call :: mid))).1

/-- The chunks are asked for by the owner of the snapshot. -/
def AsksAsOwner (confirmed sessionId : String) (command : RemoteCommand) : Prop :=
  command.sessionId.getD "" = sessionId ∧
    (command.bridgeInstanceId = some "" → confirmed = "")

theorem owner_next_iff
    (confirmed sessionId : String)
    (command : RemoteCommand)
    (id : String)
    (offset : Nat) :
    (command.opening confirmed).owner = (command.next confirmed sessionId id offset).owner ↔
      AsksAsOwner confirmed sessionId command := by
  have hrun : (command.runId.filter (· ≠ "")).getD "" = command.runId.getD "" := by
    cases command.runId with
    | none => rfl
    | some run => by_cases hrun : run = "" <;> simp [Option.filter, hrun]
  have hbridge : command.bridgeInstanceId.getD confirmed =
      (command.bridgeInstanceId.filter (· ≠ "")).getD confirmed ↔
        (command.bridgeInstanceId = some "" → confirmed = "") := by
    cases command.bridgeInstanceId with
    | none => simp
    | some bridge =>
        by_cases hempty : bridge = ""
        · simp [Option.filter, hempty, eq_comm]
        · simp [Option.filter, hempty]
  simp only [IncomingCmd.owner, RemoteCommand.opening, RemoteCommand.next, Owner.mk.injEq,
    hrun, hbridge, AsksAsOwner, and_true]
  exact and_comm

/-- The offsets of the waves behind the first chunk. -/
theorem mem_waveOffsets
    {total start o : Nat}
    (hstart : start % chunkBytes = 0)
    (ho : o ∈ waveOffsets total start) :
    o < total ∧ o % chunkBytes = 0 := by
  obtain ⟨index, hindex, rfl⟩ := List.mem_map.1 ho
  rw [List.mem_range] at hindex
  simp only [chunkBytes] at hindex hstart ⊢
  omega

theorem waveStart_mod (k : Nat) :
    (chunkBytes + k * (readConcurrency * chunkBytes)) % chunkBytes = 0 := by
  simp only [readConcurrency, chunkBytes]
  omega

theorem Paged.chunk_lt
    {command : RemoteCommand}
    {data : Json}
    (h : Paged command data) :
    chunkBytes < (toVec data).length := by
  have hlarge := h.large
  simp only [pageThreshold] at hlarge
  simp only [chunkBytes]
  omega

/-- What the owner asks for while the snapshot is there is the stretch at the offset. -/
theorem receive_held
    {confirmed sessionId : String}
    {command : RemoteCommand}
    (howner : AsksAsOwner confirmed sessionId command)
    {calls : List Call}
    {cache : Cache}
    (hkept : Kept calls cache)
    {call : Call}
    (hcmd : call.cmd = command.opening confirmed)
    (honly : ∀ source ∈ calls, source.id = call.id → source = call)
    (hid : isChunkId call.id = true)
    {read : Call}
    {a : Arrival}
    (hcurrent : a.isCurrent = true)
    (hread : read.cmd = command.next confirmed sessionId call.id a.offset)
    (hheld : Held cache read.now call.id)
    (hlt : a.offset < (toVec call.data).length)
    (hmod : a.offset % chunkBytes = 0)
    {binary : Bool}
    (hreply : a.reply = respond binary (read.execute cache).1)
    (buffer : Bytes) :
    ∃ buffer', receive call.id (toVec call.data).length buffer a = .ok buffer' := by
  obtain ⟨snapshot, hlook⟩ := hheld
  obtain ⟨source, hsource, hsid, hsowner, hbytes, hsmall⟩ :=
    hkept _ (List.mem_of_mem_filter (Fields.mem_of_lookup hlook))
  obtain rfl := honly source hsource hsid.symm
  dsimp only at hsowner hbytes hsmall
  have hsame : snapshot.owner = read.cmd.owner := by
    rw [hsowner, hcmd, hread]
    exact (owner_next_iff confirmed sessionId command source.id a.offset).2 howner
  have hreplyId : read.cmd.replyId = source.id := by rw [hread]; rfl
  have hoffset : read.cmd.offset = a.offset := by rw [hread]; rfl
  have htype : read.cmd.cmdType = "get_read_chunk" := by rw [hread]; rfl
  have hchunk : ∃ page, chunk source.id snapshot a.offset = .ok page := by
    rw [chunk, if_neg (by rw [hbytes]; omega)]
    exact ⟨_, rfl⟩
  obtain ⟨page, hpage⟩ := hchunk
  have hexecute : (read.execute cache).1 = .sendBinary page := by
    rw [Call.execute, if_pos htype, Cache.read, hreplyId, hlook, hoffset]
    dsimp only
    rw [if_neg (not_not.2 hsame), if_neg (by omega), Int.toNat_natCast, hpage]
  rw [hexecute] at hreply
  obtain ⟨response, hresponse⟩ : ∃ response,
      respond binary (.sendBinary page) = .ok response := by
    cases binary <;> exact ⟨_, rfl⟩
  obtain ⟨carried, hcid, hstretch, hcarried⟩ := chunkOf_page hpage hsmall hresponse
  rw [hbytes] at hstretch
  rw [if_pos hid] at hcarried
  rw [receive, hreply, hresponse]
  simp only [hcurrent, Bool.not_true, Bool.false_eq_true, if_false, hcarried]
  rw [← hcid]
  exact hstretch.storeChunk_ok buffer

theorem returns_of_undisturbed
    {confirmed sessionId : String}
    {command : RemoteCommand}
    (howner : AsksAsOwner confirmed sessionId command)
    {data : Json}
    (hpaged : Paged command data)
    {decode : Bytes → Option Json}
    (hdecode : decode (toVec data) = some data)
    {before after : List HostOp}
    {call : Call}
    (hfresh : FreshIds (before ++ .call call :: after))
    (hask : Asks confirmed command data call)
    (hid : isChunkId call.id = true)
    {net : Network}
    (h : Undisturbed confirmed sessionId command before call after net) :
    requestReadPage decode net = .ok data := by
  obtain ⟨binary, hfirst⟩ := h.first
  obtain ⟨response, hresponse⟩ : ∃ response,
      respond binary (call.execute (cacheOf before)).1 = .ok response := by
    obtain ⟨page, _, hexecute⟩ := hpaged.execute hask (cacheOf before)
    rw [hexecute]
    cases binary <;> exact ⟨_, rfl⟩
  obtain ⟨first, hfid, hstretch, hchunk⟩ := hpaged.first hask _ hresponse
  have hdata := hask.data
  subst hdata
  rw [if_pos hid] at hchunk
  have hcall : call ∈ (before ++ .call call :: after).filterMap issued :=
    mem_issued.2 (List.mem_append_right _ List.mem_cons_self)
  have hnext : first.chunk.nextOffset.toNat = chunkBytes := by
    have hlarge := hpaged.chunk_lt
    rw [hstretch.nextOffset]
    omega
  have hreceive : ∀ k, ∀ a ∈ (net.wave (waveOffsets (toVec call.data).length
      (chunkBytes + k * (readConcurrency * chunkBytes)))).arrivals, ∀ buffer,
        ∃ buffer', receive call.id (toVec call.data).length buffer a = .ok buffer' := by
    intro k a ha
    obtain ⟨hcurrent, mid, read, rest, binary', hafter, hread, hheld, hreply⟩ :=
      h.arrivals k a ha
    obtain ⟨hlt, hmod⟩ := mem_waveOffsets (waveStart_mod k) ((net.complete _ _).1 ⟨a, ha, rfl⟩)
    refine receive_held howner (kept_cacheOf fun c hc => ?_) hask.cmd
      (fun source hsource heq => hfresh.eq_of_id hsource hcall heq) hid hcurrent hread hheld
      hlt hmod hreply
    rw [hafter]
    refine mem_issued.2 ?_
    simp only [List.mem_append, List.mem_cons] at hc ⊢
    tauto
  obtain ⟨buffer, hassemble⟩ : ∃ buffer, assemble net first = .ok buffer := by
    obtain ⟨stored, hstored⟩ :=
      hstretch.storeChunk_ok (List.replicate (toVec call.data).length 0)
    rw [assemble, hstretch.totalBytes, hstored, hfid]
    refine readWaves_ok h.waveCurrent ?_ stored
    rw [hnext]
    exact hreceive
  have hbuffer : buffer = toVec call.data := by
    refine assemble_eq hstretch.totalBytes ?_ hassemble
    rintro asked carried (⟨rfl, rfl⟩ | ⟨a, ⟨k, ha⟩, rfl, next, hreply, hcarried⟩) hnames
    · exact hstretch
    · rw [hstretch.totalBytes, hnext] at ha
      obtain ⟨_, mid, read, rest, binary', hafter, hread, _, hreply'⟩ := h.arrivals k a ha
      have hanswer : Answers (before ++ .call call :: after) read
          (read.execute (cacheOf (before ++ .call call :: mid))).1 :=
        ⟨before ++ .call call :: mid, rest, by rw [hafter]; simp, rfl⟩
      rw [hfid] at hnames
      exact stretchOf_of_answers hfresh hcall (by rw [hread]; rfl) hanswer
        (hreply'.symm.trans hreply) hcarried hnames
  simp only [requestReadPage, h.startCurrent, h.firstCurrent, hfirst, hresponse, hchunk,
    hassemble, hbuffer, hdecode, Bool.not_true, Bool.false_eq_true, if_false]

/-! ## Asking as somebody else -/

section Mismatch

variable (confirmed sessionId : String)
variable (command : RemoteCommand)
variable (data : Json)

/-- A name of its own for every command of a run. -/
def nameOf (n : Nat) : String :=
  String.ofList ('r' :: List.replicate n 'x')

def openingCall : Call :=
  ⟨0, command.opening confirmed, nameOf 0, true, data, none⟩

def chunkCall (n : Nat) : Call :=
  ⟨0, command.next confirmed sessionId (nameOf 0) (n * chunkBytes), nameOf (n + 1), true,
    .null, none⟩

/-- The chunk requests of a read, one after the other. -/
def chunkCalls : List HostOp :=
  (List.range (toVec data).length).map fun n => .call (chunkCall confirmed sessionId command n)

def openedCache : Cache :=
  [(nameOf 0, (openingCall confirmed command data).snapshot)]

/-- What the desktop answers to the requests, in the order they are asked. -/
def quietNetwork : Network where
  startCurrent := true
  first := respond true ((openingCall confirmed command data).execute []).1
  firstCurrent := true
  wave offsets := ⟨true, offsets.map fun o => ⟨o, true, respond true
    ((chunkCall confirmed sessionId command (o / chunkBytes)).execute
      (openedCache confirmed command data)).1⟩⟩
  complete offsets o := by simp

end Mismatch

section Mismatch

variable {confirmed sessionId : String}
variable {command : RemoteCommand}
variable {data : Json}

/-- A chunk request prunes the cache and leaves it so. -/
theorem execute_chunkRequest
    {read : Call}
    (hread : read.cmd.cmdType = "get_read_chunk")
    (cache : Cache) :
    (read.execute cache).2 = cache.prune read.now ∧
      ∀ e, (cache.read read.now read.cmd).1 = .error e →
        (read.execute cache).1 = .send false .null (some e) := by
  rw [Call.execute, if_pos hread]
  split
  · rename_i heq
    refine ⟨(congrArg Prod.snd heq).symm, fun e he => ?_⟩
    rw [heq] at he
    cases he
  · rename_i heq
    refine ⟨(congrArg Prod.snd heq).symm, fun e he => ?_⟩
    rw [heq] at he
    obtain rfl := Except.error.inj he
    rfl

theorem read_mismatch
    {cache : Cache}
    {now : Nat}
    {cmd : IncomingCmd}
    {snapshot : Snapshot}
    (hlook : Fields.lookup cmd.replyId (cache.prune now) = some snapshot)
    (hother : snapshot.owner ≠ cmd.owner) :
    (cache.read now cmd).1 = .error "remote_read_owner_mismatch" := by
  simp only [Cache.read, hlook]
  rw [if_pos hother]

theorem nameOf_injective : Function.Injective nameOf := by
  intro n m h
  have hlist := congrArg (fun s : String => s.toList.length) h
  simpa [nameOf] using hlist

theorem isChunkId_nameOf : isChunkId (nameOf 0) = true := by
  decide

theorem freshIds_chunkCalls :
    FreshIds ([] ++ .call (openingCall confirmed command data) ::
      chunkCalls confirmed sessionId command data) := by
  have hids : (([] ++ HostOp.call (openingCall confirmed command data) ::
      chunkCalls confirmed sessionId command data).filterMap issued).map Call.id =
        (0 :: (List.range (toVec data).length).map (· + 1)).map nameOf := by
    simp [chunkCalls, issued, openingCall, chunkCall, List.filterMap_map, Function.comp_def]
  rw [FreshIds, hids]
  refine List.Nodup.map nameOf_injective (List.nodup_cons.2 ⟨by simp, ?_⟩)
  exact List.Nodup.map (fun _ _ h => Nat.succ.inj h) List.nodup_range

theorem cacheOf_opened
    (hpaged : Paged command data)
    (n : Nat) :
    cacheOf (.call (openingCall confirmed command data) ::
      (List.range n).map fun n => .call (chunkCall confirmed sessionId command n)) =
        openedCache confirmed command data := by
  have hopened : step [] (.call (openingCall confirmed command data)) =
      openedCache confirmed command data := by
    have hask : Asks confirmed command data (openingCall confirmed command data) :=
      ⟨rfl, rfl, rfl⟩
    obtain ⟨page, _, hexecute⟩ := hpaged.execute hask []
    have hroom : Cache.makeRoom (toVec data).length [] = [] :=
      List.sublist_nil.1 (Cache.makeRoom_sublist _ _)
    rw [step, hexecute]
    simp only [Cache.prune, List.filter_nil, hroom]
    rfl
  have hread : ∀ n, step (openedCache confirmed command data)
      (.call (chunkCall confirmed sessionId command n)) =
        openedCache confirmed command data := by
    intro n
    have hprune : Cache.prune 0 (openedCache confirmed command data) =
        openedCache confirmed command data := by
      simp [Cache.prune, openedCache, Call.snapshot, openingCall, ttl]
    have htype : (chunkCall confirmed sessionId command n).cmd.cmdType = "get_read_chunk" := rfl
    exact (execute_chunkRequest htype _).1.trans hprune
  have hreads : ∀ l : List Nat, Machine.run step (openedCache confirmed command data)
      (l.map fun n => .call (chunkCall confirmed sessionId command n)) =
        openedCache confirmed command data := by
    intro l
    induction l with
    | nil => rfl
    | cons n l ih => rw [List.map_cons, Machine.run_cons, hread, ih]
  rw [cacheOf, Machine.run_cons, hopened, hreads]

theorem lookup_opened :
    Fields.lookup (nameOf 0) (Cache.prune 0 (openedCache confirmed command data)) =
      some (openingCall confirmed command data).snapshot := by
  simp [Cache.prune, openedCache, Call.snapshot, openingCall, ttl, Fields.lookup]

theorem undisturbed_quietNetwork (hpaged : Paged command data) :
    Undisturbed confirmed sessionId command [] (openingCall confirmed command data)
      (chunkCalls confirmed sessionId command data)
      (quietNetwork confirmed sessionId command data) := by
  refine ⟨rfl, rfl, fun _ => rfl, ⟨true, rfl⟩, ?_⟩
  intro k a ha
  obtain ⟨o, ho, rfl⟩ := List.mem_map.1 ha
  obtain ⟨hlt, hmod⟩ := mem_waveOffsets (waveStart_mod k) ho
  have hindex : o / chunkBytes < (toVec data).length :=
    lt_of_le_of_lt (Nat.div_le_self _ _) hlt
  have hoffset : o / chunkBytes * chunkBytes = o :=
    Nat.div_mul_cancel (Nat.dvd_of_mod_eq_zero hmod)
  have hsplit : List.range (toVec data).length = List.range (o / chunkBytes) ++
      o / chunkBytes :: (List.range (toVec data).length).drop (o / chunkBytes + 1) := by
    have htake := List.take_append_drop (o / chunkBytes) (List.range (toVec data).length)
    rw [List.take_range, Nat.min_eq_left (Nat.le_of_lt hindex),
      List.drop_eq_getElem_cons (by simpa using hindex), List.getElem_range] at htake
    exact htake.symm
  refine ⟨rfl, (List.range (o / chunkBytes)).map
    fun n => .call (chunkCall confirmed sessionId command n),
    chunkCall confirmed sessionId command (o / chunkBytes),
    ((List.range (toVec data).length).drop (o / chunkBytes + 1)).map
      fun n => .call (chunkCall confirmed sessionId command n), true, ?_, ?_, ?_, ?_⟩
  · rw [chunkCalls, hsplit, List.map_append, List.map_cons]
    congr 4
  · rw [chunkCall, hoffset]
    rfl
  · rw [List.nil_append, cacheOf_opened hpaged]
    exact ⟨_, lookup_opened⟩
  · rw [List.nil_append, cacheOf_opened hpaged]

/-- Asked for by somebody else, no chunk comes. -/
theorem execute_chunkCall
    (howner : ¬ AsksAsOwner confirmed sessionId command)
    (n : Nat) :
    ((chunkCall confirmed sessionId command n).execute
      (openedCache confirmed command data)).1 =
        .send false .null (some "remote_read_owner_mismatch") := by
  have hother : (openingCall confirmed command data).snapshot.owner ≠
      (chunkCall confirmed sessionId command n).cmd.owner :=
    fun heq => howner ((owner_next_iff _ _ _ _ _).1 heq)
  have htype : (chunkCall confirmed sessionId command n).cmd.cmdType = "get_read_chunk" := rfl
  exact (execute_chunkRequest htype _).2 _ (read_mismatch lookup_opened hother)

/-- So the read fails: nothing but errors arrives behind the first chunk. -/
theorem requestReadPage_quietNetwork
    (hpaged : Paged command data)
    (howner : ¬ AsksAsOwner confirmed sessionId command)
    {decode : Bytes → Option Json}
    {value : Json} :
    requestReadPage decode (quietNetwork confirmed sessionId command data) ≠ .ok value := by
  intro hvalue
  have hask : Asks confirmed command data (openingCall confirmed command data) :=
    ⟨rfl, rfl, rfl⟩
  obtain ⟨response, hresponse⟩ : ∃ response,
      respond true ((openingCall confirmed command data).execute []).1 = .ok response := by
    obtain ⟨page, _, hexecute⟩ := hpaged.execute hask []
    rw [hexecute]
    exact ⟨_, rfl⟩
  obtain ⟨first, _, hstretch, hchunk⟩ := hpaged.first hask _ hresponse
  rw [show (openingCall confirmed command data).id = nameOf 0 from rfl,
    if_pos isChunkId_nameOf] at hchunk
  have hfirst : (quietNetwork confirmed sessionId command data).first = .ok response := hresponse
  have hstart : (quietNetwork confirmed sessionId command data).startCurrent = true := rfl
  have hcurrent : (quietNetwork confirmed sessionId command data).firstCurrent = true := rfl
  simp only [requestReadPage, hstart, hcurrent, hfirst, hchunk, Bool.not_true,
    Bool.false_eq_true, if_false] at hvalue
  split at hvalue
  · cases hvalue
  · rename_i buffer hassemble
    have hlarge := hpaged.chunk_lt
    obtain ⟨b, _, asked, carried, part, hreceived, _, hpart, _, hget⟩ :=
      (filled_assemble hassemble).written chunkBytes (by rw [hstretch.totalBytes]; exact hlarge)
    rcases hreceived with ⟨rfl, rfl⟩ | ⟨a, ⟨k, ha⟩, _, next, hreply, _⟩
    · obtain rfl := Option.some.inj (hpart.symm.trans hstretch.part)
      obtain ⟨hlt, _⟩ := List.getElem?_eq_some_iff.1 hget
      rw [List.length_take] at hlt
      omega
    · obtain ⟨o, _, rfl⟩ := List.mem_map.1 ha
      rw [execute_chunkCall howner] at hreply
      cases hreply

end Mismatch

/-! ## Main result -/

/--
What a paged read of an answer promises: it never gives anything else, it gives the
answer when nothing goes wrong, the cache stays within its bound, and what is decoded
has been written from end to end, whatever arrives.
-/
structure ReadsAsUnpaged (decode : Bytes → Option Json) (confirmed sessionId : String)
    (command : RemoteCommand) (data : Json) : Prop where
  exact : ∀ ops call net value, FreshIds ops → Asks confirmed command data call →
    FromRun ops call net → requestReadPage decode net = .ok value → value = data
  returns : ∀ before call after net, FreshIds (before ++ .call call :: after) →
    Asks confirmed command data call → isChunkId call.id = true →
      Undisturbed confirmed sessionId command before call after net →
        requestReadPage decode net = .ok data
  bounded : ∀ ops, (cacheOf ops).size ≤ maxCacheBytes
  filled : ∀ net first buffer, assemble net first = .ok buffer →
    Filled net first (· < first.chunk.totalBytes) buffer

/--
A paged read is the unpaged read exactly if the chunks are asked for as the owner of
the snapshot: with the session of the command, and not with the confirmed bridge where
the command names an empty one.
-/
theorem reads_as_unpaged_iff
    (decode : Bytes → Option Json)
    (confirmed sessionId : String)
    (command : RemoteCommand)
    (data : Json)
    (hpaged : Paged command data)
    (hdecode : decode (toVec data) = some data) :
    ReadsAsUnpaged decode confirmed sessionId command data ↔
      AsksAsOwner confirmed sessionId command := by
  constructor
  · intro h
    by_contra howner
    have hask : Asks confirmed command data (openingCall confirmed command data) :=
      ⟨rfl, rfl, rfl⟩
    exact requestReadPage_quietNetwork hpaged howner
      (h.returns [] _ _ _ freshIds_chunkCalls hask isChunkId_nameOf (undisturbed_quietNetwork hpaged))
  · intro howner
    exact {
      exact := fun ops call net value hfresh hask hnet hvalue =>
        exact_of_fromRun hpaged hdecode hfresh hask hnet hvalue
      returns := fun before call after net hfresh hask hid h =>
        returns_of_undisturbed howner hpaged hdecode hfresh hask hid h
      bounded := size_cacheOf
      filled := fun net first buffer h => filled_assemble h }

/-- A text of `n` letters. -/
def letters (n : Nat) : Json :=
  .str (String.ofList (List.replicate n 'x'))

theorem length_toVec_letters (n : Nat) : (toVec (letters n)).length = n + 2 := by
  have hone : Json.escapedLen 'x' = 1 := by decide
  rw [toVec, Utf8.length_encode, Json.size_compact]
  simp [letters, Json.compactLen, Json.literalLen, hone, Nat.add_comm]

theorem paged_letters
    {command : RemoteCommand}
    (h : command.type ∈ pageable) :
    Paged command (letters 600000) := by
  refine ⟨h, ?_, ?_⟩
  · rw [length_toVec_letters]
    decide
  · rw [length_toVec_letters]
    decide

theorem reads_as_unpaged_session_files :
    ReadsAsUnpaged (fun _ => some (letters 600000)) "bridge_1" "session_1"
      ⟨"list_session_files", some "session_1", none, none⟩ (letters 600000) :=
  (reads_as_unpaged_iff _ _ _ _ _ (paged_letters (by decide)) rfl).2
    ⟨rfl, fun h => by cases h⟩

/--
The catalogue of skills is read on the lane "settings" by a command without a session:
its chunks are refused.
-/
theorem settings_read_refused :
    Paged ⟨"list_available_skills", none, none, none⟩ (letters 600000) ∧
      ¬ ReadsAsUnpaged (fun _ => some (letters 600000)) "bridge_1" "settings"
        ⟨"list_available_skills", none, none, none⟩ (letters 600000) := by
  have hpaged : Paged ⟨"list_available_skills", none, none, none⟩ (letters 600000) :=
    paged_letters (by decide)
  have howner : ¬ AsksAsOwner "bridge_1" "settings"
      ⟨"list_available_skills", none, none, none⟩ :=
    fun h => absurd h.1 (by decide)
  refine ⟨hpaged, fun h => requestReadPage_quietNetwork hpaged howner (h.returns [] _ _ _
    freshIds_chunkCalls ⟨rfl, rfl, rfl⟩ isChunkId_nameOf (undisturbed_quietNetwork hpaged))⟩

end ReadPages
end Remote
end FutureOs
