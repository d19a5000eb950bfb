import FutureOs.Remote.ReadPages
import FutureOs.Remote.SecureChannel

/-!
# Paged reads

`requestReadPage` puts a paged answer together again: the first chunk names the
snapshot and its size, the others are asked for four at a time, and what arrives is
written where it was asked for.
-/

namespace FutureOs
namespace Remote
namespace ReadPages

def maxReadBytes : Nat := 16 * 1024 * 1024
def readConcurrency : Nat := 4

/-! ## Chunks at the client -/

/-- The address of a chunk; `data` is only for the base64 carrier. -/
structure Chunk where
  id : String
  offset : Int
  nextOffset : Int
  totalBytes : Nat
  data : Option String

structure CarriedChunk where
  chunk : Chunk
  bytes : Option Bytes

/--
`Number.isSafeInteger`.  Numbers are as the client has read them, where `1.0` is the
integer 1; a `float` is a number that is no integer, or not a safe one.
-/
def safeInteger? : Json → Option Int
  | .num (.posInt n) => if n < 2 ^ 53 then some n else none
  | .num (.negInt n) => if n + 1 < 2 ^ 53 then some (Int.negSucc n) else none
  | _ => none

def isIdChar (c : Char) : Bool :=
  ('A' ≤ c && c ≤ 'Z') || ('a' ≤ c && c ≤ 'z') || ('0' ≤ c && c ≤ '9') || c = '_' || c = '-'

/-- `/^[A-Za-z0-9_-]{1,128}$/`. -/
def isChunkId (id : String) : Bool :=
  1 ≤ id.toList.length && id.toList.length ≤ 128 && id.toList.all isIdChar

def chunkId? : Json → Option String
  | .str id => if isChunkId id then some id else none
  | _ => none

def invalidChunk : Except String α := .error "remote_read_invalid_chunk"

/-- The chunk a reply carries, if it carries one. -/
def chunkOf (value : Json) (carried : Option Bytes) : Except String (Option CarriedChunk) :=
  match value.get? "readChunk" with
  | none => .ok none
  | some chunk =>
      match chunkId? (chunk.index "id"), safeInteger? (chunk.index "offset"),
          safeInteger? (chunk.index "nextOffset"), safeInteger? (chunk.index "totalBytes") with
      | some id, some offset, some nextOffset, some totalBytes =>
          let data := (chunk.index "data").asStr?
          let address : Chunk := ⟨id, offset, nextOffset, totalBytes.toNat, data⟩
          if totalBytes ≤ 0 ∨ (maxReadBytes : Int) < totalBytes then
            invalidChunk
          else
            match carried, data with
            | some bytes, _ =>
                if bytes = [] ∨ chunkBytes < bytes.length then
                  invalidChunk
                else
                  .ok (some ⟨address, some bytes⟩)
            | none, some data =>
                if chunkBytes * 4 / 3 < (utf16 data.toList).length then
                  invalidChunk
                else
                  .ok (some ⟨address, none⟩)
            | none, none => invalidChunk
      | _, _, _, _ => invalidChunk

/-- `carried.bytes ?? decodeBase64Url(chunk.data ?? "")`. -/
def CarriedChunk.part (carried : CarriedChunk) : Option Bytes :=
  match carried.bytes with
  | some bytes => some bytes
  | none => Base64.decodeBase64Url (carried.chunk.data.getD "").toList

/-- `bytes.set(part, offset)`. -/
def setBytes (buffer : Bytes) (part : Bytes) (offset : Nat) : Bytes :=
  buffer.take offset ++ part ++ buffer.drop (offset + part.length)

/-- The chunk names the snapshot, its size and the offset asked for. -/
def Chunk.Names (chunk : Chunk) (id : String) (total offset : Nat) : Prop :=
  chunk.id = id ∧ chunk.totalBytes = total ∧ chunk.offset = offset

instance (chunk : Chunk) (id : String) (total offset : Nat) :
    Decidable (chunk.Names id total offset) :=
  inferInstanceAs (Decidable (_ ∧ _ ∧ _))

def storeChunk (id : String) (total : Nat) (buffer : Bytes) (carried : CarriedChunk)
    (offset : Nat) : Except String Bytes :=
  if ¬ carried.chunk.Names id total offset then
    .error "remote_read_chunk_changed"
  else
    match carried.part with
    | none => invalidChunk
    | some part =>
        let nextOffset := carried.chunk.nextOffset
        if part = [] ∨ chunkBytes < part.length ∨ nextOffset ≠ offset + part.length ∨
            (total : Int) < nextOffset ∨ (nextOffset < total ∧ part.length ≠ chunkBytes) then
          invalidChunk
        else
          .ok (setBytes buffer part offset)

/-! ## The read -/

/-- One reply to a chunk request, and whether the read is still current then. -/
structure Arrival where
  offset : Nat
  isCurrent : Bool
  reply : Except String Response

/-- A wave of requests: is the read current when it starts, and what arrives. -/
structure Wave where
  isCurrent : Bool
  arrivals : List Arrival

/--
What a read meets.  The replies to a wave arrive in any order, and any of them more
than once; a request that is never answered fails by its timeout.
-/
structure Network where
  startCurrent : Bool
  first : Except String Response
  firstCurrent : Bool
  wave : List Nat → Wave
  complete : ∀ offsets o, (∃ a ∈ (wave offsets).arrivals, a.offset = o) ↔ o ∈ offsets

def stale : Except String α := .error "stale_sync_lane"

/-- What happens when a reply to a chunk request arrives. -/
def receive (id : String) (total : Nat) (buffer : Bytes) (arrival : Arrival) :
    Except String Bytes :=
  match arrival.reply with
  | .error e => .error e
  | .ok next =>
      if !arrival.isCurrent then
        stale
      else
        match chunkOf next.data next.chunkBytes with
        | .error e => .error e
        | .ok none => invalidChunk
        | .ok (some part) => storeChunk id total buffer part arrival.offset

/-- The offsets of the next wave. -/
def waveOffsets (total start : Nat) : List Nat :=
  (List.range (min readConcurrency ((total - start + chunkBytes - 1) / chunkBytes))).map
    fun index => start + index * chunkBytes

/-- The loop over the waves. -/
def readWaves (net : Network) (id : String) (total : Nat) (buffer : Bytes) (start : Nat) :
    Except String Bytes :=
  if start < total then
    let wave := net.wave (waveOffsets total start)
    if !wave.isCurrent then
      stale
    else
      match wave.arrivals.foldlM (receive id total) buffer with
      | .error e => .error e
      | .ok buffer => readWaves net id total buffer (start + readConcurrency * chunkBytes)
  else
    .ok buffer
termination_by total - start
decreasing_by simp only [readConcurrency, chunkBytes]; omega

/-- The buffer, filled after the first chunk. -/
def assemble (net : Network) (first : CarriedChunk) : Except String Bytes :=
  let id := first.chunk.id
  let total := first.chunk.totalBytes
  match storeChunk id total (List.replicate total 0) first 0 with
  | .error e => .error e
  | .ok buffer => readWaves net id total buffer first.chunk.nextOffset.toNat

/-- `decode` is the client's JSON reader. -/
def requestReadPage (decode : Bytes → Option Json) (net : Network) : Except String Json :=
  if !net.startCurrent then
    stale
  else
    match net.first with
    | .error e => .error e
    | .ok response =>
        if !net.firstCurrent then
          stale
        else
          match chunkOf response.data response.chunkBytes with
          | .error e => .error e
          | .ok none => .ok response.data
          | .ok (some first) =>
              match assemble net first with
              | .error e => .error e
              | .ok bytes =>
                  match decode bytes with
                  | none => .error "invalid_json"
                  | some data => .ok data

/-! ## The requests -/

/-- The fields of a client command that a paged read looks at. -/
structure RemoteCommand where
  type : String
  sessionId : Option String
  runId : Option String
  bridgeInstanceId : Option String

/--
The command with `chunkedRead`, as the desktop reads it: `requestRetry` adds the
confirmed bridge unless the command names one, and what is missing is empty.
-/
def RemoteCommand.opening (confirmed : String) (command : RemoteCommand) : IncomingCmd where
  cmdType := command.type
  chunkedRead := true
  bridgeInstanceId := command.bridgeInstanceId.getD confirmed
  sessionId := command.sessionId.getD ""
  runId := command.runId.getD ""
  replyId := ""
  offset := 0

/-- The request for a chunk: the run and the bridge only where they are not empty. -/
def RemoteCommand.next (confirmed sessionId : String) (command : RemoteCommand)
    (id : String) (offset : Nat) : IncomingCmd where
  cmdType := "get_read_chunk"
  chunkedRead := false
  bridgeInstanceId := ((command.bridgeInstanceId.filter (· ≠ "")).getD confirmed)
  sessionId := sessionId
  runId := (command.runId.filter (· ≠ "")).getD ""
  replyId := id
  offset := offset

/-! ## What the buffer holds -/

theorem length_setBytes
    {buffer part : Bytes}
    {offset : Nat}
    (h : offset + part.length ≤ buffer.length) :
    (setBytes buffer part offset).length = buffer.length := by
  simp only [setBytes, List.length_append, List.length_take, List.length_drop]
  omega

theorem getElem?_setBytes
    {buffer part : Bytes}
    {offset : Nat}
    (h : offset + part.length ≤ buffer.length)
    (i : Nat) :
    (setBytes buffer part offset)[i]? =
      if offset ≤ i ∧ i < offset + part.length then part[i - offset]? else buffer[i]? := by
  have hfront : (buffer.take offset).length = offset := by
    rw [List.length_take]
    omega
  rw [setBytes, List.append_assoc]
  by_cases hlow : i < offset
  · rw [if_neg (by omega), List.getElem?_append_left (by omega), List.getElem?_take_of_lt hlow]
  · rw [List.getElem?_append_right (by omega), hfront]
    by_cases hhigh : i < offset + part.length
    · rw [if_pos ⟨by omega, hhigh⟩, List.getElem?_append_left (by omega)]
    · rw [if_neg (by omega), List.getElem?_append_right (by omega), List.getElem?_drop]
      congr 1
      omega

/-- What a stored chunk has passed. -/
theorem storeChunk_eq_ok
    {id : String}
    {total : Nat}
    {buffer buffer' : Bytes}
    {carried : CarriedChunk}
    {offset : Nat}
    (h : storeChunk id total buffer carried offset = .ok buffer') :
    carried.chunk.Names id total offset ∧ ∃ part, carried.part = some part ∧
      carried.chunk.nextOffset = (offset + part.length : Nat) ∧
      part.length ≤ chunkBytes ∧ offset + part.length ≤ total ∧
      (offset + part.length < total → part.length = chunkBytes) ∧
      buffer' = setBytes buffer part offset := by
  rw [storeChunk] at h
  split at h
  · cases h
  · rename_i hnames
    split at h
    · cases h
    · rename_i part hpart
      dsimp only at h
      split at h
      · cases h
      · rename_i hchecks
        obtain rfl := Except.ok.inj h
        simp only [not_or, not_and, not_not] at hchecks
        obtain ⟨_, hsize, hnext, hle, hfull⟩ := hchecks
        exact ⟨not_not.1 hnames, part, hpart, by omega, by omega, by omega,
          fun hlt => hfull (by omega), rfl⟩

/-- What arrives in one of the waves behind the first chunk. -/
def InWave (net : Network) (first : CarriedChunk) (a : Arrival) : Prop :=
  ∃ k, a ∈ (net.wave (waveOffsets first.chunk.totalBytes
    (first.chunk.nextOffset.toNat + k * (readConcurrency * chunkBytes)))).arrivals

/-- A chunk the client took for an offset: the first one, or one that arrived for it. -/
def Received (net : Network) (first : CarriedChunk) (asked : Nat)
    (carried : CarriedChunk) : Prop :=
  (asked = 0 ∧ carried = first) ∨
    ∃ a, InWave net first a ∧ a.offset = asked ∧ ∃ response, a.reply = .ok response ∧
      chunkOf response.data response.chunkBytes = .ok (some carried)

/--
The byte was written by a chunk that names the pinned snapshot, its size and the
offset it was asked for.
-/
def Written (net : Network) (first : CarriedChunk) (i : Nat) (b : UInt8) : Prop :=
  ∃ asked carried part, Received net first asked carried ∧
    carried.chunk.Names first.chunk.id first.chunk.totalBytes asked ∧
    carried.part = some part ∧ asked ≤ i ∧ part[i - asked]? = some b

/-- The buffer has its size, and its places in `places` are written. -/
structure Filled (net : Network) (first : CarriedChunk) (places : Nat → Prop)
    (buffer : Bytes) : Prop where
  length : buffer.length = first.chunk.totalBytes
  written : ∀ i, places i → ∃ b, buffer[i]? = some b ∧ Written net first i b

section Filled

variable {net : Network}
variable {first : CarriedChunk}

theorem Filled.mono
    {places places' : Nat → Prop}
    {buffer : Bytes}
    (h : Filled net first places buffer)
    (hsub : ∀ i, places' i → places i) :
    Filled net first places' buffer :=
  ⟨h.length, fun i hi => h.written i (hsub i hi)⟩

/-- A stored chunk writes from its offset on to its full size, or to the end. -/
theorem Filled.store
    {places : Nat → Prop}
    {buffer buffer' : Bytes}
    (h : Filled net first places buffer)
    {carried : CarriedChunk}
    {asked : Nat}
    (hreceived : Received net first asked carried)
    (hstore : storeChunk first.chunk.id first.chunk.totalBytes buffer carried asked =
      .ok buffer') :
    Filled net first (fun i => places i ∨
      (asked ≤ i ∧ i < min first.chunk.totalBytes (asked + chunkBytes))) buffer' := by
  obtain ⟨hnames, part, hpart, _, _, hle, hfull, rfl⟩ := storeChunk_eq_ok hstore
  have hroom : asked + part.length ≤ buffer.length := h.length ▸ hle
  refine ⟨(length_setBytes hroom).trans h.length, fun i hi => ?_⟩
  rw [getElem?_setBytes hroom]
  by_cases hin : asked ≤ i ∧ i < asked + part.length
  · rw [if_pos hin]
    have hlt : i - asked < part.length := by omega
    have hget := List.getElem?_eq_getElem hlt
    exact ⟨_, hget, asked, carried, part, hreceived, hnames, hpart, hin.1, hget⟩
  · rw [if_neg hin]
    rcases hi with hi | ⟨hlow, hhigh⟩
    · exact h.written i hi
    · by_cases hlast : asked + part.length < first.chunk.totalBytes
      · have := hfull hlast
        omega
      · omega

theorem Filled.receive
    {places : Nat → Prop}
    {buffer buffer' : Bytes}
    (h : Filled net first places buffer)
    {a : Arrival}
    (ha : InWave net first a)
    (hreceive : receive first.chunk.id first.chunk.totalBytes buffer a = .ok buffer') :
    Filled net first (fun i => places i ∨
      (a.offset ≤ i ∧ i < min first.chunk.totalBytes (a.offset + chunkBytes))) buffer' := by
  rw [ReadPages.receive] at hreceive
  split at hreceive
  · cases hreceive
  · rename_i response hreply
    split at hreceive
    · cases hreceive
    · split at hreceive
      · cases hreceive
      · cases hreceive
      · rename_i carried hcarried
        exact h.store (Or.inr ⟨a, ha, rfl, response, hreply, hcarried⟩) hreceive

/-- By induction on what arrives. -/
theorem Filled.arrivals
    {arrivals : List Arrival}
    (harrivals : ∀ a ∈ arrivals, InWave net first a)
    {places : Nat → Prop}
    {buffer buffer' : Bytes}
    (h : Filled net first places buffer)
    (hfold : arrivals.foldlM (ReadPages.receive first.chunk.id first.chunk.totalBytes)
      buffer = .ok buffer') :
    Filled net first (fun i => places i ∨ ∃ a ∈ arrivals,
      a.offset ≤ i ∧ i < min first.chunk.totalBytes (a.offset + chunkBytes)) buffer' := by
  induction arrivals generalizing places buffer with
  | nil =>
      obtain rfl := Except.ok.inj hfold
      exact h.mono fun i hi => hi.resolve_right (by simp)
  | cons a rest ih =>
      rw [List.foldlM_cons] at hfold
      cases hreceive : ReadPages.receive first.chunk.id first.chunk.totalBytes buffer a with
      | error e =>
          rw [hreceive] at hfold
          cases hfold
      | ok next =>
          rw [hreceive] at hfold
          have hnext := h.receive (harrivals a List.mem_cons_self) hreceive
          refine (ih (fun b hb => harrivals b (List.mem_cons_of_mem _ hb)) hnext hfold).mono ?_
          rintro i (hi | ⟨b, hb, hrange⟩)
          · exact Or.inl (Or.inl hi)
          · rcases List.mem_cons.1 hb with rfl | hb
            · exact Or.inl (Or.inr hrange)
            · exact Or.inr ⟨b, hb, hrange⟩

/-- A wave asks for every place up to where the next one starts. -/
theorem exists_waveOffset
    {total start i : Nat}
    (hlow : start ≤ i)
    (hhigh : i < start + readConcurrency * chunkBytes)
    (htotal : i < total) :
    ∃ o ∈ waveOffsets total start, o ≤ i ∧ i < o + chunkBytes := by
  simp only [readConcurrency, chunkBytes] at hhigh
  refine ⟨start + (i - start) / chunkBytes * chunkBytes, ?_, ?_, ?_⟩
  · refine List.mem_map.2 ⟨(i - start) / chunkBytes, List.mem_range.2 ?_, rfl⟩
    simp only [readConcurrency, chunkBytes]
    omega
  · simp only [chunkBytes]
    omega
  · simp only [chunkBytes]
    omega

/-- The loop fills the rest of the buffer. -/
theorem Filled.readWaves
    {start : Nat}
    (hstart : ∃ k, start =
      first.chunk.nextOffset.toNat + k * (readConcurrency * chunkBytes))
    {buffer buffer' : Bytes}
    (h : Filled net first (fun i => i < first.chunk.totalBytes ∧ i < start) buffer)
    (hread : readWaves net first.chunk.id first.chunk.totalBytes buffer start = .ok buffer') :
    Filled net first (· < first.chunk.totalBytes) buffer' := by
  fun_induction ReadPages.readWaves net first.chunk.id first.chunk.totalBytes buffer start with
  | case1 =>
      cases hread
  | case2 =>
      cases hread
  | case3 buffer start hlt wave hcurrent next hfold ih =>
      obtain ⟨k, hk⟩ := hstart
      have hwave : ∀ a ∈ wave.arrivals, InWave net first a :=
        fun a ha => ⟨k, hk ▸ ha⟩
      have hnext : ∃ k, start + readConcurrency * chunkBytes =
          first.chunk.nextOffset.toNat + k * (readConcurrency * chunkBytes) :=
        ⟨k + 1, by rw [hk, Nat.add_mul, Nat.one_mul, Nat.add_assoc]⟩
      refine ih hnext ((h.arrivals hwave hfold).mono ?_) hread
      rintro i ⟨htotal, hhigh⟩
      by_cases hlow : i < start
      · exact Or.inl ⟨htotal, hlow⟩
      · obtain ⟨o, ho, hle, hlt⟩ := exists_waveOffset (by omega) hhigh htotal
        obtain ⟨a, ha, rfl⟩ := (net.complete _ o).2 ho
        exact Or.inr ⟨a, ha, hle, lt_min htotal hlt⟩
  | case4 buffer start hlt =>
      obtain rfl := Except.ok.inj hread
      exact h.mono fun i hi => ⟨hi, by omega⟩

/-- No byte of an assembled buffer is a gap. -/
theorem filled_assemble
    {buffer : Bytes}
    (h : assemble net first = .ok buffer) :
    Filled net first (· < first.chunk.totalBytes) buffer := by
  rw [assemble] at h
  split at h
  · cases h
  · rename_i stored hstore
    have hempty : Filled net first (fun _ => False)
        (List.replicate first.chunk.totalBytes 0) :=
      ⟨List.length_replicate, fun _ hi => hi.elim⟩
    have hfirst := hempty.store (Or.inl ⟨rfl, rfl⟩) hstore
    obtain ⟨_, part, _, hnext, hsize, _⟩ := storeChunk_eq_ok hstore
    refine Filled.readWaves ⟨0, by omega⟩ (hfirst.mono ?_) h
    rintro i ⟨htotal, hlow⟩
    rw [hnext] at hlow
    exact Or.inr ⟨Nat.zero_le i, lt_min htotal (by omega)⟩

end Filled

end ReadPages
end Remote
end FutureOs
