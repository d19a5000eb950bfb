import FutureOs.Remote.SecureChannel
import Mathlib.Data.List.Nodup

/-!
# Exactly-once records

A peer seals records, and somebody presents records to the other end: authentic
ones in any order, old ones, changed ones, records the other end itself has
sealed.  What the cipher is trusted with is one sentence: of what is presented,
it decrypts exactly what the peer sealed with that key, context and header.

* `record_window`: what is accepted, in terms of the set of sequence numbers
  accepted before; nonces; and the same answers in the browser.
-/

namespace FutureOs
namespace Remote

/-- A record: its number, what it binds and what it looks like. -/
structure SealedRecord where
  sequence : Nat
  context : Text
  plaintext : Bytes
  wire : Bytes
deriving DecidableEq

/-- The peer that seals, and the end that opens. -/
structure RecordWorld where
  peer : Channel
  host : Channel

/-- The peer sends, the host answers, or somebody presents a record. -/
inductive RecordOp
  | send (context : Text) (plaintext : Bytes)
  | answer (context : Text) (plaintext : Bytes)
  | present (context : Text) (wire : Bytes)

/-- One call on a channel. -/
inductive ChannelOp
  | sealing (context : Text) (plaintext : Bytes)
  | opening (context : Text) (wire : Bytes)

namespace Channel

def act (cipher : Cipher) (c : Channel) :
    ChannelOp → Option Bytes × Channel
  | .sealing context plaintext => c.sealRecord cipher context plaintext
  | .opening context wire => c.openRecord cipher context wire

def step (cipher : Cipher) (c : Channel) (op : ChannelOp) : Channel :=
  (c.act cipher op).2

/-- What a call answers. -/
def answers (cipher : Cipher) (c : Channel) (op : ChannelOp) :
    List (Option Bytes) :=
  [(c.act cipher op).1]

end Channel

namespace SecureChannel

def act (cipher : Cipher) (c : SecureChannel) :
    ChannelOp → Option Bytes × SecureChannel
  | .sealing context plaintext =>
      c.sealRecord cipher (utf16 context) plaintext
  | .opening context wire => c.openRecord cipher (utf16 context) wire

def step (cipher : Cipher) (c : SecureChannel) (op : ChannelOp) :
    SecureChannel :=
  (c.act cipher op).2

def answers (cipher : Cipher) (c : SecureChannel) (op : ChannelOp) :
    List (Option Bytes) :=
  [(c.act cipher op).1]

theorem Mirrors.act
    {c : Channel}
    {ts : SecureChannel}
    (h : Mirrors c ts)
    (cipher : Cipher)
    (op : ChannelOp) :
    (ts.act cipher op).1 = (c.act cipher op).1 ∧
    Mirrors (c.act cipher op).2 (ts.act cipher op).2 := by
  cases op with
  | sealing context plaintext => exact h.sealRecord cipher context plaintext
  | opening context wire => exact h.openRecord cipher context wire

/-- Two channels in the same state give the same answers to every run. -/
theorem Mirrors.answers
    {c : Channel}
    {ts : SecureChannel}
    (h : Mirrors c ts)
    (cipher : Cipher)
    (ops : List ChannelOp) :
    Machine.trace (SecureChannel.step cipher) (SecureChannel.answers cipher) ts
        ops =
      Machine.trace (Channel.step cipher) (Channel.answers cipher) c ops := by
  induction ops generalizing c ts with
  | nil =>
      rfl
  | cons op ops ih =>
      obtain ⟨hanswer, hnext⟩ := h.act cipher op
      simp only [Machine.trace, SecureChannel.answers, Channel.answers, hanswer]
      exact congrArg _ (ih hnext)

end SecureChannel

namespace RecordWorld

/-- Both ends of one handshake: `key` is the peer's sending key. -/
def new (key key' : Key) (id : ChannelId) : RecordWorld :=
  ⟨Channel.new key key' id, Channel.new key' key id⟩

def step (cipher : Cipher) (w : RecordWorld) : RecordOp → RecordWorld
  | .send context plaintext =>
      { w with peer := (w.peer.sealRecord cipher context plaintext).2 }
  | .answer context plaintext =>
      { w with host := (w.host.sealRecord cipher context plaintext).2 }
  | .present context wire =>
      { w with host := (w.host.openRecord cipher context wire).2 }

/-- The record the peer has sealed. -/
def sent (cipher : Cipher) (w : RecordWorld) : RecordOp → List SealedRecord
  | .send context plaintext =>
      match (w.peer.sealRecord cipher context plaintext).1 with
      | some wire => [⟨w.peer.next, context, plaintext, wire⟩]
      | none => []
  | .answer .. => []
  | .present .. => []

/-- The record the host has accepted. -/
def accepted (cipher : Cipher) (w : RecordWorld) : RecordOp → List SealedRecord
  | .send .. => []
  | .answer .. => []
  | .present context wire =>
      match (w.host.openRecord cipher context wire).1 with
      | some plaintext => [⟨wireSequence wire, context, plaintext, wire⟩]
      | none => []

/-- The sequence numbers the peer uses up. -/
def used (w : RecordWorld) : RecordOp → List Nat
  | .send _ plaintext => w.peer.used plaintext
  | .answer .. => []
  | .present .. => []

/-- The nonces the peer passes to the cipher. -/
def nonces (w : RecordWorld) : RecordOp → List Bytes
  | .send context plaintext => w.peer.nonces context plaintext
  | .answer .. => []
  | .present .. => []

variable {cipher : Cipher}
variable {key key' : Key}
variable {id : ChannelId}

/-! ## Invariants -/

/-- Both ends keep their keys and the id. -/
structure Keyed (key : Key) (id : ChannelId) (w : RecordWorld) : Prop where
  receive : w.host.receive = key
  host : w.host.id = id
  peer : w.peer.id = id

theorem accept_or_same
    (cipher : Cipher)
    (w : RecordWorld)
    (context : Text)
    (wire : Bytes) :
    (w.accepted cipher (.present context wire) = [] ∧
      w.step cipher (.present context wire) = w) ∨
    ∃ plaintext,
      w.accepted cipher (.present context wire) =
        [⟨wireSequence wire, context, plaintext, wire⟩] ∧
      w.step cipher (.present context wire) =
        { w with host := w.host.accept (wireSequence wire) } ∧
      wireSequence wire < maxSequence ∧
      ReplayWindow.Fresh w.host.highest w.host.slots window
        (wireSequence wire) := by
  rcases w.host.openRecord_cases cipher context wire with
    heq | ⟨plaintext, heq, _, hlimit, hfresh, _⟩
  · left
    simp only [accepted, step, heq, and_self]
  · right
    refine ⟨plaintext, ?_, ?_, hlimit, hfresh⟩
    · simp only [accepted, heq]
    · simp only [step, heq]

theorem keyed_step
    (w : RecordWorld)
    (op : RecordOp)
    (h : w.Keyed key id) :
    (w.step cipher op).Keyed key id := by
  obtain ⟨hreceive, hhost, hpeer⟩ := h
  cases op with
  | send context plaintext =>
      simp only [step, Channel.sealRecord_next]
      exact ⟨hreceive, hhost, hpeer⟩
  | answer context plaintext =>
      simp only [step, Channel.sealRecord_next]
      exact ⟨hreceive, hhost, hpeer⟩
  | present context wire =>
      rcases accept_or_same cipher w context wire with
        ⟨_, heq⟩ | ⟨_, _, heq, _⟩
      · rw [heq]
        exact ⟨hreceive, hhost, hpeer⟩
      · rw [heq]
        exact ⟨hreceive, hhost, hpeer⟩

/-- The window represents the numbers accepted so far, each of them once. -/
structure Accepting (w : RecordWorld) (out : List SealedRecord) : Prop where
  received : w.host.Received (out.map SealedRecord.sequence)
  nodup : (out.map SealedRecord.sequence).Nodup

theorem accepting_step
    (w : RecordWorld)
    (out : List SealedRecord)
    (op : RecordOp)
    (h : w.Accepting out) :
    (w.step cipher op).Accepting (out ++ w.accepted cipher op) := by
  cases op with
  | send context plaintext =>
      rw [accepted, List.append_nil]
      exact ⟨h.received, h.nodup⟩
  | answer context plaintext =>
      rw [accepted, List.append_nil]
      simp only [step, Channel.sealRecord_next]
      exact ⟨h.received, h.nodup⟩
  | present context wire =>
      rcases accept_or_same cipher w context wire with
        ⟨hnone, heq⟩ | ⟨plaintext, hone, heq, hlimit, hfresh⟩
      · rw [hnone, heq, List.append_nil]
        exact h
      · rw [hone, heq]
        have hnew := ((h.received.fresh_iff _).1 hfresh).1
        refine ⟨?_, ?_⟩
        · refine (h.received.accept hlimit hfresh).of_mem fun n => ?_
          simp [or_comm]
        · rw [List.map_append, List.map_singleton]
          exact List.nodup_append.2 ⟨h.nodup, List.nodup_singleton _,
            fun a ha b hb hab => by
              rw [List.mem_singleton] at hb
              subst hab hb
              exact hnew ha⟩

/-- Everything sealed is a record of the channel, under its own number. -/
structure Sealing
    (id : ChannelId)
    (w : RecordWorld)
    (log : List SealedRecord) : Prop where
  peer : w.peer.id = id
  framed : ∀ r ∈ log, Channel.Framed id r.wire
  limit : ∀ r ∈ log, wireSequence r.wire < maxSequence

theorem sealing_step
    (htag : cipher.AppendsTag)
    (w : RecordWorld)
    (log : List SealedRecord)
    (op : RecordOp)
    (h : Sealing id w log) :
    Sealing id (w.step cipher op) (log ++ w.sent cipher op) := by
  cases op with
  | send context plaintext =>
      have hpeer : (w.step cipher (.send context plaintext)).peer.id = id := by
        simp only [step, Channel.sealRecord_next]
        exact h.peer
      cases hwire : (w.peer.sealRecord cipher context plaintext).1 with
      | none =>
          simp only [sent, hwire, List.append_nil]
          exact ⟨hpeer, h.framed, h.limit⟩
      | some wire =>
          obtain ⟨hframed, hsequence, hlimit⟩ :=
            Channel.framed_of_sealed htag hwire
          rw [h.peer] at hframed
          simp only [sent, hwire]
          refine ⟨hpeer, ?_, ?_⟩
          · intro r hr
            rcases List.mem_append.1 hr with hr | hr
            · exact h.framed r hr
            · rw [List.mem_singleton] at hr
              exact hr ▸ hframed
          · intro r hr
            rcases List.mem_append.1 hr with hr | hr
            · exact h.limit r hr
            · rw [List.mem_singleton] at hr
              subst hr
              rw [hsequence]
              exact hlimit
  | answer context plaintext =>
      rw [sent, List.append_nil]
      exact ⟨h.peer, h.framed, h.limit⟩
  | present context wire =>
      rw [sent, List.append_nil]
      exact ⟨h.peer, h.framed, h.limit⟩

theorem sent_step
    (w : RecordWorld)
    (numbers : List Nat)
    (op : RecordOp)
    (h : w.peer.Sent numbers) :
    (w.step cipher op).peer.Sent (numbers ++ w.used op) := by
  cases op with
  | send context plaintext => exact h.seal cipher context plaintext
  | answer context plaintext =>
      rw [used, List.append_nil]
      exact h
  | present context wire =>
      rw [used, List.append_nil]
      exact h

/-- The nonces of a run are among those of the numbers it uses up. -/
theorem trace_nonces
    (w : RecordWorld)
    (ops : List RecordOp) :
    (Machine.trace (step cipher) nonces w ops).Sublist
      ((Machine.trace (step cipher) used w ops).map nonce) := by
  induction ops generalizing w with
  | nil =>
      exact .slnil
  | cons op ops ih =>
      simp only [Machine.trace, List.map_append]
      refine List.Sublist.append ?_ (ih _)
      cases op with
      | send context plaintext => exact w.peer.nonces_sublist context plaintext
      | answer context plaintext => exact .slnil
      | present context wire => exact .slnil

/-! ## Runs -/

/--
Exactly-once record window.  `hauth` is the trust in the cipher: of the records
presented in the run, it decrypts exactly those the peer has sealed in it, under
their own context.
-/
theorem record_window
    (cipher : Cipher)
    (htag : cipher.AppendsTag)
    (key key' : Key)
    (id : ChannelId)
    (ops : List RecordOp)
    (hauth : ∀ context wire, .present context wire ∈ ops → ∀ plaintext,
      Channel.Decrypts cipher key context wire plaintext ↔
        ⟨wireSequence wire, context, plaintext, wire⟩ ∈
          Machine.trace (step cipher) (sent cipher) (new key key' id) ops) :
    let start := new key key' id
    -- each sequence number is accepted at most once
    ((Machine.trace (step cipher) (accepted cipher) start ops).map
      SealedRecord.sequence).Nodup ∧
    -- authentic, new, and less than a window behind: exactly these are accepted
    (∀ before context wire after,
      ops = before ++ .present context wire :: after →
      let w := Machine.run (step cipher) start before
      let taken := (Machine.trace (step cipher) (accepted cipher) start
        before).map SealedRecord.sequence
      w.host.highest = taken.foldr max 0 ∧
      ∀ plaintext,
        (w.host.openRecord cipher context wire).1 = some plaintext ↔
          ⟨wireSequence wire, context, plaintext, wire⟩ ∈
            Machine.trace (step cipher) (sent cipher) start ops ∧
          wireSequence wire ∉ taken ∧
          (w.host.highest < 4096 ∨
            w.host.highest - 4096 < wireSequence wire)) ∧
    -- a rejected record changes nothing
    (∀ (c : Channel) context wire,
      (c.openRecord cipher context wire).1 = none →
      (c.openRecord cipher context wire).2 = c) ∧
    -- no nonce is used twice, and the channel ends with its numbers
    (Machine.trace (step cipher) nonces start ops).Nodup ∧
    ((Machine.trace (step cipher) used start ops).length = 2 ^ 32 - 1 →
      ∀ context plaintext,
        let peer := (Machine.run (step cipher) start ops).peer
        peer.sealRecord cipher context plaintext = (none, peer)) ∧
    -- the channel in the browser answers every run of calls the same
    ∃ ts, SecureChannel.create key.toList key'.toList id.toList = some ts ∧
      ∀ calls : List ChannelOp,
        Machine.trace (SecureChannel.step cipher)
            (SecureChannel.answers cipher) ts calls =
          Machine.trace (Channel.step cipher) (Channel.answers cipher)
            (Channel.new key key' id) calls := by
  intro start
  have haccepting : ∀ ops, (Machine.run (step cipher) start ops).Accepting
      (Machine.trace (step cipher) (accepted cipher) start ops) :=
    Machine.run_trace_invariant (I := Accepting) accepting_step
      (show Accepting start [] from
        ⟨Channel.received_new key' key id, List.nodup_nil⟩)
  have hkeyed : ∀ ops, (Machine.run (step cipher) start ops).Keyed key id :=
    Machine.run_invariant (I := Keyed key id) keyed_step
      (show Keyed key id start from ⟨rfl, rfl, rfl⟩)
  have hsealing : Sealing id (Machine.run (step cipher) start ops)
      (Machine.trace (step cipher) (sent cipher) start ops) :=
    Machine.run_trace_invariant (I := Sealing id) (sealing_step htag)
      (show Sealing id start [] from ⟨rfl, by simp, by simp⟩) ops
  have hsent : (Machine.run (step cipher) start ops).peer.Sent
      (Machine.trace (step cipher) used start ops) :=
    Machine.run_trace_invariant
      (I := fun (w : RecordWorld) numbers => w.peer.Sent numbers) sent_step
      (show start.peer.Sent [] from ⟨rfl, Nat.zero_le _⟩) ops
  refine ⟨(haccepting ops).nodup, ?_, ?_, ?_, ?_, ?_⟩
  · intro before context wire after hsplit w taken
    have hreceived : w.host.Received taken := (haccepting before).received
    have hmem : RecordOp.present context wire ∈ ops := by
      rw [hsplit]
      simp
    obtain ⟨hkey, hid, _⟩ := hkeyed before
    refine ⟨hreceived.highest_eq, fun plaintext => ?_⟩
    rw [Channel.openRecord_eq_some_iff, hreceived.fresh_iff, hkey, hid,
      hauth context wire hmem]
    constructor
    · rintro ⟨_, _, ⟨hnew, hinside⟩, hlog⟩
      exact ⟨hlog, hnew, hinside⟩
    · rintro ⟨hlog, hnew, hinside⟩
      exact ⟨hsealing.framed _ hlog, hsealing.limit _ hlog, ⟨hnew, hinside⟩,
        hlog⟩
  · exact fun c context wire h => c.openRecord_rejected cipher context wire h
  · refine (trace_nonces start ops).nodup ?_
    rw [hsent.numbers]
    refine List.nodup_range.map_on fun n hn m hm heq => ?_
    rw [List.mem_range] at hn hm
    exact Channel.nonce_injective (Nat.lt_of_lt_of_le hn hsent.limit)
      (Nat.lt_of_lt_of_le hm hsent.limit) heq
  · intro hlength context plaintext
    refine Channel.sealRecord_exhausted cipher _ context plaintext ?_
    rw [hsent.numbers, List.length_range] at hlength
    exact hlength.ge
  · obtain ⟨ts, hcreate, hmirrors⟩ := SecureChannel.mirrors_new key key' id
    exact ⟨ts, hcreate, hmirrors.answers cipher⟩

/-- The key, the id and the body of the run below. -/
def recordKey : Key := Vector.mk
  #[0, 1, 2, 3, 4, 5, 6, 7, 8, 9, 10, 11, 12, 13, 14, 15, 16, 17, 18, 19, 20,
    21, 22, 23, 24, 25, 26, 27, 28, 29, 30, 31] rfl

def recordId : ChannelId := Vector.mk
  #[1, 2, 3, 4, 5, 6, 7, 8, 9, 10, 11, 12, 13, 14, 15, 16] rfl

def recordBody : Bytes :=
  [112, 209, 80, 93, 108, 252, 130, 84, 132, 253, 198, 106, 5, 81, 17, 25, 210,
    223]

/-- ChaCha20-Poly1305 at the one record of the run below. -/
def recordCipher : Cipher where
  encrypt key nonce aad plaintext :=
    if key = recordKey.toList ∧ nonce = Remote.nonce 0 ∧
        aad = Channel.header recordId 0 ++ Utf8.encode "cmd".toList ∧
        plaintext = [104, 105] then
      some recordBody
    else
      none
  decrypt key nonce aad body :=
    if key = recordKey.toList ∧ nonce = Remote.nonce 0 ∧
        aad = Channel.header recordId 0 ++ Utf8.encode "cmd".toList ∧
        body = recordBody then
      some [104, 105]
    else
      none

theorem wireSequence_record :
    wireSequence (Channel.header recordId 0 ++ recordBody) = 0 := by
  decide +kernel

/-- A record is presented twice, and then under another context. -/
theorem record_window_replayed :
    let wire := Channel.header recordId 0 ++ recordBody
    let ops : List RecordOp :=
      [.send "cmd".toList [104, 105], .present "cmd".toList wire,
        .present "cmd".toList wire, .present "event".toList wire]
    let w := Machine.run (step recordCipher)
      (new recordKey recordKey recordId) (ops.take 2)
    w.host.openRecord recordCipher "cmd".toList wire = (none, w.host) := by
  intro wire ops w
  have htag : recordCipher.AppendsTag := by
    intro key nonce aad plaintext body h
    simp only [recordCipher] at h
    split at h
    · rename_i heq
      rw [← Option.some.inj h, heq.2.2.2]
      rfl
    · simp at h
  have hlog : Machine.trace (step recordCipher) (sent recordCipher)
      (new recordKey recordKey recordId) ops =
      [⟨0, "cmd".toList, [104, 105], wire⟩] := by
    decide +kernel
  have hauth : ∀ context wire', .present context wire' ∈ ops → ∀ plaintext,
      Channel.Decrypts recordCipher recordKey context wire' plaintext ↔
        ⟨wireSequence wire', context, plaintext, wire'⟩ ∈
          Machine.trace (step recordCipher) (sent recordCipher)
            (new recordKey recordKey recordId) ops := by
    intro context wire' hmem plaintext
    have hbind : Channel.Decrypts recordCipher recordKey context wire'
        plaintext ↔ (associatedData (wire'.take headerLen) context).bind
          (fun aad => recordCipher.decrypt recordKey.toList
            (nonce (wireSequence wire')) aad (wire'.drop headerLen)) =
          some plaintext := Option.bind_eq_some_iff.symm
    rw [hlog, List.mem_singleton, hbind]
    simp only [ops, List.mem_cons, List.not_mem_nil, or_false, reduceCtorEq,
      false_or, RecordOp.present.injEq] at hmem
    have hcmd : (associatedData (wire.take headerLen) "cmd".toList).bind
        (fun aad => recordCipher.decrypt recordKey.toList
          (nonce (wireSequence wire)) aad (wire.drop headerLen)) =
        some [104, 105] := by
      decide +kernel
    have hevent : (associatedData (wire.take headerLen) "event".toList).bind
        (fun aad => recordCipher.decrypt recordKey.toList
          (nonce (wireSequence wire)) aad (wire.drop headerLen)) = none := by
      decide +kernel
    rcases hmem with ⟨rfl, rfl⟩ | ⟨rfl, rfl⟩ | ⟨rfl, rfl⟩
    · rw [hcmd]
      simp [wire, wireSequence_record, eq_comm]
    · rw [hcmd]
      simp [wire, wireSequence_record, eq_comm]
    · rw [hevent]
      simp
  obtain ⟨_, hexact, hrejected, _⟩ := record_window recordCipher htag recordKey
    recordKey recordId ops hauth
  obtain ⟨_, haccepts⟩ := hexact (ops.take 2) "cmd".toList wire
    [.present "event".toList wire] rfl
  have hnone : (w.host.openRecord recordCipher "cmd".toList wire).1 = none := by
    refine Option.eq_none_iff_forall_ne_some.2 fun plaintext hsome => ?_
    have hnew := ((haccepts plaintext).1 hsome).2.1
    revert hnew
    decide +kernel
  exact Prod.ext hnone (hrejected w.host _ _ hnone)

end RecordWorld

end Remote
end FutureOs
