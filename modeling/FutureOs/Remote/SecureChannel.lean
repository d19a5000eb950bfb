import FutureOs.Remote.Channel

/-!
# Sealed records in the browser

`SecureChannel` (`packages/remote-crypto/src/secureChannel.ts`) is the other
implementation of the record layer.  It reads the sequence number as two 32-bit
halves, writes nonce and header into zeroed buffers, and checks the context on
its UTF-16 code units; its header and window constants are those of the Rust
channel.  `none` is the error `remote_secure_channel_invalid`.

* `Mirrors`: the two channels are in the same state;
* `Mirrors.sealRecord`, `Mirrors.openRecord`: they answer the same and stay so.
-/

namespace FutureOs
namespace Remote

open LittleEndian

/-- The UTF-16 code units of a text. -/
def utf16 (t : Text) : List Nat :=
  t.flatMap fun c =>
    if c.toNat < 0x10000 then
      [c.toNat]
    else
      [0xd800 + (c.toNat - 0x10000) / 0x400,
        0xdc00 + (c.toNat - 0x10000) % 0x400]

structure SecureChannel where
  next : Nat
  highest : Nat
  seen : Vector Nat window
  destroyed : Bool
  send : Bytes
  receive : Bytes
  id : Bytes

namespace SecureChannel

def maxSequence : Nat := 0xffffffff

def maxSecurePlaintext : Nat := 1024 * 1024 - headerLen - 16

def create (send receive id : Bytes) : Option SecureChannel :=
  if send.length ≠ 32 ∨ receive.length ≠ 32 ∨ id.length ≠ 16 then
    none
  else
    some ⟨0, 0, Vector.replicate window 0, false, send, receive, id⟩

/-- `aad`; what passes the test is ASCII, one byte for each unit. -/
def aad (header : Bytes) (context : List Nat) : Option Bytes :=
  if context = [] ∨ 1024 < context.length ∨ context.any (0x7f < ·) then
    none
  else
    some (header ++ context.map UInt8.ofNat)

/-- Twelve zero bytes, the number set as a `Uint32` at offset 4. -/
def nonce (sequence : Nat) : Bytes :=
  List.replicate 4 0 ++ write 4 sequence ++ List.replicate 4 0

/-- 28 zero bytes with magic, id and the number set as a `Uint32`. -/
def header (id : Bytes) (sequence : Nat) : Bytes :=
  magic ++ id ++ write 4 sequence ++ List.replicate 4 0

def sealRecord
    (cipher : Cipher)
    (c : SecureChannel)
    (context : List Nat)
    (plaintext : Bytes) :
    Option Bytes × SecureChannel :=
  if c.destroyed = true ∨ maxSequence ≤ c.next ∨
      maxSecurePlaintext < plaintext.length then
    (none, c)
  else
    let sequence := c.next
    let record := do
      let aad ← aad (header c.id sequence) context
      let body ← cipher.encrypt c.send (nonce sequence) aad plaintext
      return header c.id sequence ++ body
    (record, { c with next := c.next + 1 })

/-- The channel after it accepted a record. -/
def accept (c : SecureChannel) (sequence : Nat) : SecureChannel :=
  { c with
    highest := max c.highest sequence
    seen := c.seen.set (slotOf sequence).val ((sequence + 1) % 2 ^ 32)
      (slotOf_lt sequence) }

def openRecord
    (cipher : Cipher)
    (c : SecureChannel)
    (context : List Nat)
    (wire : Bytes) :
    Option Bytes × SecureChannel :=
  if c.destroyed = true ∨ wire.length < headerLen + 16 ∨
      1024 * 1024 < wire.length ∨
      wire.take 4 ≠ magic ∨ (wire.drop 4).take 16 ≠ c.id then
    (none, c)
  else
    let sequence := read ((wire.drop 20).take 4)
    if read ((wire.drop 24).take 4) ≠ 0 ∨ maxSequence ≤ sequence ∨
        c.seen.get (slotOf sequence) = sequence + 1 ∨
        (window ≤ c.highest ∧ sequence ≤ c.highest - window) then
      (none, c)
    else
      let decrypted := do
        let aad ← aad (wire.take headerLen) context
        cipher.decrypt c.receive (nonce sequence) aad (wire.drop headerLen)
      match decrypted with
      | none => (none, c)
      | some plaintext =>
          (some plaintext, c.accept sequence)

/-! ## The same context, nonce and header -/

theorem utf16_of_ascii
    {t : Text}
    (h : t.all (·.toNat < 128) = true) :
    utf16 t = t.map Char.toNat := by
  induction t with
  | nil =>
      rfl
  | cons c t ih =>
      rw [List.all_cons, Bool.and_eq_true, decide_eq_true_eq] at h
      rw [List.map_cons, ← ih h.2, utf16, List.flatMap_cons, if_pos (by omega)]
      rfl

theorem encode_of_ascii
    {t : Text}
    (h : t.all (·.toNat < 128) = true) :
    Utf8.encode t = t.map (UInt8.ofNat ∘ Char.toNat) := by
  induction t with
  | nil =>
      rfl
  | cons c t ih =>
      rw [List.all_cons, Bool.and_eq_true, decide_eq_true_eq] at h
      have hchar : String.utf8EncodeChar c = [UInt8.ofNat c.toNat] :=
        if_pos (Nat.le_of_lt_succ h.1)
      rw [Utf8.encode, List.flatMap_cons, hchar, List.map_cons]
      exact congrArg _ (ih h.2)

/-- A text is ASCII exactly if all its code units are. -/
theorem utf16_any (t : Text) :
    (utf16 t).any (0x7f < ·) = !t.all (·.toNat < 128) := by
  induction t with
  | nil =>
      rfl
  | cons c t ih =>
      have hcons : utf16 (c :: t) = utf16 [c] ++ utf16 t := by
        simp [utf16]
      have hone : (utf16 [c]).any (0x7f < ·) = !decide (c.toNat < 128) := by
        simp only [utf16, List.flatMap_cons, List.flatMap_nil, List.append_nil]
        split
        · by_cases hc : c.toNat < 128
          · simp [hc]
            omega
          · simp [hc]
            omega
        · have hc : ¬c.toNat < 128 := by omega
          simp [hc]
          omega
      rw [hcons, List.any_append, ih, hone, List.all_cons, Bool.not_and]

theorem aad_utf16 (header : Bytes) (context : Text) :
    aad header (utf16 context) = associatedData header context := by
  unfold aad associatedData
  rw [utf16_any]
  by_cases hascii : context.all (·.toNat < 128) = true
  · have hunits := utf16_of_ascii hascii
    have hbytes := encode_of_ascii hascii
    have hsize : Utf8.size context = context.length := by
      rw [← Utf8.length_encode, hbytes, List.length_map]
    rw [hsize, hunits, hbytes, List.map_map, List.length_map]
    simp only [List.map_eq_nil_iff, hascii, Bool.not_true, Bool.false_eq_true,
      not_true_eq_false]
  · simp [hascii]

theorem nonce_eq
    {sequence : Nat}
    (h : sequence < 2 ^ 32) :
    nonce sequence = Remote.nonce sequence := by
  unfold nonce Remote.nonce
  rw [write_add 4 (by omega : sequence < 256 ^ 4), List.append_assoc]

theorem header_eq
    (id : ChannelId)
    {sequence : Nat}
    (h : sequence < 2 ^ 32) :
    header id.toList sequence = Channel.header id sequence := by
  unfold header Channel.header
  rw [write_add 4 (by omega : sequence < 256 ^ 4), List.append_assoc]

/-- The number in a header, from its two halves. -/
theorem wireSequence_eq
    {wire : Bytes}
    (h : headerLen + tagLen ≤ wire.length) :
    wireSequence wire =
      read ((wire.drop 20).take 4) +
        2 ^ 32 * read ((wire.drop 24).take 4) := by
  have hlength : ((wire.drop 20).take 4).length = 4 := by
    simp only [List.length_take, List.length_drop]
    unfold headerLen tagLen at h
    omega
  have hsplit : (wire.drop 20).take 8 =
      (wire.drop 20).take 4 ++ (wire.drop 24).take 4 := by
    rw [show (8 : Nat) = 4 + 4 from rfl, List.take_add, List.drop_drop]
  have hpow : 256 ^ 4 = 2 ^ 32 := by norm_num
  rw [wireSequence, hsplit, read_append, hlength, hpow]

/-! ## The same channel -/

/-- The two channels are in the same state. -/
structure Mirrors (c : Channel) (ts : SecureChannel) : Prop where
  next : ts.next = c.next
  highest : ts.highest = c.highest
  seen : ts.seen = c.seen
  live : ts.destroyed = false
  send : ts.send = c.send.toList
  receive : ts.receive = c.receive.toList
  id : ts.id = c.id.toList

theorem mirrors_new (send receive : Key) (id : ChannelId) :
    ∃ ts, create send.toList receive.toList id.toList = some ts ∧
      Mirrors (Channel.new send receive id) ts := by
  refine ⟨_, if_neg (by simp), ?_⟩
  exact ⟨rfl, rfl, rfl, rfl, rfl, rfl, rfl⟩

section Mirrors

variable {c : Channel}
variable {ts : SecureChannel}

theorem Mirrors.sealRecord
    (h : Mirrors c ts)
    (cipher : Cipher)
    (context : Text)
    (plaintext : Bytes) :
    (ts.sealRecord cipher (utf16 context) plaintext).1 =
      (c.sealRecord cipher context plaintext).1 ∧
    Mirrors (c.sealRecord cipher context plaintext).2
      (ts.sealRecord cipher (utf16 context) plaintext).2 := by
  unfold SecureChannel.sealRecord Channel.sealRecord
  by_cases hroom : maxPlaintext < plaintext.length ∨
      Remote.maxSequence ≤ c.next
  · have hroom' : ts.destroyed = true ∨ maxSequence ≤ ts.next ∨
        maxSecurePlaintext < plaintext.length := by
      rw [h.next]
      exact Or.inr hroom.symm
    rw [if_pos hroom, if_pos hroom']
    exact ⟨rfl, h⟩
  · have hroom' : ¬(ts.destroyed = true ∨ maxSequence ≤ ts.next ∨
        maxSecurePlaintext < plaintext.length) := by
      rw [h.next, h.live]
      rintro (hfalse | hrest)
      · simp at hfalse
      · exact hroom hrest.symm
    have hsmall : c.next < 2 ^ 32 := by
      rw [not_or] at hroom
      unfold Remote.maxSequence at hroom
      omega
    rw [if_neg hroom, if_neg hroom']
    refine ⟨?_, ?_⟩
    · simp only [h.next, h.send, h.id, header_eq c.id hsmall, nonce_eq hsmall,
        aad_utf16]
    · obtain ⟨hnext, hhighest, hseen, hlive, hsend, hreceive, hid⟩ := h
      exact ⟨by rw [hnext], hhighest, hseen, hlive, hsend, hreceive, hid⟩

theorem Mirrors.accept
    (h : Mirrors c ts)
    (sequence : Nat) :
    Mirrors (c.accept sequence) (ts.accept sequence) := by
  obtain ⟨hnext, hhighest, hseen, hlive, hsend, hreceive, hid⟩ := h
  refine ⟨hnext, ?_, ?_, hlive, hsend, hreceive, hid⟩
  · simp only [SecureChannel.accept, Channel.accept, hhighest]
  · simp only [SecureChannel.accept, Channel.accept, hseen]

theorem Mirrors.openRecord
    (h : Mirrors c ts)
    (cipher : Cipher)
    (context : Text)
    (wire : Bytes) :
    (ts.openRecord cipher (utf16 context) wire).1 =
      (c.openRecord cipher context wire).1 ∧
    Mirrors (c.openRecord cipher context wire).2
      (ts.openRecord cipher (utf16 context) wire).2 := by
  unfold SecureChannel.openRecord Channel.openRecord
  rw [h.id, h.live, h.seen, h.highest, h.receive]
  by_cases hframe : wire.length < headerLen + tagLen ∨
      maxPlaintext + headerLen + tagLen < wire.length ∨
      wire.take 4 ≠ magic ∨ (wire.drop 4).take 16 ≠ c.id.toList
  · have hframe' : false = true ∨ wire.length < headerLen + 16 ∨
        1024 * 1024 < wire.length ∨ wire.take 4 ≠ magic ∨
        (wire.drop 4).take 16 ≠ c.id.toList := Or.inr hframe
    rw [if_pos hframe, if_pos hframe']
    exact ⟨rfl, h⟩
  · have hframe' : ¬(false = true ∨ wire.length < headerLen + 16 ∨
        1024 * 1024 < wire.length ∨ wire.take 4 ≠ magic ∨
        (wire.drop 4).take 16 ≠ c.id.toList) := by
      rintro (hfalse | hrest)
      · simp at hfalse
      · exact hframe hrest
    rw [if_neg hframe, if_neg hframe']
    have hsequence := wireSequence_eq
      (Nat.le_of_not_lt (not_or.1 hframe).1)
    dsimp only
    by_cases hhigh : read ((wire.drop 24).take 4) = 0
    · rw [hhigh, Nat.mul_zero, Nat.add_zero] at hsequence
      rw [← hsequence]
      by_cases hfresh : Remote.maxSequence ≤ wireSequence wire ∨
          c.seen.get (slotOf (wireSequence wire)) = wireSequence wire + 1 ∨
          (window ≤ c.highest ∧ wireSequence wire ≤ c.highest - window)
      · have hfresh' : read ((wire.drop 24).take 4) ≠ 0 ∨
            maxSequence ≤ wireSequence wire ∨
            c.seen.get (slotOf (wireSequence wire)) = wireSequence wire + 1 ∨
            (window ≤ c.highest ∧ wireSequence wire ≤ c.highest - window) :=
          Or.inr hfresh
        rw [if_pos hfresh, if_pos hfresh']
        exact ⟨rfl, h⟩
      · have hfresh' : ¬(read ((wire.drop 24).take 4) ≠ 0 ∨
            maxSequence ≤ wireSequence wire ∨
            c.seen.get (slotOf (wireSequence wire)) = wireSequence wire + 1 ∨
            (window ≤ c.highest ∧
              wireSequence wire ≤ c.highest - window)) := by
          rintro (hne | hrest)
          · exact hne hhigh
          · exact hfresh hrest
        have hsmall : wireSequence wire < 2 ^ 32 := by
          rw [not_or] at hfresh
          unfold Remote.maxSequence at hfresh
          omega
        rw [if_neg hfresh, if_neg hfresh', nonce_eq hsmall, aad_utf16]
        cases haad : associatedData (wire.take headerLen) context with
        | none =>
            exact ⟨rfl, h⟩
        | some aad =>
            cases hdecrypt : cipher.decrypt c.receive.toList
                (Remote.nonce (wireSequence wire)) aad
                (wire.drop headerLen) with
            | none =>
                simp only [Option.bind_eq_bind, Option.bind_some, hdecrypt]
                exact ⟨trivial, h⟩
            | some plaintext =>
                simp only [Option.bind_eq_bind, Option.bind_some, hdecrypt]
                exact ⟨trivial, h.accept _⟩
    · have hlarge : Remote.maxSequence ≤ wireSequence wire := by
        have hpos := Nat.pos_of_ne_zero hhigh
        rw [hsequence]
        unfold Remote.maxSequence
        omega
      rw [if_pos (Or.inl hhigh), if_pos (Or.inl hlarge)]
      exact ⟨rfl, h⟩

end Mirrors

end SecureChannel

end Remote
end FutureOs
