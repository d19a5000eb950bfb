import FutureOs.Lib.LittleEndian
import FutureOs.Lib.Machine
import FutureOs.Lib.ReplayWindow

/-!
# Sealed records

`Channel` (`packages/remote-crypto/src/lib.rs`): one direction seals records
under consecutive sequence numbers, the other opens them in whatever order they
arrive.  A record is a header (magic, channel id, sequence) and an authenticated
body; the nonce is the sequence, and header and routing context are
authenticated with it.  Replays are refused by a ring of 4096 slots and a
high-water mark.

The cipher is outside the repository: `Cipher` is what the channel calls of it.
`none` is the only error there is, `remote_secure_channel_invalid`.

* `openRecord_eq_some_iff`: what `open` accepts;
* `Received`: ring and mark represent the set of accepted sequence numbers;
* `Sent`: the sequence numbers used so far are `0, 1, 2, …`.
-/

namespace FutureOs
namespace Remote

open LittleEndian

def headerLen : Nat := 28

def tagLen : Nat := 16

def maxPlaintext : Nat := 1048576 - headerLen - tagLen

def window : Nat := 4096

/-- `u32::MAX`: a new handshake is due well before the cipher's own limits. -/
def maxSequence : Nat := 2 ^ 32 - 1

/-- `FRE2`. -/
def magic : Bytes := [70, 82, 69, 50]

abbrev Key : Type := Vector UInt8 32

abbrev ChannelId : Type := Vector UInt8 16

/-- ChaCha20-Poly1305, as the channel calls it. -/
structure Cipher where
  encrypt (key nonce aad plaintext : Bytes) : Option Bytes
  decrypt (key nonce aad body : Bytes) : Option Bytes

/-- A body is as long as its plaintext and the tag. -/
def Cipher.AppendsTag (cipher : Cipher) : Prop :=
  ∀ key nonce aad plaintext body,
    cipher.encrypt key nonce aad plaintext = some body →
    body.length = plaintext.length + tagLen

def associatedData (header : Bytes) (context : Text) : Option Bytes :=
  if context = [] ∨ 1024 < Utf8.size context ∨
      ¬context.all (·.toNat < 128) then
    none
  else
    some (header ++ Utf8.encode context)

def nonce (sequence : Nat) : Bytes :=
  List.replicate 4 0 ++ write 8 sequence

structure Channel where
  send : Key
  receive : Key
  id : ChannelId
  next : Nat
  highest : Nat
  seen : Vector Nat window

/-- The slot of a sequence number. -/
def slotOf (sequence : Nat) : Fin window :=
  ⟨sequence % window, Nat.mod_lt _ (by decide)⟩

theorem slotOf_lt (sequence : Nat) : (slotOf sequence).val < window :=
  (slotOf sequence).isLt

/-- The sequence number in a record's header. -/
def wireSequence (wire : Bytes) : Nat :=
  read ((wire.drop 20).take 8)

namespace Channel

def new (send receive : Key) (id : ChannelId) : Channel :=
  ⟨send, receive, id, 0, 0, Vector.replicate window 0⟩

/-- The header of the record with this sequence number. -/
def header (id : ChannelId) (sequence : Nat) : Bytes :=
  magic ++ id.toList ++ write 8 sequence

/-- `seal`; the number is used up before the context is looked at. -/
def sealRecord
    (cipher : Cipher)
    (c : Channel)
    (context : Text)
    (plaintext : Bytes) :
    Option Bytes × Channel :=
  if maxPlaintext < plaintext.length ∨ maxSequence ≤ c.next then
    (none, c)
  else
    let sequence := c.next
    let record := do
      let aad ← associatedData (header c.id sequence) context
      let body ← cipher.encrypt c.send.toList (nonce sequence) aad plaintext
      return header c.id sequence ++ body
    (record, { c with next := c.next + 1 })

/-- The channel after it accepted a record. -/
def accept (c : Channel) (sequence : Nat) : Channel :=
  { c with
    highest := max c.highest sequence
    seen := c.seen.set (slotOf sequence).val ((sequence + 1) % 2 ^ 32)
      (slotOf_lt sequence) }

/-- `open`; an unauthenticated record must not move the window. -/
def openRecord
    (cipher : Cipher)
    (c : Channel)
    (context : Text)
    (wire : Bytes) :
    Option Bytes × Channel :=
  if wire.length < headerLen + tagLen ∨
      maxPlaintext + headerLen + tagLen < wire.length ∨
      wire.take 4 ≠ magic ∨ (wire.drop 4).take 16 ≠ c.id.toList then
    (none, c)
  else
    let sequence := wireSequence wire
    if maxSequence ≤ sequence ∨
        c.seen.get (slotOf sequence) = sequence + 1 ∨
        (window ≤ c.highest ∧ sequence ≤ c.highest - window) then
      (none, c)
    else
      match associatedData (wire.take headerLen) context with
      | none => (none, c)
      | some aad =>
          match cipher.decrypt c.receive.toList (nonce sequence) aad
              (wire.drop headerLen) with
          | none => (none, c)
          | some plaintext =>
              (some plaintext, c.accept sequence)

/-! ## Opening -/

/-- The ring as a function. -/
def slots (c : Channel) (i : Nat) : Nat :=
  c.seen[i]?.getD 0

/-- A record of this channel, by its length and the start of its header. -/
structure Framed (id : ChannelId) (wire : Bytes) : Prop where
  short : headerLen + tagLen ≤ wire.length
  long : wire.length ≤ maxPlaintext + headerLen + tagLen
  magic : wire.take 4 = magic
  id : (wire.drop 4).take 16 = id.toList

/-- The cipher authenticates this record under this context. -/
def Decrypts
    (cipher : Cipher)
    (key : Key)
    (context : Text)
    (wire plaintext : Bytes) : Prop :=
  ∃ aad, associatedData (wire.take headerLen) context = some aad ∧
    cipher.decrypt key.toList (nonce (wireSequence wire)) aad
      (wire.drop headerLen) = some plaintext

theorem seen_get (c : Channel) (sequence : Nat) :
    c.seen.get (slotOf sequence) = c.slots (sequence % window) := by
  have hlt : sequence % window < window := Nat.mod_lt _ (by decide)
  simp [slots, slotOf, Vector.get, hlt]

theorem slots_accept_self
    (c : Channel)
    {sequence : Nat}
    (h : sequence < maxSequence) :
    (c.accept sequence).slots (sequence % window) = sequence + 1 := by
  have hlt : sequence % window < window := Nat.mod_lt _ (by decide)
  have hfits : (sequence + 1) % 2 ^ 32 = sequence + 1 := by
    unfold maxSequence at h
    omega
  rw [← hfits]
  simp [slots, accept, slotOf, hlt]

theorem slots_accept_other
    (c : Channel)
    (sequence : Nat)
    {i : Nat}
    (h : i ≠ sequence % window) :
    (c.accept sequence).slots i = c.slots i := by
  simp [slots, accept, slotOf, Ne.symm h]

section Open

variable (cipher : Cipher)
variable (c : Channel)
variable (context : Text)
variable (wire : Bytes)

/-- `open` refuses and changes nothing, or accepts and marks the number. -/
theorem openRecord_cases :
    c.openRecord cipher context wire = (none, c) ∨
    ∃ plaintext,
      c.openRecord cipher context wire =
        (some plaintext, c.accept (wireSequence wire)) ∧
      Framed c.id wire ∧
      wireSequence wire < maxSequence ∧
      ReplayWindow.Fresh c.highest c.slots window (wireSequence wire) ∧
      Decrypts cipher c.receive context wire plaintext := by
  unfold openRecord
  split
  · exact Or.inl rfl
  · rename_i hframed
    dsimp only
    split
    · exact Or.inl rfl
    · rename_i hfresh
      simp only [not_or, Nat.not_lt, Nat.not_le, not_not] at hframed hfresh
      obtain ⟨hshort, hlong, hmagic, hid⟩ := hframed
      obtain ⟨hlimit, hslot, hbehind⟩ := hfresh
      rw [seen_get] at hslot
      split
      · exact Or.inl rfl
      · rename_i aad haad
        split
        · exact Or.inl rfl
        · rename_i plaintext hdecrypt
          exact Or.inr ⟨plaintext, rfl, ⟨hshort, hlong, hmagic, hid⟩, hlimit,
            ⟨hslot, hbehind⟩, aad, haad, hdecrypt⟩

theorem openRecord_eq_some_iff (plaintext : Bytes) :
    (c.openRecord cipher context wire).1 = some plaintext ↔
      Framed c.id wire ∧
      wireSequence wire < maxSequence ∧
      ReplayWindow.Fresh c.highest c.slots window (wireSequence wire) ∧
      Decrypts cipher c.receive context wire plaintext := by
  constructor
  · intro h
    rcases c.openRecord_cases cipher context wire with heq | ⟨p, heq, hall⟩
    · rw [heq] at h
      simp at h
    · rw [heq] at h
      obtain rfl := Option.some.inj h
      exact hall
  · rintro ⟨hframed, hlimit, ⟨hslot, hbehind⟩, aad, haad, hdecrypt⟩
    obtain ⟨hshort, hlong, hmagic, hid⟩ := hframed
    unfold openRecord
    rw [if_neg]
    · dsimp only
      rw [if_neg]
      · simp only [haad, hdecrypt]
      · rw [seen_get]
        simp only [not_or, Nat.not_le]
        exact ⟨hlimit, hslot, hbehind⟩
    · simp only [not_or, Nat.not_lt, not_not]
      exact ⟨hshort, hlong, hmagic, hid⟩

/-- A rejected record changes nothing. -/
theorem openRecord_rejected
    (h : (c.openRecord cipher context wire).1 = none) :
    (c.openRecord cipher context wire).2 = c := by
  rcases c.openRecord_cases cipher context wire with heq | ⟨p, heq, _⟩
  · rw [heq]
  · rw [heq] at h
    simp at h

end Open

/-- Ring and mark represent the sequence numbers accepted so far. -/
def Received (c : Channel) (accepted : List Nat) : Prop :=
  ReplayWindow.Represents window accepted c.highest c.slots

theorem received_new (send receive : Key) (id : ChannelId) :
    (new send receive id).Received [] := by
  have hslots : (new send receive id).slots = fun _ => 0 := by
    funext i
    simp only [slots, new, Vector.getElem?_replicate]
    split <;> rfl
  unfold Received
  rw [hslots]
  exact ReplayWindow.represents_nil

theorem Received.accept
    {c : Channel}
    {accepted : List Nat}
    (h : c.Received accepted)
    {sequence : Nat}
    (hlimit : sequence < maxSequence)
    (hfresh : ReplayWindow.Fresh c.highest c.slots window sequence) :
    (c.accept sequence).Received (sequence :: accepted) :=
  h.take hfresh (c.slots_accept_self hlimit)
    fun _ hother => c.slots_accept_other sequence hother

/-! ## Sealing -/

/-- The sequence numbers a call of `seal` uses up. -/
def used (c : Channel) (plaintext : Bytes) : List Nat :=
  if maxPlaintext < plaintext.length ∨ maxSequence ≤ c.next then
    []
  else
    [c.next]

/-- The nonces a call of `seal` passes to the cipher. -/
def nonces (c : Channel) (context : Text) (plaintext : Bytes) : List Bytes :=
  if maxPlaintext < plaintext.length ∨ maxSequence ≤ c.next then
    []
  else
    match associatedData (header c.id c.next) context with
    | none => []
    | some _ => [nonce c.next]

/-- The sequence numbers used so far are the first ones, in order. -/
structure Sent (c : Channel) (numbers : List Nat) : Prop where
  numbers : numbers = List.range c.next
  limit : c.next ≤ maxSequence

section Seal

variable (cipher : Cipher)
variable (c : Channel)
variable (context : Text)
variable (plaintext : Bytes)

theorem sealRecord_next :
    (c.sealRecord cipher context plaintext).2 =
      { c with next := c.next + (c.used plaintext).length } := by
  unfold sealRecord used
  split <;> rfl

theorem nonces_sublist :
    (c.nonces context plaintext).Sublist ((c.used plaintext).map nonce) := by
  unfold nonces used
  split
  · exact .slnil
  · split
    · exact List.nil_sublist _
    · exact List.Sublist.refl _

theorem Sent.seal
    {c : Channel}
    {numbers : List Nat}
    (h : c.Sent numbers) :
    (c.sealRecord cipher context plaintext).2.Sent
      (numbers ++ c.used plaintext) := by
  rw [sealRecord_next]
  unfold used
  split
  · rw [List.append_nil]
    exact h
  · rename_i hroom
    refine ⟨?_, ?_⟩
    · rw [h.numbers, List.length_singleton, List.range_succ]
    · simp only [List.length_singleton]
      omega

/-- A channel that has used its last number seals nothing any more. -/
theorem sealRecord_exhausted
    (h : maxSequence ≤ c.next) :
    c.sealRecord cipher context plaintext = (none, c) := by
  unfold sealRecord
  rw [if_pos (Or.inr h)]

theorem header_length (id : ChannelId) (sequence : Nat) :
    (header id sequence).length = headerLen := by
  simp [header, magic, headerLen]

/-- A sealed record is its header and a body the cipher has made. -/
theorem sealRecord_eq_some
    {wire : Bytes}
    (h : (c.sealRecord cipher context plaintext).1 = some wire) :
    ∃ aad body,
      associatedData (header c.id c.next) context = some aad ∧
      cipher.encrypt c.send.toList (nonce c.next) aad plaintext = some body ∧
      wire = header c.id c.next ++ body ∧
      plaintext.length ≤ maxPlaintext ∧
      c.next < maxSequence := by
  unfold sealRecord at h
  split at h
  · simp at h
  · rename_i hroom
    rw [not_or, Nat.not_lt, Nat.not_le] at hroom
    obtain ⟨aad, haad, hbody⟩ := Option.bind_eq_some_iff.1 h
    obtain ⟨body, hencrypt, hwire⟩ := Option.bind_eq_some_iff.1 hbody
    exact ⟨aad, body, haad, hencrypt, (Option.some.inj hwire).symm, hroom⟩

end Seal

/-- The parts of a record's header, read back. -/
theorem header_parts
    (id : ChannelId)
    {sequence : Nat}
    (hlimit : sequence < maxSequence)
    (body : Bytes) :
    (header id sequence ++ body).take 4 = magic ∧
    ((header id sequence ++ body).drop 4).take 16 = id.toList ∧
    (header id sequence ++ body).take headerLen = header id sequence ∧
    (header id sequence ++ body).drop headerLen = body ∧
    wireSequence (header id sequence ++ body) = sequence := by
  have hmagic : magic.length = 4 := rfl
  have hid : id.toList.length = 16 := by simp
  have hlength := header_length id sequence
  have hshape : header id sequence ++ body =
      magic ++ (id.toList ++ (write 8 sequence ++ body)) := by
    simp [header]
  refine ⟨?_, ?_, ?_, ?_, ?_⟩
  · rw [hshape, List.take_left' hmagic]
  · rw [hshape, List.drop_left' hmagic, List.take_left' hid]
  · exact List.take_left' hlength
  · exact List.drop_left' hlength
  · have hpre : (magic ++ id.toList).length = 20 := by simp [hmagic]
    have hdrop : (header id sequence ++ body).drop 20 =
        write 8 sequence ++ body := by
      rw [hshape, ← List.append_assoc, List.drop_left' hpre]
    rw [wireSequence, hdrop, List.take_left' (write_length 8 sequence)]
    refine read_write_of_lt ?_
    unfold maxSequence at hlimit
    omega

/-- What is sealed under a channel id is a record of that id. -/
theorem framed_of_sealed
    {cipher : Cipher}
    (htag : cipher.AppendsTag)
    {c : Channel}
    {context : Text}
    {plaintext wire : Bytes}
    (h : (c.sealRecord cipher context plaintext).1 = some wire) :
    Framed c.id wire ∧ wireSequence wire = c.next ∧ c.next < maxSequence := by
  obtain ⟨aad, body, _, hencrypt, rfl, hfits, hlimit⟩ :=
    c.sealRecord_eq_some cipher context plaintext h
  obtain ⟨hmagic, hid, _, _, hsequence⟩ := header_parts c.id hlimit body
  have hbody := htag _ _ _ _ _ hencrypt
  have hlength := header_length c.id c.next
  refine ⟨⟨?_, ?_, hmagic, hid⟩, hsequence, hlimit⟩
  · rw [List.length_append, hlength, hbody]
    omega
  · rw [List.length_append, hlength, hbody]
    omega

/-- Different numbers have different nonces. -/
theorem nonce_injective
    {n m : Nat}
    (hn : n < maxSequence)
    (hm : m < maxSequence)
    (h : nonce n = nonce m) :
    n = m := by
  unfold maxSequence at hn hm
  exact write_injective (by omega) (by omega) (List.append_cancel_left h)

end Channel

end Remote
end FutureOs
