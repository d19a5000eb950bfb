import FutureOs.Lib.Machine
import FutureOs.Remote.Handshake

/-!
# An invitation binds at most one device

A pairing is durable when `save_binding` has succeeded, and the endpoint itself
is pinned when the confirmation is sealed.  Between the two the finish can still
fail: a presence above the ceiling is refused after the save.  Then the endpoint
goes on with the credentials it had, and the next holder of the invitation saves
another key over the first (`handshake_lost`).

Along every run in which no saved binding meets such a presence (`Fits`), one
device at most is bound, what comes after it is refused, and candidates belong
to the pinned device (`run_bound`).
-/

namespace FutureOs
namespace Remote

/--
Noise authenticates the remote static key: the keys of a finished handshake are
shared with its holder, and sending does not change whose handshake it is.
-/
structure Snow.Authenticates
    {σ : Type}
    (snow : Snow σ)
    (owner : Key × Key → ChannelId → Key) : Prop where
  finished : ∀ state peer,
    snow.isHandshakeFinished state = true →
    snow.getRemoteStatic state = some peer →
    owner (snow.rawSplit state)
      (Handshake.channelId (snow.getHandshakeHash state)) = peer
  written : ∀ state payload message state' peer,
    snow.writeMessage state payload = some (message, state') →
    snow.getRemoteStatic state = some peer →
    snow.getRemoteStatic state' = some peer

/-- The cipher seals every body a record has room for. -/
def Cipher.Seals (cipher : Cipher) : Prop :=
  ∀ key nonce aad plaintext, plaintext.length ≤ maxPlaintext →
    (cipher.encrypt key nonce aad plaintext).isSome = true

/-- The device a channel of the endpoint is shared with. -/
def holder (owner : Key × Key → ChannelId → Key) (c : Channel) : Key :=
  owner (c.receive, c.send) c.id

theorem key_encode64 (k : Key) : key (encode64 k.toList) = some k := by
  have hsize : (encode64 k.toList).utf8ByteSize = 43 := by
    rw [← Utf8.size_toList, encode64, String.toList_ofList, Base64.size_encode]
    simp
  have hdecode : decode (encode64 k.toList) = some k.toList := by
    rw [decode, if_neg (by omega), encode64, String.toList_ofList,
      Base64.decode_encode]
  rw [key, hdecode, Option.bind_some, toKey, dif_pos (by simp)]
  simp [Vector.toList]

/-! ## Sealing the confirmation -/

section Confirmation

variable {cipher : Cipher}
variable {pairId bridge : String}
variable {channel : Channel}
variable {presence : Json}

/-- The confirmation goes out on the same channel. -/
theorem confirmation_channel
    {text : String}
    {channel' : Channel}
    (h : confirmation cipher pairId bridge channel presence = .ok (text, channel'))
    (owner : Key × Key → ChannelId → Key) :
    holder owner channel' = holder owner channel := by
  obtain ⟨payload, _, hseal⟩ := bind_eq_ok.1 h
  have hnext := channel.sealRecord_next cipher confirmationContext payload
  split at hseal
  · rename_i record sealed hrecord
    rw [hrecord] at hnext
    obtain rfl : sealed = channel' := by
      simpa [pure, Except.pure] using (Prod.mk.inj (Except.ok.inj hseal)).2
    dsimp only at hnext
    rw [hnext]
    rfl
  · simp at hseal

/-- A presence under the ceiling is confirmed on a new channel. -/
theorem confirmation_ok
    (hseals : cipher.Seals)
    (hnew : channel.next = 0)
    (hfits : (confirmationPayload pairId bridge presence).length ≤ maxPlaintext) :
    ∃ sealed, confirmation cipher pairId bridge channel presence = .ok sealed := by
  obtain ⟨aad, haad⟩ : ∃ aad,
      associatedData (Channel.header channel.id 0) confirmationContext = some aad :=
    ⟨_, if_neg (by decide)⟩
  obtain ⟨body, hbody⟩ := Option.isSome_iff_exists.1
    (hseals channel.send.toList (nonce 0) aad _ hfits)
  have hrecord : (channel.sealRecord cipher confirmationContext
      (confirmationPayload pairId bridge presence)).1 =
      some (Channel.header channel.id 0 ++ body) := by
    unfold Channel.sealRecord
    rw [if_neg]
    · simp only [hnew, haad, hbody, Option.bind_eq_bind, Option.bind_some]
      rfl
    · rw [hnew]
      simp only [not_or, Nat.not_lt]
      exact ⟨hfits, by decide⟩
  rw [confirmation, withinClientCeiling, if_pos hfits, except_ok_bind]
  split
  · exact ⟨_, rfl⟩
  · rename_i hnone
    rw [hnone] at hrecord
    simp at hrecord

/-- A presence above the ceiling is refused. -/
theorem confirmation_too_large
    (cipher : Cipher)
    (channel : Channel)
    (hlarge : maxPlaintext < (confirmationPayload pairId bridge presence).length) :
    ∃ e, confirmation cipher pairId bridge channel presence = .error e := by
  rw [confirmation, withinClientCeiling, if_neg (by omega), except_error_bind]
  exact ⟨_, rfl⟩

end Confirmation

/-- A finished handshake opens a new channel with the device it has proved. -/
theorem finish_channel
    {σ : Type}
    {snow : Snow σ}
    {owner : Key × Key → ChannelId → Key}
    (hauth : snow.Authenticates owner)
    {noise : Handshake σ}
    (hresponder : noise.initiator = false)
    {peer : Key}
    (hpeer : noise.remotePublicKey snow = some peer)
    {c : Channel}
    (h : noise.finish snow = some c) :
    c.next = 0 ∧ holder owner c = peer := by
  unfold Handshake.finish at h
  split at h
  · rename_i hfinished
    rw [hresponder] at h
    obtain rfl := Option.some.inj h
    exact ⟨rfl, hauth.finished _ _ hfinished hpeer⟩
  · simp at h

theorem initiator_new
    {σ : Type}
    {snow : Snow σ}
    {pattern : Pattern}
    {localPrivate pre coins : Bytes}
    {remote secret : Option Bytes}
    {noise : Handshake σ}
    (h : Handshake.new snow pattern false localPrivate remote secret pre coins =
      some noise) :
    noise.initiator = false := by
  obtain ⟨state, _, rfl⟩ := Option.map_eq_some_iff.1 h
  rfl

theorem initiator_read
    {σ : Type}
    {snow : Snow σ}
    {noise noise' : Handshake σ}
    {message payload : Bytes}
    (h : noise.read snow message = some (payload, noise')) :
    noise'.initiator = noise.initiator := by
  unfold Handshake.read at h
  split at h
  · simp at h
  · obtain ⟨out, _, hout⟩ := Option.map_eq_some_iff.1 h
    obtain ⟨_, rfl⟩ := Prod.mk.inj hout
    rfl

theorem initiator_write
    {σ : Type}
    {snow : Snow σ}
    {noise noise' : Handshake σ}
    {payload message : Bytes}
    (h : noise.write snow payload = some (message, noise')) :
    noise'.initiator = noise.initiator := by
  unfold Handshake.write at h
  split at h
  · simp at h
  · obtain ⟨out, _, hout⟩ := Option.map_eq_some_iff.1 h
    obtain ⟨_, rfl⟩ := Prod.mk.inj hout
    rfl

theorem remotePublicKey_write
    {σ : Type}
    {snow : Snow σ}
    {owner : Key × Key → ChannelId → Key}
    (hauth : snow.Authenticates owner)
    {noise noise' : Handshake σ}
    {payload message : Bytes}
    (h : noise.write snow payload = some (message, noise'))
    {peer : Key}
    (hpeer : noise.remotePublicKey snow = some peer) :
    noise'.remotePublicKey snow = some peer := by
  unfold Handshake.write at h
  split at h
  · simp at h
  · obtain ⟨⟨out, state⟩, hwrite, hout⟩ := Option.map_eq_some_iff.1 h
    obtain ⟨_, rfl⟩ := Prod.mk.inj hout
    exact hauth.written _ _ _ _ _ hwrite hpeer

/-! ## What a message can do -/

section Steps

variable {σ : Type}
variable (outside : Outside σ)

/-- One message, as a step of the endpoint. -/
def Endpoint.step (endpoint : Endpoint σ) (call : HandshakeCall) : Endpoint σ :=
  (endpoint.handshake outside call).1

/-- The binding a message makes durable, as `secure_finish` has it at its save. -/
def Server.saving
    (server : Server σ)
    (request : HandshakeRequest)
    (call : HandshakeCall) :
    Option (PairingCreds × Channel) :=
  if request.kind = "secure_finish" ∧ call.saves = true then
    match Endpoint.opening server.creds request,
        Fields.lookup request.id server.pending with
    | .ok (identity, _, input), some pending =>
        (Server.bind outside server.creds identity pending input
          call.unixTimestamp).toOption
    | _, _ => none
  else
    none

def Endpoint.saving (endpoint : Endpoint σ) (call : HandshakeCall) :
    Option (PairingCreds × Channel) :=
  if 16384 < call.payload.length then
    none
  else
    match outside.parse call.payload, endpoint.server with
    | some request, some server => (server.retain call.now).saving outside request call
    | _, _ => none

/-- A binding that is saved meets a presence its confirmation has room for. -/
def Fits (endpoint : Endpoint σ) (call : HandshakeCall) : Prop :=
  ∀ creds channel, endpoint.saving outside call = some (creds, channel) →
    (confirmationPayload creds.pairId call.bridge call.presence).length ≤
      maxPlaintext

/-- What a message makes of an endpoint, where a saved binding is confirmed. -/
inductive Moves
    (owner : Key × Key → ChannelId → Key)
    (server : Server σ)
    (saved : List PairingCreds) :
    Endpoint σ → Prop
  | keeps (pending : List (String × Pending σ)) :
      (∀ p ∈ pending, p ∈ server.pending ∨ p.2.noise.initiator = false) →
      Moves owner server saved ⟨some { server with pending := pending }, saved⟩
  | joins (c : Candidate) {peer : String} :
      server.creds.peer = some peer →
      key peer = some (holder owner c.channel) →
      Moves owner server saved
        ⟨some { server with candidates := server.candidates ++ [c] }, saved⟩
  | pins {creds : PairingCreds} (c : Candidate) :
      server.creds.peer = none →
      creds.peer = some (encode64 (holder owner c.channel).toList) →
      Moves owner server saved
        ⟨some ⟨server.candidates ++ [c], creds, []⟩, saved ++ [creds]⟩

variable {outside}
variable {owner : Key × Key → ChannelId → Key}
variable {server : Server σ}
variable {saved : List PairingCreds}

theorem Moves.unchanged : Moves owner server saved ⟨some server, saved⟩ :=
  Moves.keeps server.pending fun _ h => Or.inl h

theorem opening_secure
    {creds : PairingCreds}
    {request : HandshakeRequest}
    {identity : PairingIdentity}
    {pre input : Bytes}
    (h : Endpoint.opening creds request = .ok (identity, pre, input)) :
    creds.secure = some identity := by
  obtain ⟨found, hfound, hrest⟩ := bind_eq_ok.1 h
  obtain ⟨_, _, hrest⟩ := bind_eq_ok.1 hrest
  obtain ⟨_, _, hrest⟩ := bind_eq_ok.1 hrest
  obtain rfl := (Prod.mk.inj (Except.ok.inj hrest)).1
  exact context_eq_ok.1 hfound

theorem openPairing_free
    {identity : PairingIdentity}
    {pre input : Bytes}
    {call : HandshakeCall}
    {done : Server σ × Json}
    (h : server.openPairing outside identity pre input call = .ok done) :
    identity.peerPublicKey = none := by
  obtain ⟨psk, hpsk, _⟩ := bind_eq_ok.1 h
  obtain ⟨_, hfree, _⟩ := bind_eq_ok.1 hpsk
  exact ensure_eq_ok.1 hfree

theorem openPairing_moves
    {identity : PairingIdentity}
    {pre input : Bytes}
    {call : HandshakeCall}
    {server' : Server σ}
    {reply : Json}
    (h : server.openPairing outside identity pre input call = .ok (server', reply)) :
    Moves owner server saved ⟨some server', saved⟩ := by
  obtain ⟨psk, _, h⟩ := bind_eq_ok.1 h
  obtain ⟨localPrivate, _, h⟩ := bind_eq_ok.1 h
  obtain ⟨noise, hnoise, h⟩ := bind_eq_ok.1 h
  obtain ⟨⟨payload, noise₁⟩, hread, h⟩ := bind_eq_ok.1 h
  obtain ⟨_, _, h⟩ := bind_eq_ok.1 h
  obtain ⟨⟨response, noise₂⟩, hwrite, h⟩ := bind_eq_ok.1 h
  obtain ⟨rfl, _⟩ := Prod.mk.inj (Except.ok.inj h)
  refine Moves.keeps _ fun p hp => ?_
  rcases Fields.mem_insert hp with rfl | hold
  · refine Or.inr ?_
    rw [initiator_write (context_eq_ok.1 hwrite),
      initiator_read (context_eq_ok.1 hread)]
    exact initiator_new (context_eq_ok.1 hnoise)
  · exact Or.inl hold

theorem mapError_eq_ok
    {x : Except String (String × Channel)}
    {f : String → String}
    {sealed : String × Channel}
    (h : x.mapError f = .ok sealed) :
    x = .ok sealed := by
  cases x with
  | error e =>
      simp [Except.mapError] at h
  | ok a =>
      exact h

theorem openReconnect_moves
    (hauth : outside.snow.Authenticates owner)
    {identity : PairingIdentity}
    (hidentity : server.creds.secure = some identity)
    {pre input : Bytes}
    {call : HandshakeCall}
    {server' : Server σ}
    {reply : Json}
    (h : server.openReconnect outside identity pre input call = .ok (server', reply)) :
    Moves owner server saved ⟨some server', saved⟩ := by
  obtain ⟨_, _, h⟩ := bind_eq_ok.1 h
  obtain ⟨localPrivate, _, h⟩ := bind_eq_ok.1 h
  obtain ⟨noise, hnoise, h⟩ := bind_eq_ok.1 h
  obtain ⟨⟨payload, noise₁⟩, hread, h⟩ := bind_eq_ok.1 h
  obtain ⟨_, _, h⟩ := bind_eq_ok.1 h
  obtain ⟨proved, hproved, h⟩ := bind_eq_ok.1 h
  obtain ⟨peer, hpeer, h⟩ := bind_eq_ok.1 h
  obtain ⟨pinned, hpinned, h⟩ := bind_eq_ok.1 h
  obtain ⟨_, hsame, h⟩ := bind_eq_ok.1 h
  obtain ⟨⟨response, noise₂⟩, hwrite, h⟩ := bind_eq_ok.1 h
  obtain ⟨channel, hfinish, h⟩ := bind_eq_ok.1 h
  obtain ⟨⟨text, sealed⟩, hconfirm, h⟩ := bind_eq_ok.1 h
  obtain ⟨rfl, _⟩ := Prod.mk.inj (Except.ok.inj h)
  have hside : noise₂.initiator = false := by
    rw [initiator_write (context_eq_ok.1 hwrite),
      initiator_read (context_eq_ok.1 hread)]
    exact initiator_new (context_eq_ok.1 hnoise)
  have hremote := remotePublicKey_write hauth (context_eq_ok.1 hwrite)
    (context_eq_ok.1 hproved)
  obtain ⟨_, hholder⟩ := finish_channel hauth hside hremote (context_eq_ok.1 hfinish)
  have hpinnedPeer : server.creds.peer = some peer := by
    rw [PairingCreds.peer, hidentity]
    exact context_eq_ok.1 hpeer
  refine Moves.joins ⟨sealed, call.now⟩ hpinnedPeer ?_
  rw [confirmation_channel (mapError_eq_ok hconfirm) owner, hholder,
    context_eq_ok.1 hpinned, ensure_eq_ok.1 hsame]

theorem secureOpen_moves
    (hauth : outside.snow.Authenticates owner)
    {identity : PairingIdentity}
    (hidentity : server.creds.secure = some identity)
    {pre input : Bytes}
    {request : HandshakeRequest}
    {call : HandshakeCall}
    {server' : Server σ}
    {reply : Json}
    (h : server.secureOpen outside identity pre input request call =
      .ok (server', reply)) :
    Moves owner server saved ⟨some server', saved⟩ := by
  obtain ⟨_, _, h⟩ := bind_eq_ok.1 h
  split at h
  · exact openPairing_moves h
  · exact openReconnect_moves hauth hidentity h

/-- What `secure_finish` has established when it comes to save the binding. -/
theorem bind_spec
    (hauth : outside.snow.Authenticates owner)
    {identity : PairingIdentity}
    (hidentity : server.creds.secure = some identity)
    {pending : Pending σ}
    (hside : pending.noise.initiator = false)
    {input : Bytes}
    {unixTimestamp : Nat}
    {creds : PairingCreds}
    {channel : Channel}
    (h : Server.bind outside server.creds identity pending input unixTimestamp =
      .ok (creds, channel)) :
    server.creds.peer = none ∧
      creds.peer = some (encode64 (holder owner channel).toList) ∧
      channel.next = 0 := by
  obtain ⟨_, hfree, h⟩ := bind_eq_ok.1 h
  obtain ⟨_, _, h⟩ := bind_eq_ok.1 h
  obtain ⟨⟨payload, noise⟩, hread, h⟩ := bind_eq_ok.1 h
  obtain ⟨_, _, h⟩ := bind_eq_ok.1 h
  obtain ⟨proved, hproved, h⟩ := bind_eq_ok.1 h
  obtain ⟨opened, hfinish, h⟩ := bind_eq_ok.1 h
  obtain ⟨found, hfound, h⟩ := bind_eq_ok.1 h
  obtain ⟨rfl, rfl⟩ := Prod.mk.inj (Except.ok.inj h)
  have hresponder : noise.initiator = false := by
    rw [initiator_read (context_eq_ok.1 hread)]
    exact hside
  obtain ⟨hnew, hholder⟩ := finish_channel hauth hresponder
    (context_eq_ok.1 hproved) (context_eq_ok.1 hfinish)
  refine ⟨?_, ?_, hnew⟩
  · rw [PairingCreds.peer, hidentity]
    exact ensure_eq_ok.1 hfree
  · rw [hholder]
    rfl

/-- `secure_finish`, where a binding that is saved is also confirmed. -/
theorem secureFinish_moves
    (hauth : outside.snow.Authenticates owner)
    (hseals : outside.cipher.Seals)
    (hsides : ∀ p ∈ server.pending, p.2.noise.initiator = false)
    {request : HandshakeRequest}
    (hkind : request.kind = "secure_finish")
    {identity : PairingIdentity}
    {pre input : Bytes}
    (hopening : Endpoint.opening server.creds request = .ok (identity, pre, input))
    {call : HandshakeCall}
    (hfits : ∀ creds channel,
      server.saving outside request call = some (creds, channel) →
      (confirmationPayload creds.pairId call.bridge call.presence).length ≤
        maxPlaintext) :
    Moves owner server saved
      (Endpoint.secureFinish outside server saved identity input request call).1 := by
  have hidentity := opening_secure hopening
  have herased : Moves owner server saved
      ⟨some { server with pending := Fields.erase request.id server.pending }, saved⟩ :=
    Moves.keeps _ fun p hp => Or.inl (List.mem_of_mem_filter hp)
  unfold Endpoint.secureFinish
  split
  · exact Moves.unchanged
  · rename_i pending hpending
    dsimp only
    split
    · exact herased
    · rename_i creds channel hbind
      split
      · rename_i hsaves
        obtain ⟨hfree, hpeer, hnew⟩ := bind_spec hauth hidentity
          (hsides _ (Fields.mem_of_lookup hpending)) hbind
        have hroom := hfits creds channel (by
          rw [Server.saving, if_pos ⟨hkind, hsaves⟩, hopening, hpending]
          simp only [hbind, Except.toOption])
        obtain ⟨⟨text, sealed⟩, hconfirm⟩ :=
          confirmation_ok hseals hnew hroom
        rw [Server.confirm, hconfirm]
        refine Moves.pins ⟨sealed, call.now⟩ hfree ?_
        rw [confirmation_channel hconfirm owner]
        exact hpeer
      · exact herased

theorem serve_moves
    (hauth : outside.snow.Authenticates owner)
    (hseals : outside.cipher.Seals)
    (hsides : ∀ p ∈ server.pending, p.2.noise.initiator = false)
    {request : HandshakeRequest}
    {call : HandshakeCall}
    (hfits : ∀ creds channel,
      server.saving outside request call = some (creds, channel) →
      (confirmationPayload creds.pairId call.bridge call.presence).length ≤
        maxPlaintext) :
    Moves owner server saved
      (Endpoint.serve outside server saved request call).1 := by
  unfold Endpoint.serve
  split
  · exact Moves.unchanged
  · rename_i identity pre input hopening
    split
    · cases hopen : server.secureOpen outside identity pre input request call with
      | error e =>
          exact Moves.unchanged
      | ok done =>
          exact secureOpen_moves hauth (opening_secure hopening) hopen
    · split
      · rename_i hkind
        exact secureFinish_moves hauth hseals hsides hkind hopening hfits
      · exact Moves.unchanged

/-- A pinned endpoint refuses every pairing opening and every finish. -/
theorem serve_pinned
    {peer : String}
    (hpeer : server.creds.peer = some peer)
    {request : HandshakeRequest}
    (hpairing : request.kind = "secure_open" ∧ request.pairing = true ∨
      request.kind = "secure_finish")
    (call : HandshakeCall) :
    (Endpoint.serve outside server saved request call).1.saved = saved ∧
      ∃ e, (Endpoint.serve outside server saved request call).2 = .error e := by
  unfold Endpoint.serve
  split
  · exact ⟨rfl, _, rfl⟩
  · rename_i identity pre input hopening
    have hpinned : identity.peerPublicKey ≠ none := by
      rw [PairingCreds.peer, opening_secure hopening, Option.bind_some] at hpeer
      simp [hpeer]
    rcases hpairing with ⟨hkind, hyes⟩ | hkind
    · rw [if_pos hkind]
      cases hopen : server.secureOpen outside identity pre input request call with
      | error e =>
          exact ⟨rfl, e, rfl⟩
      | ok done =>
          obtain ⟨_, _, hdone⟩ := bind_eq_ok.1 hopen
          rw [if_pos hyes] at hdone
          exact absurd (openPairing_free hdone) hpinned
    · rw [if_neg (by simp [hkind]), if_pos hkind]
      unfold Endpoint.secureFinish
      split
      · exact ⟨rfl, _, rfl⟩
      · rename_i pending hpending
        have hrefused : Server.bind outside server.creds identity pending input
            call.unixTimestamp = .error (refused "invitation_already_used") := by
          rw [Server.bind, ensure_of_neg hpinned, except_error_bind]
        dsimp only
        rw [hrefused]
        exact ⟨rfl, _, rfl⟩

/-- The endpoint of a message that reaches the save. -/
theorem serve_saving
    {request : HandshakeRequest}
    {call : HandshakeCall}
    {creds : PairingCreds}
    {channel : Channel}
    (h : server.saving outside request call = some (creds, channel)) :
    Endpoint.serve outside server saved request call =
      ((⟨some (commit { server with
            pending := Fields.erase request.id server.pending }
          (Server.confirm outside { server with
            pending := Fields.erase request.id server.pending }
            creds channel call)).1, saved ++ [creds]⟩ : Endpoint σ),
        (commit { server with
            pending := Fields.erase request.id server.pending }
          (Server.confirm outside { server with
            pending := Fields.erase request.id server.pending }
            creds channel call)).2) := by
  unfold Server.saving at h
  split at h
  · rename_i hcase
    obtain ⟨hkind, hsaves⟩ := hcase
    split at h
    · rename_i identity pre input pending hopening hpending
      cases hbind : Server.bind outside server.creds identity pending input
          call.unixTimestamp with
      | error e =>
          simp [hbind, Except.toOption] at h
      | ok bound =>
          obtain rfl : bound = (creds, channel) := by
            simpa [hbind, Except.toOption] using h
          simp only [Endpoint.serve, hopening]
          rw [if_neg (by simp [hkind]), if_pos hkind]
          simp only [Endpoint.secureFinish, hpending, hbind, hsaves, if_true]
    · simp at h
  · simp at h

/-- An endpoint after a finish that fails: its opening is used up. -/
def Server.lapse (server : Server σ) (now : Nat) (id : String) : Server σ :=
  { server.retain now with pending := Fields.erase id (server.retain now).pending }

/--
A saved binding that meets a presence above the ceiling is lost to the endpoint:
the call fails, the binding is durable, and the credentials are the old ones.
-/
theorem handshake_lost
    {endpoint : Endpoint σ}
    {call : HandshakeCall}
    {request : HandshakeRequest}
    (hparse : outside.parse call.payload = some request)
    {creds : PairingCreds}
    {channel : Channel}
    (hsaving : endpoint.saving outside call = some (creds, channel))
    (hlarge : maxPlaintext <
      (confirmationPayload creds.pairId call.bridge call.presence).length) :
    endpoint.step outside call =
      ⟨endpoint.server.map fun server => server.lapse call.now request.id,
        endpoint.saved ++ [creds]⟩ ∧
      ∃ e, (endpoint.handshake outside call).2 = .error e := by
  unfold Endpoint.saving at hsaving
  split at hsaving
  · simp at hsaving
  · rename_i hshort
    cases hserver : endpoint.server with
    | none =>
        simp [hparse, hserver] at hsaving
    | some server =>
        simp only [hparse, hserver] at hsaving
        obtain ⟨e, he⟩ := confirmation_too_large outside.cipher channel hlarge
        rw [Endpoint.step, Endpoint.handshake, if_neg hshort]
        simp only [hparse, hserver]
        rw [serve_saving hsaving, Server.confirm, he]
        exact ⟨rfl, _, rfl⟩

/-- Two finishes in a row can both be saved. -/
theorem run_lost_twice
    (outside : Outside σ)
    (endpoint : Endpoint σ)
    (call call' : HandshakeCall)
    (request request' : HandshakeRequest)
    (hparse : outside.parse call.payload = some request)
    (hparse' : outside.parse call'.payload = some request')
    {peer peer' : Option String}
    (hsaving : (endpoint.saving outside call).map (·.1.peer) = some peer)
    (hsaving' : (Endpoint.saving outside
      ⟨endpoint.server.map fun server => server.lapse call.now request.id, []⟩
      call').map (·.1.peer) = some peer')
    (hlarge : ∀ pairId, maxPlaintext <
      (confirmationPayload pairId call.bridge call.presence).length)
    (hlarge' : ∀ pairId, maxPlaintext <
      (confirmationPayload pairId call'.bridge call'.presence).length) :
    (Machine.run (Endpoint.step outside) endpoint [call, call']).saved.map
        PairingCreds.peer =
      endpoint.saved.map PairingCreds.peer ++ [peer, peer'] := by
  obtain ⟨⟨creds, channel⟩, hfirst, hpeer⟩ := Option.map_eq_some_iff.1 hsaving
  obtain ⟨⟨creds', channel'⟩, hsecond, hpeer'⟩ := Option.map_eq_some_iff.1 hsaving'
  have hsecond : Endpoint.saving outside
      ⟨endpoint.server.map fun server => server.lapse call.now request.id,
        endpoint.saved ++ [creds]⟩ call' = some (creds', channel') := hsecond
  rw [Machine.run_cons, (handshake_lost hparse hfirst (hlarge _)).1, Machine.run_cons,
    (handshake_lost hparse' hsecond (hlarge' _)).1, Machine.run_nil]
  simp only [List.map_append, List.map_cons, List.map_nil, List.append_assoc,
    List.singleton_append]
  rw [← hpeer, ← hpeer']

end Steps

/-! ## The run -/

section Run

variable {σ : Type}
variable (outside : Outside σ)
variable (owner : Key × Key → ChannelId → Key)
variable (initial : PairingCreds)

/-- At most one device is bound, for good. -/
structure Bound (endpoint : Endpoint σ) : Prop where
  /-- Every saved binding is of one device. -/
  once : ∀ creds ∈ endpoint.saved, ∀ creds' ∈ endpoint.saved,
    creds.peer = creds'.peer
  /-- After a save every pairing opening and every finish is refused. -/
  spent : endpoint.saved ≠ [] → ∀ call request,
    outside.parse call.payload = some request →
    (request.kind = "secure_open" ∧ request.pairing = true ∨
      request.kind = "secure_finish") →
    (endpoint.handshake outside call).1.saved = endpoint.saved ∧
      ∃ e, (endpoint.handshake outside call).2 = .error e
  /-- A candidate is a channel with the pinned device, whose binding is durable. -/
  candidates : ∀ server, endpoint.server = some server →
    ∀ c ∈ server.candidates, ∃ peer,
      server.creds.peer = some peer ∧
      key peer = some (holder owner c.channel) ∧
      (initial.peer = some peer ∨ ∃ creds ∈ endpoint.saved, creds.peer = some peer)

/-- What the endpoint keeps: unpinned with nothing saved, or pinned as saved. -/
structure Invariant (endpoint : Endpoint σ) : Prop where
  sides : ∀ server, endpoint.server = some server →
    ∀ p ∈ server.pending, p.2.noise.initiator = false
  pinned :
    (endpoint.saved = [] ∧
      ∀ server, endpoint.server = some server → server.creds = initial) ∨
    ∃ server peer, endpoint.server = some server ∧
      endpoint.saved = [server.creds] ∧ server.creds.peer = some peer
  candidates : ∀ server, endpoint.server = some server →
    ∀ c ∈ server.candidates, ∃ peer,
      server.creds.peer = some peer ∧ key peer = some (holder owner c.channel)

variable {outside owner initial}

theorem invariant_new :
    Invariant owner initial (Endpoint.new initial : Endpoint σ) := by
  unfold Endpoint.new
  split
  · refine ⟨?_, Or.inl ⟨rfl, ?_⟩, ?_⟩
    · rintro _ ⟨⟩ p hp
      simp at hp
    · rintro _ ⟨⟩
      rfl
    · rintro _ ⟨⟩ c hc
      simp at hc
  · refine ⟨?_, Or.inl ⟨rfl, ?_⟩, ?_⟩ <;> rintro _ ⟨⟩

/-- Dropping what has lapsed keeps the invariant. -/
theorem Invariant.retain
    {server : Server σ}
    {saved : List PairingCreds}
    (h : Invariant owner initial ⟨some server, saved⟩)
    (now : Nat) :
    Invariant owner initial ⟨some (server.retain now), saved⟩ := by
  refine ⟨?_, ?_, ?_⟩
  · rintro _ ⟨⟩ p hp
    exact h.sides server rfl p (List.mem_of_mem_filter hp)
  · rcases h.pinned with ⟨hnone, hcreds⟩ | ⟨_, peer, ⟨⟩, hsaved, hpeer⟩
    · refine Or.inl ⟨hnone, ?_⟩
      rintro _ ⟨⟩
      exact hcreds server rfl
    · exact Or.inr ⟨_, peer, rfl, hsaved, hpeer⟩
  · rintro _ ⟨⟩ c hc
    exact h.candidates server rfl c (List.mem_of_mem_filter hc)

theorem Invariant.moves
    {server : Server σ}
    {saved : List PairingCreds}
    (h : Invariant owner initial ⟨some server, saved⟩)
    {endpoint : Endpoint σ}
    (hmoves : Moves owner server saved endpoint) :
    Invariant owner initial endpoint := by
  cases hmoves with
  | keeps pending hpending =>
      refine ⟨?_, ?_, ?_⟩
      · rintro _ ⟨⟩ p hp
        rcases hpending p hp with hold | hnew
        · exact h.sides server rfl p hold
        · exact hnew
      · rcases h.pinned with ⟨hnone, hcreds⟩ | ⟨_, peer, ⟨⟩, hsaved, hpeer⟩
        · refine Or.inl ⟨hnone, ?_⟩
          rintro _ ⟨⟩
          exact hcreds server rfl
        · exact Or.inr ⟨_, peer, rfl, hsaved, hpeer⟩
      · rintro _ ⟨⟩ c hc
        exact h.candidates server rfl c hc
  | joins c hpeer hkey =>
      refine ⟨?_, ?_, ?_⟩
      · rintro _ ⟨⟩ p hp
        exact h.sides server rfl p hp
      · rcases h.pinned with ⟨hnone, hcreds⟩ | ⟨_, peer, ⟨⟩, hsaved, hpinned⟩
        · refine Or.inl ⟨hnone, ?_⟩
          rintro _ ⟨⟩
          exact hcreds server rfl
        · exact Or.inr ⟨_, peer, rfl, hsaved, hpinned⟩
      · rintro _ ⟨⟩ c' hc
        rcases List.mem_append.1 hc with hold | hnew
        · exact h.candidates server rfl c' hold
        · rw [List.mem_singleton.1 hnew]
          exact ⟨_, hpeer, hkey⟩
  | pins c hfree hpeer =>
      have hnone : saved = [] := by
        rcases h.pinned with ⟨hnone, _⟩ | ⟨_, peer, ⟨⟩, _, hpinned⟩
        · exact hnone
        · rw [hfree] at hpinned
          simp at hpinned
      have hempty : server.candidates = [] := by
        refine List.eq_nil_iff_forall_not_mem.2 fun c hc => ?_
        obtain ⟨peer, hpinned, _⟩ := h.candidates server rfl c hc
        rw [hfree] at hpinned
        simp at hpinned
      refine ⟨?_, Or.inr ⟨_, _, rfl, ?_, hpeer⟩, ?_⟩
      · rintro _ ⟨⟩ p hp
        simp at hp
      · rw [hnone]
        rfl
      · rintro _ ⟨⟩ c' hc
        rw [hempty] at hc
        rw [List.mem_singleton.1 hc]
        exact ⟨_, hpeer, key_encode64 _⟩

theorem Invariant.step
    (hauth : outside.snow.Authenticates owner)
    (hseals : outside.cipher.Seals)
    {endpoint : Endpoint σ}
    (h : Invariant owner initial endpoint)
    {call : HandshakeCall}
    (hfits : Fits outside endpoint call) :
    Invariant owner initial (endpoint.step outside call) := by
  unfold Endpoint.step Endpoint.handshake
  split
  · exact h
  · rename_i hshort
    split
    · exact h
    · rename_i request hparse
      split
      · exact h
      · rename_i server hserver
        obtain ⟨_, saved⟩ := endpoint
        obtain rfl : _ = some server := hserver
        have hlive := h.retain call.now
        refine hlive.moves (serve_moves hauth hseals (hlive.sides _ rfl) ?_)
        intro creds channel hsaving
        refine hfits creds channel ?_
        rw [Endpoint.saving, if_neg hshort, hparse]
        exact hsaving

theorem Invariant.bound
    {endpoint : Endpoint σ}
    (h : Invariant owner initial endpoint) :
    Bound outside owner initial endpoint := by
  refine ⟨?_, ?_, ?_⟩
  · intro creds hcreds creds' hcreds'
    rcases h.pinned with ⟨hnone, _⟩ | ⟨server, _, _, hsaved, _⟩
    · rw [hnone] at hcreds
      simp at hcreds
    · rw [hsaved, List.mem_singleton] at hcreds hcreds'
      rw [hcreds, hcreds']
  · intro hsome call request hparse hpairing
    rcases h.pinned with ⟨hnone, _⟩ | ⟨server, peer, hserver, _, hpeer⟩
    · exact absurd hnone hsome
    · unfold Endpoint.handshake
      split
      · exact ⟨rfl, _, rfl⟩
      · rw [hparse, hserver]
        have hlive : (server.retain call.now).creds.peer = some peer := hpeer
        exact serve_pinned hlive hpairing call
  · intro server hserver c hc
    obtain ⟨peer, hpeer, hkey⟩ := h.candidates server hserver c hc
    refine ⟨peer, hpeer, hkey, ?_⟩
    rcases h.pinned with ⟨_, hcreds⟩ | ⟨server', _, hserver', hsaved, _⟩
    · exact Or.inl (hcreds server hserver ▸ hpeer)
    · obtain rfl := Option.some.inj (hserver.symm.trans hserver')
      exact Or.inr ⟨server.creds, by simp [hsaved], hpeer⟩

variable (outside owner initial)

/--
Along every sequence of handshake messages in which no saved binding meets a
presence above the ceiling, an invitation binds at most one device.
-/
theorem run_bound
    (hauth : outside.snow.Authenticates owner)
    (hseals : outside.cipher.Seals)
    (calls : List HandshakeCall)
    (hfits : Machine.Guarded (Endpoint.step outside) (Fits outside)
      (Endpoint.new initial) calls) :
    Bound outside owner initial
      (Machine.run (Endpoint.step outside) (Endpoint.new initial) calls) := by
  have hstep : ∀ endpoint call, Invariant owner initial endpoint →
      Fits outside endpoint call →
      Invariant owner initial (endpoint.step outside call) :=
    fun _ _ h hcall => h.step hauth hseals hcall
  exact (hfits.invariant hstep invariant_new).bound

end Run

/-! ## Two phones with one invitation -/

section TwoPhones

/-- The bytes of a base64 text. -/
def bytesOf (text : String) : Bytes :=
  (Base64.decode text.toList).getD []

def keyOf (text : String) : Key :=
  (key text).getD (Vector.replicate 32 0)

/-- A Noise handshake as it goes over the wire, and what it ends in. -/
structure Transcript where
  coins : Bytes
  opening : String
  response : String
  finish : String
  hash : String
  first : String
  second : String
  peer : String

/-- Two handshakes with one desktop and one invitation, by two phones. -/
def transcript : Bool → Transcript
  | false =>
      { coins := List.replicate 32 4
        opening :=
          "Xf7dO2vUf2-ijuFdlp1bsOpTd01Ii9r53xxuASSz7yJApv_LW5grrUxZgHmehsGB"
        response :=
          "rAGyIJ6GNU-4UyN7XeD0-rE8f8v0M6YcAZNpYX_s8QvfeLFY10uFCaRZ-Sva0zet" ++
          "yT1VRPGFTtjwHwzuLCOuiiFmI83kjdYrGNIblP1TRBW9p1HVEURhTrNiE7beYUAs"
        finish :=
          "2JaOa3_mVSvNC9GywgiFcpRdoIZgsnQN5-45Y4r03plcLMctzc2TeSriqwYYnk0f" ++
          "ATw7IGCwYQBEBSnHsbeWkA"
        hash :=
          "tI_rYw03_Z9U9bAJ7lR6f1fnrZTH8QbEJPYDvh6a4b9Il16gtkbF_P_yy71WVSvD" ++
          "CIOmLR-jb6IYMvIUEqaLjw"
        first := "3cbcbLzmCXIVQKLjSw7Xag-yGB2euAghRK7_tigLMPg"
        second := "Cr-Qra_XSDAM51T6HH2ZgaGQzrjYyHTskpbLxgxgUgM"
        peer := "pOCSkrZRwni5dyxWn1-puxPZBrRqtoyd-dwrRAn4ogk" }
  | true =>
      { coins := List.replicate 32 8
        opening :=
          "9bLW5g-Ud-MQwpgtqqbJE2wQihd3xZR-RI-jfWgXRVca83vPzFTgOri6AAQYUEw1"
        response :=
          "MdSras7slhE3kXA3k25gcW-sVzr-lNnahKgCBEjfwRJnU4CBhfCwwOyhOrSkOJsW" ++
          "UC7MDOfzGzi7ypjZchH5RU-Nn2qzCqU9i22scJ0SLHfH3PnmMgB1iIdUiqefAwTL"
        finish :=
          "3V6PmBq043DeqxcNaJ9Mrwrzx6Xk3rQDNuk0Fiejt0olWdfO6cnuzllL-Rh3uH5a" ++
          "WQdIWIItjI5SMb-D2tb7-Q"
        hash :=
          "3PB98ZSRoMeitn04VUFDMSPE706eEvsF7AF01i38a5rnFUVXMIvtk0_gd09Ayomi" ++
          "OpdjzfCMbDfKldHYqOZ6PQ"
        first := "-MaQiw9RSbB_C14FQ5383Y_k44jMG9cYWgzyvv700II"
        second := "U_gFQFoNixp7GH2DYxWVTSs--PKrWsjxs3s7CYgYi-w"
        peer := "UKYUCbHd0DJemxa3AOcZ6XcsBwALG9d4bpB8ZT0gSV0" }

def invitationIdentity : PairingIdentity where
  privateKey := "AgICAgICAgICAgICAgICAgICAgICAgICAgICAgICAgI"
  peerPublicKey := none
  secret := some "BwcHBwcHBwcHBwcHBwcHBwcHBwcHBwcHBwcHBwcHBwc"
  expiresAt := 1000

def invitationCreds : PairingCreds where
  handshakeVersion := 2
  secure := some invitationIdentity
  pairId := "pair_1"
  desktopId := "desktop_1"

/-- The keys a transcript ends in, the initiator's first. -/
def splitOf (phone : Bool) : Key × Key :=
  (keyOf (transcript phone).first, keyOf (transcript phone).second)

def hashOf (phone : Bool) : Vector UInt8 64 :=
  Vector.ofFn fun i => (bytesOf (transcript phone).hash)[i.val]?.getD 0

/-- The Noise library on these transcripts: whose handshake, and how far it is. -/
def transcriptSnow : Snow (Bool × Nat) where
  build protocol initiator localPrivate remote psk pre coins :=
    if protocol = Pattern.pair.name ∧ initiator = false ∧
        localPrivate = List.replicate 32 2 ∧ remote = none ∧
        psk = some (List.replicate 32 7) ∧
        some pre = prologue "pair_1" "desktop_1" then
      if coins = (transcript false).coins then
        some (false, 0)
      else if coins = (transcript true).coins then
        some (true, 0)
      else
        none
    else
      none
  readMessage state message :=
    if state.2 = 0 ∧ message = bytesOf (transcript state.1).opening then
      some ([], (state.1, 1))
    else if state.2 = 2 ∧ message = bytesOf (transcript state.1).finish then
      some ([], (state.1, 3))
    else
      none
  writeMessage state payload :=
    if state.2 = 1 ∧ payload = [] then
      some (bytesOf (transcript state.1).response, (state.1, 2))
    else
      none
  getRemoteStatic state :=
    if state.2 = 3 then some (keyOf (transcript state.1).peer) else none
  isHandshakeFinished state := state.2 = 3
  getHandshakeHash state := hashOf state.1
  rawSplit state := splitOf state.1

/-- The confirmation of the first phone, sealed; other bodies get an empty tag. -/
def transcriptCipher : Cipher where
  encrypt key nonce _ plaintext :=
    if key = (keyOf (transcript false).second).toList ∧
        nonce = List.replicate 12 0 ∧
        plaintext = confirmationPayload "pair_1" "bridge_1" (.obj []) then
      some (bytesOf
        ("6K6CzjNpJfNFMsSAv3hCvSoBl2lUZj7q4O48Uc37itTz5bu9SwBPKiLjESfMJYBG" ++
        "LJjPyQqvyTC93Qa64NfyJO9VA_-RtQtug4d8EuR6CqpQmxoT54_pj4kxrsXJajEs" ++
        "puddVnj5irKlcVom_blYnyGGHKs4yng6FIq0vNngJNRUfFRnvcFmiAWTPwpLQhlD" ++
        "obir-NzfFozG9UWCuHbyMl3LAFRvKPHV1B8QS-oG92c3NZZGj1_Hls4Go8cCQiwm" ++
        "4axgPM_i7elww9QYKKtM8wWZ4fuvhviv-wc4WO1FMAtCkrko_ENYcyMJ4Zo61R3B" ++
        "CtoH58KMcNti-BuAmnfzfqAbTlFPfSapmn1rdQ_X6sg1nwtnOe5WNYEJrkklRL5W" ++
        "ZiAj2IZF7mVC6EGHkT0X6pO1RfydmTeeSAwvI7QyIwu21VCuc05ei2vSeOj58u-I" ++
        "isidg2g7rhBd9mTI3LEkt8LJIDDQzEueRLKFVFQ4h1fSzMvdcR0gbN2rf8cPk5yC" ++
        "jepnTuMSv4HByTL8q8KVILL_zWW32S0gS_76ZIucRNaieInAj0UgJg4_gmylFobq" ++
        "gEDfESejwn4A34GPy5_VjWr1iaEgUEcGmZSE51-aMHGOglZxsHSNUW6JIpJRpdvd" ++
        "N05INttkm53d0o-528LduOVK83OpYaWs8eKOItSt9Dv89lc"))
    else
      some (plaintext ++ List.replicate 16 0)
  decrypt _ _ _ _ := none

def wireText (request : HandshakeRequest) : Bytes :=
  Utf8.encode (Json.obj [("id", .str request.id), ("message", .str request.message),
    ("pairing", .bool request.pairing), ("type", .str request.kind)]).compact

def openRequest (phone : Bool) : HandshakeRequest :=
  ⟨"secure_open", (transcript phone).opening, "", true⟩

/-- The id the endpoint draws for a phone's opening. -/
def tokenOf (phone : Bool) : Bytes :=
  List.replicate 16 (if phone then 1 else 0)

def finishRequest (phone : Bool) : HandshakeRequest :=
  ⟨"secure_finish", (transcript phone).finish, encode64 (tokenOf phone), false⟩

def twoPhones : Outside (Bool × Nat) where
  snow := transcriptSnow
  cipher := transcriptCipher
  parse payload :=
    [openRequest false, openRequest true, finishRequest false,
      finishRequest true].find? fun request => wireText request = payload

def callOf (request : HandshakeRequest) (phone : Bool) (presence : Json) :
    HandshakeCall where
  payload := wireText request
  bridge := "bridge_1"
  now := 0
  unixTimestamp := 0
  token := tokenOf phone
  coins := (transcript phone).coins
  saves := true
  presence := presence

/-- Both phones open. -/
def openCalls : List HandshakeCall :=
  [callOf (openRequest false) false .null, callOf (openRequest true) true .null]

/-- Both phones finish, and the host reports this presence. -/
def finishCalls (presence : Json) : List HandshakeCall :=
  [callOf (finishRequest false) false presence,
    callOf (finishRequest true) true presence]

def phoneRun (presence : Json) : Endpoint (Bool × Nat) :=
  Machine.run (Endpoint.step twoPhones) (Endpoint.new invitationCreds)
    (openCalls ++ finishCalls presence)

/-- The phone whose handshake ended in these keys. -/
def transcriptOwner (keys : Key × Key) (_ : ChannelId) : Key :=
  keyOf (transcript (keys.1 ≠ (splitOf false).1)).peer

theorem transcriptSnow_authenticates :
    transcriptSnow.Authenticates transcriptOwner := by
  refine ⟨?_, ?_⟩
  · intro state peer hfinished hpeer
    have hstage : state.2 = 3 := of_decide_eq_true hfinished
    have hkeys : ∀ phone, decide ((splitOf phone).1 ≠ (splitOf false).1) = phone := by
      decide +kernel
    change (if state.2 = 3 then some (keyOf (transcript state.1).peer) else none) =
      some peer at hpeer
    rw [if_pos hstage] at hpeer
    rw [← Option.some.inj hpeer]
    exact congrArg (fun phone => keyOf (transcript phone).peer) (hkeys state.1)
  · intro state payload message state' peer hwrite hpeer
    have hstage : state.2 = 3 := by
      by_contra hne
      change (if state.2 = 3 then some (keyOf (transcript state.1).peer) else none) =
        some peer at hpeer
      rw [if_neg hne] at hpeer
      simp at hpeer
    change (if state.2 = 1 ∧ payload = [] then
      some (bytesOf (transcript state.1).response, (state.1, 2)) else none) =
      some (message, state') at hwrite
    rw [if_neg (by omega)] at hwrite
    simp at hwrite

theorem transcriptCipher_seals : transcriptCipher.Seals := by
  intro key nonce aad plaintext _
  unfold transcriptCipher
  dsimp only
  split <;> rfl

instance decidableFits
    {σ : Type}
    (outside : Outside σ)
    (endpoint : Endpoint σ)
    (call : HandshakeCall) :
    Decidable (Fits outside endpoint call) :=
  match h : endpoint.saving outside call with
  | none => isTrue fun _ _ hsome => by simp [h] at hsome
  | some (creds, _) =>
      decidable_of_iff
        ((confirmationPayload creds.pairId call.bridge call.presence).length ≤
          maxPlaintext)
        (by
          unfold Fits
          rw [h]
          constructor
          · intro hroom creds' channel' heq
            obtain ⟨rfl, rfl⟩ := Prod.mk.inj (Option.some.inj heq)
            exact hroom
          · exact fun hall => hall _ _ rfl)

/-! ### The four messages -/

/-- A handshake with a phone, so many messages in. -/
def noiseAt (phone : Bool) (stage : Nat) : Handshake (Bool × Nat) :=
  ⟨(phone, stage), false⟩

def transcriptPrologue : Bytes :=
  (prologue "pair_1" "desktop_1").getD []

/-- The endpoint with the opening of one more phone. -/
def withOpening (server : Server (Bool × Nat)) (phone : Bool) : Server (Bool × Nat) :=
  { server with
    pending := Fields.insert (encode64 (tokenOf phone)) ⟨noiseAt phone 2, 0⟩ server.pending }

/-- The endpoint of a fresh invitation. -/
def invited : Server (Bool × Nat) :=
  ⟨[], invitationCreds, []⟩

/-- Both phones' openings wait. -/
def bothOpen : Server (Bool × Nat) :=
  withOpening (withOpening invited false) true

/-- The endpoint with both openings. -/
def opened : Endpoint (Bool × Nat) :=
  Machine.run (Endpoint.step twoPhones) (Endpoint.new invitationCreds) openCalls

/-- The credentials with a phone as the peer. -/
def pinned (phone : Bool) : PairingCreds :=
  { invitationCreds with
    secure := some { invitationIdentity with
      peerPublicKey := some (transcript phone).peer, secret := none } }

/-- The channel a phone's handshake ends in. -/
def channelOf (phone : Bool) : Channel :=
  Channel.new (splitOf phone).2 (splitOf phone).1 (Handshake.channelId (hashOf phone))

/-- What is evaluated of the texts of a phone's handshake. -/
structure Evaluated (phone : Bool) : Prop where
  parse_open : twoPhones.parse (wireText (openRequest phone)) = some (openRequest phone)
  parse_finish : twoPhones.parse (wireText (finishRequest phone)) = some (finishRequest phone)
  short_open : ¬16384 < (wireText (openRequest phone)).length
  short_finish : ¬16384 < (wireText (finishRequest phone)).length
  decode_opening : (decode (transcript phone).opening).isSome
  decode_finish : (decode (transcript phone).finish).isSome
  length_opening : ¬8192 < (bytesOf (transcript phone).opening).length
  length_finish : ¬8192 < (bytesOf (transcript phone).finish).length
  encode_peer : encode64 (keyOf (transcript phone).peer).toList = (transcript phone).peer

/-- What is evaluated of the texts of the invitation. -/
structure InvitationEvaluated : Prop where
  prologue : (prologue "pair_1" "desktop_1").isSome
  privateKey : key invitationIdentity.privateKey = some (Vector.replicate 32 2)
  secret : key "BwcHBwcHBwcHBwcHBwcHBwcHBwcHBwcHBwcHBwcHBwc" = some (Vector.replicate 32 7)
  tokens : encode64 (tokenOf false) ≠ encode64 (tokenOf true)
  confirmed : (confirmationPayload "pair_1" "bridge_1" (.obj [])).length ≤ maxPlaintext

theorem invitationEvaluated : InvitationEvaluated := by
  constructor <;> decide +kernel

theorem evaluated (phone : Bool) : Evaluated phone := by
  have hopen : ∀ phone, twoPhones.parse (wireText (openRequest phone)) =
        some (openRequest phone) ∧ ¬16384 < (wireText (openRequest phone)).length := by
    decide +kernel
  have hfinish : ∀ phone, twoPhones.parse (wireText (finishRequest phone)) =
        some (finishRequest phone) ∧ ¬16384 < (wireText (finishRequest phone)).length := by
    decide +kernel
  have htexts : ∀ phone, ((decode (transcript phone).opening).isSome ∧
        ¬8192 < (bytesOf (transcript phone).opening).length) ∧
      (decode (transcript phone).finish).isSome ∧
        ¬8192 < (bytesOf (transcript phone).finish).length := by
    decide +kernel
  have hpeer : ∀ phone, encode64 (keyOf (transcript phone).peer).toList =
      (transcript phone).peer := by
    decide +kernel
  exact ⟨(hopen phone).1, (hfinish phone).1, (hopen phone).2, (hfinish phone).2,
    (htexts phone).1.1, (htexts phone).2.1, (htexts phone).1.2, (htexts phone).2.2,
    hpeer phone⟩

/-- Everything at the endpoint is from now. -/
structure FromNow (server : Server (Bool × Nat)) : Prop where
  pending : ∀ waiting ∈ server.pending, waiting.2.created = 0
  candidates : server.candidates = []

theorem prologue_transcript : prologue "pair_1" "desktop_1" = some transcriptPrologue := by
  obtain ⟨pre, hpre⟩ := Option.isSome_iff_exists.1 invitationEvaluated.prologue
  rw [transcriptPrologue, hpre]
  rfl

theorem decode_bytesOf
    {text : String}
    (h : (decode text).isSome) :
    decode text = some (bytesOf text) := by
  obtain ⟨bytes, hbytes⟩ := Option.isSome_iff_exists.1 h
  have hdecode := hbytes
  rw [decode] at hdecode
  split at hdecode
  · cases hdecode
  · rw [hbytes, bytesOf, hdecode]
    rfl

theorem opening_transcript
    {request : HandshakeRequest}
    (h : (decode request.message).isSome) :
    Endpoint.opening invitationCreds request =
      .ok (invitationIdentity, transcriptPrologue, bytesOf request.message) := by
  rw [Endpoint.opening, decode_bytesOf h]
  dsimp only [invitationCreds]
  rw [prologue_transcript]
  rfl

theorem parse_open (phone : Bool) (presence : Json) :
    twoPhones.parse (callOf (openRequest phone) phone presence).payload =
      some (openRequest phone) :=
  (evaluated phone).parse_open

theorem parse_finish (phone : Bool) (presence : Json) :
    twoPhones.parse (callOf (finishRequest phone) phone presence).payload =
      some (finishRequest phone) :=
  (evaluated phone).parse_finish

theorem short_open (phone : Bool) (presence : Json) :
    ¬16384 < (callOf (openRequest phone) phone presence).payload.length :=
  (evaluated phone).short_open

theorem short_finish (phone : Bool) (presence : Json) :
    ¬16384 < (callOf (finishRequest phone) phone presence).payload.length :=
  (evaluated phone).short_finish

theorem invitation_transcript :
    Server.invitation invitationIdentity 0 = .ok (Vector.replicate 32 7) := by
  simp only [Server.invitation, invitationIdentity, context, except_ok_bind,
    invitationEvaluated.secret]
  rfl

theorem new_transcript (phone : Bool) :
    Handshake.new transcriptSnow .pair false (Vector.replicate 32 (2 : UInt8)).toList none
      (some (Vector.replicate 32 (7 : UInt8)).toList) transcriptPrologue
      (transcript phone).coins = some (noiseAt phone 0) := by
  have hcoins : (transcript true).coins ≠ (transcript false).coins := by decide
  simp only [Handshake.new, transcriptSnow, Vector.toList_replicate, prologue_transcript,
    and_self, if_true]
  cases phone with
  | false =>
      rw [if_pos rfl]
      rfl
  | true =>
      rw [if_neg hcoins, if_pos rfl]
      rfl

theorem read_opening (phone : Bool) :
    (noiseAt phone 0).read transcriptSnow (bytesOf (transcript phone).opening) =
      some ([], noiseAt phone 1) := by
  rw [Handshake.read, if_neg (evaluated phone).length_opening]
  simp [transcriptSnow, noiseAt]

theorem read_finish (phone : Bool) :
    (noiseAt phone 2).read transcriptSnow (bytesOf (transcript phone).finish) =
      some ([], noiseAt phone 3) := by
  rw [Handshake.read, if_neg (evaluated phone).length_finish]
  simp [transcriptSnow, noiseAt]

theorem write_transcript (phone : Bool) :
    (noiseAt phone 1).write transcriptSnow [] =
      some (bytesOf (transcript phone).response, noiseAt phone 2) := by
  simp [Handshake.write, transcriptSnow, noiseAt]

/-- A phone's opening waits at the endpoint for its finish. -/
theorem step_open
    {server : Server (Bool × Nat)}
    (hcreds : server.creds = invitationCreds)
    (hretain : server.retain 0 = server)
    (hroom : server.pending.length + server.candidates.length < 16)
    (saved : List PairingCreds)
    (phone : Bool)
    (presence : Json) :
    Endpoint.step twoPhones ⟨some server, saved⟩
        (callOf (openRequest phone) phone presence) =
      ⟨some (withOpening server phone), saved⟩ := by
  have hopening := @opening_transcript (openRequest phone) (evaluated phone).decode_opening
  rw [Endpoint.step, Endpoint.handshake, if_neg (short_open phone presence),
    parse_open phone presence]
  simp only [Endpoint.serve]
  have hnow : (callOf (openRequest phone) phone presence).now = 0 := rfl
  rw [hnow, hretain, hcreds, hopening]
  have hkind : (openRequest phone).kind = "secure_open" := rfl
  simp only [hkind, if_true, Server.secureOpen, ensure, if_pos hroom, except_ok_bind]
  have hpairing : (openRequest phone).pairing = true := rfl
  rw [hpairing, if_pos rfl, Server.openPairing]
  have htime : (callOf (openRequest phone) phone presence).unixTimestamp = 0 := rfl
  rw [htime, invitation_transcript, invitationEvaluated.privateKey]
  have hcoins : (callOf (openRequest phone) phone presence).coins = (transcript phone).coins :=
    rfl
  have hmessage : bytesOf (openRequest phone).message = bytesOf (transcript phone).opening := rfl
  have hsnow : twoPhones.snow = transcriptSnow := rfl
  simp only [except_ok_bind, context, hcoins, hmessage, hsnow, new_transcript, read_opening,
    write_transcript, ensure, if_true]
  rfl

theorem lookup_bothOpen (phone : Bool) :
    Fields.lookup (encode64 (tokenOf phone)) bothOpen.pending =
      some ⟨noiseAt phone 2, 0⟩ := by
  rw [bothOpen, withOpening, withOpening]
  cases phone with
  | false =>
      rw [Fields.lookup_insert, if_neg invitationEvaluated.tokens, Fields.lookup_insert, if_pos rfl]
  | true =>
      rw [Fields.lookup_insert, if_pos rfl]

theorem FromNow.retain
    {server : Server (Bool × Nat)}
    (h : FromNow server) :
    server.retain 0 = server := by
  obtain ⟨hpending, hcandidates⟩ := h
  have hkept : server.pending.filter (fun (_, p) => 0 - p.created < lifetime) =
      server.pending := by
    refine List.filter_eq_self.2 fun waiting hwaiting => decide_eq_true ?_
    rw [hpending waiting hwaiting]
    decide
  rw [Server.retain, hkept, hcandidates, List.filter_nil, ← hcandidates]

theorem FromNow.withOpening
    {server : Server (Bool × Nat)}
    (h : FromNow server)
    (phone : Bool) :
    FromNow (withOpening server phone) := by
  refine ⟨fun waiting hwaiting => ?_, h.candidates⟩
  rcases Fields.mem_insert hwaiting with rfl | hold
  · rfl
  · exact h.pending waiting hold

theorem fromNow_invited : FromNow invited :=
  ⟨List.forall_mem_nil _, rfl⟩

theorem fromNow_bothOpen : FromNow bothOpen :=
  (fromNow_invited.withOpening false).withOpening true

theorem opened_eq : opened = ⟨some bothOpen, []⟩ := by
  have hnew : Endpoint.new invitationCreds = ⟨some invited, []⟩ := rfl
  rw [opened, hnew, openCalls, Machine.run_cons,
    step_open rfl fromNow_invited.retain (by decide), Machine.run_cons,
    step_open rfl (fromNow_invited.withOpening false).retain (by decide), Machine.run_nil]
  rfl

theorem bind_transcript (phone : Bool) :
    Server.bind twoPhones invitationCreds invitationIdentity ⟨noiseAt phone 2, 0⟩
      (bytesOf (transcript phone).finish) 0 = .ok (pinned phone, channelOf phone) := by
  have hsnow : twoPhones.snow = transcriptSnow := rfl
  have hpeer : (noiseAt phone 3).remotePublicKey transcriptSnow =
      some (keyOf (transcript phone).peer) := rfl
  have hfinish : (noiseAt phone 3).finish transcriptSnow = some (channelOf phone) := rfl
  have hvalid : ¬Server.expired invitationIdentity 0 := by decide
  have hfree : invitationIdentity.peerPublicKey = none := rfl
  rw [Server.bind, hsnow, read_finish]
  simp only [ensure, hfree, if_true, hvalid, not_false_eq_true, except_ok_bind, context, hpeer,
    hfinish, (evaluated phone).encode_peer]
  rfl

/-- A phone's finish is saved while its opening waits. -/
theorem saving_finish
    {server : Server (Bool × Nat)}
    (hcreds : server.creds = invitationCreds)
    (hretain : server.retain 0 = server)
    (saved : List PairingCreds)
    {phone : Bool}
    (hlook : Fields.lookup (encode64 (tokenOf phone)) server.pending =
      some ⟨noiseAt phone 2, 0⟩)
    (presence : Json) :
    Endpoint.saving twoPhones ⟨some server, saved⟩
      (callOf (finishRequest phone) phone presence) =
      some (pinned phone, channelOf phone) := by
  have hopening := @opening_transcript (finishRequest phone) (evaluated phone).decode_finish
  have hnow : (callOf (finishRequest phone) phone presence).now = 0 := rfl
  have htime : (callOf (finishRequest phone) phone presence).unixTimestamp = 0 := rfl
  have hid : (finishRequest phone).id = encode64 (tokenOf phone) := rfl
  have hmessage : bytesOf (finishRequest phone).message = bytesOf (transcript phone).finish := rfl
  have hkind : (finishRequest phone).kind = "secure_finish" := rfl
  have hsaves : (callOf (finishRequest phone) phone presence).saves = true := rfl
  rw [Endpoint.saving, if_neg (short_finish phone presence), parse_finish phone presence]
  simp only [hnow, hretain, Server.saving, hkind, hsaves, and_self, if_true, hcreds, hopening,
    hid, hlook, htime, hmessage, bind_transcript]
  rfl

theorem saving_open
    (endpoint : Endpoint (Bool × Nat))
    (phone : Bool)
    (presence : Json) :
    endpoint.saving twoPhones (callOf (openRequest phone) phone presence) = none := by
  have hkind : (openRequest phone).kind ≠ "secure_finish" := by
    change "secure_open" ≠ "secure_finish"
    decide
  rw [Endpoint.saving, if_neg (short_open phone presence), parse_open phone presence]
  cases endpoint.server with
  | none => rfl
  | some server =>
      simp only [Server.saving, hkind, false_and, if_false]

/-- A pinned endpoint saves no binding. -/
theorem saving_pinned
    {server : Server (Bool × Nat)}
    {peer : String}
    (hpeer : server.creds.peer = some peer)
    (saved : List PairingCreds)
    (call : HandshakeCall) :
    Endpoint.saving twoPhones ⟨some server, saved⟩ call = none := by
  have hretain : (server.retain call.now).creds.peer = some peer := hpeer
  unfold Endpoint.saving
  split
  · rfl
  · split
    · rename_i request server' hparse hserver
      obtain rfl := Option.some.inj hserver
      unfold Server.saving
      split
      · split
        · rename_i identity pre input pending hopening hlook
          have htaken : identity.peerPublicKey ≠ none := by
            rw [PairingCreds.peer, opening_secure hopening, Option.bind_some] at hretain
            simp [hretain]
          rw [Server.bind, ensure_of_neg htaken, except_error_bind]
          rfl
        · rfl
      · rfl
    · rfl

/-- The first finish pins the endpoint where its confirmation is sealed. -/
theorem step_first_finish :
    ∃ server, Endpoint.step twoPhones ⟨some bothOpen, []⟩
        (callOf (finishRequest false) false (.obj [])) = ⟨some server, [pinned false]⟩ ∧
      server.creds = pinned false := by
  have hsaving := saving_finish rfl fromNow_bothOpen.retain [] (lookup_bothOpen false) (.obj [])
  have hnew : (channelOf false).next = 0 := rfl
  obtain ⟨⟨text, channel⟩, hconfirm⟩ :=
    confirmation_ok transcriptCipher_seals hnew invitationEvaluated.confirmed
  unfold Endpoint.saving at hsaving
  rw [if_neg (short_finish false _), parse_finish false] at hsaving
  rw [Endpoint.step, Endpoint.handshake, if_neg (short_finish false _), parse_finish false]
  dsimp only at hsaving ⊢
  rw [serve_saving hsaving, Server.confirm]
  have hsealed : confirmation twoPhones.cipher (pinned false).pairId
      (callOf (finishRequest false) false (.obj [])).bridge (channelOf false)
      (callOf (finishRequest false) false (.obj [])).presence = .ok (text, channel) := hconfirm
  rw [hsealed]
  exact ⟨_, rfl, rfl⟩

theorem run_bound_two_phones :
    Bound twoPhones transcriptOwner invitationCreds (phoneRun (.obj [])) ∧
      (phoneRun (.obj [])).saved.map PairingCreds.peer =
        [some (transcript false).peer] := by
  obtain ⟨server, hfirst, hcreds⟩ := step_first_finish
  have hpinned : server.creds.peer = some (transcript false).peer := by
    rw [hcreds]
    rfl
  refine ⟨run_bound twoPhones transcriptOwner invitationCreds transcriptSnow_authenticates
    transcriptCipher_seals (openCalls ++ finishCalls (.obj [])) ?_, ?_⟩
  · rw [openCalls, finishCalls]
    refine ⟨fun creds channel hsaving => ?_, fun creds channel hsaving => ?_,
      fun creds channel hsaving => ?_, fun creds channel hsaving => ?_, trivial⟩
    · rw [saving_open] at hsaving
      cases hsaving
    · rw [saving_open] at hsaving
      cases hsaving
    · have hopened := opened_eq
      rw [opened, openCalls, Machine.run_cons, Machine.run_cons, Machine.run_nil] at hopened
      rw [hopened, saving_finish rfl fromNow_bothOpen.retain [] (lookup_bothOpen false)] at hsaving
      obtain ⟨rfl, rfl⟩ := Prod.mk.inj (Option.some.inj hsaving)
      exact invitationEvaluated.confirmed
    · have hopened := opened_eq
      rw [opened, openCalls, Machine.run_cons, Machine.run_cons, Machine.run_nil] at hopened
      rw [hopened, hfirst, saving_pinned hpinned] at hsaving
      cases hsaving
  · have hopened := opened_eq
    rw [opened] at hopened
    rw [phoneRun, Machine.run_append, hopened, finishCalls, Machine.run_cons, hfirst,
      Machine.run_cons, Machine.run_nil, Endpoint.step, Endpoint.handshake,
      if_neg (short_finish true _), parse_finish true]
    have hkind : (finishRequest true).kind = "secure_open" ∧ (finishRequest true).pairing = true ∨
        (finishRequest true).kind = "secure_finish" :=
      Or.inr rfl
    have hretained : (server.retain 0).creds.peer = some (transcript false).peer := hpinned
    have hkept : (Endpoint.serve twoPhones (server.retain 0) [pinned false] (finishRequest true)
        (callOf (finishRequest true) true (.obj []))).1.saved = [pinned false] :=
      (serve_pinned hretained hkind (callOf (finishRequest true) true (.obj []))).1
    exact congrArg (List.map PairingCreds.peer) hkept

/-- A presence of text is at least as long in the confirmation. -/
theorem lt_length_confirmationPayload
    (pairId bridge : String)
    (n : Nat) :
    n < (confirmationPayload pairId bridge
      (.str (String.ofList (List.replicate n 'x')))).length := by
  have hescaped : Json.escapedLen 'x' = 1 := by decide
  have hpresence : n < Json.compactLen (.str (String.ofList (List.replicate n 'x'))) := by
    rw [Json.compactLen, Json.literalLen, String.toList_ofList, List.map_replicate,
      hescaped, List.sum_replicate_nat]
    omega
  rw [confirmationPayload, Utf8.length_encode, Json.size_compact]
  simp only [confirmationBody, Json.compactLen, Json.compactLenFields] at hpresence ⊢
  omega

/-- The second finish reaches its save on what the first one left. -/
theorem saving_second (presence : Json) :
    Endpoint.saving twoPhones
      ⟨(some bothOpen).map fun server => server.lapse 0 (finishRequest false).id, []⟩
      (callOf (finishRequest true) true presence) =
      some (pinned true, channelOf true) := by
  have hnow : FromNow (bothOpen.lapse 0 (finishRequest false).id) := by
    rw [Server.lapse, fromNow_bothOpen.retain]
    refine ⟨fun waiting hwaiting => fromNow_bothOpen.pending waiting ?_, rfl⟩
    dsimp only [Fields.erase] at hwaiting
    exact List.mem_of_mem_filter hwaiting
  refine saving_finish rfl hnow.retain [] ?_ presence
  have hid : (finishRequest false).id = encode64 (tokenOf false) := rfl
  rw [Server.lapse, fromNow_bothOpen.retain, hid]
  dsimp only
  rw [Fields.lookup_erase, if_neg invitationEvaluated.tokens.symm, lookup_bothOpen]

/-- With a presence above the ceiling two phones are bound to one invitation. -/
theorem run_two_bindings
    {presence : Json}
    (hlarge : ∀ pairId, maxPlaintext <
      (confirmationPayload pairId "bridge_1" presence).length) :
    (phoneRun presence).saved.map PairingCreds.peer =
      [some (transcript false).peer, some (transcript true).peer] := by
  have hfirst : (Endpoint.saving twoPhones ⟨some bothOpen, []⟩
      (callOf (finishRequest false) false presence)).map (·.1.peer) =
      some (some (transcript false).peer) := by
    rw [saving_finish rfl fromNow_bothOpen.retain [] (lookup_bothOpen false), Option.map_some]
    rfl
  have hsecond : (Endpoint.saving twoPhones
      ⟨(some bothOpen).map fun server => server.lapse 0 (finishRequest false).id, []⟩
      (callOf (finishRequest true) true presence)).map (·.1.peer) =
      some (some (transcript true).peer) := by
    rw [saving_second, Option.map_some]
    rfl
  have hrun := run_lost_twice twoPhones ⟨some bothOpen, []⟩
    (callOf (finishRequest false) false presence)
    (callOf (finishRequest true) true presence) (finishRequest false)
    (finishRequest true) (parse_finish false presence) (parse_finish true presence)
    hfirst hsecond hlarge hlarge
  have hopened := opened_eq
  rw [opened] at hopened
  rw [phoneRun, Machine.run_append, hopened]
  exact hrun

/--
An invitation can bind two phones: both finishes are saved, and neither pins the
endpoint, because the presence does not fit into the confirmation.
-/
theorem two_phones_bound :
    transcriptSnow.Authenticates transcriptOwner ∧ transcriptCipher.Seals ∧
      ¬Bound twoPhones transcriptOwner invitationCreds
        (phoneRun (.str (String.ofList (List.replicate maxPlaintext 'x')))) := by
  refine ⟨transcriptSnow_authenticates, transcriptCipher_seals, fun hbound => ?_⟩
  have hsaved := run_two_bindings
    fun pairId => lt_length_confirmationPayload pairId "bridge_1" maxPlaintext
  obtain ⟨creds, rest, hlist, hpeer, hrest⟩ := List.map_eq_cons_iff.1 hsaved
  obtain ⟨creds', _, rfl, hpeer', _⟩ := List.map_eq_cons_iff.1 hrest
  have hsame := hbound.once creds (by simp [hlist]) creds' (by simp [hlist])
  rw [hpeer, hpeer'] at hsame
  exact absurd hsame (by decide)

end TwoPhones

end Remote
end FutureOs
