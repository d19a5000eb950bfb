import FutureOs.Lib.Base64
import FutureOs.Lib.Fallible
import FutureOs.Lib.Json
import FutureOs.Remote.Channel

/-!
# The handshake of the controlled endpoint

`Handshake` (`packages/remote-crypto/src/lib.rs`) wraps the Noise state of the
`snow` crate; `Transport::handshake` (`packages/remote-server/src/secure.rs`)
serves three messages: an opening with the invitation's secret (`pairing`), an
opening by the pinned peer, and the finish of a pairing, which pins the peer.

Outside the repository and so a parameter: `Snow`, the cipher, and the JSON
parser of a request.  What a call depends on besides the state is its argument
`HandshakeCall`: the message, the clocks, the random bytes, and how the host
answers (`saves` for `save_binding`, `presence`).
-/

namespace FutureOs
namespace Remote

inductive Pattern
  | pair
  | reconnect
deriving DecidableEq

def Pattern.name : Pattern → String
  | .pair => "Noise_XXpsk0_25519_ChaChaPoly_BLAKE2b"
  | .reconnect => "Noise_IK_25519_ChaChaPoly_BLAKE2b"

/-- `snow`: one side of a Noise handshake; `coins` are its random bytes. -/
structure Snow (σ : Type) where
  build (protocol : String) (initiator : Bool) (localPrivate : Bytes)
    (remote : Option Bytes) (psk : Option Bytes) (prologue coins : Bytes) : Option σ
  readMessage : σ → Bytes → Option (Bytes × σ)
  writeMessage : σ → Bytes → Option (Bytes × σ)
  getRemoteStatic : σ → Option Key
  isHandshakeFinished : σ → Bool
  getHandshakeHash : σ → Vector UInt8 64
  rawSplit : σ → Key × Key

structure Handshake (σ : Type) where
  state : σ
  initiator : Bool

namespace Handshake

variable {σ : Type}

def new
    (snow : Snow σ)
    (pattern : Pattern)
    (initiator : Bool)
    (localPrivate : Bytes)
    (remote secret : Option Bytes)
    (prologue coins : Bytes) :
    Option (Handshake σ) :=
  (snow.build pattern.name initiator localPrivate remote secret prologue coins).map
    fun state => ⟨state, initiator⟩

def write (snow : Snow σ) (noise : Handshake σ) (payload : Bytes) :
    Option (Bytes × Handshake σ) :=
  if 4096 < payload.length then
    none
  else
    (snow.writeMessage noise.state payload).map fun (message, state) =>
      (message, { noise with state := state })

def read (snow : Snow σ) (noise : Handshake σ) (message : Bytes) :
    Option (Bytes × Handshake σ) :=
  if 8192 < message.length then
    none
  else
    (snow.readMessage noise.state message).map fun (payload, state) =>
      (payload, { noise with state := state })

def remotePublicKey (snow : Snow σ) (noise : Handshake σ) : Option Key :=
  snow.getRemoteStatic noise.state

/-- The first sixteen bytes of the handshake hash. -/
def channelId (hash : Vector UInt8 64) : ChannelId :=
  Vector.ofFn fun i => hash[i.val]

/-- The channel of a finished handshake. -/
def finish (snow : Snow σ) (noise : Handshake σ) : Option Channel :=
  if snow.isHandshakeFinished noise.state then
    let (first, second) := snow.rawSplit noise.state
    let (transmit, receive) :=
      if noise.initiator then (first, second) else (second, first)
    some (Channel.new transmit receive (channelId (snow.getHandshakeHash noise.state)))
  else
    none

end Handshake

/-- An id is short and alphanumeric, with `_` and `-`. -/
def validId (s : String) : Prop :=
  s ≠ "" ∧ s.utf8ByteSize ≤ 128 ∧
    s.toList.all (fun c => c.isAlphanum || c = '_' || c = '-')

instance (s : String) : Decidable (validId s) := by
  unfold validId
  infer_instance

def prologue (pairId desktopId : String) : Option Bytes :=
  if validId pairId ∧ validId desktopId then
    some (Utf8.encode
      ("futureos-remote-v2\n".toList ++ pairId.toList ++ "\n".toList ++ desktopId.toList))
  else
    none

/-! ## Credentials and the wire envelope -/

structure PairingIdentity where
  privateKey : String
  peerPublicKey : Option String
  secret : Option String
  expiresAt : Int
deriving DecidableEq

/-- `PairingCreds`, as far as the handshake reads them. -/
structure PairingCreds where
  handshakeVersion : Nat
  secure : Option PairingIdentity
  pairId : String
  desktopId : String
deriving DecidableEq

/-- The pinned key. -/
def PairingCreds.peer (creds : PairingCreds) : Option String :=
  creds.secure.bind (·.peerPublicKey)

structure HandshakeRequest where
  kind : String
  message : String
  id : String
  pairing : Bool
deriving DecidableEq

/-- `REFUSED`, the text of every error. -/
def refusedText : String := "remote_secure_channel_invalid"

/-- `refused`. -/
def refused (reason : String) : String :=
  refusedText ++ " (" ++ reason ++ ")"

/-- `PRESENCE_TOO_LARGE`. -/
def presenceTooLarge : String := "handshake_presence_too_large"

/-- Only the refusal for size keeps its own words. -/
def confirmationRefusal (error : String) : String :=
  if presenceTooLarge.toList <+: error.toList then error else refused "confirmation"

def encode64 (bytes : Bytes) : String :=
  String.ofList (Base64.encode bytes)

def decode (value : String) : Option Bytes :=
  if 12000 < value.utf8ByteSize then none else Base64.decode value.toList

/-- Thirty-two bytes, as `try_into` has them. -/
def toKey (bytes : Bytes) : Option Key :=
  if h : bytes.length = 32 then some ⟨bytes.toArray, by simpa using h⟩ else none

def key (value : String) : Option Key :=
  (decode value).bind toKey

/-- `SERVER_FEATURES`. -/
def serverFeatures : List String :=
  ["e2ee_v2", "file_transfer_v1", "file_download_v2", "approval_tier_v1",
    "auto_approval_v1", "continue_run_v1", "prompt_receipt_v1",
    "session_files_v1", "skills_v1", "selective_events_v1",
    "workspace_pinning_v1", "workspace_create_v1", "archive_v1",
    "desktop_settings_v1", "skill_management_v1", "compaction_v1", "fusion_v1",
    "fusion_settings_v1", "provider_management_v1", "fork_v1", "tasks_v1",
    "task_deps_v1", "read_binary_v1"]

/-- The body sealed under `handshake-confirm`. -/
def confirmationBody (pairId bridge : String) (presence : Json) : Json :=
  .obj [("bridgeInstanceId", .str bridge), ("confirmed", .bool true),
    ("features", .arr (serverFeatures.map .str)), ("pairId", .str pairId),
    ("presence", presence)]

/-- Length of an array in a field, zero where there is none. -/
def countOf (presence : Json) (field : String) : Nat :=
  match (presence.get? field).bind Json.asArray? with
  | some values => values.length
  | none => 0

def withinClientCeiling (payload : Bytes) (sessions workspaces : Nat) :
    Except String Bytes :=
  if payload.length ≤ maxPlaintext then
    .ok payload
  else
    .error (presenceTooLarge ++ ": the presence payload is " ++
      toString payload.length ++ " bytes (" ++ toString sessions ++ " sessions, " ++
      toString workspaces ++ " workspaces), past the " ++ toString maxPlaintext ++
      "-byte ceiling a client will inflate; the directory must stop travelling " ++
      "inside the handshake reply")

def confirmationContext : Text := "handshake-confirm".toList

def confirmationPayload (pairId bridge : String) (presence : Json) : Bytes :=
  Utf8.encode (confirmationBody pairId bridge presence).compact

/-- The sealed confirmation, and the channel it used up a number of. -/
def confirmation
    (cipher : Cipher)
    (pairId bridge : String)
    (channel : Channel)
    (presence : Json) :
    Except String (String × Channel) := do
  let payload ← withinClientCeiling (confirmationPayload pairId bridge presence)
    (countOf presence "sessions") (countOf presence "workspaces")
  match channel.sealRecord cipher confirmationContext payload with
  | (some record, channel) => return (encode64 record, channel)
  | (none, _) => .error refusedText

/-! ## The endpoint -/

structure Pending (σ : Type) where
  noise : Handshake σ
  created : Nat

structure Candidate where
  channel : Channel
  created : Nat

structure Server (σ : Type) where
  candidates : List Candidate
  creds : PairingCreds
  pending : List (String × Pending σ)

/-- What the endpoint calls outside the repository. -/
structure Outside (σ : Type) where
  snow : Snow σ
  cipher : Cipher
  parse : Bytes → Option HandshakeRequest

/-- One call, with everything it reads from the machine and the host. -/
structure HandshakeCall where
  payload : Bytes
  bridge : String
  /-- Milliseconds of the monotonic clock. -/
  now : Nat
  unixTimestamp : Nat
  token : Bytes
  coins : Bytes
  saves : Bool
  presence : Json

/-- Thirty seconds, for openings and for candidates. -/
def lifetime : Nat := 30000

namespace Server

variable {σ : Type}

def retain (server : Server σ) (now : Nat) : Server σ :=
  { server with
    pending := server.pending.filter fun (_, p) => now - p.created < lifetime
    candidates := server.candidates.filter fun c => now - c.created < lifetime }

/-- Whether the invitation is over. -/
def expired (identity : PairingIdentity) (unixTimestamp : Nat) : Prop :=
  identity.expiresAt.toNat ≤ unixTimestamp

instance (identity : PairingIdentity) (unixTimestamp : Nat) :
    Decidable (expired identity unixTimestamp) := by
  unfold expired
  infer_instance

/-- The secret of an invitation that can still be used. -/
def invitation (identity : PairingIdentity) (unixTimestamp : Nat) :
    Except String Key := do
  ensure (identity.peerPublicKey = none) (refused "invitation_already_used")
  ensure (¬expired identity unixTimestamp) (refused "invitation_expired")
  let secret ← context identity.secret (refused "secret")
  context (key secret) (refused "secret")

/-- `secure_open` by a device that holds the invitation. -/
def openPairing
    (outside : Outside σ)
    (server : Server σ)
    (identity : PairingIdentity)
    (pre input : Bytes)
    (call : HandshakeCall) :
    Except String (Server σ × Json) := do
  let psk ← invitation identity call.unixTimestamp
  let localPrivate ← context (key identity.privateKey) (refused "private_key")
  let noise ← context
    (Handshake.new outside.snow .pair false localPrivate.toList none
      (some psk.toList) pre call.coins)
    (refused "pattern")
  let (payload, noise) ← context (noise.read outside.snow input)
    (refused "open_undecryptable")
  ensure (payload = []) (refused "open_payload")
  let (response, noise) ← context (noise.write outside.snow [])
    (refused "open_response")
  let id := encode64 call.token
  return ({ server with
      pending := Fields.insert id ⟨noise, call.now⟩ server.pending },
    .obj [("id", .str id), ("message", .str (encode64 response))])

/-- `secure_open` by the pinned peer. -/
def openReconnect
    (outside : Outside σ)
    (server : Server σ)
    (identity : PairingIdentity)
    (pre input : Bytes)
    (call : HandshakeCall) :
    Except String (Server σ × Json) := do
  ensure (identity.peerPublicKey ≠ none) (refused "peer_unknown")
  let localPrivate ← context (key identity.privateKey) (refused "private_key")
  let noise ← context
    (Handshake.new outside.snow .reconnect false localPrivate.toList none none pre
      call.coins)
    (refused "pattern")
  let (payload, noise) ← context (noise.read outside.snow input)
    (refused "open_undecryptable")
  ensure (payload = []) (refused "open_payload")
  let proved ← context (noise.remotePublicKey outside.snow) (refused "peer")
  let peer ← context identity.peerPublicKey (refused "peer_unknown")
  let pinned ← context (key peer) (refused "peer")
  ensure (proved = pinned) (refused "peer_mismatch")
  let (response, noise) ← context (noise.write outside.snow [])
    (refused "open_response")
  let channel ← context (noise.finish outside.snow) (refused "open_finish")
  let (text, channel) ←
    (confirmation outside.cipher server.creds.pairId call.bridge channel
      call.presence).mapError confirmationRefusal
  return ({ server with
      candidates := server.candidates ++ [⟨channel, call.now⟩] },
    .obj [("confirmation", .str text), ("message", .str (encode64 response))])

def secureOpen
    (outside : Outside σ)
    (server : Server σ)
    (identity : PairingIdentity)
    (pre input : Bytes)
    (request : HandshakeRequest)
    (call : HandshakeCall) :
    Except String (Server σ × Json) := do
  ensure (server.pending.length + server.candidates.length < 16) (refused "busy")
  if request.pairing then
    server.openPairing outside identity pre input call
  else
    server.openReconnect outside identity pre input call

/-- `secure_finish` up to the save: the binding and the new channel. -/
def bind
    (outside : Outside σ)
    (creds : PairingCreds)
    (identity : PairingIdentity)
    (pending : Pending σ)
    (input : Bytes)
    (unixTimestamp : Nat) :
    Except String (PairingCreds × Channel) := do
  ensure (identity.peerPublicKey = none) (refused "invitation_already_used")
  ensure (¬expired identity unixTimestamp) (refused "invitation_expired")
  let (payload, noise) ← context (pending.noise.read outside.snow input)
    (refused "finish_undecryptable")
  ensure (payload = []) (refused "finish_payload")
  let proved ← context (noise.remotePublicKey outside.snow) (refused "peer")
  let channel ← context (noise.finish outside.snow) (refused "finish")
  let identity ← context creds.secure (refused "identity")
  return ({ creds with
      secure := some { identity with
        peerPublicKey := some (encode64 proved.toList), secret := none } },
    channel)

/--
`secure_finish` from the save on.  The binding is durable before anything else
happens; the endpoint itself is pinned only once the confirmation is sealed.
-/
def confirm
    (outside : Outside σ)
    (server : Server σ)
    (creds : PairingCreds)
    (channel : Channel)
    (call : HandshakeCall) :
    Except String (Server σ × Json) := do
  let (text, channel) ←
    (confirmation outside.cipher creds.pairId call.bridge channel
      call.presence).mapError confirmationRefusal
  return ({ server with
      creds := creds, pending := []
      candidates := server.candidates ++ [⟨channel, call.now⟩] },
    .obj [("confirmation", .str text)])

end Server

/-- A transport, and the bindings its host has saved so far. -/
structure Endpoint (σ : Type) where
  server : Option (Server σ)
  saved : List PairingCreds

namespace Endpoint

variable {σ : Type}

/-- `Transport::new`. -/
def new (creds : PairingCreds) : Endpoint σ where
  server :=
    if creds.handshakeVersion = 2 ∧ creds.secure.isSome then
      some ⟨[], creds, []⟩
    else
      none
  saved := []

/-- `secure_finish`; the opening is used up whatever happens next. -/
def secureFinish
    (outside : Outside σ)
    (server : Server σ)
    (saved : List PairingCreds)
    (identity : PairingIdentity)
    (input : Bytes)
    (request : HandshakeRequest)
    (call : HandshakeCall) :
    Endpoint σ × Except String Json :=
  match Fields.lookup request.id server.pending with
  | none => (⟨some server, saved⟩, .error (refused "challenge_expired"))
  | some pending =>
      let server := { server with pending := Fields.erase request.id server.pending }
      match Server.bind outside server.creds identity pending input
          call.unixTimestamp with
      | .error e => (⟨some server, saved⟩, .error e)
      | .ok (creds, channel) =>
          if call.saves then
            let (server, result) := commit server
              (server.confirm outside creds channel call)
            (⟨some server, saved ++ [creds]⟩, result)
          else
            (⟨some server, saved⟩, .error (refused "save_creds"))

/-- What every message needs before its type is looked at. -/
def opening (creds : PairingCreds) (request : HandshakeRequest) :
    Except String (PairingIdentity × Bytes × Bytes) := do
  let identity ← context creds.secure (refused "identity")
  let pre ← context (prologue creds.pairId creds.desktopId) (refused "prologue")
  let input ← context (decode request.message) (refused "message")
  return (identity, pre, input)

/-- A parsed message, after the lapsed openings and candidates are gone. -/
def serve
    (outside : Outside σ)
    (server : Server σ)
    (saved : List PairingCreds)
    (request : HandshakeRequest)
    (call : HandshakeCall) :
    Endpoint σ × Except String Json :=
  match opening server.creds request with
  | .error e => (⟨some server, saved⟩, .error e)
  | .ok (identity, pre, input) =>
      if request.kind = "secure_open" then
        let (server, result) := commit server
          (server.secureOpen outside identity pre input request call)
        (⟨some server, saved⟩, result)
      else if request.kind = "secure_finish" then
        secureFinish outside server saved identity input request call
      else
        (⟨some server, saved⟩, .error (refused
          (if request.kind = "" then "missing_type" else "unknown_type")))

/-- `Transport::handshake`. -/
def handshake
    (outside : Outside σ)
    (endpoint : Endpoint σ)
    (call : HandshakeCall) :
    Endpoint σ × Except String Json :=
  if 16384 < call.payload.length then
    (endpoint, .error (refused "oversized"))
  else
    match outside.parse call.payload with
    | none => (endpoint, .error (refused "malformed"))
    | some request =>
        match endpoint.server with
        | none => (endpoint, .error (refused "disabled"))
        | some server =>
            serve outside (server.retain call.now) endpoint.saved request call

end Endpoint

end Remote
end FutureOs
