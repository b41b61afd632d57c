/-
The server's half of the handshake (`handle_connection` of
`crates/network/src/server.rs`): the `Hello` on the control stream, the version
check, the `Welcome`, and the two events around the peer loop.

A version is checked twice. The frame decoder compares the one in the header,
and `handle_connection` the one in the `Hello`. A build writes the same number
in both places, so the decoder always comes first, and the reply that
`handle_connection` would send for a mismatch is never sent to such a build.
-/
import InputSync.Session
import InputSync.Stream

set_option autoImplicit false

namespace InputSync

open InputSync.Bincode (serialize)

/-! ## `handle_connection`

The server's half up to its reply, as a function of the bytes that arrive. -/

namespace Capabilities

/-- `Capabilities::full`: all of them. -/
def full : Capabilities := ⟨true, true, true, true, true, true⟩

/-- Intersection: only features both sides support. -/
def negotiate (self other : Capabilities) : Capabilities :=
  { clipboard_text := self.clipboard_text && other.clipboard_text
    clipboard_html := self.clipboard_html && other.clipboard_html
    clipboard_image := self.clipboard_image && other.clipboard_image
    clipboard_files := self.clipboard_files && other.clipboard_files
    file_transfer := self.file_transfer && other.file_transfer
    zstd_compression := self.zstd_compression && other.zstd_compression }

end Capabilities

/-- What `handle_connection` reads of the `ServerConfig`. -/
structure ServerConfig where
  local_peer_id : PeerId
  local_peer_name : String
deriving DecidableEq

/-- What it fails with: `Error::Network` for `accept_bi`, the error of a stream
helper, `Error::Protocol` for a message that is no `Hello`. -/
inductive ConnectionError
  | accept_bi
  | stream (e : StreamError)
  | expected_hello (got : MessageType)
  | VersionMismatch (localVersion remote : UInt16)
deriving DecidableEq

/-- A connection from its first byte to its end: what was written on the
control stream before the peer loop took it over, the events emitted, and the
result. -/
structure Served where
  sent : List Message
  events : List ServerEvent
  result : Except ConnectionError Unit
deriving DecidableEq

/-- `write_message` on the control stream, which may be broken. -/
def send_control (writes : Bool) (msg : Message) : Except StreamError (List Message) :=
  match write_message msg with
  | .error e => .error e
  | .ok _ => if writes then .ok [msg] else .error .write

/-- `handle_connection` on connection number `conn`. `control` is what the
control stream holds, if the client opens one; `writes` says whether writes to
it succeed. -/
def handle_connection (cfg : ServerConfig) (conn : Nat) (control : Option (List UInt8))
    (writes : Bool) : Served :=
  match control with
  | none => ⟨[], [], .error .accept_bi⟩
  | some recv =>
    match (read_message recv).1 with
    | .error e => ⟨[], [], .error (.stream e)⟩
    | .ok (.Hello hello) =>
      if hello.protocol_version ≠ PROTOCOL_VERSION then
        -- a reply that cannot be sent is given up
        ⟨(send_control writes (.Error 1 "version mismatch")).toOption.getD [], [],
          .error (.VersionMismatch PROTOCOL_VERSION hello.protocol_version)⟩
      else
        let negotiated := Capabilities.full.negotiate hello.capabilities
        let welcome := Message.Welcome ⟨cfg.local_peer_id, cfg.local_peer_name, negotiated, ⟨1⟩⟩
        match send_control writes welcome with
        | .error e => ⟨[], [], .error (.stream e)⟩
        | .ok sent =>
          let handle : PeerHandle := ⟨hello.peer_id, conn⟩
          ⟨sent, [.Connected handle, .Disconnected hello.peer_id], .ok ()⟩
    | .ok other => ⟨[], [], .error (.expected_hello other.message_type)⟩

/-! ## Clients of another version

A frame of another version is refused by its header, before anybody looks at the `Hello`
inside. -/

/-- The frame in which a build of version `version` sends its `Hello`. -/
def hello_frame (version : UInt16) (hello : Hello) : List UInt8 :=
  { Header.new .Hello (UInt32.ofNat (serialize (.Hello hello)).length) with version }.encode
    ++ serialize (.Hello hello)

/-- The mismatch is reported to both sides: the client gets an `Error` message
and the caller `VersionMismatch`, and the session hears nothing. -/
def Served.LoudRefusal (self : Served) (remote : UInt16) : Prop :=
  (∃ code message, .Error code message ∈ self.sent) ∧
    self.result = .error (.VersionMismatch PROTOCOL_VERSION remote) ∧ self.events = []

/-- The decoder refuses the frame by its header. -/
theorem read_message_other_version (version : UInt16) (hello : Hello) (rest : List UInt8)
    (hversion : version ≠ PROTOCOL_VERSION)
    (hfit : (serialize (.Hello hello)).length ≤ MAX_PAYLOAD_SIZE.toNat) :
    (read_message (hello_frame version hello ++ rest)).1
      = .error (.decode (.UnsupportedVersion PROTOCOL_VERSION version)) := by
  have hmax : MAX_PAYLOAD_SIZE.toNat = 67108864 := rfl
  have hlen : (UInt32.ofNat (serialize (.Hello hello)).length).toNat
      = (serialize (.Hello hello)).length := by
    rw [UInt32.toNat_ofNat', Nat.mod_eq_of_lt (by omega)]
  have hdecode : ∀ header body, header.magic = MAGIC → header.version = version →
      decode_body header body = .error (.UnsupportedVersion PROTOCOL_VERSION version) := by
    intro header body hmagic hv
    rw [decode_body, if_neg (not_not.mpr hmagic), if_pos (by rw [hv]; exact hversion), hv]
  rw [hello_frame, List.append_assoc, read_message_header, if_neg]
  · rw [hdecode _ _ rfl rfl]
  · have hheader : (Header.length { Header.new .Hello
        (UInt32.ofNat (serialize (.Hello hello)).length) with version }).toNat
        = (serialize (.Hello hello)).length := hlen
    rw [hheader, List.length_append]
    omega

/-- What becomes of such a client. -/
theorem other_version_served (cfg : ServerConfig) (conn : Nat) (version : UInt16) (hello : Hello)
    (rest : List UInt8) (writes : Bool) (hversion : version ≠ PROTOCOL_VERSION)
    (hfit : (serialize (.Hello hello)).length ≤ MAX_PAYLOAD_SIZE.toNat) :
    handle_connection cfg conn (some (hello_frame version hello ++ rest)) writes
      = ⟨[], [], .error (.stream (.decode (.UnsupportedVersion PROTOCOL_VERSION version)))⟩ := by
  simp only [handle_connection, read_message_other_version version hello rest hversion hfit]

/-- **No loud refusal.** A client of another version gets no reply, whatever
its `Hello` holds, and the caller an error that is not the version mismatch. -/
theorem version_mismatch_silent (cfg : ServerConfig) (conn : Nat) (version : UInt16)
    (hello : Hello) (rest : List UInt8) (writes : Bool) (hversion : version ≠ PROTOCOL_VERSION)
    (hfit : (serialize (.Hello hello)).length ≤ MAX_PAYLOAD_SIZE.toNat) :
    ¬ (handle_connection cfg conn (some (hello_frame version hello ++ rest)) writes).LoudRefusal
      version := by
  rw [other_version_served cfg conn version hello rest writes hversion hfit]
  rintro ⟨⟨code, message, hmem⟩, -, -⟩
  cases hmem

/-- The `Hello` of a client that calls itself `b`. -/
def hello_of (version : UInt16) : Hello :=
  ⟨⟨⟨#[0, 0, 0, 0, 0, 0, 0, 0, 0, 0, 0, 0, 0, 0, 0, 0], rfl⟩⟩, "b", version, .full⟩

/-- The refusal is as silent for the `Hello` of the next version. -/
theorem version_mismatch_silent_next :
    ¬ (handle_connection ⟨(hello_of 1).peer_id, "a"⟩ 0
      (some (hello_frame 2 (hello_of 2) ++ [])) true).LoudRefusal 2 :=
  version_mismatch_silent _ 0 2 (hello_of 2) [] true (by decide) (by decide)

/-- **Refused without a word.** A client of version 2 on a working stream. -/
theorem next_version_gets_no_reply :
    (handle_connection ⟨(hello_of 1).peer_id, "a"⟩ 0 (some (hello_frame 2 (hello_of 2))) true).sent
        = [] ∧
      (handle_connection ⟨(hello_of 1).peer_id, "a"⟩ 0 (some (hello_frame 2 (hello_of 2)))
        true).result ≠ .error (.VersionMismatch PROTOCOL_VERSION 2) := by
  decide

end InputSync
