/-
The messages between the daemon and the GUI or CLI (`crates/ipc/src/lib.rs`)
and what the derived serde code writes them as.

Requests, responses and events are internally tagged by `kind`. What comes from
the daemon is read as an untagged `IpcMessage`, as a response first and then as
an event. A `log` is not a `logs`, and no other kinds are alike either, so that
is never the wrong one (`response_refuses`).
-/
import InputSync.Config

set_option autoImplicit false

namespace InputSync

/-! ## The messages

The types of the IPC, with all their fields. -/

/-- `IpcRequest`: what a client may ask for. -/
inductive IpcRequest
  | GetStatus
  | GetConfig
  | UpdateConfig (config : Config)
  | Connect (addr : String) (fingerprint : Option String)
  | Disconnect (peer : String)
  | StartServer
  | StopServer
  | EmergencyStop
  | SubscribeEvents
  | GetLogs (tail : UInt32)
  | Shutdown
deriving DecidableEq

/-- `PeerSummary`: a connection, as a status shows it. -/
structure PeerSummary where
  peer_id : String
  name : String
  remote_addr : String
  connected_secs : UInt64
  last_rtt_ms : UInt32
deriving DecidableEq

/-- `StatusReply`: the answer to GetStatus. -/
structure StatusReply where
  version : String
  uptime_secs : UInt64
  role : String
  local_fingerprint : String
  connected_peers : List PeerSummary
  capturing : Bool
  listening : Bool
  listen_addr : Option String
deriving DecidableEq

/-- `IpcResponse`. -/
inductive IpcResponse
  | Status (reply : StatusReply)
  | Config (config : InputSync.Config)
  | Ok
  | Logs (lines : List String)
  | Error (message : String)
deriving DecidableEq

/-- `IpcEvent`: what the daemon says by itself. -/
inductive IpcEvent
  | PeerConnected (peer_id name : String)
  | PeerDisconnected (peer_id : String)
  | CapturingChanged (capturing : Bool)
  | FileTransferProgress (transfer_id bytes total : UInt64)
  | Log (line : String)
deriving DecidableEq

/-- `IpcMessage`, untagged: what a client reads is a response or an event. -/
inductive IpcMessage
  | Response (response : IpcResponse)
  | Event (event : IpcEvent)
deriving DecidableEq

/-! ## As JSON

Internally tagged enums: the variant is a field called `kind` beside the others. -/

namespace Serde

open Fields

/-- `PeerSummary`. -/
def peer_summary :
    Fields ["peer_id", "name", "remote_addr", "connected_secs", "last_rtt_ms"] PeerSummary :=
  ((field "peer_id" string).and ((field "name" string).and ((field "remote_addr" string).and
    ((field "connected_secs" u64).and (field "last_rtt_ms" u32))))).iso
    (fun p => (p.peer_id, p.name, p.remote_addr, p.connected_secs, p.last_rtt_ms))
    (fun (peer_id, name, remote_addr, connected_secs, last_rtt_ms) =>
      { peer_id, name, remote_addr, connected_secs, last_rtt_ms })
    (fun _ => rfl)

/-- `StatusReply`. -/
def status_reply :
    Fields ["version", "uptime_secs", "role", "local_fingerprint", "connected_peers", "capturing",
      "listening", "listen_addr"] StatusReply :=
  ((field "version" string).and
    ((field "uptime_secs" u64).and
    ((field "role" string).and
    ((field "local_fingerprint" string).and
    ((field "connected_peers" peer_summary.struct.list).and
    ((field "capturing" bool).and
    ((field "listening" bool).and
    (optional "listen_addr" string (by rintro _ ⟨⟩))))))))).iso
    (fun s => (s.version, s.uptime_secs, s.role, s.local_fingerprint, s.connected_peers,
      s.capturing, s.listening, s.listen_addr))
    (fun (version, uptime_secs, role, local_fingerprint, connected_peers, capturing, listening,
        listen_addr) =>
      { version, uptime_secs, role, local_fingerprint, connected_peers, capturing, listening
        listen_addr })
    (fun _ => rfl)

/-- The variants of a request, by the names serde gives them. -/
def ipc_request_variants (text : SocketText) : List (Variant IpcRequest) :=
  [empty.variant "get_status" (fun | .GetStatus => some () | _ => none) (fun _ => .GetStatus),
    empty.variant "get_config" (fun | .GetConfig => some () | _ => none) (fun _ => .GetConfig),
    (field "config" (config text).struct).variant "update_config"
      (fun | .UpdateConfig config => some config | _ => none) .UpdateConfig,
    ((field "addr" string).and (optional "fingerprint" string (by rintro _ ⟨⟩))).variant "connect"
      (fun | .Connect addr fingerprint => some (addr, fingerprint) | _ => none)
      (fun (addr, fingerprint) => .Connect addr fingerprint),
    (field "peer" string).variant "disconnect"
      (fun | .Disconnect peer => some peer | _ => none) .Disconnect,
    empty.variant "start_server" (fun | .StartServer => some () | _ => none) (fun _ => .StartServer),
    empty.variant "stop_server" (fun | .StopServer => some () | _ => none) (fun _ => .StopServer),
    empty.variant "emergency_stop" (fun | .EmergencyStop => some () | _ => none)
      (fun _ => .EmergencyStop),
    empty.variant "subscribe_events" (fun | .SubscribeEvents => some () | _ => none)
      (fun _ => .SubscribeEvents),
    (field "tail" u32).variant "get_logs" (fun | .GetLogs tail => some tail | _ => none) .GetLogs,
    empty.variant "shutdown" (fun | .Shutdown => some () | _ => none) (fun _ => .Shutdown)]

/-- They are told apart by their `kind`. -/
def ipc_request_table (text : SocketText) : Variant.Table IpcRequest where
  tag := "kind"
  variants := ipc_request_variants text
  distinct :=
    show ["get_status", "get_config", "update_config", "connect", "disconnect", "start_server",
      "stop_server", "emergency_stop", "subscribe_events", "get_logs", "shutdown"].Nodup by decide
  untagged := by simp [ipc_request_variants, variant]
  covers a := by cases a <;> simp [ipc_request_variants, variant]
  depth := 4
  shallow := show ∀ d ∈ [0, 0, 4, 0, 0, 0, 0, 0, 0, 0, 0], d ≤ 4 by decide

/-- `IpcRequest`. -/
def ipc_request (text : SocketText) : Serde IpcRequest := tagged (ipc_request_table text)

/-- The variants of a response. -/
def ipc_response_variants (text : SocketText) : List (Variant IpcResponse) :=
  [status_reply.variant "status" (fun | .Status reply => some reply | _ => none) .Status,
    (config text).variant "config" (fun | .Config config => some config | _ => none) .Config,
    empty.variant "ok" (fun | .Ok => some () | _ => none) (fun _ => .Ok),
    (field "lines" string.list).variant "logs" (fun | .Logs lines => some lines | _ => none) .Logs,
    (field "message" string).variant "error"
      (fun | .Error message => some message | _ => none) .Error]

/-- Told apart in the same way. -/
def ipc_response_table (text : SocketText) : Variant.Table IpcResponse where
  tag := "kind"
  variants := ipc_response_variants text
  distinct := show ["status", "config", "ok", "logs", "error"].Nodup by decide
  untagged := by simp [ipc_response_variants, variant]
  covers a := by cases a <;> simp [ipc_response_variants, variant]
  depth := 3
  shallow := show ∀ d ∈ [2, 3, 0, 1, 0], d ≤ 3 by decide

/-- `IpcResponse`. -/
def ipc_response (text : SocketText) : Serde IpcResponse := tagged (ipc_response_table text)

/-- The variants of an event. -/
def ipc_event_variants : List (Variant IpcEvent) :=
  [((field "peer_id" string).and (field "name" string)).variant "peer_connected"
      (fun | .PeerConnected peer_id name => some (peer_id, name) | _ => none)
      (fun (peer_id, name) => .PeerConnected peer_id name),
    (field "peer_id" string).variant "peer_disconnected"
      (fun | .PeerDisconnected peer_id => some peer_id | _ => none) .PeerDisconnected,
    (field "capturing" bool).variant "capturing_changed"
      (fun | .CapturingChanged capturing => some capturing | _ => none) .CapturingChanged,
    ((field "transfer_id" u64).and ((field "bytes" u64).and (field "total" u64))).variant
      "file_transfer_progress"
      (fun
        | .FileTransferProgress transfer_id bytes total => some (transfer_id, bytes, total)
        | _ => none)
      (fun (transfer_id, bytes, total) => .FileTransferProgress transfer_id bytes total),
    (field "line" string).variant "log" (fun | .Log line => some line | _ => none) .Log]

/-- Told apart in the same way. No response has a kind that an event has, which is what
makes the untagged enum readable. -/
def ipc_event_table : Variant.Table IpcEvent where
  tag := "kind"
  variants := ipc_event_variants
  distinct := by decide
  untagged := by decide
  covers a := by cases a <;> simp [ipc_event_variants, variant]
  depth := 0
  shallow := by decide

/-- `IpcEvent`. -/
def ipc_event : Serde IpcEvent := tagged ipc_event_table

/-- No event is taken for a response. -/
theorem response_refuses (text : SocketText) (event : IpcEvent) :
    (ipc_response text).de (ipc_event.ser event) = none := by
  refine tagged_refuses (ipc_response_table text) ipc_event_table rfl ?_ event
  show ∀ v ∈ ipc_event_variants, v.name ∉ ["status", "config", "ok", "logs", "error"]
  decide

/-- `IpcMessage`. -/
def ipc_message (text : SocketText) : Serde IpcMessage :=
  untagged (ipc_response text) ipc_event (response_refuses text)
    (fun
      | .Response response => .inl response
      | .Event event => .inr event)
    .Response .Event (fun message => by cases message <;> rfl)

end Serde

end InputSync
