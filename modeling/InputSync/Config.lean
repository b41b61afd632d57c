/-
The configuration (`crates/core/src/config.rs`) with its defaults, and what the
derived serde code writes it as.

A path is its text: paths are taken to be UTF-8, as writing any other one is an
error. How the text of a socket address is written and read is the standard
library's business (`SocketText`).
-/
import InputSync.Event
import InputSync.Serde

set_option autoImplicit false

namespace InputSync

/-! ## The types

The configuration is data: it is read, shown and handed to the tasks that start. All
fields are kept, because a request may ask for all of them. -/

/-- `SocketAddr`. -/
structure SocketAddr where
  ip : String
  port : UInt16
deriving DecidableEq

/-- `ServerRole`: what a daemon is, for its whole life. -/
inductive ServerRole
  | Server
  | Client
deriving DecidableEq

/-- `NetworkConfig`, all fields, as the file and the IPC show them. -/
structure NetworkConfig where
  listen : SocketAddr
  connect : Option SocketAddr
  heartbeat_interval_ms : UInt64
  heartbeat_timeout_ms : UInt64
  reconnect_initial_ms : UInt64
  reconnect_max_ms : UInt64
  trusted_fingerprints : List String
deriving DecidableEq

/-- `ClipboardConfig`. What the code makes of its fields is the subject of
`ClipboardPolicy`. -/
structure ClipboardConfig where
  enabled : Bool
  max_bytes : UInt64
  sync_images : Bool
  sync_files : Bool
deriving DecidableEq

/-- `FileTransferConfig`. -/
structure FileTransferConfig where
  enabled : Bool
  drop_dir : Option String
  chunk_size : UInt32
  max_concurrent : UInt32
  compress : Bool
deriving DecidableEq

/-- `Config`: the whole file. -/
structure Config where
  role : ServerRole
  peer_name : String
  network : NetworkConfig
  clipboard : ClipboardConfig
  file_transfer : FileTransferConfig
  layout : ScreenLayout
  emergency_hotkey : String
  log_dir : Option String
deriving DecidableEq

/-! ## The defaults

What a machine without a file starts with. -/

/-- The defaults of the source, value by value. -/
def NetworkConfig.default : NetworkConfig where
  listen := ⟨"0.0.0.0", 24800⟩
  connect := none
  heartbeat_interval_ms := 2000
  heartbeat_timeout_ms := 6000
  reconnect_initial_ms := 500
  reconnect_max_ms := 30000
  trusted_fingerprints := []

/-- Likewise; a hundred megabytes, everything synced. -/
def ClipboardConfig.default : ClipboardConfig where
  enabled := true
  max_bytes := 100 * 1024 * 1024
  sync_images := true
  sync_files := true

/-- Likewise; chunks of 64 kB, four at a time. -/
def FileTransferConfig.default : FileTransferConfig where
  enabled := true
  drop_dir := none
  chunk_size := 64 * 1024
  max_concurrent := 4
  compress := true

/-- `Config::default` on a machine of that name. -/
def Config.default (hostname : String) : Config where
  role := .Server
  peer_name := hostname
  network := .default
  clipboard := .default
  file_transfer := .default
  layout := .default
  emergency_hotkey := "Ctrl+Alt+Shift+Esc"
  log_dir := none

/-! ## As JSON

The same types on the IPC. Each is its fields under the names of the source, so that a
reader can compare the two. -/

/-- `Display` and `FromStr` of `SocketAddr`. -/
structure SocketText where
  to_string : SocketAddr → String
  parse : String → Option SocketAddr
  parse_to_string : ∀ addr, parse (to_string addr) = some addr

/-- The address, a colon and the port. -/
def SocketText.plain : SocketText where
  to_string addr := .ofList (addr.ip.toList ++ ':' :: Nat.toDigits 10 addr.port.toNat)
  parse s :=
    let port := (s.toList.reverse.takeWhile (· ≠ ':')).reverse
    match s.toList.reverse.dropWhile (· ≠ ':') with
    | ':' :: ip =>
      if port ≠ [] ∧ port.all Char.isDigit ∧ Nat.ofDigitChars 10 port 0 < 2 ^ 16 then
        some ⟨.ofList ip.reverse, .ofNat (Nat.ofDigitChars 10 port 0)⟩
      else none
    | _ => none
  parse_to_string addr := by
    have hdigit : ∀ c ∈ Nat.toDigits 10 addr.port.toNat, c.isDigit = true :=
      fun c hc => Json.isDigit_of_mem_digits hc
    have hcolon : ∀ c ∈ (Nat.toDigits 10 addr.port.toNat).reverse, decide (c ≠ ':') = true := by
      intro c hc
      refine decide_eq_true ?_
      rintro rfl
      exact absurd (hdigit _ (List.mem_reverse.mp hc)) (by decide)
    have hport := addr.port.toNat_lt
    simp only [String.toList_ofList, List.reverse_append, List.reverse_cons, List.append_assoc,
      List.takeWhile_append_of_pos hcolon, List.dropWhile_append_of_pos hcolon]
    simpa [Nat.toDigits_ne_nil, hport] using hdigit

namespace Serde

open Fields

/-- An address travels as its text. How it is printed and parsed belongs to the standard
library, which is a parameter. -/
def socket_addr (text : SocketText) : Serde SocketAddr :=
  string.via text.to_string text.parse text.parse_to_string

/-- `PathBuf`. -/
def path : Serde String := string

/-- In lower case. -/
def server_role : Serde ServerRole :=
  string.via
    (fun
      | .Server => "server"
      | .Client => "client")
    (fun
      | "server" => some .Server
      | "client" => some .Client
      | _ => none)
    (fun role => by cases role <;> rfl)

/-- A side by its name. -/
def edge_side : Serde EdgeSide :=
  string.via
    (fun
      | .Top => "Top"
      | .Bottom => "Bottom"
      | .Left => "Left"
      | .Right => "Right")
    (fun
      | "Top" => some .Top
      | "Bottom" => some .Bottom
      | "Left" => some .Left
      | "Right" => some .Right
      | _ => none)
    (fun side => by cases side <;> rfl)

def screen_id : Serde ScreenId := u32.via ScreenId.id (fun id => some ⟨id⟩) (fun _ => rfl)

/-- `ScreenInfo`. -/
def screen_info : Fields ["id", "name", "width", "height"] ScreenInfo :=
  ((field "id" screen_id).and ((field "name" string).and
    ((field "width" i32).and (field "height" i32)))).iso
    (fun s => (s.id, s.name, s.width, s.height))
    (fun (id, name, width, height) => { id, name, width, height })
    (fun _ => rfl)

/-- `Neighbour`: the source calls the fields `from` and `to`. -/
def neighbour : Fields ["from", "side", "to"] Neighbour :=
  ((field "from" screen_id).and ((field "side" edge_side).and (field "to" screen_id))).iso
    (fun n => (n.source, n.side, n.target))
    (fun (source, side, target) => { source, side, target })
    (fun _ => rfl)

/-- `ScreenLayout`. -/
def screen_layout : Fields ["screens", "neighbours"] ScreenLayout :=
  ((field "screens" screen_info.struct.list).and (field "neighbours" neighbour.struct.list)).iso
    (fun l => (l.screens, l.neighbours))
    (fun (screens, neighbours) => { screens, neighbours })
    (fun _ => rfl)

/-- `NetworkConfig`. -/
def network_config (text : SocketText) :
    Fields ["listen", "connect", "heartbeat_interval_ms", "heartbeat_timeout_ms",
      "reconnect_initial_ms", "reconnect_max_ms", "trusted_fingerprints"] NetworkConfig :=
  ((field "listen" (socket_addr text)).and
    ((optional "connect" (socket_addr text) (by rintro _ ⟨⟩)).and
    ((field "heartbeat_interval_ms" u64).and
    ((field "heartbeat_timeout_ms" u64).and
    ((field "reconnect_initial_ms" u64).and
    ((field "reconnect_max_ms" u64).and
    (field "trusted_fingerprints" string.list))))))).iso
    (fun n => (n.listen, n.connect, n.heartbeat_interval_ms, n.heartbeat_timeout_ms,
      n.reconnect_initial_ms, n.reconnect_max_ms, n.trusted_fingerprints))
    (fun (listen, connect, heartbeat_interval_ms, heartbeat_timeout_ms, reconnect_initial_ms,
        reconnect_max_ms, trusted_fingerprints) =>
      { listen, connect, heartbeat_interval_ms, heartbeat_timeout_ms, reconnect_initial_ms
        reconnect_max_ms, trusted_fingerprints })
    (fun _ => rfl)

/-- `ClipboardConfig`. -/
def clipboard_config :
    Fields ["enabled", "max_bytes", "sync_images", "sync_files"] ClipboardConfig :=
  ((field "enabled" bool).and ((field "max_bytes" u64).and
    ((field "sync_images" bool).and (field "sync_files" bool)))).iso
    (fun c => (c.enabled, c.max_bytes, c.sync_images, c.sync_files))
    (fun (enabled, max_bytes, sync_images, sync_files) =>
      { enabled, max_bytes, sync_images, sync_files })
    (fun _ => rfl)

/-- `FileTransferConfig`, whose directory may be left out. -/
def file_transfer_config :
    Fields ["enabled", "drop_dir", "chunk_size", "max_concurrent", "compress"]
      FileTransferConfig :=
  ((field "enabled" bool).and ((optional "drop_dir" path (by rintro _ ⟨⟩)).and
    ((field "chunk_size" u32).and ((field "max_concurrent" u32).and (field "compress" bool))))).iso
    (fun f => (f.enabled, f.drop_dir, f.chunk_size, f.max_concurrent, f.compress))
    (fun (enabled, drop_dir, chunk_size, max_concurrent, compress) =>
      { enabled, drop_dir, chunk_size, max_concurrent, compress })
    (fun _ => rfl)

/-- The whole configuration. -/
def config (text : SocketText) :
    Fields ["role", "peer_name", "network", "clipboard", "file_transfer", "layout",
      "emergency_hotkey", "log_dir"] Config :=
  ((field "role" server_role).and
    ((field "peer_name" string).and
    ((field "network" (network_config text).struct).and
    ((field "clipboard" clipboard_config.struct).and
    ((field "file_transfer" file_transfer_config.struct).and
    ((field "layout" screen_layout.struct).and
    ((field "emergency_hotkey" string).and
    (optional "log_dir" path (by rintro _ ⟨⟩))))))))).iso
    (fun c => (c.role, c.peer_name, c.network, c.clipboard, c.file_transfer, c.layout,
      c.emergency_hotkey, c.log_dir))
    (fun (role, peer_name, network, clipboard, file_transfer, layout, emergency_hotkey, log_dir) =>
      { role, peer_name, network, clipboard, file_transfer, layout, emergency_hotkey, log_dir })
    (fun _ => rfl)

end Serde

end InputSync
