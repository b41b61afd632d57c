/-
The configuration file (`Config::load`, `save` and `load_or_default` in
`crates/core/src/config.rs`) and what the daemon makes of it when it starts
(the beginning of `run` in `crates/daemon/src/app.rs`).

What is at the path is its bytes, or nothing. The TOML library is a parameter;
it is relied on to read back what it has written.
-/
import InputSync.Config
import InputSync.IpcLines
import InputSync.Pinning

set_option autoImplicit false

namespace InputSync

/-- `toml`: configurations that it writes it reads again. -/
structure Toml where
  to_string_pretty : Config → Option String
  from_str : String → Option Config
  from_str_to_string_pretty : ∀ cfg text, to_string_pretty cfg = some text →
    from_str text = some cfg

/-- A JSON text would do as well. -/
def Toml.of_json (json : SerdeJson) (text : SocketText) : Toml where
  to_string_pretty cfg := some (json.to_string ((Serde.config text).struct.ser cfg))
  from_str s := (json.from_str s).bind (Serde.config text).struct.de
  from_str_to_string_pretty cfg s h := by
    rw [← Option.some.inj h,
      json.from_str_to_string _ (((Serde.config text).struct.fits cfg).mono (Nat.le_of_ble_eq_true rfl))]
    exact (Serde.config text).struct.de_ser cfg

/-- What the program sees of its machine: the TOML library, where the file is,
and the name in the default configuration. -/
structure Machine where
  toml : Toml
  default_path : String
  hostname : String

/-- The errors of `Config::load`. -/
inductive ConfigError
  | ConfigMissing (path : String)
  | Io
  | TomlDe
deriving DecidableEq

variable (machine : Machine)

/-- `Config::load` on what is at the path. A file that is there can be read; of the
errors of `read_to_string` only its refusal of invalid UTF-8 has a counterpart here,
and `load_or_default` treats all of them alike. -/
def Config.load (file : Option (List UInt8)) : Except ConfigError Config :=
  match file with
  | none => .error (.ConfigMissing machine.default_path)
  | some bytes =>
    match String.fromUTF8? ⟨bytes.toArray⟩ with
    | none => .error .Io
    | some text =>
      match machine.toml.from_str text with
      | none => .error .TomlDe
      | some cfg => .ok cfg

/-- `load_or_default`: whatever goes wrong, the daemon starts with the defaults. -/
def Config.load_or_default (file : Option (List UInt8)) : Config :=
  match Config.load machine file with
  | .ok cfg => cfg
  | .error _ => .default machine.hostname

/-- What `Config::save` writes, if it gets that far. -/
def Config.save_text (cfg : Config) : Option (List UInt8) :=
  (machine.toml.to_string_pretty cfg).map utf8

/-- The arguments of `run` that override the file. -/
structure RunArgs where
  role_override : Option String
  listen_override : Option SocketAddr
  connect_override : Option SocketAddr
  pinned_fingerprints : List String

/-- As the GUI starts it. -/
def RunArgs.none : RunArgs := ⟨.none, .none, .none, []⟩

/-- Why the daemon does not start. -/
inductive RunError
  | config (e : ConfigError)
  | unknown_role (other : String)
deriving DecidableEq

/-- The overrides of `run`. -/
def RunArgs.override (args : RunArgs) (config : Config) : Except RunError Config :=
  let network :=
    { config.network with
      listen := args.listen_override.getD config.network.listen
      connect := args.connect_override.or config.network.connect
      trusted_fingerprints :=
        if args.pinned_fingerprints.isEmpty then config.network.trusted_fingerprints
        else args.pinned_fingerprints }
  match args.role_override with
  | .none => .ok { config with network }
  | some role =>
    match String.ofList (role.toList.map Char.toLower) with
    | "server" => .ok { config with network, role := .Server }
    | "client" => .ok { config with network, role := .Client }
    | other => .error (.unknown_role other)

/-- The configuration `run` goes on with. -/
def run_config (args : RunArgs) (file : Option (List UInt8)) : Except RunError Config :=
  match Config.load machine file with
  | .ok cfg => args.override cfg
  | .error (.ConfigMissing _) => args.override (.default machine.hostname)
  | .error e => .error (.config e)

/-- What `save` writes, `load` reads. The TOML library's round trip is a hypothesis,
carried by the machine. -/
theorem load_save_text (cfg : Config) (bytes : List UInt8)
    (h : cfg.save_text machine = some bytes) : Config.load machine (some bytes) = .ok cfg := by
  obtain ⟨text, htext, rfl⟩ := Option.map_eq_some_iff.mp h
  simp only [Config.load, fromUTF8_utf8, machine.toml.from_str_to_string_pretty cfg text htext]

/-- Without overrides a file that is there decides. -/
theorem run_config_none (bytes : List UInt8) (cfg : Config)
    (h : run_config machine .none (some bytes) = .ok cfg) :
    Config.load machine (some bytes) = .ok cfg := by
  unfold run_config at h
  split at h
  · rename_i c hload
    have hcfg : c = cfg := Except.ok.inj h
    rw [hload, hcfg]
  · rename_i path hload
    -- the file is there
    simp only [Config.load] at hload
    split at hload
    · cases hload
    · split at hload <;> cases hload
  · cases h

/-! ## A machine

A concrete library, so that the results about files can be run. -/

/-- The default configuration of a client. -/
def sample_config : Config := { Config.default "desk" with role := .Client }

/-- What `toml` writes for it. -/
def sample_toml : String :=
  "role = \"client\"\npeer_name = \"desk\"\nemergency_hotkey = \"Ctrl+Alt+Shift+Esc\"\n\n" ++
  "[network]\nlisten = \"0.0.0.0:24800\"\nheartbeat_interval_ms = 2000\n" ++
  "heartbeat_timeout_ms = 6000\nreconnect_initial_ms = 500\nreconnect_max_ms = 30000\n" ++
  "trusted_fingerprints = []\n\n" ++
  "[clipboard]\nenabled = true\nmax_bytes = 104857600\nsync_images = true\nsync_files = true\n\n" ++
  "[file_transfer]\nenabled = true\nchunk_size = 65536\nmax_concurrent = 4\ncompress = true\n\n" ++
  "[layout]\nscreens = []\nneighbours = []\n"

/-- A library that knows this configuration and its text. -/
def sample_machine : Machine where
  toml :=
    { to_string_pretty := fun cfg => if cfg = sample_config then some sample_toml else none
      from_str := fun text => if text = sample_toml then some sample_config else none
      from_str_to_string_pretty := by
        intro cfg text h
        split_ifs at h with hcfg
        cases h
        rw [if_pos rfl, hcfg] }
  default_path := "/home/desk/.config/inputsync/inputsync.toml"
  hostname := "desk"

end InputSync
