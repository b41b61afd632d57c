/-
The IPC server as a whole (`run` and `handle_request` in
`crates/daemon/src/ipc_server.rs`, `start_server` and `stop_server` in `app.rs`,
the transport in `crates/ipc/src/transport.rs`): the daemon's state, the
requests of any number of clients, and the bytes between them.

A handler takes the lock of the state for each of its sections: one for most
requests, two for a start (`check_start`, `record`), one and the teardown for a
stop. So the server is a `Service`, and what clients see of it is what its log
says (`served_in_order`).
-/
import InputSync.CommandOrder
import InputSync.JsonCut
import InputSync.Pinning
import InputSync.ServerLifecycle
import InputSync.Service

set_option autoImplicit false

namespace InputSync

/-! ## Lines that are cut off

A client may die in the middle of a line, and the transport then hands over what there
is. This section shows that the rest of the object is missed: the text is cut inside a
UTF-8 character or inside the object, and neither is a value. -/

/-- `serde_json`, which takes no part of an object's text for a value. -/
structure StrictJson extends SerdeJson where
  cut_off : ∀ es s t, (Json.obj es).Fits 127 → to_string (.obj es) = s ++ t → t ≠ "" →
    from_str s = none

/-- The parser of `Json` is as strict. -/
def StrictJson.compact : StrictJson where
  toSerdeJson := .compact
  cut_off es s t hfits h ht := by
    refine Json.parse_cut_off hfits (e := t.toList) ?_ ?_
    · have hlist := congrArg String.toList h
      rwa [String.toList_append, SerdeJson.compact, String.toList_ofList] at hlist
    · intro hnil
      exact ht (String.toList_injective hnil)

/-- The first character of a text is known by its bytes. -/
theorem encode_head {c d : Char} {a b : List UInt8}
    (h : String.utf8EncodeChar c ++ a = String.utf8EncodeChar d ++ b) : c = d := by
  have hdecode : ∀ (c : Char) (a : List UInt8), ByteArray.utf8DecodeChar?
      (String.utf8EncodeChar c ++ a).toByteArray 0 = some c := by
    intro c a
    rw [List.toByteArray_append]
    exact ByteArray.utf8DecodeChar?_utf8EncodeChar_append
  have hc := hdecode c a
  rw [h, hdecode d b] at hc
  exact (Option.some.inj hc).symm

/-- UTF-8 is a prefix code, character by character: the first byte says how many belong
to a character, so encodings can be prefixes of one another only as the texts are. -/
theorem encode_prefix (cs ds : List Char)
    (h : cs.flatMap String.utf8EncodeChar <+: ds.flatMap String.utf8EncodeChar) : cs <+: ds := by
  induction cs generalizing ds with
  | nil => exact List.nil_prefix
  | cons c cs ih =>
      obtain ⟨more, hmore⟩ := h
      cases ds with
      | nil =>
          rw [List.flatMap_cons, List.flatMap_nil, List.append_assoc] at hmore
          exact absurd (List.append_eq_nil_iff.mp hmore).1 String.utf8EncodeChar_ne_nil
      | cons d ds =>
          rw [List.flatMap_cons, List.flatMap_cons, List.append_assoc] at hmore
          obtain rfl := encode_head hmore
          exact (List.prefix_append_right_inj [c]).mpr (ih ds ⟨more, List.append_cancel_left hmore⟩)

/-- Bytes at the front of a text that are a text are the front of it. -/
theorem utf8_prefix {s text : String} (h : utf8 s <+: utf8 text) : ∃ t, text = s ++ t := by
  rw [← String.ofList_toList (s := s), ← String.ofList_toList (s := text), utf8_ofList,
    utf8_ofList] at h
  obtain ⟨more, hmore⟩ := encode_prefix _ _ h
  refine ⟨.ofList more, String.toList_injective ?_⟩
  rw [String.toList_append, String.toList_ofList, hmore]

/-- Bytes that decode are the encoding of what they decode to. -/
theorem utf8_of_fromUTF8 {bytes : List UInt8} {s : String}
    (h : String.fromUTF8? ⟨bytes.toArray⟩ = some s) : utf8 s = bytes := by
  unfold String.fromUTF8? at h
  split at h
  · cases h
    rfl
  · cases h

/-- Trimming the end takes a suffix off. -/
theorem trim_end_prefix (line : String) : ∃ w, line = trim_end line ++ w := by
  obtain ⟨w, hw⟩ := List.rdropWhile_prefix is_whitespace line.toList
  refine ⟨.ofList w, String.toList_injective ?_⟩
  rw [String.toList_append, trim_end, String.toList_ofList, String.toList_ofList, hw]

/-- An object has nothing to trim, as its last character is a brace. -/
theorem trim_end_brace {s : String} {body : List Char} (h : s.toList = '{' :: (body ++ ['}'])) :
    trim_end s = s := by
  have hbrace : ¬ is_whitespace '}' = true := by decide
  have hline : s.toList = ('{' :: body) ++ ['}'] := h
  rw [trim_end, hline, List.rdropWhile_concat_neg _ _ _ hbrace, ← hline, String.ofList_toList]

/-- **A line that was cut off** is no value, unless only its line feed is
missing. -/
theorem read_json_line_cut {α : Type} (json : StrictJson) (s : Serde α) (hdepth : s.depth ≤ 127)
    {val : α} {es : List (String × Json)} (hobj : s.ser val = .obj es) (k : Nat)
    (hk : k < (write_json_line json.toSerdeJson s val).length) :
    (read_json_line json.toSerdeJson s
        ((write_json_line json.toSerdeJson s val).take k)).toOption = none ∨
      (read_json_line json.toSerdeJson s
        ((write_json_line json.toSerdeJson s val).take k)).toOption = some (val, []) := by
  let text := json.to_string (s.ser val)
  have hline := newline_not_mem (json.no_control (s.ser val))
  have hfits : (s.ser val).Fits 127 := (s.fits val).mono hdepth
  have htake : (write_json_line json.toSerdeJson s val).take k = (utf8 text).take k := by
    rw [write_json_line, List.length_append, List.length_singleton] at hk
    rw [write_json_line, List.take_append_of_le_length (by omega)]
  have hnot : 0x0a ∉ (utf8 text).take k := fun hmem => hline (List.mem_of_mem_take hmem)
  have hread : read_line ((utf8 text).take k) = ((utf8 text).take k, []) := by
    have hall : ((utf8 text).take k).dropWhile (· ≠ 0x0a) = [] := by
      rw [List.dropWhile_eq_nil_iff]
      intro b hb
      refine decide_eq_true ?_
      rintro rfl
      exact hnot hb
    rw [read_line, hall]
  rw [htake, read_json_line, hread]
  dsimp only
  split_ifs
  · exact .inl rfl
  · split
    · exact .inl rfl
    · rename_i line hline
      have hutf := utf8_of_fromUTF8 hline
      obtain ⟨t, ht⟩ : ∃ t, text = line ++ t := by
        refine utf8_prefix ?_
        rw [hutf]
        exact List.take_prefix _ _
      by_cases hwhole : t = ""
      · -- all but the line feed
        right
        obtain rfl : text = line := by rw [ht, hwhole, String.append_empty]
        obtain ⟨body, hbody⟩ := json.braces es
        rw [← hobj] at hbody
        rw [trim_end_brace hbody, json.from_str_to_string _ hfits, Option.bind_some, s.de_ser]
        rfl
      · left
        obtain ⟨w, hw⟩ : ∃ w, line = trim_end line ++ w := trim_end_prefix line
        have hcut := json.cut_off es (trim_end line) (w ++ t) (by rw [← hobj]; exact hfits)
          (by rw [← String.append_assoc, ← hw, ← ht, ← hobj]) ?_
        · rw [hcut]
          rfl
        · intro hnil
          have hlist := congrArg String.toList hnil
          rw [String.toList_append] at hlist
          exact hwhole (String.toList_injective (List.append_eq_nil_iff.mp hlist).2)

section Lines

variable (json : StrictJson) {α : Type} (s : Serde α) (hdepth : s.depth ≤ 127)
  (hobj : ∀ a, ∃ es, s.ser a = .obj es)

/-- What is written as an object, as lines. -/
def StrictJson.lines : Lines α where
  write := write_json_line json.toSerdeJson s
  read bytes := (read_json_line json.toSerdeJson s bytes).toOption
  line a := ⟨_, rfl, newline_not_mem (json.no_control (s.ser a))⟩
  read_nil := rfl
  read_write a rest := by
    obtain ⟨es, hes⟩ := hobj a
    rw [read_write_json_line json.toSerdeJson s hdepth hes rest]
    rfl
  read_cut a k hk := by
    obtain ⟨es, hes⟩ := hobj a
    exact read_json_line_cut json s hdepth hes k hk

end Lines

/-- `write_request` and `read_request`. -/
def ipc_requests (json : StrictJson) (text : SocketText) : Lines IpcRequest :=
  json.lines (Serde.ipc_request text) (show 5 ≤ 127 by decide) (fun req => by
    obtain ⟨v, -, es, -, hobj⟩ := Serde.tagged_ser (Serde.ipc_request_table text) req
    exact ⟨_, hobj⟩)

/-- `write_response`, and `read_message` on what it writes. -/
def ipc_messages (json : StrictJson) (text : SocketText) : Lines IpcMessage :=
  json.lines (Serde.ipc_message text) (show 4 ≤ 127 by decide) (fun message => by
    cases message with
    | Response response =>
        obtain ⟨v, -, es, -, hobj⟩ := Serde.tagged_ser (Serde.ipc_response_table text) response
        exact ⟨_, hobj⟩
    | Event event =>
        obtain ⟨v, -, es, -, hobj⟩ := Serde.tagged_ser Serde.ipc_event_table event
        exact ⟨_, hobj⟩)

/-! ## The state of the daemon

`DaemonState` with all the fields a response shows. The part that concerns the server is
the `DaemonState` of the lifecycle, so the results there speak about the same fields. -/

/-- A `TrackedPeer` with all that is shown of it. Times are nanoseconds. -/
structure PeerRecord where
  peer_id : PeerId
  name : String
  remote_addr : String
  connected_at : Nat
  last_rtt_ms : UInt32
deriving DecidableEq

/-- `DaemonState`; of the client's controller, whether there is one. -/
structure RuntimeState where
  config : Config
  started : Nat
  capturing : Bool
  fingerprint : String
  peers : List PeerRecord
  client_controller : Bool
  client_base : Option ClientConfig
  server_controller : Option ServerController
  listening : Bool
  listen_addr : Option String
  server_factory : Option ServerFactory
deriving DecidableEq

/-- A uuid as `Display` shows it. -/
def PeerId.to_string (self : PeerId) : String :=
  let bytes := self.uuid.toList
  String.intercalate "-" [hex_encode (bytes.take 4), hex_encode ((bytes.drop 4).take 2),
    hex_encode ((bytes.drop 6).take 2), hex_encode ((bytes.drop 8).take 2),
    hex_encode (bytes.drop 10)]

/-- `format!("{:?}", role).to_lowercase()`. -/
def ServerRole.shown : ServerRole → String
  | .Server => "server"
  | .Client => "client"

/-- `Instant::elapsed` in whole seconds. -/
def elapsed_secs (since now : Nat) : UInt64 := .ofNat ((now - since) / 10 ^ 9)

namespace RuntimeState

/-- As `run` makes it, before it knows its role. -/
def new (config : Config) (started : Nat) (fingerprint : String) : RuntimeState :=
  { config, started, capturing := false, fingerprint, peers := [], client_controller := false
    client_base := none, server_controller := none, listening := false, listen_addr := none
    server_factory := none }

/-- The part that has to do with the server. -/
def server (self : RuntimeState) : DaemonState :=
  { capturing := self.capturing, listening := self.listening, listen_addr := self.listen_addr
    peers := self.peers.map (fun p => ⟨p.peer_id⟩), server_controller := self.server_controller
    server_factory := self.server_factory }

/-- What `GetStatus` answers. -/
def status (self : RuntimeState) (now : Nat) : StatusReply :=
  { version := "0.3.1"
    uptime_secs := elapsed_secs self.started now
    role := self.config.role.shown
    local_fingerprint := self.fingerprint
    connected_peers := self.peers.map (fun p =>
      { peer_id := p.peer_id.to_string, name := p.name, remote_addr := p.remote_addr
        connected_secs := elapsed_secs p.connected_at now, last_rtt_ms := p.last_rtt_ms })
    capturing := self.capturing
    listening := self.listening
    listen_addr := self.listen_addr }

/-- The write section of `start_server`. -/
def record (self : RuntimeState) (server : Nat) (local_addr : Option String) : RuntimeState :=
  { self with
    server_controller := some ⟨server⟩
    listening := true
    capturing := true
    listen_addr := local_addr }

/-- The write section of `stop_server`. -/
def clear (self : RuntimeState) : RuntimeState :=
  { self with
    listening := false
    capturing := false
    listen_addr := none
    peers := []
    server_controller := none }

end RuntimeState

/-! ## The handlers

`handle_request` by its lock sections. What a handler finds around it (the clock,
whether the bind succeeds) is an environment the step brings along. -/

/-- What `run` puts into the state once it knows its role. -/
inductive RoleSetup
  | server (factory : ServerFactory)
  | client (client_base : ClientConfig)

/-- The daemon runs as a client. -/
def RoleSetup.is_client : RoleSetup → Bool
  | .server _ => false
  | .client _ => true

/-- The daemon: its state, what `run` has still to put into it, and the commands
of the tasks that were spawned for Connect and Disconnect. -/
structure IpcDaemon where
  state : RuntimeState
  setup : Option RoleSetup
  dispatched : List ClientCommand

/-- What a handler finds around it. -/
structure IpcEnv where
  now : Nat
  resolve : String → Except String String
  bind : Except String (Option String)
  session : Nat

/-- What there is still to do of a request after its first section. -/
inductive IpcJob
  | start_bind
  | start_record (local_addr : Option String)
  | stop_teardown

/-- What other tasks do to the state. -/
inductive IpcOther
  | role_known
  | connected (peer : PeerRecord)
  | disconnected (peer_id : PeerId)

namespace IpcDaemon

/-- The daemon before it knows its role. -/
def new (config : Config) (started : Nat) (fingerprint : String) (setup : RoleSetup) : IpcDaemon :=
  ⟨.new config started fingerprint, some setup, []⟩

/-- `handle_connect`. -/
def handle_connect (self : IpcDaemon) (env : IpcEnv) (addr : String)
    (fingerprint : Option String) : IpcDaemon × IpcResponse :=
  match env.resolve addr with
  | .error e => (self, .Error ("invalid address '" ++ addr ++ "': " ++ e))
  | .ok target =>
    match self.state.client_controller, self.state.client_base with
    | true, some client_base =>
      let cfg := { client_base with server_addr := target }
      let cfg :=
        match fingerprint with
        | some fp =>
          let fp := trim fp
          if fp.isEmpty then cfg else { cfg with trusted_fingerprints := [fp] }
        | none => cfg
      ({ self with dispatched := self.dispatched ++ [.Dial cfg] }, .Ok)
    | _, _ => (self, .Error "daemon is not running as a client; cannot connect")

/-- `handle_request`, up to the end of its first section. -/
def handle_request (self : IpcDaemon) (env : IpcEnv) :
    IpcRequest → IpcDaemon × Turn IpcJob IpcResponse
  | .GetStatus => (self, .answer (.Status (self.state.status env.now)))
  | .GetConfig => (self, .answer (.Config self.state.config))
  | .UpdateConfig config => ({ self with state := { self.state with config } }, .answer .Ok)
  | .Connect addr fingerprint =>
    let r := self.handle_connect env addr fingerprint
    (r.1, .answer r.2)
  | .Disconnect _ =>
    if self.state.client_controller then
      ({ self with dispatched := self.dispatched ++ [.HangUp] }, .answer .Ok)
    else (self, .answer (.Error "not running as a client; nothing to disconnect"))
  | .StartServer =>
    match self.state.server.check_start with
    | .ok _ => (self, .go_on .start_bind)
    | .error message => (self, .answer (.Error message))
  | .StopServer =>
    ({ self with state := self.state.clear },
      if self.state.server_controller.isSome then .go_on .stop_teardown else .answer .Ok)
  | .EmergencyStop =>
    ({ self with state := { self.state with capturing := false } }, .answer .Ok)
  | .SubscribeEvents => (self, .answer (.Error "event streaming not yet implemented"))
  | .GetLogs _ => (self, .answer (.Logs []))
  | .Shutdown => (self, .exit)

/-- The rest of `start_server` and of `stop_server`. -/
def handle_job (self : IpcDaemon) (env : IpcEnv) : IpcJob → IpcDaemon × Turn IpcJob IpcResponse
  | .start_bind =>
    match env.bind with
    | .error e => (self, .answer (.Error ("bind quic server: " ++ e)))
    | .ok local_addr => (self, .go_on (.start_record local_addr))
  | .start_record local_addr =>
    ({ self with state := self.state.record env.session local_addr }, .answer .Ok)
  | .stop_teardown => (self, .answer .Ok)

/-- What the other tasks do to the state. -/
def other (self : IpcDaemon) : IpcOther → IpcDaemon
  | .role_known =>
    match self.setup with
    | some (.server factory) =>
      { self with state := { self.state with server_factory := some factory }, setup := none }
    | some (.client client_base) =>
      { self with
        state := { self.state with client_controller := true, client_base := some client_base }
        setup := none }
    | none => self
  | .connected peer => { self with state := { self.state with peers := self.state.peers ++ [peer] } }
  | .disconnected peer_id =>
    { self with
      state := { self.state with peers := self.state.peers.filter (fun p => p.peer_id ≠ peer_id) } }

end IpcDaemon

/-- The IPC server. What a handler writes is a response. -/
def ipc_service : Service IpcDaemon IpcEnv IpcRequest IpcJob IpcMessage IpcOther where
  first self env req :=
    ((self.handle_request env req).1, (self.handle_request env req).2.map .Response)
  more self env job := ((self.handle_job env job).1, (self.handle_job env job).2.map .Response)
  other := IpcDaemon.other

/-- `run` and its clients. -/
abbrev IpcRun := ServiceRun IpcDaemon IpcEnv IpcRequest IpcJob IpcMessage IpcOther

abbrev IpcStep := ServiceStep IpcEnv IpcRequest IpcOther

/-- One step of the server, its clients or the bytes between them. -/
def IpcRun.step (json : StrictJson) (text : SocketText) (self : IpcRun) :
    IpcStep → Option IpcRun :=
  ServiceRun.step ipc_service (ipc_requests json text) (ipc_messages json text) self

/-- A request nothing comes between, with its answer. -/
def IpcRun.round (json : StrictJson) (text : SocketText) (i : Nat) (req : IpcRequest)
    (env : IpcEnv) (response : IpcResponse) : List IpcStep :=
  ServiceRun.round (ipc_requests json text) (ipc_messages json text) i req env (.Response response)

/-- `ServiceRun.exec_round` at the IPC server, whose answers are responses. Runs
on given requests are made of such rounds. -/
theorem IpcRun.exec_round (json : StrictJson) (text : SocketText) {self : IpcRun} {i : Nat}
    {sent : List (IpcRequest × Nat)} {received : List (IpcMessage × Nat)}
    (hc : self.conns[i]? = some ⟨sent, [], [], false, .reading, [], received⟩) (req : IpcRequest)
    (env : IpcEnv) {state : IpcDaemon} {response : IpcResponse}
    (hfirst : self.state.handle_request env req = (state, .answer response)) :
    exec (step json text) self (round json text i req env response) = some { self with
      state
      conns := self.conns.set i ⟨sent ++ [(req, self.log.length)], [], [], false, .reading, [],
        received ++ [(.Response response, self.log.length + 1)]⟩
      log := self.log ++ [(some i, .first env req)] } := by
  apply ServiceRun.exec_round ipc_service (ipc_requests json text) (ipc_messages json text) hc
  simp only [ipc_service, hfirst, Turn.map]

/-! ## What the clients see

The instances of the general results about services. -/

namespace IpcRun

/-- What connection `i` was answered. -/
theorem answers_are_responses (start : IpcDaemon)
    (log : List (Option Nat × Piece IpcEnv IpcRequest IpcJob IpcOther)) (i : Nat) :
    ∀ m ∈ ipc_service.answers start log i, ∃ response, m = .Response response := by
  -- a piece answers through `IpcMessage.Response`, or not at all
  have hplay : ∀ (s : IpcDaemon) (piece : Piece IpcEnv IpcRequest IpcJob IpcOther), ∀ m ∈
      (ipc_service.play s piece).2.filterMap Turn.answered, ∃ response, m = .Response response := by
    have hmessage : ∀ turn : Turn IpcJob IpcResponse, ∀ m ∈ [turn.map IpcMessage.Response].filterMap Turn.answered,
        ∃ response, m = .Response response := by
      intro turn m hm
      cases turn with
      | answer response => exact ⟨response, List.mem_singleton.mp hm⟩
      | go_on job => cases hm
      | exit => cases hm
    intro s piece m hm
    cases piece with
    | first env req => exact hmessage _ m hm
    | more env job => exact hmessage _ m hm
    | other event => cases hm
  -- piece by piece from the end of the log
  induction log using List.reverseRecOn with
  | nil => rintro m ⟨⟩
  | append_singleton log it ih =>
      obtain ⟨tag, piece⟩ := it
      by_cases htag : tag = some i
      · subst htag
        rw [answers_concat]
        intro m hm
        rcases List.mem_append.mp hm with hm | hm
        · exact ih m hm
        · exact hplay _ piece m hm
      · rw [answers_other ipc_service start log piece htag]
        exact ih

/-- **Served in order.** However the bytes go, whenever clients come and die, and
whatever the sections of their requests do in between: the log of the sections,
played one after the other, makes the state. On every connection the requests
handled are the first ones sent, in order and each at most once, and the client
has received the first of the answers to them, each a response and no more of
them than it has sent requests. A request is handled after it was sent and
answered before the answer is received, across all connections. After a Shutdown
nothing is handled. -/
theorem served_in_order (json : StrictJson) (text : SocketText) (start : IpcDaemon)
    (steps : List IpcStep) (last : IpcRun)
    (hrun : exec (IpcRun.step json text) (ServiceRun.new start) steps = some last) :
    (ipc_service.replay start last.log).1 = last.state ∧
      (∀ i c, last.conns[i]? = some c →
        requests last.log i <+: c.sent.map Prod.fst ∧
        c.received.map Prod.fst <+: ipc_service.answers start last.log i ∧
        (∀ m ∈ c.received, ∃ response, m.1 = .Response response) ∧
        c.received.length ≤ c.sent.length ∧
        Timely ipc_service start last.log i c) ∧
      ∀ pre tag env post, last.log = pre ++ (tag, .first env .Shutdown) :: post →
        post = [] ∧ last.exited = true := by
  have h := ServiceRun.linear_run ipc_service _ _ start steps last hrun
  refine ⟨h.replay, ?_, ?_⟩
  · intro i c hc
    have horderly := h.orderly i c hc
    obtain ⟨unhandled, hsent, -⟩ := horderly.sent
    obtain ⟨unread, hans, -⟩ := horderly.received
    have hreceived : c.received.map Prod.fst <+: ipc_service.answers start last.log i := by
      rw [hans]
      exact List.prefix_append _ _
    -- what was handled is a beginning of what was sent, and what was received one of
    -- what was answered; the counts follow
    refine ⟨?_, hreceived, ?_, ?_, h.timely i c hc⟩
    · rw [hsent]
      exact List.prefix_append _ _
    · intro m hm
      exact answers_are_responses start last.log i m.1
        (hreceived.subset (List.mem_map_of_mem hm))
    · have hle := hreceived.length_le
      have hanswered := horderly.answered.1
      have hlen := congrArg List.length hsent
      rw [List.length_map] at hle
      rw [List.length_map, List.length_append] at hlen
      omega
  · intro pre tag env post hsplit
    exact h.last pre tag _ post hsplit (List.mem_singleton_self _)

/-- A stop between the sections of a start, and a shutdown. -/
theorem served_in_order_two :
    let env : IpcEnv := ⟨0, fun _ => .error "", .ok (some "0.0.0.0:24800"), 0⟩
    let steps : List IpcStep :=
      [.other .role_known, .accept, .accept, .send 0 .StartServer, .write 0 40, .read 0 env,
        .send 1 .StopServer, .write 1 3, .write 1 40, .read 1 env, .work 0 env, .respond 1 40,
        .work 0 env, .receive 1, .respond 0 40, .send 1 .Shutdown, .write 1 40, .read 1 env,
        .receive 0]
    let start := IpcDaemon.new (.default "desk") 0 "ab" (.server ⟨[], []⟩)
    ∃ last, exec (IpcRun.step .compact .plain) (ServiceRun.new start) steps = some last ∧
      (ipc_service.replay start last.log).1 = last.state ∧
      (∀ i c, last.conns[i]? = some c →
        requests last.log i <+: c.sent.map Prod.fst ∧
        c.received.map Prod.fst <+: ipc_service.answers start last.log i ∧
        (∀ m ∈ c.received, ∃ response, m.1 = .Response response) ∧
        c.received.length ≤ c.sent.length ∧
        Timely ipc_service start last.log i c) ∧
      ∀ pre tag env post, last.log = pre ++ (tag, .first env .Shutdown) :: post →
        post = [] ∧ last.exited = true := by
  intro env steps start
  have hrun : (exec (IpcRun.step .compact .plain) (ServiceRun.new start) steps).isSome := by
    dsimp only [steps, start, env]
    decide +kernel
  obtain ⟨last, hlast⟩ := Option.isSome_iff_exists.mp hrun
  exact ⟨last, hlast, served_in_order .compact .plain start steps last hlast⟩

/-- **At rest every request is answered.** On a connection whose client is there
and has written what it sent, with the process still running: once neither the
handler nor the client can do anything, every request has been handled and its
answer received. -/
theorem answered_at_rest (json : StrictJson) (text : SocketText) (start : IpcDaemon)
    (steps : List IpcStep) (last : IpcRun)
    (hrun : exec (IpcRun.step json text) (ServiceRun.new start) steps = some last)
    (i : Nat) (c : Conn IpcRequest IpcJob IpcMessage) (hc : last.conns[i]? = some c)
    (hopen : c.closed = false) (halive : last.exited = false) (hwritten : c.unwritten = [])
    (hread : ∀ env, IpcRun.step json text last (.read i env) = none)
    (hwork : ∀ env, IpcRun.step json text last (.work i env) = none)
    (hrespond : ∀ n, IpcRun.step json text last (.respond i n) = none)
    (hreceive : IpcRun.step json text last (.receive i) = none) :
    requests last.log i = c.sent.map Prod.fst ∧
      c.received.map Prod.fst = ipc_service.answers start last.log i ∧
      c.received.length = c.sent.length := by
  have h := ServiceRun.linear_run ipc_service _ _ start steps last hrun
  let env : IpcEnv := ⟨0, fun _ => .error "", .error "", 0⟩
  exact h.settled hc hopen halive hwritten env (hread env) (hwork env) (hrespond 0) hreceive

/-- A stop, handled and answered. -/
def sample_stop : List IpcStep :=
  [.accept, .send 0 .StopServer, .write 0 3, .write 0 40,
    .read 0 ⟨0, fun _ => .error "", .error "", 0⟩, .respond 0 40, .receive 0]

/-- The client may ask again. -/
theorem answered_at_rest_one :
    ∃ last c, exec (IpcRun.step .compact .plain) (ServiceRun.new
        (.new (.default "desk") 0 "ab" (.client ⟨"0.0.0.0:0", []⟩))) sample_stop = some last ∧
      last.conns[0]? = some c ∧ requests last.log 0 = c.sent.map Prod.fst ∧
      c.received.map Prod.fst = ipc_service.answers
        (.new (.default "desk") 0 "ab" (.client ⟨"0.0.0.0:0", []⟩)) last.log 0 ∧
      c.received.length = c.sent.length := by
  have hrun : (exec (IpcRun.step .compact .plain) (ServiceRun.new
    (.new (.default "desk") 0 "ab" (.client ⟨"0.0.0.0:0", []⟩))) sample_stop).isSome := by
    decide +kernel
  obtain ⟨last, hlast, hconn, halive⟩ : ∃ last, exec (IpcRun.step .compact .plain) (ServiceRun.new
      (.new (.default "desk") 0 "ab" (.client ⟨"0.0.0.0:0", []⟩))) sample_stop = some last ∧
      last.conns[0]? = some ⟨[(.StopServer, 0)], [], [], false, .reading, [],
        [(.Response .Ok, 1)]⟩ ∧ last.exited = false :=
    ⟨_, (Option.some_get hrun).symm, by rfl, by rfl⟩
  refine ⟨last, _, hlast, hconn, answered_at_rest .compact .plain _ sample_stop last hlast 0 _ hconn
    rfl halive rfl ?_ ?_ ?_ ?_⟩
  -- nothing under way: each task in turn has nothing to do
  · intro env
    simp [IpcRun.step, ServiceRun.step, hconn]
  · intro env
    simp [IpcRun.step, ServiceRun.step, hconn]
  · intro n
    simp [IpcRun.step, ServiceRun.step, ServiceRun.on, hconn]
  · simp [IpcRun.step, ServiceRun.step, ServiceRun.on, hconn]

end IpcRun

/-! ## The role of a daemon

The state has the fields of both roles, and nothing in its type keeps them apart. That
they never mix is an invariant of the pieces of work. -/

/-- What a status says of a daemon that was started in a role. -/
def StatusReply.InRole (role : RoleSetup) (fingerprint : String) (reply : StatusReply) : Prop :=
  reply.local_fingerprint = fingerprint ∧
  (reply.listening = false → reply.capturing = false ∧ reply.listen_addr = none) ∧
  (role.is_client = true → reply.listening = false)

namespace IpcDaemon

/-- A daemon that was started in a role: the fields of the server go together,
and those of the other role stay as they were. -/
structure InRole (role : RoleSetup) (fingerprint : String) (d : IpcDaemon) : Prop where
  fingerprint : d.state.fingerprint = fingerprint
  listening : d.state.listening = d.state.server_controller.isSome
  idle : d.state.listening = false → d.state.capturing = false ∧ d.state.listen_addr = none
  setup : d.setup = some role ∨ d.setup = none
  server : role.is_client = false → d.state.client_controller = false ∧ d.dispatched = []
  client : role.is_client = true →
    d.state.server_factory = none ∧ d.state.server_controller = none

namespace InRole

variable {role : RoleSetup} {fingerprint : String} {d : IpcDaemon}
  (h : InRole role fingerprint d) (env : IpcEnv)
include h

/-- What a daemon in its role answers to GetStatus. -/
theorem status (now : Nat) : (d.state.status now).InRole role fingerprint := by
  refine ⟨h.fingerprint, h.idle, ?_⟩
  intro hclient
  have hlistening := h.listening
  rwa [(h.client hclient).2] at hlistening

/-- A Connect is refused, or spawns a task. Neither touches a field the role speaks of,
and the answer is no status. -/
theorem handle_connect (addr : String) (fp : Option String) :
    InRole role fingerprint (d.handle_connect env addr fp).1 ∧
      ∀ reply, (d.handle_connect env addr fp).2 ≠ .Status reply := by
  unfold IpcDaemon.handle_connect
  split
  · exact ⟨h, by rintro reply ⟨⟩⟩
  · split
    · rename_i hcontroller _
      refine ⟨{ h with server := ?_ }, by rintro reply ⟨⟩⟩
      intro hserver
      rw [(h.server hserver).1] at hcontroller
      cases hcontroller
    · exact ⟨h, by rintro reply ⟨⟩⟩

/-- The first section of a request keeps it; only a server has more to do. -/
theorem handle_request (req : IpcRequest) :
    InRole role fingerprint (d.handle_request env req).1 ∧
      (d.handle_request env req).2.Meets (fun _ => role.is_client = false) (fun response =>
        ∀ reply, response = .Status reply → reply.InRole role fingerprint) := by
  cases req with
  | GetStatus =>
      refine ⟨h, ?_⟩
      rintro reply ⟨⟩
      exact h.status env.now
  | GetConfig => exact ⟨h, by rintro reply ⟨⟩⟩
  | UpdateConfig config => exact ⟨{ h with }, by rintro reply ⟨⟩⟩
  | Connect addr fp =>
      obtain ⟨hnext, hreply⟩ := h.handle_connect env addr fp
      exact ⟨hnext, fun reply heq => absurd heq (hreply reply)⟩
  | Disconnect peer =>
      simp only [IpcDaemon.handle_request]
      split_ifs with hcontroller
      · refine ⟨{ h with server := ?_ }, by rintro reply ⟨⟩⟩
        intro hserver
        rw [(h.server hserver).1] at hcontroller
        cases hcontroller
      · exact ⟨h, by rintro reply ⟨⟩⟩
  | StartServer =>
      simp only [IpcDaemon.handle_request]
      split
      · rename_i hcheck
        refine ⟨h, ?_⟩
        -- only a server has a factory
        refine Bool.eq_false_iff.mpr fun hclient => ?_
        obtain ⟨hfactory, hcontroller⟩ := h.client hclient
        simp [DaemonState.check_start, RuntimeState.server, hfactory, hcontroller] at hcheck
      · exact ⟨h, by rintro reply ⟨⟩⟩
  | StopServer =>
      refine ⟨⟨h.fingerprint, rfl, fun _ => ⟨rfl, rfl⟩, h.setup, h.server,
        fun hclient => ⟨(h.client hclient).1, rfl⟩⟩, ?_⟩
      simp only [IpcDaemon.handle_request]
      split_ifs with hsome
      · refine Bool.eq_false_iff.mpr fun hclient => ?_
        rw [(h.client hclient).2] at hsome
        cases hsome
      · rintro reply ⟨⟩
  | EmergencyStop =>
      refine ⟨{ h with idle := ?_ }, by rintro reply ⟨⟩⟩
      exact fun hidle => ⟨rfl, (h.idle hidle).2⟩
  | SubscribeEvents => exact ⟨h, by rintro reply ⟨⟩⟩
  | GetLogs tail => exact ⟨h, by rintro reply ⟨⟩⟩
  | Shutdown => exact ⟨h, trivial⟩

/-- So does the rest of a start or a stop, on a server. -/
theorem handle_job (job : IpcJob) (hserver : role.is_client = false) :
    InRole role fingerprint (d.handle_job env job).1 ∧
      (d.handle_job env job).2.Meets (fun _ => role.is_client = false) (fun response =>
        ∀ reply, response = .Status reply → reply.InRole role fingerprint) := by
  cases job with
  | start_bind =>
      simp only [IpcDaemon.handle_job]
      split
      · exact ⟨h, by rintro reply ⟨⟩⟩
      · exact ⟨h, hserver⟩
  | start_record local_addr =>
      refine ⟨⟨h.fingerprint, rfl, by rintro ⟨⟩, h.setup, h.server, ?_⟩, by rintro reply ⟨⟩⟩
      intro hclient
      rw [hserver] at hclient
      cases hclient
  | stop_teardown => exact ⟨h, by rintro reply ⟨⟩⟩

/-- What other tasks do to the state keeps it: `run` fills in the fields of its role
once it knows it, and the peers come and go. -/
theorem other (event : IpcOther) : InRole role fingerprint (d.other event) := by
  -- the role becomes known as what it was at the start; the other events do not touch
  -- it
  cases event with
  | role_known =>
      simp only [IpcDaemon.other]
      split
      · rename_i factory hsetup
        obtain rfl : role = .server factory := by
          rcases h.setup with hrole | hrole
          · rw [hsetup] at hrole
            exact (Option.some.inj hrole).symm
          · rw [hsetup] at hrole
            cases hrole
        exact ⟨h.fingerprint, h.listening, h.idle, .inr rfl, h.server, by rintro ⟨⟩⟩
      · rename_i client_base hsetup
        obtain rfl : role = .client client_base := by
          rcases h.setup with hrole | hrole
          · rw [hsetup] at hrole
            exact (Option.some.inj hrole).symm
          · rw [hsetup] at hrole
            cases hrole
        exact ⟨h.fingerprint, h.listening, h.idle, .inr rfl, by rintro ⟨⟩, h.client⟩
      · exact h
  | connected peer => exact { h with }
  | disconnected peer_id => exact { h with }

end InRole

/-- The state is made before the role is known, with the fields of both roles empty. -/
theorem inRole_new (config : Config) (started : Nat) (fingerprint : String) (role : RoleSetup) :
    InRole role fingerprint (new config started fingerprint role) :=
  ⟨rfl, rfl, fun _ => ⟨rfl, rfl⟩, .inl rfl, fun _ => ⟨rfl, rfl⟩, fun _ => ⟨rfl, rfl⟩⟩

/-- A sound answer: if it is a status, one of the role. -/
def Sound (role : RoleSetup) (fingerprint : String) (message : IpcMessage) : Prop :=
  ∀ reply, message = .Response (.Status reply) → reply.InRole role fingerprint

/-- The contract of the service, from the lemmas about its pieces. A job is only ever
left by a server. -/
theorem keeps_role (role : RoleSetup) (fingerprint : String) :
    ipc_service.Keeps (InRole role fingerprint) (fun _ => role.is_client = false)
      (Sound role fingerprint) := by
  -- wrapping an answer as a message changes nothing about it
  have hmessage : ∀ turn : Turn IpcJob IpcResponse,
      turn.Meets (fun _ => role.is_client = false) (fun response =>
        ∀ reply, response = .Status reply → reply.InRole role fingerprint) →
      (turn.map IpcMessage.Response).Meets (fun _ => role.is_client = false) (Sound role fingerprint) := by
    intro turn hturn
    cases turn with
    | answer response =>
        rintro reply ⟨⟩
        exact hturn reply rfl
    | go_on job => exact hturn
    | exit => trivial
  refine ⟨?_, ?_, fun d event h => h.other event⟩
  · intro d env req h
    obtain ⟨hnext, hmeets⟩ := h.handle_request env req
    exact ⟨hnext, hmessage _ hmeets⟩
  · intro d env job h hserver
    obtain ⟨hnext, hmeets⟩ := h.handle_job env job hserver
    exact ⟨hnext, hmessage _ hmeets⟩

/-- **One role for life.** Whatever any number of clients ask for and however
their requests run into each other, UpdateConfig with another role among them:
every status a client receives has the daemon's fingerprint, shows neither
capture nor address without listening, and no listening on a client. A server
never dispatches a dial or a hang-up, and a client never has a server to stop. -/
theorem one_role_for_life (json : StrictJson) (text : SocketText) (config : Config) (started : Nat)
    (fingerprint : String) (role : RoleSetup) (steps : List IpcStep) (last : IpcRun)
    (hrun : exec (IpcRun.step json text) (ServiceRun.new (new config started fingerprint role))
      steps = some last) :
    (∀ c ∈ last.conns, ∀ m ∈ c.received, ∀ reply, m.1 = .Response (.Status reply) →
      reply.InRole role fingerprint) ∧
    (role.is_client = false → last.state.dispatched = []) ∧
    (role.is_client = true → last.state.state.server_controller = none) := by
  obtain ⟨hlast, -, hsound⟩ := ServiceRun.keeps_run (keeps_role role fingerprint)
    (inRole_new config started fingerprint role) steps last hrun
  refine ⟨?_, fun hserver => (hlast.server hserver).2, fun hclient => (hlast.client hclient).2⟩
  intro c hc m hm reply hreply
  obtain ⟨i, hi⟩ := List.mem_iff_getElem?.mp hc
  have horderly := (ServiceRun.linear_run ipc_service _ _ _ steps last hrun).orderly i c hi
  obtain ⟨unread, hans, -⟩ := horderly.received
  refine hsound i m.1 ?_ reply hreply
  rw [hans]
  exact List.mem_append_left _ (List.mem_map_of_mem hm)

/-- A client daemon is given the configuration of a server and asked to start one. It
does not, and the status the second client receives shows the new role of a daemon
that is what it was. -/
theorem one_role_for_life_client :
    let env : IpcEnv := ⟨0, fun _ => .error "", .ok none, 0⟩
    let config : Config := { Config.default "desk" with role := .Client }
    let status : StatusReply := 
      ⟨"0.3.1", elapsed_secs 0 0, "server", "ab", [], false, false, none⟩
    let steps : List IpcStep := [.other .role_known, .accept, .accept] ++
      (IpcRun.round .compact .plain 0 (.UpdateConfig { config with role := .Server }) env .Ok ++
        (IpcRun.round .compact .plain 0 .StartServer env
            (.Error "daemon is not running as a server") ++
          IpcRun.round .compact .plain 1 .GetStatus env (.Status status)))
    let role : RoleSetup := .client ⟨"0.0.0.0:0", []⟩
    ∃ last, exec (IpcRun.step .compact .plain) (ServiceRun.new (new config 0 "ab" role)) steps
        = some last ∧
      last.conns.map (fun c => c.received.map Prod.fst)
        = [[.Response .Ok, .Response (.Error "daemon is not running as a server")],
          [.Response (.Status status)]] ∧
      status.InRole role "ab" ∧ last.state.state.server_controller = none := by
  intro env config status steps role
  let client : IpcDaemon := (new config 0 "ab" role).other .role_known
  let opened : IpcRun := ⟨client, false, [.new, .new], [(none, .other .role_known)]⟩
  have hopen : exec (IpcRun.step .compact .plain) (ServiceRun.new (new config 0 "ab" role))
      [.other .role_known, .accept, .accept] = some opened := rfl
  have hset := IpcRun.exec_round .compact .plain
    (show opened.conns[0]? = some .new from rfl) (.UpdateConfig { config with role := .Server }) env
    rfl
  have hrun : ∃ last, exec (IpcRun.step .compact .plain)
      (ServiceRun.new (new config 0 "ab" role)) steps = some last ∧
      last.conns.map (fun c => c.received.map Prod.fst)
        = [[.Response .Ok, .Response (.Error "daemon is not running as a server")],
          [.Response (.Status status)]] := by
    rw [exec_append, hopen, Option.bind_some, exec_append, hset, Option.bind_some, exec_append,
      IpcRun.exec_round .compact .plain rfl .StartServer env rfl, Option.bind_some]
    exact ⟨_, IpcRun.exec_round .compact .plain rfl .GetStatus env rfl, rfl⟩
  obtain ⟨last, hlast, hreceived⟩ := hrun
  obtain ⟨hstatus, -, hcontroller⟩ :=
    one_role_for_life .compact .plain config 0 "ab" role steps last hlast
  refine ⟨last, hlast, hreceived, ?_, hcontroller rfl⟩
  -- the status is what the second client received
  have hsecond : [IpcMessage.Response (.Status status)]
      ∈ last.conns.map (fun c => c.received.map Prod.fst) := by
    rw [hreceived]
    exact List.mem_cons_of_mem _ List.mem_cons_self
  obtain ⟨c, hc, hmap⟩ := List.mem_map.mp hsecond
  obtain ⟨m, hm, hfst⟩ := List.mem_map.mp (hmap ▸ List.mem_singleton_self _ :
    IpcMessage.Response (.Status status) ∈ c.received.map Prod.fst)
  exact hstatus c hc m hm status hfst

end IpcDaemon

/-! ## What UpdateConfig does

Two services are compared: the daemon's, and one that answers an UpdateConfig and
forgets it. They go through the same states but for the configuration. -/

/-- The IPC server, if it answered an UpdateConfig and forgot it. -/
def forgetful : Service IpcDaemon IpcEnv IpcRequest IpcJob IpcMessage IpcOther where
  first self env
    | .UpdateConfig _ => (self, .answer (.Response .Ok))
    | req => ipc_service.first self env req
  more := ipc_service.more
  other := ipc_service.other

/-- A message without what it shows of the configuration. -/
def IpcMessage.blind : IpcMessage → IpcMessage
  | .Response (.Config _) => .Response (.Config (.default ""))
  | .Response (.Status reply) => .Response (.Status { reply with role := "" })
  | message => message

/-- The turns of a log, without what they show of the configuration. -/
def blind_turns (turns : List (Option Nat × Turn IpcJob IpcMessage)) :
    List (Option Nat × Turn IpcJob IpcMessage) :=
  turns.map (fun t => (t.1, t.2.map IpcMessage.blind))

/-- The configurations that were set. -/
def updates (log : List (Option Nat × Piece IpcEnv IpcRequest IpcJob IpcOther)) : List Config :=
  log.filterMap (fun it =>
    match it.2 with
    | .first _ (.UpdateConfig config) => some config
    | _ => none)

/-- The configurations that were set, in a log that goes on. -/
theorem updates_append (log more : List (Option Nat × Piece IpcEnv IpcRequest IpcJob IpcOther)) :
    updates (log ++ more) = updates log ++ updates more := List.filterMap_append

/-- The same daemon with another configuration. -/
def IpcDaemon.with_config (self : IpcDaemon) (config : Config) : IpcDaemon :=
  { self with state := { self.state with config } }

namespace IpcDaemon

variable (d : IpcDaemon) (config : Config) (env : IpcEnv)

/-- A Connect does the same under any configuration: it takes its address from the
request. -/
theorem handle_connect_with_config (addr : String) (fp : Option String) :
    (d.with_config config).handle_connect env addr fp
      = ((d.handle_connect env addr fp).1.with_config config, (d.handle_connect env addr fp).2) := by
  simp only [handle_connect, with_config]
  split
  · rfl
  · split <;> rfl

/-- No other request changes the configuration, or looks at it but to show it. -/
theorem first_with_config (req : IpcRequest) (hreq : ∀ c, req ≠ .UpdateConfig c) :
    (ipc_service.first (d.with_config config) env req).1
        = (ipc_service.first d env req).1.with_config config ∧
      (ipc_service.first (d.with_config config) env req).2.map IpcMessage.blind
        = (ipc_service.first d env req).2.map IpcMessage.blind ∧
      (ipc_service.first d env req).1.state.config = d.state.config := by
  -- only `UpdateConfig` and `GetConfig` look at the configuration, and the second only
  -- to show it
  cases req with
  | UpdateConfig c => exact absurd rfl (hreq c)
  | Connect addr fp =>
      simp only [ipc_service, handle_request, handle_connect_with_config]
      refine ⟨trivial, trivial, ?_⟩
      unfold handle_connect
      split
      · rfl
      · split <;> rfl
  | Disconnect peer =>
      simp only [ipc_service, handle_request, with_config]
      split_ifs <;> exact ⟨rfl, rfl, rfl⟩
  | StartServer =>
      have hcheck : (d.with_config config).state.server.check_start = d.state.server.check_start :=
        rfl
      simp only [ipc_service, handle_request, hcheck]
      split <;> exact ⟨rfl, rfl, rfl⟩
  | _ => exact ⟨rfl, rfl, rfl⟩

/-- The rest of a start or a stop does not look at the configuration. The layout a
server starts with was read when the role was set up, which is why a new configuration
shows but has no effect. -/
theorem more_with_config (job : IpcJob) :
    ipc_service.more (d.with_config config) env job
        = ((ipc_service.more d env job).1.with_config config, (ipc_service.more d env job).2) ∧
      (ipc_service.more d env job).1.state.config = d.state.config := by
  cases job with
  | start_bind =>
      simp only [ipc_service, handle_job]
      split <;> exact ⟨rfl, rfl⟩
  | _ => exact ⟨rfl, rfl⟩

/-- Nor do the other tasks. -/
theorem other_with_config (event : IpcOther) :
    (d.with_config config).other event = (d.other event).with_config config ∧
      (d.other event).state.config = d.state.config := by
  cases event with
  | role_known =>
      simp only [other, with_config]
      split <;> exact ⟨rfl, rfl⟩
  | _ => exact ⟨rfl, rfl⟩

/-- One piece of work, for the server and for the forgetful one. -/
theorem play_forgetful (base : Config) (tag : Option Nat)
    (piece : Piece IpcEnv IpcRequest IpcJob IpcOther) :
    (forgetful.play (d.with_config base) piece).1 = (ipc_service.play d piece).1.with_config base ∧
      blind_turns ((forgetful.play (d.with_config base) piece).2.map (fun turn => (tag, turn)))
        = blind_turns ((ipc_service.play d piece).2.map (fun turn => (tag, turn))) ∧
      (ipc_service.play d piece).1.state.config
        = ((updates [(tag, piece)]).getLast?).getD d.state.config := by
  cases piece with
  -- an update is what the second run forgets; on any other request both do the same
  | first env req =>
      by_cases hreq : ∃ c, req = .UpdateConfig c
      · obtain ⟨c, rfl⟩ := hreq
        exact ⟨rfl, rfl, rfl⟩
      · have hother : ∀ c, req ≠ .UpdateConfig c := fun c heq => hreq ⟨c, heq⟩
        have hfirst : forgetful.first (d.with_config base) env req
            = ipc_service.first (d.with_config base) env req := by
          cases req with
          | UpdateConfig c => exact absurd rfl (hother c)
          | _ => rfl
        have hupdates : updates [(tag, Piece.first (J := IpcJob) (O := IpcOther) env req)] = [] := by
          cases req with
          | UpdateConfig c => exact absurd rfl (hother c)
          | _ => rfl
        obtain ⟨hstate, hturn, hconfig⟩ := d.first_with_config base env req hother
        simp only [Service.play, hfirst, hupdates]
        refine ⟨hstate, ?_, hconfig⟩
        simp only [blind_turns, List.map_cons, List.map_nil, hturn]
  | more env job =>
      obtain ⟨hmore, hconfig⟩ := d.more_with_config base env job
      refine ⟨congrArg Prod.fst hmore, ?_, hconfig⟩
      exact congrArg (fun r => blind_turns ([r.2].map (fun turn => (tag, turn)))) hmore
  | other event =>
      obtain ⟨hstate, hconfig⟩ := d.other_with_config base event
      exact ⟨hstate, rfl, hconfig⟩

/-- A log, for the server and for the forgetful one. -/
theorem replay_forgetful (start : IpcDaemon)
    (log : List (Option Nat × Piece IpcEnv IpcRequest IpcJob IpcOther)) :
    (forgetful.replay start log).1
        = (ipc_service.replay start log).1.with_config start.state.config ∧
      blind_turns (forgetful.replay start log).2 = blind_turns (ipc_service.replay start log).2 ∧
      (ipc_service.replay start log).1.state.config
        = ((updates log).getLast?).getD start.state.config := by
  induction log using List.reverseRecOn with
  | nil => exact ⟨rfl, rfl, rfl⟩
  | append_singleton log it ih =>
      obtain ⟨tag, piece⟩ := it
      obtain ⟨hstate, hturns, hconfig⟩ := ih
      obtain ⟨hstate', hturns', hconfig'⟩ :=
        (ipc_service.replay start log).1.play_forgetful start.state.config tag piece
      rw [replay_concat, replay_concat, hstate]
      refine ⟨hstate', ?_, ?_⟩
      · unfold blind_turns at hturns hturns' ⊢
        rw [List.map_append, List.map_append, hturns, hturns']
      · rw [hconfig', hconfig, updates_append, List.getLast?_append]
        cases (updates [(tag, piece)]).getLast? <;> rfl

/-- **UpdateConfig changes what is shown, and nothing else.** In every run the
configuration is the one that was set last, and every GetConfig is answered with
the one set last before it. Had the server forgotten them all, its state would
be the same but for the configuration, and so would be all answers but for what
GetConfig and the role in GetStatus show. -/
theorem update_config_only_shows (json : StrictJson) (text : SocketText) (start : IpcDaemon)
    (steps : List IpcStep) (last : IpcRun)
    (hrun : exec (IpcRun.step json text) (ServiceRun.new start) steps = some last) :
    last.state.state.config = ((updates last.log).getLast?).getD start.state.config ∧
      (∀ pre tag env post, last.log = pre ++ (tag, .first env .GetConfig) :: post →
        (ipc_service.replay start (pre ++ [(tag, .first env .GetConfig)])).2
          = (ipc_service.replay start pre).2 ++
            [(tag, .answer (.Response
              (.Config (((updates pre).getLast?).getD start.state.config))))]) ∧
      (forgetful.replay start last.log).1 = last.state.with_config start.state.config ∧
      blind_turns (forgetful.replay start last.log).2
        = blind_turns (ipc_service.replay start last.log).2 := by
  have hreplay := (ServiceRun.linear_run ipc_service _ _ start steps last hrun).replay
  obtain ⟨hstate, hturns, hconfig⟩ := replay_forgetful start last.log
  rw [hreplay] at hstate hconfig
  refine ⟨hconfig, ?_, hstate, hturns⟩
  intro pre tag env post _
  rw [replay_concat, ← (replay_forgetful start pre).2.2]
  rfl

/-- A client sets another configuration and a second one asks for it: it is shown the
new one, by a server that goes on as before. -/
theorem update_config_only_shows_laptop :
    let env : IpcEnv := ⟨0, fun _ => .error "", .ok none, 0⟩
    let steps : List IpcStep := [.accept, .accept] ++
      (IpcRun.round .compact .plain 0 (.UpdateConfig (.default "laptop")) env .Ok ++
        IpcRun.round .compact .plain 1 .GetConfig env (.Config (.default "laptop")))
    let start := new (.default "desk") 0 "ab" (.server ⟨[], []⟩)
    ∃ last, exec (IpcRun.step .compact .plain) (ServiceRun.new start) steps = some last ∧
      last.state.state.config = .default "laptop" ∧
      (ipc_service.replay start last.log).2.getLast?
        = some (some 1, .answer (.Response (.Config (.default "laptop")))) ∧
      (forgetful.replay start last.log).1 = last.state.with_config (.default "desk") ∧
      blind_turns (forgetful.replay start last.log).2
        = blind_turns (ipc_service.replay start last.log).2 := by
  intro env steps start
  have hopen : exec (IpcRun.step .compact .plain) (ServiceRun.new start) [.accept, .accept]
      = some ⟨start, false, [.new, .new], []⟩ := rfl
  have hset := IpcRun.exec_round .compact .plain
    (show (⟨start, false, [.new, .new], []⟩ : IpcRun).conns[0]? = some .new from rfl)
    (.UpdateConfig (.default "laptop")) env rfl
  have hrun : ∃ last, exec (IpcRun.step .compact .plain) (ServiceRun.new start) steps = some last ∧
      last.log = [(some 0, .first env (.UpdateConfig (.default "laptop"))),
        (some 1, .first env .GetConfig)] := by
    rw [exec_append, hopen, Option.bind_some, exec_append, hset, Option.bind_some]
    exact ⟨_, IpcRun.exec_round .compact .plain rfl .GetConfig env rfl, rfl⟩
  obtain ⟨last, hlast, hlog⟩ := hrun
  obtain ⟨hconfig, hshown, hstate, hturns⟩ :=
    update_config_only_shows .compact .plain start steps last hlast
  rw [hlog] at hconfig hshown
  refine ⟨last, hlast, hconfig, ?_, hstate, hturns⟩
  have hshow := hshown [_] (some 1) env [] rfl
  rw [hlog]
  exact (congrArg List.getLast? hshow).trans List.getLast?_concat

end IpcDaemon

end InputSync
