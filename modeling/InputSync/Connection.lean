/-
A connection from its first byte to its end, both ends of it (`connect_once` in
`crates/network/src/client.rs`, `handle_connection` in `server.rs`, the control
loops of `peer_loop.rs`).

The control stream carries the `Hello` and the `Welcome` first and then whatever
the sessions send; the handshake and the loops read it one after the other, and
neither reads a byte more than its message. Frames are written in any number of
pieces, a frame may be cut off by the loss of the connection, and either end may
be dropped at any time. Where an end stands says what it has written and read
(`ConnEnd.Kept`).

The other streams of a connection, and the tasks that read them, are in
`PeerLoop`; the runs are in `ConnectionRuns`.
-/
import InputSync.FrameStream
import InputSync.Handshake
import InputSync.PeerLoop
import InputSync.ClipboardSettle

set_option autoImplicit false

namespace InputSync

/-! ## The two ends

The two futures run the same peer loop after different handshakes, so one type of end
serves for both and a stage says which await it stands at. An end is the future, the two
tasks it spawns on the control stream, and the session behind the two channels; each of
the four moves by itself. -/

/-- What both `ClientConfig` and `ServerConfig` say of the daemon itself. -/
structure LocalPeer where
  local_peer_id : PeerId
  local_peer_name : String
deriving DecidableEq

namespace LocalPeer

/-- `hello` of `connect_once`. -/
def hello (self : LocalPeer) : Hello :=
  ⟨self.local_peer_id, self.local_peer_name, PROTOCOL_VERSION, .full⟩

/-- `welcome` of `handle_connection`. -/
def welcome (self : LocalPeer) (hello : Hello) : Message :=
  .Welcome ⟨self.local_peer_id, self.local_peer_name,
    Capabilities.full.negotiate hello.capabilities, ⟨1⟩⟩

end LocalPeer

/-- `ClientEvent` and `ServerEvent`, with what the handle says of the other end. -/
inductive PeerEvent
  | Connected (peer : LocalPeer)
  | Disconnected (peer_id : PeerId)
deriving DecidableEq

/-- What `connect_once` and `handle_connection` fail with. -/
inductive ConnectFailure
  | open_bi
  | accept_bi
  | stream (e : StreamError)
  | PeerRejected (code : UInt32) (message : String)
  | expected_welcome (got : MessageType)
  | expected_hello (got : MessageType)
  | VersionMismatch (localVersion remote : UInt16)
deriving DecidableEq

/-- Where `connect_once` or `handle_connection` stands, once the QUIC connection is
there: at which await of its own, or in `run_peer_loop`. -/
inductive ConnStage
  -- connect_once: `open_bi`, the `Hello`, the answer
  | opening | greeting | awaiting
  -- handle_connection: `accept_bi`, the `Hello`, the `Welcome` or the refusal
  | accepting | listening
  | replying (peer : LocalPeer)
  | refusing (remote : UInt16)
  -- both: the send of `Connected`, `run_peer_loop`, the send of `Disconnected`
  | announcing (peer : LocalPeer)
  | looping (peer : LocalPeer)
  | leaving (peer : LocalPeer)
  | returned
  | failed (e : ConnectFailure)
  | dropped
deriving DecidableEq

/-- The future ended before its time. -/
def ConnStage.gone : ConnStage → Bool
  | .failed _ | .dropped => true
  | _ => false

/-- One end, with the two tasks on its control stream and its session. `unwritten`
is the rest of the message it is writing, `incoming` what has arrived, and `held`
what `read_loop` waits to put into the inbound channel, whose receiver the session
has while it is `attended`. `queued`, `sent`, `read` and `handled` are records: what
the outbound channel accepted, what was begun to be written, what was read and what
the session received. -/
structure ConnEnd where
  stage : ConnStage
  writer : TaskState
  reader : TaskState
  unwritten : List UInt8
  incoming : List UInt8
  incoming_ended : Bool
  outbound : List Message
  held : Option Message
  inbound : List Message
  attended : Bool
  queued : List Message
  sent : List Message
  read : List Message
  handled : List Message
  events : List PeerEvent
deriving DecidableEq

namespace ConnEnd

/-- The QUIC connection is there, and nothing was done with it. -/
def new (side : Side) : ConnEnd :=
  { stage := match side with
      | .A => .accepting
      | .B => .opening
    writer := .unspawned, reader := .unspawned, unwritten := [], incoming := [],
    incoming_ended := false, outbound := [], held := none, inbound := [], attended := true,
    queued := [], sent := [], read := [], handled := [], events := [] }

/-- `write_message` of the handshake, up to its first await. -/
def begin (self : ConnEnd) (msg : Message) (stage : ConnStage)
    (failed : StreamError → ConnectFailure) : ConnEnd :=
  match write_message msg with
  | .error e => { self with stage := .failed (failed e) }
  | .ok frame => { self with stage, unwritten := frame, sent := self.sent ++ [msg] }

/-- `open_bi` or `accept_bi`, which waits for a stream that something has arrived on. -/
def open_stream (cfg : LocalPeer) (lost : Bool) (self : ConnEnd) : Option ConnEnd :=
  match self.stage with
  | .opening =>
    if lost then some { self with stage := .failed .open_bi }
    else some (self.begin (.Hello cfg.hello) .greeting .stream)
  | .accepting =>
    if self.incoming ≠ [] ∨ (self.incoming_ended = true ∧ lost = false) then
      some { self with stage := .listening }
    else if lost then some { self with stage := .failed .accept_bi }
    else none
  | _ => none

/-- What `connect_once` makes of the first message. -/
def hear_reply (self : ConnEnd) : Message → ConnEnd
  | .Welcome welcome => { self with stage := .announcing ⟨welcome.peer_id, welcome.peer_name⟩ }
  | .Error code message => { self with stage := .failed (.PeerRejected code message) }
  | other => { self with stage := .failed (.expected_welcome other.message_type) }

/-- What `handle_connection` makes of the first message. -/
def hear_hello (cfg : LocalPeer) (self : ConnEnd) : Message → ConnEnd
  | .Hello hello =>
    if hello.protocol_version ≠ PROTOCOL_VERSION then
      self.begin (.Error 1 "version mismatch") (.refusing hello.protocol_version)
        (fun _ => .VersionMismatch PROTOCOL_VERSION hello.protocol_version)
    else self.begin (cfg.welcome hello) (.replying ⟨hello.peer_id, hello.peer_name⟩) .stream
  | other => { self with stage := .failed (.expected_hello other.message_type) }

/-- `read_message` on what has arrived: `none` while it waits for more. -/
def receive (self : ConnEnd) : Option (Except StreamError Message × ConnEnd) :=
  match read_message self.incoming with
  | (.ok msg, incoming) => some (.ok msg, { self with incoming, read := self.read ++ [msg] })
  | (.error e, _) =>
    if e.short && !self.incoming_ended then none else some (.error e, self)

/-- The first `read_message`. -/
def hear (cfg : LocalPeer) (self : ConnEnd) : Option ConnEnd :=
  match self.stage with
  | .awaiting =>
    self.receive.map (fun r => match r with
      | (.ok msg, next) => next.hear_reply msg
      | (.error e, next) => { next with stage := .failed (.stream e) })
  | .listening =>
    self.receive.map (fun r => match r with
      | (.ok msg, next) => next.hear_hello cfg msg
      | (.error e, next) => { next with stage := .failed (.stream e) })
  | _ => none

/-- `write_message` of the handshake returns. -/
def written (self : ConnEnd) : Option ConnEnd :=
  if self.unwritten ≠ [] then none
  else match self.stage with
    | .greeting => some { self with stage := .awaiting }
    | .replying peer => some { self with stage := .announcing peer }
    | .refusing remote =>
      some { self with stage := .failed (.VersionMismatch PROTOCOL_VERSION remote) }
    | _ => none

/-- A write fails, in the handshake or in `write_loop`. -/
def write_failed (self : ConnEnd) : Option ConnEnd :=
  if self.unwritten = [] then none
  else match self.stage with
    | .greeting | .replying _ => some { self with stage := .failed (.stream .write) }
    | .refusing remote =>
      some { self with stage := .failed (.VersionMismatch PROTOCOL_VERSION remote) }
    | _ => if self.writer = .running then some { self with writer := .ended } else none

/-- The session is told, and the tasks of the peer loop are spawned. -/
def announce (self : ConnEnd) : Option ConnEnd :=
  match self.stage with
  | .announcing peer =>
    some { self with
      stage := .looping peer, writer := .running, reader := .running
      events := self.events ++ [.Connected peer] }
  | _ => none

/-- A handle's `send` or `try_send`, when there is room. -/
def enqueue (self : ConnEnd) (msg : Message) : Option ConnEnd :=
  if self.writer = .running ∧ self.outbound.length < 256 then
    some { self with outbound := self.outbound ++ [msg], queued := self.queued ++ [msg] }
  else none

/-- `write_loop` takes the next message. -/
def next (self : ConnEnd) : Option ConnEnd :=
  match self.writer, self.unwritten, self.outbound with
  | .running, [], msg :: outbound =>
    match write_message msg with
    | .error _ => some { self with outbound, writer := .ended }
    | .ok unwritten => some { self with outbound, unwritten, sent := self.sent ++ [msg] }
  | _, _, _ => none

/-- `read_loop` reads the next message, or ends. -/
def read_next (self : ConnEnd) : Option ConnEnd :=
  match self.reader, self.held with
  | .running, none =>
    self.receive.map (fun r => match r with
      | (.ok msg, next) => { next with held := some msg }
      | (.error _, next) => { next with reader := .ended })
  | _, _ => none

/-- `read_loop` puts what it has read into the inbound channel, or ends when nobody
would receive it. -/
def send_inbound (self : ConnEnd) : Option ConnEnd :=
  match self.reader, self.held with
  | .running, some msg =>
    if self.attended = false then some { self with held := none, reader := .ended }
    else if self.inbound.length < 256 then
      some { self with held := none, inbound := self.inbound ++ [msg] }
    else none
  | _, _ => none

/-- The session receives. -/
def handle (self : ConnEnd) : Option ConnEnd :=
  match self.inbound with
  | msg :: inbound => some { self with inbound, handled := self.handled ++ [msg] }
  | [] => none

/-- The session drops the receiver, with what is in the channel. -/
def unattend (self : ConnEnd) : Option ConnEnd :=
  if self.attended then some { self with attended := false, inbound := [] } else none

/-- One of the tasks that `run_peer_loop` waits for has ended; the one that accepts
streams ends when the connection is lost. -/
def loop_ended (self : ConnEnd) (lost : Bool) : Option ConnEnd :=
  match self.stage with
  | .looping peer =>
    if self.writer = .ended ∨ self.reader = .ended ∨ lost = true then
      some { self with stage := .leaving peer }
    else none
  | _ => none

/-- The session is told that it is over. -/
def leave (self : ConnEnd) : Option ConnEnd :=
  match self.stage with
  | .leaving peer =>
    some { self with stage := .returned, events := self.events ++ [.Disconnected peer.local_peer_id] }
  | _ => none

/-- The future is dropped; tasks that were spawned go on. -/
def drop (self : ConnEnd) : Option ConnEnd :=
  match self.stage with
  | .returned | .failed _ | .dropped => none
  | _ => some { self with stage := .dropped }

/-- The send half of the stream is gone: `write_loop` has ended, or the future did
before it spawned it. -/
def send_dropped (self : ConnEnd) : Bool :=
  self.writer = .ended || (self.writer = .unspawned && self.stage.gone)

/-- The same of the receive half. -/
def recv_dropped (self : ConnEnd) : Bool :=
  self.reader = .ended || (self.reader = .unspawned && self.stage.gone)

end ConnEnd

/-- What an end does by itself: the future, its two tasks, its session. -/
inductive EndStep
  | open_stream | hear | written | announce | loop_ended | leave | drop
  | next | read | send_inbound
  | enqueue (msg : Message) | handle | unattend
deriving DecidableEq

/-- One step of an end. -/
def ConnEnd.step (cfg : LocalPeer) (lost : Bool) (self : ConnEnd) : EndStep → Option ConnEnd
  | .open_stream => self.open_stream cfg lost
  | .hear => self.hear cfg
  | .written => self.written
  | .announce => self.announce
  | .loop_ended => self.loop_ended lost
  | .leave => self.leave
  | .drop => self.drop
  | .next => self.next
  | .read => self.read_next
  | .send_inbound => self.send_inbound
  | .enqueue msg => self.enqueue msg
  | .handle => self.handle
  | .unattend => self.unattend

/-- What happens on a connection: an end does something, bytes of the message it
writes go out, its stream ends behind them, a write fails, or the connection is
lost with all but the first bytes of what has arrived. -/
inductive ConnStep
  | act (side : Side) (a : EndStep)
  | write (side : Side) (n : Nat)
  | finish (side : Side)
  | write_failed (side : Side)
  | lose (arrived : Side → Nat)

/-- A connection; `A` is the server and `B` the client. -/
structure Connection where
  ends : Side → ConnEnd
  lost : Bool

namespace Connection

/-- The QUIC connection is there, and nobody has done anything with it. -/
def new : Connection := { ends := .new, lost := false }

/-- One end, replaced. -/
def put (self : Connection) (side : Side) (e : ConnEnd) : Connection :=
  { self with ends := Function.update self.ends side e }

variable (cfg : Side → LocalPeer)

/-- One step; `none` where it is not possible. -/
def step (self : Connection) : ConnStep → Option Connection
  | .act side a => ((self.ends side).step (cfg side) self.lost a).map (self.put side)
  | .write side n =>
    let here := self.ends side
    let there := self.ends side.other
    if 0 < n ∧ n ≤ here.unwritten.length ∧ here.send_dropped = false ∧
        there.incoming_ended = false then
      some ((self.put side { here with unwritten := here.unwritten.drop n }).put side.other
        { there with incoming := there.incoming ++ here.unwritten.take n })
    else none
  | .finish side =>
    let there := self.ends side.other
    if (self.ends side).send_dropped ∧ there.incoming_ended = false then
      some (self.put side.other { there with incoming_ended := true })
    else none
  | .write_failed side =>
    if self.lost ∨ (self.ends side.other).recv_dropped then
      (self.ends side).write_failed.map (self.put side)
    else none
  | .lose arrived =>
    if self.lost then none
    else some {
      ends := fun side =>
        let e := self.ends side
        { e with incoming := e.incoming.take (arrived side), incoming_ended := true }
      lost := true }

end Connection

/-! ## What an end has said and heard

An end before its tasks are spawned can only have exchanged greetings, and one behind
that point is a pair of FIFO pipes. `Kept` says which of the two it is for each stage,
and every action of an end keeps it. Beside it, `Flows` follows the bytes: whatever an
end does, its two streams remain streams of frames with at most one unfinished frame at
the end. -/

/-- The network did it, or a name too long for a frame. -/
def ConnectFailure.Unavoidable : ConnectFailure → Prop
  | .open_bi | .accept_bi | .stream .write | .stream .read_header | .stream .read_payload
  | .stream (.encode (.PayloadTooLarge ..)) => True
  | _ => False

/-- The first message of a side. -/
def greet (cfg : Side → LocalPeer) : Side → Message
  | .A => (cfg .A).welcome (cfg .B).hello
  | .B => .Hello (cfg .B).hello

/-- An end before its tasks are spawned, with what it has said and heard. -/
structure ConnEnd.Unspawned (e : ConnEnd) (said heard : List Message) : Prop where
  writer : e.writer = .unspawned
  reader : e.reader = .unspawned
  outbound : e.outbound = []
  held : e.held = none
  inbound : e.inbound = []
  queued : e.queued = []
  handled : e.handled = []
  events : e.events = []
  sent : e.sent = said
  read : e.read = heard

/-- An end whose tasks were spawned, and what it has told its session. -/
structure ConnEnd.Spawned (mine theirs : Message) (e : ConnEnd) (told : List PeerEvent) :
    Prop where
  writer : e.writer ≠ .unspawned
  reader : e.reader ≠ .unspawned
  events : e.events = told
  sending : ∃ out, e.sent = mine :: out ∧ out <+: e.queued ∧
    (e.writer = .running → out ++ e.outbound = e.queued)
  reading : ∃ got, e.read = theirs :: got ∧ e.handled ++ e.inbound <+: got ∧
    (e.reader = .running → e.attended = true → e.handled ++ e.inbound ++ e.held.toList = got)

namespace ConnEnd

/-- **The two models of the server's half agree.** `handle_connection` serves exactly the
clients whose first message an end replies to. -/
theorem handle_connection_iff (own : LocalPeer) (conn : Nat) {bytes rest : List UInt8} {m : Message}
    (hread : read_message bytes = (.ok m, rest)) (e : ConnEnd) :
    (handle_connection ⟨own.local_peer_id, own.local_peer_name⟩ conn (some bytes) true).result = .ok ()
      ↔ ∃ peer, (e.hear_hello own m).stage = .replying peer := by
  -- `hear_hello` and `handle_connection` are the same code: the reply depends on the
  -- version and on whether the `Welcome` fits
  rw [handle_connection, hread]
  cases m with
  | Hello hello =>
      by_cases hversion : hello.protocol_version ≠ PROTOCOL_VERSION
      · simp only [hear_hello, if_pos hversion]
        refine iff_of_false (by rintro ⟨⟩) ?_
        rintro ⟨peer, hstage⟩
        rcases write_message_cases (.Error 1 "version mismatch") with ⟨frame, h, -⟩ | ⟨length, h⟩ <;>
          rw [begin, h] at hstage <;> cases hstage
      · simp only [hear_hello, if_neg hversion, send_control, LocalPeer.welcome, begin]
        rcases write_message_cases (own.welcome hello) with ⟨frame, h, -⟩ | ⟨length, h⟩
        · rw [LocalPeer.welcome] at h
          rw [h]
          exact iff_of_true rfl ⟨_, rfl⟩
        · rw [LocalPeer.welcome] at h
          rw [h]
          exact iff_of_false (by rintro ⟨⟩) (by rintro ⟨peer, ⟨⟩⟩)
  | _ => exact iff_of_false (by rintro ⟨⟩) (by rintro ⟨peer, ⟨⟩⟩)

/-- What is known of an end from where it stands. -/
def Kept (cfg : Side → LocalPeer) (side : Side) (e : ConnEnd) : Prop :=
  let mine := greet cfg side
  let theirs := greet cfg side.other
  let peer := cfg side.other
  match e.stage with
  | .opening => side = .B ∧ e.unwritten = [] ∧ e.Unspawned [] []
  | .greeting => side = .B ∧ e.Unspawned [mine] []
  | .awaiting => side = .B ∧ e.unwritten = [] ∧ e.Unspawned [mine] []
  | .accepting | .listening => side = .A ∧ e.unwritten = [] ∧ e.Unspawned [] []
  | .replying p => side = .A ∧ p = peer ∧ e.Unspawned [mine] [theirs]
  | .refusing _ => False
  | .announcing p => p = peer ∧ e.unwritten = [] ∧ e.Unspawned [mine] [theirs]
  | .looping p | .leaving p => p = peer ∧ e.Spawned mine theirs [.Connected peer]
  | .returned => e.Spawned mine theirs [.Connected peer, .Disconnected peer.local_peer_id]
  | .failed f => f.Unavoidable ∧ ∃ said heard, e.Unspawned said heard ∧ said <+: [mine] ∧
      heard <+: [theirs] ∧ (said = [mine] → side = .A → e.unwritten ≠ [])
  | .dropped => (∃ said heard, e.Unspawned said heard ∧ said <+: [mine] ∧ heard <+: [theirs]) ∨
      e.Spawned mine theirs [.Connected peer]

variable {cfg : Side → LocalPeer} {side : Side} {lost : Bool} {e n : ConnEnd}

/-- An end at the start has said and heard nothing, which is where the induction over
runs begins. -/
theorem kept_new : (new side).Kept cfg side := by
  cases side <;> exact ⟨rfl, rfl, ⟨rfl, rfl, rfl, rfl, rfl, rfl, rfl, rfl, rfl, rfl⟩⟩

/-- A step of the tasks, the session or the network leaves the future where it is. -/
theorem Kept.same_stage (h : e.Kept cfg side) (hstage : n.stage = e.stage)
    (hunspawned : ∀ said heard, e.Unspawned said heard →
      n.Unspawned said heard ∧ n.unwritten = e.unwritten)
    (hspawned : ∀ told, e.Spawned (greet cfg side) (greet cfg side.other) told →
      n.Spawned (greet cfg side) (greet cfg side.other) told) : n.Kept cfg side := by
  unfold Kept at h ⊢
  rw [hstage]
  cases hat : e.stage <;> simp only [hat] at h ⊢
  -- before the loop is spawned the record says that nothing is queued or held
  case opening | accepting | listening =>
    obtain ⟨hside, hunwritten, hun⟩ := h
    obtain ⟨hun, hsame⟩ := hunspawned _ _ hun
    exact ⟨hside, by rw [hsame, hunwritten], hun⟩
  case greeting =>
    exact ⟨h.1, (hunspawned _ _ h.2).1⟩
  case awaiting | announcing =>
    obtain ⟨hside, hunwritten, hun⟩ := h
    obtain ⟨hun, hsame⟩ := hunspawned _ _ hun
    exact ⟨hside, by rw [hsame, hunwritten], hun⟩
  case replying =>
    obtain ⟨hside, hpeer, hun⟩ := h
    exact ⟨hside, hpeer, (hunspawned _ _ hun).1⟩
  case looping | leaving =>
    exact ⟨h.1, hspawned _ h.2⟩
  case returned =>
    exact hspawned _ h
  -- an end that gave up keeps the account of how far it had come
  case failed =>
    obtain ⟨hf, said, heard, hun, hsaid, hheard, hrest⟩ := h
    obtain ⟨hun, hsame⟩ := hunspawned _ _ hun
    exact ⟨hf, said, heard, hun, hsaid, hheard, by rw [hsame]; exact hrest⟩
  case dropped =>
    rcases h with ⟨said, heard, hun, hprefix⟩ | hsp
    · exact .inl ⟨said, heard, (hunspawned _ _ hun).1, hprefix⟩
    · exact .inr (hspawned _ hsp)

/-- A running task was spawned. -/
theorem Kept.same_tasks (h : e.Kept cfg side) (hstage : n.stage = e.stage)
    (hrunning : e.writer ≠ .unspawned ∨ e.reader ≠ .unspawned)
    (hspawned : ∀ told, e.Spawned (greet cfg side) (greet cfg side.other) told →
      n.Spawned (greet cfg side) (greet cfg side.other) told) : n.Kept cfg side := by
  refine h.same_stage hstage ?_ hspawned
  intro said heard hun
  rcases hrunning with hwriter | hreader
  · exact absurd hun.writer hwriter
  · exact absurd hun.reader hreader

/-- Moving the future on, with nothing said or heard, keeps all the rest of the record.
-/
theorem Unspawned.with_stage {said heard : List Message} (h : e.Unspawned said heard)
    (stage : ConnStage) : ({ e with stage } : ConnEnd).Unspawned said heard :=
  ⟨h.writer, h.reader, h.outbound, h.held, h.inbound, h.queued, h.handled, h.events, h.sent, h.read⟩

/-- `begin` writes the message, or finds it too long. -/
theorem begin_cases (e : ConnEnd) (msg : Message) (stage : ConnStage)
    (failed : StreamError → ConnectFailure) :
    (∃ frame, encode_frame msg = .ok frame ∧ e.begin msg stage failed
      = { e with stage, unwritten := frame, sent := e.sent ++ [msg] }) ∨
    ∃ length, e.begin msg stage failed
      = { e with stage := .failed (failed (.encode (.PayloadTooLarge length))) } := by
  rcases write_message_cases msg with ⟨frame, hwrite, hframe⟩ | ⟨length, hwrite⟩
  · exact .inl ⟨frame, hframe, by rw [begin, hwrite]⟩
  · exact .inr ⟨length, by rw [begin, hwrite]⟩

/-- Beginning a message is saying it: `sent` grows before the first byte goes out, and
how much has gone out is `unwritten`'s business. -/
theorem Unspawned.began {said heard : List Message} (h : e.Unspawned said heard) (msg : Message)
    (stage : ConnStage) (frame : List UInt8) :
    ({ e with stage, unwritten := frame, sent := e.sent ++ [msg] } : ConnEnd).Unspawned
      (said ++ [msg]) heard :=
  ⟨h.writer, h.reader, h.outbound, h.held, h.inbound, h.queued, h.handled, h.events, by rw [h.sent],
    h.read⟩

/-- Opening the stream: the client begins its `Hello`, the server starts to wait for
one. This lemma and those like it below say for one action of an end what it may do to
`Kept`; `step_kept` collects them, so a change to one function of the source is a change
to one of them. -/
theorem open_stream_kept (h : e.Kept cfg side) (hstep : e.open_stream (cfg side) lost = some n) :
    n.Kept cfg side := by
  unfold open_stream at hstep
  unfold Kept at h
  split at hstep
  -- the client: its `Hello` fits a frame and is under way, or it does not and the end
  -- fails
  · rename_i hat
    simp only [hat] at h
    obtain ⟨rfl, hunwritten, hun⟩ := h
    split_ifs at hstep
    · cases hstep
      exact ⟨trivial, [], [], hun.with_stage _, List.nil_prefix, List.nil_prefix, by rintro ⟨⟩⟩
    · obtain ⟨frame, -, hbegin⟩ | ⟨length, hbegin⟩ :=
        e.begin_cases (.Hello (cfg .B).hello) .greeting .stream
      · rw [hbegin] at hstep
        cases hstep
        exact ⟨rfl, hun.began _ _ _⟩
      · rw [hbegin] at hstep
        cases hstep
        exact ⟨trivial, [], [], hun.with_stage _, List.nil_prefix, List.nil_prefix, by rintro ⟨⟩⟩
  -- the server accepts whatever stream is opened
  · rename_i hat
    simp only [hat] at h
    obtain ⟨rfl, hunwritten, hun⟩ := h
    split_ifs at hstep
    · cases hstep
      exact ⟨rfl, hunwritten, hun.with_stage _⟩
    · cases hstep
      exact ⟨trivial, [], [], hun.with_stage _, List.nil_prefix, List.nil_prefix, by rintro ⟨⟩⟩
  · cases hstep

/-- A greeting has gone out in full, and the end moves on to its answer or to the
session. -/
theorem written_kept (h : e.Kept cfg side) (hstep : e.written = some n) : n.Kept cfg side := by
  unfold written at hstep
  unfold Kept at h
  split_ifs at hstep with hunwritten
  rw [not_not] at hunwritten
  split at hstep
  · rename_i hat
    simp only [hat] at h
    cases hstep
    exact ⟨h.1, hunwritten, h.2.with_stage _⟩
  · rename_i hat
    simp only [hat] at h
    cases hstep
    exact ⟨h.2.1, hunwritten, h.2.2.with_stage _⟩
  · rename_i hat
    simp only [hat] at h
  · cases hstep

/-- The first message read is the first one sent. -/
def HearsFirst (cfg : Side → LocalPeer) (side : Side) (e : ConnEnd) : Prop :=
  (e.read = [] → ∀ m rest, read_message e.incoming = (.ok m, rest) → m = greet cfg side.other) ∧
    ∀ err, (read_message e.incoming).1 = .error err → err.short = true

/-- A read that fails because the stream is short was cut off by the network: neither
end is to blame. -/
theorem short_unavoidable {err : StreamError} (h : err.short = true) :
    (ConnectFailure.stream err).Unavoidable := by
  cases err <;> trivial

/-- What a read can do. It either takes one message off the front and records it, or
fails and leaves the end as it was; later proofs start from this and never unfold
`receive`. -/
theorem receive_cases {r : Except StreamError Message × ConnEnd} (h : e.receive = some r) :
    (∃ m rest, read_message e.incoming = (.ok m, rest) ∧
      r = (.ok m, { e with incoming := rest, read := e.read ++ [m] })) ∨
    ∃ err, (read_message e.incoming).1 = .error err ∧ r = (.error err, e) := by
  unfold receive at h
  split at h
  · rename_i m rest hread
    cases h
    exact .inl ⟨m, rest, hread, rfl⟩
  · rename_i err rest hread
    split_ifs at h
    cases h
    exact .inr ⟨err, by rw [hread], rfl⟩

/-- Hearing a message while the tasks are not there yet: it joins the record of what was
read. -/
theorem Unspawned.heard {said heard : List Message} (h : e.Unspawned said heard) (msg : Message)
    (stage : ConnStage) (rest : List UInt8) :
    ({ e with stage, incoming := rest, read := e.read ++ [msg] } : ConnEnd).Unspawned
      said (heard ++ [msg]) :=
  ⟨h.writer, h.reader, h.outbound, h.held, h.inbound, h.queued, h.handled, h.events, h.sent,
    by rw [h.read]⟩

/-- A client of this build is welcome. -/
theorem hear_hello_own (own other : LocalPeer) (e : ConnEnd) :
    e.hear_hello own (.Hello other.hello)
      = e.begin (own.welcome other.hello) (.replying other) .stream := by
  have hversion : ¬ other.hello.protocol_version ≠ PROTOCOL_VERSION := not_not.mpr rfl
  rw [hear_hello, if_neg hversion]
  rfl

/-- The first read of an end. The hypothesis that the first message read is the first
one sent comes from the streams (`Flows`); with it, what is heard is the other side's
greeting and the replies are the expected ones. -/
theorem hear_kept (h : e.Kept cfg side) (hfirst : e.HearsFirst cfg side)
    (hstep : e.hear (cfg side) = some n) : n.Kept cfg side := by
  unfold hear at hstep
  unfold Kept at h
  split at hstep
  -- the client hears the reply, which is the server's greeting or cut short
  · rename_i hat
    simp only [hat] at h
    obtain ⟨rfl, hunwritten, hun⟩ := h
    obtain ⟨r, hr, rfl⟩ := Option.map_eq_some_iff.mp hstep
    rcases receive_cases hr with ⟨m, rest, hread, rfl⟩ | ⟨err, herr, rfl⟩
    · obtain rfl := hfirst.1 hun.read m rest hread
      exact ⟨rfl, hunwritten, hun.heard _ _ _⟩
    · exact ⟨short_unavoidable (hfirst.2 err herr), [_], [], hun.with_stage _, List.prefix_rfl,
        List.nil_prefix, by rintro - ⟨⟩⟩
  -- the server hears the `Hello` and answers it
  · rename_i hat
    simp only [hat] at h
    obtain ⟨rfl, hunwritten, hun⟩ := h
    obtain ⟨r, hr, rfl⟩ := Option.map_eq_some_iff.mp hstep
    rcases receive_cases hr with ⟨m, rest, hread, rfl⟩ | ⟨err, herr, rfl⟩
    · obtain rfl := hfirst.1 hun.read m rest hread
      change (hear_hello (cfg .A) { e with incoming := rest, read := e.read ++ [greet cfg .B] }
        (.Hello (cfg .B).hello)).Kept cfg .A
      rw [hear_hello_own]
      obtain ⟨frame, -, hbegin⟩ | ⟨length, hbegin⟩ := begin_cases
        { e with incoming := rest, read := e.read ++ [greet cfg .B] }
        ((cfg .A).welcome (cfg .B).hello) (.replying (cfg .B)) .stream
      · rw [hbegin]
        exact ⟨rfl, rfl, (hun.heard _ _ rest).began _ _ _⟩
      · rw [hbegin]
        exact ⟨trivial, [], [_], hun.heard _ _ _, List.nil_prefix, List.prefix_rfl, by rintro ⟨⟩⟩
    · exact ⟨short_unavoidable (hfirst.2 err herr), [], [], hun.with_stage _, List.nil_prefix,
        List.nil_prefix, by rintro ⟨⟩⟩
  · cases hstep

/-- The handshake is over: the session is told who is there, and both tasks start with
empty hands. From here on `Spawned` describes the end. -/
theorem announce_kept (h : e.Kept cfg side) (hstep : e.announce = some n) : n.Kept cfg side := by
  unfold announce at hstep
  unfold Kept at h
  split at hstep
  · rename_i peer hat
    simp only [hat] at h
    obtain ⟨rfl, hunwritten, hun⟩ := h
    cases hstep
    -- the loop starts with nothing queued, held or handled, and both greetings are
    -- behind
    refine ⟨rfl, by rintro ⟨⟩, by rintro ⟨⟩, by rw [hun.events]; rfl, ⟨[], hun.sent, ?_, ?_⟩,
      ⟨[], hun.read, ?_, ?_⟩⟩
    · exact List.nil_prefix
    · rintro -
      rw [hun.outbound, hun.queued]
      rfl
    · rw [hun.handled, hun.inbound]
      exact List.nil_prefix
    · rintro - -
      rw [hun.handled, hun.inbound, hun.held]
      rfl
  · cases hstep

/-- The future of a spawned end only tells the session things; the tasks do not notice.
-/
theorem Spawned.with_stage {mine theirs : Message} {told : List PeerEvent}
    (h : e.Spawned mine theirs told) (stage : ConnStage) (events : List PeerEvent) :
    ({ e with stage, events := e.events ++ events } : ConnEnd).Spawned mine theirs
      (told ++ events) :=
  ⟨h.writer, h.reader, by rw [h.events], h.sending, h.reading⟩

/-- The future sees that a task has ended and prepares to leave. -/
theorem loop_ended_kept (h : e.Kept cfg side) (hstep : e.loop_ended lost = some n) :
    n.Kept cfg side := by
  unfold loop_ended at hstep
  unfold Kept at h
  split at hstep
  · rename_i peer hat
    simp only [hat] at h
    split_ifs at hstep
    cases hstep
    exact ⟨h.1, h.2.writer, h.2.reader, h.2.events, h.2.sending, h.2.reading⟩
  · cases hstep

/-- The session is told that the connection is over, once. -/
theorem leave_kept (h : e.Kept cfg side) (hstep : e.leave = some n) : n.Kept cfg side := by
  unfold leave at hstep
  unfold Kept at h
  split at hstep
  · rename_i peer hat
    simp only [hat] at h
    obtain ⟨rfl, hsp⟩ := h
    cases hstep
    exact hsp.with_stage _ _
  · cases hstep

/-- The future may be dropped at any await. Before the tasks are spawned everything it
held goes with it; afterwards the tasks stay, and so does what is known of them. -/
theorem drop_kept (h : e.Kept cfg side) (hstep : e.drop = some n) : n.Kept cfg side := by
  unfold drop at hstep
  unfold Kept at h
  have hun : ∀ said heard, e.Unspawned said heard → said <+: [greet cfg side] →
      heard <+: [greet cfg side.other] → ({ e with stage := .dropped } : ConnEnd).Kept cfg side :=
    fun said heard hun hsaid hheard => .inl ⟨said, heard, hun.with_stage _, hsaid, hheard⟩
  cases hat : e.stage <;> simp only [hat] at h hstep <;> cases hstep
  case opening | accepting | listening => exact hun _ _ h.2.2 List.nil_prefix List.nil_prefix
  case greeting => exact hun _ _ h.2 List.prefix_rfl List.nil_prefix
  case awaiting => exact hun _ _ h.2.2 List.prefix_rfl List.nil_prefix
  case replying | announcing => exact hun _ _ h.2.2 List.prefix_rfl List.prefix_rfl
  case looping | leaving =>
    exact .inr ⟨h.2.writer, h.2.reader, h.2.events, h.2.sending, h.2.reading⟩

/-- The session queues a message: `queued` and the outbound channel grow together. -/
theorem enqueue_kept {msg : Message} (h : e.Kept cfg side) (hstep : e.enqueue msg = some n) :
    n.Kept cfg side := by
  unfold enqueue at hstep
  split_ifs at hstep with hroom
  cases hstep
  refine h.same_tasks rfl (.inl (by rw [hroom.1]; rintro ⟨⟩)) ?_
  intro told hsp
  obtain ⟨out, hsent, hout, hall⟩ := hsp.sending
  refine ⟨hsp.writer, hsp.reader, hsp.events, ⟨out, hsent, hout.trans (List.prefix_append _ _), ?_⟩,
    hsp.reading⟩
  intro hwriter
  rw [← hall hwriter, List.append_assoc]

/-- `write_loop` takes the head of the outbound channel and begins its frame, or ends
because the message has none. Either way what was sent remains a prefix of what was
queued. -/
theorem next_kept (h : e.Kept cfg side) (hstep : e.next = some n) : n.Kept cfg side := by
  unfold next at hstep
  split at hstep
  · rename_i msg outbound hwriter hunwritten houtbound
    have hrunning : e.writer ≠ .unspawned ∨ e.reader ≠ .unspawned :=
      .inl (by rw [hwriter]; rintro ⟨⟩)
    split at hstep
    · cases hstep
      -- the frame could not be written: the task ends, and what it had sent stands
      refine h.same_tasks rfl hrunning ?_
      intro told hsp
      obtain ⟨out, hsent, hout, -⟩ := hsp.sending
      exact ⟨by rintro ⟨⟩, hsp.reader, hsp.events, ⟨out, hsent, hout, by rintro ⟨⟩⟩, hsp.reading⟩
    · cases hstep
      -- it was: the message moves from what is queued to what was sent
      refine h.same_tasks rfl hrunning ?_
      intro told hsp
      obtain ⟨out, hsent, -, hall⟩ := hsp.sending
      have hqueued : out ++ [msg] ++ outbound = e.queued := by
        rw [← hall hwriter, houtbound, List.append_assoc, List.singleton_append]
      exact ⟨hsp.writer, hsp.reader, hsp.events,
        ⟨out ++ [msg], by rw [hsent]; rfl, ⟨_, hqueued⟩, fun _ => hqueued⟩, hsp.reading⟩
  · cases hstep

/-- What was delivered before the next message is delivered after it. -/
theorem Spawned.read_on {mine theirs : Message} {told : List PeerEvent}
    (h : e.Spawned mine theirs told) (hheld : e.held = none) (hreader : e.reader = .running)
    (m : Message) (rest : List UInt8) :
    ({ e with incoming := rest, read := e.read ++ [m], held := some m } : ConnEnd).Spawned
      mine theirs told := by
  obtain ⟨got, hread, hgot, hall⟩ := h.reading
  refine ⟨h.writer, h.reader, h.events, h.sending,
    ⟨got ++ [m], by rw [hread]; rfl, hgot.trans (List.prefix_append _ _), ?_⟩⟩
  intro _ hattended
  have hsame := hall hreader hattended
  rw [hheld, Option.toList_none, List.append_nil] at hsame
  rw [Option.toList_some, hsame]

/-- `read_loop` takes one message off the stream and holds it until the channel has
room, or ends. -/
theorem read_next_kept (h : e.Kept cfg side) (hstep : e.read_next = some n) : n.Kept cfg side := by
  unfold read_next at hstep
  split at hstep
  · rename_i hreader hheld
    have hrunning : e.writer ≠ .unspawned ∨ e.reader ≠ .unspawned :=
      .inr (by rw [hreader]; rintro ⟨⟩)
    obtain ⟨r, hr, rfl⟩ := Option.map_eq_some_iff.mp hstep
    rcases receive_cases hr with ⟨m, rest, -, rfl⟩ | ⟨err, -, rfl⟩
    · exact h.same_tasks rfl hrunning (fun told hsp => hsp.read_on hheld hreader m rest)
    · refine h.same_tasks rfl hrunning ?_
      intro told hsp
      obtain ⟨got, hread, hgot, -⟩ := hsp.reading
      exact ⟨hsp.writer, by rintro ⟨⟩, hsp.events, hsp.sending, ⟨got, hread, hgot, by rintro ⟨⟩⟩⟩
  · cases hstep

/-- The message `read_loop` holds goes into the inbound channel. When the receiver is
gone the loop ends with it in its hands. -/
theorem send_inbound_kept (h : e.Kept cfg side) (hstep : e.send_inbound = some n) :
    n.Kept cfg side := by
  unfold send_inbound at hstep
  split at hstep
  · rename_i msg hreader hheld
    have hrunning : e.writer ≠ .unspawned ∨ e.reader ≠ .unspawned :=
      .inr (by rw [hreader]; rintro ⟨⟩)
    split_ifs at hstep with hattended hroom
    · cases hstep
      -- the loop is gone, so the task ends with the message in hand
      refine h.same_tasks rfl hrunning ?_
      intro told hsp
      obtain ⟨got, hread, hgot, -⟩ := hsp.reading
      exact ⟨hsp.writer, by rintro ⟨⟩, hsp.events, hsp.sending, ⟨got, hread, hgot, by rintro ⟨⟩⟩⟩
    · cases hstep
      -- the message goes from the hand to the inbound channel; the sequence is the same
      refine h.same_tasks rfl hrunning ?_
      intro told hsp
      obtain ⟨got, hread, -, hall⟩ := hsp.reading
      have hsame := hall hreader (by simpa using hattended)
      rw [hheld, Option.toList_some, List.append_assoc] at hsame
      refine ⟨hsp.writer, hsp.reader, hsp.events, hsp.sending,
        ⟨got, hread, ⟨[], by rw [List.append_nil, hsame]⟩, ?_⟩⟩
      rintro - -
      rw [Option.toList_none, List.append_nil, hsame]
  · cases hstep

/-- The session receives the head of the inbound channel, so what it has handled stays
in the order of what was read. -/
theorem handle_kept (h : e.Kept cfg side) (hstep : e.handle = some n) : n.Kept cfg side := by
  unfold handle at hstep
  split at hstep
  · rename_i msg inbound hinbound
    cases hstep
    refine h.same_stage rfl ?_ ?_
    · intro said heard hun
      rw [hun.inbound] at hinbound
      cases hinbound
    · intro told hsp
      have hsame : e.handled ++ [msg] ++ inbound = e.handled ++ e.inbound := by
        rw [hinbound, List.append_assoc, List.singleton_append]
      obtain ⟨got, hread, hgot, hall⟩ := hsp.reading
      rw [← hsame] at hgot hall
      exact ⟨hsp.writer, hsp.reader, hsp.events, hsp.sending, ⟨got, hread, hgot, hall⟩⟩
  · cases hstep

/-- The session drops its receiver. What was in the channel is lost, and nothing that
comes later can be handled, which is why handled is only a prefix of read. -/
theorem unattend_kept (h : e.Kept cfg side) (hstep : e.unattend = some n) : n.Kept cfg side := by
  unfold unattend at hstep
  split_ifs at hstep
  cases hstep
  refine h.same_stage rfl ?_ ?_
  · intro said heard hun
    exact ⟨⟨hun.writer, hun.reader, hun.outbound, hun.held, rfl, hun.queued, hun.handled, hun.events,
      hun.sent, hun.read⟩, rfl⟩
  · intro told hsp
    obtain ⟨got, hread, hgot, -⟩ := hsp.reading
    refine ⟨hsp.writer, hsp.reader, hsp.events, hsp.sending, ⟨got, hread, ?_, by rintro - ⟨⟩⟩⟩
    rw [List.append_nil]
    exact (List.prefix_append _ _).trans hgot

/-- **A step of an end.** -/
theorem step_kept {a : EndStep} (h : e.Kept cfg side) (hfirst : e.HearsFirst cfg side)
    (hstep : e.step (cfg side) lost a = some n) : n.Kept cfg side := by
  cases a with
  | open_stream => exact open_stream_kept h hstep
  | hear => exact hear_kept h hfirst hstep
  | written => exact written_kept h hstep
  | announce => exact announce_kept h hstep
  | loop_ended => exact loop_ended_kept h hstep
  | leave => exact leave_kept h hstep
  | drop => exact drop_kept h hstep
  | next => exact next_kept h hstep
  | read => exact read_next_kept h hstep
  | send_inbound => exact send_inbound_kept h hstep
  | enqueue msg => exact enqueue_kept h hstep
  | handle => exact handle_kept h hstep
  | unattend => exact unattend_kept h hstep

/-- A write of the handshake fails before all is written, so that the other side
cannot have read it. -/
theorem write_failed_kept (h : e.Kept cfg side) (hstep : e.write_failed = some n) :
    n.Kept cfg side := by
  unfold write_failed at hstep
  by_cases hunwritten : e.unwritten = []
  · rw [if_pos hunwritten] at hstep
    cases hstep
  rw [if_neg hunwritten] at hstep
  -- the write fails in a greeting, in a reply, or in the write task; two ends of one
  -- build refuse nobody
  split at hstep
  · rename_i hat
    unfold Kept at h
    simp only [hat] at h
    cases hstep
    exact ⟨trivial, _, _, h.2.with_stage _, List.prefix_rfl, List.nil_prefix, fun _ _ => hunwritten⟩
  · rename_i hat
    unfold Kept at h
    simp only [hat] at h
    cases hstep
    exact ⟨trivial, _, _, h.2.2.with_stage _, List.prefix_rfl, List.prefix_rfl,
      fun _ _ => hunwritten⟩
  · rename_i hat
    unfold Kept at h
    simp only [hat] at h
  · split_ifs at hstep with hwriter
    cases hstep
    refine h.same_tasks rfl (.inl (by rw [hwriter]; rintro ⟨⟩)) ?_
    intro told hsp
    obtain ⟨out, hsent, hout, -⟩ := hsp.sending
    exact ⟨by rintro ⟨⟩, hsp.reader, hsp.events, ⟨out, hsent, hout, by rintro ⟨⟩⟩, hsp.reading⟩

/-- What arrives does not move an end. -/
theorem incoming_kept (h : e.Kept cfg side) (incoming : List UInt8) (incoming_ended : Bool) :
    ({ e with incoming, incoming_ended } : ConnEnd).Kept cfg side := by
  refine h.same_stage rfl ?_ ?_
  · intro said heard hun
    exact ⟨⟨hun.writer, hun.reader, hun.outbound, hun.held, hun.inbound, hun.queued, hun.handled,
      hun.events, hun.sent, hun.read⟩, rfl⟩
  · intro told hsp
    exact ⟨hsp.writer, hsp.reader, hsp.events, hsp.sending, hsp.reading⟩

/-- Nor do the bytes that go out. -/
theorem write_kept (h : e.Kept cfg side) (hgoing : e.send_dropped = false) (count : Nat) :
    ({ e with unwritten := e.unwritten.drop count } : ConnEnd).Kept cfg side := by
  -- with nothing unwritten the step changes nothing
  by_cases hnone : e.unwritten = []
  · rwa [hnone, List.drop_nil, ← hnone]
  have hun : ∀ said heard, e.Unspawned said heard →
      ({ e with unwritten := e.unwritten.drop count } : ConnEnd).Unspawned said heard :=
    fun said heard hun => ⟨hun.writer, hun.reader, hun.outbound, hun.held, hun.inbound, hun.queued,
      hun.handled, hun.events, hun.sent, hun.read⟩
  have hsp : ∀ told, e.Spawned (greet cfg side) (greet cfg side.other) told →
      ({ e with unwritten := e.unwritten.drop count } : ConnEnd).Spawned (greet cfg side)
        (greet cfg side.other) told :=
    fun told hsp => ⟨hsp.writer, hsp.reader, hsp.events, hsp.sending, hsp.reading⟩
  generalize hn : ({ e with unwritten := e.unwritten.drop count } : ConnEnd) = n at hun hsp ⊢
  have hstage : n.stage = e.stage := by rw [← hn]
  unfold Kept at h ⊢
  rw [hstage]
  -- otherwise something is being written, which not every stage does
  cases hat : e.stage <;> simp only [hat] at h ⊢
  case opening | accepting | listening | awaiting | announcing => exact absurd h.2.1 hnone
  case greeting => exact ⟨h.1, hun _ _ h.2⟩
  case replying => exact ⟨h.1, h.2.1, hun _ _ h.2.2⟩
  case looping | leaving => exact ⟨h.1, hsp _ h.2⟩
  case returned => exact hsp _ h
  case failed =>
    obtain ⟨-, said, heard, hold, -⟩ := h
    simp [send_dropped, hold.writer, hat, ConnStage.gone] at hgoing
  case dropped =>
    rcases h with ⟨said, heard, hold, hprefix⟩ | hold
    · exact .inl ⟨said, heard, hun _ _ hold, hprefix⟩
    · exact .inr (hsp _ hold)

/-- What a step of an end does to its two streams keeps them streams of frames. -/
structure Flows (e n : ConnEnd) : Prop where
  outgoing : ∀ read bytes ended, Flow e.sent read e.unwritten bytes ended →
    Flow n.sent read n.unwritten bytes ended
  incoming : ∀ sent unwritten, Flow sent e.read unwritten e.incoming e.incoming_ended →
    Flow sent n.read unwritten n.incoming n.incoming_ended

/-- A step that touches none of the five stream fields keeps both streams. Most actions
are of this kind. -/
theorem flows_same (hsent : n.sent = e.sent) (hunwritten : n.unwritten = e.unwritten)
    (hread : n.read = e.read) (hincoming : n.incoming = e.incoming)
    (hended : n.incoming_ended = e.incoming_ended) : e.Flows n where
  outgoing := by
    intro read bytes ended h
    rwa [hsent, hunwritten]
  incoming := by
    intro sent unwritten h
    rwa [hread, hincoming, hended]

/-- Two steps one after the other. -/
theorem Flows.trans {m : ConnEnd} (h : e.Flows m) (h' : m.Flows n) : e.Flows n where
  outgoing := fun read bytes ended hflow => h'.outgoing _ _ _ (h.outgoing read bytes ended hflow)
  incoming := fun sent unwritten hflow => h'.incoming _ _ (h.incoming sent unwritten hflow)

/-- Beginning a frame when nothing is unwritten: the outgoing stream is then the frames
sent, followed by the bytes of this one that are still to go. -/
theorem flows_begin (hunwritten : e.unwritten = []) {msg : Message} {frame : List UInt8}
    (hframe : encode_frame msg = .ok frame) (hsent : n.sent = e.sent ++ [msg])
    (hrest : n.unwritten = frame) (hread : n.read = e.read) (hincoming : n.incoming = e.incoming)
    (hended : n.incoming_ended = e.incoming_ended) : e.Flows n where
  outgoing := by
    intro read bytes ended h
    rw [hunwritten] at h
    rw [hsent, hrest]
    exact h.begin hframe
  incoming := by
    intro sent unwritten h
    rwa [hread, hincoming, hended]

/-- The same for `begin`, where a message that does not encode leaves the stream as it
was. -/
theorem begin_flows (hunwritten : e.unwritten = []) (msg : Message) (stage : ConnStage)
    (failed : StreamError → ConnectFailure) : e.Flows (e.begin msg stage failed) := by
  rcases e.begin_cases msg stage failed with ⟨frame, hframe, hbegin⟩ | ⟨length, hbegin⟩
  · rw [hbegin]
    exact flows_begin hunwritten hframe rfl rfl rfl rfl rfl
  · rw [hbegin]
    exact flows_same rfl rfl rfl rfl rfl

/-- A read takes exactly one frame off the incoming stream or fails without a trace. -/
theorem receive_flows {r : Except StreamError Message × ConnEnd} (h : e.receive = some r) :
    e.Flows r.2 := by
  rcases receive_cases h with ⟨m, rest, hread, rfl⟩ | ⟨err, -, rfl⟩
  · exact ⟨fun _ _ _ hflow => hflow, fun _ _ hflow => hflow.take hread⟩
  · exact flows_same rfl rfl rfl rfl rfl

/-- Reading does not write. -/
theorem receive_unwritten {r : Except StreamError Message × ConnEnd} (h : e.receive = some r) :
    r.2.unwritten = e.unwritten := by
  rcases receive_cases h with ⟨m, rest, -, rfl⟩ | ⟨err, -, rfl⟩ <;> rfl

/-- What the client makes of the reply is bookkeeping. -/
theorem hear_reply_flows (msg : Message) : e.Flows (e.hear_reply msg) := by
  cases msg <;> exact flows_same rfl rfl rfl rfl rfl

/-- What the server makes of a `Hello` may begin a `Welcome` or an `Error`, hence the
hypothesis that nothing is half written. -/
theorem hear_hello_flows (hunwritten : e.unwritten = []) (own : LocalPeer) (msg : Message) :
    e.Flows (e.hear_hello own msg) := by
  cases msg with
  | Hello hello =>
      rw [hear_hello]
      split_ifs
      · exact begin_flows hunwritten _ _ _
      · exact begin_flows hunwritten _ _ _
  | _ => exact flows_same rfl rfl rfl rfl rfl

/-- A step of an end, on its streams. -/
theorem step_flows {a : EndStep} (h : e.Kept cfg side)
    (hstep : e.step (cfg side) lost a = some n) : e.Flows n := by
  unfold Kept at h
  -- bytes come into being when a frame is begun and pass on when one is read; the other
  -- steps touch no bytes
  cases a with
  | open_stream =>
      rw [step, open_stream] at hstep
      split at hstep
      · rename_i hat
        simp only [hat] at h
        split_ifs at hstep
        · cases hstep
          exact flows_same rfl rfl rfl rfl rfl
        · cases hstep
          exact begin_flows h.2.1 _ _ _
      · split_ifs at hstep <;> cases hstep <;> exact flows_same rfl rfl rfl rfl rfl
      · cases hstep
  | hear =>
      rw [step, hear] at hstep
      split at hstep
      · obtain ⟨r, hr, rfl⟩ := Option.map_eq_some_iff.mp hstep
        refine (receive_flows hr).trans ?_
        rcases receive_cases hr with ⟨m, rest, -, rfl⟩ | ⟨err, -, rfl⟩
        · exact hear_reply_flows m
        · exact flows_same rfl rfl rfl rfl rfl
      · rename_i hat
        simp only [hat] at h
        obtain ⟨r, hr, rfl⟩ := Option.map_eq_some_iff.mp hstep
        refine (receive_flows hr).trans ?_
        have hunwritten := (receive_unwritten hr).trans h.2.1
        rcases receive_cases hr with ⟨m, rest, -, rfl⟩ | ⟨err, -, rfl⟩
        · exact hear_hello_flows hunwritten _ m
        · exact flows_same rfl rfl rfl rfl rfl
      · cases hstep
  | next =>
      rw [step, next] at hstep
      split at hstep
      · rename_i msg outbound hwriter hunwritten houtbound
        rcases write_message_cases msg with ⟨frame, hwrite, hframe⟩ | ⟨length, hwrite⟩
        · rw [hwrite] at hstep
          cases hstep
          exact flows_begin hunwritten hframe rfl rfl rfl rfl rfl
        · rw [hwrite] at hstep
          cases hstep
          exact flows_same rfl rfl rfl rfl rfl
      · cases hstep
  | read =>
      rw [step, read_next] at hstep
      split at hstep
      · obtain ⟨r, hr, rfl⟩ := Option.map_eq_some_iff.mp hstep
        refine (receive_flows hr).trans ?_
        rcases receive_cases hr with ⟨m, rest, -, rfl⟩ | ⟨err, -, rfl⟩ <;>
          exact flows_same rfl rfl rfl rfl rfl
      · cases hstep
  | written =>
      rw [step, written] at hstep
      split_ifs at hstep
      split at hstep <;> cases hstep <;> exact flows_same rfl rfl rfl rfl rfl
  | send_inbound =>
      rw [step, send_inbound] at hstep
      split at hstep
      · split_ifs at hstep <;> cases hstep <;> exact flows_same rfl rfl rfl rfl rfl
      · cases hstep
  | loop_ended =>
      rw [step, loop_ended] at hstep
      split at hstep
      · split_ifs at hstep
        cases hstep
        exact flows_same rfl rfl rfl rfl rfl
      · cases hstep
  | announce =>
      rw [step, announce] at hstep
      split at hstep <;> cases hstep
      exact flows_same rfl rfl rfl rfl rfl
  | leave =>
      rw [step, leave] at hstep
      split at hstep <;> cases hstep
      exact flows_same rfl rfl rfl rfl rfl
  | drop =>
      rw [step, drop] at hstep
      split at hstep <;> cases hstep
      exact flows_same rfl rfl rfl rfl rfl
  | enqueue msg =>
      rw [step, enqueue] at hstep
      split_ifs at hstep
      cases hstep
      exact flows_same rfl rfl rfl rfl rfl
  | handle =>
      rw [step, handle] at hstep
      split at hstep <;> cases hstep
      exact flows_same rfl rfl rfl rfl rfl
  | unattend =>
      rw [step, unattend] at hstep
      split_ifs at hstep
      cases hstep
      exact flows_same rfl rfl rfl rfl rfl

/-- A write that fails leaves a frame cut off. The stream stays one of frames, the last
of them incomplete for good. -/
theorem write_failed_flows (hstep : e.write_failed = some n) : e.Flows n := by
  unfold write_failed at hstep
  by_cases hunwritten : e.unwritten = []
  · rw [if_pos hunwritten] at hstep
    cases hstep
  rw [if_neg hunwritten] at hstep
  split at hstep
  case h_4 =>
    split_ifs at hstep
    cases hstep
    exact flows_same rfl rfl rfl rfl rfl
  all_goals
    cases hstep
    exact flows_same rfl rfl rfl rfl rfl

/-- Either the tasks were not spawned, and at most the greetings have passed, or they
were, and the session knows. -/
theorem Kept.cases (h : e.Kept cfg side) :
    (∃ said heard, e.Unspawned said heard ∧ said <+: [greet cfg side] ∧
      heard <+: [greet cfg side.other]) ∨
    ∃ told, e.Spawned (greet cfg side) (greet cfg side.other) (.Connected (cfg side.other) :: told) ∧
      told <+: [.Disconnected (cfg side.other).local_peer_id] := by
  unfold Kept at h
  cases hat : e.stage <;> simp only [hat] at h
  case opening | accepting | listening =>
    exact .inl ⟨_, _, h.2.2, List.nil_prefix, List.nil_prefix⟩
  case greeting => exact .inl ⟨_, _, h.2, List.prefix_rfl, List.nil_prefix⟩
  case awaiting => exact .inl ⟨_, _, h.2.2, List.prefix_rfl, List.nil_prefix⟩
  case replying | announcing => exact .inl ⟨_, _, h.2.2, List.prefix_rfl, List.prefix_rfl⟩
  case looping | leaving => exact .inr ⟨[], h.2, List.nil_prefix⟩
  case returned => exact .inr ⟨_, h, List.prefix_rfl⟩
  case failed =>
    obtain ⟨-, said, heard, hun, hsaid, hheard, -⟩ := h
    exact .inl ⟨said, heard, hun, hsaid, hheard⟩
  case dropped =>
    rcases h with ⟨said, heard, hun, hsaid, hheard⟩ | hsp
    · exact .inl ⟨said, heard, hun, hsaid, hheard⟩
    · exact .inr ⟨[], hsp, List.nil_prefix⟩

/-- What an end has said, whatever it is doing: first its greeting, then messages its
session queued, in order. The greeting is the only message the session did not ask for.
-/
theorem Kept.said (h : e.Kept cfg side) :
    (∀ m ∈ e.sent.head?, m = greet cfg side) ∧ e.sent.tail <+: e.queued := by
  rcases h.cases with ⟨said, heard, hun, hsaid, -⟩ | ⟨told, hsp, -⟩
  · rw [hun.sent]
    rcases List.prefix_cons_iff.mp hsaid with rfl | ⟨said, rfl, hnil⟩
    · exact ⟨by rintro m ⟨⟩, List.nil_prefix⟩
    · obtain rfl := List.prefix_nil.mp hnil
      exact ⟨fun m hm => (Option.some.inj hm).symm, List.nil_prefix⟩
  · obtain ⟨out, hsent, hout, -⟩ := hsp.sending
    rw [hsent]
    exact ⟨fun m hm => (Option.some.inj hm).symm, hout⟩

/-- What the session has handled are the messages read after the other side's greeting,
in order. Together with `Kept.said` it reduces the delivery of messages to that of
bytes. -/
theorem Kept.handled (h : e.Kept cfg side) : e.handled <+: e.read.tail := by
  rcases h.cases with ⟨said, heard, hun, -⟩ | ⟨told, hsp, -⟩
  · rw [hun.handled]
    exact List.nil_prefix
  · obtain ⟨got, hread, hgot, -⟩ := hsp.reading
    rw [hread]
    exact (List.prefix_append _ _).trans hgot

end ConnEnd

end InputSync
