/-
The tasks of one connection (`crates/network/src/peer_loop.rs`), from the
network to the session's `inbound_loop`.

A connection has its control stream, which `read_loop` reads, and the streams
the other side opens, which `accept_streams_loop` accepts and gives a task
each. All of them send to one inbound channel. `run_peer_loop` spawns these
tasks and waits for the first of three to end; dropping it, or its return,
drops the join handles and thereby detaches the tasks, so none of the steps
below ever ends one.

For what follows everything that arrives carries a mark: whether the
connection had been torn down by then. `Link.Silent` is the invariant: nothing
marked that would have an effect is anywhere a task can still get at it.
-/
import InputSync.Session

set_option autoImplicit false

namespace InputSync

/-! ## Effects on the machine

The question is what reaches the machine after its user has hung up: input, the
clipboard, files. A `Pong` reaches nobody. -/

/-- The calls that reach the local input, the clipboard or a file. -/
def Effect.touches : Effect → Bool
  | .inject .. | .release_all_modifiers _ | .file_offer _ | .file_chunk _ => true
  | .clipboard (.ClipboardData _) => true
  | .clipboard _ | .send _ => false

/-- The client's inbound loop does such a call on the message. -/
def Message.touches (self : Message) : Bool := (inbound_step true self).any Effect.touches

/-! ## Streams

A stream and the task that reads it. Each task runs until its read fails or nobody takes
what it has. -/

/-- What stands in a stream: a message, or bytes on which `read_message`
fails. -/
inductive Wire
  | msg (m : Message)
  | garbage
deriving DecidableEq

/-- A thing from the network, and whether the connection had been torn down
when it arrived. -/
structure Mail (α : Type) where
  content : α
  late : Bool
deriving DecidableEq

/-- The task that reads a stream: none yet, at its read, with a message still
to be sent to the inbound channel, or ended. -/
inductive ReadTask
  | unread
  | reading
  | holding (mail : Mail Message)
  | ended
deriving DecidableEq

/-- A stream of the other side: what has arrived on it, and the task that reads it. -/
structure RecvStream where
  buffer : List (Mail Wire)
  reader : ReadTask
deriving DecidableEq

/-- A task of the peer loop. -/
inductive TaskState
  | unspawned | running | ended
deriving DecidableEq

namespace RecvStream

/-- Nothing has arrived and nobody reads. -/
def new : RecvStream := ⟨[], .unread⟩

/-- A task is spawned to read the stream. -/
def spawn (self : RecvStream) : Option RecvStream :=
  match self.reader with
  | .unread => some { self with reader := .reading }
  | _ => none

/-- `read_message` in a reading task; an error ends it. -/
def read (self : RecvStream) : Option RecvStream :=
  match self.reader, self.buffer with
  | .reading, ⟨.msg m, late⟩ :: buffer => some ⟨buffer, .holding ⟨m, late⟩⟩
  | .reading, ⟨.garbage, _⟩ :: buffer => some ⟨buffer, .ended⟩
  | _, _ => none

/-- The stream was finished or reset, or the connection lost. -/
def read_failed (self : RecvStream) : Option RecvStream :=
  match self.reader with
  | .reading => some { self with reader := .ended }
  | _ => none

/-- `welcome` of `connect_once`: it reads the control stream itself. -/
def take_welcome (peer_id : PeerId) (self : RecvStream) : Option RecvStream :=
  match self.reader, self.buffer with
  | .unread, ⟨.msg (.Welcome w), _⟩ :: buffer =>
    if w.peer_id = peer_id then some { self with buffer } else none
  | _, _ => none

/-- What each task of a stream requires and leaves, by inversion. A stream gets one
reader, -/
theorem spawn_eq_some {self s : RecvStream} (h : self.spawn = some s) :
    self.reader = .unread ∧ s = { self with reader := .reading } := by
  unfold spawn at h
  split at h
  · rename_i hreader
    exact ⟨hreader, (Option.some.inj h).symm⟩
  · cases h

/-- which takes the next thing on it, and ends if that is no message. -/
theorem read_eq_some {self s : RecvStream} (h : self.read = some s) :
    self.reader = .reading ∧ ∃ mail, self.buffer = mail :: s.buffer ∧
      (s.reader = .ended ∨ ∃ m, mail.content = .msg m ∧ s.reader = .holding ⟨m, mail.late⟩) := by
  unfold read at h
  split at h
  · rename_i m late buffer hreader hbuffer
    obtain rfl := Option.some.inj h
    exact ⟨hreader, _, hbuffer, .inr ⟨m, rfl, rfl⟩⟩
  · rename_i late buffer hreader hbuffer
    obtain rfl := Option.some.inj h
    exact ⟨hreader, _, hbuffer, .inl rfl⟩
  · cases h

/-- A read may fail at any time, and the reader ends. -/
theorem read_failed_eq_some {self s : RecvStream} (h : self.read_failed = some s) :
    self.reader = .reading ∧ s = { self with reader := .ended } := by
  unfold read_failed at h
  split at h
  · rename_i hreader
    exact ⟨hreader, (Option.some.inj h).symm⟩
  · cases h

/-- During the handshake `connect_once` reads the control stream itself, before there is
a reader. -/
theorem take_welcome_eq_some {self s : RecvStream} {peer_id : PeerId}
    (h : self.take_welcome peer_id = some s) :
    self.reader = .unread ∧ s.reader = .unread ∧ ∃ mail, self.buffer = mail :: s.buffer := by
  unfold take_welcome at h
  split at h
  · rename_i w late buffer hreader hbuffer
    split_ifs at h
    obtain rfl := Option.some.inj h
    exact ⟨hreader, hreader, _, hbuffer⟩
  · cases h

end RecvStream

/-! ## Connections

The tasks of one connection, as `run_peer_loop` spawns them. -/

/-- A connection, the control stream first among its streams. `handled` is the
record of what `inbound_loop` received. -/
structure Link where
  streams : List RecvStream
  write_task : TaskState
  aux_task : TaskState
  inbound : List (Mail Message)
  handled : List (Mail Message)
  torn_down : Bool
deriving DecidableEq

/-- What happens on a connection: the other side opens a stream or sends, a
task of the peer loop takes a step or ends, or `inbound_loop` receives. -/
inductive LinkStep
  | open_stream
  | arrive (stream : Nat) (wire : Wire)
  | accept (stream : Nat)
  | read (stream : Nat)
  | send_inbound (stream : Nat)
  | read_failed (stream : Nat)
  | accept_failed
  | write_ended
  | handle

namespace Link

/-- The QUIC handshake is done and the control stream open. -/
def new : Link :=
  { streams := [.new], write_task := .unspawned, aux_task := .unspawned, inbound := [],
    handled := [], torn_down := false }

/-- One stream changes. -/
def on_stream (self : Link) (i : Nat) (f : RecvStream → Option RecvStream) : Option Link :=
  (self.streams[i]?).bind
    (fun stream => (f stream).map (fun s => { self with streams := self.streams.set i s }))

/-- One step on a connection. None of them looks at whether it was torn down, but for
the mark on what arrives. -/
def step (self : Link) : LinkStep → Option Link
  | .open_stream => some { self with streams := self.streams ++ [.new] }
  | .arrive i wire =>
    self.on_stream i
      (fun stream => some { stream with buffer := stream.buffer ++ [⟨wire, self.torn_down⟩] })
  | .accept i => if self.aux_task = .running then self.on_stream i RecvStream.spawn else none
  | .read i => self.on_stream i RecvStream.read
  | .send_inbound i =>
    match self.streams[i]? with
    | some ⟨buffer, .holding mail⟩ =>
      if self.inbound.length < 256 then
        some { self with
          streams := self.streams.set i ⟨buffer, .reading⟩, inbound := self.inbound ++ [mail] }
      else none
    | _ => none
  | .read_failed i => self.on_stream i RecvStream.read_failed
  | .accept_failed =>
    if self.aux_task = .running then some { self with aux_task := .ended } else none
  | .write_ended =>
    if self.write_task = .running then some { self with write_task := .ended } else none
  | .handle =>
    match self.inbound with
    | mail :: inbound => some { self with inbound, handled := self.handled ++ [mail] }
    | [] => none

/-- `run_peer_loop` spawns its three tasks. -/
def spawn (self : Link) : Option Link :=
  (self.on_stream 0 RecvStream.spawn).map
    (fun link => { link with write_task := .running, aux_task := .running })

/-- One of the three has ended, so that `run_peer_loop` returns. -/
def loop_ended (self : Link) : Bool :=
  self.write_task = .ended || self.aux_task = .ended ||
    self.streams.head?.any (fun control => control.reader = .ended)

/-- The connection's future is gone. -/
def tear_down (self : Link) : Link := { self with torn_down := true }

/-! ## Silence

The invariant is about everything that arrived late, wherever it is: in a stream, in a
reader's hands, in the channel. It is harmless, or it lies where no task will read it. -/

/-- Some task reads the stream, or may come to. -/
def Reads (self : Link) (stream : RecvStream) : Prop :=
  match stream.reader with
  | .unread => self.aux_task = .running
  | .reading | .holding _ => True
  | .ended => False

/-- A message that arrived late has no effect. -/
def Harmless (mail : Mail Message) : Prop := mail.late = true → mail.content.touches = false

/-- Nor has one still in the stream, or in the hands of its reader. -/
structure HarmlessStream (stream : RecvStream) : Prop where
  buffer : ∀ m late, ⟨.msg m, late⟩ ∈ stream.buffer → Harmless ⟨m, late⟩
  holding : ∀ mail, stream.reader = .holding mail → Harmless mail

/-- No task can get at a message that arrived late and has an effect. A
connection that is up has no late messages at all. -/
structure Silent (link : Link) : Prop where
  handled : ∀ mail ∈ link.handled, Harmless mail
  inbound : ∀ mail ∈ link.inbound, Harmless mail
  streams : ∀ stream ∈ link.streams, link.Reads stream → HarmlessStream stream
  fresh : link.torn_down = false → ∀ stream ∈ link.streams, ∀ mail ∈ stream.buffer,
    mail.late = false

/-- Once the connection is torn down, what arrives with an effect arrives where
no task reads. -/
def ArrivesUnread (self : Link) : LinkStep → Prop
  | .arrive i (.msg m) =>
    self.torn_down = true → m.touches = true → ∀ stream, self.streams[i]? = some stream →
      ¬ self.Reads stream
  | _ => True

/-- The connection is up and nothing has arrived. -/
theorem silent_new : new.Silent where
  handled := by
    intro mail hmail
    cases hmail
  inbound := by
    intro mail hmail
    cases hmail
  streams := by
    intro stream hstream hreads
    obtain rfl := List.mem_singleton.mp hstream
    cases hreads
  fresh := by
    intro _ stream hstream mail hmail
    obtain rfl := List.mem_singleton.mp hstream
    cases hmail

/-- A step on one stream changes that stream. -/
theorem on_stream_eq_some {self next : Link} {i : Nat} {f : RecvStream → Option RecvStream}
    (h : self.on_stream i f = some next) :
    ∃ stream s, self.streams[i]? = some stream ∧ f stream = some s ∧
      next = { self with streams := self.streams.set i s } := by
  unfold on_stream at h
  obtain ⟨stream, hstream, h⟩ := Option.bind_eq_some_iff.mp h
  obtain ⟨s, hs, hnext⟩ := Option.map_eq_some_iff.mp h
  exact ⟨stream, s, hstream, hs, hnext.symm⟩

/-- **One stream at a time.** Changing a stream keeps the silence if the new
stream is harmless where it is read and has nothing late while the connection
is up. -/
theorem Silent.set {link : Link} (h : link.Silent) (i : Nat) (s : RecvStream)
    (hread : link.Reads s → HarmlessStream s)
    (hfresh : link.torn_down = false → ∀ mail ∈ s.buffer, mail.late = false) :
    ({ link with streams := link.streams.set i s } : Link).Silent where
  handled := h.handled
  inbound := h.inbound
  streams := by
    intro stream hstream hreads
    rcases List.mem_or_eq_of_mem_set hstream with hold | rfl
    · exact h.streams stream hold hreads
    · exact hread hreads
  fresh := by
    intro hup stream hstream
    rcases List.mem_or_eq_of_mem_set hstream with hold | rfl
    · exact h.fresh hup stream hold
    · exact hfresh hup

/-- The streams a task reads only become fewer when the acceptor ends. -/
theorem Silent.accept_ended {link : Link} (h : link.Silent) :
    ({ link with aux_task := .ended } : Link).Silent where
  handled := h.handled
  inbound := h.inbound
  streams := by
    intro stream hstream hreads
    apply h.streams stream hstream
    unfold Reads at *
    split at hreads
    · cases hreads
    · trivial
    · trivial
    · exact hreads
  fresh := h.fresh

/-- What arrives is read as before, with the new message at the end. -/
theorem step_arrive_silent {self next : Link} {i : Nat} {wire : Wire} (hs : self.Silent)
    (hg : self.ArrivesUnread (.arrive i wire)) (h : self.step (.arrive i wire) = some next) :
    next.Silent := by
  obtain ⟨stream, s, hstream, hnew, rfl⟩ := on_stream_eq_some h
  obtain rfl := Option.some.inj hnew
  have hmem := List.mem_of_getElem? hstream
  apply hs.set
  · intro hreads
    have hold := hs.streams stream hmem hreads
    refine ⟨?_, hold.holding⟩
    intro m late hm hlate
    rcases List.mem_append.mp hm with hm | hm
    · exact hold.buffer m late hm hlate
    · cases List.mem_singleton.mp hm
      -- it came while the connection was down, so the guard speaks about it
      by_contra htouch
      exact hg hlate (by simpa using htouch) stream hstream hreads
  · intro hup mail hmail
    rcases List.mem_append.mp hmail with hmail | hmail
    · exact hs.fresh hup stream hmem mail hmail
    · rw [List.mem_singleton.mp hmail]
      exact hup

/-- A task takes a message from its stream, or ends over it. -/
theorem step_read_silent {self next : Link} {i : Nat} (hs : self.Silent)
    (h : self.step (.read i) = some next) : next.Silent := by
  obtain ⟨stream, s, hstream, hread, rfl⟩ := on_stream_eq_some h
  have hmem := List.mem_of_getElem? hstream
  obtain ⟨hreader, mail, hbuffer, hs'⟩ := RecvStream.read_eq_some hread
  have hold := hs.streams stream hmem (by simp [Reads, hreader])
  apply hs.set
  -- the reader now holds the first message of the buffer, and the rest is still in it
  · intro hreads
    rcases hs' with hend | ⟨m, hm, hhold⟩
    · simp [Reads, hend] at hreads
    · refine ⟨?_, ?_⟩
      · intro m' late hm'
        exact hold.buffer m' late (by rw [hbuffer]; exact List.mem_cons_of_mem _ hm')
      · intro mail' hmail'
        rw [hhold] at hmail'
        cases hmail'
        apply hold.buffer
        rw [hbuffer, ← hm]
        exact List.mem_cons_self
  -- before the teardown everything in the buffer arrived in time
  · intro hup m hm
    exact hs.fresh hup stream hmem m (by rw [hbuffer]; exact List.mem_cons_of_mem _ hm)

/-- A reader puts what it holds into the inbound channel. It holds nothing late that has
an effect, so neither does the channel. -/
theorem step_send_silent {self next : Link} {i : Nat} (hs : self.Silent)
    (h : self.step (.send_inbound i) = some next) : next.Silent := by
  simp only [step] at h
  split at h
  · rename_i buffer mail hstream
    split_ifs at h with hroom
    obtain rfl := Option.some.inj h
    have hmem := List.mem_of_getElem? hstream
    have hold := hs.streams _ hmem trivial
    have hset := hs.set i ⟨buffer, .reading⟩ (fun _ => ⟨hold.buffer, by rintro _ ⟨⟩⟩)
      (fun hup m => hs.fresh hup _ hmem m)
    refine ⟨hset.handled, ?_, hset.streams, hset.fresh⟩
    intro m hm
    rcases List.mem_append.mp hm with hm | hm
    · exact hs.inbound m hm
    · rw [List.mem_singleton.mp hm]
      exact hold.holding mail rfl
  · cases h

/-- A new stream is empty. -/
theorem step_open_silent {self next : Link} (hs : self.Silent)
    (h : self.step .open_stream = some next) : next.Silent := by
  obtain rfl := Option.some.inj h
  refine ⟨hs.handled, hs.inbound, ?_, ?_⟩
  · intro stream hstream hreads
    rcases List.mem_append.mp hstream with hold | hnew
    · exact hs.streams stream hold hreads
    · rw [List.mem_singleton.mp hnew]
      exact ⟨by rintro _ _ ⟨⟩, by rintro _ ⟨⟩⟩
  · intro hup stream hstream
    rcases List.mem_append.mp hstream with hold | hnew
    · exact hs.fresh hup stream hold
    · rw [List.mem_singleton.mp hnew]
      rintro _ ⟨⟩

/-- A stream is accepted while the accepting task lives, so what is on it came
before. -/
theorem step_accept_silent {self next : Link} {i : Nat} (hs : self.Silent)
    (h : self.step (.accept i) = some next) : next.Silent := by
  simp only [step] at h
  split_ifs at h with haux
  obtain ⟨stream, s, hstream, hspawn, rfl⟩ := on_stream_eq_some h
  have hmem := List.mem_of_getElem? hstream
  obtain ⟨hreader, rfl⟩ := RecvStream.spawn_eq_some hspawn
  refine hs.set i _ ?_ (fun hup m => hs.fresh hup stream hmem m)
  intro _
  have hold := hs.streams stream hmem (by simp [Reads, hreader, haux])
  exact ⟨hold.buffer, by rintro _ ⟨⟩⟩

/-- What is handled was in the channel. -/
theorem step_handle_silent {self next : Link} (hs : self.Silent)
    (h : self.step .handle = some next) : next.Silent := by
  simp only [step] at h
  split at h
  · rename_i mail inbound hinbound
    obtain rfl := Option.some.inj h
    have hall := hs.inbound
    rw [hinbound] at hall
    refine ⟨?_, fun m hm => hall m (List.mem_cons_of_mem _ hm), hs.streams, hs.fresh⟩
    intro m hm
    rcases List.mem_append.mp hm with hm | hm
    · exact hs.handled m hm
    · rw [List.mem_singleton.mp hm]
      exact hall mail List.mem_cons_self
  · cases h

/-- No task of a connection tears it down. -/
theorem step_torn_down {self next : Link} {a : LinkStep} (h : self.step a = some next) :
    next.torn_down = self.torn_down := by
  cases a with
  | open_stream =>
      obtain rfl := Option.some.inj h
      rfl
  | arrive i wire | read i | read_failed i =>
      obtain ⟨_, _, -, -, rfl⟩ := on_stream_eq_some h
      rfl
  | accept i =>
      simp only [step] at h
      split_ifs at h
      obtain ⟨_, _, -, -, rfl⟩ := on_stream_eq_some h
      rfl
  | send_inbound i =>
      simp only [step] at h
      split at h
      · split_ifs at h
        obtain rfl := Option.some.inj h
        rfl
      · cases h
  | accept_failed | write_ended =>
      simp only [step] at h
      split_ifs at h
      obtain rfl := Option.some.inj h
      rfl
  | handle =>
      simp only [step] at h
      split at h
      · obtain rfl := Option.some.inj h
        rfl
      · cases h

/-- **A step of one connection.** Guarded arrivals keep it silent, and so does
all its tasks do. -/
theorem step_silent (self next : Link) (a : LinkStep) (hs : self.Silent)
    (hg : self.ArrivesUnread a) (h : self.step a = some next) :
    next.Silent ∧ next.torn_down = self.torn_down := by
  refine ⟨?_, step_torn_down h⟩
  -- only an arrival can bring a late message, and the condition says that nobody reads
  -- that stream any more
  cases a with
  | open_stream => exact step_open_silent hs h
  | arrive i wire => exact step_arrive_silent hs hg h
  | accept i => exact step_accept_silent hs h
  | read i => exact step_read_silent hs h
  | send_inbound i => exact step_send_silent hs h
  | read_failed i =>
      obtain ⟨stream, s, hstream, hfail, rfl⟩ := on_stream_eq_some h
      have hmem := List.mem_of_getElem? hstream
      obtain ⟨-, rfl⟩ := RecvStream.read_failed_eq_some hfail
      refine hs.set i _ ?_ (fun hup m => hs.fresh hup stream hmem m)
      intro hreads
      cases hreads
  | accept_failed =>
      simp only [step] at h
      split_ifs at h
      obtain rfl := Option.some.inj h
      exact hs.accept_ended
  | write_ended =>
      simp only [step] at h
      split_ifs at h
      obtain rfl := Option.some.inj h
      exact ⟨hs.handled, hs.inbound, hs.streams, hs.fresh⟩
  | handle => exact step_handle_silent hs h

/-! ## What the supervisor does to a connection

The steps of the connection's owner, for the file that has several connections. -/

/-- The tasks are spawned on a connection that is up, so there is nothing late
for them to find. -/
theorem spawn_silent {self next : Link} (hs : self.Silent) (hup : self.torn_down = false)
    (h : self.spawn = some next) : next.Silent ∧ next.torn_down = false := by
  obtain ⟨link, hlink, rfl⟩ := Option.map_eq_some_iff.mp h
  obtain ⟨stream, s, hstream, hspawn, rfl⟩ := on_stream_eq_some hlink
  have hmem := List.mem_of_getElem? hstream
  obtain ⟨-, rfl⟩ := RecvStream.spawn_eq_some hspawn
  -- what arrived before the teardown is harmless by definition
  have hharmless : ∀ buffer : List (Mail Wire), (∀ mail ∈ buffer, mail.late = false) →
      ∀ m late, ⟨.msg m, late⟩ ∈ buffer → Harmless ⟨m, late⟩ := by
    intro buffer hnone m late hm hlate
    have hfalse := hnone _ hm
    rw [show late = true from hlate] at hfalse
    cases hfalse
  have hset := hs.set 0 { stream with reader := .reading }
    (fun _ => ⟨hharmless stream.buffer (hs.fresh hup stream hmem), by rintro _ ⟨⟩⟩)
    (fun hup m => hs.fresh hup stream hmem m)
  refine ⟨⟨hset.handled, hset.inbound, ?_, hset.fresh⟩, hup⟩
  intro stream' hstream' _
  refine ⟨hharmless _ (hset.fresh hup stream' hstream'), ?_⟩
  intro mail hmail
  exact (hset.streams stream' hstream' (by simp [Reads, hmail])).holding mail hmail

/-- Tearing down marks what comes later; it ends no task and takes nothing away. All
there is by then came before. -/
theorem tear_down_silent {self : Link} (hs : self.Silent) : self.tear_down.Silent where
  handled := hs.handled
  inbound := hs.inbound
  streams := hs.streams
  fresh := by
    rintro ⟨⟩

/-- Reading the `Welcome` takes one thing off a stream and keeps the rest. -/
theorem take_welcome_silent {self next : Link} {peer_id : PeerId} (hs : self.Silent)
    (h : self.on_stream 0 (RecvStream.take_welcome peer_id) = some next) :
    next.Silent ∧ next.torn_down = self.torn_down := by
  obtain ⟨stream, s, hstream, htake, rfl⟩ := on_stream_eq_some h
  have hmem := List.mem_of_getElem? hstream
  obtain ⟨hreader, hreader', mail, hbuffer⟩ := RecvStream.take_welcome_eq_some htake
  have hsub : ∀ mail' ∈ s.buffer, mail' ∈ stream.buffer := by
    intro mail' hmail'
    rw [hbuffer]
    exact List.mem_cons_of_mem _ hmail'
  refine ⟨hs.set 0 s ?_ (fun hup m hm => hs.fresh hup stream hmem m (hsub m hm)), rfl⟩
  intro hreads
  have hold := hs.streams stream hmem (by simpa [Reads, hreader, hreader'] using hreads)
  refine ⟨fun m late hm => hold.buffer m late (hsub _ hm), ?_⟩
  intro mail' hmail'
  rw [hreader'] at hmail'
  cases hmail'

end Link

end InputSync
