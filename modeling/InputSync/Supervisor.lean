/-
The client's connections (`crates/network/src/client.rs`): the supervisor
task, the connection attempt it races against the next command, and the two
tasks its events go to (`crates/daemon/src/app.rs`, `session.rs`).

`connect_once` is a future, so it stops at an await and may be dropped there.
`Connecting` has one state for each stretch between awaits that differ in what
has been emitted; a command drops whichever it is in. The event channel with
the drain task and the session's handler behind it is a `Relay`.

What is at stake is the pair `Connected`, `Disconnected`: the second is sent by
the future that sent the first, and only if that is still there.
-/
import InputSync.Relay
import InputSync.Session

set_option autoImplicit false

namespace InputSync

/-! ## Events and what they update

Two lists hang on the event channel: that of the daemon, which `status` shows, and that
of the session, which the clipboard loop sends to. -/

/-- `ClientEvent`. -/
inductive ClientEvent
  | Connected (handle : PeerHandle)
  | Disconnected (peer_id : PeerId)
deriving DecidableEq

/-- The drain task of the daemon on one event, up to the send to the session. -/
def drain_client_event (peers : List TrackedPeer) : ClientEvent → List TrackedPeer
  | .Connected handle => peers ++ [handle.track]
  | .Disconnected peer_id => peers.filter (fun p => p.peer_id ≠ peer_id)

/-- The client session: the peers the clipboard loop broadcasts to, and the
connections for which an `inbound_loop` was spawned. -/
structure ClientTasks where
  peers : List PeerHandle
  inbound_loops : List PeerHandle
deriving DecidableEq

/-- One iteration of `handle_peer_events_client`. -/
def ClientTasks.handle_peer_event (self : ClientTasks) : ClientEvent → ClientTasks
  | .Connected handle =>
    { peers := self.peers ++ [handle], inbound_loops := self.inbound_loops ++ [handle] }
  | .Disconnected peer_id =>
    { self with peers := self.peers.filter (fun p => p.peer_id ≠ peer_id) }

/-! ## The supervisor

One task with one future at a time. Where the future stands is part of where the
supervisor stands. -/

/-- What one dial is told from another by. -/
structure ClientConfig where
  server_addr : String
  trusted_fingerprints : List String
deriving DecidableEq

/-- `ClientCommand`. -/
inductive ClientCommand
  | Dial (cfg : ClientConfig)
  | HangUp
deriving DecidableEq

/-- Where `connect_once` stands. A connection is numbered when the QUIC
handshake is done; its handle exists from the `Welcome` on. -/
inductive Connecting
  | dialing
  | handshaking (conn : Nat)
  | announcing (handle : PeerHandle)
  | looping (handle : PeerHandle)
  | clearing (handle : PeerHandle)
  | closing (handle : PeerHandle)
deriving DecidableEq

/-- Where the supervisor stands: waiting for a command with nothing pending, at
the top of its loop with a configuration to dial, racing a connection against
the next command, or gone. -/
inductive SupervisorPc
  | waiting
  | dial (cfg : ClientConfig)
  | connecting (cfg : ClientConfig) (future : Connecting)
  | exited
deriving DecidableEq

/-- The announced connection, from its `Connected` until its `Disconnected`. -/
def SupervisorPc.connected : SupervisorPc → Option PeerHandle
  | .connecting _ (.looping handle)
  | .connecting _ (.clearing handle)
  | .connecting _ (.closing handle) => some handle
  | _ => none

/-- Where a command leads, received by `recv` while idle or by the `select!`
that drops the future: `None` is a closed channel. -/
def SupervisorPc.after_command : Option ClientCommand → SupervisorPc
  | some (.Dial cfg) => .dial cfg
  | some .HangUp => .waiting
  | none => .exited

/-- The supervisor with everything its events go to. `emitted` is the record
of what was sent. -/
structure Supervisor where
  pc : SupervisorPc
  next_conn : Nat
  emitted : List ClientEvent
  events : Relay ClientEvent (List TrackedPeer) ClientTasks

/-- The supervisor's own steps, those of the future it holds, and those of the tasks
behind its events. -/
inductive SupervisorStep
  | command (cmd : Option ClientCommand)
  | start
  | established
  | welcomed (peer_id : PeerId)
  | failed
  | announce
  | peer_loop_ended
  | cleared
  | disconnect
  | relay (a : RelayStep)

namespace Supervisor

/-- Idle, with nothing to do. -/
def new : Supervisor :=
  { pc := .waiting, next_conn := 0, emitted := [], events := .new [] ⟨[], []⟩ }

/-- A send on the event channel, of capacity 64. -/
def emit (self : Supervisor) (e : ClientEvent) (pc : SupervisorPc) : Option Supervisor :=
  (self.events.emit 64 e).map
    (fun events => { self with pc, emitted := self.emitted ++ [e], events })

/-- A step of the tasks behind the event channel; the session's has capacity
32. -/
def relay_step (events : Relay ClientEvent (List TrackedPeer) ClientTasks) :
    RelayStep → Option (Relay ClientEvent (List TrackedPeer) ClientTasks) :=
  Relay.step drain_client_event ClientTasks.handle_peer_event 32 events

/-- One step. -/
def step (self : Supervisor) : SupervisorStep → Option Supervisor
  | .command cmd =>
    match self.pc with
    | .waiting | .connecting .. => some { self with pc := .after_command cmd }
    | .dial _ | .exited => none
  | .start =>
    match self.pc with
    | .dial cfg => some { self with pc := .connecting cfg .dialing }
    | _ => none
  -- connect_once
  | .established =>
    match self.pc with
    | .connecting cfg .dialing =>
      some { self with
        pc := .connecting cfg (.handshaking self.next_conn), next_conn := self.next_conn + 1 }
    | _ => none
  | .welcomed peer_id =>
    match self.pc with
    | .connecting cfg (.handshaking conn) =>
      some { self with pc := .connecting cfg (.announcing ⟨peer_id, conn⟩) }
    | _ => none
  | .failed =>
    match self.pc with
    | .connecting _ .dialing | .connecting _ (.handshaking _) => some { self with pc := .waiting }
    | _ => none
  | .announce =>
    match self.pc with
    | .connecting cfg (.announcing handle) =>
      self.emit (.Connected handle) (.connecting cfg (.looping handle))
    | _ => none
  | .peer_loop_ended =>
    match self.pc with
    | .connecting cfg (.looping handle) => some { self with pc := .connecting cfg (.clearing handle) }
    | _ => none
  | .cleared =>
    match self.pc with
    | .connecting cfg (.clearing handle) => some { self with pc := .connecting cfg (.closing handle) }
    | _ => none
  | .disconnect =>
    match self.pc with
    | .connecting _ (.closing handle) => self.emit (.Disconnected handle.peer_id) .waiting
    | _ => none
  | .relay a => (relay_step self.events a).map (fun events => { self with events })

/-! ## What a step can do

One inversion lemma for each kind of step. -/

/-- An emission goes through the bounded channel and is recorded. The inversions of this
section are all that later proofs know about `step`. -/
theorem emit_eq_some {self next : Supervisor} {e : ClientEvent} {pc : SupervisorPc}
    (h : self.emit e pc = some next) :
    ∃ events, self.events.emit 64 e = some events ∧
      next = { self with pc, emitted := self.emitted ++ [e], events } := by
  unfold emit at h
  obtain ⟨events, hevents, hnext⟩ := Option.map_eq_some_iff.mp h
  exact ⟨events, hevents, hnext.symm⟩

/-- The steps of `connect_once` that emit nothing. -/
def Quiet : SupervisorStep → Prop
  | .start | .established | .welcomed _ | .failed | .peer_loop_ended | .cleared => True
  | _ => False

/-- A command takes the supervisor from wherever it is. If it was racing a connection,
the future of that is dropped, announced or not. -/
theorem step_command {self next : Supervisor} {cmd : Option ClientCommand}
    (h : self.step (.command cmd) = some next) :
    next = { self with pc := .after_command cmd } ∧ self.pc ≠ .exited := by
  cases hpc : self.pc <;> simp only [step, hpc, reduceCtorEq, Option.some.injEq] at h
  all_goals exact ⟨h.symm, by simp⟩

/-- A quiet step moves the future on and leaves all else. -/
theorem step_quiet {self next : Supervisor} {a : SupervisorStep}
    (h : self.step a = some next) (hq : Quiet a) :
    next.pc.connected = self.pc.connected ∧ next.emitted = self.emitted ∧
      next.events = self.events ∧ self.pc ≠ .exited ∧
      (next.pc = .waiting → self.pc.connected = none) := by
  cases a with
  | command _ | announce | disconnect | relay _ => exact absurd hq (by simp [Quiet])
  | start | established | welcomed _ | peer_loop_ended | cleared =>
      simp only [step] at h
      split at h
      · rename_i hpc
        obtain rfl := Option.some.inj h
        simp [hpc, SupervisorPc.connected]
      · cases h
  | failed =>
      -- an error comes from before the announcement
      simp only [step] at h
      split at h
      · rename_i hpc
        obtain rfl := Option.some.inj h
        simp [hpc, SupervisorPc.connected]
      · rename_i hpc
        obtain rfl := Option.some.inj h
        simp [hpc, SupervisorPc.connected]
      · cases h

/-- The handshake is done: `Connected` is emitted, and the future goes into the peer
loop. -/
theorem step_announce {self next : Supervisor} (h : self.step .announce = some next) :
    ∃ cfg handle events, self.pc = .connecting cfg (.announcing handle) ∧
      self.events.emit 64 (.Connected handle) = some events ∧
      next = { self with
        pc := .connecting cfg (.looping handle)
        emitted := self.emitted ++ [.Connected handle]
        events } := by
  simp only [step] at h
  split at h
  · rename_i cfg handle hpc
    obtain ⟨events, hevents, hnext⟩ := emit_eq_some h
    exact ⟨cfg, handle, events, hpc, hevents, hnext⟩
  · cases h

/-- The peer loop has returned: `Disconnected` is emitted by the same future, and the
supervisor waits for a command. -/
theorem step_disconnect {self next : Supervisor} (h : self.step .disconnect = some next) :
    ∃ cfg handle events, self.pc = .connecting cfg (.closing handle) ∧
      self.events.emit 64 (.Disconnected handle.peer_id) = some events ∧
      next = { self with
        pc := .waiting
        emitted := self.emitted ++ [.Disconnected handle.peer_id]
        events } := by
  simp only [step] at h
  split at h
  · rename_i cfg handle hpc
    obtain ⟨events, hevents, hnext⟩ := emit_eq_some h
    exact ⟨cfg, handle, events, hpc, hevents, hnext⟩
  · cases h

/-- The tasks behind the channel do not touch the supervisor. -/
theorem step_relay {self next : Supervisor} {a : RelayStep}
    (h : self.step (.relay a) = some next) :
    ∃ events, relay_step self.events a = some events ∧ next = { self with events } := by
  obtain ⟨events, hevents, hnext⟩ := Option.map_eq_some_iff.mp h
  exact ⟨events, hevents, hnext.symm⟩

/-! ## Balance

Announcement and end are emitted by one future. The invariant says which pair is open,
and a command that drops the future leaves it open for good. -/

/-- Idle, or about to dial. -/
def Unconnected (self : Supervisor) : Prop := self.pc = .waiting ∨ ∃ cfg, self.pc = .dial cfg

/-- Between connections every `Connected` has been followed by a matching
`Disconnected`. -/
def Balanced (self : Supervisor) : Prop :=
  self.Unconnected → ∀ pre handle post, self.emitted = pre ++ .Connected handle :: post →
    .Disconnected handle.peer_id ∈ post

/-- Once the events are drained, the daemon and the session know at most one
peer, and none while the supervisor is idle. -/
def AtMostOne (self : Supervisor) : Prop :=
  ∀ steps last, exec relay_step self.events steps = some last → last.Drained →
    last.tracked.length ≤ 1 ∧ last.served.peers.length ≤ 1 ∧
      (self.pc = .waiting → last.tracked = [] ∧ last.served.peers = [])

/-- A command for the supervisor comes while no connection is announced. -/
def NoneConnected (self : Supervisor) : SupervisorStep → Prop
  | .command (some _) => self.pc.connected = none
  | _ => True

/-- The events of connections that have come and gone. -/
def visits (handles : List PeerHandle) : List ClientEvent :=
  handles.flatMap (fun handle => [.Connected handle, .Disconnected handle.peer_id])

/-- What has been emitted and what the lists will be, with `current` announced
and everything before it over. -/
structure Paired (sup : Supervisor) (current : Option PeerHandle) : Prop where
  log : ∃ past, sup.emitted = visits past ++ current.toList.map .Connected
  tracked : sup.events.settled_tracked drain_client_event = current.toList.map PeerHandle.track
  served : (sup.events.settled_served ClientTasks.handle_peer_event).peers = current.toList

/-- The announced connection is the current one, until the supervisor has
gone. -/
def Strong (self : Supervisor) : Prop :=
  ∃ current, self.Paired current ∧ (self.pc = .exited ∨ self.pc.connected = current)

/-- A supervisor that has not gone says which connection is announced. -/
theorem current_eq {self : Supervisor} {current : Option PeerHandle} {pc : SupervisorPc}
    (h : self.pc = .exited ∨ self.pc.connected = current) (hpc : self.pc = pc)
    (halive : pc ≠ .exited) : pc.connected = current := by
  rw [hpc] at h
  exact h.resolve_left halive

/-- In a sequence of connections that have come and gone every `Connected` is followed
by its `Disconnected`. -/
theorem visits_followed (past : List PeerHandle) (pre post : List ClientEvent)
    (handle : PeerHandle) (h : visits past = pre ++ .Connected handle :: post) :
    .Disconnected handle.peer_id ∈ post := by
  induction past generalizing pre with
  | nil => simp [visits] at h
  | cons first past ih =>
      have hcons : visits (first :: past)
          = .Connected first :: .Disconnected first.peer_id :: visits past := rfl
      rw [hcons] at h
      match pre with
      | [] =>
          cases h
          exact List.mem_cons_self
      -- the second event of a visit is no `Connected`
      | [_] => cases h
      | _ :: _ :: pre =>
          simp only [List.cons_append, List.cons.injEq] at h
          exact ih pre h.2.2

/-- However the tasks drain the events, the lists they end with are the settled ones. -/
theorem atMostOne_iff (self : Supervisor) :
    self.AtMostOne ↔
      (self.events.settled_tracked drain_client_event).length ≤ 1 ∧
        (self.events.settled_served ClientTasks.handle_peer_event).peers.length ≤ 1 ∧
        (self.pc = .waiting → self.events.settled_tracked drain_client_event = [] ∧
          (self.events.settled_served ClientTasks.handle_peer_event).peers = []) :=
  Relay.once_drained_iff drain_client_event ClientTasks.handle_peer_event 32 (by decide)
    (fun (tracked : List TrackedPeer) (served : ClientTasks) => tracked.length ≤ 1 ∧
      served.peers.length ≤ 1 ∧ (self.pc = .waiting → tracked = [] ∧ served.peers = []))
    self.events

/-- At the start nothing is announced and nothing was. -/
theorem strong_new : new.Strong := ⟨none, ⟨⟨[], rfl⟩, rfl, rfl⟩, .inr rfl⟩

/-- Paired events are balanced, and leave at most the current peer. -/
theorem Strong.balanced {self : Supervisor} (h : self.Strong) :
    self.Balanced ∧ self.AtMostOne := by
  obtain ⟨current, ⟨⟨past, hlog⟩, htracked, hserved⟩, hpc⟩ := h
  constructor
  · rintro hidle pre handle post hsplit
    have hnone : none = current := by
      rcases hidle with hw | ⟨cfg, hd⟩
      · exact current_eq hpc hw (by simp)
      · exact current_eq hpc hd (by simp)
    subst hnone
    -- what was emitted are whole visits
    apply visits_followed past pre post handle
    rw [← hsplit, hlog]
    simp
  · rw [atMostOne_iff, htracked, hserved]
    refine ⟨?_, ?_, ?_⟩
    · cases current <;> simp
    · cases current <;> simp
    · intro hw
      obtain rfl : none = current := current_eq hpc hw (by simp)
      exact ⟨rfl, rfl⟩

/-- A command that finds no connection announced interrupts no pair. -/
theorem step_command_strong {self next : Supervisor} {cmd : Option ClientCommand}
    (hs : self.Strong) (hg : self.NoneConnected (.command cmd))
    (h : self.step (.command cmd) = some next) : next.Strong := by
  obtain ⟨current, hpaired, hpc⟩ := hs
  obtain ⟨rfl, halive⟩ := step_command h
  refine ⟨current, ⟨hpaired.log, hpaired.tracked, hpaired.served⟩, ?_⟩
  cases cmd with
  | none => exact .inl rfl
  | some cmd =>
      right
      have hcurrent := hpc.resolve_left halive
      rw [← hcurrent, show self.pc.connected = none from hg]
      cases cmd <;> rfl

/-- An announcement opens a pair. -/
theorem step_announce_strong {self next : Supervisor} (hs : self.Strong)
    (h : self.step .announce = some next) : next.Strong := by
  obtain ⟨current, ⟨⟨past, hlog⟩, htracked, hserved⟩, hpc⟩ := hs
  obtain ⟨cfg, handle, events, hself, hevents, rfl⟩ := step_announce h
  obtain rfl : none = current := current_eq hpc hself (by simp)
  obtain ⟨htracked', hserved'⟩ := Relay.emit_settled drain_client_event
    ClientTasks.handle_peer_event hevents
  refine ⟨some handle, ⟨⟨past, ?_⟩, ?_, ?_⟩, .inr rfl⟩
  · simp [hlog]
  · rw [htracked', htracked]
    rfl
  · rw [hserved', ClientTasks.handle_peer_event, hserved]
    rfl

/-- The end of a connection closes its pair. -/
theorem step_disconnect_strong {self next : Supervisor} (hs : self.Strong)
    (h : self.step .disconnect = some next) : next.Strong := by
  obtain ⟨current, ⟨⟨past, hlog⟩, htracked, hserved⟩, hpc⟩ := hs
  obtain ⟨cfg, handle, events, hself, hevents, rfl⟩ := step_disconnect h
  obtain rfl : some handle = current := current_eq hpc hself (by simp)
  obtain ⟨htracked', hserved'⟩ := Relay.emit_settled drain_client_event
    ClientTasks.handle_peer_event hevents
  refine ⟨none, ⟨⟨past ++ [handle], ?_⟩, ?_, ?_⟩, .inr rfl⟩
  · simp [hlog, visits]
  · rw [htracked', htracked]
    simp [drain_client_event, PeerHandle.track]
  · rw [hserved', ClientTasks.handle_peer_event, hserved]
    simp

/-- **What the guarded steps keep.** -/
theorem step_strong (self next : Supervisor) (a : SupervisorStep) (hs : self.Strong)
    (hg : self.NoneConnected a) (h : self.step a = some next) : next.Strong := by
  cases a with
  | command cmd => exact step_command_strong hs hg h
  | announce => exact step_announce_strong hs h
  | disconnect => exact step_disconnect_strong hs h
  -- an event on its way is counted as arrived, so moving it on changes nothing
  | relay a =>
      obtain ⟨current, hpaired, hpc⟩ := hs
      obtain ⟨events, hevents, rfl⟩ := step_relay h
      obtain ⟨htracked, hserved⟩ := Relay.step_settled hevents
      refine ⟨current, ⟨hpaired.log, ?_, ?_⟩, hpc⟩
      · rw [htracked]
        exact hpaired.tracked
      · rw [hserved]
        exact hpaired.served
  | start | established | welcomed _ | failed | peer_loop_ended | cleared =>
      obtain ⟨current, hpaired, hpc⟩ := hs
      obtain ⟨hconn, hlog, hevents, halive, -⟩ := step_quiet h trivial
      refine ⟨current, ⟨?_, ?_, ?_⟩, .inr ?_⟩
      · rw [hlog]
        exact hpaired.log
      · rw [hevents]
        exact hpaired.tracked
      · rw [hevents]
        exact hpaired.served
      · rw [hconn]
        exact hpc.resolve_left halive

/-- A command that drops an announced connection leaves its pair open. -/
theorem step_balanced (self next : Supervisor) (a : SupervisorStep) (hs : self.Strong)
    (h : self.step a = some next) (hnext : next.Balanced) : self.NoneConnected a := by
  cases a with
  | command cmd =>
      cases cmd with
      | none => trivial
      | some cmd =>
          obtain ⟨current, ⟨⟨past, hlog⟩, -, -⟩, hpc⟩ := hs
          obtain ⟨rfl, halive⟩ := step_command h
          have hcurrent := hpc.resolve_left halive
          unfold NoneConnected
          rw [hcurrent]
          cases current with
          | none => rfl
          | some handle =>
              -- it would be dropped, and its pair stay open
              have hidle : Unconnected { self with pc := .after_command (some cmd) } := by
                cases cmd with
                | Dial cfg => exact .inr ⟨cfg, rfl⟩
                | HangUp => exact .inl rfl
              have hmem := hnext hidle (visits past) handle [] hlog
              cases hmem
  | start | established | welcomed _ | failed | announce | peer_loop_ended | cleared | disconnect
  | relay _ => trivial

/-- **When connection events are balanced.** Along any run, whatever commands
come and however connections start and end: in every state the events are
balanced and drain to at most one peer, exactly when no command finds a
connection announced. -/
theorem balanced_iff (steps : List SupervisorStep) (last : Supervisor)
    (hrun : exec step new steps = some last) :
    (∀ pre suf t, steps = pre ++ suf → exec step new pre = some t → t.Balanced ∧ t.AtMostOne) ↔
      (∀ pre a suf t, steps = pre ++ a :: suf → exec step new pre = some t →
        t.NoneConnected a) :=
  exec_kept_iff step Strong (fun t => t.Balanced ∧ t.AtMostOne) NoneConnected new last steps
    strong_new (fun _ ht => ht.balanced)
    (fun t u a hs hg hstep => t.step_strong u a hs hg hstep)
    (fun t u a hs hstep hu => t.step_balanced u a hs hstep hu.1) hrun

/-- A server that is dialed, and closes the connection later. -/
def visit (peer_id : PeerId) : List SupervisorStep :=
  [.command (some (.Dial ⟨"10.0.0.2:4242", []⟩)), .start, .established, .welcomed peer_id, .announce,
    .peer_loop_ended, .cleared, .disconnect]

/-- The equivalence for a connection that is closed from the other side. -/
theorem balanced_iff_visit :
    let steps := visit ⟨Vector.replicate 16 7⟩
    (∀ pre suf t, steps = pre ++ suf → exec step new pre = some t → t.Balanced ∧ t.AtMostOne) ↔
      (∀ pre a suf t, steps = pre ++ a :: suf → exec step new pre = some t →
        t.NoneConnected a) :=
  balanced_iff (visit ⟨Vector.replicate 16 7⟩) _ (Option.some_get (by rfl)).symm

/-- **Hung up without a word.** The connection is dropped while it runs: the
supervisor is idle, its `Connected` is never answered, and the lists keep the
peer. -/
theorem hang_up_unbalanced :
    ∃ last, exec step new ((visit ⟨Vector.replicate 16 7⟩).take 5 ++ [.command (some .HangUp)])
        = some last ∧ ¬ last.Balanced ∧ ¬ last.AtMostOne := by
  refine ⟨_, rfl, ?_, ?_⟩
  · intro h
    have hmem := h (.inl rfl) [] ⟨⟨Vector.replicate 16 7⟩, 0⟩ [] rfl
    cases hmem
  · intro h
    obtain ⟨-, -, hnone⟩ := (atMostOne_iff _).mp h
    cases (hnone rfl).1

end Supervisor

end InputSync
