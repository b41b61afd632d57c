/-
The server's connections (`crates/network/src/server.rs`) and who knows about
them: the fan-out task of the daemon with `DaemonState.peers`, and the session
with its peers and the auto peer of the edge detector.

Every connection is a task of its own, `handle_connection`. They share one
event channel, and both lists behind it are kept by peer id, which is what the
other side wrote in its `Hello`. `live` reads off the events which connections
there are; a list that drops entries by id agrees with it as long as no two of
these have the same id.

The session's handler is the only task that writes its peers and the auto
peer, so its iterations are whole steps here; those of the capture drain loop,
which shares the detector with it, may come anywhere in between.
-/
import InputSync.Frame
import InputSync.Relay
import InputSync.Session

set_option autoImplicit false

namespace InputSync

/-- The fan-out task of `start_server` on one event, up to the send to the
session. -/
def fan_out_event (peers : List TrackedPeer) : ServerEvent → List TrackedPeer
  | .Connected handle => peers ++ [handle.track]
  | .Disconnected peer_id => peers.filter (fun p => p.peer_id ≠ peer_id)

/-- Where `handle_connection` stands. -/
inductive Serving
  | hello
  | announcing (handle : PeerHandle)
  | looping (handle : PeerHandle)
  | clearing (handle : PeerHandle)
  | closing (handle : PeerHandle)
  | ended
deriving DecidableEq

/-- The server's connections in the order they came in, and everything their
events go to. `emitted` is the record of what was sent, each event with the
number of its connection. -/
structure Listener where
  conns : List Serving
  emitted : List (Nat × ServerEvent)
  events : Relay ServerEvent (List TrackedPeer) Server

/-- The steps, grouped by the task that takes them. -/
inductive ListenerStep
  | incoming
  | hello (conn : Nat) (hello : Hello)
  | failed (conn : Nat)
  | announce (conn : Nat)
  | peer_loop_ended (conn : Nat)
  | cleared (conn : Nat)
  | disconnect (conn : Nat)
  | relay (a : RelayStep)
  | captured (event : InputEvent) (accepts : Message → Bool)

/-! ## Who is connected

The truth about the connections, read off what was emitted and by connection number. The
lists of the code are compared with it. -/

/-- The event is a `Disconnected`. -/
def ServerEvent.is_disconnect : ServerEvent → Bool
  | .Disconnected _ => true
  | .Connected _ => false

/-- The connection's `Disconnected` is among the events. -/
def disconnected (log : List (Nat × ServerEvent)) (conn : Nat) : Bool :=
  log.any (fun entry => entry.1 = conn && entry.2.is_disconnect)

/-- The handle of a connection that has come and not gone. -/
def live_handle (log : List (Nat × ServerEvent)) : Nat × ServerEvent → Option PeerHandle
  | (conn, .Connected handle) => if disconnected log conn then none else some handle
  | (_, .Disconnected _) => none

/-- One handle for each connection whose `Connected` has been emitted and whose
`Disconnected` has not. -/
def live (log : List (Nat × ServerEvent)) : List PeerHandle := log.filterMap (live_handle log)

/-- The log of events grows at its end, and so do the ends of connections in it. -/
theorem disconnected_append (log : List (Nat × ServerEvent)) (conn k : Nat) (e : ServerEvent) :
    disconnected (log ++ [(conn, e)]) k
      = (disconnected log k || (conn = k && e.is_disconnect)) := by
  simp [disconnected, List.any_append]

/-- A connection has ended when its `Disconnected` is in the log, with whatever id. The
id is the peer's and does not matter here, which is the point: `live` goes by
connections. -/
theorem disconnected_iff (log : List (Nat × ServerEvent)) (conn : Nat) :
    disconnected log conn = true ↔ ∃ peer_id, (conn, .Disconnected peer_id) ∈ log := by
  unfold disconnected
  rw [List.any_eq_true]
  constructor
  · rintro ⟨⟨k, e⟩, hmem, h⟩
    cases e with
    | Connected handle => simp [ServerEvent.is_disconnect] at h
    | Disconnected peer_id =>
        simp only [ServerEvent.is_disconnect, Bool.and_true, decide_eq_true_eq] at h
        exact ⟨peer_id, h ▸ hmem⟩
  · rintro ⟨peer_id, hmem⟩
    exact ⟨_, hmem, by simp [ServerEvent.is_disconnect]⟩

/-- Who is live: a connection that was announced and has not ended. -/
theorem mem_live (log : List (Nat × ServerEvent)) (handle : PeerHandle) :
    handle ∈ live log ↔
      ∃ conn, (conn, .Connected handle) ∈ log ∧ disconnected log conn = false := by
  unfold live
  rw [List.mem_filterMap]
  constructor
  · rintro ⟨⟨conn, e⟩, hmem, h⟩
    cases e with
    | Connected h' =>
        simp only [live_handle] at h
        split_ifs at h with hd
        cases h
        exact ⟨conn, hmem, Bool.eq_false_iff.mpr hd⟩
    | Disconnected peer_id => cases h
  · rintro ⟨conn, hmem, hd⟩
    exact ⟨_, hmem, by simp [live_handle, hd]⟩

/-- A new connection joins at the end. -/
theorem live_connected (log : List (Nat × ServerEvent)) (conn : Nat) (handle : PeerHandle)
    (h : disconnected log conn = false) :
    live (log ++ [(conn, .Connected handle)]) = live log ++ [handle] := by
  have hsame : live_handle (log ++ [(conn, .Connected handle)]) = live_handle log := by
    funext ⟨k, e⟩
    cases e with
    | Connected h' => simp [live_handle, disconnected_append, ServerEvent.is_disconnect]
    | Disconnected peer_id => rfl
  unfold live
  rw [List.filterMap_append, hsame]
  simp [live_handle, h]

/-- A connection that ends leaves, and no other. -/
theorem live_disconnected (log : List (Nat × ServerEvent)) (conn : Nat) (peer_id : PeerId)
    (hown : ∀ k handle, (k, .Connected handle) ∈ log → handle.outbound = k) :
    live (log ++ [(conn, .Disconnected peer_id)])
      = (live log).filter (fun p => p.outbound ≠ conn) := by
  unfold live
  rw [List.filterMap_append, List.filter_filterMap]
  have hlast : [(conn, ServerEvent.Disconnected peer_id)].filterMap
      (live_handle (log ++ [(conn, .Disconnected peer_id)])) = [] := rfl
  rw [hlast, List.append_nil]
  apply List.filterMap_congr
  rintro ⟨k, e⟩ hmem
  cases e with
  | Disconnected peer_id => rfl
  | Connected handle =>
      have hk := hown k handle hmem
      simp only [live_handle, disconnected_append, ServerEvent.is_disconnect, Bool.and_true]
      cases hd : disconnected log k with
      | true => simp
      | false => by_cases heq : conn = k <;> simp [Option.filter, hk, heq, eq_comm]

/-! ## The machine

The listener, its connections, and the two tasks behind the event channel as a `Relay`. -/

namespace Listener

/-- No connection, and a fresh session. -/
def new (local_screen : ScreenId) (w h : Int32) (layout : ScreenLayout) : Listener :=
  { conns := [], emitted := [], events := .new [] (.new local_screen w h layout) }

/-- A connection's task goes on without emitting. -/
def go (self : Listener) (conn : Nat) (next : Serving) : Listener :=
  { self with conns := self.conns.set conn next }

/-- A send on the event channel, of capacity 64. -/
def emit (self : Listener) (conn : Nat) (e : ServerEvent) (next : Serving) : Option Listener :=
  (self.events.emit 64 e).map (fun events =>
    { conns := self.conns.set conn next, emitted := self.emitted ++ [(conn, e)], events })

/-- A step of the tasks behind the event channel; the session's has capacity
32. -/
def relay_step (events : Relay ServerEvent (List TrackedPeer) Server) :
    RelayStep → Option (Relay ServerEvent (List TrackedPeer) Server) :=
  Relay.step fan_out_event Server.handle_peer_event 32 events

/-- One step of one task. -/
def step (self : Listener) : ListenerStep → Option Listener
  | .incoming => some { self with conns := self.conns ++ [.hello] }
  -- handle_connection
  | .hello conn hello =>
    match self.conns[conn]? with
    | some .hello =>
      some (self.go conn
        (if hello.protocol_version ≠ PROTOCOL_VERSION then .ended
          else .announcing ⟨hello.peer_id, conn⟩))
    | _ => none
  | .failed conn =>
    match self.conns[conn]? with
    | some .hello => some (self.go conn .ended)
    | _ => none
  | .announce conn =>
    match self.conns[conn]? with
    | some (.announcing handle) => self.emit conn (.Connected handle) (.looping handle)
    | _ => none
  | .peer_loop_ended conn =>
    match self.conns[conn]? with
    | some (.looping handle) => some (self.go conn (.clearing handle))
    | _ => none
  | .cleared conn =>
    match self.conns[conn]? with
    | some (.clearing handle) => some (self.go conn (.closing handle))
    | _ => none
  | .disconnect conn =>
    match self.conns[conn]? with
    | some (.closing handle) => self.emit conn (.Disconnected handle.peer_id) .ended
    | _ => none
  | .relay a => (relay_step self.events a).map (fun events => { self with events })
  -- drain_capture
  | .captured event accepts =>
    some { self with
      events := { self.events with
        served := (self.events.served.drain_event event accepts).1 } }

/-! ## What a step can do

One inversion lemma for each kind of step. -/

/-- An emission goes through the bounded channel and is recorded. This inversion and
those that follow are all the later proofs know about `step`. -/
theorem emit_eq_some {self next : Listener} {conn : Nat} {e : ServerEvent} {c : Serving}
    (h : self.emit conn e c = some next) :
    ∃ events, self.events.emit 64 e = some events ∧
      next = { conns := self.conns.set conn c, emitted := self.emitted ++ [(conn, e)], events } := by
  unfold emit at h
  obtain ⟨events, hevents, hnext⟩ := Option.map_eq_some_iff.mp h
  exact ⟨events, hevents, hnext.symm⟩

/-- A connection that has shaken hands announces itself and begins its loop. -/
theorem step_announce {self next : Listener} {conn : Nat}
    (h : self.step (.announce conn) = some next) :
    ∃ handle events, self.conns[conn]? = some (.announcing handle) ∧
      self.events.emit 64 (.Connected handle) = some events ∧
      next = { conns := self.conns.set conn (.looping handle)
               emitted := self.emitted ++ [(conn, .Connected handle)], events } := by
  simp only [step] at h
  split at h
  · rename_i handle hconn
    obtain ⟨events, hevents, hnext⟩ := emit_eq_some h
    exact ⟨handle, events, hconn, hevents, hnext⟩
  · cases h

/-- A connection whose loop has ended says so and is over. What it says names the peer,
not the connection; the lists behind the channel cannot tell two connections of one peer
apart, and the whole file is about that. -/
theorem step_disconnect {self next : Listener} {conn : Nat}
    (h : self.step (.disconnect conn) = some next) :
    ∃ handle events, self.conns[conn]? = some (.closing handle) ∧
      self.events.emit 64 (.Disconnected handle.peer_id) = some events ∧
      next = { conns := self.conns.set conn .ended
               emitted := self.emitted ++ [(conn, .Disconnected handle.peer_id)], events } := by
  simp only [step] at h
  split at h
  · rename_i handle hconn
    obtain ⟨events, hevents, hnext⟩ := emit_eq_some h
    exact ⟨handle, events, hconn, hevents, hnext⟩
  · cases h

/-- What the events of a connection in this state are. -/
def Logged (log : List (Nat × ServerEvent)) (conn : Nat) : Serving → Prop
  | .hello => ∀ e, (conn, e) ∉ log
  | .announcing handle => handle.outbound = conn ∧ ∀ e, (conn, e) ∉ log
  | .looping handle | .clearing handle | .closing handle =>
    handle.outbound = conn ∧ ∀ e, (conn, e) ∈ log → e = .Connected handle
  | .ended => True

/-- The connection whose task goes on without emitting. -/
def quiet_conn : ListenerStep → Option Nat
  | .hello conn _ | .failed conn | .peer_loop_ended conn | .cleared conn => some conn
  | _ => none

/-- Such a step changes the state of its connection alone, to one with the same
events. -/
theorem step_go {self next : Listener} {a : ListenerStep} {conn : Nat}
    (h : self.step a = some next) (ha : quiet_conn a = some conn) :
    ∃ c c', self.conns[conn]? = some c ∧ next = self.go conn c' ∧
      ∀ log, Logged log conn c → Logged log conn c' := by
  -- these are the steps of one connection that announce nothing
  cases a with
  | hello k hello =>
      cases ha
      simp only [step] at h
      split at h
      · rename_i hconn
        refine ⟨_, _, hconn, (Option.some.inj h).symm, ?_⟩
        intro log hlog
        split
        · trivial
        · exact ⟨rfl, hlog⟩
      · cases h
  | failed k =>
      cases ha
      simp only [step] at h
      split at h
      · rename_i hconn
        exact ⟨_, _, hconn, (Option.some.inj h).symm, fun _ _ => trivial⟩
      · cases h
  | peer_loop_ended k | cleared k =>
      cases ha
      simp only [step] at h
      split at h
      · rename_i handle hconn
        exact ⟨_, _, hconn, (Option.some.inj h).symm, fun _ hlog => hlog⟩
      · cases h
  | incoming | announce _ | disconnect _ | relay _ | captured _ _ => cases ha

/-- A step behind the event channel changes nothing in front of it. -/
theorem step_relay {self next : Listener} {a : RelayStep} (h : self.step (.relay a) = some next) :
    ∃ events, relay_step self.events a = some events ∧ next = { self with events } := by
  obtain ⟨events, hevents, hnext⟩ := Option.map_eq_some_iff.mp h
  exact ⟨events, hevents, hnext.symm⟩

/-! ## Each connection has its own events

A connection passes through its states in one direction and emits at two of them. So its
events in the log are determined by its state, however the tasks of the other
connections come in between. -/

/-- The numbers in the log are those of connections; what a connection has announced is
its own; and what each has in the log fits its state. -/
structure Numbered (listener : Listener) : Prop where
  opened : ∀ conn e, (conn, e) ∈ listener.emitted → conn < listener.conns.length
  own : ∀ conn handle, (conn, .Connected handle) ∈ listener.emitted → handle.outbound = conn
  conns : ∀ conn c, listener.conns[conn]? = some c → Logged listener.emitted conn c

/-- An event of one connection leaves the events of every other as they were. Each
connection writes under its own number, so what it has logged depends on its own state
alone. -/
theorem logged_append {log : List (Nat × ServerEvent)} {conn k : Nat} {e : ServerEvent}
    {c : Serving} (hne : k ≠ conn) (h : Logged log k c) : Logged (log ++ [(conn, e)]) k c := by
  have hmem : ∀ e', (k, e') ∈ log ++ [(conn, e)] ↔ (k, e') ∈ log := by
    intro e'
    simp [hne]
  cases c with
  | hello => exact fun e' => (hmem e').not.mpr (h e')
  | announcing handle => exact ⟨h.1, fun e' => (hmem e').not.mpr (h.2 e')⟩
  | looping handle | clearing handle | closing handle =>
      exact ⟨h.1, fun e' he' => h.2 e' ((hmem e').mp he')⟩
  | ended => trivial

/-- At the start there are no connections and no events. -/
theorem numbered_new (local_screen : ScreenId) (w h : Int32) (layout : ScreenLayout) :
    (new local_screen w h layout).Numbered where
  opened := by
    rintro _ _ ⟨⟩
  own := by
    rintro _ _ ⟨⟩
  conns := by
    rintro _ _ ⟨⟩

/-- A connection that emits keeps the numbers right if its event is its own. -/
theorem Numbered.emit {listener : Listener} (h : listener.Numbered) {conn : Nat} {c : Serving}
    (hconn : listener.conns[conn]? = some c) (e : ServerEvent) (c' : Serving)
    (events : Relay ServerEvent (List TrackedPeer) Server)
    (hown : ∀ handle, e = .Connected handle → handle.outbound = conn)
    (hc : Logged (listener.emitted ++ [(conn, e)]) conn c') :
    Numbered { conns := listener.conns.set conn c',
               emitted := listener.emitted ++ [(conn, e)], events } where
  opened := by
    intro k e' hmem
    rw [List.length_set]
    rcases List.mem_append.mp hmem with hmem | hmem
    · exact h.opened k e' hmem
    · cases List.mem_singleton.mp hmem
      exact (List.getElem?_eq_some_iff.mp hconn).1
  own := by
    intro k handle hmem
    rcases List.mem_append.mp hmem with hmem | hmem
    · exact h.own k handle hmem
    · cases List.mem_singleton.mp hmem
      exact hown handle rfl
  conns := by
    -- the other connections are not concerned by an event that is not theirs
    intro k c'' hk
    rw [List.getElem?_set] at hk
    split_ifs at hk with heq hlt
    · cases hk
      exact heq ▸ hc
    · exact logged_append (Ne.symm heq) (h.conns k c'' hk)

/-- Every step keeps the events of each connection in line with its state: none before
it announces itself, and nothing but its own `Connected` until its end is emitted. This
is what makes `live` mean something, since the channel itself would take any event under
any number: a connection that ends was announced before, with the handle its state
holds, and had not ended. -/
theorem step_numbered (self next : Listener) (a : ListenerStep) (hn : self.Numbered)
    (h : self.step a = some next) : next.Numbered := by
  cases a with
  | incoming =>
      obtain rfl := Option.some.inj h
      refine ⟨?_, hn.own, ?_⟩
      · intro conn e hmem
        rw [List.length_append]
        exact Nat.lt_add_right _ (hn.opened conn e hmem)
      · intro conn c hc
        rw [List.getElem?_append] at hc
        split_ifs at hc with hlt
        · exact hn.conns conn c hc
        · -- a connection that has just come in has no events
          rw [List.getElem?_singleton] at hc
          split_ifs at hc
          cases hc
          exact fun e hmem => hlt (hn.opened conn e hmem)
  | hello conn _ | failed conn | peer_loop_ended conn | cleared conn =>
      obtain ⟨c, c', hconn, rfl, hlog⟩ := step_go h rfl
      refine ⟨?_, hn.own, ?_⟩
      · intro k e hmem
        rw [go, List.length_set]
        exact hn.opened k e hmem
      · intro k c'' hk
        rw [go, List.getElem?_set] at hk
        split_ifs at hk with heq hlt
        · cases hk
          subst heq
          exact hlog _ (hn.conns _ _ hconn)
        · exact hn.conns k c'' hk
  | announce conn =>
      obtain ⟨handle, events, hconn, -, rfl⟩ := step_announce h
      obtain ⟨hout, hnone⟩ := hn.conns _ _ hconn
      -- it is announced once: before, its log was empty
      apply hn.emit hconn
      · rintro _ ⟨⟩
        exact hout
      · refine ⟨hout, ?_⟩
        intro e hmem
        rcases List.mem_append.mp hmem with hmem | hmem
        · exact absurd hmem (hnone e)
        · cases List.mem_singleton.mp hmem
          rfl
  | disconnect conn =>
      obtain ⟨handle, events, hconn, -, rfl⟩ := step_disconnect h
      exact hn.emit hconn _ _ _ (by rintro _ ⟨⟩) trivial
  | relay a =>
      obtain ⟨events, -, rfl⟩ := step_relay h
      exact ⟨hn.opened, hn.own, hn.conns⟩
  | captured event accepts =>
      obtain rfl := Option.some.inj h
      exact ⟨hn.opened, hn.own, hn.conns⟩

/-! ## Both lists are the live connections

The settled lists are folds over the emitted events, so each emission is one step of a
fold. An announcement is always right; an end is right when filtering by id and
filtering by connection come to the same. -/

/-- Once the emitted events are handled, the session and the daemon have one
entry for each live connection, and the auto peer is set exactly when there is
one. -/
def ListsLive (self : Listener) : Prop :=
  ∀ steps last, exec relay_step self.events steps = some last → last.Drained →
    last.served.peers = live self.emitted ∧
      last.tracked = (live self.emitted).map PeerHandle.track ∧
      (last.served.edge.auto_peer.isSome = true ↔ live self.emitted ≠ [])

/-- A connection whose end is emitted is the only live one with its id. -/
def OnlyOneEnds (self : Listener) : ListenerStep → Prop
  | .disconnect conn => ∀ handle, self.conns[conn]? = some (.closing handle) →
      ∀ p ∈ live self.emitted, p.peer_id = handle.peer_id → p.outbound = conn
  | _ => True

/-- The statement about every way to drain the tasks, as one about the settled lists.
From here on the tasks behind the channel do not occur any more. -/
theorem listsLive_iff (self : Listener) :
    self.ListsLive ↔
      (self.events.settled_served Server.handle_peer_event).peers = live self.emitted ∧
        self.events.settled_tracked fan_out_event = (live self.emitted).map PeerHandle.track ∧
        ((self.events.settled_served Server.handle_peer_event).edge.auto_peer.isSome = true ↔
          live self.emitted ≠ []) :=
  Relay.once_drained_iff fan_out_event Server.handle_peer_event 32 (by decide)
    (fun (tracked : List TrackedPeer) (served : Server) => served.peers = live self.emitted ∧
      tracked = (live self.emitted).map PeerHandle.track ∧
      (served.edge.auto_peer.isSome = true ↔ live self.emitted ≠ []))
    self.events

/-- The same peers, and the same auto peer. -/
def SamePeers (s t : Server) : Prop := s.peers = t.peers ∧ s.edge.auto_peer = t.edge.auto_peer

/-- An iteration of the drain loop leaves the peers and the auto peer. -/
theorem drain_event_samePeers (s : Server) (event : InputEvent) (accepts : Message → Bool) :
    SamePeers (s.drain_event event accepts).1 s := by
  unfold Server.drain_event
  by_cases hem : is_emergency event
  · rw [if_pos hem]
    refine ⟨rfl, ?_⟩
    -- forcing local changes the route alone
    simp only [Server.act, EdgeDetector.force_local]
    split <;> rfl
  · rw [if_neg hem]
    obtain ⟨hedge, hpeers, -⟩ := ({ s with edge := (s.edge.observe event).1 }.act
      (apply_decision (s.edge.observe event).2.1 s.peers accepts)).forward_frame event
        (s.edge.observe event).2.2 accepts
    refine ⟨hpeers, ?_⟩
    simp only [hedge]
    exact (s.edge.observe_frame event).2.2

/-- What the session's handler does to the peers depends on the peers and the auto peer
alone, not on the rest of the session, which the drain loop changes at any time. -/
theorem handle_samePeers {s t : Server} (h : SamePeers s t) (e : ServerEvent) :
    SamePeers (s.handle_peer_event e) (t.handle_peer_event e) := by
  obtain ⟨hpeers, hauto⟩ := h
  cases e with
  | Connected handle => exact ⟨by rw [Server.handle_peer_event, hpeers]; rfl, rfl⟩
  | Disconnected peer_id =>
      refine ⟨by rw [Server.handle_peer_event, hpeers]; rfl, ?_⟩
      -- the same peers are left, so both clear the auto peer or neither does
      simp only [Server.handle_peer_event, hpeers]
      split
      · rfl
      · exact hauto

/-- The same for a list of events. With it the iterations of the drain loop commute with
the handling of events, as far as the peers go. -/
theorem foldl_samePeers (es : List ServerEvent) {s t : Server} (h : SamePeers s t) :
    SamePeers (es.foldl Server.handle_peer_event s) (es.foldl Server.handle_peer_event t) := by
  induction es generalizing s t with
  | nil => exact h
  | cons e es ih => exact ih (handle_samePeers h e)

/-- The auto peer stands for a non-empty list of peers. -/
def AutoPeer (s : Server) : Prop := s.edge.auto_peer.isSome = true ↔ s.peers ≠ []

/-- Whatever the event, the handler leaves an auto peer exactly when it leaves a peer.
-/
theorem handle_autoPeer {s : Server} (h : AutoPeer s) (e : ServerEvent) :
    AutoPeer (s.handle_peer_event e) := by
  unfold AutoPeer at *
  cases e with
  | Connected handle => simp [Server.handle_peer_event, EdgeDetector.set_auto_peer]
  | Disconnected peer_id =>
      simp only [Server.handle_peer_event]
      split
      · rename_i hempty
        simpa [EdgeDetector.set_auto_peer] using hempty
      · rename_i hne
        -- somebody is left, so somebody was there
        have hsome : s.peers ≠ [] := by
          rintro hnil
          simp [hnil] at hne
        exact iff_of_true (h.mpr hsome) (by simpa using hne)

/-- The settled lists, as far as they do not depend on the guard. -/
structure Tracking (listener : Listener) : Prop where
  peers : (listener.events.settled_served Server.handle_peer_event).peers = live listener.emitted
  tracked : listener.events.settled_tracked fan_out_event
    = (live listener.emitted).map PeerHandle.track
  auto : AutoPeer (listener.events.settled_served Server.handle_peer_event)

/-- What every run keeps and what the guarded ones do. -/
def Strong (self : Listener) : Prop := self.Numbered ∧ self.Tracking

/-- The invariant at the start: nothing is live and both lists are empty. -/
theorem strong_new (local_screen : ScreenId) (w h : Int32) (layout : ScreenLayout) :
    (new local_screen w h layout).Strong := by
  refine ⟨numbered_new local_screen w h layout, rfl, rfl, ?_⟩
  simp [AutoPeer, new, Server.new, EdgeDetector.new]

/-- The invariant contains that the lists show the live connections. -/
theorem Strong.listsLive {self : Listener} (h : self.Strong) : self.ListsLive := by
  obtain ⟨-, hpeers, htracked, hauto⟩ := h
  unfold AutoPeer at hauto
  rw [hpeers] at hauto
  exact (listsLive_iff self).mpr ⟨hpeers, htracked, hauto⟩

/-- Filtering by id and by connection come to the same exactly when they agree
on every member. -/
theorem filter_eq_filter_iff {α : Type} (l : List α) (p q : α → Bool) :
    l.filter p = l.filter q ↔ ∀ x ∈ l, p x = q x := by
  constructor
  · intro h x hx
    have hmem : x ∈ l.filter p ↔ x ∈ l.filter q := by rw [h]
    rw [List.mem_filter, List.mem_filter] at hmem
    exact Bool.eq_iff_iff.mpr (by simpa [hx] using hmem)
  · exact List.filter_congr

/-- A new connection is appended to both lists, as it is to `live`. No guard is needed:
two entries with one id are what two live connections should give. -/
theorem step_announce_tracking {self next : Listener} {conn : Nat} (hs : self.Strong)
    (h : self.step (.announce conn) = some next) : next.Tracking := by
  obtain ⟨hn, hpeers, htracked, hauto⟩ := hs
  obtain ⟨handle, events, hconn, hevents, rfl⟩ := step_announce h
  obtain ⟨htracked', hserved'⟩ := Relay.emit_settled fan_out_event Server.handle_peer_event hevents
  obtain ⟨-, hnone⟩ := hn.conns _ _ hconn
  have hdis : disconnected self.emitted conn = false := by
    rw [Bool.eq_false_iff]
    intro hd
    obtain ⟨peer_id, hmem⟩ := (disconnected_iff _ _).mp hd
    exact hnone _ hmem
  refine ⟨?_, ?_, ?_⟩
  · rw [hserved', Server.handle_peer_event, live_connected _ _ _ hdis, ← hpeers]
  · rw [htracked', fan_out_event, live_connected _ _ _ hdis, htracked, List.map_append]
    rfl
  · rw [hserved']
    exact handle_autoPeer hauto _

/-- The handles of other connections are the members with another id. -/
theorem ends_alone_iff {self : Listener} {conn : Nat} {handle : PeerHandle} (hn : self.Numbered)
    (hconn : self.conns[conn]? = some (.closing handle)) :
    (live self.emitted).filter (fun p => p.peer_id ≠ handle.peer_id)
        = (live self.emitted).filter (fun p => p.outbound ≠ conn) ↔
      ∀ p ∈ live self.emitted, p.peer_id = handle.peer_id → p.outbound = conn := by
  rw [filter_eq_filter_iff]
  apply forall₂_congr
  intro p hp
  -- whoever is on this connection has its id
  have hid : p.outbound = conn → p.peer_id = handle.peer_id := by
    intro hout
    obtain ⟨k, hmem, -⟩ := (mem_live _ _).mp hp
    have hk := hn.own k p hmem
    rw [hout] at hk
    subst hk
    cases (hn.conns _ _ hconn).2 _ hmem
    rfl
  by_cases hout : p.outbound = conn
  · simp [hout, hid hout]
  · simp [hout]

/-- An end takes all entries with the id from both lists. By the guard there is only one
live connection with it, so this is the right one to go. -/
theorem step_disconnect_tracking {self next : Listener} {conn : Nat} (hs : self.Strong)
    (hg : self.OnlyOneEnds (.disconnect conn)) (h : self.step (.disconnect conn) = some next) :
    next.Tracking := by
  obtain ⟨hn, hpeers, htracked, hauto⟩ := hs
  obtain ⟨handle, events, hconn, hevents, rfl⟩ := step_disconnect h
  obtain ⟨htracked', hserved'⟩ := Relay.emit_settled fan_out_event Server.handle_peer_event hevents
  have hfilter := (ends_alone_iff hn hconn).mpr (hg handle hconn)
  refine ⟨?_, ?_, ?_⟩
  · rw [hserved', live_disconnected _ _ _ hn.own, ← hfilter, ← hpeers]
    rfl
  · rw [htracked', live_disconnected _ _ _ hn.own, ← hfilter, fan_out_event, htracked,
      List.filter_map]
    rfl
  · rw [hserved']
    exact handle_autoPeer hauto _

/-- **What the guarded steps keep.** -/
theorem step_strong (self next : Listener) (a : ListenerStep) (hs : self.Strong)
    (hg : self.OnlyOneEnds a) (h : self.step a = some next) : next.Strong := by
  refine ⟨self.step_numbered next a hs.1 h, ?_⟩
  obtain ⟨hpeers, htracked, hauto⟩ := hs.2
  -- only announcing and disconnecting change what the lists should show
  cases a with
  | incoming =>
      obtain rfl := Option.some.inj h
      exact ⟨hpeers, htracked, hauto⟩
  | hello conn _ | failed conn | peer_loop_ended conn | cleared conn =>
      obtain ⟨c, c', -, rfl, -⟩ := step_go h rfl
      exact ⟨hpeers, htracked, hauto⟩
  | announce conn => exact step_announce_tracking hs h
  | disconnect conn => exact step_disconnect_tracking hs hg h
  -- an event that moves on is one that will arrive: both lists are counted as if it had
  | relay a =>
      obtain ⟨events, hevents, rfl⟩ := step_relay h
      obtain ⟨htracked', hserved'⟩ := Relay.step_settled hevents
      refine ⟨?_, ?_, ?_⟩
      · rw [hserved']
        exact hpeers
      · rw [htracked']
        exact htracked
      · rw [hserved']
        exact hauto
  -- a captured event leaves the peers alone, now and after the events to come
  | captured event accepts =>
      obtain rfl := Option.some.inj h
      obtain ⟨hpeers', hauto'⟩ := foldl_samePeers
        (self.events.second ++ self.events.hand.toList ++ self.events.first)
        (drain_event_samePeers self.events.served event accepts)
      refine ⟨hpeers'.trans hpeers, htracked, ?_⟩
      unfold AutoPeer Relay.settled_served
      rw [hpeers', hauto']
      exact hauto

/-- A disconnect that leaves the lists right found no other connection with its
id. -/
theorem step_listsLive (self next : Listener) (a : ListenerStep) (hs : self.Strong)
    (h : self.step a = some next) (hnext : next.ListsLive) : self.OnlyOneEnds a := by
  cases a with
  | disconnect conn =>
      obtain ⟨hn, hpeers, -, -⟩ := hs
      obtain ⟨handle, events, hconn, hevents, rfl⟩ := step_disconnect h
      obtain ⟨-, hserved'⟩ := Relay.emit_settled fan_out_event Server.handle_peer_event hevents
      obtain ⟨hpeers', -, -⟩ := (listsLive_iff _).mp hnext
      rw [hserved', live_disconnected _ _ _ hn.own, ← hpeers] at hpeers'
      intro handle' hconn'
      rw [hconn] at hconn'
      cases hconn'
      apply (ends_alone_iff hn hconn).mp
      rw [← hpeers]
      exact hpeers'
  | incoming | hello _ _ | failed _ | announce _ | peer_loop_ended _ | cleared _ | relay _
  | captured _ _ => trivial

/-- **When the lists are the live connections.** Along any run, however the
connections come and go and whatever ids they carry: in every state the lists
drain to exactly the live connections, exactly when no connection ends while
another one with its id is live. -/
theorem lists_live_iff (local_screen : ScreenId) (w h : Int32) (layout : ScreenLayout)
    (steps : List ListenerStep) (last : Listener)
    (hrun : exec step (new local_screen w h layout) steps = some last) :
    (∀ pre suf t, steps = pre ++ suf → exec step (new local_screen w h layout) pre = some t →
        t.ListsLive) ↔
      (∀ pre a suf t, steps = pre ++ a :: suf →
        exec step (new local_screen w h layout) pre = some t → t.OnlyOneEnds a) :=
  exec_kept_iff step Strong ListsLive OnlyOneEnds _ last steps
    (strong_new local_screen w h layout) (fun _ ht => ht.listsLive)
    (fun t u a hs hg hstep => t.step_strong u a hs hg hstep)
    (fun t u a hs hstep hu => t.step_listsLive u a hs hstep hu) hrun

/-- A client connects as the connection `conn`, with the one id it has. -/
def arrival (conn : Nat) : List ListenerStep :=
  [.incoming,
    .hello conn
      ⟨⟨Vector.replicate 16 7⟩, "laptop", 1, ⟨true, true, true, true, true, true⟩⟩,
    .announce conn]

/-- It goes. -/
def departure (conn : Nat) : List ListenerStep :=
  [.peer_loop_ended conn, .cleared conn, .disconnect conn]

/-- The equivalence for a client that comes, goes and comes again. -/
theorem lists_live_iff_again :
    let start := new ⟨0⟩ 1920 1080 .default
    let steps := arrival 0 ++ departure 0 ++ arrival 1
    (∀ pre suf t, steps = pre ++ suf → exec step start pre = some t → t.ListsLive) ↔
      (∀ pre a suf t, steps = pre ++ a :: suf → exec step start pre = some t →
        t.OnlyOneEnds a) :=
  lists_live_iff ⟨0⟩ 1920 1080 .default (arrival 0 ++ departure 0 ++ arrival 1) _
    (Option.some_get (by rfl)).symm

/-- **The redialed client is forgotten.** A client redials, and the end of its
old connection is noticed after the new one is up: the lists drain to nothing
while the new connection lives. -/
theorem redial_forgotten :
    ∃ last, exec step (new ⟨0⟩ 1920 1080 .default) (arrival 0 ++ arrival 1 ++ departure 0)
        = some last ∧ ¬ last.ListsLive := by
  refine ⟨_, rfl, ?_⟩
  intro h
  obtain ⟨hpeers, -, -⟩ := (listsLive_iff _).mp h
  have hlen := congrArg List.length hpeers
  revert hlen
  decide

end Listener

end InputSync
