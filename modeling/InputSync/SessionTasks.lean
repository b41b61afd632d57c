/-
The two tasks of the server session as they really interleave: between any
two locks or awaits of one, the other may run.

A step is what a task does from one such point to the next, so it is atomic
in the code as well: the drain loop receives an event and decides under the
edge lock, reads the peer list, performs its sends and capture calls one at a
time, and forwards; the peer handler pushes or retains under the peers lock
and touches the edge detector afterwards. An iteration that runs undisturbed
is the `Server.step` of `Session` (`tasks_simulate`).

The rest is about the void: control remote, or the capture swallowing input,
with no peer to send it to. Route, edge detector and peer list belong to the
session, but the capture does not: the platform has one, every `StartServer`
spawns a session over it, and neither `StopServer` nor `Capture::start` on a
capture that already runs resets its flag. A session therefore starts with the
flag as it was left, and while it runs the flag may be set from outside
(`SharedStep`). That a session of the daemon really lives like this is
`ServerDaemon.session_run`.
-/
import InputSync.Session

set_option autoImplicit false

namespace InputSync

/-! ## The tasks

Two program counters over one shared state. The handler's is short: what it does to the
peers and what it does to the detector are two lock sections. -/

/-- Where the drain loop stands, with the event still to be forwarded. -/
inductive DrainPc
  | recv
  | decided (decision : RouteDecision) (after : Option (InputEvent × ForwardTo))
  | acting (actions : List Action) (after : Option (InputEvent × ForwardTo))

/-- Where the peer handler stands. -/
inductive HandlerPc
  | recv | pushed | retained | clearing

/-- The shared state, where each task stands in its loop, and what has been done. -/
structure Tasks where
  server : Server
  drain : DrainPc
  handler : HandlerPc
  actions : List Action

/-- The steps, grouped by the task that takes them. -/
inductive TaskStep
  -- drain_capture
  | recv (event : InputEvent)
  | lock_peers (accepts : Message → Bool)
  | act
  | finish (accepts : Message → Bool)
  -- handle_peer_events_server
  | connected (handle : PeerHandle)
  | set_auto
  | disconnected (peer_id : PeerId)
  | check_empty
  | clear_auto

/-- A step of the peer handler. -/
def TaskStep.of_handler : TaskStep → Bool
  | .recv _ | .lock_peers _ | .act | .finish _ => false
  | .connected _ | .set_auto | .disconnected _ | .check_empty | .clear_auto => true

namespace Tasks

/-- Both tasks waiting for their channel. -/
def idle (server : Server) (actions : List Action) : Tasks :=
  { server, drain := .recv, handler := .recv, actions }

/-- A fresh session, with the capture released. -/
def new (local_screen : ScreenId) (w h : Int32) (layout : ScreenLayout) : Tasks :=
  idle (.new local_screen w h layout) []

/-- One step of one task; `none` when that task is not at the step. -/
def step (self : Tasks) : TaskStep → Option Tasks
  | .recv event =>
    match self.drain with
    | .recv =>
      if is_emergency event then
        let r := self.server.edge.force_local
        some { self with
          server := { self.server with edge := r.1, last_mouse := none }
          drain := .decided r.2 none }
      else
        let r := self.server.edge.observe event
        some { self with
          server := { self.server with edge := r.1 }
          drain := .decided r.2.1 (some (event, r.2.2)) }
    | _ => none
  | .lock_peers accepts =>
    match self.drain with
    | .decided decision after =>
      some { self with drain := .acting (apply_decision decision self.server.peers accepts) after }
    | _ => none
  | .act =>
    match self.drain with
    | .acting (a :: rest) after =>
      some { self with
        server := self.server.act [a]
        drain := .acting rest after
        actions := self.actions ++ [a] }
    | _ => none
  | .finish accepts =>
    match self.drain with
    | .acting [] none => some { self with drain := .recv }
    | .acting [] (some (event, fw)) =>
      let r := self.server.forward event fw accepts
      some { self with server := r.1, drain := .recv, actions := self.actions ++ r.2 }
    | _ => none
  | .connected handle =>
    match self.handler with
    | .recv =>
      some { self with
        server := { self.server with peers := self.server.peers ++ [handle] }
        handler := .pushed }
    | _ => none
  | .set_auto =>
    match self.handler with
    | .pushed =>
      some { self with
        server := { self.server with edge := self.server.edge.set_auto_peer (some ⟨1⟩) }
        handler := .recv }
    | _ => none
  | .disconnected peer_id =>
    match self.handler with
    | .recv =>
      some { self with
        server := { self.server with
          peers := self.server.peers.filter (fun p => p.peer_id ≠ peer_id) }
        handler := .retained }
    | _ => none
  | .check_empty =>
    match self.handler with
    | .retained =>
      some { self with handler := if self.server.peers.isEmpty then .clearing else .recv }
    | _ => none
  | .clear_auto =>
    match self.handler with
    | .clearing =>
      some { self with
        server := { self.server with edge := self.server.edge.set_auto_peer none }
        handler := .recv }
    | _ => none

/-! ## What a step can do

One inversion lemma for each step of either task. Everything about the session, in this
file and the others, goes through them. -/

/-- The drain loop takes an event. What becomes of it is decided under the edge lock, in
the same step, and then held in hand: the hotkey forces the route local, anything else
is observed. -/
theorem step_recv {self next : Tasks} {event : InputEvent}
    (h : self.step (.recv event) = some next) :
    (is_emergency event ∧
      next = { self with
        server := { self.server with edge := self.server.edge.force_local.1, last_mouse := none }
        drain := .decided self.server.edge.force_local.2 none }) ∨
    (¬ is_emergency event ∧
      next = { self with
        server := { self.server with edge := (self.server.edge.observe event).1 }
        drain := .decided (self.server.edge.observe event).2.1
          (some (event, (self.server.edge.observe event).2.2)) }) := by
  cases hpc : self.drain with
  | recv =>
      simp only [step, hpc] at h
      by_cases hem : is_emergency event
      · rw [if_pos hem] at h
        exact .inl ⟨hem, (Option.some.inj h).symm⟩
      · rw [if_neg hem] at h
        exact .inr ⟨hem, (Option.some.inj h).symm⟩
  | decided decision after => simp [step, hpc] at h
  | acting actions after => simp [step, hpc] at h

/-- It takes one only when its hands are empty. -/
theorem recv_drain {self next : Tasks} {event : InputEvent}
    (h : self.step (.recv event) = some next) : self.drain = .recv := by
  cases hpc : self.drain with
  | recv => rfl
  | decided decision after => simp [step, hpc] at h
  | acting actions after => simp [step, hpc] at h

/-- At the channel, any event can be received. -/
theorem recv_steps {self : Tasks} (event : InputEvent) (h : self.drain = .recv) :
    ∃ next, self.step (.recv event) = some next := by
  simp only [step, h]
  split
  · exact ⟨_, rfl⟩
  · exact ⟨_, rfl⟩

/-- It reads the peers once for all the calls of the decision. A peer that goes
afterwards is still sent to. -/
theorem step_lock_peers {self next : Tasks} {accepts : Message → Bool}
    (h : self.step (.lock_peers accepts) = some next) :
    ∃ decision after, self.drain = .decided decision after ∧
      next = { self with
        drain := .acting (apply_decision decision self.server.peers accepts) after } := by
  cases hpc : self.drain with
  | recv => simp [step, hpc] at h
  | decided decision after =>
      simp only [step, hpc, Option.some.injEq] at h
      exact ⟨decision, after, rfl, h.symm⟩
  | acting actions after => simp [step, hpc] at h

/-- It makes the next call, and records it. -/
theorem step_act {self next : Tasks} (h : self.step .act = some next) :
    ∃ a rest after, self.drain = .acting (a :: rest) after ∧
      next = { self with
        server := self.server.act [a]
        drain := .acting rest after
        actions := self.actions ++ [a] } := by
  match hpc : self.drain with
  | .recv | .decided decision after | .acting [] after => simp [step, hpc] at h
  | .acting (a :: rest) after =>
      simp only [step, hpc, Option.some.injEq] at h
      exact ⟨a, rest, after, rfl, h.symm⟩

/-- It forwards when all calls are made. -/
theorem finish_drain {self next : Tasks} {accepts : Message → Bool}
    (h : self.step (.finish accepts) = some next) : ∃ after, self.drain = .acting [] after := by
  cases hpc : self.drain with
  | recv => simp [step, hpc] at h
  | decided decision after => simp [step, hpc] at h
  | acting actions after =>
      cases actions with
      | nil => exact ⟨after, rfl⟩
      | cons a rest => simp [step, hpc] at h

/-- The end of an iteration leaves everything but `last_mouse` and the log. -/
theorem step_finish {self next : Tasks} {accepts : Message → Bool}
    (h : self.step (.finish accepts) = some next) :
    next.drain = .recv ∧ next.server.edge = self.server.edge ∧
      next.server.peers = self.server.peers ∧
      next.server.capturing = self.server.capturing := by
  match hpc : self.drain with
  | .recv | .decided decision after | .acting (b :: rest) after => simp [step, hpc] at h
  | .acting [] none =>
      simp only [step, hpc, Option.some.injEq] at h
      subst h
      exact ⟨rfl, rfl, rfl, rfl⟩
  | .acting [] (some (event, fw)) =>
      simp only [step, hpc, Option.some.injEq] at h
      subst h
      exact ⟨rfl, self.server.forward_frame event fw accepts⟩

/-- The handler takes the peer off the list, and turns to the detector in a step of its
own. In between the two disagree. -/
theorem step_disconnected {self next : Tasks} {peer_id : PeerId}
    (h : self.step (.disconnected peer_id) = some next) :
    next = { self with
      server := { self.server with
        peers := self.server.peers.filter (fun p => p.peer_id ≠ peer_id) }
      handler := .retained } := by
  cases hpc : self.handler <;> simp only [step, hpc, reduceCtorEq, Option.some.injEq] at h
  exact h.symm

/-- The handler touches the peers and the auto peer, and nothing else of what it
shares. -/
theorem step_handler {self next : Tasks} {a : TaskStep} (ha : a.of_handler = true)
    (h : self.step a = some next) :
    ∃ peers auto_peer handler, next = { self with
      server := { self.server with peers, edge := self.server.edge.set_auto_peer auto_peer }
      handler } := by
  cases a with
  | recv | lock_peers | act | finish => cases ha
  | connected | set_auto | disconnected | check_empty | clear_auto =>
      cases hpc : self.handler <;> simp only [step, hpc, reduceCtorEq, Option.some.injEq] at h
      subst h
      exact ⟨_, _, _, rfl⟩

/-! ## Undisturbed iterations

The whole-step model of `Session` is a special case of this one. -/

/-- The pending actions run to the end. -/
theorem exec_acts (pending : List Action) (server : Server) (h : HandlerPc) (log : List Action)
    (after : Option (InputEvent × ForwardTo)) :
    exec step ⟨server, .acting pending after, h, log⟩ (List.replicate pending.length .act)
      = some ⟨server.act pending, .acting [] after, h, log ++ pending⟩ := by
  induction pending generalizing server log with
  | nil => simp [Server.act]
  | cons a pending ih =>
      rw [List.length_cons, List.replicate_succ, exec_cons]
      simp only [step, Option.bind_some]
      rw [ih]
      simp [Server.act]

/-- **An iteration of `Server.step` is a run of its task alone.** -/
theorem tasks_simulate (server : Server) (log : List Action) (input : ServerInput) :
    ∃ steps, exec step (idle server log) steps
      = some (idle (server.step input).1 (log ++ (server.step input).2)) := by
  cases input with
  | captured event accepts =>
      -- an iteration is receive, decide, the decided actions one after the other, and
      -- forward
      by_cases hem : is_emergency event
      · let pending := apply_decision server.edge.force_local.2 server.peers accepts
        refine ⟨[.recv event, .lock_peers accepts] ++ List.replicate pending.length .act
          ++ [.finish accepts], ?_⟩
        have hstart : exec step (idle server log) [.recv event, .lock_peers accepts]
            = some ⟨{ server with edge := server.edge.force_local.1, last_mouse := none },
                .acting pending none, .recv, log⟩ := by
          simp [step, idle, hem, pending]
        rw [exec_append, exec_append, hstart, Option.bind_some, exec_acts, Option.bind_some]
        simp [step, idle, Server.step, Server.drain_event, hem, pending]
      · let r := server.edge.observe event
        let pending := apply_decision r.2.1 server.peers accepts
        refine ⟨[.recv event, .lock_peers accepts] ++ List.replicate pending.length .act
          ++ [.finish accepts], ?_⟩
        have hstart : exec step (idle server log) [.recv event, .lock_peers accepts]
            = some ⟨{ server with edge := r.1 }, .acting pending (some (event, r.2.2)), .recv,
                log⟩ := by
          simp [step, idle, hem, pending, r]
        rw [exec_append, exec_append, hstart, Option.bind_some, exec_acts, Option.bind_some]
        simp [step, idle, Server.step, Server.drain_event, hem, pending, r]
  | peer event =>
      cases event with
      | Connected handle =>
          refine ⟨[.connected handle, .set_auto], ?_⟩
          simp [step, idle, Server.step, Server.handle_peer_event]
      | Disconnected peer_id =>
          -- the last peer to go takes one step more
          by_cases hempty : (server.peers.filter (fun p => p.peer_id ≠ peer_id)).isEmpty
          · refine ⟨[.disconnected peer_id, .check_empty, .clear_auto], ?_⟩
            simp only [exec_cons, step, idle, Option.bind_some, hempty, exec_nil, Server.step,
              Server.handle_peer_event, List.append_nil]
            simp
          · refine ⟨[.disconnected peer_id, .check_empty], ?_⟩
            simp only [exec_cons, step, idle, Option.bind_some, hempty, exec_nil, Server.step,
              Server.handle_peer_event, List.append_nil]
            simp

/-- So every history of whole iterations is a run of the tasks. -/
theorem tasks_simulate_run (ins : List ServerInput) (server : Server) (log : List Action) :
    ∃ steps, exec step (idle server log) steps
      = some (idle (runOut Server.step server ins).1 (log ++ (runOut Server.step server ins).2)) := by
  induction ins generalizing server log with
  | nil => exact ⟨[], by simp⟩
  | cons input ins ih =>
      obtain ⟨first, hfirst⟩ := tasks_simulate server log input
      obtain ⟨rest, hrest⟩ := ih (server.step input).1 (log ++ (server.step input).2)
      refine ⟨first ++ rest, ?_⟩
      rw [exec_append, hfirst, Option.bind_some, hrest, runOut_cons, List.append_assoc]

end Tasks

/-! ## The void

An invariant that does not always hold, so the result is about when it does: one step at
a time, then along a run. -/

/-- Input has somewhere to go: if control is remote or the capture swallows
events, there is a peer. -/
def Server.NotVoid (self : Server) : Prop :=
  self.edge.route ≠ .Local ∨ self.capturing = true → self.peers ≠ []

namespace Tasks

/-- A capture still to be switched on belongs to a remote route. -/
def Pending (self : Tasks) : Prop :=
  match self.drain with
  | .recv => True
  | .decided decision _ =>
    ∀ screen entry warp m, decision = .EnterRemote screen entry warp m →
      self.server.edge.route ≠ .Local
  | .acting actions _ => .set_capturing true ∈ actions → self.server.edge.route ≠ .Local

/-- The steps that do not open the void: no disconnect takes the last peer
while control is remote or the capture on, and no captured move crosses an
edge while there is no peer. -/
def Guarded (self : Tasks) : TaskStep → Prop
  | .recv event =>
    self.server.peers = [] → self.server.edge.route = .Local →
      ∀ x y, event = .Mouse (.Move x y) → self.server.edge.crossing ⟨x, y⟩ = none
  | .disconnected peer_id =>
    self.server.peers.filter (fun p => p.peer_id ≠ peer_id) = [] →
      self.server.edge.route = .Local ∧ self.server.capturing = false
  | _ => True

/-- Only an enter switches the capture on. -/
theorem mem_set_capturing (decision : RouteDecision) (peers : List PeerHandle)
    (accepts : Message → Bool)
    (h : .set_capturing true ∈ apply_decision decision peers accepts) :
    ∃ screen entry warp m, decision = .EnterRemote screen entry warp m := by
  cases decision with
  | Stay => cases h
  | EnterRemote screen entry warp m => exact ⟨screen, entry, warp, m, rfl⟩
  | LeaveRemote screen =>
      -- a leave sends and switches off
      simp only [apply_decision, enqueue, List.mem_append, List.mem_singleton] at h
      rcases h with (h | h) | h
      · split at h
        · split at h <;> simp at h
        · cases h
      · split at h
        · split at h <;> simp at h
        · cases h
      · cases h

/-- `Pending` holds at every point of every run. -/
theorem step_pending (self next : Tasks) (a : TaskStep) (hp : self.Pending)
    (h : self.step a = some next) : next.Pending := by
  cases a with
  | recv event =>
      rcases step_recv h with ⟨-, rfl⟩ | ⟨-, rfl⟩
      · -- forcing local never enters
        intro screen entry warp m hd
        unfold EdgeDetector.force_local at hd
        split at hd <;> cases hd
      · intro screen entry warp m hd
        rcases self.server.edge.observe_cases event with
          ⟨x, y, side, scr, -, -, -, heq⟩ | ⟨-, -, hrest⟩
        · simp [heq]
        · rw [hrest] at hd
          cases hd
  | lock_peers accepts =>
      obtain ⟨decision, after, hpc, rfl⟩ := step_lock_peers h
      simp only [Pending, hpc] at hp
      intro hmem
      obtain ⟨screen, entry, warp, m, hd⟩ := mem_set_capturing _ _ _ hmem
      exact hp screen entry warp m hd
  | act =>
      obtain ⟨b, rest, after, hpc, rfl⟩ := step_act h
      simp only [Pending, hpc] at hp
      intro hmem
      exact hp (List.mem_cons_of_mem b hmem)
  | finish accepts =>
      obtain ⟨hpc, -⟩ := step_finish h
      unfold Pending
      rw [hpc]
      trivial
  | connected handle | set_auto | disconnected peer_id | check_empty | clear_auto =>
      obtain ⟨peers, auto_peer, handler, rfl⟩ := step_handler rfl h
      exact hp

/-- Taking an event opens the void when it crosses an edge and nobody is
there. -/
theorem recv_notVoid_iff {self next : Tasks} {event : InputEvent} (hgood : self.server.NotVoid)
    (h : self.step (.recv event) = some next) :
    next.server.NotVoid ↔ self.Guarded (.recv event) := by
  rcases step_recv h with ⟨hem, rfl⟩ | ⟨-, rfl⟩
  · refine iff_of_true ?_ ?_
    · rintro (hroute | hcap)
      · unfold EdgeDetector.force_local at hroute
        cases hr : self.server.edge.route <;> simp [hr] at hroute
      · exact hgood (.inr hcap)
    · -- the emergency combination is a key, not a move
      intro _ _ x y hev
      rw [hev] at hem
      cases hem
  · simp only [Server.NotVoid, Guarded]
    rcases self.server.edge.observe_cases event with
      ⟨x, y, side, scr, rfl, hlocal, hcross, heq⟩ | ⟨hstay, hroute, -⟩
    · -- a crossing is fine exactly when there is a peer
      simp only [heq, hlocal, ne_eq, reduceCtorEq, not_false_eq_true, true_or, true_imp_iff]
      constructor
      · intro hne he
        exact absurd he hne
      · intro hguard he
        have hnone := hguard he x y rfl
        rw [hcross] at hnone
        cases hnone
    · rw [hroute]
      refine iff_of_true hgood ?_
      intro _ hlocal x y hev
      exact hstay x y hev hlocal

/-- Acting does not open it: the capture goes on while the route is remote. -/
theorem act_notVoid {self next : Tasks} (hp : self.Pending) (hgood : self.server.NotVoid)
    (h : self.step .act = some next) : next.server.NotVoid := by
  obtain ⟨b, rest, after, hpc, rfl⟩ := step_act h
  simp only [Pending, hpc] at hp
  rintro (hroute | hcap)
  · exact hgood (.inl hroute)
  · cases b with
    | send peer msg => exact hgood (.inr hcap)
    | warp_cursor pos => exact hgood (.inr hcap)
    | set_capturing on =>
        have hon : on = true := hcap
        subst hon
        exact hgood (.inl (hp List.mem_cons_self))

/-- A disconnect opens it when the last peer goes while control is remote or
the capture on. -/
theorem disconnected_notVoid_iff {self next : Tasks} {peer_id : PeerId}
    (h : self.step (.disconnected peer_id) = some next) :
    next.server.NotVoid ↔ self.Guarded (.disconnected peer_id) := by
  obtain rfl := step_disconnected h
  simp only [Server.NotVoid, Guarded]
  constructor
  · intro hnext hempty
    have hclosed : ¬ (self.server.edge.route ≠ .Local ∨ self.server.capturing = true) := by
      intro hopen
      exact hnext hopen hempty
    simpa using hclosed
  · intro hguard hopen hempty
    obtain ⟨hroute, hcap⟩ := hguard hempty
    rcases hopen with hopen | hopen
    · exact hopen hroute
    · rw [hcap] at hopen
      cases hopen

/-- **One step.** From a state with somewhere to go, a step keeps that exactly
when it is guarded. -/
theorem step_notVoid_iff (self next : Tasks) (a : TaskStep) (hp : self.Pending)
    (hgood : self.server.NotVoid) (h : self.step a = some next) :
    next.server.NotVoid ↔ self.Guarded a := by
  -- two steps can lead into the void: a crossing without a peer, and the removal of the
  -- last one
  cases a with
  | recv event => exact recv_notVoid_iff hgood h
  | lock_peers accepts =>
      obtain ⟨decision, after, -, rfl⟩ := step_lock_peers h
      exact iff_of_true hgood trivial
  | act => exact iff_of_true (act_notVoid hp hgood h) trivial
  | finish accepts =>
      obtain ⟨-, hedge, hpeers, hcap⟩ := step_finish h
      refine iff_of_true ?_ trivial
      unfold Server.NotVoid
      rw [hedge, hpeers, hcap]
      exact hgood
  | connected handle =>
      cases hpc : self.handler <;> simp only [step, hpc, reduceCtorEq, Option.some.injEq] at h
      subst h
      exact iff_of_true (fun _ => by simp) trivial
  | disconnected peer_id => exact disconnected_notVoid_iff h
  | set_auto | check_empty | clear_auto =>
      cases hpc : self.handler <;> simp only [step, hpc, reduceCtorEq, Option.some.injEq] at h
      subst h
      exact iff_of_true hgood trivial

/-- The tasks with the flag of the shared capture in place. -/
def load (self : Tasks) (capturing : Bool) : Tasks :=
  { self with server := { self.server with capturing } }

/-- To receive an event, the flag does not matter. -/
theorem load_recv (capturing : Bool) {self next : Tasks} {event : InputEvent}
    (h : self.step (.recv event) = some next) :
    (self.load capturing).step (.recv event) = some (next.load capturing) := by
  have hdrain := recv_drain h
  rcases step_recv h with ⟨hem, rfl⟩ | ⟨hem, rfl⟩
  · simp only [step, load, hdrain, if_pos hem]
  · simp only [step, load, hdrain, if_neg hem]

/-- What happens to a session over a shared capture: one of its own tasks takes a
step, or another session calls `set_capturing`. -/
inductive SharedStep
  | own (a : TaskStep)
  | set_capturing (on : Bool)

/-- One step of the session, or of somebody else on the capture it shares. -/
def shared_step (self : Tasks) : SharedStep → Option Tasks
  | .own a => self.step a
  | .set_capturing on => some (self.load on)

/-- The same of a step that may come from outside: nobody else switches the capture
on while this session has no peer. To switch it off is harmless at any time, since
nothing is swallowed then. -/
def SharedGuarded (self : Tasks) : SharedStep → Prop
  | .own a => self.Guarded a
  | .set_capturing on => on = true → self.server.peers ≠ []

/-- `Pending` is about the session's own decision, so the flag does not matter to it. -/
theorem shared_pending (self next : Tasks) (a : SharedStep) (hp : self.Pending)
    (h : self.shared_step a = some next) : next.Pending := by
  cases a with
  | own a => exact self.step_pending next a hp h
  | set_capturing on =>
      cases h
      exact hp

/-- **One step**, from inside or outside. Another session's `set_capturing true`
opens the void exactly when there is no peer: with one there the flag may be on. -/
theorem shared_notVoid_iff (self next : Tasks) (a : SharedStep) (hp : self.Pending)
    (hgood : self.server.NotVoid) (h : self.shared_step a = some next) :
    next.server.NotVoid ↔ self.SharedGuarded a := by
  cases a with
  | own a => exact self.step_notVoid_iff next a hp hgood h
  | set_capturing on =>
      cases h
      unfold Server.NotVoid SharedGuarded
      constructor
      · intro hnext hon
        exact hnext (.inr hon)
      · rintro hguard (hroute | hon)
        · exact hgood (.inl hroute)
        · exact hguard hon

/-- A fresh session has no peer, so what it finds the flag to be decides. -/
theorem new_notVoid_iff (local_screen : ScreenId) (w h : Int32) (layout : ScreenLayout)
    (capturing : Bool) :
    ((new local_screen w h layout).load capturing).server.NotVoid ↔ capturing = false := by
  simp [Server.NotVoid, load, new, idle, Server.new, EdgeDetector.new]

/-- **When input is never routed into a void.** Along any run of a session, in any
layout, with the flag of the shared capture as the session finds it and set from
outside at any time: every state has somewhere for the input to go exactly when the
flag was off at the start and every step is guarded. -/
theorem never_void_iff (local_screen : ScreenId) (w h : Int32) (layout : ScreenLayout)
    (capturing : Bool) (steps : List SharedStep) (last : Tasks)
    (hrun : exec shared_step ((new local_screen w h layout).load capturing) steps = some last) :
    (∀ pre suf t, steps = pre ++ suf →
        exec shared_step ((new local_screen w h layout).load capturing) pre = some t →
        t.server.NotVoid) ↔
      capturing = false ∧
      (∀ pre a suf t, steps = pre ++ a :: suf →
        exec shared_step ((new local_screen w h layout).load capturing) pre = some t →
        t.SharedGuarded a) := by
  have hpending : ((new local_screen w h layout).load capturing).Pending := trivial
  -- from a start that is fine the steps decide
  have hiff := fun hgood => exec_guarded_iff shared_step Pending (fun t => t.server.NotVoid)
    SharedGuarded _ last steps hpending hgood (fun t u a hp hstep => t.shared_pending u a hp hstep)
    (fun t u a hp hg hstep => t.shared_notVoid_iff u a hp hg hstep) hrun
  constructor
  · intro hall
    -- the start is one of the states
    have hstart := hall [] steps _ rfl rfl
    exact ⟨(new_notVoid_iff local_screen w h layout capturing).mp hstart, (hiff hstart).mp hall⟩
  · rintro ⟨hoff, hsteps⟩
    exact (hiff ((new_notVoid_iff local_screen w h layout capturing).mpr hoff)).mpr hsteps

/-- The equivalence for a session whose one peer connects and is entered over the
left edge, while the drain loop of an earlier session switches the capture off and
on again. -/
theorem never_void_iff_entered :
    let start := (new ⟨0⟩ 1920 1080 .default).load false
    let steps : List SharedStep :=
      [.own (.connected ⟨⟨Vector.replicate 16 7⟩, 0⟩), .own .set_auto,
        .own (.recv (.Mouse (.Move 0 300))), .own (.lock_peers (fun _ => true)), .own .act,
        .own .act, .own .act, .set_capturing false, .set_capturing true,
        .own (.finish (fun _ => true))]
    (∀ pre suf t, steps = pre ++ suf → exec shared_step start pre = some t →
        t.server.NotVoid) ↔
      false = false ∧
      (∀ pre a suf t, steps = pre ++ a :: suf → exec shared_step start pre = some t →
        t.SharedGuarded a) :=
  never_void_iff ⟨0⟩ 1920 1080 .default false
    [.own (.connected ⟨⟨Vector.replicate 16 7⟩, 0⟩), .own .set_auto,
      .own (.recv (.Mouse (.Move 0 300))), .own (.lock_peers (fun _ => true)), .own .act,
      .own .act, .own .act, .set_capturing false, .set_capturing true,
      .own (.finish (fun _ => true))]
    _ (Option.some_get (by rfl)).symm

/-- **Into the void.** The peer that holds control disconnects: when both tasks
are done with it the route is still remote, the capture still swallows input,
and nobody is connected. -/
theorem disconnect_opens_void :
    ∃ last,
      exec step (new ⟨0⟩ 1920 1080 .default)
        [.connected ⟨⟨Vector.replicate 16 7⟩, 0⟩, .set_auto, .recv (.Mouse (.Move 0 300)),
          .lock_peers (fun _ => true), .act, .act, .act, .finish (fun _ => true),
          .disconnected ⟨Vector.replicate 16 7⟩, .check_empty, .clear_auto] = some last ∧
      ¬ last.server.NotVoid := by
  refine ⟨_, rfl, fun h => h ?_ ?_⟩
  · exact .inr rfl
  · rfl

end Tasks

end InputSync
