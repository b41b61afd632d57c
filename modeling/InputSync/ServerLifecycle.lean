/-
The server's lifecycle when requests are handled concurrently (`start_server`,
`stop_server` and `ServerController::stop` of `crates/daemon/src/app.rs`, one
task per IPC client in `ipc_server.rs`).

`ServerDaemon` has requests as whole steps. Here a request goes lock section by
lock section, and so does the fan-out task of every server: `start_server`
checks under the read lock, binds and spawns under none and records under the
write lock; `stop_server` clears and takes the controller under the write lock,
then closes the endpoint and aborts the tasks. Any number of requests are in
flight, and any of them takes the next step.

An open endpoint is owned by the request that has bound it or is about to close
it, or by the recorded controller (`owned`). Only a `record` over a recorded
controller breaks that (`owned_iff`); nothing ever closes the endpoint it
overwrites. The peers outlive their server when a fan-out task adds one after
the list was cleared (`peers_left_iff`). `consistent_iff` puts the two together.
-/
import InputSync.Config
import InputSync.ServerDaemon

set_option autoImplicit false

namespace InputSync

/-! ## The lock sections

`start_server` takes the lock twice, and anything may happen in between. -/

namespace DaemonState

/-- The read section of `start_server`. -/
def check_start (self : DaemonState) : Except String Unit :=
  if self.server_controller.isSome then .error "server is already running"
  else
    match self.server_factory with
    | none => .error "daemon is not running as a server"
    | some _ => .ok ()

/-- The write section of `start_server`. -/
def record (self : DaemonState) (server : Nat) (local_addr : Option String) : DaemonState :=
  { self with
    server_controller := some ⟨server⟩
    listening := true
    capturing := true
    listen_addr := local_addr }

/-- With nothing in between, the sections of `start_server` make it up. -/
theorem start_server_sections (self : DaemonState) (server : Nat)
    (bind : Except String (Option String)) :
    self.start_server server bind = do
      self.check_start
      let local_addr ← bind.mapError ("bind quic server: " ++ ·)
      return self.record server local_addr := by
  unfold start_server check_start
  split_ifs
  · rfl
  · cases hfactory : self.server_factory with
    | none => rfl
    | some factory =>
        cases bind with
        | error e => rfl
        | ok local_addr =>
            simp [record, hfactory, Except.mapError, bind, Except.bind, pure, Except.pure]

end DaemonState

/-! ## The fan-out task

An abort is a request to the runtime. A task that is not waiting goes on to its next
await, and that may be the write of a peer. -/

/-- Where a fan-out task stands: it waits for an event, has one and is about to
take the write lock, is about to pass it on to the session, or has ended. -/
inductive FanOutAt
  | recv
  | update (event : ServerEvent)
  | send (event : ServerEvent)
  | ended
deriving DecidableEq

/-- A fan-out task. An abort takes effect where the task waits: one that is
being polled goes on until it does. -/
structure FanOut where
  pc : FanOutAt
  polled : Bool
  aborted : Bool
deriving DecidableEq

namespace FanOut

/-- A task that waits for its first event. -/
def new : FanOut := ⟨.recv, false, false⟩

/-- The runtime polls the task. -/
def poll (self : FanOut) : Option FanOut :=
  if self.polled ∨ self.pc = .ended then none
  else if self.aborted then some { self with pc := .ended }
  else some { self with polled := true }

/-- `raw_rx.recv()`; `none` when every sender is gone. -/
def recv (self : FanOut) (event : Option ServerEvent) : Option FanOut :=
  if self.polled ∧ self.pc = .recv then
    match event with
    | some event => some { self with pc := .update event }
    | none => some { self with pc := .ended, polled := false }
  else none

/-- The section that holds the write lock. -/
def update (self : FanOut) (event : ServerEvent) : Option FanOut :=
  if self.polled ∧ self.pc = .update event then some { self with pc := .send event } else none

/-- `session_tx.send(evt)`; it fails when the session is gone. -/
def send (self : FanOut) (ok : Bool) : Option FanOut :=
  match self.polled, self.pc with
  | true, .send _ =>
    if ok then some { self with pc := .recv } else some { self with pc := .ended, polled := false }
  | _, _ => none

/-- It has to wait, for an event or for room in the session's channel. -/
def pend (self : FanOut) : Option FanOut :=
  match self.polled, self.pc with
  | true, .recv | true, .send _ => some { self with polled := false }
  | _, _ => none

end FanOut

/-! ## Requests in flight

Every IPC client has a task of its own, so any number of requests are at different
places. The state of a request is where it stands, with what it has in hand. -/

/-- An endpoint that was bound: its address and what `local_addr` says, whether
it is open, and the fan-out task once that is spawned. What the accept task and
its connections send to the fan-out task, in any order, is what that receives. -/
structure BoundServer where
  addr : SocketAddr
  local_addr : Option String
  is_open : Bool
  fan_out : Option FanOut
deriving DecidableEq

/-- Where the task that handles a request stands, with the server it has in
hand. -/
inductive Handling
  | start_check
  | start_bind
  | start_spawn (server : Nat)
  | start_record (server : Nat)
  | stop_clear
  | stop_close (server : Nat)
  | stop_abort (server : Nat)
  | emergency_stop
  | answered (response : ServerResponse)
deriving DecidableEq

/-- Where the handling of a request begins. -/
def ServerRequest.handling : ServerRequest → Handling
  | .StartServer => .start_check
  | .StopServer => .stop_clear
  | .EmergencyStop => .emergency_stop

/-- The endpoint the request still has to record or to close. -/
def Handling.owns : Handling → Option Nat
  | .start_spawn server | .start_record server | .stop_close server => some server
  | _ => none

/-- The request has its answer. -/
def Handling.is_answered : Handling → Bool
  | .answered _ => true
  | _ => false

/-- The daemon: its state, every endpoint there has been and every request. -/
structure Lifecycle where
  state : DaemonState
  servers : List BoundServer
  requests : List Handling
deriving DecidableEq

/-- The steps, grouped by the request or task that takes them. -/
inductive LifecycleStep
  | arrive (req : ServerRequest)
  -- `start_server`
  | check (request : Nat)
  | bind (request : Nat) (bound : Except String (SocketAddr × Option String))
  | spawn (request : Nat)
  | record (request : Nat)
  -- `stop_server`
  | clear (request : Nat)
  | close (request : Nat)
  | abort (request : Nat)
  | emergency_stop (request : Nat)
  -- the fan-out task of a server
  | poll (server : Nat)
  | recv (server : Nat) (event : Option ServerEvent)
  | update (server : Nat) (event : ServerEvent)
  | send (server : Nat) (ok : Bool)
  | pend (server : Nat)

namespace Lifecycle

/-- A daemon in the server role, idle. -/
def new (factory : ServerFactory) : Lifecycle :=
  { state :=
      { capturing := false, listening := false, listen_addr := none, peers := []
        server_controller := none, server_factory := some factory }
    servers := [], requests := [] }

/-- The operating system may give a socket this address when asked for
`listen`: port 0 asks for a free port, and no address is given twice. -/
def CanBind (listen : SocketAddr) (servers : List BoundServer) (addr : SocketAddr) : Prop :=
  addr.ip = listen.ip ∧ addr.port ≠ 0 ∧ (listen.port = 0 ∨ addr.port = listen.port) ∧
  ∀ b ∈ servers, b.is_open = true → b.addr ≠ addr

instance (listen : SocketAddr) (servers : List BoundServer) (addr : SocketAddr) :
    Decidable (CanBind listen servers addr) :=
  inferInstanceAs (Decidable (_ ∧ _ ∧ _ ∧ _))

/-- The request is at its next place. -/
def goto (self : Lifecycle) (request : Nat) (handling : Handling) : Lifecycle :=
  { self with requests := self.requests.set request handling }

/-- A server's fan-out task goes on. -/
def fan (self : Lifecycle) (server : Nat) (next : FanOut → Option FanOut) : Option Lifecycle :=
  match self.servers[server]? with
  | some b =>
    match b.fan_out.bind next with
    | some f =>
      some { self with servers := self.servers.set server { b with fan_out := some f } }
    | none => none
  | none => none

/-- One step. A request that is not where the step belongs cannot take it. -/
def step (listen : SocketAddr) (self : Lifecycle) : LifecycleStep → Option Lifecycle
  | .arrive req => some { self with requests := self.requests ++ [req.handling] }
  | .check r =>
    match self.requests[r]? with
    | some .start_check =>
      match self.state.check_start with
      | .ok _ => some (self.goto r .start_bind)
      | .error message => some (self.goto r (.answered (.Error message)))
    | _ => none
  | .bind r bound =>
    match self.requests[r]?, bound with
    | some .start_bind, .error e =>
      some (self.goto r (.answered (.Error ("bind quic server: " ++ e))))
    | some .start_bind, .ok (addr, local_addr) =>
      if CanBind listen self.servers addr then
        some { self.goto r (.start_spawn self.servers.length) with
          servers := self.servers ++ [⟨addr, local_addr, true, none⟩] }
      else none
    | _, _ => none
  | .spawn r =>
    match self.requests[r]? with
    | some (.start_spawn server) =>
      (self.servers[server]?).map (fun b =>
        { self.goto r (.start_record server) with
          servers := self.servers.set server { b with fan_out := some .new } })
    | _ => none
  | .record r =>
    match self.requests[r]? with
    | some (.start_record server) =>
      (self.servers[server]?).map (fun b =>
        { self.goto r (.answered .Ok) with state := self.state.record server b.local_addr })
    | _ => none
  | .clear r =>
    match self.requests[r]? with
    | some .stop_clear =>
      let next : Handling :=
        match self.state.server_controller with
        | some controller => .stop_close controller.session
        | none => .answered .Ok
      some { self.goto r next with state := self.state.stop_server }
    | _ => none
  | .close r =>
    match self.requests[r]? with
    | some (.stop_close server) =>
      (self.servers[server]?).map (fun b =>
        { self.goto r (.stop_abort server) with
          servers := self.servers.set server { b with is_open := false } })
    | _ => none
  | .abort r =>
    match self.requests[r]? with
    | some (.stop_abort server) =>
      (self.servers[server]?).map (fun b =>
        { self.goto r (.answered .Ok) with
          servers := self.servers.set server
            { b with fan_out := b.fan_out.map (fun f => { f with aborted := true }) } })
    | _ => none
  | .emergency_stop r =>
    match self.requests[r]? with
    | some .emergency_stop =>
      some { self.goto r (.answered .Ok) with state := { self.state with capturing := false } }
    | _ => none
  | .poll server => self.fan server FanOut.poll
  | .recv server event => self.fan server (FanOut.recv · event)
  | .update server event =>
    (self.fan server (FanOut.update · event)).map (fun next =>
      { next with state := { next.state with peers := fan_out_event next.state.peers event } })
  | .send server ok => self.fan server (FanOut.send · ok)
  | .pend server => self.fan server FanOut.pend

/-- No request is in flight. -/
def Quiet (self : Lifecycle) : Prop := ∀ r ∈ self.requests, r.is_answered = true

instance (self : Lifecycle) : Decidable self.Quiet :=
  inferInstanceAs (Decidable (∀ r ∈ self.requests, r.is_answered = true))

/-- The endpoint is open. -/
def Open (self : Lifecycle) (server : Nat) : Prop :=
  ∃ b, self.servers[server]? = some b ∧ b.is_open = true

/-- The open endpoints are the one recorded, `listening` says whether there is
one, and without one there are no peers. -/
def Consistent (self : Lifecycle) : Prop :=
  (∀ server, self.Open server ↔ self.state.server_controller = some ⟨server⟩) ∧
  (self.state.listening = true ↔ self.state.server_controller.isSome = true) ∧
  (self.state.server_controller = none → self.state.peers = [])

/-! ## One request at a time

The model by lock sections and the one with whole requests agree where nothing comes
between. -/

/-- **A start left to itself** is the whole step `handle_request` takes it
for. -/
theorem start_alone (listen : SocketAddr) (self : Lifecycle)
    (bound : Except String (SocketAddr × Option String))
    (hbound : ∀ addr local_addr, bound = .ok (addr, local_addr) →
      CanBind listen self.servers addr) :
    let r := self.requests.length
    let out := self.state.handle_request self.servers.length (bound.map Prod.snd) .StartServer
    ∃ as t, exec (step listen) self (.arrive .StartServer :: as) = some t ∧ t.state = out.1 ∧
      t.requests = self.requests ++ [.answered out.2] ∧
      ∀ a ∈ as, a = .check r ∨ a = .bind r bound ∨ a = .spawn r ∨ a = .record r := by
  intro r out
  have hout : out = self.state.handle_request self.servers.length (bound.map Prod.snd)
    .StartServer := rfl
  rw [DaemonState.handle_request, DaemonState.start_server_sections] at hout
  -- the three ways a start ends: refused, the bind fails, or a server is recorded; in
  -- each the sections follow one another at once
  cases hcheck : self.state.check_start with
  | error message =>
      rw [hcheck] at hout
      refine ⟨[.check r], { self with requests := self.requests ++ [.answered out.2] }, ?_, ?_⟩
      · simp [step, goto, ServerRequest.handling, r, hcheck, hout, bind, Except.bind]
      · simp [hout, bind, Except.bind]
  | ok checked =>
      rw [hcheck] at hout
      cases bound with
      | error e =>
          refine ⟨[.check r, .bind r (.error e)],
            { self with requests := self.requests ++ [.answered out.2] }, ?_, ?_⟩
          · simp [step, goto, ServerRequest.handling, r, hcheck, hout, bind, Except.bind, Except.map,
              Except.mapError]
          · simp [hout, bind, Except.bind, Except.map, Except.mapError]
      | ok bound =>
          obtain ⟨addr, local_addr⟩ := bound
          refine ⟨[.check r, .bind r (.ok (addr, local_addr)), .spawn r, .record r],
            { state := out.1
              servers := self.servers ++ [⟨addr, local_addr, true, some .new⟩]
              requests := self.requests ++ [.answered out.2] }, ?_, rfl, rfl, by simp⟩
          simp [step, goto, ServerRequest.handling, r, hcheck, hout, bind, Except.bind, Except.map,
            Except.mapError, hbound addr local_addr rfl, pure, Except.pure]

/-- And so is a stop. -/
theorem stop_alone (listen : SocketAddr) (self : Lifecycle)
    (hrecorded : ∀ controller, self.state.server_controller = some controller →
      controller.session < self.servers.length) :
    let r := self.requests.length
    ∃ as t, exec (step listen) self (.arrive .StopServer :: as) = some t ∧
      t.state = self.state.stop_server ∧ t.requests = self.requests ++ [.answered .Ok] ∧
      ∀ a ∈ as, a = .clear r ∨ a = .close r ∨ a = .abort r := by
  intro r
  -- without a controller only the state is cleared; with one its server is closed and
  -- the task aborted
  cases hcontroller : self.state.server_controller with
  | none =>
      refine ⟨[.clear r], { self with
        state := self.state.stop_server, requests := self.requests ++ [.answered .Ok] }, ?_, ?_⟩
      · simp [step, goto, ServerRequest.handling, r, hcontroller]
      · simp
  | some controller =>
      have hlt := hrecorded controller hcontroller
      refine ⟨[.clear r, .close r, .abort r], { self with
        state := self.state.stop_server
        servers := self.servers.set controller.session
          { self.servers[controller.session] with
            is_open := false
            fan_out := self.servers[controller.session].fan_out.map
              (fun f => { f with aborted := true }) }
        requests := self.requests ++ [.answered .Ok] }, ?_, rfl, rfl, by simp⟩
      simp [step, goto, ServerRequest.handling, r, hcontroller, hlt]

/-! ## Who owns an endpoint

Ownership is not in the code. It is read off the state, and says who is going to close
an endpoint. -/

/-- The endpoints that are recorded or in the hands of a request. -/
def owned (self : Lifecycle) : List Nat :=
  self.state.server_controller.toList.map ServerController.session ++
    self.requests.filterMap Handling.owns

/-- The steps that change the controller or the peers. -/
def Bookkeeping : LifecycleStep → Prop
  | .record _ | .clear _ | .update _ _ => True
  | _ => False

/-- What a step does to the endpoints, to who owns them and to the state. -/
inductive Change (self next : Lifecycle) (a : LifecycleStep) : Prop
  | none
      (step : ¬ Bookkeeping a)
      (opens : ∀ k, next.Open k ↔ self.Open k)
      (owned : next.owned.Perm self.owned)
      (controller : next.state.server_controller = self.state.server_controller)
      (listening : next.state.listening = self.state.listening)
      (peers : next.state.peers = self.state.peers)
  | bound (r : Nat) (out : Except String (SocketAddr × Option String))
      (bind : a = .bind r out)
      (opens : ∀ k, next.Open k ↔ self.Open k ∨ k = self.servers.length)
      (owned : next.owned.Perm (self.servers.length :: self.owned))
      (state : next.state = self.state)
  | recorded (r server : Nat) (rest : List Nat)
      (record : a = .record r)
      (opens : ∀ k, next.Open k ↔ self.Open k)
      (before : self.owned.Perm (self.state.server_controller.toList.map ServerController.session ++
        server :: rest))
      (after : next.owned.Perm (server :: rest))
      (controller : next.state.server_controller = some ⟨server⟩)
      (listening : next.state.listening = true)
      (peers : next.state.peers = self.state.peers)
  | cleared (r : Nat)
      (clear : a = .clear r)
      (opens : ∀ k, next.Open k ↔ self.Open k)
      (owned : next.owned.Perm self.owned)
      (state : next.state = self.state.stop_server)
  | closed (r server : Nat)
      (close : a = .close r)
      (opens : ∀ k, next.Open k ↔ self.Open k ∧ k ≠ server)
      (owned : self.owned.Perm (server :: next.owned))
      (state : next.state = self.state)
  | updated (server : Nat) (event : ServerEvent)
      (update : a = .update server event)
      (opens : ∀ k, next.Open k ↔ self.Open k)
      (owned : next.owned = self.owned)
      (state : next.state =
        { self.state with peers := fan_out_event self.state.peers event })

/-- One of the requests goes on: what it owned is replaced by what it owns. -/
theorem owns_set {requests : List Handling} {r : Nat} {h : Handling} (h' : Handling)
    (hr : requests[r]? = some h) :
    ∃ rest, (requests.filterMap Handling.owns).Perm (h.owns.toList ++ rest) ∧
      ((requests.set r h').filterMap Handling.owns).Perm (h'.owns.toList ++ rest) := by
  obtain ⟨hlt, rfl⟩ := List.getElem?_eq_some_iff.mp hr
  -- both lists are the others' with this one's in the middle
  have hsplit : ∀ x : Handling, ((requests.set r x).filterMap Handling.owns).Perm (x.owns.toList ++
      ((requests.take r).filterMap Handling.owns ++
        (requests.drop (r + 1)).filterMap Handling.owns)) := by
    intro x
    rw [List.set_eq_take_append_cons_drop, if_pos hlt, List.filterMap_append, List.filterMap_cons]
    cases x.owns with
    | none => exact .refl _
    | some k => exact List.perm_middle
  refine ⟨_, ?_, hsplit h'⟩
  have hself := hsplit requests[r]
  rwa [List.set_getElem_self] at hself

/-- A request that goes on and owns what it did. -/
theorem owned_goto {self : Lifecycle} {r : Nat} {h h' : Handling} (hr : self.requests[r]? = some h)
    (howns : h'.owns = h.owns) : (self.goto r h').owned.Perm self.owned := by
  obtain ⟨rest, hbefore, hafter⟩ := owns_set h' hr
  rw [howns] at hafter
  exact (hafter.trans hbefore.symm).append_left _

/-- An open endpoint is one of those there have been. -/
theorem open_lt {self : Lifecycle} {k : Nat} (h : self.Open k) : k < self.servers.length := by
  obtain ⟨b, hb, -⟩ := h
  exact (List.getElem?_eq_some_iff.mp hb).1

/-- A server that is written back as open as it was. -/
theorem open_set {self next : Lifecycle} {server : Nat} {b b' : BoundServer}
    (hb : self.servers[server]? = some b) (hopen : b'.is_open = b.is_open)
    (hnext : next.servers = self.servers.set server b') (k : Nat) :
    next.Open k ↔ self.Open k := by
  have hlt := (List.getElem?_eq_some_iff.mp hb).1
  unfold Open
  rw [hnext]
  rcases eq_or_ne server k with rfl | hne
  · simp [List.getElem?_set_self hlt, hb, hopen]
  · rw [List.getElem?_set_ne hne]

/-- A step of a fan-out task touches nothing but that task. -/
theorem fan_change {self next : Lifecycle} {server : Nat} {f : FanOut → Option FanOut}
    (h : self.fan server f = some next) :
    (∀ k, next.Open k ↔ self.Open k) ∧ next.requests = self.requests ∧
      next.state = self.state := by
  unfold fan at h
  split at h
  · rename_i b hb
    split at h
    · cases h
      refine ⟨fun k => open_set hb ?_ rfl k, rfl, rfl⟩
      rfl
    · cases h
  · cases h

/-- A fan-out task owns no endpoint, so its steps leave the owners alone. -/
theorem fan_owned {self next : Lifecycle} {server : Nat} {f : FanOut → Option FanOut}
    (h : self.fan server f = some next) : next.owned = self.owned := by
  obtain ⟨-, hrequests, hstate⟩ := fan_change h
  unfold owned
  rw [hrequests, hstate]

/-- A step of a fan-out task that takes no part in the bookkeeping is a change of
nothing. -/
theorem fan_none {self next : Lifecycle} {server : Nat} {f : FanOut → Option FanOut}
    {a : LifecycleStep} (ha : ¬ Bookkeeping a) (h : self.fan server f = some next) :
    Change self next a := by
  obtain ⟨hopen, -, hstate⟩ := fan_change h
  exact .none ha hopen (.of_eq (fan_owned h)) (by rw [hstate]) (by rw [hstate]) (by rw [hstate])

/-- A bind that succeeds opens an endpoint, which its request owns until it has recorded
it; one that fails opens none. -/
theorem bind_change {listen : SocketAddr} {self next : Lifecycle} {r : Nat}
    {bound : Except String (SocketAddr × Option String)}
    (h : step listen self (.bind r bound) = some next) : Change self next (.bind r bound) := by
  simp only [step] at h
  split at h
  · rename_i e hr
    cases h
    exact .none id (fun k => .rfl) (owned_goto hr rfl) rfl rfl rfl
  · rename_i addr local_addr hr
    split_ifs at h
    cases h
    refine .bound r _ rfl ?_ ?_ rfl
    · -- the one appended is open, the others are as they were
      intro k
      simp only [Open, List.getElem?_append, List.getElem?_singleton]
      split_ifs with hlt heq
      · simp [Nat.ne_of_lt hlt]
      · simp [show k = self.servers.length by omega]
      · simp [show ¬ k = self.servers.length by omega, show self.servers.length ≤ k by omega]
    · obtain ⟨rest, hbefore, hafter⟩ := owns_set (.start_spawn self.servers.length) hr
      exact ((hafter.append_left _).trans List.perm_middle).trans
        ((hbefore.symm.append_left _).cons _)
  · cases h

/-- A record hands the endpoint from the request to the state. What was recorded before
is forgotten, whatever it was. -/
theorem record_change {listen : SocketAddr} {self next : Lifecycle} {r : Nat}
    (h : step listen self (.record r) = some next) : Change self next (.record r) := by
  simp only [step] at h
  split at h
  · rename_i server hr
    obtain ⟨b, hb, rfl⟩ := Option.map_eq_some_iff.mp h
    obtain ⟨rest, hbefore, hafter⟩ := owns_set (.answered .Ok) hr
    exact .recorded r server rest rfl (fun k => .rfl) (hbefore.append_left _)
      (hafter.cons server) rfl rfl rfl
  · cases h

/-- The controller goes from the state to the request. -/
theorem clear_change {listen : SocketAddr} {self next : Lifecycle} {r : Nat}
    (h : step listen self (.clear r) = some next) : Change self next (.clear r) := by
  simp only [step] at h
  split at h
  · rename_i hr
    cases h
    refine .cleared r rfl (fun k => .rfl) ?_ rfl
    cases hcontroller : self.state.server_controller with
    | none =>
        obtain ⟨rest, hbefore, hafter⟩ := owns_set (.answered .Ok) hr
        simp only [owned, hcontroller]
        exact hafter.trans hbefore.symm
    | some controller =>
        obtain ⟨rest, hbefore, hafter⟩ := owns_set (.stop_close controller.session) hr
        simp only [owned, hcontroller]
        exact hafter.trans (hbefore.symm.cons _)
  · cases h

/-- A close gives up the endpoint that the request took out of the state, and it is open
no longer. -/
theorem close_change {listen : SocketAddr} {self next : Lifecycle} {r : Nat}
    (h : step listen self (.close r) = some next) : Change self next (.close r) := by
  simp only [step] at h
  split at h
  · rename_i server hr
    obtain ⟨b, hb, rfl⟩ := Option.map_eq_some_iff.mp h
    have hlt := (List.getElem?_eq_some_iff.mp hb).1
    refine .closed r server rfl ?_ ?_ rfl
    · intro k
      rcases eq_or_ne server k with rfl | hne
      · simp [Open, List.getElem?_set_self hlt]
      · simp [Open, List.getElem?_set_ne hne, hne.symm]
    · obtain ⟨rest, hbefore, hafter⟩ := owns_set (.stop_abort server) hr
      exact ((hbefore.append_left _).trans List.perm_middle).trans
        ((hafter.symm.append_left _).cons _)
  · cases h

/-- All steps, in terms of who owns what. The invariants below are checked against the
six cases of `Change` and never unfold `step`. -/
theorem step_change {listen : SocketAddr} {self next : Lifecycle} {a : LifecycleStep}
    (h : step listen self a = some next) : Change self next a := by
  -- six steps touch what is owned or recorded and have lemmas of their own; what the
  -- others do is local to a request or a server
  cases a with
  | arrive req =>
      cases h
      have howns : [req.handling].filterMap Handling.owns = [] := by cases req <;> rfl
      refine .none id (fun k => .rfl) (.of_eq ?_) rfl rfl rfl
      unfold owned
      rw [List.filterMap_append, howns, List.append_nil]
  | check r =>
      simp only [step] at h
      split at h
      · rename_i hr
        split at h
        all_goals
          cases h
          exact .none id (fun k => .rfl) (owned_goto hr rfl) rfl rfl rfl
      · cases h
  | bind r bound => exact bind_change h
  | spawn r =>
      simp only [step] at h
      split at h
      · rename_i server hr
        obtain ⟨b, hb, rfl⟩ := Option.map_eq_some_iff.mp h
        refine .none id (fun k => open_set hb ?_ rfl k) (owned_goto hr rfl) rfl rfl rfl
        rfl
      · cases h
  | record r => exact record_change h
  | clear r => exact clear_change h
  | close r => exact close_change h
  | abort r =>
      simp only [step] at h
      split at h
      · rename_i server hr
        obtain ⟨b, hb, rfl⟩ := Option.map_eq_some_iff.mp h
        refine .none id (fun k => open_set hb ?_ rfl k) (owned_goto hr rfl) rfl rfl rfl
        rfl
      · cases h
  | emergency_stop r =>
      simp only [step] at h
      split at h
      · rename_i hr
        cases h
        exact .none id (fun k => .rfl) (owned_goto hr rfl) rfl rfl rfl
      · cases h
  | poll server => exact fan_none id h
  | recv server event => exact fan_none id h
  | send server ok => exact fan_none id h
  | pend server => exact fan_none id h
  | update server event =>
      obtain ⟨middle, hfan, rfl⟩ := Option.map_eq_some_iff.mp h
      obtain ⟨hopen, -, hstate⟩ := fan_change hfan
      have howned := fan_owned hfan
      refine .updated server event rfl hopen howned ?_
      rw [hstate]

/-! ## Every open endpoint has an owner

Two invariants. The first holds in all runs; the second one is lost at a `record` over a
recorded controller, and never regained. -/

/-- What holds in every state: an owned endpoint has one owner and is open, and
`listening` says whether a controller is recorded. -/
structure Custody (s : Lifecycle) : Prop where
  distinct : s.owned.Nodup
  opened : ∀ k ∈ s.owned, s.Open k
  listening : s.state.listening = s.state.server_controller.isSome

/-- No open endpoint is without an owner. -/
def Owned (self : Lifecycle) : Prop := ∀ k, self.Open k → k ∈ self.owned

/-- A start finds no controller where it records its own. -/
def RecordsAlone (self : Lifecycle) : LifecycleStep → Prop
  | .record _ => self.state.server_controller = none
  | _ => True

/-- At the start nothing is owned and nothing listens. -/
theorem custody_new (factory : ServerFactory) : (new factory).Custody :=
  ⟨.nil, by rintro k ⟨⟩, rfl⟩

/-- An endpoint passes from hand to hand and is never in two at once: bound by a
request, recorded by it in the state, taken out by another request, closed by that.
Every transfer happens inside one lock section, which is why `Custody` holds at every
await. It does not say that an endpoint in nobody's hands is closed; that is `Owned`,
and it can fail. -/
theorem step_custody {listen : SocketAddr} {self next : Lifecycle} {a : LifecycleStep}
    (hself : self.Custody) (h : step listen self a = some next) : next.Custody := by
  obtain ⟨hdistinct, hopened, hlistening⟩ := hself
  cases step_change h with
  | none hstep opens owned controller listening peers =>
      refine ⟨owned.nodup_iff.mpr hdistinct, ?_, by rw [listening, controller, hlistening]⟩
      intro k hk
      exact (opens k).mpr (hopened k (owned.subset hk))
  | bound r out hbind opens owned state =>
      -- what is not open yet has no owner
      have hfresh : self.servers.length ∉ self.owned := by
        intro hmem
        exact Nat.lt_irrefl _ (open_lt (hopened _ hmem))
      refine ⟨owned.nodup_iff.mpr (List.nodup_cons.mpr ⟨hfresh, hdistinct⟩), ?_,
        by rw [state, hlistening]⟩
      intro k hk
      rcases List.mem_cons.mp (owned.subset hk) with rfl | hk
      · exact (opens _).mpr (.inr rfl)
      · exact (opens k).mpr (.inl (hopened k hk))
  | recorded r server rest hrecord opens before after controller listening peers =>
      have hrest : (server :: rest).Nodup :=
        List.Nodup.sublist (List.sublist_append_right _ _) (before.nodup_iff.mp hdistinct)
      refine ⟨after.nodup_iff.mpr hrest, ?_, by rw [listening, controller]; rfl⟩
      intro k hk
      exact (opens k).mpr (hopened k (before.symm.subset (List.mem_append_right _ (after.subset hk))))
  | cleared r hclear opens owned state =>
      refine ⟨owned.nodup_iff.mpr hdistinct, ?_, by rw [state]; rfl⟩
      intro k hk
      exact (opens k).mpr (hopened k (owned.subset hk))
  | closed r server hclose opens owned state =>
      obtain ⟨hnot, hrest⟩ := List.nodup_cons.mp (owned.nodup_iff.mp hdistinct)
      refine ⟨hrest, ?_, by rw [state, hlistening]⟩
      intro k hk
      refine (opens k).mpr ⟨hopened k (owned.symm.subset (List.mem_cons_of_mem _ hk)), ?_⟩
      rintro rfl
      exact hnot hk
  | updated server event hupdate opens owned state =>
      refine ⟨by rwa [owned], ?_, by rw [state]; exact hlistening⟩
      intro k hk
      exact (opens k).mpr (hopened k (owned ▸ hk))

/-- Whether every open endpoint has an owner depends on what is open and what is owned,
not on the order of the requests. -/
theorem owned_congr {self next : Lifecycle} (opens : ∀ k, next.Open k ↔ self.Open k)
    (owned : next.owned.Perm self.owned) : next.Owned ↔ self.Owned := by
  unfold Owned
  simp only [opens, owned.mem_iff]

/-- **One step.** Only a `record` over a controller leaves an endpoint without
an owner, and no step gives one back. -/
theorem step_owned_iff {listen : SocketAddr} {self next : Lifecycle} {a : LifecycleStep}
    (hself : self.Custody) (h : step listen self a = some next) :
    next.Owned ↔ self.Owned ∧ self.RecordsAlone a := by
  cases step_change h with
  | none hstep opens owned controller listening peers =>
      have halone : self.RecordsAlone a := by
        cases a <;> first | exact trivial | exact (hstep trivial).elim
      rw [owned_congr opens owned, and_iff_left halone]
  | bound r out hbind opens owned state =>
      subst hbind
      rw [and_iff_left (show self.RecordsAlone (.bind r out) from trivial)]
      constructor
      · intro hnext k hk
        rcases List.mem_cons.mp (owned.subset (hnext k ((opens k).mpr (.inl hk)))) with rfl | hmem
        · exact (Nat.lt_irrefl _ (open_lt hk)).elim
        · exact hmem
      · intro hall k hk
        rcases (opens k).mp hk with hk | rfl
        · exact owned.symm.subset (List.mem_cons_of_mem _ (hall k hk))
        · exact owned.symm.subset List.mem_cons_self
  | recorded r server rest hrecord opens before after controller listening peers =>
      subst hrecord
      cases hcontroller : self.state.server_controller with
      | none =>
          rw [hcontroller] at before
          have halone : self.RecordsAlone (.record r) := hcontroller
          rw [owned_congr opens (after.trans before.symm), and_iff_left halone]
      | some recorded =>
          -- the one that was recorded is open, and nobody's now
          rw [hcontroller] at before
          have hmem : recorded.session ∈ self.owned := before.symm.subset List.mem_cons_self
          have hnot : recorded.session ∉ server :: rest :=
            (List.nodup_cons.mp (before.nodup_iff.mp hself.distinct)).1
          apply iff_of_false
          · intro hnext
            exact hnot (after.subset (hnext _ ((opens _).mpr (hself.opened _ hmem))))
          · rintro ⟨-, halone⟩
            rw [RecordsAlone, hcontroller] at halone
            cases halone
  | cleared r hclear opens owned state =>
      subst hclear
      rw [owned_congr opens owned, and_iff_left (show self.RecordsAlone (.clear r) from trivial)]
  | closed r server hclose opens owned state =>
      subst hclose
      rw [and_iff_left (show self.RecordsAlone (.close r) from trivial)]
      constructor
      · intro hnext k hk
        rcases eq_or_ne k server with rfl | hne
        · exact owned.symm.subset List.mem_cons_self
        · exact owned.symm.subset (List.mem_cons_of_mem _ (hnext k ((opens k).mpr ⟨hk, hne⟩)))
      · intro hall k hk
        obtain ⟨hk, hne⟩ := (opens k).mp hk
        exact (List.mem_cons.mp (owned.subset (hall k hk))).resolve_left hne
  | updated server event hupdate opens owned state =>
      subst hupdate
      rw [owned_congr opens (.of_eq owned),
        and_iff_left (show self.RecordsAlone (.update server event) from trivial)]

/-- **Every run.** No endpoint is left without an owner exactly when every
start that records finds no controller. -/
theorem owned_iff {listen : SocketAddr} {factory : ServerFactory} {as : List LifecycleStep}
    {t : Lifecycle} (h : exec (step listen) (new factory) as = some t) :
    t.Owned ↔ Along (step listen) RecordsAlone (new factory) as := by
  have hnew : (new factory).Owned := by
    rintro k ⟨b, hb, -⟩
    cases hb
  exact exec_lasting_iff (step listen) Custody Owned RecordsAlone
    (fun m n a hm hn => step_custody hm hn) (fun m n a hm hn => step_owned_iff hm hn) (new factory) t
    as (custody_new factory) hnew h

/-! ## With a fixed port

The one way in which the surroundings prevent that. -/

/-- Every endpoint there has been has an address the configuration asks for. -/
def AsConfigured (listen : SocketAddr) (self : Lifecycle) : Prop :=
  ∀ b ∈ self.servers, b.addr.ip = listen.ip ∧ (listen.port = 0 ∨ b.addr.port = listen.port)

/-- Writing a server back with its address keeps every address as configured. -/
theorem asConfigured_set {listen : SocketAddr} {self next : Lifecycle} {server : Nat}
    {b b' : BoundServer} (hself : self.AsConfigured listen) (hb : self.servers[server]? = some b)
    (haddr : b'.addr = b.addr) (hnext : next.servers = self.servers.set server b') :
    next.AsConfigured listen := by
  intro x hx
  rw [hnext] at hx
  rcases List.mem_or_eq_of_mem_set hx with hx | rfl
  · exact hself x hx
  · rw [haddr]
    exact hself b (List.mem_of_getElem? hb)

/-- The steps of a fan-out task do that. -/
theorem asConfigured_fan {listen : SocketAddr} {self next : Lifecycle} {server : Nat}
    {f : FanOut → Option FanOut} (hself : self.AsConfigured listen)
    (h : self.fan server f = some next) : next.AsConfigured listen := by
  unfold fan at h
  split at h
  · rename_i b hb
    split at h
    · cases h
      refine asConfigured_set hself hb ?_ rfl
      rfl
    · cases h
  · cases h

/-- The servers are written back with the address they have; a bind appends one
that the system allows. -/
theorem step_asConfigured {listen : SocketAddr} {self next : Lifecycle} {a : LifecycleStep}
    (hself : self.AsConfigured listen) (h : step listen self a = some next) :
    next.AsConfigured listen := by
  cases a with
  | arrive req =>
      cases h
      exact hself
  | poll server | recv server event | send server ok | pend server =>
      exact asConfigured_fan hself h
  | update server event =>
      obtain ⟨middle, hfan, rfl⟩ := Option.map_eq_some_iff.mp h
      have hmiddle : middle.AsConfigured listen := asConfigured_fan hself hfan
      exact hmiddle
  | check r =>
      simp only [step] at h
      split at h
      · split at h
        all_goals
          cases h
          exact hself
      · cases h
  | bind r bound =>
      simp only [step] at h
      split at h
      · cases h
        exact hself
      · rename_i addr local_addr hr
        split_ifs at h with hcan
        cases h
        intro b hb
        rcases List.mem_append.mp hb with hb | hb
        · exact hself b hb
        -- the new server was bound for the configured address, which the step demands
        · obtain rfl := List.mem_singleton.mp hb
          exact ⟨hcan.1, hcan.2.2.1⟩
      · cases h
  | spawn r | close r | abort r =>
      simp only [step] at h
      split at h
      · obtain ⟨b, hb, rfl⟩ := Option.map_eq_some_iff.mp h
        refine asConfigured_set hself hb ?_ rfl
        rfl
      · cases h
  | record r =>
      simp only [step] at h
      split at h
      · obtain ⟨b, hb, rfl⟩ := Option.map_eq_some_iff.mp h
        exact hself
      · cases h
  | clear r | emergency_stop r =>
      simp only [step] at h
      split at h
      · cases h
        exact hself
      · cases h

/-- On a fixed port there is one open endpoint at a time. -/
def SoleOpen (self : Lifecycle) : Prop := ∀ j k, self.Open j → self.Open k → j = k

/-- On a fixed port a second bind fails while the first endpoint is open. This is the
operating system's doing; the code has no check of its own after the one under the read
lock. -/
theorem step_soleOpen {listen : SocketAddr} (hport : listen.port ≠ 0) {self next : Lifecycle}
    {a : LifecycleStep} (hconf : self.AsConfigured listen) (hself : self.SoleOpen)
    (h : step listen self a = some next) : next.SoleOpen := by
  cases step_change h with
  | none hstep opens owned controller listening peers =>
      exact fun j k hj hk => hself j k ((opens j).mp hj) ((opens k).mp hk)
  | recorded r server rest hrecord opens before after controller listening peers =>
      exact fun j k hj hk => hself j k ((opens j).mp hj) ((opens k).mp hk)
  | cleared r hclear opens owned state =>
      exact fun j k hj hk => hself j k ((opens j).mp hj) ((opens k).mp hk)
  | closed r server hclose opens owned state =>
      exact fun j k hj hk => hself j k ((opens j).mp hj).1 ((opens k).mp hk).1
  | updated server event hupdate opens owned state =>
      exact fun j k hj hk => hself j k ((opens j).mp hj) ((opens k).mp hk)
  | bound r out hbind opens owned state =>
      subst hbind
      -- an open endpoint would have the address that was asked for
      have hclosed : ∀ k, ¬ self.Open k := by
        rintro k ⟨b, hb, hopen⟩
        simp only [step] at h
        split at h
        · rename_i e hr
          cases h
          have hlast := (opens self.servers.length).mpr (.inr rfl)
          exact Nat.lt_irrefl _ (open_lt hlast)
        · rename_i addr local_addr hr
          split_ifs at h with hcan
          obtain ⟨hip, -, hsame, hfree⟩ := hcan
          have hmem := List.mem_of_getElem? hb
          obtain ⟨hip', hsame'⟩ := hconf b hmem
          apply hfree b hmem hopen
          have hports : b.addr.port = addr.port :=
            (hsame'.resolve_left hport).trans (hsame.resolve_left hport).symm
          calc b.addr = ⟨b.addr.ip, b.addr.port⟩ := rfl
            _ = addr := by rw [hip', hports, ← hip]
        · cases h
      intro j k hj hk
      rw [((opens j).mp hj).resolve_left (hclosed j), ((opens k).mp hk).resolve_left (hclosed k)]

/-- **A fixed port.** Unless the configured port is 0, a start that gets to
record its server finds no controller: the recorded one's endpoint would be
open beside its own. -/
theorem fixed_port_records_alone {listen : SocketAddr} (hport : listen.port ≠ 0)
    {factory : ServerFactory} {as : List LifecycleStep} {t : Lifecycle}
    (h : exec (step listen) (new factory) as = some t) {r : Nat} {next : Lifecycle}
    (hnext : step listen t (.record r) = some next) : t.state.server_controller = none := by
  obtain ⟨hcustody, -, hsole⟩ : t.Custody ∧ t.AsConfigured listen ∧ t.SoleOpen := by
    refine exec_invariant (step listen)
      (fun m => m.Custody ∧ m.AsConfigured listen ∧ m.SoleOpen) (new factory) t as ?_ ?_ h
    · refine ⟨custody_new factory, by rintro b ⟨⟩, ?_⟩
      rintro j k ⟨b, hb, -⟩
      cases hb
    · rintro m n a - ⟨hcustody, hconf, hsole⟩ hn
      exact ⟨step_custody hcustody hn, step_asConfigured hconf hn, step_soleOpen hport hconf hsole hn⟩
  cases step_change hnext with
  | none hstep => exact (hstep trivial).elim
  | bound r' out hbind => cases hbind
  | cleared r' hclear => cases hclear
  | closed r' server hclose => cases hclose
  | updated server event hupdate => cases hupdate
  | recorded r' server rest hrecord opens before after controller listening peers =>
      cases hrecorded : t.state.server_controller with
      | none => rfl
      | some recorded =>
          -- were one recorded already, two servers would be open, and a fixed port
          -- allows one
          rw [hrecorded] at before
          have hne : recorded.session ≠ server := by
            rintro rfl
            exact (List.nodup_cons.mp (before.nodup_iff.mp hcustody.distinct)).1 List.mem_cons_self
          refine (hne (hsole _ _ ?_ ?_)).elim
          · exact hcustody.opened _ (before.symm.subset List.mem_cons_self)
          · exact hcustody.opened _
              (before.symm.subset (List.mem_cons_of_mem _ List.mem_cons_self))

/-! ## The peers that are left

A peer that is on the list without a server got there through a fan-out task that was
not waiting when it was aborted. Only a later clear, a new server or its own end settles
the matter. -/

/-- What a step does to the controller and the peers. -/
theorem step_peers {listen : SocketAddr} {self next : Lifecycle} {a : LifecycleStep}
    (h : step listen self a = some next) :
    match a with
    | .record _ => next.state.server_controller.isSome = true ∧ next.state.peers = self.state.peers
    | .clear _ => next.state.server_controller = none ∧ next.state.peers = []
    | .update _ event => next.state.server_controller = self.state.server_controller ∧
        next.state.peers = fan_out_event self.state.peers event
    | _ => next.state.server_controller = self.state.server_controller ∧
        next.state.peers = self.state.peers := by
  -- the inversion lemma has a case for each thing a step can do, and four of the steps
  -- are named in it
  cases step_change h with
  | none hstep opens owned controller listening peers =>
      cases a <;> first | exact ⟨controller, peers⟩ | exact (hstep trivial).elim
  | bound r out hbind opens owned state =>
      subst hbind
      exact ⟨by rw [state], by rw [state]⟩
  | recorded r server rest hrecord opens before after controller listening peers =>
      subst hrecord
      exact ⟨by rw [controller]; rfl, peers⟩
  | cleared r hclear opens owned state =>
      subst hclear
      exact ⟨by rw [state]; rfl, by rw [state]; rfl⟩
  | closed r server hclose opens owned state =>
      subst hclose
      exact ⟨by rw [state], by rw [state]⟩
  | updated server event hupdate opens owned state =>
      subst hupdate
      exact ⟨by rw [state], by rw [state]⟩

/-- A controller is only recorded by a `record`. -/
theorem stays_none {listen : SocketAddr} {s t : Lifecycle} {as : List LifecycleStep}
    (h : exec (step listen) s as = some t) (hs : s.state.server_controller = none)
    (has : ∀ r, .record r ∉ as) : t.state.server_controller = none := by
  refine exec_invariant (step listen) (fun m => m.state.server_controller = none) s t as hs ?_ h
  intro m n a ha hm hstep
  have hpeers := step_peers hstep
  cases a with
  | record r => exact (has r ha).elim
  | clear r => exact hpeers.1
  | _ => exact hpeers.1.trans hm

/-- And only taken by a `clear`. -/
theorem stays_some {listen : SocketAddr} {s t : Lifecycle} {as : List LifecycleStep}
    (h : exec (step listen) s as = some t) (hs : s.state.server_controller ≠ none)
    (has : ∀ r, .clear r ∉ as) : t.state.server_controller ≠ none := by
  refine exec_invariant (step listen) (fun m => m.state.server_controller ≠ none) s t as hs ?_ h
  intro m n a ha hm hstep
  have hpeers := step_peers hstep
  cases a with
  | clear r => exact (has r ha).elim
  | record r => exact Option.isSome_iff_ne_none.mp hpeers.1
  | _ => exact fun hnone => hm (hpeers.1.symm.trans hnone)

/-- These steps take no peer with this id off the list. -/
def Keeps (peer_id : PeerId) (as : List LifecycleStep) : Prop :=
  (∀ r, .clear r ∉ as) ∧ ∀ k, .update k (.Disconnected peer_id) ∉ as

/-- A peer on the list stays there as long as no step takes its id off. -/
theorem peer_stays {listen : SocketAddr} {s t : Lifecycle} {as : List LifecycleStep}
    {p : TrackedPeer} (h : exec (step listen) s as = some t) (hp : p ∈ s.state.peers)
    (has : Keeps p.peer_id as) : p ∈ t.state.peers := by
  refine exec_invariant (step listen) (fun m => p ∈ m.state.peers) s t as hp ?_ h
  intro m n a ha hm hstep
  have hpeers := step_peers hstep
  cases a with
  | clear r => exact (has.1 r ha).elim
  | update k event =>
      rw [hpeers.2]
      cases event with
      | Connected handle => exact List.mem_append_left _ hm
      | Disconnected peer_id =>
          refine List.mem_filter.mpr ⟨hm, decide_eq_true ?_⟩
          rintro rfl
          exact has.2 k ha
  | _ => exact hpeers.2 ▸ hm

/-- A peer on the list was added by some fan-out task, and nothing since has
taken it off. -/
theorem peer_added {listen : SocketAddr} {factory : ServerFactory} {as : List LifecycleStep}
    {t : Lifecycle} {p : TrackedPeer} (h : exec (step listen) (new factory) as = some t)
    (hp : p ∈ t.state.peers) :
    ∃ pre k handle suf, as = pre ++ .update k (.Connected handle) :: suf ∧
      handle.track = p ∧ Keeps p.peer_id suf := by
  induction as using List.reverseRecOn generalizing t with
  | nil =>
      cases h
      cases hp
  | append_singleton as a ih =>
      obtain ⟨m, hm, hstep⟩ := (exec_concat_eq_some (step listen) _ t as a).mp h
      have hpeers := step_peers hstep
      -- unless the last step has added it, the peer was there before
      have hbefore : p ∈ m.state.peers → Keeps p.peer_id [a] →
          ∃ pre k handle suf, as ++ [a] = pre ++ .update k (.Connected handle) :: suf ∧
            handle.track = p ∧ Keeps p.peer_id suf := by
        intro hmem hlast
        obtain ⟨pre, k, handle, suf, rfl, htrack, hkeeps⟩ := ih hm hmem
        refine ⟨pre, k, handle, suf ++ [a], by simp, htrack, ?_, ?_⟩
        · intro r hr
          rcases List.mem_append.mp hr with hr | hr
          · exact hkeeps.1 r hr
          · exact hlast.1 r hr
        · intro j hj
          rcases List.mem_append.mp hj with hj | hj
          · exact hkeeps.2 j hj
          · exact hlast.2 j hj
      cases a with
      | clear r =>
          rw [hpeers.2] at hp
          cases hp
      | update k event =>
          rw [hpeers.2] at hp
          cases event with
          | Connected handle =>
              rcases List.mem_append.mp hp with hp | hp
              · exact hbefore hp ⟨by simp, by simp⟩
              · exact ⟨as, k, handle, [], rfl, (List.mem_singleton.mp hp).symm, by simp [Keeps]⟩
          | Disconnected peer_id =>
              obtain ⟨hmem, hne⟩ := List.mem_filter.mp hp
              refine hbefore hmem ⟨by simp, ?_⟩
              have hne := of_decide_eq_true hne
              simp [hne]
      | _ => exact hbefore (hpeers.2 ▸ hp) ⟨by simp, by simp⟩

/-- A step after which a peer that was added does not matter: the list is
cleared, a server is recorded, or the peer is gone. -/
def Settles (peer_id : PeerId) : LifecycleStep → Prop
  | .record _ | .clear _ => True
  | .update _ (.Disconnected gone) => gone = peer_id
  | _ => False

/-- Peers are left without a server exactly when one was added without a server
and nothing has settled it since. -/
theorem peers_left_iff {listen : SocketAddr} {factory : ServerFactory} {as : List LifecycleStep}
    {t : Lifecycle} (h : exec (step listen) (new factory) as = some t) :
    (t.state.server_controller = none → t.state.peers = []) ↔
      ∀ pre k handle suf m, as = pre ++ .update k (.Connected handle) :: suf →
        exec (step listen) (new factory) pre = some m → m.state.server_controller = none →
        ∃ a ∈ suf, Settles handle.peer_id a := by
  constructor
  · rintro hleft pre k handle suf m rfl hm hnone
    obtain ⟨m', hm', hrest⟩ := exec_append_eq_some (step listen) _ t pre _ h
    obtain rfl := Option.some.inj (hm.symm.trans hm')
    obtain ⟨n, hn, hsuf⟩ := Option.bind_eq_some_iff.mp hrest
    have hpeers := step_peers hn
    by_contra hnot
    push Not at hnot
    -- then the peer is on the list at the end, and there is no server
    have ht : t.state.server_controller = none := by
      refine stays_none hsuf (hpeers.1.trans hnone) ?_
      exact fun r hr => hnot _ hr trivial
    have hmem : handle.track ∈ t.state.peers := by
      refine peer_stays hsuf ?_ ⟨fun r hr => hnot _ hr trivial, fun j hj => hnot _ hj rfl⟩
      rw [hpeers.2]
      exact List.mem_append_right _ List.mem_cons_self
    rw [hleft ht] at hmem
    cases hmem
  · intro hsettled hnone
    rw [List.eq_nil_iff_forall_not_mem]
    intro p hp
    obtain ⟨pre, k, handle, suf, rfl, rfl, hkeeps⟩ := peer_added h hp
    obtain ⟨m, hm, hrest⟩ := exec_append_eq_some (step listen) _ t pre _ h
    obtain ⟨n, hn, hsuf⟩ := Option.bind_eq_some_iff.mp hrest
    have hpeers := step_peers hn
    -- no list was cleared since, so no server was recorded either
    have hm_none : m.state.server_controller = none := by
      by_contra hsome
      exact stays_some hsuf (hpeers.1 ▸ hsome) hkeeps.1 hnone
    obtain ⟨a, ha, hsettles⟩ := hsettled pre k handle suf m rfl hm hm_none
    cases a with
    | record r =>
        obtain ⟨before, after, rfl⟩ := List.append_of_mem ha
        obtain ⟨u, hu, hrest⟩ := exec_append_eq_some (step listen) _ t before _ hsuf
        obtain ⟨v, hv, hafter⟩ := Option.bind_eq_some_iff.mp hrest
        have hrecorded := Option.isSome_iff_ne_none.mp (step_peers hv).1
        exact stays_some hafter hrecorded (fun r hr => hkeeps.1 r (by simp [hr])) hnone
    | clear r => exact hkeeps.1 r ha
    | update j event =>
        cases event with
        | Connected handle' => exact hsettles
        | Disconnected gone =>
            cases hsettles
            exact hkeeps.2 j ha
    | _ => exact hsettles

/-! ## When it is consistent

The three conditions, put together for the states in which no request is in flight. -/

/-- With no request in flight, what is owned is what is recorded. -/
theorem owned_quiet {self : Lifecycle} (hquiet : self.Quiet) :
    self.owned = self.state.server_controller.toList.map ServerController.session := by
  have hnone : self.requests.filterMap Handling.owns = [] := by
    rw [List.filterMap_eq_nil_iff]
    intro r hr
    have hanswered := hquiet r hr
    cases r <;> first | rfl | cases hanswered
  rw [owned, hnone, List.append_nil]

/-- The recorded endpoint, as a list of at most one. -/
theorem mem_recorded (self : Lifecycle) (k : Nat) :
    k ∈ self.state.server_controller.toList.map ServerController.session ↔
      self.state.server_controller = some ⟨k⟩ := by
  cases self.state.server_controller with
  | none => simp
  | some controller =>
      obtain ⟨session⟩ := controller
      simp [eq_comm]

/-- **When the server is consistent.** With no request in flight, after any
interleaving of requests and fan-out tasks: exactly when every start has
recorded its server where none was, and every peer that was added without a
server has been settled since. -/
theorem consistent_iff (listen : SocketAddr) (factory : ServerFactory) (as : List LifecycleStep)
    (t : Lifecycle) (h : exec (step listen) (new factory) as = some t) (hquiet : t.Quiet) :
    t.Consistent ↔
      (∀ pre r suf m, as = pre ++ .record r :: suf →
        exec (step listen) (new factory) pre = some m → m.state.server_controller = none) ∧
      (∀ pre k handle suf m, as = pre ++ .update k (.Connected handle) :: suf →
        exec (step listen) (new factory) pre = some m → m.state.server_controller = none →
        ∃ a ∈ suf, Settles handle.peer_id a) := by
  have hcustody : t.Custody :=
    exec_invariant (step listen) Custody _ t as (custody_new factory)
      (fun m n a _ hm hn => step_custody hm hn) h
  -- the first condition is that no start records over another one
  have hrecords : Along (step listen) RecordsAlone (new factory) as ↔
      ∀ pre r suf m, as = pre ++ .record r :: suf →
        exec (step listen) (new factory) pre = some m → m.state.server_controller = none := by
    rw [along_iff]
    constructor
    · intro hall pre r suf m hsplit hm
      exact hall pre (.record r) suf m hsplit hm
    · intro hall pre a suf m hsplit hm
      cases a with
      | record r => exact hall pre r suf m hsplit hm
      | _ => trivial
  -- once no request is under way, owned means recorded
  have hopen : (∀ k, t.Open k ↔ t.state.server_controller = some ⟨k⟩) ↔ t.Owned := by
    unfold Owned
    rw [owned_quiet hquiet]
    simp only [mem_recorded]
    refine forall_congr' (fun k => ⟨Iff.mp, fun himp => ⟨himp, fun hk => ?_⟩⟩)
    apply hcustody.opened
    rw [owned_quiet hquiet, mem_recorded, hk]
  rw [Consistent, hopen, owned_iff h, hrecords, peers_left_iff h, hcustody.listening]
  simp

/-- A server that is started, gets a peer and is stopped, with nothing in
between. -/
theorem consistent_iff_stopped :
    let listen : SocketAddr := ⟨"0.0.0.0", 24800⟩
    let handle : PeerHandle := ⟨⟨Vector.replicate 16 7⟩, 0⟩
    let as : List LifecycleStep :=
      [.arrive .StartServer, .check 0, .bind 0 (.ok (listen, none)), .spawn 0, .record 0, .poll 0,
        .recv 0 (some (.Connected handle)), .update 0 (.Connected handle), .send 0 true, .pend 0,
        .arrive .StopServer, .clear 1, .close 1, .abort 1]
    ∃ t, exec (step listen) (new ⟨⟨[], []⟩⟩) as = some t ∧ t.Quiet ∧
      (t.Consistent ↔
        (∀ pre r suf m, as = pre ++ .record r :: suf →
          exec (step listen) (new ⟨⟨[], []⟩⟩) pre = some m →
          m.state.server_controller = none) ∧
        (∀ pre k handle suf m, as = pre ++ .update k (.Connected handle) :: suf →
          exec (step listen) (new ⟨⟨[], []⟩⟩) pre = some m →
          m.state.server_controller = none → ∃ a ∈ suf, Settles handle.peer_id a)) := by
  intro listen handle as
  refine ⟨_, rfl, by decide, ?_⟩
  exact consistent_iff listen _ as _ rfl (by decide)

end Lifecycle

/-- Two starts on port 0 that both check before either records leave an
endpoint open that nobody can close; and a fan-out task that has an event when
its server is stopped adds the peer after the list was cleared. -/
theorem concurrent_requests_inconsistent :
    let idle : Lifecycle := .new ⟨⟨[], []⟩⟩
    let handle : PeerHandle := ⟨⟨Vector.replicate 16 7⟩, 0⟩
    (∃ t, exec (Lifecycle.step ⟨"0.0.0.0", 0⟩) idle
        [.arrive .StartServer, .arrive .StartServer, .check 0, .check 1,
          .bind 0 (.ok (⟨"0.0.0.0", 40001⟩, none)), .bind 1 (.ok (⟨"0.0.0.0", 40002⟩, none)),
          .spawn 0, .record 0, .spawn 1, .record 1] = some t ∧
      t.Quiet ∧ t.state.server_controller = some ⟨1⟩ ∧ t.Open 0 ∧ t.Open 1 ∧ ¬ t.Consistent) ∧
    ∃ t, exec (Lifecycle.step ⟨"0.0.0.0", 24800⟩) idle
        [.arrive .StartServer, .check 0, .bind 0 (.ok (⟨"0.0.0.0", 24800⟩, none)), .spawn 0,
          .record 0, .poll 0, .recv 0 (some (.Connected handle)), .arrive .StopServer, .clear 1,
          .update 0 (.Connected handle), .close 1, .abort 1, .send 0 true, .pend 0, .poll 0]
        = some t ∧
      t.Quiet ∧ t.state.server_controller = none ∧ t.state.peers = [handle.track] ∧
      ¬ t.Consistent := by
  refine ⟨⟨_, rfl, by decide, rfl, ⟨_, rfl, rfl⟩, ⟨_, rfl, rfl⟩, ?_⟩,
    ⟨_, rfl, by decide, rfl, rfl, ?_⟩⟩
  · rintro ⟨hopen, -⟩
    have hzero := (hopen 0).mp ⟨_, rfl, rfl⟩
    exact absurd hzero (by decide)
  · rintro ⟨-, -, hpeers⟩
    exact absurd (hpeers rfl) (by decide)

end InputSync
