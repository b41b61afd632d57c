/-
The server daemon: the control requests (`crates/daemon/src/ipc_server.rs`,
`app.rs`), the sessions they start, and the one capture object all sessions
share.

Every accepted `StartServer` spawns a whole session: a channel, a drain loop
with an edge detector of its own, and a task that starts the capture with the
channel as its sink. Nothing ends a session: `StopServer` closes the endpoint
and aborts the accept and fan-out tasks. So a state has all sessions there
have been, in order, each with its tasks as in `SessionTasks`. What these call
the capture's flag is the flag of the shared object, loaded before a step and
stored after it.

An event handed to a sink has a number, and each session records the numbers
its edge detector has observed (the emergency combination, which it observes as
`force_local`, among them). Requests are whole steps here, one after the other.
-/
import InputSync.SessionTasks
import InputSync.ServerPeers
import InputSync.WindowsCapture

set_option autoImplicit false

namespace InputSync

/-! ## Requests

The part of the daemon's state that requests read and write, and the two requests that
concern sessions. -/

/-- The running server: the session its fan-out task feeds. -/
structure ServerController where
  session : Nat
deriving DecidableEq

/-- What a start needs: the configured layout. -/
structure ServerFactory where
  layout : ScreenLayout
deriving DecidableEq

/-- The part of the `DaemonState` that has to do with the server. -/
structure DaemonState where
  capturing : Bool
  listening : Bool
  listen_addr : Option String
  peers : List TrackedPeer
  server_controller : Option ServerController
  server_factory : Option ServerFactory
deriving DecidableEq

/-- The requests that start and stop it. -/
inductive ServerRequest
  | StartServer
  | StopServer
  | EmergencyStop
deriving DecidableEq

/-- What they are answered. -/
inductive ServerResponse
  | Ok
  | Error (message : String)
deriving DecidableEq

/-- What a start finds: whether the endpoint could be bound, with the address
it then has, and the local screen. -/
structure Surroundings where
  bind : Except String (Option String)
  local_screen_info : Option ScreenInfo

namespace DaemonState

/-- `start_server`, the session it spawns being the given one. -/
def start_server (self : DaemonState) (session : Nat) (bind : Except String (Option String)) :
    Except String DaemonState :=
  if self.server_controller.isSome then .error "server is already running"
  else
    match self.server_factory with
    | none => .error "daemon is not running as a server"
    | some _ =>
      match bind with
      | .error e => .error ("bind quic server: " ++ e)
      | .ok local_addr =>
        .ok { self with
          server_controller := some ⟨session⟩
          listening := true
          capturing := true
          listen_addr := local_addr }

/-- `stop_server`: the state is cleared and the controller dropped. The capture is not
asked to stop. -/
def stop_server (self : DaemonState) : DaemonState :=
  { self with
    listening := false
    capturing := false
    listen_addr := none
    peers := []
    server_controller := none }

/-- `handle_request` for these requests. -/
def handle_request (self : DaemonState) (session : Nat) (bind : Except String (Option String)) :
    ServerRequest → DaemonState × ServerResponse
  | .StartServer =>
    match self.start_server session bind with
    | .ok state => (state, .Ok)
    | .error message => (self, .Error message)
  | .StopServer => (self.stop_server, .Ok)
  | .EmergencyStop => ({ self with capturing := false }, .Ok)

end DaemonState

/-! ## Sessions

A session is never taken down, so the list of sessions only grows and a session is known
by its position. -/

/-- A session: its tasks, whether its start of the capture is still to come,
its capture channel, what its edge detector has observed, and a call of
`set_capturing` between its two stores. -/
structure SessionRun where
  tasks : Tasks
  starting : Bool
  channel : List (Nat × InputEvent)
  observed : List Nat
  hook_store : Option Bool

/-- `spawn_server`. -/
def spawn_server (factory : ServerFactory) (local_screen_info : Option ScreenInfo) : SessionRun :=
  let screen := local_screen_info.getD ⟨⟨0⟩, "local", 1920, 1080⟩
  { tasks := .new screen.id (max screen.width 1) (max screen.height 1) factory.layout
    starting := true, channel := [], observed := [], hook_store := none }

/-- A call of a sink: the session it belongs to, and whether its channel had
room. -/
structure Handed where
  sink : Nat
  accepted : Bool
deriving DecidableEq

/-! ## The machine

The requests, the shared capture with its threads, and the tasks of every session there
has been. -/

/-- The daemon's state, the one capture object, every session there has been, and the
events handed to sinks in order. -/
structure ServerDaemon where
  state : DaemonState
  capture : WindowsCapture
  sessions : List SessionRun
  handed : List Handed

/-- The steps, grouped by the task or thread that takes them. -/
inductive DaemonStep
  | request (req : ServerRequest) (env : Surroundings)
  | fan_out (event : ServerEvent)
  -- the capture and its threads
  | capture_start (session : Nat) (spawned : Spawned)
  | capture (a : CaptureStep)
  | drain (thread : Nat)
  -- the tasks of a session
  | recv (session : Nat)
  | task (session : Nat) (a : TaskStep)
  | store_hook (session : Nat)

namespace ServerDaemon

/-- A daemon in the server role, idle. -/
def new (layout : ScreenLayout) : ServerDaemon :=
  { state :=
      { capturing := false, listening := false, listen_addr := none, peers := []
        server_controller := none, server_factory := some ⟨layout⟩ }
    capture := .new, sessions := [], handed := [] }

/-- The request was answered with a new session. -/
def starts (self : ServerDaemon) (req : ServerRequest) (env : Surroundings) :
    Option ServerFactory :=
  if req = .StartServer ∧
      (self.state.handle_request self.sessions.length env.bind req).2 = .Ok then
    self.state.server_factory
  else none

/-- A drain thread hands an event to its sink. -/
def hand (self : ServerDaemon) (capture : WindowsCapture) : Option (Nat × InputEvent) → ServerDaemon
  | none => { self with capture }
  | some (sink, event) =>
    match self.sessions[sink]? with
    | some r =>
      match sink_send r.channel (self.handed.length, event) with
      | some channel =>
        { self with
          capture
          sessions := self.sessions.set sink { r with channel }
          handed := self.handed ++ [⟨sink, true⟩] }
      | none => { self with capture, handed := self.handed ++ [⟨sink, false⟩] }
    | none => { self with capture, handed := self.handed ++ [⟨sink, false⟩] }

/-- The `set_capturing` a step of the drain loop begins. -/
def stores (r : SessionRun) (a : TaskStep) : Option Bool :=
  match a, r.tasks.drain with
  | .act, .acting (.set_capturing on :: _) _ => some on
  | _, _ => r.hook_store

/-- The step belongs to the drain loop, which is one task with the
`set_capturing` it calls. -/
def drain_loop : TaskStep → Bool
  | .recv _ | .lock_peers _ | .act | .finish _ => true
  | _ => false

/-- One step of the daemon. -/
def step (self : ServerDaemon) : DaemonStep → Option ServerDaemon
  | .request req env =>
    let state := (self.state.handle_request self.sessions.length env.bind req).1
    match self.starts req env with
    | some factory =>
      some { self with
        state, sessions := self.sessions ++ [spawn_server factory env.local_screen_info] }
    | none => some { self with state }
  | .fan_out event =>
    some { self with state := { self.state with peers := fan_out_event self.state.peers event } }
  | .capture_start session spawned =>
    match self.sessions[session]? with
    | some r =>
      if r.starting then
        some { self with
          capture := (self.capture.start session spawned).1
          sessions := self.sessions.set session { r with starting := false } }
      else none
    | none => none
  | .capture a => (self.capture.step a).map (fun capture => { self with capture })
  | .drain w => (self.capture.drain w).map (fun r => self.hand r.1 r.2)
  | .recv session =>
    match self.sessions[session]? with
    | some r =>
      match r.channel, r.hook_store with
      | (n, event) :: channel, none =>
        (r.tasks.step (.recv event)).map (fun tasks =>
          { self with
            sessions := self.sessions.set session
              { r with tasks, channel, observed := r.observed ++ [n] } })
      | _, _ => none
    | none => none
  | .task session a =>
    match self.sessions[session]?, a with
    | _, .recv _ => none
    | some r, a =>
      if drain_loop a ∧ r.hook_store ≠ none then none
      else
        ((r.tasks.load self.capture.capturing).step a).map (fun tasks =>
          { self with
            capture := { self.capture with capturing := tasks.server.capturing }
            sessions := self.sessions.set session { r with tasks, hook_store := stores r a } })
    | none, _ => none
  | .store_hook session =>
    match self.sessions[session]? with
    | some r =>
      match r.hook_store with
      | some on =>
        some { self with
          capture := { self.capture with hook_capturing := on }
          sessions := self.sessions.set session { r with hook_store := none } }
      | none => none
    | none => none

/-! ## What a step can do

One inversion lemma for each kind of step, with the guards; the files above this one use
nothing else of `step`. -/

/-- `StopServer` and `EmergencyStop` only change the daemon's own state. -/
theorem step_stop {self next : ServerDaemon} {req : ServerRequest} {env : Surroundings}
    (hreq : req ≠ .StartServer) (h : self.step (.request req env) = some next) :
    next.capture = self.capture ∧ next.sessions = self.sessions ∧ next.handed = self.handed := by
  have hstarts : self.starts req env = none := by
    unfold starts
    rw [if_neg (fun hc => hreq hc.1)]
  simp only [step, hstarts] at h
  obtain rfl := Option.some.inj h
  exact ⟨rfl, rfl, rfl⟩

/-- A start is answered `Ok` only with a new session. -/
theorem starts_of_ok {self : ServerDaemon} {env : Surroundings}
    (hok : (self.state.handle_request self.sessions.length env.bind .StartServer).2 = .Ok) :
    ∃ factory, self.starts .StartServer env = some factory := by
  unfold starts
  rw [if_pos ⟨rfl, hok⟩]
  cases hfactory : self.state.server_factory with
  | some factory => exact ⟨factory, rfl⟩
  | none =>
      -- then the start fails
      simp only [DaemonState.handle_request, DaemonState.start_server, hfactory] at hok
      split_ifs at hok

/-- A session's task asks the capture to start, once. The capture answers `Ok` whether
it was running or not, so the session does not learn which. -/
theorem step_capture_start {self next : ServerDaemon} {session : Nat} {spawned : Spawned}
    (h : self.step (.capture_start session spawned) = some next) :
    ∃ r, self.sessions[session]? = some r ∧ r.starting = true ∧
      next = { self with
        capture := (self.capture.start session spawned).1
        sessions := self.sessions.set session { r with starting := false } } := by
  simp only [step] at h
  split at h
  · rename_i r hr
    split_ifs at h with hstarting
    exact ⟨r, hr, hstarting, (Option.some.inj h).symm⟩
  · cases h

/-- A step of the capture's own threads is one of the capture and of nothing else. -/
theorem step_capture {self next : ServerDaemon} {a : CaptureStep}
    (h : self.step (.capture a) = some next) :
    ∃ capture, self.capture.step a = some capture ∧ next = { self with capture } := by
  obtain ⟨capture, hcapture, hnext⟩ := Option.map_eq_some_iff.mp h
  exact ⟨capture, hcapture, hnext.symm⟩

/-- A drain thread takes what is next in its queue and may hand it to its sink, in one
step. -/
theorem step_drain {self next : ServerDaemon} {w : Nat} (h : self.step (.drain w) = some next) :
    ∃ capture out, self.capture.drain w = some (capture, out) ∧ next = self.hand capture out := by
  obtain ⟨⟨capture, out⟩, hdrain, hnext⟩ := Option.map_eq_some_iff.mp h
  exact ⟨capture, out, hdrain, hnext.symm⟩

/-- An event is handed to the channel of the sink's session, with the next
number, unless there is no room. -/
theorem hand_some (self : ServerDaemon) (capture : WindowsCapture) (sink : Nat)
    (event : InputEvent) :
    self.hand capture (some (sink, event))
        = { self with capture, handed := self.handed ++ [⟨sink, false⟩] } ∨
      ∃ r, self.sessions[sink]? = some r ∧ self.hand capture (some (sink, event)) = { self with
        capture
        sessions := self.sessions.set sink
          { r with channel := r.channel ++ [(self.handed.length, event)] }
        handed := self.handed ++ [⟨sink, true⟩] } := by
  simp only [hand]
  split
  · rename_i r hr
    unfold sink_send
    split
    · rename_i channel hsend
      split_ifs at hsend
      cases hsend
      exact .inr ⟨r, hr, rfl⟩
    · exact .inl rfl
  · exact .inl rfl

/-- The drain loop of a session takes the head of its channel, and its detector observes
that event. -/
theorem step_recv {self next : ServerDaemon} {session : Nat}
    (h : self.step (.recv session) = some next) :
    ∃ r n event channel tasks, self.sessions[session]? = some r ∧
      r.channel = (n, event) :: channel ∧ r.tasks.step (.recv event) = some tasks ∧
      next = { self with
        sessions := self.sessions.set session
          { r with tasks, channel, observed := r.observed ++ [n] } } := by
  simp only [step] at h
  split at h
  · rename_i r hr
    split at h
    · rename_i n event channel hchannel hstore
      obtain ⟨tasks, htasks, hnext⟩ := Option.map_eq_some_iff.mp h
      exact ⟨r, n, event, channel, tasks, hr, hchannel, htasks, hnext.symm⟩
    · cases h
  · cases h

/-- Any other step of a session's tasks is made with the flag as it is now, and the flag
is as the step leaves it. `load` and the write-back are what sharing the capture means.
-/
theorem step_task {self next : ServerDaemon} {session : Nat} {a : TaskStep}
    (h : self.step (.task session a) = some next) :
    (∀ event, a ≠ .recv event) ∧ ∃ r tasks, self.sessions[session]? = some r ∧
      (r.tasks.load self.capture.capturing).step a = some tasks ∧
      next = { self with
        capture := { self.capture with capturing := tasks.server.capturing }
        sessions := self.sessions.set session { r with tasks, hook_store := stores r a } } := by
  simp only [step] at h
  split at h
  · cases h
  · rename_i r hr hrecv
    refine ⟨hrecv, ?_⟩
    split_ifs at h
    obtain ⟨tasks, htasks, hnext⟩ := Option.map_eq_some_iff.mp h
    exact ⟨r, tasks, hr, htasks, hnext.symm⟩
  · cases h

/-- The second store of a `set_capturing`. Between the two a hook may see the flags
disagree. -/
theorem step_store_hook {self next : ServerDaemon} {session : Nat}
    (h : self.step (.store_hook session) = some next) :
    ∃ r on, self.sessions[session]? = some r ∧ r.hook_store = some on ∧
      next = { self with
        capture := { self.capture with hook_capturing := on }
        sessions := self.sessions.set session { r with hook_store := none } } := by
  simp only [step] at h
  split at h
  · rename_i r hr
    split at h
    · rename_i on hstore
      exact ⟨r, on, hr, hstore, (Option.some.inj h).symm⟩
    · cases h
  · cases h

/-! ## A session among the others

What one session sees of the others is the flag of the capture, which may change between
any two of its steps. So a session of the daemon is a run of the tasks in an environment
that sets the flag. -/

/-- Where a session over the shared capture can be, in the layout: some run takes
it there from its start, with the flag as it found it and as others set it. -/
def SharedRun (layout : ScreenLayout) (tasks : Tasks) : Prop :=
  ∃ screen w h capturing steps,
    exec Tasks.shared_step ((Tasks.new screen w h layout).load capturing) steps = some tasks

/-- A run over the shared capture that takes another step is one. -/
theorem SharedRun.step {layout : ScreenLayout} {tasks next : Tasks} (ht : SharedRun layout tasks)
    {a : Tasks.SharedStep} (h : tasks.shared_step a = some next) : SharedRun layout next := by
  obtain ⟨screen, w, h', capturing, steps, hsteps⟩ := ht
  refine ⟨screen, w, h', capturing, steps ++ [a], ?_⟩
  rw [exec_concat, hsteps, Option.bind_some, h]

/-- What every session of the daemon is: a run of its own tasks in which others
set the flag. The factory is the configured one, so a session to come is in the
same layout. -/
structure Lives (layout : ScreenLayout) (daemon : ServerDaemon) : Prop where
  factory : daemon.state.server_factory = some ⟨layout⟩
  sessions : ∀ (i : Nat) (r : SessionRun), daemon.sessions[i]? = some r →
    SharedRun layout (r.tasks.load daemon.capture.capturing)

/-- No request changes what a start needs. -/
theorem handle_request_factory (state : DaemonState) (session : Nat)
    (bind : Except String (Option String)) (req : ServerRequest) :
    (state.handle_request session bind req).1.server_factory = state.server_factory := by
  cases req with
  | StopServer | EmergencyStop => rfl
  | StartServer =>
      simp only [DaemonState.handle_request]
      split
      · rename_i started hstart
        unfold DaemonState.start_server at hstart
        split_ifs at hstart
        split at hstart
        · cases hstart
        · split at hstart <;> cases hstart
          rfl
      · rfl

/-- One session is written back. The others see at most the flag change, which to
them is a call from outside. -/
theorem Lives.set {layout : ScreenLayout} {self next : ServerDaemon} (hl : Lives layout self)
    {session : Nat} {r r' : SessionRun} (hr : self.sessions[session]? = some r)
    (hfactory : next.state.server_factory = self.state.server_factory)
    (hsessions : next.sessions = self.sessions.set session r')
    (h : SharedRun layout (r'.tasks.load next.capture.capturing)) : Lives layout next := by
  have hlt : session < self.sessions.length := (List.getElem?_eq_some_iff.mp hr).1
  refine ⟨hfactory.trans hl.factory, ?_⟩
  intro i u hu
  rw [hsessions] at hu
  by_cases hi : session = i
  · subst hi
    rw [List.getElem?_set_self hlt] at hu
    cases hu
    exact h
  · rw [List.getElem?_set_ne hi] at hu
    exact (hl.sessions i u hu).step (a := .set_capturing next.capture.capturing) rfl

/-- The sessions keep their tasks and the flag stays. -/
theorem Lives.keep {layout : ScreenLayout} {self next : ServerDaemon} (hl : Lives layout self)
    (hfactory : next.state.server_factory = self.state.server_factory)
    (hflag : next.capture.capturing = self.capture.capturing)
    (hsessions : ∀ (i : Nat) (r : SessionRun), next.sessions[i]? = some r →
      ∃ r', self.sessions[i]? = some r' ∧ r'.tasks = r.tasks) : Lives layout next := by
  refine ⟨hfactory.trans hl.factory, ?_⟩
  intro i r hr
  obtain ⟨r', hr', htasks⟩ := hsessions i r hr
  rw [hflag, ← htasks]
  exact hl.sessions i r' hr'

/-- A session written back with the same tasks. -/
theorem tasks_of_set {sessions : List SessionRun} {session : Nat} {r r' : SessionRun}
    (hr : sessions[session]? = some r) (h : r'.tasks = r.tasks) (i : Nat) (u : SessionRun)
    (hu : (sessions.set session r')[i]? = some u) :
    ∃ u', sessions[i]? = some u' ∧ u'.tasks = u.tasks := by
  rw [List.getElem?_set] at hu
  split_ifs at hu with heq hlt
  · cases hu
    exact ⟨r, heq ▸ hr, h.symm⟩
  · exact ⟨u, hu, rfl⟩

/-- Every step of the daemon is, for each session, a step of its own tasks, a change of
the flag by someone else, or nothing. The induction over runs is `session_run`. -/
theorem step_lives {layout : ScreenLayout} (self next : ServerDaemon) (a : DaemonStep)
    (hl : Lives layout self) (h : self.step a = some next) : Lives layout next := by
  cases a with
  | request req env =>
      have hfactory := handle_request_factory self.state self.sessions.length env.bind req
      cases hstarts : self.starts req env with
      | none =>
          simp only [step, hstarts] at h
          obtain rfl := Option.some.inj h
          exact hl.keep hfactory rfl (fun i r hr => ⟨r, hr, rfl⟩)
      | some factory =>
          simp only [step, hstarts] at h
          obtain rfl := Option.some.inj h
          refine ⟨hfactory.trans hl.factory, ?_⟩
          intro i r hr
          rw [List.getElem?_append] at hr
          split_ifs at hr with hlt
          · exact hl.sessions i r hr
          · -- the new one finds the flag as the last session left it
            rw [List.getElem?_singleton] at hr
            split_ifs at hr
            cases hr
            have hconfigured : factory = ⟨layout⟩ := by
              unfold starts at hstarts
              split_ifs at hstarts
              exact Option.some.inj (hstarts.symm.trans hl.factory)
            subst hconfigured
            exact ⟨_, _, _, self.capture.capturing, [], rfl⟩
  | fan_out event =>
      obtain rfl := Option.some.inj h
      exact hl.keep rfl rfl (fun i r hr => ⟨r, hr, rfl⟩)
  | capture_start session spawned =>
      obtain ⟨r, hr, -, rfl⟩ := step_capture_start h
      exact hl.keep rfl (self.capture.start_flags session spawned).1 (tasks_of_set hr rfl)
  | capture b =>
      obtain ⟨capture, hcapture, rfl⟩ := step_capture h
      exact hl.keep rfl (WindowsCapture.step_flags hcapture).1 (fun i r hr => ⟨r, hr, rfl⟩)
  | drain w =>
      obtain ⟨capture, out, hdrain, rfl⟩ := step_drain h
      obtain ⟨d, raw, queue, -, -, -, rfl, -⟩ := WindowsCapture.drain_eq_some hdrain
      cases out with
      | none => exact hl.keep rfl rfl (fun i r hr => ⟨r, hr, rfl⟩)
      | some out =>
          obtain ⟨sink, event⟩ := out
          rcases self.hand_some _ sink event with heq | ⟨r, hr, heq⟩
          · rw [heq]
            exact hl.keep rfl rfl (fun i r hr => ⟨r, hr, rfl⟩)
          · rw [heq]
            exact hl.keep rfl rfl (tasks_of_set hr rfl)
  | recv session =>
      obtain ⟨r, n, event, channel, tasks, hr, -, htasks, rfl⟩ := step_recv h
      have hsession := hl.sessions session r hr
      refine hl.set hr rfl rfl (hsession.step (a := .own (.recv event)) ?_)
      exact Tasks.load_recv _ htasks
  | task session b =>
      obtain ⟨-, r, tasks, hr, htasks, rfl⟩ := step_task h
      -- the step ran with the flag loaded, and what it left there was stored
      exact hl.set hr rfl rfl ((hl.sessions session r hr).step (a := .own b) htasks)
  | store_hook session =>
      obtain ⟨r, on, hr, -, rfl⟩ := step_store_hook h
      exact hl.keep rfl rfl (tasks_of_set hr rfl)

/-- **A session of the daemon** is a run of its own tasks over the shared capture:
it starts with the flag as the sessions before it left it, and between its steps
the others set it. So what `Tasks.never_void_iff` says holds of it. -/
theorem session_run (layout : ScreenLayout) (steps : List DaemonStep) (last : ServerDaemon)
    (hrun : exec step (new layout) steps = some last) (session : Nat) (r : SessionRun)
    (hr : last.sessions[session]? = some r) :
    SharedRun layout (r.tasks.load last.capture.capturing) := by
  have hnew : Lives layout (new layout) := by
    refine ⟨rfl, ?_⟩
    rintro i u ⟨⟩
  have hlives := exec_invariant step (Lives layout) (new layout) last steps hnew
    (fun m n a _ hm => step_lives m n a hm) hrun
  exact hlives.sessions session r hr

/-- **A restart can open the void.** A session that a `StartServer` brings has no
peer, and nobody has reset the capture: its input has somewhere to go exactly when
the flag is off. -/
theorem start_notVoid_iff {self next : ServerDaemon} {env : Surroundings}
    (hok : (self.state.handle_request self.sessions.length env.bind .StartServer).2 = .Ok)
    (h : self.step (.request .StartServer env) = some next) :
    ∃ r, next.sessions[self.sessions.length]? = some r ∧
      ((r.tasks.load next.capture.capturing).server.NotVoid ↔
        self.capture.capturing = false) := by
  obtain ⟨factory, hstarts⟩ := starts_of_ok hok
  simp only [step, hstarts] at h
  obtain rfl := Option.some.inj h
  refine ⟨_, List.getElem?_concat_length, ?_⟩
  exact Tasks.new_notVoid_iff _ _ _ _ _

/-- Control crosses to a client, the server is stopped and started again: the new
session has no peer, and the capture swallows what it gets. -/
example :
    let env : Surroundings := ⟨.ok none, none⟩
    let steps : List DaemonStep :=
      [.request .StartServer env, .capture_start 0 .both, .capture .hooks_installed,
        .task 0 (.connected ⟨⟨Vector.replicate 16 7⟩, 0⟩), .task 0 .set_auto,
        .capture (.hook (.mouse 0 WM_MOUSEMOVE ⟨⟨0, 300⟩, 0⟩)), .drain 0, .recv 0,
        .task 0 (.lock_peers (fun _ => true)), .task 0 .act, .task 0 .act, .task 0 .act,
        .store_hook 0, .task 0 (.finish (fun _ => true)), .request .StopServer env,
        .request .StartServer env]
    ∃ last r, exec step (new .default) steps = some last ∧ last.sessions[1]? = some r ∧
      ¬ (r.tasks.load last.capture.capturing).server.NotVoid := by
  refine ⟨_, _, rfl, rfl, ?_⟩
  intro h
  exact h (.inr rfl) rfl

/-! ## A drain loop left to itself

Whatever a session is doing, its drain loop can get back to its channel. The lemmas are
about the existence of such runs, for the converse directions of later results. -/

/-- A step of the session's tasks other than a receive of its drain loop. -/
def LoopStep (session : Nat) : DaemonStep → Prop
  | .task j _ | .store_hook j => j = session
  | _ => False

/-- Such steps leave the channel, the drain threads and what was handed over;
of the capture they change the two flags. -/
theorem loop_frame {self t : ServerDaemon} {session : Nat}
    (h : Reaches step (fun _ => LoopStep session) self t) {r : SessionRun}
    (hr : self.sessions[session]? = some r) :
    t.capture = { self.capture with
      capturing := t.capture.capturing, hook_capturing := t.capture.hook_capturing } ∧
    t.handed = self.handed ∧ t.sessions.length = self.sessions.length ∧
    ∃ r', t.sessions[session]? = some r' ∧ r'.channel = r.channel := by
  refine h.invariant (fun t => t.capture = { self.capture with
    capturing := t.capture.capturing, hook_capturing := t.capture.hook_capturing } ∧
    t.handed = self.handed ∧ t.sessions.length = self.sessions.length ∧
    ∃ r', t.sessions[session]? = some r' ∧ r'.channel = r.channel) ⟨rfl, rfl, rfl, r, hr, rfl⟩ ?_
  rintro m n a ⟨hcapture, hhanded, hlen, r', hr', hchannel⟩ ha hstep
  have hlt : session < m.sessions.length := (List.getElem?_eq_some_iff.mp hr').1
  -- both kinds write the session back and a flag at most
  cases a with
  | request _ _ | fan_out _ | capture_start _ _ | capture _ | drain _ | recv _ => exact ha.elim
  | task j b =>
      obtain rfl : j = session := ha
      obtain ⟨-, r'', tasks, hr'', -, rfl⟩ := step_task hstep
      obtain rfl := Option.some.inj (hr''.symm.trans hr')
      refine ⟨?_, hhanded, by simp [hlen], _, List.getElem?_set_self hlt, hchannel⟩
      rw [hcapture]
  | store_hook j =>
      obtain rfl : j = session := ha
      obtain ⟨r'', on, hr'', -, rfl⟩ := step_store_hook hstep
      obtain rfl := Option.some.inj (hr''.symm.trans hr')
      refine ⟨?_, hhanded, by simp [hlen], _, List.getElem?_set_self hlt, hchannel⟩
      rw [hcapture]

/-- A step of the drain loop from the tasks' own, when no call is between its
stores. -/
theorem task_steps {self : ServerDaemon} {session : Nat} {r : SessionRun} {a : TaskStep}
    {tasks : Tasks} (hr : self.sessions[session]? = some { r with hook_store := none })
    (hrecv : ∀ event, a ≠ .recv event)
    (htasks : (r.tasks.load self.capture.capturing).step a = some tasks) :
    ∃ next, self.step (.task session a) = some next ∧
      (∃ hook_store, next.sessions[session]? = some { r with tasks, hook_store }) ∧
      next.capture.capturing = tasks.server.capturing := by
  have hlt : session < self.sessions.length := (List.getElem?_eq_some_iff.mp hr).1
  refine ⟨{ self with
    capture := { self.capture with capturing := tasks.server.capturing }
    sessions := self.sessions.set session
      { r with tasks, hook_store := stores { r with hook_store := none } a } }, ?_,
    ⟨_, List.getElem?_set_self hlt⟩, rfl⟩
  cases a with
  | recv event => exact absurd rfl (hrecv event)
  | lock_peers _ | act | finish _ | connected _ | set_auto | disconnected _ | check_empty
  | clear_auto => simp [step, hr, htasks]

/-- A call of `set_capturing` between its two stores makes the second. -/
theorem store_owed {self : ServerDaemon} {session : Nat} {r : SessionRun}
    (hr : self.sessions[session]? = some r) :
    ∃ t, Reaches step (fun _ => LoopStep session) self t ∧
      t.sessions[session]? = some { r with hook_store := none } ∧
      (r.hook_store = some true → t.capture.hook_capturing = true) := by
  have hlt : session < self.sessions.length := (List.getElem?_eq_some_iff.mp hr).1
  obtain ⟨tasks, starting, channel, observed, hook_store⟩ := r
  cases hook_store with
  | none =>
      -- nothing is owed
      refine ⟨self, .refl step _ self, hr, ?_⟩
      rintro ⟨⟩
  | some on =>
      have hstep : self.step (.store_hook session) = some { self with
          capture := { self.capture with hook_capturing := on }
          sessions := self.sessions.set session ⟨tasks, starting, channel, observed, none⟩ } := by
        simp only [step, hr]
      refine ⟨_, .head (.store_hook session) rfl hstep (.refl step _ _),
        List.getElem?_set_self hlt, ?_⟩
      intro hon
      exact Option.some.inj hon

/-- The drain loop makes the calls before it, one after the other. -/
theorem acts_until {session : Nat} {after : Option (InputEvent × ForwardTo)}
    (pre rest : List Action) {self : ServerDaemon} {r : SessionRun}
    (hr : self.sessions[session]? = some r)
    (hdrain : r.tasks.drain = .acting (pre ++ rest) after) :
    ∃ t r', Reaches step (fun _ => LoopStep session) self t ∧ t.sessions[session]? = some r' ∧
      r'.tasks.drain = .acting rest after := by
  induction pre generalizing self r with
  | nil => exact ⟨self, r, .refl step _ self, hr, hdrain⟩
  | cons b pre ih =>
      -- a call that is between its stores makes the second before the next
      obtain ⟨ready, hready, hr', -⟩ := store_owed hr
      have hact : (r.tasks.load ready.capture.capturing).step .act = some
          { r.tasks.load ready.capture.capturing with
            server := (r.tasks.load ready.capture.capturing).server.act [b]
            drain := .acting (pre ++ rest) after
            actions := r.tasks.actions ++ [b] } := by
        simp only [Tasks.step, Tasks.load, hdrain, List.cons_append]
      obtain ⟨next, hstep, ⟨hook_store, hnext⟩, -⟩ := task_steps hr' (by simp) hact
      obtain ⟨t, r', ht, hr'', hdrain'⟩ := ih hnext rfl
      exact ⟨t, r', hready.trans (.head (.task session _) rfl hstep ht), hr'', hdrain'⟩

/-- One that has decided goes on to the calls; a peer whose queue takes nothing
will do. -/
theorem locks_peers {self : ServerDaemon} {session : Nat} {r : SessionRun}
    {decision : RouteDecision} {after : Option (InputEvent × ForwardTo)}
    (hr : self.sessions[session]? = some r) (hdrain : r.tasks.drain = .decided decision after) :
    ∃ t r', Reaches step (fun _ => LoopStep session) self t ∧ t.sessions[session]? = some r' ∧
      r'.tasks.drain
        = .acting (apply_decision decision r.tasks.server.peers (fun _ => false)) after := by
  obtain ⟨ready, hready, hr', -⟩ := store_owed hr
  have hlock : (r.tasks.load ready.capture.capturing).step (.lock_peers (fun _ => false))
      = some { r.tasks.load ready.capture.capturing with
        drain := .acting
          (apply_decision decision r.tasks.server.peers (fun _ => false)) after } := by
    simp only [Tasks.step, Tasks.load, hdrain]
  obtain ⟨next, hstep, ⟨hook_store, hnext⟩, -⟩ := task_steps hr' (by simp) hlock
  exact ⟨next, _, hready.trans (.head (.task session _) rfl hstep (.refl step _ next)), hnext, rfl⟩

/-- One that has its calls before it gets back to the channel. -/
theorem acting_ends {self : ServerDaemon} {session : Nat} {r : SessionRun}
    {actions : List Action} {after : Option (InputEvent × ForwardTo)}
    (hr : self.sessions[session]? = some r) (hdrain : r.tasks.drain = .acting actions after) :
    ∃ t r', Reaches step (fun _ => LoopStep session) self t ∧ t.sessions[session]? = some r' ∧
      r'.tasks.drain = .recv := by
  obtain ⟨there, r', hthere, hr', hdrain'⟩ :=
    acts_until actions [] hr (by rw [hdrain, List.append_nil])
  obtain ⟨ready, hready, hr'', -⟩ := store_owed hr'
  -- with no calls left, the event is forwarded if it is to be
  have hfinish : ∃ tasks,
      (r'.tasks.load ready.capture.capturing).step (.finish (fun _ => false)) = some tasks := by
    simp only [Tasks.step, Tasks.load, hdrain']
    cases after with
    | none => exact ⟨_, rfl⟩
    | some after => exact ⟨_, rfl⟩
  obtain ⟨tasks, htasks⟩ := hfinish
  obtain ⟨next, hstep, ⟨hook_store, hnext⟩, -⟩ := task_steps hr'' (by simp) htasks
  exact ⟨next, _, (hthere.trans hready).trans
    (.head (.task session _) rfl hstep (.refl step _ next)), hnext, (Tasks.step_finish htasks).1⟩

/-- **An iteration ends.** Wherever the drain loop stands, it gets back to the
channel, with no call under way. -/
theorem iteration_ends {self : ServerDaemon} {session : Nat} {r : SessionRun}
    (hr : self.sessions[session]? = some r) :
    ∃ t r', Reaches step (fun _ => LoopStep session) self t ∧ t.sessions[session]? = some r' ∧
      r'.tasks.drain = .recv ∧ r'.hook_store = none := by
  have hrecv : ∃ t r', Reaches step (fun _ => LoopStep session) self t ∧
      t.sessions[session]? = some r' ∧ r'.tasks.drain = .recv := by
    cases hdrain : r.tasks.drain with
    | recv => exact ⟨self, r, .refl step _ self, hr, hdrain⟩
    | acting actions after => exact acting_ends hr hdrain
    | decided decision after =>
        obtain ⟨there, r', hthere, hr', hdrain'⟩ := locks_peers hr hdrain
        obtain ⟨t, r'', ht, hr'', hdrain''⟩ := acting_ends hr' hdrain'
        exact ⟨t, r'', hthere.trans ht, hr'', hdrain''⟩
  obtain ⟨there, r', hthere, hr', hdrain'⟩ := hrecv
  obtain ⟨t, ht, hr'', -⟩ := store_owed hr'
  exact ⟨t, _, hthere.trans ht, hr'', hdrain', rfl⟩

end ServerDaemon

end InputSync
