/-
Connect and Disconnect over IPC (`handle_request` and `handle_connect` in
`crates/daemon/src/ipc_server.rs`, on a daemon that runs as a client).

A handler does not send its command. It spawns a task that will, and replies; so
the requests of one connection are answered in order, while the tasks they leave
behind reach the command channel in the order they happen to run. The channel
and the supervisor keep whatever order that is (`LastCommand.lean`).

`in_order_iff` is the exact condition on the schedule: each task that sends, sends
the command of the answered request whose turn it is. Two tasks with equal
commands may change places, no others.
-/
import InputSync.LastCommand
import InputSync.IpcLines

set_option autoImplicit false

namespace InputSync

/-! ## The handlers

What each request is answered, and what it leaves to do. -/

/-- `str::trim`. -/
def trim (s : String) : String :=
  .ofList ((s.toList.dropWhile is_whitespace).rdropWhile is_whitespace)

/-- The reply, and the command of the task that is spawned, if one is. `resolve`
is what parsing the address, or else looking it up, makes of it. -/
def handle_connect (client_base : ClientConfig) (resolve : String → Except String String)
    (addr : String) (fingerprint : Option String) : IpcResponse × Option ClientCommand :=
  match resolve addr with
  | .error e => (.Error ("invalid address '" ++ addr ++ "': " ++ e), none)
  | .ok target =>
    let cfg := { client_base with server_addr := target }
    let cfg :=
      match fingerprint with
      | some fp =>
        let fp := trim fp
        if fp.isEmpty then cfg else { cfg with trusted_fingerprints := [fp] }
      | none => cfg
    (.Ok, some (.Dial cfg))

/-- The two arms of `handle_request`. -/
inductive ConnectionRequest
  | Connect (addr : String) (fingerprint : Option String)
  | Disconnect (peer : String)
deriving DecidableEq

/-- `handle_request` on a client. The peer a Disconnect names is not looked at. -/
def handle_request (client_base : ClientConfig) (resolve : String → Except String String) :
    ConnectionRequest → IpcResponse × Option ClientCommand
  | .Connect addr fingerprint => handle_connect client_base resolve addr fingerprint
  | .Disconnect _ => (.Ok, some .HangUp)

/-! ## The daemon

The replies are in order, and the spawned tasks are a bag: the scheduler takes any of
them next. -/

/-- A client daemon as far as these requests go. `answered` is the record of the
commands of the requests that got an Ok, and `tasks` the commands of those spawned
tasks that have not sent theirs. -/
structure IpcClient where
  client_base : ClientConfig
  controller : ClientController
  tasks : List ClientCommand
  answered : List ClientCommand

/-- A request is handled, a spawned task sends, or the supervisor takes a step. -/
inductive IpcClientStep
  -- one request and its reply
  | request (req : ConnectionRequest) (resolve : String → Except String String)
  -- a spawned task gets its place in the channel
  | run (k : Nat)
  -- the supervisor
  | receive
  | own (a : SupervisorStep)

namespace IpcClient

/-- Nothing has been asked for. -/
def new (client_base : ClientConfig) : IpcClient := ⟨client_base, .new, [], []⟩

/-- One step. Which of the spawned tasks sends next is the scheduler's choice, so it is
part of the step. -/
def step (self : IpcClient) : IpcClientStep → Option IpcClient
  | .request req resolve =>
    let cmd := (handle_request self.client_base resolve req).2
    some { self with tasks := self.tasks ++ cmd.toList, answered := self.answered ++ cmd.toList }
  | .run k =>
    match self.tasks[k]? with
    | some cmd =>
      (self.controller.step (.send cmd)).map (fun controller =>
        { self with controller, tasks := self.tasks.eraseIdx k })
    | none => none
  | .receive => (self.controller.step .command).map (fun controller => { self with controller })
  | .own a => (self.controller.step (.own a)).map (fun controller => { self with controller })

/-- The supervisor has received, and has waiting for it, the commands of the
first answered requests, in their order; and when no task and no command is left
and the last request was a Disconnect, it is idle. -/
structure InOrder (c : IpcClient) : Prop where
  received : c.controller.received <+: c.answered
  queued : c.controller.received ++ c.controller.queue <+: c.answered
  idle : c.tasks = [] → c.controller.queue = [] → c.answered.getLast? = some .HangUp →
    c.controller.supervisor.pc = .waiting

/-- A task that sends has the command of the request whose turn it is: of the
first one, in the order of the replies, that no command was sent for. -/
def InTurn (self : IpcClient) : IpcClientStep → Prop
  | .run k => ∀ cmd, self.tasks[k]? = some cmd →
    self.answered[self.controller.sent.length]? = some cmd
  | _ => True

/-! ## What a run keeps

The channel is FIFO and the supervisor takes from it one by one, so the order of the
sends is all there is to the order of the commands. -/

/-- The controller's records, and a task for each command not sent. -/
structure Kept (c : IpcClient) : Prop where
  controller : c.controller.Kept
  open_ : c.controller.dropped = false ∧ c.controller.supervisor.pc ≠ .exited
  spawned : c.controller.sent.length + c.tasks.length = c.answered.length

end IpcClient

namespace ClientController

variable {self next : ClientController}

/-- The channel of a controller that is held stays open. -/
theorem step_open {a : ControllerStep} (h : self.step a = some next) (ha : a ≠ .drop)
    (hs : self.dropped = false ∧ self.supervisor.pc ≠ .exited) :
    next.dropped = false ∧ next.supervisor.pc ≠ .exited := by
  obtain ⟨hopen, halive⟩ := hs
  cases a with
  | drop => exact absurd rfl ha
  | send cmd =>
      simp only [step] at h
      split_ifs at h
      rw [← Option.some.inj h]
      exact ⟨hopen, halive⟩
  | command =>
      simp only [step] at h
      split at h
      next cmd rest _ =>
        obtain ⟨supervisor, hsup, rfl⟩ := Option.map_eq_some_iff.mp h
        obtain ⟨rfl, -⟩ := Supervisor.step_command hsup
        exact ⟨hopen, by cases cmd <;> rintro ⟨⟩⟩
      -- only a dropped sender ends the loop
      next =>
        rw [hopen] at h
        cases h
  | own a =>
      cases a with
      | command cmd => cases h
      | start =>
          obtain ⟨supervisor, hsup, rfl⟩ := Option.map_eq_some_iff.mp h
          obtain ⟨cfg, -, hnext⟩ := Supervisor.step_start hsup
          exact ⟨hopen, by simp [hnext]⟩
      | failed =>
          obtain ⟨supervisor, hsup, rfl⟩ := Option.map_eq_some_iff.mp h
          exact ⟨hopen, by simp [(Supervisor.step_ends (.inl rfl) hsup).2]⟩
      | disconnect =>
          obtain ⟨supervisor, hsup, rfl⟩ := Option.map_eq_some_iff.mp h
          exact ⟨hopen, by simp [(Supervisor.step_ends (.inr rfl) hsup).2]⟩
      | established | welcomed _ | announce | peer_loop_ended | cleared | relay _ =>
          obtain ⟨supervisor, hsup, rfl⟩ := Option.map_eq_some_iff.mp h
          -- within a connection the supervisor stays in it
          rcases Supervisor.step_within hsup trivial with hsame | ⟨_, _, _, -, hnext⟩
          · exact ⟨hopen, by rwa [hsame]⟩
          · exact ⟨hopen, by simp [hnext]⟩

/-- Only a send adds to what was sent. -/
theorem step_sent {a : ControllerStep} (h : self.step a = some next)
    (ha : ∀ cmd, a ≠ .send cmd) : next.sent = self.sent := by
  cases a with
  | send cmd => exact absurd rfl (ha cmd)
  | drop => rw [← Option.some.inj h]
  | command =>
      simp only [step] at h
      split at h
      · obtain ⟨supervisor, -, rfl⟩ := Option.map_eq_some_iff.mp h
        rfl
      · split_ifs at h
        obtain ⟨supervisor, -, rfl⟩ := Option.map_eq_some_iff.mp h
        rfl
  | own a =>
      cases a with
      | command cmd => cases h
      | start | failed | disconnect | established | welcomed _ | announce | peer_loop_ended
      | cleared | relay _ =>
          obtain ⟨supervisor, -, rfl⟩ := Option.map_eq_some_iff.mp h
          rfl

end ClientController

/-- A prefix grows by the element that comes next, and by no other. -/
theorem prefix_concat_iff {α : Type} {l m : List α} (h : l <+: m) (a : α) :
    l ++ [a] <+: m ↔ m[l.length]? = some a := by
  obtain ⟨t, rfl⟩ := h
  rw [List.prefix_append_right_inj, List.getElem?_append_right (Nat.le_refl _), Nat.sub_self]
  cases t with
  | nil => simp
  | cons b t => simp [eq_comm]

namespace IpcClient

variable {self next : IpcClient}

/-- One of the controller's steps, other than a send. -/
theorem controller_kept {a : ControllerStep} {controller : ClientController}
    (h : self.controller.step a = some controller) (hdrop : a ≠ .drop)
    (hsend : ∀ cmd, a ≠ .send cmd) (hs : self.Kept) : Kept { self with controller } where
  controller := ClientController.step_kept a hs.controller h
  open_ := ClientController.step_open h hdrop hs.open_
  spawned := by rw [ClientController.step_sent h hsend]; exact hs.spawned

/-- A task that sends. -/
theorem step_run {k : Nat} (h : self.step (.run k) = some next) :
    ∃ cmd, self.tasks[k]? = some cmd ∧ self.controller.dropped = false ∧
      next = { self with
        controller := { self.controller with
          queue := self.controller.queue ++ [cmd], sent := self.controller.sent ++ [cmd] }
        tasks := self.tasks.eraseIdx k } := by
  simp only [step] at h
  split at h
  next cmd hk =>
    obtain ⟨controller, hsend, rfl⟩ := Option.map_eq_some_iff.mp h
    simp only [ClientController.step] at hsend
    split_ifs at hsend with hroom
    rw [← Option.some.inj hsend]
    exact ⟨cmd, hk, hroom.1, rfl⟩
  · cases h

/-- Every step keeps the records: an answered request has its command with a task, in
the channel or received. -/
theorem step_kept (a : IpcClientStep) (hs : self.Kept) (h : self.step a = some next) :
    next.Kept := by
  cases a with
  | request req resolve =>
      rw [← Option.some.inj h]
      refine ⟨hs.controller, hs.open_, ?_⟩
      have := hs.spawned
      simp only [List.length_append]
      omega
  | run k =>
      have hrun := h
      simp only [step] at h
      split at h
      -- one task fewer and one command more
      next cmd hk =>
        obtain ⟨controller, hsend, rfl⟩ := Option.map_eq_some_iff.mp h
        obtain ⟨cmd', hk', -, hnext⟩ := step_run hrun
        have hlt := (List.getElem?_eq_some_iff.mp hk).1
        refine ⟨ClientController.step_kept _ hs.controller hsend,
          ClientController.step_open hsend nofun hs.open_, ?_⟩
        have hspawned := hs.spawned
        have hsent : controller.sent = self.controller.sent ++ [cmd'] :=
          congrArg (fun c => c.controller.sent) hnext
        simp only [hsent, List.length_append, List.length_singleton, List.length_eraseIdx, if_pos hlt]
        omega
      · cases h
  | receive =>
      obtain ⟨controller, hcontroller, rfl⟩ := Option.map_eq_some_iff.mp h
      exact controller_kept hcontroller nofun nofun hs
  | own a =>
      obtain ⟨controller, hcontroller, rfl⟩ := Option.map_eq_some_iff.mp h
      exact controller_kept hcontroller nofun nofun hs

/-- Order is a matter of what was sent. -/
theorem inOrder_iff_sent (hs : self.Kept) :
    self.InOrder ↔ self.controller.sent <+: self.answered := by
  have hfifo := hs.controller.fifo
  constructor
  · intro h
    rw [hfifo]
    exact h.queued
  · intro h
    refine ⟨?_, hfifo ▸ h, ?_⟩
    · exact (List.prefix_append _ _).trans (hfifo ▸ h)
    · intro htasks hqueue hlast
      -- all commands were sent and received, so the last of them is a hang-up
      have hlength : self.controller.sent.length = self.answered.length := by
        have := hs.spawned
        rw [htasks] at this
        exact this
      have hall : self.controller.received = self.answered := by
        rw [← h.eq_of_length hlength, hfifo, hqueue, List.append_nil]
      have hnone : ∀ cfg, self.controller.received.getLast? ≠ some (.Dial cfg) := by
        intro cfg hcfg
        rw [hall, hlast] at hcfg
        cases hcfg
      cases hpc : self.controller.supervisor.pc with
      | waiting => rfl
      | dial cfg => exact absurd (hs.controller.newest cfg (.inl (by rw [hpc]; rfl))) (hnone cfg)
      | connecting cfg future =>
          exact absurd (hs.controller.newest cfg (.inr (by rw [hpc]; rfl))) (hnone cfg)
      | exited => exact absurd hpc hs.open_.2

/-- **One step.** From a state in order, a step stays in order exactly when a
task that sends is in its turn. -/
theorem step_inOrder_iff (a : IpcClientStep) (hs : self.Kept) (hgood : self.InOrder)
    (h : self.step a = some next) : next.InOrder ↔ self.InTurn a := by
  rw [inOrder_iff_sent (step_kept a hs h)]
  have hsent := (inOrder_iff_sent hs).mp hgood
  -- a request appends to what was asked, a task appends to what was sent, and the
  -- supervisor changes neither
  cases a with
  | request req resolve =>
      rw [← Option.some.inj h]
      exact iff_of_true (hsent.trans (List.prefix_append _ _)) trivial
  | run k =>
      obtain ⟨cmd, hk, -, rfl⟩ := step_run h
      simp only [prefix_concat_iff hsent, InTurn, hk, Option.some.injEq, forall_eq']
  | receive =>
      obtain ⟨controller, hcontroller, rfl⟩ := Option.map_eq_some_iff.mp h
      rw [ClientController.step_sent hcontroller nofun]
      exact iff_of_true hsent trivial
  | own a =>
      obtain ⟨controller, hcontroller, rfl⟩ := Option.map_eq_some_iff.mp h
      rw [ClientController.step_sent hcontroller nofun]
      exact iff_of_true hsent trivial

/-- Nothing was asked for yet. -/
theorem new_kept (client_base : ClientConfig) : (new client_base).Kept :=
  ⟨ClientController.new_kept, ⟨rfl, nofun⟩, rfl⟩

/-- **When commands arrive in the order of the replies.** In any run, every state
is in order exactly when every task that sends is in its turn. -/
theorem in_order_iff (client_base : ClientConfig) (steps : List IpcClientStep) (last : IpcClient)
    (hrun : exec step (new client_base) steps = some last) :
    (∀ pre suf c, steps = pre ++ suf → exec step (new client_base) pre = some c → c.InOrder) ↔
      (∀ pre a suf c, steps = pre ++ a :: suf → exec step (new client_base) pre = some c →
        c.InTurn a) := by
  have hgood : (new client_base).InOrder :=
    (inOrder_iff_sent (new_kept client_base)).mpr (List.prefix_refl _)
  exact exec_guarded_iff step Kept InOrder InTurn _ last steps (new_kept client_base) hgood
    (fun _ _ a hs hstep => step_kept a hs hstep)
    (fun _ _ a hs hg hstep => step_inOrder_iff a hs hg hstep) hrun

/-- A Connect and then a Disconnect, then the task at place `first` and the one
that is left, each with the supervisor's receipt of its command. -/
def connect_disconnect (first second : Nat) : List IpcClientStep :=
  [.request (.Connect "10.0.0.2:4242" none) .ok, .request (.Disconnect "desk") .ok,
    .run first, .receive, .run second, .receive]

/-- The equivalence for tasks that run in the order they were spawned: the supervisor
takes the Connect, dials, and takes the Disconnect. -/
theorem in_order_iff_spawned :
    let start := new ⟨"", []⟩
    let steps : List IpcClientStep :=
      [.request (.Connect "10.0.0.2:4242" none) .ok, .request (.Disconnect "desk") .ok,
        .run 0, .receive, .own .start, .run 0, .receive]
    (∀ pre suf c, steps = pre ++ suf → exec step start pre = some c → c.InOrder) ↔
      (∀ pre a suf c, steps = pre ++ a :: suf → exec step start pre = some c → c.InTurn a) := by
  intro start steps
  have hrun : (exec step start steps).isSome := by rfl
  exact in_order_iff ⟨"", []⟩ steps _ (Option.some_get hrun).symm

/-- **Hung up first.** The task of the Disconnect runs before that of the Connect:
the last acknowledged request was the Disconnect, nothing is left to do, and the
supervisor is about to dial. -/
theorem disconnect_overtakes :
    ∃ last, exec step (new ⟨"", []⟩) (connect_disconnect 1 0 ++ [.own .start]) = some last ∧
      last.answered.getLast? = some .HangUp ∧ last.tasks = [] ∧ last.controller.queue = [] ∧
      last.controller.supervisor.pc = .connecting ⟨"10.0.0.2:4242", []⟩ .dialing ∧
      ¬ last.InOrder :=
  ⟨_, rfl, rfl, rfl, rfl, rfl, fun h => nomatch h.idle rfl rfl rfl⟩

end IpcClient

end InputSync
