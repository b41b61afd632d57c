/-
The server with its inbound loops: what a connected peer can bring about by the
messages it sends (`inbound_loop` and `handle_peer_events_server` of
`crates/daemon/src/session.rs`).

The handler starts one inbound loop for each connection, with `is_client` false.
A loop holds no reference to the edge detector or the capture, and the guard on
its arms keeps it from the injector: of what it does there are only calls on the
connection, the clipboard and the file transfer (`server_effects`). That the
loops all carry the flag the handler gave them is the invariant, and
`client_cannot_drive` says what follows for any interleaving: the drain loop and
the handler run as if no message had come.
-/
import InputSync.SessionTasks

set_option autoImplicit false

namespace InputSync

/-! ## The calls of a loop

What one loop may call, by its role. -/

/-- A call on the injector. -/
def Effect.Drives : Effect → Prop
  | .inject .. | .release_all_modifiers _ => True
  | .send _ | .clipboard _ | .file_offer _ | .file_chunk _ => False

/-- In the server role no message makes such a call. -/
theorem server_effects (msg : Message) : ∀ effect ∈ inbound_step false msg, ¬ effect.Drives := by
  intro effect heffect
  cases msg with
  | Ping nonce timestamp_ms | ClipboardFormats formats hash | ClipboardRequest format
  | ClipboardData payload | FileOfferStart offer | FileChunk chunk =>
      rw [List.mem_singleton.mp heffect]
      exact id
  | _ => cases heffect

/-- So none is made over a whole queue. -/
theorem server_loop_effects (msgs : List Message) :
    ∀ effect ∈ inbound_loop false msgs, ¬ effect.Drives := by
  intro effect heffect
  obtain ⟨msg, -, hmsg⟩ := List.mem_flatMap.mp heffect
  exact server_effects msg effect hmsg

/-! ## The server and its loops

Any number of loops, with the session between them. -/

/-- A running `inbound_loop`: its arguments, and the channel it reads. -/
structure InboundLoop where
  peer : PeerHandle
  is_client : Bool
  inbound : List Message
  ended : Bool
deriving DecidableEq

/-- The tasks of the session with the loops they have started. `spawning` is the
connection whose loop the handler is about to start, and `calls` the record of
what the loops did, each with its peer. -/
structure ServerLoops where
  tasks : Tasks
  spawning : Option PeerHandle
  loops : List InboundLoop
  calls : List (PeerHandle × Effect)

/-- A step of the session's tasks, a message that arrives, or a loop that handles one.
-/
inductive LoopsStep
  | task (a : TaskStep)
  -- the connection of a loop
  | receive (i : Nat) (msg : Message)
  -- the loop itself
  | inbound_next (i : Nat)
  | inbound_end (i : Nat)

namespace ServerLoops

/-- A fresh session, without a loop. -/
def new (local_screen : ScreenId) (w h : Int32) (layout : ScreenLayout) : ServerLoops :=
  ⟨.new local_screen w h layout, none, [], []⟩

/-- What the handler starts besides its step: nothing until the auto peer is
set, and then the loop of the connection. -/
def spawn (self : ServerLoops) : TaskStep → ServerLoops
  | .connected handle => { self with spawning := some handle }
  | .set_auto =>
    { self with
      spawning := none
      loops := self.loops ++ self.spawning.toList.map (fun peer => ⟨peer, false, [], false⟩) }
  | _ => self

/-- One step. A loop is spawned when its connection is announced. -/
def step (self : ServerLoops) : LoopsStep → Option ServerLoops
  | .task a => (self.tasks.step a).map (fun tasks => { self.spawn a with tasks })
  | .receive i msg =>
    match self.loops[i]? with
    | some l =>
      if l.ended = false ∧ l.inbound.length < 256 then
        some { self with loops := self.loops.set i { l with inbound := l.inbound ++ [msg] } }
      else none
    | none => none
  | .inbound_next i =>
    match self.loops[i]? with
    | some ⟨peer, is_client, msg :: rest, false⟩ =>
      some { self with
        loops := self.loops.set i ⟨peer, is_client, rest, false⟩
        calls := self.calls ++ (inbound_step is_client msg).map (fun effect => (peer, effect)) }
    | _ => none
  | .inbound_end i =>
    match self.loops[i]? with
    | some l =>
      if l.inbound = [] then
        some { self with loops := self.loops.set i { l with ended := true } }
      else none
    | none => none

end ServerLoops

/-- The step of the session's own tasks, if it is one. -/
def LoopsStep.of_task : LoopsStep → Option TaskStep
  | .task a => some a
  | .receive .. | .inbound_next _ | .inbound_end _ => none

namespace ServerLoops

variable {self next : ServerLoops}

/-- Every loop runs in the server role, and no call was on the injector. -/
structure RolesKept (s : ServerLoops) : Prop where
  loops : ∀ l ∈ s.loops, l.is_client = false
  calls : ∀ call ∈ s.calls, ¬ call.2.Drives

/-- A step of the tasks is one of theirs. -/
theorem step_task {a : LoopsStep} {b : TaskStep} (h : self.step a = some next)
    (ha : a.of_task = some b) : self.tasks.step b = some next.tasks := by
  cases a with
  | task a =>
      cases ha
      obtain ⟨tasks, htasks, rfl⟩ := Option.map_eq_some_iff.mp h
      exact htasks
  | receive i msg | inbound_next i | inbound_end i => cases ha

/-- A step about a message is nothing to the tasks. -/
theorem step_message {a : LoopsStep} (h : self.step a = some next) (ha : a.of_task = none) :
    next.tasks = self.tasks := by
  cases a with
  | task a => cases ha
  | receive i msg =>
      simp only [step] at h
      split at h
      · split_ifs at h
        rw [← Option.some.inj h]
      · cases h
  | inbound_next i =>
      simp only [step] at h
      split at h
      · rw [← Option.some.inj h]
      · cases h
  | inbound_end i =>
      simp only [step] at h
      split at h
      · split_ifs at h
        rw [← Option.some.inj h]
      · cases h

/-- A loop replaced by one in its role. -/
theorem set_loops {loops : List InboundLoop} {i : Nat} {l : InboundLoop}
    (hloops : ∀ l ∈ loops, l.is_client = false) (hl : l.is_client = false) :
    ∀ l' ∈ loops.set i l, l'.is_client = false := by
  intro l' hl'
  rcases List.mem_or_eq_of_mem_set hl' with hold | rfl
  · exact hloops l' hold
  · exact hl

/-- A loop that is spawned is the server's. -/
theorem spawn_roles (a : TaskStep) (hs : RolesKept self) (tasks : Tasks) :
    RolesKept { self.spawn a with tasks } := by
  cases a with
  | set_auto =>
      refine ⟨?_, hs.calls⟩
      intro l hl
      rcases List.mem_append.mp hl with hl | hl
      · exact hs.loops l hl
      · obtain ⟨peer, -, rfl⟩ := List.mem_map.mp hl
        rfl
  | _ => exact ⟨hs.loops, hs.calls⟩

/-- Each step keeps the roles. -/
theorem step_roles (a : LoopsStep) (hs : RolesKept self) (h : self.step a = some next) :
    RolesKept next := by
  cases a with
  | task a =>
      obtain ⟨tasks, -, rfl⟩ := Option.map_eq_some_iff.mp h
      exact spawn_roles a hs tasks
  | receive i msg =>
      simp only [step] at h
      split at h
      next l hl =>
        split_ifs at h
        rw [← Option.some.inj h]
        exact ⟨set_loops hs.loops (hs.loops l (List.mem_of_getElem? hl)), hs.calls⟩
      · cases h
  | inbound_next i =>
      simp only [step] at h
      split at h
      next peer is_client msg rest hl =>
        obtain rfl : is_client = false := hs.loops _ (List.mem_of_getElem? hl)
        rw [← Option.some.inj h]
        refine ⟨set_loops hs.loops rfl, ?_⟩
        intro call hcall
        rcases List.mem_append.mp hcall with hcall | hcall
        · exact hs.calls call hcall
        · obtain ⟨effect, heffect, rfl⟩ := List.mem_map.mp hcall
          exact server_effects msg effect heffect
      · cases h
  | inbound_end i =>
      simp only [step] at h
      split at h
      next l hl =>
        split_ifs at h
        rw [← Option.some.inj h]
        exact ⟨set_loops hs.loops (hs.loops l (List.mem_of_getElem? hl)), hs.calls⟩
      · cases h

/-- What a message of a peer may not touch. -/
def Undriven (before after : ServerLoops) : Prop :=
  after.tasks.server.edge.route = before.tasks.server.edge.route ∧
    after.tasks.server.capturing = before.tasks.server.capturing

/-- **A client cannot drive the server.** The inbound loop of a server calls the
injector for no messages; and in any run of the session's tasks, the connections
and their loops, no call of a loop is on the injector, no step about a message
touches the route or the capture, and the tasks have run just as they do without
the messages. -/
theorem client_cannot_drive (local_screen : ScreenId) (w h : Int32) (layout : ScreenLayout)
    (steps : List LoopsStep) (last : ServerLoops)
    (hrun : exec step (new local_screen w h layout) steps = some last) :
    (∀ msgs, ∀ effect ∈ inbound_loop false msgs, ¬ effect.Drives) ∧
      (∀ call ∈ last.calls, ¬ call.2.Drives) ∧
      (∀ pre a suf before after, steps = pre ++ a :: suf → a.of_task = none →
        exec step (new local_screen w h layout) pre = some before →
        before.step a = some after → Undriven before after) ∧
      exec Tasks.step (.new local_screen w h layout) (steps.filterMap LoopsStep.of_task)
        = some last.tasks := by
  have hnew : RolesKept (new local_screen w h layout) :=
    ⟨by rintro _ ⟨⟩, by rintro _ ⟨⟩⟩
  refine ⟨server_loop_effects, ?_, ?_, ?_⟩
  · exact (exec_invariant step RolesKept _ last steps hnew
      (fun _ _ a _ hs hstep => step_roles a hs hstep) hrun).calls
  · intro pre a suf before after _ hmessage _ hstep
    rw [Undriven, step_message hstep hmessage]
    exact ⟨rfl, rfl⟩
  · -- without the steps about messages the tasks run just the same
    exact exec_project step Tasks.step ServerLoops.tasks LoopsStep.of_task
      (fun _ _ _ _ => step_task) (fun _ _ _ => step_message) _ last steps hrun

/-- The theorem for a peer that sends a key as soon as it is connected. -/
theorem client_cannot_drive_key :
    ∃ last, exec step (new ⟨0⟩ 1920 1080 .default)
        [.task (.connected ⟨⟨Vector.replicate 16 7⟩, 0⟩), .task .set_auto,
          .receive 0 (.KeyEvent ⟨.A, .Pressed, .empty, none⟩), .inbound_next 0] = some last ∧
      ∀ call ∈ last.calls, ¬ call.2.Drives :=
  ⟨_, rfl, (client_cannot_drive ⟨0⟩ 1920 1080 .default
    [.task (.connected ⟨⟨Vector.replicate 16 7⟩, 0⟩), .task .set_auto,
      .receive 0 (.KeyEvent ⟨.A, .Pressed, .empty, none⟩), .inbound_next 0] _ rfl).2.1⟩

end ServerLoops

end InputSync
