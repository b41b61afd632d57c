/-
The commands of a client (`ClientController` in `crates/network/src/client.rs`):
from `dial` and `hang_up`, through the command channel, to what the supervisor
runs.

`Supervisor.lean` takes a command from nowhere. Here it comes from the front of
the channel, and three records are kept beside the code's own state: what was
sent, what the supervisor has received, and each `connect_once` that was started,
with the number of commands received by then. The `select!` is left unbiased, so
there are more runs here than the code has.

The supervisor holds one configuration at a time, at the top of its loop or in the
race, and it is always that of the last command received (`Kept.newest`). From
this and the records `last_command_wins` is read off.
-/
import InputSync.Supervisor

set_option autoImplicit false

namespace InputSync

namespace SupervisorPc

/-- The configuration of the `connect_once` that is running. -/
def running : SupervisorPc → Option ClientConfig
  | .connecting cfg _ => some cfg
  | _ => none

/-- The configuration to be dialed next. -/
def pending : SupervisorPc → Option ClientConfig
  | .dial cfg => some cfg
  | _ => none

end SupervisorPc

/-- The controller with its supervisor. `sent`, `received` and `starts` are
records, the last with the number of commands received before each start, and
`ended` counts the futures that have returned or been dropped. -/
structure ClientController where
  supervisor : Supervisor
  queue : List ClientCommand
  dropped : Bool
  sent : List ClientCommand
  received : List ClientCommand
  starts : List (Nat × ClientConfig)
  ended : Nat

/-- A caller sends or lets go of the controller, the supervisor receives, or it takes
another step. -/
inductive ControllerStep
  -- dial and hang_up, once there is room
  | send (cmd : ClientCommand)
  | drop
  -- the supervisor's recv
  | command
  | own (a : SupervisorStep)

namespace ClientController

/-- An idle supervisor with an empty channel. -/
def new : ClientController := ⟨.new, [], false, [], [], [], 0⟩

/-- The supervisor receives: the future it is running, if any, is dropped. -/
def receive (self : ClientController) (cmd : Option ClientCommand) : Option ClientController :=
  (self.supervisor.step (.command cmd)).map (fun supervisor =>
    { self with
      supervisor
      received := self.received ++ cmd.toList
      ended := self.ended + self.supervisor.pc.running.toList.length })

/-- One step; the command channel has capacity 16. -/
def step (self : ClientController) : ControllerStep → Option ClientController
  | .send cmd =>
    if self.dropped = false ∧ self.queue.length < 16 then
      some { self with queue := self.queue ++ [cmd], sent := self.sent ++ [cmd] }
    else none
  | .drop => some { self with dropped := true }
  | .command =>
    match self.queue with
    | cmd :: rest => { self with queue := rest }.receive (some cmd)
    | [] => if self.dropped then self.receive none else none
  | .own (.command _) => none
  | .own .start =>
    (self.supervisor.step .start).map (fun supervisor =>
      { self with
        supervisor
        starts := self.starts
          ++ self.supervisor.pc.pending.toList.map (fun cfg => (self.received.length, cfg)) })
  | .own .failed =>
    (self.supervisor.step .failed).map (fun supervisor =>
      { self with supervisor, ended := self.ended + 1 })
  | .own .disconnect =>
    (self.supervisor.step .disconnect).map (fun supervisor =>
      { self with supervisor, ended := self.ended + 1 })
  | .own a => (self.supervisor.step a).map (fun supervisor => { self with supervisor })

end ClientController

/-! ## The supervisor's steps, by configuration

What a step does to the one configuration the supervisor holds. -/

namespace Supervisor

variable {self next : Supervisor}

/-- No command is received at the top of the loop. -/
theorem step_command_pending {cmd : Option ClientCommand}
    (h : self.step (.command cmd) = some next) : self.pc.pending = none := by
  cases hpc : self.pc with
  | waiting | connecting cfg future | exited => rfl
  | dial cfg =>
      simp only [step, hpc] at h
      cases h

/-- At the top of its loop the supervisor starts to dial the configuration it holds. -/
theorem step_start (h : self.step .start = some next) :
    ∃ cfg, self.pc = .dial cfg ∧ next.pc = .connecting cfg .dialing := by
  simp only [step] at h
  split at h
  next cfg hpc =>
    rw [← Option.some.inj h]
    exact ⟨cfg, hpc, rfl⟩
  · cases h

/-- A connection ends by itself. -/
theorem step_ends {a : SupervisorStep} (ha : a = .failed ∨ a = .disconnect)
    (h : self.step a = some next) :
    (∃ cfg future, self.pc = .connecting cfg future) ∧ next.pc = .waiting := by
  rcases ha with rfl | rfl
  · simp only [step] at h
    split at h
    next hpc =>
      rw [← Option.some.inj h]
      exact ⟨⟨_, _, hpc⟩, rfl⟩
    next hpc =>
      rw [← Option.some.inj h]
      exact ⟨⟨_, _, hpc⟩, rfl⟩
    · cases h
  · obtain ⟨cfg, handle, events, hpc, -, rfl⟩ := step_disconnect h
    exact ⟨⟨cfg, _, hpc⟩, rfl⟩

/-- The steps within a connection, and those of the tasks behind it. -/
def Within : SupervisorStep → Prop
  | .established | .welcomed _ | .announce | .peer_loop_ended | .cleared | .relay _ => True
  | .command _ | .start | .failed | .disconnect => False

/-- They leave the configuration. -/
theorem step_within {a : SupervisorStep} (h : self.step a = some next) (ha : Within a) :
    next.pc = self.pc ∨ ∃ cfg future future', self.pc = .connecting cfg future ∧
      next.pc = .connecting cfg future' := by
  cases a with
  | command _ | start | failed | disconnect => exact ha.elim
  | announce =>
      obtain ⟨cfg, handle, events, hpc, -, rfl⟩ := step_announce h
      exact .inr ⟨cfg, _, _, hpc, rfl⟩
  | relay a =>
      obtain ⟨events, -, rfl⟩ := step_relay h
      exact .inl rfl
  | established | welcomed _ | peer_loop_ended | cleared =>
      simp only [step] at h
      split at h
      next hpc =>
        rw [← Option.some.inj h]
        exact .inr ⟨_, _, _, hpc, rfl⟩
      · cases h

end Supervisor

/-! ## What a run keeps

Commands are a queue, and only the last one received can be in the supervisor's hands. -/

namespace ClientController

variable {self next : ClientController}

/-- The records, and the one configuration the supervisor holds. -/
structure Kept (c : ClientController) : Prop where
  fifo : c.sent = c.received ++ c.queue
  newest : ∀ cfg, c.supervisor.pc.pending = some cfg ∨ c.supervisor.pc.running = some cfg →
    c.received.getLast? = some (.Dial cfg)
  started : ∀ cfg, c.received.getLast? = some (.Dial cfg) → c.supervisor.pc.pending = none →
    (c.received.length, cfg) ∈ c.starts
  rightly : ∀ e ∈ c.starts, 0 < e.1 ∧ c.received[e.1 - 1]? = some (.Dial e.2)
  counts : c.starts.length = c.ended + c.supervisor.pc.running.toList.length

/-- Nothing was sent, received or started. -/
theorem new_kept : Kept new where
  fifo := rfl
  newest := by rintro cfg (h | h) <;> cases h
  started := by rintro cfg ⟨⟩
  rightly := by rintro e ⟨⟩
  counts := rfl

/-- A step of the supervisor that leaves its configurations keeps all. -/
theorem same_kept (hs : self.Kept) (supervisor : Supervisor)
    (hpending : supervisor.pc.pending = self.supervisor.pc.pending)
    (hrunning : supervisor.pc.running = self.supervisor.pc.running) :
    Kept { self with supervisor } where
  fifo := hs.fifo
  newest cfg h := hs.newest cfg (by rwa [← hpending, ← hrunning])
  started cfg hlast h := hs.started cfg hlast (by rwa [← hpending])
  rightly := hs.rightly
  counts := by rw [hs.counts, ← hrunning]

/-- Receiving a command. -/
theorem receive_kept {cmd : ClientCommand} {rest : List ClientCommand} (hs : self.Kept)
    (hqueue : self.queue = cmd :: rest)
    (h : receive { self with queue := rest } (some cmd) = some next) : next.Kept := by
  obtain ⟨supervisor, hsup, rfl⟩ := Option.map_eq_some_iff.mp h
  obtain ⟨rfl, -⟩ := Supervisor.step_command hsup
  refine ⟨?_, ?_, ?_, ?_, ?_⟩
  · simp [hs.fifo, hqueue]
  · intro cfg hcfg
    cases cmd with
    | Dial cfg' =>
        rcases hcfg with hcfg | hcfg
        · cases hcfg
          simp
        · cases hcfg
    | HangUp => rcases hcfg with hcfg | hcfg <;> cases hcfg
  · intro cfg hlast hpending
    -- a dial is pending as soon as it is received
    obtain rfl : cmd = .Dial cfg := by simpa using hlast
    cases hpending
  · intro e he
    obtain ⟨hpos, hget⟩ := hs.rightly e he
    refine ⟨hpos, ?_⟩
    rw [Option.toList_some, List.getElem?_append_left (List.getElem?_eq_some_iff.mp hget).1]
    exact hget
  · -- whatever was running has been dropped
    have hnone : (SupervisorPc.after_command (some cmd)).running = none := by cases cmd <;> rfl
    simp only [hnone, Option.toList_none, List.length_nil, Nat.add_zero]
    exact hs.counts

/-- Finding the channel closed. -/
theorem receive_none_kept (hs : self.Kept) (h : self.receive none = some next) : next.Kept := by
  obtain ⟨supervisor, hsup, rfl⟩ := Option.map_eq_some_iff.mp h
  have hpending := Supervisor.step_command_pending hsup
  obtain ⟨rfl, -⟩ := Supervisor.step_command hsup
  simp only [Option.toList_none, List.append_nil]
  refine ⟨hs.fifo, ?_, fun cfg hlast _ => hs.started cfg hlast hpending, hs.rightly, hs.counts⟩
  rintro cfg (hcfg | hcfg) <;> cases hcfg

/-- A connection is started for the configuration of the newest command received. By the
invariant the supervisor holds no other. -/
theorem start_kept (hs : self.Kept) (h : self.step (.own .start) = some next) : next.Kept := by
  obtain ⟨supervisor, hsup, rfl⟩ := Option.map_eq_some_iff.mp h
  obtain ⟨cfg, hpc, hnext⟩ := Supervisor.step_start hsup
  have hlast := hs.newest cfg (.inl (by rw [hpc]; rfl))
  have hcounts := hs.counts
  rw [hpc] at hcounts
  simp only [hpc, SupervisorPc.pending, Option.toList_some, List.map_singleton]
  refine ⟨hs.fifo, ?_, ?_, ?_, ?_⟩
  · simp only [hnext]
    rintro cfg' (hcfg | hcfg) <;> cases hcfg
    exact hlast
  · intro cfg' hlast' _
    rw [hlast] at hlast'
    cases hlast'
    exact List.mem_append_right _ (List.mem_singleton_self _)
  · intro e he
    rcases List.mem_append.mp he with he | he
    · exact hs.rightly e he
    · -- the new start is of the last command received
      obtain rfl := List.mem_singleton.mp he
      rw [List.getLast?_eq_getElem?] at hlast
      refine ⟨?_, hlast⟩
      have := (List.getElem?_eq_some_iff.mp hlast).1
      omega
  · simp only [hnext, SupervisorPc.running, List.length_append, Option.toList_some,
      List.length_singleton, hcounts, Option.toList_none, List.length_nil, Nat.add_zero]

/-- A connection that ends by itself. -/
theorem ends_kept (hs : self.Kept) {a : SupervisorStep} (ha : a = .failed ∨ a = .disconnect)
    {supervisor : Supervisor} (hsup : self.supervisor.step a = some supervisor) :
    Kept { self with supervisor, ended := self.ended + 1 } := by
  obtain ⟨⟨cfg, future, hpc⟩, hnext⟩ := Supervisor.step_ends ha hsup
  refine ⟨hs.fifo, ?_, ?_, hs.rightly, ?_⟩
  · -- nothing is pending or running now
    simp only [hnext]
    rintro cfg' (hcfg | hcfg) <;> cases hcfg
  · intro cfg' hlast _
    exact hs.started cfg' hlast (by rw [hpc]; rfl)
  · have hcounts := hs.counts
    rw [hpc] at hcounts
    rw [hnext]
    exact hcounts

/-- Each step. -/
theorem step_kept (a : ControllerStep) (hs : self.Kept) (h : self.step a = some next) :
    next.Kept := by
  cases a with
  | send cmd =>
      simp only [step] at h
      split_ifs at h
      obtain rfl := Option.some.inj h
      exact ⟨by simp [hs.fifo], hs.newest, hs.started, hs.rightly, hs.counts⟩
  | drop =>
      obtain rfl := Option.some.inj h
      exact ⟨hs.fifo, hs.newest, hs.started, hs.rightly, hs.counts⟩
  | command =>
      simp only [step] at h
      split at h
      next cmd rest hqueue => exact receive_kept hs hqueue h
      · split_ifs at h
        exact receive_none_kept hs h
  -- of the supervisor's own steps three touch the attempt; the rest happen within one
  | own a =>
      cases a with
      | command cmd => cases h
      | start => exact start_kept hs h
      | failed =>
          obtain ⟨supervisor, hsup, rfl⟩ := Option.map_eq_some_iff.mp h
          exact ends_kept hs (.inl rfl) hsup
      | disconnect =>
          obtain ⟨supervisor, hsup, rfl⟩ := Option.map_eq_some_iff.mp h
          exact ends_kept hs (.inr rfl) hsup
      | established | welcomed _ | announce | peer_loop_ended | cleared | relay _ =>
          obtain ⟨supervisor, hsup, rfl⟩ := Option.map_eq_some_iff.mp h
          rcases Supervisor.step_within hsup trivial with hsame | ⟨cfg, future, future', hpc, hnext⟩
          · exact same_kept hs supervisor (by rw [hsame]) (by rw [hsame])
          · exact same_kept hs supervisor (by rw [hpc, hnext]; rfl) (by rw [hpc, hnext]; rfl)

/-- What the commands are to bring about, at a supervisor that waits: for a
command while it is idle, or for that and a connection. -/
structure LastWins (c : ClientController) : Prop where
  settled : c.queue = [] → c.supervisor.pc.pending = none → c.supervisor.pc ≠ .exited →
    c.supervisor.pc = .waiting ∨
      ∃ cfg, c.supervisor.pc.running = some cfg ∧ c.sent.getLast? = some (.Dial cfg)
  never_older : ∀ cfg, c.supervisor.pc.running = some cfg →
    c.received.getLast? = some (.Dial cfg)
  started_newest : ∀ e ∈ c.starts, 0 < e.1 ∧ c.received[e.1 - 1]? = some (.Dial e.2)
  single : c.starts.length - c.ended ≤ 1 ∧
    c.starts.length = c.ended + c.supervisor.pc.running.toList.length
  not_forgotten : ∀ cfg, c.queue = [] → c.supervisor.pc.pending = none →
    c.sent.getLast? = some (.Dial cfg) → (c.sent.length, cfg) ∈ c.starts

/-- What is kept says so. -/
theorem Kept.lastWins {c : ClientController} (h : c.Kept) : c.LastWins := by
  have hsent : c.queue = [] → c.sent = c.received := by
    intro hqueue
    rw [h.fifo, hqueue, List.append_nil]
  refine ⟨?_, ?_, h.rightly, ?_, ?_⟩
  -- nothing waits in the channel, so the last command received is the last one sent
  · intro hqueue hpending halive
    cases hpc : c.supervisor.pc with
    | waiting => exact .inl rfl
    | dial cfg =>
        rw [hpc] at hpending
        cases hpending
    | connecting cfg future =>
        rw [hsent hqueue]
        exact .inr ⟨cfg, rfl, h.newest cfg (.inr (by rw [hpc]; rfl))⟩
    | exited => exact absurd hpc halive
  · exact fun cfg hcfg => h.newest cfg (.inr hcfg)
  -- at most one attempt runs, and the counts say which have ended
  · refine ⟨?_, h.counts⟩
    have hone : c.supervisor.pc.running.toList.length ≤ 1 := by
      cases c.supervisor.pc.running <;> simp
    have := h.counts
    omega
  · intro cfg hqueue hpending hlast
    rw [hsent hqueue] at hlast ⊢
    exact h.started cfg hlast hpending

/-- **The last command wins.** In any run of a controller, whatever is sent and
however connections end. -/
theorem last_command_wins (steps : List ControllerStep) (last : ClientController)
    (hrun : exec step new steps = some last) : last.LastWins :=
  (exec_invariant step Kept new last steps new_kept (fun _ _ a _ hs h => step_kept a hs h)
    hrun).lastWins

/-- A dial that overtakes another. -/
def redial : List ControllerStep :=
  [.send (.Dial ⟨"10.0.0.2:4242", []⟩), .command, .own .start,
    .send (.Dial ⟨"10.0.0.3:4242", []⟩), .command, .own .start]

/-- The theorem there. -/
theorem last_command_wins_redial : ∃ last, exec step new redial = some last ∧ last.LastWins :=
  ⟨_, rfl, last_command_wins redial _ rfl⟩

end ClientController

end InputSync
