/-
The emergency hotkey and the outbound channel of the peer (`drain_capture` and
`apply_decision` in `crates/daemon/src/session.rs`, `PeerHandle::send` in
`crates/network/src/peer.rs`).

`SessionTasks` leaves it to the environment which sends succeed. Here the
channels are there: a send waits for room, a try_send fails without it, both fail
once the channel is closed, and the other holders of the handle fill the channel
while the writer empties it.

On the hotkey the drain loop sends two messages before it switches the capture
off (`Leaving`), and it waits for room like any other sender. So the release
waits for the network exactly when the channel is full at one of the two
(`never_held_iff`).
-/
import InputSync.SessionTasks

set_option autoImplicit false

namespace InputSync

/-! ## The outbound channels

Each peer has a channel of 256 messages, which the session shares with the heartbeat,
the clipboard and the inbound loop. -/

/-- The channel behind a `PeerHandle`. It is open while the peer loop runs. -/
structure Outbound where
  queue : List Message
  is_open : Bool

namespace Outbound

/-- The capacity of a peer's outbound channel. -/
def capacity : Nat := 256

/-- There is room for `n` more messages, or the channel is closed. -/
def Room (self : Outbound) (n : Nat) : Prop :=
  self.is_open = true → self.queue.length + n ≤ capacity

instance (self : Outbound) (n : Nat) : Decidable (self.Room n) :=
  inferInstanceAs (Decidable (_ → _))

/-- A message is appended, where there was room. -/
def push (self : Outbound) (msg : Message) : Outbound :=
  { self with queue := self.queue ++ [msg] }

/-- A message that is pushed takes one place. -/
theorem push_room (self : Outbound) (msg : Message) (n : Nat) :
    (self.push msg).Room n ↔ self.Room (n + 1) := by
  unfold Room push
  rw [List.length_append, List.length_singleton, Nat.add_assoc, Nat.add_comm 1 n]

end Outbound

/-- The tasks of the session with the channels. Each connection brings the next
channel. -/
structure WiredSession where
  tasks : Tasks
  created : Nat
  outbound : Nat → Outbound

/-- A step of the session's tasks, or what others do to the channels. -/
inductive WiredStep
  | task (a : TaskStep)
  -- the other holders of a handle
  | enqueue (channel : Nat) (msg : Message)
  -- the peer loop
  | write (channel : Nat)
  | close (channel : Nat)

/-- Accepted messages go into their channels. -/
def deliver (outbound : Nat → Outbound) : Action → Nat → Outbound
  | .send p msg => Function.update outbound p.outbound ((outbound p.outbound).push msg)
  | _ => outbound

namespace WiredSession

/-- A fresh session, and no connection yet. -/
def new (local_screen : ScreenId) (w h : Int32) (layout : ScreenLayout) : WiredSession :=
  { tasks := .new local_screen w h layout, created := 0, outbound := fun _ => ⟨[], false⟩ }

/-- What the channels say to a step. An awaited send is not refused: it waits
where it is made. -/
def settle (self : WiredSession) : TaskStep → TaskStep
  | .lock_peers _ => .lock_peers (fun _ => true)
  | .finish _ => .finish (fun _ =>
      match self.tasks.server.peers.head? with
      | some p => (self.outbound p.outbound).is_open ∧ (self.outbound p.outbound).Room 1
      | none => false)
  | a => a

/-- A step of the tasks, with what it sends. -/
def advance (self : WiredSession) (a : TaskStep) : Option WiredSession :=
  (self.tasks.step (self.settle a)).map (fun tasks =>
    { self with
      tasks
      outbound := (tasks.actions.drop self.tasks.actions.length).foldl deliver self.outbound })

/-- One step; `none` while the task waits, or is not at the step. -/
def step (self : WiredSession) : WiredStep → Option WiredSession
  | .task (.connected handle) =>
    if handle.outbound = self.created then
      (self.advance (.connected handle)).map (fun s =>
        { s with
          created := s.created + 1
          outbound := Function.update s.outbound s.created ⟨[], true⟩ })
    else none
  | .task .act =>
    match self.tasks.drain with
    | .acting (.send p _ :: rest) after =>
      if (self.outbound p.outbound).is_open = false then
        -- the send fails, and nobody looks
        some { self with tasks := { self.tasks with drain := .acting rest after } }
      else if (self.outbound p.outbound).Room 1 then self.advance .act
      else none
    | _ => self.advance .act
  | .task a => self.advance a
  | .enqueue channel msg =>
    if (self.outbound channel).is_open = true ∧ (self.outbound channel).Room 1 then
      some { self with
        outbound := Function.update self.outbound channel ((self.outbound channel).push msg) }
    else none
  | .write channel =>
    match (self.outbound channel).queue with
    | [] => none
    | _ :: rest =>
      some { self with
        outbound := Function.update self.outbound channel
          { self.outbound channel with queue := rest } }
  | .close channel =>
    some { self with
      outbound := Function.update self.outbound channel ⟨[], false⟩ }

/-- **The release waits for the network.** The drain loop has taken the hotkey
out of its channel and its next message does not fit, while the capture swallows
input. -/
def Held (self : WiredSession) : Prop :=
  (∃ p msg rest, self.tasks.drain = .acting (.send p msg :: rest) none ∧
    ¬ (self.outbound p.outbound).Room 1) ∧
  self.tasks.server.capturing = true

/-- The steps that do not bring it about. When the drain loop turns to the
peer there is room for the first message, and with that one sent for the second;
and nobody else takes the last place from it. -/
def Guarded (self : WiredSession) : WiredStep → Prop
  | .task (.lock_peers _) => ∀ screen p, self.tasks.drain = .decided (.LeaveRemote screen) none →
      self.tasks.server.peers.head? = some p → (self.outbound p.outbound).Room 1
  | .task .act => ∀ p msg q msg' rest,
      self.tasks.drain = .acting (.send p msg :: .send q msg' :: rest) none →
        (self.outbound p.outbound).Room 2
  | .enqueue channel _ => ∀ p msg rest, self.tasks.drain = .acting (.send p msg :: rest) none →
      p.outbound = channel → (self.outbound channel).Room 2
  | _ => True

end WiredSession

/-! ## The drain loop on the hotkey

The calls on the hotkey, in their order. The flag is released by the last of them. -/

/-- What the drain loop still has to do on the hotkey, by the capture flag. -/
inductive Leaving : Bool → List Action → Prop
  | leave (p : PeerHandle) (screen : ScreenId) :
      Leaving true [.send p (.ScreenLeave screen.id), .send p (.ModifierSync .empty),
        .set_capturing false]
  | sync (p : PeerHandle) : Leaving true [.send p (.ModifierSync .empty), .set_capturing false]
  | release (flag : Bool) : Leaving flag [.set_capturing false]
  | done (flag : Bool) : Leaving flag []

/-- What is left to do on the hotkey after a call: two sends, and the release last. -/
theorem Leaving.tail {flag : Bool} {a : Action} {rest : List Action}
    (h : Leaving flag (a :: rest)) : Leaving (a.capturing flag) rest := by
  cases h with
  | leave p screen => exact .sync p
  | sync p => exact .release true
  | release flag => exact .done false

/-- As long as a send is left, the capture is still on. -/
theorem Leaving.flag_eq {flag : Bool} {p : PeerHandle} {msg : Message} {rest : List Action}
    (h : Leaving flag (.send p msg :: rest)) : flag = true := by
  cases h <;> rfl

/-- The second message goes where the first one went. -/
theorem Leaving.same_peer {flag : Bool} {a : Action} {p : PeerHandle} {msg : Message}
    {rest : List Action} (h : Leaving flag (a :: .send p msg :: rest)) :
    ∃ first, a = .send p first := by
  cases h
  exact ⟨_, rfl⟩

/-- With what is still to be done, the flag follows the route; and the event has
been the hotkey when nothing is to be forwarded. -/
def Server.InStep (self : Server) : DrainPc → Prop
  | .recv => self.Lockstep
  | .decided decision after =>
    (∀ peers accepts, (self.act (apply_decision decision peers accepts)).Lockstep) ∧
      (after = none → decision = .Stay ∨
        ∃ screen, decision = .LeaveRemote screen ∧ self.capturing = true)
  | .acting actions after => (self.act actions).Lockstep ∧
      (after = none → Leaving self.capturing actions)

namespace Tasks

/-- On the hotkey the route is local at once, and the flag was on if it was
remote. -/
theorem recv_inStep {self next : Tasks} {event : InputEvent}
    (hs : self.server.InStep self.drain) (h : self.step (.recv event) = some next) :
    next.server.InStep next.drain := by
  rw [recv_drain h] at hs
  have hlock : self.server.capturing = true ↔ self.server.edge.route ≠ .Local := hs
  rcases step_recv h with ⟨-, rfl⟩ | ⟨-, rfl⟩
  · simp only [Server.InStep, Server.act, Server.Lockstep, apply_decision_capturing]
    unfold EdgeDetector.force_local
    cases hroute : self.server.edge.route with
    | Local => exact ⟨fun _ _ => by simpa [hroute] using hlock, fun _ => .inl rfl⟩
    | Remote screen =>
        -- the route is local at once, and the flag still on
        refine ⟨fun _ _ => by simp, fun _ => .inr ⟨screen, rfl, hlock.mpr ?_⟩⟩
        rw [hroute]
        exact Route.noConfusion
  · simp only [Server.InStep, Server.act, Server.Lockstep, apply_decision_capturing]
    refine ⟨fun _ _ => ?_, by rintro ⟨⟩⟩
    rcases self.server.edge.observe_cases event with
      ⟨x, y, side, screen, -, -, -, heq⟩ | ⟨-, hroute, hrest⟩
    · simp [heq]
    · simpa only [hroute, hrest] using hlock

/-- A send, made or failed, leaves what follows it. -/
theorem inStep_tail {server : Server} {a : Action} {rest : List Action}
    {after : Option (InputEvent × ForwardTo)} (hs : server.InStep (.acting (a :: rest) after)) :
    (server.act [a]).InStep (.acting rest after) :=
  ⟨hs.1, fun hnone => (hs.2 hnone).tail⟩

/-- **The flag and the route**, over the steps of the two tasks. -/
theorem step_inStep {self next : Tasks} {a : TaskStep} (hs : self.server.InStep self.drain)
    (hsends : ∀ accepts, a = .lock_peers accepts → accepts = fun _ => true)
    (h : self.step a = some next) : next.server.InStep next.drain := by
  cases a with
  | recv event => exact recv_inStep hs h
  | lock_peers accepts =>
      obtain ⟨decision, after, hpc, rfl⟩ := step_lock_peers h
      obtain rfl := hsends accepts rfl
      rw [hpc] at hs
      refine ⟨hs.1 _ _, fun hnone => ?_⟩
      rcases hs.2 hnone with rfl | ⟨screen, rfl, hcap⟩
      · exact .done _
      · simp only [apply_decision, enqueue]
        cases self.server.peers.head? with
        | none => exact .release _
        -- both messages go to this peer
        | some p =>
            rw [hcap]
            exact .leave p screen
  | act =>
      obtain ⟨b, rest, after, hpc, rfl⟩ := step_act h
      rw [hpc] at hs
      exact inStep_tail hs
  | finish accepts =>
      obtain ⟨after, hpc⟩ := finish_drain h
      obtain ⟨hdrain, hedge, -, hcap⟩ := step_finish h
      rw [hpc] at hs
      rw [hdrain]
      have hlock : self.server.capturing = true ↔ self.server.edge.route ≠ .Local := hs.1
      simpa only [Server.InStep, Server.Lockstep, hedge, hcap] using hlock
  | connected handle | set_auto | disconnected peer_id | check_empty | clear_auto =>
      obtain ⟨peers, auto_peer, handler, rfl⟩ := step_handler rfl h
      exact hs

end Tasks

/-! ## What a step can do

The steps of the session and those of the channels, apart. -/

namespace WiredSession

variable {self next : WiredSession}

/-- A step of the tasks in the wired session is one of the tasks, and what it sends goes
into the channels. -/
theorem advance_eq {a : TaskStep} (h : self.advance a = some next) :
    self.tasks.step (self.settle a) = some next.tasks ∧
      next.outbound
        = (next.tasks.actions.drop self.tasks.actions.length).foldl deliver self.outbound := by
  obtain ⟨tasks, htasks, rfl⟩ := Option.map_eq_some_iff.mp h
  exact ⟨htasks, rfl⟩

/-- A step that sends nothing leaves the channels. -/
theorem advance_quiet {a : TaskStep} (h : self.advance a = some next)
    (hquiet : next.tasks.actions = self.tasks.actions) :
    next.outbound = self.outbound := by
  rw [(advance_eq h).2, hquiet, List.drop_length, List.foldl_nil]

/-- The drain loop makes its next call. A send is made into the channel, or
fails because that is closed. -/
theorem step_act (h : self.step (.task .act) = some next) :
    ∃ b rest after, self.tasks.drain = .acting (b :: rest) after ∧
      next.tasks.drain = .acting rest after ∧
      next.tasks.server = self.tasks.server.act [b] ∧
      ∀ p msg, b = .send p msg →
        (self.outbound p.outbound).Room 1 ∧
        ((next.outbound p.outbound).Room 1 ↔ (self.outbound p.outbound).Room 2) := by
  have hadvance : ∀ {b rest after}, self.tasks.drain = .acting (b :: rest) after →
      self.advance .act = some next →
      next.tasks.drain = .acting rest after ∧ next.tasks.server = self.tasks.server.act [b] ∧
        next.outbound = deliver self.outbound b := by
    intro b rest after hpc hadv
    obtain ⟨htasks, hout⟩ := advance_eq hadv
    obtain ⟨b', rest', after', hpc', htasks⟩ := Tasks.step_act htasks
    obtain ⟨hcalls, rfl⟩ := DrainPc.acting.inj (hpc.symm.trans hpc')
    obtain ⟨rfl, rfl⟩ := List.cons.inj hcalls
    rw [htasks] at hout
    rw [htasks]
    -- the log has grown by the call, and so the call is what is delivered
    exact ⟨rfl, rfl, by rw [hout, List.drop_left]; rfl⟩
  match hpc : self.tasks.drain with
  | .recv | .decided _ _ | .acting [] _ =>
      simp [step, hpc, advance, settle, Tasks.step] at h
  | .acting (.warp_cursor pos :: rest) after =>
      simp only [step, hpc] at h
      obtain ⟨hdrain, hserver, -⟩ := hadvance hpc h
      exact ⟨_, _, _, rfl, hdrain, hserver, by rintro p msg ⟨⟩⟩
  | .acting (.set_capturing on :: rest) after =>
      simp only [step, hpc] at h
      obtain ⟨hdrain, hserver, -⟩ := hadvance hpc h
      exact ⟨_, _, _, rfl, hdrain, hserver, by rintro p msg ⟨⟩⟩
  | .acting (.send p msg :: rest) after =>
      simp only [step, hpc] at h
      split_ifs at h with hclosed hroom
      · -- a closed channel is never full
        cases h
        refine ⟨_, _, _, rfl, rfl, rfl, ?_⟩
        rintro _ _ ⟨⟩
        simp only [Outbound.Room, hclosed, Bool.false_eq_true, false_imp_iff, and_self]
      · obtain ⟨hdrain, hserver, hout⟩ := hadvance hpc h
        refine ⟨_, _, _, rfl, hdrain, hserver, ?_⟩
        rintro _ _ ⟨⟩
        refine ⟨hroom, ?_⟩
        rw [hout, deliver, Function.update_self, Outbound.push_room]

/-- Any other step of the tasks is theirs alone. -/
theorem step_task {a : TaskStep} (ha : a ≠ .act) (h : self.step (.task a) = some next) :
    self.tasks.step (self.settle a) = some next.tasks := by
  cases a with
  | act => exact absurd rfl ha
  | connected handle =>
      simp only [step] at h
      split_ifs at h
      obtain ⟨s, hs, rfl⟩ := Option.map_eq_some_iff.mp h
      exact (advance_eq hs).1
  | recv | lock_peers | finish | set_auto | disconnected | check_empty | clear_auto =>
      exact (advance_eq h).1

/-- And the channels' steps do not touch them. -/
theorem step_channels {a : WiredStep} (ha : ∀ t, a ≠ .task t) (h : self.step a = some next) :
    next.tasks = self.tasks := by
  cases a with
  | task t => exact absurd rfl (ha t)
  | enqueue channel msg =>
      simp only [step] at h
      split_ifs at h
      cases h
      rfl
  | write channel =>
      simp only [step] at h
      split at h
      · cases h
      · cases h
        rfl
  | close channel =>
      cases h
      rfl

/-- The flag and the route, over every step. -/
theorem step_inStep {a : WiredStep} (hs : self.tasks.server.InStep self.tasks.drain)
    (h : self.step a = some next) : next.tasks.server.InStep next.tasks.drain := by
  by_cases htask : ∃ t, a = .task t
  · obtain ⟨t, rfl⟩ := htask
    by_cases hact : t = .act
    · obtain rfl := hact
      obtain ⟨b, rest, after, hpc, hdrain, hserver, -⟩ := step_act h
      rw [hpc] at hs
      rw [hdrain, hserver]
      exact Tasks.inStep_tail hs
    · refine Tasks.step_inStep hs ?_ (step_task hact h)
      -- an awaited send is planned whatever the channel holds
      intro accepts haccepts
      cases t <;> cases haccepts
      rfl
  · rw [step_channels (fun t ht => htask ⟨t, ht⟩) h]
    exact hs

/-! ## When the release waits

One lemma for each kind of step says when it brings the waiting about. -/

/-- Then the drain loop does not get on. -/
theorem held_waits (h : self.Held) : self.step (.task .act) = none := by
  obtain ⟨⟨p, msg, rest, hpc, hfull⟩, -⟩ := h
  have hopen : ¬ (self.outbound p.outbound).is_open = false := by
    intro hclosed
    exact hfull fun hopen => Bool.noConfusion (hclosed.symm.trans hopen)
  simp only [step, hpc, if_neg hopen, if_neg hfull]

/-- The flag is on for as long as something is to be sent. -/
theorem not_held_iff (hs : self.tasks.server.InStep self.tasks.drain) :
    ¬ self.Held ↔ ∀ p msg rest, self.tasks.drain = .acting (.send p msg :: rest) none →
      (self.outbound p.outbound).Room 1 := by
  constructor
  · intro hnot p msg rest hpc
    rw [hpc] at hs
    by_contra hfull
    exact hnot ⟨⟨p, msg, rest, hpc, hfull⟩, (hs.2 rfl).flag_eq⟩
  · rintro hroom ⟨⟨p, msg, rest, hpc, hfull⟩, -⟩
    exact hfull (hroom p msg rest hpc)

/-- The drain loop turns to the peer. -/
theorem lock_peers_held_iff {accepts : Message → Bool}
    (hs : self.tasks.server.InStep self.tasks.drain)
    (h : self.step (.task (.lock_peers accepts)) = some next) :
    ¬ next.Held ↔ self.Guarded (.task (.lock_peers accepts)) := by
  have htask := step_task (by rintro ⟨⟩) h
  obtain ⟨decision, after, hpc, htasks⟩ := Tasks.step_lock_peers htask
  rw [not_held_iff (step_inStep hs h), advance_quiet h (by rw [htasks]), htasks]
  rw [hpc] at hs
  simp only [Guarded, hpc, DrainPc.acting.injEq, DrainPc.decided.injEq]
  constructor
  · rintro hroom screen p ⟨rfl, rfl⟩ hp
    refine hroom p (.ScreenLeave screen.id) [.send p (.ModifierSync .empty), .set_capturing false]
      ⟨?_, rfl⟩
    rw [apply_decision, hp]
    rfl
  · rintro hguard p msg rest ⟨hcalls, rfl⟩
    rcases hs.2 rfl with rfl | ⟨screen, rfl, -⟩
    · cases hcalls
    · cases hp : self.tasks.server.peers.head? with
      | none =>
          rw [apply_decision, hp] at hcalls
          cases hcalls
      | some p' =>
          -- the first message goes to the first peer
          rw [apply_decision, hp] at hcalls
          cases hcalls
          exact hguard screen p ⟨rfl, rfl⟩ hp

/-- It makes a call, and turns to the next. -/
theorem act_held_iff (hs : self.tasks.server.InStep self.tasks.drain)
    (h : self.step (.task .act) = some next) : ¬ next.Held ↔ self.Guarded (.task .act) := by
  obtain ⟨b, rest, after, hpc, hdrain, -, hsend⟩ := step_act h
  rw [not_held_iff (step_inStep hs h), hdrain]
  rw [hpc] at hs
  simp only [Guarded, hpc, DrainPc.acting.injEq, List.cons.injEq]
  constructor
  · rintro hroom p msg q msg' rest' ⟨⟨rfl, rfl⟩, rfl⟩
    obtain ⟨first, hfirst⟩ := (hs.2 rfl).same_peer
    obtain ⟨rfl, rfl⟩ := Action.send.inj hfirst
    exact (hsend p msg rfl).2.mp (hroom p msg' rest' ⟨rfl, rfl⟩)
  · rintro hguard q msg' rest' ⟨rfl, rfl⟩
    obtain ⟨first, rfl⟩ := (hs.2 rfl).same_peer
    exact (hsend q first rfl).2.mpr (hguard q first q msg' rest' ⟨⟨rfl, rfl⟩, rfl⟩)

/-- Somebody else sends, and takes a place. -/
theorem enqueue_held_iff {channel : Nat} {msg : Message} (hgood : ¬ self.Held)
    (hs : self.tasks.server.InStep self.tasks.drain)
    (h : self.step (.enqueue channel msg) = some next) :
    ¬ next.Held ↔ self.Guarded (.enqueue channel msg) := by
  have hkept := step_inStep hs h
  simp only [step] at h
  split_ifs at h with hopen
  cases h
  rw [not_held_iff hkept]
  rw [not_held_iff hs] at hgood
  dsimp only
  constructor
  · rintro hroom p m rest hpc rfl
    have hplace := hroom p m rest hpc
    rwa [Function.update_self, Outbound.push_room] at hplace
  · intro hguard p m rest hpc
    -- its own channel loses a place, the others none
    by_cases hchannel : p.outbound = channel
    · obtain rfl := hchannel
      rw [Function.update_self, Outbound.push_room]
      exact hguard p m rest hpc rfl
    · rw [Function.update_of_ne hchannel]
      exact hgood p m rest hpc

/-- The drain loop stands where it stood, and no channel has lost its room. -/
theorem not_held_of_same (hgood : ¬ self.Held) (hdrain : next.tasks.drain = self.tasks.drain)
    (hcap : next.tasks.server.capturing = self.tasks.server.capturing)
    (hroom : ∀ channel, (self.outbound channel).Room 1 → (next.outbound channel).Room 1) :
    ¬ next.Held := by
  rintro ⟨⟨p, msg, rest, hpc, hfull⟩, hflag⟩
  rw [hdrain] at hpc
  exact hgood ⟨⟨p, msg, rest, hpc, mt (hroom p.outbound) hfull⟩, hcap ▸ hflag⟩

/-- One channel has more room than before. -/
theorem room_update {outbound : Nat → Outbound} {channel : Nat} {c : Outbound}
    (hc : (outbound channel).Room 1 → c.Room 1) (i : Nat) (h : (outbound i).Room 1) :
    (Function.update outbound channel c i).Room 1 := by
  by_cases hi : i = channel
  · obtain rfl := hi
    rw [Function.update_self]
    exact hc h
  · rw [Function.update_of_ne hi]
    exact h

/-- **One step.** While the release does not wait, a step leaves that so exactly
when it is guarded. -/
theorem step_held_iff {a : WiredStep} (hs : self.tasks.server.InStep self.tasks.drain)
    (hgood : ¬ self.Held) (h : self.step a = some next) : ¬ next.Held ↔ self.Guarded a := by
  cases a with
  | task a =>
      cases a with
      | lock_peers accepts => exact lock_peers_held_iff hs h
      | act => exact act_held_iff hs h
      | recv event =>
          refine iff_of_true ?_ trivial
          -- nothing is to be sent before the peers are looked at
          rw [not_held_iff (step_inStep hs h)]
          intro p msg rest hpc
          rcases Tasks.step_recv (step_task (by rintro ⟨⟩) h) with ⟨-, hnext⟩ | ⟨-, hnext⟩
          all_goals
            rw [hnext] at hpc
            cases hpc
      | finish accepts =>
          refine iff_of_true ?_ trivial
          rw [not_held_iff (step_inStep hs h)]
          intro p msg rest hpc
          rw [(Tasks.step_finish (step_task (by rintro ⟨⟩) h)).1] at hpc
          cases hpc
      | connected handle =>
          simp only [step] at h
          split_ifs at h
          obtain ⟨s, hs', rfl⟩ := Option.map_eq_some_iff.mp h
          obtain ⟨peers, auto_peer, handler, htasks⟩ := Tasks.step_handler rfl (advance_eq hs').1
          -- the new channel is empty
          refine iff_of_true (not_held_of_same hgood (by rw [htasks]) (by rw [htasks]) ?_) trivial
          rw [advance_quiet hs' (by rw [htasks])]
          exact room_update fun _ _ => by decide
      | set_auto | disconnected peer_id | check_empty | clear_auto =>
          obtain ⟨peers, auto_peer, handler, htasks⟩ := Tasks.step_handler rfl (advance_eq h).1
          refine iff_of_true (not_held_of_same hgood (by rw [htasks]) (by rw [htasks]) ?_) trivial
          rw [advance_quiet h (by rw [htasks])]
          exact fun _ => id
  | enqueue channel msg => exact enqueue_held_iff hgood hs h
  | write channel =>
      simp only [step] at h
      split at h
      next => cases h
      next first rest hqueue =>
        cases h
        refine iff_of_true (not_held_of_same hgood rfl rfl (room_update fun hroom hopen => ?_)) trivial
        have hlength := hroom hopen
        rw [hqueue, List.length_cons] at hlength
        exact Nat.le_of_succ_le hlength
  | close channel =>
      cases h
      exact iff_of_true (not_held_of_same hgood rfl rfl (room_update (by rintro - ⟨⟩))) trivial

/-- **When the hotkey waits for the network.** Along any run of the session and
its channels, in any layout, the release never waits exactly when every step is
guarded. -/
theorem never_held_iff (local_screen : ScreenId) (w h : Int32) (layout : ScreenLayout)
    (steps : List WiredStep) (last : WiredSession)
    (hrun : exec step (new local_screen w h layout) steps = some last) :
    (∀ pre suf s, steps = pre ++ suf → exec step (new local_screen w h layout) pre = some s →
        ¬ s.Held) ↔
      (∀ pre a suf s, steps = pre ++ a :: suf →
        exec step (new local_screen w h layout) pre = some s → s.Guarded a) := by
  have hstart : (new local_screen w h layout).tasks.server.InStep
      (new local_screen w h layout).tasks.drain := by
    simp [Server.InStep, Server.Lockstep, new, Tasks.new, Tasks.idle, Server.new, EdgeDetector.new]
  have hgood : ¬ (new local_screen w h layout).Held := by
    rintro ⟨-, hcap⟩
    cases hcap
  exact exec_guarded_iff step (fun s => s.tasks.server.InStep s.tasks.drain) (fun s => ¬ s.Held)
    Guarded _ last steps hstart hgood (fun s t a hs hstep => step_inStep hs hstep)
    (fun s t a hs hgood hstep => step_held_iff hs hgood hstep) hrun

/-- The only peer of a session, with its channel, and the session entering its
screen over the left edge. -/
def hatch_peer : PeerHandle := ⟨⟨Vector.replicate 16 7⟩, 0⟩

/-- The peer connects, and a move to the left edge enters its screen. -/
def hatch_enter : List WiredStep :=
  [.task (.connected hatch_peer), .task .set_auto, .task (.recv (.Mouse (.Move 0 300))),
    .task (.lock_peers fun _ => true), .task .act, .task .act, .task .act,
    .task (.finish fun _ => true)]

/-- The hotkey, up to the first send. -/
def hatch_hotkey : List WiredStep :=
  [.task (.recv (.Key ⟨.Escape, .Pressed, ⟨7⟩, none⟩)), .task (.lock_peers fun _ => true)]

/-- The equivalence for a hotkey that finds room. -/
theorem never_held_iff_released :
    let start := new ⟨0⟩ 1920 1080 .default
    let steps := hatch_enter ++ hatch_hotkey ++ [.task .act, .task .act, .task .act]
    (∀ pre suf s, steps = pre ++ suf → exec step start pre = some s → ¬ s.Held) ↔
      (∀ pre a suf s, steps = pre ++ a :: suf → exec step start pre = some s → s.Guarded a) :=
  never_held_iff ⟨0⟩ 1920 1080 .default
    (hatch_enter ++ hatch_hotkey ++ [.task .act, .task .act, .task .act])
    _ (Option.some_get (by rfl)).symm

/-- The other holders of a handle can fill its channel. -/
theorem exec_enqueue (s : WiredSession) (channel : Nat) (msg : Message) (queue : List Message)
    (n : Nat) (hopen : s.outbound channel = ⟨queue, true⟩)
    (hroom : queue.length + n ≤ Outbound.capacity) :
    exec step s (List.replicate n (.enqueue channel msg))
      = some { s with
          outbound := Function.update s.outbound channel ⟨queue ++ List.replicate n msg, true⟩ } := by
  induction n generalizing s queue with
  | zero =>
      rw [List.replicate_zero, List.replicate_zero, exec_nil, List.append_nil, ← hopen,
        Function.update_eq_self]
  | succ n ih =>
      have hplace : (s.outbound channel).is_open = true ∧ (s.outbound channel).Room 1 := by
        rw [hopen]
        exact ⟨rfl, fun _ => by dsimp only; omega⟩
      rw [List.replicate_succ, exec_cons, step, if_pos hplace, Option.bind_some,
        ih _ (queue ++ [msg]) (by rw [hopen]; exact Function.update_self ..)
          (by rw [List.length_append, List.length_singleton]; omega),
        Function.update_idem, List.append_assoc]
      rfl

/-- **A full channel holds the release.** The writer stands still, heartbeats fill
the channel, and the hotkey is taken: the drain loop waits, and the capture goes
on swallowing. -/
theorem full_channel_holds :
    ∃ before held,
      exec step (new ⟨0⟩ 1920 1080 .default)
        (hatch_enter ++ List.replicate 255 (.enqueue 0 (.Ping 0 0))) = some before ∧
      before.tasks.server.edge.route ≠ .Local ∧
      exec step before hatch_hotkey = some held ∧
      held.Held ∧ held.step (.task .act) = none := by
  let entered := (exec step (new ⟨0⟩ 1920 1080 .default) hatch_enter).get (by rfl)
  have henter : exec step (new ⟨0⟩ 1920 1080 .default) hatch_enter = some entered :=
    (Option.some_get _).symm
  have hfill := exec_enqueue entered 0 (.Ping 0 0) [.ScreenEnter 32000 300 .empty] 255 (by rfl)
    (by decide)
  refine ⟨_, _, by rw [exec_append, henter, Option.bind_some, hfill], ?_, rfl, ?_⟩
  · exact Route.noConfusion
  · refine ⟨?hheld, held_waits ?hheld⟩
    refine ⟨⟨hatch_peer, _, _, rfl, fun hroom => ?_⟩, rfl⟩
    have hlong : ([Message.ScreenEnter 32000 300 .empty]
        ++ List.replicate 255 (Message.Ping 0 0)).length + 1 ≤ Outbound.capacity := hroom rfl
    -- 256 messages are in it
    rw [List.length_append, List.length_replicate] at hlong
    exact absurd hlong (by decide)

end WiredSession

end InputSync
