/-
The way of the user's input from `drain_capture` on the server to the injector of a
client: the outbound channel, the connection, the client's `inbound_loop`.

A full outbound channel loses input events and nothing else (`full_channel_thins`).
What the drain loop has sent is what the client's injector is called with, up to where
the connection has come, whatever the heartbeats, the clipboards and the file transfers
put between it (`input_carried`). So a key stays down on a client exactly when the last
that was sent of it is a press (`keys_down_iff`).
-/
import InputSync.ControlledPeer
import InputSync.Forward
import InputSync.HeldKeys
import InputSync.ConnectionRuns

set_option autoImplicit false

namespace InputSync

open InputSync.Bincode (serialize)

/-! ## Messages that steer

The connection carries heartbeats, clipboards and files as well. What the injector sees
is a projection of its traffic, so that nothing has to be said about the rest. -/

/-- The messages `drain_capture` sends: the client's inbound loop injects them. -/
def Message.steers : Message → Bool
  | .MouseMove .. | .MouseMoveRelative .. | .MouseButton _ | .MouseScroll _ | .KeyEvent _
  | .ScreenEnter .. | .ScreenLeave _ | .ModifierSync _ => true
  | _ => false

/-- The calls on the injector. -/
def Effect.injects : Effect → Bool
  | .inject .. | .release_all_modifiers _ => true
  | _ => false

/-- Whatever is captured becomes a message that steers, so the drain loop sends no
other. -/
theorem from_input_steers (event : InputEvent) : (Message.from_input event).steers = true := by
  cases event with
  | Mouse event => cases event <;> rfl
  | Key k | ScreenEnter x y m | ScreenLeave s | ModifierSync m => rfl

/-- A message that steers does nothing but inject, and no other message does. -/
theorem inbound_step_injects (msg : Message) :
    (inbound_step true msg).filter Effect.injects
      = if msg.steers then inbound_step true msg else [] := by
  have hresync : ∀ m, (resync_modifiers m).filter Effect.injects = resync_modifiers m := by
    intro m
    rw [List.filter_eq_self]
    intro effect heffect
    rcases List.mem_cons.mp heffect with rfl | heffect
    · rfl
    · obtain ⟨_, -, rfl⟩ := List.mem_map.mp heffect
      rfl
  cases msg with
  | ModifierSync m => exact hresync m
  | ScreenEnter x y m =>
      simp only [inbound_step, if_true, Message.steers]
      rw [List.filter_cons_of_pos rfl, hresync m]
  | _ => rfl

/-- The injector sees the messages that steer, as if there were no others. -/
theorem inbound_loop_injects (msgs : List Message) :
    (inbound_loop true msgs).filter Effect.injects
      = inbound_loop true (msgs.filter Message.steers) := by
  induction msgs with
  | nil => rfl
  | cons msg msgs ih =>
      have hcons : ∀ ms, inbound_loop true (msg :: ms)
          = inbound_step true msg ++ inbound_loop true ms := fun ms => List.flatMap_cons
      rw [hcons, List.filter_append, ih, inbound_step_injects]
      by_cases hsteers : msg.steers = true
      · rw [if_pos hsteers, List.filter_cons_of_pos hsteers, hcons]
      · rw [if_neg hsteers, List.filter_cons_of_neg hsteers, List.nil_append]

/-! ## A full outbound channel

`try_send` on a full channel drops the message. The session does not notice, so the run
with drops and the run without go through the same states; only the record of what was
sent is thinner. -/

/-- The action sends an event of the user's. -/
def Action.sends_input : Action → Bool
  | .send _ msg => msg.is_input
  | _ => false

/-- What room makes of the end of an iteration. -/
theorem Server.forward_with_room (server : Server) (event : InputEvent) (fw : ForwardTo)
    (accepts : Message → Bool) :
    (server.forward event fw (fun _ => true)).1 = (server.forward event fw accepts).1 ∧
      ((server.forward event fw accepts).2 = (server.forward event fw (fun _ => true)).2 ∨
        (server.forward event fw accepts).2 = []) := by
  unfold Server.forward
  cases fw with
  | Local => exact ⟨rfl, .inl rfl⟩
  | Remote =>
      cases server.peers.head? with
      | none => exact ⟨rfl, .inl rfl⟩
      | some peer =>
          refine ⟨rfl, ?_⟩
          dsimp only
          cases (forward_event server.last_mouse event).2 with
          | none => exact .inl rfl
          | some msg =>
              by_cases haccept : accepts msg = true
              · exact .inl (by simp [enqueue, haccept])
              · exact .inr (by simp [enqueue, haccept])

namespace Tasks

/-- The same step with room in the outbound channel for the event that is forwarded. -/
def with_room : TaskStep → TaskStep
  | .finish _ => .finish (fun _ => true)
  | a => a

/-- The event whose iteration the drain loop is in. -/
def event_at_hand (self : Tasks) : Option InputEvent :=
  match self.drain with
  | .recv => none
  | .decided _ after | .acting _ after => after.map Prod.fst

/-- Two sessions that differ in the input they have sent: the second all that the first
has, and more. -/
structure Thins (thin full : Tasks) : Prop where
  server : full.server = thin.server
  drain : full.drain = thin.drain
  handler : full.handler = thin.handler
  sublist : thin.actions.Sublist full.actions
  others : thin.actions.filter (fun a => !a.sends_input)
    = full.actions.filter (fun a => !a.sends_input)
  captured : ∀ event, thin.event_at_hand = some event → captured_event event = true

/-- Both sessions start as one, between two iterations. -/
theorem Thins.refl (start : Tasks) (h : start.event_at_hand = none) : start.Thins start where
  server := rfl
  drain := rfl
  handler := rfl
  sublist := .refl _
  others := rfl
  captured := by
    intro event hevent
    rw [h] at hevent
    cases hevent

/-- Both do the same. -/
theorem Thins.concat {thin full m n : Tasks} (h : thin.Thins full) {more : List Action}
    (hserver : n.server = m.server) (hdrain : n.drain = m.drain) (hhandler : n.handler = m.handler)
    (hthin : m.actions = thin.actions ++ more) (hfull : n.actions = full.actions ++ more)
    (hcaptured : ∀ event, m.event_at_hand = some event → captured_event event = true) :
    m.Thins n where
  server := hserver
  drain := hdrain
  handler := hhandler
  sublist := by
    rw [hthin, hfull]
    exact h.sublist.append (.refl _)
  others := by rw [hthin, hfull, List.filter_append, List.filter_append, h.others]
  captured := hcaptured

/-- What is forwarded of a captured event is input. -/
theorem forward_sends_input (server : Server) {event : InputEvent} (fw : ForwardTo)
    (accepts : Message → Bool) (hevent : captured_event event = true) :
    (server.forward event fw accepts).2.filter (fun a => !a.sends_input) = [] := by
  rcases server.forward_cases event fw accepts with hnone | ⟨peer, sent, -, -, -, hsends, hsent⟩
  · rw [hnone]
    rfl
  · rw [hsends]
    rcases hsent with rfl | ⟨dx, dy, rfl⟩
    · cases sent with
      | Mouse event => cases event <;> rfl
      | Key k => rfl
      | ScreenEnter | ScreenLeave | ModifierSync => cases hevent
    · rfl

/-- The end of an iteration with and without room. The forwarded event is the only thing
the two sessions can differ in, and the one with room has sent it. -/
theorem Thins.finish {thin full m : Tasks} (h : thin.Thins full) {accepts : Message → Bool}
    (hstep : thin.step (.finish accepts) = some m) :
    ∃ n, full.step (.finish (fun _ => true)) = some n ∧ m.Thins n := by
  obtain ⟨after, hpc⟩ := finish_drain hstep
  have hpc' : full.drain = .acting [] after := h.drain.trans hpc
  -- nothing to forward: both runs return to receiving
  rcases after with _ | ⟨event, fw⟩
  · simp only [step, hpc, Option.some.injEq] at hstep
    subst hstep
    refine ⟨{ full with drain := .recv }, by simp only [step, hpc'], ?_⟩
    exact h.concat h.server rfl h.handler (List.append_nil _).symm (List.append_nil _).symm
      (by rintro event ⟨⟩)
  -- an event to forward: with room it is sent if it is sent without, and perhaps only
  -- then
  · simp only [step, hpc, Option.some.injEq] at hstep
    subst hstep
    have hevent := h.captured event (by simp only [event_at_hand, hpc]; rfl)
    obtain ⟨hserver, hsends⟩ := thin.server.forward_with_room event fw accepts
    refine ⟨_, by simp only [step, hpc']; rfl, ?_⟩
    rw [h.server]
    refine ⟨hserver, rfl, h.handler, h.sublist.append ?_, ?_, by rintro event ⟨⟩⟩
    · rcases hsends with hsame | hnone
      · rw [hsame]
      · rw [hnone]
        exact List.nil_sublist _
    · rw [List.filter_append, List.filter_append, forward_sends_input _ _ _ hevent,
        forward_sends_input _ _ _ hevent, h.others]

/-- **A step with room** does what the step does, and sends its input. -/
theorem step_thins (thin full m : Tasks) (a b : TaskStep) (h : thin.Thins full)
    (halike : b = with_room a ∧ ∀ event, a = .recv event → captured_event event = true)
    (hstep : thin.step a = some m) : ∃ n, full.step b = some n ∧ m.Thins n := by
  obtain ⟨rfl, hcaptured⟩ := halike
  -- the two runs share the session's state, so each step does the same in both; only
  -- what is enqueued may differ
  cases a with
  | recv event =>
      have hpc := recv_drain hstep
      have hpc' : full.drain = .recv := h.drain.trans hpc
      rcases step_recv hstep with ⟨hem, rfl⟩ | ⟨hem, rfl⟩
      · refine ⟨_, by simp only [with_room, step, hpc', if_pos hem]; rfl, ?_⟩
        rw [h.server]
        exact h.concat rfl rfl h.handler (List.append_nil _).symm (List.append_nil _).symm
          (by rintro event ⟨⟩)
      · refine ⟨_, by simp only [with_room, step, hpc', if_neg hem]; rfl, ?_⟩
        rw [h.server]
        refine h.concat rfl rfl h.handler (List.append_nil _).symm (List.append_nil _).symm ?_
        rintro event' ⟨⟩
        exact hcaptured event rfl
  | lock_peers accepts =>
      obtain ⟨decision, after, hpc, rfl⟩ := step_lock_peers hstep
      have hpc' : full.drain = .decided decision after := h.drain.trans hpc
      refine ⟨_, by simp only [with_room, step, hpc']; rfl, ?_⟩
      rw [h.server]
      refine h.concat rfl rfl h.handler (List.append_nil _).symm (List.append_nil _).symm ?_
      intro event hevent
      exact h.captured event (by simp only [event_at_hand, hpc]; exact hevent)
  | act =>
      obtain ⟨b, rest, after, hpc, rfl⟩ := step_act hstep
      have hpc' : full.drain = .acting (b :: rest) after := h.drain.trans hpc
      refine ⟨_, by simp only [with_room, step, hpc']; rfl, ?_⟩
      rw [h.server]
      refine h.concat rfl rfl h.handler rfl rfl ?_
      intro event hevent
      exact h.captured event (by simp only [event_at_hand, hpc]; exact hevent)
  | finish accepts => exact h.finish hstep
  | connected handle | set_auto | disconnected peer_id | check_empty | clear_auto =>
      cases hpc : thin.handler <;> simp only [step, hpc, reduceCtorEq, Option.some.injEq] at hstep
      have hpc' := h.handler.trans hpc
      subst hstep
      refine ⟨_, by simp only [with_room, step, hpc']; rfl, ?_⟩
      rw [h.server]
      exact h.concat rfl h.drain rfl (List.append_nil _).symm (List.append_nil _).symm h.captured

/-- The steps with room, side by side with the steps. -/
theorem beside_with_room (start : Tasks) (steps : List TaskStep)
    (hcaptured : ∀ event, .recv event ∈ steps → captured_event event = true) :
    Beside step
      (fun _ a b => b = with_room a ∧ ∀ event, a = .recv event → captured_event event = true)
      start steps (steps.map with_room) := by
  induction steps generalizing start with
  | nil => trivial
  | cons a steps ih =>
      refine ⟨⟨rfl, ?_⟩, fun m _ => ih m fun event hmem => hcaptured event (.tail a hmem)⟩
      rintro event rfl
      exact hcaptured event List.mem_cons_self

/-- **A full outbound channel loses input and nothing else.** However often the channel
had no room for an event: with room every time the session goes the same way, through the
same decisions and the same calls, and sends everything it has sent in the same order;
what it sends more is input, and nothing of what tells a client about control. -/
theorem full_channel_thins (local_screen : ScreenId) (w h : Int32) (layout : ScreenLayout)
    (steps : List TaskStep) (last : Tasks)
    (hcaptured : ∀ event, .recv event ∈ steps → captured_event event = true)
    (hrun : exec step (new local_screen w h layout) steps = some last) :
    ∃ full, exec step (new local_screen w h layout) (steps.map with_room) = some full ∧
      full.server = last.server ∧ last.actions.Sublist full.actions ∧
      last.actions.filter (fun a => !a.sends_input)
        = full.actions.filter (fun a => !a.sends_input) := by
  obtain ⟨full, hfull, hthins⟩ := exec_beside step Thins
    (fun _ a b => b = with_room a ∧ ∀ event, a = .recv event → captured_event event = true)
    step_thins _ _ last steps _ (Thins.refl _ rfl) (beside_with_room _ steps hcaptured) hrun
  exact ⟨full, hfull, hthins.server, hthins.sublist, hthins.others⟩

/-- A key for which there was no room. -/
theorem full_channel_thins_key :
    let p : PeerHandle := ⟨⟨Vector.replicate 16 7⟩, 0⟩
    let steps : List TaskStep := [.connected p, .set_auto, .recv (.Mouse (.Move 0 300)),
      .lock_peers (fun _ => true), .act, .act, .act, .finish (fun _ => true),
      .recv (.Key ⟨.A, .Pressed, .empty, none⟩), .lock_peers (fun _ => false),
      .finish (fun _ => false)]
    let start := new ⟨0⟩ 1920 1080 .default
    ∃ last full, exec step start steps = some last ∧
      exec step start (steps.map with_room) = some full ∧
      full.server = last.server ∧ last.actions.Sublist full.actions ∧
      last.actions.filter (fun a => !a.sends_input)
        = full.actions.filter (fun a => !a.sends_input) := by
  intro p steps start
  have hcaptured : ∀ event, .recv event ∈ steps → captured_event event = true := by
    intro event hmem
    simp only [steps, List.mem_cons, TaskStep.recv.injEq, List.not_mem_nil, reduceCtorEq, false_or,
      or_false] at hmem
    rcases hmem with rfl | rfl <;> rfl
  obtain ⟨full, hfull⟩ := full_channel_thins ⟨0⟩ 1920 1080 .default steps _ hcaptured rfl
  exact ⟨_, full, rfl, hfull⟩

end Tasks

/-! ## What is queued

The connection's own steps queue nothing. Only the session does, and `queues` says what. -/

/-- What an end queues in a step. -/
def EndStep.queues : EndStep → List Message
  | .enqueue msg => [msg]
  | _ => []

/-- The same for a step of the connection, at one of its sides. -/
def ConnStep.queues (side : Side) : ConnStep → List Message
  | .act s a => if s = side then a.queues else []
  | _ => []

namespace ConnEnd

/-- A greeting is written without going through the queue, -/
theorem begin_queued (e : ConnEnd) (msg : Message) (stage : ConnStage)
    (failed : StreamError → ConnectFailure) : (e.begin msg stage failed).queued = e.queued := by
  rcases e.begin_cases msg stage failed with ⟨frame, -, hbegin⟩ | ⟨length, hbegin⟩ <;> rw [hbegin]

/-- and so is the reply to one. -/
theorem hear_queued {own : LocalPeer} {e n : ConnEnd} (h : e.hear own = some n) :
    n.queued = e.queued := by
  unfold hear at h
  split at h
  · obtain ⟨r, hr, rfl⟩ := Option.map_eq_some_iff.mp h
    rcases receive_cases hr with ⟨m, rest, -, rfl⟩ | ⟨err, -, rfl⟩
    · cases m <;> rfl
    · rfl
  · obtain ⟨r, hr, rfl⟩ := Option.map_eq_some_iff.mp h
    rcases receive_cases hr with ⟨m, rest, -, rfl⟩ | ⟨err, -, rfl⟩
    · cases m with
      | Hello hello =>
          dsimp only [hear_hello]
          split_ifs
          · exact begin_queued _ _ _ _
          · exact begin_queued _ _ _ _
      | _ => rfl
    · rfl
  · cases h

/-- Nothing but the session queues. -/
theorem step_same_queued {own : LocalPeer} {lost : Bool} {e n : ConnEnd} {a : EndStep}
    (ha : a.queues = []) (h : e.step own lost a = some n) : n.queued = e.queued := by
  -- `queued` records what was put into the channel, and only `enqueue` puts
  cases a with
  | enqueue msg => cases ha
  | open_stream =>
      rw [step, open_stream] at h
      split at h
      · split_ifs at h
        · cases h
          rfl
        · cases h
          exact begin_queued _ _ _ _
      · split_ifs at h <;> cases h <;> rfl
      · cases h
  | hear =>
      exact hear_queued h
  | written =>
      rw [step, ConnEnd.written] at h
      split_ifs at h
      split at h <;> cases h <;> rfl
  | announce =>
      rw [step, announce] at h
      split at h <;> cases h
      rfl
  | loop_ended =>
      rw [step, loop_ended] at h
      split at h
      · split_ifs at h
        cases h
        rfl
      · cases h
  | leave =>
      rw [step, leave] at h
      split at h <;> cases h
      rfl
  | drop =>
      rw [step, drop] at h
      split at h <;> cases h
      rfl
  | next =>
      rw [step, next] at h
      split at h
      · split at h <;> cases h <;> rfl
      · cases h
  | read =>
      rw [step, read_next] at h
      split at h
      · obtain ⟨r, hr, rfl⟩ := Option.map_eq_some_iff.mp h
        rcases receive_cases hr with ⟨m, rest, -, rfl⟩ | ⟨err, -, rfl⟩ <;> rfl
      · cases h
  | send_inbound =>
      rw [step, send_inbound] at h
      split at h
      · split_ifs at h <;> cases h <;> rfl
      · cases h
  | handle =>
      rw [step, handle] at h
      split at h <;> cases h
      rfl
  | unattend =>
      rw [step, unattend] at h
      split_ifs at h
      cases h
      rfl

/-- What an end has queued grows by what the step queues. The lemmas of this section
are one frame argument, carried from the functions of an end up to the connection. -/
theorem step_queued {own : LocalPeer} {lost : Bool} {e n : ConnEnd} {a : EndStep}
    (h : e.step own lost a = some n) : n.queued = e.queued ++ a.queues := by
  by_cases ha : a.queues = []
  · rw [ha, List.append_nil]
    exact step_same_queued ha h
  · cases a with
    | enqueue msg =>
        rw [step, enqueue] at h
        split_ifs at h
        cases h
        rfl
    | _ => exact absurd rfl ha

/-- A failed write queues nothing. -/
theorem write_failed_queued {e n : ConnEnd} (h : e.write_failed = some n) :
    n.queued = e.queued := by
  unfold write_failed at h
  by_cases hunwritten : e.unwritten = []
  · rw [if_pos hunwritten] at h
    cases h
  rw [if_neg hunwritten] at h
  split at h
  case h_4 =>
    split_ifs at h
    cases h
    rfl
  all_goals
    cases h
    rfl

end ConnEnd

namespace Connection

variable {cfg : Side → LocalPeer} {self n : Connection}

/-- An end that queues nothing, put back. -/
theorem put_queued {side : Side} {e : ConnEnd} (h : e.queued = (self.ends side).queued)
    (s : Side) : ((self.put side e).ends s).queued = (self.ends s).queued := by
  rcases Side.eq_or_other side s with rfl | rfl
  · rw [put_same, h]
  · rw [put_other]

/-- The same for a step of the connection, at either side. -/
theorem step_queued {a : ConnStep} (h : self.step cfg a = some n) (side : Side) :
    (n.ends side).queued = (self.ends side).queued ++ a.queues side := by
  cases a with
  | act s a =>
      obtain ⟨e, he, rfl⟩ := Option.map_eq_some_iff.mp h
      -- an end's own steps count at that end
      rcases Side.eq_or_other s side with rfl | rfl
      · rw [put_same, ConnStep.queues, if_pos rfl]
        exact ConnEnd.step_queued he
      · rw [put_other, ConnStep.queues, if_neg (Side.ne_other s), List.append_nil]
  -- the wire queues nothing, in any of its steps
  | write s count =>
      refine Eq.trans ?_ (List.append_nil _).symm
      simp only [step] at h
      split_ifs at h
      cases h
      refine (put_queued ?_ side).trans (put_queued ?_ side)
      · rw [put_other]
      · rfl
  | finish s =>
      refine Eq.trans ?_ (List.append_nil _).symm
      simp only [step] at h
      split_ifs at h
      cases h
      refine put_queued ?_ side
      rfl
  | write_failed s =>
      refine Eq.trans ?_ (List.append_nil _).symm
      simp only [step] at h
      split_ifs at h
      obtain ⟨e, he, rfl⟩ := Option.map_eq_some_iff.mp h
      exact put_queued (ConnEnd.write_failed_queued he) side
  | lose arrived =>
      refine Eq.trans ?_ (List.append_nil _).symm
      simp only [step] at h
      split_ifs at h
      cases h
      rfl

end Connection

/-! ## What is sent to a peer

The drain loop sends only messages that steer, and these are small enough for a frame.
So a session cannot silence its own connection. -/

/-- A message that steers is small, whatever it is about. -/
theorem Message.steers_fits {msg : Message} (h : msg.steers = true) : msg.Fits := by
  have hmax : MAX_PAYLOAD_SIZE.toNat = 67108864 := rfl
  have hbody : (Bincode.Message.body msg).length ≤ 15 := by
    cases msg with
    | KeyEvent k => exact key_event_put_length_le k
    | MouseButton e | MouseScroll e => exact (mouse_event_put_length_le e).trans (by omega)
    | MouseMove | MouseMoveRelative | ScreenEnter | ScreenLeave | ModifierSync =>
        simp [Bincode.Message.body, Codec.seq, Bincode.modifier_state, Codec.iso, Codec.via]
    | _ => cases h
  have hput : (serialize msg).length = 4 + (Bincode.Message.body msg).length := by
    simp only [serialize, Bincode.message, Codec.tagged, List.length_append, Codec.u32_put_length]
  exact ⟨_, encode_frame_ok msg (by omega)⟩

/-- What the router sends on a decision, greeting messages of a screen included, steers.
-/
theorem decision_steers {decision : RouteDecision} {peers : List PeerHandle}
    {accepts : Message → Bool} {peer : PeerHandle} {msg : Message}
    (h : Action.send peer msg ∈ apply_decision decision peers accepts) : msg.steers = true := by
  cases decision with
  | Stay => cases h
  | EnterRemote screen entry warp m =>
      rcases List.mem_append.mp h with h | h
      · rw [mem_enqueue _ _ _ _ _ h]
        rfl
      · simp at h
  | LeaveRemote screen =>
      rcases List.mem_append.mp h with h | h
      · rcases List.mem_append.mp h with h | h
        · rw [mem_enqueue _ _ _ _ _ h]
          rfl
        · rw [mem_enqueue _ _ _ _ _ h]
          rfl
      · simp at h

namespace Tasks

/-- What a step adds to what is told steers. -/
theorem step_told {self next : Tasks} {a : TaskStep} (h : self.step a = some next) :
    ∃ more, next.told = self.told ++ more ∧
      ∀ peer msg, .send peer msg ∈ more → msg.steers = true := by
  -- new actions come from a decision or from a forwarded event; both only steer the
  -- peer or carry input
  cases a with
  | recv event =>
      have hpc := recv_drain h
      refine ⟨[], ?_, by rintro peer msg ⟨⟩⟩
      rcases step_recv h with ⟨-, rfl⟩ | ⟨-, rfl⟩ <;> simp only [told, hpc, List.append_nil]
  | lock_peers accepts =>
      obtain ⟨decision, after, hpc, rfl⟩ := step_lock_peers h
      exact ⟨_, by simp only [told, hpc, List.append_nil]; rfl, fun peer msg => decision_steers⟩
  | act =>
      obtain ⟨b, rest, after, hpc, rfl⟩ := step_act h
      refine ⟨[], ?_, by rintro peer msg ⟨⟩⟩
      simp only [told, hpc, List.append_nil, List.append_assoc, List.singleton_append]
  | finish accepts =>
      obtain ⟨after, hpc⟩ := finish_drain h
      rcases after with _ | ⟨event, fw⟩
      · simp only [step, hpc, Option.some.injEq] at h
        subst h
        exact ⟨[], by simp only [told, hpc, List.append_nil], by rintro peer msg ⟨⟩⟩
      · refine ⟨_, step_finish_told hpc h, ?_⟩
        intro peer msg hmem
        rcases self.server.forward_cases event fw accepts with
          hnone | ⟨first, sent, -, -, -, hsends, -⟩
        · rw [hnone] at hmem
          cases hmem
        · rw [hsends, List.mem_singleton] at hmem
          cases hmem
          exact from_input_steers sent
  | connected handle | set_auto | disconnected peer_id | check_empty | clear_auto =>
      obtain ⟨peers, auto_peer, handler, rfl⟩ := step_handler rfl h
      exact ⟨[], (List.append_nil _).symm, by rintro peer msg ⟨⟩⟩

/-- The record of what a session has done only grows. -/
theorem step_actions {self next : Tasks} {a : TaskStep} (h : self.step a = some next) :
    ∃ more, next.actions = self.actions ++ more := by
  cases a with
  | recv event =>
      rcases step_recv h with ⟨-, rfl⟩ | ⟨-, rfl⟩ <;> exact ⟨[], (List.append_nil _).symm⟩
  | lock_peers accepts =>
      obtain ⟨decision, after, hpc, rfl⟩ := step_lock_peers h
      exact ⟨[], (List.append_nil _).symm⟩
  | act =>
      obtain ⟨b, rest, after, hpc, rfl⟩ := step_act h
      exact ⟨[b], rfl⟩
  | finish accepts =>
      obtain ⟨after, hpc⟩ := finish_drain h
      rcases after with _ | ⟨event, fw⟩
      · simp only [step, hpc, Option.some.injEq] at h
        subst h
        exact ⟨[], (List.append_nil _).symm⟩
      · simp only [step, hpc, Option.some.injEq] at h
        subst h
        exact ⟨_, rfl⟩
  | connected handle | set_auto | disconnected peer_id | check_empty | clear_auto =>
      obtain ⟨peers, auto_peer, handler, rfl⟩ := step_handler rfl h
      exact ⟨[], (List.append_nil _).symm⟩

/-- Everything that is told steers. -/
def Steering (self : Tasks) : Prop :=
  ∀ peer msg, .send peer msg ∈ self.told → msg.steers = true

/-- Steering is kept by every step, since `step_told` says what each one adds. -/
theorem Steering.step {self next : Tasks} {a : TaskStep} (hs : self.Steering)
    (h : self.step a = some next) : next.Steering := by
  obtain ⟨more, htold, hmore⟩ := step_told h
  intro peer msg hmem
  rw [htold] at hmem
  rcases List.mem_append.mp hmem with hmem | hmem
  · exact hs peer msg hmem
  · exact hmore peer msg hmem

end Tasks

/-! ## The session and the connection

The two developments are composed here: the session's sends are the connection's offers,
and the rest of both runs as before. `Linked` is the interface between them. -/

/-- The server session, and the connection of one of its peers: what is sent to the
handle of that peer goes into the outbound channel of the connection. -/
structure Chain where
  tasks : Tasks
  conn : Connection

/-- A task of the session takes a step, or something happens on the connection. -/
inductive ChainStep
  | task (a : TaskStep)
  | conn (a : ConnStep)

namespace Chain

/-- A fresh session and a fresh connection. -/
def new (local_screen : ScreenId) (w h : Int32) (layout : ScreenLayout) : Chain :=
  { tasks := .new local_screen w h layout, conn := .new }

variable (cfg : Side → LocalPeer) (peer : PeerHandle)

/-- The sends that succeed on the handle. -/
def offer (conn : Connection) (msgs : List Message) : Option Connection :=
  exec (Connection.step cfg) conn (msgs.map (fun msg => .act .A (.enqueue msg)))

/-- One step. The heartbeat, the clipboard and the files send on the handle as well, and
nothing that steers. -/
def step (self : Chain) : ChainStep → Option Chain
  | .task a => do
    let tasks ← self.tasks.step a
    let conn ← offer cfg self.conn (sent_to peer (tasks.actions.drop self.tasks.actions.length))
    some { tasks, conn }
  | .conn a =>
    if (a.queues .A).any Message.steers then none
    else do
      let conn ← self.conn.step cfg a
      some { self with conn }

variable {cfg} {peer}

/-- A step of the session in the composed system: the session takes it, and what it
sends to the peer is put into the connection's queue at once. -/
theorem step_task {self next : Chain} {a : TaskStep} (h : self.step cfg peer (.task a) = some next) :
    ∃ more, self.tasks.step a = some next.tasks ∧
      next.tasks.actions = self.tasks.actions ++ more ∧
      offer cfg self.conn (sent_to peer more) = some next.conn := by
  obtain ⟨tasks, htasks, h⟩ := Option.bind_eq_some_iff.mp h
  obtain ⟨conn, hconn, h⟩ := Option.bind_eq_some_iff.mp h
  cases h
  obtain ⟨more, hmore⟩ := Tasks.step_actions htasks
  rw [hmore, List.drop_left] at hconn
  exact ⟨more, htasks, hmore, hconn⟩

/-- A step of the connection: the session stays. The guard says that nothing else on the
server sends messages that steer, which is true of the code. -/
theorem step_conn {self next : Chain} {a : ConnStep} (h : self.step cfg peer (.conn a) = some next) :
    (∀ msg ∈ a.queues .A, msg.steers = false) ∧ next.tasks = self.tasks ∧
      self.conn.step cfg a = some next.conn := by
  simp only [step] at h
  split_ifs at h with hsteers
  obtain ⟨conn, hconn, h⟩ := Option.bind_eq_some_iff.mp h
  cases h
  exact ⟨by simpa using hsteers, rfl, hconn⟩

/-- Offering messages queues them, all and in order. An offer that finds no room is not
a step: `forward` records as sent only what was accepted. -/
theorem offer_queued {conn n : Connection} {msgs : List Message}
    (h : offer cfg conn msgs = some n) :
    (n.ends .A).queued = (conn.ends .A).queued ++ msgs := by
  induction msgs generalizing conn with
  | nil =>
      cases h
      exact (List.append_nil _).symm
  | cons msg msgs ih =>
      obtain ⟨m, hm, h⟩ := Option.bind_eq_some_iff.mp h
      rw [ih h, Connection.step_queued hm .A, List.append_assoc]
      rfl

/-- Offering keeps the connection's invariant, being steps of it. -/
theorem offer_kept {conn n : Connection} {msgs : List Message} (hk : conn.Kept cfg)
    (h : offer cfg conn msgs = some n) : n.Kept cfg :=
  exec_invariant (Connection.step cfg) (Connection.Kept cfg) conn n _ hk
    (fun _ _ _ _ hm hstep => Connection.step_kept hm hstep) h

/-- What the drain loop has sent to the peer is what was queued of what steers. -/
structure Linked (cfg : Side → LocalPeer) (peer : PeerHandle) (chain : Chain) : Prop where
  kept : chain.conn.Kept cfg
  steering : chain.tasks.Steering
  queued : (chain.conn.ends .A).queued.filter Message.steers = sent_to peer chain.tasks.actions

/-- At the start nothing was sent and nothing is queued. -/
theorem linked_new (local_screen : ScreenId) (w h : Int32) (layout : ScreenLayout) :
    (new local_screen w h layout).Linked cfg peer :=
  ⟨Connection.kept_new, by rintro p msg ⟨⟩, rfl⟩

/-- What was sent is told. -/
theorem sent_steers (peer : PeerHandle) {tasks : Tasks} (h : tasks.Steering) {more before : List Action}
    (hactions : tasks.actions = before ++ more) :
    ∀ msg ∈ sent_to peer more, msg.steers = true := by
  intro msg hmem
  obtain ⟨a, ha, hsend⟩ := List.mem_filterMap.mp hmem
  refine h peer msg ?_
  cases a with
  | send p m =>
      simp only [Option.ite_none_right_eq_some, Option.some.injEq] at hsend
      obtain ⟨rfl, rfl⟩ := hsend
      rw [Tasks.told, hactions]
      exact List.mem_append_left _ (List.mem_append_right _ ha)
  | warp_cursor pos | set_capturing on => cases hsend

/-- **A step** queues what it sends. -/
theorem step_linked {self next : Chain} {a : ChainStep} (hl : self.Linked cfg peer)
    (h : self.step cfg peer a = some next) : next.Linked cfg peer := by
  cases a with
  | task a =>
      obtain ⟨more, htasks, hactions, hoffer⟩ := step_task h
      have hsteering := hl.steering.step htasks
      refine ⟨offer_kept hl.kept hoffer, hsteering, ?_⟩
      rw [offer_queued hoffer, List.filter_append, hl.queued, hactions, sent_to_append,
        List.filter_eq_self.mpr (sent_steers peer hsteering hactions)]
  | conn a =>
      obtain ⟨hother, htasks, hconn⟩ := step_conn h
      refine ⟨Connection.step_kept hl.kept hconn, htasks ▸ hl.steering, ?_⟩
      rw [Connection.step_queued hconn .A, List.filter_append, hl.queued, htasks]
      have hnone : (a.queues .A).filter Message.steers = [] := by simpa using hother
      rw [hnone, List.append_nil]

/-- What is sent can be written, so that the connection stays up. -/
theorem step_up (hfits : ∀ side, (greet cfg side).Fits) {self next : Chain} {a : ChainStep}
    (hl : self.Linked cfg peer) (hup : self.conn.Up) (hcalm : ∀ b, a = .conn b → b.Calm)
    (h : self.step cfg peer a = some next) : next.conn.Up := by
  cases a with
  | task a =>
      obtain ⟨more, htasks, hactions, hoffer⟩ := step_task h
      have hsteers := sent_steers peer (hl.steering.step htasks) hactions
      refine (exec_invariant (Connection.step cfg) (fun conn => conn.Kept cfg ∧ conn.Up) self.conn
        next.conn _ ⟨hl.kept, hup⟩ ?_ hoffer).2
      rintro m n a ha ⟨hk, hm⟩ hstep
      obtain ⟨msg, hmem, rfl⟩ := List.mem_map.mp ha
      have hmsg : (ConnStep.act .A (.enqueue msg)).Calm := Message.steers_fits (hsteers msg hmem)
      exact ⟨Connection.step_kept hk hstep, hm.step hk hfits hmsg hstep⟩
  | conn a =>
      obtain ⟨-, -, hconn⟩ := step_conn h
      exact hup.step hl.kept hfits (hcalm a rfl) hconn

variable {local_screen : ScreenId} {w h : Int32} {layout : ScreenLayout}

/-- Sent and queued agree along every run, by `step_linked` and the invariant rule. -/
theorem run_linked (steps : List ChainStep) (last : Chain)
    (hrun : exec (step cfg peer) (new local_screen w h layout) steps = some last) :
    last.Linked cfg peer :=
  exec_invariant (step cfg peer) (Linked cfg peer) _ last steps (linked_new _ _ _ _)
    (fun _ _ _ _ hm hstep => step_linked hm hstep) hrun

/-- Once everything has arrived, the client has handled, of what steers, what was sent. -/
theorem handled_at_rest (hfits : ∀ side, (greet cfg side).Fits) (steps : List ChainStep)
    (last : Chain) (hcalm : ∀ a, .conn a ∈ steps → a.Calm)
    (hrun : exec (step cfg peer) (new local_screen w h layout) steps = some last)
    (hrest : last.conn.AtRest cfg) :
    (last.conn.ends .B).handled.filter Message.steers = sent_to peer last.tasks.actions := by
  obtain ⟨hl, hup⟩ := exec_invariant (step cfg peer)
    (fun chain => chain.Linked cfg peer ∧ chain.conn.Up) _ last steps
    ⟨linked_new _ _ _ _, Connection.up_new⟩
    (fun m n a ha hm hstep => ⟨step_linked hm.1 hstep,
      step_up hfits hm.1 hm.2 (fun b hb => hcalm b (hb ▸ ha)) hstep⟩) hrun
  have hall : (last.conn.ends .B).handled = (last.conn.ends .A).queued :=
    hrest.delivered hup hl.kept .A
  rw [hall, hl.queued]

/-- **The input gets there.** In every run, with any traffic between and any end of the
connection, the calls on the client's injector are the beginning of what the messages of
the drain loop ask for; and all of it where the connection is left alone and has come to
rest. -/
theorem input_carried (steps : List ChainStep) (last : Chain)
    (hrun : exec (step cfg peer) (new local_screen w h layout) steps = some last) :
    (inbound_loop true (last.conn.ends .B).handled).filter Effect.injects
        <+: inbound_loop true (sent_to peer last.tasks.actions) ∧
      ((∀ side, (greet cfg side).Fits) → (∀ a, .conn a ∈ steps → a.Calm) →
        last.conn.AtRest cfg →
        (inbound_loop true (last.conn.ends .B).handled).filter Effect.injects
          = inbound_loop true (sent_to peer last.tasks.actions)) := by
  have hl := run_linked steps last hrun
  rw [inbound_loop_injects]
  refine ⟨?_, ?_⟩
  · obtain ⟨more, hmore⟩ := (hl.kept.delivered .A).filter Message.steers
    have hsent := hmore.trans hl.queued
    rw [← hsent, inbound_loop_append]
    exact List.prefix_append _ _
  · intro hfits hcalm hrest
    rw [handled_at_rest hfits steps last hcalm hrun hrest]

/-- A key pressed on the far screen, its frame in two pieces. -/
def key_steps : List ChainStep :=
  Connection.handshake_steps.map .conn ++
    [.task (.connected ⟨⟨Vector.replicate 16 2⟩, 0⟩), .task .set_auto,
      .task (.recv (.Mouse (.Move 0 300))), .task (.lock_peers (fun _ => true)), .task .act,
      .task .act, .task .act, .task (.finish (fun _ => true)),
      .task (.recv (.Key ⟨.A, .Pressed, .empty, none⟩)), .task (.lock_peers (fun _ => true)),
      .task (.finish (fun _ => true))] ++
    ([.act .A .next, .write .A 26, .act .A .next, .write .A 10, .act .B .read,
      .act .B .send_inbound, .write .A 17, .act .B .read, .act .B .handle, .act .B .send_inbound,
      .act .B .handle] : List ConnStep).map .conn

/-- The run leaves nothing under way. -/
theorem key_steps_run : ∃ last, exec (step Connection.a_and_b ⟨⟨Vector.replicate 16 2⟩, 0⟩)
    (new ⟨0⟩ 1920 1080 .default) key_steps = some last ∧ last.conn.Quiet := by
  have hrun : (exec (step Connection.a_and_b ⟨⟨Vector.replicate 16 2⟩, 0⟩)
      (new ⟨0⟩ 1920 1080 .default) key_steps).any (fun last => last.conn.Quiet) := by
    decide +kernel
  obtain ⟨last, hlast, hquiet⟩ := (Option.any_eq_true _ _).mp hrun
  exact ⟨last, hlast, of_decide_eq_true hquiet⟩

/-- Its greetings fit a frame, and no message in it is too long for one. -/
theorem key_steps_fit : (∀ side, (greet Connection.a_and_b side).Fits) ∧
    ∀ a, .conn a ∈ key_steps → a.Calm := by
  constructor
  · rintro (_ | _) <;> exact Message.fits_of_ok (by decide +kernel)
  · simp [key_steps, Connection.handshake_steps, ConnStep.Calm]

/-- The key has got there: the client's injector was called for it as the drain loop
asked. -/
theorem input_carried_key :
    ∃ last, exec (step Connection.a_and_b ⟨⟨Vector.replicate 16 2⟩, 0⟩)
        (new ⟨0⟩ 1920 1080 .default) key_steps = some last ∧
      (inbound_loop true (last.conn.ends .B).handled).filter Effect.injects
        = inbound_loop true (sent_to ⟨⟨Vector.replicate 16 2⟩, 0⟩ last.tasks.actions) := by
  obtain ⟨last, hlast, hquiet⟩ := key_steps_run
  exact ⟨last, hlast, (input_carried key_steps last hlast).2 key_steps_fit.1 key_steps_fit.2
    hquiet.at_rest⟩

end Chain

namespace KeyInjector

variable (inj : KeyInjector)

/-- Of a message that does not steer the injector hears nothing. -/
theorem after_steers (start : inj.State) (msgs : List Message) :
    inj.after start (msgs.filter Message.steers) = inj.after start msgs := by
  have hquiet : ∀ (effects : List Effect) (s : inj.State),
      (effects.filter Effect.injects).foldl (Effect.run inj.toInjector) s
        = effects.foldl (Effect.run inj.toInjector) s := by
    intro effects
    induction effects with
    | nil => exact fun s => rfl
    | cons effect effects ih =>
        intro s
        rw [List.foldl_cons, ← ih]
        cases effect <;> rfl
  rw [after, after, ← inbound_loop_injects, hquiet]

end KeyInjector

namespace Chain

variable {cfg : Side → LocalPeer} {peer : PeerHandle}
variable {local_screen : ScreenId} {w h : Int32} {layout : ScreenLayout}

/-- **The keys that stay down.** Where the connection is left alone and has come to rest,
a key of the client that is no modifier and was up before is down exactly when the drain
loop has sent a press of it and no other event of it after that. -/
theorem keys_down_iff (hfits : ∀ side, (greet cfg side).Fits) (steps : List ChainStep)
    (last : Chain) (hcalm : ∀ a, .conn a ∈ steps → a.Calm)
    (hrun : exec (step cfg peer) (new local_screen w h layout) steps = some last)
    (hrest : last.conn.AtRest cfg) (inj : KeyInjector) (start : inj.State) (kc : KeyCode)
    (hkc : kc ∉ modifier_keys) (hhas : inj.has kc = true) (hup : inj.held start kc = false) :
    inj.held (inj.after start (last.conn.ends .B).handled) kc = true ↔
      ∃ before k rest, sent_to peer last.tasks.actions = before ++ .KeyEvent k :: rest ∧
        k.code = kc ∧ k.state = .Pressed ∧ ∀ k', .KeyEvent k' ∈ rest → k'.code ≠ kc := by
  -- for a key that is no modifier only its own events count
  have hword : inj.message_word kc = inj.key_message kc := by
    funext msg
    rw [KeyInjector.message_word, if_neg hkc]
  rw [← inj.after_steers, handled_at_rest hfits steps last hcalm hrun hrest, inj.held_run, hword,
    hup]
  have hsaid : ∀ (k : KeyEvent), inj.key_message kc (.KeyEvent k) = some true ↔
      k.code = kc ∧ k.state = .Pressed := by
    intro k
    by_cases hcode : k.code = kc <;> simp [KeyInjector.key_message, key_word, hhas, hcode]
  have hsilent : ∀ msg, inj.key_message kc msg = none ↔ ∀ k, msg = .KeyEvent k → k.code ≠ kc := by
    intro msg
    cases msg <;> simp [KeyInjector.key_message, key_word, hhas]
  have hlast : ∀ o : Option Bool, o.getD false = true ↔ o = some true := by
    rintro (_ | _) <;> simp
  rw [hlast, last_word_eq_some_iff]
  -- the last event of the key says whether it is down, so there is a last press and no
  -- event of the key after it
  constructor
  · rintro ⟨before, msg, rest, hsplit, hmsg, hlater⟩
    cases msg with
    | KeyEvent k =>
        obtain ⟨hcode, hstate⟩ := (hsaid k).mp hmsg
        exact ⟨before, k, rest, hsplit, hcode, hstate,
          fun k' hmem => (hsilent _).mp (hlater _ hmem) k' rfl⟩
    | _ => cases hmsg
  · rintro ⟨before, k, rest, hsplit, hcode, hstate, hlater⟩
    refine ⟨before, _, rest, hsplit, (hsaid k).mpr ⟨hcode, hstate⟩, ?_⟩
    intro msg hmem
    rw [hsilent]
    rintro k' rfl
    exact hlater k' hmem

/-- The key goes down, and stays. -/
theorem keys_down_iff_key :
    ∃ last, exec (step Connection.a_and_b ⟨⟨Vector.replicate 16 2⟩, 0⟩)
        (new ⟨0⟩ 1920 1080 .default) key_steps = some last ∧
      (key_set.held (key_set.after (fun _ => false) (last.conn.ends .B).handled) .A = true ↔
        ∃ before k rest, sent_to ⟨⟨Vector.replicate 16 2⟩, 0⟩ last.tasks.actions
            = before ++ .KeyEvent k :: rest ∧
          k.code = .A ∧ k.state = .Pressed ∧ ∀ k', .KeyEvent k' ∈ rest → k'.code ≠ .A) := by
  obtain ⟨last, hlast, hquiet⟩ := key_steps_run
  exact ⟨last, hlast, keys_down_iff key_steps_fit.1 key_steps last key_steps_fit.2 hlast
    hquiet.at_rest key_set _ .A (by decide) rfl rfl⟩

end Chain

end InputSync
