/-
End-to-end input forwarding: what the user does on the server while control
is remote, and what the client's injector is handed.

The chain is drain loop, outbound queue, `write_loop`, byte stream,
`read_loop`, inbound queue, `inbound_loop`. `read_loop_write_loop` removes the
middle of it, since every message of the drain loop is small. What is left is
a simulation between the server and the client: after any history the client
has seen as many enters as the server has made, and one leave fewer exactly
while control is remote. An iteration of the drain loop takes one of five
shapes (`drain_event_cases`), and each keeps that relation while delivering
what it should.
-/
import InputSync.Session
import InputSync.Stream
import Mathlib.Data.List.Infix

set_option autoImplicit false

namespace InputSync

open InputSync.Bincode (serialize)

/-! ## What should arrive, and what does

The record of the user's side and that of the client's, both as lists of discrete events
with the number of the episode they belong to. -/

/-- Key, button and scroll events, as opposed to motion. -/
def discrete : InputEvent → Bool
  | .Key _ | .Mouse (.Button ..) | .Mouse (.Scroll _) => true
  | _ => false

/-- What a capture hands to the session. -/
def captured_event : InputEvent → Bool
  | .Key _ | .Mouse _ => true
  | _ => false

/-- The discrete events processed while the route was remote, other than the
emergency chord, each with the number of its episode. -/
def remote_events (self : Server) (episode : Nat) : List ServerInput → List (InputEvent × Nat)
  | [] => []
  | .peer event :: ins => remote_events (self.handle_peer_event event) episode ins
  | .captured event accepts :: ins =>
    let next := (self.drain_event event accepts).1
    let rest := remote_events next
      (if self.edge.route = .Local ∧ next.edge.route ≠ .Local then episode + 1 else episode) ins
    if discrete event ∧ self.edge.route ≠ .Local ∧ ¬ is_emergency event then
      (event, episode) :: rest
    else rest

/-- The messages on the channel of `p`. -/
def sent_to (p : PeerHandle) (actions : List Action) : List Message :=
  actions.filterMap (fun a =>
    match a with
    | .send peer msg => if peer = p then some msg else none
    | _ => none)

/-- The discrete events handed to the injector from an arm of the inbound
loop, each with the number of entry moves and of leave releases before it,
when `enters` and `leaves` came earlier still. -/
def delivered (enters leaves : Nat) : List Effect → List (InputEvent × Nat × Nat)
  | [] => []
  | .inject .screen_enter _ :: es => delivered (enters + 1) leaves es
  | .release_all_modifiers .screen_leave :: es => delivered enters (leaves + 1) es
  | .inject .input event :: es =>
    if discrete event then (event, enters, leaves) :: delivered enters leaves es
    else delivered enters leaves es
  | _ :: es => delivered enters leaves es

/-- Both projections distribute over concatenation, so a run can be taken apart
iteration by iteration. -/
@[simp] theorem sent_to_append (p : PeerHandle) (as bs : List Action) :
    sent_to p (as ++ bs) = sent_to p as ++ sent_to p bs := List.filterMap_append ..

/-- The inbound loop handles one message after the other. -/
@[simp] theorem inbound_loop_append (is_client : Bool) (ms ns : List Message) :
    inbound_loop is_client (ms ++ ns) = inbound_loop is_client ms ++ inbound_loop is_client ns :=
  List.flatMap_append ..

/-- A resynchronisation delivers nothing: its calls are its own. -/
theorem delivered_resync (enters leaves : Nat) (m : ModifierState) (es : List Effect) :
    delivered enters leaves (resync_modifiers m ++ es) = delivered enters leaves es := by
  simp only [resync_modifiers, List.cons_append, delivered]
  induction ([(ModifierState.SHIFT, KeyCode.LeftShift), (.CTRL, .LeftCtrl), (.ALT, .LeftAlt),
      (.SUPER, .LeftSuper)].filter (fun f => m.contains f.1)) with
  | nil => rfl
  | cons f fs ih => simpa only [List.map_cons, List.cons_append, delivered] using ih

/-- The message of a forwarded captured event delivers the event if it is
discrete, and nothing else. -/
theorem delivered_from_input (enters leaves : Nat) (event : InputEvent) (es : List Effect)
    (hcap : captured_event event) :
    delivered enters leaves (inbound_step true (Message.from_input event) ++ es)
      = (if discrete event then [(event, enters, leaves)] else [])
          ++ delivered enters leaves es := by
  match event with
  | .Key k => rfl
  | .Mouse (.Move x y) | .Mouse (.MoveRelative dx dy) | .Mouse (.Button b st) | .Mouse (.Scroll d) =>
      rfl

/-! ## One iteration of the drain loop

The five shapes, each with what it sends and the route it leaves. -/

/-- The messages of a move: none, or its distance. -/
def Motion (msgs : List Message) : Prop :=
  ∀ msg ∈ msgs, ∃ dx dy, msg = Message.from_input (.Mouse (.MoveRelative dx dy))

/-- The shapes of an iteration that starts in a route: what it sends to the
first peer, and the route it leaves. -/
inductive Iteration (event : InputEvent) : Route → List Message → Route → Prop
  | stay_local : Iteration event .Local [] .Local
  | enter (x y : Int32) (m : ModifierState) (move : List Message) (screen : ScreenId) :
      ¬ discrete event → Motion move →
      Iteration event .Local (.ScreenEnter x y m :: move) (.Remote screen)
  | leave (screen : ScreenId) : is_emergency event →
      Iteration event (.Remote screen) [.ScreenLeave screen.id, .ModifierSync .empty] .Local
  | motion (move : List Message) (screen : ScreenId) : ¬ discrete event → Motion move →
      Iteration event (.Remote screen) move (.Remote screen)
  | pass (screen : ScreenId) : ¬ is_emergency event →
      Iteration event (.Remote screen) [Message.from_input event] (.Remote screen)

/-- An open channel takes the message. -/
theorem sent_to_enqueue (p : PeerHandle) (accepts : Message → Bool) (msg : Message)
    (h : accepts msg) : sent_to p (enqueue (some p) accepts msg) = [msg] := by
  simp [enqueue, h, sent_to]

/-- What a decision sends to the first peer: an enter, or a leave and a resync, or
nothing. -/
theorem sent_to_decision (p : PeerHandle) (peers : List PeerHandle) (accepts : Message → Bool)
    (decision : RouteDecision) (hp : peers.head? = some p) (hacc : ∀ msg, accepts msg) :
    sent_to p (apply_decision decision peers accepts)
      = match decision with
        | .Stay => []
        | .EnterRemote _ entry _ m => [.ScreenEnter entry.x entry.y m]
        | .LeaveRemote screen => [.ScreenLeave screen.id, .ModifierSync .empty] := by
  cases decision with
  | Stay => rfl
  | EnterRemote screen entry warp m =>
      rw [apply_decision, hp, sent_to_append, sent_to_enqueue p accepts _ (hacc _)]
      rfl
  | LeaveRemote screen =>
      rw [apply_decision, hp, sent_to_append, sent_to_append, sent_to_enqueue p accepts _ (hacc _),
        sent_to_enqueue p accepts _ (hacc _)]
      rfl

/-- A forwarded move. -/
theorem forward_move (self : Server) (p : PeerHandle) (accepts : Message → Bool) (x y : Int32)
    (hp : self.peers.head? = some p) (hacc : ∀ msg, accepts msg) :
    Motion (sent_to p (self.forward (.Mouse (.Move x y)) .Remote accepts).2) := by
  simp only [Server.forward, hp, forward_event]
  split_ifs with hzero
  · intro msg hmsg
    cases hmsg
  · intro msg hmsg
    rw [Option.map_some, Option.getD_some, sent_to_enqueue p accepts _ (hacc _),
      List.mem_singleton] at hmsg
    exact ⟨_, _, hmsg⟩

/-- Anything else that is forwarded goes unchanged. -/
theorem forward_not_move (self : Server) (p : PeerHandle) (accepts : Message → Bool)
    (event : InputEvent) (hp : self.peers.head? = some p) (hacc : ∀ msg, accepts msg)
    (hmove : ∀ x y, event ≠ .Mouse (.Move x y)) :
    sent_to p (self.forward event .Remote accepts).2 = [Message.from_input event] := by
  have hfe : forward_event self.last_mouse event
      = (self.last_mouse, some (Message.from_input event)) := by
    unfold forward_event
    split
    · exact absurd rfl (hmove _ _)
    · rfl
  simp only [Server.forward, hp, hfe, Option.map_some, Option.getD_some]
  exact sent_to_enqueue p accepts _ (hacc _)

/-- **The case split of an iteration.** -/
theorem drain_event_cases (self : Server) (p : PeerHandle) (accepts : Message → Bool)
    (event : InputEvent) (hp : self.peers.head? = some p) (hacc : ∀ msg, accepts msg) :
    Iteration event self.edge.route (sent_to p (self.drain_event event accepts).2)
      (self.drain_event event accepts).1.edge.route := by
  by_cases hem : is_emergency event
  · simp only [Server.drain_event, if_pos hem, Server.act]
    rw [sent_to_decision p _ accepts _ hp hacc]
    unfold EdgeDetector.force_local
    cases hroute : self.edge.route with
    | Local =>
        simp only [hroute]
        exact .stay_local
    | Remote screen => exact .leave screen hem
  · simp only [Server.drain_event, if_neg hem, sent_to_append]
    -- the decision is carried out first, and changes neither route nor peers
    set mid := { self with edge := (self.edge.observe event).1 }.act
      (apply_decision (self.edge.observe event).2.1 self.peers accepts) with hmid
    have hmidp : mid.peers.head? = some p := hp
    rw [(mid.forward_frame event _ accepts).1, sent_to_decision p _ accepts _ hp hacc]
    show Iteration event self.edge.route _ (self.edge.observe event).1.route
    rcases self.edge.observe_cases event with
      ⟨x, y, side, screen, rfl, hroute, -, heq⟩ | ⟨-, hroute, hrest⟩
    · rw [hroute]
      simp only [heq]
      exact .enter _ _ _ _ screen (by simp [discrete]) (forward_move mid p accepts x y hmidp hacc)
    · rw [hroute, hrest]
      cases hr : self.edge.route with
      | Local => exact .stay_local
      | Remote screen =>
          show Iteration event _ (sent_to p (mid.forward event .Remote accepts).2) _
          by_cases hmove : ∃ x y, event = .Mouse (.Move x y)
          · obtain ⟨x, y, rfl⟩ := hmove
            exact .motion _ screen (by simp [discrete]) (forward_move mid p accepts x y hmidp hacc)
          · rw [forward_not_move mid p accepts event hmidp hacc (fun x y h => hmove ⟨x, y, h⟩)]
            exact .pass screen hem

/-! ## The client's side of an iteration

Each shape, handled by the inbound loop. -/

/-- Episodes still open in a route. -/
def open_episodes : Route → Nat
  | .Local => 0
  | .Remote _ => 1

/-- Motion delivers no discrete event, so moves can come anywhere between. -/
theorem delivered_motion (enters leaves : Nat) (move : List Message) (es : List Effect)
    (h : Motion move) :
    delivered enters leaves (inbound_loop true move ++ es) = delivered enters leaves es := by
  induction move with
  | nil => rfl
  | cons msg move ih =>
      obtain ⟨dx, dy, rfl⟩ := h msg List.mem_cons_self
      exact ih (fun m hm => h m (List.mem_cons_of_mem _ hm))

/-- **One iteration, seen by the client.** It opens or closes an episode when
the server does, and in between is handed exactly what the server passed on,
inside the current episode. -/
theorem delivered_iteration (event : InputEvent) (route route' : Route) (msgs : List Message)
    (enters leaves : Nat) (es : List Effect) (hiter : Iteration event route msgs route')
    (hcap : captured_event event) (hopen : leaves + open_episodes route = enters) :
    ∃ enters' leaves',
      enters' = (if route = .Local ∧ route' ≠ .Local then enters + 1 else enters) ∧
      leaves' + open_episodes route' = enters' ∧
      delivered enters leaves (inbound_loop true msgs ++ es)
        = (if discrete event ∧ route ≠ .Local ∧ ¬ is_emergency event then
            [(event, enters, enters - 1)] else [])
          ++ delivered enters' leaves' es := by
  -- entering and leaving are the only iterations that count an episode; within one the
  -- event is passed on or becomes a motion
  cases hiter with
  | stay_local => exact ⟨enters, leaves, by simp, hopen, by simp [inbound_loop]⟩
  | enter x y m move screen hdisc hmove =>
      refine ⟨enters + 1, leaves, by simp, by simp only [open_episodes] at *; omega, ?_⟩
      have hloop : inbound_loop true (.ScreenEnter x y m :: move)
          = .inject .screen_enter (.Mouse (.Move x y)) ::
              (resync_modifiers m ++ inbound_loop true move) := rfl
      rw [hloop, List.cons_append, delivered, List.append_assoc, delivered_resync,
        delivered_motion _ _ _ _ hmove]
      simp
  | leave screen hem =>
      refine ⟨enters, leaves + 1, by simp, by simp only [open_episodes] at *; omega, ?_⟩
      have hloop : inbound_loop true [.ScreenLeave screen.id, .ModifierSync .empty]
          = .release_all_modifiers .screen_leave :: resync_modifiers .empty := rfl
      rw [hloop, List.cons_append, delivered, delivered_resync]
      simp [hem]
  | motion move screen hdisc hmove =>
      refine ⟨enters, leaves, by simp, hopen, ?_⟩
      rw [delivered_motion _ _ _ _ hmove]
      simp [hdisc]
  | pass screen hem =>
      refine ⟨enters, leaves, by simp, hopen, ?_⟩
      -- an episode is open, so one more was entered than was left
      have hleaves : leaves = enters - 1 := by
        simp only [open_episodes] at hopen
        omega
      have hloop : inbound_loop true [Message.from_input event]
          = inbound_step true (Message.from_input event) := List.flatMap_singleton ..
      rw [hloop, delivered_from_input _ _ _ _ hcap, hleaves]
      simp [hem]

/-- The simulation, from any state of the server: while the first peer stays
`p`, the client's record follows the server's. -/
theorem delivered_run (p : PeerHandle) (ins : List ServerInput) (self : Server)
    (enters leaves : Nat)
    (hfirst : ∀ pre suf, ins = pre ++ suf →
      (runOut Server.step self pre).1.peers.head? = some p)
    (hins : ∀ event accepts, .captured event accepts ∈ ins →
      captured_event event ∧ ∀ msg, accepts msg)
    (hopen : leaves + open_episodes self.edge.route = enters) :
    delivered enters leaves (inbound_loop true (sent_to p (runOut Server.step self ins).2))
      = (remote_events self enters ins).map (fun r => (r.1, r.2, r.2 - 1)) := by
  induction ins generalizing self enters leaves with
  | nil => rfl
  | cons input ins ih =>
      have hrest : ∀ pre suf, ins = pre ++ suf →
          (runOut Server.step (self.step input).1 pre).1.peers.head? = some p := by
        intro pre suf hsplit
        exact hfirst (input :: pre) suf (by rw [hsplit, List.cons_append])
      have hins' : ∀ event accepts, .captured event accepts ∈ ins →
          captured_event event ∧ ∀ msg, accepts msg :=
        fun event accepts hmem => hins event accepts (List.mem_cons_of_mem _ hmem)
      cases input with
      | peer event =>
          rw [runOut_cons, remote_events]
          refine ih _ enters leaves hrest hins' ?_
          -- connects and disconnects send nothing and leave the route
          rw [Server.step, (self.handle_peer_event_frame event).1]
          exact hopen
      | captured event accepts =>
          obtain ⟨hcap, hacc⟩ := hins event accepts List.mem_cons_self
          have hp : self.peers.head? = some p := hfirst [] _ rfl
          obtain ⟨enters', leaves', henters, hopen', hdel⟩ :=
            delivered_iteration event _ _ _ enters leaves
              (inbound_loop true
                (sent_to p (runOut Server.step (self.drain_event event accepts).1 ins).2))
              (drain_event_cases self p accepts event hp hacc) hcap hopen
          have hih := ih (self.drain_event event accepts).1 enters' leaves' hrest hins' hopen'
          rw [runOut_cons, sent_to_append, inbound_loop_append, Server.step, hdel, remote_events]
          rw [hih, ← henters]
          split <;> simp

/-! ## The whole chain

The messages are small, so writer, stream and reader pass them on unchanged. -/

/-- What is forwarded is an input event on the wire. With the two lemmas that follow,
this holds of everything the drain loop sends. -/
theorem forward_event_sends (last_mouse : Option Point) (event : InputEvent) (msg : Message)
    (h : (forward_event last_mouse event).2 = some msg) : ∃ ev, msg = Message.from_input ev := by
  unfold forward_event at h
  split at h
  · dsimp only at h
    split_ifs at h
    exact ⟨_, (Option.some.inj h).symm⟩
  · exact ⟨event, (Option.some.inj h).symm⟩

/-- So is what a decision sends, -/
theorem apply_decision_sends (d : RouteDecision) (peers : List PeerHandle)
    (accepts : Message → Bool) (p : PeerHandle) (msg : Message)
    (h : Action.send p msg ∈ apply_decision d peers accepts) :
    ∃ ev, msg = Message.from_input ev := by
  cases d with
  | Stay => cases h
  | EnterRemote screen entry warp m =>
      have hmem : Action.send p msg ∈ enqueue peers.head? accepts
          (.ScreenEnter entry.x entry.y m) := by simpa [apply_decision] using h
      exact ⟨.ScreenEnter entry.x entry.y m, mem_enqueue _ _ _ _ _ hmem⟩
  | LeaveRemote screen =>
      have hmem : Action.send p msg ∈ enqueue peers.head? accepts (.ScreenLeave screen.id) ∨
          Action.send p msg ∈ enqueue peers.head? accepts (.ModifierSync .empty) := by
        simpa [apply_decision] using h
      rcases hmem with hmem | hmem
      · exact ⟨.ScreenLeave screen.id, mem_enqueue _ _ _ _ _ hmem⟩
      · exact ⟨.ModifierSync .empty, mem_enqueue _ _ _ _ _ hmem⟩

/-- and what the forwarding of an event sends. -/
theorem forward_sends (self : Server) (event : InputEvent) (fw : ForwardTo)
    (accepts : Message → Bool) (p : PeerHandle) (msg : Message)
    (h : Action.send p msg ∈ (self.forward event fw accepts).2) :
    ∃ ev, msg = Message.from_input ev := by
  unfold Server.forward at h
  split at h
  · split at h
    · dsimp only at h
      cases hfe : (forward_event self.last_mouse event).2 with
      | none =>
          rw [hfe] at h
          cases h
      | some m =>
          rw [hfe, Option.map_some, Option.getD_some] at h
          rw [mem_enqueue _ _ _ _ _ h]
          exact forward_event_sends _ _ _ hfe
    · cases h
  · cases h

/-- Everything the drain loop sends is an input event on the wire. -/
theorem drain_event_sends (self : Server) (event : InputEvent) (accepts : Message → Bool)
    (p : PeerHandle) (msg : Message)
    (h : Action.send p msg ∈ (self.drain_event event accepts).2) :
    ∃ ev, msg = Message.from_input ev := by
  unfold Server.drain_event at h
  split at h
  · exact apply_decision_sends _ _ _ _ _ h
  · rcases List.mem_append.mp h with h | h
    · exact apply_decision_sends _ _ _ _ _ h
    · exact forward_sends _ _ _ _ _ _ h

/-- So all of it fits in frames. -/
theorem sent_fits (p : PeerHandle) (ins : List ServerInput) (self : Server) :
    ∀ m ∈ sent_to p (runOut Server.step self ins).2,
      (serialize m).length ≤ MAX_PAYLOAD_SIZE.toNat := by
  induction ins generalizing self with
  | nil => intro m hm; cases hm
  | cons input ins ih =>
      intro m hm
      rw [runOut_cons, sent_to_append, List.mem_append] at hm
      rcases hm with hm | hm
      -- only an event that was captured is sent to a peer, and those are small
      · obtain ⟨a, ha, hmatch⟩ := List.mem_filterMap.mp hm
        cases input with
        | peer event => cases ha
        | captured event accepts =>
            cases a with
            | send q msg =>
                obtain ⟨ev, rfl⟩ := drain_event_sends self event accepts q msg ha
                have hm' : Message.from_input ev = m := by
                  dsimp only at hmatch
                  split_ifs at hmatch
                  exact Option.some.inj hmatch
                rw [← hm']
                exact from_input_fits ev
            | warp_cursor pos => cases hmatch
            | set_capturing on => cases hmatch
      · exact ih _ m hm

/-- **Input is forwarded exactly once and in order.** A fresh server connects
`p`, and from then on captures key and mouse events while other peers may come
and go, `p` staying first and its channel accepting everything. Through the
writer, the stream, the reader and the client's inbound loop, the injector is
handed exactly the discrete events processed while the route was remote, the
emergency chord excepted, unchanged and in order; and each one comes after the
entry move of its episode, its `r.2`-th, and before the release of that
episode's leave. -/
theorem input_forwarded_once (local_screen : ScreenId) (w h : Int32) (layout : ScreenLayout)
    (p : PeerHandle) (ins : List ServerInput)
    (hfirst : ∀ pre suf, ins = pre ++ suf →
      (runOut Server.step ((Server.new local_screen w h layout).handle_peer_event (.Connected p))
        pre).1.peers.head? = some p)
    (hins : ∀ event accepts, .captured event accepts ∈ ins →
      captured_event event ∧ ∀ msg, accepts msg) :
    let server := (Server.new local_screen w h layout).handle_peer_event (.Connected p)
    let outbound := sent_to p (runOut Server.step server ins).2
    delivered 0 0 (inbound_loop true (read_loop (write_loop outbound)))
      = (remote_events server 0 ins).map (fun r => (r.1, r.2, r.2 - 1)) := by
  intro server outbound
  rw [read_loop_write_loop outbound (sent_fits p ins server)]
  exact delivered_run p ins server 0 0 hfirst hins rfl

/-- The theorem at a crossing on the left edge, a key pressed on the far
screen, and the chord that brings control back. -/
theorem input_forwarded_once_key :
    let p : PeerHandle := ⟨⟨Vector.replicate 16 7⟩, 0⟩
    let key : InputEvent := .Key ⟨.A, .Pressed, .SHIFT, some 65⟩
    let chord : InputEvent := .Key ⟨.Escape, .Pressed, ⟨7⟩, none⟩
    let ins : List ServerInput := [.captured (.Mouse (.Move 0 300)) (fun _ => true),
      .captured key (fun _ => true), .captured chord (fun _ => true)]
    let server := (Server.new ⟨0⟩ 1920 1080 .default).handle_peer_event (.Connected p)
    delivered 0 0 (inbound_loop true (read_loop (write_loop
      (sent_to p (runOut Server.step server ins).2)))) = [(key, 1, 0)] := by
  intro p key chord ins server
  have hprefix : ∀ pre ∈ ins.inits, (runOut Server.step server pre).1.peers.head? = some p := by
    decide
  refine (input_forwarded_once ⟨0⟩ 1920 1080 .default p ins
    (fun pre suf h => hprefix pre ((List.mem_inits _ _).mpr ⟨suf, h.symm⟩)) ?_).trans ?_
  · intro event accepts hmem
    simp only [ins, List.mem_cons, ServerInput.captured.injEq, List.not_mem_nil, or_false] at hmem
    rcases hmem with ⟨rfl, rfl⟩ | ⟨rfl, rfl⟩ | ⟨rfl, rfl⟩ <;> exact ⟨rfl, fun _ => rfl⟩
  · decide

end InputSync
