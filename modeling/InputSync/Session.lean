/-
The session orchestrator (`crates/daemon/src/session.rs`): the capture drain
loop of the server, its handling of peers, and the inbound loop both sides
run.

`drain_event` is one iteration of `drain_capture`, `handle_peer_event` one of
`handle_peer_events_server`, and `inbound_step` one of `inbound_loop`. Each
returns what the iteration does to the outside as a list: messages accepted
by an outbound channel and calls on the capture for the server, calls on the
injector and the managers for the receiving side. Whether a channel accepts a
message is the environment's choice, so it is an argument.

Here the iterations of the two server tasks alternate as wholes;
`SessionTasks` splits them at every lock and every await.
-/
import InputSync.Edge
import InputSync.Message

set_option autoImplicit false

namespace InputSync

/-! ## The capture drain loop

The actions of an iteration are data: sends, warps and calls on the capture, in the
order of the source. -/

/-- What the session uses of a `PeerHandle`: its peer, and which outbound
channel it sends on. -/
structure PeerHandle where
  peer_id : PeerId
  outbound : Nat
deriving DecidableEq

/-- What the drain loop does to the outside. -/
inductive Action
  | send (peer : PeerHandle) (msg : Message)
  | warp_cursor (pos : Point)
  | set_capturing (on : Bool)
deriving DecidableEq

/-- The capture's flag after an action. -/
def Action.capturing (flag : Bool) : Action → Bool
  | .set_capturing on => on
  | _ => flag

/-- The state the two server tasks share, with the drain loop's own
`last_mouse` and the flag behind `Capture::set_capturing`. -/
structure Server where
  edge : EdgeDetector
  last_mouse : Option Point
  peers : List PeerHandle
  capturing : Bool
deriving DecidableEq

/-- `spawn_server` before any event: no peers, a paused capture. -/
def Server.new (local_screen : ScreenId) (w h : Int32) (layout : ScreenLayout) : Server :=
  { edge := .new local_screen w h layout, last_mouse := none, peers := [], capturing := false }

/-- `is_emergency`: Escape goes down with Ctrl, Alt and Shift held, according to the
event itself. -/
def is_emergency : InputEvent → Bool
  | .Key k =>
    k.state == .Pressed && k.code == .Escape && k.modifiers.contains .CTRL &&
      k.modifiers.contains .ALT && k.modifiers.contains .SHIFT
  | _ => false

/-- Enqueue on the channel of `peer`; a failure is dropped. -/
def enqueue (peer : Option PeerHandle) (accepts : Message → Bool) (msg : Message) : List Action :=
  match peer with
  | some peer => if accepts msg then [.send peer msg] else []
  | none => []

/-- `apply_decision`: the calls in the order of the source, to the first of the peers.
-/
def apply_decision (decision : RouteDecision) (peers : List PeerHandle)
    (accepts : Message → Bool) : List Action :=
  match decision with
  | .Stay => []
  | .EnterRemote _ entry local_warp modifiers =>
    enqueue peers.head? accepts (.ScreenEnter entry.x entry.y modifiers)
      ++ [.warp_cursor local_warp, .set_capturing true]
  | .LeaveRemote screen =>
    enqueue peers.head? accepts (.ScreenLeave screen.id)
      ++ enqueue peers.head? accepts (.ModifierSync .empty) ++ [.set_capturing false]

/-- The message an event routed to the peer becomes, with the position to
remember. A move is sent as the distance from the last position, and not at
all when that is zero. -/
def forward_event (last_mouse : Option Point) (event : InputEvent) :
    Option Point × Option Message :=
  match event with
  | .Mouse (.Move x y) =>
    let cur : Point := ⟨x, y⟩
    let d : Point := match last_mouse with
      | some prev => ⟨cur.x - prev.x, cur.y - prev.y⟩
      | none => ⟨0, 0⟩
    (some cur,
      if d.x = 0 ∧ d.y = 0 then none
      else some (Message.from_input (.Mouse (.MoveRelative d.x d.y))))
  | _ => (last_mouse, some (Message.from_input event))

/-- The position remembered after an event that stays local. -/
def track_local (last_mouse : Option Point) (event : InputEvent) : Option Point :=
  match event with
  | .Mouse (.Move x y) => some ⟨x, y⟩
  | _ => last_mouse

namespace Server

/-- The flag after the actions of one iteration. -/
def act (self : Server) (actions : List Action) : Server :=
  { self with capturing := actions.foldl Action.capturing self.capturing }

/-- The end of an iteration: the event goes to the first peer, or only leaves
its position behind. -/
def forward (self : Server) (event : InputEvent) (forward : ForwardTo)
    (accepts : Message → Bool) : Server × List Action :=
  match forward with
  | .Remote =>
    match self.peers.head? with
    | some peer =>
      let r := forward_event self.last_mouse event
      ({ self with last_mouse := r.1 }, (r.2.map (enqueue (some peer) accepts)).getD [])
    | none => (self, [])
  | .Local => ({ self with last_mouse := track_local self.last_mouse event }, [])

/-- One iteration of `drain_capture`. -/
def drain_event (self : Server) (event : InputEvent) (accepts : Message → Bool) :
    Server × List Action :=
  if is_emergency event then
    let r := self.edge.force_local
    let actions := apply_decision r.2 self.peers accepts
    ({ self with edge := r.1, last_mouse := none }.act actions, actions)
  else
    let r := self.edge.observe event
    let actions := apply_decision r.2.1 self.peers accepts
    let fw := ({ self with edge := r.1 }.act actions).forward event r.2.2 accepts
    (fw.1, actions ++ fw.2)

end Server

/-! ## Peers

The other task of the session, on the state both share. -/

/-- `ServerEvent`: a connection is up, or gone. -/
inductive ServerEvent
  | Connected (handle : PeerHandle)
  | Disconnected (peer_id : PeerId)
deriving DecidableEq

/-- An entry of `DaemonState.peers`, with its key. -/
structure TrackedPeer where
  peer_id : PeerId
deriving DecidableEq

/-- What the daemon's list keeps of a handle. -/
def PeerHandle.track (self : PeerHandle) : TrackedPeer := ⟨self.peer_id⟩

/-- One iteration of `handle_peer_events_server`, as far as the shared state
goes. -/
def Server.handle_peer_event (self : Server) : ServerEvent → Server
  | .Connected handle =>
    { self with
      peers := self.peers ++ [handle]
      edge := self.edge.set_auto_peer (some ⟨1⟩) }
  | .Disconnected peer_id =>
    let peers := self.peers.filter (fun p => p.peer_id ≠ peer_id)
    { self with
      peers
      edge := if peers.isEmpty then self.edge.set_auto_peer none else self.edge }

/-- What can happen to the server session: an event is captured (and the
channels accept what `accepts` says during its iteration), or a peer comes or
goes. -/
inductive ServerInput
  | captured (event : InputEvent) (accepts : Message → Bool)
  | peer (event : ServerEvent)

/-- One input of the session, handled in one piece. -/
def Server.step (self : Server) : ServerInput → Server × List Action
  | .captured event accepts => self.drain_event event accepts
  | .peer event => (self.handle_peer_event event, [])

/-! ## The capture flag

The flag follows the decisions, so it follows the route. -/

/-- Sending does not touch the capture's flag. -/
theorem enqueue_capturing (flag : Bool) (peer : Option PeerHandle) (accepts : Message → Bool)
    (msg : Message) : (enqueue peer accepts msg).foldl Action.capturing flag = flag := by
  unfold enqueue
  split
  · split <;> rfl
  · rfl

/-- What an enqueue sends is its message. -/
theorem mem_enqueue (peer : Option PeerHandle) (accepts : Message → Bool) (p : PeerHandle)
    (m msg : Message) (h : Action.send p msg ∈ enqueue peer accepts m) : msg = m := by
  unfold enqueue at h
  split at h
  · split at h
    · exact (Action.send.inj (List.mem_singleton.mp h)).2
    · cases h
  · cases h

/-- Only a transition touches the flag, and it sets it to the new route. -/
theorem apply_decision_capturing (flag : Bool) (decision : RouteDecision)
    (peers : List PeerHandle) (accepts : Message → Bool) :
    (apply_decision decision peers accepts).foldl Action.capturing flag
      = match decision with
        | .Stay => flag
        | .EnterRemote .. => true
        | .LeaveRemote _ => false := by
  cases decision <;>
    simp [apply_decision, List.foldl_append, enqueue_capturing, Action.capturing]

namespace Server

/-- The end of an iteration touches `last_mouse` only. -/
theorem forward_frame (self : Server) (event : InputEvent) (fw : ForwardTo)
    (accepts : Message → Bool) :
    (self.forward event fw accepts).1.edge = self.edge ∧
      (self.forward event fw accepts).1.peers = self.peers ∧
      (self.forward event fw accepts).1.capturing = self.capturing := by
  unfold forward
  split
  · split <;> exact ⟨rfl, rfl, rfl⟩
  · exact ⟨rfl, rfl, rfl⟩

/-- The capture swallows input exactly while the route is remote. -/
def Lockstep (self : Server) : Prop := self.capturing = true ↔ self.edge.route ≠ .Local

/-- One iteration of the drain loop restores the lockstep, whichever way it
goes. -/
theorem drain_event_lockstep (self : Server) (event : InputEvent) (accepts : Message → Bool)
    (h : self.Lockstep) : (self.drain_event event accepts).1.Lockstep := by
  unfold Lockstep at *
  -- the emergency and the detector are the two sources of decisions; each changes the
  -- route and the flag together or neither
  by_cases hem : is_emergency event
  · simp only [drain_event, if_pos hem, act, apply_decision_capturing]
    unfold EdgeDetector.force_local
    cases hroute : self.edge.route with
    | Local => simpa [hroute] using h
    | Remote screen => simp
  · simp only [drain_event, if_neg hem]
    obtain ⟨hedge, -, hflag⟩ := ({ self with edge := (self.edge.observe event).1 }.act
      (apply_decision (self.edge.observe event).2.1 self.peers accepts)).forward_frame event
        (self.edge.observe event).2.2 accepts
    rw [hedge, hflag]
    simp only [act, apply_decision_capturing]
    rcases self.edge.observe_cases event with
      ⟨x, y, side, screen, -, -, -, heq⟩ | ⟨-, hroute, hrest⟩
    · simp [heq]
    · simpa only [hroute, hrest] using h

/-- Peers coming and going move neither the route nor the flag. -/
theorem handle_peer_event_frame (self : Server) (event : ServerEvent) :
    (self.handle_peer_event event).edge.route = self.edge.route ∧
      (self.handle_peer_event event).capturing = self.capturing := by
  unfold handle_peer_event
  split
  · exact ⟨rfl, rfl⟩
  · refine ⟨?_, rfl⟩
    simp only [EdgeDetector.set_auto_peer]
    split <;> rfl

/-- Every input keeps route and flag in step. An event of a peer touches neither. -/
theorem step_lockstep (self : Server) (input : ServerInput) (h : self.Lockstep) :
    (self.step input).1.Lockstep := by
  cases input with
  | captured event accepts => exact self.drain_event_lockstep event accepts h
  | peer event =>
      obtain ⟨hroute, hflag⟩ := self.handle_peer_event_frame event
      unfold Lockstep
      rw [step, hroute, hflag]
      exact h

end Server

/-- **Routing and capture in lockstep.** From a fresh detector, whatever is
called on it: transitions enter at even positions and leave at odd ones, the
screen left is the one just entered, the route is what the last transition
says, and an event is forwarded exactly when the route is remote after it.
From a fresh server, whatever is captured and whoever comes or goes: the
capture flag is the route. -/
theorem routing_lockstep (local_screen : ScreenId) (w h : Int32) (layout : ScreenLayout) :
    (∀ ops : List EdgeOp,
      let r := runOut EdgeDetector.call (.new local_screen w h layout) ops
      let ds := transitions r.2
      (∀ i d, ds[i]? = some d → i % 2 = 0 →
        ∃ screen entry warp m, d = .EnterRemote screen entry warp m) ∧
      (∀ i d, ds[i]? = some d → i % 2 = 1 →
        ∃ screen entry warp m,
          ds[i - 1]? = some (.EnterRemote screen entry warp m) ∧ d = .LeaveRemote screen) ∧
      r.1.route = route_after ds.getLast? ∧
      (∀ event, (r.1.observe event).2.2 = .Remote ↔ (r.1.observe event).1.route ≠ .Local)) ∧
    (∀ ins : List ServerInput,
      let s := (runOut Server.step (.new local_screen w h layout) ins).1
      s.capturing = true ↔ s.edge.route ≠ .Local) := by
  constructor
  · intro ops r ds
    have halt : Alternating r.1.route ds :=
      EdgeDetector.calls_alternating local_screen w h layout ops
    exact ⟨fun i d hd heven => halt.enter_at i d hd heven,
      fun i d hd hodd => halt.leave_at i d hd hodd, halt.route_eq,
      fun event => r.1.observe_forward event⟩
  · intro ins
    have hnew : (Server.new local_screen w h layout).Lockstep := by
      simp [Server.Lockstep, Server.new, EdgeDetector.new]
    exact runOut_invariant Server.step (fun s _ => s.Lockstep) _ ins hnew
      (fun s _ input _ hs => s.step_lockstep input hs)

/-! ## The inbound loop

What a message makes a machine do. Server and client run the same loop, and a flag says
which of the two it is. -/

/-- Where a call on the injector comes from: the arm of `inbound_loop`, or
`resync_modifiers`. -/
inductive InjectSite
  | input | screen_enter | screen_leave | resync
deriving DecidableEq

/-- What the inbound loop does with a message. -/
inductive Effect
  | send (msg : Message)
  | inject (site : InjectSite) (event : InputEvent)
  | release_all_modifiers (site : InjectSite)
  | clipboard (msg : Message)
  | file_offer (offer : FileOffer)
  | file_chunk (chunk : FileChunk)
deriving DecidableEq

/-- `resync_modifiers`: everything is released, and the left key of each flag pressed
again. -/
def resync_modifiers (target : ModifierState) : List Effect :=
  .release_all_modifiers .resync ::
    ([(ModifierState.SHIFT, KeyCode.LeftShift), (.CTRL, .LeftCtrl), (.ALT, .LeftAlt),
        (.SUPER, .LeftSuper)].filter (fun m => target.contains m.1)).map
      (fun m => .inject .resync (.Key ⟨m.2, .Pressed, target, none⟩))

/-- One iteration of `inbound_loop`. -/
def inbound_step (is_client : Bool) : Message → List Effect
  | .Ping nonce timestamp_ms => [.send (.Pong nonce timestamp_ms)]
  | .Pong .. => []
  | .MouseMove x y => if is_client then [.inject .input (.Mouse (.Move x y))] else []
  | .MouseMoveRelative dx dy =>
    if is_client then [.inject .input (.Mouse (.MoveRelative dx dy))] else []
  | .MouseButton e | .MouseScroll e => if is_client then [.inject .input (.Mouse e)] else []
  | .KeyEvent k => if is_client then [.inject .input (.Key k)] else []
  | .ScreenEnter x y modifiers =>
    if is_client then
      .inject .screen_enter (.Mouse (.Move x y)) :: resync_modifiers modifiers
    else []
  | .ScreenLeave _ => if is_client then [.release_all_modifiers .screen_leave] else []
  | .ModifierSync m => if is_client then resync_modifiers m else []
  | .ClipboardFormats formats hash => [.clipboard (.ClipboardFormats formats hash)]
  | .ClipboardRequest format => [.clipboard (.ClipboardRequest format)]
  | .ClipboardData payload => [.clipboard (.ClipboardData payload)]
  | .FileOfferStart offer => [.file_offer offer]
  | .FileChunk chunk => [.file_chunk chunk]
  | .FileTransferCancel .. | .FileAck .. | .Goodbye _ => []
  | .Hello _ | .Welcome _ | .Error .. => []

/-- `inbound_loop` over the messages of its queue. -/
def inbound_loop (is_client : Bool) (inbound : List Message) : List Effect :=
  inbound.flatMap (inbound_step is_client)

end InputSync
