/-
Forwarded motion (`drain_capture`): how far the moves sent to the peer add up.

While control is remote, a move is sent as its distance from the position
remembered last, so what is sent in an episode telescopes: it is the change of
the remembered position (`runOut_potential`). What is left is to say where that
position is at both ends. It is the last move since the last emergency
(`drain_event_last_mouse`), whichever way the moves went.

A relative move that is captured is passed on as it is and moves no position,
so it is added to the sum.
-/
import InputSync.Forward
import Mathlib.Algebra.Group.Int.Defs
import Mathlib.Algebra.Group.Prod

set_option autoImplicit false

namespace InputSync

/-! ## Positions and distances

Integers from here on; `Fits` is the only place where the machine's arithmetic can make
a difference. -/

/-- The coordinates as integers. -/
def Point.coords (self : Point) : Int × Int := (self.x.toInt, self.y.toInt)

/-- The position of a move. -/
def InputEvent.position : InputEvent → Option Point
  | .Mouse (.Move x y) => some ⟨x, y⟩
  | _ => none

/-- The distance of a relative move. -/
def InputEvent.delta : InputEvent → Int × Int
  | .Mouse (.MoveRelative dx dy) => (dx.toInt, dy.toInt)
  | _ => 0

/-- How far a message moves the cursor of the client. -/
def Message.delta : Message → Int × Int
  | .MouseMoveRelative dx dy => (dx.toInt, dy.toInt)
  | _ => 0

/-- The position an input captures, if it is a move. -/
def ServerInput.position : ServerInput → Option Point
  | .captured event _ => event.position
  | .peer _ => none

/-- The distance, if it is a relative one. -/
def ServerInput.delta : ServerInput → Int × Int
  | .captured event _ => event.delta
  | .peer _ => 0

/-- The positions of the captured moves. -/
def moves (ins : List ServerInput) : List Point := ins.filterMap ServerInput.position

/-- How far the messages on the channel of `p` move the cursor. -/
def travelled (p : PeerHandle) (actions : List Action) : Int × Int :=
  ((sent_to p actions).map Message.delta).sum

/-- The difference of the positions does not overflow an `i32`. -/
def Fits (q prev : Point) : Prop :=
  (q.x - prev.x).toInt = q.x.toInt - prev.x.toInt ∧ (q.y - prev.y).toInt = q.y.toInt - prev.y.toInt

/-- What an input decides about the route. -/
def Server.decision (self : Server) : ServerInput → RouteDecision
  | .captured event _ =>
    if is_emergency event then self.edge.force_local.2 else (self.edge.observe event).2.1
  | .peer _ => .Stay

/-- An episode: `crossing` enters a remote screen, and none of `mid` leaves it. -/
structure Episode (server : Server) (crossing : ServerInput) (mid : List ServerInput) : Prop where
  enters : ∃ screen entry warp m, server.decision crossing = .EnterRemote screen entry warp m
  stays : ∀ pre input post, mid = pre ++ input :: post → ∀ screen,
    (runOut Server.step server (crossing :: pre)).1.decision input ≠ .LeaveRemote screen

/-- The position of the last local move, after an input that led to `next`. -/
def note_local (next : Server) (last : Option Point) : ServerInput → Option Point
  | .peer _ => last
  | .captured event _ =>
    if is_emergency event then none
    else
      match event.position with
      | some q => if next.edge.route = .Local then some q else last
      | none => last

/-- The position of the last move since the last emergency that was processed
while the route was local; `last` was the one before the inputs. -/
def last_local (self : Server) (last : Option Point) : List ServerInput → Option Point
  | [] => last
  | input :: ins => last_local (self.step input).1 (note_local (self.step input).1 last input) ins

/-! ## The remembered position

`last_mouse` after an iteration, whatever the route. It is remembered while control is
local as well, which is why an episode starts from the last local move. -/

/-- Only a move has a position. -/
theorem position_not_move (event : InputEvent) (h : ∀ x y, event ≠ .Mouse (.Move x y)) :
    event.position = none := by
  unfold InputEvent.position
  split
  · exact absurd rfl (h _ _)
  · rfl

/-- What is remembered after an event, forwarded or not. -/
theorem forward_last_mouse (self : Server) (event : InputEvent) (fw : ForwardTo)
    (accepts : Message → Bool) (p : PeerHandle) (hp : self.peers.head? = some p) :
    (self.forward event fw accepts).1.last_mouse = event.position.or self.last_mouse := by
  cases fw with
  -- a local move is only remembered
  | Local =>
      rw [Server.forward]
      dsimp only
      unfold track_local
      split
      · rfl
      · rename_i hmove
        rw [position_not_move event hmove, Option.none_or]
  -- a forwarded one is remembered and becomes a distance
  | Remote =>
      rw [Server.forward, hp]
      dsimp only
      unfold forward_event
      split
      · rfl
      · rename_i hmove
        rw [position_not_move event hmove, Option.none_or]

/-- What is remembered after an iteration: the emergency chord forgets, a move
is remembered, and nothing else matters. -/
theorem drain_event_last_mouse (self : Server) (event : InputEvent) (accepts : Message → Bool)
    (p : PeerHandle) (hp : self.peers.head? = some p) :
    (self.drain_event event accepts).1.last_mouse
      = if is_emergency event then none else event.position.or self.last_mouse := by
  by_cases hem : is_emergency event = true
  · rw [Server.drain_event, if_pos hem, if_pos hem]
    rfl
  · rw [Server.drain_event, if_neg hem, if_neg hem]
    exact forward_last_mouse _ event _ accepts p hp

/-- What is remembered after an input, in all cases. An event of a peer does not touch
it. -/
theorem last_mouse_step (self : Server) (input : ServerInput) (p : PeerHandle)
    (hp : self.peers.head? = some p) :
    (self.step input).1.last_mouse = match input with
      | .captured event _ =>
        if is_emergency event then none else event.position.or self.last_mouse
      | .peer _ => self.last_mouse := by
  cases input with
  | captured event accepts => exact drain_event_last_mouse self event accepts p hp
  | peer event => cases event <;> rfl

/-- Only positions of moves are remembered. -/
theorem last_mouse_mem (p : PeerHandle) (self : Server) (hnew : self.last_mouse = none)
    (ins : List ServerInput)
    (hfirst : ∀ pre suf, ins = pre ++ suf →
      (runOut Server.step self pre).1.peers.head? = some p)
    (q : Point) (hq : (runOut Server.step self ins).1.last_mouse = some q) : q ∈ moves ins := by
  -- from the end: the last position is that of the last input that has one
  induction ins using List.reverseRecOn with
  | nil =>
      rw [runOut_nil, hnew] at hq
      cases hq
  | append_singleton ins input ih =>
      have hbefore := ih (fun pre suf hsplit =>
        hfirst pre (suf ++ [input]) (by rw [hsplit, List.append_assoc]))
      rw [runOut_concat, last_mouse_step _ input p (hfirst ins [input] rfl)] at hq
      rw [moves, List.filterMap_append, List.mem_append]
      cases input with
      | peer event => exact .inl (hbefore hq)
      | captured event accepts =>
          dsimp only at hq
          -- after the emergency nothing is remembered, so it was not the last input
          split_ifs at hq
          cases hposition : event.position with
          | none =>
              rw [hposition, Option.none_or] at hq
              exact .inl (hbefore hq)
          | some r =>
              rw [hposition, Option.some_or] at hq
              obtain rfl := Option.some.inj hq
              exact .inr (List.mem_filterMap.mpr ⟨_, List.mem_singleton.mpr rfl, hposition⟩)

/-! ## The route

An episode begins with a decision to enter and lasts while nothing leaves. -/

/-- What an iteration does to the detector: it observes the event, or is forced local by
the chord. -/
theorem drain_event_edge (self : Server) (event : InputEvent) (accepts : Message → Bool) :
    (self.drain_event event accepts).1.edge
      = if is_emergency event then self.edge.force_local.1 else (self.edge.observe event).1 := by
  by_cases hem : is_emergency event = true
  · rw [Server.drain_event, if_pos hem, if_pos hem]
    rfl
  · rw [Server.drain_event, if_neg hem, if_neg hem]
    exact (Server.forward_frame _ event _ accepts).1

/-- The route follows the decisions. -/
theorem step_route (self : Server) (input : ServerInput) :
    (self.step input).1.edge.route = match self.decision input with
      | .Stay => self.edge.route
      | .EnterRemote screen _ _ _ => .Remote screen
      | .LeaveRemote _ => .Local := by
  cases input with
  | peer event => exact (self.handle_peer_event_frame event).1
  | captured event accepts =>
      rw [Server.step, drain_event_edge, Server.decision]
      by_cases hem : is_emergency event = true
      · rw [if_pos hem, if_pos hem, EdgeDetector.force_local]
        cases hroute : self.edge.route <;> simp [hroute]
      · rw [if_neg hem, if_neg hem]
        rcases self.edge.observe_cases event with
          ⟨x, y, side, screen, -, -, -, heq⟩ | ⟨-, hroute, hrest⟩
        · rw [heq]
        · rw [hroute, hrest]

/-- Only a local move enters. -/
theorem decision_enters (self : Server) (input : ServerInput) (screen : ScreenId)
    (entry warp : Point) (m : ModifierState)
    (h : self.decision input = .EnterRemote screen entry warp m) :
    self.edge.route = .Local ∧ ∃ q, input.position = some q ∧ input.delta = 0 := by
  cases input with
  | peer event => cases h
  | captured event accepts =>
      rw [Server.decision] at h
      split_ifs at h with hem
      · unfold EdgeDetector.force_local at h
        split at h <;> cases h
      · rcases self.edge.observe_cases event with
          ⟨x, y, side, s, rfl, hroute, -, -⟩ | ⟨-, -, hrest⟩
        · exact ⟨hroute, ⟨x, y⟩, rfl, rfl⟩
        · rw [hrest] at h
          cases h

/-- A captured event after which the route is remote is not the chord. -/
theorem not_emergency_of_remote (self : Server) (event : InputEvent) (accepts : Message → Bool)
    (h : (self.drain_event event accepts).1.edge.route ≠ .Local) : ¬ is_emergency event = true := by
  intro hem
  refine h ?_
  rw [drain_event_edge, if_pos hem, EdgeDetector.force_local]
  split
  · assumption
  · rfl

/-- A captured event after which the route is local came while it was local, or
is the chord. -/
theorem local_before (self : Server) (event : InputEvent) (accepts : Message → Bool)
    (hem : ¬ is_emergency event = true)
    (h : (self.drain_event event accepts).1.edge.route = .Local) : self.edge.route = .Local := by
  rw [drain_event_edge, if_neg hem] at h
  cases hroute : self.edge.route with
  | Local => rfl
  | Remote screen =>
      rw [(self.edge.observe_remote event screen hroute).1] at h
      cases h

/-- While the route is local, the position remembered is that of the last local
move since the last emergency. -/
theorem last_mouse_local (p : PeerHandle) (ins : List ServerInput) (self : Server)
    (last : Option Point)
    (hfirst : ∀ pre suf, ins = pre ++ suf →
      (runOut Server.step self pre).1.peers.head? = some p)
    (hlast : self.edge.route = .Local → self.last_mouse = last)
    (hlocal : (runOut Server.step self ins).1.edge.route = .Local) :
    (runOut Server.step self ins).1.last_mouse = last_local self last ins := by
  induction ins generalizing self last with
  | nil => exact hlast hlocal
  | cons input ins ih =>
      rw [last_local]
      -- the two agree after the first input, wherever that leaves the route local
      refine ih (self.step input).1 _ (fun pre suf hsplit =>
        hfirst (input :: pre) suf (by rw [hsplit, List.cons_append])) ?_ hlocal
      intro hnext
      rw [last_mouse_step self input p (hfirst [] _ rfl)]
      cases input with
      | peer event =>
          rw [Server.step, (self.handle_peer_event_frame event).1] at hnext
          exact hlast hnext
      | captured event accepts =>
          rw [note_local]
          dsimp only
          by_cases hem : is_emergency event = true
          · rw [if_pos hem, if_pos hem]
          · rw [if_neg hem, if_neg hem]
            cases event.position with
            | some q => exact (if_pos hnext).symm
            | none => exact hlast (local_before self event accepts hem hnext)

/-! ## What an iteration sends

The potential rule needs one equation: what an iteration sends is the change of the
remembered position, plus the input's own share. -/

/-- Nothing sent moves nothing. -/
@[simp] theorem travelled_nil (p : PeerHandle) : travelled p [] = 0 := rfl

/-- What is sent adds up, which is what makes it telescope. -/
theorem travelled_append (p : PeerHandle) (as bs : List Action) :
    travelled p (as ++ bs) = travelled p as + travelled p bs := by
  rw [travelled, sent_to_append, List.map_append, List.sum_append]
  rfl

/-- An accepted message moves the cursor by what it says. -/
theorem travelled_enqueue (p : PeerHandle) (accepts : Message → Bool) (msg : Message)
    (h : accepts msg) : travelled p (enqueue (some p) accepts msg) = msg.delta := by
  rw [travelled, sent_to_enqueue p accepts msg h, List.map_singleton, List.sum_singleton]

/-- Entering and leaving are not motion. -/
theorem travelled_decision (p : PeerHandle) (peers : List PeerHandle) (accepts : Message → Bool)
    (decision : RouteDecision) (hp : peers.head? = some p) (hacc : ∀ msg, accepts msg) :
    travelled p (apply_decision decision peers accepts) = 0 := by
  rw [travelled, sent_to_decision p peers accepts decision hp hacc]
  cases decision <;> rfl

/-- Where the difference fits, that of the machine integers is that of the coordinates.
-/
theorem Fits.coords {q prev : Point} (h : Fits q prev) :
    ((q.x - prev.x).toInt, (q.y - prev.y).toInt) = q.coords - prev.coords :=
  Prod.ext h.1 h.2

/-- A forwarded event sends the change of the remembered position, with `c` for
the one before the first. -/
theorem forward_travelled (self : Server) (p : PeerHandle) (event : InputEvent)
    (accepts : Message → Bool) (c : Point) (hp : self.peers.head? = some p)
    (hacc : ∀ msg, accepts msg)
    (hfits : ∀ q prev, event.position = some q → self.last_mouse = some prev → Fits q prev)
    (hfirst : ∀ q, event.position = some q → self.last_mouse = none → q = c) :
    travelled p (self.forward event .Remote accepts).2
      = ((event.position.or self.last_mouse).getD c).coords - (self.last_mouse.getD c).coords
        + event.delta := by
  by_cases hmove : ∃ x y, event = .Mouse (.Move x y)
  · obtain ⟨x, y, rfl⟩ := hmove
    have hdelta : (InputEvent.Mouse (.Move x y)).delta = 0 := rfl
    have hposition : (InputEvent.Mouse (.Move x y)).position = some ⟨x, y⟩ := rfl
    rw [hdelta, add_zero, hposition, Option.some_or, Option.getD_some, Server.forward, hp]
    dsimp only
    cases hlast : self.last_mouse with
    | none =>
        -- a first position has nothing to be measured from, and is not sent
        obtain rfl := hfirst _ hposition hlast
        rw [Option.getD_none, sub_self]
        rfl
    | some prev =>
        rw [Option.getD_some, ← (hfits _ prev hposition hlast).coords, forward_event]
        dsimp only
        by_cases hzero : x - prev.x = 0 ∧ y - prev.y = 0
        · -- no distance is not sent either, and adds nothing
          rw [if_pos hzero, hzero.1, hzero.2]
          rfl
        · rw [if_neg hzero, Option.map_some, Option.getD_some, travelled_enqueue p accepts _ (hacc _)]
          rfl
  · have hnot : ∀ x y, event ≠ .Mouse (.Move x y) := fun x y h => hmove ⟨x, y, h⟩
    rw [travelled, forward_not_move self p accepts event hp hacc hnot, List.map_singleton,
      List.sum_singleton]
    rw [position_not_move event hnot, Option.none_or, sub_self, zero_add]
    cases event with
    | Mouse m => cases m with
      | Move x y => exact absurd rfl (hnot x y)
      | MoveRelative dx dy => rfl
      | Button b state => rfl
      | Scroll d => rfl
    | Key k => rfl
    | ScreenEnter x y m => rfl
    | ScreenLeave s => rfl
    | ModifierSync m => rfl

/-- An iteration that leaves the route remote sends the same. -/
theorem step_travelled (self : Server) (p : PeerHandle) (input : ServerInput) (c : Point)
    (hp : self.peers.head? = some p)
    (hacc : ∀ event accepts, input = .captured event accepts → ∀ msg, accepts msg)
    (hroute : (self.step input).1.edge.route ≠ .Local)
    (hfits : ∀ q prev, input.position = some q → self.last_mouse = some prev → Fits q prev)
    (hfirst : ∀ q, input.position = some q → self.last_mouse = none → q = c) :
    travelled p (self.step input).2
      = ((self.step input).1.last_mouse.getD c).coords - (self.last_mouse.getD c).coords
        + input.delta := by
  rw [last_mouse_step self input p hp]
  cases input with
  -- connects and disconnects neither send nor move
  | peer event => exact ((add_zero _).trans (sub_self _)).symm
  | captured event accepts =>
      have hopen := hacc event accepts rfl
      have hem := not_emergency_of_remote self event accepts hroute
      have hedge := drain_event_edge self event accepts
      rw [if_neg hem] at hedge
      have hremote : (self.edge.observe event).2.2 = .Remote := by
        rw [self.edge.observe_forward event, ← hedge]
        exact hroute
      dsimp only
      rw [if_neg hem, Server.step, Server.drain_event, if_neg hem]
      dsimp only
      rw [travelled_append, travelled_decision p _ _ _ hp hopen, zero_add, hremote]
      exact forward_travelled _ p event accepts c hp hopen hfits hfirst

/-! ## An episode

The sum over an episode, and the statement with its base. -/

section Episode

variable {p : PeerHandle} {self : Server} {crossing : ServerInput} {mid : List ServerInput}

/-- The route is remote from the crossing on. -/
theorem Episode.remote (h : Episode self crossing mid) (pre post : List ServerInput)
    (hsplit : mid = pre ++ post) :
    (runOut Server.step self (crossing :: pre)).1.edge.route ≠ .Local := by
  induction pre using List.reverseRecOn generalizing post with
  | nil =>
      obtain ⟨screen, entry, warp, m, henter⟩ := h.enters
      rw [runOut_cons, runOut_nil, step_route, henter]
      exact Route.noConfusion
  | append_singleton pre input ih =>
      have hmid : mid = pre ++ input :: post := by
        rw [hsplit, List.append_assoc]
        rfl
      have hbefore := ih (input :: post) hmid
      rw [← List.cons_append, runOut_concat, step_route]
      cases hdecision : (runOut Server.step self (crossing :: pre)).1.decision input with
      | Stay => exact hbefore
      | EnterRemote screen entry warp m => exact Route.noConfusion
      | LeaveRemote screen => exact absurd hdecision (h.stays pre input post hmid screen)

/-- What is remembered in an episode is the position of its last move. -/
theorem Episode.last_mouse (h : Episode self crossing mid)
    (hfirst : ∀ pre suf, crossing :: mid = pre ++ suf →
      (runOut Server.step self pre).1.peers.head? = some p)
    (pre post : List ServerInput) (hsplit : mid = pre ++ post) :
    (runOut Server.step self (crossing :: pre)).1.last_mouse
      = (moves (crossing :: pre)).getLast? := by
  -- an input that leaves the route remote adds its position, if it has one
  have hinput : ∀ (server : Server) (input : ServerInput), server.peers.head? = some p →
      (server.step input).1.edge.route ≠ .Local →
      (server.step input).1.last_mouse = input.position.or server.last_mouse := by
    intro server input hp hroute
    rw [last_mouse_step server input p hp]
    cases input with
    | peer event => rfl
    | captured event accepts => exact if_neg (not_emergency_of_remote server event accepts hroute)
  induction pre using List.reverseRecOn generalizing post with
  | nil =>
      obtain ⟨screen, entry, warp, m, henter⟩ := h.enters
      obtain ⟨-, q, hposition, -⟩ := decision_enters self crossing screen entry warp m henter
      have hroute := h.remote [] post hsplit
      rw [runOut_cons, runOut_nil] at hroute ⊢
      rw [hinput self crossing (hfirst [] _ rfl) hroute, hposition, Option.some_or, moves,
        List.filterMap_cons_some hposition]
      rfl
  | append_singleton pre input ih =>
      have hmid : mid = pre ++ input :: post := by
        rw [hsplit, List.append_assoc]
        rfl
      have hbefore := ih (input :: post) hmid
      have hroute := h.remote (pre ++ [input]) post hsplit
      have hp := hfirst (crossing :: pre) (input :: post) (by rw [hmid, List.cons_append])
      rw [← List.cons_append, runOut_concat] at hroute ⊢
      rw [hinput _ input hp hroute, hbefore, moves, moves, List.filterMap_append,
        List.getLast?_append]
      cases hposition : input.position with
      | none => rw [List.filterMap_cons_none hposition]; rfl
      | some q => rw [List.filterMap_cons_some hposition]; rfl

/-- **What an episode sends**, from the position remembered before it. -/
theorem Episode.travelled (h : Episode self crossing mid)
    (hfirst : ∀ pre suf, crossing :: mid = pre ++ suf →
      (runOut Server.step self pre).1.peers.head? = some p)
    (hacc : ∀ event accepts, .captured event accepts ∈ crossing :: mid → ∀ msg, accepts msg)
    (hfits : ∀ pre input post, crossing :: mid = pre ++ input :: post → ∀ q prev,
      input.position = some q → (runOut Server.step self pre).1.last_mouse = some prev →
      Fits q prev)
    (crossed : Point) (hcrossed : crossing.position = some crossed) :
    travelled p (runOut Server.step self (crossing :: mid)).2
      = ((moves (crossing :: mid)).getLast?.getD crossed).coords
        - (self.last_mouse.getD crossed).coords + ((crossing :: mid).map ServerInput.delta).sum := by
  rw [← h.last_mouse hfirst mid [] (List.append_nil mid).symm]
  -- the potential is the position remembered, the crossing before there is one
  refine runOut_potential Server.step (InputSync.travelled p) (travelled_nil p) (travelled_append p)
    ServerInput.delta (fun s => (s.last_mouse.getD crossed).coords) self (crossing :: mid) ?_
  intro pre input post hsplit
  have hnext : (runOut Server.step self (pre ++ [input])).1
      = ((runOut Server.step self pre).1.step input).1 := by rw [runOut_concat]
  refine step_travelled _ p input crossed (hfirst pre _ hsplit) ?_ ?_
    (hfits pre input post hsplit) ?_
  · rintro event accepts rfl
    refine hacc event accepts ?_
    rw [hsplit]
    exact List.mem_append_right _ List.mem_cons_self
  · rw [← hnext]
    cases pre with
    | nil =>
        obtain ⟨rfl, -⟩ := List.cons.inj hsplit
        exact h.remote [] mid rfl
    | cons first pre =>
        obtain ⟨rfl, hmid⟩ := List.cons.inj hsplit
        exact h.remote (pre ++ [input]) post (by rw [hmid, List.append_assoc]; rfl)
  · intro q hq hnone
    cases pre with
    | nil =>
        obtain ⟨rfl, -⟩ := List.cons.inj hsplit
        exact Option.some.inj (hq.symm.trans hcrossed)
    | cons first pre =>
        -- the position of the crossing is remembered, or a later one
        obtain ⟨rfl, hmid⟩ := List.cons.inj hsplit
        rw [h.last_mouse hfirst pre (input :: post) hmid, List.getLast?_eq_none_iff, moves,
          List.filterMap_cons_some hcrossed] at hnone
        cases hnone

end Episode

/-- A fresh session to which `p` has connected. -/
def Server.started (local_screen : ScreenId) (w h : Int32) (layout : ScreenLayout)
    (p : PeerHandle) : Server :=
  (Server.new local_screen w h layout).handle_peer_event (.Connected p)

/-- **Forwarded motion telescopes.** `p` stays the first peer and its channel
accepts everything. What an episode sends adds up to the way from the base to
the last captured move, and the relative moves captured in it. The base is the
last local move since the last emergency or, if there was none, the crossing. -/
theorem motion_telescopes (local_screen : ScreenId) (w h : Int32) (layout : ScreenLayout)
    (p : PeerHandle) (ins : List ServerInput)
    (hfirst : ∀ pre suf, ins = pre ++ suf →
      (runOut Server.step (.started local_screen w h layout p) pre).1.peers.head? = some p)
    (hacc : ∀ event accepts, .captured event accepts ∈ ins → ∀ msg, accepts msg)
    (hfits : ∀ q ∈ moves ins, ∀ prev ∈ moves ins, Fits q prev)
    (pre : List ServerInput) (crossing : ServerInput) (mid suf : List ServerInput)
    (hsplit : ins = pre ++ (crossing :: mid) ++ suf)
    (hepisode : Episode (runOut Server.step (.started local_screen w h layout p) pre).1
      crossing mid) :
    ∃ crossed last, crossing.position = some crossed ∧
      (moves (crossing :: mid)).getLast? = some last ∧
      travelled p (runOut Server.step
          (runOut Server.step (.started local_screen w h layout p) pre).1 (crossing :: mid)).2
        = last.coords
          - ((last_local (.started local_screen w h layout p) none pre).getD crossed).coords
          + (mid.map ServerInput.delta).sum := by
  set server := Server.started local_screen w h layout p
  set entered := (runOut Server.step server pre).1
  obtain ⟨screen, entry, warp, m, henter⟩ := hepisode.enters
  obtain ⟨hlocal, crossed, hcrossed, hdelta⟩ := decision_enters entered crossing _ _ _ _ henter
  obtain ⟨last, hlast⟩ : ∃ last, (moves (crossing :: mid)).getLast? = some last := by
    rw [moves, List.filterMap_cons_some hcrossed]
    exact ⟨_, List.getLast?_eq_some_getLast (List.cons_ne_nil _ _)⟩
  have hwhole : ∀ before after, crossing :: mid = before ++ after →
      ins = pre ++ before ++ (after ++ suf) := by
    intro before after hcut
    rw [hsplit, hcut]
    simp only [List.append_assoc]
  have hstate : ∀ before, (runOut Server.step entered before).1
      = (runOut Server.step server (pre ++ before)).1 := fun before => by rw [runOut_append]
  -- the base is what was remembered at the crossing
  have hbase : entered.last_mouse = last_local server none pre :=
    last_mouse_local p pre server none (fun a b hcut => hfirst a (b ++ (crossing :: mid) ++ suf)
      (by rw [hsplit, hcut]; simp only [List.append_assoc])) (fun _ => rfl) hlocal
  refine ⟨crossed, last, hcrossed, hlast, ?_⟩
  rw [hepisode.travelled ?_ ?_ ?_ crossed hcrossed, hlast, hbase, List.map_cons, List.sum_cons,
    hdelta, zero_add, Option.getD_some]
  · -- the conditions of the run, on the part of it that is the episode
    intro before after hcut
    rw [hstate]
    exact hfirst _ _ (hwhole before after hcut)
  · intro event accepts hmem
    refine hacc event accepts ?_
    rw [hsplit]
    exact List.mem_append_left _ (List.mem_append_right _ hmem)
  · intro before input after hcut q prev hq hprev
    have hinput := hwhole before (input :: after) hcut
    rw [hstate] at hprev
    have hmem := last_mouse_mem p server rfl (pre ++ before) (fun a b hab => hfirst a
      (b ++ (input :: after ++ suf)) (by rw [hinput, hab, List.append_assoc])) prev hprev
    refine hfits q ?_ prev ?_
    · rw [hinput, moves, List.mem_filterMap]
      exact ⟨input, List.mem_append_right _ List.mem_cons_self, hq⟩
    · rw [hinput, moves, List.filterMap_append]
      exact List.mem_append_left _ hmem

/-- A session with a default layout and one peer. -/
def one_peer : PeerHandle := ⟨⟨Vector.replicate 16 7⟩, 0⟩

/-- A session with that peer. -/
def one_peer_session : Server := .started ⟨0⟩ 1920 1080 .default one_peer

/-- An event is captured, and every enqueue succeeds. -/
def captured (event : InputEvent) : ServerInput := .captured event (fun _ => true)

/-- Over the left edge from ten pixels away, and back by thirty; or with a
relative move instead. -/
def near_edge : ServerInput := captured (.Mouse (.Move 10 300))
def over_edge : ServerInput := captured (.Mouse (.Move 0 310))
def back : ServerInput := captured (.Mouse (.Move 30 310))
def nudge : ServerInput := captured (.Mouse (.MoveRelative 5 0))

/-- An episode of a single input after its crossing, for the two examples. -/
theorem episode_of_one (server : Server) (crossing input : ServerInput)
    (henters : ∃ screen entry warp m, server.decision crossing = .EnterRemote screen entry warp m)
    (hstay : (server.step crossing).1.decision input = .Stay) :
    Episode server crossing [input] where
  enters := henters
  stays pre next post hsplit screen := by
    cases pre with
    | nil =>
        obtain ⟨rfl, -⟩ := List.cons.inj hsplit
        rw [runOut_cons, runOut_nil, hstay]
        exact RouteDecision.noConfusion
    | cons first pre => exact absurd (List.cons.inj hsplit).2 (by simp)

/-- The theorem for it: ten pixels left, ten down and thirty right. -/
theorem motion_telescopes_back :
    travelled one_peer (runOut Server.step (one_peer_session.step near_edge).1 [over_edge, back]).2
      = (20, 10) := by
  have hpeers : ∀ pre ∈ [near_edge, over_edge, back].inits,
      (runOut Server.step one_peer_session pre).1.peers.head? = some one_peer := by decide
  obtain ⟨crossed, last, hcrossed, hlast, hsum⟩ := motion_telescopes ⟨0⟩ 1920 1080 .default one_peer
    [near_edge, over_edge, back]
    (fun pre suf h => hpeers pre ((List.mem_inits _ _).mpr ⟨suf, h.symm⟩))
    (by
      intro event accepts hmem
      simp only [near_edge, over_edge, back, captured, List.mem_cons, ServerInput.captured.injEq,
        List.not_mem_nil, or_false] at hmem
      rcases hmem with ⟨-, rfl⟩ | ⟨-, rfl⟩ | ⟨-, rfl⟩ <;> exact fun _ => rfl)
    (by unfold Fits; decide) [near_edge] over_edge [back] [] rfl
    (episode_of_one _ _ _ ⟨_, _, _, _, rfl⟩ (by decide))
  obtain rfl := Option.some.inj hcrossed
  obtain rfl := Option.some.inj hlast
  exact hsum.trans (by decide)

/-- **A relative move is passed on.** The last captured move is the crossing, so
is the base, and five pixels are sent. -/
theorem nudge_passed_on :
    Episode one_peer_session over_edge [nudge] ∧
      (moves [over_edge, nudge]).getLast? = some ⟨0, 310⟩ ∧
      last_local one_peer_session none [] = none ∧
      travelled one_peer (runOut Server.step one_peer_session [over_edge, nudge]).2 = (5, 0) ∧
      travelled one_peer (runOut Server.step one_peer_session [over_edge, nudge]).2
        ≠ (⟨0, 310⟩ : Point).coords - (⟨0, 310⟩ : Point).coords :=
  ⟨episode_of_one _ _ _ ⟨_, _, _, _, rfl⟩ (by decide), by decide, rfl, by decide, by decide⟩

end InputSync
