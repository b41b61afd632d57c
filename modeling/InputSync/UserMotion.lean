/-
Forwarded motion against the user's own (`drain_capture` and `apply_decision` in
`crates/daemon/src/session.rs`, with the cursor they share).

`Motion.lean` says what an episode sends in terms of the captured positions. Here
the positions have a cause: a physical motion moves the local cursor and is
captured where it ends, and entering a remote screen warps the cursor inside the
edge without a captured event. So the positions of an episode start from the
warp, while the session measures the first of them from the crossing.

`episode_trail` follows both sums through an episode. They differ by the way from
the crossing to the warp as soon as the user moves at all, and the two points are
never the same (`crossed_ne_warp`), which leaves `forwarded_motion_iff`.
-/
import InputSync.Motion
import InputSync.Crossing
import Mathlib.Tactic.Abel

set_option autoImplicit false

namespace InputSync

/-! ## The session and its cursor

The operating system's half of the mouse. A motion moves the cursor and is captured
where it ends; a warp moves it and is captured nowhere. -/

/-- The server session with the local cursor. `actions` is the record of what
the drain loop did. -/
structure Desk where
  server : Server
  cursor : Point
  actions : List Action

/-- What the user does at the desk. -/
inductive DeskInput
  -- the user moves the mouse
  | motion (dx dy : Int)
  -- or does something else
  | other (event : InputEvent)

/-- Where the cursor is after the actions. -/
def warped (actions : List Action) (cursor : Point) : Point :=
  actions.foldl (fun cursor action => match action with
    | .warp_cursor pos => pos
    | _ => cursor) cursor

namespace DeskInput

/-- How far the user moves the mouse. -/
def delta : DeskInput → Int × Int
  | .motion dx dy => (dx, dy)
  | .other _ => 0

/-- The input is a motion. -/
def moves : DeskInput → Bool
  | .motion .. => true
  | .other _ => false

end DeskInput

namespace Desk

/-- An event is captured, with the cursor where it is then. Every enqueue
succeeds. -/
def capture (self : Desk) (event : InputEvent) (cursor : Point) : Desk :=
  let r := self.server.step (.captured event (fun _ => true))
  { server := r.1, cursor := warped r.2 cursor, actions := self.actions ++ r.2 }

/-- A motion stays on the screen; what else the user does is no mouse move. -/
def step (self : Desk) : DeskInput → Option Desk
  | .motion dx dy =>
    let x := self.cursor.x.toInt + dx
    let y := self.cursor.y.toInt + dy
    if 0 ≤ x ∧ x < self.server.edge.local_width.toInt ∧
        0 ≤ y ∧ y < self.server.edge.local_height.toInt then
      some (self.capture (.Mouse (.Move (.ofInt x) (.ofInt y))) ⟨.ofInt x, .ofInt y⟩)
    else none
  | .other event =>
    if event.position = none ∧ event.delta = 0 then some (self.capture event self.cursor) else none

end Desk

/-! ## What stays as it was set up

Frame facts for the whole run. -/

namespace EdgeDetector

/-- The detector was made for a screen of this size. -/
def Sized (self : EdgeDetector) (width height : Int32) : Prop :=
  self.local_width = width ∧ self.local_height = height ∧ self.edge_threshold = 1

/-- The screen size is fixed when the detector is made. This and the two lemmas that
follow go through its operations, -/
theorem note_modifiers_sized {self : EdgeDetector} {width height : Int32}
    (h : self.Sized width height) (event : InputEvent) :
    (self.note_modifiers event).Sized width height := by
  unfold note_modifiers
  split <;> exact h

/-- of which `observe` is the one with branches, -/
theorem observe_sized {self : EdgeDetector} {width height : Int32} (h : self.Sized width height)
    (event : InputEvent) : (self.observe event).1.Sized width height := by
  by_cases hmove : ∃ x y, event = .Mouse (.Move x y)
  · obtain ⟨x, y, rfl⟩ := hmove
    cases hroute : self.route with
    | Local =>
        cases hcross : self.crossing ⟨x, y⟩ with
        | none => rw [self.observe_move_inside x y hroute hcross]; exact h
        | some c => rw [self.observe_move_crossing x y c.1 c.2 hroute hcross]; exact h
    | Remote screen => rw [self.observe_move_remote x y screen hroute]; exact h
  · rw [self.observe_not_move event (fun x y h => hmove ⟨x, y, h⟩)]
    exact note_modifiers_sized h event

/-- and the chord changes the route alone. -/
theorem force_local_sized {self : EdgeDetector} {width height : Int32}
    (h : self.Sized width height) : self.force_local.1.Sized width height := by
  unfold force_local
  split <;> exact h

end EdgeDetector

namespace Desk

/-- One peer, and the screen the detector was made for. -/
structure SetUp (p : PeerHandle) (width height : Int32) (s : Desk) : Prop where
  peers : s.server.peers = [p]
  sized : s.server.edge.Sized width height

/-- A capture keeps the peer and the screen, so what was set up at the start holds all
along. -/
theorem capture_setUp {p : PeerHandle} {width height : Int32} {self : Desk}
    (hs : self.SetUp p width height) (event : InputEvent) (cursor : Point) :
    (self.capture event cursor).SetUp p width height := by
  refine ⟨?_, ?_⟩
  · simp only [capture, Server.step, Server.drain_event]
    split
    · exact hs.peers
    · rw [(Server.forward_frame _ _ _ _).2.1]
      exact hs.peers
  · simp only [capture, Server.step]
    rw [drain_event_edge]
    split
    · exact EdgeDetector.force_local_sized hs.sized
    · exact EdgeDetector.observe_sized hs.sized event

/-- A step captures an event: a move to a point of the screen, or one that is no
move. -/
theorem step_capture {p : PeerHandle} {width height : Int32} {self next : Desk}
    (hs : self.SetUp p width height) {input : DeskInput} (h : self.step input = some next) :
    ∃ event cursor, next = self.capture event cursor ∧ event.delta = 0 ∧
      cursor.coords = self.cursor.coords + input.delta ∧
      if input.moves then event.position = some cursor ∧ cursor.Inside width height
      else event.position = none ∧ cursor = self.cursor := by
  cases input with
  | motion dx dy =>
      simp only [step, hs.sized.1, hs.sized.2.1] at h
      split_ifs at h with hin
      obtain ⟨hx, hxw, hy, hyh⟩ := hin
      have hw := width.toInt_lt
      have hh := height.toInt_lt
      -- on the screen the sums do not wrap
      have hpx : (Int32.ofInt (self.cursor.x.toInt + dx)).toInt = self.cursor.x.toInt + dx :=
        Int32.toInt_ofInt_of_le (by omega) (by omega)
      have hpy : (Int32.ofInt (self.cursor.y.toInt + dy)).toInt = self.cursor.y.toInt + dy :=
        Int32.toInt_ofInt_of_le (by omega) (by omega)
      refine ⟨_, _, (Option.some.inj h).symm, rfl, Prod.ext hpx hpy, rfl, ?_⟩
      exact ⟨by rw [hpx]; exact hx, by rw [hpx]; exact hxw, by rw [hpy]; exact hy,
        by rw [hpy]; exact hyh⟩
  | other event =>
      simp only [step] at h
      split_ifs at h with hnot
      exact ⟨event, self.cursor, (Option.some.inj h).symm, hnot.2, (add_zero _).symm, hnot.1, rfl⟩

end Desk

/-! ## Where the actions leave the cursor

Only one of the actions of the drain loop touches the cursor. -/

/-- The cursor is where the last warp put it, so actions can be taken one after the
other. -/
theorem warped_append (as bs : List Action) (cursor : Point) :
    warped (as ++ bs) cursor = warped bs (warped as cursor) := List.foldl_append ..

/-- Sending does not move the local cursor, -/
theorem warped_enqueue (peer : Option PeerHandle) (accepts : Message → Bool) (msg : Message)
    (cursor : Point) : warped (enqueue peer accepts msg) cursor = cursor := by
  unfold enqueue
  split
  · split <;> rfl
  · rfl

/-- and neither does forwarding. -/
theorem warped_forward (server : Server) (event : InputEvent) (fw : ForwardTo)
    (accepts : Message → Bool) (cursor : Point) :
    warped (server.forward event fw accepts).2 cursor = cursor := by
  unfold Server.forward
  split
  · split
    next peer _ =>
      dsimp only
      cases (forward_event server.last_mouse event).2 with
      | none => rfl
      | some msg => exact warped_enqueue (some peer) accepts msg cursor
    · rfl
  · rfl

/-- Only entering a remote screen warps the cursor. -/
theorem warped_observed (server : Server) (event : InputEvent) (accepts : Message → Bool)
    (hem : ¬ is_emergency event = true) (cursor : Point) :
    warped (server.drain_event event accepts).2 cursor
      = match (server.edge.observe event).2.1 with
        | .EnterRemote _ _ local_warp _ => local_warp
        | _ => cursor := by
  rw [Server.drain_event, if_neg hem]
  dsimp only
  rw [warped_append, warped_forward]
  cases (server.edge.observe event).2.1 with
  | Stay => rfl
  -- the warp is the last call but one, and nothing after it moves the cursor
  | EnterRemote screen entry warp m => rw [apply_decision, warped_append]; rfl
  | LeaveRemote screen =>
      rw [apply_decision, warped_append, warped_append, warped_enqueue, warped_enqueue]
      rfl

/-! ## The crossing and the warp

At a crossing two points part ways: the one the session remembers, on the edge, and the
one the cursor is put to, inside it. -/

/-- The point a crossing happens at is not the one the cursor is warped to. -/
theorem crossed_ne_warp {edge : EdgeDetector} {width height : Int32}
    (hsized : edge.Sized width height) {q : Point} (hq : q.Inside width height)
    {side : EdgeSide} {screen : ScreenId} (h : edge.crossing q = some (side, screen)) :
    q.coords ≠ (warp_back_inside side width height).coords := by
  obtain ⟨rfl, rfl, hone⟩ := hsized
  obtain ⟨hleft, hright, htop, hbottom⟩ := hq
  have hw := edge.local_width.toInt_lt
  have hh := edge.local_height.toInt_lt
  have hone' : edge.edge_threshold.toInt = 1 := by rw [hone]; rfl
  have htwo : (2 : Int32).toInt = 2 := rfl
  have htouch : edge.touches q side = true := by
    rw [EdgeDetector.crossing_eq] at h
    obtain ⟨first, hfirst, hmap⟩ := Option.bind_eq_some_iff.mp h
    obtain ⟨_, -, hpair⟩ := Option.map_eq_some_iff.mp hmap
    obtain ⟨rfl, -⟩ := Prod.mk.inj hpair
    exact EdgeDetector.touches_first hfirst
  have htests := edge.touches_iff q side
    (Int32.le_iff_toInt_le.mpr (by rw [hone']; decide))
    (Int32.le_iff_toInt_le.mpr (by rw [hone']; omega))
    (Int32.le_iff_toInt_le.mpr (by rw [hone']; omega))
  rw [htouch, hone'] at htests
  have hside := htests.mp rfl
  have hwidth : (edge.local_width - 2).toInt = edge.local_width.toInt - 2 :=
    toInt_sub_of_fits _ _ (by omega) (by omega)
  have hheight : (edge.local_height - 2).toInt = edge.local_height.toInt - 2 :=
    toInt_sub_of_fits _ _ (by omega) (by omega)
  -- the crossing is at most one pixel from its side, and the warp two pixels in
  intro heq
  obtain ⟨hx, hy⟩ := Prod.mk.inj heq
  cases side <;> simp only [warp_back_inside] at hx hy hside <;> omega

namespace Desk

variable {p : PeerHandle} {width height : Int32} {self next : Desk}

/-- The input that enters a remote screen is a motion: it is remembered, and the
cursor goes to the warp. -/
theorem capture_enters (hs : self.SetUp p width height) {event : InputEvent} {cursor : Point}
    (hlocal : self.server.edge.route = .Local)
    (hremote : (self.capture event cursor).server.edge.route ≠ .Local) :
    ∃ q side screen, event.position = some q ∧ self.server.edge.crossing q = some (side, screen) ∧
      (self.capture event cursor).server.last_mouse = some q ∧
      (self.capture event cursor).cursor = warp_back_inside side width height := by
  have hem := not_emergency_of_remote self.server event _ hremote
  have hedge := drain_event_edge self.server event (fun _ => true)
  rw [if_neg hem] at hedge
  rcases self.server.edge.observe_cases event with
    ⟨x, y, side, screen, rfl, -, hcross, heq⟩ | ⟨-, hroute, -⟩
  · refine ⟨⟨x, y⟩, side, screen, rfl, hcross, ?_, ?_⟩
    · simp only [capture, Server.step]
      rw [drain_event_last_mouse self.server _ _ p (by rw [hs.peers]; rfl), if_neg hem]
      rfl
    · simp only [capture, Server.step]
      rw [warped_observed _ _ _ hem, heq, hs.sized.1, hs.sized.2.1]
  · -- any other input leaves the route as it was
    exfalso
    apply hremote
    simp only [capture, Server.step]
    rw [hedge, hroute, hlocal]

/-- Within an episode an event moves neither the cursor, nor what is remembered
unless it is a move, and sends the change of what is remembered. -/
theorem capture_remote (hs : self.SetUp p width height) {event : InputEvent} {cursor : Point}
    {prev : Point} (hlast : self.server.last_mouse = some prev)
    (hremote : self.server.edge.route ≠ .Local)
    (hstays : (self.capture event cursor).server.edge.route ≠ .Local)
    (hdelta : event.delta = 0) (hfits : ∀ q, event.position = some q → Fits q prev) :
    (self.capture event cursor).cursor = cursor ∧
      (self.capture event cursor).server.last_mouse = some (event.position.getD prev) ∧
      travelled p (self.capture event cursor).actions
        = travelled p self.actions + ((event.position.getD prev).coords - prev.coords) := by
  have hem := not_emergency_of_remote self.server event _ hstays
  have hp : self.server.peers.head? = some p := by rw [hs.peers]; rfl
  have hmouse : (self.server.drain_event event (fun _ => true)).1.last_mouse
      = some (event.position.getD prev) := by
    rw [drain_event_last_mouse self.server event _ p hp, if_neg hem, hlast]
    cases event.position <;> rfl
  refine ⟨?_, hmouse, ?_⟩
  · simp only [capture, Server.step]
    rw [warped_observed _ _ _ hem]
    -- on a remote screen the detector stays, so nothing is warped
    cases hroute : self.server.edge.route with
    | Local => exact absurd hroute hremote
    | Remote screen => rw [(self.server.edge.observe_remote event screen hroute).2]
  · have hsent := step_travelled self.server p (.captured event (fun _ => true)) prev hp
      (by rintro _ _ ⟨⟩ _; rfl) hstays
      (fun q prev' hq hprev => Option.some.inj (hlast.symm.trans hprev) ▸ hfits q hq)
      (fun q _ hnone => by rw [hlast] at hnone; cases hnone)
    simp only [capture, travelled_append]
    rw [hsent, Server.step, hmouse, hlast, Option.getD_some, Option.getD_some, ServerInput.delta,
      hdelta, add_zero]

/-! ## An episode

Both sums telescope, from different starting points. So they differ by the same vector
throughout. -/

/-- Where both sums stand in an episode that crossed at `crossed` and was warped
to `warp`: `prev` is the position the session remembers. -/
structure Trail (p : PeerHandle) (crossed warp : Point) (entered s : Desk)
    (mid : List DeskInput) (prev : Point) : Prop where
  last_mouse : s.server.last_mouse = some prev
  sent : travelled p s.actions - travelled p entered.actions = prev.coords - crossed.coords
  walked : (mid.map DeskInput.delta).sum = s.cursor.coords - warp.coords
  place : if mid.any DeskInput.moves then prev = s.cursor else prev = crossed ∧ s.cursor = warp

/-- Two points of the screen are close enough for their difference. -/
theorem fits_of_inside {q prev : Point} (hq : q.Inside width height)
    (hprev : prev.Inside width height) : Fits q prev := by
  obtain ⟨hl, hr, ht, hb⟩ := hq
  obtain ⟨hl', hr', ht', hb'⟩ := hprev
  have hw := width.toInt_lt
  have hh := height.toInt_lt
  exact ⟨toInt_sub_of_fits _ _ (by omega) (by omega),
    toInt_sub_of_fits _ _ (by omega) (by omega)⟩

/-- **The two sums through an episode.** -/
theorem episode_trail {entered after : Desk} {crossed warp : Point}
    (hs : entered.SetUp p width height) (hcrossed : crossed.Inside width height)
    (hlast : entered.server.last_mouse = some crossed) (hwarp : entered.cursor = warp)
    (mid : List DeskInput) (hrun : exec step entered mid = some after)
    (hremote : ∀ pre suf s, mid = pre ++ suf → exec step entered pre = some s →
      s.server.edge.route ≠ .Local) :
    after.SetUp p width height ∧
      ∃ prev, prev.Inside width height ∧ Trail p crossed warp entered after mid prev := by
  induction mid using List.reverseRecOn generalizing after with
  | nil =>
      cases hrun
      refine ⟨hs, crossed, hcrossed, hlast, ?_, ?_, ?_⟩
      · rw [sub_self, sub_self]
      · rw [hwarp, sub_self]; rfl
      · exact ⟨rfl, hwarp⟩
  | append_singleton mid input ih =>
      obtain ⟨s, hmid, hstep⟩ := (exec_concat_eq_some step entered after mid input).mp hrun
      obtain ⟨hset, prev, hprev, htrail⟩ := ih hmid (fun pre suf s hsplit =>
        hremote pre (suf ++ [input]) s (by rw [hsplit, List.append_assoc]))
      obtain ⟨event, cursor, rfl, hdelta, hcursor, hmove⟩ := step_capture hset hstep
      -- control is remote before the step and after it
      have hbefore := hremote mid [input] s rfl hmid
      have hafter := hremote (mid ++ [input]) [] _ (List.append_nil _).symm hrun
      have hfits : ∀ q, event.position = some q → Fits q prev := by
        intro q hq
        split_ifs at hmove with hmoves
        · rw [hmove.1] at hq
          exact Option.some.inj hq ▸ fits_of_inside hmove.2 hprev
        · rw [hmove.1] at hq
          cases hq
      obtain ⟨hcur, hmouse, hsent⟩ := capture_remote hset htrail.last_mouse hbefore hafter hdelta
        hfits
      refine ⟨capture_setUp hset event cursor, event.position.getD prev, ?_, hmouse, ?_, ?_, ?_⟩
      · split_ifs at hmove with hmoves
        · rw [hmove.1]
          exact hmove.2
        · rw [hmove.1]
          exact hprev
      · -- the step sends the way from the position remembered
        rw [hsent, add_sub_right_comm, htrail.sent]
        abel
      · rw [hcur, hcursor, List.map_append, List.sum_append, htrail.walked, List.map_singleton,
          List.sum_singleton]
        abel
      · rw [hcur, List.any_append, List.any_cons, List.any_nil, Bool.or_false]
        -- the first move makes the position remembered the cursor's, and later ones keep it so
        have hplace := htrail.place
        split_ifs at hmove with hmoves
        · rw [hmoves, Bool.or_true, if_pos rfl, hmove.1]
          rfl
        · rw [Bool.not_eq_true] at hmoves
          rw [hmoves, Bool.or_false, hmove.1, hmove.2]
          exact hplace

/-- A fresh session with one peer, and the cursor on the screen. -/
def start (local_screen : ScreenId) (width height : Int32) (layout : ScreenLayout)
    (p : PeerHandle) (cursor : Point) : Desk :=
  ⟨.started local_screen width height layout p, cursor, []⟩

/-- **When forwarded motion is the user's.** In any run, and for any episode of
it: after the crossing, what is sent adds up to what the user moved exactly when
the user did not move. -/
theorem forwarded_motion_iff (local_screen : ScreenId) (width height : Int32)
    (layout : ScreenLayout) (p : PeerHandle) (cursor : Point)
    (pre : List DeskInput) (crossing : DeskInput) (mid : List DeskInput)
    (before entered after : Desk)
    (hpre : exec step (start local_screen width height layout p cursor) pre = some before)
    (hcrossing : before.step crossing = some entered) (hmid : exec step entered mid = some after)
    (hlocal : before.server.edge.route = .Local)
    (hremote : ∀ some_mid rest s, mid = some_mid ++ rest → exec step entered some_mid = some s →
      s.server.edge.route ≠ .Local) :
    travelled p after.actions - travelled p entered.actions = (mid.map DeskInput.delta).sum ↔
      ∀ input ∈ mid, input.moves = false := by
  have hset : before.SetUp p width height :=
    exec_invariant step (SetUp p width height) _ before pre ⟨rfl, rfl, rfl, rfl⟩
      (fun s t a _ hs hstep => by
        obtain ⟨event, cursor, rfl, -⟩ := step_capture hs hstep
        exact capture_setUp hs event cursor) hpre
  obtain ⟨event, cursor, rfl, -, -, hmove⟩ := step_capture hset hcrossing
  obtain ⟨q, side, screen, hq, hcross, hlast, hwarp⟩ :=
    capture_enters hset hlocal (hremote [] mid _ rfl rfl)
  -- only a motion crosses, so the crossing is on the screen
  have hinside : q.Inside width height := by
    split_ifs at hmove with hmoves
    · rw [hmove.1] at hq
      exact Option.some.inj hq ▸ hmove.2
    · rw [hmove.1] at hq
      cases hq
  have hne := crossed_ne_warp hset.sized hinside hcross
  obtain ⟨-, prev, -, htrail⟩ := episode_trail (capture_setUp hset event cursor) hinside hlast hwarp
    mid hmid hremote
  rw [htrail.sent, htrail.walked]
  have hplace := htrail.place
  split_ifs at hplace with hany
  · -- both end at the cursor, and start apart
    rw [hplace, sub_right_inj]
    refine iff_of_false hne fun hall => ?_
    obtain ⟨input, hinput, hmoves⟩ := List.any_eq_true.mp hany
    rw [hall input hinput] at hmoves
    cases hmoves
  · -- nothing was sent and nothing was moved
    rw [hplace.1, hplace.2, sub_self, sub_self]
    refine iff_of_true rfl fun input hinput => ?_
    rw [List.any_eq_true, not_exists] at hany
    simpa [hinput] using hany input

/-- Ten pixels from the left edge, over it, and back by twenty. -/
def near_left : Desk := start ⟨0⟩ 1920 1080 .default one_peer ⟨10, 300⟩
def over_left : DeskInput := .motion (-10) 0
def onwards : DeskInput := .motion 20 5

/-- The whole of this episode is remote. -/
theorem onwards_remote (entered : Desk) (hentered : near_left.step over_left = some entered)
    (some_mid rest : List DeskInput) (s : Desk) (hsplit : [onwards] = some_mid ++ rest)
    (hs : exec step entered some_mid = some s) : s.server.edge.route ≠ .Local := by
  obtain rfl := Option.some.inj hentered
  cases some_mid with
  | nil =>
      obtain rfl := Option.some.inj hs
      exact Route.noConfusion
  | cons first more =>
      obtain ⟨rfl, hmore⟩ := List.cons.inj hsplit
      obtain ⟨rfl, rfl⟩ := List.append_eq_nil_iff.mp hmore.symm
      obtain rfl := Option.some.inj hs
      exact Route.noConfusion

/-- The equivalence for it, in which the user did move. -/
theorem forwarded_motion_iff_onwards :
    ∃ entered after, near_left.step over_left = some entered ∧
      exec step entered [onwards] = some after ∧
      (travelled one_peer after.actions - travelled one_peer entered.actions
          = ([onwards].map DeskInput.delta).sum ↔
        ∀ input ∈ [onwards], input.moves = false) :=
  ⟨_, _, rfl, rfl, forwarded_motion_iff ⟨0⟩ 1920 1080 .default one_peer ⟨10, 300⟩ [] over_left
    [onwards] near_left _ _ rfl rfl rfl rfl (onwards_remote _ rfl)⟩

/-- **The way to the warp is sent too.** The user moves by (20, 5) and the peer
is told (22, 245). -/
theorem warp_is_forwarded :
    ∃ entered after, near_left.step over_left = some entered ∧
      exec step entered [onwards] = some after ∧
      near_left.server.edge.route = .Local ∧
      entered.server.edge.route ≠ .Local ∧ after.server.edge.route ≠ .Local ∧
      ([onwards].map DeskInput.delta).sum = (20, 5) ∧
      travelled one_peer after.actions - travelled one_peer entered.actions = (22, 245) :=
  ⟨_, _, rfl, rfl, rfl, Route.noConfusion, Route.noConfusion, by decide, by decide⟩

end Desk

end InputSync
