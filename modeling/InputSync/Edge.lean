/-
The edge detector (`crates/daemon/src/edge.rs`): where input is routed, and
what each mouse move decides.

The detector is a record and four operations on it. `observe` is the only one
with branches, and everything later needs of it is its case split: either the
route is local and the cursor crosses to a screen, or nothing about the route
changes and the forward flag repeats it (`observe_cases`). The crossing test
is factored out as `crossing`, the screen a move to a point would hand control
to, because the session's guarantees are stated in terms of it.

The second half is the routing state machine over whole histories:
`calls_alternating` says that the decisions that are not `Stay` alternate
between entering and leaving, that a leave names the screen of the enter
before it, and that the route is what the last decision said. The way back is
the last section.
-/
import InputSync.Event
import InputSync.Trace

set_option autoImplicit false

namespace InputSync

/-! ## The detector

The record of the source with its operations, branch for branch. -/

/-- `Route`: where the user's input goes. -/
inductive Route
  | Local
  | Remote (screen : ScreenId)
deriving DecidableEq

/-- `RouteDecision`: what a call of the detector asks the session to do. -/
inductive RouteDecision
  | Stay
  | EnterRemote (screen : ScreenId) (entry local_warp : Point) (modifiers : ModifierState)
  | LeaveRemote (screen : ScreenId)
deriving DecidableEq

/-- `ForwardTo`: whether the event itself goes to the peer. -/
inductive ForwardTo
  | Local | Remote
deriving DecidableEq

/-- `EdgeDetector`; the field `local` of the source is `local_screen`. -/
structure EdgeDetector where
  local_screen : ScreenId
  local_width : Int32
  local_height : Int32
  layout : ScreenLayout
  route : Route
  last_point : Point
  modifiers : ModifierState
  edge_threshold : Int32
  auto_peer : Option ScreenId
deriving DecidableEq

/-- Point on the far screen where the cursor should appear after crossing. -/
def entry_point (crossed : EdgeSide) (local_pos : Point) : Point :=
  match crossed with
  | .Left => ⟨32000, local_pos.y⟩
  | .Right => ⟨0, local_pos.y⟩
  | .Top => ⟨local_pos.x, 32000⟩
  | .Bottom => ⟨local_pos.x, 0⟩

/-- Where the local cursor is parked after control is transferred. -/
def warp_back_inside (crossed : EdgeSide) (w h : Int32) : Point :=
  match crossed with
  | .Left => ⟨2, h / 2⟩
  | .Right => ⟨w - 2, h / 2⟩
  | .Top => ⟨w / 2, 2⟩
  | .Bottom => ⟨w / 2, h - 2⟩

namespace EdgeDetector

/-- A detector starts local, at the origin, with no peer. -/
def new (local_screen : ScreenId) (local_width local_height : Int32) (layout : ScreenLayout) :
    EdgeDetector :=
  { local_screen, local_width, local_height, layout
    route := .Local
    last_point := ⟨0, 0⟩
    modifiers := .empty
    edge_threshold := 1
    auto_peer := none }

/-- The session sets it when the first peer comes and clears it when the last one goes.
-/
def set_auto_peer (self : EdgeDetector) (peer : Option ScreenId) : EdgeDetector :=
  { self with auto_peer := peer }

/-- `set_modifiers`. -/
def set_modifiers (self : EdgeDetector) (m : ModifierState) : EdgeDetector :=
  { self with modifiers := m }

/-- Force routing back to local: the emergency hotkey. -/
def force_local (self : EdgeDetector) : EdgeDetector × RouteDecision :=
  match self.route with
  | .Local => (self, .Stay)
  | .Remote screen => ({ self with route := .Local }, .LeaveRemote screen)

/-- The edge test: left, right, top, bottom, and the first that holds decides. -/
def cross_local_edge (self : EdgeDetector) (p : Point) : Option (EdgeSide × Point) :=
  if p.x ≤ self.edge_threshold then some (.Left, p)
  else if p.x ≥ self.local_width - self.edge_threshold then some (.Right, p)
  else if p.y ≤ self.edge_threshold then some (.Top, p)
  else if p.y ≥ self.local_height - self.edge_threshold then some (.Bottom, p)
  else none

/-- The head of `observe`: key events and modifier syncs update the snapshot
shipped with the next crossing. -/
def note_modifiers (self : EdgeDetector) (event : InputEvent) : EdgeDetector :=
  match event with
  | .Key k => { self with modifiers := k.modifiers }
  | .ModifierSync m => { self with modifiers := m }
  | _ => self

/-- Feed an input event: the detector afterwards, the decision, and whether
the event goes to the remote peer. -/
def observe (self : EdgeDetector) (event : InputEvent) :
    EdgeDetector × RouteDecision × ForwardTo :=
  let self := self.note_modifiers event
  match event with
  | .Mouse (.Move x y) =>
    let self := { self with last_point := ⟨x, y⟩ }
    match self.route with
    | .Local =>
      match self.cross_local_edge self.last_point with
      | some (side, edge_point) =>
        match (self.layout.neighbour_of self.local_screen side).or self.auto_peer with
        | some remote =>
          let entry := entry_point side edge_point
          let warp := warp_back_inside side self.local_width self.local_height
          ({ self with route := .Remote remote }, .EnterRemote remote entry warp self.modifiers,
            .Remote)
        | none => (self, .Stay, .Local)
      | none => (self, .Stay, .Local)
    | .Remote _ => (self, .Stay, .Remote)
  | _ =>
    match self.route with
    | .Local => (self, .Stay, .Local)
    | .Remote _ => (self, .Stay, .Remote)

/-! ## What `observe` can do

One lemma for each way through it, and then the case split that the rest of the
development uses. -/

/-- The screen a local move to `p` hands control to, with the side it
crosses: the neighbour of that side, else the auto peer. -/
def crossing (self : EdgeDetector) (p : Point) : Option (EdgeSide × ScreenId) :=
  (self.cross_local_edge p).bind (fun c =>
    ((self.layout.neighbour_of self.local_screen c.1).or self.auto_peer).map (fun s => (c.1, s)))

/-- The forward flag a route stands for. -/
def forward_of : Route → ForwardTo
  | .Local => .Local
  | .Remote _ => .Remote

/-- A crossing carries the point it happened at, unscaled. -/
theorem cross_local_edge_point (self : EdgeDetector) (p q : Point) (side : EdgeSide)
    (h : self.cross_local_edge p = some (side, q)) : q = p := by
  rw [cross_local_edge] at h
  split_ifs at h <;> exact (congrArg Prod.snd (Option.some.inj h)).symm

/-- Noting the modifiers touches the snapshot alone. -/
theorem note_modifiers_frame (self : EdgeDetector) (event : InputEvent) :
    (self.note_modifiers event).route = self.route ∧
      (self.note_modifiers event).layout = self.layout ∧
      (self.note_modifiers event).local_screen = self.local_screen ∧
      (self.note_modifiers event).auto_peer = self.auto_peer := by
  unfold note_modifiers
  split <;> exact ⟨rfl, rfl, rfl, rfl⟩

/-- `cross_local_edge` looks at the screen size and the threshold only. -/
theorem cross_local_edge_with (self : EdgeDetector) (route : Route) (p q : Point) :
    cross_local_edge { self with route := route, last_point := p } q
      = self.cross_local_edge q := rfl

/-- A local move that crosses. -/
theorem observe_move_crossing (self : EdgeDetector) (x y : Int32) (side : EdgeSide)
    (screen : ScreenId) (hroute : self.route = .Local)
    (hcross : self.crossing ⟨x, y⟩ = some (side, screen)) :
    self.observe (.Mouse (.Move x y))
      = ({ self with last_point := ⟨x, y⟩, route := .Remote screen },
          .EnterRemote screen (entry_point side ⟨x, y⟩)
            (warp_back_inside side self.local_width self.local_height) self.modifiers,
          .Remote) := by
  obtain ⟨⟨side', q⟩, hedge, hmap⟩ := Option.bind_eq_some_iff.mp hcross
  obtain ⟨s, hs, hpair⟩ := Option.map_eq_some_iff.mp hmap
  obtain ⟨rfl, rfl⟩ := Prod.mk.inj hpair
  obtain rfl := self.cross_local_edge_point _ _ _ hedge
  simp only [observe, note_modifiers, hroute, cross_local_edge_with, hedge, hs]

/-- A local move that does not cross. -/
theorem observe_move_inside (self : EdgeDetector) (x y : Int32) (hroute : self.route = .Local)
    (hcross : self.crossing ⟨x, y⟩ = none) :
    self.observe (.Mouse (.Move x y)) = ({ self with last_point := ⟨x, y⟩ }, .Stay, .Local) := by
  cases hedge : self.cross_local_edge ⟨x, y⟩ with
  | none => simp only [observe, note_modifiers, hroute, cross_local_edge_with, hedge]
  | some c =>
      simp only [crossing, hedge, Option.bind_some, Option.map_eq_none_iff] at hcross
      simp only [observe, note_modifiers, hroute, cross_local_edge_with, hedge, hcross]

/-- A move while control is remote. -/
theorem observe_move_remote (self : EdgeDetector) (x y : Int32) (screen : ScreenId)
    (hroute : self.route = .Remote screen) :
    self.observe (.Mouse (.Move x y)) = ({ self with last_point := ⟨x, y⟩ }, .Stay, .Remote) := by
  simp only [observe, note_modifiers, hroute]

/-- Anything that is not a move only touches the modifier snapshot. -/
theorem observe_not_move (self : EdgeDetector) (event : InputEvent)
    (h : ∀ x y, event ≠ .Mouse (.Move x y)) :
    self.observe event = (self.note_modifiers event, .Stay, forward_of self.route) := by
  have hroute := (self.note_modifiers_frame event).1
  unfold observe
  split
  · exact absurd rfl (h _ _)
  · simp only [hroute]
    cases self.route <;> rfl

/-- **The case split of `observe`.** Either control crosses from the local
screen, or the route stays and the forward flag repeats it. -/
theorem observe_cases (self : EdgeDetector) (event : InputEvent) :
    (∃ x y side screen, event = .Mouse (.Move x y) ∧ self.route = .Local ∧
      self.crossing ⟨x, y⟩ = some (side, screen) ∧
      self.observe event
        = ({ self with last_point := ⟨x, y⟩, route := .Remote screen },
            .EnterRemote screen (entry_point side ⟨x, y⟩)
              (warp_back_inside side self.local_width self.local_height) self.modifiers,
            .Remote)) ∨
    ((∀ x y, event = .Mouse (.Move x y) → self.route = .Local → self.crossing ⟨x, y⟩ = none) ∧
      (self.observe event).1.route = self.route ∧
      (self.observe event).2 = (.Stay, forward_of self.route)) := by
  -- only a move can cross, and only under a local route; in all other cases the route
  -- stays
  by_cases hmove : ∃ x y, event = .Mouse (.Move x y)
  · obtain ⟨x, y, rfl⟩ := hmove
    cases hroute : self.route with
    | Local =>
        cases hcross : self.crossing ⟨x, y⟩ with
        | none =>
            right
            refine ⟨?_, ?_⟩
            · intro x' y' hev _
              cases hev
              exact hcross
            · rw [self.observe_move_inside x y hroute hcross]
              exact ⟨hroute, rfl⟩
        | some c =>
            left
            exact ⟨x, y, c.1, c.2, rfl, rfl, hcross,
              self.observe_move_crossing x y c.1 c.2 hroute hcross⟩
    | Remote screen =>
        right
        refine ⟨fun x y _ h => Route.noConfusion h, ?_⟩
        rw [self.observe_move_remote x y screen hroute]
        exact ⟨hroute, rfl⟩
  · right
    refine ⟨fun x y h _ => absurd ⟨x, y, h⟩ hmove, ?_⟩
    rw [self.observe_not_move event (fun x y h => hmove ⟨x, y, h⟩)]
    exact ⟨(self.note_modifiers_frame event).1, rfl⟩

/-- What `observe` leaves alone. -/
theorem observe_frame (self : EdgeDetector) (event : InputEvent) :
    (self.observe event).1.layout = self.layout ∧
      (self.observe event).1.local_screen = self.local_screen ∧
      (self.observe event).1.auto_peer = self.auto_peer := by
  by_cases hmove : ∃ x y, event = .Mouse (.Move x y)
  · obtain ⟨x, y, rfl⟩ := hmove
    cases hroute : self.route with
    | Local =>
        cases hcross : self.crossing ⟨x, y⟩ with
        | none => rw [self.observe_move_inside x y hroute hcross]; exact ⟨rfl, rfl, rfl⟩
        | some c =>
            rw [self.observe_move_crossing x y c.1 c.2 hroute hcross]
            exact ⟨rfl, rfl, rfl⟩
    | Remote screen => rw [self.observe_move_remote x y screen hroute]; exact ⟨rfl, rfl, rfl⟩
  · rw [self.observe_not_move event (fun x y h => hmove ⟨x, y, h⟩)]
    exact (self.note_modifiers_frame event).2

/-- The snapshot is only touched by the head of `observe`. -/
theorem observe_modifiers (self : EdgeDetector) (event : InputEvent) :
    (self.observe event).1.modifiers = (self.note_modifiers event).modifiers := by
  by_cases hmove : ∃ x y, event = .Mouse (.Move x y)
  · obtain ⟨x, y, rfl⟩ := hmove
    cases hroute : self.route with
    | Local =>
        cases hcross : self.crossing ⟨x, y⟩ with
        | none => rw [self.observe_move_inside x y hroute hcross]; rfl
        | some c => rw [self.observe_move_crossing x y c.1 c.2 hroute hcross]; rfl
    | Remote screen => rw [self.observe_move_remote x y screen hroute]; rfl
  · rw [self.observe_not_move event (fun x y h => hmove ⟨x, y, h⟩)]

/-- A crossing ships the snapshot. -/
theorem observe_enter (self : EdgeDetector) (event : InputEvent) (screen : ScreenId)
    (entry warp : Point) (m : ModifierState)
    (h : (self.observe event).2.1 = .EnterRemote screen entry warp m) :
    m = self.modifiers ∧ ∃ x y, event = .Mouse (.Move x y) := by
  rcases self.observe_cases event with ⟨x, y, side, scr, rfl, -, -, heq⟩ | ⟨-, -, hrest⟩
  · rw [heq] at h
    cases h
    exact ⟨rfl, x, y, rfl⟩
  · rw [hrest] at h
    cases h

/-- **The forward flag is the route.** An event goes to the peer exactly when
the route is remote after it was observed. -/
theorem observe_forward (self : EdgeDetector) (event : InputEvent) :
    (self.observe event).2.2 = .Remote ↔ (self.observe event).1.route ≠ .Local := by
  rcases self.observe_cases event with ⟨x, y, side, screen, -, -, -, h⟩ | ⟨-, hroute, hrest⟩
  · simp [h]
  · rw [hroute, hrest]
    cases self.route <;> simp [forward_of]

/-! ## The routing state machine over a history of calls

A history of decisions is checked against the two-state machine a reader would expect. -/

end EdgeDetector

/-- The calls the orchestrator makes on the detector. -/
inductive EdgeOp
  | observe (event : InputEvent)
  | force_local
  | set_auto_peer (peer : Option ScreenId)
  | set_modifiers (m : ModifierState)

namespace EdgeDetector

/-- One call: the detector afterwards, and the decision if the call returns
one. -/
def call (self : EdgeDetector) : EdgeOp → EdgeDetector × List RouteDecision
  | .observe event => ((self.observe event).1, [(self.observe event).2.1])
  | .force_local => (self.force_local.1, [self.force_local.2])
  | .set_auto_peer peer => (self.set_auto_peer peer, [])
  | .set_modifiers m => (self.set_modifiers m, [])

end EdgeDetector

/-- The decisions that change the route. -/
def transitions (ds : List RouteDecision) : List RouteDecision :=
  ds.filter (fun d => d ≠ .Stay)

/-- The decisions that matter for the route, projected out of a history. -/
@[simp] theorem transitions_append (ds es : List RouteDecision) :
    transitions (ds ++ es) = transitions ds ++ transitions es := List.filter_append ..

/-- The route a decision leaves the detector in, with no decision standing for
the start. -/
def route_after : Option RouteDecision → Route
  | some (.EnterRemote screen _ _ _) => .Remote screen
  | _ => .Local

/-- `Alternating route ds`: `ds` is a history of transitions that ends in
`route`. -/
inductive Alternating : Route → List RouteDecision → Prop
  | start : Alternating .Local []
  | enter {ds : List RouteDecision} (screen : ScreenId) (entry warp : Point) (m : ModifierState) :
      Alternating .Local ds →
      Alternating (.Remote screen) (ds ++ [.EnterRemote screen entry warp m])
  | leave {ds : List RouteDecision} {screen : ScreenId} :
      Alternating (.Remote screen) ds → Alternating .Local (ds ++ [.LeaveRemote screen])

namespace Alternating

/-- The route is what the last transition says. -/
theorem route_eq {route : Route} {ds : List RouteDecision} (h : Alternating route ds) :
    route = route_after ds.getLast? := by
  cases h with
  | start => rfl
  | enter screen entry warp m h => simp [route_after]
  | leave h => simp [route_after]

/-- The number of transitions is even exactly when the route is local. -/
theorem length_even_iff {route : Route} {ds : List RouteDecision} (h : Alternating route ds) :
    ds.length % 2 = 0 ↔ route = .Local := by
  induction h with
  | start => simp
  | enter screen entry warp m h ih =>
      have : _ % 2 = 0 := ih.mpr rfl
      simp only [List.length_append, List.length_singleton, reduceCtorEq, iff_false]
      omega
  | leave h ih =>
      have hodd : ¬ _ % 2 = 0 := fun heven => nomatch ih.mp heven
      simp only [List.length_append, List.length_singleton, iff_true]
      omega

/-- Even positions enter. -/
theorem enter_at {route : Route} {ds : List RouteDecision} (h : Alternating route ds) (i : Nat)
    (d : RouteDecision) (hd : ds[i]? = some d) (heven : i % 2 = 0) :
    ∃ screen entry warp m, d = .EnterRemote screen entry warp m := by
  induction h with
  | start => simp at hd
  | @enter ds screen entry warp m h ih =>
      rcases Nat.lt_trichotomy i ds.length with hi | hi | hi
      · rw [List.getElem?_append_left hi] at hd
        exact ih hd
      · subst hi
        rw [List.getElem?_concat_length] at hd
        exact ⟨screen, entry, warp, m, (Option.some.inj hd).symm⟩
      · rw [List.getElem?_eq_none (by simp; omega)] at hd
        cases hd
  | @leave ds screen h ih =>
      -- a leave stands at an odd place
      have hodd : ¬ ds.length % 2 = 0 := by
        rw [h.length_even_iff]
        exact Route.noConfusion
      rcases Nat.lt_trichotomy i ds.length with hi | hi | hi
      · rw [List.getElem?_append_left hi] at hd
        exact ih hd
      · exact absurd (hi ▸ heven) hodd
      · rw [List.getElem?_eq_none (by simp; omega)] at hd
        cases hd

/-- Odd positions leave the screen that was entered just before. -/
theorem leave_at {route : Route} {ds : List RouteDecision} (h : Alternating route ds) (i : Nat)
    (d : RouteDecision) (hd : ds[i]? = some d) (hodd : i % 2 = 1) :
    ∃ screen entry warp m,
      ds[i - 1]? = some (.EnterRemote screen entry warp m) ∧ d = .LeaveRemote screen := by
  induction h with
  | start => simp at hd
  | @enter ds screen entry warp m h ih =>
      have heven : ds.length % 2 = 0 := h.length_even_iff.mpr rfl
      rcases Nat.lt_trichotomy i ds.length with hi | hi | hi
      · rw [List.getElem?_append_left hi] at hd
        rw [List.getElem?_append_left (by omega)]
        exact ih hd
      · omega
      · rw [List.getElem?_eq_none (by simp; omega)] at hd
        cases hd
  | @leave ds screen h ih =>
      rcases Nat.lt_trichotomy i ds.length with hi | hi | hi
      · rw [List.getElem?_append_left hi] at hd
        rw [List.getElem?_append_left (by omega)]
        exact ih hd
      · subst hi
        rw [List.getElem?_concat_length] at hd
        -- the last transition before a leave is the enter that set the route
        cases h with
        | @enter ds screen entry warp m h =>
            refine ⟨screen, entry, warp, m, ?_, (Option.some.inj hd).symm⟩
            rw [List.getElem?_append_left (by simp)]
            simp
      · rw [List.getElem?_eq_none (by simp; omega)] at hd
        cases hd

end Alternating

namespace EdgeDetector

/-- The chord appends a leave where control was remote, and nothing elsewhere. -/
theorem force_local_alternating (self : EdgeDetector) (ds : List RouteDecision)
    (h : Alternating self.route ds) :
    Alternating self.force_local.1.route (ds ++ transitions [self.force_local.2]) := by
  unfold force_local
  cases hroute : self.route with
  | Local =>
      rw [hroute] at h
      simpa [transitions, hroute] using h
  | Remote screen =>
      rw [hroute] at h
      exact h.leave

/-- An event appends an enter where it crosses, and nothing elsewhere: `observe` never
leaves. -/
theorem observe_alternating (self : EdgeDetector) (event : InputEvent) (ds : List RouteDecision)
    (h : Alternating self.route ds) :
    Alternating (self.observe event).1.route (ds ++ transitions [(self.observe event).2.1]) := by
  rcases self.observe_cases event with
    ⟨x, y, side, screen, rfl, hroute, hcross, heq⟩ | ⟨-, hroute, hrest⟩
  · rw [heq]
    rw [hroute] at h
    exact h.enter ..
  · rw [hroute, hrest]
    simpa [transitions] using h

/-- One call keeps the history alternating. -/
theorem call_alternating (self : EdgeDetector) (op : EdgeOp) (ds : List RouteDecision)
    (h : Alternating self.route ds) :
    Alternating (self.call op).1.route (ds ++ transitions (self.call op).2) := by
  cases op with
  | observe event => exact self.observe_alternating event ds h
  | force_local => exact self.force_local_alternating ds h
  | set_auto_peer peer => simpa [call, transitions, set_auto_peer] using h
  | set_modifiers m => simpa [call, transitions, set_modifiers] using h

/-- **Every history alternates.** -/
theorem calls_alternating (local_screen : ScreenId) (w h : Int32) (layout : ScreenLayout)
    (ops : List EdgeOp) :
    Alternating (runOut call (new local_screen w h layout) ops).1.route
      (transitions (runOut call (new local_screen w h layout) ops).2) :=
  runOut_invariant call (fun d ds => Alternating d.route (transitions ds)) _ _ .start
    (fun d ds op _ hinv => by
      rw [transitions_append]
      exact d.call_alternating op _ hinv)

/-! ## Coming back

`observe` enters a remote screen and never leaves one: only `force_local`
returns `LeaveRemote`. -/

/-- Remote stays remote, whatever is observed. -/
theorem observe_remote (self : EdgeDetector) (event : InputEvent) (screen : ScreenId)
    (h : self.route = .Remote screen) :
    (self.observe event).1.route = .Remote screen ∧ (self.observe event).2.1 = .Stay := by
  rcases self.observe_cases event with ⟨x, y, side, scr, -, hlocal, -, -⟩ | ⟨-, hroute, hrest⟩
  · rw [h] at hlocal
    cases hlocal
  · rw [hroute, hrest]
    exact ⟨h, rfl⟩

/-- Feed a list of mouse events: the detector afterwards and the decisions. -/
def observe_mouse (self : EdgeDetector) (moves : List MouseEvent) :
    EdgeDetector × List RouteDecision :=
  runOut (fun d m => ((d.observe (.Mouse m)).1, [(d.observe (.Mouse m)).2.1])) self moves

/-- Some mouse events bring control back. -/
def MouseReturns (self : EdgeDetector) : Prop :=
  ∃ moves, (∃ screen, .LeaveRemote screen ∈ (self.observe_mouse moves).2) ∧
    (self.observe_mouse moves).1.route = .Local

/-- A run of mouse events from a remote screen ends there, and decides
nothing. -/
theorem observe_mouse_remote (self : EdgeDetector) (moves : List MouseEvent) (screen : ScreenId)
    (h : self.route = .Remote screen) :
    (self.observe_mouse moves).1.route = .Remote screen ∧
      ∀ d ∈ (self.observe_mouse moves).2, d = .Stay := by
  unfold observe_mouse
  refine runOut_invariant _
    (fun (d : EdgeDetector) (ds : List RouteDecision) =>
      d.route = .Remote screen ∧ ∀ e ∈ ds, e = .Stay) self moves ?_ ?_
  · exact ⟨h, by intro e he; cases he⟩
  · rintro d ds m _ ⟨hroute, hds⟩
    obtain ⟨hnext, hstay⟩ := d.observe_remote (.Mouse m) screen hroute
    refine ⟨hnext, ?_⟩
    intro e he
    rcases List.mem_append.mp he with he | he
    · exact hds e he
    · rw [List.mem_singleton.mp he, hstay]

/-- **No way back by mouse.** From no reachable state that is remote do mouse
events return control, in any layout and after any history. -/
theorem mouse_never_returns (local_screen : ScreenId) (w h : Int32) (layout : ScreenLayout)
    (ops : List EdgeOp) (screen : ScreenId)
    (hremote : (runOut call (new local_screen w h layout) ops).1.route = .Remote screen) :
    ¬ (runOut call (new local_screen w h layout) ops).1.MouseReturns := by
  rintro ⟨moves, -, hlocal⟩
  rw [(observe_mouse_remote _ moves screen hremote).1] at hlocal
  cases hlocal

/-- Entered over the right edge of a screen with one peer, which then gets
every move. -/
theorem mouse_never_returns_entered :
    ¬ (runOut call (new ⟨0⟩ 1920 1080 .default)
        [.set_auto_peer (some ⟨1⟩), .observe (.Mouse (.Move 1919 500))]).1.MouseReturns :=
  mouse_never_returns ⟨0⟩ 1920 1080 .default
    [.set_auto_peer (some ⟨1⟩), .observe (.Mouse (.Move 1919 500))] ⟨1⟩ (by decide)

/-- **Stuck on the far screen.** The cursor has crossed, and no move of the
mouse, back to the left edge or anywhere else, returns control. -/
theorem crossed_without_return :
    (runOut call (new ⟨0⟩ 1920 1080 .default)
        [.set_auto_peer (some ⟨1⟩), .observe (.Mouse (.Move 1919 500))]).1.route = .Remote ⟨1⟩ ∧
      ¬ (runOut call (new ⟨0⟩ 1920 1080 .default)
        [.set_auto_peer (some ⟨1⟩), .observe (.Mouse (.Move 1919 500))]).1.MouseReturns := by
  refine ⟨by decide, ?_⟩
  rintro ⟨moves, -, hlocal⟩
  rw [(observe_mouse_remote _ moves ⟨1⟩ (by decide)).1] at hlocal
  cases hlocal

end EdgeDetector

end InputSync
