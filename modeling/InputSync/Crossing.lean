/-
Where a local move hands control to, and where it enters
(`crates/daemon/src/edge.rs` against the layout of `crates/core/src/screen.rs`).

The detector tests the four sides in a fixed order and stops at the first one
the cursor touches; the neighbour, the auto peer and the entry point are all
looked up for that side only. `first_touched` is that test on its own, and
`crossing_eq` says that a crossing is nothing else, so that both halves of this
file are about one side.

The first half compares the side with the layout. What a layout asks for is
`Sends`, stated with no order on the sides: control goes to the neighbour of a
touched side, or to the auto peer of a screen with no neighbours, or nowhere.
`follows_layout_iff` says exactly where the detector does this: a corner whose
first side has no neighbour is lost, and the auto peer takes the sides a layout
leaves open.

The second half is the entry point. It keeps the coordinate along the side and
puts a fixed 32000 across it, so it is on the far screen, opposite and in
proportion, on few of them (`enters_far_iff`).
-/
import InputSync.Edge
import Mathlib.Algebra.Order.Ring.Abs

set_option autoImplicit false

namespace InputSync

/-! ## The side a point touches

The edge test by itself. Its order decides in the corners. -/

namespace EdgeSide

/-- The order in which `cross_local_edge` tests the sides. -/
def tested : List EdgeSide := [.Left, .Right, .Top, .Bottom]

/-- All four sides are tested. -/
theorem mem_tested (side : EdgeSide) : side ∈ tested := by
  cases side <;> simp [tested]

end EdgeSide

namespace EdgeDetector

/-- The point is at most `edge_threshold` from the side. -/
def touches (self : EdgeDetector) (p : Point) : EdgeSide → Bool
  | .Left => p.x ≤ self.edge_threshold
  | .Right => p.x ≥ self.local_width - self.edge_threshold
  | .Top => p.y ≤ self.edge_threshold
  | .Bottom => p.y ≥ self.local_height - self.edge_threshold

/-- The tests on integers, for a threshold no larger than the screen. -/
theorem touches_iff (self : EdgeDetector) (p : Point) (side : EdgeSide)
    (ht : 0 ≤ self.edge_threshold) (hwidth : self.edge_threshold ≤ self.local_width)
    (hheight : self.edge_threshold ≤ self.local_height) :
    self.touches p side = true ↔
      match side with
      | .Left => p.x.toInt ≤ self.edge_threshold.toInt
      | .Right => self.local_width.toInt - self.edge_threshold.toInt ≤ p.x.toInt
      | .Top => p.y.toInt ≤ self.edge_threshold.toInt
      | .Bottom => self.local_height.toInt - self.edge_threshold.toInt ≤ p.y.toInt := by
  rw [← Int32.toInt_sub_of_le _ _ ht hwidth, ← Int32.toInt_sub_of_le _ _ ht hheight]
  cases side <;> exact decide_eq_true_iff.trans Int32.le_iff_toInt_le

/-- The first touched side, in the order of the tests. -/
def first_touched (self : EdgeDetector) (p : Point) : Option EdgeSide :=
  EdgeSide.tested.find? (self.touches p)

/-- The neighbour the layout configures for a side of the local screen. -/
def neighbour (self : EdgeDetector) (side : EdgeSide) : Option ScreenId :=
  self.layout.neighbour_of self.local_screen side

/-- A crossing is of the first touched side, and keeps the point. -/
theorem cross_local_edge_eq (self : EdgeDetector) (p : Point) :
    self.cross_local_edge p = (self.first_touched p).map (fun side => (side, p)) := by
  rw [cross_local_edge, first_touched, EdgeSide.tested]
  split_ifs with hleft hright htop hbottom <;> simp [List.find?, touches, *]

/-- A crossing is the first touched side together with whoever is there: the neighbour,
or else the auto peer. -/
theorem crossing_eq (self : EdgeDetector) (p : Point) :
    self.crossing p = (self.first_touched p).bind (fun side =>
      ((self.neighbour side).or self.auto_peer).map (fun screen => (side, screen))) := by
  rw [crossing, cross_local_edge_eq, Option.bind_map]
  rfl

/-- The first touched side, one test after the other. -/
theorem first_touched_eq (self : EdgeDetector) (p : Point) :
    self.first_touched p =
      if self.touches p .Left then some .Left
      else if self.touches p .Right then some .Right
      else if self.touches p .Top then some .Top
      else if self.touches p .Bottom then some .Bottom
      else none := by
  rw [first_touched, EdgeSide.tested]
  split_ifs <;> simp [List.find?, *]

/-- The side found is touched. -/
theorem touches_first {self : EdgeDetector} {p : Point} {side : EdgeSide}
    (h : self.first_touched p = some side) : self.touches p side = true :=
  List.find?_some h

/-- No side is found exactly when none is touched. -/
theorem first_touched_eq_none (self : EdgeDetector) (p : Point) :
    self.first_touched p = none ↔ ∀ side, self.touches p side = false := by
  simp only [first_touched, List.find?_eq_none, Bool.not_eq_true]
  exact ⟨fun h side => h side side.mem_tested, fun h side _ => h side⟩

end EdgeDetector

/-! ## What a layout asks for

A specification that does not mention the order, and when the code meets it. -/

/-- The screen a decision hands control to. -/
def RouteDecision.target : RouteDecision → Option ScreenId
  | .EnterRemote screen _ _ _ => some screen
  | _ => none

namespace EdgeDetector

/-- A side the point touches has `screen` for its neighbour. -/
def Faces (self : EdgeDetector) (p : Point) (screen : ScreenId) : Prop :=
  ∃ side, self.touches p side = true ∧ self.neighbour side = some screen

/-- The layout configures no neighbour for the local screen. -/
def Unlaid (self : EdgeDetector) : Prop := ∀ side, self.neighbour side = none

/-- What the layout asks of a local move to `p` that hands control to `target`:
control goes to the neighbour of a touched side; on a screen with no neighbours,
to the auto peer at any side; and otherwise nowhere. -/
structure Lawful (edge : EdgeDetector) (p : Point) (target : Option ScreenId) : Prop where
  enters : target.isSome ↔ (∃ screen, edge.Faces p screen) ∨
    (edge.Unlaid ∧ (∃ side, edge.touches p side = true) ∧ edge.auto_peer.isSome)
  to_neighbour : ∀ screen, target = some screen →
    (∃ other, edge.Faces p other) → edge.Faces p screen
  to_auto : ∀ screen, target = some screen → edge.Unlaid → edge.auto_peer = some screen

/-- The detector does so, and a move that hands nothing over stays. -/
def FollowsLayout (self : EdgeDetector) (p : Point) : Prop :=
  let out := self.observe (.Mouse (.Move p.x p.y))
  self.Lawful p out.2.1.target ∧ (out.2.1.target = none → out.2.1 = .Stay ∧ out.1.route = .Local)

/-- The first touched side decides as the layout would: it has a neighbour, or
no touched side has one and there is no auto peer to take a side of a laid out
screen, or the auto peer is a neighbour at this point anyway. -/
def FirstDecides (self : EdgeDetector) (p : Point) : Prop :=
  ∀ side, self.first_touched p = some side →
    (self.neighbour side).isSome ∨
      ((∀ screen, ¬ self.Faces p screen) ∧ (self.auto_peer = none ∨ self.Unlaid)) ∨
      ∃ screen, self.auto_peer = some screen ∧ self.Faces p screen

variable {self : EdgeDetector} {p : Point}

/-- A screen that faces a point is the neighbour of some side. -/
theorem Faces.not_unlaid {screen : ScreenId} (h : self.Faces p screen) : ¬ self.Unlaid := by
  obtain ⟨side, -, hside⟩ := h
  intro hun
  rw [hun side] at hside
  cases hside

/-- The screen crossed to is the neighbour of the first touched side, else the
auto peer. -/
theorem crossing_target (self : EdgeDetector) (p : Point) :
    (self.crossing p).map Prod.snd
      = (self.first_touched p).bind (fun side => (self.neighbour side).or self.auto_peer) := by
  rw [crossing_eq, Option.map_bind]
  congr 1
  funext side
  simp only [Function.comp, Option.map_map]
  exact Option.map_id' ..

/-- A move hands control to what the crossing names, and without a crossing it
stays. -/
theorem observe_target (hroute : self.route = .Local) (p : Point) :
    (self.observe (.Mouse (.Move p.x p.y))).2.1.target
        = (self.first_touched p).bind (fun side => (self.neighbour side).or self.auto_peer) ∧
      ((self.observe (.Mouse (.Move p.x p.y))).2.1.target = none →
        (self.observe (.Mouse (.Move p.x p.y))).2.1 = .Stay ∧
          (self.observe (.Mouse (.Move p.x p.y))).1.route = .Local) := by
  rw [← crossing_target]
  -- the decision is made from the crossing alone
  cases hcross : self.crossing p with
  | none =>
      rw [self.observe_move_inside p.x p.y hroute hcross]
      exact ⟨rfl, fun _ => ⟨rfl, hroute⟩⟩
  | some c =>
      rw [self.observe_move_crossing p.x p.y c.1 c.2 hroute hcross]
      exact ⟨rfl, nofun⟩

/-- Nothing is asked of a point that touches no side. -/
theorem lawful_untouched (h : self.first_touched p = none) : self.Lawful p none := by
  have huntouched := (self.first_touched_eq_none p).mp h
  refine ⟨⟨nofun, ?_⟩, nofun, nofun⟩
  rintro (⟨screen, side, hside, -⟩ | ⟨-, ⟨side, hside⟩, -⟩)
  · rw [huntouched side] at hside
    cases hside
  · rw [huntouched side] at hside
    cases hside

/-- A neighbour of a touched side is always lawful. -/
theorem lawful_neighbour {side : EdgeSide} {screen : ScreenId}
    (htouch : self.touches p side = true) (h : self.neighbour side = some screen) :
    self.Lawful p (some screen) := by
  have hfaces : self.Faces p screen := ⟨side, htouch, h⟩
  refine ⟨⟨fun _ => .inl ⟨screen, hfaces⟩, fun _ => rfl⟩, ?_, fun _ _ hun => ?_⟩
  · rintro _ ⟨⟩ -
    exact hfaces
  · exact absurd hun hfaces.not_unlaid

/-- The auto peer at a touched side is lawful on a screen with no neighbours,
and where it is a neighbour itself. -/
theorem lawful_auto {side : EdgeSide} {screen : ScreenId} (htouch : self.touches p side = true)
    (h : self.auto_peer = some screen) :
    self.Lawful p (some screen) ↔ self.Unlaid ∨ self.Faces p screen := by
  constructor
  · intro hlawful
    rcases hlawful.enters.mp rfl with hfaces | ⟨hun, -⟩
    · exact .inr (hlawful.to_neighbour screen rfl hfaces)
    · exact .inl hun
  · rintro (hun | hfaces)
    · -- nobody is faced on such a screen
      refine ⟨⟨fun _ => .inr ⟨hun, ⟨side, htouch⟩, by rw [h]; rfl⟩, fun _ => rfl⟩, ?_, ?_⟩
      · rintro _ - ⟨other, hother⟩
        exact absurd hun hother.not_unlaid
      · rintro _ ⟨⟩ -
        exact h
    · -- here the auto peer is the neighbour, if not of this side
      obtain ⟨other, hother, hneighbour⟩ := hfaces
      exact lawful_neighbour hother hneighbour

/-- Staying at a touched side, with no auto peer, is lawful when no touched side
has a neighbour. -/
theorem lawful_none (h : self.auto_peer = none) :
    self.Lawful p none ↔ ∀ screen, ¬ self.Faces p screen := by
  constructor
  · intro hlawful screen hfaces
    cases hlawful.enters.mpr (.inl ⟨screen, hfaces⟩)
  · intro hnone
    refine ⟨⟨nofun, ?_⟩, nofun, nofun⟩
    rintro (⟨screen, hfaces⟩ | ⟨-, -, hauto⟩)
    · exact absurd hfaces (hnone screen)
    · rw [h] at hauto
      cases hauto

/-- **When crossings follow the layout.** Exactly when the first touched side
decides as the layout would. -/
theorem follows_layout_iff (self : EdgeDetector) (hroute : self.route = .Local) (p : Point) :
    self.FollowsLayout p ↔ self.FirstDecides p := by
  have hout := observe_target hroute p
  rw [FollowsLayout, and_iff_left hout.2, hout.1, FirstDecides]
  cases hfirst : self.first_touched p with
  | none => exact ⟨nofun, fun _ => lawful_untouched hfirst⟩
  | some side =>
      have htouch := touches_first hfirst
      simp only [Option.bind_some, Option.some.injEq, forall_eq']
      cases hneighbour : self.neighbour side with
      | some screen => simp [lawful_neighbour htouch hneighbour]
      | none =>
          cases hauto : self.auto_peer with
          | none => simp [lawful_none hauto]
          | some peer =>
              rw [Option.none_or, lawful_auto htouch hauto]
              -- an unlaid screen faces nothing
              have hun : self.Unlaid → ∀ screen, ¬ self.Faces p screen :=
                fun hun _ hfaces => hfaces.not_unlaid hun
              simp only [Option.isSome_none, Bool.false_eq_true, reduceCtorEq, false_or,
                Option.some.injEq, exists_eq_left']
              exact or_congr_left ⟨fun h => ⟨hun h, h⟩, fun h => h.2⟩

/-- The theorem in the middle of the left edge, with a neighbour there. -/
theorem follows_layout_iff_left :
    let edge := new ⟨0⟩ 1920 1080 ⟨[], [⟨⟨0⟩, .Left, ⟨1⟩⟩]⟩
    edge.FollowsLayout ⟨0, 500⟩ ↔ edge.FirstDecides ⟨0, 500⟩ :=
  follows_layout_iff _ rfl _

/-- A screen with a neighbour above it, and no other. -/
def below : EdgeDetector := new ⟨0⟩ 1920 1080 ⟨[], [⟨⟨0⟩, .Top, ⟨1⟩⟩]⟩

/-- In the upper left corner of that screen a move stays; at its bottom edge one
enters an auto peer the layout does not name. -/
theorem corner_not_lawful :
    ¬ below.FollowsLayout ⟨0, 0⟩ ∧
      ¬ (below.set_auto_peer (some ⟨7⟩)).FollowsLayout ⟨900, 1079⟩ := by
  constructor
  · intro h
    have hfaces : below.Faces ⟨0, 0⟩ ⟨1⟩ := ⟨.Top, by decide, by decide⟩
    exact absurd (h.1.enters.mpr (.inl ⟨⟨1⟩, hfaces⟩)) (by decide)
  · intro h
    rcases h.1.enters.mp (by decide) with ⟨screen, side, htouch, hside⟩ | ⟨hun, -⟩
    · cases side with
      | Top => exact absurd htouch (by decide)
      | Left | Right | Bottom => exact absurd (hside.symm.trans (by decide)) (Option.some_ne_none _)
    · exact absurd (hun .Top) (by decide)

end EdgeDetector

/-! ## The entry point

Coordinates along and across a side, so that the four sides are one case. -/

namespace EdgeSide

/-- The side across the screen. -/
def opposite : EdgeSide → EdgeSide
  | .Top => .Bottom
  | .Bottom => .Top
  | .Left => .Right
  | .Right => .Left

/-- Of a pair of coordinates or extents, the one along the side. -/
def along {α : Type} : EdgeSide → α → α → α
  | .Left, _, y | .Right, _, y => y
  | .Top, x, _ | .Bottom, x, _ => x

/-- The one across it. -/
def across {α : Type} (side : EdgeSide) (x y : α) : α := side.along y x

end EdgeSide

/-- The point is a pixel of a screen of this size. -/
structure Point.Inside (p : Point) (width height : Int32) : Prop where
  left : 0 ≤ p.x.toInt
  right : p.x.toInt < width.toInt
  top : 0 ≤ p.y.toInt
  bottom : p.y.toInt < height.toInt

/-- It is a pixel of the outermost row or column on the side. -/
def Point.OnSide (p : Point) (width height : Int32) : EdgeSide → Prop
  | .Left => p.x.toInt = 0
  | .Right => p.x.toInt = width.toInt - 1
  | .Top => p.y.toInt = 0
  | .Bottom => p.y.toInt = height.toInt - 1

/-- `q` is `p` scaled from the extent `n` to the extent `m`, rounded either way:
it is less than one from the quotient. -/
def ScaledTo (p n q m : Int) : Prop := |q * n - p * m| < n

/-- What entering the screen `info` over `side` from `p` is to be. -/
structure EntersFar (edge : EdgeDetector) (side : EdgeSide) (p : Point) (info : ScreenInfo)
    (entry : Point) : Prop where
  inside : entry.Inside info.width info.height
  opposite : entry.OnSide info.width info.height side.opposite
  scaled : ScaledTo (side.along p.x p.y).toInt
    (side.along edge.local_width edge.local_height).toInt
    (side.along entry.x entry.y).toInt (side.along info.width info.height).toInt

/-- When the entry point, which keeps the position along the side and puts 0 or
32000 across it, is that. -/
structure EntryFits (edge : EdgeDetector) (side : EdgeSide) (p : Point) (info : ScreenInfo) :
    Prop where
  within : (side.along p.x p.y).toInt < (side.along info.width info.height).toInt
  proportional : (side.along p.x p.y).toInt *
      |(side.along edge.local_width edge.local_height).toInt
        - (side.along info.width info.height).toInt|
    < (side.along edge.local_width edge.local_height).toInt
  across : side = .Left ∨ side = .Top → (side.across info.width info.height).toInt = 32001

section
variable {edge : EdgeDetector} {side : EdgeSide} {p : Point} {info : ScreenInfo}

/-- The entry point keeps the position along the side. -/
theorem entry_point_along (side : EdgeSide) (p : Point) :
    side.along (entry_point side p).x (entry_point side p).y = side.along p.x p.y := by
  cases side <;> rfl

/-- Across it, it is 0 or 32000. -/
theorem entry_point_across (side : EdgeSide) (p : Point) :
    side.across (entry_point side p).x (entry_point side p).y
      = if side = .Left ∨ side = .Top then 32000 else 0 := by
  cases side <;> rfl

/-- A pixel of a screen, in the coordinates of a side. -/
theorem inside_iff (side : EdgeSide) (q : Point) (width height : Int32) :
    q.Inside width height ↔
      (0 ≤ (side.along q.x q.y).toInt ∧
        (side.along q.x q.y).toInt < (side.along width height).toInt) ∧
      0 ≤ (side.across q.x q.y).toInt ∧
        (side.across q.x q.y).toInt < (side.across width height).toInt := by
  constructor
  · rintro ⟨hleft, hright, htop, hbottom⟩
    cases side with
    | Top | Bottom => exact ⟨⟨hleft, hright⟩, htop, hbottom⟩
    | Left | Right => exact ⟨⟨htop, hbottom⟩, hleft, hright⟩
  · rintro ⟨⟨hlow, hhigh⟩, hnear, hfar⟩
    cases side with
    | Top | Bottom => exact ⟨hlow, hhigh, hnear, hfar⟩
    | Left | Right => exact ⟨hnear, hfar, hlow, hhigh⟩

/-- The outermost pixels on the side opposite a crossing. -/
theorem on_opposite_iff (side : EdgeSide) (q : Point) (width height : Int32) :
    q.OnSide width height side.opposite ↔
      (side.across q.x q.y).toInt
        = if side = .Left ∨ side = .Top then (side.across width height).toInt - 1 else 0 := by
  cases side <;> rfl

/-- A position kept along a side is scaled when the extents differ by little
enough. -/
theorem scaled_self_iff (p n m : Int) (h : 0 ≤ p) : ScaledTo p n p m ↔ p * |n - m| < n := by
  rw [ScaledTo, ← mul_sub, abs_mul, abs_of_nonneg h]

/-- An entry point is right exactly when it fits. -/
theorem entry_point_far (hinside : p.Inside edge.local_width edge.local_height)
    (hwidth : 0 < info.width.toInt) (hheight : 0 < info.height.toInt) :
    EntersFar edge side p info (entry_point side p) ↔ EntryFits edge side p info := by
  have hlow := ((inside_iff side p _ _).mp hinside).1.1
  have hsize : 0 < (side.across info.width info.height).toInt := by
    cases side with
    | Top | Bottom => exact hheight
    | Left | Right => exact hwidth
  have hscaled := scaled_self_iff (side.along p.x p.y).toInt
    (side.along edge.local_width edge.local_height).toInt
    (side.along info.width info.height).toInt hlow
  constructor
  · rintro ⟨hin, hopp, hsc⟩
    rw [inside_iff side, entry_point_along] at hin
    rw [on_opposite_iff, entry_point_across] at hopp
    rw [entry_point_along, hscaled] at hsc
    -- 32000 is the last pixel across only of a screen of 32001
    refine ⟨hin.1.2, hsc, fun hside => ?_⟩
    rw [if_pos hside, if_pos hside] at hopp
    have h32000 : (32000 : Int32).toInt = 32000 := by decide
    omega
  · -- and of such a screen it is
    rintro ⟨hwithin, hprop, hacross⟩
    refine ⟨(inside_iff side _ _ _).mpr ?_, (on_opposite_iff side _ _ _).mpr ?_, ?_⟩
    · rw [entry_point_along, entry_point_across]
      refine ⟨⟨hlow, hwithin⟩, ?_⟩
      split_ifs with hside
      · rw [hacross hside]
        decide
      · exact ⟨le_refl _, hsize⟩
    · rw [entry_point_across]
      split_ifs with hside
      · rw [hacross hside]
        decide
      · rfl
    · rw [entry_point_along]
      exact hscaled.mpr hprop

end

/-- **When the cursor enters on the far screen.** A crossing enters on the
target, opposite and in proportion, exactly when the position it keeps fits. -/
theorem enters_far_iff (edge : EdgeDetector) (hroute : edge.route = .Local) (p : Point)
    (hinside : p.Inside edge.local_width edge.local_height) (side : EdgeSide) (screen : ScreenId)
    (hcross : edge.crossing p = some (side, screen)) :
    ∀ info ∈ edge.layout.screens, info.id = screen →
      0 < info.width.toInt → 0 < info.height.toInt →
      ((∃ entry warp m,
        (edge.observe (.Mouse (.Move p.x p.y))).2.1 = .EnterRemote screen entry warp m ∧
          EntersFar edge side p info entry) ↔ EntryFits edge side p info) := by
  intro info _ _ hwidth hheight
  rw [edge.observe_move_crossing p.x p.y side screen hroute hcross,
    ← entry_point_far hinside hwidth hheight]
  constructor
  · rintro ⟨entry, warp, m, hdecision, hfar⟩
    obtain ⟨-, rfl, -⟩ := RouteDecision.EnterRemote.inj hdecision
    exact hfar
  · intro hfar
    exact ⟨_, _, _, rfl, hfar⟩

/-- The theorem for two screens of 1920 by 1080 side by side, crossed on the
right. -/
theorem enters_far_iff_right :
    let edge := EdgeDetector.new ⟨0⟩ 1920 1080
      ⟨[⟨⟨1⟩, "laptop", 1920, 1080⟩], [⟨⟨0⟩, .Right, ⟨1⟩⟩]⟩
    (∃ entry warp m,
      (edge.observe (.Mouse (.Move 1919 540))).2.1 = .EnterRemote ⟨1⟩ entry warp m ∧
        EntersFar edge .Right ⟨1919, 540⟩ ⟨⟨1⟩, "laptop", 1920, 1080⟩ entry) ↔
      EntryFits edge .Right ⟨1919, 540⟩ ⟨⟨1⟩, "laptop", 1920, 1080⟩ :=
  enters_far_iff _ rfl ⟨1919, 540⟩ ⟨by decide, by decide, by decide, by decide⟩ .Right ⟨1⟩
    (by decide) _ (List.mem_singleton.mpr rfl) rfl (by decide) (by decide)

/-- A screen of 1080 lines, with one of 720 on its left. -/
def beside : EdgeDetector :=
  .new ⟨0⟩ 1920 1080 ⟨[⟨⟨1⟩, "laptop", 1280, 720⟩], [⟨⟨0⟩, .Left, ⟨1⟩⟩]⟩

/-- Crossing it at line 900 enters at (32000, 900), outside the screen entered. -/
theorem entry_outside :
    ∃ warp m, (beside.observe (.Mouse (.Move 0 900))).2.1
        = .EnterRemote ⟨1⟩ ⟨32000, 900⟩ warp m ∧
      ¬ EntersFar beside .Left ⟨0, 900⟩ ⟨⟨1⟩, "laptop", 1280, 720⟩ ⟨32000, 900⟩ :=
  ⟨⟨2, 540⟩, .empty, by decide, fun h => absurd h.inside.right (by decide)⟩

end InputSync
