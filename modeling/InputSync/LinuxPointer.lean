/-
Absolute moves on Linux (`crates/platform/src/linux/inject.rs`): the pointer the
injector believes in, and the pointer of the screen.

A uinput device with relative axes cannot place the pointer, so the injector
keeps the last position it was told, starting at (0, 0), and writes the
difference. The screen adds what is written to a pointer of its own, wherever
that was, and stops it at the borders. A move lands where it says when the two
agree, or when a border takes up the difference; `nudge_lands_iff` is this on one
coordinate. Nothing brings the two together again once they differ, which is why
`moves_land_iff` has the condition at every step.

`batch` is what `inject` writes for an event, and `inject_batch` says so: the
screen of this file and the device of `Inject.lean` read the same events.
-/
import InputSync.Inject
import Mathlib.Algebra.Group.Int.Defs

set_option autoImplicit false

namespace InputSync

/-! ## What an event writes

`inject`, by what goes to the device. -/

namespace LinuxInject

/-- The evdev events `inject` writes, without the report that ends them. -/
def batch (self : LinuxInject) (event : InputEvent) : List input_event :=
  match event with
  | .Mouse (.Move x y) =>
    let dx := x - self.last_pos.x
    let dy := y - self.last_pos.y
    if dx ≠ 0 ∨ dy ≠ 0 then [rel_event .X dx, rel_event .Y dy] else []
  | .Mouse (.MoveRelative dx dy) => [rel_event .X dx, rel_event .Y dy]
  | .Mouse (.Button button state) =>
    match button_to_evdev button with
    | none => []
    | some code => [key_event_raw code (key_state_value state)]
  | .Mouse (.Scroll delta) => scroll_events delta
  | .Key k =>
    match hid_to_evdev k.code with
    | none => []
    | some code => [key_event_raw code (key_state_value k.state)]
  | .ScreenEnter .. | .ScreenLeave _ | .ModifierSync _ => []

variable (keybit : UInt16 → Bool) (self : LinuxInject)

/-- A batch is its events one after the other; the report behind them moves nothing. -/
theorem write_batch_dev (events : List input_event) :
    (self.write_batch keybit events).dev
      = events.foldl (InputDevice.handle_evdev keybit) self.dev := by
  rw [write_batch, List.foldl_append]
  rfl

/-- The device sees the batch of the event. -/
theorem inject_batch (event : InputEvent) :
    (self.inject keybit event).dev
      = (self.batch event).foldl (InputDevice.handle_evdev keybit) self.dev := by
  cases event with
  | Mouse event =>
      cases event with
      | Move x y =>
          simp only [inject, batch]
          split_ifs
          · exact write_batch_dev ..
          · -- a move by nothing is not written, and neither is its report
            rfl
      | MoveRelative dx dy => exact write_batch_dev ..
      | Button button state =>
          simp only [inject, batch]
          cases button_to_evdev button with
          | none => rfl
          | some code => exact write_batch_dev ..
      | Scroll delta =>
          simp only [inject, batch]
          -- a scroll by nothing is not written either
          split_ifs with hempty
          · rw [List.isEmpty_iff.mp hempty]
            rfl
          · exact write_batch_dev ..
  | Key k =>
      simp only [inject, batch, inject_key]
      cases hid_to_evdev k.code with
      | none => rfl
      | some code => exact write_batch_dev ..
  | ScreenEnter x y m => rfl
  | ScreenLeave s => rfl
  | ModifierSync m => rfl

end LinuxInject

/-! ## The pointer of the screen

The pointer the user sees belongs to the compositor. It adds up what the device writes
and never leaves the screen. -/

/-- A coordinate on an axis of `n` pixels, stopped at the borders. -/
def stopped (n v : Int) : Int := max 0 (min v (n - 1))

/-- A coordinate that is on the axis. -/
def On (n v : Int) : Prop := 0 ≤ v ∧ v < n

/-- A screen of positive size. -/
structure Screen where
  width : Int
  height : Int
  width_pos : 0 < width
  height_pos : 0 < height

/-- The pointer adds what is written on the two axes, and stops at the borders. -/
def Screen.handle (screen : Screen) (cursor : Int × Int) (ev : input_event) : Int × Int :=
  if ev.type_ = EV_REL then
    if ev.code = RelativeAxis.X.code then
      (stopped screen.width (cursor.1 + ev.value.toInt), cursor.2)
    else if ev.code = RelativeAxis.Y.code then
      (cursor.1, stopped screen.height (cursor.2 + ev.value.toInt))
    else cursor
  else cursor

/-- The cursor is on the screen. -/
def Screen.Has (screen : Screen) (cursor : Int × Int) : Prop :=
  On screen.width cursor.1 ∧ On screen.height cursor.2

/-- An injector and the screen's pointer. -/
structure PointerHost where
  inj : LinuxInject
  cursor : Int × Int
deriving DecidableEq

namespace PointerHost

variable (keybit : UInt16 → Bool) (screen : Screen)

/-- One event injected. -/
def step (self : PointerHost) (event : InputEvent) : Option PointerHost :=
  some
    { inj := self.inj.inject keybit event
      cursor := (self.inj.batch event).foldl screen.handle self.cursor }

/-- The differences a move takes are in range for `i32`. A relative move
saturates. -/
def NoOverflow (self : PointerHost) (event : InputEvent) : Prop :=
  ∀ x y, event = .Mouse (.Move x y) →
    (-2147483648 ≤ x.toInt - self.inj.last_pos.x.toInt ∧
      x.toInt - self.inj.last_pos.x.toInt < 2147483648) ∧
    -2147483648 ≤ y.toInt - self.inj.last_pos.y.toInt ∧
      y.toInt - self.inj.last_pos.y.toInt < 2147483648

/-- Nothing overflows, and a move to a point of the screen ends there. -/
def Lands (self : PointerHost) (event : InputEvent) : Prop :=
  self.NoOverflow event ∧ ∀ x y, event = .Mouse (.Move x y) → screen.Has (x.toInt, y.toInt) →
    ∀ next, self.step keybit screen event = some next → next.cursor = (x.toInt, y.toInt)

/-- The pointer at `r` and the believed one at `l` agree, or a border at `v`
takes up the difference. -/
def Agreed (n r l v : Int) : Prop := r = l ∨ (v = 0 ∧ r ≤ l) ∨ (v = n - 1 ∧ l ≤ r)

/-- When an event lands, from where the two pointers stand before it. -/
def InStep (self : PointerHost) (event : InputEvent) : Prop :=
  self.NoOverflow event ∧ ∀ x y, event = .Mouse (.Move x y) → screen.Has (x.toInt, y.toInt) →
    Agreed screen.width self.cursor.1 self.inj.last_pos.x.toInt x.toInt ∧
      Agreed screen.height self.cursor.2 self.inj.last_pos.y.toInt y.toInt

/-! ## One coordinate

The two axes are independent, so the question is about integers: when does adding a
difference and stopping at a border end where it should? -/

/-- A coordinate that is stopped at the borders is on the axis, -/
theorem stopped_on {n : Int} (hn : 0 < n) (v : Int) : On n (stopped n v) := by
  rw [On, stopped]
  omega

/-- and one that is on the axis is not stopped. -/
theorem stopped_of_on {n v : Int} (h : On n v) : stopped n v = v := by
  rw [On] at h
  rw [stopped]
  omega

/-- A difference from `l` moves the pointer from `r` to `v` exactly when the two
agree as far as the border lets it show. -/
theorem nudge_lands_iff {n r l v : Int} (hv : On n v) :
    stopped n (r + (v - l)) = v ↔ Agreed n r l v := by
  rw [On] at hv
  rw [stopped, Agreed]
  omega

/-! ## One event

Both axes together, for each kind of event. -/

/-- The pointer stays on the screen. -/
theorem handle_has (cursor : Int × Int) (ev : input_event) (h : screen.Has cursor) :
    screen.Has (screen.handle cursor ev) := by
  rw [Screen.handle]
  split_ifs
  · exact ⟨stopped_on screen.width_pos _, h.2⟩
  · exact ⟨h.1, stopped_on screen.height_pos _⟩
  · exact h
  · exact h

/-- The pointer stays on the screen through a batch of events, -/
theorem foldl_handle_has (events : List input_event) (cursor : Int × Int)
    (h : screen.Has cursor) : screen.Has (events.foldl screen.handle cursor) := by
  induction events generalizing cursor with
  | nil => exact h
  | cons ev events ih => exact ih _ (handle_has screen cursor ev h)

/-- and so through an event. -/
theorem step_has (self next : PointerHost) (event : InputEvent) (h : screen.Has self.cursor)
    (hstep : self.step keybit screen event = some next) : screen.Has next.cursor := by
  cases hstep
  exact foldl_handle_has screen _ _ h

/-- A pair of moves on the axes. -/
theorem handle_rel_pair (cursor : Int × Int) (dx dy : Int32) :
    [rel_event .X dx, rel_event .Y dy].foldl screen.handle cursor
      = (stopped screen.width (cursor.1 + dx.toInt),
          stopped screen.height (cursor.2 + dy.toInt)) := rfl

/-- An absolute move adds the difference to the last position, whether it writes
it or not. -/
theorem move_cursor (self : PointerHost) (x y : Int32) (h : screen.Has self.cursor) :
    (self.inj.batch (.Mouse (.Move x y))).foldl screen.handle self.cursor
      = (stopped screen.width (self.cursor.1 + (x - self.inj.last_pos.x).toInt),
          stopped screen.height (self.cursor.2 + (y - self.inj.last_pos.y).toInt)) := by
  simp only [LinuxInject.batch]
  split_ifs with hmoved
  · rw [handle_rel_pair]
  · obtain ⟨hx, hy⟩ := not_or.mp hmoved
    -- what was not written would not have moved the pointer
    rw [not_not.mp hx, not_not.mp hy, show (0 : Int32).toInt = 0 from rfl, Int.add_zero,
      Int.add_zero, stopped_of_on h.1, stopped_of_on h.2]
    rfl

/-- An event lands exactly when the two pointers agree before it. -/
theorem lands_iff_in_step (self : PointerHost) (event : InputEvent)
    (h : screen.Has self.cursor) :
    self.Lands keybit screen event ↔ self.InStep screen event := by
  -- both sides ask that nothing overflows, so the rest is about one move
  refine and_congr_right fun hfits => forall₂_congr fun x y => ?_
  refine forall_congr' fun hevent => forall_congr' fun hin => ?_
  subst hevent
  obtain ⟨⟨hxlow, hxhigh⟩, hylow, hyhigh⟩ := hfits x y rfl
  have hcursor := move_cursor screen self x y h
  rw [toInt_sub_of_fits _ _ hxlow hxhigh, toInt_sub_of_fits _ _ hylow hyhigh] at hcursor
  rw [← nudge_lands_iff hin.1, ← nudge_lands_iff hin.2, ← Prod.mk.injEq, ← hcursor]
  simp only [step, Option.some.injEq, forall_eq']

/-! ## Runs

The condition is about where the two pointers stand before a move, so it is checked
along the run. -/

/-- **When absolute moves land.** Along any run of a fresh injector, nothing
overflows and every move to a point of the screen ends there exactly when, before
each such move, the pointers agree or a border takes up the difference. -/
theorem moves_land_iff (cursor : Int × Int) (hcursor : screen.Has cursor)
    (events : List InputEvent) :
    Along (step keybit screen) (Lands keybit screen) ⟨.new, cursor⟩ events ↔
      Along (step keybit screen) (InStep screen) ⟨.new, cursor⟩ events :=
  along_congr _ _ _ (fun self => screen.Has self.cursor)
    (fun self next event h hstep => step_has keybit screen self next event h hstep)
    (fun self event h => lands_iff_in_step keybit screen self event h) _ _ hcursor

/-- A screen of 1920 by 1080. -/
def full_hd : Screen := ⟨1920, 1080, by decide, by decide⟩

/-- Moves of a pointer that starts in the corner the injector assumes. A relative
move runs into the right border, so from then on the injector believes the pointer
381 pixels further; the move to the left border lands all the same. -/
theorem moves_land_iff_corner :
    Along (step (fun _ => true) full_hd) (Lands (fun _ => true) full_hd) ⟨.new, (0, 0)⟩
      [.Mouse (.Move 10 10), .Mouse (.Move 300 200), .Mouse (.MoveRelative 2000 0),
        .Mouse (.Move 0 40)] := by
  refine (moves_land_iff (fun _ => true) full_hd (0, 0)
    ⟨⟨by decide, by decide⟩, by decide, by decide⟩ _).mpr ?_
  -- what is left is arithmetic on the four states
  simp only [Along, step, InStep, NoOverflow, Screen.Has, On, Agreed, Option.some.injEq,
    forall_eq', InputEvent.Mouse.injEq, MouseEvent.Move.injEq, and_imp, reduceCtorEq,
    false_imp_iff, implies_true, and_true, true_and, forall_apply_eq_imp_iff]
  refine ⟨⟨?_, ?_⟩, ⟨?_, ?_⟩, ?_, ?_⟩ <;> decide

/-- From (100, 100), a move to (10, 10) ends at (110, 110). -/
theorem first_move_astray :
    ¬ Along (step (fun _ => true) full_hd) (Lands (fun _ => true) full_hd) ⟨.new, (100, 100)⟩
      [.Mouse (.Move 10 10)] := by
  intro h
  have hin : full_hd.Has ((10 : Int32).toInt, (10 : Int32).toInt) :=
    ⟨⟨by decide, by decide⟩, by decide, by decide⟩
  exact absurd (h.1.2 10 10 rfl hin _ rfl) (by decide)

end PointerHost

end InputSync
