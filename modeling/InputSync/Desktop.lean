/-
The size of the local desktop, and the edges it gives the router
(`local_screen_info` in `crates/platform/src/windows/mod.rs`, the monitors of
`monitor.rs`, and `spawn_server` in `crates/daemon/src/session.rs`).

The monitors are folded into a bounding box, of which only the size is handed
on; the mouse hook reports positions in the coordinates of the virtual desktop.
So the router's edges are those of a box of the right size at the origin. The
comparison is one axis at a time: `SoundAxis` says that the tests `≤ 1` and
`≥ n - 1` on one coordinate hold only at the real edges, and `sound_axis_iff`
that they do when the box starts at the origin, or is one or two pixels thin.

`real_edges_iff` puts the axes together. The vertical test is only reached
where the horizontal one fails, so a box less than four pixels wide hides it.
-/
import InputSync.Crossing

set_option autoImplicit false

namespace InputSync

/-! ## Monitors and their bounding box

The box is computed in `i32` and only its size is kept. -/

/-- The rectangle of a monitor (`RECT`), whose sizes are positive and in range
for `i32`. -/
structure Rect where
  left : Int32
  top : Int32
  right : Int32
  bottom : Int32
  wide : left.toInt < right.toInt
  high : top.toInt < bottom.toInt
  width_fits : right.toInt - left.toInt < 2147483648
  height_fits : bottom.toInt - top.toInt < 2147483648

/-- `MonitorInfo`, without the name and the primary flag. -/
structure MonitorInfo where
  x : Int32
  y : Int32
  width : Int32
  height : Int32
deriving DecidableEq

/-- What `monitor_enum_proc` collects for a rectangle. -/
def monitor_enum_proc (rect : Rect) : MonitorInfo where
  x := rect.left
  y := rect.top
  width := rect.right - rect.left
  height := rect.bottom - rect.top

/-- The fold of `local_screen_info`: least and greatest corners. -/
def bounding_box (monitors : List MonitorInfo) : Int32 × Int32 × Int32 × Int32 :=
  monitors.foldl (fun (mnx, mny, mxx, mxy) m =>
      (min mnx m.x, min mny m.y, max mxx (m.x + m.width), max mxy (m.y + m.height)))
    (Int32.maxValue, Int32.maxValue, Int32.minValue, Int32.minValue)

/-- `local_screen_info`: the extents of the box, in `i32`, and the name of the host.
Where the box begins is not passed on. -/
def local_screen_info (hostname : String) (monitors : List MonitorInfo) : ScreenInfo :=
  let (min_x, min_y, max_x, max_y) := bounding_box monitors
  let (width, height) :=
    if monitors = [] then (0, 0) else (max (max_x - min_x) 0, max (max_y - min_y) 0)
  { id := ⟨0⟩, name := hostname, width, height }

/-- The detector of `spawn_server`. -/
def spawn_server_edge (info : ScreenInfo) (layout : ScreenLayout) : EdgeDetector :=
  .new info.id (max info.width 1) (max info.height 1) layout

/-! ## One axis

The two axes are treated alike, so the comparison is made once, with the low test first
as in the source. -/

/-- The size the router has for an extent: its own, or 1 when it overflows. -/
def router_size (n : Int) : Int := if n < 2147483648 then n else 1

/-- On an axis where the box takes the `n` pixels from `a` on, the router's low
test holds only within one of the low edge, and its high one, where it is
reached, only within one of the high edge. -/
def SoundAxis (a n : Int) : Prop :=
  ∀ x, a ≤ x → x < a + n →
    (x ≤ 1 → x ≤ a + 1) ∧ (¬ x ≤ 1 → router_size n - 1 ≤ x → a + n - 1 ≤ x)

/-- The axis starts at the origin, or is too thin for it to matter. -/
def AtOrigin (a n : Int) : Prop := a = 0 ∨ n = 1 ∨ (n = 2 ∧ a ≤ 1)

section
variable {a n : Int}

/-- An extent fits, or the code replaces it by one. -/
theorem router_size_cases (n : Int) :
    (n < 2147483648 ∧ router_size n = n) ∨ (2147483648 ≤ n ∧ router_size n = 1) := by
  rw [router_size]
  split_ifs <;> omega

/-- The tests of one axis are sound exactly when it starts at the origin. -/
theorem sound_axis_iff (hn : 0 < n) (hhigh : a + n < 2147483648) :
    SoundAxis a n ↔ AtOrigin a n := by
  have hsize := router_size_cases n
  constructor
  · intro h
    rw [AtOrigin]
    by_contra hnot
    rcases Int.lt_trichotomy a 0 with ha | ha | ha
    · -- the third pixel is still left of the router's low edge
      have := h (a + 2) (by omega) (by omega)
      omega
    · omega
    · rcases Int.lt_or_le a n with han | han
      · -- the router's high edge is inside
        have := h (max 2 (router_size n - 1)) (by omega) (by omega)
        omega
      · have := h a (by omega) (by omega)
        omega
  · intro h x hlow hxhigh
    rw [AtOrigin] at h
    omega

/-- There they also hold at every pixel of the real edges. -/
theorem at_origin_complete (hhigh : a + n < 2147483648) (h : AtOrigin a n) (x : Int)
    (hlow : a ≤ x) (hxhigh : x < a + n) (hnear : x ≤ a + 1 ∨ a + n - 1 ≤ x) :
    x ≤ 1 ∨ router_size n - 1 ≤ x := by
  have hsize := router_size_cases n
  rw [AtOrigin] at h
  omega

end

/-! ## The box the fold computes

The fold starts from extreme values that are neutral for the corners of any monitor, so
it yields the least and the greatest of them. -/

/-- The monitors of a desktop: at least one. -/
structure Desktop where
  rects : List Rect
  nonempty : rects ≠ []

namespace Desktop

/-- The corners of the bounding box. -/
def min_x (d : Desktop) : Int := (d.rects.map (fun r => r.left.toInt)).min (by simp [d.nonempty])
/-- The least vertical coordinate. -/
def min_y (d : Desktop) : Int := (d.rects.map (fun r => r.top.toInt)).min (by simp [d.nonempty])
/-- The right edge, which belongs to no pixel. -/
def max_x (d : Desktop) : Int := (d.rects.map (fun r => r.right.toInt)).max (by simp [d.nonempty])
/-- The bottom edge, likewise. -/
def max_y (d : Desktop) : Int := (d.rects.map (fun r => r.bottom.toInt)).max (by simp [d.nonempty])

/-- The extents. -/
def width (d : Desktop) : Int := d.max_x - d.min_x
/-- Vertically. -/
def height (d : Desktop) : Int := d.max_y - d.min_y

/-- What `enumerate` reports. -/
def monitors (d : Desktop) : List MonitorInfo := d.rects.map monitor_enum_proc

end Desktop

/-- The smaller of two coordinates, as integers: the order of `i32` is that of its
values. -/
theorem toInt_min (x y : Int32) : (min x y).toInt = min x.toInt y.toInt := by
  rw [show min x y = if x ≤ y then x else y from rfl]
  split_ifs with h <;> rw [Int32.le_iff_toInt_le] at h <;> omega

/-- The larger of two. -/
theorem toInt_max (x y : Int32) : (max x y).toInt = max x.toInt y.toInt := by
  rw [show max x y = if x ≤ y then y else x from rfl]
  split_ifs with h <;> rw [Int32.le_iff_toInt_le] at h <;> omega

/-- A fold of `i32` corners is the fold of their integers. -/
theorem foldl_toInt {α : Type} {op : Int32 → Int32 → Int32} {op' : Int → Int → Int}
    (hop : ∀ x y, (op x y).toInt = op' x.toInt y.toInt) (f : α → Int32) (l : List α) (acc : Int32) :
    (l.foldl (fun acc r => op acc (f r)) acc).toInt
      = (l.map (fun r => (f r).toInt)).foldl op' acc.toInt := by
  induction l generalizing acc with
  | nil => rfl
  | cons r l ih => rw [List.foldl_cons, ih, hop, List.map_cons, List.foldl_cons]

/-- The fold of `local_screen_info` is one fold for each corner. -/
theorem bounding_box_foldl (monitors : List MonitorInfo) (mnx mny mxx mxy : Int32) :
    monitors.foldl (fun (mnx, mny, mxx, mxy) m =>
        (min mnx m.x, min mny m.y, max mxx (m.x + m.width), max mxy (m.y + m.height)))
      (mnx, mny, mxx, mxy)
    = (monitors.foldl (fun acc m => min acc m.x) mnx,
        monitors.foldl (fun acc m => min acc m.y) mny,
        monitors.foldl (fun acc m => max acc (m.x + m.width)) mxx,
        monitors.foldl (fun acc m => max acc (m.y + m.height)) mxy) := by
  induction monitors generalizing mnx mny mxx mxy with
  | nil => rfl
  | cons m monitors ih => simp only [List.foldl_cons, ih]

/-- The right and bottom edges of a monitor are those of its rectangle. -/
theorem monitor_edges (r : Rect) :
    (monitor_enum_proc r).x + (monitor_enum_proc r).width = r.right ∧
      (monitor_enum_proc r).y + (monitor_enum_proc r).height = r.bottom := by
  simp only [monitor_enum_proc]
  constructor
  · rw [Int32.add_comm, Int32.sub_add_cancel]
  · rw [Int32.add_comm, Int32.sub_add_cancel]

/-- A bound neutral for the list does not change its least element. -/
theorem foldl_min_eq (l : List Int) (hne : l ≠ []) (m : Int) (hm : ∀ x ∈ l, x ≤ m) :
    l.foldl min m = l.min hne := by
  cases l with
  | nil => exact absurd rfl hne
  | cons x l =>
      rw [List.foldl_cons, min_eq_right (hm x (List.mem_cons_self ..))]
      rfl

/-- The same for the greatest element. -/
theorem foldl_max_eq (l : List Int) (hne : l ≠ []) (m : Int) (hm : ∀ x ∈ l, m ≤ x) :
    l.foldl max m = l.max hne := by
  cases l with
  | nil => exact absurd rfl hne
  | cons x l =>
      rw [List.foldl_cons, max_eq_right (hm x (List.mem_cons_self ..))]
      rfl

namespace Desktop

/-- The least corner, from `i32::MAX` on. -/
theorem foldl_corner_min (d : Desktop) (f : Rect → Int32) :
    (d.rects.foldl (fun acc r => min acc (f r)) Int32.maxValue).toInt
      = (d.rects.map (fun r => (f r).toInt)).min (by simp [d.nonempty]) := by
  rw [foldl_toInt toInt_min, Int32.toInt_maxValue]
  refine foldl_min_eq _ _ _ fun x hx => ?_
  obtain ⟨r, -, rfl⟩ := List.mem_map.mp hx
  -- every corner is at most the start of the fold
  have := (f r).toInt_lt
  omega

/-- The greatest one, from `i32::MIN` on. -/
theorem foldl_corner_max (d : Desktop) (f : Rect → Int32) :
    (d.rects.foldl (fun acc r => max acc (f r)) Int32.minValue).toInt
      = (d.rects.map (fun r => (f r).toInt)).max (by simp [d.nonempty]) := by
  rw [foldl_toInt toInt_max, Int32.toInt_minValue]
  refine foldl_max_eq _ _ _ fun x hx => ?_
  obtain ⟨r, -, rfl⟩ := List.mem_map.mp hx
  exact (f r).le_toInt

/-- The fold computes the bounding box. -/
theorem bounding_box_eq (d : Desktop) :
    (bounding_box d.monitors).1.toInt = d.min_x ∧
      (bounding_box d.monitors).2.1.toInt = d.min_y ∧
      (bounding_box d.monitors).2.2.1.toInt = d.max_x ∧
      (bounding_box d.monitors).2.2.2.toInt = d.max_y := by
  rw [bounding_box, bounding_box_foldl, monitors]
  simp only [List.foldl_map, monitor_edges]
  exact ⟨d.foldl_corner_min _, d.foldl_corner_min _, d.foldl_corner_max _, d.foldl_corner_max _⟩

/-- The box is not empty, and its corners are `i32` coordinates. -/
theorem box_bounds (d : Desktop) :
    d.min_x < d.max_x ∧ d.min_y < d.max_y ∧
      d.max_x < 2147483648 ∧ d.max_y < 2147483648 := by
  obtain ⟨hx, hy, hX, hY⟩ := d.bounding_box_eq
  have hmaxx := (bounding_box d.monitors).2.2.1.toInt_lt
  have hmaxy := (bounding_box d.monitors).2.2.2.toInt_lt
  obtain ⟨r, hr⟩ := List.exists_mem_of_ne_nil d.rects d.nonempty
  have hleft : d.min_x ≤ r.left.toInt :=
    List.min_le_of_mem (List.mem_map_of_mem (f := fun r => r.left.toInt) hr)
  have htop : d.min_y ≤ r.top.toInt :=
    List.min_le_of_mem (List.mem_map_of_mem (f := fun r => r.top.toInt) hr)
  have hright : r.right.toInt ≤ d.max_x :=
    List.le_max_of_mem (List.mem_map_of_mem (f := fun r => r.right.toInt) hr)
  have hbottom : r.bottom.toInt ≤ d.max_y :=
    List.le_max_of_mem (List.mem_map_of_mem (f := fun r => r.bottom.toInt) hr)
  have := r.wide
  have := r.high
  refine ⟨?_, ?_, ?_, ?_⟩ <;> omega

/-- The size of one axis, as it reaches the router. -/
theorem router_size_eq (lo hi : Int32) (h : lo.toInt < hi.toInt) :
    (max (max (hi - lo) 0) 1).toInt = router_size (hi.toInt - lo.toInt) := by
  have hlo := lo.le_toInt
  have hhi := hi.toInt_lt
  have hsub : (hi - lo).toInt = (hi.toInt - lo.toInt).bmod (2 ^ 32) := Int32.toInt_sub hi lo
  rw [Int.bmod_def] at hsub
  rw [toInt_max, toInt_max, show (0 : Int32).toInt = 0 from rfl,
    show (1 : Int32).toInt = 1 from rfl]
  have hsize := router_size_cases (hi.toInt - lo.toInt)
  split_ifs at hsub <;> omega

variable (d : Desktop) (hostname : String) (layout : ScreenLayout)

/-- The detector a server runs with on this desktop. -/
def edge : EdgeDetector := spawn_server_edge (local_screen_info hostname d.monitors) layout

/-- The size the router works with, on both axes. -/
theorem edge_size :
    (d.edge hostname layout).local_width.toInt = router_size d.width ∧
      (d.edge hostname layout).local_height.toInt = router_size d.height := by
  obtain ⟨hx, hy, hX, hY⟩ := d.bounding_box_eq
  obtain ⟨hwide, hhigh, -, -⟩ := d.box_bounds
  have hne : d.monitors ≠ [] := by simp [monitors, d.nonempty]
  simp only [edge, spawn_server_edge, local_screen_info, EdgeDetector.new, if_neg hne]
  rw [router_size_eq _ _ (hx ▸ hX ▸ hwide), router_size_eq _ _ (hy ▸ hY ▸ hhigh), hx, hy, hX, hY]
  exact ⟨rfl, rfl⟩

/-! ## The edges of the real desktop

The axes put together. The tests are made in one order, and the first that holds
decides. -/

/-- A position inside the bounding box. -/
structure Holds (d : Desktop) (p : Point) : Prop where
  left : d.min_x ≤ p.x.toInt
  right : p.x.toInt < d.max_x
  top : d.min_y ≤ p.y.toInt
  bottom : p.y.toInt < d.max_y

/-- It is within `t` of a side of the box. -/
def Near (t : Int) (p : Point) : EdgeSide → Prop
  | .Left => p.x.toInt ≤ d.min_x + t
  | .Right => p.x.toInt ≥ d.max_x - t
  | .Top => p.y.toInt ≤ d.min_y + t
  | .Bottom => p.y.toInt ≥ d.max_y - t

/-- On every position of the desktop the edge test names a side the position is
near, and none only when there is no such side. -/
def RealEdges (edge : EdgeDetector) : Prop :=
  ∀ p, d.Holds p →
    ((edge.cross_local_edge p).isSome ↔ ∃ side, d.Near edge.edge_threshold.toInt p side) ∧
      ∀ side q, edge.cross_local_edge p = some (side, q) →
        d.Near edge.edge_threshold.toInt p side

/-- The four tests, on integers. -/
theorem edge_touches (p : Point) (side : EdgeSide) :
    (d.edge hostname layout).touches p side = true ↔
      match side with
      | .Left => p.x.toInt ≤ 1
      | .Right => router_size d.width - 1 ≤ p.x.toInt
      | .Top => p.y.toInt ≤ 1
      | .Bottom => router_size d.height - 1 ≤ p.y.toInt := by
  obtain ⟨hwidth, hheight⟩ := d.edge_size hostname layout
  obtain ⟨hwide, hhigh, -, -⟩ := d.box_bounds
  have hpos : ∀ n : Int, 0 < n → 1 ≤ router_size n := fun n hn => by
    have := router_size_cases n
    omega
  have hone : (d.edge hostname layout).edge_threshold.toInt = 1 := rfl
  have htouches := (d.edge hostname layout).touches_iff p side
    (Int32.le_iff_toInt_le.mpr (by rw [hone]; decide))
    (Int32.le_iff_toInt_le.mpr (by rw [hwidth, hone]; exact hpos _ (Int.sub_pos.mpr hwide)))
    (Int32.le_iff_toInt_le.mpr (by rw [hheight, hone]; exact hpos _ (Int.sub_pos.mpr hhigh)))
  rw [hwidth, hheight, hone] at htouches
  exact htouches

/-- The side the router names at a position. -/
def router_side (p : Point) : Option EdgeSide :=
  if p.x.toInt ≤ 1 then some .Left
  else if router_size d.width - 1 ≤ p.x.toInt then some .Right
  else if p.y.toInt ≤ 1 then some .Top
  else if router_size d.height - 1 ≤ p.y.toInt then some .Bottom
  else none

/-- The router's edge test is a question about four inequalities, asked in the order of
the source. -/
theorem edge_crosses (p : Point) :
    (d.edge hostname layout).cross_local_edge p
      = (d.router_side p).map (fun side => (side, p)) := by
  rw [EdgeDetector.cross_local_edge_eq, EdgeDetector.first_touched_eq, router_side]
  simp only [edge_touches]

/-- What the router is to do at a position. -/
theorem real_edges_eq :
    d.RealEdges (d.edge hostname layout) ↔ ∀ p, d.Holds p →
      ((d.router_side p).isSome ↔ ∃ side, d.Near 1 p side) ∧
        ∀ side, d.router_side p = some side → d.Near 1 p side := by
  have hone : (d.edge hostname layout).edge_threshold.toInt = 1 := rfl
  simp only [RealEdges, hone, edge_crosses, Option.isSome_map, Option.map_eq_some_iff]
  refine forall₂_congr fun p _ => and_congr_right' ⟨fun h side hside => ?_, ?_⟩
  · exact h side p ⟨side, hside, rfl⟩
  · rintro h side q ⟨_, hside, hpair⟩
    obtain ⟨rfl, rfl⟩ := Prod.mk.inj hpair
    exact h _ hside

/-- Being at a real edge, as inequalities too; what is left is arithmetic. -/
theorem near_iff (p : Point) :
    (∃ side, d.Near 1 p side) ↔
      (p.x.toInt ≤ d.min_x + 1 ∨ d.max_x - 1 ≤ p.x.toInt) ∨
        p.y.toInt ≤ d.min_y + 1 ∨ d.max_y - 1 ≤ p.y.toInt := by
  constructor
  · rintro ⟨side, h⟩
    cases side with
    | Left => exact .inl (.inl h)
    | Right => exact .inl (.inr h)
    | Top => exact .inr (.inl h)
    | Bottom => exact .inr (.inr h)
  · rintro ((h | h) | h | h)
    · exact ⟨.Left, h⟩
    · exact ⟨.Right, h⟩
    · exact ⟨.Top, h⟩
    · exact ⟨.Bottom, h⟩

/-- Every position of the box is a point. -/
theorem exists_point (x y : Int) (hx : d.min_x ≤ x ∧ x < d.max_x)
    (hy : d.min_y ≤ y ∧ y < d.max_y) :
    ∃ p : Point, p.x.toInt = x ∧ p.y.toInt = y ∧ d.Holds p := by
  obtain ⟨-, -, hmaxx, hmaxy⟩ := d.box_bounds
  have hminx := (bounding_box d.monitors).1.le_toInt
  have hminy := (bounding_box d.monitors).2.1.le_toInt
  rw [d.bounding_box_eq.1] at hminx
  rw [d.bounding_box_eq.2.1] at hminy
  have hpx : (Int32.ofInt x).toInt = x := Int32.toInt_ofInt_of_le (by omega) (by omega)
  have hpy : (Int32.ofInt y).toInt = y := Int32.toInt_ofInt_of_le (by omega) (by omega)
  refine ⟨⟨Int32.ofInt x, Int32.ofInt y⟩, hpx, hpy, ?_, ?_, ?_, ?_⟩ <;>
    simp only [hpx, hpy] <;> omega

/-- The sides of the box are its extents apart, and it is not empty. -/
theorem box_axes (d : Desktop) :
    d.min_x + d.width = d.max_x ∧ d.min_y + d.height = d.max_y ∧ 0 < d.width ∧ 0 < d.height := by
  obtain ⟨hwide, hhigh, -, -⟩ := d.box_bounds
  simp only [width, height]
  refine ⟨?_, ?_, ?_, ?_⟩ <;> omega

/-- A router that names real sides only has a box that starts at the origin. -/
theorem at_origin_x (h : ∀ p, d.Holds p → ∀ side, d.router_side p = some side → d.Near 1 p side) :
    AtOrigin d.min_x d.width := by
  obtain ⟨-, -, hmaxx, -⟩ := d.box_bounds
  obtain ⟨hX, hY, hW, hH⟩ := d.box_axes
  refine (sound_axis_iff hW (by omega)).mp fun x hlow hhi => ?_
  -- every column shows in the top row
  obtain ⟨p, rfl, -, hp⟩ := d.exists_point x d.min_y (by omega) (by omega)
  have hside := h p hp
  refine ⟨fun hl => hside .Left (by rw [router_side, if_pos hl]), fun hl hr => ?_⟩
  have := hside .Right (by rw [router_side, if_neg hl, if_pos hr])
  simp only [Near] at this
  omega

/-- The same vertically, if some column touches neither of the other sides. -/
theorem at_origin_y (h : ∀ p, d.Holds p → ∀ side, d.router_side p = some side → d.Near 1 p side)
    (hfour : 4 ≤ d.width) : AtOrigin d.min_y d.height := by
  obtain ⟨-, -, hmaxx, hmaxy⟩ := d.box_bounds
  obtain ⟨hX, hY, hW, hH⟩ := d.box_axes
  -- a box this wide starts at 0, and its column 2 is such a column
  have hcolumn : d.min_x = 0 ∧ router_size d.width = d.width := by
    have hx := d.at_origin_x h
    have := router_size_cases d.width
    rw [AtOrigin] at hx
    omega
  refine (sound_axis_iff hH (by omega)).mp fun y hlow hhi => ?_
  obtain ⟨p, hpx, rfl, hp⟩ := d.exists_point 2 y (by omega) (by omega)
  have hside := h p hp
  have hl : ¬ p.x.toInt ≤ 1 := by omega
  have hr : ¬ router_size d.width - 1 ≤ p.x.toInt := by omega
  refine ⟨fun ht => hside .Top (by rw [router_side, if_neg hl, if_neg hr, if_pos ht]),
    fun ht hb => ?_⟩
  have := hside .Bottom (by rw [router_side, if_neg hl, if_neg hr, if_neg ht, if_pos hb])
  simp only [Near] at this
  omega

/-- Between the tests of the horizontal axis lies a box at least four wide. -/
theorem between_tests (hx : AtOrigin d.min_x d.width) {p : Point} (hp : d.Holds p)
    (hl : ¬ p.x.toInt ≤ 1) (hr : ¬ router_size d.width - 1 ≤ p.x.toInt) :
    4 ≤ d.width ∧ ¬ (p.x.toInt ≤ d.min_x + 1 ∨ d.max_x - 1 ≤ p.x.toInt) := by
  obtain ⟨hleft, hright, -, -⟩ := hp
  obtain ⟨-, -, hmaxx, -⟩ := d.box_bounds
  obtain ⟨hX, -, hW, -⟩ := d.box_axes
  have hcomplete := at_origin_complete (by omega) hx p.x.toInt hleft (by omega)
  omega

/-- Over a box at the origin the router names real sides only. -/
theorem router_side_near (hx : AtOrigin d.min_x d.width)
    (hy : 4 ≤ d.width → AtOrigin d.min_y d.height) {p : Point} (hp : d.Holds p) {side : EdgeSide}
    (hside : d.router_side p = some side) : d.Near 1 p side := by
  have hbetween := d.between_tests hx hp
  obtain ⟨hleft, hright, htop, hbottom⟩ := hp
  obtain ⟨-, -, hmaxx, hmaxy⟩ := d.box_bounds
  obtain ⟨hX, hY, hW, hH⟩ := d.box_axes
  have hsound := (sound_axis_iff hW (by omega)).mpr hx p.x.toInt hleft (by omega)
  rw [router_side] at hside
  split_ifs at hside with hl hr ht hb <;> obtain rfl := Option.some.inj hside <;>
    simp only [Near]
  · exact hsound.1 hl
  · have := hsound.2 hl hr
    omega
  · have hyaxis := hy (hbetween hl hr).1
    exact ((sound_axis_iff hH (by omega)).mpr hyaxis p.y.toInt htop (by omega)).1 ht
  · have hyaxis := hy (hbetween hl hr).1
    have := ((sound_axis_iff hH (by omega)).mpr hyaxis p.y.toInt htop (by omega)).2 ht hb
    omega

/-- And it names one wherever there is one. -/
theorem router_side_some (hx : AtOrigin d.min_x d.width)
    (hy : 4 ≤ d.width → AtOrigin d.min_y d.height) {p : Point} (hp : d.Holds p)
    (hnear : ∃ side, d.Near 1 p side) : (d.router_side p).isSome := by
  obtain ⟨-, -, -, hmaxy⟩ := d.box_bounds
  obtain ⟨-, hY, -, hH⟩ := d.box_axes
  rw [near_iff] at hnear
  rw [router_side]
  split_ifs with hl hr ht hb <;> try rfl
  -- past the tests of one axis the point can only be near a side of the other
  obtain ⟨hfour, hnotx⟩ := d.between_tests hx hp hl hr
  obtain ⟨-, -, htop, hbottom⟩ := hp
  have := at_origin_complete (by omega) (hy hfour) p.y.toInt htop (by omega)
    ((hnear.resolve_left hnotx).imp id (fun h => by omega))
  omega

/-- **When the router's edges are the desktop's.** When the box starts at the
origin: on the horizontal axis, and on the vertical one if the box is wide
enough for that to be tested. -/
theorem real_edges_iff :
    d.RealEdges (d.edge hostname layout) ↔
      AtOrigin d.min_x d.width ∧ (4 ≤ d.width → AtOrigin d.min_y d.height) := by
  rw [real_edges_eq]
  constructor
  · intro h
    have hnamed : ∀ p, d.Holds p → ∀ side, d.router_side p = some side → d.Near 1 p side :=
      fun p hp => (h p hp).2
    exact ⟨d.at_origin_x hnamed, d.at_origin_y hnamed⟩
  · rintro ⟨hx, hy⟩ p hp
    refine ⟨⟨fun hsome => ?_, d.router_side_some hx hy hp⟩, fun side => d.router_side_near hx hy hp⟩
    obtain ⟨side, hside⟩ := Option.isSome_iff_exists.mp hsome
    exact ⟨side, d.router_side_near hx hy hp hside⟩

/-- Two monitors side by side, the primary one on the right. -/
def leftward : Desktop where
  rects := [⟨-1920, 0, 0, 1080, by decide, by decide, by decide, by decide⟩,
    ⟨0, 0, 1920, 1080, by decide, by decide, by decide, by decide⟩]
  nonempty := nofun

/-- In the middle of the left one the router sees the left edge. -/
theorem leftward_not_real :
    ¬ leftward.RealEdges (leftward.edge "pc" .default) ∧
      (leftward.edge "pc" .default).cross_local_edge ⟨-960, 540⟩ = some (.Left, ⟨-960, 540⟩) := by
  constructor
  · intro h
    have hp : leftward.Holds ⟨-960, 540⟩ := ⟨by decide, by decide, by decide, by decide⟩
    have hnear := (h ⟨-960, 540⟩ hp).2 .Left ⟨-960, 540⟩ (by decide)
    exact absurd hnear (by simp only [Near]; decide)
  · decide

end Desktop
end InputSync
