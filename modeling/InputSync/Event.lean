/-
The shared vocabulary of the workspace: input events, identifiers and screens
(`crates/core/src/event.rs`, `id.rs`, `screen.rs`).

Every other file speaks about these types. They follow the Rust declarations
field for field and variant for variant, in declaration order, because the
order is observable: serde writes a variant as its position. Fixed-width
integers are the machine types of the same width (`i32` is `Int32`), so an
overflow in the code is an overflow here. What the code derives and never
calls (`Debug`, `Hash`, the text of a `Display`) is left out.
-/
import Mathlib.Data.List.Basic

set_option autoImplicit false

namespace InputSync

/-! ## Identifiers (`id.rs`)

Both are newtypes, and comparing them is all the code does with them. -/

/-- `PeerId(Uuid)`: the sixteen bytes of the uuid. -/
structure PeerId where
  uuid : Vector UInt8 16
deriving DecidableEq

/-- `ScreenId(u32)`. -/
structure ScreenId where
  id : UInt32
deriving DecidableEq

/-! ## Events (`event.rs`)

The same vocabulary is captured, routed, sent and injected, so an event means the same
everywhere in the development. -/

/-- `KeyState`. A key that repeats is pressed again. -/
inductive KeyState
  | Pressed | Released
deriving DecidableEq

/-- `ModifierState`: a bitflags `u16`. Bits outside the named flags survive,
as `from_bits_retain` keeps them. -/
structure ModifierState where
  bits : UInt16
deriving DecidableEq

namespace ModifierState

/-- The named flags are one bit each, as in the source. -/
def SHIFT : ModifierState := ⟨0b00000001⟩
def CTRL : ModifierState := ⟨0b00000010⟩
def ALT : ModifierState := ⟨0b00000100⟩
def SUPER : ModifierState := ⟨0b00001000⟩
/-- The two locks are flags like the others. -/
def CAPS_LOCK : ModifierState := ⟨0b00010000⟩
def NUM_LOCK : ModifierState := ⟨0b00100000⟩

def empty : ModifierState := ⟨0⟩

/-- `contains`: every bit of the other is there. The empty flag is contained in
everything. -/
def contains (self other : ModifierState) : Bool :=
  self.bits &&& other.bits == other.bits

/-- `insert`. -/
def insert (self other : ModifierState) : ModifierState := ⟨self.bits ||| other.bits⟩

/-- `remove`. -/
def remove (self other : ModifierState) : ModifierState := ⟨self.bits &&& ~~~other.bits⟩

variable (self : ModifierState) {flag other : ModifierState}

/-- A flag is contained when each of its bits is. -/
theorem contains_iff (flag : ModifierState) : self.contains flag = true ↔
    ∀ (i : Nat) (hi : i < 16), flag.bits.toBitVec[i] = true → self.bits.toBitVec[i] = true := by
  rw [contains, beq_iff_eq, ← UInt16.toBitVec_inj, UInt16.toBitVec_and]
  constructor
  · intro h i hi hflag
    rw [← h, BitVec.getElem_and, Bool.and_eq_true] at hflag
    exact hflag.1
  · intro h
    ext i hi
    rw [BitVec.getElem_and]
    cases hflag : flag.bits.toBitVec[i] with
    | false => rw [Bool.and_false]
    | true => rw [h i hi hflag, Bool.and_true]

/-- Two masks with no common bit, read off one bit at a time. The named flags are
pairwise disjoint, so this is the fact behind the two frame lemmas below. -/
theorem bit_of_disjoint (h : other.bits &&& flag.bits = 0) (i : Nat) (hi : i < 16)
    (hflag : flag.bits.toBitVec[i] = true) : other.bits.toBitVec[i] = false := by
  have hbit := congrArg (fun bits : UInt16 => bits.toBitVec[i]) h
  simpa [hflag] using hbit

/-- What was inserted is contained. Together with the three lemmas after it this is all
the router's and the injectors' bookkeeping needs to know about masks: no later proof
looks at bits. -/
theorem contains_insert_self : (self.insert flag).contains flag = true := by
  rw [contains_iff]
  intro i hi hflag
  rw [insert, UInt16.toBitVec_or, BitVec.getElem_or, hflag, Bool.or_true]

/-- Inserting one flag leaves the answer about a disjoint one as it was, even where
unknown bits are set. -/
theorem contains_insert_of_disjoint (h : other.bits &&& flag.bits = 0) :
    (self.insert other).contains flag = self.contains flag := by
  rw [Bool.eq_iff_iff, contains_iff, contains_iff]
  refine forall₃_congr fun i hi hflag => ?_
  rw [insert, UInt16.toBitVec_or, BitVec.getElem_or, bit_of_disjoint h i hi hflag, Bool.or_false]

/-- What was removed is no longer contained. The empty flag is contained in everything,
hence the hypothesis. -/
theorem contains_remove_self (h : flag.bits ≠ 0) : (self.remove flag).contains flag = false := by
  rw [contains, remove, UInt16.and_assoc, UInt16.not_and_self, UInt16.and_zero,
    beq_eq_false_iff_ne]
  exact h.symm

/-- Removing one flag leaves the answer about a disjoint one as it was. -/
theorem contains_remove_of_disjoint (h : other.bits &&& flag.bits = 0) :
    (self.remove other).contains flag = self.contains flag := by
  rw [Bool.eq_iff_iff, contains_iff, contains_iff]
  refine forall₃_congr fun i hi hflag => ?_
  rw [remove, UInt16.toBitVec_and, BitVec.getElem_and, UInt16.toBitVec_not, BitVec.getElem_not,
    bit_of_disjoint h i hi hflag, Bool.not_false, Bool.and_true]

end ModifierState

/-- `KeyCode`, in declaration order. The wire carries the position of the
variant, not its HID discriminant, which only the Linux injector reads. -/
inductive KeyCode
  | Unknown
  -- Letters
  | A | B | C | D | E | F | G | H | I | J | K | L | M | N | O | P | Q | R | S | T | U | V | W
  | X | Y | Z
  -- Digits
  | Num1 | Num2 | Num3 | Num4 | Num5 | Num6 | Num7 | Num8 | Num9 | Num0
  -- Control
  | Enter | Escape | Backspace | Tab | Space | Minus | Equals | LeftBracket | RightBracket
  | Backslash | Semicolon | Apostrophe | Grave | Comma | Period | Slash | CapsLock
  -- Function row
  | F1 | F2 | F3 | F4 | F5 | F6 | F7 | F8 | F9 | F10 | F11 | F12
  -- Navigation
  | PrintScreen | ScrollLock | Pause | Insert | Home | PageUp | Delete | End | PageDown
  | ArrowRight | ArrowLeft | ArrowDown | ArrowUp
  -- Modifiers
  | LeftCtrl | LeftShift | LeftAlt | LeftSuper | RightCtrl | RightShift | RightAlt | RightSuper
deriving DecidableEq

/-- `Button`; `Other` carries the number of a button without a name. -/
inductive Button
  | Left | Right | Middle | Back | Forward
  | Other (id : UInt8)
deriving DecidableEq

/-- `ScrollDelta`. What a unit of it is worth is up to the backend that injects it. -/
structure ScrollDelta where
  horizontal : Int16
  vertical : Int16
deriving DecidableEq

/-- `MouseEvent`: absolute and relative motion, buttons, and the wheels. -/
inductive MouseEvent
  | Move (x y : Int32)
  | MoveRelative (dx dy : Int32)
  | Button (button : Button) (state : KeyState)
  | Scroll (delta : ScrollDelta)
deriving DecidableEq

/-- `KeyEvent`, with the modifiers held at that moment. -/
structure KeyEvent where
  code : KeyCode
  state : KeyState
  modifiers : ModifierState
  character : Option UInt32
deriving DecidableEq

/-- `InputEvent`: what a capture hands to the session and what an injector is handed. -/
inductive InputEvent
  | Mouse (event : MouseEvent)
  | Key (event : KeyEvent)
  | ScreenEnter (x y : Int32) (modifiers : ModifierState)
  | ScreenLeave (peer_screen : UInt32)
  | ModifierSync (modifiers : ModifierState)
deriving DecidableEq

/-! ## Screens (`screen.rs`)

The layout is a list of directed entries. Nothing in the type makes them symmetric or
unique; what the code does with a list that is not is part of what the results about the
layout say. -/

/-- `Point`, in pixels. -/
structure Point where
  x : Int32
  y : Int32
deriving DecidableEq

/-- A difference of coordinates that fits is that of the integers. -/
theorem toInt_sub_of_fits (a b : Int32) (hlow : -2147483648 ≤ a.toInt - b.toInt)
    (hhigh : a.toInt - b.toInt < 2147483648) : (a - b).toInt = a.toInt - b.toInt := by
  rw [Int32.toInt_sub, Int.bmod_eq_of_le (by omega) (by omega)]

/-- `EdgeSide`. -/
inductive EdgeSide
  | Top | Bottom | Left | Right
deriving DecidableEq

/-- `ScreenInfo`. -/
structure ScreenInfo where
  id : ScreenId
  name : String
  width : Int32
  height : Int32
deriving DecidableEq

/-- One entry of the layout: the screen on the `side` of `source` is `target`
(`from` and `to` in the source). -/
structure Neighbour where
  source : ScreenId
  side : EdgeSide
  target : ScreenId
deriving DecidableEq

/-- `ScreenLayout`: the screens, and which lies beside which. -/
structure ScreenLayout where
  screens : List ScreenInfo
  neighbours : List Neighbour
deriving DecidableEq

/-- `ScreenLayout::neighbour_of`: the first matching entry wins. -/
def ScreenLayout.neighbour_of (self : ScreenLayout) (source : ScreenId) (side : EdgeSide) :
    Option ScreenId :=
  (self.neighbours.find? (fun n => n.source = source ∧ n.side = side)).map (fun n => n.target)

/-- `ScreenLayout::default`: no screens and no neighbours. -/
def ScreenLayout.default : ScreenLayout := ⟨[], []⟩

end InputSync
