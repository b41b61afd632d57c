/-
Injection: what `inject` of the two backends (`crates/platform/src/linux/inject.rs`,
`windows/inject.rs` and the way back in `windows/keymap.rs`) makes of an event,
and what the operating system makes of that.

The Linux backend writes evdev events to a uinput device, the Windows backend
calls `SendInput`. Both end in an `InputDevice`: the physical keys that are
down, as codes of the `KEY_*` table, how far the wheels have turned, and how far
the pointer was moved. Operating system calls are taken to succeed.

`InputDevice.after` is the shape both backends have in common. They differ in
the code a key gets and in what one unit of a scroll delta is worth.
-/
import InputSync.Event
import InputSync.Trace
import Mathlib.Data.Finset.Basic

set_option autoImplicit false

namespace InputSync

/-! ## The device

What an application can find out about the input, kept so that both backends can be
asked the same question. -/

/-- An input device as the rest of the system sees it. Wheel travel is counted
in 120ths of a notch. -/
@[ext] structure InputDevice where
  held : Finset UInt16
  vertical : Int
  horizontal : Int
  moved_x : Int
  moved_y : Int
deriving DecidableEq

namespace InputDevice

/-- Nothing is held and nothing has moved. -/
def new : InputDevice := ⟨∅, 0, 0, 0, 0⟩

/-- A key goes down or up. Pressing one that is down changes nothing. -/
def set_key (self : InputDevice) (code : UInt16) (down : Bool) : InputDevice :=
  { self with held := if down then insert code self.held else self.held.erase code }

/-- The wheels turn. -/
def turn (self : InputDevice) (vertical horizontal : Int) : InputDevice :=
  { self with
    vertical := self.vertical + vertical, horizontal := self.horizontal + horizontal }

/-- The pointer moves. -/
def move (self : InputDevice) (dx dy : Int) : InputDevice :=
  { self with moved_x := self.moved_x + dx, moved_y := self.moved_y + dy }

end InputDevice

/-! ## Linux

The codes and constants are those of the kernel's `input-event-codes.h`. The injector
writes batches of events and a report marker behind each. -/

/-- The constants of the kernel's input interface, as far as the injector writes them.
-/
def EV_SYN : UInt16 := 0
def EV_KEY : UInt16 := 1
def EV_REL : UInt16 := 2
def SYN_REPORT : UInt16 := 0

def BTN_LEFT : UInt16 := 0x110
def BTN_RIGHT : UInt16 := 0x111
def BTN_MIDDLE : UInt16 := 0x112
def BTN_BACK : UInt16 := 0x116
def BTN_FORWARD : UInt16 := 0x115

/-- `RelativeAxis`, as far as it is used. -/
inductive RelativeAxis
  | X | Y | Wheel | HorizontalWheel | WheelHiRes | HorizontalWheelHiRes
deriving DecidableEq

/-- Its code in the `REL_*` table. -/
def RelativeAxis.code : RelativeAxis → UInt16
  | .X => 0x00 | .Y => 0x01 | .HorizontalWheel => 0x06 | .Wheel => 0x08
  | .WheelHiRes => 0x0B | .HorizontalWheelHiRes => 0x0C

/-- `input_event`, without its time stamp. -/
structure input_event where
  type_ : UInt16
  code : UInt16
  value : Int32
deriving DecidableEq

/-- `key_event_raw`. -/
def key_event_raw (code : UInt16) (value : Int32) : input_event := ⟨EV_KEY, code, value⟩
/-- `rel_event`. -/
def rel_event (axis : RelativeAxis) (value : Int32) : input_event := ⟨EV_REL, axis.code, value⟩
/-- The report that ends a batch. -/
def syn : input_event := ⟨EV_SYN, SYN_REPORT, 0⟩

/-- What the kernel makes of an event. It ignores keys the device was not
declared to have. The hi-res axes carry the travel of the wheels, and the plain
ones the same again in whole notches. -/
def InputDevice.handle_evdev (keybit : UInt16 → Bool) (self : InputDevice) (ev : input_event) :
    InputDevice :=
  if ev.type_ = EV_KEY then
    if keybit ev.code then self.set_key ev.code (ev.value ≠ 0) else self
  else if ev.type_ = EV_REL then
    if ev.code = RelativeAxis.X.code then self.move ev.value.toInt 0
    else if ev.code = RelativeAxis.Y.code then self.move 0 ev.value.toInt
    else if ev.code = RelativeAxis.WheelHiRes.code then self.turn ev.value.toInt 0
    else if ev.code = RelativeAxis.HorizontalWheelHiRes.code then self.turn 0 ev.value.toInt
    else self
  else self

/-- The discriminant of a `KeyCode`: its HID usage. -/
def KeyCode.hid : KeyCode → UInt16
  | .Unknown => 0 | .A => 4 | .B => 5 | .C => 6 | .D => 7 | .E => 8 | .F => 9 | .G => 10
  | .H => 11 | .I => 12 | .J => 13 | .K => 14 | .L => 15 | .M => 16 | .N => 17 | .O => 18
  | .P => 19 | .Q => 20 | .R => 21 | .S => 22 | .T => 23 | .U => 24 | .V => 25 | .W => 26
  | .X => 27 | .Y => 28 | .Z => 29 | .Num1 => 30 | .Num2 => 31 | .Num3 => 32 | .Num4 => 33
  | .Num5 => 34 | .Num6 => 35 | .Num7 => 36 | .Num8 => 37 | .Num9 => 38 | .Num0 => 39
  | .Enter => 40 | .Escape => 41 | .Backspace => 42 | .Tab => 43 | .Space => 44 | .Minus => 45
  | .Equals => 46 | .LeftBracket => 47 | .RightBracket => 48 | .Backslash => 49
  | .Semicolon => 51 | .Apostrophe => 52 | .Grave => 53 | .Comma => 54 | .Period => 55
  | .Slash => 56 | .CapsLock => 57 | .F1 => 58 | .F2 => 59 | .F3 => 60 | .F4 => 61 | .F5 => 62
  | .F6 => 63 | .F7 => 64 | .F8 => 65 | .F9 => 66 | .F10 => 67 | .F11 => 68 | .F12 => 69
  | .PrintScreen => 70 | .ScrollLock => 71 | .Pause => 72 | .Insert => 73 | .Home => 74
  | .PageUp => 75 | .Delete => 76 | .End => 77 | .PageDown => 78 | .ArrowRight => 79
  | .ArrowLeft => 80 | .ArrowDown => 81 | .ArrowUp => 82 | .LeftCtrl => 224 | .LeftShift => 225
  | .LeftAlt => 226 | .LeftSuper => 227 | .RightCtrl => 228 | .RightShift => 229
  | .RightAlt => 230 | .RightSuper => 231

/-- `evdev_code`: the HID usage plus eight. The source takes the sum for a code of the
`KEY_*` table, which it is not: `A` gives 12, and 12 is the minus key. -/
def evdev_code (kc : KeyCode) : UInt16 := kc.hid + 8

/-- The code `inject_key` writes for a key. -/
def hid_to_evdev (kc : KeyCode) : Option UInt16 :=
  if 4 ≤ kc.hid ∧ kc.hid ≤ 0xE7 then some (kc.hid + 8) else none

/-- `button_to_evdev`; a button without a name is not injected. -/
def button_to_evdev : Button → Option UInt16
  | .Left => some BTN_LEFT
  | .Right => some BTN_RIGHT
  | .Middle => some BTN_MIDDLE
  | .Back => some BTN_BACK
  | .Forward => some BTN_FORWARD
  | .Other _ => none

/-- `key_state_value`. -/
def key_state_value : KeyState → Int32
  | .Pressed => 1
  | .Released => 0

/-- `i32::saturating_add`. -/
def saturating_add (a b : Int32) : Int32 := .ofIntClamp (a.toInt + b.toInt)

/-- The injector with its device. -/
structure LinuxInject where
  dev : InputDevice
  last_pos : Point
deriving DecidableEq

namespace LinuxInject

/-- The injector believes the pointer in the corner. -/
def new : LinuxInject := ⟨.new, ⟨0, 0⟩⟩

variable (keybit : UInt16 → Bool)

/-- `write_batch`: the events and a report. -/
def write_batch (self : LinuxInject) (events : List input_event) : LinuxInject :=
  { self with dev := (events ++ [syn]).foldl (InputDevice.handle_evdev keybit) self.dev }

/-- `scroll_events`: the notch axis and the hi-res axis, for each direction that is not
zero. -/
def scroll_events (delta : ScrollDelta) : List input_event :=
  (if delta.vertical ≠ 0 then
      [rel_event .Wheel delta.vertical.toInt32,
        rel_event .WheelHiRes (delta.vertical.toInt32 * 120)]
    else [])
    ++ (if delta.horizontal ≠ 0 then
      [rel_event .HorizontalWheel delta.horizontal.toInt32,
        rel_event .HorizontalWheelHiRes (delta.horizontal.toInt32 * 120)]
    else [])

/-- `inject_key`; a key without a code is dropped. -/
def inject_key (self : LinuxInject) (k : KeyEvent) : LinuxInject :=
  match hid_to_evdev k.code with
  | none => self
  | some code => self.write_batch keybit [key_event_raw code (key_state_value k.state)]

/-- `inject`, case by case. An absolute move is written as the way from the last
position. -/
def inject (self : LinuxInject) (event : InputEvent) : LinuxInject :=
  match event with
  | .Mouse (.Move x y) =>
    let dx := x - self.last_pos.x
    let dy := y - self.last_pos.y
    let self := { self with last_pos := ⟨x, y⟩ }
    if dx ≠ 0 ∨ dy ≠ 0 then self.write_batch keybit [rel_event .X dx, rel_event .Y dy] else self
  | .Mouse (.MoveRelative dx dy) =>
    let self := { self with
      last_pos := ⟨saturating_add self.last_pos.x dx, saturating_add self.last_pos.y dy⟩ }
    self.write_batch keybit [rel_event .X dx, rel_event .Y dy]
  | .Mouse (.Button button state) =>
    match button_to_evdev button with
    | none => self
    | some code => self.write_batch keybit [key_event_raw code (key_state_value state)]
  | .Mouse (.Scroll delta) =>
    let evs := scroll_events delta
    if evs.isEmpty then self else self.write_batch keybit evs
  | .Key k => self.inject_key keybit k
  | .ScreenEnter .. | .ScreenLeave _ | .ModifierSync _ => self

/-- Left and right variants of each modifier, then one sync. -/
def release_all_modifiers (self : LinuxInject) : LinuxInject :=
  let release_codes := [evdev_code .LeftCtrl, evdev_code .RightCtrl, evdev_code .LeftShift,
    evdev_code .RightShift, evdev_code .LeftAlt, evdev_code .RightAlt, evdev_code .LeftSuper,
    evdev_code .RightSuper]
  let events := release_codes.map (fun c => key_event_raw c 0)
  { self with dev := (events ++ [syn]).foldl (InputDevice.handle_evdev keybit) self.dev }

end LinuxInject

/-! ## Windows

The values are those of the Windows headers. A key is named by a virtual key, and which
physical key that is depends on the keyboard layout; the standard one is assumed. -/

/-- `keycode_to_vk`, with the values of the `VK_*` constants. -/
def keycode_to_vk : KeyCode → Option UInt16
  | .A => some 0x41 | .B => some 0x42 | .C => some 0x43 | .D => some 0x44 | .E => some 0x45
  | .F => some 0x46 | .G => some 0x47 | .H => some 0x48 | .I => some 0x49 | .J => some 0x4A
  | .K => some 0x4B | .L => some 0x4C | .M => some 0x4D | .N => some 0x4E | .O => some 0x4F
  | .P => some 0x50 | .Q => some 0x51 | .R => some 0x52 | .S => some 0x53 | .T => some 0x54
  | .U => some 0x55 | .V => some 0x56 | .W => some 0x57 | .X => some 0x58 | .Y => some 0x59
  | .Z => some 0x5A | .Num0 => some 0x30 | .Num1 => some 0x31 | .Num2 => some 0x32
  | .Num3 => some 0x33 | .Num4 => some 0x34 | .Num5 => some 0x35 | .Num6 => some 0x36
  | .Num7 => some 0x37 | .Num8 => some 0x38 | .Num9 => some 0x39 | .Enter => some 0x0D
  | .Escape => some 0x1B | .Backspace => some 0x08 | .Tab => some 0x09 | .Space => some 0x20
  | .Minus => some 0xBD | .Equals => some 0xBB | .LeftBracket => some 0xDB
  | .RightBracket => some 0xDD | .Backslash => some 0xDC | .Semicolon => some 0xBA
  | .Apostrophe => some 0xDE | .Grave => some 0xC0 | .Comma => some 0xBC | .Period => some 0xBE
  | .Slash => some 0xBF | .CapsLock => some 0x14 | .F1 => some 0x70 | .F2 => some 0x71
  | .F3 => some 0x72 | .F4 => some 0x73 | .F5 => some 0x74 | .F6 => some 0x75 | .F7 => some 0x76
  | .F8 => some 0x77 | .F9 => some 0x78 | .F10 => some 0x79 | .F11 => some 0x7A
  | .F12 => some 0x7B | .PrintScreen => some 0x2C | .ScrollLock => some 0x91
  | .Pause => some 0x13 | .Insert => some 0x2D | .Home => some 0x24 | .PageUp => some 0x21
  | .Delete => some 0x2E | .End => some 0x23 | .PageDown => some 0x22 | .ArrowRight => some 0x27
  | .ArrowLeft => some 0x25 | .ArrowDown => some 0x28 | .ArrowUp => some 0x26
  | .LeftCtrl => some 0xA2 | .LeftShift => some 0xA0 | .LeftAlt => some 0xA4
  | .LeftSuper => some 0x5B | .RightCtrl => some 0xA3 | .RightShift => some 0xA1
  | .RightAlt => some 0xA5 | .RightSuper => some 0x5C | .Unknown => none

/-- The key each of these virtual keys stands for on a standard keyboard, by its
code in the `KEY_*` table. -/
def standard_keys : List (UInt16 × UInt16) :=
  [(0x41, 30), (0x42, 48), (0x43, 46), (0x44, 32), (0x45, 18), (0x46, 33), (0x47, 34),
    (0x48, 35), (0x49, 23), (0x4A, 36), (0x4B, 37), (0x4C, 38), (0x4D, 50), (0x4E, 49),
    (0x4F, 24), (0x50, 25), (0x51, 16), (0x52, 19), (0x53, 31), (0x54, 20), (0x55, 22),
    (0x56, 47), (0x57, 17), (0x58, 45), (0x59, 21), (0x5A, 44), (0x30, 11), (0x31, 2), (0x32, 3),
    (0x33, 4), (0x34, 5), (0x35, 6), (0x36, 7), (0x37, 8), (0x38, 9), (0x39, 10), (0x0D, 28),
    (0x1B, 1), (0x08, 14), (0x09, 15), (0x20, 57), (0xBD, 12), (0xBB, 13), (0xDB, 26),
    (0xDD, 27), (0xDC, 43), (0xBA, 39), (0xDE, 40), (0xC0, 41), (0xBC, 51), (0xBE, 52),
    (0xBF, 53), (0x14, 58), (0x70, 59), (0x71, 60), (0x72, 61), (0x73, 62), (0x74, 63),
    (0x75, 64), (0x76, 65), (0x77, 66), (0x78, 67), (0x79, 68), (0x7A, 87), (0x7B, 88),
    (0x2C, 99), (0x91, 70), (0x13, 119), (0x2D, 110), (0x24, 102), (0x21, 104), (0x2E, 111),
    (0x23, 107), (0x22, 109), (0x27, 106), (0x25, 105), (0x28, 108), (0x26, 103), (0xA2, 29),
    (0xA0, 42), (0xA4, 56), (0x5B, 125), (0xA3, 97), (0xA1, 54), (0xA5, 100), (0x5C, 126)]

/-- The physical key behind a virtual key. -/
def standard_key (vk : UInt16) : Option UInt16 :=
  (standard_keys.find? (fun e => e.1 = vk)).map (fun e => e.2)

/-- The flags of `MOUSEINPUT` and `KEYBDINPUT`, as far as the injector sets them. -/
def MOUSEEVENTF_MOVE : UInt32 := 0x0001
def MOUSEEVENTF_LEFTDOWN : UInt32 := 0x0002
def MOUSEEVENTF_LEFTUP : UInt32 := 0x0004
def MOUSEEVENTF_RIGHTDOWN : UInt32 := 0x0008
def MOUSEEVENTF_RIGHTUP : UInt32 := 0x0010
def MOUSEEVENTF_MIDDLEDOWN : UInt32 := 0x0020
def MOUSEEVENTF_MIDDLEUP : UInt32 := 0x0040
def MOUSEEVENTF_XDOWN : UInt32 := 0x0080
def MOUSEEVENTF_XUP : UInt32 := 0x0100
def MOUSEEVENTF_WHEEL : UInt32 := 0x0800
def MOUSEEVENTF_HWHEEL : UInt32 := 0x1000
def MOUSEEVENTF_VIRTUALDESK : UInt32 := 0x4000
def MOUSEEVENTF_ABSOLUTE : UInt32 := 0x8000
def KEYEVENTF_KEYUP : UInt32 := 0x0002

/-- `INPUT`, with the fields that are not constant. -/
inductive INPUT
  | mouse (dx dy : Int32) (mouseData dwFlags : UInt32)
  | keyboard (wVk : UInt16) (dwFlags : UInt32)
deriving DecidableEq

/-- What Windows makes of an `INPUT`. `mouseData` of a wheel is signed and counts
120 for each notch. -/
def InputDevice.handle_input (self : InputDevice) : INPUT → InputDevice
  | .mouse dx dy data flags =>
    if flags = MOUSEEVENTF_MOVE then self.move dx.toInt dy.toInt
    else if flags = MOUSEEVENTF_WHEEL then self.turn data.toInt32.toInt 0
    else if flags = MOUSEEVENTF_HWHEEL then self.turn 0 data.toInt32.toInt
    else self
  | .keyboard vk flags =>
    match standard_key vk with
    | some code => self.set_key code (flags &&& KEYEVENTF_KEYUP = 0)
    | none => self

/-- The injector: the device, and the size of the virtual screen
(`GetSystemMetrics`). -/
structure WindowsInject where
  dev : InputDevice
  virtual_w : Int32
  virtual_h : Int32
deriving DecidableEq

namespace WindowsInject

/-- An injector for a virtual screen of this size. -/
def new (virtual_w virtual_h : Int32) : WindowsInject := ⟨.new, virtual_w, virtual_h⟩

/-- `SendInput` with these inputs. -/
def send (self : WindowsInject) (inputs : List INPUT) : WindowsInject :=
  { self with dev := inputs.foldl InputDevice.handle_input self.dev }

/-- A coordinate in 65535ths of the virtual screen, in `i64`. -/
def normalized (coord size : Int32) : Int32 :=
  if 0 < size then .ofInt ((coord.toInt * 65535).tdiv size.toInt) else 0

/-- `move_absolute`: the coordinates are in 65535ths of the virtual screen. -/
def move_absolute (self : WindowsInject) (x y : Int32) : WindowsInject :=
  self.send [.mouse (normalized x self.virtual_w) (normalized y self.virtual_h) 0
    (MOUSEEVENTF_MOVE ||| MOUSEEVENTF_ABSOLUTE ||| MOUSEEVENTF_VIRTUALDESK)]

/-- `move_relative`. -/
def move_relative (self : WindowsInject) (dx dy : Int32) : WindowsInject :=
  self.send [.mouse dx dy 0 MOUSEEVENTF_MOVE]

/-- `mouse_button`, one flag for each button and direction. -/
def mouse_button (self : WindowsInject) (button : Button) (state : KeyState) : WindowsInject :=
  match button, state with
  | .Left, .Pressed => self.send [.mouse 0 0 0 MOUSEEVENTF_LEFTDOWN]
  | .Left, .Released => self.send [.mouse 0 0 0 MOUSEEVENTF_LEFTUP]
  | .Right, .Pressed => self.send [.mouse 0 0 0 MOUSEEVENTF_RIGHTDOWN]
  | .Right, .Released => self.send [.mouse 0 0 0 MOUSEEVENTF_RIGHTUP]
  | .Middle, .Pressed => self.send [.mouse 0 0 0 MOUSEEVENTF_MIDDLEDOWN]
  | .Middle, .Released => self.send [.mouse 0 0 0 MOUSEEVENTF_MIDDLEUP]
  | .Back, .Pressed => self.send [.mouse 0 0 1 MOUSEEVENTF_XDOWN]
  | .Back, .Released => self.send [.mouse 0 0 1 MOUSEEVENTF_XUP]
  | .Forward, .Pressed => self.send [.mouse 0 0 2 MOUSEEVENTF_XDOWN]
  | .Forward, .Released => self.send [.mouse 0 0 2 MOUSEEVENTF_XUP]
  | .Other _, _ => self

/-- `mouse_scroll`: both wheels in one call, and no call when neither turns. -/
def mouse_scroll (self : WindowsInject) (horizontal vertical : Int16) : WindowsInject :=
  let inputs :=
    (if vertical ≠ 0 then [INPUT.mouse 0 0 vertical.toInt32.toUInt32 MOUSEEVENTF_WHEEL] else [])
      ++ (if horizontal ≠ 0 then [.mouse 0 0 horizontal.toInt32.toUInt32 MOUSEEVENTF_HWHEEL]
        else [])
  if inputs.isEmpty then self else self.send inputs

/-- `key_vk`. -/
def key_vk (self : WindowsInject) (vk : UInt16) (down : Bool) : WindowsInject :=
  self.send [.keyboard vk (if down then 0 else KEYEVENTF_KEYUP)]

/-- `key_event`; a key without a virtual key is dropped. -/
def key_event (self : WindowsInject) (k : KeyEvent) : WindowsInject :=
  match keycode_to_vk k.code with
  | none => self
  | some vk => self.key_vk vk (k.state = .Pressed)

/-- `inject`, case by case. -/
def inject (self : WindowsInject) (event : InputEvent) : WindowsInject :=
  match event with
  | .Mouse (.Move x y) => self.move_absolute x y
  | .Mouse (.MoveRelative dx dy) => self.move_relative dx dy
  | .Mouse (.Button button state) => self.mouse_button button state
  | .Mouse (.Scroll delta) => self.mouse_scroll delta.horizontal delta.vertical
  | .Key k => self.key_event k
  | .ScreenEnter .. | .ScreenLeave _ | .ModifierSync _ => self

/-- `VK_LSHIFT`, `VK_RSHIFT`, `VK_LCONTROL`, `VK_RCONTROL`, `VK_LMENU`, `VK_RMENU`,
`VK_LWIN`, `VK_RWIN`. -/
def release_all_modifiers (self : WindowsInject) : WindowsInject :=
  [0xA0, 0xA1, 0xA2, 0xA3, 0xA4, 0xA5, 0x5B, 0x5C].foldl (fun inj vk => inj.key_vk vk false) self

end WindowsInject

/-! ## What an event does to the device

One lemma for each kind of event and each backend says that it is `InputDevice.after` at
the backend's codes and unit. The comparison of the backends starts from these. -/

/-- The code a key gets through uinput, if the device has it. -/
def linux_code (keybit : UInt16 → Bool) (kc : KeyCode) : Option UInt16 :=
  (hid_to_evdev kc).filter keybit

/-- The code of the physical key behind the virtual key of a key. -/
def windows_code (kc : KeyCode) : Option UInt16 := (keycode_to_vk kc).bind standard_key

/-- The effect of a key, a scroll or a relative move on a backend that gives
keys the codes `code` and takes a scroll delta in units of `unit` 120ths. -/
def InputDevice.after (code : KeyCode → Option UInt16) (unit : Int) (self : InputDevice)
    (event : InputEvent) : InputDevice :=
  match event with
  | .Key k =>
    match code k.code with
    | some c => self.set_key c (k.state = .Pressed)
    | none => self
  | .Mouse (.Scroll delta) =>
    self.turn (unit * delta.vertical.toInt) (unit * delta.horizontal.toInt)
  | .Mouse (.MoveRelative dx dy) => self.move dx.toInt dy.toInt
  | _ => self

/-- A key, a scroll or a relative move. -/
def InputEvent.Plain : InputEvent → Prop
  | .Key _ | .Mouse (.Scroll _) | .Mouse (.MoveRelative ..) => True
  | _ => False

namespace InputDevice

/-- Wheel travel and motion are sums, so a batch of events is one turn or one move. The
first three lemmas let `simp` add them up. -/
@[simp] theorem turn_zero (self : InputDevice) : self.turn 0 0 = self := by
  simp [turn]

/-- Two turns add up. -/
@[simp] theorem turn_turn (self : InputDevice) (v h v' h' : Int) :
    (self.turn v h).turn v' h' = self.turn (v + v') (h + h') := by
  simp [turn, Int.add_assoc]

/-- Two moves add up. -/
@[simp] theorem move_move (self : InputDevice) (x y x' y' : Int) :
    (self.move x y).move x' y' = self.move (x + x') (y + y') := by
  simp [move, Int.add_assoc]

variable (keybit : UInt16 → Bool) (self : InputDevice)

/-- A report marker moves nothing. -/
@[simp] theorem handle_syn : self.handle_evdev keybit syn = self := rfl

/-- A key event holds or releases the code, if the device was declared with it. Any
value but zero is a press; a value of two would be a repeat. -/
theorem handle_key (code : UInt16) (value : Int32) :
    self.handle_evdev keybit (key_event_raw code value)
      = if keybit code then self.set_key code (value ≠ 0) else self := rfl

/-- A relative event by its axis. The plain wheels are there for old readers and repeat
what the hi-res ones say, so they do not count. -/
theorem handle_rel (axis : RelativeAxis) (value : Int32) :
    self.handle_evdev keybit (rel_event axis value) = match axis with
      | .X => self.move value.toInt 0
      | .Y => self.move 0 value.toInt
      | .WheelHiRes => self.turn value.toInt 0
      | .HorizontalWheelHiRes => self.turn 0 value.toInt
      | .Wheel | .HorizontalWheel => self := by
  cases axis <;> rfl

/-- A delta sent as `mouseData` comes back as it was. -/
theorem handle_wheel (d : Int16) :
    self.handle_input (.mouse 0 0 d.toInt32.toUInt32 MOUSEEVENTF_WHEEL)
      = self.turn d.toInt 0 := by
  rw [handle_input, if_neg (by decide), if_pos rfl, Int32.toInt32_toUInt32, Int16.toInt_toInt32]

/-- The same for the horizontal wheel. `mouseData` is a `u32` in the source and is read
as signed. -/
theorem handle_hwheel (d : Int16) :
    self.handle_input (.mouse 0 0 d.toInt32.toUInt32 MOUSEEVENTF_HWHEEL)
      = self.turn 0 d.toInt := by
  rw [handle_input, if_neg (by decide), if_neg (by decide), if_pos rfl, Int32.toInt32_toUInt32,
    Int16.toInt_toInt32]

end InputDevice

/-- The value written for a state is not zero exactly for a press. -/
theorem key_state_value_ne (state : KeyState) :
    decide (key_state_value state ≠ 0) = decide (state = .Pressed) := by
  cases state <;> rfl

/-- The product does not leave `i32`. -/
theorem hi_res_toInt (d : Int16) : (d.toInt32 * 120).toInt = 120 * d.toInt := by
  have hlt := d.toInt_lt
  have hle := d.le_toInt
  rw [Int32.toInt_mul, Int16.toInt_toInt32, show (120 : Int32).toInt = 120 from rfl,
    Int.bmod_eq_of_le (by omega) (by omega), Int.mul_comm]

namespace LinuxInject

variable (keybit : UInt16 → Bool) (self : LinuxInject)

/-- A key through uinput: a batch of the key and a report, or nothing for a key without
a code. -/
theorem inject_key_dev (k : KeyEvent) :
    (self.inject_key keybit k).dev = self.dev.after (linux_code keybit) 120 (.Key k) := by
  simp only [inject_key, InputDevice.after, linux_code]
  cases hid_to_evdev k.code with
  | none => rfl
  | some code =>
      simp only [write_batch, List.singleton_append, List.foldl_cons, List.foldl_nil,
        InputDevice.handle_key, InputDevice.handle_syn, key_state_value_ne, Option.filter_some]
      cases keybit code <;> rfl

/-- A scroll through uinput. Each axis is sent on its own if it is not zero, and the
hi-res axis counts 120 for one unit of the delta. -/
theorem inject_scroll_dev (delta : ScrollDelta) :
    (self.inject keybit (.Mouse (.Scroll delta))).dev
      = self.dev.after (linux_code keybit) 120 (.Mouse (.Scroll delta)) := by
  obtain ⟨h, v⟩ := delta
  by_cases hv : v = 0
  · by_cases hh : h = 0
    · simp [inject, scroll_events, InputDevice.after, hv, hh]
    · simp [inject, scroll_events, InputDevice.after, hv, hh, write_batch,
        InputDevice.handle_rel, hi_res_toInt, -Int32.toInt_mul]
  · by_cases hh : h = 0
    · simp [inject, scroll_events, InputDevice.after, hv, hh, write_batch,
        InputDevice.handle_rel, hi_res_toInt, -Int32.toInt_mul]
    · simp [inject, scroll_events, InputDevice.after, hv, hh, write_batch,
        InputDevice.handle_rel, hi_res_toInt, -Int32.toInt_mul]

/-- **The Linux backend.** -/
theorem inject_dev (event : InputEvent) (h : event.Plain) :
    (self.inject keybit event).dev = self.dev.after (linux_code keybit) 120 event := by
  match event with
  | .Key k => exact self.inject_key_dev keybit k
  | .Mouse (.Scroll delta) => exact self.inject_scroll_dev keybit delta
  | .Mouse (.MoveRelative dx dy) =>
      simp [inject, write_batch, InputDevice.handle_rel, InputDevice.after]
  | .Mouse (.Move ..) | .Mouse (.Button ..) | .ScreenEnter .. | .ScreenLeave _
  | .ModifierSync _ => exact h.elim

end LinuxInject

namespace WindowsInject

variable (self : WindowsInject)

/-- A virtual key through `SendInput` reaches the physical key it stands for. -/
theorem key_vk_dev (vk : UInt16) (down : Bool) :
    (self.key_vk vk down).dev = match standard_key vk with
      | some code => self.dev.set_key code down
      | none => self.dev := by
  simp only [key_vk, send, List.foldl_cons, List.foldl_nil, InputDevice.handle_input]
  cases standard_key vk with
  | none => rfl
  | some code => cases down <;> rfl

/-- A scroll through `SendInput`. The delta goes in as `mouseData` unscaled, where 120
would be one notch: one unit is a 120th of what it is on Linux. -/
theorem inject_scroll_dev (delta : ScrollDelta) :
    (self.inject (.Mouse (.Scroll delta))).dev
      = self.dev.after windows_code 1 (.Mouse (.Scroll delta)) := by
  obtain ⟨h, v⟩ := delta
  have hsend : ∀ inputs : List INPUT,
      (if inputs.isEmpty then self else self.send inputs) = self.send inputs := by
    intro inputs
    cases inputs <;> rfl
  -- a delta of zero sends nothing and turns nothing
  have hwheel : ∀ dev : InputDevice,
      (if v ≠ 0 then [INPUT.mouse 0 0 v.toInt32.toUInt32 MOUSEEVENTF_WHEEL] else []).foldl
        InputDevice.handle_input dev = dev.turn v.toInt 0 := by
    intro dev
    split_ifs with hv
    · rw [List.foldl_cons, List.foldl_nil, InputDevice.handle_wheel]
    · rw [not_not.mp hv, List.foldl_nil, Int16.toInt_zero, InputDevice.turn_zero]
  have hhwheel : ∀ dev : InputDevice,
      (if h ≠ 0 then [INPUT.mouse 0 0 h.toInt32.toUInt32 MOUSEEVENTF_HWHEEL] else []).foldl
        InputDevice.handle_input dev = dev.turn 0 h.toInt := by
    intro dev
    split_ifs with hh
    · rw [List.foldl_cons, List.foldl_nil, InputDevice.handle_hwheel]
    · rw [not_not.mp hh, List.foldl_nil, Int16.toInt_zero, InputDevice.turn_zero]
  rw [inject, mouse_scroll, hsend]
  simp only [send, List.foldl_append, hwheel, hhwheel, InputDevice.turn_turn, InputDevice.after]
  rw [Int.one_mul, Int.one_mul, Int.add_zero, Int.zero_add]

/-- **The Windows backend.** -/
theorem inject_dev (event : InputEvent) (h : event.Plain) :
    (self.inject event).dev = self.dev.after windows_code 1 event := by
  match event with
  | .Key k =>
      simp only [inject, key_event, InputDevice.after, windows_code]
      cases keycode_to_vk k.code with
      | none => rfl
      | some vk => exact self.key_vk_dev vk _
  | .Mouse (.Scroll delta) => exact self.inject_scroll_dev delta
  | .Mouse (.MoveRelative dx dy) => rfl
  | .Mouse (.Move ..) | .Mouse (.Button ..) | .ScreenEnter .. | .ScreenLeave _
  | .ModifierSync _ => exact h.elim

end WindowsInject

end InputSync
