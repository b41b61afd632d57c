/-
The Windows capture (`crates/platform/src/windows/capture.rs`, `keymap.rs`):
the two hook procedures and the drain thread's loop body. The object that
starts them is the subject of `WindowsCapture`.

A hook call does two things in this order: it pushes the raw event into the
hook queue, then it reads `HOOK_CAPTURING` to decide whether the event goes on
to the local system. The drain thread takes raw events out later and reads the
other flag, `CaptureState::capturing`. So a hook procedure is a function of
the flag it reads, the loop body of the flag it reads, and what happens
between the two reads is for the files that run them against each other.
-/
import InputSync.Event

set_option autoImplicit false

namespace InputSync

/-! ## Raw events

What the hooks push: an event of the system, before it is one of the protocol. -/

/-- `RawEvent`. -/
inductive RawEvent
  | KeyDown (vk scan : UInt32)
  | KeyUp (vk scan : UInt32)
  | MouseMove (x y : Int32)
  | MouseButton (button : Button) (down : Bool)
  | MouseScroll (horizontal : Bool) (delta : Int16)
deriving DecidableEq

namespace RawEvent

/-- The event is a move of the mouse. -/
def is_move : RawEvent → Bool
  | .MouseMove _ _ => true
  | _ => false

/-- The key of a key event, and whether it went down. -/
def key : RawEvent → Option (UInt32 × Bool)
  | .KeyDown vk _ => some (vk, true)
  | .KeyUp vk _ => some (vk, false)
  | _ => none

end RawEvent

/-- `VK_ESCAPE`. -/
def VK_ESCAPE : UInt32 := 0x1B

/-- `vk_to_keycode`, arm by arm: the virtual key and what it becomes. -/
def keymap : List (UInt16 × KeyCode) :=
  [(0x41, .A), (0x42, .B), (0x43, .C), (0x44, .D), (0x45, .E), (0x46, .F), (0x47, .G), (0x48, .H),
    (0x49, .I), (0x4A, .J), (0x4B, .K), (0x4C, .L), (0x4D, .M), (0x4E, .N), (0x4F, .O), (0x50, .P),
    (0x51, .Q), (0x52, .R), (0x53, .S), (0x54, .T), (0x55, .U), (0x56, .V), (0x57, .W), (0x58, .X),
    (0x59, .Y), (0x5A, .Z),
    (0x30, .Num0), (0x31, .Num1), (0x32, .Num2), (0x33, .Num3), (0x34, .Num4), (0x35, .Num5),
    (0x36, .Num6), (0x37, .Num7), (0x38, .Num8), (0x39, .Num9),
    (0x0D, .Enter), (0x1B, .Escape), (0x08, .Backspace), (0x09, .Tab), (0x20, .Space),
    (0xBD, .Minus), (0xBB, .Equals), (0xDB, .LeftBracket), (0xDD, .RightBracket),
    (0xDC, .Backslash), (0xBA, .Semicolon), (0xDE, .Apostrophe), (0xC0, .Grave), (0xBC, .Comma),
    (0xBE, .Period), (0xBF, .Slash), (0x14, .CapsLock),
    (0x70, .F1), (0x71, .F2), (0x72, .F3), (0x73, .F4), (0x74, .F5), (0x75, .F6), (0x76, .F7),
    (0x77, .F8), (0x78, .F9), (0x79, .F10), (0x7A, .F11), (0x7B, .F12),
    (0x2C, .PrintScreen), (0x91, .ScrollLock), (0x13, .Pause), (0x2D, .Insert), (0x24, .Home),
    (0x21, .PageUp), (0x2E, .Delete), (0x23, .End), (0x22, .PageDown), (0x27, .ArrowRight),
    (0x25, .ArrowLeft), (0x28, .ArrowDown), (0x26, .ArrowUp),
    (0xA2, .LeftCtrl), (0xA0, .LeftShift), (0xA4, .LeftAlt), (0x5B, .LeftSuper), (0xA3, .RightCtrl),
    (0xA1, .RightShift), (0xA5, .RightAlt), (0x5C, .RightSuper)]

/-- `vk_to_keycode`: a virtual key that is not in the table is `Unknown`. -/
def vk_to_keycode (vk : UInt16) : KeyCode :=
  ((keymap.find? (fun e => e.1 = vk)).map (fun e => e.2)).getD .Unknown

/-- Only the Escape key becomes `Escape`. -/
theorem vk_of_escape (vk : UInt16) (h : vk_to_keycode vk = .Escape) : vk = 0x1B := by
  unfold vk_to_keycode at h
  cases hfind : keymap.find? (fun e => e.1 = vk) with
  | none => simp [hfind] at h
  | some e =>
      have hall : ∀ e ∈ keymap, e.2 = .Escape → e.1 = 0x1B := by decide
      have hvk : e.1 = vk := by simpa using List.find?_some hfind
      rw [← hvk]
      exact hall e (List.mem_of_find?_eq_some hfind) (by simpa [hfind] using h)

/-- The flag of a modifier key, `VK_SHIFT` and its left and right forms in the
first line, then `VK_CONTROL`, `VK_MENU`, the two `VK_*WIN`, `VK_CAPITAL` and
`VK_NUMLOCK`. -/
def modifier_flag (vk : UInt16) : Option ModifierState :=
  if vk ∈ [0xA0, 0xA1, 0x10] then some .SHIFT
  else if vk ∈ [0xA2, 0xA3, 0x11] then some .CTRL
  else if vk ∈ [0xA4, 0xA5, 0x12] then some .ALT
  else if vk ∈ [0x5B, 0x5C] then some .SUPER
  else if vk = 0x14 then some .CAPS_LOCK
  else if vk = 0x90 then some .NUM_LOCK
  else none

/-- `update_modifiers`: a key with a flag sets it or takes it back, and any other key
leaves the snapshot. -/
def update_modifiers (state : ModifierState) (vk : UInt32) (down : Bool) : ModifierState :=
  match modifier_flag vk.toUInt16 with
  | some flag => if down then state.insert flag else state.remove flag
  | none => state

/-! ## The hook procedures

Push, then decide whether the local system sees the event. The decision reads a flag of
its own. -/

/-- The window messages the hooks distinguish, with the values of the Windows headers.
-/
def WM_KEYDOWN : UInt32 := 0x0100
def WM_KEYUP : UInt32 := 0x0101
def WM_SYSKEYDOWN : UInt32 := 0x0104
def WM_SYSKEYUP : UInt32 := 0x0105
def WM_MOUSEMOVE : UInt32 := 0x0200
def WM_LBUTTONDOWN : UInt32 := 0x0201
def WM_LBUTTONUP : UInt32 := 0x0202
def WM_RBUTTONDOWN : UInt32 := 0x0204
def WM_RBUTTONUP : UInt32 := 0x0205
def WM_MBUTTONDOWN : UInt32 := 0x0207
def WM_MBUTTONUP : UInt32 := 0x0208
def WM_MOUSEWHEEL : UInt32 := 0x020A
def WM_MOUSEHWHEEL : UInt32 := 0x020E

/-- The fields of `KBDLLHOOKSTRUCT` that are read. -/
structure KeyboardData where
  vkCode : UInt32
  scanCode : UInt32
deriving DecidableEq

/-- The fields of `MSLLHOOKSTRUCT` that are read. -/
structure MouseData where
  pt : Point
  mouseData : UInt32
deriving DecidableEq

/-- What the keyboard hook makes of a message: `WM_SYSKEY*` count like `WM_KEY*`. -/
def keyboard_event (wparam : UInt32) (kb : KeyboardData) : Option RawEvent :=
  if wparam = WM_KEYDOWN ∨ wparam = WM_SYSKEYDOWN then some (.KeyDown kb.vkCode kb.scanCode)
  else if wparam = WM_KEYUP ∨ wparam = WM_SYSKEYUP then some (.KeyUp kb.vkCode kb.scanCode)
  else none

/-- What the mouse hook makes of a message. The wheel delta is the high word, signed. -/
def mouse_event (wparam : UInt32) (ms : MouseData) : Option RawEvent :=
  let delta := ((ms.mouseData >>> 16) &&& 0xFFFF).toUInt16.toInt16
  if wparam = WM_MOUSEMOVE then some (.MouseMove ms.pt.x ms.pt.y)
  else if wparam = WM_LBUTTONDOWN then some (.MouseButton .Left true)
  else if wparam = WM_LBUTTONUP then some (.MouseButton .Left false)
  else if wparam = WM_RBUTTONDOWN then some (.MouseButton .Right true)
  else if wparam = WM_RBUTTONUP then some (.MouseButton .Right false)
  else if wparam = WM_MBUTTONDOWN then some (.MouseButton .Middle true)
  else if wparam = WM_MBUTTONUP then some (.MouseButton .Middle false)
  else if wparam = WM_MOUSEWHEEL then some (.MouseScroll false delta)
  else if wparam = WM_MOUSEHWHEEL then some (.MouseScroll true delta)
  else none

/-- `low_level_keyboard_proc`: the event it pushes, and whether the call goes
on to the next hook and so to the local system. -/
def low_level_keyboard_proc (code : Int32) (wparam : UInt32) (kb : KeyboardData)
    (hook_capturing : Bool) : Option RawEvent × Bool :=
  if 0 ≤ code then
    (keyboard_event wparam kb, !(hook_capturing && !(kb.vkCode == VK_ESCAPE)))
  else (none, true)

/-- `low_level_mouse_proc`. -/
def low_level_mouse_proc (code : Int32) (wparam : UInt32) (ms : MouseData)
    (hook_capturing : Bool) : Option RawEvent × Bool :=
  if 0 ≤ code then
    (mouse_event wparam ms, !(hook_capturing && !(wparam == WM_MOUSEMOVE)))
  else (none, true)

/-- A call of one of the two hooks, with its arguments. -/
inductive HookCall
  | keyboard (code : Int32) (wparam : UInt32) (kb : KeyboardData)
  | mouse (code : Int32) (wparam : UInt32) (ms : MouseData)
deriving DecidableEq

namespace HookCall

/-- The hook procedure of either kind: what it pushes, and whether it passes the event
on. -/
def proc (self : HookCall) (hook_capturing : Bool) : Option RawEvent × Bool :=
  match self with
  | .keyboard code wparam kb => low_level_keyboard_proc code wparam kb hook_capturing
  | .mouse code wparam ms => low_level_mouse_proc code wparam ms hook_capturing

/-- What the call pushes; it reads the flag only afterwards. -/
def event (self : HookCall) : Option RawEvent := (self.proc false).1

/-- The key the call is about, and whether it went down. -/
def key (self : HookCall) : Option (UInt32 × Bool) := self.event.bind RawEvent.key

/-- With the flag off nothing is swallowed. -/
theorem proc_passes (self : HookCall) : (self.proc false).2 = true := by
  cases self with
  | keyboard code wparam kb =>
      simp only [proc, low_level_keyboard_proc]
      split <;> rfl
  | mouse code wparam ms =>
      simp only [proc, low_level_mouse_proc]
      split <;> rfl

/-- A keyboard hook reports the key of its record, and only for codes it is to process.
-/
theorem keyboard_key {code : Int32} {wparam : UInt32} {kb : KeyboardData} {vk : UInt32} {down : Bool}
    (h : (keyboard code wparam kb).key = some (vk, down)) : 0 ≤ code ∧ kb.vkCode = vk := by
  simp only [key, event, proc, low_level_keyboard_proc, keyboard_event] at h
  split_ifs at h with hcode hdown hup
  · cases h
    exact ⟨hcode, rfl⟩
  · cases h
    exact ⟨hcode, rfl⟩
  · cases h
  · cases h

/-- What the mouse hook makes of a message is no key. -/
theorem mouse_event_key (wparam : UInt32) (ms : MouseData) :
    (mouse_event wparam ms).bind RawEvent.key = none := by
  unfold mouse_event
  simp only [apply_ite (fun raw => Option.bind raw RawEvent.key), Option.bind_some, RawEvent.key,
    Option.bind_none, ite_self]

/-- The mouse hook pushes no key. -/
theorem mouse_key (code : Int32) (wparam : UInt32) (ms : MouseData) :
    (mouse code wparam ms).key = none := by
  unfold key event
  show (low_level_mouse_proc code wparam ms false).1.bind RawEvent.key = none
  unfold low_level_mouse_proc
  split_ifs
  · exact mouse_event_key wparam ms
  · rfl

/-- A key event is passed on when the flag is off, and Escape always. -/
theorem proc_key (self : HookCall) (flag : Bool) (vk : UInt32) (down : Bool)
    (hkey : self.key = some (vk, down)) : (self.proc flag).2 = (!flag || vk == VK_ESCAPE) := by
  cases self with
  | keyboard code wparam kb =>
      obtain ⟨hcode, rfl⟩ := keyboard_key hkey
      simp only [proc, low_level_keyboard_proc, if_pos hcode]
      cases flag <;> simp
  | mouse code wparam ms =>
      rw [mouse_key] at hkey
      cases hkey

end HookCall

/-! ## The hook queue and the drain thread

Two bounded queues in a row, both of which drop what does not fit, and the loop body
between them. -/

/-- `try_push` on the hook queue, which holds 8192; a full one drops the
event. -/
def try_push {α : Type} (queue : List α) (ev : α) : Option (List α) :=
  if queue.length < 8192 then some (queue ++ [ev]) else none

/-- `ChannelSink::send`: `try_send` on a channel of 4096, and the same. -/
def sink_send {α : Type} (channel : List α) (event : α) : Option (List α) :=
  if channel.length < 4096 then some (channel ++ [event]) else none

namespace RawEvent

/-- The event the loop body builds, with the snapshot as it is then. -/
def to_input (modifiers : ModifierState) : RawEvent → InputEvent
  | .KeyDown vk _ => .Key ⟨vk_to_keycode vk.toUInt16, .Pressed, modifiers, none⟩
  | .KeyUp vk _ => .Key ⟨vk_to_keycode vk.toUInt16, .Released, modifiers, none⟩
  | .MouseMove x y => .Mouse (.Move x y)
  | .MouseButton button down => .Mouse (.Button button (if down then .Pressed else .Released))
  | .MouseScroll horizontal delta =>
    .Mouse (.Scroll ⟨if horizontal then delta else 0, if horizontal then 0 else delta⟩)

/-- The snapshot after the event. -/
def note (mods : ModifierState) (raw : RawEvent) : ModifierState :=
  match raw.key with
  | some (vk, down) => update_modifiers mods vk down
  | none => mods

end RawEvent

/-- The body of `drain_thread_main` for one raw event: the modifier snapshot
afterwards, and what goes to the sink. Moves always do, the rest only while
`capturing`. -/
def drain_raw (mods : ModifierState) (capturing : Bool) (raw : RawEvent) :
    ModifierState × Option InputEvent :=
  let mods := raw.note mods
  let forward_now := capturing || raw.is_move
  if !forward_now then (mods, none) else (mods, some (raw.to_input mods))

/-- The drain thread notes every event in its snapshot, whether it hands it on or not.
-/
@[simp] theorem drain_raw_mods (mods : ModifierState) (capturing : Bool) (raw : RawEvent) :
    (drain_raw mods capturing raw).1 = raw.note mods := by
  unfold drain_raw
  cases capturing <;> cases raw <;> rfl

/-- A key event goes to the sink exactly when the flag is on. -/
theorem drain_raw_key (mods : ModifierState) (capturing : Bool) (raw : RawEvent)
    (h : raw.key.isSome) : (drain_raw mods capturing raw).2.isSome = capturing := by
  cases raw with
  | KeyDown vk scan => cases capturing <;> rfl
  | KeyUp vk scan => cases capturing <;> rfl
  | MouseMove x y => cases h
  | MouseButton button down => cases h
  | MouseScroll horizontal delta => cases h

/-- A move goes to the sink whatever the flag says. -/
theorem drain_raw_move (mods : ModifierState) (capturing : Bool) (x y : Int32) :
    drain_raw mods capturing (.MouseMove x y) = (mods, some (.Mouse (.Move x y))) := by
  cases capturing <;> rfl

/-- What the sink is handed is the event with the snapshot after it. -/
theorem drain_raw_event (mods : ModifierState) (capturing : Bool) (raw : RawEvent)
    (event : InputEvent) (h : (drain_raw mods capturing raw).2 = some event) :
    event = raw.to_input (raw.note mods) := by
  unfold drain_raw at h
  dsimp only at h
  split_ifs at h
  exact (Option.some.inj h).symm

end InputSync
