/-
Do the two injection backends agree? They do when they leave the same device
behind: the same physical keys down, the same wheel travel, the same motion of
the pointer.

Motion always agrees. A scroll is worth 120 times as much on Linux, so travel
agrees where the deltas cancel. The keys are the interesting part: the Linux
code of a key is its HID usage plus 8, which is the code of some other key, and
that one is reached on Windows from yet another (`mixed_up`). Following this
from a key that is held, all of the chain would have to be held; but every
chain ends, except that J and Y are each other's. So the held keys agree when
there are none, or just these two.
-/
import InputSync.Capture
import InputSync.Inject
import Mathlib.Algebra.Ring.Int.Defs

set_option autoImplicit false

namespace InputSync

/-! ## Whole runs

Two injectors get the same events. Both runs are folds over the events, so the device
afterwards can be described field by field: which keys are held, how far the wheels have
turned, how far the pointer was moved. -/

/-- What an event says about a key. -/
def key_word (kc : KeyCode) : InputEvent → Option Bool
  | .Key k => if k.code = kc then some (k.state = .Pressed) else none
  | _ => none

/-- The last event of the key is a press. -/
def Held (events : List InputEvent) (kc : KeyCode) : Prop :=
  last_word (key_word kc) events = some true

/-- The scroll deltas of an event, vertical and horizontal. -/
def InputEvent.scroll : InputEvent → Int × Int
  | .Mouse (.Scroll delta) => (delta.vertical.toInt, delta.horizontal.toInt)
  | _ => (0, 0)

/-- The device after the events went through a fresh Linux injector. -/
def linux_run (keybit : UInt16 → Bool) (events : List InputEvent) : InputDevice :=
  (events.foldl (LinuxInject.inject keybit) .new).dev

/-- The same for a Windows injector. -/
def windows_run (virtual_w virtual_h : Int32) (events : List InputEvent) : InputDevice :=
  (events.foldl WindowsInject.inject (.new virtual_w virtual_h)).dev

/-- A run through an injector is a fold of `InputDevice.after`. The injectors' own
fields, such as the pointer position, are gone from here on. -/
theorem linux_run_eq (keybit : UInt16 → Bool) (events : List InputEvent)
    (hplain : ∀ e ∈ events, e.Plain) :
    linux_run keybit events = events.foldl (InputDevice.after (linux_code keybit) 120) .new := by
  refine List.foldl_rel (r := fun (inj : LinuxInject) dev => inj.dev = dev) rfl ?_
  rintro e he inj _ rfl
  exact inj.inject_dev keybit e (hplain e he)

/-- The same for the other backend, whose virtual screen then plays no part. -/
theorem windows_run_eq (virtual_w virtual_h : Int32) (events : List InputEvent)
    (hplain : ∀ e ∈ events, e.Plain) :
    windows_run virtual_w virtual_h events
      = events.foldl (InputDevice.after windows_code 1) .new := by
  refine List.foldl_rel (r := fun (inj : WindowsInject) dev => inj.dev = dev) rfl ?_
  rintro e he inj _ rfl
  exact inj.inject_dev e (hplain e he)

namespace InputDevice

variable (code : KeyCode → Option UInt16) (unit : Int)

/-- The key with this code is down. -/
def holds (self : InputDevice) (c : UInt16) : Bool := c ∈ self.held

/-- Setting one code changes the answer about that code only. -/
theorem set_key_holds (self : InputDevice) (c c' : UInt16) (down : Bool) :
    (self.set_key c' down).holds c = if c' = c then down else self.holds c := by
  unfold holds set_key
  by_cases hc : c' = c
  · subst hc
    cases down <;> simp
  · cases down <;> simp [hc, Ne.symm hc]

/-- Only keys hold and release. -/
theorem after_holds (self : InputDevice) (event : InputEvent) (c : UInt16) :
    (self.after code unit event).holds c
      = match event with
        | .Key k => if code k.code = some c then decide (k.state = .Pressed) else self.holds c
        | _ => self.holds c := by
  match event with
  | .Key k =>
      simp only [after]
      cases code k.code with
      | none => simp
      | some c' => simp [set_key_holds]
  | .Mouse (.Scroll delta) | .Mouse (.MoveRelative dx dy) | .Mouse (.Move ..)
  | .Mouse (.Button ..) | .ScreenEnter .. | .ScreenLeave _ | .ModifierSync _ => rfl

/-- Of a key whose code no other key shares, the code is held as the events
say. -/
theorem after_key_word (self : InputDevice) (event : InputEvent) {kc : KeyCode} {c : UInt16}
    (hkc : code kc = some c) (hinj : ∀ a b c, code a = some c → code b = some c → a = b) :
    (self.after code unit event).holds c = (key_word kc event).getD (self.holds c) := by
  rw [after_holds]
  match event with
  | .Key k =>
      simp only [key_word]
      by_cases hk : k.code = kc
      · rw [if_pos hk, hk, if_pos hkc, Option.getD_some]
      · rw [if_neg hk, if_neg (fun hc => hk (hinj _ _ _ hc hkc)), Option.getD_none]
  | .Mouse _ | .ScreenEnter .. | .ScreenLeave _ | .ModifierSync _ => rfl

/-- **The keys a run leaves held.** No two keys share a code, so each is held
that was pressed last. -/
theorem run_holds (hinj : ∀ a b c, code a = some c → code b = some c → a = b)
    (events : List InputEvent) (c : UInt16) :
    (events.foldl (after code unit) .new).holds c = true ↔
      ∃ kc, code kc = some c ∧ Held events kc := by
  -- a code that some key has is down as that key's last event says; a code without a
  -- key is never down
  by_cases hkc : ∃ kc, code kc = some c
  · obtain ⟨kc, hkc⟩ := hkc
    have hread := foldl_last_word (key_word kc) (after code unit) (fun d => d.holds c)
      (fun d e => d.after_key_word code unit e hkc hinj) .new events
    rw [hread]
    constructor
    · intro hheld
      refine ⟨kc, hkc, ?_⟩
      unfold Held
      cases hlast : last_word (key_word kc) events with
      | none => simp [hlast, new, holds] at hheld
      | some down => simpa [hlast] using hheld
    · rintro ⟨kc', hkc', hheld⟩
      obtain rfl := hinj _ _ _ hkc' hkc
      rw [hheld, Option.getD_some]
  -- no event touches a code that no key has
  · have hnone : ∀ d : InputDevice, d.holds c = false →
        (events.foldl (after code unit) d).holds c = false := by
      induction events with
      | nil => exact fun d hd => hd
      | cons e events ih =>
          intro d hd
          apply ih
          rw [after_holds]
          match e with
          | .Key k =>
              rw [← hd]
              exact if_neg (fun hc => hkc ⟨_, hc⟩)
          | .Mouse _ | .ScreenEnter .. | .ScreenLeave _ | .ModifierSync _ => exact hd
    rw [hnone .new (by simp [new, holds])]
    exact iff_of_false Bool.false_ne_true (fun ⟨kc, h, _⟩ => hkc ⟨kc, h⟩)

/-- Wheels turn by the sum of the deltas. -/
theorem travel_run (self : InputDevice) (events : List InputEvent) :
    (events.foldl (after code unit) self).vertical
        = self.vertical + unit * (events.map (fun e => e.scroll.1)).sum ∧
      (events.foldl (after code unit) self).horizontal
        = self.horizontal + unit * (events.map (fun e => e.scroll.2)).sum := by
  induction events generalizing self with
  | nil => simp
  | cons e events ih =>
      obtain ⟨hv, hh⟩ := ih (self.after code unit e)
      have hstep : (self.after code unit e).vertical = self.vertical + unit * e.scroll.1 ∧
          (self.after code unit e).horizontal = self.horizontal + unit * e.scroll.2 := by
        match e with
        | .Key k =>
            simp only [after, InputEvent.scroll]
            cases code k.code <;> simp [set_key]
        | .Mouse (.Scroll delta) => exact ⟨rfl, rfl⟩
        | .Mouse (.MoveRelative ..) | .Mouse (.Move ..) | .Mouse (.Button ..) | .ScreenEnter ..
        | .ScreenLeave _ | .ModifierSync _ => simp [after, InputEvent.scroll, move]
      rw [List.foldl_cons, List.map_cons, List.sum_cons, List.map_cons, List.sum_cons, hv, hh,
        hstep.1, hstep.2, Int.mul_add, Int.mul_add, Int.add_assoc, Int.add_assoc]
      exact ⟨rfl, rfl⟩

/-- Motion has nothing to do with codes and units. -/
theorem moved_run (code' : KeyCode → Option UInt16) (unit' : Int) (self other : InputDevice)
    (events : List InputEvent)
    (h : self.moved_x = other.moved_x ∧ self.moved_y = other.moved_y) :
    (events.foldl (after code unit) self).moved_x
        = (events.foldl (after code' unit') other).moved_x ∧
      (events.foldl (after code unit) self).moved_y
        = (events.foldl (after code' unit') other).moved_y := by
  refine List.foldl_rel (r := fun (self other : InputDevice) =>
    self.moved_x = other.moved_x ∧ self.moved_y = other.moved_y) h ?_
  intro e _ self other h
  match e with
  | .Key k =>
      simp only [after]
      cases code k.code <;> cases code' k.code <;> exact h
  | .Mouse (.MoveRelative dx dy) => simp [after, move, h.1, h.2]
  | .Mouse (.Scroll _) | .Mouse (.Move ..) | .Mouse (.Button ..) | .ScreenEnter ..
  | .ScreenLeave _ | .ModifierSync _ => exact h

end InputDevice

/-! ## The codes

Both ways of giving keys codes are injective. For the tables this is checked by
evaluation. -/

/-- All keys, for statements that are checked key by key. -/
def KeyCode.all : List KeyCode :=
  [.Unknown, .A, .B, .C, .D, .E, .F, .G, .H, .I, .J, .K, .L, .M, .N, .O, .P, .Q, .R, .S, .T, .U,
    .V, .W, .X, .Y, .Z, .Num1, .Num2, .Num3, .Num4, .Num5, .Num6, .Num7, .Num8, .Num9, .Num0,
    .Enter, .Escape, .Backspace, .Tab, .Space, .Minus, .Equals, .LeftBracket, .RightBracket,
    .Backslash, .Semicolon, .Apostrophe, .Grave, .Comma, .Period, .Slash, .CapsLock, .F1, .F2,
    .F3, .F4, .F5, .F6, .F7, .F8, .F9, .F10, .F11, .F12, .PrintScreen, .ScrollLock, .Pause,
    .Insert, .Home, .PageUp, .Delete, .End, .PageDown, .ArrowRight, .ArrowLeft, .ArrowDown,
    .ArrowUp, .LeftCtrl, .LeftShift, .LeftAlt, .LeftSuper, .RightCtrl, .RightShift, .RightAlt,
    .RightSuper]

/-- The list is complete, so that a statement about all keys can be decided by going
through it. -/
theorem KeyCode.mem_all (kc : KeyCode) : kc ∈ KeyCode.all := by
  cases kc <;> decide

/-- The key that gets a code through uinput. -/
def linux_key (code : UInt16) : Option KeyCode :=
  KeyCode.all.find? (fun kc => hid_to_evdev kc = some code)

/-- Reading a code back gives the key it was written for. Only `Unknown` has none. -/
theorem linux_key_hid : ∀ kc ∈ KeyCode.all, kc ≠ .Unknown → linux_key (kc.hid + 8) = some kc := by
  decide +kernel

/-- The same as an inversion of `hid_to_evdev`, -/
theorem linux_key_of {kc : KeyCode} {c : UInt16} (h : hid_to_evdev kc = some c) :
    linux_key c = some kc := by
  have hne : kc ≠ .Unknown := by
    rintro rfl
    cases h
  unfold hid_to_evdev at h
  split_ifs at h
  obtain rfl := Option.some.inj h
  exact linux_key_hid kc kc.mem_all hne

/-- Reading the keyboard undoes `keycode_to_vk`. -/
theorem vk_to_keycode_vk : ∀ kc ∈ KeyCode.all, ∀ vk, keycode_to_vk kc = some vk →
    vk_to_keycode vk = kc := by
  have hround : ∀ kc ∈ KeyCode.all, (keycode_to_vk kc).all (fun vk => vk_to_keycode vk = kc) := by
    decide +kernel
  intro kc hkc vk hvk
  simpa [hvk] using hround kc hkc

/-- Different virtual keys stand for different physical keys. The table is searched from
the front, and every entry is found by its own code. -/
theorem standard_key_inj {vk vk' c : UInt16} (h : standard_key vk = some c)
    (h' : standard_key vk' = some c) : vk = vk' := by
  have hfirst : standard_keys.all
      (fun e => standard_keys.find? (fun e' => e'.2 = e.2) = some e) = true := by
    decide +kernel
  have hentry : ∀ v, standard_key v = some c → standard_keys.find? (fun e' => e'.2 = c)
      = some (v, c) := by
    intro v hv
    obtain ⟨e, he, rfl⟩ := Option.map_eq_some_iff.mp hv
    have hkey : e.1 = v := by simpa using List.find?_some he
    have he' := List.all_eq_true.mp hfirst e (List.mem_of_find?_eq_some he)
    rw [of_decide_eq_true he', ← hkey]
  have hsame := hentry vk h
  rw [hentry vk' h', Option.some.injEq, Prod.mk.injEq] at hsame
  exact hsame.1.symm

/-- So no two keys share a code on Windows, -/
theorem windows_code_inj (a b : KeyCode) (c : UInt16) (ha : windows_code a = some c)
    (hb : windows_code b = some c) : a = b := by
  obtain ⟨vk, hvk, hc⟩ := Option.bind_eq_some_iff.mp ha
  obtain ⟨vk', hvk', hc'⟩ := Option.bind_eq_some_iff.mp hb
  obtain rfl := standard_key_inj hc hc'
  rw [← vk_to_keycode_vk a a.mem_all vk hvk, ← vk_to_keycode_vk b b.mem_all vk hvk']

/-- The device of the Linux backend has the codes it was declared with and no others. -/
theorem linux_code_eq_some {keybit : UInt16 → Bool} {kc : KeyCode} {c : UInt16} :
    linux_code keybit kc = some c ↔ hid_to_evdev kc = some c ∧ keybit c = true :=
  Option.filter_eq_some_iff

/-- and none do on Linux. -/
theorem linux_code_inj (keybit : UInt16 → Bool) (a b : KeyCode) (c : UInt16)
    (ha : linux_code keybit a = some c) (hb : linux_code keybit b = some c) : a = b := by
  have hkey := linux_key_of (linux_code_eq_some.mp ha).1
  rw [linux_key_of (linux_code_eq_some.mp hb).1, Option.some.injEq] at hkey
  exact hkey.symm

/-! ## Mixed-up keys

On Linux a key gets the code that on Windows belongs to another one. `mixed_up` is that
other one, and the argument follows it from key to key. -/

/-- The key that on Linux gets the code which `kc` has on Windows. -/
def mixed_up (kc : KeyCode) : Option KeyCode := (windows_code kc).bind linux_key

/-- The key `n` mix-ups further on. -/
def chain : Nat → KeyCode → Option KeyCode
  | 0, kc => some kc
  | n + 1, kc => (mixed_up kc).bind (chain n)

/-- Every chain ends, but for the one that goes round between J and Y. -/
theorem chain_ends : ∀ kc ∈ KeyCode.all, kc ≠ .J → kc ≠ .Y → chain 12 kc = none := by
  decide +kernel

/-- Every key but `Unknown` has a code on Windows. -/
theorem mapped_on_windows : ∀ kc ∈ KeyCode.all, kc ≠ .Unknown → (windows_code kc).isSome := by
  decide +kernel

/-! ## When the backends agree

If the same codes are held, a key is held exactly when the one mixed up with it is; so
whole chains are, and all but one of them come to an end. -/

/-- Nothing is held, or J and Y are and nothing else; `Unknown` does not count,
it is injected by neither. -/
def OnlySwappedHeld (events : List InputEvent) : Prop :=
  (∀ kc, kc ≠ .Unknown → kc ≠ .J → kc ≠ .Y → ¬ Held events kc) ∧
    (Held events .J ↔ Held events .Y)

/-- The deltas of all scrolls cancel. -/
def ScrollsCancel (events : List InputEvent) : Prop :=
  (events.map (fun e => e.scroll.1)).sum = 0 ∧ (events.map (fun e => e.scroll.2)).sum = 0

/-- If the same codes are held, then with every key the one mixed up with it. -/
theorem mixed_up_held {keybit : UInt16 → Bool} {events : List InputEvent}
    (hsame : ∀ c, (∃ kc, linux_code keybit kc = some c ∧ Held events kc) ↔
      ∃ kc, windows_code kc = some c ∧ Held events kc)
    {kc : KeyCode} (hne : kc ≠ .Unknown) (hheld : Held events kc) :
    ∃ kc', mixed_up kc = some kc' ∧ kc' ≠ .Unknown ∧ Held events kc' := by
  obtain ⟨c, hc⟩ := Option.isSome_iff_exists.mp (mapped_on_windows kc kc.mem_all hne)
  obtain ⟨kc', hkc', hheld'⟩ := (hsame c).mpr ⟨kc, hc, hheld⟩
  have hevdev := (linux_code_eq_some.mp hkc').1
  refine ⟨kc', by rw [mixed_up, hc, Option.bind_some, linux_key_of hevdev], ?_, hheld'⟩
  rintro rfl
  cases hevdev

/-- So the whole chain is held. -/
theorem chain_held {keybit : UInt16 → Bool} {events : List InputEvent}
    (hsame : ∀ c, (∃ kc, linux_code keybit kc = some c ∧ Held events kc) ↔
      ∃ kc, windows_code kc = some c ∧ Held events kc)
    (n : Nat) (kc : KeyCode) (hne : kc ≠ .Unknown) (hheld : Held events kc) :
    chain n kc ≠ none := by
  induction n generalizing kc with
  | zero => exact Option.some_ne_none kc
  | succ n ih =>
      obtain ⟨kc', hmixed, hne', hheld'⟩ := mixed_up_held hsame hne hheld
      rw [chain, hmixed, Option.bind_some]
      exact ih kc' hne' hheld'

/-- **The same keys are held** exactly when only the two that are each other's
are. -/
theorem same_held_iff (keybit : UInt16 → Bool) (events : List InputEvent)
    (hJ : keybit (evdev_code .J) = true) (hY : keybit (evdev_code .Y) = true) :
    (∀ c, (∃ kc, linux_code keybit kc = some c ∧ Held events kc) ↔
      ∃ kc, windows_code kc = some c ∧ Held events kc) ↔ OnlySwappedHeld events := by
  have hlinux : linux_code keybit .J = some 21 ∧ linux_code keybit .Y = some 36 :=
    ⟨linux_code_eq_some.mpr ⟨rfl, hJ⟩, linux_code_eq_some.mpr ⟨rfl, hY⟩⟩
  have hwindows : windows_code .J = some 36 ∧ windows_code .Y = some 21 := by decide +kernel
  have hmixed : mixed_up .J = some .Y ∧ mixed_up .Y = some .J := by decide +kernel
  constructor
  · intro hsame
    refine ⟨?_, ?_, ?_⟩
    · intro kc hne hkJ hkY hheld
      exact chain_held hsame 12 kc hne hheld (chain_ends kc kc.mem_all hkJ hkY)
    · intro hheld
      obtain ⟨kc, hkc, -, hheld'⟩ := mixed_up_held hsame KeyCode.noConfusion hheld
      rw [hmixed.1, Option.some.injEq] at hkc
      rwa [hkc]
    · intro hheld
      obtain ⟨kc, hkc, -, hheld'⟩ := mixed_up_held hsame KeyCode.noConfusion hheld
      rw [hmixed.2, Option.some.injEq] at hkc
      rwa [hkc]
  · rintro ⟨hothers, hswapped⟩ c
    -- a held key with a code is one of the two, and then so is the other
    have hcases : ∀ kc, kc ≠ .Unknown → Held events kc →
        (kc = .J ∨ kc = .Y) ∧ Held events .J ∧ Held events .Y := by
      intro kc hne hheld
      by_cases hkJ : kc = .J
      · subst hkJ
        exact ⟨.inl rfl, hheld, hswapped.mp hheld⟩
      · by_cases hkY : kc = .Y
        · subst hkY
          exact ⟨.inr rfl, hswapped.mpr hheld, hheld⟩
        · exact absurd hheld (hothers kc hne hkJ hkY)
    constructor
    · rintro ⟨kc, hc, hheld⟩
      have hne : kc ≠ .Unknown := by
        rintro rfl
        cases (linux_code_eq_some.mp hc).1
      obtain ⟨rfl | rfl, hheldJ, hheldY⟩ := hcases kc hne hheld
      · rw [hlinux.1] at hc
        exact ⟨.Y, by rw [hwindows.2, hc], hheldY⟩
      · rw [hlinux.2] at hc
        exact ⟨.J, by rw [hwindows.1, hc], hheldJ⟩
    · rintro ⟨kc, hc, hheld⟩
      have hne : kc ≠ .Unknown := by
        rintro rfl
        cases hc
      obtain ⟨rfl | rfl, hheldJ, hheldY⟩ := hcases kc hne hheld
      · rw [hwindows.1] at hc
        exact ⟨.Y, by rw [hlinux.2, hc], hheldY⟩
      · rw [hwindows.2] at hc
        exact ⟨.J, by rw [hlinux.1, hc], hheldJ⟩

/-- **When the two backends agree.** After any keys, scrolls and relative moves
the devices are in the same state exactly when at most J and Y are still held,
both or none, and the scrolls cancel on each axis. -/
theorem backends_agree_iff (keybit : UInt16 → Bool) (virtual_w virtual_h : Int32)
    (events : List InputEvent) (hplain : ∀ e ∈ events, e.Plain)
    (hJ : keybit (evdev_code .J) = true) (hY : keybit (evdev_code .Y) = true) :
    linux_run keybit events = windows_run virtual_w virtual_h events ↔
      OnlySwappedHeld events ∧ ScrollsCancel events := by
  rw [linux_run_eq keybit events hplain, windows_run_eq virtual_w virtual_h events hplain,
    ← same_held_iff keybit events hJ hY, InputDevice.ext_iff]
  obtain ⟨hlv, hlh⟩ := InputDevice.travel_run (linux_code keybit) 120 .new events
  obtain ⟨hwv, hwh⟩ := InputDevice.travel_run windows_code 1 .new events
  have hmoved := InputDevice.moved_run (linux_code keybit) 120 windows_code 1 .new .new events
    ⟨rfl, rfl⟩
  have hheld : (events.foldl (InputDevice.after (linux_code keybit) 120) .new).held
      = (events.foldl (InputDevice.after windows_code 1) .new).held ↔
        ∀ c, (∃ kc, linux_code keybit kc = some c ∧ Held events kc) ↔
          ∃ kc, windows_code kc = some c ∧ Held events kc := by
    rw [Finset.ext_iff]
    apply forall_congr'
    intro c
    rw [← InputDevice.run_holds _ 120 (linux_code_inj keybit) events c,
      ← InputDevice.run_holds _ 1 windows_code_inj events c]
    simp only [InputDevice.holds, decide_eq_true_eq]
  rw [hheld, hlv, hlh, hwv, hwh]
  unfold ScrollsCancel
  -- keys and scrolling may differ; motion never does, and is no part of the condition
  constructor
  · rintro ⟨hkeys, hv, hh, -⟩
    exact ⟨hkeys, by omega, by omega⟩
  · rintro ⟨hkeys, hv, hh⟩
    rw [hv, hh]
    exact ⟨hkeys, rfl, rfl, hmoved.1, hmoved.2⟩

/-- The equivalence for J and Y held, and one notch up and one down. -/
theorem backends_agree_iff_swapped :
    let press (kc : KeyCode) : InputEvent := .Key ⟨kc, .Pressed, .empty, none⟩
    let events : List InputEvent :=
      [press .J, press .Y, .Mouse (.Scroll ⟨0, 1⟩), .Mouse (.Scroll ⟨0, -1⟩),
        .Mouse (.MoveRelative 3 4)]
    linux_run (fun _ => true) events = windows_run 1920 1080 events ↔
      OnlySwappedHeld events ∧ ScrollsCancel events := by
  intro press events
  refine backends_agree_iff (fun _ => true) 1920 1080 events ?_ rfl rfl
  simp [events, press, InputEvent.Plain]

/-- **A is minus on Linux**, and a notch is a hundred and twenty. -/
theorem backends_disagree :
    let a : InputEvent := .Key ⟨.A, .Pressed, .empty, none⟩
    let up : InputEvent := .Mouse (.Scroll ⟨0, 1⟩)
    linux_run (fun _ => true) [a, up] ≠ windows_run 1920 1080 [a, up] := by
  decide

end InputSync
