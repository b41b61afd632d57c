/-
The modifier snapshot of the Windows capture (`update_modifiers` in
`crates/platform/src/windows/capture.rs`) against the keys of the keyboard.

The drain thread keeps one flag for each class of modifier keys and not which
keys of the class are down. A press of either key sets the flag and a release
of either takes it back. Both keys can be down at once, so the flag is right
only as long as the last release of the class was that of its only held key,
and this file shows that it is right exactly then.

The keyboard here is the physical one. It says which sequences of events are
possible at all: a key that is down may go down again, because it repeats, and
only a key that is down goes up.
-/
import InputSync.Capture
import InputSync.Session
import InputSync.Trace

set_option autoImplicit false

namespace InputSync

/-! ## The keyboard

Which keys are down, and which events are possible then. -/

/-- Which keys are down. -/
structure Keyboard where
  down : UInt32 → Bool

namespace Keyboard

/-- No key is down. -/
def released : Keyboard := ⟨fun _ => false⟩

/-- One event. A mouse event leaves the keys as they are. -/
def step (self : Keyboard) (raw : RawEvent) : Option Keyboard :=
  match raw.key with
  | some (vk, true) => some ⟨Function.update self.down vk true⟩
  | some (vk, false) =>
    if self.down vk then some ⟨Function.update self.down vk false⟩ else none
  | none => some self

variable {self next : Keyboard} {raw : RawEvent}

/-- A key event sets its own key and no other. -/
theorem step_key {vk : UInt32} {down : Bool} (h : self.step raw = some next)
    (hkey : raw.key = some (vk, down)) (other : UInt32) :
    next.down other = if other = vk then down else self.down other := by
  unfold step at h
  cases down with
  | true =>
      simp only [hkey, Option.some.injEq] at h
      subst h
      exact Function.update_apply self.down vk true other
  | false =>
      simp only [hkey] at h
      split_ifs at h
      cases h
      exact Function.update_apply self.down vk false other

/-- A mouse event sets none. -/
theorem step_mouse (h : self.step raw = some next) (hkey : raw.key = none) : next = self := by
  simp only [step, hkey, Option.some.injEq] at h
  exact h.symm

end Keyboard

/-! ## The classes

Ctrl, Alt, Shift and Super, each with its two keys and the undirected code some systems
report. -/

/-- The four kinds of modifier key a keyboard has two of. -/
inductive ModifierClass
  | Shift | Ctrl | Alt | Super
deriving DecidableEq

namespace ModifierClass

/-- The flag of a class. -/
def flag : ModifierClass → ModifierState
  | .Shift => .SHIFT
  | .Ctrl => .CTRL
  | .Alt => .ALT
  | .Super => .SUPER

/-- The left key, the right key, and the virtual key that stands for one of
them where the system does not say which. -/
def keys : ModifierClass → List UInt16
  | .Shift => [0xA0, 0xA1, 0x10]
  | .Ctrl => [0xA2, 0xA3, 0x11]
  | .Alt => [0xA4, 0xA5, 0x12]
  | .Super => [0x5B, 0x5C]

/-- The key is one of the class. -/
def Has (self : ModifierClass) (vk : UInt32) : Prop := vk.toUInt16 ∈ self.keys

instance (self : ModifierClass) (vk : UInt32) : Decidable (self.Has vk) :=
  inferInstanceAs (Decidable (vk.toUInt16 ∈ self.keys))

/-- What a raw event says about the class: a key of it went down, or up. -/
def word (self : ModifierClass) (raw : RawEvent) : Option Bool :=
  raw.key.bind (fun k => if self.Has k.1 then some k.2 else none)

variable (self : ModifierClass)

/-- An event has a word about a class when it is about one of its keys. -/
theorem word_eq_some_iff (raw : RawEvent) (down : Bool) :
    self.word raw = some down ↔ ∃ vk, raw.key = some (vk, down) ∧ self.Has vk := by
  unfold word
  cases hkey : raw.key with
  | none => simp
  | some k =>
      obtain ⟨vk, d⟩ := k
      by_cases hvk : self.Has vk <;> simp [hvk]

/-- The flag of a class is a bit. -/
theorem flag_ne_zero : self.flag.bits ≠ 0 := by
  cases self <;> decide

/-! ## What one event does to the flag of a class

`update_modifiers` seen through one flag. The bit arithmetic ends here. -/

/-- Every key of a class has the flag of the class, left and right alike. That the flag
cannot tell them apart is where the trouble starts. -/
theorem modifier_flag_of_mem : ∀ vk ∈ self.keys, modifier_flag vk = some self.flag := by
  cases self <;>
    simp only [keys, List.forall_mem_cons, List.not_mem_nil, false_imp_iff, implies_true,
      and_true] <;>
    decide

/-- Only the keys of the classes and the two locks have a flag. -/
theorem modifier_flag_cases {vk : UInt16} {mods : ModifierState}
    (h : modifier_flag vk = some mods) :
    (∃ c : ModifierClass, vk ∈ c.keys ∧ mods = c.flag) ∨ mods = .CAPS_LOCK ∨ mods = .NUM_LOCK := by
  unfold modifier_flag at h
  split_ifs at h with hshift hctrl halt hsuper <;> cases h
  · exact .inl ⟨.Shift, hshift, rfl⟩
  · exact .inl ⟨.Ctrl, hctrl, rfl⟩
  · exact .inl ⟨.Alt, halt, rfl⟩
  · exact .inl ⟨.Super, hsuper, rfl⟩
  · exact .inr (.inl rfl)
  · exact .inr (.inr rfl)

/-- Two classes share no bit, so each can be looked at by itself. -/
theorem flag_disjoint {c : ModifierClass} (h : c ≠ self) :
    c.flag.bits &&& self.flag.bits = 0 := by
  cases c <;> cases self <;> first | exact absurd rfl h | decide

/-- The flag of any other key shares no bit with that of the class. -/
theorem modifier_flag_disjoint {vk : UInt16} {mods : ModifierState} (h : vk ∉ self.keys)
    (hflag : modifier_flag vk = some mods) : mods.bits &&& self.flag.bits = 0 := by
  obtain ⟨c, hvk, rfl⟩ | rfl | rfl := modifier_flag_cases hflag
  · refine self.flag_disjoint ?_
    rintro rfl
    exact h hvk
  · cases self <;> decide
  · cases self <;> decide

/-- `update_modifiers` on one flag: a key of the class sets it or takes it
back, whichever key it is; any other key leaves it. -/
theorem update_modifiers_contains (mods : ModifierState) (vk : UInt32) (down : Bool) :
    (update_modifiers mods vk down).contains self.flag
      = if self.Has vk then down else mods.contains self.flag := by
  unfold update_modifiers
  by_cases hvk : self.Has vk
  · rw [self.modifier_flag_of_mem _ hvk, if_pos hvk]
    cases down with
    | true => exact mods.contains_insert_self
    | false => exact mods.contains_remove_self self.flag_ne_zero
  · rw [if_neg hvk]
    cases hflag : modifier_flag vk.toUInt16 with
    | none => rfl
    | some other =>
        have hdisjoint := self.modifier_flag_disjoint hvk hflag
        cases down with
        | true => exact mods.contains_insert_of_disjoint hdisjoint
        | false => exact mods.contains_remove_of_disjoint hdisjoint

/-- What noting a raw event does to the flag: the event's word about the class, if it
has one. -/
theorem note_contains (mods : ModifierState) (raw : RawEvent) :
    (raw.note mods).contains self.flag = (self.word raw).getD (mods.contains self.flag) := by
  unfold RawEvent.note word
  cases raw.key with
  | none => rfl
  | some k =>
      simp only [Option.bind_some]
      rw [self.update_modifiers_contains]
      split_ifs <;> rfl

/-- The flag is what the last event about the class says. -/
theorem snapshot_contains (raws : List RawEvent) :
    (raws.foldl RawEvent.note .empty).contains self.flag
      = (last_word self.word raws).getD false := by
  have hempty : ModifierState.empty.contains self.flag = false := by
    cases self <;> rfl
  rw [← hempty]
  exact foldl_last_word self.word RawEvent.note (fun mods => mods.contains self.flag)
    self.note_contains .empty raws

/-! ## What a sequence of events leaves down

Flag and keyboard are both determined by the last event about the class, the flag by its
kind and the keyboard by its kind and what was down before. -/

variable {self} {before keys : Keyboard} {raw : RawEvent} {post : List RawEvent}

/-- Events that say nothing about the class leave its keys as they are. -/
theorem down_of_quiet {vk : UInt32} (hvk : self.Has vk) (hpost : ∀ e ∈ post, self.word e = none)
    (h : exec Keyboard.step before post = some keys) : keys.down vk = before.down vk := by
  refine exec_invariant Keyboard.step (fun k => k.down vk = before.down vk) before keys post rfl ?_ h
  intro m n e he hm hstep
  cases hkey : e.key with
  | none => rw [Keyboard.step_mouse hstep hkey, hm]
  | some k =>
      obtain ⟨vk', down⟩ := k
      have hne : vk ≠ vk' := by
        rintro rfl
        have hword := (self.word_eq_some_iff e down).mpr ⟨vk, hkey, hvk⟩
        rw [hpost e he] at hword
        cases hword
      rw [Keyboard.step_key hstep hkey, if_neg hne, hm]

/-- The last event about the class decides about its own key and about no
other. -/
theorem down_after_last {vk : UInt32} {down : Bool} (hkey : raw.key = some (vk, down))
    (hpost : ∀ e ∈ post, self.word e = none)
    (h : exec Keyboard.step before (raw :: post) = some keys) {other : UInt32}
    (hother : self.Has other) :
    keys.down other = if other = vk then down else before.down other := by
  obtain ⟨next, hstep, hrest⟩ := Option.bind_eq_some_iff.mp h
  rw [down_of_quiet hother hpost hrest, Keyboard.step_key hstep hkey]

/-- A key of the class is down. -/
def Held (self : ModifierClass) (keys : Keyboard) : Prop :=
  ∃ vk, self.Has vk ∧ keys.down vk = true

/-- No key of the class is down but perhaps `vk`. -/
def OnlyHeld (self : ModifierClass) (keys : Keyboard) (vk : UInt32) : Prop :=
  ∀ other, self.Has other → keys.down other = true → other = vk

/-- A release is the last event about the class: it leaves no key of it down
exactly when its own was the only one. -/
theorem not_held_iff {vk : UInt32} (hkey : raw.key = some (vk, false))
    (hpost : ∀ e ∈ post, self.word e = none)
    (h : exec Keyboard.step before (raw :: post) = some keys) :
    ¬ self.Held keys ↔ self.OnlyHeld before vk := by
  unfold Held OnlyHeld
  rw [not_exists]
  refine forall_congr' fun other => ?_
  rw [not_and]
  refine forall_congr' fun hother => ?_
  rw [down_after_last hkey hpost h hother]
  by_cases hvk : other = vk <;> simp [hvk]

/-- If the last event about the class is a release, its key is the only one of
the class that is down before it. -/
def LastReleaseAlone (self : ModifierClass) (raws : List RawEvent) : Prop :=
  ∀ pre raw post before vk, raws = pre ++ raw :: post →
    raw.key = some (vk, false) → self.Has vk → (∀ e ∈ post, self.word e = none) →
    exec Keyboard.step .released pre = some before → self.OnlyHeld before vk

/-- Where the last word is not a release there is nothing to check. -/
theorem lastReleaseAlone_of_ne {raws : List RawEvent}
    (h : last_word self.word raws ≠ some false) : self.LastReleaseAlone raws := by
  intro pre raw post before vk hsplit hkey hvk hpost
  have hword := (self.word_eq_some_iff raw false).mpr ⟨vk, hkey, hvk⟩
  exact absurd ((last_word_eq_some_iff self.word raws false).mpr
    ⟨pre, raw, post, hsplit, hword, hpost⟩) h

/-- **One flag.** By cases on the last event about the class. -/
theorem flag_held_iff {raws : List RawEvent}
    (h : exec Keyboard.step .released raws = some keys) :
    ((raws.foldl RawEvent.note .empty).contains self.flag = true ↔ self.Held keys) ↔
      self.LastReleaseAlone raws := by
  rw [snapshot_contains]
  cases hlast : last_word self.word raws with
  | none =>
      have hquiet := (last_word_eq_none_iff self.word raws).mp hlast
      refine iff_of_true (iff_of_false Bool.false_ne_true ?_)
        (lastReleaseAlone_of_ne (by simp [hlast]))
      rintro ⟨vk, hvk, hdown⟩
      rw [down_of_quiet hvk hquiet h] at hdown
      cases hdown
  | some down =>
      obtain ⟨pre, raw, post, hsplit, hword, hpost⟩ :=
        (last_word_eq_some_iff self.word raws down).mp hlast
      obtain ⟨vk, hkey, hvk⟩ := (self.word_eq_some_iff raw down).mp hword
      have hrun := h
      rw [hsplit] at hrun
      obtain ⟨before, hbefore, hrest⟩ := exec_append_eq_some Keyboard.step _ _ _ _ hrun
      cases down with
      | true =>
          -- the flag is set and the key it was set for is still down
          refine iff_of_true (iff_of_true rfl ⟨vk, hvk, ?_⟩)
            (lastReleaseAlone_of_ne (by simp [hlast]))
          rw [down_after_last hkey hpost hrest hvk, if_pos rfl]
      | false =>
          -- the flag is clear, and right as far as no key of the class is down
          rw [Option.getD_some]
          constructor
          · intro hflag pre' raw' post' before' vk' hsplit' hkey' hvk' hpost' hbefore'
            rw [hsplit', exec_append, hbefore'] at h
            exact (not_held_iff hkey' hpost' h).mp (fun hheld =>
              Bool.false_ne_true (hflag.mpr hheld))
          · intro halone
            have honly := halone pre raw post before vk hsplit hkey hvk hpost hbefore
            exact iff_of_false Bool.false_ne_true ((not_held_iff hkey hpost hrest).mpr honly)

end ModifierClass

/-! ## The snapshot

Four flags, one condition for each. -/

/-- Each flag is set exactly when a key of its class is down. -/
def Reflects (mods : ModifierState) (keys : Keyboard) : Prop :=
  ∀ c : ModifierClass, mods.contains c.flag = true ↔ c.Held keys

/-- **The snapshot and the keyboard.** After a sequence of events that the
keyboard can produce, the four flags are right exactly when for each class the
last event about it is a press, or the release of its only key that was down. -/
theorem snapshot_reflects_iff (raws : List RawEvent) (keys : Keyboard)
    (hpossible : exec Keyboard.step .released raws = some keys) :
    Reflects (raws.foldl RawEvent.note .empty) keys ↔
      ∀ c : ModifierClass, c.LastReleaseAlone raws :=
  forall_congr' fun _ => ModifierClass.flag_held_iff hpossible

/-- The equivalence for both Shift keys pressed one after the other, the left
one repeating, and then released. -/
theorem snapshot_reflects_iff_both_shifts :
    let raws : List RawEvent := [.KeyDown 0xA0 0x2A, .KeyDown 0xA0 0x2A, .KeyDown 0xA1 0x36,
      .KeyUp 0xA0 0x2A, .KeyUp 0xA1 0x36]
    ∃ keys, exec Keyboard.step .released raws = some keys ∧
      (Reflects (raws.foldl RawEvent.note .empty) keys ↔
        ∀ c : ModifierClass, c.LastReleaseAlone raws) :=
  ⟨_, rfl, snapshot_reflects_iff _ _ rfl⟩

/-- **A Shift key that is forgotten.** The left key goes up while the right
one is down, and `SHIFT` goes with it. -/
theorem right_shift_forgotten :
    let raws : List RawEvent :=
      [.KeyDown 0xA0 0x2A, .KeyDown 0xA1 0x36, .KeyUp 0xA0 0x2A]
    ∃ keys, exec Keyboard.step .released raws = some keys ∧ keys.down 0xA1 = true ∧
      (raws.foldl RawEvent.note .empty).contains .SHIFT = false ∧
      ¬ Reflects (raws.foldl RawEvent.note .empty) keys := by
  refine ⟨_, rfl, rfl, rfl, fun hreflects => ?_⟩
  have hset := (hreflects .Shift).mpr ⟨0xA1, by decide, rfl⟩
  exact absurd hset (by decide)

/-- **Right throughout.** The flags are right after every event of a sequence
exactly when each release of a modifier key finds no other key of its class
down. -/
theorem reflects_throughout_iff (raws : List RawEvent) (keys : Keyboard)
    (hpossible : exec Keyboard.step .released raws = some keys) :
    (∀ pre post before, raws = pre ++ post → exec Keyboard.step .released pre = some before →
        Reflects (pre.foldl RawEvent.note .empty) before) ↔
      ∀ pre raw post before, raws = pre ++ raw :: post →
        exec Keyboard.step .released pre = some before →
        ∀ (c : ModifierClass) (vk : UInt32), raw.key = some (vk, false) → c.Has vk →
          c.OnlyHeld before vk := by
  constructor
  · intro hright pre raw post before hsplit hbefore c vk hkey hvk
    rw [← List.singleton_append, ← List.append_assoc] at hsplit
    rw [hsplit] at hpossible
    obtain ⟨next, hnext, -⟩ := exec_append_eq_some Keyboard.step _ _ _ _ hpossible
    have halone := (ModifierClass.flag_held_iff hnext).mp (hright _ post next hsplit hnext c)
    exact halone pre raw [] before vk rfl hkey hvk (by rintro _ ⟨⟩) hbefore
  · intro hguard pre post before hsplit hbefore c
    refine (ModifierClass.flag_held_iff hbefore).mpr ?_
    intro pre' raw post' before' vk hsplit' hkey hvk _ hbefore'
    refine hguard pre' raw (post' ++ post) before' ?_ hbefore' c vk hkey hvk
    rw [hsplit, hsplit', List.append_assoc, List.cons_append]

/-! ## The emergency chord

The use the code makes of the snapshot. -/

/-- An Escape that the drain thread hands over is the emergency chord exactly
when a Ctrl, an Alt and a Shift key are down, as long as the flags are right. -/
theorem escape_emergency_iff (raws : List RawEvent) (keys : Keyboard)
    (hright : Reflects (raws.foldl RawEvent.note .empty) keys) (capturing : Bool) (scan : UInt32)
    (event : InputEvent)
    (h : (drain_raw (raws.foldl RawEvent.note .empty) capturing (.KeyDown VK_ESCAPE scan)).2
      = some event) :
    is_emergency event = true ↔
      (ModifierClass.Ctrl.Held keys ∧ ModifierClass.Alt.Held keys) ∧
        ModifierClass.Shift.Held keys := by
  have hescape : (RawEvent.KeyDown VK_ESCAPE scan).note (raws.foldl RawEvent.note .empty)
      = raws.foldl RawEvent.note .empty := rfl
  rw [drain_raw_event _ _ _ _ h, hescape, ← hright .Ctrl, ← hright .Alt, ← hright .Shift]
  have hcode : vk_to_keycode VK_ESCAPE.toUInt16 = .Escape := by decide
  simp only [is_emergency, RawEvent.to_input, hcode, beq_self_eq_true, Bool.true_and,
    Bool.and_eq_true, ModifierClass.flag]

end InputSync
