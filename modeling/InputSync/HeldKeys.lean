/-
All the keys the client's injector holds, over a whole run of `inbound_loop`
(`crates/daemon/src/session.rs` with the backends of `crates/platform`).

`StuckModifiers.lean` follows the modifiers. Here the other keys come in: a
`KeyInjector` is an `Injector` of which it is also known what it does to every
key it has, and that `release_all_modifiers` lets go of nothing else. A set of
keys is one, and so are both backends; what has to be checked of those is that
the codes they release are the modifiers' own.

What one message says about a key is `KeyInjector.message_word`, and the held
keys of a run are the last words about each (`held_run`). The three messages
that carry the state of the modifiers say nothing about any other key, so
`modifiers_exact` is read off from that.
-/
import InputSync.StuckModifiers

set_option autoImplicit false

namespace InputSync

/-! ## Injectors that keep the held keys

An interface again, and the two backends as instances of it. -/

/-- An injector with what it does to every key, `has` saying which keys it can
press. -/
structure KeyInjector extends Injector where
  has : KeyCode → Bool
  has_modifiers : ∀ kc ∈ modifier_keys, has kc = true
  inject_other : ∀ s event, ∀ kc ∉ modifier_keys, held (inject s event) kc
    = if has kc then (key_word kc event).getD (held s kc) else held s kc
  release_other : ∀ s, ∀ kc ∉ modifier_keys, held (release_all_modifiers s) kc = held s kc

/-- The set of held keys itself. -/
def key_set : KeyInjector where
  State := KeyCode → Bool
  inject s event kc := (key_word kc event).getD (s kc)
  release_all_modifiers s kc := if kc ∈ modifier_keys then false else s kc
  held s := s
  inject_held _ _ _ _ := rfl
  release_held _ _ hkc := if_pos hkc
  has _ := true
  has_modifiers _ _ := rfl
  inject_other _ _ _ _ := rfl
  release_other _ _ hkc := if_neg hkc

namespace LinuxInject

variable (keybit : UInt16 → Bool)

/-- A batch of releases touches no other code. -/
theorem releases_frame (codes : List UInt16) (dev : InputDevice) (c : UInt16) (hc : c ∉ codes) :
    ((codes.map (fun c => key_event_raw c 0)).foldl (InputDevice.handle_evdev keybit) dev).holds c
      = dev.holds c := by
  induction codes generalizing dev with
  | nil => rfl
  | cons code codes ih =>
      rw [List.mem_cons, not_or] at hc
      rw [List.map_cons, List.foldl_cons, ih _ hc.2, InputDevice.handle_key]
      split_ifs
      · rw [InputDevice.set_key_holds, if_neg (Ne.symm hc.1)]
      · rfl

/-- The codes released are those of the modifiers. -/
theorem released_code : ∀ c ∈ [evdev_code .LeftCtrl, evdev_code .RightCtrl,
    evdev_code .LeftShift, evdev_code .RightShift, evdev_code .LeftAlt, evdev_code .RightAlt,
    evdev_code .LeftSuper, evdev_code .RightSuper],
    ∃ kc ∈ modifier_keys, hid_to_evdev kc = some c := by
  simp only [List.forall_mem_cons, List.not_mem_nil, false_imp_iff, implies_true, and_true]
  decide

/-- `release_all_modifiers` lets go of no other key: two keys never share a code. -/
theorem release_frame (self : LinuxInject) {kc : KeyCode} {c : UInt16} (hkc : kc ∉ modifier_keys)
    (hcode : linux_code keybit kc = some c) :
    (self.release_all_modifiers keybit).dev.holds c = self.dev.holds c := by
  simp only [release_all_modifiers]
  rw [List.foldl_append, List.foldl_cons, List.foldl_nil, InputDevice.handle_syn]
  refine releases_frame keybit _ _ c fun hc => hkc ?_
  -- a code released is a modifier's, and no two keys share one
  obtain ⟨m, hm, hmc⟩ := released_code c hc
  have hmcode := linux_code_eq_some.mpr ⟨hmc, (linux_code_eq_some.mp hcode).2⟩
  rwa [linux_code_inj keybit kc m c hcode hmcode]

end LinuxInject

namespace WindowsInject

/-- The same for the releases of the other backend, -/
theorem releases_frame (vks : List UInt16) (self : WindowsInject) (c : UInt16)
    (hc : ∀ vk ∈ vks, standard_key vk ≠ some c) :
    (vks.foldl (fun inj vk => inj.key_vk vk false) self).dev.holds c = self.dev.holds c := by
  induction vks generalizing self with
  | nil => rfl
  | cons vk vks ih =>
      rw [List.forall_mem_cons] at hc
      rw [List.foldl_cons, ih _ hc.2, key_vk_dev]
      cases hcode : standard_key vk with
      | none => rfl
      | some code =>
          have hne : code ≠ c := fun h => hc.1 (h ▸ hcode)
          simp only [InputDevice.set_key_holds, if_neg hne]

/-- The virtual keys released are those of the modifiers. -/
theorem released_vk : ∀ vk ∈ [0xA0, 0xA1, 0xA2, 0xA3, 0xA4, 0xA5, 0x5B, (0x5C : UInt16)],
    ∃ kc ∈ modifier_keys, keycode_to_vk kc = some vk := by
  simp only [List.forall_mem_cons, List.not_mem_nil, false_imp_iff, implies_true, and_true]
  decide

/-- and for all eight of them. -/
theorem release_frame (self : WindowsInject) {kc : KeyCode} {c : UInt16}
    (hkc : kc ∉ modifier_keys) (hcode : windows_code kc = some c) :
    self.release_all_modifiers.dev.holds c = self.dev.holds c := by
  refine releases_frame _ self c fun vk hvk hc => hkc ?_
  obtain ⟨m, hm, hmvk⟩ := released_vk vk hvk
  have hmcode : windows_code m = some c := by rw [windows_code, hmvk, Option.bind_some, hc]
  rwa [windows_code_inj kc m c hcode hmcode]

end WindowsInject

/-- The Linux backend keeps the keys its device has. -/
def linux_keys (keybit : UInt16 → Bool)
    (hbits : ∀ kc ∈ modifier_keys, keybit (evdev_code kc) = true) : KeyInjector where
  State := LinuxInject
  inject := LinuxInject.inject keybit
  release_all_modifiers := LinuxInject.release_all_modifiers keybit
  held s kc := (linux_code keybit kc).any s.dev.holds
  inject_held s event kc hkc := by
    have hcode := linux_code_eq_some.mpr ⟨LinuxInject.modifier_code kc hkc, hbits kc hkc⟩
    rw [hcode]
    exact s.inject_code_holds keybit event hcode
  release_held s kc hkc := by
    rw [linux_code_eq_some.mpr ⟨LinuxInject.modifier_code kc hkc, hbits kc hkc⟩]
    exact s.release_holds keybit hkc (hbits kc hkc)
  has kc := (linux_code keybit kc).isSome
  has_modifiers kc hkc := by
    rw [linux_code_eq_some.mpr ⟨LinuxInject.modifier_code kc hkc, hbits kc hkc⟩]
    rfl
  inject_other s event kc _ := by
    -- a key without a code is never held
    cases hcode : linux_code keybit kc with
    | none => rfl
    | some c => exact s.inject_code_holds keybit event hcode
  release_other s kc hkc := by
    cases hcode : linux_code keybit kc with
    | none => rfl
    | some c => exact s.release_frame keybit hkc hcode

/-- So does the Windows backend. -/
def windows_keys : KeyInjector where
  toInjector := windows_injector
  has kc := (windows_code kc).isSome
  has_modifiers kc hkc := by
    obtain ⟨vk, -, hvk, hsome⟩ := WindowsInject.modifier_released kc hkc
    rw [windows_code, hvk]
    exact hsome
  inject_other s event kc _ := by
    cases hcode : windows_code kc with
    | none => simp [windows_injector, hcode]
    | some c =>
        simp only [windows_injector, hcode, Option.any_some, Option.isSome_some, if_true]
        exact s.inject_holds event hcode
  release_other s kc hkc := by
    cases hcode : windows_code kc with
    | none => simp [windows_injector, hcode]
    | some c =>
        simp only [windows_injector, hcode, Option.any_some]
        exact s.release_frame hkc hcode

/-! ## What a message says about a key

The words of `StuckModifiers`, for all keys. -/

namespace KeyInjector

variable (inj : KeyInjector)

/-- What a call of the inbound loop says about a key. -/
def effect_word (kc : KeyCode) : Effect → Option Bool
  | .inject _ event => if inj.has kc then key_word kc event else none
  | .release_all_modifiers _ => if kc ∈ modifier_keys then some false else none
  | _ => none

/-- What a key event says about a key the injector has. -/
def key_message (kc : KeyCode) : Message → Option Bool
  | .KeyEvent k => if inj.has kc then key_word kc (.Key k) else none
  | _ => none

/-- What a message says: of a modifier, what it leaves it as; of any other key,
only what its own key events say. -/
def message_word (kc : KeyCode) (msg : Message) : Option Bool :=
  if kc ∈ modifier_keys then InputSync.message_word kc msg else inj.key_message kc msg

/-- The injector after `inbound_loop` has worked off the messages. -/
def after (start : inj.State) (msgs : List Message) : inj.State :=
  (inbound_loop true msgs).foldl (Effect.run inj.toInjector) start

/-- What a call of the inbound loop does to any key the injector has. -/
theorem effect_held (kc : KeyCode) (s : inj.State) (effect : Effect) :
    inj.held (effect.run inj.toInjector s) kc
      = (inj.effect_word kc effect).getD (inj.held s kc) := by
  by_cases hkc : kc ∈ modifier_keys
  · rw [InputSync.effect_held inj.toInjector hkc s effect]
    cases effect with
    | inject site event => rw [effect_word, if_pos (inj.has_modifiers kc hkc)]; rfl
    | release_all_modifiers site => rw [effect_word, if_pos hkc]; rfl
    | send msg | clipboard msg | file_offer offer | file_chunk chunk => rfl
  · cases effect with
    | inject site event =>
        rw [Effect.run, inj.inject_other s event kc hkc, effect_word]
        split_ifs <;> rfl
    | release_all_modifiers site =>
        -- of such a key the release says nothing
        rw [Effect.run, inj.release_other s kc hkc, effect_word, if_neg hkc]
        rfl
    | send msg | clipboard msg | file_offer offer | file_chunk chunk => rfl

/-- The last call of a message about a key says what the message says. -/
theorem message_last_word (kc : KeyCode) (msg : Message) :
    last_word (inj.effect_word kc) (inbound_step true msg) = inj.message_word kc msg := by
  by_cases hkc : kc ∈ modifier_keys
  · -- of a modifier the calls say what they say to any injector
    have hword : inj.effect_word kc = InputSync.effect_word kc := by
      funext effect
      cases effect with
      | inject site event => exact if_pos (inj.has_modifiers kc hkc)
      | release_all_modifiers site => exact if_pos hkc
      | send msg | clipboard msg | file_offer offer | file_chunk chunk => rfl
    rw [hword, InputSync.message_last_word hkc, message_word, if_pos hkc]
  · -- the presses of a resync are of modifiers
    have hresync : ∀ target, ∀ effect ∈ resync_modifiers target,
        inj.effect_word kc effect = none := by
      intro target effect heffect
      rcases List.mem_cons.mp heffect with rfl | heffect
      · exact if_neg hkc
      · obtain ⟨m, hm, rfl⟩ := List.mem_map.mp heffect
        have hleft : m.2 ∈ modifier_keys := by
          have hmem := (List.mem_filter.mp hm).1
          simp only [List.mem_cons, List.not_mem_nil, or_false] at hmem
          rcases hmem with rfl | rfl | rfl | rfl <;> decide
        have hne : m.2 ≠ kc := fun h => hkc (h ▸ hleft)
        simp [effect_word, key_word, hne]
    rw [message_word, if_neg hkc]
    cases msg with
    -- its own key event is the one message that speaks of such a key
    | KeyEvent k =>
        simp only [inbound_step, if_true, last_word, List.foldl_cons, List.foldl_nil, effect_word,
          key_message, Option.or_none]
    | ScreenEnter x y m =>
        refine (last_word_eq_none_iff _ _).mpr fun effect heffect => ?_
        rcases List.mem_cons.mp heffect with rfl | heffect
        · exact ite_self _
        · exact hresync m effect heffect
    | ModifierSync m => exact (last_word_eq_none_iff _ _).mpr (hresync m)
    | ScreenLeave s =>
        refine (last_word_eq_none_iff _ _).mpr fun effect heffect => ?_
        rw [List.mem_singleton.mp heffect]
        exact if_neg hkc
    | MouseMove x y | MouseMoveRelative dx dy | MouseButton e | MouseScroll e =>
        refine (last_word_eq_none_iff _ _).mpr fun effect heffect => ?_
        rw [List.mem_singleton.mp heffect]
        exact ite_self _
    | _ => rfl

/-- **The keys a run leaves held.** Each is as the last message about it says. -/
theorem held_run (kc : KeyCode) (start : inj.State) (msgs : List Message) :
    inj.held (inj.after start msgs) kc
      = (last_word (inj.message_word kc) msgs).getD (inj.held start kc) := by
  rw [after, inbound_loop, List.foldl_flatMap]
  refine foldl_last_word (inj.message_word kc)
    (fun s msg => (inbound_step true msg).foldl (Effect.run inj.toInjector) s)
    (fun s => inj.held s kc) (fun s msg => ?_) start msgs
  rw [← inj.message_last_word kc msg]
  exact foldl_last_word (inj.effect_word kc) (Effect.run inj.toInjector)
    (fun s => inj.held s kc) (inj.effect_held kc) s (inbound_step true msg)

end KeyInjector

/-! ## Resynchronisation

The three messages that carry modifiers, against everything that was held before. -/

/-- The message carries the state `m` of the modifiers. -/
def Message.Carries : Message → ModifierState → Prop
  | .ScreenEnter _ _ modifiers, m | .ModifierSync modifiers, m => modifiers = m
  | _, _ => False

/-- One of the three messages that set all modifiers. -/
def Message.Resyncs : Message → Prop
  | .ScreenEnter .. | .ModifierSync _ | .ScreenLeave _ => True
  | _ => False

namespace KeyInjector

variable (inj : KeyInjector)

/-- What is to hold of the held keys after the messages `pre` and what comes
next. -/
structure Exact (start : inj.State) (pre : List Message) : Prop where
  carried : ∀ msg m, msg.Carries m → ∀ kc ∈ modifier_keys,
    inj.held (inj.after start (pre ++ [msg])) kc = resync_word m kc
  released : ∀ screen, ∀ kc ∈ modifier_keys,
    inj.held (inj.after start (pre ++ [.ScreenLeave screen])) kc = false
  others : ∀ msg, msg.Resyncs → ∀ kc ∉ modifier_keys,
    inj.held (inj.after start (pre ++ [msg])) kc = inj.held (inj.after start pre) kc
  between : ∀ rest, (∀ msg ∈ rest, ¬ msg.Resyncs) → ∀ kc,
    inj.held (inj.after start (pre ++ rest)) kc
      = (last_word (inj.key_message kc) rest).getD (inj.held (inj.after start pre) kc)

/-- One more message. -/
theorem held_concat (kc : KeyCode) (start : inj.State) (pre : List Message) (msg : Message) :
    inj.held (inj.after start (pre ++ [msg])) kc
      = (inj.message_word kc msg).getD (inj.held (inj.after start pre) kc) := by
  rw [held_run, held_run, last_word_concat]
  cases inj.message_word kc msg <;> rfl

/-- Of a message that is no resync, only its key event is said. -/
theorem message_word_between (kc : KeyCode) {msg : Message} (h : ¬ msg.Resyncs) :
    inj.message_word kc msg = inj.key_message kc msg := by
  rw [message_word]
  split_ifs with hkc
  · cases msg with
    | KeyEvent k => exact (if_pos (inj.has_modifiers kc hkc)).symm
    | ScreenEnter x y m | ModifierSync m | ScreenLeave s => exact absurd trivial h
    | _ => rfl
  · cases msg <;> rfl

/-- **Modifier resynchronisation is exact.** After any messages at all. -/
theorem modifiers_exact (start : inj.State) (pre : List Message) : inj.Exact start pre where
  carried msg m hmsg kc hkc := by
    rw [held_concat, message_word, if_pos hkc]
    cases msg with
    | ScreenEnter x y modifiers | ModifierSync modifiers =>
        obtain rfl : modifiers = m := hmsg
        rfl
    | _ => exact hmsg.elim
  released screen kc hkc := by
    rw [held_concat, message_word, if_pos hkc]
    rfl
  others msg hmsg kc hkc := by
    rw [held_concat, message_word, if_neg hkc]
    cases msg with
    | ScreenEnter x y m | ModifierSync m | ScreenLeave s => rfl
    | _ => exact hmsg.elim
  between rest hrest kc := by
    -- the induction is on the messages since the last resync
    induction rest using List.reverseRecOn with
    | nil => rw [List.append_nil]; rfl
    | append_singleton rest msg ih =>
        rw [List.forall_mem_append, List.forall_mem_singleton] at hrest
        rw [← List.append_assoc, held_concat, inj.message_word_between kc hrest.2, ih hrest.1,
          last_word_concat]
        cases inj.key_message kc msg <;> rfl

end KeyInjector

end InputSync
