/-
Modifier keys on the client when a connection ends.

What presses a modifier on the client is a message, and what releases it is a
later message: a key event, a `ScreenLeave`, or a `ScreenEnter` or
`ModifierSync`, which release all eight and press again what they name. When
the connection ends, `inbound_loop` works off its queue and returns, and
`handle_peer_events_client` forgets the peer. Neither touches the injector, so
a modifier is up in the end exactly when some message took the press back.

An `Injector` is either backend, as far as modifiers go.
-/
import InputSync.InjectAgree
import InputSync.Supervisor

set_option autoImplicit false

namespace InputSync

/-! ## The two injectors

What the results need of a backend is an interface of three facts about the modifiers it
holds. Both backends meet it. -/

/-- Ctrl, Shift, Alt and Super, left and right. -/
def modifier_keys : List KeyCode :=
  [.LeftCtrl, .LeftShift, .LeftAlt, .LeftSuper, .RightCtrl, .RightShift, .RightAlt, .RightSuper]

/-- An injector, and which modifiers it holds down. -/
structure Injector where
  State : Type
  inject : State → InputEvent → State
  release_all_modifiers : State → State
  held : State → KeyCode → Bool
  inject_held : ∀ s event, ∀ kc ∈ modifier_keys,
    held (inject s event) kc = (key_word kc event).getD (held s kc)
  release_held : ∀ s, ∀ kc ∈ modifier_keys, held (release_all_modifiers s) kc = false

namespace InputDevice

/-- Motion holds no key, -/
@[simp] theorem move_holds (self : InputDevice) (dx dy : Int) (c : UInt16) :
    (self.move dx dy).holds c = self.holds c := rfl

/-- and neither do the wheels. -/
@[simp] theorem turn_holds (self : InputDevice) (v h : Int) (c : UInt16) :
    (self.turn v h).holds c = self.holds c := rfl

/-- Mouse input holds no key. -/
theorem handle_mouse_holds (self : InputDevice) (dx dy : Int32) (data flags : UInt32)
    (c : UInt16) : (self.handle_input (.mouse dx dy data flags)).holds c = self.holds c := by
  simp only [handle_input]
  split_ifs <;> rfl

end InputDevice

namespace LinuxInject

/-- The code of a button is that of no key. -/
theorem button_no_key {button : Button} {code : UInt16} (hb : button_to_evdev button = some code)
    {kc : KeyCode} : hid_to_evdev kc ≠ some code := by
  have hkeys : ∀ kc ∈ KeyCode.all, (hid_to_evdev kc).all
      (fun c => c ∉ [BTN_LEFT, BTN_RIGHT, BTN_MIDDLE, BTN_BACK, BTN_FORWARD]) := by
    decide +kernel
  intro hkc
  have hnot := hkeys kc kc.mem_all
  rw [hkc, Option.all_some, decide_eq_true_iff] at hnot
  apply hnot
  cases button with
  | Other id => cases hb
  | Left | Right | Middle | Back | Forward =>
      rw [← Option.some.inj hb]
      decide

variable (keybit : UInt16 → Bool) (self : LinuxInject)

/-- The code of a key is held as the events of the key say. -/
theorem inject_code_holds (event : InputEvent) {kc : KeyCode} {c : UInt16}
    (hcode : linux_code keybit kc = some c) :
    (self.inject keybit event).dev.holds c = (key_word kc event).getD (self.dev.holds c) := by
  match event with
  | .Key k =>
      rw [self.inject_dev keybit (.Key k) trivial]
      exact self.dev.after_key_word _ _ _ hcode (linux_code_inj keybit)
  | .Mouse (.Scroll delta) =>
      rw [self.inject_dev keybit (.Mouse (.Scroll delta)) trivial]
      rfl
  | .Mouse (.MoveRelative dx dy) =>
      rw [self.inject_dev keybit (.Mouse (.MoveRelative dx dy)) trivial]
      rfl
  | .Mouse (.Move x y) =>
      simp only [inject]
      split_ifs
      · simp [write_batch, InputDevice.handle_rel, key_word]
      · rfl
  | .Mouse (.Button button state) =>
      -- the codes of buttons are no keys
      have hbutton : ∀ code, button_to_evdev button = some code → code ≠ c := by
        rintro code hb rfl
        exact button_no_key hb (linux_code_eq_some.mp hcode).1
      simp only [inject]
      cases hb : button_to_evdev button with
      | none => rfl
      | some code =>
          simp only [write_batch, List.singleton_append, List.foldl_cons, List.foldl_nil,
            InputDevice.handle_key, InputDevice.handle_syn]
          split_ifs
          · rw [InputDevice.set_key_holds, if_neg (hbutton code hb)]
            rfl
          · rfl
  | .ScreenEnter .. | .ScreenLeave _ | .ModifierSync _ => rfl

/-- Each modifier has a code of its own, the one `release_all_modifiers` releases. -/
theorem modifier_code : ∀ kc ∈ modifier_keys, hid_to_evdev kc = some (evdev_code kc) := by decide

/-- A modifier is held as the events about it say, if the device has it. -/
theorem inject_holds (event : InputEvent) {kc : KeyCode} (hkc : kc ∈ modifier_keys)
    (hbit : keybit (evdev_code kc) = true) :
    (self.inject keybit event).dev.holds (evdev_code kc)
      = (key_word kc event).getD (self.dev.holds (evdev_code kc)) :=
  self.inject_code_holds keybit event (linux_code_eq_some.mpr ⟨modifier_code kc hkc, hbit⟩)

/-- A batch of releases. -/
theorem releases_holds (codes : List UInt16) (dev : InputDevice) (c : UInt16)
    (hbit : keybit c = true) (hc : c ∈ codes ∨ dev.holds c = false) :
    ((codes.map (fun c => key_event_raw c 0)).foldl (InputDevice.handle_evdev keybit) dev).holds c
      = false := by
  -- code by code: once `c` has been released no later release presses it
  induction codes generalizing dev with
  | nil =>
      rcases hc with hc | hc
      · cases hc
      · exact hc
  | cons code codes ih =>
      rw [List.map_cons, List.foldl_cons]
      apply ih
      rw [InputDevice.handle_key]
      by_cases hcode : code = c
      · subst hcode
        right
        rw [if_pos hbit, InputDevice.set_key_holds, if_pos rfl]
        rfl
      · rcases hc with hc | hc
        · left
          exact (List.mem_cons.mp hc).resolve_left (Ne.symm hcode)
        · right
          split_ifs
          · rw [InputDevice.set_key_holds, if_neg hcode, hc]
          · exact hc

/-- `release_all_modifiers` releases all eight, whatever was held. -/
theorem release_holds {kc : KeyCode} (hkc : kc ∈ modifier_keys)
    (hbit : keybit (evdev_code kc) = true) :
    (self.release_all_modifiers keybit).dev.holds (evdev_code kc) = false := by
  simp only [release_all_modifiers]
  rw [List.foldl_append, List.foldl_cons, List.foldl_nil, InputDevice.handle_syn]
  have hall : ∀ kc ∈ modifier_keys, evdev_code kc ∈ [evdev_code .LeftCtrl, evdev_code .RightCtrl,
      evdev_code .LeftShift, evdev_code .RightShift, evdev_code .LeftAlt, evdev_code .RightAlt,
      evdev_code .LeftSuper, evdev_code .RightSuper] := by
    decide
  exact releases_holds keybit _ _ _ hbit (.inl (hall kc hkc))

end LinuxInject

namespace WindowsInject

variable (self : WindowsInject)

/-- The same on the other backend, for any key that has a code. -/
theorem inject_holds (event : InputEvent) {kc : KeyCode} {c : UInt16}
    (hkc : windows_code kc = some c) :
    (self.inject event).dev.holds c = (key_word kc event).getD (self.dev.holds c) := by
  match event with
  | .Key k =>
      rw [self.inject_dev (.Key k) trivial]
      exact self.dev.after_key_word _ _ _ hkc windows_code_inj
  | .Mouse (.Scroll delta) =>
      rw [self.inject_dev (.Mouse (.Scroll delta)) trivial]
      rfl
  | .Mouse (.MoveRelative dx dy) => exact self.dev.handle_mouse_holds dx dy 0 MOUSEEVENTF_MOVE c
  | .Mouse (.Move x y) =>
      exact self.dev.handle_mouse_holds (normalized x self.virtual_w)
        (normalized y self.virtual_h) 0
        (MOUSEEVENTF_MOVE ||| MOUSEEVENTF_ABSOLUTE ||| MOUSEEVENTF_VIRTUALDESK) c
  | .Mouse (.Button button state) =>
      cases button <;> cases state <;> rfl
  | .ScreenEnter .. | .ScreenLeave _ | .ModifierSync _ => rfl

/-- Releases one after the other. -/
theorem releases_holds (vks : List UInt16) (c : UInt16)
    (hc : (∃ vk ∈ vks, standard_key vk = some c) ∨ self.dev.holds c = false) :
    (vks.foldl (fun inj vk => inj.key_vk vk false) self).dev.holds c = false := by
  -- the same for virtual keys, of which several may stand for one key
  induction vks generalizing self with
  | nil =>
      rcases hc with ⟨vk, hvk, -⟩ | hc
      · cases hvk
      · exact hc
  | cons vk vks ih =>
      rw [List.foldl_cons]
      apply ih
      rw [key_vk_dev]
      by_cases hvk : standard_key vk = some c
      · right
        simp [hvk, InputDevice.set_key_holds]
      · rcases hc with ⟨vk', hmem, hvk'⟩ | hc
        · left
          rcases List.mem_cons.mp hmem with rfl | hmem
          · exact absurd hvk' hvk
          · exact ⟨vk', hmem, hvk'⟩
        · right
          cases hcode : standard_key vk with
          | none => exact hc
          | some code =>
              rw [hcode, Option.some.injEq] at hvk
              simp only [InputDevice.set_key_holds, if_neg hvk, hc]

/-- Every modifier has a code, and its virtual key is among those released. -/
theorem modifier_released : ∀ kc ∈ modifier_keys,
    ∃ vk ∈ [0xA0, 0xA1, 0xA2, 0xA3, 0xA4, 0xA5, 0x5B, (0x5C : UInt16)],
      keycode_to_vk kc = some vk ∧ (standard_key vk).isSome := by
  decide

end WindowsInject

/-- The Linux injector, on a device that has the keys it writes for modifiers. -/
def linux_injector (keybit : UInt16 → Bool)
    (hbits : ∀ kc ∈ modifier_keys, keybit (evdev_code kc) = true) : Injector where
  State := LinuxInject
  inject := LinuxInject.inject keybit
  release_all_modifiers := LinuxInject.release_all_modifiers keybit
  held s kc := s.dev.holds (evdev_code kc)
  inject_held s event kc hkc := s.inject_holds keybit event hkc (hbits kc hkc)
  release_held s kc hkc := s.release_holds keybit hkc (hbits kc hkc)

/-- The Windows injector. -/
def windows_injector : Injector where
  State := WindowsInject
  inject := WindowsInject.inject
  release_all_modifiers := WindowsInject.release_all_modifiers
  held s kc := (windows_code kc).any s.dev.holds
  inject_held := by
    intro s event kc hkc
    obtain ⟨vk, -, hvk, hsome⟩ := WindowsInject.modifier_released kc hkc
    obtain ⟨c, hc⟩ := Option.isSome_iff_exists.mp hsome
    have hcode : windows_code kc = some c := by rw [windows_code, hvk, Option.bind_some, hc]
    rw [hcode]
    exact s.inject_holds event hcode
  release_held := by
    intro s kc hkc
    obtain ⟨vk, hmem, hvk, hsome⟩ := WindowsInject.modifier_released kc hkc
    obtain ⟨c, hc⟩ := Option.isSome_iff_exists.mp hsome
    have hcode : windows_code kc = some c := by rw [windows_code, hvk, Option.bind_some, hc]
    rw [hcode]
    exact s.releases_holds _ c (.inl ⟨vk, hmem, hc⟩)

/-! ## A connection

The client's half of one connection, from the channel to the injector. -/

/-- What the inbound loop's calls do to the injector. -/
def Effect.run (inj : Injector) (s : inj.State) : Effect → inj.State
  | .inject _ event => inj.inject s event
  | .release_all_modifiers _ => inj.release_all_modifiers s
  | .send _ | .clipboard _ | .file_offer _ | .file_chunk _ => s

/-- A connection of the client session: its inbound channel, whether anybody can
still send to it, its inbound loop, the session's peers, and the injector.
`received` is the record of what came in. -/
structure ClientConnection (inj : Injector) where
  handle : PeerHandle
  inbound : List Message
  closed : Bool
  loop_ended : Bool
  disconnected : Bool
  tasks : ClientTasks
  injector : inj.State
  received : List Message

/-- A message arrives, the channel is closed, the inbound loop handles one or returns,
or the session hears of the end. -/
inductive ConnectionStep
  | receive (msg : Message)
  | close
  | inbound_next
  | inbound_end
  | disconnected
deriving DecidableEq

namespace ClientConnection

variable {inj : Injector}

/-- `Connected` was handled; the injector may hold what it likes. -/
def connected (handle : PeerHandle) (tasks : ClientTasks) (injector : inj.State) :
    ClientConnection inj :=
  { handle, inbound := [], closed := false, loop_ended := false, disconnected := false,
    tasks := tasks.handle_peer_event (.Connected handle), injector, received := [] }

/-- One step. The loop returns when the channel is closed and empty. -/
def step (self : ClientConnection inj) : ConnectionStep → Option (ClientConnection inj)
  | .receive msg =>
    if self.closed = false ∧ self.inbound.length < 256 then
      some { self with inbound := self.inbound ++ [msg], received := self.received ++ [msg] }
    else none
  | .close => some { self with closed := true }
  | .inbound_next =>
    match self.inbound with
    | msg :: rest =>
      if self.loop_ended then none
      else some { self with
        inbound := rest, injector := (inbound_step true msg).foldl (Effect.run inj) self.injector }
    | [] => none
  | .inbound_end =>
    if self.closed = true ∧ self.inbound = [] then some { self with loop_ended := true } else none
  | .disconnected =>
    if self.disconnected then none
    else some { self with
      disconnected := true
      tasks := self.tasks.handle_peer_event (.Disconnected self.handle.peer_id) }

/-- The connection is over: its inbound loop has returned and its
`Disconnected` has been handled. -/
def Over (self : ClientConnection inj) : Prop :=
  self.loop_ended = true ∧ self.disconnected = true

end ClientConnection

/-! ## What a message does to a modifier

A message leads to several calls. Of those that say something about a modifier the last
one counts, so a message has one word about each. -/

/-- Handling the message presses the key. -/
def Message.Presses (self : Message) (kc : KeyCode) : Prop :=
  ∃ site k, Effect.inject site (.Key k) ∈ inbound_step true self ∧ k.code = kc ∧
    k.state = .Pressed

/-- `resync_modifiers` leaves the left keys of the flags in `target` pressed. -/
def resync_word (target : ModifierState) (kc : KeyCode) : Bool :=
  match kc with
  | .LeftShift => target.contains .SHIFT
  | .LeftCtrl => target.contains .CTRL
  | .LeftAlt => target.contains .ALT
  | .LeftSuper => target.contains .SUPER
  | _ => false

/-- Whether a message leaves a modifier pressed or released, if it says anything
about it. -/
def message_word (kc : KeyCode) : Message → Option Bool
  | .KeyEvent k => key_word kc (.Key k)
  | .ScreenEnter _ _ modifiers | .ModifierSync modifiers => some (resync_word modifiers kc)
  | .ScreenLeave _ => some false
  | _ => none

namespace ClientConnection

variable {inj : Injector}

/-- No modifier that a message of the connection pressed is still held. -/
def NoneStuck (self : ClientConnection inj) : Prop :=
  ∀ kc ∈ modifier_keys, (∃ msg ∈ self.received, msg.Presses kc) →
    inj.held self.injector kc = false

/-- Every message that leaves a modifier pressed is followed by one that
releases it. -/
def TakenBack (self : ClientConnection inj) : Prop :=
  ∀ kc ∈ modifier_keys, ∀ pre msg post, self.received = pre ++ msg :: post →
    message_word kc msg = some true → ∃ later ∈ post, message_word kc later = some false

end ClientConnection

/-- What a call of the inbound loop says about a modifier. -/
def effect_word (kc : KeyCode) : Effect → Option Bool
  | .inject _ event => key_word kc event
  | .release_all_modifiers _ => some false
  | _ => none

/-- What a call of the inbound loop does to a modifier, in one equation for all calls:
it says something, or leaves the key as it is. -/
theorem effect_held (inj : Injector) {kc : KeyCode} (hkc : kc ∈ modifier_keys) (s : inj.State)
    (effect : Effect) :
    inj.held (effect.run inj s) kc = (effect_word kc effect).getD (inj.held s kc) := by
  cases effect with
  | inject site event => exact inj.inject_held s event kc hkc
  | release_all_modifiers site => exact inj.release_held s kc hkc
  | send msg | clipboard msg | file_offer offer | file_chunk chunk => rfl

/-- The last press of `resync_modifiers` stands. -/
theorem resync_last_word (target : ModifierState) {kc : KeyCode} (hkc : kc ∈ modifier_keys)
    (word : Option Bool) :
    (resync_modifiers target).foldl (fun last e => (effect_word kc e).or last) word
      = some (resync_word target kc) := by
  simp only [modifier_keys, List.mem_cons, List.not_mem_nil, or_false] at hkc
  simp only [resync_modifiers, List.filter_cons, List.filter_nil, resync_word]
  generalize target.contains .SHIFT = shift, target.contains .CTRL = ctrl,
    target.contains .ALT = alt, target.contains .SUPER = super
  rcases hkc with rfl | rfl | rfl | rfl | rfl | rfl | rfl | rfl <;>
    cases shift <;> cases ctrl <;> cases alt <;> cases super <;> rfl

/-- **One message.** -/
theorem message_last_word {kc : KeyCode} (hkc : kc ∈ modifier_keys) (msg : Message) :
    last_word (effect_word kc) (inbound_step true msg) = message_word kc msg := by
  cases msg with
  | ScreenEnter x y modifiers =>
      simp only [inbound_step, message_word, last_word, if_pos, List.foldl_cons]
      exact resync_last_word modifiers hkc _
  | ModifierSync modifiers => exact resync_last_word modifiers hkc none
  | KeyEvent k =>
      simp [inbound_step, message_word, last_word, effect_word]
  | _ => rfl

/-- What leaves a key pressed presses it. -/
theorem presses_of_word {kc : KeyCode} (hkc : kc ∈ modifier_keys) {msg : Message}
    (h : message_word kc msg = some true) : msg.Presses kc := by
  rw [← message_last_word hkc] at h
  obtain ⟨pre, effect, post, hsplit, heffect, -⟩ := (last_word_eq_some_iff _ _ _).mp h
  have hmem : effect ∈ inbound_step true msg := by
    rw [hsplit]
    simp
  match effect with
  | .inject site (.Key k) =>
      simp only [effect_word, key_word] at heffect
      split_ifs at heffect with hk
      exact ⟨site, k, hmem, hk, by simpa using heffect⟩
  | .inject _ (.Mouse _) | .inject _ (.ScreenEnter ..) | .inject _ (.ScreenLeave _)
  | .inject _ (.ModifierSync _) | .send _ | .clipboard _ | .file_offer _ | .file_chunk _
  | .release_all_modifiers _ => cases heffect

/-- What presses a key says something about it. -/
theorem word_of_presses {kc : KeyCode} (hkc : kc ∈ modifier_keys) {msg : Message}
    (h : msg.Presses kc) : message_word kc msg ≠ none := by
  rw [← message_last_word hkc]
  obtain ⟨site, k, hmem, hk, -⟩ := h
  intro hnone
  have heffect := (last_word_eq_none_iff _ _).mp hnone _ hmem
  simp [effect_word, key_word, hk] at heffect

/-! ## The run of a connection

However arrival, handling and the end of the connection interleave, the messages are
handled in order and all of them are in the end. -/

namespace ClientConnection

variable {inj : Injector} {self next : ClientConnection inj}

/-- What was handled of the messages received, and what it has made of the
injector. -/
structure Handled (start : inj.State) (conn : ClientConnection inj) : Prop where
  queue : ∃ handled, conn.received = handled ++ conn.inbound ∧
    ∀ kc ∈ modifier_keys, inj.held conn.injector kc
      = (last_word (message_word kc) handled).getD (inj.held start kc)
  drained : conn.loop_ended = true → conn.closed = true ∧ conn.inbound = []

/-- At the start nothing was received and nothing handled. -/
theorem connected_handled (handle : PeerHandle) (tasks : ClientTasks) (start : inj.State) :
    Handled start (connected handle tasks start) :=
  ⟨⟨[], rfl, fun _ _ => rfl⟩, by rintro ⟨⟩⟩

/-- Every step keeps the books: what the injector holds is what the handled messages
made of what it held at first. The steps that end a connection do not touch the
injector, and that is the finding. -/
theorem step_handled (start : inj.State) (a : ConnectionStep) (hs : Handled start self)
    (h : self.step a = some next) : Handled start next := by
  obtain ⟨⟨handled, hreceived, hheld⟩, hdrained⟩ := hs
  cases a with
  | receive msg =>
      simp only [step] at h
      split_ifs at h with hopen
      obtain rfl := Option.some.inj h
      refine ⟨⟨handled, ?_, hheld⟩, ?_⟩
      · rw [hreceived, List.append_assoc]
      · intro hended
        -- a loop that has ended found its channel closed
        have hclosed := (hdrained hended).1
        rw [hopen.1] at hclosed
        cases hclosed
  | close =>
      obtain rfl := Option.some.inj h
      exact ⟨⟨handled, hreceived, hheld⟩, fun hended => ⟨rfl, (hdrained hended).2⟩⟩
  | inbound_next =>
      cases hinbound : self.inbound with
      | nil => simp [step, hinbound] at h
      | cons msg rest =>
          simp only [step, hinbound] at h
          split_ifs at h with hended
          obtain rfl := Option.some.inj h
          refine ⟨⟨handled ++ [msg], ?_, ?_⟩, fun hended' => absurd hended' hended⟩
          · rw [hreceived, hinbound, List.append_assoc, List.singleton_append]
          · intro kc hkc
            -- the message has the last word about the keys it names
            have hmsg := foldl_last_word (effect_word kc) (Effect.run inj)
              (fun s => inj.held s kc) (effect_held inj hkc) self.injector
              (inbound_step true msg)
            rw [hmsg, message_last_word hkc, last_word_concat, hheld kc hkc]
            cases message_word kc msg <;> rfl
  | inbound_end =>
      simp only [step] at h
      split_ifs at h with hempty
      obtain rfl := Option.some.inj h
      exact ⟨⟨handled, hreceived, hheld⟩, fun _ => hempty⟩
  | disconnected =>
      simp only [step] at h
      split_ifs at h
      obtain rfl := Option.some.inj h
      exact ⟨⟨handled, hreceived, hheld⟩, hdrained⟩

/-- **Once a connection is over**, nothing it pressed is held exactly when every
press was taken back. -/
theorem over_noneStuck_iff (handle : PeerHandle) (tasks : ClientTasks) (start : inj.State)
    (steps : List ConnectionStep) (last : ClientConnection inj)
    (hrun : exec step (connected handle tasks start) steps = some last) (hover : last.Over) :
    last.NoneStuck ↔ last.TakenBack := by
  obtain ⟨⟨handled, hreceived, hheld⟩, hdrained⟩ := exec_invariant step (Handled start) _ last
    steps (connected_handled handle tasks start) (fun _ _ a _ => step_handled start a) hrun
  rw [(hdrained hover.1).2, List.append_nil] at hreceived
  unfold NoneStuck TakenBack
  apply forall₂_congr
  intro kc hkc
  -- a press with a release after it, for every press, means that the last word is no
  -- press
  have htaken : (∀ pre msg post, last.received = pre ++ msg :: post →
      message_word kc msg = some true → ∃ later ∈ post, message_word kc later = some false) ↔
        last_word (message_word kc) last.received ≠ some true := by
    rw [last_word_ne_iff]
    simp
  rw [htaken, hheld kc hkc, ← hreceived]
  -- a key nobody pressed was not down at the start, so the last word decides for the
  -- pressed ones
  constructor
  · intro hnone hlast
    obtain ⟨pre, msg, post, hsplit, hword, -⟩ := (last_word_eq_some_iff _ _ _).mp hlast
    have hfalse := hnone ⟨msg, by rw [hsplit]; simp, presses_of_word hkc hword⟩
    rw [hlast] at hfalse
    cases hfalse
  · rintro hlast ⟨msg, hmem, hpress⟩
    cases hword : last_word (message_word kc) last.received with
    | none =>
        exact absurd ((last_word_eq_none_iff _ _).mp hword msg hmem) (word_of_presses hkc hpress)
    | some down =>
        cases down with
        | true => exact absurd hword hlast
        | false => rfl

end ClientConnection

/-- **When no modifier stays stuck.** On either backend, whatever the injector
held before, whatever messages came in and wherever they broke off: once the
connection is over no modifier it pressed is held exactly when every message
that leaves one pressed is followed by one that releases it. -/
theorem no_modifier_stuck_iff (keybit : UInt16 → Bool)
    (hbits : ∀ kc ∈ modifier_keys, keybit (evdev_code kc) = true) (handle : PeerHandle)
    (tasks : ClientTasks) (steps : List ConnectionStep) :
    (∀ (start : LinuxInject) (last : ClientConnection (linux_injector keybit hbits)),
      exec ClientConnection.step (.connected handle tasks start) steps = some last → last.Over →
        (last.NoneStuck ↔ last.TakenBack)) ∧
    (∀ (start : WindowsInject) (last : ClientConnection windows_injector),
      exec ClientConnection.step (.connected handle tasks start) steps = some last → last.Over →
        (last.NoneStuck ↔ last.TakenBack)) :=
  ⟨fun start last hrun hover =>
      ClientConnection.over_noneStuck_iff handle tasks start steps last hrun hover,
    fun start last hrun hover =>
      ClientConnection.over_noneStuck_iff handle tasks start steps last hrun hover⟩

/-- The equivalence for a Ctrl that is released while the connection goes
down. -/
theorem no_modifier_stuck_iff_left :
    let steps : List ConnectionStep :=
      [.receive (.ScreenEnter 5 5 .CTRL), .inbound_next, .receive (.ScreenLeave 1), .close,
        .disconnected, .inbound_next, .inbound_end]
    let handle : PeerHandle := ⟨⟨Vector.replicate 16 7⟩, 0⟩
    (∃ last : ClientConnection (linux_injector (fun _ => true) (fun _ _ => rfl)),
      exec ClientConnection.step (.connected handle ⟨[], []⟩ LinuxInject.new) steps = some last ∧
        (last.NoneStuck ↔ last.TakenBack)) ∧
    (∃ last : ClientConnection windows_injector,
      exec ClientConnection.step (.connected handle ⟨[], []⟩ (WindowsInject.new 1920 1080)) steps
          = some last ∧
        (last.NoneStuck ↔ last.TakenBack)) := by
  intro steps handle
  have hiff := no_modifier_stuck_iff (fun _ => true) (fun _ _ => rfl) handle ⟨[], []⟩ steps
  exact ⟨⟨_, rfl, hiff.1 .new _ rfl ⟨rfl, rfl⟩⟩, ⟨_, rfl, hiff.2 (.new 1920 1080) _ rfl ⟨rfl, rfl⟩⟩⟩

/-- **Ctrl stays down.** The pointer enters with Ctrl held, and the connection
breaks off before it leaves. -/
theorem ctrl_stays_down :
    let steps : List ConnectionStep :=
      [.receive (.ScreenEnter 5 5 .CTRL), .inbound_next, .close, .inbound_end, .disconnected]
    let handle : PeerHandle := ⟨⟨Vector.replicate 16 7⟩, 0⟩
    (∃ last : ClientConnection (linux_injector (fun _ => true) (fun _ _ => rfl)),
      exec ClientConnection.step (.connected handle ⟨[], []⟩ LinuxInject.new) steps = some last ∧
        last.Over ∧ ¬ last.NoneStuck) ∧
    (∃ last : ClientConnection windows_injector,
      exec ClientConnection.step (.connected handle ⟨[], []⟩ (WindowsInject.new 1920 1080)) steps
          = some last ∧
        last.Over ∧ ¬ last.NoneStuck) := by
  have hpress : Message.Presses (.ScreenEnter 5 5 .CTRL) .LeftCtrl :=
    ⟨.resync, ⟨.LeftCtrl, .Pressed, .CTRL, none⟩, by decide, rfl, rfl⟩
  constructor
  · refine ⟨_, rfl, ⟨rfl, rfl⟩, fun hnone => ?_⟩
    have hheld := hnone .LeftCtrl (by decide) ⟨_, List.mem_singleton_self _, hpress⟩
    exact absurd hheld (by decide)
  · refine ⟨_, rfl, ⟨rfl, rfl⟩, fun hnone => ?_⟩
    have hheld := hnone .LeftCtrl (by decide) ⟨_, List.mem_singleton_self _, hpress⟩
    exact absurd hheld (by decide)

end InputSync
