/-
Where a key event goes: the hook thread, the drain thread and the callers of
`set_capturing`, step by step.

The hook pushes an event and decides from `HOOK_CAPTURING` whether the local
system sees it; the drain thread takes the event out of the queue and decides
from `CaptureState::capturing` whether the sink does. `set_capturing` stores
the first of these flags after the second. Between any two of these accesses
the other threads may run, so each access is a step.

The events that entered the queue are numbered, and the state keeps what each
side decided on each number, with the flag it read. Two guarantees are settled
over all runs: each key goes to exactly one machine (`each_key_once_iff`), and
the local system is left with no key nobody holds (`no_stuck_key`).
-/
import InputSync.Capture
import InputSync.Trace

set_option autoImplicit false

namespace InputSync

/-! ## The threads

Three threads and two flags. A key event is decided on twice, by the hook for the local
system and by the drain thread for the sink, and the two decisions read different flags
at different times. -/

/-- A hook call that has returned: its event's number, if it entered the
queue, and the flag it read. -/
structure Hooked where
  call : HookCall
  id : Option Nat
  flag : Bool
deriving DecidableEq

/-- The local system sees the event. -/
def Hooked.passed (self : Hooked) : Bool := (self.call.proc self.flag).2

/-- An event the drain thread has taken out: its number, the snapshot before
it and the flag that was read. -/
structure Drained where
  id : Nat
  raw : RawEvent
  mods : ModifierState
  flag : Bool
deriving DecidableEq

/-- The sink is handed the event. -/
def Drained.sunk (self : Drained) : Bool := (drain_raw self.mods self.flag self.raw).2.isSome

/-- The capture as far as keys go: its two flags, the queue between its threads, the
hook call under way, and records of what was decided. -/
structure KeyRouting where
  /-- `CaptureState::capturing` -/
  capturing : Bool
  /-- `HOOK_CAPTURING` -/
  hook_capturing : Bool
  /-- calls of `set_capturing` between their two stores -/
  setters : List Bool
  /-- the hook call between its push and its decision -/
  calling : Option (HookCall × Option Nat)
  /-- every event that entered the queue, in order -/
  entered : List RawEvent
  queue : List (Nat × RawEvent)
  mods : ModifierState
  hooked : List Hooked
  drained : List Drained

/-- The steps, grouped by the thread that takes them. -/
inductive KeyStep
  -- the hook thread
  | hook_push (call : HookCall)
  | hook_return
  -- the drain thread
  | drain
  -- set_capturing
  | store_capturing (on : Bool)
  | store_hook (on : Bool)

namespace KeyRouting

/-- The capture as `start` leaves it. -/
def new : KeyRouting :=
  { capturing := false, hook_capturing := false, setters := [], calling := none, entered := []
    queue := [], mods := .empty, hooked := [], drained := [] }

/-- One access of one thread; `none` when that thread is not at it. -/
def step (self : KeyRouting) : KeyStep → Option KeyRouting
  | .hook_push call =>
    match self.calling with
    | some _ => none
    | none =>
      match call.event with
      | none => some { self with calling := some (call, none) }
      | some raw =>
        match try_push self.queue (self.entered.length, raw) with
        | none => some { self with calling := some (call, none) }
        | some queue =>
          some { self with
            calling := some (call, some self.entered.length)
            entered := self.entered ++ [raw]
            queue := queue }
  | .hook_return =>
    match self.calling with
    | some (call, id) =>
      some { self with
        calling := none
        hooked := self.hooked ++ [⟨call, id, self.hook_capturing⟩] }
    | none => none
  | .drain =>
    match self.queue with
    | (n, raw) :: queue =>
      some { self with
        queue := queue
        mods := (drain_raw self.mods self.capturing raw).1
        drained := self.drained ++ [⟨n, raw, self.mods, self.capturing⟩] }
    | [] => none
  | .store_capturing on => some { self with capturing := on, setters := self.setters ++ [on] }
  | .store_hook on =>
    if on ∈ self.setters then
      some { self with hook_capturing := on, setters := self.setters.erase on }
    else none

/-! ## What a step can do

The inversion lemmas of the three threads. -/

/-- A hook call begins. Its event enters the queue with the next number, or there is no
event, or no room and the event is lost. -/
theorem step_hook_push {self next : KeyRouting} {call : HookCall}
    (h : self.step (.hook_push call) = some next) :
    next = { self with calling := some (call, none) } ∨
      ∃ raw, call.event = some raw ∧
        next = { self with
          calling := some (call, some self.entered.length)
          entered := self.entered ++ [raw]
          queue := self.queue ++ [(self.entered.length, raw)] } := by
  cases hcalling : self.calling with
  | some c => simp [step, hcalling] at h
  | none =>
      -- the queue is bounded: an event that finds it full is dropped
      cases hevent : call.event with
      | none =>
          simp only [step, hcalling, hevent, Option.some.injEq] at h
          exact .inl h.symm
      | some raw =>
          simp only [step, hcalling, hevent, try_push] at h
          split_ifs at h with hroom
          · exact .inr ⟨raw, rfl, (Option.some.inj h).symm⟩
          · exact .inl (Option.some.inj h).symm

/-- The call returns, having read `HOOK_CAPTURING`. By then `set_capturing` may have run
since the push, and the drain thread may already have the event. -/
theorem step_hook_return {self next : KeyRouting} (h : self.step .hook_return = some next) :
    ∃ call id, self.calling = some (call, id) ∧
      next = { self with
        calling := none
        hooked := self.hooked ++ [⟨call, id, self.hook_capturing⟩] } := by
  match hcalling : self.calling with
  | none => simp [step, hcalling] at h
  | some (call, id) =>
      simp only [step, hcalling, Option.some.injEq] at h
      exact ⟨call, id, rfl, h.symm⟩

/-- The drain thread takes the oldest event and decides by the other flag. -/
theorem step_drain {self next : KeyRouting} (h : self.step .drain = some next) :
    ∃ n raw queue, self.queue = (n, raw) :: queue ∧
      next = { self with
        queue := queue
        mods := (drain_raw self.mods self.capturing raw).1
        drained := self.drained ++ [⟨n, raw, self.mods, self.capturing⟩] } := by
  match hqueue : self.queue with
  | [] => simp [step, hqueue] at h
  | (n, raw) :: queue =>
      simp only [step, hqueue, Option.some.injEq] at h
      exact ⟨n, raw, queue, rfl, h.symm⟩

/-- The stores leave the events alone. -/
theorem step_store {self next : KeyRouting} {on : Bool}
    (h : self.step (.store_capturing on) = some next ∨ self.step (.store_hook on) = some next) :
    next.calling = self.calling ∧ next.entered = self.entered ∧ next.queue = self.queue ∧
      next.hooked = self.hooked ∧ next.drained = self.drained := by
  rcases h with h | h
  · simp only [step, Option.some.injEq] at h
    subst h
    exact ⟨rfl, rfl, rfl, rfl, rfl⟩
  · simp only [step] at h
    split_ifs at h with hmem
    cases h
    exact ⟨rfl, rfl, rfl, rfl, rfl⟩

/-! ## Numbers name events

With numbers, "the same key event" has a meaning although events are equal as values. -/

/-- A number stands for the same event wherever it occurs. -/
structure Numbered (keys : KeyRouting) : Prop where
  queue : ∀ it ∈ keys.queue, keys.entered[it.1]? = some it.2
  drained : ∀ d ∈ keys.drained, keys.entered[d.id]? = some d.raw
  calling : ∀ call n, keys.calling = some (call, some n) →
    ∃ raw, call.event = some raw ∧ keys.entered[n]? = some raw
  hooked : ∀ h ∈ keys.hooked, ∀ n, h.id = some n →
    ∃ raw, h.call.event = some raw ∧ keys.entered[n]? = some raw

/-- Nothing has entered yet. -/
theorem numbered_new : new.Numbered := by
  refine ⟨?_, ?_, ?_, ?_⟩
  · intro it hit; cases hit
  · intro d hd; cases hd
  · intro call n hcall; cases hcall
  · intro h hh; cases hh

/-- What entered keeps its number. -/
theorem entered_append {entered : List RawEvent} {n : Nat} {raw : RawEvent} (last : RawEvent)
    (h : entered[n]? = some raw) : (entered ++ [last])[n]? = some raw := by
  rw [List.getElem?_append_left (List.getElem?_eq_some_iff.mp h).1]
  exact h

/-- Numbers are given out at the push, where the event joins those that entered. From
there they are only handed on: to the queue, to the call that will return, and to the
records of both sides. -/
theorem step_numbered (self next : KeyRouting) (a : KeyStep) (hinv : self.Numbered)
    (h : self.step a = some next) : next.Numbered := by
  cases a with
  | hook_push call =>
      rcases step_hook_push h with rfl | ⟨raw, hevent, rfl⟩
      · refine ⟨hinv.queue, hinv.drained, ?_, hinv.hooked⟩
        intro c n hc
        cases hc
      · -- the new event gets the next number, the others keep theirs
        have hlast : (self.entered ++ [raw])[self.entered.length]? = some raw :=
          List.getElem?_concat_length
        refine ⟨?_, ?_, ?_, ?_⟩
        · intro it hit
          rcases List.mem_append.mp hit with hit | hit
          · exact entered_append raw (hinv.queue it hit)
          · rw [List.mem_singleton.mp hit]
            exact hlast
        · intro d hd
          exact entered_append raw (hinv.drained d hd)
        · intro c n hc
          cases hc
          exact ⟨raw, hevent, hlast⟩
        · intro r hr n hn
          obtain ⟨raw', hevent', hraw'⟩ := hinv.hooked r hr n hn
          exact ⟨raw', hevent', entered_append raw hraw'⟩
  | hook_return =>
      obtain ⟨call, id, hcall, rfl⟩ := step_hook_return h
      refine ⟨hinv.queue, hinv.drained, ?_, ?_⟩
      · intro c n hc
        cases hc
      · intro r hr n hn
        rcases List.mem_append.mp hr with hr | hr
        · exact hinv.hooked r hr n hn
        · -- the call that returns keeps the number it was given
          obtain rfl := List.mem_singleton.mp hr
          dsimp only at hn
          subst hn
          exact hinv.calling call n hcall
  | drain =>
      obtain ⟨n, raw, queue, hqueue, rfl⟩ := step_drain h
      refine ⟨?_, ?_, hinv.calling, hinv.hooked⟩
      · intro it hit
        exact hinv.queue it (by rw [hqueue]; exact List.mem_cons_of_mem _ hit)
      · intro d hd
        rcases List.mem_append.mp hd with hd | hd
        · exact hinv.drained d hd
        · rw [List.mem_singleton.mp hd]
          exact hinv.queue (n, raw) (by rw [hqueue]; exact List.mem_cons_self)
  | store_capturing on | store_hook on =>
      obtain ⟨hc, he, hq, hh, hd⟩ := step_store (by first | exact .inl h | exact .inr h)
      refine ⟨?_, ?_, ?_, ?_⟩
      · rw [hq, he]; exact hinv.queue
      · rw [hd, he]; exact hinv.drained
      · rw [hc, he]; exact hinv.calling
      · rw [hh, he]; exact hinv.hooked

/-! ## Each key to one machine

The condition compares two reads of two flags. It can only fail around a
`set_capturing`. -/

/-- A hook call about a key other than Escape. -/
def PlainKey (call : HookCall) : Prop :=
  ∃ vk down, call.key = some (vk, down) ∧ vk ≠ VK_ESCAPE

/-- Every key event on which both sides have decided went to one of them: it
was passed to the local system or handed to the sink, not both and not
neither. -/
def ExactlyOne (self : KeyRouting) : Prop :=
  ∀ h ∈ self.hooked, ∀ d ∈ self.drained, h.id = some d.id → PlainKey h.call → h.passed ≠ d.sunk

/-- The side that decides second on a key event reads the flag value the first
one read. -/
def SameFlag (self : KeyRouting) : KeyStep → Prop
  | .hook_return => ∀ call n, self.calling = some (call, some n) → PlainKey call →
      ∀ d ∈ self.drained, d.id = n → d.flag = self.hook_capturing
  | .drain => ∀ n raw queue, self.queue = (n, raw) :: queue →
      ∀ h ∈ self.hooked, h.id = some n → PlainKey h.call → h.flag = self.capturing
  | _ => True

/-- One event, two decisions: exactly one side gets it when both read the same
value. -/
theorem decisions_differ_iff (h : Hooked) (d : Drained) (hkey : PlainKey h.call)
    (hevent : h.call.event = some d.raw) : h.passed ≠ d.sunk ↔ d.flag = h.flag := by
  obtain ⟨vk, down, hkey, hvk⟩ := hkey
  have hraw : d.raw.key = some (vk, down) := by
    unfold HookCall.key at hkey
    rw [hevent] at hkey
    exact hkey
  unfold Hooked.passed Drained.sunk
  rw [h.call.proc_key h.flag vk down hkey, drain_raw_key _ _ _ (by rw [hraw]; rfl),
    beq_eq_false_iff_ne.mpr hvk, Bool.or_false]
  cases h.flag <;> cases d.flag <;> simp

/-- **One step.** -/
theorem step_exactlyOne_iff (self next : KeyRouting) (a : KeyStep) (hinv : self.Numbered)
    (hone : self.ExactlyOne) (h : self.step a = some next) :
    next.ExactlyOne ↔ self.SameFlag a := by
  cases a with
  | hook_push call =>
      refine iff_of_true ?_ trivial
      rcases step_hook_push h with rfl | ⟨raw, -, rfl⟩
      · exact hone
      · exact hone
  | hook_return =>
      obtain ⟨call, id, hcall, rfl⟩ := step_hook_return h
      -- the event a call returns from is the one that was drained under its number
      have hevent : ∀ d ∈ self.drained, id = some d.id → call.event = some d.raw := by
        rintro d hd rfl
        obtain ⟨raw, hraw, hn⟩ := hinv.calling call d.id hcall
        rw [hinv.drained d hd] at hn
        rw [hraw, hn]
      constructor
      · intro hnext c n hc hkey d hd hdn
        rw [hcall] at hc
        cases hc
        have hid : some n = some d.id := by rw [hdn]
        exact (decisions_differ_iff ⟨call, some n, self.hook_capturing⟩ d hkey
          (hevent d hd hid)).mp (hnext _ (by simp) d hd hid hkey)
      · intro hguard r hr d hd hid hkey
        rcases List.mem_append.mp hr with hr | hr
        · exact hone r hr d hd hid hkey
        · obtain rfl := List.mem_singleton.mp hr
          dsimp only at hid hkey
          subst hid
          exact (decisions_differ_iff _ d hkey (hevent d hd rfl)).mpr
            (hguard call d.id hcall hkey d hd rfl)
  | drain =>
      obtain ⟨n, raw, queue, hqueue, rfl⟩ := step_drain h
      -- and the other way round
      have hevent : ∀ r ∈ self.hooked, r.id = some n → r.call.event = some raw := by
        intro r hr hid
        obtain ⟨raw', hraw', hn⟩ := hinv.hooked r hr n hid
        rw [hinv.queue (n, raw) (by rw [hqueue]; exact List.mem_cons_self)] at hn
        rw [hraw', hn]
      constructor
      · intro hnext n' raw' queue' hq r hr hid hkey
        rw [hqueue] at hq
        cases hq
        exact ((decisions_differ_iff r ⟨n, raw, self.mods, self.capturing⟩ hkey
          (hevent r hr hid)).mp (hnext r hr _ (by simp) hid hkey)).symm
      · intro hguard r hr d hd hid hkey
        rcases List.mem_append.mp hd with hd | hd
        · exact hone r hr d hd hid hkey
        · obtain rfl := List.mem_singleton.mp hd
          exact (decisions_differ_iff r _ hkey (hevent r hr hid)).mpr
            (hguard n raw queue hqueue r hr hid hkey).symm
  | store_capturing on | store_hook on =>
      obtain ⟨-, -, -, hh, hd⟩ := step_store (by first | exact .inl h | exact .inr h)
      refine iff_of_true ?_ trivial
      unfold ExactlyOne
      rw [hh, hd]
      exact hone

/-- **When each key goes to exactly one machine.** Along any run of the three
threads: in every state, exactly when on every key event the second decision
reads the value the first one read. -/
theorem each_key_once_iff (steps : List KeyStep) (last : KeyRouting)
    (hrun : exec step new steps = some last) :
    (∀ pre suf t, steps = pre ++ suf → exec step new pre = some t → t.ExactlyOne) ↔
      (∀ pre a suf t, steps = pre ++ a :: suf → exec step new pre = some t → t.SameFlag a) := by
  have hone : new.ExactlyOne := by
    intro h hh
    cases hh
  exact exec_guarded_iff step Numbered ExactlyOne SameFlag new last steps numbered_new hone
    (fun t u a hinv hstep => t.step_numbered u a hinv hstep)
    (fun t u a hinv hg hstep => t.step_exactlyOne_iff u a hinv hg hstep) hrun

/-- The key `vk` goes down or up. -/
def key_call (vk : UInt32) (down : Bool) : HookCall :=
  .keyboard 0 (if down then WM_KEYDOWN else WM_KEYUP) ⟨vk, 0⟩

/-- What kind of call it is can be read off it. -/
theorem key_call_key (vk : UInt32) (down : Bool) : (key_call vk down).key = some (vk, down) := by
  cases down <;> rfl

/-- The equivalence for a key that is pressed, passed on and then dropped by
the drain thread. -/
theorem each_key_once_iff_local :
    let steps : List KeyStep := [.hook_push (key_call 0x41 true), .hook_return, .drain]
    (∀ pre suf t, steps = pre ++ suf → exec step new pre = some t → t.ExactlyOne) ↔
      (∀ pre a suf t, steps = pre ++ a :: suf → exec step new pre = some t → t.SameFlag a) :=
  each_key_once_iff [.hook_push (key_call 0x41 true), .hook_return, .drain] _
    (Option.some_get (by rfl)).symm

/-- **Both machines.** A key pressed just before the capture is switched on is
passed to the local system, and taken out of the queue afterwards and handed
to the sink as well. -/
theorem key_on_both_machines :
    ∃ last,
      exec step new [.hook_push (key_call 0x41 true), .hook_return, .store_capturing true,
        .store_hook true, .drain] = some last ∧ ¬ last.ExactlyOne := by
  refine ⟨_, rfl, ?_⟩
  intro h
  refine h ⟨key_call 0x41 true, some 0, false⟩ List.mem_cons_self
    ⟨0, .KeyDown 0x41 0, .empty, true⟩ List.mem_cons_self rfl ⟨0x41, true, by decide, by decide⟩ ?_
  decide

/-! ## Keys left held

A key is stuck when the local system saw its press and not its release. The guarantee is
about runs, so it goes by an invariant: what the local system holds is physically held. -/

/-- The key is down after these calls: its last event among them was a
press. -/
def down_after (log : List Hooked) (vk : UInt32) : Bool :=
  log.foldl (fun down h =>
    match h.call.key with
    | some (k, d) => if k = vk then d else down
    | none => down) false

/-- The key is physically held. -/
def held (self : KeyRouting) (vk : UInt32) : Bool := down_after self.hooked vk

/-- The local system holds the key: it sees the calls that were passed on. -/
def os_held (self : KeyRouting) (vk : UInt32) : Bool :=
  down_after (self.hooked.filter Hooked.passed) vk

/-- One more call, and what it says about a key. -/
theorem down_after_concat (log : List Hooked) (h : Hooked) (vk : UInt32) :
    down_after (log ++ [h]) vk
      = match h.call.key with
        | some (k, d) => if k = vk then d else down_after log vk
        | none => down_after log vk := by
  unfold down_after
  rw [List.foldl_append, List.foldl_cons, List.foldl_nil]

/-- A call about another key, or about none. -/
theorem down_after_other (log : List Hooked) (h : Hooked) (vk : UInt32)
    (hother : ∀ d, h.call.key ≠ some (vk, d)) : down_after (log ++ [h]) vk = down_after log vk := by
  rw [down_after_concat]
  split
  · rename_i k d hkey
    rw [if_neg]
    rintro rfl
    exact hother d hkey
  · rfl

/-- A call about the key decides. -/
theorem down_after_key (log : List Hooked) (h : Hooked) (vk : UInt32) (d : Bool)
    (hkey : h.call.key = some (vk, d)) : down_after (log ++ [h]) vk = d := by
  rw [down_after_concat, hkey]
  simp

/-- No key is left behind: when no key is physically held, the local system
holds none. -/
def NoStuckKey (self : KeyRouting) : Prop :=
  (∀ vk, self.held vk = false) → ∀ vk, self.os_held vk = false

/-- The local system holds only keys that are physically held. -/
def OsWithin (self : KeyRouting) : Prop := ∀ vk, self.os_held vk = true → self.held vk = true

/-- No release is swallowed of a key that the local system holds. -/
def ReleasesSeen (self : KeyRouting) : KeyStep → Prop
  | .hook_return => ∀ call id vk, self.calling = some (call, id) → call.key = some (vk, false) →
      vk ≠ VK_ESCAPE → self.hook_capturing = true → self.os_held vk = false
  | _ => True

/-- What one returned call does to what the local system holds: it sees the
event, unless that is swallowed. -/
theorem os_held_concat (log : List Hooked) (h : Hooked) (vk : UInt32) :
    down_after ((log ++ [h]).filter Hooked.passed) vk
      = if h.passed then down_after (log.filter Hooked.passed ++ [h]) vk
        else down_after (log.filter Hooked.passed) vk := by
  rw [List.filter_append]
  cases hp : h.passed with
  | true => simp [hp]
  | false => simp [hp]

/-- **One step.** From a state in which the local system holds only held keys,
the next one is such a state exactly when the release of a key is seen. -/
theorem step_osWithin_iff (self next : KeyRouting) (a : KeyStep) (hgood : self.OsWithin)
    (h : self.step a = some next) : next.OsWithin ↔ self.ReleasesSeen a := by
  cases a with
  | hook_push call =>
      refine iff_of_true ?_ trivial
      rcases step_hook_push h with rfl | ⟨raw, -, rfl⟩
      · exact hgood
      · exact hgood
  | hook_return =>
      obtain ⟨call, id, hcall, rfl⟩ := step_hook_return h
      constructor
      · intro hnext c i vk hc hkey hvk hcap
        rw [hcall] at hc
        cases hc
        -- a swallowed release: the key is up, and the local system does not know
        have hpassed : (Hooked.mk call id self.hook_capturing).passed = false := by
          unfold Hooked.passed
          rw [call.proc_key _ vk false hkey, hcap, beq_eq_false_iff_ne.mpr hvk]
          rfl
        by_contra hos
        have hup := hnext vk (by
          unfold os_held at hos ⊢
          rw [os_held_concat, hpassed]
          simpa using hos)
        unfold held at hup
        rw [down_after_key _ _ vk false hkey] at hup
        cases hup
      · intro hguard vk hos
        unfold os_held at hos
        unfold held
        rw [os_held_concat] at hos
        by_cases hkey : ∃ d, call.key = some (vk, d)
        · obtain ⟨d, hkey⟩ := hkey
          rw [down_after_key _ _ vk d hkey]
          cases d with
          | true => rfl
          | false =>
              -- a release: either seen, or of a key the local system does not hold
              split_ifs at hos with hpassed
              · rw [down_after_key _ _ vk false hkey] at hos
                exact hos
              · have hcap : self.hook_capturing = true ∧ vk ≠ VK_ESCAPE := by
                  unfold Hooked.passed at hpassed
                  rw [call.proc_key _ vk false hkey] at hpassed
                  simpa using hpassed
                have := hguard call id vk hcall hkey hcap.2 hcap.1
                unfold os_held at this
                rw [this] at hos
                exact hos
        · have hother : ∀ d, call.key ≠ some (vk, d) := by
            intro d hd
            exact hkey ⟨d, hd⟩
          rw [down_after_other _ _ vk hother]
          apply hgood vk
          split_ifs at hos with hpassed
          · rw [down_after_other _ _ vk hother] at hos
            exact hos
          · exact hos
  | drain =>
      obtain ⟨n, raw, queue, -, rfl⟩ := step_drain h
      exact iff_of_true hgood trivial
  | store_capturing on | store_hook on =>
      obtain ⟨-, -, -, hh, -⟩ := step_store (by first | exact .inl h | exact .inr h)
      refine iff_of_true ?_ trivial
      unfold OsWithin os_held held
      rw [hh]
      exact hgood

/-- At the start the local system holds nothing. -/
theorem osWithin_new : new.OsWithin := by
  intro vk h
  cases h

/-- The local system holds only held keys all along a run exactly when every
release of a key it holds is seen. -/
theorem os_within_iff (steps : List KeyStep) (last : KeyRouting)
    (hrun : exec step new steps = some last) :
    (∀ pre suf t, steps = pre ++ suf → exec step new pre = some t → t.OsWithin) ↔
      (∀ pre a suf t, steps = pre ++ a :: suf → exec step new pre = some t → t.ReleasesSeen a) :=
  exec_guarded_iff step (fun _ => True) OsWithin ReleasesSeen new last steps trivial osWithin_new
    (fun _ _ _ _ _ => trivial) (fun t u a _ hg hstep => t.step_osWithin_iff u a hg hstep) hrun

/-- **No stuck key.** In a run in which no release is swallowed of a key that
the local system holds, every state has this: when no key is physically held,
the local system holds none. -/
theorem no_stuck_key (steps : List KeyStep) (last : KeyRouting)
    (hrun : exec step new steps = some last)
    (hseen : ∀ pre a suf t, steps = pre ++ a :: suf → exec step new pre = some t →
      t.ReleasesSeen a) :
    ∀ pre suf t, steps = pre ++ suf → exec step new pre = some t → t.NoStuckKey := by
  intro pre suf t hsplit ht hup vk
  have hwithin := (os_within_iff steps last hrun).mpr hseen pre suf t hsplit ht vk
  rw [hup vk] at hwithin
  exact Bool.eq_false_iff.mpr (fun hos => Bool.noConfusion (hwithin hos))

/-- A key typed on the local machine, and the capture switched on after it. -/
theorem no_stuck_key_typed :
    let steps : List KeyStep := [.hook_push (key_call 0x41 true), .hook_return,
      .hook_push (key_call 0x41 false), .hook_return, .store_capturing true, .store_hook true]
    ∀ pre suf t, steps = pre ++ suf → exec step new pre = some t → t.NoStuckKey := by
  intro steps
  refine no_stuck_key steps _ (Option.some_get (by rfl)).symm ?_
  apply (along_iff step ReleasesSeen new steps).mp
  refine ⟨trivial, ?_⟩
  rintro _ ⟨⟩
  constructor
  · intro call id vk _ _ _ hcap
    cases hcap
  rintro _ ⟨⟩
  refine ⟨trivial, ?_⟩
  rintro _ ⟨⟩
  constructor
  · intro call id vk _ _ _ hcap
    cases hcap
  rintro _ ⟨⟩
  refine ⟨trivial, ?_⟩
  rintro _ ⟨⟩
  refine ⟨trivial, ?_⟩
  rintro _ ⟨⟩
  trivial

/-- **A stuck key.** A key held while the capture is switched on: its release
is swallowed, and the local system holds it from then on. -/
theorem key_left_held :
    ∃ last,
      exec step new [.hook_push (key_call 0x41 true), .hook_return, .store_capturing true,
        .store_hook true, .hook_push (key_call 0x41 false), .hook_return] = some last ∧
      ¬ last.NoStuckKey := by
  refine ⟨_, rfl, ?_⟩
  intro h
  have hup : ∀ vk, down_after [⟨key_call 0x41 true, some 0, false⟩,
      ⟨key_call 0x41 false, some 1, true⟩] vk = false := by
    intro vk
    by_cases hvk : (0x41 : UInt32) = vk
    · subst hvk
      decide
    · simp [down_after, key_call_key, hvk]
  have := h hup 0x41
  revert this
  decide

/-! ## Every swallowed release sticks

The condition of `no_stuck_key` leaves out nothing harmless: after a release
it forbids, letting go of the other keys leaves one stuck. -/

/-- Let go of these keys, one after the other. -/
def releases (vks : List UInt32) : List KeyStep :=
  vks.flatMap (fun vk => [.hook_push (key_call vk false), .hook_return])

/-- A key can be let go of at any time when no call is under way; where the queue is
full the event is lost, and the call returns all the same. -/
theorem exec_release (self : KeyRouting) (vk : UInt32) (hidle : self.calling = none) :
    ∃ id next, exec step self [.hook_push (key_call vk false), .hook_return] = some next ∧
      next.calling = none ∧
      next.hooked = self.hooked ++ [⟨key_call vk false, id, self.hook_capturing⟩] := by
  have hevent : (key_call vk false).event = some (.KeyUp vk 0) := rfl
  by_cases hroom : self.queue.length < 8192
  · refine ⟨some self.entered.length,
      { self with
        calling := none
        entered := self.entered ++ [.KeyUp vk 0]
        queue := self.queue ++ [(self.entered.length, .KeyUp vk 0)]
        hooked := self.hooked ++ [⟨key_call vk false, some self.entered.length,
          self.hook_capturing⟩] }, ?_, rfl, rfl⟩
    simp [step, hidle, hevent, try_push, hroom]
  · refine ⟨none,
      { self with
        calling := none
        hooked := self.hooked ++ [⟨key_call vk false, none, self.hook_capturing⟩] }, ?_, rfl, rfl⟩
    simp [step, hidle, hevent, try_push, hroom]

/-- The keys let go of are up, and nothing else changes. -/
theorem exec_releases (vks : List UInt32) (self : KeyRouting) (hidle : self.calling = none) :
    ∃ last, exec step self (releases vks) = some last ∧
      (∀ vk, vk ∈ vks ∨ self.held vk = false → last.held vk = false) ∧
      ∀ vk, vk ∉ vks → last.os_held vk = self.os_held vk := by
  induction vks generalizing self with
  | nil =>
      refine ⟨self, rfl, ?_, ?_⟩
      · rintro vk (h | h)
        · cases h
        · exact h
      · intro vk _
        rfl
  | cons k vks ih =>
      obtain ⟨id, mid, hmid, hmididle, hlog⟩ := self.exec_release k hidle
      obtain ⟨last, hlast, hup, hos⟩ := ih mid hmididle
      refine ⟨last, ?_, ?_, ?_⟩
      · show exec step self ([.hook_push (key_call k false), .hook_return] ++ releases vks)
          = some last
        rw [exec_append, hmid, Option.bind_some, hlast]
      · intro vk hvk
        -- a key that is released once more later on is up then
        by_cases hmem : vk ∈ vks
        · exact hup vk (.inl hmem)
        · apply hup vk ∘ .inr
          unfold held
          rw [hlog]
          by_cases hk : vk = k
          · subst hk
            exact down_after_key _ _ vk false (key_call_key vk false)
          · rw [down_after_other]
            · rcases hvk with hvk | hvk
              · exact absurd hvk (by simp [hk, hmem])
              · exact hvk
            · intro d hd
              rw [key_call_key] at hd
              exact hk (Prod.mk.inj (Option.some.inj hd)).1.symm
      · intro vk hvk
        rw [List.mem_cons, not_or] at hvk
        rw [hos vk hvk.2]
        unfold os_held
        rw [hlog, os_held_concat]
        split
        · apply down_after_other
          intro d hd
          rw [key_call_key] at hd
          exact hvk.1 (Prod.mk.inj (Option.some.inj hd)).1.symm
        · rfl

/-- A key that is down occurs in the log. -/
theorem mem_of_down_after (log : List Hooked) (vk : UInt32) (h : down_after log vk = true) :
    vk ∈ log.filterMap (fun r => r.call.key.map Prod.fst) := by
  induction log using List.reverseRecOn with
  | nil => cases h
  | append_singleton log r ih =>
      rw [List.filterMap_append, List.mem_append]
      by_cases hkey : ∃ d, r.call.key = some (vk, d)
      · obtain ⟨d, hkey⟩ := hkey
        right
        simp [hkey]
      · left
        apply ih
        rw [down_after_other] at h
        · exact h
        · intro d hd
          exact hkey ⟨d, hd⟩

/-- **A swallowed release sticks.** -/
theorem swallowed_release_sticks (self next : KeyRouting) (h : self.step .hook_return = some next)
    (hun : ¬ self.ReleasesSeen .hook_return) :
    ∃ vks last, exec step next (releases vks) = some last ∧ ¬ last.NoStuckKey := by
  simp only [ReleasesSeen, not_forall] at hun
  obtain ⟨call, id, vk, hcall, hkey, hvk, hcap, hos⟩ := hun
  obtain ⟨call', id', hcall', rfl⟩ := step_hook_return h
  rw [hcall] at hcall'
  cases hcall'
  set next : KeyRouting := { self with
    calling := none, hooked := self.hooked ++ [⟨call, id, self.hook_capturing⟩] } with hnext
  -- the key is up, and the local system still holds it
  have hup : next.held vk = false := down_after_key _ _ vk false hkey
  have hstuck : next.os_held vk = true := by
    have hpassed : (Hooked.mk call id self.hook_capturing).passed = false := by
      unfold Hooked.passed
      rw [call.proc_key _ vk false hkey, hcap, beq_eq_false_iff_ne.mpr hvk]
      rfl
    have hsame : next.os_held vk = self.os_held vk := by
      unfold os_held
      rw [hnext, os_held_concat, hpassed]
      rfl
    rw [hsame]
    simpa using hos
  let vks := (next.hooked.filterMap (fun r => r.call.key.map Prod.fst)).filter next.held
  obtain ⟨last, hlast, hheld, hsame⟩ := exec_releases vks next rfl
  refine ⟨vks, last, hlast, ?_⟩
  intro hno
  have hall : ∀ k, last.held k = false := by
    intro k
    apply hheld k
    by_cases hk : next.held k = true
    · exact .inl (List.mem_filter.mpr ⟨mem_of_down_after _ k hk, hk⟩)
    · exact .inr (by simpa using hk)
  have hmem : vk ∉ vks := by
    intro hmem
    have := (List.mem_filter.mp hmem).2
    rw [hup] at this
    cases this
  have hnone := hno hall vk
  rw [hsame vk hmem, hstuck] at hnone
  cases hnone

end KeyRouting

end InputSync
