/-
The capture object (`WindowsCapture` in
`crates/platform/src/windows/capture.rs`): what `start` sets up, and what the
threads it spawns do.

There is one such object for the life of the process. A start that finds
`running` set returns at once and drops the sink it was given; one that does
not puts a new queue behind the hooks and spawns a hook thread and a drain
thread. `running` is cleared by a hook thread whose hooks cannot be installed,
and by `stop`, which nothing calls.
-/
import InputSync.Capture

set_option autoImplicit false

namespace InputSync

/-- A drain thread: the sink it was given, by the session whose channel that
is, the queue it reads, its modifier snapshot, and whether it is up. -/
structure DrainThread where
  sink : Nat
  queue : List RawEvent
  mods : ModifierState
  up : Bool
deriving DecidableEq

/-- The hook thread: never spawned, at `SetWindowsHookExW`, in its message
loop, or returned because a hook could not be installed. -/
inductive HookThread
  | unspawned | installing | pumping | failed
deriving DecidableEq

/-- `CaptureState` with the statics beside it. `hook_tx` is the drain thread
that has the receiver of `HOOK_TX`. -/
structure WindowsCapture where
  running : Bool
  capturing : Bool
  hook_capturing : Bool
  hook_thread : HookThread
  hook_tx : Option Nat
  drains : List DrainThread
deriving DecidableEq

/-- Which threads the system lets `start` spawn. -/
inductive Spawned
  | both
  | no_hook_thread (e : String)
  | no_drain_thread (e : String)

namespace WindowsCapture

/-- The object as it is made, with nothing started. -/
def new : WindowsCapture :=
  { running := false, capturing := false, hook_capturing := false, hook_thread := .unspawned,
    hook_tx := none, drains := [] }

/-- `start` with the sink of a session. -/
def start (self : WindowsCapture) (sink : Nat) (spawned : Spawned) :
    WindowsCapture × Except String Unit :=
  if self.running then (self, .ok ())
  else
    match spawned with
    | .no_hook_thread e =>
      ({ self with running := true, hook_tx := none }, .error ("spawn hook thread: " ++ e))
    | .no_drain_thread e =>
      ({ self with running := true, hook_tx := none, hook_thread := .installing },
        .error ("spawn drain thread: " ++ e))
    | .both =>
      ({ self with
        running := true
        hook_tx := some self.drains.length
        hook_thread := .installing
        drains := self.drains ++ [⟨sink, [], .empty, true⟩] }, .ok ())

/-- The hooks are installed; `none` when no hook thread is at that. -/
def hooks_installed (self : WindowsCapture) : Option WindowsCapture :=
  match self.hook_thread with
  | .installing => some { self with hook_thread := .pumping }
  | _ => none

/-- A hook could not be installed. -/
def hooks_failed (self : WindowsCapture) : Option WindowsCapture :=
  match self.hook_thread with
  | .installing => some { self with hook_thread := .failed, running := false }
  | _ => none

/-- A hook is called. What it pushes is lost when the queue is full or its
drain thread has gone. -/
def hook (self : WindowsCapture) (call : HookCall) : Option WindowsCapture :=
  match self.hook_thread with
  | .pumping =>
    match call.event, self.hook_tx.bind (fun w => (self.drains[w]?).map (fun d => (w, d))) with
    | some ev, some (w, d) =>
      if d.up then
        some { self with
          drains := self.drains.set w { d with queue := (try_push d.queue ev).getD d.queue } }
      else some self
    | _, _ => some self
  | _ => none

/-- A drain thread takes a raw event: what it hands to its sink, if anything,
with the session of that. -/
def drain (self : WindowsCapture) (w : Nat) : Option (WindowsCapture × Option (Nat × InputEvent)) :=
  match self.drains[w]? with
  | some ⟨sink, raw :: queue, mods, true⟩ =>
    let r := drain_raw mods self.capturing raw
    some ({ self with drains := self.drains.set w ⟨sink, queue, r.1, true⟩ },
      r.2.map (fun event => (sink, event)))
  | _ => none

/-- A drain thread returns: `running` is off, or its queue is empty and has no
sender. -/
def drain_exit (self : WindowsCapture) (w : Nat) : Option WindowsCapture :=
  match self.drains[w]? with
  | some d =>
    if d.up ∧ (self.running = false ∨ (self.hook_tx ≠ some w ∧ d.queue = [])) then
      some { self with drains := self.drains.set w { d with up := false } }
    else none
  | none => none

end WindowsCapture

/-- What the capture's threads do between a start and the next, other than
draining. -/
inductive CaptureStep
  | hooks_installed
  | hooks_failed
  | hook (call : HookCall)
  | drain_exit (thread : Nat)

namespace WindowsCapture

/-- One step of one of its threads. -/
def step (self : WindowsCapture) : CaptureStep → Option WindowsCapture
  | .hooks_installed => self.hooks_installed
  | .hooks_failed => self.hooks_failed
  | .hook call => self.hook call
  | .drain_exit w => self.drain_exit w

/-! ## Which drain thread the hooks feed

There may be several drain threads, one for each start that was not turned away, but the
hooks have one sender. Which thread has its receiver is what decides where input goes. -/

/-- The hooks feed the drain thread, or will once they are installed. -/
def Fed (self : WindowsCapture) (w : Nat) : Prop :=
  self.hook_tx = some w ∧ (self.hook_thread = .installing ∨ self.hook_thread = .pumping)

/-- What holds of the object whatever is called: hooks that are up or coming
belong to a running capture, and a queue with something in it is the one they
feed. -/
structure Coherent (capture : WindowsCapture) : Prop where
  running : capture.hook_thread = .installing ∨ capture.hook_thread = .pumping →
    capture.running = true
  queued : ∀ w d, capture.drains[w]? = some d → d.queue ≠ [] →
    capture.hook_tx = some w ∧ capture.hook_thread = .pumping

/-- A queue with something in it is the one the hooks feed, so an old drain thread
cannot surprise anyone with what it still has. -/
theorem Coherent.fed_of_queued {capture : WindowsCapture} (h : capture.Coherent) {w : Nat}
    {d : DrainThread} (hd : capture.drains[w]? = some d) (hq : d.queue ≠ []) : capture.Fed w :=
  ⟨(h.queued w d hd hq).1, .inr (h.queued w d hd hq).2⟩

/-- The object as it is made. -/
theorem coherent_new : new.Coherent where
  running := by
    rintro (h | h) <;> cases h
  queued := by
    rintro _ _ ⟨⟩

/-- A capture that is not running has nothing in its queues. -/
theorem Coherent.idle {capture : WindowsCapture} (h : capture.Coherent)
    (hr : capture.running = false) {w : Nat} {d : DrainThread}
    (hd : capture.drains[w]? = some d) : d.queue = [] := by
  by_contra hq
  have hrun := h.running (.inr (h.queued w d hd hq).2)
  rw [hr] at hrun
  cases hrun

/-- A start that is turned away does nothing at all, the sink it was given included. -/
theorem start_running (self : WindowsCapture) (sink : Nat) (spawned : Spawned)
    (h : self.running = true) : (self.start sink spawned).1 = self := by
  unfold start
  rw [if_pos h]

/-- A start of a capture that is not running. -/
theorem start_both (self : WindowsCapture) (sink : Nat) (h : self.running = false) :
    (self.start sink .both).1 = { self with
      running := true
      hook_tx := some self.drains.length
      hook_thread := .installing
      drains := self.drains ++ [⟨sink, [], .empty, true⟩] } := by
  unfold start
  rw [if_neg (by rw [h]; decide)]

/-- One of a capture that cannot spawn its threads leaves nobody at the
queue. -/
theorem start_not_both (self : WindowsCapture) (sink : Nat) (spawned : Spawned)
    (h : self.running = false) (hs : spawned ≠ .both) :
    ∃ hook_thread, (self.start sink spawned).1
      = { self with running := true, hook_tx := none, hook_thread } := by
  unfold start
  rw [if_neg (by rw [h]; decide)]
  cases spawned with
  | both => exact absurd rfl hs
  | no_hook_thread e => exact ⟨self.hook_thread, rfl⟩
  | no_drain_thread e => exact ⟨.installing, rfl⟩

/-- A start leaves the flags of `set_capturing`. -/
theorem start_flags (self : WindowsCapture) (sink : Nat) (spawned : Spawned) :
    (self.start sink spawned).1.capturing = self.capturing ∧
      (self.start sink spawned).1.hook_capturing = self.hook_capturing := by
  unfold start
  split
  · exact ⟨rfl, rfl⟩
  · cases spawned <;> exact ⟨rfl, rfl⟩

/-- A start leaves the object coherent, whichever threads it gets to spawn: where it
puts a new queue behind the hooks, it runs and no old queue has anything in it. -/
theorem start_coherent {self : WindowsCapture} (h : self.Coherent) (sink : Nat)
    (spawned : Spawned) : (self.start sink spawned).1.Coherent := by
  by_cases hr : self.running = true
  · rw [start_running self sink spawned hr]
    exact h
  · rw [Bool.not_eq_true] at hr
    by_cases hs : spawned = .both
    · subst hs
      rw [start_both self sink hr]
      refine ⟨fun _ => rfl, ?_⟩
      intro w d hd hq
      -- the old queues are empty, and so is the new one
      rw [List.getElem?_append] at hd
      split_ifs at hd
      · exact absurd (h.idle hr hd) hq
      · rw [List.getElem?_singleton] at hd
        split_ifs at hd
        cases hd
        exact absurd rfl hq
    · obtain ⟨hook_thread, heq⟩ := start_not_both self sink spawned hr hs
      rw [heq]
      refine ⟨fun _ => rfl, ?_⟩
      intro w d hd hq
      exact absurd (h.idle hr hd) hq

/-- The hook thread gets its hooks. The inversions of this group are what a step of each
thread requires and leaves. -/
theorem hooks_installed_eq_some {self next : WindowsCapture}
    (h : self.hooks_installed = some next) :
    self.hook_thread = .installing ∧ next = { self with hook_thread := .pumping } := by
  unfold hooks_installed at h
  split at h
  · rename_i hthread
    exact ⟨hthread, (Option.some.inj h).symm⟩
  · cases h

/-- Or it does not, and clears `running`, so that a later start is not turned away. -/
theorem hooks_failed_eq_some {self next : WindowsCapture} (h : self.hooks_failed = some next) :
    self.hook_thread = .installing ∧
      next = { self with hook_thread := .failed, running := false } := by
  unfold hooks_failed at h
  split at h
  · rename_i hthread
    exact ⟨hthread, (Option.some.inj h).symm⟩
  · cases h

/-- A hook call puts an event into the queue it feeds, or does nothing. -/
theorem hook_eq_some {self next : WindowsCapture} {call : HookCall}
    (h : self.hook call = some next) :
    self.hook_thread = .pumping ∧ (next = self ∨ ∃ w d ev, call.event = some ev ∧
      self.hook_tx = some w ∧ self.drains[w]? = some d ∧ d.up = true ∧
      next = { self with
        drains := self.drains.set w { d with queue := (try_push d.queue ev).getD d.queue } }) := by
  unfold hook at h
  split at h
  · rename_i hthread
    refine ⟨hthread, ?_⟩
    split at h
    · rename_i ev w d hev htx
      obtain ⟨w', hw', hmap⟩ := Option.bind_eq_some_iff.mp htx
      obtain ⟨d', hd', hpair⟩ := Option.map_eq_some_iff.mp hmap
      obtain ⟨rfl, rfl⟩ := Prod.mk.inj hpair
      split_ifs at h with hup
      · exact .inr ⟨w', d', ev, hev, hw', hd', hup, (Option.some.inj h).symm⟩
      · exact .inl (Option.some.inj h).symm
    · exact .inl (Option.some.inj h).symm
  · cases h

/-- A drain thread that is up takes the head of its queue, notes modifiers in its own
snapshot, and may have something for its own sink. It never looks at which session is
the current one. -/
theorem drain_eq_some {self next : WindowsCapture} {w : Nat} {out : Option (Nat × InputEvent)}
    (h : self.drain w = some (next, out)) :
    ∃ d raw queue, self.drains[w]? = some d ∧ d.queue = raw :: queue ∧ d.up = true ∧
      next = { self with
        drains := self.drains.set w
          { d with queue, mods := (drain_raw d.mods self.capturing raw).1 } } ∧
      out = (drain_raw d.mods self.capturing raw).2.map (fun event => (d.sink, event)) := by
  unfold drain at h
  split at h
  · rename_i sink raw queue mods hd
    obtain ⟨rfl, rfl⟩ := Prod.mk.inj (Option.some.inj h)
    exact ⟨_, raw, queue, hd, rfl, rfl, rfl, rfl⟩
  · cases h

/-- A drain thread returns, and nothing else changes. -/
theorem drain_exit_eq_some {self next : WindowsCapture} {w : Nat}
    (h : self.drain_exit w = some next) :
    ∃ d, self.drains[w]? = some d ∧
      next = { self with drains := self.drains.set w { d with up := false } } := by
  unfold drain_exit at h
  split at h
  · rename_i d hd
    split_ifs at h
    exact ⟨d, hd, (Option.some.inj h).symm⟩
  · cases h

/-- Changing a drain thread that has nothing new in its queue, or is the one
the hooks feed. -/
theorem Coherent.set {capture : WindowsCapture} (h : capture.Coherent) {w : Nat}
    {d d' : DrainThread} (hd : capture.drains[w]? = some d)
    (hq : d'.queue ≠ [] →
      d.queue ≠ [] ∨ (capture.hook_tx = some w ∧ capture.hook_thread = .pumping)) :
    ({ capture with drains := capture.drains.set w d' } : WindowsCapture).Coherent where
  running := h.running
  queued := by
    intro w' d'' hd'' hq''
    rw [List.getElem?_set] at hd''
    split_ifs at hd'' with heq hlt
    · cases hd''
      subst heq
      rcases hq hq'' with hold | hfed
      · exact h.queued _ d hd hold
      · exact hfed
    · exact h.queued w' d'' hd'' hq''

/-- The threads leave the flags of `set_capturing`. -/
theorem step_flags {self next : WindowsCapture} {a : CaptureStep} (h : self.step a = some next) :
    next.capturing = self.capturing ∧ next.hook_capturing = self.hook_capturing := by
  cases a with
  | hooks_installed =>
      obtain ⟨-, rfl⟩ := hooks_installed_eq_some h
      exact ⟨rfl, rfl⟩
  | hooks_failed =>
      obtain ⟨-, rfl⟩ := hooks_failed_eq_some h
      exact ⟨rfl, rfl⟩
  | hook call =>
      obtain ⟨-, rfl | ⟨w, d, ev, -, -, -, -, rfl⟩⟩ := hook_eq_some h
      · exact ⟨rfl, rfl⟩
      · exact ⟨rfl, rfl⟩
  | drain_exit w =>
      obtain ⟨d, -, rfl⟩ := drain_exit_eq_some h
      exact ⟨rfl, rfl⟩

/-- Every step of a thread keeps the object coherent, -/
theorem step_coherent {self next : WindowsCapture} {a : CaptureStep} (hco : self.Coherent)
    (h : self.step a = some next) : next.Coherent := by
  cases a with
  | hooks_installed =>
      obtain ⟨hthread, rfl⟩ := hooks_installed_eq_some h
      refine ⟨fun _ => hco.running (.inl hthread), ?_⟩
      intro w d hd hq
      exact ⟨(hco.queued w d hd hq).1, rfl⟩
  | hooks_failed =>
      obtain ⟨hthread, rfl⟩ := hooks_failed_eq_some h
      constructor
      · rintro (hthread' | hthread')
        · cases hthread'
        · cases hthread'
      intro w d hd hq
      -- nothing was queued before the hooks were up
      have hpumping := (hco.queued w d hd hq).2
      rw [hthread] at hpumping
      cases hpumping
  | hook call =>
      obtain ⟨hthread, rfl | ⟨w, d, ev, -, htx, hd, -, rfl⟩⟩ := hook_eq_some h
      · exact hco
      · exact hco.set hd (fun _ => .inr ⟨htx, hthread⟩)
  | drain_exit w =>
      obtain ⟨d, hd, rfl⟩ := drain_exit_eq_some h
      exact hco.set hd .inl

/-- draining included. -/
theorem drain_coherent {self next : WindowsCapture} {w : Nat} {out : Option (Nat × InputEvent)}
    (hco : self.Coherent) (h : self.drain w = some (next, out)) : next.Coherent := by
  obtain ⟨d, raw, queue, hd, hq, -, rfl, -⟩ := drain_eq_some h
  exact hco.set hd (fun _ => .inl (by rw [hq]; exact List.cons_ne_nil _ _))

/-! ## What becomes of the drain threads

A drain thread keeps its sink for life. So the question whose sink gets the events is
decided at a start, and these lemmas say that nothing else decides it. -/

/-- Every thread there is was there before, with its sink, and was up if it
is. -/
def Kept (before after : List DrainThread) : Prop :=
  ∀ (w : Nat) (d : DrainThread), after[w]? = some d →
    ∃ d', before[w]? = some d' ∧ d'.sink = d.sink ∧ (d.up = true → d'.up = true)

/-- Threads are kept by a step that does not touch them, -/
theorem kept_refl (drains : List DrainThread) : Kept drains drains := by
  intro w d hd
  exact ⟨d, hd, rfl, id⟩

/-- and by one that changes a thread other than its sink and does not revive it. -/
theorem kept_set {drains : List DrainThread} {w : Nat} {d d' : DrainThread}
    (hd : drains[w]? = some d) (hsink : d'.sink = d.sink) (hup : d'.up = true → d.up = true) :
    Kept drains (drains.set w d') := by
  intro w' e he
  rw [List.getElem?_set] at he
  split_ifs at he with heq hlt
  · cases he
    subst heq
    exact ⟨d, hd, hsink.symm, hup⟩
  · exact ⟨e, he, rfl, id⟩

/-- No step of a thread gives a drain thread another sink or brings one back. -/
theorem step_kept {self next : WindowsCapture} {a : CaptureStep} (h : self.step a = some next) :
    Kept self.drains next.drains := by
  cases a with
  | hooks_installed =>
      obtain ⟨-, rfl⟩ := hooks_installed_eq_some h
      exact kept_refl _
  | hooks_failed =>
      obtain ⟨-, rfl⟩ := hooks_failed_eq_some h
      exact kept_refl _
  | hook call =>
      obtain ⟨-, rfl | ⟨w, d, ev, -, -, hd, -, rfl⟩⟩ := hook_eq_some h
      · exact kept_refl _
      · exact kept_set hd rfl id
  | drain_exit w =>
      obtain ⟨d, hd, rfl⟩ := drain_exit_eq_some h
      refine kept_set hd rfl ?_
      rintro ⟨⟩

/-- Nor does draining. -/
theorem drain_kept {self next : WindowsCapture} {w : Nat} {out : Option (Nat × InputEvent)}
    (h : self.drain w = some (next, out)) : Kept self.drains next.drains := by
  obtain ⟨d, raw, queue, hd, -, -, rfl, -⟩ := drain_eq_some h
  exact kept_set hd rfl id

/-- A start leaves the threads there are, and any it adds has its sink. -/
theorem start_drains {self : WindowsCapture} {sink : Nat} {spawned : Spawned} {w : Nat}
    {d : DrainThread} (hd : (self.start sink spawned).1.drains[w]? = some d) :
    self.drains[w]? = some d ∨ d.sink = sink := by
  unfold start at hd
  split at hd
  · exact .inl hd
  · cases spawned with
    | no_hook_thread e => exact .inl hd
    | no_drain_thread e => exact .inl hd
    | both =>
        rw [List.getElem?_append] at hd
        split_ifs at hd
        · exact .inl hd
        · rw [List.getElem?_singleton] at hd
          split_ifs at hd
          cases hd
          exact .inr rfl

/-- After a start that was not turned away the hooks feed the sink it was
given, or none. -/
theorem start_fed {self : WindowsCapture} {sink : Nat} {spawned : Spawned} {w : Nat}
    {d : DrainThread} (hr : self.running = false)
    (hd : (self.start sink spawned).1.drains[w]? = some d)
    (hfed : (self.start sink spawned).1.Fed w) : d.sink = sink := by
  by_cases hs : spawned = .both
  · subst hs
    rw [start_both self sink hr] at hd hfed
    obtain rfl : self.drains.length = w := Option.some.inj hfed.1
    rw [List.getElem?_concat_length] at hd
    cases hd
    rfl
  · -- nobody has the receiver
    obtain ⟨hook_thread, heq⟩ := start_not_both self sink spawned hr hs
    rw [heq] at hfed
    cases hfed.1

/-- Nothing a thread does makes the hooks feed another one. -/
theorem step_fed {self next : WindowsCapture} {a : CaptureStep} (h : self.step a = some next)
    {w : Nat} (hfed : next.Fed w) : self.Fed w := by
  cases a with
  | hooks_installed =>
      obtain ⟨hthread, rfl⟩ := hooks_installed_eq_some h
      exact ⟨hfed.1, .inl hthread⟩
  | hooks_failed =>
      obtain ⟨hthread, rfl⟩ := hooks_failed_eq_some h
      exact ⟨hfed.1, .inl hthread⟩
  | hook call =>
      obtain ⟨-, rfl | ⟨w, d, ev, -, -, -, -, rfl⟩⟩ := hook_eq_some h
      · exact hfed
      · exact hfed
  | drain_exit w =>
      obtain ⟨d, -, rfl⟩ := drain_exit_eq_some h
      exact hfed

/-- A start is turned away, now and for good: the capture runs, and its hooks
are past the point where they can fail. -/
def Busy (self : WindowsCapture) : Prop :=
  self.running = true ∧ self.hook_thread ≠ .installing

/-- Once a start is turned away it always will be: the hooks are past the only point at
which they can fail, and nothing calls `stop`. -/
theorem step_busy {self next : WindowsCapture} {a : CaptureStep} (h : self.step a = some next)
    (hbusy : self.Busy) : next.Busy := by
  cases a with
  | hooks_installed =>
      obtain ⟨hthread, rfl⟩ := hooks_installed_eq_some h
      exact absurd hthread hbusy.2
  | hooks_failed =>
      obtain ⟨hthread, rfl⟩ := hooks_failed_eq_some h
      exact absurd hthread hbusy.2
  | hook call =>
      obtain ⟨-, rfl | ⟨w, d, ev, -, -, -, -, rfl⟩⟩ := hook_eq_some h
      · exact hbusy
      · exact hbusy
  | drain_exit w =>
      obtain ⟨d, -, rfl⟩ := drain_exit_eq_some h
      exact hbusy

end WindowsCapture

end InputSync
