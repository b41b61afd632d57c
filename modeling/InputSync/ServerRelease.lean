/-
Whether a control request releases the keyboard.

Three things hold the keyboard: the two flags of the capture object, and a
drain loop that is on its way to setting them, having decided to enter a
remote screen and not yet made its calls. `StopServer` and `EmergencyStop`
touch none of the three; what they clear is a field of the daemon's own state.
So a request finds the keyboard released or leaves it held
(`released_iff`).
-/
import InputSync.ServerDaemon

set_option autoImplicit false

namespace InputSync

/-! ## A drain loop on its way to capturing

A call of `set_capturing` may be decided and not made yet. -/

/-- The drain loop has decided to enter a screen, or has the call that follows
from it before it. -/
def Tasks.Entering (self : Tasks) : Prop :=
  match self.drain with
  | .recv => False
  | .decided decision _ => ∃ screen entry warp m, decision = .EnterRemote screen entry warp m
  | .acting actions _ => .set_capturing true ∈ actions

namespace Tasks

/-- The event makes the drain loop enter a screen. -/
def Enters (self : Tasks) (event : InputEvent) : Prop :=
  is_emergency event = false ∧ ∃ screen entry warp m,
    (self.server.edge.observe event).2.1 = .EnterRemote screen entry warp m

/-- Only receiving such an event sets the drain loop on its way. -/
theorem recv_entering {self next : Tasks} {event : InputEvent}
    (h : self.step (.recv event) = some next) :
    (next.Entering ↔ self.Enters event) ∧ next.server.capturing = self.server.capturing := by
  unfold Enters
  rcases step_recv h with ⟨hem, rfl⟩ | ⟨hem, rfl⟩
  · refine ⟨iff_of_false ?_ ?_, rfl⟩
    · rintro ⟨screen, entry, warp, m, hd⟩
      unfold EdgeDetector.force_local at hd
      split at hd <;> cases hd
    · rintro ⟨hno, -⟩
      rw [hem] at hno
      cases hno
  · refine ⟨?_, rfl⟩
    simp only [Entering]
    rw [Bool.not_eq_true] at hem
    simp [hem]

/-- A loop that is not on its way does not set the flag, and no other step puts
it there. -/
theorem step_not_entering {self next : Tasks} {a : TaskStep} (h : self.step a = some next)
    (hrecv : ∀ event, a ≠ .recv event) (hno : ¬ self.Entering) :
    ¬ next.Entering ∧ (next.server.capturing = true → self.server.capturing = true) := by
  cases a with
  | recv event => exact absurd rfl (hrecv event)
  | lock_peers accepts =>
      obtain ⟨decision, after, hpc, rfl⟩ := step_lock_peers h
      simp only [Entering, hpc] at hno
      exact ⟨fun hmem => hno (mem_set_capturing _ _ _ hmem), id⟩
  | act =>
      obtain ⟨b, rest, after, hpc, rfl⟩ := step_act h
      simp only [Entering, hpc] at hno
      refine ⟨fun hmem => hno (List.mem_cons_of_mem b hmem), ?_⟩
      intro hcap
      -- the one call that sets the flag is not among the pending ones
      cases b with
      | send peer msg => exact hcap
      | warp_cursor pos => exact hcap
      | set_capturing on =>
          have hon : on = true := hcap
          subst hon
          exact absurd List.mem_cons_self hno
  | finish accepts =>
      obtain ⟨hpc, -, -, hcap⟩ := step_finish h
      unfold Entering
      rw [hpc, hcap]
      exact ⟨id, id⟩
  | connected handle | set_auto | disconnected peer_id | check_empty | clear_auto =>
      obtain ⟨peers, auto_peer, handler, rfl⟩ := step_handler rfl h
      exact ⟨hno, id⟩

end Tasks

/-! ## Releasing

From a state in which nothing holds it, the flags stay off. -/

/-- The session is about to switch capturing on. -/
def SessionRun.Holding (r : SessionRun) : Prop := r.hook_store = some true ∨ r.tasks.Entering

namespace ServerDaemon

/-- The capture's flags are off, and so no hook call swallows anything. -/
def Released (self : ServerDaemon) : Prop :=
  self.capture.capturing = false ∧ self.capture.hook_capturing = false ∧
    ∀ call : HookCall, (call.proc self.capture.hook_capturing).2 = true

/-- The cursor crosses an edge: a session's drain loop receives an event that
makes it enter a screen. -/
def Crosses (self : ServerDaemon) : DaemonStep → Prop
  | .recv session => ∃ r n event channel, self.sessions[session]? = some r ∧
      r.channel = (n, event) :: channel ∧ r.tasks.Enters event
  | _ => False

/-- Neither a `StartServer` nor a crossing. -/
def Calm (self : ServerDaemon) (a : DaemonStep) : Prop :=
  ¬ self.Crosses a ∧ ∀ env, a ≠ .request .StartServer env

/-- Nothing holds the keyboard. -/
structure Unheld (daemon : ServerDaemon) : Prop where
  capturing : daemon.capture.capturing = false
  hook_capturing : daemon.capture.hook_capturing = false
  sessions : ∀ r ∈ daemon.sessions, ¬ r.Holding

/-- Where nothing is on its way to switching the capture on, it is released. -/
theorem Unheld.released {self : ServerDaemon} (h : self.Unheld) : self.Released := by
  refine ⟨h.capturing, h.hook_capturing, ?_⟩
  intro call
  rw [h.hook_capturing]
  exact call.proc_passes

/-- Both requests are always answered `Ok`. -/
theorem stop_answers_ok (state : DaemonState) (session : Nat)
    (bind : Except String (Option String)) (req : ServerRequest) (hreq : req ≠ .StartServer) :
    (state.handle_request session bind req).2 = .Ok := by
  cases req with
  | StartServer => exact absurd rfl hreq
  | StopServer => rfl
  | EmergencyStop => rfl

/-- One session changes, to one that does not hold the keyboard. -/
theorem set_not_holding {sessions : List SessionRun} (h : ∀ r ∈ sessions, ¬ r.Holding)
    (session : Nat) {r : SessionRun} (hr : ¬ r.Holding) :
    ∀ r' ∈ sessions.set session r, ¬ r'.Holding := by
  intro r' hr'
  rcases List.mem_or_eq_of_mem_set hr' with hold | rfl
  · exact h r' hold
  · exact hr

/-- A step of a session that does not hold the keyboard leaves the flag off and
the session as it was in that. -/
theorem task_not_holding {r : SessionRun} {a : TaskStep} {tasks : Tasks} (hold : ¬ r.Holding)
    (hrecv : ∀ event, a ≠ .recv event) (h : (r.tasks.load false).step a = some tasks) :
    tasks.server.capturing = false ∧
      ¬ SessionRun.Holding { r with tasks, hook_store := stores r a } := by
  obtain ⟨hno, hflag⟩ := Tasks.step_not_entering h hrecv (fun he => hold (.inr he))
  constructor
  · rw [Bool.eq_false_iff]
    intro hon
    cases hflag hon
  · rintro (hstore | henter)
    · unfold stores at hstore
      split at hstore
      · -- the call was before the loop already
        rename_i on rest after hdrain
        cases hstore
        exact hold (.inr (by simp [Tasks.Entering, hdrain]))
      · exact hold (.inl hstore)
    · exact hno henter

/-- **A calm step.** What is not held stays so. -/
theorem step_unheld (self next : ServerDaemon) (a : DaemonStep) (hu : self.Unheld)
    (hcalm : self.Calm a) (h : self.step a = some next) : next.Unheld := by
  obtain ⟨hcap, hhook, hsessions⟩ := hu
  cases a with
  | request req env =>
      obtain ⟨hc, hs, -⟩ := step_stop (by rintro rfl; exact hcalm.2 env rfl) h
      exact ⟨by rw [hc]; exact hcap, by rw [hc]; exact hhook, by rw [hs]; exact hsessions⟩
  | fan_out event =>
      obtain rfl := Option.some.inj h
      exact ⟨hcap, hhook, hsessions⟩
  | capture_start session spawned =>
      obtain ⟨r, hr, -, rfl⟩ := step_capture_start h
      obtain ⟨hc, hh⟩ := self.capture.start_flags session spawned
      -- a start leaves the flags, and pending starts hold nothing
      have hold : ¬ SessionRun.Holding { r with starting := false } :=
        hsessions r (List.mem_of_getElem? hr)
      exact ⟨hc.trans hcap, hh.trans hhook, set_not_holding hsessions session hold⟩
  | capture a =>
      obtain ⟨capture, hc, rfl⟩ := step_capture h
      obtain ⟨hflag, hhookflag⟩ := WindowsCapture.step_flags hc
      exact ⟨hflag.trans hcap, hhookflag.trans hhook, hsessions⟩
  | drain w =>
      obtain ⟨capture, out, hdrain, rfl⟩ := step_drain h
      obtain ⟨d, raw, queue, -, -, -, rfl, -⟩ := WindowsCapture.drain_eq_some hdrain
      cases out with
      | none => exact ⟨hcap, hhook, hsessions⟩
      | some out =>
          rcases self.hand_some _ out.1 out.2 with heq | ⟨r, hr, heq⟩
          · rw [heq]
            exact ⟨hcap, hhook, hsessions⟩
          · rw [heq]
            have hold : ¬ SessionRun.Holding
                { r with channel := r.channel ++ [(self.handed.length, out.2)] } :=
              hsessions r (List.mem_of_getElem? hr)
            exact ⟨hcap, hhook, set_not_holding hsessions _ hold⟩
  | recv session =>
      obtain ⟨r, n, event, channel, tasks, hr, hchannel, htasks, rfl⟩ := step_recv h
      -- the event is not one that crosses
      have hno : ¬ tasks.Entering := by
        rw [(Tasks.recv_entering htasks).1]
        exact fun henters => hcalm.1 ⟨r, n, event, channel, hr, hchannel, henters⟩
      refine ⟨hcap, hhook, set_not_holding hsessions session ?_⟩
      rintro (hstore | henter)
      · exact hsessions r (List.mem_of_getElem? hr) (.inl hstore)
      · exact hno henter
  | task session a =>
      obtain ⟨hrecv, r, tasks, hr, htasks, rfl⟩ := step_task h
      rw [hcap] at htasks
      obtain ⟨hoff, hnot⟩ := task_not_holding (hsessions r (List.mem_of_getElem? hr)) hrecv htasks
      exact ⟨hoff, hhook, set_not_holding hsessions session hnot⟩
  | store_hook session =>
      obtain ⟨r, on, hr, hstore, rfl⟩ := step_store_hook h
      have hold := hsessions r (List.mem_of_getElem? hr)
      have hoff : on = false := by
        rw [Bool.eq_false_iff]
        rintro rfl
        exact hold (.inl hstore)
      refine ⟨hcap, hoff, set_not_holding hsessions session ?_⟩
      rintro (hstore' | henter)
      · cases hstore'
      · exact hold (.inr henter)

/-! ## Holding on

And from any other a run is shown in which they come on again. -/

/-- Its own steps between two receives are calm. -/
theorem LoopStep.calm {self : ServerDaemon} {session : Nat} {a : DaemonStep}
    (h : LoopStep session a) : self.Calm a := by
  cases a with
  | task j b => exact ⟨id, fun _ => by simp⟩
  | store_hook j => exact ⟨id, fun _ => by simp⟩
  | request _ _ | fan_out _ | capture_start _ _ | capture _ | drain _ | recv _ => exact h.elim

/-- A drain loop with a `set_capturing(true)` among its calls makes it, with no
help from outside. -/
theorem acting_holds {self : ServerDaemon} {session : Nat} {r : SessionRun}
    {actions : List Action} {after : Option (InputEvent × ForwardTo)}
    (hr : self.sessions[session]? = some r) (hdrain : r.tasks.drain = .acting actions after)
    (hmem : .set_capturing true ∈ actions) :
    ∃ t, Reaches step (fun _ => LoopStep session) self t ∧ t.capture.capturing = true := by
  obtain ⟨pre, rest, rfl⟩ := List.mem_iff_append.mp hmem
  -- the calls before it, and what the last of them still owes
  obtain ⟨there, r', hthere, hr', hdrain'⟩ := acts_until pre _ hr hdrain
  obtain ⟨ready, hready, hr'', -⟩ := store_owed hr'
  have hact : (r'.tasks.load ready.capture.capturing).step .act = some
      { r'.tasks.load ready.capture.capturing with
        server := (r'.tasks.load ready.capture.capturing).server.act [.set_capturing true]
        drain := .acting rest after
        actions := r'.tasks.actions ++ [.set_capturing true] } := by
    simp only [Tasks.step, Tasks.load, hdrain']
  obtain ⟨t, hstep, -, hflag⟩ := task_steps hr'' (by simp) hact
  exact ⟨t, (hthere.trans hready).trans (.head (.task session _) rfl hstep (.refl step _ t)), hflag⟩

/-- One that has decided to enter a screen gets there first. -/
theorem entering_holds {self : ServerDaemon} {session : Nat} {r : SessionRun}
    (hr : self.sessions[session]? = some r) (henter : r.tasks.Entering) :
    ∃ t, Reaches step (fun _ => LoopStep session) self t ∧ t.capture.capturing = true := by
  unfold Tasks.Entering at henter
  cases hdrain : r.tasks.drain with
  | recv =>
      rw [hdrain] at henter
      exact henter.elim
  | acting actions after =>
      rw [hdrain] at henter
      exact acting_holds hr hdrain henter
  | decided decision after =>
      rw [hdrain] at henter
      obtain ⟨screen, entry, warp, m, rfl⟩ := henter
      obtain ⟨there, r', hthere, hr', hdrain'⟩ := locks_peers hr hdrain
      obtain ⟨t, ht, hon⟩ := acting_holds hr' hdrain' (by simp [apply_decision])
      exact ⟨t, hthere.trans ht, hon⟩

/-- A session that holds the keyboard does switch a flag on. -/
theorem holding_holds {self : ServerDaemon} {session : Nat} {r : SessionRun}
    (hr : self.sessions[session]? = some r) (hhold : r.Holding) :
    ∃ t, Reaches step Calm self t ∧ ¬ t.Released := by
  rcases hhold with howed | henter
  · obtain ⟨t, ht, -, hon⟩ := store_owed hr
    refine ⟨t, ht.mono (fun _ _ => LoopStep.calm), ?_⟩
    rintro ⟨-, hoff, -⟩
    rw [hon howed] at hoff
    cases hoff
  · obtain ⟨t, ht, hon⟩ := entering_holds hr henter
    refine ⟨t, ht.mono (fun _ _ => LoopStep.calm), ?_⟩
    rintro ⟨hoff, -, -⟩
    rw [hon] at hoff
    cases hoff

/-- What is released for good is held by nothing. -/
theorem unheld_of_released {self : ServerDaemon}
    (h : ∀ t, Reaches step Calm self t → t.Released) : self.Unheld := by
  obtain ⟨hcap, hhook, -⟩ := h self (.refl step Calm self)
  refine ⟨hcap, hhook, ?_⟩
  intro r hr hhold
  obtain ⟨session, hsession⟩ := List.mem_iff_getElem?.mp hr
  obtain ⟨t, ht, hno⟩ := holding_holds hsession hhold
  exact hno (h t ht)

/-- `StopServer` and `EmergencyStop` leave what holds the keyboard. -/
theorem stop_unheld {self next : ServerDaemon} {req : ServerRequest} {env : Surroundings}
    (hreq : req ≠ .StartServer) (h : self.step (.request req env) = some next) :
    next.Unheld ↔ self.Unheld := by
  obtain ⟨hc, hs, -⟩ := step_stop hreq h
  constructor
  · rintro ⟨hcap, hhook, hsessions⟩
    exact ⟨hc ▸ hcap, hc ▸ hhook, hs ▸ hsessions⟩
  · rintro ⟨hcap, hhook, hsessions⟩
    exact ⟨hc ▸ hcap, hc ▸ hhook, hs ▸ hsessions⟩

/-- **When a control request releases the keyboard.** A `StopServer` or an
`EmergencyStop` is answered `Ok`. From then on the capture's flags are off, and
stay off until a start or a crossing, if and only if nothing held the keyboard
when the request came. -/
theorem released_iff (self next : ServerDaemon) (req : ServerRequest) (env : Surroundings)
    (hreq : req ≠ .StartServer) (h : self.step (.request req env) = some next) :
    (self.state.handle_request self.sessions.length env.bind req).2 = .Ok ∧
      ((∀ t, Reaches step Calm next t → t.Released) ↔ self.Unheld) := by
  refine ⟨stop_answers_ok _ _ _ req hreq, ?_⟩
  rw [← stop_unheld hreq h]
  constructor
  · exact unheld_of_released
  · intro hu t ht
    exact (ht.invariant Unheld hu step_unheld).released

/-- The equivalence for a server that was started and is stopped with the cursor
still at home. -/
theorem released_iff_at_home :
    let env : Surroundings := ⟨.ok none, none⟩
    ∃ self next : ServerDaemon,
      exec step (new .default) [.request .StartServer env, .capture_start 0 .both,
        .capture .hooks_installed] = some self ∧
      self.step (.request .StopServer env) = some next ∧
      (self.state.handle_request self.sessions.length env.bind .StopServer).2 = .Ok ∧
      ((∀ t, Reaches step Calm next t → t.Released) ↔ self.Unheld) :=
  ⟨_, _, rfl, rfl, released_iff _ _ .StopServer ⟨.ok none, none⟩ (by decide) rfl⟩

/-- **A stop that releases nothing.** A client is connected and the cursor has
crossed to it. `StopServer` is answered `Ok`, and the capture goes on: the next
key is still kept from the local system. -/
theorem stop_keeps_capturing :
    let env : Surroundings := ⟨.ok none, none⟩
    ∃ self next : ServerDaemon,
      exec step (new .default) [.request .StartServer env, .capture_start 0 .both,
        .capture .hooks_installed, .task 0 (.connected ⟨⟨Vector.replicate 16 7⟩, 0⟩),
        .task 0 .set_auto, .capture (.hook (.mouse 0 WM_MOUSEMOVE ⟨⟨0, 300⟩, 0⟩)), .drain 0, .recv 0,
        .task 0 (.lock_peers (fun _ => true)), .task 0 .act, .task 0 .act, .task 0 .act,
        .store_hook 0, .task 0 (.finish (fun _ => true))] = some self ∧
      (self.state.handle_request 1 env.bind .StopServer).2 = .Ok ∧
      self.step (.request .StopServer env) = some next ∧ ¬ next.Released ∧
      ((HookCall.keyboard 0 WM_KEYDOWN ⟨0x41, 0⟩).proc next.capture.hook_capturing).2 = false := by
  refine ⟨_, _, rfl, rfl, rfl, ?_, rfl⟩
  rintro ⟨hoff, -, -⟩
  cases hoff

end ServerDaemon

end InputSync
