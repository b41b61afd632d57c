/-
Who observes the input after a restart of the server.

Every `StartServer` asks the one capture object to start, and gives it a sink
of its own. Only a start that finds the capture not running gets its sink
used. `StopServer` does not stop the capture, so after a restart the sink in
use is still the first session's, and the new session's edge detector observes
nothing (`last_start_owns_iff`).

The argument needs little of a daemon's state: the drain threads, and of each
session whether its start is pending and which of the handed-over events it
has. `Change` says what a step does to these, and both invariants below are
checked against that.
-/
import InputSync.ServerDaemon

set_option autoImplicit false

namespace InputSync

/-! ## What a step does to the sinks

For the question who observes an event, the whole
state of a session comes down to two facts about it, and they are its account. -/

/-- Whether the session's start is pending, and the numbers of the events it
has been given: those its edge detector observed and those that wait. -/
structure Account where
  starting : Bool
  taken : List Nat

/-- The account of a session. -/
def SessionRun.account (self : SessionRun) : Account :=
  { starting := self.starting, taken := self.observed ++ self.channel.map (fun e => e.1) }

/-- What a session has taken it has observed, or it waits in its channel. -/
theorem SessionRun.mem_taken (self : SessionRun) (n : Nat) :
    n ∈ self.account.taken ↔ n ∈ self.observed ∨ n ∈ self.channel.map (fun e => e.1) :=
  List.mem_append

namespace ServerDaemon

/-- The accounts of all sessions there have been. -/
def accounts (self : ServerDaemon) : List Account := self.sessions.map SessionRun.account

/-- The account of a session, by its number. -/
theorem accounts_getElem? (self : ServerDaemon) (j : Nat) :
    self.accounts[j]? = (self.sessions[j]?).map SessionRun.account :=
  List.getElem?_map

/-- Two captures that differ in the flags of `set_capturing` only. -/
def SameThreads (before after : WindowsCapture) : Prop :=
  after = { before with capturing := after.capturing, hook_capturing := after.hook_capturing }

/-- What a step does to the drain threads, the accounts and the events handed
over. -/
inductive Change (self next : ServerDaemon) (a : DaemonStep) : Prop
  | none
      (capture : SameThreads self.capture next.capture)
      (accounts : next.accounts = self.accounts)
      (handed : next.handed = self.handed)
  | opened (env : Surroundings)
      (start : a = .request .StartServer env)
      (capture : next.capture = self.capture)
      (accounts : next.accounts = self.accounts ++ [⟨true, []⟩])
      (handed : next.handed = self.handed)
  | started (session : Nat) (spawned : Spawned) (taken : List Nat)
      (account : self.accounts[session]? = some ⟨true, taken⟩)
      (capture : next.capture = (self.capture.start session spawned).1)
      (accounts : next.accounts = self.accounts.set session ⟨false, taken⟩)
      (handed : next.handed = self.handed)
  | ran (b : CaptureStep)
      (capture : self.capture.step b = some next.capture)
      (accounts : next.accounts = self.accounts)
      (handed : next.handed = self.handed)
  | drained (w : Nat)
      (capture : self.capture.drain w = some (next.capture, Option.none))
      (accounts : next.accounts = self.accounts)
      (handed : next.handed = self.handed)
  | refused (w sink : Nat) (event : InputEvent)
      (capture : self.capture.drain w = some (next.capture, some (sink, event)))
      (accounts : next.accounts = self.accounts)
      (handed : next.handed = self.handed ++ [⟨sink, false⟩])
  | delivered (w sink : Nat) (event : InputEvent) (account : Account)
      (capture : self.capture.drain w = some (next.capture, some (sink, event)))
      (account_sink : self.accounts[sink]? = some account)
      (accounts : next.accounts = self.accounts.set sink
        { account with taken := account.taken ++ [self.handed.length] })
      (handed : next.handed = self.handed ++ [⟨sink, true⟩])

/-- One session changes, to one with the same account. -/
theorem set_same_account {sessions : List SessionRun} {session : Nat} {r r' : SessionRun}
    (hr : sessions[session]? = some r) (h : r'.account = r.account) :
    (sessions.set session r').map SessionRun.account = sessions.map SessionRun.account := by
  obtain ⟨hlt, heq⟩ := List.getElem?_eq_some_iff.mp hr
  rw [List.map_set, h, ← heq, ← List.map_set, List.set_getElem_self]

/-- A request answered with a new session. -/
theorem step_opens {self next : ServerDaemon} {req : ServerRequest} {env : Surroundings}
    {factory : ServerFactory} (hstarts : self.starts req env = some factory)
    (h : self.step (.request req env) = some next) :
    req = .StartServer ∧ next.capture = self.capture ∧
      next.accounts = self.accounts ++ [⟨true, []⟩] ∧ next.handed = self.handed := by
  have hreq : req = .StartServer := by
    unfold starts at hstarts
    split_ifs at hstarts with hc
    exact hc.1
  simp only [step, hstarts] at h
  obtain rfl := Option.some.inj h
  refine ⟨hreq, rfl, ?_, rfl⟩
  simp [accounts, spawn_server, SessionRun.account]

/-- What any step does, in the vocabulary of this file. This is the only place that
looks at the daemon's step function and at the tasks of a session; both invariants below
go through the cases of `Change` instead. -/
theorem step_change {self next : ServerDaemon} {a : DaemonStep} (h : self.step a = some next) :
    Change self next a := by
  cases a with
  | request req env =>
      by_cases hstarts : ∃ factory, self.starts req env = some factory
      · obtain ⟨factory, hstarts⟩ := hstarts
        obtain ⟨rfl, hcapture, haccounts, hhanded⟩ := step_opens hstarts h
        exact .opened env rfl hcapture haccounts hhanded
      · -- every other request changes the daemon's own state only
        rw [← Option.isSome_iff_exists, Option.not_isSome_iff_eq_none] at hstarts
        simp only [step, hstarts] at h
        obtain rfl := Option.some.inj h
        exact .none rfl rfl rfl
  | fan_out event =>
      obtain rfl := Option.some.inj h
      exact .none rfl rfl rfl
  | capture_start session spawned =>
      obtain ⟨r, hr, hstarting, rfl⟩ := step_capture_start h
      refine .started session spawned r.account.taken ?_ rfl ?_ rfl
      · rw [accounts_getElem?, hr]
        simp [SessionRun.account, hstarting]
      · simp only [accounts, List.map_set]
        rfl
  | capture b =>
      obtain ⟨capture, hc, rfl⟩ := step_capture h
      exact .ran b hc rfl rfl
  | drain w =>
      obtain ⟨capture, out, hdrain, rfl⟩ := step_drain h
      cases out with
      | none => exact .drained w hdrain rfl rfl
      | some out =>
          obtain ⟨sink, event⟩ := out
          rcases self.hand_some capture sink event with heq | ⟨r, hr, heq⟩
          · rw [heq]
            exact .refused w sink event hdrain rfl rfl
          · rw [heq]
            refine .delivered w sink event r.account hdrain ?_ ?_ rfl
            · rw [accounts_getElem?, hr]
              rfl
            · simp [accounts, List.map_set, SessionRun.account]
  | recv session =>
      obtain ⟨r, n, event, channel, tasks, hr, hchannel, -, rfl⟩ := step_recv h
      refine .none rfl ?_ rfl
      -- the event moves from the channel to the observed
      apply set_same_account hr
      simp [SessionRun.account, hchannel]
  | task session b =>
      obtain ⟨-, r, tasks, hr, -, rfl⟩ := step_task h
      exact .none rfl (set_same_account hr rfl) rfl
  | store_hook session =>
      obtain ⟨r, on, hr, -, rfl⟩ := step_store_hook h
      exact .none rfl (set_same_account hr rfl) rfl

/-! ## Deliveries are booked

Each event that a sink took belongs to one session. This is an invariant of every run,
whatever happened to the capture. -/

/-- The session has been given the event. -/
def Has (accounts : List Account) (n session : Nat) : Prop :=
  ∃ v, accounts[session]? = some v ∧ n ∈ v.taken

/-- A new session has taken nothing yet. -/
theorem has_append_nil (accounts : List Account) (starting : Bool) (n j : Nat) :
    Has (accounts ++ [⟨starting, []⟩]) n j ↔ Has accounts n j := by
  constructor
  · rintro ⟨v, hv, hn⟩
    rw [List.getElem?_append] at hv
    split_ifs at hv
    · exact ⟨v, hv, hn⟩
    · -- the account that was added has taken nothing
      rw [List.getElem?_singleton] at hv
      split_ifs at hv
      cases hv
      cases hn
  · rintro ⟨v, hv, hn⟩
    refine ⟨v, ?_, hn⟩
    rw [List.getElem?_append_left (List.getElem?_eq_some_iff.mp hv).1]
    exact hv

/-- Writing one account back, the sessions that have an event are the others that had it
and the one, if it has it now. -/
theorem has_set {accounts : List Account} {session : Nat} {v : Account} (v' : Account)
    (hv : accounts[session]? = some v) (n j : Nat) :
    Has (accounts.set session v') n j ↔
      (j = session ∧ n ∈ v'.taken) ∨ (j ≠ session ∧ Has accounts n j) := by
  have hlt : session < accounts.length := (List.getElem?_eq_some_iff.mp hv).1
  by_cases hj : j = session
  · subst hj
    simp [Has, List.getElem?_set_self hlt]
  · simp [Has, List.getElem?_set_ne (Ne.symm hj), hj]

/-- A session whose account keeps what it has taken. -/
theorem has_set_same {accounts : List Account} {session : Nat} {v : Account} (v' : Account)
    (hv : accounts[session]? = some v) (h : v'.taken = v.taken) (n j : Nat) :
    Has (accounts.set session v') n j ↔ Has accounts n j := by
  rw [has_set v' hv, h]
  by_cases hj : j = session
  · subst hj
    simp [Has, hv]
  · simp [hj]

/-- The session's start is still to come. -/
def Pending (accounts : List Account) (session : Nat) : Prop :=
  ∃ v, accounts[session]? = some v ∧ v.starting = true

/-- A start that is pending after an account was written back was pending before, as no
step makes one pending again. -/
theorem pending_of_set {accounts : List Account} {session : Nat} {v v' : Account}
    (hv : accounts[session]? = some v) (h : v'.starting = true → v.starting = true) {j : Nat}
    (hp : Pending (accounts.set session v') j) : Pending accounts j := by
  obtain ⟨u, hu, hstarting⟩ := hp
  rw [List.getElem?_set] at hu
  split_ifs at hu with heq hlt
  · cases hu
    subst heq
    exact ⟨v, hv, h hstarting⟩
  · exact ⟨u, hu, hstarting⟩

/-- Event `n` has been delivered to the session: its channel took it. -/
def Delivered (handed : List Handed) (n session : Nat) : Prop :=
  handed[n]? = some ⟨session, true⟩

/-- One more hand-over delivers at most one more event, with the next number. -/
theorem delivered_concat (handed : List Handed) (e : Handed) (n session : Nat) :
    Delivered (handed ++ [e]) n session ↔
      Delivered handed n session ∨ (n = handed.length ∧ e = ⟨session, true⟩) := by
  unfold Delivered
  rcases Nat.lt_trichotomy n handed.length with hlt | heq | hgt
  · rw [List.getElem?_append_left hlt]
    simp [Nat.ne_of_lt hlt]
  · subst heq
    simp
  · rw [List.getElem?_eq_none (by simp; omega), List.getElem?_eq_none (by omega)]
    simp [Nat.ne_of_gt hgt]

/-- What holds of a daemon in every state: a session has exactly the events
that were delivered to it, and every drain thread has the sink of some
session. -/
structure Booked (daemon : ServerDaemon) : Prop where
  coherent : daemon.capture.Coherent
  sinks : ∀ (w : Nat) (d : DrainThread), daemon.capture.drains[w]? = some d →
    d.sink < daemon.accounts.length
  taken : ∀ n j, Delivered daemon.handed n j ↔ Has daemon.accounts n j

/-- Nothing was handed over at the start, and there is no drain thread. -/
theorem booked_new (layout : ScreenLayout) : Booked (new layout) where
  coherent := WindowsCapture.coherent_new
  sinks := by
    rintro w d ⟨⟩
  taken := by
    intro n j
    simp [Delivered, Has, new, accounts]

/-- Threads that have kept their sinks, whatever else became of them. -/
theorem sinks_of_kept {before after : List DrainThread} {bound : Nat}
    (h : ∀ (w : Nat) (d : DrainThread), before[w]? = some d → d.sink < bound)
    (hkept : WindowsCapture.Kept before after) (w : Nat) (d : DrainThread)
    (hd : after[w]? = some d) : d.sink < bound := by
  obtain ⟨d', hd', hsink, -⟩ := hkept w d hd
  rw [← hsink]
  exact h w d' hd'

/-- The flags of `set_capturing` are not among the things the coherence of a capture is
about. -/
theorem SameThreads.coherent {before after : WindowsCapture} (h : SameThreads before after)
    (hco : before.Coherent) : after.Coherent := by
  rw [h]
  exact ⟨hco.running, hco.queued⟩

/-- Nor do the drain threads depend on them. -/
theorem SameThreads.drains {before after : WindowsCapture} (h : SameThreads before after) :
    after.drains = before.drains := by
  rw [h]

/-- A drain thread taking something keeps the capture in order. -/
theorem drain_booked {self : ServerDaemon} (hb : Booked self) {capture : WindowsCapture} {w : Nat}
    {out : Option (Nat × InputEvent)} (h : self.capture.drain w = some (capture, out)) :
    capture.Coherent ∧ ∀ (w : Nat) (d : DrainThread), capture.drains[w]? = some d →
      d.sink < self.accounts.length :=
  ⟨WindowsCapture.drain_coherent hb.coherent h,
    sinks_of_kept hb.sinks (WindowsCapture.drain_kept h)⟩

/-- Every step keeps the books: an event is delivered by the same step that gives it to
the session, and from there it only moves from the channel to the detector. -/
theorem step_booked (self next : ServerDaemon) (a : DaemonStep) (hb : Booked self)
    (h : self.step a = some next) : Booked next := by
  obtain ⟨hco, hsinks, htaken⟩ := hb
  cases step_change h with
  | none capture accounts handed =>
      refine ⟨capture.coherent hco, ?_, ?_⟩
      · rw [accounts, capture.drains]
        exact hsinks
      · rw [accounts, handed]
        exact htaken
  | opened env start capture accounts handed =>
      refine ⟨capture ▸ hco, ?_, ?_⟩
      · rw [accounts, capture, List.length_append]
        intro w d hd
        exact Nat.lt_add_right 1 (hsinks w d hd)
      · intro n j
        rw [accounts, handed, has_append_nil]
        exact htaken n j
  | started session spawned taken account capture accounts handed =>
      have hlt : session < self.accounts.length := (List.getElem?_eq_some_iff.mp account).1
      refine ⟨capture ▸ WindowsCapture.start_coherent hco session spawned, ?_, ?_⟩
      · intro w d hd
        rw [accounts, List.length_set]
        rw [capture] at hd
        -- a thread that was added has the sink of the session that started it
        rcases WindowsCapture.start_drains hd with hold | hnew
        · exact hsinks w d hold
        · rw [hnew]
          exact hlt
      · intro n j
        rw [accounts, handed, has_set_same ⟨false, taken⟩ account rfl]
        exact htaken n j
  | ran b capture accounts handed =>
      refine ⟨WindowsCapture.step_coherent hco capture, ?_, ?_⟩
      · rw [accounts]
        exact sinks_of_kept hsinks (WindowsCapture.step_kept capture)
      · rw [accounts, handed]
        exact htaken
  | drained w capture accounts handed =>
      obtain ⟨hco', hsinks'⟩ := drain_booked ⟨hco, hsinks, htaken⟩ capture
      refine ⟨hco', accounts ▸ hsinks', ?_⟩
      rw [accounts, handed]
      exact htaken
  | refused w sink event capture accounts handed =>
      obtain ⟨hco', hsinks'⟩ := drain_booked ⟨hco, hsinks, htaken⟩ capture
      refine ⟨hco', accounts ▸ hsinks', ?_⟩
      intro n j
      rw [accounts, handed, delivered_concat]
      simp [htaken n j]
  | delivered w sink event account capture account_sink accounts handed =>
      obtain ⟨hco', hsinks'⟩ := drain_booked ⟨hco, hsinks, htaken⟩ capture
      refine ⟨hco', ?_, ?_⟩
      · rw [accounts, List.length_set]
        exact hsinks'
      · intro n j
        rw [accounts, handed, delivered_concat, has_set _ account_sink, htaken n j]
        by_cases hj : j = sink
        · subst hj
          simp [Has, account_sink]
        · simp [hj, Ne.symm hj]

/-! ## A free capture stays with the last session

For the first direction. When the capture is free and a session is started, its start is
the next one that is not turned away; from then on everything goes to its sink, and no
step takes it away short of another start. -/

/-- The step is not a `StartServer`. -/
def NoStart (_ : ServerDaemon) (a : DaemonStep) : Prop := ∀ env, a ≠ .request .StartServer env

/-- What has been delivered since number `base` was next was delivered to that
session: its edge detector observed it, or it waits in the session's channel,
and no other edge detector observed it. -/
def OwnedBy (self : ServerDaemon) (base session : Nat) : Prop :=
  ∀ n j, base ≤ n → Delivered self.handed n j →
    (∃ r, self.sessions[session]? = some r ∧
      (n ∈ r.observed ∨ n ∈ r.channel.map (fun e => e.1))) ∧
    ∀ i r, self.sessions[i]? = some r → n ∈ r.observed → i = session

/-- Nothing of an earlier session has the capture, or can still get it: no
drain thread that is up is fed by the hooks, and a start that is still pending
will be turned away. -/
structure CaptureFree (daemon : ServerDaemon) : Prop where
  fed : ∀ w d, daemon.capture.drains[w]? = some d → d.up = true → ¬ daemon.capture.Fed w
  pending : ∀ r ∈ daemon.sessions, r.starting = true → daemon.capture.Busy

/-- The same, with one session excepted: the one that is to have the capture.
It has had every event since number `base` was next. -/
structure Owner (base session : Nat) (daemon : ServerDaemon) : Prop where
  booked : Booked daemon
  fed : ∀ w d, daemon.capture.drains[w]? = some d → d.up = true → daemon.capture.Fed w →
    d.sink = session
  pending : ∀ j, Pending daemon.accounts j → j ≠ session → daemon.capture.Busy
  handed : ∀ n j, base ≤ n → Delivered daemon.handed n j → j = session

/-- Whether the hooks feed a thread does not depend on the flags, -/
theorem SameThreads.fed {before after : WindowsCapture} (h : SameThreads before after) {w : Nat}
    (hfed : after.Fed w) : before.Fed w := by
  rw [h] at hfed
  exact hfed

/-- and neither does whether a start would be turned away. -/
theorem SameThreads.busy {before after : WindowsCapture} (h : SameThreads before after)
    (hbusy : before.Busy) : after.Busy := by
  rw [h]
  exact hbusy

/-- A drain thread that takes something from its queue is fed by the hooks. -/
theorem drain_fed {self capture : WindowsCapture} {w : Nat} {out : Option (Nat × InputEvent)}
    (hco : self.Coherent) (h : self.drain w = some (capture, out)) :
    ∃ d, self.drains[w]? = some d ∧ d.up = true ∧ self.Fed w ∧
      ∀ sink event, out = some (sink, event) → sink = d.sink := by
  obtain ⟨d, raw, queue, hd, hqueue, hup, -, rfl⟩ := WindowsCapture.drain_eq_some h
  refine ⟨d, hd, hup, hco.fed_of_queued hd (by rw [hqueue]; exact List.cons_ne_nil raw queue), ?_⟩
  intro sink event hout
  obtain ⟨event', -, hpair⟩ := Option.map_eq_some_iff.mp hout
  cases hpair
  rfl

/-- A drain thread taking something changes nothing for the others. -/
theorem drain_owner {base session : Nat} {self : ServerDaemon} (ho : Owner base session self)
    {capture : WindowsCapture} {w : Nat} {out : Option (Nat × InputEvent)}
    (h : self.capture.drain w = some (capture, out)) :
    (∀ w d, capture.drains[w]? = some d → d.up = true → capture.Fed w → d.sink = session) ∧
      (self.capture.Busy → capture.Busy) := by
  have hkept := WindowsCapture.drain_kept h
  obtain ⟨d, raw, queue, -, -, -, rfl, -⟩ := WindowsCapture.drain_eq_some h
  refine ⟨?_, id⟩
  intro w' d' hd' hup hfed
  obtain ⟨e, he, hsink, hup'⟩ := hkept w' d' hd'
  rw [← hsink]
  exact ho.fed w' e he (hup' hup) hfed

/-- A start that is not turned away is the session's own. -/
theorem start_owner {base session starter : Nat} {self : ServerDaemon}
    (ho : Owner base session self) (hstarter : Pending self.accounts starter)
    (hr : self.capture.running = false) :
    starter = session ∧ ∀ j, Pending self.accounts j → j = session := by
  have hall : ∀ j, Pending self.accounts j → j = session := by
    intro j hp
    by_contra hj
    have hrunning := (ho.pending j hp hj).1
    rw [hr] at hrunning
    cases hrunning
  exact ⟨hall starter hstarter, hall⟩

/-- **One step.** The session that is to have the capture keeps it. -/
theorem step_owner (base session : Nat) (self next : ServerDaemon) (a : DaemonStep)
    (ho : Owner base session self) (hno : self.NoStart a) (h : self.step a = some next) :
    Owner base session next := by
  have hbooked := step_booked self next a ho.booked h
  cases step_change h with
  | none capture accounts handed =>
      refine ⟨hbooked, ?_, ?_, handed ▸ ho.handed⟩
      · intro w d hd hup hfed
        rw [capture.drains] at hd
        exact ho.fed w d hd hup (capture.fed hfed)
      · intro j hp hj
        rw [accounts] at hp
        exact capture.busy (ho.pending j hp hj)
  | opened env start capture accounts handed => exact absurd start (hno env)
  | started starter spawned taken account capture accounts handed =>
      have hold : ∀ j, Pending next.accounts j → Pending self.accounts j := by
        intro j hp
        rw [accounts] at hp
        exact pending_of_set account (fun _ => rfl) hp
      by_cases hrunning : self.capture.running = true
      · -- turned away
        rw [WindowsCapture.start_running _ _ _ hrunning] at capture
        refine ⟨hbooked, capture ▸ ho.fed, ?_, handed ▸ ho.handed⟩
        intro j hp hj
        rw [capture]
        exact ho.pending j (hold j hp) hj
      · -- not turned away, and so it is the session's own, and no other is pending
        rw [Bool.not_eq_true] at hrunning
        obtain ⟨rfl, hall⟩ := start_owner ho ⟨_, account, rfl⟩ hrunning
        refine ⟨hbooked, ?_, ?_, handed ▸ ho.handed⟩
        · intro w d hd _ hfed
          rw [capture] at hd hfed
          exact WindowsCapture.start_fed hrunning hd hfed
        · intro j hp hj
          exact absurd (hall j (hold j hp)) hj
  | ran b capture accounts handed =>
      refine ⟨hbooked, ?_, ?_, handed ▸ ho.handed⟩
      · intro w d hd hup hfed
        obtain ⟨d', hd', hsink, hup'⟩ := WindowsCapture.step_kept capture w d hd
        rw [← hsink]
        exact ho.fed w d' hd' (hup' hup) (WindowsCapture.step_fed capture hfed)
      · intro j hp hj
        rw [accounts] at hp
        exact WindowsCapture.step_busy capture (ho.pending j hp hj)
  | drained w capture accounts handed =>
      obtain ⟨hfed, hbusy⟩ := drain_owner ho capture
      refine ⟨hbooked, hfed, ?_, handed ▸ ho.handed⟩
      intro j hp hj
      rw [accounts] at hp
      exact hbusy (ho.pending j hp hj)
  | refused w sink event capture accounts handed =>
      obtain ⟨hfed, hbusy⟩ := drain_owner ho capture
      refine ⟨hbooked, hfed, ?_, ?_⟩
      · intro j hp hj
        rw [accounts] at hp
        exact hbusy (ho.pending j hp hj)
      · intro n j hn hdel
        rw [handed, delivered_concat] at hdel
        rcases hdel with hold | ⟨-, hnew⟩
        · exact ho.handed n j hn hold
        · -- refused is not delivered
          cases hnew
  | delivered w sink event account capture account_sink accounts handed =>
      obtain ⟨hfed, hbusy⟩ := drain_owner ho capture
      refine ⟨hbooked, hfed, ?_, ?_⟩
      · intro j hp hj
        rw [accounts] at hp
        have hold : Pending self.accounts j := by
          refine pending_of_set account_sink ?_ hp
          exact id
        exact hbusy (ho.pending j hold hj)
      · intro n j hn hdel
        rw [handed, delivered_concat] at hdel
        rcases hdel with hold | ⟨-, hnew⟩
        · exact ho.handed n j hn hold
        · -- the thread that handed it over is fed, and so the session's
          obtain ⟨d, hd, hup, hfed, hsink⟩ := drain_fed ho.booked.coherent capture
          obtain rfl : sink = j := congrArg Handed.sink hnew
          rw [hsink sink event rfl]
          exact ho.fed w d hd hup hfed

/-- What an account has, in the words of the session it belongs to. The theorem speaks
of sessions and the proofs of accounts; the two meet here. -/
theorem has_iff (self : ServerDaemon) (n j : Nat) :
    Has self.accounts n j ↔ ∃ r, self.sessions[j]? = some r ∧
      (n ∈ r.observed ∨ n ∈ r.channel.map (fun e => e.1)) := by
  unfold Has
  rw [accounts_getElem?]
  constructor
  · rintro ⟨v, hv, hn⟩
    obtain ⟨r, hr, rfl⟩ := Option.map_eq_some_iff.mp hv
    exact ⟨r, hr, (r.mem_taken n).mp hn⟩
  · rintro ⟨r, hr, hn⟩
    refine ⟨r.account, ?_, (r.mem_taken n).mpr hn⟩
    rw [hr]
    rfl

/-- The invariant contains that the session owns what is delivered from `base` on. -/
theorem Owner.ownedBy {base session : Nat} {self : ServerDaemon} (h : Owner base session self) :
    self.OwnedBy base session := by
  intro n j hn hdel
  obtain rfl := h.handed n j hn hdel
  refine ⟨(self.has_iff n j).mp ((h.booked.taken n j).mp hdel), ?_⟩
  intro i r hr hobs
  have hhas : Has self.accounts n i := (self.has_iff n i).mpr ⟨r, hr, .inl hobs⟩
  exact h.handed n i hn ((h.booked.taken n i).mpr hhas)

/-- What holds when a free capture's daemon has started a session. -/
theorem owner_of_free {self next : ServerDaemon} (hb : Booked next)
    (hfree : self.CaptureFree) (hcapture : next.capture = self.capture)
    (haccounts : next.accounts = self.accounts ++ [⟨true, []⟩])
    (hhanded : next.handed = self.handed) :
    Owner self.handed.length self.accounts.length next := by
  refine ⟨hb, ?_, ?_, ?_⟩
  · intro w d hd hup hfed
    rw [hcapture] at hd hfed
    exact absurd hfed (hfree.fed w d hd hup)
  · rintro j ⟨v, hv, hstarting⟩ hj
    rw [haccounts, List.getElem?_append] at hv
    split_ifs at hv with hlt
    · rw [accounts_getElem?] at hv
      obtain ⟨r, hr, rfl⟩ := Option.map_eq_some_iff.mp hv
      rw [hcapture]
      exact hfree.pending r (List.mem_of_getElem? hr) hstarting
    · -- past the sessions there were, only the new one is
      rw [List.getElem?_singleton] at hv
      split_ifs at hv with hzero
      omega
  · intro n j hn hdel
    rw [hhanded] at hdel
    have hlt : n < self.handed.length := (List.getElem?_eq_some_iff.mp hdel).1
    omega

/-! ## A capture that is taken delivers to its owner

For the other direction a run must be shown in which an earlier session does observe
something. The drain loop that stands in the way is emptied, a move of the mouse is
made, and it is followed to the sink. -/

/-- The hooks are up and feed a drain thread that is up and has the sink of a
session. -/
structure Feeding (w sink : Nat) (queue : List RawEvent) (daemon : ServerDaemon) : Prop where
  pumping : daemon.capture.hook_thread = .pumping
  hook_tx : daemon.capture.hook_tx = some w
  drain : ∃ mods, daemon.capture.drains[w]? = some ⟨sink, queue, mods, true⟩
  session : sink < daemon.sessions.length

/-- A step of a drain loop is no `StartServer`, so the steps that get an event through
are among those a run without restarts has. -/
theorem LoopStep.noStart {self : ServerDaemon} {session : Nat} {a : DaemonStep}
    (h : LoopStep session a) : self.NoStart a := by
  rintro env rfl
  exact h

/-- Changes of the flags add up to a change of the flags. -/
theorem SameThreads.trans {c c' c'' : WindowsCapture} (h : SameThreads c c')
    (h' : SameThreads c' c'') : SameThreads c c'' := by
  unfold SameThreads at h h' ⊢
  rw [h', h]

/-- What a drain thread hands over changes a channel at most. -/
theorem hand_frame (self : ServerDaemon) (capture : WindowsCapture)
    (out : Option (Nat × InputEvent)) :
    (self.hand capture out).capture = capture ∧
      self.handed.length ≤ (self.hand capture out).handed.length ∧
      (self.hand capture out).sessions.length = self.sessions.length := by
  cases out with
  | none => exact ⟨rfl, Nat.le_refl _, rfl⟩
  | some out =>
      rcases self.hand_some capture out.1 out.2 with heq | ⟨r, -, heq⟩
      · rw [heq]
        simp
      · rw [heq]
        simp

/-- A drain loop that is back at its channel takes the next event. -/
theorem loop_receives {self : ServerDaemon} {session n : Nat} {event : InputEvent}
    {channel : List (Nat × InputEvent)} {r : SessionRun} (hr : self.sessions[session]? = some r)
    (hdrain : r.tasks.drain = .recv) (hstore : r.hook_store = none)
    (hchannel : r.channel = (n, event) :: channel) :
    ∃ next r', self.step (.recv session) = some next ∧ next.sessions[session]? = some r' ∧
      r'.channel = channel ∧ next.capture = self.capture ∧ next.handed = self.handed ∧
      next.sessions.length = self.sessions.length := by
  obtain ⟨tasks, htasks⟩ := Tasks.recv_steps event hdrain
  have hlt : session < self.sessions.length := (List.getElem?_eq_some_iff.mp hr).1
  refine ⟨{ self with
    sessions := self.sessions.set session
      { r with tasks, channel, observed := r.observed ++ [n] } }, _, ?_,
    List.getElem?_set_self hlt, rfl, rfl, rfl, by simp⟩
  simp only [step, hr, hchannel, hstore, htasks, Option.map_some]

/-- **A drain loop gets through its channel.** -/
theorem channel_drains (session : Nat) (channel : List (Nat × InputEvent)) (self : ServerDaemon)
    (r : SessionRun) (hr : self.sessions[session]? = some r) (hchannel : r.channel = channel) :
    ∃ t r', Reaches step NoStart self t ∧ t.sessions[session]? = some r' ∧ r'.channel = [] ∧
      SameThreads self.capture t.capture ∧ t.handed = self.handed ∧
      t.sessions.length = self.sessions.length := by
  induction channel generalizing self r with
  | nil => exact ⟨self, r, .refl step _ self, hr, hchannel, rfl, rfl, rfl⟩
  | cons e channel ih =>
      obtain ⟨n, event⟩ := e
      -- the iteration under way ends, and the next begins
      obtain ⟨ready, r', hready, hr', hdrain, hstore⟩ := iteration_ends hr
      obtain ⟨hcapture, hhanded, hlen, r'', hr'', hsame⟩ := loop_frame hready hr
      obtain rfl := Option.some.inj (hr''.symm.trans hr')
      obtain ⟨next, s, hstep, hs, hrest, hcapture', hhanded', hlen'⟩ :=
        loop_receives hr' hdrain hstore (hsame.trans hchannel)
      obtain ⟨t, u, ht, hu, hempty, hthreads, hhanded'', hlen''⟩ := ih next s hs hrest
      rw [hcapture'] at hthreads
      exact ⟨t, u, (hready.mono (fun _ _ => LoopStep.noStart)).trans
        (.head (.recv session) (fun _ => by simp) hstep ht), hu, hempty,
        SameThreads.trans hcapture hthreads, hhanded''.trans (hhanded'.trans hhanded),
        hlen''.trans (hlen'.trans hlen)⟩

/-- **A drain thread gets through its queue.** -/
theorem queue_drains (w sink : Nat) (queue : List RawEvent) (self : ServerDaemon)
    (h : Feeding w sink queue self) :
    ∃ t, Reaches step NoStart self t ∧ Feeding w sink [] t ∧
      self.handed.length ≤ t.handed.length := by
  induction queue generalizing self with
  | nil => exact ⟨self, .refl step _ self, h, Nat.le_refl _⟩
  | cons raw queue ih =>
      obtain ⟨hpumping, htx, ⟨mods, hd⟩, hsession⟩ := h
      have hlt : w < self.capture.drains.length := (List.getElem?_eq_some_iff.mp hd).1
      let d : DrainThread := ⟨sink, queue, (drain_raw mods self.capture.capturing raw).1, true⟩
      let capture : WindowsCapture :=
        { self.capture with drains := self.capture.drains.set w d }
      let out := (drain_raw mods self.capture.capturing raw).2.map (fun event => (sink, event))
      have hdrain : self.capture.drain w = some (capture, out) := by
        simp only [WindowsCapture.drain, hd]
        rfl
      have hstep : self.step (.drain w) = some (self.hand capture out) := by
        simp only [step, hdrain, Option.map_some]
      -- whatever becomes of the event, the rest of the queue is next
      obtain ⟨hcapture, hle, hlen⟩ := self.hand_frame capture out
      have hfeeding : Feeding w sink queue (self.hand capture out) := by
        refine ⟨by rw [hcapture]; exact hpumping, by rw [hcapture]; exact htx, ?_, ?_⟩
        · rw [hcapture]
          exact ⟨d.mods, List.getElem?_set_self hlt⟩
        · rw [hlen]
          exact hsession
      obtain ⟨t, ht, hempty, hle'⟩ := ih _ hfeeding
      exact ⟨t, .head (.drain w) (fun _ => by simp) hstep ht, hempty, Nat.le_trans hle hle'⟩

/-- The threads of a daemon say whether the hooks feed a sink. -/
theorem SameThreads.feeding {self t : ServerDaemon} {w sink : Nat} {queue : List RawEvent}
    (h : SameThreads self.capture t.capture) (hlen : t.sessions.length = self.sessions.length)
    (hf : Feeding w sink queue self) : Feeding w sink queue t := by
  obtain ⟨hpumping, htx, hdrain, hsession⟩ := hf
  unfold SameThreads at h
  refine ⟨by rw [h]; exact hpumping, by rw [h]; exact htx, by rw [h]; exact hdrain, ?_⟩
  rw [hlen]
  exact hsession

/-- A move of the mouse is delivered when there is room for it on the way. -/
theorem move_delivered {w sink : Nat} {self : ServerDaemon} (h : Feeding w sink [] self)
    {r : SessionRun} (hr : self.sessions[sink]? = some r) (hchannel : r.channel = []) :
    ∃ t, Reaches step NoStart self t ∧ Delivered t.handed self.handed.length sink := by
  obtain ⟨hpumping, htx, ⟨mods, hd⟩, -⟩ := h
  have hlt : w < self.capture.drains.length := (List.getElem?_eq_some_iff.mp hd).1
  let pushed : WindowsCapture :=
    { self.capture with
      drains := self.capture.drains.set w ⟨sink, [.MouseMove 5 5], mods, true⟩ }
  let taken : WindowsCapture :=
    { pushed with drains := pushed.drains.set w ⟨sink, [], mods, true⟩ }
  -- the queue is empty, so the push goes through
  have hpush : self.step (.capture (.hook (.mouse 0 WM_MOUSEMOVE ⟨⟨5, 5⟩, 0⟩)))
      = some { self with capture := pushed } := by
    have hevent : (HookCall.mouse 0 WM_MOUSEMOVE ⟨⟨5, 5⟩, 0⟩).event = some (.MouseMove 5 5) := rfl
    simp [step, WindowsCapture.step, WindowsCapture.hook, hpumping, htx, hd, hevent, try_push,
      pushed]
  have hpushed : pushed.drains[w]? = some ⟨sink, [.MouseMove 5 5], mods, true⟩ :=
    List.getElem?_set_self hlt
  -- a move is handed over whatever the capture's flag says
  have htake : pushed.drain w = some (taken, some (sink, .Mouse (.Move 5 5))) := by
    simp only [WindowsCapture.drain, hpushed, drain_raw_move]
    rfl
  have hstep : ({ self with capture := pushed } : ServerDaemon).step (.drain w)
      = some ({ self with capture := pushed }.hand taken (some (sink, .Mouse (.Move 5 5)))) := by
    simp only [step, htake, Option.map_some]
  refine ⟨_, .head (.capture (.hook (.mouse 0 WM_MOUSEMOVE ⟨⟨5, 5⟩, 0⟩))) (fun _ => by simp) hpush
    (.head (.drain w) (fun _ => by simp) hstep (.refl step _ _)), ?_⟩
  simp [hand, hr, hchannel, sink_send, Delivered]

/-- Hooks that are up deliver to the session whose sink they feed. -/
theorem feeding_delivers {w sink : Nat} {queue : List RawEvent} {self : ServerDaemon}
    (h : Feeding w sink queue self) :
    ∃ t n, Reaches step NoStart self t ∧ self.handed.length ≤ n ∧ Delivered t.handed n sink := by
  -- the queue first, for it fills the channel
  obtain ⟨drained, hdrained, hf, hle⟩ := queue_drains w sink queue self h
  obtain ⟨r, hr⟩ : ∃ r, drained.sessions[sink]? = some r :=
    ⟨_, List.getElem?_eq_getElem hf.session⟩
  obtain ⟨ready, r', hready, hr', hempty, hthreads, hhanded, hlen⟩ :=
    channel_drains sink r.channel drained r hr rfl
  obtain ⟨t, ht, hdel⟩ := move_delivered (hthreads.feeding hlen hf) hr' hempty
  refine ⟨t, ready.handed.length, hdrained.trans (hready.trans ht), ?_, hdel⟩
  rw [hhanded]
  exact hle

/-- So do hooks that are still to be installed. -/
theorem fed_delivers {self : ServerDaemon} {w : Nat} {d : DrainThread}
    (hd : self.capture.drains[w]? = some d) (hup : d.up = true) (hfed : self.capture.Fed w)
    (hsession : d.sink < self.sessions.length) :
    ∃ t n, Reaches step NoStart self t ∧ self.handed.length ≤ n ∧ Delivered t.handed n d.sink := by
  obtain ⟨sink, queue, mods, up⟩ := d
  obtain rfl : up = true := hup
  obtain ⟨htx, hinstalling | hpumping⟩ := hfed
  · let installed : ServerDaemon :=
      { self with capture := { self.capture with hook_thread := .pumping } }
    have hstep : self.step (.capture .hooks_installed) = some installed := by
      simp only [step, WindowsCapture.step, WindowsCapture.hooks_installed, hinstalling,
        Option.map_some]
      rfl
    have hf : Feeding w sink queue installed := ⟨rfl, htx, ⟨mods, hd⟩, hsession⟩
    obtain ⟨t, n, ht, hle, hdel⟩ := feeding_delivers hf
    exact ⟨t, n, .head (.capture .hooks_installed) (fun _ => by simp) hstep ht, hle, hdel⟩
  · exact feeding_delivers ⟨hpumping, htx, ⟨mods, hd⟩, hsession⟩

/-- A pending start of a capture that is not running makes it its own. -/
theorem idle_delivers {self : ServerDaemon} {session : Nat} {r : SessionRun}
    (hr : self.sessions[session]? = some r) (hstarting : r.starting = true)
    (hrunning : self.capture.running = false) :
    ∃ t n, Reaches step NoStart self t ∧ self.handed.length ≤ n ∧ Delivered t.handed n session := by
  have hlt : session < self.sessions.length := (List.getElem?_eq_some_iff.mp hr).1
  -- the session starts its own drain thread on an idle capture, and that thread is fed
  -- by the hooks
  let started : ServerDaemon :=
    { self with
      capture := (self.capture.start session .both).1
      sessions := self.sessions.set session { r with starting := false } }
  have hstep : self.step (.capture_start session .both) = some started := by
    simp only [step, hr, hstarting, if_true]
    rfl
  have hcapture : started.capture = _ := self.capture.start_both session hrunning
  have hd : started.capture.drains[self.capture.drains.length]?
      = some ⟨session, [], .empty, true⟩ := by
    rw [hcapture, List.getElem?_concat_length]
  have hfed : started.capture.Fed self.capture.drains.length := by
    rw [hcapture]
    exact ⟨rfl, .inl rfl⟩
  obtain ⟨t, n, ht, hle, hdel⟩ := fed_delivers hd rfl hfed (by simpa [started] using hlt)
  exact ⟨t, n, .head (.capture_start session .both) (fun _ => by simp) hstep ht, hle, hdel⟩

/-- So does one that finds it running with hooks that may yet fail. -/
theorem pending_delivers {self : ServerDaemon} {session : Nat} {r : SessionRun}
    (hr : self.sessions[session]? = some r) (hstarting : r.starting = true)
    (hbusy : ¬ self.capture.Busy) :
    ∃ t n, Reaches step NoStart self t ∧ self.handed.length ≤ n ∧ Delivered t.handed n session := by
  by_cases hrunning : self.capture.running = true
  · have hinstalling : self.capture.hook_thread = .installing := by
      by_contra hthread
      exact hbusy ⟨hrunning, hthread⟩
    -- they do fail, and that clears `running`
    let failed : ServerDaemon :=
      { self with capture := { self.capture with hook_thread := .failed, running := false } }
    have hstep : self.step (.capture .hooks_failed) = some failed := by
      simp only [step, WindowsCapture.step, WindowsCapture.hooks_failed, hinstalling,
        Option.map_some]
      rfl
    have hr' : failed.sessions[session]? = some r := hr
    obtain ⟨t, n, ht, hle, hdel⟩ := idle_delivers hr' hstarting rfl
    exact ⟨t, n, .head (.capture .hooks_failed) (fun _ => by simp) hstep ht, hle, hdel⟩
  · rw [Bool.not_eq_true] at hrunning
    exact idle_delivers hr hstarting hrunning

/-! ## The last start

The two halves, and the two runs that show that both occur. -/

/-- A capture that is not free delivers to an earlier session. -/
theorem taken_delivers {self next : ServerDaemon} (hb : Booked self)
    (hcapture : next.capture = self.capture)
    (hsessions : ∃ r, next.sessions = self.sessions ++ [r]) (hhanded : next.handed = self.handed)
    (htaken : ¬ self.CaptureFree) :
    ∃ t n j, Reaches step NoStart next t ∧ self.handed.length ≤ n ∧ Delivered t.handed n j ∧
      j < self.sessions.length := by
  obtain ⟨new, hsessions⟩ := hsessions
  by_cases hfed : ∀ w d, self.capture.drains[w]? = some d → d.up = true → ¬ self.capture.Fed w
  · -- so a start is pending
    have hpending : ∃ r ∈ self.sessions, r.starting = true ∧ ¬ self.capture.Busy := by
      by_contra hnone
      apply htaken
      refine ⟨hfed, ?_⟩
      intro r hr hstarting
      by_contra hbusy
      exact hnone ⟨r, hr, hstarting, hbusy⟩
    obtain ⟨r, hr, hstarting, hbusy⟩ := hpending
    obtain ⟨j, hj⟩ := List.mem_iff_getElem?.mp hr
    have hlt : j < self.sessions.length := (List.getElem?_eq_some_iff.mp hj).1
    have hj' : next.sessions[j]? = some r := by
      rw [hsessions, List.getElem?_append_left hlt]
      exact hj
    obtain ⟨t, n, ht, hle, hdel⟩ := pending_delivers hj' hstarting (by rw [hcapture]; exact hbusy)
    exact ⟨t, n, j, ht, hhanded ▸ hle, hdel, hlt⟩
  · -- a thread that is fed: it has the sink of one of the sessions there were
    simp only [not_forall, not_not] at hfed
    obtain ⟨w, d, hd, hup, hfed⟩ := hfed
    have hlt : d.sink < self.sessions.length := by
      have hsink := hb.sinks w d hd
      rwa [accounts, List.length_map] at hsink
    rw [← hcapture] at hd hfed
    obtain ⟨t, n, ht, hle, hdel⟩ := fed_delivers hd hup hfed (by simp [hsessions]; omega)
    exact ⟨t, n, d.sink, ht, hhanded ▸ hle, hdel, hlt⟩

/-- **When a restart keeps input working.** After any history, and a
`StartServer` that is answered `Ok`, all that the capture delivers as long as
there is no further start is observed by the new session's edge detector, and
by no earlier one, if and only if the capture was free. -/
theorem last_start_owns_iff (layout : ScreenLayout) (history : List DaemonStep)
    (self next : ServerDaemon) (env : Surroundings)
    (hrun : exec step (new layout) history = some self)
    (hok : (self.state.handle_request self.sessions.length env.bind .StartServer).2 = .Ok)
    (h : self.step (.request .StartServer env) = some next) :
    (∀ t, Reaches step NoStart next t → t.OwnedBy self.handed.length self.sessions.length) ↔
      self.CaptureFree := by
  have hb : Booked self := exec_invariant step Booked (new layout) self history
    (booked_new layout) (fun m n a _ hm => step_booked m n a hm) hrun
  have hb' : Booked next := step_booked self next _ hb h
  obtain ⟨factory, hstarts⟩ := starts_of_ok hok
  obtain ⟨-, hcapture, haccounts, hhanded⟩ := step_opens hstarts h
  constructor
  · intro howned
    by_contra htaken
    have hsessions : ∃ r, next.sessions = self.sessions ++ [r] := by
      simp only [step, hstarts] at h
      obtain rfl := Option.some.inj h
      exact ⟨_, rfl⟩
    obtain ⟨t, n, j, ht, hle, hdel, hlt⟩ := taken_delivers hb hcapture hsessions hhanded htaken
    have hbt : Booked t := ht.invariant Booked hb' (fun m u a hm _ => step_booked m u a hm)
    -- the new session has it as well, and so it was delivered to both
    have hhas := (t.has_iff n self.sessions.length).mpr (howned t ht n j hle hdel).1
    have hdel' := (hbt.taken n self.sessions.length).mpr hhas
    have hsame : j = self.sessions.length :=
      congrArg Handed.sink (Option.some.inj (hdel.symm.trans hdel'))
    omega
  · intro hfree t ht
    have howner := owner_of_free hb' hfree hcapture haccounts hhanded
    rw [accounts, List.length_map] at howner
    exact (ht.invariant (Owner self.handed.length self.sessions.length) howner
      (fun m n a => step_owner _ _ m n a)).ownedBy

/-- A restart that works: the first session's hooks cannot be installed, which
clears `running`, and the server is stopped and started again. The drain thread that
is left has nothing feeding it. -/
theorem last_start_owns_iff_restarted :
    let env : Surroundings := ⟨.ok none, none⟩
    let history : List DaemonStep :=
      [.request .StartServer env, .capture_start 0 .both, .capture .hooks_failed,
        .request .StopServer env]
    ∃ self next, exec step (new .default) history = some self ∧
      self.step (.request .StartServer env) = some next ∧
      ∀ t, Reaches step NoStart next t → t.OwnedBy 0 1 := by
  intro env history
  have hrun : (exec step (new .default) history).isSome := by rfl
  have hiff := last_start_owns_iff .default history _ _ env (Option.some_get hrun).symm rfl rfl
  refine ⟨_, _, (Option.some_get hrun).symm, rfl, hiff.mpr ⟨?_, ?_⟩⟩
  · rintro w d - - ⟨-, hthread | hthread⟩ <;> cases hthread
  · intro r hr hstarting
    obtain rfl := List.mem_singleton.mp hr
    cases hstarting

/-- **A deaf session.** The server is started, stopped and started again. The
second session's start of the capture is turned away, and the next move of the
mouse is observed by the first session's edge detector. -/
theorem restart_is_deaf :
    let env : Surroundings := ⟨.ok none, none⟩
    ∃ self next t : ServerDaemon,
      exec step (new .default) [.request .StartServer env, .capture_start 0 .both,
        .capture .hooks_installed, .request .StopServer env] = some self ∧
      (self.state.handle_request self.sessions.length env.bind .StartServer).2 = .Ok ∧
      self.step (.request .StartServer env) = some next ∧
      Reaches step NoStart next t ∧ ¬ t.OwnedBy self.handed.length self.sessions.length := by
  refine ⟨_, _, _, rfl, rfl, rfl, .head (.capture_start 1 .both) (fun _ => by simp) rfl
    (.head (.capture (.hook (.mouse 0 WM_MOUSEMOVE ⟨⟨5, 5⟩, 0⟩))) (fun _ => by simp) rfl
      (.head (.drain 0) (fun _ => by simp) rfl
        (.head (.recv 0) (fun _ => by simp) rfl (.refl step _ _)))), ?_⟩
  intro howned
  cases (howned 0 0 (Nat.le_refl 0) rfl).2 0 _ rfl List.mem_cons_self

end ServerDaemon

end InputSync

