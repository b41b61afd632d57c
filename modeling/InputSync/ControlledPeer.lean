/-
Which client the server controls (`drain_capture`, `apply_decision` and
`handle_peer_events_server` in `crates/daemon/src/session.rs`).

The drain loop sends to the first of the peers, whichever that is at the moment: once
for the `ScreenEnter`, again for every event, again for the `ScreenLeave`. Nothing
remembers whom it entered. So the client that was told that control is with it and the
client that gets the input are the same as long as the first peer stays the first
while control is remote, and no longer (`controlled_iff`).
-/
import InputSync.SessionTasks

set_option autoImplicit false

namespace InputSync

/-! ## Being entered

What a client knows of control is what it was told last. The server keeps no record of
it, so it is read off the log of actions. -/

/-- What an action tells the peer about control. -/
def control_word (peer : PeerHandle) : Action → Option Bool
  | .send p (.ScreenEnter ..) => if p = peer then some true else none
  | .send p (.ScreenLeave _) => if p = peer then some false else none
  | _ => none

/-- The peer was entered, and not left since. -/
def Entered (log : List Action) (peer : PeerHandle) : Prop :=
  last_word (control_word peer) log = some true

/-- An event of the user's mouse or keyboard. -/
def Message.is_input : Message → Bool
  | .MouseMove .. | .MouseMoveRelative .. | .MouseButton _ | .MouseScroll _ | .KeyEvent _ => true
  | _ => false

/-- Whether a peer is entered is what it was told last, so more of a log decides only if
it says something to this peer. -/
theorem entered_append {log more : List Action} {peer : PeerHandle} :
    Entered (log ++ more) peer ↔ Entered more peer ∨
      last_word (control_word peer) more = none ∧ Entered log peer := by
  unfold Entered
  rw [last_word_append]
  cases last_word (control_word peer) more <;> simp

/-- A send tells its peer, if it is accepted. -/
theorem last_word_enqueue (peer : PeerHandle) (first : Option PeerHandle)
    (accepts : Message → Bool) (msg : Message) :
    last_word (control_word peer) (enqueue first accepts msg)
      = if first = some peer ∧ accepts msg = true then control_word peer (.send peer msg)
        else none := by
  cases first with
  | none => simp [enqueue]
  | some p =>
      by_cases haccept : accepts msg = true
      · have hsend : enqueue (some p) accepts msg = [.send p msg] := by simp [enqueue, haccept]
        rw [hsend]
        by_cases hp : p = peer
        · subst hp
          simp [haccept, last_word]
        · have hword : control_word peer (.send p msg) = none := by
            cases msg <;> simp [control_word, hp]
          simp [hp, hword, last_word]
      · simp [enqueue, haccept]

/-- Entering tells the first peer that control is with it, if the message gets through. -/
theorem last_word_enter (peer : PeerHandle) (peers : List PeerHandle) (accepts : Message → Bool)
    (screen : ScreenId) (entry warp : Point) (m : ModifierState) :
    last_word (control_word peer) (apply_decision (.EnterRemote screen entry warp m) peers accepts)
      = if peers.head? = some peer ∧ accepts (.ScreenEnter entry.x entry.y m) = true then some true
        else none := by
  have hcalls : last_word (control_word peer) [.warp_cursor warp, .set_capturing true] = none := rfl
  rw [apply_decision, last_word_append, hcalls, Option.none_or, last_word_enqueue]
  simp only [control_word, if_true]

/-- Leaving tells the first peer that control has gone, if the message gets through. -/
theorem last_word_leave (peer : PeerHandle) (peers : List PeerHandle) (accepts : Message → Bool)
    (screen : ScreenId) :
    last_word (control_word peer) (apply_decision (.LeaveRemote screen) peers accepts)
      = if peers.head? = some peer ∧ accepts (.ScreenLeave screen.id) = true then some false
        else none := by
  have hcall : last_word (control_word peer) [.set_capturing false] = none := rfl
  rw [apply_decision, last_word_append, last_word_append, hcall, Option.none_or, last_word_enqueue,
    last_word_enqueue]
  simp only [control_word, if_true, ite_self, Option.none_or]

/-- What a decision sends is no input. -/
theorem decision_no_input {decision : RouteDecision} {peers : List PeerHandle}
    {accepts : Message → Bool} {peer : PeerHandle} {msg : Message}
    (h : Action.send peer msg ∈ apply_decision decision peers accepts) : msg.is_input = false := by
  cases decision with
  | Stay => cases h
  | EnterRemote screen entry warp m =>
      rcases List.mem_append.mp h with h | h
      · rw [mem_enqueue _ _ _ _ _ h]
        rfl
      · simp at h
  | LeaveRemote screen =>
      rcases List.mem_append.mp h with h | h
      · rcases List.mem_append.mp h with h | h
        · rw [mem_enqueue _ _ _ _ _ h]
          rfl
        · rw [mem_enqueue _ _ _ _ _ h]
          rfl
      · simp at h

/-- The end of an iteration sends the event to the first peer, if there is one. -/
theorem Server.forward_cases (server : Server) (event : InputEvent) (fw : ForwardTo)
    (accepts : Message → Bool) :
    (server.forward event fw accepts).2 = [] ∨ ∃ peer sent, server.peers.head? = some peer ∧
      fw = .Remote ∧ accepts (Message.from_input sent) = true ∧
      (server.forward event fw accepts).2 = [.send peer (Message.from_input sent)] ∧
      (sent = event ∨ ∃ dx dy, sent = .Mouse (.MoveRelative dx dy)) := by
  unfold Server.forward
  cases fw with
  | Local => exact .inl rfl
  | Remote =>
      cases hfirst : server.peers.head? with
      | none => exact .inl rfl
      | some peer =>
          -- what is sent is the event or the distance it makes, by the case of the
          -- event
          have hsent : ∀ msg, (forward_event server.last_mouse event).2 = some msg →
              ∃ sent, msg = Message.from_input sent ∧
                (sent = event ∨ ∃ dx dy, sent = .Mouse (.MoveRelative dx dy)) := by
            intro msg hmsg
            unfold forward_event at hmsg
            split at hmsg
            · dsimp only at hmsg
              split_ifs at hmsg
              exact ⟨_, (Option.some.inj hmsg).symm, .inr ⟨_, _, rfl⟩⟩
            · exact ⟨event, (Option.some.inj hmsg).symm, .inl rfl⟩
          dsimp only
          cases hmsg : (forward_event server.last_mouse event).2 with
          | none => exact .inl rfl
          | some msg =>
              obtain ⟨sent, rfl, hevent⟩ := hsent msg hmsg
              by_cases haccept : accepts (Message.from_input sent) = true
              · exact .inr ⟨peer, sent, rfl, rfl, haccept, by simp [enqueue, haccept], hevent⟩
              · exact .inl (by simp [enqueue, haccept])

namespace Tasks

/-- What has been done, and what the drain loop is about to do. -/
def told (self : Tasks) : List Action :=
  self.actions ++ match self.drain with
    | .acting rest _ => rest
    | _ => []

/-- Which peer is first matters: control is remote, and the peer was told; or it comes
back, and the peer has yet to be told. -/
def Committed (self : Tasks) : Prop :=
  match self.drain with
  | .decided (.EnterRemote ..) _ => False
  | .decided (.LeaveRemote _) _ => True
  | _ => self.server.edge.route ≠ .Local

/-- The one peer that was entered is the first. -/
def Attuned (self : Tasks) : Prop :=
  ∀ peer, Entered self.told peer ↔ self.Committed ∧ self.server.peers.head? = some peer

/-- The drain loop acts on the route it has decided. -/
def Decided (self : Tasks) : Prop :=
  match self.drain with
  | .recv => True
  | .decided decision after =>
    (match decision with
      | .Stay => True
      | .EnterRemote .. => self.server.edge.route ≠ .Local
      | .LeaveRemote _ => self.server.edge.route = .Local) ∧
    ∀ event, after = some (event, .Remote) → self.server.edge.route ≠ .Local
  | .acting rest after =>
    (∀ peer msg, .send peer msg ∈ rest → msg.is_input = false) ∧
    ∀ event, after = some (event, .Remote) → self.server.edge.route ≠ .Local

/-- The steps that leave the first peer where it matters, and its outbound channel open
to what it is told. The last exclude a `ScreenLeave` among the captured events, which no
capture backend makes. -/
def Steady (self : Tasks) : TaskStep → Prop
  | .connected _ => self.Committed → self.server.peers ≠ []
  | .disconnected peer_id =>
    self.Committed → ∀ peer, self.server.peers.head? = some peer → peer.peer_id ≠ peer_id
  | .finish accepts =>
    ∀ screen, self.drain = .acting [] (some (.ScreenLeave screen, .Remote)) →
      self.server.peers ≠ [] → accepts (.ScreenLeave screen) = false
  | .lock_peers accepts =>
    match self.drain with
    | .decided (.EnterRemote _ entry _ m) _ =>
      self.server.peers ≠ [] → accepts (.ScreenEnter entry.x entry.y m) = true
    | .decided (.LeaveRemote screen) _ =>
      self.server.peers ≠ [] → accepts (.ScreenLeave screen.id) = true
    | _ => True
  | _ => True

/-- **A step acts on what was decided**, whatever it is. -/
theorem step_decided (self next : Tasks) (a : TaskStep) (hd : self.Decided)
    (h : self.step a = some next) : next.Decided := by
  cases a with
  | recv event =>
      -- the emergency decides to leave and nothing more; any other event is put before
      -- the detector, which decides about it
      rcases step_recv h with ⟨-, rfl⟩ | ⟨-, rfl⟩
      · refine ⟨?_, by rintro event ⟨⟩⟩
        unfold EdgeDetector.force_local
        cases self.server.edge.route <;> trivial
      · refine ⟨?_, ?_⟩
        · rcases self.server.edge.observe_cases event with
            ⟨x, y, side, scr, -, -, -, heq⟩ | ⟨-, -, hrest⟩
          · simp [heq]
          · rw [hrest]
            trivial
        · intro event' hafter
          obtain ⟨rfl, hforward⟩ := Prod.mk.inj (Option.some.inj hafter)
          exact (self.server.edge.observe_forward event).mp hforward
  | lock_peers accepts =>
      obtain ⟨decision, after, hpc, rfl⟩ := step_lock_peers h
      simp only [Decided, hpc] at hd ⊢
      exact ⟨fun peer msg hmem => decision_no_input hmem, hd.2⟩
  | act =>
      obtain ⟨b, rest, after, hpc, rfl⟩ := step_act h
      simp only [Decided, hpc] at hd ⊢
      exact ⟨fun peer msg hmem => hd.1 peer msg (List.mem_cons_of_mem b hmem), hd.2⟩
  | finish accepts =>
      obtain ⟨hpc, -⟩ := step_finish h
      unfold Decided
      rw [hpc]
      trivial
  | connected handle | set_auto | disconnected peer_id | check_empty | clear_auto =>
      obtain ⟨peers, auto_peer, handler, rfl⟩ := step_handler rfl h
      exact hd

/-- What is told and who is first make the difference. -/
theorem attuned_congr (self : Tasks) {next : Tasks} (htold : next.told = self.told)
    (hcommitted : next.Committed ↔ self.Committed)
    (hfirst : next.server.peers.head? = self.server.peers.head?) :
    next.Attuned ↔ self.Attuned := by
  unfold Attuned
  rw [htold, hcommitted, hfirst]

/-- Taking an event tells nobody anything yet. The decision waits in the drain loop, and
counts as told to the peer it will go to. -/
theorem recv_attuned {self next : Tasks} {event : InputEvent} (hgood : self.Attuned)
    (h : self.step (.recv event) = some next) : next.Attuned := by
  have hpc := recv_drain h
  rcases step_recv h with ⟨-, rfl⟩ | ⟨-, rfl⟩
  · refine (attuned_congr self ?_ ?_ ?_).mpr hgood
    · simp only [told, hpc]
    · simp only [Committed, hpc]
      unfold EdgeDetector.force_local
      cases hroute : self.server.edge.route <;> simp [hroute]
    · rfl
  · refine (attuned_congr self ?_ ?_ ?_).mpr hgood
    · simp only [told, hpc]
    · simp only [Committed, hpc]
      rcases self.server.edge.observe_cases event with
        ⟨x, y, side, scr, -, hlocal, -, heq⟩ | ⟨-, hroute, hrest⟩
      · simp [heq, hlocal]
      · rw [hrest, hroute]
    · rfl

/-- Reading the first peer decides whom to tell. -/
theorem lock_peers_attuned_iff {self next : Tasks} {accepts : Message → Bool} (hd : self.Decided)
    (hgood : self.Attuned) (h : self.step (.lock_peers accepts) = some next) :
    next.Attuned ↔ self.Steady (.lock_peers accepts) := by
  obtain ⟨decision, after, hpc, rfl⟩ := step_lock_peers h
  have htold : self.told = self.actions := by simp only [told, hpc, List.append_nil]
  simp only [Decided, hpc] at hd
  unfold Attuned at hgood
  rw [htold] at hgood
  -- by what was decided; a stay tells nobody anything; entering and leaving tell the
  -- first peer, if there is one and its channel takes the message
  cases decision with
  | Stay =>
      refine iff_of_true ?_ (by simp [Steady, hpc])
      intro peer
      simpa [told, Committed, hpc, apply_decision] using hgood peer
  | EnterRemote screen entry warp m =>
      have hnobody : ∀ peer, ¬ Entered self.actions peer := by
        simpa only [Committed, hpc, false_and, iff_false] using hgood
      have htells : ∀ peer, Entered (self.actions ++ apply_decision (.EnterRemote screen entry warp m)
          self.server.peers accepts) peer ↔
            self.server.peers.head? = some peer ∧ accepts (.ScreenEnter entry.x entry.y m) = true := by
        intro peer
        rw [entered_append, iff_false_intro (hnobody peer), and_false, or_false, Entered,
          last_word_enter]
        simp
      unfold Attuned
      simp only [told, Committed, Steady, hpc, htells, hd.1, ne_eq, not_false_eq_true, true_and]
      cases self.server.peers <;> simp
  | LeaveRemote screen =>
      have htells : ∀ peer, Entered (self.actions ++ apply_decision (.LeaveRemote screen)
          self.server.peers accepts) peer ↔
            ¬ accepts (.ScreenLeave screen.id) = true ∧ self.server.peers.head? = some peer := by
        intro peer
        rw [entered_append, Entered, last_word_leave, hgood peer]
        simp only [Committed, hpc, true_and]
        by_cases hfirst : self.server.peers.head? = some peer <;>
          by_cases haccept : accepts (.ScreenLeave screen.id) = true <;> simp [hfirst, haccept]
      unfold Attuned
      simp only [told, Committed, Steady, hpc, htells, hd.1, ne_eq, not_true_eq_false, false_and,
        iff_false]
      cases self.server.peers <;> simp

/-- What the peer is told by the end of an iteration. -/
theorem step_finish_told {self next : Tasks} {event : InputEvent} {fw : ForwardTo}
    {accepts : Message → Bool} (hpc : self.drain = .acting [] (some (event, fw)))
    (h : self.step (.finish accepts) = some next) :
    next.told = self.told ++ (self.server.forward event fw accepts).2 := by
  simp only [step, hpc, Option.some.injEq] at h
  subst h
  simp only [told, hpc, List.append_nil]

/-- Forwarding tells nobody about control, but for a captured `ScreenLeave`. -/
theorem finish_attuned_iff {self next : Tasks} {accepts : Message → Bool} (hd : self.Decided)
    (hgood : self.Attuned) (h : self.step (.finish accepts) = some next) :
    next.Attuned ↔ self.Steady (.finish accepts) := by
  obtain ⟨after, hpc⟩ := finish_drain h
  obtain ⟨hnext, hedge, hpeers, -⟩ := step_finish h
  have hcommitted : next.Committed ↔ self.Committed := by
    simp only [Committed, hnext, hpc, hedge]
  have hfirst : next.server.peers.head? = self.server.peers.head? := by rw [hpeers]
  rcases after with _ | ⟨event, fw⟩
  · refine iff_of_true ((attuned_congr self ?_ hcommitted hfirst).mpr hgood) (by simp [Steady, hpc])
    simp only [step, hpc, Option.some.injEq] at h
    subst h
    simp only [told, hpc]
  have htold := step_finish_told hpc h
  have hremote : fw = .Remote → self.Committed := by
    rintro rfl
    simp only [Decided, hpc] at hd
    simpa only [Committed, hpc] using hd.2 event rfl
  by_cases hleave : ∃ screen, event = .ScreenLeave screen ∧ fw = .Remote
  · obtain ⟨screen, rfl, rfl⟩ := hleave
    have hsends : (self.server.forward (.ScreenLeave screen) .Remote accepts).2
        = enqueue self.server.peers.head? accepts (.ScreenLeave screen) := by
      unfold Server.forward
      cases self.server.peers.head? <;> rfl
    have htells : ∀ peer, Entered next.told peer ↔
        ¬ accepts (.ScreenLeave screen) = true ∧ self.server.peers.head? = some peer := by
      intro peer
      rw [htold, hsends, entered_append, Entered, last_word_enqueue, hgood peer]
      simp only [hremote rfl, true_and, control_word, if_true]
      by_cases hp : self.server.peers.head? = some peer <;>
        by_cases haccept : accepts (.ScreenLeave screen) = true <;> simp [hp, haccept]
    unfold Attuned
    simp only [htells, hcommitted, hfirst, hremote rfl, true_and, Steady, hpc]
    cases self.server.peers <;> simp
  · refine iff_of_true ?_ ?_
    · intro peer
      rw [htold, hcommitted, hfirst, entered_append]
      rcases self.server.forward_cases event fw accepts with
        hnone | ⟨first, sent, hhead, hfw, haccept, hsends, hsent⟩
      · rw [hnone]
        simpa [Entered] using hgood peer
      · -- a `ScreenEnter` among the captured events says again what the first peer knows
        have hword : control_word peer (.send first (Message.from_input sent)) = none ∨
            first = peer ∧ control_word peer (.send first (Message.from_input sent)) = some true := by
          rcases hsent with rfl | ⟨dx, dy, rfl⟩
          · cases sent with
            | ScreenEnter x y m =>
                by_cases hp : first = peer
                · exact .inr ⟨hp, by simp [control_word, Message.from_input, hp]⟩
                · exact .inl (by simp [control_word, Message.from_input, hp])
            | ScreenLeave screen => exact absurd ⟨screen, rfl, hfw⟩ hleave
            | Mouse event => exact .inl (by cases event <;> rfl)
            | Key k => exact .inl rfl
            | ModifierSync m => exact .inl rfl
          · exact .inl rfl
        have hlast : last_word (control_word peer) [.send first (Message.from_input sent)]
            = control_word peer (.send first (Message.from_input sent)) := by
          simp [last_word]
        rw [hsends, Entered, hlast]
        rcases hword with hword | ⟨rfl, hword⟩
        · rw [hword]
          simpa using hgood peer
        · rw [hword]
          simp [hhead, hremote hfw]
    · intro screen hdrain
      rw [hpc] at hdrain
      obtain ⟨rfl, rfl⟩ : event = .ScreenLeave screen ∧ fw = .Remote := by
        simpa using hdrain
      exact absurd ⟨screen, rfl, rfl⟩ hleave

/-- A peer that is added is the first only where there was none. -/
theorem connected_attuned_iff {self next : Tasks} {handle : PeerHandle} (hgood : self.Attuned)
    (h : self.step (.connected handle) = some next) :
    next.Attuned ↔ self.Steady (.connected handle) := by
  have hnext : next = { self with
      server := { self.server with peers := self.server.peers ++ [handle] }
      handler := .pushed } := by
    cases hpc : self.handler <;> simp only [step, hpc, reduceCtorEq, Option.some.injEq] at h
    exact h.symm
  have htold : next.told = self.told := by rw [hnext]; rfl
  have hcommitted : next.Committed ↔ self.Committed := by rw [hnext]; rfl
  have hpeers : next.server.peers = self.server.peers ++ [handle] := by rw [hnext]
  -- only the first connection can become the first peer; it has been told nothing yet
  cases hlist : self.server.peers with
  | cons first rest =>
      refine iff_of_true ((attuned_congr self htold hcommitted ?_).mpr hgood) (by simp [Steady, hlist])
      rw [hpeers, hlist]
      rfl
  | nil =>
      simp only [Steady, hlist, ne_eq, not_true_eq_false, imp_false]
      have hnobody : ∀ peer, ¬ Entered self.told peer := by
        intro peer hpeer
        have hhead := ((hgood peer).mp hpeer).2
        rw [hlist] at hhead
        cases hhead
      constructor
      · intro hattuned hcommit
        have hentered := (hattuned handle).mpr ⟨hcommitted.mpr hcommit, by rw [hpeers, hlist]; rfl⟩
        rw [htold] at hentered
        exact hnobody handle hentered
      · intro hnot peer
        rw [htold, hcommitted]
        exact iff_of_false (hnobody peer) (fun hall => hnot hall.1)

/-- A peer that is removed was the first or was not. -/
theorem disconnected_attuned_iff {self next : Tasks} {peer_id : PeerId} (hgood : self.Attuned)
    (h : self.step (.disconnected peer_id) = some next) :
    next.Attuned ↔ self.Steady (.disconnected peer_id) := by
  have hnext := step_disconnected h
  have htold : next.told = self.told := by rw [hnext]; rfl
  have hcommitted : next.Committed ↔ self.Committed := by rw [hnext]; rfl
  have hpeers : next.server.peers = self.server.peers.filter (fun p => p.peer_id ≠ peer_id) := by
    rw [hnext]
  -- without a commitment nobody has been entered, and who is first does not matter
  by_cases hcommit : self.Committed
  · cases hlist : self.server.peers with
    | nil =>
        refine iff_of_true ((attuned_congr self htold hcommitted ?_).mpr hgood)
          (by simp [Steady, hlist])
        rw [hpeers, hlist]
        rfl
    | cons first rest =>
        simp only [Steady, hlist, List.head?_cons, Option.some.injEq, forall_eq', hcommit,
          true_imp_iff]
        have hentered := (hgood first).mpr ⟨hcommit, by rw [hlist]; rfl⟩
        -- the first peer was entered; it stays first exactly if it is not the one that
        -- goes
        constructor
        · intro hattuned hgone
          rw [← htold] at hentered
          have hhead := ((hattuned first).mp hentered).2
          have hmem := List.mem_of_mem_head? hhead
          rw [hpeers] at hmem
          simp [hgone] at hmem
        · intro hstays
          refine (attuned_congr self htold hcommitted ?_).mpr hgood
          rw [hpeers, hlist, List.filter_cons_of_pos (by simpa using hstays)]
          rfl
  · refine iff_of_true ?_ (fun hc => absurd hc hcommit)
    intro peer
    rw [htold, hcommitted]
    have hnone := hgood peer
    simpa only [hcommit, false_and] using hnone

/-- **One step.** From a state in which the first peer is the one that was entered, a step
leads to such a state exactly when it is steady. -/
theorem step_attuned_iff (self next : Tasks) (a : TaskStep) (hd : self.Decided)
    (hgood : self.Attuned) (h : self.step a = some next) : next.Attuned ↔ self.Steady a := by
  -- only four of the steps can part the two: those that tell, those that forward, and
  -- those that change the list
  cases a with
  | recv event => exact iff_of_true (recv_attuned hgood h) trivial
  | lock_peers accepts => exact lock_peers_attuned_iff hd hgood h
  | act =>
      obtain ⟨b, rest, after, hpc, rfl⟩ := step_act h
      refine iff_of_true ((attuned_congr self ?_ ?_ ?_).mpr hgood) trivial
      · simp only [told, hpc, List.append_assoc, List.singleton_append]
      · simp only [Committed, hpc]
        rfl
      · rfl
  | finish accepts => exact finish_attuned_iff hd hgood h
  | connected handle => exact connected_attuned_iff hgood h
  | disconnected peer_id => exact disconnected_attuned_iff hgood h
  | set_auto | check_empty | clear_auto =>
      cases hpc : self.handler <;> simp only [step, hpc, reduceCtorEq, Option.some.injEq] at h
      subst h
      exact iff_of_true ((attuned_congr self rfl Iff.rfl rfl).mpr hgood) trivial

/-! ## Whose input it is

With one peer attuned at every point, the input of the user goes where control was
handed to. -/

/-- Input goes to peers that were entered. -/
def InputFollows (self : Tasks) : Prop :=
  ∀ pre peer msg post, self.actions = pre ++ .send peer msg :: post → msg.is_input = true →
    Entered pre peer

/-- What the drain loop does next is the last thing it has done. -/
theorem InputFollows.concat {self next : Tasks} (h : self.InputFollows) {more : List Action}
    (hactions : next.actions = self.actions ++ more)
    (hmore : more = [] ∨ ∃ a, more = [a] ∧ ∀ peer msg, a = .send peer msg → msg.is_input = true →
      Entered self.actions peer) : next.InputFollows := by
  intro pre peer msg post hsplit hinput
  rcases hmore with rfl | ⟨a, rfl, hlast⟩
  · rw [List.append_nil] at hactions
    exact h pre peer msg post (hactions ▸ hsplit) hinput
  · rw [hactions] at hsplit
    rcases List.eq_nil_or_concat post with rfl | ⟨post, b, rfl⟩
    · obtain ⟨rfl, hb⟩ := List.append_inj' hsplit rfl
      exact hlast peer msg (List.singleton_inj.mp hb) hinput
    · rw [List.concat_eq_append, ← List.cons_append, ← List.append_assoc] at hsplit
      obtain ⟨hold, -⟩ := List.append_inj' hsplit rfl
      exact h pre peer msg post hold hinput

/-- Input goes to the first peer, and in an attuned state that is the one entered. Every
step of the drain loop is checked; the handler sends no input. -/
theorem step_follows (self next : Tasks) (a : TaskStep) (hd : self.Decided) (hgood : self.Attuned)
    (hf : self.InputFollows) (h : self.step a = some next) : next.InputFollows := by
  cases a with
  | recv event => rcases step_recv h with ⟨-, rfl⟩ | ⟨-, rfl⟩ <;> exact hf
  | lock_peers accepts =>
      obtain ⟨decision, after, hpc, rfl⟩ := step_lock_peers h
      exact hf
  -- an action that is carried out now was decided before, and no decision forwards
  -- input
  | act =>
      obtain ⟨b, rest, after, hpc, rfl⟩ := step_act h
      simp only [Decided, hpc] at hd
      refine hf.concat rfl (.inr ⟨b, rfl, ?_⟩)
      rintro peer msg rfl hinput
      rw [hd.1 peer msg List.mem_cons_self] at hinput
      cases hinput
  | finish accepts =>
      obtain ⟨after, hpc⟩ := finish_drain h
      rcases after with _ | ⟨event, fw⟩
      · simp only [step, hpc, Option.some.injEq] at h
        subst h
        exact hf
      · simp only [step, hpc, Option.some.injEq] at h
        subst h
        refine hf.concat rfl ?_
        -- what is forwarded goes to the first peer, under a remote route, and such a
        -- peer was entered
        rcases self.server.forward_cases event fw accepts with
          hnone | ⟨first, sent, hhead, rfl, -, hsends, -⟩
        · exact .inl hnone
        · refine .inr ⟨_, hsends, ?_⟩
          intro peer msg heq _
          obtain ⟨rfl, -⟩ := Action.send.inj heq
          simp only [Decided, hpc] at hd
          have hentered := (hgood first).mpr
            ⟨by simpa only [Committed, hpc] using hd.2 event rfl, hhead⟩
          simpa only [told, hpc, List.append_nil] using hentered
  | connected handle | set_auto | disconnected peer_id | check_empty | clear_auto =>
      obtain ⟨peers, auto_peer, handler, rfl⟩ := step_handler rfl h
      exact hf

/-- **When the controlled client is the one that was entered.** Along any run of the two
tasks, with any number of clients and in any layout: in every state the first peer is
exactly the one that was entered while control is remote, and no other is, exactly when
every step is steady; and then all input goes to clients that were entered. -/
theorem controlled_iff (local_screen : ScreenId) (w h : Int32) (layout : ScreenLayout)
    (steps : List TaskStep) (last : Tasks)
    (hrun : exec step (new local_screen w h layout) steps = some last) :
    ((∀ pre suf t, steps = pre ++ suf → exec step (new local_screen w h layout) pre = some t →
        t.Attuned) ↔
      (∀ pre a suf t, steps = pre ++ a :: suf →
        exec step (new local_screen w h layout) pre = some t → t.Steady a)) ∧
    ((∀ pre a suf t, steps = pre ++ a :: suf →
        exec step (new local_screen w h layout) pre = some t → t.Steady a) → last.InputFollows) := by
  have hdecided : (new local_screen w h layout).Decided := trivial
  have hgood : (new local_screen w h layout).Attuned := by
    intro peer
    exact iff_of_false (by rintro ⟨⟩) (by rintro ⟨-, ⟨⟩⟩)
  have hfollows : (new local_screen w h layout).InputFollows := by
    intro pre peer msg post hsplit
    simp [new, idle] at hsplit
  refine ⟨exec_guarded_iff step Decided Attuned Steady _ last steps hdecided hgood
    (fun t u a hd hstep => t.step_decided u a hd hstep)
    (fun t u a hd hg hstep => t.step_attuned_iff u a hd hg hstep) hrun, ?_⟩
  intro hsteady
  have halong := (along_iff step Steady _ steps).mpr hsteady
  refine (along_invariant step Steady (fun t => t.Decided ∧ t.Attuned ∧ t.InputFollows) ?_ _ steps
    ⟨hdecided, hgood, hfollows⟩ halong steps [] last (List.append_nil _).symm hrun).2.2
  rintro t u a ⟨hd, hg, hf⟩ hsteady hstep
  exact ⟨t.step_decided u a hd hstep, (t.step_attuned_iff u a hd hg hstep).mpr hsteady,
    t.step_follows u a hd hg hf hstep⟩

/-- Two clients, the first of them entered over the left edge. -/
def second_in_line : List TaskStep :=
  [.connected ⟨⟨Vector.replicate 16 7⟩, 0⟩, .set_auto, .connected ⟨⟨Vector.replicate 16 8⟩, 1⟩,
    .set_auto, .recv (.Mouse (.Move 0 300)), .lock_peers (fun _ => true), .act, .act, .act,
    .finish (fun _ => true)]

/-- The equivalence for two clients of whom the first is entered, and stays. -/
theorem controlled_iff_entered :
    let start := new ⟨0⟩ 1920 1080 .default
    ((∀ pre suf t, second_in_line = pre ++ suf → exec step start pre = some t → t.Attuned) ↔
      (∀ pre a suf t, second_in_line = pre ++ a :: suf → exec step start pre = some t →
        t.Steady a)) ∧
    ((∀ pre a suf t, second_in_line = pre ++ a :: suf → exec step start pre = some t →
        t.Steady a) → (Option.get (exec step start second_in_line) (by rfl)).InputFollows) :=
  controlled_iff ⟨0⟩ 1920 1080 .default second_in_line _ (Option.some_get (by rfl)).symm

/-- **Unannounced.** The client that was entered goes: the next in line gets the user's
keys and was never entered. -/
theorem next_in_line_unannounced :
    ∃ last, exec step (new ⟨0⟩ 1920 1080 .default)
        (second_in_line ++ [.disconnected ⟨Vector.replicate 16 7⟩, .check_empty,
          .recv (.Key ⟨.A, .Pressed, .empty, none⟩), .lock_peers (fun _ => true),
          .finish (fun _ => true)]) = some last ∧
      ¬ last.InputFollows := by
  refine ⟨_, rfl, ?_⟩
  intro hfollows
  have hentered := hfollows [_, _, _] ⟨⟨Vector.replicate 16 8⟩, 1⟩
    (.KeyEvent ⟨.A, .Pressed, .empty, none⟩) [] rfl rfl
  exact absurd hentered (by unfold Entered; decide)

end Tasks

end InputSync
