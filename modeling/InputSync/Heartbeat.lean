/-
The heartbeats (`crates/daemon/src/heartbeat.rs`) over the queues of two
connected daemons, with everything else the daemons send each other between
them.

A `Ping` goes through three queues to the other daemon, whose `inbound_loop`
makes a `Pong` of it, and the `Pong` comes back through the three others. So
the `Ping`s of one side and their answers follow each other along a path of
six queues, and what has been sent is what has been answered and what is on
that path (`Conserved`). Nothing in the program counts the answers; here it is
shown that somebody could.
-/
import InputSync.Backpressure

set_option autoImplicit false

namespace InputSync

/-! ## The way of a `Ping`

The six queues form a ring, and the way of one side's heartbeat goes round it once.
Labels pick that heartbeat out of everything else that is in the queues. -/

/-- What a `Ping` carries, and its `Pong` back. -/
structure Beat where
  nonce : UInt64
  timestamp_ms : UInt64
deriving DecidableEq

/-- What a `Ping` carries. -/
def ping_of : Message → Option Beat
  | .Ping nonce timestamp_ms => some ⟨nonce, timestamp_ms⟩
  | _ => none

/-- What a `Pong` carries. -/
def pong_of : Message → Option Beat
  | .Pong nonce timestamp_ms => some ⟨nonce, timestamp_ms⟩
  | _ => none

/-- `inbound_loop` answers a `Ping` with what it carries, and nothing else. -/
theorem reply_eq (is_client : Bool) (msg : Message) :
    reply is_client msg = (ping_of msg).map (fun beat => .Pong beat.nonce beat.timestamp_ms) := by
  -- what a client does to its injector sends nothing
  have hquiet : ∀ msg, (∀ effect ∈ inbound_step true msg, ∀ m, effect ≠ .send m) →
      reply true msg = none := by
    intro msg hnone
    rw [reply, List.findSome?_eq_none_iff]
    intro effect heffect
    cases effect with
    | send m => exact absurd rfl (hnone _ heffect m)
    | _ => rfl
  have hresync : ∀ target, ∀ effect ∈ resync_modifiers target, ∀ m, effect ≠ Effect.send m := by
    intro target effect heffect m
    simp only [resync_modifiers, List.mem_cons, List.mem_map] at heffect
    rcases heffect with rfl | ⟨_, -, rfl⟩ <;> rintro ⟨⟩
  cases msg with
  | ModifierSync target =>
      cases is_client
      · rfl
      · exact hquiet _ (hresync target)
  | ScreenEnter x y target =>
      cases is_client
      · rfl
      · exact hquiet _ (List.forall_mem_cons.mpr ⟨by rintro m ⟨⟩, hresync target⟩)
  | _ => cases is_client <;> rfl

/-- A `Pong` carries what its `Ping` did, so one label stands for both. -/
theorem reply_pong (is_client : Bool) (msg : Message) :
    (reply is_client msg).bind pong_of = ping_of msg := by
  rw [reply_eq]
  cases ping_of msg <;> rfl

/-- And no answer is a `Ping`: the traffic of heartbeats does not feed itself. -/
theorem reply_ping (is_client : Bool) (msg : Message) :
    (reply is_client msg).bind ping_of = none := by
  rw [reply_eq]
  cases ping_of msg <;> rfl

/-- The queues a `Ping` of the side goes through, and its answer. -/
def beat_path (side : Side) : List ConnQueue :=
  [.outbound side, .link side, .inbound side.other, .outbound side.other, .link side.other,
    .inbound side]

/-- The messages of the heartbeat of `side`: its `Ping`s on the way out, the
`Pong`s to them on the way back. -/
def beat_label (side : Side) : ConnQueue → Message → Option Beat
  | .outbound s, msg | .link s, msg => if s = side then ping_of msg else pong_of msg
  | .inbound s, msg => if s = side then pong_of msg else ping_of msg

/-- The path visits each queue once. -/
theorem beat_path_nodup (side : Side) : (beat_path side).Nodup := by
  cases side <;> decide

/-- Each queue of the path but the last is followed by the one it feeds. With it a step
can be located on the path. -/
theorem beat_path_split (side : Side) (q : ConnQueue) (hq : q ≠ .inbound side) :
    ∃ path path', beat_path side = path ++ q :: q.next :: path' := by
  have hall : ∀ s, ∀ q : ConnQueue, q ≠ .inbound s →
      beat_path s = (beat_path s).take ((beat_path s).idxOf q)
        ++ q :: q.next :: (beat_path s).drop ((beat_path s).idxOf q + 2) := by
    rintro s (t | t | t) hq <;> cases s <;> cases t <;> first | rfl | exact absurd rfl hq
  exact ⟨_, _, hall side q hq⟩

/-- The loops on the path pass the label on. -/
theorem beat_label_received (side : Side) (q : ConnQueue) (hq : q ≠ .inbound side)
    (msg : Message) : (q.received msg).bind (beat_label side q.next) = beat_label side q msg := by
  rcases q with s | s | s
  · rfl
  · cases s <;> cases side <;> rfl
  · have hs : s ≠ side := fun h => hq (by rw [h])
    have hlabel : beat_label side (.outbound s) = pong_of := by
      funext m
      exact if_neg hs
    have hping : beat_label side (.inbound s) msg = ping_of msg := if_neg hs
    rw [ConnQueue.next, hlabel, hping]
    exact reply_pong _ msg

/-- Where it ends, nothing is passed on. -/
theorem beat_label_last (side : Side) (msg : Message) :
    ((ConnQueue.inbound side).received msg).bind (beat_label side (ConnQueue.inbound side).next)
      = none := by
  have hlabel : beat_label side (.outbound side) = ping_of := by
    funext m
    exact if_pos rfl
  rw [ConnQueue.next, hlabel]
  exact reply_ping _ msg

/-! ## The daemons at work

`Connected` has the queues and tasks. Here the `Ping`s made and the `Pong`s read are
recorded beside it, which the code does not do. -/

/-- Two connected daemons, with the `Ping`s the heartbeat of each has made and
the `Pong`s its `inbound_loop` has read. -/
structure Traffic where
  connected : Connected
  sent : Side → List Beat
  answered : Side → List Beat

/-- A step of the heartbeats and the loops, or a message from anything else in the
daemon. -/
inductive TrafficStep
  -- of the heartbeats and the loops
  | task (a : ConnectedStep)
  -- anything else in the daemon sends a message
  | peer_send (side : Side) (msg : Message)

/-- The `Ping`s a step makes. -/
def Connected.beats (self : Connected) (side : Side) : ConnectedStep → List Beat
  | .tick s timestamp_ms => if s = side then [⟨self.nonce side + 1, timestamp_ms⟩] else []
  | _ => []

/-- The `Pong`s it reads. -/
def Connected.pongs (self : Connected) (side : Side) : ConnectedStep → List Beat
  | .inbound_recv s =>
    if s = side then ((self.queues.queue (.inbound side)).head?.bind pong_of).toList else []
  | _ => []

namespace Traffic

/-- Nothing sent yet. -/
def new : Traffic := { connected := .new, sent := fun _ => [], answered := fun _ => [] }

variable (capacity : ConnQueue → ℕ+)

/-- Only the heartbeat sends `Ping`s, and only `inbound_loop` sends `Pong`s. -/
def step (self : Traffic) : TrafficStep → Option Traffic
  | .task a =>
    (self.connected.step capacity a).map (fun connected =>
      { connected
        sent := fun side => self.sent side ++ self.connected.beats side a
        answered := fun side => self.answered side ++ self.connected.pongs side a })
  | .peer_send side msg =>
    if ping_of msg = none ∧ pong_of msg = none then
      (self.connected.queues.enqueue (ring capacity) (.outbound side) msg).map (fun queues =>
        { self with connected := { self.connected with queues } })
    else none

/-- The `Ping`s of a side that are not answered yet: on the path, and the one
its heartbeat is about to send. -/
def under_way (self : Traffic) (side : Side) : List Beat :=
  self.connected.queues.trail (ring capacity) (beat_label side) (beat_path side)
    ++ ((self.connected.heartbeat side).bind ping_of).toList

/-- No `Ping` is lost, answered twice or overtaken. -/
structure Conserved (t : Traffic) : Prop where
  sent : ∀ side, t.sent side = t.answered side ++ t.under_way capacity side
  nonces : ∀ side, (t.sent side).map Beat.nonce
    = (List.range (t.sent side).length).map (fun k => UInt64.ofNat (k + 1))
  nonce : ∀ side, t.connected.nonce side = UInt64.ofNat (t.sent side).length
  heartbeat : ∀ side msg, t.connected.heartbeat side = some msg → pong_of msg = none
  hands : t.connected.queues.Contents (fun _ _ => True)
    (fun q msg => ∀ side, q = .inbound side → ping_of msg = none)

/-- Nothing sent, nothing answered, nothing on the way. -/
theorem conserved_new : Conserved capacity new where
  sent := by
    intro side
    cases side <;> rfl
  nonces := fun _ => rfl
  nonce := fun _ => rfl
  heartbeat := by rintro side msg ⟨⟩
  hands := ⟨by rintro q msg ⟨⟩, by rintro q msg ⟨⟩⟩

/-! ## What a step does to the way of the `Ping`s

The general lemmas about trails, applied to the eight tasks. -/

variable {capacity}

/-- A task of the program keeps everything in its place but what it sends and
what it reads. -/
theorem trail_step {self next : Connected} {a : ConnectedStep} (side : Side)
    (hands : self.queues.Contents (fun _ _ => True)
      (fun q msg => ∀ side, q = .inbound side → ping_of msg = none))
    (hbeat : ∀ side msg, self.heartbeat side = some msg → pong_of msg = none)
    (h : self.step capacity a = some next) :
    self.queues.trail (ring capacity) (beat_label side) (beat_path side)
        ++ ((self.heartbeat side).bind ping_of).toList ++ self.beats side a
      = self.pongs side a ++ (next.queues.trail (ring capacity) (beat_label side) (beat_path side)
        ++ ((next.heartbeat side).bind ping_of).toList) := by
  rcases Connected.step_cases h with ⟨s, ts, ping, rfl, hnone, rfl, hq, hb⟩ |
    ⟨s, ping, rfl, hping, hq, hb⟩ |
    ⟨q, rfl, hq, hb⟩ | ⟨q, rfl, hq, hb⟩
  · -- the heartbeat makes a `Ping`
    rw [hq, hb]
    by_cases hs : side = s
    · subst hs
      simp [hnone, Connected.beats, Connected.pongs, ping_of]
    · simp [Connected.beats, Connected.pongs, Function.update_of_ne hs, Ne.symm hs]
  · rw [hb]
    by_cases hs : side = s
    · -- it sends it, to where its path begins
      subst hs
      have hping' : beat_label side (.outbound side) ping = ping_of ping := if_pos rfl
      have htrail : next.queues.trail (ring capacity) (beat_label side) (beat_path side)
          = self.queues.trail (ring capacity) (beat_label side) (beat_path side)
            ++ (beat_label side (.outbound side) ping).toList :=
        Queues.trail_enqueue_head _ (beat_path_nodup side) hq
      rw [htrail, hping']
      simp [hping, Connected.beats, Connected.pongs]
    · have hlabel : beat_label side (.outbound s) ping = none := by
        rw [beat_label, if_neg (Ne.symm hs)]
        exact hbeat s ping hping
      rw [Queues.trail_enqueue_none _ hlabel hq]
      simp [Connected.beats, Connected.pongs, Function.update_of_ne hs]
  · rw [hb]
    by_cases hlast : q = .inbound side
    · -- the path ends here
      subst hlast
      have hlabel : beat_label side (.inbound side) = pong_of := by
        funext m
        exact if_pos rfl
      have hpath : beat_path side = (beat_path side).take 5 ++ [.inbound side] := rfl
      have hnodup := beat_path_nodup side
      rw [hpath] at hnodup ⊢
      obtain ⟨m, hqueue, htrail⟩ := Queues.trail_take_last _ hnodup (beat_label_last side) hq
      rw [htrail, hlabel]
      simp [ConnQueue.taking, Connected.beats, Connected.pongs, hqueue]
    · rw [Queues.trail_take _ (fun m _ => beat_label_received side q hlast m) hq]
      have hpongs : self.pongs side q.taking = [] := by
        rcases q with s | s | s
        · rfl
        · rfl
        · exact if_neg (fun hs => hlast (by rw [hs]))
      have hbeats : self.beats side q.taking = [] := by cases q <;> rfl
      rw [hpongs, hbeats, List.append_nil, List.nil_append]
  · have hbeats : self.beats side q.putting = [] := by cases q <;> rfl
    have hpongs : self.pongs side q.putting = [] := by cases q <;> rfl
    rw [hb, hbeats, hpongs, List.append_nil, List.nil_append]
    by_cases hlast : q = .inbound side
    · subst hlast
      have hlabel : ∀ m, self.queues.hand (.inbound side) = some m →
          beat_label side ((ring capacity).next (.inbound side)) m = none := by
        intro m hm
        change (if side = side then ping_of m else pong_of m) = none
        rw [if_pos rfl]
        exact hands.hand _ m hm side rfl
      rw [Queues.trail_put_none _ hlabel hq]
    · obtain ⟨path, path', hpath⟩ := beat_path_split side q hlast
      have hnodup := beat_path_nodup side
      rw [hpath] at hnodup ⊢
      have htrail : next.queues.trail (ring capacity) (beat_label side)
          (path ++ q :: q.next :: path') = self.queues.trail (ring capacity) (beat_label side)
            (path ++ q :: q.next :: path') := Queues.trail_put path path' hnodup hq
      rw [htrail]

/-- A step makes a `Ping` with the next number or makes none. -/
theorem beats_cases {self next : Connected} {a : ConnectedStep} (side : Side)
    (h : self.step capacity a = some next) :
    (self.beats side a = [] ∧ next.nonce side = self.nonce side) ∨
      (∃ ts, self.beats side a = [⟨self.nonce side + 1, ts⟩] ∧
        next.nonce side = self.nonce side + 1) := by
  -- only a tick makes a beat, and only on its own side
  cases a with
  | tick s ts =>
      cases hbeat : self.heartbeat s with
      | some ping => simp [Connected.step, hbeat] at h
      | none =>
          simp only [Connected.step, hbeat, Option.some.injEq] at h
          subst h
          by_cases hs : s = side
          · subst hs
            exact .inr ⟨ts, if_pos rfl, Function.update_self ..⟩
          · exact .inl ⟨if_neg hs, Function.update_of_ne (Ne.symm hs) ..⟩
  | heartbeat_send s =>
      cases hbeat : self.heartbeat s with
      | none => simp [Connected.step, hbeat] at h
      | some ping =>
          simp only [Connected.step, hbeat] at h
          obtain ⟨q, -, rfl⟩ := Option.map_eq_some_iff.mp h
          exact .inl ⟨rfl, rfl⟩
  | write_recv s | write_message s | read_message s | inbound_send s | inbound_recv s
  | reply_send s =>
      obtain ⟨q, -, rfl⟩ := Option.map_eq_some_iff.mp h
      exact .inl ⟨rfl, rfl⟩

/-- Heartbeats hold `Ping`s, `inbound_loop`s answers. -/
theorem hands_step {self next : Connected} {a : ConnectedStep}
    (hands : self.queues.Contents (fun _ _ => True)
      (fun q msg => ∀ side, q = .inbound side → ping_of msg = none))
    (hbeat : ∀ side msg, self.heartbeat side = some msg → pong_of msg = none)
    (h : self.step capacity a = some next) :
    next.queues.Contents (fun _ _ => True)
        (fun q msg => ∀ side, q = .inbound side → ping_of msg = none) ∧
      ∀ side msg, next.heartbeat side = some msg → pong_of msg = none := by
  -- what a heartbeat holds changes on one side only
  have hupdate : ∀ s o, (∀ msg, o = some msg → pong_of msg = none) →
      next.heartbeat = Function.update self.heartbeat s o →
      ∀ side msg, next.heartbeat side = some msg → pong_of msg = none := by
    intro s o ho hb side msg hmsg
    rw [hb] at hmsg
    by_cases hs : side = s
    · subst hs
      rw [Function.update_self] at hmsg
      exact ho msg hmsg
    · rw [Function.update_of_ne hs] at hmsg
      exact hbeat side msg hmsg
  -- the step that could break it is a loop taking a `Ping`, and what it then holds is
  -- the `Pong`
  rcases Connected.step_cases h with ⟨s, ts, ping, -, -, rfl, hq, hb⟩ | ⟨s, ping, -, -, hq, hb⟩ |
    ⟨q, -, hq, hb⟩ | ⟨q, -, hq, hb⟩
  · refine ⟨by rw [hq]; exact hands, hupdate s _ ?_ hb⟩
    rintro msg ⟨⟩
    rfl
  · exact ⟨hands.enqueue trivial hq, hupdate s _ (by rintro msg ⟨⟩) hb⟩
  · refine ⟨hands.take ?_ hq, by rw [hb]; exact hbeat⟩
    rintro m m' - hm' side rfl
    have hreply := reply_ping (side = .B) m
    change reply (side = .B) m = some m' at hm'
    rwa [hm', Option.bind_some] at hreply
  · exact ⟨hands.put (fun _ _ => trivial) hq, by rw [hb]; exact hbeat⟩

/-- Every step: a `Ping` that is made enters the path at its beginning, one that is
answered leaves it at its end, and in between nothing is lost or overtaken. -/
theorem conserved_step (self next : Traffic) (a : TrafficStep) (hc : self.Conserved capacity)
    (h : self.step capacity a = some next) : next.Conserved capacity := by
  cases a with
  | task a =>
      obtain ⟨c, hstep, rfl⟩ := Option.map_eq_some_iff.mp h
      obtain ⟨hhands, hbeat⟩ := hands_step hc.hands hc.heartbeat hstep
      refine ⟨?_, ?_, ?_, hbeat, hhands⟩
      -- what a task moves, it moves along the way of its message: what is under way has
      -- not changed, or has grown by a beat
      · intro side
        have htrail := trail_step side hc.hands hc.heartbeat hstep
        have hsent := hc.sent side
        unfold under_way at hsent ⊢
        dsimp only
        rw [hsent, List.append_assoc, htrail, List.append_assoc]
      · intro side
        rcases beats_cases side hstep with ⟨hbeats, -⟩ | ⟨ts, hbeats, -⟩
        · simpa [hbeats] using hc.nonces side
        · simp [hbeats, hc.nonces side, hc.nonce side, List.range_succ]
      · intro side
        rcases beats_cases side hstep with ⟨hbeats, hnonce⟩ | ⟨ts, hbeats, hnonce⟩
        · simpa [hbeats, hnonce] using hc.nonce side
        · simp [hbeats, hnonce, hc.nonce side]
  | peer_send s msg =>
      simp only [step] at h
      split_ifs at h with hmsg
      obtain ⟨queues, hq, rfl⟩ := Option.map_eq_some_iff.mp h
      refine ⟨?_, hc.nonces, hc.nonce, hc.heartbeat, hc.hands.enqueue trivial hq⟩
      intro side
      -- the message of another task is neither a `Ping` nor a `Pong`, so it does not
      -- count
      have hlabel : beat_label side (.outbound s) msg = none := by
        by_cases hs : s = side
        · exact (if_pos hs).trans hmsg.1
        · exact (if_neg hs).trans hmsg.2
      have htrail := Queues.trail_enqueue_none (beat_path side) hlabel hq
      unfold under_way
      rw [htrail]
      exact hc.sent side

/-! ## Every `Ping` is answered once, and in order

What was sent is what was answered, followed by what is under way. Read as an equation
of lists it says that nothing is lost, answered twice or overtaken. -/

/-- No queue ever holds more than its capacity. -/
theorem step_bounded (self next : Traffic) (a : TrafficStep)
    (hb : self.connected.queues.Bounded (ring capacity)) (h : self.step capacity a = some next) :
    next.connected.queues.Bounded (ring capacity) := by
  cases a with
  | task a =>
      obtain ⟨c, hstep, rfl⟩ := Option.map_eq_some_iff.mp h
      exact Connected.step_bounded _ _ a hb hstep
  | peer_send s msg =>
      simp only [step] at h
      split_ifs at h
      obtain ⟨queues, hq, rfl⟩ := Option.map_eq_some_iff.mp h
      exact hb.enqueue hq

/-- The steps the loops still have with a message: to the other side, and for a
`Ping` back again. -/
def beat_to_go (q : ConnQueue) (msg : Message) : Nat :=
  (match q with
    | .outbound _ => 5
    | .link _ => 3
    | .inbound _ => 1) + ((ping_of msg).elim 0 (fun _ => 6))

/-- A loop that takes a message brings it on. -/
theorem beat_to_go_received (q : ConnQueue) (msg : Message) :
    (q.received msg).elim 0 (fun m => beat_to_go q.next m + 1) < beat_to_go q msg := by
  rcases q with s | s | s
  · simp only [ConnQueue.received, ConnQueue.next, Option.elim_some, beat_to_go]
    omega
  · simp only [ConnQueue.received, ConnQueue.next, Option.elim_some, beat_to_go]
    omega
  · have hpong : ∀ beat : Beat, ping_of (.Pong beat.nonce beat.timestamp_ms) = none := fun _ => rfl
    simp only [ConnQueue.received, ConnQueue.next, reply_eq, beat_to_go]
    cases ping_of msg <;> simp [hpong]

/-- Each step of a loop brings some message nearer to where it ends and none further
away, so the loops come to rest. -/
theorem loop_step_to_go {self next : Connected} {a : ConnectedStep} (hloop : a.of_loop = true)
    (h : self.step capacity a = some next) :
    next.queues.to_go (ring capacity) beat_to_go < self.queues.to_go (ring capacity) beat_to_go := by
  rcases Connected.step_cases h with ⟨s, ts, ping, rfl, -⟩ | ⟨s, ping, rfl, -⟩ | ⟨q, -, hq, -⟩ |
    ⟨q, -, hq, -⟩
  · cases hloop
  · cases hloop
  · exact Queues.to_go_take beat_to_go (beat_to_go_received q) hq
  · exact Queues.to_go_put beat_to_go hq

/-- A message has at most eleven steps before it. -/
theorem to_go_le_load {self : Traffic} (hc : self.Conserved capacity) :
    self.connected.queues.to_go (ring capacity) beat_to_go ≤ 11 * self.connected.queues.load := by
  have hping : ∀ msg, (ping_of msg).elim 0 (fun _ => 6) ≤ 6 := by
    intro msg
    cases ping_of msg <;> simp
  apply Queues.to_go_le beat_to_go 11
  · intro q msg _
    have hmsg := hping msg
    rcases q with s | s | s <;> simp only [beat_to_go] <;> omega
  · intro q msg hhand
    have hmsg := hping msg
    change beat_to_go q.next msg + 1 ≤ 11
    rcases q with s | s | s
    · simp only [ConnQueue.next, beat_to_go]
      omega
    · simp only [ConnQueue.next, beat_to_go]
      omega
    · -- an `inbound_loop` holds no `Ping`
      have hnone : ping_of msg = none := hc.hands.hand _ msg hhand s rfl
      simp [ConnQueue.next, beat_to_go, hnone]

end Traffic

end InputSync
