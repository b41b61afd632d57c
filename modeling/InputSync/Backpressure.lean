/-
Two connected daemons and the queues between them: the outbound channel of
each side, which its `write_loop` drains into the link, the link, which the
`read_loop` of the other side drains into its inbound channel, and that
channel, which its `inbound_loop` drains, answering every `Ping` on the
outbound channel.

So the six queues form a ring. `inbound_loop` waits for room in the outbound
channel like everybody else, where `drain_capture` would give up, so the two
daemons can lock each other up: exactly when every queue is full and every
task waits with a message in hand (`deadlocked_iff`). Only the heartbeats put
messages into the ring, and they do not look how full it is.
-/
import InputSync.BoundedQueues
import InputSync.Clipboard
import InputSync.Session

set_option autoImplicit false

namespace InputSync

/-! ## The ring

The general theory of `BoundedQueues`, with six queues. -/

/-- The queues, each with the side that fills it or, for `inbound`, whose
`inbound_loop` reads it. -/
inductive ConnQueue
  | outbound (side : Side)
  | link (side : Side)
  | inbound (side : Side)
deriving DecidableEq

instance : Fintype ConnQueue where
  elems := {.outbound .A, .outbound .B, .link .A, .link .B, .inbound .A, .inbound .B}
  complete := by
    rintro (side | side | side) <;> cases side <;> decide

/-- What `inbound_loop` sends back for a message. -/
def reply (is_client : Bool) (msg : Message) : Option Message :=
  (inbound_step is_client msg).findSome? (fun effect => match effect with
    | .send m => some m
    | _ => none)

namespace ConnQueue

/-- Where the task that drains the queue puts its messages: `write_loop` into
the link, `read_loop` into the inbound channel, `inbound_loop` into the outbound
channel of its own side. -/
def next : ConnQueue → ConnQueue
  | .outbound side => .link side
  | .link side => .inbound side.other
  | .inbound side => .outbound side

/-- The loops pass messages on; only `inbound_loop` looks at them. Side `B` is
the client. -/
def received : ConnQueue → Message → Option Message
  | .outbound _, msg | .link _, msg => some msg
  | .inbound side, msg => reply (side = .B) msg

end ConnQueue

/-- The ring of the six queues. -/
def ring (capacity : ConnQueue → ℕ+) : Plumbing ConnQueue Message :=
  { next := ConnQueue.next, capacity, received := ConnQueue.received }

/-- From every queue the tasks lead to every other, in at most six steps. -/
theorem ring_ring (capacity : ConnQueue → ℕ+) : (ring capacity).Ring := by
  have hsix : ∀ i j : ConnQueue, ∃ k < 6, ConnQueue.next^[k + 1] i = j := by decide
  intro i j
  obtain ⟨k, -, hk⟩ := hsix i j
  exact ⟨k, hk⟩

/-! ## The tasks

Six loops and two heartbeats. The heartbeats are the only ones who make a message out of
nothing. -/

/-- The two daemons: each heartbeat's nonce and the `Ping` it is sending, and
the queues with what their tasks hold. -/
structure Connected where
  nonce : Side → UInt64
  heartbeat : Side → Option Message
  queues : Queues ConnQueue Message

/-- The steps, grouped by the task that takes them. -/
inductive ConnectedStep
  -- spawn_heartbeat
  | tick (side : Side) (timestamp_ms : UInt64)
  | heartbeat_send (side : Side)
  -- write_loop
  | write_recv (side : Side)
  | write_message (side : Side)
  -- read_loop
  | read_message (side : Side)
  | inbound_send (side : Side)
  -- inbound_loop
  | inbound_recv (side : Side)
  | reply_send (side : Side)

/-- A step of one of the six loops. -/
def ConnectedStep.of_loop : ConnectedStep → Bool
  | .tick .. | .heartbeat_send _ => false
  | _ => true

namespace Connected

/-- Two daemons just connected. -/
def new : Connected := { nonce := fun _ => 0, heartbeat := fun _ => none, queues := .empty }

variable (capacity : ConnQueue → ℕ+)

/-- One step of one task; `none` while that task waits. -/
def step (self : Connected) : ConnectedStep → Option Connected
  | .tick side timestamp_ms =>
    match self.heartbeat side with
    | none =>
      let nonce := self.nonce side + 1
      some { self with
        nonce := Function.update self.nonce side nonce
        heartbeat := Function.update self.heartbeat side (some (.Ping nonce timestamp_ms)) }
    | some _ => none
  | .heartbeat_send side =>
    match self.heartbeat side with
    | some ping =>
      (self.queues.enqueue (ring capacity) (.outbound side) ping).map
        (fun queues => { self with
          queues, heartbeat := Function.update self.heartbeat side none })
    | none => none
  | .write_recv side =>
    (self.queues.take (ring capacity) (.outbound side)).map
      (fun queues => { self with queues })
  | .write_message side =>
    (self.queues.put (ring capacity) (.outbound side)).map (fun queues => { self with queues })
  | .read_message side =>
    (self.queues.take (ring capacity) (.link side.other)).map
      (fun queues => { self with queues })
  | .inbound_send side =>
    (self.queues.put (ring capacity) (.link side.other)).map (fun queues => { self with queues })
  | .inbound_recv side =>
    (self.queues.take (ring capacity) (.inbound side)).map (fun queues => { self with queues })
  | .reply_send side =>
    (self.queues.put (ring capacity) (.inbound side)).map (fun queues => { self with queues })

/-- There are messages in flight, and none of the six loops can do anything
about it. -/
def Deadlocked (self : Connected) : Prop :=
  0 < self.queues.load ∧ ∀ a, a.of_loop = true → self.step capacity a = none

end Connected

/-! ## What a step can do

Every step is one of four kinds. -/

namespace ConnQueue

/-- The step in which the task of the queue takes a message from it. -/
def taking : ConnQueue → ConnectedStep
  | .outbound side => .write_recv side
  | .link side => .read_message side.other
  | .inbound side => .inbound_recv side

/-- The step in which it puts one into the next queue. -/
def putting : ConnQueue → ConnectedStep
  | .outbound side => .write_message side
  | .link side => .inbound_send side.other
  | .inbound side => .reply_send side

end ConnQueue

/-- The steps of the loops are takings and puttings, so the general results about queues
cover them. -/
theorem of_loop_iff (a : ConnectedStep) :
    a.of_loop = true ↔ ∃ q : ConnQueue, a = q.taking ∨ a = q.putting := by
  constructor
  · intro h
    cases a with
    | tick side timestamp_ms | heartbeat_send side => cases h
    | write_recv side => exact ⟨.outbound side, .inl rfl⟩
    | write_message side => exact ⟨.outbound side, .inr rfl⟩
    | read_message side => exact ⟨.link side.other, .inl (by simp [ConnQueue.taking])⟩
    | inbound_send side => exact ⟨.link side.other, .inr (by simp [ConnQueue.putting])⟩
    | inbound_recv side => exact ⟨.inbound side, .inl rfl⟩
    | reply_send side => exact ⟨.inbound side, .inr rfl⟩
  · rintro ⟨q, rfl | rfl⟩ <;> cases q <;> rfl

namespace Connected

variable {capacity : ConnQueue → ℕ+} {self next : Connected}

/-- A taking is that of the queue, and the rest of the state stays. -/
theorem step_taking (q : ConnQueue) : self.step capacity q.taking
    = (self.queues.take (ring capacity) q).map (fun queues => { self with queues }) := by
  cases q <;> simp [ConnQueue.taking, step]

/-- So is a putting. -/
theorem step_putting (q : ConnQueue) : self.step capacity q.putting
    = (self.queues.put (ring capacity) q).map (fun queues => { self with queues }) := by
  cases q <;> simp [ConnQueue.putting, step]

/-- The queues between the heartbeats and the loops. A step is a tick, a `Ping`
put in by a heartbeat, or a message taken or put by one of the loops. -/
theorem step_cases {a : ConnectedStep} (h : self.step capacity a = some next) :
    (∃ side ts ping, a = .tick side ts ∧ self.heartbeat side = none ∧
      ping = .Ping (self.nonce side + 1) ts ∧ next.queues = self.queues ∧
      next.heartbeat = Function.update self.heartbeat side (some ping)) ∨
    (∃ side ping, a = .heartbeat_send side ∧ self.heartbeat side = some ping ∧
      self.queues.enqueue (ring capacity) (.outbound side) ping = some next.queues ∧
      next.heartbeat = Function.update self.heartbeat side none) ∨
    (∃ q : ConnQueue, a = q.taking ∧ self.queues.take (ring capacity) q = some next.queues ∧
      next.heartbeat = self.heartbeat) ∨
    (∃ q : ConnQueue, a = q.putting ∧ self.queues.put (ring capacity) q = some next.queues ∧
      next.heartbeat = self.heartbeat) := by
  -- the six loops alike, and the heartbeats
  by_cases hloop : a.of_loop = true
  · obtain ⟨q, rfl | rfl⟩ := (of_loop_iff a).mp hloop
    · rw [step_taking] at h
      obtain ⟨queues, hq, rfl⟩ := Option.map_eq_some_iff.mp h
      exact .inr (.inr (.inl ⟨q, rfl, hq, rfl⟩))
    · rw [step_putting] at h
      obtain ⟨queues, hq, rfl⟩ := Option.map_eq_some_iff.mp h
      exact .inr (.inr (.inr ⟨q, rfl, hq, rfl⟩))
  · cases a with
    | tick side ts =>
        cases hbeat : self.heartbeat side with
        | some ping => simp [step, hbeat] at h
        | none =>
            simp only [step, hbeat, Option.some.injEq] at h
            subst h
            exact .inl ⟨side, ts, _, rfl, hbeat, rfl, rfl, rfl⟩
    | heartbeat_send side =>
        cases hbeat : self.heartbeat side with
        | none => simp [step, hbeat] at h
        | some ping =>
            simp only [step, hbeat] at h
            obtain ⟨queues, hq, rfl⟩ := Option.map_eq_some_iff.mp h
            exact .inr (.inl ⟨side, ping, rfl, hbeat, hq, rfl⟩)
    | _ => exact absurd rfl hloop

/-- No queue ever holds more than its capacity, whoever puts something in. -/
theorem step_bounded (self next : Connected) (a : ConnectedStep)
    (hb : self.queues.Bounded (ring capacity)) (h : self.step capacity a = some next) :
    next.queues.Bounded (ring capacity) := by
  rcases step_cases h with ⟨_, _, _, -, -, -, hq, -⟩ | ⟨_, _, -, -, hq, -⟩ | ⟨q, -, hq, -⟩ |
    ⟨q, -, hq, -⟩
  · rw [hq]
    exact hb
  · exact hb.enqueue hq
  · exact hb.take hq
  · exact hb.put hq

/-! ## When two daemons lock each other up

`stuck_iff_full`, applied: a deadlock is a full ring, and the ring is filled by whoever
puts the last `Ping` in. -/

/-- **The deadlock.** It has one shape: every queue is full and every loop
holds a message. -/
theorem deadlocked_iff (hb : self.queues.Bounded (ring capacity)) :
    self.Deadlocked capacity ↔ self.queues.load = (ring capacity).room := by
  have hblocked : (∀ a, a.of_loop = true → self.step capacity a = none) ↔
      ∀ q, self.queues.Blocked (ring capacity) q := by
    constructor
    · intro h q
      have htake := h q.taking ((of_loop_iff _).mpr ⟨q, .inl rfl⟩)
      have hput := h q.putting ((of_loop_iff _).mpr ⟨q, .inr rfl⟩)
      rw [step_taking, Option.map_eq_none_iff] at htake
      rw [step_putting, Option.map_eq_none_iff] at hput
      exact ⟨htake, hput⟩
    · intro h a ha
      obtain ⟨q, rfl | rfl⟩ := (of_loop_iff a).mp ha
      · rw [step_taking, (h q).1, Option.map_none]
      · rw [step_putting, (h q).2, Option.map_none]
  have hstuck := Queues.stuck_iff_full (ring_ring capacity) hb
  rw [Deadlocked, hblocked, and_comm, hstuck]
  exact ⟨fun h => h.2, fun h => ⟨⟨.outbound .A⟩, h⟩⟩

/-- A heartbeat does not fill the last free place: after its `Ping` there is
still one in some queue or some loop's hands. -/
def LeavesRoom (capacity : ConnQueue → ℕ+) (self : Connected) : ConnectedStep → Prop
  | .heartbeat_send _ => self.queues.load + 1 < (ring capacity).room
  | _ => True

/-- What the loops do adds no message. -/
theorem step_load {a : ConnectedStep} (h : self.step capacity a = some next) :
    (∃ side, a = .heartbeat_send side ∧ next.queues.load = self.queues.load + 1) ∨
      ((∀ side, a ≠ .heartbeat_send side) ∧ next.queues.load ≤ self.queues.load) := by
  rcases step_cases h with ⟨_, _, _, rfl, -, -, hq, -⟩ | ⟨side, _, rfl, -, hq, -⟩ |
    ⟨q, rfl, hq, -⟩ | ⟨q, rfl, hq, -⟩
  · exact .inr ⟨by rintro _ ⟨⟩, by rw [hq]⟩
  · exact .inl ⟨side, rfl, Queues.weight_enqueue _ _ hq⟩
  · obtain ⟨m, -, hload⟩ := Queues.weight_take (fun _ => 1) (fun _ => 1) hq
    refine .inr ⟨by cases q <;> rintro _ ⟨⟩, ?_⟩
    have hone : ((ring capacity).received q m).toList.length ≤ 1 := by
      cases (ring capacity).received q m <;> simp
    unfold Queues.load
    omega
  · have hload := Queues.weight_put (fun _ => 1) (fun _ => 1) hq
    refine .inr ⟨by cases q <;> rintro _ ⟨⟩, ?_⟩
    unfold Queues.load
    omega

/-- **One step.** -/
theorem step_deadlocked_iff (self next : Connected) (a : ConnectedStep)
    (hb : self.queues.Bounded (ring capacity)) (hgood : ¬ self.Deadlocked capacity)
    (h : self.step capacity a = some next) :
    ¬ next.Deadlocked capacity ↔ self.LeavesRoom capacity a := by
  have hnext := step_bounded self next a hb h
  have hle := Queues.load_le_room hb
  have hle' := Queues.load_le_room hnext
  rw [deadlocked_iff hb] at hgood
  rw [deadlocked_iff hnext]
  rcases step_load h with ⟨side, rfl, hload⟩ | ⟨hother, hload⟩
  · simp only [LeavesRoom]
    omega
  · refine iff_of_true (by omega) ?_
    cases a with
    | heartbeat_send side => exact absurd rfl (hother side)
    | _ => trivial

/-- **When two peers never deadlock each other.** Whatever the capacities and
however the eight tasks interleave: no state of a run is deadlocked exactly
when no heartbeat fills the last free place. -/
theorem no_deadlock_iff (capacity : ConnQueue → ℕ+) (steps : List ConnectedStep)
    (last : Connected) (hrun : exec (step capacity) new steps = some last) :
    (∀ pre suf t, steps = pre ++ suf → exec (step capacity) new pre = some t →
        ¬ t.Deadlocked capacity) ↔
      (∀ pre a suf t, steps = pre ++ a :: suf → exec (step capacity) new pre = some t →
        t.LeavesRoom capacity a) := by
  have hbounded : new.queues.Bounded (ring capacity) := Queues.bounded_empty _
  have hgood : ¬ new.Deadlocked capacity := by
    rintro ⟨hload, -⟩
    exact absurd hload (by decide)
  exact exec_guarded_iff (step capacity) (fun t => t.queues.Bounded (ring capacity))
    (fun t => ¬ t.Deadlocked capacity) (LeavesRoom capacity) _ last steps hbounded hgood
    step_bounded step_deadlocked_iff hrun

/-- The equivalence for one `Ping` and its answer, with room for one message
everywhere. -/
theorem no_deadlock_iff_answered :
    let capacity : ConnQueue → ℕ+ := fun _ => 1
    let steps : List ConnectedStep :=
      [.tick .A 500, .heartbeat_send .A, .write_recv .A, .write_message .A, .read_message .B,
        .inbound_send .B, .inbound_recv .B, .reply_send .B]
    (∀ pre suf t, steps = pre ++ suf → exec (step capacity) new pre = some t →
        ¬ t.Deadlocked capacity) ↔
      (∀ pre a suf t, steps = pre ++ a :: suf → exec (step capacity) new pre = some t →
        t.LeavesRoom capacity a) :=
  no_deadlock_iff (fun _ => 1)
    [.tick .A 500, .heartbeat_send .A, .write_recv .A, .write_message .A, .read_message .B,
      .inbound_send .B, .inbound_recv .B, .reply_send .B]
    _ (Option.some_get (by rfl)).symm

/-! ## Every pair can get there

Whether the ring ever fills is a question of scheduling. This section gives a schedule
for any capacities: nobody answers until everything is full. -/

/-- The message is a `Ping`, whatever it carries. -/
def IsPing (msg : Message) : Prop := ∃ nonce timestamp_ms, msg = .Ping nonce timestamp_ms

/-- The machine in which no answer is sent: both `inbound_loop`s wait where
they hold a `Pong`. -/
def fill_step (capacity : ConnQueue → ℕ+) (self : Connected) (a : ConnectedStep) :
    Option Connected :=
  match a with
  | .reply_send _ => none
  | a => self.step capacity a

/-- So there are only `Ping`s, but for the answers in hand. -/
structure Unanswered (t : Connected) : Prop where
  heartbeat : ∀ side ping, t.heartbeat side = some ping → IsPing ping
  contents : Queues.Contents (fun _ m => IsPing m)
    (fun q m => (∀ side, q ≠ .inbound side) → IsPing m) t.queues

/-- A step of the restricted machine is one of the machine, so the states it reaches are
reachable. -/
theorem fill_step_eq_some {a : ConnectedStep} (h : self.fill_step capacity a = some next) :
    self.step capacity a = some next ∧ ∀ side, a ≠ .reply_send side := by
  unfold fill_step at h
  split at h
  · cases h
  · rename_i hother
    exact ⟨h, fun side hside => hother side hside⟩

/-- A loop that may still put its message is no `inbound_loop`. -/
theorem putting_fills {q : ConnQueue} (h : ∀ side, q.putting ≠ .reply_send side) :
    ∀ side, q ≠ .inbound side := by
  rintro side rfl
  exact h side rfl

/-- In it no answer ever gets into a queue. -/
theorem fill_step_unanswered (self next : Connected) (a : ConnectedStep) (hu : Unanswered self)
    (h : self.fill_step capacity a = some next) : Unanswered next := by
  obtain ⟨hstep, hother⟩ := fill_step_eq_some h
  rcases step_cases hstep with ⟨side, ts, ping, -, -, hping, hq, hbeat⟩ |
    ⟨side, ping, -, hping, hq, hbeat⟩ | ⟨q, -, hq, hbeat⟩ | ⟨q, rfl, hq, hbeat⟩
  -- a heartbeat makes its `Ping`: the queues are as they were, and what the heartbeat
  -- now holds is a `Ping`
  · refine ⟨?_, by rw [hq]; exact hu.contents⟩
    intro side' ping' hp
    rw [hbeat] at hp
    by_cases hs : side' = side
    · subst hs
      rw [Function.update_self, Option.some.injEq] at hp
      exact ⟨_, ts, by rw [← hp, hping]⟩
    · rw [Function.update_of_ne hs] at hp
      exact hu.heartbeat side' ping' hp
  -- it puts the `Ping` into its queue, which then holds one more
  · refine ⟨?_, hu.contents.enqueue (hu.heartbeat side ping hping) hq⟩
    intro side' ping' hp
    rw [hbeat] at hp
    by_cases hs : side' = side
    · subst hs
      rw [Function.update_self] at hp
      cases hp
    · rw [Function.update_of_ne hs] at hp
      exact hu.heartbeat side' ping' hp
  -- a task takes a message; an inbound loop does not, for that would answer it
  · refine ⟨by rw [hbeat]; exact hu.heartbeat, hu.contents.take ?_ hq⟩
    intro m m' hm hreceived hq'
    cases q with
    | outbound side | link side =>
        cases hreceived
        exact hm
    | inbound side => exact absurd rfl (hq' side)
  -- a task passes on what it holds, and by assumption that is a `Ping`
  · refine ⟨by rw [hbeat]; exact hu.heartbeat, hu.contents.put ?_ hq⟩
    intro m hm
    exact hm (putting_fills hother)

/-- How far a message in the queue has come. -/
def stage : ConnQueue → Nat
  | .outbound _ => 2
  | .link _ => 4
  | .inbound _ => 6

/-- How far all the messages have come. -/
def progress (self : Connected) : Nat :=
  self.queues.weight stage (fun q => stage q + 1) + (self.heartbeat .A).toList.length
    + (self.heartbeat .B).toList.length

/-- Messages cannot come further than to the last queue, and there is room for so many
of them. So the restricted machine stops. -/
theorem progress_le (hb : self.queues.Bounded (ring capacity)) :
    self.progress ≤ ∑ q, stage q * capacity q + ∑ q, (stage q + 1) + 2 := by
  have hweight := Queues.weight_le stage (fun q => stage q + 1) hb
  have hone : ∀ side, (self.heartbeat side).toList.length ≤ 1 := by
    intro side
    cases self.heartbeat side <;> simp
  have hA := hone .A
  have hB := hone .B
  have hcap : ∑ q, stage q * ((ring capacity).capacity q : Nat)
      = ∑ q, stage q * (capacity q : Nat) := rfl
  unfold progress
  omega

/-- Without answers every step brings a message further. -/
theorem fill_step_progress {a : ConnectedStep} (hu : Unanswered self)
    (h : self.fill_step capacity a = some next) : self.progress < next.progress := by
  obtain ⟨hstep, hother⟩ := fill_step_eq_some h
  unfold progress
  rcases step_cases hstep with ⟨side, ts, ping, -, hnone, -, hq, hbeat⟩ |
    ⟨side, ping, -, hping, hq, hbeat⟩ | ⟨q, -, hq, hbeat⟩ | ⟨q, rfl, hq, hbeat⟩
  · rw [hq, hbeat]
    cases side <;> simp [hnone]
  -- two stages up: the outbound queue is the first of the way
  · have hweight := Queues.weight_enqueue stage (fun q => stage q + 1) hq
    have htwo : stage (.outbound side) = 2 := rfl
    rw [hweight, htwo, hbeat]
    cases side with
    | A => simp [hping]
    | B =>
        simp [hping]
        omega
  -- taken from its queue the message counts one more, as it is now in a hand
  · obtain ⟨m, hqueue, hweight⟩ := Queues.weight_take stage (fun q => stage q + 1) hq
    have hm : IsPing m := hu.contents.queue q m (by rw [hqueue]; exact List.mem_cons_self)
    have hone : ((ring capacity).received q m).toList.length = 1 := by
      obtain ⟨nonce, ts, rfl⟩ := hm
      cases q <;> rfl
    rw [hone] at hweight
    rw [hbeat]
    omega
  -- the next queue is two stages further, so the hand's one is more than made up for
  · have hweight := Queues.weight_put stage (fun q => stage q + 1) hq
    have hnext : stage ((ring capacity).next q) = stage q + 2 := by
      cases q with
      | outbound side | link side => rfl
      | inbound side => exact absurd rfl (hother side)
    rw [hbeat]
    omega

/-- When nothing moves any more without answers, everything is full. -/
theorem fill_stuck (hb : self.queues.Bounded (ring capacity))
    (h : ∀ a, self.fill_step capacity a = none) : self.Deadlocked capacity := by
  have hbeat : ∀ side, ∃ ping, self.heartbeat side = some ping := by
    intro side
    have htick := h (.tick side 0)
    cases hnone : self.heartbeat side with
    | some ping => exact ⟨ping, rfl⟩
    | none => simp [fill_step, step, hnone] at htick
  have htake : ∀ q : ConnQueue, self.queues.take (ring capacity) q = none := by
    intro q
    have hq : self.step capacity q.taking = none := by
      rw [← h q.taking]
      cases q <;> rfl
    rwa [step_taking, Option.map_eq_none_iff] at hq
  have hput : ∀ q : ConnQueue, (∀ side, q ≠ .inbound side) →
      self.queues.put (ring capacity) q = none := by
    intro q hq'
    have hq : self.step capacity q.putting = none := by
      rw [← h q.putting]
      cases q with
      | outbound side | link side => rfl
      | inbound side => exact absurd rfl (hq' side)
    rwa [step_putting, Option.map_eq_none_iff] at hq
  have hne : ∀ q : ConnQueue, (ring capacity).capacity q ≤ (self.queues.queue q).length →
      self.queues.queue q ≠ [] := fun q hfull => Queues.queue_ne_nil q hfull
  -- the heartbeats wait for room in the outbound channels, and so on down the line
  have houtbound : ∀ side,
      capacity (.outbound side) ≤ (self.queues.queue (.outbound side)).length := by
    intro side
    obtain ⟨ping, hping⟩ := hbeat side
    have hsend := h (.heartbeat_send side)
    simp only [fill_step, step, hping, Option.map_eq_none_iff, Queues.enqueue] at hsend
    split_ifs at hsend with hroom
    exact Nat.not_lt.mp hroom
  have hforward : ∀ q : ConnQueue, (∀ side, q ≠ .inbound side) →
      capacity q ≤ (self.queues.queue q).length →
      self.queues.hand q ≠ none ∧ capacity q.next ≤ (self.queues.queue q.next).length := by
    intro q hq hfull
    have hblocked : self.queues.Blocked (ring capacity) q := ⟨htake q, hput q hq⟩
    exact Queues.full_after hblocked (.inl (hne q hfull))
  have hlink := fun side => hforward (.outbound side) (by rintro _ ⟨⟩) (houtbound side)
  have hinbound := fun side => hforward (.link side) (by rintro _ ⟨⟩) (hlink side).2
  have hanswer : ∀ side, self.queues.hand (.inbound side) ≠ none := by
    intro side
    have hfull := (hinbound side.other).2
    rw [ConnQueue.next, Side.other_other] at hfull
    exact Queues.hand_of_take_eq_none (htake (.inbound side)) (hne _ hfull)
  apply (deadlocked_iff hb).mpr
  apply (Queues.load_eq_room_iff hb).mpr
  rintro (side | side | side)
  · exact ⟨Nat.le_antisymm (hb _) (houtbound side), (hlink side).1⟩
  · exact ⟨Nat.le_antisymm (hb _) (hlink side).2, (hinbound side).1⟩
  · have hfull := (hinbound side.other).2
    rw [ConnQueue.next, Side.other_other] at hfull
    exact ⟨Nat.le_antisymm (hb _) hfull, hanswer side⟩

/-- **Two daemons can lock each other up, whatever the capacities.** -/
theorem deadlock_reachable (capacity : ConnQueue → ℕ+) :
    ∃ steps last, exec (step capacity) new steps = some last ∧ last.Deadlocked capacity := by
  -- only steps that answer nothing are taken, and the invariant is what they keep
  let inv : Connected → Prop := fun t => t.queues.Bounded (ring capacity) ∧ Unanswered t
  have hnew : inv new := by
    refine ⟨Queues.bounded_empty _, ?_, ?_, ?_⟩
    · rintro side ping ⟨⟩
    · rintro q m ⟨⟩
    · rintro q m ⟨⟩
  have hkeep : ∀ m n a, inv m → m.fill_step capacity a = some n → inv n := by
    rintro m n a ⟨hb, hu⟩ h
    exact ⟨step_bounded m n a hb (fill_step_eq_some h).1, fill_step_unanswered m n a hu h⟩
  -- progress is bounded by what all queues and hands can hold, so such a run ends
  let bound := ∑ q, stage q * (capacity q : Nat) + ∑ q, (stage q + 1) + 2
  obtain ⟨steps, last, hrun, hdone⟩ := exec_reaches (fill_step capacity)
    (fun t => bound - t.progress) (fun t => inv t → t.Deadlocked capacity) (by
      -- where no such step is left, nothing at all can move
      intro t ht
      obtain ⟨hinv, hlive⟩ := Classical.not_imp.mp ht
      have hmove : ∃ a n, t.fill_step capacity a = some n := by
        by_contra hnone
        apply hlive
        apply fill_stuck hinv.1
        intro a
        by_contra hsome
        obtain ⟨n, hn⟩ := Option.ne_none_iff_exists'.mp hsome
        exact hnone ⟨a, n, hn⟩
      obtain ⟨a, n, hn⟩ := hmove
      have hlt := fill_step_progress hinv.2 hn
      have hle := progress_le (hkeep t n a hinv hn).1
      exact ⟨a, n, hn, by omega⟩) new
  have hinv := exec_invariant (fill_step capacity) inv new last steps hnew
    (fun m n a _ => hkeep m n a) hrun
  exact ⟨steps, last, exec_mono (step capacity) (fill_step capacity)
    (fun s t a hst => (fill_step_eq_some hst).1) new last steps hrun, hdone hinv⟩

/-- **Locked up.** With the channels of the two daemons, which hold 256
messages each, and links of 64. -/
theorem daemons_deadlock :
    let capacity : ConnQueue → ℕ+ := fun q => match q with
      | .link _ => 64
      | .outbound _ | .inbound _ => 256
    ∃ steps last, exec (step capacity) new steps = some last ∧ last.Deadlocked capacity :=
  deadlock_reachable _

end Connected

end InputSync
