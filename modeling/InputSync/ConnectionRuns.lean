/-
The runs of a connection.

In every run each session receives the messages of the other one in their order and
without a gap, up to where the run has come (`delivered_in_order`), and both are told
the same about the connection (`handshake_agrees`). That everything is received holds
for connections that are left alone. They come to rest, since every step takes
something from the bytes and messages still under way (`Connection.work`), and at
rest nothing is left of them (`all_delivered`).
-/
import InputSync.Connection
import InputSync.Trace

set_option autoImplicit false

namespace InputSync

/-! ## Runs

The invariant of a connection is that of its two ends and of the two streams between
them. The streams supply what an end cannot know of itself, namely that the first
message it reads is the first one the other end sent. -/

namespace Connection

/-- Both ends are where their records say, and both directions are streams of frames. -/
structure Kept (cfg : Side → LocalPeer) (conn : Connection) : Prop where
  ends : ∀ side, (conn.ends side).Kept cfg side
  flow : ∀ side : Side, Flow (conn.ends side).sent (conn.ends side.other).read
    (conn.ends side).unwritten (conn.ends side.other).incoming (conn.ends side.other).incoming_ended

variable {cfg : Side → LocalPeer} {self n : Connection}

/-- Access to the end that moved and to the one that did not. With these three lemmas a
step of a connection is reasoned about one end at a time. -/
@[simp] theorem put_same (conn : Connection) (side : Side) (e : ConnEnd) :
    (conn.put side e).ends side = e := by
  simp [put]

/-- Replacing one end leaves the other. -/
@[simp] theorem put_other (conn : Connection) (side : Side) (e : ConnEnd) :
    (conn.put side e).ends side.other = conn.ends side.other := by
  simp [put]

/-- The same, seen from the other side. -/
@[simp] theorem put_of_other (conn : Connection) (side : Side) (e : ConnEnd) :
    (conn.put side.other e).ends side = conn.ends side := by
  simp [put]

/-- A fresh connection: two ends at their start and two empty streams. -/
theorem kept_new : new.Kept cfg :=
  ⟨fun _ => ConnEnd.kept_new, fun _ => .new⟩

/-- **What is read first** is the other side's greeting. -/
theorem Kept.hears_first (h : self.Kept cfg) (side : Side) :
    (self.ends side).HearsFirst cfg side := by
  have hflow := h.flow side.other
  rw [Side.other_other] at hflow
  refine ⟨?_, fun err herr => hflow.short herr⟩
  intro hread m rest hm
  have hprefix := (hflow.take hm).prefix_sent
  rw [hread, List.nil_append] at hprefix
  obtain ⟨more, hsent⟩ := hprefix
  refine (h.ends side.other).said.1 m ?_
  rw [← hsent]
  rfl

/-- One end moves on, and keeps its two streams. -/
theorem Kept.put_flows (h : self.Kept cfg) {side : Side} {e : ConnEnd} (he : e.Kept cfg side)
    (hflows : (self.ends side).Flows e) : (self.put side e).Kept cfg where
  ends := by
    intro s
    rcases Side.eq_or_other side s with rfl | rfl
    · rwa [put_same]
    · rw [put_other]
      exact h.ends side.other
  flow := by
    intro s
    rcases Side.eq_or_other side s with rfl | rfl
    · rw [put_same, put_other]
      exact hflows.outgoing _ _ _ (h.flow _)
    · have hflow := h.flow side.other
      rw [Side.other_other] at hflow ⊢
      rw [put_same, put_other]
      exact hflows.incoming _ _ hflow

/-- **A step of a connection.** -/
theorem step_kept {a : ConnStep} (h : self.Kept cfg) (hstep : self.step cfg a = some n) :
    n.Kept cfg := by
  cases a with
  -- a step of one end: it keeps that end, and the bytes between the two are as its
  -- `Flows` says
  | act side a =>
      obtain ⟨e, he, rfl⟩ := Option.map_eq_some_iff.mp hstep
      exact h.put_flows (ConnEnd.step_kept (h.ends side) (h.hears_first side) he)
        (ConnEnd.step_flows (h.ends side) he)
  -- bytes leave one end and arrive at the other, so both ends change
  | write side count =>
      simp only [step] at hstep
      split_ifs at hstep with hguard
      obtain ⟨-, -, hgoing, hopen⟩ := hguard
      cases hstep
      constructor
      -- the ends: one has written and the other has only received
      · intro s
        rcases Side.eq_or_other side s with rfl | rfl
        · rw [put_of_other, put_same]
          exact ConnEnd.write_kept (h.ends _) hgoing count
        · rw [put_same]
          exact ConnEnd.incoming_kept (h.ends side.other) _ _
      -- the bytes: what was on its way is so still, one step further; the other
      -- direction is untouched
      · have hflow := h.flow side
        have hback := h.flow side.other
        rw [Side.other_other] at hback
        rw [hopen] at hflow
        intro s
        rcases Side.eq_or_other side s with rfl | rfl
        · rw [put_of_other, put_same, put_same]
          have hwritten := hflow.write count
          rwa [← hopen] at hwritten
        · rw [Side.other_other, put_same, put_of_other, put_same]
          exact hback
  | finish side =>
      simp only [step] at hstep
      split_ifs at hstep
      cases hstep
      apply h.put_flows (ConnEnd.incoming_kept (h.ends side.other) _ _)
      exact ⟨fun _ _ _ hflow => hflow, fun _ _ hflow => hflow.finish⟩
  | write_failed side =>
      simp only [step] at hstep
      split_ifs at hstep
      obtain ⟨e, he, rfl⟩ := Option.map_eq_some_iff.mp hstep
      exact h.put_flows (ConnEnd.write_failed_kept (h.ends side) he)
        (ConnEnd.write_failed_flows he)
  -- what has arrived by then stays readable; the rest is gone
  | lose arrived =>
      simp only [step] at hstep
      split_ifs at hstep
      cases hstep
      exact ⟨fun side => ConnEnd.incoming_kept (h.ends side) _ _,
        fun side => (h.flow side).lose (arrived side.other)⟩

/-- The invariant along every run, by the rule for partial machines. Everything this
file says of a run reads something off `Kept` at its end. -/
theorem run_kept (steps : List ConnStep) (last : Connection)
    (h : exec (step cfg) new steps = some last) : last.Kept cfg :=
  exec_invariant (step cfg) (Kept cfg) new last steps kept_new
    (fun _ _ _ _ hm hstep => step_kept hm hstep) h

/-- Behind the greetings, too, what was read is the beginning of what was sent. -/
theorem Kept.tail_prefix (h : self.Kept cfg) (side : Side) :
    (self.ends side.other).read.tail <+: (self.ends side).sent.tail := by
  obtain ⟨more, hsent⟩ := (h.flow side).prefix_sent
  rw [← hsent]
  cases (self.ends side.other).read with
  | nil => exact List.nil_prefix
  | cons m read => exact List.prefix_append _ _

/-- What a session receives is the beginning of what the other one queued. -/
theorem Kept.delivered (h : self.Kept cfg) (side : Side) :
    (self.ends side.other).handled <+: (self.ends side).queued := by
  have hread := (h.ends side.other).handled.trans (h.tail_prefix side)
  exact hread.trans (h.ends side).said.2

/-- **Nothing lost, doubled or out of order.** What a session receives is at every
time the beginning of what the other one queued, through any cut of the frames on
the way, any interleaving of the tasks and any end of the connection. -/
theorem delivered_in_order (steps : List ConnStep) (last : Connection)
    (h : exec (step cfg) new steps = some last) (side : Side) :
    (last.ends side.other).handled <+: (last.ends side).queued :=
  (run_kept steps last h).delivered side

/-- Two daemons. -/
def a_and_b : Side → LocalPeer
  | .A => ⟨⟨⟨#[1, 0, 0, 0, 0, 0, 0, 0, 0, 0, 0, 0, 0, 0, 0, 0], rfl⟩⟩, "a"⟩
  | .B => ⟨⟨⟨#[2, 0, 0, 0, 0, 0, 0, 0, 0, 0, 0, 0, 0, 0, 0, 0], rfl⟩⟩, "b"⟩

/-- Their handshake, the `Hello` in two pieces. -/
def handshake_steps : List ConnStep :=
  [.act .B .open_stream, .write .B 40, .act .A .open_stream, .write .B 17, .act .B .written,
    .act .A .hear, .write .A 59, .act .A .written, .act .A .announce, .act .B .hear,
    .act .B .announce]

/-- A `Ping` cut in two, with the connection lost behind it. -/
theorem delivered_in_order_one :
    let steps := handshake_steps ++ [.act .A (.enqueue (.Ping 1 2)), .act .A .next, .write .A 10,
      .write .A 22, .lose (fun _ => 32), .act .B .read, .act .B .send_inbound, .act .B .handle]
    ∃ last, exec (step a_and_b) new steps = some last ∧
      (last.ends .B).handled <+: (last.ends .A).queued := by
  intro steps
  have hrun : (exec (step a_and_b) new steps).isSome := by
    dsimp only [steps]
    decide +kernel
  obtain ⟨last, hlast⟩ := Option.isSome_iff_exists.mp hrun
  exact ⟨last, hlast, delivered_in_order steps last hlast .A⟩

/-- A side whose session knows of the connection has read the other's greeting to its
end, so that the other side has not failed over it. -/
theorem Kept.not_failed (h : self.Kept cfg) (hevents : (self.ends .B).events ≠ [])
    (f : ConnectFailure) : (self.ends .A).stage ≠ .failed f := by
  intro hat
  have hA := h.ends .A
  unfold ConnEnd.Kept at hA
  simp only [hat] at hA
  obtain ⟨-, said, heard, hun, hsaid, -, hrest⟩ := hA
  rcases (h.ends .B).cases with ⟨said', heard', hun', -⟩ | ⟨told, hsp, -⟩
  · exact hevents hun'.events
  · obtain ⟨got, hread, -⟩ := hsp.reading
    have hflow := h.flow .A
    have hprefix := hflow.prefix_sent
    simp only [Side.other] at hflow hprefix hread
    rw [hread, hun.sent] at hprefix
    -- the server said its greeting and nothing else, and all of it was read
    obtain rfl : said = [greet cfg .A] := by
      rcases List.prefix_cons_iff.mp hsaid with rfl | ⟨said, rfl, hnil⟩
      · exact absurd (List.prefix_nil.mp hprefix) (List.cons_ne_nil _ _)
      · rw [List.prefix_nil.mp hnil]
    obtain ⟨-, hgot⟩ := List.cons_prefix_cons.mp hprefix
    obtain rfl := List.prefix_nil.mp hgot
    rw [hread, hun.sent] at hflow
    exact hrest rfl trivial hflow.written

/-- What the sessions are told, and how the handshake can fail. -/
structure Agreed (cfg : Side → LocalPeer) (conn : Connection) : Prop where
  told : ∀ side : Side, (conn.ends side).events
    <+: [.Connected (cfg side.other), .Disconnected (cfg side.other).local_peer_id]
  failed : ∀ side f, (conn.ends side).stage = .failed f →
    f.Unavoidable ∧ (conn.ends side).events = [] ∧ (conn.ends side).handled = []
  accepted : (conn.ends .B).events ≠ [] → ∀ f, (conn.ends .A).stage ≠ .failed f

/-- **The handshake agrees.** In every run each session is told of the other daemon,
once, and of its leaving, once; neither side ever takes the other's words for
anything else, so that it fails only with the network; and a client that is
connected has a server that took its `Hello`. -/
theorem handshake_agrees (steps : List ConnStep) (last : Connection)
    (h : exec (step cfg) new steps = some last) : last.Agreed cfg := by
  have hk := run_kept steps last h
  refine ⟨?_, ?_, hk.not_failed⟩
  · intro side
    rcases (hk.ends side).cases with ⟨said, heard, hun, -⟩ | ⟨told, hsp, htold⟩
    · rw [hun.events]
      exact List.nil_prefix
    · rw [hsp.events]
      exact (List.prefix_cons_inj _).mpr htold
  · intro side f hat
    have he := hk.ends side
    unfold ConnEnd.Kept at he
    simp only [hat] at he
    obtain ⟨hf, said, heard, hun, -⟩ := he
    exact ⟨hf, hun.events, hun.handled⟩

/-- A handshake that the client hangs up on before it has heard the `Welcome`. -/
theorem handshake_agrees_dropped :
    let steps := handshake_steps.take 9 ++ [.act .B .drop, .finish .B, .act .A .read,
      .act .A .loop_ended, .act .A .leave]
    ∃ last, exec (step a_and_b) new steps = some last ∧ last.Agreed a_and_b := by
  intro steps
  have hrun : (exec (step a_and_b) new steps).isSome := by
    dsimp only [steps]
    decide +kernel
  obtain ⟨last, hlast⟩ := Option.isSome_iff_exists.mp hrun
  exact ⟨last, hlast, handshake_agrees steps last hlast⟩

end Connection

/-! ## Connections that are left alone

Delivery in order says nothing about when. For that the ends must not hang up, the
network must hold and every message must be one that can be written; such runs are
*calm*. An end of a calm connection stays `Up`, and where nothing more can happen
`AtRest` leaves only one possibility: both ends are in their peer loops with nothing
under way. -/

/-- The message can be written. -/
def Message.Fits (self : Message) : Prop := ∃ frame, encode_frame self = .ok frame

/-- Whether a message fits is decided by running the encoder, so for a given
message it is checked by evaluation. -/
theorem Message.fits_of_ok {msg : Message} (h : (encode_frame msg).isOk = true) : msg.Fits := by
  cases hframe : encode_frame msg with
  | ok frame => exact ⟨frame, hframe⟩
  | error e =>
      rw [hframe] at h
      cases h

/-- Nobody hangs up, the network holds, and what is queued can be written. -/
def ConnStep.Calm : ConnStep → Prop
  | .act _ .drop | .act _ .unattend | .lose _ => False
  | .act _ (.enqueue msg) => msg.Fits
  | _ => True

/-- The future of `connect_once` or `handle_connection` goes its way. -/
def ConnStage.up : ConnStage → Bool
  | .refusing _ | .leaving _ | .returned | .failed _ | .dropped => false
  | _ => true

/-- Nothing has ended at this end. -/
structure ConnEnd.Up (e : ConnEnd) : Prop where
  stage : e.stage.up = true
  writer : e.writer ≠ .ended
  reader : e.reader ≠ .ended
  incoming : e.incoming_ended = false
  attended : e.attended = true
  outbound : ∀ m ∈ e.outbound, m.Fits

namespace ConnEnd

variable {cfg : Side → LocalPeer} {side : Side} {e n : ConnEnd}

/-- An end starts up. -/
theorem up_new : (new side).Up := by
  cases side <;> exact ⟨rfl, by rintro ⟨⟩, by rintro ⟨⟩, rfl, rfl, by rintro m ⟨⟩⟩

/-- Beginning a message that fits goes through, so the end stays up at the stage it
moves to. -/
theorem Up.begin (h : e.Up) {msg : Message} (hfits : msg.Fits) {stage : ConnStage}
    (hstage : stage.up = true) (failed : StreamError → ConnectFailure) :
    (e.begin msg stage failed).Up := by
  obtain ⟨frame, hframe⟩ := hfits
  have hwrite : write_message msg = .ok frame := by rw [write_message, hframe]; rfl
  rw [ConnEnd.begin, hwrite]
  exact ⟨hstage, h.writer, h.reader, h.incoming, h.attended, h.outbound⟩

/-- On an open stream a message comes, or nothing yet. -/
theorem Up.receive (h : e.Up) (hfirst : e.HearsFirst cfg side)
    {r : Except StreamError Message × ConnEnd} (hr : e.receive = some r) :
    ∃ m rest, read_message e.incoming = (.ok m, rest) ∧
      r = (.ok m, { e with incoming := rest, read := e.read ++ [m] }) := by
  rcases receive_cases hr with hok | ⟨err, herr, -⟩
  · exact hok
  · have hshort := hfirst.2 err herr
    unfold ConnEnd.receive at hr
    split at hr
    · rename_i hread
      rw [hread] at herr
      cases herr
    · rename_i hread
      rw [hread] at herr
      cases herr
      rw [hshort, h.incoming] at hr
      cases hr

/-- The first read on a connection that is up. By `HearsFirst` it reads a greeting of
this build, which is accepted, and the reply is one of the messages that are assumed to
fit. -/
theorem Up.hear (h : e.Up) (hk : e.Kept cfg side) (hfirst : e.HearsFirst cfg side)
    (hfits : (greet cfg side).Fits) (hstep : e.hear (cfg side) = some n) : n.Up := by
  unfold ConnEnd.hear at hstep
  unfold Kept at hk
  split at hstep
  -- the client takes the `Welcome`
  · rename_i hat
    simp only [hat] at hk
    obtain ⟨rfl, -, hun⟩ := hk
    obtain ⟨r, hr, rfl⟩ := Option.map_eq_some_iff.mp hstep
    obtain ⟨m, rest, hread, rfl⟩ := h.receive hfirst hr
    obtain rfl := hfirst.1 hun.read m rest hread
    exact ⟨rfl, h.writer, h.reader, h.incoming, h.attended, h.outbound⟩
  -- the server takes the `Hello`, and its reply fits a frame
  · rename_i hat
    simp only [hat] at hk
    obtain ⟨rfl, -, hun⟩ := hk
    obtain ⟨r, hr, rfl⟩ := Option.map_eq_some_iff.mp hstep
    obtain ⟨m, rest, hread, rfl⟩ := h.receive hfirst hr
    obtain rfl := hfirst.1 hun.read m rest hread
    have hread : ({ e with incoming := rest, read := e.read ++ [greet cfg .B] } : ConnEnd).Up :=
      ⟨h.stage, h.writer, h.reader, h.incoming, h.attended, h.outbound⟩
    have hreply : (ConnStage.replying (cfg .B)).up = true := rfl
    have hup := hread.begin hfits hreply .stream
    rwa [greet, ← hear_hello_own] at hup
  · cases hstep

/-- `write_loop` does not stop at a message that fits. -/
theorem Up.next (h : e.Up) (hstep : e.next = some n) : n.Up := by
  unfold ConnEnd.next at hstep
  split at hstep
  · rename_i msg outbound hwriter hunwritten houtbound
    have hall := h.outbound
    rw [houtbound] at hall
    obtain ⟨frame, hframe⟩ := hall msg List.mem_cons_self
    have hwrite : write_message msg = .ok frame := by rw [write_message, hframe]; rfl
    rw [hwrite] at hstep
    cases hstep
    exact ⟨h.stage, h.writer, h.reader, h.incoming, h.attended,
      fun m hm => hall m (List.mem_cons_of_mem _ hm)⟩
  · cases hstep

/-- **A calm step of an end** that is up leaves it up. -/
theorem Up.step (h : e.Up) (hk : e.Kept cfg side) (hfirst : e.HearsFirst cfg side)
    (hfits : (greet cfg side).Fits) {a : EndStep} (hcalm : (ConnStep.act side a).Calm)
    (hstep : e.step (cfg side) false a = some n) : n.Up := by
  have hstage := h.stage
  cases a with
  | open_stream =>
      rw [ConnEnd.step, open_stream] at hstep
      split at hstep
      -- the client begins its `Hello`, which fits
      · rename_i hat
        unfold Kept at hk
        simp only [hat] at hk
        obtain ⟨rfl, -, -⟩ := hk
        rw [if_neg Bool.false_ne_true] at hstep
        cases hstep
        exact h.begin hfits rfl .stream
      · rw [if_neg Bool.false_ne_true] at hstep
        split_ifs at hstep
        cases hstep
        exact ⟨rfl, h.writer, h.reader, h.incoming, h.attended, h.outbound⟩
      · cases hstep
  | hear => exact h.hear hk hfirst hfits hstep
  | written =>
      rw [ConnEnd.step, written] at hstep
      split_ifs at hstep
      split at hstep
      · cases hstep
        exact ⟨rfl, h.writer, h.reader, h.incoming, h.attended, h.outbound⟩
      · cases hstep
        exact ⟨rfl, h.writer, h.reader, h.incoming, h.attended, h.outbound⟩
      -- an end that is up refuses nobody
      · rename_i hat
        rw [hat] at hstage
        cases hstage
      · cases hstep
  | announce =>
      rw [ConnEnd.step, announce] at hstep
      split at hstep <;> cases hstep
      exact ⟨rfl, by rintro ⟨⟩, by rintro ⟨⟩, h.incoming, h.attended, h.outbound⟩
  | loop_ended =>
      rw [ConnEnd.step, loop_ended] at hstep
      -- both tasks run, so the loop has nothing to end for
      have hup : ¬ (e.writer = .ended ∨ e.reader = .ended ∨ false = true) := by
        simp [h.writer, h.reader]
      split at hstep
      · rw [if_neg hup] at hstep
        cases hstep
      · cases hstep
  | leave =>
      rw [ConnEnd.step, leave] at hstep
      split at hstep
      · rename_i hat
        rw [hat] at hstage
        cases hstage
      · cases hstep
  | drop | unattend => exact hcalm.elim
  | next => exact h.next hstep
  | read =>
      rw [ConnEnd.step, read_next] at hstep
      split at hstep
      · obtain ⟨r, hr, rfl⟩ := Option.map_eq_some_iff.mp hstep
        obtain ⟨m, rest, -, rfl⟩ := h.receive hfirst hr
        exact ⟨h.stage, h.writer, h.reader, h.incoming, h.attended, h.outbound⟩
      · cases hstep
  | send_inbound =>
      rw [ConnEnd.step, send_inbound] at hstep
      split at hstep
      · rw [if_neg (by rw [h.attended]; decide)] at hstep
        split_ifs at hstep
        cases hstep
        exact ⟨h.stage, h.writer, h.reader, h.incoming, h.attended, h.outbound⟩
      · cases hstep
  | enqueue msg =>
      rw [ConnEnd.step, enqueue] at hstep
      split_ifs at hstep
      cases hstep
      refine ⟨h.stage, h.writer, h.reader, h.incoming, h.attended, ?_⟩
      exact List.forall_mem_append.mpr ⟨h.outbound, List.forall_mem_singleton.mpr hcalm⟩
  | handle =>
      rw [ConnEnd.step, handle] at hstep
      split at hstep <;> cases hstep
      exact ⟨h.stage, h.writer, h.reader, h.incoming, h.attended, h.outbound⟩

/-- A future that is up is at a live await. -/
theorem Up.not_gone (h : e.Up) : e.stage.gone = false := by
  have hstage := h.stage
  cases hat : e.stage <;> rw [hat] at hstage <;> first
    | rfl
    | cases hstage

/-- An end that is up holds both halves of its stream. -/
theorem Up.send_dropped (h : e.Up) : e.send_dropped = false := by
  rw [ConnEnd.send_dropped, h.not_gone, Bool.and_false, Bool.or_false]
  exact decide_eq_false h.writer

/-- The receive half is held as well, by the future or by `read_loop`. -/
theorem Up.recv_dropped (h : e.Up) : e.recv_dropped = false := by
  rw [ConnEnd.recv_dropped, h.not_gone, Bool.and_false, Bool.or_false]
  exact decide_eq_false h.reader

end ConnEnd

namespace Connection

variable {cfg : Side → LocalPeer} {self n : Connection}

/-- The connection is there, and so are both ends. -/
structure Up (conn : Connection) : Prop where
  lost : conn.lost = false
  ends : ∀ side, (conn.ends side).Up

/-- The connection starts up. -/
theorem up_new : new.Up := ⟨rfl, fun _ => ConnEnd.up_new⟩

/-- One end moving on and staying up leaves the connection up. -/
theorem Up.put (h : self.Up) {side : Side} {e : ConnEnd} (he : e.Up) : (self.put side e).Up where
  lost := h.lost
  ends := by
    intro s
    rcases Side.eq_or_other side s with rfl | rfl
    · rwa [put_same]
    · rw [put_other]
      exact h.ends side.other

/-- **A calm step of a connection** that is up leaves it up. -/
theorem Up.step (h : self.Up) (hk : self.Kept cfg) (hfits : ∀ side, (greet cfg side).Fits)
    {a : ConnStep} (hcalm : a.Calm) (hstep : self.step cfg a = some n) : n.Up := by
  cases a with
  | act side a =>
      rw [Connection.step, h.lost] at hstep
      obtain ⟨e, he, rfl⟩ := Option.map_eq_some_iff.mp hstep
      exact h.put ((h.ends side).step (hk.ends side) (hk.hears_first side) (hfits side) hcalm he)
  -- a write changes only what is under way
  | write side count =>
      simp only [Connection.step] at hstep
      split_ifs at hstep
      cases hstep
      have hhere := h.ends side
      have hthere := h.ends side.other
      refine (h.put ?_).put ?_
      · exact ⟨hhere.stage, hhere.writer, hhere.reader, hhere.incoming, hhere.attended,
          hhere.outbound⟩
      · exact ⟨hthere.stage, hthere.writer, hthere.reader, hthere.incoming, hthere.attended,
          hthere.outbound⟩
  | finish side =>
      simp only [Connection.step, (h.ends side).send_dropped, Bool.false_eq_true, false_and,
        if_false] at hstep
      cases hstep
  | write_failed side =>
      simp only [Connection.step, h.lost, (h.ends side.other).recv_dropped, Bool.false_eq_true,
        or_self, if_false] at hstep
      cases hstep
  | lose arrived => exact hcalm.elim

/-- A calm run stays up. The invariant is needed beside `Up` because whether the first
read succeeds depends on what the other end has written. -/
theorem run_up (hfits : ∀ side, (greet cfg side).Fits) (steps : List ConnStep) (last : Connection)
    (hcalm : ∀ a ∈ steps, a.Calm) (h : exec (step cfg) new steps = some last) : last.Up := by
  refine (exec_invariant (step cfg) (fun conn => conn.Kept cfg ∧ conn.Up) new last steps
    ⟨kept_new, up_new⟩ ?_ h).2
  intro m n a ha hm hstep
  exact ⟨step_kept hm.1 hstep, hm.2.step hm.1 hfits (hcalm a ha) hstep⟩

end Connection

/-- What is not the connection's own doing. -/
def ConnStep.Outer : ConnStep → Prop
  | .act _ (.enqueue _) | .act _ .drop | .act _ .unattend | .lose _ => True
  | _ => False

/-- What a connection does by itself is calm: only its surroundings can hang up, lose it
or queue something that does not fit. -/
theorem ConnStep.calm_of_not_outer {a : ConnStep} (h : ¬ a.Outer) : a.Calm := by
  rcases a with ⟨side, a⟩ | _ | _ | _ | _
  · cases a <;> first
      | trivial
      | exact absurd trivial h
  all_goals first
    | trivial
    | exact absurd trivial h

/-- An end in its peer loop, with nothing under way in it or before it. -/
def ConnEnd.quiet (e : ConnEnd) : Bool :=
  e.stage matches .looping _ && e.writer = .running && e.reader = .running &&
    e.outbound = [] && e.held = none && e.inbound = [] && e.unwritten = [] && e.incoming = [] &&
    !e.incoming_ended

/-- The decidable form of a quiet end says what its name says. Runs on given
inputs evaluate `quiet` and the proofs use the fields. -/
theorem ConnEnd.quiet_iff (e : ConnEnd) :
    e.quiet = true ↔ (∃ peer, e.stage = .looping peer) ∧ e.writer = .running ∧
      e.reader = .running ∧ e.outbound = [] ∧ e.held = none ∧ e.inbound = [] ∧
      e.unwritten = [] ∧ e.incoming = [] ∧ e.incoming_ended = false := by
  cases hat : e.stage <;> simp [quiet, hat, and_assoc]

namespace Connection

variable {cfg : Side → LocalPeer} {self n : Connection}

/-- There is nothing left to do. -/
def AtRest (cfg : Side → LocalPeer) (conn : Connection) : Prop :=
  ∀ a : ConnStep, ¬ a.Outer → conn.step cfg a = none

/-- At rest an end has no step of its own left; this is how the lemmas below use the
definition. -/
theorem AtRest.act (h : self.AtRest cfg) (hup : self.Up) (side : Side) {a : EndStep}
    (ha : ¬ (ConnStep.act side a).Outer) : (self.ends side).step (cfg side) false a = none := by
  have hnone := h _ ha
  rw [step, hup.lost] at hnone
  exact Option.map_eq_none_iff.mp hnone

/-- Everything has gone out. -/
theorem AtRest.written (h : self.AtRest cfg) (hup : self.Up) (side : Side) :
    (self.ends side).unwritten = [] := by
  by_contra hne
  have hnone := h (.write side 1) (by rintro ⟨⟩)
  simp only [step] at hnone
  rw [if_pos ⟨Nat.one_pos, List.length_pos_iff.mpr hne, (hup.ends side).send_dropped,
    (hup.ends side.other).incoming⟩] at hnone
  cases hnone

/-- An end that waits for a message finds none, so that it has read all that the other
one sent. -/
theorem AtRest.read_all (h : self.AtRest cfg) (hup : self.Up) (hk : self.Kept cfg) (side : Side)
    (hread : (self.ends side).receive = none) :
    (self.ends side).read = (self.ends side.other).sent := by
  have hflow := hk.flow side.other
  rw [Side.other_other, h.written hup side.other, (hup.ends side).incoming] at hflow
  apply hflow.all_read
  intro m hm
  unfold ConnEnd.receive at hread
  split at hread
  · cases hread
  · rename_i hread'
    rw [hread'] at hm
    cases hm

/-- An end at rest is in its peer loop, or waits for the other's greeting, of which
there is nothing. -/
theorem AtRest.stage (h : self.AtRest cfg) (hup : self.Up) (hk : self.Kept cfg) (side : Side) :
    (self.ends side).stage = .looping (cfg side.other) ∨
      ((self.ends side.other).sent = [] ∧ (side = .B → (self.ends side).sent ≠ [])) := by
  have hstage := (hup.ends side).stage
  have hwritten := h.written hup side
  have hkept := hk.ends side
  unfold ConnEnd.Kept at hkept
  -- at rest every stage but the loop waits for a message, and then the other end has
  -- sent none; an end with something to do is not at rest
  cases hat : (self.ends side).stage <;> simp only [hat] at hkept
  case opening =>
    have hnone := h.act hup side (a := .open_stream) (by rintro ⟨⟩)
    simp [ConnEnd.step, ConnEnd.open_stream, hat] at hnone
  case greeting | replying =>
    have hnone := h.act hup side (a := .written) (by rintro ⟨⟩)
    simp [ConnEnd.step, ConnEnd.written, hat, hwritten] at hnone
  case announcing =>
    have hnone := h.act hup side (a := .announce) (by rintro ⟨⟩)
    simp [ConnEnd.step, ConnEnd.announce, hat] at hnone
  case accepting =>
    obtain ⟨rfl, -, hun⟩ := hkept
    have hnone := h.act hup .A (a := .open_stream) (by rintro ⟨⟩)
    simp only [ConnEnd.step, ConnEnd.open_stream, hat, Bool.false_eq_true, if_false,
      ite_eq_right_iff, reduceCtorEq, imp_false, not_or, not_not] at hnone
    have hall := h.read_all hup hk .A (by
      simp [ConnEnd.receive, hnone.1, read_message_short [] (by decide), (hup.ends .A).incoming,
        StreamError.short])
    rw [hun.read] at hall
    exact .inr ⟨hall.symm, by rintro ⟨⟩⟩
  case listening =>
    obtain ⟨rfl, -, hun⟩ := hkept
    have hnone := h.act hup .A (a := .hear) (by rintro ⟨⟩)
    simp only [ConnEnd.step, ConnEnd.hear, hat, Option.map_eq_none_iff] at hnone
    have hall := h.read_all hup hk .A hnone
    rw [hun.read] at hall
    exact .inr ⟨hall.symm, by rintro ⟨⟩⟩
  case awaiting =>
    obtain ⟨rfl, -, hun⟩ := hkept
    have hnone := h.act hup .B (a := .hear) (by rintro ⟨⟩)
    simp only [ConnEnd.step, ConnEnd.hear, hat, Option.map_eq_none_iff] at hnone
    have hall := h.read_all hup hk .B hnone
    rw [hun.read] at hall
    refine .inr ⟨hall.symm, fun _ => ?_⟩
    rw [hun.sent]
    exact List.cons_ne_nil _ _
  case looping =>
    rw [hkept.1]
    exact .inl rfl
  all_goals
    rw [hat] at hstage
    cases hstage

/-- An end in its peer loop has said something. -/
theorem Kept.looping (hk : self.Kept cfg) {side : Side} {peer : LocalPeer}
    (h : (self.ends side).stage = .looping peer) :
    (self.ends side).Spawned (greet cfg side) (greet cfg side.other)
      [.Connected (cfg side.other)] := by
  have hkept := hk.ends side
  unfold ConnEnd.Kept at hkept
  simp only [h] at hkept
  exact hkept.2

/-- At rest both ends are in their peer loops. An end that still waited for a greeting
would find it, because the other one, being up, has written it. -/
theorem AtRest.looping (h : self.AtRest cfg) (hup : self.Up) (hk : self.Kept cfg) (side : Side) :
    (self.ends side).stage = .looping (cfg side.other) := by
  have hsaid : ∀ s, (self.ends s).stage = .looping (cfg s.other) → (self.ends s).sent ≠ [] := by
    intro s hloop
    obtain ⟨out, hsent, -⟩ := (hk.looping hloop).sending
    rw [hsent]
    exact List.cons_ne_nil _ _
  rcases h.stage hup hk .B with hB | ⟨hA, hB⟩
  · rcases h.stage hup hk .A with hA | ⟨hBsent, -⟩
    · cases side
      · exact hA
      · exact hB
    · exact absurd hBsent (hsaid .B hB)
  · -- the client waits, so the server said nothing, so it waits for the client, who spoke
    rcases h.stage hup hk .A with hloop | ⟨hBsent, -⟩
    · exact absurd hA (hsaid .A hloop)
    · exact absurd hBsent (hB rfl)

/-- In the peer loop at rest everything queued was sent, everything read has been
handled, and everything the other end sent was read. -/
theorem AtRest.drained (h : self.AtRest cfg) (hup : self.Up) (hk : self.Kept cfg) (side : Side) :
    (self.ends side).sent = greet cfg side :: (self.ends side).queued ∧
      (self.ends side).read = greet cfg side.other :: (self.ends side).handled ∧
      (self.ends side).read = (self.ends side.other).sent := by
  have hsp := hk.looping (h.looping hup hk side)
  have hend := hup.ends side
  have hwriter : (self.ends side).writer = .running := by
    cases hat : (self.ends side).writer
    · exact absurd hat hsp.writer
    · rfl
    · exact absurd hat hend.writer
  have hreader : (self.ends side).reader = .running := by
    cases hat : (self.ends side).reader
    · exact absurd hat hsp.reader
    · rfl
    · exact absurd hat hend.reader
  -- a message left in a channel or in a hand would be a step somebody can take
  have houtbound : (self.ends side).outbound = [] := by
    cases hat : (self.ends side).outbound with
    | nil => rfl
    | cons m outbound =>
        have hnone := h.act hup side (a := .next) (by rintro ⟨⟩)
        simp only [ConnEnd.step, ConnEnd.next, hwriter, h.written hup side, hat] at hnone
        rcases write_message_cases m with ⟨frame, hwrite, -⟩ | ⟨length, hwrite⟩ <;>
          simp [hwrite] at hnone
  have hinbound : (self.ends side).inbound = [] := by
    cases hat : (self.ends side).inbound with
    | nil => rfl
    | cons m inbound =>
        have hnone := h.act hup side (a := .handle) (by rintro ⟨⟩)
        simp [ConnEnd.step, ConnEnd.handle, hat] at hnone
  have hheld : (self.ends side).held = none := by
    cases hat : (self.ends side).held with
    | none => rfl
    | some m =>
        have hnone := h.act hup side (a := .send_inbound) (by rintro ⟨⟩)
        simp [ConnEnd.step, ConnEnd.send_inbound, hreader, hat, hinbound, hend.attended] at hnone
  obtain ⟨out, hsent, -, hqueued⟩ := hsp.sending
  obtain ⟨got, hread, -, hgot⟩ := hsp.reading
  have hout := hqueued hwriter
  have hin := hgot hreader hend.attended
  rw [houtbound, List.append_nil] at hout
  rw [hinbound, hheld, Option.toList_none, List.append_nil, List.append_nil] at hin
  -- so the reader waits, and it has read all that was sent
  have hwaiting : (self.ends side).receive = none := by
    have hnone := h.act hup side (a := .read) (by rintro ⟨⟩)
    simpa only [ConnEnd.step, ConnEnd.read_next, hreader, hheld, Option.map_eq_none_iff] using hnone
  exact ⟨by rw [hsent, hout], by rw [hread, hin], h.read_all hup hk side hwaiting⟩

/-- Two ends in their peer loops, with nothing under way in them or between them. -/
structure Quiet (conn : Connection) : Prop where
  lost : conn.lost = false
  ends : ∀ side, (conn.ends side).quiet = true

instance (conn : Connection) : Decidable conn.Quiet :=
  decidable_of_iff (conn.lost = false ∧ (conn.ends .A).quiet = true ∧ (conn.ends .B).quiet = true)
    ⟨fun h => ⟨h.1, fun side => Side.rec h.2.1 h.2.2 side⟩,
      fun h => ⟨h.lost, h.ends .A, h.ends .B⟩⟩

/-- They are at rest. -/
theorem Quiet.at_rest (h : self.Quiet) : self.AtRest cfg := by
  intro a ha
  cases a with
  -- each step of an end needs something that a quiet end does not have
  | act side a =>
      obtain ⟨⟨peer, hat⟩, hwriter, hreader, houtbound, hheld, hinbound, -, hincoming, hended⟩ :=
        (self.ends side).quiet_iff.mp (h.ends side)
      have hwaits : (self.ends side).receive = none := by
        simp [ConnEnd.receive, hincoming, read_message_short [] (by decide), hended,
          StreamError.short]
      rw [step, Option.map_eq_none_iff, h.lost]
      cases a with
      | drop | enqueue msg | unattend => exact absurd trivial ha
      | open_stream => simp [ConnEnd.step, ConnEnd.open_stream, hat]
      | hear => simp [ConnEnd.step, ConnEnd.hear, hat]
      | written => simp [ConnEnd.step, ConnEnd.written, hat]
      | announce => simp [ConnEnd.step, ConnEnd.announce, hat]
      | loop_ended => simp [ConnEnd.step, ConnEnd.loop_ended, hat, hwriter, hreader]
      | leave => simp [ConnEnd.step, ConnEnd.leave, hat]
      | next => simp [ConnEnd.step, ConnEnd.next, houtbound]
      | read => simp [ConnEnd.step, ConnEnd.read_next, hreader, hheld, hwaits]
      | send_inbound => simp [ConnEnd.step, ConnEnd.send_inbound, hheld]
      | handle => simp [ConnEnd.step, ConnEnd.handle, hinbound]
  | write side count =>
      obtain ⟨-, -, -, -, -, -, hunwritten, -, -⟩ :=
        (self.ends side).quiet_iff.mp (h.ends side)
      simp only [step, hunwritten, List.length_nil]
      exact if_neg (by omega)
  | finish side =>
      obtain ⟨-, hwriter, -⟩ := (self.ends side).quiet_iff.mp (h.ends side)
      simp [step, ConnEnd.send_dropped, hwriter]
  | write_failed side =>
      obtain ⟨-, -, hreader, -⟩ := (self.ends side.other).quiet_iff.mp (h.ends side.other)
      simp [step, h.lost, ConnEnd.recv_dropped, hreader]
  | lose arrived => exact absurd trivial ha

/-- At rest what a session has handled is what the other one queued: everything queued
was sent, everything sent was read and everything read was handled. -/
theorem AtRest.delivered (h : self.AtRest cfg) (hup : self.Up) (hk : self.Kept cfg) (side : Side) :
    (self.ends side.other).handled = (self.ends side).queued := by
  obtain ⟨-, hhandled, hread⟩ := h.drained hup hk side.other
  rw [hhandled, Side.other_other, (h.drained hup hk side).1] at hread
  exact (List.cons.inj hread).2

end Connection

/-! ## How long it takes

`work` bounds the number of steps a connection can still take by itself. A byte counts
until it is read, and a message counts for its frame and for each hand it still has to
pass through. -/

/-- The bytes of the frame of a message, if there is one. -/
def frame_length (msg : Message) : Nat :=
  match encode_frame msg with
  | .ok frame => frame.length
  | .error _ => 0

/-- What the future still has to do: stages, and the bytes of its greeting. -/
def ConnStage.work (cfg : Side → LocalPeer) (side : Side) : ConnStage → Nat
  | .opening | .accepting => 2 * frame_length (greet cfg side) + 6
  | .listening => 2 * frame_length (greet cfg side) + 5
  | .greeting => 5
  | .replying _ | .awaiting => 4
  | .announcing _ => 3
  | .looping _ => 2
  | .leaving _ | .refusing _ => 1
  | .returned | .failed _ | .dropped => 0

/-- A task that has not ended may still end. -/
def TaskState.work : TaskState → Nat
  | .unspawned | .running => 1
  | .ended => 0

/-- The steps that an end can still take or cause: a byte is written and read, a
message taken, held and handled. -/
def ConnEnd.work (cfg : Side → LocalPeer) (side : Side) (e : ConnEnd) : Nat :=
  e.stage.work cfg side + (e.outbound.map (fun m => 2 * frame_length m + 1)).sum
    + 2 * e.unwritten.length + e.incoming.length + 2 * e.held.toList.length + e.inbound.length
    + e.writer.work + e.reader.work + (!e.incoming_ended).toNat

namespace ConnEnd

variable {cfg : Side → LocalPeer} {side : Side} {lost : Bool} {e n : ConnEnd}

/-- Beginning a message turns one unit of the stage into the bytes of its frame, each
counted twice: once to be written and once to be read. -/
theorem begin_work (cfg : Side → LocalPeer) (side : Side) (hunwritten : e.unwritten = [])
    (msg : Message) (stage : ConnStage) (failed : StreamError → ConnectFailure) :
    (e.begin msg stage failed).work cfg side + e.stage.work cfg side
      ≤ e.work cfg side + stage.work cfg side + 2 * frame_length msg := by
  rcases e.begin_cases msg stage failed with ⟨frame, hframe, hbegin⟩ | ⟨length, hbegin⟩
  · rw [hbegin]
    simp only [work, frame_length, hframe, hunwritten, List.length_nil]
    omega
  · rw [hbegin]
    simp only [work, ConnStage.work]
    omega

/-- Opening the stream pays for the greeting it begins with the drop in the stage. -/
theorem open_stream_work (h : e.Kept cfg side)
    (hstep : e.step (cfg side) lost .open_stream = some n) : n.work cfg side < e.work cfg side := by
  unfold Kept at h
  rw [step, open_stream] at hstep
  split at hstep
  · rename_i hat
    simp only [hat] at h
    obtain ⟨rfl, hunwritten, -⟩ := h
    split_ifs at hstep
    -- the connection is lost already: the client fails, and failing ends its work
    · cases hstep
      simp only [work, hat, ConnStage.work]
      omega
    -- it begins its `Hello`, and a frame to write weighs less than the stage it leaves
    · cases hstep
      have hbegin := begin_work cfg .B hunwritten (.Hello (cfg .B).hello) .greeting
        .stream
      simp only [hat, ConnStage.work, greet] at hbegin
      omega
  · rename_i hat
    split_ifs at hstep <;> cases hstep <;> simp only [work, hat, ConnStage.work] <;> omega
  · cases hstep

/-- Hearing the greeting pays for the reply in the same way. The bytes of the message
that was read are what makes the step strict. -/
theorem hear_work (h : e.Kept cfg side) (hfirst : e.HearsFirst cfg side)
    (hstep : e.step (cfg side) lost .hear = some n) : n.work cfg side < e.work cfg side := by
  unfold Kept at h
  rw [step, hear] at hstep
  split at hstep
  · rename_i hat
    simp only [hat] at h
    obtain ⟨rfl, -, hun⟩ := h
    obtain ⟨r, hr, rfl⟩ := Option.map_eq_some_iff.mp hstep
    rcases receive_cases hr with ⟨m, rest, hread, rfl⟩ | ⟨err, -, rfl⟩
    · have htakes := read_message_takes hread
      obtain rfl := hfirst.1 hun.read m rest hread
      simp only [greet, Side.other, LocalPeer.welcome, hear_reply, work, hat, ConnStage.work]
      omega
    · simp only [work, hat, ConnStage.work]
      omega
  · rename_i hat
    simp only [hat] at h
    obtain ⟨rfl, hunwritten, hun⟩ := h
    obtain ⟨r, hr, rfl⟩ := Option.map_eq_some_iff.mp hstep
    rcases receive_cases hr with ⟨m, rest, hread, rfl⟩ | ⟨err, -, rfl⟩
    · have htakes := read_message_takes hread
      obtain rfl := hfirst.1 hun.read m rest hread
      -- the end that has read it and not answered
      set m : ConnEnd := { e with incoming := rest, read := e.read ++ [greet cfg .B] }
      have hstage : m.stage = .listening := hat
      have hless : m.work cfg .A < e.work cfg .A := by
        simp only [m, work, Header.SIZE] at htakes ⊢
        omega
      have hbegin := begin_work cfg .A (e := m) hunwritten (greet cfg .A) (.replying (cfg .B)) .stream
      rw [hstage, greet, ← hear_hello_own] at hbegin
      simp only [ConnStage.work, greet] at hbegin
      refine Nat.lt_of_le_of_lt ?_ hless
      change (m.hear_hello (cfg .A) (.Hello (cfg .B).hello)).work cfg .A ≤ _
      omega
    · simp only [work, hat, ConnStage.work]
      omega
  · cases hstep

/-- Taking a message off the queue turns its share of the queue into bytes. -/
theorem next_work {own : LocalPeer} (hstep : e.step own lost .next = some n) :
    n.work cfg side < e.work cfg side := by
  rw [step, next] at hstep
  split at hstep
  · rename_i msg outbound hwriter hunwritten houtbound
    rcases write_message_cases msg with ⟨frame, hwrite, hframe⟩ | ⟨length, hwrite⟩
    · rw [hwrite] at hstep
      cases hstep
      simp only [work, houtbound, hunwritten, frame_length, hframe, List.map_cons, List.sum_cons,
        List.length_nil]
      omega
    · rw [hwrite] at hstep
      cases hstep
      simp only [work, houtbound, hwriter, TaskState.work, List.map_cons, List.sum_cons]
      omega
  · cases hstep

/-- **A step of an end** that it takes by itself leaves it less to do. -/
theorem step_work {a : EndStep} (h : e.Kept cfg side) (hfirst : e.HearsFirst cfg side)
    (ha : ¬ (ConnStep.act side a).Outer) (hstep : e.step (cfg side) lost a = some n) :
    n.work cfg side < e.work cfg side := by
  cases a with
  | open_stream => exact open_stream_work h hstep
  | hear => exact hear_work h hfirst hstep
  | next => exact next_work hstep
  | read =>
      rw [step, read_next] at hstep
      split at hstep
      · rename_i hreader hheld
        obtain ⟨r, hr, rfl⟩ := Option.map_eq_some_iff.mp hstep
        rcases receive_cases hr with ⟨m, rest, hread, rfl⟩ | ⟨err, -, rfl⟩
        -- the bytes of the frame weigh more than the message they become
        · have htakes := read_message_takes hread
          simp only [work, hheld, Option.toList_none, Option.toList_some, List.length_nil,
            List.length_singleton, Header.SIZE] at htakes ⊢
          omega
        · simp only [work, hreader, TaskState.work]
          omega
      · cases hstep
  | written =>
      rw [step, written] at hstep
      split_ifs at hstep
      split at hstep
      case h_4 => cases hstep
      -- each stage weighs less than the one before
      all_goals
        rename_i hat
        cases hstep
        simp only [work, hat, ConnStage.work]
        omega
  | send_inbound =>
      rw [step, send_inbound] at hstep
      split at hstep
      · rename_i hreader hheld
        split_ifs at hstep <;> cases hstep <;>
          simp only [work, hreader, hheld, TaskState.work, Option.toList_none, Option.toList_some,
            List.length_nil, List.length_append, List.length_singleton] <;>
          omega
      · cases hstep
  | loop_ended =>
      rw [step, loop_ended] at hstep
      split at hstep
      · rename_i hat
        split_ifs at hstep
        cases hstep
        simp only [work, hat, ConnStage.work]
        omega
      · cases hstep
  | announce =>
      unfold Kept at h
      rw [step, announce] at hstep
      split at hstep
      · rename_i hat
        simp only [hat] at h
        obtain ⟨-, -, hun⟩ := h
        cases hstep
        simp only [work, hat, hun.writer, hun.reader, ConnStage.work, TaskState.work]
        omega
      · cases hstep
  | leave =>
      rw [step, leave] at hstep
      split at hstep
      · rename_i hat
        cases hstep
        simp only [work, hat, ConnStage.work]
        omega
      · cases hstep
  | handle =>
      rw [step, handle] at hstep
      split at hstep
      · rename_i hinbound
        cases hstep
        simp only [work, hinbound, List.length_cons]
        omega
      · cases hstep
  | drop | enqueue _ | unattend => exact absurd trivial ha

/-- A failed write only throws work away. -/
theorem write_failed_work (hstep : e.write_failed = some n) :
    n.work cfg side < e.work cfg side := by
  unfold write_failed at hstep
  by_cases hunwritten : e.unwritten = []
  · rw [if_pos hunwritten] at hstep
    cases hstep
  rw [if_neg hunwritten] at hstep
  split at hstep
  case h_4 =>
    split_ifs at hstep with hwriter
    cases hstep
    simp only [work, hwriter, TaskState.work]
    omega
  all_goals
    rename_i hat
    cases hstep
    simp only [work, hat, ConnStage.work]
    omega

end ConnEnd

namespace Connection

variable {cfg : Side → LocalPeer} {self n : Connection}

/-- The work of both ends. What is under way between them counts at the end that will
read it. -/
def work (cfg : Side → LocalPeer) (conn : Connection) : Nat :=
  (conn.ends .A).work cfg .A + (conn.ends .B).work cfg .B

/-- The sum is symmetric, so either side may be the one that moves. -/
theorem work_eq (conn : Connection) (side : Side) :
    conn.work cfg = (conn.ends side).work cfg side + (conn.ends side.other).work cfg side.other := by
  cases side
  · rfl
  · exact Nat.add_comm _ _

/-- When one end has less to do, so has the connection. -/
theorem put_work_lt {side : Side} {e : ConnEnd}
    (h : e.work cfg side < (self.ends side).work cfg side) :
    (self.put side e).work cfg < self.work cfg := by
  rw [work_eq _ side, work_eq _ side, put_same, put_other]
  exact Nat.add_lt_add_right h _

/-- **A step of a connection** by itself leaves it less to do. -/
theorem step_work {a : ConnStep} (h : self.Kept cfg) (ha : ¬ a.Outer)
    (hstep : self.step cfg a = some n) : n.work cfg < self.work cfg := by
  cases a with
  | act side a =>
      obtain ⟨e, he, rfl⟩ := Option.map_eq_some_iff.mp hstep
      exact put_work_lt (ConnEnd.step_work (h.ends side) (h.hears_first side) ha he)
  | write side count =>
      simp only [step] at hstep
      split_ifs at hstep with hguard
      obtain ⟨hpos, hle, -, -⟩ := hguard
      cases hstep
      -- the bytes cross over: each weighs more unwritten than arrived
      rw [work_eq _ side, work_eq self side, put_of_other, put_same, put_same]
      simp only [ConnEnd.work, List.length_drop, List.length_append, List.length_take]
      omega
  | finish side =>
      simp only [step] at hstep
      split_ifs at hstep with hguard
      cases hstep
      apply put_work_lt
      simp only [ConnEnd.work, hguard.2, Bool.not_true, Bool.not_false, Bool.toNat_true,
        Bool.toNat_false]
      omega
  | write_failed side =>
      simp only [step] at hstep
      split_ifs at hstep
      obtain ⟨e, he, rfl⟩ := Option.map_eq_some_iff.mp hstep
      exact put_work_lt (ConnEnd.write_failed_work he)
  | lose arrived => exact absurd trivial ha

/-- **Everything arrives.** A connection that is left alone comes to rest, after at
most `work` steps from anywhere, if nothing more is queued; and where it rests the
sessions know of each other and each has received exactly what the other queued. -/
theorem all_delivered (hfits : ∀ side, (greet cfg side).Fits) (steps tail : List ConnStep)
    (mid last : Connection) (hcalm : ∀ a ∈ steps, a.Calm)
    (hrun : exec (step cfg) new steps = some mid) (htail : ∀ a ∈ tail, ¬ a.Outer)
    (h : exec (step cfg) mid tail = some last) :
    tail.length ≤ mid.work cfg ∧ (last.AtRest cfg → ∀ side : Side,
      (last.ends side).events = [.Connected (cfg side.other)] ∧
        (last.ends side.other).handled = (last.ends side).queued) := by
  have hk := run_kept steps mid hrun
  refine ⟨exec_length_le (step cfg) (Kept cfg) (work cfg) mid last tail hk ?_ h, ?_⟩
  · intro m n a ha hm hstep
    exact ⟨step_kept hm hstep, step_work hm (htail a ha) hstep⟩
  · intro hrest side
    have hall : exec (step cfg) new (steps ++ tail) = some last := by
      rw [exec_append, hrun, Option.bind_some, h]
    have hcalm' : ∀ a ∈ steps ++ tail, a.Calm :=
      List.forall_mem_append.mpr ⟨hcalm, fun a ha => ConnStep.calm_of_not_outer (htail a ha)⟩
    have hk := run_kept _ last hall
    have hup := run_up hfits _ last hcalm' hall
    exact ⟨(hk.looping (hrest.looping hup hk side)).events, hrest.delivered hup hk side⟩

/-- A `Ping` after the handshake. Once it is handled the connection is at rest. -/
theorem all_delivered_one :
    let steps := handshake_steps ++ [.act .A (.enqueue (.Ping 1 2))]
    let tail : List ConnStep :=
      [.act .A .next, .write .A 32, .act .B .read, .act .B .send_inbound, .act .B .handle]
    ∃ mid last, exec (step a_and_b) new steps = some mid ∧
      exec (step a_and_b) mid tail = some last ∧
      tail.length ≤ mid.work a_and_b ∧ ∀ side : Side,
        (last.ends side).events = [.Connected (a_and_b side.other)] ∧
          (last.ends side.other).handled = (last.ends side).queued := by
  intro steps tail
  -- the two runs are evaluated, and the second one ends where nothing can move
  have hrun : (exec (step a_and_b) new steps).isSome := by
    dsimp only [steps]
    decide +kernel
  have htail : ((exec (step a_and_b) new steps).bind (exec (step a_and_b) · tail)).any
      (fun last => last.Quiet) := by
    dsimp only [steps, tail]
    decide +kernel
  obtain ⟨mid, hmid⟩ := Option.isSome_iff_exists.mp hrun
  rw [hmid, Option.bind_some] at htail
  obtain ⟨last, hlast, hquiet⟩ := (Option.any_eq_true _ _).mp htail
  have hfits : ∀ side, (greet a_and_b side).Fits := by
    rintro (_ | _) <;> exact Message.fits_of_ok (by decide +kernel)
  have hping : (Message.Ping 1 2).Fits := Message.fits_of_ok (by decide +kernel)
  have hcalm : ∀ a ∈ steps, a.Calm := by
    simp [steps, handshake_steps, ConnStep.Calm, hping]
  have hinner : ∀ a ∈ tail, ¬ a.Outer := by
    simp [tail, ConnStep.Outer]
  obtain ⟨hwork, hrest⟩ := all_delivered hfits steps tail mid last hcalm hmid hinner hlast
  exact ⟨mid, last, hmid, hlast, hwork, hrest (of_decide_eq_true hquiet).at_rest⟩

end Connection

end InputSync
