/-
Services that answer lines.

Clients connect to a service and write requests, each as a line; a connection
has a handler that reads a line, works on the request and writes the answer as a
line, before it reads again. The handlers share one state. What a handler does
under its lock is one piece of work, and a request may take several, between
which other handlers have theirs. Bytes go over one at a time or many at once. A
client may go at any time, also in the middle of a line, and the process may
exit.

The log has the pieces in the order of the lock. Played one after the other they
make the state (`replay`). For each connection the requests in it are the ones
that were sent, in order, and the answers the ones that are received; a piece of
a request comes after the request was sent, and before its answer is received
(`Timely`). So where no request takes two pieces the service is linearizable,
and where one does, only what it does between them is open.
-/
import InputSync.Trace

set_option autoImplicit false

namespace InputSync

/-! ## Lines

What the service needs of its texts: a line ends with the only line feed in it, a whole
line is read back, and a part of one is never read as something else. -/

/-- Values as lines. What is read of a line that was cut off is the value it was
going to be, or nothing. -/
structure Lines (α : Type) where
  write : α → List UInt8
  read : List UInt8 → Option (α × List UInt8)
  line : ∀ a, ∃ body, write a = body ++ [0x0a] ∧ 0x0a ∉ body
  read_nil : read [] = none
  read_write : ∀ a rest, read (write a ++ rest) = some (a, rest)
  read_cut : ∀ a k, k < (write a).length →
    read ((write a).take k) = none ∨ read ((write a).take k) = some (a, [])

namespace Lines

variable {α : Type} (lines : Lines α)

/-- A line has bytes, so writing one takes a step. -/
theorem write_ne_nil (a : α) : lines.write a ≠ [] := by
  obtain ⟨body, hbody, -⟩ := lines.line a
  rw [hbody]
  exact List.concat_ne_nil _ _

/-- A line has its end in it. -/
theorem newline_mem (a : α) : 0x0a ∈ lines.write a := by
  obtain ⟨body, hbody, -⟩ := lines.line a
  rw [hbody]
  exact List.mem_concat_self

/-- The bytes of lines that begin with a whole one, or with a part of one. -/
theorem front (a : α) (bytes rest : List UInt8) (h : bytes <+: lines.write a ++ rest) :
    (0x0a ∈ bytes ∧ ∃ more, bytes = lines.write a ++ more ∧ more <+: rest) ∨
      (0x0a ∉ bytes ∧ ∃ k < (lines.write a).length, bytes = (lines.write a).take k) := by
  -- the first line has arrived whole or not; only in the first case is there a newline,
  -- as a line has it at its end
  by_cases hlen : (lines.write a).length ≤ bytes.length
  · left
    obtain ⟨more, rfl⟩ := List.prefix_of_prefix_length_le (List.prefix_append _ _) h hlen
    obtain ⟨body, hbody, -⟩ := lines.line a
    refine ⟨?_, more, rfl, (List.prefix_append_right_inj _).mp h⟩
    rw [hbody]
    simp
  · right
    have hpre : bytes <+: lines.write a :=
      List.prefix_of_prefix_length_le h (List.prefix_append _ _) (by omega)
    refine ⟨?_, bytes.length, by omega, List.prefix_iff_eq_take.mp hpre⟩
    obtain ⟨body, hbody, hnot⟩ := lines.line a
    rw [hbody] at hpre hlen
    rw [List.length_append, List.length_singleton] at hlen
    have hbytes : bytes <+: body :=
      List.prefix_of_prefix_length_le hpre (List.prefix_append _ _) (by omega)
    exact fun hmem => hnot (hbytes.subset hmem)

/-- **The next value.** What is read off the front of lines, whole or cut off, is
the first of their values. -/
theorem read_front {pending : List α} {bytes rest : List UInt8} {a : α}
    (hbytes : bytes <+: pending.flatMap lines.write) (hread : lines.read bytes = some (a, rest)) :
    ∃ pending', pending = a :: pending' ∧ rest <+: pending'.flatMap lines.write ∧
      (0x0a ∈ bytes → bytes = lines.write a ++ rest) := by
  cases pending with
  | nil =>
      rw [List.flatMap_nil, List.prefix_nil] at hbytes
      rw [hbytes, lines.read_nil] at hread
      cases hread
  | cons b pending =>
      rw [List.flatMap_cons] at hbytes
      -- a whole line is read back; of a cut one the reader makes nothing, or the same
      -- message if only its end is missing
      rcases lines.front b bytes _ hbytes with ⟨-, more, rfl, hmore⟩ | ⟨hnot, k, hk, rfl⟩
      · rw [lines.read_write] at hread
        cases hread
        exact ⟨pending, rfl, hmore, fun _ => rfl⟩
      · rcases lines.read_cut b k hk with hcut | hcut
        · rw [hcut] at hread
          cases hread
        · rw [hcut] at hread
          cases hread
          exact ⟨pending, rfl, List.nil_prefix, fun hmem => absurd hmem hnot⟩

/-- Whole lines without a line feed are none. -/
theorem eq_nil_of_flatMap {pending : List α} (h : 0x0a ∉ pending.flatMap lines.write) :
    pending = [] := by
  cases pending with
  | nil => rfl
  | cons a pending =>
      obtain ⟨body, hbody, -⟩ := lines.line a
      rw [List.flatMap_cons, hbody] at h
      exact absurd (by simp) h

/-- A whole line is read. -/
theorem read_whole {pending : List α} {bytes : List UInt8}
    (hbytes : bytes <+: pending.flatMap lines.write) (hline : 0x0a ∈ bytes) :
    lines.read bytes ≠ none := by
  cases pending with
  | nil =>
      rw [List.flatMap_nil, List.prefix_nil] at hbytes
      rw [hbytes] at hline
      cases hline
  | cons b pending =>
      rw [List.flatMap_cons] at hbytes
      rcases lines.front b bytes _ hbytes with ⟨-, more, rfl, -⟩ | ⟨hnot, -⟩
      · rw [lines.read_write]
        exact Option.some_ne_none _
      · exact absurd hline hnot

end Lines

/-! ## Services

A request is worked on in pieces, each atomic under the lock. The type of what a piece
leaves behind says whether the request is answered, goes on or ends the process; `Keeps`
is a contract for the pieces in the way of rely and guarantee. -/

/-- What becomes of a request in one piece of work: it is answered, there is
more to do, or the process exits. -/
inductive Turn (J B : Type)
  | answer (b : B)
  | go_on (job : J)
  | exit

/-- The answer, if the turn is one. -/
def Turn.answered {J B : Type} : Turn J B → Option B
  | .answer b => some b
  | _ => none

/-- The turn with its answer translated. -/
def Turn.map {J B B' : Type} (f : B → B') : Turn J B → Turn J B'
  | .answer b => .answer (f b)
  | .go_on job => .go_on job
  | .exit => .exit

/-- What there is still to do is of one kind, and the answer of another. -/
def Turn.Meets {J B : Type} (fit : J → Prop) (sound : B → Prop) : Turn J B → Prop
  | .answer b => sound b
  | .go_on job => fit job
  | .exit => True

/-- What the handlers do under the lock: the first piece of work for a request,
or a further one. Other tasks change the state too. -/
structure Service (S E Q J B O : Type) where
  first : S → E → Q → S × Turn J B
  more : S → E → J → S × Turn J B
  other : S → O → S

/-- A piece of work. -/
inductive Piece (E Q J O : Type)
  | first (env : E) (req : Q)
  | more (env : E) (job : J)
  | other (event : O)

/-- The request a piece takes up. Further pieces of it take up none. -/
def Piece.request {E Q J O : Type} : Piece E Q J O → Option Q
  | .first _ req => some req
  | _ => none

/-- Where a handler stands: it reads, has a job, has the rest of an answer to
write, or has ended. -/
inductive Handler (J : Type)
  | reading
  | working (job : J)
  | writing (rest : List UInt8)
  | gone

/-- A connection: the requests the client has begun to write (with the length of
the log then), what of the last one is still to be written, the bytes under way
to the handler and back, and what the client has received (with the length of
the log then). -/
structure Conn (Q J B : Type) where
  sent : List (Q × Nat)
  unwritten : List UInt8
  up : List UInt8
  closed : Bool
  handler : Handler J
  down : List UInt8
  received : List (B × Nat)

/-- A service at work; a piece in the log has the connection it was for. -/
structure ServiceRun (S E Q J B O : Type) where
  state : S
  exited : Bool
  conns : List (Conn Q J B)
  log : List (Option Nat × Piece E Q J O)

/-- The steps: a client connects, or one end of a connection does something, or another
task changes the state. -/
inductive ServiceStep (E Q O : Type)
  | accept
  -- the client of a connection
  | send (conn : Nat) (req : Q)
  | write (conn n : Nat)
  | close (conn : Nat)
  | receive (conn : Nat)
  -- its handler
  | read (conn : Nat) (env : E)
  | work (conn : Nat) (env : E)
  | respond (conn n : Nat)
  | break_off (conn : Nat)
  -- another task
  | other (event : O)

/-- A client has connected and sent nothing. -/
def Conn.new {Q J B : Type} : Conn Q J B := ⟨[], [], [], false, .reading, [], []⟩

namespace Service

variable {S E Q J B O : Type} (service : Service S E Q J B O)

/-- Good states are left to good ones; what is then to be done is fit for them,
and the answers are sound. -/
structure Keeps (good : S → Prop) (fit : J → Prop) (sound : B → Prop) : Prop where
  first : ∀ s env req, good s →
    good (service.first s env req).1 ∧ (service.first s env req).2.Meets fit sound
  more : ∀ s env job, good s → fit job →
    good (service.more s env job).1 ∧ (service.more s env job).2.Meets fit sound
  other : ∀ s event, good s → good (service.other s event)

/-- A piece of work on the state alone. -/
def play (s : S) : Piece E Q J O → S × List (Turn J B)
  | .first env req => ((service.first s env req).1, [(service.first s env req).2])
  | .more env job => ((service.more s env job).1, [(service.more s env job).2])
  | .other event => (service.other s event, [])

/-- The pieces of a log, one after the other: the state, and the turns of the
connections. -/
def replay (s : S) (log : List (Option Nat × Piece E Q J O)) : S × List (Option Nat × Turn J B) :=
  runOut (tagged service.play) s log

/-- The answers to a connection. -/
def answers (s : S) (log : List (Option Nat × Piece E Q J O)) (i : Nat) : List B :=
  (select (some i) (service.replay s log).2).filterMap Turn.answered

end Service

/-- The requests of a connection in a log. -/
def requests {E Q J O : Type} (log : List (Option Nat × Piece E Q J O)) (i : Nat) : List Q :=
  (select (some i) log).filterMap Piece.request

namespace ServiceRun

variable {S E Q J B O : Type}

/-- The service is up, without clients. -/
def new (s : S) : ServiceRun S E Q J B O := ⟨s, false, [], []⟩

/-- One connection goes on. -/
def on (self : ServiceRun S E Q J B O) (i : Nat) (f : Conn Q J B → Option (Conn Q J B)) :
    Option (ServiceRun S E Q J B O) :=
  (self.conns[i]?.bind f).map (fun c => { self with conns := self.conns.set i c })

variable (service : Service S E Q J B O) (qs : Lines Q) (bs : Lines B)

/-- A piece of work for a connection. -/
def run (self : ServiceRun S E Q J B O) (i : Nat) (c : Conn Q J B) (piece : Piece E Q J O)
    (state : S) : Turn J B → ServiceRun S E Q J B O
  | .answer b =>
    { self with
      state
      conns := self.conns.set i { c with handler := .writing (bs.write b) }
      log := self.log ++ [(some i, piece)] }
  | .go_on job =>
    { self with
      state
      conns := self.conns.set i { c with handler := .working job }
      log := self.log ++ [(some i, piece)] }
  | .exit =>
    { self with
      state
      exited := true
      conns := (self.conns.set i c).map (fun c => { c with handler := .gone })
      log := self.log ++ [(some i, piece)] }

/-- One step. Once the process has exited only what is under way can still be received.
-/
def step (self : ServiceRun S E Q J B O) : ServiceStep E Q O → Option (ServiceRun S E Q J B O)
  | .accept => if self.exited then none else some { self with conns := self.conns ++ [.new] }
  | .send i req =>
    self.on i (fun c =>
      if c.closed ∨ c.unwritten ≠ [] then none
      else some { c with sent := c.sent ++ [(req, self.log.length)], unwritten := qs.write req })
  | .write i n =>
    self.on i (fun c =>
      if c.unwritten = [] then none
      else
        some { c with
          up := c.up ++ c.unwritten.take (n + 1), unwritten := c.unwritten.drop (n + 1) })
  | .close i => self.on i (fun c => some { c with closed := true, unwritten := [] })
  | .receive i =>
    self.on i (fun c =>
      -- a whole line, or the end of the stream
      if c.closed = false ∧ (0x0a ∈ c.down ∨ c.handler matches .gone) then
        (bs.read c.down).map (fun r =>
          { c with down := r.2, received := c.received ++ [(r.1, self.log.length)] })
      else none)
  | .read i env =>
    match self.conns[i]? with
    | some c =>
      match c.handler with
      | .reading =>
        if 0x0a ∈ c.up ∨ c.closed then
          match qs.read c.up with
          | some (req, rest) =>
            let r := service.first self.state env req
            some (self.run bs i { c with up := rest } (.first env req) r.1 r.2)
          | none => some { self with conns := self.conns.set i { c with handler := .gone } }
        else none
      | _ => none
    | none => none
  | .work i env =>
    match self.conns[i]? with
    | some c =>
      match c.handler with
      | .working job =>
        let r := service.more self.state env job
        some (self.run bs i c (.more env job) r.1 r.2)
      | _ => none
    | none => none
  | .respond i n =>
    self.on i (fun c =>
      match c.handler with
      | .writing rest =>
        some { c with
          down := c.down ++ rest.take (n + 1)
          handler := if rest.drop (n + 1) = [] then .reading else .writing (rest.drop (n + 1)) }
      | _ => none)
  | .break_off i =>
    self.on i (fun c =>
      if c.closed ∧ c.handler matches .writing _ then some { c with handler := .gone } else none)
  | .other event =>
    if self.exited then none
    else
      some { self with
        state := service.other self.state event
        log := self.log ++ [(none, .other event)] }

/-! ## Undisturbed requests

The run of a single request from the client's first byte to the answer. Runs on given
requests are put together from such rounds, so that they need not list every step. -/

/-- The steps of a request nothing comes between: its line is written in one piece,
and so is the answer. -/
def round (i : Nat) (req : Q) (env : E) (b : B) : List (ServiceStep E Q O) :=
  [.send i req, .write i (qs.write req).length, .read i env, .respond i (bs.write b).length,
    .receive i]

/-- **A request on its own.** One that is answered in its first piece of work makes a
round of its connection, whatever the lines look like: they are read as they were
written. -/
theorem exec_round {self : ServiceRun S E Q J B O} {i : Nat} {sent : List (Q × Nat)}
    {received : List (B × Nat)}
    (hc : self.conns[i]? = some ⟨sent, [], [], false, .reading, [], received⟩) (req : Q) (env : E)
    {state : S} {b : B} (hfirst : service.first self.state env req = (state, .answer b)) :
    exec (step service qs bs) self (round qs bs i req env b) = some { self with
      state
      conns := self.conns.set i ⟨sent ++ [(req, self.log.length)], [], [], false, .reading, [],
        received ++ [(b, self.log.length + 1)]⟩
      log := self.log ++ [(some i, .first env req)] } := by
  have hlt : i < self.conns.length := (List.getElem?_eq_some_iff.mp hc).1
  -- what the client or the handler does alone changes the connection only
  have hon : ∀ (t : ServiceRun S E Q J B O) (c c' : Conn Q J B)
      (f : Conn Q J B → Option (Conn Q J B)), i < t.conns.length → f c = some c' →
      ServiceRun.on { t with conns := t.conns.set i c } i f
        = some { t with conns := t.conns.set i c' } := by
    intro t c c' f hi hf
    simp only [on, List.getElem?_set_self hi, Option.bind_some, hf, Option.map_some, List.set_set]
  have hreq : qs.read (qs.write req) = some (req, []) := by
    rw [← qs.read_write req [], List.append_nil]
  have hans : bs.read (bs.write b) = some (b, []) := by
    rw [← bs.read_write b [], List.append_nil]
  have hsend : step service qs bs self (.send i req) = some { self with
      conns := self.conns.set i
        ⟨sent ++ [(req, self.log.length)], qs.write req, [], false, .reading, [], received⟩ } := by
    simp only [step, on, hc, Option.bind_some]
    rw [if_neg (by simp)]
    rfl
  have hwrite : step service qs bs { self with
        conns := self.conns.set i
          ⟨sent ++ [(req, self.log.length)], qs.write req, [], false, .reading, [], received⟩ }
      (.write i (qs.write req).length) = some { self with
        conns := self.conns.set i
          ⟨sent ++ [(req, self.log.length)], [], qs.write req, false, .reading, [], received⟩ } := by
    rw [step]
    refine hon self _ _ _ hlt ?_
    simp [qs.write_ne_nil req]
  have hread : step service qs bs { self with
        conns := self.conns.set i
          ⟨sent ++ [(req, self.log.length)], [], qs.write req, false, .reading, [], received⟩ }
      (.read i env) = some { self with
        state
        conns := self.conns.set i
          ⟨sent ++ [(req, self.log.length)], [], [], false, .writing (bs.write b), [], received⟩
        log := self.log ++ [(some i, .first env req)] } := by
    simp only [step, List.getElem?_set_self hlt, hreq, hfirst, run, List.set_set,
      qs.newline_mem req, true_or, if_true]
  have hrespond : step service qs bs { self with
        state
        conns := self.conns.set i
          ⟨sent ++ [(req, self.log.length)], [], [], false, .writing (bs.write b), [], received⟩
        log := self.log ++ [(some i, .first env req)] }
      (.respond i (bs.write b).length) = some { self with
        state
        conns := self.conns.set i
          ⟨sent ++ [(req, self.log.length)], [], [], false, .reading, bs.write b, received⟩
        log := self.log ++ [(some i, .first env req)] } := by
    rw [step]
    refine hon { self with state, log := _ } _ _ _ hlt ?_
    simp
  have hreceive : step service qs bs { self with
        state
        conns := self.conns.set i
          ⟨sent ++ [(req, self.log.length)], [], [], false, .reading, bs.write b, received⟩
        log := self.log ++ [(some i, .first env req)] }
      (.receive i) = some { self with
        state
        conns := self.conns.set i ⟨sent ++ [(req, self.log.length)], [], [], false, .reading, [],
          received ++ [(b, self.log.length + 1)]⟩
        log := self.log ++ [(some i, .first env req)] } := by
    rw [step]
    refine hon { self with state, log := _ } _ _ _ hlt ?_
    simp [bs.newline_mem b, hans]
  simp only [round, exec_cons, hsend, hwrite, hread, hrespond, hreceive, Option.bind_some, exec_nil]

end ServiceRun

/-! ## One connection

The two directions of a connection are lines under way. `Orderly` relates them to two
lists that only the log knows, the requests taken up and the answers given, and every
step of client and handler keeps it. -/

/-- What a handler that has not ended still has to write, and whether it still
has to answer. -/
def Handler.owed {J : Type} : Handler J → Option (List UInt8 × Nat)
  | .reading => some ([], 0)
  | .working _ => some ([], 1)
  | .writing rest => some (rest, 0)
  | .gone => none

namespace Conn

variable {Q J B : Type} {qs : Lines Q} {bs : Lines B} {reqs : List Q} {ans : List B} {c : Conn Q J B}

/-- The requests that were handled are the first that were sent, and the lines
of the others are under way; the answers that were received are the first that
were given, and the lines of the others are under way. -/
structure Orderly (qs : Lines Q) (bs : Lines B) (reqs : List Q) (ans : List B)
    (owed : Option (List UInt8 × Nat)) (c : Conn Q J B) : Prop where
  sent : ∃ pending, c.sent.map Prod.fst = reqs ++ pending ∧ c.up <+: pending.flatMap qs.write ∧
    (c.closed = false → c.up ++ c.unwritten = pending.flatMap qs.write)
  closed : c.closed = true → c.unwritten = []
  received : ∃ pending, ans = c.received.map Prod.fst ++ pending ∧
    c.down <+: pending.flatMap bs.write ∧
    (∀ rest n, owed = some (rest, n) → c.down ++ rest = pending.flatMap bs.write)
  answered : ans.length ≤ reqs.length ∧ ∀ rest n, owed = some (rest, n) → reqs.length = ans.length + n

/-- A fresh connection: nothing sent, nothing received, and the handler owes nothing. -/
theorem orderly_new (qs : Lines Q) (bs : Lines B) :
    (Conn.new : Conn Q J B).Orderly qs bs [] [] (some ([], 0)) where
  sent := ⟨[], rfl, List.nil_prefix, fun _ => rfl⟩
  closed := by rintro ⟨⟩
  received := by
    refine ⟨[], rfl, List.nil_prefix, ?_⟩
    rintro rest n ⟨⟩
    rfl
  answered := by
    refine ⟨Nat.le_refl _, ?_⟩
    rintro rest n ⟨⟩
    rfl

namespace Orderly

variable {owed : Option (List UInt8 × Nat)} (h : c.Orderly qs bs reqs ans owed)
include h

/-- The client begins to write a request. It does so only when its last line is out, so
the lines under way stay lines. -/
theorem send (hclosed : c.closed = false) (hwritten : c.unwritten = []) (req : Q) (n : Nat) :
    Orderly qs bs reqs ans owed
      { c with sent := c.sent ++ [(req, n)], unwritten := qs.write req } := by
  obtain ⟨pending, hsent, hup, hopen⟩ := h.sent
  have hall := hopen hclosed
  rw [hwritten, List.append_nil] at hall
  refine ⟨⟨pending ++ [req], ?_, ?_, ?_⟩, ?_, h.received, h.answered⟩
  · rw [List.map_append, hsent, List.append_assoc]
    rfl
  · rw [List.flatMap_append]
    exact hup.trans (List.prefix_append _ _)
  · intro _
    rw [hall, List.flatMap_append, List.flatMap_singleton]
  · intro htrue
    rw [hclosed] at htrue
    cases htrue

/-- Bytes of the request go out, however many at once. Only the boundary between written
and unwritten moves. -/
theorem write (n : Nat) :
    Orderly qs bs reqs ans owed
      { c with up := c.up ++ c.unwritten.take n, unwritten := c.unwritten.drop n } := by
  obtain ⟨pending, hsent, hup, hopen⟩ := h.sent
  -- bytes move from `unwritten` to `up`, and their concatenation stays
  have hsame : c.up ++ c.unwritten.take n ++ c.unwritten.drop n = c.up ++ c.unwritten := by
    rw [List.append_assoc, List.take_append_drop]
  refine ⟨⟨pending, hsent, ?_, ?_⟩, ?_, h.received, h.answered⟩
  · dsimp only
    by_cases hclosed : c.closed = true
    · rw [h.closed hclosed, List.take_nil, List.append_nil]
      exact hup
    · have hall := hopen (Bool.eq_false_iff.mpr hclosed)
      rw [← hall, ← hsame]
      exact List.prefix_append _ _
  · intro hclosed
    rw [hsame]
    exact hopen hclosed
  · intro hclosed
    dsimp only
    rw [h.closed hclosed, List.drop_nil]

/-- The client goes. The rest of its line is never written, and from here on the last
request need not be whole. -/
theorem close : Orderly qs bs reqs ans owed { c with closed := true, unwritten := [] } := by
  obtain ⟨pending, hsent, hup, -⟩ := h.sent
  exact ⟨⟨pending, hsent, hup, by rintro ⟨⟩⟩, fun _ => rfl, h.received, h.answered⟩

/-- The client reads an answer. By `Lines.read_front` it is the oldest one under way,
and its number is below that of the answers given, which is what `Timely` needs. -/
theorem receive {b : B} {rest : List UInt8} (hread : bs.read c.down = some (b, rest))
    (hline : 0x0a ∈ c.down ∨ owed = none) (n : Nat) :
    Orderly qs bs reqs ans owed { c with down := rest, received := c.received ++ [(b, n)] } ∧
      c.received.length < ans.length := by
  obtain ⟨pending, hans, hdown, howed⟩ := h.received
  obtain ⟨pending', rfl, hrest, hwhole⟩ := bs.read_front hdown hread
  refine ⟨⟨h.sent, h.closed, ⟨pending', ?_, hrest, ?_⟩, h.answered⟩, ?_⟩
  · rw [hans, List.map_append, List.append_assoc]
    rfl
  · intro more m hm
    have hall := howed more m hm
    rcases hline with hline | hnone
    · rw [hwhole hline, List.flatMap_cons, List.append_assoc] at hall
      exact List.append_cancel_left hall
    · rw [hnone] at hm
      cases hm
  · rw [hans, List.length_append, List.length_map, List.length_cons]
    omega

/-- The handler reads a request. -/
theorem read {req : Q} {rest : List UInt8} (howed : owed = some ([], 0))
    (hread : qs.read c.up = some (req, rest)) (hline : 0x0a ∈ c.up ∨ c.closed = true) :
    Orderly qs bs (reqs ++ [req]) ans (some ([], 1)) { c with up := rest } := by
  obtain ⟨pending, hsent, hup, hopen⟩ := h.sent
  obtain ⟨pending', rfl, hrest, hwhole⟩ := qs.read_front hup hread
  refine ⟨⟨pending', ?_, hrest, ?_⟩, h.closed, ?_, ?_⟩
  · rw [hsent, List.append_assoc]
    rfl
  -- while the connection is open the line was whole, so what is left in the stream is
  -- what is still to come
  · intro hclosed
    have hall := hopen hclosed
    rcases hline with hline | htrue
    · rw [hwhole hline, List.flatMap_cons, List.append_assoc] at hall
      exact List.append_cancel_left hall
    · rw [hclosed] at htrue
      cases htrue
  · obtain ⟨pending, hans, hdown, hdown'⟩ := h.received
    refine ⟨pending, hans, hdown, ?_⟩
    rintro more n ⟨⟩
    exact hdown' [] 0 howed
  · have heq := h.answered.2 [] 0 howed
    rw [List.length_append, List.length_singleton]
    refine ⟨by omega, ?_⟩
    rintro more n ⟨⟩
    omega

/-- The handler has an answer and owes its line, where it owed an answer before. -/
theorem answer (howed : owed = some ([], 1)) (b : B) (handler : Handler J) :
    Orderly qs bs reqs (ans ++ [b]) (some (bs.write b, 0)) { c with handler } := by
  obtain ⟨pending, hans, hdown, hdown'⟩ := h.received
  have hall := hdown' [] 1 howed
  rw [List.append_nil] at hall
  have heq := h.answered.2 [] 1 howed
  refine ⟨h.sent, h.closed, ⟨pending ++ [b], ?_, ?_, ?_⟩, ?_, ?_⟩
  · rw [hans, List.append_assoc]
  · rw [List.flatMap_append]
    exact hdown.trans (List.prefix_append _ _)
  · rintro more n ⟨⟩
    dsimp only
    rw [hall, List.flatMap_append, List.flatMap_singleton]
  · rw [List.length_append, List.length_singleton]
    omega
  · rintro more n ⟨⟩
    rw [List.length_append, List.length_singleton]
    omega

/-- Bytes of the answer go out. -/
theorem respond {rest : List UInt8} (howed : owed = some (rest, 0)) (n : Nat)
    (handler : Handler J) :
    Orderly qs bs reqs ans (some (rest.drop n, 0))
      { c with down := c.down ++ rest.take n, handler } := by
  obtain ⟨pending, hans, hdown, hdown'⟩ := h.received
  have hall := hdown' rest 0 howed
  have hsame : c.down ++ rest.take n ++ rest.drop n = c.down ++ rest := by
    rw [List.append_assoc, List.take_append_drop]
  refine ⟨h.sent, h.closed, ⟨pending, hans, ?_, ?_⟩, h.answered.1, ?_⟩
  · dsimp only
    rw [← hall, ← hsame]
    exact List.prefix_append _ _
  · rintro more m ⟨⟩
    dsimp only
    rw [hsame, hall]
  · rintro more m ⟨⟩
    exact h.answered.2 rest 0 howed

/-- The handler goes on with the request, or ends. -/
theorem handled {owed' : Option (List UInt8 × Nat)} (howed : owed' = owed ∨ owed' = none)
    (handler : Handler J) : Orderly qs bs reqs ans owed' { c with handler } := by
  obtain ⟨pending, hans, hdown, hdown'⟩ := h.received
  rcases howed with rfl | rfl
  · exact ⟨h.sent, h.closed, h.received, h.answered⟩
  · exact ⟨h.sent, h.closed, ⟨pending, hans, hdown, by rintro more n ⟨⟩⟩, h.answered.1,
      by rintro more n ⟨⟩⟩

end Orderly

end Conn

/-! ## The log

The log is tagged with connections, so what it says of one of them is a projection.
These lemmas compute the projections one piece at a time. -/

section Log

variable {S E Q J B O : Type} (service : Service S E Q J B O) (s : S)
  (log : List (Option Nat × Piece E Q J O)) (piece : Piece E Q J O)

/-- The replay of a log that is one piece longer: one more piece is played on the state
it has reached. The lemmas after it split the same step by connection. -/
theorem replay_concat (tag : Option Nat) :
    service.replay s (log ++ [(tag, piece)])
      = ((service.play (service.replay s log).1 piece).1, (service.replay s log).2 ++
          (service.play (service.replay s log).1 piece).2.map (fun turn => (tag, turn))) :=
  runOut_concat (tagged service.play) s log (tag, piece)

/-- Who has no pieces has no turns. -/
theorem select_replay_eq_nil {i : Option Nat} (h : select i log = []) :
    select i (service.replay s log).2 = [] := by
  induction log using List.reverseRecOn with
  | nil => rfl
  | append_singleton log it ih =>
      obtain ⟨tag, piece⟩ := it
      rw [select_append, List.append_eq_nil_iff] at h
      have hne : tag ≠ i := by
        rintro rfl
        rw [select_cons_self] at h
        cases h.2
      rw [replay_concat, select_append, ih h.1, select_map_ne i tag hne, List.append_nil]

/-- A piece that takes a request up adds it to its connection's requests, -/
theorem requests_concat (i : Nat) :
    requests (log ++ [(some i, piece)]) i = requests log i ++ piece.request.toList := by
  rw [requests, select_append, select_cons_self, select_nil, List.filterMap_append, requests]
  cases hreq : piece.request <;> simp [hreq]

/-- and a piece of another connection does not. -/
theorem requests_other {i : Nat} {tag : Option Nat} (h : tag ≠ some i) :
    requests (log ++ [(tag, piece)]) i = requests log i := by
  rw [requests, select_append, select_cons_ne (some i) tag h, select_nil, List.append_nil, requests]

/-- A piece that answers adds the answer to its connection's, -/
theorem answers_concat (i : Nat) :
    service.answers s (log ++ [(some i, piece)]) i = service.answers s log i ++
      (service.play (service.replay s log).1 piece).2.filterMap Turn.answered := by
  rw [Service.answers, replay_concat, select_append, select_map_self, List.filterMap_append,
    Service.answers]

/-- and to no other's. -/
theorem answers_other {i : Nat} {tag : Option Nat} (h : tag ≠ some i) :
    service.answers s (log ++ [(tag, piece)]) i = service.answers s log i := by
  rw [Service.answers, replay_concat, select_append, select_map_ne (some i) tag h, List.append_nil,
    Service.answers]

end Log

/-! ## When a request is worked on

Beyond the order in each connection there is real time. A client that has its answer may
tell another client, and what that one asks then must come later in the log. -/

section Timely

variable {S E Q J B O : Type} (service : Service S E Q J B O) (start : S)

/-- A request is worked on after it was sent, and its answer is received after it
was given. -/
structure Timely (log : List (Option Nat × Piece E Q J O)) (i : Nat) (c : Conn Q J B) : Prop where
  sent : ∀ (k : Nat) req n, c.sent[k]? = some (req, n) →
    n ≤ log.length ∧ (requests (log.take n) i).length ≤ k
  received : ∀ (k : Nat) b n, c.received[k]? = some (b, n) →
    n ≤ log.length ∧ k < (service.answers start (log.take n) i).length

variable {service start} {log : List (Option Nat × Piece E Q J O)} {i : Nat} {c c' : Conn Q J B}

/-- A step that neither sends nor receives leaves the times alone. -/
theorem Timely.same (h : Timely service start log i c) (hsent : c'.sent = c.sent)
    (hreceived : c'.received = c.received) : Timely service start log i c' :=
  ⟨by rw [hsent]; exact h.sent, by rw [hreceived]; exact h.received⟩

/-- A longer log takes nothing back: what was late enough before is late enough now. -/
theorem Timely.append (h : Timely service start log i c)
    (more : List (Option Nat × Piece E Q J O)) : Timely service start (log ++ more) i c := by
  have hlen : log.length ≤ (log ++ more).length := by simp
  refine ⟨?_, ?_⟩
  · intro k req n hk
    obtain ⟨hn, hbefore⟩ := h.sent k req n hk
    rw [List.take_append_of_le_length hn]
    exact ⟨Nat.le_trans hn hlen, hbefore⟩
  · intro k b n hk
    obtain ⟨hn, hafter⟩ := h.received k b n hk
    rw [List.take_append_of_le_length hn]
    exact ⟨Nat.le_trans hn hlen, hafter⟩

/-- What is appended now is as late as the log is long. -/
theorem getElem_concat_cases {α : Type} {xs : List (α × Nat)} {k : Nat} {a a' : α} {n n' : Nat}
    (h : (xs ++ [(a, n)])[k]? = some (a', n')) :
    xs[k]? = some (a', n') ∨ (k = xs.length ∧ n' = n) := by
  rcases Nat.lt_trichotomy k xs.length with hlt | rfl | hgt
  · rw [List.getElem?_append_left hlt] at h
    exact .inl h
  · rw [List.getElem?_concat_length] at h
    cases h
    exact .inr ⟨rfl, rfl⟩
  · rw [List.getElem?_eq_none (by rw [List.length_append, List.length_singleton]; omega)] at h
    cases h

/-- A request that is sent now will be worked on later, as its piece is not in the log
yet. -/
theorem Timely.send (h : Timely service start log i c) (req : Q)
    (hlate : (requests log i).length ≤ c.sent.length) (hreceived : c'.received = c.received)
    (hsent : c'.sent = c.sent ++ [(req, log.length)]) : Timely service start log i c' := by
  refine ⟨?_, by rw [hreceived]; exact h.received⟩
  intro k req' n hk
  rw [hsent] at hk
  rcases getElem_concat_cases hk with hk | ⟨rfl, rfl⟩
  · exact h.sent k req' n hk
  · rw [List.take_length]
    exact ⟨Nat.le_refl _, hlate⟩

/-- An answer that is received now was given before: its piece is in the log. -/
theorem Timely.receive (h : Timely service start log i c) (b : B)
    (hlate : c.received.length < (service.answers start log i).length) (hsent : c'.sent = c.sent)
    (hreceived : c'.received = c.received ++ [(b, log.length)]) :
    Timely service start log i c' := by
  refine ⟨by rw [hsent]; exact h.sent, ?_⟩
  intro k b' n hk
  rw [hreceived] at hk
  rcases getElem_concat_cases hk with hk | ⟨rfl, rfl⟩
  · exact h.received k b' n hk
  · rw [List.take_length]
    exact ⟨Nat.le_refl _, hlate⟩

end Timely

/-! ## Runs

The three parts of the invariant are the replay of the state, the order in each
connection and the times. -/

namespace ServiceRun

variable {S E Q J B O : Type} (service : Service S E Q J B O) (qs : Lines Q) (bs : Lines B)
  (start : S)

/-- What the log of a service says, at any time. -/
structure Linear (t : ServiceRun S E Q J B O) : Prop where
  replay : (service.replay start t.log).1 = t.state
  orderly : ∀ i (c : Conn Q J B), t.conns[i]? = some c →
    c.Orderly qs bs (requests t.log i) (service.answers start t.log i) c.handler.owed
  timely : ∀ i (c : Conn Q J B), t.conns[i]? = some c → Timely service start t.log i c
  fresh : ∀ i, t.conns.length ≤ i → select (some i) t.log = []
  exited : t.exited = true → ∀ c ∈ t.conns, c.handler.owed = none
  held : t.exited = false → ∀ c ∈ t.conns, c.handler.owed = none → c.closed = true
  last : ∀ pre tag piece post, t.log = pre ++ (tag, piece) :: post →
    .exit ∈ (service.play (service.replay start pre).1 piece).2 → post = [] ∧ t.exited = true

variable {service qs bs start} {self next : ServiceRun S E Q J B O} {i : Nat} {c c' : Conn Q J B}

/-- A step of one connection is a step of that connection and nothing else. -/
theorem on_eq_some {f : Conn Q J B → Option (Conn Q J B)} (h : self.on i f = some next) :
    ∃ c c', self.conns[i]? = some c ∧ f c = some c' ∧
      next = { self with conns := self.conns.set i c' } := by
  obtain ⟨c', hc', rfl⟩ := Option.map_eq_some_iff.mp h
  obtain ⟨c, hc, hf⟩ := Option.bind_eq_some_iff.mp hc'
  exact ⟨c, c', hc, hf, rfl⟩

/-- An element of an updated list. -/
theorem getElem_set_cases {α : Type} {xs : List α} {j : Nat} {x y : α}
    (h : (xs.set i x)[j]? = some y) : (i = j ∧ x = y) ∨ xs[j]? = some y := by
  rw [List.getElem?_set] at h
  split_ifs at h with hij hlt
  · exact .inl ⟨hij, Option.some.inj h⟩
  · exact .inr h

/-- A service at its start: no connection, and an empty log that replays to the start.
-/
theorem linear_new (service : Service S E Q J B O) (qs : Lines Q) (bs : Lines B) (start : S) :
    Linear service qs bs start (new start) where
  replay := rfl
  orderly := by rintro i c ⟨⟩
  timely := by rintro i c ⟨⟩
  fresh _ _ := rfl
  exited := by rintro ⟨⟩
  held := by rintro - c ⟨⟩
  last := by
    intro pre tag piece post h
    exact absurd h.symm (List.append_ne_nil_of_right_ne_nil _ (List.cons_ne_nil _ _))

namespace Linear

/-- A new connection has no pieces in the log, because its number is new. -/
theorem accept (h : Linear service qs bs start self) (hopen : self.exited = false) :
    Linear service qs bs start { self with conns := self.conns ++ [.new] } := by
  have hlog := h.fresh self.conns.length (Nat.le_refl _)
  have hreqs : requests self.log self.conns.length = [] := by rw [requests, hlog, List.filterMap_nil]
  have hans : service.answers start self.log self.conns.length = [] := by
    rw [Service.answers, select_replay_eq_nil service start _ hlog, List.filterMap_nil]
  -- the new connection is the last one, and nothing in the log is about it
  have hconns : ∀ j c, (self.conns ++ [Conn.new])[j]? = some c →
      self.conns[j]? = some c ∨ (j = self.conns.length ∧ c = Conn.new) := by
    intro j c hc
    rcases Nat.lt_trichotomy j self.conns.length with hlt | rfl | hgt
    · rw [List.getElem?_append_left hlt] at hc
      exact .inl hc
    · rw [List.getElem?_concat_length] at hc
      exact .inr ⟨rfl, (Option.some.inj hc).symm⟩
    · rw [List.getElem?_eq_none (by rw [List.length_append, List.length_singleton]; omega)] at hc
      cases hc
  refine ⟨h.replay, ?_, ?_, ?_, ?_, ?_, h.last⟩
  · intro j c hc
    rcases hconns j c hc with hc | ⟨rfl, rfl⟩
    · exact h.orderly j c hc
    · rw [hreqs, hans]
      exact Conn.orderly_new qs bs
  · intro j c hc
    rcases hconns j c hc with hc | ⟨rfl, rfl⟩
    · exact h.timely j c hc
    · exact ⟨by rintro k req n ⟨⟩, by rintro k b n ⟨⟩⟩
  · intro j hj
    rw [List.length_append, List.length_singleton] at hj
    exact h.fresh j (by omega)
  · intro htrue
    rw [hopen] at htrue
    cases htrue
  · intro _ c hc hnone
    rcases List.mem_append.mp hc with hc | hc
    · exact h.held hopen c hc hnone
    · rw [List.mem_singleton.mp hc] at hnone
      cases hnone

/-- A connection goes on without the state. -/
theorem set (h : Linear service qs bs start self) (hc : self.conns[i]? = some c)
    (horderly : c'.Orderly qs bs (requests self.log i) (service.answers start self.log i)
      c'.handler.owed)
    (htimely : Timely service start self.log i c')
    (hgone : c.handler.owed = none → c'.handler.owed = none)
    (hheld : c'.handler.owed = none → c'.closed = true ∨ c.handler.owed = none ∧ c'.closed = c.closed) :
    Linear service qs bs start { self with conns := self.conns.set i c' } where
  replay := h.replay
  -- only connection `i` has changed; the log and the state have not
  orderly := by
    intro j d hd
    rcases getElem_set_cases hd with ⟨rfl, rfl⟩ | hd
    · exact horderly
    · exact h.orderly j d hd
  timely := by
    intro j d hd
    rcases getElem_set_cases hd with ⟨rfl, rfl⟩ | hd
    · exact htimely
    · exact h.timely j d hd
  fresh := by
    intro j hj
    rw [List.length_set] at hj
    exact h.fresh j hj
  exited := by
    intro hexited d hd
    rcases List.mem_or_eq_of_mem_set hd with hd | rfl
    · exact h.exited hexited d hd
    · exact hgone (h.exited hexited c (List.mem_of_getElem? hc))
  held := by
    intro hexited d hd hnone
    rcases List.mem_or_eq_of_mem_set hd with hd | rfl
    · exact h.held hexited d hd hnone
    · rcases hheld hnone with hclosed | ⟨hbefore, hsame⟩
      · exact hclosed
      · rw [hsame]
        exact h.held hexited c (List.mem_of_getElem? hc) hbefore
  last := h.last

/-- A piece of work is played. -/
theorem append (h : Linear service qs bs start self) (hopen : self.exited = false)
    {tag : Option Nat} {piece : Piece E Q J O} {state : S} {exited : Bool}
    {conns : List (Conn Q J B)} (hstate : (service.play self.state piece).1 = state)
    (hlen : conns.length = self.conns.length) (htag : ∀ i, tag = some i → i < self.conns.length)
    (hconns : ∀ j c, conns[j]? = some c →
      c.Orderly qs bs (requests (self.log ++ [(tag, piece)]) j)
          (service.answers start (self.log ++ [(tag, piece)]) j) c.handler.owed ∧
        Timely service start (self.log ++ [(tag, piece)]) j c)
    (hexited : exited = true → ∀ c ∈ conns, c.handler.owed = none)
    (hheld : exited = false → ∀ c ∈ conns, c.handler.owed = none → c.closed = true)
    (hexit : .exit ∈ (service.play self.state piece).2 → exited = true) :
    Linear service qs bs start
      { self with state, exited, conns, log := self.log ++ [(tag, piece)] } where
  replay := by
    rw [replay_concat, h.replay, hstate]
  orderly := fun j c hc => (hconns j c hc).1
  timely := fun j c hc => (hconns j c hc).2
  fresh := by
    intro j hj
    dsimp only at hj ⊢
    rw [hlen] at hj
    have hne : tag ≠ some j := fun heq => absurd (htag j heq) (by omega)
    rw [select_append, select_cons_ne (some j) tag hne, select_nil, List.append_nil]
    exact h.fresh j hj
  exited := hexited
  held := hheld
  -- an exit in the log was its last piece, and nothing is played after one
  last := by
    intro pre tag' piece' post hsplit hmem
    rcases List.eq_nil_or_concat post with rfl | ⟨post, it, rfl⟩
    · obtain ⟨rfl, hit⟩ := List.append_inj' hsplit rfl
      cases hit
      rw [h.replay] at hmem
      exact ⟨rfl, hexit hmem⟩
    · rw [List.concat_eq_append, ← List.cons_append, ← List.append_assoc] at hsplit
      obtain ⟨hlog, -⟩ := List.append_inj' hsplit rfl
      have hbefore := (h.last pre tag' piece' post hlog hmem).2
      rw [hopen] at hbefore
      cases hbefore

/-- The handler of a connection has a piece of work. -/
theorem run (h : Linear service qs bs start self) (hc : self.conns[i]? = some c)
    (halive : c.handler.owed ≠ none) {piece : Piece E Q J O} {state : S} {turn : Turn J B}
    (hplay : service.play self.state piece = (state, [turn]))
    (horderly : c'.Orderly qs bs (requests self.log i ++ piece.request.toList)
      (service.answers start self.log i) (some ([], 1)))
    (hsent : c'.sent = c.sent) (hreceived : c'.received = c.received) :
    Linear service qs bs start (self.run bs i c' piece state turn) := by
  have hopen : self.exited = false := by
    rw [Bool.eq_false_iff]
    exact fun htrue => halive (h.exited htrue c (List.mem_of_getElem? hc))
  have htag : ∀ j, some i = some j → j < self.conns.length := by
    rintro j ⟨⟩
    exact (List.getElem?_eq_some_iff.mp hc).1
  have hstate : (service.play self.state piece).1 = state := congrArg Prod.fst hplay
  have hturn : (service.play self.state piece).2 = [turn] := congrArg Prod.snd hplay
  -- what the log says after it
  have hreqs := requests_concat self.log piece i
  have hans := answers_concat service start self.log piece i
  rw [h.replay, hturn] at hans
  have htimely : ∀ d : Conn Q J B, d.sent = c'.sent → d.received = c'.received →
      Timely service start (self.log ++ [(some i, piece)]) i d := by
    intro d hdsent hdreceived
    exact ((h.timely i c hc).append _).same (hdsent.trans hsent) (hdreceived.trans hreceived)
  -- the other connections do not notice
  have hothers : ∀ j d, some i ≠ some j → self.conns[j]? = some d →
      d.Orderly qs bs (requests (self.log ++ [(some i, piece)]) j)
          (service.answers start (self.log ++ [(some i, piece)]) j) d.handler.owed ∧
        Timely service start (self.log ++ [(some i, piece)]) j d := by
    intro j d hne hd
    rw [requests_other self.log piece hne, answers_other service start self.log piece hne]
    exact ⟨h.orderly j d hd, (h.timely j d hd).append _⟩
  have hset : ∀ d : Conn Q J B,
      d.Orderly qs bs (requests (self.log ++ [(some i, piece)]) i)
        (service.answers start (self.log ++ [(some i, piece)]) i) d.handler.owed →
      d.sent = c'.sent → d.received = c'.received → ∀ j e, (self.conns.set i d)[j]? = some e →
      e.Orderly qs bs (requests (self.log ++ [(some i, piece)]) j)
          (service.answers start (self.log ++ [(some i, piece)]) j) e.handler.owed ∧
        Timely service start (self.log ++ [(some i, piece)]) j e := by
    intro d hd hdsent hdreceived j e he
    by_cases hij : i = j
    · subst hij
      rw [List.getElem?_set_self (htag i rfl)] at he
      cases he
      exact ⟨hd, htimely d hdsent hdreceived⟩
    · rw [List.getElem?_set_ne hij] at he
      exact hothers j e (fun heq => hij (Option.some.inj heq)) he
  have hheld : ∀ d : Conn Q J B, d.handler.owed ≠ none → ∀ e ∈ self.conns.set i d,
      e.handler.owed = none → e.closed = true := by
    intro d hd e he hnone
    rcases List.mem_or_eq_of_mem_set he with he | rfl
    · exact h.held hopen e he hnone
    · exact absurd hnone hd
  cases turn with
  | answer b =>
      refine h.append hopen hstate (List.length_set ..) htag (hset _ ?_ rfl rfl)
        (by rw [hopen]; rintro ⟨⟩) (fun _ => hheld _ (by rintro ⟨⟩)) (by rw [hturn]; simp)
      rw [hreqs, hans]
      exact horderly.answer rfl b _
  | go_on job =>
      refine h.append hopen hstate (List.length_set ..) htag (hset _ ?_ rfl rfl)
        (by rw [hopen]; rintro ⟨⟩) (fun _ => hheld _ (by rintro ⟨⟩)) (by rw [hturn]; simp)
      rw [hreqs, hans]
      simp only [List.filterMap_cons, Turn.answered, List.filterMap_nil, List.append_nil]
      exact horderly.handled (.inl rfl) _
  | exit =>
      refine h.append hopen hstate ?_ htag ?_ ?_ (by rintro ⟨⟩) (fun _ => rfl)
      · rw [List.length_map, List.length_set]
      · intro j e he
        rw [List.getElem?_map] at he
        obtain ⟨d, hd, rfl⟩ := Option.map_eq_some_iff.mp he
        by_cases hij : i = j
        · subst hij
          rw [List.getElem?_set_self (htag i rfl)] at hd
          cases hd
          rw [hreqs, hans]
          simp only [List.filterMap_cons, Turn.answered, List.filterMap_nil, List.append_nil]
          exact ⟨horderly.handled (.inr rfl) _, htimely _ rfl rfl⟩
        · rw [List.getElem?_set_ne hij] at hd
          obtain ⟨horderly, htimely⟩ := hothers j d (fun heq => hij (Option.some.inj heq)) hd
          exact ⟨horderly.handled (.inr rfl) _, htimely.same rfl rfl⟩
      · intro _ e he
        obtain ⟨d, -, rfl⟩ := List.mem_map.mp he
        rfl

end Linear

/-- **One step** keeps the log in order. -/
theorem linear_step (self next : ServiceRun S E Q J B O) (a : ServiceStep E Q O)
    (h : Linear service qs bs start self) (hstep : self.step service qs bs a = some next) :
    Linear service qs bs start next := by
  cases a with
  | accept =>
      simp only [step] at hstep
      split_ifs at hstep with hexited
      cases hstep
      exact h.accept (Bool.eq_false_iff.mpr hexited)
  | send i req =>
      obtain ⟨c, c', hc, hf, rfl⟩ := on_eq_some hstep
      have horderly := h.orderly i c hc
      split_ifs at hf with hbusy
      obtain ⟨hclosed, hwritten⟩ := not_or.mp hbusy
      cases hf
      have hlate : (requests self.log i).length ≤ c.sent.length := by
        obtain ⟨pending, hsent, -⟩ := horderly.sent
        have hlen := congrArg List.length hsent
        rw [List.length_map, List.length_append] at hlen
        omega
      exact h.set hc (horderly.send (Bool.eq_false_iff.mpr hclosed) (not_not.mp hwritten) req _)
        ((h.timely i c hc).send req hlate rfl rfl) id (fun hnone => .inr ⟨hnone, rfl⟩)
  | write i n =>
      obtain ⟨c, c', hc, hf, rfl⟩ := on_eq_some hstep
      split_ifs at hf
      cases hf
      exact h.set hc ((h.orderly i c hc).write (n + 1)) ((h.timely i c hc).same rfl rfl) id
        (fun hnone => .inr ⟨hnone, rfl⟩)
  | close i =>
      obtain ⟨c, c', hc, hf, rfl⟩ := on_eq_some hstep
      cases hf
      exact h.set hc (h.orderly i c hc).close ((h.timely i c hc).same rfl rfl) id
        (fun _ => .inl rfl)
  | receive i =>
      obtain ⟨c, c', hc, hf, rfl⟩ := on_eq_some hstep
      split_ifs at hf with hready
      obtain ⟨⟨b, rest⟩, hread, rfl⟩ := Option.map_eq_some_iff.mp hf
      have hline : 0x0a ∈ c.down ∨ c.handler.owed = none := by
        refine hready.2.imp id ?_
        intro hgone
        cases hh : c.handler with
        | gone => rfl
        | reading | working _ | writing _ => rw [hh] at hgone; cases hgone
      obtain ⟨horderly, hlate⟩ := (h.orderly i c hc).receive hread hline self.log.length
      exact h.set hc horderly ((h.timely i c hc).receive b hlate rfl rfl) id
        (fun hnone => .inr ⟨hnone, rfl⟩)
  | read i env =>
      simp only [step] at hstep
      split at hstep
      · rename_i c hc
        split at hstep
        · rename_i hhandler
          have horderly := h.orderly i c hc
          rw [hhandler] at horderly
          split_ifs at hstep with hready
          split at hstep
          · rename_i req rest hread
            cases hstep
            refine h.run hc (by rw [hhandler]; rintro ⟨⟩) rfl ?_ rfl rfl
            exact horderly.read rfl hread hready
          · rename_i hread
            cases hstep
            refine h.set hc (horderly.handled (.inr rfl) .gone) ((h.timely i c hc).same rfl rfl)
              (fun _ => rfl) (fun _ => .inl ?_)
            -- what there is of an open connection is a whole line
            obtain ⟨pending, -, hup, -⟩ := horderly.sent
            exact hready.resolve_left (fun hline => qs.read_whole hup hline hread)
        · cases hstep
      · cases hstep
  | work i env =>
      simp only [step] at hstep
      split at hstep
      · rename_i c hc
        split at hstep
        · rename_i job hhandler
          cases hstep
          have horderly := h.orderly i c hc
          rw [hhandler] at horderly
          refine h.run hc (by rw [hhandler]; rintro ⟨⟩) rfl ?_ rfl rfl
          simp only [Piece.request, Option.toList_none, List.append_nil]
          exact horderly
        · cases hstep
      · cases hstep
  | respond i n =>
      obtain ⟨c, c', hc, hf, rfl⟩ := on_eq_some hstep
      split at hf
      · rename_i rest hhandler
        cases hf
        have horderly := h.orderly i c hc
        rw [hhandler] at horderly
        have hnext := horderly.respond rfl (n + 1)
          (if rest.drop (n + 1) = [] then .reading else .writing (rest.drop (n + 1)))
        refine h.set hc ?_ ((h.timely i c hc).same rfl rfl) (by rw [hhandler]; rintro ⟨⟩) ?_
        · split_ifs at hnext ⊢ with hdone
          · rw [hdone] at hnext
            exact hnext
          · exact hnext
        · dsimp only
          split_ifs <;> rintro ⟨⟩
      · cases hf
  | break_off i =>
      obtain ⟨c, c', hc, hf, rfl⟩ := on_eq_some hstep
      split_ifs at hf with hgone
      cases hf
      exact h.set hc ((h.orderly i c hc).handled (.inr rfl) .gone) ((h.timely i c hc).same rfl rfl)
        (fun _ => rfl) (fun _ => .inl hgone.1)
  | other event =>
      simp only [step] at hstep
      split_ifs at hstep with hexited
      cases hstep
      have hopen := Bool.eq_false_iff.mpr hexited
      refine h.append hopen rfl rfl (by rintro j ⟨⟩) ?_ h.exited h.held (by rintro ⟨⟩)
      intro j c hc
      rw [requests_other self.log _ (by rintro ⟨⟩), answers_other service start self.log _ (by rintro ⟨⟩)]
      exact ⟨h.orderly j c hc, (h.timely j c hc).append _⟩

/-- **The log of a run.** -/
theorem linear_run (service : Service S E Q J B O) (qs : Lines Q) (bs : Lines B) (start : S)
    (steps : List (ServiceStep E Q O)) (last : ServiceRun S E Q J B O)
    (hrun : exec (step service qs bs) (new start) steps = some last) :
    Linear service qs bs start last :=
  exec_invariant _ (Linear service qs bs start) _ last steps (linear_new service qs bs start)
    (fun m n a _ hm h => linear_step m n a hm h) hrun

/-- **At rest every request is answered.** Neither the handler of an open
connection nor its client has anything to do, and all that was sent is written:
then there is an answer to each request, and it is received. -/
theorem Linear.settled (h : Linear service qs bs start self) (hc : self.conns[i]? = some c)
    (hopen : c.closed = false) (halive : self.exited = false) (hwritten : c.unwritten = [])
    (env : E) (hread : self.step service qs bs (.read i env) = none)
    (hwork : self.step service qs bs (.work i env) = none)
    (hrespond : self.step service qs bs (.respond i 0) = none)
    (hreceive : self.step service qs bs (.receive i) = none) :
    requests self.log i = c.sent.map Prod.fst ∧
      c.received.map Prod.fst = service.answers start self.log i ∧
      c.received.length = c.sent.length := by
  have horderly := h.orderly i c hc
  -- each of the handler's tasks would have a step to take, so it waits for a line, and
  -- there is none
  obtain ⟨hreading, hline⟩ : c.handler = .reading ∧ 0x0a ∉ c.up := by
    cases hhandler : c.handler with
    | reading =>
        refine ⟨rfl, fun hline => ?_⟩
        simp only [step, hc, hhandler] at hread
        rw [if_pos (.inl hline)] at hread
        split at hread <;> cases hread
    | working job => simp [step, hc, hhandler] at hwork
    | writing rest => simp [step, on, hc, hhandler] at hrespond
    | gone =>
        have hclosed := h.held halive c (List.mem_of_getElem? hc) (by rw [hhandler]; rfl)
        rw [hopen] at hclosed
        cases hclosed
  rw [hreading] at horderly
  obtain ⟨pending, hsent, -, hup⟩ := horderly.sent
  have hall := hup hopen
  rw [hwritten, List.append_nil] at hall
  rw [hall] at hline
  obtain rfl := qs.eq_nil_of_flatMap hline
  rw [List.append_nil] at hsent
  obtain ⟨pending, hans, hprefix, hdown⟩ := horderly.received
  have hall := hdown [] 0 rfl
  rw [List.append_nil] at hall
  -- a whole line on the way back would be received
  have hquiet : 0x0a ∉ c.down := by
    intro hline
    obtain ⟨r, hr⟩ := Option.ne_none_iff_exists'.mp (bs.read_whole hprefix hline)
    simp [step, on, hc, hopen, hline, hr] at hreceive
  rw [hall] at hquiet
  obtain rfl := bs.eq_nil_of_flatMap hquiet
  rw [List.append_nil] at hans
  have heq := horderly.answered.2 [] 0 rfl
  refine ⟨hsent.symm, hans.symm, ?_⟩
  rw [hans, ← hsent, List.length_map, List.length_map] at heq
  exact heq.symm

/-! ## Invariants

A property of the state that the pieces keep holds at every time, and with it every
answer is sound. -/

/-- What a step does to the state: nothing, or it plays a piece of work, which
is a first one or one that a handler has. -/
theorem step_state {a : ServiceStep E Q O} (hstep : self.step service qs bs a = some next) :
    (next.state = self.state ∧ next.log = self.log ∧ ∀ c ∈ next.conns, ∀ job,
      c.handler = .working job → ∃ d ∈ self.conns, d.handler = .working job) ∨
    (∃ i c c' piece state turn, self.conns[i]? = some c ∧
      service.play self.state piece = (state, [turn]) ∧
      next = self.run bs i c' piece state turn ∧
      ((∃ env req, piece = .first env req) ∨
        ∃ env job, piece = .more env job ∧ c.handler = .working job)) ∨
    ∃ event, next.state = service.other self.state event ∧
      next.log = self.log ++ [(none, .other event)] ∧ next.conns = self.conns := by
  -- a connection that does not begin to work
  have hset : ∀ i (c' : Conn Q J B), (∀ job, c'.handler = .working job →
      ∃ d ∈ self.conns, d.handler = .working job) → ∀ c ∈ self.conns.set i c', ∀ job,
      c.handler = .working job → ∃ d ∈ self.conns, d.handler = .working job := by
    intro i c' hc' c hc job hjob
    rcases List.mem_or_eq_of_mem_set hc with hc | rfl
    · exact ⟨c, hc, hjob⟩
    · exact hc' job hjob
  have hon : ∀ i f, self.on i f = some next → (∀ c c', f c = some c' → ∀ job,
      c'.handler = .working job → c.handler = .working job) →
      next.state = self.state ∧ next.log = self.log ∧ ∀ c ∈ next.conns, ∀ job,
        c.handler = .working job → ∃ d ∈ self.conns, d.handler = .working job := by
    intro i f h hf
    obtain ⟨c, c', hc, hc', rfl⟩ := on_eq_some h
    exact ⟨rfl, rfl, hset i c' (fun job hjob => ⟨c, List.mem_of_getElem? hc, hf c c' hc' job hjob⟩)⟩
  cases a with
  | accept =>
      simp only [step] at hstep
      split_ifs at hstep
      cases hstep
      refine .inl ⟨rfl, rfl, ?_⟩
      intro c hc job hjob
      rcases List.mem_append.mp hc with hc | hc
      · exact ⟨c, hc, hjob⟩
      · rw [List.mem_singleton.mp hc] at hjob
        cases hjob
  | send i req =>
      refine .inl (hon i _ hstep ?_)
      intro c c' hc' job hjob
      split_ifs at hc'
      cases hc'
      exact hjob
  | write i n =>
      refine .inl (hon i _ hstep ?_)
      intro c c' hc' job hjob
      split_ifs at hc'
      cases hc'
      exact hjob
  | close i =>
      refine .inl (hon i _ hstep ?_)
      intro c c' hc' job hjob
      cases hc'
      exact hjob
  | receive i =>
      refine .inl (hon i _ hstep ?_)
      intro c c' hc' job hjob
      split_ifs at hc'
      obtain ⟨r, -, rfl⟩ := Option.map_eq_some_iff.mp hc'
      exact hjob
  | read i env =>
      simp only [step] at hstep
      split at hstep
      · rename_i c hc
        split at hstep
        · split_ifs at hstep
          split at hstep
          · cases hstep
            exact .inr (.inl ⟨i, c, _, _, _, _, hc, rfl, rfl, .inl ⟨_, _, rfl⟩⟩)
          · cases hstep
            refine .inl ⟨rfl, rfl, hset i _ ?_⟩
            rintro job ⟨⟩
        · cases hstep
      · cases hstep
  | work i env =>
      simp only [step] at hstep
      split at hstep
      · rename_i c hc
        split at hstep
        · rename_i job hjob
          cases hstep
          exact .inr (.inl ⟨i, c, _, _, _, _, hc, rfl, rfl, .inr ⟨_, job, rfl, hjob⟩⟩)
        · cases hstep
      · cases hstep
  | respond i n =>
      refine .inl (hon i _ hstep ?_)
      intro c c' hc' job hjob
      split at hc'
      · cases hc'
        dsimp only at hjob
        split_ifs at hjob
      · cases hc'
  | break_off i =>
      refine .inl (hon i _ hstep ?_)
      intro c c' hc' job hjob
      split_ifs at hc'
      cases hc'
      cases hjob
  | other event =>
      simp only [step] at hstep
      split_ifs at hstep
      cases hstep
      exact .inr (.inr ⟨event, rfl, rfl, rfl⟩)

/-- **The invariant rule.** -/
theorem keeps_run {good : S → Prop} {fit : J → Prop} {sound : B → Prop}
    (hkeeps : service.Keeps (O := O) good fit sound) (hstart : good start)
    (steps : List (ServiceStep E Q O)) (last : ServiceRun S E Q J B O)
    (hrun : exec (step service qs bs) (new start) steps = some last) :
    good last.state ∧ (∀ c ∈ last.conns, ∀ job, c.handler = .working job → fit job) ∧
      ∀ i, ∀ b ∈ service.answers start last.log i, sound b := by
  let inv := fun t : ServiceRun S E Q J B O => Linear service qs bs start t ∧ good t.state ∧
    (∀ c ∈ t.conns, ∀ job, c.handler = .working job → fit job) ∧
    ∀ i, ∀ b ∈ service.answers start t.log i, sound b
  have hinit : inv (new start) :=
    ⟨linear_new service qs bs start, hstart, by rintro c ⟨⟩, by rintro i b ⟨⟩⟩
  refine (exec_invariant _ inv _ last steps hinit ?_ hrun).2
  intro self next a _ ⟨hlinear, hgood, hfit, hsound⟩ hstep
  refine ⟨linear_step self next a hlinear hstep, ?_⟩
  -- by what the step did to the state: nothing, a piece of a request, or an event of
  -- another task
  rcases step_state hstep with ⟨hstate, hlog, hworking⟩ |
    ⟨i, c, c', piece, state, turn, hc, hplay, rfl, hpiece⟩ | ⟨event, hstate, hlog, hconns⟩
  · rw [hstate, hlog]
    refine ⟨hgood, ?_, hsound⟩
    intro c hc job hjob
    obtain ⟨d, hd, hdjob⟩ := hworking c hc job hjob
    exact hfit d hd job hdjob
  · have hmeets : good state ∧ turn.Meets fit sound := by
      rcases hpiece with ⟨env, req, rfl⟩ | ⟨env, job, rfl, hjob⟩
      · cases hplay
        exact hkeeps.first self.state env req hgood
      · cases hplay
        exact hkeeps.more self.state env job hgood (hfit c (List.mem_of_getElem? hc) job hjob)
    have hothers : ∀ d : Conn Q J B, (∀ job, d.handler = .working job → fit job) →
        ∀ e ∈ self.conns.set i d, ∀ job, e.handler = .working job → fit job := by
      intro d hd e he job hjob
      rcases List.mem_or_eq_of_mem_set he with he | rfl
      · exact hfit e he job hjob
      · exact hd job hjob
    have hanswers : ∀ j, ∀ b ∈ service.answers start (self.log ++ [(some i, piece)]) j,
        sound b := by
      intro j b hb
      -- the piece belongs to connection `i`, and the answers of the others are as they
      -- were
      by_cases hij : i = j
      · subst hij
        rw [answers_concat, hlinear.replay, hplay] at hb
        rcases List.mem_append.mp hb with hb | hb
        · exact hsound i b hb
        · cases turn with
          | answer b' =>
              rw [List.mem_singleton.mp hb]
              exact hmeets.2
          | go_on job => cases hb
          | exit => cases hb
      · rw [answers_other service start self.log piece (fun heq => hij (Option.some.inj heq))] at hb
        exact hsound j b hb
    cases turn with
    | answer b => exact ⟨hmeets.1, hothers _ (by rintro job ⟨⟩), hanswers⟩
    | go_on job =>
        refine ⟨hmeets.1, hothers _ ?_, hanswers⟩
        rintro job' ⟨⟩
        exact hmeets.2
    | exit =>
        refine ⟨hmeets.1, ?_, hanswers⟩
        intro e he job hjob
        obtain ⟨d, -, rfl⟩ := List.mem_map.mp he
        cases hjob
  · rw [hstate, hlog, hconns]
    refine ⟨hkeeps.other self.state event hgood, hfit, ?_⟩
    intro j b hb
    rw [answers_other service start self.log _ (by rintro ⟨⟩)] at hb
    exact hsound j b hb

end ServiceRun

end InputSync
