/-
The client as a whole, from the network to its injector: the supervisor, the
connections it has opened, and the session with an inbound loop for each
connection announced to it.

Every step of the supervisor is one of `Supervisor`; here it also acts on the
connections. `connect_once` numbers them in the order it opens them, reads the
`Welcome` itself, and starts the tasks of `PeerLoop` with the announcement. A
command tears down the connection whose future it drops, and so does the end
of `connect_once`.

Neither ends a task, so a torn-down connection is silent only as far as its
tasks have ended by themselves.
-/
import InputSync.Supervisor
import InputSync.PeerLoop

set_option autoImplicit false

namespace InputSync

/-- The connection the future of `connect_once` is about. -/
def SupervisorPc.conn : SupervisorPc → Option Nat
  | .connecting _ (.handshaking conn) => some conn
  | .connecting _ (.announcing handle)
  | .connecting _ (.looping handle)
  | .connecting _ (.clearing handle)
  | .connecting _ (.closing handle) => some handle.outbound
  | _ => none

/-- The supervisor, and all the connections it has opened. -/
structure ClientDaemon where
  supervisor : Supervisor
  links : List Link

/-- A step of the supervisor or of one connection. -/
inductive ClientStep
  | supervisor (a : SupervisorStep)
  | link (conn : Nat) (a : LinkStep)

namespace ClientDaemon

/-- The daemon is up and has not dialed. -/
def new : ClientDaemon := ⟨.new, []⟩

/-- One connection changes. -/
def on_link (links : List Link) (conn : Nat) (f : Link → Option Link) : Option (List Link) :=
  (links[conn]?).bind (fun link => (f link).map (links.set conn))

/-- What a step of the supervisor does to the connections; `none` where it
waits for one of them. -/
def links_after (self : ClientDaemon) (a : SupervisorStep) : Option (List Link) :=
  match a, self.supervisor.pc.conn with
  | .established, _ => some (self.links ++ [.new])
  | .welcomed peer_id, some conn =>
    on_link self.links conn (fun link => link.on_stream 0 (RecvStream.take_welcome peer_id))
  | .announce, some conn => on_link self.links conn Link.spawn
  | .peer_loop_ended, some conn =>
    on_link self.links conn (fun link => if link.loop_ended then some link else none)
  | .command (some _), some conn | .disconnect, some conn =>
    on_link self.links conn (fun link => some link.tear_down)
  | _, _ => some self.links

/-- The session has spawned an inbound loop for the connection. -/
def inbound_started (self : ClientDaemon) (conn : Nat) : Bool :=
  self.supervisor.events.served.inbound_loops.any (fun handle => handle.outbound = conn)

/-- One step of the client. A connection's messages are handled only once the session
has started its loop. -/
def step (self : ClientDaemon) : ClientStep → Option ClientDaemon
  | .supervisor a =>
    (self.supervisor.step a).bind
      (fun supervisor => (self.links_after a).map (fun links => { supervisor, links }))
  | .link conn .handle =>
    if self.inbound_started conn then
      (on_link self.links conn (fun link => link.step .handle)).map
        (fun links => { self with links })
    else none
  | .link conn a =>
    (on_link self.links conn (fun link => link.step a)).map (fun links => { self with links })

/-! ## What a step can do

A step of the client is a step of one of its parts. -/

/-- A change of one connection leaves the others. -/
theorem on_link_eq_some {links next : List Link} {conn : Nat} {f : Link → Option Link}
    (h : on_link links conn f = some next) :
    ∃ link l, links[conn]? = some link ∧ f link = some l ∧ next = links.set conn l := by
  unfold on_link at h
  obtain ⟨link, hlink, h⟩ := Option.bind_eq_some_iff.mp h
  obtain ⟨l, hl, hnext⟩ := Option.map_eq_some_iff.mp h
  exact ⟨link, l, hlink, hl, hnext.symm⟩

/-- A step of the supervisor is one of `Supervisor`, together with what it does to the
connections. -/
theorem step_supervisor {self next : ClientDaemon} {a : SupervisorStep}
    (h : self.step (.supervisor a) = some next) :
    self.supervisor.step a = some next.supervisor ∧ self.links_after a = some next.links := by
  obtain ⟨supervisor, hsup, h⟩ := Option.bind_eq_some_iff.mp h
  obtain ⟨links, hlinks, rfl⟩ := Option.map_eq_some_iff.mp h
  exact ⟨hsup, hlinks⟩

/-- A step of a connection is one of `PeerLoop`. The only thing it may wait for outside
is its inbound loop. -/
theorem step_link {self next : ClientDaemon} {conn : Nat} {a : LinkStep}
    (h : self.step (.link conn a) = some next) :
    ∃ link l, self.links[conn]? = some link ∧ link.step a = some l ∧
      next = { self with links := self.links.set conn l } := by
  cases a with
  | handle =>
      simp only [step] at h
      split_ifs at h
      obtain ⟨links, hlinks, rfl⟩ := Option.map_eq_some_iff.mp h
      obtain ⟨link, l, hlink, hl, rfl⟩ := on_link_eq_some hlinks
      exact ⟨link, l, hlink, hl, rfl⟩
  | open_stream | arrive _ _ | accept _ | read _ | send_inbound _ | read_failed _ | accept_failed
  | write_ended =>
      obtain ⟨links, hlinks, rfl⟩ := Option.map_eq_some_iff.mp h
      obtain ⟨link, l, hlink, hl, rfl⟩ := on_link_eq_some hlinks
      exact ⟨link, l, hlink, hl, rfl⟩

/-- The future goes on about the connection it is about, is dropped, or opens
the next one. -/
theorem supervisor_conn {self next : Supervisor} {a : SupervisorStep}
    (h : self.step a = some next) :
    (a = .established ∧ next.pc.conn = some self.next_conn ∧
      next.next_conn = self.next_conn + 1) ∨
    (a ≠ .established ∧ next.next_conn = self.next_conn ∧
      (next.pc.conn = none ∨
        next.pc.conn = self.pc.conn ∧ a ≠ .disconnect ∧ ∀ cmd, a ≠ .command cmd)) := by
  -- a connection is made by `established` alone and dropped with the future; all other
  -- steps leave it
  cases a with
  | command cmd =>
      obtain ⟨rfl, -⟩ := Supervisor.step_command h
      right
      refine ⟨by simp, rfl, .inl ?_⟩
      match cmd with
      | none | some .HangUp | some (.Dial cfg) => rfl
  | announce =>
      obtain ⟨cfg, handle, events, hpc, -, rfl⟩ := Supervisor.step_announce h
      exact .inr ⟨by simp, rfl, .inr ⟨by rw [hpc]; rfl, by simp, by simp⟩⟩
  | disconnect =>
      obtain ⟨cfg, handle, events, -, -, rfl⟩ := Supervisor.step_disconnect h
      exact .inr ⟨by simp, rfl, .inl rfl⟩
  | relay a =>
      obtain ⟨events, -, rfl⟩ := Supervisor.step_relay h
      exact .inr ⟨by simp, rfl, .inr ⟨rfl, by simp, by simp⟩⟩
  | established =>
      simp only [Supervisor.step] at h
      split at h
      · obtain rfl := Option.some.inj h
        exact .inl ⟨rfl, rfl, rfl⟩
      · cases h
  | start | welcomed _ | peer_loop_ended | cleared =>
      simp only [Supervisor.step] at h
      split at h
      · rename_i hpc
        obtain rfl := Option.some.inj h
        exact .inr ⟨by simp, rfl, .inr ⟨by rw [hpc]; rfl, by simp, by simp⟩⟩
      · cases h
  | failed =>
      simp only [Supervisor.step] at h
      split at h
      · obtain rfl := Option.some.inj h
        exact .inr ⟨by simp, rfl, .inl rfl⟩
      · obtain rfl := Option.some.inj h
        exact .inr ⟨by simp, rfl, .inl rfl⟩
      · cases h

/-! ## Silence

The invariant of `PeerLoop`, for all connections there have been. The number of
connections keeps the supervisor and the list in step. -/

/-- No message that arrived on a connection after it was torn down has reached
the injector, the clipboard or a file. -/
def NoFurtherEffect (self : ClientDaemon) : Prop :=
  ∀ link ∈ self.links, ∀ mail ∈ link.handled, mail.late = true → mail.content.touches = false

/-- A message that arrives on a torn-down connection, and has an effect,
arrives where no task reads. -/
def ArrivesUnread (self : ClientDaemon) : ClientStep → Prop
  | .link conn a => ∀ link, self.links[conn]? = some link → link.ArrivesUnread a
  | .supervisor _ => True

/-- Every connection is silent, and the one the supervisor is about is up. -/
structure Silent (daemon : ClientDaemon) : Prop where
  links : ∀ link ∈ daemon.links, link.Silent
  count : daemon.supervisor.next_conn = daemon.links.length
  current : ∀ conn, daemon.supervisor.pc.conn = some conn → ∀ link,
    daemon.links[conn]? = some link → link.torn_down = false

/-- At the start there are no connections. -/
theorem silent_new : new.Silent where
  links := by
    intro link hlink
    cases hlink
  count := rfl
  current := by
    intro conn hconn
    cases hconn

/-- Replacing one connection by a silent one keeps all silent. -/
theorem mem_set_silent {links : List Link} (h : ∀ link ∈ links, link.Silent) (conn : Nat)
    (l : Link) (hl : l.Silent) : ∀ link ∈ links.set conn l, link.Silent := by
  intro link hlink
  rcases List.mem_or_eq_of_mem_set hlink with hold | rfl
  · exact h link hold
  · exact hl

/-- A change of the current connection that keeps it silent and up. -/
theorem on_link_silent {self : ClientDaemon} (hs : self.Silent) {conn : Nat}
    (hconn : self.supervisor.pc.conn = some conn) {f : Link → Option Link} {links : List Link}
    (h : on_link self.links conn f = some links)
    (hf : ∀ link l, link.Silent → link.torn_down = false → f link = some l →
      l.Silent ∧ l.torn_down = false) :
    (∀ link ∈ links, link.Silent) ∧ links.length = self.links.length ∧
      ∀ link, links[conn]? = some link → link.torn_down = false := by
  obtain ⟨link, l, hlink, hl, rfl⟩ := on_link_eq_some h
  obtain ⟨hsilent, hup⟩ := hf link l (hs.links link (List.mem_of_getElem? hlink))
    (hs.current conn hconn link hlink) hl
  refine ⟨mem_set_silent hs.links conn l hsilent, List.length_set, ?_⟩
  intro link' hlink'
  rw [List.getElem?_set] at hlink'
  rw [if_pos rfl] at hlink'
  split_ifs at hlink'
  obtain rfl := Option.some.inj hlink'
  exact hup

/-- Tearing down keeps every connection silent. -/
theorem tear_down_links {self : ClientDaemon} (hs : self.Silent) {conn : Nat} {links : List Link}
    (h : on_link self.links conn (fun link => some link.tear_down) = some links) :
    (∀ link ∈ links, link.Silent) ∧ links.length = self.links.length := by
  obtain ⟨link, l, hlink, hl, rfl⟩ := on_link_eq_some h
  obtain rfl := Option.some.inj hl
  exact ⟨mem_set_silent hs.links conn _
    (Link.tear_down_silent (hs.links link (List.mem_of_getElem? hlink))), List.length_set⟩

/-- **What the supervisor does to the connections.** Apart from opening one, it
keeps them silent; and unless it drops the current one, that stays up. -/
theorem links_after_silent {self : ClientDaemon} {a : SupervisorStep} {links : List Link}
    (hs : self.Silent) (ha : a ≠ .established) (h : self.links_after a = some links) :
    (∀ link ∈ links, link.Silent) ∧ links.length = self.links.length ∧
      (a ≠ .disconnect → (∀ cmd, a ≠ .command cmd) → ∀ conn,
        self.supervisor.pc.conn = some conn → ∀ link, links[conn]? = some link →
          link.torn_down = false) := by
  cases hconn : self.supervisor.pc.conn with
  | none =>
      -- no step but opening one touches a connection then
      have hlinks : links = self.links := by
        unfold links_after at h
        rw [hconn] at h
        match a with
        | .established => exact absurd rfl ha
        | .command none | .command (some _) | .start | .welcomed _ | .failed | .announce
        | .peer_loop_ended | .cleared | .disconnect | .relay _ => exact (Option.some.inj h).symm
      subst hlinks
      exact ⟨hs.links, rfl, by rintro - - _ ⟨⟩⟩
  | some conn =>
      -- what is to be shown is about the current connection only
      have hcurrent : ∀ links : List Link,
          (∀ link, links[conn]? = some link → link.torn_down = false) →
          ∀ c, some conn = some c → ∀ link, links[c]? = some link → link.torn_down = false := by
        rintro links hup c ⟨⟩
        exact hup
      unfold links_after at h
      rw [hconn] at h
      match a with
      | .established => exact absurd rfl ha
      | .command none | .start | .failed | .cleared | .relay _ =>
          obtain rfl := Option.some.inj h
          exact ⟨hs.links, rfl, fun _ _ => hcurrent _ (hs.current conn hconn)⟩
      | .command (some cmd) =>
          obtain ⟨hlinks, hlen⟩ := tear_down_links hs h
          exact ⟨hlinks, hlen, fun _ hcmd => absurd rfl (hcmd (some cmd))⟩
      | .disconnect =>
          obtain ⟨hlinks, hlen⟩ := tear_down_links hs h
          exact ⟨hlinks, hlen, fun hdis => absurd rfl hdis⟩
      | .welcomed peer_id =>
          obtain ⟨hlinks, hlen, hup⟩ := on_link_silent hs hconn h (by
            intro link l hsilent hup hl
            obtain ⟨hsilent', heq⟩ := Link.take_welcome_silent hsilent hl
            exact ⟨hsilent', heq.trans hup⟩)
          exact ⟨hlinks, hlen, fun _ _ => hcurrent _ hup⟩
      | .announce =>
          obtain ⟨hlinks, hlen, hup⟩ := on_link_silent hs hconn h
            (fun link l hsilent hup hl => Link.spawn_silent hsilent hup hl)
          exact ⟨hlinks, hlen, fun _ _ => hcurrent _ hup⟩
      | .peer_loop_ended =>
          obtain ⟨hlinks, hlen, hup⟩ := on_link_silent hs hconn h (by
            intro link l hsilent hup hl
            split_ifs at hl
            obtain rfl := Option.some.inj hl
            exact ⟨hsilent, hup⟩)
          exact ⟨hlinks, hlen, fun _ _ => hcurrent _ hup⟩

/-- Every step of the supervisor keeps the connections silent. The one that matters is a
command: it tears down the current connection, and nothing has arrived late on a
connection that is up. -/
theorem step_supervisor_silent {self next : ClientDaemon} {a : SupervisorStep} (hs : self.Silent)
    (h : self.step (.supervisor a) = some next) : next.Silent := by
  obtain ⟨hsup, hlinks⟩ := step_supervisor h
  rcases supervisor_conn hsup with ⟨rfl, hconn, hnext⟩ | ⟨ha, hnext, hconn⟩
  · have happend : next.links = self.links ++ [.new] := by
      unfold links_after at hlinks
      exact (Option.some.inj hlinks).symm
    refine ⟨?_, ?_, ?_⟩
    · intro link hlink
      rw [happend] at hlink
      rcases List.mem_append.mp hlink with hold | hnew
      · exact hs.links link hold
      · rw [List.mem_singleton.mp hnew]
        exact Link.silent_new
    · rw [hnext, happend, hs.count, List.length_append, List.length_singleton]
    · -- the new connection is the last one
      intro conn hc link hlink
      rw [hconn, hs.count] at hc
      obtain rfl := Option.some.inj hc
      rw [happend, List.getElem?_append_right (Nat.le_refl _), Nat.sub_self] at hlink
      obtain rfl := Option.some.inj hlink
      rfl
  · obtain ⟨hsilent, hlen, hup⟩ := links_after_silent hs ha hlinks
    refine ⟨hsilent, by rw [hnext, hlen, hs.count], ?_⟩
    intro conn hc
    -- either nothing is current afterwards, or what was and has not been dropped
    rcases hconn with hnone | ⟨hsame, hdis, hcmd⟩
    · rw [hnone] at hc
      cases hc
    · exact hup hdis hcmd conn (hsame ▸ hc)

/-- **What the guarded steps keep.** -/
theorem step_silent (self next : ClientDaemon) (a : ClientStep) (hs : self.Silent)
    (hg : self.ArrivesUnread a) (h : self.step a = some next) : next.Silent := by
  cases a with
  | supervisor a => exact step_supervisor_silent hs h
  | link conn a =>
      obtain ⟨link, l, hlink, hl, rfl⟩ := step_link h
      -- the step stays on its own connection
      obtain ⟨hsilent, hdown⟩ := link.step_silent l a (hs.links link (List.mem_of_getElem? hlink))
        (hg link hlink) hl
      refine ⟨mem_set_silent hs.links conn l hsilent, ?_, ?_⟩
      · rw [List.length_set]
        exact hs.count
      · intro c hc link' hlink'
        rw [List.getElem?_set] at hlink'
        split_ifs at hlink' with heq hlt
        · obtain rfl := Option.some.inj hlink'
          subst heq
          rw [hdown]
          exact hs.current conn hc link hlink
        · exact hs.current c hc link' hlink'

/-- **A torn-down connection has no further effect.** In a run in which
whatever arrives on a torn-down connection, and has an effect, arrives at a
stream that no task reads, no state shows such an effect. -/
theorem torn_down_silent (steps : List ClientStep)
    (hunread : ∀ pre a suf t, steps = pre ++ a :: suf → exec step new pre = some t →
      t.ArrivesUnread a) :
    ∀ pre suf t, steps = pre ++ suf → exec step new pre = some t → t.NoFurtherEffect := by
  intro pre suf t hsplit ht link hlink
  have hsilent := along_invariant step ArrivesUnread Silent
    (fun m n a hs hg hstep => m.step_silent n a hs hg hstep) new steps silent_new
    ((along_iff step ArrivesUnread new steps).mpr hunread) pre suf t hsplit ht
  exact (hsilent.links link hlink).handled

/-- The converse of `step_link`: once its inbound loop is started a connection can do in
the whole client what it can do alone. -/
theorem step_link_eq {self : ClientDaemon} {conn : Nat} {link l : Link} {a : LinkStep}
    (hlink : self.links[conn]? = some link) (hl : link.step a = some l)
    (hstarted : self.inbound_started conn = true) :
    self.step (.link conn a) = some { self with links := self.links.set conn l } := by
  have hon : on_link self.links conn (fun link => link.step a) = some (self.links.set conn l) := by
    simp only [on_link, hlink, Option.bind_some, hl, Option.map_some]
  cases a with
  | handle => simp only [step, hstarted, if_true, hon, Option.map_some]
  | open_stream | arrive _ _ | accept _ | read _ | send_inbound _ | read_failed _ | accept_failed
  | write_ended => simp only [step, hon, Option.map_some]

/-- What one connection can do alone, the client can do. -/
theorem exec_link (conn : Nat) (steps : List LinkStep) (self : ClientDaemon) (link l : Link)
    (hlink : self.links[conn]? = some link) (hrun : exec Link.step link steps = some l)
    (hstarted : self.inbound_started conn = true) :
    exec step self (steps.map (.link conn)) = some { self with links := self.links.set conn l } := by
  induction steps generalizing self link with
  | nil =>
      obtain rfl := Option.some.inj hrun
      obtain ⟨hconn, rfl⟩ := List.getElem?_eq_some_iff.mp hlink
      rw [List.map_nil, exec_nil, List.set_getElem_self]
  | cons a steps ih =>
      obtain ⟨m, hm, hrest⟩ := Option.bind_eq_some_iff.mp hrun
      have hconn : conn < self.links.length := (List.getElem?_eq_some_iff.mp hlink).1
      rw [List.map_cons, exec_cons, step_link_eq hlink hm hstarted, Option.bind_some,
        ih { self with links := self.links.set conn m } m (List.getElem?_set_self hconn) hrest
          hstarted, List.set_set]

/-- **The guard is sharp.** A message with an effect that arrives on a torn-down
connection where a task is reading, with nothing before it on its way, can go
through to its effect. -/
theorem late_arrival_handled (self : ClientDaemon) (conn i : Nat) (link : Link)
    (hlink : self.links[conn]? = some link) (hdown : link.torn_down = true)
    (hstarted : self.inbound_started conn = true) (hstream : link.streams[i]? = some ⟨[], .reading⟩)
    (hempty : link.inbound = []) (m : Message) (hm : m.touches = true) :
    ∃ last, exec step self ([.arrive i (.msg m), .read i, .send_inbound i, .handle].map
        (.link conn)) = some last ∧ ¬ last.NoFurtherEffect := by
  obtain ⟨hi, hget⟩ := List.getElem?_eq_some_iff.mp hstream
  have hconn : conn < self.links.length := (List.getElem?_eq_some_iff.mp hlink).1
  have hrun : exec Link.step link [.arrive i (.msg m), .read i, .send_inbound i, .handle]
      = some { link with
        streams := link.streams.set i ⟨[], .reading⟩
        inbound := []
        handled := link.handled ++ [⟨m, true⟩] } := by
    simp [Link.step, Link.on_stream, RecvStream.read, hget, hdown, hempty, hi]
  refine ⟨_, exec_link conn _ self link _ hlink hrun hstarted, ?_⟩
  intro h
  have hfalse := h _ (List.mem_of_getElem? (List.getElem?_set_self hconn)) ⟨m, true⟩
    (List.mem_append_right _ (List.mem_singleton_self _)) rfl
  rw [hm] at hfalse
  cases hfalse

/-- A server is dialed and announced, and the session has started its inbound
loop. -/
def connect : List ClientStep :=
  [.supervisor (.command (some (.Dial ⟨"10.0.0.2:4242", []⟩))), .supervisor .start,
    .supervisor .established,
    .link 0 (.arrive 0 (.msg (.Welcome
      ⟨⟨Vector.replicate 16 7⟩, "desk", ⟨true, true, true, true, true, true⟩, ⟨1⟩⟩))),
    .supervisor (.welcomed ⟨Vector.replicate 16 7⟩), .supervisor .announce,
    .supervisor (.relay .take), .supervisor (.relay .forward), .supervisor (.relay .handle)]

/-- The server sends a key. -/
def key_arrives : ClientStep :=
  .link 0 (.arrive 0 (.msg (.KeyEvent ⟨.A, .Pressed, .empty, none⟩)))

/-- A key that comes once the reading task has ended, and the connection with
it. -/
theorem torn_down_silent_ended :
    let steps := connect ++ [.link 0 (.read_failed 0), .supervisor .peer_loop_ended,
      .supervisor .cleared, .supervisor .disconnect, key_arrives]
    ∀ pre suf t, steps = pre ++ suf → exec step new pre = some t → t.NoFurtherEffect := by
  intro steps
  apply torn_down_silent steps
  apply (along_iff step ArrivesUnread new steps).mp
  refine ⟨trivial, ?_⟩
  rintro _ ⟨⟩
  refine ⟨trivial, ?_⟩
  rintro _ ⟨⟩
  refine ⟨trivial, ?_⟩
  rintro _ ⟨⟩
  constructor
  · -- the `Welcome` of a connection that is up
    rintro _ ⟨⟩ hdown
    cases hdown
  rintro _ ⟨⟩
  refine ⟨trivial, ?_⟩
  rintro _ ⟨⟩
  refine ⟨trivial, ?_⟩
  rintro _ ⟨⟩
  refine ⟨trivial, ?_⟩
  rintro _ ⟨⟩
  refine ⟨trivial, ?_⟩
  rintro _ ⟨⟩
  refine ⟨trivial, ?_⟩
  rintro _ ⟨⟩
  refine ⟨fun _ _ => trivial, ?_⟩
  rintro _ ⟨⟩
  refine ⟨trivial, ?_⟩
  rintro _ ⟨⟩
  refine ⟨trivial, ?_⟩
  rintro _ ⟨⟩
  refine ⟨trivial, ?_⟩
  rintro _ ⟨⟩
  constructor
  · rintro _ ⟨⟩ _ _ _ ⟨⟩ hreads
    exact hreads
  · rintro _ ⟨⟩
    trivial

/-- **Hung up, and still typing.** The connection is hung up, and a key that
arrives on it afterwards is injected: its reading task, its inbound loop and
the connection itself have survived. -/
theorem key_after_hang_up :
    ∃ last, exec step new (connect ++ [.supervisor (.command (some .HangUp)), key_arrives,
        .link 0 (.read 0), .link 0 (.send_inbound 0), .link 0 .handle]) = some last ∧
      ¬ last.NoFurtherEffect := by
  refine ⟨_, rfl, ?_⟩
  intro h
  have hfalse := h _ List.mem_cons_self _ List.mem_cons_self rfl
  cases hfalse

end ClientDaemon

end InputSync
