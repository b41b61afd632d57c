/-
Clipboard sync between any number of machines (`clipboard_mgr.rs`, with the
peer lists of `session.rs`): a server and its clients, or any other way of
connecting them, with connections that come and go and lose what is in flight.

The tasks of a manager are taken apart. The poll loop reads the text, then the
image, then looks the hash up, then tells one peer after the other, and anything
may happen in between; an inbound loop notes a payload in one step and writes it
in another. What an inbound loop answers it answers in one step: the request for
each format announced, and the data of a request, read and sent at once, though
the source awaits between the read and the send and between two requests. What
`Clipboard` shows for two machines that take turns stays true (`Quiet`): a
machine announces what its own user copied and nothing twice. And so the messages of all machines
together are bounded by the announcements: three for every peer that is told
(`clipboards_fall_silent`).
-/
import InputSync.BoundedQueues
import InputSync.Clipboard

set_option autoImplicit false

namespace InputSync

universe u v

/-! ## A manager at its awaits

The poll and the inbound handler of `Clipboard`, each in two parts. The two lemmas say
that the parts make up the whole when nothing comes between. -/

namespace ClipboardManager

variable (libs : ClipboardLibs)

/-- The poll loop with what it read: it asks the registry, and says what to
broadcast. -/
def look_up (self : ClipboardManager) (format : ClipboardFormat) (b : List UInt8) :
    ClipboardManager × Option (List ClipboardFormat × Hash) :=
  let hash := hash_content libs b
  if self.last_hash = some hash then (self, none)
  else if self.originators.originator hash = some self.local_peer_id then (self, none)
  else if (self.originators.originator hash).isSome then
    ({ self with last_hash := some hash }, none)
  else
    ({ self with
        last_hash := some hash
        originators := self.originators.record hash self.local_peer_id },
      some ([format], hash))

/-- `handle_inbound` up to the write to the OS clipboard: the payload still to
be written. -/
def receive (self : ClipboardManager) (peer : PeerId) (msg : Message) :
    ClipboardManager × List Message × Option ClipboardPayload :=
  match msg with
  | .ClipboardData payload =>
    ({ self with
        originators := self.originators.record payload.hash payload.originator
        last_hash := some payload.hash },
      [], some payload)
  | msg => ((self.handle_inbound libs peer msg).1, (self.handle_inbound libs peer msg).2, none)

/-- The other half: the payload goes to the OS clipboard. -/
def write (self : ClipboardManager) (payload : ClipboardPayload) : ClipboardManager :=
  { self with backend := self.backend.write libs payload }

/-- Nothing in between, and it is a poll. -/
theorem poll_eq_look_up (self : ClipboardManager) :
    self.poll libs = match self.backend.detect with
      | none => (self, none)
      | some (format, b) => self.look_up libs format b := rfl

/-- Nothing in between, and it is `handle_inbound`. -/
theorem handle_inbound_eq_receive (self : ClipboardManager) (peer : PeerId) (msg : Message) :
    self.handle_inbound libs peer msg =
      ((self.receive libs peer msg).2.2.elim (self.receive libs peer msg).1
        (write libs (self.receive libs peer msg).1), (self.receive libs peer msg).2.1) := by
  cases msg <;> rfl

end ClipboardManager

/-! ## What a manager knows

The registry only grows, and what is on the clipboard is in it or comes from the user.
`receive` notes a payload before `write` puts it on the clipboard, which is the order
the whole argument needs. -/

/-- What can be read from a clipboard after a write is what was written, or the write
changed nothing. A payload may be refused by the system or by the decoder of images, and
a format that was not written is gone. -/
theorem Clip.write_read (self : Clip) (libs : ClipboardLibs) (payload : ClipboardPayload) :
    self.write libs payload = self ∨
      ∀ format b, (self.write libs payload).read format = some b → b ≠ [] → b = payload.bytes := by
  cases hfmt : payload.format with
  | PlainText =>
      cases htext : String.fromUTF8? ⟨payload.bytes.toArray⟩ with
      | none => left; simp [write, hfmt, htext]
      | some text =>
          right
          intro format b h hb
          -- what is decoded and encoded again is what was there
          have hbytes : text.toUTF8.data.toList = payload.bytes := by
            simp only [String.fromUTF8?] at htext
            split at htext
            · rw [← Option.some.inj htext]; rfl
            · cases htext
          simp only [write, hfmt, htext] at h
          cases format with
          | PlainText => exact (Option.some.inj h).symm.trans hbytes
          | Png => cases h
          | Html | Rtf | UriList => exact absurd (Option.some.inj h).symm hb
  | Png =>
      by_cases hok : libs.decodes_png payload.bytes
      · right
        intro format b h hb
        simp only [write, hfmt, if_pos hok] at h
        cases format with
        | PlainText => cases h
        | Png => exact (Option.some.inj h).symm
        | Html | Rtf | UriList => exact absurd (Option.some.inj h).symm hb
      · left
        simp [write, hfmt, hok]
  | Html | Rtf | UriList => left; simp [write, hfmt]

namespace ClipboardManager

variable (libs : ClipboardLibs)

/-- Whatever is read from the clipboard has been seen. -/
def AllKnown (self : ClipboardManager) : Prop :=
  ∀ format b, self.backend.read format = some b → b ≠ [] → self.Known (hash_content libs b)

/-- **What looking up can do.** Either what was found was seen, and nothing is
broadcast, or it was not, and it has been seen since. -/
theorem look_up_cases (self : ClipboardManager) (format : ClipboardFormat) (b : List UInt8)
    (hlast : self.LastKnown) :
    (self.look_up libs format b).1.LastKnown ∧
    (self.look_up libs format b).1.backend = self.backend ∧
    (((self.look_up libs format b).2 = none ∧
        ∀ g, (self.look_up libs format b).1.Known g ↔ self.Known g) ∨
      (¬ self.Known (hash_content libs b) ∧
        (self.look_up libs format b).2 = some ([format], hash_content libs b) ∧
        ∀ g, (self.look_up libs format b).1.Known g ↔ g = hash_content libs b ∨ self.Known g)) := by
  unfold look_up
  dsimp only
  split_ifs with hlh hown hseen
  · exact ⟨hlast, rfl, .inl ⟨rfl, fun g => Iff.rfl⟩⟩
  · exact ⟨hlast, rfl, .inl ⟨rfl, fun g => Iff.rfl⟩⟩
  · refine ⟨?_, rfl, .inl ⟨rfl, fun g => Iff.rfl⟩⟩
    intro g hg
    rw [← Option.some.inj hg]
    exact hseen
  · refine ⟨?_, rfl, .inr ⟨hseen, rfl, fun g => originator_record_isSome ..⟩⟩
    intro g hg
    rw [← Option.some.inj hg]
    exact (originator_record_isSome ..).mpr (.inl rfl)

/-- **What a message can do** before anything is written: a payload to be
written is the one that came, and is noted. -/
theorem receive_cases (self : ClipboardManager) (peer : PeerId) (msg : Message)
    (hlast : self.LastKnown) :
    (self.receive libs peer msg).1.LastKnown ∧
    (self.receive libs peer msg).1.backend = self.backend ∧
    (∀ g, self.Known g → (self.receive libs peer msg).1.Known g) ∧
    (∀ reply ∈ (self.receive libs peer msg).2.1, Honest libs reply) ∧
    (∀ payload, (self.receive libs peer msg).2.2 = some payload →
      msg = .ClipboardData payload ∧ (self.receive libs peer msg).1.Known payload.hash) := by
  cases msg with
  | ClipboardData payload =>
      refine ⟨?_, rfl, ?_, by rintro _ ⟨⟩, ?_⟩
      · intro g hg
        rw [← Option.some.inj hg]
        exact (originator_record_isSome ..).mpr (.inl rfl)
      · intro g hg
        exact (originator_record_isSome ..).mpr (.inr hg)
      · rintro _ ⟨⟩
        exact ⟨rfl, (originator_record_isSome ..).mpr (.inl rfl)⟩
  | _ =>
      exact ⟨self.handle_inbound_lastKnown libs peer _ hlast, rfl,
        fun g hg => self.handle_inbound_known libs peer _ g hg,
        self.handle_inbound_honest libs peer _, by rintro _ ⟨⟩⟩

/-- A payload that was noted may be written. -/
theorem write_allKnown (self : ClipboardManager) (payload : ClipboardPayload)
    (hhash : payload.hash = hash_content libs payload.bytes) (hknown : self.Known payload.hash) :
    (self.write libs payload).backend = self.backend ∨ (self.write libs payload).AllKnown libs := by
  rcases self.backend.write_read libs payload with hsame | hnew
  · exact .inl hsame
  · right
    intro format b hread hb
    rw [hnew format b hread hb, ← hhash]
    exact hknown

end ClipboardManager

/-! ## A machine

A manager together with its poll loop and one inbound loop for each connection. All of
them share the manager behind its locks. -/

/-- The machines `ι` and the ends `κ` of the connections between them: whose
each is, where what is sent from it arrives, and the peer id its handle has
from the handshake. -/
structure Wiring (ι : Type u) (κ : Type v) where
  owner : κ → ι
  far : κ → κ
  peer_id : κ → PeerId

/-- Where the poll loop is: it waits for the next tick, found no text, read
something, or has peers left to tell. -/
inductive PollTask (κ : Type v)
  | waiting
  | no_text
  | found (format : ClipboardFormat) (b : List UInt8)
  | telling (msg : Message) (peers : List κ)

/-- A manager with its tasks: the poll loop with the list of peers it reads, and
for each connection the payload its inbound loop is about to write. -/
structure ClipMachine (κ : Type v) where
  mgr : ClipboardManager
  peers : List κ
  polling : PollTask κ
  writing : κ → Option ClipboardPayload

/-- What happens on one machine, but for messages that arrive. -/
inductive ClipAction (κ : Type v)
  | copy (content : Clip)
  | connected (peer : κ)
  | disconnected (peer_id : PeerId)
  -- the poll loop
  | read_text
  | read_image
  | look_up
  | tell
  -- the inbound loop of a peer
  | write (peer : κ)

/-- What can be seen of a machine: what it announces, and to whom, and what it
sends. -/
inductive ClipOut (κ : Type v)
  | announced (format : ClipboardFormat) (b : List UInt8) (peers : List κ)
  | sent (peer : κ) (msg : Message)

namespace ClipMachine

variable {ι : Type u} {κ : Type v} [DecidableEq κ] (libs : ClipboardLibs) (net : Wiring ι κ)

def new (local_peer_id : PeerId) : ClipMachine κ :=
  { mgr := .new local_peer_id, peers := [], polling := .waiting, writing := fun _ => none }

/-- One step of the machine's own tasks or of its user, with what can be seen of it. -/
def act (self : ClipMachine κ) : ClipAction κ → ClipMachine κ × List (ClipOut κ)
  | .copy content => ({ self with mgr := { self.mgr with backend := content } }, [])
  | .connected peer => ({ self with peers := self.peers ++ [peer] }, [])
  | .disconnected peer_id =>
    ({ self with peers := self.peers.filter (fun p => net.peer_id p ≠ peer_id) }, [])
  | .read_text =>
    match self.polling with
    | .waiting =>
      match self.mgr.backend.read .PlainText with
      | some (b :: bs) => ({ self with polling := .found .PlainText (b :: bs) }, [])
      | _ => ({ self with polling := .no_text }, [])
    | _ => (self, [])
  | .read_image =>
    match self.polling with
    | .no_text =>
      match self.mgr.backend.read .Png with
      | some (b :: bs) => ({ self with polling := .found .Png (b :: bs) }, [])
      | _ => ({ self with polling := .waiting }, [])
    | _ => (self, [])
  | .look_up =>
    match self.polling with
    | .found format b =>
      let r := self.mgr.look_up libs format b
      match r.2 with
      | none => ({ self with mgr := r.1, polling := .waiting }, [])
      | some (formats, hash) =>
        ({ self with mgr := r.1, polling := .telling (.ClipboardFormats formats hash) self.peers },
          [.announced format b self.peers])
    | _ => (self, [])
  | .tell =>
    match self.polling with
    | .telling msg (peer :: rest) => ({ self with polling := .telling msg rest }, [.sent peer msg])
    | .telling _ [] => ({ self with polling := .waiting }, [])
    | _ => (self, [])
  | .write peer =>
    match self.writing peer with
    | some payload =>
      ({ self with
          mgr := self.mgr.write libs payload
          writing := Function.update self.writing peer none }, [])
    | none => (self, [])

/-- The inbound loop of `peer` gets a message. -/
def receive (self : ClipMachine κ) (peer : κ) (msg : Message) :
    ClipMachine κ × List (ClipOut κ) :=
  let r := self.mgr.receive libs (net.peer_id peer) msg
  ({ self with mgr := r.1, writing := Function.update self.writing peer r.2.2 },
    r.2.1.map (.sent peer))

end ClipMachine

/-! ## A machine in order

The invariant of one machine, whatever its peers send it, as long as they are honest: a
payload they send carries the hash of its bytes. -/

open ClipboardManager (Honest)

/-- The content was read from a clipboard the user of the machine copied. -/
def OwnContent (copied : Clip → Prop) (format : ClipboardFormat) (b : List UInt8) : Prop :=
  b ≠ [] ∧ ∃ clip, copied clip ∧ clip.read format = some b

namespace ClipMachine

variable {ι : Type u} {κ : Type v} [DecidableEq κ] (libs : ClipboardLibs) (net : Wiring ι κ)
  (copied : Clip → Prop)

/-- What holds of a machine at any time: what is on its clipboard, or has been
read from it, was copied by its user or has been seen. -/
structure InOrder (m : ClipMachine κ) : Prop where
  last : m.mgr.LastKnown
  clip : copied m.mgr.backend ∨ m.mgr.AllKnown libs
  found : ∀ format b, m.polling = .found format b →
    OwnContent copied format b ∨ m.mgr.Known (hash_content libs b)
  telling : ∀ msg peers, m.polling = .telling msg peers → Honest libs msg
  writing : ∀ peer payload, m.writing peer = some payload →
    payload.hash = hash_content libs payload.bytes ∧ m.mgr.Known payload.hash

/-- What is announced is the user's, and was new; what is sent is honest. -/
def Fits (before after : ClipboardManager) : ClipOut κ → Prop
  | .announced format b _ => OwnContent copied format b ∧
      ¬ before.Known (hash_content libs b) ∧ after.Known (hash_content libs b)
  | .sent _ msg => Honest libs msg

variable {libs net copied} {m next : ClipMachine κ}

omit [DecidableEq κ] in
/-- A machine that has just started: nothing announced, nothing read, and an empty
clipboard. -/
theorem inOrder_new (local_peer_id : PeerId) :
    (new local_peer_id : ClipMachine κ).InOrder libs copied where
  last := by rintro hash ⟨⟩
  clip := by
    right
    intro format b hread hb
    cases format with
    | PlainText | Png => cases hread
    | Html | Rtf | UriList => exact absurd (Option.some.inj hread).symm hb
  found := by rintro format b ⟨⟩
  telling := by rintro msg peers ⟨⟩
  writing := by rintro peer payload ⟨⟩

omit [DecidableEq κ] in
/-- The poll loop goes on, and the manager stays as it is. -/
theorem InOrder.poll_on (h : m.InOrder libs copied) (polling : PollTask κ)
    (hfound : ∀ format b, polling = .found format b →
      OwnContent copied format b ∨ m.mgr.Known (hash_content libs b))
    (htelling : ∀ msg peers, polling = .telling msg peers → Honest libs msg) :
    ({ m with polling } : ClipMachine κ).InOrder libs copied :=
  ⟨h.last, h.clip, hfound, htelling, h.writing⟩

omit [DecidableEq κ] in
/-- What is read is the user's, or known. -/
theorem InOrder.read (h : m.InOrder libs copied) (format : ClipboardFormat) (b : UInt8)
    (bs : List UInt8) (hread : m.mgr.backend.read format = some (b :: bs)) :
    ({ m with polling := .found format (b :: bs) } : ClipMachine κ).InOrder libs copied := by
  refine h.poll_on _ ?_ (by rintro msg peers ⟨⟩)
  rintro _ _ ⟨⟩
  rcases h.clip with hcopied | hknown
  · exact .inl ⟨List.cons_ne_nil b bs, _, hcopied, hread⟩
  · exact .inr (hknown format _ hread (List.cons_ne_nil b bs))

omit [DecidableEq κ] in
/-- A manager that knows more, over the same clipboard. -/
theorem InOrder.learn (h : m.InOrder libs copied) (mgr : ClipboardManager)
    (hlast : mgr.LastKnown) (hbackend : mgr.backend = m.mgr.backend)
    (hknown : ∀ g, m.mgr.Known g → mgr.Known g) :
    ({ m with mgr } : ClipMachine κ).InOrder libs copied where
  last := hlast
  clip := by
    rcases h.clip with hcopied | hall
    · exact .inl (hbackend.symm ▸ hcopied)
    · right
      intro format b hread hb
      dsimp only at hread
      rw [hbackend] at hread
      exact hknown _ (hall format b hread hb)
  found := fun format b hf => (h.found format b hf).imp_right (hknown _)
  telling := h.telling
  writing := fun peer payload hw => (h.writing peer payload hw).imp_right (hknown _)

/-- What a step of a machine leaves behind. -/
structure Advances (libs : ClipboardLibs) (copied : Clip → Prop) (before : ClipMachine κ)
    (r : ClipMachine κ × List (ClipOut κ)) : Prop where
  order : r.1.InOrder libs copied
  known : ∀ g, before.mgr.Known g → r.1.mgr.Known g
  outs : ∀ o ∈ r.2, Fits libs copied before.mgr r.1.mgr o

omit [DecidableEq κ] in
/-- A step that leaves the machine in order, forgets nothing and says nothing is an
advance. -/
theorem InOrder.silent (h : next.InOrder libs copied)
    (hknown : ∀ g, m.mgr.Known g → next.mgr.Known g) : Advances libs copied m (next, []) :=
  ⟨h, hknown, by rintro o ⟨⟩⟩

omit [DecidableEq κ] in
/-- The step that may announce. What was found is the user's own or known; what is known
is not announced, so what is announced is the user's own and was new. -/
theorem InOrder.look_up (h : m.InOrder libs copied) (format : ClipboardFormat) (b : List UInt8)
    (hfound : m.polling = .found format b) :
    Advances libs copied m (match (m.mgr.look_up libs format b).2 with
      | none => ({ m with mgr := (m.mgr.look_up libs format b).1, polling := .waiting }, [])
      | some (formats, hash) =>
        ({ m with
            mgr := (m.mgr.look_up libs format b).1
            polling := .telling (.ClipboardFormats formats hash) m.peers },
          [.announced format b m.peers])) := by
  obtain ⟨hlast, hbackend, ⟨hnone, hiff⟩ | ⟨hnew, hsome, hiff⟩⟩ :=
    m.mgr.look_up_cases libs format b h.last
  -- known already: nothing is announced
  · have hknown : ∀ g, m.mgr.Known g → (m.mgr.look_up libs format b).1.Known g :=
      fun g => (hiff g).mpr
    rw [hnone]
    exact ((h.learn _ hlast hbackend hknown).poll_on .waiting (by rintro _ _ ⟨⟩)
      (by rintro _ _ ⟨⟩)).silent hknown
  -- new: it is remembered, and then told to the peers
  · have hknown : ∀ g, m.mgr.Known g → (m.mgr.look_up libs format b).1.Known g :=
      fun g hg => (hiff g).mpr (.inr hg)
    rw [hsome]
    refine ⟨(h.learn _ hlast hbackend hknown).poll_on _ (by rintro _ _ ⟨⟩) ?_, hknown, ?_⟩
    · rintro _ _ ⟨⟩ payload ⟨⟩
    · rintro o ho
      obtain rfl := List.mem_singleton.mp ho
      exact ⟨(h.found format b hfound).resolve_right hnew, hnew, (hiff _).mpr (.inl rfl)⟩

/-- **One step of a machine.** -/
theorem InOrder.act (h : m.InOrder libs copied) (a : ClipAction κ)
    (ha : ∀ content, a = .copy content → copied content) :
    Advances libs copied m (m.act libs net a) := by
  cases a with
  | copy content =>
      -- the user may copy anything; that it was copied is what the invariant asks
      exact InOrder.silent ⟨h.last, .inl (ha content rfl), h.found, h.telling, h.writing⟩
        (fun _ hg => hg)
  | connected peer | disconnected peer_id =>
      exact InOrder.silent ⟨h.last, h.clip, h.found, h.telling, h.writing⟩ (fun _ hg => hg)
  | read_text =>
      simp only [ClipMachine.act]
      split
      · split
        · rename_i b bs hread
          exact (h.read .PlainText b bs hread).silent (fun _ hg => hg)
        · exact (h.poll_on .no_text (by rintro _ _ ⟨⟩) (by rintro _ _ ⟨⟩)).silent (fun _ hg => hg)
      · exact h.silent (fun _ hg => hg)
  | read_image =>
      simp only [ClipMachine.act]
      split
      · split
        · rename_i b bs hread
          exact (h.read .Png b bs hread).silent (fun _ hg => hg)
        · exact (h.poll_on .waiting (by rintro _ _ ⟨⟩) (by rintro _ _ ⟨⟩)).silent (fun _ hg => hg)
      · exact h.silent (fun _ hg => hg)
  | look_up =>
      simp only [ClipMachine.act]
      split
      · rename_i format b hfound
        exact h.look_up format b hfound
      · exact h.silent (fun _ hg => hg)
  | tell =>
      simp only [ClipMachine.act]
      split
      · rename_i msg peer rest htelling
        have hmsg := h.telling msg _ htelling
        refine ⟨h.poll_on _ (by rintro _ _ ⟨⟩) ?_, fun _ hg => hg, ?_⟩
        · rintro _ _ ⟨⟩
          exact hmsg
        · intro o ho
          obtain rfl := List.mem_singleton.mp ho
          exact hmsg
      · exact (h.poll_on .waiting (by rintro _ _ ⟨⟩) (by rintro _ _ ⟨⟩)).silent (fun _ hg => hg)
      · exact h.silent (fun _ hg => hg)
  | write peer =>
      simp only [ClipMachine.act]
      split
      · rename_i payload hwriting
        obtain ⟨hhash, hknown⟩ := h.writing peer payload hwriting
        refine InOrder.silent ⟨h.last, ?_, h.found, h.telling, ?_⟩ (fun _ hg => hg)
        -- what is written came from a peer, so its hash is known by the time it can be
        -- read
        · rcases m.mgr.write_allKnown libs payload hhash hknown with hsame | hall
          · dsimp only
            rw [hsame]
            refine h.clip.imp_right ?_
            intro hall format b hread hb
            rw [hsame] at hread
            exact hall format b hread hb
          · exact .inr hall
        · intro p q hq
          dsimp only at hq
          by_cases hp : p = peer
          · rw [hp, Function.update_self] at hq
            cases hq
          · rw [Function.update_of_ne hp] at hq
            exact h.writing p q hq
      · exact h.silent (fun _ hg => hg)

/-- A message arrives. -/
theorem InOrder.receive (h : m.InOrder libs copied) (peer : κ) (msg : Message)
    (hmsg : Honest libs msg) : Advances libs copied m (m.receive libs net peer msg) := by
  obtain ⟨hlast, hbackend, hknown, hhonest, hpayload⟩ :=
    m.mgr.receive_cases libs (net.peer_id peer) msg h.last
  have hlearn := h.learn _ hlast hbackend hknown
  refine ⟨⟨hlearn.last, hlearn.clip, hlearn.found, hlearn.telling, ?_⟩, hknown, ?_⟩
  · intro p payload hp
    dsimp only [ClipMachine.receive] at hp
    by_cases hpeer : p = peer
    · rw [hpeer, Function.update_self] at hp
      obtain ⟨rfl, hk⟩ := hpayload payload hp
      exact ⟨hmsg payload rfl, hk⟩
    · rw [Function.update_of_ne hpeer] at hp
      exact hlearn.writing p payload hp
  · intro o ho
    obtain ⟨reply, hreply, rfl⟩ := List.mem_map.mp ho
    exact hhonest reply hreply

end ClipMachine

/-! ## All machines

The net has no topology of its own. A wiring says whose each end is and where it leads,
so a star, a chain and a ring are all instances. -/

/-- The machines, and what is in flight from each end of a connection. -/
structure ClipNet (ι : Type u) (κ : Type v) where
  machine : ι → ClipMachine κ
  chan : κ → List Message

/-- A machine acts, a message arrives, or a connection is lost. -/
inductive ClipNetStep (ι : Type u) (κ : Type v)
  | on (machine : ι) (a : ClipAction κ)
  -- the inbound loop of this end gets the oldest message
  | deliver (peer : κ)
  -- the connection is lost, with what this end has sent
  | lose (peer : κ)

namespace ClipNet

variable {ι : Type u} {κ : Type v} [DecidableEq ι] [DecidableEq κ] (libs : ClipboardLibs)
  (net : Wiring ι κ)

/-- Fresh machines, and nothing in flight. -/
def new (ids : ι → PeerId) : ClipNet ι κ :=
  { machine := fun i => .new (ids i), chan := fun _ => [] }

/-- What is sent joins what is in flight. -/
def send (chan : κ → List Message) : ClipOut κ → κ → List Message
  | .sent peer msg => Function.update chan peer (chan peer ++ [msg])
  | .announced .. => chan

/-- One step of the net. -/
def step (self : ClipNet ι κ) : ClipNetStep ι κ → ClipNet ι κ × List (ι × ClipOut κ)
  | .on i a =>
    let r := (self.machine i).act libs net a
    ({ machine := Function.update self.machine i r.1, chan := r.2.foldl send self.chan },
      r.2.map (fun o => (i, o)))
  | .deliver peer =>
    let i := net.owner peer
    match self.chan (net.far peer), (self.machine i).writing peer with
    | msg :: rest, none =>
      let r := (self.machine i).receive libs net peer msg
      ({ machine := Function.update self.machine i r.1
         chan := r.2.foldl send (Function.update self.chan (net.far peer) rest) },
        r.2.map (fun o => (i, o)))
    | _, _ => (self, [])
  | .lose peer => ({ self with chan := Function.update self.chan peer [] }, [])

/-! ## No echo between any number of machines

Honesty is kept by all machines together, and order by each of them; the induction
carries both. -/

end ClipNet

/-- What is announced, if anything. -/
def ClipOut.announcement {κ : Type v} : ClipOut κ → Option (ClipboardFormat × List UInt8)
  | .announced format b _ => some (format, b)
  | .sent .. => none

namespace ClipMachine

variable {ι : Type u} {κ : Type v} [DecidableEq κ] (libs : ClipboardLibs) (net : Wiring ι κ)

/-- A machine says at most one thing in one step of its own, so there is an order among
the things it says. -/
theorem act_outs_length (m : ClipMachine κ) (a : ClipAction κ) :
    (m.act libs net a).2.length ≤ 1 := by
  -- only the look-up announces, and only telling sends, one thing each
  cases a with
  | copy content | connected peer | disconnected peer_id => exact Nat.zero_le 1
  | read_text | read_image =>
      simp only [act]
      split
      · split <;> exact Nat.zero_le 1
      · exact Nat.zero_le 1
  | look_up =>
      simp only [act]
      split
      · split
        · exact Nat.zero_le 1
        · exact Nat.le_refl 1
      · exact Nat.zero_le 1
  | tell =>
      simp only [act]
      split
      · exact Nat.le_refl 1
      · exact Nat.zero_le 1
      · exact Nat.zero_le 1
  | write peer =>
      simp only [act]
      split <;> exact Nat.zero_le 1

/-- An inbound loop answers and never announces. This is where an echo would have to
start. -/
theorem receive_announces_nothing (m : ClipMachine κ) (peer : κ) (msg : Message) :
    (m.receive libs net peer msg).2.filterMap ClipOut.announcement = [] := by
  rw [List.filterMap_eq_nil_iff]
  intro o ho
  obtain ⟨reply, -, rfl⟩ := List.mem_map.mp ho
  rfl

end ClipMachine

namespace ClipNet

open ClipMachine (InOrder Advances)

variable {ι : Type u} {κ : Type v} [DecidableEq ι] [DecidableEq κ] {libs : ClipboardLibs}
  {net : Wiring ι κ}

/-- What a machine has announced. -/
def announcements (i : ι) (log : List (ι × ClipOut κ)) : List (ClipboardFormat × List UInt8) :=
  (select i log).filterMap ClipOut.announcement

/-- What the user of a machine copied. -/
def copies (steps : List (ClipNetStep ι κ)) (i : ι) : List Clip :=
  steps.filterMap (fun a =>
    match a with
    | .on j (.copy content) => if j = i then some content else none
    | _ => none)

omit [DecidableEq κ] in
/-- A copy that is a step of the history is among the copies. -/
theorem mem_copies (steps : List (ClipNetStep ι κ)) (i : ι) (content : Clip)
    (h : .on i (.copy content) ∈ steps) : content ∈ copies steps i :=
  List.mem_filterMap.mpr ⟨_, h, if_pos rfl⟩

/-- What holds after any part of a history `steps`, with `log` what came of it. -/
structure Quiet (libs : ClipboardLibs) (steps : List (ClipNetStep ι κ)) (t : ClipNet ι κ)
    (log : List (ι × ClipOut κ)) : Prop where
  order : ∀ i, (t.machine i).InOrder libs (· ∈ copies steps i)
  honest : ∀ peer, ∀ msg ∈ t.chan peer, Honest libs msg
  seen : ∀ i, ∀ a ∈ announcements i log, (t.machine i).mgr.Known (hash_content libs a.2)
  once : ∀ i, ((announcements i log).map (fun a => hash_content libs a.2)).Nodup
  own : ∀ i, ∀ a ∈ announcements i log, OwnContent (· ∈ copies steps i) a.1 a.2

variable {steps : List (ClipNetStep ι κ)} {t : ClipNet ι κ} {log : List (ι × ClipOut κ)}

omit [DecidableEq κ] in
/-- The invariant at the start, for any number of machines. -/
theorem quiet_new (ids : ι → PeerId) : Quiet libs steps (new ids : ClipNet ι κ) [] where
  order := fun i => ClipMachine.inOrder_new (ids i)
  honest := by rintro peer msg ⟨⟩
  seen := by rintro i a ⟨⟩
  once := fun _ => List.nodup_nil
  own := by rintro i a ⟨⟩

omit [DecidableEq ι] in
/-- What is in flight stays honest when honest messages join it. -/
theorem honest_send (chan : κ → List Message) (outs : List (ClipOut κ))
    (hchan : ∀ peer, ∀ msg ∈ chan peer, Honest libs msg)
    (houts : ∀ peer msg, .sent peer msg ∈ outs → Honest libs msg) :
    ∀ peer, ∀ msg ∈ outs.foldl send chan peer, Honest libs msg := by
  induction outs generalizing chan with
  | nil => exact hchan
  | cons o outs ih =>
      refine ih _ ?_ (fun peer msg ho => houts peer msg (List.mem_cons_of_mem o ho))
      cases o with
      | announced format b peers => exact hchan
      | sent p m =>
          intro peer msg hmsg
          by_cases hp : peer = p
          · subst hp
            simp only [send, Function.update_self, List.mem_append, List.mem_singleton] at hmsg
            rcases hmsg with hmsg | rfl
            · exact hchan peer msg hmsg
            · exact houts peer msg List.mem_cons_self
          · simp only [send, Function.update_of_ne hp] at hmsg
            exact hchan peer msg hmsg

/-- A machine makes a step: what it announces is new. -/
theorem Quiet.advance (h : Quiet libs steps t log) (i : ι) (r : ClipMachine κ × List (ClipOut κ))
    (hr : Advances libs (· ∈ copies steps i) (t.machine i) r)
    (hone : (r.2.filterMap ClipOut.announcement).length ≤ 1) (chan : κ → List Message)
    (hchan : ∀ peer, ∀ msg ∈ chan peer, Honest libs msg) :
    Quiet libs steps { machine := Function.update t.machine i r.1, chan := r.2.foldl send chan }
      (log ++ r.2.map (fun o => (i, o))) := by
  have hself : announcements i (log ++ r.2.map (fun o => (i, o)))
      = announcements i log ++ r.2.filterMap ClipOut.announcement := by
    rw [announcements, select_append, select_map_self, List.filterMap_append, announcements]
  have hother : ∀ j, j ≠ i →
      announcements j (log ++ r.2.map (fun o => (i, o))) = announcements j log := by
    intro j hj
    rw [announcements, select_append, select_map_ne j i (Ne.symm hj), List.append_nil,
      announcements]
  have hfits : ∀ a ∈ r.2.filterMap ClipOut.announcement,
      OwnContent (· ∈ copies steps i) a.1 a.2 ∧
        ¬ (t.machine i).mgr.Known (hash_content libs a.2) ∧
        r.1.mgr.Known (hash_content libs a.2) := by
    intro a ha
    obtain ⟨o, ho, hoa⟩ := List.mem_filterMap.mp ha
    cases o with
    | announced format b peers =>
        cases hoa
        exact hr.outs _ ho
    | sent peer msg => cases hoa
  refine ⟨?_, ?_, ?_, ?_, ?_⟩
  · intro j
    by_cases hj : j = i
    · subst hj
      simpa only [Function.update_self] using hr.order
    · simpa only [Function.update_of_ne hj] using h.order j
  · exact honest_send chan r.2 hchan (fun peer msg ho => hr.outs _ ho)
  · intro j a ha
    by_cases hj : j = i
    · subst hj
      rw [hself] at ha
      simp only [Function.update_self]
      rcases List.mem_append.mp ha with ha | ha
      · exact hr.known _ (h.seen j a ha)
      · exact (hfits a ha).2.2
    · rw [hother j hj] at ha
      simpa only [Function.update_of_ne hj] using h.seen j a ha
  · intro j
    by_cases hj : j = i
    · subst hj
      rw [hself, List.map_append]
      refine List.nodup_append.mpr ⟨h.once j, ?_, ?_⟩
      · -- there is at most one
        cases hnew : r.2.filterMap ClipOut.announcement with
        | nil => exact List.nodup_nil
        | cons a rest =>
            rw [hnew, List.length_cons] at hone
            rw [List.eq_nil_of_length_eq_zero (Nat.le_zero.mp (Nat.le_of_succ_le_succ hone))]
            exact List.nodup_singleton _
      · intro g hg g' hg' heq
        obtain ⟨a, ha, rfl⟩ := List.mem_map.mp hg
        obtain ⟨a', ha', rfl⟩ := List.mem_map.mp hg'
        apply (hfits a' ha').2.1
        rw [← heq]
        exact h.seen j a ha
    · rw [hother j hj]
      exact h.once j
  · intro j a ha
    by_cases hj : j = i
    · subst hj
      rw [hself] at ha
      rcases List.mem_append.mp ha with ha | ha
      · exact h.own j a ha
      · exact (hfits a ha).1
    · rw [hother j hj] at ha
      exact h.own j a ha

/-- **One step keeps it.** -/
theorem Quiet.step (h : Quiet libs steps t log) (a : ClipNetStep ι κ) (ha : a ∈ steps) :
    Quiet libs steps (t.step libs net a).1 (log ++ (t.step libs net a).2) := by
  -- a step of a machine, a delivery, or a loss; the first two touch one machine, the
  -- last one only a channel
  cases a with
  | on i a =>
      apply h.advance i ((t.machine i).act libs net a)
      · apply (h.order i).act
        rintro content rfl
        exact mem_copies steps i content ha
      · exact Nat.le_trans (List.length_filterMap_le _ _)
          ((t.machine i).act_outs_length libs net a)
      · exact h.honest
  | deliver peer =>
      simp only [ClipNet.step]
      split
      · rename_i msg rest hmsg hfree
        apply h.advance (net.owner peer) ((t.machine (net.owner peer)).receive libs net peer msg)
        · exact (h.order _).receive peer msg
            (h.honest _ msg (by rw [hmsg]; exact List.mem_cons_self))
        · rw [ClipMachine.receive_announces_nothing]
          exact Nat.zero_le 1
        · intro p m hm
          by_cases hp : p = net.far peer
          · subst hp
            rw [Function.update_self] at hm
            exact h.honest _ m (by rw [hmsg]; exact List.mem_cons_of_mem msg hm)
          · rw [Function.update_of_ne hp] at hm
            exact h.honest p m hm
      · rw [List.append_nil]
        exact h
  | lose peer =>
      simp only [ClipNet.step, List.append_nil]
      -- what is lost was honest, and so is what is left
      refine ⟨h.order, ?_, h.seen, h.once, h.own⟩
      intro p m hm
      dsimp only at hm
      by_cases hp : p = peer
      · rw [hp, Function.update_self] at hm
        cases hm
      · rw [Function.update_of_ne hp] at hm
        exact h.honest p m hm

/-- The texts and images that were copied are at most two for each copy. -/
theorem length_contents_le (clips : List Clip) :
    (clips.flatMap (fun c => (c.read .PlainText).toList ++ (c.read .Png).toList)).length
      ≤ 2 * clips.length := by
  induction clips with
  | nil => exact Nat.zero_le _
  | cons c clips ih =>
      have htext : (c.read .PlainText).toList.length ≤ 1 := by
        cases c.read .PlainText <;> simp
      have himage : (c.read .Png).toList.length ≤ 1 := by
        cases c.read .Png <;> simp
      rw [List.flatMap_cons, List.length_append, List.length_append, List.length_cons]
      omega

/-- The messages that will still be sent because of one in flight. -/
def to_come : Message → Nat
  | .ClipboardFormats formats _ => 2 * formats.length
  | .ClipboardRequest _ => 1
  | _ => 0

/-- Those a poll loop is about to set off. -/
def task_to_come : PollTask κ → Nat
  | .telling msg peers => peers.length * (1 + to_come msg)
  | _ => 0

/-- A message that was sent counts, and what it sets off. -/
def out_weight : ClipOut κ → Nat
  | .sent _ msg => 1 + to_come msg
  | .announced .. => 0

/-- The peers an announcement is for. -/
def told : ClipOut κ → List κ
  | .announced _ _ peers => peers
  | .sent .. => []

/-- The message that was sent, if one was. -/
def message : ClipOut κ → Option Message
  | .sent _ msg => some msg
  | .announced .. => none

omit [DecidableEq ι] in
/-- A machine sends no more than it announced. -/
theorem act_weight (libs : ClipboardLibs) (net : Wiring ι κ) (m : ClipMachine κ) (a : ClipAction κ) :
    task_to_come (m.act libs net a).1.polling + ((m.act libs net a).2.map out_weight).sum
      ≤ task_to_come m.polling + 3 * ((m.act libs net a).2.flatMap told).length := by
  cases a with
  | copy content | connected peer | disconnected peer_id => simp [ClipMachine.act]
  | read_text | read_image =>
      simp only [ClipMachine.act]
      split
      · split <;> simp [task_to_come]
      · simp
  | look_up =>
      simp only [ClipMachine.act]
      split
      · rename_i format b hfound
        cases hlook : (m.mgr.look_up libs format b).2 with
        | none => simp [task_to_come]
        | some r =>
            obtain ⟨formats, hash⟩ := r
            -- a look-up announces one format
            have hone : formats = [format] := by
              simp only [ClipboardManager.look_up] at hlook
              split_ifs at hlook
              exact (Prod.mk.inj (Option.some.inj hlook)).1.symm
            subst hone
            simp [task_to_come, to_come, told, out_weight, Nat.mul_comm]
      · simp
  | tell =>
      simp only [ClipMachine.act]
      split
      · rename_i msg peer rest htelling
        simp only [htelling, task_to_come, out_weight, told, List.map_singleton, List.sum_singleton,
          List.length_cons, List.flatMap_cons, List.flatMap_nil, List.append_nil, List.length_nil,
          Nat.mul_zero, Nat.add_zero, Nat.succ_mul, Nat.le_refl]
      · simp [task_to_come]
      · simp
  | write peer =>
      simp only [ClipMachine.act]
      split <;> simp

omit [DecidableEq ι] in
/-- An inbound loop sends no more than the message called for. -/
theorem receive_weight (libs : ClipboardLibs) (net : Wiring ι κ) (m : ClipMachine κ) (peer : κ) (msg : Message) :
    (m.receive libs net peer msg).1.polling = m.polling ∧
      ((m.receive libs net peer msg).2.map out_weight).sum ≤ to_come msg ∧
      (m.receive libs net peer msg).2.flatMap told = [] := by
  refine ⟨rfl, ?_, ?_⟩
  -- only `ClipboardFormats` and `ClipboardRequest` are answered: one request for each
  -- format, or the content
  · cases msg with
    | ClipboardFormats formats hash =>
        have hconst : ∀ fs : List ClipboardFormat,
            (((fs.map Message.ClipboardRequest).map (ClipOut.sent peer)).map out_weight).sum
              = 2 * fs.length := by
          intro fs
          induction fs with
          | nil => rfl
          | cons f fs ih =>
              rw [List.map_cons, List.map_cons, List.map_cons, List.sum_cons, ih, List.length_cons]
              simp only [out_weight, to_come]
              omega
        exact Nat.le_of_eq (hconst formats)
    | ClipboardRequest format =>
        simp only [ClipMachine.receive, ClipboardManager.receive, ClipboardManager.handle_inbound]
        split <;> simp [out_weight, to_come]
    | _ => exact Nat.zero_le _
  -- a reply is sent to one peer and announces nothing
  · rw [List.flatMap_eq_nil_iff]
    intro o ho
    obtain ⟨reply, -, rfl⟩ := List.mem_map.mp ho
    rfl

section Count

variable [Fintype ι] [Fintype κ]

/-- The messages that those in flight will still set off. -/
def in_flight (chan : κ → List Message) : Nat := ∑ peer, ((chan peer).map to_come).sum

/-- And those that the poll loops will. -/
def pending (machine : ι → ClipMachine κ) : Nat := ∑ i, task_to_come (machine i).polling

omit [DecidableEq ι] [Fintype ι] in
/-- What is sent adds to what is in flight. -/
theorem in_flight_send (chan : κ → List Message) (outs : List (ClipOut κ)) :
    in_flight (outs.foldl send chan) + (outs.filterMap message).length
      = in_flight chan + (outs.map out_weight).sum := by
  -- one message after the other; an announcement sends nothing itself
  induction outs generalizing chan with
  | nil => rfl
  | cons o outs ih =>
      have hrest := ih (send chan o)
      rw [List.foldl_cons, List.map_cons, List.sum_cons]
      cases o with
      | announced format b peers =>
          rw [List.filterMap_cons_none (rfl : message (ClipOut.announced format b peers) = none),
            hrest]
          simp [send, out_weight]
      | sent peer msg =>
          have hsum := Queues.sum_update (fun (_ : κ) (q : List Message) => (q.map to_come).sum) chan
            peer (chan peer ++ [msg])
          rw [List.map_append, List.sum_append, List.map_singleton, List.sum_singleton] at hsum
          rw [List.filterMap_cons_some (rfl : message (ClipOut.sent peer msg) = some msg),
            List.length_cons]
          simp only [send, in_flight, out_weight] at hrest hsum ⊢
          omega

omit [DecidableEq κ] [Fintype κ] in
/-- When one machine's poll loop moves on, the sum over all machines changes by its
share. -/
theorem pending_update (machine : ι → ClipMachine κ) (i : ι) (m : ClipMachine κ) :
    pending (Function.update machine i m) + task_to_come (machine i).polling
      = pending machine + task_to_come m.polling :=
  Queues.sum_update (fun _ (m : ClipMachine κ) => task_to_come m.polling) machine i m

/-- The messages sent so far, and those still to come, are three for every peer
told. -/
def Counted (t : ClipNet ι κ) (log : List (ι × ClipOut κ)) : Prop :=
  (log.filterMap (fun e => message e.2)).length + in_flight t.chan + pending t.machine
    ≤ 3 * (log.flatMap (fun e => told e.2)).length

variable {t : ClipNet ι κ} {log : List (ι × ClipOut κ)}

/-- The ledger of one step. A message that is sent is taken from what was still to come,
and an announcement pays for three in advance: the formats, the request and the data. -/
theorem Counted.step (h : Counted t log) (a : ClipNetStep ι κ) :
    Counted (t.step libs net a).1 (log ++ (t.step libs net a).2) := by
  have hlog : ∀ (i : ι) (outs : List (ClipOut κ)),
      ((log ++ outs.map (fun o => (i, o))).filterMap (fun e => message e.2)).length
          = (log.filterMap (fun e => message e.2)).length + (outs.filterMap message).length ∧
        ((log ++ outs.map (fun o => (i, o))).flatMap (fun e => told e.2)).length
          = (log.flatMap (fun e => told e.2)).length + (outs.flatMap told).length := by
    intro i outs
    constructor
    · rw [List.filterMap_append, List.length_append, List.filterMap_map]
      rfl
    · rw [List.flatMap_append, List.length_append, List.flatMap_map]
  unfold Counted at h ⊢
  cases a with
  | on i a =>
      obtain ⟨hsent, htold⟩ := hlog i ((t.machine i).act libs net a).2
      have hact := act_weight libs net (t.machine i) a
      have hflight := in_flight_send t.chan ((t.machine i).act libs net a).2
      have hpending := pending_update t.machine i ((t.machine i).act libs net a).1
      simp only [ClipNet.step]
      rw [hsent, htold]
      omega
  | deliver peer =>
      simp only [ClipNet.step]
      split
      · rename_i msg rest hmsg hfree
        obtain ⟨hsent, htold⟩ := hlog (net.owner peer)
          ((t.machine (net.owner peer)).receive libs net peer msg).2
        -- what the message could still bring about, less itself, is at least what it
        -- brings about
        obtain ⟨hpolling, hweight, hnone⟩ :=
          receive_weight libs net (t.machine (net.owner peer)) peer msg
        have hpop := Queues.sum_update (fun (_ : κ) (q : List Message) => (q.map to_come).sum) t.chan
          (net.far peer) rest
        have hflight := in_flight_send (Function.update t.chan (net.far peer) rest)
          ((t.machine (net.owner peer)).receive libs net peer msg).2
        have hpending := pending_update t.machine (net.owner peer)
          ((t.machine (net.owner peer)).receive libs net peer msg).1
        rw [hmsg, List.map_cons, List.sum_cons] at hpop
        rw [hpolling] at hpending
        rw [hsent, htold, hnone, List.length_nil]
        dsimp only [in_flight] at h hpop hflight ⊢
        omega
      · simpa using h
  -- what was in flight on the channel can bring about nothing any more
  | lose peer =>
      have hlose := Queues.sum_update (fun (_ : κ) (q : List Message) => (q.map to_come).sum) t.chan
        peer []
      simp only [ClipNet.step, List.append_nil, List.map_nil, List.sum_nil] at hlose ⊢
      dsimp only [in_flight] at h ⊢
      omega

/-- **The clipboards fall silent.** However the machines are connected and
their tasks interleave: all clipboard messages that are ever sent are at most
three for each peer that was told of something new. -/
theorem clipboards_fall_silent (libs : ClipboardLibs) (net : Wiring ι κ) (ids : ι → PeerId)
    (steps : List (ClipNetStep ι κ)) :
    let log := (runOut (step libs net) (new ids) steps).2
    (log.filterMap (fun e => message e.2)).length
      ≤ 3 * (log.flatMap (fun e => told e.2)).length := by
  intro log
  have hnew : Counted (new ids : ClipNet ι κ) [] := by
    simp [Counted, new, in_flight, pending, ClipMachine.new, task_to_come]
  have hcounted : Counted (runOut (step libs net) (new ids) steps).1 log :=
    runOut_invariant (step libs net) Counted _ steps hnew (fun t log a _ h => h.step a)
  unfold Counted at hcounted
  omega

end Count

end ClipNet

end InputSync
