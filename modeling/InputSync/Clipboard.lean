/-
Clipboard sync (`crates/daemon/src/clipboard_mgr.rs`, `crates/clipboard`): the
manager of one machine, and two of them joined by FIFO channels.

The manager is a record of four fields and two operations, an iteration of the
poll loop and the handling of one inbound message; each gets one lemma that
says all it can do (`poll_cases`, `handle_inbound_known` with
`handle_inbound_backend`). The loop prevention rests on two facts that the
lemmas keep through any interleaving: a registry never forgets a hash, and
what a machine did not copy itself is in its registry before it can be on its
clipboard. Hence no hash is advertised twice and nothing foreign is ever
advertised (`broadcasts_echo_free`), with no assumption on the hash.
-/
import InputSync.Message
import InputSync.Trace
import Mathlib.Data.List.Perm.Subperm
import Mathlib.Logic.Function.Basic

set_option autoImplicit false

namespace InputSync

/-! ## The OS clipboard

One content at a time, in up to two formats. A read that fails and a read of nothing are
the same to the code. -/

/-- What is not under the repository's control: the hash, and which byte
strings the image library decodes. -/
structure ClipboardLibs where
  blake3 : List UInt8 → Hash
  decodes_png : List UInt8 → Bool

/-- The OS clipboard: its text, and its image as the PNG bytes a read gives. -/
structure Clip where
  text : Option String
  image : Option (List UInt8)
deriving DecidableEq

namespace Clip

/-- Nothing on the clipboard. -/
def empty : Clip := ⟨none, none⟩

/-- `ArboardBackend::read`; `none` is an error, which is also what a format
without content gives. -/
def read (self : Clip) : ClipboardFormat → Option (List UInt8)
  | .PlainText => self.text.map (fun t => t.toUTF8.data.toList)
  | .Png => self.image
  | .Html | .Rtf | .UriList => some []

/-- `ArboardBackend::write`: the content replaces what was there, if it is
well formed. -/
def write (self : Clip) (libs : ClipboardLibs) (payload : ClipboardPayload) : Clip :=
  match payload.format with
  | .PlainText =>
    match String.fromUTF8? ⟨payload.bytes.toArray⟩ with
    | some text => ⟨some text, none⟩
    | none => self
  | .Png => if libs.decodes_png payload.bytes then ⟨none, some payload.bytes⟩ else self
  | _ => self

/-- What the poll loop finds: text first, then an image. -/
def detect (self : Clip) : Option (ClipboardFormat × List UInt8) :=
  match self.read .PlainText with
  | some (b :: bs) => some (.PlainText, b :: bs)
  | _ =>
    match self.read .Png with
    | some (b :: bs) => some (.Png, b :: bs)
    | _ => none

end Clip

/-! ## The manager

What the poll loop and the inbound handler do to the registry and the clipboard, and a
lemma for each that says all of it. -/

/-- `OriginatorRegistry`: which peer a content came from, by its hash, the latest entry
first. -/
structure OriginatorRegistry where
  seen : List (Hash × PeerId)
deriving DecidableEq

namespace OriginatorRegistry

def new : OriginatorRegistry := ⟨[]⟩

/-- `record` never removes an older entry, but it hides it. -/
def record (self : OriginatorRegistry) (hash : Hash) (originator : PeerId) : OriginatorRegistry :=
  ⟨(hash, originator) :: self.seen⟩

/-- `originator`: the entry recorded last. -/
def originator (self : OriginatorRegistry) (hash : Hash) : Option PeerId := self.seen.lookup hash

end OriginatorRegistry

/-- `ClipboardManager`, with the OS clipboard behind its backend. -/
structure ClipboardManager where
  backend : Clip
  originators : OriginatorRegistry
  last_hash : Option Hash
  local_peer_id : PeerId
deriving DecidableEq

/-- `hash_content`: the digest of the bytes, whatever their format. -/
def hash_content (libs : ClipboardLibs) (bytes : List UInt8) : Hash := libs.blake3 bytes

namespace ClipboardManager

def new (local_peer_id : PeerId) : ClipboardManager :=
  { backend := .empty, originators := .new, last_hash := none, local_peer_id }

variable (libs : ClipboardLibs)

/-- One iteration of the poll loop: the formats and hash it broadcasts, if it
does. -/
def poll (self : ClipboardManager) : ClipboardManager × Option (List ClipboardFormat × Hash) :=
  match self.backend.detect with
  | none => (self, none)
  | some (format, b) =>
    let hash := hash_content libs b
    if self.last_hash = some hash then (self, none)
    else if self.originators.originator hash = some self.local_peer_id then (self, none)
    else if (self.originators.originator hash).isSome then
      ({ self with last_hash := some hash }, none)
    else
      ({ self with
          last_hash := some hash
          originators := self.originators.record hash self.local_peer_id },
        some ([format], hash))

/-- `handle_inbound`: the manager afterwards, and the messages sent back to the
peer. -/
def handle_inbound (self : ClipboardManager) (peer : PeerId) :
    Message → ClipboardManager × List Message
  | .ClipboardFormats formats hash =>
    ({ self with
        originators := formats.foldl (fun r _ => r.record hash peer) self.originators },
      formats.map .ClipboardRequest)
  | .ClipboardRequest format =>
    (self,
      match self.backend.read format with
      | some bytes =>
        [.ClipboardData ⟨format, bytes, self.local_peer_id, hash_content libs bytes⟩]
      | none => [])
  | .ClipboardData payload =>
    ({ self with
        originators := self.originators.record payload.hash payload.originator
        last_hash := some payload.hash
        backend := self.backend.write libs payload },
      [])
  | _ => (self, [])

/-- The manager has seen content with this hash. -/
def Known (self : ClipboardManager) (hash : Hash) : Prop :=
  (self.originators.originator hash).isSome

end ClipboardManager

/-- Recording a hash makes it known and forgets none. All that is ever asked of the
registry is whether it knows a hash. -/
theorem originator_record_isSome (r : OriginatorRegistry) (hash g : Hash) (p : PeerId) :
    ((r.record hash p).originator g).isSome ↔ g = hash ∨ (r.originator g).isSome := by
  simp only [OriginatorRegistry.record, OriginatorRegistry.originator, List.lookup_cons]
  by_cases h : g = hash
  · simp [h]
  · have hne : (g == hash) = false := beq_eq_false_iff_ne.mpr h
    simp only [hne, h, false_or]

/-- `ClipboardFormats` records its hash once for each format, so not at all where the
list is empty. -/
theorem originator_record_all_isSome (formats : List ClipboardFormat) (r : OriginatorRegistry)
    (hash g : Hash) (p : PeerId) :
    ((formats.foldl (fun r _ => r.record hash p) r).originator g).isSome ↔
      (formats ≠ [] ∧ g = hash) ∨ (r.originator g).isSome := by
  induction formats generalizing r with
  | nil => simp
  | cons f fs ih =>
      rw [List.foldl_cons, ih, originator_record_isSome]
      simp only [ne_eq, reduceCtorEq, not_false_eq_true, true_and]
      tauto

namespace ClipboardManager

variable (libs : ClipboardLibs)

/-- What the clipboard holds has been seen. -/
def Settled (self : ClipboardManager) : Prop :=
  ∀ format b, self.backend.detect = some (format, b) → self.Known (hash_content libs b)

/-- The last hash was seen too. -/
def LastKnown (self : ClipboardManager) : Prop :=
  ∀ hash, self.last_hash = some hash → self.Known hash

/-- A poll leaves the clipboard alone. -/
theorem poll_backend (self : ClipboardManager) :
    (self.poll libs).1.backend = self.backend := by
  unfold poll
  split
  · rfl
  · dsimp only
    split_ifs <;> rfl

/-- **What a poll can do.** It broadcasts nothing and has seen what it saw
before, or it broadcasts content it had not seen and has seen it since. -/
theorem poll_cases (self : ClipboardManager) (hlast : self.LastKnown) :
    (self.poll libs).1.LastKnown ∧
    (((self.poll libs).2 = none ∧ (∀ g, (self.poll libs).1.Known g ↔ self.Known g) ∧
        self.Settled libs) ∨
      (∃ format b, self.backend.detect = some (format, b) ∧ ¬ self.Known (hash_content libs b) ∧
        (self.poll libs).2 = some ([format], hash_content libs b) ∧
        ∀ g, (self.poll libs).1.Known g ↔ g = hash_content libs b ∨ self.Known g)) := by
  cases hdet : self.backend.detect with
  | none =>
      have hpoll : self.poll libs = (self, none) := by rw [poll, hdet]
      rw [hpoll]
      refine ⟨hlast, .inl ⟨rfl, fun g => Iff.rfl, ?_⟩⟩
      intro format b h
      rw [hdet] at h
      cases h
  | some c =>
      obtain ⟨format, b⟩ := c
      -- whenever the content on the clipboard was seen, nothing is to be done
      have hsettled : self.Known (hash_content libs b) → self.Settled libs := by
        intro hknown format' b' h
        rw [hdet] at h
        obtain ⟨-, rfl⟩ := Prod.mk.inj (Option.some.inj h)
        exact hknown
      by_cases hlh : self.last_hash = some (hash_content libs b)
      · have hpoll : self.poll libs = (self, none) := by
          rw [poll, hdet]
          exact if_pos hlh
        rw [hpoll]
        exact ⟨hlast, .inl ⟨rfl, fun g => Iff.rfl, hsettled (hlast _ hlh)⟩⟩
      -- the three tests in the order in which the code makes them
      by_cases hown : self.originators.originator (hash_content libs b) = some self.local_peer_id
      · have hpoll : self.poll libs = (self, none) := by
          rw [poll, hdet]
          exact (if_neg hlh).trans (if_pos hown)
        rw [hpoll]
        exact ⟨hlast, .inl ⟨rfl, fun g => Iff.rfl, hsettled (by rw [Known, hown]; rfl)⟩⟩
      by_cases hseen : (self.originators.originator (hash_content libs b)).isSome
      · have hpoll : self.poll libs
            = ({ self with last_hash := some (hash_content libs b) }, none) := by
          rw [poll, hdet]
          exact (if_neg hlh).trans ((if_neg hown).trans (if_pos hseen))
        rw [hpoll]
        refine ⟨?_, .inl ⟨rfl, fun g => Iff.rfl, hsettled hseen⟩⟩
        intro g hg
        rw [← Option.some.inj hg]
        exact hseen
      · have hpoll : self.poll libs
            = ({ self with
                  last_hash := some (hash_content libs b)
                  originators := self.originators.record (hash_content libs b) self.local_peer_id },
                some ([format], hash_content libs b)) := by
          rw [poll, hdet]
          exact (if_neg hlh).trans ((if_neg hown).trans (if_neg hseen))
        rw [hpoll]
        refine ⟨?_, .inr ⟨format, b, rfl, hseen, rfl, ?_⟩⟩
        · intro g hg
          rw [← Option.some.inj hg]
          exact (originator_record_isSome ..).mpr (.inl rfl)
        · intro g
          exact originator_record_isSome ..

/-- A registry never forgets. -/
theorem handle_inbound_known (self : ClipboardManager) (peer : PeerId) (msg : Message) (g : Hash)
    (h : self.Known g) : (self.handle_inbound libs peer msg).1.Known g := by
  cases msg with
  | ClipboardFormats formats hash => exact (originator_record_all_isSome ..).mpr (.inr h)
  | ClipboardData payload => exact (originator_record_isSome ..).mpr (.inr h)
  | _ => exact h

/-- The last hash stays one that was seen: handling a message sets it only to a hash it
has just recorded. -/
theorem handle_inbound_lastKnown (self : ClipboardManager) (peer : PeerId) (msg : Message)
    (h : self.LastKnown) : (self.handle_inbound libs peer msg).1.LastKnown := by
  intro hash hhash
  cases msg with
  | ClipboardData payload =>
      rw [← Option.some.inj hhash]
      exact (originator_record_isSome ..).mpr (.inl rfl)
  | _ => exact self.handle_inbound_known libs peer _ hash (h hash hhash)

/-- A payload carries the hash of its bytes. -/
def Honest (msg : Message) : Prop :=
  ∀ payload, msg = .ClipboardData payload → payload.hash = hash_content libs payload.bytes

/-- What a manager sends carries the hash of what it sends, since it is computed from
the bytes just read. -/
theorem handle_inbound_honest (self : ClipboardManager) (peer : PeerId) (msg : Message) :
    ∀ reply ∈ (self.handle_inbound libs peer msg).2, Honest libs reply := by
  intro reply hmem payload hreply
  subst hreply
  cases msg with
  | ClipboardFormats formats hash => simp [handle_inbound] at hmem
  | ClipboardRequest format =>
      simp only [handle_inbound] at hmem
      split at hmem
      · rw [List.mem_singleton, Message.ClipboardData.injEq] at hmem
        rw [hmem]
      · cases hmem
  | _ => cases hmem

end ClipboardManager

/-- After a write that takes, the poll loop can only find what was written. -/
theorem Clip.write_detect (self : Clip) (libs : ClipboardLibs) (payload : ClipboardPayload) :
    self.write libs payload = self ∨
      ∀ format b, (self.write libs payload).detect = some (format, b) → b = payload.bytes := by
  cases hfmt : payload.format with
  | PlainText =>
      cases htext : String.fromUTF8? ⟨payload.bytes.toArray⟩ with
      | none => left; simp [write, hfmt, htext]
      | some text =>
          right
          intro format b h
          -- what is decoded and encoded again is what was there
          have hbytes : text.toUTF8.data.toList = payload.bytes := by
            simp only [String.fromUTF8?] at htext
            split at htext
            · rw [← Option.some.inj htext]; rfl
            · cases htext
          simp only [write, hfmt, htext, detect, read, Option.map_some, hbytes] at h
          split at h
          · rename_i heq
            rw [← (Prod.mk.inj (Option.some.inj h)).2]
            exact (Option.some.inj heq).symm
          · cases h
  | Png =>
      by_cases hok : libs.decodes_png payload.bytes
      · right
        intro format b h
        simp only [write, hfmt, if_pos hok, detect, read, Option.map_none] at h
        split at h
        · rename_i heq
          rw [← (Prod.mk.inj (Option.some.inj h)).2]
          exact (Option.some.inj heq).symm
        · cases h
      · left
        simp [write, hfmt, hok]
  | Html | Rtf | UriList => left; simp [write, hfmt]

/-- **What a message does to the clipboard.** It stays, or it now holds content
that has been seen. -/
theorem ClipboardManager.handle_inbound_backend (libs : ClipboardLibs) (self : ClipboardManager)
    (peer : PeerId) (msg : Message) (hmsg : Honest libs msg) :
    (self.handle_inbound libs peer msg).1.backend = self.backend ∨
      (self.handle_inbound libs peer msg).1.Settled libs := by
  cases msg with
  | ClipboardData payload =>
      rcases self.backend.write_detect libs payload with hsame | hnew
      · exact .inl hsame
      · right
        intro format b hdet
        rw [hnew format b hdet, ← hmsg payload rfl]
        exact (originator_record_isSome ..).mpr (.inl rfl)
  | _ => exact .inl rfl

/-! ## Two machines

A pair with a FIFO channel in each direction. A step is a user's copy, a poll, or the
arrival of the oldest message; the list of steps is the schedule. -/

/-- The two ends of a connection. -/
inductive Side
  | A | B
deriving DecidableEq

/-- The other end. -/
def Side.other : Side → Side
  | .A => .B
  | .B => .A

/-- Two sides. -/
@[simp] theorem Side.other_other (s : Side) : s.other.other = s := by
  cases s <;> rfl

/-- Two connected managers, and the messages in flight from each side. -/
structure ClipboardPair where
  mgr : Side → ClipboardManager
  chan : Side → List Message

/-- A user copies on a side, its poll loop runs once, or the oldest message it
sent arrives. -/
inductive ClipboardStep
  | copy (side : Side) (content : Clip)
  | poll (side : Side)
  | deliver (side : Side)
deriving DecidableEq

/-- A broadcast: where from, what the clipboard held, what was announced. -/
structure Broadcast where
  side : Side
  clip : Clip
  formats : List ClipboardFormat
  hash : Hash

namespace ClipboardPair

/-- Two fresh managers, and nothing in flight. -/
def new (ids : Side → PeerId) : ClipboardPair :=
  { mgr := fun s => .new (ids s), chan := fun _ => [] }

/-- A message from `side` is handled on the other side, which answers on its
own channel. -/
def handle (self : ClipboardPair) (libs : ClipboardLibs) (side : Side) (msg : Message) :
    ClipboardPair :=
  let r := (self.mgr side.other).handle_inbound libs (self.mgr side).local_peer_id msg
  { mgr := Function.update self.mgr side.other r.1
    chan := Function.update self.chan side.other (self.chan side.other ++ r.2) }

/-- One step: the pair afterwards, and the broadcast it made, if any. -/
def step (libs : ClipboardLibs) (self : ClipboardPair) :
    ClipboardStep → ClipboardPair × List Broadcast
  | .copy side content =>
    ({ self with mgr := Function.update self.mgr side { self.mgr side with backend := content } },
      [])
  | .poll side =>
    let r := (self.mgr side).poll libs
    match r.2 with
    | none => ({ self with mgr := Function.update self.mgr side r.1 }, [])
    | some (formats, hash) =>
      ({ mgr := Function.update self.mgr side r.1
         chan := Function.update self.chan side
           (self.chan side ++ [.ClipboardFormats formats hash]) },
        [⟨side, (self.mgr side).backend, formats, hash⟩])
  | .deliver side =>
    match self.chan side with
    | [] => (self, [])
    | msg :: rest =>
      (({ self with chan := Function.update self.chan side rest } : ClipboardPair).handle libs side
        msg, [])

/-! ## Echo-freedom

The invariant has the log of broadcasts in it, because what is to be shown is about the
log: no hash twice, and nothing that was not copied. -/

open ClipboardManager (Honest)

/-- What holds after any part of a history `steps`, with `log` the broadcasts
made so far. -/
structure EchoFree (libs : ClipboardLibs) (steps : List ClipboardStep) (pair : ClipboardPair)
    (log : List Broadcast) : Prop where
  seen : ∀ b ∈ log, (pair.mgr b.side).Known b.hash
  once : ∀ s, ((log.filter (fun b => b.side = s)).map Broadcast.hash).Nodup
  own : ∀ b ∈ log, .copy b.side b.clip ∈ steps ∧
    ∃ format bytes, b.clip.detect = some (format, bytes) ∧ b.formats = [format] ∧
      b.hash = hash_content libs bytes
  clip : ∀ s, .copy s (pair.mgr s).backend ∈ steps ∨ (pair.mgr s).Settled libs
  last : ∀ s, (pair.mgr s).LastKnown
  honest : ∀ s, ∀ msg ∈ pair.chan s, Honest libs msg

variable {libs : ClipboardLibs} {steps : List ClipboardStep} {pair next : ClipboardPair}
  {log : List Broadcast}

/-- The invariant at the start, on two empty clipboards. -/
theorem echoFree_new (ids : Side → PeerId) : EchoFree libs steps (new ids) [] where
  seen := fun _ hb => absurd hb List.not_mem_nil
  once := fun _ => List.nodup_nil
  own := fun _ hb => absurd hb List.not_mem_nil
  clip := by
    intro _
    right
    rintro format b ⟨⟩
  last := by
    rintro _ hash ⟨⟩
  honest := fun _ _ hmsg => absurd hmsg List.not_mem_nil

/-- A step that broadcasts nothing only has to keep its managers in order. -/
theorem EchoFree.silent (h : EchoFree libs steps pair log)
    (hknown : ∀ s g, (pair.mgr s).Known g → (next.mgr s).Known g)
    (hclip : ∀ s, .copy s (next.mgr s).backend ∈ steps ∨ (next.mgr s).Settled libs)
    (hlast : ∀ s, (next.mgr s).LastKnown)
    (hhonest : ∀ s, ∀ msg ∈ next.chan s, Honest libs msg) : EchoFree libs steps next log where
  seen := fun b hb => hknown _ _ (h.seen b hb)
  once := h.once
  own := h.own
  clip := hclip
  last := hlast
  honest := hhonest

/-- The user copies. This is the only way in which something unseen gets on a clipboard,
and it is the user's own. -/
theorem EchoFree.copy (h : EchoFree libs steps pair log) (side : Side) (content : Clip)
    (hmem : .copy side content ∈ steps) :
    EchoFree libs steps (pair.step libs (.copy side content)).1 log := by
  refine h.silent (fun s g hg => ?_) (fun s => ?_) (fun s => ?_) h.honest
  all_goals
    simp only [step]
    rcases eq_or_ne s side with rfl | hs
  · rw [Function.update_self]
    exact hg
  · rwa [Function.update_of_ne hs]
  · left
    simpa only [Function.update_self] using hmem
  · simpa only [Function.update_of_ne hs] using h.clip s
  · rw [Function.update_self]
    exact h.last s
  · rw [Function.update_of_ne hs]
    exact h.last s

/-- A message is handled. What it puts on the clipboard has been seen before it is
there, so no later poll announces it. -/
theorem EchoFree.handle (h : EchoFree libs steps pair log) (side : Side) (msg : Message)
    (hmsg : Honest libs msg) : EchoFree libs steps (pair.handle libs side msg) log := by
  refine h.silent (fun s g hg => ?_) (fun s => ?_) (fun s => ?_) (fun s reply hreply => ?_)
  all_goals
    simp only [ClipboardPair.handle] at *
    rcases eq_or_ne s side.other with rfl | hs
  · rw [Function.update_self]
    exact ClipboardManager.handle_inbound_known libs _ _ _ _ hg
  · rwa [Function.update_of_ne hs]
  · rw [Function.update_self]
    -- either nothing was written, or a payload whose hash is noted with it
    rcases (pair.mgr side.other).handle_inbound_backend libs (pair.mgr side).local_peer_id msg hmsg
      with hsame | hset
    · rw [hsame]
      refine (h.clip side.other).imp_right ?_
      intro hset format b hdet
      rw [hsame] at hdet
      exact ClipboardManager.handle_inbound_known libs _ _ _ _ (hset format b hdet)
    · exact .inr hset
  · rw [Function.update_of_ne hs]
    exact h.clip s
  · rw [Function.update_self]
    exact ClipboardManager.handle_inbound_lastKnown libs _ _ _ (h.last _)
  · rw [Function.update_of_ne hs]
    exact h.last s
  · rw [Function.update_self] at hreply
    rcases List.mem_append.mp hreply with hreply | hreply
    · exact h.honest _ _ hreply
    · exact ClipboardManager.handle_inbound_honest libs _ _ _ _ hreply
  · rw [Function.update_of_ne hs] at hreply
    exact h.honest _ _ hreply

/-- A poll leaves its manager in order, whatever it finds. -/
theorem EchoFree.polled (h : EchoFree libs steps pair log) (side : Side) :
    EchoFree libs steps
      { pair with mgr := Function.update pair.mgr side ((pair.mgr side).poll libs).1 } log := by
  obtain ⟨hlast, hcases⟩ := (pair.mgr side).poll_cases libs (h.last side)
  have hbackend := (pair.mgr side).poll_backend libs
  have hknown : ∀ g, (pair.mgr side).Known g → ((pair.mgr side).poll libs).1.Known g := by
    intro g hg
    -- a poll forgets nothing: it leaves what is known or adds to it
    rcases hcases with ⟨-, hiff, -⟩ | ⟨format, b, -, -, -, hiff⟩
    · exact (hiff g).mpr hg
    · exact (hiff g).mpr (.inr hg)
  refine h.silent (fun s g hg => ?_) (fun s => ?_) (fun s => ?_) h.honest
  all_goals
    rcases eq_or_ne s side with rfl | hs
  · simpa only [Function.update_self] using hknown g hg
  · simpa only [Function.update_of_ne hs] using hg
  · simp only [Function.update_self, hbackend]
    refine (h.clip s).imp_right ?_
    intro hset format b hdet
    rw [hbackend] at hdet
    exact hknown _ (hset format b hdet)
  · simpa only [Function.update_of_ne hs] using h.clip s
  · simpa only [Function.update_self] using hlast
  · simpa only [Function.update_of_ne hs] using h.last s

/-- So does sending. -/
theorem EchoFree.sent (h : EchoFree libs steps pair log) (side : Side) (msg : Message)
    (hmsg : Honest libs msg) :
    EchoFree libs steps
      { pair with chan := Function.update pair.chan side (pair.chan side ++ [msg]) } log := by
  refine h.silent (fun _ _ hg => hg) h.clip h.last (fun s m hm => ?_)
  rcases eq_or_ne s side with rfl | hs
  · simp only [Function.update_self] at hm
    rcases List.mem_append.mp hm with hm | hm
    · exact h.honest _ _ hm
    · rw [List.mem_singleton.mp hm]
      exact hmsg
  · simp only [Function.update_of_ne hs] at hm
    exact h.honest _ _ hm

/-- A broadcast that is new to its side joins the log. -/
theorem EchoFree.announce (h : EchoFree libs steps pair log) (e : Broadcast)
    (hcopied : .copy e.side e.clip ∈ steps)
    (hcontent : ∃ format bytes, e.clip.detect = some (format, bytes) ∧ e.formats = [format] ∧
      e.hash = hash_content libs bytes)
    (hknown : (pair.mgr e.side).Known e.hash)
    (hfresh : ∀ b ∈ log, b.side = e.side → b.hash ≠ e.hash) :
    EchoFree libs steps pair (log ++ [e]) := by
  -- only the log has changed, and by one entry
  refine ⟨?_, ?_, ?_, h.clip, h.last, h.honest⟩
  · intro b hb
    rcases List.mem_append.mp hb with hb | hb
    · exact h.seen b hb
    · obtain rfl := List.mem_singleton.mp hb
      exact hknown
  · intro s
    rw [List.filter_append, List.map_append]
    rcases eq_or_ne e.side s with rfl | hs
    · simp only [List.filter_singleton, decide_true]
      -- on this side the hash is new; the other side's hashes are not touched
      refine List.nodup_append.mpr ⟨h.once e.side, by simp, ?_⟩
      intro g hg g' hg' heq
      obtain ⟨b, hb, rfl⟩ := List.mem_map.mp hg
      obtain ⟨hmem, hside⟩ := List.mem_filter.mp hb
      exact hfresh b hmem (of_decide_eq_true hside) (heq.trans (List.mem_singleton.mp hg'))
    · simpa [List.filter_singleton, hs] using h.once s
  · intro b hb
    rcases List.mem_append.mp hb with hb | hb
    · exact h.own b hb
    · obtain rfl := List.mem_singleton.mp hb
      exact ⟨hcopied, hcontent⟩

/-- A poll. If it announces something, that was unseen, hence copied by the user, and
has been seen since. -/
theorem EchoFree.poll (h : EchoFree libs steps pair log) (side : Side) :
    EchoFree libs steps (pair.step libs (.poll side)).1
      (log ++ (pair.step libs (.poll side)).2) := by
  have hpolled := h.polled side
  obtain ⟨-, ⟨hnone, -, -⟩ | ⟨format, b, hdet, hnew, hsome, hiff⟩⟩ :=
    (pair.mgr side).poll_cases libs (h.last side)
  · simpa only [step, hnone, List.append_nil] using hpolled
  · simp only [step, hsome]
    -- what is announced was not seen, so the user copied it and it is new to the log
    have hcopied : .copy side (pair.mgr side).backend ∈ steps :=
      (h.clip side).resolve_right (fun hset => hnew (hset format b hdet))
    have hsent := hpolled.sent side (.ClipboardFormats [format] (hash_content libs b))
      (by rintro payload ⟨⟩)
    apply hsent.announce ⟨side, (pair.mgr side).backend, [format], hash_content libs b⟩ hcopied
    · exact ⟨format, b, hdet, rfl, rfl⟩
    · simpa only [Function.update_self] using (hiff _).mpr (.inl rfl)
    · rintro e he rfl heq
      have hseen := h.seen e he
      rw [heq] at hseen
      exact hnew hseen

/-- **One step keeps it.** -/
theorem EchoFree.step (h : EchoFree libs steps pair log) (a : ClipboardStep) (ha : a ∈ steps) :
    EchoFree libs steps (pair.step libs a).1 (log ++ (pair.step libs a).2) := by
  cases a with
  | copy side content =>
      have hcopy := h.copy side content ha
      simpa only [ClipboardPair.step, List.append_nil] using hcopy
  | poll side => exact h.poll side
  | deliver side =>
      simp only [ClipboardPair.step]
      cases hchan : pair.chan side with
      | nil => simpa using h
      | cons msg rest =>
          simp only [List.append_nil]
          -- the message is taken from its channel first, and then handled
          have hpop : EchoFree libs steps
              { pair with chan := Function.update pair.chan side rest } log := by
            refine h.silent (fun s g hg => hg) h.clip h.last ?_
            intro s m hm
            simp only at hm
            rcases eq_or_ne s side with rfl | hs
            · rw [Function.update_self] at hm
              exact h.honest s m (by rw [hchan]; exact List.mem_cons_of_mem _ hm)
            · rw [Function.update_of_ne hs] at hm
              exact h.honest s m hm
          exact hpop.handle side msg (h.honest side msg (by rw [hchan]; exact List.mem_cons_self))

/-- The broadcasts of a side in a history. -/
def broadcasts (libs : ClipboardLibs) (ids : Side → PeerId) (steps : List ClipboardStep)
    (s : Side) : List Broadcast :=
  (runOut (step libs) (new ids) steps).2.filter (fun b => b.side = s)

/-- What the user copied on a side. -/
def copies (steps : List ClipboardStep) (s : Side) : List Clip :=
  steps.filterMap (fun a =>
    match a with
    | .copy side content => if side = s then some content else none
    | _ => none)

/-- A copy in the history is among the copies of its side. -/
theorem mem_copies (steps : List ClipboardStep) (s : Side) (content : Clip)
    (h : .copy s content ∈ steps) : content ∈ copies steps s :=
  List.mem_filterMap.mpr ⟨_, h, if_pos rfl⟩

end ClipboardPair

open ClipboardPair in
/-- **No echo.** Whatever the users copy and however polls and deliveries
interleave, a side never announces a hash twice, everything it announces was
on its clipboard because its own user copied it there, and so it announces no
more often than its user copied. -/
theorem broadcasts_echo_free (libs : ClipboardLibs) (ids : Side → PeerId)
    (steps : List ClipboardStep) (s : Side) :
    ((broadcasts libs ids steps s).map Broadcast.hash).Nodup ∧
    (∀ b ∈ broadcasts libs ids steps s, b.clip ∈ copies steps s ∧
      ∃ format bytes, b.clip.detect = some (format, bytes) ∧ b.formats = [format] ∧
        b.hash = hash_content libs bytes) ∧
    (broadcasts libs ids steps s).length ≤ (copies steps s).length := by
  have hinv : EchoFree libs steps (runOut (step libs) (new ids) steps).1
      (runOut (step libs) (new ids) steps).2 :=
    runOut_invariant (step libs) (EchoFree libs steps) _ steps (echoFree_new ids)
      (fun st log a ha h => h.step a ha)
  have hown : ∀ b ∈ broadcasts libs ids steps s, b.clip ∈ copies steps s ∧
      ∃ format bytes, b.clip.detect = some (format, bytes) ∧ b.formats = [format] ∧
        b.hash = hash_content libs bytes := by
    intro b hb
    obtain ⟨hmem, hside⟩ := List.mem_filter.mp hb
    obtain ⟨hcopy, hrest⟩ := hinv.own b hmem
    rw [of_decide_eq_true hside] at hcopy
    exact ⟨mem_copies steps s b.clip hcopy, hrest⟩
  refine ⟨hinv.once s, hown, ?_⟩
  -- distinct hashes, each the hash of something copied
  have hsub : (broadcasts libs ids steps s).map Broadcast.hash
      ⊆ (copies steps s).map (fun c => hash_content libs ((c.detect.map Prod.snd).getD [])) := by
    intro g hg
    obtain ⟨b, hb, rfl⟩ := List.mem_map.mp hg
    obtain ⟨hcopy, format, bytes, hdet, -, hhash⟩ := hown b hb
    refine List.mem_map.mpr ⟨b.clip, hcopy, ?_⟩
    rw [hdet, hhash]
    rfl
  have hle := ((hinv.once s).subperm hsub).length_le
  rw [List.length_map, List.length_map] at hle
  exact hle

end InputSync
