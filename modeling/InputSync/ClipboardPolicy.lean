/-
What a session tells its peers about the local clipboard, and how far the
clipboard policy keeps it from that.

Two runs of a session get the same messages and poll ticks; only what the user
copies differs. Contents that may not be shared (clipboard sync is off, the
backend calls them confidential, or they are too large) should make no
difference to what is sent. The configuration decides whether there is a poll
loop, and that is all: the answer to a `ClipboardRequest` looks at no policy,
and nothing looks at `is_confidential` or `max_bytes`. So the runs are told
apart by whoever asks for a format in which the clipboards differ, and by the
poll loop when it finds something new (`SameToTell`).
-/
import InputSync.ClipboardSettle
import InputSync.Config
import InputSync.Session

set_option autoImplicit false

namespace InputSync

/-! ## A session

The clipboard's half of a session: its manager, its peers and what is sent to them. -/

/-- A session as far as it deals with the clipboard, with its peers and what was
sent to them. -/
structure ClipboardSession where
  config : ClipboardConfig
  is_client : Bool
  peers : List PeerHandle
  mgr : ClipboardManager
  sent : List (PeerHandle × Message)
deriving DecidableEq

/-- A message from a peer comes to its inbound loop, the poll interval ticks, or
the user copies. -/
inductive ClipboardOp
  | inbound (peer : PeerHandle) (msg : Message)
  | poll
  | copy (content : Clip)

namespace ClipboardSession

/-- A fresh session over a clipboard that holds `content`. -/
def new (config : ClipboardConfig) (is_client : Bool) (peers : List PeerHandle)
    (local_peer_id : PeerId) (content : Clip) : ClipboardSession :=
  { config, is_client, peers, sent := [],
    mgr := { ClipboardManager.new local_peer_id with backend := content } }

variable (libs : ClipboardLibs)

/-- What a call of the inbound loop sends. -/
def act (peer : PeerHandle) (self : ClipboardSession) : Effect → ClipboardSession
  | .send msg => { self with sent := self.sent ++ [(peer, msg)] }
  | .clipboard msg =>
    let r := self.mgr.handle_inbound libs peer.peer_id msg
    { self with mgr := r.1, sent := self.sent ++ r.2.map (fun m => (peer, m)) }
  | _ => self

/-- One input of the session. The poll loop exists only if clipboard sync is on. -/
def step (self : ClipboardSession) : ClipboardOp → ClipboardSession
  | .inbound peer msg => (inbound_step self.is_client msg).foldl (act libs peer) self
  | .poll =>
    -- the loop is spawned only if the configuration says so
    if self.config.enabled then
      let r := self.mgr.poll libs
      let sent := match r.2 with
        | some (formats, hash) => self.peers.map (fun p => (p, .ClipboardFormats formats hash))
        | none => []
      { self with mgr := r.1, sent := self.sent ++ sent }
    else self
  | .copy content => { self with mgr := { self.mgr with backend := content } }

/-- The session after these inputs. -/
def run (self : ClipboardSession) (ops : List ClipboardOp) : ClipboardSession :=
  ops.foldl (step libs) self

end ClipboardSession

/-- Contents the policy keeps on this machine. -/
def MayNotBeShared (config : ClipboardConfig) (is_confidential : Clip → Bool) (content : Clip) :
    Prop :=
  config.enabled = false ∨ is_confidential content = true ∨
    ∃ format bytes, content.detect = some (format, bytes) ∧ config.max_bytes.toNat < bytes.length

/-! ## Two runs

A two-run property. The two sessions differ in their clipboards and nowhere else, and
the question is which inputs bring the difference out. -/

/-- An input of both runs; the user may copy different things. -/
inductive TwinOp
  | inbound (peer : PeerHandle) (msg : Message)
  | poll
  | copy (left right : Clip)

namespace TwinOp

/-- The input as the first run sees it, -/
def left : TwinOp → ClipboardOp
  | .inbound peer msg => .inbound peer msg
  | .poll => .poll
  | .copy left _ => .copy left

/-- and as the second one does. Only copies differ. -/
def right : TwinOp → ClipboardOp
  | .inbound peer msg => .inbound peer msg
  | .poll => .poll
  | .copy _ right => .copy right

end TwinOp

/-- What a poll finds: a format, and the hash of the content. -/
def ClipboardManager.found (libs : ClipboardLibs) (self : ClipboardManager) :
    Option (ClipboardFormat × Hash) :=
  self.backend.detect.map (fun c => (c.1, hash_content libs c.2))

/-- The input does not tell the two clipboards apart: one who asks for a format
gets the same in both, and a poll finds the same, or nothing new in either. -/
def SameToTell (libs : ClipboardLibs) (s t : ClipboardSession) : TwinOp → Prop
  | .inbound _ (.ClipboardRequest format) =>
    s.mgr.backend.read format = t.mgr.backend.read format
  | .poll => s.config.enabled = true →
    s.mgr.found libs = t.mgr.found libs ∨ (s.mgr.Settled libs ∧ t.mgr.Settled libs)
  | _ => True

/-- Two sessions that only their clipboards tell apart. -/
structure Twins (s t : ClipboardSession) : Prop where
  config : t.config = s.config
  is_client : t.is_client = s.is_client
  peers : t.peers = s.peers
  sent : t.sent = s.sent
  originators : t.mgr.originators = s.mgr.originators
  local_peer_id : t.mgr.local_peer_id = s.mgr.local_peer_id
  last_left : s.mgr.LastKnown
  last_right : t.mgr.LastKnown

namespace ClipboardManager

variable (libs : ClipboardLibs) (self : ClipboardManager)

/-- What a poll broadcasts: what it finds, if that is new. -/
def fresh : Option (ClipboardFormat × Hash) :=
  (self.found libs).filter (fun c => (self.originators.originator c.2).isNone)

/-- Nothing new is found exactly when what is there was seen. -/
theorem fresh_eq_none_iff : self.fresh libs = none ↔ self.Settled libs := by
  unfold fresh found Settled Known
  cases hdet : self.backend.detect with
  | none => simp
  | some c =>
      obtain ⟨format, b⟩ := c
      cases horig : self.originators.originator (hash_content libs b) <;>
        simp [Option.filter_some, horig]

/-- **A poll in terms of what it finds.** -/
theorem poll_fresh (hlast : self.LastKnown) :
    (self.poll libs).2 = (self.fresh libs).map (fun c => ([c.1], c.2)) ∧
      (self.poll libs).1.originators = match self.fresh libs with
        | some c => self.originators.record c.2 self.local_peer_id
        | none => self.originators := by
  have hknown : ∀ hash, self.last_hash = some hash →
      (self.originators.originator hash).isSome := hlast
  unfold poll fresh found
  -- nothing on the clipboard, a content nobody knows yet, or one that is known; the
  -- last hash is known, so it needs no case of its own
  cases hdet : self.backend.detect with
  | none => exact ⟨rfl, rfl⟩
  | some c =>
      obtain ⟨format, b⟩ := c
      simp only [Option.map_some, Option.filter_some]
      cases horig : self.originators.originator (hash_content libs b) with
      | none =>
          have hlh : self.last_hash ≠ some (hash_content libs b) := by
            intro hlh
            have hsome := hknown _ hlh
            rw [horig] at hsome
            cases hsome
          rw [if_neg hlh, if_neg (by simp), if_neg (by simp)]
          exact ⟨rfl, rfl⟩
      | some p =>
          simp only [Option.isNone_some, Bool.false_eq_true, if_false, Option.isSome_some, if_true]
          split_ifs <;> exact ⟨rfl, rfl⟩

/-- A poll does not change whose manager it is. -/
theorem poll_local_peer_id : (self.poll libs).1.local_peer_id = self.local_peer_id := by
  unfold poll
  split
  · rfl
  · dsimp only
    split_ifs <;> rfl

end ClipboardManager

namespace Twins

variable {libs : ClipboardLibs} {s t : ClipboardSession}

/-- The registries agree, so the same is new to both. -/
theorem fresh_eq_iff (h : Twins s t) : s.mgr.fresh libs = t.mgr.fresh libs ↔
    s.mgr.found libs = t.mgr.found libs ∨ (s.mgr.Settled libs ∧ t.mgr.Settled libs) := by
  rw [← s.mgr.fresh_eq_none_iff libs, ← t.mgr.fresh_eq_none_iff libs]
  unfold ClipboardManager.fresh
  rw [h.originators]
  constructor
  · intro heq
    -- both tell nothing, which is to be settled, or both tell the same, and then they
    -- found the same
    cases hs : Option.filter (fun c => (s.mgr.originators.originator c.2).isNone)
        (s.mgr.found libs) with
    | none =>
        rw [hs] at heq
        exact .inr ⟨rfl, heq.symm⟩
    | some c =>
        rw [hs] at heq
        left
        rw [(Option.filter_eq_some_iff.mp hs).1, (Option.filter_eq_some_iff.mp heq.symm).1]
  · rintro (heq | ⟨hs, ht⟩)
    · rw [heq]
    · rw [hs, ht]

/-- A call other than the answer to a request. -/
theorem act (h : Twins s t) (peer : PeerHandle) (effect : Effect)
    (hrequest : ∀ format, effect ≠ .clipboard (.ClipboardRequest format)) :
    Twins (s.act libs peer effect) (t.act libs peer effect) := by
  -- no effect but a request reads the clipboard, and the clipboards are all that
  -- differs
  cases effect with
  | inject site event | release_all_modifiers site | file_offer offer | file_chunk chunk => exact h
  | send msg =>
      exact ⟨h.config, h.is_client, h.peers, congrArg (· ++ [(peer, msg)]) h.sent, h.originators,
        h.local_peer_id, h.last_left, h.last_right⟩
  | clipboard msg =>
      have hlast := s.mgr.handle_inbound_lastKnown libs peer.peer_id msg h.last_left
      have hlast' := t.mgr.handle_inbound_lastKnown libs peer.peer_id msg h.last_right
      cases msg with
      | ClipboardRequest format => exact absurd rfl (hrequest format)
      | ClipboardFormats formats hash =>
          refine ⟨h.config, h.is_client, h.peers, ?_, ?_, h.local_peer_id, hlast, hlast'⟩
          · simp only [ClipboardSession.act, ClipboardManager.handle_inbound, h.sent]
          · simp only [ClipboardSession.act, ClipboardManager.handle_inbound, h.originators]
      | ClipboardData payload =>
          refine ⟨h.config, h.is_client, h.peers, ?_, ?_, h.local_peer_id, hlast, hlast'⟩
          · simp only [ClipboardSession.act, ClipboardManager.handle_inbound, h.sent]
          · simp only [ClipboardSession.act, ClipboardManager.handle_inbound, h.originators]
      | _ =>
          refine ⟨h.config, h.is_client, h.peers, ?_, h.originators, h.local_peer_id, h.last_left,
            h.last_right⟩
          simp only [ClipboardSession.act, ClipboardManager.handle_inbound, h.sent]

/-- The same for all calls of a message that is no request. -/
theorem acts (h : Twins s t) (peer : PeerHandle) (effects : List Effect)
    (hrequest : ∀ effect ∈ effects, ∀ format, effect ≠ .clipboard (.ClipboardRequest format)) :
    Twins (effects.foldl (ClipboardSession.act libs peer) s)
      (effects.foldl (ClipboardSession.act libs peer) t) := by
  refine List.foldl_rel (r := Twins) h ?_
  intro effect he s t h
  exact h.act peer effect (hrequest effect he)

end Twins

/-- Only a request leads to the answer to one. -/
theorem request_of_effect (is_client : Bool) (msg : Message) (format : ClipboardFormat)
    (h : Effect.clipboard (.ClipboardRequest format) ∈ inbound_step is_client msg) :
    msg = .ClipboardRequest format := by
  cases msg with
  | ClipboardRequest format' =>
      have heffect := List.mem_singleton.mp h
      cases heffect
      rfl
  | ScreenEnter x y modifiers | ModifierSync modifiers =>
      simp only [inbound_step] at h
      split_ifs at h <;> simp [resync_modifiers] at h
  | _ =>
      simp only [inbound_step] at h
      first
        | (split_ifs at h <;> simp at h)
        | simp at h

namespace ClipboardSession

variable {libs : ClipboardLibs} {s t : ClipboardSession}

/-- An answered request, which sends what the clipboard reads as. -/
theorem step_request (s : ClipboardSession) (peer : PeerHandle) (format : ClipboardFormat) :
    s.step libs (.inbound peer (.ClipboardRequest format))
      = { s with sent := s.sent ++ match s.mgr.backend.read format with
          | some bytes => [(peer, .ClipboardData ⟨format, bytes, s.mgr.local_peer_id,
              hash_content libs bytes⟩)]
          | none => [] } := by
  simp only [step, inbound_step, List.foldl_cons, List.foldl_nil, act,
    ClipboardManager.handle_inbound]
  cases s.mgr.backend.read format <;> rfl

/-- **One step.** Twins stay twins over an input that does not tell them apart. -/
theorem step_twins (op : TwinOp) (h : Twins s t) (hsame : SameToTell libs s t op) :
    Twins (s.step libs op.left) (t.step libs op.right) := by
  cases op with
  | copy left right =>
      exact ⟨h.config, h.is_client, h.peers, h.sent, h.originators, h.local_peer_id, h.last_left,
        h.last_right⟩
  | inbound peer msg =>
      -- a request is where what is read becomes visible; anything else is blind to it
      by_cases hmsg : ∃ format, msg = .ClipboardRequest format
      · obtain ⟨format, rfl⟩ := hmsg
        have hread : s.mgr.backend.read format = t.mgr.backend.read format := hsame
        simp only [TwinOp.left, TwinOp.right, step_request]
        refine ⟨h.config, h.is_client, h.peers, ?_, h.originators, h.local_peer_id, h.last_left,
          h.last_right⟩
        simp only [h.sent, hread, h.local_peer_id]
      · simp only [TwinOp.left, TwinOp.right, step, h.is_client]
        apply h.acts
        rintro effect heffect format rfl
        exact hmsg ⟨format, request_of_effect s.is_client msg format heffect⟩
  -- a poll tells what is fresh, which is the same on both sides by assumption
  | poll =>
      simp only [TwinOp.left, TwinOp.right, step, h.config]
      split_ifs with henabled
      · obtain ⟨hout, horig⟩ := s.mgr.poll_fresh libs h.last_left
        obtain ⟨hout', horig'⟩ := t.mgr.poll_fresh libs h.last_right
        have hfresh := h.fresh_eq_iff.mpr (hsame henabled)
        refine ⟨rfl, h.is_client, h.peers, ?_, ?_, ?_,
          (s.mgr.poll_cases libs h.last_left).1, (t.mgr.poll_cases libs h.last_right).1⟩
        · simp only [hout, hout', hfresh, h.sent, h.peers]
        · simp only [horig, horig', hfresh, h.originators, h.local_peer_id]
        · simp only [ClipboardManager.poll_local_peer_id, h.local_peer_id]
      · exact h

/-- An input that tells twins apart shows in what is sent. -/
theorem step_tells (op : TwinOp) (h : Twins s t) (hpeers : s.peers ≠ [])
    (hsent : (t.step libs op.right).sent = (s.step libs op.left).sent) :
    SameToTell libs s t op := by
  cases op with
  | copy left right => trivial
  | inbound peer msg =>
      cases msg with
      | ClipboardRequest format =>
          simp only [TwinOp.left, TwinOp.right, step_request, h.sent, List.append_cancel_left_eq]
            at hsent
          show s.mgr.backend.read format = t.mgr.backend.read format
          cases hs : s.mgr.backend.read format <;> cases ht : t.mgr.backend.read format <;>
            simp_all
      | _ => trivial
  | poll =>
      intro henabled
      apply h.fresh_eq_iff.mp
      obtain ⟨hout, -⟩ := s.mgr.poll_fresh libs h.last_left
      obtain ⟨hout', -⟩ := t.mgr.poll_fresh libs h.last_right
      obtain ⟨p, ps, hcons⟩ := List.exists_cons_of_ne_nil hpeers
      simp only [TwinOp.left, TwinOp.right, step, h.config, henabled, if_true, hout, hout', h.sent,
        h.peers, List.append_cancel_left_eq, hcons] at hsent
      cases hs : s.mgr.fresh libs with
      | none => cases ht : t.mgr.fresh libs with
        | none => rfl
        | some d => simp [hs, ht] at hsent
      | some c => cases ht : t.mgr.fresh libs with
        | none => simp [hs, ht] at hsent
        | some d =>
            -- one advertisement each, so they are the same
            simp only [hs, ht, Option.map_some, List.map_cons, List.cons.injEq, Prod.mk.injEq,
              Message.ClipboardFormats.injEq] at hsent
            obtain ⟨⟨-, ⟨hformat, -⟩, hhash⟩, -⟩ := hsent
            exact congrArg some (Prod.ext hformat.symm hhash.symm)

/-- The peers stay. -/
theorem step_peers (s : ClipboardSession) (op : ClipboardOp) :
    (s.step libs op).peers = s.peers := by
  cases op with
  | copy content => rfl
  | poll =>
      simp only [step]
      split_ifs <;> rfl
  | inbound peer msg =>
      simp only [step]
      generalize inbound_step s.is_client msg = effects
      induction effects generalizing s with
      | nil => rfl
      | cons effect effects ih =>
          rw [List.foldl_cons, ih]
          cases effect <;> rfl

/-- Both runs at once. -/
def twin_step (libs : ClipboardLibs) (both : ClipboardSession × ClipboardSession) (op : TwinOp) :
    Option (ClipboardSession × ClipboardSession) :=
  some (both.1.step libs op.left, both.2.step libs op.right)

/-- Two runs side by side are the two runs. -/
theorem exec_twin (both : ClipboardSession × ClipboardSession) (ops : List TwinOp) :
    exec (twin_step libs) both ops
      = some (both.1.run libs (ops.map TwinOp.left), both.2.run libs (ops.map TwinOp.right)) := by
  induction ops generalizing both with
  | nil => rfl
  | cons op ops ih =>
      rw [exec_cons, twin_step, Option.bind_some, ih]
      rfl

/-- **When the clipboard makes no difference.** Two runs over the same messages
and poll ticks, with anything on the two clipboards: they send the same at
every point exactly when no input tells the clipboards apart. -/
theorem clipboards_untold_iff (config : ClipboardConfig) (is_client : Bool) (peer : PeerHandle)
    (others : List PeerHandle) (local_peer_id : PeerId) (left right : Clip) (ops : List TwinOp) :
    let s := new config is_client (peer :: others) local_peer_id left
    let t := new config is_client (peer :: others) local_peer_id right
    (∀ pre suf, ops = pre ++ suf →
        (t.run libs (pre.map TwinOp.right)).sent = (s.run libs (pre.map TwinOp.left)).sent) ↔
      (∀ pre op suf, ops = pre ++ op :: suf →
        SameToTell libs (s.run libs (pre.map TwinOp.left)) (t.run libs (pre.map TwinOp.right))
          op) := by
  intro s t
  let strong : ClipboardSession × ClipboardSession → Prop :=
    fun both => Twins both.1 both.2 ∧ both.1.peers ≠ []
  have hstart : strong (s, t) :=
    ⟨⟨rfl, rfl, rfl, rfl, rfl, rfl, by rintro hash ⟨⟩, by rintro hash ⟨⟩⟩, List.cons_ne_nil _ _⟩
  have hiff := exec_kept_iff (twin_step libs) strong (fun both => both.2.sent = both.1.sent)
    (fun both op => SameToTell libs both.1 both.2 op) (s, t) _ ops hstart
    (fun both hboth => hboth.1.sent)
    (by
      rintro both next op ⟨htwins, hpeers⟩ hsame hnext
      obtain rfl := Option.some.inj hnext
      exact ⟨step_twins op htwins hsame, by rwa [step_peers]⟩)
    (by
      rintro both next op ⟨htwins, hpeers⟩ hnext hsent
      obtain rfl := Option.some.inj hnext
      exact step_tells op htwins hpeers hsent)
    (exec_twin (s, t) ops)
  -- both sides speak of prefixes of the run of the pair
  constructor
  · intro hsent pre op suf hsplit
    refine hiff.mp ?_ pre op suf _ hsplit (exec_twin (s, t) pre)
    intro pre suf both hsplit hboth
    rw [exec_twin] at hboth
    obtain rfl := Option.some.inj hboth
    exact hsent pre suf hsplit
  · intro hsame pre suf hsplit
    refine hiff.mpr ?_ pre suf _ hsplit (exec_twin (s, t) pre)
    intro pre op suf both hsplit hboth
    rw [exec_twin] at hboth
    obtain rfl := Option.some.inj hboth
    exact hsame pre op suf hsplit

end ClipboardSession

/-- **The policy is not enforced.** A confidential password on one clipboard and
another one on the other: with clipboard sync off whoever asks gets it, and with
sync on, but nothing allowed to be larger than 0 bytes, the poll loop announces
its hash. -/
theorem clipboard_policy_ignored :
    let left : Clip := ⟨some "a", none⟩
    let right : Clip := ⟨some "b", none⟩
    let is_confidential : Clip → Bool := fun _ => true
    let peer : PeerHandle := ⟨⟨Vector.replicate 16 7⟩, 0⟩
    let session (config : ClipboardConfig) (content : Clip) : ClipboardSession :=
      .new config false [peer] ⟨Vector.replicate 16 1⟩ content
    let off : ClipboardConfig := { ClipboardConfig.default with enabled := false }
    let tiny : ClipboardConfig := { ClipboardConfig.default with max_bytes := 0 }
    (∀ config ∈ [off, tiny], ∀ content ∈ [left, right],
      MayNotBeShared config is_confidential content) ∧
    ((session off left).run first_bytes [.inbound peer (.ClipboardRequest .PlainText)]).sent
      ≠ ((session off right).run first_bytes [.inbound peer (.ClipboardRequest .PlainText)]).sent ∧
    ((session tiny left).run first_bytes [.poll]).sent
      ≠ ((session tiny right).run first_bytes [.poll]).sent := by
  refine ⟨?_, by decide, by decide⟩
  intro config _ content _
  exact .inr (.inl rfl)

end InputSync
