/-
Where clipboard sync settles: what both clipboards hold after a history of
text copies, when every copy is followed by polls on both sides and the
delivery of everything in flight.

Between two copies the pair is `Quiet`: nothing in flight, and both
registries know exactly the contents copied so far. A copy of known content
leaves it quiet, because no poll announces it. A copy of new content starts an
exchange that moves through five stages, each step of either machine moving
it by `Stage.next` and nothing else being possible; it can only come to rest
settled, with the content on both sides. So a clipboard holds the newest copy
that reached it (`held`), and the two agree on the newest copy exactly when
that copy reached the other side or found it there.
-/
import InputSync.Clipboard

set_option autoImplicit false

namespace InputSync

open ClipboardManager ClipboardPair

/-! ## Texts on the clipboard

What follows is about texts. These lemmas say how a text goes through `detect`, `read` and
`write`, and later proofs need nothing else of the formats. -/

/-- The bytes of a text, as they are hashed and sent. -/
def text_bytes (x : String) : List UInt8 := x.toUTF8.data.toList

/-- A clipboard that holds a text. -/
def text_clip (x : String) : Clip := ⟨some x, none⟩

/-- A text that is not empty has bytes. The managers take an empty read for no content,
so this hypothesis comes up wherever a text is copied. -/
theorem text_bytes_ne_nil (x : String) (h : x ≠ "") : text_bytes x ≠ [] := by
  intro hnil
  have hsize : x.toUTF8.data.toList.length = 0 := by
    rw [show x.toUTF8.data.toList = [] from hnil, List.length_nil]
  exact h (String.utf8ByteSize_eq_zero_iff.mp hsize)

/-- A poll finds a text as plain text, since there is nothing before it in the order of
formats. -/
theorem detect_text (x : String) (h : x ≠ "") :
    (text_clip x).detect = some (.PlainText, text_bytes x) := by
  obtain ⟨b, bs, hb⟩ := List.exists_cons_of_ne_nil (text_bytes_ne_nil x h)
  have hread : (text_clip x).read .PlainText = some (b :: bs) := by
    rw [← hb]
    rfl
  rw [Clip.detect, hread, hb]

/-- Content that arrives as plain text is what the other clipboard then holds. -/
theorem write_text (self : Clip) (libs : ClipboardLibs) (x : String) (p : PeerId) (g : Hash) :
    self.write libs ⟨.PlainText, text_bytes x, p, g⟩ = text_clip x := by
  have hutf8 : String.fromUTF8? ⟨(text_bytes x).toArray⟩ = some x := by
    simp only [text_bytes, Array.toArray_toList, String.fromUTF8?]
    exact dif_pos x.isValidUTF8
  simp only [Clip.write, hutf8]
  rfl

/-- The two sides are different, and there are no more. -/
@[simp] theorem Side.other_ne (s : Side) : s.other ≠ s := by
  cases s <;> decide

/-- The same the other way round, for `simp`. -/
@[simp] theorem Side.ne_other (s : Side) : s ≠ s.other := s.other_ne.symm

/-- A side is the one at hand or the other one. -/
theorem Side.eq_or_other (s t : Side) : t = s ∨ t = s.other := by
  cases s <;> cases t <;> simp [Side.other]

/-! ## Quiet pairs

A pair at rest. `K` is a predicate rather than a list because the registries are sets:
the order in which contents became known does not matter. -/

variable (libs : ClipboardLibs)

/-- Nothing is in flight, and both registries know the hashes in `K`. -/
structure Quiet (K : Hash → Prop) (clips : Side → Clip) (pair : ClipboardPair) : Prop where
  clip : ∀ t, (pair.mgr t).backend = clips t
  chan : ∀ t, pair.chan t = []
  known : ∀ t g, (pair.mgr t).Known g ↔ K g
  last : ∀ t, (pair.mgr t).LastKnown

/-- A poll that finds what it has seen changes nothing but the last hash. -/
theorem step_poll_settled (pair : ClipboardPair) (t : Side) (hlast : (pair.mgr t).LastKnown)
    (hset : (pair.mgr t).Settled libs) :
    ∃ m : ClipboardManager,
      (pair.step libs (.poll t)).1 = { pair with mgr := Function.update pair.mgr t m } ∧
      m.backend = (pair.mgr t).backend ∧ (∀ g, m.Known g ↔ (pair.mgr t).Known g) ∧
      m.LastKnown := by
  obtain ⟨hlast', hcases⟩ := (pair.mgr t).poll_cases libs hlast
  rcases hcases with ⟨hnone, hknown, -⟩ | ⟨format, b, hdet, hnew, -, -⟩
  · refine ⟨((pair.mgr t).poll libs).1, ?_, (pair.mgr t).poll_backend libs, hknown, hlast'⟩
    simp only [ClipboardPair.step, hnone]
  · exact absurd (hset format b hdet) hnew

/-- A quiet pair stays quiet until somebody copies: whatever is on the clipboards is
known to both, so no poll announces it, and nothing is there to deliver. -/
theorem Quiet.step {K : Hash → Prop} {clips : Side → Clip} {pair : ClipboardPair}
    (h : Quiet K clips pair)
    (hclips : ∀ t format b, (clips t).detect = some (format, b) → K (hash_content libs b))
    (a : ClipboardStep) (ha : ∀ s c, a ≠ .copy s c) : Quiet K clips (pair.step libs a).1 := by
  cases a with
  | copy s c => exact absurd rfl (ha s c)
  | poll t =>
      -- what a clipboard holds is known, so a poll finds nothing new
      have hset : (pair.mgr t).Settled libs := by
        intro format b hdet
        rw [h.clip t] at hdet
        exact (h.known t _).mpr (hclips t format b hdet)
      obtain ⟨m, hstep, hbackend, hknown, hlast⟩ := step_poll_settled libs pair t (h.last t) hset
      rw [hstep]
      refine ⟨fun u => ?_, h.chan, fun u g => ?_, fun u => ?_⟩
      all_goals
        simp only
        rcases eq_or_ne u t with rfl | hu
      · rw [Function.update_self, hbackend, h.clip]
      · rw [Function.update_of_ne hu, h.clip]
      · rw [Function.update_self, hknown, h.known]
      · rw [Function.update_of_ne hu, h.known]
      · rwa [Function.update_self]
      · rw [Function.update_of_ne hu]
        exact h.last u
  | deliver t =>
      simp only [ClipboardPair.step, h.chan t]
      exact h

/-- The same along a schedule. -/
theorem Quiet.run {K : Hash → Prop} {clips : Side → Clip}
    (hclips : ∀ t format b, (clips t).detect = some (format, b) → K (hash_content libs b))
    (schedule : List ClipboardStep) (hsched : ∀ a ∈ schedule, ∀ s c, a ≠ .copy s c)
    (pair : ClipboardPair) (h : Quiet K clips pair) :
    Quiet K clips (runOut (ClipboardPair.step libs) pair schedule).1 := by
  induction schedule generalizing pair with
  | nil => exact h
  | cons a schedule ih =>
      exact ih (fun b hb => hsched b (List.mem_cons_of_mem a hb)) _
        (h.step libs hclips a (hsched a List.mem_cons_self))

/-- A copy of known content. -/
theorem Quiet.copy {K : Hash → Prop} {clips : Side → Clip} {pair : ClipboardPair}
    (h : Quiet K clips pair) (s : Side) (content : Clip) :
    Quiet K (Function.update clips s content) (pair.step libs (.copy s content)).1 := by
  refine ⟨fun t => ?_, h.chan, fun t g => ?_, fun t => ?_⟩
  all_goals
    simp only [ClipboardPair.step]
    rcases eq_or_ne t s with rfl | ht
  · simp
  · simp [ht, h.clip t]
  · rw [Function.update_self, ← h.known t g]
    rfl
  · rw [Function.update_of_ne ht, h.known]
  · rw [Function.update_self]
    exact h.last t
  · rw [Function.update_of_ne ht]
    exact h.last t

/-! ## The exchange of new content

The protocol for one content: copied, announced, requested, answered, settled. Every
step of either machine is a step of `Stage` or nothing, which turns all interleavings
into one sequence. -/

/-- How far the content copied on the owner's side has got. -/
inductive Stage
  | copied | announced | requested | answered | settled
deriving DecidableEq

/-- The only ways an exchange moves on. -/
def Stage.next (s : Side) : Stage → ClipboardStep → Stage
  | .copied, .poll t => if t = s then .announced else .copied
  | .announced, .deliver t => if t = s then .requested else .announced
  | .requested, .deliver t => if t = s then .requested else .answered
  | .answered, .deliver t => if t = s then .settled else .answered
  | stage, _ => stage

/-- The messages in flight from the owner at a stage. -/
def Stage.sent (x : String) : Stage → List Message → Prop
  | .announced, msgs => msgs = [.ClipboardFormats [.PlainText] (hash_content libs (text_bytes x))]
  | .answered, msgs =>
    ∃ p, msgs = [.ClipboardData ⟨.PlainText, text_bytes x, p, hash_content libs (text_bytes x)⟩]
  | _, msgs => msgs = []

/-- The other side has heard of the content. -/
def Stage.heard : Stage → Prop
  | .requested | .answered | .settled => True
  | _ => False

/-- The owner `s` copied `x`, new to both sides, and the exchange is at
`stage`; `old` is what the other clipboard held. -/
structure Exchange (s : Side) (x : String) (K : Hash → Prop) (old : Clip) (stage : Stage)
    (pair : ClipboardPair) : Prop where
  owner_clip : (pair.mgr s).backend = text_clip x
  other_clip : (pair.mgr s.other).backend = if stage = .settled then text_clip x else old
  owner_chan : stage.sent libs x (pair.chan s)
  other_chan : pair.chan s.other = if stage = .requested then [.ClipboardRequest .PlainText] else []
  owner_known : ∀ g, (pair.mgr s).Known g ↔
    K g ∨ (stage ≠ .copied ∧ g = hash_content libs (text_bytes x))
  other_known : ∀ g, (pair.mgr s.other).Known g ↔
    K g ∨ (stage.heard ∧ g = hash_content libs (text_bytes x))
  last : ∀ t, (pair.mgr t).LastKnown

variable {libs} {s : Side} {x : String} {K : Hash → Prop} {old : Clip} {stage : Stage}
  {pair : ClipboardPair}

/-- The owner's first poll announces the content. -/
theorem Exchange.announce (h : Exchange libs s x K old .copied pair) (hx : x ≠ "")
    (hnew : ¬ K (hash_content libs (text_bytes x))) :
    Exchange libs s x K old .announced (pair.step libs (.poll s)).1 := by
  have hdet : (pair.mgr s).backend.detect = some (.PlainText, text_bytes x) := by
    rw [h.owner_clip, detect_text x hx]
  have hunknown : ¬ (pair.mgr s).Known (hash_content libs (text_bytes x)) := by
    rw [h.owner_known]
    simp [hnew]
  obtain ⟨hlast, hcases⟩ := (pair.mgr s).poll_cases libs (h.last s)
  -- a poll that is silent would leave the text known
  rcases hcases with ⟨-, -, hset⟩ | ⟨format, b, hdet', -, hsome, hknown⟩
  · exact absurd (hset _ _ hdet) hunknown
  obtain ⟨rfl, rfl⟩ := Prod.mk.inj (Option.some.inj (hdet'.symm.trans hdet))
  simp only [ClipboardPair.step, hsome]
  refine ⟨?_, ?_, ?_, ?_, ?_, ?_, ?_⟩
  · simp only [Function.update_self]
    rw [poll_backend, h.owner_clip]
  · simpa using h.other_clip
  · have hchan : pair.chan s = [] := h.owner_chan
    simp [Stage.sent, hchan]
  · simpa using h.other_chan
  · intro g
    simp only [Function.update_self]
    rw [hknown, h.owner_known]
    simp only [ne_eq, not_true_eq_false, false_and, or_false, reduceCtorEq, not_false_eq_true,
      true_and]
    exact or_comm
  · intro g
    simpa [Stage.heard] using h.other_known g
  · intro t
    rcases eq_or_ne t s with rfl | ht
    · simpa using hlast
    · simpa [ht] using h.last t

/-- Any other poll changes nothing. -/
theorem Exchange.poll_idle (h : Exchange libs s x K old stage pair) (hx : x ≠ "")
    (hold : ∀ format b, old.detect = some (format, b) → K (hash_content libs b)) (t : Side)
    (ht : t = s → stage ≠ .copied) :
    Exchange libs s x K old stage (pair.step libs (.poll t)).1 := by
  -- the owner has announced, and the other side holds something known
  have hset : (pair.mgr t).Settled libs := by
    intro format b hdet
    rcases s.eq_or_other t with rfl | rfl
    · rw [h.owner_clip, detect_text x hx] at hdet
      obtain ⟨-, rfl⟩ := Prod.mk.inj (Option.some.inj hdet)
      exact (h.owner_known _).mpr (.inr ⟨ht rfl, rfl⟩)
    · rw [h.other_clip] at hdet
      refine (h.other_known _).mpr ?_
      split at hdet
      · rename_i hsettled
        rw [detect_text x hx] at hdet
        obtain ⟨-, rfl⟩ := Prod.mk.inj (Option.some.inj hdet)
        exact .inr ⟨by rw [hsettled]; trivial, rfl⟩
      · exact .inl (hold _ _ hdet)
  obtain ⟨m, hstep, hbackend, hknown, hlast⟩ := step_poll_settled libs pair t (h.last t) hset
  rw [hstep]
  -- the poll changes nothing that the stage is about
  have hmgr : ∀ u, (Function.update pair.mgr t m u).backend = (pair.mgr u).backend ∧
      (∀ g, (Function.update pair.mgr t m u).Known g ↔ (pair.mgr u).Known g) ∧
      (Function.update pair.mgr t m u).LastKnown := by
    intro u
    rcases eq_or_ne u t with rfl | hu
    · rw [Function.update_self]
      exact ⟨hbackend, hknown, hlast⟩
    · rw [Function.update_of_ne hu]
      exact ⟨rfl, fun g => Iff.rfl, h.last u⟩
  exact ⟨(hmgr s).1.trans h.owner_clip, (hmgr s.other).1.trans h.other_clip, h.owner_chan,
    h.other_chan, fun g => ((hmgr s).2.1 g).trans (h.owner_known g),
    fun g => ((hmgr s.other).2.1 g).trans (h.other_known g), fun u => (hmgr u).2.2⟩

/-- The announcement arrives: the other side takes note and asks. -/
theorem Exchange.request (h : Exchange libs s x K old .announced pair) :
    Exchange libs s x K old .requested (pair.step libs (.deliver s)).1 := by
  have hchan : pair.chan s = [.ClipboardFormats [.PlainText] (hash_content libs (text_bytes x))] :=
    h.owner_chan
  have hother : pair.chan s.other = [] := h.other_chan
  simp only [ClipboardPair.step, hchan, ClipboardPair.handle, handle_inbound]
  refine ⟨?_, ?_, ?_, ?_, ?_, ?_, ?_⟩
  · simpa using h.owner_clip
  · simpa using h.other_clip
  · simp [Stage.sent]
  · simp [hother]
  · intro g
    simpa using h.owner_known g
  · intro g
    -- the announcement is noted, and nothing else
    simp only [Function.update_self, Known, List.foldl_cons, List.foldl_nil]
    rw [originator_record_isSome]
    have hbefore := h.other_known g
    simp only [Known, Stage.heard, false_and, or_false] at hbefore
    rw [hbefore]
    simp only [Stage.heard, true_and]
    exact or_comm
  · intro t
    rcases s.eq_or_other t with rfl | rfl
    · simpa using h.last t
    · simp only [Function.update_self]
      exact (pair.mgr s.other).handle_inbound_lastKnown libs (pair.mgr s).local_peer_id
        (.ClipboardFormats [.PlainText] (hash_content libs (text_bytes x))) (h.last _)

/-- The request arrives: the owner answers with its clipboard. -/
theorem Exchange.answer (h : Exchange libs s x K old .requested pair) :
    Exchange libs s x K old .answered (pair.step libs (.deliver s.other)).1 := by
  have hchan : pair.chan s.other = [.ClipboardRequest .PlainText] := h.other_chan
  have howner : pair.chan s = [] := h.owner_chan
  have hread : (pair.mgr s).backend.read .PlainText = some (text_bytes x) := by
    rw [h.owner_clip]
    rfl
  -- the owner holds the text and sends it; of its own state nothing changes
  simp only [ClipboardPair.step, hchan, ClipboardPair.handle, handle_inbound, Side.other_other,
    hread]
  refine ⟨?_, ?_, ?_, ?_, ?_, ?_, ?_⟩
  · simpa using h.owner_clip
  · simpa using h.other_clip
  · exact ⟨(pair.mgr s).local_peer_id, by simp [howner]⟩
  · simp
  · intro g
    simpa using h.owner_known g
  · intro g
    simpa [Stage.heard] using h.other_known g
  · intro t
    rcases eq_or_ne t s with rfl | ht
    · simpa using h.last t
    · simpa [ht] using h.last t

/-- The content arrives. -/
theorem Exchange.settle (h : Exchange libs s x K old .answered pair) :
    Exchange libs s x K old .settled (pair.step libs (.deliver s)).1 := by
  obtain ⟨p, hchan⟩ := h.owner_chan
  have hother : pair.chan s.other = [] := h.other_chan
  simp only [ClipboardPair.step, hchan, ClipboardPair.handle, handle_inbound, write_text]
  refine ⟨?_, ?_, ?_, ?_, ?_, ?_, ?_⟩
  · simpa using h.owner_clip
  · simp
  · simp [Stage.sent]
  · simp [hother]
  · intro g
    simpa using h.owner_known g
  · intro g
    -- the other side learns one hash, that of the text
    simp only [Function.update_self, Known]
    rw [originator_record_isSome]
    have hbefore := h.other_known g
    simp only [Known, Stage.heard, true_and] at hbefore
    rw [hbefore]
    simp only [Stage.heard, true_and]
    tauto
  · intro t
    rcases s.eq_or_other t with rfl | rfl
    · simpa using h.last t
    · simp only [Function.update_self]
      intro g hg
      rw [← Option.some.inj hg]
      exact (originator_record_isSome ..).mpr (.inl rfl)

/-- A delivery on an empty channel. -/
theorem step_deliver_nil (pair : ClipboardPair) (t : Side) (h : pair.chan t = []) :
    (pair.step libs (.deliver t)).1 = pair := by
  simp only [ClipboardPair.step, h]

/-- **One step of an exchange.** -/
theorem Exchange.step (h : Exchange libs s x K old stage pair) (hx : x ≠ "")
    (hnew : ¬ K (hash_content libs (text_bytes x)))
    (hold : ∀ format b, old.detect = some (format, b) → K (hash_content libs b))
    (a : ClipboardStep) (ha : ∀ t c, a ≠ .copy t c) :
    Exchange libs s x K old (stage.next s a) (pair.step libs a).1 := by
  cases a with
  | copy t c => exact absurd rfl (ha t c)
  | poll t =>
      by_cases hannounce : t = s ∧ stage = .copied
      · obtain ⟨rfl, rfl⟩ := hannounce
        rw [show Stage.next t .copied (.poll t) = .announced from if_pos rfl]
        exact h.announce hx hnew
      · -- any other poll finds nothing to announce
        have hstay : stage.next s (.poll t) = stage := by
          cases stage with
          | copied => exact if_neg (fun ht => hannounce ⟨ht, rfl⟩)
          | _ => rfl
        rw [hstay]
        exact h.poll_idle hx hold t (fun ht hst => hannounce ⟨ht, hst⟩)
  | deliver t =>
      rcases s.eq_or_other t with rfl | rfl
      · cases stage with
        | announced =>
            rw [show Stage.next t .announced (.deliver t) = .requested from if_pos rfl]
            exact h.request
        | answered =>
            rw [show Stage.next t .answered (.deliver t) = .settled from if_pos rfl]
            exact h.settle
        | requested =>
            rw [show Stage.next t .requested (.deliver t) = .requested from if_pos rfl,
              step_deliver_nil pair t h.owner_chan]
            exact h
        | copied | settled =>
            rw [step_deliver_nil pair t h.owner_chan]
            exact h
      · cases stage with
        | requested =>
            rw [show Stage.next s .requested (.deliver s.other) = .answered from
              if_neg s.other_ne]
            exact h.answer
        | announced =>
            rw [show Stage.next s .announced (.deliver s.other) = .announced from
              if_neg s.other_ne, step_deliver_nil pair s.other h.other_chan]
            exact h
        | answered =>
            rw [show Stage.next s .answered (.deliver s.other) = .answered from
              if_neg s.other_ne, step_deliver_nil pair s.other h.other_chan]
            exact h
        | copied | settled =>
            rw [step_deliver_nil pair s.other h.other_chan]
            exact h

/-- **A run of an exchange.** -/
theorem Exchange.run (hx : x ≠ "") (hnew : ¬ K (hash_content libs (text_bytes x)))
    (hold : ∀ format b, old.detect = some (format, b) → K (hash_content libs b))
    (schedule : List ClipboardStep) (hsched : ∀ a ∈ schedule, ∀ t c, a ≠ .copy t c)
    (stage : Stage) (pair : ClipboardPair) (h : Exchange libs s x K old stage pair) :
    Exchange libs s x K old (schedule.foldl (Stage.next s) stage)
      (runOut (ClipboardPair.step libs) pair schedule).1 := by
  induction schedule generalizing stage pair with
  | nil => exact h
  | cons a schedule ih =>
      exact ih (fun b hb => hsched b (List.mem_cons_of_mem a hb)) _ _
        (h.step hx hnew hold a (hsched a List.mem_cons_self))

/-- An exchange does not return to its first stage. -/
theorem Stage.next_ne_copied (s : Side) (stage : Stage) (a : ClipboardStep)
    (h : stage ≠ .copied) : stage.next s a ≠ .copied := by
  cases stage <;> cases a <;> simp only [Stage.next, ne_eq, not_true_eq_false] at * <;>
    (try split) <;> simp

/-- Once the owner has polled, the content is no longer merely copied. -/
theorem Stage.foldl_ne_copied (s : Side) (schedule : List ClipboardStep) (stage : Stage)
    (h : stage ≠ .copied ∨ .poll s ∈ schedule) :
    schedule.foldl (Stage.next s) stage ≠ .copied := by
  induction schedule generalizing stage with
  | nil => simpa using h
  | cons a schedule ih =>
      refine ih (stage.next s a) ?_
      rcases h with h | h
      · exact .inl (Stage.next_ne_copied s stage a h)
      · rcases List.mem_cons.mp h with rfl | h
        · left
          cases stage <;> simp [Stage.next]
        · exact .inr h

/-- An exchange with nothing in flight, after a poll of its owner, is settled. -/
theorem Exchange.at_rest (h : Exchange libs s x K old stage pair) (hpolled : stage ≠ .copied)
    (hrest : ∀ t, pair.chan t = []) : stage = .settled := by
  have howner := h.owner_chan
  have hother := h.other_chan
  rw [hrest] at howner hother
  cases stage with
  | copied => exact absurd rfl hpolled
  | announced => cases howner
  | requested => cases hother
  | answered =>
      obtain ⟨p, hp⟩ := howner
      cases hp
  | settled => rfl

/-- A settled exchange is quiet again, the content known and on both sides. -/
theorem Exchange.quiet (h : Exchange libs s x K old .settled pair) :
    Quiet (fun g => K g ∨ g = hash_content libs (text_bytes x)) (fun _ => text_clip x) pair := by
  refine ⟨fun t => ?_, fun t => ?_, fun t g => ?_, h.last⟩
  all_goals rcases s.eq_or_other t with rfl | rfl
  · exact h.owner_clip
  · exact h.other_clip
  · exact h.owner_chan
  · exact h.other_chan
  · simpa using h.owner_known g
  · simpa [Stage.heard] using h.other_known g

/-- A copy of content that is new starts an exchange. -/
theorem Quiet.start {clips : Side → Clip} (h : Quiet K clips pair) (s : Side) (x : String) :
    Exchange libs s x K (clips s.other) .copied (pair.step libs (.copy s (text_clip x))).1 := by
  have hcopy := h.copy libs s (text_clip x)
  refine ⟨?_, ?_, hcopy.chan s, hcopy.chan s.other, ?_, ?_, hcopy.last⟩
  · rw [hcopy.clip, Function.update_self]
  · rw [hcopy.clip, Function.update_of_ne s.other_ne]
    rfl
  · intro g
    rw [hcopy.known]
    simp
  · intro g
    rw [hcopy.known]
    simp [Stage.heard]

/-! ## Histories

A history is a list of copies, and a settled run puts the exchange of each between it
and the next. -/

variable (libs)

/-- What a side's clipboard holds after a history of copies, newest first: the
newest content that was copied on it, or was new to both sides when it was
copied. -/
def held (t : Side) : List (Side × String) → Option String
  | [] => none
  | (s, x) :: older => if s = t ∨ x ∉ older.map Prod.snd then some x else held t older

/-- One copy and what follows it. -/
def round (pair : ClipboardPair) (s : Side) (x : String) (schedule : List ClipboardStep) :
    ClipboardPair :=
  (runOut (ClipboardPair.step libs) pair (.copy s (text_clip x) :: schedule)).1

/-- A run in which every copy is followed, before the next, by polls and
deliveries in any order, with a poll of each side among them and nothing left
in flight. The history is newest first. -/
inductive SettledRun (ids : Side → PeerId) : ClipboardPair → List (Side × String) → Prop
  | start : SettledRun ids (.new ids) []
  | round {pair : ClipboardPair} {older : List (Side × String)} (s : Side) (x : String)
      (schedule : List ClipboardStep) : SettledRun ids pair older →
      (∀ a ∈ schedule, ∀ t c, a ≠ .copy t c) → (∀ t, .poll t ∈ schedule) →
      (∀ t, (round libs pair s x schedule).chan t = []) →
      SettledRun ids (round libs pair s x schedule) ((s, x) :: older)

/-- The hash tells the contents of a history apart. -/
def Distinct (hist : List (Side × String)) : Prop :=
  ∀ y ∈ hist.map Prod.snd, ∀ z ∈ hist.map Prod.snd,
    hash_content libs (text_bytes y) = hash_content libs (text_bytes z) → y = z

/-- The hashes of a history. -/
def Seen (hist : List (Side × String)) (g : Hash) : Prop :=
  ∃ y ∈ hist.map Prod.snd, g = hash_content libs (text_bytes y)

/-- The clipboard of a side after a history. -/
def clip_after (hist : List (Side × String)) (t : Side) : Clip :=
  ((held t hist).map text_clip).getD .empty

/-- What a clipboard holds was copied at some time. -/
theorem mem_of_held (t : Side) (hist : List (Side × String)) (y : String)
    (h : held t hist = some y) : y ∈ hist.map Prod.snd := by
  induction hist with
  | nil => cases h
  | cons e older ih =>
      rw [held] at h
      split at h
      · rw [← Option.some.inj h]
        exact List.mem_cons_self
      · exact List.mem_cons_of_mem _ (ih h)

/-- What a history leaves on a clipboard, a poll has seen. -/
theorem seen_clip_after (hist : List (Side × String)) (hne : ∀ e ∈ hist, e.2 ≠ "") (t : Side)
    (format : ClipboardFormat) (b : List UInt8)
    (h : (clip_after hist t).detect = some (format, b)) : Seen libs hist (hash_content libs b) := by
  cases hheld : held t hist with
  | none =>
      rw [clip_after, hheld] at h
      cases h
  | some y =>
      have hmem := mem_of_held t hist y hheld
      obtain ⟨e, he, hey⟩ := List.mem_map.mp hmem
      have hdet : (clip_after hist t).detect = some (.PlainText, text_bytes y) := by
        rw [clip_after, hheld, Option.map_some, Option.getD_some,
          detect_text y (hey ▸ hne e he)]
      rw [hdet] at h
      rw [← (Prod.mk.inj (Option.some.inj h)).2]
      exact ⟨y, hmem, rfl⟩

/-- Quietness depends on the set of known hashes and on the contents of the clipboards,
however they are described. -/
theorem Quiet.congr {K K' : Hash → Prop} {clips clips' : Side → Clip} {pair : ClipboardPair}
    (h : Quiet K clips pair) (hK : ∀ g, K' g ↔ K g) (hclips : ∀ t, clips' t = clips t) :
    Quiet K' clips' pair :=
  ⟨fun t => (h.clip t).trans (hclips t).symm, h.chan, fun t g => (h.known t g).trans (hK g).symm,
    h.last⟩

/-- A hash that tells a history apart tells its beginning apart. -/
theorem Distinct.tail {e : Side × String} {older : List (Side × String)}
    (h : Distinct libs (e :: older)) : Distinct libs older :=
  fun y hy z hz => h y (List.mem_cons_of_mem _ hy) z (List.mem_cons_of_mem _ hz)

/-- One more copy is one more known hash. -/
theorem seen_cons (s : Side) (x : String) (older : List (Side × String)) (g : Hash) :
    Seen libs ((s, x) :: older) g ↔
      Seen libs older g ∨ g = hash_content libs (text_bytes x) := by
  simp only [Seen, List.map_cons, List.mem_cons, exists_eq_or_imp]
  exact or_comm

/-- A copy of known content moves nothing else, whatever the schedule. -/
theorem Quiet.round_known {older : List (Side × String)} {pair : ClipboardPair}
    (h : Quiet (Seen libs older) (clip_after older) pair) (s : Side) (x : String)
    (schedule : List ClipboardStep) (hsched : ∀ a ∈ schedule, ∀ t c, a ≠ .copy t c)
    (hne : ∀ e ∈ (s, x) :: older, e.2 ≠ "") (hmem : x ∈ older.map Prod.snd) :
    Quiet (Seen libs ((s, x) :: older)) (clip_after ((s, x) :: older))
      (round libs pair s x schedule) := by
  -- the copy brings a text that was copied before, so nothing is announced
  have hclips : ∀ t format b,
      (Function.update (clip_after older) s (text_clip x) t).detect = some (format, b) →
        Seen libs older (hash_content libs b) := by
    intro t format b hdet
    rcases eq_or_ne t s with rfl | ht
    · rw [Function.update_self, detect_text x (hne (t, x) List.mem_cons_self)] at hdet
      rw [← (Prod.mk.inj (Option.some.inj hdet)).2]
      exact ⟨x, hmem, rfl⟩
    · rw [Function.update_of_ne ht] at hdet
      exact seen_clip_after libs older (fun e he => hne e (List.mem_cons_of_mem _ he)) t format b
        hdet
  refine (Quiet.run libs hclips schedule hsched _ (h.copy libs s (text_clip x))).congr
    (fun g => ?_) (fun t => ?_)
  · rw [seen_cons]
    refine or_iff_left_of_imp ?_
    rintro rfl
    exact ⟨x, hmem, rfl⟩
  · rcases eq_or_ne t s with rfl | ht
    · rw [Function.update_self, clip_after, held, if_pos (.inl rfl)]
      rfl
    · rw [Function.update_of_ne ht, clip_after, held,
        if_neg (not_or.mpr ⟨ht.symm, not_not.mpr hmem⟩)]
      rfl

/-- A copy of new content is an exchange, whatever the schedule. -/
theorem Quiet.round_new {older : List (Side × String)} {pair : ClipboardPair}
    (h : Quiet (Seen libs older) (clip_after older) pair) (s : Side) (x : String)
    (schedule : List ClipboardStep) (hsched : ∀ a ∈ schedule, ∀ t c, a ≠ .copy t c)
    (hne : ∀ e ∈ (s, x) :: older, e.2 ≠ "") (hdistinct : Distinct libs ((s, x) :: older))
    (hmem : x ∉ older.map Prod.snd) :
    Exchange libs s x (Seen libs older) (clip_after older s.other)
      (schedule.foldl (Stage.next s) .copied) (round libs pair s x schedule) := by
  have hnew : ¬ Seen libs older (hash_content libs (text_bytes x)) := by
    rintro ⟨y, hy, hhash⟩
    have hxy := hdistinct x List.mem_cons_self y (List.mem_cons_of_mem _ hy) hhash
    exact hmem (hxy ▸ hy)
  exact Exchange.run (hne (s, x) List.mem_cons_self) hnew
    (seen_clip_after libs older (fun e he => hne e (List.mem_cons_of_mem _ he)) s.other)
    schedule hsched .copied _ (h.start s x)

/-- Once settled, new content is where `held` says. -/
theorem Exchange.quiet_round {older : List (Side × String)} {pair : ClipboardPair} {s : Side}
    {x : String}
    (h : Exchange libs s x (Seen libs older) (clip_after older s.other) .settled pair)
    (hmem : x ∉ older.map Prod.snd) :
    Quiet (Seen libs ((s, x) :: older)) (clip_after ((s, x) :: older)) pair := by
  refine h.quiet.congr (seen_cons libs s x older) ?_
  intro t
  rw [clip_after, held, if_pos (.inr hmem)]
  rfl

/-- **Where sync settles.** After a settled run the pair is quiet, and each
clipboard holds the newest copy that reached it. -/
theorem quiet_of_settledRun (ids : Side → PeerId) (pair : ClipboardPair)
    (hist : List (Side × String)) (hrun : SettledRun libs ids pair hist)
    (hne : ∀ e ∈ hist, e.2 ≠ "") (hdistinct : Distinct libs hist) :
    Quiet (Seen libs hist) (clip_after hist) pair := by
  induction hrun with
  | start =>
      refine ⟨fun t => rfl, fun t => rfl, ?_, fun t => nofun⟩
      intro t g
      simp [Seen, ClipboardPair.new, ClipboardManager.new, Known, OriginatorRegistry.new,
        OriginatorRegistry.originator]
  | @round pair older s x schedule hrun hsched hpoll hrest ih =>
      have hquiet := ih (fun e he => hne e (List.mem_cons_of_mem _ he)) hdistinct.tail
      by_cases hmem : x ∈ older.map Prod.snd
      · exact hquiet.round_known libs s x schedule hsched hne hmem
      · have hexchange := hquiet.round_new libs s x schedule hsched hne hdistinct hmem
        have hsettled := hexchange.at_rest
          (Stage.foldl_ne_copied s schedule .copied (.inr (hpoll s))) hrest
        rw [hsettled] at hexchange
        exact hexchange.quiet_round libs hmem

/-- A schedule that always settles. -/
def settling (s : Side) : List ClipboardStep :=
  [.poll s, .poll s.other, .deliver s, .deliver s.other, .deliver s]

/-- Every history has a settled run. -/
theorem settledRun_exists (ids : Side → PeerId) (hist : List (Side × String))
    (hne : ∀ e ∈ hist, e.2 ≠ "") (hdistinct : Distinct libs hist) :
    ∃ pair, SettledRun libs ids pair hist := by
  induction hist with
  | nil => exact ⟨_, .start⟩
  | cons e older ih =>
      obtain ⟨s, x⟩ := e
      have hne' : ∀ e ∈ older, e.2 ≠ "" := fun e he => hne e (List.mem_cons_of_mem _ he)
      obtain ⟨pair, hrun⟩ := ih hne' hdistinct.tail
      have hquiet := quiet_of_settledRun libs ids pair older hrun hne' hdistinct.tail
      have hsched : ∀ a ∈ settling s, ∀ t c, a ≠ .copy t c := by simp [settling]
      have hpoll : ∀ t, .poll t ∈ settling s := by
        intro t
        rcases s.eq_or_other t with rfl | rfl <;> simp [settling]
      refine ⟨_, .round s x (settling s) hrun hsched hpoll ?_⟩
      intro t
      -- a text seen before moves nothing, a new one goes through its exchange
      by_cases hmem : x ∈ older.map Prod.snd
      · exact (hquiet.round_known libs s x _ hsched hne hmem).chan t
      · have hexchange := hquiet.round_new libs s x _ hsched hne hdistinct hmem
        have hsettled : (settling s).foldl (Stage.next s) .copied = .settled := by
          cases s <;> rfl
        rw [hsettled] at hexchange
        exact hexchange.quiet.chan t

/-- Clipboards agree on a text exactly when the texts are the same. -/
theorem text_clip_inj (x y : String) : text_clip x = text_clip y ↔ x = y := by
  simp [text_clip]

/-- Libraries to run the model with: the digest of a text is its first bytes. -/
def first_bytes : ClipboardLibs :=
  { blake3 := fun bytes => Vector.ofFn (fun i => bytes.getD i 0), decodes_png := fun _ => true }

/-- Two peer ids. -/
def two_ids : Side → PeerId
  | .A => ⟨Vector.replicate 16 7⟩
  | .B => ⟨Vector.replicate 16 8⟩

end InputSync
