/-
A stream of frames while it is being written and read.

A frame goes out in any number of pieces, and the stream may end within one, so what
a reader finds is not a list of messages. `Flow` is the invariant of such a stream:
what was read, what was begun to be written, and how the bytes on the way and those
not yet written make up the frames between the two.
-/
import InputSync.Stream

set_option autoImplicit false

namespace InputSync

open InputSync.Bincode (serialize)

/-! ## Frames on the way

Between the messages read and the messages whose writing has begun lie frames. Their
bytes are what can be read, followed by what is not yet written; a stream that ended may
have lost its tail, so for it only a prefix is promised. -/

/-- `read_exact` is still waiting, or found the stream at its end. -/
def StreamError.short : StreamError → Bool
  | .read_header | .read_payload => true
  | _ => false

/-- A part of a frame is short of it. -/
theorem read_message_cut {frame bytes : List UInt8} {m : Message}
    (hframe : encode_frame m = .ok frame) (h : bytes <+: frame)
    (hlen : bytes.length < frame.length) :
    ∃ e, (read_message bytes).1 = .error e ∧ e.short = true := by
  rw [encode_frame] at hframe
  split_ifs at hframe with hbig
  have hmax : MAX_PAYLOAD_SIZE.toNat = 67108864 := rfl
  set payload := serialize m
  set header := Header.new m.message_type (UInt32.ofNat payload.length) with hheader
  obtain rfl : header.encode ++ payload = frame := Except.ok.inj hframe
  have hsize := header.encode_length
  by_cases hshort : bytes.length < Header.SIZE
  · exact ⟨_, by rw [read_message_short bytes hshort], rfl⟩
  · obtain ⟨body, rfl⟩ : ∃ body, bytes = header.encode ++ body := by
      obtain ⟨body, hbody⟩ := List.prefix_of_prefix_length_le (List.prefix_append _ _) h (by omega)
      exact ⟨body, hbody.symm⟩
    have hlength : header.length.toNat = payload.length := by
      rw [hheader, Header.new, UInt32.toNat_ofNat', Nat.mod_eq_of_lt (by omega)]
    rw [List.length_append, List.length_append] at hlen
    exact ⟨.read_payload, by rw [read_message_header, if_pos (by omega)], rfl⟩

/-- A stream of frames. `sent` are the messages whose writing began and `read` those
that were read; `unwritten` is what is still to be written of the last one, and
`bytes` what can be read, which is all that was written unless the stream `ended`. -/
structure Flow (sent read : List Message) (unwritten bytes : List UInt8) (ended : Bool) : Prop where
  frames : ∃ (pending : List Message) (frames : List (List UInt8)) (written : List UInt8),
    sent = read ++ pending ∧ pending.map encode_frame = frames.map Except.ok ∧
      written ++ unwritten = frames.flatten ∧ bytes <+: written ∧
      (ended = false → bytes = written)

namespace Flow

variable {sent read : List Message} {unwritten bytes : List UInt8} {ended : Bool}

/-- Nothing was written, and nothing is on the way. -/
theorem new : Flow [] [] [] [] false :=
  ⟨[], [], [], rfl, rfl, rfl, List.nil_prefix, fun _ => rfl⟩

/-- What was read was sent, in that order. -/
theorem prefix_sent (h : Flow sent read unwritten bytes ended) : read <+: sent := by
  obtain ⟨pending, -, -, rfl, -⟩ := h.frames
  exact List.prefix_append _ _

/-- The writer begins with another message. -/
theorem begin (h : Flow sent read [] bytes ended) {m : Message} {frame : List UInt8}
    (hframe : encode_frame m = .ok frame) : Flow (sent ++ [m]) read frame bytes ended := by
  obtain ⟨pending, frames, written, rfl, hframes, hall, hbytes, hopen⟩ := h.frames
  refine ⟨pending ++ [m], frames ++ [frame], written, by rw [List.append_assoc], ?_, ?_, hbytes,
    hopen⟩
  · rw [List.map_append, List.map_append, hframes, List.map_singleton, List.map_singleton, hframe]
  · rw [List.append_nil] at hall
    rw [hall, List.flatten_append, List.flatten_singleton]

/-- The writer puts out a piece of what it has not written, however small. Only an open
stream takes it. -/
theorem write (h : Flow sent read unwritten bytes false) (n : Nat) :
    Flow sent read (unwritten.drop n) (bytes ++ unwritten.take n) false := by
  obtain ⟨pending, frames, written, hsent, hframes, hall, -, hopen⟩ := h.frames
  obtain rfl := hopen rfl
  refine ⟨pending, frames, _, hsent, hframes, ?_, List.prefix_rfl, fun _ => rfl⟩
  rw [List.append_assoc, List.take_append_drop, hall]

/-- **The reader** takes the first message that was not read, or is short of its
frame. -/
theorem front (h : Flow sent read unwritten bytes ended) :
    (∃ m rest, read_message bytes = (.ok m, rest) ∧
      Flow sent (read ++ [m]) unwritten rest ended) ∨
    ∃ e, (read_message bytes).1 = .error e ∧ e.short = true := by
  obtain ⟨pending, frames, written, rfl, hframes, hall, hbytes, hopen⟩ := h.frames
  have hle : bytes <+: frames.flatten := hall ▸ hbytes.trans (List.prefix_append _ _)
  -- nothing pending means nothing to read; otherwise the first frame has arrived whole
  -- or it has not
  cases pending with
  | nil =>
      obtain rfl := List.map_eq_nil_iff.mp hframes.symm
      obtain rfl := List.prefix_nil.mp hle
      exact .inr ⟨_, by rw [read_message_short [] (by decide)], rfl⟩
  | cons m pending =>
      cases frames with
      | nil => cases hframes
      | cons frame frames =>
          rw [List.map_cons, List.map_cons] at hframes
          obtain ⟨hframe, hframes⟩ := List.cons.inj hframes
          rw [List.flatten_cons] at hall hle
          by_cases hlen : frame.length ≤ bytes.length
          -- whole: it is the next message, and the rest is as before
          · left
            obtain ⟨rest, rfl⟩ := List.prefix_of_prefix_length_le (List.prefix_append _ _) hle hlen
            obtain ⟨more, rfl⟩ := hbytes
            rw [List.append_assoc, List.append_assoc] at hall
            refine ⟨m, rest, read_message_encode m frame rest hframe, pending, frames, rest ++ more,
              by rw [List.append_assoc]; rfl, hframes, ?_, List.prefix_append _ _, ?_⟩
            · rw [List.append_assoc]
              exact List.append_cancel_left hall
            · intro hend
              rw [List.append_assoc] at hopen
              exact List.append_cancel_left (hopen hend)
          -- cut: what there is is a proper prefix of one frame, which is not yet a
          -- message
          · have hcut : bytes <+: frame :=
              List.prefix_of_prefix_length_le hle (List.prefix_append _ _) (by omega)
            exact .inr (read_message_cut hframe hcut (by omega))

/-- A successful read takes the oldest frame that was not read, because `front` leaves
it no other. -/
theorem take (h : Flow sent read unwritten bytes ended) {m : Message} {rest : List UInt8}
    (hread : read_message bytes = (.ok m, rest)) : Flow sent (read ++ [m]) unwritten rest ended := by
  rcases h.front with ⟨m', rest', hread', hnext⟩ | ⟨e, he, -⟩
  · rw [hread] at hread'
    cases hread'
    exact hnext
  · rw [hread] at he
    cases he

/-- A read of such a stream can only fail for want of bytes: what is there is the
beginning of a frame, never something else. -/
theorem short (h : Flow sent read unwritten bytes ended) {e : StreamError}
    (hread : (read_message bytes).1 = .error e) : e.short = true := by
  rcases h.front with ⟨m, rest, hread', -⟩ | ⟨e', he', hshort⟩
  · rw [hread'] at hread
    cases hread
  · rw [hread] at he'
    cases he'
    exact hshort

/-- The stream ends, perhaps with a loss of what was on its way. -/
theorem lose (h : Flow sent read unwritten bytes ended) (n : Nat) :
    Flow sent read unwritten (bytes.take n) true := by
  obtain ⟨pending, frames, written, hsent, hframes, hall, hbytes, -⟩ := h.frames
  exact ⟨pending, frames, written, hsent, hframes, hall, (List.take_prefix n bytes).trans hbytes,
    by rintro ⟨⟩⟩

/-- The writer closes the stream. Unlike a loss, this keeps all that is on the way. -/
theorem finish (h : Flow sent read unwritten bytes ended) : Flow sent read unwritten bytes true := by
  have hall := h.lose bytes.length
  rwa [List.take_length] at hall

/-- Who has read everything has read it to the end. -/
theorem written (h : Flow sent sent unwritten bytes ended) : unwritten = [] := by
  obtain ⟨pending, frames, written, hsent, hframes, hall, -⟩ := h.frames
  obtain rfl := List.self_eq_append_right.mp hsent
  obtain rfl := List.map_eq_nil_iff.mp hframes.symm
  exact (List.append_eq_nil_iff.mp hall).2

/-- All was written and nothing more can be read: then all was read. -/
theorem all_read (h : Flow sent read [] bytes false)
    (hread : ∀ m, (read_message bytes).1 ≠ .ok m) : read = sent := by
  obtain ⟨pending, frames, written, rfl, hframes, hall, -, hopen⟩ := h.frames
  obtain rfl := hopen rfl
  rw [List.append_nil] at hall
  cases pending with
  | nil => rw [List.append_nil]
  | cons m pending =>
      cases frames with
      | nil => cases hframes
      | cons frame frames =>
          rw [List.map_cons, List.map_cons] at hframes
          obtain ⟨hframe, -⟩ := List.cons.inj hframes
          rw [hall, List.flatten_cons, read_message_encode m frame _ hframe] at hread
          exact absurd rfl (hread m)

end Flow

/-- A message takes its header off the stream at least. -/
theorem read_message_takes {bytes rest : List UInt8} {m : Message}
    (h : read_message bytes = (.ok m, rest)) : rest.length + Header.SIZE ≤ bytes.length := by
  by_cases hshort : bytes.length < Header.SIZE
  · rw [read_message_short bytes hshort] at h
    cases h
  · have hrest : rest = (bytes.drop Header.SIZE).drop
        (Header.decode_head bytes hshort).length.toNat := by
      rw [read_message, dif_neg hshort] at h
      simp only at h
      split at h
      · cases h
      · split at h <;> exact (congrArg Prod.snd h).symm
    rw [hrest, List.length_drop, List.length_drop]
    omega

/-- Only the length of a message keeps it from being written. -/
theorem write_message_cases (m : Message) :
    (∃ frame, write_message m = .ok frame ∧ encode_frame m = .ok frame) ∨
      ∃ length, write_message m = .error (.encode (.PayloadTooLarge length)) := by
  unfold write_message
  cases hm : encode_frame m with
  | ok frame => exact .inl ⟨frame, rfl, rfl⟩
  | error e =>
      rw [encode_frame] at hm
      split_ifs at hm
      obtain rfl := Except.error.inj hm
      exact .inr ⟨_, rfl⟩

end InputSync
