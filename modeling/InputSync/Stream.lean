/-
One direction of a connection (`crates/network/src/stream.rs` and the two
control loops of `peer_loop.rs`): `write_message` and `read_message` on a byte
stream, `write_loop` and `read_loop` around them.

A QUIC stream is a FIFO of bytes. The writer is modelled by the bytes it puts
on the stream and the reader by a function of the bytes that are still to
come, so a message is delivered when the reader finds it at the head. The
reader re-implements the framing around `decode_frame`; `read_message_encode`
is the one fact about it the loops need, and `read_loop_write_loop` says that
a queue of messages that fit arrives as it was queued.
-/
import InputSync.Frame

set_option autoImplicit false

namespace InputSync

open InputSync.Bincode (serialize deserialize)

/-- What a stream helper fails with: `Error::Protocol` for `encode`, `decode`
and `no_message`, `Error::Network` for the others. -/
inductive StreamError
  | encode (e : FrameError)
  | write
  | read_header
  | read_payload
  | decode (e : FrameError)
  | no_message
deriving DecidableEq

/-- `write_message` on a stream whose writes succeed: the bytes written. -/
def write_message (msg : Message) : Except StreamError (List UInt8) :=
  (encode_frame msg).mapError .encode

/-- `read_message` on a stream that holds `r` and then ends: the result, and
the bytes left unread. -/
def read_message (r : List UInt8) : Except StreamError Message × List UInt8 :=
  if h : r.length < Header.SIZE then (.error .read_header, [])
  else
    let header_buf := r.take Header.SIZE
    let header := Header.decode_head r h
    let body := r.drop Header.SIZE
    let len := header.length.toNat
    if len ≠ 0 ∧ body.length < len then (.error .read_payload, [])
    else
      let framed := header_buf ++ body.take len
      match decode_frame framed with
      | .error e => (.error (.decode e), body.drop len)
      | .ok none => (.error .no_message, body.drop len)
      | .ok (some (msg, _)) => (.ok msg, body.drop len)

/-- A message taken off the stream leaves a shorter stream. -/
theorem read_message_rest_length (r rest : List UInt8) (msg : Message)
    (h : read_message r = (.ok msg, rest)) : rest.length < r.length := by
  rw [read_message] at h
  by_cases hshort : r.length < Header.SIZE
  · rw [dif_pos hshort] at h
    cases h
  · rw [dif_neg hshort] at h
    have hrest : rest = (r.drop Header.SIZE).drop (Header.decode_head r hshort).length.toNat := by
      simp only at h
      split at h
      · cases h
      · split at h <;> exact (congrArg Prod.snd h).symm
    rw [hrest, List.length_drop, List.length_drop]
    simp only [Header.SIZE] at hshort ⊢
    omega

/-- **One message.** A frame at the head of the stream is read as its message,
and exactly its bytes are taken. -/
theorem read_message_encode (msg : Message) (frame rest : List UInt8)
    (h : encode_frame msg = .ok frame) : read_message (frame ++ rest) = (.ok msg, rest) := by
  have hdecode := decode_encode_frame msg frame [] h
  rw [List.append_nil] at hdecode
  rw [encode_frame] at h
  split_ifs at h with hbig
  have hmax : MAX_PAYLOAD_SIZE.toNat = 67108864 := rfl
  set payload := serialize msg
  set header := Header.new msg.message_type (UInt32.ofNat payload.length) with hheader
  obtain rfl : header.encode ++ payload = frame := Except.ok.inj h
  have hsize := header.encode_length
  have hlen : header.length.toNat = payload.length := by
    rw [hheader, Header.new, UInt32.toNat_ofNat', Nat.mod_eq_of_lt (by omega)]
  rw [List.append_assoc] at *
  rw [read_message, dif_neg (by rw [List.length_append, hsize]; omega)]
  simp only [Header.decode_head_encode, List.take_left' hsize, List.drop_left' hsize, hlen]
  rw [if_neg (by simp only [List.length_append]; omega), List.take_left' rfl, List.drop_left' rfl,
    hdecode]

/-! ## The two readers

`read_message` pulls a header and then a payload from the stream, while `decode_frame`
looks at a buffer. Behind an encoded header both are `decode_body` on the payload, and
`readers_agree` compares them there. -/

/-- A stream that ends inside a header ends the read, and what was there is gone with
it. -/
theorem read_message_short (r : List UInt8) (h : r.length < Header.SIZE) :
    read_message r = (.error .read_header, []) := by
  rw [read_message, dif_pos h]

/-- The reader behind its header: it waits for the payload the header
announces, and hands header and payload to the decoder. -/
theorem read_message_header (header : Header) (body : List UInt8) :
    read_message (header.encode ++ body)
      = if body.length < header.length.toNat then (.error .read_payload, [])
        else
          match decode_body header (body.take header.length.toNat) with
          | .error e => (.error (.decode e), body.drop header.length.toNat)
          | .ok none => (.error .no_message, body.drop header.length.toNat)
          | .ok (some (msg, _)) => (.ok msg, body.drop header.length.toNat) := by
  have hsize := header.encode_length
  rw [read_message, dif_neg (by rw [List.length_append, hsize]; omega)]
  simp only [Header.decode_head_encode, List.take_left' hsize, List.drop_left' hsize,
    decode_frame_encode]
  by_cases hshort : body.length < header.length.toNat
  · rw [if_pos hshort, if_pos ⟨by omega, hshort⟩]
  · rw [if_neg hshort, if_neg (fun h => hshort h.2)]

/-- The decoder does not look past the payload. -/
theorem decode_body_take (header : Header) (body : List UInt8)
    (h : ¬ body.length < header.length.toNat) :
    decode_body header (body.take header.length.toNat) = decode_body header body := by
  have hlen : (body.take header.length.toNat).length = header.length.toNat := by
    rw [List.length_take]
    omega
  simp only [decode_body, hlen, List.take_take, Nat.min_self, lt_irrefl, h, if_false]

/-- A message comes with the count its header announces. -/
theorem decode_body_some (header : Header) (body : List UInt8) (msg : Message) (n : Nat)
    (h : decode_body header body = .ok (some (msg, n))) :
    ¬ body.length < header.length.toNat ∧ n = Header.SIZE + header.length.toNat := by
  rw [decode_body] at h
  split_ifs at h with hmagic hversion hlength hbody
  · cases h
  · refine ⟨hbody, ?_⟩
    split at h
    · cases h
    · split at h
      · cases h
      · simp only [Except.ok.injEq, Option.some.injEq, Prod.mk.injEq] at h
        exact h.2.symm

/-- **The readers agree on one message.** -/
theorem read_message_iff (b : List UInt8) (msg : Message) (n : Nat) :
    (n ≤ b.length ∧ read_message b = (.ok msg, b.drop n)) ↔
      decode_frame b = .ok (some (msg, n)) := by
  by_cases hshort : b.length < Header.SIZE
  · rw [read_message_short b hshort, decode_frame_short b hshort]
    exact iff_of_false (by rintro ⟨-, ⟨⟩⟩) (by rintro ⟨⟩)
  · obtain ⟨header, hb⟩ := exists_header b (by omega)
    generalize b.drop Header.SIZE = body at hb
    subst hb
    have hdrop : ∀ k, (header.encode ++ body).drop (Header.SIZE + k) = body.drop k := by
      intro k
      rw [← header.encode_length, List.drop_length_add_append]
    rw [read_message_header, decode_frame_encode]
    by_cases hbody : body.length < header.length.toNat
    · rw [if_pos hbody]
      refine iff_of_false (by rintro ⟨-, ⟨⟩⟩) ?_
      intro h
      exact (decode_body_some header body msg n h).1 hbody
    · rw [if_neg hbody, decode_body_take header body hbody]
      constructor
      · rintro ⟨hn, h⟩
        split at h
        · cases h
        · cases h
        · rename_i msg' n' hdec
          obtain ⟨hmsg, hrest⟩ := Prod.mk.inj h
          obtain ⟨-, hn'⟩ := decode_body_some header body msg' n' hdec
          -- both counts leave the same bytes behind
          have hlen := congrArg List.length hrest
          rw [List.length_drop, List.length_drop] at hlen
          rw [List.length_append, header.encode_length] at hn hlen
          rw [hdec, Except.ok.inj hmsg, show n = n' by omega]
      · intro h
        obtain ⟨-, hn⟩ := decode_body_some header body msg n h
        rw [h, hn, hdrop]
        refine ⟨?_, rfl⟩
        rw [List.length_append, header.encode_length]
        omega

/-- `decode produced no message` is not reached: the decoder is handed a whole
frame. -/
theorem read_message_ne_no_message (b : List UInt8) :
    (read_message b).1 ≠ .error .no_message := by
  by_cases hshort : b.length < Header.SIZE
  · rw [read_message_short b hshort]
    rintro ⟨⟩
  · obtain ⟨header, hb⟩ := exists_header b (by omega)
    rw [hb, read_message_header]
    by_cases hbody : (b.drop Header.SIZE).length < header.length.toNat
    · rw [if_pos hbody]
      rintro ⟨⟩
    · rw [if_neg hbody, decode_body_take _ _ hbody]
      split
      · rintro ⟨⟩
      · rename_i hnone
        exact absurd (decode_body_none _ _ hnone).1 hbody
      · rintro ⟨⟩

/-- `read_message` over and over: the messages, what the stream held at the
read that failed, and how it failed. -/
def read_messages (r : List UInt8) : List Message × List UInt8 × StreamError :=
  match _h : read_message r with
  | (.error e, _) => ([], r, e)
  | (.ok msg, rest) =>
    let tail := read_messages rest
    (msg :: tail.1, tail.2)
termination_by r.length
decreasing_by exact read_message_rest_length r rest msg _h

/-- On an empty stream the first read fails. -/
theorem read_messages_nil : read_messages [] = ([], [], .read_header) := by
  rw [read_messages]
  rfl

/-- A frame at the head of the stream contributes its message. `read_messages` is a
well-founded recursion; this and `read_messages_nil` are its equations on what a writer
wrote. -/
theorem read_messages_frame (msg : Message) (frame rest : List UInt8)
    (h : encode_frame msg = .ok frame) :
    read_messages (frame ++ rest) = (msg :: (read_messages rest).1, (read_messages rest).2) := by
  rw [read_messages]
  split
  all_goals rename_i heq; rw [read_message_encode msg frame rest h, Prod.mk.injEq] at heq
  · cases heq.1
  · rw [Except.ok.inj heq.1, heq.2]

/-- What `write_message` puts on the stream is the frame. -/
theorem write_message_ok {msg : Message} {bytes : List UInt8} (h : write_message msg = .ok bytes) :
    encode_frame msg = .ok bytes := by
  unfold write_message at h
  cases hm : encode_frame msg with
  | error e => rw [hm] at h; cases h
  | ok frame => rw [hm] at h; exact congrArg Except.ok (Except.ok.inj h)

/-- A list of messages written one after the other is read back, and the read
after the last one finds the stream at its end. -/
theorem read_messages_written (msgs : List Message) (written : List (List UInt8))
    (h : msgs.mapM write_message = .ok written) :
    read_messages written.flatten = (msgs, [], .read_header) := by
  induction msgs generalizing written with
  | nil =>
      obtain rfl : written = [] := (Except.ok.inj h).symm
      exact read_messages_nil
  | cons m msgs ih =>
      rw [List.mapM_cons] at h
      cases hm : write_message m with
      | error e => rw [hm] at h; cases h
      | ok bytes =>
          cases htail : msgs.mapM write_message with
          | error e => rw [hm, htail] at h; cases h
          | ok tail =>
              rw [hm, htail] at h
              obtain rfl : written = bytes :: tail := (Except.ok.inj h).symm
              rw [List.flatten_cons, read_messages_frame m bytes _ (write_message_ok hm),
                ih tail htail]

/-- **The two frame readers agree.** On any bytes `read_message` returns a
message and takes `n` bytes exactly when `decode_frame` does; it never finds
that the decoder produced none; and what `write_message` wrote, message after
message, is read back in order, up to the end of the stream. -/
theorem readers_agree :
    (∀ b msg n, (n ≤ b.length ∧ read_message b = (.ok msg, b.drop n)) ↔
      decode_frame b = .ok (some (msg, n))) ∧
    (∀ b, (read_message b).1 ≠ .error .no_message) ∧
    (∀ msgs written, msgs.mapM write_message = .ok written →
      read_messages written.flatten = (msgs, [], .read_header)) :=
  ⟨read_message_iff, read_message_ne_no_message, read_messages_written⟩

/-- A ping and a goodbye through the stream. -/
theorem readers_agree_two :
    ∃ written, [Message.Ping 1 2, .Goodbye ⟨"bye"⟩].mapM write_message = .ok written ∧
      read_messages written.flatten = ([.Ping 1 2, .Goodbye ⟨"bye"⟩], [], .read_header) :=
  ⟨_, rfl, readers_agree.2.2 [.Ping 1 2, .Goodbye ⟨"bye"⟩] _ rfl⟩

/-! ## Refusing a header

`decode_frame` checks the header before it looks at the payload.
`read_message` has made room for the payload and read it by then. -/

/-- The room `read_message` makes for a payload, as soon as it has a header:
`vec![0u8; header.length as usize]`. -/
def payload_reserved (r : List UInt8) : Nat :=
  if h : r.length < Header.SIZE then 0 else (Header.decode_head r h).length.toNat

/-- The bytes it takes off the stream behind the header. -/
def payload_consumed (r : List UInt8) : Nat :=
  (r.drop Header.SIZE).length - (read_message r).2.length

/-- A wrong magic, a wrong version or a length above the cap. -/
def Header.Bad (self : Header) : Prop :=
  self.magic ≠ MAGIC ∨ self.version ≠ PROTOCOL_VERSION ∨ self.length > MAX_PAYLOAD_SIZE

/-- No more than the cap is reserved or taken, and a bad header is refused as
the decoder refuses it, with nothing taken behind it. -/
structure RefusesEarly (r : List UInt8) : Prop where
  reserved : payload_reserved r ≤ MAX_PAYLOAD_SIZE.toNat
  consumed : payload_consumed r ≤ MAX_PAYLOAD_SIZE.toNat
  refused : ∀ (header : Header) (body : List UInt8), r = header.encode ++ body → header.Bad →
    ∃ e, decode_frame header.encode = .error e ∧ read_message r = (.error (.decode e), body)

/-- The room made for a payload is what the header announces, unchecked: the cap is only
compared once the payload has been read. -/
theorem payload_reserved_header (header : Header) (body : List UInt8) :
    payload_reserved (header.encode ++ body) = header.length.toNat := by
  rw [payload_reserved, dif_neg (by rw [List.length_append, header.encode_length]; omega),
    header.decode_head_encode]

/-- The decoder needs no payload to refuse a bad header. -/
theorem decode_body_bad (header : Header) (h : header.Bad) :
    ∃ e, ∀ body, decode_body header body = .error e := by
  by_cases hmagic : header.magic ≠ MAGIC
  · exact ⟨_, fun body => by rw [decode_body, if_pos hmagic]⟩
  by_cases hversion : header.version ≠ PROTOCOL_VERSION
  · exact ⟨_, fun body => by rw [decode_body, if_neg hmagic, if_pos hversion]⟩
  · have hlength := (h.resolve_left hmagic).resolve_left hversion
    exact ⟨_, fun body => by
      rw [decode_body, if_neg hmagic, if_neg hversion, if_pos hlength]⟩

/-- A header that is not bad announces no more than the cap, so honest traffic never
reserves more. -/
theorem length_le_of_not_bad (header : Header) (h : ¬ header.Bad) :
    header.length.toNat ≤ MAX_PAYLOAD_SIZE.toNat := by
  rw [Header.Bad, not_or, not_or] at h
  exact UInt32.le_iff_toNat_le.mp (UInt32.not_lt.mp h.2.2)

/-- A read that gets its payload leaves what lies behind it. -/
theorem read_message_rest (header : Header) (body : List UInt8)
    (h : ¬ body.length < header.length.toNat) :
    (read_message (header.encode ++ body)).2 = body.drop header.length.toNat := by
  rw [read_message_header, if_neg h]
  split <;> rfl

/-- Behind a header the reader takes the announced number of bytes, or all there are. It
is the same for good and for bad headers, and that is the defect. -/
theorem payload_consumed_header (header : Header) (body : List UInt8) :
    payload_consumed (header.encode ++ body) = min body.length header.length.toNat := by
  rw [payload_consumed, ← header.encode_length, List.drop_left' rfl]
  by_cases h : body.length < header.length.toNat
  · rw [read_message_header, if_pos h, List.length_nil]
    omega
  · rw [read_message_rest header body h, List.length_drop]
    omega

/-- **When a bad header is refused in time.** Only when it announces no
payload. -/
theorem refuses_early_iff (r : List UInt8) :
    RefusesEarly r ↔ ∀ (header : Header) (body : List UInt8), r = header.encode ++ body →
      header.Bad → header.length = 0 := by
  constructor
  · intro h header body hr hbad
    obtain ⟨e, -, hread⟩ := h.refused header body hr hbad
    have hlen : header.length.toNat = 0 := by
      rw [hr] at hread
      by_cases hbody : body.length < header.length.toNat
      · -- the payload was waited for, and did not come
        rw [read_message_header, if_pos hbody] at hread
        cases hread
      · have hrest := congrArg List.length (read_message_rest header body hbody)
        rw [hread, List.length_drop] at hrest
        dsimp only at hrest
        omega
    exact UInt32.toNat_inj.mp hlen
  · intro h
    -- too short for a header, and so nothing is reserved
    by_cases hshort : r.length < Header.SIZE
    · refine ⟨by rw [payload_reserved, dif_pos hshort]; omega, ?_, ?_⟩
      · rw [payload_consumed, List.length_drop]
        omega
      · rintro header body rfl -
        rw [List.length_append, header.encode_length] at hshort
        omega
    · obtain ⟨header, hr⟩ := exists_header r (by omega)
      generalize r.drop Header.SIZE = body at hr
      subst hr
      -- a good header announces no more than the limit, a bad one nothing
      have hcap : header.length.toNat ≤ MAX_PAYLOAD_SIZE.toNat := by
        by_cases hbad : header.Bad
        · rw [h header body rfl hbad]
          exact Nat.zero_le _
        · exact length_le_of_not_bad header hbad
      refine ⟨by rw [payload_reserved_header]; exact hcap,
        by rw [payload_consumed_header]; omega, ?_⟩
      intro header' body' heq hbad
      obtain ⟨rfl, rfl⟩ := Header.encode_inj heq
      obtain ⟨e, he⟩ := decode_body_bad header hbad
      have hzero : header.length.toNat = 0 := by rw [h header body rfl hbad]; rfl
      refine ⟨e, ?_, ?_⟩
      · have hnil := decode_frame_encode header []
        rwa [List.append_nil, he] at hnil
      · rw [read_message_header, if_neg (by omega), he, hzero, List.drop_zero]

/-- **A bad header is not refused in time.** For four bytes the sender chose,
room for four gigabytes is made; and with a wrong magic the payload is read
before anyone looks. -/
theorem bad_headers_read_on :
    ¬ RefusesEarly (Header.new .Ping 0xFFFFFFFF).encode ∧
      ¬ RefusesEarly (({ Header.new .Ping 1 with magic := #v[0, 0, 0, 0] }).encode ++ [7]) := by
  constructor
  · intro h
    exact absurd h.reserved (by decide)
  · intro h
    obtain ⟨e, -, hread⟩ := h.refused _ _ rfl (.inl (by decide))
    have hrest : (read_message
      (({ Header.new .Ping 1 with magic := #v[0, 0, 0, 0] }).encode ++ [7])).2 = [] := by decide
    rw [hread] at hrest
    cases hrest

/-! ## The control loops

`write_loop` and `read_loop` are the two sides of the control stream. Both stop for good
at their first error. -/

/-- `write_loop` over the messages the outbound channel delivers, on a stream
whose writes succeed: the bytes written. A message that does not encode ends
the loop. -/
def write_loop : List Message → List UInt8
  | [] => []
  | msg :: outbound =>
    match write_message msg with
    | .error _ => []
    | .ok bytes => bytes ++ write_loop outbound

/-- `read_loop`: the messages handed to the inbound channel until the first
read that fails. -/
def read_loop (r : List UInt8) : List Message :=
  match _h : read_message r with
  | (.error _, _) => []
  | (.ok msg, rest) => msg :: read_loop rest
termination_by r.length
decreasing_by exact read_message_rest_length r rest msg _h

/-- The loop ends with the stream. -/
theorem read_loop_nil : read_loop [] = [] := by
  rw [read_loop]
  rfl

/-- A frame at the head of the stream is handed to the inbound channel and the loop goes
on behind it. -/
theorem read_loop_frame (msg : Message) (frame rest : List UInt8)
    (h : encode_frame msg = .ok frame) : read_loop (frame ++ rest) = msg :: read_loop rest := by
  rw [read_loop]
  split
  all_goals rename_i heq; rw [read_message_encode msg frame rest h, Prod.mk.injEq] at heq
  · cases heq.1
  · rw [Except.ok.inj heq.1, heq.2]

/-- **FIFO delivery.** Messages that fit go through the writer, the stream and
the reader unchanged and in order. -/
theorem read_loop_write_loop (msgs : List Message)
    (hfit : ∀ m ∈ msgs, (serialize m).length ≤ MAX_PAYLOAD_SIZE.toNat) :
    read_loop (write_loop msgs) = msgs := by
  induction msgs with
  | nil => exact read_loop_nil
  | cons m msgs ih =>
      obtain ⟨frame, hm⟩ : ∃ frame, encode_frame m = .ok frame :=
        ⟨_, encode_frame_ok m (hfit m List.mem_cons_self)⟩
      have hwrite : write_loop (m :: msgs) = frame ++ write_loop msgs := by
        rw [write_loop, write_message, hm]
        rfl
      rw [hwrite, read_loop_frame m frame _ hm, ih (fun m' hm' => hfit m' (List.mem_cons_of_mem m hm'))]

/-! ## A message that does not encode

`write_loop` breaks at the first error of `write_message`, whether the stream
failed or the message was refused; and `run_peer_loop` returns when one of its
loops does. -/

/-- `write_loop` with what it broke at: nothing if it is still waiting for
messages. -/
def write_loop_run : List Message → List UInt8 × Option StreamError
  | [] => ([], none)
  | msg :: outbound =>
    match write_message msg with
    | .error e => ([], some e)
    | .ok bytes =>
      let r := write_loop_run outbound
      (bytes ++ r.1, r.2)

/-- The frames of the messages that encode, in order. -/
def frames_of (outbound : List Message) : List (List UInt8) :=
  outbound.filterMap (fun msg => (encode_frame msg).toOption)

/-- What the loop does on a queue: the messages up to the first one that is too
large are written, and the rest with it is lost. -/
theorem write_loop_run_eq (outbound : List Message) :
    (∀ msg ∈ outbound, (serialize msg).length ≤ MAX_PAYLOAD_SIZE.toNat) ∧
        write_loop_run outbound = ((frames_of outbound).flatten, none) ∨
      ∃ pre msg post, outbound = pre ++ msg :: post ∧
        MAX_PAYLOAD_SIZE.toNat < (serialize msg).length ∧
        write_loop_run outbound = ((frames_of pre).flatten,
          some (.encode (.PayloadTooLarge (UInt32.ofNat (serialize msg).length)))) := by
  -- the loop writes frames until one does not fit; that one ends it
  induction outbound with
  | nil => exact .inl ⟨by rintro _ ⟨⟩, rfl⟩
  | cons msg outbound ih =>
      by_cases hfit : (serialize msg).length ≤ MAX_PAYLOAD_SIZE.toNat
      · have hframe := encode_frame_ok msg hfit
        have hstep : write_loop_run (msg :: outbound)
            = ((Header.new msg.message_type (UInt32.ofNat (serialize msg).length)).encode
                ++ serialize msg ++ (write_loop_run outbound).1, (write_loop_run outbound).2) := by
          rw [write_loop_run, write_message, hframe]
          rfl
        have hframes : ∀ ms, frames_of (msg :: ms)
            = ((Header.new msg.message_type (UInt32.ofNat (serialize msg).length)).encode
                ++ serialize msg) :: frames_of ms := by
          intro ms
          rw [frames_of, List.filterMap_cons, hframe]
          rfl
        rcases ih with ⟨hall, hrun⟩ | ⟨pre, big, post, rfl, hbig, hrun⟩
        · refine .inl ⟨List.forall_mem_cons.mpr ⟨hfit, hall⟩, ?_⟩
          rw [hstep, hrun, hframes, List.flatten_cons]
        · refine .inr ⟨msg :: pre, big, post, rfl, hbig, ?_⟩
          rw [hstep, hrun, hframes, List.flatten_cons]
      · rw [not_le] at hfit
        refine .inr ⟨[], msg, outbound, rfl, hfit, ?_⟩
        rw [write_loop_run, write_message, encode_frame, if_pos hfit]
        rfl

/-- Every message that encodes is written, in order, and the loop goes on. -/
def LinkSpeaks (outbound : List Message) : Prop :=
  write_loop_run outbound = ((frames_of outbound).flatten, none)

/-- **When one bad message does not silence the link.** Only when there is
none. -/
theorem link_speaks_iff (outbound : List Message) :
    LinkSpeaks outbound ↔ ∀ msg ∈ outbound, (serialize msg).length ≤ MAX_PAYLOAD_SIZE.toNat := by
  rcases write_loop_run_eq outbound with ⟨hall, hrun⟩ | ⟨pre, msg, post, rfl, hbig, hrun⟩
  · exact iff_of_true hrun hall
  · refine iff_of_false ?_ ?_
    · intro h
      rw [LinkSpeaks, hrun] at h
      cases (Prod.mk.inj h).2
    · intro h
      exact absurd (h msg (by simp)) (not_le.mpr hbig)

/-- A clipboard image of one byte more than fits. -/
def large_image : Message :=
  .ClipboardData ⟨.Png, List.replicate (MAX_PAYLOAD_SIZE.toNat + 1) 0, ⟨Vector.replicate 16 0⟩,
    Vector.replicate 32 0⟩

/-- The image does not fit, by one byte in its data alone; the 64 megabytes are never
built, only measured. -/
theorem large_image_length : MAX_PAYLOAD_SIZE.toNat < (serialize large_image).length := by
  have hbytes : ∀ bs : List UInt8, (Codec.bytes.put bs).length = 8 + bs.length := by
    intro bs
    simp [Codec.bytes, Codec.vec]
  simp only [large_image, serialize, Bincode.message, Codec.tagged, Bincode.Message.body,
    Bincode.clipboard_payload, Codec.iso, Codec.via, Codec.seq, List.length_append, hbytes,
    List.length_replicate]
  omega

/-- **The link falls silent.** A large image, and a ping behind it: nothing is
written, and the loop has ended. -/
theorem large_image_silences :
    write_loop_run [large_image, .Ping 1 2]
        = ([], some (.encode (.PayloadTooLarge (UInt32.ofNat (serialize large_image).length)))) ∧
      ¬ LinkSpeaks [large_image, .Ping 1 2] := by
  have hrun : write_loop_run [large_image, .Ping 1 2]
      = ([], some (.encode (.PayloadTooLarge (UInt32.ofNat (serialize large_image).length)))) := by
    rw [write_loop_run, write_message, encode_frame, if_pos large_image_length]
    rfl
  refine ⟨hrun, fun h => ?_⟩
  rw [LinkSpeaks, hrun] at h
  cases (Prod.mk.inj h).2

/-! ## Input messages are small

The payload of a message the input router sends has a size that does not
depend on what the user does, so a frame of it is never refused. -/

/-- A button is its position, and for the one variant that carries an id one byte more.
-/
theorem button_put_length_le (b : Button) : (Bincode.button.put b).length ≤ 5 := by
  cases b <;> simp [Bincode.button, Codec.tagged, Bincode.Button.body]

/-- Thirteen bytes bound a mouse event; a button with its state is the longest. -/
theorem mouse_event_put_length_le (e : MouseEvent) : (Bincode.mouse_event.put e).length ≤ 13 := by
  cases e with
  | Button b state =>
      have hb := button_put_length_le b
      simp only [Bincode.mouse_event, Codec.tagged, Bincode.MouseEvent.body, Codec.seq,
        Bincode.key_state, List.length_append, Codec.u32_put_length, Codec.enumeration_put_length]
      omega
  | _ =>
      simp [Bincode.mouse_event, Codec.tagged, Bincode.MouseEvent.body, Codec.seq,
        Bincode.scroll_delta, Codec.iso, Codec.via]

/-- Fifteen bytes bound a key event, the optional character included. -/
theorem key_event_put_length_le (k : KeyEvent) : (Bincode.key_event.put k).length ≤ 15 := by
  obtain ⟨code, state, modifiers, character⟩ := k
  cases character <;>
    simp [Bincode.key_event, Codec.iso, Codec.via, Codec.seq, Codec.opt, Bincode.key_code,
      Bincode.key_state, Bincode.modifier_state]

/-- Whatever the event, its message fits in a frame. -/
theorem from_input_fits (ev : InputEvent) :
    (serialize (Message.from_input ev)).length ≤ MAX_PAYLOAD_SIZE.toNat := by
  have hmax : MAX_PAYLOAD_SIZE.toNat = 67108864 := rfl
  have hbody : (Bincode.Message.body (Message.from_input ev)).length ≤ 15 := by
    match ev with
    | .Key k => exact key_event_put_length_le k
    | .Mouse (.Button b state) => exact (mouse_event_put_length_le (.Button b state)).trans (by omega)
    | .Mouse (.Scroll d) => exact (mouse_event_put_length_le (.Scroll d)).trans (by omega)
    | .Mouse (.Move x y) | .Mouse (.MoveRelative dx dy) | .ScreenEnter x y m | .ScreenLeave s
    | .ModifierSync m =>
        simp [Message.from_input, Bincode.Message.body, Codec.seq, Bincode.modifier_state,
          Codec.iso, Codec.via]
  have hput : (serialize (Message.from_input ev)).length
      = 4 + (Bincode.Message.body (Message.from_input ev)).length := by
    simp only [serialize, Bincode.message, Codec.tagged, List.length_append, Codec.u32_put_length]
  omega

end InputSync
