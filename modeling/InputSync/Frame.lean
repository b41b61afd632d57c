/-
Frames (`crates/protocol/src/header.rs` and `codec.rs`): the twelve-byte
big-endian header, `encode_frame`, `write_frame` and `decode_frame`.

The decoder works on a buffer that may hold less than a frame, or more than
one. Both directions of the argument go through the header: a buffer of at
least twelve bytes *is* the encoding of the header it decodes to, followed by
something (`Header.encode_decode`), and on such a buffer `decode_frame` is
`decode_body` of that header and that rest (`decode_frame_encode`). What is
left is to compare lengths.

`frames_roundtrip` is the result: a list of messages written frame after frame
is read back message by message, and nothing of it is left over.
-/
import InputSync.Bincode

set_option autoImplicit false

namespace InputSync

open InputSync.Bincode (serialize deserialize)

/-! ## Header

Twelve bytes: the magic, the version, the id of the message's type and the length of the
payload. The lemmas say that headers and twelve-byte arrays are in bijection, in the
form each later proof needs it. -/

/-- "ISYN" — magic bytes at the start of every frame. -/
def MAGIC : Vector UInt8 4 := #v[0x49, 0x53, 0x59, 0x4E]

/-- Wire protocol version. -/
def PROTOCOL_VERSION : UInt16 := 1

/-- `Header`. Its fields are whatever the twelve bytes say; whether they make sense is
checked later. -/
structure Header where
  magic : Vector UInt8 4
  version : UInt16
  message_type : UInt16
  length : UInt32
deriving DecidableEq

namespace Header

/-- The length of an encoded header. -/
def SIZE : Nat := 12

/-- `Header::new`: this build's magic and version. -/
def new (message_type : MessageType) (length : UInt32) : Header :=
  { magic := MAGIC, version := PROTOCOL_VERSION, message_type := message_type.as_u16, length }

/-- `encode`, field after field in network order. -/
def encode (self : Header) : List UInt8 :=
  self.magic.toList ++ beBytes 2 self.version.toNat ++ beBytes 2 self.message_type.toNat ++
    beBytes 4 self.length.toNat

/-- `decode`. It takes an array of the right length, so it cannot fail. -/
def decode (bytes : Vector UInt8 12) : Header :=
  { magic := #v[bytes[0], bytes[1], bytes[2], bytes[3]]
    version := UInt16.ofNat (ofBeBytes [bytes[4], bytes[5]])
    message_type := UInt16.ofNat (ofBeBytes [bytes[6], bytes[7]])
    length := UInt32.ofNat (ofBeBytes [bytes[8], bytes[9], bytes[10], bytes[11]]) }

/-- The header has a fixed size. Every length in this file is a consequence of this one
and of `List.length_append`. -/
@[simp] theorem encode_length (self : Header) : self.encode.length = SIZE := by
  simp only [encode, List.length_append, Vector.length_toList, beBytes_length, SIZE]

/-- The header's bytes as the fixed array `decode` takes. -/
def encoded (self : Header) : Vector UInt8 12 := ⟨self.encode.toArray, by simp [SIZE]⟩

/-- A big-endian word in a machine integer comes back: `ofBeBytes_beBytes` with its
bound supplied by the type. The four lemmas of this group are the two directions at the
two widths a header uses. -/
private theorem u16_of_be (v : UInt16) : UInt16.ofNat (ofBeBytes (beBytes 2 v.toNat)) = v := by
  rw [ofBeBytes_beBytes 2 _ v.toNat_lt, UInt16.ofNat_toNat]

/-- The same at four bytes. -/
private theorem u32_of_be (v : UInt32) : UInt32.ofNat (ofBeBytes (beBytes 4 v.toNat)) = v := by
  rw [ofBeBytes_beBytes 4 _ v.toNat_lt, UInt32.ofNat_toNat]

/-- Two bytes are the spelling of the integer they decode to. This direction is what
makes every buffer the encoding of something. -/
private theorem be_of_u16 (a b : UInt8) :
    beBytes 2 (UInt16.ofNat (ofBeBytes [a, b])).toNat = [a, b] := by
  have hlt : ofBeBytes [a, b] < 2 ^ 16 := by simpa using ofBeBytes_lt [a, b]
  rw [UInt16.toNat_ofNat', Nat.mod_eq_of_lt hlt]
  exact beBytes_ofBeBytes [a, b]

/-- The same at four bytes. -/
private theorem be_of_u32 (a b c d : UInt8) :
    beBytes 4 (UInt32.ofNat (ofBeBytes [a, b, c, d])).toNat = [a, b, c, d] := by
  have hlt : ofBeBytes [a, b, c, d] < 2 ^ 32 := by simpa using ofBeBytes_lt [a, b, c, d]
  rw [UInt32.toNat_ofNat', Nat.mod_eq_of_lt hlt]
  exact beBytes_ofBeBytes [a, b, c, d]

/-- A header survives its encoding. The magic is opened into its four bytes so that
`decode`, which indexes the array, computes. -/
theorem decode_encoded (self : Header) : decode self.encoded = self := by
  obtain ⟨⟨⟨magic⟩, hmagic⟩, version, message_type, length⟩ := self
  obtain ⟨a, b, c, d, rfl⟩ : ∃ a b c d, magic = [a, b, c, d] := by
    match magic, hmagic with
    | [a, b, c, d], _ => exact ⟨a, b, c, d, rfl⟩
  have hbytes : decode (encoded ⟨⟨⟨[a, b, c, d]⟩, hmagic⟩, version, message_type, length⟩)
      = ⟨⟨⟨[a, b, c, d]⟩, hmagic⟩, UInt16.ofNat (ofBeBytes (beBytes 2 version.toNat)),
          UInt16.ofNat (ofBeBytes (beBytes 2 message_type.toNat)),
          UInt32.ofNat (ofBeBytes (beBytes 4 length.toNat))⟩ := rfl
  rw [hbytes, u16_of_be, u16_of_be, u32_of_be]

/-- Twelve bytes are the encoding of the header they decode to. -/
theorem encode_decode (bytes : Vector UInt8 12) : (decode bytes).encode = bytes.toList := by
  obtain ⟨⟨bytes⟩, hbytes⟩ := bytes
  match bytes, hbytes with
  | [b₀, b₁, b₂, b₃, b₄, b₅, b₆, b₇, b₈, b₉, b₁₀, b₁₁], hbytes =>
      have hdecode : decode ⟨⟨[b₀, b₁, b₂, b₃, b₄, b₅, b₆, b₇, b₈, b₉, b₁₀, b₁₁]⟩, hbytes⟩
          = ⟨⟨⟨[b₀, b₁, b₂, b₃]⟩, rfl⟩, UInt16.ofNat (ofBeBytes [b₄, b₅]),
              UInt16.ofNat (ofBeBytes [b₆, b₇]),
              UInt32.ofNat (ofBeBytes [b₈, b₉, b₁₀, b₁₁])⟩ := rfl
      rw [hdecode, encode, be_of_u16, be_of_u16, be_of_u32]
      rfl

/-- The first twelve bytes of a long enough buffer, copied out and decoded. -/
def decode_head (buf : List UInt8) (h : ¬ buf.length < SIZE) : Header :=
  decode ⟨(buf.take SIZE).toArray, by simp only [SIZE] at h ⊢; simp; omega⟩

/-- The head of a buffer that starts with an encoded header decodes to that header,
whatever follows. Stated on lists, it is the form in which both readers use the round
trip. -/
theorem decode_head_encode (self : Header) (rest : List UInt8)
    (h : ¬ (self.encode ++ rest).length < SIZE) : decode_head (self.encode ++ rest) h = self := by
  have htake : (self.encode ++ rest).take SIZE = self.encode := List.take_left' self.encode_length
  simp only [decode_head, htake]
  exact self.decode_encoded

end Header

/-! ## Frames

`encode_frame` and `write_frame` repeat one another in the source, and the model keeps
both bodies; `write_frame_eq` below says that the repetition is faithful. -/

/-- Hard cap on a single frame payload, 64 MB. -/
def MAX_PAYLOAD_SIZE : UInt32 := 64 * 1024 * 1024

/-- `FrameError`. `Incomplete` is declared by the source and never built; the
detail a bincode error carries is not modelled. -/
inductive FrameError
  | Incomplete (needed : Nat)
  | BadMagic (magic : Vector UInt8 4)
  | UnsupportedVersion (localVersion remote : UInt16)
  | UnknownMessageType (id : UInt16)
  | PayloadTooLarge (length : UInt32)
  | Bincode
deriving DecidableEq

/-- `encode_frame`: header and payload, or nothing if the payload is too large. -/
def encode_frame (msg : Message) : Except FrameError (List UInt8) :=
  let payload := serialize msg
  if payload.length > MAX_PAYLOAD_SIZE.toNat then
    .error (.PayloadTooLarge (UInt32.ofNat payload.length))
  else
    let header := Header.new msg.message_type (UInt32.ofNat payload.length)
    .ok (header.encode ++ payload)

/-- `write_frame`: the buffer is returned with the frame appended, and is
untouched where the message is refused. -/
def write_frame (buf : List UInt8) (msg : Message) : Except FrameError (List UInt8) :=
  let payload := serialize msg
  if payload.length > MAX_PAYLOAD_SIZE.toNat then
    .error (.PayloadTooLarge (UInt32.ofNat payload.length))
  else
    let header := Header.new msg.message_type (UInt32.ofNat payload.length)
    .ok (buf ++ header.encode ++ payload)

/-- `decode_frame`: one frame off the head of `buf`, with the number of bytes
it took; `none` where the buffer holds an incomplete frame. -/
def decode_frame (buf : List UInt8) : Except FrameError (Option (Message × Nat)) :=
  if h : buf.length < Header.SIZE then .ok none
  else
    let header := Header.decode_head buf h
    if header.magic ≠ MAGIC then .error (.BadMagic header.magic)
    else if header.version ≠ PROTOCOL_VERSION then
      .error (.UnsupportedVersion PROTOCOL_VERSION header.version)
    else if header.length > MAX_PAYLOAD_SIZE then .error (.PayloadTooLarge header.length)
    else
      let total := Header.SIZE + header.length.toNat
      if buf.length < total then .ok none
      else
        let payload := (buf.take total).drop Header.SIZE
        match MessageType.from_u16 header.message_type with
        | none => .error (.UnknownMessageType header.message_type)
        | some _ =>
          match deserialize payload with
          | none => .error .Bincode
          | some msg => .ok (some (msg, total))

/-! ## The decoder behind its header

`decode_frame` slices its buffer by offsets. The lemmas of this section replace that by
a header and what follows it. -/

/-- What `decode_frame` does once the header is known and `body` follows it. -/
def decode_body (header : Header) (body : List UInt8) :
    Except FrameError (Option (Message × Nat)) :=
  if header.magic ≠ MAGIC then .error (.BadMagic header.magic)
  else if header.version ≠ PROTOCOL_VERSION then
    .error (.UnsupportedVersion PROTOCOL_VERSION header.version)
  else if header.length > MAX_PAYLOAD_SIZE then .error (.PayloadTooLarge header.length)
  else if body.length < header.length.toNat then .ok none
  else
    match MessageType.from_u16 header.message_type with
    | none => .error (.UnknownMessageType header.message_type)
    | some _ =>
      match deserialize (body.take header.length.toNat) with
      | none => .error .Bincode
      | some msg => .ok (some (msg, Header.SIZE + header.length.toNat))

/-- Fewer bytes than a header are an incomplete frame. -/
theorem decode_frame_short (buf : List UInt8) (h : buf.length < Header.SIZE) :
    decode_frame buf = .ok none := by
  rw [decode_frame, dif_pos h]

/-- `decode_frame` behind an encoded header is `decode_body`. By `exists_header` every
long enough buffer has that form, so later proofs argue about `decode_body` and never
unfold the decoder's slicing again. -/
theorem decode_frame_encode (header : Header) (body : List UInt8) :
    decode_frame (header.encode ++ body) = decode_body header body := by
  have hlen := header.encode_length
  have hsize : (header.encode ++ body).length = Header.SIZE + body.length := by
    rw [List.length_append, hlen]
  have hpayload : ((header.encode ++ body).take (Header.SIZE + header.length.toNat)).drop
      Header.SIZE = body.take header.length.toNat := by
    rw [← hlen, List.take_length_add_append, List.drop_left' rfl]
  rw [decode_frame, dif_neg (by omega)]
  simp only [Header.decode_head_encode, hpayload, hsize, Nat.add_lt_add_iff_left]
  rfl

/-- A buffer of at least twelve bytes is the encoding of some header, followed
by what lies behind it. -/
theorem exists_header (buf : List UInt8) (h : Header.SIZE ≤ buf.length) :
    ∃ header : Header, buf = header.encode ++ buf.drop Header.SIZE := by
  have hlen : (buf.take Header.SIZE).toArray.size = 12 := by
    simp only [Header.SIZE, List.size_toArray, List.length_take] at h ⊢
    omega
  refine ⟨Header.decode ⟨(buf.take Header.SIZE).toArray, hlen⟩, ?_⟩
  rw [Header.encode_decode]
  exact (List.take_append_drop Header.SIZE buf).symm

/-- A frame that decodes takes at least its header and no more than the
buffer: the progress every decoding loop rests on. -/
theorem decode_frame_consumed (buf : List UInt8) (msg : Message) (n : Nat)
    (h : decode_frame buf = .ok (some (msg, n))) : Header.SIZE ≤ n ∧ n ≤ buf.length := by
  by_cases hshort : buf.length < Header.SIZE
  · rw [decode_frame_short buf hshort] at h
    cases h
  · obtain ⟨header, hbuf⟩ := exists_header buf (by omega)
    rw [hbuf, decode_frame_encode, decode_body] at h
    split_ifs at h with hmagic hversion hlength hbody
    · cases h
    · split at h
      · cases h
      split at h
      · cases h
      · simp only [Except.ok.injEq, Option.some.injEq, Prod.mk.injEq] at h
        have hdrop : (buf.drop Header.SIZE).length = buf.length - Header.SIZE := List.length_drop
        omega

/-! ## Round trip

One frame first, then a decoding loop over many. -/

/-- What `encode_frame` writes for a message that fits. -/
theorem encode_frame_ok (msg : Message) (h : (serialize msg).length ≤ MAX_PAYLOAD_SIZE.toNat) :
    encode_frame msg = .ok ((Header.new msg.message_type
      (UInt32.ofNat (serialize msg).length)).encode ++ serialize msg) := by
  rw [encode_frame, if_neg (by omega)]

/-- `write_frame` appends exactly what `encode_frame` returns, and refuses
exactly what it refuses. -/
theorem write_frame_eq (buf : List UInt8) (msg : Message) :
    write_frame buf msg = (encode_frame msg).map (fun frame => buf ++ frame) := by
  rw [write_frame, encode_frame]
  split_ifs with h
  · rfl
  · simp only [Except.map, List.append_assoc]

/-- **One frame.** A message that fits is read back from the head of any
buffer that starts with its frame, and the count returned is the frame's
length. -/
theorem decode_encode_frame (msg : Message) (frame rest : List UInt8)
    (h : encode_frame msg = .ok frame) :
    decode_frame (frame ++ rest) = .ok (some (msg, frame.length)) := by
  rw [encode_frame] at h
  split_ifs at h with hbig
  have hmax : MAX_PAYLOAD_SIZE.toNat = 67108864 := rfl
  have hlen : (UInt32.ofNat (serialize msg).length).toNat = (serialize msg).length := by
    rw [UInt32.toNat_ofNat', Nat.mod_eq_of_lt (by omega)]
  rw [← Except.ok.inj h, List.append_assoc, decode_frame_encode, decode_body]
  have hcap : ¬ UInt32.ofNat (serialize msg).length > MAX_PAYLOAD_SIZE := by
    rw [gt_iff_lt, UInt32.lt_iff_toNat_lt, hlen]
    omega
  simp only [Header.new, ne_eq, not_true_eq_false, if_false, hcap, hlen, List.length_append,
    List.take_left' rfl, MessageType.from_u16_as_u16, Header.encode_length,
    Bincode.deserialize_serialize msg (by omega)]
  rw [if_neg (by omega)]

/-- `decode_frame` called over and over: the messages on the buffer, and the
bytes of the incomplete frame it ends with. -/
def decode_all (buf : List UInt8) : Except FrameError (List Message × List UInt8) :=
  match _h : decode_frame buf with
  | .error e => .error e
  | .ok none => .ok ([], buf)
  | .ok (some (msg, n)) => (decode_all (buf.drop n)).map (fun r => (msg :: r.1, r.2))
termination_by buf.length
decreasing_by
  have := decode_frame_consumed buf msg n _h
  simp only [Header.SIZE] at this
  rw [List.length_drop]
  omega

/-- An empty buffer holds no message and leaves nothing. -/
theorem decode_all_nil : decode_all [] = .ok ([], []) := by
  rw [decode_all]
  rfl

/-- A frame at the head of the buffer contributes its message, and decoding goes on
behind it. `decode_all` is a well-founded recursion, so this equation stands in for its
unfolding. -/
theorem decode_all_cons (msg : Message) (frame rest : List UInt8)
    (h : encode_frame msg = .ok frame) :
    decode_all (frame ++ rest) = (decode_all rest).map (fun r => (msg :: r.1, r.2)) := by
  rw [decode_all]
  split
  all_goals rename_i heq; rw [decode_encode_frame msg frame rest h] at heq
  · cases heq
  · cases heq
  · simp only [Except.ok.injEq, Option.some.injEq, Prod.mk.injEq] at heq
    obtain ⟨rfl, rfl⟩ := heq
    rw [List.drop_left' rfl]

/-! ## Lists of frames

The frames of several messages stand one after the other, with nothing in between and no
count in front. -/

/-- A list of messages that fit is encoded frame by frame. -/
theorem mapM_encode_frame_ok (msgs : List Message)
    (hfit : ∀ m ∈ msgs, (serialize m).length ≤ MAX_PAYLOAD_SIZE.toNat) :
    ∃ frames, msgs.mapM encode_frame = .ok frames := by
  induction msgs with
  | nil => exact ⟨[], rfl⟩
  | cons m msgs ih =>
      obtain ⟨frames, hframes⟩ := ih (fun m' hm' => hfit m' (List.mem_cons_of_mem m hm'))
      have hm := encode_frame_ok m (hfit m List.mem_cons_self)
      exact ⟨_ :: frames, by rw [List.mapM_cons, hm, hframes]; rfl⟩

/-- The head frame and the remaining frames of a successfully encoded list. -/
theorem mapM_encode_frame_cons (m : Message) (msgs : List Message) (frames : List (List UInt8))
    (h : (m :: msgs).mapM encode_frame = .ok frames) :
    ∃ frame tail, frames = frame :: tail ∧ encode_frame m = .ok frame ∧
      msgs.mapM encode_frame = .ok tail := by
  rw [List.mapM_cons] at h
  cases hm : encode_frame m with
  | error e => rw [hm] at h; cases h
  | ok frame =>
      cases htail : msgs.mapM encode_frame with
      | error e => rw [hm, htail] at h; cases h
      | ok tail =>
          rw [hm, htail] at h
          exact ⟨frame, tail, (Except.ok.inj h).symm, rfl, rfl⟩

/-- `write_frame` over a list appends the frames of the list. -/
theorem foldlM_write_frame (msgs : List Message) (frames : List (List UInt8))
    (h : msgs.mapM encode_frame = .ok frames) (buf : List UInt8) :
    msgs.foldlM write_frame buf = .ok (buf ++ frames.flatten) := by
  induction msgs generalizing buf frames with
  | nil =>
      obtain rfl : frames = [] := (Except.ok.inj h).symm
      rw [List.flatten_nil, List.append_nil]
      rfl
  | cons m msgs ih =>
      obtain ⟨frame, tail, rfl, hm, htail⟩ := mapM_encode_frame_cons m msgs frames h
      have hwrite : write_frame buf m = .ok (buf ++ frame) := by rw [write_frame_eq, hm]; rfl
      rw [List.foldlM_cons, hwrite, List.flatten_cons, ← List.append_assoc]
      exact ih tail htail (buf ++ frame)

/-- Decoding in front of any suffix gives the messages back and goes on with
the suffix. -/
theorem decode_all_frames (msgs : List Message) (frames : List (List UInt8))
    (h : msgs.mapM encode_frame = .ok frames) (rest : List UInt8) :
    decode_all (frames.flatten ++ rest)
      = (decode_all rest).map (fun r => (msgs ++ r.1, r.2)) := by
  induction msgs generalizing frames with
  | nil =>
      obtain rfl : frames = [] := (Except.ok.inj h).symm
      cases hrest : decode_all rest <;> simp [hrest, Except.map]
  | cons m msgs ih =>
      obtain ⟨frame, tail, rfl, hm, htail⟩ := mapM_encode_frame_cons m msgs frames h
      rw [List.flatten_cons, List.append_assoc, decode_all_cons m frame _ hm, ih tail htail]
      cases decode_all rest <;> rfl

/-- **The frame codec round trip.** Messages that fit are framed one by one,
`write_frame` appends exactly those frames, decoding in front of any suffix
returns the messages in order and then whatever the suffix decodes to, and
decoding the frames alone leaves nothing. -/
theorem frames_roundtrip (msgs : List Message)
    (hfit : ∀ m ∈ msgs, (serialize m).length ≤ MAX_PAYLOAD_SIZE.toNat) :
    ∃ frames : List (List UInt8),
      msgs.mapM encode_frame = .ok frames ∧
      (∀ buf, msgs.foldlM write_frame buf = .ok (buf ++ frames.flatten)) ∧
      (∀ rest, decode_all (frames.flatten ++ rest)
        = (decode_all rest).map (fun r => (msgs ++ r.1, r.2))) ∧
      decode_all frames.flatten = .ok (msgs, []) := by
  obtain ⟨frames, hframes⟩ := mapM_encode_frame_ok msgs hfit
  refine ⟨frames, hframes, foldlM_write_frame msgs frames hframes,
    decode_all_frames msgs frames hframes, ?_⟩
  have h := decode_all_frames msgs frames hframes []
  rwa [List.append_nil, decode_all_nil, Except.map, List.append_nil] at h

/-- The round trip at a pair of messages, one of them with a string and an
option inside. -/
theorem frames_roundtrip_pair :
    ∃ frames : List (List UInt8),
      [Message.KeyEvent ⟨.A, .Pressed, .SHIFT, some 65⟩, .Goodbye ⟨"bye"⟩].mapM encode_frame
        = .ok frames ∧
      (∀ buf, [Message.KeyEvent ⟨.A, .Pressed, .SHIFT, some 65⟩, .Goodbye ⟨"bye"⟩].foldlM
        write_frame buf = .ok (buf ++ frames.flatten)) ∧
      (∀ rest, decode_all (frames.flatten ++ rest) = (decode_all rest).map (fun r =>
        ([Message.KeyEvent ⟨.A, .Pressed, .SHIFT, some 65⟩, .Goodbye ⟨"bye"⟩] ++ r.1, r.2))) ∧
      decode_all frames.flatten
        = .ok ([.KeyEvent ⟨.A, .Pressed, .SHIFT, some 65⟩, .Goodbye ⟨"bye"⟩], []) :=
  frames_roundtrip _ (by decide)

/-! ## What the decoder accepts

`decode_frame` looks the type id up and drops what it finds, and bincode drops
what follows the message in the payload. -/

/-- The type of the variant at a position: `Message` and `MessageType` declare
the same names in the same order. -/
def variant_type (i : UInt32) : MessageType := MessageType.ofNat i.toNat

/-- The type of the variant a payload starts with. -/
def payload_type (payload : List UInt8) : Option MessageType :=
  (Codec.u32.get payload).map (fun p => variant_type p.1)

/-- What is left of a payload behind its message. -/
def payload_rest (payload : List UInt8) : Option (List UInt8) :=
  (Bincode.message.get payload).map Prod.snd

/-- The header names the type of the variant the payload starts with, and the
payload ends with the message. -/
def CanonicalFrame (b : List UInt8) : Prop :=
  ∃ (header : Header) (body : List UInt8), b = header.encode ++ body ∧
    (payload_type (body.take header.length.toNat)).map MessageType.as_u16
        = some header.message_type ∧
      payload_rest (body.take header.length.toNat) = some []

/-- The position bincode writes for a variant and the id the header carries for it name
the same variant. Nothing in the source ties the two enums together but the order of
their declarations, hence the case split. -/
theorem variant_type_tag (m : Message) : variant_type (Bincode.Message.tag m) = m.message_type := by
  cases m <;> rfl

/-- Buffers that start with encoded headers agree only if the headers do and the rests
do. It turns an equation between byte strings into one between headers. -/
theorem Header.encode_inj {a b : Header} {s t : List UInt8} (h : a.encode ++ s = b.encode ++ t) :
    a = b ∧ s = t := by
  obtain ⟨hhead, hrest⟩ := List.append_inj h (by rw [a.encode_length, b.encode_length])
  refine ⟨?_, hrest⟩
  have ha := a.decode_head_encode [] (by simp [a.encode_length])
  have hb := b.decode_head_encode [] (by simp [b.encode_length])
  rw [← ha, ← hb]
  simp only [hhead]

/-- A payload that is read as `m` is the serialization of `m`, and what the
reader leaves. -/
theorem payload_of_deserialize (payload : List UInt8) (m : Message)
    (h : deserialize payload = some m) :
    ∃ rest, payload = serialize m ++ rest ∧ payload_rest payload = some rest ∧
      payload_type payload = some m.message_type := by
  obtain ⟨⟨m', rest⟩, hget, rfl⟩ := Option.map_eq_some_iff.mp h
  have hpayload := Bincode.message.put_of_get payload m' rest hget
  refine ⟨rest, hpayload, by rw [payload_rest, hget]; rfl, ?_⟩
  have hput : Bincode.message.put m' ++ rest
      = Codec.u32.put (Bincode.Message.tag m') ++ (Bincode.Message.body m' ++ rest) :=
    List.append_assoc ..
  rw [payload_type, hpayload, hput, Codec.u32.get_put _ _ (by simp), Option.map_some,
    variant_type_tag]

/-- What a successful decode has checked. -/
theorem decode_body_accepts (header : Header) (body : List UInt8) (m : Message) (n : Nat)
    (h : decode_body header body = .ok (some (m, n))) :
    header.magic = MAGIC ∧ header.version = PROTOCOL_VERSION ∧
      header.length.toNat ≤ MAX_PAYLOAD_SIZE.toNat ∧ header.length.toNat ≤ body.length ∧
      deserialize (body.take header.length.toNat) = some m ∧
      n = Header.SIZE + header.length.toNat := by
  rw [decode_body] at h
  split_ifs at h with hmagic hversion hlength hbody
  · cases h
  · split at h
    · cases h
    · split at h
      · cases h
      · rename_i m' hmsg
        simp only [Except.ok.injEq, Option.some.injEq, Prod.mk.injEq] at h
        obtain ⟨rfl, rfl⟩ := h
        have hmax := UInt32.le_iff_toNat_le.mp (UInt32.not_lt.mp hlength)
        exact ⟨not_not.mp hmagic, not_not.mp hversion, hmax, by omega, hmsg, rfl⟩

/-- Canonicity of a buffer whose header is known. The existential of the definition is
discharged by `Header.encode_inj`. -/
theorem canonicalFrame_iff (header : Header) (body : List UInt8) :
    CanonicalFrame (header.encode ++ body) ↔
      (payload_type (body.take header.length.toNat)).map MessageType.as_u16
          = some header.message_type ∧
        payload_rest (body.take header.length.toNat) = some [] := by
  constructor
  · rintro ⟨header', body', heq, htype, hrest⟩
    obtain ⟨rfl, rfl⟩ := Header.encode_inj heq
    exact ⟨htype, hrest⟩
  · rintro ⟨htype, hrest⟩
    exact ⟨header, body, rfl, htype, hrest⟩

/-- **The decoder's language.** A frame that decodes is the encoding of the
message it decodes to exactly when its type id is that of the payload's
variant and its payload ends with the message. -/
theorem decoded_canonical_iff (b : List UInt8) (m : Message) (n : Nat)
    (h : decode_frame b = .ok (some (m, n))) :
    encode_frame m = .ok (b.take n) ↔ CanonicalFrame b := by
  have hlong := decode_frame_consumed b m n h
  obtain ⟨header, hb⟩ := exists_header b (by omega)
  generalize b.drop Header.SIZE = body at hb
  subst hb
  rw [decode_frame_encode] at h
  obtain ⟨hmagic, hversion, hmax, hbody, hmsg, rfl⟩ := decode_body_accepts header body m n h
  rw [canonicalFrame_iff, ← header.encode_length, List.take_length_add_append]
  set payload := body.take header.length.toNat with hpayload
  -- the payload is the message's own bytes and perhaps more, which the decoder does not
  -- look at
  obtain ⟨rest, hsplit, hrest, htype⟩ := payload_of_deserialize payload m hmsg
  have hlen : payload.length = header.length.toNat := by
    rw [hpayload, List.length_take]
    omega
  have hsize : (serialize m).length + rest.length = header.length.toNat := by
    rw [← hlen, hsplit, List.length_append]
  rw [encode_frame_ok m (by omega), hrest, htype]
  -- the frame that would be written has the right length and type; it is the given one
  -- exactly if nothing is left over
  constructor
  · intro heq
    obtain ⟨hheader, hserialize⟩ := Header.encode_inj (Except.ok.inj heq)
    rw [hsplit] at hserialize
    exact ⟨by rw [← hheader]; rfl, by rw [List.self_eq_append_right.mp hserialize]⟩
  · rintro ⟨hid, hend⟩
    obtain rfl := Option.some.inj hend
    rw [List.append_nil] at hsplit
    have hheader : Header.new m.message_type (UInt32.ofNat (serialize m).length) = header := by
      rw [← hsplit, hlen, UInt32.ofNat_toNat, Header.new, Option.some.inj hid, ← hmagic, ← hversion]
    rw [hheader, ← hsplit]

/-- The equivalence on the frame of a ping. -/
theorem decoded_canonical_iff_ping :
    encode_frame (.Ping 1 2)
        = .ok (((Header.new .Ping 20).encode ++ serialize (.Ping 1 2)).take 32) ↔
      CanonicalFrame ((Header.new .Ping 20).encode ++ serialize (.Ping 1 2)) :=
  decoded_canonical_iff _ (.Ping 1 2) 32 (by decide)

/-- **Frames the encoder does not write.** A ping with the type id of a hello,
and one with a byte behind it, are both decoded. -/
theorem foreign_frames_accepted :
    (decode_frame ((Header.new .Hello 20).encode ++ serialize (.Ping 1 2))
        = .ok (some (.Ping 1 2, 32)) ∧
      encode_frame (.Ping 1 2)
        ≠ .ok (((Header.new .Hello 20).encode ++ serialize (.Ping 1 2)).take 32)) ∧
    (decode_frame ((Header.new .Ping 21).encode ++ serialize (.Ping 1 2) ++ [0])
        = .ok (some (.Ping 1 2, 33)) ∧
      encode_frame (.Ping 1 2)
        ≠ .ok (((Header.new .Ping 21).encode ++ serialize (.Ping 1 2) ++ [0]).take 33)) := by
  decide

/-! ## Decoding while bytes arrive

The decoder is called again whenever more bytes have come. What it says of a
buffer it says of every longer one, and it cannot ask for more bytes for ever. -/

/-- It asks for more only where the payload is not all there. -/
theorem decode_body_none (header : Header) (body : List UInt8)
    (h : decode_body header body = .ok none) :
    body.length < header.length.toNat ∧ header.length.toNat ≤ MAX_PAYLOAD_SIZE.toNat := by
  rw [decode_body] at h
  split_ifs at h with hmagic hversion hlength hbody
  · exact ⟨hbody, UInt32.le_iff_toNat_le.mp (UInt32.not_lt.mp hlength)⟩
  · split at h
    · cases h
    · split at h <;> cases h

/-- What `decode_body` says of a payload it says of a longer one, unless it asked for
more. Errors found before the payload is looked at do not depend on it, and a whole
payload is cut off at the announced length. -/
theorem decode_body_append (header : Header) (body s : List UInt8)
    (h : decode_body header body ≠ .ok none) :
    decode_body header (body ++ s) = decode_body header body := by
  by_cases hbody : body.length < header.length.toNat
  · -- the header alone was refused
    rw [decode_body, if_pos hbody] at h
    rw [decode_body, decode_body, if_pos hbody]
    split_ifs at h ⊢ with hmagic hversion hlength hmore
    · rfl
    · rfl
    · rfl
    · exact absurd rfl h
    · exact absurd rfl h
  · have hmore : ¬ (body ++ s).length < header.length.toNat := by
      rw [List.length_append]
      omega
    rw [decode_body, decode_body, if_neg hbody, if_neg hmore,
      List.take_append_of_le_length (by omega)]

/-- **Stable.** More bytes do not change an answer. -/
theorem decode_frame_append (b s : List UInt8) (h : decode_frame b ≠ .ok none) :
    decode_frame (b ++ s) = decode_frame b := by
  by_cases hshort : b.length < Header.SIZE
  · exact absurd (decode_frame_short b hshort) h
  · obtain ⟨header, hb⟩ := exists_header b (by omega)
    rw [hb, decode_frame_encode] at h
    rw [hb, List.append_assoc, decode_frame_encode, decode_frame_encode]
    exact decode_body_append header _ s h

/-- A frame that is not all there yet: an answer would be that of the frame,
which takes more bytes than there are. -/
theorem decode_frame_cut (m : Message) (frame b : List UInt8) (h : encode_frame m = .ok frame)
    (hb : b <+: frame) (hne : b ≠ frame) : decode_frame b = .ok none := by
  by_contra hanswer
  obtain ⟨rest, rfl⟩ := hb
  have hframe := decode_encode_frame m _ [] h
  rw [List.append_nil, decode_frame_append b rest hanswer] at hframe
  have hlong := (decode_frame_consumed b m _ hframe).2
  rw [List.length_append] at hlong
  have hrest : rest = [] := List.eq_nil_of_length_eq_zero (by omega)
  exact hne (by rw [hrest, List.append_nil])

/-- **Progress.** No buffer of this length is incomplete. -/
theorem decode_frame_full (b : List UInt8)
    (h : MAX_PAYLOAD_SIZE.toNat + Header.SIZE ≤ b.length) : decode_frame b ≠ .ok none := by
  obtain ⟨header, hb⟩ := exists_header b (by omega)
  have hbody : (b.drop Header.SIZE).length = b.length - Header.SIZE := List.length_drop
  rw [hb, decode_frame_encode]
  intro hnone
  have hmissing := decode_body_none header _ hnone
  omega

/-- **Incremental decoding.** An error stays an error and a message stays that
message, with a count of at least the header and at most what was there; a
frame cut short is incomplete at every cut; and a buffer that is incomplete has
its answer by the time it holds the largest frame. -/
theorem decode_frame_incremental :
    (∀ b s e, decode_frame b = .error e → decode_frame (b ++ s) = .error e) ∧
    (∀ b s m n, decode_frame b = .ok (some (m, n)) →
      decode_frame (b ++ s) = .ok (some (m, n)) ∧ 12 ≤ n ∧ n ≤ b.length) ∧
    (∀ m frame b, encode_frame m = .ok frame → b <+: frame → b ≠ frame →
      decode_frame b = .ok none) ∧
    (∀ b s, decode_frame b = .ok none → MAX_PAYLOAD_SIZE.toNat + 12 ≤ (b ++ s).length →
      decode_frame (b ++ s) ≠ .ok none) := by
  refine ⟨?_, ?_, decode_frame_cut, fun b s _ hlong => decode_frame_full (b ++ s) hlong⟩
  · intro b s e he
    rw [decode_frame_append b s (by rw [he]; rintro ⟨⟩), he]
  · intro b s m n hm
    rw [decode_frame_append b s (by rw [hm]; rintro ⟨⟩), hm]
    exact ⟨rfl, decode_frame_consumed b m n hm⟩

/-- A ping with something behind it, a ping cut in its payload, and a wrong
magic. -/
theorem decode_frame_incremental_ping :
    let frame := (Header.new .Ping 20).encode ++ serialize (.Ping 1 2)
    decode_frame (frame ++ [7]) = .ok (some (.Ping 1 2, 32)) ∧
      decode_frame (frame.take 31) = .ok none ∧
      decode_frame (List.replicate 12 0 ++ [7]) = .error (.BadMagic #v[0, 0, 0, 0]) ∧
      decode_frame (([] : List UInt8) ++ List.replicate (MAX_PAYLOAD_SIZE.toNat + 12) 0)
        ≠ .ok none :=
  ⟨(decode_frame_incremental.2.1 _ [7] (.Ping 1 2) 32 (by decide)).1,
    decode_frame_incremental.2.2.1 (.Ping 1 2) _ _ (by decide) (List.take_prefix _ _) (by decide),
    decode_frame_incremental.1 _ [7] _ (by decide),
    decode_frame_incremental.2.2.2 [] _ rfl (by rw [List.nil_append, List.length_replicate])⟩

end InputSync
