/-
The payload of a frame: what `bincode::serialize` writes for a `Message` and
`bincode::deserialize` reads back.

bincode is not part of the repository. What the codec relies on is its default
configuration: fixed-width little-endian integers, `u32` variant positions,
`u64` lengths, trailing bytes allowed. On top of that the derived serde code
fixes the order: a struct is its fields in declaration order, an enum its
position and then its fields. Two types bring their own representation: a
`Uuid` is a byte string that must have sixteen bytes, and a bitflags value is
its bits, unknown ones included.

Each codec below is the type's fields in source order, so that a reader can
check it against the declaration; the round trip of the whole language is then
`message.get_put`.
-/
import InputSync.Codec
import InputSync.Message
import Mathlib.Tactic.NormNum

set_option autoImplicit false

namespace InputSync.Bincode

open InputSync.Codec

/-! ## Leaves

The two types with a representation of their own come first, then the newtypes and the
enumerations without payloads. -/

/-- A `Uuid` is written as a byte string and refused at any other length. -/
def uuid : Codec (Vector UInt8 16) :=
  bytes.via (fun v => v.toList)
    (fun b => if h : b.length = 16 then some ⟨b.toArray, by simpa using h⟩ else none)
    (fun v => by
      rw [dif_pos (by simp)]
      exact congrArg some (Vector.toArray_inj.mp rfl))
    (fun b v h => by
      by_cases hb : b.length = 16
      · rw [dif_pos hb] at h
        rw [← Option.some.inj h]; rfl
      · rw [dif_neg hb] at h
        cases h)

/-- `PeerId`: a newtype is written as what it wraps. -/
def peer_id : Codec PeerId := uuid.iso PeerId.uuid PeerId.mk (fun _ => rfl) (fun _ => rfl)

/-- `ScreenId`, likewise. -/
def screen_id : Codec ScreenId := u32.iso ScreenId.id ScreenId.mk (fun _ => rfl) (fun _ => rfl)

/-- `ModifierState`: the bits, with unknown ones kept. -/
def modifier_state : Codec ModifierState :=
  u16.iso ModifierState.bits ModifierState.mk (fun _ => rfl) (fun _ => rfl)

/-- `KeyState`, by position. -/
def key_state : Codec KeyState :=
  enumeration 2 KeyState.ctorIdx KeyState.ofNat (by norm_num) (fun s => by cases s <;> decide)
    KeyState.ofNat_ctorIdx (by decide)

/-- `KeyCode`, by position among its 87 variants. -/
def key_code : Codec KeyCode :=
  enumeration 87 KeyCode.ctorIdx KeyCode.ofNat (by norm_num) (fun k => by cases k <;> decide)
    KeyCode.ofNat_ctorIdx (by decide)

/-- `ClipboardFormat`, by position. -/
def clipboard_format : Codec ClipboardFormat :=
  enumeration 5 ClipboardFormat.ctorIdx ClipboardFormat.ofNat (by norm_num)
    (fun f => by cases f <;> decide) ClipboardFormat.ofNat_ctorIdx (by decide)

/-- A digest: 32 bytes, without a length. -/
def hash : Codec Hash := array 32

/-! ## Input events

For each enum with payloads: the position of a variant, its payload, and the reader that
position selects. The two laws are the case split over the variants. -/

/-- The position of each button. -/
def Button.tag : Button → UInt32
  | .Left => 0
  | .Right => 1
  | .Middle => 2
  | .Back => 3
  | .Forward => 4
  | .Other _ => 5

/-- Only `Other` has a payload. -/
def Button.body : Button → List UInt8
  | .Other id => u8.put id
  | _ => []

/-- The reader each position selects; an unknown one is refused. -/
def Button.read (tag : UInt32) (b : List UInt8) : Option (Button × List UInt8) :=
  match tag with
  | 0 => some (.Left, b)
  | 1 => some (.Right, b)
  | 2 => some (.Middle, b)
  | 3 => some (.Back, b)
  | 4 => some (.Forward, b)
  | 5 => u8.getAs Button.Other b
  | _ => none

/-- `Button`, as a tagged sum. -/
def button : Codec Button :=
  tagged Button.tag Button.body Button.read
    (fun a s h => by
      cases a with
      | Other id => exact u8.getAs_put Button.Other id s h
      | _ => rfl)
    (fun i b a s h => by
      unfold Button.read at h
      split at h
      case h_6 =>
        obtain ⟨id, rfl, hb⟩ := u8.getAs_eq_some _ _ _ _ h
        exact ⟨rfl, hb⟩
      case h_7 => cases h
      all_goals
        obtain ⟨rfl, rfl⟩ := Prod.mk.inj (Option.some.inj h)
        exact ⟨rfl, rfl⟩)

/-- `ScrollDelta`: two fields in a row. -/
def scroll_delta : Codec ScrollDelta :=
  (i16.seq i16).iso (fun d => (d.horizontal, d.vertical)) (fun p => ⟨p.1, p.2⟩)
    (fun _ => rfl) (fun _ => rfl)

/-- The position of each mouse event. -/
def MouseEvent.tag : MouseEvent → UInt32
  | .Move .. => 0
  | .MoveRelative .. => 1
  | .Button .. => 2
  | .Scroll _ => 3

/-- Its fields, in order. -/
def MouseEvent.body : MouseEvent → List UInt8
  | .Move x y => (i32.seq i32).put (x, y)
  | .MoveRelative dx dy => (i32.seq i32).put (dx, dy)
  | .Button b state => (button.seq key_state).put (b, state)
  | .Scroll delta => scroll_delta.put delta

/-- The reader each position selects. -/
def MouseEvent.read (tag : UInt32) (b : List UInt8) : Option (MouseEvent × List UInt8) :=
  match tag with
  | 0 => (i32.seq i32).getAs (fun p => .Move p.1 p.2) b
  | 1 => (i32.seq i32).getAs (fun p => .MoveRelative p.1 p.2) b
  | 2 => (button.seq key_state).getAs (fun p => .Button p.1 p.2) b
  | 3 => scroll_delta.getAs .Scroll b
  | _ => none

/-- `MouseEvent`, as a tagged sum. All variants have a payload, so the case split is
uniform. -/
def mouse_event : Codec MouseEvent :=
  tagged MouseEvent.tag MouseEvent.body MouseEvent.read
    (fun a s h => by
      cases a <;> simp only [MouseEvent.tag, MouseEvent.body, MouseEvent.read] <;>
        rw [getAs_put _ _ _ s h])
    (fun i b a s h => by
      unfold MouseEvent.read at h
      split at h
      case h_5 => cases h
      all_goals
        obtain ⟨p, rfl, hb⟩ := getAs_eq_some _ _ _ _ _ h
        exact ⟨rfl, hb⟩)

/-- `KeyEvent`: code, state, modifiers, and the character if there is one. -/
def key_event : Codec KeyEvent :=
  (key_code.seq (key_state.seq (modifier_state.seq (opt u32)))).iso
    (fun k => (k.code, k.state, k.modifiers, k.character)) (fun p => ⟨p.1, p.2.1, p.2.2.1, p.2.2.2⟩)
    (fun _ => rfl) (fun _ => rfl)

/-! ## Session payloads

A struct is the product of its fields in declaration order, transported along the
constructor. -/

/-- `Capabilities`: six bools. -/
def capabilities : Codec Capabilities :=
  (bool.seq (bool.seq (bool.seq (bool.seq (bool.seq bool))))).iso
    (fun c => (c.clipboard_text, c.clipboard_html, c.clipboard_image, c.clipboard_files,
      c.file_transfer, c.zstd_compression))
    (fun p => ⟨p.1, p.2.1, p.2.2.1, p.2.2.2.1, p.2.2.2.2.1, p.2.2.2.2.2⟩)
    (fun _ => rfl) (fun _ => rfl)

/-- `Hello`, in declaration order. -/
def hello : Codec Hello :=
  (peer_id.seq (string.seq (u16.seq capabilities))).iso
    (fun h => (h.peer_id, h.peer_name, h.protocol_version, h.capabilities))
    (fun p => ⟨p.1, p.2.1, p.2.2.1, p.2.2.2⟩) (fun _ => rfl) (fun _ => rfl)

/-- `Welcome`, in declaration order. -/
def welcome : Codec Welcome :=
  (peer_id.seq (string.seq (capabilities.seq screen_id))).iso
    (fun w => (w.peer_id, w.peer_name, w.accepted_capabilities, w.assigned_screen))
    (fun p => ⟨p.1, p.2.1, p.2.2.1, p.2.2.2⟩) (fun _ => rfl) (fun _ => rfl)

/-- `Goodbye`: its reason. -/
def goodbye : Codec Goodbye := string.iso Goodbye.reason Goodbye.mk (fun _ => rfl) (fun _ => rfl)

/-! ## Clipboard and file payloads

These carry the bulk data, and with it the only fields whose length is not small. -/

/-- The list of a `ClipboardFormats` message. -/
def clipboard_formats : Codec (List ClipboardFormat) :=
  vec clipboard_format (fun _ => by simp [clipboard_format])

/-- `ClipboardPayload`, in declaration order. -/
def clipboard_payload : Codec ClipboardPayload :=
  (clipboard_format.seq (bytes.seq (peer_id.seq hash))).iso
    (fun p => (p.format, p.bytes, p.originator, p.hash))
    (fun p => ⟨p.1, p.2.1, p.2.2.1, p.2.2.2⟩) (fun _ => rfl) (fun _ => rfl)

/-- `FileEntry`, in declaration order. -/
def file_entry : Codec FileEntry :=
  (string.seq (u64.seq hash)).iso (fun e => (e.relative_path, e.size, e.blake3))
    (fun p => ⟨p.1, p.2.1, p.2.2⟩) (fun _ => rfl) (fun _ => rfl)

/-- An entry is never empty on the wire, which is the side condition of a list of them:
a list is then no longer than its bytes, and its length fits the 64-bit count. -/
theorem file_entry_put_length_pos (e : FileEntry) : 0 < (file_entry.put e).length := by
  simp [file_entry, iso, via, seq]

/-- The list of a manifest. -/
def file_entries : Codec (List FileEntry) := vec file_entry file_entry_put_length_pos

/-- `FileManifest`: the entries and the sum of their sizes. -/
def file_manifest : Codec FileManifest :=
  (file_entries.seq u64).iso (fun m => (m.files, m.total_bytes)) (fun p => ⟨p.1, p.2⟩)
    (fun _ => rfl) (fun _ => rfl)

/-- `FileOffer`, in declaration order. -/
def file_offer : Codec FileOffer :=
  (u64.seq (file_manifest.seq bool)).iso (fun o => (o.transfer_id, o.manifest, o.compressed))
    (fun p => ⟨p.1, p.2.1, p.2.2⟩) (fun _ => rfl) (fun _ => rfl)

/-- `FileChunk`, in declaration order. -/
def file_chunk : Codec FileChunk :=
  (u64.seq (u32.seq (u64.seq (bytes.seq bool)))).iso
    (fun c => (c.transfer_id, c.file_index, c.offset, c.data, c.is_last))
    (fun p => ⟨p.1, p.2.1, p.2.2.1, p.2.2.2.1, p.2.2.2.2⟩) (fun _ => rfl) (fun _ => rfl)

/-! ## Messages

The 21 variants of `Message`, in the order of the Rust enum. `serialize` and
`deserialize` are the two calls the codec of a frame makes. -/

/-- The position of each message. -/
def Message.tag : Message → UInt32
  | .Hello _ => 0
  | .Welcome _ => 1
  | .Goodbye _ => 2
  | .MouseMove .. => 3
  | .MouseMoveRelative .. => 4
  | .MouseButton _ => 5
  | .MouseScroll _ => 6
  | .KeyEvent _ => 7
  | .ScreenEnter .. => 8
  | .ScreenLeave _ => 9
  | .ModifierSync _ => 10
  | .ClipboardFormats .. => 11
  | .ClipboardRequest _ => 12
  | .ClipboardData _ => 13
  | .FileOfferStart _ => 14
  | .FileChunk _ => 15
  | .FileAck .. => 16
  | .FileTransferCancel .. => 17
  | .Ping .. => 18
  | .Pong .. => 19
  | .Error .. => 20

/-- Its payload, in the codec of its type. -/
def Message.body : Message → List UInt8
  | .Hello h => hello.put h
  | .Welcome w => welcome.put w
  | .Goodbye g => goodbye.put g
  | .MouseMove x y => (i32.seq i32).put (x, y)
  | .MouseMoveRelative dx dy => (i32.seq i32).put (dx, dy)
  | .MouseButton e => mouse_event.put e
  | .MouseScroll e => mouse_event.put e
  | .KeyEvent k => key_event.put k
  | .ScreenEnter x y m => (i32.seq (i32.seq modifier_state)).put (x, y, m)
  | .ScreenLeave peer_screen => u32.put peer_screen
  | .ModifierSync m => modifier_state.put m
  | .ClipboardFormats formats h => (clipboard_formats.seq hash).put (formats, h)
  | .ClipboardRequest format => clipboard_format.put format
  | .ClipboardData payload => clipboard_payload.put payload
  | .FileOfferStart offer => file_offer.put offer
  | .FileChunk chunk => file_chunk.put chunk
  | .FileAck id through => (u64.seq u64).put (id, through)
  | .FileTransferCancel id reason => (u64.seq string).put (id, reason)
  | .Ping nonce ts => (u64.seq u64).put (nonce, ts)
  | .Pong nonce ts => (u64.seq u64).put (nonce, ts)
  | .Error code message => (u32.seq string).put (code, message)

/-- The reader each position selects. -/
def Message.read (tag : UInt32) (b : List UInt8) : Option (Message × List UInt8) :=
  match tag with
  | 0 => hello.getAs .Hello b
  | 1 => welcome.getAs .Welcome b
  | 2 => goodbye.getAs .Goodbye b
  | 3 => (i32.seq i32).getAs (fun p => .MouseMove p.1 p.2) b
  | 4 => (i32.seq i32).getAs (fun p => .MouseMoveRelative p.1 p.2) b
  | 5 => mouse_event.getAs .MouseButton b
  | 6 => mouse_event.getAs .MouseScroll b
  | 7 => key_event.getAs .KeyEvent b
  | 8 => (i32.seq (i32.seq modifier_state)).getAs (fun p => .ScreenEnter p.1 p.2.1 p.2.2) b
  | 9 => u32.getAs .ScreenLeave b
  | 10 => modifier_state.getAs .ModifierSync b
  | 11 => (clipboard_formats.seq hash).getAs (fun p => .ClipboardFormats p.1 p.2) b
  | 12 => clipboard_format.getAs .ClipboardRequest b
  | 13 => clipboard_payload.getAs .ClipboardData b
  | 14 => file_offer.getAs .FileOfferStart b
  | 15 => file_chunk.getAs .FileChunk b
  | 16 => (u64.seq u64).getAs (fun p => .FileAck p.1 p.2) b
  | 17 => (u64.seq string).getAs (fun p => .FileTransferCancel p.1 p.2) b
  | 18 => (u64.seq u64).getAs (fun p => .Ping p.1 p.2) b
  | 19 => (u64.seq u64).getAs (fun p => .Pong p.1 p.2) b
  | 20 => (u32.seq string).getAs (fun p => .Error p.1 p.2) b
  | _ => none

/-- The first obligation of the tagged sum: the payload of each of the 21 variants is
read back under its own position. -/
theorem Message.read_body (m : Message) (s : List UInt8) (h : (Message.body m).length < 2 ^ 64) :
    Message.read (Message.tag m) (Message.body m ++ s) = some (m, s) := by
  cases m <;> simp only [Message.tag, Message.body, Message.read] <;> rw [getAs_put _ _ _ s h]

/-- The second obligation: whatever a position reads, it is the payload of a message of
that variant. The 22nd case is a position past the last variant, which is refused. -/
theorem Message.body_of_read (i : UInt32) (b : List UInt8) (m : Message) (s : List UInt8)
    (h : Message.read i b = some (m, s)) : i = Message.tag m ∧ b = Message.body m ++ s := by
  unfold Message.read at h
  split at h
  case h_22 => cases h
  all_goals
    obtain ⟨p, rfl, hb⟩ := getAs_eq_some _ _ _ _ _ h
    exact ⟨rfl, hb⟩

/-- The codec of the whole message language. -/
def message : Codec Message :=
  tagged Message.tag Message.body Message.read Message.read_body Message.body_of_read

/-- `bincode::serialize`: no size limit is configured, so it cannot fail. -/
def serialize (msg : Message) : List UInt8 := message.put msg

/-- `bincode::deserialize`: trailing bytes are allowed and dropped. -/
def deserialize (payload : List UInt8) : Option Message :=
  (message.get payload).map Prod.fst

/-- What was serialized is deserialized to the same message. The bound is that of the
64-bit lists; a frame is far below it, so the codec discharges it. -/
theorem deserialize_serialize (m : Message) (h : (serialize m).length < 2 ^ 64) :
    deserialize (serialize m) = some m := by
  have hget := message.get_put m [] h
  rw [List.append_nil] at hget
  simp only [deserialize, serialize, hget, Option.map_some]

end InputSync.Bincode
