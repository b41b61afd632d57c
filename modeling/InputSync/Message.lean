/-
The message language (`crates/protocol/src/message.rs`) and its type ids
(`MessageType` of `header.rs`).

`Message` has the twenty-one variants of the source in declaration order.
`message_type` names the id the frame header carries, `from_input` is the
translation the input router sends through, and `from_u16` is the table the
frame decoder checks ids against.
-/
import InputSync.Event

set_option autoImplicit false

namespace InputSync

/-! ## Message type ids

The ids are grouped by their high byte and are not in declaration order:
`MouseMoveRelative` was added last and took the next free one. -/

/-- `MessageType`, in declaration order. -/
inductive MessageType
  | Hello | Welcome | Goodbye
  | MouseMove | MouseMoveRelative | MouseButton | MouseScroll | KeyEvent
  | ScreenEnter | ScreenLeave | ModifierSync
  | ClipboardFormats | ClipboardRequest | ClipboardData
  | FileOfferStart | FileChunk | FileAck | FileTransferCancel
  | Ping | Pong | Error
deriving DecidableEq

/-- The `repr(u16)` discriminant, `message_type as u16`. -/
def MessageType.as_u16 : MessageType → UInt16
  | .Hello => 0x0001
  | .Welcome => 0x0002
  | .Goodbye => 0x0003
  | .MouseMove => 0x0100
  | .MouseMoveRelative => 0x0104
  | .MouseButton => 0x0101
  | .MouseScroll => 0x0102
  | .KeyEvent => 0x0103
  | .ScreenEnter => 0x0110
  | .ScreenLeave => 0x0111
  | .ModifierSync => 0x0112
  | .ClipboardFormats => 0x0200
  | .ClipboardRequest => 0x0201
  | .ClipboardData => 0x0202
  | .FileOfferStart => 0x0300
  | .FileChunk => 0x0301
  | .FileAck => 0x0302
  | .FileTransferCancel => 0x0303
  | .Ping => 0x0F00
  | .Pong => 0x0F01
  | .Error => 0x0F02

/-- `from_u16`: the ids the decoder knows. -/
def MessageType.from_u16 (v : UInt16) : Option MessageType :=
  match v with
  | 0x0001 => some .Hello
  | 0x0002 => some .Welcome
  | 0x0003 => some .Goodbye
  | 0x0100 => some .MouseMove
  | 0x0104 => some .MouseMoveRelative
  | 0x0101 => some .MouseButton
  | 0x0102 => some .MouseScroll
  | 0x0103 => some .KeyEvent
  | 0x0110 => some .ScreenEnter
  | 0x0111 => some .ScreenLeave
  | 0x0112 => some .ModifierSync
  | 0x0200 => some .ClipboardFormats
  | 0x0201 => some .ClipboardRequest
  | 0x0202 => some .ClipboardData
  | 0x0300 => some .FileOfferStart
  | 0x0301 => some .FileChunk
  | 0x0302 => some .FileAck
  | 0x0303 => some .FileTransferCancel
  | 0x0F00 => some .Ping
  | 0x0F01 => some .Pong
  | 0x0F02 => some .Error
  | _ => none

/-- The two tables are inverse: every id a header can carry is recognised. -/
@[simp] theorem MessageType.from_u16_as_u16 (t : MessageType) :
    MessageType.from_u16 t.as_u16 = some t := by
  cases t <;> rfl

/-! ## Payloads

One structure for each payload of the source, with all of its fields. Which of them a
receiver reads is another matter; the codec writes every one. -/

/-- `Capabilities`. They are exchanged and agreed on, and nothing else looks at them. -/
structure Capabilities where
  clipboard_text : Bool
  clipboard_html : Bool
  clipboard_image : Bool
  clipboard_files : Bool
  file_transfer : Bool
  zstd_compression : Bool
deriving DecidableEq

/-- `Hello`: what a client says first. -/
structure Hello where
  peer_id : PeerId
  peer_name : String
  protocol_version : UInt16
  capabilities : Capabilities
deriving DecidableEq

/-- `Welcome`: what the server replies. -/
structure Welcome where
  peer_id : PeerId
  peer_name : String
  accepted_capabilities : Capabilities
  assigned_screen : ScreenId
deriving DecidableEq

/-- `Goodbye`. -/
structure Goodbye where
  reason : String
deriving DecidableEq

/-- `ClipboardFormat`. The managers offer and read the first and the fourth. -/
inductive ClipboardFormat
  | PlainText | Html | Rtf | Png | UriList
deriving DecidableEq

/-- A 256-bit digest, `[u8; 32]`. -/
abbrev Hash := Vector UInt8 32

/-- `ClipboardPayload`: content with where it came from, and its hash. -/
structure ClipboardPayload where
  format : ClipboardFormat
  bytes : List UInt8
  originator : PeerId
  hash : Hash
deriving DecidableEq

/-- `FileEntry`: a file of an offer, by its path as text. -/
structure FileEntry where
  relative_path : String
  size : UInt64
  blake3 : Hash
deriving DecidableEq

/-- `FileManifest`. -/
structure FileManifest where
  files : List FileEntry
  total_bytes : UInt64
deriving DecidableEq

/-- `FileOffer`. The number is the sender's, and the receiver's table is keyed by it. -/
structure FileOffer where
  transfer_id : UInt64
  manifest : FileManifest
  compressed : Bool
deriving DecidableEq

/-- `FileChunk`: a piece of a file, with where it goes and whether it is the last. -/
structure FileChunk where
  transfer_id : UInt64
  file_index : UInt32
  offset : UInt64
  data : List UInt8
  is_last : Bool
deriving DecidableEq

/-! ## Messages

The language itself, the id of each variant, and the translation from the events the
capture produces. -/

/-- `Message`, in declaration order. -/
inductive Message
  | Hello (hello : Hello)
  | Welcome (welcome : Welcome)
  | Goodbye (goodbye : Goodbye)
  | MouseMove (x y : Int32)
  | MouseMoveRelative (dx dy : Int32)
  | MouseButton (event : MouseEvent)
  | MouseScroll (event : MouseEvent)
  | KeyEvent (event : KeyEvent)
  | ScreenEnter (x y : Int32) (modifiers : ModifierState)
  | ScreenLeave (peer_screen : UInt32)
  | ModifierSync (modifiers : ModifierState)
  | ClipboardFormats (formats : List ClipboardFormat) (hash : Hash)
  | ClipboardRequest (format : ClipboardFormat)
  | ClipboardData (payload : ClipboardPayload)
  | FileOfferStart (offer : FileOffer)
  | FileChunk (chunk : FileChunk)
  | FileAck (transfer_id received_through : UInt64)
  | FileTransferCancel (transfer_id : UInt64) (reason : String)
  | Ping (nonce timestamp_ms : UInt64)
  | Pong (nonce timestamp_ms : UInt64)
  | Error (code : UInt32) (message : String)
deriving DecidableEq

/-- `message_type`: the variant's id. -/
def Message.message_type : Message → MessageType
  | .Hello _ => .Hello
  | .Welcome _ => .Welcome
  | .Goodbye _ => .Goodbye
  | .MouseMove .. => .MouseMove
  | .MouseMoveRelative .. => .MouseMoveRelative
  | .MouseButton _ => .MouseButton
  | .MouseScroll _ => .MouseScroll
  | .KeyEvent _ => .KeyEvent
  | .ScreenEnter .. => .ScreenEnter
  | .ScreenLeave _ => .ScreenLeave
  | .ModifierSync _ => .ModifierSync
  | .ClipboardFormats .. => .ClipboardFormats
  | .ClipboardRequest _ => .ClipboardRequest
  | .ClipboardData _ => .ClipboardData
  | .FileOfferStart _ => .FileOfferStart
  | .FileChunk _ => .FileChunk
  | .FileAck .. => .FileAck
  | .FileTransferCancel .. => .FileTransferCancel
  | .Ping .. => .Ping
  | .Pong .. => .Pong
  | .Error .. => .Error

/-- `Message::from_input`: the high-level event as the router puts it on the
wire. -/
def Message.from_input : InputEvent → Message
  | .Mouse (.Move x y) => .MouseMove x y
  | .Mouse (.MoveRelative dx dy) => .MouseMoveRelative dx dy
  | .Mouse (.Button button state) => .MouseButton (.Button button state)
  | .Mouse (.Scroll delta) => .MouseScroll (.Scroll delta)
  | .Key k => .KeyEvent k
  | .ScreenEnter x y modifiers => .ScreenEnter x y modifiers
  | .ScreenLeave peer_screen => .ScreenLeave peer_screen
  | .ModifierSync m => .ModifierSync m

end InputSync
