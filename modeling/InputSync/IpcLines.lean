/-
The IPC transport (`crates/ipc/src/transport.rs`): a value is a line, its JSON
text and a line feed.

A reader takes the bytes up to the next line feed, so a line is a value only if
no text has a line feed in it. A JSON text has no control character, and in
UTF-8 the byte of a line feed is part of no other character (`newline_byte`).
What is read off the front of a stream is then the value whose line is there,
and what is left is the stream after that line (`read_write_json_line`).
-/
import InputSync.Ipc
import Mathlib.Data.List.DropRight

set_option autoImplicit false

namespace InputSync

/-! ## Lines

The transport in terms of bytes: what a line is, and the three ways of failing to read a
value from one. -/

/-- The bytes of a text. -/
def utf8 (s : String) : List UInt8 := s.toUTF8.data.toList

/-- `char::is_whitespace`. -/
def is_whitespace (c : Char) : Bool :=
  let n := c.toNat
  (0x09 ≤ n ∧ n ≤ 0x0d) ∨ n = 0x20 ∨ n = 0x85 ∨ n = 0xa0 ∨ n = 0x1680 ∨ (0x2000 ≤ n ∧ n ≤ 0x200a) ∨
    n = 0x2028 ∨ n = 0x2029 ∨ n = 0x202f ∨ n = 0x205f ∨ n = 0x3000

/-- `str::trim_end`. -/
def trim_end (line : String) : String := .ofList (line.toList.rdropWhile is_whitespace)

/-- `read_line` off the front of a stream: the bytes up to a line feed, or all
of them, and what follows. -/
def read_line (stream : List UInt8) : List UInt8 × List UInt8 :=
  match stream.dropWhile (· ≠ 0x0a) with
  | [] => (stream, [])
  | newline :: rest => (stream.takeWhile (· ≠ 0x0a) ++ [newline], rest)

/-- Why nothing could be read: "ipc peer disconnected", bytes that are not
UTF-8, or "parse ipc message" with the text. -/
inductive IpcReadError
  | disconnected
  | invalid_utf8
  | parse (trimmed : String)
deriving DecidableEq

section Lines

variable {α : Type} (json : SerdeJson) (s : Serde α)

/-- `write_json_line`: the text and a line feed. -/
def write_json_line (val : α) : List UInt8 := utf8 (json.to_string (s.ser val)) ++ [0x0a]

/-- `read_json_line`. An empty read is the end of the connection; any other line is
text, and the text a value, or it fails. -/
def read_json_line (stream : List UInt8) : Except IpcReadError (α × List UInt8) :=
  let (line, rest) := read_line stream
  if line.length = 0 then .error .disconnected
  else
    match String.fromUTF8? ⟨line.toArray⟩ with
    | none => .error .invalid_utf8
    | some line =>
      let trimmed := trim_end line
      match (json.from_str trimmed).bind s.de with
      | none => .error (.parse trimmed)
      | some val => .ok (val, rest)

/-- One value after the other. -/
def read_many (read : List UInt8 → Except IpcReadError (α × List UInt8)) :
    Nat → List UInt8 → Except IpcReadError (List α × List UInt8)
  | 0, stream => .ok ([], stream)
  | n + 1, stream => do
    let (val, stream) ← read stream
    let (vals, stream) ← read_many read n stream
    return (val :: vals, stream)

end Lines

/-! ## The ends of a connection

The five functions of the source, as instances. -/

namespace IpcConnection

variable (json : SerdeJson) (text : SocketText)

/-- What each end writes and reads, at its types. -/
def write_request (req : IpcRequest) : List UInt8 :=
  write_json_line json (Serde.ipc_request text) req

/-- The daemon's answers, -/
def write_response (resp : IpcResponse) : List UInt8 :=
  write_json_line json (Serde.ipc_response text) resp

/-- and its events. -/
def write_event (evt : IpcEvent) : List UInt8 := write_json_line json Serde.ipc_event evt

/-- What the daemon reads, -/
def read_request (stream : List UInt8) : Except IpcReadError (IpcRequest × List UInt8) :=
  read_json_line json (Serde.ipc_request text) stream

/-- and what a client does. -/
def read_message (stream : List UInt8) : Except IpcReadError (IpcMessage × List UInt8) :=
  read_json_line json (Serde.ipc_message text) stream

/-- A response is written by `write_response`, an event by `write_event`. -/
def write_message : IpcMessage → List UInt8
  | .Response response => write_response json text response
  | .Event event => write_event json event

end IpcConnection

/-! ## A text is on one line

A line feed ends a value, so there must be none inside. This goes through UTF-8, where
each byte of a longer character has its top bit set. -/

/-- The bytes of a text are those of its characters, one after the other. -/
theorem utf8_ofList (cs : List Char) : utf8 (.ofList cs) = cs.flatMap String.utf8EncodeChar := by
  simp [utf8, List.utf8Encode]

/-- And those of two texts are appended. -/
theorem utf8_append (s t : String) : utf8 (s ++ t) = utf8 s ++ utf8 t := by
  simp [utf8]

/-- Decoding undoes encoding. -/
theorem fromUTF8_utf8 (s : String) : String.fromUTF8? ⟨(utf8 s).toArray⟩ = some s := by
  simp only [utf8, Array.toArray_toList, String.fromUTF8?]
  exact dif_pos s.isValidUTF8

/-- In UTF-8 the byte of a line feed is a line feed. A later byte of a character
is no first byte, and the first one decodes to the character. -/
theorem newline_byte {c : Char} (h : 0x0a ∈ String.utf8EncodeChar c) : c = '\n' := by
  -- a byte below 128 can only be the first byte of a character, and so it is all of it
  obtain ⟨i, hi, hbyte⟩ := List.getElem_of_mem h
  have hfirst : i = 0 := by
    apply UInt8.isUTF8FirstByte_getElem_utf8EncodeChar.mp
    rw [hbyte]
    decide
  subst hfirst
  obtain ⟨rest, hrest⟩ : ∃ rest, String.utf8EncodeChar c = 0x0a :: rest := by
    cases henc : String.utf8EncodeChar c with
    | nil => exact absurd henc String.utf8EncodeChar_ne_nil
    | cons b rest =>
        simp only [henc, List.getElem_cons_zero] at hbyte
        exact ⟨rest, by rw [hbyte]⟩
  have hdecode : ∀ d : Char, ∀ b : List UInt8, ByteArray.utf8DecodeChar?
      (String.utf8EncodeChar d ++ b).toByteArray 0 = some d := by
    intro d b
    rw [List.toByteArray_append]
    exact ByteArray.utf8DecodeChar?_utf8EncodeChar_append
  have hc := hdecode c []
  have hnewline := hdecode '\n' rest
  rw [List.append_nil, hrest] at hc
  exact Option.some.inj (hc.symm.trans hnewline)

/-- A text without control characters has no line feed among its bytes. -/
theorem newline_not_mem {s : String} (h : ∀ c ∈ s.toList, 0x20 ≤ c.toNat) : 0x0a ∉ utf8 s := by
  intro hmem
  rw [← String.ofList_toList (s := s), utf8_ofList] at hmem
  obtain ⟨c, hc, hbyte⟩ := List.mem_flatMap.mp hmem
  rw [newline_byte hbyte] at hc
  exact absurd (h _ hc) (by decide)

/-- The first line of a stream. -/
theorem read_line_append {line : List UInt8} (h : 0x0a ∉ line) (rest : List UInt8) :
    read_line (line ++ [0x0a] ++ rest) = (line ++ [0x0a], rest) := by
  have hall : ∀ b ∈ line, decide (b ≠ 0x0a) = true := by
    intro b hb
    refine decide_eq_true ?_
    rintro rfl
    exact h hb
  have htake : (line ++ [0x0a] ++ rest).takeWhile (· ≠ 0x0a) = line := by
    rw [List.append_assoc, List.takeWhile_append_of_pos hall]
    simp
  have hdrop : (line ++ [0x0a] ++ rest).dropWhile (· ≠ 0x0a) = 0x0a :: rest := by
    rw [List.append_assoc, List.dropWhile_append_of_pos hall]
    simp
  unfold read_line
  rw [hdrop, htake]

/-- A text between braces loses its line feed and nothing else. -/
theorem trim_end_braces {s : String} {body : List Char} (h : s.toList = '{' :: (body ++ ['}'])) :
    trim_end (s ++ "\n") = s := by
  have hspace : is_whitespace '\n' = true := by decide
  have hbrace : ¬ is_whitespace '}' = true := by decide
  have hline : (s ++ "\n").toList = ('{' :: body) ++ ['}'] ++ ['\n'] := by
    rw [String.toList_append, h]
    rfl
  unfold trim_end
  rw [hline, List.rdropWhile_concat_pos _ _ _ hspace, List.rdropWhile_concat_neg _ _ _ hbrace,
    List.cons_append, ← h, String.ofList_toList]

/-- **One line.** A value that is written as an object, at a depth that is read,
is read back, and the rest of the stream is left. -/
theorem read_write_json_line {α : Type} (json : SerdeJson) (s : Serde α) (hdepth : s.depth ≤ 127)
    {val : α} {es : List (String × Json)} (hobj : s.ser val = .obj es) (rest : List UInt8) :
    read_json_line json s (write_json_line json s val ++ rest) = .ok (val, rest) := by
  have hline := newline_not_mem (json.no_control (s.ser val))
  have hbytes : write_json_line json s val = utf8 (json.to_string (s.ser val) ++ "\n") := by
    rw [utf8_append]
    rfl
  obtain ⟨body, hbody⟩ := json.braces es
  rw [← hobj] at hbody
  have hfits : (s.ser val).Fits 127 := (s.fits val).mono hdepth
  unfold read_json_line
  rw [write_json_line, read_line_append hline]
  dsimp only
  rw [if_neg (by simp), ← write_json_line, hbytes, fromUTF8_utf8]
  dsimp only
  rw [trim_end_braces hbody, json.from_str_to_string _ hfits, Option.bind_some, s.de_ser]

/-- **A run of lines.** -/
theorem read_many_write {α : Type} (write : α → List UInt8)
    (read : List UInt8 → Except IpcReadError (α × List UInt8))
    (hread : ∀ val rest, read (write val ++ rest) = .ok (val, rest)) (vals : List α)
    (rest : List UInt8) :
    read_many read vals.length (vals.flatMap write ++ rest) = .ok (vals, rest) := by
  induction vals with
  | nil => rfl
  | cons val vals ih =>
      rw [List.flatMap_cons, List.append_assoc, List.length_cons, read_many, hread]
      simp only [bind, Except.bind, ih]
      rfl

/-- A value is written as one line: the only line feed is the last byte. -/
theorem count_newline {α : Type} (json : SerdeJson) (s : Serde α) (val : α) :
    (write_json_line json s val).count 0x0a = 1 := by
  have hline := newline_not_mem (json.no_control (s.ser val))
  rw [write_json_line, List.count_append, List.count_eq_zero_of_not_mem hline]
  rfl

/-- So what is written has as many line feeds as values. -/
theorem count_newlines {α : Type} {write : α → List UInt8}
    (hwrite : ∀ val, (write val).count 0x0a = 1) (vals : List α) :
    (vals.flatMap write).count 0x0a = vals.length := by
  induction vals with
  | nil => rfl
  | cons val vals ih =>
      rw [List.flatMap_cons, List.count_append, hwrite, ih, List.length_cons, Nat.add_comm]

/-! ## What is written is read

One value, then a sequence of them. -/

section RoundTrip

open IpcConnection

variable (json : SerdeJson) (text : SocketText)

/-- A request is written as an object, so `read_write_json_line` applies. -/
theorem read_write_request (req : IpcRequest) (rest : List UInt8) :
    read_request json text (write_request json text req ++ rest) = .ok (req, rest) := by
  obtain ⟨v, -, es, -, hobj⟩ := Serde.tagged_ser (Serde.ipc_request_table text) req
  have hdepth : (Serde.ipc_request text).depth ≤ 127 := show 5 ≤ 127 by decide
  exact read_write_json_line json (Serde.ipc_request text) hdepth hobj rest

/-- What either of the two writes is what the untagged message is written as. -/
theorem write_message_eq (message : IpcMessage) :
    write_message json text message = write_json_line json (Serde.ipc_message text) message := by
  cases message <;> rfl

/-- A response or an event is read back as what it is. The untagged enum tries the
response first; that an event is not taken for one is in `Serde`. -/
theorem read_write_message (message : IpcMessage) (rest : List UInt8) :
    read_message json text (write_message json text message ++ rest) = .ok (message, rest) := by
  have hobj : ∃ es, (Serde.ipc_message text).ser message = .obj es := by
    cases message with
    | Response response =>
        obtain ⟨v, -, es, -, hobj⟩ := Serde.tagged_ser (Serde.ipc_response_table text) response
        exact ⟨_, hobj⟩
    | Event event =>
        obtain ⟨v, -, es, -, hobj⟩ := Serde.tagged_ser Serde.ipc_event_table event
        exact ⟨_, hobj⟩
  obtain ⟨es, hobj⟩ := hobj
  have hdepth : (Serde.ipc_message text).depth ≤ 127 := show 4 ≤ 127 by decide
  rw [write_message_eq]
  exact read_write_json_line json (Serde.ipc_message text) hdepth hobj rest

/-- **The line protocol.** Whatever requests are written are read, in order,
and whatever responses and events, each as what it is; each takes one line. -/
theorem lines_round_trip (requests : List IpcRequest) (messages : List IpcMessage)
    (rest : List UInt8) :
    read_many (read_request json text) requests.length
        (requests.flatMap (write_request json text) ++ rest) = .ok (requests, rest) ∧
      (requests.flatMap (write_request json text)).count 0x0a = requests.length ∧
      read_many (read_message json text) messages.length
        (messages.flatMap (write_message json text) ++ rest) = .ok (messages, rest) ∧
      (messages.flatMap (write_message json text)).count 0x0a = messages.length := by
  refine ⟨?_, ?_, ?_, ?_⟩
  · exact read_many_write _ _ (read_write_request json text) requests rest
  · exact count_newlines (fun req => count_newline json (Serde.ipc_request text) req) requests
  · exact read_many_write _ _ (read_write_message json text) messages rest
  · apply count_newlines
    intro message
    rw [write_message_eq]
    exact count_newline json (Serde.ipc_message text) message

end RoundTrip

open IpcConnection in
/-- With line breaks, quotes and a control character in the strings. -/
theorem lines_round_trip_compact :
    let requests : List IpcRequest :=
      [.UpdateConfig { Config.default "a\n\"b\"" with log_dir := some "/var/log" }, .GetStatus,
        .Connect "10.0.0.2:24800" none]
    let messages : List IpcMessage :=
      [.Event (.Log "line\r\n"), .Response (.Logs ["\u0001", "b\\"]), .Response .Ok]
    let json := SerdeJson.compact
    let text := SocketText.plain
    read_many (read_request json text) 3 (requests.flatMap (write_request json text) ++ [])
        = .ok (requests, []) ∧
      (requests.flatMap (write_request json text)).count 0x0a = 3 ∧
      read_many (read_message json text) 3 (messages.flatMap (write_message json text) ++ [])
        = .ok (messages, []) ∧
      (messages.flatMap (write_message json text)).count 0x0a = 3 := by
  intro requests messages json text
  exact lines_round_trip json text requests messages []

end InputSync
