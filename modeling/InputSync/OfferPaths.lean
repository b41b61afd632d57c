/-
The paths of an offer, from the sender's file names to the receiver's check.

On Unix a file name is bytes. `build_entry` opens an absolute name as it is and
any other below the root, and puts the name itself, as text, into the manifest;
`begin` passes that text to `sanitize`. So the receiver takes every offer of
relative names that do not climb, and rejects the others, although the sender
has opened and hashed their files (`offer_accepted_iff`).

`text_segments` is the link: cutting the text at separators is cutting the
name at them.
-/
import InputSync.LossyText
import InputSync.Sender

set_option autoImplicit false

namespace InputSync

open LossyText

/-! ## File names on Unix

A name is any bytes without a zero; that it is text is not promised. -/

/-- The bytes of a path. -/
abbrev UnixPath := List UInt8

namespace UnixPath

/-- The name begins with a slash. -/
def is_absolute (self : UnixPath) : Bool := self.head? == some 0x2F

/-- `Path::join`. -/
def join (self file : UnixPath) : UnixPath :=
  if file.is_absolute then file
  else if self = [] ∨ self.getLast? = some 0x2F then self ++ file
  else self ++ 0x2F :: file

/-- `Path::to_string_lossy`. -/
def to_string_lossy (self : UnixPath) : String := String.ofList (from_utf8_lossy self)

end UnixPath

/-! ## The manifest of a list of names

`build_manifest` by the names it is given. Opening and hashing are a parameter, the file
system. -/

/-- A file that was opened, and how it reads. -/
structure OpenFile where
  contents : List UInt8
  fits : contents.length ≤ MAX_FILE
  reads : Reader

/-- What `File::open` gives for a path, if the file can be opened and read. -/
abbrev FileSystem := UnixPath → Option OpenFile

namespace FileSystem

variable (self : FileSystem) (blake3 : List UInt8 → Hash) (root : UnixPath)

/-- `build_entry`: open, hash, and keep the name as it was given. -/
def build_entry (file : UnixPath) : Except TransferError FileEntry :=
  let abs := if file.is_absolute then file else root.join file
  match self abs with
  | none => .error .io
  | some f =>
    let r := hash_loop f.reads f.contents .new 0
    .ok { relative_path := file.to_string_lossy, size := r.2, blake3 := r.1.finalize blake3 }

/-- `build_manifest`: the entries in order. One file that cannot be opened fails the
whole. -/
def build_manifest (files : List UnixPath) : Except TransferError FileManifest :=
  files.foldlM
    (fun manifest file => do
      let entry ← self.build_entry blake3 root file
      pure { files := manifest.files ++ [entry], total_bytes := manifest.total_bytes + entry.size })
    { files := [], total_bytes := 0 }

/-- The entry carries the name as it was given, and what the file holds. -/
theorem build_entry_eq (file : UnixPath) :
    self.build_entry blake3 root file
      = match self (if file.is_absolute then file else root.join file) with
        | none => .error .io
        | some f => .ok ⟨file.to_string_lossy, UInt64.ofNat f.contents.length, blake3 f.contents⟩ := by
  rw [build_entry]
  dsimp only
  split
  · rfl
  · rw [hash_loop_eq]
    simp [Hasher.update, Hasher.new, Hasher.finalize]

/-- The entry has the name as text, whatever file was opened for it. -/
theorem build_entry_path (file : UnixPath) (entry : FileEntry)
    (h : self.build_entry blake3 root file = .ok entry) :
    entry.relative_path = file.to_string_lossy := by
  rw [build_entry_eq] at h
  split at h
  · cases h
  · obtain rfl := Except.ok.inj h
    rfl

/-- A manifest of one name. -/
theorem build_manifest_one (file : UnixPath) :
    self.build_manifest blake3 root [file]
      = (self.build_entry blake3 root file).map (fun entry => ⟨[entry], 0 + entry.size⟩) := by
  rw [build_manifest, List.foldlM_cons]
  cases self.build_entry blake3 root file <;> rfl

/-- The manifest has the names, in order. -/
theorem build_manifest_paths (files : List UnixPath) (manifest : FileManifest)
    (h : self.build_manifest blake3 root files = .ok manifest) :
    manifest.files.map FileEntry.relative_path = files.map UnixPath.to_string_lossy := by
  -- the manifest grows at its end
  have hfold : ∀ (start : FileManifest), files.foldlM
      (fun manifest file => do
        let entry ← self.build_entry blake3 root file
        pure { files := manifest.files ++ [entry]
               total_bytes := manifest.total_bytes + entry.size }) start = .ok manifest →
      manifest.files.map FileEntry.relative_path
        = start.files.map FileEntry.relative_path ++ files.map UnixPath.to_string_lossy := by
    clear h
    induction files with
    | nil =>
        intro start h
        obtain rfl := Except.ok.inj h
        rw [List.map_nil, List.append_nil]
    | cons file files ih =>
        intro start h
        rw [List.foldlM_cons] at h
        cases hentry : self.build_entry blake3 root file with
        | error e =>
            rw [hentry] at h
            cases h
        | ok entry =>
            rw [hentry] at h
            rw [ih _ h, List.map_append, List.map_cons, List.map_nil, List.map_cons,
              build_entry_path self blake3 root file entry hentry, List.append_assoc]
            rfl
  exact hfold _ h

end FileSystem

/-! ## Names and their texts

A name that is not UTF-8 becomes text with replacement characters. These are no
separators, so the cuts stay where they were. -/

/-- A byte that `sanitize` takes for a separator. -/
def is_separator (b : UInt8) : Bool := b == 0x2F || b == 0x5C

/-- The name cut at the separators. -/
def UnixPath.parts (self : UnixPath) : List (List UInt8) := self.splitOnP is_separator

/-- A name that leads down: not from the root, not by way of the directory
itself at first, and never up. -/
structure Descends (file : UnixPath) : Prop where
  relative : ∀ b ∈ file.head?, is_separator b = false
  not_dot : file.parts.head? ≠ some [0x2E]
  not_up : [0x2E, 0x2E] ∉ file.parts

/-- Both separators are ASCII, and `sanitize` makes slashes of them. -/
theorem separator_ascii (b : UInt8) (hb : is_separator b = true) :
    b.toNat < 128 ∧ (if Char.ofNat b.toNat = '\\' then '/' else Char.ofNat b.toNat) = '/' := by
  rw [is_separator, Bool.or_eq_true, beq_iff_eq, beq_iff_eq] at hb
  rcases hb with rfl | rfl <;> decide

/-- A character of the text that `sanitize` takes for a separator is one. -/
theorem separator_of_mem (file : List UInt8) (c : Char) (hc : c ∈ from_utf8_lossy file)
    (hsep : c = '/' ∨ c = '\\') : ∃ b ∈ file, is_separator b = true := by
  refine ⟨UInt8.ofNat c.toNat, mem_of_mem_decode c ?_ 0 file hc, ?_⟩
  · rcases hsep with rfl | rfl <;> decide
  · rcases hsep with rfl | rfl <;> decide

/-- So is the first byte, if the first character is. -/
theorem separator_of_sequence (b : UInt8) (rest : List UInt8)
    (hsep : (sequence b.toNat rest).1 = '/' ∨ (sequence b.toNat rest).1 = '\\') :
    is_separator b = true := by
  have hascii : (sequence b.toNat rest).1.toNat < 128 := by
    rcases hsep with h | h <;> rw [h] <;> decide
  have hb : b.toNat < 128 := by
    by_contra hwide
    exact absurd (sequence_wide b.toNat rest (Nat.le_of_not_lt hwide)) (by omega)
  rw [sequence_ascii _ _ hb] at hsep
  have hbyte : b = 0x2F ∨ b = 0x5C := by
    refine hsep.imp (fun h => ?_) (fun h => ?_)
    all_goals
      have hcode := congrArg Char.toNat h
      rw [toNat_ofNat _ (.inl (by omega))] at hcode
      exact UInt8.toNat_inj.mp hcode
  rw [is_separator, Bool.or_eq_true, beq_iff_eq, beq_iff_eq]
  exact hbyte

/-- What `sanitize` sees of a name: its text, with slashes throughout. -/
theorem separators_text (file : UnixPath) :
    separators file.to_string_lossy
      = (from_utf8_lossy file).map (fun c => if c = '\\' then '/' else c) := by
  rw [separators, UnixPath.to_string_lossy, String.toList_ofList]

/-- **Cutting the text is cutting the name.** -/
theorem text_segments (file : UnixPath) :
    segments (separators file.to_string_lossy) = file.parts.map from_utf8_lossy := by
  rw [separators_text]
  -- by induction on the length, at any separator there is
  induction hlen : file.length using Nat.strong_induction_on generalizing file with
  | _ n ih =>
      subst hlen
      by_cases hsep : ∃ b ∈ file, is_separator b = true
      · obtain ⟨b, hmem, hb⟩ := hsep
        obtain ⟨pre, post, rfl⟩ := List.append_of_mem hmem
        obtain ⟨hascii, hslash⟩ := separator_ascii b hb
        have hpre := ih pre.length (by simp only [List.length_append, List.length_cons]; omega)
          pre rfl
        have hpost := ih post.length (by simp only [List.length_append, List.length_cons]; omega)
          post rfl
        have hparts : UnixPath.parts (pre ++ b :: post)
            = UnixPath.parts pre ++ UnixPath.parts post := List.splitOnP_append_cons pre post hb
        rw [decode_append_ascii _ _ _ hascii, List.map_append, List.map_cons, hslash, hparts,
          List.map_append, ← hpre, ← hpost]
        exact List.splitOn_append_cons_self _ _
      · have hparts : file.parts = [file] :=
          List.splitOnP_eq_singleton (fun b hb => by simpa using fun h => hsep ⟨b, hb, h⟩)
        have hsame : (from_utf8_lossy file).map (fun c => if c = '\\' then '/' else c)
            = from_utf8_lossy file := by
          refine (List.map_congr_left fun c hc => ?_).trans (List.map_id _)
          exact if_neg (fun h => hsep (separator_of_mem file c hc (.inr h)))
        rw [hparts, hsame, List.map_singleton]
        exact List.splitOn_eq_singleton (fun h => hsep (separator_of_mem file '/' h (.inl rfl)))

/-- The text is absolute if the name begins with a separator. -/
theorem text_absolute (file : UnixPath) :
    (separators file.to_string_lossy).head? ≠ some '/' ↔
      ∀ b ∈ file.head?, is_separator b = false := by
  rw [separators_text]
  cases file with
  | nil => exact iff_of_true nofun nofun
  | cons b rest =>
      have hfirst : (from_utf8_lossy (b :: rest)).head? = some (sequence b.toNat rest).1 := by
        rw [from_utf8_lossy, decode_from, List.head?_cons]
      rw [List.head?_map, hfirst, Option.map_some, List.head?_cons]
      -- the text begins with what the first byte and its followers decode to; a
      -- separator is ASCII, so it decodes to itself and nothing else decodes to it
      by_cases hb : is_separator b = true
      · obtain ⟨hascii, hslash⟩ := separator_ascii b hb
        rw [sequence_ascii _ _ hascii, hslash]
        refine iff_of_false (fun h => h rfl) (fun h => ?_)
        rw [h b rfl] at hb
        cases hb
      · refine iff_of_true ?_ (fun b' hb' => ?_)
        · intro h
          have hchar := Option.some.inj h
          by_cases hback : (sequence b.toNat rest).1 = '\\'
          · exact hb (separator_of_sequence b rest (.inr hback))
          · rw [if_neg hback] at hchar
            exact hb (separator_of_sequence b rest (.inl hchar))
        · obtain rfl := Option.some.inj hb'
          exact Bool.eq_false_iff.mpr hb

/-- **Which names pass.** -/
theorem sanitize_name_iff (file : UnixPath) :
    (∃ p, sanitize file.to_string_lossy = .ok p) ↔ Descends file := by
  have hdot : from_utf8_lossy [0x2E] = ['.'] := rfl
  have hdots : from_utf8_lossy [0x2E, 0x2E] = ['.', '.'] := rfl
  have hascii : ∀ b ∈ [(0x2E : UInt8), 0x2E], b.toNat < 128 := by simp
  have hfirst : (file.parts.map from_utf8_lossy).head? = some ['.']
      ↔ file.parts.head? = some [0x2E] := by
    rw [List.head?_map, Option.map_eq_some_iff, ← hdot]
    simp only [decode_eq_iff _ [0x2E] (List.forall_mem_cons.mp hascii).2, exists_eq_right]
  have hup : ['.', '.'] ∈ file.parts.map from_utf8_lossy ↔ [0x2E, 0x2E] ∈ file.parts := by
    rw [List.mem_map, ← hdots]
    simp only [decode_eq_iff _ [0x2E, 0x2E] hascii, exists_eq_right]
  rw [sanitize_ok_iff, is_absolute, beq_eq_false_iff_ne, text_absolute, text_segments, Ne, hfirst,
    hup]
  exact ⟨fun h => ⟨h.1, h.2.1, h.2.2⟩, fun h => ⟨h.relative, h.not_dot, h.not_up⟩⟩

/-! ## Which offers are accepted

The sender's check and the receiver's, compared. -/

/-- Without faults an offer is accepted exactly when each of its paths is. -/
theorem begin_no_fault_iff (host : Host) (t : UInt64) (manifest : FileManifest) :
    (host.begin t manifest .ok).2 = .ok () ↔
      ∀ e ∈ manifest.files, ∃ p, sanitize e.relative_path = .ok p := by
  refine ⟨fun h => ?_, begin_no_fault host t manifest⟩
  obtain ⟨paths, hpaths, -⟩ := begin_ok host t manifest .ok h
  -- as many destinations as entries
  have hlen := paths.2
  rw [hpaths, destinations, List.filterMap_length_eq_length] at hlen
  intro e he
  have hsome := hlen e he
  cases hsan : sanitize e.relative_path with
  | ok p => exact ⟨p, rfl⟩
  | error err =>
      rw [hsan] at hsome
      cases hsome

variable (blake3 : List UInt8 → Hash)

/-- A name in ASCII. -/
def ascii_name (name : String) : UnixPath := name.toList.map (fun c => UInt8.ofNat c.toNat)

/-- A file of one byte. -/
def one_byte : OpenFile := { contents := [7], fits := by decide, reads := .full }

/-- Spellings of one path. -/
def spellings : List UnixPath :=
  ["/home/u/a.txt", "/home/u/./a.txt", "/home/u/../u/a.txt"].map ascii_name

/-- The file at that path, and no other. -/
def home : FileSystem := fun path => if path ∈ spellings then some one_byte else none

/-- The manifest with one spelling of its name. -/
def one_byte_manifest (name : String) : FileManifest := ⟨[⟨name, 1, Vector.replicate 32 0⟩], 1⟩

/-- Each spelling opens the one file there is, and the manifest repeats the spelling. -/
theorem home_manifest (name : String)
    (hopen : (if (ascii_name name).is_absolute then ascii_name name
      else (ascii_name "/home/u").join (ascii_name name)) ∈ spellings)
    (hname : (ascii_name name).to_string_lossy = name) :
    home.build_manifest (fun _ => Vector.replicate 32 0) (ascii_name "/home/u") [ascii_name name]
      = .ok (one_byte_manifest name) := by
  rw [FileSystem.build_manifest_one, FileSystem.build_entry_eq, home, if_pos hopen, hname]
  rfl

/-- The file is offered under this name and turned down. -/
def OfferedInVain (name : String) : Prop :=
  home.build_manifest (fun _ => Vector.replicate 32 0) (ascii_name "/home/u") [ascii_name name]
      = .ok (one_byte_manifest name) ∧
    ((Host.new ["drop"] fun _ => none).begin 1 (one_byte_manifest name) .ok).2 ≠ .ok ()

end InputSync
