/-
The receiving end of a file transfer (`Receiver` in
`crates/filetransfer/src/lib.rs`): `begin`, `write_chunk` and
`resume_offsets`, on a table of transfers and a disk.

`write_chunk` works in three phases, as in the source: it looks the chunk up
under the lock, writes the file outside it, and commits under the lock again.
Every file operation may fail, a write after any prefix of its data; which
ones do is an argument of the call. The table has one entry per file of the
manifest by construction.

`write_chunk_cases` is what one call can do. The rest of the file builds on
it: the table is a record of the disk (`Faithful`), it stays one under every
call, and a file that only saw slices of one content can be completed from
its resume offset.
-/
import InputSync.Message
import InputSync.SafePath
import InputSync.Splice
import InputSync.Trace
import Mathlib.Data.UInt
import Mathlib.Logic.Function.Basic

set_option autoImplicit false

namespace InputSync

/-! ## The disk

A disk is a function from paths, and a failing operation is data of the call.
Directories and permissions do not occur: whether an operation succeeds is up to the
environment. -/

/-- The files under their paths; `none` where there is no file. -/
abbrev Disk := Path → Option (List UInt8)

/-- The largest file size: file offsets are signed 64-bit numbers. -/
def MAX_FILE : Nat := 2 ^ 63 - 1

/-- Which operations of a `begin` succeed: creating the drop directory, and for
each file creating its parent directory and the file. -/
structure BeginIo where
  drop_dir_ok : Bool
  parent_ok : Nat → Bool
  create_ok : Nat → Bool

/-- A file system that does what it is asked. -/
def BeginIo.ok : BeginIo :=
  { drop_dir_ok := true, parent_ok := fun _ => true, create_ok := fun _ => true }

/-- Which operations of a `write_chunk` succeed. A failing write says how many
bytes it wrote before. -/
structure WriteIo where
  open_ok : Bool
  seek_ok : Bool
  write_failed_after : Option Nat
  flush_ok : Bool

/-- A write that nothing fails in. -/
def WriteIo.ok : WriteIo :=
  { open_ok := true, seek_ok := true, write_failed_after := none, flush_ok := true }

/-- The part of the data a write puts into the file: all of it, or what came
before the failure or the size limit. -/
def WriteIo.landed (io : WriteIo) (offset : UInt64) (data : List UInt8) : List UInt8 :=
  (data.take (io.write_failed_after.getD data.length)).take (MAX_FILE - offset.toNat)

/-- Open for writing, seek, `write_all`, flush. -/
def write_file (disk : Disk) (path : Path) (offset : UInt64) (data : List UInt8) (io : WriteIo) :
    Disk × Except TransferError Unit :=
  match disk path with
  | none => (disk, .error .io)
  | some old =>
    if io.open_ok ∧ io.seek_ok ∧ offset.toNat ≤ MAX_FILE then
      let landed := io.landed offset data
      (Function.update disk path (some (splice 0 old offset.toNat landed)),
        if io.write_failed_after = none ∧ io.flush_ok ∧ landed.length = data.length then .ok ()
        else .error .io)
    else (disk, .error .io)

/-! ## The table of transfers

The entry of a transfer has its three columns as vectors of the length of the manifest,
so that an index checked against the manifest is an index into each of them. The source
keeps three `Vec`s that it pushes to in one loop. -/

/-- A blake3 hasher, by what it has absorbed. -/
structure Hasher where
  absorbed : List UInt8
deriving DecidableEq

namespace Hasher

/-- A fresh hasher. -/
def new : Hasher := ⟨[]⟩

/-- `update`. -/
def update (self : Hasher) (data : List UInt8) : Hasher := ⟨self.absorbed ++ data⟩

/-- `finalize`. -/
def finalize (self : Hasher) (blake3 : List UInt8 → Hash) : Hash := blake3 self.absorbed

end Hasher

/-- A transfer in progress: for each file of the manifest its destination, the
bytes received and the running hash. -/
structure RecvProgress where
  manifest : FileManifest
  paths : Vector Path manifest.files.length
  bytes_received : Vector UInt64 manifest.files.length
  hashers : Vector Hasher manifest.files.length

/-- `Receiver`: where files go, and the transfers in progress by their numbers. -/
structure Receiver where
  drop_dir : Path
  transfers : UInt64 → Option RecvProgress

/-- The receiver and the disk it writes to. -/
structure Host where
  receiver : Receiver
  disk : Disk

/-- An entry is put in, or replaced. -/
def Receiver.insert (self : Receiver) (transfer_id : UInt64) (progress : RecvProgress) :
    Receiver :=
  { self with transfers := Function.update self.transfers transfer_id (some progress) }

/-- A receiver without transfers, on a disk. -/
def Host.new (drop_dir : Path) (disk : Disk) : Host :=
  { receiver := { drop_dir, transfers := fun _ => none }, disk }

/-- The loop of `begin`: sanitize, create the parent, create or truncate the
file. What was created before a failure stays. -/
def create_files (drop_dir : Path) (io : BeginIo) (i : Nat) (disk : Disk) :
    (files : List FileEntry) →
    Disk × Except TransferError { paths : List Path // paths.length = files.length }
  | [] => (disk, .ok ⟨[], rfl⟩)
  | e :: files =>
    match sanitize e.relative_path with
    | .error err => (disk, .error err)
    | .ok sanitized =>
      let abs := drop_dir ++ sanitized
      if io.parent_ok i ∧ io.create_ok i then
        let r := create_files drop_dir io (i + 1) (Function.update disk abs (some [])) files
        (r.1, r.2.map (fun paths => ⟨abs :: paths.1, congrArg Nat.succ paths.2⟩))
      else (disk, .error .io)

/-- The entry `begin` inserts. -/
def RecvProgress.start (manifest : FileManifest)
    (paths : { paths : List Path // paths.length = manifest.files.length }) : RecvProgress :=
  { manifest
    paths := ⟨paths.1.toArray, paths.2⟩
    bytes_received := Vector.replicate _ 0
    hashers := Vector.replicate _ .new }

namespace Host

/-- `Receiver::begin`. -/
def begin (self : Host) (transfer_id : UInt64) (manifest : FileManifest) (io : BeginIo) :
    Host × Except TransferError Unit :=
  if io.drop_dir_ok then
    let r := create_files self.receiver.drop_dir io 0 self.disk manifest.files
    match r.2 with
    | .error e => ({ self with disk := r.1 }, .error e)
    | .ok paths =>
      ({ receiver := self.receiver.insert transfer_id (.start manifest paths), disk := r.1 }, .ok ())
  else (self, .error .io)

end Host

namespace Receiver

/-- The first phase of `write_chunk`: the path, the offset expected next, and
the hasher. -/
def lookup (self : Receiver) (chunk : FileChunk) : Except TransferError (Path × UInt64 × Hasher) :=
  match self.transfers chunk.transfer_id with
  | none => .error .unknown_transfer
  | some progress =>
    if h : chunk.file_index.toNat < progress.manifest.files.length then
      .ok (progress.paths[chunk.file_index.toNat], progress.bytes_received[chunk.file_index.toNat],
        progress.hashers[chunk.file_index.toNat])
    else .error .file_index_out_of_range

/-- The last phase: the offset and the hasher move on, and a last chunk is
checked against the manifest. -/
def commit (self : Receiver) (blake3 : List UInt8 → Hash) (chunk : FileChunk)
    (new_hasher : Hasher) : Receiver × Except TransferError UInt64 :=
  match self.transfers chunk.transfer_id with
  | none => (self, .error .unknown_transfer)
  | some progress =>
    if h : chunk.file_index.toNat < progress.manifest.files.length then
      let i := chunk.file_index.toNat
      let written := UInt64.ofNat chunk.data.length
      let next : RecvProgress := { progress with
        bytes_received := progress.bytes_received.set i (progress.bytes_received[i] + written)
        hashers := progress.hashers.set i new_hasher }
      let entry := progress.manifest.files[i]
      (self.insert chunk.transfer_id next,
        if chunk.is_last ∧ new_hasher.finalize blake3 ≠ entry.blake3 then
          .error (.blake3_mismatch entry.relative_path)
        else .ok next.bytes_received.toList.sum)
    -- the index was checked by `lookup` and no call comes in between
    else (self, .error .file_index_out_of_range)

end Receiver

namespace Host

/-- `Receiver::write_chunk`. -/
def write_chunk (self : Host) (blake3 : List UInt8 → Hash) (chunk : FileChunk) (io : WriteIo) :
    Host × Except TransferError UInt64 :=
  match self.receiver.lookup chunk with
  | .error e => (self, .error e)
  | .ok (path, expected_offset, hasher) =>
    if chunk.offset ≠ expected_offset then
      (self, .error (.chunk_out_of_order expected_offset chunk.offset))
    else
      match write_file self.disk path chunk.offset chunk.data io with
      | (disk, .error e) => ({ self with disk }, .error e)
      | (disk, .ok ()) =>
        let r := self.receiver.commit blake3 chunk (hasher.update chunk.data)
        ({ receiver := r.1, disk }, r.2)

/-- `Receiver::resume_offsets`. -/
def resume_offsets (self : Host) (transfer_id : UInt64) : Option (List UInt64) :=
  (self.receiver.transfers transfer_id).map (fun p => p.bytes_received.toList)

end Host

/-! ## Calls

The receiver as a machine, for the results about runs. -/

/-- A call on the receiver, with what the file system does during it. -/
inductive RecvOp
  | begin (transfer_id : UInt64) (manifest : FileManifest) (io : BeginIo)
  | chunk (chunk : FileChunk) (io : WriteIo)

/-- What a call returned. -/
inductive Outcome
  | begun (result : Except TransferError Unit)
  | wrote (result : Except TransferError UInt64)

/-- The call returned `Ok`. -/
def Outcome.accepted : Outcome → Bool
  | .begun (.ok _) | .wrote (.ok _) => true
  | _ => false

/-- One call. -/
def Host.step (blake3 : List UInt8 → Hash) (self : Host) : RecvOp → Host × List Outcome
  | .begin transfer_id manifest io =>
    let r := self.begin transfer_id manifest io
    (r.1, [.begun r.2])
  | .chunk chunk io =>
    let r := self.write_chunk blake3 chunk io
    (r.1, [.wrote r.2])

/-! ## What a `begin` can do

The inversion of `begin`, for success and failure, and what it leaves alone. -/

/-- Where the files of a manifest go. -/
def destinations (drop_dir : Path) (files : List FileEntry) : List Path :=
  files.filterMap (fun e => (sanitize e.relative_path).toOption.map (fun p => drop_dir ++ p))

/-- Nothing but the destinations is touched. -/
theorem create_files_frame (drop_dir : Path) (io : BeginIo) (files : List FileEntry) (i : Nat)
    (disk : Disk) (q : Path) (hq : q ∉ destinations drop_dir files) :
    (create_files drop_dir io i disk files).1 q = disk q := by
  -- a file is created at its own destination, and the first failure ends the loop
  induction files generalizing i disk with
  | nil => rfl
  | cons e files ih =>
      rw [create_files]
      cases hsan : sanitize e.relative_path with
      | error err => rfl
      | ok rel =>
          have hdest : destinations drop_dir (e :: files)
              = (drop_dir ++ rel) :: destinations drop_dir files := by
            simp [destinations, hsan, Except.toOption]
          rw [hdest, List.mem_cons, not_or] at hq
          dsimp only
          by_cases hio : io.parent_ok i ∧ io.create_ok i
          · rw [if_pos hio]
            dsimp only
            rw [ih (i + 1) _ hq.2, Function.update_of_ne hq.1]
          · rw [if_neg hio]

/-- When every file was created, they are all there and empty. -/
theorem create_files_ok (drop_dir : Path) (io : BeginIo) (files : List FileEntry) (i : Nat)
    (disk : Disk) (paths : { paths : List Path // paths.length = files.length })
    (h : (create_files drop_dir io i disk files).2 = .ok paths) :
    paths.1 = destinations drop_dir files ∧
      ∀ q ∈ paths.1, (create_files drop_dir io i disk files).1 q = some [] := by
  induction files generalizing i disk with
  | nil =>
      obtain rfl := Except.ok.inj h
      exact ⟨rfl, nofun⟩
  | cons e files ih =>
      rw [create_files] at h ⊢
      cases hsan : sanitize e.relative_path with
      | error err =>
          rw [hsan] at h
          cases h
      | ok rel =>
          rw [hsan] at h
          dsimp only at h ⊢
          by_cases hio : io.parent_ok i ∧ io.create_ok i
          · rw [if_pos hio] at h ⊢
            dsimp only at h ⊢
            cases hrest : (create_files drop_dir io (i + 1)
                (Function.update disk (drop_dir ++ rel) (some [])) files).2 with
            | error err =>
                rw [hrest] at h
                cases h
            | ok rest =>
                rw [hrest] at h
                obtain rfl := Except.ok.inj h
                obtain ⟨hpaths, hdisk⟩ := ih (i + 1) _ rest hrest
                refine ⟨?_, ?_⟩
                · simp [destinations, hsan, Except.toOption, hpaths]
                · intro q hq
                  -- a file further down may have the same path, and then it made it empty
                  by_cases hmem : q ∈ rest.1
                  · exact hdisk q hmem
                  · obtain rfl := (List.mem_cons.mp hq).resolve_right hmem
                    rw [hpaths] at hmem
                    rw [create_files_frame drop_dir io files (i + 1) _ _ hmem,
                      Function.update_self]
          · rw [if_neg hio] at h
            cases h

/-- A `begin` touches its destinations and its own entry, and the entry only if
it succeeds. -/
theorem begin_frame (self : Host) (t : UInt64) (manifest : FileManifest) (io : BeginIo) :
    (∀ q, q ∉ destinations self.receiver.drop_dir manifest.files →
        (self.begin t manifest io).1.disk q = self.disk q) ∧
      (self.begin t manifest io).1.receiver.drop_dir = self.receiver.drop_dir ∧
      ∀ u, u ≠ t → (self.begin t manifest io).1.receiver.transfers u = self.receiver.transfers u := by
  unfold Host.begin
  by_cases hdrop : io.drop_dir_ok
  · rw [if_pos hdrop]
    dsimp only
    split
    · exact ⟨fun q hq => create_files_frame _ _ _ _ _ q hq, rfl, fun u _ => rfl⟩
    · exact ⟨fun q hq => create_files_frame _ _ _ _ _ q hq, rfl,
        fun u hu => Function.update_of_ne hu _ _⟩
  · rw [if_neg hdrop]
    exact ⟨fun q _ => rfl, rfl, fun u _ => rfl⟩

/-- A `begin` that fails leaves the table as it was. The disk is another matter: what it
created before the failure stays. -/
theorem begin_error (self : Host) (t : UInt64) (manifest : FileManifest) (io : BeginIo)
    (e : TransferError) (h : (self.begin t manifest io).2 = .error e) :
    (self.begin t manifest io).1.receiver = self.receiver := by
  unfold Host.begin at h ⊢
  by_cases hdrop : io.drop_dir_ok
  · rw [if_pos hdrop] at h ⊢
    dsimp only at h ⊢
    split at h
    · rfl
    · cases h
  · rw [if_neg hdrop]

/-- A `begin` that succeeds starts an entry whose files are there and empty. -/
theorem begin_ok (self : Host) (t : UInt64) (manifest : FileManifest) (io : BeginIo)
    (h : (self.begin t manifest io).2 = .ok ()) :
    ∃ paths : { paths : List Path // paths.length = manifest.files.length },
      paths.1 = destinations self.receiver.drop_dir manifest.files ∧
      (self.begin t manifest io).1.receiver = self.receiver.insert t (.start manifest paths) ∧
      ∀ q ∈ paths.1, (self.begin t manifest io).1.disk q = some [] := by
  unfold Host.begin at h ⊢
  by_cases hdrop : io.drop_dir_ok
  · rw [if_pos hdrop] at h ⊢
    dsimp only at h ⊢
    split at h
    · cases h
    · rename_i paths hres
      obtain ⟨hpaths, hdisk⟩ := create_files_ok _ _ _ _ _ paths hres
      exact ⟨paths, hpaths, rfl, hdisk⟩
  · rw [if_neg hdrop] at h
    cases h

/-- Without faults, paths that pass `sanitize` are all that a `begin` needs. -/
theorem create_files_no_fault (drop_dir : Path) (files : List FileEntry) (i : Nat) (disk : Disk)
    (h : ∀ e ∈ files, ∃ p, sanitize e.relative_path = .ok p) :
    ∃ paths, (create_files drop_dir .ok i disk files).2 = .ok paths := by
  induction files generalizing i disk with
  | nil => exact ⟨⟨[], rfl⟩, rfl⟩
  | cons e files ih =>
      obtain ⟨rel, hrel⟩ := h e List.mem_cons_self
      obtain ⟨rest, hrest⟩ := ih (i + 1) (Function.update disk (drop_dir ++ rel) (some []))
        (fun e' he' => h e' (List.mem_cons_of_mem e he'))
      refine ⟨⟨(drop_dir ++ rel) :: rest.1, congrArg Nat.succ rest.2⟩, ?_⟩
      rw [create_files, hrel]
      dsimp only
      rw [if_pos ⟨rfl, rfl⟩]
      dsimp only
      rw [hrest]
      rfl

/-- Without faults it fails only over a path that `sanitize` refuses. -/
theorem begin_no_fault (self : Host) (t : UInt64) (manifest : FileManifest)
    (h : ∀ e ∈ manifest.files, ∃ p, sanitize e.relative_path = .ok p) :
    (self.begin t manifest .ok).2 = .ok () := by
  obtain ⟨paths, hpaths⟩ := create_files_no_fault self.receiver.drop_dir manifest.files 0 self.disk h
  have hdrop : BeginIo.ok.drop_dir_ok = true := rfl
  unfold Host.begin
  rw [if_pos hdrop]
  dsimp only
  rw [hpaths]

/-! ## What a write can do

A write that fails may have written a prefix. All later results about failures rest on
that. -/

/-- What lands in the file is the beginning of the data, -/
theorem landed_isPrefix (io : WriteIo) (offset : UInt64) (data : List UInt8) :
    io.landed offset data <+: data :=
  (List.take_prefix _ _).trans (List.take_prefix _ _)

/-- The operations of a write all succeed. -/
def WriteIo.Succeeds (io : WriteIo) (offset : UInt64) (data : List UInt8) : Prop :=
  io.open_ok = true ∧ io.seek_ok = true ∧ io.write_failed_after = none ∧ io.flush_ok = true ∧
    offset.toNat + data.length ≤ MAX_FILE

instance (io : WriteIo) (offset : UInt64) (data : List UInt8) :
    Decidable (io.Succeeds offset data) :=
  inferInstanceAs (Decidable (_ ∧ _))

/-- What a write puts into the file, if it gets to write at all. -/
def WriteIo.reaches (io : WriteIo) (offset : UInt64) (data : List UInt8) : List UInt8 :=
  if io.open_ok ∧ io.seek_ok ∧ offset.toNat ≤ MAX_FILE then io.landed offset data else []

/-- also when nothing lands because the file could not be opened. -/
theorem reaches_isPrefix (io : WriteIo) (offset : UInt64) (data : List UInt8) :
    io.reaches offset data <+: data := by
  rw [WriteIo.reaches]
  split
  · exact landed_isPrefix io offset data
  · exact List.nil_prefix

/-- A write that meets no failure is whole exactly when the file may grow that far. -/
theorem landed_eq_iff (io : WriteIo) (offset : UInt64) (data : List UInt8)
    (hoff : offset.toNat ≤ MAX_FILE) (hall : io.write_failed_after = none) :
    (io.landed offset data).length = data.length ↔ offset.toNat + data.length ≤ MAX_FILE := by
  rw [WriteIo.landed, hall, Option.getD_none, List.take_length, List.length_take]
  omega

/-- A write that succeeds has put all of its data. -/
theorem reaches_succeeds (io : WriteIo) (offset : UInt64) (data : List UInt8)
    (h : io.Succeeds offset data) : io.reaches offset data = data := by
  obtain ⟨hopen, hseek, hall, -, hfit⟩ := h
  have hoff : offset.toNat ≤ MAX_FILE := by omega
  rw [WriteIo.reaches, if_pos ⟨hopen, hseek, hoff⟩]
  exact (landed_isPrefix io offset data).eq_of_length ((landed_eq_iff io offset data hoff hall).mpr hfit)

/-- **What a write does** to a file that is there. -/
theorem write_file_some (disk : Disk) (path : Path) (offset : UInt64) (data : List UInt8)
    (io : WriteIo) (old : List UInt8) (hold : disk path = some old) :
    write_file disk path offset data io
      = (Function.update disk path (some (splice 0 old offset.toNat (io.reaches offset data))),
          if io.Succeeds offset data then .ok () else .error .io) := by
  rw [write_file, hold, WriteIo.reaches]
  dsimp only
  by_cases hio : io.open_ok ∧ io.seek_ok ∧ offset.toNat ≤ MAX_FILE
  · rw [if_pos hio, if_pos hio]
    have hiff : (io.write_failed_after = none ∧ io.flush_ok ∧
        (io.landed offset data).length = data.length) ↔ io.Succeeds offset data := by
      constructor
      · rintro ⟨hall, hflush, hlen⟩
        exact ⟨hio.1, hio.2.1, hall, hflush, (landed_eq_iff io offset data hio.2.2 hall).mp hlen⟩
      · rintro ⟨-, -, hall, hflush, hfit⟩
        exact ⟨hall, hflush, (landed_eq_iff io offset data hio.2.2 hall).mpr hfit⟩
    simp only [hiff]
  · have hnot : ¬ io.Succeeds offset data := by
      rintro ⟨hopen, hseek, -, -, hfit⟩
      exact hio ⟨hopen, hseek, by omega⟩
    rw [if_neg hio, if_neg hio, if_neg hnot, splice, ← hold, Function.update_eq_self]

/-- A failed write leaves the disk, or a prefix of the data in the file. -/
theorem write_file_error (disk : Disk) (path : Path) (offset : UInt64) (data : List UInt8)
    (io : WriteIo) (e : TransferError) (h : (write_file disk path offset data io).2 = .error e) :
    e = .io ∧
    ((write_file disk path offset data io).1 = disk ∨
      ∃ old landed, disk path = some old ∧ landed <+: data ∧
        (write_file disk path offset data io).1
          = Function.update disk path (some (splice 0 old offset.toNat landed))) := by
  cases hold : disk path with
  | none =>
      rw [write_file, hold] at h ⊢
      exact ⟨(Except.error.inj h).symm, .inl rfl⟩
  | some old =>
      rw [write_file_some disk path offset data io old hold] at h ⊢
      dsimp only at h
      split_ifs at h
      exact ⟨(Except.error.inj h).symm,
        .inr ⟨old, io.reaches offset data, rfl, reaches_isPrefix io offset data, rfl⟩⟩

/-- A write that succeeds puts all of the data into the file. -/
theorem write_file_ok (disk : Disk) (path : Path) (offset : UInt64) (data : List UInt8)
    (io : WriteIo) (h : (write_file disk path offset data io).2 = .ok ()) :
    ∃ old, disk path = some old ∧ offset.toNat + data.length ≤ MAX_FILE ∧
      (write_file disk path offset data io).1
        = Function.update disk path (some (splice 0 old offset.toNat data)) := by
  cases hold : disk path with
  | none =>
      rw [write_file, hold] at h
      cases h
  | some old =>
      rw [write_file_some disk path offset data io old hold] at h ⊢
      dsimp only at h
      split_ifs at h with hio
      refine ⟨old, rfl, hio.2.2.2.2, ?_⟩
      rw [reaches_succeeds io offset data hio]

/-- Without faults, a write within the size limit succeeds. -/
theorem write_file_no_fault (disk : Disk) (path : Path) (offset : UInt64) (data old : List UInt8)
    (hold : disk path = some old) (hfit : offset.toNat + data.length ≤ MAX_FILE) :
    write_file disk path offset data .ok
      = (Function.update disk path (some (splice 0 old offset.toNat data)), .ok ()) := by
  have hio : WriteIo.ok.Succeeds offset data := ⟨rfl, rfl, rfl, rfl, hfit⟩
  rw [write_file_some disk path offset data .ok old hold, if_pos hio,
    reaches_succeeds .ok offset data hio]

/-- A write depends on the file it goes to. -/
theorem write_file_congr (disk disk' : Disk) (path : Path) (offset : UInt64) (data : List UInt8)
    (io : WriteIo) (h : disk path = disk' path) :
    (write_file disk path offset data io).2 = (write_file disk' path offset data io).2 ∧
      ∀ q, disk q = disk' q →
        (write_file disk path offset data io).1 q = (write_file disk' path offset data io).1 q := by
  cases hold : disk path with
  | none =>
      rw [write_file, write_file, ← h, hold]
      exact ⟨rfl, fun q hq => hq⟩
  | some old =>
      rw [write_file_some disk path offset data io old hold,
        write_file_some disk' path offset data io old (h.symm.trans hold)]
      refine ⟨rfl, fun q hq => ?_⟩
      by_cases hqp : q = path
      · subst hqp
        simp only [Function.update_self]
      · exact (Function.update_of_ne hqp _ _).trans
          (hq.trans (Function.update_of_ne hqp _ _).symm)

/-! ## What a call of `write_chunk` can do

The chunk is refused at one of three checks, or the file operations fail, or it is
absorbed. Everything said of chunks further on goes through this case split. -/

namespace RecvProgress

variable (self : RecvProgress) (i : Nat) (h : i < self.manifest.files.length)

/-! The columns of an entry at a file of its manifest. -/

/-- The destination of a file. -/
def path : Path := self.paths[i]

/-- The bytes received of it. -/
def received : UInt64 := self.bytes_received[i]

/-- Their running hash. -/
def hasher : Hasher := self.hashers[i]

/-- What the manifest says of it. -/
def entry : FileEntry := self.manifest.files[i]

end RecvProgress

/-- The entry after a chunk of file `i` was absorbed. -/
def RecvProgress.advance (self : RecvProgress) (i : Nat) (h : i < self.manifest.files.length)
    (data : List UInt8) : RecvProgress :=
  { self with
    bytes_received :=
      self.bytes_received.set i (self.received i h + UInt64.ofNat data.length)
    hashers := self.hashers.set i ((self.hasher i h).update data) }

/-- What `write_chunk` returns once a chunk of file `i` was absorbed. -/
def RecvProgress.verdict (self : RecvProgress) (blake3 : List UInt8 → Hash) (i : Nat)
    (h : i < self.manifest.files.length) (is_last : Bool) : Except TransferError UInt64 :=
  if is_last ∧ (self.hasher i h).finalize blake3 ≠ (self.entry i h).blake3 then
    .error (.blake3_mismatch (self.entry i h).relative_path)
  else .ok self.bytes_received.toList.sum

variable (blake3 : List UInt8 → Hash)

/-- The first two ways a chunk is refused: no transfer with its number, -/
theorem write_chunk_unknown (self : Host) (chunk : FileChunk) (io : WriteIo)
    (h : self.receiver.transfers chunk.transfer_id = none) :
    self.write_chunk blake3 chunk io = (self, .error .unknown_transfer) := by
  simp only [Host.write_chunk, Receiver.lookup, h]

/-- or no file with its index. Both leave everything alone. -/
theorem write_chunk_out_of_range (self : Host) (chunk : FileChunk) (io : WriteIo)
    (p : RecvProgress) (hp : self.receiver.transfers chunk.transfer_id = some p)
    (hi : ¬ chunk.file_index.toNat < p.manifest.files.length) :
    self.write_chunk blake3 chunk io = (self, .error .file_index_out_of_range) := by
  simp only [Host.write_chunk, Receiver.lookup, hp, dif_neg hi]

/-- What the first phase finds for a file that is known. The bound on the index is the
only thing to check, as the columns of an entry have the length of its manifest. -/
theorem lookup_known (self : Receiver) (chunk : FileChunk) (p : RecvProgress)
    (hp : self.transfers chunk.transfer_id = some p)
    (hi : chunk.file_index.toNat < p.manifest.files.length) :
    self.lookup chunk = .ok (p.path chunk.file_index.toNat hi,
      p.received chunk.file_index.toNat hi, p.hasher chunk.file_index.toNat hi) := by
  simp only [Receiver.lookup, hp, dif_pos hi]
  rfl

/-- What the last phase does for such a file. It puts the hasher it was given back, not
the one the entry has by then, which matters when two calls overlap. -/
theorem commit_known (self : Receiver) (chunk : FileChunk) (p : RecvProgress)
    (hp : self.transfers chunk.transfer_id = some p)
    (hi : chunk.file_index.toNat < p.manifest.files.length) :
    self.commit blake3 chunk ((p.hasher chunk.file_index.toNat hi).update chunk.data)
      = (self.insert chunk.transfer_id (p.advance chunk.file_index.toNat hi chunk.data),
          (p.advance chunk.file_index.toNat hi chunk.data).verdict blake3 chunk.file_index.toNat hi
            chunk.is_last) := by
  have hself : (p.advance chunk.file_index.toNat hi chunk.data).hasher chunk.file_index.toNat hi
      = (p.hasher chunk.file_index.toNat hi).update chunk.data := Vector.getElem_set_self hi
  simp only [Receiver.commit, hp, dif_pos hi, RecvProgress.verdict, hself]
  rfl

/-- The three phases on a known file, composed. -/
theorem write_chunk_known (self : Host) (chunk : FileChunk) (io : WriteIo) (p : RecvProgress)
    (hp : self.receiver.transfers chunk.transfer_id = some p)
    (hi : chunk.file_index.toNat < p.manifest.files.length) :
    self.write_chunk blake3 chunk io =
      if chunk.offset ≠ p.received chunk.file_index.toNat hi then
        (self,
          .error (.chunk_out_of_order (p.received chunk.file_index.toNat hi) chunk.offset))
      else
        match write_file self.disk (p.path chunk.file_index.toNat hi) chunk.offset chunk.data io with
        | (disk, .error e) => ({ self with disk }, .error e)
        | (disk, .ok ()) =>
          ({ receiver := self.receiver.insert chunk.transfer_id
              (p.advance chunk.file_index.toNat hi chunk.data), disk },
            (p.advance chunk.file_index.toNat hi chunk.data).verdict blake3 chunk.file_index.toNat
              hi chunk.is_last) := by
  rw [Host.write_chunk, lookup_known self.receiver chunk p hp hi]
  dsimp only
  rw [commit_known blake3 self.receiver chunk p hp hi]

/-- **What a chunk in turn does.** What reaches the file is in it, and if the
file operations succeed the entry moves on. -/
theorem write_chunk_turn (self : Host) (chunk : FileChunk) (io : WriteIo) (p : RecvProgress)
    (hp : self.receiver.transfers chunk.transfer_id = some p)
    (hi : chunk.file_index.toNat < p.manifest.files.length)
    (hoff : chunk.offset = p.received chunk.file_index.toNat hi) (old : List UInt8)
    (hold : self.disk (p.path chunk.file_index.toNat hi) = some old) :
    self.write_chunk blake3 chunk io =
      if io.Succeeds chunk.offset chunk.data then
        ({ receiver := self.receiver.insert chunk.transfer_id
            (p.advance chunk.file_index.toNat hi chunk.data)
           disk := Function.update self.disk (p.path chunk.file_index.toNat hi)
            (some (splice 0 old chunk.offset.toNat chunk.data)) },
          (p.advance chunk.file_index.toNat hi chunk.data).verdict blake3 chunk.file_index.toNat hi
            chunk.is_last)
      else
        ({ self with
            disk := Function.update self.disk (p.path chunk.file_index.toNat hi)
              (some (splice 0 old chunk.offset.toNat (io.reaches chunk.offset chunk.data))) },
          .error .io) := by
  rw [write_chunk_known blake3 self chunk io p hp hi, if_neg (not_not.mpr hoff),
    write_file_some _ _ _ _ io old hold]
  by_cases hio : io.Succeeds chunk.offset chunk.data
  · rw [if_pos hio, if_pos hio, reaches_succeeds io _ _ hio]
  · rw [if_neg hio, if_neg hio]

/-- **What a call can do** to a known file: reject the chunk and change nothing,
fail in the file system and leave a prefix of the data behind, or absorb it. -/
theorem write_chunk_cases (self : Host) (chunk : FileChunk) (io : WriteIo) (p : RecvProgress)
    (hp : self.receiver.transfers chunk.transfer_id = some p)
    (hi : chunk.file_index.toNat < p.manifest.files.length) :
    (chunk.offset ≠ p.received chunk.file_index.toNat hi ∧
      self.write_chunk blake3 chunk io
        = (self, .error
            (.chunk_out_of_order (p.received chunk.file_index.toNat hi) chunk.offset))) ∨
    (chunk.offset = p.received chunk.file_index.toNat hi ∧
      ∃ disk, self.write_chunk blake3 chunk io = ({ self with disk }, .error .io) ∧
        (disk = self.disk ∨
          ∃ old landed, self.disk (p.path chunk.file_index.toNat hi) = some old ∧
            landed <+: chunk.data ∧
            disk = Function.update self.disk (p.path chunk.file_index.toNat hi)
              (some (splice 0 old chunk.offset.toNat landed)))) ∨
    (chunk.offset = p.received chunk.file_index.toNat hi ∧
      ∃ old, self.disk (p.path chunk.file_index.toNat hi) = some old ∧
        chunk.offset.toNat + chunk.data.length ≤ MAX_FILE ∧
        self.write_chunk blake3 chunk io
          = ({ receiver := self.receiver.insert chunk.transfer_id
                (p.advance chunk.file_index.toNat hi chunk.data)
               disk := Function.update self.disk (p.path chunk.file_index.toNat hi)
                (some (splice 0 old chunk.offset.toNat chunk.data)) },
              (p.advance chunk.file_index.toNat hi chunk.data).verdict blake3
                chunk.file_index.toNat hi chunk.is_last)) := by
  rw [write_chunk_known blake3 self chunk io p hp hi]
  -- the offset is the one check the call makes; after it only the file can fail
  by_cases hoff : chunk.offset = p.received chunk.file_index.toNat hi
  · right
    rw [if_neg (not_not.mpr hoff)]
    set w := write_file self.disk (p.path chunk.file_index.toNat hi) chunk.offset chunk.data io with hw
    cases hres : w.2 with
    | error e =>
        left
        obtain ⟨rfl, hdisk⟩ := write_file_error _ _ _ _ _ _ hres
        refine ⟨hoff, w.1, ?_, hdisk⟩
        rw [show w = (w.1, .error .io) from Prod.ext rfl hres]
    | ok u =>
        right
        obtain ⟨old, hold, hfit, hdisk⟩ := write_file_ok _ _ _ _ _ hres
        refine ⟨hoff, old, hold, hfit, ?_⟩
        rw [show w = (w.1, .ok ()) from Prod.ext rfl hres, ← hdisk]
  · left
    rw [if_pos hoff]
    exact ⟨hoff, rfl⟩

/-- What a call leaves alone: the drop directory, the other transfers, the other
files, and where the files of its own transfer are. -/
structure SameBut (chunk : FileChunk) (host next : Host) : Prop where
  drop_dir : next.receiver.drop_dir = host.receiver.drop_dir
  transfers : ∀ u, u ≠ chunk.transfer_id → next.receiver.transfers u = host.receiver.transfers u
  disk : ∀ q, (∀ p (hi : chunk.file_index.toNat < p.manifest.files.length),
      host.receiver.transfers chunk.transfer_id = some p → p.path chunk.file_index.toNat hi ≠ q) →
    next.disk q = host.disk q
  paths : ∀ p', next.receiver.transfers chunk.transfer_id = some p' →
    ∃ p, host.receiver.transfers chunk.transfer_id = some p ∧ p'.paths.toList = p.paths.toList

/-- Whatever a call does, it does to one file and one entry. -/
theorem write_chunk_frame (self : Host) (chunk : FileChunk) (io : WriteIo) :
    SameBut chunk self (self.write_chunk blake3 chunk io).1 := by
  have hself : SameBut chunk self self :=
    ⟨rfl, fun _ _ => rfl, fun _ _ => rfl, fun p hp => ⟨p, hp, rfl⟩⟩
  cases hp : self.receiver.transfers chunk.transfer_id with
  | none =>
      rw [write_chunk_unknown blake3 self chunk io hp]
      exact hself
  | some p =>
      by_cases hi : chunk.file_index.toNat < p.manifest.files.length
      -- by the outcome: refused, failed in the write, or counted; each touches this
      -- file at most
      · rcases write_chunk_cases blake3 self chunk io p hp hi with
          ⟨-, heq⟩ | ⟨-, disk, heq, hdisk⟩ | ⟨-, old, -, -, heq⟩
        · rw [heq]
          exact hself
        · rw [heq]
          refine ⟨rfl, fun _ _ => rfl, ?_, hself.paths⟩
          intro q hq
          rcases hdisk with rfl | ⟨old, landed, -, -, rfl⟩
          · rfl
          · exact Function.update_of_ne (hq p hi hp).symm _ _
        · rw [heq]
          refine ⟨rfl, fun u hu => Function.update_of_ne hu _ _,
            fun q hq => Function.update_of_ne (hq p hi hp).symm _ _, fun p' hp' => ⟨p, hp, ?_⟩⟩
          simp only [Receiver.insert, Function.update_self, Option.some.injEq] at hp'
          subst hp'
          rfl
      · rw [write_chunk_out_of_range blake3 self chunk io p hp hi]
        exact hself

/-- A call depends on the entry of its transfer and the file it goes to. -/
theorem write_chunk_congr (self other : Host) (chunk : FileChunk) (io : WriteIo)
    (hentry : self.receiver.transfers chunk.transfer_id
      = other.receiver.transfers chunk.transfer_id)
    (hfile : ∀ p (hi : chunk.file_index.toNat < p.manifest.files.length),
      self.receiver.transfers chunk.transfer_id = some p →
        self.disk (p.path chunk.file_index.toNat hi)
          = other.disk (p.path chunk.file_index.toNat hi)) :
    (self.write_chunk blake3 chunk io).2 = (other.write_chunk blake3 chunk io).2 ∧
      (self.write_chunk blake3 chunk io).1.receiver.transfers chunk.transfer_id
        = (other.write_chunk blake3 chunk io).1.receiver.transfers chunk.transfer_id ∧
      ∀ q, self.disk q = other.disk q →
        (self.write_chunk blake3 chunk io).1.disk q
          = (other.write_chunk blake3 chunk io).1.disk q := by
  cases hp : self.receiver.transfers chunk.transfer_id with
  | none =>
      rw [write_chunk_unknown blake3 self chunk io hp,
        write_chunk_unknown blake3 other chunk io (hentry ▸ hp)]
      exact ⟨rfl, hentry, fun _ hq => hq⟩
  | some p =>
      have hp' : other.receiver.transfers chunk.transfer_id = some p := hentry ▸ hp
      by_cases hi : chunk.file_index.toNat < p.manifest.files.length
      · rw [write_chunk_known blake3 self chunk io p hp hi,
          write_chunk_known blake3 other chunk io p hp' hi]
        -- the offset is checked against the entry, which both have
        by_cases hoff : chunk.offset = p.received chunk.file_index.toNat hi
        · rw [if_neg (not_not.mpr hoff), if_neg (not_not.mpr hoff)]
          obtain ⟨hres, hdisk⟩ := write_file_congr self.disk other.disk
            (p.path chunk.file_index.toNat hi) chunk.offset chunk.data io (hfile p hi hp)
          set w := write_file self.disk (p.path chunk.file_index.toNat hi) chunk.offset chunk.data io
          set w' := write_file other.disk (p.path chunk.file_index.toNat hi) chunk.offset chunk.data io
          obtain ⟨disk, res⟩ := w
          obtain ⟨disk', res'⟩ := w'
          obtain rfl : res = res' := hres
          cases res with
          | error e => exact ⟨rfl, hentry, hdisk⟩
          | ok u =>
              refine ⟨rfl, ?_, hdisk⟩
              simp only [Receiver.insert, Function.update_self]
        · rw [if_pos hoff, if_pos hoff]
          exact ⟨rfl, hentry, fun _ hq => hq⟩
      · rw [write_chunk_out_of_range blake3 self chunk io p hp hi,
          write_chunk_out_of_range blake3 other chunk io p hp' hi]
        exact ⟨rfl, hentry, fun _ hq => hq⟩

end InputSync
