/-
The sending end of a file transfer: `build_entry` and `build_manifest` in
`crates/filetransfer/src/lib.rs`, `send_files` in
`crates/daemon/src/filetransfer_mgr.rs`.

A read may return less than it was asked for; what each read returns is data
of the source file. The hashing loop goes on until a read returns nothing, so
the manifest is right for any reads (`build_entry_eq`). The sending loop takes
the first read shorter than its buffer for the end of the file: what it sends
is a prefix of the contents, and all of them exactly when no earlier read is
short (`sent_eq_iff`). The chunk it marks as the last is the one of that short
read, so a file whose end is a multiple of the buffer has none
(`file_closed_iff`).

As a ledger: the chunks of a transfer are in order (`Transfer.chunks_inOrder`),
they add up to what the loop sends of each file (`Transfer.chunks_addAll`), and
their checks come out as the hashes of that (`Transfer.chunks_verified`).
-/
import InputSync.Ledger
import InputSync.Frame
import Mathlib.Algebra.BigOperators.Group.List.Basic

set_option autoImplicit false

open InputSync.Bincode (serialize)

namespace InputSync

/-! ## Source files

A reader is a function of what is still ahead, which is more than an operating system
promises and less than the code assumes. Each source file has two of them, since it is
opened once to be hashed and again to be sent. -/

/-- `DEFAULT_CHUNK_SIZE`, the size of the buffer both loops read into. -/
@[irreducible] def DEFAULT_CHUNK_SIZE : Nat := 64 * 1024

/-- The buffer is not empty. The constant itself is irreducible: nothing but this and
the arithmetic at a concrete length depends on its value, and unfolding it makes goals
large. -/
theorem chunk_size_pos : 0 < DEFAULT_CHUNK_SIZE := by
  rw [DEFAULT_CHUNK_SIZE]
  omega

/-- The reads of an open file into a buffer of `DEFAULT_CHUNK_SIZE` bytes: with
`rest` ahead, a read returns `next rest` bytes, and none only at the end. -/
structure Reader where
  next : List UInt8 → Nat
  pos : ∀ rest, rest ≠ [] → 0 < next rest
  le : ∀ rest, next rest ≤ min DEFAULT_CHUNK_SIZE rest.length

namespace Reader

/-- The reader that fills the buffer when it can. -/
def full : Reader where
  next rest := min DEFAULT_CHUNK_SIZE rest.length
  pos rest h := by
    have hpos : 0 < rest.length := List.length_pos_iff.mpr h
    exact lt_min chunk_size_pos hpos
  le _ := le_rfl

/-- A read returns no more than there is, -/
theorem next_le (self : Reader) (rest : List UInt8) : self.next rest ≤ rest.length :=
  (self.le rest).trans (min_le_right _ _)

/-- and no more than the buffer holds. -/
theorem next_le_chunk (self : Reader) (rest : List UInt8) : self.next rest ≤ DEFAULT_CHUNK_SIZE :=
  (self.le rest).trans (min_le_left _ _)

/-- It returns nothing only at the end of the file. This is the contract of `read`, and
the reason why the hashing loop is right for every reader. -/
theorem next_eq_zero (self : Reader) (rest : List UInt8) (h : self.next rest = 0) : rest = [] := by
  by_contra hne
  have hpos := self.pos rest hne
  omega

/-- A read that returned something has bytes to send. -/
theorem take_next_ne_nil (self : Reader) (rest : List UInt8) (h : 0 < self.next rest) :
    rest.take (self.next rest) ≠ [] := by
  intro hnil
  have hle := self.next_le rest
  have hlen := congrArg List.length hnil
  rw [List.length_take, List.length_nil] at hlen
  omega

/-- Progress: both loops recurse on what a read leaves. -/
theorem drop_next_lt (self : Reader) (rest : List UInt8) (h : self.next rest ≠ 0) :
    (rest.drop (self.next rest)).length < rest.length := by
  have hle := self.next_le rest
  rw [List.length_drop]
  omega

end Reader

/-- A file below the root, and how it reads when it is hashed and when it is
sent. -/
structure SourceFile where
  relative_path : String
  contents : List UInt8
  fits : contents.length ≤ MAX_FILE
  hash_reads : Reader
  send_reads : Reader

/-! ## The manifest

`build_entry` reads a file to its end and records length and hash. -/

/-- The loop of `build_entry`: read and hash until a read returns nothing. -/
def hash_loop (reads : Reader) (rest : List UInt8) (hasher : Hasher) (total : UInt64) :
    Hasher × UInt64 :=
  let n := reads.next rest
  if _h : n = 0 then (hasher, total)
  else hash_loop reads (rest.drop n) (hasher.update (rest.take n)) (total + UInt64.ofNat n)
termination_by rest.length
decreasing_by exact reads.drop_next_lt rest _h

section Manifest

variable (blake3 : List UInt8 → Hash)

/-- `build_entry`: the size and the hash are those of what was read. -/
def build_entry (file : SourceFile) : FileEntry :=
  let r := hash_loop file.hash_reads file.contents .new 0
  { relative_path := file.relative_path, size := r.2, blake3 := r.1.finalize blake3 }

/-- `build_manifest`, on files that can be opened. The sum wraps, as in the source. -/
def build_manifest (files : List SourceFile) : FileManifest :=
  files.foldl
    (fun manifest file =>
      let entry := build_entry blake3 file
      { files := manifest.files ++ [entry], total_bytes := manifest.total_bytes + entry.size })
    { files := [], total_bytes := 0 }

end Manifest

/-! ## Sending

`send_files` numbers the transfer, offers the manifest and sends the files one after the
other in chunks. -/

/-- The loop of `send_files` over one file. -/
def send_loop (transfer_id : UInt64) (file_index : UInt32) (reads : Reader) (rest : List UInt8)
    (offset : UInt64) : List FileChunk :=
  let n := reads.next rest
  let is_last := decide (n < DEFAULT_CHUNK_SIZE)
  let sent : List FileChunk :=
    if n > 0 then [{ transfer_id, file_index, offset, data := rest.take n, is_last }] else []
  if _h : is_last ∨ n = 0 then sent
  else sent ++ send_loop transfer_id file_index reads (rest.drop n) (offset + UInt64.ofNat n)
termination_by rest.length
decreasing_by exact reads.drop_next_lt rest (fun h0 => _h (.inr h0))

/-- The chunks of the files from index `file_index` on. -/
def send_chunks (transfer_id : UInt64) (file_index : Nat) : List SourceFile → List FileChunk
  | [] => []
  | file :: files =>
    send_loop transfer_id (UInt32.ofNat file_index) file.send_reads file.contents 0
      ++ send_chunks transfer_id (file_index + 1) files

/-- A call of `send_files` that got its number. -/
structure Transfer where
  transfer_id : UInt64
  files : List SourceFile
  compressed : Bool

namespace Transfer

variable (self : Transfer) (blake3 : List UInt8 → Hash)

/-- What the transfer offers. -/
def manifest : FileManifest := build_manifest blake3 self.files

/-- The offer itself. -/
def offer : FileOffer :=
  { transfer_id := self.transfer_id, manifest := self.manifest blake3, compressed := self.compressed }

/-- The chunks of all its files, in the order of the files. -/
def chunks : List FileChunk := send_chunks self.transfer_id 0 self.files

/-- The messages of `send_files`: the offer on the control stream, the chunks on
a stream of their own. -/
def messages : List Message :=
  .FileOfferStart (self.offer blake3) :: self.chunks.map .FileChunk

end Transfer

/-- Where a daemon starts numbering its transfers. -/
def TRANSFER_ID_SEQ : UInt64 := 1

/-- Calls of `send_files`, each with its files and whether it compresses, in the
order in which they take their numbers. -/
def send_all (seq : UInt64) : List (List SourceFile × Bool) → List Transfer
  | [] => []
  | (files, compressed) :: calls =>
    { transfer_id := seq, files, compressed } :: send_all (seq + 1) calls

/-- A sending daemon: all its calls, and the transfers among them that go to the
receiver at hand. -/
structure Daemon where
  calls : List (List SourceFile × Bool)
  few : calls.length < 2 ^ 64
  transfers : List Transfer
  numbered : transfers.Sublist (send_all TRANSFER_ID_SEQ calls)

/-- The numbers of the calls count up from where the daemon started, wrapping at 64
bits. -/
theorem send_all_ids (seq : UInt64) (calls : List (List SourceFile × Bool)) :
    (send_all seq calls).map Transfer.transfer_id
      = (List.range calls.length).map (fun i => seq + UInt64.ofNat i) := by
  induction calls generalizing seq with
  | nil => rfl
  | cons call calls ih =>
      rw [send_all, List.map_cons, ih, List.length_cons, List.range_succ_eq_map, List.map_cons,
        List.map_map]
      simp [UInt64.add_assoc, UInt64.add_comm 1]

/-- A daemon gives no number twice. -/
theorem Daemon.ids_nodup (self : Daemon) : (self.transfers.map Transfer.transfer_id).Nodup := by
  refine (self.numbered.map Transfer.transfer_id).nodup ?_
  rw [send_all_ids]
  refine List.Nodup.map_on ?_ List.nodup_range
  intro i hi j hj heq
  have hfew := self.few
  have hi' := List.mem_range.mp hi
  have hj' := List.mem_range.mp hj
  have hnat := congrArg UInt64.toNat ((UInt64.add_right_inj _).mp heq)
  rwa [UInt64.toNat_ofNat', UInt64.toNat_ofNat', Nat.mod_eq_of_lt (by omega),
    Nat.mod_eq_of_lt (by omega)] at hnat

/-! ## What the manifest says

The loops of the first half compute what their names say, for every reader. -/

/-- The hashing loop has read everything and counted it, whatever the reads returned.
The induction is the loop's own recursion. -/
theorem hash_loop_eq (reads : Reader) (rest : List UInt8) (hasher : Hasher) (total : UInt64) :
    hash_loop reads rest hasher total
      = (hasher.update rest, total + UInt64.ofNat rest.length) := by
  induction rest, hasher, total using hash_loop.induct reads with
  | case1 rest hasher total n h =>
      obtain rfl := reads.next_eq_zero rest h
      rw [hash_loop, dif_pos h, Hasher.update, List.append_nil]
      simp
  | case2 rest hasher total n h ih =>
      rw [hash_loop, dif_neg h, ih]
      simp only [Hasher.update, List.append_assoc, List.take_append_drop, UInt64.add_assoc,
        ← UInt64.ofNat_add]
      have hle := reads.next_le rest
      rw [List.length_drop, Nat.add_sub_cancel' hle]

section Manifest

variable (blake3 : List UInt8 → Hash)

/-- The entry of a file, however its reads return. -/
theorem build_entry_eq (file : SourceFile) :
    build_entry blake3 file
      = { relative_path := file.relative_path
          size := UInt64.ofNat file.contents.length
          blake3 := blake3 file.contents } := by
  rw [build_entry, hash_loop_eq]
  simp [Hasher.update, Hasher.new, Hasher.finalize]

/-- The manifest is the list of entries and the sum of the lengths. The source folds
both at once. -/
theorem build_manifest_eq (files : List SourceFile) :
    build_manifest blake3 files
      = { files := files.map (build_entry blake3)
          total_bytes := (files.map (fun f => UInt64.ofNat f.contents.length)).sum } := by
  -- the loop builds on what it has, so the statement is about any manifest to begin
  -- with
  have hfold : ∀ (manifest : FileManifest),
      files.foldl
        (fun manifest file =>
          let entry := build_entry blake3 file
          { files := manifest.files ++ [entry], total_bytes := manifest.total_bytes + entry.size })
        manifest
      = { files := manifest.files ++ files.map (build_entry blake3)
          total_bytes := manifest.total_bytes
            + (files.map (fun f => UInt64.ofNat f.contents.length)).sum } := by
    induction files with
    | nil => intro manifest; simp
    | cons f files ih =>
        intro manifest
        rw [List.foldl_cons, ih]
        simp [build_entry_eq, UInt64.add_assoc]
  rw [build_manifest, hfold]
  simp

end Manifest

/-! ## What the loop sends of a file

The loops of the second half do not, and this section says what they compute instead:
everything up to and with the first short read. -/

namespace Reader

/-- What the sending loop gets to of `rest`: it stops after a short read. -/
def sent (self : Reader) (rest : List UInt8) : List UInt8 :=
  let n := self.next rest
  if _h : n < DEFAULT_CHUNK_SIZE then rest.take n
  else rest.take n ++ self.sent (rest.drop n)
termination_by rest.length
decreasing_by
  exact self.drop_next_lt rest (fun h0 => _h (lt_of_eq_of_lt h0 chunk_size_pos))

/-- No read before the end is short: as long as the buffer is filled, the next
read fills it too or takes all that is left. -/
def Full (self : Reader) (rest : List UInt8) : Prop :=
  ∀ k, DEFAULT_CHUNK_SIZE * k ≤ rest.length →
    self.next (rest.drop (DEFAULT_CHUNK_SIZE * k))
      = min DEFAULT_CHUNK_SIZE (rest.length - DEFAULT_CHUNK_SIZE * k)

/-- The reader that fills its buffer is full on every file, so the hypothesis of the
end-to-end results can be met. -/
theorem full_full (rest : List UInt8) : full.Full rest := by
  intro k _
  simp [full]

/-- The first read, and then the others. -/
theorem full_iff (self : Reader) (rest : List UInt8) :
    self.Full rest ↔ self.next rest = min DEFAULT_CHUNK_SIZE rest.length ∧
      (DEFAULT_CHUNK_SIZE ≤ rest.length → self.Full (rest.drop DEFAULT_CHUNK_SIZE)) := by
  constructor
  · intro h
    refine ⟨by simpa using h 0 (by simp), ?_⟩
    intro hle k hk
    rw [List.length_drop] at hk ⊢
    have hk' := h (k + 1) (by rw [Nat.mul_succ]; omega)
    rw [List.drop_drop]
    -- the reads of the rest are those of the whole, one further
    rw [Nat.mul_succ, Nat.add_comm] at hk'
    rw [hk']
    congr 1
    omega
  · rintro ⟨hfirst, hothers⟩ k hk
    cases k with
    | zero => simpa using hfirst
    | succ k =>
        rw [Nat.mul_succ] at hk ⊢
        have hk' := hothers (by omega) k (by rw [List.length_drop]; omega)
        rw [List.drop_drop, List.length_drop, Nat.add_comm DEFAULT_CHUNK_SIZE] at hk'
        rw [hk']
        congr 1
        omega

/-- The loop gets through the whole file exactly when no read is short before
the end. -/
theorem sent_eq_iff (self : Reader) (rest : List UInt8) :
    self.sent rest = rest ↔ self.Full rest := by
  induction rest using Reader.sent.induct self with
  | case1 rest n hshort =>
      have hle := self.next_le rest
      rw [sent, dif_pos hshort, full_iff]
      constructor
      · intro heq
        have hlen := congrArg List.length heq
        rw [List.length_take] at hlen
        refine ⟨by omega, ?_⟩
        intro hchunk
        omega
      · rintro ⟨hfirst, -⟩
        exact List.take_of_length_le (by omega)
  | case2 rest n hshort ih =>
      have hle := self.next_le rest
      have hchunk : self.next rest = DEFAULT_CHUNK_SIZE := by
        have := self.next_le_chunk rest
        omega
      have hn : n = DEFAULT_CHUNK_SIZE := hchunk
      rw [hn] at ih
      rw [sent, dif_neg hshort, full_iff, ← ih]
      rw [hchunk] at hle ⊢
      constructor
      · intro heq
        refine ⟨by omega, ?_⟩
        intro _
        -- both sides begin with the chunk that was read
        conv at heq => rhs; rw [← List.take_append_drop DEFAULT_CHUNK_SIZE rest]
        exact List.append_cancel_left heq
      · rintro ⟨-, hothers⟩
        rw [hothers hle, List.take_append_drop]

/-- Whatever the reads, what is sent is the beginning of the file: the loop can stop
early but never skips. -/
theorem sent_isPrefix (self : Reader) (rest : List UInt8) : self.sent rest <+: rest := by
  induction rest using Reader.sent.induct self with
  | case1 rest n hshort =>
      rw [sent, dif_pos hshort]
      exact List.take_prefix _ _
  | case2 rest n hshort ih =>
      rw [sent, dif_neg hshort]
      conv => rhs; rw [← List.take_append_drop (self.next rest) rest]
      exact (List.prefix_append_right_inj _).mpr ih

end Reader

/-! ## The chunks of one file

One equation for each way a round of the loop can end, then the properties of all chunks
by induction along the recursion of `Reader.sent`. -/

section Loop

variable (transfer_id : UInt64) (file_index : UInt32) (reads : Reader) (rest : List UInt8)
  (offset : UInt64)

/-- After a short read the loop stops. -/
theorem send_loop_short (h : reads.next rest < DEFAULT_CHUNK_SIZE) :
    send_loop transfer_id file_index reads rest offset
      = if reads.next rest > 0 then
          [⟨transfer_id, file_index, offset, rest.take (reads.next rest), true⟩]
        else [] := by
  rw [send_loop, dif_pos (.inl (decide_eq_true h))]
  simp only [decide_eq_true h]

/-- After a full read it goes on. -/
theorem send_loop_full (h : ¬ reads.next rest < DEFAULT_CHUNK_SIZE) :
    send_loop transfer_id file_index reads rest offset
      = ⟨transfer_id, file_index, offset, rest.take (reads.next rest), false⟩ ::
        send_loop transfer_id file_index reads (rest.drop (reads.next rest))
          (offset + UInt64.ofNat (reads.next rest)) := by
  have hpos : 0 < reads.next rest := lt_of_lt_of_le chunk_size_pos (not_lt.mp h)
  have hgo : ¬ (decide (reads.next rest < DEFAULT_CHUNK_SIZE) = true ∨ reads.next rest = 0) := by
    rw [decide_eq_true_iff]
    exact not_or.mpr ⟨h, by omega⟩
  rw [send_loop, dif_neg hgo]
  simp only [if_pos hpos, decide_eq_false h]
  rfl

/-- Every chunk carries the numbers of its file, and some data. -/
theorem send_loop_chunk (c : FileChunk)
    (hc : c ∈ send_loop transfer_id file_index reads rest offset) :
    c.transfer_id = transfer_id ∧ c.file_index = file_index ∧ c.data ≠ [] := by
  induction rest using Reader.sent.induct reads generalizing offset with
  | case1 rest n hshort =>
      rw [send_loop_short _ _ _ _ _ hshort] at hc
      split at hc
      · rename_i hpos
        obtain rfl := List.mem_singleton.mp hc
        exact ⟨rfl, rfl, reads.take_next_ne_nil rest hpos⟩
      · cases hc
  | case2 rest n hfull ih =>
      rw [send_loop_full _ _ _ _ _ hfull] at hc
      rcases List.mem_cons.mp hc with rfl | hc
      · exact ⟨rfl, rfl,
          reads.take_next_ne_nil rest (lt_of_lt_of_le chunk_size_pos (not_lt.mp hfull))⟩
      · exact ih _ hc

/-- The offset after a full read. -/
private theorem offset_next (h : offset.toNat + rest.length ≤ MAX_FILE) :
    (offset + UInt64.ofNat (reads.next rest)).toNat = offset.toNat + reads.next rest := by
  have hle := reads.next_le rest
  have hlen : (rest.take (reads.next rest)).length = reads.next rest := by
    rw [List.length_take, min_eq_left hle]
  have hadd := toNat_add_length offset (rest.take (reads.next rest)) (by omega)
  rwa [hlen] at hadd

/-- The chunks of a file are in order for a ledger that is at their first
offset, and add what the loop gets to. -/
theorem send_loop_ledger (n : Nat) (g : Ledger) (hi : file_index.toNat < n)
    (hoff : offset.toNat = (g file_index.toNat).length)
    (hfit : offset.toNat + rest.length ≤ MAX_FILE) :
    g.InOrder n (send_loop transfer_id file_index reads rest offset) ∧
      g.addAll (send_loop transfer_id file_index reads rest offset)
        = Function.update g file_index.toNat (g file_index.toNat ++ reads.sent rest) := by
  -- the loop goes on while its reads are full, and the ledger with it
  induction rest using Reader.sent.induct reads generalizing offset g with
  | case1 rest m hshort =>
      have hle := reads.next_le rest
      rw [send_loop_short _ _ _ _ _ hshort, Reader.sent, dif_pos hshort]
      by_cases hpos : reads.next rest > 0
      · rw [if_pos hpos]
        refine ⟨⟨⟨hi, hoff, ?_⟩, trivial⟩, rfl⟩
        dsimp only
        rw [List.length_take]
        omega
      · have hzero : reads.next rest = 0 := by omega
        rw [if_neg hpos, hzero, List.take_zero, List.append_nil, Function.update_eq_self]
        exact ⟨trivial, rfl⟩
  | case2 rest m hfull ih =>
      have hle := reads.next_le rest
      have hnext := offset_next reads rest offset hfit
      have hlen : (rest.take (reads.next rest)).length = reads.next rest := by
        rw [List.length_take, min_eq_left hle]
      set chunk : FileChunk := ⟨transfer_id, file_index, offset, rest.take (reads.next rest), false⟩
        with hchunk
      have hself : g.add chunk file_index.toNat = g file_index.toNat ++ chunk.data :=
        Ledger.add_self g chunk
      obtain ⟨hord, hall⟩ := ih (offset + UInt64.ofNat (reads.next rest)) (g.add chunk)
        (by rw [hnext, hself, List.length_append, hlen, hoff])
        (by rw [hnext, List.length_drop]; omega)
      rw [send_loop_full _ _ _ _ _ hfull, Reader.sent, dif_neg hfull]
      refine ⟨⟨⟨hi, hoff, ?_⟩, hord⟩, ?_⟩
      · dsimp only
        rw [hlen]
        omega
      · rw [Ledger.addAll_cons, hall, hself, Ledger.add, Function.update_idem, List.append_assoc]

/-- Their check comes out as the hash of what was sent. -/
theorem send_loop_verified (blake3 : List UInt8 → Hash) (files : List FileEntry) (e : FileEntry)
    (he : files[file_index.toNat]? = some e) (g : Ledger)
    (hhash : e.blake3 = blake3 (g file_index.toNat ++ rest)) :
    g.Verified blake3 files (send_loop transfer_id file_index reads rest offset) ↔
      blake3 (g file_index.toNat ++ reads.sent rest) = e.blake3 := by
  -- by the reads of the sender: a short one ends the file, a full one goes on
  induction rest using Reader.sent.induct reads generalizing offset g with
  | case1 rest m hshort =>
      rw [send_loop_short _ _ _ _ _ hshort, Reader.sent, dif_pos hshort]
      -- a last read of nothing sends no chunk, and then the hash was right already
      by_cases hpos : reads.next rest > 0
      · set chunk : FileChunk := ⟨transfer_id, file_index, offset, rest.take (reads.next rest), true⟩
        have hself : g.add chunk file_index.toNat = g file_index.toNat ++ chunk.data :=
          Ledger.add_self g chunk
        rw [if_pos hpos, ← hself]
        refine ⟨fun hv => hv.1 e he rfl, fun hv => ⟨?_, trivial⟩⟩
        intro e' he' _
        rw [Option.some.inj (he'.symm.trans he)]
        exact hv
      · have hzero : reads.next rest = 0 := by omega
        obtain rfl := reads.next_eq_zero rest hzero
        rw [if_neg hpos, List.take_nil, hhash]
        exact iff_of_true trivial rfl
  | case2 rest m hfull ih =>
      set chunk : FileChunk := ⟨transfer_id, file_index, offset, rest.take (reads.next rest), false⟩
      have hself : g.add chunk file_index.toNat
          = g file_index.toNat ++ rest.take (reads.next rest) := Ledger.add_self g chunk
      have hrest := ih (offset + UInt64.ofNat (reads.next rest)) (g.add chunk)
        (by rw [hself, List.append_assoc, List.take_append_drop]; exact hhash)
      rw [send_loop_full _ _ _ _ _ hfull, Reader.sent, dif_neg hfull, ← List.append_assoc, ← hself,
        ← hrest]
      exact ⟨fun hv => hv.2, fun hv => ⟨fun e' _ hlast => absurd hlast Bool.false_ne_true, hv⟩⟩

/-! Whether the chunks of a file close it. The loop marks the read that stops
it, and sends no chunk when that read returned nothing. -/

/-- The data of the chunks, one after the other, is what the loop got to. -/
theorem send_loop_data :
    (send_loop transfer_id file_index reads rest offset).flatMap FileChunk.data
      = reads.sent rest := by
  induction rest using Reader.sent.induct reads generalizing offset with
  | case1 rest n hshort =>
      rw [send_loop_short _ _ _ _ _ hshort, Reader.sent, dif_pos hshort]
      by_cases hpos : reads.next rest > 0
      · rw [if_pos hpos, List.flatMap_singleton]
      · rw [if_neg hpos, Nat.eq_zero_of_not_pos hpos, List.take_zero, List.flatMap_nil]
  | case2 rest n hfull ih =>
      rw [send_loop_full _ _ _ _ _ hfull, Reader.sent, dif_neg hfull, List.flatMap_cons, ih]

/-- Every chunk starts where the ones before it end. -/
theorem send_loop_offset (pre : List FileChunk) (c : FileChunk) (post : List FileChunk)
    (h : send_loop transfer_id file_index reads rest offset = pre ++ c :: post) :
    c.offset = offset + UInt64.ofNat (pre.flatMap FileChunk.data).length := by
  -- by the reads: the offset of a chunk is the length of all before it
  induction rest using Reader.sent.induct reads generalizing offset pre with
  | case1 rest n hshort =>
      rw [send_loop_short _ _ _ _ _ hshort] at h
      split at h
      · obtain ⟨rfl, hc⟩ : pre = [] ∧ [_] = c :: post := by
          cases pre with
          | nil => exact ⟨rfl, h⟩
          | cons d pre => simp at h
        obtain ⟨rfl, -⟩ := List.cons.inj hc
        simp
      · simp at h
  | case2 rest n hfull ih =>
      rw [send_loop_full _ _ _ _ _ hfull] at h
      cases pre with
      | nil =>
          obtain ⟨rfl, -⟩ := List.cons.inj h
          simp
      | cons d pre =>
          obtain ⟨rfl, htail⟩ := List.cons.inj h
          have hlen : (rest.take (reads.next rest)).length = reads.next rest := by
            rw [List.length_take, min_eq_left (reads.next_le rest)]
          rw [ih _ pre htail, List.flatMap_cons, List.length_append, hlen, UInt64.ofNat_add,
            UInt64.add_assoc]

/-- The last chunk is marked exactly when the read that stops the loop returned
something, and no other chunk is. -/
theorem send_loop_last_iff :
    (∃ pre c, send_loop transfer_id file_index reads rest offset = pre ++ [c] ∧
        c.is_last = true ∧ ∀ d ∈ pre, d.is_last = false) ↔
      ¬ DEFAULT_CHUNK_SIZE ∣ (reads.sent rest).length := by
  induction rest using Reader.sent.induct reads generalizing offset with
  | case1 rest n hshort =>
      have hlen : (rest.take (reads.next rest)).length = reads.next rest := by
        rw [List.length_take, min_eq_left (reads.next_le rest)]
      rw [send_loop_short _ _ _ _ _ hshort, Reader.sent, dif_pos hshort, hlen]
      by_cases hpos : reads.next rest > 0
      · rw [if_pos hpos]
        exact iff_of_true ⟨[], _, rfl, rfl, nofun⟩ (Nat.not_dvd_of_pos_of_lt hpos hshort)
      · rw [if_neg hpos, Nat.eq_zero_of_not_pos hpos]
        refine iff_of_false ?_ (not_not.mpr (dvd_zero _))
        rintro ⟨pre, c, h, -⟩
        simp at h
  | case2 rest n hfull ih =>
      have hchunk : reads.next rest = DEFAULT_CHUNK_SIZE :=
        le_antisymm (reads.next_le_chunk rest) (not_lt.mp hfull)
      have hlen : (rest.take (reads.next rest)).length = DEFAULT_CHUNK_SIZE := by
        rw [List.length_take, min_eq_left (reads.next_le rest), hchunk]
      rw [send_loop_full _ _ _ _ _ hfull, Reader.sent, dif_neg hfull, List.length_append, hlen,
        Nat.dvd_add_right (dvd_refl _), ← ih (offset + UInt64.ofNat (reads.next rest))]
      constructor
      · rintro ⟨pre, c, h, hlast, hothers⟩
        cases pre with
        | nil =>
            -- the chunk of a full read is not marked
            obtain ⟨rfl, -⟩ := List.cons.inj h
            cases hlast
        | cons d pre =>
            obtain ⟨rfl, htail⟩ := List.cons.inj h
            exact ⟨pre, c, htail, hlast, fun e he => hothers e (List.mem_cons_of_mem _ he)⟩
      · rintro ⟨pre, c, h, hlast, hothers⟩
        refine ⟨_ :: pre, c, by rw [h, List.cons_append], hlast, ?_⟩
        intro d hd
        rcases List.mem_cons.mp hd with rfl | hd
        · rfl
        · exact hothers d hd

end Loop

/-! ## Closing a file

The receiver checks a file when a chunk marked last arrives, so a file whose chunks
carry no mark is never checked. -/

/-- The chunks are the contents cut into pieces, and the last one of them, and
no other, is marked as the last: it is the one the receiver checks the hash at. -/
structure FileClosed (contents : List UInt8) (chunks : List FileChunk) : Prop where
  offsets : ∀ pre c post, chunks = pre ++ c :: post →
    c.offset = UInt64.ofNat (pre.flatMap FileChunk.data).length
  contents : chunks.flatMap FileChunk.data = contents
  last : ∃ pre c, chunks = pre ++ [c] ∧ c.is_last = true ∧ ∀ d ∈ pre, d.is_last = false

/-- **When the chunker closes a file.** Exactly when no read before its end is
short, and its length is not a multiple of the buffer's. -/
theorem file_closed_iff (transfer_id : UInt64) (file_index : UInt32) (reads : Reader)
    (contents : List UInt8) :
    FileClosed contents (send_loop transfer_id file_index reads contents 0) ↔
      reads.Full contents ∧ ¬ DEFAULT_CHUNK_SIZE ∣ contents.length := by
  have hdata := send_loop_data transfer_id file_index reads contents 0
  have hlast := send_loop_last_iff transfer_id file_index reads contents 0
  rw [← reads.sent_eq_iff]
  constructor
  · intro h
    have hsent : reads.sent contents = contents := hdata.symm.trans h.contents
    exact ⟨hsent, by simpa only [hsent] using hlast.mp h.last⟩
  · rintro ⟨hsent, hlen⟩
    refine ⟨?_, hdata.trans hsent, hlast.mpr (by rwa [hsent])⟩
    intro pre c post hsplit
    rw [send_loop_offset _ _ _ _ _ pre c post hsplit, UInt64.zero_add]

/-- The reader that returns one byte at a time. -/
def Reader.bytewise : Reader where
  next rest := min 1 rest.length
  pos _ h := lt_min Nat.one_pos (List.length_pos_iff.mpr h)
  le _ := min_le_min_right _ chunk_size_pos

/-- **Files left open.** An empty file, a file of one full buffer, and one whose
first read is short. -/
theorem file_left_open :
    ¬ FileClosed [] (send_loop 1 0 .full [] 0) ∧
      ¬ FileClosed (List.replicate DEFAULT_CHUNK_SIZE 7)
        (send_loop 1 0 .full (List.replicate DEFAULT_CHUNK_SIZE 7) 0) ∧
      ¬ FileClosed [7, 8] (send_loop 1 0 .bytewise [7, 8] 0) := by
  refine ⟨?_, ?_, ?_⟩
  · intro h
    refine (send_loop_last_iff 1 0 .full [] 0).mp h.last ?_
    rw [(Reader.full.sent_eq_iff []).mpr (Reader.full_full [])]
    exact dvd_zero _
  · intro h
    refine (send_loop_last_iff 1 0 .full _ 0).mp h.last ?_
    rw [(Reader.full.sent_eq_iff _).mpr (Reader.full_full _), List.length_replicate]
  · intro h
    have hshort : Reader.bytewise.next [7, 8] < DEFAULT_CHUNK_SIZE := by
      rw [DEFAULT_CHUNK_SIZE]
      exact (by decide : 1 < 64 * 1024)
    have hcontents := h.contents
    rw [send_loop_short _ _ _ _ _ hshort] at hcontents
    cases hcontents

/-! ## The chunks of a transfer

The files follow one another with increasing numbers, and a chunk of one file leaves the
ledger of the others alone. So the results about one file add up. -/

namespace SourceFile

/-- What `send_files` sends of a file. -/
def sent (self : SourceFile) : List UInt8 := self.send_reads.sent self.contents

/-- While it is sent, no read of the file before its end is short. -/
def FullReads (self : SourceFile) : Prop := self.send_reads.Full self.contents

/-- A file is sent whole exactly when its reads while sending are full. -/
theorem sent_eq_contents_iff (self : SourceFile) :
    self.sent = self.contents ↔ self.FullReads := self.send_reads.sent_eq_iff self.contents

end SourceFile

/-- What is sent of the file at an index. -/
def sent_at (files : List SourceFile) (i : Nat) : List UInt8 :=
  ((files[i]?).map SourceFile.sent).getD []

section Chunks

variable (transfer_id : UInt64)

/-- A file number below the wrap is itself on the wire. -/
private theorem index_toNat (k : Nat) (h : k < 2 ^ 32) : (UInt32.ofNat k).toNat = k := by
  rw [UInt32.toNat_ofNat', Nat.mod_eq_of_lt h]

/-- Every chunk of a transfer carries its number and some data: the loop stops before it
would send an empty one. -/
theorem send_chunks_chunk (files : List SourceFile) (k : Nat) (c : FileChunk)
    (hc : c ∈ send_chunks transfer_id k files) : c.transfer_id = transfer_id ∧ c.data ≠ [] := by
  induction files generalizing k with
  | nil => cases hc
  | cons file files ih =>
      rcases List.mem_append.mp hc with hc | hc
      · obtain ⟨ht, -, hdata⟩ := send_loop_chunk _ _ _ _ _ c hc
        exact ⟨ht, hdata⟩
      · exact ih (k + 1) hc

/-- The chunks from file `k` on are in order for a ledger that is empty there. -/
theorem send_chunks_ledger (files : List SourceFile) (k n : Nat) (g : Ledger)
    (hk : k + files.length ≤ n) (hn : n < 2 ^ 32) (hg : ∀ j, k ≤ j → g j = []) :
    g.InOrder n (send_chunks transfer_id k files) ∧
      ∀ j, g.addAll (send_chunks transfer_id k files) j
        = if j < k then g j else sent_at files (j - k) := by
  -- file by file; what was received of the files before stays, and of those after there
  -- is nothing yet
  induction files generalizing k g with
  | nil =>
      refine ⟨trivial, ?_⟩
      intro j
      by_cases hj : j < k
      · rw [if_pos hj]
        rfl
      · rw [if_neg hj]
        exact hg j (by omega)
  | cons file files ih =>
      rw [List.length_cons] at hk
      have hindex : (UInt32.ofNat k).toNat = k := index_toNat k (by omega)
      obtain ⟨hord, hall⟩ := send_loop_ledger transfer_id (UInt32.ofNat k) file.send_reads
        file.contents 0 n g (by omega) (by rw [hindex, hg k le_rfl]; rfl)
        (by simpa using file.fits)
      rw [hindex, hg k le_rfl, List.nil_append] at hall
      obtain ⟨hord', hall'⟩ := ih (k + 1) (Function.update g k file.sent) (by omega)
        (fun j hj => by rw [Function.update_of_ne (by omega)]; exact hg j (by omega))
      rw [send_chunks, Ledger.inOrder_append, Ledger.addAll_append, hall]
      refine ⟨⟨hord, hord'⟩, ?_⟩
      intro j
      refine (hall' j).trans ?_
      rcases Nat.lt_trichotomy j k with hj | rfl | hj
      · rw [if_pos (by omega), if_pos hj, Function.update_of_ne (by omega)]
      · rw [if_pos (by omega), if_neg (by omega), Function.update_self, Nat.sub_self]
        rfl
      · rw [if_neg (by omega), if_neg (by omega), show j - k = j - (k + 1) + 1 by omega]
        rfl

/-- The checks of the chunks come out as the hashes of what is sent. -/
theorem send_chunks_verified (blake3 : List UInt8 → Hash) (entries : List FileEntry)
    (files : List SourceFile) (k : Nat) (g : Ledger) (hk : k + files.length < 2 ^ 32)
    (hg : ∀ j, k ≤ j → g j = [])
    (hentries : entries.drop k = files.map (build_entry blake3)) :
    g.Verified blake3 entries (send_chunks transfer_id k files) ↔
      ∀ file ∈ files, blake3 file.sent = blake3 file.contents := by
  -- file by file: each is checked when its last chunk comes, against its own entry
  induction files generalizing k g with
  | nil => simp [send_chunks, Ledger.Verified]
  | cons file files ih =>
      rw [List.length_cons] at hk
      have hindex : (UInt32.ofNat k).toNat = k := index_toNat k (by omega)
      have hentry : entries[k]? = some (build_entry blake3 file) := by
        rw [← List.head?_drop, hentries, List.map_cons, List.head?_cons]
      have hhash : (build_entry blake3 file).blake3 = blake3 file.contents := by
        rw [build_entry_eq]
      obtain ⟨-, hall⟩ := send_loop_ledger transfer_id (UInt32.ofNat k) file.send_reads
        file.contents 0 (k + 1) g (by omega) (by rw [hindex, hg k le_rfl]; rfl)
        (by simpa using file.fits)
      have hfirst := send_loop_verified transfer_id (UInt32.ofNat k) file.send_reads file.contents 0
        blake3 entries _ (by rw [hindex]; exact hentry) g
        (by rw [hindex, hg k le_rfl, List.nil_append, hhash])
      rw [hindex, hg k le_rfl, List.nil_append] at hall hfirst
      have hothers := ih (k + 1) (Function.update g k file.sent) (by omega)
        (fun j hj => by rw [Function.update_of_ne (by omega)]; exact hg j (by omega))
        (by rw [← List.tail_drop, hentries, List.map_cons, List.tail_cons])
      rw [send_chunks, Ledger.verified_append, hall, List.forall_mem_cons]
      refine and_congr ?_ hothers
      rw [hfirst, hhash]
      rfl

end Chunks

/-- An entry takes 48 bytes and its path: eight for the length of the path, eight for
the size, and the hash. -/
theorem file_entry_put_length (e : FileEntry) :
    (Bincode.file_entry.put e).length = 48 + e.relative_path.utf8ByteSize := by
  simp only [Bincode.file_entry, Bincode.hash, Codec.iso, Codec.via, Codec.seq, Codec.string,
    Codec.bytes, Codec.vec, List.length_append, Codec.u64_put_length, Codec.array_put_length,
    List.length_flatMap, Codec.u8_put_length]
  simp only [List.map_const', List.sum_replicate_nat, Array.length_toList, mul_one]
  rw [show e.relative_path.toUTF8.data.size = e.relative_path.utf8ByteSize
    from String.size_toByteArray]
  omega

/-- How long an offer is on the wire. -/
theorem serialize_offer_length (offer : FileOffer) :
    (serialize (.FileOfferStart offer)).length
      = 29 + (offer.manifest.files.map (fun e => 48 + e.relative_path.utf8ByteSize)).sum := by
  simp only [serialize, Bincode.message, Codec.tagged, Bincode.Message.body, Bincode.file_offer,
    Bincode.file_manifest, Bincode.file_entries, Codec.vec, Codec.iso, Codec.via, Codec.seq,
    List.length_append, Codec.u32_put_length, Codec.u64_put_length, Codec.bool_put_length,
    List.length_flatMap, file_entry_put_length]
  omega

namespace Transfer

variable (self : Transfer) (blake3 : List UInt8 → Hash)

/-- The files of a manifest are the entries of the files, in order. -/
theorem manifest_files : (self.manifest blake3).files = self.files.map (build_entry blake3) := by
  rw [manifest, build_manifest_eq]

/-- The offer fits in a frame, so it can be sent at all. -/
def Sendable : Prop :=
  (serialize (.FileOfferStart (self.offer blake3))).length ≤ MAX_PAYLOAD_SIZE.toNat

/-- Whether an offer fits in a frame, in terms of the number of files and the length of
their paths. The contents do not enter. -/
theorem sendable_iff : self.Sendable blake3 ↔
    29 + (self.files.map (fun f => 48 + f.relative_path.utf8ByteSize)).sum
      ≤ MAX_PAYLOAD_SIZE.toNat := by
  rw [Sendable, serialize_offer_length, offer, manifest_files, List.map_map]
  simp only [Function.comp_def, build_entry_eq]

/-- The indices of its files are 32-bit numbers then. -/
theorem Sendable.length_lt {self : Transfer} {blake3 : List UInt8 → Hash}
    (h : self.Sendable blake3) : self.files.length < 2 ^ 32 := by
  have hmax : MAX_PAYLOAD_SIZE.toNat = 67108864 := rfl
  have hone : ∀ n ∈ self.files.map (fun f => 48 + f.relative_path.utf8ByteSize), 1 ≤ n := by
    intro n hn
    obtain ⟨f, -, rfl⟩ := List.mem_map.mp hn
    omega
  have hlen := List.length_le_sum_of_one_le _ hone
  rw [sendable_iff] at h
  rw [List.length_map] at hlen
  omega

/-- The same as `send_chunks_chunk`, for the transfer as a whole. -/
theorem chunks_chunk (c : FileChunk) (hc : c ∈ self.chunks) :
    c.transfer_id = self.transfer_id ∧ c.data ≠ [] :=
  send_chunks_chunk self.transfer_id self.files 0 c hc

variable {self} (h : self.files.length < 2 ^ 32)
include h

/-- **The chunks of a transfer** are in order, -/
theorem chunks_inOrder :
    Ledger.empty.InOrder (self.manifest blake3).files.length self.chunks := by
  rw [manifest_files, List.length_map]
  exact (send_chunks_ledger self.transfer_id self.files 0 self.files.length .empty (by omega) h
    (fun _ _ => rfl)).1

/-- add up to what is sent of each file, -/
theorem chunks_addAll (i : Nat) : Ledger.empty.addAll self.chunks i = sent_at self.files i := by
  have hall := (send_chunks_ledger self.transfer_id self.files 0 self.files.length .empty (by omega)
    h (fun _ _ => rfl)).2 i
  rwa [if_neg (by omega), Nat.sub_zero] at hall

/-- and pass their checks when that has the hash of the contents. -/
theorem chunks_verified :
    Ledger.empty.Verified blake3 (self.manifest blake3).files self.chunks ↔
      ∀ file ∈ self.files, blake3 file.sent = blake3 file.contents :=
  send_chunks_verified self.transfer_id blake3 _ self.files 0 .empty (by omega) (fun _ _ => rfl)
    (by rw [manifest_files, List.drop_zero])

end Transfer

end InputSync
