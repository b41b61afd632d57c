/-
What a failed call leaves behind.

A `begin` that meets a rejected path has created the files before it, and
creating a file empties one that was there. A `write_chunk` that fails its hash
check has written the chunk and moved the offset and the hasher past it. Every
other error that does not come from the file system is found before anything
is touched.

`Host.InTurn` is the check both arguments turn on: a chunk for a known file at
the offset that is expected next.
-/
import InputSync.Resume

set_option autoImplicit false

namespace InputSync

/-! ## Chunks in turn

A chunk that is not in turn does not get past the lookup. -/

/-- The chunk is for a file of a known transfer, at the offset expected next. -/
def Host.InTurn (self : Host) (chunk : FileChunk) : Prop :=
  ∃ p, self.receiver.transfers chunk.transfer_id = some p ∧
    ∃ hi : chunk.file_index.toNat < p.manifest.files.length,
      chunk.offset = p.received chunk.file_index.toNat hi

variable (blake3 : List UInt8 → Hash)

/-- Any other chunk is refused by the lookup. -/
theorem write_chunk_not_in_turn (self : Host) (chunk : FileChunk) (io : WriteIo)
    (h : ¬ self.InTurn chunk) :
    ∃ e, e ≠ .io ∧ self.write_chunk blake3 chunk io = (self, .error e) := by
  cases hp : self.receiver.transfers chunk.transfer_id with
  | none => exact ⟨.unknown_transfer, nofun, write_chunk_unknown blake3 self chunk io hp⟩
  | some p =>
      by_cases hi : chunk.file_index.toNat < p.manifest.files.length
      · rcases write_chunk_cases blake3 self chunk io p hp hi with
          ⟨-, heq⟩ | ⟨hoff, -⟩ | ⟨hoff, -⟩
        · exact ⟨.chunk_out_of_order _ _, nofun, heq⟩
        · exact absurd ⟨p, hp, hi, hoff⟩ h
        · exact absurd ⟨p, hp, hi, hoff⟩ h
      · exact ⟨.file_index_out_of_range, nofun,
          write_chunk_out_of_range blake3 self chunk io p hp hi⟩

/-- A chunk in turn is written, in full or not, and if in full absorbed. -/
theorem write_chunk_in_turn (self : Host) (chunk : FileChunk) (io : WriteIo) (p : RecvProgress)
    (hp : self.receiver.transfers chunk.transfer_id = some p)
    (hi : chunk.file_index.toNat < p.manifest.files.length)
    (hoff : chunk.offset = p.received chunk.file_index.toNat hi) :
    (∃ disk, self.write_chunk blake3 chunk io = ({ self with disk }, .error .io) ∧
      (disk = self.disk ∨
        ∃ old landed, self.disk (p.path chunk.file_index.toNat hi) = some old ∧
          landed <+: chunk.data ∧
          disk = Function.update self.disk (p.path chunk.file_index.toNat hi)
            (some (splice 0 old chunk.offset.toNat landed)))) ∨
    (∃ old, self.disk (p.path chunk.file_index.toNat hi) = some old ∧
      chunk.offset.toNat + chunk.data.length ≤ MAX_FILE ∧
      self.write_chunk blake3 chunk io
        = ({ receiver := self.receiver.insert chunk.transfer_id
              (p.advance chunk.file_index.toNat hi chunk.data)
             disk := Function.update self.disk (p.path chunk.file_index.toNat hi)
              (some (splice 0 old chunk.offset.toNat chunk.data)) },
            (p.advance chunk.file_index.toNat hi chunk.data).verdict blake3
              chunk.file_index.toNat hi chunk.is_last)) := by
  rcases write_chunk_cases blake3 self chunk io p hp hi with ⟨hne, -⟩ | ⟨-, h⟩ | ⟨-, h⟩
  · exact absurd hoff hne
  · exact .inl h
  · exact .inr h

/-! ## Nothing to absorb

An empty chunk in turn leaves everything as it is. -/

/-- A chunk without data leaves the entry as it is. -/
theorem advance_nil (p : RecvProgress) (i : Nat) (hi : i < p.manifest.files.length) :
    p.advance i hi [] = p := by
  have hreceived : p.bytes_received.set i (p.received i hi + UInt64.ofNat ([] : List UInt8).length)
      = p.bytes_received := by
    have hzero : p.received i hi + UInt64.ofNat ([] : List UInt8).length = p.received i hi :=
      UInt64.add_zero _
    rw [hzero]
    exact Vector.set_getElem_self hi
  have hhasher : p.hashers.set i ((p.hasher i hi).update []) = p.hashers := by
    rw [Hasher.update, List.append_nil]
    exact Vector.set_getElem_self hi
  rw [RecvProgress.advance, hreceived, hhasher]

/-- Putting an entry back as it is changes nothing. -/
theorem insert_self (self : Receiver) (t : UInt64) (p : RecvProgress)
    (hp : self.transfers t = some p) : self.insert t p = self := by
  rw [Receiver.insert, ← hp, Function.update_eq_self]

/-- A chunk with data that fits moves the offset. -/
theorem advance_moves (p : RecvProgress) (i : Nat) (hi : i < p.manifest.files.length)
    (data : List UInt8) (hdata : data ≠ []) (hfit : (p.received i hi).toNat + data.length ≤ MAX_FILE) :
    (p.advance i hi data).received i hi ≠ p.received i hi := by
  have hpos := List.length_pos_iff.mpr hdata
  intro heq
  rw [advance_received_self] at heq
  have hlen := toNat_add_length _ data hfit
  rw [heq] at hlen
  omega

/-! ## What a rejected path leaves behind

The files are made empty one after the other, so those before the rejected path already
are. -/

/-- The entries before the first one whose path is rejected. -/
def accepted_entries (files : List FileEntry) : List FileEntry :=
  files.takeWhile (fun e => (sanitize e.relative_path).toOption.isSome)

/-- Their files have been made empty. -/
theorem create_files_rejected (drop_dir : Path) (io : BeginIo) (files : List FileEntry) (i : Nat)
    (disk : Disk) (e : TransferError) (h : (create_files drop_dir io i disk files).2 = .error e)
    (hio : e ≠ .io) (q : Path) :
    (create_files drop_dir io i disk files).1 q
      = if q ∈ destinations drop_dir (accepted_entries files) then some [] else disk q := by
  induction files generalizing i disk with
  | nil => cases h
  | cons entry files ih =>
      rw [create_files] at h ⊢
      cases hsan : sanitize entry.relative_path with
      | error err =>
          have hnone : accepted_entries (entry :: files) = [] := by
            simp [accepted_entries, hsan, Except.toOption]
          rw [hnone]
          exact (if_neg List.not_mem_nil).symm
      | ok rel =>
          have hsome : destinations drop_dir (accepted_entries (entry :: files))
              = (drop_dir ++ rel) :: destinations drop_dir (accepted_entries files) := by
            simp [accepted_entries, destinations, hsan, Except.toOption]
          rw [hsan] at h
          dsimp only at h ⊢
          by_cases hgood : io.parent_ok i ∧ io.create_ok i
          · rw [if_pos hgood] at h ⊢
            dsimp only at h ⊢
            have hrest : (create_files drop_dir io (i + 1)
                (Function.update disk (drop_dir ++ rel) (some [])) files).2 = .error e := by
              cases hr : (create_files drop_dir io (i + 1)
                  (Function.update disk (drop_dir ++ rel) (some [])) files).2 with
              | error err =>
                  rw [hr] at h
                  rw [Except.error.inj h]
              | ok paths =>
                  rw [hr] at h
                  cases h
            rw [ih (i + 1) _ hrest, hsome]
            -- the entry was accepted, and its file truncated
            by_cases hq : q = drop_dir ++ rel
            · subst hq
              rw [Function.update_self, ite_self, if_pos List.mem_cons_self]
            · rw [Function.update_of_ne hq]
              simp only [List.mem_cons, hq, false_or]
          · rw [if_neg hgood] at h
            exact absurd (Except.error.inj h).symm hio

/-- A `begin` that fails for a rejected path has come to it in this way. -/
theorem begin_rejected (self : Host) (t : UInt64) (manifest : FileManifest) (io : BeginIo)
    (e : TransferError) (h : (self.begin t manifest io).2 = .error e) (hio : e ≠ .io) (q : Path) :
    (self.begin t manifest io).1.disk q
      = if q ∈ destinations self.receiver.drop_dir (accepted_entries manifest.files) then some []
        else self.disk q := by
  unfold Host.begin at h ⊢
  by_cases hdrop : io.drop_dir_ok
  · rw [if_pos hdrop] at h ⊢
    dsimp only at h ⊢
    cases hres : (create_files self.receiver.drop_dir io 0 self.disk manifest.files).2 with
    | error err =>
        rw [hres] at h
        obtain rfl := Except.error.inj h
        exact create_files_rejected _ _ _ _ _ err hres hio q
    | ok paths =>
        rw [hres] at h
        cases h
  · rw [if_neg hdrop] at h
    exact absurd (Except.error.inj h).symm hio

/-! ## When a failed call changes nothing

Both calls, and both directions. -/

/-- The error of a call that failed. -/
def Outcome.error : Outcome → Option TransferError
  | .begun (.error e) | .wrote (.error e) => some e
  | .begun (.ok _) | .wrote (.ok _) => none

/-- The table is the same, and so is every file that was there. -/
structure Unchanged (host next : Host) : Prop where
  receiver : next.receiver = host.receiver
  files : ∀ q f, host.disk q = some f → next.disk q = some f

/-- The call has nothing to spoil: no file with contents is at a destination
before the rejected one, and a chunk in turn has no data. -/
def Harmless (host : Host) : RecvOp → Prop
  | .begin _ manifest _ =>
    ∀ q ∈ destinations host.receiver.drop_dir (accepted_entries manifest.files),
      ∀ f, host.disk q = some f → f = []
  | .chunk chunk _ => chunk.data = [] ∨ ¬ host.InTurn chunk

/-- A `begin` that is refused has emptied the files before the rejected path, and
nothing else. So it has changed nothing exactly when these held nothing. -/
theorem begin_unchanged_iff (host : Host) (t : UInt64) (manifest : FileManifest) (io : BeginIo)
    (e : TransferError) (h : (host.begin t manifest io).2 = .error e) (hio : e ≠ .io) :
    Unchanged host (host.begin t manifest io).1 ↔ Harmless host (.begin t manifest io) := by
  have hdisk := begin_rejected host t manifest io e h hio
  constructor
  · intro hsame q hq f hf
    have hkept := hsame.files q f hf
    rw [hdisk q, if_pos hq] at hkept
    exact (Option.some.inj hkept).symm
  · intro hharmless
    refine ⟨begin_error host t manifest io e h, ?_⟩
    intro q f hf
    rw [hdisk q]
    split
    · rename_i hq
      rw [hharmless q hq f hf]
    · exact hf

/-- A chunk that is refused out of turn changes nothing. One that is in turn has been
written and absorbed before the check that fails, so there must have been nothing to
write. -/
theorem write_chunk_unchanged_iff (host : Host) (chunk : FileChunk) (io : WriteIo)
    (e : TransferError) (h : (host.write_chunk blake3 chunk io).2 = .error e) (hio : e ≠ .io) :
    Unchanged host (host.write_chunk blake3 chunk io).1 ↔ Harmless host (.chunk chunk io) := by
  by_cases hturn : host.InTurn chunk
  · obtain ⟨p, hp, hi, hoff⟩ := hturn
    rcases write_chunk_in_turn blake3 host chunk io p hp hi hoff with
      ⟨disk, heq, -⟩ | ⟨old, hold, hfit, heq⟩
    · rw [heq] at h
      exact absurd (Except.error.inj h).symm hio
    · rw [heq]
      constructor
      · intro hsame
        refine .inl ?_
        by_contra hdata
        -- the entry of the transfer shows the new offset
        have hentry := congrArg (fun r : Receiver => r.transfers chunk.transfer_id) hsame.receiver
        simp only [Receiver.insert, Function.update_self, hp, Option.some.injEq] at hentry
        refine advance_moves p chunk.file_index.toNat hi chunk.data hdata (hoff ▸ hfit) ?_
        simp only [hentry]
      · rintro (hdata | hout)
        · dsimp only
          rw [hdata, advance_nil, insert_self _ _ p hp]
          refine ⟨rfl, ?_⟩
          intro q f hf
          dsimp only [splice]
          rwa [← hold, Function.update_eq_self]
        · exact absurd ⟨p, hp, hi, hoff⟩ hout
  · obtain ⟨e', -, heq⟩ := write_chunk_not_in_turn blake3 host chunk io hturn
    rw [heq]
    exact iff_of_true ⟨rfl, fun q f hf => hf⟩ (.inr hturn)

/-- **When a failed call changes nothing.** For a call that fails, and not in
the file system, exactly when it had nothing to spoil. -/
theorem failed_call_unchanged_iff (host : Host) (op : RecvOp) (o : Outcome) (e : TransferError)
    (ho : o ∈ (host.step blake3 op).2) (he : o.error = some e) (hio : e ≠ .io) :
    Unchanged host (host.step blake3 op).1 ↔ Harmless host op := by
  -- an outcome with an error is that of a failed call, and for each of the calls the
  -- equivalence is proved already
  cases op with
  | begin t manifest io =>
      obtain rfl := List.mem_singleton.mp ho
      cases hres : (host.begin t manifest io).2 with
      | error err =>
          rw [hres] at he
          obtain rfl := Option.some.inj he
          exact begin_unchanged_iff host t manifest io err hres hio
      | ok _ =>
          rw [hres] at he
          cases he
  | chunk chunk io =>
      obtain rfl := List.mem_singleton.mp ho
      cases hres : (host.write_chunk blake3 chunk io).2 with
      | error err =>
          rw [hres] at he
          obtain rfl := Option.some.inj he
          exact write_chunk_unchanged_iff blake3 host chunk io err hres hio
      | ok _ =>
          rw [hres] at he
          cases he

/-- A host with one file in its drop directory. -/
def one_file_host : Host :=
  .new ["drop"] (fun q => if q = ["drop", "a.bin"] then some [1, 2, 3] else none)

/-- An offer whose first path is that of the file and whose second leaves the
drop directory. -/
def two_entries : FileManifest :=
  ⟨[⟨"a.bin", 1, Vector.replicate 32 9⟩, ⟨"../b.bin", 1, Vector.replicate 32 9⟩], 2⟩

/-- The equivalence for it. -/
theorem failed_call_unchanged_iff_rejected :
    Unchanged one_file_host (one_file_host.step (fun _ => Vector.replicate 32 9)
        (.begin 1 two_entries .ok)).1 ↔ Harmless one_file_host (.begin 1 two_entries .ok) :=
  failed_call_unchanged_iff _ one_file_host (.begin 1 two_entries .ok)
    (.begun (.error (.suspicious_component "../b.bin"))) (.suspicious_component "../b.bin")
    (List.mem_singleton.mpr rfl) rfl nofun

/-- **Failed calls that change something.** The offer is rejected and `a.bin` is
empty; the chunk fails its check and the next one is expected after it. -/
theorem failed_calls_leave_traces :
    ((one_file_host.begin 1 two_entries .ok).2 = .error (.suspicious_component "../b.bin") ∧
      one_file_host.disk ["drop", "a.bin"] = some [1, 2, 3] ∧
      (one_file_host.begin 1 two_entries .ok).1.disk ["drop", "a.bin"] = some []) ∧
    (let begun := (one_file_host.begin 1 ⟨[⟨"a.bin", 1, Vector.replicate 32 9⟩], 1⟩ .ok).1
      let next := begun.write_chunk (fun _ => Vector.replicate 32 8) ⟨1, 0, 0, [7], true⟩ .ok
      next.2 = .error (.blake3_mismatch "a.bin") ∧ begun.resume_offsets 1 = some [0] ∧
        next.1.resume_offsets 1 = some [1] ∧ next.1.disk ["drop", "a.bin"] = some [7]) := by
  decide

end InputSync
