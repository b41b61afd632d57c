/-
Whether a verified file stays verified.

A last chunk is accepted if everything received of its file has the hash of
the manifest. Nothing marks the file as closed after that, nothing compares
the offset with the size in the manifest, and nothing looks at the file
itself: more data may follow, another entry may lead to the same file, and
what a failed write left behind may still stand past the end.

`Careful` says of a call that it does none of this. In a run of careful calls
every file keeps within its size, and every file that was closed keeps the
contents that were verified (`stays_verified_run`).
-/
import InputSync.FailedCalls

set_option autoImplicit false

namespace InputSync

variable (blake3 : List UInt8 → Hash)

/-! ## Runs of `write_chunk`

A host after a list of calls, each with its faults. -/

/-- The host after some calls of `write_chunk`. -/
def Host.after (self : Host) (calls : List (FileChunk × WriteIo)) : Host :=
  calls.foldl (fun host call => (host.write_chunk blake3 call.1 call.2).1) self

/-- One more call. -/
theorem after_concat (host : Host) (calls : List (FileChunk × WriteIo)) (chunk : FileChunk)
    (io : WriteIo) :
    host.after blake3 (calls ++ [(chunk, io)])
      = ((host.after blake3 calls).write_chunk blake3 chunk io).1 := by
  rw [Host.after, List.foldl_append]
  rfl

/-- A last chunk of transfer `t` that was accepted. -/
def Closes (host : Host) (t : UInt64) (chunk : FileChunk) (io : WriteIo) : Prop :=
  chunk.transfer_id = t ∧ chunk.is_last = true ∧ ∃ n, (host.write_chunk blake3 chunk io).2 = .ok n

/-- File `j` of transfer `t` was closed by one of the calls. -/
def Closed (host : Host) (t : UInt64) (j : Nat) (calls : List (FileChunk × WriteIo)) : Prop :=
  ∃ pre chunk io post, calls = pre ++ (chunk, io) :: post ∧ chunk.file_index.toNat = j ∧
    Closes blake3 (host.after blake3 pre) t chunk io

/-- After these calls no file of the transfer has more than its size, and those
that were closed have what they had when they were closed: contents with the
hash of the manifest. -/
structure StaysVerified (host : Host) (t : UInt64) (calls : List (FileChunk × WriteIo)) : Prop where
  within : ∀ p, (host.after blake3 calls).receiver.transfers t = some p →
    ∀ i (hi : i < p.manifest.files.length), (p.received i hi).toNat ≤ (p.entry i hi).size.toNat
  kept : ∀ pre chunk io post, calls = pre ++ (chunk, io) :: post →
    Closes blake3 (host.after blake3 pre) t chunk io →
    ∀ p, (host.after blake3 calls).receiver.transfers t = some p →
    ∀ hi : chunk.file_index.toNat < p.manifest.files.length, ∃ contents,
      (host.after blake3 calls).disk (p.path chunk.file_index.toNat hi) = some contents ∧
      (host.after blake3 (pre ++ [(chunk, io)])).disk (p.path chunk.file_index.toNat hi)
        = some contents ∧
      blake3 contents = (p.entry chunk.file_index.toNat hi).blake3

/-! ## Careful calls

The condition on a call: it looks at the state before it, and at the chunk. -/

/-- What is asked of a call after some others, if its chunk is in turn. -/
structure Careful (host : Host) (t : UInt64) (calls : List (FileChunk × WriteIo))
    (chunk : FileChunk) (io : WriteIo) (p : RecvProgress)
    (hi : chunk.file_index.toNat < p.manifest.files.length) (old : List UInt8) : Prop where
  /-- It does not go past the size of its file. -/
  within : chunk.transfer_id = t → io.Succeeds chunk.offset chunk.data →
    (p.received chunk.file_index.toNat hi).toNat + chunk.data.length
      ≤ (p.entry chunk.file_index.toNat hi).size.toNat
  /-- What it puts into the file of a closed entry stands there already. -/
  closed : ∀ q j (hj : j < q.manifest.files.length),
    (host.after blake3 calls).receiver.transfers t = some q → Closed blake3 host t j calls →
    q.path j hj = p.path chunk.file_index.toNat hi →
    io.reaches chunk.offset chunk.data <+: old.drop chunk.offset.toNat
  /-- If it closes a file, there is in it what was received of it, and nothing past
  the chunk. -/
  last : chunk.transfer_id = t → io.Succeeds chunk.offset chunk.data → chunk.is_last = true →
    blake3 ((p.hasher chunk.file_index.toNat hi).absorbed ++ chunk.data)
      = (p.entry chunk.file_index.toNat hi).blake3 →
    old.take chunk.offset.toNat = (p.hasher chunk.file_index.toNat hi).absorbed ∧
      old.length ≤ chunk.offset.toNat + chunk.data.length

/-- Every call of the run whose chunk is in turn is careful. -/
def AllCareful (host : Host) (t : UInt64) (calls : List (FileChunk × WriteIo)) : Prop :=
  ∀ pre chunk io post, calls = pre ++ (chunk, io) :: post →
    ∀ p, (host.after blake3 pre).receiver.transfers chunk.transfer_id = some p →
    ∀ (hi : chunk.file_index.toNat < p.manifest.files.length) (old : List UInt8),
      chunk.offset = p.received chunk.file_index.toNat hi →
      (host.after blake3 pre).disk (p.path chunk.file_index.toNat hi) = some old →
      Careful blake3 host t pre chunk io p hi old

/-! ## One call

What one careful call does to a file that is verified, and to one that is not. -/

/-- A file that holds the data received so far, and nothing past the chunk, is
then what was received. -/
theorem splice_reached (old received data : List UInt8) (off : Nat)
    (htake : old.take off = received) (hoff : received.length = off)
    (hend : old.length ≤ off + data.length) : splice 0 old off data = received ++ data := by
  have hle : off ≤ old.length := by
    rw [← htake, List.length_take] at hoff
    omega
  rw [splice_eq 0 old off data hle, htake, List.drop_eq_nil_of_le hend, List.append_nil]

/-- Absorbing a chunk keeps count. -/
theorem advance_counted (p : RecvProgress) (i : Nat) (hi : i < p.manifest.files.length)
    (data : List UInt8) (hfit : (p.received i hi).toNat + data.length ≤ MAX_FILE)
    (hcount : ∀ j (hj : j < p.manifest.files.length),
      (p.hasher j hj).absorbed.length = (p.received j hj).toNat) (j : Nat)
    (hj : j < (p.advance i hi data).manifest.files.length) :
    ((p.advance i hi data).hasher j hj).absorbed.length
        = ((p.advance i hi data).received j hj).toNat ∧
      ((p.advance i hi data).received j hj).toNat
        = if i = j then (p.received i hi).toNat + data.length else (p.received j hj).toNat := by
  by_cases hij : i = j
  · subst hij
    rw [if_pos rfl, advance_received_self, advance_hasher_self, toNat_add_length _ _ hfit,
      Hasher.update, List.length_append, hcount i hi]
    exact ⟨rfl, rfl⟩
  · rw [if_neg hij, advance_received_ne p i j hi hj data hij, advance_hasher_ne p i j hi hj data hij]
    exact ⟨hcount j hj, rfl⟩

section Call

variable (host : Host) (t : UInt64) (calls : List (FileChunk × WriteIo)) (chunk : FileChunk)
  (io : WriteIo)

/-- Either nothing happens, or the chunk is in turn for a file that is there. -/
theorem write_chunk_idle_or_turn (host : Host) :
    (∃ e, host.write_chunk blake3 chunk io = (host, .error e)) ∨
    ∃ p, host.receiver.transfers chunk.transfer_id = some p ∧
      ∃ (hi : chunk.file_index.toNat < p.manifest.files.length) (old : List UInt8),
        chunk.offset = p.received chunk.file_index.toNat hi ∧
        host.disk (p.path chunk.file_index.toNat hi) = some old := by
  by_cases hturn : host.InTurn chunk
  · obtain ⟨p, hp, hi, hoff⟩ := hturn
    cases hold : host.disk (p.path chunk.file_index.toNat hi) with
    | none =>
        refine .inl ⟨.io, ?_⟩
        rw [write_chunk_known blake3 host chunk io p hp hi, if_neg (not_not.mpr hoff), write_file,
          hold]
    | some old => exact .inr ⟨p, hp, hi, old, hoff, hold⟩
  · obtain ⟨e, -, heq⟩ := write_chunk_not_in_turn blake3 host chunk io hturn
    exact .inl ⟨e, heq⟩

/-- What is kept of a run, with what it takes for one more call: that it leaves
the closed files alone, and closes a file only on verified contents. -/
theorem StaysVerified.kept_concat {host : Host} {t : UInt64} {calls : List (FileChunk × WriteIo)}
    (h : StaysVerified blake3 host t calls) (p p' : RecvProgress)
    (hp : (host.after blake3 calls).receiver.transfers t = some p)
    (hp' : ((host.after blake3 calls).write_chunk blake3 chunk io).1.receiver.transfers t = some p')
    (hsame : p' = p ∨ ∃ i hi data, p' = p.advance i hi data)
    (hclosed : ∀ j (hj : j < p.manifest.files.length), Closed blake3 host t j calls →
      ((host.after blake3 calls).write_chunk blake3 chunk io).1.disk (p.path j hj)
        = (host.after blake3 calls).disk (p.path j hj))
    (hnew : Closes blake3 (host.after blake3 calls) t chunk io →
      ∀ hi : chunk.file_index.toNat < p'.manifest.files.length, ∃ contents,
        ((host.after blake3 calls).write_chunk blake3 chunk io).1.disk
            (p'.path chunk.file_index.toNat hi) = some contents ∧
          blake3 contents = (p'.entry chunk.file_index.toNat hi).blake3) :
    ∀ pre c cio post, calls ++ [(chunk, io)] = pre ++ (c, cio) :: post →
      Closes blake3 (host.after blake3 pre) t c cio →
      ∀ q, (host.after blake3 (calls ++ [(chunk, io)])).receiver.transfers t = some q →
      ∀ hi : c.file_index.toNat < q.manifest.files.length, ∃ contents,
        (host.after blake3 (calls ++ [(chunk, io)])).disk (q.path c.file_index.toNat hi)
          = some contents ∧
        (host.after blake3 (pre ++ [(c, cio)])).disk (q.path c.file_index.toNat hi)
          = some contents ∧
        blake3 contents = (q.entry c.file_index.toNat hi).blake3 := by
  intro pre c cio post hsplit hcloses q hq hi
  rw [after_concat, hp', Option.some_inj] at hq
  subst hq
  rcases List.eq_nil_or_concat post with rfl | ⟨post, last, rfl⟩
  · -- the new call is the one that closes the file
    obtain ⟨rfl, hlast⟩ := List.append_inj' hsplit rfl
    obtain ⟨rfl, rfl⟩ := Prod.mk.inj (List.singleton_inj.mp hlast)
    obtain ⟨contents, hdisk, hhash⟩ := hnew hcloses hi
    rw [after_concat]
    exact ⟨contents, hdisk, hdisk, hhash⟩
  · rw [List.concat_eq_append, ← List.cons_append, ← List.append_assoc] at hsplit
    obtain ⟨rfl, -⟩ := List.append_inj' hsplit rfl
    have hmem : Closed blake3 host t c.file_index.toNat (pre ++ (c, cio) :: post) :=
      ⟨pre, c, cio, post, rfl, rfl, hcloses⟩
    -- the entry has the same files and paths as before
    rcases hsame with rfl | ⟨i, hi', data, rfl⟩
    · obtain ⟨contents, hdisk, hthen, hhash⟩ := h.kept pre c cio post rfl hcloses _ hp hi
      exact ⟨contents, by rw [after_concat, hclosed _ hi hmem, hdisk], hthen, hhash⟩
    · obtain ⟨contents, hdisk, hthen, hhash⟩ := h.kept pre c cio post rfl hcloses p hp hi
      exact ⟨contents, by rw [after_concat]; exact (hclosed _ hi hmem).trans hdisk, hthen, hhash⟩

/-- The invariant of a careful run. -/
structure Sound : Prop where
  counted : ∃ p, (host.after blake3 calls).receiver.transfers t = some p ∧
    ∀ i (hi : i < p.manifest.files.length),
      (p.hasher i hi).absorbed.length = (p.received i hi).toNat
  stays : StaysVerified blake3 host t calls

variable {host t calls}

/-- A call that leaves the entry and the closed files alone, and closes nothing. -/
theorem Sound.unmoved (h : Sound blake3 host t calls)
    (hentry : ((host.after blake3 calls).write_chunk blake3 chunk io).1.receiver.transfers t
      = (host.after blake3 calls).receiver.transfers t)
    (hclosed : ∀ p, (host.after blake3 calls).receiver.transfers t = some p →
      ∀ j (hj : j < p.manifest.files.length), Closed blake3 host t j calls →
        ((host.after blake3 calls).write_chunk blake3 chunk io).1.disk (p.path j hj)
          = (host.after blake3 calls).disk (p.path j hj))
    (hopen : ¬ Closes blake3 (host.after blake3 calls) t chunk io) :
    Sound blake3 host t (calls ++ [(chunk, io)]) := by
  obtain ⟨p, hp, hcount⟩ := h.counted
  refine ⟨⟨p, by rw [after_concat, hentry]; exact hp, hcount⟩, ⟨?_, ?_⟩⟩
  · intro q hq
    rw [after_concat, hentry] at hq
    exact h.stays.within q hq
  · exact h.stays.kept_concat blake3 chunk io p p hp (hentry.trans hp) (.inl rfl) (hclosed p hp)
      (fun hcloses => absurd hcloses hopen)

section Turn

variable {chunk io} {p : RecvProgress}
  {hi : chunk.file_index.toNat < p.manifest.files.length} {old : List UInt8}

/-- What a chunk in turn leaves on the disk. -/
theorem turn_disk {host : Host} (hp : host.receiver.transfers chunk.transfer_id = some p)
    (hoff : chunk.offset = p.received chunk.file_index.toNat hi)
    (hold : host.disk (p.path chunk.file_index.toNat hi) = some old) :
    (host.write_chunk blake3 chunk io).1.disk
      = Function.update host.disk (p.path chunk.file_index.toNat hi)
        (some (splice 0 old chunk.offset.toNat (io.reaches chunk.offset chunk.data))) := by
  rw [write_chunk_turn blake3 _ chunk io p hp hi hoff old hold]
  split
  · rename_i hio
    rw [reaches_succeeds io _ _ hio]
  · rfl

/-- A careful call leaves the closed files alone. -/
theorem Careful.untouched (hc : Careful blake3 host t calls chunk io p hi old)
    (hp : (host.after blake3 calls).receiver.transfers chunk.transfer_id = some p)
    (hoff : chunk.offset = p.received chunk.file_index.toNat hi)
    (hold : (host.after blake3 calls).disk (p.path chunk.file_index.toNat hi) = some old)
    (q : RecvProgress) (hq : (host.after blake3 calls).receiver.transfers t = some q) (j : Nat)
    (hj : j < q.manifest.files.length) (hmem : Closed blake3 host t j calls) :
    ((host.after blake3 calls).write_chunk blake3 chunk io).1.disk (q.path j hj)
      = (host.after blake3 calls).disk (q.path j hj) := by
  rw [turn_disk blake3 hp hoff hold]
  by_cases hpath : q.path j hj = p.path chunk.file_index.toNat hi
  · rw [hpath, Function.update_self, splice_same _ _ _ _ (hc.closed q j hj hq hmem hpath), hold]
  · exact Function.update_of_ne hpath _ _

/-- A last chunk that is accepted leaves its file with verified contents. -/
theorem Careful.verified {host : Host}
    (hc : Careful blake3 host chunk.transfer_id calls chunk io p hi old)
    (hp : (host.after blake3 calls).receiver.transfers chunk.transfer_id = some p)
    (hoff : chunk.offset = p.received chunk.file_index.toNat hi)
    (hold : (host.after blake3 calls).disk (p.path chunk.file_index.toNat hi) = some old)
    (hcount : (p.hasher chunk.file_index.toNat hi).absorbed.length
      = (p.received chunk.file_index.toNat hi).toNat)
    (hio : io.Succeeds chunk.offset chunk.data) (hlast : chunk.is_last = true) (n : UInt64)
    (hn : ((host.after blake3 calls).write_chunk blake3 chunk io).2 = .ok n) :
    ∃ contents, ((host.after blake3 calls).write_chunk blake3 chunk io).1.disk
        (p.path chunk.file_index.toNat hi) = some contents ∧
      blake3 contents = (p.entry chunk.file_index.toNat hi).blake3 := by
  refine ⟨splice 0 old chunk.offset.toNat chunk.data, ?_, ?_⟩
  · rw [turn_disk blake3 hp hoff hold, reaches_succeeds io _ _ hio]
    exact Function.update_self _ _ _
  · rw [write_chunk_turn blake3 _ chunk io p hp hi hoff old hold, if_pos hio] at hn
    have hverdict : (p.advance _ hi chunk.data).verdict blake3 _ hi chunk.is_last = .ok n := hn
    have hhash := (verdict_accepted blake3 (p.advance _ hi chunk.data) _ hi chunk.is_last).mp
      (by rw [hverdict]; rfl) hlast
    rw [advance_hasher_self] at hhash
    obtain ⟨htake, hend⟩ := hc.last rfl hio hlast hhash
    rw [splice_reached _ _ _ _ htake (by rw [hcount, hoff]) hend]
    exact hhash

/-- A careful call by which a file of the transfer grows. -/
theorem Sound.grown {host : Host} (h : Sound blake3 host chunk.transfer_id calls)
    (hc : Careful blake3 host chunk.transfer_id calls chunk io p hi old)
    (hp : (host.after blake3 calls).receiver.transfers chunk.transfer_id = some p)
    (hoff : chunk.offset = p.received chunk.file_index.toNat hi)
    (hold : (host.after blake3 calls).disk (p.path chunk.file_index.toNat hi) = some old)
    (hio : io.Succeeds chunk.offset chunk.data) :
    Sound blake3 host chunk.transfer_id (calls ++ [(chunk, io)]) := by
  obtain ⟨p', hp', hcount⟩ := h.counted
  obtain rfl : p' = p := Option.some.inj (hp'.symm.trans hp)
  have hfit : (p'.received chunk.file_index.toNat hi).toNat + chunk.data.length ≤ MAX_FILE := by
    rw [← hoff]
    exact hio.2.2.2.2
  -- the call counts its bytes in this file and leaves the counts of the others
  have hadvance := advance_counted p' _ hi chunk.data hfit hcount
  have hentry : ((host.after blake3 calls).write_chunk blake3 chunk io).1.receiver.transfers
      chunk.transfer_id = some (p'.advance chunk.file_index.toNat hi chunk.data) := by
    rw [write_chunk_turn blake3 _ chunk io p' hp hi hoff old hold, if_pos hio]
    exact Function.update_self _ _ _
  refine ⟨⟨_, by rw [after_concat]; exact hentry, fun j hj => (hadvance j hj).1⟩, ⟨?_, ?_⟩⟩
  · intro q hq j hj
    rw [after_concat, hentry, Option.some_inj] at hq
    subst hq
    rw [(hadvance j hj).2]
    split
    · rename_i hij
      subst hij
      exact hc.within rfl hio
    · exact h.stays.within p' hp j hj
  · refine h.stays.kept_concat blake3 chunk io p' _ hp hentry (.inr ⟨_, hi, _, rfl⟩)
      (hc.untouched blake3 hp hoff hold p' hp) ?_
    -- if it closes the file, the file is what was received of it, as being careful asks
    rintro ⟨-, hlast, n, hn⟩ hi'
    exact hc.verified blake3 hp hoff hold (hcount _ hi) hio hlast n hn

end Turn

/-- **One call.** A careful call keeps the invariant. -/
theorem Sound.concat (h : Sound blake3 host t calls)
    (hcareful : ∀ p, (host.after blake3 calls).receiver.transfers chunk.transfer_id = some p →
      ∀ (hi : chunk.file_index.toNat < p.manifest.files.length) (old : List UInt8),
        chunk.offset = p.received chunk.file_index.toNat hi →
        (host.after blake3 calls).disk (p.path chunk.file_index.toNat hi) = some old →
        Careful blake3 host t calls chunk io p hi old) :
    Sound blake3 host t (calls ++ [(chunk, io)]) := by
  -- a call that is refused does nothing; one that is in turn counts its bytes if it
  -- succeeds for this transfer, and otherwise moves nothing of it
  rcases write_chunk_idle_or_turn blake3 chunk io (host.after blake3 calls) with
    ⟨e, heq⟩ | ⟨p, hp, hi, old, hoff, hold⟩
  · refine h.unmoved blake3 chunk io (by rw [heq]) (fun q _ j hj _ => by rw [heq]) ?_
    rintro ⟨-, -, n, hn⟩
    rw [heq] at hn
    cases hn
  · have hc := hcareful p hp hi old hoff hold
    have hturn := write_chunk_turn blake3 _ chunk io p hp hi hoff old hold
    by_cases hown : chunk.transfer_id = t ∧ io.Succeeds chunk.offset chunk.data
    · obtain ⟨rfl, hio⟩ := hown
      exact h.grown blake3 hc hp hoff hold hio
    · refine h.unmoved blake3 chunk io ?_ (hc.untouched blake3 hp hoff hold) ?_
      · rw [hturn]
        split
        · rename_i hio
          exact Function.update_of_ne (fun ht => hown ⟨ht.symm, hio⟩) _ _
        · rfl
      · rintro ⟨ht, -, n, hn⟩
        rw [hturn, if_neg (fun hio => hown ⟨ht, hio⟩)] at hn
        cases hn

end Call

/-! ## Runs of careful calls

The invariant along the run. -/

/-- A transfer that has just begun. -/
theorem sound_begun (host : Host) (t : UInt64) (manifest : FileManifest) (bio : BeginIo)
    (h : (host.begin t manifest bio).2 = .ok ()) :
    Sound blake3 (host.begin t manifest bio).1 t [] := by
  obtain ⟨paths, -, hreceiver, -⟩ := begin_ok host t manifest bio h
  have hentry : ((host.begin t manifest bio).1.after blake3 []).receiver.transfers t
      = some (.start manifest paths) := by
    rw [Host.after, List.foldl_nil, hreceiver]
    exact Function.update_self _ _ _
  have hzero : ∀ i (hi : i < (RecvProgress.start manifest paths).manifest.files.length),
      ((RecvProgress.start manifest paths).received i hi).toNat = 0 := by
    intro i hi
    simp [RecvProgress.received, RecvProgress.start]
  -- nothing has been received, so there is nothing to have verified
  refine ⟨⟨_, hentry, fun i hi => ?_⟩, ⟨fun p hp i hi => ?_, fun pre c cio post hsplit => ?_⟩⟩
  · rw [hzero]
    simp [RecvProgress.hasher, RecvProgress.start, Hasher.new]
  · rw [hentry, Option.some_inj] at hp
    subst hp
    rw [hzero]
    exact Nat.zero_le _
  · exact absurd hsplit (by simp)

/-- **A verified file stays verified**, in every run of careful calls and at
every point of it. -/
theorem stays_verified_run (host : Host) (t : UInt64) (manifest : FileManifest) (bio : BeginIo)
    (h : (host.begin t manifest bio).2 = .ok ()) (calls : List (FileChunk × WriteIo))
    (hcalls : AllCareful blake3 (host.begin t manifest bio).1 t calls)
    (pre post : List (FileChunk × WriteIo)) (hsplit : calls = pre ++ post) :
    StaysVerified blake3 (host.begin t manifest bio).1 t pre := by
  suffices hsound : Sound blake3 (host.begin t manifest bio).1 t pre from hsound.stays
  induction pre using List.reverseRecOn generalizing post with
  | nil => exact sound_begun blake3 host t manifest bio h
  | append_singleton pre call ih =>
      have hcall : calls = pre ++ (call.1, call.2) :: post := by
        rw [hsplit, List.append_assoc]
        rfl
      exact (ih (call :: post) hcall).concat blake3 call.1 call.2
        (hcalls pre call.1 call.2 post hcall)

/-- Where each transfer was begun once, to places of its own, a file always begins
with what was received of it: of a last chunk, `Careful` then only asks that it
reaches the end of the file. -/
theorem Recorded.received_in_file {drop_dir : Path} {ops : List RecvOp} {host : Host}
    (h : Recorded drop_dir ops host) (chunk : FileChunk) (p : RecvProgress)
    (hp : host.receiver.transfers chunk.transfer_id = some p)
    (hi : chunk.file_index.toNat < p.manifest.files.length) (old : List UInt8)
    (hoff : chunk.offset = p.received chunk.file_index.toNat hi)
    (hold : host.disk (p.path chunk.file_index.toNat hi) = some old) :
    old.take chunk.offset.toNat = (p.hasher chunk.file_index.toNat hi).absorbed := by
  obtain ⟨f, hf, -, htake⟩ := h.faithful _ p hp chunk.file_index.toNat hi
  obtain rfl := Option.some.inj (hold.symm.trans hf)
  rw [hoff, htake]

/-! ## A file of one byte

A run to try it on. -/

/-- A hash that knows the byte 7. -/
def hash_seven (data : List UInt8) : Hash :=
  if data = [7] then Vector.replicate 32 9 else Vector.replicate 32 8

/-- The offer of a file of that byte. -/
def seven_manifest : FileManifest := ⟨[⟨"a.bin", 1, Vector.replicate 32 9⟩], 1⟩

/-- The host after its offer. -/
def seven_begun : Host := ((Host.new ["drop"] fun _ => none).begin 1 seven_manifest .ok).1

/-- Its entry then. -/
def seven_entry : RecvProgress := (seven_begun.receiver.transfers 1).get (by decide)

/-- The only chunk of the file. -/
def seven : FileChunk := ⟨1, 0, 0, [7], true⟩

/-- A chunk behind it. -/
def seven_more : FileChunk := ⟨1, 0, 1, [9], false⟩

/-- The file's own chunk, the same chunk sent again, which is out of turn, and an
empty one behind it: none of them changes the file once it is verified. -/
theorem stays_verified_run_seven :
    let calls : List (FileChunk × WriteIo) :=
      [(seven, .ok), (seven, .ok), (⟨1, 0, 1, [], false⟩, .ok)]
    (((Host.new ["drop"] fun _ => none).begin 1 seven_manifest .ok).2 = .ok () ∧
      (seven_begun.write_chunk hash_seven seven .ok).2 = .ok 1) ∧
    StaysVerified hash_seven seven_begun 1 calls := by
  intro calls
  refine ⟨by decide, stays_verified_run hash_seven (Host.new ["drop"] fun _ => none) 1
    seven_manifest .ok (by decide) calls ?_ calls [] (List.append_nil calls).symm⟩
  have hentry : seven_begun.receiver.transfers 1 = some seven_entry := by
    rw [seven_entry, Option.some_get]
  have hwithin : (seven_entry.received 0 (by decide)).toNat + seven.data.length
      ≤ (seven_entry.entry 0 (by decide)).size.toNat := by decide
  have hnew : seven_begun.disk (seven_entry.path 0 (by decide)) = some [] := by decide
  have hnone : (seven_entry.hasher 0 (by decide)).absorbed = [] := by decide
  intro pre chunk io post hsplit p hp hi old hoff hold
  rcases pre with _ | ⟨first, _ | ⟨second, _ | ⟨third, pre⟩⟩⟩
  · obtain ⟨hcall, -⟩ := List.cons.inj hsplit
    obtain ⟨rfl, rfl⟩ := Prod.mk.inj hcall
    obtain rfl : p = seven_entry := Option.some.inj (hp.symm.trans hentry)
    obtain rfl : old = [] := Option.some.inj (hold.symm.trans hnew)
    refine ⟨fun _ _ => hwithin, ?_, fun _ _ _ _ => ⟨hnone.symm, Nat.zero_le _⟩⟩
    rintro q j hj - ⟨pre, c, cio, post, hnil, -⟩
    exact absurd hnil (by simp)
  · -- one byte has been received, so offset 0 is not in turn
    obtain ⟨rfl, hrest⟩ := List.cons.inj hsplit
    obtain ⟨hcall, -⟩ := List.cons.inj hrest
    obtain ⟨rfl, rfl⟩ := Prod.mk.inj hcall
    obtain rfl := Option.some.inj (hp.symm.trans (Option.some_get (by decide)).symm)
    have hreceived : (((seven_begun.after hash_seven [(seven, .ok)]).receiver.transfers 1).get
        (by decide)).received 0 (by decide) = 1 := by decide
    exact absurd (hoff.trans hreceived) (by decide)
  · -- an empty chunk writes nothing and closes nothing
    obtain ⟨rfl, htwo⟩ := List.cons.inj hsplit
    obtain ⟨rfl, hrest⟩ := List.cons.inj htwo
    obtain ⟨hcall, -⟩ := List.cons.inj hrest
    obtain ⟨rfl, rfl⟩ := Prod.mk.inj hcall
    obtain rfl := Option.some.inj (hp.symm.trans (Option.some_get (by decide)).symm)
    have hfits : ((((seven_begun.after hash_seven
        [(seven, .ok), (seven, .ok)]).receiver.transfers 1).get
          (by decide)).received 0 (by decide)).toNat ≤ 1 := by decide
    exact ⟨fun _ _ => hfits, fun _ _ _ _ _ _ => List.nil_prefix, fun _ _ h => nomatch h⟩
  · exact absurd (congrArg List.length hsplit) (by simp [calls])

/-- **A verified file changes.** Its last chunk is accepted; the next one is
accepted as well, and grows the file past its size. -/
theorem verified_then_changed :
    ((seven_begun.write_chunk hash_seven seven .ok).2 = .ok 1 ∧
      (seven_begun.after hash_seven [(seven, .ok)]).disk ["drop", "a.bin"] = some [7]) ∧
    ((seven_begun.after hash_seven [(seven, .ok)]).write_chunk hash_seven seven_more .ok).2 = .ok 2 ∧
    (seven_begun.after hash_seven [(seven, .ok), (seven_more, .ok)]).disk ["drop", "a.bin"]
      = some [7, 9] ∧
    ¬ StaysVerified hash_seven seven_begun 1 [(seven, .ok), (seven_more, .ok)] := by
  refine ⟨by decide, by decide, by decide, ?_⟩
  intro h
  have hwithin := h.within
    (((seven_begun.after hash_seven [(seven, .ok), (seven_more, .ok)]).receiver.transfers 1).get
      (by decide)) (Option.some_get _).symm 0 (by decide)
  exact absurd hwithin (by decide)

end InputSync
