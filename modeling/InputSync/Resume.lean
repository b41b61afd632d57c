/-
The table of transfers as a record of the disk, and resuming from it.

`Faithful` ties the three stores of a transfer together: the first
`bytes_received` bytes of a file are what its hasher absorbed. Writing past
them, completely or not, keeps that; so it holds after every sequence of
calls in which transfers are begun once and do not share a destination
(`recorded_run`), whatever fails.

What a failed write left behind is beyond the recorded offset. If everything
that was ever tried on a file is a slice of one content at its own place, the
file is a prefix of that content at all times, and sending the rest from the
recorded offset completes it, in any chunking.
-/
import InputSync.Receiver
import Mathlib.Data.List.Nodup
import Mathlib.Data.List.Pairwise

set_option autoImplicit false

namespace InputSync

/-! ## A record of the disk

Three things say how far a file has come: its offset, its hasher and the file itself.
They are written at different times, and what ties them together is this section's
invariant. -/

/-- The first `bytes_received` bytes of each file are what its hasher absorbed. -/
def Faithful (disk : Disk) (p : RecvProgress) : Prop :=
  ∀ i (h : i < p.manifest.files.length), ∃ f, disk (p.path i h) = some f ∧
    (p.received i h).toNat ≤ f.length ∧
    f.take (p.received i h).toNat = (p.hasher i h).absorbed

/-- The offset after a chunk, which does not wrap: files end at `MAX_FILE`. -/
theorem toNat_add_length (r : UInt64) (data : List UInt8) (h : r.toNat + data.length ≤ MAX_FILE) :
    (r + UInt64.ofNat data.length).toNat = r.toNat + data.length := by
  have hmax : MAX_FILE = 9223372036854775807 := rfl
  rw [UInt64.toNat_add, UInt64.toNat_ofNat', Nat.mod_eq_of_lt (a := data.length) (by omega),
    Nat.mod_eq_of_lt (by omega)]

section Advance

variable (p : RecvProgress) (i j : Nat) (hi : i < p.manifest.files.length)
  (hj : j < p.manifest.files.length) (data : List UInt8)

/-! `advance` moves one file on and leaves the others. -/

/-- The offset of the file that moves on. -/
theorem advance_received_self :
    (p.advance i hi data).received i hi = p.received i hi + UInt64.ofNat data.length :=
  Vector.getElem_set_self hi

/-- Its hasher. -/
theorem advance_hasher_self : (p.advance i hi data).hasher i hi = (p.hasher i hi).update data :=
  Vector.getElem_set_self hi

/-- The other files keep their offsets, -/
theorem advance_received_ne (hij : i ≠ j) :
    (p.advance i hi data).received j hj = p.received j hj :=
  Vector.getElem_set_ne hi hj hij

/-- and their hashers. -/
theorem advance_hasher_ne (hij : i ≠ j) : (p.advance i hi data).hasher j hj = p.hasher j hj :=
  Vector.getElem_set_ne hi hj hij

end Advance

/-- Writing elsewhere. -/
theorem Faithful.update_other {disk : Disk} {p : RecvProgress} (h : Faithful disk p) (q : Path)
    (content : Option (List UInt8))
    (hq : ∀ i (hi : i < p.manifest.files.length), p.path i hi ≠ q) :
    Faithful (Function.update disk q content) p := by
  intro i hi
  rw [Function.update_of_ne (hq i hi)]
  exact h i hi

/-- A write at the recorded offset, of which any part arrived. -/
theorem Faithful.update_beyond {disk : Disk} {p : RecvProgress} (h : Faithful disk p) (i : Nat)
    (hi : i < p.manifest.files.length) (old landed : List UInt8)
    (hold : disk (p.path i hi) = some old)
    (hinj : ∀ j (hj : j < p.manifest.files.length), p.path j hj = p.path i hi → j = i) :
    Faithful (Function.update disk (p.path i hi)
      (some (splice 0 old (p.received i hi).toNat landed))) p := by
  intro j hj
  by_cases hji : j = i
  · subst hji
    obtain ⟨f, hf, hle, htake⟩ := h j hj
    obtain rfl := Option.some.inj (hold.symm.trans hf)
    refine ⟨_, Function.update_self _ _ _, ?_, ?_⟩
    · rw [splice_length 0 old _ landed hle]
      omega
    · rw [take_splice 0 old _ landed hle, htake]
  · rw [Function.update_of_ne (fun heq => hji (hinj j hj heq))]
    exact h j hj

/-- A chunk that was absorbed. -/
theorem Faithful.advance {disk : Disk} {p : RecvProgress} (h : Faithful disk p) (i : Nat)
    (hi : i < p.manifest.files.length) (old data : List UInt8)
    (hold : disk (p.path i hi) = some old)
    (hfit : (p.received i hi).toNat + data.length ≤ MAX_FILE)
    (hinj : ∀ j (hj : j < p.manifest.files.length), p.path j hj = p.path i hi → j = i) :
    Faithful (Function.update disk (p.path i hi)
      (some (splice 0 old (p.received i hi).toNat data))) (p.advance i hi data) := by
  intro j hj'
  have hj : j < p.manifest.files.length := hj'
  -- the file written to, and the others
  by_cases hji : j = i
  · subst hji
    obtain ⟨f, hf, hle, htake⟩ := h j hj
    obtain rfl := Option.some.inj (hold.symm.trans hf)
    refine ⟨_, Function.update_self _ _ _, ?_, ?_⟩
    · rw [advance_received_self p j hi data, toNat_add_length _ _ hfit, splice_length 0 old _ data hle]
      omega
    · rw [advance_received_self p j hi data, advance_hasher_self p j hi data,
        toNat_add_length _ _ hfit, take_splice_end 0 old _ data hle, htake]
      rfl
  · have hij : i ≠ j := fun heq => hji heq.symm
    obtain ⟨f, hf, hle, htake⟩ := h j hj
    refine ⟨f, ?_, ?_, ?_⟩
    · exact (Function.update_of_ne (fun heq => hji (hinj j hj heq)) _ _).trans hf
    · rw [advance_received_ne p i j hi hj data hij]
      exact hle
    · rw [advance_received_ne p i j hi hj data hij, advance_hasher_ne p i j hi hj data hij]
      exact htake

/-- A fresh entry. -/
theorem faithful_start (disk : Disk) (manifest : FileManifest)
    (paths : { paths : List Path // paths.length = manifest.files.length })
    (hdisk : ∀ q ∈ paths.1, disk q = some []) : Faithful disk (.start manifest paths) := by
  intro i hi
  refine ⟨[], hdisk _ ?_, ?_, ?_⟩
  · simp only [RecvProgress.path, RecvProgress.start]
    exact List.getElem_mem (by rw [paths.2]; exact hi)
  · simp [RecvProgress.received, RecvProgress.start]
  · simp [RecvProgress.received, RecvProgress.hasher, RecvProgress.start, Hasher.new]

/-! ## Transfers begun once, to different places

Without this a second `begin` would truncate files under an entry that counts them as
received. The hypothesis is about the calls, and what a peer is trusted with. -/

/-- The number a call begins a transfer under. -/
def RecvOp.begin_id : RecvOp → Option UInt64
  | .begin transfer_id _ _ => some transfer_id
  | .chunk _ _ => none

/-- The destinations it begins. -/
def RecvOp.begin_paths (drop_dir : Path) : RecvOp → List Path
  | .begin _ manifest _ => destinations drop_dir manifest.files
  | .chunk _ _ => []

/-- No two `begin`s share an id, and no two files a destination. -/
structure BegunOnce (drop_dir : Path) (ops : List RecvOp) : Prop where
  ids : (ops.filterMap RecvOp.begin_id).Nodup
  paths : (ops.flatMap (RecvOp.begin_paths drop_dir)).Nodup

/-- The table after `ops`: each entry belongs to a `begin` of `ops`, and is
faithful. -/
structure Recorded (drop_dir : Path) (ops : List RecvOp) (host : Host) : Prop where
  drop : host.receiver.drop_dir = drop_dir
  begun : ∀ t p, host.receiver.transfers t = some p →
    (∃ io, .begin t p.manifest io ∈ ops) ∧
      p.paths.toList = destinations drop_dir p.manifest.files
  faithful : ∀ t p, host.receiver.transfers t = some p → Faithful host.disk p

variable {drop_dir : Path} {ops : List RecvOp} {host : Host}

/-- The path of a recorded file is a destination of its manifest, so that disjoint
destinations give disjoint files. -/
theorem Recorded.mem_paths (h : Recorded drop_dir ops host) (t : UInt64) (p : RecvProgress)
    (hp : host.receiver.transfers t = some p) (i : Nat) (hi : i < p.manifest.files.length) :
    p.path i hi ∈ destinations drop_dir p.manifest.files := by
  rw [← (h.begun t p hp).2]
  simp [RecvProgress.path]

/-- A destination belongs to one `begin`. -/
theorem BegunOnce.begin_eq (h : BegunOnce drop_dir ops) (a b : RecvOp) (ha : a ∈ ops)
    (hb : b ∈ ops) (q : Path) (hqa : q ∈ a.begin_paths drop_dir)
    (hqb : q ∈ b.begin_paths drop_dir) : a = b := by
  by_contra hne
  have hdisj := (List.nodup_flatMap.mp h.paths).2
  have hsymm : Std.Symm (Function.onFun List.Disjoint (RecvOp.begin_paths drop_dir)) :=
    ⟨fun _ _ hxy _ hx hy => hxy hy hx⟩
  exact hdisj.forall ha hb hne hqa hqb

/-- Different files have different destinations. -/
theorem Recorded.paths_inj (h : Recorded drop_dir ops host) (hops : BegunOnce drop_dir ops)
    (t t' : UInt64) (p p' : RecvProgress) (hp : host.receiver.transfers t = some p)
    (hp' : host.receiver.transfers t' = some p') (i i' : Nat)
    (hi : i < p.manifest.files.length) (hi' : i' < p'.manifest.files.length)
    (heq : p.path i hi = p'.path i' hi') : t = t' ∧ i = i' := by
  obtain ⟨io, hmem⟩ := (h.begun t p hp).1
  obtain ⟨io', hmem'⟩ := (h.begun t' p' hp').1
  have hsame := hops.begin_eq _ _ hmem hmem' (p.path i hi) (h.mem_paths t p hp i hi)
    (heq ▸ h.mem_paths t' p' hp' i' hi')
  obtain ⟨rfl, -, -⟩ := RecvOp.begin.inj hsame
  obtain rfl := Option.some.inj (hp.symm.trans hp')
  refine ⟨rfl, ?_⟩
  have hnodup : p.paths.toList.Nodup := by
    rw [(h.begun t p hp).2]
    exact (List.nodup_flatMap.mp hops.paths).1 _ hmem
  rw [RecvProgress.path, RecvProgress.path, ← Vector.getElem_toList (by simpa using hi),
    ← Vector.getElem_toList (by simpa using hi')]
    at heq
  exact (hnodup.getElem_inj_iff).mp heq

/-! ## The record holds after any calls

Each call is an operation with its faults, so "whatever fails" is a quantifier over the
calls' arguments. -/

/-- A beginning of a history that begins transfers once does so too. -/
theorem BegunOnce.init {op : RecvOp} (h : BegunOnce drop_dir (ops ++ [op])) :
    BegunOnce drop_dir ops := by
  refine ⟨?_, ?_⟩
  · have hids := h.ids
    rw [List.filterMap_append] at hids
    exact hids.of_append_left
  · have hpaths := h.paths
    rw [List.flatMap_append] at hpaths
    exact hpaths.of_append_left

/-- A new `begin` has a new id. -/
theorem BegunOnce.fresh_id {t : UInt64} {m : FileManifest} {io : BeginIo}
    (h : BegunOnce drop_dir (ops ++ [.begin t m io])) (m' : FileManifest) (io' : BeginIo) :
    .begin t m' io' ∉ ops := by
  intro hmem
  have hids := h.ids
  rw [List.filterMap_append] at hids
  exact (List.nodup_append.mp hids).2.2 t (List.mem_filterMap.mpr ⟨_, hmem, rfl⟩) t (by
    simp [RecvOp.begin_id]) rfl

/-- A new `begin` has new destinations. -/
theorem BegunOnce.fresh_path {op old : RecvOp} (h : BegunOnce drop_dir (ops ++ [op]))
    (hold : old ∈ ops) (q : Path) (hq : q ∈ old.begin_paths drop_dir) :
    q ∉ op.begin_paths drop_dir := by
  intro hnew
  have hpaths := h.paths
  rw [List.flatMap_append] at hpaths
  exact (List.nodup_append.mp hpaths).2.2 q (List.mem_flatMap.mpr ⟨old, hold, hq⟩) q
    (by simpa using hnew) rfl

/-- A `begin` truncates its files. They are nobody else's, by `fresh_path`, so the other
entries keep what they record; and its own entry starts with nothing received. -/
theorem Recorded.begin (h : Recorded drop_dir ops host) (t : UInt64) (m : FileManifest)
    (io : BeginIo) (hops : BegunOnce drop_dir (ops ++ [.begin t m io])) :
    Recorded drop_dir (ops ++ [.begin t m io]) (host.begin t m io).1 := by
  obtain ⟨hframe, hdrop, hothers⟩ := begin_frame host t m io
  -- the entries there were keep their files
  have hold : ∀ u p, host.receiver.transfers u = some p →
      Faithful (host.begin t m io).1.disk p := by
    intro u p hp i hi
    obtain ⟨⟨io', hmem⟩, -⟩ := h.begun u p hp
    have hnew : p.path i hi ∉ destinations drop_dir m.files :=
      hops.fresh_path hmem (p.path i hi) (h.mem_paths u p hp i hi)
    rw [hframe _ (by rw [h.drop]; exact hnew)]
    exact h.faithful u p hp i hi
  have hother : ∀ u p, (host.begin t m io).1.receiver.transfers u = some p →
      u ≠ t → host.receiver.transfers u = some p := by
    intro u p hp hu
    rwa [hothers u hu] at hp
  have hgone : ∀ p, host.receiver.transfers t ≠ some p := by
    intro p hp
    obtain ⟨⟨io', hmem⟩, -⟩ := h.begun t p hp
    exact hops.fresh_id p.manifest io' hmem
  have hkept : ∀ u p, host.receiver.transfers u = some p →
      (∃ io', .begin u p.manifest io' ∈ ops ++ [.begin t m io]) ∧
        p.paths.toList = destinations drop_dir p.manifest.files := by
    intro u p hp
    obtain ⟨⟨io', hmem⟩, hpaths⟩ := h.begun u p hp
    exact ⟨⟨io', List.mem_append_left _ hmem⟩, hpaths⟩
  cases hres : (host.begin t m io).2 with
  | error e =>
      have hsame := begin_error host t m io e hres
      refine ⟨by rw [hdrop]; exact h.drop, ?_, ?_⟩
      · intro u p hp
        rw [hsame] at hp
        exact hkept u p hp
      · intro u p hp
        rw [hsame] at hp
        exact hold u p hp
  | ok _ =>
      obtain ⟨paths, hpaths, hrec, hdisk⟩ := begin_ok host t m io hres
      have hself : ∀ p, (host.begin t m io).1.receiver.transfers t = some p →
          p = .start m paths := by
        intro p hp
        rw [hrec, Receiver.insert] at hp
        simpa using hp.symm
      refine ⟨by rw [hdrop]; exact h.drop, ?_, ?_⟩
      · intro u p hp
        by_cases hu : u = t
        · subst hu
          obtain rfl := hself p hp
          refine ⟨⟨io, by simp [RecvProgress.start]⟩, ?_⟩
          rw [← h.drop]
          exact hpaths
        · exact hkept u p (hother u p hp hu)
      · intro u p hp
        by_cases hu : u = t
        · subst hu
          obtain rfl := hself p hp
          exact faithful_start _ m paths hdisk
        · exact hold u p (hother u p hp hu)

/-- A chunk adds no `begin`: the record of the calls before it still holds. -/
theorem Recorded.later (h : Recorded drop_dir ops host) (chunk : FileChunk) (io : WriteIo) :
    Recorded drop_dir (ops ++ [.chunk chunk io]) host := by
  refine ⟨h.drop, ?_, h.faithful⟩
  intro t p hp
  obtain ⟨⟨io', hmem⟩, hpaths⟩ := h.begun t p hp
  exact ⟨⟨io', List.mem_append_left _ hmem⟩, hpaths⟩

/-- Whatever lands in a file of transfer `t`, the other entries keep theirs. -/
theorem Recorded.faithful_other (h : Recorded drop_dir ops host) (hops : BegunOnce drop_dir ops)
    {t u : UInt64} {p p' : RecvProgress} {i : Nat} (hp : host.receiver.transfers t = some p)
    (hi : i < p.manifest.files.length) (hu : u ≠ t) (hp' : host.receiver.transfers u = some p')
    (content : Option (List UInt8)) :
    Faithful (Function.update host.disk (p.path i hi) content) p' := by
  refine (h.faithful u p' hp').update_other _ content ?_
  intro j hj heq
  exact hu (h.paths_inj hops _ _ p' p hp' hp j _ hj hi heq).1

variable (blake3 : List UInt8 → Hash)

/-- A chunk writes at the recorded offset or not at all. If it is absorbed its entry
moves on with the file, and if the write failed halfway, what it left lies behind the
recorded part. -/
theorem Recorded.chunk (h : Recorded drop_dir ops host) (chunk : FileChunk) (io : WriteIo)
    (hops : BegunOnce drop_dir ops) :
    Recorded drop_dir (ops ++ [.chunk chunk io]) (host.write_chunk blake3 chunk io).1 := by
  have hstay := h.later chunk io
  cases hp : host.receiver.transfers chunk.transfer_id with
  | none =>
      rw [write_chunk_unknown blake3 host chunk io hp]
      exact hstay
  | some p =>
      by_cases hi : chunk.file_index.toNat < p.manifest.files.length
      · -- the three ways a chunk can go: refused, failed while writing, absorbed
        have hinj : ∀ j (hj : j < p.manifest.files.length),
            p.path j hj = p.path chunk.file_index.toNat hi → j = chunk.file_index.toNat :=
          fun j hj heq => (h.paths_inj hops _ _ p p hp hp j _ hj hi heq).2
        rcases write_chunk_cases blake3 host chunk io p hp hi with
          ⟨-, heq⟩ | ⟨hoff, disk, heq, hdisk⟩ | ⟨hoff, old, hold, hfit, heq⟩
        · rw [heq]
          exact hstay
        · rw [heq]
          refine ⟨hstay.drop, hstay.begun, ?_⟩
          intro u p' hp'
          rcases hdisk with rfl | ⟨old, landed, hold, -, rfl⟩
          · exact h.faithful u p' hp'
          · by_cases hu : u = chunk.transfer_id
            · subst hu
              obtain rfl := Option.some.inj (hp.symm.trans hp')
              rw [hoff]
              -- what landed lies beyond what was received
              exact (h.faithful _ p hp).update_beyond _ hi old landed hold hinj
            · exact h.faithful_other hops hp hi hu hp' _
        · rw [heq]
          rw [hoff] at hfit ⊢
          refine ⟨h.drop, ?_, ?_⟩
          · intro u p' hp'
            by_cases hu : u = chunk.transfer_id
            · subst hu
              simp only [Receiver.insert, Function.update_self, Option.some.injEq] at hp'
              subst hp'
              exact hstay.begun _ p hp
            · simp only [Receiver.insert, Function.update_of_ne hu] at hp'
              exact hstay.begun u p' hp'
          · intro u p' hp'
            by_cases hu : u = chunk.transfer_id
            · subst hu
              simp only [Receiver.insert, Function.update_self, Option.some.injEq] at hp'
              subst hp'
              exact (h.faithful _ p hp).advance _ hi old chunk.data hold hfit hinj
            · simp only [Receiver.insert, Function.update_of_ne hu] at hp'
              exact h.faithful_other hops hp hi hu hp' _
      · rw [write_chunk_out_of_range blake3 host chunk io p hp hi]
        exact hstay

/-- **The table is a record of the disk** after any calls. -/
theorem recorded_run (disk : Disk) (ops : List RecvOp) (hops : BegunOnce drop_dir ops) :
    Recorded drop_dir ops (runOut (Host.step blake3) (.new drop_dir disk) ops).1 := by
  induction ops using List.reverseRecOn with
  | nil => exact ⟨rfl, nofun, nofun⟩
  | append_singleton ops op ih =>
      rw [runOut_concat]
      cases op with
      | begin t m io => exact (ih hops.init).begin t m io hops
      | chunk chunk io => exact (ih hops.init).chunk blake3 chunk io hops.init

/-! ## One call on one file

Frame facts: a call changes what is known of one file of one transfer. -/

/-- **Out of order.** -/
theorem write_chunk_out_of_order_iff (host : Host) (chunk : FileChunk) (io : WriteIo)
    (offsets : List UInt64) (r : UInt64)
    (hoffsets : host.resume_offsets chunk.transfer_id = some offsets)
    (hr : offsets[chunk.file_index.toNat]? = some r) :
    (∃ expected got, (host.write_chunk blake3 chunk io).2
        = .error (.chunk_out_of_order expected got)) ↔ chunk.offset ≠ r := by
  obtain ⟨p, hp, rfl⟩ := Option.map_eq_some_iff.mp hoffsets
  obtain ⟨hlen, hget⟩ := List.getElem?_eq_some_iff.mp hr
  have hi : chunk.file_index.toNat < p.manifest.files.length := by simpa using hlen
  have hreceived : p.received chunk.file_index.toNat hi = r := by
    rw [← hget]
    simp [RecvProgress.received]
  -- only the first outcome is the error; the others have passed the check
  rcases write_chunk_cases blake3 host chunk io p hp hi with
    ⟨hoff, heq⟩ | ⟨hoff, disk, heq, -⟩ | ⟨hoff, old, -, -, heq⟩
  · rw [hreceived] at hoff
    exact iff_of_true ⟨_, _, by rw [heq]⟩ hoff
  · rw [hreceived] at hoff
    refine iff_of_false ?_ (not_not.mpr hoff)
    rintro ⟨expected, got, h⟩
    rw [heq] at h
    cases h
  · rw [hreceived] at hoff
    refine iff_of_false ?_ (not_not.mpr hoff)
    rintro ⟨expected, got, h⟩
    rw [heq] at h
    dsimp only [RecvProgress.verdict] at h
    split at h <;> cases h

/-- `host'` differs from `host` in file `i` of transfer `t` at most. -/
structure SameElsewhere (t : UInt64) (i : Nat) (host host' : Host) : Prop where
  transfers : ∀ u, u ≠ t → host'.receiver.transfers u = host.receiver.transfers u
  files : ∀ p, host.receiver.transfers t = some p → ∃ p', host'.receiver.transfers t = some p' ∧
    p'.manifest = p.manifest ∧ p'.paths.toList = p.paths.toList ∧
    ∀ j, j ≠ i → p'.bytes_received.toList[j]? = p.bytes_received.toList[j]? ∧
      p'.hashers.toList[j]? = p.hashers.toList[j]?
  disk : ∀ u p j (hj : j < p.manifest.files.length), host.receiver.transfers u = some p →
    ¬ (u = t ∧ j = i) → host'.disk (p.path j hj) = host.disk (p.path j hj)

/-- A call that did nothing changed nothing elsewhere. -/
theorem sameElsewhere_refl (t : UInt64) (i : Nat) (host : Host) : SameElsewhere t i host host :=
  ⟨fun _ _ => rfl, fun p hp => ⟨p, hp, rfl, rfl, fun _ _ => ⟨rfl, rfl⟩⟩, fun _ _ _ _ _ _ => rfl⟩

/-- **A call touches its own file only.** -/
theorem Recorded.write_chunk_elsewhere (h : Recorded drop_dir ops host)
    (hops : BegunOnce drop_dir ops) (chunk : FileChunk) (io : WriteIo) :
    SameElsewhere chunk.transfer_id chunk.file_index.toNat host
      (host.write_chunk blake3 chunk io).1 := by
  cases hp : host.receiver.transfers chunk.transfer_id with
  | none =>
      rw [write_chunk_unknown blake3 host chunk io hp]
      exact sameElsewhere_refl _ _ host
  | some p =>
      by_cases hi : chunk.file_index.toNat < p.manifest.files.length
      -- two files of the table have two paths, so a write to one is not seen at the
      -- other
      · have hdisk : ∀ content u p' j (hj : j < p'.manifest.files.length),
            host.receiver.transfers u = some p' →
            ¬ (u = chunk.transfer_id ∧ j = chunk.file_index.toNat) →
            Function.update host.disk (p.path chunk.file_index.toNat hi) content (p'.path j hj)
              = host.disk (p'.path j hj) := by
          intro content u p' j hj hp' hne
          exact Function.update_of_ne (fun heq => hne (h.paths_inj hops _ _ p' p hp' hp j _ hj hi heq))
            _ _
        rcases write_chunk_cases blake3 host chunk io p hp hi with
          ⟨-, heq⟩ | ⟨-, disk, heq, hcases⟩ | ⟨-, old, -, -, heq⟩
        · rw [heq]
          exact sameElsewhere_refl _ _ host
        · rw [heq]
          refine ⟨fun _ _ => rfl, fun p hp => ⟨p, hp, rfl, rfl, fun _ _ => ⟨rfl, rfl⟩⟩, ?_⟩
          intro u p' j hj hp' hne
          rcases hcases with rfl | ⟨old, landed, -, -, rfl⟩
          · rfl
          · exact hdisk _ u p' j hj hp' hne
        · rw [heq]
          refine ⟨fun u hu => Function.update_of_ne hu _ _, ?_, hdisk _⟩
          intro p' hp'
          obtain rfl := Option.some.inj (hp.symm.trans hp')
          refine ⟨_, Function.update_self _ _ _, rfl, rfl, fun j hj => ⟨?_, ?_⟩⟩
          · simp only [RecvProgress.advance, Vector.toList_set]
            exact List.getElem?_set_ne hj.symm
          · simp only [RecvProgress.advance, Vector.toList_set]
            exact List.getElem?_set_ne hj.symm
      · rw [write_chunk_out_of_range blake3 host chunk io p hp hi]
        exact sameElsewhere_refl _ _ host

/-- Without faults, a chunk at the recorded offset is absorbed. -/
theorem write_chunk_absorb (host : Host) (chunk : FileChunk) (p : RecvProgress)
    (hp : host.receiver.transfers chunk.transfer_id = some p)
    (hi : chunk.file_index.toNat < p.manifest.files.length) (f : List UInt8)
    (hf : host.disk (p.path chunk.file_index.toNat hi) = some f)
    (hoff : chunk.offset = p.received chunk.file_index.toNat hi)
    (hfit : chunk.offset.toNat + chunk.data.length ≤ MAX_FILE) :
    host.write_chunk blake3 chunk .ok
      = ({ receiver := host.receiver.insert chunk.transfer_id
            (p.advance chunk.file_index.toNat hi chunk.data)
           disk := Function.update host.disk (p.path chunk.file_index.toNat hi)
            (some (splice 0 f chunk.offset.toNat chunk.data)) },
          (p.advance chunk.file_index.toNat hi chunk.data).verdict blake3 chunk.file_index.toNat hi
            chunk.is_last) := by
  rw [write_chunk_known blake3 host chunk .ok p hp hi, if_neg (not_not.mpr hoff),
    write_file_no_fault _ _ _ _ f hf hfit]

/-! ## Files that only saw one content

A failed write may leave more in the file than is recorded. If all that was ever tried
belongs to one content, that surplus is right as well, and a later write over it changes
nothing. -/

/-- The data of the chunk is a slice of `c`, at the chunk's own offset. -/
def SliceOf (c : List UInt8) (chunk : FileChunk) : Prop :=
  chunk.data = (c.drop chunk.offset.toNat).take chunk.data.length

/-- Every chunk tried on file `i` of transfer `t` was a slice of `c`. -/
def OnlySlices (c : List UInt8) (t : UInt64) (i : Nat) (ops : List RecvOp) : Prop :=
  ∀ chunk io, .chunk chunk io ∈ ops → chunk.transfer_id = t → chunk.file_index.toNat = i →
    SliceOf c chunk

/-- File `i` of transfer `t` is a prefix of `c`. -/
def PrefixOf (c : List UInt8) (t : UInt64) (i : Nat) (host : Host) : Prop :=
  ∀ p (hi : i < p.manifest.files.length), host.receiver.transfers t = some p →
    ∃ f, host.disk (p.path i hi) = some f ∧ f <+: c

/-- A part of a slice is a slice. -/
theorem SliceOf.landed {c : List UInt8} {chunk : FileChunk} (h : SliceOf c chunk)
    (landed : List UInt8) (hl : landed <+: chunk.data) :
    landed = (c.drop chunk.offset.toNat).take landed.length := by
  refine List.prefix_iff_eq_take.mp (hl.trans ?_)
  rw [h]
  exact List.take_prefix _ _

/-- After a call on one file, the entries have the paths they had. -/
theorem SameElsewhere.same_path {t u : UInt64} {i j : Nat} {host host' : Host}
    (h : SameElsewhere t i host host') {p p' : RecvProgress}
    (hp : host.receiver.transfers t = some p) (hp' : host'.receiver.transfers u = some p')
    (hj : j < p'.manifest.files.length) :
    ∃ q, ∃ hq : j < q.manifest.files.length,
      host.receiver.transfers u = some q ∧ p'.path j hj = q.path j hq := by
  by_cases hu : u = t
  · subst hu
    obtain ⟨p'', hp'', hm, hpaths, -⟩ := h.files p hp
    obtain rfl := Option.some.inj (hp'.symm.trans hp'')
    have hq : j < p.manifest.files.length := hm ▸ hj
    refine ⟨p, hq, hp, ?_⟩
    simp only [RecvProgress.path]
    rw [← Vector.getElem_toList (by simpa using hj), ← Vector.getElem_toList (by simpa using hq)]
    simp only [hpaths]
  · refine ⟨p', hj, ?_, rfl⟩
    rw [← h.transfers u hu]
    exact hp'

/-- **Another file**: its path and content stay. -/
theorem PrefixOf.elsewhere {c : List UInt8} {t u : UInt64} {i j : Nat} {host host' : Host}
    (hpre : PrefixOf c u j host) (h : SameElsewhere t i host host') {p : RecvProgress}
    (hp : host.receiver.transfers t = some p) (hother : ¬ (u = t ∧ j = i)) :
    PrefixOf c u j host' := by
  intro p' hj hp'
  obtain ⟨q, hq, hpq, hpath⟩ := h.same_path hp hp' hj
  obtain ⟨f, hf, hfc⟩ := hpre q hq hpq
  refine ⟨f, ?_, hfc⟩
  rw [hpath, h.disk u q j hq hpq hother]
  exact hf

/-- **The file's own chunk.** The part recorded is on disk, so that a slice
joins on to it. -/
theorem Recorded.prefixOf_own (h : Recorded drop_dir ops host) {c : List UInt8} {chunk : FileChunk}
    (hpre : PrefixOf c chunk.transfer_id chunk.file_index.toNat host) (hslice : SliceOf c chunk)
    (io : WriteIo) {p : RecvProgress} (hp : host.receiver.transfers chunk.transfer_id = some p)
    (hi : chunk.file_index.toNat < p.manifest.files.length) :
    PrefixOf c chunk.transfer_id chunk.file_index.toNat (host.write_chunk blake3 chunk io).1 := by
  obtain ⟨f, hf, hfc⟩ := hpre p hi hp
  obtain ⟨f', hf', hle, -⟩ := h.faithful _ p hp _ hi
  obtain rfl := Option.some.inj (hf.symm.trans hf')
  -- what was a prefix of the content, extended by the slice that belongs there, is one
  -- again
  have hjoin : ∀ landed, landed = (c.drop chunk.offset.toNat).take landed.length →
      chunk.offset = p.received chunk.file_index.toNat hi →
      splice 0 f chunk.offset.toNat landed <+: c := by
    intro landed hland hoff
    rw [← hoff] at hle
    exact splice_isPrefix 0 f c landed _ hfc hle hland
  rcases write_chunk_cases blake3 host chunk io p hp hi with
    ⟨-, heq⟩ | ⟨hoff, disk, heq, hdisk⟩ | ⟨hoff, old, hold, -, heq⟩
  · rw [heq]
    exact hpre
  -- the write was cut off; whatever landed is itself a beginning of the slice
  · rw [heq]
    intro p' hi' hp'
    obtain rfl := Option.some.inj (hp.symm.trans hp')
    rcases hdisk with rfl | ⟨old, landed, hold, hland, rfl⟩
    · exact ⟨f, hf, hfc⟩
    · obtain rfl := Option.some.inj (hf.symm.trans hold)
      exact ⟨_, Function.update_self _ _ _, hjoin landed (hslice.landed landed hland) hoff⟩
  -- the whole slice landed and was counted
  · rw [heq]
    intro p' hi' hp'
    simp only [Receiver.insert, Function.update_self, Option.some.injEq] at hp'
    subst hp'
    obtain rfl := Option.some.inj (hf.symm.trans hold)
    exact ⟨_, Function.update_self _ _ _, hjoin chunk.data hslice hoff⟩

/-- The two lemmas before it, put together: a chunk is for this file or for another one.
-/
theorem Recorded.prefixOf_chunk (h : Recorded drop_dir ops host) (hops : BegunOnce drop_dir ops)
    (c : List UInt8) (t : UInt64) (i : Nat) (hpre : PrefixOf c t i host) (chunk : FileChunk)
    (io : WriteIo)
    (hslice : chunk.transfer_id = t → chunk.file_index.toNat = i → SliceOf c chunk) :
    PrefixOf c t i (host.write_chunk blake3 chunk io).1 := by
  cases hp : host.receiver.transfers chunk.transfer_id with
  | none =>
      rw [write_chunk_unknown blake3 host chunk io hp]
      exact hpre
  | some p =>
      by_cases hi : chunk.file_index.toNat < p.manifest.files.length
      · by_cases hown : chunk.transfer_id = t ∧ chunk.file_index.toNat = i
        · obtain ⟨rfl, rfl⟩ := hown
          exact h.prefixOf_own blake3 hpre (hslice rfl rfl) io hp hi
        · refine hpre.elsewhere (h.write_chunk_elsewhere blake3 hops chunk io) hp ?_
          rintro ⟨rfl, rfl⟩
          exact hown ⟨rfl, rfl⟩
      · rw [write_chunk_out_of_range blake3 host chunk io p hp hi]
        exact hpre

/-- **One content.** A file on which only slices of `c` were tried is a prefix
of `c`. -/
theorem prefixOf_run (disk : Disk) (c : List UInt8) (t : UInt64) (i : Nat) (ops : List RecvOp)
    (hops : BegunOnce drop_dir ops) (hslices : OnlySlices c t i ops) :
    PrefixOf c t i (runOut (Host.step blake3) (.new drop_dir disk) ops).1 := by
  induction ops using List.reverseRecOn with
  | nil => exact fun p hi hp => nomatch hp
  | append_singleton ops op ih =>
      have hpre := ih hops.init (fun chunk io hmem => hslices chunk io (List.mem_append_left _ hmem))
      have hrec := recorded_run blake3 disk ops hops.init
      rw [runOut_concat]
      cases op with
      | chunk chunk io =>
          exact hrec.prefixOf_chunk blake3 hops.init c t i hpre chunk io
            (hslices chunk io (by simp))
      | begin u m io =>
          set host := (runOut (Host.step blake3) (.new drop_dir disk) ops).1
          intro p hi hp
          have hnext := hrec.begin u m io hops
          by_cases hu : t = u
          · subst hu
            -- the entry is the new one: no earlier `begin` had this id
            cases hres : (host.begin t m io).2 with
            | error e =>
                have hsame : host.receiver.transfers t = some p := by
                  rw [← begin_error host t m io e hres]
                  exact hp
                obtain ⟨⟨io', hmem⟩, -⟩ := hrec.begun t p hsame
                exact absurd hmem (hops.fresh_id p.manifest io')
            | ok _ =>
                obtain ⟨paths, -, hins, hdisk⟩ := begin_ok host t m io hres
                have hpeq : p = .start m paths := by
                  have hp' : (host.begin t m io).1.receiver.transfers t = some p := hp
                  rw [hins, Receiver.insert] at hp'
                  simpa using hp'.symm
                subst hpeq
                refine ⟨[], hdisk _ ?_, List.nil_prefix⟩
                simp only [RecvProgress.path, RecvProgress.start]
                exact List.getElem_mem (by rw [paths.2]; exact hi)
          · obtain ⟨hframe, -, hothers⟩ := begin_frame host u m io
            have hp' : host.receiver.transfers t = some p := by
              rw [← hothers t hu]
              exact hp
            obtain ⟨f, hf, hfc⟩ := hpre p hi hp'
            obtain ⟨⟨io', hmem⟩, -⟩ := hrec.begun t p hp'
            have hnew : p.path i hi ∉ destinations drop_dir m.files :=
              hops.fresh_path hmem (p.path i hi) (hrec.mem_paths t p hp' i hi)
            refine ⟨f, ?_, hfc⟩
            exact (hframe _ (by rw [hrec.drop]; exact hnew)).trans hf

/-! ## Resuming

From a file in that state the sender goes on at the resume offset, in any pieces. The
hasher continues where it stopped, so the check at the end is about the whole content. -/

/-- An absorbed chunk is accepted unless it is the last one and the hash of the
file is not the manifest's. -/
theorem verdict_accepted (p : RecvProgress) (i : Nat) (hi : i < p.manifest.files.length)
    (is_last : Bool) :
    (Outcome.wrote (p.verdict blake3 i hi is_last)).accepted ↔
      (is_last → blake3 (p.hasher i hi).absorbed = (p.entry i hi).blake3) := by
  rw [RecvProgress.verdict]
  by_cases hbad : is_last ∧ (p.hasher i hi).finalize blake3 ≠ (p.entry i hi).blake3
  · rw [if_pos hbad]
    exact iff_of_false Bool.false_ne_true (fun h => hbad.2 (h hbad.1))
  · rw [if_neg hbad]
    refine iff_of_true rfl ?_
    intro hlast
    by_contra hne
    exact hbad ⟨hlast, hne⟩

/-- The rest of a content from `offset`, in pieces; only the final chunk is
marked last. -/
def resume_chunks (transfer_id : UInt64) (file_index : UInt32) (offset : Nat) :
    List (List UInt8) → List FileChunk
  | [] => []
  | [piece] => [⟨transfer_id, file_index, UInt64.ofNat offset, piece, true⟩]
  | piece :: next :: pieces =>
    ⟨transfer_id, file_index, UInt64.ofNat offset, piece, false⟩ ::
      resume_chunks transfer_id file_index (offset + piece.length) (next :: pieces)

/-- The calls for chunks, with no further failure. -/
def faultless (chunks : List FileChunk) : List RecvOp := chunks.map (fun c => .chunk c .ok)

/-- Halfway through a content: the file is a beginning of `c` that covers what
the entry counts as received, and the hasher has seen just that. -/
structure Halfway (c : List UInt8) (t : UInt64) (i : Nat) (host : Host) (p : RecvProgress)
    (hi : i < p.manifest.files.length) (f : List UInt8) : Prop where
  entry : host.receiver.transfers t = some p
  file : host.disk (p.path i hi) = some f
  begins : f <+: c
  covered : (p.received i hi).toNat ≤ f.length
  hashed : f.take (p.received i hi).toNat = (p.hasher i hi).absorbed

/-- The host after a piece has been absorbed. -/
def Host.absorb (host : Host) (t : UInt64) (i : Nat) (p : RecvProgress)
    (hi : i < p.manifest.files.length) (f piece : List UInt8) : Host :=
  { receiver := host.receiver.insert t (p.advance i hi piece)
    disk := Function.update host.disk (p.path i hi)
      (some (splice 0 f (p.received i hi).toNat piece)) }

namespace Halfway

variable {c f piece : List UInt8} {t : UInt64} {idx : UInt32} {host : Host} {p : RecvProgress}
  {hi : idx.toNat < p.manifest.files.length} (h : Halfway c t idx.toNat host p hi f)
include h

/-- A piece at the resume offset is absorbed. -/
theorem write_chunk (hfit : (p.received idx.toNat hi).toNat + piece.length ≤ MAX_FILE)
    (is_last : Bool) :
    host.write_chunk blake3
        ⟨t, idx, UInt64.ofNat (p.received idx.toNat hi).toNat, piece, is_last⟩ .ok
      = (host.absorb t idx.toNat p hi f piece,
          (p.advance idx.toNat hi piece).verdict blake3 idx.toNat hi is_last) := by
  rw [UInt64.ofNat_toNat]
  exact write_chunk_absorb blake3 host ⟨t, idx, p.received idx.toNat hi, piece, is_last⟩ p h.entry hi
    f h.file rfl hfit

/-- What the hasher has seen then. -/
theorem hasher_absorb : ((p.advance idx.toNat hi piece).hasher idx.toNat hi).absorbed
    = f.take (p.received idx.toNat hi).toNat ++ piece := by
  rw [advance_hasher_self, h.hashed]
  rfl

/-- A piece of `c` leads on. -/
theorem next (hc : c.length ≤ MAX_FILE)
    (hfit : (p.received idx.toNat hi).toNat + piece.length ≤ c.length)
    (hpiece : piece = (c.drop (p.received idx.toNat hi).toNat).take piece.length) :
    Halfway c t idx.toNat (host.absorb t idx.toNat p hi f piece) (p.advance idx.toNat hi piece) hi
        (splice 0 f (p.received idx.toNat hi).toNat piece) ∧
      ((p.advance idx.toNat hi piece).received idx.toNat hi).toNat
        = (p.received idx.toNat hi).toNat + piece.length := by
  have hreceived : ((p.advance idx.toNat hi piece).received idx.toNat hi).toNat
      = (p.received idx.toNat hi).toNat + piece.length := by
    rw [advance_received_self, toNat_add_length _ _ (by omega)]
  refine ⟨⟨Function.update_self _ _ _, Function.update_self _ _ _,
    splice_isPrefix 0 f c piece _ h.begins h.covered hpiece, ?_, ?_⟩, hreceived⟩
  · rw [hreceived, splice_length 0 f _ piece h.covered]
    omega
  · rw [hreceived, take_splice_end 0 f _ piece h.covered, h.hasher_absorb]

/-- The last piece completes it. -/
theorem complete (hlast : piece = c.drop (p.received idx.toNat hi).toNat) :
    f.take (p.received idx.toNat hi).toNat ++ piece = c ∧
      splice 0 f (p.received idx.toNat hi).toNat piece = c := by
  have hwhole : f.take (p.received idx.toNat hi).toNat ++ piece = c := by
    obtain ⟨g, rfl⟩ := h.begins
    rw [hlast, ← List.take_append_of_le_length h.covered, List.take_append_drop]
  have hlen := congrArg List.length hwhole
  have hshort := h.begins.length_le
  have hcovered := h.covered
  rw [List.length_append, List.length_take] at hlen
  refine ⟨hwhole, ?_⟩
  rw [splice_eq 0 f _ piece h.covered, hwhole, List.drop_eq_nil_of_le (by omega), List.append_nil]

end Halfway

/-- **Resuming.** From halfway, the rest of the content in any pieces completes
the file. -/
theorem resume_run (c : List UInt8) (hc : c.length ≤ MAX_FILE) (t : UInt64) (idx : UInt32)
    (pieces : List (List UInt8)) (hne : pieces ≠ []) (host : Host) (p : RecvProgress)
    (hi : idx.toNat < p.manifest.files.length) (f : List UInt8)
    (h : Halfway c t idx.toNat host p hi f)
    (hrest : pieces.flatten = c.drop (p.received idx.toNat hi).toNat) :
    ∃ host' earlier last,
      runOut (Host.step blake3) host
          (faultless (resume_chunks t idx (p.received idx.toNat hi).toNat pieces))
        = (host', earlier ++ [last]) ∧
      host'.disk (p.path idx.toNat hi) = some c ∧ (∀ o ∈ earlier, o.accepted) ∧
      (last.accepted ↔ blake3 c = (p.entry idx.toNat hi).blake3) := by
  induction pieces generalizing host p f with
  | nil => exact absurd rfl hne
  | cons piece pieces ih =>
      have hshort := h.begins.length_le
      have hcovered := h.covered
      have hfit : (p.received idx.toNat hi).toNat + piece.length ≤ c.length := by
        have hlen := congrArg List.length hrest
        rw [List.flatten_cons, List.length_append, List.length_drop] at hlen
        omega
      have habsorb := fun is_last => h.write_chunk blake3 (hfit.trans hc) is_last
      cases pieces with
      | nil =>
          -- the last piece completes the file, so its check is of the whole
          obtain ⟨hwhole, hdisk⟩ := h.complete (by simpa using hrest)
          refine ⟨host.absorb t idx.toNat p hi f piece, [],
            .wrote ((p.advance idx.toNat hi piece).verdict blake3 idx.toNat hi true), ?_, ?_,
            by simp, ?_⟩
          · simp only [faultless, resume_chunks, List.map_cons, List.map_nil, runOut_cons,
              runOut_nil, Host.step, habsorb]
            rfl
          · rw [← hdisk]
            exact Function.update_self _ _ _
          · have hverdict := verdict_accepted blake3 (p.advance idx.toNat hi piece) idx.toNat hi true
            rw [h.hasher_absorb, hwhole] at hverdict
            exact hverdict.trans ⟨fun h => h rfl, fun h _ => h⟩
      | cons next pieces =>
          have hpiece : piece = (c.drop (p.received idx.toNat hi).toNat).take piece.length := by
            rw [← hrest, List.flatten_cons, List.take_left' rfl]
          -- any other piece leaves the file halfway, further on
          obtain ⟨hnext, hreceived⟩ := h.next hc hfit hpiece
          have hrest' : (next :: pieces).flatten
              = c.drop ((p.received idx.toNat hi).toNat + piece.length) := by
            have hflat : (piece :: next :: pieces).flatten = piece ++ (next :: pieces).flatten :=
              List.flatten_cons
            rw [← List.drop_drop, ← hrest, hflat, List.drop_left]
          have hih := ih (by simp) _ (p.advance idx.toNat hi piece) hi _ hnext
            (by rw [hreceived]; exact hrest')
          rw [hreceived] at hih
          obtain ⟨host', earlier, last, hrun, hdisk, hearlier, hlast⟩ := hih
          refine ⟨host', .wrote ((p.advance idx.toNat hi piece).verdict blake3 idx.toNat hi false) ::
            earlier, last, ?_, hdisk, ?_, hlast⟩
          · simp only [faultless] at hrun
            simp only [faultless, resume_chunks, List.map_cons, runOut_cons, Host.step, habsorb, hrun]
            rfl
          · intro o ho
            rcases List.mem_cons.mp ho with rfl | ho
            · exact (verdict_accepted blake3 _ _ _ _).mpr (fun h => absurd h Bool.false_ne_true)
            · exact hearlier o ho

/-- The resume offset of a file is what its entry says. -/
theorem received_of_resume_offsets (host : Host) (t : UInt64) (i : Nat) (offsets : List UInt64)
    (r : UInt64) (p : RecvProgress) (hi : i < p.manifest.files.length)
    (hp : host.receiver.transfers t = some p) (hoffsets : host.resume_offsets t = some offsets)
    (hr : offsets[i]? = some r) : p.received i hi = r := by
  rw [Host.resume_offsets, hp, Option.map_some, Option.some.injEq] at hoffsets
  rw [← hoffsets, List.getElem?_eq_getElem (by simpa using hi), Option.some.injEq] at hr
  rw [← hr, Vector.getElem_toList]
  rfl

/-- **The receiver's record, and resuming from it.** Transfers are begun once,
with different ids and destinations; chunks are arbitrary, and any file
operation may fail. At every point the recorded part of each file is what was
hashed, a chunk is out of order exactly when its offset is not the resume
offset, and a chunk touches no other file. And where only slices of `c` were
tried on a file, sending the rest of `c` from the resume offset in any pieces,
within what a file can hold and without further failures, leaves the file
equal to `c`; every chunk but the final one is accepted, and that one exactly
when the hash of `c` is the manifest's. -/
theorem receiver_record_and_resume (drop_dir : Path) (disk : Disk) (ops : List RecvOp)
    (hops : BegunOnce drop_dir ops) :
    let host := (runOut (Host.step blake3) (.new drop_dir disk) ops).1
    (∀ t p, host.receiver.transfers t = some p → Faithful host.disk p) ∧
    (∀ (chunk : FileChunk) (io : WriteIo) (offsets : List UInt64) (r : UInt64),
      host.resume_offsets chunk.transfer_id = some offsets →
      offsets[chunk.file_index.toNat]? = some r →
      ((∃ expected got, (host.write_chunk blake3 chunk io).2
        = .error (.chunk_out_of_order expected got)) ↔ chunk.offset ≠ r)) ∧
    (∀ (chunk : FileChunk) (io : WriteIo),
      SameElsewhere chunk.transfer_id chunk.file_index.toNat host
        (host.write_chunk blake3 chunk io).1) ∧
    (∀ (t : UInt64) (idx : UInt32) (p : RecvProgress) (hi : idx.toNat < p.manifest.files.length)
        (offsets : List UInt64) (r : UInt64) (c : List UInt8) (pieces : List (List UInt8)),
      host.receiver.transfers t = some p → host.resume_offsets t = some offsets →
      offsets[idx.toNat]? = some r → OnlySlices c t idx.toNat ops → c.length ≤ MAX_FILE →
      pieces ≠ [] → pieces.flatten = c.drop r.toNat →
      ∃ host' earlier last,
        runOut (Host.step blake3) host (faultless (resume_chunks t idx r.toNat pieces))
          = (host', earlier ++ [last]) ∧
        host'.disk (p.path idx.toNat hi) = some c ∧ (∀ o ∈ earlier, o.accepted) ∧
        (last.accepted ↔ blake3 c = (p.entry idx.toNat hi).blake3)) := by
  intro host
  have hrec : Recorded drop_dir ops host := recorded_run blake3 disk ops hops
  refine ⟨hrec.faithful, ?_, ?_, ?_⟩
  · intro chunk io offsets r hoffsets hr
    exact write_chunk_out_of_order_iff blake3 host chunk io offsets r hoffsets hr
  · intro chunk io
    exact hrec.write_chunk_elsewhere blake3 hops chunk io
  -- by the record the file holds what the offset says, and with nothing but slices
  -- before it is a beginning of the content
  · intro t idx p hi offsets r c pieces hp hoffsets hr hslices hc hne hrest
    obtain rfl := received_of_resume_offsets host t idx.toNat offsets r p hi hp hoffsets hr
    obtain ⟨f, hf, hle, htake⟩ := hrec.faithful t p hp idx.toNat hi
    obtain ⟨f', hf', hfc⟩ := prefixOf_run blake3 disk c t idx.toNat ops hops hslices p hi hp
    obtain rfl := Option.some.inj (hf.symm.trans hf')
    exact resume_run blake3 c hc t idx pieces hne host p hi f ⟨hp, hf, hfc, hle, htake⟩ hrest

/-- A transfer of one file whose first chunk broke off after a byte. -/
def broken_off : List RecvOp :=
  [.begin 1 ⟨[⟨"a.bin", 3, Vector.replicate 32 9⟩], 3⟩ .ok,
    .chunk ⟨1, 0, 0, [1, 2], false⟩ { WriteIo.ok with write_failed_after := some 1 }]

/-- The host after it, on an empty disk, with a constant hash. -/
def broken_off_host : Host :=
  (runOut (Host.step (fun _ => Vector.replicate 32 9)) (.new ["drop"] (fun _ => none)) broken_off).1

/-- The entry of the transfer. -/
def broken_off_entry : RecvProgress := (broken_off_host.receiver.transfers 1).get (by decide)

/-- The theorem after the failure, resuming from the start in two pieces. -/
theorem receiver_record_and_resume_broken_off :
    ∃ host' earlier last,
      runOut (Host.step (fun _ => Vector.replicate 32 9)) broken_off_host
          (faultless (resume_chunks 1 0 0 [[1], [2, 3]])) = (host', earlier ++ [last]) ∧
        host'.disk ["drop", "a.bin"] = some [1, 2, 3] ∧ last.accepted := by
  have hops : BegunOnce ["drop"] broken_off := ⟨by decide, by decide⟩
  have hslices : OnlySlices [1, 2, 3] 1 0 broken_off := by
    intro chunk io hmem _ _
    simp only [broken_off, List.mem_cons, reduceCtorEq, RecvOp.chunk.injEq, List.not_mem_nil,
      or_false, false_or] at hmem
    rw [SliceOf, hmem.1]
    decide
  have hp : broken_off_host.receiver.transfers 1 = some broken_off_entry :=
    (Option.some_get _).symm
  have hpath : broken_off_entry.path (0 : UInt32).toNat (by decide) = ["drop", "a.bin"] := by decide
  obtain ⟨host', earlier, last, hrun, hdisk, -, hlast⟩ :=
    (receiver_record_and_resume (fun _ => Vector.replicate 32 9) ["drop"] (fun _ => none) broken_off
      hops).2.2.2 1 0 broken_off_entry (by decide) [0] 0 [1, 2, 3] [[1], [2, 3]] hp (by decide) rfl
      hslices (by decide) (by decide) (by decide)
  exact ⟨host', earlier, last, hrun, hpath ▸ hdisk, hlast.mpr (by decide)⟩

end InputSync
