/-
What a transfer has received, as an abstract state: for each file of the
manifest, the bytes so far.

A `Ledger` only ever grows at the ends of its entries. The receiver's entry of
a transfer refines it (`Tracks`): the hashers hold the ledger, the offsets
their lengths. A list of chunks that is in order for the ledger is absorbed
chunk by chunk (`Tracks.chunk`), and the calls are accepted exactly as far as
the files that are declared finished hash to what the manifest says.
-/
import InputSync.Resume

set_option autoImplicit false

namespace InputSync

/-! ## Ledgers

A ledger is a function from file numbers, total so that no bound needs to be carried.
Two properties of a list of chunks are stated against it: that it is in order, which
concerns only lengths, and that it is verified, which concerns the hashes. -/

/-- The bytes received of each file. -/
abbrev Ledger := Nat → List UInt8

namespace Ledger

/-- Nothing received. -/
def empty : Ledger := fun _ => []

/-- A chunk goes to the end of its file. -/
def add (g : Ledger) (chunk : FileChunk) : Ledger :=
  Function.update g chunk.file_index.toNat (g chunk.file_index.toNat ++ chunk.data)

/-- The chunks, one after the other. -/
def addAll (g : Ledger) (chunks : List FileChunk) : Ledger := chunks.foldl add g

/-- The bytes received of the first `n` files together, as the code adds them. -/
def total (g : Ledger) (n : Nat) : UInt64 :=
  ((List.range n).map (fun i => UInt64.ofNat (g i).length)).sum

/-- No chunk, no change. -/
@[simp] theorem addAll_nil (g : Ledger) : g.addAll [] = g := rfl

/-- Chunks are added from the front. -/
@[simp] theorem addAll_cons (g : Ledger) (c : FileChunk) (cs : List FileChunk) :
    g.addAll (c :: cs) = (g.add c).addAll cs := rfl

/-- Adding a list of chunks can be cut anywhere; a prefix of a stream has a ledger of
its own. -/
theorem addAll_append (g : Ledger) (cs ds : List FileChunk) :
    g.addAll (cs ++ ds) = (g.addAll cs).addAll ds := List.foldl_append ..

/-- The file a chunk is for grows by the chunk's data, -/
theorem add_self (g : Ledger) (c : FileChunk) :
    g.add c c.file_index.toNat = g c.file_index.toNat ++ c.data := Function.update_self _ _ _

/-- and every other file stays. -/
theorem add_ne (g : Ledger) (c : FileChunk) (i : Nat) (h : i ≠ c.file_index.toNat) :
    g.add c i = g i := Function.update_of_ne h _ _

/-- Entries only grow. -/
theorem length_le_addAll (g : Ledger) (cs : List FileChunk) (i : Nat) :
    (g i).length ≤ (g.addAll cs i).length := by
  induction cs generalizing g with
  | nil => exact le_rfl
  | cons c cs ih =>
      refine le_trans ?_ (ih (g.add c))
      by_cases h : i = c.file_index.toNat
      · subst h
        rw [add_self, List.length_append]
        omega
      · rw [add_ne g c i h]

/-- Each chunk of the list finds its file of the first `n` at its own offset,
and within what a file can hold. -/
def InOrder (n : Nat) (g : Ledger) : List FileChunk → Prop
  | [] => True
  | c :: cs =>
    (c.file_index.toNat < n ∧ c.offset.toNat = (g c.file_index.toNat).length ∧
      c.offset.toNat + c.data.length ≤ MAX_FILE) ∧ InOrder n (g.add c) cs

/-- Whether chunks are in order may be checked part by part: the second part must join
on to what the first one leaves. The send loop is proved file by file through this. -/
theorem inOrder_append (n : Nat) (g : Ledger) (cs ds : List FileChunk) :
    g.InOrder n (cs ++ ds) ↔ g.InOrder n cs ∧ (g.addAll cs).InOrder n ds := by
  induction cs generalizing g with
  | nil => simp [InOrder]
  | cons c cs ih => simp only [List.cons_append, InOrder, ih, addAll_cons, and_assoc]

/-- Each chunk that is marked last completes its file: what was received of it
has the hash of the manifest. -/
def Verified (blake3 : List UInt8 → Hash) (files : List FileEntry) (g : Ledger) :
    List FileChunk → Prop
  | [] => True
  | c :: cs =>
    (∀ e, files[c.file_index.toNat]? = some e → c.is_last →
      blake3 (g.add c c.file_index.toNat) = e.blake3) ∧ Verified blake3 files (g.add c) cs

/-- The same for the hashes. -/
theorem verified_append (blake3 : List UInt8 → Hash) (files : List FileEntry) (g : Ledger)
    (cs ds : List FileChunk) :
    g.Verified blake3 files (cs ++ ds) ↔
      g.Verified blake3 files cs ∧ (g.addAll cs).Verified blake3 files ds := by
  induction cs generalizing g with
  | nil => simp [Verified]
  | cons c cs ih => simp only [List.cons_append, Verified, ih, addAll_cons, and_assoc]

end Ledger

/-! ## The receiver's entry refines the ledger

The entry has hashers, offsets and paths, all arrays of the length of the manifest. What
an abstract state says about them is short: the hasher of file `i` holds the ledger's
bytes of file `i` and the offset is their number. -/

/-- The entry of transfer `t` is about `files`, at `paths`, and has received
what the ledger says. -/
def Tracks (receiver : Receiver) (t : UInt64) (files : List FileEntry) (paths : List Path)
    (g : Ledger) : Prop :=
  ∃ p, receiver.transfers t = some p ∧ p.manifest.files = files ∧ p.paths.toList = paths ∧
    ∀ i (hi : i < p.manifest.files.length),
      (p.hasher i hi).absorbed = g i ∧ (p.received i hi).toNat = (g i).length

/-- A fresh transfer. -/
theorem tracks_start (receiver : Receiver) (t : UInt64) (manifest : FileManifest)
    (paths : { paths : List Path // paths.length = manifest.files.length }) :
    Tracks (receiver.insert t (.start manifest paths)) t manifest.files paths.1 .empty := by
  refine ⟨.start manifest paths, Function.update_self _ _ _, rfl, rfl, ?_⟩
  intro i hi
  constructor
  · simp [RecvProgress.hasher, RecvProgress.start, Hasher.new, Ledger.empty]
  · simp [RecvProgress.received, RecvProgress.start, Ledger.empty]

/-- Only the entry of the transfer matters. -/
theorem Tracks.congr {receiver receiver' : Receiver} {t : UInt64} {files : List FileEntry}
    {paths : List Path} {g : Ledger} (h : Tracks receiver t files paths g)
    (hsame : receiver'.transfers t = receiver.transfers t) : Tracks receiver' t files paths g := by
  obtain ⟨p, hp, hrest⟩ := h
  exact ⟨p, hsame.trans hp, hrest⟩

/-- An entry has one path for each file of its manifest, so an index in range for one is
in range for the other. -/
theorem Tracks.length_eq {receiver : Receiver} {t : UInt64} {files : List FileEntry}
    {paths : List Path} {g : Ledger} (h : Tracks receiver t files paths g) :
    paths.length = files.length := by
  obtain ⟨p, -, rfl, rfl, -⟩ := h
  exact Vector.length_toList

/-- The offsets of an entry that tracks a ledger are its lengths. -/
theorem bytes_received_toList (p : RecvProgress) (g : Ledger)
    (h : ∀ i (hi : i < p.manifest.files.length), (p.received i hi).toNat = (g i).length) :
    p.bytes_received.toList
      = (List.range p.manifest.files.length).map (fun i => UInt64.ofNat (g i).length) := by
  refine List.ext_getElem (by simp) ?_
  intro i hi _
  have hi' : i < p.manifest.files.length := by simpa using hi
  rw [Vector.getElem_toList, List.getElem_map, List.getElem_range, ← h i hi', UInt64.ofNat_toNat]
  rfl

/-- The resume offsets are the lengths of what was received. -/
theorem Tracks.resume_offsets {host : Host} {t : UInt64} {files : List FileEntry}
    {paths : List Path} {g : Ledger} (h : Tracks host.receiver t files paths g) :
    host.resume_offsets t
      = some ((List.range files.length).map (fun i => UInt64.ofNat (g i).length)) := by
  obtain ⟨p, hp, rfl, -, hg⟩ := h
  rw [Host.resume_offsets, hp, Option.map_some, bytes_received_toList p g (fun i hi => (hg i hi).2)]

/-- Absorbing a chunk that joins on to file `i` keeps the entry at the ledger. -/
theorem advance_follows (p : RecvProgress) (g : Ledger) (chunk : FileChunk)
    (hi : chunk.file_index.toNat < p.manifest.files.length)
    (hg : ∀ i (hi : i < p.manifest.files.length),
      (p.hasher i hi).absorbed = g i ∧ (p.received i hi).toNat = (g i).length)
    (hfit : (p.received chunk.file_index.toNat hi).toNat + chunk.data.length ≤ MAX_FILE) (i : Nat)
    (hi' : i < p.manifest.files.length) :
    ((p.advance chunk.file_index.toNat hi chunk.data).hasher i hi').absorbed = g.add chunk i ∧
      ((p.advance chunk.file_index.toNat hi chunk.data).received i hi').toNat
        = (g.add chunk i).length := by
  by_cases hsame : i = chunk.file_index.toNat
  · subst hsame
    rw [advance_hasher_self, advance_received_self, Ledger.add_self, List.length_append,
      toNat_add_length _ _ hfit, (hg _ hi).2]
    exact ⟨by rw [Hasher.update, (hg _ hi).1], rfl⟩
  · have hne : chunk.file_index.toNat ≠ i := fun heq => hsame heq.symm
    rw [advance_hasher_ne p _ i hi hi' _ hne, advance_received_ne p _ i hi hi' _ hne,
      Ledger.add_ne g chunk i hsame]
    exact hg i hi'

variable (blake3 : List UInt8 → Hash)

/-- What an accepted chunk returns. -/
theorem verdict_ok (p : RecvProgress) (i : Nat) (hi : i < p.manifest.files.length)
    (is_last : Bool)
    (h : is_last → blake3 (p.hasher i hi).absorbed = (p.entry i hi).blake3) :
    p.verdict blake3 i hi is_last = .ok p.bytes_received.toList.sum := by
  rw [RecvProgress.verdict, if_neg]
  exact fun hbad => hbad.2 (h hbad.1)

/-- **One chunk in order.** It is absorbed; what it leaves alone stays. -/
theorem Tracks.chunk {host : Host} {t : UInt64} {files : List FileEntry} {paths : List Path}
    {g : Ledger} (h : Tracks host.receiver t files paths g) (chunk : FileChunk)
    (ht : chunk.transfer_id = t) (hi : chunk.file_index.toNat < files.length)
    (hoff : chunk.offset.toNat = (g chunk.file_index.toNat).length)
    (hfit : chunk.offset.toNat + chunk.data.length ≤ MAX_FILE) (q : Path) (f : List UInt8)
    (hq : paths[chunk.file_index.toNat]? = some q) (hf : host.disk q = some f) :
    ∃ receiver result,
      host.write_chunk blake3 chunk .ok
        = ({ receiver
             disk := Function.update host.disk q (some (splice 0 f chunk.offset.toNat chunk.data)) },
            result) ∧
      Tracks receiver t files paths (g.add chunk) ∧
      (∀ u, u ≠ t → receiver.transfers u = host.receiver.transfers u) ∧
      receiver.drop_dir = host.receiver.drop_dir ∧
      ((Outcome.wrote result).accepted ↔
        ∀ e, files[chunk.file_index.toNat]? = some e → chunk.is_last →
          blake3 (g.add chunk chunk.file_index.toNat) = e.blake3) ∧
      ((Outcome.wrote result).accepted → result = .ok ((g.add chunk).total files.length)) := by
  subst ht
  obtain ⟨p, hp, rfl, rfl, hg⟩ := h
  have hreceived : chunk.offset = p.received chunk.file_index.toNat hi :=
    UInt64.toNat_inj.mp (by rw [hoff, (hg _ hi).2])
  have hpath : p.path chunk.file_index.toNat hi = q := by
    rw [List.getElem?_eq_getElem (by simpa using hi), Option.some.injEq] at hq
    rw [← hq, Vector.getElem_toList]
    rfl
  rw [← hpath] at hf
  -- the next piece of the file, so receiver and ledger grow alike
  have hnext := advance_follows p g chunk hi hg (by rw [← hreceived]; exact hfit)
  have hentry : p.manifest.files[chunk.file_index.toNat]?
      = some (p.entry chunk.file_index.toNat hi) := List.getElem?_eq_getElem hi
  have hverdict := verdict_accepted blake3 (p.advance chunk.file_index.toNat hi chunk.data)
    chunk.file_index.toNat hi chunk.is_last
  refine ⟨host.receiver.insert chunk.transfer_id (p.advance chunk.file_index.toNat hi chunk.data),
    (p.advance chunk.file_index.toNat hi chunk.data).verdict blake3 chunk.file_index.toNat hi
      chunk.is_last, ?_,
    ⟨p.advance chunk.file_index.toNat hi chunk.data, Function.update_self _ _ _, rfl, rfl, hnext⟩,
    fun u hu => Function.update_of_ne hu _ _, rfl, ?_, ?_⟩
  · rw [write_chunk_absorb blake3 host chunk p hp hi f hf hreceived hfit, hpath]
  · rw [hverdict, (hnext _ hi).1, hentry]
    exact ⟨fun hall e he hlast => by rw [← Option.some.inj he]; exact hall hlast,
      fun hall hlast => hall _ rfl hlast⟩
  · intro hacc
    have hok := verdict_ok blake3 (p.advance chunk.file_index.toNat hi chunk.data)
      chunk.file_index.toNat hi chunk.is_last (hverdict.mp hacc)
    have hlist := bytes_received_toList (p.advance chunk.file_index.toNat hi chunk.data)
      (g.add chunk) (fun i hi' => (hnext i hi').2)
    exact hok.trans (congrArg (fun l : List UInt64 => Except.ok l.sum) hlist)

end InputSync
