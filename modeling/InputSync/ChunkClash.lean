/-
When two calls of `write_chunk` at the same time are atomic.

The runs to compare are those in which both chunks are in turn and looked up
first (`ChunkRace`). The order of the writes shows in the files, where the two
meet and differ; the order of the commits shows in the table for one file, and
in the results for two. `Clash` says when an overlapping run shows both orders
and no serial run does, or a serial run refuses what both calls were allowed.
-/
import InputSync.ChunkRace
import Mathlib.Algebra.BigOperators.Group.List.Basic
import Mathlib.Tactic.Abel

set_option autoImplicit false

namespace InputSync

variable (blake3 : List UInt8 → Hash)

/-! ## Serial runs and overlapping ones

Atomicity is about all schedules. The first step is to get rid of them. -/

section Compare

variable (host : Host) (calls : Bool → ChunkCall)

/-- Atomicity, reduced to four runs: the two orders of the writes with the two orders of
the commits. Everything else a schedule can do is serial already, by `race_cases`. -/
theorem atomic_iff_overlapped :
    Atomic blake3 host calls ↔ (BothInTurn host calls →
      ∀ w c, ∃ first, overlapped blake3 host calls w c = serial blake3 host calls first) := by
  constructor
  · intro h hboth w c
    obtain ⟨schedule, hrun⟩ := overlapped_reachable blake3 host calls hboth w c
    exact h schedule _ hrun (overlapped_done blake3 host calls w c)
  · intro h schedule race hrun hdone
    rcases race_cases blake3 schedule race hrun hdone with hserial | ⟨hboth, w, c, rfl⟩
    · exact hserial
    · exact h hboth w c

/-- The result of each call, from the commits before it. -/
theorem overlapped_phase (w c who : Bool) :
    (overlapped blake3 host calls w c).phase who
      = .returned (if goes_through host calls who = true then
          (commit_by blake3 host calls (commits blake3 host calls
            (if who = c then [] else [c].filter (goes_through host calls))) who).2
        else .error .io) := by
  have hws : who ∈ [w, !w] := by
    rw [List.mem_cons, List.mem_singleton]
    exact Bool.eq_or_eq_not who w
  -- whether a call failed in its write decides how it returned: at once, or from its
  -- commit, and then what stood before it matters
  cases hgoes : goes_through host calls who with
  | false =>
      simp only [overlapped, overlap, hws, hgoes, not_true_eq_false, if_false, if_true,
        Bool.false_eq_true]
  | true =>
      have hcs : who ∈ [c, !c].filter (goes_through host calls) := by
        refine List.mem_filter.mpr ⟨?_, hgoes⟩
        rw [List.mem_cons, List.mem_singleton]
        exact Bool.eq_or_eq_not who c
      -- the second to commit finds the first one's commit, if there was one
      have hbefore : ([c, !c].filter (goes_through host calls)).takeWhile (· != who)
          = if who = c then [] else [c].filter (goes_through host calls) := by
        by_cases hwho : who = c
        · subst hwho
          rw [if_pos rfl, List.filter_cons_of_pos hgoes]
          simp
        · rw [if_neg hwho]
          obtain rfl : who = !c := Bool.eq_not.mpr hwho
          cases hc : goes_through host calls c <;> simp [hc, hgoes]
      simp only [overlapped, overlap, hws, hgoes, hcs, hbefore, not_true_eq_false, if_false,
        if_true, Bool.true_eq_false]

/-- A call on a table in which its lookup is what it was. -/
theorem run_in_turn (hboth : BothInTurn host calls) (who : Bool) (receiver : Receiver) (disk : Disk)
    (hlook : receiver.lookup (calls who).chunk = host.receiver.lookup (calls who).chunk)
    (hdisk : ∀ q, (disk q).isSome = (host.disk q).isSome) :
    (calls who).run blake3 ⟨receiver, disk⟩
      = if goes_through host calls who = true then
          (⟨(commit_by blake3 host calls receiver who).1, (write_by host calls disk who).1⟩,
            (commit_by blake3 host calls receiver who).2)
        else (⟨receiver, (write_by host calls disk who).1⟩, .error .io) := by
  rw [run_looked_up blake3 (calls who) ⟨receiver, disk⟩ _ _ (hlook.trans (hboth who))]
  have hwrite : write_file disk (looked_path host (calls who).chunk) (calls who).chunk.offset
      (calls who).chunk.data (calls who).io
      = ((write_by host calls disk who).1,
          if goes_through host calls who = true then .ok () else .error .io) :=
    Prod.ext rfl (write_by_result host calls disk who hdisk)
  dsimp only
  rw [hwrite]
  cases goes_through host calls who <;> rfl

/-- The second call finds its chunk in turn after the first. -/
def Undisturbed (first : Bool) : Prop :=
  goes_through host calls first = true →
    (commits blake3 host calls [first]).lookup (calls !first).chunk
      = host.receiver.lookup (calls !first).chunk

/-- Then the serial run is the one that overlaps in that order. -/
theorem serial_eq_overlapped (hboth : BothInTurn host calls) (first : Bool)
    (h : Undisturbed blake3 host calls first) :
    serial blake3 host calls first = overlapped blake3 host calls first first := by
  have hfirst := run_in_turn blake3 host calls hboth first host.receiver host.disk rfl
    (fun _ => rfl)
  have hsecond := run_in_turn blake3 host calls hboth (!first)
    (commits blake3 host calls ([first].filter (goes_through host calls)))
    (writes host calls [first]) ?_ (writes_isSome host calls [first])
  -- the first call by itself, and then the second on what it left
  · have hne : ¬ (!first) = first := Bool.not_ne_self first
    have hrun : (calls first).run blake3 host
        = (⟨commits blake3 host calls ([first].filter (goes_through host calls)),
            writes host calls [first]⟩,
            if goes_through host calls first = true then
              (commit_by blake3 host calls host.receiver first).2 else .error .io) := by
      refine hfirst.trans ?_
      cases hgoes : goes_through host calls first <;> simp [hgoes, commits, writes]
    refine Race.ext ?_ (funext fun who => ?_)
    · rw [serial, hrun]
      dsimp only
      rw [hsecond]
      cases hgoes : goes_through host calls first <;>
        cases hgoes' : goes_through host calls (!first) <;>
        simp [hgoes, hgoes', overlapped, overlap, commits, writes]
    · rw [overlapped_phase, serial, hrun]
      dsimp only
      rw [hsecond]
      by_cases hwho : who = first
      · subst hwho
        rw [if_pos rfl, if_pos rfl]
        rfl
      · rw [if_neg hwho, if_neg hwho]
        obtain rfl : who = !first := Bool.eq_not.mpr hwho
        cases goes_through host calls (!first) <;> rfl
  -- what the second looks up is what it looked up before, by assumption
  · cases hgoes : goes_through host calls first with
    | false =>
        rw [List.filter_cons_of_neg (by rw [hgoes]; exact Bool.noConfusion)]
        rfl
    | true =>
        rw [List.filter_cons_of_pos hgoes]
        exact h hgoes

end Compare

/-! ### The order of the writes

When do two writes commute? Only what each puts into its file matters, and where. -/

section Writes

variable (host : Host) (calls : Bool → ChunkCall)

/-- What a call puts into its file, if it gets to write at all. -/
def ChunkCall.reaches (self : ChunkCall) : List UInt8 :=
  self.io.reaches self.chunk.offset self.chunk.data

/-- The file operations of the call succeed. -/
def ChunkCall.Succeeds (self : ChunkCall) : Prop :=
  self.io.Succeeds self.chunk.offset self.chunk.data

/-- A write to a file that is there splices the data in at the offset, as far as the
operations of this call get. -/
theorem write_by_some (disk : Disk) (who : Bool) (old : List UInt8)
    (hold : disk (looked_path host (calls who).chunk) = some old) :
    (write_by host calls disk who).1
      = Function.update disk (looked_path host (calls who).chunk)
        (some (splice 0 old (calls who).chunk.offset.toNat (calls who).reaches)) := by
  rw [write_by, write_file_some _ _ _ _ _ old hold]
  rfl

/-- A write to a file that is not there does nothing, as the file is opened without
`create`. -/
theorem write_by_none (disk : Disk) (who : Bool)
    (hnone : disk (looked_path host (calls who).chunk) = none) :
    (write_by host calls disk who).1 = disk := by
  rw [write_by, write_file, hnone]

/-- A file that is not there is not created. -/
theorem write_by_missing (who : Bool) (q : Path) (hnone : host.disk q = none) :
    (write_by host calls host.disk who).1 q = none := by
  have hsome := writes_isSome host calls [who] q
  rw [hnone, Option.isSome_none, Option.isSome_eq_false_iff, Option.isNone_iff_eq_none] at hsome
  exact hsome

/-- A call gets to its commit when its file is there and its own operations succeed. The
other call has no part in it, since no write removes a file. -/
theorem goes_through_iff (who : Bool) :
    goes_through host calls who = true ↔
      (∃ old, host.disk (looked_path host (calls who).chunk) = some old) ∧ (calls who).Succeeds := by
  rw [goes_through, write_by]
  cases hold : host.disk (looked_path host (calls who).chunk) with
  | none =>
      rw [write_file, hold]
      refine iff_of_false Bool.noConfusion (fun h => ?_)
      obtain ⟨old, hsome⟩ := h.1
      cases hsome
  | some old =>
      rw [write_file_some _ _ _ _ _ old hold]
      by_cases hio : (calls who).io.Succeeds (calls who).chunk.offset (calls who).chunk.data
      · rw [if_pos hio]
        exact iff_of_true rfl ⟨⟨old, rfl⟩, hio⟩
      · rw [if_neg hio]
        exact iff_of_false Bool.noConfusion (fun h => hio h.2)

/-- Two writes, spelled out. -/
theorem writes_pair (w : Bool) :
    writes host calls [w, !w]
      = (write_by host calls (write_by host calls host.disk w).1 (!w)).1 := rfl

/-- Writes to different files, or to one that is not there, commute. -/
theorem writes_comm_apart (w : Bool)
    (h : ∀ old, host.disk (looked_path host (calls w).chunk) = some old →
      looked_path host (calls w).chunk ≠ looked_path host (calls !w).chunk) :
    writes host calls [w, !w] = writes host calls [!w, w] := by
  have hother : writes host calls [!w, w]
      = (write_by host calls (write_by host calls host.disk (!w)).1 w).1 := rfl
  rw [writes_pair, hother]
  -- a write without a file does nothing, before or after the other one; two writes to
  -- different files commute
  cases hw : host.disk (looked_path host (calls w).chunk) with
  | none =>
      have hstill : (write_by host calls host.disk (!w)).1 (looked_path host (calls w).chunk)
          = none := write_by_missing host calls (!w) _ hw
      rw [write_by_none _ _ _ w hw, write_by_none _ _ _ w hstill]
  | some old =>
      have hne := h old hw
      cases hw' : host.disk (looked_path host (calls !w).chunk) with
      | none =>
          have hstill : (write_by host calls host.disk w).1 (looked_path host (calls !w).chunk)
              = none := write_by_missing host calls w _ hw'
          rw [write_by_none _ _ _ (!w) hstill, write_by_none _ _ _ (!w) hw']
      | some old' =>
          rw [write_by_some _ _ _ w old hw, write_by_some _ _ _ (!w) old' hw',
            write_by_some _ _ _ (!w) old' (by rw [Function.update_of_ne hne.symm, hw']),
            write_by_some _ _ _ w old (by rw [Function.update_of_ne hne, hw]),
            Function.update_comm hne]

/-- Writes to one file commute exactly when they agree where they meet. -/
theorem writes_comm_iff (w : Bool)
    (hpath : looked_path host (calls w).chunk = looked_path host (calls !w).chunk)
    (old : List UInt8) (hold : host.disk (looked_path host (calls w).chunk) = some old) :
    writes host calls [w, !w] = writes host calls [!w, w] ↔
      Coincide (calls w).chunk.offset.toNat (calls w).reaches
        (calls !w).chunk.offset.toNat (calls !w).reaches := by
  have hold' : host.disk (looked_path host (calls !w).chunk) = some old := hpath ▸ hold
  have hother : writes host calls [!w, w]
      = (write_by host calls (write_by host calls host.disk (!w)).1 w).1 := rfl
  rw [writes_pair, hother, write_by_some _ _ _ w old hold, write_by_some _ _ _ (!w) old hold',
    write_by_some _ _ _ (!w) _ (by rw [hpath, Function.update_self]),
    write_by_some _ _ _ w _ (by rw [← hpath, Function.update_self]), ← hpath,
    Function.update_idem, Function.update_idem, ← splice_comm_iff 0 old]
  constructor
  · intro h
    have hat := congrFun h (looked_path host (calls w).chunk)
    rw [Function.update_self, Function.update_self] at hat
    exact Option.some.inj hat
  · intro h
    rw [h]

end Writes

/-! ### The order of the commits

Commits of two files commute; of one file they do not, because the hasher each puts back
was read before either. -/

/-- Absorbing chunks of two files. -/
theorem advance_comm (p : RecvProgress) (i j : Nat) (hi : i < p.manifest.files.length)
    (hj : j < p.manifest.files.length) (data data' : List UInt8) (hij : i ≠ j) :
    (p.advance i hi data).advance j hj data' = (p.advance j hj data').advance i hi data := by
  simp only [RecvProgress.advance, RecvProgress.received, RecvProgress.hasher,
    RecvProgress.mk.injEq, heq_eq_eq, true_and]
  constructor
  · rw [Vector.getElem_set_ne hi hj hij, Vector.getElem_set_ne hj hi hij.symm,
      Vector.set_comm _ _ hij]
  · rw [Vector.getElem_set_ne hi hj hij, Vector.getElem_set_ne hj hi hij.symm,
      Vector.set_comm _ _ hij]

/-- The sum that an accepted chunk returns grows by its length. -/
theorem advance_sum (p : RecvProgress) (i : Nat) (hi : i < p.manifest.files.length)
    (data : List UInt8) :
    (p.advance i hi data).bytes_received.toList.sum
      = p.bytes_received.toList.sum + UInt64.ofNat data.length := by
  have hlen : i < p.bytes_received.toList.length := by
    rw [Vector.length_toList]
    exact hi
  have hget : p.bytes_received.toList.get ⟨i, hlen⟩ = p.received i hi :=
    Vector.getElem_toList _
  rw [List.get_eq_getElem] at hget
  rw [RecvProgress.advance, Vector.toList_set, List.sum_set', dif_pos hlen, hget]
  abel

section Commits

variable (host : Host) (calls : Bool → ChunkCall)

/-- What the lookup of a chunk in turn has found in the table. -/
structure FoundIn (host : Host) (chunk : FileChunk) (p : RecvProgress)
    (hi : chunk.file_index.toNat < p.manifest.files.length) : Prop where
  entry : host.receiver.transfers chunk.transfer_id = some p
  offset : chunk.offset = p.received chunk.file_index.toNat hi
  path : looked_path host chunk = p.path chunk.file_index.toNat hi
  hasher : looked_hasher host chunk = p.hasher chunk.file_index.toNat hi

/-- A chunk that joins on to the received bytes of its file is in turn, and this is what
its lookup finds. -/
theorem foundIn_of_entry (chunk : FileChunk) (p : RecvProgress)
    (hi : chunk.file_index.toNat < p.manifest.files.length)
    (hp : host.receiver.transfers chunk.transfer_id = some p)
    (hoff : chunk.offset = p.received chunk.file_index.toNat hi) : FoundIn host chunk p hi := by
  obtain ⟨hpath, hhasher⟩ := looked_eq (lookup_known host.receiver chunk p hp hi)
  exact ⟨hp, hoff, hpath, hhasher⟩

variable {host calls}

/-- What the lookup returns then. -/
theorem FoundIn.lookup {chunk : FileChunk} {p : RecvProgress}
    {hi : chunk.file_index.toNat < p.manifest.files.length} (h : FoundIn host chunk p hi) :
    host.receiver.lookup chunk
      = .ok (looked_path host chunk, chunk.offset, looked_hasher host chunk) := by
  rw [lookup_known host.receiver chunk p h.entry hi, h.path, h.offset, h.hasher]

/-- Of chunks that are in turn the entries are there, with what the lookups returned in
them. -/
theorem BothInTurn.found (hboth : BothInTurn host calls) (who : Bool) :
    ∃ p, ∃ hi, FoundIn host (calls who).chunk p hi := by
  have hlook := hboth who
  cases hp : host.receiver.transfers (calls who).chunk.transfer_id with
  | none =>
      rw [Receiver.lookup, hp] at hlook
      cases hlook
  | some p =>
      by_cases hi : (calls who).chunk.file_index.toNat < p.manifest.files.length
      · rw [lookup_known host.receiver _ p hp hi] at hlook
        have hoff := congrArg (fun r => r.2.1) (Except.ok.inj hlook)
        exact ⟨p, hi, foundIn_of_entry host _ p hi hp hoff.symm⟩
      · simp only [Receiver.lookup, hp, dif_neg hi] at hlook
        cases hlook

/-- A commit on an entry whose hasher is the one that was looked up. -/
theorem commit_by_known (receiver : Receiver) (who : Bool) (q : RecvProgress)
    (hq : receiver.transfers (calls who).chunk.transfer_id = some q)
    (hi : (calls who).chunk.file_index.toNat < q.manifest.files.length)
    (hhasher : q.hasher (calls who).chunk.file_index.toNat hi
      = looked_hasher host (calls who).chunk) :
    commit_by blake3 host calls receiver who
      = (receiver.insert (calls who).chunk.transfer_id
          (q.advance (calls who).chunk.file_index.toNat hi (calls who).chunk.data),
          (q.advance (calls who).chunk.file_index.toNat hi (calls who).chunk.data).verdict blake3
            (calls who).chunk.file_index.toNat hi (calls who).chunk.is_last) := by
  rw [commit_by, ← hhasher, commit_known blake3 receiver _ q hq hi]

/-- The first commit. -/
theorem commits_one {who : Bool} {p : RecvProgress}
    {hi : (calls who).chunk.file_index.toNat < p.manifest.files.length}
    (h : FoundIn host (calls who).chunk p hi) :
    commits blake3 host calls [who]
      = host.receiver.insert (calls who).chunk.transfer_id
          (p.advance (calls who).chunk.file_index.toNat hi (calls who).chunk.data) := by
  rw [commits, List.foldl_cons, List.foldl_nil,
    commit_by_known blake3 host.receiver who p h.entry hi h.hasher.symm]

/-- Both chunks are for one file of one transfer. -/
def SameFile (calls : Bool → ChunkCall) : Prop :=
  (calls true).chunk.transfer_id = (calls false).chunk.transfer_id ∧
    (calls true).chunk.file_index = (calls false).chunk.file_index

/-- Being for the same file is symmetric; the form with `!who` lets later lemmas speak
about either call. -/
theorem SameFile.id (h : SameFile calls) (who : Bool) :
    (calls !who).chunk.transfer_id = (calls who).chunk.transfer_id ∧
      (calls !who).chunk.file_index = (calls who).chunk.file_index := by
  cases who
  · exact h
  · exact ⟨h.1.symm, h.2.symm⟩

/-- Two chunks of one transfer that are not for one file have different indices. -/
theorem index_ne_of_not_same (h : ¬ SameFile calls) (who : Bool)
    (hid : (calls !who).chunk.transfer_id = (calls who).chunk.transfer_id) :
    (calls who).chunk.file_index.toNat ≠ (calls !who).chunk.file_index.toNat := by
  intro hindex
  have heq := UInt32.toNat_inj.mp hindex
  cases who
  · exact h ⟨hid, heq.symm⟩
  · exact h ⟨hid.symm, heq⟩

/-- A call leaves the lookup of the other one as it was, unless it moves the
offset of the same file. -/
theorem undisturbed_of (hboth : BothInTurn host calls) (first : Bool)
    (h : ¬ SameFile calls ∨ (calls first).chunk.data = []) :
    Undisturbed blake3 host calls first := by
  intro _
  obtain ⟨p, hi, hfound⟩ := hboth.found first
  rw [commits_one blake3 hfound]
  rcases h with hapart | hnil
  · by_cases hid : (calls !first).chunk.transfer_id = (calls first).chunk.transfer_id
    · -- another file of the same transfer
      have hne := index_ne_of_not_same hapart first hid
      obtain ⟨p', hi', hfound'⟩ := hboth.found (!first)
      obtain rfl : p' = p := by
        have hentry := hfound'.entry
        rw [hid, hfound.entry] at hentry
        exact (Option.some.inj hentry).symm
      rw [lookup_known host.receiver _ p' hfound'.entry hi',
        lookup_known _ _ (p'.advance _ hi (calls first).chunk.data)
          (by rw [hid]; exact Function.update_self _ _ _) hi',
        advance_received_ne p' _ _ hi hi' _ hne, advance_hasher_ne p' _ _ hi hi' _ hne]
      rfl
    · rw [Receiver.lookup, Receiver.lookup, Receiver.insert]
      dsimp only
      rw [Function.update_of_ne hid]
  · rw [hnil, advance_nil, insert_self _ _ p hfound.entry]

/-- What a call returns for a chunk it absorbs. -/
theorem verdict_advance (q : RecvProgress) (i : Nat) (hi : i < q.manifest.files.length)
    (data : List UInt8) (is_last : Bool) :
    (q.advance i hi data).verdict blake3 i hi is_last
      = if is_last ∧ blake3 ((q.hasher i hi).absorbed ++ data) ≠ (q.entry i hi).blake3 then
          .error (.blake3_mismatch (q.entry i hi).relative_path)
        else .ok (q.bytes_received.toList.sum + UInt64.ofNat data.length) := by
  have hverdict : (q.advance i hi data).verdict blake3 i hi is_last
      = if is_last ∧ ((q.advance i hi data).hasher i hi).finalize blake3
            ≠ (q.entry i hi).blake3 then
          .error (.blake3_mismatch (q.entry i hi).relative_path)
        else .ok (q.advance i hi data).bytes_received.toList.sum := rfl
  rw [hverdict, advance_hasher_self, advance_sum]
  rfl

section Second

variable {a b : Bool} {p p' : RecvProgress}
  {ha : (calls a).chunk.file_index.toNat < p.manifest.files.length}
  {hb : (calls b).chunk.file_index.toNat < p'.manifest.files.length}

/-- The second commit, in another transfer. -/
theorem commit_second_other (hfound : FoundIn host (calls a).chunk p ha)
    (hfound' : FoundIn host (calls b).chunk p' hb)
    (hid : (calls b).chunk.transfer_id ≠ (calls a).chunk.transfer_id) :
    commit_by blake3 host calls (commits blake3 host calls [a]) b
      = ((commits blake3 host calls [a]).insert (calls b).chunk.transfer_id
          (p'.advance (calls b).chunk.file_index.toNat hb (calls b).chunk.data),
          (p'.advance (calls b).chunk.file_index.toNat hb (calls b).chunk.data).verdict blake3
            (calls b).chunk.file_index.toNat hb (calls b).chunk.is_last) := by
  refine commit_by_known blake3 _ b p' ?_ hb hfound'.hasher.symm
  rw [commits_one blake3 hfound]
  exact (Function.update_of_ne hid _ _).trans hfound'.entry

/-- The second commit, for another file of the same transfer. -/
theorem commit_second_same {hb : (calls b).chunk.file_index.toNat < p.manifest.files.length}
    (hfound : FoundIn host (calls a).chunk p ha) (hfound' : FoundIn host (calls b).chunk p hb)
    (hid : (calls b).chunk.transfer_id = (calls a).chunk.transfer_id)
    (hne : (calls a).chunk.file_index.toNat ≠ (calls b).chunk.file_index.toNat) :
    commit_by blake3 host calls (commits blake3 host calls [a]) b
      = ((commits blake3 host calls [a]).insert (calls b).chunk.transfer_id
          ((p.advance _ ha (calls a).chunk.data).advance _ hb (calls b).chunk.data),
          ((p.advance _ ha (calls a).chunk.data).advance _ hb (calls b).chunk.data).verdict blake3
            (calls b).chunk.file_index.toNat hb (calls b).chunk.is_last) := by
  refine commit_by_known blake3 _ b (p.advance _ ha (calls a).chunk.data) ?_ hb ?_
  · rw [commits_one blake3 hfound, hid]
    exact Function.update_self _ _ _
  · rw [advance_hasher_ne p _ _ ha hb _ hne]
    exact hfound'.hasher.symm

end Second

/-- The entry of the other call, in the same transfer. -/
theorem FoundIn.same_entry {a b : Bool} {p p' : RecvProgress}
    {ha : (calls a).chunk.file_index.toNat < p.manifest.files.length}
    {hb : (calls b).chunk.file_index.toNat < p'.manifest.files.length}
    (hfound : FoundIn host (calls a).chunk p ha) (hfound' : FoundIn host (calls b).chunk p' hb)
    (hid : (calls b).chunk.transfer_id = (calls a).chunk.transfer_id) : p' = p := by
  have hentry := hfound'.entry
  rw [hid, hfound.entry] at hentry
  exact (Option.some.inj hentry).symm

/-- The table does not tell in which order two files were committed. -/
theorem commits_swap (hboth : BothInTurn host calls) (hapart : ¬ SameFile calls) (c : Bool) :
    commits blake3 host calls [c, !c] = commits blake3 host calls [!c, c] := by
  have hpair : ∀ a b : Bool, commits blake3 host calls [a, b]
      = (commit_by blake3 host calls (commits blake3 host calls [a]) b).1 := fun _ _ => rfl
  obtain ⟨p, hi, hfound⟩ := hboth.found c
  obtain ⟨p', hi', hfound'⟩ := hboth.found (!c)
  rw [hpair, hpair]
  -- two numbers have two entries of the table; one number has one entry, in which the
  -- calls advance different files
  by_cases hid : (calls !c).chunk.transfer_id = (calls c).chunk.transfer_id
  · obtain rfl := hfound.same_entry hfound' hid
    have hne := index_ne_of_not_same hapart c hid
    rw [commit_second_same blake3 hfound hfound' hid hne,
      commit_second_same blake3 hfound' hfound hid.symm hne.symm, commits_one blake3 hfound,
      commits_one blake3 hfound']
    dsimp only
    rw [advance_comm p' _ _ hi hi' _ _ hne, hid]
    simp only [Receiver.insert, Function.update_idem]
  · rw [commit_second_other blake3 hfound hfound' hid,
      commit_second_other blake3 hfound' hfound (Ne.symm hid), commits_one blake3 hfound,
      commits_one blake3 hfound']
    simp only [Receiver.insert, Function.update_comm hid]

end Commits

/-! ## When two calls clash

The condition for two orders to differ. It is about the entry before the calls, the two
chunks, and whether the file operations succeed; the schedule does not occur in it. -/

section Clash

variable (host : Host) (calls : Bool → ChunkCall)

/-- Both chunks are in turn, in one transfer with the entry `p`, and go to one
place on the disk. -/
structure Meet (p : RecvProgress)
    (index : ∀ who, (calls who).chunk.file_index.toNat < p.manifest.files.length) : Prop where
  transfer : (calls true).chunk.transfer_id = (calls false).chunk.transfer_id
  entry : host.receiver.transfers (calls true).chunk.transfer_id = some p
  offset : ∀ who,
    (calls who).chunk.offset = p.received (calls who).chunk.file_index.toNat (index who)
  path : p.path (calls true).chunk.file_index.toNat (index true)
    = p.path (calls false).chunk.file_index.toNat (index false)
  file : ∃ contents,
    host.disk (p.path (calls true).chunk.file_index.toNat (index true)) = some contents

/-- The chunk is not the last one of its file, or completes it. -/
def Passes (chunk : FileChunk) (p : RecvProgress)
    (hi : chunk.file_index.toNat < p.manifest.files.length) : Prop :=
  chunk.is_last = true →
    blake3 ((p.hasher chunk.file_index.toNat hi).absorbed ++ chunk.data)
      = (p.entry chunk.file_index.toNat hi).blake3

/-- Both calls write the same where they meet. -/
def WritesAgree : Prop :=
  Coincide (calls true).chunk.offset.toNat (calls true).reaches
    (calls false).chunk.offset.toNat (calls false).reaches

/-- Two chunks for one place clash. For one file: if both writes succeed and
there is data, or if one succeeds and the other leaves something else behind.
For two files of the transfer: if both succeed and differ where they meet, and
not both are refused in the end. -/
def Clash : Prop := ∃ p index, Meet host calls p index ∧
  ((calls true).chunk.file_index = (calls false).chunk.file_index ∧
      ((∀ who, (calls who).Succeeds) ∧ (∃ who, (calls who).chunk.data ≠ []) ∨
        (∃ who, (calls who).Succeeds ∧ ¬ (calls !who).Succeeds) ∧ ¬ WritesAgree calls) ∨
    (calls true).chunk.file_index ≠ (calls false).chunk.file_index ∧
      (∀ who, (calls who).Succeeds) ∧ ¬ WritesAgree calls ∧
        ∃ who, Passes blake3 (calls who).chunk p (index who))

variable {host calls}

/-- In a meeting both chunks are in turn, -/
theorem Meet.found {p : RecvProgress}
    {index : ∀ who, (calls who).chunk.file_index.toNat < p.manifest.files.length}
    (h : Meet host calls p index) (who : Bool) : FoundIn host (calls who).chunk p (index who) := by
  refine foundIn_of_entry host _ p (index who) ?_ (h.offset who)
  cases who
  · rw [← h.transfer]
    exact h.entry
  · exact h.entry

/-- so their lookups succeed, -/
theorem Meet.bothInTurn {p : RecvProgress}
    {index : ∀ who, (calls who).chunk.file_index.toNat < p.manifest.files.length}
    (h : Meet host calls p index) : BothInTurn host calls := fun who => (h.found who).lookup

/-- lead to the same place on the disk, -/
theorem Meet.same_path {p : RecvProgress}
    {index : ∀ who, (calls who).chunk.file_index.toNat < p.manifest.files.length}
    (h : Meet host calls p index) (who : Bool) :
    looked_path host (calls who).chunk = looked_path host (calls !who).chunk := by
  rw [(h.found who).path, (h.found !who).path]
  cases who
  · exact h.path.symm
  · exact h.path

/-- and whether a call gets to its commit depends on its own operations alone. -/
theorem Meet.goes {p : RecvProgress}
    {index : ∀ who, (calls who).chunk.file_index.toNat < p.manifest.files.length}
    (h : Meet host calls p index) (who : Bool) :
    goes_through host calls who = true ↔ (calls who).Succeeds := by
  rw [goes_through_iff]
  refine and_iff_right ?_
  have htrue : looked_path host (calls true).chunk = p.path _ (index true) := (h.found true).path
  cases who
  · rw [h.same_path false, Bool.not_false, htrue]
    exact h.file
  · rw [htrue]
    exact h.file

/-- The other way round, from the lookups. -/
theorem meet_of (hboth : BothInTurn host calls)
    (hid : (calls true).chunk.transfer_id = (calls false).chunk.transfer_id)
    (hpath : looked_path host (calls true).chunk = looked_path host (calls false).chunk)
    (hfile : ∃ old, host.disk (looked_path host (calls true).chunk) = some old) :
    ∃ p index, Meet host calls p index := by
  obtain ⟨p, htrue, hfound⟩ := hboth.found true
  obtain ⟨p', hfalse, hfound'⟩ := hboth.found false
  obtain rfl : p' = p := hfound.same_entry hfound' hid.symm
  refine ⟨p', fun who => by cases who; exacts [hfalse, htrue], hid, hfound.entry, ?_, ?_, ?_⟩
  · intro who
    cases who
    · exact hfound'.offset
    · exact hfound.offset
  · rw [← hfound.path, hpath]
    exact hfound'.path
  · rw [← hfound.path]
    exact hfile

/-- The order of the writes, in terms of what they put. -/
theorem writes_comm_agree (w : Bool)
    (hpath : looked_path host (calls w).chunk = looked_path host (calls !w).chunk)
    (old : List UInt8) (hold : host.disk (looked_path host (calls w).chunk) = some old) :
    writes host calls [w, !w] = writes host calls [!w, w] ↔ WritesAgree calls := by
  rw [writes_comm_iff host calls w hpath old hold]
  cases w
  · exact coincide_comm
  · exact Iff.rfl

/-! ### Without a clash

Each of the four orders is compared with the serial run that suits it. -/

/-- Runs with the writes in orders that come to the same. -/
theorem overlapped_writes (w w' c : Bool)
    (h : writes host calls [w, !w] = writes host calls [w', !w']) :
    overlapped blake3 host calls w c = overlapped blake3 host calls w' c := by
  refine Race.ext ?_ (funext fun who => ?_)
  · exact congrArg (Host.mk _) h
  · rw [overlapped_phase, overlapped_phase]

/-- Runs with the commits in orders that come to the same. -/
theorem overlapped_commits (w c c' : Bool)
    (hcommits : commits blake3 host calls ([c, !c].filter (goes_through host calls))
      = commits blake3 host calls ([c', !c'].filter (goes_through host calls)))
    (hresults : ∀ a, goes_through host calls a = true → goes_through host calls (!a) = true →
      (commit_by blake3 host calls (commits blake3 host calls [a]) (!a)).2
        = (commit_by blake3 host calls host.receiver (!a)).2) :
    overlapped blake3 host calls w c = overlapped blake3 host calls w c' := by
  have hone : ∀ who c, goes_through host calls who = true →
      (commit_by blake3 host calls (commits blake3 host calls
        (if who = c then [] else [c].filter (goes_through host calls))) who).2
      = (commit_by blake3 host calls host.receiver who).2 := by
    intro who c hwho
    by_cases heq : who = c
    · rw [if_pos heq]
      rfl
    · rw [if_neg heq]
      obtain rfl : c = !who := Bool.eq_not.mpr (Ne.symm heq)
      cases hgoes : goes_through host calls (!who) with
      | false =>
          rw [List.filter_cons_of_neg (by rw [hgoes]; exact Bool.noConfusion)]
          rfl
      | true =>
          have h := hresults (!who) hgoes (by rwa [Bool.not_not])
          rw [Bool.not_not] at h
          rw [List.filter_cons_of_pos hgoes]
          exact h
  -- a call returns what it would return alone, whatever was committed before
  refine Race.ext ?_ (funext fun who => ?_)
  · exact congrArg (fun receiver => Host.mk receiver (writes host calls [w, !w])) hcommits
  · rw [overlapped_phase, overlapped_phase]
    by_cases hwho : goes_through host calls who = true
    · rw [if_pos hwho, if_pos hwho, hone who c hwho, hone who c' hwho]
    · rw [if_neg hwho, if_neg hwho]

/-- If not both writes succeed, at most one call commits. -/
theorem filter_not_all (good : Bool → Bool) (h : ¬ ∀ who, good who = true) (c c' : Bool) :
    [c, !c].filter good = [c', !c'].filter good := by
  have hbad : good false = false ∨ good true = false := by
    by_contra hnot
    rw [not_or, Bool.not_eq_false, Bool.not_eq_false] at hnot
    exact h (fun who => by cases who; exacts [hnot.1, hnot.2])
  rcases hbad with hbad | hbad <;> cases c <;> cases c' <;> simp [List.filter_cons, hbad]

/-- A call that succeeds has put all of its data. -/
theorem reaches_of_succeeds {call : ChunkCall} (h : call.Succeeds) :
    call.reaches = call.chunk.data := reaches_succeeds call.io _ _ h

/-- If the writes do not commute, the chunks go to one file that is there, and
differ. -/
theorem not_comm (w : Bool) (h : writes host calls [w, !w] ≠ writes host calls [!w, w]) :
    looked_path host (calls true).chunk = looked_path host (calls false).chunk ∧
      (∃ old, host.disk (looked_path host (calls true).chunk) = some old) ∧
      ¬ WritesAgree calls := by
  have hfile : ∃ old, host.disk (looked_path host (calls w).chunk) = some old ∧
      looked_path host (calls w).chunk = looked_path host (calls !w).chunk := by
    by_contra hnot
    exact h (writes_comm_apart host calls w (fun old hold hpath => hnot ⟨old, hold, hpath⟩))
  obtain ⟨old, hold, hpath⟩ := hfile
  refine ⟨?_, ?_, fun hagree => h ((writes_comm_agree w hpath old hold).mpr hagree)⟩
  · cases w
    · exact hpath.symm
    · exact hpath
  · cases w
    · exact ⟨old, (congrArg host.disk hpath).symm.trans hold⟩
    · exact ⟨old, hold⟩

/-- Chunks for one file go to one place, since both lookups read it off one entry. -/
theorem SameFile.path (hboth : BothInTurn host calls) (hsame : SameFile calls) (who : Bool) :
    looked_path host (calls who).chunk = looked_path host (calls !who).chunk := by
  obtain ⟨p, hi, hfound⟩ := hboth.found who
  obtain ⟨p', hi', hfound'⟩ := hboth.found (!who)
  obtain rfl := hfound.same_entry hfound' (hsame.id who).1
  rw [hfound.path, hfound'.path]
  simp only [(hsame.id who).2]

/-- Chunks for one file meet, if it is there. -/
theorem SameFile.meet (hboth : BothInTurn host calls) (hsame : SameFile calls) (who : Bool)
    (hgoes : goes_through host calls who = true) : ∃ p index, Meet host calls p index := by
  obtain ⟨⟨old, hold⟩, -⟩ := (goes_through_iff host calls who).mp hgoes
  refine meet_of hboth hsame.1 (SameFile.path hboth hsame true) ⟨old, ?_⟩
  cases who
  · rw [SameFile.path hboth hsame true]
    exact hold
  · exact hold

/-- In different transfers a result does not depend on the other commit. -/
theorem result_other (hboth : BothInTurn host calls) (a : Bool)
    (hid : (calls !a).chunk.transfer_id ≠ (calls a).chunk.transfer_id) :
    (commit_by blake3 host calls (commits blake3 host calls [a]) (!a)).2
      = (commit_by blake3 host calls host.receiver (!a)).2 := by
  obtain ⟨p, hi, hfound⟩ := hboth.found a
  obtain ⟨p', hi', hfound'⟩ := hboth.found (!a)
  rw [commit_second_other blake3 hfound hfound' hid,
    commit_by_known blake3 host.receiver (!a) p' hfound'.entry hi' hfound'.hasher.symm]

section Results

variable {p : RecvProgress}
  {index : ∀ who, (calls who).chunk.file_index.toNat < p.manifest.files.length}

/-- What the call that commits first returns. -/
theorem Meet.first_result (h : Meet host calls p index) (a : Bool) :
    (commit_by blake3 host calls host.receiver a).2
      = if (calls a).chunk.is_last ∧
            blake3 ((p.hasher _ (index a)).absorbed ++ (calls a).chunk.data)
              ≠ (p.entry _ (index a)).blake3 then
          .error (.blake3_mismatch (p.entry _ (index a)).relative_path)
        else .ok (p.bytes_received.toList.sum + UInt64.ofNat (calls a).chunk.data.length) := by
  rw [commit_by_known blake3 host.receiver a p (h.found a).entry (index a) (h.found a).hasher.symm]
  exact verdict_advance blake3 p _ (index a) _ _

/-- What the call that commits second returns, for another file. -/
theorem Meet.second_result (h : Meet host calls p index) (hapart : ¬ SameFile calls) (a : Bool) :
    (commit_by blake3 host calls (commits blake3 host calls [a]) (!a)).2
      = if (calls !a).chunk.is_last ∧
            blake3 ((p.hasher _ (index !a)).absorbed ++ (calls !a).chunk.data)
              ≠ (p.entry _ (index !a)).blake3 then
          .error (.blake3_mismatch (p.entry _ (index !a)).relative_path)
        else .ok (p.bytes_received.toList.sum + UInt64.ofNat (calls a).chunk.data.length
          + UInt64.ofNat (calls !a).chunk.data.length) := by
  have hid : (calls !a).chunk.transfer_id = (calls a).chunk.transfer_id := by
    cases a
    · exact h.transfer
    · exact h.transfer.symm
  have hne := index_ne_of_not_same hapart a hid
  have hverdict := verdict_advance blake3 (p.advance _ (index a) (calls a).chunk.data) _
    (index !a) (calls !a).chunk.data (calls !a).chunk.is_last
  rw [advance_hasher_ne p _ _ (index a) (index !a) _ hne, advance_sum] at hverdict
  rw [commit_second_same blake3 (h.found a) (h.found !a) hid hne]
  exact hverdict

end Results

/-- Runs that write in the order in which they commit are serial, unless the
first call disturbs the second. -/
theorem serial_of_orders (hboth : BothInTurn host calls) (w c : Bool)
    (hwrites : writes host calls [w, !w] = writes host calls [c, !c])
    (hund : Undisturbed blake3 host calls c) :
    ∃ first, overlapped blake3 host calls w c = serial blake3 host calls first :=
  ⟨c, (overlapped_writes blake3 w c c hwrites).trans
    (serial_eq_overlapped blake3 host calls hboth c hund).symm⟩

/-- Where the writes agree, their order does not matter. -/
theorem writes_of_agree (hagree : WritesAgree calls) (w w' : Bool) :
    writes host calls [w, !w] = writes host calls [w', !w'] := by
  rcases Bool.eq_or_eq_not w w' with rfl | rfl
  · rfl
  · by_contra hne
    rw [Bool.not_not] at hne
    exact (not_comm w' (Ne.symm hne)).2.2 hagree

/-- Of two files, the results tell the order of the commits only if the chunks
clash. -/
theorem results_of_no_clash (hclash : ¬ Clash blake3 host calls) (hboth : BothInTurn host calls)
    (hall : ∀ who, goes_through host calls who = true) (hsame : ¬ SameFile calls) (w : Bool)
    (hwrites : writes host calls [w, !w] ≠ writes host calls [!w, w]) (a : Bool) :
    (commit_by blake3 host calls (commits blake3 host calls [a]) (!a)).2
      = (commit_by blake3 host calls host.receiver (!a)).2 := by
  obtain ⟨hpath, hfile, hdiffer⟩ := not_comm w hwrites
  by_cases hid : (calls true).chunk.transfer_id = (calls false).chunk.transfer_id
  · -- both are refused by their hash, in whatever order
    obtain ⟨p, index, hmeet⟩ := meet_of hboth hid hpath hfile
    have hindex : (calls true).chunk.file_index ≠ (calls false).chunk.file_index :=
      fun h => hsame ⟨hid, h⟩
    have hsucceeds : ∀ who, (calls who).Succeeds := fun who => (hmeet.goes who).mp (hall who)
    have hfails : ∀ who, ¬ Passes blake3 (calls who).chunk p (index who) := fun who h =>
      hclash ⟨p, index, hmeet, .inr ⟨hindex, hsucceeds, hdiffer, who, h⟩⟩
    have hrefused := Classical.not_imp.mp (hfails !a)
    rw [hmeet.second_result blake3 hsame a, hmeet.first_result blake3 (!a), if_pos hrefused,
      if_pos hrefused]
  · refine result_other blake3 hboth a ?_
    cases a
    · exact hid
    · exact Ne.symm hid

/-- Both calls write. -/
theorem serial_of_both_write (hclash : ¬ Clash blake3 host calls) (hboth : BothInTurn host calls)
    (hall : ∀ who, goes_through host calls who = true) (w c : Bool) :
    ∃ first, overlapped blake3 host calls w c = serial blake3 host calls first := by
  by_cases hsame : SameFile calls
  · -- there is nothing in either chunk
    obtain ⟨p, index, hmeet⟩ := SameFile.meet hboth hsame true (hall true)
    have hsucceeds : ∀ who, (calls who).Succeeds := fun who => (hmeet.goes who).mp (hall who)
    have hnil : ∀ who, (calls who).chunk.data = [] := by
      by_contra hdata
      exact hclash ⟨p, index, hmeet, .inl ⟨hsame.2, .inl ⟨hsucceeds, not_forall.mp hdata⟩⟩⟩
    have hagree : WritesAgree calls :=
      coincide_nil (.inl ((reaches_of_succeeds (hsucceeds true)).trans (hnil true)))
    exact serial_of_orders blake3 hboth w c (writes_of_agree hagree w c)
      (undisturbed_of blake3 hboth c (.inr (hnil c)))
  · have hund : ∀ first, Undisturbed blake3 host calls first := fun first =>
      undisturbed_of blake3 hboth first (.inl hsame)
    by_cases hwrites : writes host calls [w, !w] = writes host calls [c, !c]
    · exact serial_of_orders blake3 hboth w c hwrites (hund c)
    · obtain rfl : c = !w := Bool.eq_not.mpr (fun h => hwrites (by rw [h]))
      rw [Bool.not_not] at hwrites
      have hfilter : ∀ c, [c, !c].filter (goes_through host calls) = [c, !c] := fun c =>
        List.filter_eq_self.mpr (fun who _ => hall who)
      -- the files tell the order of the writes, so the commits take the same one
      have hcommits : overlapped blake3 host calls w (!w) = overlapped blake3 host calls w w := by
        refine overlapped_commits blake3 w (!w) w ?_ (fun a _ _ =>
          results_of_no_clash blake3 hclash hboth hall hsame w hwrites a)
        rw [hfilter, hfilter, Bool.not_not, commits_swap blake3 hboth hsame w]
      exact ⟨w, hcommits.trans (serial_eq_overlapped blake3 host calls hboth w (hund w)).symm⟩

/-- One of the calls fails in its write. -/
theorem serial_of_one_fails (hclash : ¬ Clash blake3 host calls) (hboth : BothInTurn host calls)
    (hnot : ¬ ∀ who, goes_through host calls who = true) (w c : Bool) :
    ∃ first, overlapped blake3 host calls w c = serial blake3 host calls first := by
  have hpair : ∀ a, goes_through host calls a = true → ¬ goes_through host calls (!a) = true := by
    intro a ha hb
    refine hnot (fun who => ?_)
    rcases Bool.eq_or_eq_not who a with rfl | rfl
    · exact ha
    · exact hb
  -- at most one of the calls commits, so there is no order of commits to tell
  have hcommits : ∀ w c', overlapped blake3 host calls w c = overlapped blake3 host calls w c' :=
    fun w c' => overlapped_commits blake3 w c c'
      (by rw [filter_not_all (goes_through host calls) hnot c c'])
      (fun a ha hb => absurd hb (hpair a ha))
  by_cases hund : Undisturbed blake3 host calls w
  · exact ⟨w, (hcommits w w).trans (serial_eq_overlapped blake3 host calls hboth w hund).symm⟩
  · -- the first write succeeds and moves the offset, the other one fails
    obtain ⟨hgoes, -⟩ := Classical.not_imp.mp hund
    have hmoved : SameFile calls := by
      by_contra hsame
      exact hund (undisturbed_of blake3 hboth w (.inl hsame))
    have hother := hpair w hgoes
    obtain ⟨p, index, hmeet⟩ := SameFile.meet hboth hmoved w hgoes
    have hagree : WritesAgree calls := by
      by_contra hdiffer
      exact hclash ⟨p, index, hmeet, .inl ⟨hmoved.2, .inr ⟨⟨w, (hmeet.goes w).mp hgoes,
        fun h => hother ((hmeet.goes !w).mpr h)⟩, hdiffer⟩⟩⟩
    have hwrites : overlapped blake3 host calls w c = overlapped blake3 host calls (!w) c :=
      overlapped_writes blake3 w (!w) c (writes_of_agree hagree w (!w))
    exact ⟨!w, (hwrites.trans (hcommits (!w) (!w))).trans
      (serial_eq_overlapped blake3 host calls hboth (!w) (fun h => absurd h hother)).symm⟩

/-- **Without a clash** every overlapping run ends as a serial one. -/
theorem serial_of_no_clash (hclash : ¬ Clash blake3 host calls) (hboth : BothInTurn host calls)
    (w c : Bool) : ∃ first, overlapped blake3 host calls w c = serial blake3 host calls first := by
  by_cases hall : ∀ who, goes_through host calls who = true
  · exact serial_of_both_write blake3 hclash hboth hall w c
  · exact serial_of_one_fails blake3 hclash hboth hall w c

/-! ### With a clash

For each way to clash one order is shown that no serial run ends like. -/

/-- A commit does not look at the offset. -/
theorem commit_not_out_of_order (receiver : Receiver) (who : Bool) (expected offset : UInt64) :
    (commit_by blake3 host calls receiver who).2
      ≠ .error (.chunk_out_of_order expected offset) := by
  intro h
  rw [commit_by, Receiver.commit] at h
  split at h
  · cases h
  · split at h
    · dsimp only at h
      split_ifs at h
      cases h
    · cases h

/-- The hasher of a file, if there is one. -/
def hasher_at (receiver : Receiver) (t : UInt64) (i : Nat) : Option Hasher :=
  (receiver.transfers t).bind (fun p => p.hashers.toList[i]?)

/-- The last commit decides on the hasher. -/
theorem commit_by_hasher (host : Host) (receiver : Receiver) (who : Bool) (q : RecvProgress)
    (hq : receiver.transfers (calls who).chunk.transfer_id = some q)
    (hi : (calls who).chunk.file_index.toNat < q.manifest.files.length) :
    hasher_at (commit_by blake3 host calls receiver who).1 (calls who).chunk.transfer_id
        (calls who).chunk.file_index.toNat
      = some ((looked_hasher host (calls who).chunk).update (calls who).chunk.data) := by
  simp [hasher_at, commit_by, Receiver.commit, hq, hi, Receiver.insert, Vector.toList_set]

section Meets

variable {p : RecvProgress}
  {index : ∀ who, (calls who).chunk.file_index.toNat < p.manifest.files.length}

/-- One after the other, the second chunk of one file is out of order. -/
theorem Meet.serial_rejects (h : Meet host calls p index)
    (hindex : (calls true).chunk.file_index = (calls false).chunk.file_index) (first : Bool)
    (hsucceeds : (calls first).Succeeds) (hdata : (calls first).chunk.data ≠ []) :
    ∃ expected offset, (serial blake3 host calls first).phase (!first)
      = .returned (.error (.chunk_out_of_order expected offset)) := by
  obtain ⟨hid, hsame⟩ := SameFile.id ⟨h.transfer, hindex⟩ first
  have hrun := run_in_turn blake3 host calls h.bothInTurn first host.receiver host.disk rfl
    (fun _ => rfl)
  rw [if_pos ((h.goes first).mpr hsucceeds)] at hrun
  have hreceiver : (commit_by blake3 host calls host.receiver first).1
      = host.receiver.insert (calls first).chunk.transfer_id
          (p.advance (calls first).chunk.file_index.toNat (index first) (calls first).chunk.data) :=
    commits_one blake3 (h.found first)
  -- the offset of the file has moved
  have hmoved : (calls !first).chunk.offset
      ≠ (p.advance (calls first).chunk.file_index.toNat (index first)
          (calls first).chunk.data).received (calls !first).chunk.file_index.toNat
            (index !first) := by
    have hat : ∀ (q : RecvProgress) (j : Nat) (hj : j < q.manifest.files.length)
        (hi : (calls first).chunk.file_index.toNat < q.manifest.files.length),
        j = (calls first).chunk.file_index.toNat → q.received j hj = q.received _ hi := by
      rintro q j hj hi rfl
      rfl
    have hindex' : (calls !first).chunk.file_index.toNat
        = (calls first).chunk.file_index.toNat := by rw [hsame]
    have hfit : (p.received _ (index first)).toNat + (calls first).chunk.data.length ≤ MAX_FILE := by
      rw [← h.offset first]
      exact hsucceeds.2.2.2.2
    rw [h.offset !first, hat p _ (index !first) (index first) hindex',
      hat (p.advance _ (index first) _) _ (index !first) (index first) hindex']
    exact (advance_moves p _ (index first) _ hdata hfit).symm
  have hnext := write_chunk_known blake3
    ⟨(commit_by blake3 host calls host.receiver first).1, (write_by host calls host.disk first).1⟩
    (calls !first).chunk (calls !first).io
    (p.advance (calls first).chunk.file_index.toNat (index first) (calls first).chunk.data)
    (by rw [hreceiver, hid]; exact Function.update_self _ _ _) (index !first)
  rw [if_pos hmoved] at hnext
  have hsecond : (serial blake3 host calls first).phase (!first)
      = .returned ((calls !first).run blake3 ((calls first).run blake3 host).1).2 :=
    congrArg CallPhase.returned (if_neg (Bool.not_ne_self first))
  have hhost : ((calls first).run blake3 host).1
      = ⟨(commit_by blake3 host calls host.receiver first).1,
          (write_by host calls host.disk first).1⟩ := congrArg Prod.fst hrun
  rw [hhost, ChunkCall.run, hnext] at hsecond
  exact ⟨_, _, hsecond⟩

/-- Of two chunks for one file, the hasher is that of the last commit. -/
theorem Meet.last_hasher (h : Meet host calls p index)
    (hindex : (calls true).chunk.file_index = (calls false).chunk.file_index) (a : Bool) :
    hasher_at (commits blake3 host calls [a, !a]) (calls true).chunk.transfer_id
        (calls true).chunk.file_index.toNat
      = some ((p.hasher (calls true).chunk.file_index.toNat (index true)).update
          (calls !a).chunk.data) := by
  have hpair : commits blake3 host calls [a, !a]
      = (commit_by blake3 host calls (commits blake3 host calls [a]) (!a)).1 := rfl
  obtain ⟨hid, hsame⟩ := SameFile.id ⟨h.transfer, hindex⟩ a
  have hlast := commit_by_hasher blake3 host (commits blake3 host calls [a]) (!a)
    (p.advance _ (index a) (calls a).chunk.data)
    (by rw [commits_one blake3 (h.found a), hid]; exact Function.update_self _ _ _) (index !a)
  rw [(h.found !a).hasher] at hlast
  rw [hpair]
  cases a
  · exact hlast
  · simp only [h.transfer, hindex]
    exact hlast

/-- Of two chunks for one file that both write, neither order is that of a serial
run. -/
theorem Meet.both_absorbed (h : Meet host calls p index)
    (hindex : (calls true).chunk.file_index = (calls false).chunk.file_index)
    (hsucceeds : ∀ who, (calls who).Succeeds) (x : Bool) (hdata : (calls x).chunk.data ≠ [])
    (first : Bool) : overlapped blake3 host calls x x ≠ serial blake3 host calls first := by
  have hgoes : ∀ who, goes_through host calls who = true := fun who =>
    (h.goes who).mpr (hsucceeds who)
  -- both results come from commits
  have hresult : ∀ who expected offset, (overlapped blake3 host calls x x).phase who
      ≠ .returned (.error (.chunk_out_of_order expected offset)) := by
    intro who expected offset heq
    rw [overlapped_phase, if_pos (hgoes who)] at heq
    exact commit_not_out_of_order blake3 _ who expected offset (CallPhase.returned.inj heq)
  intro heq
  by_cases hmoves : (calls first).chunk.data = []
  · -- then `x` is the other call, and its hasher is the one that stays
    have hother : x = !first := by
      refine Bool.eq_not.mpr ?_
      rintro rfl
      exact hdata hmoves
    subst hother
    rw [serial_eq_overlapped blake3 host calls h.bothInTurn first
      (undisturbed_of blake3 h.bothInTurn first (.inr hmoves))] at heq
    have hfilter : ∀ l : List Bool, l.filter (goes_through host calls) = l := fun l =>
      List.filter_eq_self.mpr (fun who _ => hgoes who)
    have hreceiver : commits blake3 host calls [!first, first]
        = commits blake3 host calls [first, !first] := by
      have htable := congrArg (fun race => race.host.receiver) heq
      simp only [overlapped, overlap, hfilter, Bool.not_not] at htable
      exact htable
    have hlast := fun a => h.last_hasher blake3 hindex a
    have hsame := hlast first
    rw [← hreceiver] at hsame
    have hnow := hlast (!first)
    rw [Bool.not_not] at hnow
    rw [hnow] at hsame
    have habsorbed := congrArg Hasher.absorbed (Option.some.inj hsame)
    rw [hmoves] at habsorbed
    exact hdata (List.append_cancel_left habsorbed).symm
  · obtain ⟨expected, offset, hrejected⟩ :=
      h.serial_rejects blake3 hindex first (hsucceeds first) hmoves
    rw [← heq] at hrejected
    exact hresult _ expected offset hrejected

/-- Of two chunks for one file, one of which fails in its write: if the failing
one puts something else there after the other, no serial run does so. -/
theorem Meet.one_absorbed (h : Meet host calls p index)
    (hindex : (calls true).chunk.file_index = (calls false).chunk.file_index) (x : Bool)
    (hsucceeds : (calls x).Succeeds) (hfails : ¬ (calls !x).Succeeds)
    (hdiffer : ¬ WritesAgree calls) (first : Bool) :
    overlapped blake3 host calls x x ≠ serial blake3 host calls first := by
  have hgoes : ¬ goes_through host calls (!x) = true := fun hgoes => hfails ((h.goes !x).mp hgoes)
  intro heq
  rcases Bool.eq_or_eq_not first x with rfl | rfl
  · -- the failing call is out of order, not failing
    have hdata : (calls first).chunk.data ≠ [] := by
      intro hnil
      rw [← reaches_of_succeeds hsucceeds] at hnil
      refine hdiffer (coincide_nil ?_)
      cases first
      · exact .inr hnil
      · exact .inl hnil
    obtain ⟨expected, offset, hrejected⟩ := h.serial_rejects blake3 hindex first hsucceeds hdata
    rw [← heq, overlapped_phase, if_neg hgoes] at hrejected
    cases hrejected
  · -- with the failing call first, `x` writes last
    rw [serial_eq_overlapped blake3 host calls h.bothInTurn (!x)
      (fun hthrough => absurd hthrough hgoes)] at heq
    obtain ⟨old, hold⟩ := (goes_through_iff host calls x).mp ((h.goes x).mpr hsucceeds) |>.1
    have hdisk := congrArg (fun race => race.host.disk) heq
    refine hdiffer ((writes_comm_agree x (h.same_path x) old hold).mp ?_)
    simpa only [overlapped, overlap, Bool.not_not] using hdisk

/-- Of two chunks for two files at one place: written in one order and committed
in the other, they end as no serial run does. -/
theorem Meet.crossed (h : Meet host calls p index)
    (hindex : (calls true).chunk.file_index ≠ (calls false).chunk.file_index)
    (hsucceeds : ∀ who, (calls who).Succeeds) (hdiffer : ¬ WritesAgree calls) (x : Bool)
    (hpasses : Passes blake3 (calls x).chunk p (index x)) (first : Bool) :
    overlapped blake3 host calls (!x) x ≠ serial blake3 host calls first := by
  have hgoes : ∀ who, goes_through host calls who = true := fun who =>
    (h.goes who).mpr (hsucceeds who)
  have hapart : ¬ SameFile calls := fun hsame => hindex hsame.2
  obtain ⟨old, hold⟩ := (goes_through_iff host calls x).mp (hgoes x) |>.1
  intro heq
  rw [serial_eq_overlapped blake3 host calls h.bothInTurn first
    (undisturbed_of blake3 h.bothInTurn first (.inl hapart))] at heq
  rcases Bool.eq_or_eq_not first x with rfl | rfl
  · -- the files tell the order of the writes
    have hdisk := congrArg (fun race => race.host.disk) heq
    refine hdiffer ((writes_comm_agree first (h.same_path first) old hold).mp ?_)
    simpa only [overlapped, overlap, Bool.not_not] using hdisk.symm
  · -- the sum that `x` returns tells the order of the commits
    have hpass : ¬ ((calls x).chunk.is_last = true ∧
        blake3 ((p.hasher _ (index x)).absorbed ++ (calls x).chunk.data)
          ≠ (p.entry _ (index x)).blake3) := fun hbad => hbad.2 (hpasses hbad.1)
    have hfirst : (overlapped blake3 host calls (!x) x).phase x = .returned
        (.ok (p.bytes_received.toList.sum + UInt64.ofNat (calls x).chunk.data.length)) := by
      rw [overlapped_phase, if_pos (hgoes x), if_pos rfl]
      refine congrArg CallPhase.returned ((h.first_result blake3 x).trans ?_)
      rw [if_neg hpass]
    have hsecond : (overlapped blake3 host calls (!x) (!x)).phase x = .returned
        (.ok (p.bytes_received.toList.sum + UInt64.ofNat (calls !x).chunk.data.length
          + UInt64.ofNat (calls x).chunk.data.length)) := by
      have hresult := h.second_result blake3 hapart (!x)
      simp only [Bool.not_not, if_neg hpass] at hresult
      rw [overlapped_phase, if_pos (hgoes x), if_neg (Bool.not_ne_self x).symm,
        List.filter_cons_of_pos (hgoes !x), List.filter_nil, hresult]
    rw [heq, hsecond] at hfirst
    have hsum := Except.ok.inj (CallPhase.returned.inj hfirst)
    have hzero : UInt64.ofNat (calls !x).chunk.data.length = 0 :=
      left_eq_add.mp (add_right_cancel hsum).symm
    have hfit := (hsucceeds !x).2.2.2.2
    -- the sums differ by the other chunk, so that one is empty and cannot differ
    have hnil : (calls !x).chunk.data = [] := by
      have hmod := congrArg UInt64.toNat hzero
      rw [UInt64.toNat_ofNat', Nat.mod_eq_of_lt (by rw [MAX_FILE] at hfit; omega)] at hmod
      exact List.length_eq_zero_iff.mp hmod
    have hreaches : (calls !x).reaches = [] := (reaches_of_succeeds (hsucceeds !x)).trans hnil
    refine hdiffer (coincide_nil ?_)
    cases x
    · exact .inl hreaches
    · exact .inr hreaches

end Meets

/-- **With a clash** some overlapping run ends as no serial one. -/
theorem not_serial_of_clash (hclash : Clash blake3 host calls) :
    BothInTurn host calls ∧
      ∃ w c, ∀ first, overlapped blake3 host calls w c ≠ serial blake3 host calls first := by
  obtain ⟨p, index, hmeet, hone | htwo⟩ := hclash
  · refine ⟨hmeet.bothInTurn, ?_⟩
    obtain ⟨hindex, ⟨hsucceeds, x, hdata⟩ | ⟨⟨x, hsucceeds, hfails⟩, hdiffer⟩⟩ := hone
    · exact ⟨x, x, hmeet.both_absorbed blake3 hindex hsucceeds x hdata⟩
    · exact ⟨x, x, hmeet.one_absorbed blake3 hindex x hsucceeds hfails hdiffer⟩
  · obtain ⟨hindex, hsucceeds, hdiffer, x, hpasses⟩ := htwo
    exact ⟨hmeet.bothInTurn, !x, x,
      hmeet.crossed blake3 hindex hsucceeds hdiffer x hpasses⟩

end Clash

/-- **Two concurrent calls of `write_chunk` are atomic exactly when their chunks
do not clash.** -/
theorem write_chunk_atomic_iff (host : Host) (calls : Bool → ChunkCall) :
    Atomic blake3 host calls ↔ ¬ Clash blake3 host calls := by
  rw [atomic_iff_overlapped]
  constructor
  · intro hatomic hclash
    obtain ⟨hboth, w, c, hdiffer⟩ := not_serial_of_clash blake3 hclash
    obtain ⟨first, heq⟩ := hatomic hboth w c
    exact hdiffer first heq
  · exact fun hclash hboth w c => serial_of_no_clash blake3 hclash hboth w c

/-- The host after an offer of a file of two bytes. -/
def two_bytes_begun : Host :=
  (one_file_host.begin 1 ⟨[⟨"a.bin", 2, Vector.replicate 32 9⟩], 2⟩ .ok).1

/-- The first byte of the file, sent by two peers. -/
def copies (_ : Bool) : ChunkCall := ⟨⟨1, 0, 0, [7], false⟩, .ok⟩

/-- **A chunk counted twice.** Both copies pass the check of the offset before
either is committed: one byte is in the file and two are taken for received. In
either order the second copy is out of order. -/
theorem copies_counted_twice :
    let race := exec (Race.step (fun _ => Vector.replicate 32 9) copies) (.start two_bytes_begun)
      [false, true, false, true, false, true]
    (race.map (fun r => r.host.resume_offsets 1) = some (some [2]) ∧
      race.map (fun r => r.host.disk ["drop", "a.bin"]) = some (some [7])) ∧
    (∀ first, (serial (fun _ => Vector.replicate 32 9) two_bytes_begun copies
      first).host.resume_offsets 1 = some [1]) ∧
    ¬ Atomic (fun _ => Vector.replicate 32 9) two_bytes_begun copies := by
  intro race
  have hoffsets : race.map (fun r => r.host.resume_offsets 1) = some (some [2]) := by
    decide
  have hserial : ∀ first, (serial (fun _ => Vector.replicate 32 9) two_bytes_begun copies
      first).host.resume_offsets 1 = some [1] := by decide
  -- every serial run ends with one byte counted, and this one with two
  refine ⟨⟨hoffsets, by decide⟩, hserial, fun hatomic => ?_⟩
  obtain ⟨r, hr, hreceived⟩ := Option.map_eq_some_iff.mp hoffsets
  have hdone : r.Done := by
    obtain rfl := Option.some.inj hr
    intro who
    cases who
    · exact ⟨_, rfl⟩
    · exact ⟨_, rfl⟩
  obtain ⟨first, rfl⟩ := hatomic _ r hr hdone
  rw [hserial first] at hreceived
  exact absurd hreceived (by decide)

end InputSync
