/-
Two calls of `write_chunk` at the same time, as the inbound loops of two peers
make them on one receiver.

The lock is held while a chunk is looked up, and again while it is committed;
the file is written in between without it. A call is atomic when every
interleaving of these phases ends as the two calls do one after the other.

Where it is not, both chunks were in turn before either call: a run either is
a serial one, or both calls look up first and then write in some order and
commit in some order (`race_cases`), and every pair of orders is possible
(`overlapped_reachable`). `ChunkClash` compares these with the serial runs.
-/
import InputSync.FailedCalls

set_option autoImplicit false

namespace InputSync

/-! ## The phases of a call

`write_chunk` takes the lock twice, and the file is written between the two sections. A
call therefore has three phases, and another call may come between any two of them. -/

/-- A call, with what the file system does during it. -/
structure ChunkCall where
  chunk : FileChunk
  io : WriteIo

/-- How far a call has come. -/
inductive CallPhase
  | called
  | looked_up (path : Path) (hasher : Hasher)
  | written (new_hasher : Hasher)
  | returned (result : Except TransferError UInt64)

variable (blake3 : List UInt8 → Hash)

/-- One phase of `write_chunk`: the lookup with the check of the offset, the
write, or the commit. -/
def call_step (call : ChunkCall) (host : Host) : CallPhase → Option (Host × CallPhase)
  | .called =>
    match host.receiver.lookup call.chunk with
    | .error e => some (host, .returned (.error e))
    | .ok (path, expected_offset, hasher) =>
      -- the lock is given up before the comparison, so this is the offset of the lookup
      if call.chunk.offset ≠ expected_offset then
        some (host, .returned (.error (.chunk_out_of_order expected_offset call.chunk.offset)))
      else some (host, .looked_up path hasher)
  | .looked_up path hasher =>
    match write_file host.disk path call.chunk.offset call.chunk.data call.io with
    | (disk, .error e) => some ({ host with disk }, .returned (.error e))
    | (disk, .ok ()) => some ({ host with disk }, .written (hasher.update call.chunk.data))
  | .written new_hasher =>
    -- added to the offset of now, while the hasher is that of the lookup
    let r := host.receiver.commit blake3 call.chunk new_hasher
    some ({ host with receiver := r.1 }, .returned r.2)
  | .returned _ => none

/-- The two calls `calls false` and `calls true`, on one host. -/
@[ext]
structure Race where
  host : Host
  phase : Bool → CallPhase

namespace Race

/-- The call `who` goes one phase further. -/
def step (calls : Bool → ChunkCall) (race : Race) (who : Bool) : Option Race :=
  (call_step blake3 (calls who) race.host (race.phase who)).map
    (fun r => { host := r.1, phase := Function.update race.phase who r.2 })

/-- Both calls have been made and nothing has happened yet. -/
def start (host : Host) : Race := { host, phase := fun _ => .called }

/-- Both calls have returned. -/
def Done (race : Race) : Prop := ∀ who, ∃ result, race.phase who = .returned result

end Race

/-- `Receiver::write_chunk`, as a whole. -/
def ChunkCall.run (self : ChunkCall) (host : Host) : Host × Except TransferError UInt64 :=
  host.write_chunk blake3 self.chunk self.io

/-- The end of the two calls one after the other. -/
def serial (host : Host) (calls : Bool → ChunkCall) (first : Bool) : Race :=
  let r := (calls first).run blake3 host
  let r' := (calls !first).run blake3 r.1
  { host := r'.1, phase := fun who => .returned (if who = first then r.2 else r'.2) }

/-- However the phases interleave, the table, the files and the results are
those of the calls in one order or the other. -/
def Atomic (host : Host) (calls : Bool → ChunkCall) : Prop :=
  ∀ schedule race, exec (Race.step blake3 calls) (.start host) schedule = some race → race.Done →
    ∃ first, race = serial blake3 host calls first

/-! ## A call that runs alone

First the call by itself: its three phases in a row are the function as the receiver has
it. -/

/-- The states a call comes to on a host that nothing else touches. -/
def Alone (call : ChunkCall) (host host' : Host) : CallPhase → Prop
  | .called => host' = host
  | .looked_up path hasher =>
    host' = host ∧ host.receiver.lookup call.chunk = .ok (path, call.chunk.offset, hasher)
  | .written new_hasher => ∃ path hasher,
    host.receiver.lookup call.chunk = .ok (path, call.chunk.offset, hasher) ∧
    write_file host.disk path call.chunk.offset call.chunk.data call.io = (host'.disk, .ok ()) ∧
    host'.receiver = host.receiver ∧ new_hasher = hasher.update call.chunk.data
  | .returned result => call.run blake3 host = (host', result)

/-- A call in turn, as a whole. -/
theorem run_looked_up (call : ChunkCall) (host : Host) (path : Path) (hasher : Hasher)
    (h : host.receiver.lookup call.chunk = .ok (path, call.chunk.offset, hasher)) :
    call.run blake3 host
      = match write_file host.disk path call.chunk.offset call.chunk.data call.io with
        | (disk, .error e) => ({ host with disk }, .error e)
        | (disk, .ok ()) =>
          let r := host.receiver.commit blake3 call.chunk (hasher.update call.chunk.data)
          ({ receiver := r.1, disk }, r.2) := by
  rw [ChunkCall.run, Host.write_chunk, h]
  exact if_neg (fun hne => hne rfl)

/-- What the first phase can do: refuse the chunk, or find it in turn. -/
theorem call_step_called (call : ChunkCall) (host : Host) :
    (∃ e, call_step blake3 call host .called = some (host, .returned (.error e)) ∧
      call.run blake3 host = (host, .error e)) ∨
    ∃ path hasher, call_step blake3 call host .called = some (host, .looked_up path hasher) ∧
      host.receiver.lookup call.chunk = .ok (path, call.chunk.offset, hasher) := by
  rw [call_step, ChunkCall.run, Host.write_chunk]
  cases hlook : host.receiver.lookup call.chunk with
  | error e => exact .inl ⟨e, rfl, rfl⟩
  | ok r =>
      obtain ⟨path, expected_offset, hasher⟩ := r
      dsimp only
      by_cases hoff : call.chunk.offset = expected_offset
      · rw [if_neg (not_not.mpr hoff), ← hoff]
        exact .inr ⟨path, hasher, rfl, rfl⟩
      · rw [if_pos hoff, if_pos hoff]
        exact .inl ⟨_, rfl, rfl⟩

/-- The first phase depends on the table only. -/
theorem call_step_called_congr (call : ChunkCall) (host host' : Host)
    (h : host'.receiver = host.receiver) :
    call_step blake3 call host' .called
      = (call_step blake3 call host .called).map (fun r => (host', r.2)) := by
  rw [call_step, call_step, h]
  split
  · rfl
  · split <;> rfl

/-- A call that is alone goes on as it would in one piece. So in a run where one call
begins after the other has returned, each of them is the whole function. -/
theorem Alone.step {call : ChunkCall} {host host' next : Host} {phase phase' : CallPhase}
    (h : Alone blake3 call host host' phase)
    (hstep : call_step blake3 call host' phase = some (next, phase')) :
    Alone blake3 call host next phase' := by
  -- phase by phase: what remains of the call, done without a break, ends as the whole
  -- call does
  cases phase with
  | called =>
      obtain rfl : host' = host := h
      rcases call_step_called blake3 call host' with ⟨e, heq, hrun⟩ | ⟨path, hasher, heq, hlook⟩
      · rw [heq] at hstep
        obtain ⟨rfl, rfl⟩ := Prod.mk.inj (Option.some.inj hstep)
        exact hrun
      · rw [heq] at hstep
        obtain ⟨rfl, rfl⟩ := Prod.mk.inj (Option.some.inj hstep)
        exact ⟨rfl, hlook⟩
  | looked_up path hasher =>
      obtain ⟨rfl, hlook⟩ := h
      rw [call_step] at hstep
      split at hstep
      · rename_i disk e hwrite
        obtain ⟨rfl, rfl⟩ := Prod.mk.inj (Option.some.inj hstep)
        rw [Alone, run_looked_up blake3 call host' path hasher hlook, hwrite]
      · rename_i disk hwrite
        obtain ⟨rfl, rfl⟩ := Prod.mk.inj (Option.some.inj hstep)
        exact ⟨path, hasher, hlook, hwrite, rfl, rfl⟩
  | written new_hasher =>
      obtain ⟨path, hasher, hlook, hwrite, hreceiver, rfl⟩ := h
      obtain ⟨rfl, rfl⟩ := Prod.mk.inj (Option.some.inj hstep)
      rw [Alone, run_looked_up blake3 call host path hasher hlook, hwrite, hreceiver]
  | returned result => cases hstep

/-! ## Both calls in turn

Then the runs in which both have passed their checks before either has changed anything.
Such a run is described by two lists, who has written and who has committed. -/

section Overlap

variable (host : Host) (calls : Bool → ChunkCall)

/-- What the lookup of a chunk in turn finds. -/
def looked_path (host : Host) (chunk : FileChunk) : Path :=
  match host.receiver.lookup chunk with
  | .ok (path, _, _) => path
  | .error _ => []

/-- The hasher, likewise. -/
def looked_hasher (host : Host) (chunk : FileChunk) : Hasher :=
  match host.receiver.lookup chunk with
  | .ok (_, _, hasher) => hasher
  | .error _ => .new

/-- The lookup of each call succeeds on the host as it is. -/
def BothInTurn : Prop := ∀ who,
  host.receiver.lookup (calls who).chunk
    = .ok (looked_path host (calls who).chunk, (calls who).chunk.offset,
        looked_hasher host (calls who).chunk)

/-- The write of one of the calls. -/
def write_by (disk : Disk) (who : Bool) : Disk × Except TransferError Unit :=
  write_file disk (looked_path host (calls who).chunk) (calls who).chunk.offset
    (calls who).chunk.data (calls who).io

/-- Its write succeeds. -/
def goes_through (who : Bool) : Bool := (write_by host calls host.disk who).2.isOk

/-- Its commit, after the lookup that was made before either call. -/
def commit_by (receiver : Receiver) (who : Bool) : Receiver × Except TransferError UInt64 :=
  receiver.commit blake3 (calls who).chunk
    ((looked_hasher host (calls who).chunk).update (calls who).chunk.data)

/-- The disk after the writes of these calls, in this order. -/
def writes (ws : List Bool) : Disk :=
  ws.foldl (fun disk who => (write_by host calls disk who).1) host.disk

/-- The table after their commits, in this order. -/
def commits (cs : List Bool) : Receiver :=
  cs.foldl (fun receiver who => (commit_by blake3 host calls receiver who).1) host.receiver

/-- The race after both lookups, the writes `ws` and the commits `cs`. -/
def overlap (ws cs : List Bool) : Race where
  host := { receiver := commits blake3 host calls cs, disk := writes host calls ws }
  phase who :=
    if who ∉ ws then
      .looked_up (looked_path host (calls who).chunk) (looked_hasher host (calls who).chunk)
    else if goes_through host calls who = false then .returned (.error .io)
    else if who ∉ cs then
      .written ((looked_hasher host (calls who).chunk).update (calls who).chunk.data)
    else
      .returned
        (commit_by blake3 host calls (commits blake3 host calls (cs.takeWhile (· != who))) who).2

/-- The end of a race in which both calls look up first, then write, `w` first,
and then commit, `c` first. -/
def overlapped (w c : Bool) : Race :=
  overlap blake3 host calls [w, !w] ([c, !c].filter (goes_through host calls))

end Overlap

section Steps

variable (host : Host) (calls : Bool → ChunkCall)

/-- No write creates or removes a file. -/
theorem write_file_isSome (disk : Disk) (path : Path) (offset : UInt64) (data : List UInt8)
    (io : WriteIo) (q : Path) :
    ((write_file disk path offset data io).1 q).isSome = (disk q).isSome := by
  cases hold : disk path with
  | none => rw [write_file, hold]
  | some old =>
      rw [write_file_some _ _ _ _ _ old hold]
      dsimp only
      by_cases hq : q = path
      · rw [hq, Function.update_self, hold]
        rfl
      · rw [Function.update_of_ne hq]

/-- However many writes there were, the same files are there. -/
theorem writes_isSome (ws : List Bool) (q : Path) :
    (writes host calls ws q).isSome = (host.disk q).isSome := by
  induction ws using List.reverseRecOn with
  | nil => rfl
  | append_singleton ws who ih =>
      rw [writes, List.foldl_append, List.foldl_cons, List.foldl_nil, write_by, write_file_isSome]
      exact ih

/-- Whether a write succeeds does not depend on the writes before. -/
theorem write_by_result (disk : Disk) (who : Bool)
    (h : ∀ q, (disk q).isSome = (host.disk q).isSome) :
    (write_by host calls disk who).2
      = if goes_through host calls who = true then .ok () else .error .io := by
  have hsome := h (looked_path host (calls who).chunk)
  rw [goes_through, write_by, write_by]
  cases hthere : host.disk (looked_path host (calls who).chunk) with
  | none =>
      rw [hthere, Option.isSome_none, Option.isSome_eq_false_iff, Option.isNone_iff_eq_none] at hsome
      rw [write_file, write_file, hsome, hthere]
      rfl
  | some old =>
      rw [hthere, Option.isSome_some, Option.isSome_iff_exists] at hsome
      obtain ⟨old', hold'⟩ := hsome
      rw [write_file_some _ _ _ _ _ old' hold', write_file_some _ _ _ _ _ old hthere]
      by_cases hio : (calls who).io.Succeeds (calls who).chunk.offset (calls who).chunk.data
      · rw [if_pos hio]
        rfl
      · rw [if_neg hio]
        rfl

/-- One write more. -/
theorem writes_concat (ws : List Bool) (who : Bool) :
    writes host calls (ws ++ [who]) = (write_by host calls (writes host calls ws) who).1 := by
  rw [writes, List.foldl_append]
  rfl

/-- One commit more. -/
theorem commits_concat (cs : List Bool) (who : Bool) :
    commits blake3 host calls (cs ++ [who])
      = (commit_by blake3 host calls (commits blake3 host calls cs) who).1 := by
  rw [commits, List.foldl_append]
  rfl

/-- A call that has not written writes. -/
theorem overlap_write (ws cs : List Bool) (who : Bool) (hws : who ∉ ws) (hcs : who ∉ cs) :
    (overlap blake3 host calls ws cs).step blake3 calls who
      = some (overlap blake3 host calls (ws ++ [who]) cs) := by
  have hphase : (overlap blake3 host calls ws cs).phase who
      = .looked_up (looked_path host (calls who).chunk) (looked_hasher host (calls who).chunk) :=
    if_pos hws
  have hothers : ∀ other, other ≠ who → (overlap blake3 host calls (ws ++ [who]) cs).phase other
      = (overlap blake3 host calls ws cs).phase other := by
    intro other hne
    simp only [overlap, List.mem_append, List.mem_singleton, hne, or_false]
  have hself : (overlap blake3 host calls (ws ++ [who]) cs).phase who
      = if goes_through host calls who = false then .returned (.error .io)
        else .written ((looked_hasher host (calls who).chunk).update (calls who).chunk.data) := by
    simp only [overlap, List.mem_append, List.mem_singleton, or_true, not_true_eq_false, if_false,
      hcs, not_false_eq_true, if_true]
  have hwrite : write_file (writes host calls ws) (looked_path host (calls who).chunk)
      (calls who).chunk.offset (calls who).chunk.data (calls who).io
      = (writes host calls (ws ++ [who]),
          if goes_through host calls who = true then .ok () else .error .io) :=
    Prod.ext (writes_concat host calls ws who).symm
      (write_by_result host calls _ who (writes_isSome host calls ws))
  have hdisk : (overlap blake3 host calls ws cs).host.disk = writes host calls ws := rfl
  rw [Race.step, hphase, call_step, hdisk, hwrite]
  -- the call ends here if its write fails, and else waits for its commit
  cases hgoes : goes_through host calls who with
  | false =>
      rw [hgoes, if_pos rfl] at hself
      refine congrArg some (Race.ext rfl (funext fun other => ?_))
      by_cases hne : other = who
      · subst hne
        exact (Function.update_self _ _ _).trans hself.symm
      · exact (Function.update_of_ne hne _ _).trans (hothers other hne).symm
  | true =>
      rw [hgoes, if_neg Bool.noConfusion] at hself
      refine congrArg some (Race.ext rfl (funext fun other => ?_))
      by_cases hne : other = who
      · subst hne
        exact (Function.update_self _ _ _).trans hself.symm
      · exact (Function.update_of_ne hne _ _).trans (hothers other hne).symm

/-- The commits before a call's own stay the same when later ones follow, -/
theorem takeWhile_before (cs more : List Bool) (who : Bool) (h : who ∈ cs) :
    (cs ++ more).takeWhile (· != who) = cs.takeWhile (· != who) := by
  induction cs with
  | nil => cases h
  | cons c cs ih =>
      by_cases hc : c = who
      · simp [hc]
      · have hcs : who ∈ cs := (List.mem_cons.mp h).resolve_left (Ne.symm hc)
        simp [hc, ih hcs]

/-- and for a call that commits now they are all there have been. With these two lemmas
the result of a call can be read off the order of the commits at the end. -/
theorem takeWhile_new (cs : List Bool) (who : Bool) (h : who ∉ cs) :
    (cs ++ [who]).takeWhile (· != who) = cs := by
  rw [List.takeWhile_append_of_pos (fun c hc => by simpa using ne_of_mem_of_not_mem hc h)]
  simp

/-- A call that has written commits. -/
theorem overlap_commit (ws cs : List Bool) (who : Bool) (hws : who ∈ ws)
    (hgoes : goes_through host calls who = true) (hcs : who ∉ cs) :
    (overlap blake3 host calls ws cs).step blake3 calls who
      = some (overlap blake3 host calls ws (cs ++ [who])) := by
  have hphase : (overlap blake3 host calls ws cs).phase who
      = .written ((looked_hasher host (calls who).chunk).update (calls who).chunk.data) := by
    simp only [overlap, hws, hgoes, hcs, not_true_eq_false, if_false, Bool.true_eq_false,
      not_false_eq_true, if_true]
  have hothers : ∀ other, other ≠ who → (overlap blake3 host calls ws (cs ++ [who])).phase other
      = (overlap blake3 host calls ws cs).phase other := by
    intro other hne
    by_cases hmem : other ∈ cs
    · simp only [overlap, List.mem_append, hmem, true_or, takeWhile_before cs [who] other hmem]
    · simp only [overlap, List.mem_append, List.mem_singleton, hne, hmem, or_false,
        not_false_eq_true, if_true]
  have hself : (overlap blake3 host calls ws (cs ++ [who])).phase who
      = .returned (commit_by blake3 host calls (commits blake3 host calls cs) who).2 := by
    simp only [overlap, hws, hgoes, List.mem_append, List.mem_singleton, or_true, not_true_eq_false,
      if_false, Bool.true_eq_false, takeWhile_new cs who hcs]
  have hreceiver : (overlap blake3 host calls ws cs).host.receiver = commits blake3 host calls cs :=
    rfl
  rw [Race.step, hphase, call_step, hreceiver]
  -- only the phase of this call changes; the other one stands where its place in the
  -- order says
  refine congrArg some (Race.ext ?_ (funext fun other => ?_))
  · exact congrArg (fun receiver => Host.mk receiver (writes host calls ws))
      (commits_concat blake3 host calls cs who).symm
  · by_cases hne : other = who
    · subst hne
      exact (Function.update_self _ _ _).trans hself.symm
    · exact (Function.update_of_ne hne _ _).trans (hothers other hne).symm

/-- A call that has returned does nothing more. -/
theorem overlap_returned (ws cs : List Bool) (who : Bool) (hws : who ∈ ws)
    (h : goes_through host calls who = false ∨ who ∈ cs) :
    (overlap blake3 host calls ws cs).step blake3 calls who = none := by
  have hphase : ∃ result, (overlap blake3 host calls ws cs).phase who = .returned result := by
    rcases h with h | h
    · exact ⟨.error .io, by simp only [overlap, hws, h, not_true_eq_false, if_false, if_true]⟩
    · cases hgoes : goes_through host calls who with
      | false =>
          exact ⟨.error .io, by simp only [overlap, hws, hgoes, not_true_eq_false, if_false, if_true]⟩
      | true =>
          refine ⟨(commit_by blake3 host calls
            (commits blake3 host calls (cs.takeWhile (· != who))) who).2, ?_⟩
          simp only [overlap, hws, hgoes, h, not_true_eq_false, if_false, Bool.true_eq_false]
  obtain ⟨result, hphase⟩ := hphase
  rw [Race.step, hphase]
  rfl

end Steps

/-! ## What a race can come to

Every run is at one of these stages. -/

section Stages

variable (host : Host) (calls : Bool → ChunkCall)

/-- One call has not begun or has returned while the other is on its way alone,
or both have looked up before either changed the table. -/
inductive RaceStage (race : Race) : Prop
  | solo (first : Bool) (between : Host)
      (hfirst : (race.phase first = .called ∧ between = host) ∨
        ∃ result, race.phase first = .returned result ∧
          (calls first).run blake3 host = (between, result))
      (hsecond : Alone blake3 (calls !first) between race.host (race.phase !first))
  | overlap (ws cs : List Bool) (hboth : BothInTurn host calls) (hws : ws.Nodup) (hcs : cs.Nodup)
      (hsub : ∀ who ∈ cs, who ∈ ws ∧ goes_through host calls who = true)
      (heq : race = overlap blake3 host calls ws cs)

variable {host calls}

/-- `looked_path` and `looked_hasher` name what a lookup returned, so that they can be
used after the table has changed. -/
theorem looked_eq {chunk : FileChunk} {offset : UInt64} {path : Path} {hasher : Hasher}
    (h : host.receiver.lookup chunk = .ok (path, offset, hasher)) :
    looked_path host chunk = path ∧ looked_hasher host chunk = hasher := by
  rw [looked_path, looked_hasher, h]
  exact ⟨rfl, rfl⟩

/-- Two lookups that succeeded make both calls in turn. -/
theorem bothInTurn_of (path : Bool → Path) (hasher : Bool → Hasher)
    (h : ∀ who, host.receiver.lookup (calls who).chunk
      = .ok (path who, (calls who).chunk.offset, hasher who)) : BothInTurn host calls := by
  intro who
  obtain ⟨hpath, hhasher⟩ := looked_eq (h who)
  rw [hpath, hhasher]
  exact h who

/-- What a step of the race does. -/
theorem Race.step_eq_some {race race' : Race} {who : Bool}
    (h : race.step blake3 calls who = some race') :
    call_step blake3 (calls who) race.host (race.phase who) = some (race'.host, race'.phase who) ∧
      ∀ other, other ≠ who → race'.phase other = race.phase other := by
  obtain ⟨r, hr, rfl⟩ := Option.map_eq_some_iff.mp h
  refine ⟨?_, fun other hne => Function.update_of_ne hne _ _⟩
  rw [hr]
  exact congrArg some (Prod.ext rfl (by dsimp only; rw [Function.update_self]))

/-- Both calls have looked up, and the second one `written` or not. -/
theorem RaceStage.both_looked_up (first : Bool) (race : Race) (path : Bool → Path)
    (hasher : Bool → Hasher)
    (hlook : ∀ who, host.receiver.lookup (calls who).chunk
      = .ok (path who, (calls who).chunk.offset, hasher who))
    (hfirst : race.phase first = .looked_up (path first) (hasher first))
    (hsecond : race.host = host ∧
        race.phase (!first) = .looked_up (path !first) (hasher !first) ∨
      race.host.receiver = host.receiver ∧
        write_by host calls host.disk (!first) = (race.host.disk, .ok ()) ∧
        race.phase (!first)
          = .written ((hasher !first).update (calls !first).chunk.data)) :
    RaceStage blake3 host calls race := by
  have hboth := bothInTurn_of path hasher hlook
  have hpath : ∀ who, looked_path host (calls who).chunk = path who := fun who =>
    (looked_eq (hlook who)).1
  have hhasher : ∀ who, looked_hasher host (calls who).chunk = hasher who := fun who =>
    (looked_eq (hlook who)).2
  have hne : first ≠ !first := (Bool.not_ne_self first).symm
  -- the other call has only looked up, or it has written as well
  rcases hsecond with ⟨hhost, hphase⟩ | ⟨hreceiver, hwrite, hphase⟩
  · refine .overlap [] [] hboth List.nodup_nil List.nodup_nil nofun (Race.ext hhost ?_)
    refine funext (fun who => ?_)
    simp only [InputSync.overlap, List.not_mem_nil, not_false_eq_true, if_true, hpath, hhasher]
    by_cases hwho : who = first
    · rw [hwho, hfirst]
    · rw [Bool.eq_not.mpr hwho, hphase]
  · have hgoes : goes_through host calls (!first) = true := by
      rw [goes_through, hwrite]
      rfl
    have hdisk : race.host.disk = writes host calls [!first] := by
      rw [writes, List.foldl_cons, List.foldl_nil, hwrite]
    refine .overlap [!first] [] hboth (List.nodup_singleton _) List.nodup_nil nofun ?_
    refine Race.ext ?_ (funext fun who => ?_)
    · obtain ⟨⟨receiver, disk⟩, phase⟩ := race
      obtain rfl : receiver = host.receiver := hreceiver
      obtain rfl : disk = writes host calls [!first] := hdisk
      rfl
    · simp only [InputSync.overlap, List.mem_singleton, List.not_mem_nil, not_false_eq_true, if_true,
        hpath, hhasher]
      by_cases hwho : who = first
      · rw [hwho, hfirst, if_pos hne]
      · obtain rfl : who = !first := Bool.eq_not.mpr hwho
        rw [hphase, if_neg (not_not.mpr rfl), if_neg (by rw [hgoes]; exact Bool.noConfusion)]

/-- A call looks up while the other one is between its lookup and its commit. -/
theorem RaceStage.second_lookup (first : Bool) (race race' : Race)
    (hcalled : race.phase first = .called)
    (hsecond : Alone blake3 (calls !first) host race.host (race.phase !first))
    (hon : race.phase (!first) ≠ .called ∧ ∀ result, race.phase (!first) ≠ .returned result)
    (hstep : race.step blake3 calls first = some race') : RaceStage blake3 host calls race' := by
  obtain ⟨hcall, hothers⟩ := Race.step_eq_some blake3 hstep
  have hsame := hothers (!first) (Bool.not_ne_self first)
  -- the table is still as it was
  have hmiddle : race.host.receiver = host.receiver ∧ ∃ path hasher,
      host.receiver.lookup (calls !first).chunk = .ok (path, (calls !first).chunk.offset, hasher) ∧
      (race.host = host ∧ race.phase (!first) = .looked_up path hasher ∨
        write_file host.disk path (calls !first).chunk.offset (calls !first).chunk.data
            (calls !first).io = (race.host.disk, .ok ()) ∧
          race.phase (!first) = .written (hasher.update (calls !first).chunk.data)) := by
    cases hphase : race.phase (!first) with
    | called => exact absurd hphase hon.1
    | returned result => exact absurd hphase (hon.2 result)
    | looked_up path hasher =>
        rw [hphase] at hsecond
        exact ⟨by rw [hsecond.1], path, hasher, hsecond.2, .inl ⟨hsecond.1, rfl⟩⟩
    | written new_hasher =>
        rw [hphase] at hsecond
        obtain ⟨path, hasher, hlook, hwrite, hreceiver, rfl⟩ := hsecond
        exact ⟨hreceiver, path, hasher, hlook, .inr ⟨hwrite, rfl⟩⟩
  obtain ⟨hreceiver, path, hasher, hlook, hwhere⟩ := hmiddle
  rw [hcalled, call_step_called_congr blake3 (calls first) host race.host hreceiver] at hcall
  rcases call_step_called blake3 (calls first) host with
    ⟨e, heq, hrun⟩ | ⟨path', hasher', heq, hlook'⟩
  · rw [heq] at hcall
    obtain ⟨hhost, hphase⟩ := Prod.mk.inj (Option.some.inj hcall)
    refine .solo first host (.inr ⟨.error e, hphase.symm, hrun⟩) ?_
    rw [← hhost, hsame]
    exact hsecond
  · rw [heq] at hcall
    obtain ⟨hhost, hphase⟩ := Prod.mk.inj (Option.some.inj hcall)
    have hlooks : ∀ who, host.receiver.lookup (calls who).chunk
        = .ok (if who = first then path' else path, (calls who).chunk.offset,
            if who = first then hasher' else hasher) := by
      intro who
      by_cases hwho : who = first
      · rw [if_pos hwho, if_pos hwho, hwho]
        exact hlook'
      · rw [if_neg hwho, if_neg hwho, Bool.eq_not.mpr hwho]
        exact hlook
    have hpath : (if (!first) = first then path' else path) = path :=
      if_neg (Bool.not_ne_self first)
    have hhasher : (if (!first) = first then hasher' else hasher) = hasher :=
      if_neg (Bool.not_ne_self first)
    refine .both_looked_up blake3 first race' _ _ hlooks ?_ ?_
    · rw [if_pos rfl, if_pos rfl]
      exact hphase.symm
    · rw [hpath, hhasher, hsame, ← hhost]
      refine hwhere.imp id (fun h => ⟨hreceiver, ?_, h.2⟩)
      rw [write_by, (looked_eq hlook).1]
      exact h.1

/-- After both lookups a call writes, commits or has returned. -/
theorem RaceStage.overlap_step (ws cs : List Bool) (hboth : BothInTurn host calls) (hws : ws.Nodup)
    (hcs : cs.Nodup) (hsub : ∀ who ∈ cs, who ∈ ws ∧ goes_through host calls who = true)
    (who : Bool) (race' : Race)
    (hstep : (InputSync.overlap blake3 host calls ws cs).step blake3 calls who = some race') :
    RaceStage blake3 host calls race' := by
  -- a call that has written may commit, and one that has not may write; one that has
  -- returned takes no step
  by_cases hmem : who ∈ ws
  · by_cases hdone : goes_through host calls who = false ∨ who ∈ cs
    · rw [overlap_returned blake3 host calls ws cs who hmem hdone] at hstep
      cases hstep
    · obtain ⟨hgoes, hnew⟩ := not_or.mp hdone
      rw [Bool.not_eq_false] at hgoes
      rw [overlap_commit blake3 host calls ws cs who hmem hgoes hnew] at hstep
      obtain rfl := Option.some.inj hstep
      refine .overlap ws (cs ++ [who]) hboth hws (List.concat_eq_append ▸ hcs.concat hnew) ?_ rfl
      intro x hx
      rcases List.mem_append.mp hx with hx | hx
      · exact hsub x hx
      · rw [List.mem_singleton.mp hx]
        exact ⟨hmem, hgoes⟩
  · have hnew : who ∉ cs := fun hcs => hmem (hsub who hcs).1
    rw [overlap_write blake3 host calls ws cs who hmem hnew] at hstep
    obtain rfl := Option.some.inj hstep
    refine .overlap (ws ++ [who]) cs hboth (List.concat_eq_append ▸ hws.concat hmem) hcs ?_ rfl
    exact fun x hx => ⟨List.mem_append_left _ (hsub x hx).1, (hsub x hx).2⟩

/-- The call that was to come first begins: before the other one, after it, or
in the middle of it. -/
theorem RaceStage.begin_step {race race' : Race} (who : Bool) (hcalled : race.phase who = .called)
    (hsecond : Alone blake3 (calls !who) host race.host (race.phase !who))
    (hstep : race.step blake3 calls who = some race') : RaceStage blake3 host calls race' := by
  obtain ⟨hcall, hothers⟩ := Race.step_eq_some blake3 hstep
  have hsame := hothers (!who) (Bool.not_ne_self who)
  -- this call is on its way alone, on the host as it is
  have halone : Alone blake3 (calls !(!who)) race.host race'.host (race'.phase !(!who)) := by
    have hnow : Alone blake3 (calls who) race.host race.host .called := rfl
    rw [Bool.not_not]
    exact hnow.step blake3 (hcalled ▸ hcall)
  by_cases hother : race.phase (!who) = .called
  · rw [hother] at hsecond
    exact .solo (!who) race.host (.inl ⟨hsame.trans hother, hsecond⟩) halone
  · by_cases hret : ∃ result, race.phase (!who) = .returned result
    · obtain ⟨result, hret⟩ := hret
      rw [hret] at hsecond
      exact .solo (!who) race.host (.inr ⟨result, hsame.trans hret, hsecond⟩) halone
    · exact RaceStage.second_lookup blake3 who race race' hcalled hsecond
        ⟨hother, fun result h => hret ⟨result, h⟩⟩ hstep

/-- Every step of the race keeps it at one of its stages. The cases are which call moves
and where the two stand; each of them is a lemma above. -/
theorem RaceStage.step {race race' : Race} (h : RaceStage blake3 host calls race) (who : Bool)
    (hstep : race.step blake3 calls who = some race') : RaceStage blake3 host calls race' := by
  cases h with
  | overlap ws cs hboth hws hcs hsub heq =>
      subst heq
      exact .overlap_step blake3 ws cs hboth hws hcs hsub who race' hstep
  | solo first between hfirst hsecond =>
      by_cases hwho : who = first
      · subst hwho
        rcases hfirst with ⟨hcalled, rfl⟩ | ⟨result, hreturned, -⟩
        · exact .begin_step blake3 who hcalled hsecond hstep
        · rw [Race.step, hreturned] at hstep
          cases hstep
      · obtain ⟨hcall, hothers⟩ := Race.step_eq_some blake3 hstep
        obtain rfl : who = !first := Bool.eq_not.mpr hwho
        refine .solo first between ?_ (hsecond.step blake3 hcall)
        rw [hothers first (Bool.not_ne_self first).symm]
        exact hfirst

/-- The stages along a whole run, by the invariant rule. -/
theorem race_stage_run (schedule : List Bool) (race : Race)
    (h : exec (Race.step blake3 calls) (.start host) schedule = some race) :
    RaceStage blake3 host calls race := by
  -- at the start either call may be the first one
  refine exec_invariant (Race.step blake3 calls) (RaceStage blake3 host calls) (.start host) race
    schedule ?_ (fun m n who _ hm hstep => hm.step blake3 who hstep) h
  exact .solo false host (.inl ⟨rfl, rfl⟩) rfl

/-! ### The end of a race

At the end both lists are complete, so each is one of two. -/

/-- A list of two calls without repetition is empty, one of them, or both in some order.
-/
theorem nodup_bool (l : List Bool) (hl : l.Nodup) :
    l = [] ∨ (∃ a, l = [a]) ∨ ∃ a, l = [a, !a] := by
  match l, hl with
  | [], _ => exact .inl rfl
  | [a], _ => exact .inr (.inl ⟨a, rfl⟩)
  | [a, b], hl =>
      have hne : a ≠ b := by simpa using hl
      exact .inr (.inr ⟨a, by rw [Bool.eq_not.mpr (Ne.symm hne)]⟩)
  | a :: b :: c :: rest, hl =>
      -- two of three are equal
      exfalso
      revert hl
      cases a <;> cases b <;> cases c <;> simp

/-- If both are in it, it is one of the two orders. -/
theorem nodup_both (l : List Bool) (hl : l.Nodup) (hall : ∀ who, who ∈ l) :
    ∃ first, l = [first, !first] := by
  rcases nodup_bool l hl with rfl | ⟨a, rfl⟩ | h
  · exact absurd (hall true) List.not_mem_nil
  · exact absurd (List.mem_singleton.mp (hall !a)) (Bool.not_ne_self a)
  · exact h

/-- The commits of a race that is over. -/
theorem commits_done (good : Bool → Bool) (cs : List Bool) (hcs : cs.Nodup)
    (hgood : ∀ who, who ∈ cs ↔ good who = true) : ∃ c, cs = [c, !c].filter good := by
  rcases nodup_bool cs hcs with rfl | ⟨a, rfl⟩ | ⟨a, rfl⟩
  · refine ⟨true, (List.filter_eq_nil_iff.mpr fun who _ hwho => ?_).symm⟩
    exact List.not_mem_nil ((hgood who).mpr hwho)
  · have hfirst : good a = true := (hgood a).mp (List.mem_singleton.mpr rfl)
    have hsecond : ¬ good (!a) = true := fun h =>
      Bool.not_ne_self a (List.mem_singleton.mp ((hgood _).mpr h))
    exact ⟨a, by rw [List.filter_cons_of_pos hfirst, List.filter_cons_of_neg hsecond,
      List.filter_nil]⟩
  · have hfirst : good a = true := (hgood a).mp (by simp)
    have hsecond : good (!a) = true := (hgood !a).mp (by simp)
    exact ⟨a, by rw [List.filter_cons_of_pos hfirst, List.filter_cons_of_pos hsecond,
      List.filter_nil]⟩

/-- **What a race comes to**: a serial run, or one in which both calls were in
turn and looked up first. -/
theorem race_cases (schedule : List Bool) (race : Race)
    (h : exec (Race.step blake3 calls) (.start host) schedule = some race) (hdone : race.Done) :
    (∃ first, race = serial blake3 host calls first) ∨
      BothInTurn host calls ∧ ∃ w c, race = overlapped blake3 host calls w c := by
  cases race_stage_run blake3 schedule race h with
  | solo first between hfirst hsecond =>
      left
      obtain ⟨result, hresult⟩ := hdone (!first)
      rw [hresult] at hsecond
      rcases hfirst with ⟨hcalled, -⟩ | ⟨result₁, hreturned, hrun⟩
      · obtain ⟨other, hother⟩ := hdone first
        rw [hcalled] at hother
        cases hother
      · refine ⟨first, Race.ext ?_ (funext fun who => ?_)⟩
        · rw [serial, hrun]
          exact (congrArg Prod.fst hsecond).symm
        · by_cases hwho : who = first
          · rw [hwho, hreturned, serial, hrun]
            exact congrArg CallPhase.returned (if_pos rfl).symm
          · rw [Bool.eq_not.mpr hwho, hresult, serial, hrun]
            refine congrArg CallPhase.returned (Eq.trans ?_ (if_neg (Bool.not_ne_self first)).symm)
            exact (congrArg Prod.snd hsecond).symm
  | overlap ws cs hboth hws hcs hsub heq =>
      right
      subst heq
      have hall : ∀ who, who ∈ ws := by
        intro who
        obtain ⟨result, hresult⟩ := hdone who
        by_contra hnot
        simp only [overlap, hnot, not_false_eq_true, if_true] at hresult
        cases hresult
      have hgood : ∀ who, who ∈ cs ↔ goes_through host calls who = true := by
        intro who
        refine ⟨fun hmem => (hsub who hmem).2, fun hgoes => ?_⟩
        obtain ⟨result, hresult⟩ := hdone who
        by_contra hnot
        simp only [overlap, hall who, hgoes, hnot, not_true_eq_false, if_false, Bool.true_eq_false,
          not_false_eq_true, if_true] at hresult
        cases hresult
      -- both have written, and those commit whose write succeeded
      obtain ⟨w, rfl⟩ := nodup_both ws hws hall
      obtain ⟨c, rfl⟩ := commits_done (goes_through host calls) cs hcs hgood
      exact ⟨hboth, w, c, rfl⟩

/-! ### Every pair of orders is possible

The converse: for any two orders there is a schedule with them. -/

variable (host calls)

/-- Any calls that have not written may write next, in any order, -/
theorem exec_writes (ws more cs : List Bool) (hws : (ws ++ more).Nodup)
    (hcs : ∀ who ∈ more, who ∉ cs) :
    exec (Race.step blake3 calls) (overlap blake3 host calls ws cs) more
      = some (overlap blake3 host calls (ws ++ more) cs) := by
  induction more generalizing ws with
  | nil => rw [List.append_nil, exec_nil]
  | cons who more ih =>
      have hnew : who ∉ ws := fun hmem =>
        (List.nodup_append.mp hws).2.2 who hmem who List.mem_cons_self rfl
      rw [List.append_cons] at hws ⊢
      rw [exec_cons, overlap_write blake3 host calls ws cs who hnew (hcs who List.mem_cons_self),
        Option.bind_some]
      exact ih (ws ++ [who]) hws (fun x hx => hcs x (List.mem_cons_of_mem _ hx))

/-- and any calls that have written may commit. -/
theorem exec_commits (ws cs more : List Bool) (hcs : (cs ++ more).Nodup)
    (hmore : ∀ who ∈ more, who ∈ ws ∧ goes_through host calls who = true) :
    exec (Race.step blake3 calls) (overlap blake3 host calls ws cs) more
      = some (overlap blake3 host calls ws (cs ++ more)) := by
  induction more generalizing cs with
  | nil => rw [List.append_nil, exec_nil]
  | cons who more ih =>
      have hnew : who ∉ cs := fun hmem =>
        (List.nodup_append.mp hcs).2.2 who hmem who List.mem_cons_self rfl
      obtain ⟨hws, hgoes⟩ := hmore who List.mem_cons_self
      rw [List.append_cons] at hcs ⊢
      rw [exec_cons, overlap_commit blake3 host calls ws cs who hws hgoes hnew, Option.bind_some]
      exact ih (cs ++ [who]) hcs (fun x hx => hmore x (List.mem_cons_of_mem _ hx))

/-- Both look up. -/
theorem exec_lookups (hboth : BothInTurn host calls) :
    exec (Race.step blake3 calls) (.start host) [false, true]
      = some (overlap blake3 host calls [] []) := by
  have hstep : ∀ who (phase : Bool → CallPhase), phase who = .called →
      Race.step blake3 calls ⟨host, phase⟩ who
        = some ⟨host, Function.update phase who
            (.looked_up (looked_path host (calls who).chunk)
              (looked_hasher host (calls who).chunk))⟩ := by
    intro who phase hphase
    rw [Race.step]
    dsimp only
    rw [hphase, call_step, hboth who]
    dsimp only
    rw [if_neg (fun hne => hne rfl)]
    rfl
  rw [exec_cons, Race.start, hstep false _ rfl, Option.bind_some, exec_cons, hstep true _ rfl,
    Option.bind_some, exec_nil]
  refine congrArg some (Race.ext rfl (funext fun who => ?_))
  cases who <;> rfl

/-- So for every pair of orders there is a schedule. -/
theorem overlapped_reachable (hboth : BothInTurn host calls) (w c : Bool) :
    ∃ schedule, exec (Race.step blake3 calls) (.start host) schedule
      = some (overlapped blake3 host calls w c) := by
  have hnodup : ∀ first : Bool, [first, !first].Nodup := by decide
  refine ⟨[false, true] ++ [w, !w] ++ [c, !c].filter (goes_through host calls), ?_⟩
  rw [exec_append, exec_append, exec_lookups blake3 host calls hboth, Option.bind_some,
    exec_writes blake3 host calls [] [w, !w] [] (hnodup w) (fun _ _ => List.not_mem_nil),
    Option.bind_some]
  refine exec_commits blake3 host calls _ [] _ ((hnodup c).filter _) (fun who hwho => ?_)
  refine ⟨?_, (List.mem_filter.mp hwho).2⟩
  rw [List.nil_append, List.mem_cons, List.mem_singleton]
  exact (Bool.eq_or_eq_not who w)

/-- At the end of such a schedule both calls have returned. -/
theorem overlapped_done (w c : Bool) : (overlapped blake3 host calls w c).Done := by
  intro who
  have hws : who ∈ [w, !w] := by
    rw [List.mem_cons, List.mem_singleton]
    exact Bool.eq_or_eq_not who w
  -- both have written, and those that did not fail have committed
  cases hgoes : goes_through host calls who with
  | false =>
      exact ⟨.error .io, by
        simp only [overlapped, overlap, hws, hgoes, not_true_eq_false, if_false, if_true]⟩
  | true =>
      have hcs : who ∈ [c, !c].filter (goes_through host calls) := by
        refine List.mem_filter.mpr ⟨?_, hgoes⟩
        rw [List.mem_cons, List.mem_singleton]
        exact Bool.eq_or_eq_not who c
      refine ⟨(commit_by blake3 host calls (commits blake3 host calls
        (([c, !c].filter (goes_through host calls)).takeWhile (· != who))) who).2, ?_⟩
      simp only [overlapped, overlap, hws, hgoes, hcs, not_true_eq_false, if_false,
        Bool.true_eq_false]

end Stages

end InputSync
