/-
What a daemon sends, handled by a receiver: the file arms of `inbound_loop`
over `FileTransferManager::handle_offer` and `handle_chunk`, with a file
system that does what it is asked.

The messages of one daemon are those of its `send_files` calls, each in its
own order; calls that run at the same time may mix (`Carries`). However they
mix, at every point each transfer that was offered has received what its
chunks so far add up to, and every call was accepted if every check so far
passed (`Delivering`, `delivering_run`).

With full reads that is the end-to-end statement: what arrives is what was
there (`transfer_delivers`).
-/
import InputSync.Sender
import InputSync.Session

set_option autoImplicit false

namespace InputSync

/-! ## Handling file messages

The receiver's half of the story, one message at a time. What a call returns is kept in
a list, because the results are also about which calls fail. -/

/-- `handle_offer` and `handle_chunk`, which the inbound loop calls; it logs
their errors and goes on. -/
def file_ops : Effect → List RecvOp
  | .file_offer offer => [.begin offer.transfer_id offer.manifest .ok]
  | .file_chunk chunk => [.chunk chunk .ok]
  | _ => []

section Receive

variable (blake3 : List UInt8 → Hash) (is_client : Bool)

/-- One iteration of `inbound_loop`, as far as the receiver goes. -/
def receive_step (host : Host) (msg : Message) : Host × List Outcome :=
  runOut (Host.step blake3) host ((inbound_step is_client msg).flatMap file_ops)

/-- The receiver after the messages of the queue, with what its calls returned. -/
def receive (host : Host) (queue : List Message) : Host × List Outcome :=
  runOut (receive_step blake3 is_client) host queue

/-- What the inbound loop does with an offer is `begin`, with a disk that does what it
is asked. Later proofs rewrite with this and the next lemma instead of unfolding the
loop. -/
theorem receive_step_offer (host : Host) (offer : FileOffer) :
    receive_step blake3 is_client host (.FileOfferStart offer)
      = ((host.begin offer.transfer_id offer.manifest .ok).1,
          [.begun (host.begin offer.transfer_id offer.manifest .ok).2]) := rfl

/-- What it does with a chunk is `write_chunk`. -/
theorem receive_step_chunk (host : Host) (chunk : FileChunk) :
    receive_step blake3 is_client host (.FileChunk chunk)
      = ((host.write_chunk blake3 chunk .ok).1, [.wrote (host.write_chunk blake3 chunk .ok).2]) := rfl

end Receive

/-! ## Destinations

A destination is a path below the drop directory. Whether two transfers have one in
common is what decides if they disturb each other. -/

/-- The destination of a file below the drop directory. -/
def SourceFile.destination (self : SourceFile) (drop_dir : Path) : Option Path :=
  (sanitize self.relative_path).toOption.map (fun p => drop_dir ++ p)

namespace Transfer

variable (self : Transfer)

/-- Where the files of a transfer go, those that have a destination. -/
def destinations (drop_dir : Path) : List Path :=
  self.files.filterMap (fun f => f.destination drop_dir)

/-- Every file has a destination. -/
def Placed : Prop := ∀ f ∈ self.files, ∃ p, sanitize f.relative_path = .ok p

/-- The receiver computes the destinations from the manifest and the sender's files have
theirs; they are the same list. -/
theorem destinations_manifest (blake3 : List UInt8 → Hash) (drop_dir : Path) :
    InputSync.destinations drop_dir (self.manifest blake3).files = self.destinations drop_dir := by
  rw [manifest_files, InputSync.destinations, destinations, List.filterMap_map]
  refine List.filterMap_congr ?_
  intro f _
  simp only [Function.comp_apply, build_entry_eq, SourceFile.destination]

/-- A transfer all of whose files have a place sends a manifest the receiver can place.
-/
theorem placed_manifest (blake3 : List UInt8 → Hash) (h : self.Placed) :
    ∀ e ∈ (self.manifest blake3).files, ∃ p, sanitize e.relative_path = .ok p := by
  intro e he
  rw [manifest_files] at he
  obtain ⟨f, hf, rfl⟩ := List.mem_map.mp he
  rw [build_entry_eq]
  exact h f hf

end Transfer

/-- The destination of a file stands at the index of the file. -/
theorem filterMap_destination_getElem? (drop_dir : Path) (files : List SourceFile)
    (h : ∀ f ∈ files, ∃ p, sanitize f.relative_path = .ok p) (i : Nat) :
    (files.filterMap (fun f => f.destination drop_dir))[i]?
      = files[i]?.bind (fun f => f.destination drop_dir) := by
  induction files generalizing i with
  | nil => rfl
  | cons f files ih =>
      obtain ⟨p, hp⟩ := h f List.mem_cons_self
      have hdest : f.destination drop_dir = some (drop_dir ++ p) := by
        rw [SourceFile.destination, hp]
        rfl
      simp only [List.filterMap_cons, hdest]
      cases i with
      | zero => exact hdest.symm
      | succ i => exact ih (fun f' hf' => h f' (List.mem_cons_of_mem f hf')) i

/-- What handling the offer of a transfer does, without faults. -/
structure Begun (blake3 : List UInt8 → Hash) (s : Transfer) (host next : Host) : Prop where
  entry : ∃ paths : { paths : List Path // paths.length = (s.manifest blake3).files.length },
    paths.1 = s.destinations host.receiver.drop_dir ∧
      next.receiver = host.receiver.insert s.transfer_id (.start (s.manifest blake3) paths)
  files : ∀ q ∈ s.destinations host.receiver.drop_dir, next.disk q = some []
  others : ∀ q, q ∉ s.destinations host.receiver.drop_dir → next.disk q = host.disk q

/-- Handling an offer does not move the drop directory, on which every destination
depends. -/
theorem Begun.drop_dir {blake3 : List UInt8 → Hash} {s : Transfer} {host next : Host}
    (h : Begun blake3 s host next) : next.receiver.drop_dir = host.receiver.drop_dir := by
  obtain ⟨paths, -, hrec⟩ := h.entry
  rw [hrec]
  rfl

/-- Nor does it touch another transfer. -/
theorem Begun.transfers_ne {blake3 : List UInt8 → Hash} {s : Transfer} {host next : Host}
    (h : Begun blake3 s host next) (t : UInt64) (ht : t ≠ s.transfer_id) :
    next.receiver.transfers t = host.receiver.transfers t := by
  obtain ⟨paths, -, hrec⟩ := h.entry
  rw [hrec]
  exact Function.update_of_ne ht _ _

/-- An offer that can be placed is accepted. Everything the stream needs of `begin` is
in the structure `Begun`, so that the induction over the stream works with its fields.
-/
theorem receive_offer (blake3 : List UInt8 → Hash) (is_client : Bool) (host : Host) (s : Transfer)
    (hplaced : s.Placed) :
    (receive_step blake3 is_client host (.FileOfferStart (s.offer blake3))).2 = [.begun (.ok ())] ∧
      Begun blake3 s host
        (receive_step blake3 is_client host (.FileOfferStart (s.offer blake3))).1 := by
  have hok : (host.begin s.transfer_id (s.manifest blake3) .ok).2 = .ok () :=
    begin_no_fault host _ _ (s.placed_manifest blake3 hplaced)
  obtain ⟨paths, hpaths, hrec, hdisk⟩ := begin_ok host _ _ _ hok
  have hframe := (begin_frame host s.transfer_id (s.manifest blake3) .ok).1
  rw [s.destinations_manifest] at hpaths hframe
  rw [hpaths] at hdisk
  refine ⟨?_, ⟨paths, hpaths, hrec⟩, hdisk, hframe⟩
  rw [receive_step_offer]
  exact congrArg (fun r => [Outcome.begun r]) hok

/-! ## The messages of a daemon

Calls of `send_files` run as tasks of their own and share one channel, so the stream is
any merge of their messages. It is described by its projections: to each transfer, the
messages of that transfer in their order. -/

/-- The transfer a message of `send_files` belongs to. -/
def Message.file_transfer : Message → Option UInt64
  | .FileOfferStart offer => some offer.transfer_id
  | .FileChunk chunk => some chunk.transfer_id
  | _ => none

/-- The chunk of transfer `t` a message carries. -/
def Message.chunk_of (t : UInt64) : Message → Option InputSync.FileChunk
  | .FileChunk chunk => if chunk.transfer_id = t then some chunk else none
  | _ => none

/-- The messages of transfer `t`. -/
def messages_of (t : UInt64) (msgs : List Message) : List Message :=
  msgs.filter (fun m => m.file_transfer = some t)

/-- The projection of a stream to one transfer distributes over its concatenation. -/
theorem messages_of_append (t : UInt64) (xs ys : List Message) :
    messages_of t (xs ++ ys) = messages_of t xs ++ messages_of t ys := List.filter_append ..

/-- A message of the transfer is kept in front. -/
theorem messages_of_cons (t : UInt64) (m : Message) (h : m.file_transfer = some t)
    (msgs : List Message) : messages_of t (m :: msgs) = m :: messages_of t msgs := by
  simp [messages_of, h]

/-- Membership in the projection is membership and belonging. -/
theorem mem_messages_of (t : UInt64) (m : Message) (msgs : List Message) :
    m ∈ messages_of t msgs ↔ m ∈ msgs ∧ m.file_transfer = some t := by
  simp [messages_of]

/-- The chunks of transfer `t`. -/
def chunks_of (t : UInt64) (msgs : List Message) : List FileChunk :=
  msgs.filterMap (Message.chunk_of t)

/-- The chunks of a transfer distribute in the same way; the four lemmas of this group
are how the ledger of a stream is computed message by message. -/
theorem chunks_of_append (t : UInt64) (xs ys : List Message) :
    chunks_of t (xs ++ ys) = chunks_of t xs ++ chunks_of t ys := List.filterMap_append

/-- A chunk of the transfer counts. -/
theorem chunks_of_cons_self (chunk : FileChunk) (msgs : List Message) :
    chunks_of chunk.transfer_id (.FileChunk chunk :: msgs)
      = chunk :: chunks_of chunk.transfer_id msgs := by
  simp [chunks_of, Message.chunk_of]

/-- A chunk of another one does not. -/
theorem chunks_of_cons_ne (t : UInt64) (chunk : FileChunk) (h : chunk.transfer_id ≠ t)
    (msgs : List Message) : chunks_of t (.FileChunk chunk :: msgs) = chunks_of t msgs := by
  simp [chunks_of, Message.chunk_of, h]

/-- An offer brings no chunk. -/
theorem chunks_of_cons_offer (t : UInt64) (offer : FileOffer) (msgs : List Message) :
    chunks_of t (.FileOfferStart offer :: msgs) = chunks_of t msgs := rfl

/-- Only the messages of the transfer count. -/
theorem chunks_of_messages_of (t : UInt64) (msgs : List Message) :
    chunks_of t (messages_of t msgs) = chunks_of t msgs := by
  rw [chunks_of, chunks_of, messages_of, List.filterMap_filter]
  refine List.filterMap_congr ?_
  intro m _
  cases m with
  | FileChunk chunk =>
      by_cases h : chunk.transfer_id = t
      · simp [Message.file_transfer, Message.chunk_of, h]
      · simp [Message.file_transfer, Message.chunk_of, h]
  | _ => simp [Message.chunk_of]

/-- A stream that carries `transfers`, each in its own order. -/
structure Carries (blake3 : List UInt8 → Hash) (transfers : List Transfer)
    (stream : List Message) : Prop where
  ids : (transfers.map Transfer.transfer_id).Nodup
  only : ∀ m ∈ stream, ∃ s ∈ transfers, m ∈ s.messages blake3
  each : ∀ s ∈ transfers, messages_of s.transfer_id stream = s.messages blake3

namespace Transfer

variable (self : Transfer) (blake3 : List UInt8 → Hash)

/-- All messages of a call carry its number. -/
theorem file_transfer_messages (m : Message) (hm : m ∈ self.messages blake3) :
    m.file_transfer = some self.transfer_id := by
  rcases List.mem_cons.mp hm with rfl | hm
  · rfl
  · obtain ⟨c, hc, rfl⟩ := List.mem_map.mp hm
    rw [Message.file_transfer, (self.chunks_chunk c hc).1]

/-- The only offer among them is the call's own, -/
theorem offer_of_mem (offer : FileOffer) (h : .FileOfferStart offer ∈ self.messages blake3) :
    offer = self.offer blake3 := by
  rcases List.mem_cons.mp h with heq | hm
  · exact Message.FileOfferStart.inj heq
  · obtain ⟨c, -, heq⟩ := List.mem_map.mp hm
    cases heq

/-- and the chunks among them are its chunks. -/
theorem chunk_of_mem (chunk : FileChunk) (h : .FileChunk chunk ∈ self.messages blake3) :
    chunk ∈ self.chunks := by
  rcases List.mem_cons.mp h with heq | hm
  · cases heq
  · obtain ⟨c, hc, heq⟩ := List.mem_map.mp hm
    rwa [← Message.FileChunk.inj heq]

/-- Projecting the messages of a call to its chunks gives the chunks it sent. -/
theorem chunks_of_messages : chunks_of self.transfer_id (self.messages blake3) = self.chunks := by
  rw [messages, chunks_of_cons_offer, chunks_of, List.filterMap_map]
  have hall : ∀ c ∈ self.chunks,
      (Message.chunk_of self.transfer_id ∘ Message.FileChunk) c = some c := by
    intro c hc
    simp [Message.chunk_of, (self.chunks_chunk c hc).1]
  rw [List.filterMap_congr hall, List.filterMap_some]

/-- The messages of a call, one after the other. -/
theorem carries_messages : Carries blake3 [self] (self.messages blake3) := by
  refine ⟨by simp, fun m hm => ⟨self, by simp, hm⟩, ?_⟩
  intro s hs
  obtain rfl := List.mem_singleton.mp hs
  refine List.filter_eq_self.mpr ?_
  intro m hm
  rw [s.file_transfer_messages blake3 m hm, decide_eq_true_eq]

end Transfer

namespace Carries

variable {blake3 : List UInt8 → Hash} {transfers : List Transfer} {stream pre post : List Message}
  (h : Carries blake3 transfers stream)
include h

/-- A number identifies a transfer of the stream: the numbers of one daemon are all
different. -/
theorem eq_of_id {s s' : Transfer} (hs : s ∈ transfers) (hs' : s' ∈ transfers)
    (heq : s.transfer_id = s'.transfer_id) : s = s' :=
  List.inj_on_of_nodup_map h.ids hs hs' heq

/-- In a mixed stream the chunks of each transfer are in their order. This is where
mixing stops to matter. -/
theorem chunks_of_eq (s : Transfer) (hs : s ∈ transfers) :
    chunks_of s.transfer_id stream = s.chunks := by
  rw [← chunks_of_messages_of, h.each s hs, s.chunks_of_messages]

/-- An offer in the stream opens its transfer. -/
theorem offer_first (offer : FileOffer) (hsplit : stream = pre ++ .FileOfferStart offer :: post) :
    ∃ s ∈ transfers, offer = s.offer blake3 ∧
      messages_of s.transfer_id pre = [] ∧
      messages_of s.transfer_id post = s.chunks.map .FileChunk := by
  obtain ⟨s, hs, hm⟩ := h.only (.FileOfferStart offer) (by rw [hsplit]; simp)
  obtain rfl := s.offer_of_mem blake3 offer hm
  refine ⟨s, hs, rfl, ?_⟩
  have heach := h.each s hs
  rw [hsplit, messages_of_append,
    messages_of_cons s.transfer_id (.FileOfferStart (s.offer blake3)) rfl, Transfer.messages] at heach
  cases hpre : messages_of s.transfer_id pre with
  | nil =>
      rw [hpre] at heach
      exact ⟨rfl, (List.cons.inj heach).2⟩
  | cons m ms =>
      -- the offer would come a second time, among the chunks
      rw [hpre] at heach
      have htail := (List.cons.inj heach).2
      have hmem : Message.FileOfferStart (s.offer blake3) ∈ s.chunks.map Message.FileChunk := by
        rw [← htail]
        simp
      obtain ⟨c, -, heq⟩ := List.mem_map.mp hmem
      cases heq

/-- A chunk in the stream follows its offer and the chunks before it. -/
theorem chunk_next (chunk : FileChunk) (hsplit : stream = pre ++ .FileChunk chunk :: post) :
    ∃ s ∈ transfers, chunk.transfer_id = s.transfer_id ∧
      .FileOfferStart (s.offer blake3) ∈ pre ∧
      s.chunks = chunks_of s.transfer_id pre ++ chunk :: chunks_of s.transfer_id post := by
  obtain ⟨s, hs, hm⟩ := h.only (.FileChunk chunk) (by rw [hsplit]; simp)
  have hid : chunk.transfer_id = s.transfer_id :=
    (s.chunks_chunk chunk (s.chunk_of_mem blake3 chunk hm)).1
  refine ⟨s, hs, hid, ?_, ?_⟩
  -- the messages of the transfer begin with its offer, so what stands before a chunk
  -- has it at its head
  · have heach := h.each s hs
    rw [hsplit, messages_of_append, messages_of_cons _ (.FileChunk chunk) (congrArg some hid),
      Transfer.messages] at heach
    cases hpre : messages_of s.transfer_id pre with
    | nil =>
        rw [hpre] at heach
        cases (List.cons.inj heach).1
    | cons m ms =>
        rw [hpre] at heach
        have hhead : m = .FileOfferStart (s.offer blake3) := (List.cons.inj heach).1
        have hmem : m ∈ messages_of s.transfer_id pre := by
          rw [hpre]
          exact List.mem_cons_self
        rw [← hhead]
        exact ((mem_messages_of _ m pre).mp hmem).1
  · rw [← h.chunks_of_eq s hs, hsplit, chunks_of_append, ← hid, chunks_of_cons_self]

end Carries

/-- What arrives from a daemon: the messages of its transfers to the receiver,
each transfer in order. -/
structure Daemon.Sends (daemon : Daemon) (blake3 : List UInt8 → Hash) (stream : List Message) :
    Prop where
  only : ∀ m ∈ stream, ∃ s ∈ daemon.transfers, m ∈ s.messages blake3
  each : ∀ s ∈ daemon.transfers, messages_of s.transfer_id stream = s.messages blake3

/-- The calls of a daemon make a stream of that kind, since it numbers them with a
counter. -/
theorem Daemon.Sends.carries {daemon : Daemon} {blake3 : List UInt8 → Hash}
    {stream : List Message} (h : daemon.Sends blake3 stream) :
    Carries blake3 daemon.transfers stream :=
  ⟨daemon.ids_nodup, h.only, h.each⟩

/-! ## Receiving a stream

The induction over the stream. The state after a prefix is determined by the ledgers of
the transfers that the prefix offers, and by nothing else. -/

/-- What the messages so far bring of transfer `t`. -/
def ledger_of (t : UInt64) (msgs : List Message) : Ledger := Ledger.empty.addAll (chunks_of t msgs)

/-- Before the first message of a transfer its ledger is empty. -/
theorem ledger_of_nil (t : UInt64) (msgs : List Message) (h : messages_of t msgs = []) :
    ledger_of t msgs = .empty := by
  rw [ledger_of, ← chunks_of_messages_of, h]
  rfl

/-- An offer changes no ledger. -/
theorem ledger_of_offer (t : UInt64) (msgs : List Message) (offer : FileOffer) :
    ledger_of t (msgs ++ [.FileOfferStart offer]) = ledger_of t msgs := by
  rw [ledger_of, chunks_of_append, chunks_of_cons_offer]
  exact congrArg Ledger.empty.addAll (List.append_nil _)

/-- A chunk is added to the ledger of its transfer, -/
theorem ledger_of_chunk (msgs : List Message) (chunk : FileChunk) :
    ledger_of chunk.transfer_id (msgs ++ [.FileChunk chunk])
      = (ledger_of chunk.transfer_id msgs).add chunk := by
  rw [ledger_of, chunks_of_append, chunks_of_cons_self, Ledger.addAll_append]
  rfl

/-- and to no other. -/
theorem ledger_of_chunk_ne (t : UInt64) (msgs : List Message) (chunk : FileChunk)
    (h : chunk.transfer_id ≠ t) : ledger_of t (msgs ++ [.FileChunk chunk]) = ledger_of t msgs := by
  rw [ledger_of, chunks_of_append, chunks_of_cons_ne t chunk h]
  exact congrArg Ledger.empty.addAll (List.append_nil _)

/-- The chunks of a transfer, when the stream goes on with a chunk of another one. -/
theorem chunks_of_concat_ne (t : UInt64) (msgs : List Message) (chunk : FileChunk)
    (h : chunk.transfer_id ≠ t) : chunks_of t (msgs ++ [.FileChunk chunk]) = chunks_of t msgs := by
  rw [chunks_of_append, chunks_of_cons_ne t chunk h]
  exact List.append_nil _

/-- Whether the checks pass, one chunk later: that chunk's own is the only new
one. -/
theorem Carries.verified_concat {blake3 : List UInt8 → Hash} {transfers : List Transfer}
    {stream : List Message} (hcarry : Carries blake3 transfers stream) {s : Transfer}
    (hs : s ∈ transfers) {chunk : FileChunk} (hid : chunk.transfer_id = s.transfer_id)
    (pre : List Message) :
    (∀ s' ∈ transfers, Ledger.empty.Verified blake3 (s'.manifest blake3).files
        (chunks_of s'.transfer_id (pre ++ [.FileChunk chunk]))) ↔
      (∀ s' ∈ transfers, Ledger.empty.Verified blake3 (s'.manifest blake3).files
        (chunks_of s'.transfer_id pre)) ∧
      ∀ e, (s.manifest blake3).files[chunk.file_index.toNat]? = some e → chunk.is_last →
        blake3 ((ledger_of s.transfer_id pre).add chunk chunk.file_index.toNat) = e.blake3 := by
  have hmine : chunks_of s.transfer_id (pre ++ [.FileChunk chunk])
      = chunks_of s.transfer_id pre ++ [chunk] := by
    rw [← hid, chunks_of_append, chunks_of_cons_self]
    rfl
  have hother : ∀ s' ∈ transfers, s' ≠ s →
      chunks_of s'.transfer_id (pre ++ [.FileChunk chunk]) = chunks_of s'.transfer_id pre := by
    intro s' hs' hss
    apply chunks_of_concat_ne
    intro heq
    exact hss (hcarry.eq_of_id hs' hs (heq.symm.trans hid))
  constructor
  · intro hafter
    have hs_after := hafter s hs
    rw [hmine, Ledger.verified_append] at hs_after
    refine ⟨?_, hs_after.2.1⟩
    intro s' hs'
    -- the chunk is in the ledger of its own transfer only
    by_cases hss : s' = s
    · subst hss
      exact hs_after.1
    · rw [← hother s' hs' hss]
      exact hafter s' hs'
  · rintro ⟨hbefore, hnow⟩ s' hs'
    by_cases hss : s' = s
    · subst hss
      rw [hmine, Ledger.verified_append]
      exact ⟨hbefore s' hs', hnow, trivial⟩
    · rw [hother s' hs' hss]
      exact hbefore s' hs'

/-- All destinations of all transfers are different. -/
def DistinctPlaces (transfers : List Transfer) (drop_dir : Path) : Prop :=
  (transfers.flatMap (fun s => s.destinations drop_dir)).Nodup

/-- A destination belongs to one transfer only. With it a write to a file of one
transfer leaves the files of all the others alone. -/
theorem DistinctPlaces.eq_of_mem {transfers : List Transfer} {drop_dir : Path}
    (h : DistinctPlaces transfers drop_dir) {s s' : Transfer} (hs : s ∈ transfers)
    (hs' : s' ∈ transfers) (q : Path) (hq : q ∈ s.destinations drop_dir)
    (hq' : q ∈ s'.destinations drop_dir) : s = s' := by
  by_contra hne
  have hdisj := (List.nodup_flatMap.mp h).2
  have hsymm : Std.Symm (Function.onFun List.Disjoint
      (fun s : Transfer => s.destinations drop_dir)) := ⟨fun _ _ hxy _ hx hy => hxy hy hx⟩
  exact hdisj.forall hs hs' hne hq hq'

/-- Where a stream stands after the messages `pre`: each offered transfer has
received its ledger; its files are there, with just that in them if nothing
else goes there; all calls so far were accepted if all checks so far passed;
and the last call returned the total. -/
structure Delivering (blake3 : List UInt8 → Hash) (transfers : List Transfer) (drop_dir : Path)
    (pre : List Message) (host : Host) (outs : List Outcome) : Prop where
  drop : host.receiver.drop_dir = drop_dir
  tracks : ∀ s ∈ transfers, .FileOfferStart (s.offer blake3) ∈ pre →
    Tracks host.receiver s.transfer_id (s.manifest blake3).files (s.destinations drop_dir)
      (ledger_of s.transfer_id pre)
  exist : ∀ s ∈ transfers, .FileOfferStart (s.offer blake3) ∈ pre →
    ∀ q ∈ s.destinations drop_dir, ∃ f, host.disk q = some f
  contents : DistinctPlaces transfers drop_dir →
    ∀ s ∈ transfers, .FileOfferStart (s.offer blake3) ∈ pre →
      ∀ i q, (s.destinations drop_dir)[i]? = some q →
        host.disk q = some (ledger_of s.transfer_id pre i)
  verified : (∀ o ∈ outs, o.accepted) ↔
    ∀ s ∈ transfers, Ledger.empty.Verified blake3 (s.manifest blake3).files
      (chunks_of s.transfer_id pre)
  total : ∀ s ∈ transfers, ∀ c, pre.getLast? = some (.FileChunk c) →
    c.transfer_id = s.transfer_id → (∀ o ∈ outs, o.accepted) →
      outs.getLast? = some (.wrote (.ok ((ledger_of s.transfer_id pre).total
        (s.manifest blake3).files.length)))

section Run

variable {blake3 : List UInt8 → Hash} {transfers : List Transfer} {drop_dir : Path}
  {stream pre post : List Message} {host : Host} {outs : List Outcome} (is_client : Bool)

/-- An offer starts its transfer. -/
theorem Delivering.offer (h : Delivering blake3 transfers drop_dir pre host outs)
    (hcarry : Carries blake3 transfers stream) (hplaced : ∀ s ∈ transfers, s.Placed)
    (offer : FileOffer) (hsplit : stream = pre ++ .FileOfferStart offer :: post) :
    Delivering blake3 transfers drop_dir (pre ++ [.FileOfferStart offer])
      (receive_step blake3 is_client host (.FileOfferStart offer)).1
      (outs ++ (receive_step blake3 is_client host (.FileOfferStart offer)).2) := by
  obtain ⟨s, hs, rfl, hpre, -⟩ := hcarry.offer_first offer hsplit
  obtain ⟨hout, hbegun⟩ := receive_offer blake3 is_client host s (hplaced s hs)
  have hfiles := hbegun.files
  have hframe := hbegun.others
  rw [h.drop] at hfiles hframe
  -- a transfer that was offered before is another one
  have hmem : ∀ s' ∈ transfers,
      .FileOfferStart (s'.offer blake3) ∈ pre ++ [.FileOfferStart (s.offer blake3)] → s' ≠ s →
      .FileOfferStart (s'.offer blake3) ∈ pre ∧ s'.transfer_id ≠ s.transfer_id := by
    intro s' hs' hin hne
    have hid : s'.transfer_id ≠ s.transfer_id := fun heq => hne (hcarry.eq_of_id hs' hs heq)
    refine ⟨?_, hid⟩
    rcases List.mem_append.mp hin with hin | hin
    · exact hin
    · have heq := Message.FileOfferStart.inj (List.mem_singleton.mp hin)
      exact absurd (congrArg FileOffer.transfer_id heq) hid
  have hstart : ledger_of s.transfer_id (pre ++ [.FileOfferStart (s.offer blake3)]) = .empty := by
    rw [ledger_of_offer, ledger_of_nil _ _ hpre]
  refine ⟨hbegun.drop_dir.trans h.drop, ?_, ?_, ?_, ?_, ?_⟩
  · intro s' hs' hin
    by_cases hss : s' = s
    · subst hss
      obtain ⟨paths, hpaths, hrec⟩ := hbegun.entry
      rw [hstart, ← h.drop, ← hpaths, hrec]
      exact tracks_start host.receiver _ _ paths
    · obtain ⟨hin, hid⟩ := hmem s' hs' hin hss
      rw [ledger_of_offer]
      exact (h.tracks s' hs' hin).congr (hbegun.transfers_ne _ hid)
  · intro s' hs' hin q hq
    by_cases hnew : q ∈ s.destinations drop_dir
    · exact ⟨[], hfiles q hnew⟩
    · have hss : s' ≠ s := fun heq => hnew (heq ▸ hq)
      obtain ⟨f, hf⟩ := h.exist s' hs' (hmem s' hs' hin hss).1 q hq
      exact ⟨f, (hframe q hnew).trans hf⟩
  · intro hdist s' hs' hin i q hq
    have hqmem := List.mem_of_getElem? hq
    by_cases hss : s' = s
    · subst hss
      rw [hstart]
      exact hfiles q hqmem
    · have hnew : q ∉ s.destinations drop_dir :=
        fun hqs => hss (hdist.eq_of_mem hs' hs q hqmem hqs)
      rw [ledger_of_offer]
      exact (hframe q hnew).trans (h.contents hdist s' hs' (hmem s' hs' hin hss).1 i q hq)
  · have hchunks : ∀ t, chunks_of t (pre ++ [.FileOfferStart (s.offer blake3)]) = chunks_of t pre := by
      intro t
      rw [chunks_of_append, chunks_of_cons_offer]
      exact List.append_nil _
    simp only [hchunks, hout, ← h.verified, List.forall_mem_append, List.forall_mem_singleton]
    exact and_iff_left rfl
  · intro s' _ c hlast
    rw [List.getLast?_concat] at hlast
    cases Option.some.inj hlast

/-- Every file has its ledger after a chunk has been put where it belongs. -/
theorem Delivering.contents_chunk (h : Delivering blake3 transfers drop_dir pre host outs)
    (hcarry : Carries blake3 transfers stream) (hdist : DistinctPlaces transfers drop_dir)
    {s : Transfer} (hs : s ∈ transfers) {chunk : FileChunk}
    (hid : chunk.transfer_id = s.transfer_id)
    (hoff : chunk.offset.toNat = (ledger_of s.transfer_id pre chunk.file_index.toNat).length)
    {q : Path} (hq : (s.destinations drop_dir)[chunk.file_index.toNat]? = some q) {f : List UInt8}
    (hf : host.disk q = some f) (s' : Transfer) (hs' : s' ∈ transfers)
    (hin : .FileOfferStart (s'.offer blake3) ∈ pre) (i : Nat) (p : Path)
    (hp : (s'.destinations drop_dir)[i]? = some p) :
    Function.update host.disk q (some (splice 0 f chunk.offset.toNat chunk.data)) p
      = some (ledger_of s'.transfer_id (pre ++ [.FileChunk chunk]) i) := by
  have hold := h.contents hdist s' hs' hin i p hp
  by_cases hss : s' = s
  · subst hss
    have hself : ledger_of s'.transfer_id (pre ++ [.FileChunk chunk])
        = (ledger_of s'.transfer_id pre).add chunk := by
      rw [← hid, ledger_of_chunk]
    rw [hself]
    by_cases hpq : i = chunk.file_index.toNat
    · -- the chunk goes to the end of this file
      subst hpq
      obtain rfl := Option.some.inj (hp.symm.trans hq)
      obtain rfl := Option.some.inj (hold.symm.trans hf)
      rw [Function.update_self, Ledger.add_self, hoff, splice_at_end]
    · -- another file of the same transfer, so another place
      have hdiff : p ≠ q := by
        intro heq
        have hnodup := (List.nodup_flatMap.mp hdist).1 s' hs'
        exact hpq ((List.getElem?_inj (List.getElem?_eq_some_iff.mp hp).1 hnodup).mp
          (by rw [hp, hq, heq]))
      rw [Function.update_of_ne hdiff, Ledger.add_ne _ _ _ hpq]
      exact hold
  · have hdiff : p ≠ q := by
      intro heq
      exact hss (hdist.eq_of_mem hs' hs q (heq ▸ List.mem_of_getElem? hp)
        (List.mem_of_getElem? hq))
    have hne : chunk.transfer_id ≠ s'.transfer_id := by
      intro heq
      exact hss (hcarry.eq_of_id hs' hs (heq.symm.trans hid))
    rw [Function.update_of_ne hdiff, ledger_of_chunk_ne _ _ _ hne]
    exact hold

/-- A chunk is absorbed. -/
theorem Delivering.chunk (h : Delivering blake3 transfers drop_dir pre host outs)
    (hcarry : Carries blake3 transfers stream) (hfew : ∀ s ∈ transfers, s.files.length < 2 ^ 32)
    (chunk : FileChunk) (hsplit : stream = pre ++ .FileChunk chunk :: post) :
    Delivering blake3 transfers drop_dir (pre ++ [.FileChunk chunk])
      (receive_step blake3 is_client host (.FileChunk chunk)).1
      (outs ++ (receive_step blake3 is_client host (.FileChunk chunk)).2) := by
  obtain ⟨s, hs, hid, hin, hchunks⟩ := hcarry.chunk_next chunk hsplit
  have hord := s.chunks_inOrder blake3 (hfew s hs)
  rw [hchunks, Ledger.inOrder_append] at hord
  -- the chunks of a transfer are in order for its ledger, this one is next
  obtain ⟨-, ⟨hi, hoff', hfit⟩, -⟩ := hord
  have hoff : chunk.offset.toNat = (ledger_of s.transfer_id pre chunk.file_index.toNat).length := hoff'
  have htracks := h.tracks s hs hin
  have hlt : chunk.file_index.toNat < (s.destinations drop_dir).length := by
    rw [htracks.length_eq]
    exact hi
  have hq := List.getElem?_eq_getElem hlt
  set q := (s.destinations drop_dir)[chunk.file_index.toNat]
  obtain ⟨f, hf⟩ := h.exist s hs hin q (List.mem_of_getElem? hq)
  -- so the call absorbs it
  obtain ⟨receiver, result, hrun, hnext, hothers, hdrop, hacc, htotal⟩ :=
    htracks.chunk blake3 chunk hid hi hoff hfit q f hq hf
  have hself : ledger_of s.transfer_id (pre ++ [.FileChunk chunk])
      = (ledger_of s.transfer_id pre).add chunk := by
    rw [← hid, ledger_of_chunk]
  have hmem : ∀ s' : Transfer, .FileOfferStart (s'.offer blake3) ∈ pre ++ [.FileChunk chunk] →
      .FileOfferStart (s'.offer blake3) ∈ pre := by
    intro s' hin'
    simpa using hin'
  rw [receive_step_chunk, hrun]
  refine ⟨hdrop.trans h.drop, ?_, ?_, ?_, ?_, ?_⟩
  · intro s' hs' hin'
    by_cases hss : s' = s
    · subst hss
      rw [hself]
      exact hnext
    · have hne : s'.transfer_id ≠ s.transfer_id := fun heq => hss (hcarry.eq_of_id hs' hs heq)
      rw [ledger_of_chunk_ne _ _ _ (fun heq => hne (heq.symm.trans hid))]
      exact (h.tracks s' hs' (hmem s' hin')).congr (hothers _ hne)
  · intro s' hs' hin' p hp
    by_cases hpq : p = q
    · subst hpq
      exact ⟨_, Function.update_self _ _ _⟩
    · obtain ⟨f', hf'⟩ := h.exist s' hs' (hmem s' hin') p hp
      exact ⟨f', (Function.update_of_ne hpq _ _).trans hf'⟩
  · intro hdist s' hs' hin' i p hp
    exact h.contents_chunk hcarry hdist hs hid hoff hq hf s' hs' (hmem s' hin') i p hp
  · rw [List.forall_mem_append, List.forall_mem_singleton, h.verified, hacc,
      hcarry.verified_concat hs hid]
  · intro s' hs' c hlast hid' hall
    rw [List.getLast?_concat] at hlast
    obtain rfl := Message.FileChunk.inj (Option.some.inj hlast)
    obtain rfl := hcarry.eq_of_id hs' hs (hid'.symm.trans hid)
    have hres := htotal ((List.forall_mem_append.mp hall).2 _ (List.mem_singleton_self _))
    rw [List.getLast?_concat, hself, hres]

/-- **Receiving a stream**, or the beginning of one, from any state of the
receiver. -/
theorem delivering_run (hcarry : Carries blake3 transfers stream)
    (hplaced : ∀ s ∈ transfers, s.Placed) (hfew : ∀ s ∈ transfers, s.files.length < 2 ^ 32)
    (host : Host) (hpre : pre <+: stream) :
    Delivering blake3 transfers host.receiver.drop_dir pre
      (receive blake3 is_client host pre).1 (receive blake3 is_client host pre).2 := by
  obtain ⟨rest, rfl⟩ := hpre
  refine runOut_history (receive_step blake3 is_client)
    (Delivering blake3 transfers host.receiver.drop_dir) host pre ?_ ?_
  · refine ⟨rfl, fun s _ hin => absurd hin List.not_mem_nil,
      fun s _ hin => absurd hin List.not_mem_nil,
      fun _ s _ hin => absurd hin List.not_mem_nil, ?_, fun s _ c hlast => nomatch hlast⟩
    exact iff_of_true (List.forall_mem_nil _) (fun s _ => trivial)
  · intro before m after hsplit host' outs hinv
    have hfull : pre ++ rest = before ++ m :: (after ++ rest) := by
      rw [hsplit, List.append_assoc, List.cons_append]
    obtain ⟨s, hs, hm⟩ := hcarry.only m (by rw [hfull]; simp)
    rcases List.mem_cons.mp hm with rfl | hm
    · exact hinv.offer is_client hcarry hplaced _ hfull
    · obtain ⟨c, -, rfl⟩ := List.mem_map.mp hm
      exact hinv.chunk is_client hcarry hfew c hfull

/-- A chunk that is still to come is missing from its file. -/
theorem contents_grow {chunk : FileChunk}
    (hcarry : Carries blake3 transfers (pre ++ .FileChunk chunk :: post))
    (hplaced : ∀ s ∈ transfers, s.Placed) (hfew : ∀ s ∈ transfers, s.files.length < 2 ^ 32)
    (host : Host) (hdist : DistinctPlaces transfers host.receiver.drop_dir) :
    ∃ s ∈ transfers, chunk.transfer_id = s.transfer_id ∧ .FileOfferStart (s.offer blake3) ∈ pre ∧
      ∃ q ∈ s.destinations host.receiver.drop_dir,
        (receive blake3 is_client host pre).1.disk q
          ≠ (receive blake3 is_client host (pre ++ .FileChunk chunk :: post)).1.disk q := by
  obtain ⟨s, hs, hid, hin, hchunks⟩ := hcarry.chunk_next chunk rfl
  have hearly := delivering_run is_client hcarry hplaced hfew host (List.prefix_append _ _)
  have hlate := delivering_run is_client hcarry hplaced hfew host List.prefix_rfl
  have hord := s.chunks_inOrder blake3 (hfew s hs)
  rw [hchunks, Ledger.inOrder_append] at hord
  have hi : chunk.file_index.toNat < (s.destinations host.receiver.drop_dir).length := by
    rw [(hearly.tracks s hs hin).length_eq]
    exact hord.2.1.1
  have hq := List.getElem?_eq_getElem hi
  refine ⟨s, hs, hid, hin, _, List.getElem_mem hi, ?_⟩
  intro heq
  rw [hearly.contents hdist s hs hin _ _ hq,
    hlate.contents hdist s hs (List.mem_append_left _ hin) _ _ hq, Option.some.injEq] at heq
  have hfinal : ledger_of s.transfer_id (pre ++ .FileChunk chunk :: post)
      = ((ledger_of s.transfer_id pre).add chunk).addAll (chunks_of s.transfer_id post) := by
    rw [ledger_of, hcarry.chunks_of_eq s hs, hchunks, Ledger.addAll_append, Ledger.addAll_cons]
    rfl
  -- if the file were the same before and after, no byte could have been added
  have hgrow := Ledger.length_le_addAll ((ledger_of s.transfer_id pre).add chunk)
    (chunks_of s.transfer_id post) chunk.file_index.toNat
  have hdata := List.length_pos_iff.mpr (s.chunks_chunk chunk (by rw [hchunks]; simp)).2
  rw [← hfinal, ← heq, Ledger.add_self, List.length_append] at hgrow
  omega

end Run

/-! ## End to end

What is left is the sender's arithmetic: with full reads the ledger of a complete stream
is the contents of the files. -/

/-- What is sent of a file that reads in full. -/
theorem sent_at_full (files : List SourceFile) (hfull : ∀ f ∈ files, f.FullReads) (i : Nat)
    (f : SourceFile) (hf : files[i]? = some f) : sent_at files i = f.contents := by
  rw [sent_at, hf, Option.map_some, Option.getD_some]
  exact f.sent_eq_contents_iff.mpr (hfull f (List.mem_of_getElem? hf))

section EndToEnd

variable (blake3 : List UInt8 → Hash) (is_client : Bool)

namespace Transfer

/-- After all its messages the ledger of a transfer is, file by file, what was sent. -/
theorem ledger_of_messages (s : Transfer) (h : s.files.length < 2 ^ 32) (i : Nat) :
    ledger_of s.transfer_id (s.messages blake3) i = sent_at s.files i := by
  rw [ledger_of, chunks_of_messages, chunks_addAll h]

/-- The lengths of what is sent are the sizes in the manifest. -/
theorem sizes_eq (s : Transfer) (h : s.files.length < 2 ^ 32)
    (hfull : ∀ f ∈ s.files, f.FullReads) :
    (List.range (s.manifest blake3).files.length).map
        (fun i => UInt64.ofNat (ledger_of s.transfer_id (s.messages blake3) i).length)
      = s.files.map (fun f => UInt64.ofNat f.contents.length) := by
  rw [manifest_files, List.length_map]
  refine List.ext_getElem (by simp) ?_
  intro i _ hi
  have hi' : i < s.files.length := by simpa using hi
  rw [List.getElem_map, List.getElem_map, List.getElem_range, s.ledger_of_messages blake3 h,
    sent_at_full s.files hfull i _ (List.getElem?_eq_getElem hi')]

end Transfer

/-- **A transfer, end to end.** Its paths pass `sanitize` and lead to different
places, its offer fits in a frame, and no read while sending is short before
the end of a file. If a receiver, whatever it has done so far, then handles the
offer and the chunks in sending order, with no failing file operation, all
calls succeed, every file arrives as it was, the resume offsets are the sizes,
and the last chunk returns the manifest's total. -/
theorem transfer_delivers (host : Host) (s : Transfer) (hplaced : s.Placed)
    (hdist : (s.destinations host.receiver.drop_dir).Nodup)
    (hfull : ∀ f ∈ s.files, f.FullReads) (hsend : s.Sendable blake3) :
    let r := receive blake3 is_client host (s.messages blake3)
    (∀ o ∈ r.2, o.accepted) ∧
    (∀ f ∈ s.files, ∀ p, sanitize f.relative_path = .ok p →
      r.1.disk (host.receiver.drop_dir ++ p) = some f.contents) ∧
    r.1.resume_offsets s.transfer_id = some (s.files.map (fun f => UInt64.ofNat f.contents.length)) ∧
    (s.chunks ≠ [] → r.2.getLast? = some (.wrote (.ok (s.manifest blake3).total_bytes))) := by
  intro r
  have hlen := hsend.length_lt
  have hrun : Delivering blake3 [s] host.receiver.drop_dir (s.messages blake3) r.1 r.2 :=
    delivering_run is_client (s.carries_messages blake3)
      (fun s' hs' => by rwa [List.mem_singleton.mp hs'])
      (fun s' hs' => by rwa [List.mem_singleton.mp hs']) host List.prefix_rfl
  have hin : Message.FileOfferStart (s.offer blake3) ∈ s.messages blake3 := List.mem_cons_self
  -- the file that was sent is the file the manifest hashed
  have hall : ∀ o ∈ r.2, o.accepted := by
    refine hrun.verified.mpr ?_
    intro s' hs'
    obtain rfl := List.mem_singleton.mp hs'
    rw [s'.chunks_of_messages, Transfer.chunks_verified blake3 hlen]
    intro f hf
    rw [f.sent_eq_contents_iff.mpr (hfull f hf)]
  refine ⟨hall, ?_, ?_, ?_⟩
  · intro f hf p hp
    obtain ⟨i, hi⟩ := List.mem_iff_getElem?.mp hf
    have hdest : f.destination host.receiver.drop_dir = some (host.receiver.drop_dir ++ p) := by
      rw [SourceFile.destination, hp]
      rfl
    have hq : (s.destinations host.receiver.drop_dir)[i]? = some (host.receiver.drop_dir ++ p) := by
      rw [Transfer.destinations, filterMap_destination_getElem? _ _ hplaced, hi, Option.bind_some,
        hdest]
    have hdist' : DistinctPlaces [s] host.receiver.drop_dir := by simpa [DistinctPlaces] using hdist
    rw [hrun.contents hdist' s (List.mem_singleton_self s) hin i _ hq,
      s.ledger_of_messages blake3 hlen, sent_at_full s.files hfull i f hi]
  · rw [(hrun.tracks s (List.mem_singleton_self s) hin).resume_offsets,
      s.sizes_eq blake3 hlen hfull]
  · intro hne
    -- the total is what the call for the last chunk returned
    obtain ⟨init, c, hinit⟩ := (List.eq_nil_or_concat s.chunks).resolve_left hne
    have hlast : (s.messages blake3).getLast? = some (.FileChunk c) := by
      rw [Transfer.messages, hinit, List.concat_eq_append, List.map_append, ← List.cons_append]
      exact List.getLast?_concat
    have hc : c ∈ s.chunks := by
      rw [hinit]
      simp
    have htotal := hrun.total s (List.mem_singleton_self s) c hlast (s.chunks_chunk c hc).1 hall
    rw [htotal, Ledger.total, s.sizes_eq blake3 hlen hfull, Transfer.manifest, build_manifest_eq]

end EndToEnd

/-- A hash that tells short contents apart, for examples. -/
def sample_hash (bytes : List UInt8) : Hash := Vector.ofFn (fun i => bytes.getD i 0)

/-- Two files, one of them empty. -/
def two_files : Transfer where
  transfer_id := 1
  files :=
    [{ relative_path := "a.bin", contents := [1, 2, 3], fits := by decide, hash_reads := .full,
       send_reads := .full },
      { relative_path := "sub/b.bin", contents := [], fits := by decide, hash_reads := .full,
        send_reads := .full }]
  compressed := false

/-- The theorem for them, on an empty disk. -/
theorem transfer_delivers_two_files :
    (receive sample_hash true (.new ["drop"] (fun _ => none)) (two_files.messages sample_hash)).1.disk
      ["drop", "a.bin"] = some [1, 2, 3] := by
  have hplaced : two_files.Placed := by
    intro f hf
    simp only [two_files, List.mem_cons, List.not_mem_nil, or_false] at hf
    rcases hf with rfl | rfl
    · exact ⟨["a.bin"], by decide⟩
    · exact ⟨["sub", "b.bin"], by decide⟩
  have hfull : ∀ f ∈ two_files.files, f.FullReads := by
    intro f hf
    simp only [two_files, List.mem_cons, List.not_mem_nil, or_false] at hf
    rcases hf with rfl | rfl <;> exact Reader.full_full _
  have hsend : two_files.Sendable sample_hash := by
    rw [Transfer.sendable_iff]
    decide
  exact (transfer_delivers sample_hash true (.new ["drop"] (fun _ => none)) two_files hplaced (by decide)
    hfull hsend).2.1 _ List.mem_cons_self ["a.bin"] (by decide)

/-- A file of one byte. -/
def byte_file (relative_path : String) (byte : UInt8) : SourceFile :=
  { relative_path, contents := [byte], fits := by simp [MAX_FILE], hash_reads := .full,
    send_reads := .full }

/-- A transfer of such a file. -/
def byte_transfer (transfer_id : UInt64) (relative_path : String) (byte : UInt8) : Transfer :=
  { transfer_id, files := [byte_file relative_path byte], compressed := false }

/-- A file of one byte goes out in one chunk, marked last. The read is shorter than a
chunk, so the send loop takes one round. -/
theorem byte_transfer_chunks (transfer_id : UInt64) (relative_path : String) (byte : UInt8) :
    (byte_transfer transfer_id relative_path byte).chunks
      = [⟨transfer_id, 0, 0, [byte], true⟩] := by
  have hshort : Reader.full.next [byte] < DEFAULT_CHUNK_SIZE := by
    simp [Reader.full, DEFAULT_CHUNK_SIZE]
  rw [Transfer.chunks, byte_transfer, byte_file, send_chunks, send_loop_short _ _ _ _ _ hshort,
    send_chunks]
  simp [Reader.full, DEFAULT_CHUNK_SIZE]

/-- Its offer lists that file. -/
theorem byte_transfer_offer (transfer_id : UInt64) (relative_path : String) (byte : UInt8) :
    (byte_transfer transfer_id relative_path byte).offer sample_hash
      = ⟨transfer_id, ⟨[⟨relative_path, 1, sample_hash [byte]⟩], 1⟩, false⟩ := by
  rw [Transfer.offer, Transfer.manifest, build_manifest_eq]
  simp [byte_transfer, byte_file, build_entry_eq]

end InputSync
