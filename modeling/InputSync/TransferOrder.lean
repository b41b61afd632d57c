/-
The offer of a transfer and its chunks travel on different streams:
`send_files` queues the offer for the control stream's writer and writes the
chunks to a stream of its own, and at the receiver a task per stream forwards
to one inbound queue. Each stream is in order; between the two nothing is.

The receiver wants the offer first. A chunk that overtakes it belongs to no
transfer, or to an older one of the same number, and is lost to the new one,
and since every later chunk is then past the offset expected next, all of them
are. So the file arrives if and only if no chunk overtakes the offer, its path
passes `sanitize`, and no read was short (`file_arrives_iff`).
-/
import InputSync.Delivery

set_option autoImplicit false

namespace InputSync

/-! ## Two streams

The offer goes over one stream and the chunks over another, so the network may deliver
them in any order between the two. -/

/-- The streams `send_files` uses: the control stream, and an auxiliary one. -/
inductive QuicStream
  | control | auxiliary
deriving DecidableEq

/-- A merge of one control message into an auxiliary stream cuts the stream in
two. -/
theorem merge_split {A : Type} (queue : List (QuicStream × A)) (m : A)
    (h : select .control queue = [m]) :
    ∃ as bs, queue = as.map (fun a => (.auxiliary, a)) ++
        (.control, m) :: bs.map (fun b => (.auxiliary, b)) ∧
      select .auxiliary queue = as ++ bs := by
  induction queue with
  | nil => cases h
  | cons it queue ih =>
      obtain ⟨stream, a⟩ := it
      cases stream with
      | control =>
          rw [select_cons_self] at h
          obtain ⟨rfl, hrest⟩ := List.cons.inj h
          -- the control stream has brought its one message, so the rest is auxiliary
          have hall : ∀ it ∈ queue, it = (QuicStream.auxiliary, it.2) := by
            rintro ⟨stream, b⟩ hit
            cases stream with
            | control =>
                have hmem := (mem_select QuicStream.control b queue).mpr hit
                rw [hrest] at hmem
                cases hmem
            | auxiliary => rfl
          have hqueue : queue = (queue.map Prod.snd).map (fun b => (QuicStream.auxiliary, b)) := by
            rw [List.map_map]
            exact (List.map_congr_left hall ▸ (List.map_id' queue).symm :)
          refine ⟨[], queue.map Prod.snd, by rw [← hqueue]; rfl, ?_⟩
          rw [select_cons_ne _ _ (by decide), hqueue, select_map_self]
          simp
      | auxiliary =>
          rw [select_cons_ne _ _ (by decide)] at h
          obtain ⟨as, bs, hqueue, hselect⟩ := ih h
          refine ⟨a :: as, bs, by rw [hqueue]; rfl, ?_⟩
          rw [select_cons_self, hselect]
          rfl

/-! ## What the receiver does with chunks it does not expect

A chunk without an entry, or at another offset than the next, is refused and forgotten;
nobody sends it again. -/

section Receive

variable (blake3 : List UInt8 → Hash) (is_client : Bool)

/-- The drop directory never changes. -/
theorem receive_chunks_drop_dir (host : Host) (chunks : List FileChunk) :
    (receive blake3 is_client host (chunks.map .FileChunk)).1.receiver.drop_dir
      = host.receiver.drop_dir := by
  induction chunks generalizing host with
  | nil => rfl
  | cons chunk chunks ih =>
      exact (ih _).trans (write_chunk_frame blake3 host chunk .ok).drop_dir

/-- Chunks past the offset expected next change nothing. -/
theorem receive_late_chunks (host : Host) (p : RecvProgress) (chunks : List FileChunk)
    (h : ∀ c ∈ chunks, host.receiver.transfers c.transfer_id = some p ∧
      ∀ hi : c.file_index.toNat < p.manifest.files.length,
        c.offset ≠ p.received c.file_index.toNat hi) :
    (receive blake3 is_client host (chunks.map .FileChunk)).1 = host := by
  induction chunks with
  | nil => rfl
  | cons chunk chunks ih =>
      obtain ⟨hp, hoff⟩ := h chunk List.mem_cons_self
      have hstep : (receive_step blake3 is_client host (.FileChunk chunk)).1 = host := by
        rw [receive_step_chunk]
        by_cases hi : chunk.file_index.toNat < p.manifest.files.length
        · rw [write_chunk_known blake3 host chunk .ok p hp hi, if_pos (hoff hi)]
        · rw [write_chunk_out_of_range blake3 host chunk .ok p hp hi]
      have hrest := ih (fun c hc => h c (List.mem_cons_of_mem chunk hc))
      calc (receive blake3 is_client host ((chunk :: chunks).map .FileChunk)).1
          = (receive blake3 is_client (receive_step blake3 is_client host (.FileChunk chunk)).1
              (chunks.map .FileChunk)).1 := rfl
        _ = host := by rw [hstep, hrest]

end Receive

/-- Behind the first chunk of a file there is no offset `0` any more. -/
theorem later_offset_pos (n : Nat) (cs ds : List FileChunk) (hcs : cs ≠ [])
    (hdata : ∀ c ∈ cs, c.data ≠ []) (hone : n ≤ 1) (h : Ledger.empty.InOrder n (cs ++ ds))
    (d : FileChunk) (hd : d ∈ ds) : 0 < d.offset.toNat := by
  obtain ⟨c, cs, rfl⟩ := List.exists_cons_of_ne_nil hcs
  obtain ⟨before, after, rfl⟩ := List.append_of_mem hd
  rw [← List.append_assoc, Ledger.inOrder_append] at h
  obtain ⟨hfirst, ⟨hdi, hdoff, -⟩, -⟩ := h
  have hci : c.file_index.toNat < n := hfirst.1.1
  have hsame : d.file_index.toNat = c.file_index.toNat := by omega
  have hgrow := Ledger.length_le_addAll (Ledger.empty.add c) (cs ++ before) c.file_index.toNat
  have hpos := List.length_pos_iff.mpr (hdata c List.mem_cons_self)
  rw [Ledger.add_self, List.length_append] at hgrow
  rw [hdoff, hsame]
  exact lt_of_lt_of_le (by omega) hgrow

/-! ## One file

For a single file the outcome can be read off where the offer stands. -/

/-- The file is at its destination, as it was. -/
def SourceFile.ArrivedAt (self : SourceFile) (host : Host) : Prop :=
  ∃ p, sanitize self.relative_path = .ok p ∧
    host.disk (host.receiver.drop_dir ++ p) = some self.contents

section OneFile

variable (blake3 : List UInt8 → Hash) (is_client : Bool)

/-- In sending order the file arrives as far as its reads were full. -/
theorem in_order_arrives_iff (host : Host) (s : Transfer) (f : SourceFile) (hs : s.files = [f])
    (hplaced : ∃ p, sanitize f.relative_path = .ok p) :
    f.ArrivedAt (receive blake3 is_client host (s.messages blake3)).1 ↔ f.FullReads := by
  have hlen : s.files.length < 2 ^ 32 := by simp [hs]
  have hrun := delivering_run is_client (s.carries_messages blake3)
    (fun s' hs' => by
      rw [List.mem_singleton.mp hs', Transfer.Placed, hs]
      simpa using hplaced)
    (fun s' hs' => by rwa [List.mem_singleton.mp hs']) host List.prefix_rfl
  obtain ⟨p, hp⟩ := hplaced
  have hdest : s.destinations host.receiver.drop_dir = [host.receiver.drop_dir ++ p] := by
    simp [Transfer.destinations, hs, SourceFile.destination, hp, Except.toOption]
  have hdist : DistinctPlaces [s] host.receiver.drop_dir := by simp [DistinctPlaces, hdest]
  -- the file holds what was sent of it
  have hdisk := hrun.contents hdist s (List.mem_singleton_self s) List.mem_cons_self 0
    (host.receiver.drop_dir ++ p) (by rw [hdest]; rfl)
  have hsent : sent_at s.files 0 = f.sent := by simp [sent_at, hs]
  rw [s.ledger_of_messages blake3 hlen, hsent] at hdisk
  rw [← f.sent_eq_contents_iff]
  constructor
  · rintro ⟨p', hp', hcontents⟩
    obtain rfl := Except.ok.inj (hp.symm.trans hp')
    rw [hrun.drop, hdisk] at hcontents
    exact Option.some.inj hcontents
  · intro hcontents
    exact ⟨p, hp, by rw [hrun.drop, hdisk, hcontents]⟩

/-- If a chunk comes before the offer, the file stays empty. -/
theorem overtaken_stays_empty (host : Host) (s : Transfer) (f : SourceFile) (hs : s.files = [f])
    (p : Path) (hp : sanitize f.relative_path = .ok p) (cs ds : List FileChunk) (hcs : cs ≠ [])
    (hchunks : s.chunks = cs ++ ds) :
    let r := receive blake3 is_client host
      (cs.map .FileChunk ++ .FileOfferStart (s.offer blake3) :: ds.map .FileChunk)
    r.1.receiver.drop_dir = host.receiver.drop_dir ∧
      r.1.disk (host.receiver.drop_dir ++ p) = some [] := by
  intro r
  have hplaced : s.Placed := by
    intro f' hf'
    rw [hs, List.mem_singleton] at hf'
    exact ⟨p, hf' ▸ hp⟩
  have hdest : s.destinations host.receiver.drop_dir = [host.receiver.drop_dir ++ p] := by
    simp [Transfer.destinations, hs, SourceFile.destination, hp, Except.toOption]
  set early := (receive blake3 is_client host (cs.map .FileChunk)).1 with hearly
  have hdrop : early.receiver.drop_dir = host.receiver.drop_dir :=
    receive_chunks_drop_dir blake3 is_client host cs
  obtain ⟨-, hbegun⟩ := receive_offer blake3 is_client early s hplaced
  set begun := (receive_step blake3 is_client early (.FileOfferStart (s.offer blake3))).1
  obtain ⟨paths, -, hrec⟩ := hbegun.entry
  -- what is left of the chunks is past the start of the new entry
  have hlate : (receive blake3 is_client begun (ds.map .FileChunk)).1 = begun := by
    refine receive_late_chunks blake3 is_client begun (.start (s.manifest blake3) paths) ds
      (fun d hd => ⟨?_, fun hi heq => ?_⟩)
    · have hid := (s.chunks_chunk d (by rw [hchunks]; exact List.mem_append_right cs hd)).1
      rw [hrec, hid]
      exact Function.update_self _ _ _
    · have hord := s.chunks_inOrder blake3 (by simp [hs])
      rw [s.manifest_files, hs, hchunks] at hord
      have hpos := later_offset_pos _ cs ds hcs
        (fun c hc => (s.chunks_chunk c (by rw [hchunks]; exact List.mem_append_left ds hc)).2)
        le_rfl hord d hd
      rw [heq] at hpos
      simp [RecvProgress.received, RecvProgress.start] at hpos
  have hr : r.1 = begun := by
    have hsplit : r.1 = (receive blake3 is_client
        (receive_step blake3 is_client early (.FileOfferStart (s.offer blake3))).1
        (ds.map .FileChunk)).1 := by
      simp only [r, receive, runOut_append, runOut_cons, hearly]
    rw [hsplit]
    exact hlate
  rw [hr]
  refine ⟨hbegun.drop_dir.trans hdrop, hbegun.files _ ?_⟩
  rw [hdrop, hdest]
  exact List.mem_singleton_self _

/-- **When a file arrives.** For a transfer of one file that is not empty, and
any order the inbound queue can receive its messages in: once all of them are
handled, the file is there as it was if and only if its path passes `sanitize`,
no read while sending was short before the end, and the offer comes first. -/
theorem file_arrives_iff (host : Host) (s : Transfer) (f : SourceFile) (hs : s.files = [f])
    (hne : f.contents ≠ []) (queue : List (QuicStream × Message))
    (hcontrol : select .control queue = [.FileOfferStart (s.offer blake3)])
    (hauxiliary : select .auxiliary queue = s.chunks.map .FileChunk) :
    f.ArrivedAt (receive blake3 is_client host (queue.map Prod.snd)).1 ↔
      (∃ p, sanitize f.relative_path = .ok p) ∧ f.FullReads ∧
        queue.head? = some (.control, .FileOfferStart (s.offer blake3)) := by
  obtain ⟨as, bs, rfl, hselect⟩ := merge_split queue _ hcontrol
  rw [hauxiliary] at hselect
  obtain ⟨cs, ds, hchunks, rfl, rfl⟩ := List.map_eq_append_iff.mp hselect
  by_cases hplaced : ∃ p, sanitize f.relative_path = .ok p
  · have hqueue : ((cs.map Message.FileChunk).map (fun a => (QuicStream.auxiliary, a)) ++
        (QuicStream.control, Message.FileOfferStart (s.offer blake3)) ::
          (ds.map Message.FileChunk).map (fun b => (QuicStream.auxiliary, b))).map Prod.snd
        = cs.map .FileChunk ++ .FileOfferStart (s.offer blake3) :: ds.map .FileChunk := by
      simp [Function.comp_def]
    rw [hqueue]
    -- what matters is whether a chunk is received before the offer
    cases cs with
    | nil =>
        have hmessages : ([] : List FileChunk).map Message.FileChunk ++
            Message.FileOfferStart (s.offer blake3) :: ds.map .FileChunk = s.messages blake3 := by
          rw [Transfer.messages, hchunks]
          rfl
        rw [hmessages, in_order_arrives_iff blake3 is_client host s f hs hplaced]
        simp [hplaced]
    | cons c cs =>
        obtain ⟨p, hp⟩ := hplaced
        obtain ⟨hdrop, hdisk⟩ := overtaken_stays_empty blake3 is_client host s f hs p hp (c :: cs) ds
          (by simp) hchunks
        refine iff_of_false ?_ (by simp)
        rintro ⟨p', hp', hcontents⟩
        obtain rfl := Except.ok.inj (hp.symm.trans hp')
        rw [hdrop, hdisk] at hcontents
        exact hne (Option.some.inj hcontents).symm
  · refine iff_of_false ?_ (fun h => hplaced h.1)
    rintro ⟨p, hp, -⟩
    exact hplaced ⟨p, hp⟩

end OneFile

/-- The theorem for a file of one byte, in sending order. -/
theorem file_arrives_iff_one_byte :
    (byte_file "a.bin" 7).ArrivedAt (receive sample_hash true (.new ["drop"] (fun _ => none))
      ([(QuicStream.control, .FileOfferStart ((byte_transfer 1 "a.bin" 7).offer sample_hash)),
        (.auxiliary, .FileChunk ⟨1, 0, 0, [7], true⟩)].map Prod.snd)).1 := by
  refine (file_arrives_iff sample_hash true (.new ["drop"] (fun _ => none))
    (byte_transfer 1 "a.bin" 7) (byte_file "a.bin" 7) rfl (by decide) _ rfl ?_).mpr
    ⟨⟨["a.bin"], by decide⟩, Reader.full_full _, rfl⟩
  rw [byte_transfer_chunks]
  rfl

/-- The other order the two streams allow: the chunk is lost, and the file is
not the source. -/
theorem overtaking_chunk_lost :
    let queue := [(QuicStream.auxiliary, Message.FileChunk ⟨1, 0, 0, [7], true⟩),
      (.control, .FileOfferStart ((byte_transfer 1 "a.bin" 7).offer sample_hash))]
    select .control queue = [.FileOfferStart ((byte_transfer 1 "a.bin" 7).offer sample_hash)] ∧
      select .auxiliary queue = (byte_transfer 1 "a.bin" 7).chunks.map .FileChunk ∧
      ¬ (byte_file "a.bin" 7).ArrivedAt (receive sample_hash true (.new ["drop"] (fun _ => none))
        (queue.map Prod.snd)).1 := by
  intro queue
  refine ⟨rfl, by rw [byte_transfer_chunks]; rfl, ?_⟩
  rintro ⟨p, hp, hdisk⟩
  have hname : sanitize (byte_file "a.bin" 7).relative_path = .ok ["a.bin"] := by decide
  obtain rfl := Except.ok.inj (hname.symm.trans hp)
  -- the file was created by the offer, and the chunk had come too early
  have hempty : (receive sample_hash true (.new ["drop"] (fun _ => none))
      [.FileChunk ⟨1, 0, 0, [7], true⟩,
        .FileOfferStart ⟨1, ⟨[⟨"a.bin", 1, sample_hash [7]⟩], 1⟩, false⟩]).1.disk
        ["drop", "a.bin"] = some [] := by
    decide
  rw [← byte_transfer_offer] at hempty
  exact absurd (hdisk.symm.trans hempty) (by decide)

end InputSync
