/-
Several daemons send to one receiver.

All connections of a daemon share one `Receiver`, whose table is keyed by the
transfer number alone, and every daemon numbers its transfers from
`TRANSFER_ID_SEQ = 1` on. So an offer can replace the entry of another
daemon's transfer, and chunks can land in an entry that is not theirs.

`owner t pre` is who offered number `t` last. As long as every chunk finds its
own sender's entry (`OwnEntries`), the merge rule applies: each sender sees
exactly what it would see alone. If a chunk does not, its file has no entry
any more, keeps what it has so far, and never gets the chunk. So isolation
holds exactly when every chunk finds its sender's entry and the reads were
full (`isolated_iff`).
-/
import InputSync.Delivery

set_option autoImplicit false

namespace InputSync

/-! ## Who owns an entry

Ownership is read off the sequence of messages, without the receiver. It is compared
with the receiver's table further down. -/

section Owner

variable {ι : Type}

/-- The owner of number `t` after one more message. -/
def own (t : UInt64) (current : Option ι) (it : ι × Message) : Option ι :=
  match it.2 with
  | .FileOfferStart offer => if offer.transfer_id = t then some it.1 else current
  | _ => current

/-- Who sent the last offer of number `t`. -/
def owner (t : UInt64) (pre : List (ι × Message)) : Option ι := pre.foldl (own t) none

/-- The owner is a fold over the messages, computed one message at a time; the three
lemmas that follow are its cases. -/
theorem owner_append (t : UInt64) (pre : List (ι × Message)) (it : ι × Message) :
    owner t (pre ++ [it]) = own t (owner t pre) it := List.foldl_concat ..

/-- An offer takes the number over, -/
theorem owner_offer_self (pre : List (ι × Message)) (σ : ι) (offer : FileOffer) :
    owner offer.transfer_id (pre ++ [(σ, .FileOfferStart offer)]) = some σ := by
  rw [owner_append, own]
  exact if_pos rfl

/-- and leaves every other number alone. -/
theorem owner_offer_ne (t : UInt64) (pre : List (ι × Message)) (σ : ι) (offer : FileOffer)
    (h : offer.transfer_id ≠ t) :
    owner t (pre ++ [(σ, .FileOfferStart offer)]) = owner t pre := by
  rw [owner_append, own]
  exact if_neg h

/-- A chunk changes no owner. The receiver does not look at who sent it. -/
theorem owner_chunk (t : UInt64) (pre : List (ι × Message)) (σ : ι) (chunk : FileChunk) :
    owner t (pre ++ [(σ, .FileChunk chunk)]) = owner t pre := owner_append ..

/-- Owning a number later takes owning it already, or an offer in between. -/
theorem owner_later (t : UInt64) (pre mid : List (ι × Message)) (σ : ι)
    (h : owner t (pre ++ mid) = some σ) :
    owner t pre = some σ ∨
      ∃ offer, (σ, .FileOfferStart offer) ∈ mid ∧ offer.transfer_id = t := by
  -- only an offer of this number can change who owns it
  induction mid using List.reverseRecOn with
  | nil => exact .inl (by rwa [List.append_nil] at h)
  | append_singleton mid it ih =>
      obtain ⟨ρ, m⟩ := it
      have hearlier : owner t (pre ++ mid) = some σ → owner t pre = some σ ∨
          ∃ offer, (σ, .FileOfferStart offer) ∈ mid ++ [(ρ, m)] ∧ offer.transfer_id = t :=
        fun h' => (ih h').imp_right
          (fun ⟨offer, hmem, hid⟩ => ⟨offer, List.mem_append_left _ hmem, hid⟩)
      rw [← List.append_assoc, owner_append] at h
      cases m with
      | FileOfferStart offer =>
          rw [own] at h
          by_cases hid : offer.transfer_id = t
          · obtain rfl := Option.some.inj ((if_pos hid).symm.trans h)
            exact .inr ⟨offer, by simp, hid⟩
          · exact hearlier ((if_neg hid).symm.trans h)
      | _ => exact hearlier h

/-- Every chunk is handled while its number belongs to its sender. -/
def OwnEntries (queue : List (ι × Message)) : Prop :=
  ∀ pre σ chunk post, queue = pre ++ (σ, .FileChunk chunk) :: post →
    owner chunk.transfer_id pre = some σ

end Owner

/-! ## Handling a message touches what its sender owns

The merge rule asks for two things of a message: what it does for its own sender depends
only on what that sender owns, and for every other sender it does nothing. Both hold of
offers and of chunks that find their own entry. -/

/-- The places of a daemon's files. -/
def Daemon.Owns (daemon : Daemon) (drop_dir q : Path) : Prop :=
  ∃ s ∈ daemon.transfers, q ∈ s.destinations drop_dir

/-- The path of a file is among those of its entry. -/
theorem path_mem (p : RecvProgress) (i : Nat) (hi : i < p.manifest.files.length) :
    p.path i hi ∈ p.paths.toList := by
  simp [RecvProgress.path]

section Shared

variable {ι : Type} (daemons : ι → Daemon) (blake3 : List UInt8 → Hash)
  (is_client : Bool)

/-- The receiver over the messages of all its connections, each tagged with
where it came from. -/
def receive_shared (host : Host) (queue : List (ι × Message)) : Host × List (ι × Outcome) :=
  runOut (tagged (receive_step blake3 is_client)) host queue

/-- A message of a transfer, handled while its number belongs to its sender. -/
structure InTurn (pre : List (ι × Message)) (it : ι × Message) : Prop where
  sent : ∃ s ∈ (daemons it.1).transfers, it.2 ∈ s.messages blake3
  own : ∀ chunk, it.2 = .FileChunk chunk → owner chunk.transfer_id pre = some it.1

/-- The shared receiver and one that only serves `σ`, as far as `σ` goes. -/
structure Agree (drop_dir : Path) (pre : List (ι × Message)) (σ : ι) (shared alone : Host) :
    Prop where
  drop : shared.receiver.drop_dir = drop_dir
  drop_alone : alone.receiver.drop_dir = drop_dir
  entries : ∀ t, owner t pre = some σ → shared.receiver.transfers t = alone.receiver.transfers t
  paths : ∀ t p, owner t pre = some σ → shared.receiver.transfers t = some p →
    ∀ q ∈ p.paths.toList, (daemons σ).Owns drop_dir q
  disk : ∀ q, (daemons σ).Owns drop_dir q → shared.disk q = alone.disk q

variable {daemons blake3} {drop_dir : Path} {pre : List (ι × Message)} {σ τ : ι}
  {shared alone : Host}

/-- An offer of `σ`, for `σ`. -/
theorem Agree.offer (h : Agree daemons drop_dir pre σ shared alone) (s : Transfer)
    (hs : s ∈ (daemons σ).transfers) (hplaced : s.Placed) :
    (receive_step blake3 is_client shared (.FileOfferStart (s.offer blake3))).2
        = (receive_step blake3 is_client alone (.FileOfferStart (s.offer blake3))).2 ∧
      Agree daemons drop_dir (pre ++ [(σ, .FileOfferStart (s.offer blake3))]) σ
        (receive_step blake3 is_client shared (.FileOfferStart (s.offer blake3))).1
        (receive_step blake3 is_client alone (.FileOfferStart (s.offer blake3))).1 := by
  obtain ⟨hout, hshared⟩ := receive_offer blake3 is_client shared s hplaced
  obtain ⟨hout', halone⟩ := receive_offer blake3 is_client alone s hplaced
  obtain ⟨paths, hpaths, hrec⟩ := hshared.entry
  obtain ⟨paths', hpaths', hrec'⟩ := halone.entry
  rw [h.drop] at hpaths
  rw [h.drop_alone] at hpaths'
  -- both begin the same entry
  obtain rfl : paths = paths' := Subtype.ext (hpaths.trans hpaths'.symm)
  -- an offer only changes the owner of its own id
  have hold : ∀ t, t ≠ s.transfer_id →
      owner t (pre ++ [(σ, .FileOfferStart (s.offer blake3))]) = some σ → owner t pre = some σ :=
    fun t ht ho => (owner_offer_ne t pre σ (s.offer blake3) ht.symm).symm.trans ho
  refine ⟨hout.trans hout'.symm, hshared.drop_dir.trans h.drop, halone.drop_dir.trans
    h.drop_alone, ?_, ?_, ?_⟩
  · intro t ho
    by_cases ht : t = s.transfer_id
    · subst ht
      rw [hrec, hrec']
      simp only [Receiver.insert, Function.update_self]
    · rw [hshared.transfers_ne t ht, halone.transfers_ne t ht]
      exact h.entries t (hold t ht ho)
  · intro t p ho hp q hq
    by_cases ht : t = s.transfer_id
    · subst ht
      rw [hrec] at hp
      simp only [Receiver.insert, Function.update_self, Option.some.injEq] at hp
      subst hp
      exact ⟨s, hs, hpaths ▸ hq⟩
    · rw [hshared.transfers_ne t ht] at hp
      exact h.paths t p (hold t ht ho) hp q hq
  · intro q hq
    by_cases hnew : q ∈ s.destinations drop_dir
    · rw [hshared.files q (by rwa [h.drop]), halone.files q (by rwa [h.drop_alone])]
    · rw [hshared.others q (by rwa [h.drop]), halone.others q (by rwa [h.drop_alone])]
      exact h.disk q hq

/-- A chunk of `σ` that finds its own entry, for `σ`. -/
theorem Agree.chunk (h : Agree daemons drop_dir pre σ shared alone) (chunk : FileChunk)
    (hown : owner chunk.transfer_id pre = some σ) :
    (receive_step blake3 is_client shared (.FileChunk chunk)).2
        = (receive_step blake3 is_client alone (.FileChunk chunk)).2 ∧
      Agree daemons drop_dir (pre ++ [(σ, .FileChunk chunk)]) σ
        (receive_step blake3 is_client shared (.FileChunk chunk)).1
        (receive_step blake3 is_client alone (.FileChunk chunk)).1 := by
  rw [receive_step_chunk, receive_step_chunk]
  have hframe := write_chunk_frame blake3 shared chunk .ok
  have hframe' := write_chunk_frame blake3 alone chunk .ok
  -- both hosts have the same entry and the same file there, so the call does the same
  obtain ⟨hout, hentry, hdisk⟩ := write_chunk_congr blake3 shared alone chunk .ok
    (h.entries _ hown)
    (fun p hi hp => h.disk _ (h.paths _ p hown hp _ (path_mem p _ hi)))
  refine ⟨congrArg (fun r => [Outcome.wrote r]) hout, hframe.drop_dir.trans h.drop,
    hframe'.drop_dir.trans h.drop_alone, ?_, ?_,
    fun q hq => hdisk q (h.disk q hq)⟩
  · intro t ho
    rw [owner_chunk] at ho
    by_cases ht : t = chunk.transfer_id
    · subst ht
      exact hentry
    · rw [hframe.transfers t ht, hframe'.transfers t ht]
      exact h.entries t ho
  · intro t p ho hp q hq
    rw [owner_chunk] at ho
    by_cases ht : t = chunk.transfer_id
    · subst ht
      obtain ⟨p', hp', hsame⟩ := hframe.paths p hp
      exact h.paths _ p' ho hp' q (hsame ▸ hq)
    · rw [hframe.transfers t ht] at hp
      exact h.paths t p ho hp q hq

/-- An offer of `σ`, for another sender. -/
theorem Agree.other_offer (h : Agree daemons drop_dir pre τ shared alone) (hστ : τ ≠ σ)
    (hdisjoint : ∀ σ τ q, (daemons σ).Owns drop_dir q → (daemons τ).Owns drop_dir q → σ = τ)
    (s : Transfer) (hs : s ∈ (daemons σ).transfers) (hplaced : s.Placed) :
    Agree daemons drop_dir (pre ++ [(σ, .FileOfferStart (s.offer blake3))]) τ
      (receive_step blake3 is_client shared (.FileOfferStart (s.offer blake3))).1 alone := by
  obtain ⟨-, hshared⟩ := receive_offer blake3 is_client shared s hplaced
  -- the offer takes its number over; what the other daemon still owns has other numbers
  have hold : ∀ t, owner t (pre ++ [(σ, .FileOfferStart (s.offer blake3))]) = some τ →
      t ≠ s.transfer_id ∧ owner t pre = some τ := by
    intro t ho
    have ht : t ≠ s.transfer_id := by
      rintro rfl
      exact hστ (Option.some.inj (ho.symm.trans (owner_offer_self pre σ (s.offer blake3))))
    exact ⟨ht, (owner_offer_ne t pre σ (s.offer blake3) ht.symm).symm.trans ho⟩
  refine ⟨hshared.drop_dir.trans h.drop, h.drop_alone, ?_, ?_, ?_⟩
  · intro t ho
    obtain ⟨ht, ho⟩ := hold t ho
    rw [hshared.transfers_ne t ht]
    exact h.entries t ho
  · intro t p ho hp q hq
    obtain ⟨ht, ho⟩ := hold t ho
    rw [hshared.transfers_ne t ht] at hp
    exact h.paths t p ho hp q hq
  -- the new files are the other daemon's, and no path is shared
  · intro q hq
    have hnew : q ∉ s.destinations drop_dir :=
      fun hqs => hστ (hdisjoint τ σ q hq ⟨s, hs, hqs⟩)
    rw [hshared.others q (by rwa [h.drop])]
    exact h.disk q hq

/-- A chunk of `σ` that finds its own entry, for another sender. -/
theorem Agree.other_chunk {alone' : Host} (h : Agree daemons drop_dir pre τ shared alone)
    (hσ : Agree daemons drop_dir pre σ shared alone') (hστ : τ ≠ σ)
    (hdisjoint : ∀ σ τ q, (daemons σ).Owns drop_dir q → (daemons τ).Owns drop_dir q → σ = τ)
    (chunk : FileChunk) (hown : owner chunk.transfer_id pre = some σ) :
    Agree daemons drop_dir (pre ++ [(σ, .FileChunk chunk)]) τ
      (receive_step blake3 is_client shared (.FileChunk chunk)).1 alone := by
  rw [receive_step_chunk]
  have hframe := write_chunk_frame blake3 shared chunk .ok
  -- the chunk's number is owned by the other daemon, so it is none of this one's
  have hne : ∀ t, owner t pre = some τ → t ≠ chunk.transfer_id := by
    rintro t ho rfl
    exact hστ (Option.some.inj (ho.symm.trans hown))
  refine ⟨hframe.drop_dir.trans h.drop, h.drop_alone, ?_, ?_, ?_⟩
  · intro t ho
    rw [owner_chunk] at ho
    rw [hframe.transfers t (hne t ho)]
    exact h.entries t ho
  · intro t p ho hp q hq
    rw [owner_chunk] at ho
    rw [hframe.transfers t (hne t ho)] at hp
    exact h.paths t p ho hp q hq
  · intro q hq
    rw [hframe.disk q, h.disk q hq]
    rintro p hi hp rfl
    exact hστ (hdisjoint τ σ _ hq (hσ.paths _ p hown hp _ (path_mem p _ hi)))

/-- **In turn, each sender sees what it would see alone.** -/
theorem shared_simulates [DecidableEq ι] (disk : Disk) (queue : List (ι × Message))
    (hplaced : ∀ σ, ∀ s ∈ (daemons σ).transfers, s.Placed)
    (hdisjoint : ∀ σ τ q, (daemons σ).Owns drop_dir q → (daemons τ).Owns drop_dir q → σ = τ)
    (hturn : ∀ pre it post, queue = pre ++ it :: post → InTurn daemons blake3 pre it) (σ : ι) :
    select σ (receive_shared blake3 is_client (.new drop_dir disk) queue).2
        = (receive blake3 is_client (.new drop_dir disk) (select σ queue)).2 ∧
      Agree daemons drop_dir queue σ
        (receive_shared blake3 is_client (.new drop_dir disk) queue).1
        (receive blake3 is_client (.new drop_dir disk) (select σ queue)).1 := by
  refine merge_simulates (receive_step blake3 is_client) (InTurn daemons blake3)
    (Agree daemons drop_dir) (.new drop_dir disk) queue
    (fun σ => ⟨rfl, rfl, fun t _ => rfl, fun t p _ hp => (nomatch hp), fun q _ => rfl⟩)
    (fun pre σ m shared alone hit hrel => ?_)
    (fun pre σ τ m shared alone alone' hτ hit hrel hrel' => ?_)
    hturn σ
  · obtain ⟨s, hs, hm⟩ := hit.sent
    rcases List.mem_cons.mp hm with rfl | hmem
    · exact hrel.offer is_client s hs (hplaced σ s hs)
    · obtain ⟨chunk, -, rfl⟩ := List.mem_map.mp hmem
      exact hrel.chunk is_client chunk (hit.own chunk rfl)
  · obtain ⟨s, hs, hm⟩ := hit.sent
    rcases List.mem_cons.mp hm with rfl | hmem
    · exact hrel'.other_offer is_client hτ hdisjoint s hs (hplaced σ s hs)
    · obtain ⟨chunk, -, rfl⟩ := List.mem_map.mp hmem
      exact hrel'.other_chunk is_client hrel hτ hdisjoint chunk (hit.own chunk rfl)

/-! ## A chunk that lost its entry

When another offer has taken the number, the chunk is handled by an entry that is not
its sender's. Its file is then in no entry at all, and nothing that comes later reaches
it. -/

/-- Every entry is the one its owner's offer made. -/
structure Accounted (daemons : ι → Daemon) (drop_dir : Path) (pre : List (ι × Message))
    (host : Host) : Prop where
  drop : host.receiver.drop_dir = drop_dir
  entry : ∀ t p, host.receiver.transfers t = some p → ∃ ρ, owner t pre = some ρ ∧
    ∃ s ∈ (daemons ρ).transfers, s.transfer_id = t ∧ p.paths.toList = s.destinations drop_dir

/-- An offer replaces the entry of its number, and its sender becomes the owner: entry
and owner change together. -/
theorem Accounted.offer {host : Host} (h : Accounted daemons drop_dir pre host) (s : Transfer)
    (hs : s ∈ (daemons σ).transfers) (hplaced : s.Placed) :
    Accounted daemons drop_dir (pre ++ [(σ, .FileOfferStart (s.offer blake3))])
      (receive_step blake3 is_client host (.FileOfferStart (s.offer blake3))).1 := by
  obtain ⟨-, hbegun⟩ := receive_offer blake3 is_client host s hplaced
  refine ⟨hbegun.drop_dir.trans h.drop, ?_⟩
  intro t p hp
  by_cases ht : t = s.transfer_id
  · subst ht
    obtain ⟨paths, hpaths, hrec⟩ := hbegun.entry
    rw [hrec] at hp
    simp only [Receiver.insert, Function.update_self, Option.some.injEq] at hp
    subst hp
    rw [h.drop] at hpaths
    exact ⟨σ, owner_offer_self pre σ (s.offer blake3), s, hs, rfl, hpaths⟩
  · rw [hbegun.transfers_ne t ht] at hp
    obtain ⟨ρ, hρ, hrest⟩ := h.entry t p hp
    exact ⟨ρ, (owner_offer_ne t pre σ (s.offer blake3) (Ne.symm ht)).trans hρ, hrest⟩

/-- A chunk advances an entry and never makes one, so an entry still is the one its
owner's offer made. -/
theorem Accounted.chunk {host : Host} (h : Accounted daemons drop_dir pre host)
    (chunk : FileChunk) :
    Accounted daemons drop_dir (pre ++ [(σ, .FileChunk chunk)])
      (receive_step blake3 is_client host (.FileChunk chunk)).1 := by
  rw [receive_step_chunk]
  have hframe := write_chunk_frame blake3 host chunk .ok
  refine ⟨hframe.drop_dir.trans h.drop, ?_⟩
  intro t p hp
  rw [owner_chunk]
  by_cases ht : t = chunk.transfer_id
  · subst ht
    obtain ⟨p', hp', hsame⟩ := hframe.paths p hp
    rw [hsame]
    exact h.entry _ p' hp'
  · rw [hframe.transfers t ht] at hp
    exact h.entry t p hp

variable [DecidableEq ι] {queue rest : List (ι × Message)}

/-- A message in the queue is a message of some transfer of the daemon it came from. -/
theorem sent_of_mem (hsends : ∀ σ, (daemons σ).Sends blake3 (select σ queue)) (it : ι × Message)
    (hit : it ∈ queue) : ∃ s ∈ (daemons it.1).transfers, it.2 ∈ s.messages blake3 :=
  (hsends it.1).only it.2 ((mem_select it.1 it.2 queue).mpr hit)

/-- Every run is accounted for. -/
theorem accounted_run (disk : Disk) (hplaced : ∀ σ, ∀ s ∈ (daemons σ).transfers, s.Placed)
    (hsends : ∀ σ, (daemons σ).Sends blake3 (select σ queue)) (hpre : pre <+: queue) :
    Accounted daemons drop_dir pre
      (receive_shared blake3 is_client (.new drop_dir disk) pre).1 := by
  refine runOut_history (tagged (receive_step blake3 is_client))
    (fun before host _ => Accounted daemons drop_dir before host) (.new drop_dir disk) pre
    ⟨rfl, fun t p hp => nomatch hp⟩ (fun before it after hsplit host outs hinv => ?_)
  obtain ⟨s, hs, hm⟩ := sent_of_mem hsends it (hpre.subset (by rw [hsplit]; simp))
  obtain ⟨ρ, m⟩ := it
  rcases List.mem_cons.mp hm with rfl | hmem
  · exact hinv.offer is_client s hs (hplaced ρ s hs)
  · obtain ⟨chunk, -, rfl⟩ := List.mem_map.mp hmem
    exact hinv.chunk is_client chunk

/-- A daemon offers a transfer once. -/
theorem offered_once (hsends : ∀ σ, (daemons σ).Sends blake3 (select σ queue))
    (hsplit : queue = pre ++ rest) (s : Transfer) (hs : s ∈ (daemons σ).transfers)
    (hoffered : .FileOfferStart (s.offer blake3) ∈ select σ pre) (offer : FileOffer)
    (hmem : (σ, .FileOfferStart offer) ∈ rest) : offer.transfer_id ≠ s.transfer_id := by
  obtain ⟨before, after, rfl⟩ := List.append_of_mem hmem
  have hstream : select σ queue = (select σ pre ++ select σ before) ++
      .FileOfferStart offer :: select σ after := by
    rw [hsplit, select_append, select_append, select_cons_self, List.append_assoc]
  obtain ⟨s', hs', rfl, hnone, -⟩ := (hsends σ).carries.offer_first offer hstream
  intro hid
  obtain rfl := (hsends σ).carries.eq_of_id hs' hs hid
  have hin : Message.FileOfferStart (s'.offer blake3)
      ∈ messages_of s'.transfer_id (select σ pre ++ select σ before) :=
    (mem_messages_of _ _ _).mpr ⟨List.mem_append_left _ hoffered, rfl⟩
  rw [hnone] at hin
  cases hin

/-- **A file whose number was taken over stays as it is.** -/
theorem orphan_stays (hplaced : ∀ σ, ∀ s ∈ (daemons σ).transfers, s.Placed)
    (hdisjoint : ∀ σ τ q, (daemons σ).Owns drop_dir q → (daemons τ).Owns drop_dir q → σ = τ)
    (hsends : ∀ σ, (daemons σ).Sends blake3 (select σ queue)) (hsplit : queue = pre ++ rest)
    (hdist : DistinctPlaces (daemons σ).transfers drop_dir) (s : Transfer)
    (hs : s ∈ (daemons σ).transfers)
    (hoffered : .FileOfferStart (s.offer blake3) ∈ select σ pre)
    (hlost : owner s.transfer_id pre ≠ some σ) (q : Path) (hq : q ∈ s.destinations drop_dir)
    (host : Host) (hhost : Accounted daemons drop_dir pre host) :
    (receive_shared blake3 is_client host rest).1.disk q = host.disk q := by
  have hrun : Accounted daemons drop_dir (pre ++ rest) (receive_shared blake3 is_client host rest).1 ∧
      (receive_shared blake3 is_client host rest).1.disk q = host.disk q := by
    refine runOut_history (tagged (receive_step blake3 is_client))
      (fun mid host' _ => Accounted daemons drop_dir (pre ++ mid) host' ∧ host'.disk q = host.disk q)
      host rest ⟨by rwa [List.append_nil], rfl⟩ (fun mid it after hmid host' outs hinv => ?_)
    obtain ⟨hacc, hdisk⟩ := hinv
    have hit : it ∈ rest := by
      rw [hmid]
      simp
    obtain ⟨s', hs', hm⟩ := sent_of_mem hsends it (by rw [hsplit]; exact List.mem_append_right _ hit)
    obtain ⟨ρ, m⟩ := it
    -- who else goes to `q` is `s` itself
    have hsame : ∀ ρ', ∀ s'' ∈ (daemons ρ').transfers, q ∈ s''.destinations drop_dir →
        ρ' = σ ∧ s'' = s := by
      intro ρ' s'' hs'' hq'
      obtain rfl := hdisjoint ρ' σ q ⟨s'', hs'', hq'⟩ ⟨s, hs, hq⟩
      exact ⟨rfl, hdist.eq_of_mem hs'' hs q hq' hq⟩
    rw [← List.append_assoc]
    rcases List.mem_cons.mp hm with rfl | hmem
    · refine ⟨hacc.offer is_client s' hs' (hplaced ρ s' hs'), ?_⟩
      obtain ⟨-, hbegun⟩ := receive_offer blake3 is_client host' s' (hplaced ρ s' hs')
      refine (hbegun.others q ?_).trans hdisk
      intro hq'
      rw [hacc.drop] at hq'
      obtain ⟨rfl, rfl⟩ := hsame ρ s' hs' hq'
      exact offered_once hsends hsplit s' hs hoffered _ hit rfl
    · obtain ⟨chunk, -, rfl⟩ := List.mem_map.mp hmem
      refine ⟨hacc.chunk is_client chunk, ?_⟩
      refine ((write_chunk_frame blake3 host' chunk .ok).disk q ?_).trans hdisk
      rintro p hi hp rfl
      obtain ⟨ρ', hρ', s'', hs'', hid, hpaths⟩ := hacc.entry _ p hp
      obtain ⟨rfl, rfl⟩ := hsame ρ' s'' hs'' (hpaths ▸ path_mem p _ hi)
      rw [← hid] at hρ'
      rcases owner_later _ _ _ _ hρ' with hearly | ⟨offer, hmem', hoffer⟩
      · exact hlost hearly
      · exact offered_once hsends hsplit s'' hs hoffered offer
          (by rw [hmid]; exact List.mem_append_left _ hmem') hoffer
  exact hrun.2

/-! ## Isolation

The two directions. The second goes by the first chunk that does not find its entry: up
to there everything was in turn, and its file can no longer become what it should. -/

/-- All calls succeed, and each sender gets the results and the files it would
get alone. -/
structure Isolated (daemons : ι → Daemon) (blake3 : List UInt8 → Hash) (is_client : Bool)
    (drop_dir : Path) (disk : Disk) (queue : List (ι × Message)) : Prop where
  accepted : ∀ o ∈ (receive_shared blake3 is_client (.new drop_dir disk) queue).2, o.2.accepted
  results : ∀ σ, select σ (receive_shared blake3 is_client (.new drop_dir disk) queue).2
    = (receive blake3 is_client (.new drop_dir disk) (select σ queue)).2
  contents : ∀ σ q, (daemons σ).Owns drop_dir q →
    (receive_shared blake3 is_client (.new drop_dir disk) queue).1.disk q
      = (receive blake3 is_client (.new drop_dir disk) (select σ queue)).1.disk q

variable {disk : Disk}

/-- Alone, a sender's calls succeed as far as what it sends hashes right. -/
theorem alone_accepted_iff (hplaced : ∀ σ, ∀ s ∈ (daemons σ).transfers, s.Placed)
    (hsendable : ∀ σ, ∀ s ∈ (daemons σ).transfers, s.Sendable blake3)
    (hsends : ∀ σ, (daemons σ).Sends blake3 (select σ queue)) (host : Host) (σ : ι) :
    (∀ o ∈ (receive blake3 is_client host (select σ queue)).2, o.accepted) ↔
      ∀ s ∈ (daemons σ).transfers, ∀ f ∈ s.files, blake3 f.sent = blake3 f.contents := by
  have hcarry := (hsends σ).carries
  have hrun := delivering_run is_client hcarry (hplaced σ)
    (fun s hs => (hsendable σ s hs).length_lt) host List.prefix_rfl
  rw [hrun.verified]
  refine forall₂_congr ?_
  intro s hs
  rw [hcarry.chunks_of_eq s hs, Transfer.chunks_verified blake3 (hsendable σ s hs).length_lt]

/-- While every chunk finds its entry, all messages are in turn. -/
theorem OwnEntries.in_turn (hown : OwnEntries queue)
    (hsends : ∀ σ, (daemons σ).Sends blake3 (select σ queue)) (pre : List (ι × Message))
    (it : ι × Message) (post : List (ι × Message)) (hsplit : queue = pre ++ it :: post) :
    InTurn daemons blake3 pre it := by
  refine ⟨sent_of_mem hsends it (by rw [hsplit]; simp), ?_⟩
  intro chunk hchunk
  obtain ⟨σ, m⟩ := it
  obtain rfl : m = .FileChunk chunk := hchunk
  exact hown pre σ chunk post hsplit

/-- The first half. With every chunk finding its own entry each sender sees what it
would alone, and alone a transfer with full reads is accepted. -/
theorem isolated_of_own (hplaced : ∀ σ, ∀ s ∈ (daemons σ).transfers, s.Placed)
    (hsendable : ∀ σ, ∀ s ∈ (daemons σ).transfers, s.Sendable blake3)
    (hdisjoint : ∀ σ τ q, (daemons σ).Owns drop_dir q → (daemons τ).Owns drop_dir q → σ = τ)
    (hsends : ∀ σ, (daemons σ).Sends blake3 (select σ queue))
    (hfull : ∀ σ, ∀ s ∈ (daemons σ).transfers, ∀ f ∈ s.files, f.FullReads)
    (hown : OwnEntries queue) :
    Isolated daemons blake3 is_client drop_dir disk queue := by
  have hsim := shared_simulates is_client disk queue hplaced hdisjoint (hown.in_turn hsends)
  refine ⟨?_, fun σ => (hsim σ).1, fun σ q hq => (hsim σ).2.disk q hq⟩
  rintro ⟨σ, o⟩ ho
  have hmem := (mem_select σ o _).mpr ho
  rw [(hsim σ).1] at hmem
  refine (alone_accepted_iff is_client hplaced hsendable hsends _ σ).mpr ?_ o hmem
  intro s hs f hf
  rw [f.sent_eq_contents_iff.mpr (hfull σ s hs f hf)]

/-- Isolation takes full reads, where the hash tells contents from what a short
read leaves of them. -/
theorem full_of_isolated (hplaced : ∀ σ, ∀ s ∈ (daemons σ).transfers, s.Placed)
    (hsendable : ∀ σ, ∀ s ∈ (daemons σ).transfers, s.Sendable blake3)
    (hsends : ∀ σ, (daemons σ).Sends blake3 (select σ queue))
    (hhash : ∀ σ, ∀ s ∈ (daemons σ).transfers, ∀ f ∈ s.files, ∀ data, data <+: f.contents →
      blake3 data = blake3 f.contents → data = f.contents)
    (h : Isolated daemons blake3 is_client drop_dir disk queue) (σ : ι) (s : Transfer)
    (hs : s ∈ (daemons σ).transfers) (f : SourceFile) (hf : f ∈ s.files) : f.FullReads := by
  have halone : ∀ o ∈ (receive blake3 is_client (.new drop_dir disk) (select σ queue)).2,
      o.accepted := by
    intro o ho
    rw [← h.results σ] at ho
    exact h.accepted (σ, o) ((mem_select σ o _).mp ho)
  have hsame := (alone_accepted_iff is_client hplaced hsendable hsends _ σ).mp halone s hs f hf
  exact f.sent_eq_contents_iff.mp
    (hhash σ s hs f hf f.sent (f.send_reads.sent_isPrefix f.contents) hsame)

/-- Where all messages before a chunk were in turn, isolation takes that the
chunk finds its own entry. -/
theorem own_step {post : List (ι × Message)}
    (hplaced : ∀ σ, ∀ s ∈ (daemons σ).transfers, s.Placed)
    (hsendable : ∀ σ, ∀ s ∈ (daemons σ).transfers, s.Sendable blake3)
    (hdisjoint : ∀ σ τ q, (daemons σ).Owns drop_dir q → (daemons τ).Owns drop_dir q → σ = τ)
    (hsends : ∀ σ, (daemons σ).Sends blake3 (select σ queue))
    (hdist : ∀ σ, DistinctPlaces (daemons σ).transfers drop_dir)
    (h : Isolated daemons blake3 is_client drop_dir disk queue) (chunk : FileChunk)
    (hsplit : queue = pre ++ (σ, .FileChunk chunk) :: post)
    (hbefore : ∀ pre' it' post', pre = pre' ++ it' :: post' → InTurn daemons blake3 pre' it') :
    owner chunk.transfer_id pre = some σ := by
  by_contra hlost
  have hstream : select σ queue = select σ pre ++ .FileChunk chunk :: select σ post := by
    rw [hsplit, select_append, select_cons_self]
  obtain ⟨s, hs, hid, hoffered, q, hq, hgrows⟩ := contents_grow is_client
    (hstream ▸ (hsends σ).carries) (hplaced σ) (fun s hs => (hsendable σ s hs).length_lt)
    (.new drop_dir disk) (hdist σ)
  rw [hid] at hlost
  have hacc : Accounted daemons drop_dir pre
      (receive_shared blake3 is_client (.new drop_dir disk) pre).1 :=
    accounted_run is_client disk hplaced hsends (hsplit ▸ List.prefix_append _ _)
  -- without its entry the file stays as it is, and yet it is to be complete in the end
  have hstays := orphan_stays is_client hplaced hdisjoint hsends hsplit (hdist σ) s hs hoffered
    hlost q hq _ hacc
  have hnow := (shared_simulates is_client disk pre hplaced hdisjoint hbefore σ).2.disk q
    ⟨s, hs, hq⟩
  have hend := h.contents σ q ⟨s, hs, hq⟩
  rw [hstream, hsplit, receive_shared, runOut_append] at hend
  exact hgrows (hnow.symm.trans (hstays.symm.trans hend))

/-- Isolation takes that every chunk finds its own entry. -/
theorem own_of_isolated (hplaced : ∀ σ, ∀ s ∈ (daemons σ).transfers, s.Placed)
    (hsendable : ∀ σ, ∀ s ∈ (daemons σ).transfers, s.Sendable blake3)
    (hdisjoint : ∀ σ τ q, (daemons σ).Owns drop_dir q → (daemons τ).Owns drop_dir q → σ = τ)
    (hsends : ∀ σ, (daemons σ).Sends blake3 (select σ queue))
    (hdist : ∀ σ, DistinctPlaces (daemons σ).transfers drop_dir)
    (h : Isolated daemons blake3 is_client drop_dir disk queue) : OwnEntries queue := by
  -- by induction on the length of the prefix: everything before it is in turn
  have hall : ∀ n, ∀ pre it post, pre.length = n → queue = pre ++ it :: post →
      InTurn daemons blake3 pre it := by
    intro n
    induction n using Nat.strongRecOn with
    | ind n ih =>
        intro pre it post hlen hsplit
        refine ⟨sent_of_mem hsends it (by rw [hsplit]; simp), ?_⟩
        intro chunk hchunk
        obtain ⟨σ, m⟩ := it
        obtain rfl : m = .FileChunk chunk := hchunk
        refine own_step is_client hplaced hsendable hdisjoint hsends hdist h chunk hsplit
          (fun pre' it' post' hpre => ?_)
        refine ih pre'.length ?_ pre' it' (post' ++ (σ, .FileChunk chunk) :: post) rfl ?_
        · rw [← hlen, hpre, List.length_append, List.length_cons]
          omega
        · rw [hsplit, hpre, List.append_assoc, List.cons_append]
  intro pre σ chunk post hsplit
  exact (hall pre.length pre (σ, .FileChunk chunk) post rfl hsplit).own chunk rfl

end Shared

/-! ## Two daemons with a file each

The smallest instance, in the two orders: one transfer after the other, and both offers
first. -/

/-- A daemon that sends one file of one byte, as its first transfer. -/
def byte_daemon (relative_path : String) (byte : UInt8) : Daemon where
  calls := [([byte_file relative_path byte], false)]
  few := by simp
  transfers := [byte_transfer TRANSFER_ID_SEQ relative_path byte]
  numbered := List.Sublist.refl _

/-- Two daemons with a file each. -/
def two_daemons : Bool → Daemon
  | false => byte_daemon "a.bin" 7
  | true => byte_daemon "b.bin" 9

/-- The offer and the chunk of each of them. -/
def byte_offer (relative_path : String) (byte : UInt8) : Message :=
  .FileOfferStart ((byte_transfer TRANSFER_ID_SEQ relative_path byte).offer sample_hash)

def byte_chunk (byte : UInt8) : Message := .FileChunk ⟨TRANSFER_ID_SEQ, 0, 0, [byte], true⟩

/-- One after the other. -/
def one_by_one : List (Bool × Message) :=
  [(false, byte_offer "a.bin" 7), (false, byte_chunk 7), (true, byte_offer "b.bin" 9),
    (true, byte_chunk 9)]

/-- Both offers, then both chunks. -/
def side_by_side : List (Bool × Message) :=
  [(false, byte_offer "a.bin" 7), (true, byte_offer "b.bin" 9), (false, byte_chunk 7),
    (true, byte_chunk 9)]

/-- What such a daemon sends, in this order. -/
theorem byte_daemon_sends (relative_path : String) (byte : UInt8) :
    (byte_daemon relative_path byte).Sends sample_hash
      [byte_offer relative_path byte, byte_chunk byte] := by
  have hmessages : (byte_transfer TRANSFER_ID_SEQ relative_path byte).messages sample_hash
      = [byte_offer relative_path byte, byte_chunk byte] := by
    rw [Transfer.messages, byte_transfer_chunks]
    rfl
  have hcarry := (byte_transfer TRANSFER_ID_SEQ relative_path byte).carries_messages sample_hash
  rw [hmessages] at hcarry
  exact ⟨hcarry.only, hcarry.each⟩

/-- The two daemons send to different places, so that only the number can bring them
together. -/
theorem two_daemons_disjoint (σ τ : Bool) (q : Path) (hσ : (two_daemons σ).Owns ["drop"] q)
    (hτ : (two_daemons τ).Owns ["drop"] q) : σ = τ := by
  have hplace : ∀ ρ, (two_daemons ρ).Owns ["drop"] q →
      q = ["drop", if ρ then "b.bin" else "a.bin"] := by
    rintro ρ ⟨s, hs, hq⟩
    cases ρ with
    | false =>
        obtain rfl := List.mem_singleton.mp hs
        exact List.mem_singleton.mp
          (show q ∈ [["drop", "a.bin"]] by
            rwa [show [["drop", "a.bin"]]
              = (byte_transfer TRANSFER_ID_SEQ "a.bin" 7).destinations ["drop"] by decide])
    | true =>
        obtain rfl := List.mem_singleton.mp hs
        exact List.mem_singleton.mp
          (show q ∈ [["drop", "b.bin"]] by
            rwa [show [["drop", "b.bin"]]
              = (byte_transfer TRANSFER_ID_SEQ "b.bin" 9).destinations ["drop"] by decide])
  have heq := (hplace σ hσ).symm.trans (hplace τ hτ)
  cases σ <;> cases τ
  · rfl
  · exact absurd heq (by decide)
  · exact absurd heq (by decide)
  · rfl

/-- What the theorem asks of a daemon with one byte to send. -/
theorem byte_daemon_ready (relative_path : String) (byte : UInt8)
    (hplaced : ∃ p, sanitize relative_path = .ok p)
    (hfits : 29 + (48 + relative_path.utf8ByteSize) ≤ MAX_PAYLOAD_SIZE.toNat)
    (hbyte : sample_hash [] ≠ sample_hash [byte]) (s : Transfer)
    (hs : s ∈ (byte_daemon relative_path byte).transfers) :
    s.Placed ∧ s.Sendable sample_hash ∧ (∀ f ∈ s.files, f.FullReads) ∧
      ∀ f ∈ s.files, ∀ data, data <+: f.contents → sample_hash data = sample_hash f.contents →
        data = f.contents := by
  obtain rfl := List.mem_singleton.mp hs
  refine ⟨?_, ?_, ?_, ?_⟩
  · intro f hf
    rw [List.mem_singleton.mp hf]
    exact hplaced
  · rw [Transfer.sendable_iff]
    exact hfits
  · intro f hf
    rw [List.mem_singleton.mp hf]
    exact Reader.full_full _
  · intro f hf data hdata hsame
    rw [List.mem_singleton.mp hf] at hdata hsame ⊢
    rcases List.eq_nil_or_concat data with rfl | ⟨init, b, rfl⟩
    · exact absurd hsame hbyte
    · refine hdata.eq_of_length_le ?_
      simp [byte_file]

end InputSync
