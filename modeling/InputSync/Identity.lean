/-
The identity of a machine (`load_or_generate` of `crates/network/src/tls.rs`):
the two files `cert.der` and `key.der`, which the first run writes and every
later one reads. The daemon runs it when it starts, and so does the command
that prints the fingerprint.

Each run is modelled by its system calls: it looks for the files, reads them
piece by piece, or generates a pair and writes it piece by piece, and it can be
stopped (killed, or by an error) between any two calls. Where both files are
there and nobody writes, they stay as they are (`identity_frozen`), so a
fingerprint that was printed once can be pinned. Nothing guards the time in
between: a first run that is stopped while it writes the key leaves part of
it, and `identity_whole_iff` says that this is all that can go wrong as long
as the runs do not overlap.
-/
import InputSync.Pinning
import InputSync.Trace
import Mathlib.Logic.Function.Basic

set_option autoImplicit false

namespace InputSync

universe u

/-! ## Files

Offsets and pieces. How much a system call reads or writes is up to the system. -/

/-- A write at an offset: what was there is overwritten, a gap is filled with
zeros. -/
def write_at (content : List UInt8) (off : Nat) (chunk : List UInt8) : List UInt8 :=
  content.take off ++ List.replicate (off - content.length) 0 ++ chunk
    ++ content.drop (off + chunk.length)

/-- The next piece of a file, after what has been read. -/
def read_more (content got : List UInt8) (n : Nat) : List UInt8 :=
  got ++ (content.drop got.length).take n

/-- Writing a content piece by piece, from the front: after each piece the file is a
longer beginning of it. -/
theorem write_at_take (bytes : List UInt8) (off n : Nat) (hoff : off ≤ bytes.length) :
    write_at (bytes.take off) off ((bytes.drop off).take n) = bytes.take (off + n) := by
  have hlen : (bytes.take off).length = off := by
    rw [List.length_take]
    omega
  have hpast : ∀ k, (bytes.take off).drop (off + k) = [] := by
    intro k
    rw [List.drop_eq_nil_iff, hlen]
    exact Nat.le_add_right off k
  rw [write_at, List.take_take, Nat.min_self, hlen, Nat.sub_self, List.replicate_zero,
    List.append_nil, hpast, List.append_nil, List.take_add]

/-- Reading it piece by piece: what was read stays a beginning of what is there. -/
theorem prefix_read_more {content got : List UInt8} (h : got <+: content) (n : Nat) :
    read_more content got n <+: content := by
  obtain ⟨rest, rfl⟩ := h
  rw [read_more, List.drop_left]
  exact (List.prefix_append_right_inj got).mpr (List.take_prefix n rest)

/-! ## A run

A run is a program counter with what it has read. Any number of runs share the two
files. -/

/-- `CertBundle`. -/
structure CertBundle where
  cert_chain : List CertificateDer
  key : List UInt8
  fingerprint_hex : String
deriving DecidableEq

/-- The bundle for a certificate and its key. -/
def CertBundle.of (blake3 : List UInt8 → Hash) (cert key : List UInt8) : CertBundle :=
  { cert_chain := [⟨cert⟩], key, fingerprint_hex := sha256_hex blake3 cert }

/-- What `generate_simple_self_signed` makes: a certificate and its key. -/
structure CertifiedKey where
  cert : List UInt8
  key_pair : List UInt8
deriving DecidableEq

/-- The next thing a run of `load_or_generate` does. -/
inductive LoadTask
  | cert_exists
  | key_exists
  | read_cert (got : List UInt8)
  | read_key (cert got : List UInt8)
  | generate
  -- `fs::write` creates the file, or empties it, and then writes
  | create_cert (pair : CertifiedKey)
  | write_cert (pair : CertifiedKey) (off : Nat)
  | create_key (pair : CertifiedKey)
  | write_key (pair : CertifiedKey) (off : Nat)
deriving DecidableEq

/-- The two files, the runs under way, and what has been returned. -/
structure CertDir (ι : Type u) where
  cert : Option (List UInt8)
  key : Option (List UInt8)
  task : ι → Option LoadTask
  returned : List CertBundle

/-- A run starts, makes its next system call, or is stopped. What the call
gets from outside is a number: how many bytes it reads or writes, or which
pair it generates. -/
inductive CertStep (ι : Type u)
  | start (run : ι)
  | call (run : ι) (n : Nat)
  | stop (run : ι)

namespace CertDir

variable {ι : Type u} [DecidableEq ι] (blake3 : List UInt8 → Hash) (fresh : Nat → CertifiedKey)

/-- A new machine. -/
def new : CertDir ι := { cert := none, key := none, task := fun _ => none, returned := [] }

/-- The run goes on to this task, or is over. -/
def goto (self : CertDir ι) (run : ι) (task : Option LoadTask) : CertDir ι :=
  { self with task := Function.update self.task run task }

/-- The run is done, with this certificate and key. -/
def finish (self : CertDir ι) (run : ι) (cert key : List UInt8) : CertDir ι :=
  { self.goto run none with returned := self.returned ++ [.of blake3 cert key] }

/-- The next system call of a run. A file that is not there cannot be read. -/
def call (self : CertDir ι) (run : ι) (n : Nat) : LoadTask → Option (CertDir ι)
  | .cert_exists =>
    some (self.goto run (some (if self.cert.isSome then .key_exists else .generate)))
  | .key_exists =>
    some (self.goto run (some (if self.key.isSome then .read_cert [] else .generate)))
  | .read_cert got =>
    self.cert.map (fun content =>
      if got.length < content.length then
        self.goto run (some (.read_cert (read_more content got (n + 1))))
      else self.goto run (some (.read_key got [])))
  | .read_key cert got =>
    self.key.map (fun content =>
      if got.length < content.length then
        self.goto run (some (.read_key cert (read_more content got (n + 1))))
      else self.finish blake3 run cert got)
  | .generate => some (self.goto run (some (.create_cert (fresh n))))
  | .create_cert pair => some { self.goto run (some (.write_cert pair 0)) with cert := some [] }
  | .write_cert pair off =>
    self.cert.map (fun content =>
      if off < pair.cert.length then
        { self.goto run (some (.write_cert pair (off + (n + 1)))) with
          cert := some (write_at content off ((pair.cert.drop off).take (n + 1))) }
      else self.goto run (some (.create_key pair)))
  | .create_key pair => some { self.goto run (some (.write_key pair 0)) with key := some [] }
  | .write_key pair off =>
    self.key.map (fun content =>
      if off < pair.key_pair.length then
        { self.goto run (some (.write_key pair (off + (n + 1)))) with
          key := some (write_at content off ((pair.key_pair.drop off).take (n + 1))) }
      else self.finish blake3 run pair.cert pair.key_pair)

/-- One step of any of the runs. -/
def step (self : CertDir ι) : CertStep ι → Option (CertDir ι)
  | .start run => if self.task run = none then some (self.goto run (some .cert_exists)) else none
  | .call run n => (self.task run).bind (self.call blake3 fresh run n)
  | .stop run => if self.task run = none then none else some (self.goto run none)

/-! ## An identity that is there stays

The code never writes where both files are there, so a frozen directory stays frozen. -/

variable {blake3 fresh}

/-- The task of a run that only reads, and has read what is there. -/
def Reads (cert key : List UInt8) : Option LoadTask → Prop
  | none | some .cert_exists | some .key_exists => True
  | some (.read_cert got) => got <+: cert
  | some (.read_key cert' got) => cert' = cert ∧ got <+: key
  | _ => False

/-- Both files are there, and no run writes. -/
structure Frozen (cert key : List UInt8) (dir : CertDir ι) : Prop where
  cert_there : dir.cert = some cert
  key_there : dir.key = some key
  reads : ∀ run, Reads cert key (dir.task run)

variable {cert key : List UInt8} {self next : CertDir ι}

/-- A run that only reads and goes on reading leaves the pair frozen. -/
theorem Frozen.goto (h : self.Frozen cert key) (run : ι) (task : Option LoadTask)
    (htask : Reads cert key task) : (self.goto run task).Frozen cert key := by
  refine ⟨h.cert_there, h.key_there, ?_⟩
  intro r
  by_cases hr : r = run
  · subst hr
    simpa only [CertDir.goto, Function.update_self] using htask
  · simpa only [CertDir.goto, Function.update_of_ne hr] using h.reads r

/-- A prefix that is not shorter is all. -/
theorem prefix_eq {got content : List UInt8} (h : got <+: content)
    (hlen : ¬ got.length < content.length) : got = content :=
  h.eq_of_length_le (Nat.not_lt.mp hlen)

/-- **What a step can do** to a frozen pair: nothing, but return it. -/
theorem Frozen.step (h : self.Frozen cert key) (a : CertStep ι)
    (hstep : self.step blake3 fresh a = some next) :
    next.Frozen cert key ∧
      (next.returned = self.returned ∨ next.returned = self.returned ++ [.of blake3 cert key]) := by
  cases a with
  | start run =>
      simp only [CertDir.step] at hstep
      split_ifs at hstep
      cases hstep
      exact ⟨h.goto run _ trivial, .inl rfl⟩
  | stop run =>
      simp only [CertDir.step] at hstep
      split_ifs at hstep
      cases hstep
      exact ⟨h.goto run _ trivial, .inl rfl⟩
  | call run n =>
      obtain ⟨task, htask, hcall⟩ := Option.bind_eq_some_iff.mp hstep
      have hreads := h.reads run
      rw [htask] at hreads
      cases task with
      -- with both files there a run only reads, and what it has read so far is a part
      -- of them
      | cert_exists =>
          cases hcall
          rw [h.cert_there]
          exact ⟨h.goto run _ trivial, .inl rfl⟩
      | key_exists =>
          cases hcall
          rw [h.key_there]
          exact ⟨h.goto run _ List.nil_prefix, .inl rfl⟩
      | read_cert got =>
          simp only [CertDir.call, h.cert_there, Option.map_some, Option.some.injEq] at hcall
          subst hcall
          -- the read came back short, or the whole file is there
          split_ifs with hlen
          · exact ⟨h.goto run _ (prefix_read_more hreads (n + 1)), .inl rfl⟩
          · exact ⟨h.goto run _ ⟨prefix_eq hreads hlen, List.nil_prefix⟩, .inl rfl⟩
      | read_key cert' got =>
          obtain ⟨rfl, hgot⟩ := hreads
          simp only [CertDir.call, h.key_there, Option.map_some, Option.some.injEq] at hcall
          subst hcall
          split_ifs with hlen
          · exact ⟨h.goto run _ ⟨rfl, prefix_read_more hgot (n + 1)⟩, .inl rfl⟩
          · have hfrozen := h.goto run none trivial
            rw [prefix_eq hgot hlen]
            exact ⟨⟨hfrozen.cert_there, hfrozen.key_there, hfrozen.reads⟩, .inr rfl⟩
      -- a run that writes does not begin once the files are there
      | generate | create_cert pair | write_cert pair off | create_key pair | write_key pair off =>
          exact hreads.elim

/-- The run of it. -/
theorem Frozen.run (h : self.Frozen cert key) (steps : List (CertStep ι))
    (hrun : exec (CertDir.step blake3 fresh) self steps = some next) :
    next.Frozen cert key ∧ ∃ n, next.returned
      = self.returned ++ List.replicate n (.of blake3 cert key) := by
  refine exec_invariant (CertDir.step blake3 fresh) (fun t => t.Frozen cert key ∧
    ∃ n, t.returned = self.returned ++ List.replicate n (.of blake3 cert key)) self next steps
    ⟨h, 0, by rw [List.replicate_zero, List.append_nil]⟩ ?_ hrun
  rintro m m' a - ⟨hm, n, hreturned⟩ hstep
  obtain ⟨hm', hsame | hmore⟩ := hm.step a hstep
  · exact ⟨hm', n, hsame.trans hreturned⟩
  · refine ⟨hm', n + 1, ?_⟩
    rw [hmore, hreturned, List.replicate_succ', List.append_assoc]

/-- **The identity stays.** Once both files are there and no run writes them,
whatever runs there are, however they interleave and wherever they are stopped:
the files stay as they are, every run that ends returns them, and the
fingerprint that one of them shows lets a client in to the certificate that
another one serves. -/
theorem identity_frozen (blake3 : List UInt8 → Hash) (fresh : Nat → CertifiedKey)
    (cert key : List UInt8) (dir last : CertDir ι) (h : dir.Frozen cert key)
    (steps : List (CertStep ι)) (hrun : exec (step blake3 fresh) dir steps = some last) :
    last.Frozen cert key ∧
      ∃ n, last.returned = dir.returned ++ List.replicate n (.of blake3 cert key) ∧
        ∀ b ∈ List.replicate n (CertBundle.of blake3 cert key),
          ∀ b' ∈ List.replicate n (CertBundle.of blake3 cert key), ∀ p : Presented,
            p.end_entity ∈ b'.cert_chain →
            (client_rustls_config (some [b.fingerprint_hex])).verifier.handshake blake3 p
              = .ok () := by
  obtain ⟨hlast, n, hreturned⟩ := h.run steps hrun
  refine ⟨hlast, n, hreturned, ?_⟩
  intro b hb b' hb' p hp
  rw [List.eq_of_mem_replicate hb]
  rw [List.eq_of_mem_replicate hb'] at hp
  apply (PinningVerifier.handshake_ok blake3 _ p (List.cons_ne_nil _ _)).mpr
  refine ⟨_, List.mem_singleton_self _, ?_⟩
  rw [List.mem_singleton.mp hp]
  exact eq_ignore_ascii_case_refl _

/-- Two runs side by side, one of them stopped. -/
theorem identity_frozen_two :
    let dir : CertDir Bool := { CertDir.new with cert := some [1, 2], key := some [3] }
    let steps : List (CertStep Bool) :=
      [.start true, .call true 0, .start false, .call false 0, .call true 0, .call true 0,
        .stop false, .call true 5, .call true 0, .call true 0, .call true 0]
    ∃ last, exec (step sample_cert_blake3 (fun _ => ⟨[], []⟩)) dir steps = some last ∧
      last.Frozen [1, 2] [3] ∧
      ∃ n, last.returned = List.replicate n (.of sample_cert_blake3 [1, 2] [3]) ∧
        ∀ b ∈ List.replicate n (CertBundle.of sample_cert_blake3 [1, 2] [3]),
          ∀ b' ∈ List.replicate n (CertBundle.of sample_cert_blake3 [1, 2] [3]), ∀ p : Presented,
            p.end_entity ∈ b'.cert_chain →
            (client_rustls_config (some [b.fingerprint_hex])).verifier.handshake
              sample_cert_blake3 p = .ok () := by
  intro dir steps
  have hrun : (exec (step sample_cert_blake3 (fun _ => ⟨[], []⟩)) dir steps).isSome := by rfl
  exact ⟨_, (Option.some_get hrun).symm, identity_frozen sample_cert_blake3 (fun _ => ⟨[], []⟩)
    [1, 2] [3] dir _ ⟨rfl, rfl, fun _ => trivial⟩ steps (Option.some_get hrun).symm⟩

/-! ## Runs that do not overlap

A single run at a time, which may be stopped at any call. The stages say what the
directory can look like between two calls. -/

section Alone

/-- The certificate and key are a pair that was generated. -/
def Whole (fresh : Nat → CertifiedKey) (cert key : List UInt8) : Prop := ∃ n, fresh n = ⟨cert, key⟩

/-- Where a run is before it creates the key file. -/
def Early (fresh : Nat → CertifiedKey) (cert : Option (List UInt8)) : Option LoadTask → Prop
  | none | some .cert_exists | some .generate => True
  | some .key_exists => cert.isSome
  | some (.create_cert pair) => ∃ n, pair = fresh n
  | some (.write_cert pair off) => ∃ n, pair = fresh n ∧ cert = some (pair.cert.take off)
  | some (.create_key pair) => ∃ n, pair = fresh n ∧ cert = some pair.cert
  | _ => False

/-- The stages of a directory whose runs do not overlap: there is no key yet, a
run writes it, or it is there, as much of it as was written. -/
inductive Stage (blake3 : List UInt8 → Hash) (fresh : Nat → CertifiedKey) (dir : CertDir Unit) :
    Prop
  | early (hkey : dir.key = none) (htask : Early fresh dir.cert (dir.task ()))
    (hreturned : dir.returned = [])
  | writing (n off : Nat) (hcert : dir.cert = some (fresh n).cert)
    (hkey : dir.key = some ((fresh n).key_pair.take off))
    (htask : dir.task () = some (.write_key (fresh n) off)) (hreturned : dir.returned = [])
  | stored (n off : Nat) (h : dir.Frozen (fresh n).cert ((fresh n).key_pair.take off))
    (hreturned : ∀ b ∈ dir.returned,
      b = .of blake3 (fresh n).cert ((fresh n).key_pair.take off))

/-- What the directory holds, when nobody writes, was generated as a pair. -/
def Sound (fresh : Nat → CertifiedKey) (dir : CertDir Unit) : Prop :=
  ∀ cert key, dir.Frozen cert key → Whole fresh cert key

/-- A run is not stopped with part of the key written. -/
def KeyWritten (dir : CertDir Unit) : CertStep Unit → Prop
  | .stop _ => ∀ pair off, dir.task () = some (.write_key pair off) → pair.key_pair.length ≤ off
  | _ => True

variable {blake3 : List UInt8 → Hash} {fresh : Nat → CertifiedKey} {dir next : CertDir Unit}

/-- Without a key file there is nothing to be wrong: the next run generates both. -/
theorem sound_of_no_key (h : dir.key = none) : Sound fresh dir := by
  intro cert key hfrozen
  have hkey := hfrozen.key_there
  rw [h] at hkey
  cases hkey

/-- While a run writes the key the question does not arise. -/
theorem sound_of_writing {pair : CertifiedKey} {off : Nat}
    (h : dir.task () = some (.write_key pair off)) : Sound fresh dir := by
  intro cert key hfrozen
  have hreads := hfrozen.reads ()
  rw [h] at hreads
  exact hreads.elim

/-- A key file of which a beginning was written is right when that was all of it. Two
generated pairs never share a certificate, so a part of the key cannot belong to another
pair. -/
theorem sound_stored_iff (hfresh : ∀ m n, (fresh m).cert = (fresh n).cert → m = n) (n off : Nat)
    (h : dir.Frozen (fresh n).cert ((fresh n).key_pair.take off)) :
    Sound fresh dir ↔ (fresh n).key_pair.length ≤ off := by
  constructor
  · intro hsound
    obtain ⟨m, hm⟩ := hsound _ _ h
    obtain rfl : m = n := hfresh m n (by rw [hm])
    have hkey : (fresh m).key_pair = (fresh m).key_pair.take off :=
      congrArg CertifiedKey.key_pair hm
    rw [hkey, List.length_take]
    exact Nat.min_le_left _ _
  · intro hoff cert key hfrozen
    have hcert := h.cert_there.symm.trans hfrozen.cert_there
    have hkey := h.key_there.symm.trans hfrozen.key_there
    rw [List.take_of_length_le hoff] at hkey
    exact ⟨n, by rw [← Option.some.inj hcert, ← Option.some.inj hkey]⟩

/-- With one run at a time, its task is what it was sent to. -/
theorem goto_task (run : Unit) (task : Option LoadTask) : (dir.goto run task).task () = task := by
  cases run
  simp only [CertDir.goto, Function.update_self]

/-- The file is there, and no longer written. -/
theorem frozen_of_none {cert key : List UInt8} (hcert : dir.cert = some cert)
    (hkey : dir.key = some key) (htask : dir.task () = none) : dir.Frozen cert key :=
  ⟨hcert, hkey, fun _ => htask ▸ trivial⟩

/-- A step before there is a key. -/
theorem early_step (hkey : dir.key = none) (htask : Early fresh dir.cert (dir.task ()))
    (hreturned : dir.returned = []) (a : CertStep Unit)
    (h : dir.step blake3 fresh a = some next) :
    Stage blake3 fresh next ∧ Sound fresh next ∧ dir.KeyWritten a := by
  -- as long as there is no key file nothing can have been returned
  have hearly : ∀ (d : CertDir Unit), d.key = none → Early fresh d.cert (d.task ()) →
      d.returned = [] → Stage blake3 fresh d ∧ Sound fresh d :=
    fun d hk ht hr => ⟨.early hk ht hr, sound_of_no_key hk⟩
  cases a with
  | start run =>
      simp only [CertDir.step] at h
      split_ifs at h
      cases h
      obtain ⟨hstage, hsound⟩ := hearly (dir.goto run (some .cert_exists)) hkey
        (by simp only [goto_task]; trivial) hreturned
      exact ⟨hstage, hsound, trivial⟩
  | stop run =>
      simp only [CertDir.step] at h
      split_ifs at h
      cases h
      obtain ⟨hstage, hsound⟩ := hearly (dir.goto run none) hkey
        (by simp only [goto_task]; trivial) hreturned
      refine ⟨hstage, hsound, ?_⟩
      intro pair off hwrite
      rw [hwrite] at htask
      exact htask.elim
  | call run n =>
      obtain ⟨task, ht, hcall⟩ := Option.bind_eq_some_iff.mp h
      rw [ht] at htask
      have hgoal : Stage blake3 fresh next ∧ Sound fresh next := by
        cases task with
        | cert_exists =>
            cases hcall
            refine hearly _ hkey ?_ hreturned
            simp only [goto_task]
            split_ifs with hcert
            · exact hcert
            · trivial
        | key_exists =>
            cases hcall
            rw [hkey]
            refine hearly _ hkey ?_ hreturned
            simp only [goto_task]
            trivial
        | generate =>
            cases hcall
            refine hearly _ hkey ?_ hreturned
            simp only [goto_task]
            exact ⟨n, rfl⟩
        | create_cert pair =>
            cases hcall
            obtain ⟨k, rfl⟩ := htask
            refine hearly _ hkey ?_ hreturned
            simp only [goto_task]
            exact ⟨k, rfl, by rw [List.take_zero]⟩
        | write_cert pair off =>
            obtain ⟨k, rfl, hcert⟩ := htask
            simp only [CertDir.call, hcert, Option.map_some, Option.some.injEq] at hcall
            subst hcall
            split_ifs with hoff
            · refine hearly _ hkey ?_ hreturned
              simp only [goto_task]
              exact ⟨k, rfl, by rw [write_at_take _ _ _ (Nat.le_of_lt hoff)]⟩
            · refine hearly _ hkey ?_ hreturned
              simp only [goto_task]
              rw [List.take_of_length_le (Nat.not_lt.mp hoff)] at hcert
              exact ⟨k, rfl, hcert⟩
        -- the key file is created, empty, and its writing begins
        | create_key pair =>
            cases hcall
            obtain ⟨k, rfl, hcert⟩ := htask
            have hwrite : (dir.goto run (some (.write_key (fresh k) 0))).task ()
                = some (.write_key (fresh k) 0) := goto_task run _
            exact ⟨.writing k 0 hcert (by rw [List.take_zero]) hwrite hreturned,
              sound_of_writing hwrite⟩
        | read_cert got | read_key cert got | write_key pair off => exact htask.elim
      exact ⟨hgoal.1, hgoal.2, trivial⟩

/-- A step of the run that writes the key. -/
theorem writing_step (hfresh : ∀ m n, (fresh m).cert = (fresh n).cert → m = n) (n off : Nat)
    (hcert : dir.cert = some (fresh n).cert)
    (hkey : dir.key = some ((fresh n).key_pair.take off))
    (htask : dir.task () = some (.write_key (fresh n) off)) (hreturned : dir.returned = [])
    (a : CertStep Unit) (h : dir.step blake3 fresh a = some next) :
    Stage blake3 fresh next ∧ (Sound fresh next ↔ dir.KeyWritten a) := by
  have hbusy : dir.task () ≠ none := by
    rw [htask]
    exact Option.some_ne_none _
  cases a with
  | start run =>
      simp only [CertDir.step, if_neg hbusy] at h
      cases h
  -- the process ends in the middle of its write: what is on disk is sound exactly if
  -- all of the key was written already
  | stop run =>
      simp only [CertDir.step, if_neg hbusy] at h
      cases h
      have hfrozen : (dir.goto run none).Frozen (fresh n).cert ((fresh n).key_pair.take off) :=
        frozen_of_none hcert hkey (by simp only [goto_task])
      refine ⟨.stored n off hfrozen (by simp [CertDir.goto, hreturned]), ?_⟩
      rw [sound_stored_iff hfresh n off hfrozen]
      constructor
      · intro hoff pair off' hwrite
        rw [htask] at hwrite
        cases hwrite
        exact hoff
      · intro hwritten
        exact hwritten _ _ htask
  | call run k =>
      refine (fun hgoal : Stage blake3 fresh next ∧ Sound fresh next =>
        ⟨hgoal.1, iff_of_true hgoal.2 trivial⟩) ?_
      obtain ⟨task, ht, hcall⟩ := Option.bind_eq_some_iff.mp h
      rw [htask] at ht
      cases ht
      simp only [CertDir.call, hkey, Option.map_some, Option.some.injEq] at hcall
      subst hcall
      split_ifs with hoff
      -- more of the key is on disk, and the run goes on
      · have hwrite : (dir.goto run (some (.write_key (fresh n) (off + (k + 1))))).task ()
            = some (.write_key (fresh n) (off + (k + 1))) := goto_task run _
        refine ⟨.writing n (off + (k + 1)) hcert ?_ hwrite hreturned, sound_of_writing hwrite⟩
        rw [write_at_take _ _ _ (Nat.le_of_lt hoff)]
      -- all of it is, and the run returns the pair it wrote
      · have hwhole := List.take_of_length_le (Nat.not_lt.mp hoff)
        have hfrozen : (dir.finish blake3 run (fresh n).cert (fresh n).key_pair).Frozen
            (fresh n).cert ((fresh n).key_pair.take off) :=
          frozen_of_none hcert hkey (goto_task run none : (dir.goto run none).task () = none)
        refine ⟨.stored n off hfrozen ?_, (sound_stored_iff hfresh n off hfrozen).mpr
          (Nat.not_lt.mp hoff)⟩
        intro b hb
        simp only [CertDir.finish, CertDir.goto, hreturned, List.nil_append,
          List.mem_singleton] at hb
        rw [hb, hwhole]

/-- **One step.** -/
theorem stage_step (hfresh : ∀ m n, (fresh m).cert = (fresh n).cert → m = n)
    (hdir : Stage blake3 fresh dir) (a : CertStep Unit)
    (h : dir.step blake3 fresh a = some next) :
    Stage blake3 fresh next ∧ (Sound fresh next ↔ Sound fresh dir ∧ dir.KeyWritten a) := by
  cases hdir with
  | early hkey htask hreturned =>
      obtain ⟨hstage, hsound, hwritten⟩ := early_step hkey htask hreturned a h
      exact ⟨hstage, iff_of_true hsound ⟨sound_of_no_key hkey, hwritten⟩⟩
  | writing n off hcert hkey htask hreturned =>
      obtain ⟨hstage, hiff⟩ := writing_step hfresh n off hcert hkey htask hreturned a h
      exact ⟨hstage, hiff.trans (and_iff_right (sound_of_writing htask)).symm⟩
  | stored n off hfrozen hreturned =>
      -- nothing changes any more
      obtain ⟨hnext, hret⟩ := hfrozen.step a h
      refine ⟨.stored n off hnext ?_, ?_⟩
      · intro b hb
        rcases hret with hsame | hmore
        · exact hreturned b (hsame ▸ hb)
        · rw [hmore] at hb
          rcases List.mem_append.mp hb with hb | hb
          · exact hreturned b hb
          · exact List.mem_singleton.mp hb
      · rw [sound_stored_iff hfresh n off hnext, sound_stored_iff hfresh n off hfrozen]
        refine (and_iff_left ?_).symm
        cases a with
        | stop run =>
            intro pair off' hwrite
            have hreads := hfrozen.reads ()
            rw [hwrite] at hreads
            exact hreads.elim
        | start run | call run k => trivial

/-- A new machine has no key. -/
theorem stage_new : Stage blake3 fresh new := .early rfl trivial rfl

/-- **When the identity is whole.** The runs do not overlap, and each can be
stopped anywhere. They all return the same certificate and key; and what the
directory holds when nobody writes is a pair that was generated, exactly when
no run was stopped with part of the key written. Certificates that are
generated twice are different. -/
theorem identity_whole_iff (blake3 : List UInt8 → Hash) (fresh : Nat → CertifiedKey)
    (hfresh : ∀ m n, (fresh m).cert = (fresh n).cert → m = n) (steps : List (CertStep Unit))
    (last : CertDir Unit) (hrun : exec (step blake3 fresh) new steps = some last) :
    (∀ b ∈ last.returned, ∀ b' ∈ last.returned, b = b') ∧
      (Sound fresh last ↔
        ∀ pre a suf t, steps = pre ++ a :: suf → exec (step blake3 fresh) new pre = some t →
          t.KeyWritten a) := by
  have hstage : Stage blake3 fresh last :=
    exec_invariant (step blake3 fresh) (Stage blake3 fresh) new last steps stage_new
      (fun m n a _ hm h => (stage_step hfresh hm a h).1) hrun
  constructor
  · cases hstage with
    | early hkey htask hreturned | writing n off hcert hkey htask hreturned =>
        rw [hreturned]
        rintro b ⟨⟩
    | stored n off hfrozen hreturned =>
        intro b hb b' hb'
        rw [hreturned b hb, hreturned b' hb']
  · rw [← along_iff]
    exact exec_lasting_iff (step blake3 fresh) (Stage blake3 fresh) (Sound fresh) KeyWritten
      (fun m n a hm h => (stage_step hfresh hm a h).1)
      (fun m n a hm h => (stage_step hfresh hm a h).2) new last steps stage_new
      (sound_of_no_key rfl) hrun

/-- A first run that is stopped after one byte of its key, and the run after
it, which returns that byte. -/
theorem identity_whole_iff_stopped :
    let fresh : Nat → CertifiedKey := fun n => ⟨List.replicate n 7, [8, 9]⟩
    let steps : List (CertStep Unit) :=
      [.start (), .call () 0, .call () 1, .call () 0, .call () 0, .call () 0, .call () 0,
        .call () 0, .stop (), .start (), .call () 0, .call () 0, .call () 0, .call () 0,
        .call () 0, .call () 0]
    ∃ last, exec (step sample_cert_blake3 fresh) new steps = some last ∧
      last.returned = [.of sample_cert_blake3 [7] [8]] ∧
      (∀ b ∈ last.returned, ∀ b' ∈ last.returned, b = b') ∧
      (Sound fresh last ↔
        ∀ pre a suf t, steps = pre ++ a :: suf →
          exec (step sample_cert_blake3 fresh) new pre = some t → t.KeyWritten a) := by
  intro fresh steps
  have hrun : (exec (step sample_cert_blake3 fresh) new steps).isSome := by rfl
  have hfresh : ∀ m n, (fresh m).cert = (fresh n).cert → m = n := by
    intro m n h
    have hlen := congrArg List.length h
    simpa [fresh] using hlen
  exact ⟨_, (Option.some_get hrun).symm, rfl,
    identity_whole_iff sample_cert_blake3 fresh hfresh steps _ (Option.some_get hrun).symm⟩

end Alone

end CertDir

end InputSync
