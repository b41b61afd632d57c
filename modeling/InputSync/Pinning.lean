/-
Certificate pinning (`crates/network/src/tls.rs`): the verifier the client
hands to the TLS library, and what a completed handshake proves about the
server.

A certificate is public, so the pin says which certificate was shown, not who
shows it; that the server holds the key of the certificate is what the
handshake signature is for. The two hooks are modelled as the code has them.
The pin hook does its half: behind an accepted certificate stands a hash that
a pin spells (`verify_server_cert_ok`). The signature hook accepts everything,
and `authenticates_iff` says what is left of the guarantee.

The hash function and the relation "this signature is valid for this message
under the key of this certificate" belong to libraries, so both are
parameters.
-/
import InputSync.Message
import Mathlib.Data.List.Flatten

set_option autoImplicit false

namespace InputSync

/-! ## Fingerprints

A hash in hexadecimal, and how two of them are compared. -/

/-- One digit of `hex::encode`. -/
def hex_digit (n : Nat) : Char :=
  ['0', '1', '2', '3', '4', '5', '6', '7', '8', '9', 'a', 'b', 'c', 'd', 'e', 'f'].getD n '0'

/-- `hex::encode`: two lower-case digits for each byte, the high half first. -/
def hex_encode (bytes : List UInt8) : String :=
  String.ofList (bytes.flatMap (fun b => [hex_digit (b.toNat / 16), hex_digit (b.toNat % 16)]))

/-- `str::eq_ignore_ascii_case`. -/
def eq_ignore_ascii_case (s t : String) : Bool :=
  s.toList.map Char.toLower == t.toList.map Char.toLower

/-- `CertificateDer`: the bytes of a certificate. -/
structure CertificateDer where
  der : List UInt8
deriving DecidableEq

/-- `sha256_hex`, which hashes with blake3. -/
def sha256_hex (blake3 : List UInt8 → Hash) (bytes : List UInt8) : String :=
  hex_encode (blake3 bytes).toList

/-- A fingerprint is equal to itself, whatever its case. -/
theorem eq_ignore_ascii_case_refl (s : String) : eq_ignore_ascii_case s s = true := by
  simp [eq_ignore_ascii_case]

/-! ## The verifier

The hooks a client hands to the TLS library. Only a client verifies anything: the server
asks for no certificate, so nothing corresponds to them at the other end. -/

/-- `SignatureScheme`, by its code point. -/
structure SignatureScheme where
  code : UInt16
deriving DecidableEq

namespace SignatureScheme

/-- One of the schemes the verifier says it supports. -/
def ED25519 : SignatureScheme := ⟨0x0807⟩

end SignatureScheme

/-- `DigitallySignedStruct`: a signature and its scheme. -/
structure DigitallySignedStruct where
  scheme : SignatureScheme
  sig : List UInt8
deriving DecidableEq

/-- `rustls::Error`, as far as the verifier raises it. -/
inductive RustlsError
  | General (message : String)
deriving DecidableEq

/-- What the hooks are called with in one handshake: the certificates and the
data that go with them, then the transcript that was signed and the
signature. -/
structure Presented where
  end_entity : CertificateDer
  intermediates : List CertificateDer
  server_name : String
  ocsp_response : List UInt8
  now : UInt64
  message : List UInt8
  dss : DigitallySignedStruct
deriving DecidableEq

/-- `PinningVerifier`: the fingerprints that are trusted, or none for all. -/
structure PinningVerifier where
  pinned : List String

namespace PinningVerifier

variable (blake3 : List UInt8 → Hash) (self : PinningVerifier) (p : Presented)

/-- `verify_server_cert`: the certificate is compared with the pins, and nothing else is
looked at. -/
def verify_server_cert : Except RustlsError Unit :=
  let fp := sha256_hex blake3 p.end_entity.der
  if self.pinned.isEmpty ∨ self.pinned.any (fun pin => eq_ignore_ascii_case pin fp) then .ok ()
  else .error (.General s!"server cert fingerprint {fp} not in pin list")

/-- `verify_tls13_signature`: whatever was signed, and by whomever, it is taken for
valid. -/
def verify_tls13_signature (_message : List UInt8) (_cert : CertificateDer)
    (_dss : DigitallySignedStruct) : Except RustlsError Unit := .ok ()

/-- The TLS 1.3 handshake: it completes when both hooks return `Ok`. -/
def handshake : Except RustlsError Unit := do
  self.verify_server_cert blake3 p
  verify_tls13_signature p.message p.end_entity p.dss

end PinningVerifier

/-- What `client_rustls_config` sets. -/
structure RustlsClientConfig where
  verifier : PinningVerifier
  alpn_protocols : List (List UInt8)

/-- `client_rustls_config`; the protocol name is `inputsync/1`. -/
def client_rustls_config (pinned : Option (List String)) : RustlsClientConfig :=
  { verifier := ⟨pinned.getD []⟩
    alpn_protocols := [[105, 110, 112, 117, 116, 115, 121, 110, 99, 47, 49]] }

/-! ## What the hooks check

Each hook, as far as it looks: one compares a hash, and the other looks at nothing. -/

/-- The fingerprint of the certificate is one of the pins, ignoring case. -/
def Pinned (blake3 : List UInt8 → Hash) (pins : List String) (cert : CertificateDer) : Prop :=
  ∃ pin ∈ pins, eq_ignore_ascii_case pin (sha256_hex blake3 cert.der)

namespace PinningVerifier

variable (blake3 : List UInt8 → Hash) (self : PinningVerifier) (p : Presented)

/-- **The pin hook.** With pins it accepts the pinned certificates and no
others, whatever else is presented. -/
theorem verify_server_cert_ok (hne : self.pinned ≠ []) :
    self.verify_server_cert blake3 p = .ok () ↔ Pinned blake3 self.pinned p.end_entity := by
  unfold verify_server_cert Pinned
  simp only [List.isEmpty_iff, hne, false_or, List.any_eq_true]
  split_ifs with h
  · simp [h]
  · simp [h]

/-- **The handshake is the pin hook.** Transcript and signature play no part. -/
theorem handshake_ok (hne : self.pinned ≠ []) :
    self.handshake blake3 p = .ok () ↔ Pinned blake3 self.pinned p.end_entity := by
  rw [← self.verify_server_cert_ok blake3 p hne]
  unfold handshake verify_tls13_signature
  cases self.verify_server_cert blake3 p with
  | error e => simp [bind, Except.bind]
  | ok u => simp [bind, Except.bind]

end PinningVerifier

/-! ## What a completed handshake proves

The TLS library calls the hooks and believes what they return, so the guarantee is the
one the hooks give together. -/

/-- The server is authenticated: a handshake that completes was made with a
pinned certificate and signed with its key. -/
def Authenticates (blake3 : List UInt8 → Hash)
    (valid : CertificateDer → List UInt8 → DigitallySignedStruct → Prop) (pins : List String)
    (p : Presented) : Prop :=
  (client_rustls_config (some pins)).verifier.handshake blake3 p = .ok () →
    Pinned blake3 pins p.end_entity ∧ valid p.end_entity p.message p.dss

/-- **When pinning authenticates the server.** For every pin list, certificate,
transcript and signature: exactly when the certificate is not pinned, so that
the handshake fails, or the signature happens to be valid. Nothing makes it
valid. -/
theorem authenticates_iff (blake3 : List UInt8 → Hash)
    (valid : CertificateDer → List UInt8 → DigitallySignedStruct → Prop) (pins : List String)
    (hne : pins ≠ []) (p : Presented) :
    Authenticates blake3 valid pins p ↔
      (¬ Pinned blake3 pins p.end_entity ∨ valid p.end_entity p.message p.dss) := by
  have hok := (client_rustls_config (some pins)).verifier.handshake_ok blake3 p hne
  have hpins : (client_rustls_config (some pins)).verifier.pinned = pins := rfl
  unfold Authenticates
  rw [hok, hpins]
  by_cases hpin : Pinned blake3 pins p.end_entity
  · simp [hpin]
  · simp [hpin]

/-! ### A replayed certificate

Somebody who has seen the certificate once and does not have its key. -/

/-- Five bytes of DER, with their blake3 hash below. -/
def sample_cert : CertificateDer := ⟨[0x30, 0x03, 0x02, 0x01, 0x00]⟩

def sample_cert_blake3 : List UInt8 → Hash := fun _ =>
  #v[0x5d, 0x13, 0xa1, 0x75, 0xa1, 0x26, 0xec, 0xba, 0x24, 0x32, 0x40, 0x07, 0x9f, 0xd5, 0x2a, 0x42,
    0x75, 0x05, 0x47, 0x5e, 0x40, 0x86, 0xc6, 0x91, 0xa4, 0x43, 0xaa, 0x52, 0x4d, 0xe3, 0xc3, 0x50]

/-- No scheme has an empty signature. -/
def sample_valid : CertificateDer → List UInt8 → DigitallySignedStruct → Prop := fun _ _ dss =>
  dss.sig ≠ []

/-- Somebody who has seen the certificate shows it and signs nothing. -/
def replayed : Presented :=
  { end_entity := sample_cert
    intermediates := []
    server_name := "inputsync.local"
    ocsp_response := []
    now := 0
    message := [1, 2, 3]
    dss := ⟨.ED25519, []⟩ }

/-- The equivalence for the replayed certificate and its own pin. -/
theorem authenticates_iff_replayed :
    Authenticates sample_cert_blake3 sample_valid [sha256_hex sample_cert_blake3 sample_cert.der]
        replayed ↔
      (¬ Pinned sample_cert_blake3 [sha256_hex sample_cert_blake3 sample_cert.der] sample_cert ∨
        sample_valid sample_cert [1, 2, 3] ⟨.ED25519, []⟩) :=
  authenticates_iff sample_cert_blake3 sample_valid
    [sha256_hex sample_cert_blake3 sample_cert.der] (List.cons_ne_nil _ _) replayed

/-- **The replayed certificate is let in.** The handshake completes on an empty
signature. -/
theorem replayed_cert_accepted :
    ¬ Authenticates sample_cert_blake3 sample_valid
        [sha256_hex sample_cert_blake3 sample_cert.der] replayed := by
  intro h
  have hpin : Pinned sample_cert_blake3 [sha256_hex sample_cert_blake3 sample_cert.der]
      replayed.end_entity := ⟨_, List.mem_singleton_self _, eq_ignore_ascii_case_refl _⟩
  have hok := ((client_rustls_config
    (some [sha256_hex sample_cert_blake3 sample_cert.der])).verifier.handshake_ok
      sample_cert_blake3 replayed (List.cons_ne_nil _ _)).mpr hpin
  exact (h hok).2 rfl

end InputSync
