import Dwara.Security.LeafIdentity

/-! Upstream TLS with pinned keys: the verifier built from an upstream's pins, and the
client configuration it is installed in. SHA-256, the verification against a root store
and the verification of a signature under a key are parameters. -/

namespace Dwara.Security.CertPinning
open Dwara.Lib.Der Dwara.Security.Tls

/-- 32 bytes of a SHA-256 hash. -/
abbrev Digest := { b : Bytes // b.length = 32 }

/-- A pin as configured: the hash of a public-key info, as lowercase hex. -/
structure CertPin where
  spkiSha256 : String
  deriving DecidableEq, Repr

def hexNibble (b : UInt8) : Option UInt8 :=
  if 0x30 ≤ b ∧ b ≤ 0x39 then some (b - 0x30)
  else if 0x61 ≤ b ∧ b ≤ 0x66 then some (b - 0x61 + 10)
  else none

/-- Pairs of digits; a digit without a partner is refused. -/
def hexPairs : Bytes → Option Bytes
  | [] => some []
  | [_] => none
  | hi :: lo :: rest => do
    let hi ← hexNibble hi
    let lo ← hexNibble lo
    let out ← hexPairs rest
    some ((hi <<< 4 ||| lo) :: out)

def hexDecode (s : String) : Option Bytes := hexPairs s.toUTF8.toList

def CertPin.parseHash (pin : CertPin) : Option Digest :=
  match hexDecode pin.spkiSha256 with
  | none => none
  | some bytes => if h : bytes.length = 32 then some ⟨bytes,h⟩ else none

inductive UpstreamProtocol where
  | http1
  | h2c
  | https
  | http2
  | h3
  deriving DecidableEq, Repr

structure Upstream where
  protocol : UpstreamProtocol
  certPinning : Option (List CertPin)
  deriving DecidableEq, Repr

inductive CertPinError where
  | noMatch
  | invalidCertificate
  | spkiExtractionFailed
  deriving DecidableEq, Repr

def CertPinError.display : CertPinError → String
  | noMatch => "certificate SPKI hash does not match any configured pin"
  | invalidCertificate => "peer certificate is malformed"
  | spkiExtractionFailed => "failed to extract SPKI from peer certificate"

/-- The signature over a handshake, with the code of its scheme. -/
structure DigitallySigned where
  scheme : UInt16
  signature : Bytes
  deriving DecidableEq, Repr

inductive TlsVersion where
  | tls12
  | tls13
  deriving DecidableEq, Repr

/-- What a server shows to the client. -/
structure Handshake where
  version : TlsVersion
  endEntity : Bytes
  intermediates : List Bytes
  serverName : String
  ocspResponse : Bytes
  now : ℕ
  message : Bytes
  dss : DigitallySigned
  deriving DecidableEq, Repr

/-- The callbacks of a TLS client; an error is a text. -/
structure ServerCertVerifier where
  verifyServerCert : Bytes → List Bytes → String → Bytes → ℕ → Except String Unit
  verifyTls12Signature : Bytes → Bytes → DigitallySigned → Except String Unit
  verifyTls13Signature : Bytes → Bytes → DigitallySigned → Except String Unit

namespace ServerCertVerifier

def verifySignature (v : ServerCertVerifier) : TlsVersion → Bytes → Bytes → DigitallySigned → Except String Unit
  | .tls12 => v.verifyTls12Signature
  | .tls13 => v.verifyTls13Signature

/-- The client completes the handshake. -/
def Accepts (v : ServerCertVerifier) (h : Handshake) : Prop :=
  v.verifyServerCert h.endEntity h.intermediates h.serverName h.ocspResponse h.now = .ok () ∧
    v.verifySignature h.version h.message h.endEntity h.dss = .ok ()

end ServerCertVerifier

structure ClientConfig where
  verifier : ServerCertVerifier
  alpnProtocols : List String

/-- The hashes of the usable pins; there is at least one. -/
structure CertPinVerifier where
  pins : List Digest
  pins_ne : pins ≠ []

/-- No verifier without a pinning block, and none without a usable pin. -/
def CertPinVerifier.fromUpstream (u : Upstream) : Option CertPinVerifier :=
  match u.certPinning with
  | none => none
  | some cfg =>
    -- pins that do not parse are dropped with a warning
    if h : cfg.filterMap CertPin.parseHash ≠ [] then some ⟨cfg.filterMap CertPin.parseHash,h⟩ else none

section Verify
variable (sha256 : Bytes → Digest)

namespace CertPinVerifier
variable (v : CertPinVerifier)

def verifyCert (cert : Bytes) : Except CertPinError Unit :=
  match spkiOfLeaf cert with
  | none => .error .spkiExtractionFailed
  | some spki => if sha256 spki ∈ v.pins then .ok () else .error .noMatch

/-- The key is compared, and any signature is taken. -/
def serverCertVerifier : ServerCertVerifier where
  verifyServerCert endEntity _ _ _ _ := (v.verifyCert sha256 endEntity).mapError CertPinError.display
  verifyTls12Signature _ _ _ := .ok ()
  verifyTls13Signature _ _ _ := .ok ()

end CertPinVerifier

def clientConfigWithPinning (v : CertPinVerifier) (alpn : String) : ClientConfig := ⟨v.serverCertVerifier sha256,[alpn]⟩

variable (ca : ServerCertVerifier)

/-- The client configuration of an upstream that is dialled over TCP and TLS; `ca` trusts
the upstream's root store. -/
def upstreamTls (u : Upstream) : Option ClientConfig :=
  match u.protocol with
  | .http1 => none
  | .h2c => none
  | .https => some ((CertPinVerifier.fromUpstream u).elim ⟨ca,["http/1.1"]⟩ (clientConfigWithPinning sha256 · "http/1.1"))
  | .http2 => some ((CertPinVerifier.fromUpstream u).elim ⟨ca,["h2"]⟩ (clientConfigWithPinning sha256 · "h2"))
  | .h3 => none

end Verify

section Authentication
variable (sha256 : Bytes → Digest) (ca : ServerCertVerifier) (verifies : Bytes → Bytes → DigitallySigned → Bool) (pins : List CertPin)

/-- The hash of the leaf's key is one of the pins. -/
def Pinned (h : Handshake) : Prop := ∃ spki, spkiOfLeaf h.endEntity = some spki ∧ ∃ pin ∈ pins, pin.parseHash = some (sha256 spki)

/-- The signature over the handshake verifies under the leaf's key. -/
def Signed (h : Handshake) : Prop := ∃ spki, spkiOfLeaf h.endEntity = some spki ∧ verifies spki h.message h.dss = true

/-- The block authenticates the server of a connection: it completes only for a pinned key
that signed the handshake, and not at all without a usable pin. -/
structure Authenticates (cfg : ClientConfig) (h : Handshake) : Prop where
  pinned : cfg.verifier.Accepts h → Pinned sha256 pins h ∧ Signed verifies h
  fail_closed : (∀ pin ∈ pins, pin.parseHash = none) → ¬ cfg.verifier.Accepts h

variable {sha256 ca verifies pins} {u : Upstream} {cfg : ClientConfig} {h : Handshake}

/-- The pin verifier completes every handshake with a pinned key. -/
theorem CertPinVerifier.accepts_iff (v : CertPinVerifier) :
    (v.serverCertVerifier sha256).Accepts h ↔ ∃ spki, spkiOfLeaf h.endEntity = some spki ∧ sha256 spki ∈ v.pins := by
  have hsignature : (v.serverCertVerifier sha256).verifySignature h.version h.message h.endEntity h.dss = .ok () := by
    cases h.version with
    | tls12 => rfl
    | tls13 => rfl
  rw [ServerCertVerifier.Accepts,and_iff_left hsignature,serverCertVerifier]
  simp only [verifyCert]
  cases spkiOfLeaf h.endEntity with
  | none => simp [Except.mapError]
  | some spki =>
    by_cases hpin : sha256 spki ∈ v.pins
    · simp [hpin,Except.mapError]
    · simp [hpin,Except.mapError]

theorem CertPinVerifier.fromUpstream_cases (hpins : u.certPinning = some pins) :
    (∃ v, CertPinVerifier.fromUpstream u = some v ∧ (∀ hash, hash ∈ v.pins ↔ ∃ pin ∈ pins, pin.parseHash = some hash) ∧
      ∃ pin ∈ pins, pin.parseHash ≠ none) ∨
      CertPinVerifier.fromUpstream u = none ∧ ∀ pin ∈ pins, pin.parseHash = none := by
  rw [fromUpstream,hpins]
  simp only
  by_cases hne : pins.filterMap CertPin.parseHash ≠ []
  · rw [dif_pos hne]
    refine .inl ⟨_,rfl,fun hash => List.mem_filterMap,?_⟩
    obtain ⟨hash,hhash⟩ := List.exists_mem_of_ne_nil _ hne
    obtain ⟨pin,hpin,hparse⟩ := List.mem_filterMap.mp hhash
    exact ⟨pin,hpin,by simp [hparse]⟩
  · rw [dif_neg hne]
    rw [not_not,List.filterMap_eq_nil_iff] at hne
    exact .inr ⟨rfl,hne⟩

/-- The verifier an upstream with TLS is dialled with. -/
theorem upstreamTls_verifier (hcfg : upstreamTls sha256 ca u = some cfg) :
    cfg.verifier = (CertPinVerifier.fromUpstream u).elim ca (·.serverCertVerifier sha256) := by
  rw [upstreamTls] at hcfg
  cases hp : u.protocol with
  | http1 =>
    rw [hp] at hcfg
    cases hcfg
  | h2c =>
    rw [hp] at hcfg
    cases hcfg
  | h3 =>
    rw [hp] at hcfg
    cases hcfg
  | https =>
    rw [hp] at hcfg
    obtain rfl := Option.some.inj hcfg
    cases CertPinVerifier.fromUpstream u with
    | none => rfl
    | some v => rfl
  | http2 =>
    rw [hp] at hcfg
    obtain rfl := Option.some.inj hcfg
    cases CertPinVerifier.fromUpstream u with
    | none => rfl
    | some v => rfl

/-- Pinning authenticates a connection exactly when, with a usable pin, a pinned leaf has
signed the handshake, and without one the root store refuses the connection. -/
theorem pinning_authenticates_iff (hpins : u.certPinning = some pins) (hcfg : upstreamTls sha256 ca u = some cfg) :
    Authenticates sha256 verifies pins cfg h ↔
      ((∃ pin ∈ pins, pin.parseHash ≠ none) → Pinned sha256 pins h → Signed verifies h) ∧
      ((∀ pin ∈ pins, pin.parseHash = none) → ¬ ca.Accepts h) := by
  have hverifier := upstreamTls_verifier hcfg
  rcases CertPinVerifier.fromUpstream_cases hpins with ⟨v,hv,hmem,husable⟩ | ⟨hnone,hunusable⟩
  · rw [hv,Option.elim_some] at hverifier
    have haccepts : cfg.verifier.Accepts h ↔ Pinned sha256 pins h := by
      rw [hverifier,v.accepts_iff,Pinned]
      simp only [hmem]
    have hsome : ¬ ∀ pin ∈ pins, pin.parseHash = none := by
      obtain ⟨pin,hpin,hne⟩ := husable
      exact fun hall => hne (hall pin hpin)
    constructor
    · intro hauth
      exact ⟨fun _ hpinned => (hauth.pinned (haccepts.mpr hpinned)).2,fun hall => absurd hall hsome⟩
    · rintro ⟨hsigned,-⟩
      refine ⟨fun hcompletes => ?_,fun hall => absurd hall hsome⟩
      have hpinned := haccepts.mp hcompletes
      exact ⟨hpinned,hsigned husable hpinned⟩
  · rw [hnone,Option.elim_none] at hverifier
    constructor
    · intro hauth
      refine ⟨?_,fun hall => ?_⟩
      · rintro ⟨pin,hpin,hne⟩
        exact absurd (hunusable pin hpin) hne
      · rw [← hverifier]
        exact hauth.fail_closed hall
    · rintro ⟨-,hrefused⟩
      rw [← hverifier] at hrefused
      exact ⟨fun hcompletes => absurd hcompletes (hrefused hunusable),hrefused⟩

end Authentication

section Attacks

/-- The SHA-256 hash of the key of `workloadCertificate`. -/
def workloadHash : Digest :=
  ⟨[0x5d,0x2d,0x7a,0x29,0x42,0x53,0x7f,0x03,0xce,0x7c,0x38,0x8a,0xfb,0x54,0x86,0x1f,
    0xbc,0xf8,0x7f,0x48,0x54,0xb9,0xc0,0xda,0xcb,0x6d,0xb3,0xa8,0x17,0x04,0xde,0xa3],rfl⟩

def workloadPin : CertPin := ⟨"5d2d7a2942537f03ce7c388afb54861fbcf87f4854b9c0dacb6db3a81704dea3"⟩

/-- The same pin in capitals. -/
def upperCasePin : CertPin := ⟨"5D2D7A2942537F03CE7C388AFB54861FBCF87F4854B9C0DACB6DB3A81704DEA3"⟩

/-- A handshake that shows the certificate, with an empty signature. -/
def shownCertificate : Handshake :=
  ⟨.tls13,(workloadCertificate []).der,[],"web.example.org",[],0,[],⟨0x0807,[]⟩⟩

/-- A root store that trusts every chain, or none. -/
def trusting (trusted : Bool) : ServerCertVerifier where
  verifyServerCert _ _ _ _ _ := if trusted then .ok () else .error "UnknownIssuer"
  verifyTls12Signature _ _ _ := if trusted then .ok () else .error "BadSignature"
  verifyTls13Signature _ _ _ := if trusted then .ok () else .error "BadSignature"

private theorem shown_spki : spkiOfLeaf shownCertificate.endEntity = some (workloadCertificate []).spkiDer :=
  spkiOfLeaf_der (by decide +kernel)

private theorem shown_pinned : Pinned (fun _ => workloadHash) [workloadPin] shownCertificate :=
  ⟨_,shown_spki,workloadPin,List.mem_singleton_self _,by decide +kernel⟩

theorem pinning_authenticates_signed :
    Authenticates (fun _ => workloadHash) (fun _ _ _ => true) [workloadPin]
      (clientConfigWithPinning (fun _ => workloadHash) ⟨[workloadHash],List.cons_ne_nil _ _⟩ "h2") shownCertificate := by
  have hpinned : (⟨.http2,some [workloadPin]⟩ : Upstream).certPinning = some [workloadPin] := rfl
  have hcfg : upstreamTls (fun _ => workloadHash) (trusting false) ⟨.http2,some [workloadPin]⟩ =
      some (clientConfigWithPinning (fun _ => workloadHash) ⟨[workloadHash],List.cons_ne_nil _ _⟩ "h2") := by
    have hpins : CertPinVerifier.fromUpstream ⟨.http2,some [workloadPin]⟩ = some ⟨[workloadHash],List.cons_ne_nil _ _⟩ := by
      have hparse : [workloadPin].filterMap CertPin.parseHash = [workloadHash] := by decide +kernel
      simp [CertPinVerifier.fromUpstream,hparse]
    simp [upstreamTls,hpins]
  refine (pinning_authenticates_iff hpinned hcfg).mpr ⟨?_,?_⟩
  · intro _ _
    exact ⟨_,shown_spki,rfl⟩
  · intro hall hcompletes
    simp [ServerCertVerifier.Accepts,trusting] at hcompletes

/-- Whoever shows the certificate of a pinned server completes a handshake without its
key; and a block whose pins do not parse leaves the server to the root store. -/
theorem pinning_bypassed :
    (∃ (sha256 : Bytes → Digest) (ca : ServerCertVerifier) (verifies : Bytes → Bytes → DigitallySigned → Bool) (u : Upstream)
      (pins : List CertPin) (cfg : ClientConfig) (h : Handshake), u.certPinning = some pins ∧ pins ≠ [] ∧
      upstreamTls sha256 ca u = some cfg ∧ cfg.verifier.Accepts h ∧ Pinned sha256 pins h ∧ ¬ Signed verifies h) ∧
    ∃ (sha256 : Bytes → Digest) (ca : ServerCertVerifier) (u : Upstream) (pins : List CertPin) (cfg : ClientConfig) (h : Handshake),
      u.certPinning = some pins ∧ pins ≠ [] ∧ upstreamTls sha256 ca u = some cfg ∧ (∀ pin ∈ pins, pin.parseHash = none) ∧
      cfg.verifier.Accepts h := by
  constructor
  · have hparse : [workloadPin].filterMap CertPin.parseHash = [workloadHash] := by decide +kernel
    have hpins : CertPinVerifier.fromUpstream ⟨.https,some [workloadPin]⟩ = some ⟨[workloadHash],List.cons_ne_nil _ _⟩ := by
      simp [CertPinVerifier.fromUpstream,hparse]
    refine ⟨fun _ => workloadHash,trusting false,fun _ _ _ => false,⟨.https,some [workloadPin]⟩,[workloadPin],_,shownCertificate,rfl,
      List.cons_ne_nil _ _,rfl,?_,shown_pinned,?_⟩
    · rw [hpins,Option.elim_some,clientConfigWithPinning,CertPinVerifier.accepts_iff]
      exact ⟨_,shown_spki,List.mem_singleton_self _⟩
    · intro hsigned
      obtain ⟨spki,-,hfalse⟩ := hsigned
      cases hfalse
  · have hparse : [upperCasePin].filterMap CertPin.parseHash = [] := by decide +kernel
    have hpins : CertPinVerifier.fromUpstream ⟨.https,some [upperCasePin]⟩ = none := by
      simp [CertPinVerifier.fromUpstream,hparse]
    refine ⟨fun _ => workloadHash,trusting true,⟨.https,some [upperCasePin]⟩,[upperCasePin],_,shownCertificate,rfl,
      List.cons_ne_nil _ _,rfl,List.filterMap_eq_nil_iff.mp hparse,?_⟩
    rw [hpins,Option.elim_none]
    exact ⟨rfl,rfl⟩

end Attacks
end Dwara.Security.CertPinning
