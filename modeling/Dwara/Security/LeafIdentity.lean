import Dwara.Lib.Der
import Dwara.Security.Tls

/-! What the walkers read off the encoding of a certificate. -/

namespace Dwara.Security.Tls
open Dwara.Lib.Der Dwara.Lib.X509 Dwara.Mesh.Spiffe

section Readers
variable {content rest : Bytes} {tag : UInt8}

theorem derElem_tlv (h : content.length < 2 ^ 32) : derElem (tlv tag content ++ rest) = some (tag,content,rest) := by
  apply readElem_tlv (by decide)
  omega

theorem readTlv_tlv (h : content.length < 2 ^ 32) : readTlv (tlv tag content ++ rest) = some (content,rest) := by
  rw [readTlv,readElem_tlv (by decide) tag (by omega)]
  rfl

theorem readTagged_tlv (h : content.length < 2 ^ 32) : readTagged (tlv tag content ++ rest) = some (content,rest) := by
  rw [readTagged,readTlv_tlv h]
  rfl

theorem readSequence_tlv (h : content.length < 2 ^ 32) : readSequence (tlv 0x30 content ++ rest) = some (content,rest) := by
  rw [readSequence,readTlv_tlv h]
  rfl

theorem skipElems_tlv {n : ℕ} (h : content.length < 2 ^ 32) : skipElems (n + 1) (tlv tag content ++ rest) = skipElems n rest := by
  rw [skipElems,derElem_tlv h]
  rfl

end Readers

section CommonName

/-- A common name of a string type that is read. -/
def IsCommonName (a : Attribute) : Prop := a.oid = commonNameOid ∧ (a.tag = 0x0c ∨ a.tag = 0x13 ∨ a.tag = 0x16)

instance (a : Attribute) : Decidable (IsCommonName a) := inferInstanceAs (Decidable (_ ∧ _))

theorem cnOfAttribute_der {a : Attribute} (h : (tlv 0x06 a.oid ++ tlv a.tag a.value).length < 2 ^ 32) :
    cnOfAttribute (tlv 0x06 a.oid ++ tlv a.tag a.value) = if IsCommonName a then some (fromUtf8 a.value) else none := by
  have hoid := length_le_tlv 0x06 a.oid
  have hvalue := length_le_tlv a.tag a.value
  rw [List.length_append] at h
  have htail : derElem (tlv a.tag a.value) = some (a.tag,a.value,[]) := by
    have hlen : a.value.length < 2 ^ 32 := by omega
    have hread : derElem (tlv a.tag a.value ++ []) = some (a.tag,a.value,[]) := derElem_tlv hlen
    rwa [List.append_nil] at hread
  rw [cnOfAttribute,derElem_tlv (by omega)]
  simp only [true_and,htail]
  by_cases hcn : a.oid = commonNameOid
  · rw [if_pos hcn]
    by_cases htag : a.tag = 0x0c ∨ a.tag = 0x13 ∨ a.tag = 0x16
    · rw [if_pos htag,if_pos ⟨hcn,htag⟩]
    · rw [if_neg htag,if_neg fun h => htag h.2]
  · rw [if_neg hcn,if_neg fun h => hcn h.1]

theorem cnOfRdn_der (rdn : List Attribute) (h : (rdn.flatMap Attribute.der).length < 2 ^ 32) :
    cnOfRdn (rdn.flatMap Attribute.der) = (rdn.find? fun a => IsCommonName a).map fun a => fromUtf8 a.value := by
  induction rdn with
  | nil =>
    rw [cnOfRdn]
    rfl
  | cons a rdn ih =>
    rw [List.flatMap_cons,List.length_append] at h
    have ha := length_le_tlv 0x30 (tlv 0x06 a.oid ++ tlv a.tag a.value)
    rw [Attribute.der] at h
    have helem : derElem (Attribute.der a ++ rdn.flatMap Attribute.der) =
        some (0x30,tlv 0x06 a.oid ++ tlv a.tag a.value,rdn.flatMap Attribute.der) := derElem_tlv (by omega)
    rw [List.flatMap_cons,cnOfRdn_of_elem helem,if_pos rfl,cnOfAttribute_der (by omega),ih (by omega)]
    by_cases hcn : IsCommonName a
    · simp [hcn]
    · simp [hcn]

theorem cnOfRdnSequence_der (name : Name) (h : (rdnSequence name).length < 2 ^ 32) :
    cnOfRdnSequence (rdnSequence name) = (name.flatten.find? fun a => IsCommonName a).bind fun a => fromUtf8 a.value := by
  induction name with
  | nil =>
    rw [cnOfRdnSequence]
    rfl
  | cons rdn name ih =>
    rw [rdnSequence,List.flatMap_cons,List.length_append,rdnDer] at h
    have hrdn := length_le_tlv 0x31 (rdn.flatMap Attribute.der)
    have hrest : (rdnSequence name).length < 2 ^ 32 := by
      rw [rdnSequence]
      omega
    have helem : derElem (rdnSequence (rdn :: name)) = some (0x31,rdn.flatMap Attribute.der,rdnSequence name) := derElem_tlv (by omega)
    rw [cnOfRdnSequence_of_elem helem,cnOfRdn_der rdn (by omega),ih hrest,List.flatten_cons,List.find?_append]
    cases rdn.find? fun a => IsCommonName a with
    | none => rfl
    | some a => rfl

end CommonName

section Leaf
variable {c : Certificate} (h : c.body.length < 2 ^ 32)
include h

/-- Every field fits its length. -/
private theorem fields_lt : c.tbs.length < 2 ^ 32 ∧ c.versionDer.length < 2 ^ 32 ∧ c.serial.length < 2 ^ 32 ∧ c.signature.length < 2 ^ 32 ∧
    (rdnSequence c.issuer).length < 2 ^ 32 ∧ c.validity.length < 2 ^ 32 ∧ (rdnSequence c.subject).length < 2 ^ 32 ∧
    c.publicKeyInfo.length < 2 ^ 32 := by
  have htbs := length_le_tlv 0x30 c.tbs
  rw [Certificate.body,List.length_append] at h
  have hlt : c.tbs.length < 2 ^ 32 := by omega
  refine ⟨hlt,?_⟩
  have hserial := length_le_tlv 0x02 c.serial
  have hsignature := length_le_tlv 0x30 c.signature
  have hissuer := length_le_tlv 0x30 (rdnSequence c.issuer)
  have hvalidity := length_le_tlv 0x30 c.validity
  have hsubject := length_le_tlv 0x30 (rdnSequence c.subject)
  have hkey := length_le_tlv 0x30 c.publicKeyInfo
  simp only [Certificate.tbs,Certificate.spkiDer,List.length_append] at hlt
  omega

/-- The fields after the version. -/
private def fields (c : Certificate) : Bytes :=
  tlv 0x02 c.serial ++ (tlv 0x30 c.signature ++ (tlv 0x30 (rdnSequence c.issuer) ++ (tlv 0x30 c.validity ++
    (tlv 0x30 (rdnSequence c.subject) ++ (c.spkiDer ++ c.afterSpki)))))

private theorem version_lt {v : Bytes} (hv : c.version = some v) : (tlv 0x02 v).length < 2 ^ 32 := by
  obtain ⟨-,hversion,-⟩ := fields_lt h
  have hle := length_le_tlv 0xa0 (tlv 0x02 v)
  rw [Certificate.versionDer,hv,Option.elim_some] at hversion
  omega

theorem tbsOfLeaf_der : tbsOfLeaf c.der = some c.tbs := by
  have hcert : derElem c.der = some (0x30,c.body,[]) := by
    have hread : derElem (c.der ++ []) = some (0x30,c.body,[]) := derElem_tlv h
    rwa [List.append_nil] at hread
  have htbs : derElem c.body = some (0x30,c.tbs,tlv 0x30 c.signatureAlgorithm ++ tlv 0x03 c.signatureValue) :=
    derElem_tlv (fields_lt h).1
  simp [tbsOfLeaf,hcert,htbs]

private theorem skipVersion_tbs : skipVersion c.tbs = fields c := by
  obtain ⟨-,-,hserial,-⟩ := fields_lt h
  rw [skipVersion]
  cases hv : c.version with
  | none =>
    have htbs : c.tbs = fields c := by
      rw [Certificate.tbs,Certificate.versionDer,hv]
      rfl
    rw [htbs,fields,derElem_tlv hserial]
    simp only
    rw [if_neg (by decide)]
  | some v =>
    have htbs : c.tbs = tlv 0xa0 (tlv 0x02 v) ++ fields c := by
      rw [Certificate.tbs,Certificate.versionDer,hv]
      rfl
    rw [htbs,derElem_tlv (version_lt h hv)]
    simp only
    rw [if_pos (by decide)]

/-- The key is read with its header. -/
theorem spkiOfLeaf_der : spkiOfLeaf c.der = some c.spkiDer := by
  obtain ⟨-,-,hserial,hsignature,hissuer,hvalidity,hsubject,hkey⟩ := fields_lt h
  have hskip : skipElems 5 (skipVersion c.tbs) = some (c.spkiDer ++ c.afterSpki) := by
    rw [skipVersion_tbs h,fields,skipElems_tlv hserial,skipElems_tlv hsignature,skipElems_tlv hissuer,skipElems_tlv hvalidity,
      skipElems_tlv hsubject,skipElems]
  have hspki : derElem (c.spkiDer ++ c.afterSpki) = some (0x30,c.publicKeyInfo,c.afterSpki) := derElem_tlv hkey
  simp [spkiOfLeaf,tbsOfLeaf_der h,hskip,hspki]

/-- The common name is the first of the subject. -/
theorem subjectCnOfLeaf_der :
    subjectCnOfLeaf c.der = (c.subject.flatten.find? fun a => IsCommonName a).bind fun a => fromUtf8 a.value := by
  obtain ⟨-,-,hserial,hsignature,hissuer,hvalidity,hsubject,hkey⟩ := fields_lt h
  have hskip : skipElems 4 (skipVersion c.tbs) = some (tlv 0x30 (rdnSequence c.subject) ++ (c.spkiDer ++ c.afterSpki)) := by
    rw [skipVersion_tbs h,fields,skipElems_tlv hserial,skipElems_tlv hsignature,skipElems_tlv hissuer,skipElems_tlv hvalidity,skipElems]
  have hsubjectOf : subjectOfLeaf c.der = some (rdnSequence c.subject) := by
    simp [subjectOfLeaf,tbsOfLeaf_der h,hskip,derElem_tlv hsubject]
  rw [subjectCnOfLeaf,hsubjectOf,Option.bind_some,cnOfRdnSequence_der _ hsubject]

/-- The walk to the extensions stops at the key. -/
theorem findExtension_der (oid : Bytes) : findExtension c.der oid = none := by
  obtain ⟨htbs,-,hserial,hsignature,hissuer,hvalidity,hsubject,-⟩ := fields_lt h
  have hcert : readSequence c.der = some (c.body,[]) := by
    have hread : readSequence (c.der ++ []) = some (c.body,[]) := readSequence_tlv h
    rwa [List.append_nil] at hread
  have hbody : readSequence c.body = some (c.tbs,tlv 0x30 c.signatureAlgorithm ++ tlv 0x03 c.signatureValue) := readSequence_tlv htbs
  have hversion : pastOptional 0xa0 c.tbs = some (fields c) := by
    rw [pastOptional]
    cases hv : c.version with
    | none =>
      have hfields : c.tbs = fields c := by
        rw [Certificate.tbs,Certificate.versionDer,hv]
        rfl
      rw [hfields,fields,if_neg]
      simp [tlv]
    | some v =>
      have hfields : c.tbs = tlv 0xa0 (tlv 0x02 v) ++ fields c := by
        rw [Certificate.tbs,Certificate.versionDer,hv]
        rfl
      rw [hfields,readTagged_tlv (version_lt h hv),if_pos]
      · rfl
      · rfl
  have hkey : c.spkiDer.head? = some 0x30 := rfl
  simp [findExtension,hcert,hbody,hversion,fields,readTagged_tlv hserial,readTagged_tlv hsignature,readTagged_tlv hissuer,
    readTagged_tlv hvalidity,readTagged_tlv hsubject,hkey]

end Leaf

/-- The identity a certificate carries: its first URI, read as one. -/
def spiffeId (c : Certificate) : Option SpiffeIdentity := (c.uri.bind fromUtf8).bind SpiffeIdentity.parse

/-- What is read off the encoding of a certificate is what it says, exactly when it
carries no identity of a workload. -/
theorem leaf_identity (c : Certificate) (h : c.body.length < 2 ^ 32) :
    spkiOfLeaf c.der = some c.spkiDer ∧
    subjectCnOfLeaf c.der = ((c.subject.flatten.find? fun a => IsCommonName a).bind fun a => fromUtf8 a.value) ∧
    (extractSpiffeIdFromPeerCert c.der = spiffeId c ↔ spiffeId c = none) := by
  refine ⟨spkiOfLeaf_der h,subjectCnOfLeaf_der h,?_⟩
  have hextract : extractSpiffeIdFromPeerCert c.der = none := by
    simp [extractSpiffeIdFromPeerCert,findExtension_der h]
  rw [hextract]
  exact eq_comm

/-- An Ed25519 certificate of a workload, with the given general names. -/
def workloadCertificate (names : List GeneralName) : Certificate where
  version := some [2]
  serial := [1]
  signature := tlv 0x06 [0x2b,0x65,0x70]
  issuer := [[⟨commonNameOid,0x0c,"spire".toUTF8.toList⟩]]
  validity := tlv 0x17 "250101000000Z".toUTF8.toList ++ tlv 0x17 "350101000000Z".toUTF8.toList
  subject := [[⟨commonNameOid,0x0c,"web".toUTF8.toList⟩]]
  publicKeyInfo := tlv 0x30 (tlv 0x06 [0x2b,0x65,0x70]) ++ tlv 0x03 (0 :: List.replicate 32 7)
  issuerUniqueId := none
  subjectUniqueId := none
  extensions := if names.isEmpty then [] else [⟨false,.subjectAltName names⟩]
  signatureAlgorithm := tlv 0x06 [0x2b,0x65,0x70]
  signatureValue := 0 :: List.replicate 64 9

theorem leaf_identity_dns :
    extractSpiffeIdFromPeerCert (workloadCertificate [⟨0x82,"web.example.org".toUTF8.toList⟩]).der = none :=
  have hid : spiffeId (workloadCertificate [⟨0x82,"web.example.org".toUTF8.toList⟩]) = none := by decide +kernel
  ((leaf_identity (workloadCertificate [⟨0x82,"web.example.org".toUTF8.toList⟩]) (by decide +kernel)).2.2.mpr hid).trans hid

/-- A certificate with an identity, and no identity read. -/
theorem spiffe_id_unread :
    ∃ c : Certificate, c.body.length < 2 ^ 32 ∧ spiffeId c = some ⟨"example.org","/ns/default/sa/web"⟩ ∧
      extractSpiffeIdFromPeerCert c.der = none := by
  let c := workloadCertificate [⟨0x86,"spiffe://example.org/ns/default/sa/web".toUTF8.toList⟩]
  have hbody : c.body.length < 2 ^ 32 := by decide +kernel
  refine ⟨c,hbody,by decide +kernel,?_⟩
  simp [extractSpiffeIdFromPeerCert,findExtension_der hbody]

end Dwara.Security.Tls
