import Dwara.Lib.Text
import Dwara.Lib.Der

/-! Identities of workloads in the mesh. -/

namespace Dwara.Mesh.Spiffe
open Dwara.Lib

/-- A workload's identity: its trust domain, and its path from the first slash on. -/
structure SpiffeIdentity where
  trustDomain : String
  path : String
  deriving DecidableEq, Repr

namespace SpiffeIdentity

def parse (uri : String) : Option SpiffeIdentity :=
  match Text.afterStart "spiffe://" uri with
  | none => none
  | some rest =>
    match Text.splitOnce '/' rest with
    | none => none
    | some (trustDomain,path) => if trustDomain.isEmpty then none else some ⟨trustDomain,"/" ++ path⟩

def toUri (id : SpiffeIdentity) : String := "spiffe://" ++ id.trustDomain ++ id.path

end SpiffeIdentity
end Dwara.Mesh.Spiffe

/-! What the gateway reads off a leaf certificate: its key, the common name of its
subject, and the identity of a workload. Two walkers of the DER, each with a reader of
its own; the position of a reader is what it has left to read. -/

namespace Dwara.Security.Tls
open Dwara.Lib.Der Dwara.Mesh.Spiffe

/-- One element of at most eight length bytes: tag, content, remainder. -/
def derElem (buf : Bytes) : Option (UInt8 × Bytes × Bytes) := readElem 8 buf

/-- Past an optional context-specific element. -/
def skipVersion (rest : Bytes) : Bytes :=
  match derElem rest with
  | some (tag,_,tail) => if tag &&& 0xc0 = 0x80 then tail else rest
  | none => rest

/-- Past `n` elements. -/
def skipElems : ℕ → Bytes → Option Bytes
  | 0, rest => some rest
  | n + 1, rest => (derElem rest).bind fun (_,_,tail) => skipElems n tail

/-- The fields of the certificate's first part. -/
def tbsOfLeaf (cert : Bytes) : Option Bytes := do
  let (tag,certContent,_) ← derElem cert
  if tag ≠ 0x30 then none
  let (tag,tbs,_) ← derElem certContent
  if tag ≠ 0x30 then none
  some tbs

/-- The content of the subject. -/
def subjectOfLeaf (cert : Bytes) : Option Bytes := do
  let tbs ← tbsOfLeaf cert
  -- serialNumber, signature, issuer, validity
  let rest ← skipElems 4 (skipVersion tbs)
  let (tag,subjectContent,_) ← derElem rest
  if tag ≠ 0x30 then none
  some subjectContent

/-- The public-key info, with its header. -/
def spkiOfLeaf (cert : Bytes) : Option Bytes := do
  let tbs ← tbsOfLeaf cert
  -- serialNumber, signature, issuer, validity, subject
  let rest ← skipElems 5 (skipVersion tbs)
  let (tag,_,afterSpki) ← derElem rest
  if tag ≠ 0x30 then none
  some (rest.take (rest.length - afterSpki.length))

def fromUtf8 (bytes : Bytes) : Option String := String.fromUTF8? ⟨bytes.toArray⟩

/-- 2.5.4.3 -/
def commonNameOid : Bytes := [0x55,0x04,0x03]

/-- What one attribute makes the walk return, if it ends it. -/
def cnOfAttribute (attr : Bytes) : Option (Option String) :=
  match derElem attr with
  | none => none
  | some (oidTag,oid,afterOid) =>
    if oidTag = 0x06 ∧ oid = commonNameOid then
      match derElem afterOid with
      | none => none
      | some (valTag,val,_) => if valTag = 0x0c ∨ valTag = 0x13 ∨ valTag = 0x16 then some (fromUtf8 val) else none
    else none

/-- The attributes of one RDN. -/
def cnOfRdn (attrs : Bytes) : Option (Option String) :=
  match _h : derElem attrs with
  | none => none
  | some (seqTag,attr,attrTail) =>
    match if seqTag = 0x30 then cnOfAttribute attr else none with
    | some cn => some cn
    | none => cnOfRdn attrTail
termination_by attrs.length
decreasing_by exact length_lt_of_readElem _h

/-- The first common name of an RDN sequence. -/
def cnOfRdnSequence (rdns : Bytes) : Option String :=
  match _h : derElem rdns with
  | none => none
  | some (setTag,setContent,tail) =>
    if setTag ≠ 0x31 then none
    else
      match cnOfRdn setContent with
      | some cn => cn
      | none => cnOfRdnSequence tail
termination_by rdns.length
decreasing_by exact length_lt_of_readElem _h

theorem cnOfRdn_of_elem {attrs attr attrTail : Bytes} {seqTag : UInt8} (h : derElem attrs = some (seqTag,attr,attrTail)) :
    cnOfRdn attrs = ((if seqTag = 0x30 then cnOfAttribute attr else none).elim (cnOfRdn attrTail) some) := by
  rw [cnOfRdn]
  split
  · rename_i hnone
    cases h.symm.trans hnone
  · rename_i hsome
    obtain ⟨rfl,rfl,rfl⟩ := h.symm.trans hsome
    cases (if seqTag = 0x30 then cnOfAttribute attr else none) with
    | none => rfl
    | some cn => rfl

theorem cnOfRdnSequence_of_elem {rdns setContent tail : Bytes} (h : derElem rdns = some (0x31,setContent,tail)) :
    cnOfRdnSequence rdns = (cnOfRdn setContent).getD (cnOfRdnSequence tail) := by
  rw [cnOfRdnSequence]
  split
  · rename_i hnone
    cases h.symm.trans hnone
  · rename_i hsome
    obtain ⟨rfl,rfl,rfl⟩ := h.symm.trans hsome
    rw [if_neg (by simp)]
    cases cnOfRdn setContent with
    | none => rfl
    | some cn => rfl

def subjectCnOfLeaf (cert : Bytes) : Option String := (subjectOfLeaf cert).bind cnOfRdnSequence

/-- One element of at most four length bytes: content, remainder. -/
def readTlv (der : Bytes) : Option (Bytes × Bytes) := (readElem 4 der).map fun (_,value,after) => (value,after)

def readTagged (der : Bytes) : Option (Bytes × Bytes) := if der.isEmpty then none else readTlv der

def readSequence (der : Bytes) : Option (Bytes × Bytes) := if der.head? = some 0x30 then readTlv der else none

/-- Past an optional element with the tag. -/
def pastOptional (tag : UInt8) (p : Bytes) : Option Bytes := if p.head? = some tag then (readTagged p).map (·.2) else some p

theorem length_lt_of_readSequence {der value after : Bytes} (h : readSequence der = some (value,after)) : after.length < der.length := by
  obtain ⟨-,h⟩ := Option.ite_none_right_eq_some.mp h
  obtain ⟨⟨tag,v,a⟩,helem,he⟩ := Option.map_eq_some_iff.mp h
  obtain ⟨-,rfl⟩ := Prod.mk.inj he
  exact length_lt_of_readElem helem

theorem length_lt_of_readTlv {der value after : Bytes} (h : readTlv der = some (value,after)) : after.length < der.length := by
  obtain ⟨⟨tag,v,a⟩,helem,he⟩ := Option.map_eq_some_iff.mp h
  obtain ⟨-,rfl⟩ := Prod.mk.inj he
  exact length_lt_of_readElem helem

/-- The value of the first extension with the OID, among elements read as extensions. -/
def scanExtensions (oid exts : Bytes) : Option Bytes :=
  if exts.isEmpty then none
  else
    match _h : readSequence exts with
    | none => none
    | some (ext,after) =>
      match readTagged ext with
      | none => none
      | some (oidVal,afterOid) =>
        if oidVal ≠ oid then scanExtensions oid after
        else do
          -- the optional BOOLEAN of a critical extension
          let vp ← pastOptional 0x01 afterOid
          let (octet,_) ← readTagged vp
          some octet
termination_by exts.length
decreasing_by exact length_lt_of_readSequence _h

/-- The value of an extension of the certificate. -/
def findExtension (der oid : Bytes) : Option Bytes := do
  let (certSeq,_) ← readSequence der
  let (tbs,_) ← readSequence certSeq
  let p ← pastOptional 0xa0 tbs
  -- serial, signature algorithm, issuer, validity, subject
  let (_,p) ← readTagged p
  let (_,p) ← readTagged p
  let (_,p) ← readTagged p
  let (_,p) ← readTagged p
  let (_,p) ← readTagged p
  if p.head? ≠ some 0xa3 then none
  let (extSeq,_) ← readTagged p
  scanExtensions oid extSeq

def unwrapOctetString (der : Bytes) : Option Bytes :=
  if der.head? = some 0x04 then (readTlv der).map (·.1) else none

/-- The first URI among the elements of a subject alternative name. -/
def findUriSan (san : Bytes) : Option String :=
  if san.isEmpty then none
  else
    match _h : readTlv san with
    | none => none
    | some (val,after) => if san.head? = some 0x86 then fromUtf8 val else findUriSan after
termination_by san.length
decreasing_by exact length_lt_of_readTlv _h

/-- 2.5.29.17 -/
def subjectAltNameOid : Bytes := [0x55,0x1d,0x11]

def extractSpiffeIdFromPeerCert (cert : Bytes) : Option SpiffeIdentity := do
  let sanExt ← findExtension cert subjectAltNameOid
  let sanValue ← unwrapOctetString sanExt
  let uri ← findUriSan sanValue
  SpiffeIdentity.parse uri

end Dwara.Security.Tls
