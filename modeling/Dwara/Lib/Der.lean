import Mathlib.Data.Nat.Digits.Lemmas
import Mathlib.Tactic.TypeStar

/-! Elements of definite length in DER, written and read: a tag of one byte, a length, a content. -/

namespace Dwara.Lib.Der

abbrev Bytes := List UInt8

/-- The digits of a number in base 256, the most significant first. -/
def bigEndian (n : ℕ) : Bytes := ((Nat.digits 256 n).map UInt8.ofNat).reverse

/-- The number a reader makes of big-endian digits. -/
def ofBigEndian (bs : Bytes) : ℕ := bs.foldl (fun len b => len <<< 8 ||| b.toNat) 0

def lengthBytes (n : ℕ) : Bytes :=
  if n < 0x80 then [UInt8.ofNat n] else UInt8.ofNat (0x80 + (bigEndian n).length) :: bigEndian n

/-- An element: tag, length and content. -/
def tlv (tag : UInt8) (content : Bytes) : Bytes := tag :: (lengthBytes content.length ++ content)

/-- The first `len` bytes of what follows a header, and the rest. -/
def cut (tag : UInt8) (len : ℕ) (rest : Bytes) : Option (UInt8 × Bytes × Bytes) :=
  if len ≤ rest.length then some (tag,rest.take len,rest.drop len) else none

/-- Read one element whose length takes at most `octets` bytes: its tag, its content and
what follows it. -/
def readElem (octets : ℕ) : Bytes → Option (UInt8 × Bytes × Bytes)
  | tag :: first :: rest =>
    if first < 0x80 then cut tag first.toNat rest
    else
      let n := (first &&& 0x7f).toNat
      if n = 0 ∨ octets < n ∨ rest.length < n then none else cut tag (ofBigEndian (rest.take n)) (rest.drop n)
  | _ => none

theorem ofBigEndian_bigEndian (n : ℕ) : ofBigEndian (bigEndian n) = n := by
  have hdigits : ∀ ds : List ℕ, (∀ d ∈ ds, d < 256) →
      (ds.map UInt8.ofNat).foldr (fun b len => len <<< 8 ||| b.toNat) 0 = Nat.ofDigits 256 ds := by
    intro ds hds
    induction ds with
    | nil => rfl
    | cons d ds ih =>
      have hd : d < 256 := hds d List.mem_cons_self
      have hbyte : (UInt8.ofNat d).toNat = d := UInt8.toNat_ofNat_of_lt' hd
      rw [List.map_cons,List.foldr_cons,ih fun e he => hds e (List.mem_cons_of_mem _ he),hbyte,
        ← Nat.shiftLeft_add_eq_or_of_lt hd,Nat.shiftLeft_eq,Nat.ofDigits_cons]
      omega
  rw [ofBigEndian,bigEndian,List.foldl_reverse,hdigits _ fun d hd => Nat.digits_lt_base (by decide) hd,Nat.ofDigits_digits]

theorem ofBigEndian_lt (bs : Bytes) : ofBigEndian bs < 2 ^ (8 * bs.length) := by
  induction bs using List.reverseRecOn with
  | nil => exact Nat.one_pos
  | append_singleton bs b ih =>
    have hdigit : b.toNat < 2 ^ 8 := b.toNat_lt
    have hstep : ofBigEndian (bs ++ [b]) = ofBigEndian bs <<< 8 + b.toNat := by
      rw [Nat.shiftLeft_add_eq_or_of_lt hdigit,ofBigEndian,List.foldl_append]
      rfl
    rw [hstep,Nat.shiftLeft_eq,List.length_append,List.length_singleton,Nat.mul_add,Nat.pow_add]
    omega

theorem length_bigEndian_le {n k : ℕ} (h : n < 256 ^ k) : (bigEndian n).length ≤ k := by
  rw [bigEndian,List.length_reverse,List.length_map]
  exact (Nat.digits_length_le_iff (by decide) n).mpr h

theorem bigEndian_length_pos {n : ℕ} (h : n ≠ 0) : 0 < (bigEndian n).length := by
  rw [bigEndian,List.length_reverse,List.length_map,List.length_pos_iff]
  exact Nat.digits_ne_nil_iff_ne_zero.mpr h

theorem length_le_tlv (tag : UInt8) (content : Bytes) : content.length ≤ (tlv tag content).length := by
  rw [tlv,List.length_cons,List.length_append]
  omega

private theorem cut_length {t tag : UInt8} {len : ℕ} {bs content rest : Bytes} (h : cut t len bs = some (tag,content,rest)) :
    rest.length ≤ bs.length := by
  obtain ⟨-,h⟩ := Option.ite_none_right_eq_some.mp h
  obtain ⟨-,-,rfl⟩ := h
  rw [List.length_drop]
  omega

/-- Reading makes progress. -/
theorem length_lt_of_readElem {octets : ℕ} {bs content rest : Bytes} {tag : UInt8} (h : readElem octets bs = some (tag,content,rest)) :
    rest.length < bs.length := by
  rcases bs with _ | ⟨t,_ | ⟨first,bs⟩⟩
  · cases h
  · cases h
  · rw [readElem] at h
    simp only [List.length_cons]
    split at h
    · have hle := cut_length h
      omega
    · obtain ⟨-,h⟩ := Option.ite_none_left_eq_some.mp h
      have hle := cut_length h
      rw [List.length_drop] at hle
      omega

theorem cut_append (tag : UInt8) (content rest : Bytes) : cut tag content.length (content ++ rest) = some (tag,content,rest) := by
  rw [cut,if_pos (by simp),List.take_left,List.drop_left]

/-- An element is read back, with what follows it. -/
theorem readElem_tlv {octets : ℕ} (hoctets : octets < 128) (tag : UInt8) {content : Bytes} (h : content.length < 256 ^ octets)
    (rest : Bytes) : readElem octets (tlv tag content ++ rest) = some (tag,content,rest) := by
  rw [tlv,lengthBytes]
  by_cases hshort : content.length < 0x80
  · have hsize : content.length < 256 := by omega
    have hbyte : (UInt8.ofNat content.length).toNat = content.length := UInt8.toNat_ofNat_of_lt' hsize
    have hfirst : UInt8.ofNat content.length < 0x80 := by
      rw [UInt8.lt_iff_toNat_lt,hbyte]
      exact hshort
    rw [if_pos hshort,List.cons_append,List.append_assoc,List.singleton_append,readElem,if_pos hfirst,hbyte,cut_append]
  · have hlen := length_bigEndian_le h
    have hpos : 0 < (bigEndian content.length).length := bigEndian_length_pos (by omega)
    have hsize : 0x80 + (bigEndian content.length).length < 256 := by omega
    have hbyte : (UInt8.ofNat (0x80 + (bigEndian content.length).length)).toNat = 0x80 + (bigEndian content.length).length :=
      UInt8.toNat_ofNat_of_lt' hsize
    have hfirst : ¬ UInt8.ofNat (0x80 + (bigEndian content.length).length) < 0x80 := by
      rw [UInt8.lt_iff_toNat_lt,hbyte]
      exact Nat.not_lt.mpr (Nat.le_add_right _ _)
    have hcount : (UInt8.ofNat (0x80 + (bigEndian content.length).length) &&& 0x7f).toNat = (bigEndian content.length).length := by
      have hmask : (0x80 + (bigEndian content.length).length) &&& (2 ^ 7 - 1) = (bigEndian content.length).length := by
        rw [Nat.and_two_pow_sub_one_eq_mod]
        omega
      rw [UInt8.toNat_and,hbyte]
      exact hmask
    rw [if_neg hshort,List.cons_append,List.cons_append,List.cons_append,List.append_assoc,readElem,if_neg hfirst]
    simp only [hcount,List.take_left,List.drop_left,ofBigEndian_bigEndian,cut_append]
    rw [if_neg]
    simp only [List.length_append]
    omega

end Dwara.Lib.Der

/-! X.509 certificates and their DER encoding. Fields that no reader here looks into are
the contents of their elements. -/

namespace Dwara.Lib.X509
open Dwara.Lib.Der

/-- One attribute of a name: its type, and a value of some string type. -/
structure Attribute where
  oid : Bytes
  tag : UInt8
  value : Bytes
  deriving DecidableEq, Repr

def Attribute.der (a : Attribute) : Bytes := tlv 0x30 (tlv 0x06 a.oid ++ tlv a.tag a.value)

/-- A sequence of sets of attributes. -/
abbrev Name := List (List Attribute)

def rdnDer (rdn : List Attribute) : Bytes := tlv 0x31 (rdn.flatMap Attribute.der)

def rdnSequence (name : Name) : Bytes := name.flatMap rdnDer

structure GeneralName where
  tag : UInt8
  value : Bytes
  deriving DecidableEq, Repr

def GeneralName.der (name : GeneralName) : Bytes := tlv name.tag name.value

/-- 2.5.29.17 -/
def subjectAltNameOid : Bytes := [0x55,0x1d,0x11]

inductive ExtensionValue where
  | subjectAltName (names : List GeneralName)
  | other (oid value : Bytes) (ne : oid ≠ subjectAltNameOid)

namespace ExtensionValue

def oid : ExtensionValue → Bytes
  | subjectAltName _ => subjectAltNameOid
  | other oid _ _ => oid

def octets : ExtensionValue → Bytes
  | subjectAltName names => tlv 0x30 (names.flatMap GeneralName.der)
  | other _ value _ => value

end ExtensionValue

structure Extension where
  critical : Bool
  value : ExtensionValue

/-- FALSE is the default of `critical`, so it is left out. -/
def Extension.der (e : Extension) : Bytes :=
  tlv 0x30 (tlv 0x06 e.value.oid ++ ((if e.critical then tlv 0x01 [0xff] else []) ++ tlv 0x04 e.value.octets))

structure Certificate where
  version : Option Bytes
  serial : Bytes
  signature : Bytes
  issuer : Name
  validity : Bytes
  subject : Name
  publicKeyInfo : Bytes
  issuerUniqueId : Option Bytes
  subjectUniqueId : Option Bytes
  extensions : List Extension
  signatureAlgorithm : Bytes
  signatureValue : Bytes

namespace Certificate
variable (c : Certificate)

def versionDer : Bytes := c.version.elim [] fun v => tlv 0xa0 (tlv 0x02 v)

def spkiDer : Bytes := tlv 0x30 c.publicKeyInfo

/-- What follows the public-key info: the unique identifiers and the extensions. -/
def afterSpki : Bytes :=
  c.issuerUniqueId.elim [] (tlv 0x81) ++ (c.subjectUniqueId.elim [] (tlv 0x82) ++
    if c.extensions.isEmpty then [] else tlv 0xa3 (tlv 0x30 (c.extensions.flatMap Extension.der)))

def tbs : Bytes :=
  c.versionDer ++ (tlv 0x02 c.serial ++ (tlv 0x30 c.signature ++ (tlv 0x30 (rdnSequence c.issuer) ++ (tlv 0x30 c.validity ++
    (tlv 0x30 (rdnSequence c.subject) ++ (c.spkiDer ++ c.afterSpki))))))

/-- The content of the certificate. -/
def body : Bytes := tlv 0x30 c.tbs ++ (tlv 0x30 c.signatureAlgorithm ++ tlv 0x03 c.signatureValue)

def der : Bytes := tlv 0x30 c.body

/-- The names of the first subject alternative name. -/
def subjectAltName : Option (List GeneralName) :=
  c.extensions.findSome? fun e => match e.value with
    | .subjectAltName names => some names
    | .other _ _ _ => none

/-- The first URI of the subject alternative name. -/
def uri : Option Bytes := c.subjectAltName.bind fun names => (names.find? (·.tag = 0x86)).map (·.value)

end Certificate
end Dwara.Lib.X509
