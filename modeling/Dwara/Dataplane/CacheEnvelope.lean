import Dwara.Lib.Codec

/-! The stored entries of the response cache, as the bytes that the backend keeps. -/

namespace Dwara.Dataplane.CacheEnvelope
open Dwara.Lib
open Codec (littleEndian ofLittleEndian length_littleEndian)

abbrev Bytes := List UInt8

def envelopeMagic : Bytes := [68,87,82,67]

def envelopeVersionV1 : UInt8 := 1

def envelopeVersion : UInt8 := 2

/-- A stored response. A lifetime of 0 stands for that of the policy, a window of 0 for none. -/
structure EntryEnvelope where
  epoch : UInt64
  storedAtMs : UInt64
  status : UInt16
  freshnessTtlMs : UInt64
  staleIfErrorMs : UInt64
  headers : List (Bytes × Bytes)
  body : Bytes
  deriving DecidableEq, Repr

section Encode

def putU16 (v : UInt16) : Bytes := littleEndian 2 v.toNat

/-- A length is written in 32 bits. -/
def putU32 (n : ℕ) : Bytes := littleEndian 4 (n % 2^32)

def putU64 (v : UInt64) : Bytes := littleEndian 8 v.toNat

def putBytes (b : Bytes) : Bytes := putU32 b.length ++ b

def EntryEnvelope.encode (e : EntryEnvelope) : Bytes :=
  envelopeMagic ++ [envelopeVersion] ++ putU64 e.epoch ++ putU64 e.storedAtMs ++ putU16 e.status ++ putU64 e.freshnessTtlMs ++
    putU64 e.staleIfErrorMs ++ putU32 e.headers.length ++ (e.headers.flatMap fun (name,value) => putBytes name ++ putBytes value) ++
    putU32 e.body.length ++ e.body

end Encode

section Decode

def take (cur : Bytes) (n : ℕ) : Option (Bytes × Bytes) := if cur.length < n then none else some (cur.splitAt n)

def takeU16 (cur : Bytes) : Option (UInt16 × Bytes) := (take cur 2).map fun (b,cur) => (UInt16.ofNat (ofLittleEndian b),cur)

def takeU32 (cur : Bytes) : Option (ℕ × Bytes) := (take cur 4).map fun (b,cur) => (ofLittleEndian b,cur)

def takeU64 (cur : Bytes) : Option (UInt64 × Bytes) := (take cur 8).map fun (b,cur) => (UInt64.ofNat (ofLittleEndian b),cur)

def takeBytes (cur : Bytes) : Option (Bytes × Bytes) := do
  let (len,cur) ← takeU32 cur
  take cur len

/-- What stands before the headers, and how many of them are announced. -/
structure Announced where
  epoch : UInt64
  storedAtMs : UInt64
  status : UInt16
  freshnessTtlMs : UInt64
  staleIfErrorMs : UInt64
  headerCount : ℕ

def takeLifetimes (version : UInt8) (cur : Bytes) : Option (UInt64 × UInt64 × Bytes) :=
  if version = envelopeVersion then do
    let (freshnessTtlMs,cur) ← takeU64 cur
    let (staleIfErrorMs,cur) ← takeU64 cur
    return (freshnessTtlMs,staleIfErrorMs,cur)
  else if version = envelopeVersionV1 then some (0,0,cur)
  else none

/-- The decoder up to where it allocates a vector for the headers, of the count announced. -/
def decodeAnnounced (bytes : Bytes) : Option (Announced × Bytes) := do
  let (magic,cur) ← take bytes envelopeMagic.length
  if magic ≠ envelopeMagic then none
  else
    let (version,cur) ← take cur 1
    let (epoch,cur) ← takeU64 cur
    let (storedAtMs,cur) ← takeU64 cur
    let (status,cur) ← takeU16 cur
    let (freshnessTtlMs,staleIfErrorMs,cur) ← takeLifetimes (version.headD 0) cur
    let (headerCount,cur) ← takeU32 cur
    if min (headerCount * 8) (2^64 - 1) > cur.length then none
    else some (⟨epoch,storedAtMs,status,freshnessTtlMs,staleIfErrorMs,headerCount⟩,cur)

def takeHeaders : ℕ → Bytes → Option (List (Bytes × Bytes) × Bytes)
  | 0, cur => some ([],cur)
  | n + 1, cur => do
    let (name,cur) ← takeBytes cur
    let (value,cur) ← takeBytes cur
    let (headers,cur) ← takeHeaders n cur
    return ((name,value) :: headers,cur)

/-- The entry in some bytes, all of them. -/
def EntryEnvelope.decode (bytes : Bytes) : Option EntryEnvelope := do
  let (announced,cur) ← decodeAnnounced bytes
  let (headers,cur) ← takeHeaders announced.headerCount cur
  let (body,cur) ← takeBytes cur
  if cur ≠ [] then none
  else some ⟨announced.epoch,announced.storedAtMs,announced.status,announced.freshnessTtlMs,announced.staleIfErrorMs,headers,body⟩

end Decode

/-- The count of the headers and all lengths are of 32 bits. -/
structure EntryEnvelope.Fits (e : EntryEnvelope) : Prop where
  count_lt : e.headers.length < 2^32
  headers_lt : ∀ h ∈ e.headers, h.1.length < 2^32 ∧ h.2.length < 2^32
  body_lt : e.body.length < 2^32

section Layout

def u16 : Codec UInt8 UInt16 :=
  (Codec.word 2).convert UInt16.ofNat UInt16.toNat (fun _ => UInt16.ofNat_toNat) fun _ h => UInt16.toNat_ofNat_of_lt h

def u64 : Codec UInt8 UInt64 :=
  (Codec.word 8).convert UInt64.ofNat UInt64.toNat (fun _ => UInt64.ofNat_toNat) fun _ h => UInt64.toNat_ofNat_of_lt h

def lengthed : Codec UInt8 Bytes := Codec.counted (Codec.word 4)

/-- What stands behind the version. -/
def layout : Codec UInt8 EntryEnvelope :=
  (u64.pair (u64.pair (u16.pair (u64.pair (u64.pair
    ((Codec.listed (Codec.word 4) (lengthed.pair lengthed)).pair lengthed)))))).convert
    (fun x => ⟨x.1,x.2.1,x.2.2.1,x.2.2.2.1,x.2.2.2.2.1,x.2.2.2.2.2.1,x.2.2.2.2.2.2⟩)
    (fun e => (e.epoch,e.storedAtMs,e.status,e.freshnessTtlMs,e.staleIfErrorMs,e.headers,e.body)) (fun _ => rfl) fun _ _ => rfl

variable {cur rest bytes : Bytes} {e : EntryEnvelope}

theorem take_eq (cur : Bytes) (n : ℕ) : take cur n = (Codec.take n).read cur := by
  rw [take]
  show _ = if n ≤ cur.length then _ else _
  by_cases h : n ≤ cur.length
  · rw [if_neg (Nat.not_lt.mpr h),if_pos h,List.splitAt_eq]
  · rw [if_pos (Nat.lt_of_not_le h),if_neg h]

theorem map_take {α : Type} (f : ℕ → α) (cur : Bytes) (w : ℕ) :
    ((take cur w).map fun (b,cur) => (f (ofLittleEndian b),cur)) = ((Codec.word w).read cur).map fun r => (f r.1,r.2) := by
  rw [take]
  show _ = (if w ≤ cur.length then _ else _ : Option (ℕ × Bytes)).map _
  by_cases h : w ≤ cur.length
  · rw [if_neg (Nat.not_lt.mpr h),if_pos h,List.splitAt_eq]
    rfl
  · rw [if_pos (Nat.lt_of_not_le h),if_neg h]
    rfl

theorem takeU16_eq (cur : Bytes) : takeU16 cur = u16.read cur := map_take UInt16.ofNat cur 2

theorem takeU32_eq (cur : Bytes) : takeU32 cur = (Codec.word 4).read cur := by
  refine (map_take id cur 4).trans ?_
  cases (Codec.word 4).read cur <;> rfl

theorem takeU64_eq (cur : Bytes) : takeU64 cur = u64.read cur := map_take UInt64.ofNat cur 8

theorem takeBytes_eq (cur : Bytes) : takeBytes cur = lengthed.read cur := by
  rw [takeBytes,takeU32_eq]
  show (Option.bind _ _) = Option.bind _ _
  congr 1
  funext r
  exact take_eq r.2 r.1

theorem takeHeaders_eq (n : ℕ) (cur : Bytes) : takeHeaders n cur = (lengthed.pair lengthed).readTimes n cur := by
  induction n generalizing cur with
  | zero => rfl
  | succ n ih =>
    rw [takeHeaders,Codec.readTimes]
    simp only [takeBytes_eq,ih]
    show Option.bind _ _ = Option.bind (Option.bind _ _) _
    rw [Option.bind_assoc]
    congr 1
    funext r
    cases hread : lengthed.read r.2 with
    | none => rfl
    | some q =>
      show Option.bind ((lengthed.pair lengthed).readTimes n q.2) _ = Option.map _ _
      cases (lengthed.pair lengthed).readTimes n q.2 <;> rfl

/-- What is announced is there where the headers are. -/
theorem count_le_of_takeHeaders {n : ℕ} {headers : List (Bytes × Bytes)} (h : takeHeaders n cur = some (headers,rest)) :
    n * 8 ≤ cur.length := by
  rw [takeHeaders_eq] at h
  refine Codec.readTimes_length_le _ (fun x => ?_) h
  show 8 ≤ ((littleEndian 4 _ ++ _) ++ (littleEndian 4 _ ++ _)).length
  simp only [List.length_append,length_littleEndian]
  omega

theorem take_magic (version : UInt8) (w : Bytes) : take (envelopeMagic ++ version :: w) envelopeMagic.length = some (envelopeMagic,version :: w) := by
  rw [take_eq]
  exact (Codec.take _).read_write (a := envelopeMagic) rfl _

theorem take_version (version : UInt8) (w : Bytes) : take (version :: w) 1 = some ([version],w) := by
  rw [take_eq]
  exact (Codec.take 1).read_write (a := [version]) rfl w

/-- Behind the magic and the version the decoder reads the layout, to the end. -/
theorem decode_eq (w : Bytes) : EntryEnvelope.decode (envelopeMagic ++ envelopeVersion :: w) =
    (layout.read w).bind fun r => if r.2 ≠ [] then none else some r.1 := by
  rw [layout,Codec.bind_convert]
  simp only [Codec.bind_pair,Codec.bind_listed]
  rw [EntryEnvelope.decode,decodeAnnounced,take_magic]
  simp only [Option.bind_eq_bind,Option.bind_some,ne_eq,not_true_eq_false,if_false,take_version,takeLifetimes,List.headD_cons,if_true,
    takeU64_eq,takeU16_eq,takeU32_eq,takeBytes_eq,Option.bind_assoc,Option.pure_def]
  refine congrArg _ (funext fun r₁ => congrArg _ (funext fun r₂ => congrArg _ (funext fun r₃ => congrArg _ (funext fun r₄ =>
    congrArg _ (funext fun r₅ => congrArg _ (funext fun r₆ => ?_))))))
  rw [← takeHeaders_eq]
  split
  · -- the guard refuses no count that the headers bear out
    rename_i hover
    cases hheaders : takeHeaders r₆.1 r₆.2 with
    | none => rfl
    | some r₇ =>
      have hle := count_le_of_takeHeaders hheaders
      omega
  · rfl

theorem magic_of_decode (h : EntryEnvelope.decode bytes = some e) : ∃ version w, bytes = envelopeMagic ++ version :: w := by
  obtain ⟨⟨announced,cur⟩,hannounced,-⟩ := Option.bind_eq_some_iff.mp h
  obtain ⟨⟨magic,cur₁⟩,hmagic,hannounced⟩ := Option.bind_eq_some_iff.mp hannounced
  by_cases heq : magic = envelopeMagic
  · simp only [heq,ne_eq,not_true_eq_false,if_false] at hannounced
    obtain ⟨⟨version,w⟩,hversion,-⟩ := Option.bind_eq_some_iff.mp hannounced
    rw [take_eq] at hmagic hversion
    obtain ⟨hbytes,-⟩ := (Codec.take _).exact hmagic
    obtain ⟨hcur,hone⟩ : cur₁ = version ++ w ∧ version.length = 1 := (Codec.take 1).exact hversion
    obtain ⟨v,rfl⟩ := List.length_eq_one_iff.mp hone
    refine ⟨v,w,?_⟩
    rw [hbytes,hcur]
    exact congrArg (· ++ _) heq
  · simp only [heq,ne_eq,not_false_eq_true,if_true] at hannounced
    cases hannounced

theorem layout_fits_iff : layout.Fits e ↔ e.Fits := by
  constructor
  · rintro ⟨-,-,-,-,-,⟨hcount,-,hheaders⟩,hbody,-⟩
    exact ⟨hcount,fun h hh => ⟨(hheaders h hh).1.1,(hheaders h hh).2.1⟩,hbody⟩
  · intro h
    refine ⟨e.epoch.toNat_lt,e.storedAtMs.toNat_lt,e.status.toNat_lt,e.freshnessTtlMs.toNat_lt,e.staleIfErrorMs.toNat_lt,
      ⟨h.count_lt,rfl,fun line hline => ⟨⟨(h.headers_lt line hline).1,rfl⟩,(h.headers_lt line hline).2,rfl⟩⟩,h.body_lt,rfl⟩

theorem putBytes_eq {b : Bytes} (h : b.length < 2^32) : putBytes b = lengthed.write b := by
  rw [putBytes,putU32,Nat.mod_eq_of_lt h]
  rfl

theorem encode_eq (h : e.Fits) : e.encode = envelopeMagic ++ envelopeVersion :: layout.write e := by
  have hheaders : (e.headers.flatMap fun (name,value) => putBytes name ++ putBytes value) =
      e.headers.flatMap (lengthed.pair lengthed).write := by
    refine List.flatMap_congr fun line hline => ?_
    obtain ⟨hname,hvalue⟩ := h.headers_lt line hline
    exact congrArg₂ (· ++ ·) (putBytes_eq hname) (putBytes_eq hvalue)
  have hbody : putU32 e.body.length ++ e.body = lengthed.write e.body := putBytes_eq h.body_lt
  have hcount : putU32 e.headers.length = littleEndian 4 e.headers.length := by rw [putU32,Nat.mod_eq_of_lt h.count_lt]
  rw [EntryEnvelope.encode,hheaders,hcount,List.append_assoc _ _ e.body,hbody]
  simp only [List.append_assoc,List.singleton_append]
  rfl

theorem decode_eq_some_iff (w : Bytes) : EntryEnvelope.decode (envelopeMagic ++ envelopeVersion :: w) = some e ↔ layout.Accepts w e := by
  rw [decode_eq,Option.bind_eq_some_iff]
  constructor
  · rintro ⟨⟨e',rest⟩,hread,he⟩
    split at he
    · cases he
    · rename_i hrest
      cases he
      obtain rfl : rest = [] := not_not.mp hrest
      exact hread
  · intro h
    exact ⟨(e,[]),h,rfl⟩

theorem decode_encode (h : e.Fits) : EntryEnvelope.decode e.encode = some e := by
  rw [encode_eq h,decode_eq_some_iff,Codec.accepts_iff]
  exact ⟨rfl,layout_fits_iff.mpr h⟩

theorem accepts_of_decode (hversion : bytes[4]? = some envelopeVersion) (h : EntryEnvelope.decode bytes = some e) :
    ∃ w, bytes = envelopeMagic ++ envelopeVersion :: w ∧ layout.Accepts w e := by
  obtain ⟨version,w,rfl⟩ := magic_of_decode h
  obtain rfl : version = envelopeVersion := Option.some.inj hversion
  exact ⟨w,rfl,(decode_eq_some_iff w).mp h⟩

theorem encode_of_decode (hversion : bytes[4]? = some envelopeVersion) (h : EntryEnvelope.decode bytes = some e) :
    bytes = e.encode := by
  obtain ⟨w,rfl,haccepts⟩ := accepts_of_decode hversion h
  obtain ⟨rfl,hfits⟩ := Codec.accepts_iff.mp haccepts
  exact (encode_eq (layout_fits_iff.mp hfits)).symm

/-- What decodes and an encoded entry are the same where one begins the other. -/
theorem eq_of_comparable {e' : EntryEnvelope} (hfits : e.Fits) (h : EntryEnvelope.decode bytes = some e')
    (hcomparable : bytes <+: e.encode ∨ e.encode <+: bytes) : bytes = e.encode := by
  obtain ⟨version,w,rfl⟩ := magic_of_decode h
  have hencode := encode_eq hfits
  have haccepts : layout.Accepts (layout.write e) e := Codec.accepts_iff.mpr ⟨rfl,layout_fits_iff.mpr hfits⟩
  rw [hencode] at hcomparable ⊢
  rw [List.prefix_append_right_inj,List.prefix_append_right_inj,List.cons_prefix_cons,List.cons_prefix_cons] at hcomparable
  obtain rfl : version = envelopeVersion := hcomparable.elim And.left fun h => h.1.symm
  have haccepts' := (decode_eq_some_iff w).mp h
  rcases hcomparable with ⟨-,hpre⟩ | ⟨-,hpre⟩
  · rw [haccepts'.eq_of_prefix haccepts hpre]
  · rw [haccepts.eq_of_prefix haccepts' hpre]

theorem suffix_of_read {α : Type} {c : Codec UInt8 α} {a : α} (h : c.read cur = some (a,rest)) : rest <:+ cur :=
  ⟨c.write a,(c.exact h).1.symm⟩

theorem takeLifetimes_suffix {version : UInt8} {r : UInt64 × UInt64 × Bytes} (h : takeLifetimes version cur = some r) : r.2.2 <:+ cur := by
  rw [takeLifetimes] at h
  split at h
  · obtain ⟨⟨fresh,cur₁⟩,hfresh,h⟩ := Option.bind_eq_some_iff.mp h
    obtain ⟨⟨stale,cur₂⟩,hstale,h⟩ := Option.bind_eq_some_iff.mp h
    cases h
    rw [takeU64_eq] at hfresh hstale
    exact (suffix_of_read hstale).trans (suffix_of_read hfresh)
  · split at h
    · cases h
      exact List.suffix_refl _
    · cases h

/-- The headers announced are no more than what is left could hold, each with two lengths. -/
theorem headerCount_le {announced : Announced} (h : decodeAnnounced bytes = some (announced,cur)) :
    cur <:+ bytes ∧ announced.headerCount * 8 ≤ cur.length := by
  obtain ⟨⟨magic,cur₁⟩,hmagic,h⟩ := Option.bind_eq_some_iff.mp h
  by_cases heq : magic = envelopeMagic
  · simp only [heq,ne_eq,not_true_eq_false,if_false] at h
    obtain ⟨⟨version,cur₂⟩,hversion,h⟩ := Option.bind_eq_some_iff.mp h
    obtain ⟨⟨epoch,cur₃⟩,hepoch,h⟩ := Option.bind_eq_some_iff.mp h
    obtain ⟨⟨storedAtMs,cur₄⟩,hstored,h⟩ := Option.bind_eq_some_iff.mp h
    obtain ⟨⟨status,cur₅⟩,hstatus,h⟩ := Option.bind_eq_some_iff.mp h
    obtain ⟨⟨fresh,stale,cur₆⟩,hlifetimes,h⟩ := Option.bind_eq_some_iff.mp h
    obtain ⟨⟨n,cur₇⟩,hn,h⟩ := Option.bind_eq_some_iff.mp h
    rw [take_eq] at hmagic hversion
    rw [takeU64_eq] at hepoch hstored
    rw [takeU16_eq] at hstatus
    rw [takeU32_eq] at hn
    have hlt : n < 256 ^ 4 := ((Codec.word 4).exact hn).2
    split at h
    · cases h
    · rename_i hguard
      cases h
      refine ⟨?_,show n * 8 ≤ cur₇.length by dsimp only at hguard; omega⟩
      exact (suffix_of_read hn).trans ((takeLifetimes_suffix hlifetimes).trans ((suffix_of_read hstatus).trans ((suffix_of_read hstored).trans
        ((suffix_of_read hepoch).trans ((suffix_of_read hversion).trans (suffix_of_read hmagic))))))
  · simp only [heq,ne_eq,not_false_eq_true,if_true] at h
    cases h

end Layout

/-- An entry that fits is decoded from what it is encoded to, and from nothing that begins it or goes on behind it;
what is decoded of this version is the encoding of the entry; and the headers that space is made for are no more than
the input left can hold. -/
theorem envelope_round_trip :
    (∀ e : EntryEnvelope, e.Fits → EntryEnvelope.decode e.encode = some e) ∧
    (∀ bytes e, bytes[4]? = some envelopeVersion → EntryEnvelope.decode bytes = some e → bytes = e.encode) ∧
    (∀ e : EntryEnvelope, e.Fits → ∀ bytes, bytes <+: e.encode ∨ e.encode <+: bytes → bytes ≠ e.encode →
      EntryEnvelope.decode bytes = none) ∧
    ∀ bytes announced cur, decodeAnnounced bytes = some (announced,cur) → cur <:+ bytes ∧ announced.headerCount * 8 ≤ cur.length := by
  refine ⟨fun _ => decode_encode,fun _ _ => encode_of_decode,fun e hfits bytes hcomparable hne => ?_,fun _ _ _ => headerCount_le⟩
  by_contra hsome
  obtain ⟨e',he'⟩ := Option.ne_none_iff_exists'.mp hsome
  exact hne (eq_of_comparable hfits he' hcomparable)

/-- A page of two bytes with one header. -/
def page : EntryEnvelope := ⟨1,90000000,200,0,0,[([101,116,97,103],[34,49,34])],[104,105]⟩

theorem envelope_round_trip_page : page.Fits ∧ EntryEnvelope.decode page.encode = some page ∧
    EntryEnvelope.decode page.encode.dropLast = none := by
  have hfits : page.Fits := ⟨by decide,by decide,by decide⟩
  refine ⟨hfits,envelope_round_trip.1 page hfits,?_⟩
  exact envelope_round_trip.2.2.1 page hfits _ (.inl (List.dropLast_prefix _)) (by decide)

end Dwara.Dataplane.CacheEnvelope
