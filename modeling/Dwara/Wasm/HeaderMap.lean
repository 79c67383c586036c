import Dwara.Lib.Codec

/-! Header maps and requests as the bytes that pass between the host and a WebAssembly guest. -/

namespace Dwara.Wasm
open Dwara.Lib
open Codec (littleEndian ofLittleEndian bigEndian ofBigEndian length_littleEndian utf8 ofUtf8)

abbrev Bytes := List UInt8

abbrev Header := String × String

/-- The count of the headers and all lengths are of 32 bits. -/
structure Fits (headers : List Header) : Prop where
  count_lt : headers.length < 2^32
  texts_lt : ∀ h ∈ headers, (utf8 h.1).length < 2^32 ∧ (utf8 h.2).length < 2^32

section Spec

/-- A length as it is cast to 32 bits. -/
def leU32 (n : ℕ) : Bytes := littleEndian 4 (n % 2^32)

/-- The count, a table of lengths, and the strings, a NUL behind each. -/
def serializeHeaderMapSpec (headers : List Header) : Bytes :=
  leU32 headers.length ++ (headers.flatMap fun (key,value) => leU32 (utf8 key).length ++ leU32 (utf8 value).length) ++
    headers.flatMap fun (key,value) => utf8 key ++ 0 :: (utf8 value ++ [0])

/-- The string of `len` bytes that `buf` starts with, with the NUL behind it. -/
def takeNulTerminated (buf : Bytes) (len : ℕ) : Option (String × Bytes) :=
  if len ≥ buf.length ∨ buf[len]? ≠ some 0 then none
  else (ofUtf8 (buf.take len)).map fun s => (s,buf.drop (len + 1))

/-- `n` headers, their lengths in `table` and their strings at the start of `buf`. -/
def takeEntries : ℕ → Bytes → Bytes → Option (List Header)
  | 0, _, _ => some []
  | n + 1, table, buf => do
    let keyLen := ofLittleEndian (table.take 4)
    let valLen := ofLittleEndian ((table.drop 4).take 4)
    let (key,buf) ← takeNulTerminated buf keyLen
    let (value,buf) ← takeNulTerminated buf valLen
    let headers ← takeEntries n (table.drop 8) buf
    return (key,value) :: headers

/-- An empty buffer is an empty map. -/
def deserializeHeaderMapSpec (buf : Bytes) : Option (List Header) :=
  if buf = [] then some []
  else if buf.length < 4 then none
  else
    let count := ofLittleEndian (buf.take 4)
    let tableEnd := 4 + count * 8
    if buf.length < tableEnd then none else takeEntries count (buf.drop 4) (buf.drop tableEnd)

end Spec

section Legacy

def beU32 (n : ℕ) : Bytes := bigEndian 4 (n % 2^32)

def writeStr (s : String) : Bytes := beU32 (utf8 s).length ++ utf8 s

def readU32 (cur : Bytes) : Option (ℕ × Bytes) := if 4 > cur.length then none else some (ofBigEndian (cur.take 4),cur.drop 4)

/-- A string behind its length. -/
def readStr (cur : Bytes) : Option (String × Bytes) := do
  let (len,cur) ← readU32 cur
  if len > cur.length then none else (ofUtf8 (cur.take len)).map fun s => (s,cur.drop len)

/-- Keys and values one behind the other, without a count. -/
def serializeHeaderMap (headers : List Header) : Bytes := headers.flatMap fun (key,value) => writeStr key ++ writeStr value

def readHeader (cur : Bytes) : Option (Header × Bytes) := do
  let (key,cur) ← readStr cur
  let (value,cur) ← readStr cur
  return ((key,value),cur)

/-- Each turn takes the lengths at least. -/
def deserializeLoop : ℕ → Bytes → Option (List Header)
  | _, [] => some []
  | 0, _ :: _ => none
  | fuel + 1, b :: cur => do
    let (header,cur) ← readHeader (b :: cur)
    let headers ← deserializeLoop fuel cur
    return header :: headers

def deserializeHeaderMap (buf : Bytes) : Option (List Header) := deserializeLoop buf.length buf

end Legacy

section NanoService

/-- A request as the nano service sees it. -/
structure Request where
  method : String
  path : String
  headers : List Header
  body : Bytes
  deriving DecidableEq, Repr

def serializeRequest (r : Request) : Bytes :=
  writeStr r.method ++ writeStr r.path ++ beU32 r.headers.length ++ (r.headers.flatMap fun (key,value) => writeStr key ++ writeStr value) ++
    beU32 r.body.length ++ r.body

def readHeaders : ℕ → Bytes → Option (List Header × Bytes)
  | 0, cur => some ([],cur)
  | n + 1, cur => do
    let (header,cur) ← readHeader cur
    let (headers,cur) ← readHeaders n cur
    return (header :: headers,cur)

/-- What stands behind the body is not looked at. -/
def deserializeRequest (buf : Bytes) : Option Request := do
  let (method,cur) ← readStr buf
  let (path,cur) ← readStr cur
  let (headerCount,cur) ← readU32 cur
  let (headers,cur) ← readHeaders headerCount cur
  let (bodyLen,cur) ← readU32 cur
  if bodyLen > cur.length then none else some ⟨method,path,headers,cur.take bodyLen⟩

/-- All lengths and the count of the headers are of 32 bits. -/
structure Request.Fits (r : Request) : Prop where
  method_lt : (utf8 r.method).length < 2^32
  path_lt : (utf8 r.path).length < 2^32
  headers_fit : Wasm.Fits r.headers
  body_lt : r.body.length < 2^32

end NanoService

section Table
variable {headers : List Header} {buf table rest : Bytes} {s : String} {len n : ℕ}

theorem takeNulTerminated_eq_some_iff : takeNulTerminated buf len = some (s,rest) ↔ (utf8 s).length = len ∧ buf = utf8 s ++ 0 :: rest := by
  unfold takeNulTerminated
  constructor
  · intro h
    split at h
    · cases h
    · rename_i hnul
      obtain ⟨hlen,hat⟩ := not_or.mp hnul
      obtain ⟨t,ht,heq⟩ := Option.map_eq_some_iff.mp h
      obtain ⟨rfl,rfl⟩ := Prod.mk.inj heq
      have hlt : len < buf.length := Nat.lt_of_not_le hlen
      have hnul : buf[len] = 0 := by
        rw [List.getElem?_eq_getElem hlt] at hat
        exact Option.some.inj (not_not.mp hat)
      rw [Codec.utf8_of_ofUtf8 ht]
      refine ⟨List.length_take_of_le (Nat.le_of_lt hlt),?_⟩
      rw [← hnul,← List.drop_eq_getElem_cons hlt,List.take_append_drop]
  · rintro ⟨rfl,rfl⟩
    have hat : ¬((utf8 s).length ≥ (utf8 s ++ 0 :: rest).length ∨ (utf8 s ++ 0 :: rest)[(utf8 s).length]? ≠ some 0) := by
      rw [List.length_append,List.length_cons,List.getElem?_append_right (Nat.le_refl _),Nat.sub_self]
      simp
    rw [if_neg hat,List.take_left,Codec.ofUtf8_utf8,Option.map_some]
    congr 2
    rw [← List.drop_drop,List.drop_left]
    rfl

/-- The lengths of a header in the table. -/
def lengths (h : Header) : Bytes := littleEndian 4 (utf8 h.1).length ++ littleEndian 4 (utf8 h.2).length

def strings (h : Header) : Bytes := utf8 h.1 ++ 0 :: (utf8 h.2 ++ [0])

theorem length_lengths (headers : List Header) : (headers.flatMap lengths).length = 8 * headers.length := by
  induction headers with
  | nil => rfl
  | cons h headers ih =>
    rw [List.flatMap_cons,List.length_append,ih,lengths,List.length_append,length_littleEndian,length_littleEndian,List.length_cons]
    omega

private theorem word_eq {bs : Bytes} {n : ℕ} (h : bs.length = 4) : ofLittleEndian bs = n ↔ bs = littleEndian 4 n ∧ n < 2^32 := by
  constructor
  · rintro rfl
    have hback := Codec.littleEndian_ofLittleEndian bs
    have hlt := Codec.ofLittleEndian_lt bs
    rw [h] at hback hlt
    exact ⟨hback.symm,hlt⟩
  · rintro ⟨rfl,hlt⟩
    exact Codec.ofLittleEndian_littleEndian hlt

/-- One header is read: its lengths off the table, its strings off the buffer. -/
theorem takeEntries_succ_iff {a b c : Bytes} (ha : a.length = 4) (hb : b.length = 4) {h : Header} :
    takeEntries (n + 1) (a ++ (b ++ c)) buf = some (h :: headers) ↔
      ofLittleEndian a = (utf8 h.1).length ∧ ofLittleEndian b = (utf8 h.2).length ∧
        ∃ rest, buf = strings h ++ rest ∧ takeEntries n c rest = some headers := by
  have hdrop : (a ++ (b ++ c)).drop 8 = c := by
    rw [← List.append_assoc]
    exact List.drop_left' (by rw [List.length_append,ha,hb])
  rw [takeEntries,List.take_left' ha,List.drop_left' ha,List.take_left' hb,hdrop]
  constructor
  · intro hread
    obtain ⟨⟨key,buf₁⟩,hkey,hread⟩ := Option.bind_eq_some_iff.mp hread
    obtain ⟨⟨value,buf₂⟩,hvalue,hread⟩ := Option.bind_eq_some_iff.mp hread
    obtain ⟨others,hothers,hread⟩ := Option.bind_eq_some_iff.mp hread
    obtain ⟨rfl,rfl⟩ := List.cons.inj (Option.some.inj hread)
    obtain ⟨hkeyLen,rfl⟩ := takeNulTerminated_eq_some_iff.mp hkey
    obtain ⟨hvalLen,rfl⟩ := takeNulTerminated_eq_some_iff.mp hvalue
    exact ⟨hkeyLen.symm,hvalLen.symm,buf₂,by simp [strings],hothers⟩
  · rintro ⟨hkeyLen,hvalLen,rest,rfl,hothers⟩
    have hkey : takeNulTerminated (strings h ++ rest) (ofLittleEndian a) = some (h.1,utf8 h.2 ++ 0 :: rest) :=
      takeNulTerminated_eq_some_iff.mpr ⟨hkeyLen.symm,by simp [strings]⟩
    have hvalue : takeNulTerminated (utf8 h.2 ++ 0 :: rest) (ofLittleEndian b) = some (h.2,rest) :=
      takeNulTerminated_eq_some_iff.mpr ⟨hvalLen.symm,rfl⟩
    refine Option.bind_eq_some_iff.mpr ⟨_,hkey,Option.bind_eq_some_iff.mpr ⟨_,hvalue,Option.bind_eq_some_iff.mpr ⟨_,hothers,rfl⟩⟩⟩

theorem takeEntries_succ_ne_nil : takeEntries (n + 1) table buf ≠ some [] := by
  intro h
  obtain ⟨⟨key,buf₁⟩,-,h⟩ := Option.bind_eq_some_iff.mp h
  obtain ⟨⟨value,buf₂⟩,-,h⟩ := Option.bind_eq_some_iff.mp h
  obtain ⟨others,-,h⟩ := Option.bind_eq_some_iff.mp h
  cases h

/-- The headers are read that the table and the strings are written for. -/
theorem takeEntries_eq_some_iff (htable : 8 * n ≤ table.length) : takeEntries n table buf = some headers ↔
    headers.length = n ∧ table.take (8 * n) = headers.flatMap lengths ∧
      (∀ h ∈ headers, (utf8 h.1).length < 2^32 ∧ (utf8 h.2).length < 2^32) ∧ ∃ trailing, buf = headers.flatMap strings ++ trailing := by
  induction n generalizing table buf headers with
  | zero =>
    rw [takeEntries,Option.some_inj]
    constructor
    · rintro rfl
      exact ⟨rfl,rfl,nofun,buf,rfl⟩
    · rintro ⟨hlength,-,-,-⟩
      exact (List.eq_nil_of_length_eq_zero hlength).symm
  | succ n ih =>
    cases headers with
    | nil => exact ⟨fun h => absurd h takeEntries_succ_ne_nil,fun h => nomatch h.1⟩
    | cons h headers =>
      obtain ⟨a,b,c,rfl,ha,hb⟩ : ∃ a b c : Bytes, table = a ++ (b ++ c) ∧ a.length = 4 ∧ b.length = 4 := by
        refine ⟨table.take 4,(table.drop 4).take 4,(table.drop 4).drop 4,?_,?_,?_⟩
        · rw [List.take_append_drop,List.take_append_drop]
        · exact List.length_take_of_le (by omega)
        · exact List.length_take_of_le (by rw [List.length_drop]; omega)
      have hc : 8 * n ≤ c.length := by
        rw [List.length_append,List.length_append] at htable
        omega
      have htake : (a ++ (b ++ c)).take (8 * (n + 1)) = a ++ (b ++ c.take (8 * n)) := by
        rw [List.take_append,List.take_append,ha,hb,List.take_of_length_le (by omega),List.take_of_length_le (by omega)]
        congr 3
      rw [takeEntries_succ_iff ha hb,word_eq ha,word_eq hb,htake]
      constructor
      · rintro ⟨⟨rfl,hkey⟩,⟨rfl,hvalue⟩,rest,rfl,hothers⟩
        obtain ⟨hlength,hlengths,hlt,trailing,rfl⟩ := (ih hc).mp hothers
        refine ⟨congrArg (· + 1) hlength,?_,List.forall_mem_cons.mpr ⟨⟨hkey,hvalue⟩,hlt⟩,trailing,?_⟩
        · rw [hlengths,List.flatMap_cons,lengths,List.append_assoc]
        · rw [List.flatMap_cons,List.append_assoc]
      · rintro ⟨hlength,hlengths,hlt,trailing,rfl⟩
        obtain ⟨⟨hkey,hvalue⟩,hlt⟩ := List.forall_mem_cons.mp hlt
        rw [List.flatMap_cons,lengths,List.append_assoc] at hlengths
        obtain ⟨hfirst,hlengths⟩ := List.append_inj hlengths (by rw [ha,length_littleEndian])
        obtain ⟨hsecond,hlengths⟩ := List.append_inj hlengths (by rw [hb,length_littleEndian])
        refine ⟨⟨hfirst,hkey⟩,⟨hsecond,hvalue⟩,headers.flatMap strings ++ trailing,?_,?_⟩
        · rw [List.flatMap_cons,List.append_assoc]
        · exact (ih hc).mpr ⟨Nat.succ.inj hlength,hlengths,hlt,trailing,rfl⟩

theorem serializeHeaderMapSpec_eq (h : Fits headers) :
    serializeHeaderMapSpec headers = littleEndian 4 headers.length ++ (headers.flatMap lengths ++ headers.flatMap strings) := by
  have htable : (headers.flatMap fun (key,value) => leU32 (utf8 key).length ++ leU32 (utf8 value).length) = headers.flatMap lengths := by
    refine List.flatMap_congr fun line hline => ?_
    obtain ⟨hkey,hvalue⟩ := h.texts_lt line hline
    rw [lengths]
    simp only [leU32,Nat.mod_eq_of_lt hkey,Nat.mod_eq_of_lt hvalue]
  rw [serializeHeaderMapSpec,htable,leU32,Nat.mod_eq_of_lt h.count_lt,List.append_assoc]
  rfl

/-- Read is what is written of some headers, with anything behind it, and the empty buffer. -/
theorem deserializeHeaderMapSpec_iff (buf : Bytes) (headers : List Header) : deserializeHeaderMapSpec buf = some headers ↔
    buf = [] ∧ headers = [] ∨ Fits headers ∧ ∃ trailing, buf = serializeHeaderMapSpec headers ++ trailing := by
  unfold deserializeHeaderMapSpec
  by_cases hnil : buf = []
  · subst hnil
    rw [if_pos rfl,Option.some_inj]
    constructor
    · rintro rfl
      exact .inl ⟨rfl,rfl⟩
    · rintro (⟨-,rfl⟩ | ⟨hfits,trailing,hbuf⟩)
      · rfl
      · rw [serializeHeaderMapSpec_eq hfits] at hbuf
        have hlength := congrArg List.length hbuf
        rw [List.append_assoc,List.length_append,length_littleEndian,List.length_nil] at hlength
        omega
  rw [if_neg hnil]
  have hleft : (buf = [] ∧ headers = [] ∨ Fits headers ∧ ∃ trailing, buf = serializeHeaderMapSpec headers ++ trailing) ↔
      Fits headers ∧ ∃ trailing, buf = serializeHeaderMapSpec headers ++ trailing := or_iff_right fun h => hnil h.1
  rw [hleft]
  constructor
  · intro h
    split at h
    · cases h
    · rename_i hfour
      simp only at h
      split at h
      · cases h
      · rename_i hend
        have htable : 8 * ofLittleEndian (buf.take 4) ≤ (buf.drop 4).length := by
          rw [List.length_drop]
          omega
        obtain ⟨hlength,hlengths,hlt,trailing,hstrings⟩ := (takeEntries_eq_some_iff htable).mp h
        obtain ⟨hcount,hcountLt⟩ := (word_eq (List.length_take_of_le (Nat.le_of_not_lt hfour))).mp hlength.symm
        have hfits : Fits headers := ⟨hcountLt,hlt⟩
        refine ⟨hfits,trailing,?_⟩
        rw [serializeHeaderMapSpec_eq hfits,← hcount,← hlengths,List.append_assoc,List.append_assoc,← hstrings,Nat.mul_comm 8,
          ← List.drop_drop,List.take_append_drop,List.take_append_drop]
  · rintro ⟨hfits,trailing,rfl⟩
    rw [serializeHeaderMapSpec_eq hfits,List.append_assoc,List.append_assoc]
    have hfour : (littleEndian 4 headers.length).length = 4 := length_littleEndian 4 _
    have htables := length_lengths headers
    rw [List.take_left' hfour,List.drop_left' hfour,Codec.ofLittleEndian_littleEndian hfits.count_lt]
    simp only
    rw [if_neg (by rw [List.length_append,hfour]; omega),if_neg (by rw [List.length_append,List.length_append,hfour,htables]; omega),
      ← List.drop_drop,List.drop_left' hfour]
    refine (takeEntries_eq_some_iff (by rw [List.length_append,htables]; omega)).mpr ⟨rfl,?_,hfits.texts_lt,trailing,?_⟩
    · exact List.take_left' htables
    · exact List.drop_left' (by rw [htables]; exact Nat.mul_comm _ _)

end Table

section Lengthed
variable {headers : List Header} {cur rest : Bytes}

/-- A string behind its length. -/
def text : Codec UInt8 String := (Codec.counted (Codec.bigWord 4)).refine ofUtf8 utf8 Codec.ofUtf8_utf8 Codec.utf8_of_ofUtf8

def header : Codec UInt8 Header := text.pair text

theorem readU32_eq (cur : Bytes) : readU32 cur = (Codec.bigWord 4).read cur := by
  show (if 4 > cur.length then none else some _) = (if 4 ≤ cur.length then some _ else none : Option (ℕ × Bytes))
  by_cases h : 4 ≤ cur.length
  · rw [if_neg (Nat.not_lt.mpr h),if_pos h]
  · rw [if_pos (Nat.lt_of_not_le h),if_neg h]

theorem readStr_eq (cur : Bytes) : readStr cur = text.read cur := by
  rw [readStr,readU32_eq]
  show Option.bind _ _ = Option.bind (Option.bind _ _) _
  rw [Option.bind_assoc]
  refine congrArg _ (funext fun r => ?_)
  show (if r.1 > r.2.length then none else _) = Option.bind (if r.1 ≤ r.2.length then some _ else none) _
  by_cases h : r.1 ≤ r.2.length
  · rw [if_neg (Nat.not_lt.mpr h),if_pos h]
    rfl
  · rw [if_pos (Nat.lt_of_not_le h),if_neg h]
    rfl

theorem readHeader_eq (cur : Bytes) : readHeader cur = header.read cur := by
  unfold readHeader
  simp only [readStr_eq]
  show Option.bind _ _ = Option.bind _ _
  refine congrArg _ (funext fun r => ?_)
  show Option.bind _ _ = Option.map _ _
  cases text.read r.2 <;> rfl

theorem writeStr_eq {s : String} (h : (utf8 s).length < 2^32) : writeStr s = text.write s := by
  rw [writeStr,beU32,Nat.mod_eq_of_lt h]
  rfl

theorem text_fits_iff {s : String} : text.Fits s ↔ (utf8 s).length < 2^32 := and_iff_left rfl

theorem write_headers_eq (h : ∀ h ∈ headers, (utf8 h.1).length < 2^32 ∧ (utf8 h.2).length < 2^32) :
    (headers.flatMap fun (key,value) => writeStr key ++ writeStr value) = headers.flatMap header.write := by
  refine List.flatMap_congr fun line hline => ?_
  obtain ⟨hkey,hvalue⟩ := h line hline
  exact congrArg₂ (· ++ ·) (writeStr_eq hkey) (writeStr_eq hvalue)

theorem deserializeLoop_eq (fuel : ℕ) (cur : Bytes) : deserializeLoop fuel cur = header.readAll fuel cur := by
  induction fuel generalizing cur with
  | zero => cases cur <;> rfl
  | succ fuel ih =>
    cases cur with
    | nil => rfl
    | cons b cur =>
      rw [deserializeLoop,Codec.readAll,readHeader_eq]
      show Option.bind _ _ = Option.bind _ _
      refine congrArg _ (funext fun r => ?_)
      show Option.bind _ _ = Option.map _ _
      rw [ih]
      cases header.readAll fuel r.2 <;> rfl

theorem header_write_ne_nil (h : Header) : header.write h ≠ [] := by
  intro hnil
  have hlength : (header.write h).length = 0 := congrArg List.length hnil
  rw [header,Codec.pair,List.length_append] at hlength
  have hword : 4 ≤ (text.write h.1).length := by
    show 4 ≤ (bigEndian 4 _ ++ _).length
    rw [List.length_append,Codec.length_bigEndian]
    exact Nat.le_add_right 4 _
  omega

/-- Read is what is written of some headers, and nothing else. -/
theorem deserializeHeaderMap_iff (buf : Bytes) (headers : List Header) : deserializeHeaderMap buf = some headers ↔
    buf = serializeHeaderMap headers ∧ ∀ h ∈ headers, (utf8 h.1).length < 2^32 ∧ (utf8 h.2).length < 2^32 := by
  have hfits : (∀ h ∈ headers, header.Fits h) ↔ ∀ h ∈ headers, (utf8 h.1).length < 2^32 ∧ (utf8 h.2).length < 2^32 :=
    forall₂_congr fun h _ => and_congr text_fits_iff text_fits_iff
  rw [deserializeHeaderMap,deserializeLoop_eq,Codec.readAll_eq_some_iff header_write_ne_nil (Nat.le_refl _),hfits]
  refine and_congr_left fun hlt => ?_
  rw [serializeHeaderMap,write_headers_eq hlt]

/-- A request behind its lengths. -/
def layout : Codec UInt8 Request :=
  (text.pair (text.pair ((Codec.listed (Codec.bigWord 4) header).pair (Codec.counted (Codec.bigWord 4))))).convert
    (fun x => ⟨x.1,x.2.1,x.2.2.1,x.2.2.2⟩) (fun r => (r.method,r.path,r.headers,r.body)) (fun _ => rfl) fun _ _ => rfl

theorem readHeaders_eq (n : ℕ) (cur : Bytes) : readHeaders n cur = header.readTimes n cur := by
  induction n generalizing cur with
  | zero => rfl
  | succ n ih =>
    rw [readHeaders,Codec.readTimes,readHeader_eq]
    show Option.bind _ _ = Option.bind _ _
    refine congrArg _ (funext fun r => ?_)
    show Option.bind _ _ = Option.map _ _
    rw [ih]
    cases header.readTimes n r.2 <;> rfl

theorem deserializeRequest_eq (buf : Bytes) : deserializeRequest buf = (layout.read buf).map (·.1) := by
  rw [Option.map_eq_bind,layout]
  refine Eq.trans ?_ (Codec.bind_convert _).symm
  simp only [Codec.bind_pair,Codec.bind_listed]
  unfold deserializeRequest
  simp only [readStr_eq,readU32_eq,readHeaders_eq]
  refine congrArg _ (funext fun r₁ => congrArg _ (funext fun r₂ => congrArg _ (funext fun r₃ => congrArg _ (funext fun r₄ => ?_))))
  refine Eq.trans (congrArg _ (funext fun r₅ => ?_)) (Codec.bind_chain _).symm
  show (if r₅.1 > r₅.2.length then none else some _) = Option.bind (if r₅.1 ≤ r₅.2.length then some _ else none) _
  by_cases h : r₅.1 ≤ r₅.2.length
  · rw [if_neg (Nat.not_lt.mpr h),if_pos h]
    rfl
  · rw [if_pos (Nat.lt_of_not_le h),if_neg h]
    rfl

theorem layout_fits_iff {r : Request} : layout.Fits r ↔ r.Fits := by
  constructor
  · rintro ⟨hmethod,hpath,⟨hcount,-,hheaders⟩,hbody,-⟩
    exact ⟨hmethod.1,hpath.1,⟨hcount,fun h hh => ⟨(hheaders h hh).1.1,(hheaders h hh).2.1⟩⟩,hbody⟩
  · intro h
    exact ⟨⟨h.method_lt,rfl⟩,⟨h.path_lt,rfl⟩,⟨h.headers_fit.count_lt,rfl,fun line hline =>
      ⟨⟨(h.headers_fit.texts_lt line hline).1,rfl⟩,(h.headers_fit.texts_lt line hline).2,rfl⟩⟩,h.body_lt,rfl⟩

theorem serializeRequest_eq {r : Request} (h : r.Fits) : serializeRequest r = layout.write r := by
  rw [serializeRequest,writeStr_eq h.method_lt,writeStr_eq h.path_lt,write_headers_eq h.headers_fit.texts_lt,beU32,
    Nat.mod_eq_of_lt h.headers_fit.count_lt,beU32,Nat.mod_eq_of_lt h.body_lt]
  simp only [List.append_assoc]
  show _ = text.write r.method ++ (text.write r.path ++ ((bigEndian 4 _ ++ _) ++ (bigEndian 4 _ ++ r.body)))
  rw [List.append_assoc]
  rfl

/-- Read is what is written of a request, with anything behind it. -/
theorem deserializeRequest_iff (buf : Bytes) (r : Request) :
    deserializeRequest buf = some r ↔ r.Fits ∧ ∃ trailing, buf = serializeRequest r ++ trailing := by
  rw [deserializeRequest_eq,Option.map_eq_some_iff,← layout_fits_iff]
  constructor
  · rintro ⟨⟨q,rest⟩,hread,rfl⟩
    obtain ⟨hbuf,hfits⟩ := layout.exact hread
    rw [← serializeRequest_eq (layout_fits_iff.mp hfits)] at hbuf
    exact ⟨hfits,rest,hbuf⟩
  · rintro ⟨hfits,trailing,rfl⟩
    rw [serializeRequest_eq (layout_fits_iff.mp hfits)]
    exact ⟨(r,trailing),layout.read_write hfits trailing,rfl⟩

end Lengthed
end Dwara.Wasm
