import Dwara.Lib.Text
import Dwara.Lib.Pieces
import Mathlib.Algebra.Group.Nat.Defs

/-! Network addresses, as texts and in nets. -/

namespace Dwara.Config.Net
open Dwara.Lib

inductive IpAddr where
  | v4 (bits : BitVec 32)
  | v6 (bits : BitVec 128)
  deriving DecidableEq, Repr

section Parser

/-- A parser reads a prefix of the text and leaves the rest. -/
abbrev Parser (α : Type) := List Char → Option (α × List Char)

def givenChar (c : Char) : Parser Unit
  | d :: cs => if d = c then some ((),cs) else none
  | [] => none

/-- Entries after the first are preceded by a separator. -/
def separator {α : Type} (sep : Char) (index : ℕ) (inner : Parser α) : Parser α := fun cs =>
  if index = 0 then inner cs else (givenChar sep cs).bind (fun p => inner p.2)

def digitValue (radix : ℕ) (c : Char) : Option ℕ :=
  let v := if c.isDigit then some (c.toNat - '0'.toNat)
    else if 'a' ≤ c ∧ c ≤ 'f' then some (c.toNat - 'a'.toNat + 10)
    else if 'A' ≤ c ∧ c ≤ 'F' then some (c.toNat - 'A'.toNat + 10)
    else none
  v.filter (· < radix)

/-- A number of at most `maxDigits` digits below `bound`. -/
def readNumber (radix maxDigits bound : ℕ) (allowZeroPrefix : Bool) : Parser ℕ := fun cs =>
  let digits := cs.takeWhile (fun c => (digitValue radix c).isSome)
  let value := digits.foldl (fun n c => n * radix + (digitValue radix c).getD 0) 0
  if digits = [] ∨ maxDigits < digits.length ∨ bound ≤ value then none
  else if !allowZeroPrefix && digits.head? = some '0' && 1 < digits.length then none
  else some (value,cs.drop digits.length)

/-- The octets of an IPv4 address from the `index`th on. -/
def readOctets : ℕ → ℕ → ℕ → Parser ℕ
  | 0, _, acc, cs => some (acc,cs)
  | n + 1, index, acc, cs =>
    (separator '.' index (readNumber 10 3 256 false) cs).bind (fun p => readOctets n (index + 1) (acc * 256 + p.1) p.2)

def readIpv4 : Parser (BitVec 32) := fun cs => (readOctets 4 0 0 cs).map (fun p => (BitVec.ofNat 32 p.1,p.2))

/-- Up to `limit` groups of an IPv6 address, and whether an IPv4 address ends them. -/
def readGroups (limit : ℕ) : ℕ → ℕ → List Char → List ℕ × Bool × List Char
  | 0, _, cs => ([],false,cs)
  | n + 1, index, cs =>
    let ipv4 := if index + 1 < limit then separator ':' index readIpv4 cs else none
    match ipv4 with
    | some (v4,cs) => ([v4.toNat / 65536,v4.toNat % 65536],true,cs)
    | none =>
      match separator ':' index (readNumber 16 4 65536 true) cs with
      | some (group,cs) =>
        let (groups,ended,cs) := readGroups limit n (index + 1) cs
        (group :: groups,ended,cs)
      | none => ([],false,cs)

def ofGroups (groups : List ℕ) : BitVec 128 := BitVec.ofNat 128 (groups.foldl (fun n g => n * 65536 + g) 0)

def readIpv6 : Parser (BitVec 128) := fun cs =>
  let (head,headIpv4,rest) := readGroups 8 8 0 cs
  if head.length = 8 then some (ofGroups head,rest)
  else if headIpv4 then none
  else
    (givenChar ':' rest).bind (fun p => (givenChar ':' p.2).bind (fun p =>
      let limit := 8 - (head.length + 1)
      let (tail,_,rest) := readGroups limit limit 0 p.2
      some (ofGroups (head ++ List.replicate (8 - head.length - tail.length) 0 ++ tail),rest)))

/-- The whole text is one address. -/
def parseIp (s : String) : Option IpAddr :=
  match readIpv4 s.toList with
  | some (v4,rest) => if rest = [] then some (.v4 v4) else none
  | none =>
    match readIpv6 s.toList with
    | some (v6,rest) => if rest = [] then some (.v6 v6) else none
    | none => none

/-- A decimal text that fits a byte; a leading plus sign is read over. -/
def parseU8 (s : String) : Option ℕ :=
  let digits := match s.toList with
    | '+' :: rest => rest
    | cs => cs
  if digits = [] ∨ !digits.all Char.isDigit then none
  else (some (digits.foldl (fun n c => n * 10 + (c.toNat - '0'.toNat)) 0)).filter (· < 256)

end Parser

def IpAddr.width : IpAddr → ℕ
  | .v4 _ => 32
  | .v6 _ => 128

def parseIpOrCidr (s : String) : Option (IpAddr × ℕ) :=
  let s := Text.trim s
  match parseIp s with
  | some ip => some (ip,ip.width)
  | none =>
    (Text.splitOnce '/' s).bind (fun p =>
      (parseIp (Text.trim p.1)).bind (fun ip =>
        (parseU8 (Text.trim p.2)).bind (fun width => if ip.width < width then none else some (ip,width))))

/-- Whether an address falls inside a net of its own family. -/
def ipInNet (ip net : IpAddr) (width : ℕ) : Bool :=
  match ip,net with
  | .v4 a,.v4 b => width = 0 || (a ^^^ b) >>> (32 - width) = 0
  | .v6 a,.v6 b => width = 0 || (a ^^^ b) >>> (128 - width) = 0
  | _,_ => false

def ipMatches (entry : String) (ip : IpAddr) : Bool := (parseIpOrCidr entry).any (fun p => ipInNet ip p.1 p.2)

/-- Whether a peer is inside a trusted-proxy entry. -/
def peerIsTrusted (trusted : List String) (peer : IpAddr) : Bool := trusted.any (fun entry => ipMatches entry peer)

/-! The texts of network addresses, as they are written into keys and headers. -/

def ipv4Octets (bits : BitVec 32) : List ℕ := [3,2,1,0].map fun i => bits.toNat / 256 ^ i % 256

def ipv4Text (bits : BitVec 32) : List Char := ['.'].intercalate ((ipv4Octets bits).map (Nat.toDigits 10))

def ipv6Segments (bits : BitVec 128) : List ℕ := [7,6,5,4,3,2,1,0].map fun i => bits.toNat / 65536 ^ i % 65536

/-- A stretch of segments. -/
structure Span where
  start : ℕ
  len : ℕ
  deriving DecidableEq, Repr

/-- The first longest stretch of zero segments from the `i`th on. -/
def longestZeros : List ℕ → ℕ → Span → Span → Span
  | [], _, _, longest => longest
  | segment :: rest, i, current, longest =>
    if segment = 0 then
      let current := ⟨if current.len = 0 then i else current.start,current.len + 1⟩
      longestZeros rest (i + 1) current (if longest.len < current.len then current else longest)
    else longestZeros rest (i + 1) ⟨0,0⟩ longest

def segmentsText (segments : List ℕ) : List Char := [':'].intercalate (segments.map (Nat.toDigits 16))

/-- The segments written before and after the gap; without a gap these are all of them. -/
def writtenSegments (segments : List ℕ) : List ℕ × List ℕ :=
  let zeros := longestZeros segments 0 ⟨0,0⟩ ⟨0,0⟩
  if 1 < zeros.len then (segments.take zeros.start,segments.drop (zeros.start + zeros.len)) else (segments,segments)

def ipv6Text (bits : BitVec 128) : List Char :=
  -- an IPv4-mapped address ends in the text of the IPv4 address
  if bits.toNat / 2 ^ 32 = 0xffff then "::ffff:".toList ++ ipv4Text (bits.setWidth 32)
  else
    let segments := ipv6Segments bits
    let zeros := longestZeros segments 0 ⟨0,0⟩ ⟨0,0⟩
    if 1 < zeros.len then
      segmentsText (segments.take zeros.start) ++ "::".toList ++ segmentsText (segments.drop (zeros.start + zeros.len))
    else segmentsText segments

def IpAddr.text : IpAddr → String
  | .v4 bits => String.ofList (ipv4Text bits)
  | .v6 bits => String.ofList (ipv6Text bits)

example : (IpAddr.v4 0x0a000001#32).text = "10.0.0.1" := by decide
example : (IpAddr.v6 0x20010db8000000000000000000000001#128).text = "2001:db8::1" := by decide
example : (IpAddr.v6 0x00000000000000000000ffff0a000001#128).text = "::ffff:10.0.0.1" := by decide

section Bits

/-- The digits of a number below a power of the base determine it. -/
theorem eq_of_digits {base k m n : ℕ} (hm : m < base ^ k) (hn : n < base ^ k)
    (h : ∀ i < k, m / base ^ i % base = n / base ^ i % base) : m = n := by
  have hmod : ∀ j ≤ k, m % base ^ j = n % base ^ j := by
    intro j hj
    induction j with
    | zero => rw [Nat.pow_zero,Nat.mod_one,Nat.mod_one]
    | succ j ih => rw [Nat.mod_pow_succ,Nat.mod_pow_succ,ih (Nat.le_of_succ_le hj),h j hj]
  have hall := hmod k (Nat.le_refl k)
  rwa [Nat.mod_eq_of_lt hm,Nat.mod_eq_of_lt hn] at hall

theorem ipv4Octets_injective : Function.Injective ipv4Octets := by
  intro a b h
  have hdigit := List.map_inj_left.mp h
  refine BitVec.eq_of_toNat_eq (eq_of_digits (k := 4) a.isLt b.isLt fun i hi => hdigit i ?_)
  simp only [List.mem_cons,List.not_mem_nil]
  omega

theorem ipv6Segments_injective : Function.Injective ipv6Segments := by
  intro a b h
  have hdigit := List.map_inj_left.mp h
  refine BitVec.eq_of_toNat_eq (eq_of_digits (k := 8) a.isLt b.isLt fun i hi => hdigit i ?_)
  simp only [List.mem_cons,List.not_mem_nil]
  omega

/-- A mapped address is given by its last four bytes. -/
theorem mapped_injective {a b : BitVec 128} (ha : a.toNat / 2 ^ 32 = 0xffff) (hb : b.toNat / 2 ^ 32 = 0xffff)
    (h : a.setWidth 32 = b.setWidth 32) : a = b := by
  have hlow := congrArg BitVec.toNat h
  rw [BitVec.toNat_setWidth,BitVec.toNat_setWidth] at hlow
  apply BitVec.eq_of_toNat_eq
  omega

end Bits

section Digits
variable {n b : ℕ} {c : Char}

/-- The characters an address is written in. -/
def addressChars : List Char := "0123456789abcdef:.".toList

private theorem hexDigit_mem (i : Fin 16) :
    i.val.digitChar ∈ addressChars ∧ i.val.digitChar ≠ ':' ∧ i.val.digitChar ≠ '.' := by
  revert i
  decide

/-- Digits are written in an address, and are no separators. -/
theorem digit_mem (hb : 1 < b) (hb' : b ≤ 16) (h : c ∈ Nat.toDigits b n) : c ∈ addressChars ∧ c ≠ ':' ∧ c ≠ '.' := by
  obtain ⟨i,hi,rfl⟩ := Joined.mem_toDigits hb h
  exact hexDigit_mem ⟨i,by omega⟩

end Digits

section Ipv4
variable {bits : BitVec 32} {c : Char}

theorem mem_ipv4Text (h : c ∈ ipv4Text bits) : c ∈ addressChars ∧ c ≠ ':' := by
  rcases Joined.mem_join h with rfl | ⟨p,hp,hc⟩
  · decide
  · obtain ⟨n,-,rfl⟩ := List.mem_map.mp hp
    have hdigit := digit_mem (by decide) (by decide) hc
    exact ⟨hdigit.1,hdigit.2.1⟩

theorem dot_mem_ipv4Text (bits : BitVec 32) : '.' ∈ ipv4Text bits := by
  simp [ipv4Text,ipv4Octets,List.intercalate_cons_cons]

theorem splitOn_ipv4Text (bits : BitVec 32) : (ipv4Text bits).splitOn '.' = (ipv4Octets bits).map (Nat.toDigits 10) := by
  apply Joined.splitOn_join
  · intro p hp hdot
    obtain ⟨n,-,rfl⟩ := List.mem_map.mp hp
    exact (digit_mem (by decide) (by decide) hdot).2.2 rfl
  · simp [ipv4Octets]

theorem ipv4Text_injective : Function.Injective ipv4Text := by
  intro a b h
  have hsplit := congrArg (List.splitOn '.') h
  rw [splitOn_ipv4Text,splitOn_ipv4Text] at hsplit
  exact ipv4Octets_injective (List.map_injective_iff.mpr (Joined.toDigits_injective (by decide) (by decide)) hsplit)

end Ipv4

section Ipv6
variable {segments : List ℕ} {c : Char}

theorem mem_segmentsText (h : c ∈ segmentsText segments) : c ∈ addressChars ∧ c ≠ '.' := by
  rcases Joined.mem_join h with rfl | ⟨p,hp,hc⟩
  · decide
  · obtain ⟨n,-,rfl⟩ := List.mem_map.mp hp
    have hdigit := digit_mem (by decide) (by decide) hc
    exact ⟨hdigit.1,hdigit.2.2⟩

/-- Every segment of a stretch is zero. -/
def Span.Zeros (segments : List ℕ) (span : Span) : Prop :=
  ∀ j, span.start ≤ j → j < span.start + span.len → segments[j]? = some 0

theorem longestZeros_zeros (before : List ℕ) {rest : List ℕ} {current longest : Span} (hseg : segments = before ++ rest)
    (hcurrent : current.Zeros segments) (hend : current.len = 0 ∨ current.start + current.len = before.length)
    (hlongest : longest.Zeros segments) : (longestZeros rest before.length current longest).Zeros segments := by
  induction rest generalizing before current longest with
  | nil => exact hlongest
  | cons segment rest ih =>
    have hseg' : segments = (before ++ [segment]) ++ rest := by rw [hseg,List.append_assoc,List.singleton_append]
    have hlen : (before ++ [segment]).length = before.length + 1 := by simp
    rw [longestZeros]
    by_cases hzero : segment = 0
    · simp only [if_pos hzero]
      rw [← hlen]
      have hgrown : Span.Zeros segments ⟨if current.len = 0 then before.length else current.start,current.len + 1⟩ := by
        intro j hj hj'
        by_cases hlast : j = before.length
        · rw [hlast,hseg,List.getElem?_append_right (Nat.le_refl _)]
          simp [hzero]
        · by_cases hfresh : current.len = 0
          · simp only [hfresh,if_true] at hj hj'
            omega
          · simp only [hfresh,if_false] at hj hj'
            exact hcurrent j hj (by omega)
      apply ih _ hseg' hgrown
      · right
        rw [hlen]
        split <;> simp only <;> omega
      · split
        · exact hgrown
        · exact hlongest
    · simp only [if_neg hzero]
      rw [← hlen]
      exact ih _ hseg' (fun j _ hj => by simp at hj) (.inl rfl) hlongest

/-- The segments read back from those before and after the gap. -/
def expand (written : List ℕ × List ℕ) : List ℕ :=
  if written.1.length = 8 then written.1
  else written.1 ++ List.replicate (8 - written.1.length - written.2.length) 0 ++ written.2

theorem expand_writtenSegments (hlen : segments.length = 8) : expand (writtenSegments segments) = segments := by
  have hzeros : (longestZeros segments 0 ⟨0,0⟩ ⟨0,0⟩).Zeros segments :=
    longestZeros_zeros [] rfl (fun j _ hj => by simp at hj) (.inl rfl) (fun j _ hj => by simp at hj)
  rw [writtenSegments]
  generalize longestZeros segments 0 ⟨0,0⟩ ⟨0,0⟩ = zeros at *
  by_cases hgap : 1 < zeros.len
  · have hend : zeros.start + zeros.len ≤ 8 := by
      have hlast := hzeros (zeros.start + zeros.len - 1) (by omega) (by omega)
      have hbound := (List.getElem?_eq_some_iff.mp hlast).1
      omega
    simp only [if_pos hgap,expand,List.length_take,List.length_drop,hlen]
    rw [if_neg (by omega)]
    apply List.ext_getElem?
    intro j
    have htake : (segments.take zeros.start).length = zeros.start := by
      rw [List.length_take,hlen]
      omega
    have hgaplen : 8 - min zeros.start 8 - (8 - (zeros.start + zeros.len)) = zeros.len := by omega
    rw [hgaplen]
    by_cases hbefore : j < zeros.start
    · rw [List.append_assoc,List.getElem?_append_left (by omega),List.getElem?_take_of_lt hbefore]
    · rw [List.append_assoc,List.getElem?_append_right (by omega),htake]
      by_cases hin : j < zeros.start + zeros.len
      · rw [List.getElem?_append_left (by rw [List.length_replicate]; omega),
          List.getElem?_replicate_of_lt (by omega),hzeros j (by omega) hin]
      · rw [List.getElem?_append_right (by rw [List.length_replicate]; omega),List.length_replicate,List.getElem?_drop]
        congr 1
        omega
  · simp only [if_neg hgap,expand,hlen,if_true]

private theorem hex_piece {p : List Char} (h : p ∈ segments.map (Nat.toDigits 16)) : ':' ∉ p ∧ p ≠ [] := by
  obtain ⟨n,-,rfl⟩ := List.mem_map.mp h
  exact ⟨fun hcolon => (digit_mem (by decide) (by decide) hcolon).2.1 rfl,Nat.toDigits_ne_nil⟩

/-- The pieces read up to the first gap and back to the last. -/
def readPieces (text : List Char) : List (List Char) × List (List Char) :=
  ((text.splitOn ':').takeWhile (· ≠ []),(text.splitOn ':').reverse.takeWhile (· ≠ []))

theorem readPieces_gap (before after : List ℕ) :
    readPieces (segmentsText before ++ "::".toList ++ segmentsText after) =
      (before.map (Nat.toDigits 16),(after.map (Nat.toDigits 16)).reverse) := by
  have hsplit : (segmentsText before ++ "::".toList ++ segmentsText after).splitOn ':' =
      (segmentsText before).splitOn ':' ++ [] :: (segmentsText after).splitOn ':' := by
    have hfirst : segmentsText before ++ "::".toList ++ segmentsText after =
        segmentsText before ++ ':' :: ([] ++ ':' :: segmentsText after) := by
      rw [List.append_assoc]
      rfl
    rw [hfirst,List.splitOn_append_cons_self,List.splitOn_append_cons_self]
    rfl
  rw [readPieces,hsplit,List.reverse_append,List.reverse_cons,List.append_assoc,List.singleton_append]
  exact Prod.ext (Joined.takeWhile_join (fun p hp => (hex_piece hp).1) (fun p hp => (hex_piece hp).2) _)
    (Joined.takeWhile_reverse_join (fun p hp => (hex_piece hp).1) (fun p hp => (hex_piece hp).2) _)

theorem readPieces_full (hne : segments ≠ []) :
    readPieces (segmentsText segments) = (segments.map (Nat.toDigits 16),(segments.map (Nat.toDigits 16)).reverse) := by
  have hsplit : (segmentsText segments).splitOn ':' = segments.map (Nat.toDigits 16) :=
    Joined.splitOn_join (fun p hp => (hex_piece hp).1) (by simpa using hne)
  rw [readPieces,hsplit,List.takeWhile_eq_self_iff.mpr,List.takeWhile_eq_self_iff.mpr]
  · intro p hp
    simpa using (hex_piece (List.mem_reverse.mp hp)).2
  · intro p hp
    simpa using (hex_piece hp).2

/-- The text of an address that is not mapped, from the segments around its gap. -/
theorem readPieces_ipv6Text {bits : BitVec 128} (h : ¬ bits.toNat / 2 ^ 32 = 0xffff) :
    readPieces (ipv6Text bits) = ((writtenSegments (ipv6Segments bits)).1.map (Nat.toDigits 16),
      ((writtenSegments (ipv6Segments bits)).2.map (Nat.toDigits 16)).reverse) := by
  rw [ipv6Text,if_neg h,writtenSegments]
  simp only
  split
  · exact readPieces_gap _ _
  · exact readPieces_full (by simp [ipv6Segments])

theorem mem_ipv6Text {bits : BitVec 128} (hc : c ∈ ipv6Text bits) :
    c ∈ addressChars ∧ (¬ bits.toNat / 2 ^ 32 = 0xffff → c ≠ '.') := by
  rw [ipv6Text] at hc
  split at hc
  · rename_i hmapped
    rcases List.mem_append.mp hc with hc | hc
    · refine ⟨?_,fun h => absurd hmapped h⟩
      have hall : ("::ffff:".toList.all fun d => addressChars.elem d) = true := by decide
      exact List.elem_iff.mp (List.all_eq_true.mp hall c hc)
    · exact ⟨(mem_ipv4Text hc).1,fun h => absurd hmapped h⟩
  · simp only at hc
    split at hc
    · rw [List.mem_append,List.mem_append] at hc
      rcases hc with (hc | hc) | hc
      · exact ⟨(mem_segmentsText hc).1,fun _ => (mem_segmentsText hc).2⟩
      · have hcolon : c = ':' := by simpa using hc
        subst hcolon
        exact ⟨by decide,fun _ => by decide⟩
      · exact ⟨(mem_segmentsText hc).1,fun _ => (mem_segmentsText hc).2⟩
    · exact ⟨(mem_segmentsText hc).1,fun _ => (mem_segmentsText hc).2⟩

theorem ipv6Text_injective : Function.Injective ipv6Text := by
  have hmapped : ∀ {a b : BitVec 128}, a.toNat / 2 ^ 32 = 0xffff → ¬ b.toNat / 2 ^ 32 = 0xffff → ipv6Text a ≠ ipv6Text b := by
    intro a b ha hb h
    have hdot : '.' ∈ ipv6Text a := by
      rw [ipv6Text,if_pos ha]
      exact List.mem_append_right _ (dot_mem_ipv4Text _)
    exact (mem_ipv6Text (h ▸ hdot)).2 hb rfl
  intro a b h
  by_cases ha : a.toNat / 2 ^ 32 = 0xffff
  · by_cases hb : b.toNat / 2 ^ 32 = 0xffff
    · rw [ipv6Text,ipv6Text,if_pos ha,if_pos hb] at h
      exact mapped_injective ha hb (ipv4Text_injective (List.append_cancel_left h))
    · exact absurd h (hmapped ha hb)
  · by_cases hb : b.toNat / 2 ^ 32 = 0xffff
    · exact absurd h.symm (hmapped hb ha)
    · have hread := congrArg readPieces h
      rw [readPieces_ipv6Text ha,readPieces_ipv6Text hb] at hread
      have hhex := List.map_injective_iff.mpr (Joined.toDigits_injective (b := 16) (by decide) (by decide))
      have hwritten : writtenSegments (ipv6Segments a) = writtenSegments (ipv6Segments b) :=
        Prod.ext (hhex (congrArg Prod.fst hread)) (hhex (List.reverse_injective (congrArg Prod.snd hread)))
      apply ipv6Segments_injective
      calc ipv6Segments a = expand (writtenSegments (ipv6Segments a)) := (expand_writtenSegments rfl).symm
        _ = ipv6Segments b := by rw [hwritten,expand_writtenSegments rfl]

theorem colon_mem_ipv6Text (bits : BitVec 128) : ':' ∈ ipv6Text bits := by
  rw [ipv6Text]
  split
  · exact List.mem_append_left _ (by decide)
  · simp only
    split
    · exact List.mem_append_left _ (List.mem_append_right _ (by decide))
    · simp [segmentsText,ipv6Segments,List.intercalate_cons_cons]

end Ipv6

/-- Two addresses are written alike only if they are one. -/
theorem IpAddr.text_injective : Function.Injective IpAddr.text := by
  intro a b h
  cases a with
  | v4 a =>
    cases b with
    | v4 b => exact congrArg v4 (ipv4Text_injective (String.ofList_injective h))
    | v6 b =>
      have hcolon := colon_mem_ipv6Text b
      rw [← String.ofList_injective h] at hcolon
      exact absurd rfl (mem_ipv4Text hcolon).2
  | v6 a =>
    cases b with
    | v4 b =>
      have hcolon := colon_mem_ipv6Text a
      rw [String.ofList_injective h] at hcolon
      exact absurd rfl (mem_ipv4Text hcolon).2
    | v6 b => exact congrArg v6 (ipv6Text_injective (String.ofList_injective h))

theorem IpAddr.mem_text {ip : IpAddr} {c : Char} (h : c ∈ ip.text.toList) : c ∈ addressChars := by
  cases ip with
  | v4 bits =>
    rw [text,String.toList_ofList] at h
    exact (mem_ipv4Text h).1
  | v6 bits =>
    rw [text,String.toList_ofList] at h
    exact (mem_ipv6Text h).1

theorem IpAddr.text_ne_empty (ip : IpAddr) : ip.text ≠ "" := by
  intro h
  have hnil := congrArg String.toList h
  cases ip with
  | v4 bits =>
    rw [text,String.toList_ofList] at hnil
    have hdot := dot_mem_ipv4Text bits
    rw [hnil] at hdot
    exact absurd hdot List.not_mem_nil
  | v6 bits =>
    rw [text,String.toList_ofList] at hnil
    have hcolon := colon_mem_ipv6Text bits
    rw [hnil] at hcolon
    exact absurd hcolon List.not_mem_nil

end Dwara.Config.Net
