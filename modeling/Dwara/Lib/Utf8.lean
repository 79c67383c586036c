import Mathlib.Data.List.Basic
import Mathlib.Data.Nat.Bitwise

/-! Bytes read as UTF-8, with U+FFFD in place of what is not. -/

namespace Dwara.Lib.Utf8

abbrev Bytes := List UInt8

def encode (cs : List Char) : Bytes := cs.flatMap String.utf8EncodeChar

/-- The character a text of bytes starts with. -/
def decodeChar (bs : Bytes) : Option Char := bs.toByteArray.utf8DecodeChar? 0

def IsContinuation (b : UInt8) : Prop := 0x80 ≤ b ∧ b ≤ 0xbf

instance (b : UInt8) : Decidable (IsContinuation b) := inferInstanceAs (Decidable (_ ∧ _))

/-- The second byte is one a first byte of a character of three or four bytes admits. -/
def SecondOk (b c : UInt8) : Prop :=
  b = 0xe0 ∧ 0xa0 ≤ c ∧ c ≤ 0xbf ∨ b = 0xed ∧ 0x80 ≤ c ∧ c ≤ 0x9f ∨ b = 0xf0 ∧ 0x90 ≤ c ∧ c ≤ 0xbf ∨
    b = 0xf4 ∧ 0x80 ≤ c ∧ c ≤ 0x8f ∨ (0xe1 ≤ b ∧ b ≤ 0xef ∧ b ≠ 0xed ∨ 0xf1 ≤ b ∧ b ≤ 0xf3) ∧ IsContinuation c

instance (b c : UInt8) : Decidable (SecondOk b c) := inferInstanceAs (Decidable (_ ∨ _ ∨ _ ∨ _ ∨ _))

/-- Bytes of an ill-formed start that are replaced together: the longest start of a
character, or one byte. -/
def invalidLen : Bytes → ℕ
  | b :: c :: rest =>
    if SecondOk b c then
      if 0xf0 ≤ b then
        match rest with
        | d :: _ => if IsContinuation d then 3 else 2
        | [] => 2
      else 2
    else 1
  | _ => 1

theorem invalidLen_pos (bs : Bytes) : 0 < invalidLen bs := by
  unfold invalidLen
  split
  · split
    · split
      · split
        · split <;> omega
        · omega
      · omega
    · omega
  · omega

/-- Every character that is there, and U+FFFD for the rest. -/
def fromUtf8Lossy : Bytes → List Char
  | [] => []
  | b :: bs =>
    match decodeChar (b :: bs) with
    | some c => c :: fromUtf8Lossy (bs.drop (c.utf8Size - 1))
    | none => '\uFFFD' :: fromUtf8Lossy (bs.drop (invalidLen (b :: bs) - 1))
termination_by bs => bs.length

theorem decodeChar_encode (c : Char) (rest : Bytes) : decodeChar (String.utf8EncodeChar c ++ rest) = some c := by
  rw [decodeChar,List.toByteArray_append]
  exact ByteArray.utf8DecodeChar?_utf8EncodeChar_append

theorem eq_append_of_decodeChar {bs : Bytes} {c : Char} (h : decodeChar bs = some c) :
    ∃ rest, bs = String.utf8EncodeChar c ++ rest := by
  obtain ⟨l,hl⟩ := ByteArray.exists_of_utf8DecodeChar?_eq_some h
  have hdata := congrArg (fun b => b.data.toList) hl
  simp at hdata
  exact ⟨l.data.toList,hdata⟩

theorem fromUtf8Lossy_encode (c : Char) (rest : Bytes) : fromUtf8Lossy (String.utf8EncodeChar c ++ rest) = c :: fromUtf8Lossy rest := by
  have hlen := String.length_utf8EncodeChar c
  have hpos := c.utf8Size_pos
  have hdecode := decodeChar_encode c rest
  generalize String.utf8EncodeChar c = enc at *
  cases enc with
  | nil => simp at hlen; omega
  | cons b enc =>
    rw [List.cons_append] at hdecode ⊢
    rw [List.length_cons] at hlen
    rw [fromUtf8Lossy,hdecode]
    simp only
    rw [← hlen,Nat.add_sub_cancel,List.drop_left]

theorem fromUtf8Lossy_encode_append (cs : List Char) (rest : Bytes) : fromUtf8Lossy (encode cs ++ rest) = cs ++ fromUtf8Lossy rest := by
  induction cs with
  | nil => rfl
  | cons c cs ih => rw [encode,List.flatMap_cons,List.append_assoc,fromUtf8Lossy_encode,← encode,ih,List.cons_append]

/-- What is UTF-8 is read as it is. -/
theorem fromUtf8Lossy_of_encode (cs : List Char) : fromUtf8Lossy (encode cs) = cs := by
  have h := fromUtf8Lossy_encode_append cs []
  rw [List.append_nil,fromUtf8Lossy,List.append_nil] at h
  exact h

theorem fromUtf8Lossy_of_none {b : UInt8} {bs : Bytes} (h : decodeChar (b :: bs) = none) :
    fromUtf8Lossy (b :: bs) = '\uFFFD' :: fromUtf8Lossy ((b :: bs).drop (invalidLen (b :: bs))) := by
  have hpos := invalidLen_pos (b :: bs)
  rw [fromUtf8Lossy,h]
  simp only
  congr 2
  cases hn : invalidLen (b :: bs) with
  | zero => omega
  | succ n => rfl

private theorem SecondOk.high {b c : UInt8} (h : SecondOk b c) : 0x80 ≤ c := by
  rcases h with ⟨-,hle,-⟩ | ⟨-,hle,-⟩ | ⟨-,hle,-⟩ | ⟨-,hle,-⟩ | ⟨-,hle,-⟩
  · exact UInt8.le_trans (by decide) hle
  · exact hle
  · exact UInt8.le_trans (by decide) hle
  · exact hle
  · exact hle

section Ascii
variable {a : UInt8} (ha : a < 0x80)
include ha

private theorem ascii_isFirstByte : a.IsUTF8FirstByte := by
  have hlt : a.toNat < 2 ^ 7 := UInt8.lt_iff_toNat_lt.mp ha
  have hbit : a.toNat &&& 2 ^ 7 = 0 := by
    rw [Nat.and_two_pow,Nat.testBit_lt_two_pow hlt]
    rfl
  refine .inl (UInt8.toNat_inj.mp ?_)
  rw [UInt8.toNat_and]
  exact hbit

private theorem invalidLen_append (b : UInt8) (bs rest : Bytes) :
    invalidLen (b :: bs ++ a :: rest) = invalidLen (b :: bs) ∧ invalidLen (b :: bs) ≤ (b :: bs).length := by
  have hhigh : ¬ 0x80 ≤ a := UInt8.not_le.mpr ha
  rcases bs with _ | ⟨c,_ | ⟨d,bs⟩⟩
  · simp only [List.cons_append,List.nil_append,invalidLen,if_neg fun h : SecondOk b a => hhigh h.high]
    exact ⟨trivial,le_refl _⟩
  · have hnot : ¬ IsContinuation a := fun h => hhigh h.1
    simp only [List.cons_append,List.nil_append,invalidLen,if_neg hnot]
    refine ⟨trivial,?_⟩
    split
    · split
      · exact le_refl _
      · exact le_refl _
    · exact Nat.le_succ _
  · refine ⟨rfl,?_⟩
    simp only [invalidLen,List.length_cons]
    split
    · split
      · split
        · omega
        · omega
      · omega
    · omega

/-- A character of an encoding reaches no ASCII byte behind its first. -/
private theorem encode_before {c : Char} {bs tail rest : Bytes} (hbs : bs ≠ [])
    (h : bs ++ a :: rest = String.utf8EncodeChar c ++ tail) :
    ∃ tail', bs = String.utf8EncodeChar c ++ tail' ∧ tail = tail' ++ a :: rest := by
  rcases List.append_eq_append_iff.mp h with ⟨as,henc,has⟩ | ⟨cs,hbs',htail⟩
  · cases as with
    | nil =>
      rw [List.append_nil] at henc
      exact ⟨[],by rw [henc,List.append_nil],by rw [List.nil_append] at has ⊢; exact has.symm⟩
    | cons x as =>
      obtain ⟨rfl,-⟩ := List.cons.inj has
      have hlt : bs.length < (String.utf8EncodeChar c).length := by
        rw [henc,List.length_append,List.length_cons]
        omega
      have hget : (String.utf8EncodeChar c)[bs.length] = a := by
        simp [henc]
      have hfirst : (String.utf8EncodeChar c)[bs.length].IsUTF8FirstByte := hget ▸ ascii_isFirstByte ha
      have hzero := UInt8.isUTF8FirstByte_getElem_utf8EncodeChar.mp hfirst
      exact absurd (List.length_eq_zero_iff.mp hzero) hbs
  · exact ⟨cs,hbs',htail⟩

/-- Reading breaks at an ASCII byte. -/
theorem fromUtf8Lossy_append (bs rest : Bytes) : fromUtf8Lossy (bs ++ a :: rest) = fromUtf8Lossy bs ++ fromUtf8Lossy (a :: rest) := by
  induction hn : bs.length using Nat.strong_induction_on generalizing bs with
  | _ n ih =>
    cases bs with
    | nil => rw [fromUtf8Lossy,List.nil_append,List.nil_append]
    | cons b bs =>
      cases hc : decodeChar (b :: bs ++ a :: rest) with
      | some c =>
        obtain ⟨tail,htail⟩ := eq_append_of_decodeChar hc
        obtain ⟨tail',hbs,rfl⟩ := encode_before ha (List.cons_ne_nil _ _) htail
        have hlen := congrArg List.length hbs
        have hpos := c.utf8Size_pos
        rw [List.length_append,String.length_utf8EncodeChar] at hlen
        rw [htail,hbs,fromUtf8Lossy_encode,fromUtf8Lossy_encode,ih tail'.length (by omega) tail' rfl,List.cons_append]
      | none =>
        have hnone : decodeChar (b :: bs) = none := by
          cases hd : decodeChar (b :: bs) with
          | none => rfl
          | some c =>
            obtain ⟨tail,htail⟩ := eq_append_of_decodeChar hd
            rw [htail,List.append_assoc,decodeChar_encode] at hc
            cases hc
        obtain ⟨hinvalid,hle⟩ := invalidLen_append ha b bs rest
        have hpos := invalidLen_pos (b :: bs)
        rw [List.cons_append] at hc hinvalid
        rw [fromUtf8Lossy_of_none hnone,List.cons_append,fromUtf8Lossy_of_none hc,hinvalid,← List.cons_append,
          List.drop_append_of_le_length hle,ih ((b :: bs).drop (invalidLen (b :: bs))).length
          (by rw [List.length_drop]; omega) _ rfl,List.cons_append]

end Ascii

/-- A character that is read is there, or stands for bytes that are none. -/
theorem mem_fromUtf8Lossy {bs : Bytes} {c : Char} (h : c ∈ fromUtf8Lossy bs) :
    c = '\uFFFD' ∨ ∀ b ∈ String.utf8EncodeChar c, b ∈ bs := by
  induction hn : bs.length using Nat.strong_induction_on generalizing bs with
  | _ n ih =>
    cases bs with
    | nil =>
      rw [fromUtf8Lossy] at h
      cases h
    | cons b bs =>
      cases hd : decodeChar (b :: bs) with
      | some d =>
        obtain ⟨tail,htail⟩ := eq_append_of_decodeChar hd
        have hlen := congrArg List.length htail
        have hpos := d.utf8Size_pos
        rw [List.length_append,String.length_utf8EncodeChar] at hlen
        rw [htail,fromUtf8Lossy_encode] at h
        rw [htail]
        rcases List.mem_cons.mp h with rfl | h
        · exact .inr fun b hb => List.mem_append_left _ hb
        · rcases ih tail.length (by omega) h rfl with hc | hc
          · exact .inl hc
          · exact .inr fun b hb => List.mem_append_right _ (hc b hb)
      | none =>
        have hpos := invalidLen_pos (b :: bs)
        rw [fromUtf8Lossy_of_none hd] at h
        rcases List.mem_cons.mp h with rfl | h
        · exact .inl rfl
        · rcases ih _ (by rw [List.length_drop,← hn,List.length_cons]; omega) h rfl with hc | hc
          · exact .inl hc
          · exact .inr fun b hb => List.mem_of_mem_drop (hc b hb)

theorem fromUtf8Lossy_ne_nil {bs : Bytes} (h : bs ≠ []) : fromUtf8Lossy bs ≠ [] := by
  cases bs with
  | nil => exact absurd rfl h
  | cons b bs =>
    rw [fromUtf8Lossy]
    split
    · exact List.cons_ne_nil _ _
    · exact List.cons_ne_nil _ _

end Dwara.Lib.Utf8
