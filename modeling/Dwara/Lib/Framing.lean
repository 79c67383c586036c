import Dwara.Lib.Der
import Mathlib.Data.List.Infix
import Mathlib.Data.Nat.Notation
import Mathlib.Data.Nat.Bitwise

/-! Streams cut into frames by reading one frame at a time off the front. -/

namespace Dwara.Lib.Framing

/-- What the front of a stream holds: not a whole frame yet, no frame at all, or a frame and its
size. -/
inductive Front (ι ε : Type*) where
  | wait
  | reject (why : ε)
  | frame (item : ι) (size : ℕ)

/-- A reader of the first frame. What it says stands whatever follows, and it reads no further than
the frame. -/
structure Reader (α ι ε : Type*) where
  front : List α → Front ι ε
  front_nil : front [] = .wait
  size_pos : ∀ {xs item size}, front xs = .frame item size → 0 < size
  size_le : ∀ {xs item size}, front xs = .frame item size → size ≤ xs.length
  front_append : ∀ {xs} (more), front xs ≠ .wait → front (xs ++ more) = front xs
  front_take : ∀ {xs item size}, front xs = .frame item size → front (xs.take size) = .frame item size

/-- A stream as far as it has come in: its whole frames, why it was given up, and what is left. -/
structure Cut (α ι ε : Type*) where
  frames : List ι
  rejected : Option ε
  rest : List α

variable {α ι ε : Type*}

/-- The frames of a stream, then those of what was left of it with more. -/
def Cut.extend (r more : Cut α ι ε) : Cut α ι ε := ⟨r.frames ++ more.frames,more.rejected,more.rest⟩

namespace Reader
variable (R : Reader α ι ε)

/-- The frames of a stream, one after the other. -/
def cut (xs : List α) : Cut α ι ε :=
  match _hfront : R.front xs with
  | .wait => ⟨[],none,xs⟩
  | .reject why => ⟨[],some why,xs⟩
  | .frame item size => Cut.extend ⟨[item],none,[]⟩ (cut (xs.drop size))
termination_by xs.length
decreasing_by
  have hpos := R.size_pos _hfront
  have hle := R.size_le _hfront
  rw [List.length_drop]
  omega

variable {R} {xs : List α}

theorem cut_wait (h : R.front xs = .wait) : R.cut xs = ⟨[],none,xs⟩ := by
  rw [cut]
  split <;> simp_all

theorem cut_reject {why : ε} (h : R.front xs = .reject why) : R.cut xs = ⟨[],some why,xs⟩ := by
  rw [cut]
  split <;> simp_all

theorem cut_frame {item : ι} {size : ℕ} (h : R.front xs = .frame item size) :
    R.cut xs = Cut.extend ⟨[item],none,[]⟩ (R.cut (xs.drop size)) := by
  rw [cut]
  split <;> simp_all

/-- What is left does not hold a whole frame. -/
theorem front_rest (h : (R.cut xs).rejected = none) : R.front (R.cut xs).rest = .wait := by
  induction xs using cut.induct R with
  | case1 xs hfront => rw [cut_wait hfront]; exact hfront
  | case2 xs why hfront =>
    rw [cut_reject hfront] at h
    cases h
  | case3 xs item size hfront ih =>
    rw [cut_frame hfront] at h ⊢
    exact ih h

/-- More of a stream adds to the frames it has. -/
theorem cut_append (h : (R.cut xs).rejected = none) (more : List α) :
    R.cut (xs ++ more) = (R.cut xs).extend (R.cut ((R.cut xs).rest ++ more)) := by
  induction xs using cut.induct R with
  | case1 xs hfront =>
    rw [cut_wait hfront,Cut.extend,List.nil_append]
  | case2 xs why hfront =>
    rw [cut_reject hfront] at h
    cases h
  | case3 xs item size hfront ih =>
    have hmore : R.front (xs ++ more) = .frame item size := by rw [R.front_append more (by rw [hfront]; exact nofun),hfront]
    rw [cut_frame hfront] at h ⊢
    rw [cut_frame hmore,List.drop_append_of_le_length (R.size_le hfront),ih h]
    rfl

/-- A stream that is given up stays so. -/
theorem cut_append_rejected {why : ε} (h : (R.cut xs).rejected = some why) (more : List α) :
    R.cut (xs ++ more) = { R.cut xs with rest := (R.cut xs).rest ++ more } := by
  induction xs using cut.induct R with
  | case1 xs hfront =>
    rw [cut_wait hfront] at h
    cases h
  | case2 xs why' hfront =>
    rw [cut_reject hfront,cut_reject (by rw [R.front_append more (by rw [hfront]; exact nofun),hfront])]
  | case3 xs item size hfront ih =>
    have hmore : R.front (xs ++ more) = .frame item size := by rw [R.front_append more (by rw [hfront]; exact nofun),hfront]
    rw [cut_frame hfront] at h ⊢
    rw [cut_frame hmore,List.drop_append_of_le_length (R.size_le hfront),ih h]
    rfl

/-- A frame that one more byte completes takes all there is. -/
theorem size_eq_of_wait (hwait : R.front xs = .wait) {x : α} {item : ι} {size : ℕ} (h : R.front (xs ++ [x]) = .frame item size) :
    size = xs.length + 1 := by
  have hle : size ≤ xs.length + 1 := by simpa using R.size_le h
  by_contra hshort
  have htake : (xs ++ [x]).take size = xs.take size := List.take_append_of_le_length (by omega)
  have hfront := R.front_take h
  rw [htake] at hfront
  have hall : R.front (xs.take size ++ xs.drop size) = R.front (xs.take size) := R.front_append _ (by rw [hfront]; exact nofun)
  rw [List.take_append_drop,hwait,hfront] at hall
  cases hall

theorem cut_frame_of_wait (hwait : R.front xs = .wait) {x : α} {item : ι} {size : ℕ} (h : R.front (xs ++ [x]) = .frame item size) :
    R.cut (xs ++ [x]) = ⟨[item],none,[]⟩ := by
  rw [cut_frame h,List.drop_of_length_le (by simp [size_eq_of_wait hwait h]),cut_wait R.front_nil]
  rfl

end Reader
end Dwara.Lib.Framing

/-! The header of a WebSocket frame, read from the front of a byte stream. -/

namespace Dwara.Lib.WebSocketFrame

abbrev Bytes := List UInt8

/-- What the header of a frame declares. A length that does not fit its second byte takes an
extension of two or eight bytes. -/
structure Header where
  opcode : ℕ
  masked : Bool
  extension : ℕ
  length : ℕ
  deriving DecidableEq, Repr

/-- The bytes of the masking key. -/
def maskSize (masked : Bool) : ℕ := if masked then 4 else 0

namespace Header

/-- The bytes of the whole frame: two bytes, the extension, the masking key, the payload. -/
def size (h : Header) : ℕ := 2 + h.extension + maskSize h.masked + h.length

def isData (h : Header) : Bool := h.opcode ≤ 2

end Header

def isReserved (opcode : ℕ) : Bool := 3 ≤ opcode ∧ opcode ≤ 7 ∨ 11 ≤ opcode

def isControl (opcode : ℕ) : Bool := 8 ≤ opcode ∧ opcode ≤ 10

def opcode (b0 : UInt8) : ℕ := b0.toNat % 16
def shortLength (b1 : UInt8) : ℕ := b1.toNat % 128
def hasMask (b1 : UInt8) : Bool := 128 ≤ b1.toNat

/-- The bytes of the length extension that a short length announces. -/
def extensionSize (short : ℕ) : ℕ := if short < 126 then 0 else if short = 126 then 2 else 8

/-- The header of the first frame, once all of it has come in. -/
def readHeader : Bytes → Option Header
  | b0 :: b1 :: rest =>
    let extension := extensionSize (shortLength b1)
    if rest.length < extension then none
    else some ⟨opcode b0,hasMask b1,extension,if extension = 0 then shortLength b1 else Der.ofBigEndian (rest.take extension)⟩
  | _ => none

theorem two_le_size (h : Header) : 2 ≤ h.size := by
  rw [Header.size]
  omega

theorem Header.extension_le_size (h : Header) : 2 + h.extension ≤ h.size := by
  rw [Header.size]
  omega

/-- A header that has come in is not changed by what follows. -/
theorem readHeader_append {bs : Bytes} {h : Header} (hread : readHeader bs = some h) (more : Bytes) :
    readHeader (bs ++ more) = some h := by
  match bs, hread with
  | b0 :: b1 :: rest, hread =>
    rw [readHeader] at hread
    rw [List.cons_append,List.cons_append,readHeader]
    split at hread
    · cases hread
    · rename_i hfull
      rw [if_neg (by rw [List.length_append]; omega),List.take_append_of_le_length (Nat.le_of_not_lt hfull)]
      exact hread

/-- Nor does it need anything past its own bytes. -/
theorem readHeader_take {bs : Bytes} {h : Header} (hread : readHeader bs = some h) {n : ℕ} (hn : 2 + h.extension ≤ n) :
    readHeader (bs.take n) = some h := by
  match bs, hread with
  | b0 :: b1 :: rest, hread =>
    obtain ⟨m,rfl⟩ : ∃ m, n = m + 2 := ⟨n - 2,by omega⟩
    rw [readHeader] at hread
    split at hread
    · cases hread
    · rename_i hfull
      have hextension : h.extension = extensionSize (shortLength b1) := by rw [← Option.some.inj hread]
      rw [hextension] at hn
      have hlonger : ¬ (rest.take m).length < extensionSize (shortLength b1) := by
        rw [List.length_take]
        omega
      rw [List.take_succ_cons,List.take_succ_cons,readHeader,if_neg hlonger,List.take_take,Nat.min_eq_left (by omega)]
      exact hread

theorem readHeader_eq_none {b0 b1 : UInt8} {rest : Bytes} (h : readHeader (b0 :: b1 :: rest) = none) :
    rest.length < extensionSize (shortLength b1) := by
  rw [readHeader] at h
  split at h
  · assumption
  · cases h

/-- The bits of the header's first two bytes. -/
theorem toNat_and_fifteen (b : UInt8) : (b &&& 0x0f).toNat = opcode b := by
  rw [UInt8.toNat_and]
  exact Nat.and_two_pow_sub_one_eq_mod b.toNat 4

theorem toNat_and_low (b : UInt8) : (b &&& 0x7f).toNat = shortLength b := by
  rw [UInt8.toNat_and]
  exact Nat.and_two_pow_sub_one_eq_mod b.toNat 7

theorem and_high_ne_zero (b : UInt8) : b &&& 0x80 ≠ 0 ↔ hasMask b := by
  have hbit : (b &&& 0x80).toNat = (b.toNat.testBit 7).toNat * 2 ^ 7 := by
    rw [UInt8.toNat_and]
    exact Nat.and_two_pow b.toNat 7
  have hlt := b.toNat_lt
  rw [ne_eq,← UInt8.toNat_inj,hbit,Nat.testBit_eq_decide_div_mod_eq,hasMask,decide_eq_true_eq]
  by_cases hhigh : 128 ≤ b.toNat
  · have hone : b.toNat / 128 % 2 = 1 := by omega
    simp [hone,hhigh]
  · have hzero : b.toNat / 128 % 2 = 0 := by omega
    simp [hzero,hhigh]

end Dwara.Lib.WebSocketFrame
