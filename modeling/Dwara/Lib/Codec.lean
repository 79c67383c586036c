import Mathlib.Algebra.Group.Nat.Defs
import Mathlib.Data.List.Basic
import Mathlib.Data.Nat.Notation
import Mathlib.Tactic.TypeStar

/-! Readers off the front of a text, each with the writer that it undoes, and how they are put
together. -/

namespace Dwara.Lib

/-- A writer and the reader of what it writes. What fits is read back whatever follows, and nothing
is read but what is written of something that fits. -/
structure Codec (β α : Type*) where
  write : α → List β
  read : List β → Option (α × List β)
  Fits : α → Prop
  read_write {a : α} (h : Fits a) (rest : List β) : read (write a ++ rest) = some (a,rest)
  exact {bs rest : List β} {a : α} (h : read bs = some (a,rest)) : bs = write a ++ rest ∧ Fits a

namespace Codec
variable {β α γ : Type*}

/-- So many elements as they are. -/
def take (n : ℕ) : Codec β (List β) where
  write bs := bs
  read bs := if n ≤ bs.length then some (bs.take n,bs.drop n) else none
  Fits bs := bs.length = n
  read_write {bs} h rest := by
    subst h
    rw [if_pos (by simp),List.take_left,List.drop_left]
  exact {bs rest a} h := by
    split at h
    · rename_i hle
      obtain ⟨rfl,rfl⟩ := Prod.mk.inj (Option.some.inj h)
      exact ⟨(List.take_append_drop n bs).symm,List.length_take_of_le hle⟩
    · cases h

/-- What is read, as another type. -/
def convert (c : Codec β α) (f : α → γ) (g : γ → α) (hfg : ∀ x, f (g x) = x) (hgf : ∀ a, c.Fits a → g (f a) = a) : Codec β γ where
  write x := c.write (g x)
  read bs := (c.read bs).map fun r => (f r.1,r.2)
  Fits x := c.Fits (g x)
  read_write {x} h rest := by
    rw [c.read_write h,Option.map_some,hfg]
  exact {bs rest x} h := by
    obtain ⟨⟨a,after⟩,hread,hx⟩ := Option.map_eq_some_iff.mp h
    obtain ⟨rfl,rfl⟩ := Prod.mk.inj hx
    obtain ⟨hbs,ha⟩ := c.exact hread
    rw [hgf a ha]
    exact ⟨hbs,ha⟩

/-- A head, and a rest that depends on it. -/
def chain (c : Codec β α) (head : γ → α) (d : α → Codec β γ) (hd : ∀ a x, (d a).Fits x → head x = a) : Codec β γ where
  write x := c.write (head x) ++ (d (head x)).write x
  read bs := (c.read bs).bind fun r => (d r.1).read r.2
  Fits x := c.Fits (head x) ∧ (d (head x)).Fits x
  read_write {x} h rest := by
    rw [List.append_assoc,c.read_write h.1,Option.bind_some]
    exact (d (head x)).read_write h.2 rest
  exact {bs rest x} h := by
    obtain ⟨⟨a,after⟩,hread,hx⟩ := Option.bind_eq_some_iff.mp h
    obtain ⟨hbs,hfits⟩ := c.exact hread
    obtain ⟨hafter,hx⟩ : after = (d a).write x ++ rest ∧ (d a).Fits x := (d a).exact hx
    obtain rfl := hd a x hx
    exact ⟨by rw [hbs,hafter,List.append_assoc],hfits,hx⟩

/-- One behind the other. -/
def pair (c : Codec β α) (d : Codec β γ) : Codec β (α × γ) where
  write x := c.write x.1 ++ d.write x.2
  read bs := (c.read bs).bind fun r => (d.read r.2).map fun q => ((r.1,q.1),q.2)
  Fits x := c.Fits x.1 ∧ d.Fits x.2
  read_write {x} h rest := by
    rw [List.append_assoc,c.read_write h.1,Option.bind_some,d.read_write h.2]
    rfl
  exact {bs rest x} h := by
    obtain ⟨⟨a,after⟩,hread,hx⟩ := Option.bind_eq_some_iff.mp h
    obtain ⟨⟨b,behind⟩,hnext,hx⟩ := Option.map_eq_some_iff.mp hx
    obtain ⟨rfl,rfl⟩ := Prod.mk.inj hx
    obtain ⟨hbs,ha⟩ := c.exact hread
    obtain ⟨hafter,hb⟩ : after = d.write b ++ behind ∧ d.Fits b := d.exact hnext
    exact ⟨by rw [hbs,hafter,List.append_assoc],ha,hb⟩

def readTimes (c : Codec β α) : ℕ → List β → Option (List α × List β)
  | 0, bs => some ([],bs)
  | n + 1, bs => (c.read bs).bind fun r => (readTimes c n r.2).map fun q => (r.1 :: q.1,q.2)

theorem readTimes_write (c : Codec β α) {as : List α} (h : ∀ a ∈ as, c.Fits a) (rest : List β) :
    c.readTimes as.length (as.flatMap c.write ++ rest) = some (as,rest) := by
  induction as with
  | nil => rfl
  | cons a as ih =>
    obtain ⟨ha,has⟩ := List.forall_mem_cons.mp h
    rw [List.length_cons,readTimes,List.flatMap_cons,List.append_assoc,c.read_write ha,Option.bind_some,ih has]
    rfl

theorem readTimes_exact (c : Codec β α) {n : ℕ} {bs rest : List β} {as : List α} (h : c.readTimes n bs = some (as,rest)) :
    bs = as.flatMap c.write ++ rest ∧ as.length = n ∧ ∀ a ∈ as, c.Fits a := by
  induction n generalizing bs as with
  | zero =>
    obtain ⟨rfl,rfl⟩ := Prod.mk.inj (Option.some.inj h)
    exact ⟨rfl,rfl,nofun⟩
  | succ n ih =>
    obtain ⟨⟨a,after⟩,hread,has⟩ := Option.bind_eq_some_iff.mp h
    obtain ⟨⟨others,behind⟩,hothers,has⟩ := Option.map_eq_some_iff.mp has
    obtain ⟨rfl,rfl⟩ := Prod.mk.inj has
    obtain ⟨hbs,ha⟩ := c.exact hread
    obtain ⟨hafter,hlength,hall⟩ := ih hothers
    refine ⟨?_,congrArg (· + 1) hlength,List.forall_mem_cons.mpr ⟨ha,hall⟩⟩
    rw [List.flatMap_cons,List.append_assoc,← hafter]
    exact hbs

/-- Items of some length each take their number of it. -/
theorem readTimes_length_le (c : Codec β α) {k n : ℕ} (hk : ∀ a, k ≤ (c.write a).length) {bs rest : List β} {as : List α}
    (h : c.readTimes n bs = some (as,rest)) : n * k ≤ bs.length := by
  obtain ⟨rfl,rfl,-⟩ := c.readTimes_exact h
  rw [List.length_append]
  refine Nat.le_add_right_of_le ?_
  clear h
  induction as with
  | nil => exact Nat.le_of_eq (Nat.zero_mul k)
  | cons a as ih =>
    rw [List.length_cons,List.flatMap_cons,List.length_append,Nat.succ_mul,Nat.add_comm]
    exact Nat.add_le_add (hk a) ih

/-- So many of them. -/
def times (c : Codec β α) (n : ℕ) : Codec β (List α) where
  write as := as.flatMap c.write
  read := c.readTimes n
  Fits as := as.length = n ∧ ∀ a ∈ as, c.Fits a
  read_write {as} h rest := by
    obtain ⟨rfl,hall⟩ := h
    exact c.readTimes_write hall rest
  exact h := c.readTimes_exact h

/-- As many elements as are counted before them. -/
def counted (count : Codec β ℕ) : Codec β (List β) := count.chain List.length take fun _ _ h => h

/-- A list of items behind the count of them. -/
def listed (count : Codec β ℕ) (c : Codec β α) : Codec β (List α) := count.chain List.length c.times fun _ _ h => h.1

section Bind
variable {δ : Type*} {bs : List β}

theorem bind_convert {c : Codec β α} {f : α → γ} {g : γ → α} {hfg : ∀ x, f (g x) = x} {hgf : ∀ a, c.Fits a → g (f a) = a}
    (k : γ × List β → Option δ) : ((c.convert f g hfg hgf).read bs).bind k = (c.read bs).bind fun r => k (f r.1,r.2) :=
  Option.bind_map

theorem bind_chain {c : Codec β α} {head : γ → α} {d : α → Codec β γ} {hd : ∀ a x, (d a).Fits x → head x = a}
    (k : γ × List β → Option δ) : ((c.chain head d hd).read bs).bind k = (c.read bs).bind fun r => ((d r.1).read r.2).bind k :=
  Option.bind_assoc _ _ _

theorem bind_pair {c : Codec β α} {d : Codec β γ} (k : (α × γ) × List β → Option δ) :
    ((c.pair d).read bs).bind k = (c.read bs).bind fun r => (d.read r.2).bind fun q => k ((r.1,q.1),q.2) := by
  refine (Option.bind_assoc _ _ _).trans ?_
  congr 1
  funext r
  exact Option.bind_map

theorem bind_listed {count : Codec β ℕ} {c : Codec β α} (k : List α × List β → Option δ) :
    ((count.listed c).read bs).bind k = (count.read bs).bind fun r => (c.readTimes r.1 r.2).bind k := bind_chain k

end Bind

section Whole
variable {c : Codec β α} {a : α} {bs : List β}

/-- What is read to the end. -/
def Accepts (c : Codec β α) (bs : List β) (a : α) : Prop := c.read bs = some (a,[])

theorem accepts_iff : c.Accepts bs a ↔ bs = c.write a ∧ c.Fits a := by
  constructor
  · intro h
    obtain ⟨hbs,ha⟩ := c.exact h
    exact ⟨hbs.trans (List.append_nil _),ha⟩
  · rintro ⟨rfl,ha⟩
    have hread := c.read_write ha []
    rwa [List.append_nil] at hread

/-- Of two texts read to the end, neither begins the other. -/
theorem Accepts.eq_of_prefix {a' : α} {bs' : List β} (h : c.Accepts bs a) (h' : c.Accepts bs' a') (hpre : bs <+: bs') : bs = bs' := by
  obtain ⟨more,rfl⟩ := hpre
  obtain ⟨rfl,ha⟩ := accepts_iff.mp h
  have hread := (c.read_write ha more).symm.trans h'
  obtain ⟨-,rfl⟩ := Prod.mk.inj (Option.some.inj hread)
  exact (List.append_nil _).symm

end Whole

section Words

/-- The bytes of a number, the lowest first. -/
def littleEndian : ℕ → ℕ → List UInt8
  | 0, _ => []
  | w + 1, n => UInt8.ofNat n :: littleEndian w (n / 256)

def ofLittleEndian : List UInt8 → ℕ
  | [] => 0
  | b :: bs => b.toNat + 256 * ofLittleEndian bs

@[simp] theorem length_littleEndian (w n : ℕ) : (littleEndian w n).length = w := by
  induction w generalizing n with
  | zero => rfl
  | succ w ih => rw [littleEndian,List.length_cons,ih]

theorem ofLittleEndian_littleEndian {w n : ℕ} (h : n < 256 ^ w) : ofLittleEndian (littleEndian w n) = n := by
  induction w generalizing n with
  | zero => exact (Nat.lt_one_iff.mp h).symm
  | succ w ih =>
    have hlt : n / 256 < 256 ^ w := Nat.div_lt_of_lt_mul (by rwa [Nat.pow_succ,Nat.mul_comm] at h)
    rw [littleEndian,ofLittleEndian,ih hlt,UInt8.toNat_ofNat']
    exact Nat.mod_add_div n 256

theorem littleEndian_ofLittleEndian (bs : List UInt8) : littleEndian bs.length (ofLittleEndian bs) = bs := by
  induction bs with
  | nil => rfl
  | cons b bs ih =>
    have hb := b.toNat_lt
    have hdiv : (b.toNat + 256 * ofLittleEndian bs) / 256 = ofLittleEndian bs := by omega
    have hhead : UInt8.ofNat (b.toNat + 256 * ofLittleEndian bs) = b := by
      apply UInt8.toNat_inj.mp
      rw [UInt8.toNat_ofNat']
      omega
    rw [List.length_cons,ofLittleEndian,littleEndian,hdiv,ih,hhead]

theorem ofLittleEndian_lt (bs : List UInt8) : ofLittleEndian bs < 256 ^ bs.length := by
  induction bs with
  | nil => exact Nat.one_pos
  | cons b bs ih =>
    have hb := b.toNat_lt
    rw [ofLittleEndian,List.length_cons,Nat.pow_succ]
    omega

/-- A number of so many bytes. -/
def word (w : ℕ) : Codec UInt8 ℕ where
  write := littleEndian w
  read bs := if w ≤ bs.length then some (ofLittleEndian (bs.take w),bs.drop w) else none
  Fits n := n < 256 ^ w
  read_write {n} h rest := by
    have hle : w ≤ (littleEndian w n ++ rest).length := by
      rw [List.length_append,length_littleEndian]
      exact Nat.le_add_right _ _
    have htake : (littleEndian w n ++ rest).take w = littleEndian w n := List.take_left' (length_littleEndian w n)
    have hdrop : (littleEndian w n ++ rest).drop w = rest := List.drop_left' (length_littleEndian w n)
    rw [if_pos hle,htake,hdrop,ofLittleEndian_littleEndian h]
  exact {bs rest n} h := by
    split at h
    · rename_i hle
      obtain ⟨rfl,rfl⟩ := Prod.mk.inj (Option.some.inj h)
      have hlength : (bs.take w).length = w := List.length_take_of_le hle
      have hback := littleEndian_ofLittleEndian (bs.take w)
      have hlt := ofLittleEndian_lt (bs.take w)
      rw [hlength] at hback hlt
      exact ⟨by rw [hback,List.take_append_drop],hlt⟩
    · cases h

end Words

section Refine
variable {β α γ : Type*}

/-- What is read, where the other type has it. -/
def refine (c : Codec β α) (f : α → Option γ) (g : γ → α) (hfg : ∀ x, f (g x) = some x) (hgf : ∀ {a x}, f a = some x → g x = a) :
    Codec β γ where
  write x := c.write (g x)
  read bs := (c.read bs).bind fun r => (f r.1).map fun x => (x,r.2)
  Fits x := c.Fits (g x)
  read_write {x} h rest := by
    rw [c.read_write h,Option.bind_some,hfg]
    rfl
  exact {bs rest x} h := by
    obtain ⟨⟨a,after⟩,hread,hx⟩ := Option.bind_eq_some_iff.mp h
    obtain ⟨y,hy,hx⟩ := Option.map_eq_some_iff.mp hx
    obtain ⟨rfl,rfl⟩ := Prod.mk.inj hx
    obtain ⟨hbs,ha⟩ := c.exact hread
    rw [hgf hy]
    exact ⟨hbs,ha⟩

/-- Items one behind the other as long as there is something left, `fuel` of them at most. -/
def readAll (c : Codec β α) : ℕ → List β → Option (List α)
  | _, [] => some []
  | 0, _ :: _ => none
  | fuel + 1, b :: bs => (c.read (b :: bs)).bind fun r => (readAll c fuel r.2).map (r.1 :: ·)

/-- Where each item takes something, only of no items nothing is written, -/
theorem eq_nil_of_flatMap_write {c : Codec β α} (hpos : ∀ a, c.write a ≠ []) {as : List α} (h : as.flatMap c.write = []) : as = [] := by
  cases as with
  | nil => rfl
  | cons a as => exact absurd (List.append_eq_nil_iff.mp h).1 (hpos a)

theorem readAll_nil {c : Codec β α} (hpos : ∀ a, c.write a ≠ []) (fuel : ℕ) {as : List α} :
    c.readAll fuel [] = some as ↔ [] = as.flatMap c.write ∧ ∀ a ∈ as, c.Fits a := by
  rw [readAll,Option.some_inj]
  constructor
  · rintro rfl
    exact ⟨rfl,nofun⟩
  · rintro ⟨hnil,-⟩
    exact (eq_nil_of_flatMap_write hpos hnil.symm).symm

/-- and the length of the text is fuel enough. -/
theorem readAll_eq_some_iff {c : Codec β α} (hpos : ∀ a, c.write a ≠ []) {fuel : ℕ} {bs : List β} (hfuel : bs.length ≤ fuel)
    {as : List α} : c.readAll fuel bs = some as ↔ bs = as.flatMap c.write ∧ ∀ a ∈ as, c.Fits a := by
  induction fuel generalizing bs as with
  | zero =>
    obtain rfl := List.eq_nil_of_length_eq_zero (Nat.le_zero.mp hfuel)
    exact readAll_nil hpos 0
  | succ fuel ih =>
    cases bs with
    | nil => exact readAll_nil hpos (fuel + 1)
    | cons b bs =>
      have hshort {a : α} {after : List β} (h : b :: bs = c.write a ++ after) : after.length ≤ fuel := by
        have hlength := congrArg List.length h
        have hwrite := List.length_pos_iff.mpr (hpos a)
        rw [List.length_append] at hlength
        omega
      rw [readAll,Option.bind_eq_some_iff]
      constructor
      · rintro ⟨⟨a,after⟩,hread,hrest⟩
        obtain ⟨others,hothers,rfl⟩ := Option.map_eq_some_iff.mp hrest
        obtain ⟨hbs,ha⟩ := c.exact hread
        obtain ⟨hafter,hall⟩ := (ih (hshort hbs)).mp hothers
        rw [List.flatMap_cons,← hafter]
        exact ⟨hbs,List.forall_mem_cons.mpr ⟨ha,hall⟩⟩
      · rintro ⟨hbs,hall⟩
        cases as with
        | nil => cases hbs
        | cons a as =>
          obtain ⟨ha,has⟩ := List.forall_mem_cons.mp hall
          refine ⟨(a,as.flatMap c.write),?_,Option.map_eq_some_iff.mpr ⟨as,(ih (hshort hbs)).mpr ⟨rfl,has⟩,rfl⟩⟩
          rw [hbs]
          exact c.read_write ha _

end Refine

section Texts

def utf8 (s : String) : List UInt8 := s.toUTF8.data.toList

def ofUtf8 (bs : List UInt8) : Option String := String.fromUTF8? ⟨bs.toArray⟩

theorem ofUtf8_utf8 (s : String) : ofUtf8 (utf8 s) = some s := dif_pos s.isValidUTF8

theorem utf8_of_ofUtf8 {bs : List UInt8} {s : String} (h : ofUtf8 bs = some s) : utf8 s = bs := by
  unfold ofUtf8 String.fromUTF8? at h
  split at h
  · obtain rfl := Option.some.inj h
    rfl
  · cases h

/-- The bytes of a number, the highest first. -/
def bigEndian (w n : ℕ) : List UInt8 := (littleEndian w n).reverse

def ofBigEndian (bs : List UInt8) : ℕ := ofLittleEndian bs.reverse

@[simp] theorem length_bigEndian (w n : ℕ) : (bigEndian w n).length = w := by
  rw [bigEndian,List.length_reverse,length_littleEndian]

/-- A number of so many bytes, the highest first. -/
def bigWord (w : ℕ) : Codec UInt8 ℕ where
  write := bigEndian w
  read bs := if w ≤ bs.length then some (ofBigEndian (bs.take w),bs.drop w) else none
  Fits n := n < 256 ^ w
  read_write {n} h rest := by
    have hle : w ≤ (bigEndian w n ++ rest).length := by
      rw [List.length_append,length_bigEndian]
      exact Nat.le_add_right _ _
    have htake : (bigEndian w n ++ rest).take w = bigEndian w n := List.take_left' (length_bigEndian w n)
    have hdrop : (bigEndian w n ++ rest).drop w = rest := List.drop_left' (length_bigEndian w n)
    rw [if_pos hle,htake,hdrop,ofBigEndian,bigEndian,List.reverse_reverse,ofLittleEndian_littleEndian h]
  exact {bs rest n} h := by
    split at h
    · rename_i hle
      obtain ⟨rfl,rfl⟩ := Prod.mk.inj (Option.some.inj h)
      have hlength : (bs.take w).reverse.length = w := by rw [List.length_reverse,List.length_take_of_le hle]
      have hback := littleEndian_ofLittleEndian (bs.take w).reverse
      have hlt := ofLittleEndian_lt (bs.take w).reverse
      rw [hlength] at hback hlt
      exact ⟨by rw [bigEndian,ofBigEndian,hback,List.reverse_reverse,List.take_append_drop],hlt⟩
    · cases h

end Texts

end Codec
end Dwara.Lib

/-! Base-128 numbers of at most 64 bits, and the words of fixed width beside them. -/

namespace Dwara.Lib.Varint

abbrev Bytes := List UInt8

/-- The groups of seven bits from the lowest, at most `n` of them before the last. -/
def writeFrom : ℕ → ℕ → Bytes
  | 0, value => [UInt8.ofNat value]
  | n + 1, value => if 128 ≤ value then UInt8.ofNat (value % 128 + 128) :: writeFrom n (value / 128) else [UInt8.ofNat value]

/-- Sixty-four bits are ten groups. -/
def write (value : ℕ) : Bytes := writeFrom 9 value

/-- The value, and what is behind it. -/
def readFrom (shift result : ℕ) : Bytes → Option (ℕ × Bytes)
  | [] => none
  | byte :: bytes =>
    let result := result ||| ((byte.toNat % 128) <<< shift) % 2 ^ 64
    if byte.toNat < 128 then some (result,bytes)
    else if 64 ≤ shift + 7 then none
    else readFrom (shift + 7) result bytes

def read (bytes : Bytes) : Option (ℕ × Bytes) := readFrom 0 0 bytes

/-- The little-endian value of some bytes. -/
def ofLe : Bytes → ℕ
  | [] => 0
  | byte :: bytes => byte.toNat + 256 * ofLe bytes

theorem or_shiftLeft {shift result group : ℕ} (hresult : result < 2 ^ shift) (hfit : group * 2 ^ shift < 2 ^ 64) :
    result ||| (group <<< shift) % 2 ^ 64 = result + group * 2 ^ shift := by
  rw [Nat.shiftLeft_eq,Nat.mod_eq_of_lt hfit,← Nat.shiftLeft_eq,Nat.or_comm,← Nat.shiftLeft_add_eq_or_of_lt hresult,Nat.add_comm]

theorem readFrom_last {shift result value : ℕ} (hresult : result < 2 ^ shift) (hfit : value * 2 ^ shift < 2 ^ 64)
    (hvalue : value < 128) (rest : Bytes) :
    readFrom shift result (UInt8.ofNat value :: rest) = some (result + value * 2 ^ shift,rest) := by
  have htoNat : (UInt8.ofNat value).toNat = value := by
    rw [UInt8.toNat_ofNat']
    omega
  simp only [readFrom,htoNat,Nat.mod_eq_of_lt hvalue,or_shiftLeft hresult hfit,if_pos hvalue]

/-- What was written is read back over the groups before it. -/
theorem readFrom_writeFrom {n shift result value : ℕ} (hresult : result < 2 ^ shift) (hvalue : value < 128 ^ (n + 1))
    (hfit : value * 2 ^ shift < 2 ^ 64) (rest : Bytes) :
    readFrom shift result (writeFrom n value ++ rest) = some (result + value * 2 ^ shift,rest) := by
  induction n generalizing shift result value with
  | zero => exact readFrom_last hresult hfit (by simpa using hvalue) rest
  | succ n ih =>
    rw [writeFrom]
    split
    · rename_i hlarge
      have htoNat : (UInt8.ofNat (value % 128 + 128)).toNat = value % 128 + 128 := by
        rw [UInt8.toNat_ofNat']
        omega
      have hpow : 2 ^ (shift + 7) = 128 * 2 ^ shift := by rw [Nat.pow_add,Nat.mul_comm]
      have hshift : ¬ 64 ≤ shift + 7 := by
        intro h
        have hle : 2 ^ 64 ≤ 2 ^ (shift + 7) := Nat.pow_le_pow_right Nat.two_pos h
        have hmul : 128 * 2 ^ shift ≤ value * 2 ^ shift := Nat.mul_le_mul_right _ hlarge
        omega
      have hlow : value % 128 * 2 ^ shift < 2 ^ 64 :=
        Nat.lt_of_le_of_lt (Nat.mul_le_mul_right _ (Nat.mod_le value 128)) hfit
      have hgroup : value % 128 * 2 ^ shift + value / 128 * 2 ^ (shift + 7) = value * 2 ^ shift := by
        rw [hpow,← Nat.mul_assoc,← Nat.add_mul,Nat.mul_comm (value / 128),Nat.mod_add_div]
      have hnext : result + value % 128 * 2 ^ shift < 2 ^ (shift + 7) := by
        have hmod : value % 128 * 2 ^ shift ≤ 127 * 2 ^ shift := Nat.mul_le_mul_right _ (by omega)
        omega
      simp only [List.cons_append,readFrom,htoNat,if_neg hshift,show ¬ value % 128 + 128 < 128 by omega,if_false,
        Nat.add_mod_right,Nat.mod_mod]
      rw [or_shiftLeft hresult hlow,ih hnext ?_ (by omega)]
      · rw [Nat.add_assoc,hgroup]
      · rw [Nat.pow_succ] at hvalue
        exact Nat.div_lt_of_lt_mul (by omega)
    · rename_i hsmall
      exact readFrom_last hresult hfit (by omega) rest

/-- Every number of 64 bits is read back as written. -/
theorem read_write {value : ℕ} (hvalue : value < 2 ^ 64) (rest : Bytes) : read (write value ++ rest) = some (value,rest) := by
  have h : readFrom 0 0 (writeFrom 9 value ++ rest) = some (0 + value * 2 ^ 0,rest) :=
    readFrom_writeFrom (by decide) (Nat.lt_trans hvalue (by decide)) (by simpa using hvalue) rest
  simpa [read,write] using h

/-- A number takes some bytes, and what is behind it is the rest. -/
theorem readFrom_eq_append {shift result value : ℕ} {bytes rest : Bytes} (h : readFrom shift result bytes = some (value,rest)) :
    ∃ used, used ≠ [] ∧ bytes = used ++ rest := by
  induction bytes generalizing shift result with
  | nil => cases h
  | cons byte bytes ih =>
    simp only [readFrom] at h
    split_ifs at h
    · obtain ⟨-,rfl⟩ := Prod.mk.inj (Option.some.inj h)
      exact ⟨[byte],List.cons_ne_nil _ _,rfl⟩
    · obtain ⟨used,-,hused⟩ := ih h
      exact ⟨byte :: used,List.cons_ne_nil _ _,by rw [hused]; rfl⟩

theorem read_eq_append {value : ℕ} {bytes rest : Bytes} (h : read bytes = some (value,rest)) : ∃ used, used ≠ [] ∧ bytes = used ++ rest :=
  readFrom_eq_append h

theorem write_ne_nil (value : ℕ) : write value ≠ [] := by
  rw [write,writeFrom]
  split <;> exact List.cons_ne_nil _ _

end Dwara.Lib.Varint
