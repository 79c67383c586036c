import Mathlib.Algebra.Group.Nat.Defs
import Mathlib.Data.Nat.Basic
import Mathlib.Order.Lattice
import Mathlib.Data.BitVec
import Mathlib.Data.Fintype.EquivFin
import Mathlib.Algebra.GroupWithZero.Nat
import Mathlib.Data.Nat.Notation

/-! Arithmetic of fixed-width unsigned words on natural numbers. -/

namespace Dwara.Lib.Word

/-- The largest word of `bits` bits. -/
def top (bits : ℕ) : ℕ := 2 ^ bits - 1

/-- Addition that stops at the largest word. -/
def satAdd (bits a b : ℕ) : ℕ := min (a + b) (top bits)

end Dwara.Lib.Word

/-! Mixing steps on machine words that lose nothing: xor with a shift of itself, and
multiplication by an invertible constant. -/

namespace Dwara.Lib.WordMix
variable {w : ℕ}

private theorem eq_zero_of_eq_ushiftRight {d : BitVec w} {n : ℕ} (hn : 0 < n) (h : d = d >>> n) : d = 0#w := by
  have hk : ∀ k, d = d >>> (n * k) := by
    intro k
    induction k with
    | zero => simp
    | succ k ih =>
      rw [Nat.mul_succ,BitVec.shiftRight_add,← ih]
      exact h
  rw [hk w]
  exact BitVec.ushiftRight_eq_zero (Nat.le_mul_of_pos_left w hn)

private theorem eq_zero_of_eq_shiftLeft {d : BitVec w} {n : ℕ} (hn : 0 < n) (h : d = d <<< n) : d = 0#w := by
  have hk : ∀ k, d = d <<< (n * k) := by
    intro k
    induction k with
    | zero => simp
    | succ k ih =>
      rw [Nat.mul_succ,BitVec.shiftLeft_add,← ih]
      exact h
  rw [hk w]
  exact BitVec.shiftLeft_eq_zero (Nat.le_mul_of_pos_left w hn)

private theorem xor_eq_of_mix_eq {x y a b : BitVec w} (h : x ^^^ a = y ^^^ b) : x ^^^ y = a ^^^ b := by
  have h' : (x ^^^ y) ^^^ (a ^^^ b) = (x ^^^ a) ^^^ (y ^^^ b) := by ac_rfl
  rwa [h,BitVec.xor_self,BitVec.xor_eq_zero_iff] at h'

theorem xor_ushiftRight_injective {n : ℕ} (hn : 0 < n) : Function.Injective (fun x : BitVec w => x ^^^ (x >>> n)) := by
  intro x y h
  have hd := xor_eq_of_mix_eq h
  rw [← BitVec.ushiftRight_xor_distrib] at hd
  exact BitVec.xor_eq_zero_iff.mp (eq_zero_of_eq_ushiftRight hn hd)

theorem xor_shiftLeft_injective {n : ℕ} (hn : 0 < n) : Function.Injective (fun x : BitVec w => x ^^^ (x <<< n)) := by
  intro x y h
  have hd := xor_eq_of_mix_eq h
  rw [← BitVec.shiftLeft_xor_distrib] at hd
  exact BitVec.xor_eq_zero_iff.mp (eq_zero_of_eq_shiftLeft hn hd)

theorem mul_injective {c d : BitVec w} (h : c * d = 1#w) : Function.Injective (fun x : BitVec w => x * c) := by
  intro x y hxy
  have hmul := congrArg (· * d) hxy
  simpa only [BitVec.mul_assoc,h,BitVec.mul_one] using hmul

/-- A mixing step that loses nothing reaches every word. -/
theorem surjective_of_injective {f : BitVec w → BitVec w} (hf : Function.Injective f) : Function.Surjective f := by
  have : Finite (BitVec w) := Finite.of_equiv _ BitVec.equivFin.symm.toEquiv
  exact Finite.injective_iff_surjective.mp hf

end Dwara.Lib.WordMix

/-! Saturating arithmetic of 64-bit counters, and their decimal texts. -/

namespace Dwara.Lib.U64

def saturatingAdd (a b : UInt64) : UInt64 := if a.toNat + b.toNat < 2^64 then a + b else -1

/-- The number a text is in decimal, after an optional plus sign. -/
def parse (s : String) : Option UInt64 :=
  let digits := if s.toList.head? = some '+' then s.toList.tail else s.toList
  if digits = [] ∨ ¬ digits.all Char.isDigit then none
  else if Nat.ofDigitChars 10 digits 0 < UInt64.size then some (UInt64.ofNat (Nat.ofDigitChars 10 digits 0))
  else none

def saturatingSum (as : List UInt64) : UInt64 := as.foldl saturatingAdd 0

def saturatingSub (a b : UInt64) : UInt64 := if b ≤ a then a - b else 0

@[simp] theorem toNat_saturatingSub (a b : UInt64) : (saturatingSub a b).toNat = a.toNat - b.toNat := by
  rw [saturatingSub]
  split
  case isTrue hle => exact UInt64.toNat_sub_of_le a b hle
  case isFalse hlt =>
    rw [UInt64.not_le,UInt64.lt_iff_toNat_lt] at hlt
    rw [UInt64.toNat_zero]
    omega

theorem toNat_saturatingAdd (a b : UInt64) : (saturatingAdd a b).toNat = min (a.toNat + b.toNat) (2^64 - 1) := by
  rw [saturatingAdd]
  split
  case isTrue hlt =>
    rw [UInt64.toNat_add,Nat.mod_eq_of_lt hlt]
    omega
  case isFalse hge =>
    have htop : (-1 : UInt64).toNat = 2^64 - 1 := rfl
    rw [htop]
    omega

@[simp] theorem saturatingSum_nil : saturatingSum [] = 0 := rfl

theorem saturatingSum_concat (as : List UInt64) (a : UInt64) : saturatingSum (as ++ [a]) = saturatingAdd (saturatingSum as) a := by
  rw [saturatingSum,List.foldl_append]
  rfl

@[simp] theorem toNat_max (a b : UInt64) : (max a b).toNat = max a.toNat b.toNat := by
  rw [show max a b = if a ≤ b then b else a from rfl]
  split
  case isTrue hle => exact (Nat.max_eq_right (UInt64.le_iff_toNat_le.mp hle)).symm
  case isFalse hlt =>
    rw [UInt64.not_le,UInt64.lt_iff_toNat_lt] at hlt
    omega

end Dwara.Lib.U64

/-! Arithmetic that tells whether it went over the word. -/

namespace Dwara.Lib

/-- A result on words that wrap around, and whether an operation on the way to it did. -/
structure Overflowing (α : Type) where
  value : α
  wrapped : Bool
  deriving DecidableEq, Repr

namespace Overflowing
variable {α β : Type}

instance : Monad Overflowing where
  pure a := ⟨a,false⟩
  bind x f := ⟨(f x.value).value,x.wrapped || (f x.value).wrapped⟩

def add (a b : UInt64) : Overflowing UInt64 := ⟨a + b,2^64 ≤ a.toNat + b.toNat⟩

def mul (a b : UInt64) : Overflowing UInt64 := ⟨a * b,2^64 ≤ a.toNat * b.toNat⟩

@[simp] theorem wrapped_pure (a : α) : (pure a : Overflowing α).wrapped = false := rfl

@[simp] theorem value_pure (a : α) : (pure a : Overflowing α).value = a := rfl

@[simp] theorem value_bind (x : Overflowing α) (f : α → Overflowing β) : (x >>= f).value = (f x.value).value := rfl

@[simp] theorem wrapped_bind_eq_false_iff {x : Overflowing α} {f : α → Overflowing β} :
    (x >>= f).wrapped = false ↔ x.wrapped = false ∧ (f x.value).wrapped = false := Bool.or_eq_false_iff

@[simp] theorem wrapped_add_eq_false_iff {a b : UInt64} : (add a b).wrapped = false ↔ a.toNat + b.toNat < 2^64 := by
  simp [add]

@[simp] theorem wrapped_mul_eq_false_iff {a b : UInt64} : (mul a b).wrapped = false ↔ a.toNat * b.toNat < 2^64 := by
  simp [mul]

theorem toNat_add {a b : UInt64} (h : a.toNat + b.toNat < 2^64) : (add a b).value.toNat = a.toNat + b.toNat :=
  (UInt64.toNat_add a b).trans (Nat.mod_eq_of_lt h)

theorem toNat_mul {a b : UInt64} (h : a.toNat * b.toNat < 2^64) : (mul a b).value.toNat = a.toNat * b.toNat :=
  (UInt64.toNat_mul a b).trans (Nat.mod_eq_of_lt h)

end Overflowing
end Dwara.Lib
