import Mathlib.Algebra.Group.Nat.Defs
import Mathlib.Data.Nat.Notation
import Mathlib.Data.String.Basic

/-! Decimals filled up with zeros to a fixed width. As text they are ordered as the
numbers are. -/

namespace Dwara.Lib.Decimal
open Nat (ofDigitChars)

/-- The digits of a number, filled up to `width`. -/
def padded (width n : ℕ) : List Char := List.replicate (width - (Nat.toDigits 10 n).length) '0' ++ Nat.toDigits 10 n

private theorem ofDigitChars_lt_of_lt {cs ds : List Char} (hlen : cs.length = ds.length) (hc : ∀ c ∈ cs, c.isDigit)
    (hd : ∀ d ∈ ds, d.isDigit) {a b : ℕ} (h : a < b) : ofDigitChars 10 cs a < ofDigitChars 10 ds b := by
  induction cs generalizing ds a b with
  | nil =>
    obtain rfl := List.length_eq_zero_iff.mp hlen.symm
    rwa [Nat.ofDigitChars_nil,Nat.ofDigitChars_nil]
  | cons c cs ih =>
    cases ds with
    | nil => cases hlen
    | cons d ds =>
      have hdigit : c.toNat ≤ '9'.toNat := (Char.isDigit_iff_toNat.mp (hc c List.mem_cons_self)).2
      have hnine : '9'.toNat - '0'.toNat = 9 := rfl
      rw [Nat.ofDigitChars_cons,Nat.ofDigitChars_cons]
      apply ih (Nat.succ.inj hlen) (fun x hx => hc x (List.mem_cons_of_mem c hx)) (fun x hx => hd x (List.mem_cons_of_mem d hx))
      omega

/-- Digits that come first as text make the smaller number. -/
theorem ofDigitChars_lt {cs ds : List Char} (hlen : cs.length = ds.length) (hc : ∀ c ∈ cs, c.isDigit)
    (hd : ∀ d ∈ ds, d.isDigit) (h : cs < ds) (a : ℕ) : ofDigitChars 10 cs a < ofDigitChars 10 ds a := by
  induction cs generalizing ds a with
  | nil =>
    obtain rfl := List.length_eq_zero_iff.mp hlen.symm
    exact absurd h (lt_irrefl _)
  | cons c cs ih =>
    cases ds with
    | nil => cases hlen
    | cons d ds =>
      have hcs : ∀ x ∈ cs, x.isDigit := fun x hx => hc x (List.mem_cons_of_mem c hx)
      have hds : ∀ x ∈ ds, x.isDigit := fun x hx => hd x (List.mem_cons_of_mem d hx)
      rw [Nat.ofDigitChars_cons,Nat.ofDigitChars_cons]
      rcases List.cons_lt_cons_iff.mp h with hlt | ⟨rfl,hrest⟩
      · apply ofDigitChars_lt_of_lt (Nat.succ.inj hlen) hcs hds
        have hzero : '0'.toNat ≤ c.toNat := (Char.isDigit_iff_toNat.mp (hc c List.mem_cons_self)).1
        have hlt' : c.toNat < d.toNat := hlt
        omega
      · exact ih (Nat.succ.inj hlen) hcs hds hrest (10 * a + (c.toNat - '0'.toNat))

section Padded
variable {width n : ℕ}

theorem isDigit_of_mem_padded {c : Char} (h : c ∈ padded width n) : c.isDigit := by
  rcases List.mem_append.mp h with h | h
  · rw [List.eq_of_mem_replicate h]
    rfl
  · exact Nat.isDigit_of_mem_toDigits (by decide) (by decide) h

theorem length_padded (hwidth : 0 < width) (h : n < 10 ^ width) : (padded width n).length = width := by
  have hle := (Nat.length_toDigits_le_iff (b := 10) (by decide) hwidth).mpr h
  rw [padded,List.length_append,List.length_replicate]
  omega

theorem ofDigitChars_padded : ofDigitChars 10 (padded width n) 0 = n := by
  rw [padded,Nat.ofDigitChars_append,Nat.ofDigitChars_replicate_zero,Nat.mul_zero,Nat.ofDigitChars_ten_toDigits]

/-- The smaller number comes first as text. -/
theorem padded_lt {m : ℕ} (hwidth : 0 < width) (hmn : m < n) (hn : n < 10 ^ width) : padded width m < padded width n := by
  have hlen : (padded width n).length = (padded width m).length := by
    rw [length_padded hwidth hn,length_padded hwidth (Nat.lt_trans hmn hn)]
  rcases lt_trichotomy (padded width m) (padded width n) with h | h | h
  · exact h
  · have hvalue := congrArg (ofDigitChars 10 · 0) h
    simp only [ofDigitChars_padded] at hvalue
    omega
  · have hvalue := ofDigitChars_lt hlen (fun c => isDigit_of_mem_padded) (fun c => isDigit_of_mem_padded) h 0
    rw [ofDigitChars_padded,ofDigitChars_padded] at hvalue
    omega

end Padded

theorem ofDigitChars_lt_pow {cs : List Char} (hc : ∀ c ∈ cs, c.isDigit) {a b : ℕ} (h : a < b) :
    ofDigitChars 10 cs a < b * 10 ^ cs.length := by
  induction cs generalizing a b with
  | nil => simpa using h
  | cons c cs ih =>
    have hdigit : c.toNat ≤ '9'.toNat := (Char.isDigit_iff_toNat.mp (hc c List.mem_cons_self)).2
    have hnine : '9'.toNat - '0'.toNat = 9 := rfl
    have hnext := ih (fun x hx => hc x (List.mem_cons_of_mem c hx)) (show 10 * a + (c.toNat - '0'.toNat) < b * 10 by omega)
    rw [Nat.ofDigitChars_cons,List.length_cons,Nat.pow_succ',← Nat.mul_assoc]
    exact hnext

/-- Digits are their value, filled up to their number. -/
theorem padded_ofDigitChars {cs : List Char} (hne : cs ≠ []) (hc : ∀ c ∈ cs, c.isDigit) :
    padded cs.length (ofDigitChars 10 cs 0) = cs := by
  have hpos : 0 < cs.length := List.length_pos_iff.mpr hne
  have hlt : ofDigitChars 10 cs 0 < 10 ^ cs.length := by
    simpa using ofDigitChars_lt_pow hc Nat.one_pos
  have hlen := length_padded hpos hlt
  have hvalue : ofDigitChars 10 (padded cs.length (ofDigitChars 10 cs 0)) 0 = ofDigitChars 10 cs 0 := ofDigitChars_padded
  rcases lt_trichotomy (padded cs.length (ofDigitChars 10 cs 0)) cs with h | h | h
  · exact absurd hvalue (Nat.ne_of_lt (ofDigitChars_lt hlen (fun c => isDigit_of_mem_padded) hc h 0))
  · exact h
  · exact absurd hvalue.symm (Nat.ne_of_lt (ofDigitChars_lt hlen.symm hc (fun c => isDigit_of_mem_padded) h 0))

/-- Digits without a leading zero are the digits of their value. -/
theorem toDigits_ofDigitChars {cs : List Char} (hne : cs ≠ []) (hc : ∀ c ∈ cs, c.isDigit)
    (hzero : 1 < cs.length → cs.head? ≠ some '0') : Nat.toDigits 10 (ofDigitChars 10 cs 0) = cs := by
  have hpad := padded_ofDigitChars hne hc
  have hpos : 0 < cs.length := List.length_pos_iff.mpr hne
  have hdigits : 0 < (Nat.toDigits 10 (ofDigitChars 10 cs 0)).length := List.length_pos_iff.mpr (Nat.toDigits_ne_nil)
  rw [padded] at hpad
  rcases Nat.eq_zero_or_pos (cs.length - (Nat.toDigits 10 (ofDigitChars 10 cs 0)).length) with h | h
  · simpa [h] using hpad
  · refine absurd ?_ (hzero (by omega))
    obtain ⟨k,hk⟩ := Nat.exists_eq_add_of_lt h
    rw [← hpad,show cs.length - (Nat.toDigits 10 (ofDigitChars 10 cs 0)).length = k + 1 by omega]
    rfl

/-- Texts of one length are compared before what follows them. -/
theorem append_lt_append {cs ds : List Char} (hlen : cs.length = ds.length) (h : cs < ds) (es fs : List Char) :
    cs ++ es < ds ++ fs := by
  induction cs generalizing ds with
  | nil =>
    obtain rfl := List.length_eq_zero_iff.mp hlen.symm
    exact absurd h (lt_irrefl _)
  | cons c cs ih =>
    cases ds with
    | nil => cases hlen
    | cons d ds =>
      apply List.cons_lt_cons_iff.mpr
      rcases List.cons_lt_cons_iff.mp h with hlt | ⟨heq,hrest⟩
      · exact .inl hlt
      · exact .inr ⟨heq,ih (Nat.succ.inj hlen) hrest⟩

end Dwara.Lib.Decimal
