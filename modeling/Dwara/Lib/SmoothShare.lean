import Mathlib.Algebra.BigOperators.Group.Finset.Piecewise
import Mathlib.Algebra.Order.BigOperators.Group.Finset
import Mathlib.Algebra.Order.Ring.Int
import Mathlib.Tactic.Ring

/-! Sharing turns in proportion to weights: everyone gains their weight, the one with the
most takes the turn and pays the total. -/

namespace Dwara.Lib.SmoothShare
open Finset

variable {ι : Type*} [DecidableEq ι] (s : Finset ι) (w : ι → ℤ)

def total : ℤ := ∑ i ∈ s, w i

/-- The balances after `i` takes the turn; those outside of `s` do not take part. -/
def turn (c : ι → ℤ) (i : ι) : ι → ℤ := fun j => if j ∈ s then c j + w j - (if j = i then total s w else 0) else c j

/-- Nobody would have more than `i` at this turn. -/
def Heaviest (c : ι → ℤ) (i : ι) : Prop := i ∈ s ∧ ∀ j ∈ s, c j + w j ≤ c i + w i

/-- Every turn goes to one who has the most. -/
def Fair : (ι → ℤ) → List ι → Prop
  | _, [] => True
  | c, i :: is => Heaviest s w c i ∧ Fair (turn s w c i) is

def after (c : ι → ℤ) (is : List ι) : ι → ℤ := is.foldl (turn s w) c

/-- The balances cancel, and nobody is behind by a whole round. -/
structure Balanced (c : ι → ℤ) : Prop where
  sum_eq_zero : ∑ i ∈ s, c i = 0
  above : ∀ i ∈ s, -total s w < c i

variable {s w} {c : ι → ℤ}

theorem turn_mem {i j : ι} (hj : j ∈ s) : turn s w c i j = c j + w j - if j = i then total s w else 0 := if_pos hj

theorem turn_not_mem {i j : ι} (hj : j ∉ s) : turn s w c i j = c j := if_neg hj

theorem after_not_mem {j : ι} (hj : j ∉ s) (is : List ι) : after s w c is j = c j := by
  induction is generalizing c with
  | nil => rfl
  | cons i is ih => exact ih.trans (turn_not_mem hj)

omit [DecidableEq ι] in
theorem balanced_zero (hne : s.Nonempty) (hw : ∀ i ∈ s, 0 < w i) (hzero : ∀ i ∈ s, c i = 0) : Balanced s w c := by
  have hpos : 0 < total s w := sum_pos hw hne
  exact ⟨sum_eq_zero hzero,fun i hi => by rw [hzero i hi]; omega⟩

omit [DecidableEq ι] in
/-- With a gain for everyone somebody has something. -/
theorem Balanced.exists_pos (hb : Balanced s w c) (hne : s.Nonempty) (hw : ∀ i ∈ s, 0 < w i) : ∃ i ∈ s, 0 < c i + w i := by
  by_contra hnone
  have hsum : ∑ j ∈ s, (c j + w j) = total s w := by
    rw [sum_add_distrib,hb.sum_eq_zero,Int.zero_add,total]
  have hle : ∑ j ∈ s, (c j + w j) ≤ 0 := sum_nonpos fun j hj => not_lt.mp fun h => hnone ⟨j,hj,h⟩
  have hpos : 0 < total s w := sum_pos hw hne
  omega

omit [DecidableEq ι] in
theorem Balanced.heaviest_pos (hb : Balanced s w c) (hw : ∀ i ∈ s, 0 < w i) {i : ι} (hi : Heaviest s w c i) : 0 < c i + w i := by
  obtain ⟨j,hj,hpos⟩ := hb.exists_pos ⟨i,hi.1⟩ hw
  exact hpos.trans_le (hi.2 j hj)

/-- A turn keeps the balances balanced. -/
theorem Balanced.turn (hb : Balanced s w c) (hw : ∀ i ∈ s, 0 < w i) {i : ι} (hi : Heaviest s w c i) :
    Balanced s w (SmoothShare.turn s w c i) where
  sum_eq_zero := by
    have hsum : ∑ j ∈ s, SmoothShare.turn s w c i j = ∑ j ∈ s, (c j + w j - if j = i then total s w else 0) :=
      sum_congr rfl fun j hj => turn_mem hj
    rw [hsum,sum_sub_distrib,sum_add_distrib,hb.sum_eq_zero,sum_ite_eq' s i,if_pos hi.1,Int.zero_add,total]
    exact Int.sub_self _
  above := by
    intro j hj
    rw [turn_mem hj]
    split
    · rename_i hji
      have hpos := hb.heaviest_pos hw hi
      rw [hji]
      omega
    · have habove := hb.above j hj
      have hgain := hw j hj
      omega

theorem Balanced.after (hb : Balanced s w c) (hw : ∀ i ∈ s, 0 < w i) {is : List ι} (hf : Fair s w c is) :
    Balanced s w (SmoothShare.after s w c is) := by
  induction is generalizing c with
  | nil => exact hb
  | cons i is ih => exact ih (hb.turn hw hf.1) hf.2

/-- What everyone gained, less what they paid for their turns. -/
theorem after_eq {j : ι} (hj : j ∈ s) (is : List ι) :
    after s w c is j = c j + is.length * w j - is.count j * total s w := by
  induction is generalizing c with
  | nil => simp [after]
  | cons i is ih =>
    have hstep : after s w c (i :: is) j = after s w (turn s w c i) is j := rfl
    rw [hstep,ih,turn_mem hj,List.count_cons,List.length_cons]
    by_cases h : j = i
    · subst h
      simp only [if_true,beq_self_eq_true]
      push_cast
      ring
    · have h' : ¬ i = j := fun e => h e.symm
      simp only [if_neg h,beq_iff_eq,if_neg h']
      push_cast
      ring

/-- A round of as many turns as the total weight gives everyone their weight in turns and
brings the balances back. -/
theorem full_round (hw : ∀ i ∈ s, 0 < w i) (hzero : ∀ i ∈ s, c i = 0) (hne : s.Nonempty) {is : List ι} (hf : Fair s w c is)
    (hlen : (is.length : ℤ) = total s w) : ∀ j ∈ s, (is.count j : ℤ) = w j ∧ after s w c is j = 0 := by
  have hpos : 0 < total s w := sum_pos hw hne
  have hend := (balanced_zero hne hw hzero).after hw hf
  have hmultiple : ∀ j ∈ s, after s w c is j = (w j - is.count j) * total s w := by
    intro j hj
    rw [after_eq hj,hzero j hj,hlen]
    ring
  -- balances are multiples of the total, and more than minus the total
  have hnonneg : ∀ j ∈ s, 0 ≤ after s w c is j := by
    intro j hj
    have habove := hend.above j hj
    rw [hmultiple j hj] at habove ⊢
    have hcoeff : 0 ≤ w j - is.count j := by
      by_contra hneg
      have hle : w j - is.count j ≤ -1 := by omega
      have hmul := Int.mul_le_mul_of_nonneg_right hle hpos.le
      omega
    exact Int.mul_nonneg hcoeff hpos.le
  have hback := (sum_eq_zero_iff_of_nonneg hnonneg).mp hend.sum_eq_zero
  intro j hj
  refine ⟨?_,hback j hj⟩
  have hprod := hback j hj
  rw [hmultiple j hj] at hprod
  rcases Int.mul_eq_zero.mp hprod with h | h
  · omega
  · omega

end Dwara.Lib.SmoothShare
