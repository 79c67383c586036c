import Mathlib.Algebra.BigOperators.Group.List.Basic
import Mathlib.Algebra.Ring.Nat
import Mathlib.Algebra.Order.BigOperators.Group.Finset
import Mathlib.Order.Interval.Finset.Nat

/-! Numbers in ranges of given sizes, one behind the other, and how many change their range with the sizes. -/

namespace Dwara.Lib.Ranges

section Owner
variable {w : List ℕ} {i k : ℕ}

def size (w : List ℕ) (i : ℕ) : ℕ := w.getD i 0

/-- Where a range starts: behind those before it. -/
def start (w : List ℕ) (i : ℕ) : ℕ := (w.take i).sum

/-- The range that a number falls in. -/
def owner : List ℕ → ℕ → Option ℕ
  | [], _ => none
  | first :: w, k => if k < first then some 0 else (owner w (k - first)).map (· + 1)

theorem start_zero (w : List ℕ) : start w 0 = 0 := rfl

theorem start_cons (first : ℕ) (w : List ℕ) (i : ℕ) : start (first :: w) (i + 1) = first + start w i := by
  rw [start,List.take_succ_cons,List.sum_cons,start]

theorem start_length (w : List ℕ) : start w w.length = w.sum := by rw [start,List.take_length]

theorem start_succ (w : List ℕ) (i : ℕ) : start w (i + 1) = start w i + size w i := by
  rw [start,List.take_add_one,List.sum_append,start,size,List.getD_eq_getElem?_getD]
  cases w[i]? with
  | none => rfl
  | some n => rw [Option.toList_some,List.sum_singleton,Option.getD_some]

theorem start_eq_sum (w : List ℕ) (n : ℕ) : start w n = ∑ i ∈ Finset.range n, size w i := by
  induction n with
  | zero => rfl
  | succ n ih => rw [start_succ,ih,Finset.sum_range_succ]

theorem start_le_sum (w : List ℕ) (i : ℕ) : start w i ≤ w.sum := by
  have h := congrArg List.sum (List.take_append_drop i w)
  rw [List.sum_append] at h
  rw [start]
  omega

theorem owner_eq_some_iff : owner w k = some i ↔ i < w.length ∧ start w i ≤ k ∧ k < start w (i + 1) := by
  induction w generalizing k i with
  | nil => simp [owner]
  | cons first w ih =>
    rw [owner,List.length_cons]
    cases i with
    | zero =>
      rw [start_zero,start_cons,start_zero]
      split
      · simp_all
      · simp_all
    | succ i =>
      rw [start_cons,start_cons]
      split
      · simp
        omega
      · simp [ih]
        omega

theorem exists_owner (hk : k < w.sum) : ∃ i, owner w k = some i := by
  induction w generalizing k with
  | nil => exact absurd hk (Nat.not_lt_zero k)
  | cons first w ih =>
    rw [owner]
    split
    · exact ⟨0,rfl⟩
    · rw [List.sum_cons] at hk
      obtain ⟨i,hi⟩ := ih (show k - first < w.sum by omega)
      exact ⟨i + 1,by rw [hi,Option.map_some]⟩

/-- A range has as many numbers as its size. -/
theorem card_owner (hi : i < w.length) : ((Finset.range w.sum).filter fun k => owner w k = some i).card = size w i := by
  have hrange : ((Finset.range w.sum).filter fun k => owner w k = some i) = Finset.Ico (start w i) (start w (i + 1)) := by
    ext k
    have hle := start_le_sum w (i + 1)
    simp only [Finset.mem_filter,Finset.mem_range,owner_eq_some_iff,Finset.mem_Ico]
    constructor
    · exact fun h => h.2.2
    · exact fun h => ⟨by omega,hi,h⟩
  rw [hrange,Nat.card_Ico,start_succ,Nat.add_sub_cancel_left]

end Owner

section Moved
variable {w w' : List ℕ} {i : ℕ}

/-- The numbers that change their range. -/
def moved (w w' : List ℕ) : Finset ℕ := (Finset.range w.sum).filter fun k => owner w k ≠ owner w' k

/-- Those that stay in a range. -/
def kept (w w' : List ℕ) (i : ℕ) : Finset ℕ := (Finset.range w.sum).filter fun k => owner w k = some i ∧ owner w' k = some i

def increases (w w' : List ℕ) : ℕ := ∑ i ∈ Finset.range w.length, (size w' i - size w i)

/-- One of a range before and after is empty or within the other. -/
def Nested (w w' : List ℕ) (i : ℕ) : Prop :=
  size w i = 0 ∨ size w' i = 0 ∨ (start w i ≤ start w' i ∧ start w' (i + 1) ≤ start w (i + 1)) ∨
    (start w' i ≤ start w i ∧ start w (i + 1) ≤ start w' (i + 1))

instance (w w' : List ℕ) (i : ℕ) : Decidable (Nested w w' i) := by
  unfold Nested
  infer_instance

theorem nested_of_start_eq (h : start w i = start w' i) : Nested w w' i := by
  rw [Nested]
  omega

theorem nested_of_start_succ_eq (h : start w (i + 1) = start w' (i + 1)) : Nested w w' i := by
  rw [Nested]
  omega

theorem card_kept (hi : i < w.length) (hlength : w.length = w'.length) :
    (kept w w' i).card = min (start w (i + 1)) (start w' (i + 1)) - max (start w i) (start w' i) := by
  have hrange : kept w w' i = Finset.Ico (max (start w i) (start w' i)) (min (start w (i + 1)) (start w' (i + 1))) := by
    ext k
    have hle := start_le_sum w (i + 1)
    simp only [kept,Finset.mem_filter,Finset.mem_range,owner_eq_some_iff,Finset.mem_Ico,max_le_iff,lt_min_iff]
    constructor
    · rintro ⟨-,⟨-,hfrom,hto⟩,-,hfrom',hto'⟩
      exact ⟨⟨hfrom,hfrom'⟩,hto,hto'⟩
    · rintro ⟨⟨hfrom,hfrom'⟩,hto,hto'⟩
      exact ⟨by omega,⟨hi,hfrom,hto⟩,hlength ▸ hi,hfrom',hto'⟩
  rw [hrange,Nat.card_Ico]

theorem card_kept_le (hi : i < w.length) (hlength : w.length = w'.length) : (kept w w' i).card ≤ min (size w i) (size w' i) := by
  rw [card_kept hi hlength,start_succ,start_succ]
  omega

theorem card_kept_eq_iff (hi : i < w.length) (hlength : w.length = w'.length) :
    (kept w w' i).card = min (size w i) (size w' i) ↔ Nested w w' i := by
  rw [card_kept hi hlength,Nested,start_succ,start_succ]
  omega

/-- Every number moves or stays in some range. -/
theorem card_moved_add (w w' : List ℕ) : (moved w w').card + ∑ i ∈ Finset.range w.length, (kept w w' i).card = w.sum := by
  have hmaps : Set.MapsTo (fun k => (owner w k).getD 0) ((Finset.range w.sum).filter fun k => ¬ owner w k ≠ owner w' k)
      (Finset.range w.length) := by
    intro k hk
    obtain ⟨hlt,-⟩ := Finset.mem_filter.mp hk
    obtain ⟨i,hi⟩ := exists_owner (Finset.mem_range.mp hlt)
    simp only [hi,Option.getD_some]
    exact Finset.mem_coe.mpr (Finset.mem_range.mpr (owner_eq_some_iff.mp hi).1)
  have hfiber : ∀ i, (((Finset.range w.sum).filter fun k => ¬ owner w k ≠ owner w' k).filter fun k => (owner w k).getD 0 = i) = kept w w' i := by
    intro i
    ext k
    simp only [kept,Finset.mem_filter,Finset.mem_range,not_not]
    constructor
    · rintro ⟨⟨hlt,hsame⟩,hi⟩
      obtain ⟨j,hj⟩ := exists_owner hlt
      rw [hj,Option.getD_some] at hi
      exact ⟨hlt,hi ▸ hj,hsame ▸ hi ▸ hj⟩
    · rintro ⟨hlt,hbefore,hafter⟩
      exact ⟨⟨hlt,hbefore.trans hafter.symm⟩,by rw [hbefore,Option.getD_some]⟩
  have hstay := Finset.card_eq_sum_card_fiberwise hmaps
  simp only [hfiber] at hstay
  rw [← hstay,moved,Finset.card_filter_add_card_filter_not,Finset.card_range]

theorem increases_add (hlength : w.length = w'.length) : increases w w' + ∑ i ∈ Finset.range w.length, min (size w i) (size w' i) = w'.sum := by
  rw [increases,← Finset.sum_add_distrib,← start_length w',start_eq_sum,hlength]
  refine Finset.sum_congr rfl fun i _ => ?_
  omega

/-- No fewer move than the sizes grow by, with the sum of the sizes kept. -/
theorem increases_le_card_moved (hlength : w.length = w'.length) (hsum : w.sum = w'.sum) : increases w w' ≤ (moved w w').card := by
  have hmoved := card_moved_add w w'
  have hgrown := increases_add hlength
  have hle : ∑ i ∈ Finset.range w.length, (kept w w' i).card ≤ ∑ i ∈ Finset.range w.length, min (size w i) (size w' i) :=
    Finset.sum_le_sum fun i hi => card_kept_le (Finset.mem_range.mp hi) hlength
  omega

/-- As many move as the sizes grow by just where no range slides off itself. -/
theorem card_moved_eq_iff (hlength : w.length = w'.length) (hsum : w.sum = w'.sum) :
    (moved w w').card = increases w w' ↔ ∀ i < w.length, Nested w w' i := by
  have hmoved := card_moved_add w w'
  have hgrown := increases_add hlength
  have hle : ∀ i ∈ Finset.range w.length, (kept w w' i).card ≤ min (size w i) (size w' i) := fun i hi =>
    card_kept_le (Finset.mem_range.mp hi) hlength
  have hsums : (moved w w').card = increases w w' ↔
      ∑ i ∈ Finset.range w.length, (kept w w' i).card = ∑ i ∈ Finset.range w.length, min (size w i) (size w' i) := by
    omega
  rw [hsums,Finset.sum_eq_sum_iff_of_le hle]
  simp only [Finset.mem_range]
  exact forall_congr' fun i => forall_congr' fun hi => card_kept_eq_iff hi hlength

/-- What grows is half of all that changes. -/
theorem two_mul_increases (hlength : w.length = w'.length) (hsum : w.sum = w'.sum) :
    2 * increases w w' = ∑ i ∈ Finset.range w.length, ((size w' i : ℤ) - size w i).natAbs := by
  have hgrown := increases_add hlength
  have hshrunk := increases_add hlength.symm
  have hmin : ∑ i ∈ Finset.range w'.length, min (size w' i) (size w i) = ∑ i ∈ Finset.range w.length, min (size w i) (size w' i) := by
    rw [hlength]
    exact Finset.sum_congr rfl fun i _ => min_comm _ _
  have hboth : ∑ i ∈ Finset.range w.length, ((size w' i : ℤ) - size w i).natAbs = increases w w' + increases w' w := by
    rw [increases,increases,← hlength,← Finset.sum_add_distrib]
    refine Finset.sum_congr rfl fun i _ => ?_
    omega
  omega

end Moved
end Dwara.Lib.Ranges
