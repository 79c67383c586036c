import Mathlib.Data.Int.GCD
import Mathlib.Data.Nat.Notation
import Mathlib.Data.Nat.Prime.Basic

/-! Walking a table of prime size in equal steps, and searching it for a free slot. -/

namespace Dwara.Lib.PrimeWalk

variable {m skip : ℕ} (offset : ℕ)

/-- The slot after `c` steps. -/
def slotAt (m offset skip c : ℕ) : ℕ := (offset + c * skip) % m

/-- Steps of a whole number of rounds stay where they are. -/
theorem slotAt_of_dvd (h : m ∣ skip) (c : ℕ) : slotAt m offset skip c = offset % m := by
  obtain ⟨k,rfl⟩ := h
  rw [slotAt,Nat.mul_left_comm,Nat.add_mul_mod_self_left]

/-- Any other step meets every slot within a round, from wherever the walk stands. -/
theorem slotAt_reaches (hp : m.Prime) (h : ¬ m ∣ skip) (c : ℕ) {slot : ℕ} (hs : slot < m) :
    ∃ j < m, slotAt m offset skip (c + j) = slot := by
  have hcoprime : Nat.Coprime skip m := ((Nat.Prime.coprime_iff_not_dvd hp).mpr h).symm
  obtain ⟨j,hj,hmod⟩ := Nat.exists_mul_mod_eq_of_coprime (slot + (m - (offset + c * skip) % m)) hcoprime hp.ne_zero
  refine ⟨j,hj,?_⟩
  have hlt := Nat.mod_lt (offset + c * skip) hp.pos
  calc slotAt m offset skip (c + j)
      = ((offset + c * skip) + skip * j) % m := by rw [slotAt,Nat.add_mul,Nat.mul_comm j,Nat.add_assoc]
    _ = ((offset + c * skip) % m + (slot + (m - (offset + c * skip) % m))) % m := by
        rw [Nat.add_mod,hmod,Nat.add_mod_mod]
    _ = (slot + m) % m := by
        congr 1
        omega
    _ = slot := by rw [Nat.add_mod_right,Nat.mod_eq_of_lt hs]

/-- The walk visits every slot exactly when its step is no whole number of rounds. -/
theorem covers_iff (hp : m.Prime) : (∀ slot < m, ∃ c, slotAt m offset skip c = slot) ↔ ¬ m ∣ skip := by
  constructor
  · intro hcovers hdvd
    obtain ⟨c,hzero⟩ := hcovers 0 hp.pos
    obtain ⟨d,hone⟩ := hcovers 1 hp.one_lt
    rw [slotAt_of_dvd offset hdvd] at hzero hone
    exact Nat.zero_ne_one (hzero.symm.trans hone)
  · intro h slot hs
    obtain ⟨j,-,hj⟩ := slotAt_reaches offset hp h 0 hs
    exact ⟨0 + j,hj⟩

/-- The first step from `c` on that meets a free slot. -/
def search (m offset skip : ℕ) (free : ℕ → Bool) : ℕ → ℕ → Option ℕ
  | 0, _ => none
  | fuel + 1, c => if free (slotAt m offset skip c) then some c else search m offset skip free fuel (c + 1)

variable {offset} {free : ℕ → Bool} {fuel c found : ℕ}

theorem search_some (h : search m offset skip free fuel c = some found) :
    free (slotAt m offset skip found) ∧ c ≤ found ∧ ∀ d, c ≤ d → d < found → free (slotAt m offset skip d) = false := by
  induction fuel generalizing c with
  | zero => cases h
  | succ fuel ih =>
    rw [search] at h
    split at h
    · rename_i hfree
      obtain rfl := Option.some.inj h
      exact ⟨hfree,le_rfl,fun d hle hlt => absurd hlt (Nat.not_lt.mpr hle)⟩
    · rename_i htaken
      obtain ⟨hfree,hle,hbefore⟩ := ih h
      refine ⟨hfree,by omega,fun d hd hlt => ?_⟩
      rcases Nat.eq_or_lt_of_le hd with rfl | hlater
      · exact Bool.eq_false_of_not_eq_true htaken
      · exact hbefore d hlater hlt

theorem search_eq_none_iff : search m offset skip free fuel c = none ↔ ∀ j < fuel, free (slotAt m offset skip (c + j)) = false := by
  induction fuel generalizing c with
  | zero => simp [search]
  | succ fuel ih =>
    rw [search,Nat.forall_lt_succ_left]
    split
    · rename_i hfree
      simp [hfree]
    · rename_i hfull
      simp only [ih,Bool.not_eq_true] at hfull ⊢
      simp [hfull,Nat.add_assoc,Nat.add_comm 1]

variable (offset) in
/-- A free slot is found within a round. -/
theorem search_finds (hp : m.Prime) (h : ¬ m ∣ skip) (hfuel : m ≤ fuel) {slot : ℕ} (hs : slot < m) (hfree : free slot) (c : ℕ) :
    ∃ found, search m offset skip free fuel c = some found ∧ found < c + m := by
  obtain ⟨j,hj,hslot⟩ := slotAt_reaches offset hp h c hs
  cases hsearch : search m offset skip free fuel c with
  | none =>
    have hfull := search_eq_none_iff.mp hsearch j (hj.trans_le hfuel)
    rw [hslot,hfree] at hfull
    cases hfull
  | some found =>
    obtain ⟨-,-,hbefore⟩ := search_some hsearch
    refine ⟨found,rfl,?_⟩
    by_contra hfar
    have hfull := hbefore (c + j) (Nat.le_add_right c j) (by omega)
    rw [hslot,hfree] at hfull
    cases hfull

/-- A walk that stays on a taken slot finds none. -/
theorem search_stuck (h : m ∣ skip) (hfull : free (offset % m) = false) : search m offset skip free fuel c = none := by
  rw [search_eq_none_iff]
  intro j _
  rw [slotAt_of_dvd offset h,hfull]

end Dwara.Lib.PrimeWalk
