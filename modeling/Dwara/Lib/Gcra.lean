import Dwara.Lib.Machine
import Mathlib.Algebra.Order.Group.Defs
import Mathlib.Algebra.Order.Group.Unbundled.Basic
import Mathlib.Algebra.BigOperators.Group.List.Basic
import Mathlib.Tactic.Abel
import Mathlib.Tactic.Linarith

/-! The generic cell rate algorithm: one theoretical arrival time, moved on by the
charge of each conforming arrival and never allowed further than a tolerance
ahead of the clock. -/

namespace Dwara.Lib.Gcra
variable {α : Type*} [AddCommGroup α] [LinearOrder α]

/-- An arrival, and by how much it moves the theoretical arrival time. -/
structure Arrival (α : Type*) where
  now : α
  charge : α

/-- The theoretical arrival time an arrival leads to; a missing one is `now`. -/
def newTat (tat : Option α) (a : Arrival α) : α := max (tat.getD a.now) a.now + a.charge

/-- Arrivals are let through while the new time stays within the tolerance. -/
def machine (tolerance : α) : Machine (Option α) (Arrival α) Bool where
  step tat a := if newTat tat a - tolerance ≤ a.now then (some (newTat tat a),true) else (tat,false)

def Clocked (as : List (Arrival α)) : Prop := as.Pairwise (fun a b => a.now ≤ b.now)

/-- The total charge let through between the instants `s` and `t`. -/
def admitted (s t : α) (trace : List (Transition (Option α) (Arrival α) Bool)) : α :=
  ((trace.filter (fun x => x.output && decide (s ≤ x.input.now) && decide (x.input.now ≤ t))).map
    (·.input.charge)).sum

/-- A time already reached is as good as none. -/
theorem newTat_of_le {tat : α} {a : Arrival α} (h : tat ≤ a.now) : newTat (some tat) a = newTat none a := by
  simp [newTat,h]

variable {tolerance : α} {tat : Option α} {a : Arrival α}

theorem step_admitted (h : newTat tat a - tolerance ≤ a.now) :
    (machine tolerance).next tat a = some (newTat tat a) ∧ (machine tolerance).answer tat a = true := by
  simp [Machine.next,Machine.answer,machine,h]

theorem step_refused (h : ¬ newTat tat a - tolerance ≤ a.now) :
    (machine tolerance).next tat a = tat ∧ (machine tolerance).answer tat a = false := by
  simp [Machine.next,Machine.answer,machine,h]

theorem admitted_cons (s t : α) (x : Transition (Option α) (Arrival α) Bool)
    (xs : List (Transition (Option α) (Arrival α) Bool)) :
    admitted s t (x :: xs) =
      (if x.output ∧ s ≤ x.input.now ∧ x.input.now ≤ t then x.input.charge else 0) + admitted s t xs := by
  unfold admitted
  rw [List.filter_cons]
  by_cases h : x.output ∧ s ≤ x.input.now ∧ x.input.now ≤ t
  · simp [h]
  · rw [if_neg h,if_neg (by simpa [and_assoc] using h),zero_add]

/-- Nothing is let through after `t` when every arrival comes later. -/
theorem admitted_eq_zero {s t : α} {as : List (Arrival α)} (h : ∀ a ∈ as, t < a.now) :
    admitted s t ((machine tolerance).trace tat as) = 0 := by
  rw [admitted]
  rw [List.filter_eq_nil_iff.mpr]
  · rfl
  · intro x hx
    have := h _ ((machine tolerance).input_mem_of_mem_trace hx)
    simp [not_le.mpr this]

variable [IsOrderedAddMonoid α]

/-- From a stored time on, what is let through until `t` fits below `t + tolerance`. -/
theorem stored_add_admitted_le {as : List (Arrival α)} (hc : Clocked as) (s t stored : α) (hs : ∀ a ∈ as, s ≤ a.now)
    (hst : stored ≤ t + tolerance) :
    stored + admitted s t ((machine tolerance).trace (some stored) as) ≤ t + tolerance := by
  induction as generalizing stored with
  | nil => simpa [admitted] using hst
  | cons a as ih =>
    obtain ⟨hfirst,hrest⟩ := List.pairwise_cons.mp hc
    have hsa := hs a List.mem_cons_self
    rw [Machine.trace_cons,admitted_cons]
    by_cases hok : newTat (some stored) a - tolerance ≤ a.now
    · obtain ⟨hnext,hans⟩ := step_admitted hok
      simp only [Machine.fire,hans,hnext,hsa,true_and]
      by_cases hat : a.now ≤ t
      · have hmove : stored + a.charge ≤ newTat (some stored) a := by
          simp only [newTat,Option.getD_some]
          exact add_le_add_left (le_max_left _ _) _
        have hbound : newTat (some stored) a ≤ t + tolerance :=
          (sub_le_iff_le_add.mp hok).trans (add_le_add_left hat _)
        have := ih hrest (newTat (some stored) a) (fun b hb => hs b (List.mem_cons_of_mem _ hb)) hbound
        rw [if_pos hat,← add_assoc]
        exact (add_le_add_left hmove _).trans this
      · rw [if_neg hat,admitted_eq_zero (fun b hb => (not_le.mp hat).trans_le (hfirst b hb))]
        simpa using hst
    · obtain ⟨hnext,hans⟩ := step_refused hok
      simp only [Machine.fire,hans,hnext,Bool.false_eq_true,false_and,if_false,zero_add]
      exact ih hrest stored (fun b hb => hs b (List.mem_cons_of_mem _ hb)) hst

/-- Between any two instants of a run, the charges let through exceed the time
between them by at most the tolerance. -/
theorem admitted_le {as : List (Arrival α)} (hc : Clocked as) {s t : α} (hst : s ≤ t) (h0 : 0 ≤ tolerance)
    (tat : Option α) : admitted s t ((machine tolerance).trace tat as) ≤ t - s + tolerance := by
  induction as generalizing tat with
  | nil => simpa [admitted] using add_nonneg (sub_nonneg.mpr hst) h0
  | cons a as ih =>
    obtain ⟨hfirst,hrest⟩ := List.pairwise_cons.mp hc
    rw [Machine.trace_cons,admitted_cons]
    by_cases hin : (machine tolerance).answer tat a ∧ s ≤ a.now ∧ a.now ≤ t
    · obtain ⟨hans,hsa,hat⟩ := hin
      have hok : newTat tat a - tolerance ≤ a.now := by
        by_contra hno
        simp [(step_refused hno).2] at hans
      have hmove : s + a.charge ≤ newTat tat a := add_le_add_left (hsa.trans (le_max_right _ _)) _
      have hbound : newTat tat a ≤ t + tolerance := (sub_le_iff_le_add.mp hok).trans (add_le_add_left hat _)
      have hlater := stored_add_admitted_le hrest s t (newTat tat a) (fun b hb => hsa.trans (hfirst b hb)) hbound
      simp only [Machine.fire,hans,hsa,hat,(step_admitted hok).1,and_self,if_true]
      have hsum : s + (a.charge + admitted s t ((machine tolerance).trace (some (newTat tat a)) as)) ≤ t + tolerance := by
        rw [← add_assoc]
        exact (add_le_add_left hmove _).trans hlater
      rw [sub_add_eq_add_sub]
      exact le_sub_iff_add_le'.mpr hsum
    · rw [if_neg (by simpa [Machine.fire] using hin),zero_add]
      exact ih hrest _

end Dwara.Lib.Gcra
