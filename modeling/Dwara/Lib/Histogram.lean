import Mathlib.Data.Int.Notation
import Mathlib.Data.List.Basic
import Mathlib.Data.List.Count
import Mathlib.Order.Lattice
import Mathlib.Algebra.BigOperators.Group.List.Basic
import Mathlib.Algebra.Ring.Nat

/-! Counts under ordered keys, and how many are counted up to a key. -/

namespace Dwara.Lib.Histogram
variable {κ : Type*} [LinearOrder κ]

/-- Some more under a key. -/
def add (k : κ) (c : ℕ) : List (κ × ℕ) → List (κ × ℕ)
  | [] => [(k,c)]
  | (j,n) :: m => if k < j then (k,c) :: (j,n) :: m else if k = j then (j,n + c) :: m else (j,n) :: add k c m

def remove (k : κ) (m : List (κ × ℕ)) : List (κ × ℕ) := m.filter (·.1 ≠ k)

def total (m : List (κ × ℕ)) : ℕ := (m.map (·.2)).sum

def upTo (m : List (κ × ℕ)) (i : κ) : ℕ := total (m.filter (·.1 ≤ i))

def Sorted (m : List (κ × ℕ)) : Prop := m.Pairwise fun p q => p.1 < q.1

/-- The first key at which so many are counted. -/
def reach (target : ℕ) : ℕ → List (κ × ℕ) → Option κ
  | _, [] => none
  | cum, (j,n) :: m => if target ≤ cum + n then some j else reach target (cum + n) m

section Counts
variable {m : List (κ × ℕ)} {i j k : κ} {c n : ℕ}

omit [LinearOrder κ] in
@[simp] theorem total_cons (p : κ × ℕ) (m : List (κ × ℕ)) : total (p :: m) = p.2 + total m := rfl

@[simp] theorem upTo_nil (i : κ) : upTo ([] : List (κ × ℕ)) i = 0 := rfl

theorem upTo_cons (p : κ × ℕ) (m : List (κ × ℕ)) (i : κ) : upTo (p :: m) i = (if p.1 ≤ i then p.2 else 0) + upTo m i := by
  by_cases hp : p.1 ≤ i
  · rw [upTo,List.filter_cons_of_pos (by simpa using hp),total_cons,if_pos hp]
    rfl
  · rw [upTo,List.filter_cons_of_neg (by simpa using hp),if_neg hp,Nat.zero_add]
    rfl

theorem total_add (k : κ) (c : ℕ) (m : List (κ × ℕ)) : total (add k c m) = total m + c := by
  induction m with
  | nil => simp [add, total]
  | cons p m ih =>
    rw [add]
    split
    · simp only [total_cons]
      omega
    · split
      · simp only [total_cons]
        omega
      · simp only [total_cons, ih]
        omega

theorem upTo_add (k : κ) (c : ℕ) (m : List (κ × ℕ)) (i : κ) : upTo (add k c m) i = upTo m i + if k ≤ i then c else 0 := by
  induction m with
  | nil => simp [add, upTo_cons]
  | cons p m ih =>
    obtain ⟨j,n⟩ := p
    rw [add]
    split
    · simp only [upTo_cons]
      omega
    · split
      · rename_i hk
        subst hk
        simp only [upTo_cons]
        split <;> omega
      · simp only [upTo_cons, ih]
        omega

theorem mem_keys_add : j ∈ (add k c m).map (·.1) ↔ j = k ∨ j ∈ m.map (·.1) := by
  induction m with
  | nil => simp [add]
  | cons p m ih =>
    rw [add]
    split
    · simp
    · split
      · rename_i hk
        simp [hk]
      · simp only [List.map_cons, List.mem_cons, ih]
        tauto

theorem sorted_add (h : Sorted m) (k : κ) (c : ℕ) : Sorted (add k c m) := by
  induction m with
  | nil => exact List.pairwise_singleton _ _
  | cons p m ih =>
    obtain ⟨hp,hm⟩ := List.pairwise_cons.mp h
    rw [add]
    split
    · rename_i hk
      refine List.pairwise_cons.mpr ⟨?_,h⟩
      intro q hq
      rcases List.mem_cons.mp hq with rfl | hq
      · exact hk
      · exact hk.trans (hp q hq)
    · rename_i hk
      split
      · exact List.pairwise_cons.mpr ⟨hp,hm⟩
      · rename_i hne
        refine List.pairwise_cons.mpr ⟨?_,ih hm⟩
        intro q hq
        rcases mem_keys_add.mp (List.mem_map_of_mem hq) with hq | hq
        · rw [hq]
          exact lt_of_le_of_ne (not_lt.mp hk) (Ne.symm hne)
        · obtain ⟨r,hr,hrq⟩ := List.mem_map.mp hq
          exact hrq ▸ hp r hr

theorem length_add_of_mem (h : Sorted m) (hk : k ∈ m.map (·.1)) (c : ℕ) : (add k c m).length = m.length := by
  induction m with
  | nil => simp at hk
  | cons p m ih =>
    obtain ⟨hp,hm⟩ := List.pairwise_cons.mp h
    rw [add]
    rcases List.mem_cons.mp hk with heq | hk
    · rw [if_neg (by simp [heq]),if_pos heq]
      rfl
    · obtain ⟨q,hq,rfl⟩ := List.mem_map.mp hk
      have hlt := hp q hq
      rw [if_neg (not_lt_of_gt hlt),if_neg (ne_of_gt hlt),List.length_cons,List.length_cons,ih hm (List.mem_map_of_mem hq)]

theorem length_add_le (k : κ) (c : ℕ) (m : List (κ × ℕ)) : (add k c m).length ≤ m.length + 1 := by
  induction m with
  | nil => exact Nat.le_refl _
  | cons p m ih =>
    rw [add]
    split
    · exact Nat.le_refl _
    · split
      · exact Nat.le_succ _
      · exact Nat.succ_le_succ ih

theorem nodup_keys (h : Sorted m) : (m.map (·.1)).Nodup := List.pairwise_map.mpr (h.imp ne_of_lt)

theorem sorted_remove (h : Sorted m) (k : κ) : Sorted (remove k m) := h.filter _

theorem remove_of_lt (h : ∀ q ∈ m, k < q.1) : remove k m = m := by
  rw [remove,List.filter_eq_self]
  intro q hq
  simpa using ne_of_gt (h q hq)

/-- What stands under one key goes with it. -/
theorem upTo_remove (h : Sorted m) (hk : (k,n) ∈ m) (i : κ) : upTo (remove k m) i + (if k ≤ i then n else 0) = upTo m i := by
  induction m with
  | nil => cases hk
  | cons p m ih =>
    obtain ⟨hp,hm⟩ := List.pairwise_cons.mp h
    rcases List.mem_cons.mp hk with rfl | hk
    · rw [remove,List.filter_cons_of_neg (by simp),← remove,remove_of_lt hp,upTo_cons]
      exact Nat.add_comm _ _
    · have hne : p.1 ≠ k := ne_of_lt (hp _ hk)
      rw [remove,List.filter_cons_of_pos (by simpa using hne),← remove,upTo_cons,upTo_cons,← ih hm hk]
      omega

theorem total_remove (h : Sorted m) (hk : (k,n) ∈ m) : total (remove k m) + n = total m := by
  induction m with
  | nil => cases hk
  | cons p m ih =>
    obtain ⟨hp,hm⟩ := List.pairwise_cons.mp h
    rcases List.mem_cons.mp hk with rfl | hk
    · rw [remove,List.filter_cons_of_neg (by simp),← remove,remove_of_lt hp,total_cons]
      exact Nat.add_comm _ _
    · have hne : p.1 ≠ k := ne_of_lt (hp _ hk)
      rw [remove,List.filter_cons_of_pos (by simpa using hne),← remove,total_cons,total_cons,← ih hm hk]
      omega

theorem length_remove (h : Sorted m) (hk : k ∈ m.map (·.1)) : (remove k m).length + 1 = m.length := by
  induction m with
  | nil => simp at hk
  | cons p m ih =>
    obtain ⟨hp,hm⟩ := List.pairwise_cons.mp h
    rcases List.mem_cons.mp hk with rfl | hk
    · rw [remove,List.filter_cons_of_neg (by simp),← remove,remove_of_lt hp]
      rfl
    · obtain ⟨q,hq,rfl⟩ := List.mem_map.mp hk
      have hne : p.1 ≠ q.1 := ne_of_lt (hp q hq)
      rw [remove,List.filter_cons_of_pos (by simpa using hne),← remove,List.length_cons,List.length_cons,ih hm hk]

theorem upTo_eq_zero (h : ∀ q ∈ m, i < q.1) : upTo m i = 0 := by
  have hnone : m.filter (·.1 ≤ i) = [] := by
    rw [List.filter_eq_nil_iff]
    intro q hq
    simpa using h q hq
  rw [upTo,hnone]
  rfl

/-- A key that is reached is the least with so many up to it. -/
theorem reach_eq_some {target cum : ℕ} (hsorted : Sorted m) (htarget : cum < target) (h : reach target cum m = some j) :
    j ∈ m.map (·.1) ∧ target ≤ cum + upTo m j ∧ ∀ i < j, cum + upTo m i < target := by
  induction m generalizing cum with
  | nil => cases h
  | cons p m ih =>
    obtain ⟨hp,hm⟩ := List.pairwise_cons.mp hsorted
    rw [reach] at h
    split at h
    · obtain rfl := Option.some.inj h
      refine ⟨List.mem_cons_self,?_,?_⟩
      · rw [upTo_cons,if_pos le_rfl]
        omega
      · intro i hi
        rw [upTo_eq_zero]
        · exact htarget
        · intro q hq
          rcases List.mem_cons.mp hq with rfl | hq
          · exact hi
          · exact hi.trans (hp q hq)
    · rename_i hmore
      obtain ⟨hj,hreached,hleast⟩ := ih hm (by omega) h
      obtain ⟨q,hq,rfl⟩ := List.mem_map.mp hj
      refine ⟨List.mem_cons_of_mem _ hj,?_,?_⟩
      · rw [upTo_cons,if_pos (hp q hq).le]
        omega
      · intro i hi
        have hi' := hleast i hi
        rw [upTo_cons]
        split <;> omega

omit [LinearOrder κ] in
theorem exists_reach {target cum : ℕ} (hcum : cum < target) (h : target ≤ cum + total m) : ∃ j, reach target cum m = some j := by
  induction m generalizing cum with
  | nil =>
    have : total ([] : List (κ × ℕ)) = 0 := rfl
    omega
  | cons p m ih =>
    rw [reach]
    split
    · exact ⟨p.1,rfl⟩
    · exact ih (by omega) (by rw [total_cons] at h; omega)

/-- One histogram into another. -/
def addAll (m other : List (κ × ℕ)) : List (κ × ℕ) := other.foldl (fun m p => add p.1 p.2 m) m

theorem sorted_addAll (h : Sorted m) (other : List (κ × ℕ)) : Sorted (addAll m other) := by
  induction other generalizing m with
  | nil => exact h
  | cons p other ih => exact ih (sorted_add h p.1 p.2)

theorem total_addAll (m other : List (κ × ℕ)) : total (addAll m other) = total m + total other := by
  induction other generalizing m with
  | nil => rfl
  | cons p other ih =>
    rw [addAll,List.foldl_cons,← addAll,ih,total_add,total_cons]
    omega

theorem upTo_addAll (m other : List (κ × ℕ)) (i : κ) : upTo (addAll m other) i = upTo m i + upTo other i := by
  induction other generalizing m with
  | nil => rfl
  | cons p other ih =>
    rw [addAll,List.foldl_cons,← addAll,ih,upTo_add,upTo_cons]
    omega

theorem mem_keys_addAll {other : List (κ × ℕ)} : j ∈ (addAll m other).map (·.1) ↔ j ∈ m.map (·.1) ∨ j ∈ other.map (·.1) := by
  induction other generalizing m with
  | nil => simp [addAll]
  | cons p other ih =>
    rw [addAll,List.foldl_cons,← addAll,ih,mem_keys_add,List.map_cons,List.mem_cons]
    tauto

end Counts

section Tally
variable {xs : List κ} {m : List (κ × ℕ)}

/-- Each value counted under itself. -/
def tally (xs : List κ) : List (κ × ℕ) := addAll [] (xs.map fun x => (x,1))

theorem sorted_tally (xs : List κ) : Sorted (tally xs) := sorted_addAll List.Pairwise.nil _

omit [LinearOrder κ] in
theorem total_ones (xs : List κ) : total (xs.map fun x => (x,1)) = xs.length := by
  induction xs with
  | nil => rfl
  | cons x xs ih => rw [List.map_cons,total_cons,ih,List.length_cons,Nat.add_comm]

theorem upTo_ones (xs : List κ) (i : κ) : upTo (xs.map fun x => (x,1)) i = xs.countP (· ≤ i) := by
  induction xs with
  | nil => rfl
  | cons x xs ih =>
    rw [List.map_cons,upTo_cons,ih,List.countP_cons,Nat.add_comm]
    simp only [decide_eq_true_eq]

theorem total_tally (xs : List κ) : total (tally xs) = xs.length := by
  rw [tally,total_addAll,total_ones]
  exact Nat.zero_add _

theorem upTo_tally (xs : List κ) (i : κ) : upTo (tally xs) i = xs.countP (· ≤ i) := by
  rw [tally,upTo_addAll,upTo_ones]
  exact Nat.zero_add _

theorem mem_keys_tally {i : κ} : i ∈ (tally xs).map (·.1) ↔ i ∈ xs := by
  rw [tally,mem_keys_addAll]
  simp

/-- The value of a rank: no earlier one has so many values up to it. -/
structure NearestRank (xs : List κ) (target : ℕ) (r : κ) : Prop where
  mem : r ∈ xs
  reached : target ≤ xs.countP (· ≤ r)
  least : ∀ i < r, xs.countP (· ≤ i) < target

theorem exists_nearestRank {target : ℕ} (htarget : 0 < target) (h : target ≤ xs.length) : ∃ r, NearestRank xs target r := by
  have htotal : target ≤ 0 + total (tally xs) := by rwa [Nat.zero_add,total_tally]
  obtain ⟨r,hr⟩ := exists_reach htarget htotal
  obtain ⟨hmem,hreached,hleast⟩ := reach_eq_some (sorted_tally xs) htarget hr
  simp only [Nat.zero_add, upTo_tally] at hreached hleast
  exact ⟨r,mem_keys_tally.mp hmem,hreached,hleast⟩

/-- Counts that lag behind the values reach a rank no earlier than the values do. -/
theorem NearestRank.le_of_reach {target : ℕ} {r j : κ} (hr : NearestRank xs target r) (hsorted : Sorted m) (htarget : 0 < target)
    (hlag : ∀ i, upTo m i ≤ xs.countP (· ≤ i)) (h : reach target 0 m = some j) : r ≤ j := by
  obtain ⟨-,hreached,-⟩ := reach_eq_some hsorted htarget h
  by_contra hlt
  have := hr.least j (not_le.mp hlt)
  have := hlag j
  omega

/-- Counts that are those of the values reach a rank where the values do. -/
theorem NearestRank.eq_of_reach {target : ℕ} {r j : κ} (hr : NearestRank xs target r) (hsorted : Sorted m) (htarget : 0 < target)
    (hexact : ∀ i, upTo m i = xs.countP (· ≤ i)) (h : reach target 0 m = some j) : j = r := by
  refine le_antisymm ?_ (hr.le_of_reach hsorted htarget (fun i => (hexact i).le) h)
  obtain ⟨-,-,hleast⟩ := reach_eq_some hsorted htarget h
  by_contra hlt
  have := hleast r (not_le.mp hlt)
  have := hr.reached
  rw [hexact] at *
  omega

end Tally
end Dwara.Lib.Histogram
