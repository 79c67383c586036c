import Mathlib.Data.List.Basic
import Mathlib.Tactic.TypeStar

/-! A map that keeps every value of a key, in the order they came. -/

namespace Dwara.Lib

abbrev HeaderMap (κ ν : Type*) := List (κ × ν)

namespace HeaderMap
variable {κ ν : Type*}

/-- The entries whose key passes. -/
def keep (q : κ → Bool) (m : HeaderMap κ ν) : HeaderMap κ ν := m.filter (q ·.1)

variable [DecidableEq κ]

def getAll (m : HeaderMap κ ν) (k : κ) : List ν := (m.filter (·.1 = k)).map (·.2)

def get (m : HeaderMap κ ν) (k : κ) : Option ν := (m.getAll k).head?

def remove (m : HeaderMap κ ν) (k : κ) : HeaderMap κ ν := keep (· ≠ k) m

/-- One value in place of all of the key's. -/
def insert (m : HeaderMap κ ν) (k : κ) (v : ν) : HeaderMap κ ν := m.remove k ++ [(k,v)]

def append (m : HeaderMap κ ν) (k : κ) (v : ν) : HeaderMap κ ν := m ++ [(k,v)]

variable (m : HeaderMap κ ν) {q r : κ → Bool} {k k' : κ} {v : ν}

omit [DecidableEq κ] in
theorem keep_keep : keep q (keep r m) = keep (fun k => q k && r k) m := by
  simp [keep,List.filter_filter]

omit [DecidableEq κ] in
theorem keep_comm : keep q (keep r m) = keep r (keep q m) := by
  rw [keep_keep,keep_keep]
  congr
  funext k
  exact Bool.and_comm _ _

omit [DecidableEq κ] in
theorem keep_congr (h : ∀ k ∈ m.map (·.1), q k = r k) : keep q m = keep r m :=
  List.filter_congr fun e he => h e.1 (List.mem_map_of_mem he)

omit [DecidableEq κ] in
theorem keep_append (l : HeaderMap κ ν) : keep q (m ++ l) = keep q m ++ keep q l := List.filter_append _ _

/-- What passes is inserted among what passes. -/
theorem keep_insert (h : q k = true) : keep q (m.insert k v) = (keep q m).insert k v := by
  rw [insert,keep_append,insert,remove,remove,keep_comm]
  simp [keep,h]

theorem keep_insert_of_not (h : q k = false) : keep q (m.insert k v) = keep q m := by
  rw [insert,keep_append,remove,keep_keep]
  have hone : keep q [(k,v)] = [] := by simp [keep,h]
  rw [hone,List.append_nil]
  apply keep_congr
  intro k' _
  by_cases hk : k' = k
  · simp [hk,h]
  · simp [hk]

theorem getAll_keep (h : q k = true) : getAll (keep q m) k = getAll m k := by
  rw [getAll,keep,List.filter_filter,getAll]
  congr 1
  apply List.filter_congr
  intro e _
  by_cases hk : e.1 = k
  · simp [hk,h]
  · simp [hk]

theorem getAll_remove (h : k ≠ k') : (m.remove k').getAll k = m.getAll k :=
  getAll_keep m (by simpa using h)

theorem getAll_append (h : k ≠ k') : (m.append k' v).getAll k = m.getAll k := by
  simp [append,getAll,Ne.symm h]

theorem getAll_insert (h : k ≠ k') : (m.insert k' v).getAll k = m.getAll k :=
  (getAll_append (m.remove k') h).trans (getAll_remove m h)

theorem getAll_append_self : (m.append k v).getAll k = m.getAll k ++ [v] := by
  simp [append,getAll]

theorem getAll_remove_self : (m.remove k).getAll k = [] := by
  simp [remove,keep,getAll]

theorem getAll_insert_self : (m.insert k v).getAll k = [v] := by
  rw [insert,← append,getAll_append_self,getAll_remove_self]
  rfl

theorem getAll_keep_of_not (h : q k = false) : getAll (keep q m) k = [] := by
  rw [getAll,keep,List.filter_filter,List.map_eq_nil_iff,List.filter_eq_nil_iff]
  intro e _ he
  obtain ⟨hk,hq⟩ := Bool.and_eq_true_iff.mp he
  rw [of_decide_eq_true hk,h] at hq
  cases hq

end HeaderMap
end Dwara.Lib
