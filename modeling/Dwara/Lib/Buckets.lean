import Mathlib.Data.List.Sort

/-! Sorting by a bounded measure, the greatest first, one bucket after the other. -/

namespace Dwara.Lib
variable {α : Type*}

/-- The lists of the measures up to a bound, the greatest first. -/
def descending (f : ℕ → List α) : ℕ → List α
  | 0 => f 0
  | n + 1 => f (n + 1) ++ descending f n

theorem descending_succ (f : ℕ → List α) (n : ℕ) : descending f (n + 1) = descending (fun i => f (i + 1)) n ++ f 0 := by
  induction n with
  | zero => rfl
  | succ n ih => rw [descending,ih,descending,List.append_assoc]

theorem descending_congr {f g : ℕ → List α} {n : ℕ} (h : ∀ i ≤ n, f i = g i) : descending f n = descending g n := by
  induction n with
  | zero => exact h 0 le_rfl
  | succ n ih => rw [descending,descending,h (n + 1) le_rfl,ih fun i hi => h i (Nat.le_succ_of_le hi)]

theorem descending_eq_nil {f : ℕ → List α} {n : ℕ} (h : ∀ i ≤ n, f i = []) : descending f n = [] := by
  induction n with
  | zero => exact h 0 le_rfl
  | succ n ih => rw [descending,h (n + 1) le_rfl,ih fun i hi => h i (Nat.le_succ_of_le hi),List.nil_append]

theorem map_descending {β : Type*} (g : α → β) (f : ℕ → List α) (n : ℕ) :
    (descending f n).map g = descending (fun i => (f i).map g) n := by
  induction n with
  | zero => rfl
  | succ n ih => rw [descending,List.map_append,ih,descending]

theorem mem_descending {f : ℕ → List α} {n : ℕ} {a : α} : a ∈ descending f n ↔ ∃ i ≤ n, a ∈ f i := by
  induction n with
  | zero => simp [descending]
  | succ n ih =>
    rw [descending,List.mem_append,ih]
    constructor
    · rintro (h | ⟨i,hi,h⟩)
      · exact ⟨n + 1,le_rfl,h⟩
      · exact ⟨i,Nat.le_succ_of_le hi,h⟩
    · rintro ⟨i,hi,h⟩
      rcases Nat.le_succ_iff.mp hi with hi | rfl
      · exact .inr ⟨i,hi,h⟩
      · exact .inl h

section Stable
variable (m : α → ℕ)

/-- The items of one measure, in their order. -/
def bucket (l : List α) (n : ℕ) : List α := l.filter (m · = n)

theorem bucket_cons_of_ne {a : α} {l : List α} {n : ℕ} (h : m a ≠ n) : bucket m (a :: l) n = bucket m l n := by
  simp [bucket,h]

theorem bucket_cons_self (a : α) (l : List α) : bucket m (a :: l) (m a) = a :: bucket m l (m a) := by
  simp [bucket]

/-- A new first item goes in front of its bucket. -/
theorem orderedInsert_descending (a : α) (l : List α) (n : ℕ) (h : m a ≤ n) :
    List.orderedInsert (fun a b => m b ≤ m a) a (descending (bucket m l) n) = descending (bucket m (a :: l)) n := by
  have hfront : ∀ {n}, m a = n → List.orderedInsert (fun a b => m b ≤ m a) a (descending (bucket m l) n) =
      a :: descending (bucket m l) n := by
    rintro n rfl
    cases hl : descending (bucket m l) (m a) with
    | nil => rfl
    | cons b bs =>
      obtain ⟨i,hi,hb⟩ := mem_descending.mp (hl ▸ List.mem_cons_self : b ∈ descending (bucket m l) (m a))
      have hmb : m b = i := by simpa using (List.mem_filter.mp hb).2
      rw [List.orderedInsert_cons,if_pos (hmb ▸ hi)]
  induction n with
  | zero =>
    have ha : m a = 0 := Nat.le_zero.mp h
    have hcons := bucket_cons_self m a l
    rw [ha] at hcons
    rw [hfront ha,descending,descending,hcons]
  | succ n ih =>
    by_cases ha : m a = n + 1
    · have hcons := bucket_cons_self m a l
      rw [ha] at hcons
      have hbelow : descending (bucket m (a :: l)) n = descending (bucket m l) n :=
        descending_congr fun i hi => bucket_cons_of_ne m (by omega)
      rw [hfront ha,descending,descending,hcons,hbelow,List.cons_append]
    · have hle : m a ≤ n := by omega
      rw [descending,descending,bucket_cons_of_ne m ha,← ih hle]
      -- every item of a higher bucket is passed over
      have hpass : ∀ b ∈ bucket m l (n + 1), ¬ m b ≤ m a := by
        intro b hb
        have hmb : m b = n + 1 := by simpa using (List.mem_filter.mp hb).2
        omega
      generalize bucket m l (n + 1) = high at hpass
      induction high with
      | nil => rfl
      | cons b high ihigh =>
        rw [List.cons_append,List.orderedInsert_cons,if_neg (hpass b List.mem_cons_self),
          ihigh fun c hc => hpass c (List.mem_cons_of_mem b hc)]
        rfl

/-- A stable sort, the greatest measure first, is one bucket after the other. -/
theorem insertionSort_eq_descending (l : List α) {n : ℕ} (h : ∀ a ∈ l, m a ≤ n) :
    l.insertionSort (fun a b => m b ≤ m a) = descending (bucket m l) n := by
  induction l with
  | nil =>
    have hnil : descending (bucket m []) n = [] := descending_eq_nil fun _ _ => rfl
    rw [hnil,List.insertionSort_nil]
  | cons a l ih =>
    rw [List.insertionSort_cons,ih fun b hb => h b (List.mem_cons_of_mem a hb)]
    exact orderedInsert_descending m a l n (h a List.mem_cons_self)

end Stable
end Dwara.Lib
