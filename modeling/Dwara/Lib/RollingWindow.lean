import Mathlib.Data.List.Basic
import Mathlib.Tactic.TypeStar
import Mathlib.Data.Set.Function
import Mathlib.Logic.Function.Basic

/-! Queues of stamped events whose front is dropped once it leaves a window
of fixed width. -/

namespace Dwara.Lib.RollingWindow
variable {α : Type*} (stamp : α → ℕ) (width : ℕ)

/-- The event has left the window at `now`. Subtraction saturates, so an event
stamped in the future is still inside. -/
def expired (now : ℕ) (a : α) : Bool := width ≤ now - stamp a

/-- Drop expired events from the front. -/
def prune (now : ℕ) (xs : List α) : List α := xs.dropWhile (expired stamp width now)

/-- The events `prune` drops. -/
def leaving (now : ℕ) (xs : List α) : List α := xs.takeWhile (expired stamp width now)

/-- Stamps never decrease along the queue. -/
def Ordered (xs : List α) : Prop := xs.Pairwise (fun a b => stamp a ≤ stamp b)

variable {stamp width}

theorem leaving_append_prune (now : ℕ) (xs : List α) :
    leaving stamp width now xs ++ prune stamp width now xs = xs :=
  List.takeWhile_append_dropWhile

theorem expired_mono {now later : ℕ} (h : now ≤ later) {a : α} (ha : expired stamp width now a) :
    expired stamp width later a := by
  simp only [expired,decide_eq_true_eq] at ha ⊢
  omega

theorem prune_suffix (now : ℕ) (xs : List α) : prune stamp width now xs <:+ xs :=
  List.dropWhile_suffix _

theorem Ordered.prune {xs : List α} (h : Ordered stamp xs) (now : ℕ) :
    Ordered stamp (prune stamp width now xs) :=
  h.sublist (prune_suffix now xs).sublist

/-- Pruning on the way to a later prune changes nothing, whatever is appended
in between. -/
theorem prune_prune_append {now later : ℕ} (h : now ≤ later) (xs ys : List α) :
    prune stamp width later (prune stamp width now xs ++ ys) = prune stamp width later (xs ++ ys) := by
  induction xs with
  | nil => rfl
  | cons x xs ih =>
    by_cases hx : expired stamp width now x
    · have hx' := expired_mono h hx
      simp only [prune,List.dropWhile_cons,hx,hx',List.cons_append,if_true] at ih ⊢
      exact ih
    · simp only [prune,List.dropWhile_cons,hx,List.cons_append,Bool.false_eq_true,if_false]

/-- On an ordered queue, pruning keeps exactly the events inside the window. -/
theorem Ordered.prune_eq_filter {xs : List α} (h : Ordered stamp xs) (now : ℕ) :
    RollingWindow.prune stamp width now xs = xs.filter (fun a => !expired stamp width now a) := by
  induction xs with
  | nil => rfl
  | cons x xs ih =>
    obtain ⟨hx,hxs⟩ := List.pairwise_cons.mp h
    by_cases he : expired stamp width now x
    · simpa [RollingWindow.prune,List.dropWhile_cons,he] using ih hxs
    · have hkeep : ∀ y ∈ x :: xs, (!expired stamp width now y) = true := by
        simp only [expired,decide_eq_true_eq] at he
        intro y hy
        simp only [expired,Bool.not_eq_true',decide_eq_false_iff_not]
        rcases List.mem_cons.mp hy with rfl | hy
        · exact he
        · have := hx y hy
          omega
      rw [List.filter_eq_self.mpr hkeep]
      simp [RollingWindow.prune,he]

/-- Instants at least `gap` apart. -/
def Spaced (gap : ℕ) (instants : List ℕ) : Prop := instants.Pairwise (fun a b => a + gap ≤ b)

/-- Spaced instants inside an interval are at most one for each gap started. -/
theorem Spaced.length_le {gap : ℕ} {instants : List ℕ} (h : Spaced gap instants) (hgap : 0 < gap) {a l : ℕ}
    (hinside : ∀ t ∈ instants, a ≤ t ∧ t < a + l) : instants.length ≤ (l + gap - 1) / gap := by
  rw [Nat.le_div_iff_mul_le hgap]
  induction instants generalizing a l with
  | nil => simp
  | cons t rest ih =>
    obtain ⟨hnext,hrest⟩ := List.pairwise_cons.mp h
    obtain ⟨⟨hat,htl⟩,hinside⟩ := List.forall_mem_cons.mp hinside
    rw [List.length_cons,Nat.succ_mul]
    cases rest with
    | nil =>
      rw [List.length_nil,Nat.zero_mul]
      omega
    | cons u rest =>
      obtain ⟨-,hul⟩ := hinside u List.mem_cons_self
      have htu := hnext u List.mem_cons_self
      have hshort := @ih hrest (t + gap) (a + l - (t + gap)) fun v hv => by
        have := hnext v hv
        have := (hinside v hv).2
        omega
      omega

end Dwara.Lib.RollingWindow

/-! Budgets counted in fixed windows, one counter for each key. -/

namespace Dwara.Lib.FixedWindow

/-- A counter: when its window began, and what it has used since. -/
structure Counter (τ : Type) where
  start : τ
  used : ℕ
  deriving DecidableEq, Repr

abbrev Counts (κ τ : Type) := κ → Option (Counter τ)

/-- One check of the counter at a key; `lapsed` tells which windows are over by then. -/
structure Charge (κ τ : Type) where
  key : κ
  budget : ℕ
  now : τ
  lapsed : τ → Bool

def Charge.rekey {κ κ' τ : Type} (f : κ → κ') (c : Charge κ τ) : Charge κ' τ := ⟨f c.key,c.budget,c.now,c.lapsed⟩

section Check
variable {κ τ : Type}

/-- Renew the window when it is over, then reserve one unit if the budget allows it. -/
def Charge.spend (c : Charge κ τ) (entry : Option (Counter τ)) : Counter τ × Bool :=
  let entry := entry.getD ⟨c.now,0⟩
  let entry := if c.lapsed entry.start then ⟨c.now,0⟩ else entry
  if c.budget ≤ entry.used then (entry,false) else ({ entry with used := entry.used + 1 },true)

variable [DecidableEq κ]

def check (counts : Counts κ τ) (c : Charge κ τ) : Counts κ τ × Bool :=
  let (entry,admitted) := c.spend (counts c.key)
  (Function.update counts c.key (some entry),admitted)

/-- Every check is made, also after one that found no budget left. -/
def checkAll : Counts κ τ → List (Charge κ τ) → Counts κ τ × Bool
  | counts, [] => (counts,true)
  | counts, c :: cs =>
    let (counts,admitted) := check counts c
    let (counts,rest) := checkAll counts cs
    (counts,admitted && rest)

end Check

section Refinement
variable {κ κ' τ : Type} [DecidableEq κ] [DecidableEq κ']

/-- On the keys in use, the counters of one store are those of another under other keys. -/
def Agree (keys : Set κ) (f : κ → κ') (counts : Counts κ τ) (counts' : Counts κ' τ) : Prop :=
  ∀ k ∈ keys, counts k = counts' (f k)

variable {keys : Set κ} {f : κ → κ'} {counts : Counts κ τ} {counts' : Counts κ' τ}

theorem Agree.update (h : Agree keys f counts counts') (hf : Set.InjOn f keys) {k : κ} (hk : k ∈ keys)
    (entry : Option (Counter τ)) : Agree keys f (Function.update counts k entry) (Function.update counts' (f k) entry) := by
  intro j hj
  by_cases hjk : j = k
  · rw [hjk,Function.update_self,Function.update_self]
  · have hne : f j ≠ f k := fun he => hjk (hf hj hk he)
    rw [Function.update_of_ne hjk,Function.update_of_ne hne]
    exact h j hj

/-- Keys that stay apart give the same verdict and keep their counters. -/
theorem Agree.check (h : Agree keys f counts counts') (hf : Set.InjOn f keys) {c : Charge κ τ} (hc : c.key ∈ keys) :
    Agree keys f (check counts c).1 (check counts' (c.rekey f)).1 ∧
      (FixedWindow.check counts c).2 = (FixedWindow.check counts' (c.rekey f)).2 := by
  have hspend : (c.rekey f).spend (counts' (c.rekey f).key) = c.spend (counts c.key) :=
    congrArg c.spend (h c.key hc).symm
  simp only [FixedWindow.check,hspend]
  exact ⟨h.update hf hc _,trivial⟩

theorem Agree.checkAll (hf : Set.InjOn f keys) {cs : List (Charge κ τ)} (hcs : ∀ c ∈ cs, c.key ∈ keys)
    (h : Agree keys f counts counts') :
    Agree keys f (checkAll counts cs).1 (checkAll counts' (cs.map (Charge.rekey f))).1 ∧
      (FixedWindow.checkAll counts cs).2 = (FixedWindow.checkAll counts' (cs.map (Charge.rekey f))).2 := by
  induction cs generalizing counts counts' with
  | nil => exact ⟨h,rfl⟩
  | cons c cs ih =>
    obtain ⟨hone,hverdict⟩ := h.check hf (hcs c List.mem_cons_self)
    obtain ⟨hall,hrest⟩ := ih (fun d hd => hcs d (List.mem_cons_of_mem c hd)) hone
    refine ⟨hall,?_⟩
    simp only [List.map_cons,FixedWindow.checkAll]
    rw [hverdict,hrest]

end Refinement
end Dwara.Lib.FixedWindow
