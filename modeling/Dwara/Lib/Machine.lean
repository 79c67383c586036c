import Mathlib.Data.List.Induction
import Mathlib.Tactic.TypeStar
import Mathlib.Data.Nat.Notation

/-! Machines that answer every input, and the transitions of their runs. -/

namespace Dwara.Lib

/-- A machine that answers every input it is given. -/
structure Machine (State Input Output : Type*) where
  step : State → Input → State × Output

/-- One step of a run as an observer sees it. -/
structure Transition (State Input Output : Type*) where
  before : State
  input : Input
  output : Output
  after : State

namespace Machine
variable {σ ι ο τ : Type*} (M : Machine σ ι ο)

def next (s : σ) (i : ι) : σ := (M.step s i).1
def answer (s : σ) (i : ι) : ο := (M.step s i).2
def fire (s : σ) (i : ι) : Transition σ ι ο := ⟨s,i,M.answer s i,M.next s i⟩
def run (s : σ) (is : List ι) : σ := is.foldl M.next s

def trace : σ → List ι → List (Transition σ ι ο)
  | _, [] => []
  | s, i :: is => M.fire s i :: trace (M.next s i) is

@[simp] theorem run_nil (s : σ) : M.run s [] = s := rfl
@[simp] theorem run_cons (s : σ) (i : ι) (is : List ι) : M.run s (i :: is) = M.run (M.next s i) is := rfl
@[simp] theorem run_append (s : σ) (xs ys : List ι) : M.run s (xs ++ ys) = M.run (M.run s xs) ys :=
  List.foldl_append

@[simp] theorem trace_nil (s : σ) : M.trace s [] = [] := rfl
@[simp] theorem trace_cons (s : σ) (i : ι) (is : List ι) :
    M.trace s (i :: is) = M.fire s i :: M.trace (M.next s i) is := rfl

theorem trace_append (s : σ) (xs ys : List ι) :
    M.trace s (xs ++ ys) = M.trace s xs ++ M.trace (M.run s xs) ys := by
  induction xs generalizing s with
  | nil => rfl
  | cons i is ih => simp [ih]

theorem map_input_trace (s : σ) (is : List ι) : (M.trace s is).map (·.input) = is := by
  induction is generalizing s with
  | nil => rfl
  | cons i is ih => simp [ih,fire]

@[simp] theorem fire_after (s : σ) (i : ι) : (M.fire s i).after = M.next s i := rfl

theorem input_mem_of_mem_trace {s : σ} {is : List ι} {t : Transition σ ι ο} (ht : t ∈ M.trace s is) :
    t.input ∈ is := by
  rw [← M.map_input_trace s is]
  exact List.mem_map_of_mem ht

/-- Every transition of a run is one the machine fires. -/
theorem fire_of_mem_trace {s : σ} {is : List ι} {t : Transition σ ι ο} (ht : t ∈ M.trace s is) :
    ∃ r i, t = M.fire r i := by
  induction is generalizing s with
  | nil => cases ht
  | cons i is ih =>
    rcases List.mem_cons.mp ht with rfl | ht
    · exact ⟨s,i,rfl⟩
    · exact ih ht

/-- A machine that answers renamed inputs from renamed states in the same way
has the renamed traces. -/
theorem trace_map {σ' ι' ο' : Type*} (N : Machine σ' ι' ο') (f : σ → σ') (g : ι → ι') (h : ο → ο')
    (hstep : ∀ s i, N.step (f s) (g i) = (f (M.next s i),h (M.answer s i))) (s : σ) (is : List ι) :
    N.trace (f s) (is.map g) = (M.trace s is).map (fun t => ⟨f t.before,g t.input,h t.output,f t.after⟩) := by
  induction is generalizing s with
  | nil => rfl
  | cons i is ih =>
    have hnext : N.next (f s) (g i) = f (M.next s i) := congrArg Prod.fst (hstep s i)
    have hanswer : N.answer (f s) (g i) = h (M.answer s i) := congrArg Prod.snd (hstep s i)
    simp only [List.map_cons,trace_cons,fire,hnext,hanswer,ih]

section Spent
variable (rise : σ → ι → ℕ)

/-- What the steps of a run add up to, each metered from the state it is taken from. -/
def spent : σ → List ι → ℕ
  | _, [] => 0
  | s, i :: is => rise s i + spent (M.next s i) is

theorem spent_concat (s : σ) (is : List ι) (i : ι) : M.spent rise s (is ++ [i]) = M.spent rise s is + rise (M.run s is) i := by
  induction is generalizing s with
  | nil => simp [spent]
  | cons j is ih => simp [spent,ih,Nat.add_assoc]

/-- What ties the sum so far to the state, and is kept by every step, holds after every run. -/
theorem spent_inv (P : ℕ → σ → Prop) {s : σ} (h : P 0 s) (is : List ι)
    (hstep : ∀ n s, ∀ i ∈ is, P n s → P (n + rise s i) (M.next s i)) : P (M.spent rise s is) (M.run s is) := by
  induction is using List.reverseRecOn with
  | nil => exact h
  | append_singleton is i ih =>
    rw [spent_concat,run_append]
    exact hstep _ _ i (by simp) (ih fun n s j hj => hstep n s j (by simp [hj]))

end Spent
end Machine
end Dwara.Lib

/-! Calls that run statements one after another, each durable on its own. A statement may
fail, and the caller may stop after any of them. -/

namespace Dwara.Lib.Statements
variable {σ : Type*}

/-- The state after at most `n` statements; the first that fails ends the call. -/
def execute : ℕ → List (σ → Option σ) → σ → σ
  | 0, _, s => s
  | _ + 1, [], s => s
  | n + 1, f :: fs, s =>
    match f s with
    | some s' => execute n fs s'
    | none => s

/-- The state after all statements, when none fails. -/
def perform (fs : List (σ → Option σ)) (s : σ) : Option σ := fs.foldlM (fun s f => f s) s

/-- What every statement keeps, a call keeps wherever it stops. -/
theorem execute_inv {P : σ → Prop} {fs : List (σ → Option σ)} (h : ∀ f ∈ fs, ∀ s s', P s → f s = some s' → P s')
    (n : ℕ) {s : σ} (hs : P s) : P (execute n fs s) := by
  induction fs generalizing n s with
  | nil => cases n <;> exact hs
  | cons f fs ih =>
    cases n with
    | zero => exact hs
    | succ n =>
      rw [execute]
      cases hf : f s with
      | none => exact hs
      | some s' => exact ih (fun g hg => h g (List.mem_cons_of_mem f hg)) n (h f List.mem_cons_self s s' hs hf)

end Dwara.Lib.Statements
