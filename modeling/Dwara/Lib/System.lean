import Mathlib.Data.List.Induction
import Mathlib.Order.Basic
import Mathlib.Tactic.TypeStar

/-! Labelled systems whose labels may be disabled, and their runs. A run is a
list of labels, so it fixes one interleaving of everything that can happen. -/

namespace Dwara.Lib

/-- A labelled system; `step s a = none` when label `a` cannot happen in `s`. -/
structure System (State Label : Type*) where
  init : State
  step : State → Label → Option State

namespace System
variable {σ ι : Type*} (S : System σ ι)

/-- The state a run ends in, when every label of it was enabled. -/
def run (as : List ι) : Option σ := as.foldlM S.step S.init

/-- Every label of the run satisfies `G` in the state it is taken from. -/
def Along (G : σ → ι → Prop) (as : List ι) : Prop :=
  ∀ pre a post s, as = pre ++ a :: post → S.run pre = some s → G s a

@[simp] theorem run_nil : S.run [] = some S.init := rfl

theorem run_append (xs ys : List ι) : S.run (xs ++ ys) = (S.run xs).bind (ys.foldlM S.step) := by
  simp [run,List.foldlM_append]

theorem run_concat (as : List ι) (a : ι) : S.run (as ++ [a]) = (S.run as).bind (S.step · a) := by
  rw [run_append]
  congr
  funext s
  simp

theorem run_concat_eq_some {as : List ι} {a : ι} {s : σ} :
    S.run (as ++ [a]) = some s ↔ ∃ r, S.run as = some r ∧ S.step r a = some s := by
  rw [run_concat,Option.bind_eq_some_iff]

variable {S}

theorem Along.init {G : σ → ι → Prop} {as bs : List ι} (h : S.Along G (as ++ bs)) : S.Along G as :=
  fun pre b post s he hr => h pre b (post ++ bs) s (by simp [he]) hr

theorem Along.last {G : σ → ι → Prop} {as : List ι} {a : ι} (h : S.Along G (as ++ [a])) {s : σ}
    (hr : S.run as = some s) : G s a :=
  h as a [] s rfl hr

/-- The first label of several is taken. -/
theorem foldlM_cons_of_step {s t : σ} {a : ι} {as : List ι} (h : S.step s a = some t) :
    (a :: as).foldlM S.step s = as.foldlM S.step t := by
  rw [List.foldlM_cons,h]
  rfl

/-- `Along`, checked label by label from a given state on. -/
def AlongFrom (S : System σ ι) (G : σ → ι → Prop) : σ → List ι → Prop
  | _, [] => True
  | s, a :: as => G s a ∧ match S.step s a with | some s' => AlongFrom S G s' as | none => True

instance decidableAlongFrom (S : System σ ι) (G : σ → ι → Prop) [∀ s a, Decidable (G s a)] :
    (s : σ) → (as : List ι) → Decidable (AlongFrom S G s as)
  | _, [] => isTrue trivial
  | s, a :: as =>
    have : Decidable (match S.step s a with | some s' => AlongFrom S G s' as | none => True) :=
      match S.step s a with
      | some s' => decidableAlongFrom S G s' as
      | none => isTrue trivial
    inferInstanceAs (Decidable (_ ∧ _))

private theorem alongFrom_apply {G : σ → ι → Prop} {s t : σ} {pre post : List ι} {a : ι}
    (h : AlongFrom S G s (pre ++ a :: post)) (ht : pre.foldlM S.step s = some t) : G t a := by
  induction pre generalizing s with
  | nil =>
    obtain rfl := Option.some.inj ht
    exact h.1
  | cons b pre ih =>
    obtain ⟨s',hs',ht⟩ := Option.bind_eq_some_iff.mp ht
    have hrest := h.2
    rw [hs'] at hrest
    exact ih hrest ht

theorem along_of_alongFrom {G : σ → ι → Prop} {as : List ι} (h : AlongFrom S G S.init as) : S.Along G as := by
  rintro pre a post s rfl hr
  exact alongFrom_apply h hr

/-- What holds in a state and is kept by every guarded step holds wherever guarded steps
lead from there. -/
theorem alongFrom_inv {G : σ → ι → Prop} (P : σ → Prop) (hstep : ∀ s a s', P s → G s a → S.step s a = some s' → P s') {as : List ι}
    {s t : σ} (hP : P s) (hG : AlongFrom S G s as) (ht : as.foldlM S.step s = some t) : P t := by
  induction as generalizing s with
  | nil =>
    obtain rfl := Option.some.inj ht
    exact hP
  | cons a as ih =>
    obtain ⟨s',hs',ht⟩ := Option.bind_eq_some_iff.mp ht
    have hrest := hG.2
    rw [hs'] at hrest
    exact ih (hstep s a s' hP hG.1 hs') hrest ht

/-- What holds at the start and is kept by every guarded step holds after
every guarded run. -/
theorem guarded_inv {G : σ → ι → Prop} (P : σ → Prop) (hinit : P S.init)
    (hstep : ∀ s a s', P s → G s a → S.step s a = some s' → P s') {as : List ι} (hG : S.Along G as) {s : σ}
    (hr : S.run as = some s) : P s := by
  induction as using List.reverseRecOn generalizing s with
  | nil =>
    obtain rfl := Option.some.inj hr
    exact hinit
  | append_singleton as a ih =>
    obtain ⟨r,hr,hs⟩ := (run_concat_eq_some S).mp hr
    exact hstep r a s (ih hG.init hr) (hG.last hr) hs

/-- What holds at the start and is kept by every step holds after every run. -/
theorem run_inv (P : σ → Prop) (hinit : P S.init) (hstep : ∀ s a s', P s → S.step s a = some s' → P s') {as : List ι} {s : σ}
    (hr : S.run as = some s) : P s := by
  have htrue : S.Along (fun _ _ => True) as := fun _ _ _ _ _ _ => trivial
  exact guarded_inv P hinit (fun s a s' h _ hs => hstep s a s' h hs) htrue hr

/-- Where a step keeps what held before it, and does as it should, just when its label is
guarded, all of a run does just when the whole run is guarded. -/
theorem forall_prefix_and_along_iff {G L : σ → ι → Prop} (P : σ → Prop) (hinit : P S.init)
    (hstep : ∀ s a s', P s → S.step s a = some s' → (P s' ∧ L s a ↔ G s a)) {as : List ι} {s : σ} (hr : S.run as = some s) :
    (∀ pre post r, as = pre ++ post → S.run pre = some r → P r) ∧ S.Along L as ↔ S.Along G as := by
  have hnext : ∀ pre a post r, as = pre ++ a :: post → S.run pre = some r → ∃ r', S.step r a = some r' := by
    rintro pre a post r rfl hpre
    rw [run_append,hpre,Option.bind_some,List.foldlM_cons] at hr
    obtain ⟨r',hr',_⟩ := Option.bind_eq_some_iff.mp hr
    exact ⟨r',hr'⟩
  constructor
  · rintro ⟨hall,hL⟩ pre a post r he hpre
    obtain ⟨r',hr'⟩ := hnext pre a post r he hpre
    have hP := hall (pre ++ [a]) post r' (by simp [he]) ((run_concat_eq_some S).mpr ⟨r,hpre,hr'⟩)
    exact (hstep r a r' (hall pre (a :: post) r he hpre) hr').mp ⟨hP,hL pre a post r he hpre⟩
  · intro hAlong
    have hall : ∀ pre post r, as = pre ++ post → S.run pre = some r → P r := by
      rintro pre post r rfl hpre
      exact guarded_inv P hinit (fun t a t' ht hg hs => ((hstep t a t' ht hs).mpr hg).1) hAlong.init hpre
    refine ⟨hall,?_⟩
    intro pre a post r he hpre
    obtain ⟨r',hr'⟩ := hnext pre a post r he hpre
    exact ((hstep r a r' (hall pre (a :: post) r he hpre) hr').mpr (hAlong pre a post r he hpre)).2

/-- Where a step keeps what held before it just when its label is guarded, all of a run
keeps it just when the whole run is. -/
theorem forall_prefix_iff_along {G : σ → ι → Prop} (P : σ → Prop) (hinit : P S.init)
    (hstep : ∀ s a s', P s → S.step s a = some s' → (P s' ↔ G s a)) {as : List ι} {s : σ} (hr : S.run as = some s) :
    (∀ pre post r, as = pre ++ post → S.run pre = some r → P r) ↔ S.Along G as := by
  have hboth : ∀ s a s', P s → S.step s a = some s' → (P s' ∧ True ↔ G s a) := fun s a s' hP hs => by
    rw [and_true,hstep s a s' hP hs]
  have h := forall_prefix_and_along_iff P hinit hboth hr
  have htrue : S.Along (fun _ _ => True) as := fun _ _ _ _ _ _ => trivial
  rwa [and_iff_left htrue] at h

/-- A guard every label satisfies holds along the run. -/
theorem along_of_forall_mem {G : ι → Prop} {as : List ι} (h : ∀ a ∈ as, G a) : S.Along (fun _ a => G a) as := by
  rintro pre a post s rfl -
  exact h a (by simp)

/-- A reflexive and transitive relation every step is in relates a run to its extension. -/
theorem extension_related (R : σ → σ → Prop) [Std.Refl R] [IsTrans σ R] (hstep : ∀ s a s', S.step s a = some s' → R s s')
    {xs ys : List ι} {s s' : σ} (hs : S.run xs = some s) (hs' : S.run (xs ++ ys) = some s') : R s s' := by
  induction ys using List.reverseRecOn generalizing s' with
  | nil =>
    rw [List.append_nil,hs] at hs'
    obtain rfl := Option.some.inj hs'
    exact refl_of R s
  | append_singleton ys a ih =>
    rw [← List.append_assoc] at hs'
    obtain ⟨r,hr,hstep'⟩ := (run_concat_eq_some S).mp hs'
    exact trans_of R (ih hr) (hstep r a s' hstep')

/-- A measure no step lowers does not fall between a run and its extension. -/
theorem measure_mono {μ : Type*} [Preorder μ] (m : σ → μ) (hstep : ∀ s a s', S.step s a = some s' → m s ≤ m s')
    {xs ys : List ι} {s s' : σ} (hs : S.run xs = some s) (hs' : S.run (xs ++ ys) = some s') : m s ≤ m s' := by
  have : Std.Refl (fun s s' : σ => m s ≤ m s') := ⟨fun s => le_refl (m s)⟩
  have : IsTrans σ (fun s s' : σ => m s ≤ m s') := ⟨fun _ _ _ => le_trans⟩
  exact extension_related (fun s s' => m s ≤ m s') hstep hs hs'

end System

/-- Every entry of a log satisfies `P` with those before it. -/
def EachEntry {α : Type*} (P : List α → α → Prop) (log : List α) : Prop := ∀ pre a post, log = pre ++ a :: post → P pre a

namespace EachEntry
variable {α : Type*} {P : List α → α → Prop} {log : List α} {a : α}

theorem nil : EachEntry P [] := fun pre a post h => by
  cases pre <;> cases h

theorem concat (h : EachEntry P log) (ha : P log a) : EachEntry P (log ++ [a]) := by
  intro pre b post he
  induction post using List.reverseRecOn with
  | nil =>
    obtain ⟨rfl,hb⟩ := List.append_inj' he rfl
    obtain rfl := List.singleton_inj.mp hb
    exact ha
  | append_singleton post c _ =>
    rw [← List.cons_append,← List.append_assoc] at he
    exact h pre b post (List.append_inj' he rfl).1

end EachEntry
end Dwara.Lib
