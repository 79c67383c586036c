import Dwara.Lib.CivilDate
import Dwara.Lib.Calendar
import Mathlib.Algebra.Group.Nat.Defs
import Mathlib.Data.List.Basic
import Mathlib.Order.Bounds.Basic

/-! Request budgets of a consumer: their calendar windows, and a check of every budget
over counters that are kept elsewhere. Times are epoch seconds. -/

namespace Dwara.Config.Quotas
open Dwara.Lib.CivilDate

structure ConsumerQuotas where
  dailyRequests : Option ℕ
  monthlyRequests : Option ℕ
  deriving DecidableEq, Repr

inductive Budget where
  | daily
  | monthly
  deriving DecidableEq, Repr

def secsPerDay : ℤ := 86400

/-- The UTC day around `now`: its start, and the start of the next one. -/
def dayWindow (now : ℤ) : ℤ × ℤ :=
  let start := now / secsPerDay * secsPerDay
  (start,start + secsPerDay)

/-- The UTC month around `now`: its start, and the start of the next one. -/
def monthWindow (now : ℤ) : ℤ × ℤ :=
  let (y,m,_) := civilFromDays (now / secsPerDay)
  let (ny,nm) := if m = 12 then (y + 1,1) else (y,m + 1)
  (daysFromCivil y m 1 * secsPerDay,daysFromCivil ny nm 1 * secsPerDay)

/-- Seconds until the reset, at least one, as a 32-bit number. -/
def retryAfter (reset now : ℤ) : ℕ :=
  let wait := (max (reset - now) 1).toNat
  if wait < 2 ^ 32 then wait else 1

namespace Budget

def key : Budget → String
  | .daily => "daily"
  | .monthly => "monthly"

def limit : Budget → ConsumerQuotas → Option ℕ
  | .daily, quotas => quotas.dailyRequests
  | .monthly, quotas => quotas.monthlyRequests

def window : Budget → ℤ → ℤ × ℤ
  | .daily, now => dayWindow now
  | .monthly, now => monthWindow now

/-- Both budgets, in the order of evaluation. -/
def all : List Budget := [.daily,.monthly]

/-- Seconds a client waits for the budget to become whole. -/
def wait (b : Budget) (now : ℤ) : ℕ := retryAfter (b.window now).2 now

/-- The longest a window lasts, in seconds. -/
def span : Budget → ℤ
  | .daily => secsPerDay
  | .monthly => 31 * secsPerDay

theorem mem_all (b : Budget) : b ∈ all := by
  cases b with
  | daily => exact List.mem_cons_self
  | monthly => exact List.mem_cons_of_mem _ List.mem_cons_self

theorem all_nodup : all.Nodup := by decide

theorem key_injective {b c : Budget} (h : b.key = c.key) : b = c := by
  cases b with
  | daily =>
    cases c with
    | daily => rfl
    | monthly => exact absurd h (by decide)
  | monthly =>
    cases c with
    | daily => exact absurd h (by decide)
    | monthly => rfl

/-- A window starts no later than the times it holds, and lasts at most its span. -/
theorem window_holds (b : Budget) (now : ℤ) : (b.window now).1 ≤ now ∧ now < (b.window now).1 + b.span := by
  cases b with
  | daily =>
    simp only [window,dayWindow,span,secsPerDay]
    omega
  | monthly =>
    have hday := civilFromDays_day (now / secsPerDay)
    have hstart := daysFromCivil_civilFromDays (now / secsPerDay) 1
    simp only [window,monthWindow,span]
    generalize hdays : now / secsPerDay = z at *
    rw [hstart]
    rw [secsPerDay] at *
    omega

end Budget

inductive QuotaOutcome where
  | notQuotaed
  | allowed (limit remaining reset : ℕ)
  | denied (limit remaining reset retryAfter : ℕ) (budget : Budget)
  | unavailable
  deriving DecidableEq, Repr

/-- What a counter answers to one unit: the count with it or without it, or a failure;
`skipped` and `refused` are the two policies for a counter out of reach. -/
inductive Spend where
  | counted (usedAfter : ℕ)
  | exhausted (used : ℕ)
  | unknownConsumer
  | unavailable
  | skipped
  | refused
  deriving DecidableEq, Repr

/-- Counters of one consumer: spend one unit of a window, or read its count. -/
structure Counters (σ : Type*) where
  spend : σ → Budget → ℤ → ℕ → Spend × σ
  peek : σ → Budget → ℤ → Option ℕ

/-- The constraint that binds a success: limit, remaining and reset. -/
abbrev Binding := Option (ℕ × ℕ × ℕ)

def Binding.tighten (binding : Binding) (limit remaining reset : ℕ) : Binding :=
  match binding with
  | none => some (limit,remaining,reset)
  | some (_,best,_) => if remaining < best then some (limit,remaining,reset) else binding

/-- One request to be checked. -/
structure QuotaCheck where
  consumerId : ℤ
  quotas : ConsumerQuotas
  now : ℤ

section Check
variable {σ : Type*} (C : Counters σ) (quotas : ConsumerQuotas) (now : ℤ)

/-- Wait and reset of a denial, after a look at budget `later`. -/
def stretch (s : σ) (budget : Budget) (acc : ℕ × ℕ) (later : Budget) : ℕ × ℕ :=
  if later = budget then acc
  else
    match later.limit quotas with
    | none => acc
    | some limit =>
      match C.peek s later (later.window now).1 with
      | none => acc
      | some used => if limit ≤ used ∧ acc.1 < later.wait now then (later.wait now,(later.window now).2.natAbs) else acc

def deny (s : σ) (budget : Budget) (limit used : ℕ) : QuotaOutcome :=
  let (retry,reset) := Budget.all.foldl (stretch C quotas now s budget) (budget.wait now,(budget.window now).2.natAbs)
  .denied limit (limit - used) reset retry budget

/-- The budgets in order, up to the first that denies. -/
def checkFrom : List Budget → Binding → σ → QuotaOutcome × σ
  | [], none, s => (.notQuotaed,s)
  | [], some (limit,remaining,reset), s => (.allowed limit remaining reset,s)
  | budget :: budgets, binding, s =>
    match budget.limit quotas with
    | none => checkFrom budgets binding s
    | some limit =>
      match C.spend s budget (budget.window now).1 limit with
      | (.counted used,s') => checkFrom budgets (binding.tighten limit (limit - used) (budget.window now).2.natAbs) s'
      | (.exhausted used,s') => (deny C quotas now s' budget limit used,s')
      | (.unknownConsumer,s') => (.notQuotaed,s')
      | (.unavailable,s') => (.unavailable,s')
      | (.skipped,s') => checkFrom budgets binding s'
      | (.refused,s') => (.denied limit 0 (budget.window now).2.natAbs (budget.wait now) budget,s')

end Check

section Spends
variable {σ τ : Type*} {C : Counters σ} {D : Counters τ} {quotas : ConsumerQuotas} {now : ℤ}

/-- Two kinds of counters that answer alike are checked alike. -/
theorem checkFrom_simulates (R : σ → τ → Prop)
    (hspend : ∀ s t b limit, R s t → b.limit quotas = some limit →
      (C.spend s b (b.window now).1 limit).1 = (D.spend t b (b.window now).1 limit).1 ∧
        R (C.spend s b (b.window now).1 limit).2 (D.spend t b (b.window now).1 limit).2)
    (hpeek : ∀ s t (b : Budget), R s t → C.peek s b (b.window now).1 = D.peek t b (b.window now).1) (budgets : List Budget)
    (binding : Binding) {s : σ} {t : τ} (h : R s t) :
    (checkFrom C quotas now budgets binding s).1 = (checkFrom D quotas now budgets binding t).1 ∧
      R (checkFrom C quotas now budgets binding s).2 (checkFrom D quotas now budgets binding t).2 := by
  have hdeny : ∀ s t budget limit used, R s t → deny C quotas now s budget limit used = deny D quotas now t budget limit used := by
    intro s t budget limit used h
    have hstretch : stretch C quotas now s budget = stretch D quotas now t budget := by
      funext acc later
      rw [stretch,stretch,hpeek s t later h]
    rw [deny,deny,hstretch]
  induction budgets generalizing binding s t with
  | nil =>
    rcases binding with _ | ⟨limit,remaining,reset⟩
    · exact ⟨rfl,h⟩
    · exact ⟨rfl,h⟩
  | cons budget budgets ih =>
    rw [checkFrom,checkFrom]
    cases hl : budget.limit quotas with
    | none => exact ih binding h
    | some limit =>
      simp only
      obtain ⟨hanswer,hstep⟩ := hspend s t budget limit h hl
      rcases hs : C.spend s budget (budget.window now).1 limit with ⟨a,s'⟩
      rcases ht : D.spend t budget (budget.window now).1 limit with ⟨b,t'⟩
      rw [hs,ht] at hanswer hstep
      obtain rfl : a = b := hanswer
      cases a with
      | counted used => exact ih _ hstep
      | exhausted used => exact ⟨hdeny s' t' budget limit used hstep,hstep⟩
      | unknownConsumer => exact ⟨rfl,hstep⟩
      | unavailable => exact ⟨rfl,hstep⟩
      | skipped => exact ih _ hstep
      | refused => exact ⟨rfl,hstep⟩

/-- The state is reached by spending on some of the configured budgets, in order. -/
inductive Spends (C : Counters σ) (quotas : ConsumerQuotas) (now : ℤ) : List Budget → σ → σ → Prop
  | stop {budgets : List Budget} {s : σ} : Spends C quotas now budgets s s
  | skip {b : Budget} {budgets : List Budget} {s s' : σ} (h : Spends C quotas now budgets s s') : Spends C quotas now (b :: budgets) s s'
  | spend {b : Budget} {budgets : List Budget} {limit : ℕ} {s s' : σ} (hl : b.limit quotas = some limit)
      (h : Spends C quotas now budgets (C.spend s b (b.window now).1 limit).2 s') : Spends C quotas now (b :: budgets) s s'

theorem checkFrom_spends (budgets : List Budget) (binding : Binding) (s : σ) :
    Spends C quotas now budgets s (checkFrom C quotas now budgets binding s).2 := by
  induction budgets generalizing binding s with
  | nil =>
    rcases binding with _ | ⟨limit,remaining,reset⟩
    · exact .stop
    · exact .stop
  | cons budget budgets ih =>
    rw [checkFrom]
    cases hl : budget.limit quotas with
    | none => exact .skip (ih binding s)
    | some limit =>
      simp only
      have hlast : Spends C quotas now (budget :: budgets) s (C.spend s budget (budget.window now).1 limit).2 := .spend hl .stop
      rcases hs : C.spend s budget (budget.window now).1 limit with ⟨a,s'⟩
      rw [hs] at hlast
      have hnext : ∀ binding, Spends C quotas now (budget :: budgets) s (checkFrom C quotas now budgets binding s').2 := by
        intro binding
        refine .spend hl ?_
        rw [hs]
        exact ih binding s'
      cases a with
      | counted used => exact hnext _
      | skipped => exact hnext _
      | _ => exact hlast

/-- What one budget's spend does, every other budget's leaving `Q` between the states,
is done at most once. -/
theorem Spends.at_most_once (Q : σ → σ → Prop) [Std.Refl Q] [IsTrans σ Q] (P : ℕ → σ → σ → Prop) (b₀ : Budget)
    (hother : ∀ b, b ≠ b₀ → ∀ s limit, b.limit quotas = some limit → Q s (C.spend s b (b.window now).1 limit).2)
    (hspend : ∀ s limit, b₀.limit quotas = some limit →
      Q s (C.spend s b₀ (b₀.window now).1 limit).2 ∨ P limit s (C.spend s b₀ (b₀.window now).1 limit).2)
    {budgets : List Budget} {s s' : σ} (h : Spends C quotas now budgets s s') (hnodup : budgets.Nodup) :
    Q s s' ∨ ∃ limit r r', b₀.limit quotas = some limit ∧ b₀ ∈ budgets ∧ Q s r ∧ P limit r r' ∧ Q r' s' := by
  induction h with
  | stop => exact .inl (refl_of Q _)
  | skip h ih =>
    obtain ⟨-,hnodup⟩ := List.nodup_cons.mp hnodup
    rcases ih hnodup with hq | ⟨limit,r,r',hl,hmem,hrest⟩
    · exact .inl hq
    · exact .inr ⟨limit,r,r',hl,List.mem_cons_of_mem _ hmem,hrest⟩
  | @spend b budgets limit s s' hl h ih =>
    obtain ⟨hnot,hnodup⟩ := List.nodup_cons.mp hnodup
    by_cases hb : b = b₀
    · obtain rfl := hb
      have hrest : Q (C.spend s b (b.window now).1 limit).2 s' := by
        rcases ih hnodup with hq | ⟨-,-,-,-,hmem,-⟩
        · exact hq
        · exact absurd hmem hnot
      rcases hspend s limit hl with hq | hp
      · exact .inl (trans_of Q hq hrest)
      · exact .inr ⟨limit,s,_,hl,List.mem_cons_self,refl_of Q _,hp,hrest⟩
    · have hfirst := hother b hb s limit hl
      rcases ih hnodup with hq | ⟨l,r,r',hl',hmem,hq,hp,hq'⟩
      · exact .inl (trans_of Q hfirst hq)
      · exact .inr ⟨l,r,r',hl',List.mem_cons_of_mem _ hmem,trans_of Q hfirst hq,hp,hq'⟩

end Spends

section Denials
variable {σ : Type*} {C : Counters σ} {quotas : ConsumerQuotas} {now : ℤ} {budgets : List Budget} {binding : Binding} {s s' : σ}
  {limit remaining reset retry : ℕ} {b : Budget}

/-- A denial comes from the last budget tried: its counter was exhausted or out of reach. -/
theorem checkFrom_denied (h : checkFrom C quotas now budgets binding s = (.denied limit remaining reset retry b,s')) :
    ∃ r, b.limit quotas = some limit ∧ b ∈ budgets ∧
      ((∃ used, C.spend r b (b.window now).1 limit = (.exhausted used,s') ∧
          deny C quotas now s' b limit used = .denied limit remaining reset retry b) ∨
        C.spend r b (b.window now).1 limit = (.refused,s')) := by
  induction budgets generalizing binding s with
  | nil => rcases binding with _ | ⟨l,r,t⟩ <;> cases h
  | cons budget budgets ih =>
    rw [checkFrom] at h
    cases hl : budget.limit quotas with
    | none =>
      rw [hl] at h
      obtain ⟨r,hlimit,hmem,hlast⟩ := ih h
      exact ⟨r,hlimit,List.mem_cons_of_mem _ hmem,hlast⟩
    | some l =>
      rw [hl] at h
      simp only at h
      rcases hs : C.spend s budget (budget.window now).1 l with ⟨a,t⟩
      rw [hs] at h
      cases a with
      | counted used =>
        obtain ⟨r,hlimit,hmem,hlast⟩ := ih h
        exact ⟨r,hlimit,List.mem_cons_of_mem _ hmem,hlast⟩
      | skipped =>
        obtain ⟨r,hlimit,hmem,hlast⟩ := ih h
        exact ⟨r,hlimit,List.mem_cons_of_mem _ hmem,hlast⟩
      | exhausted used =>
        obtain ⟨hdeny,rfl⟩ := Prod.mk.inj h
        have hfields := hdeny
        rw [deny] at hfields
        injection hfields with hlimit _ _ _ hb
        subst hlimit
        subst hb
        exact ⟨s,hl,List.mem_cons_self,.inl ⟨used,hs,hdeny⟩⟩
      | refused =>
        obtain ⟨hdeny,rfl⟩ := Prod.mk.inj h
        injection hdeny with hlimit _ _ _ hb
        subst hlimit
        subst hb
        exact ⟨s,hl,List.mem_cons_self,.inr hs⟩
      | unknownConsumer => cases (Prod.mk.inj h).1
      | unavailable => cases (Prod.mk.inj h).1

/-- A request refused by the first of several budgets spends nothing. -/
theorem checkFrom_denied_first
    (hkeep : ∀ s s' b start limit, (∃ used, C.spend s b start limit = (.exhausted used,s')) ∨ C.spend s b start limit = (.refused,s') → s' = s)
    (hfirst : b ∉ budgets) (h : checkFrom C quotas now (b :: budgets) binding s = (.denied limit remaining reset retry b,s')) : s' = s := by
  have hlater : ∀ {binding r}, checkFrom C quotas now budgets binding r ≠ (.denied limit remaining reset retry b,s') := by
    intro binding r h
    obtain ⟨-,-,hmem,-⟩ := checkFrom_denied h
    exact hfirst hmem
  rw [checkFrom] at h
  cases hl : b.limit quotas with
  | none =>
    rw [hl] at h
    exact absurd h hlater
  | some l =>
    rw [hl] at h
    simp only at h
    rcases hs : C.spend s b (b.window now).1 l with ⟨a,t⟩
    rw [hs] at h
    cases a with
    | counted used => exact absurd h hlater
    | skipped => exact absurd h hlater
    | exhausted used =>
      obtain ⟨-,rfl⟩ := Prod.mk.inj h
      exact hkeep _ _ _ _ _ (.inl ⟨used,hs⟩)
    | refused =>
      obtain ⟨-,rfl⟩ := Prod.mk.inj h
      exact hkeep _ _ _ _ _ (.inr hs)
    | unknownConsumer => cases (Prod.mk.inj h).1
    | unavailable => cases (Prod.mk.inj h).1

/-- The budget is configured, and its counter has reached the limit. -/
def Exhausted (C : Counters σ) (quotas : ConsumerQuotas) (now : ℤ) (s : σ) (b : Budget) : Prop :=
  ∃ limit used, b.limit quotas = some limit ∧ C.peek s b (b.window now).1 = some used ∧ limit ≤ used

section Wait
variable (C) (quotas) (now)

private theorem stretch_wait (s : σ) (budget : Budget) (acc : ℕ × ℕ) (later : Budget) :
    acc.1 ≤ (stretch C quotas now s budget acc later).1 ∧
      ((stretch C quotas now s budget acc later).1 = acc.1 ∨
        Exhausted C quotas now s later ∧ (stretch C quotas now s budget acc later).1 = later.wait now) ∧
      (Exhausted C quotas now s later → later ≠ budget → later.wait now ≤ (stretch C quotas now s budget acc later).1) := by
  rw [stretch]
  by_cases hb : later = budget
  · rw [if_pos hb]
    exact ⟨le_refl _,.inl rfl,fun _ hne => absurd hb hne⟩
  · rw [if_neg hb]
    cases hl : later.limit quotas with
    | none => exact ⟨le_refl _,.inl rfl,fun ⟨l,_,hlimit,_⟩ _ => absurd (hl.symm.trans hlimit) (by simp)⟩
    | some limit =>
      cases hp : C.peek s later (later.window now).1 with
      | none => exact ⟨le_refl _,.inl rfl,fun ⟨_,u,_,hused,_⟩ _ => absurd (hp.symm.trans hused) (by simp)⟩
      | some used =>
        simp only
        split
        · rename_i h
          exact ⟨h.2.le,.inr ⟨⟨limit,used,hl,hp,h.1⟩,rfl⟩,fun _ _ => le_refl _⟩
        · rename_i h
          refine ⟨le_refl _,.inl rfl,?_⟩
          rintro ⟨l,u,hlimit,hused,hle⟩ -
          obtain rfl := Option.some.inj (hl.symm.trans hlimit)
          obtain rfl := Option.some.inj (hp.symm.trans hused)
          by_contra hlt
          exact h ⟨hle,not_le.mp hlt⟩

private theorem foldl_stretch_wait (s : σ) (budget : Budget) (laters : List Budget) (acc : ℕ × ℕ) :
    acc.1 ≤ (laters.foldl (stretch C quotas now s budget) acc).1 ∧
      ((laters.foldl (stretch C quotas now s budget) acc).1 = acc.1 ∨
        ∃ later, Exhausted C quotas now s later ∧ (laters.foldl (stretch C quotas now s budget) acc).1 = later.wait now) ∧
      ∀ later ∈ laters, Exhausted C quotas now s later → later ≠ budget →
        later.wait now ≤ (laters.foldl (stretch C quotas now s budget) acc).1 := by
  induction laters generalizing acc with
  | nil => exact ⟨le_refl _,.inl rfl,fun later h => absurd h List.not_mem_nil⟩
  | cons first laters ih =>
    obtain ⟨hle,hfrom,hmax⟩ := stretch_wait C quotas now s budget acc first
    obtain ⟨hle',hfrom',hmax'⟩ := ih (stretch C quotas now s budget acc first)
    rw [List.foldl_cons]
    refine ⟨le_trans hle hle',?_,?_⟩
    · rcases hfrom' with he | hlater
      · rcases hfrom with he' | ⟨hexhausted,he'⟩
        · exact .inl (he.trans he')
        · exact .inr ⟨first,hexhausted,he.trans he'⟩
      · exact .inr hlater
    · intro later hmem hexhausted hne
      rcases List.mem_cons.mp hmem with rfl | hmem
      · exact le_trans (hmax hexhausted hne) hle'
      · exact hmax' later hmem hexhausted hne

end Wait

/-- The wait of a denial by an exhausted budget is the longest of all exhausted budgets. -/
theorem deny_wait {used : ℕ} (hb : Exhausted C quotas now s' b)
    (h : deny C quotas now s' b limit used = .denied limit remaining reset retry b) :
    IsGreatest {w | ∃ c, Exhausted C quotas now s' c ∧ w = c.wait now} retry := by
  obtain ⟨hle,hfrom,hmax⟩ := foldl_stretch_wait C quotas now s' b Budget.all
    (b.wait now,(b.window now).2.natAbs)
  rw [deny] at h
  injection h with _ _ _ hretry _
  rw [← hretry]
  constructor
  · rcases hfrom with he | ⟨later,hlater,he⟩
    · exact ⟨b,hb,he⟩
    · exact ⟨later,hlater,he⟩
  · rintro w ⟨c,hc,rfl⟩
    by_cases hcb : c = b
    · rw [hcb]
      exact hle
    · exact hmax c c.mem_all hc hcb

end Denials
end Dwara.Config.Quotas

/-! The calendar windows of request budgets tile the civil calendar. -/

namespace Dwara.Config.Quotas
open Dwara.Lib.CivilDate

/-- The second that starts a civil date in UTC. -/
def Midnight (second : ℤ) (date : ℤ × ℤ × ℤ) : Prop :=
  second % secsPerDay = 0 ∧ civilFromDays (second / secsPerDay) = date

instance (second : ℤ) (date : ℤ × ℤ × ℤ) : Decidable (Midnight second date) := inferInstanceAs (Decidable (_ ∧ _))

private theorem midnight_day {days : ℤ} {date : ℤ × ℤ × ℤ} (h : civilFromDays days = date) : Midnight (days * secsPerDay) date := by
  have hday : days * secsPerDay / secsPerDay = days := by
    rw [secsPerDay]
    omega
  refine ⟨?_,by rw [hday,h]⟩
  rw [secsPerDay]
  omega

/-- The first day of a month of the calendar. -/
private theorem civilFromDays_first {y m : ℤ} (h₀ : 1 ≤ m) (h₁ : m ≤ 12) : civilFromDays (daysFromCivil y m 1) = (y,m,1) := by
  have hdays := daysInMonth_pos y m
  rw [civilFromDays_of_month h₀ h₁ (Int.le_refl _) (by omega)]
  simp

section Windows
variable {now y m d : ℤ} (hdate : civilFromDays (now / secsPerDay) = (y,m,d))
include hdate

theorem monthWindow_eq :
    monthWindow now = (daysFromCivil y m 1 * secsPerDay,daysFromCivil (nextMonth y m).1 (nextMonth y m).2 1 * secsPerDay) := by
  rw [monthWindow,hdate]
  rfl

private theorem month_of_date : (1 ≤ m ∧ m ≤ 12) ∧ 1 ≤ d ∧ d ≤ daysInMonth y m := by
  have hvalid := civilFromDays_valid (now / secsPerDay)
  rw [hdate] at hvalid
  exact hvalid

/-- The window spans the days of its month. -/
theorem monthWindow_snd : (monthWindow now).2 = (monthWindow now).1 + daysInMonth y m * secsPerDay := by
  obtain ⟨⟨h₀,h₁⟩,-⟩ := month_of_date hdate
  rw [monthWindow_eq hdate,daysFromCivil_nextMonth h₀ h₁,Int.add_mul]

/-- The day of `now` is in the month the window starts. -/
theorem monthWindow_fst : (monthWindow now).1 = (now / secsPerDay - d + 1) * secsPerDay := by
  have hday := daysFromCivil_civilFromDays (now / secsPerDay) 1
  rw [hdate] at hday
  rw [monthWindow_eq hdate,hday]

theorem monthWindow_holds : (monthWindow now).1 ≤ now ∧ now < (monthWindow now).2 := by
  obtain ⟨-,hd₀,hd₁⟩ := month_of_date hdate
  rw [monthWindow_snd hdate,monthWindow_fst hdate]
  rw [secsPerDay] at *
  omega

/-- Every instant of a month has the window of that month. -/
theorem monthWindow_of_holds {t : ℤ} (hlo : (monthWindow now).1 ≤ t) (hhi : t < (monthWindow now).2) :
    monthWindow t = monthWindow now := by
  obtain ⟨⟨h₀,h₁⟩,-⟩ := month_of_date hdate
  rw [monthWindow_snd hdate] at hhi
  rw [monthWindow_eq hdate] at hlo hhi
  have hmonth := civilFromDays_of_month (y := y) (z := t / secsPerDay) h₀ h₁
    (by rw [secsPerDay] at *; omega) (by rw [secsPerDay] at *; omega)
  rw [monthWindow_eq hmonth,monthWindow_eq hdate]

theorem monthWindow_midnights :
    Midnight (monthWindow now).1 (y,m,1) ∧ Midnight (monthWindow now).2 ((nextMonth y m).1,(nextMonth y m).2,1) := by
  obtain ⟨⟨h₀,h₁⟩,-⟩ := month_of_date hdate
  obtain ⟨hn₀,hn₁⟩ := nextMonth_month (y := y) h₀ h₁
  rw [monthWindow_eq hdate]
  exact ⟨midnight_day (civilFromDays_first h₀ h₁),midnight_day (civilFromDays_first hn₀ hn₁)⟩

/-- The next window starts where this one ends. -/
theorem monthWindow_next : (monthWindow (monthWindow now).2).1 = (monthWindow now).2 := by
  obtain ⟨hmidnight,hdate'⟩ := (monthWindow_midnights hdate).2
  rw [monthWindow_fst hdate']
  rw [secsPerDay] at *
  omega

theorem dayWindow_midnights : Midnight (dayWindow now).1 (y,m,d) ∧ Midnight (dayWindow now).2 (nextDate (y,m,d)) := by
  have hend : (dayWindow now).2 = (now / secsPerDay + 1) * secsPerDay := by
    rw [Int.add_mul,Int.one_mul]
    rfl
  rw [hend]
  exact ⟨midnight_day hdate,midnight_day (by rw [civilFromDays_succ,hdate])⟩

theorem dayWindow_within_month : (monthWindow now).1 ≤ (dayWindow now).1 ∧ (dayWindow now).2 ≤ (monthWindow now).2 := by
  obtain ⟨-,hd₀,hd₁⟩ := month_of_date hdate
  rw [monthWindow_snd hdate,monthWindow_fst hdate,dayWindow]
  rw [secsPerDay] at *
  simp only
  omega

end Windows

theorem dayWindow_holds (now : ℤ) : (dayWindow now).1 ≤ now ∧ now < (dayWindow now).2 := by
  rw [dayWindow,secsPerDay]
  simp only
  omega

theorem dayWindow_of_holds {now t : ℤ} (hlo : (dayWindow now).1 ≤ t) (hhi : t < (dayWindow now).2) : dayWindow t = dayWindow now := by
  have hday : t / secsPerDay = now / secsPerDay := by
    rw [dayWindow,secsPerDay] at *
    simp only at hlo hhi
    omega
  rw [dayWindow,dayWindow,hday]

theorem dayWindow_next (now : ℤ) : (dayWindow (dayWindow now).2).1 = (dayWindow now).2 := by
  rw [dayWindow,dayWindow,secsPerDay]
  simp only
  omega

/-- Month and day windows tile the civil calendar, and the two conversions are inverse:
day zero is 1970-01-01, and each day carries the date after that of the day before. -/
theorem quota_windows_tile :
    (∀ now y m d : ℤ, civilFromDays (now / secsPerDay) = (y,m,d) →
      ((monthWindow now).1 ≤ now ∧ now < (monthWindow now).2) ∧
      (Midnight (monthWindow now).1 (y,m,1) ∧ Midnight (monthWindow now).2 ((nextMonth y m).1,(nextMonth y m).2,1)) ∧
      (monthWindow (monthWindow now).2).1 = (monthWindow now).2 ∧
      (∀ t, (monthWindow now).1 ≤ t → t < (monthWindow now).2 → monthWindow t = monthWindow now) ∧
      ((dayWindow now).1 ≤ now ∧ now < (dayWindow now).2) ∧
      (Midnight (dayWindow now).1 (y,m,d) ∧ Midnight (dayWindow now).2 (nextDate (y,m,d))) ∧
      (dayWindow (dayWindow now).2).1 = (dayWindow now).2 ∧
      (∀ t, (dayWindow now).1 ≤ t → t < (dayWindow now).2 → dayWindow t = dayWindow now) ∧
      (monthWindow now).1 ≤ (dayWindow now).1 ∧ (dayWindow now).2 ≤ (monthWindow now).2) ∧
    (∀ z, ValidDate (civilFromDays z) ∧ daysFromCivil (civilFromDays z).1 (civilFromDays z).2.1 (civilFromDays z).2.2 = z) ∧
    (∀ t, ValidDate t → civilFromDays (daysFromCivil t.1 t.2.1 t.2.2) = t) ∧
    civilFromDays 0 = (1970,1,1) ∧ ∀ z, civilFromDays (z + 1) = nextDate (civilFromDays z) := by
  refine ⟨?_,fun z => ⟨civilFromDays_valid z,daysFromCivil_round_trip z⟩,fun t => civilFromDays_daysFromCivil,
    civilFromDays_zero,civilFromDays_succ⟩
  intro now y m d hdate
  exact ⟨monthWindow_holds hdate,monthWindow_midnights hdate,monthWindow_next hdate,fun t => monthWindow_of_holds hdate,
    dayWindow_holds now,dayWindow_midnights hdate,dayWindow_next now,fun t => dayWindow_of_holds,
    dayWindow_within_month hdate⟩

end Dwara.Config.Quotas
