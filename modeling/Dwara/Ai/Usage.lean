import Dwara.Lib.Word
import Mathlib.Data.List.Infix
import Mathlib.Data.List.Induction

/-! Usage as a provider reports it over a stream, and what is charged for it to a budget. -/

namespace Dwara.Ai
open Dwara.Lib

structure Usage where
  promptTokens : Option UInt64
  completionTokens : Option UInt64
  totalTokens : Option UInt64
  cachedTokens : Option UInt64
  deriving DecidableEq, Repr

namespace Usage

def default : Usage := ⟨none,none,none,none⟩

/-- The total of two known counts; the sum wraps, as in a release build. -/
def derivedTotal : Option UInt64 → Option UInt64 → Option UInt64
  | some p, some c => some (p + c)
  | _, _ => none

/-- A later report over an earlier one. A derived total is kept where a reported one is. -/
def merge (earlier later : Usage) : Usage where
  promptTokens := later.promptTokens.or earlier.promptTokens
  completionTokens := later.completionTokens.or earlier.completionTokens
  totalTokens := (later.totalTokens.or earlier.totalTokens).or
    (derivedTotal (later.promptTokens.or earlier.promptTokens) (later.completionTokens.or earlier.completionTokens))
  cachedTokens :=
    match earlier.cachedTokens,later.cachedTokens with
    | some a, some b => some (max a b)
    | a, b => a.or b

def total (u : Usage) : UInt64 :=
  u.totalTokens.getD (U64.saturatingAdd (u.promptTokens.getD 0) (u.completionTokens.getD 0))

/-- The usage of an answer that is not streamed. -/
def ofAnthropic (inputTokens outputTokens cacheReadInputTokens : Option UInt64) : Usage where
  promptTokens := inputTokens
  completionTokens := outputTokens
  totalTokens :=
    match inputTokens,outputTokens with
    | some i, some o => some (i + o)
    | i, o => i.or o
  cachedTokens := cacheReadInputTokens

/-- The sum a merge derives is a 64-bit count. -/
def MergeFits (earlier later : Usage) : Prop :=
  later.totalTokens.or earlier.totalTokens = none → ∀ p c, later.promptTokens.or earlier.promptTokens = some p →
    later.completionTokens.or earlier.completionTokens = some c → p.toNat + c.toNat < 2^64

end Usage

/-- What has been charged over a stream: tokens and cost of each spend. -/
structure Meter where
  usage : Usage
  budgetSpentTokens : UInt64
  budgetSpentCostMicros : UInt64
  spends : List (UInt64 × UInt64)
  deriving DecidableEq, Repr

namespace Meter
variable (costMicros : Usage → Option UInt64) (m : Meter)

def start : Meter := ⟨Usage.default,0,0,[]⟩

def newTokens : UInt64 := U64.saturatingSub m.usage.total m.budgetSpentTokens
def newCost : UInt64 := U64.saturatingSub ((costMicros m.usage).getD 0) m.budgetSpentCostMicros

/-- The growth above the watermarks is spent, and the watermarks follow. -/
def budgetSpendDelta : Meter :=
  if m.newTokens = 0 ∧ m.newCost costMicros = 0 then m
  else { m with
    budgetSpentTokens := max m.usage.total m.budgetSpentTokens
    budgetSpentCostMicros := max ((costMicros m.usage).getD 0) m.budgetSpentCostMicros
    spends := m.spends ++ [(m.newTokens,m.newCost costMicros)] }

/-- The reports of one batch, and the tick after it. -/
def batch (reports : List Usage) : Meter := { m with usage := reports.foldl Usage.merge m.usage }.budgetSpendDelta costMicros

/-- A stream: each batch has its tick, the last one at the close. -/
def stream (batches : List (List Usage)) : Meter := batches.foldl (batch costMicros) start

def charged : ℕ := (m.spends.map (·.1.toNat)).sum

variable {m}

theorem spentTokens_budgetSpendDelta :
    (m.budgetSpendDelta costMicros).budgetSpentTokens.toNat = max m.usage.total.toNat m.budgetSpentTokens.toNat := by
  rw [budgetSpendDelta]
  split
  case isTrue h =>
    have hzero := congrArg UInt64.toNat h.1
    rw [newTokens,U64.toNat_saturatingSub,UInt64.toNat_zero] at hzero
    omega
  case isFalse => exact U64.toNat_max _ _

theorem charged_budgetSpendDelta (h : m.charged = m.budgetSpentTokens.toNat) :
    (m.budgetSpendDelta costMicros).charged = (m.budgetSpendDelta costMicros).budgetSpentTokens.toNat := by
  rw [spentTokens_budgetSpendDelta,budgetSpendDelta]
  split
  case isTrue hnone =>
    have hzero := congrArg UInt64.toNat hnone.1
    rw [newTokens,U64.toNat_saturatingSub,UInt64.toNat_zero] at hzero
    omega
  case isFalse =>
    rw [charged] at h ⊢
    simp only [List.map_append,List.sum_append,List.map_singleton,List.sum_singleton,h,newTokens,U64.toNat_saturatingSub]
    omega

@[simp] theorem usage_budgetSpendDelta : (m.budgetSpendDelta costMicros).usage = m.usage := by
  rw [budgetSpendDelta]
  split <;> rfl

end Meter

def accumulate (reports : List Usage) : Usage := reports.foldl Usage.merge Usage.default

theorem accumulate_concat (reports : List Usage) (u : Usage) : accumulate (reports ++ [u]) = (accumulate reports).merge u := by
  rw [accumulate,List.foldl_append]
  rfl

namespace Meter
variable (costMicros : Usage → Option UInt64) (batches : List (List Usage))

theorem stream_concat (reports : List Usage) : stream costMicros (batches ++ [reports]) = (stream costMicros batches).batch costMicros reports := by
  rw [stream,List.foldl_append]
  rfl

theorem usage_stream : (stream costMicros batches).usage = accumulate batches.flatten := by
  induction batches using List.reverseRecOn with
  | nil => rfl
  | append_singleton batches reports ih =>
    rw [stream_concat,batch,usage_budgetSpendDelta,ih,List.flatten_append,accumulate,accumulate,List.foldl_append]
    simp

/-- What is charged is what the watermark says. -/
theorem charged_stream : (stream costMicros batches).charged = (stream costMicros batches).budgetSpentTokens.toNat := by
  induction batches using List.reverseRecOn with
  | nil => rfl
  | append_singleton batches reports ih =>
    rw [stream_concat,batch]
    exact charged_budgetSpendDelta costMicros ih

/-- The watermark is the highest total at a tick. -/
theorem charged_stream_le_iff (n : ℕ) :
    (stream costMicros batches).charged ≤ n ↔ ∀ pre, pre <+: batches → (accumulate pre.flatten).total.toNat ≤ n := by
  induction batches using List.reverseRecOn with
  | nil =>
    constructor
    · intro h pre hpre
      obtain rfl := List.prefix_nil.mp hpre
      exact Nat.zero_le n
    · intro h
      exact Nat.zero_le n
  | append_singleton batches reports ih =>
    have husage := usage_stream costMicros (batches ++ [reports])
    rw [stream_concat,batch,usage_budgetSpendDelta] at husage
    rw [charged_stream,stream_concat,batch,spentTokens_budgetSpendDelta,husage,← charged_stream,Nat.max_le,ih]
    constructor
    · rintro ⟨hlast,hpre⟩ pre hp
      rcases List.prefix_concat_iff.mp hp with rfl | hp
      · exact hlast
      · exact hpre pre hp
    · intro h
      exact ⟨h _ List.prefix_rfl,fun pre hp => h pre (hp.trans (List.prefix_append batches [reports]))⟩

end Meter

end Dwara.Ai

/-! When the spend of a stream is what the provider reported. -/

namespace Dwara.Ai
open Dwara.Lib

/-- The last count a provider reported in a field. -/
def lastReported (field : Usage → Option UInt64) (reports : List Usage) : Option UInt64 := (reports.filterMap field).getLast?

def countOf (count : Option UInt64) : ℕ := (count.map UInt64.toNat).getD 0

/-- The last prompt count and the last completion count together. -/
def counts (reports : List Usage) : ℕ :=
  countOf (lastReported Usage.promptTokens reports) + countOf (lastReported Usage.completionTokens reports)

/-- What the provider says the stream used: its last total, or its last counts together. -/
def reportedTotal (reports : List Usage) : ℕ :=
  match lastReported Usage.totalTokens reports with
  | some t => t.toNat
  | none => counts reports

def NoTotal (reports : List Usage) : Prop := lastReported Usage.totalTokens reports = none

instance (reports : List Usage) : Decidable (NoTotal reports) := inferInstanceAs (Decidable (_ = _))

/-- Both counts have been reported. -/
def Known (reports : List Usage) : Prop :=
  (lastReported Usage.promptTokens reports).isSome ∧ (lastReported Usage.completionTokens reports).isSome

instance (reports : List Usage) : Decidable (Known reports) := inferInstanceAs (Decidable (_ ∧ _))

/-- Reports up to the first one after which both counts are known. -/
def FirstKnown (reports : List Usage) : Prop := ∃ before u, reports = before ++ [u] ∧ ¬ Known before ∧ Known reports

/-- Later reports revise earlier ones upwards. -/
structure Upward (reports : List Usage) : Prop where
  prompt : (reports.filterMap Usage.promptTokens).Pairwise (· ≤ ·)
  completion : (reports.filterMap Usage.completionTokens).Pairwise (· ≤ ·)
  total : (reports.filterMap Usage.totalTokens).Pairwise (· ≤ ·)

section Reports
variable (field : Usage → Option UInt64)

theorem lastReported_concat (reports : List Usage) (u : Usage) :
    lastReported field (reports ++ [u]) = (field u).or (lastReported field reports) := by
  rw [lastReported,lastReported,List.filterMap_append,List.getLast?_append]
  cases h : field u with
  | none => simp [h]
  | some n => simp [h]

/-- A count that was reported stays reported, and does not fall. -/
theorem lastReported_mono {pre reports : List Usage} (hpre : pre <+: reports) (hup : (reports.filterMap field).Pairwise (· ≤ ·))
    {a : UInt64} (ha : lastReported field pre = some a) : ∃ b, lastReported field reports = some b ∧ a ≤ b := by
  obtain ⟨post,hpost⟩ := hpre.filterMap field
  rw [lastReported] at ha
  rw [← hpost] at hup
  rw [lastReported,← hpost,List.getLast?_append]
  cases hb : post.getLast? with
  | none => exact ⟨a,by simp [ha],UInt64.le_refl a⟩
  | some b =>
    have hle := (List.pairwise_append.mp hup).2.2 a (List.mem_of_getLast? ha) b (List.mem_of_getLast? hb)
    exact ⟨b,rfl,hle⟩

theorem countOf_mono {pre reports : List Usage} (hpre : pre <+: reports) (hup : (reports.filterMap field).Pairwise (· ≤ ·)) :
    countOf (lastReported field pre) ≤ countOf (lastReported field reports) := by
  cases ha : lastReported field pre with
  | none => exact Nat.zero_le _
  | some a =>
    obtain ⟨b,hb,hle⟩ := lastReported_mono field hpre hup ha
    rw [hb]
    exact UInt64.le_iff_toNat_le.mp hle

theorem isSome_lastReported_of_start {pre reports : List Usage} (hpre : pre <+: reports) (h : (lastReported field pre).isSome) :
    (lastReported field reports).isSome := by
  obtain ⟨post,hpost⟩ := hpre.filterMap field
  rw [lastReported] at h
  rw [lastReported,← hpost,List.getLast?_append]
  cases post.getLast? with
  | none => simpa using h
  | some b => rfl

end Reports

section Prefixes
variable {pre reports : List Usage} (hpre : pre <+: reports)
include hpre

theorem counts_mono (hup : Upward reports) : counts pre ≤ counts reports :=
  Nat.add_le_add (countOf_mono _ hpre hup.prompt) (countOf_mono _ hpre hup.completion)

theorem Known.of_prefix (h : Known pre) : Known reports :=
  ⟨isSome_lastReported_of_start _ hpre h.1,isSome_lastReported_of_start _ hpre h.2⟩

theorem NoTotal.of_prefix (h : NoTotal reports) : NoTotal pre := by
  rw [NoTotal,← Option.not_isSome_iff_eq_none] at h ⊢
  exact fun hsome => h (isSome_lastReported_of_start _ hpre hsome)

end Prefixes

/-- Both counts become known once. -/
theorem FirstKnown.unique {p q reports : List Usage} (hp : p <+: reports) (hq : q <+: reports) (hfirst : FirstKnown p)
    (hsecond : FirstKnown q) : p = q := by
  have hle : ∀ {p q : List Usage}, p <+: q → FirstKnown p → FirstKnown q → p = q := by
    rintro p q hpq ⟨_,_,-,-,hknown⟩ ⟨before,u,rfl,hbefore,-⟩
    rcases List.prefix_concat_iff.mp hpq with rfl | hpq
    · rfl
    · exact absurd (hknown.of_prefix hpq) hbefore
  rcases List.prefix_or_prefix_of_prefix hp hq with h | h
  · exact hle h hfirst hsecond
  · exact (hle h hsecond hfirst).symm

theorem exists_firstKnown {reports : List Usage} (h : Known reports) : ∃ d, d <+: reports ∧ FirstKnown d := by
  induction reports using List.reverseRecOn with
  | nil => exact absurd h (by decide)
  | append_singleton reports u ih =>
    by_cases hknown : Known reports
    · obtain ⟨d,hd,hfirst⟩ := ih hknown
      exact ⟨d,hd.trans (List.prefix_append _ _),hfirst⟩
    · exact ⟨_,List.prefix_rfl,reports,u,rfl,hknown,h⟩

section Accumulate

theorem promptTokens_accumulate (reports : List Usage) :
    (accumulate reports).promptTokens = lastReported Usage.promptTokens reports := by
  induction reports using List.reverseRecOn with
  | nil => rfl
  | append_singleton reports u ih => rw [accumulate_concat,lastReported_concat,← ih,Usage.merge]

theorem completionTokens_accumulate (reports : List Usage) :
    (accumulate reports).completionTokens = lastReported Usage.completionTokens reports := by
  induction reports using List.reverseRecOn with
  | nil => rfl
  | append_singleton reports u ih => rw [accumulate_concat,lastReported_concat,← ih,Usage.merge]

/-- A reported total is the last one reported. -/
theorem totalTokens_of_reported {reports : List Usage} {t : UInt64} (h : lastReported Usage.totalTokens reports = some t) :
    (accumulate reports).totalTokens = some t := by
  induction reports using List.reverseRecOn with
  | nil => cases h
  | append_singleton reports u ih =>
    rw [accumulate_concat,Usage.merge]
    rw [lastReported_concat] at h
    cases hu : u.totalTokens with
    | some t' =>
      rw [hu] at h
      simpa using h
    | none =>
      rw [hu,Option.none_or] at h
      simp [ih h]

theorem totalTokens_of_not_known {reports : List Usage} (htotal : NoTotal reports) (h : ¬ Known reports) :
    (accumulate reports).totalTokens = none := by
  induction reports using List.reverseRecOn with
  | nil => rfl
  | append_singleton reports u ih =>
    have hbefore := ih (htotal.of_prefix (List.prefix_append _ _)) fun hk => h (hk.of_prefix (List.prefix_append _ _))
    have hu : u.totalTokens = none := by
      rw [NoTotal,lastReported_concat] at htotal
      exact (Option.or_eq_none_iff.mp htotal).1
    rw [Known,← promptTokens_accumulate,← completionTokens_accumulate,accumulate_concat] at h
    rw [accumulate_concat]
    simp only [Usage.merge,hu,hbefore,Option.or_none,Option.none_or] at h ⊢
    rw [Usage.derivedTotal.eq_def]
    split
    case h_1 hp hc => exact absurd ⟨by simp [hp],by simp [hc]⟩ h
    case h_2 => rfl

/-- Without a reported total, the one derived first stays. -/
theorem totalTokens_of_firstKnown {d reports : List Usage} (hd : d <+: reports) (hfirst : FirstKnown d) (htotal : NoTotal reports) :
    (accumulate reports).totalTokens =
      Usage.derivedTotal (lastReported Usage.promptTokens d) (lastReported Usage.completionTokens d) := by
  induction reports using List.reverseRecOn with
  | nil =>
    obtain rfl := List.prefix_nil.mp hd
    obtain ⟨before,u,hnil,-⟩ := hfirst
    exact absurd hnil.symm (List.concat_ne_nil u before)
  | append_singleton reports u ih =>
    have hbefore := htotal.of_prefix (List.prefix_append _ _)
    have hu : u.totalTokens = none := by
      rw [NoTotal,lastReported_concat] at htotal
      exact (Option.or_eq_none_iff.mp htotal).1
    rcases List.prefix_concat_iff.mp hd with rfl | hd
    · obtain ⟨before,u',heq,hunknown,-⟩ := hfirst
      obtain ⟨rfl,hu'⟩ := List.append_inj' heq rfl
      have hnone := totalTokens_of_not_known hbefore hunknown
      rw [← promptTokens_accumulate,← completionTokens_accumulate,accumulate_concat]
      simp only [Usage.merge,hu,hnone,Option.none_or]
    · have hkept := ih hd hbefore
      obtain ⟨-,-,-,-,hknown⟩ := hfirst
      obtain ⟨p,hp⟩ := Option.isSome_iff_exists.mp hknown.1
      obtain ⟨c,hc⟩ := Option.isSome_iff_exists.mp hknown.2
      rw [hp,hc] at hkept ⊢
      rw [accumulate_concat,Usage.merge]
      simp [hu,hkept,Usage.derivedTotal]

end Accumulate

end Dwara.Ai
