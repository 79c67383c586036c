import Dwara.Ai.Usage

/-! The spend of a stream is exact as far as the totals it derives stand. -/

namespace Dwara.Ai
open Dwara.Lib

/-- Every merge of the stream fits a 64-bit count. -/
def MergesFit (reports : List Usage) : Prop := ∀ before u, before ++ [u] <+: reports → (accumulate before).MergeFits u

/-- What is charged is the total of the usage, which is what the provider reported, and what
the same counts give in an answer that is not streamed. -/
structure SpendExact (costMicros : Usage → Option UInt64) (batches : List (List Usage)) : Prop where
  fit : MergesFit batches.flatten
  charged : (Meter.stream costMicros batches).charged = (Meter.stream costMicros batches).usage.total.toNat
  total : (Meter.stream costMicros batches).usage.total.toNat = reportedTotal batches.flatten
  notStreamed : NoTotal batches.flatten → (Meter.stream costMicros batches).usage.total =
    (Usage.ofAnthropic (lastReported Usage.promptTokens batches.flatten) (lastReported Usage.completionTokens batches.flatten) none).total

/-- The counts first known together fit, are not revised without a reported total, and no
tick before the first reported total saw more than the last one. -/
structure Settled (batches : List (List Usage)) : Prop where
  fits : ∀ d, d <+: batches.flatten → FirstKnown d → NoTotal d → counts d < 2^64
  stands : NoTotal batches.flatten → ∀ d, d <+: batches.flatten → FirstKnown d → counts d = counts batches.flatten
  derivedCovered : ¬ NoTotal batches.flatten → ∀ pre, pre <+: batches → NoTotal pre.flatten →
    ∀ d, d <+: pre.flatten → FirstKnown d → counts d ≤ reportedTotal batches.flatten
  partCovered : ¬ NoTotal batches.flatten → ∀ pre, pre <+: batches → NoTotal pre.flatten → ¬ Known pre.flatten →
    counts pre.flatten ≤ reportedTotal batches.flatten

section Total
variable {reports : List Usage}

theorem reportedTotal_of_noTotal (h : NoTotal reports) : reportedTotal reports = counts reports := by
  rw [NoTotal] at h
  rw [reportedTotal,h]

theorem total_of_reported (h : ¬ NoTotal reports) : (accumulate reports).total.toNat = reportedTotal reports := by
  obtain ⟨t,ht⟩ := Option.ne_none_iff_exists'.mp h
  rw [Usage.total,totalTokens_of_reported ht,reportedTotal,ht]
  rfl

/-- One of two counts at most is known, so their sum does not saturate. -/
theorem total_of_not_known (htotal : NoTotal reports) (h : ¬ Known reports) :
    (accumulate reports).total.toNat = counts reports := by
  rw [Usage.total,totalTokens_of_not_known htotal h,promptTokens_accumulate,completionTokens_accumulate,Option.getD_none,
    U64.toNat_saturatingAdd,counts]
  rw [Known] at h
  cases hp : lastReported Usage.promptTokens reports with
  | none =>
    cases hc : lastReported Usage.completionTokens reports with
    | none => rfl
    | some c =>
      have hlt := c.toNat_lt
      simp only [countOf,Option.getD_none,Option.getD_some,Option.map_none,Option.map_some,UInt64.toNat_zero]
      omega
  | some p =>
    cases hc : lastReported Usage.completionTokens reports with
    | none =>
      have hlt := p.toNat_lt
      simp only [countOf,Option.getD_none,Option.getD_some,Option.map_none,Option.map_some,UInt64.toNat_zero]
      omega
    | some c => exact absurd ⟨by simp [hp],by simp [hc]⟩ h

theorem total_of_firstKnown {d : List Usage} (hd : d <+: reports) (hfirst : FirstKnown d) (htotal : NoTotal reports)
    (hfits : counts d < 2^64) : (accumulate reports).total.toNat = counts d := by
  have hkept := totalTokens_of_firstKnown hd hfirst htotal
  obtain ⟨-,-,-,-,hknown⟩ := hfirst
  obtain ⟨p,hp⟩ := Option.isSome_iff_exists.mp hknown.1
  obtain ⟨c,hc⟩ := Option.isSome_iff_exists.mp hknown.2
  rw [hp,hc,Usage.derivedTotal] at hkept
  rw [counts,hp,hc] at hfits ⊢
  rw [Usage.total,hkept,Option.getD_some,UInt64.toNat_add]
  exact Nat.mod_eq_of_lt hfits

end Total

/-- Only the merge after which both counts are known adds. -/
theorem mergesFit_iff (reports : List Usage) :
    MergesFit reports ↔ ∀ d, d <+: reports → FirstKnown d → NoTotal d → counts d < 2^64 := by
  constructor
  · rintro h d hd ⟨before,u,rfl,hunknown,hknown⟩ htotal
    have hbefore := htotal.of_prefix (List.prefix_append before [u])
    obtain ⟨p,hp⟩ := Option.isSome_iff_exists.mp hknown.1
    obtain ⟨c,hc⟩ := Option.isSome_iff_exists.mp hknown.2
    have hu : u.totalTokens = none := by
      rw [NoTotal,lastReported_concat] at htotal
      exact (Option.or_eq_none_iff.mp htotal).1
    have hfits := h before u hd (by rw [hu,totalTokens_of_not_known hbefore hunknown]; rfl) p c
      (by rw [promptTokens_accumulate,← lastReported_concat,hp]) (by rw [completionTokens_accumulate,← lastReported_concat,hc])
    rw [counts,hp,hc]
    exact hfits
  · intro h before u hd hnone p c hp hc
    obtain ⟨hu,hkept⟩ := Option.or_eq_none_iff.mp hnone
    rw [promptTokens_accumulate,← lastReported_concat] at hp
    rw [completionTokens_accumulate,← lastReported_concat] at hc
    have hbefore : NoTotal before := by
      cases ht : lastReported Usage.totalTokens before with
      | none => exact ht
      | some t =>
        rw [totalTokens_of_reported ht] at hkept
        cases hkept
    have hunknown : ¬ Known before := by
      intro hknown
      obtain ⟨d,hd,hfirst⟩ := exists_firstKnown hknown
      rw [totalTokens_of_firstKnown hd hfirst hbefore] at hkept
      obtain ⟨-,-,-,-,hboth⟩ := hfirst
      obtain ⟨p',hp'⟩ := Option.isSome_iff_exists.mp hboth.1
      obtain ⟨c',hc'⟩ := Option.isSome_iff_exists.mp hboth.2
      rw [hp',hc'] at hkept
      cases hkept
    have htotal : NoTotal (before ++ [u]) := by
      rw [NoTotal,lastReported_concat,hu,Option.none_or]
      exact hbefore
    have hfits := h (before ++ [u]) hd ⟨before,u,rfl,hunknown,by simp [hp],by simp [hc]⟩ htotal
    rw [counts,hp,hc] at hfits
    exact hfits

/-- What is charged is the final total when no tick saw more. -/
theorem charged_eq_iff (costMicros : Usage → Option UInt64) (batches : List (List Usage)) :
    (Meter.stream costMicros batches).charged = (Meter.stream costMicros batches).usage.total.toNat ↔
      ∀ pre, pre <+: batches → (accumulate pre.flatten).total.toNat ≤ (accumulate batches.flatten).total.toNat := by
  have hlast := (Meter.charged_stream_le_iff costMicros batches _).mp (Nat.le_refl _) batches List.prefix_rfl
  rw [Meter.usage_stream,← Meter.charged_stream_le_iff costMicros batches]
  omega

private theorem flatten_start {pre batches : List (List Usage)} (h : pre <+: batches) : pre.flatten <+: batches.flatten :=
  h.flatten

/-- The total an answer that is not streamed gives for the counts of a stream. -/
theorem total_ofAnthropic {reports : List Usage} (h : counts reports < 2^64) :
    (Usage.ofAnthropic (lastReported Usage.promptTokens reports) (lastReported Usage.completionTokens reports) none).total.toNat =
      counts reports := by
  rw [counts] at h ⊢
  cases hp : lastReported Usage.promptTokens reports with
  | none =>
    cases hc : lastReported Usage.completionTokens reports with
    | none => rfl
    | some c => simp [Usage.total,Usage.ofAnthropic,countOf]
  | some p =>
    cases hc : lastReported Usage.completionTokens reports with
    | none => simp [Usage.total,Usage.ofAnthropic,countOf]
    | some c =>
      rw [hp,hc] at h
      simp only [Usage.total,Usage.ofAnthropic,Option.getD_some,UInt64.toNat_add]
      exact Nat.mod_eq_of_lt h

/-- What a tick saw, by what had been reported until then. -/
theorem total_le_of_settled {batches pre : List (List Usage)} (hup : Upward batches.flatten) (h : Settled batches)
    (hpre : pre <+: batches) : (accumulate pre.flatten).total.toNat ≤ reportedTotal batches.flatten := by
  have hflat := flatten_start hpre
  by_cases htotal : NoTotal pre.flatten
  · by_cases hknown : Known pre.flatten
    · obtain ⟨d,hd,hfirst⟩ := exists_firstKnown hknown
      have hfits := h.fits d (hd.trans hflat) hfirst (htotal.of_prefix hd)
      rw [total_of_firstKnown hd hfirst htotal hfits]
      by_cases hall : NoTotal batches.flatten
      · rw [reportedTotal_of_noTotal hall]
        exact counts_mono (hd.trans hflat) hup
      · exact h.derivedCovered hall pre hpre htotal d hd hfirst
    · rw [total_of_not_known htotal hknown]
      by_cases hall : NoTotal batches.flatten
      · rw [reportedTotal_of_noTotal hall]
        exact counts_mono hflat hup
      · exact h.partCovered hall pre hpre htotal hknown
  · have hall : ¬ NoTotal batches.flatten := fun hall => htotal (hall.of_prefix hflat)
    obtain ⟨t,ht⟩ := Option.ne_none_iff_exists'.mp htotal
    obtain ⟨t',ht',hle⟩ := lastReported_mono _ hflat hup.total ht
    rw [total_of_reported htotal,reportedTotal,reportedTotal,ht,ht']
    exact UInt64.le_iff_toNat_le.mp hle

/-- The final total is what the provider reported. -/
theorem total_eq_of_settled {batches : List (List Usage)} (h : Settled batches) :
    (accumulate batches.flatten).total.toNat = reportedTotal batches.flatten := by
  by_cases htotal : NoTotal batches.flatten
  · by_cases hknown : Known batches.flatten
    · obtain ⟨d,hd,hfirst⟩ := exists_firstKnown hknown
      have hfits := h.fits d hd hfirst (htotal.of_prefix hd)
      rw [total_of_firstKnown hd hfirst htotal hfits,reportedTotal_of_noTotal htotal]
      exact h.stands htotal d hd hfirst
    · rw [total_of_not_known htotal hknown,reportedTotal_of_noTotal htotal]
  · exact total_of_reported htotal

/-- Over reports that only go up, the spend is exact just when the stream settles. -/
theorem spend_exact_iff (costMicros : Usage → Option UInt64) {batches : List (List Usage)} (hup : Upward batches.flatten) :
    SpendExact costMicros batches ↔ Settled batches := by
  constructor
  · rintro ⟨hfit,hcharged,htotal,-⟩
    have hfits := (mergesFit_iff _).mp hfit
    have hle := (charged_eq_iff costMicros batches).mp hcharged
    rw [Meter.usage_stream] at htotal
    refine ⟨hfits,?_,?_,?_⟩
    · intro hall d hd hfirst
      have hd' := hfits d hd hfirst (hall.of_prefix hd)
      rw [← reportedTotal_of_noTotal hall,← htotal,total_of_firstKnown hd hfirst hall hd']
    · intro hall pre hpre hnone d hd hfirst
      have hd' := hfits d (hd.trans (flatten_start hpre)) hfirst (hnone.of_prefix hd)
      rw [← htotal,← total_of_firstKnown hd hfirst hnone hd']
      exact hle pre hpre
    · intro hall pre hpre hnone hunknown
      rw [← htotal,← total_of_not_known hnone hunknown]
      exact hle pre hpre
  · intro h
    have htotal := total_eq_of_settled h
    refine ⟨(mergesFit_iff _).mpr h.fits,?_,?_,?_⟩
    · rw [charged_eq_iff,htotal]
      exact fun pre hpre => total_le_of_settled hup h hpre
    · rw [Meter.usage_stream]
      exact htotal
    · intro hall
      have hlt : counts batches.flatten < 2^64 := by
        rw [← reportedTotal_of_noTotal hall,← htotal]
        exact UInt64.toNat_lt _
      rw [Meter.usage_stream,← UInt64.toNat_inj,htotal,total_ofAnthropic hlt,reportedTotal_of_noTotal hall]

section Example

private def prompt (n : UInt64) : Usage := ⟨some n,none,none,none⟩
private def completion (n : UInt64) : Usage := ⟨none,some n,none,none⟩
private def openAiTotal (n : UInt64) : Usage := ⟨none,none,some n,none⟩

/-- A prompt count, then a completion count. -/
theorem spend_exact_messages : SpendExact (fun _ => none) [[prompt 10],[completion 50],[]] := by
  refine (spend_exact_iff _ ⟨by decide,by decide,by decide⟩).mpr ⟨?_,?_,?_,?_⟩
  · intro d hd hfirst _
    exact Nat.lt_of_le_of_lt (counts_mono hd ⟨by decide,by decide,by decide⟩) (by decide)
  · intro _ d hd hfirst
    have heq := FirstKnown.unique hd List.prefix_rfl hfirst ⟨[prompt 10],completion 50,rfl,by decide,by decide⟩
    rw [heq]
  · intro h
    exact absurd (by decide) h
  · intro h
    exact absurd (by decide) h

/-- A completion count revised from 1 to 50 after a prompt count of 10: 11 tokens are charged. -/
theorem spend_falls_short : Upward [prompt 10,completion 1,completion 50] ∧
    ¬ SpendExact (fun _ => none) [[prompt 10],[completion 1],[completion 50],[]] ∧
    (Meter.stream (fun _ => none) [[prompt 10],[completion 1],[completion 50],[]]).charged = 11 ∧
    reportedTotal [prompt 10,completion 1,completion 50] = 60 := by
  refine ⟨⟨by decide,by decide,by decide⟩,?_,by decide,by decide⟩
  intro h
  have htotal := h.total
  revert htotal
  decide

end Example

end Dwara.Ai
