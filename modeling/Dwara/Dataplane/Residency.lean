import Dwara.Dataplane.BalanceChoose

/-! Data residency of a pick: which candidates the locality step leaves, and when the
residency filter is kept all the way to the endpoint. -/

namespace Dwara.Dataplane.Balance
open Dwara.Resilience.Health

variable {lb : LbState} {loc : UpstreamLocality} {ctx : LocalityContext} {trackers : Trackers} {cells : Cells}
  {m : Moment} {key : Option String} {cand : Option (List ℕ)}

section Candidates

theorem residencyFiltered_eq_indices :
    lb.residencyFiltered loc cand = lb.indices cand ↔ ∀ i ∈ lb.indices cand, loc.permits (lb.region i) = true :=
  List.filter_eq_self

theorem residencyFiltered_eq_nil :
    lb.residencyFiltered loc cand = [] ↔ ∀ i ∈ lb.indices cand, ¬ loc.permits (lb.region i) = true :=
  List.filter_eq_nil_iff

/-- A shorter sublist is a different one, so comparing lengths compares the lists. -/
private theorem length_lt_iff_ne {xs ys : List ℕ} (h : xs.Sublist ys) : xs.length < ys.length ↔ xs ≠ ys := by
  refine ⟨fun hlt he => absurd hlt (he ▸ Nat.lt_irrefl _),fun hne => ?_⟩
  exact lt_of_le_of_ne h.length_le (fun he => hne (h.eq_of_length he))

/-- Nothing is local exactly when no candidate is in the edge's region. -/
theorem zoneRefined_eq_nil (is : List ℕ) :
    lb.zoneRefined ctx is = [] ↔ ∀ i ∈ is, ¬ ctx.regionMatches (lb.region i) = true := by
  rw [LbState.zoneRefined]
  simp only
  split
  · split
    · rename_i hz
      refine ⟨fun h => absurd h hz.1,fun h => ?_⟩
      rw [List.filter_eq_nil_iff.mpr h]
      rfl
    · exact List.filter_eq_nil_iff
  · exact List.filter_eq_nil_iff

/-- Neither the edge's region nor its zone tells the candidates apart. -/
def LbState.Unnarrowed (lb : LbState) (ctx : LocalityContext) (is : List ℕ) : Prop :=
  (∀ i ∈ is, ctx.regionMatches (lb.region i) = true) ∧
    ((∀ i ∈ is, ctx.zoneMatches (lb.zone i) = true) ∨ ∀ i ∈ is, ¬ ctx.zoneMatches (lb.zone i) = true)

theorem zoneRefined_eq_self (is : List ℕ) : lb.zoneRefined ctx is = is ↔ lb.Unnarrowed ctx is := by
  rw [LbState.zoneRefined,LbState.Unnarrowed]
  simp only
  by_cases hregion : ∀ i ∈ is, ctx.regionMatches (lb.region i) = true
  · rw [List.filter_eq_self.mpr hregion]
    cases hzone : ctx.zone with
    | none => simpa [LocalityContext.zoneMatches,hzone] using hregion
    | some zone =>
      simp only [Option.isSome_some,if_true,length_lt_iff_ne List.filter_sublist]
      split
      · rename_i hz
        refine ⟨fun h => absurd h hz.2,?_⟩
        rintro ⟨-,hall | hnone⟩
        · exact List.filter_eq_self.mpr hall
        · exact absurd (List.filter_eq_nil_iff.mpr hnone) hz.1
      · rename_i hz
        refine ⟨fun _ => ⟨hregion,?_⟩,fun _ => rfl⟩
        by_cases hnil : is.filter (fun i => ctx.zoneMatches (lb.zone i)) = []
        · exact .inr (List.filter_eq_nil_iff.mp hnil)
        · exact .inl (List.filter_eq_self.mp (not_not.mp (fun hne => hz ⟨hnil,hne⟩)))
  · refine ⟨fun h => absurd ?_ hregion,fun h => absurd h.1 hregion⟩
    have hlocal : (lb.zoneRefined ctx is).Sublist (is.filter (fun i => ctx.regionMatches (lb.region i))) := by
      rw [LbState.zoneRefined]
      simp only
      split
      · split
        · exact List.filter_sublist
        · exact List.Sublist.refl _
      · exact List.Sublist.refl _
    have hself : lb.zoneRefined ctx is = is := h
    rw [hself] at hlocal
    exact List.filter_eq_self.mp (hlocal.eq_of_length_le List.filter_sublist.length_le).symm

end Candidates

/-- Residency leaves candidates out and the mode then goes back to all of them, or is
left with none: some candidate is not permitted, the request is not denied, and location
does not narrow what is permitted. -/
def LbState.FilterDropped (lb : LbState) (loc : UpstreamLocality) (ctx : LocalityContext) (cand : Option (List ℕ)) :
    Prop :=
  (∃ i ∈ lb.indices cand, ¬ loc.permits (lb.region i) = true) ∧
    (loc.enforceDataResidency = true → ∃ i ∈ lb.indices cand, loc.permits (lb.region i) = true) ∧
    match loc.mode with
    | .strict => (∃ i ∈ lb.indices cand, loc.permits (lb.region i) = true) ∧
        lb.Unnarrowed ctx (lb.residencyFiltered loc cand)
    | .prefer => (∀ i ∈ lb.residencyFiltered loc cand, ¬ ctx.regionMatches (lb.region i) = true) ∨
        lb.Unnarrowed ctx (lb.residencyFiltered loc cand)
    | .failover => lb.Unnarrowed ctx (lb.residencyFiltered loc cand)

section Locality

private theorem residencyFiltered_ne_nil :
    lb.residencyFiltered loc cand ≠ [] ↔ ∃ i ∈ lb.indices cand, loc.permits (lb.region i) = true := by
  rw [Ne,residencyFiltered_eq_nil]
  push Not
  rfl

private theorem residencyFiltered_ne_indices :
    lb.residencyFiltered loc cand ≠ lb.indices cand ↔ ∃ i ∈ lb.indices cand, ¬ loc.permits (lb.region i) = true := by
  rw [Ne,residencyFiltered_eq_indices]
  push Not
  rfl

/-- The condition in the terms the locality step computes. -/
private theorem filterDropped_iff : lb.FilterDropped loc ctx cand ↔
    lb.residencyFiltered loc cand ≠ lb.indices cand ∧
      ¬ (lb.residencyFiltered loc cand = [] ∧ loc.enforceDataResidency = true) ∧
      match loc.mode with
      | .strict => lb.residencyFiltered loc cand ≠ [] ∧
          lb.zoneRefined ctx (lb.residencyFiltered loc cand) = lb.residencyFiltered loc cand
      | .prefer => lb.zoneRefined ctx (lb.residencyFiltered loc cand) = [] ∨
          lb.zoneRefined ctx (lb.residencyFiltered loc cand) = lb.residencyFiltered loc cand
      | .failover => lb.zoneRefined ctx (lb.residencyFiltered loc cand) = lb.residencyFiltered loc cand := by
  simp only [zoneRefined_eq_self,zoneRefined_eq_nil,residencyFiltered_ne_nil,residencyFiltered_ne_indices]
  rw [LbState.FilterDropped]
  rw [← residencyFiltered_ne_nil]
  have hdeny : (loc.enforceDataResidency = true → lb.residencyFiltered loc cand ≠ []) ↔
      ¬ (lb.residencyFiltered loc cand = [] ∧ loc.enforceDataResidency = true) := by
    tauto
  rw [hdeny]

/-- The locality step with its length comparisons read as comparisons of lists. -/
private theorem applyLocality_eq : lb.applyLocality loc ctx cand =
    (let allowed := lb.residencyFiltered loc cand
     let refined := lb.zoneRefined ctx allowed
     if allowed = [] ∧ loc.enforceDataResidency then .denied
     else match loc.mode with
      | .strict => if refined = [] then .denied else if refined ≠ allowed then .restricted refined else .unchanged cand
      | .prefer => if refined ≠ [] ∧ refined ≠ allowed then .restricted refined else .unchanged cand
      | .failover =>
        if refined ≠ [] then (if refined ≠ allowed then .restricted refined else .unchanged cand)
        else if allowed ≠ lb.indices cand then .restricted allowed else .unchanged cand) := by
  have hafter : (if (lb.residencyFiltered loc cand).length < (lb.indices cand).length then
      lb.residencyFiltered loc cand else lb.indices cand) = lb.residencyFiltered loc cand := by
    split
    · rfl
    · rename_i h
      rw [length_lt_iff_ne residencyFiltered_sublist,not_not] at h
      exact h.symm
  rw [LbState.applyLocality]
  simp only [hafter]
  cases loc.mode <;>
    simp only [length_lt_iff_ne residencyFiltered_sublist,length_lt_iff_ne (zoneRefined_sublist _ _ _)]

private theorem localityCandidates_eq (hloc : lb.locality = some loc) (hset : ctx.isSet = true) :
    lb.localityCandidates ctx cand =
      match lb.applyLocality loc ctx cand with
      | .restricted set => some (some set)
      | .unchanged orig => some orig
      | .denied => none := by
  cases happly : lb.applyLocality loc ctx cand <;> simp only [LbState.localityCandidates,hloc,hset,if_true,happly]

/-- Where the filter is kept, the request is denied or goes on with permitted candidates. -/
theorem localityCandidates_kept (hloc : lb.locality = some loc) (hset : ctx.isSet = true)
    (hbase : lb.indices cand ≠ []) (hkept : ¬ lb.FilterDropped loc ctx cand) :
    lb.localityCandidates ctx cand = none ∨
      ∃ c, lb.localityCandidates ctx cand = some c ∧ lb.indices c ≠ [] ∧
        (lb.indices c).Sublist (lb.residencyFiltered loc cand) := by
  rw [filterDropped_iff] at hkept
  rw [localityCandidates_eq hloc hset,applyLocality_eq]
  have hrefined := zoneRefined_sublist lb ctx (lb.residencyFiltered loc cand)
  by_cases hdeny : lb.residencyFiltered loc cand = [] ∧ loc.enforceDataResidency = true
  · left
    simp [hdeny]
  -- Going back to the candidates is harmless only when residency kept them all.
  have hback : lb.residencyFiltered loc cand = lb.indices cand →
      lb.indices cand ≠ [] ∧ (lb.indices cand).Sublist (lb.residencyFiltered loc cand) :=
    fun he => ⟨hbase,he ▸ List.Sublist.refl _⟩
  simp only [hdeny,if_false]
  cases hm : loc.mode with
  | strict =>
    simp only [hm] at hkept
    by_cases hnil : lb.zoneRefined ctx (lb.residencyFiltered loc cand) = []
    · left
      simp [hnil]
    by_cases hself : lb.zoneRefined ctx (lb.residencyFiltered loc cand) = lb.residencyFiltered loc cand
    · right
      have hsome : lb.residencyFiltered loc cand ≠ [] := fun h => hnil (hself.trans h)
      have hall : lb.residencyFiltered loc cand = lb.indices cand :=
        not_not.mp (fun hne => hkept ⟨hne,hdeny,hsome,hself⟩)
      exact ⟨cand,by simp [hsome,hself],hback hall⟩
    · right
      exact ⟨some (lb.zoneRefined ctx (lb.residencyFiltered loc cand)),by simp [hnil,hself],hnil,hrefined⟩
  | prefer =>
    right
    simp only [hm] at hkept
    by_cases hself : lb.zoneRefined ctx (lb.residencyFiltered loc cand) = [] ∨
        lb.zoneRefined ctx (lb.residencyFiltered loc cand) = lb.residencyFiltered loc cand
    · have hall : lb.residencyFiltered loc cand = lb.indices cand :=
        not_not.mp (fun hne => hkept ⟨hne,hdeny,hself⟩)
      exact ⟨cand,by rcases hself with h | h <;> simp [h],hback hall⟩
    · obtain ⟨hnil,hne⟩ := not_or.mp hself
      exact ⟨some (lb.zoneRefined ctx (lb.residencyFiltered loc cand)),by simp [hnil,hne],hnil,hrefined⟩
  | failover =>
    right
    simp only [hm] at hkept
    by_cases hself : lb.zoneRefined ctx (lb.residencyFiltered loc cand) = lb.residencyFiltered loc cand
    · have hall : lb.residencyFiltered loc cand = lb.indices cand :=
        not_not.mp (fun hne => hkept ⟨hne,hdeny,hself⟩)
      have hsome : lb.residencyFiltered loc cand ≠ [] := hall ▸ hbase
      exact ⟨cand,by simp [hself,hsome],hback hall⟩
    by_cases hnil : lb.zoneRefined ctx (lb.residencyFiltered loc cand) = []
    · have hsome : lb.residencyFiltered loc cand ≠ [] := fun h => hself (hnil.trans h.symm)
      by_cases hall : lb.residencyFiltered loc cand = lb.indices cand
      · rw [hall] at hnil
        exact ⟨cand,by simp [hnil,hall],hback hall⟩
      · exact ⟨some (lb.residencyFiltered loc cand),by simp [hnil,hall],hsome,List.Sublist.refl _⟩
    · exact ⟨some (lb.zoneRefined ctx (lb.residencyFiltered loc cand)),by simp [hnil,hself],hnil,hrefined⟩

/-- Where it is dropped, all candidates are back, or none is left. -/
theorem localityCandidates_dropped (hloc : lb.locality = some loc) (hset : ctx.isSet = true)
    (hdropped : lb.FilterDropped loc ctx cand) :
    lb.localityCandidates ctx cand = some cand ∨
      lb.localityCandidates ctx cand = some (some []) ∧ lb.residencyFiltered loc cand = [] := by
  obtain ⟨hsome,hdeny,hmode⟩ := filterDropped_iff.mp hdropped
  rw [localityCandidates_eq hloc hset,applyLocality_eq]
  simp only [hdeny,if_false]
  cases hm : loc.mode with
  | strict =>
    simp only [hm] at hmode
    left
    simp [hmode.1,hmode.2]
  | prefer =>
    simp only [hm] at hmode
    left
    rcases hmode with h | h <;> simp [h]
  | failover =>
    simp only [hm] at hmode
    by_cases hnil : lb.residencyFiltered loc cand = []
    · right
      rw [hnil] at hmode hsome ⊢
      simp [hmode,hsome]
    · left
      simp [hmode,hnil]

end Locality

/-- Data residency as a hard constraint on one pick: the endpoint returned is permitted,
and without a permitted candidate there is none. -/
def LbState.ResidencyHeld (lb : LbState) (loc : UpstreamLocality) (base : List ℕ) (outcome : Except Panic Pick) :
    Prop :=
  (∀ p i, outcome = .ok p → p.index = some i → loc.permits (lb.region i) = true) ∧
    ((∀ i ∈ base, ¬ loc.permits (lb.region i) = true) → ∃ p, outcome = .ok p ∧ p.index = none)

/-- Residency binds every pick of an endpoint set, whatever the key and the state of the
balancing cells, exactly when the mode does not drop the filter. -/
theorem residencyHeld_iff {lb : LbState} {loc : UpstreamLocality} (hloc : lb.locality = some loc)
    {ctx : LocalityContext} (hset : ctx.isSet = true) (trackers : Trackers) (m : Moment) :
    (∀ key cells, lb.ResidencyHeld loc (lb.indices (lb.healthCandidates trackers m.nowMs).2)
      (lb.choose ctx trackers cells m key)) ↔
    ¬ lb.FilterDropped loc ctx (lb.healthCandidates trackers m.nowMs).2 := by
  have hnarrows := healthCandidates_narrows lb trackers m.nowMs
  by_cases hpool : lb.endpoints = []
  · have hempty : lb.indices (lb.healthCandidates trackers m.nowMs).2 = [] := by
      have := hnarrows.length_le
      simpa [hpool] using this
    refine ⟨fun _ hd => ?_,fun _ key cells => ⟨fun p i hp hi => ?_,fun _ => ?_⟩⟩
    · obtain ⟨⟨i,hi,-⟩,-⟩ := hd
      exact absurd hi (hempty ▸ List.not_mem_nil)
    · simp only [LbState.choose,hpool,if_true] at hp
      cases hp
      cases hi
    · simp [LbState.choose,hpool]
  generalize hcand : (lb.healthCandidates trackers m.nowMs).2 = cand at hnarrows ⊢
  constructor
  · intro h hd
    obtain ⟨j,hj,hdenied⟩ := hd.1
    rcases localityCandidates_dropped hloc hset hd with hl | ⟨hl,hnil⟩
    · have hback : lb.localityCandidates ctx (lb.healthCandidates trackers m.nowMs).2 = some cand := by
        rw [hcand]
        exact hl
      obtain ⟨cells,p,hp,hpj⟩ := choose_any hpool hback hnarrows hj
      exact hdenied ((h none cells).1 p j hp hpj)
    · obtain ⟨panic,hp⟩ := choose_nil ⟨fun _ => 0,fun _ => 0,fun _ => none,0⟩ none hpool (hcand ▸ hl)
      obtain ⟨p,hok,-⟩ := (h none _).2 (residencyFiltered_eq_nil.mp hnil)
      cases hok.symm.trans hp
  · intro hkept key cells
    have hbase : lb.indices cand ≠ [] := hcand ▸ healthCandidates_ne_nil hpool trackers m.nowMs
    rcases localityCandidates_kept hloc hset hbase hkept with hl | ⟨c,hl,hne,hsub⟩
    · obtain ⟨p,hp,hnone⟩ := choose_denied cells key hpool (hcand ▸ hl)
      refine ⟨fun q i hq hi => ?_,fun _ => ⟨p,hp,hnone⟩⟩
      cases hp.symm.trans hq
      cases hnone.symm.trans hi
    · refine ⟨fun q i hq hi => ?_,fun hall => ?_⟩
      · obtain ⟨k,hk,hindex⟩ := choose_mem hpool (hcand ▸ hl) (hsub.trans (residencyFiltered_sublist.trans hnarrows)) hq
        cases hindex.symm.trans hi
        exact (mem_residencyFiltered.mp (hsub.subset hk)).2
      · have hnil := residencyFiltered_eq_nil.mpr hall
        rw [hnil] at hsub
        exact absurd (List.sublist_nil.mp hsub) hne

/-- One endpoint in the United States and two in zones of Europe, where data must stay. -/
private def regionPool (mode : LocalityMode) : LbState where
  endpoints := [⟨"10.0.0.1",8080,1,some "us",none⟩,⟨"10.0.0.2",8080,1,some "eu",some "a"⟩,
    ⟨"10.0.0.3",8080,1,some "eu",some "b"⟩]
  algorithm := .roundRobin
  slowStartMs := 0
  ring := []
  maglevTable := []
  health := none
  locality := some ⟨mode,true,["eu"],["us"]⟩
  endpoints_lt := by decide
  ring_sorted := emptyRing_sorted
  ring_lt := nofun
  maglev_lt := nofun
  maglev_ne_nil := nofun

private def idleCells : Cells := ⟨fun _ => 0,fun _ => 0,fun _ => none,0⟩

private def steadyMoment : Moment := ⟨0,fun _ => 0,fun _ w => w⟩

theorem residencyHeld_iff_zone : (regionPool .prefer).ResidencyHeld ⟨.prefer,true,["eu"],["us"]⟩ [0,1,2]
    ((regionPool .prefer).choose ⟨some "eu",some "a"⟩ (fun _ => none) idleCells steadyMoment none) := by
  refine (@residencyHeld_iff (regionPool .prefer) _ rfl _ (by decide) (fun _ => none) steadyMoment).mpr ?_ none idleCells
  rintro ⟨-,-,hall | hzone⟩
  · revert hall
    decide
  · have hzones := hzone.2
    revert hzones
    decide

/-- With the edge in Europe, strict locality finds nothing to narrow and hands the
round-robin all three endpoints: it picks the one in the United States. -/
theorem residency_dropped_by_strict : ¬ ∀ (lb : LbState) (loc : UpstreamLocality), lb.locality = some loc →
    ∀ ctx : LocalityContext, ctx.isSet = true → ∀ trackers cells m key,
      lb.ResidencyHeld loc (lb.indices (lb.healthCandidates trackers m.nowMs).2)
        (lb.choose ctx trackers cells m key) := by
  intro h
  have hheld := h (regionPool .strict) _ rfl ⟨some "eu",none⟩ (by decide) (fun _ => none) idleCells steadyMoment none
  have hpick : ∃ p, (regionPool .strict).choose ⟨some "eu",none⟩ (fun _ => none) idleCells steadyMoment none = .ok p ∧
      p.index = some 0 := ⟨_,rfl,rfl⟩
  obtain ⟨p,hp,hi⟩ := hpick
  exact absurd (hheld.1 p 0 hp hi) (by decide)

end Dwara.Dataplane.Balance
