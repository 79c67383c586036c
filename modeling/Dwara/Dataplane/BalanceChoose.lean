import Dwara.Dataplane.BalancePick

/-! A whole pick: what health and locality leave, and what becomes of it. -/

namespace Dwara.Dataplane.Balance
open Dwara.Resilience.Health

variable {lb : LbState} {loc : UpstreamLocality} {ctx : LocalityContext} {trackers : Trackers} {cells : Cells}
  {m : Moment} {key : Option String} {cand : Option (List ℕ)}

section Candidates

theorem healthCandidates_narrows (lb : LbState) (trackers : Trackers) (now : ℕ) : lb.Narrows (lb.healthCandidates trackers now).2 := by
  rw [LbState.healthCandidates]
  split
  · exact List.Sublist.refl _
  · simp only
    split
    · exact List.Sublist.refl _
    · exact List.filter_sublist

/-- Health never leaves a pool without candidates: it fails open. -/
theorem healthCandidates_ne_nil (hpool : lb.endpoints ≠ []) (trackers : Trackers) (now : ℕ) :
    lb.indices (lb.healthCandidates trackers now).2 ≠ [] := by
  have hall : lb.indices none ≠ [] := fun h => hpool (List.length_eq_zero_iff.mp (List.range_eq_nil.mp h))
  rw [LbState.healthCandidates]
  split
  · exact hall
  · simp only
    split
    · exact hall
    · rename_i hne
      exact hne

theorem residencyFiltered_sublist : (lb.residencyFiltered loc cand).Sublist (lb.indices cand) := List.filter_sublist

theorem mem_residencyFiltered {i : ℕ} :
    i ∈ lb.residencyFiltered loc cand ↔ i ∈ lb.indices cand ∧ loc.permits (lb.region i) = true := List.mem_filter

theorem zoneRefined_sublist (lb : LbState) (ctx : LocalityContext) (is : List ℕ) : (lb.zoneRefined ctx is).Sublist is := by
  rw [LbState.zoneRefined]
  simp only
  split
  · split
    · exact List.filter_sublist.trans List.filter_sublist
    · exact List.filter_sublist
  · exact List.filter_sublist

/-- The locality step denies, changes nothing, or restricts the candidates. -/
theorem applyLocality_cases (lb : LbState) (loc : UpstreamLocality) (ctx : LocalityContext) (cand : Option (List ℕ)) :
    lb.applyLocality loc ctx cand = .denied ∨ lb.applyLocality loc ctx cand = .unchanged cand ∨
      ∃ set, lb.applyLocality loc ctx cand = .restricted set ∧ set.Sublist (lb.indices cand) := by
  have hafter : (if (lb.residencyFiltered loc cand).length < (lb.indices cand).length then lb.residencyFiltered loc cand
      else lb.indices cand).Sublist (lb.indices cand) := by
    split
    · exact residencyFiltered_sublist
    · exact List.Sublist.refl _
  rw [LbState.applyLocality]
  simp only
  split
  · exact .inl rfl
  generalize (if (lb.residencyFiltered loc cand).length < (lb.indices cand).length then lb.residencyFiltered loc cand
    else lb.indices cand) = after at hafter ⊢
  have hrefined := (zoneRefined_sublist lb ctx after).trans hafter
  cases loc.mode with
  | strict =>
    simp only
    split
    · exact .inl rfl
    · split
      · exact .inr (.inr ⟨_,rfl,hrefined⟩)
      · exact .inr (.inl rfl)
  | prefer =>
    simp only
    split
    · exact .inr (.inr ⟨_,rfl,hrefined⟩)
    · exact .inr (.inl rfl)
  | failover =>
    simp only
    split
    · split
      · exact .inr (.inr ⟨_,rfl,hrefined⟩)
      · exact .inr (.inl rfl)
    · split
      · exact .inr (.inr ⟨_,rfl,residencyFiltered_sublist⟩)
      · exact .inr (.inl rfl)

theorem localityCandidates_sublist {c : Option (List ℕ)} (h : lb.localityCandidates ctx cand = some c) :
    (lb.indices c).Sublist (lb.indices cand) := by
  rw [LbState.localityCandidates] at h
  split at h
  · cases h
    exact List.Sublist.refl _
  · rename_i loc _
    split at h
    · rcases applyLocality_cases lb loc ctx cand with hd | hu | ⟨set,hr,hsub⟩
      · simp [hd] at h
      · simp only [hu,Option.some.injEq] at h
        exact h ▸ List.Sublist.refl _
      · simp only [hr,Option.some.injEq] at h
        exact h ▸ hsub
    · cases h
      exact List.Sublist.refl _

end Candidates

section Choose

theorem choose_denied (cells : Cells) (key : Option String) (hpool : lb.endpoints ≠ [])
    (hl : lb.localityCandidates ctx (lb.healthCandidates trackers m.nowMs).2 = none) :
    ∃ p, lb.choose ctx trackers cells m key = .ok p ∧ p.index = none := by
  simp [LbState.choose,hpool,hl]

theorem choose_mem (hpool : lb.endpoints ≠ [])
    (hl : lb.localityCandidates ctx (lb.healthCandidates trackers m.nowMs).2 = some cand) (hc : lb.Narrows cand)
    {p : Pick} (hp : lb.choose ctx trackers cells m key = .ok p) : ∃ i ∈ lb.indices cand, p.index = some i := by
  rw [LbState.choose] at hp
  simp only [hpool,hl,if_false] at hp
  split at hp
  · rename_i i hi
    cases hp
    exact ⟨i,hi ▸ List.mem_singleton_self i,rfl⟩
  · split at hp
    · cases hp
    · rename_i i cells' hs
      cases hp
      exact ⟨i,select_mem hc hs,rfl⟩
    · rename_i i cells' hs
      cases hp
      exact ⟨i,select_mem hc hs,rfl⟩

theorem choose_any (hpool : lb.endpoints ≠ [])
    (hl : lb.localityCandidates ctx (lb.healthCandidates trackers m.nowMs).2 = some cand) (hc : lb.Narrows cand) {j : ℕ}
    (hj : j ∈ lb.indices cand) : ∃ cells p, lb.choose ctx trackers cells m none = .ok p ∧ p.index = some j := by
  unfold LbState.choose
  simp only [hpool,hl,if_false]
  split
  · rename_i i hi
    obtain rfl : j = i := List.mem_singleton.mp (hi ▸ hj)
    exact ⟨⟨fun _ => 0,fun _ => 0,fun _ => none,0⟩,_,rfl,rfl⟩
  · rename_i hmany
    have htwo : 2 ≤ (lb.indices cand).length := by
      match hlist : lb.indices cand with
      | [] => exact absurd hj (hlist ▸ List.not_mem_nil)
      | [i] => exact absurd hlist (hmany i)
      | _ :: _ :: _ => simp
    obtain ⟨cells,p,hp⟩ := select_any (m := m) hc htwo hj
    exact ⟨cells,_,by rw [hp],rfl⟩

theorem choose_nil (cells : Cells) (key : Option String) (hpool : lb.endpoints ≠ [])
    (hl : lb.localityCandidates ctx (lb.healthCandidates trackers m.nowMs).2 = some (some [])) :
    ∃ panic, lb.choose ctx trackers cells m key = .error panic := by
  obtain ⟨panic,hp⟩ := select_nil m cells key hpool (show lb.indices (some []) = [] from rfl)
  refine ⟨panic,?_⟩
  rw [LbState.choose]
  simp only [hpool,hl,if_false]
  rw [hp]
  rfl

/-- A keyed maglev pick among several candidates returns its table entry at once. -/
def LbState.ReturnsEarly (lb : LbState) (ctx : LocalityContext) (healthCand : Option (List ℕ)) (key : Option String)
    (i : ℕ) : Prop :=
  lb.algorithm = .maglev ∧ ∃ k cand, key = some k ∧ lb.localityCandidates ctx healthCand = some cand ∧
    (lb.indices cand).length ≠ 1 ∧
    maglevOwner lb.maglevTable (keyHash k) (lb.filtered cand) (lb.eligible cand) = some i

/-- What a pick does to the trackers: it asks them all, and the endpoint it selects
spends a slot unless it is returned early. -/
theorem choose_trackers (hpool : lb.endpoints ≠ []) (hhealth : lb.health.isSome = true) {p : Pick}
    (hp : lb.choose ctx trackers cells m key = .ok p) :
    (p.index = none ∧ p.trackers = (lb.healthCandidates trackers m.nowMs).1) ∨
    ∃ i ∈ lb.indices (lb.healthCandidates trackers m.nowMs).2, p.index = some i ∧
      (p.trackers = (lb.healthCandidates trackers m.nowMs).1.consumeProbe i ∨
        p.trackers = (lb.healthCandidates trackers m.nowMs).1 ∧
          lb.ReturnsEarly ctx (lb.healthCandidates trackers m.nowMs).2 key i) := by
  cases hl : lb.localityCandidates ctx (lb.healthCandidates trackers m.nowMs).2 with
  | none =>
    left
    simp only [LbState.choose,hpool,hl,if_false] at hp
    cases hp
    exact ⟨rfl,rfl⟩
  | some cand =>
    right
    have hsub := localityCandidates_sublist hl
    have hnarrows : lb.Narrows cand := hsub.trans (healthCandidates_narrows lb trackers m.nowMs)
    obtain ⟨i,hi,hindex⟩ := choose_mem hpool hl hnarrows hp
    refine ⟨i,hsub.subset hi,hindex,?_⟩
    rw [LbState.choose] at hp
    simp only [hpool,hl,hhealth,if_false,if_true] at hp
    split at hp
    · cases hp
      cases hindex
      exact .inl rfl
    · rename_i hmany
      split at hp
      · cases hp
      · rename_i j cells' hs
        cases hp
        cases hindex
        obtain ⟨halg,k,hk,howner⟩ := select_returned hpool hs
        refine .inr ⟨rfl,halg,k,cand,hk,hl,fun hone => ?_,howner⟩
        obtain ⟨a,ha⟩ := List.length_eq_one_iff.mp hone
        exact hmany a ha
      · rename_i j cells' hs
        cases hp
        cases hindex
        exact .inl rfl

end Choose

section Respects
variable {now i : ℕ}

/-- Health lets a pick consider the endpoint. -/
def LbState.Candidate (lb : LbState) (trackers : Trackers) (now i : ℕ) : Prop :=
  i < lb.endpoints.length ∧ ∀ params, lb.health = some params → (trackers i).all (fun h => (h.isCandidate params now).2) = true

/-- What a pick chooses from: the candidates, or every endpoint where there is no candidate. -/
def LbState.Contender (lb : LbState) (trackers : Trackers) (now i : ℕ) : Prop :=
  lb.Candidate trackers now i ∨ i < lb.endpoints.length ∧ ∀ j, ¬ lb.Candidate trackers now j

/-- The ejection still runs, or the trial slots of the half-open endpoint are spent. -/
def Withheld (h : EndpointHealth) (now : ℕ) : Prop :=
  h.status = .ejected ∧ now < h.ejectedUntilMs ∨ h.status = .halfOpen ∧ h.probesRemaining = 0

theorem not_isCandidate_iff (h : EndpointHealth) (params : HealthParams) (now : ℕ) :
    (h.isCandidate params now).2 = false ↔ Withheld h now := by
  cases hst : h.status with
  | healthy => simp [EndpointHealth.isCandidate,Withheld,hst]
  | ejected =>
    by_cases hearly : now < h.ejectedUntilMs
    · simp [EndpointHealth.isCandidate,Withheld,hst,hearly]
    · simp [EndpointHealth.isCandidate,Withheld,hst,hearly]
  | halfOpen => simp [EndpointHealth.isCandidate,Withheld,hst]

theorem mem_available {params : HealthParams} (hhealth : lb.health = some params) :
    i ∈ lb.available params trackers now ↔ lb.Candidate trackers now i := by
  simp [LbState.available,LbState.Candidate,hhealth]

/-- Nothing is available where every endpoint is withheld. -/
theorem available_eq_nil_iff (params : HealthParams) : lb.available params trackers now = [] ↔
    ∀ i < lb.endpoints.length, ∃ h, trackers i = some h ∧ Withheld h now := by
  rw [LbState.available,List.filter_eq_nil_iff]
  constructor
  · intro hnone i hi
    have hfalse := hnone i (List.mem_range.mpr hi)
    cases htracker : trackers i with
    | none => simp [htracker] at hfalse
    | some h =>
      rw [htracker,Option.all_some,Bool.not_eq_true] at hfalse
      exact ⟨h,rfl,(not_isCandidate_iff h params now).mp hfalse⟩
  · intro hall i hi
    obtain ⟨h,htracker,hheld⟩ := hall i (List.mem_range.mp hi)
    rw [htracker,Option.all_some,Bool.not_eq_true]
    exact (not_isCandidate_iff h params now).mpr hheld

theorem mem_healthCandidates (lb : LbState) (trackers : Trackers) (now i : ℕ) :
    i ∈ lb.indices (lb.healthCandidates trackers now).2 ↔ lb.Contender trackers now i := by
  cases hhealth : lb.health with
  | none =>
    have hcandidate : ∀ j, lb.Candidate trackers now j ↔ j < lb.endpoints.length := fun j => by
      simp [LbState.Candidate,hhealth]
    simp only [LbState.healthCandidates,hhealth,LbState.indices,Option.getD_none,List.mem_range,LbState.Contender,hcandidate]
    exact ⟨.inl,fun h => h.elim id And.left⟩
  | some params =>
    have hmem : ∀ j, j ∈ lb.available params trackers now ↔ lb.Candidate trackers now j := fun j => mem_available hhealth
    simp only [LbState.healthCandidates,hhealth,LbState.Contender]
    split
    · rename_i hnone
      have hno : ∀ j, ¬ lb.Candidate trackers now j := fun j hj => List.not_mem_nil (hnone ▸ (hmem j).mpr hj)
      simp only [LbState.indices,Option.getD_none,List.mem_range]
      exact ⟨fun hi => .inr ⟨hi,hno⟩,fun h => h.elim And.left And.left⟩
    · rename_i hsome
      obtain ⟨j,hj⟩ := List.exists_mem_of_ne_nil _ hsome
      simp only [LbState.indices,Option.getD_some,hmem]
      exact ⟨.inl,fun h => h.elim id fun hall => absurd ((hmem j).mp hj) (hall.2 j)⟩

/-- A pick fails open when health withholds every endpoint. -/
theorem fails_open_iff (lb : LbState) (trackers : Trackers) (now : ℕ) :
    (lb.health.isSome && (lb.healthCandidates trackers now).2.isNone) = true ↔
      lb.health.isSome = true ∧ ∀ i < lb.endpoints.length, ∃ h, trackers i = some h ∧ Withheld h now := by
  cases hhealth : lb.health with
  | none => simp
  | some params =>
    simp only [LbState.healthCandidates,hhealth,Option.isSome_some,Bool.true_and,true_and]
    rw [← available_eq_nil_iff params]
    split
    · rename_i hnone
      simp [hnone]
    · rename_i hsome
      simp [hsome]

/-- What the two algorithms that compare scores select. -/
theorem select_score {p : Selection × Cells} (h : lb.select m cells cand key = .ok p) {j : ℕ} (hj : j ∈ lb.indices cand) :
    (lb.algorithm = .leastRequests → cells.inflight p.1.index < cells.inflight j ∨
      cells.inflight p.1.index = cells.inflight j ∧ p.1.index ≤ j) ∧
    (lb.algorithm = .peakEwma → ewmaScore cells p.1.index < ewmaScore cells j ∨
      ewmaScore cells p.1.index = ewmaScore cells j ∧ p.1.index ≤ j) := by
  constructor
  · intro halg
    simp only [LbState.select,halg] at h
    split at h
    · rename_i i hi
      cases h
      exact minByKey_first hi j hj
    · cases h
  · intro halg
    simp only [LbState.select,halg] at h
    split at h
    · rename_i i hi
      cases h
      exact minByKey_first hi j hj
    · cases h

/-- A pool of one endpoint with one trial slot. -/
private def solePool : LbState where
  endpoints := [⟨"10.0.0.1",8080,1,none,none⟩]
  algorithm := .leastRequests
  slowStartMs := 0
  ring := []
  maglevTable := []
  health := some ⟨1000,1,fun _ _ => false,10,100,1,Nat.one_pos⟩
  locality := none
  endpoints_lt := by decide
  ring_sorted := emptyRing_sorted
  ring_lt := nofun
  maglev_lt := nofun
  maglev_ne_nil := nofun

private def soleCells : Cells := ⟨fun _ => 0,fun _ => 0,fun _ => none,0⟩

private def soleMoment (now : ℕ) : Moment := ⟨now,fun _ => 0,fun _ w => w⟩

/-- The ejection of the endpoint runs until 100 ms. -/
private def soleEjected : Trackers := fun _ => some ⟨.ejected,100,0,0,[],1,0⟩

end Respects

end Dwara.Dataplane.Balance
