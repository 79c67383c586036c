import Dwara.Dataplane.BalanceChoose
import Dwara.Lib.Machine

/-! The trial slots of half-open endpoints over runs of picks and reports. -/

namespace Dwara.Dataplane.Balance
open Dwara.Lib Dwara.Resilience.Health

/-- What happens to the trackers of one endpoint set. Other requests may leave the
balancing cells in any state between two picks. -/
inductive Call where
  | pick (ctx : LocalityContext) (m : Moment) (cells : Cells) (key : Option String)
  | report (i : ℕ) (params : HealthParams) (now systemNow : ℕ) (isFailure : Bool)
  | reportProbe (i : ℕ) (params : HealthParams) (now systemNow : ℕ) (isFailure : Bool)

/-- An outcome of endpoint `i` is reported. -/
def Call.ReportsOn (i : ℕ) : Call → Prop
  | .pick .. => False
  | .report j .. => j = i
  | .reportProbe j .. => j = i

def Call.now : Call → ℕ
  | .pick _ m _ _ => m.nowMs
  | .report _ _ now _ _ => now
  | .reportProbe _ _ now _ _ => now

def Trackers.observe (s : Trackers) (i : ℕ) (f : EndpointHealth → EndpointHealth) : Trackers :=
  Function.update s i ((s i).map f)

/-- One endpoint set under calls; a pick answers its endpoint. -/
def machine (lb : LbState) : Machine Trackers Call (Option ℕ) where
  step s
    | .pick ctx m cells key =>
      match lb.choose ctx s cells m key with
      | .ok p => (p.trackers,p.index)
      | .error _ => ((lb.healthCandidates s m.nowMs).1,none)
    | .report i params now systemNow isFailure => (s.observe i (·.report params now systemNow isFailure),none)
    | .reportProbe i params now systemNow isFailure => (s.observe i (·.reportProbe params now systemNow isFailure),none)

abbrev CallStep := Transition Trackers Call (Option ℕ)

/-- The trackers once the pick has asked every endpoint whether it is a candidate. -/
def LbState.asked (lb : LbState) (s : Trackers) : Call → Trackers
  | .pick _ m _ _ => (lb.healthCandidates s m.nowMs).1
  | _ => s

def Trackers.slots (s : Trackers) (i : ℕ) : Option ℕ := (s i).bind EndpointHealth.slots

/-- The pick does not return early with an endpoint that has a slot to spend. -/
def LbState.Spends (lb : LbState) (s : Trackers) : Call → Prop
  | .pick ctx m cells key => ∀ i, lb.ReturnsEarly ctx (lb.healthCandidates s m.nowMs).2 key i →
      ∀ n, (lb.asked s (.pick ctx m cells key)).slots i ≠ some (n + 1)
  | _ => True

/-- The pick selects `i` while another endpoint is a candidate. -/
def LbState.contested (lb : LbState) (params : HealthParams) (i : ℕ) (t : CallStep) : Bool :=
  t.output = some i && match t.input with
    | .pick _ m _ _ => (lb.available params t.before m.nowMs).any (· ≠ i)
    | _ => false

/-- An ejected endpoint becomes half-open. -/
def Opens (i : ℕ) (t : CallStep) : Prop :=
  (∃ h, t.before i = some h ∧ h.status = .ejected) ∧ ∃ n, t.after.slots i = some n

section Slots
variable {lb : LbState} {params : HealthParams} {s : Trackers} {i j n : ℕ} {c : Call}

theorem slots_consumeProbe (s : Trackers) (i j : ℕ) :
    (s.consumeProbe j).slots i = if i = j then (s.slots i).map (· - 1) else s.slots i := by
  by_cases h : i = j
  · subst h
    simp only [Trackers.slots,Trackers.consumeProbe,Function.update_self,if_true]
    cases s i with
    | none => rfl
    | some h => exact h.slots_consumeProbe
  · simp [Trackers.slots,Trackers.consumeProbe,h]

theorem slots_observe_of_ne (f : EndpointHealth → EndpointHealth) (h : i ≠ j) : (s.observe j f).slots i = s.slots i := by
  simp [Trackers.slots,Trackers.observe,Function.update_of_ne h]

theorem slots_observe_none (f : EndpointHealth → EndpointHealth) (j : ℕ) (hs : s.slots i = none) (hf : ∀ h, (f h).slots = none) :
    (s.observe j f).slots i = none := by
  by_cases h : i = j
  · subst h
    simp only [Trackers.slots,Trackers.observe,Function.update_self]
    cases s i with
    | none => rfl
    | some h => exact hf h
  · rw [slots_observe_of_ne f h,hs]

private theorem healthCandidates_fst (hhealth : lb.health = some params) (s : Trackers) (now : ℕ) :
    (lb.healthCandidates s now).1 = lb.askedTrackers params s now := by
  simp [LbState.healthCandidates,hhealth]

private theorem asked_apply (hhealth : lb.health = some params) (s : Trackers) (ctx : LocalityContext) (m : Moment)
    (cells : Cells) (key : Option String) (i : ℕ) : (lb.asked s (.pick ctx m cells key)) i =
      if i < lb.endpoints.length then (s i).map (fun h => (h.isCandidate params m.nowMs).1) else s i := by
  simp only [LbState.asked,healthCandidates_fst hhealth]
  rfl

/-- Being asked changes no slot of an endpoint that is half-open already. -/
theorem slots_asked (hhealth : lb.health = some params) (hs : s.slots i = some n) (c : Call) :
    (lb.asked s c).slots i = some n := by
  cases c with
  | pick ctx m cells key =>
    rw [Trackers.slots,asked_apply hhealth]
    split
    · obtain ⟨h,hi,hn⟩ := Option.bind_eq_some_iff.mp hs
      rw [hi,Option.map_some,h.isCandidate_of_slots hn,Option.bind_some]
      exact hn
    · exact hs
  | report => exact hs
  | reportProbe => exact hs

/-- Asking an ejected endpoint leaves it without slots or gives it the full budget. -/
theorem slots_asked_of_ejected (hhealth : lb.health = some params) {h : EndpointHealth} (hi : s i = some h)
    (hejected : h.status = .ejected) (c : Call) :
    (lb.asked s c).slots i = none ∨ (lb.asked s c).slots i = some params.halfOpenProbes := by
  have hnone : s.slots i = none := by
    simp [Trackers.slots,hi,EndpointHealth.slots,hejected]
  cases c with
  | pick ctx m cells key =>
    simp only [Trackers.slots,asked_apply hhealth]
    split
    · rw [hi,Option.map_some,Option.bind_some]
      by_cases hearly : m.nowMs < h.ejectedUntilMs
      · left
        simp [EndpointHealth.isCandidate,hejected,hearly,EndpointHealth.slots]
      · right
        simp [EndpointHealth.isCandidate,hejected,hearly,EndpointHealth.slots,EndpointHealth.arm]
    · exact .inl hnone
  | report => exact .inl hnone
  | reportProbe => exact .inl hnone

/-- A selected half-open endpoint has a slot while another endpoint is a candidate. -/
theorem slots_pos_of_contested (hhealth : lb.health = some params) {ctx : LocalityContext} {m : Moment} {cells : Cells}
    {key : Option String} (hmem : i ∈ lb.indices (lb.healthCandidates s m.nowMs).2)
    (hother : (lb.available params s m.nowMs).any (· ≠ i) = true)
    (hn : (lb.asked s (.pick ctx m cells key)).slots i = some n) : 1 ≤ n := by
  have hne : lb.available params s m.nowMs ≠ [] := by
    intro h
    simp [h] at hother
  have havail : i ∈ lb.available params s m.nowMs := by
    simpa [LbState.healthCandidates,hhealth,hne,LbState.indices] using hmem
  obtain ⟨hlt,hall⟩ := List.mem_filter.mp havail
  rw [List.mem_range] at hlt
  rw [Trackers.slots,asked_apply hhealth,if_pos hlt] at hn
  obtain ⟨h,hi,hslots⟩ := Option.bind_eq_some_iff.mp hn
  obtain ⟨h₀,hi₀,rfl⟩ := Option.map_eq_some_iff.mp hi
  rw [hi₀] at hall
  exact EndpointHealth.slots_pos_of_isCandidate hall hslots

/-- Everything a pick can do: nothing more than asking, or selecting an endpoint. -/
theorem pick_cases (hhealth : lb.health = some params) (s : Trackers) (ctx : LocalityContext) (m : Moment)
    (cells : Cells) (key : Option String) :
    ((machine lb).answer s (.pick ctx m cells key) = none ∧
      (machine lb).next s (.pick ctx m cells key) = lb.asked s (.pick ctx m cells key)) ∨
    ∃ i ∈ lb.indices (lb.healthCandidates s m.nowMs).2, (machine lb).answer s (.pick ctx m cells key) = some i ∧
      ((machine lb).next s (.pick ctx m cells key) = (lb.asked s (.pick ctx m cells key)).consumeProbe i ∨
        (machine lb).next s (.pick ctx m cells key) = lb.asked s (.pick ctx m cells key) ∧
          lb.ReturnsEarly ctx (lb.healthCandidates s m.nowMs).2 key i) := by
  by_cases hpool : lb.endpoints = []
  · left
    have hasked : lb.askedTrackers params s m.nowMs = s := by
      funext i
      simp [LbState.askedTrackers,hpool]
    simp [Machine.answer,Machine.next,machine,LbState.choose,hpool,LbState.asked,healthCandidates_fst hhealth,hasked]
  · cases hp : lb.choose ctx s cells m key with
    | error panic => exact .inl (by simp [Machine.answer,Machine.next,machine,hp,LbState.asked])
    | ok p =>
      have hsome : lb.health.isSome = true := by simp [hhealth]
      simpa [Machine.answer,Machine.next,machine,hp,LbState.asked] using choose_trackers hpool hsome hp

end Slots

section Budget
variable {lb : LbState} {params : HealthParams} {s : Trackers} {i n : ℕ} {c : Call}

/-- A pick that selects an endpoint with slots left spends exactly one. -/
theorem selected_spends (hhealth : lb.health = some params) (hc : lb.Spends s c)
    (hout : (machine lb).answer s c = some i) (hn : (lb.asked s c).slots i = some (n + 1)) :
    ((machine lb).next s c).slots i = some n := by
  cases c with
  | report => cases hout
  | reportProbe => cases hout
  | pick ctx m cells key =>
    rcases pick_cases hhealth s ctx m cells key with ⟨hnone,-⟩ | ⟨j,-,hj,hnext | ⟨-,hearly⟩⟩
    · cases hnone.symm.trans hout
    · cases hj.symm.trans hout
      rw [hnext,slots_consumeProbe,if_pos rfl,hn]
      rfl
    · cases hj.symm.trans hout
      exact absurd hn (hc _ hearly n)

/-- A step without a report on a half-open endpoint takes a slot for each contested pick. -/
theorem contested_step (hhealth : lb.health = some params) (hc : lb.Spends s c) (hquiet : ¬ c.ReportsOn i)
    (hn : (lb.asked s c).slots i = some n) :
    ∃ left, ((machine lb).next s c).slots i = some left ∧
      left + (if lb.contested params i ((machine lb).fire s c) then 1 else 0) ≤ n := by
  cases c with
  | report j ps now systemNow isFailure =>
    exact ⟨n,(slots_observe_of_ne _ (fun h => hquiet h.symm)).trans hn,by simp [LbState.contested,Machine.fire]⟩
  | reportProbe j ps now systemNow isFailure =>
    exact ⟨n,(slots_observe_of_ne _ (fun h => hquiet h.symm)).trans hn,by simp [LbState.contested,Machine.fire]⟩
  | pick ctx m cells key =>
    rcases pick_cases hhealth s ctx m cells key with ⟨hnone,hnext⟩ | ⟨j,hmem,hj,hnext⟩
    · exact ⟨n,by rw [hnext,hn],by simp [LbState.contested,Machine.fire,hnone]⟩
    by_cases hij : i = j
    · subst hij
      have hslot : lb.contested params i ((machine lb).fire s (.pick ctx m cells key)) = true → 1 ≤ n := fun h => by
        simp only [LbState.contested,Bool.and_eq_true] at h
        exact slots_pos_of_contested hhealth hmem h.2 hn
      rcases hnext with hnext | ⟨hnext,hearly⟩
      · refine ⟨n - 1,by rw [hnext,slots_consumeProbe,if_pos rfl,hn]; rfl,?_⟩
        split
        · have := hslot (by assumption)
          omega
        · omega
      · have hzero : n = 0 := by
          cases n with
          | zero => rfl
          | succ n => exact absurd hn (hc i hearly n)
        refine ⟨n,by rw [hnext,hn],?_⟩
        split
        · have := hslot (by assumption)
          omega
        · omega
    · have hother : ((machine lb).next s (.pick ctx m cells key)).slots i = some n := by
        rcases hnext with hnext | ⟨hnext,-⟩
        · rw [hnext,slots_consumeProbe,if_neg hij,hn]
        · rw [hnext,hn]
      have hanswer : (machine lb).answer s (.pick ctx m cells key) ≠ some i := fun h => by
        cases hj.symm.trans h
        exact hij rfl
      exact ⟨n,hother,by simp [LbState.contested,Machine.fire,hanswer]⟩

/-- Until its next report a half-open endpoint is selected against others at most as
often as it has slots. -/
theorem contested_run (hhealth : lb.health = some params) {during : List Call} (hs : s.slots i = some n)
    (hd : ∀ t ∈ (machine lb).trace s during, lb.Spends t.before t.input) (hquiet : ∀ c ∈ during, ¬ c.ReportsOn i) :
    ((machine lb).trace s during).countP (lb.contested params i) ≤ n := by
  induction during generalizing s n with
  | nil => exact Nat.zero_le _
  | cons c cs ih =>
    rw [Machine.trace_cons] at hd ⊢
    obtain ⟨left,hleft,hle⟩ := contested_step (s := s) (c := c) hhealth (hd _ List.mem_cons_self) (hquiet c List.mem_cons_self)
      (slots_asked hhealth hs c)
    have hrest := ih hleft (fun t ht => hd t (List.mem_cons_of_mem _ ht)) (fun c hc => hquiet c (List.mem_cons_of_mem _ hc))
    rw [List.countP_cons]
    omega

/-- The step that makes an endpoint half-open gives it the full budget of slots. -/
theorem slots_of_opens (hhealth : lb.health = some params) (ho : Opens i ((machine lb).fire s c)) :
    ¬ c.ReportsOn i ∧ (lb.asked s c).slots i = some params.halfOpenProbes := by
  obtain ⟨⟨h,(hi : s i = some h),hejected⟩,n,hn⟩ := ho
  have hnone : s.slots i = none := by
    simp [Trackers.slots,hi,EndpointHealth.slots,hejected]
  rw [Machine.fire_after] at hn
  cases c with
  | pick ctx m cells key =>
    refine ⟨id,(slots_asked_of_ejected hhealth hi hejected _).resolve_left (fun hasked => ?_)⟩
    rcases pick_cases hhealth s ctx m cells key with ⟨-,hnext⟩ | ⟨j,-,-,hnext | ⟨hnext,-⟩⟩
    · cases (hnext ▸ hn).symm.trans hasked
    · rw [hnext,slots_consumeProbe,hasked] at hn
      split at hn <;> cases hn
    · cases (hnext ▸ hn).symm.trans hasked
  | report j ps now systemNow isFailure =>
    have hstill := slots_observe_none (·.report ps now systemNow isFailure) j hnone
      (fun _ => EndpointHealth.slots_applyObservation _ _ _ _ _)
    cases hstill.symm.trans hn
  | reportProbe j ps now systemNow isFailure =>
    have hstill := slots_observe_none (·.reportProbe ps now systemNow isFailure) j hnone
      (fun _ => EndpointHealth.slots_applyObservation _ _ _ _ _)
    cases hstill.symm.trans hn

end Budget

/-- The half-open probe budget over one run of picks and reports: each pick that selects
an endpoint with slots left spends exactly one, and from the step that makes an endpoint
half-open until its next report it is selected, while others are candidates, at most
`halfOpenProbes` times. -/
def LbState.BudgetHeld (lb : LbState) (params : HealthParams) (start : Trackers) (calls : List Call) : Prop :=
  (∀ t ∈ (machine lb).trace start calls, ∀ i n, t.output = some i → (lb.asked t.before t.input).slots i = some (n + 1) →
    t.after.slots i = some n) ∧
  (∀ i before opening during rest, calls = before ++ opening :: (during ++ rest) →
    Opens i ((machine lb).fire ((machine lb).run start before) opening) → (∀ c ∈ during, ¬ c.ReportsOn i) →
    ((machine lb).trace ((machine lb).run start before) (opening :: during)).countP (lb.contested params i) ≤
      params.halfOpenProbes)

/-- The budget holds on every run in which no pick returns early with an endpoint that
has slots left, whatever the algorithm. -/
theorem probe_budget (lb : LbState) (params : HealthParams) (hhealth : lb.health = some params) (start : Trackers)
    (calls : List Call) (hspends : ∀ t ∈ (machine lb).trace start calls, lb.Spends t.before t.input) :
    lb.BudgetHeld params start calls := by
  constructor
  · intro t ht i n hout hn
    obtain ⟨s,c,rfl⟩ := (machine lb).fire_of_mem_trace ht
    exact selected_spends hhealth (hspends _ ht) hout hn
  · rintro i before opening during rest rfl hopens hquiet
    have hd : ∀ t ∈ (machine lb).trace ((machine lb).run start before) (opening :: during),
        lb.Spends t.before t.input := by
      intro t ht
      apply hspends t
      rw [← List.cons_append,← List.append_assoc,Machine.trace_append,Machine.trace_append]
      exact List.mem_append_left _ (List.mem_append_right _ ht)
    obtain ⟨hloud,hfull⟩ := slots_of_opens hhealth hopens
    rw [Machine.trace_cons] at hd ⊢
    obtain ⟨left,hleft,hle⟩ := contested_step (c := opening) hhealth (hd _ List.mem_cons_self) hloud hfull
    have hrest := contested_run hhealth hleft (fun t ht => hd t (List.mem_cons_of_mem _ ht)) hquiet
    rw [List.countP_cons]
    exact (Nat.add_le_add_right hrest _).trans hle

/-- One failure ejects for a tenth of a second, then one trial request is let through. -/
private def strictParams : HealthParams := ⟨1000,1,fun _ _ => false,10,100,1,by decide⟩

private def trialPool (algorithm : LoadBalancer) : LbState where
  endpoints := [⟨"10.0.0.1",8080,1,none,none⟩,⟨"10.0.0.2",8080,1,none,none⟩]
  algorithm := algorithm
  slowStartMs := 0
  ring := []
  maglevTable := [0,1]
  health := some strictParams
  locality := none
  endpoints_lt := by decide
  ring_sorted := emptyRing_sorted
  ring_lt := nofun
  maglev_lt := by decide
  maglev_ne_nil := fun _ _ => by decide

private def pickAt (now : ℕ) (key : Option String) : Call :=
  .pick ⟨none,none⟩ ⟨now,fun _ => 0,fun _ w => w⟩ ⟨fun _ => 0,fun _ => 0,fun _ => none,0⟩ key

private def bothFail : List Call := [.report 0 strictParams 0 0 true,.report 1 strictParams 0 0 true]

/-- Both endpoints fail once; two picks follow once their ejections have expired. -/
private def trialRun (key : Option String) : List Call := bothFail ++ [pickAt 200 key,pickAt 201 key]

private def freshTrackers : Trackers := fun _ => some EndpointHealth.new

theorem probe_budget_keyless : (trialPool .maglev).BudgetHeld strictParams freshTrackers (trialRun none) := by
  refine probe_budget _ _ rfl _ _ ?_
  intro t ht
  have hin := (machine (trialPool .maglev)).input_mem_of_mem_trace ht
  simp only [trialRun,bothFail,List.cons_append,List.nil_append,List.mem_cons,List.not_mem_nil,or_false] at hin
  rcases hin with hc | hc | hc | hc
  all_goals rw [hc]
  · trivial
  · trivial
  all_goals
    rintro i ⟨-,k,cand,hk,-⟩
    cases hk

/-- The clock never goes back. -/
def Clocked (calls : List Call) : Prop := calls.Pairwise (fun a b => a.now ≤ b.now)

/-- With a key, maglev returns the same half-open endpoint twice on a budget of one. -/
theorem maglev_overspends : ¬ ∀ (lb : LbState) (params : HealthParams), lb.health = some params →
    ∀ start calls, Clocked calls → lb.BudgetHeld params start calls := by
  intro h
  have hclock : Clocked (trialRun (some "alice")) := by
    simp [Clocked,trialRun,bothFail,pickAt,Call.now]
  have hheld := h (trialPool .maglev) strictParams rfl freshTrackers (trialRun (some "alice")) hclock
  have hopens : Opens 0 ((machine (trialPool .maglev)).fire ((machine (trialPool .maglev)).run freshTrackers bothFail)
      (pickAt 200 (some "alice"))) :=
    ⟨⟨⟨.ejected,100,0,0,[],1,0⟩,by decide +kernel,rfl⟩,1,by decide +kernel⟩
  have hbound := hheld.2 0 bothFail (pickAt 200 (some "alice")) [pickAt 201 (some "alice")] [] rfl hopens
    (by simp [Call.ReportsOn,pickAt])
  exact absurd hbound (by decide +kernel)

end Dwara.Dataplane.Balance
