import Dwara.Dataplane.AttemptLoop

/-! Whether every admission of the breaker is answered by a report. -/

namespace Dwara.Dataplane.Attempts
open Dwara.Lib Dwara.Resilience Dwara.Resilience.Breaker

/-- The phase of a request the breaker admitted and whose attempt is under way. -/
def admittedPhase : AttemptPhase → Bool
  | .sending setup _ _ => setup.breaker.isSome
  | _ => false

def inFlight (s : Attempts) (i : ℕ) : Bool := admittedPhase (s.phase i)

/-- Every admission of a request was answered by one report, the attempt under way apart. -/
def Balanced (s : Attempts) : Prop := ∀ i, s.allowed i = s.reported i + (s.inFlight i).toNat

/-- While the breaker probes, a probe is under way. -/
def Probing (s : Attempts) : Prop :=
  ∀ left, s.breaker.state = .halfOpen left → ∃ i setup tries, s.phase i = .sending setup tries true ∧ setup.breaker.isSome

/-- The event ends no admitted attempt without a report: not by a result that is kept
from the breaker, not by the grpc deadline and not by the client going away. -/
def Answered (s : Attempts) : AttemptEvent → Prop
  | .answer i _ sent _ => s.inFlight i → ∀ e, sent.result = .error e → signatureBodyMismatch e = false ∧ breakerReportable e
  | .deadline i => s.inFlight i = false
  | .abandon i => s.inFlight i = false
  | _ => True

theorem breakerReport_isSome_iff {result : Except UpstreamError ℕ} :
    (breakerReport result).isSome ↔ ∀ e, result = .error e → signatureBodyMismatch e = false ∧ breakerReportable e := by
  cases result with
  | ok status => simp [breakerReport]
  | error e => cases hm : signatureBodyMismatch e <;> cases hr : breakerReportable e <;> simp [breakerReport,hm,hr]

theorem reportBreaker_reported (s : Attempts) (breaker : Option BreakerParams) (i now : ℕ) (report : Option Bool) (byClient : Bool) :
    (s.reportBreaker breaker i now report byClient).reported =
      Function.update s.reported i (s.reported i + (breaker.isSome && report.isSome).toNat) := by
  cases breaker <;> cases report <;> simp [reportBreaker,charge]

theorem inFlight_of_phase {s : Attempts} {i : ℕ} {phase : AttemptPhase} (h : s.phase i = phase) : s.inFlight i = admittedPhase phase := by
  rw [inFlight,h]

theorem admittedPhase_afterAttempt (setup : AttemptSetup) (tries : ℕ) (sent : Sent) (moment : RetryMoment) :
    admittedPhase (afterAttempt setup tries sent moment) = false := by
  cases h : afterAttempt setup tries sent moment with
  | sending setup' tries' probe => exact absurd h (afterAttempt_ne_sending setup setup' tries tries' sent moment probe)
  | _ => rfl

section Step
variable {s s' : Attempts} {event : AttemptEvent}

/-- Where only request `i` moves, its own counts decide. -/
theorem balanced_goto_iff {i : ℕ} {phase : AttemptPhase} {t : Attempts} (hs : s.Balanced) (hphase : t.phase = s.phase)
    (hallowed : ∀ j, j ≠ i → t.allowed j = s.allowed j) (hreported : ∀ j, j ≠ i → t.reported j = s.reported j) :
    (t.goto i phase).Balanced ↔ t.allowed i = t.reported i + (admittedPhase phase).toNat := by
  have hi : (t.goto i phase).inFlight i = admittedPhase phase := inFlight_of_phase (by rw [goto_phase,Function.update_self])
  constructor
  · intro h
    rw [← hi]
    exact h i
  · intro h j
    by_cases hj : j = i
    · subst hj
      rw [hi]
      exact h
    · have hflight : (t.goto i phase).inFlight j = s.inFlight j := by
        rw [inFlight,inFlight,goto_phase,Function.update_of_ne hj,hphase]
      rw [goto_allowed,goto_reported,hallowed j hj,hreported j hj,hflight]
      exact hs j

/-- A request that is not in an attempt may move on to where it is not in one either. -/
theorem balanced_goto_idle {i : ℕ} {before phase : AttemptPhase} {t : Attempts} (hs : s.Balanced) (hi : s.phase i = before)
    (hbefore : admittedPhase before = false) (hafter : admittedPhase phase = false) (hphase : t.phase = s.phase)
    (hallowed : t.allowed = s.allowed) (hreported : t.reported = s.reported) : (t.goto i phase).Balanced := by
  refine (balanced_goto_iff hs hphase (fun _ _ => by rw [hallowed]) (fun _ _ => by rw [hreported])).mpr ?_
  have hcounts := hs i
  rw [inFlight_of_phase hi,hbefore] at hcounts
  rw [hallowed,hreported,hafter]
  exact hcounts

/-- An attempt that ends without a report keeps the balance only if nobody admitted it. -/
theorem balanced_goto_through {i : ℕ} (hs : s.Balanced) : (s.goto i .through).Balanced ↔ s.inFlight i = false := by
  rw [balanced_goto_iff hs rfl (fun _ _ => rfl) (fun _ _ => rfl),hs i]
  cases s.inFlight i <;> simp [admittedPhase]

/-- A step keeps the balance just when it ends no admitted attempt without a report. -/
theorem balanced_step_iff (hs : s.Balanced) (h : step s event = some s') : s'.Balanced ↔ Answered s event := by
  cases Move.of_step h with
  | arrive hi => exact iff_of_true (balanced_goto_idle hs hi rfl rfl rfl rfl rfl) trivial
  | pass hi hb => exact iff_of_true (balanced_goto_idle hs hi rfl (by simp [admittedPhase,hb]) rfl rfl rfl) trivial
  | reject hi hb hd => exact iff_of_true (balanced_goto_idle hs hi rfl rfl rfl rfl rfl) trivial
  | @allow i now setup tries params hi hb hd =>
    refine iff_of_true ?_ trivial
    refine (balanced_goto_iff hs ?_ ?_ ?_).mpr ?_
    · rfl
    · exact fun j hj => Function.update_of_ne hj _ _
    · exact fun _ _ => rfl
    · have hcounts := hs i
      rw [inFlight_of_phase hi] at hcounts
      simpa [admittedPhase,hb] using hcounts
  | @answer i clock sent moment setup tries probe hi hfits =>
    refine (balanced_goto_iff hs (by simp) (fun j _ => by simp) ?_).trans ?_
    · intro j hj
      rw [reportBreaker_reported,Function.update_of_ne hj,reportSent_reported]
    · have hflight : s.inFlight i = setup.breaker.isSome := inFlight_of_phase hi
      rw [admittedPhase_afterAttempt,reportBreaker_allowed,reportSent_allowed,reportBreaker_reported,Function.update_self,
        reportSent_reported,hs i,Answered,hflight,← breakerReport_isSome_iff]
      cases setup.breaker.isSome <;> cases (breakerReport sent.result).isSome <;> simp
  | @copyFailed i clock endpoint x setup tries probe hi hx =>
    refine iff_of_true ?_ trivial
    intro j
    have hcounts := hs j
    rw [inFlight] at hcounts ⊢
    simpa using hcounts
  | deadline hi => exact balanced_goto_through hs
  | abandon => exact balanced_goto_through hs
  | @bodyFailed i clock e moment setup tries endpoint next hi hnext =>
    have hafter : admittedPhase next = false := by
      cases hn : next with
      | sending setup tries probe => exact absurd hn (hnext setup tries probe)
      | _ => rfl
    exact iff_of_true (balanced_goto_idle hs hi rfl hafter (by simp) (by simp) (by simp)) trivial
  | bodyEnded hi => exact iff_of_true (balanced_goto_idle hs hi rfl rfl rfl rfl rfl) trivial

theorem probing_of_not_halfOpen (h : ∀ left, s.breaker.state ≠ .halfOpen left) : s.Probing := fun left hleft => absurd hleft (h left)

/-- A probe under way stays the witness while other requests move. -/
theorem probing_goto {i : ℕ} {phase : AttemptPhase} {t : Attempts} (hs : s.Probing) (hstate : t.breaker.state = s.breaker.state)
    (hphase : t.phase = s.phase) (hi : s.inFlight i = false) : (t.goto i phase).Probing := by
  intro left hleft
  rw [goto_breaker,hstate] at hleft
  obtain ⟨j,setup,tries,hj,hbreaker⟩ := hs left hleft
  have hne : j ≠ i := by
    rintro rfl
    rw [inFlight_of_phase hj,admittedPhase,hbreaker] at hi
    cases hi
  exact ⟨j,setup,tries,by rw [goto_phase,Function.update_of_ne hne,hphase,hj],hbreaker⟩

/-- A step that answers what it ends leaves a probing breaker with a probe under way. -/
theorem probing_step (hs : s.Probing) (hanswered : Answered s event) (h : step s event = some s') : s'.Probing := by
  cases Move.of_step h with
  | arrive hi => exact probing_goto hs rfl rfl (inFlight_of_phase hi)
  | pass hi hb => exact probing_goto hs rfl rfl (inFlight_of_phase hi)
  | reject hi hb hd => exact probing_goto hs (check_state_of_reject hd) rfl (inFlight_of_phase hi)
  | @allow i now setup tries params hi hb hd =>
    intro left hleft
    have hstate : (Breaker.check params s.breaker now).1.state = .halfOpen left := hleft
    refine ⟨i,setup,tries,?_,by rw [hb]; rfl⟩
    rw [goto_phase,Function.update_self,hstate]
  | @answer i clock sent moment setup tries probe hi hfits =>
    have hflight : s.inFlight i = setup.breaker.isSome := inFlight_of_phase hi
    cases hb : setup.breaker with
    | none =>
      rw [hb] at hflight
      exact probing_goto hs (by simp [reportBreaker]) (by simp) hflight
    | some params =>
      rw [hb] at hflight
      have hreport := breakerReport_isSome_iff.mpr (hanswered hflight)
      obtain ⟨failed,hfailed⟩ := Option.isSome_iff_exists.mp hreport
      apply probing_of_not_halfOpen
      intro left
      rw [goto_breaker,hfailed]
      exact report_not_halfOpen params _ _ failed left
  | @copyFailed i clock endpoint x setup tries probe hi hx =>
    intro left hleft
    rw [reportHealth_breaker] at hleft
    simpa using hs left hleft
  | deadline hi => exact probing_goto hs rfl rfl hanswered
  | abandon => exact probing_goto hs rfl rfl hanswered
  | bodyFailed hi hnext => exact probing_goto hs (by simp) (by simp) (inFlight_of_phase hi)
  | bodyEnded hi => exact probing_goto hs rfl rfl (inFlight_of_phase hi)

end Step

theorem balanced_new : new.Balanced := fun _ => rfl

theorem probing_new : new.Probing := probing_of_not_halfOpen fun _ => nofun

/-- Which runs answer every admission: those that end no admitted attempt without a
report. In these a probing breaker has a probe under way, so it does not wait for one
that will never be answered. -/
theorem admissions_answered_iff {events : List AttemptEvent} {s : Attempts} (hr : system.run events = some s) :
    ((∀ pre post r, events = pre ++ post → system.run pre = some r → r.Balanced) ↔ system.Along Answered events) ∧
      (system.Along Answered events → s.Probing) :=
  ⟨System.forall_prefix_iff_along Balanced balanced_new (fun _ _ _ hs h => balanced_step_iff hs h) hr,
    fun hall => System.guarded_inv Probing probing_new (fun _ _ _ hs hg h => probing_step hs hg h) hall hr⟩

section Wedge

/-- One failure opens the breaker for 100 ms, and then there is one probe. -/
def oneProbe : AttemptSetup where
  breaker := some ⟨1,fun _ _ => false,10,100,1⟩
  health := none
  retry := ⟨0,[],false,10,0,none,0⟩
  replayable := false
  wantsUpgrade := false
  h3 := false

def refusedAt (i system : ℕ) : AttemptEvent := .answer i ⟨0,system⟩ (.exchanged "10.0.0.1:80" (.failed .transport)) ⟨0,0,0,[]⟩

theorem admissions_answered_recovery :
    ∃ s, system.run [.arrive 0 oneProbe,.check 0 10,refusedAt 0 20,.arrive 1 oneProbe,.check 1 200] = some s ∧
      s.breaker.state = .halfOpen 0 ∧ s.Probing := by
  have hall : system.Along Answered [.arrive 0 oneProbe,.check 0 10,refusedAt 0 20,.arrive 1 oneProbe,.check 1 200] := by
    refine System.along_of_alongFrom ⟨trivial,trivial,?_,trivial,trivial,trivial⟩
    rintro - e he
    cases he
    exact ⟨rfl,rfl⟩
  refine ⟨_,rfl,by decide,?_⟩
  apply (admissions_answered_iff ?_).2 hall
  rfl

/-- The probe of a half-open breaker finds the upstream's queue full: nothing is
reported, no probe is under way, and every later check is refused. -/
theorem probe_lost :
    let events := [.arrive 0 oneProbe,.check 0 10,refusedAt 0 20,.arrive 1 oneProbe,.check 1 200,
      .answer 1 ⟨0,210⟩ (.exchanged "10.0.0.1:80" (.failed (.connector .saturated))) ⟨0,0,0,[]⟩]
    ∃ s, system.run events = some s ∧ s.breaker.state = .halfOpen 0 ∧ s.allowed 1 = 1 ∧ s.reported 1 = 0 ∧
      (∀ i, s.inFlight i = false) ∧ (∀ params now, (Breaker.check params s.breaker now).2.1 ≠ .allow) ∧ ¬ s.Probing := by
  refine ⟨_,rfl,by decide,by decide,by decide,?_,?_,?_⟩
  · rintro (_ | _ | i) <;> rfl
  · intro params now
    rw [check_of_no_slot (by decide)]
    exact nofun
  · intro h
    obtain ⟨i,setup,tries,hi,_⟩ := h 0 (by decide)
    rcases i with _ | _ | i <;> cases hi

end Wedge

end Dwara.Dataplane.Attempts
