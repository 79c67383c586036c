import Dwara.Dataplane.AttemptLoop

/-! Whose failures the health of the endpoints and the breaker are told. -/

namespace Dwara.Resilience.Breaker

/-- A success leaves a closed breaker closed. -/
theorem closed_report_success {params : BreakerParams} {inner : BreakerInner} {now n : ℕ} (h : inner.state = .closed n) :
    ∃ m, (report params inner now false).1.state = .closed m := by
  exact ⟨0,by simp [report,h]⟩

/-- A check leaves a closed breaker as it is. -/
theorem closed_check {params : BreakerParams} {inner : BreakerInner} {now n : ℕ} (h : inner.state = .closed n) :
    (check params inner now).1.state = .closed n := by
  simp [check,h]

end Dwara.Resilience.Breaker

namespace Dwara.Resilience.Health.EndpointHealth

/-- A success leaves a healthy endpoint healthy. -/
theorem healthy_report_success {h : EndpointHealth} (params : HealthParams) (now systemNow : ℕ) (hs : h.status = .healthy) :
    (h.report params now systemNow false).status = .healthy := by
  simp [report,applyObservation,hs]

end Dwara.Resilience.Health.EndpointHealth

namespace Dwara.Dataplane.Attempts
open Dwara.Lib Dwara.Resilience Dwara.Resilience.Breaker Dwara.Resilience.Health

/-- The endpoint is in rotation. -/
def Healthy (s : Attempts) (endpoint : String) : Prop := (s.health endpoint).status = .healthy

/-- The breaker lets everything through. -/
def Closed (s : Attempts) : Prop := ∃ n, s.breaker.state = .closed n

/-- No failure the event reports is the client's: a request body that fails is told
neither to health nor to the breaker, and a response cut off by the client's deadline
is not told to health. -/
def Uncharged (s : Attempts) : AttemptEvent → Prop
  | .answer i _ sent _ => ∀ setup tries probe, s.phase i = .sending setup tries probe → ∀ e, sent.clientFault = some e →
      setup.health = none ∧ (setup.breaker = none ∨ (setup.h3 = false ∧ e = .inner .digestMismatch))
  | .bodyFailed i _ e _ => ∀ setup tries endpoint, s.phase i = .streaming setup tries endpoint → e = .deadlineExceeded →
      setup.health = none ∨ setup.h3
  | _ => True

section Reports
variable (s : Attempts) (health : Option HealthParams) (breaker : Option BreakerParams) (i now : ℕ) (endpoint : String) (clock : Clock)
  (report : Option Bool) (byClient : Bool)

theorem reportHealth_clientFailures : (s.reportHealth health endpoint clock report byClient).clientFailures =
    s.clientFailures + (health.isSome && report = some true && byClient).toNat := by
  cases health <;> cases report <;> simp [reportHealth,charge]

theorem reportHealth_upstreamFailures : (s.reportHealth health endpoint clock report byClient).upstreamFailures =
    s.upstreamFailures + (health.isSome && report = some true && !byClient).toNat := by
  cases health <;> cases report <;> simp [reportHealth,charge]

theorem reportBreaker_clientFailures : (s.reportBreaker breaker i now report byClient).clientFailures =
    s.clientFailures + (breaker.isSome && report = some true && byClient).toNat := by
  cases breaker <;> cases report <;> simp [reportBreaker,charge]

theorem reportBreaker_upstreamFailures : (s.reportBreaker breaker i now report byClient).upstreamFailures =
    s.upstreamFailures + (breaker.isSome && report = some true && !byClient).toNat := by
  cases breaker <;> cases report <;> simp [reportBreaker,charge]

variable {s health breaker i now endpoint clock report byClient}

/-- What is told an endpoint without being charged to a side is no failure. -/
theorem healthy_reportHealth {other : String} (h : s.Healthy other)
    (hfailed : (health.isSome && report = some true) = false) : (s.reportHealth health endpoint clock report byClient).Healthy other := by
  cases health with
  | none => exact h
  | some params =>
    cases report with
    | none => exact h
    | some failed =>
      obtain rfl : failed = false := by simpa using hfailed
      by_cases he : other = endpoint
      · subst he
        simpa [Healthy,reportHealth,charge] using EndpointHealth.healthy_report_success params _ _ h
      · simpa [Healthy,reportHealth,charge,Function.update_of_ne he] using h

theorem closed_reportBreaker (h : s.Closed) (hfailed : (breaker.isSome && report = some true) = false) :
    (s.reportBreaker breaker i now report byClient).Closed := by
  cases breaker with
  | none => exact h
  | some params =>
    cases report with
    | none => exact h
    | some failed =>
      obtain rfl : failed = false := by simpa using hfailed
      obtain ⟨n,hn⟩ := h
      exact closed_report_success hn

end Reports

/-- The health of an endpoint is told of every request body that fails. -/
theorem healthReport_of_clientFault {x : Exchange} {e : LimitedBodyError} (h : x.clientFault = some e) : x.healthReport = some true := by
  cases x with
  | failed c => cases c <;> simp_all [Exchange.clientFault,Exchange.healthReport,healthReportableLegacy,ClientError.sources]
  | h3BodyFailed e' => rfl
  | _ => cases h

/-- The breaker is told of every request body that fails, but for a digest mismatch on the pooled client's path. -/
theorem breakerReport_of_clientFault {sent : Sent} {h3 : Bool} {e : LimitedBodyError} (hfits : sent.fits h3) (h : sent.clientFault = some e) :
    breakerReport sent.result = if h3 = false ∧ e = .inner .digestMismatch then none else some true := by
  cases sent with
  | noEndpoints => cases h
  | invalidUri endpoint => cases h
  | exchanged endpoint x =>
    cases x with
    | failed c =>
      obtain rfl : h3 = false := by simpa [Sent.fits] using hfits
      cases c with
      | requestBody e' =>
        obtain rfl := Option.some.inj h
        cases e' with
        | overLimit cap => simp [Sent.result,Exchange.result,UpstreamError.ofClient,ClientError.sources,breakerReport,
            signatureBodyMismatch,breakerReportable]
        | inner i => cases i <;> simp [Sent.result,Exchange.result,UpstreamError.ofClient,ClientError.sources,breakerReport,
            signatureBodyMismatch,breakerReportable]
      | _ => cases h
    | h3BodyFailed e' =>
      obtain rfl : h3 = true := by simpa [Sent.fits] using hfits
      simp [Sent.result,Exchange.result,breakerReport,signatureBodyMismatch,breakerReportable]
    | _ => cases h

/-- A failure of the request body as the dispatch reports it. -/
theorem reportSent_clientFailures (s : Attempts) (setup : AttemptSetup) (clock : Clock) (sent : Sent) :
    (s.reportSent setup clock sent).clientFailures = s.clientFailures + (setup.health.isSome && sent.clientFault.isSome).toNat := by
  cases sent with
  | noEndpoints => simp [reportSent,Sent.clientFault]
  | invalidUri endpoint => simp [reportSent,Sent.clientFault]
  | exchanged endpoint x =>
    rw [reportSent,reportHealth_clientFailures,Sent.clientFault]
    cases hx : x.clientFault with
    | none => simp
    | some e => simp [healthReport_of_clientFault hx]

section Step
variable {s s' : Attempts} {event : AttemptEvent}

/-- A step charges the client with nothing just when it is an uncharged one. -/
theorem clientFailures_step_iff (h : step s event = some s') : s'.clientFailures = s.clientFailures ↔ Uncharged s event := by
  cases Move.of_step h with
  | arrive _ => exact iff_of_true rfl trivial
  | pass _ _ => exact iff_of_true rfl trivial
  | allow _ _ _ => exact iff_of_true rfl trivial
  | reject _ _ _ => exact iff_of_true rfl trivial
  | deadline _ => exact iff_of_true rfl trivial
  | abandon => exact iff_of_true rfl trivial
  | bodyEnded _ => exact iff_of_true rfl trivial
  | copyFailed _ _ => exact iff_of_true (by simp [reportHealth_clientFailures]) trivial
  | @answer i clock sent moment setup tries probe hi hfits =>
    rw [goto_clientFailures,reportBreaker_clientFailures,reportSent_clientFailures,Uncharged,Nat.add_assoc,Nat.add_eq_left]
    simp only [hi,AttemptPhase.sending.injEq]
    cases hfault : sent.clientFault with
    | none => simp
    | some e =>
      rw [breakerReport_of_clientFault hfits hfault]
      by_cases hquiet : setup.h3 = false ∧ e = .inner .digestMismatch
      · cases hh : setup.health <;> cases hb : setup.breaker <;> simp_all
      · cases hh : setup.health <;> cases hb : setup.breaker <;> simp_all
  | @bodyFailed i clock e moment setup tries endpoint next hi hnext =>
    rw [goto_clientFailures,reportHealth_clientFailures,Uncharged]
    simp only [hi,AttemptPhase.streaming.injEq]
    by_cases he : e = .deadlineExceeded
    · cases hh : setup.health <;> cases hh3 : setup.h3 <;> simp_all [bodyHealth]
    · simp [he]

/-- Later failures are counted on top; where none were, what was healthy and closed is so still. -/
structure Spared (s s' : Attempts) : Prop where
  client : s.clientFailures ≤ s'.clientFailures
  upstream : s.upstreamFailures ≤ s'.upstreamFailures
  healthy : s'.clientFailures = s.clientFailures → s'.upstreamFailures = s.upstreamFailures →
    ∀ endpoint, s.Healthy endpoint → s'.Healthy endpoint
  closed : s'.clientFailures = s.clientFailures → s'.upstreamFailures = s.upstreamFailures → s.Closed → s'.Closed

instance : Std.Refl Spared := ⟨fun _ => ⟨le_rfl,le_rfl,fun _ _ _ h => h,fun _ _ h => h⟩⟩

/-- Counters that only grow and end where they began have not moved in between. -/
theorem eq_between {a b c : ℕ} (hab : a ≤ b) (hbc : b ≤ c) (h : c = a) : b = a ∧ c = b := by
  omega

instance : IsTrans Attempts Spared where
  trans a b c hab hbc := by
    refine ⟨hab.client.trans hbc.client,hab.upstream.trans hbc.upstream,?_,?_⟩
    · intro hc hu endpoint h
      obtain ⟨hcab,hcbc⟩ := eq_between hab.client hbc.client hc
      obtain ⟨huab,hubc⟩ := eq_between hab.upstream hbc.upstream hu
      have hb := hab.healthy hcab huab endpoint h
      exact hbc.healthy hcbc hubc endpoint hb
    · intro hc hu h
      obtain ⟨hcab,hcbc⟩ := eq_between hab.client hbc.client hc
      obtain ⟨huab,hubc⟩ := eq_between hab.upstream hbc.upstream hu
      have hb := hab.closed hcab huab h
      exact hbc.closed hcbc hubc hb

/-- A step that leaves the counters, the health and the breaker's state as they are. -/
theorem Spared.of_eq (hclient : s'.clientFailures = s.clientFailures) (hupstream : s'.upstreamFailures = s.upstreamFailures)
    (hhealth : s'.health = s.health) (hbreaker : s.Closed → s'.Closed) : Spared s s' where
  client := hclient.ge
  upstream := hupstream.ge
  healthy _ _ endpoint h := by
    rw [Healthy,hhealth]
    exact h
  closed _ _ := hbreaker

theorem spared_reportHealth (s : Attempts) (health : Option HealthParams) (endpoint : String) (clock : Clock) (report : Option Bool)
    (byClient : Bool) : Spared s (s.reportHealth health endpoint clock report byClient) where
  client := by
    rw [reportHealth_clientFailures]
    exact Nat.le_add_right _ _
  upstream := by
    rw [reportHealth_upstreamFailures]
    exact Nat.le_add_right _ _
  healthy hclient hupstream other h := by
    rw [reportHealth_clientFailures] at hclient
    rw [reportHealth_upstreamFailures] at hupstream
    refine healthy_reportHealth h ?_
    cases byClient <;> simp_all
  closed _ _ h := by simpa [Closed] using h

theorem spared_reportBreaker (s : Attempts) (breaker : Option BreakerParams) (i now : ℕ) (report : Option Bool) (byClient : Bool) :
    Spared s (s.reportBreaker breaker i now report byClient) where
  client := by
    rw [reportBreaker_clientFailures]
    exact Nat.le_add_right _ _
  upstream := by
    rw [reportBreaker_upstreamFailures]
    exact Nat.le_add_right _ _
  healthy _ _ other h := by simpa [Healthy] using h
  closed hclient hupstream h := by
    rw [reportBreaker_clientFailures] at hclient
    rw [reportBreaker_upstreamFailures] at hupstream
    refine closed_reportBreaker h ?_
    cases byClient <;> simp_all

theorem spared_reportSent (s : Attempts) (setup : AttemptSetup) (clock : Clock) (sent : Sent) : Spared s (s.reportSent setup clock sent) := by
  cases sent with
  | noEndpoints => exact refl_of Spared s
  | invalidUri endpoint => exact refl_of Spared s
  | exchanged endpoint x => exact spared_reportHealth s _ _ _ _ _

theorem spared_goto (s : Attempts) (i : ℕ) (phase : AttemptPhase) : Spared s (s.goto i phase) := .of_eq rfl rfl rfl id

/-- Only a failure that is charged to a side can eject an endpoint or open the breaker. -/
theorem spared_step (h : step s event = some s') : Spared s s' := by
  cases Move.of_step h with
  | arrive _ => exact spared_goto s _ _
  | pass _ _ => exact spared_goto s _ _
  | deadline _ => exact spared_goto s _ _
  | abandon => exact spared_goto s _ _
  | bodyEnded _ => exact spared_goto s _ _
  | allow _ _ _ => exact .of_eq rfl rfl rfl fun ⟨n,hn⟩ => ⟨n,closed_check hn⟩
  | reject _ _ _ => exact .of_eq rfl rfl rfl fun ⟨n,hn⟩ => ⟨n,closed_check hn⟩
  | copyFailed _ _ => exact spared_reportHealth s _ _ _ _ _
  | @answer i clock sent moment setup tries probe hi hfits =>
    have hsent := spared_reportSent s setup clock sent
    have hbreaker := spared_reportBreaker (s.reportSent setup clock sent) setup.breaker i clock.system (breakerReport sent.result)
      sent.clientFault.isSome
    exact trans_of Spared (trans_of Spared hsent hbreaker) (spared_goto _ i _)
  | bodyFailed _ _ => exact trans_of Spared (spared_reportHealth s _ _ _ _ _) (spared_goto _ _ _)

end Step

/-- Which runs charge the upstream with nothing the client did: those in which no
request body fails where health or breaker hears of it and no deadline of a client cuts
off a body whose endpoint's health does. In these, as long as the upstream itself does
not fail, healthy endpoints stay in rotation and a closed breaker stays closed. -/
theorem client_failures_uncharged_iff {events : List AttemptEvent} {s : Attempts} (hr : system.run events = some s) :
    ((∀ pre post r, events = pre ++ post → system.run pre = some r → r.clientFailures = 0) ↔ system.Along Uncharged events) ∧
      (system.Along Uncharged events → ∀ pre post r, events = pre ++ post → system.run pre = some r →
        s.upstreamFailures = r.upstreamFailures → (∀ endpoint, r.Healthy endpoint → s.Healthy endpoint) ∧ (r.Closed → s.Closed)) := by
  have hiff : (∀ pre post r, events = pre ++ post → system.run pre = some r → r.clientFailures = 0) ↔ system.Along Uncharged events := by
    refine System.forall_prefix_iff_along (fun t : Attempts => t.clientFailures = 0) rfl ?_ hr
    intro t event t' ht hstep
    rw [← clientFailures_step_iff hstep,ht]
  refine ⟨hiff,?_⟩
  rintro hall pre post r rfl hpre hsame
  have hnone := hiff.mpr hall
  have hclient : s.clientFailures = r.clientFailures := by
    rw [hnone pre post r rfl hpre,hnone (pre ++ post) [] s (by simp) hr]
  have hspared := System.extension_related Spared (fun _ _ _ h => spared_step h) hpre hr
  exact ⟨hspared.healthy hclient hsame,hspared.closed hclient hsame⟩

section Capped

/-- The breaker opens at the second failure in a row, an endpoint leaves the rotation at the first. -/
def watched : AttemptSetup where
  breaker := some ⟨2,fun _ _ => false,20,30000,1⟩
  health := some ⟨10000,1,fun _ _ => false,20,30000,1,Nat.one_pos⟩
  retry := ⟨0,[502],true,10,0,none,0⟩
  replayable := false
  wantsUpgrade := false
  h3 := false

/-- A client's upload crosses the cap of the route. -/
def overCapAt (i now : ℕ) : List AttemptEvent :=
  [.arrive i watched,.check i now,.answer i ⟨now,now⟩ (.exchanged "10.0.0.1:80" (.failed (.requestBody (.overLimit 1024)))) ⟨0,0,0,[]⟩]

/-- Two uploads over the cap, and the endpoint is ejected and the breaker open. -/
theorem uploads_eject_and_open :
    ∃ s, system.run (overCapAt 0 10 ++ overCapAt 1 20) = some s ∧ s.upstreamFailures = 0 ∧ s.clientFailures = 4 ∧
      ¬ s.Healthy "10.0.0.1:80" ∧ s.breaker.state = .openUntil 30020 := by
  refine ⟨_,rfl,by decide,by decide,?_,by decide⟩
  rw [Healthy]
  decide

/-- A client that goes away is charged to nobody. -/
theorem client_failures_uncharged_abandon :
    ∃ s, system.run [.arrive 0 watched,.check 0 10,.abandon 0] = some s ∧ s.Healthy "10.0.0.1:80" ∧ s.Closed := by
  have hall : system.Along Uncharged [.arrive 0 watched,.check 0 10,.abandon 0] :=
    System.along_of_alongFrom ⟨trivial,trivial,trivial,trivial⟩
  have hrun : ∃ s, system.run [.arrive 0 watched,.check 0 10,.abandon 0] = some s ∧ s.upstreamFailures = 0 := ⟨_,rfl,rfl⟩
  obtain ⟨s,hs,hnone⟩ := hrun
  have hkept := (client_failures_uncharged_iff hs).2 hall [] _ new rfl rfl hnone
  exact ⟨s,hs,hkept.1 _ rfl,hkept.2 ⟨0,rfl⟩⟩

end Capped

end Dwara.Dataplane.Attempts
