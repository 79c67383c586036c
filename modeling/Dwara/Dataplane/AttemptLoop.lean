import Dwara.Dataplane.FirstFrame
import Dwara.Dataplane.UpstreamErrors
import Dwara.Lib.System
import Dwara.Resilience.Breaker
import Dwara.Resilience.Health

/-! The attempts of the requests to one upstream: admission by its breaker, the dispatch
to an endpoint, and what breaker and endpoint health are told of it. Any number of
requests are under way at a time. -/

namespace Dwara.Dataplane
open Dwara.Lib Dwara.Resilience Dwara.Resilience.Breaker Dwara.Resilience.Health

/-- What a request finds configured for its upstream. -/
structure AttemptSetup where
  breaker : Option BreakerParams
  health : Option HealthParams
  retry : RetryParams
  replayable : Bool
  wantsUpgrade : Bool
  h3 : Bool

/-- How far a request is: at the head of the loop, in an attempt (admitted as a probe or
not), with its response body under way, or through. -/
inductive AttemptPhase where
  | idle
  | looping (setup : AttemptSetup) (tries : ℕ)
  | sending (setup : AttemptSetup) (tries : ℕ) (probe : Bool)
  | streaming (setup : AttemptSetup) (tries : ℕ) (endpoint : String)
  | through

/-- Breaker and endpoint health of an upstream, and its requests. The counters say
which admissions and reports a request had, and whose fault the failures reported were. -/
structure Attempts where
  breaker : BreakerInner
  health : String → EndpointHealth
  phase : ℕ → AttemptPhase
  allowed : ℕ → ℕ
  reported : ℕ → ℕ
  clientFailures : ℕ
  upstreamFailures : ℕ

/-- The clock of the balancer, and the system's. -/
structure Clock where
  lb : ℕ
  system : ℕ
  deriving DecidableEq, Repr

/-- How a send ends: no endpoint to pick, an address that is no URI, or an exchange. -/
inductive Sent where
  | noEndpoints
  | invalidUri (endpoint : String)
  | exchanged (endpoint : String) (x : Exchange)
  deriving DecidableEq, Repr

namespace Sent

def result : Sent → Except UpstreamError ℕ
  | .noEndpoints => .error (.connect .noEndpoints)
  | .invalidUri _ => .error (.connect (.io none))
  | .exchanged _ x => x.result

def clientFault : Sent → Option LimitedBodyError
  | .exchanged _ x => x.clientFault
  | _ => none

/-- The transport of the upstream has such an exchange. -/
def fits (h3 : Bool) : Sent → Bool
  | .exchanged _ (.failed _) | .exchanged _ (.timedOut _) => !h3
  | .exchanged _ (.h3BodyFailed _) | .exchanged _ (.h3Failed _) => h3
  | _ => true

end Sent

/-- What happens next, to one request each time. A hedge copy that fails is told its
endpoint's health only; the deadline is the client's `grpc-timeout`. -/
inductive AttemptEvent where
  | arrive (i : ℕ) (setup : AttemptSetup)
  | check (i now : ℕ)
  | answer (i : ℕ) (clock : Clock) (sent : Sent) (moment : RetryMoment)
  | copyFailed (i : ℕ) (clock : Clock) (endpoint : String) (x : Exchange)
  | deadline (i : ℕ)
  | abandon (i : ℕ)
  | bodyFailed (i : ℕ) (clock : Clock) (e : UpstreamBodyError) (moment : RetryMoment)
  | bodyEnded (i : ℕ)

namespace Attempts

def new : Attempts := ⟨Breaker.new,fun _ => .new,fun _ => .idle,fun _ => 0,fun _ => 0,0,0⟩

def goto (s : Attempts) (i : ℕ) (phase : AttemptPhase) : Attempts := { s with phase := Function.update s.phase i phase }

/-- A failure that is reported is charged to the side that caused it. -/
def charge (s : Attempts) (failed byClient : Bool) : Attempts where
  breaker := s.breaker
  health := s.health
  phase := s.phase
  allowed := s.allowed
  reported := s.reported
  clientFailures := s.clientFailures + (failed && byClient).toNat
  upstreamFailures := s.upstreamFailures + (failed && !byClient).toNat

/-- Report to the health of an endpoint, where there is a tracker and something to report. -/
def reportHealth (s : Attempts) (params : Option HealthParams) (endpoint : String) (clock : Clock) (report : Option Bool)
    (byClient : Bool) : Attempts :=
  match params,report with
  | some params,some failed =>
    ({ s with health := Function.update s.health endpoint ((s.health endpoint).report params clock.lb clock.system failed) }).charge
      failed byClient
  | _,_ => s

/-- Report to the breaker, where one is configured and there is something to report. -/
def reportBreaker (s : Attempts) (params : Option BreakerParams) (i now : ℕ) (report : Option Bool) (byClient : Bool) : Attempts :=
  match params,report with
  | some params,some failed =>
    ({ s with breaker := (Breaker.report params s.breaker now failed).1, reported := Function.update s.reported i (s.reported i + 1) }).charge
      failed byClient
  | _,_ => s

def mayRetry (setup : AttemptSetup) (tries : ℕ) : Bool := tries ≤ setup.retry.attempts && setup.replayable

/-- The health an endpoint is told what the dispatch came to. -/
def reportSent (s : Attempts) (setup : AttemptSetup) (clock : Clock) (sent : Sent) : Attempts :=
  match sent with
  | .exchanged endpoint x => s.reportHealth setup.health endpoint clock x.healthReport x.clientFault.isSome
  | _ => s

/-- Where the loop goes with the result of an attempt; `tries` counts this one. -/
def afterAttempt (setup : AttemptSetup) (tries : ℕ) (sent : Sent) (moment : RetryMoment) : AttemptPhase :=
  match sent.result with
  | .ok status =>
    if mayRetry setup tries && setup.retry.retriesStatus status && moment.grants setup.retry then .looping setup tries
    else
      match sent with
      | .exchanged endpoint _ => .streaming setup tries endpoint
      | _ => .through
  | .error e =>
    if !signatureBodyMismatch e && mayRetry setup tries && setup.retry.retryTransport && transportRetryable e &&
        moment.grants setup.retry then .looping setup tries
    else .through

/-- The health tracker a response body carries; a buffered one has none. -/
def bodyHealth (setup : AttemptSetup) : Option HealthParams := if setup.h3 then none else setup.health

def step (s : Attempts) : AttemptEvent → Option Attempts
  | .arrive i setup =>
    match s.phase i with
    | .idle => some (s.goto i (.looping setup 0))
    | _ => none
  | .check i now =>
    match s.phase i with
    | .looping setup tries =>
      match setup.breaker with
      | none => some (s.goto i (.sending setup tries false))
      | some params =>
        let (inner,decision,_) := Breaker.check params s.breaker now
        match decision with
        | .allow =>
          some (({ s with breaker := inner, allowed := Function.update s.allowed i (s.allowed i + 1) }).goto i
            (.sending setup tries (inner.state matches .halfOpen _)))
        | .reject _ => some (({ s with breaker := inner }).goto i .through)
    | _ => none
  | .answer i clock sent moment =>
    match s.phase i with
    | .sending setup tries _ =>
      if sent.fits setup.h3 then
        some (((s.reportSent setup clock sent).reportBreaker setup.breaker i clock.system (breakerReport sent.result)
          sent.clientFault.isSome).goto i (afterAttempt setup (tries + 1) sent moment))
      else none
    | _ => none
  | .copyFailed i clock endpoint x =>
    match s.phase i with
    -- A copy replays bytes from memory: its body cannot fail.
    | .sending setup _ _ => if x.clientFault = none then some (s.reportHealth setup.health endpoint clock x.healthReport false) else none
    | _ => none
  | .deadline i =>
    match s.phase i with
    | .sending _ _ _ => some (s.goto i .through)
    | _ => none
  | .abandon i => some (s.goto i .through)
  | .bodyFailed i clock e moment =>
    match s.phase i with
    | .streaming setup tries endpoint =>
      let retried := holdsBack setup.retry (mayRetry setup tries) setup.wantsUpgrade && moment.grants setup.retry
      some ((s.reportHealth (bodyHealth setup) endpoint clock (some true) (e = .deadlineExceeded)).goto i
        (if retried then .looping setup tries else .through))
    | _ => none
  | .bodyEnded i =>
    match s.phase i with
    | .streaming _ _ _ => some (s.goto i .through)
    | _ => none

def system : System Attempts AttemptEvent := ⟨new,step⟩

section Fields
variable (s : Attempts) (i : ℕ) (phase : AttemptPhase) (failed byClient : Bool) (health : Option HealthParams) (breaker : Option BreakerParams)
  (endpoint : String) (clock : Clock) (now : ℕ) (report : Option Bool) (setup : AttemptSetup) (sent : Sent)

@[simp] theorem goto_breaker : (s.goto i phase).breaker = s.breaker := rfl
@[simp] theorem goto_health : (s.goto i phase).health = s.health := rfl
@[simp] theorem goto_allowed : (s.goto i phase).allowed = s.allowed := rfl
@[simp] theorem goto_reported : (s.goto i phase).reported = s.reported := rfl
@[simp] theorem goto_clientFailures : (s.goto i phase).clientFailures = s.clientFailures := rfl
@[simp] theorem goto_upstreamFailures : (s.goto i phase).upstreamFailures = s.upstreamFailures := rfl
@[simp] theorem goto_phase : (s.goto i phase).phase = Function.update s.phase i phase := rfl

@[simp] theorem reportHealth_breaker : (s.reportHealth health endpoint clock report byClient).breaker = s.breaker := by
  unfold reportHealth
  split <;> rfl

@[simp] theorem reportHealth_phase : (s.reportHealth health endpoint clock report byClient).phase = s.phase := by
  unfold reportHealth
  split <;> rfl

@[simp] theorem reportHealth_allowed : (s.reportHealth health endpoint clock report byClient).allowed = s.allowed := by
  unfold reportHealth
  split <;> rfl

@[simp] theorem reportHealth_reported : (s.reportHealth health endpoint clock report byClient).reported = s.reported := by
  unfold reportHealth
  split <;> rfl

@[simp] theorem reportBreaker_health : (s.reportBreaker breaker i now report byClient).health = s.health := by
  unfold reportBreaker
  split <;> rfl

@[simp] theorem reportBreaker_phase : (s.reportBreaker breaker i now report byClient).phase = s.phase := by
  unfold reportBreaker
  split <;> rfl

@[simp] theorem reportBreaker_allowed : (s.reportBreaker breaker i now report byClient).allowed = s.allowed := by
  unfold reportBreaker
  split <;> rfl

@[simp] theorem reportSent_breaker : (s.reportSent setup clock sent).breaker = s.breaker := by
  cases sent <;> simp [reportSent]

@[simp] theorem reportSent_phase : (s.reportSent setup clock sent).phase = s.phase := by
  cases sent <;> simp [reportSent]

@[simp] theorem reportSent_allowed : (s.reportSent setup clock sent).allowed = s.allowed := by
  cases sent <;> simp [reportSent]

@[simp] theorem reportSent_reported : (s.reportSent setup clock sent).reported = s.reported := by
  cases sent <;> simp [reportSent]

end Fields

/-- Everything an event can do, with what it needs for it. -/
inductive Move (s : Attempts) : AttemptEvent → Attempts → Prop where
  | arrive {i : ℕ} {setup : AttemptSetup} (hi : s.phase i = .idle) : Move s (.arrive i setup) (s.goto i (.looping setup 0))
  | pass {i now : ℕ} {setup : AttemptSetup} {tries : ℕ} (hi : s.phase i = .looping setup tries) (hb : setup.breaker = none) :
      Move s (.check i now) (s.goto i (.sending setup tries false))
  | allow {i now : ℕ} {setup : AttemptSetup} {tries : ℕ} {params : BreakerParams} (hi : s.phase i = .looping setup tries)
      (hb : setup.breaker = some params) (hd : (Breaker.check params s.breaker now).2.1 = .allow) :
      Move s (.check i now) (({ s with
          breaker := (Breaker.check params s.breaker now).1, allowed := Function.update s.allowed i (s.allowed i + 1) }).goto i
        (.sending setup tries ((Breaker.check params s.breaker now).1.state matches .halfOpen _)))
  | reject {i now : ℕ} {setup : AttemptSetup} {tries : ℕ} {params : BreakerParams} (hi : s.phase i = .looping setup tries)
      (hb : setup.breaker = some params) (hd : (Breaker.check params s.breaker now).2.1 ≠ .allow) :
      Move s (.check i now) (({ s with breaker := (Breaker.check params s.breaker now).1 }).goto i .through)
  | answer {i : ℕ} {clock : Clock} {sent : Sent} {moment : RetryMoment} {setup : AttemptSetup} {tries : ℕ} {probe : Bool}
      (hi : s.phase i = .sending setup tries probe) (hfits : sent.fits setup.h3) :
      Move s (.answer i clock sent moment) (((s.reportSent setup clock sent).reportBreaker setup.breaker i clock.system
        (breakerReport sent.result) sent.clientFault.isSome).goto i (afterAttempt setup (tries + 1) sent moment))
  | copyFailed {i : ℕ} {clock : Clock} {endpoint : String} {x : Exchange} {setup : AttemptSetup} {tries : ℕ} {probe : Bool}
      (hi : s.phase i = .sending setup tries probe) (hx : x.clientFault = none) :
      Move s (.copyFailed i clock endpoint x) (s.reportHealth setup.health endpoint clock x.healthReport false)
  | deadline {i : ℕ} {setup : AttemptSetup} {tries : ℕ} {probe : Bool} (hi : s.phase i = .sending setup tries probe) :
      Move s (.deadline i) (s.goto i .through)
  | abandon {i : ℕ} : Move s (.abandon i) (s.goto i .through)
  | bodyFailed {i : ℕ} {clock : Clock} {e : UpstreamBodyError} {moment : RetryMoment} {setup : AttemptSetup} {tries : ℕ}
      {endpoint : String} {next : AttemptPhase} (hi : s.phase i = .streaming setup tries endpoint)
      (hnext : ∀ setup tries probe, next ≠ .sending setup tries probe) :
      Move s (.bodyFailed i clock e moment)
        ((s.reportHealth (bodyHealth setup) endpoint clock (some true) (e = .deadlineExceeded)).goto i next)
  | bodyEnded {i : ℕ} {setup : AttemptSetup} {tries : ℕ} {endpoint : String} (hi : s.phase i = .streaming setup tries endpoint) :
      Move s (.bodyEnded i) (s.goto i .through)

theorem Move.of_step {s s' : Attempts} {event : AttemptEvent} (h : step s event = some s') : Move s event s' := by
  cases event with
  | arrive i setup =>
    simp only [step] at h
    split at h
    · obtain rfl := Option.some.inj h
      exact .arrive ‹_›
    · cases h
  | check i now =>
    simp only [step] at h
    split at h
    · split at h
      · obtain rfl := Option.some.inj h
        exact .pass ‹_› ‹_›
      · split at h
        · obtain rfl := Option.some.inj h
          exact .allow ‹_› ‹_› ‹_›
        · obtain rfl := Option.some.inj h
          exact .reject ‹_› ‹_› (by simp [*])
    · cases h
  | answer i clock sent moment =>
    simp only [step] at h
    split at h
    · split at h
      · obtain rfl := Option.some.inj h
        exact .answer ‹_› ‹_›
      · cases h
    · cases h
  | copyFailed i clock endpoint x =>
    simp only [step] at h
    split at h
    · split at h
      · obtain rfl := Option.some.inj h
        exact .copyFailed ‹_› ‹_›
      · cases h
    · cases h
  | deadline i =>
    simp only [step] at h
    split at h
    · obtain rfl := Option.some.inj h
      exact .deadline ‹_›
    · cases h
  | abandon i =>
    obtain rfl := Option.some.inj h
    exact .abandon
  | bodyFailed i clock e moment =>
    simp only [step] at h
    split at h
    · obtain rfl := Option.some.inj h
      refine .bodyFailed ‹_› ?_
      intro setup tries probe
      split <;> exact nofun
    · cases h
  | bodyEnded i =>
    simp only [step] at h
    split at h
    · obtain rfl := Option.some.inj h
      exact .bodyEnded ‹_›
    · cases h

/-- No attempt goes straight on with another one: the loop's head is in between. -/
theorem afterAttempt_ne_sending (setup setup' : AttemptSetup) (tries tries' : ℕ) (sent : Sent) (moment : RetryMoment) (probe : Bool) :
    afterAttempt setup tries sent moment ≠ .sending setup' tries' probe := by
  unfold afterAttempt
  cases sent.result with
  | ok status =>
    simp only
    split
    · exact nofun
    · cases sent <;> exact nofun
  | error e =>
    simp only
    split <;> exact nofun

end Attempts

end Dwara.Dataplane
