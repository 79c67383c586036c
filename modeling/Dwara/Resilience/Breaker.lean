import Dwara.Lib.Machine
import Dwara.Lib.RollingWindow
import Dwara.Lib.System
import Dwara.Lib.Word

/-! The circuit breaker of one upstream: admission checks and outcome reports. -/

namespace Dwara.Resilience.Breaker
open Dwara.Lib

/-- Rolling window the error ratio accounts over (milliseconds). -/
def breakerWindowMs : ℕ := 60000

/-- Retry-After (milliseconds) advertised while half-open probes are in flight. -/
def halfOpenRetryAfterMs : ℕ := 1000

/-- Resolved parameters. `errorRatio failures total` is the outcome of the
floating-point test `failures / total >= error_ratio`. -/
structure BreakerParams where
  consecutiveFailures : ℕ
  errorRatio : ℕ → ℕ → Bool
  errorVolume : ℕ
  openMs : ℕ
  halfOpenProbes : ℕ

inductive BreakerDecision where
  | allow
  | reject (retryAfterMs : ℕ)
  deriving DecidableEq, Repr

inductive BreakerState where
  | closed (consecutive : ℕ)
  | openUntil (untilMs : ℕ)
  | halfOpen (probesLeft : ℕ)
  deriving DecidableEq, Repr

inductive EventKind where
  | breakerOpened
  | breakerHalfOpen
  | breakerClosed
  deriving DecidableEq, Repr

/-- A transition event with the detail it names. -/
abbrev TransitionEvent := EventKind × Option String

structure BreakerInner where
  state : BreakerState
  window : List (ℕ × Bool)
  deriving DecidableEq, Repr

/-- A new closed breaker. -/
def new : BreakerInner := ⟨.closed 0,[]⟩

def pruneLocked (inner : BreakerInner) (now : ℕ) : BreakerInner :=
  { inner with window := RollingWindow.prune Prod.fst breakerWindowMs now inner.window }

/-- Whether a request may be dispatched; consumes a probe slot when half-open. -/
def check (params : BreakerParams) (inner : BreakerInner) (now : ℕ) :
    BreakerInner × BreakerDecision × Option TransitionEvent :=
  let inner := pruneLocked inner now
  match inner.state with
  | .closed _ => (inner,.allow,none)
  | .openUntil untilMs =>
    if now < untilMs then
      (inner,.reject (untilMs - now),none)
    else
      ({ inner with state := .halfOpen (params.halfOpenProbes - 1) },.allow,some (.breakerHalfOpen,none))
  | .halfOpen probesLeft =>
    if probesLeft = 0 then
      (inner,.reject halfOpenRetryAfterMs,none)
    else
      ({ inner with state := .halfOpen (probesLeft - 1) },.allow,none)

def streakTripped (params : BreakerParams) (streak : ℕ) : Bool := params.consecutiveFailures ≤ streak

def ratioTripped (params : BreakerParams) (window : List (ℕ × Bool)) : Bool :=
  params.errorVolume ≤ window.length && params.errorRatio (window.countP (·.2)) window.length

/-- Report one attempt outcome; the only source of trips and recoveries. -/
def report (params : BreakerParams) (inner : BreakerInner) (now : ℕ) (failed : Bool) :
    BreakerInner × Option TransitionEvent :=
  let inner := pruneLocked inner now
  let inner := { inner with window := inner.window ++ [(now,failed)] }
  match inner.state with
  | .closed consecutive =>
    if !failed then
      ({ inner with state := .closed 0 },none)
    else
      let streak := consecutive + 1
      if streakTripped params streak || ratioTripped params inner.window then
        ({ inner with state := .openUntil (Word.satAdd 64 now params.openMs) },
          some (.breakerOpened,some (if streakTripped params streak then "consecutive_failures" else "error_ratio")))
      else
        ({ inner with state := .closed streak },none)
  | .halfOpen _ =>
    if failed then
      ({ inner with state := .openUntil (Word.satAdd 64 now params.openMs) },
        some (.breakerOpened,some "half_open_probe_failed"))
    else
      (⟨.closed 0,[]⟩,some (.breakerClosed,some "half_open_probe_succeeded"))
  -- Late reports land in the window but cannot change an open state.
  | .openUntil _ => (inner,none)

inductive Call where
  | check (now : ℕ)
  | report (now : ℕ) (failed : Bool)
  deriving DecidableEq, Repr

def Call.now : Call → ℕ
  | .check now => now
  | .report now _ => now

/-- One breaker under fixed parameters. A report answers nothing. -/
def machine (params : BreakerParams) : Machine BreakerInner Call (Option BreakerDecision) where
  step inner call :=
    match call with
    | .check now => ((check params inner now).1,some (check params inner now).2.1)
    | .report now failed => ((report params inner now failed).1,none)

/-- The calls come in the order of a clock that never goes back. -/
def Clocked (calls : List Call) : Prop := calls.Pairwise (fun a b => a.now ≤ b.now)

@[simp] theorem pruneLocked_state (inner : BreakerInner) (now : ℕ) : (pruneLocked inner now).state = inner.state := rfl

end Dwara.Resilience.Breaker

/-! How many requests the breaker lets through while it cools off and while it probes. -/

namespace Dwara.Resilience.Breaker
open Dwara.Lib

/-- One call on the breaker together with the states around it. -/
abbrev CallStep := Transition BreakerInner Call (Option BreakerDecision)

/-- The step is a check that let its request through. -/
def admitted (t : CallStep) : Bool := t.output = some .allow

def BreakerState.IsOpen (s : BreakerState) : Prop := ∃ untilMs, s = .openUntil untilMs
def BreakerState.IsHalfOpen (s : BreakerState) : Prop := ∃ probesLeft, s = .halfOpen probesLeft

variable {params : BreakerParams} {s : BreakerInner}

/-- An open breaker stays as it is and admits nothing before its deadline. -/
theorem openUntil_step (params : BreakerParams) {untilMs : ℕ} (hs : s.state = .openUntil untilMs) (c : Call) :
    (¬ admitted ((machine params).fire s c) ∧ ((machine params).next s c).state = .openUntil untilMs) ∨
      untilMs ≤ c.now := by
  cases c with
  | report now failed => exact .inl (by simp [admitted,Machine.fire,Machine.answer,Machine.next,machine,report,hs])
  | check now =>
    by_cases h : now < untilMs
    · exact .inl (by simp [admitted,Machine.fire,Machine.answer,Machine.next,machine,check,hs,h])
    · exact .inr (Nat.le_of_not_lt h)

/-- Leaving the open state for probing admits one request and leaves the other slots. -/
theorem openUntil_to_halfOpen {untilMs probesLeft : ℕ} {c : Call} (hs : s.state = .openUntil untilMs)
    (hn : ((machine params).next s c).state = .halfOpen probesLeft) : probesLeft = params.halfOpenProbes - 1 := by
  cases c with
  | report now failed => simp [Machine.next,machine,report,hs] at hn
  | check now =>
    by_cases h : now < untilMs
    · simp [Machine.next,machine,check,hs,h] at hn
    · simp only [Machine.next,machine,check,pruneLocked_state,hs,h,if_false,BreakerState.halfOpen.injEq] at hn
      exact hn.symm

/-- While probing goes on, each admitted request takes one slot. -/
theorem halfOpen_step {before after : ℕ} {c : Call} (hs : s.state = .halfOpen before)
    (hn : ((machine params).next s c).state = .halfOpen after) :
    after + (if admitted ((machine params).fire s c) then 1 else 0) = before := by
  cases c with
  | report now failed => cases failed <;> simp [Machine.next,machine,report,hs] at hn
  | check now =>
    by_cases h : before = 0
    · simp [Machine.next,machine,check,hs,h] at hn
      simp [admitted,Machine.fire,Machine.answer,machine,check,hs,h,hn]
    · simp [Machine.next,machine,check,hs,h] at hn
      simp [admitted,Machine.fire,Machine.answer,machine,check,hs,h,hn]
      omega

/-- Through any stretch of probing, admissions never exceed the slots at its start. -/
theorem halfOpen_run {probesLeft : ℕ} (hs : s.state = .halfOpen probesLeft) (during : List Call)
    (hd : ∀ t ∈ (machine params).trace s during, t.after.state.IsHalfOpen) :
    ((machine params).trace s during).countP admitted ≤ probesLeft := by
  induction during generalizing s probesLeft with
  | nil => exact Nat.zero_le _
  | cons c cs ih =>
    rw [Machine.trace_cons] at hd ⊢
    obtain ⟨left,hleft⟩ := hd _ List.mem_cons_self
    have hrest := ih hleft (fun t ht => hd t (List.mem_cons_of_mem _ ht))
    have hslot := halfOpen_step hs hleft
    rw [Machine.fire_after] at hrest
    rw [List.countP_cons]
    omega

/-- From an open state on, nothing is admitted before the deadline of that state. -/
theorem openUntil_run {untilMs : ℕ} (hs : s.state = .openUntil untilMs) {calls : List Call} (hc : Clocked calls) :
    ∀ t ∈ (machine params).trace s calls, admitted t → untilMs ≤ t.input.now := by
  induction calls generalizing s with
  | nil => simp
  | cons c cs ih =>
    obtain ⟨hfirst,hcs⟩ := List.pairwise_cons.mp hc
    intro t ht ha
    rcases openUntil_step params hs c with ⟨hna,hstay⟩ | hlate
    · rcases List.mem_cons.mp ht with rfl | ht
      · exact absurd ha hna
      · exact ih hstay hcs t ht ha
    · rcases List.mem_cons.mp ((machine params).input_mem_of_mem_trace ht) with h | h
      · exact h ▸ hlate
      · exact hlate.trans (hfirst _ h)

/-- On every run of checks and reports of a new breaker under a clock that never
goes back: once the breaker is open, no check is admitted before the deadline
of that open period; and from the check that starts probing until the breaker
closes or opens again, at most `halfOpenProbes` checks are admitted. -/
theorem admission_bound (params : BreakerParams) (hp : 1 ≤ params.halfOpenProbes) (calls : List Call)
    (hc : Clocked calls) :
    (∀ before after untilMs, calls = before ++ after →
      ((machine params).run new before).state = .openUntil untilMs →
      ∀ t ∈ (machine params).trace ((machine params).run new before) after, admitted t → untilMs ≤ t.input.now) ∧
    (∀ before opening during rest, calls = before ++ opening :: (during ++ rest) →
      ((machine params).run new before).state.IsOpen →
      (∀ t ∈ (machine params).trace ((machine params).run new before) (opening :: during), t.after.state.IsHalfOpen) →
      ((machine params).trace ((machine params).run new before) (opening :: during)).countP admitted ≤
        params.halfOpenProbes) := by
  constructor
  · intro before after untilMs he hopen
    subst he
    exact openUntil_run hopen (List.pairwise_append.mp hc).2.1
  · rintro before opening during rest - ⟨untilMs,hopen⟩ hhalf
    rw [Machine.trace_cons] at hhalf ⊢
    obtain ⟨probesLeft,hleft⟩ := hhalf _ List.mem_cons_self
    have hslots := openUntil_to_halfOpen hopen hleft
    have hrest := halfOpen_run hleft during (fun t ht => hhalf t (List.mem_cons_of_mem _ ht))
    rw [Machine.fire_after] at hrest
    rw [List.countP_cons]
    split <;> omega

/-- One failure trips, two probes are let through, and the ratio only trips at one. -/
def probingParams : BreakerParams := ⟨1,fun failures total => total ≤ failures,10,100,2⟩

theorem admission_bound_probing :
    (1 ≤ probingParams.halfOpenProbes ∧ Clocked [.check 0,.report 5 true,.check 50,.check 105,.check 106,.check 107]) ∧
    ((machine probingParams).trace ((machine probingParams).run new [.check 0,.report 5 true,.check 50])
      [.check 105,.check 106,.check 107]).countP admitted ≤ probingParams.halfOpenProbes := by
  have hc : Clocked [.check 0,.report 5 true,.check 50,.check 105,.check 106,.check 107] := by
    simp [Clocked,Call.now]
  refine ⟨⟨by decide,hc⟩,?_⟩
  refine (admission_bound probingParams (by decide) _ hc).2 [.check 0,.report 5 true,.check 50] (.check 105)
    [.check 106,.check 107] [] rfl ⟨105,by decide⟩ ?_
  intro t ht
  have h : ((machine probingParams).trace ((machine probingParams).run new [.check 0,.report 5 true,.check 50])
      [.check 105,.check 106,.check 107]).map (·.after.state) = [.halfOpen 1,.halfOpen 0,.halfOpen 0] := by decide
  have hm := List.mem_map_of_mem (f := fun t : CallStep => t.after.state) ht
  rw [h] at hm
  simp only [List.mem_cons,List.not_mem_nil,or_false] at hm
  rcases hm with e | e | e
  all_goals exact ⟨_,e⟩

end Dwara.Resilience.Breaker

/-! What moves the breaker while it probes, and which request it belongs to. -/

namespace Dwara.Resilience.Breaker
open Dwara.Lib

/-- A report ends the probing: closed again or open again. -/
theorem report_not_halfOpen (params : BreakerParams) (inner : BreakerInner) (now : ℕ) (failed : Bool) (left : ℕ) :
    (report params inner now failed).1.state ≠ .halfOpen left := by
  rw [report]
  cases hs : inner.state with
  | closed consecutive =>
    simp only [pruneLocked_state,hs]
    split
    · rintro ⟨⟩
    · split <;> rintro ⟨⟩
  | openUntil untilMs => simp [hs]
  | halfOpen probesLeft =>
    simp only [pruneLocked_state,hs]
    split <;> rintro ⟨⟩

/-- A check that lets nothing through leaves the state as it is. -/
theorem check_state_of_reject {params : BreakerParams} {inner : BreakerInner} {now : ℕ} (h : (check params inner now).2.1 ≠ .allow) :
    (check params inner now).1.state = inner.state := by
  rw [check] at h ⊢
  cases hs : inner.state with
  | closed consecutive => simp [hs]
  | openUntil untilMs =>
    simp only [pruneLocked_state,hs] at h ⊢
    split at h <;> simp_all
  | halfOpen probesLeft =>
    simp only [pruneLocked_state,hs] at h ⊢
    split at h <;> simp_all

/-- With no probe slot left, every check is refused, however late it comes. -/
theorem check_of_no_slot {inner : BreakerInner} (h : inner.state = .halfOpen 0) (params : BreakerParams) (now : ℕ) :
    (check params inner now).2.1 = .reject halfOpenRetryAfterMs := by
  simp [check,h]

/-- All a check can do: admit by a closed breaker, begin the probing, admit a probe, or reject. -/
theorem check_cases (params : BreakerParams) (inner : BreakerInner) (now : ℕ) :
    (∃ n, inner.state = .closed n ∧ (check params inner now).1.state = .closed n ∧ (check params inner now).2.1 = .allow) ∨
      (inner.state.IsOpen ∧ (check params inner now).1.state.IsHalfOpen ∧ (check params inner now).2.1 = .allow) ∨
      (inner.state.IsHalfOpen ∧ (check params inner now).1.state.IsHalfOpen ∧ (check params inner now).2.1 = .allow) ∨
      (check params inner now).1.state = inner.state ∧ (check params inner now).2.1 ≠ .allow := by
  rw [check]
  cases hs : inner.state with
  | closed consecutive => exact .inl ⟨consecutive,rfl,by simp [hs],by simp [hs]⟩
  | openUntil untilMs =>
    by_cases h : now < untilMs
    · exact .inr (.inr (.inr (by simp [hs,h])))
    · exact .inr (.inl ⟨⟨untilMs,rfl⟩,⟨_,by simp [hs,h]; rfl⟩,by simp [hs,h]⟩)
  | halfOpen probesLeft =>
    by_cases h : probesLeft = 0
    · exact .inr (.inr (.inr (by simp [hs,h])))
    · exact .inr (.inr (.inl ⟨⟨probesLeft,rfl⟩,⟨_,by simp [hs,h]; rfl⟩,by simp [hs,h]⟩))

/-- How a request was admitted: by a closed breaker, or as a probe of a half-open period. -/
inductive Role where
  | regular
  | probe (period : ℕ)
  deriving DecidableEq, Repr

/-- A request under way: its role, and the call that admitted it. -/
structure Admission where
  role : Role
  since : ℕ
  deriving DecidableEq, Repr

/-- A breaker and the requests under way. Half-open periods and calls are counted. -/
structure Tracked where
  breaker : BreakerInner
  period : ℕ
  periodStart : ℕ
  calls : ℕ
  admitted : ℕ → Option Admission

inductive TrackedCall where
  | check (i : ℕ) (params : BreakerParams) (now : ℕ)
  | report (i : ℕ) (params : BreakerParams) (now : ℕ) (failed : Bool)

instance (s : BreakerState) : Decidable s.IsOpen :=
  match s with
  | .openUntil t => .isTrue ⟨t,rfl⟩
  | .closed _ => .isFalse nofun
  | .halfOpen _ => .isFalse nofun

instance (s : BreakerState) : Decidable s.IsHalfOpen :=
  match s with
  | .halfOpen n => .isTrue ⟨n,rfl⟩
  | .closed _ => .isFalse nofun
  | .openUntil _ => .isFalse nofun

namespace Tracked

/-- The period after a check, which begins a new one when it opens the half. -/
def periodAfter (s : Tracked) (after : BreakerInner) : ℕ :=
  if s.breaker.state.IsOpen ∧ after.state.IsHalfOpen then s.period + 1 else s.period

def periodStartAfter (s : Tracked) (after : BreakerInner) : ℕ :=
  if s.breaker.state.IsOpen ∧ after.state.IsHalfOpen then s.calls else s.periodStart

/-- The role of a request that the check admits. -/
def roleAfter (s : Tracked) (after : BreakerInner) : Role :=
  if after.state.IsHalfOpen then .probe (s.periodAfter after) else .regular

/-- Every report belongs to one admitted request, and a request asks again only after its report. -/
def step (s : Tracked) : TrackedCall → Option Tracked
  | .check i params now =>
    match s.admitted i with
    | some _ => none
    | none =>
      let r := check params s.breaker now
      some {
        breaker := r.1
        period := s.periodAfter r.1
        periodStart := s.periodStartAfter r.1
        calls := s.calls + 1
        admitted := if r.2.1 = .allow then Function.update s.admitted i (some ⟨s.roleAfter r.1,s.calls⟩) else s.admitted }
  | .report i params now failed =>
    match s.admitted i with
    | none => none
    | some _ =>
      some { s with
        breaker := (report params s.breaker now failed).1
        calls := s.calls + 1
        admitted := Function.update s.admitted i none }

/-- A new breaker, with no request under way. -/
def system : System Tracked TrackedCall := ⟨⟨new,0,0,0,fun _ => none⟩,step⟩

/-- The half-open state is only left on the report of a request admitted as a probe of this period. -/
def ProbesDecide (s : Tracked) (call : TrackedCall) : Prop :=
  ∀ s', s.step call = some s' → s.breaker.state.IsHalfOpen → ¬ s'.breaker.state.IsHalfOpen →
    ∃ i params now failed a, call = .report i params now failed ∧ s.admitted i = some a ∧ a.role = .probe s.period

/-- No request that was admitted before the half-open period began reports within it. -/
def Timely (s : Tracked) (call : TrackedCall) : Prop :=
  ∀ i params now failed a, call = .report i params now failed → s.breaker.state.IsHalfOpen → s.admitted i = some a →
    s.periodStart ≤ a.since

/-- The requests admitted since the half-open period began are its probes. -/
structure Dated (s : Tracked) : Prop where
  start_le : s.periodStart ≤ s.calls
  since_lt : ∀ i a, s.admitted i = some a → a.since < s.calls
  period_le : ∀ i a k, s.admitted i = some a → a.role = .probe k → k ≤ s.period
  probe_iff : s.breaker.state.IsHalfOpen → ∀ i a, s.admitted i = some a → (a.role = .probe s.period ↔ s.periodStart ≤ a.since)

variable {s s' : Tracked} {call : TrackedCall}

theorem not_open_of_halfOpen {state : BreakerState} (h : state.IsHalfOpen) : ¬ state.IsOpen := by
  obtain ⟨n,rfl⟩ := h
  rintro ⟨t,⟨⟩⟩

theorem periodAfter_of_eq {after : BreakerInner} (h : ¬ (s.breaker.state.IsOpen ∧ after.state.IsHalfOpen)) :
    s.periodAfter after = s.period ∧ s.periodStartAfter after = s.periodStart := ⟨if_neg h,if_neg h⟩

/-- The requests under way after a check: those before it, and the one it admits. -/
theorem admitted_check {i : ℕ} {params : BreakerParams} {now : ℕ} (h : s.step (.check i params now) = some s') {j : ℕ} {a : Admission}
    (ha : s'.admitted j = some a) : s.admitted j = some a ∨
      (check params s.breaker now).2.1 = .allow ∧ a = ⟨s.roleAfter (check params s.breaker now).1,s.calls⟩ := by
  rw [step] at h
  split at h
  · cases h
  · obtain rfl := Option.some.inj h
    simp only at ha
    split at ha
    · rename_i hallow
      by_cases hj : j = i
      · subst hj
        rw [Function.update_self] at ha
        exact .inr ⟨hallow,(Option.some.inj ha).symm⟩
      · rw [Function.update_of_ne hj] at ha
        exact .inl ha
    · exact .inl ha

theorem step_check {i : ℕ} {params : BreakerParams} {now : ℕ} (h : s.step (.check i params now) = some s') :
    s'.breaker = (check params s.breaker now).1 ∧ s'.period = s.periodAfter s'.breaker ∧
      s'.periodStart = s.periodStartAfter s'.breaker ∧ s'.calls = s.calls + 1 := by
  rw [step] at h
  split at h
  · cases h
  · obtain rfl := Option.some.inj h
    exact ⟨rfl,rfl,rfl,rfl⟩

theorem step_report {i : ℕ} {params : BreakerParams} {now : ℕ} {failed : Bool} (h : s.step (.report i params now failed) = some s') :
    (∃ a, s.admitted i = some a) ∧
      s' = { s with
        breaker := (report params s.breaker now failed).1
        calls := s.calls + 1
        admitted := Function.update s.admitted i none } := by
  rw [step] at h
  split at h
  · cases h
  · rename_i a ha
    exact ⟨⟨a,ha⟩,(Option.some.inj h).symm⟩

theorem dated_check {i : ℕ} {params : BreakerParams} {now : ℕ} (hs : s.Dated) (h : s.step (.check i params now) = some s') :
    s'.Dated := by
  obtain ⟨hbreaker,hperiod,hstart,hcalls⟩ := step_check h
  have hstart_le : s'.periodStart ≤ s.calls := by
    rw [hstart,periodStartAfter]
    split
    · exact Nat.le_refl _
    · exact hs.start_le
  have hperiod_le : s.period ≤ s'.period := by
    rw [hperiod,periodAfter]
    split
    · exact Nat.le_succ _
    · exact Nat.le_refl _
  have hnew : ∀ {j a}, s'.admitted j = some a → s.admitted j = some a ∨
      (check params s.breaker now).2.1 = .allow ∧ a = ⟨s.roleAfter s'.breaker,s.calls⟩ := fun ha => hbreaker ▸ admitted_check h ha
  constructor
  · omega
  · intro j a ha
    rcases hnew ha with hold | ⟨-,rfl⟩
    · have := hs.since_lt j a hold
      omega
    · rw [hcalls]
      exact Nat.lt_succ_self _
  · intro j a k ha hrole
    rcases hnew ha with hold | ⟨-,rfl⟩
    · exact (hs.period_le j a k hold hrole).trans hperiod_le
    · rw [roleAfter] at hrole
      split at hrole
      · rw [hperiod,Role.probe.inj hrole]
      · cases hrole
  · intro hhalf j a ha
    have hnewRole : s.roleAfter s'.breaker = .probe s'.period := by rw [roleAfter,if_pos hhalf,hperiod]
    by_cases hopen : s.breaker.state.IsOpen
    · -- A period begins: whatever is under way is older than it.
      have hbegins : s'.period = s.period + 1 ∧ s'.periodStart = s.calls :=
        ⟨hperiod.trans (if_pos ⟨hopen,hhalf⟩),hstart.trans (if_pos ⟨hopen,hhalf⟩)⟩
      rcases hnew ha with hold | ⟨-,rfl⟩
      · have hsince := hs.since_lt j a hold
        refine iff_of_false (fun hrole => ?_) (by omega)
        have := hs.period_le j a _ hold hrole
        omega
      · exact iff_of_true hnewRole hbegins.2.le
    · obtain ⟨hsame,hsameStart⟩ := (periodAfter_of_eq (fun hboth => hopen hboth.1) :
        s.periodAfter s'.breaker = _ ∧ s.periodStartAfter s'.breaker = _)
      have hbefore : s.breaker.state.IsHalfOpen := by
        rcases check_cases params s.breaker now with ⟨n,-,hafter,-⟩ | ⟨ho,-⟩ | ⟨hb,-⟩ | ⟨hafter,-⟩
        · obtain ⟨m,hm⟩ := hhalf
          rw [hbreaker,hafter] at hm
          cases hm
        · exact absurd ho hopen
        · exact hb
        · rwa [hbreaker,hafter] at hhalf
      rcases hnew ha with hold | ⟨-,rfl⟩
      · rw [hperiod,hstart,hsame,hsameStart]
        exact hs.probe_iff hbefore j a hold
      · exact iff_of_true hnewRole hstart_le

theorem dated_step (hs : s.Dated) (h : s.step call = some s') : s'.Dated := by
  cases call with
  | check i params now => exact dated_check hs h
  | report i params now failed =>
    obtain ⟨-,rfl⟩ := step_report h
    have hold : ∀ {j a}, Function.update s.admitted i none j = some a → s.admitted j = some a := by
      intro j a ha
      by_cases hj : j = i
      · subst hj
        rw [Function.update_self] at ha
        cases ha
      · rwa [Function.update_of_ne hj] at ha
    refine ⟨Nat.le_succ_of_le hs.start_le,fun j a ha => Nat.lt_succ_of_lt (hs.since_lt j a (hold ha)),
      fun j a k ha => hs.period_le j a k (hold ha),fun hhalf => ?_⟩
    obtain ⟨left,hleft⟩ := hhalf
    exact absurd hleft (report_not_halfOpen params s.breaker now failed left)

theorem dated_run {calls : List TrackedCall} (hr : system.run calls = some s) : s.Dated := by
  refine System.run_inv Dated ⟨Nat.le_refl 0,fun _ _ h => (by cases h),fun _ _ _ h => (by cases h),?_⟩
    (fun _ _ _ hs hstep => dated_step hs hstep) hr
  rintro ⟨left,⟨⟩⟩

/-- A check does not leave the half-open state. -/
theorem halfOpen_check {i : ℕ} {params : BreakerParams} {now : ℕ} (h : s.step (.check i params now) = some s')
    (hhalf : s.breaker.state.IsHalfOpen) : s'.breaker.state.IsHalfOpen := by
  rw [(step_check h).1]
  rcases check_cases params s.breaker now with ⟨n,hclosed,-⟩ | ⟨hopen,-⟩ | ⟨-,hafter,-⟩ | ⟨hafter,-⟩
  · obtain ⟨left,hleft⟩ := hhalf
    rw [hleft] at hclosed
    cases hclosed
  · exact absurd hopen (not_open_of_halfOpen hhalf)
  · exact hafter
  · rwa [hafter]

theorem probesDecide_iff_timely (hs : s.Dated) (call : TrackedCall) : s.ProbesDecide call ↔ s.Timely call := by
  constructor
  · intro hdecide i params now failed a hcall hhalf ha
    subst hcall
    have hstep : s.step (.report i params now failed) = some { s with
        breaker := (report params s.breaker now failed).1
        calls := s.calls + 1
        admitted := Function.update s.admitted i none } := by
      rw [step,ha]
    have hleft : ¬ (report params s.breaker now failed).1.state.IsHalfOpen :=
      fun ⟨left,hleft⟩ => report_not_halfOpen params s.breaker now failed left hleft
    obtain ⟨i',params',now',failed',a',hcall,ha',hrole⟩ := hdecide _ hstep hhalf hleft
    cases hcall
    obtain rfl := Option.some.inj (ha.symm.trans ha')
    exact (hs.probe_iff hhalf i a ha).mp hrole
  · intro htimely s' hstep hhalf hleft
    cases call with
    | check i params now => exact absurd (halfOpen_check hstep hhalf) hleft
    | report i params now failed =>
      obtain ⟨⟨a,ha⟩,-⟩ := step_report hstep
      exact ⟨i,params,now,failed,a,rfl,ha,(hs.probe_iff hhalf i a ha).mpr (htimely i params now failed a rfl hhalf ha)⟩

/-- Only probes decide the half-open periods of a run just when no request reports in a half-open period
that began after it was admitted. -/
theorem probes_decide_iff (calls : List TrackedCall) : system.Along ProbesDecide calls ↔ system.Along Timely calls := by
  constructor
  · intro h pre call post s he hr
    exact (probesDecide_iff_timely (dated_run hr) call).mp (h pre call post s he hr)
  · intro h pre call post s he hr
    exact (probesDecide_iff_timely (dated_run hr) call).mpr (h pre call post s he hr)

/-- Two requests are admitted, the second fails and trips the breaker, a third is the probe. -/
private def outlived : List TrackedCall :=
  [.check 0 probingParams 0,.check 1 probingParams 0,.report 1 probingParams 5 true,.check 2 probingParams 105]

/-- The first request answers while the probe is under way, and closes the breaker. -/
theorem closed_by_old_request : ¬ ∀ calls : List TrackedCall, system.Along ProbesDecide calls := by
  intro h
  obtain ⟨i,params,now,failed,a,hcall,ha,hrole⟩ :=
    h (outlived ++ [.report 0 probingParams 106 false]) outlived (.report 0 probingParams 106 false) [] _ rfl rfl _ rfl ⟨1,rfl⟩
      (by rintro ⟨left,⟨⟩⟩)
  cases hcall
  cases ha
  cases hrole

end Tracked

end Dwara.Resilience.Breaker
