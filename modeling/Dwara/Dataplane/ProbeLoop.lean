import Dwara.Lib.System
import Dwara.Resilience.Health

/-! The probe loop of one endpoint, beside the picks and requests that share its tracker. -/

namespace Dwara.Resilience.Health

/-- Whether the endpoint is available; changes nothing. -/
def EndpointHealth.isAvailable (h : EndpointHealth) (now : ℕ) : Bool :=
  match h.status with
  | .healthy => true
  | .ejected => h.ejectedUntilMs ≤ now
  | .halfOpen => 0 < h.probesRemaining

def HealthEvent.isProbe : HealthEvent → Bool
  | .probe .. => true
  | _ => false

end Dwara.Resilience.Health

namespace Dwara.Dataplane.Active
open Dwara.Lib Dwara.Resilience.Health

def maxConsecutivePanics : ℕ := 3

structure LoopParams extends ActiveParams where
  successThreshold : ℕ
  passive : HealthParams

/-- Where the loop stands: before a probe, with a success at hand and the clock read, about to
report, or at its end. -/
inductive Phase where
  | waiting
  | judging (now : ℕ)
  | reporting (now : ℕ) (isFailure : Bool)
  | abandoned
  deriving DecidableEq, Repr

/-- The loop and the tracker it reports to. Beside them stand the outcomes of its probes, the last
one first; a panic is no success. -/
structure LoopState where
  watched : Watched
  successStreak : ℕ
  consecutivePanics : ℕ
  phase : Phase
  outcomes : List Bool
  deriving DecidableEq, Repr

/-- What happens: a step of the loop, or what others do to the tracker. -/
inductive LoopEvent where
  | probed (ok : Bool)
  | judged
  | reported (systemNow : ℕ)
  | panicked
  | other (e : HealthEvent)

def step (p : LoopParams) (s : LoopState) : LoopEvent → Option LoopState
  | .probed ok =>
    if s.phase = .waiting then
      if ok then
        -- the 32-bit count wraps
        some { s with
          successStreak := (s.successStreak + 1) % 2 ^ 32, phase := .judging s.watched.now, outcomes := true :: s.outcomes }
      else
        some { s with successStreak := 0, phase := .reporting s.watched.now true, outcomes := false :: s.outcomes }
    else none
  | .judged =>
    match s.phase with
    | .judging now =>
      if p.successThreshold ≤ s.successStreak || s.watched.health.isAvailable now then
        some { s with phase := .reporting now false }
      else some { s with phase := .waiting, consecutivePanics := 0 }
    | _ => none
  | .reported systemNow =>
    match s.phase with
    | .reporting now isFailure =>
      some { s with
        watched := { s.watched with
          health := s.watched.health.reportProbe (reportParams p.toActiveParams p.passive) now systemNow isFailure }
        phase := .waiting, consecutivePanics := 0 }
    | _ => none
  | .panicked =>
    if s.phase = .abandoned then none
    else if maxConsecutivePanics ≤ s.consecutivePanics + 1 then some { s with phase := .abandoned }
    else
      some { s with
        successStreak := 0, consecutivePanics := s.consecutivePanics + 1, phase := .waiting, outcomes := false :: s.outcomes }
  | .other e =>
    -- the endpoint has one probe loop
    if e.isProbe then none else some { s with watched := watching.next s.watched e }

/-- The loop over a tracker in any state. -/
def system (p : LoopParams) (start : Watched) : System LoopState LoopEvent where
  init := ⟨start,0,0,.waiting,[]⟩
  step := step p

/-- The last `successThreshold` probes all succeeded. -/
def LoopState.Earned (p : LoopParams) (s : LoopState) : Prop :=
  p.successThreshold ≤ s.outcomes.length ∧ ∀ o ∈ s.outcomes.take p.successThreshold, o = true

/-- A successful probe restores an endpoint only after the whole streak; before, it only ends the
endpoint's failure streak. -/
def LoopState.StreakHeld (p : LoopParams) (s : LoopState) (e : LoopEvent) : Prop :=
  ∀ now systemNow s', s.phase = .reporting now false → e = .reported systemNow → step p s e = some s' →
    (s.watched.health.status ≠ .healthy → s'.watched.health.status = .healthy → s.Earned p) ∧
      (¬ s.Earned p → s'.watched.health = { s.watched.health with consecutiveFailures := 0 })

/-- A success below the threshold finds the endpoint healthy when it is reported. -/
def LoopState.Settled (p : LoopParams) (s : LoopState) (e : LoopEvent) : Prop :=
  ∀ now systemNow, s.phase = .reporting now false → e = .reported systemNow → s.successStreak < p.successThreshold →
    s.watched.health.status = .healthy

section Streak
variable {p : LoopParams} {s s' : LoopState} {e : LoopEvent}

/-- The streak counts no more than the successes since the last failure. -/
def LoopState.Counted (s : LoopState) : Prop := s.successStreak ≤ (s.outcomes.takeWhile id).length

theorem counted_step (hs : s.Counted) (h : step p s e = some s') : s'.Counted := by
  cases e with
  | probed ok =>
    rw [step] at h
    split at h
    · cases ok with
      | true =>
        obtain rfl := Option.some.inj h
        have hwrap := Nat.mod_le (s.successStreak + 1) (2 ^ 32)
        exact hwrap.trans (Nat.succ_le_succ hs)
      | false =>
        obtain rfl := Option.some.inj h
        exact Nat.zero_le _
    · cases h
  | judged =>
    rw [step] at h
    split at h
    · split at h
      · obtain rfl := Option.some.inj h
        exact hs
      · obtain rfl := Option.some.inj h
        exact hs
    · cases h
  | reported systemNow =>
    rw [step] at h
    split at h
    · obtain rfl := Option.some.inj h
      exact hs
    · cases h
  | panicked =>
    rw [step] at h
    split at h
    · cases h
    split at h
    · obtain rfl := Option.some.inj h
      exact hs
    · obtain rfl := Option.some.inj h
      exact Nat.zero_le _
  | other e =>
    rw [step] at h
    split at h
    · cases h
    · obtain rfl := Option.some.inj h
      exact hs

/-- Within the run of successes at the head of a list there are only successes. -/
private theorem take_of_le_run {n : ℕ} {os : List Bool} (h : n ≤ (os.takeWhile id).length) :
    n ≤ os.length ∧ ∀ o ∈ os.take n, o = true := by
  have hrun := List.takeWhile_prefix (l := os) id
  refine ⟨h.trans hrun.length_le,fun o ho => ?_⟩
  have hmem : o ∈ (os.takeWhile id).take n := by
    obtain ⟨rest,hrest⟩ := hrun
    rw [← hrest,List.take_append_of_le_length h] at ho
    exact ho
  exact List.all_eq_true.mp List.all_takeWhile o (List.mem_of_mem_take hmem)

theorem earned_of_threshold_le (hs : s.Counted) (h : p.successThreshold ≤ s.successStreak) : s.Earned p :=
  take_of_le_run (h.trans hs)

/-- The report of a success leaves a healthy endpoint as it is but for its failure streak. -/
theorem reportProbe_of_healthy {h : EndpointHealth} (hstatus : h.status = .healthy) (params : HealthParams) (now systemNow : ℕ) :
    h.reportProbe params now systemNow false = { h with consecutiveFailures := 0 } := by
  simp [EndpointHealth.reportProbe,EndpointHealth.applyObservation,hstatus]

theorem streakHeld_of_settled (hs : s.Counted) (hsettled : s.Settled p e) : s.StreakHeld p e := by
  intro now systemNow s' hphase he hstep
  subst he
  rw [step,hphase] at hstep
  obtain rfl := Option.some.inj hstep
  rcases Nat.lt_or_ge s.successStreak p.successThreshold with hshort | hlong
  · have hhealthy := hsettled now systemNow hphase rfl hshort
    exact ⟨fun hsick => absurd hhealthy hsick,fun _ => reportProbe_of_healthy hhealthy _ now systemNow⟩
  · have hearned := earned_of_threshold_le hs hlong
    exact ⟨fun _ _ => hearned,fun hnot => absurd hearned hnot⟩

end Streak

/-- One failure ejects for 100 ms; two successful probes are needed. -/
private def twiceParams : LoopParams :=
  ⟨⟨3⟩,2,⟨1000,1,fun _ _ => false,10,100,1,Nat.one_pos⟩⟩

private def ejectedThenProbed : List LoopEvent :=
  [.other (.request twiceParams.passive 0 true),.other (.advance 100),.probed true,.judged]

end Dwara.Dataplane.Active
