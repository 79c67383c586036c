import Dwara.Dataplane.FirstFrame
import Dwara.Dataplane.HedgeRace
import Dwara.Dataplane.UpstreamErrors
import Dwara.Resilience.Breaker

/-! The attempts of one request: what the loop sends, what it reserves for it, and when. -/

namespace Dwara.Dataplane.AttemptAccounting
open Dwara.Lib Dwara.Lib.BodyStream Dwara.Resilience Dwara.Resilience.Breaker

/-- What the loop finds: the retries and hedges of the upstream, whether the body can be sent again, and the
instants it began at and is to be over by. -/
structure LoopSetup where
  rp : RetryParams
  hedge : Hedge.HedgeParams
  hedgeEligible : Bool
  replayable : Bool
  wantsUpgrade : Bool
  breaker : Option BreakerParams
  grpcDeadline : Option ℕ
  started : ℕ

def LoopSetup.hedgeEnabled (cfg : LoopSetup) : Bool := cfg.hedgeEligible && cfg.replayable

/-- What the loop did, and when. A sleep is to last until its second instant. -/
inductive LoopAct where
  | send (now : ℕ)
  | copy (now : ℕ)
  | reserve (now : ℕ)
  | sleep (now wake : ℕ)
  | reject (now : ℕ)
  | respond (now : ℕ)
  deriving DecidableEq, Repr

variable {ε : Type}

/-- At its head, in an attempt (with copies sent or not), holding back a body, or through. -/
inductive LoopPhase (ε : Type) where
  | head
  | sending (since : ℕ) (hedged : Bool)
  | buffering (body : Body ε)
  | returned

structure LoopState (ε : Type) where
  phase : LoopPhase ε
  doneTries : ℕ
  now : ℕ
  log : List LoopAct

/-- What a decision on a retry draws: the backoff, and the budget with the clock it is asked at. -/
structure Draw where
  delay : ℕ
  clock : ℕ
  budget : List RetryBudget.Event

/-- The loop comes to its head, its hedge timer or its deadline fires, or what it waits for is there. -/
inductive LoopEvent (ε : Type) where
  | enter (now : ℕ) (breaker : BreakerInner) (clock : ℕ)
  | hedge (now : ℕ)
  | expire (now : ℕ)
  | answer (now : ℕ) (result : Except UpstreamError (ℕ × Body ε)) (draw : Draw)
  | buffered (now : ℕ) (draw : Draw)

namespace LoopState

def start (cfg : LoopSetup) : LoopState ε := ⟨.head,0,cfg.started,[]⟩

def mayRetry (cfg : LoopSetup) (tries : ℕ) : Bool := tries ≤ cfg.rp.attempts && cfg.replayable

/-- Whether the breaker lets no attempt pass. -/
def rejects (cfg : LoopSetup) (breaker : BreakerInner) (clock : ℕ) : Bool :=
  match cfg.breaker with
  | none => false
  | some params =>
    match (Breaker.check params breaker clock).2.1 with
    | .allow => false
    | .reject _ => true

def respond (s : LoopState ε) : LoopState ε := { s with phase := .returned, log := s.log ++ [.respond s.now] }

/-- The way back to the head, if the deadline over all attempts leaves time and the budget is charged. -/
def retry (cfg : LoopSetup) (s : LoopState ε) (draw : Draw) : Option (LoopState ε) :=
  match retrySleepUnderTotalDeadline cfg.rp.totalDeadline (s.now - cfg.started) draw.delay with
  | some sleep =>
    if (RetryBudget.tryReserveRetry RetryBudget.retryBudgetWindowMs cfg.rp.budgetPercent draw.budget draw.clock).2 then
      some { s with phase := .head, now := s.now + sleep, log := s.log ++ [.reserve s.now,.sleep s.now (s.now + sleep)] }
    else none
  | none => none

/-- Where the loop goes with the result of an attempt. -/
def afterAttempt (cfg : LoopSetup) (s : LoopState ε) (draw : Draw) : Except UpstreamError (ℕ × Body ε) → LoopState ε
  | .ok (status,body) =>
    let kept := if holdsBack cfg.rp (mayRetry cfg s.doneTries) cfg.wantsUpgrade then { s with phase := .buffering body } else s.respond
    if mayRetry cfg s.doneTries && cfg.rp.retriesStatus status then (s.retry cfg draw).getD kept else kept
  | .error e =>
    if signatureBodyMismatch e then s.respond
    else if mayRetry cfg s.doneTries && cfg.rp.retryTransport && transportRetryable e then (s.retry cfg draw).getD s.respond
    else s.respond

/-- The clock moves on. -/
def tick (s : LoopState ε) (now : ℕ) : Option (LoopState ε) := if s.now ≤ now then some { s with now := now } else none

/-- Whether the attempt is raced against copies; such a one has no deadline. -/
def hedged (cfg : LoopSetup) (s : LoopState ε) : Bool := cfg.hedgeEnabled && s.doneTries = 0

def step (cfg : LoopSetup) (s : LoopState ε) : LoopEvent ε → Option (LoopState ε)
  | .enter now breaker clock =>
    match s.phase with
    | .head =>
      (s.tick now).map fun s =>
        if rejects cfg breaker clock then { s with phase := .returned, log := s.log ++ [.reject now] }
        else { s with phase := .sending now false, log := s.log ++ [.send now] }
    | _ => none
  | .hedge now =>
    match s.phase with
    | .sending since false =>
      if s.hedged cfg ∧ since + cfg.hedge.hedgeAfter ≤ now then
        (s.tick now).map fun s =>
          { s with phase := .sending since true, log := s.log ++ List.replicate cfg.hedge.hedgeMax (.copy now) }
      else none
    | _ => none
  | .expire now =>
    match s.phase,cfg.grpcDeadline with
    | .sending _ _,some deadline => if s.hedged cfg = false ∧ deadline ≤ now then (s.tick now).map respond else none
    | _,_ => none
  | .answer now result draw =>
    match s.phase with
    | .sending _ _ => (s.tick now).map fun s => afterAttempt cfg { s with doneTries := s.doneTries + 1 } draw result
    | _ => none
  | .buffered now draw =>
    match s.phase with
    | .buffering body =>
      (s.tick now).map fun s =>
        match bufferFirstFrame cfg.rp.bufferFirstFrameBytes [] body with
        | .ok _ => s.respond
        | .error _ => (s.retry cfg draw).getD s.respond
    | _ => none

end LoopState

def attemptLoop (ε : Type) (cfg : LoopSetup) : System (LoopState ε) (LoopEvent ε) := ⟨.start cfg,LoopState.step cfg⟩

def BeforeDeadline (cfg : LoopSetup) (now : ℕ) : Prop := ∀ deadline, cfg.grpcDeadline = some deadline → now ≤ deadline

namespace LoopAct

def isSend : LoopAct → Bool
  | .send _ => true
  | _ => false

def isCopy : LoopAct → Bool
  | .copy _ => true
  | _ => false

def isReserve : LoopAct → Bool
  | .reserve _ => true
  | _ => false

def isFinal : LoopAct → Bool
  | .reject _ | .respond _ => true
  | _ => false

/-- What is sent is not sent after the deadline of the client. -/
def InTime (cfg : LoopSetup) : LoopAct → Prop
  | .send now | .copy now => BeforeDeadline cfg now
  | _ => True

end LoopAct

namespace LoopState
def sends (s : LoopState ε) : ℕ := s.log.countP LoopAct.isSend

def copies (s : LoopState ε) : ℕ := s.log.countP LoopAct.isCopy

/-- The successful reservations of the budget. -/
def reserves (s : LoopState ε) : ℕ := s.log.countP LoopAct.isReserve

/-- What holds of every run: bounded sends, one reservation before each but the first of them, no sleep past
the deadline, and nothing after a response or a rejection. -/
structure Bounded (cfg : LoopSetup) (s : LoopState ε) : Prop where
  sends_le : s.sends ≤ cfg.rp.attempts + 1
  once : cfg.replayable = false → s.sends ≤ 1
  copies_le : s.copies ≤ cfg.hedge.hedgeMax
  reserves_le : s.reserves ≤ s.sends
  sends_le_reserves : s.sends ≤ s.reserves + 1
  wake_le : ∀ now wake total, .sleep now wake ∈ s.log → cfg.rp.totalDeadline = some total → wake ≤ cfg.started + total
  final_last : ∀ a ∈ s.log.dropLast, a.isFinal = false

/-- Every reservation is used, and nothing is sent after the deadline of the client. -/
structure Exact (cfg : LoopSetup) (s : LoopState ε) : Prop where
  used : s.phase = .returned → s.reserves = s.sends - 1
  inTime : ∀ a ∈ s.log, a.InTime cfg

/-- The breaker does not reject a retry that was reserved, and what is sent comes before the deadline. -/
def Timely (cfg : LoopSetup) (s : LoopState ε) : LoopEvent ε → Prop
  | .enter now breaker clock => if rejects cfg breaker clock then s.doneTries = 0 else BeforeDeadline cfg now
  | .hedge now => cfg.hedge.hedgeMax = 0 ∨ BeforeDeadline cfg now
  | _ => True

/-- Where the loop may go after an attempt, where it may go back with `may`. -/
inductive After (cfg : LoopSetup) (may : Prop) (u : LoopState ε) : LoopState ε → Prop where
  | respond : After cfg may u u.respond
  | retry (hmay : may) {wake : ℕ} (hwake : u.now ≤ wake)
      (hbound : ∀ total, cfg.rp.totalDeadline = some total → cfg.started ≤ u.now → wake ≤ cfg.started + total) :
      After cfg may u { u with phase := .head, now := wake, log := u.log ++ [.reserve u.now,.sleep u.now wake] }
  | buffer (hmay : may) (body : Body ε) : After cfg may u { u with phase := .buffering body }

/-- Everything an event can do, with what it needs for it. -/
inductive Move (cfg : LoopSetup) (s : LoopState ε) : LoopEvent ε → LoopState ε → Prop where
  | reject {now : ℕ} {breaker : BreakerInner} {clock : ℕ} (hphase : s.phase = .head) (hnow : s.now ≤ now)
      (h : rejects cfg breaker clock = true) :
      Move cfg s (.enter now breaker clock) { s with phase := .returned, now := now, log := s.log ++ [.reject now] }
  | send {now : ℕ} {breaker : BreakerInner} {clock : ℕ} (hphase : s.phase = .head) (hnow : s.now ≤ now)
      (h : rejects cfg breaker clock = false) :
      Move cfg s (.enter now breaker clock) { s with phase := .sending now false, now := now, log := s.log ++ [.send now] }
  | hedge {now since : ℕ} (hphase : s.phase = .sending since false) (hnow : s.now ≤ now) (hfirst : s.doneTries = 0) :
      Move cfg s (.hedge now) { s with
        phase := .sending since true, now := now, log := s.log ++ List.replicate cfg.hedge.hedgeMax (.copy now) }
  | expire {now since : ℕ} {hedged : Bool} (hphase : s.phase = .sending since hedged) (hnow : s.now ≤ now) :
      Move cfg s (.expire now) (respond { s with now := now })
  | answer {now since : ℕ} {hedged : Bool} {result : Except UpstreamError (ℕ × Body ε)} {draw : Draw} {t : LoopState ε}
      (hphase : s.phase = .sending since hedged) (hnow : s.now ≤ now)
      (h : After cfg (mayRetry cfg (s.doneTries + 1) = true) { s with now := now, doneTries := s.doneTries + 1 } t) :
      Move cfg s (.answer now result draw) t
  | buffered {now : ℕ} {body : Body ε} {draw : Draw} {t : LoopState ε} (hphase : s.phase = .buffering body) (hnow : s.now ≤ now)
      (h : After cfg True { s with now := now } t) : Move cfg s (.buffered now draw) t

variable {cfg : LoopSetup} {s t u : LoopState ε}

theorem retry_after {may : Prop} (hmay : may) {draw : Draw} (h : u.retry cfg draw = some t) : After cfg may u t := by
  rw [retry] at h
  split at h
  · rename_i sleep hsleep
    split at h
    · cases h
      refine .retry hmay (Nat.le_add_right _ _) fun total htotal hstarted => ?_
      unfold retrySleepUnderTotalDeadline at hsleep
      rw [htotal] at hsleep
      dsimp only at hsleep
      split at hsleep
      · cases hsleep
      · cases hsleep
        have := Nat.min_le_right draw.delay (total - (u.now - cfg.started))
        omega
    · cases h
  · cases h

/-- A retry that is not granted leaves what there was to do without it. -/
theorem getD_after {may : Prop} (hmay : may) {draw : Draw} {kept : LoopState ε} (h : After cfg may u kept) :
    After cfg may u ((u.retry cfg draw).getD kept) := by
  cases hretry : u.retry cfg draw with
  | none => exact h
  | some t => exact retry_after hmay hretry

theorem afterAttempt_after (draw : Draw) (result : Except UpstreamError (ℕ × Body ε)) :
    After cfg (mayRetry cfg u.doneTries = true) u (u.afterAttempt cfg draw result) := by
  cases result with
  | ok answer =>
    obtain ⟨status,body⟩ := answer
    have hkept : After cfg (mayRetry cfg u.doneTries = true) u
        (if holdsBack cfg.rp (mayRetry cfg u.doneTries) cfg.wantsUpgrade then { u with phase := .buffering body } else u.respond) := by
      split
      · rename_i hheld
        simp only [holdsBack,Bool.and_eq_true] at hheld
        exact .buffer hheld.1.1 body
      · exact .respond
    simp only [afterAttempt]
    split
    · rename_i hretry
      exact getD_after (Bool.and_eq_true_iff.mp hretry).1 hkept
    · exact hkept
  | error e =>
    simp only [afterAttempt]
    split
    · exact .respond
    · split
      · rename_i hretry
        simp only [Bool.and_eq_true] at hretry
        exact getD_after hretry.1.1 .respond
      · exact .respond

theorem tick_eq_some {now : ℕ} (h : s.tick now = some t) : s.now ≤ now ∧ t = { s with now := now } := by
  rw [tick] at h
  split at h
  · rename_i hnow
    exact ⟨hnow,(Option.some.inj h).symm⟩
  · cases h

theorem move_of_step {e : LoopEvent ε} (h : s.step cfg e = some t) : Move cfg s e t := by
  cases e with
  | enter now breaker clock =>
    simp only [step] at h
    split at h
    · rename_i hphase
      obtain ⟨u,hu,rfl⟩ := Option.map_eq_some_iff.mp h
      obtain ⟨hnow,rfl⟩ := tick_eq_some hu
      split
      · exact .reject hphase hnow ‹_›
      · exact .send hphase hnow (Bool.eq_false_iff.mpr ‹_›)
    · cases h
  | hedge now =>
    simp only [step] at h
    split at h
    · rename_i since hphase
      split at h
      · rename_i hfires
        obtain ⟨u,hu,rfl⟩ := Option.map_eq_some_iff.mp h
        obtain ⟨hnow,rfl⟩ := tick_eq_some hu
        have hfirst := (Bool.and_eq_true_iff.mp hfires.1).2
        exact .hedge hphase hnow (of_decide_eq_true hfirst)
      · cases h
    · cases h
  | expire now =>
    simp only [step] at h
    split at h
    · rename_i hphase _
      split at h
      · obtain ⟨u,hu,rfl⟩ := Option.map_eq_some_iff.mp h
        obtain ⟨hnow,rfl⟩ := tick_eq_some hu
        exact .expire hphase hnow
      · cases h
    · cases h
  | answer now result draw =>
    simp only [step] at h
    split at h
    · rename_i hphase
      obtain ⟨u,hu,rfl⟩ := Option.map_eq_some_iff.mp h
      obtain ⟨hnow,rfl⟩ := tick_eq_some hu
      exact .answer hphase hnow (@afterAttempt_after ε cfg { s with now := now, doneTries := s.doneTries + 1 } draw result)
    · cases h
  | buffered now draw =>
    simp only [step] at h
    split at h
    · rename_i body hphase
      obtain ⟨u,hu,rfl⟩ := Option.map_eq_some_iff.mp h
      obtain ⟨hnow,rfl⟩ := tick_eq_some hu
      refine .buffered hphase hnow ?_
      split
      · exact .respond
      · exact getD_after trivial .respond
    · cases h

/-- An attempt was sent: it is within the bounds, and all before it were followed by a reservation. -/
structure Sent (cfg : LoopSetup) (s : LoopState ε) : Prop where
  sends_le : s.sends ≤ cfg.rp.attempts + 1
  once : cfg.replayable = false → s.sends ≤ 1
  sends_eq : s.sends = s.reserves + 1

theorem Sent.of_log_eq (hs : s.Sent cfg) (h : t.log = s.log) : t.Sent cfg := by
  refine ⟨?_,fun hreplay => ?_,?_⟩
  · rw [sends,h]
    exact hs.sends_le
  · rw [sends,h]
    exact hs.once hreplay
  · rw [sends,reserves,h]
    exact hs.sends_eq

/-- Another attempt is within the bounds. -/
theorem tries_le_of_mayRetry {tries : ℕ} (h : tries = 0 ∨ mayRetry cfg tries = true) :
    tries ≤ cfg.rp.attempts ∧ (cfg.replayable = false → tries = 0) := by
  rcases h with rfl | hmay
  · exact ⟨Nat.zero_le _,fun _ => rfl⟩
  · simp only [mayRetry,Bool.and_eq_true,decide_eq_true_eq] at hmay
    exact ⟨hmay.1,fun hreplay => absurd hmay.2 (by simp [hreplay])⟩

def Counted (cfg : LoopSetup) (s : LoopState ε) : Prop :=
  match s.phase with
  | .head => s.reserves = s.sends ∧ s.sends = s.doneTries ∧ (s.doneTries = 0 ∨ mayRetry cfg s.doneTries = true) ∧
    (s.doneTries = 0 → s.copies = 0)
  | .sending _ hedged => s.Sent cfg ∧ s.sends = s.doneTries + 1 ∧ (s.doneTries = 0 → hedged = false → s.copies = 0)
  | .buffering _ => s.Sent cfg ∧ s.sends = s.doneTries ∧ mayRetry cfg s.doneTries = true
  | .returned => s.sends ≤ cfg.rp.attempts + 1 ∧ (cfg.replayable = false → s.sends ≤ 1) ∧ s.reserves ≤ s.sends ∧
    s.sends ≤ s.reserves + 1

structure Consistent (cfg : LoopSetup) (s : LoopState ε) : Prop where
  counted : s.Counted cfg
  started_le : cfg.started ≤ s.now
  copies_le : s.copies ≤ cfg.hedge.hedgeMax
  wake_le : ∀ now wake total, .sleep now wake ∈ s.log → cfg.rp.totalDeadline = some total → wake ≤ cfg.started + total
  running : s.phase ≠ .returned → ∀ a ∈ s.log, a.isFinal = false
  final_last : ∀ a ∈ s.log.dropLast, a.isFinal = false

theorem Consistent.bounded (hs : s.Consistent cfg) : s.Bounded cfg := by
  have hcounted := hs.counted
  have hcounts : s.sends ≤ cfg.rp.attempts + 1 ∧ (cfg.replayable = false → s.sends ≤ 1) ∧ s.reserves ≤ s.sends ∧
      s.sends ≤ s.reserves + 1 := by
    rw [Counted] at hcounted
    split at hcounted
    · obtain ⟨hreserves,hsends,hmay,-⟩ := hcounted
      obtain ⟨htries,hfirst⟩ := tries_le_of_mayRetry hmay
      exact ⟨by omega,fun hreplay => by have := hfirst hreplay; omega,by omega,by omega⟩
    · obtain ⟨hsent,-⟩ := hcounted
      exact ⟨hsent.sends_le,hsent.once,by have := hsent.sends_eq; omega,hsent.sends_eq.le⟩
    · obtain ⟨hsent,-⟩ := hcounted
      exact ⟨hsent.sends_le,hsent.once,by have := hsent.sends_eq; omega,hsent.sends_eq.le⟩
    · exact hcounted
  exact ⟨hcounts.1,hcounts.2.1,hs.copies_le,hcounts.2.2.1,hcounts.2.2.2,hs.wake_le,hs.final_last⟩

/-- The log ends in acts that end nothing. -/
theorem forall_not_final_append {log acts : List LoopAct} (h : ∀ a ∈ log, a.isFinal = false) (hacts : ∀ a ∈ acts, a.isFinal = false) :
    ∀ a ∈ log ++ acts, a.isFinal = false := List.forall_mem_append.mpr ⟨h,hacts⟩

theorem not_final_dropLast {log : List LoopAct} (h : ∀ a ∈ log, a.isFinal = false) : ∀ a ∈ log.dropLast, a.isFinal = false :=
  fun a ha => h a (List.mem_of_mem_dropLast ha)

theorem counts_of_log {acts : List LoopAct} (h : t.log = s.log ++ acts) :
    t.sends = s.sends + acts.countP LoopAct.isSend ∧ t.reserves = s.reserves + acts.countP LoopAct.isReserve ∧
      t.copies = s.copies + acts.countP LoopAct.isCopy :=
  ⟨by rw [sends,h,List.countP_append,sends],by rw [reserves,h,List.countP_append,reserves],by rw [copies,h,List.countP_append,copies]⟩

/-- After an attempt. -/
theorem consistent_after {may : Prop} (hsent : u.Sent cfg) (hopen : ∀ a ∈ u.log, a.isFinal = false)
    (hstarted : cfg.started ≤ u.now) (hcopies : u.copies ≤ cfg.hedge.hedgeMax)
    (hwakes : ∀ now wake total, .sleep now wake ∈ u.log → cfg.rp.totalDeadline = some total → wake ≤ cfg.started + total)
    (htries : may → u.sends = u.doneTries ∧ mayRetry cfg u.doneTries = true) (h : After cfg may u t) : t.Consistent cfg := by
  have hsends := hsent.sends_eq
  cases h with
  | respond =>
    obtain ⟨hs,hr,hc⟩ := counts_of_log (t := u.respond) (s := u) rfl
    refine ⟨?_,hstarted,hc ▸ hcopies,fun now wake total hmem => ?_,fun h => absurd rfl h,?_⟩
    · show _ ∧ _ ∧ _ ∧ _
      rw [hs,hr]
      exact ⟨hsent.sends_le,hsent.once,hsends.ge.trans' (Nat.le_succ _),hsends.le⟩
    · exact hwakes now wake total (by simpa [respond] using hmem)
    · simpa [respond] using hopen
  | @retry hmay wake hwake hbound =>
    obtain ⟨htried,hmayRetry⟩ := htries hmay
    obtain ⟨hs,hr,hc⟩ := counts_of_log
      (t := { u with phase := .head, now := wake, log := u.log ++ [.reserve u.now,.sleep u.now wake] }) (s := u) rfl
    simp only [List.countP_cons,List.countP_nil,LoopAct.isSend,LoopAct.isReserve,LoopAct.isCopy,Bool.false_eq_true,if_false,if_true] at hs hr hc
    have hopen' : ∀ a ∈ u.log ++ [.reserve u.now,.sleep u.now wake], a.isFinal = false :=
      forall_not_final_append hopen (by simp [LoopAct.isFinal])
    refine ⟨?_,hstarted.trans hwake,hc ▸ hcopies,fun now end_ total hmem htotal => ?_,fun _ => hopen',not_final_dropLast hopen'⟩
    · show _ ∧ _ ∧ _ ∧ _
      rw [hs,hr,hc]
      exact ⟨by omega,htried,.inr hmayRetry,fun h => by dsimp only at h; omega⟩
    · rcases List.mem_append.mp hmem with hmem | hmem
      · exact hwakes now end_ total hmem htotal
      · obtain ⟨-,rfl⟩ : now = u.now ∧ end_ = wake := by simpa using hmem
        exact hbound total htotal hstarted
  | buffer hmay body =>
    obtain ⟨htried,hmayRetry⟩ := htries hmay
    exact ⟨⟨hsent.of_log_eq rfl,htried,hmayRetry⟩,hstarted,hcopies,hwakes,fun _ => hopen,not_final_dropLast hopen⟩

theorem consistent_step {e : LoopEvent ε} (hs : s.Consistent cfg) (h : s.step cfg e = some t) : t.Consistent cfg := by
  have hcounted := hs.counted
  rw [Counted] at hcounted
  cases move_of_step h with
  | @reject now breaker clock hphase hnow hrejects =>
    rw [hphase] at hcounted
    obtain ⟨hreserves,hsends,hmay,-⟩ := hcounted
    have hopen := hs.running (by rw [hphase]; nofun)
    obtain ⟨hsame,hsameReserves,hsameCopies⟩ :=
      counts_of_log (t := { s with phase := .returned, now := now, log := s.log ++ [.reject now] }) (s := s) rfl
    have hbounded := hs.bounded
    refine ⟨?_,hs.started_le.trans hnow,hsameCopies ▸ hs.copies_le,fun since wake total hmem => ?_,fun h => absurd rfl h,?_⟩
    · show _ ∧ _ ∧ _ ∧ _
      rw [hsame,hsameReserves]
      exact ⟨hbounded.sends_le,hbounded.once,hbounded.reserves_le,hbounded.sends_le_reserves⟩
    · exact hs.wake_le since wake total (by simpa using hmem)
    · simpa using hopen
  | @send now breaker clock hphase hnow hrejects =>
    rw [hphase] at hcounted
    obtain ⟨hreserves,hsends,hmay,hcopies⟩ := hcounted
    have hopen : ∀ a ∈ s.log ++ [.send now], a.isFinal = false :=
      forall_not_final_append (hs.running (by rw [hphase]; nofun)) (by simp [LoopAct.isFinal])
    obtain ⟨hsame,hsameReserves,hsameCopies⟩ :=
      counts_of_log (t := { s with phase := .sending now false, now := now, log := s.log ++ [.send now] }) (s := s) rfl
    simp only [List.countP_cons,List.countP_nil,LoopAct.isSend,LoopAct.isReserve,LoopAct.isCopy,Bool.false_eq_true,if_false,
      if_true] at hsame hsameReserves hsameCopies
    obtain ⟨htries,honce⟩ := tries_le_of_mayRetry hmay
    refine ⟨⟨⟨?_,fun hreplay => ?_,?_⟩,?_,fun hfirst _ => ?_⟩,hs.started_le.trans hnow,hsameCopies ▸ hs.copies_le,
      fun since wake total hmem => ?_,fun _ => hopen,not_final_dropLast hopen⟩
    · rw [hsame]
      omega
    · have htried := honce hreplay
      rw [hsame]
      omega
    · rw [hsame,hsameReserves]
      omega
    · rw [hsame]
      exact congrArg (· + 1) hsends
    · exact hsameCopies.trans (hcopies hfirst)
    · exact hs.wake_le since wake total (by simpa using hmem)
  | @hedge now since hphase hnow hfirst =>
    rw [hphase] at hcounted
    obtain ⟨hsent,hsends,hcopies⟩ := hcounted
    have hopen : ∀ a ∈ s.log ++ List.replicate cfg.hedge.hedgeMax (.copy now), a.isFinal = false :=
      forall_not_final_append (hs.running (by rw [hphase]; nofun)) (by simp [LoopAct.isFinal])
    obtain ⟨hsame,hsameReserves,hsameCopies⟩ := counts_of_log (s := s) (t := { s with
      phase := .sending since true, now := now, log := s.log ++ List.replicate cfg.hedge.hedgeMax (.copy now) }) rfl
    simp only [List.countP_replicate,LoopAct.isSend,LoopAct.isReserve,LoopAct.isCopy,Bool.false_eq_true,if_false,
      if_true] at hsame hsameReserves hsameCopies
    refine ⟨⟨⟨hsame ▸ hsent.sends_le,fun hreplay => hsame ▸ hsent.once hreplay,?_⟩,hsame.trans hsends,nofun⟩,
      hs.started_le.trans hnow,?_,fun since wake total hmem => ?_,fun _ => hopen,not_final_dropLast hopen⟩
    · rw [hsame,hsameReserves]
      exact hsent.sends_eq
    · rw [hsameCopies,hcopies hfirst rfl]
      simp
    · exact hs.wake_le since wake total (by simpa using hmem)
  | @expire now since hedged hphase hnow =>
    rw [hphase] at hcounted
    obtain ⟨hsent,hsends,-⟩ := hcounted
    have hafter : After cfg False { s with now := now } (respond { s with now := now }) := .respond
    exact consistent_after (u := { s with now := now }) (hsent.of_log_eq rfl)
      (hs.running (by rw [hphase]; nofun)) (hs.started_le.trans hnow)
      hs.copies_le hs.wake_le False.elim hafter
  | @answer now since hedged result draw t hphase hnow hafter =>
    rw [hphase] at hcounted
    obtain ⟨hsent,hsends,-⟩ := hcounted
    exact consistent_after (u := { s with now := now, doneTries := s.doneTries + 1 }) (hsent.of_log_eq rfl)
      (hs.running (by rw [hphase]; nofun)) (hs.started_le.trans hnow)
      hs.copies_le hs.wake_le (fun hmay => ⟨hsends,hmay⟩) hafter
  | @buffered now body draw t hphase hnow hafter =>
    rw [hphase] at hcounted
    obtain ⟨hsent,hsends,hmay⟩ := hcounted
    exact consistent_after (u := { s with now := now }) (hsent.of_log_eq rfl)
      (hs.running (by rw [hphase]; nofun)) (hs.started_le.trans hnow)
      hs.copies_le hs.wake_le (fun _ => ⟨hsends,hmay⟩) hafter

theorem exact_after {may : Prop} (hsent : u.Sent cfg) (htime : ∀ a ∈ u.log, a.InTime cfg) (h : After cfg may u t) : t.Exact cfg := by
  cases h with
  | respond =>
    obtain ⟨hsame,hsameReserves,-⟩ := counts_of_log (t := u.respond) (s := u) rfl
    refine ⟨fun _ => ?_,List.forall_mem_append.mpr ⟨htime,List.forall_mem_singleton.mpr trivial⟩⟩
    rw [hsame,hsameReserves]
    exact Nat.eq_sub_of_add_eq hsent.sends_eq.symm
  | retry hmay hwake hbound =>
    refine ⟨nofun,List.forall_mem_append.mpr ⟨htime,?_⟩⟩
    exact List.forall_mem_cons.mpr ⟨trivial,List.forall_mem_singleton.mpr trivial⟩
  | buffer hmay body => exact ⟨nofun,htime⟩

/-- A step keeps the accounts exact just when it is timely. -/
theorem exact_step_iff {e : LoopEvent ε} (hs : s.Consistent cfg) (hexact : s.Exact cfg) (h : s.step cfg e = some t) :
    t.Exact cfg ↔ s.Timely cfg e := by
  have hcounted := hs.counted
  rw [Counted] at hcounted
  cases move_of_step h with
  | @reject now breaker clock hphase hnow hrejects =>
    rw [hphase] at hcounted
    obtain ⟨hreserves,hsends,-,-⟩ := hcounted
    obtain ⟨hsame,hsameReserves,-⟩ :=
      counts_of_log (t := { s with phase := .returned, now := now, log := s.log ++ [.reject now] }) (s := s) rfl
    rw [Timely,if_pos hrejects]
    constructor
    · intro ht
      have hused := ht.used rfl
      rw [hsame,hsameReserves] at hused
      have hnone : s.reserves = s.sends - 1 := hused
      omega
    · intro hfirst
      refine ⟨fun _ => ?_,List.forall_mem_append.mpr ⟨hexact.inTime,List.forall_mem_singleton.mpr trivial⟩⟩
      rw [hsame,hsameReserves]
      show s.reserves = s.sends - 1
      omega
  | @send now breaker clock hphase hnow hrejects =>
    rw [Timely,if_neg (Bool.eq_false_iff.mp hrejects)]
    constructor
    · intro ht
      exact ht.inTime (.send now) (List.mem_append_right _ List.mem_cons_self)
    · intro hbefore
      exact ⟨nofun,List.forall_mem_append.mpr ⟨hexact.inTime,List.forall_mem_singleton.mpr hbefore⟩⟩
  | @hedge now since hphase hnow hfirst =>
    constructor
    · intro ht
      rcases Nat.eq_zero_or_pos cfg.hedge.hedgeMax with hnone | hsome
      · exact .inl hnone
      · exact .inr (ht.inTime (.copy now) (List.mem_append_right _ (List.mem_replicate.mpr ⟨hsome.ne',rfl⟩)))
    · intro hbefore
      refine ⟨nofun,List.forall_mem_append.mpr ⟨hexact.inTime,fun a ha => ?_⟩⟩
      obtain ⟨hsome,rfl⟩ := List.mem_replicate.mp ha
      exact hbefore.resolve_left hsome
  | @expire now since hedged hphase hnow =>
    rw [hphase] at hcounted
    have hsent := hcounted.1
    have hafter : After cfg False { s with now := now } (respond { s with now := now }) := .respond
    exact iff_of_true (exact_after (u := { s with now := now }) (hsent.of_log_eq rfl) hexact.inTime hafter) trivial
  | @answer now since hedged result draw t hphase hnow hafter =>
    rw [hphase] at hcounted
    have hsent := hcounted.1
    exact iff_of_true (exact_after (u := { s with now := now, doneTries := s.doneTries + 1 })
      (hsent.of_log_eq rfl) hexact.inTime hafter) trivial
  | @buffered now body draw t hphase hnow hafter =>
    rw [hphase] at hcounted
    have hsent := hcounted.1
    exact iff_of_true (exact_after (u := { s with now := now }) (hsent.of_log_eq rfl) hexact.inTime hafter) trivial

/-- The log only grows, and not after the end. -/
def Grows (s t : LoopState ε) : Prop := s = t ∨ s.phase ≠ .returned ∧ s.log ⊆ t.log

instance : Std.Refl (Grows (ε := ε)) := ⟨fun _ => .inl rfl⟩

instance : IsTrans (LoopState ε) Grows := ⟨fun _ _ _ hst htu => by
  rcases hst with rfl | ⟨hrunning,hst⟩
  · exact htu
  · rcases htu with rfl | ⟨-,htu⟩
    · exact .inr ⟨hrunning,hst⟩
    · exact .inr ⟨hrunning,List.Subset.trans hst htu⟩⟩

theorem After.log_subset {may : Prop} (h : After cfg may u t) : u.log ⊆ t.log := by
  cases h with
  | respond => exact List.subset_append_left _ _
  | retry hmay hwake hbound => exact List.subset_append_left _ _
  | buffer hmay body => exact List.Subset.refl _

theorem grows_step {e : LoopEvent ε} (h : s.step cfg e = some t) : Grows s t := by
  refine .inr ?_
  cases move_of_step h with
  | reject hphase hnow hrejects => exact ⟨by rw [hphase]; nofun,List.subset_append_left _ _⟩
  | send hphase hnow hrejects => exact ⟨by rw [hphase]; nofun,List.subset_append_left _ _⟩
  | hedge hphase hnow hfirst => exact ⟨by rw [hphase]; nofun,List.subset_append_left _ _⟩
  | expire hphase hnow => exact ⟨by rw [hphase]; nofun,List.subset_append_left _ _⟩
  | answer hphase hnow hafter => exact ⟨by rw [hphase]; nofun,hafter.log_subset⟩
  | buffered hphase hnow hafter => exact ⟨by rw [hphase]; nofun,hafter.log_subset⟩

theorem Grows.exact (h : Grows s t) (ht : t.Exact cfg) : s.Exact cfg := by
  rcases h with rfl | ⟨hrunning,hlog⟩
  · exact ht
  · exact ⟨fun hover => absurd hover hrunning,fun a ha => ht.inTime a (hlog ha)⟩

theorem consistent_start : (start cfg : LoopState ε).Consistent cfg where
  counted := ⟨rfl,rfl,.inl rfl,fun _ => rfl⟩
  started_le := le_rfl
  copies_le := Nat.zero_le _
  wake_le _ _ _ h := absurd h List.not_mem_nil
  running _ _ h := absurd h List.not_mem_nil
  final_last _ h := absurd h List.not_mem_nil

theorem exact_start : (start cfg : LoopState ε).Exact cfg := ⟨nofun,fun _ h => absurd h List.not_mem_nil⟩

end LoopState

open LoopState

/-- Every run keeps the bounds; its reservations are all used and all that it sends is in time just when its
breaker rejects no retry that was reserved and nothing is sent after the deadline. -/
theorem attempts_accounted_iff {ε : Type} {cfg : LoopSetup} {events : List (LoopEvent ε)} {s : LoopState ε}
    (hr : (attemptLoop ε cfg).run events = some s) :
    s.Bounded cfg ∧ (s.Exact cfg ↔ (attemptLoop ε cfg).Along (Timely cfg) events) := by
  have hconsistent : ∀ {pre : List (LoopEvent ε)} {r : LoopState ε}, (attemptLoop ε cfg).run pre = some r → r.Consistent cfg := fun h =>
    System.run_inv (Consistent cfg) consistent_start (fun _ _ _ hs h => consistent_step hs h) h
  refine ⟨(hconsistent hr).bounded,?_⟩
  rw [← System.forall_prefix_iff_along (fun s => s.Consistent cfg ∧ s.Exact cfg) ⟨consistent_start,exact_start⟩
    (fun s e t hs h => (and_iff_right (consistent_step hs.1 h)).trans (exact_step_iff hs.1 hs.2 h)) hr]
  constructor
  · rintro hexact pre post r rfl hpre
    have hgrows : Grows r s := System.extension_related Grows (fun _ _ _ h => grows_step h) hpre hr
    exact ⟨hconsistent hpre,hgrows.exact hexact⟩
  · intro hall
    exact (hall events [] s (List.append_nil events).symm hr).2

/-- One retry of a 503, and a deadline of the client. -/
def oneRetry (grpcDeadline : ℕ) : LoopSetup where
  rp := ⟨1,[503],true,100,1024,some 1000,0⟩
  hedge := ⟨0,1⟩
  hedgeEligible := false
  replayable := true
  wantsUpgrade := false
  breaker := some ⟨5,fun _ _ => false,10,1000,1⟩
  grpcDeadline := some grpcDeadline
  started := 0

/-- The upstream answers 503 at 10, and the retry is to begin at 30. -/
def refusedOnce : List (LoopEvent UpstreamBodyError) :=
  [.enter 0 Breaker.new 0,.answer 10 (.ok (503,.done)) ⟨20,10,[(0,false)]⟩]

theorem attempts_accounted_retry : ∃ s, (attemptLoop UpstreamBodyError (oneRetry 500)).run
      (refusedOnce ++ [.enter 30 Breaker.new 30,.answer 40 (.ok (200,.done)) ⟨0,40,[]⟩]) = some s ∧
    s.log = [.send 0,.reserve 10,.sleep 10 30,.send 30,.respond 40] ∧ s.Exact (oneRetry 500) := by
  refine ⟨_,rfl,rfl,?_⟩
  refine (@attempts_accounted_iff UpstreamBodyError (oneRetry 500)
    (refusedOnce ++ [.enter 30 Breaker.new 30,.answer 40 (.ok (200,.done)) ⟨0,40,[]⟩]) _ rfl).2.mpr (System.along_of_alongFrom ?_)
  have hbefore : ∀ now ≤ 500, BeforeDeadline (oneRetry 500) now := fun now hnow deadline hd => (Option.some.inj hd) ▸ hnow
  exact ⟨hbefore 0 (by decide),trivial,hbefore 30 (by decide),trivial,trivial⟩

/-- The breaker rejects the retry that was reserved; and a retry is sent after the deadline. -/
theorem retry_reserved_or_late : ∃ s t,
    (attemptLoop UpstreamBodyError (oneRetry 500)).run (refusedOnce ++ [.enter 30 ⟨.openUntil 1000,[]⟩ 30]) = some s ∧
    (attemptLoop UpstreamBodyError (oneRetry 25)).run (refusedOnce ++ [.enter 30 Breaker.new 30]) = some t ∧
    s.log = [.send 0,.reserve 10,.sleep 10 30,.reject 30] ∧ t.log = [.send 0,.reserve 10,.sleep 10 30,.send 30] ∧
    ¬ s.Exact (oneRetry 500) ∧ ¬ t.Exact (oneRetry 25) := by
  refine ⟨_,_,rfl,rfl,rfl,rfl,?_,?_⟩
  · intro hexact
    exact absurd (hexact.used rfl) (by decide)
  · intro hexact
    exact absurd (hexact.inTime (.send 30) (by decide) 25 rfl) (by decide)

end Dwara.Dataplane.AttemptAccounting
