import Dwara.Lib.RollingWindow
import Dwara.Lib.Machine
import Mathlib.Algebra.Group.Nat.Defs

/-! The passive health tracker of one endpoint. -/

namespace Dwara.Resilience.Health
open Dwara.Lib

/-- Resolved and validated parameters. `failureRatio failures volume` is the outcome
of the floating-point test `failures >= failure_ratio * volume`. -/
structure HealthParams where
  windowMs : ℕ
  consecutiveFailures : ℕ
  failureRatio : ℕ → ℕ → Bool
  failureMinVolume : ℕ
  ejectMs : ℕ
  halfOpenProbes : ℕ
  probes_pos : 1 ≤ halfOpenProbes

inductive Status where
  | healthy
  | ejected
  | halfOpen
  deriving DecidableEq, Repr

structure EndpointHealth where
  status : Status
  ejectedUntilMs : ℕ
  probesRemaining : ℕ
  consecutiveFailures : ℕ
  events : List (ℕ × Bool)
  ejections : ℕ
  recoveredAtMs : ℕ
  deriving DecidableEq, Repr

namespace EndpointHealth

/-- Fresh tracker: healthy, empty window. -/
def new : EndpointHealth := ⟨.healthy,0,0,0,[],0,0⟩

/-- An expired ejection becomes half-open with a full budget of probes. -/
def arm (h : EndpointHealth) (params : HealthParams) : EndpointHealth :=
  { h with status := .halfOpen, probesRemaining := params.halfOpenProbes }

/-- Whether a pick may consider the endpoint; spends no probe. -/
def isCandidate (h : EndpointHealth) (params : HealthParams) (now : ℕ) : EndpointHealth × Bool :=
  match h.status with
  | .healthy => (h,true)
  | .ejected => if now < h.ejectedUntilMs then (h,false) else (h.arm params,true)
  | .halfOpen => (h,0 < h.probesRemaining)

/-- Spend one probe slot for a pick that selected the endpoint. -/
def consumeProbe (h : EndpointHealth) : EndpointHealth := { h with probesRemaining := h.probesRemaining - 1 }

def shouldEjectLocked (h : EndpointHealth) (params : HealthParams) : Bool :=
  if params.consecutiveFailures ≤ h.consecutiveFailures then
    true
  else if h.events.length < params.failureMinVolume then
    false
  else
    params.failureRatio (h.events.countP (·.2)) h.events.length

def ejectLocked (h : EndpointHealth) (params : HealthParams) (now : ℕ) : EndpointHealth where
  status := .ejected
  -- the sum of two 64-bit millisecond counts wraps
  ejectedUntilMs := (now + params.ejectMs) % 2 ^ 64
  probesRemaining := h.probesRemaining
  consecutiveFailures := 0
  events := []
  ejections := h.ejections + 1
  recoveredAtMs := h.recoveredAtMs

def recoverLocked (h : EndpointHealth) (systemNow : ℕ) : EndpointHealth where
  status := .healthy
  ejectedUntilMs := h.ejectedUntilMs
  probesRemaining := h.probesRemaining
  consecutiveFailures := 0
  events := []
  ejections := h.ejections
  recoveredAtMs := systemNow

/-- Streak update and status transitions, shared by passive and probe reports. -/
def applyObservation (h : EndpointHealth) (params : HealthParams) (now systemNow : ℕ) (isFailure : Bool) :
    EndpointHealth :=
  let h := { h with consecutiveFailures := if isFailure then h.consecutiveFailures + 1 else 0 }
  match h.status with
  | .halfOpen => if isFailure then h.ejectLocked params now else h.recoverLocked systemNow
  -- Failures of fail-open traffic leave the ejection standing.
  | .ejected => if isFailure then h else h.recoverLocked systemNow
  | .healthy => if isFailure && h.shouldEjectLocked params then h.ejectLocked params now else h

/-- Report one outcome of real traffic. -/
def report (h : EndpointHealth) (params : HealthParams) (now systemNow : ℕ) (isFailure : Bool) : EndpointHealth :=
  { h with events := RollingWindow.prune Prod.fst params.windowMs now (h.events ++ [(now,isFailure)]) }.applyObservation
    params now systemNow isFailure

/-- Report one synthetic probe; it never enters the window. -/
def reportProbe (h : EndpointHealth) (params : HealthParams) (now systemNow : ℕ) (isFailure : Bool) :
    EndpointHealth :=
  h.applyObservation params now systemNow isFailure

/-- The probe slots a half-open endpoint has left. -/
def slots (h : EndpointHealth) : Option ℕ := if h.status = .halfOpen then some h.probesRemaining else none

@[simp] theorem consumeProbe_status (h : EndpointHealth) : h.consumeProbe.status = h.status := rfl

theorem slots_consumeProbe (h : EndpointHealth) : h.consumeProbe.slots = h.slots.map (· - 1) := by
  unfold slots
  rw [consumeProbe_status]
  split <;> rfl

/-- No reported outcome leaves an endpoint half-open. -/
theorem slots_applyObservation (h : EndpointHealth) (params : HealthParams) (now systemNow : ℕ) (isFailure : Bool) :
    (h.applyObservation params now systemNow isFailure).slots = none := by
  rw [applyObservation]
  generalize (if isFailure then h.consecutiveFailures + 1 else 0) = streak
  cases hst : h.status with
  | healthy =>
    simp only
    split <;> simp [slots,ejectLocked]
  | ejected =>
    simp only
    split <;> simp [slots,recoverLocked]
  | halfOpen =>
    simp only
    split <;> simp [slots,ejectLocked,recoverLocked]

/-- A candidate that is half-open has a slot to spend. -/
theorem slots_pos_of_isCandidate {h : EndpointHealth} {params : HealthParams} {now n : ℕ}
    (hc : (h.isCandidate params now).2 = true) (hs : (h.isCandidate params now).1.slots = some n) : 1 ≤ n := by
  cases hst : h.status with
  | healthy => simp [isCandidate,slots,hst] at hs
  | ejected =>
    by_cases hearly : now < h.ejectedUntilMs
    · simp [isCandidate,hst,hearly] at hc
    · have hn : params.halfOpenProbes = n := by simpa [isCandidate,hst,hearly,arm,slots] using hs
      exact hn ▸ params.probes_pos
  | halfOpen =>
    have hn : h.probesRemaining = n := by simpa [isCandidate,hst,slots] using hs
    have hpos : 0 < h.probesRemaining := by simpa [isCandidate,hst] using hc
    omega

/-- Looking at a half-open endpoint changes nothing. -/
theorem isCandidate_of_slots {h : EndpointHealth} {n : ℕ} (hs : h.slots = some n) (params : HealthParams) (now : ℕ) :
    (h.isCandidate params now).1 = h := by
  have hst : h.status = .halfOpen := by
    by_contra hne
    simp [slots,hne] at hs
  simp [isCandidate,hst]

end EndpointHealth
/-! Runs of one endpoint's tracker: reports of requests and of active probes, picks, and the clock. -/

structure ActiveParams where
  failureThreshold : ℕ

/-- The parameters of probe reports: the active threshold, and no failure ratio. -/
def reportParams (active : ActiveParams) (passive : HealthParams) : HealthParams :=
  { passive with
    consecutiveFailures := max active.failureThreshold 1
    failureRatio := fun failures volume => volume ≤ failures
    failureMinVolume := 2 ^ 32 - 1 }

namespace EndpointHealth

def tryProbe (h : EndpointHealth) : EndpointHealth × Bool :=
  if h.probesRemaining = 0 then (h,false) else ({ h with probesRemaining := h.probesRemaining - 1 },true)

/-- A pick that asks for the endpoint and spends its probe slot at once. -/
def acquire (h : EndpointHealth) (params : HealthParams) (now : ℕ) : EndpointHealth × Bool :=
  match h.status with
  | .healthy => (h,true)
  | .ejected => if now < h.ejectedUntilMs then (h,false) else (h.arm params).tryProbe
  | .halfOpen => h.tryProbe

end EndpointHealth

/-- What happens to a tracker. A pick considers the endpoint and may select it, also when
every endpoint is ejected. -/
inductive HealthEvent where
  | request (params : HealthParams) (systemNow : ℕ) (isFailure : Bool)
  | probe (active : ActiveParams) (passive : HealthParams) (systemNow : ℕ) (isFailure : Bool)
  | pick (params : HealthParams) (selected : Bool)
  | acquire (params : HealthParams)
  | advance (ms : ℕ)

/-- The outcome an event reports, with the parameters it is judged by. -/
def HealthEvent.outcome : HealthEvent → Option (HealthParams × Bool)
  | .request params _ isFailure => some (params,isFailure)
  | .probe active passive _ isFailure => some (reportParams active passive,isFailure)
  | _ => none

/-- A tracker and the clock its reports and picks are taken at. -/
structure Watched where
  health : EndpointHealth
  now : ℕ
  deriving DecidableEq, Repr

def watch (w : Watched) : HealthEvent → Watched × Option Bool
  | .request params systemNow isFailure => ({ w with health := w.health.report params w.now systemNow isFailure },none)
  | .probe active passive systemNow isFailure =>
    ({ w with health := w.health.reportProbe (reportParams active passive) w.now systemNow isFailure },none)
  | .pick params selected =>
    let r := w.health.isCandidate params w.now
    ({ w with health := if selected then r.1.consumeProbe else r.1 },some r.2)
  | .acquire params =>
    let r := w.health.acquire params w.now
    ({ w with health := r.1 },some r.2)
  | .advance ms => ({ w with now := w.now + ms },none)

def watching : Machine Watched HealthEvent (Option Bool) := ⟨watch⟩

/-- A fresh tracker. -/
def watchFrom (now : ℕ) : Watched := ⟨.new,now⟩

abbrev HealthStep := Transition Watched HealthEvent (Option Bool)

def Ejects (t : HealthStep) : Prop := t.before.health.status ≠ .ejected ∧ t.after.health.status = .ejected

def Recovers (t : HealthStep) : Prop := t.before.health.status ≠ .healthy ∧ t.after.health.status = .healthy

instance (t : HealthStep) : Decidable (Ejects t) := inferInstanceAs (Decidable (_ ∧ _))
instance (t : HealthStep) : Decidable (Recovers t) := inferInstanceAs (Decidable (_ ∧ _))

/-- What a run says about its endpoint: the failures reported since the last success, recovery
or ejection, the threshold the last failure was judged by, the outcomes of requests since the
last ejection or recovery, and when the last ejection expires. -/
structure HealthHistory where
  trailing : ℕ
  threshold : ℕ
  requests : List (ℕ × Bool)
  expiry : ℕ

def HealthHistory.next (past : HealthHistory) (t : HealthStep) : HealthHistory where
  trailing :=
    if Ejects t ∨ Recovers t then 0
    else
      match t.input.outcome with
      | some (_,isFailure) => if isFailure then past.trailing + 1 else 0
      | none => past.trailing
  threshold :=
    match t.input.outcome with
    | some (params,true) => params.consecutiveFailures
    | _ => past.threshold
  requests :=
    if Ejects t ∨ Recovers t then []
    else
      match t.input with
      | .request _ _ isFailure => past.requests ++ [(t.before.now,isFailure)]
      | _ => past.requests
  expiry :=
    match t.input.outcome with
    | some (params,_) => if Ejects t then t.before.now + params.ejectMs else past.expiry
    | none => past.expiry

/-- The history of a run. -/
def healthHistory (w : Watched) (events : List HealthEvent) : HealthHistory :=
  (watching.trace w events).foldl HealthHistory.next ⟨0,0,[],0⟩

/-- What ties a tracker to its history. -/
structure Chronicled (h : EndpointHealth) (past : HealthHistory) : Prop where
  streak : h.status = .healthy → h.consecutiveFailures = past.trailing
  below : h.status = .healthy → past.trailing = 0 ∨ past.trailing < past.threshold
  window : h.events <:+ past.requests
  expiry : h.status = .ejected → h.ejectedUntilMs = past.expiry % 2 ^ 64

/-- All an observation can do: count towards the streak, eject, recover, or end the streak. -/
theorem applyObservation_cases (h : EndpointHealth) (params : HealthParams) (now systemNow : ℕ) (isFailure : Bool) :
    (isFailure = true ∧ h.status = .healthy ∧ h.consecutiveFailures + 1 < params.consecutiveFailures ∧
        h.applyObservation params now systemNow isFailure = { h with consecutiveFailures := h.consecutiveFailures + 1 }) ∨
      (isFailure = true ∧ h.status = .ejected ∧
        h.applyObservation params now systemNow isFailure = { h with consecutiveFailures := h.consecutiveFailures + 1 }) ∨
      (isFailure = true ∧ h.status ≠ .ejected ∧
        h.applyObservation params now systemNow isFailure =
          { h with consecutiveFailures := h.consecutiveFailures + 1 }.ejectLocked params now) ∨
      (isFailure = false ∧ h.status ≠ .healthy ∧
        h.applyObservation params now systemNow isFailure = { h with consecutiveFailures := 0 }.recoverLocked systemNow) ∨
      (isFailure = false ∧ h.status = .healthy ∧
        h.applyObservation params now systemNow isFailure = { h with consecutiveFailures := 0 }) := by
  rw [EndpointHealth.applyObservation]
  cases isFailure with
  | false =>
    cases hstatus : h.status with
    | healthy => simp
    | ejected => simp
    | halfOpen => simp
  | true =>
    cases hstatus : h.status with
    | healthy =>
      cases heject : EndpointHealth.shouldEjectLocked { h with consecutiveFailures := h.consecutiveFailures + 1 } params with
      | false =>
        have hbelow : h.consecutiveFailures + 1 < params.consecutiveFailures := by
          rw [EndpointHealth.shouldEjectLocked] at heject
          by_contra hreached
          rw [if_pos (Nat.le_of_not_lt hreached)] at heject
          cases heject
        rw [hstatus] at heject
        exact .inl ⟨rfl,rfl,hbelow,by simp [heject]⟩
      | true =>
        rw [hstatus] at heject
        exact .inr (.inr (.inl ⟨rfl,by decide,by simp [heject]⟩))
    | ejected => simp
    | halfOpen => simp

/-- Nothing is reported: at most an expired ejection is armed and probe slots are spent. -/
structure Idle (h h' : EndpointHealth) : Prop where
  events : h'.events = h.events
  streak : h'.consecutiveFailures = h.consecutiveFailures
  expiry : h'.ejectedUntilMs = h.ejectedUntilMs
  status : h'.status = h.status ∨ h'.status = .halfOpen

section Steps
variable {h : EndpointHealth} {past : HealthHistory} {t : HealthStep}

/-- The history after a reported outcome that neither ejects nor recovers. -/
theorem HealthHistory.next_observed {params : HealthParams} {isFailure : Bool} (houtcome : t.input.outcome = some (params,isFailure))
    (hkeeps : ¬ (Ejects t ∨ Recovers t)) :
    (past.next t).trailing = (if isFailure then past.trailing + 1 else 0) ∧
      (past.next t).threshold = (if isFailure then params.consecutiveFailures else past.threshold) ∧
      (past.next t).expiry = past.expiry := by
  refine ⟨?_,?_,?_⟩
  · simp only [HealthHistory.next,if_neg hkeeps,houtcome]
  · cases isFailure <;> simp [HealthHistory.next,houtcome]
  · simp only [HealthHistory.next,houtcome,if_neg fun heject => hkeeps (.inl heject)]

/-- An outcome that leaves a healthy endpoint healthy neither ejects nor recovers it. -/
theorem keeps_of_healthy (hstatus : t.before.health.status = .healthy) (hafter : t.after.health.status = .healthy) :
    ¬ (Ejects t ∨ Recovers t) := by
  rintro (⟨-,heject⟩ | ⟨hsick,-⟩)
  · rw [hafter] at heject
    cases heject
  · exact hsick hstatus

section Observed
variable {params : HealthParams} {systemNow : ℕ} {events : List (ℕ × Bool)}

/-- A failure below the threshold. -/
theorem Chronicled.counted (hc : Chronicled t.before.health past) (houtcome : t.input.outcome = some (params,true))
    (hwindow : ¬ (Ejects t ∨ Recovers t) → events <:+ (past.next t).requests) (hstatus : t.before.health.status = .healthy)
    (hbelow : t.before.health.consecutiveFailures + 1 < params.consecutiveFailures)
    (hafter : t.after.health =
      { t.before.health with events := events, consecutiveFailures := t.before.health.consecutiveFailures + 1 }) :
    Chronicled t.after.health (past.next t) := by
  have hkeeps := keeps_of_healthy hstatus (by rw [hafter]; exact hstatus)
  obtain ⟨htrailing,hthreshold,-⟩ := past.next_observed houtcome hkeeps
  have hstreak := hc.streak hstatus
  rw [hafter]
  refine ⟨fun _ => ?_,fun _ => .inr ?_,hwindow hkeeps,fun heject => ?_⟩
  · rw [htrailing,← hstreak]
    rfl
  · rw [htrailing,hthreshold,← hstreak]
    exact hbelow
  · simp [hstatus] at heject

/-- A failure of fail-open traffic. -/
theorem Chronicled.failedOpen (hc : Chronicled t.before.health past) (houtcome : t.input.outcome = some (params,true))
    (hwindow : ¬ (Ejects t ∨ Recovers t) → events <:+ (past.next t).requests) (hstatus : t.before.health.status = .ejected)
    (hafter : t.after.health =
      { t.before.health with events := events, consecutiveFailures := t.before.health.consecutiveFailures + 1 }) :
    Chronicled t.after.health (past.next t) := by
  have hkeeps : ¬ (Ejects t ∨ Recovers t) := by
    rintro (⟨hwell,-⟩ | ⟨-,hrecover⟩)
    · exact hwell hstatus
    · simp [hafter,hstatus] at hrecover
  obtain ⟨-,-,hexpiry⟩ := past.next_observed houtcome hkeeps
  rw [hafter]
  refine ⟨fun hwell => ?_,fun hwell => ?_,hwindow hkeeps,fun _ => ?_⟩
  · simp [hstatus] at hwell
  · simp [hstatus] at hwell
  · rw [hexpiry]
    exact hc.expiry hstatus

theorem chronicled_ejected {h : EndpointHealth} (houtcome : t.input.outcome = some (params,true))
    (hstatus : t.before.health.status ≠ .ejected) (hafter : t.after.health = h.ejectLocked params t.before.now) :
    Chronicled t.after.health (past.next t) := by
  have heject : Ejects t := ⟨hstatus,by rw [hafter]; rfl⟩
  have hexpiry : (past.next t).expiry = t.before.now + params.ejectMs := by
    simp only [HealthHistory.next,houtcome,if_pos heject]
  rw [hafter]
  refine ⟨nofun,nofun,List.nil_suffix,fun _ => ?_⟩
  rw [hexpiry]
  rfl

theorem chronicled_recovered {h : EndpointHealth} (hstatus : t.before.health.status ≠ .healthy)
    (hafter : t.after.health = h.recoverLocked systemNow) : Chronicled t.after.health (past.next t) := by
  have hrecover : Recovers t := ⟨hstatus,by rw [hafter]; rfl⟩
  have hcleared : (past.next t).trailing = 0 := if_pos (.inr hrecover)
  rw [hafter]
  exact ⟨fun _ => hcleared.symm,fun _ => .inl hcleared,List.nil_suffix,nofun⟩

/-- A success that ends the streak. -/
theorem chronicled_ended (houtcome : t.input.outcome = some (params,false))
    (hwindow : ¬ (Ejects t ∨ Recovers t) → events <:+ (past.next t).requests) (hstatus : t.before.health.status = .healthy)
    (hafter : t.after.health = { t.before.health with events := events, consecutiveFailures := 0 }) :
    Chronicled t.after.health (past.next t) := by
  have hkeeps := keeps_of_healthy hstatus (by rw [hafter]; exact hstatus)
  obtain ⟨htrailing,-,-⟩ := past.next_observed houtcome hkeeps
  rw [hafter]
  refine ⟨fun _ => htrailing.symm,fun _ => .inl htrailing,hwindow hkeeps,fun heject => ?_⟩
  simp [hstatus] at heject

/-- A reported outcome keeps a tracker tied to its history. -/
theorem Chronicled.observe (hc : Chronicled t.before.health past) {isFailure : Bool} {requests : List (ℕ × Bool)}
    (houtcome : t.input.outcome = some (params,isFailure)) (hsuffix : events <:+ requests)
    (hafter : t.after.health = { t.before.health with events := events }.applyObservation params t.before.now systemNow isFailure)
    (hrequests : (past.next t).requests = if Ejects t ∨ Recovers t then [] else requests) :
    Chronicled t.after.health (past.next t) := by
  have hwindow : ¬ (Ejects t ∨ Recovers t) → events <:+ (past.next t).requests := by
    intro hclear
    rwa [hrequests,if_neg hclear]
  rcases applyObservation_cases { t.before.health with events := events } params t.before.now systemNow isFailure with
    ⟨rfl,hstatus,hbelow,hobs⟩ | ⟨rfl,hstatus,hobs⟩ | ⟨rfl,hstatus,hobs⟩ | ⟨rfl,hstatus,hobs⟩ | ⟨rfl,hstatus,hobs⟩
  · exact hc.counted houtcome hwindow hstatus hbelow (hafter.trans hobs)
  · exact hc.failedOpen houtcome hwindow hstatus (hafter.trans hobs)
  · exact chronicled_ejected houtcome hstatus (hafter.trans hobs)
  · exact chronicled_recovered hstatus (hafter.trans hobs)
  · exact chronicled_ended houtcome hwindow hstatus (hafter.trans hobs)

end Observed

theorem Idle.keeps (hidle : Idle t.before.health t.after.health) : ¬ (Ejects t ∨ Recovers t) := by
  rintro (⟨hwell,heject⟩ | ⟨hsick,hrecover⟩)
  · rcases hidle.status with hsame | harmed
    · exact hwell (hsame ▸ heject)
    · rw [harmed] at heject
      cases heject
  · rcases hidle.status with hsame | harmed
    · exact hsick (hsame ▸ hrecover)
    · rw [harmed] at hrecover
      cases hrecover

/-- An event that reports nothing keeps a tracker tied to its history. -/
theorem Chronicled.unreported (hc : Chronicled t.before.health past) (houtcome : t.input.outcome = none)
    (hrequests : (past.next t).requests = if Ejects t ∨ Recovers t then [] else past.requests)
    (hidle : Idle t.before.health t.after.health) : Chronicled t.after.health (past.next t) := by
  have hkeeps := hidle.keeps
  obtain ⟨hevents,hstreak,huntil,hstatus⟩ := hidle
  have hbefore : ∀ status ≠ Status.halfOpen, t.after.health.status = status → t.before.health.status = status := by
    intro status hne hafter
    rcases hstatus with hsame | harmed
    · rw [← hsame,hafter]
    · exact absurd (hafter.symm.trans harmed) hne
  have htrailing : (past.next t).trailing = past.trailing := by simp only [HealthHistory.next,if_neg hkeeps,houtcome]
  have hthreshold : (past.next t).threshold = past.threshold := by simp only [HealthHistory.next,houtcome]
  have hexpiry : (past.next t).expiry = past.expiry := by simp only [HealthHistory.next,houtcome]
  constructor
  · intro hwell
    rw [hstreak,htrailing]
    exact hc.streak (hbefore .healthy nofun hwell)
  · intro hwell
    rw [htrailing,hthreshold]
    exact hc.below (hbefore .healthy nofun hwell)
  · rw [hevents,hrequests,if_neg hkeeps]
    exact hc.window
  · intro heject
    rw [huntil,hexpiry]
    exact hc.expiry (hbefore .ejected nofun heject)

theorem idle_isCandidate (h : EndpointHealth) (params : HealthParams) (now : ℕ) : Idle h (h.isCandidate params now).1 := by
  rw [EndpointHealth.isCandidate]
  split
  · exact ⟨rfl,rfl,rfl,.inl rfl⟩
  · split
    · exact ⟨rfl,rfl,rfl,.inl rfl⟩
    · exact ⟨rfl,rfl,rfl,.inr rfl⟩
  · exact ⟨rfl,rfl,rfl,.inl rfl⟩

theorem Idle.consumeProbe {h h' : EndpointHealth} (hidle : Idle h h') : Idle h h'.consumeProbe :=
  ⟨hidle.events,hidle.streak,hidle.expiry,hidle.status⟩

theorem Idle.tryProbe {h h' : EndpointHealth} (hidle : Idle h h') : Idle h h'.tryProbe.1 := by
  rw [EndpointHealth.tryProbe]
  split
  · exact hidle
  · exact ⟨hidle.events,hidle.streak,hidle.expiry,hidle.status⟩

theorem idle_acquire (h : EndpointHealth) (params : HealthParams) (now : ℕ) : Idle h (h.acquire params now).1 := by
  have hsame : Idle h h := ⟨rfl,rfl,rfl,.inl rfl⟩
  have harmed : Idle h (h.arm params) := ⟨rfl,rfl,rfl,.inr rfl⟩
  rw [EndpointHealth.acquire]
  split
  · exact hsame
  · split
    · exact hsame
    · exact harmed.tryProbe
  · exact hsame.tryProbe

/-- One step of a run keeps the tracker tied to its history. -/
theorem chronicled_step {w : Watched} (hc : Chronicled w.health past) (e : HealthEvent) :
    Chronicled (watching.next w e).health (past.next (watching.fire w e)) := by
  cases e with
  | request params systemNow isFailure =>
    have hsuffix : RollingWindow.prune Prod.fst params.windowMs w.now (w.health.events ++ [(w.now,isFailure)]) <:+
        past.requests ++ [(w.now,isFailure)] :=
      (RollingWindow.prune_suffix _ _).trans (List.suffix_append_self_iff.mpr hc.window)
    exact Chronicled.observe (t := watching.fire w (.request params systemNow isFailure)) hc rfl hsuffix rfl rfl
  | probe active passive systemNow isFailure =>
    exact Chronicled.observe (t := watching.fire w (.probe active passive systemNow isFailure)) hc rfl hc.window rfl rfl
  | pick params selected =>
    have hidle := idle_isCandidate w.health params w.now
    refine Chronicled.unreported (t := watching.fire w (.pick params selected)) hc rfl rfl ?_
    cases selected with
    | false => exact hidle
    | true => exact hidle.consumeProbe
  | acquire params =>
    exact Chronicled.unreported (t := watching.fire w (.acquire params)) hc rfl rfl (idle_acquire w.health params w.now)
  | advance ms => exact Chronicled.unreported (t := watching.fire w (.advance ms)) hc rfl rfl ⟨rfl,rfl,rfl,.inl rfl⟩

/-- Every ejection and every recovery clears the streak and the window. -/
theorem cleared_step (w : Watched) (e : HealthEvent) (hclear : Ejects (watching.fire w e) ∨ Recovers (watching.fire w e)) :
    (watching.next w e).health.events = [] ∧ (watching.next w e).health.consecutiveFailures = 0 := by
  have hreport : ∀ (h : EndpointHealth) (params : HealthParams) (systemNow : ℕ) (isFailure : Bool),
      (h.status ≠ .ejected ∧ (h.applyObservation params w.now systemNow isFailure).status = .ejected ∨
          h.status ≠ .healthy ∧ (h.applyObservation params w.now systemNow isFailure).status = .healthy) →
        (h.applyObservation params w.now systemNow isFailure).events = [] ∧
          (h.applyObservation params w.now systemNow isFailure).consecutiveFailures = 0 := by
    intro h params systemNow isFailure hmoves
    rcases applyObservation_cases h params w.now systemNow isFailure with
      ⟨-,hstatus,-,hobs⟩ | ⟨-,hstatus,hobs⟩ | ⟨-,-,hobs⟩ | ⟨-,-,hobs⟩ | ⟨-,hstatus,hobs⟩
    · simp [hobs,hstatus] at hmoves
    · simp [hobs,hstatus] at hmoves
    · rw [hobs]
      exact ⟨rfl,rfl⟩
    · rw [hobs]
      exact ⟨rfl,rfl⟩
    · simp [hobs,hstatus] at hmoves
  cases e with
  | request params systemNow isFailure => exact hreport _ _ _ _ hclear
  | probe active passive systemNow isFailure => exact hreport _ _ _ _ hclear
  | pick params selected =>
    have hidle := idle_isCandidate w.health params w.now
    refine absurd hclear (Idle.keeps (t := watching.fire w (.pick params selected)) ?_)
    cases selected with
    | false => exact hidle
    | true => exact hidle.consumeProbe
  | acquire params =>
    exact absurd hclear (Idle.keeps (t := watching.fire w (.acquire params)) (idle_acquire w.health params w.now))
  | advance ms => exact absurd hclear (Idle.keeps (t := watching.fire w (.advance ms)) ⟨rfl,rfl,rfl,.inl rfl⟩)

end Steps

section Runs
variable {w : Watched} {events : List HealthEvent}

theorem healthHistory_concat (w : Watched) (events : List HealthEvent) (e : HealthEvent) :
    healthHistory w (events ++ [e]) = (healthHistory w events).next (watching.fire (watching.run w events) e) := by
  simp [healthHistory,Machine.trace_append]

theorem chronicled_run (now : ℕ) (events : List HealthEvent) :
    Chronicled (watching.run (watchFrom now) events).health (healthHistory (watchFrom now) events) := by
  induction events using List.reverseRecOn with
  | nil => exact ⟨fun _ => rfl,fun _ => .inl rfl,List.suffix_refl [],nofun⟩
  | append_singleton events e ih =>
    rw [Machine.run_append,healthHistory_concat]
    exact chronicled_step ih e

/-- No failure is judged by a threshold above those the run comes with. -/
theorem threshold_le {bound : ℕ} (w : Watched) (hbound : ∀ e ∈ events, ∀ o ∈ e.outcome, o.1.consecutiveFailures ≤ bound) :
    (healthHistory w events).threshold ≤ bound := by
  induction events using List.reverseRecOn with
  | nil => exact Nat.zero_le bound
  | append_singleton events e ih =>
    rw [healthHistory_concat,HealthHistory.next]
    simp only [Machine.fire]
    split
    · rename_i params houtcome
      exact hbound e (by simp) _ houtcome
    · exact ih fun e' he' => hbound e' (by simp [he'])

/-- An ejected endpoint is not picked before its ejection expires. -/
theorem not_candidate {h : EndpointHealth} (hstatus : h.status = .ejected) {now : ℕ} (hearly : now < h.ejectedUntilMs)
    (params : HealthParams) : h.isCandidate params now = (h,false) ∧ h.acquire params now = (h,false) := by
  simp [EndpointHealth.isCandidate,EndpointHealth.acquire,hstatus,hearly]

/-- After any run a healthy endpoint's streak is the number of failures since its last success,
recovery or ejection, and none or fewer than the last one's threshold; ejections and recoveries
clear the window, which only holds requests' outcomes; and an ejected endpoint is no candidate
before its ejection expires. -/
theorem health_invariant (now : ℕ) (events : List HealthEvent) :
    ((watching.run (watchFrom now) events).health.status = .healthy →
        (watching.run (watchFrom now) events).health.consecutiveFailures = (healthHistory (watchFrom now) events).trailing ∧
          ((healthHistory (watchFrom now) events).trailing = 0 ∨
            (healthHistory (watchFrom now) events).trailing < (healthHistory (watchFrom now) events).threshold) ∧
          ∀ bound, 0 < bound → (∀ e ∈ events, ∀ o ∈ e.outcome, o.1.consecutiveFailures ≤ bound) →
            (watching.run (watchFrom now) events).health.consecutiveFailures < bound) ∧
      (∀ t ∈ watching.trace (watchFrom now) events, Ejects t ∨ Recovers t →
        t.after.health.events = [] ∧ t.after.health.consecutiveFailures = 0) ∧
      (watching.run (watchFrom now) events).health.events <:+ (healthHistory (watchFrom now) events).requests ∧
      ((watching.run (watchFrom now) events).health.status = .ejected → (healthHistory (watchFrom now) events).expiry < 2 ^ 64 →
        ∀ later < (healthHistory (watchFrom now) events).expiry, ∀ params,
          ((watching.run (watchFrom now) events).health.isCandidate params later).2 = false ∧
            ((watching.run (watchFrom now) events).health.acquire params later).2 = false) := by
  have hc := chronicled_run now events
  refine ⟨fun hwell => ⟨hc.streak hwell,hc.below hwell,fun bound hpos hbound => ?_⟩,?_,hc.window,?_⟩
  · have hle := threshold_le (watchFrom now) hbound
    rw [hc.streak hwell]
    rcases hc.below hwell with hzero | hbelow
    · rwa [hzero]
    · omega
  · intro t ht hclear
    obtain ⟨w,e,rfl⟩ := watching.fire_of_mem_trace ht
    exact cleared_step w e hclear
  · intro heject hfits later hearly params
    have huntil := hc.expiry heject
    rw [Nat.mod_eq_of_lt hfits] at huntil
    rw [← huntil] at hearly
    obtain ⟨hpick,hacquire⟩ := not_candidate heject hearly params
    exact ⟨congrArg Prod.snd hpick,congrArg Prod.snd hacquire⟩

/-- Passive checks that eject after three failures, next to active ones that eject after five. -/
def passiveThree : HealthParams := ⟨60000,3,fun failures volume => volume ≤ 2 * failures,20,30000,1,Nat.one_pos⟩

/-- Four failed probes leave the endpoint healthy, past the passive threshold. -/
theorem streak_past_passive_threshold :
    (watching.run (watchFrom 0) (List.replicate 4 (.probe ⟨5⟩ passiveThree 0 true))).health.status = .healthy ∧
      (watching.run (watchFrom 0) (List.replicate 4 (.probe ⟨5⟩ passiveThree 0 true))).health.consecutiveFailures = 4 ∧
      ¬ (watching.run (watchFrom 0) (List.replicate 4 (.probe ⟨5⟩ passiveThree 0 true))).health.consecutiveFailures <
        passiveThree.consecutiveFailures := by
  decide

end Runs

end Dwara.Resilience.Health
