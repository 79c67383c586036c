import Dwara.Lib.Machine
import Dwara.Lib.RollingWindow
import Mathlib.Data.List.Induction
import Mathlib.Tactic.Ring

/-! The rolling-window retry budget of one upstream. -/

namespace Dwara.Resilience.RetryBudget
open Dwara.Lib

/-- The standard window (milliseconds). -/
def retryBudgetWindowMs : ℕ := 10000

/-- When it happened, and whether it is a retry. -/
abbrev Event := ℕ × Bool

def requests (events : List Event) : ℕ := events.countP (fun e => !e.2)
def retries (events : List Event) : ℕ := events.countP (·.2)

def pruneLocked (windowMs : ℕ) (events : List Event) (now : ℕ) : List Event :=
  RollingWindow.prune Prod.fst windowMs now events

/-- Record one proxied request. -/
def recordRequest (windowMs : ℕ) (events : List Event) (now : ℕ) : List Event :=
  pruneLocked windowMs events now ++ [(now,false)]

/-- Charge a retry before it runs, if the share of retries allows it. -/
def tryReserveRetry (windowMs percent : ℕ) (events : List Event) (now : ℕ) : List Event × Bool :=
  let events := pruneLocked windowMs events now
  let requests := events.countP (fun e => !e.2)
  let retries := events.length - requests
  if (retries + 1) * 100 ≤ percent * requests then
    (events ++ [(now,true)],true)
  else
    (events,false)

inductive Call where
  | recordRequest (now : ℕ)
  | tryReserveRetry (now : ℕ)
  deriving DecidableEq, Repr

def Call.now : Call → ℕ
  | .recordRequest now => now
  | .tryReserveRetry now => now

/-- One budget under a fixed percentage. -/
def machine (windowMs percent : ℕ) : Machine (List Event) Call (Option Bool) where
  step events call :=
    match call with
    | .recordRequest now => (recordRequest windowMs events now,none)
    | .tryReserveRetry now =>
      ((tryReserveRetry windowMs percent events now).1,some (tryReserveRetry windowMs percent events now).2)

/-- The calls come in the order of a clock that never goes back. -/
def Clocked (calls : List Call) : Prop := calls.Pairwise (fun a b => a.now ≤ b.now)

/-- The documented bound: retries are at most `percent` per hundred requests. -/
def InBudget (percent : ℕ) (events : List Event) : Prop := retries events * 100 ≤ percent * requests events

instance (percent : ℕ) (events : List Event) : Decidable (InBudget percent events) :=
  inferInstanceAs (Decidable (_ ≤ _))

/-- `now` is an instant of the run at which the calls of `before` have been made
and those of `after` have not. -/
def Instant (before after : List Call) (now : ℕ) : Prop :=
  (∀ c ∈ before, c.now ≤ now) ∧ ∀ c ∈ after, now ≤ c.now

/-- At every instant of the run the events in the window are within the budget. -/
def KeepsBudget (windowMs percent : ℕ) (calls : List Call) : Prop :=
  ∀ before after now, calls = before ++ after → Instant before after now →
    InBudget percent (pruneLocked windowMs ((machine windowMs percent).run [] before) now)

/-- What a further retry could still be charged, in hundredths. -/
def unspent (percent : ℕ) (events : List Event) : ℕ := percent * requests events - retries events * 100

/-- Moving the window on to `now` leaves no retry inside, or the requests that
leave are paid for by the retries that leave and the unspent share. -/
def Covered (windowMs percent : ℕ) (events : List Event) (now : ℕ) : Prop :=
  retries (pruneLocked windowMs events now) = 0 ∨
    percent * requests (RollingWindow.leaving Prod.fst windowMs now events) ≤
      retries (RollingWindow.leaving Prod.fst windowMs now events) * 100 + unspent percent events

/-- Every move of the window during the run is covered. -/
def MovesCovered (windowMs percent : ℕ) (calls : List Call) : Prop :=
  ∀ before after now, calls = before ++ after → Instant before after now →
    Covered windowMs percent ((machine windowMs percent).run [] before) now

@[simp] theorem requests_append (xs ys : List Event) : requests (xs ++ ys) = requests xs + requests ys :=
  List.countP_append
@[simp] theorem retries_append (xs ys : List Event) : retries (xs ++ ys) = retries xs + retries ys :=
  List.countP_append
@[simp] theorem requests_request (now : ℕ) : requests [(now,false)] = 1 := rfl
@[simp] theorem requests_retry (now : ℕ) : requests [(now,true)] = 0 := rfl
@[simp] theorem retries_request (now : ℕ) : retries [(now,false)] = 0 := rfl
@[simp] theorem retries_retry (now : ℕ) : retries [(now,true)] = 1 := rfl

variable {windowMs percent : ℕ} {events : List Event}

theorem length_sub_requests (events : List Event) : events.length - requests events = retries events := by
  have h := List.length_eq_countP_add_countP (fun e : Event => !e.2) (l := events)
  simp only [Bool.not_eq_true',Bool.not_eq_false,Bool.decide_eq_true] at h
  rw [requests,retries,h,Nat.add_sub_cancel_left]

/-- What `tryReserveRetry` decides, in the terms of the documented bound. -/
theorem tryReserveRetry_eq (windowMs percent : ℕ) (events : List Event) (now : ℕ) :
    tryReserveRetry windowMs percent events now =
      if InBudget percent (pruneLocked windowMs events now ++ [(now,true)]) then
        (pruneLocked windowMs events now ++ [(now,true)],true)
      else
        (pruneLocked windowMs events now,false) := by
  have h := length_sub_requests (pruneLocked windowMs events now)
  simp only [requests] at h
  simp [tryReserveRetry,InBudget,h,requests]

theorem requests_leaving_add (windowMs : ℕ) (events : List Event) (now : ℕ) :
    requests (RollingWindow.leaving Prod.fst windowMs now events) + requests (pruneLocked windowMs events now) =
      requests events := by
  rw [← requests_append,pruneLocked,RollingWindow.leaving_append_prune]

theorem retries_leaving_add (windowMs : ℕ) (events : List Event) (now : ℕ) :
    retries (RollingWindow.leaving Prod.fst windowMs now events) + retries (pruneLocked windowMs events now) =
      retries events := by
  rw [← retries_append,pruneLocked,RollingWindow.leaving_append_prune]

/-- A window within budget stays so when it moves on exactly if the move is covered. -/
theorem inBudget_prune_iff (h : InBudget percent events) (now : ℕ) :
    InBudget percent (pruneLocked windowMs events now) ↔ Covered windowMs percent events now := by
  have hq := requests_leaving_add windowMs events now
  have hr := retries_leaving_add windowMs events now
  have hp : percent * requests events = percent * requests (RollingWindow.leaving Prod.fst windowMs now events) +
      percent * requests (pruneLocked windowMs events now) := by rw [← hq,Nat.mul_add]
  simp only [InBudget,Covered,unspent] at h ⊢
  rw [← hr,hp] at h ⊢
  constructor
  · intro hk
    right
    omega
  · rintro (hk | hk)
    · simp [hk]
    · omega

theorem recordRequest_inBudget {now : ℕ} (h : InBudget percent (pruneLocked windowMs events now)) :
    InBudget percent (recordRequest windowMs events now) := by
  simp only [InBudget,recordRequest,requests_append,retries_append,requests_request,retries_request] at h ⊢
  rw [Nat.mul_add]
  omega

theorem tryReserveRetry_inBudget {now : ℕ} (h : InBudget percent (pruneLocked windowMs events now)) :
    InBudget percent (tryReserveRetry windowMs percent events now).1 := by
  rw [tryReserveRetry_eq]
  split
  · assumption
  · exact h

theorem step_inBudget {c : Call} (h : InBudget percent (pruneLocked windowMs events c.now)) :
    InBudget percent ((machine windowMs percent).next events c) := by
  cases c with
  | recordRequest now => exact recordRequest_inBudget h
  | tryReserveRetry now => exact tryReserveRetry_inBudget h

private theorem instant_at_next {before after : List Call} {c : Call} (hc : Clocked (before ++ c :: after)) :
    Instant before (c :: after) c.now := by
  obtain ⟨-,hafter,hcross⟩ := List.pairwise_append.mp hc
  refine ⟨fun b hb => hcross b hb c List.mem_cons_self,fun a ha => ?_⟩
  rcases List.mem_cons.mp ha with rfl | ha
  · exact Nat.le_refl _
  · exact (List.pairwise_cons.mp hafter).1 a ha

/-- When the moves are covered, the queue is within budget after each call. -/
theorem run_inBudget {calls : List Call} (hc : Clocked calls) (hm : MovesCovered windowMs percent calls)
    (before after : List Call) (he : calls = before ++ after) :
    InBudget percent ((machine windowMs percent).run [] before) := by
  induction before using List.reverseRecOn generalizing after with
  | nil => exact Nat.zero_le _
  | append_singleton before c ih =>
    have he' : calls = before ++ c :: after := by simpa using he
    have hcov := hm before (c :: after) c.now he' (instant_at_next (he' ▸ hc))
    rw [Machine.run_append]
    exact step_inBudget ((inBudget_prune_iff (ih (c :: after) he') c.now).mpr hcov)

/-- What a step adds to the queue. -/
def recorded (t : Transition (List Event) Call (Option Bool)) : List Event :=
  match t.input,t.output with
  | .recordRequest now,_ => [(now,false)]
  | .tryReserveRetry now,some true => [(now,true)]
  | .tryReserveRetry _,_ => []

theorem next_eq_prune_append (events : List Event) (c : Call) :
    (machine windowMs percent).next events c =
      pruneLocked windowMs events c.now ++ recorded ((machine windowMs percent).fire events c) := by
  cases c with
  | recordRequest now => rfl
  | tryReserveRetry now =>
    simp only [Machine.next,Machine.fire,Machine.answer,machine,Call.now,recorded]
    rw [tryReserveRetry_eq]
    split <;> simp

/-- The whole history of a run, with nothing pruned. -/
def history (windowMs percent : ℕ) (calls : List Call) : List Event :=
  ((machine windowMs percent).trace [] calls).flatMap recorded

theorem history_concat (calls : List Call) (c : Call) :
    history windowMs percent (calls ++ [c]) = history windowMs percent calls ++
      recorded ((machine windowMs percent).fire ((machine windowMs percent).run [] calls) c) := by
  simp [history,Machine.trace_append]

theorem stamps_recorded_sublist (events : List Event) (c : Call) :
    ((recorded ((machine windowMs percent).fire events c)).map Prod.fst).Sublist [c.now] := by
  cases c with
  | recordRequest now => exact List.Sublist.refl _
  | tryReserveRetry now =>
    simp only [Machine.fire,Machine.answer,machine,recorded,Call.now]
    cases (tryReserveRetry windowMs percent events now).2 <;> simp

theorem stamps_history_sublist (calls : List Call) :
    ((history windowMs percent calls).map Prod.fst).Sublist (calls.map Call.now) := by
  induction calls using List.reverseRecOn with
  | nil => exact List.Sublist.refl _
  | append_singleton calls c ih =>
    rw [history_concat,List.map_append,List.map_append]
    exact ih.append (stamps_recorded_sublist _ c)

theorem history_ordered {calls : List Call} (hc : Clocked calls) :
    RollingWindow.Ordered Prod.fst (history windowMs percent calls) :=
  List.pairwise_map.mp ((List.pairwise_map.mpr hc).sublist (stamps_history_sublist calls))

/-- Pruning along the way loses nothing that is still inside the window. -/
theorem pruneLocked_run {calls : List Call} (hc : Clocked calls) {now : ℕ} (hn : ∀ c ∈ calls, c.now ≤ now) :
    pruneLocked windowMs ((machine windowMs percent).run [] calls) now =
      pruneLocked windowMs (history windowMs percent calls) now := by
  induction calls using List.reverseRecOn generalizing now with
  | nil => rfl
  | append_singleton calls c ih =>
    obtain ⟨hcalls,-,hlast⟩ := List.pairwise_append.mp hc
    have hpast := ih hcalls (fun b hb => hlast b hb c (List.mem_singleton_self c))
    have hcn : c.now ≤ now := hn c (by simp)
    rw [Machine.run_append,Machine.run_cons,Machine.run_nil,next_eq_prune_append,hpast,history_concat]
    exact RollingWindow.prune_prune_append hcn _ _

/-- The pruned queue holds exactly the recorded events that are still inside the window. -/
theorem pruneLocked_run_eq_filter {calls : List Call} (hc : Clocked calls) {now : ℕ}
    (hn : ∀ c ∈ calls, c.now ≤ now) :
    pruneLocked windowMs ((machine windowMs percent).run [] calls) now =
      (history windowMs percent calls).filter (fun e => !RollingWindow.expired Prod.fst windowMs now e) := by
  rw [pruneLocked_run hc hn]
  exact (history_ordered hc).prune_eq_filter now

/-- Of two requests the first has left the window. -/
theorem pruneLocked_run_requests :
    pruneLocked retryBudgetWindowMs ((machine retryBudgetWindowMs 20).run [] [.recordRequest 0,.recordRequest 5]) 10002 =
      (history retryBudgetWindowMs 20 [.recordRequest 0,.recordRequest 5]).filter
        (fun e => !RollingWindow.expired Prod.fst retryBudgetWindowMs 10002 e) :=
  pruneLocked_run_eq_filter (by simp [Clocked,Call.now]) (by simp [Call.now])

end Dwara.Resilience.RetryBudget

/-! Whether another attempt runs: the parameters of an upstream, the deadline over all
attempts, and the budget. -/

namespace Dwara.Resilience

structure RetryParams where
  attempts : ℕ
  retryStatuses : List ℕ
  retryTransport : Bool
  budgetPercent : ℕ
  bufferMaxBytes : ℕ
  totalDeadline : Option ℕ
  bufferFirstFrameBytes : ℕ
  deriving DecidableEq, Repr

def RetryParams.retriesStatus (rp : RetryParams) (status : ℕ) : Bool := rp.retryStatuses.contains status

/-- The sleep before a retry, or none where the deadline over all attempts has passed. -/
def retrySleepUnderTotalDeadline (totalDeadline : Option ℕ) (elapsed delay : ℕ) : Option ℕ :=
  match totalDeadline with
  | none => some delay
  | some deadline => if deadline ≤ elapsed then none else some (min delay (deadline - elapsed))

/-- What the decision on a retry finds: the time since the first attempt, the backoff,
and the budget of the upstream. -/
structure RetryMoment where
  elapsed : ℕ
  delay : ℕ
  now : ℕ
  budget : List RetryBudget.Event
  deriving DecidableEq, Repr

/-- The deadline leaves time for a retry and the budget is charged for one. -/
def RetryMoment.grants (m : RetryMoment) (rp : RetryParams) : Bool :=
  (retrySleepUnderTotalDeadline rp.totalDeadline m.elapsed m.delay).isSome &&
    (RetryBudget.tryReserveRetry RetryBudget.retryBudgetWindowMs rp.budgetPercent m.budget m.now).2

end Dwara.Resilience
