import Dwara.Dataplane.Admission
import Mathlib.Data.List.Nodup
import Mathlib.Logic.Function.Basic

/-! Requests that wait for a permit: what the queue gives them of the general permits and of
the reserve. -/

namespace Dwara.Lib

/-- A semaphore that serves its waiters in order: no permit is free while one waits. -/
structure FairSemaphore (ι : Type) where
  permits : ℕ
  waiters : List ι
  fair : waiters = [] ∨ permits = 0

namespace FairSemaphore
variable {ι : Type}

theorem fair_acquire {p : ℕ} {ws : List ι} (h : ws = [] ∨ p = 0) (i : ι) : (if p = 0 then ws ++ [i] else ws) = [] ∨ p - 1 = 0 := by
  rcases h with rfl | rfl
  · by_cases hp : p = 0
    · exact .inr (by omega)
    · exact .inl (if_neg hp)
  · exact .inr rfl

theorem fair_release {p : ℕ} {ws : List ι} (h : ws = [] ∨ p = 0) : ws.tail = [] ∨ (if ws.isEmpty then p + 1 else p) = 0 := by
  cases ws with
  | nil => exact .inl rfl
  | cons w ws =>
    rcases h with h | rfl
    · cases h
    · exact .inr rfl

theorem fair_cancel {p : ℕ} {ws : List ι} (h : ws = [] ∨ p = 0) (keep : ι → Bool) : ws.filter keep = [] ∨ p = 0 := by
  rcases h with rfl | hp
  · exact .inl rfl
  · exact .inr hp

/-- Takes a free permit, or waits at the end of the queue. -/
def acquire (s : FairSemaphore ι) (i : ι) : FairSemaphore ι where
  permits := s.permits - 1
  waiters := if s.permits = 0 then s.waiters ++ [i] else s.waiters
  fair := fair_acquire s.fair i

/-- A permit comes back, and goes to the first waiter. -/
def release (s : FairSemaphore ι) : FairSemaphore ι where
  permits := if s.waiters.isEmpty then s.permits + 1 else s.permits
  waiters := s.waiters.tail
  fair := fair_release s.fair

/-- A waiter goes away. -/
def cancel [DecidableEq ι] (s : FairSemaphore ι) (i : ι) : FairSemaphore ι where
  permits := s.permits
  waiters := s.waiters.filter (· ≠ i)
  fair := fair_cancel s.fair _

theorem acquire_waiters (s : FairSemaphore ι) (i : ι) :
    (s.acquire i).waiters = if s.permits = 0 then s.waiters ++ [i] else s.waiters := rfl

theorem release_waiters (s : FairSemaphore ι) : s.release.waiters = s.waiters.tail := rfl

theorem cancel_waiters [DecidableEq ι] (s : FairSemaphore ι) (i : ι) : (s.cancel i).waiters = s.waiters.filter (· ≠ i) := rfl

theorem permits_of_mem {s : FairSemaphore ι} {i : ι} (h : i ∈ s.waiters) : s.permits = 0 := by
  rcases s.fair with hnil | hp
  · rw [hnil] at h
    cases h
  · exact hp

end FairSemaphore
end Dwara.Lib

namespace Dwara.Dataplane
open Dwara.Lib

/-- Where a request stands: not there yet, about to wait, waiting in a bucket, or with its permit. -/
inductive QueuePhase where
  | absent
  | queued
  | waiting (b : Bucket)
  | holding (b : Bucket)
  | timedOut
  | refused
  | done
  deriving DecidableEq

/-- A request. Beside it stands whether a permit it may use was free while it waited, and whether one
of the reserve was. -/
structure QueuedRequest where
  priority : ℕ := 0
  phase : QueuePhase := .absent
  offered : Bool := false
  reserveSeen : Bool := false

/-- The two semaphores, which of them can be acquired, and the requests. -/
structure Permits where
  live : Bucket → Bool
  sem : Bucket → FairSemaphore ℕ
  request : ℕ → QueuedRequest

/-- An immediate admission, a call to wait, its first poll, its timeout, and the end of a request. -/
inductive PermitEvent where
  | enterNow (i priority : ℕ)
  | join (i priority : ℕ)
  | poll (i : ℕ)
  | timeout (i : ℕ)
  | leave (i : ℕ)

namespace Permits

/-- The buckets a priority may draw from. -/
def usable (s : Permits) (priority : ℕ) : Bucket → Bool
  | .general => s.live .general
  | .reserved => s.live .reserved && highPriority ≤ priority

def free (s : Permits) (priority : ℕ) (b : Bucket) : Bool := s.usable priority b && 0 < (s.sem b).permits

def goto (s : Permits) (i : ℕ) (phase : QueuePhase) : Permits :=
  { s with request := Function.update s.request i { s.request i with phase } }

def enter (s : Permits) (i priority : ℕ) (phase : QueuePhase) : Permits :=
  { s with request := Function.update s.request i { priority, phase } }

/-- Polls the acquire future of a bucket. -/
def acquire (s : Permits) (i : ℕ) (b : Bucket) : Permits :=
  { s with sem := Function.update s.sem b ((s.sem b).acquire i) }.goto i
    (if (s.sem b).permits = 0 then .waiting b else .holding b)

/-- Drops a permit, which may admit a waiter. -/
def release (s : Permits) (i : ℕ) (b : Bucket) : Permits :=
  let dropped := { s with sem := Function.update s.sem b (s.sem b).release }.goto i .done
  match (s.sem b).waiters.head? with
  | none => dropped
  | some j => dropped.goto j (.holding b)

def cancel (s : Permits) (i : ℕ) (b : Bucket) (phase : QueuePhase) : Permits :=
  { s with sem := Function.update s.sem b ((s.sem b).cancel i) }.goto i phase

/-- What the requests that wait see of the permits. -/
def observed (s : Permits) (r : QueuedRequest) : QueuedRequest :=
  match r.phase with
  | .waiting _ =>
    { r with
      offered := r.offered || s.free r.priority .general || s.free r.priority .reserved
      reserveSeen := r.reserveSeen || s.free r.priority .reserved }
  | _ => r

def observe (s : Permits) : Permits := { s with request := fun i => s.observed (s.request i) }

/-- One event. `tryAcquireQueued` is `join`, `poll` and `timeout`: its second future is polled only
where the general semaphore is closed. -/
def act (s : Permits) : PermitEvent → Option Permits
  | .enterNow i priority =>
    if (s.request i).phase = .absent then
      let s := s.enter i priority .absent
      if s.free priority .general then some (s.acquire i .general)
      else if s.free priority .reserved then some (s.acquire i .reserved)
      else none
    else none
  | .join i priority =>
    if (s.request i).phase = .absent then
      some (s.enter i priority .queued)
    else none
  | .poll i =>
    if (s.request i).phase = .queued then
      if s.live .general then some (s.acquire i .general)
      else if s.usable (s.request i).priority .reserved then some (s.acquire i .reserved)
      else some (s.goto i .refused)
    else none
  | .timeout i =>
    match (s.request i).phase with
    | .waiting b => some (s.cancel i b .timedOut)
    | _ => none
  | .leave i =>
    match (s.request i).phase with
    | .queued => some (s.goto i .done)
    | .waiting b => some (s.cancel i b .done)
    | .holding b => some (s.release i b)
    | _ => none

/-- The semaphores with any free permits, and nobody there yet. -/
def system (live : Bucket → Bool) (permits : Bucket → ℕ) : System Permits PermitEvent where
  init := ⟨live,fun b => ⟨permits b,[],.inl rfl⟩,fun _ => {}⟩
  step s event := (s.act event).map observe

/-- No high-priority request timed out after a permit it may use was free. -/
def Served (s : Permits) : Prop :=
  ∀ i, highPriority ≤ (s.request i).priority → (s.request i).phase = .timedOut → (s.request i).offered = false

/-- Low-priority requests stay out of the reserve. -/
def ReserveKept (s : Permits) : Prop :=
  ∀ i, (s.request i).phase = .holding .reserved → highPriority ≤ (s.request i).priority

/-- A high-priority request times out only if the reserve had no free permit while it waited. -/
def Unreserved (s : Permits) (event : PermitEvent) : Prop :=
  ∀ i, event = .timeout i → highPriority ≤ (s.request i).priority → (s.request i).reserveSeen = false

/-- The waiters of a bucket are the requests that wait in it, and only high-priority ones get near the reserve. -/
structure Consistent (s : Permits) : Prop where
  waiting_iff : ∀ b i, i ∈ (s.sem b).waiters ↔ (s.request i).phase = .waiting b
  nodup : ∀ b, (s.sem b).waiters.Nodup
  closed : ∀ i, (s.request i).phase = .waiting .reserved → s.live .general = false
  high : ∀ i, (s.request i).phase = .waiting .reserved ∨ (s.request i).phase = .holding .reserved →
    highPriority ≤ (s.request i).priority
  seen : ∀ i, (s.request i).offered = (s.request i).reserveSeen

variable {s t : Permits} {i j : ℕ} {b : Bucket} {phase : QueuePhase}

section Goto

theorem goto_phase (s : Permits) (i j : ℕ) (phase : QueuePhase) :
    ((s.goto i phase).request j).phase = if j = i then phase else (s.request j).phase := by
  by_cases hj : j = i
  · subst hj
    simp [goto]
  · simp [goto,hj]

/-- Only the phase of one request changes. -/
theorem goto_rest (s : Permits) (i j : ℕ) (phase : QueuePhase) :
    ((s.goto i phase).request j).priority = (s.request j).priority ∧
      ((s.goto i phase).request j).offered = (s.request j).offered ∧
      ((s.goto i phase).request j).reserveSeen = (s.request j).reserveSeen := by
  by_cases hj : j = i
  · subst hj
    simp [goto]
  · simp [goto,hj]

/-- One request moves on, and the queues follow it. -/
theorem Consistent.move (hs : s.Consistent) (hlive : t.live = s.live) (hrequest : t.request = (s.goto i phase).request)
    (hwaiters : ∀ b j, j ∈ (t.sem b).waiters ↔ if j = i then phase = .waiting b else j ∈ (s.sem b).waiters)
    (hnodup : ∀ b, (t.sem b).waiters.Nodup) (hclosed : phase = .waiting .reserved → s.live .general = false)
    (hhigh : phase = .waiting .reserved ∨ phase = .holding .reserved → highPriority ≤ (s.request i).priority) : t.Consistent := by
  constructor
  · intro b j
    rw [hwaiters,hrequest,goto_phase]
    split
    · exact Iff.rfl
    · exact hs.waiting_iff b j
  · exact hnodup
  · intro j hj
    rw [hrequest,goto_phase] at hj
    rw [hlive]
    split at hj
    · exact hclosed hj
    · exact hs.closed j hj
  · intro j hj
    rw [hrequest,goto_phase] at hj
    rw [hrequest,(goto_rest s i j phase).1]
    split at hj
    · rename_i hji
      subst hji
      exact hhigh hj
    · exact hs.high j hj
  · intro j
    rw [hrequest,(goto_rest s i j phase).2.1,(goto_rest s i j phase).2.2]
    exact hs.seen j

theorem not_mem_waiters (hs : s.Consistent) (hi : ∀ b, (s.request i).phase ≠ .waiting b) (b : Bucket) : i ∉ (s.sem b).waiters :=
  fun h => hi b ((hs.waiting_iff b i).mp h)

/-- A request that does not wait moves to where it does not wait either. -/
theorem consistent_goto (hs : s.Consistent) (hi : ∀ b, (s.request i).phase ≠ .waiting b) (hphase : ∀ b, phase ≠ .waiting b)
    (hhigh : phase = .holding .reserved → highPriority ≤ (s.request i).priority) : (s.goto i phase).Consistent := by
  refine hs.move rfl rfl (fun b j => ?_) hs.nodup (fun h => absurd h (hphase _)) (fun h => hhigh (h.resolve_left (hphase _)))
  by_cases hj : j = i
  · subst hj
    rw [if_pos rfl]
    exact iff_of_false (not_mem_waiters hs hi b) (hphase b)
  · rw [if_neg hj]
    exact Iff.rfl

end Goto

section Acts

theorem enter_request (s : Permits) (i j priority : ℕ) (phase : QueuePhase) :
    (s.enter i priority phase).request j = if j = i then { priority, phase } else s.request j := by
  rw [enter]
  exact Function.update_apply s.request i _ j

/-- A request comes in. -/
theorem consistent_enter (hs : s.Consistent) (hi : (s.request i).phase = .absent) (priority : ℕ)
    (hphase : phase = .absent ∨ phase = .queued) : (s.enter i priority phase).Consistent := by
  have hout := not_mem_waiters hs (i := i) (fun b hb => by rw [hi] at hb; cases hb)
  have hquiet : ∀ b, phase ≠ .waiting b ∧ phase ≠ .holding b := fun b => by
    rcases hphase with rfl | rfl <;> exact ⟨nofun,nofun⟩
  constructor
  · intro b j
    rw [enter_request]
    split
    · rename_i hj
      subst hj
      exact iff_of_false (hout b) (hquiet b).1
    · exact hs.waiting_iff b j
  · exact hs.nodup
  · intro j hj
    rw [enter_request] at hj
    split at hj
    · exact absurd hj (hquiet _).1
    · exact hs.closed j hj
  · intro j hj
    rw [enter_request] at hj ⊢
    split at hj
    · exact absurd hj (not_or.mpr (hquiet _))
    · rename_i hji
      rw [if_neg hji]
      exact hs.high j hj
  · intro j
    rw [enter_request]
    split
    · rfl
    · exact hs.seen j

theorem consistent_acquire (hs : s.Consistent) (hi : ∀ b, (s.request i).phase ≠ .waiting b)
    (hhigh : b = .reserved → highPriority ≤ (s.request i).priority)
    (hclosed : b = .reserved → (s.sem b).permits = 0 → s.live .general = false) : (s.acquire i b).Consistent := by
  have hout := not_mem_waiters hs hi
  refine hs.move rfl rfl (fun c j => ?_) (fun c => ?_) (fun h => ?_) (fun h => hhigh ?_)
  · show j ∈ (Function.update s.sem b ((s.sem b).acquire i) c).waiters ↔ _
    by_cases hc : c = b
    · subst hc
      rw [Function.update_self,FairSemaphore.acquire_waiters]
      by_cases hp : (s.sem c).permits = 0
      · by_cases hj : j = i
        · simp [hp,hj]
        · simp [hp,hj]
      · by_cases hj : j = i
        · simp [hp,hj,hout c]
        · simp [hp,hj]
    · rw [Function.update_of_ne hc]
      by_cases hj : j = i
      · subst hj
        rw [if_pos rfl]
        refine iff_of_false (hout c) (fun h => ?_)
        split at h
        · exact hc (QueuePhase.waiting.inj h).symm
        · cases h
      · rw [if_neg hj]
  · show (Function.update s.sem b ((s.sem b).acquire i) c).waiters.Nodup
    by_cases hc : c = b
    · subst hc
      rw [Function.update_self,FairSemaphore.acquire_waiters]
      by_cases hp : (s.sem c).permits = 0
      · rw [if_pos hp]
        exact List.nodup_append.mpr ⟨hs.nodup c,List.nodup_singleton i,fun x hx y hy => by
          rw [List.mem_singleton.mp hy]
          exact fun he => hout c (he ▸ hx)⟩
      · rw [if_neg hp]
        exact hs.nodup c
    · rw [Function.update_of_ne hc]
      exact hs.nodup c
  · split at h
    · rename_i hp
      exact hclosed (QueuePhase.waiting.inj h) hp
    · cases h
  · split at h
    · rcases h with h | h
      · exact QueuePhase.waiting.inj h
      · cases h
    · rcases h with h | h
      · cases h
      · exact QueuePhase.holding.inj h

theorem consistent_cancel (hs : s.Consistent) (hi : (s.request i).phase = .waiting b) (hphase : phase = .timedOut ∨ phase = .done) :
    (s.cancel i b phase).Consistent := by
  have hquiet : ∀ c, phase ≠ .waiting c := fun c h => by rcases hphase with rfl | rfl <;> cases h
  refine hs.move rfl rfl (fun c j => ?_) (fun c => ?_) (fun h => absurd h (hquiet _)) (fun h => ?_)
  · show j ∈ (Function.update s.sem b ((s.sem b).cancel i) c).waiters ↔ _
    by_cases hc : c = b
    · subst hc
      rw [Function.update_self,FairSemaphore.cancel_waiters]
      by_cases hj : j = i
      · simp [hj,hquiet c]
      · simp [hj]
    · rw [Function.update_of_ne hc]
      by_cases hj : j = i
      · subst hj
        rw [if_pos rfl]
        refine iff_of_false (fun h => hc ?_) (hquiet c)
        exact (QueuePhase.waiting.inj (hi.symm.trans ((hs.waiting_iff c j).mp h))).symm
      · rw [if_neg hj]
  · show (Function.update s.sem b ((s.sem b).cancel i) c).waiters.Nodup
    by_cases hc : c = b
    · subst hc
      rw [Function.update_self]
      exact (hs.nodup c).filter _
    · rw [Function.update_of_ne hc]
      exact hs.nodup c
  · rcases hphase with rfl | rfl <;> rcases h with h | h <;> cases h

theorem consistent_release (hs : s.Consistent) (hi : (s.request i).phase = .holding b) : (s.release i b).Consistent := by
  have hquiet : ∀ c, (s.request i).phase ≠ .waiting c := fun c h => by rw [hi] at h; cases h
  have hdone : (s.goto i .done).Consistent := consistent_goto hs hquiet (fun c => nofun) nofun
  rw [release]
  cases hws : (s.sem b).waiters with
  | nil =>
    have hrequest : (s.goto i .done).request = ((s.goto i .done).goto i .done).request := by
      funext j
      by_cases hj : j = i
      · simp [goto,hj]
      · simp [goto,hj]
    refine hdone.move rfl hrequest (fun c j => ?_) (fun c => ?_) nofun (by rintro (h | h) <;> cases h)
    · show j ∈ (Function.update s.sem b (s.sem b).release c).waiters ↔ _
      have hsame : (Function.update s.sem b (s.sem b).release c).waiters = (s.sem c).waiters := by
        by_cases hc : c = b
        · subst hc
          rw [Function.update_self,FairSemaphore.release_waiters,hws]
          rfl
        · rw [Function.update_of_ne hc]
      rw [hsame]
      by_cases hj : j = i
      · subst hj
        rw [if_pos rfl]
        exact iff_of_false (not_mem_waiters hs hquiet c) nofun
      · rw [if_neg hj]
        exact Iff.rfl
    · show (Function.update s.sem b (s.sem b).release c).waiters.Nodup
      by_cases hc : c = b
      · subst hc
        rw [Function.update_self]
        exact (hs.nodup c).tail
      · rw [Function.update_of_ne hc]
        exact hs.nodup c
  | cons w ws =>
    have hw : (s.request w).phase = .waiting b := (hs.waiting_iff b w).mp (hws ▸ List.mem_cons_self)
    have hwi : w ≠ i := fun h => hquiet b (h ▸ hw)
    have hnodup : w ∉ ws ∧ ws.Nodup := List.nodup_cons.mp (hws ▸ hs.nodup b)
    have hpriority := (goto_rest s i w .done).1
    have hrequest : ((s.goto i .done).goto w (.holding b)).request = _ := rfl
    refine hdone.move rfl hrequest (fun c j => ?_) (fun c => ?_) nofun (fun h => ?_)
    · show j ∈ (Function.update s.sem b (s.sem b).release c).waiters ↔ _
      by_cases hc : c = b
      · subst hc
        rw [Function.update_self,FairSemaphore.release_waiters,hws]
        by_cases hj : j = w
        · simp [hj,hnodup.1]
        · rw [if_neg hj]
          show j ∈ ws ↔ j ∈ (s.sem c).waiters
          simp [hws,hj]
      · rw [Function.update_of_ne hc]
        by_cases hj : j = w
        · subst hj
          rw [if_pos rfl]
          refine iff_of_false (fun h => hc ?_) nofun
          exact (QueuePhase.waiting.inj (hw.symm.trans ((hs.waiting_iff c j).mp h))).symm
        · rw [if_neg hj]
          exact Iff.rfl
    · show (Function.update s.sem b (s.sem b).release c).waiters.Nodup
      by_cases hc : c = b
      · subst hc
        rw [Function.update_self]
        exact (hs.nodup c).tail
      · rw [Function.update_of_ne hc]
        exact hs.nodup c
    · rcases h with h | h
      · cases h
      · obtain rfl := QueuePhase.holding.inj h
        rw [hpriority]
        exact hs.high w (.inl hw)

/-- What an event can do: let a request in, poll a semaphore for it, time it out, or end it. -/
theorem consistent_act (hs : s.Consistent) {event : PermitEvent} (h : s.act event = some t) : t.Consistent := by
  cases event with
  | enterNow i priority =>
    rw [act] at h
    split at h
    · rename_i habsent
      have henter := consistent_enter hs habsent priority (.inl rfl)
      have hself : (s.enter i priority .absent).request i = { priority, phase := .absent } := by rw [enter_request,if_pos rfl]
      have hquiet : ∀ b, ((s.enter i priority .absent).request i).phase ≠ .waiting b := fun b => by rw [hself]; nofun
      simp only at h
      split at h
      · cases h
        exact consistent_acquire henter hquiet nofun nofun
      · split at h
        · rename_i hfree
          cases h
          simp only [free,usable,Bool.and_eq_true,decide_eq_true_eq] at hfree
          refine consistent_acquire henter hquiet (fun _ => ?_) (fun _ hp => absurd hp hfree.2.ne')
          rw [hself]
          exact hfree.1.2
        · cases h
    · cases h
  | join i priority =>
    rw [act] at h
    split at h
    · rename_i habsent
      cases h
      exact consistent_enter hs habsent priority (.inr rfl)
    · cases h
  | poll i =>
    rw [act] at h
    split at h
    · rename_i hqueued
      have hquiet : ∀ b, (s.request i).phase ≠ .waiting b := fun b => by rw [hqueued]; nofun
      split at h
      · cases h
        exact consistent_acquire hs hquiet nofun nofun
      · rename_i hclosed
        split at h
        · rename_i husable
          cases h
          simp only [usable,Bool.and_eq_true,decide_eq_true_eq] at husable
          exact consistent_acquire hs hquiet (fun _ => husable.2) (fun _ _ => by simpa using hclosed)
        · cases h
          exact consistent_goto hs hquiet (fun b => nofun) nofun
    · cases h
  | timeout i =>
    rw [act] at h
    split at h
    · rename_i b hwaiting
      cases h
      exact consistent_cancel hs hwaiting (.inl rfl)
    · cases h
  | leave i =>
    rw [act] at h
    split at h
    · rename_i hqueued
      cases h
      exact consistent_goto hs (fun b => by rw [hqueued]; nofun) (fun b => nofun) nofun
    · rename_i b hwaiting
      cases h
      exact consistent_cancel hs hwaiting (.inr rfl)
    · rename_i b hholding
      cases h
      exact consistent_release hs hholding
    · cases h

theorem observed_rest (s : Permits) (r : QueuedRequest) : (s.observed r).phase = r.phase ∧ (s.observed r).priority = r.priority := by
  rw [observed]
  split <;> exact ⟨rfl,rfl⟩

/-- A request that waits for a general permit is offered none that it does not get. -/
theorem consistent_observe (hs : s.Consistent) : s.observe.Consistent := by
  have hrest := fun i => observed_rest s (s.request i)
  constructor
  · intro b i
    show i ∈ (s.sem b).waiters ↔ (s.observed (s.request i)).phase = .waiting b
    rw [(hrest i).1]
    exact hs.waiting_iff b i
  · exact hs.nodup
  · intro i hi
    exact hs.closed i ((hrest i).1 ▸ hi)
  · intro i hi
    show highPriority ≤ (s.observed (s.request i)).priority
    rw [(hrest i).2]
    exact hs.high i ((hrest i).1 ▸ hi)
  · intro i
    show (s.observed (s.request i)).offered = (s.observed (s.request i)).reserveSeen
    have hseen := hs.seen i
    cases hphase : (s.request i).phase with
    | waiting b =>
      have hgeneral : s.free (s.request i).priority .general = false := by
        cases b with
        | general =>
          have hp := FairSemaphore.permits_of_mem ((hs.waiting_iff .general i).mpr hphase)
          simp [free,hp]
        | reserved => simp [free,usable,hs.closed i hphase]
      simp [observed,hphase,hseen,hgeneral]
    | _ => simp [observed,hphase,hseen]

theorem consistent_step {live : Bucket → Bool} {permits : Bucket → ℕ} {event : PermitEvent} (hs : s.Consistent)
    (h : (system live permits).step s event = some t) : t.Consistent := by
  obtain ⟨r,hr,rfl⟩ := Option.map_eq_some_iff.mp h
  exact consistent_observe (consistent_act hs hr)

theorem consistent_init (live : Bucket → Bool) (permits : Bucket → ℕ) : (system live permits).init.Consistent := by
  refine ⟨fun b i => ?_,fun b => List.nodup_nil,fun i hi => (by cases hi),fun i hi => ?_,fun i => rfl⟩
  · exact iff_of_false List.not_mem_nil nofun
  · rcases hi with hi | hi <;> cases hi

theorem consistent_run {live : Bucket → Bool} {permits : Bucket → ℕ} {events : List PermitEvent}
    (hr : (system live permits).run events = some s) : s.Consistent :=
  System.run_inv Consistent (consistent_init live permits) (fun _ _ _ hs h => consistent_step hs h) hr

end Acts

section TimedOut

/-- A request that another moves has not timed out by it. -/
theorem goto_timedOut (hj : ((s.goto i phase).request j).phase = .timedOut) (hphase : phase ≠ .timedOut) :
    (s.request j).phase = .timedOut ∧ ((s.goto i phase).request j).priority = (s.request j).priority ∧
      ((s.goto i phase).request j).offered = (s.request j).offered := by
  have hrest := goto_rest s i j phase
  rw [goto_phase] at hj
  split at hj
  · exact absurd hj hphase
  · exact ⟨hj,hrest.1,hrest.2.1⟩

theorem acquire_timedOut (hj : ((s.acquire i b).request j).phase = .timedOut) :
    (s.request j).phase = .timedOut ∧ ((s.acquire i b).request j).priority = (s.request j).priority ∧
      ((s.acquire i b).request j).offered = (s.request j).offered :=
  goto_timedOut (s := { s with sem := Function.update s.sem b ((s.sem b).acquire i) }) hj (by split <;> nofun)

theorem enter_timedOut {priority : ℕ} (hj : ((s.enter i priority phase).request j).phase = .timedOut) (hphase : phase ≠ .timedOut) :
    (s.request j).phase = .timedOut ∧ (s.enter i priority phase).request j = s.request j := by
  rw [enter_request] at hj ⊢
  split at hj
  · exact absurd hj hphase
  · rename_i hji
    exact ⟨hj,if_neg hji⟩

theorem release_timedOut (hj : ((s.release i b).request j).phase = .timedOut) :
    (s.request j).phase = .timedOut ∧ ((s.release i b).request j).priority = (s.request j).priority ∧
      ((s.release i b).request j).offered = (s.request j).offered := by
  rw [release] at hj ⊢
  generalize (s.sem b).waiters.head? = first at hj ⊢
  cases first with
  | none => exact goto_timedOut (s := { s with sem := Function.update s.sem b (s.sem b).release }) hj nofun
  | some w =>
    obtain ⟨hdropped,hpriority,hoffered⟩ := goto_timedOut hj nofun
    obtain ⟨hs,hpriority',hoffered'⟩ :=
      goto_timedOut (s := { s with sem := Function.update s.sem b (s.sem b).release }) hdropped nofun
    exact ⟨hs,hpriority.trans hpriority',hoffered.trans hoffered'⟩

/-- A request has timed out by an event just now, or before it. -/
theorem timedOut_cases {event : PermitEvent} (h : s.act event = some t) (hj : (t.request j).phase = .timedOut) :
    (event = .timeout j ∨ (s.request j).phase = .timedOut) ∧ (t.request j).priority = (s.request j).priority ∧
      (t.request j).offered = (s.request j).offered := by
  cases event with
  | enterNow i priority =>
    rw [act] at h
    split at h
    · simp only at h
      have hentered : ((s.enter i priority .absent).request j).phase = .timedOut ∧
          (t.request j).priority = ((s.enter i priority .absent).request j).priority ∧
          (t.request j).offered = ((s.enter i priority .absent).request j).offered := by
        split at h
        · cases h
          exact acquire_timedOut hj
        · split at h
          · cases h
            exact acquire_timedOut hj
          · cases h
      obtain ⟨hphase,hsame⟩ := enter_timedOut hentered.1 nofun
      rw [hsame] at hentered
      exact ⟨.inr hphase,hentered.2⟩
    · cases h
  | join i priority =>
    rw [act] at h
    split at h
    · cases h
      obtain ⟨hphase,hsame⟩ := enter_timedOut hj nofun
      rw [hsame]
      exact ⟨.inr hphase,rfl,rfl⟩
    · cases h
  | poll i =>
    rw [act] at h
    split at h
    · split at h
      · cases h
        have hacquired := acquire_timedOut hj
        exact ⟨.inr hacquired.1,hacquired.2⟩
      · split at h
        · cases h
          have hacquired := acquire_timedOut hj
          exact ⟨.inr hacquired.1,hacquired.2⟩
        · cases h
          have hrefused := goto_timedOut hj nofun
          exact ⟨.inr hrefused.1,hrefused.2⟩
    · cases h
  | timeout i =>
    rw [act] at h
    split at h
    · rename_i b hwaiting
      cases h
      have hrest := goto_rest { s with sem := Function.update s.sem b ((s.sem b).cancel i) } i j .timedOut
      refine ⟨?_,hrest.1,hrest.2.1⟩
      rw [cancel,goto_phase] at hj
      split at hj
      · rename_i hji
        exact .inl (hji ▸ rfl)
      · exact .inr hj
    · cases h
  | leave i =>
    rw [act] at h
    split at h
    · cases h
      have hdone := goto_timedOut hj nofun
      exact ⟨.inr hdone.1,hdone.2⟩
    · rename_i b hwaiting
      cases h
      have hdone := goto_timedOut (s := { s with sem := Function.update s.sem b ((s.sem b).cancel i) }) hj nofun
      exact ⟨.inr hdone.1,hdone.2⟩
    · cases h
      have hreleased := release_timedOut hj
      exact ⟨.inr hreleased.1,hreleased.2⟩
    · cases h

theorem timeout_timesOut (h : s.act (.timeout i) = some t) : (t.request i).phase = .timedOut ∧
    (t.request i).priority = (s.request i).priority ∧ (t.request i).offered = (s.request i).offered := by
  rw [act] at h
  split at h
  · rename_i b hwaiting
    cases h
    have hrest := goto_rest { s with sem := Function.update s.sem b ((s.sem b).cancel i) } i i .timedOut
    refine ⟨?_,hrest.1,hrest.2.1⟩
    rw [cancel,goto_phase,if_pos rfl]
  · cases h

/-- What waits is observed, what has timed out is not. -/
theorem observe_timedOut (hj : (s.request j).phase = .timedOut) : s.observe.request j = s.request j := by
  show s.observed (s.request j) = s.request j
  rw [observed,hj]

theorem served_step_iff {live : Bucket → Bool} {permits : Bucket → ℕ} {event : PermitEvent} (hs : s.Consistent) (hserved : s.Served)
    (h : (system live permits).step s event = some t) : t.Served ↔ s.Unreserved event := by
  obtain ⟨r,hr,rfl⟩ := Option.map_eq_some_iff.mp h
  constructor
  · rintro ht i rfl hhigh
    obtain ⟨hphase,hpriority,hoffered⟩ := timeout_timesOut hr
    have hsame := observe_timedOut hphase
    have hfalse := ht i (by rw [hsame,hpriority]; exact hhigh) (by rw [hsame]; exact hphase)
    rw [hsame,hoffered] at hfalse
    rw [← hs.seen i]
    exact hfalse
  · intro hunreserved i hhigh hphase
    have hbefore : (r.request i).phase = .timedOut := (observed_rest r (r.request i)).1 ▸ hphase
    have hsame := observe_timedOut hbefore
    obtain ⟨hcase,hpriority,hoffered⟩ := timedOut_cases hr hbefore
    rw [hsame,hpriority] at hhigh
    rw [hsame,hoffered]
    rcases hcase with rfl | hold
    · rw [hs.seen i]
      exact hunreserved i rfl hhigh
    · exact hserved i hhigh hold

end TimedOut

/-- One general permit and one of the reserve, both taken; a high-priority request waits. -/
private def reserveTaken : List PermitEvent := [.enterNow 0 0,.enterNow 1 9,.join 2 9,.poll 2]

private def onePermitEach : System Permits PermitEvent := system (fun _ => true) (fun _ => 1)

end Permits
end Dwara.Dataplane
