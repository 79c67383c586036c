import Dwara.Lib.System
import Mathlib.Algebra.Order.Group.Nat
import Mathlib.Data.List.Count

/-! The concurrency cap and the queue of the requests that wait for a permit. Every
load, addition, subtraction and semaphore operation is a step of its own. -/

namespace Dwara.Lib

/-- Replacing one item moves a count by that item alone. -/
theorem countP_set_add {α : Type*} (q : α → Bool) {l : List α} {i : ℕ} {x : α} (h : l[i]? = some x) (y : α) :
    (l.set i y).countP q + (q x).toNat = l.countP q + (q y).toNat := by
  induction l generalizing i with
  | nil => cases h
  | cons z l ih =>
    cases i with
    | zero =>
      obtain rfl : z = x := by simpa using h
      simp only [List.set_cons_zero,List.countP_cons]
      cases q z <;> cases q y <;> simp
    | succ i =>
      have h := ih (by simpa using h)
      simp only [List.set_cons_succ,List.countP_cons]
      omega

end Dwara.Lib

namespace Dwara.Dataplane
open Dwara.Lib

/-- From this priority on a request is high-priority. -/
def highPriority : ℕ := 8

/-- `gateway.admission_queue`. -/
structure AdmissionQueue where
  enabled : Bool := false
  maxQueueSize : UInt32
  perPriority : Bool := true

/-- What the admission reads of the gateway: the cap, the routes' priorities, the queue
and whether shedding is a dry run. -/
structure AdmissionConfig where
  maxConcurrentRequests : Option ℕ := none
  routePriorities : List (Option ℕ) := []
  admissionQueue : Option AdmissionQueue := none
  loadShedDryRun : Bool := false

structure AdmissionQueueState where
  maxQueueSize : UInt32
  lowQueueLimit : UInt32
  lowLe : lowQueueLimit ≤ maxQueueSize

/-- The permits of one generation, `none` where there is no cap. -/
structure GlobalCap where
  general : Option ℕ := none
  reserved : Option ℕ := none
  admissionQueue : Option AdmissionQueueState := none

def hasHighPriority (gateway : AdmissionConfig) : Bool :=
  gateway.routePriorities.any fun p => p.any (highPriority ≤ ·)

def AdmissionQueue.state (aq : AdmissionQueue) : AdmissionQueueState where
  maxQueueSize := aq.maxQueueSize
  lowQueueLimit := if aq.perPriority then aq.maxQueueSize / 2 else aq.maxQueueSize
  lowLe := by
    rw [UInt32.le_iff_toNat_le]
    split
    · rw [UInt32.toNat_div]
      exact Nat.div_le_self _ _
    · exact le_rfl

def globalCapOf (gateway : AdmissionConfig) : GlobalCap :=
  match gateway.maxConcurrentRequests.filter (0 < ·) with
  | none => {}
  | some cap =>
    let bucket := if hasHighPriority gateway then min (max (cap / 10) 1) cap else 0
    { general := some (cap - bucket)
      reserved := if 0 < bucket then some bucket else none
      admissionQueue := (gateway.admissionQueue.filter (·.enabled)).map AdmissionQueue.state }

/-- The depth up to which a request of this priority may join the queue. -/
def AdmissionQueueState.limit (aq : AdmissionQueueState) (priority : ℕ) : UInt32 :=
  if highPriority ≤ priority then aq.maxQueueSize else aq.lowQueueLimit

inductive Bucket where
  | general | reserved
  deriving DecidableEq

/-- Where a request stands in its admission. -/
inductive AdmissionPhase where
  | arrived
  | overGeneral
  | overCap
  | slotFree
  | waiting
  | resumed (permit : Option Bucket)
  | running (permit : Option Bucket)
  | done
  deriving DecidableEq

structure Admitting where
  priority : ℕ
  phase : AdmissionPhase
  deriving DecidableEq

/-- The semaphores' free permits and the queue's depth. -/
structure AdmissionCells where
  general : ℕ
  reserved : ℕ
  queueDepth : UInt32 := 0
  deriving DecidableEq

def AdmissionCells.free (cells : AdmissionCells) : Bucket → ℕ
  | .general => cells.general
  | .reserved => cells.reserved

def AdmissionCells.take (cells : AdmissionCells) : Bucket → AdmissionCells
  | .general => { cells with general := cells.general - 1 }
  | .reserved => { cells with reserved := cells.reserved - 1 }

/-- The permit is dropped. -/
def AdmissionCells.give (cells : AdmissionCells) : Option Bucket → AdmissionCells
  | none => cells
  | some .general => { cells with general := cells.general + 1 }
  | some .reserved => { cells with reserved := cells.reserved + 1 }

inductive AdmissionOp where
  | tryGeneral | tryReserved | loadDepth | fetchAdd | acquire | elapse | fetchSub | finish | dropped
  deriving DecidableEq

/-- The shed path: a dry run admits over the cap, without a permit. -/
def handleShed (gateway : AdmissionConfig) : AdmissionPhase :=
  if gateway.loadShedDryRun then .running none else .done

/-- No permit is free: the queue is asked, where there is one. -/
def noPermit (gateway : AdmissionConfig) : AdmissionPhase :=
  if (globalCapOf gateway).admissionQueue.isSome then .overCap else handleShed gateway

/-- One operation of a request in a phase. A future can be dropped where it awaits: in
the queue, and once it is admitted. -/
def advance (gateway : AdmissionConfig) (priority : ℕ) (cells : AdmissionCells) :
    AdmissionOp → AdmissionPhase → Option (AdmissionCells × AdmissionPhase)
  | .tryGeneral, .arrived =>
    if (globalCapOf gateway).general.isNone then some (cells,.running none)
    else if 0 < cells.general then some (cells.take .general,.running (some .general))
    else some (cells,if highPriority ≤ priority then .overGeneral else noPermit gateway)
  | .tryReserved, .overGeneral =>
    if 0 < cells.reserved then some (cells.take .reserved,.running (some .reserved)) else some (cells,noPermit gateway)
  | .loadDepth, .overCap => (globalCapOf gateway).admissionQueue.map fun aq =>
      (cells,if aq.limit priority ≤ cells.queueDepth then handleShed gateway else .slotFree)
  | .fetchAdd, .slotFree => (globalCapOf gateway).admissionQueue.map fun _ =>
      ({ cells with queueDepth := cells.queueDepth + 1 },.waiting)
  | .acquire, .waiting => if 0 < cells.general then some (cells.take .general,.resumed (some .general)) else none
  | .elapse, .waiting => some (cells,.resumed none)
  | .fetchSub, .resumed permit =>
    some ({ cells with queueDepth := cells.queueDepth - 1 },if permit.isSome then .running permit else handleShed gateway)
  | .finish, .running permit => some (cells.give permit,.done)
  | .dropped, .waiting => some (cells,.done)
  | .dropped, .running permit => some (cells.give permit,.done)
  | _, _ => none

structure Admission where
  cells : AdmissionCells
  requests : List Admitting := []
  deriving DecidableEq

inductive AdmissionEvent where
  | arrive (priority : ℕ)
  | op (i : ℕ) (op : AdmissionOp)
  deriving DecidableEq

namespace Admission

def step (gateway : AdmissionConfig) (s : Admission) : AdmissionEvent → Option Admission
  | .arrive priority => some { s with requests := s.requests ++ [⟨priority,.arrived⟩] }
  | .op i op =>
    match s.requests[i]? with
    | none => none
    | some r => (advance gateway r.priority s.cells op r.phase).map fun (cells,phase) =>
        { cells, requests := s.requests.set i { r with phase } }

def system (gateway : AdmissionConfig) : System Admission AdmissionEvent where
  init := { cells := { general := (globalCapOf gateway).general.getD 0, reserved := (globalCapOf gateway).reserved.getD 0 } }
  step := step gateway

end Admission

/-- The request counts in the queue: from its `fetch_add` to its `fetch_sub`. -/
def AdmissionPhase.queued : AdmissionPhase → Bool
  | .waiting => true
  | .resumed _ => true
  | _ => false

def AdmissionPhase.holds (b : Bucket) : AdmissionPhase → Bool
  | .resumed permit => permit = some b
  | .running permit => permit = some b
  | _ => false

namespace Admission

/-- Requests in the queue. -/
def queued (s : Admission) : ℕ := s.requests.countP (·.phase.queued)

def live (s : Admission) (b : Bucket) : ℕ := s.requests.countP (·.phase.holds b)

def livePermits (s : Admission) : ℕ := s.live .general + s.live .reserved

/-- The counter is the number of requests in the queue, and that is within its size. -/
def DepthKept (gateway : AdmissionConfig) (s : Admission) : Prop :=
  s.cells.queueDepth.toNat = s.queued ∧ ∀ aq ∈ (globalCapOf gateway).admissionQueue, s.queued ≤ aq.maxQueueSize.toNat

/-- No more permits are live than the cap, where there is one. -/
def PermitsKept (gateway : AdmissionConfig) (s : Admission) : Prop :=
  ∀ cap, gateway.maxConcurrentRequests = some cap → 0 < cap → s.livePermits ≤ cap

/-- A low-priority request joins the queue within its limit only. -/
def LowWithin (gateway : AdmissionConfig) (s : Admission) : AdmissionEvent → Prop
  | .op i .fetchAdd => ∀ aq ∈ (globalCapOf gateway).admissionQueue, ∀ r ∈ s.requests[i]?, r.priority < highPriority →
      s.queued < aq.lowQueueLimit.toNat
  | _ => True

/-- Nothing comes between a request and the queue: the depth it found below its limit is
below it still when it adds itself, and it is not dropped while it waits. -/
def Undisturbed (gateway : AdmissionConfig) (s : Admission) : AdmissionEvent → Prop
  | .op i .fetchAdd => ∀ aq ∈ (globalCapOf gateway).admissionQueue, ∀ r ∈ s.requests[i]?,
      s.cells.queueDepth < aq.limit r.priority
  | .op i .dropped => ∀ r ∈ s.requests[i]?, r.phase ≠ .waiting
  | _ => True

instance (gateway : AdmissionConfig) (s : Admission) : (event : AdmissionEvent) → Decidable (Undisturbed gateway s event)
  | .arrive _ => isTrue trivial
  | .op i .fetchAdd => inferInstanceAs (Decidable (∀ aq ∈ (globalCapOf gateway).admissionQueue, ∀ r ∈ s.requests[i]?,
      s.cells.queueDepth < aq.limit r.priority))
  | .op i .dropped => inferInstanceAs (Decidable (∀ r ∈ s.requests[i]?, r.phase ≠ .waiting))
  | .op _ .tryGeneral => isTrue trivial
  | .op _ .tryReserved => isTrue trivial
  | .op _ .loadDepth => isTrue trivial
  | .op _ .acquire => isTrue trivial
  | .op _ .elapse => isTrue trivial
  | .op _ .fetchSub => isTrue trivial
  | .op _ .finish => isTrue trivial

end Admission

theorem AdmissionCells.free_take {cells : AdmissionCells} {b : Bucket} (h : 0 < cells.free b) (c : Bucket) :
    (cells.take b).free c + (decide (some b = some c)).toNat = cells.free c := by
  cases b <;> cases c <;> simp only [free] at h <;> simp [take,free] <;> omega

theorem AdmissionCells.free_give (cells : AdmissionCells) (permit : Option Bucket) (c : Bucket) :
    (cells.give permit).free c = cells.free c + (decide (permit = some c)).toNat := by
  cases permit with
  | none => simp [give]
  | some b => cases b <;> cases c <;> simp [give,free]

@[simp] theorem AdmissionCells.queueDepth_take (cells : AdmissionCells) (b : Bucket) : (cells.take b).queueDepth = cells.queueDepth := by
  cases b <;> rfl

@[simp] theorem AdmissionCells.queueDepth_give (cells : AdmissionCells) (permit : Option Bucket) :
    (cells.give permit).queueDepth = cells.queueDepth := by
  cases permit with
  | none => rfl
  | some b => cases b <;> rfl

/-- What an operation does to the depth and to the request's place in the queue. -/
inductive DepthMove (gateway : AdmissionConfig) (depth depth' : UInt32) : AdmissionOp → AdmissionPhase → AdmissionPhase → Prop
  | join {phase phase' : AdmissionPhase} (aq : AdmissionQueueState) (haq : (globalCapOf gateway).admissionQueue = some aq) (hq : phase.queued = false)
      (hq' : phase'.queued = true) (hd : depth' = depth + 1) : DepthMove gateway depth depth' .fetchAdd phase phase'
  | leave {phase phase' : AdmissionPhase} (hq : phase.queued = true) (hq' : phase'.queued = false) (hd : depth' = depth - 1) :
      DepthMove gateway depth depth' .fetchSub phase phase'
  | lose {phase phase' : AdmissionPhase} (hwait : phase = .waiting) (hq' : phase'.queued = false) (hd : depth' = depth) :
      DepthMove gateway depth depth' .dropped phase phase'
  | stay {op : AdmissionOp} {phase phase' : AdmissionPhase} (hadd : op ≠ .fetchAdd) (hwait : op = .dropped → phase ≠ .waiting) (hd : depth' = depth)
      (hq : phase'.queued = phase.queued) : DepthMove gateway depth depth' op phase phase'

section Advance
variable {gateway : AdmissionConfig} {priority : ℕ} {cells cells' : AdmissionCells} {op : AdmissionOp} {phase phase' : AdmissionPhase}

@[simp] theorem holds_handleShed (b : Bucket) : (handleShed gateway).holds b = false := by
  unfold handleShed
  split <;> simp [AdmissionPhase.holds]

@[simp] theorem holds_noPermit (b : Bucket) : (noPermit gateway).holds b = false := by
  unfold noPermit
  split
  · rfl
  · exact holds_handleShed b

@[simp] theorem queued_handleShed : (handleShed gateway).queued = false := by
  unfold handleShed
  split <;> rfl

@[simp] theorem queued_noPermit : (noPermit gateway).queued = false := by
  unfold noPermit
  split
  · rfl
  · exact queued_handleShed

theorem DepthMove.of_advance (h : advance gateway priority cells op phase = some (cells',phase')) :
    DepthMove gateway cells.queueDepth cells'.queueDepth op phase phase' := by
  unfold advance at h
  split at h
  · split_ifs at h with hcap hfree hhigh
    · cases h
      exact .stay (by simp) (by simp) rfl rfl
    · cases h
      exact .stay (by simp) (by simp) rfl rfl
    · cases h
      exact .stay (by simp) (by simp) rfl rfl
    · cases h
      exact .stay (by simp) (by simp) rfl queued_noPermit
  · split_ifs at h with hfree
    · cases h
      exact .stay (by simp) (by simp) rfl rfl
    · cases h
      exact .stay (by simp) (by simp) rfl queued_noPermit
  · obtain ⟨aq,_,he⟩ := Option.map_eq_some_iff.mp h
    cases he
    refine .stay (by simp) (by simp) rfl ?_
    split_ifs
    · exact queued_handleShed
    · rfl
  · obtain ⟨aq,haq,he⟩ := Option.map_eq_some_iff.mp h
    cases he
    exact .join aq haq rfl rfl rfl
  · split_ifs at h
    cases h
    exact .stay (by simp) (by simp) rfl rfl
  · cases h
    exact .stay (by simp) (by simp) rfl rfl
  · cases h
    refine .leave rfl ?_ rfl
    split_ifs
    · rfl
    · exact queued_handleShed
  · cases h
    exact .stay (by simp) (by simp) (AdmissionCells.queueDepth_give _ _) rfl
  · cases h
    exact .lose rfl rfl rfl
  · cases h
    exact .stay (by simp) (by simp) (AdmissionCells.queueDepth_give _ _) rfl
  · cases h

/-- A permit is free or held, whatever a request does. -/
theorem free_add_holds (b : Bucket) (h : advance gateway priority cells op phase = some (cells',phase')) :
    cells'.free b + (phase'.holds b).toNat = cells.free b + (phase.holds b).toNat := by
  unfold advance at h
  split at h
  · split_ifs at h with hcap hfree hhigh
    · cases h
      rfl
    · cases h
      have hfree : 0 < cells.free .general := hfree
      exact AdmissionCells.free_take hfree b
    · cases h
      rfl
    · cases h
      rw [holds_noPermit]
      rfl
  · split_ifs at h with hfree
    · cases h
      have hfree : 0 < cells.free .reserved := hfree
      exact AdmissionCells.free_take hfree b
    · cases h
      rw [holds_noPermit]
      rfl
  · obtain ⟨aq,_,he⟩ := Option.map_eq_some_iff.mp h
    cases he
    split_ifs
    · rw [holds_handleShed]
      rfl
    · rfl
  · obtain ⟨aq,_,he⟩ := Option.map_eq_some_iff.mp h
    cases he
    cases b <;> rfl
  · split_ifs at h with hfree
    cases h
    have hfree : 0 < cells.free .general := hfree
    exact AdmissionCells.free_take hfree b
  · cases h
    rfl
  · rename_i permit
    cases h
    cases permit with
    | none =>
      rw [if_neg (by simp),holds_handleShed]
      cases b <;> rfl
    | some c => cases b <;> rfl
  · cases h
    exact AdmissionCells.free_give _ _ b
  · cases h
    rfl
  · cases h
    exact AdmissionCells.free_give _ _ b
  · cases h

end Advance

namespace Admission
variable {gateway : AdmissionConfig} {s s' : Admission}

/-- An operation of a request, and what it does to every count over the requests. -/
theorem op_cases {i : ℕ} {op : AdmissionOp} (h : step gateway s (.op i op) = some s') : ∃ r phase', s.requests[i]? = some r ∧
    advance gateway r.priority s.cells op r.phase = some (s'.cells,phase') ∧
    ∀ q : AdmissionPhase → Bool, s'.requests.countP (q ·.phase) + (q r.phase).toNat =
      s.requests.countP (q ·.phase) + (q phase').toNat := by
  simp only [step] at h
  split at h
  · cases h
  · rename_i r hr
    obtain ⟨⟨cells,phase'⟩,hadv,rfl⟩ := Option.map_eq_some_iff.mp h
    exact ⟨r,phase',hr,hadv,fun q => countP_set_add (q ·.phase) hr { r with phase := phase' }⟩

theorem countP_arrive {priority : ℕ} (h : step gateway s (.arrive priority) = some s') (q : AdmissionPhase → Bool)
    (hq : q .arrived = false) : s'.cells = s.cells ∧ s'.requests.countP (q ·.phase) = s.requests.countP (q ·.phase) := by
  obtain rfl := Option.some.inj h
  simp [hq]

/-- A request that is in the queue is counted. -/
theorem queued_pos {i : ℕ} {r : Admitting} (hr : s.requests[i]? = some r) (hq : r.phase.queued = true) : 0 < s.queued :=
  List.countP_pos_iff.mpr ⟨r,List.mem_of_getElem? hr,hq⟩

theorem lowWithin_of_ne {i : ℕ} {op : AdmissionOp} (h : op ≠ .fetchAdd) : s.LowWithin gateway (.op i op) := by
  cases op with
  | fetchAdd => exact absurd rfl h
  | _ => trivial

theorem undisturbed_of_ne {i : ℕ} {op : AdmissionOp} {r : Admitting} (hr : s.requests[i]? = some r) (hadd : op ≠ .fetchAdd)
    (hwait : op = .dropped → r.phase ≠ .waiting) : s.Undisturbed gateway (.op i op) := by
  cases op with
  | fetchAdd => exact absurd rfl hadd
  | dropped =>
    intro r' hr'
    obtain rfl := Option.some.inj (hr.symm.trans hr')
    exact hwait rfl
  | _ => trivial

/-- One step keeps the books just when it is an undisturbed one. -/
theorem depthKept_step_iff {event : AdmissionEvent} (hs : s.DepthKept gateway) (h : step gateway s event = some s') :
    s'.DepthKept gateway ∧ s.LowWithin gateway event ↔ s.Undisturbed gateway event := by
  obtain ⟨hdepth,hmax⟩ := hs
  cases event with
  | arrive priority =>
    obtain ⟨hcells,hcount⟩ := countP_arrive h AdmissionPhase.queued rfl
    have hkept : s'.DepthKept gateway := by
      rw [DepthKept,queued,hcells,hcount]
      exact ⟨hdepth,hmax⟩
    exact iff_of_true ⟨hkept,trivial⟩ trivial
  | op i op =>
    obtain ⟨r,phase',hr,hadv,hcount⟩ := op_cases h
    have hcount : s'.queued + r.phase.queued.toNat = s.queued + phase'.queued.toNat := hcount AdmissionPhase.queued
    have hmove := DepthMove.of_advance hadv
    cases hmove with
    | join aq haq hq hq' hd =>
      rw [hq,hq'] at hcount
      have hcount : s'.queued = s.queued + 1 := hcount
      have hmax := hmax aq haq
      have hsize := aq.maxQueueSize.toNat_lt
      have hlow := UInt32.le_iff_toNat_le.mp aq.lowLe
      have hguard : s.Undisturbed gateway (.op i .fetchAdd) ↔ s.queued < (aq.limit r.priority).toNat := by
        rw [← hdepth,← UInt32.lt_iff_toNat_lt]
        simp [Undisturbed,haq,hr]
      have hjoined : s'.DepthKept gateway ↔ s.queued < aq.maxQueueSize.toNat := by
        simp only [DepthKept,haq,Option.mem_def,Option.some.injEq,forall_eq',hd,UInt32.toNat_add,UInt32.toNat_one]
        omega
      have hwithin : s.LowWithin gateway (.op i .fetchAdd) ↔ (r.priority < highPriority → s.queued < aq.lowQueueLimit.toNat) := by
        simp [LowWithin,haq,hr]
      rw [hguard,hjoined,hwithin,AdmissionQueueState.limit]
      split_ifs <;> omega
    | leave hq hq' hd =>
      have hpos := queued_pos hr hq
      rw [hq,hq'] at hcount
      have hcount : s'.queued + 1 = s.queued := hcount
      have hone : (1 : UInt32) ≤ s.cells.queueDepth := UInt32.le_iff_toNat_le.mpr (by simp; omega)
      have hkept : s'.DepthKept gateway := by
        refine ⟨?_,fun aq haq => ?_⟩
        · rw [hd,UInt32.toNat_sub_of_le _ _ hone,UInt32.toNat_one]
          omega
        · have hmax := hmax aq haq
          omega
      exact iff_of_true ⟨hkept,trivial⟩ trivial
    | lose hwait hq' hd =>
      rw [hwait,hq'] at hcount
      have hcount : s'.queued + 1 = s.queued := hcount
      have hlost : ¬ s'.DepthKept gateway := by
        rintro ⟨hdepth',_⟩
        rw [hd] at hdepth'
        omega
      exact iff_of_false (fun hkept => hlost hkept.1) (fun hund => hund r hr hwait)
    | stay hadd hwait hd hq =>
      rw [hq] at hcount
      have hkept : s'.DepthKept gateway := by
        rw [DepthKept,hd,Nat.add_right_cancel hcount]
        exact ⟨hdepth,hmax⟩
      exact iff_of_true ⟨hkept,lowWithin_of_ne hadd⟩ (undisturbed_of_ne hr hadd hwait)

theorem live_step (b : Bucket) {event : AdmissionEvent} (h : step gateway s event = some s') :
    s'.cells.free b + s'.live b = s.cells.free b + s.live b := by
  cases event with
  | arrive priority =>
    obtain ⟨hcells,hcount⟩ := countP_arrive h (AdmissionPhase.holds b) rfl
    rw [live,hcells,hcount]
    rfl
  | op i op =>
    obtain ⟨r,phase',hr,hadv,hcount⟩ := op_cases h
    have hcount : s'.live b + (r.phase.holds b).toNat = s.live b + (phase'.holds b).toNat := hcount (AdmissionPhase.holds b)
    have hfree := free_add_holds b hadv
    omega

/-- Every permit is free or live. -/
theorem free_add_live (b : Bucket) {events : List AdmissionEvent} (hr : (system gateway).run events = some s) :
    s.cells.free b + s.live b = (system gateway).init.cells.free b := by
  refine System.run_inv (fun s => s.cells.free b + s.live b = (system gateway).init.cells.free b) rfl ?_ hr
  intro s event s' hs h
  exact (live_step b h).trans hs

/-- The two allowances of a generation are its cap. -/
theorem free_init {cap : ℕ} (hcap : gateway.maxConcurrentRequests = some cap) (hpos : 0 < cap) :
    (system gateway).init.cells.general + (system gateway).init.cells.reserved = cap := by
  have hfilter : gateway.maxConcurrentRequests.filter (0 < ·) = some cap := by simp [hcap,hpos]
  simp only [system,globalCapOf,hfilter,Option.getD_some]
  split_ifs <;> simp_all

theorem permitsKept {events : List AdmissionEvent} (hr : (system gateway).run events = some s) : s.PermitsKept gateway := by
  intro cap hcap hpos
  have hgeneral : s.cells.general + s.live .general = (system gateway).init.cells.general := free_add_live .general hr
  have hreserved : s.cells.reserved + s.live .reserved = (system gateway).init.cells.reserved := free_add_live .reserved hr
  have hinit := free_init hcap hpos
  rw [livePermits]
  omega

/-- Over every interleaving the permits stay within the cap; the counter is the number of
requests in the queue, within its size, with the low-priority ones within their limit, in
exactly the runs where no request adds itself to a queue that filled up since it looked,
and none is dropped while it waits. -/
theorem queue_kept_iff_undisturbed (gateway : AdmissionConfig) (events : List AdmissionEvent) (s : Admission)
    (hr : (system gateway).run events = some s) :
    (∀ pre post r, events = pre ++ post → (system gateway).run pre = some r → r.PermitsKept gateway) ∧
    ((∀ pre post r, events = pre ++ post → (system gateway).run pre = some r → r.DepthKept gateway) ∧
        (system gateway).Along (LowWithin gateway) events ↔
      (system gateway).Along (Undisturbed gateway) events) := by
  constructor
  · intro pre post r _ hpre
    exact permitsKept hpre
  · refine System.forall_prefix_and_along_iff (DepthKept gateway) ?_ (fun _ _ _ hs h => depthKept_step_iff hs h) hr
    exact ⟨rfl,fun _ _ => Nat.zero_le _⟩

/-- One permit and one place in the queue. -/
private def oneSlot : AdmissionConfig :=
  { maxConcurrentRequests := some 1, admissionQueue := some { enabled := true, maxQueueSize := 1, perPriority := false } }

/-- The first request is admitted; the second finds no permit and the queue empty. -/
private def contended : List AdmissionEvent := [.arrive 0,.op 0 .tryGeneral,.arrive 0,.op 1 .tryGeneral,.op 1 .loadDepth]

/-- The second waits until the first is done. -/
private def handover : List AdmissionEvent :=
  contended ++ [.op 1 .fetchAdd,.op 0 .finish,.op 1 .acquire,.op 1 .fetchSub,.op 1 .finish]

theorem queue_kept_handover : ∃ s, (system oneSlot).run handover = some s ∧ s.cells.queueDepth = 0 ∧ s.DepthKept oneSlot := by
  have hundisturbed : (system oneSlot).Along (Undisturbed oneSlot) handover := System.along_of_alongFrom (by decide)
  have hrun : ∃ s, (system oneSlot).run handover = some s ∧ s.cells.queueDepth = 0 := ⟨_,rfl,rfl⟩
  obtain ⟨s,hs,hdepth⟩ := hrun
  have hkept := ((queue_kept_iff_undisturbed oneSlot _ s hs).2.mpr hundisturbed).1
  exact ⟨s,hs,hdepth,hkept _ [] s (List.append_nil _).symm hs⟩

/-- A client that disconnects while it waits leaves the counter raised, and the next request
is refused by an empty queue; two that look at once both join a queue of one. -/
theorem queue_depth_leaks :
    (∃ s, (system oneSlot).run (contended ++ [.op 1 .fetchAdd,.op 1 .dropped,.arrive 0,.op 2 .tryGeneral,.op 2 .loadDepth]) = some s ∧
      s.queued = 0 ∧ s.cells.queueDepth = 1 ∧ s.requests[2]? = some ⟨0,.done⟩) ∧
    (∃ s, (system oneSlot).run (contended ++ [.arrive 0,.op 2 .tryGeneral,.op 2 .loadDepth,.op 1 .fetchAdd,.op 2 .fetchAdd]) = some s ∧
      s.queued = 2 ∧ (globalCapOf oneSlot).admissionQueue.map (·.maxQueueSize) = some 1) := by
  exact ⟨⟨_,rfl,rfl,rfl,rfl⟩,⟨_,rfl,rfl,rfl⟩⟩

end Admission
end Dwara.Dataplane
