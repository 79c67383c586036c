import Dwara.Lib.System
import Mathlib.Data.List.Basic

/-! The access-record stream: records are offered from many requests, queued in bounded number, and
flushed in batches by one task. -/

namespace Dwara.Events.Stream
open Lib

def maxRecordBytes : ℕ := 16 * 1024
def maxBatchBytes : ℕ := 2 * 1024 * 1024
def defaultStreamBatchMax : ℕ := 512

inductive Sink where
  | webhook
  | kafka
  deriving DecidableEq, Repr

structure AnalyticsStreamConfig where
  sink : Sink
  batchMax : Option ℕ

structure StreamTargets where
  sinks : List Sink
  batchMax : ℕ

namespace StreamTargets

def empty : StreamTargets := ⟨[],defaultStreamBatchMax⟩

/-- A sink that does not compile is left out. -/
def compile (compiles : Bool) : Option AnalyticsStreamConfig → StreamTargets
  | none => empty
  | some cfg => ⟨if compiles then [cfg.sink] else [],cfg.batchMax.getD defaultStreamBatchMax⟩

theorem length_sinks_compile (compiles : Bool) (cfg : Option AnalyticsStreamConfig) : (compile compiles cfg).sinks.length ≤ 1 := by
  cases cfg with
  | none => exact Nat.zero_le _
  | some cfg => cases compiles <;> simp [compile]

end StreamTargets

structure Batcher where
  lines : List UInt8
  records : ℕ
  deriving DecidableEq

namespace Batcher

def new : Batcher := ⟨[],0⟩

def push (b : Batcher) (line : List UInt8) : Batcher := ⟨b.lines ++ line,b.records + 1⟩

def shouldFlush (b : Batcher) (batchMax : ℕ) : Bool := batchMax ≤ b.records || maxBatchBytes ≤ b.lines.length

def take (b : Batcher) : Option (List UInt8 × ℕ) := if b.records = 0 then none else some (b.lines,b.records)

end Batcher

/-- Where the flusher stands. A last delivery is the one behind which it stops. -/
inductive Phase where
  | waiting (batchMax : ℕ)
  | delivering (body : List UInt8) (records : ℕ) (sinks : List Sink) (last : Bool)
  | draining
  | stopped

/-- The stream with its flusher, and what the flusher counts. What was queued and the bodies that
were taken from the batch are kept for the record. -/
structure Pipeline (ρ : Type*) where
  capacity : ℕ
  queue : List ρ
  enabled : Bool
  targets : StreamTargets
  batch : Batcher
  phase : Phase
  offered : ℕ
  dropped : ℕ
  delivered : ℕ
  failed : ℕ
  droppedLate : ℕ
  accepted : List ρ
  bodies : List (List UInt8 × Bool)

inductive Action (ρ : Type*) where
  | offer (r : ρ)
  | setEnabled (on : Bool)
  | retarget (cfg : Option AnalyticsStreamConfig) (compiles : Bool)
  | recv
  | tick
  | deliver (accepted : Bool)
  | shutdown
  | drain

section Flusher
variable {ρ : Type*} (line : ρ → List UInt8)

namespace Pipeline
variable (s : Pipeline ρ)

def withCapacity (capacity : ℕ) : Pipeline ρ where
  capacity := max capacity 1
  queue := []
  enabled := false
  targets := .empty
  batch := .new
  phase := .waiting defaultStreamBatchMax
  offered := 0
  dropped := 0
  delivered := 0
  failed := 0
  droppedLate := 0
  accepted := []
  bodies := []

/-- At the head of its loop again, or stopped behind its last flush. -/
def next (last : Bool) : Pipeline ρ := { s with phase := if last then .stopped else .waiting (max s.targets.batchMax 1) }

/-- A record over the bound is dropped, never cut. -/
def pushRecord (r : ρ) : Pipeline ρ :=
  if maxRecordBytes < (line r).length then { s with droppedLate := s.droppedLate + 1 } else { s with batch := s.batch.push (line r) }

/-- With no sink the batch is dropped. -/
def flush (last : Bool) : Pipeline ρ :=
  match s.batch.take with
  | none => s.next last
  | some (body,records) =>
    let s := { s with batch := .new, bodies := s.bodies ++ [(body,last)] }
    if s.targets.sinks = [] then { s with droppedLate := s.droppedLate + records }.next last
    else { s with phase := .delivering body records s.targets.sinks last }

end Pipeline

def step (s : Pipeline ρ) : Action ρ → Option (Pipeline ρ)
  | .offer r =>
    if ! s.enabled then some s
    else
      match s.phase with
      | .stopped => some { s with dropped := s.dropped + 1 }
      | _ =>
        if s.capacity ≤ s.queue.length then some { s with dropped := s.dropped + 1 }
        else some { s with queue := s.queue ++ [r], offered := s.offered + 1, accepted := s.accepted ++ [r] }
  | .setEnabled on => some { s with enabled := on }
  | .retarget cfg compiles => some { s with targets := .compile compiles cfg }
  | .recv =>
    match s.phase, s.queue with
    | .waiting batchMax, r :: queue =>
      let s := { s with queue := queue }.pushRecord line r
      some (if s.batch.shouldFlush batchMax then s.flush false else s.next false)
    | _, _ => none
  | .tick =>
    match s.phase with
    | .waiting _ => some (s.flush false)
    | _ => none
  | .deliver accepted =>
    match s.phase with
    | .delivering body records (_ :: sinks) last =>
      let s := if accepted then { s with delivered := s.delivered + records } else { s with failed := s.failed + records }
      some (if sinks = [] then s.next last else { s with phase := .delivering body records sinks last })
    | _ => none
  | .shutdown =>
    match s.phase with
    | .waiting _ => some { s with phase := .draining }
    | _ => none
  | .drain =>
    match s.phase, s.queue with
    | .draining, r :: queue => some ({ s with queue := queue }.pushRecord line r)
    | .draining, [] => some (s.flush true)
    | _, _ => none

def pipeline (capacity : ℕ) : System (Pipeline ρ) (Action ρ) where
  init := .withCapacity capacity
  step := step line

end Flusher

section Accounts
variable {ρ : Type*} (line : ρ → List UInt8)

/-- The lines of the records that are not over the bound. -/
def linesOf (records : List ρ) : List UInt8 := ((records.filter fun r => (line r).length ≤ maxRecordBytes).map line).flatten

theorem linesOf_append (xs ys : List ρ) : linesOf line (xs ++ ys) = linesOf line xs ++ linesOf line ys := by
  simp [linesOf]

/-- The records of a delivery under way. -/
def Phase.records : Phase → ℕ
  | .delivering _ records _ _ => records
  | _ => 0

/-- Every record that was queued is delivered, failed, dropped or still under way, and the bytes of
those that fit go out in the order of the queue. -/
structure Books (s : Pipeline ρ) (underway : ℕ) : Prop where
  offered : s.offered = s.accepted.length
  balance : s.offered = s.delivered + s.failed + s.droppedLate + underway + s.batch.records + s.queue.length
  bytes : (s.bodies.map (·.1)).flatten ++ s.batch.lines ++ linesOf line s.queue = linesOf line s.accepted
  capacity : s.queue.length ≤ s.capacity
  sinks : s.targets.sinks.length ≤ 1
  empty : s.batch.records = 0 → s.batch.lines = []
  bodies : ∀ q ∈ s.bodies, q.2 = false → q.1.length < maxBatchBytes + maxRecordBytes

structure Accounts (s : Pipeline ρ) : Prop where
  books : Books line s s.phase.records
  one : ∀ body records sinks last, s.phase = .delivering body records sinks last → sinks.length = 1 ∧ s.batch = .new
  bounded : ∀ batchMax, s.phase = .waiting batchMax → s.batch.lines.length < maxBatchBytes
  stopped : s.phase = .stopped → s.batch = .new

end Accounts

section Steps
variable {ρ : Type*} {line : ρ → List UInt8} {s s' : Pipeline ρ} {n : ℕ}

theorem Batcher.eq_new {b : Batcher} (hrecords : b.records = 0) (hlines : b.lines = []) : b = .new := by
  cases b
  cases hrecords
  cases hlines
  rfl

theorem Books.next (h : Books line s 0) {last : Bool} (hbounded : last = false → s.batch.lines.length < maxBatchBytes)
    (hstopped : last = true → s.batch = .new) : Accounts line (s.next last) := by
  cases last with
  | false =>
    refine ⟨⟨h.offered,h.balance,h.bytes,h.capacity,h.sinks,h.empty,h.bodies⟩,?_,?_,?_⟩
    · intro _ _ _ _ hphase
      cases hphase
    · exact fun _ _ => hbounded rfl
    · intro hphase
      cases hphase
  | true =>
    refine ⟨⟨h.offered,h.balance,h.bytes,h.capacity,h.sinks,h.empty,h.bodies⟩,?_,?_,?_⟩
    · intro _ _ _ _ hphase
      cases hphase
    · intro _ hphase
      cases hphase
    · exact fun _ => hstopped rfl

theorem Books.pushRecord (h : Books line s n) {r : ρ} {queue : List ρ} (hqueue : s.queue = r :: queue) :
    Books line ({ s with queue := queue }.pushRecord line r) n := by
  have hcapacity := h.capacity
  have hbalance := h.balance
  have hbytes := h.bytes
  rw [hqueue,List.length_cons] at hcapacity hbalance
  rw [hqueue,← List.singleton_append,linesOf_append] at hbytes
  unfold Pipeline.pushRecord
  split
  · rename_i hlong
    have hline : linesOf line [r] = [] := by
      rw [linesOf,List.filter_cons_of_neg (by simpa using hlong)]
      rfl
    rw [hline,List.nil_append] at hbytes
    refine ⟨h.offered,?_,hbytes,?_,h.sinks,h.empty,h.bodies⟩
    · simp only
      omega
    · simp only
      omega
  · rename_i hfits
    have hline : linesOf line [r] = line r := by
      rw [linesOf,List.filter_cons_of_pos (by simpa using hfits)]
      simp
    rw [hline] at hbytes
    refine ⟨h.offered,?_,?_,?_,h.sinks,?_,h.bodies⟩
    · simp only [Batcher.push]
      omega
    · simp only [Batcher.push, List.append_assoc] at hbytes ⊢
      exact hbytes
    · simp only
      omega
    · intro hzero
      exact absurd hzero (Nat.succ_ne_zero _)

theorem lines_pushRecord_le (r : ρ) (queue : List ρ) :
    ({ s with queue := queue }.pushRecord line r).batch.lines.length ≤ s.batch.lines.length + maxRecordBytes := by
  unfold Pipeline.pushRecord
  split
  · exact Nat.le_add_right _ _
  · simp only [Batcher.push, List.length_append]
    omega

theorem Books.flush (h : Books line s 0) {last : Bool} (hlen : last = false → s.batch.lines.length < maxBatchBytes + maxRecordBytes) :
    Accounts line (s.flush last) := by
  unfold Pipeline.flush Batcher.take
  by_cases hzero : s.batch.records = 0
  · have hnew := Batcher.eq_new hzero (h.empty hzero)
    rw [if_pos hzero]
    refine h.next (fun _ => ?_) (fun _ => hnew)
    rw [hnew]
    exact Nat.two_pow_pos 21
  · rw [if_neg hzero]
    have hbodies : ∀ q ∈ s.bodies ++ [(s.batch.lines,last)], q.2 = false → q.1.length < maxBatchBytes + maxRecordBytes := by
      intro q hq hlast
      rcases List.mem_append.mp hq with hq | hq
      · exact h.bodies q hq hlast
      · rw [List.mem_singleton.mp hq] at hlast ⊢
        exact hlen hlast
    have hbytes : ((s.bodies ++ [(s.batch.lines,last)]).map (·.1)).flatten ++ [] ++ linesOf line s.queue = linesOf line s.accepted := by
      rw [← h.bytes]
      simp
    have hbalance := h.balance
    simp only
    split
    · have hbooks : Books line { s with
          batch := .new, bodies := s.bodies ++ [(s.batch.lines,last)], droppedLate := s.droppedLate + s.batch.records } 0 := by
        refine ⟨h.offered,?_,hbytes,h.capacity,h.sinks,fun _ => rfl,hbodies⟩
        simp only [Batcher.new]
        omega
      exact hbooks.next (fun _ => Nat.two_pow_pos 21) (fun _ => rfl)
    · rename_i hsinks
      refine ⟨⟨h.offered,?_,hbytes,h.capacity,h.sinks,fun _ => rfl,hbodies⟩,?_,?_,?_⟩
      · simp only [Phase.records, Batcher.new]
        omega
      · intro body records sinks last' hphase
        cases hphase
        have hpos := List.length_pos_iff.mpr hsinks
        exact ⟨Nat.le_antisymm h.sinks hpos,rfl⟩
      · intro _ hphase
        cases hphase
      · intro hphase
        cases hphase

/-- What is kept by a step of the requests or of the configuration. -/
theorem Accounts.of_same (h : Accounts line s) (hbooks : Books line s' s'.phase.records) (hphase : s'.phase = s.phase)
    (hbatch : s'.batch = s.batch) : Accounts line s' := by
  refine ⟨hbooks,?_,?_,?_⟩
  · rw [hphase,hbatch]
    exact h.one
  · rw [hphase,hbatch]
    exact h.bounded
  · rw [hphase,hbatch]
    exact h.stopped

/-- A queue with room takes one more record. -/
theorem Books.accept (h : Books line s n) (hroom : s.queue.length < s.capacity) (r : ρ) :
    Books line { s with queue := s.queue ++ [r], offered := s.offered + 1, accepted := s.accepted ++ [r] } n := by
  have hbalance := h.balance
  refine ⟨?_,?_,?_,?_,h.sinks,h.empty,h.bodies⟩
  · simp only [List.length_append, List.length_singleton, h.offered]
  · simp only [List.length_append, List.length_singleton]
    omega
  · simp only [linesOf_append, ← h.bytes, List.append_assoc]
  · simp only [List.length_append, List.length_singleton]
    omega

theorem Accounts.offer {r : ρ} (h : Accounts line s) (hs : Stream.step line s (.offer r) = some s') : Accounts line s' := by
  simp only [Stream.step] at hs
  split at hs
  · obtain rfl := Option.some.inj hs
    exact h
  · split at hs
    · obtain rfl := Option.some.inj hs
      exact h.of_same { h.books with } rfl rfl
    · split at hs
      · obtain rfl := Option.some.inj hs
        exact h.of_same { h.books with } rfl rfl
      · rename_i hroom
        obtain rfl := Option.some.inj hs
        exact h.of_same (h.books.accept (by omega) r) rfl rfl

theorem Accounts.recv (h : Accounts line s) (hs : Stream.step line s .recv = some s') : Accounts line s' := by
  simp only [Stream.step] at hs
  split at hs
  · rename_i batchMax r queue hphase hqueue
    have hbooks := h.books
    rw [hphase] at hbooks
    have hpushed := hbooks.pushRecord hqueue
    have hlen : ({ s with queue := queue }.pushRecord line r).batch.lines.length < maxBatchBytes + maxRecordBytes :=
      Nat.lt_of_le_of_lt (lines_pushRecord_le r queue) (Nat.add_lt_add_right (h.bounded batchMax hphase) _)
    split at hs
    · obtain rfl := Option.some.inj hs
      exact hpushed.flush fun _ => hlen
    · rename_i hflush
      obtain rfl := Option.some.inj hs
      refine hpushed.next (fun _ => ?_) (fun h => absurd h (by decide))
      simp only [Batcher.shouldFlush, Bool.or_eq_true, decide_eq_true_eq, not_or] at hflush
      exact Nat.lt_of_not_le hflush.2
  · cases hs

theorem Accounts.deliver {accepted : Bool} (h : Accounts line s) (hs : Stream.step line s (.deliver accepted) = some s') :
    Accounts line s' := by
  simp only [Stream.step] at hs
  split at hs
  · rename_i body records sink sinks last hphase
    obtain ⟨hone,hnew⟩ := h.one _ _ _ _ hphase
    obtain rfl : sinks = [] := List.length_eq_zero_iff.mp (Nat.succ.inj hone)
    have hbooks := h.books
    have hbalance := h.books.balance
    rw [hphase] at hbalance
    simp only [Phase.records] at hbalance
    have hsettled : ∀ delivered failed, delivered + failed = s.delivered + s.failed + records →
        Accounts line ({ s with delivered := delivered, failed := failed }.next last) := by
      intro delivered failed hsum
      have hbooks : Books line { s with delivered := delivered, failed := failed } 0 :=
        { h.books with balance := by simp only; omega }
      exact hbooks.next (fun _ => by rw [hnew]; exact Nat.two_pow_pos 21) (fun _ => hnew)
    cases accepted with
    | true =>
      obtain rfl := Option.some.inj hs
      exact hsettled (s.delivered + records) s.failed (by omega)
    | false =>
      obtain rfl := Option.some.inj hs
      exact hsettled s.delivered (s.failed + records) (by omega)
  · cases hs

theorem Accounts.drain (h : Accounts line s) (hs : Stream.step line s .drain = some s') : Accounts line s' := by
  simp only [Stream.step] at hs
  split at hs
  · rename_i r queue hphase hqueue
    obtain rfl := Option.some.inj hs
    have hbooks := h.books
    rw [hphase] at hbooks
    have hpushed := hbooks.pushRecord hqueue
    have hstays : ({ s with queue := queue }.pushRecord line r).phase = .draining := by
      unfold Pipeline.pushRecord
      split <;> exact hphase
    refine ⟨by rw [hstays]; exact hpushed,?_,?_,?_⟩
    · intro _ _ _ _ hphase'
      rw [hstays] at hphase'
      cases hphase'
    · intro _ hphase'
      rw [hstays] at hphase'
      cases hphase'
    · intro hphase'
      rw [hstays] at hphase'
      cases hphase'
  · rename_i hphase hqueue
    obtain rfl := Option.some.inj hs
    have hbooks := h.books
    rw [hphase] at hbooks
    exact hbooks.flush fun h => absurd h (by decide)
  · cases hs

theorem Accounts.step {a : Action ρ} (h : Accounts line s) (hs : Stream.step line s a = some s') : Accounts line s' := by
  cases a with
  | offer r => exact h.offer hs
  | setEnabled on =>
    obtain rfl := Option.some.inj hs
    exact h.of_same { h.books with } rfl rfl
  | retarget cfg compiles =>
    obtain rfl := Option.some.inj hs
    exact h.of_same { h.books with sinks := StreamTargets.length_sinks_compile compiles cfg } rfl rfl
  | recv => exact h.recv hs
  | tick =>
    simp only [Stream.step] at hs
    split at hs
    · rename_i batchMax hphase
      obtain rfl := Option.some.inj hs
      have hbooks := h.books
      rw [hphase] at hbooks
      exact hbooks.flush fun _ => Nat.lt_of_lt_of_le (h.bounded batchMax hphase) (Nat.le_add_right _ _)
    · cases hs
  | deliver accepted => exact h.deliver hs
  | shutdown =>
    simp only [Stream.step] at hs
    split at hs
    · rename_i batchMax hphase
      obtain rfl := Option.some.inj hs
      have hbooks := h.books
      rw [hphase] at hbooks
      refine ⟨{ hbooks with },?_,?_,?_⟩
      · intro _ _ _ _ hphase'
        cases hphase'
      · intro _ hphase'
        cases hphase'
      · intro hphase'
        cases hphase'
    · cases hs
  | drain => exact h.drain hs

theorem accounts_init (capacity : ℕ) : Accounts line (pipeline line capacity : System (Pipeline ρ) (Action ρ)).init := by
  have hbooks : Books line (Pipeline.withCapacity capacity : Pipeline ρ) 0 :=
    ⟨rfl,rfl,rfl,Nat.zero_le _,Nat.zero_le _,fun _ => rfl,by simp [Pipeline.withCapacity]⟩
  refine ⟨hbooks,?_,fun _ _ => Nat.two_pow_pos 21,fun _ => rfl⟩
  intro _ _ _ _ hphase
  cases hphase

theorem accounts_run {capacity : ℕ} {as : List (Action ρ)} (hr : (pipeline line capacity).run as = some s) : Accounts line s :=
  System.run_inv (Accounts line) (accounts_init capacity) (fun _ _ _ h hs => h.step hs) hr

/-- Three offers to a queue of two, of which the batch of two is delivered. -/
def twoOfThree : List (Action ℕ) :=
  [.retarget (some ⟨.webhook,some 2⟩) true,.setEnabled true,.offer 1,.offer 2,.offer 3,.recv,.recv,.deliver true,.offer 4]

theorem accounts_run_two : ∃ s, (pipeline (fun n : ℕ => [n.toUInt8,10]) 2).run twoOfThree = some s ∧ s.offered = 3 ∧ s.dropped = 1 ∧
    s.bodies = [([1,10,2,10],false)] ∧ Accounts (fun n : ℕ => [n.toUInt8,10]) s := by
  have h : ∃ s, (pipeline (fun n : ℕ => [n.toUInt8,10]) 2).run twoOfThree = some s ∧ s.offered = 3 ∧ s.dropped = 1 ∧
      s.bodies = [([1,10,2,10],false)] := ⟨_,rfl,rfl,rfl,rfl⟩
  obtain ⟨s,hr,hoffered,hdropped,hbodies⟩ := h
  exact ⟨s,hr,hoffered,hdropped,hbodies,accounts_run hr⟩

/-- Once the flusher has stopped, what it did not read from the queue is all that is not accounted for. -/
theorem stopped_accounts {capacity : ℕ} {as : List (Action ρ)} (hr : (pipeline line capacity).run as = some s) (hstopped : s.phase = .stopped) :
    s.offered = s.delivered + s.failed + s.droppedLate + s.queue.length ∧
      (s.bodies.map (·.1)).flatten ++ linesOf line s.queue = linesOf line s.accepted := by
  have h := System.run_inv (Accounts line) (accounts_init capacity) (fun _ _ _ h hs => h.step hs) hr
  have hbalance := h.books.balance
  have hbytes := h.books.bytes
  rw [hstopped,h.stopped hstopped] at hbalance
  rw [h.stopped hstopped] at hbytes
  simp only [Phase.records, Batcher.new] at hbalance
  refine ⟨by omega,?_⟩
  rw [← hbytes]
  simp [Batcher.new]

end Steps
end Dwara.Events.Stream
