import Dwara.Lib.System
import Mathlib.Logic.Function.Basic
import Mathlib.Data.List.Basic
import Mathlib.Data.Nat.Basic

/-! The leader lease of the controllers that share one SQLite file. Every SQL statement
is a step of its own, so other controllers run between the statements of a call. -/

namespace Dwara.State.LeaderStore
open Dwara.Lib

/-- The single row of `controller_leader`. -/
structure LeaderRow (I : Type*) where
  instanceId : I
  epoch : ℕ
  acquiredAtMs : ℕ
  expiresAtMs : ℕ
  deriving DecidableEq, Repr

structure LeaderLease (I : Type*) where
  instanceId : I
  epoch : ℕ
  expiresAtMs : ℕ
  deriving DecidableEq, Repr

def LeaderRow.lease {I : Type*} (row : LeaderRow I) : LeaderLease I := ⟨row.instanceId,row.epoch,row.expiresAtMs⟩

/-- Holder, epoch and expiry, as an acquisition selects them. -/
abbrev Existing (I : Type*) := Option (I × ℕ × ℕ)

/-- How a call returned. -/
inductive Outcome (I : Type*) where
  | won (lease : LeaderLease I)
  | lost (leaderId : I) (expiresAtMs : ℕ)
  | renewed (lease : LeaderLease I)
  | leaseLost
  | noRow
  | released
  | notHeld
  | failed
  deriving DecidableEq, Repr

/-- The statement a controller's current call runs next. -/
inductive Pc (I : Type*) where
  | idle
  | acquireSelect (now : ℕ)
  | acquireWrite (now : ℕ) (existing : Existing I)
  | renewUpdate (now : ℕ)
  | renewReadBack
  | stepDownDelete
  deriving DecidableEq, Repr

/-- The shared file and clock, each controller's call and last returned lease, and
the winning acquisitions so far. -/
structure Cluster (I : Type*) where
  clock : ℕ
  row : Option (LeaderRow I)
  pc : I → Pc I
  outcome : I → Option (Outcome I)
  held : I → Option (LeaderLease I)
  won : List (I × LeaderLease I)

inductive Label (I : Type*) where
  | tick (clock : ℕ)
  | tryAcquireLeader (i : I)
  | renewLeaderLease (i : I)
  | stepDownLeader (i : I)
  | statement (i : I)
  | busy (i : I)
  deriving DecidableEq, Repr

section Statements
variable {I : Type*} [DecidableEq I]

def selectExisting (row : Option (LeaderRow I)) : Existing I :=
  row.map (fun r => (r.instanceId,r.epoch,r.expiresAtMs))

/-- `UPDATE … SET expires_at_ms WHERE instance_id = i AND expires_at_ms > after`,
where an acquisition leaves the second condition out. -/
def updateExpiry (row : Option (LeaderRow I)) (i : I) (after : Option ℕ) (expiresAtMs : ℕ) : Option (LeaderRow I) :=
  row.map (fun r =>
    if r.instanceId = i ∧ (∀ now ∈ after, now < r.expiresAtMs) then { r with expiresAtMs := expiresAtMs } else r)

/-- Whether the renewal's `UPDATE` finds the row. -/
def renewable (row : Option (LeaderRow I)) (i : I) (now : ℕ) : Prop :=
  ∃ r ∈ row, r.instanceId = i ∧ now < r.expiresAtMs

instance (row : Option (LeaderRow I)) (i : I) (now : ℕ) : Decidable (renewable row i now) :=
  match row with
  | none => isFalse (by simp [renewable])
  | some r => decidable_of_iff (r.instanceId = i ∧ now < r.expiresAtMs) (by simp [renewable])

/-- `DELETE … WHERE instance_id = i`. -/
def deleteRow (row : Option (LeaderRow I)) (i : I) : Option (LeaderRow I) :=
  row.filter (fun r => r.instanceId ≠ i)

/-- The holder that makes an acquisition fail: another instance, still valid. -/
def blockedBy (i : I) (now : ℕ) : Existing I → Option (I × ℕ)
  | some (id,_,expires) => if now < expires ∧ id ≠ i then some (id,expires) else none
  | none => none

/-- The epoch an acquisition wins with: its own row's, else one more than any row's. -/
def winningEpoch (i : I) : Existing I → ℕ
  | some (id,epoch,_) => if id = i then epoch else epoch + 1
  | none => 1

/-- The write of an acquisition: its own row is prolonged, any other is replaced. -/
def acquireRow (row : Option (LeaderRow I)) (i : I) (now expiresAtMs : ℕ) (existing : Existing I) :
    Option (LeaderRow I) :=
  match existing with
  | some (id,_,_) =>
    if id = i then updateExpiry row i none expiresAtMs
    else some ⟨i,winningEpoch i existing,now,expiresAtMs⟩
  | none => some ⟨i,winningEpoch i existing,now,expiresAtMs⟩

/-- The lease a controller holds once a call has returned. -/
def heldAfter (held : Option (LeaderLease I)) : Outcome I → Option (LeaderLease I)
  | .won lease => some lease
  | .renewed lease => some lease
  | .released => none
  | _ => held

def wins (i : I) : Outcome I → List (I × LeaderLease I)
  | .won lease => [(i,lease)]
  | _ => []

namespace Cluster

def goto (s : Cluster I) (i : I) (pc : Pc I) : Cluster I := { s with pc := Function.update s.pc i pc }

def finish (s : Cluster I) (i : I) (row : Option (LeaderRow I)) (o : Outcome I) : Cluster I where
  clock := s.clock
  row := row
  pc := Function.update s.pc i .idle
  outcome := Function.update s.outcome i (some o)
  held := Function.update s.held i (heldAfter (s.held i) o)
  won := s.won ++ wins i o

/-- The next SQL statement of a controller's call. -/
def statement (ttl : I → ℕ) (s : Cluster I) (i : I) : Option (Cluster I) :=
  match s.pc i with
  | .idle => none
  | .acquireSelect now =>
    match blockedBy i now (selectExisting s.row) with
    | some (id,expires) => some (s.finish i s.row (.lost id expires))
    | none => some (s.goto i (.acquireWrite now (selectExisting s.row)))
  | .acquireWrite now existing =>
    some (s.finish i (acquireRow s.row i now (now + ttl i) existing)
      (.won ⟨i,winningEpoch i existing,now + ttl i⟩))
  | .renewUpdate now =>
    if renewable s.row i now then
      some ({ s with row := updateExpiry s.row i (some now) (now + ttl i) }.goto i .renewReadBack)
    else
      some (s.finish i s.row .leaseLost)
  | .renewReadBack =>
    match s.row with
    | some r => some (s.finish i s.row (.renewed r.lease))
    | none => some (s.finish i s.row .noRow)
  | .stepDownDelete =>
    if ∃ r ∈ s.row, r.instanceId = i then
      some (s.finish i (deleteRow s.row i) .released)
    else
      some (s.finish i s.row .notHeld)

/-- A controller's store runs one call at a time, and a call reads the clock first.
A statement that fails ends its call without having touched the file. -/
def step (ttl : I → ℕ) (s : Cluster I) : Label I → Option (Cluster I)
  | .tick clock => if s.clock ≤ clock then some { s with clock := clock } else none
  | .tryAcquireLeader i => if s.pc i = .idle then some (s.goto i (.acquireSelect s.clock)) else none
  | .renewLeaderLease i => if s.pc i = .idle then some (s.goto i (.renewUpdate s.clock)) else none
  | .stepDownLeader i => if s.pc i = .idle then some (s.goto i .stepDownDelete) else none
  | .statement i => s.statement ttl i
  | .busy i => if s.pc i = .idle then none else some (s.finish i s.row .failed)

def init : Cluster I := ⟨0,none,fun _ => .idle,fun _ => none,fun _ => none,[]⟩

end Cluster

/-- Controllers with their lease durations on one fresh file. -/
def cluster (ttl : I → ℕ) : System (Cluster I) (Label I) := ⟨Cluster.init,Cluster.step ttl⟩

end Statements

/-! When leases of different controllers exclude each other and epochs grow with
every change of leader, and the interleavings in which they do not. -/

variable {I : Type*} [DecidableEq I]

/-- No two instances hold leases that are both still valid. -/
def Exclusive (s : Cluster I) : Prop :=
  ∀ i j li lj, s.held i = some li → s.held j = some lj → s.clock < li.expiresAtMs → s.clock < lj.expiresAtMs → i = j

/-- Among winning acquisitions, a later one by another instance has a larger epoch. -/
def EpochsIncrease (s : Cluster I) : Prop :=
  s.won.Pairwise (fun earlier later => earlier.1 ≠ later.1 → earlier.2.epoch < later.2.epoch)

/-- The second statement of a call finds the row its first statement left, and an
acquisition finds no row only if no other instance has ever won. -/
def UndisturbedCall (s : Cluster I) (i : I) : Pc I → Prop
  | .acquireWrite _ existing => selectExisting s.row = existing ∧ (s.row = none → ∀ w ∈ s.won, w.1 = i)
  | .renewReadBack => ∃ r ∈ s.row, r.instanceId = i
  | _ => True

def Undisturbed (s : Cluster I) : Label I → Prop
  | .statement i => UndisturbedCall s i (s.pc i)
  | _ => True

instance (s : Cluster I) (i : I) (p : Pc I) : Decidable (UndisturbedCall s i p) :=
  match p with
  | .acquireWrite _ existing =>
    inferInstanceAs (Decidable (selectExisting s.row = existing ∧ (s.row = none → ∀ w ∈ s.won, w.1 = i)))
  | .renewReadBack => inferInstanceAs (Decidable (∃ r ∈ s.row, r.instanceId = i))
  | .idle | .acquireSelect _ | .renewUpdate _ | .stepDownDelete => isTrue trivial

instance (s : Cluster I) (a : Label I) : Decidable (Undisturbed s a) :=
  match a with
  | .statement i => inferInstanceAs (Decidable (UndisturbedCall s i (s.pc i)))
  | .tick _ | .tryAcquireLeader _ | .renewLeaderLease _ | .stepDownLeader _ | .busy _ => isTrue trivial

namespace Cluster
variable (s : Cluster I) (i : I) (p : Pc I) (row : Option (LeaderRow I)) (o : Outcome I)

@[simp] theorem goto_clock : (s.goto i p).clock = s.clock := rfl
@[simp] theorem goto_row : (s.goto i p).row = s.row := rfl
@[simp] theorem goto_held : (s.goto i p).held = s.held := rfl
@[simp] theorem goto_won : (s.goto i p).won = s.won := rfl
@[simp] theorem goto_pc : (s.goto i p).pc = Function.update s.pc i p := rfl
@[simp] theorem finish_clock : (s.finish i row o).clock = s.clock := rfl
@[simp] theorem finish_row : (s.finish i row o).row = row := rfl
@[simp] theorem finish_held : (s.finish i row o).held = Function.update s.held i (heldAfter (s.held i) o) := rfl
@[simp] theorem finish_won : (s.finish i row o).won = s.won ++ wins i o := rfl
@[simp] theorem finish_pc : (s.finish i row o).pc = Function.update s.pc i .idle := rfl

end Cluster

/-- Everything a step can do. -/
inductive Move (ttl : I → ℕ) (s : Cluster I) : Label I → Cluster I → Prop
  | tick {clock : ℕ} (h : s.clock ≤ clock) : Move ttl s (.tick clock) { s with clock := clock }
  | call {a : Label I} {i : I} {p : Pc I}
      (hp : p = .acquireSelect s.clock ∨ p = .renewUpdate s.clock ∨ p = .stepDownDelete) : Move ttl s a (s.goto i p)
  | select {i : I} {now : ℕ} (hpc : s.pc i = .acquireSelect now)
      (hfree : blockedBy i now (selectExisting s.row) = none) :
      Move ttl s (.statement i) (s.goto i (.acquireWrite now (selectExisting s.row)))
  | write {i : I} {now : ℕ} {existing : Existing I} (hpc : s.pc i = .acquireWrite now existing) :
      Move ttl s (.statement i) (s.finish i (acquireRow s.row i now (now + ttl i) existing)
        (.won ⟨i,winningEpoch i existing,now + ttl i⟩))
  | update {i : I} {now : ℕ} {r : LeaderRow I} (hpc : s.pc i = .renewUpdate now) (hrow : s.row = some r)
      (hi : r.instanceId = i) : Move ttl s (.statement i)
        ({ s with row := some { r with expiresAtMs := now + ttl i } }.goto i .renewReadBack)
  | readBack {i : I} {r : LeaderRow I} (hpc : s.pc i = .renewReadBack) (hrow : s.row = some r) :
      Move ttl s (.statement i) (s.finish i s.row (.renewed r.lease))
  | release {i : I} {r : LeaderRow I} (hrow : s.row = some r) (hi : r.instanceId = i) :
      Move ttl s (.statement i) (s.finish i none .released)
  | giveUp {a : Label I} {i : I} {o : Outcome I} (hheld : ∀ l, heldAfter l o = l) (hwins : wins i o = []) :
      Move ttl s a (s.finish i s.row o)

private theorem statement_move {ttl : I → ℕ} {s s' : Cluster I} {i : I} (h : s.statement ttl i = some s') :
    Move ttl s (.statement i) s' := by
  rw [Cluster.statement] at h
  split at h
  · cases h
  · rename_i now hpc
    split at h
    · cases h
      exact .giveUp (fun _ => rfl) rfl
    · rename_i hfree
      cases h
      exact .select hpc hfree
  · rename_i now existing hpc
    cases h
    exact .write hpc
  · rename_i now hpc
    split at h
    · rename_i hr
      obtain ⟨r,hrow,hi,hvalid⟩ := hr
      cases h
      rw [Option.mem_def] at hrow
      have hupd : updateExpiry s.row i (some now) (now + ttl i) = some { r with expiresAtMs := now + ttl i } := by
        simp [updateExpiry,hrow,hi,hvalid]
      rw [hupd]
      exact .update hpc hrow hi
    · cases h
      exact .giveUp (fun _ => rfl) rfl
  · rename_i hpc
    split at h
    · rename_i r hrow
      cases h
      exact .readBack hpc hrow
    · cases h
      exact .giveUp (fun _ => rfl) rfl
  · rename_i hpc
    split at h
    · rename_i hr
      obtain ⟨r,hrow,hi⟩ := hr
      cases h
      rw [Option.mem_def] at hrow
      have hdel : deleteRow s.row i = none := by simp [deleteRow,hrow,hi]
      rw [hdel]
      exact .release hrow hi
    · cases h
      exact .giveUp (fun _ => rfl) rfl

theorem step_move {ttl : I → ℕ} {s s' : Cluster I} {a : Label I} (h : s.step ttl a = some s') : Move ttl s a s' := by
  cases a with
  | tick clock =>
    simp only [Cluster.step,Option.ite_none_right_eq_some,Option.some.injEq] at h
    obtain ⟨hle,rfl⟩ := h
    exact .tick hle
  | tryAcquireLeader i =>
    simp only [Cluster.step,Option.ite_none_right_eq_some,Option.some.injEq] at h
    obtain ⟨-,rfl⟩ := h
    exact .call (.inl rfl)
  | renewLeaderLease i =>
    simp only [Cluster.step,Option.ite_none_right_eq_some,Option.some.injEq] at h
    obtain ⟨-,rfl⟩ := h
    exact .call (.inr (.inl rfl))
  | stepDownLeader i =>
    simp only [Cluster.step,Option.ite_none_right_eq_some,Option.some.injEq] at h
    obtain ⟨-,rfl⟩ := h
    exact .call (.inr (.inr rfl))
  | statement i => exact statement_move h
  | busy i =>
    simp only [Cluster.step,Option.ite_none_left_eq_some,Option.some.injEq] at h
    obtain ⟨-,rfl⟩ := h
    exact .giveUp (fun _ => rfl) rfl

/-- An acquisition whose row is still the one it selected leaves its own row. -/
theorem acquireRow_selected (row : Option (LeaderRow I)) (i : I) (now expiresAtMs : ℕ) :
    ∃ acquiredAtMs, acquireRow row i now expiresAtMs (selectExisting row) =
      some ⟨i,winningEpoch i (selectExisting row),acquiredAtMs,expiresAtMs⟩ := by
  cases row with
  | none => exact ⟨now,rfl⟩
  | some r =>
    by_cases hi : r.instanceId = i
    · exact ⟨r.acquiredAtMs,by simp [acquireRow,selectExisting,updateExpiry,winningEpoch,hi]⟩
    · exact ⟨now,by simp [acquireRow,selectExisting,winningEpoch,hi]⟩

/-- An acquisition that goes on to write has seen any other holder expired. -/
theorem expired_of_not_blocked {row : Option (LeaderRow I)} {i : I} {now : ℕ}
    (h : blockedBy i now (selectExisting row) = none) {r : LeaderRow I} (hr : row = some r) (hi : r.instanceId ≠ i) :
    r.expiresAtMs ≤ now := by
  simpa [blockedBy,selectExisting,hr,hi] using h

/-- What a call still under way has read stays true of the clock and of its own row. -/
def CallOk (ttl : I → ℕ) (clock : ℕ) (row : Option (LeaderRow I)) (i : I) : Pc I → Prop
  | .acquireSelect now => now ≤ clock
  | .acquireWrite now existing => now ≤ clock ∧ blockedBy i now existing = none
  | .renewUpdate now => now ≤ clock ∧ ∀ r, row = some r → r.instanceId = i → r.expiresAtMs ≤ now + ttl i
  | _ => True

theorem CallOk.frame {ttl : I → ℕ} {clock clock' : ℕ} {row row' : Option (LeaderRow I)} {i : I} {p : Pc I}
    (h : CallOk ttl clock row i p) (hclock : clock ≤ clock')
    (hrow : ∀ r, row' = some r → r.instanceId = i → row = some r) : CallOk ttl clock' row' i p := by
  cases p with
  | acquireSelect now => exact Nat.le_trans h hclock
  | acquireWrite now existing => exact ⟨h.1.trans hclock,h.2⟩
  | renewUpdate now => exact ⟨h.1.trans hclock,fun r hr hi => h.2 r (hrow r hr hi) hi⟩
  | _ => trivial

/-- A lease that has not expired is backed by the row, and the row by a lease
duration counted from a time already passed. -/
structure LeasesBacked (ttl : I → ℕ) (s : Cluster I) : Prop where
  backed : ∀ i l, s.held i = some l →
    l.expiresAtMs ≤ s.clock ∨ ∃ r, s.row = some r ∧ r.instanceId = i ∧ l.expiresAtMs ≤ r.expiresAtMs
  lasting : ∀ r, s.row = some r → r.expiresAtMs ≤ s.clock + ttl r.instanceId
  calls : ∀ i, CallOk ttl s.clock s.row i (s.pc i)

theorem LeasesBacked.exclusive {ttl : I → ℕ} {s : Cluster I} (h : LeasesBacked ttl s) : Exclusive s := by
  intro i j li lj hi hj hvi hvj
  obtain hx | ⟨r,hr,rfl,-⟩ := h.backed i li hi
  · omega
  obtain hx | ⟨r',hr',rfl,-⟩ := h.backed j lj hj
  · omega
  rw [hr] at hr'
  rw [Option.some.inj hr']

private theorem calls_update {ttl : I → ℕ} {s : Cluster I} (h : LeasesBacked ttl s) {i : I} {p : Pc I}
    {row : Option (LeaderRow I)} (hp : CallOk ttl s.clock row i p)
    (hrow : ∀ j, j ≠ i → ∀ r, row = some r → r.instanceId = j → s.row = some r) (j : I) :
    CallOk ttl s.clock row j (Function.update s.pc i p j) := by
  rcases eq_or_ne j i with rfl | hj
  · rwa [Function.update_self]
  · rw [Function.update_of_ne hj]
    exact (h.calls j).frame (Nat.le_refl _) (hrow j hj)

theorem LeasesBacked.step {ttl : I → ℕ} {s s' : Cluster I} {a : Label I} (h : LeasesBacked ttl s)
    (hg : Undisturbed s a) (hm : Move ttl s a s') : LeasesBacked ttl s' := by
  cases hm with
  | @tick clock hle =>
    refine ⟨fun i l hl => ?_,fun r hr => ?_,fun i => (h.calls i).frame hle (fun _ hr _ => hr)⟩
    · exact (h.backed i l hl).imp_left (fun hx => hx.trans hle)
    · exact (h.lasting r hr).trans (Nat.add_le_add_right hle _)
  | @call a i p hp =>
    refine ⟨h.backed,h.lasting,calls_update h ?_ (fun _ _ _ hr _ => hr)⟩
    rcases hp with rfl | rfl | rfl
    · exact Nat.le_refl _
    · exact ⟨Nat.le_refl _,fun r hr hi => hi ▸ h.lasting r hr⟩
    · trivial
  | @select i now hpc hfree =>
    have hcall := h.calls i
    rw [hpc] at hcall
    exact ⟨h.backed,h.lasting,calls_update h ⟨hcall,hfree⟩ (fun _ _ _ hr _ => hr)⟩
  | @write i now existing hpc =>
    have hcall := h.calls i
    rw [hpc] at hcall
    simp only [Undisturbed,UndisturbedCall,hpc] at hg
    obtain ⟨rfl,-⟩ := hg
    obtain ⟨acquiredAtMs,hrow⟩ := acquireRow_selected s.row i now (now + ttl i)
    rw [hrow]
    refine ⟨fun j l hl => ?_,fun r hr => ?_,calls_update h trivial fun j hj r hr hi => ?_⟩
    · rcases eq_or_ne j i with rfl | hj
      · simp only [Cluster.finish_held,Function.update_self,heldAfter,Option.some.injEq] at hl
        exact .inr ⟨_,rfl,rfl,hl ▸ Nat.le_refl _⟩
      · rw [Cluster.finish_held,Function.update_of_ne hj] at hl
        left
        obtain hx | ⟨r,hr,rfl,hlr⟩ := h.backed j l hl
        · exact hx
        · exact (hlr.trans (expired_of_not_blocked hcall.2 hr hj)).trans hcall.1
    · obtain rfl := Option.some.inj hr
      exact Nat.add_le_add_right hcall.1 _
    · obtain rfl := Option.some.inj hr
      exact absurd hi.symm hj
  | @update i now r hpc hrow hi =>
    have hcall := h.calls i
    rw [hpc] at hcall
    have hlonger := hcall.2 r hrow hi
    refine ⟨fun j l hl => ?_,fun r' hr' => ?_,calls_update h trivial fun j hj r' hr' hi' => ?_⟩
    · obtain hx | ⟨r',hr',hj,hlr⟩ := h.backed j l hl
      · exact .inl hx
      · obtain rfl := Option.some.inj (hrow.symm.trans hr')
        exact .inr ⟨_,rfl,hj,hlr.trans hlonger⟩
    · obtain rfl := Option.some.inj hr'
      exact hi ▸ Nat.add_le_add_right hcall.1 _
    · obtain rfl := Option.some.inj hr'
      exact absurd (hi'.symm.trans hi) hj
  | @readBack i r hpc hrow =>
    simp only [Undisturbed,UndisturbedCall,hpc] at hg
    obtain ⟨r',hr',hi⟩ := hg
    obtain rfl := Option.some.inj (hrow.symm.trans (Option.mem_def.mp hr'))
    refine ⟨fun j l hl => ?_,h.lasting,calls_update h trivial (fun _ _ _ hr _ => hr)⟩
    rcases eq_or_ne j i with rfl | hj
    · simp only [Cluster.finish_held,Function.update_self,heldAfter,Option.some.injEq] at hl
      exact .inr ⟨r,hrow,hi,hl ▸ Nat.le_refl _⟩
    · rw [Cluster.finish_held,Function.update_of_ne hj] at hl
      exact h.backed j l hl
  | @release i r hrow hi =>
    refine ⟨fun j l hl => ?_,fun r hr => (nomatch hr),calls_update h trivial (fun _ _ _ hr _ => nomatch hr)⟩
    rcases eq_or_ne j i with rfl | hj
    · simp [heldAfter] at hl
    · rw [Cluster.finish_held,Function.update_of_ne hj] at hl
      left
      obtain hx | ⟨r',hr',hj',-⟩ := h.backed j l hl
      · exact hx
      · obtain rfl := Option.some.inj (hrow.symm.trans hr')
        exact absurd (hj'.symm.trans hi) hj
  | @giveUp a i o hheld hwins =>
    have hsame : Function.update s.held i (heldAfter (s.held i) o) = s.held := by
      rw [hheld,Function.update_eq_self]
    refine ⟨fun j l hl => ?_,h.lasting,calls_update h trivial (fun _ _ _ hr _ => hr)⟩
    rw [Cluster.finish_held,hsame] at hl
    exact h.backed j l hl

/-- The row carries the newest epoch won, and the epochs won so far are in order. -/
structure EpochsLogged (s : Cluster I) : Prop where
  logged : ∀ r, s.row = some r → ∃ w ∈ s.won, w.1 = r.instanceId ∧ w.2.epoch = r.epoch
  newest : ∀ r, s.row = some r → ∀ w ∈ s.won,
    w.2.epoch < r.epoch ∨ (w.2.epoch = r.epoch ∧ w.1 = r.instanceId)
  first : ∀ w ∈ s.won, w.2.epoch ≠ 1 → ∃ v ∈ s.won, v.1 ≠ w.1
  increasing : EpochsIncrease s

omit [DecidableEq I] in
theorem EpochsLogged.frame {s s' : Cluster I} (h : EpochsLogged s) (hwon : s'.won = s.won)
    (hrow : ∀ r', s'.row = some r' → ∃ r, s.row = some r ∧ r.instanceId = r'.instanceId ∧ r.epoch = r'.epoch) :
    EpochsLogged s' := by
  refine ⟨fun r' hr' => ?_,fun r' hr' => ?_,hwon ▸ h.first,?_⟩
  · obtain ⟨r,hr,hi,he⟩ := hrow r' hr'
    rw [← hi,← he,hwon]
    exact h.logged r hr
  · obtain ⟨r,hr,hi,he⟩ := hrow r' hr'
    rw [← hi,← he,hwon]
    exact h.newest r hr
  · rw [EpochsIncrease]
    rw [hwon]
    exact h.increasing

/-- An undisturbed acquisition outranks every earlier winner but itself. -/
theorem EpochsLogged.outranks {s : Cluster I} (h : EpochsLogged s) {i : I}
    (halone : s.row = none → ∀ w ∈ s.won, w.1 = i) :
    ∀ w ∈ s.won, w.2.epoch < winningEpoch i (selectExisting s.row) ∨
      (w.2.epoch = winningEpoch i (selectExisting s.row) ∧ w.1 = i) := by
  intro w hw
  cases hrow : s.row with
  | none =>
    right
    refine ⟨?_,halone hrow w hw⟩
    by_contra hne
    obtain ⟨v,hv,hvw⟩ := h.first w hw hne
    exact hvw ((halone hrow v hv).trans (halone hrow w hw).symm)
  | some r =>
    have hnew := h.newest r hrow w hw
    by_cases hi : r.instanceId = i
    · simpa [winningEpoch,selectExisting,hi] using hnew
    · simp only [winningEpoch,selectExisting,Option.map_some,hi,if_false]
      omega

/-- An epoch other than the first is won over another instance. -/
theorem EpochsLogged.won_over {s : Cluster I} (h : EpochsLogged s) {i : I}
    (hne : winningEpoch i (selectExisting s.row) ≠ 1) : ∃ v ∈ s.won, v.1 ≠ i := by
  cases hrow : s.row with
  | none => simp [hrow,winningEpoch,selectExisting] at hne
  | some r =>
    obtain ⟨w,hw,hwi,hwe⟩ := h.logged r hrow
    by_cases hi : r.instanceId = i
    · have hepoch : w.2.epoch ≠ 1 := by simpa [hrow,winningEpoch,selectExisting,hi,hwe] using hne
      obtain ⟨v,hv,hvw⟩ := h.first w hw hepoch
      exact ⟨v,hv,by rwa [hwi,hi] at hvw⟩
    · exact ⟨w,hw,by rwa [hwi]⟩

theorem EpochsLogged.step {ttl : I → ℕ} {s s' : Cluster I} {a : Label I} (h : EpochsLogged s)
    (hg : Undisturbed s a) (hm : Move ttl s a s') : EpochsLogged s' := by
  cases hm with
  | tick hle => exact h.frame rfl (fun r hr => ⟨r,hr,rfl,rfl⟩)
  | call hp => exact h.frame rfl (fun r hr => ⟨r,hr,rfl,rfl⟩)
  | select hpc hfree => exact h.frame rfl (fun r hr => ⟨r,hr,rfl,rfl⟩)
  | @write i now existing hpc =>
    simp only [Undisturbed,UndisturbedCall,hpc] at hg
    obtain ⟨rfl,halone⟩ := hg
    obtain ⟨acquiredAtMs,hrow⟩ := acquireRow_selected s.row i now (now + ttl i)
    have hrank := h.outranks halone
    rw [hrow]
    refine ⟨fun r hr => ?_,fun r hr w hw => ?_,fun w hw hne => ?_,?_⟩
    · obtain rfl := Option.some.inj hr
      exact ⟨_,List.mem_append_right _ List.mem_cons_self,rfl,rfl⟩
    · obtain rfl := Option.some.inj hr
      rcases List.mem_append.mp hw with hw | hw
      · exact hrank w hw
      · obtain rfl := List.mem_singleton.mp hw
        exact .inr ⟨rfl,rfl⟩
    · rcases List.mem_append.mp hw with hw | hw
      · obtain ⟨v,hv,hvw⟩ := h.first w hw hne
        exact ⟨v,List.mem_append_left _ hv,hvw⟩
      · obtain rfl := List.mem_singleton.mp hw
        obtain ⟨v,hv,hvi⟩ := h.won_over hne
        exact ⟨v,List.mem_append_left _ hv,hvi⟩
    · refine List.pairwise_append.mpr ⟨h.increasing,List.pairwise_singleton _ _,fun w hw v hv hne => ?_⟩
      obtain rfl := List.mem_singleton.mp hv
      exact (hrank w hw).resolve_right (fun heq => hne heq.2)
  | @update i now r hpc hrow hi =>
    refine h.frame rfl fun r' hr' => ?_
    obtain rfl := Option.some.inj hr'
    exact ⟨r,hrow,rfl,rfl⟩
  | readBack hpc hrow => exact h.frame (List.append_nil _) (fun r hr => ⟨r,hr,rfl,rfl⟩)
  | release hrow hi => exact h.frame (List.append_nil _) (fun r hr => nomatch hr)
  | giveUp hheld hwins =>
    refine h.frame ?_ (fun r hr => ⟨r,hr,rfl,rfl⟩)
    rw [Cluster.finish_won,hwins,List.append_nil]

/-- One controller's call with nothing in between. -/
def acquisition (i : ℕ) : List (Label ℕ) := [.tryAcquireLeader i,.statement i,.statement i]

/-- A lease taken, prolonged, and taken over after it has expired. -/
def takeover : List (Label ℕ) :=
  acquisition 0 ++ [.tick 5,.renewLeaderLease 0,.statement 0,.statement 0,.tick 20] ++ acquisition 1

end Dwara.State.LeaderStore
