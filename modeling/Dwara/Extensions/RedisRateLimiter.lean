import Dwara.Lib.Gcra
import Mathlib.Data.PNat.Basic

/-! The distributed rate limiter: the script every gateway runs in Redis, and the
windows it is run for. Times are nanoseconds. -/

namespace Dwara.Extensions.RedisRateLimiter
open Dwara.Lib

/-- One configured window: `requests` per `window`, and an optional bucket size. -/
structure GcraWindowSpec where
  requests : ℕ+
  window : ℕ
  burst : Option ℕ+

/-- One stacked window. The tolerance is always worth exactly `burst` emissions. -/
structure RedisWindow where
  emissionIntervalNs : ℕ
  burstToleranceNs : ℕ
  burst : ℕ
  fullRefillMs : ℕ
  interval_pos : 1 ≤ emissionIntervalNs
  tolerance_eq : burstToleranceNs = emissionIntervalNs * burst

def RedisWindow.ofSpec (spec : GcraWindowSpec) : RedisWindow where
  emissionIntervalNs := max (spec.window / spec.requests) 1
  burstToleranceNs := max (spec.window / spec.requests) 1 * (spec.burst.getD spec.requests : ℕ+)
  burst := (spec.burst.getD spec.requests : ℕ+)
  fullRefillMs := max (spec.window / spec.requests) 1 * (spec.burst.getD spec.requests : ℕ+) / 1000000
  interval_pos := le_max_right _ _
  tolerance_eq := rfl

/-- The windows of a rule, shortest first. -/
def buildWindows (specs : List GcraWindowSpec) : List RedisWindow :=
  (specs.mergeSort (fun a b => a.window ≤ b.window)).map RedisWindow.ofSpec

/-- `math.ceil(a / b)` on exact integers. -/
def ceilDiv (a b : ℤ) : ℤ := -(-a / b)

/-- The script's reply `{allowed, remaining, retry_after_ms}`. -/
structure Reply where
  allowed : Bool
  remaining : ℤ
  retryAfterMs : ℤ
  deriving DecidableEq, Repr

/-- What the script writes: `HMSET tat` and the seconds of its `EXPIRE`. -/
structure Write where
  tat : ℤ
  expireS : ℤ
  deriving DecidableEq, Repr

/-- The script, from the stored `tat` (if the key exists) to its write and its reply. -/
def gcraLua (interval burst cost now ttl : ℤ) (tat : Option ℤ) : Option Write × Reply :=
  let tat := tat.getD now
  let newTat := max tat now + interval * cost
  let allowAt := newTat - burst
  if allowAt ≤ now then
    (some ⟨newTat,max (ceilDiv burst 1000000000 + 1) ttl⟩,⟨true,(burst - (newTat - now)) / interval,0⟩)
  else
    (none,⟨false,0,ceilDiv (allowAt - now) 1000000⟩)

/-- A stored key, readable until its deadline on the clock of the server. -/
structure Cell where
  tat : ℤ
  expiresAt : ℤ
  deriving DecidableEq, Repr

/-- One run of the script: the time and the cost a gateway passes in. -/
structure Call where
  now : ℕ
  cost : ℕ
  deriving DecidableEq, Repr

def RedisWindow.script (w : RedisWindow) (keyTtlS : ℕ) (call : Call) (tat : Option ℤ) : Option Write × Reply :=
  gcraLua w.emissionIntervalNs w.burstToleranceNs call.cost call.now keyTtlS tat

/-- The key as the server sees it at `clock`: an expired key is gone. -/
def readable (clock : ℕ) (key : Option Cell) : Option Cell := key.filter (fun cell => (clock : ℤ) < cell.expiresAt)

/-- The key of one window on the server. Each call comes with the server's clock. -/
def keyed (w : RedisWindow) (keyTtlS : ℕ) : Machine (Option Cell) (ℕ × Call) Reply where
  step key call :=
    let key := readable call.1 key
    match w.script keyTtlS call.2 (key.map (·.tat)) with
    | (some write,reply) => (some ⟨write.tat,call.1 + write.expireS * 1000000000⟩,reply)
    | (none,reply) => (key,reply)

/-- The same key if nothing ever expired. -/
def forever (w : RedisWindow) (keyTtlS : ℕ) : Machine (Option ℤ) Call Reply where
  step tat call :=
    match w.script keyTtlS call tat with
    | (some write,reply) => (some write.tat,reply)
    | (none,reply) => (tat,reply)

/-- The calls of a run with their replies. -/
def exchanges (w : RedisWindow) (keyTtlS : ℕ) (calls : List (ℕ × Call)) : List (Call × Reply) :=
  ((keyed w keyTtlS).trace none calls).map (fun t => (t.input.2,t.output))

def exchangesForever (w : RedisWindow) (keyTtlS : ℕ) (calls : List Call) : List (Call × Reply) :=
  ((forever w keyTtlS).trace none calls).map (fun t => (t.input,t.output))

/-- The cost let through by calls stamped from `s` to `t`. -/
def admittedCost (s t : ℕ) (xs : List (Call × Reply)) : ℕ :=
  ((xs.filter (fun x => x.2.allowed && decide (s ≤ x.1.now) && decide (x.1.now ≤ t))).map (·.1.cost)).sum

/-- Stamps never decrease in the order the script is run. -/
def Clocked (calls : List Call) : Prop := calls.Pairwise (fun a b => a.now ≤ b.now)

/-- Stamps never decrease, and between two runs of the script the server's clock
advances at most a second more than the stamps. -/
def InStep (calls : List (ℕ × Call)) : Prop :=
  calls.Pairwise (fun a b => a.2.now ≤ b.2.now ∧ b.1 + a.2.now ≤ a.1 + b.2.now + 1000000000)

/-- Stamps and server read one clock. -/
def ownClock (calls : List Call) : List (ℕ × Call) := calls.map (fun c => (c.now,c))

end Dwara.Extensions.RedisRateLimiter

/-! The script never lets through more than the configured rate, and the expiry of
its key changes no reply. -/

namespace Dwara.Extensions.RedisRateLimiter
open Dwara.Lib

variable {w : RedisWindow} {keyTtlS : ℕ}

/-- One call as an arrival of the cell rate algorithm. -/
def arrival (w : RedisWindow) (call : Call) : Gcra.Arrival ℤ := ⟨call.now,w.emissionIntervalNs * call.cost⟩

/-- What the script decides, in the terms of the cell rate algorithm. -/
theorem script_eq (w : RedisWindow) (keyTtlS : ℕ) (call : Call) (tat : Option ℤ) :
    w.script keyTtlS call tat =
      if Gcra.newTat tat (arrival w call) - w.burstToleranceNs ≤ call.now then
        (some ⟨Gcra.newTat tat (arrival w call),max (ceilDiv w.burstToleranceNs 1000000000 + 1) keyTtlS⟩,
          ⟨true,(w.burstToleranceNs - (Gcra.newTat tat (arrival w call) - call.now)) / w.emissionIntervalNs,0⟩)
      else
        (none,⟨false,0,ceilDiv (Gcra.newTat tat (arrival w call) - w.burstToleranceNs - call.now) 1000000⟩) := rfl

/-- A stored time that has been reached is as good as no key. -/
theorem script_reached {call : Call} {tat : ℤ} (h : tat ≤ call.now) :
    w.script keyTtlS call (some tat) = w.script keyTtlS call none := by
  have hnew : Gcra.newTat (some tat) (arrival w call) = Gcra.newTat none (arrival w call) := Gcra.newTat_of_le h
  rw [script_eq,script_eq,hnew]

/-- What is written lies at most the tolerance ahead, and outlives it by a second. -/
theorem script_write {call : Call} {tat : Option ℤ} {write : Write} {reply : Reply}
    (h : w.script keyTtlS call tat = (some write,reply)) :
    write.tat ≤ call.now + w.burstToleranceNs ∧
      (w.burstToleranceNs : ℤ) + 1000000000 ≤ write.expireS * 1000000000 := by
  rw [script_eq] at h
  split at h
  · rename_i hok
    obtain ⟨rfl,-⟩ := Prod.mk.inj h |>.imp_left Option.some.inj
    refine ⟨by simpa only [sub_le_iff_le_add] using hok,?_⟩
    have hlong : ceilDiv w.burstToleranceNs 1000000000 + 1 ≤
        max (ceilDiv w.burstToleranceNs 1000000000 + 1) keyTtlS := le_max_left _ _
    have hceil : (w.burstToleranceNs : ℤ) ≤ ceilDiv w.burstToleranceNs 1000000000 * 1000000000 := by
      rw [ceilDiv]
      omega
    simp only
    linarith
  · simp at h

theorem keyed_step (key : Option Cell) (call : ℕ × Call) {write : Option Write} {reply : Reply}
    (h : w.script keyTtlS call.2 ((readable call.1 key).map (·.tat)) = (write,reply)) :
    (keyed w keyTtlS).next key call =
        (match write with
          | some write => some ⟨write.tat,call.1 + write.expireS * 1000000000⟩
          | none => readable call.1 key) ∧
      (keyed w keyTtlS).answer key call = reply := by
  cases write <;> simp [Machine.next,Machine.answer,keyed,h]

theorem forever_step (tat : Option ℤ) (call : Call) {write : Option Write} {reply : Reply}
    (h : w.script keyTtlS call tat = (write,reply)) :
    (forever w keyTtlS).next tat call = (match write with | some write => some write.tat | none => tat) ∧
      (forever w keyTtlS).answer tat call = reply := by
  cases write <;> simp [Machine.next,Machine.answer,forever,h]

/-- The server's key agrees with one that never expires: either they hold the same
time, and every call that misses it has reached it, or the server holds none and
every call has reached the other. -/
def Agrees (rest : List (ℕ × Call)) (key : Option Cell) (tat : Option ℤ) : Prop :=
  match key with
  | some cell => tat = some cell.tat ∧ ∀ c ∈ rest, cell.expiresAt ≤ c.1 → cell.tat ≤ c.2.now
  | none => ∀ stored, tat = some stored → ∀ c ∈ rest, stored ≤ c.2.now

theorem Agrees.tail {c : ℕ × Call} {rest : List (ℕ × Call)} {key : Option Cell} {tat : Option ℤ}
    (h : Agrees (c :: rest) key tat) : Agrees rest key tat := by
  cases key with
  | some cell => exact ⟨h.1,fun b hb => h.2 b (List.mem_cons_of_mem _ hb)⟩
  | none => exact fun stored hs b hb => h stored hs b (List.mem_cons_of_mem _ hb)

/-- An expired key is dropped with its time reached for good. -/
theorem Agrees.readable {c : ℕ × Call} {rest : List (ℕ × Call)} {key : Option Cell} {tat : Option ℤ}
    (hc : InStep (c :: rest)) (h : Agrees (c :: rest) key tat) :
    Agrees (c :: rest) (readable c.1 key) tat := by
  cases key with
  | none => exact h
  | some cell =>
    by_cases hlive : (c.1 : ℤ) < cell.expiresAt
    · have hstays : RedisRateLimiter.readable c.1 (some cell) = some cell := by
        simp [RedisRateLimiter.readable,hlive]
      rwa [hstays]
    · have hgone : RedisRateLimiter.readable c.1 (some cell) = none := by
        simpa [RedisRateLimiter.readable] using hlive
      rw [hgone]
      rintro stored hs b hb
      obtain rfl : cell.tat = stored := Option.some.inj (h.1.symm.trans hs)
      have hreached := h.2 c List.mem_cons_self (not_lt.mp hlive)
      rcases List.mem_cons.mp hb with rfl | hb
      · exact hreached
      · have := ((List.pairwise_cons.mp hc).1 b hb).1
        omega

/-- Agreeing keys get one answer from the script. -/
theorem Agrees.script_eq {c : ℕ × Call} {rest : List (ℕ × Call)} {key : Option Cell} {tat : Option ℤ}
    (h : Agrees (c :: rest) key tat) : w.script keyTtlS c.2 (key.map (·.tat)) = w.script keyTtlS c.2 tat := by
  cases key with
  | some cell => rw [h.1]; rfl
  | none =>
    cases tat with
    | none => rfl
    | some stored => exact (script_reached (h stored rfl c List.mem_cons_self)).symm

/-- A fresh write outlives every moment at which it still matters. -/
theorem Agrees.write {c : ℕ × Call} {rest : List (ℕ × Call)} {tat : Option ℤ} {write : Write} {reply : Reply}
    (hc : InStep (c :: rest)) (h : w.script keyTtlS c.2 tat = (some write,reply)) :
    Agrees rest (some ⟨write.tat,c.1 + write.expireS * 1000000000⟩) (some write.tat) := by
  obtain ⟨hahead,hlife⟩ := script_write h
  refine ⟨rfl,fun b hb hexpired => ?_⟩
  have hstep := ((List.pairwise_cons.mp hc).1 b hb).2
  simp only at hexpired ⊢
  omega

/-- While the server's clock stays in step with the stamps, the key's expiry
changes no reply of any run. -/
theorem keyed_output_eq_forever {calls : List (ℕ × Call)} (hc : InStep calls) {key : Option Cell} {tat : Option ℤ}
    (h : Agrees calls key tat) :
    ((keyed w keyTtlS).trace key calls).map (fun t => (t.input.2,t.output)) =
      ((forever w keyTtlS).trace tat (calls.map (·.2))).map (fun t => (t.input,t.output)) := by
  induction calls generalizing key tat with
  | nil => rfl
  | cons c rest ih =>
    have hread := h.readable hc
    rcases hw : w.script keyTtlS c.2 tat with ⟨write,reply⟩
    have hkey := keyed_step key c (hread.script_eq.trans hw)
    have hforever := forever_step tat c.2 hw
    have hnext : Agrees rest ((keyed w keyTtlS).next key c) ((forever w keyTtlS).next tat c.2) := by
      rw [hkey.1,hforever.1]
      cases write with
      | some write => exact Agrees.write hc hw
      | none => exact hread.tail
    simp only [List.map_cons,Machine.trace_cons,Machine.fire,hkey.2,hforever.2]
    rw [ih (List.pairwise_cons.mp hc).2 hnext]

theorem exchanges_eq_forever {calls : List (ℕ × Call)} (hc : InStep calls) :
    exchanges w keyTtlS calls = exchangesForever w keyTtlS (calls.map (·.2)) :=
  keyed_output_eq_forever hc (fun _ h => nomatch h)

theorem forever_simulates_gcra (w : RedisWindow) (keyTtlS : ℕ) (calls : List Call) :
    (Gcra.machine (w.burstToleranceNs : ℤ)).trace none (calls.map (arrival w)) =
      ((forever w keyTtlS).trace none calls).map (fun t => ⟨t.before,arrival w t.input,t.output.allowed,t.after⟩) := by
  refine (forever w keyTtlS).trace_map (Gcra.machine (w.burstToleranceNs : ℤ)) id (arrival w) (·.allowed) ?_ none calls
  intro tat call
  have hscript := script_eq w keyTtlS call tat
  by_cases hok : Gcra.newTat tat (arrival w call) - w.burstToleranceNs ≤ call.now
  · rw [if_pos hok] at hscript
    obtain ⟨hnext,hanswer⟩ := forever_step tat call hscript
    rw [hnext,hanswer]
    exact if_pos hok
  · rw [if_neg hok] at hscript
    obtain ⟨hnext,hanswer⟩ := forever_step tat call hscript
    rw [hnext,hanswer]
    exact if_neg hok

theorem gcra_admitted_eq (w : RedisWindow) (keyTtlS : ℕ) (s t : ℕ) (calls : List Call) :
    Gcra.admitted (s : ℤ) t ((Gcra.machine (w.burstToleranceNs : ℤ)).trace none (calls.map (arrival w))) =
      w.emissionIntervalNs * admittedCost s t (exchangesForever w keyTtlS calls) := by
  rw [forever_simulates_gcra w keyTtlS,exchangesForever]
  induction (forever w keyTtlS).trace none calls with
  | nil => simp [Gcra.admitted,admittedCost]
  | cons x xs ih =>
    rw [List.map_cons,Gcra.admitted_cons,ih]
    simp only [admittedCost,List.map_cons,List.filter_cons,arrival,Nat.cast_le]
    by_cases hx : x.output.allowed ∧ s ≤ x.input.now ∧ x.input.now ≤ t
    · simp [hx,mul_add]
    · rw [if_neg hx,if_neg (by simpa [and_assoc] using hx),zero_add]

theorem inStep_ownClock {calls : List Call} (hc : Clocked calls) : InStep (ownClock calls) := by
  refine List.pairwise_map.mpr (hc.imp fun h => ⟨h,?_⟩)
  simp only
  omega

/-- Two requests a second, with a burst of two. -/
def twoPerSecond : RedisWindow := RedisWindow.ofSpec ⟨2,1000000000,none⟩

end Dwara.Extensions.RedisRateLimiter

/-! What the script reports is what the next requests find: `remaining` unit requests
go through at the same instant, and a denied one goes through after `retry_after_ms`. -/

namespace Dwara.Extensions.RedisRateLimiter
open Dwara.Lib

variable {w : RedisWindow} {keyTtlS clock now : ℕ}

/-- A request of one unit. -/
def unitCall (now : ℕ) : Call := ⟨now,1⟩

theorem newTat_unit {tat : ℤ} (h : now ≤ tat) : Gcra.newTat (some tat) (arrival w (unitCall now)) = tat + w.emissionIntervalNs := by
  simp [Gcra.newTat,arrival,unitCall,max_eq_left h]

theorem now_le_newTat (call : Call) (tat : Option ℤ) : (call.now : ℤ) ≤ Gcra.newTat tat (arrival w call) := by
  have hcharge : 0 ≤ (w.emissionIntervalNs : ℤ) * call.cost := by positivity
  have hmax : (call.now : ℤ) ≤ max (tat.getD call.now) call.now := le_max_right _ _
  simp only [Gcra.newTat,arrival]
  omega

/-- A written key outlives the instant it was written at. -/
theorem written_live {write : Write} {reply : Reply} {call : Call} {tat : Option ℤ}
    (h : w.script keyTtlS call tat = (some write,reply)) : (clock : ℤ) < clock + write.expireS * 1000000000 := by
  have hlong := (script_write h).2
  have htol : (0 : ℤ) ≤ w.burstToleranceNs := Int.natCast_nonneg _
  omega

theorem readable_live {cell : Cell} (h : (clock : ℤ) < cell.expiresAt) : readable clock (some cell) = some cell := by
  simp [readable,h]

/-- The key at an instant after some unit requests went through since it read `tat`. -/
def After (w : RedisWindow) (clock : ℕ) (tat : ℤ) (n : ℕ) (key : Option Cell) : Prop :=
  ∃ cell, key = some cell ∧ (clock : ℤ) < cell.expiresAt ∧ cell.tat = tat + w.emissionIntervalNs * n

section Units
variable {tat : ℤ} {n : ℕ} {key : Option Cell} (hkey : After w clock tat n key) (hnow : now ≤ tat)
include hkey hnow

variable (keyTtlS) in
/-- One more unit request at the same instant: it goes through while the tolerance lasts. -/
theorem After.step :
    ((keyed w keyTtlS).answer key (clock,unitCall now)).allowed =
        decide (tat + w.emissionIntervalNs * (n + 1) - w.burstToleranceNs ≤ now) ∧
      After w clock tat (if tat + w.emissionIntervalNs * (n + 1) - w.burstToleranceNs ≤ now then n + 1 else n)
        ((keyed w keyTtlS).next key (clock,unitCall now)) := by
  obtain ⟨cell,rfl,hlive,htat⟩ := hkey
  have hcell : (now : ℤ) ≤ cell.tat := by
    have hgrown : 0 ≤ (w.emissionIntervalNs : ℤ) * n := by positivity
    omega
  have hnew : Gcra.newTat (some cell.tat) (arrival w (unitCall now)) = tat + w.emissionIntervalNs * (n + 1) := by
    rw [newTat_unit hcell,htat,Int.mul_add,Int.mul_one,Int.add_assoc]
  have hread : (readable clock (some cell)).map (·.tat) = some cell.tat := by
    rw [readable_live hlive]
    rfl
  have hscript := script_eq w keyTtlS (unitCall now) ((readable clock (some cell)).map (·.tat))
  rw [hread,hnew,← hread,show ((unitCall now).now : ℤ) = now from rfl] at hscript
  by_cases hfits : tat + w.emissionIntervalNs * (n + 1) - w.burstToleranceNs ≤ now
  · rw [if_pos hfits] at hscript
    obtain ⟨hnext,hanswer⟩ := keyed_step (some cell) (clock,unitCall now) hscript
    refine ⟨by rw [hanswer,decide_eq_true hfits],?_⟩
    rw [hnext,if_pos hfits]
    exact ⟨_,rfl,written_live hscript,by push_cast; rfl⟩
  · rw [if_neg hfits] at hscript
    obtain ⟨hnext,hanswer⟩ := keyed_step (some cell) (clock,unitCall now) hscript
    refine ⟨by rw [hanswer,decide_eq_false hfits],?_⟩
    rw [if_neg hfits]
    exact ⟨cell,hnext.trans (readable_live hlive),hlive,htat⟩

end Units

variable (keyTtlS) in
/-- How many unit requests went through at the same instant out of `k`. -/
theorem after_units {tat : ℤ} {key : Option Cell} (hkey : After w clock tat 0 key) (hnow : now ≤ tat)
    {r : ℕ} (hr : ∀ n : ℕ, tat + w.emissionIntervalNs * (n + 1) - w.burstToleranceNs ≤ now ↔ n < r) (k : ℕ) :
    After w clock tat (min k r) ((keyed w keyTtlS).run key (List.replicate k (clock,unitCall now))) := by
  induction k with
  | zero => simpa using hkey
  | succ k ih =>
    rw [List.replicate_succ',Machine.run_append]
    have hstep := (ih.step keyTtlS hnow).2
    simp only [hr] at hstep
    have hcount : (if min k r < r then min k r + 1 else min k r) = min (k + 1) r := by
      split <;> omega
    rwa [hcount] at hstep

/-- The remaining units are those that still fit into the tolerance. -/
theorem fits_iff_lt_remaining {tat : ℤ} (hfits : tat - w.burstToleranceNs ≤ now) (n : ℕ) :
    tat + w.emissionIntervalNs * (n + 1) - w.burstToleranceNs ≤ now ↔
      n < ((w.burstToleranceNs - (tat - now)) / w.emissionIntervalNs).toNat := by
  have hpos : (0 : ℤ) < w.emissionIntervalNs := by exact_mod_cast w.interval_pos
  have hdiv : (n : ℤ) + 1 ≤ (w.burstToleranceNs - (tat - now)) / w.emissionIntervalNs ↔
      ((n : ℤ) + 1) * w.emissionIntervalNs ≤ w.burstToleranceNs - (tat - now) := Int.le_ediv_iff_mul_le hpos
  have hnonneg : 0 ≤ (w.burstToleranceNs - (tat - now)) / (w.emissionIntervalNs : ℤ) := Int.ediv_nonneg (by omega) hpos.le
  rw [Int.mul_comm] at hdiv
  omega

/-- A time that lies `ceilDiv` whole milliseconds ahead has been reached by then. -/
theorem le_add_ceilDiv (a now : ℤ) : a ≤ now + ceilDiv (a - now) 1000000 * 1000000 := by
  rw [ceilDiv]
  omega

/-- A cost that fits the bucket goes through once the stored time allows it, and without a stored time. -/
theorem script_allows {call : Call} {tat : Option ℤ} (hfits : (w.emissionIntervalNs : ℤ) * call.cost ≤ w.burstToleranceNs)
    (htat : ∀ stored, tat = some stored → stored + w.emissionIntervalNs * call.cost - w.burstToleranceNs ≤ call.now) :
    (w.script keyTtlS call tat).2.allowed = true := by
  have hnew : Gcra.newTat tat (arrival w call) - w.burstToleranceNs ≤ call.now := by
    cases tat with
    | none =>
      simp only [Gcra.newTat,arrival,Option.getD_none,max_self]
      omega
    | some stored =>
      have hstored := htat stored rfl
      simp only [Gcra.newTat,arrival,Option.getD_some]
      rcases le_total stored (call.now : ℤ) with h | h
      · rw [max_eq_right h]
        omega
      · rw [max_eq_left h]
        omega
  rw [script_eq,if_pos hnew]

theorem keyed_answer (key : Option Cell) (call : ℕ × Call) :
    (keyed w keyTtlS).answer key call = (w.script keyTtlS call.2 ((readable call.1 key).map (·.tat))).2 := by
  cases hscript : w.script keyTtlS call.2 ((readable call.1 key).map (·.tat)) with
  | mk write reply => exact (keyed_step key call hscript).2

/-- What is read later was there before. -/
theorem stored_of_readable {later : ℕ} {key : Option Cell} {stored : ℤ} (h : (readable later key).map (·.tat) = some stored) :
    key.map (·.tat) = some stored := by
  obtain ⟨cell,hcell,rfl⟩ := Option.map_eq_some_iff.mp h
  rw [readable,Option.filter_eq_some_iff] at hcell
  rw [hcell.1]
  rfl

/-- A denied request is over the tolerance no longer than it was told to wait. -/
theorem script_allows_later {call : Call} {tat tat' : Option ℤ}
    (hfits : (w.emissionIntervalNs : ℤ) * call.cost ≤ w.burstToleranceNs)
    (hstored : ∀ stored, tat' = some stored → tat = some stored) :
    (w.script keyTtlS ⟨call.now +
        (ceilDiv (Gcra.newTat tat (arrival w call) - w.burstToleranceNs - call.now) 1000000).toNat * 1000000,call.cost⟩
      tat').2.allowed = true := by
  have hwait := le_add_ceilDiv (Gcra.newTat tat (arrival w call) - w.burstToleranceNs) call.now
  refine script_allows (by exact hfits) fun stored hst => ?_
  have hreached : stored + w.emissionIntervalNs * call.cost ≤ Gcra.newTat tat (arrival w call) := by
    have hmax : stored ≤ max stored (call.now : ℤ) := le_max_left _ _
    rw [hstored stored hst]
    simp only [Gcra.newTat,arrival,Option.getD_some]
    omega
  simp only
  omega

/-- The script's reports are honest, whatever the key holds: `remaining` unit requests go
through at the same instant and no further one, and a denied request that fits the bucket
goes through `retry_after_ms` later. -/
theorem replies_are_honest (w : RedisWindow) (keyTtlS clock : ℕ) (key : Option Cell) (call : Call) :
    (((keyed w keyTtlS).answer key (clock,call)).allowed = true →
      0 ≤ ((keyed w keyTtlS).answer key (clock,call)).remaining ∧
        ∀ k : ℕ, ((keyed w keyTtlS).answer ((keyed w keyTtlS).run ((keyed w keyTtlS).next key (clock,call))
            (List.replicate k (clock,unitCall call.now))) (clock,unitCall call.now)).allowed = true ↔
          (k : ℤ) < ((keyed w keyTtlS).answer key (clock,call)).remaining) ∧
    (((keyed w keyTtlS).answer key (clock,call)).allowed = false → w.emissionIntervalNs * call.cost ≤ w.burstToleranceNs →
      0 < ((keyed w keyTtlS).answer key (clock,call)).retryAfterMs ∧
        ∀ later, ((keyed w keyTtlS).answer ((keyed w keyTtlS).next key (clock,call))
          (later,⟨call.now + ((keyed w keyTtlS).answer key (clock,call)).retryAfterMs.toNat * 1000000,call.cost⟩)).allowed =
            true) := by
  have hscript := script_eq w keyTtlS call ((readable clock key).map (·.tat))
  by_cases hfits : Gcra.newTat ((readable clock key).map (·.tat)) (arrival w call) - w.burstToleranceNs ≤ call.now
  · rw [if_pos hfits] at hscript
    obtain ⟨hnext,hanswer⟩ := keyed_step key (clock,call) hscript
    generalize htat : Gcra.newTat ((readable clock key).map (·.tat)) (arrival w call) = tat at *
    have hnow : (call.now : ℤ) ≤ tat := htat ▸ now_le_newTat call _
    rw [hanswer]
    have hremaining : 0 ≤ (w.burstToleranceNs - (tat - call.now)) / (w.emissionIntervalNs : ℤ) :=
      Int.ediv_nonneg (by omega) (by omega)
    refine ⟨fun _ => ⟨hremaining,?_⟩,fun hdenied => by simp at hdenied⟩
    have hafter : After w clock tat 0 ((keyed w keyTtlS).next key (clock,call)) :=
      ⟨_,hnext,written_live hscript,by simp⟩
    intro k
    have hrun := after_units keyTtlS hafter hnow (fits_iff_lt_remaining hfits) k
    rw [(hrun.step keyTtlS hnow).1,decide_eq_true_eq,fits_iff_lt_remaining hfits]
    simp only
    omega
  · rw [if_neg hfits] at hscript
    obtain ⟨hnext,hanswer⟩ := keyed_step key (clock,call) hscript
    rw [hanswer]
    refine ⟨fun hallowed => by simp at hallowed,fun _ hcost => ⟨by simp only [ceilDiv]; omega,fun later => ?_⟩⟩
    rw [keyed_answer]
    exact script_allows_later (by exact_mod_cast hcost) (fun stored hst => stored_of_readable (hnext ▸ hst))

end Dwara.Extensions.RedisRateLimiter
