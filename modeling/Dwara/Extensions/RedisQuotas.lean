import Dwara.Config.Quotas
import Dwara.Extensions.RateLimiter
import Dwara.Lib.Machine
import Dwara.Lib.Text

/-! Quota counters shared by the gateways: one Redis key for each window of a consumer's
budgets, counted by a script. -/

namespace Dwara.Extensions.RedisQuotas
open Dwara.Lib Dwara.Config.Quotas
open Dwara.Extensions.RateLimiter (RedisFate)

/-- A stored counter, readable until its deadline on the clock of the server. -/
structure QuotaCell where
  counter : ℕ
  expiresAt : ℤ
  deriving DecidableEq, Repr

abbrev QuotaStore := String → Option QuotaCell

/-- The counter of a key at `clock`, zero when the key is absent or has expired. -/
def count (store : QuotaStore) (clock : ℤ) (key : String) : ℕ :=
  (((store key).filter (clock < ·.expiresAt)).map (·.counter)).getD 0

/-- The script: the counter it writes, if it does, and its reply. Its numbers are
doubles, so they are exact below 2^53. -/
def quotaLua (counter : ℕ) (limit : ℤ) (increment : ℕ) : Option ℕ × Bool × ℕ :=
  if limit < counter + increment then (none,false,counter) else (some (counter + increment),true,counter + increment)

def dailyTtlS : ℤ := 86400 + 300
def monthlyTtlS : ℤ := 31 * 86400 + 3600

def ttl : Budget → ℤ
  | .daily => dailyTtlS
  | .monthly => monthlyTtlS

theorem ttl_pos (b : Budget) : 0 < ttl b := by
  cases b with
  | daily => decide
  | monthly => decide

structure RedisQuotaChecker where
  failOpen : Bool
  keyPrefix : String

/-- What one check meets: the server's clock, the fate of each budget's script, and
which reads without one are answered. -/
structure CheckEnv where
  clock : ℤ
  fate : Budget → RedisFate
  peeked : Budget → Bool

/-- Every call of the check is answered. -/
def CheckEnv.Reachable (env : CheckEnv) : Prop := (∀ b, env.fate b = .answered) ∧ ∀ b, env.peeked b = true

/-- `limit as i64`. -/
def asI64 (n : ℕ) : ℤ := if n < 2 ^ 63 then n else n - 2 ^ 64

/-- The script on one key of the server; only a counted unit writes. -/
def runScript (env : CheckEnv) (store : QuotaStore) (key : String) (limit : ℕ) (ttlS : ℤ) : (Bool × ℕ) × QuotaStore :=
  match quotaLua (count store env.clock key) (asI64 limit) 1 with
  | (some counter,reply) => (reply,Function.update store key (some ⟨counter,env.clock + ttlS⟩))
  | (none,reply) => (reply,store)

/-- One budget's reply, if it comes. -/
def checkBudget (env : CheckEnv) (store : QuotaStore) (b : Budget) (key : String) (limit : ℕ) (ttlS : ℤ) : Option (Bool × ℕ) × QuotaStore :=
  match env.fate b with
  | .unreachable => (none,store)
  | .lost => (none,(runScript env store key limit ttlS).2)
  | .answered => (some (runScript env store key limit ttlS).1,(runScript env store key limit ttlS).2)

namespace RedisQuotaChecker

def redisKey (l : RedisQuotaChecker) (consumerId : ℤ) (b : Budget) (windowStart : ℤ) : String :=
  l.keyPrefix ++ (toString consumerId ++ (":" ++ (b.key ++ (":" ++ toString windowStart))))

/-- The counters of one consumer, as one check meets them. -/
def counters (l : RedisQuotaChecker) (env : CheckEnv) (consumerId : ℤ) : Counters QuotaStore where
  spend store b start limit :=
    match checkBudget env store b (l.redisKey consumerId b start) limit (ttl b) with
    | (some (true,counterAfter),store) => (.counted counterAfter,store)
    | (some (false,counter),store) => (.exhausted counter,store)
    | (none,store) => (if l.failOpen then .skipped else .refused,store)
  peek store b start := if env.peeked b then some (count store env.clock (l.redisKey consumerId b start)) else none

def check (l : RedisQuotaChecker) (env : CheckEnv) (store : QuotaStore) (consumerId : ℤ) (quotas : ConsumerQuotas) (now : ℤ) :
    QuotaOutcome × QuotaStore :=
  checkFrom (l.counters env consumerId) quotas now Budget.all none store

private theorem toList_cons_colon (b : Budget) (start : ℤ) (t : String) :
    (t ++ (":" ++ (b.key ++ (":" ++ toString start)))).toList =
      t.toList ++ ':' :: (b.key.toList ++ ':' :: (toString start).toList) := by
  simp only [String.toList_append]
  rfl

/-- Every window has a key of its own. -/
theorem redisKey_injective (l : RedisQuotaChecker) {c c' : ℤ} {b b' : Budget} {start start' : ℤ}
    (h : l.redisKey c b start = l.redisKey c' b' start') : c = c' ∧ b = b' ∧ start = start' := by
  have hcolon : ∀ z : ℤ, ':' ∉ (toString z).toList := by
    intro z hz
    rcases Text.mem_toString_int hz with hc | hc
    · exact absurd hc (by decide)
    · exact absurd hc (by decide)
  have hkey : ∀ b : Budget, ':' ∉ b.key.toList := by
    intro b
    cases b with
    | daily => decide
    | monthly => decide
  rw [redisKey,redisKey,String.append_right_inj] at h
  have hchars := congrArg String.toList h
  rw [toList_cons_colon,toList_cons_colon] at hchars
  obtain ⟨hc,hchars⟩ := Text.append_sep_inj (hcolon c) (hcolon c') hchars
  obtain ⟨hb,hstart⟩ := Text.append_sep_inj (hkey b) (hkey b') hchars
  exact ⟨Text.toString_int_injective (String.toList_inj.mp hc),Budget.key_injective (String.toList_inj.mp hb),
    Text.toString_int_injective (String.toList_inj.mp hstart)⟩

end RedisQuotaChecker

section Script
variable {env : CheckEnv} {store : QuotaStore} {key k : String} {limit : ℕ} {ttlS : ℤ}

theorem asI64_le (limit : ℕ) : asI64 limit ≤ limit := by
  rw [asI64]
  split
  · omega
  · omega

/-- The script has counted one unit, within the limit. -/
structure Written (env : CheckEnv) (store store' : QuotaStore) (key : String) (limit : ℕ) (ttlS : ℤ) : Prop where
  within : count store env.clock key + 1 ≤ limit
  after : store' = Function.update store key (some ⟨count store env.clock key + 1,env.clock + ttlS⟩)

/-- The cell of a key is as before. -/
def Same (k : String) (store store' : QuotaStore) : Prop := store' k = store k

instance (k : String) : Std.Refl (Same k) := ⟨fun _ => rfl⟩

instance (k : String) : IsTrans QuotaStore (Same k) := ⟨fun _ _ _ h₁ h₂ => Eq.trans h₂ h₁⟩

/-- The cell of a key has one more unit, within the limit. -/
def Wrote (env : CheckEnv) (k : String) (ttlS : ℤ) (limit : ℕ) (store store' : QuotaStore) : Prop :=
  count store env.clock k + 1 ≤ limit ∧ store' k = some ⟨count store env.clock k + 1,env.clock + ttlS⟩

theorem runScript_cases (env : CheckEnv) (store : QuotaStore) (key : String) (limit : ℕ) (ttlS : ℤ) :
    runScript env store key limit ttlS = ((false,count store env.clock key),store) ∨
      ∃ store', runScript env store key limit ttlS = ((true,count store env.clock key + 1),store') ∧
        Written env store store' key limit ttlS := by
  have hle := asI64_le limit
  rw [runScript]
  generalize asI64 limit = l at *
  by_cases h : l < count store env.clock key + 1
  · have hlua : quotaLua (count store env.clock key) l 1 = (none,false,count store env.clock key) := if_pos h
    rw [hlua]
    exact .inl rfl
  · have hlua : quotaLua (count store env.clock key) l 1 =
        (some (count store env.clock key + 1),true,count store env.clock key + 1) := if_neg h
    rw [hlua]
    exact .inr ⟨_,rfl,by omega,rfl⟩

/-- For a limit that fits 63 bits the script compares what it is given. -/
theorem runScript_eq (h : limit < 2 ^ 63) : runScript env store key limit ttlS =
    if count store env.clock key + 1 ≤ limit then
      ((true,count store env.clock key + 1),Function.update store key (some ⟨count store env.clock key + 1,env.clock + ttlS⟩))
    else ((false,count store env.clock key),store) := by
  have hcast : asI64 limit = limit := by
    rw [asI64,if_pos h]
  rw [runScript,hcast]
  by_cases hlimit : count store env.clock key + 1 ≤ limit
  · have hlua : quotaLua (count store env.clock key) limit 1 =
        (some (count store env.clock key + 1),true,count store env.clock key + 1) := by
      rw [quotaLua,if_neg (by omega)]
    rw [hlua,if_pos hlimit]
  · have hlua : quotaLua (count store env.clock key) limit 1 = (none,false,count store env.clock key) := by
      rw [quotaLua,if_pos (by omega)]
    rw [hlua,if_neg hlimit]

theorem count_of_live {clock : ℤ} {cell : QuotaCell} (h : store k = some cell) (hlive : clock < cell.expiresAt) :
    count store clock k = cell.counter := by
  rw [count,h,Option.filter_some_pos (by simpa using hlive)]
  rfl

end Script

/-- A check of gateways that share the counters, and what it meets. -/
structure RedisCheck extends QuotaCheck where
  env : CheckEnv

/-- Half of the margin the shortest time to live has over its window. -/
def allowedSkewS : ℤ := 150

/-- A key outlives its window by twice the skew. -/
theorem span_ttl (b : Budget) : b.span + 2 * allowedSkewS ≤ ttl b := by
  cases b with
  | daily => decide
  | monthly => decide

/-- The gateway's clock and the server's differ by at most the allowed skew. -/
def RedisCheck.InTime (c : RedisCheck) : Prop := c.env.clock ≤ c.now + allowedSkewS ∧ c.now ≤ c.env.clock + allowedSkewS

instance (c : RedisCheck) : Decidable c.InTime := inferInstanceAs (Decidable (_ ∧ _))

namespace RedisQuotaChecker
variable (l : RedisQuotaChecker)

/-- One check of the shared counters after another. -/
def checks : Machine QuotaStore RedisCheck QuotaOutcome where
  step store c := ((l.check c.env store c.consumerId c.quotas c.now).2,(l.check c.env store c.consumerId c.quotas c.now).1)

/-- The key of the window of a budget a check is counted in. -/
def windowKey (c : RedisCheck) (b : Budget) : String := l.redisKey c.consumerId b (b.window c.now).1

/-- Units a check counts in the window of a key. -/
def rise (k : String) (store : QuotaStore) (c : RedisCheck) : ℕ :=
  count (l.checks.next store c) c.env.clock k - count store c.env.clock k

variable {store store' : QuotaStore} {c : RedisCheck} {b : Budget} {k : String} {limit : ℕ}

theorem spend_cases (store : QuotaStore) (c : RedisCheck) (b : Budget) (limit : ℕ) :
    ((l.counters c.env c.consumerId).spend store b (b.window c.now).1 limit).2 = store ∨
      Written c.env store ((l.counters c.env c.consumerId).spend store b (b.window c.now).1 limit).2 (l.windowKey c b) limit (ttl b) := by
  rw [counters,windowKey]
  simp only [checkBudget]
  rcases runScript_cases c.env store (l.redisKey c.consumerId b (b.window c.now).1) limit (ttl b) with hs | ⟨s',hs,hwritten⟩
  · left
    cases c.env.fate b with
    | answered => simp only [hs]
    | unreachable => rfl
    | lost => simp only [hs]
  · rw [hs]
    cases c.env.fate b with
    | answered => exact .inr hwritten
    | unreachable => exact .inl rfl
    | lost => exact .inr hwritten

/-- A check writes the key of a window at most once, a window of its own. -/
theorem check_cases (store : QuotaStore) (c : RedisCheck) (k : String) :
    l.checks.next store c k = store k ∨
      ∃ b limit, l.windowKey c b = k ∧ b.limit c.quotas = some limit ∧ count store c.env.clock k + 1 ≤ limit ∧
        l.checks.next store c k = some ⟨count store c.env.clock k + 1,c.env.clock + ttl b⟩ := by
  have hspends : Spends (l.counters c.env c.consumerId) c.quotas c.now Budget.all store (l.checks.next store c) :=
    checkFrom_spends Budget.all none store
  have hsame : ∀ b, l.windowKey c b ≠ k → ∀ s limit, Same k s ((l.counters c.env c.consumerId).spend s b (b.window c.now).1 limit).2 := by
    intro b hb s limit
    rcases l.spend_cases s c b limit with hs | hs
    · exact congrFun hs k
    · exact (congrFun hs.after k).trans (Function.update_of_ne (Ne.symm hb) _ _)
  by_cases hk : ∃ b, l.windowKey c b = k
  · obtain ⟨b,hb⟩ := hk
    have hother : ∀ b', b' ≠ b → l.windowKey c b' ≠ k := by
      rintro b' hne hb'
      exact hne (l.redisKey_injective (hb'.trans hb.symm)).2.1
    have hspend : ∀ s limit, Same k s ((l.counters c.env c.consumerId).spend s b (b.window c.now).1 limit).2 ∨
        Wrote c.env k (ttl b) limit s ((l.counters c.env c.consumerId).spend s b (b.window c.now).1 limit).2 := by
      intro s limit
      rcases l.spend_cases s c b limit with hs | hs
      · exact .inl (congrFun hs k)
      · rw [hb] at hs
        exact .inr ⟨hs.within,(congrFun hs.after k).trans (Function.update_self _ _ _)⟩
    rcases hspends.at_most_once (Same k) (Wrote c.env k (ttl b)) b (fun b' hne s limit _ => hsame b' (hother b' hne) s limit)
      (fun s limit _ => hspend s limit) Budget.all_nodup with h | ⟨limit,r,r',hl,-,hsr,⟨hwithin,hwrote⟩,hrs⟩
    · exact .inl h
    · have hcount : count r c.env.clock k = count store c.env.clock k := by
        rw [count,count]
        rw [show r k = store k from hsr]
      rw [hcount] at hwithin hwrote
      exact .inr ⟨b,limit,hb,hl,hwithin,Eq.trans hrs hwrote⟩
  · rw [not_exists] at hk
    rcases hspends.at_most_once (Same k) (fun _ _ _ => False) .daily (fun b' _ s limit _ => hsame b' (hk b') s limit)
      (fun s limit _ => .inl (hsame _ (hk _) s limit)) Budget.all_nodup with h | ⟨_,_,_,_,_,_,hfalse,_⟩
    · exact .inl h
    · exact hfalse.elim

/-- What ties a window's units to its key: they are all in it, and it outlives the window. -/
def Metered (consumerId : ℤ) (b : Budget) (start : ℤ) (n : ℕ) (store : QuotaStore) : Prop :=
  n = 0 ∨ ∃ cell, store (l.redisKey consumerId b start) = some cell ∧ n ≤ cell.counter ∧
    start + b.span + allowedSkewS ≤ cell.expiresAt

theorem metered_step {consumerId start : ℤ} {n : ℕ} (hc : c.InTime) (h : l.Metered consumerId b start n store) :
    l.Metered consumerId b start (n + l.rise (l.redisKey consumerId b start) store c) (l.checks.next store c) ∧
      (0 < l.rise (l.redisKey consumerId b start) store c →
        ∃ limit, l.windowKey c b = l.redisKey consumerId b start ∧ b.limit c.quotas = some limit ∧
          n + l.rise (l.redisKey consumerId b start) store c ≤ limit) := by
  rw [rise]
  rcases l.check_cases store c (l.redisKey consumerId b start) with hsame | ⟨b',limit,hb,hl,hwithin,hwrote⟩
  · have hcount : count (l.checks.next store c) c.env.clock (l.redisKey consumerId b start) =
        count store c.env.clock (l.redisKey consumerId b start) := by
      rw [count,count,hsame]
    rw [hcount,Nat.sub_self]
    refine ⟨?_,fun hpos => absurd hpos (Nat.lt_irrefl 0)⟩
    rw [Metered,hsame]
    exact h
  · obtain ⟨-,rfl,hstart⟩ := l.redisKey_injective hb
    obtain ⟨hle,hlt⟩ := b'.window_holds c.now
    have hspan := span_ttl b'
    obtain ⟨hahead,hbehind⟩ := hc
    have hlive : c.env.clock < c.env.clock + ttl b' := by
      have hpos := ttl_pos b'
      omega
    have hafter := count_of_live hwrote hlive
    have hn : n ≤ count store c.env.clock (l.redisKey consumerId b' start) := by
      rcases h with rfl | ⟨cell,hcell,hn,hexpires⟩
      · exact Nat.zero_le _
      · rw [count_of_live hcell (by omega)]
        exact hn
    rw [hafter]
    simp only
    refine ⟨.inr ⟨_,hwrote,?_,?_⟩,fun _ => ⟨limit,hb,hl,by omega⟩⟩
    · simp only
      omega
    · simp only
      omega

/-- When a check counts a unit in a window, all units counted in it so far are within
the limit the check comes with. -/
theorem spent_le_limit {consumerId start : ℤ} {cs : List RedisCheck} (hcs : ∀ d ∈ cs ++ [c], d.InTime)
    (h : 0 < l.rise (l.redisKey consumerId b start) (l.checks.run store cs) c) :
    ∃ limit, l.windowKey c b = l.redisKey consumerId b start ∧ b.limit c.quotas = some limit ∧
      l.checks.spent (l.rise (l.redisKey consumerId b start)) store (cs ++ [c]) ≤ limit := by
  have hmetered := l.checks.spent_inv (s := store) (l.rise (l.redisKey consumerId b start)) (l.Metered consumerId b start) (.inl rfl) cs
    fun _ _ d hd hm => (l.metered_step (hcs d (by simp [hd])) hm).1
  rw [Machine.spent_concat]
  exact (l.metered_step (hcs c (by simp)) hmetered).2 h

/-- A request refused by the daily budget consumes nothing. -/
theorem daily_denial_keeps {remaining reset retry : ℕ} (hreach : c.env.Reachable)
    (h : l.checks.answer store c = .denied limit remaining reset retry .daily) : l.checks.next store c = store := by
  have hcheck : checkFrom (l.counters c.env c.consumerId) c.quotas c.now (.daily :: [.monthly]) none store =
      (.denied limit remaining reset retry .daily,l.checks.next store c) := Prod.ext h rfl
  apply checkFrom_denied_first _ (by decide) hcheck
  intro s s' b start limit hs
  rw [counters] at hs
  simp only [checkBudget,hreach.1 b] at hs
  rcases runScript_cases c.env s (l.redisKey c.consumerId b start) limit (ttl b) with hr | ⟨r,hr,-⟩
  · rw [hr] at hs
    rcases hs with ⟨used,hs⟩ | hs
    · exact (Prod.mk.inj hs).2.symm
    · cases hs
  · rw [hr] at hs
    rcases hs with ⟨used,hs⟩ | hs
    · cases hs
    · cases hs

end RedisQuotaChecker
end Dwara.Extensions.RedisQuotas
