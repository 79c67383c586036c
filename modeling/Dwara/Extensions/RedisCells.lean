import Dwara.Extensions.RateLimiter

/-! Which cells of the server one check of a distributed limiter reads and writes. -/

namespace Dwara.Extensions.RateLimiter
open Dwara.Extensions.RedisRateLimiter

/-- Two stores agree on a set of keys. -/
def Agree (cells : String → Prop) (a b : RedisStore) : Prop := ∀ k, cells k → a k = b k

section Script
variable {w : RedisWindow} {keyTtlS : ℕ} {call : Call} {tat : Option ℤ}

private theorem gcraLua_cases (interval burst cost now ttl : ℤ) (tat : Option ℤ) :
    ((gcraLua interval burst cost now ttl tat).2.allowed = true ↔
      ((gcraLua interval burst cost now ttl tat).1.isSome = true)) ∧
    ((gcraLua interval burst cost now ttl tat).1.isSome = true →
      max (tat.getD now) now + interval * cost - burst ≤ now) := by
  unfold gcraLua
  simp only
  split
  · rename_i h
    exact ⟨by simp,fun _ => h⟩
  · exact ⟨by simp,fun h => by simp at h⟩

/-- Only an admitted call writes, -/
theorem script_allowed_iff : (w.script keyTtlS call tat).2.allowed = true ↔ (w.script keyTtlS call tat).1.isSome = true :=
  (gcraLua_cases _ _ _ _ _ _).1

/-- and no call of more than the burst is admitted. -/
theorem cost_le_of_script (h : (w.script keyTtlS call tat).1.isSome = true) : call.cost ≤ w.burst := by
  have hle := (gcraLua_cases _ _ _ _ _ _).2 h
  have hburst : (w.emissionIntervalNs : ℤ) * call.cost ≤ w.emissionIntervalNs * w.burst := by
    have htol : (w.burstToleranceNs : ℤ) = w.emissionIntervalNs * w.burst := by
      rw [w.tolerance_eq]
      push_cast
      rfl
    have := le_max_right (tat.getD (call.now : ℤ)) (call.now : ℤ)
    omega
  have hnat : w.emissionIntervalNs * call.cost ≤ w.emissionIntervalNs * w.burst := by exact_mod_cast hburst
  exact Nat.le_of_mul_le_mul_left hnat w.interval_pos

/-- On a fresh key every call within the burst is admitted. -/
theorem script_fresh (w : RedisWindow) (keyTtlS : ℕ) (call : Call) (h : call.cost ≤ w.burst) : (w.script keyTtlS call none).1.isSome = true := by
  have htol : (w.burstToleranceNs : ℤ) = w.emissionIntervalNs * w.burst := by
    rw [w.tolerance_eq]
    push_cast
    rfl
  have hcost : (w.emissionIntervalNs : ℤ) * call.cost ≤ w.emissionIntervalNs * w.burst := by
    exact_mod_cast Nat.mul_le_mul_left w.emissionIntervalNs h
  have hallow : max ((none : Option ℤ).getD (call.now : ℤ)) call.now + w.emissionIntervalNs * call.cost -
      w.burstToleranceNs ≤ call.now := by
    simp only [Option.getD_none,max_self]
    omega
  unfold RedisWindow.script gcraLua
  simp only
  rw [if_pos hallow]
  rfl

end Script

namespace RedisRateLimiter
variable {l : RedisRateLimiter} {env : CheckEnv} {w : RedisWindow} {i cost : ℕ} {key : String} {a b store : RedisStore}

/-- Window `i` can be charged `cost`: the cost fits it, and the windows before it where
a window that does not let a request pass ends the check. -/
def Spendable (l : RedisRateLimiter) (cost i : ℕ) : Prop :=
  (∃ w, l.windows[i]? = some w ∧ cost ≤ w.burst) ∧
    (l.failOpen = true ∨ ∀ j w, j < i → l.windows[j]? = some w → cost ≤ w.burst)

theorem redisKey_injective (l : RedisRateLimiter) (key : String) : Function.Injective (l.redisKey key) := by
  have hnumeral : Function.Injective (toString : ℕ → String) := by
    intro i j h
    rw [Nat.toString_eq_ofList_toDigits,Nat.toString_eq_ofList_toDigits,String.ofList_inj] at h
    rw [← Nat.ofDigitChars_ten_toDigits (n := i),h,Nat.ofDigitChars_ten_toDigits]
  intro i j h
  unfold redisKey at h
  split at h
  · exact hnumeral ((String.append_right_inj _).mp h)
  · exact hnumeral ((String.append_right_inj _).mp h)

private theorem runScript_frame {k : String} (h : (l.runScript env store key i w cost).1 k ≠ store k) :
    k = key ∧ cost ≤ w.burst := by
  rw [runScript] at h
  split at h
  · rename_i write reply hs
    have hkey : k = key := by
      by_contra hne
      exact h (Function.update_of_ne hne _ _)
    have hsome : (w.script l.keyTtlS ⟨env.nowNs,cost⟩ ((readable (env.serverNs i) (store key)).map (·.tat))).1.isSome =
        true := by
      rw [hs]
      rfl
    exact ⟨hkey,cost_le_of_script hsome⟩
  · exact absurd rfl h

private theorem runScript_congr (l : RedisRateLimiter) (env : CheckEnv) (i : ℕ) (w : RedisWindow) (cost : ℕ)
    (h : a key = b key) :
    (l.runScript env a key i w cost).2 = (l.runScript env b key i w cost).2 ∧
      ∀ k, a k = b k → (l.runScript env a key i w cost).1 k = (l.runScript env b key i w cost).1 k := by
  unfold runScript
  rw [h]
  split
  · refine ⟨rfl,fun k hk => ?_⟩
    by_cases hkey : k = key
    · subst hkey
      simp
    · simp only [Function.update_of_ne hkey,hk]
  · exact ⟨rfl,fun k hk => hk⟩

private theorem runScript_allowed (h : (l.runScript env store key i w cost).2.allowed = true) : cost ≤ w.burst := by
  have hallowed : (w.script l.keyTtlS ⟨env.nowNs,cost⟩ ((readable (env.serverNs i) (store key)).map (·.tat))).2.allowed =
      true := by
    rw [runScript] at h
    split at h
    · rename_i write reply hs
      rw [hs]
      exact h
    · rename_i reply hs
      rw [hs]
      exact h
  exact cost_le_of_script (script_allowed_iff.mp hallowed)

theorem checkWindow_frame {k : String} (h : (l.checkWindow env store key i w cost).1 k ≠ store k) :
    k = key ∧ cost ≤ w.burst := by
  rw [checkWindow] at h
  split at h
  · exact absurd rfl h
  · exact runScript_frame h
  · exact runScript_frame h

theorem checkWindow_congr (l : RedisRateLimiter) (env : CheckEnv) (i : ℕ) (w : RedisWindow) (cost : ℕ)
    (h : a key = b key) :
    (l.checkWindow env a key i w cost).2 = (l.checkWindow env b key i w cost).2 ∧
      ∀ k, a k = b k → (l.checkWindow env a key i w cost).1 k = (l.checkWindow env b key i w cost).1 k := by
  obtain ⟨hreply,hstore⟩ := runScript_congr l env i w cost h
  unfold checkWindow
  split
  · exact ⟨rfl,fun k hk => hk⟩
  · exact ⟨rfl,hstore⟩
  · exact ⟨congrArg some hreply,hstore⟩

/-- A window that lets a request pass fits its cost, unless it is skipped. -/
theorem checkWindow_allowed {reply : Reply} (h : (l.checkWindow env store key i w cost).2 = some reply)
    (hallowed : reply.allowed = true) : cost ≤ w.burst := by
  rw [checkWindow] at h
  split at h
  · cases h
  · cases h
  · cases h
    exact runScript_allowed hallowed

/-- A check writes only to spendable windows' keys. -/
private theorem checkFrom_frame {k : String} {ws : List RedisWindow} {binding : Option GcraOutcome}
    (h : (l.checkFrom env key cost i ws binding store).1 k ≠ store k) :
    ∃ j, k = l.redisKey key (i + j) ∧ (∃ w, ws[j]? = some w ∧ cost ≤ w.burst) ∧
      (l.failOpen = true ∨ ∀ j' w, j' < j → ws[j']? = some w → cost ≤ w.burst) := by
  induction ws generalizing i binding store with
  | nil => exact absurd rfl h
  | cons w ws ih =>
    by_cases hhere : (l.checkWindow env store (l.redisKey key i) i w cost).1 k = store k
    · -- This window left the cell alone, so the check went on past it.
      have hlater : ∀ {binding store'}, store' k = store k →
          (l.checkFrom env key cost (i + 1) ws binding store').1 k ≠ store k →
          (l.failOpen = true ∨ cost ≤ w.burst) →
          ∃ j, k = l.redisKey key (i + j) ∧ (∃ w', (w :: ws)[j]? = some w' ∧ cost ≤ w'.burst) ∧
            (l.failOpen = true ∨ ∀ j' w', j' < j → (w :: ws)[j']? = some w' → cost ≤ w'.burst) := by
        intro binding store' hsame hne hpassed
        obtain ⟨j,hk,hfits,hbefore⟩ := ih (hsame ▸ hne)
        refine ⟨j + 1,by rw [hk]; congr 1; omega,hfits,?_⟩
        rcases hbefore with hopen | hbefore
        · exact .inl hopen
        rcases hpassed with hopen | hw
        · exact .inl hopen
        · refine .inr (fun j' w' hj hw' => ?_)
          cases j' with
          | zero =>
            cases hw'
            exact hw
          | succ j' => exact hbefore j' w' (by omega) hw'
      rw [checkFrom] at h
      split at h
      · rename_i store' reply hc
        have hstore : store' k = store k := by
          rw [hc] at hhere
          exact hhere
        split at h
        · rename_i hallowed
          exact hlater hstore h (.inr (checkWindow_allowed (by rw [hc]) hallowed))
        · exact absurd hstore h
      · rename_i store' hc
        have hstore : store' k = store k := by
          rw [hc] at hhere
          exact hhere
        split at h
        · rename_i hopen
          exact hlater hstore h (.inl hopen)
        · exact absurd hstore h
    · obtain ⟨hk,hfits⟩ := checkWindow_frame hhere
      exact ⟨0,hk,⟨w,rfl,hfits⟩,.inr (fun _ _ hj => absurd hj (Nat.not_lt_zero _))⟩

/-- A cell that a check changes belongs to a spendable window. -/
theorem check_frame {k : String} (h : (l.check env store key cost).1 k ≠ store k) :
    ∃ i, k = l.redisKey key i ∧ l.Spendable (max cost 1) i := by
  obtain ⟨j,hk,hfits,hbefore⟩ := checkFrom_frame h
  rw [Nat.zero_add] at hk
  exact ⟨j,hk,hfits,hbefore⟩

private theorem checkFrom_congr {cells : String → Prop} {ws : List RedisWindow} {binding : Option GcraOutcome}
    (hcells : ∀ j < ws.length, cells (l.redisKey key (i + j))) (hab : Agree cells a b) :
    (l.checkFrom env key cost i ws binding a).2 = (l.checkFrom env key cost i ws binding b).2 ∧
      Agree cells (l.checkFrom env key cost i ws binding a).1 (l.checkFrom env key cost i ws binding b).1 := by
  induction ws generalizing i binding a b with
  | nil => exact ⟨rfl,hab⟩
  | cons w ws ih =>
    have hcell : a (l.redisKey key i) = b (l.redisKey key i) := hab _ (hcells 0 (Nat.zero_lt_succ _))
    obtain ⟨hreply,hstore⟩ := checkWindow_congr l env i w cost hcell
    have hagree : Agree cells (l.checkWindow env a (l.redisKey key i) i w cost).1
        (l.checkWindow env b (l.redisKey key i) i w cost).1 := fun k hk => hstore k (hab k hk)
    have hrest : ∀ j < ws.length, cells (l.redisKey key (i + 1 + j)) := fun j hj => by
      have := hcells (j + 1) (Nat.succ_lt_succ hj)
      rwa [show i + 1 + j = i + (j + 1) by omega]
    unfold checkFrom
    rcases ha : l.checkWindow env a (l.redisKey key i) i w cost with ⟨a',ra⟩
    rcases hb : l.checkWindow env b (l.redisKey key i) i w cost with ⟨b',rb⟩
    rw [ha,hb] at hreply hagree
    obtain rfl : ra = rb := hreply
    cases ra with
    | none =>
      simp only
      split
      · exact ih hrest hagree
      · exact ⟨rfl,hagree⟩
    | some reply =>
      simp only
      split
      · exact ih hrest hagree
      · exact ⟨rfl,hagree⟩

/-- A check reads its own cells only. -/
theorem check_congr (env : CheckEnv) (cost : ℕ) {cells : String → Prop} (hcells : ∀ i < l.windows.length, cells (l.redisKey key i))
    (hab : Agree cells a b) :
    (l.check env a key cost).2 = (l.check env b key cost).2 ∧
      Agree cells (l.check env a key cost).1 (l.check env b key cost).1 := by
  apply checkFrom_congr _ hab
  intro j hj
  rw [Nat.zero_add]
  exact hcells j hj

private theorem checkFrom_unreachable {ws : List RedisWindow} {binding : Option GcraOutcome}
    (h : ∀ j, i ≤ j → env.fate j = .unreachable) : (l.checkFrom env key cost i ws binding store).1 = store := by
  induction ws generalizing i binding with
  | nil => rfl
  | cons w ws ih =>
    have hwindow : l.checkWindow env store (l.redisKey key i) i w cost = (store,none) := by
      simp [checkWindow,h i (Nat.le_refl i)]
    rw [checkFrom]
    rw [hwindow]
    simp only
    split
    · exact ih (fun j hj => h j (by omega))
    · rfl

/-- A check none of whose scripts is run leaves the server alone. -/
theorem check_unreachable (h : ∀ i, env.fate i = .unreachable) : (l.check env store key cost).1 = store :=
  checkFrom_unreachable (fun j _ => h j)

/-- Of all scripts only those that lead to window `i` are run, at time zero. -/
def aimed (l : RedisRateLimiter) (i : ℕ) : CheckEnv where
  instant := 0
  nowNs := 0
  epochS := 0
  serverNs := fun _ => 0
  fate := fun j => if j = i ∨ (l.failOpen = false ∧ j < i) then .answered else .unreachable

/-- On a fresh cell an answered script admits what fits and writes the cell. -/
private theorem checkWindow_fresh (l : RedisRateLimiter) (env : CheckEnv) (i : ℕ) (w : RedisWindow) (hfate : env.fate i = .answered) (hfresh : store key = none) (hfits : cost ≤ w.burst) :
    ∃ cell reply, l.checkWindow env store key i w cost = (Function.update store key (some cell),some reply) ∧
      reply.allowed = true := by
  have hscript := script_fresh w l.keyTtlS ⟨env.nowNs,cost⟩ hfits
  have hallowed := script_allowed_iff.mpr hscript
  obtain ⟨write,hwrite⟩ := Option.isSome_iff_exists.mp hscript
  rw [checkWindow,runScript]
  rw [hfate,hfresh]
  rcases hs : w.script l.keyTtlS ⟨env.nowNs,cost⟩ none with ⟨write',reply⟩
  rw [hs] at hwrite hallowed
  obtain rfl : write' = some write := hwrite
  refine ⟨⟨write.tat,env.serverNs i + write.expireS * 1000000000⟩,reply,?_,hallowed⟩
  simp [readable,hs]

private theorem checkFrom_aimed {k n : ℕ} {ws : List RedisWindow} {binding : Option GcraOutcome} (hi : k + n = i)
    (hfresh : ∀ j, k ≤ j → store (l.redisKey key j) = none) (hfits : ∃ w, ws[n]? = some w ∧ cost ≤ w.burst)
    (hbefore : l.failOpen = true ∨ ∀ j w, j < n → ws[j]? = some w → cost ≤ w.burst) :
    (l.checkFrom (l.aimed i) key cost k ws binding store).1 (l.redisKey key i) ≠ none := by
  induction n generalizing k ws binding store with
  | zero =>
    obtain rfl : k = i := hi
    obtain ⟨w,hw,hcost⟩ := hfits
    cases ws with
    | nil => cases hw
    | cons w' ws =>
      cases hw
      obtain ⟨cell,reply,hc,hallowed⟩ := checkWindow_fresh l (l.aimed k) k w
        (by simp [aimed]) (hfresh k (Nat.le_refl k)) hcost
      rw [checkFrom]
      rw [hc]
      simp only [hallowed,if_true]
      rw [checkFrom_unreachable]
      · simp
      · intro j hj
        have hne : ¬ j = k := by omega
        have hlt : ¬ j < k := by omega
        simp [aimed,hne,hlt]
  | succ n ih =>
    obtain ⟨w,hw,hcost⟩ := hfits
    cases ws with
    | nil => cases hw
    | cons w' ws =>
      have hne : ¬ k = i := by omega
      have hlt : k < i := by omega
      have hnext : k + 1 + n = i := by omega
      rw [checkFrom]
      cases hopen : l.failOpen with
      | true =>
        -- The window is skipped.
        have hskip : l.checkWindow (l.aimed i) store (l.redisKey key k) k w' cost = (store,none) := by
          simp [checkWindow,aimed,hne,hopen]
        rw [hskip]
        simp only [if_true]
        exact ih hnext (fun j hj => hfresh j (by omega)) ⟨w,hw,hcost⟩ (.inl hopen)
      | false =>
        have hall := hbefore.resolve_left (by simp [hopen])
        obtain ⟨cell,reply,hc,hallowed⟩ := checkWindow_fresh l (l.aimed i) k w'
          (by simp [aimed,hopen,hlt]) (hfresh k (Nat.le_refl k)) (hall 0 w' (Nat.zero_lt_succ n) rfl)
        rw [hc]
        simp only [hallowed,if_true]
        refine ih hnext (fun j hj => ?_) ⟨w,hw,hcost⟩ (.inr (fun j v hj hv => hall (j + 1) v (by omega) hv))
        have hother : l.redisKey key j ≠ l.redisKey key k := fun he => by
          have := l.redisKey_injective key he
          omega
        rw [Function.update_of_ne hother]
        exact hfresh j (by omega)

/-- So window `i` is charged on a fresh server when it is spendable. -/
theorem check_aimed (h : l.Spendable (max cost 1) i) :
    (l.check (l.aimed i) (fun _ => none) key cost).1 (l.redisKey key i) ≠ none :=
  checkFrom_aimed (Nat.zero_add i) (fun _ _ => rfl) h.1 h.2

end RedisRateLimiter
end Dwara.Extensions.RateLimiter
