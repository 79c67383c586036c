import Dwara.Extensions.RedisQuotas
import Dwara.State.Quotas

/-! The counters of one store and the counters shared through Redis, checked side by side. -/

namespace Dwara.Extensions.QuotasAgree
open Dwara.Lib Dwara.Config.Quotas Dwara.State.Quotas Dwara.Extensions.RedisQuotas

/-- One window of a budget of a consumer. -/
structure Window where
  consumerId : ℤ
  budget : Budget
  start : ℤ
  deriving DecidableEq, Repr

def Window.key (w : Window) : QuotaKey := ⟨w.consumerId,w.budget.key,w.start⟩

theorem Window.key_injective : Function.Injective Window.key := by
  rintro ⟨c,b,start⟩ ⟨c',b',start'⟩ h
  obtain ⟨rfl,hb,rfl⟩ := QuotaKey.mk.inj h
  obtain rfl := Budget.key_injective hb
  rfl

/-- The window of a budget a check is counted in. -/
def windowOf (c : QuotaCheck) (b : Budget) : Window := ⟨c.consumerId,b,(b.window c.now).1⟩

def Window.redisKey (l : RedisQuotaChecker) (w : Window) : String := l.redisKey w.consumerId w.budget w.start

theorem Window.redisKey_injective (l : RedisQuotaChecker) : Function.Injective (Window.redisKey l) := by
  rintro ⟨c,b,start⟩ ⟨c',b',start'⟩ h
  obtain ⟨rfl,rfl,rfl⟩ := l.redisKey_injective h
  rfl

/-- Both hold the same counts of the windows in `W`. -/
def Agree (l : RedisQuotaChecker) (clock : ℤ) (W : Window → Prop) (s : StateStore) (store : QuotaStore) : Prop :=
  ∀ w, W w → s.used w.key = count store clock (w.redisKey l)

/-- No counter and no window of the check starts more than the retention after a window in `W`. -/
def Retained (s : StateStore) (c : QuotaCheck) (W : Window → Prop) : Prop :=
  ∀ w, W w → ¬ s.Outdated w.start ∧ ∀ b : Budget, (b.window c.now).1 ≤ w.start + quotaRetentionSecs

section Parity
variable {l : RedisQuotaChecker} {c : RedisCheck} {W : Window → Prop} {s : StateStore} {store : QuotaStore} {b : Budget} {limit : ℕ}

/-- What a check starts from, and keeps with every unit it spends. -/
structure Shared (l : RedisQuotaChecker) (c : RedisCheck) (W : Window → Prop) (s : StateStore) (store : QuotaStore) : Prop where
  known : s.consumers c.consumerId = true
  small : ∀ k, s.used k < 2 ^ 53
  retained : Retained s c.toQuotaCheck W
  agree : Agree l c.env.clock W s store

private theorem Shared.not_outdated (h : Shared l c W s store) {w : Window} (hw : W w) :
    ¬ (s.insertIfAbsent (windowOf c.toQuotaCheck b).key).Outdated w.start := by
  rintro ⟨r,hr,hlt⟩
  obtain ⟨hout,hle⟩ := h.retained w hw
  rw [StateStore.insertIfAbsent] at hr
  split at hr
  · exact hout ⟨r,hr,hlt⟩
  · rcases List.mem_append.mp hr with hr | hr
    · exact hout ⟨r,hr,hlt⟩
    · obtain rfl := List.mem_singleton.mp hr
      have hlate : w.start + quotaRetentionSecs < (b.window c.now).1 := hlt
      have hb := hle b
      omega

private theorem Shared.spent (h : Shared l c W s store) {s' : StateStore} (hlimit : limit < 2 ^ 53)
    (hs : s.Counted s' (windowOf c.toQuotaCheck b).key limit) {store' : QuotaStore}
    (hstore : Written c.env store store' ((windowOf c.toQuotaCheck b).redisKey l) limit (ttl b)) : Shared l c W s' store' := by
  refine ⟨?_,?_,?_,?_⟩
  · rw [hs.consumers_eq]
    exact h.known
  · intro k
    by_cases hk : k = (windowOf c.toQuotaCheck b).key
    · rw [hk,hs.used_self]
      exact lt_of_le_of_lt hs.within hlimit
    · rcases hs.used_other hk with he | ⟨hzero,-⟩
      · rw [he]
        exact h.small k
      · rw [hzero]
        decide
  · intro w hw
    rw [hs.outdated_iff]
    exact ⟨h.not_outdated hw,(h.retained w hw).2⟩
  · intro w hw
    by_cases hk : w = windowOf c.toQuotaCheck b
    · have hlive : c.env.clock < c.env.clock + ttl b := by
        have hpos := ttl_pos b
        omega
      have hcell : store' (w.redisKey l) =
          some ⟨count store c.env.clock (w.redisKey l) + 1,c.env.clock + ttl b⟩ := by
        rw [hstore.after,hk]
        exact Function.update_self _ _ _
      rw [count_of_live hcell hlive,← h.agree w hw,hk,hs.used_self]
    · have hkey : w.key ≠ (windowOf c.toQuotaCheck b).key := fun he => hk (Window.key_injective he)
      have hredis : w.redisKey l ≠ (windowOf c.toQuotaCheck b).redisKey l := fun he => hk (Window.redisKey_injective l he)
      have hout : ¬ s'.Outdated w.start := by
        rw [hs.outdated_iff]
        exact h.not_outdated hw
      rw [(hs.used_other hkey).resolve_right fun hzero => hout hzero.2,h.agree w hw,count,count,hstore.after,
        Function.update_of_ne hredis]

/-- One unit of a window both hold: the answers are the same, and so are the counts left. -/
theorem spend_agree (h : Shared l c W s store) (hreach : c.env.Reachable) (hown : W (windowOf c.toQuotaCheck b)) (hlimit : limit < 2 ^ 53) :
    ((counters c.consumerId).spend s b (b.window c.now).1 limit).1 = ((l.counters c.env c.consumerId).spend store b (b.window c.now).1 limit).1 ∧
      Shared l c W ((counters c.consumerId).spend s b (b.window c.now).1 limit).2
        ((l.counters c.env c.consumerId).spend store b (b.window c.now).1 limit).2 := by
  have hagree : s.used (windowOf c.toQuotaCheck b).key = count store c.env.clock ((windowOf c.toQuotaCheck b).redisKey l) :=
    h.agree _ hown
  have hsmall := h.small (windowOf c.toQuotaCheck b).key
  have hlocal : s.incrQuota c.consumerId b.key (b.window c.now).1 1 (some limit) = _ :=
    StateStore.incrQuota_alive h.known (rfl : (windowOf c.toQuotaCheck b).key = _) (h.not_outdated hown) (by omega)
  have hscript : runScript c.env store ((windowOf c.toQuotaCheck b).redisKey l) limit (ttl b) = _ := runScript_eq (by omega)
  rw [counters,RedisQuotaChecker.counters]
  simp only [checkBudget,hreach.1 b]
  rw [show l.redisKey c.consumerId b (b.window c.now).1 = (windowOf c.toQuotaCheck b).redisKey l from rfl]
  by_cases hwithin : s.used (windowOf c.toQuotaCheck b).key + 1 ≤ limit
  · rw [if_pos hwithin] at hlocal
    rw [← hagree,if_pos hwithin] at hscript
    rw [hlocal,hscript]
    refine ⟨rfl,h.spent hlimit ⟨h.not_outdated hown,hwithin,by omega,rfl⟩ ⟨?_,?_⟩⟩
    · rw [← hagree]
      exact hwithin
    · rw [← hagree]
  · rw [if_neg hwithin] at hlocal
    rw [← hagree,if_neg hwithin] at hscript
    rw [hlocal,hscript]
    exact ⟨rfl,h⟩

/-- Both kinds of counters answer one check alike, and are left with the same counts. -/
theorem check_agree (h : Shared l c W s store) (hreach : c.env.Reachable) (hown : ∀ b, W (windowOf c.toQuotaCheck b))
    (hlimits : ∀ (b : Budget) limit, b.limit c.quotas = some limit → limit < 2 ^ 53) :
    checks.answer s c.toQuotaCheck = l.checks.answer store c ∧ Shared l c W (checks.next s c.toQuotaCheck) (l.checks.next store c) := by
  apply checkFrom_simulates (Shared l c W) _ _ _ _ h
  · intro s store b limit h hl
    exact spend_agree h hreach (hown b) (hlimits b limit hl)
  · intro s store b h
    have hagree : s.used (windowOf c.toQuotaCheck b).key = count store c.env.clock ((windowOf c.toQuotaCheck b).redisKey l) :=
      h.agree _ (hown b)
    rw [counters,RedisQuotaChecker.counters]
    simp only
    rw [hreach.2 b,if_pos rfl]
    exact congrArg some hagree

end Parity

/-- A check of counters both hold gets one answer and leaves the counts the same, at a
daily denial the counts it started from; a denied client waits for the last exhausted
budget. In any run of checks of either kind, the units of a window stay within the limit
in force. -/
theorem quotas_agree (l : RedisQuotaChecker) (s : StateStore) (store : QuotaStore) (c : RedisCheck) (W : Window → Prop)
    (hreach : c.env.Reachable) (hown : ∀ b, W (windowOf c.toQuotaCheck b)) (h : Shared l c W s store)
    (hlimits : ∀ (b : Budget) limit, b.limit c.quotas = some limit → limit < 2 ^ 53) :
    (checks.answer s c.toQuotaCheck = l.checks.answer store c ∧
      Agree l c.env.clock W (checks.next s c.toQuotaCheck) (l.checks.next store c)) ∧
    (∀ limit remaining reset retry, checks.answer s c.toQuotaCheck = .denied limit remaining reset retry .daily →
      checks.next s c.toQuotaCheck = s ∧ l.checks.next store c = store) ∧
    (∀ limit remaining reset retry b, checks.answer s c.toQuotaCheck = .denied limit remaining reset retry b →
      IsGreatest {w | ∃ b, Exhausted (counters c.consumerId) c.quotas c.now (checks.next s c.toQuotaCheck) b ∧ w = b.wait c.now} retry) ∧
    (∀ (w : Window) (s : StateStore) (cs : List QuotaCheck) (d : QuotaCheck), 0 < rise w.key (checks.run s cs) d →
      ∃ limit, windowOf d w.budget = w ∧ w.budget.limit d.quotas = some limit ∧ checks.spent (rise w.key) s (cs ++ [d]) ≤ limit) ∧
    ∀ (w : Window) (store : QuotaStore) (cs : List RedisCheck) (d : RedisCheck), (∀ e ∈ cs ++ [d], e.InTime) →
      0 < l.rise (w.redisKey l) (l.checks.run store cs) d →
      ∃ limit, windowOf d.toQuotaCheck w.budget = w ∧ w.budget.limit d.quotas = some limit ∧
        l.checks.spent (l.rise (w.redisKey l)) store (cs ++ [d]) ≤ limit := by
  obtain ⟨hanswer,hshared⟩ := check_agree h hreach hown hlimits
  refine ⟨⟨hanswer,hshared.agree⟩,?_,?_,?_,?_⟩
  · intro limit remaining reset retry hdenied
    exact ⟨daily_denial_keeps hdenied,l.daily_denial_keeps hreach (hanswer.symm.trans hdenied)⟩
  · intro limit remaining reset retry b hdenied
    apply denial_wait _ hdenied
    intro b limit hl
    have hsmall := hlimits b limit hl
    omega
  · intro w s cs d hrise
    obtain ⟨b,limit,hkey,hl,hle⟩ := spent_le_limit hrise
    have hw : windowOf d b = w := Window.key_injective hkey
    obtain rfl : b = w.budget := congrArg Window.budget hw
    exact ⟨limit,hw,hl,hle⟩
  · intro w store cs d hin hrise
    obtain ⟨limit,hkey,hl,hle⟩ := l.spent_le_limit hin hrise
    exact ⟨limit,Window.redisKey_injective l hkey,hl,hle⟩

section Single
variable (l : RedisQuotaChecker) (w : Window)

/-- A store whose only counter stands at one. -/
def singleCounter : StateStore := ⟨fun _ => true,[(w.key,1)]⟩

/-- The same counter in Redis, kept for two years. -/
def singleCell : QuotaStore := fun k => if k = w.redisKey l then some ⟨1,2 * quotaRetentionSecs⟩ else none

theorem single_used (k : QuotaKey) : (singleCounter w).used k = if w.key = k then 1 else 0 := by
  rw [StateStore.used,StateStore.row,singleCounter,List.find?_singleton]
  by_cases h : w.key = k
  · simp [h]
  · simp [h]

theorem single_agree {clock : ℤ} (h : clock < 2 * quotaRetentionSecs) (W : Window → Prop) : Agree l clock W (singleCounter w) (singleCell l w) := by
  intro v _
  by_cases hv : v = w
  · have hcell : singleCell l w (v.redisKey l) = some ⟨1,2 * quotaRetentionSecs⟩ := by
      rw [singleCell,hv,if_pos rfl]
    rw [single_used,count_of_live hcell h,hv,if_pos rfl]
  · have hkey : w.key ≠ v.key := fun he => hv (Window.key_injective he).symm
    have hredis : v.redisKey l ≠ w.redisKey l := fun he => hv (Window.redisKey_injective l he)
    rw [single_used,count,singleCell,if_neg hkey,if_neg hredis]
    rfl

theorem single_small (k : QuotaKey) : (singleCounter w).used k < 2 ^ 53 := by
  rw [single_used]
  split <;> decide

end Single

/-- The checker of a configuration that leaves the defaults. -/
def defaultChecker : RedisQuotaChecker := ⟨true,"dwara:quota:"⟩

/-- A day of one request, for consumer 1 at `now`, on a server whose clock reads `clock`. -/
def oneADay (now clock : ℤ) : RedisCheck := ⟨⟨1,⟨some 1,none⟩,now⟩,⟨clock,fun _ => .answered,fun _ => true⟩⟩

theorem quotas_agree_exhausted :
    (checks.answer (singleCounter ⟨1,.daily,0⟩) (oneADay 0 0).toQuotaCheck = .denied 1 0 86400 86400 .daily) ∧
    checks.next (singleCounter ⟨1,.daily,0⟩) (oneADay 0 0).toQuotaCheck = singleCounter ⟨1,.daily,0⟩ := by
  have hshared : Shared defaultChecker (oneADay 0 0) (fun w => w.start = 0) (singleCounter ⟨1,.daily,0⟩) (singleCell defaultChecker ⟨1,.daily,0⟩) := by
    refine ⟨rfl,single_small _,?_,single_agree defaultChecker _ (by decide) _⟩
    rintro w hw
    rw [hw]
    refine ⟨by decide,fun b => ?_⟩
    cases b with
    | daily => decide
    | monthly => decide
  have hdenied : checks.answer (singleCounter ⟨1,.daily,0⟩) (oneADay 0 0).toQuotaCheck = .denied 1 0 86400 86400 .daily := by decide
  have hown : ∀ b, (windowOf (oneADay 0 0).toQuotaCheck b).start = 0 := by
    intro b
    cases b with
    | daily => decide
    | monthly => decide
  obtain ⟨-,hdaily,-⟩ := quotas_agree defaultChecker _ _ (oneADay 0 0) (fun w => w.start = 0) ⟨fun _ => rfl,fun _ => rfl⟩ hown hshared (by
    intro b limit hl
    cases b with
    | daily =>
      obtain rfl := Option.some.inj hl
      decide
    | monthly => cases hl)
  exact ⟨hdenied,(hdaily 1 0 86400 86400 hdenied).1⟩

/-- With a counter that starts a year after the window asked for, the store cannot count
in it, and Redis can; in the window a year after a counter, the store drops the old
counter, and Redis does not; and a server whose clock runs ahead of the gateway's counts
a window anew. -/
theorem quotas_disagree :
    (∃ (l : RedisQuotaChecker) (s : StateStore) (store : QuotaStore) (c : RedisCheck), c.env.Reachable ∧ s.consumers c.consumerId = true ∧
      (∀ k, s.used k < 2 ^ 53) ∧ Agree l c.env.clock (fun _ => True) s store ∧
      checks.answer s c.toQuotaCheck = .unavailable ∧ l.checks.answer store c = .allowed 1 0 86400) ∧
    (∃ (l : RedisQuotaChecker) (s : StateStore) (store : QuotaStore) (c : RedisCheck), c.env.Reachable ∧ s.consumers c.consumerId = true ∧
      (∀ k, s.used k < 2 ^ 53) ∧ Agree l c.env.clock (fun _ => True) s store ∧
      ¬ Agree l c.env.clock (fun _ => True) (checks.next s c.toQuotaCheck) (l.checks.next store c)) ∧
    ∃ (l : RedisQuotaChecker) (w : Window) (cs : List RedisCheck), (∀ c ∈ cs, c.quotas = ⟨some 1,none⟩ ∧ c.env.Reachable) ∧
      l.checks.spent (l.rise (w.redisKey l)) (fun _ => none) cs = 2 := by
  have hreach : ∀ now clock, (oneADay now clock).env.Reachable := fun _ _ => ⟨fun _ => rfl,fun _ => rfl⟩
  refine ⟨⟨defaultChecker,singleCounter ⟨1,.daily,366 * 86400⟩,singleCell defaultChecker ⟨1,.daily,366 * 86400⟩,oneADay 0 0,hreach _ _,rfl,single_small _,?_,?_,?_⟩,
    ⟨defaultChecker,singleCounter ⟨1,.daily,0⟩,singleCell defaultChecker ⟨1,.daily,0⟩,oneADay (366 * 86400) (366 * 86400),hreach _ _,rfl,single_small _,?_,?_⟩,
    defaultChecker,⟨1,.daily,0⟩,[oneADay 0 0,oneADay 0 86700],?_,?_⟩
  · exact single_agree defaultChecker _ (by decide) _
  · decide
  · decide +kernel
  · exact single_agree defaultChecker _ (by decide) _
  · intro h
    have hcount := h ⟨1,.daily,0⟩ trivial
    revert hcount
    decide +kernel
  · intro c hc
    rcases List.mem_cons.mp hc with rfl | hc
    · exact ⟨rfl,hreach _ _⟩
    · obtain rfl := List.mem_singleton.mp hc
      exact ⟨rfl,hreach _ _⟩
  · decide +kernel

end Dwara.Extensions.QuotasAgree
