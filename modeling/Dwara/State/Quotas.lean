import Dwara.Config.Quotas
import Dwara.Lib.Machine
import Mathlib.Data.List.Find

/-! Quota counters of the state store, and the check of a consumer's budgets over them. -/

namespace Dwara.State.Quotas
open Dwara.Lib Dwara.Config.Quotas

inductive StoreError where
  | quotaExceeded (used limit requested : ℕ)
  | unknownConsumer (consumerId : ℤ)
  | sqlite
  deriving DecidableEq, Repr

/-- The primary key of `quota_counters`. -/
structure QuotaKey where
  consumerId : ℤ
  counterKey : String
  windowStart : ℤ
  deriving DecidableEq, Repr

/-- The consumers with a row, and the rows of `quota_counters`. -/
structure StateStore where
  consumers : ℤ → Bool
  counters : List (QuotaKey × ℕ)

/-- One year, in seconds. -/
def quotaRetentionSecs : ℤ := 365 * 24 * 60 * 60

namespace StateStore

def row (s : StateStore) (key : QuotaKey) : Option ℕ := (s.counters.find? (·.1 = key)).map (·.2)

def insertIfAbsent (s : StateStore) (key : QuotaKey) : StateStore :=
  if (s.row key).isSome then s else { s with counters := s.counters ++ [(key,0)] }

def newest (s : StateStore) : Option ℤ := (s.counters.map (·.1.windowStart)).max?

/-- Counters of windows that start a year before the newest one go. -/
def prune (s : StateStore) : StateStore :=
  { s with counters := s.counters.filter fun r => s.newest.all (· - quotaRetentionSecs ≤ r.1.windowStart) }

def setUsed (s : StateStore) (key : QuotaKey) (used : ℕ) : StateStore :=
  { s with counters := s.counters.map fun r => if r.1 = key then (key,used) else r }

/-- One transaction: what it answers, and the store, rolled back unless it answers a count. -/
def incrQuota (s : StateStore) (consumerId : ℤ) (counterKey : String) (windowStart : ℤ) (amount : ℕ) (limit : Option ℕ) :
    Except StoreError ℕ × StateStore :=
  let key := ⟨consumerId,counterKey,windowStart⟩
  if s.consumers consumerId then
    let tx := (s.insertIfAbsent key).prune
    match tx.row key with
    | none => (.error .sqlite,s)
    | some used =>
      match limit.filter fun limit => 2 ^ 64 ≤ used + amount ∨ limit < used + amount with
      | some limit => (.error (.quotaExceeded used limit amount),s)
      | none =>
        let usedAfter := used + min amount (2 ^ 63 - 1)
        -- a sum beyond 64 signed bits is stored as a float, which no longer reads as a count
        if usedAfter < 2 ^ 63 then (.ok usedAfter,tx.setUsed key usedAfter) else (.error .sqlite,s)
  else (.error (.unknownConsumer consumerId),s)

def used (s : StateStore) (key : QuotaKey) : ℕ := (s.row key).getD 0

def getQuota (s : StateStore) (consumerId : ℤ) (counterKey : String) (windowStart : ℤ) : ℕ :=
  s.used ⟨consumerId,counterKey,windowStart⟩

end StateStore

/-- The counters of one consumer, a unit at a time. -/
def counters (consumerId : ℤ) : Counters StateStore where
  spend s budget start limit :=
    match s.incrQuota consumerId budget.key start 1 (some limit) with
    | (.ok usedAfter,s') => (.counted usedAfter,s')
    | (.error (.quotaExceeded used _ _),s') => (.exhausted used,s')
    | (.error (.unknownConsumer _),s') => (.unknownConsumer,s')
    | (.error .sqlite,s') => (.unavailable,s')
  peek s budget start := some (s.getQuota consumerId budget.key start)

def check (s : StateStore) (consumerId : ℤ) (quotas : ConsumerQuotas) (now : ℤ) : QuotaOutcome × StateStore :=
  checkFrom (counters consumerId) quotas now Budget.all none s

namespace StateStore
variable {s : StateStore} {key k : QuotaKey}

/-- Another window starts more than the retention after this one. -/
def Outdated (s : StateStore) (start : ℤ) : Prop := ∃ r ∈ s.counters, start + quotaRetentionSecs < r.1.windowStart

instance (s : StateStore) (start : ℤ) : Decidable (s.Outdated start) := inferInstanceAs (Decidable (∃ r ∈ s.counters, _))

theorem outdated_iff {start : ℤ} : s.Outdated start ↔ ∃ m, s.newest = some m ∧ start + quotaRetentionSecs < m := by
  constructor
  · rintro ⟨r,hr,hlt⟩
    cases hm : s.newest with
    | none =>
      rw [newest,List.max?_eq_none_iff,List.map_eq_nil_iff] at hm
      rw [hm] at hr
      cases hr
    | some m =>
      rw [newest,List.max?_eq_some_iff] at hm
      have hle := hm.2 _ (List.mem_map_of_mem hr)
      exact ⟨m,rfl,by omega⟩
  · rintro ⟨m,hm,hlt⟩
    rw [newest,List.max?_eq_some_iff] at hm
    obtain ⟨r,hr,rfl⟩ := List.mem_map.mp hm.1
    exact ⟨r,hr,hlt⟩

theorem row_eq_none : s.row key = none ↔ ∀ r ∈ s.counters, r.1 ≠ key := by
  rw [row,Option.map_eq_none_iff,List.find?_eq_none]
  simp

theorem mem_prune {r : QuotaKey × ℕ} : r ∈ s.prune.counters ↔ r ∈ s.counters ∧ ¬ s.Outdated r.1.windowStart := by
  rw [prune,List.mem_filter,outdated_iff]
  cases s.newest with
  | none => simp
  | some m =>
    simp only [Option.all_some,decide_eq_true_eq,Option.some.injEq,exists_eq_left']
    constructor
    · rintro ⟨hr,hle⟩
      exact ⟨hr,by omega⟩
    · rintro ⟨hr,hle⟩
      exact ⟨hr,by omega⟩

@[simp] theorem newest_prune : s.prune.newest = s.newest := by
  cases hm : s.newest with
  | none =>
    rw [newest,List.max?_eq_none_iff,List.map_eq_nil_iff] at hm
    rw [newest,prune,hm]
    rfl
  | some m =>
    have hmax := hm
    rw [newest,List.max?_eq_some_iff] at hmax ⊢
    obtain ⟨hmem,hle⟩ := hmax
    obtain ⟨r,hr,rfl⟩ := List.mem_map.mp hmem
    constructor
    · apply List.mem_map_of_mem
      rw [mem_prune,outdated_iff]
      refine ⟨hr,?_⟩
      rintro ⟨n,hn,hlt⟩
      obtain rfl := Option.some.inj (hm.symm.trans hn)
      rw [quotaRetentionSecs] at hlt
      omega
    · intro b hb
      obtain ⟨q,hq,rfl⟩ := List.mem_map.mp hb
      exact hle _ (List.mem_map_of_mem (mem_prune.mp hq).1)

@[simp] theorem outdated_prune {start : ℤ} : s.prune.Outdated start ↔ s.Outdated start := by
  rw [outdated_iff,outdated_iff,newest_prune]

@[simp] theorem outdated_setUsed {start : ℤ} {used : ℕ} : (s.setUsed key used).Outdated start ↔ s.Outdated start := by
  constructor
  · rintro ⟨r,hr,hlt⟩
    obtain ⟨q,hq,rfl⟩ := List.mem_map.mp hr
    refine ⟨q,hq,?_⟩
    split at hlt
    · rename_i hkey
      rwa [hkey]
    · exact hlt
  · rintro ⟨q,hq,hlt⟩
    refine ⟨_,List.mem_map_of_mem hq,?_⟩
    split
    · rename_i hkey
      rwa [← hkey]
    · exact hlt

theorem Outdated.insertIfAbsent {start : ℤ} (h : s.Outdated start) : (s.insertIfAbsent key).Outdated start := by
  obtain ⟨r,hr,hlt⟩ := h
  rw [StateStore.insertIfAbsent]
  split
  · exact ⟨r,hr,hlt⟩
  · exact ⟨r,List.mem_append_left _ hr,hlt⟩

theorem row_insertIfAbsent : (s.insertIfAbsent key).row k = if k = key then some ((s.row key).getD 0) else s.row k := by
  rw [insertIfAbsent]
  split
  · rename_i h
    obtain ⟨used,hused⟩ := Option.isSome_iff_exists.mp h
    split
    · rename_i hk
      rw [hk,hused]
      rfl
    · rfl
  · rename_i h
    rw [Option.not_isSome_iff_eq_none] at h
    split
    · rename_i hk
      rw [hk,h]
      rw [row,Option.map_eq_none_iff] at h
      simp [row,List.find?_append,h]
    · rename_i hk
      simp [row,List.find?_append,Ne.symm hk]

theorem row_prune_of_outdated (h : s.Outdated k.windowStart) : s.prune.row k = none := by
  rw [row_eq_none]
  rintro r hr rfl
  exact (mem_prune.mp hr).2 h

theorem row_prune (h : ¬ s.Outdated k.windowStart) : s.prune.row k = s.row k := by
  rw [row,row,prune,List.find?_filter]
  congr 1
  apply List.find?_congr
  intro r hr
  by_cases hk : r.1 = k
  · have hmem : r ∈ s.prune.counters := mem_prune.mpr ⟨hr,hk ▸ h⟩
    rw [prune,List.mem_filter] at hmem
    simp [hk,← hmem.2]
  · simp [hk]

theorem row_setUsed {used : ℕ} (h : (s.row key).isSome) :
    (s.setUsed key used).row k = if k = key then some used else s.row k := by
  have hkeys : ∀ r : QuotaKey × ℕ, (if r.1 = key then (key,used) else r).1 = r.1 := by
    intro r
    split
    · rename_i hr
      exact hr.symm
    · rfl
  rw [row,row,setUsed,List.find?_map,Option.map_map]
  simp only [Function.comp_def,hkeys]
  cases hf : s.counters.find? (·.1 = k) with
  | none =>
    have hk : k ≠ key := by
      rintro rfl
      simp [row,hf] at h
    simp [hk]
  | some r =>
    have hr := List.find?_some hf
    simp only [decide_eq_true_eq] at hr
    simp only [Option.map_some,hr]
    split
    · rfl
    · rfl

/-- The transaction has counted one unit in the window of `key`. -/
structure Counted (s s' : StateStore) (key : QuotaKey) (limit : ℕ) : Prop where
  alive : ¬ (s.insertIfAbsent key).Outdated key.windowStart
  within : s.used key + 1 ≤ limit
  bounded : s.used key + 1 < 2 ^ 63
  after : s' = (s.insertIfAbsent key).prune.setUsed key (s.used key + 1)

theorem row_tx (h : ¬ (s.insertIfAbsent key).Outdated key.windowStart) : (s.insertIfAbsent key).prune.row key = some (s.used key) := by
  rw [row_prune h,row_insertIfAbsent,if_pos rfl]
  rfl

/-- A known consumer's unit in a window the transaction does not prune. -/
theorem incrQuota_alive {consumerId windowStart : ℤ} {counterKey : String} {limit : ℕ} (hconsumer : s.consumers consumerId = true)
    (hkey : key = ⟨consumerId,counterKey,windowStart⟩) (hout : ¬ (s.insertIfAbsent key).Outdated key.windowStart)
    (hused : s.used key + 1 < 2 ^ 63) :
    s.incrQuota consumerId counterKey windowStart 1 (some limit) =
      if s.used key + 1 ≤ limit then (.ok (s.used key + 1),(s.insertIfAbsent key).prune.setUsed key (s.used key + 1))
      else (.error (.quotaExceeded (s.used key) limit 1),s) := by
  rw [incrQuota,if_pos hconsumer]
  simp only [← hkey,row_tx hout,Option.filter_some,decide_eq_true_eq]
  split
  · rename_i h
    split at h
    · rename_i hexceeded
      obtain rfl := Option.some.inj h
      rw [if_neg (by omega)]
    · cases h
  · rename_i h
    split at h
    · cases h
    · rename_i hwithin
      rw [if_pos (by omega),if_pos (by omega)]
      rfl

/-- Either nothing is counted and the store is as before, or one unit is. -/
theorem incrQuota_cases (s : StateStore) (consumerId : ℤ) (counterKey : String) (windowStart : ℤ) (limit : ℕ) :
    (∃ e, s.incrQuota consumerId counterKey windowStart 1 (some limit) = (.error e,s) ∧
        ∀ used l n, e = .quotaExceeded used l n →
          used = s.used ⟨consumerId,counterKey,windowStart⟩ ∧ (limit ≤ used ∨ 2 ^ 64 ≤ used + 1)) ∨
      ∃ s', s.incrQuota consumerId counterKey windowStart 1 (some limit) = (.ok (s.used ⟨consumerId,counterKey,windowStart⟩ + 1),s') ∧
        s.Counted s' ⟨consumerId,counterKey,windowStart⟩ limit := by
  rw [incrQuota]
  generalize hkey : (⟨consumerId,counterKey,windowStart⟩ : QuotaKey) = key
  simp only
  split
  · by_cases hout : (s.insertIfAbsent key).Outdated key.windowStart
    · rw [row_prune_of_outdated hout]
      exact .inl ⟨_,rfl,fun _ _ _ he => by cases he⟩
    · rw [row_tx hout]
      simp only
      split
      · rename_i l hlimit
        obtain ⟨hl,hexceeded⟩ := Option.filter_eq_some_iff.mp hlimit
        obtain rfl := Option.some.inj hl
        rw [decide_eq_true_eq] at hexceeded
        refine .inl ⟨_,rfl,?_⟩
        rintro used l n he
        obtain ⟨rfl,-,-⟩ := StoreError.quotaExceeded.inj he
        exact ⟨rfl,by omega⟩
      · rename_i hlimit
        rw [Option.filter_eq_none_iff] at hlimit
        have hwithin := hlimit limit rfl
        simp only [decide_eq_true_eq,not_or] at hwithin
        split
        · rename_i hbounded
          exact .inr ⟨_,rfl,hout,by omega,by omega,rfl⟩
        · exact .inl ⟨_,rfl,fun _ _ _ he => by cases he⟩
  · exact .inl ⟨_,rfl,fun _ _ _ he => by cases he⟩

/-- The count of a window is kept, or its row is pruned for good. -/
structure Fades (k : QuotaKey) (s s' : StateStore) : Prop where
  kept : s'.used k = s.used k ∨ s'.Outdated k.windowStart
  no_rise : s'.used k ≤ s.used k
  outdated : s.Outdated k.windowStart → s'.Outdated k.windowStart

/-- The count of a window goes up by one, within the limit. -/
structure Rises (k : QuotaKey) (limit : ℕ) (s s' : StateStore) : Prop where
  alive : ¬ s'.Outdated k.windowStart
  rise : s'.used k = s.used k + 1
  within : s'.used k ≤ limit
  alive_before : ¬ s.Outdated k.windowStart

instance (k : QuotaKey) : Std.Refl (Fades k) := ⟨fun _ => ⟨.inl rfl,le_refl _,id⟩⟩

instance (k : QuotaKey) : IsTrans StateStore (Fades k) where
  trans s t u h₁ h₂ := by
    refine ⟨?_,le_trans h₂.no_rise h₁.no_rise,fun h => h₂.outdated (h₁.outdated h)⟩
    rcases h₂.kept with he | hout
    · rcases h₁.kept with he' | hout'
      · exact .inl (he.trans he')
      · exact .inr (h₂.outdated hout')
    · exact .inr hout

variable {s' : StateStore} {limit : ℕ}

theorem Counted.outdated_iff (h : s.Counted s' key limit) {start : ℤ} : s'.Outdated start ↔ (s.insertIfAbsent key).Outdated start := by
  rw [h.after,outdated_setUsed,outdated_prune]

private theorem Counted.row_tx_isSome (h : s.Counted s' key limit) : ((s.insertIfAbsent key).prune.row key).isSome := by
  rw [row_tx h.alive]
  rfl

theorem Counted.used_self (h : s.Counted s' key limit) : s'.used key = s.used key + 1 := by
  rw [used,h.after,row_setUsed h.row_tx_isSome,if_pos rfl]
  rfl

theorem Counted.used_other (h : s.Counted s' key limit) (hk : k ≠ key) :
    s'.used k = s.used k ∨ s'.used k = 0 ∧ s'.Outdated k.windowStart := by
  by_cases hout : (s.insertIfAbsent key).Outdated k.windowStart
  · refine .inr ⟨?_,h.outdated_iff.mpr hout⟩
    rw [used,h.after,row_setUsed h.row_tx_isSome,if_neg hk,row_prune_of_outdated hout]
    rfl
  · refine .inl ?_
    rw [used,h.after,row_setUsed h.row_tx_isSome,if_neg hk,row_prune hout,row_insertIfAbsent,if_neg hk]
    rfl

theorem Counted.consumers_eq (h : s.Counted s' key limit) : s'.consumers = s.consumers := by
  rw [h.after,setUsed,prune,insertIfAbsent]
  split <;> rfl

theorem Counted.rises (h : s.Counted s' key limit) : Rises key limit s s' := by
  have hused := h.used_self
  have hwithin := h.within
  refine ⟨?_,hused,by omega,fun hout => h.alive hout.insertIfAbsent⟩
  rw [h.outdated_iff]
  exact h.alive

theorem Counted.fades (h : s.Counted s' key limit) (hk : k ≠ key) : Fades k s s' := by
  have hmono : s.Outdated k.windowStart → s'.Outdated k.windowStart := fun hout => h.outdated_iff.mpr hout.insertIfAbsent
  rcases h.used_other hk with he | ⟨hzero,hout⟩
  · exact ⟨.inl he,he.le,hmono⟩
  · exact ⟨.inr hout,by omega,hmono⟩

end StateStore

/-- The window of a budget a check is counted in. -/
def windowKey (c : QuotaCheck) (b : Budget) : QuotaKey := ⟨c.consumerId,b.key,(b.window c.now).1⟩

section Runs
open StateStore
variable {s s' : StateStore} {c : QuotaCheck} {b : Budget} {k : QuotaKey} {limit : ℕ}

/-- One check of a store after another. -/
def checks : Machine StateStore QuotaCheck QuotaOutcome where
  step s c := ((check s c.consumerId c.quotas c.now).2,(check s c.consumerId c.quotas c.now).1)

/-- A unit is refused with the store as before, or counted. -/
theorem spend_cases (s : StateStore) (consumerId : ℤ) (b : Budget) (start : ℤ) (limit : ℕ) :
    (∃ a, (counters consumerId).spend s b start limit = (a,s) ∧ a ≠ .refused ∧
        ∀ used, a = .exhausted used → used = s.getQuota consumerId b.key start ∧ (limit ≤ used ∨ 2 ^ 64 ≤ used + 1)) ∨
      ∃ used s', (counters consumerId).spend s b start limit = (.counted used,s') ∧ s.Counted s' ⟨consumerId,b.key,start⟩ limit := by
  rcases s.incrQuota_cases consumerId b.key start limit with ⟨e,he,hexceeded⟩ | ⟨s',hs,hcounted⟩
  · left
    rw [counters]
    simp only [he]
    cases e with
    | quotaExceeded used l n =>
      refine ⟨_,rfl,by simp,?_⟩
      intro u hu
      obtain rfl := Spend.exhausted.inj hu
      exact hexceeded _ _ _ rfl
    | unknownConsumer => exact ⟨_,rfl,by simp,by simp⟩
    | sqlite => exact ⟨_,rfl,by simp,by simp⟩
  · right
    rw [counters]
    simp only [hs]
    exact ⟨_,_,rfl,hcounted⟩

/-- A check counts at most one unit of a window, a window of its own, within the limit. -/
theorem check_cases (s : StateStore) (c : QuotaCheck) (k : QuotaKey) :
    Fades k s (checks.next s c) ∨
      ∃ b limit r r', windowKey c b = k ∧ b.limit c.quotas = some limit ∧ Fades k s r ∧ Rises k limit r r' ∧
        Fades k r' (checks.next s c) := by
  have hspends : Spends (counters c.consumerId) c.quotas c.now Budget.all s (checks.next s c) := checkFrom_spends Budget.all none s
  have hfades : ∀ b, windowKey c b ≠ k → ∀ s limit, Fades k s ((counters c.consumerId).spend s b (b.window c.now).1 limit).2 := by
    intro b hb s limit
    rcases spend_cases s c.consumerId b (b.window c.now).1 limit with ⟨a,hs,-⟩ | ⟨used,s',hs,hcounted⟩
    · rw [hs]
      exact refl_of (Fades k) s
    · rw [hs]
      exact hcounted.fades (Ne.symm hb)
  by_cases hk : ∃ b, windowKey c b = k
  · obtain ⟨b,hb⟩ := hk
    have hother : ∀ b', b' ≠ b → windowKey c b' ≠ k := by
      rintro b' hne rfl
      apply hne
      apply Budget.key_injective
      exact (congrArg QuotaKey.counterKey hb).symm
    have hspend : ∀ s limit, Fades k s ((counters c.consumerId).spend s b (b.window c.now).1 limit).2 ∨
        Rises k limit s ((counters c.consumerId).spend s b (b.window c.now).1 limit).2 := by
      intro s limit
      rcases spend_cases s c.consumerId b (b.window c.now).1 limit with ⟨a,hs,-⟩ | ⟨used,s',hs,hcounted⟩
      · rw [hs]
        exact .inl (refl_of (Fades k) s)
      · rw [hs]
        have hrises : Rises (windowKey c b) limit s s' := hcounted.rises
        rw [hb] at hrises
        exact .inr hrises
    rcases hspends.at_most_once (Fades k) (Rises k) b (fun b' hne s limit _ => hfades b' (hother b' hne) s limit)
      (fun s limit _ => hspend s limit) Budget.all_nodup with h | ⟨limit,r,r',hl,-,hsr,hrise,hrs⟩
    · exact .inl h
    · exact .inr ⟨b,limit,r,r',hb,hl,hsr,hrise,hrs⟩
  · rw [not_exists] at hk
    rcases hspends.at_most_once (Fades k) (fun _ _ _ => False) .daily (fun b' _ s limit _ => hfades b' (hk b') s limit)
      (fun s limit _ => .inl (hfades _ (hk _) s limit)) Budget.all_nodup with h | ⟨_,_,_,_,_,_,hfalse,_⟩
    · exact .inl h
    · exact hfalse.elim

/-- Units a check counts in a window. -/
def rise (k : QuotaKey) (s : StateStore) (c : QuotaCheck) : ℕ := (checks.next s c).used k - s.used k

/-- What ties a window's units to its counter: they are all in it while it may still be counted in. -/
def Metered (k : QuotaKey) (n : ℕ) (s : StateStore) : Prop := n ≤ s.used k ∨ s.Outdated k.windowStart

theorem metered_step {n : ℕ} (h : Metered k n s) : Metered k (n + rise k s c) (checks.next s c) ∧
    (0 < rise k s c → ∃ b limit, windowKey c b = k ∧ b.limit c.quotas = some limit ∧ n + rise k s c ≤ limit) := by
  rw [rise]
  rcases check_cases s c k with hfades | ⟨b,limit,r,r',hb,hl,hsr,hrise,hrs⟩
  · have hle := hfades.no_rise
    have hzero : (checks.next s c).used k - s.used k = 0 := by omega
    rw [hzero]
    refine ⟨?_,fun h => absurd h (Nat.lt_irrefl 0)⟩
    rcases h with hn | hout
    · rcases hfades.kept with he | hout
      · exact .inl (by omega)
      · exact .inr hout
    · exact .inr (hfades.outdated hout)
  · have hrise₁ := hrise.rise
    have hwithin := hrise.within
    have hr : r.used k = s.used k := hsr.kept.resolve_right hrise.alive_before
    have hn : n ≤ s.used k := h.resolve_right fun hout => hrise.alive_before (hsr.outdated hout)
    have hle := hrs.no_rise
    refine ⟨?_,fun hpos => ⟨b,limit,hb,hl,by omega⟩⟩
    rcases hrs.kept with he | hout
    · exact .inl (by omega)
    · exact .inr hout

theorem metered (k : QuotaKey) (s : StateStore) (cs : List QuotaCheck) : Metered k (checks.spent (rise k) s cs) (checks.run s cs) :=
  checks.spent_inv (rise k) (Metered k) (.inl (Nat.zero_le _)) cs fun _ _ _ _ h => (metered_step h).1

/-- When a check counts a unit in a window, all units counted in it so far are within
the limit the check comes with. -/
theorem spent_le_limit {cs : List QuotaCheck} (h : 0 < rise k (checks.run s cs) c) :
    ∃ b limit, windowKey c b = k ∧ b.limit c.quotas = some limit ∧ checks.spent (rise k) s (cs ++ [c]) ≤ limit := by
  rw [Machine.spent_concat]
  exact (metered_step (metered k s cs)).2 h

end Runs

section Denials
variable {s s' : StateStore} {c : QuotaCheck} {b : Budget} {limit remaining reset retry : ℕ}

/-- A request refused by the daily budget consumes nothing. -/
theorem daily_denial_keeps (h : checks.answer s c = .denied limit remaining reset retry .daily) : checks.next s c = s := by
  have hcheck : checkFrom (counters c.consumerId) c.quotas c.now (.daily :: [.monthly]) none s =
      (.denied limit remaining reset retry .daily,checks.next s c) := Prod.ext h rfl
  apply checkFrom_denied_first _ (by decide) hcheck
  intro s s' b start limit hs
  rcases spend_cases s c.consumerId b start limit with ⟨a,ha,-⟩ | ⟨used,r,hr,-⟩
  · rcases hs with ⟨used,hs⟩ | hs
    · exact (Prod.mk.inj (hs.symm.trans ha)).2
    · exact (Prod.mk.inj (hs.symm.trans ha)).2
  · rcases hs with ⟨used',hs⟩ | hs
    · cases hs.symm.trans hr
    · cases hs.symm.trans hr

/-- A denied client is told to wait as long as the longest of the exhausted budgets. -/
theorem denial_wait (hlimits : ∀ (b : Budget) limit, b.limit c.quotas = some limit → limit < 2 ^ 63)
    (h : checks.answer s c = .denied limit remaining reset retry b) :
    IsGreatest {w | ∃ b, Exhausted (counters c.consumerId) c.quotas c.now (checks.next s c) b ∧ w = b.wait c.now} retry := by
  have hcheck : checkFrom (counters c.consumerId) c.quotas c.now Budget.all none s =
      (.denied limit remaining reset retry b,checks.next s c) := Prod.ext h rfl
  obtain ⟨r,hlimit,-,⟨used,hspend,hdeny⟩ | hrefused⟩ := checkFrom_denied hcheck
  · rcases spend_cases r c.consumerId b (b.window c.now).1 limit with ⟨a,ha,-,hexhausted⟩ | ⟨used',r',hr,-⟩
    · obtain ⟨rfl,hr⟩ := Prod.mk.inj (hspend.symm.trans ha)
      obtain ⟨hused,hle⟩ := hexhausted used rfl
      have hsmall := hlimits b limit hlimit
      refine deny_wait ⟨limit,used,hlimit,?_,by omega⟩ hdeny
      rw [hr,hused]
      rfl
    · cases hspend.symm.trans hr
  · rcases spend_cases r c.consumerId b (b.window c.now).1 limit with ⟨a,ha,hne,-⟩ | ⟨used',r',hr,-⟩
    · obtain ⟨rfl,-⟩ := Prod.mk.inj (hrefused.symm.trans ha)
      exact absurd rfl hne
    · cases hrefused.symm.trans hr

end Denials
end Dwara.State.Quotas

/-! When charging a quota counter is exact: what a charge returns and which rows it leaves alone. -/

namespace Dwara.State.Quotas.StateStore

variable {s : StateStore} {key : QuotaKey} {consumerId windowStart : ℤ} {counterKey : String} {amount : ℕ} {limit : Option ℕ}

/-- The limit leaves room for the amount. -/
def Fits (s : StateStore) (key : QuotaKey) (amount : ℕ) (limit : Option ℕ) : Prop := ∀ l ∈ limit, s.used key + amount ≤ l

/-- What a charge of a counter is to do: it succeeds if it fits, returns the new count,
keeps the rows of every window that starts less than the retention before the charged one,
and keeps everything when the quota is exceeded. -/
structure ChargedExactly (s : StateStore) (key : QuotaKey) (amount : ℕ) (limit : Option ℕ) (res : Except StoreError ℕ × StateStore) :
    Prop where
  succeeds_iff : (∃ v, res.1 = .ok v) ↔ s.Fits key amount limit
  counted : ∀ v, res.1 = .ok v → v = s.used key + amount ∧ res.2.row key = some v
  kept : ∀ v, res.1 = .ok v → ∀ k ≠ key, key.windowStart - quotaRetentionSecs < k.windowStart → res.2.row k = s.row k
  atomic : ∀ used l n, res.1 = .error (.quotaExceeded used l n) → res.2 = s

/-- The pruning spares the charged window and every window that starts less than the
retention before it: none of them starts more than the retention before the newest window. -/
def Spares (s : StateStore) (start : ℤ) : Prop :=
  ¬ s.Outdated start ∧ ∀ r ∈ s.counters, start - quotaRetentionSecs < r.1.windowStart → ¬ s.Outdated r.1.windowStart

instance (s : StateStore) (start : ℤ) : Decidable (s.Spares start) := inferInstanceAs (Decidable (_ ∧ ∀ r ∈ s.counters, _))

/-- The row being charged outdates no window that starts less than the retention before it. -/
theorem outdated_insertIfAbsent_iff {start : ℤ} (h : key.windowStart ≤ start + quotaRetentionSecs) :
    (s.insertIfAbsent key).Outdated start ↔ s.Outdated start := by
  refine ⟨?_,Outdated.insertIfAbsent⟩
  rintro ⟨r,hr,hlt⟩
  rw [insertIfAbsent] at hr
  split at hr
  · exact ⟨r,hr,hlt⟩
  · rcases List.mem_append.mp hr with hr | hr
    · exact ⟨r,hr,hlt⟩
    · obtain rfl := List.mem_singleton.mp hr
      exact absurd h (Int.not_le.mpr hlt)

theorem outdated_insertIfAbsent_self : (s.insertIfAbsent key).Outdated key.windowStart ↔ s.Outdated key.windowStart :=
  outdated_insertIfAbsent_iff (Int.le_add_of_nonneg_right (by decide))

section Charge
variable (hconsumer : s.consumers consumerId = true) (hkey : key = ⟨consumerId,counterKey,windowStart⟩)
include hconsumer hkey

/-- A charge of an outdated window fails, its row being pruned before it is read. -/
theorem incrQuota_outdated (hout : s.Outdated key.windowStart) :
    s.incrQuota consumerId counterKey windowStart amount limit = (.error .sqlite,s) := by
  rw [incrQuota,if_pos hconsumer]
  simp only [← hkey,row_prune_of_outdated (outdated_insertIfAbsent_self.mpr hout)]

variable (hout : ¬ s.Outdated key.windowStart)
include hout

theorem incrQuota_fits (hbound : s.used key + amount < 2 ^ 63) (hfits : s.Fits key amount limit) :
    s.incrQuota consumerId counterKey windowStart amount limit =
      (.ok (s.used key + amount),(s.insertIfAbsent key).prune.setUsed key (s.used key + amount)) := by
  have hlimit : (limit.filter fun l => 2 ^ 64 ≤ s.used key + amount ∨ l < s.used key + amount) = none := by
    rw [Option.filter_eq_none_iff]
    intro l hl
    have hwithin := hfits l hl
    simp only [decide_eq_true_eq]
    omega
  have hamount : min amount (2 ^ 63 - 1) = amount := min_eq_left (by omega)
  rw [incrQuota,if_pos hconsumer]
  simp only [← hkey,row_tx (mt outdated_insertIfAbsent_self.mp hout),hlimit,hamount,hbound,if_true]

theorem incrQuota_exceeds (hexceeds : ¬ s.Fits key amount limit) :
    ∃ l, s.incrQuota consumerId counterKey windowStart amount limit = (.error (.quotaExceeded (s.used key) l amount),s) := by
  obtain ⟨l,hl⟩ := not_forall.mp hexceeds
  obtain ⟨rfl,hlt⟩ := Classical.not_imp.mp hl
  refine ⟨l,?_⟩
  have hlimit : ((some l).filter fun l => 2 ^ 64 ≤ s.used key + amount ∨ l < s.used key + amount) = some l := by
    rw [Option.filter_some,if_pos]
    simp only [decide_eq_true_eq]
    omega
  rw [incrQuota,if_pos hconsumer]
  simp only [← hkey,row_tx (mt outdated_insertIfAbsent_self.mp hout),hlimit]

end Charge

/-- The rows after a charge that fits. -/
theorem row_charged {k : QuotaKey} (hout : ¬ s.Outdated key.windowStart) (hk : k ≠ key)
    (hrecent : key.windowStart - quotaRetentionSecs < k.windowStart) :
    ((s.insertIfAbsent key).prune.setUsed key (s.used key + amount)).row k = if s.Outdated k.windowStart then none else s.row k := by
  have hsame : (s.insertIfAbsent key).Outdated k.windowStart ↔ s.Outdated k.windowStart := outdated_insertIfAbsent_iff (by omega)
  have hrow := row_tx (mt outdated_insertIfAbsent_self.mp hout)
  rw [row_setUsed (by rw [hrow]; rfl),if_neg hk]
  split
  · rename_i hold
    exact row_prune_of_outdated (hsame.mpr hold)
  · rename_i hlive
    rw [row_prune (mt hsame.mp hlive),row_insertIfAbsent,if_neg hk]

section Exact
variable (hconsumer : s.consumers consumerId = true) (hkey : key = ⟨consumerId,counterKey,windowStart⟩)
include hconsumer hkey

/-- A charge that does not fit fails and leaves the table alone. -/
theorem exact_of_not_fits (hfits : ¬ s.Fits key amount limit) :
    s.ChargedExactly key amount limit (s.incrQuota consumerId counterKey windowStart amount limit) := by
  by_cases hout : s.Outdated key.windowStart
  · rw [incrQuota_outdated hconsumer hkey hout]
    exact ⟨iff_of_false (by simp) hfits,by simp,by simp,by simp⟩
  · obtain ⟨l,hl⟩ := incrQuota_exceeds hconsumer hkey hout hfits
    rw [hl]
    exact ⟨iff_of_false (by simp) hfits,by simp,by simp,by simp⟩

/-- A charge that fits is not exact when its own row is pruned. -/
theorem not_exact_of_outdated (hout : s.Outdated key.windowStart) (hfits : s.Fits key amount limit) :
    ¬ s.ChargedExactly key amount limit (s.incrQuota consumerId counterKey windowStart amount limit) := by
  intro hexact
  rw [incrQuota_outdated hconsumer hkey hout] at hexact
  obtain ⟨v,hv⟩ := hexact.succeeds_iff.mpr hfits
  cases hv

/-- Otherwise it is exact if the pruning spares the rows it is to leave alone. -/
theorem exact_iff_of_fits (hout : ¬ s.Outdated key.windowStart) (hbound : s.used key + amount < 2 ^ 63) (hfits : s.Fits key amount limit) :
    s.ChargedExactly key amount limit (s.incrQuota consumerId counterKey windowStart amount limit) ↔ s.Spares key.windowStart := by
  rw [incrQuota_fits hconsumer hkey hout hbound hfits]
  constructor
  · intro hexact
    refine ⟨hout,fun r hr hrecent hold => ?_⟩
    have hne : r.1 ≠ key := fun h => hout (h ▸ hold)
    have hpruned := hexact.kept _ rfl r.1 hne hrecent
    rw [row_charged hout hne hrecent,if_pos hold] at hpruned
    exact row_eq_none.mp hpruned.symm r hr rfl
  · intro hspares
    refine ⟨⟨fun _ => hfits,fun _ => ⟨_,rfl⟩⟩,?_,?_,by simp⟩
    · rintro v hv
      obtain rfl := Except.ok.inj hv
      have hrow := row_tx (mt outdated_insertIfAbsent_self.mp hout)
      exact ⟨rfl,by rw [row_setUsed (by rw [hrow]; rfl),if_pos rfl]⟩
    · rintro v - k hk hrecent
      rw [row_charged hout hk hrecent]
      split
      · rename_i hold
        refine (row_eq_none.mpr ?_).symm
        rintro r hr rfl
        exact hspares.2 r hr hrecent hold
      · rfl

end Exact

/-- A known consumer's charge is exact if and only if it does not fit, or the pruning spares
the windows it is to leave alone. -/
theorem incrQuota_exact_iff (s : StateStore) (consumerId : ℤ) (counterKey : String) (windowStart : ℤ) (amount : ℕ) (limit : Option ℕ)
    (hconsumer : s.consumers consumerId = true) (hbound : s.used ⟨consumerId,counterKey,windowStart⟩ + amount < 2 ^ 63) :
    s.ChargedExactly ⟨consumerId,counterKey,windowStart⟩ amount limit
        (s.incrQuota consumerId counterKey windowStart amount limit) ↔
      (s.Fits ⟨consumerId,counterKey,windowStart⟩ amount limit → s.Spares windowStart) := by
  by_cases hfits : s.Fits ⟨consumerId,counterKey,windowStart⟩ amount limit
  · by_cases hout : s.Outdated windowStart
    · exact iff_of_false (not_exact_of_outdated hconsumer rfl hout hfits) fun hspares => (hspares hfits).1 hout
    · rw [exact_iff_of_fits hconsumer rfl hout hbound hfits]
      exact ⟨fun hspares _ => hspares,fun hspares => hspares hfits⟩
  · exact iff_of_true (exact_of_not_fits hconsumer rfl hfits) fun h => absurd h hfits

/-- A store that once saw a window more than a year ahead. -/
def aheadStore : StateStore where
  consumers := fun id => id = 1
  counters := [(⟨1,"daily",1_800_057_600⟩,1)]

/-- Its consumer is no longer charged in today's window. -/
theorem aheadStore_fails :
    aheadStore.Fits ⟨1,"daily",1_700_006_400⟩ 1 none ∧
      aheadStore.incrQuota 1 "daily" 1_700_006_400 1 none = (.error .sqlite,aheadStore) ∧
      ¬ aheadStore.ChargedExactly ⟨1,"daily",1_700_006_400⟩ 1 none (aheadStore.incrQuota 1 "daily" 1_700_006_400 1 none) := by
  have hfits : aheadStore.Fits ⟨1,"daily",1_700_006_400⟩ 1 none := nofun
  have hfails : aheadStore.incrQuota 1 "daily" 1_700_006_400 1 none = (.error .sqlite,aheadStore) :=
    incrQuota_outdated rfl rfl (by decide)
  refine ⟨hfits,hfails,fun hexact => ?_⟩
  obtain ⟨v,hv⟩ := hexact.succeeds_iff.mpr hfits
  rw [hfails] at hv
  cases hv

theorem incrQuota_exact_iff_ahead :
    aheadStore.ChargedExactly ⟨1,"daily",1_799_971_200⟩ 4 (some 5) (aheadStore.incrQuota 1 "daily" 1_799_971_200 4 (some 5)) ↔
      (aheadStore.Fits ⟨1,"daily",1_799_971_200⟩ 4 (some 5) → aheadStore.Spares 1_799_971_200) :=
  incrQuota_exact_iff aheadStore 1 "daily" 1_799_971_200 4 (some 5) rfl (by decide)

end Dwara.State.Quotas.StateStore
