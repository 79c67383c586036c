import Dwara.Extensions.RateLimiter
import Mathlib.Data.List.Induction
import Mathlib.Data.List.Nodup
import Mathlib.Data.List.Flatten

/-! What one request does to the rules of an engine: every rule of an attached policy is
checked once, in resolution order, and the denials settle into one outcome. -/

namespace Dwara.Extensions.RateLimiter

section Resolved
variable {names : List String} {x : String}

private theorem resolved_concat (names : List String) (x : String) :
    resolved (names ++ [x]) = resolved names ++ if x ∈ names then [] else [x] := by
  have hearlier : names.zipIdx.filter (fun p => p.1 ∉ (names ++ [x]).take p.2) =
      names.zipIdx.filter (fun p => p.1 ∉ names.take p.2) := by
    apply List.filter_congr
    intro p hp
    have hle : p.2 ≤ names.length := by
      have := (List.mem_zipIdx hp).2.1
      omega
    rw [List.take_append_of_le_length hle]
  rw [resolved]
  rw [List.zipIdx_append,List.filter_append,hearlier,List.map_append]
  congr 1
  by_cases h : x ∈ names
  · simp [h]
  · simp [h]

/-- Every attached name is resolved, -/
theorem mem_resolved : x ∈ resolved names ↔ x ∈ names := by
  induction names using List.reverseRecOn with
  | nil => simp [resolved]
  | append_singleton names y ih =>
    rw [resolved_concat,List.mem_append,ih,List.mem_append]
    split
    · simp only [List.not_mem_nil,or_false,List.mem_singleton]
      refine ⟨.inl,fun h => h.elim id ?_⟩
      rintro rfl
      assumption
    · rfl

/-- and at one position only. -/
theorem resolved_nodup (names : List String) : (resolved names).Nodup := by
  induction names using List.reverseRecOn with
  | nil => simp [resolved]
  | append_singleton names y ih =>
    rw [resolved_concat]
    split
    · simpa using ih
    · rename_i hy
      refine List.Nodup.append ih (List.nodup_singleton y) ?_
      intro z hz hzy
      obtain rfl := List.mem_singleton.mp hzy
      exact hy (mem_resolved.mp hz)

/-- Resolution drops no name of a kind that is attached once only. -/
theorem resolved_filter {p : String → Bool} (h : (names.filter p).Nodup) : (resolved names).filter p = names.filter p := by
  induction names using List.reverseRecOn with
  | nil => simp [resolved]
  | append_singleton names y ih =>
    rw [List.filter_append] at h ⊢
    rw [resolved_concat,List.filter_append,ih h.of_append_left]
    split
    · rename_i hy
      have hpy : ¬p y := fun hp => List.disjoint_of_nodup_append h (List.mem_filter.mpr ⟨hy,hp⟩) (by simp [hp])
      rw [List.filter_cons_of_neg hpy]
    · rfl

end Resolved

section Sweep
variable {γ : Type} {gov : Governor γ} {req : Request} {env : ℕ → CheckEnv}

/-- The rules a list of policies resolves to, in order. -/
def chain (names : List String) (rules : List (EngineRule γ)) : List (EngineRule γ) :=
  names.flatMap (fun name => rules.filter (fun rule => rule.policyName = name))

/-- Check a list of rules, each in the state it has in the list. -/
def sweep (gov : Governor γ) (req : Request) (env : ℕ → CheckEnv) :
    List (EngineRule γ) → RedisStore → RedisStore × List Verdict
  | [], store => (store,[])
  | rule :: rules, store =>
    let (_,store,verdict) := rule.check gov req env store
    let (store,verdicts) := sweep gov req env rules store
    (store,verdict :: verdicts)

/-- The rule after its check. -/
def EngineRule.charged (gov : Governor γ) (req : Request) (env : ℕ → CheckEnv) (rule : EngineRule γ) : EngineRule γ :=
  (rule.check gov req env (fun _ => none)).1

variable (rule : EngineRule γ) (store : RedisStore)

/-- What a check leaves of the rule does not depend on the store. -/
theorem check_fst : (rule.check gov req env store).1 = rule.charged gov req env := by
  unfold EngineRule.charged EngineRule.check
  cases rule.limiter <;> rfl

@[simp] theorem charged_policyName : (rule.charged gov req env).policyName = rule.policyName := by
  rw [EngineRule.charged,EngineRule.check]
  cases rule.limiter <;> rfl

@[simp] theorem charged_dryRun : (rule.charged gov req env).dryRun = rule.dryRun := by
  rw [EngineRule.charged,EngineRule.check]
  cases rule.limiter <;> rfl

@[simp] theorem check_position : (rule.check gov req env store).2.2.position = rule.position := by
  rw [EngineRule.check]
  cases rule.limiter <;> rfl

@[simp] theorem check_dryRun : (rule.check gov req env store).2.2.dryRun = rule.dryRun := by
  rw [EngineRule.check]
  cases rule.limiter <;> rfl

variable {rules : List (EngineRule γ)}

theorem sweep_append (xs ys : List (EngineRule γ)) (store : RedisStore) :
    sweep gov req env (xs ++ ys) store =
      ((sweep gov req env ys (sweep gov req env xs store).1).1,
        (sweep gov req env xs store).2 ++ (sweep gov req env ys (sweep gov req env xs store).1).2) := by
  induction xs generalizing store with
  | nil => rfl
  | cons x xs ih => simp only [List.cons_append,sweep,ih]

theorem sweep_positions (rules : List (EngineRule γ)) (store : RedisStore) :
    (sweep gov req env rules store).2.map (·.position) = rules.map (·.position) := by
  induction rules generalizing store with
  | nil => rfl
  | cons rule rules ih => simp only [sweep,List.map_cons,check_position,ih]

/-- Visiting one policy charges its rules and no others. -/
theorem visitPolicy_eq (name : String) (rules : List (EngineRule γ)) (store : RedisStore) :
    visitPolicy gov req env name rules store =
      ⟨rules.map (fun rule => if rule.policyName = name then rule.charged gov req env else rule),
        (sweep gov req env (rules.filter (fun rule => rule.policyName = name)) store).1,
        (sweep gov req env (rules.filter (fun rule => rule.policyName = name)) store).2⟩ := by
  induction rules generalizing store with
  | nil => rfl
  | cons rule rules ih =>
    by_cases h : rule.policyName = name
    · simp [visitPolicy,sweep,h,ih,check_fst]
    · simp [visitPolicy,h,ih]

/-- Charging other policies' rules leaves the rules a list of policies resolves to. -/
private theorem chain_charged (names : List String) {name : String} (hname : name ∉ names) (rules : List (EngineRule γ)) :
    chain names (rules.map (fun rule => if rule.policyName = name then rule.charged gov req env else rule)) =
      chain names rules := by
  rw [chain]
  apply List.flatMap_congr
  intro n hn
  have hne : n ≠ name := fun he => hname (he ▸ hn)
  induction rules with
  | nil => rfl
  | cons rule rules ih =>
    rw [List.map_cons]
    by_cases h : rule.policyName = name
    · have hskip : rule.policyName ≠ n := fun he => hne (he.symm.trans h)
      have hskip' : (rule.charged gov req env).policyName ≠ n := by rwa [charged_policyName]
      rw [if_pos h,List.filter_cons_of_neg (by simpa using hskip'),List.filter_cons_of_neg (by simpa using hskip),ih]
    · rw [if_neg h,List.filter_cons,List.filter_cons,ih]

/-- A pass over different policies charges each of their rules once, in its own state. -/
theorem visitPolicies_eq {names : List String} (hn : names.Nodup) (rules : List (EngineRule γ)) (store : RedisStore) :
    visitPolicies gov req env names rules store =
      ⟨rules.map (fun rule => if rule.policyName ∈ names then rule.charged gov req env else rule),
        (sweep gov req env (chain names rules) store).1,(sweep gov req env (chain names rules) store).2⟩ := by
  induction names generalizing rules store with
  | nil => simp [visitPolicies,chain,sweep]
  | cons name names ih =>
    obtain ⟨hname,hnames⟩ := List.nodup_cons.mp hn
    have hchain : chain (name :: names) rules = rules.filter (fun rule => rule.policyName = name) ++ chain names rules := rfl
    simp only [visitPolicies,visitPolicy_eq,ih hnames,chain_charged names hname,hchain,sweep_append,List.map_map]
    congr 1
    apply List.map_congr_left
    intro rule _
    by_cases h : rule.policyName = name
    · have hrest : rule.policyName ∉ names := h ▸ hname
      simp [h,hname]
    · simp [h]

theorem pass_eq (rules : List (EngineRule γ)) (store : RedisStore) :
    pass gov req env rules store =
      ⟨rules.map (fun rule => if rule.policyName ∈ req.attached.names then rule.charged gov req env else rule),
        (sweep gov req env (chain (resolved req.attached.names) rules) store).1,
        (sweep gov req env (chain (resolved req.attached.names) rules) store).2⟩ := by
  rw [pass,visitPolicies_eq (resolved_nodup _)]
  simp only [mem_resolved]

theorem mem_chain {names : List String} : rule ∈ chain names rules ↔ rule ∈ rules ∧ rule.policyName ∈ names := by
  simp [chain,and_comm]

theorem chain_positions_nodup {names : List String} (hn : names.Nodup)
    (hp : (rules.map (·.position)).Nodup) : ((chain names rules).map (·.position)).Nodup := by
  rw [chain]
  rw [List.map_flatMap,List.nodup_flatMap]
  refine ⟨fun name _ => (List.filter_sublist.map _).nodup hp,hn.imp ?_⟩
  intro a b hab position ha hb
  obtain ⟨r,hr,rfl⟩ := List.mem_map.mp ha
  obtain ⟨r',hr',heq⟩ := List.mem_map.mp hb
  obtain ⟨hr,hra⟩ := List.mem_filter.mp hr
  obtain ⟨hr',hrb⟩ := List.mem_filter.mp hr'
  obtain rfl := List.inj_on_of_nodup_map hp hr' hr heq
  exact hab ((of_decide_eq_true hra).symm.trans (of_decide_eq_true hrb))

/-- Each attached rule is charged exactly once, and no other rule is. -/
theorem pass_charges_once (engine : RateLimitEngine γ) (req : Request) (env : ℕ → CheckEnv) (store : RedisStore)
    (hrule : rule ∈ engine.rules) :
    ((pass gov req env engine.rules store).verdicts.map (·.position)).count rule.position =
      if rule.policyName ∈ req.attached.names then 1 else 0 := by
  rw [pass_eq,sweep_positions]
  split
  · rename_i hattached
    apply List.count_eq_one_of_mem (chain_positions_nodup (resolved_nodup _) engine.positions_nodup)
    exact List.mem_map_of_mem ((mem_chain rule).mpr ⟨hrule,mem_resolved.mpr hattached⟩)
  · rename_i hattached
    apply List.count_eq_zero_of_not_mem
    intro hmem
    obtain ⟨r,hr,heq⟩ := List.mem_map.mp hmem
    obtain ⟨hr,hname⟩ := (mem_chain r).mp hr
    obtain rfl := List.inj_on_of_nodup_map engine.positions_nodup hr hrule heq
    exact hattached (mem_resolved.mp hname)

end Sweep

section Settling

/-- The denials of live rules, in the order they were seen. -/
def liveDenials (verdicts : List Verdict) : List Denial :=
  verdicts.filterMap (fun v => if v.dryRun then none else match v.outcome with | .denied d => some d | _ => none)

theorem mem_liveDenials {verdicts : List Verdict} {d : Denial} :
    d ∈ liveDenials verdicts ↔ ∃ v ∈ verdicts, v.dryRun = false ∧ v.outcome = .denied d := by
  rw [liveDenials]
  rw [List.mem_filterMap]
  refine exists_congr fun v => and_congr_right fun _ => ?_
  cases v.dryRun with
  | true => simp
  | false => cases v.outcome <;> simp

private theorem absorb_denied (verdicts : List Verdict) (s : Sinks) :
    (verdicts.foldl Sinks.absorb s).denied =
      (liveDenials verdicts).foldl (fun sink d => some (stretch sink d)) s.denied := by
  induction verdicts generalizing s with
  | nil => rfl
  | cons v verdicts ih =>
    rw [List.foldl_cons,ih]
    obtain ⟨position,dryRun,outcome⟩ := v
    cases dryRun with
    | true => cases outcome <;> simp [liveDenials,Sinks.absorb]
    | false =>
      cases outcome with
      | notLimited => simp [liveDenials,Sinks.absorb]
      | denied d => simp [liveDenials,Sinks.absorb]
      | allowed limit remaining resetEpochS =>
        simp only [liveDenials,Sinks.absorb]
        split
        · simp
        · split
          · split <;> simp
          · simp

/-- The tightest admission is never a denial. -/
private theorem absorb_acc (verdicts : List Verdict) {s : Sinks} (hs : ∀ d, s.acc ≠ some (.denied d)) :
    ∀ d, (verdicts.foldl Sinks.absorb s).acc ≠ some (.denied d) := by
  induction verdicts generalizing s with
  | nil => exact hs
  | cons v verdicts ih =>
    apply ih
    rw [Sinks.absorb]
    split
    · split <;> exact hs
    · split
      · exact hs
      · split
        · split
          · exact hs
          · simp
        · simp
    · exact hs

/-- The first denial keeps its limit and what it had left; the wait becomes the longest. -/
private theorem stretch_run (first : Denial) (ds : List Denial) :
    ∃ d, ds.foldl (fun sink d => some (stretch sink d)) (some first) = some d ∧ d.limit = first.limit ∧
      d.remaining = first.remaining ∧ (∀ e ∈ first :: ds, e.retryAfterS ≤ d.retryAfterS) ∧
      ∃ e ∈ first :: ds, e.retryAfterS = d.retryAfterS := by
  induction ds generalizing first with
  | nil => exact ⟨first,rfl,rfl,rfl,by simp,by simp⟩
  | cons e ds ih =>
    obtain ⟨d,hd,hlimit,hremaining,hle,k,hk,hkd⟩ := ih (stretch (some first) e)
    have hstretch : (stretch (some first) e).limit = first.limit ∧ (stretch (some first) e).remaining = first.remaining ∧
        (stretch (some first) e).retryAfterS = max first.retryAfterS e.retryAfterS := by
      unfold stretch
      simp only
      split
      · exact ⟨rfl,rfl,by simp only; omega⟩
      · exact ⟨rfl,rfl,by omega⟩
    refine ⟨d,hd,hlimit.trans hstretch.1,hremaining.trans hstretch.2.1,fun x hx => ?_,?_⟩
    · have hmax := hle _ List.mem_cons_self
      rw [hstretch.2.2] at hmax
      rcases List.mem_cons.mp hx with rfl | hx
      · omega
      rcases List.mem_cons.mp hx with rfl | hx
      · omega
      · exact hle x (List.mem_cons_of_mem _ hx)
    · rcases List.mem_cons.mp hk with rfl | hk
      · rw [hstretch.2.2] at hkd
        rcases le_total first.retryAfterS e.retryAfterS with h | h
        · exact ⟨e,by simp,by omega⟩
        · exact ⟨first,by simp,by omega⟩
      · exact ⟨k,List.mem_cons_of_mem _ (List.mem_cons_of_mem _ hk),hkd⟩

variable {γ : Type} (gov : Governor γ) (req : Request) (env : ℕ → CheckEnv) (rules : List (EngineRule γ))
  (store : RedisStore)

/-- What a denial says of the denials it stands for. -/
def Denial.Binds (d : Denial) (denials : List Denial) : Prop :=
  (∃ first rest, denials = first :: rest ∧ d.limit = first.limit ∧ d.remaining = first.remaining) ∧
    (∀ e ∈ denials, e.retryAfterS ≤ d.retryAfterS) ∧ ∃ e ∈ denials, e.retryAfterS = d.retryAfterS

private theorem evaluate_denied :
    (∃ d, (evaluate gov req env rules store).outcome = .denied d ∧
      d.Binds (liveDenials (pass gov req env rules store).verdicts)) ∨
    (liveDenials (pass gov req env rules store).verdicts = [] ∧
      ∀ d, (evaluate gov req env rules store).outcome ≠ .denied d) := by
  rw [evaluate,Sinks.evaluation]
  have hsink := absorb_denied (pass gov req env rules store).verdicts ⟨none,none,none⟩
  have hacc := absorb_acc (pass gov req env rules store).verdicts (s := ⟨none,none,none⟩) (fun _ h => nomatch h)
  generalize (pass gov req env rules store).verdicts.foldl Sinks.absorb ⟨none,none,none⟩ = s at hsink hacc ⊢
  cases hlist : liveDenials (pass gov req env rules store).verdicts with
  | nil =>
    right
    rw [hlist] at hsink
    have hnone : s.denied = none := hsink
    refine ⟨rfl,fun d h => ?_⟩
    simp only [hnone] at h
    cases ha : s.acc with
    | none => simp [ha] at h
    | some outcome =>
      rw [ha] at h
      exact hacc d (ha.trans (congrArg some h))
  | cons first rest =>
    left
    rw [hlist] at hsink
    obtain ⟨d,hd,hlimit,hremaining,hle,hwait⟩ := stretch_run first rest
    have hsome : s.denied = some d := hsink.trans hd
    exact ⟨d,by simp only [hsome],⟨first,rest,rfl,hlimit,hremaining⟩,hle,hwait⟩

/-- A request is denied exactly when a live rule denies it, -/
theorem evaluate_denied_iff : (∃ d, (evaluate gov req env rules store).outcome = .denied d) ↔
    ∃ v ∈ (pass gov req env rules store).verdicts, v.dryRun = false ∧ ∃ d, v.outcome = .denied d := by
  have hlive : (∃ v ∈ (pass gov req env rules store).verdicts, v.dryRun = false ∧ ∃ d, v.outcome = .denied d) ↔
      ∃ d, d ∈ liveDenials (pass gov req env rules store).verdicts := by
    constructor
    · rintro ⟨v,hv,hdry,d,hd⟩
      exact ⟨d,mem_liveDenials.mpr ⟨v,hv,hdry,hd⟩⟩
    · rintro ⟨d,hd⟩
      obtain ⟨v,hv,hdry,hd⟩ := mem_liveDenials.mp hd
      exact ⟨v,hv,hdry,d,hd⟩
  rw [hlive]
  rcases evaluate_denied gov req env rules store with ⟨d,hd,⟨first,rest,hlist,-⟩,-⟩ | ⟨hnil,hnone⟩
  · exact ⟨fun _ => ⟨first,hlist ▸ List.mem_cons_self⟩,fun _ => ⟨d,hd⟩⟩
  · rw [hnil]
    exact ⟨fun ⟨d,hd⟩ => absurd hd (hnone d),fun ⟨_,he⟩ => absurd he List.not_mem_nil⟩

/-- and then with the binding denial of its live rules. -/
theorem evaluate_denied_binds (d : Denial) (hd : (evaluate gov req env rules store).outcome = .denied d) :
    d.Binds (liveDenials (pass gov req env rules store).verdicts) := by
  rcases evaluate_denied gov req env rules store with ⟨e,he,hbinds⟩ | ⟨-,hnone⟩
  · cases he.symm.trans hd
    exact hbinds
  · exact absurd hd (hnone d)

end Settling
end Dwara.Extensions.RateLimiter
