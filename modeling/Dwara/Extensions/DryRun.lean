import Dwara.Extensions.RateLimiterPass
import Dwara.Extensions.RedisCells

/-! Enforcement with and without the dry-run rules of an engine. -/

namespace Dwara.Extensions.RateLimiter
open Dwara.Extensions.RedisRateLimiter

variable {γ : Type} {gov : Governor γ} {req : Request} {env : ℕ → CheckEnv}

/-- The rules that enforce. -/
def liveRules (rules : List (EngineRule γ)) : List (EngineRule γ) := rules.filter (fun rule => !rule.dryRun)

/-- The keys under which live rules keep their state, for every request. -/
def LiveCell (rules : List (EngineRule γ)) (k : String) : Prop :=
  ∃ rule ∈ rules, rule.dryRun = false ∧ ∃ l, rule.limiter = .redis l ∧
    ∃ ctx i, i < l.windows.length ∧ k = l.redisKey (buildKey ctx rule.selectors) i

/-- An attached dry-run rule can be charged on a key of a live rule. -/
def SharesCell (rules : List (EngineRule γ)) (req : Request) : Prop :=
  ∃ rule ∈ rules, rule.dryRun = true ∧ rule.policyName ∈ req.attached.names ∧ ∃ l, rule.limiter = .redis l ∧
    ∃ i, l.Spendable (max (req.cost rule.policyName) 1) i ∧
      LiveCell rules (l.redisKey (buildKey req.ctx rule.selectors) i)

section Stripped
variable {cells : String → Prop} {a b : RedisStore} {rule : EngineRule γ}

/-- A live rule says the same on stores that agree on its cells, and keeps them in agreement. -/
private theorem check_live (gov : Governor γ) (env : ℕ → CheckEnv) (hcells : ∀ l, rule.limiter = .redis l → ∀ i < l.windows.length,
    cells (l.redisKey (buildKey req.ctx rule.selectors) i)) (hab : Agree cells a b) :
    (rule.check gov req env a).2.2 = (rule.check gov req env b).2.2 ∧
      Agree cells (rule.check gov req env a).2.1 (rule.check gov req env b).2.1 := by
  unfold EngineRule.check
  cases hl : rule.limiter with
  | localGcra l => exact ⟨rfl,hab⟩
  | redis l =>
    obtain ⟨hresult,hagree⟩ := RedisRateLimiter.check_congr (env rule.position) (req.cost rule.policyName)
      (hcells l hl) hab
    exact ⟨by simp only [hresult],hagree⟩

/-- A dry-run rule that shares no cell leaves the cells alone. -/
private theorem check_dry (hcells : ∀ l, rule.limiter = .redis l → ∀ i,
    l.Spendable (max (req.cost rule.policyName) 1) i → ¬ cells (l.redisKey (buildKey req.ctx rule.selectors) i)) :
    Agree cells (rule.check gov req env a).2.1 a := by
  intro k hk
  rw [EngineRule.check]
  cases hl : rule.limiter with
  | localGcra l => rfl
  | redis l =>
    by_contra hne
    obtain ⟨i,rfl,hspend⟩ := RedisRateLimiter.check_frame hne
    exact hcells l hl i hspend hk

/-- What keeps a rule's charges apart from the cells, or its cells among them. -/
def EngineRule.Apart (cells : String → Prop) (req : Request) (rule : EngineRule γ) : Prop :=
  ∀ l, rule.limiter = .redis l →
    if rule.dryRun then ∀ i, l.Spendable (max (req.cost rule.policyName) 1) i →
      ¬ cells (l.redisKey (buildKey req.ctx rule.selectors) i)
    else ∀ i < l.windows.length, cells (l.redisKey (buildKey req.ctx rule.selectors) i)

/-- Leaving the dry-run rules out changes nothing a live rule says or stores. -/
private theorem sweep_liveRules (gov : Governor γ) (env : ℕ → CheckEnv) (rules : List (EngineRule γ)) (hapart : ∀ rule ∈ rules, rule.Apart cells req)
    (hab : Agree cells a b) :
    Agree cells (sweep gov req env rules a).1 (sweep gov req env (liveRules rules) b).1 ∧
      (sweep gov req env rules a).2.filter (fun v => !v.dryRun) = (sweep gov req env (liveRules rules) b).2 := by
  induction rules generalizing a b with
  | nil => exact ⟨hab,rfl⟩
  | cons rule rules ih =>
    have hrule := hapart rule List.mem_cons_self
    have hrest := fun r hr => hapart r (List.mem_cons_of_mem rule hr)
    cases hdry : rule.dryRun with
    | true =>
      have hskip : liveRules (rule :: rules) = liveRules rules := by simp [liveRules,hdry]
      have hcheck : Agree cells (rule.check gov req env a).2.1 b := fun k hk => by
        rw [← hab k hk]
        refine check_dry (fun l hl => ?_) k hk
        simpa [hdry] using hrule l hl
      obtain ⟨hstore,hverdicts⟩ := ih hrest hcheck
      refine ⟨hskip ▸ hstore,?_⟩
      rw [hskip,← hverdicts]
      simp [sweep,hdry]
    | false =>
      have hkeep : liveRules (rule :: rules) = rule :: liveRules rules := by simp [liveRules,hdry]
      obtain ⟨hsame,hcheck⟩ := check_live gov env (fun l hl => by simpa [hdry] using hrule l hl) hab
      obtain ⟨hstore,hverdicts⟩ := ih hrest hcheck
      rw [hkeep]
      refine ⟨hstore,?_⟩
      simp only [sweep,← hverdicts,← hsame]
      simp [hdry]

private theorem chain_liveRules (names : List String) (rules : List (EngineRule γ)) :
    chain names (liveRules rules) = liveRules (chain names rules) := by
  simp only [chain,liveRules,List.filter_flatMap,List.filter_filter]
  congr 1
  funext name
  apply List.filter_congr
  intro rule _
  exact Bool.and_comm _ _

/-- The live verdicts alone settle the outcome. -/
private theorem absorb_liveVerdicts (verdicts : List Verdict) {s t : Sinks} (hacc : s.acc = t.acc)
    (hdenied : s.denied = t.denied) :
    (verdicts.foldl Sinks.absorb s).evaluation.outcome =
      ((verdicts.filter (fun v => !v.dryRun)).foldl Sinks.absorb t).evaluation.outcome := by
  induction verdicts generalizing s t with
  | nil => simp [Sinks.evaluation,hacc,hdenied]
  | cons v verdicts ih =>
    cases hdry : v.dryRun with
    | true =>
      rw [List.foldl_cons,List.filter_cons_of_neg (by simp [hdry])]
      apply ih
      · rw [← hacc]
        cases ho : v.outcome <;> simp [Sinks.absorb,ho,hdry]
      · rw [← hdenied]
        cases ho : v.outcome <;> simp [Sinks.absorb,ho,hdry]
    | false =>
      rw [List.foldl_cons,List.filter_cons_of_pos (by simp [hdry]),List.foldl_cons]
      obtain ⟨acc,denied,dryDenied⟩ := s
      obtain ⟨acc',denied',dryDenied'⟩ := t
      obtain rfl : acc = acc' := hacc
      obtain rfl : denied = denied' := hdenied
      apply ih
      all_goals
        cases ho : v.outcome with
        | notLimited => simp [Sinks.absorb,ho]
        | denied d => simp [Sinks.absorb,ho,hdry]
        | allowed limit remaining resetEpochS =>
          simp only [Sinks.absorb,ho,hdry]
          split
          · rfl
          · split
            · split <;> rfl
            · rfl

end Stripped

/-- One evaluation as the documentation has it: the dry-run rules might as well not be
there, the live denials bind, and every attached rule is charged once. -/
structure EvaluationHeld (gov : Governor γ) (engine : RateLimitEngine γ) (req : Request) (env : ℕ → CheckEnv)
    (store : RedisStore) : Prop where
  outcome_eq : (evaluate gov req env engine.rules store).outcome =
    (evaluate gov req env (liveRules engine.rules) store).outcome
  rules_eq : liveRules (pass gov req env engine.rules store).rules =
    (pass gov req env (liveRules engine.rules) store).rules
  store_eq : Agree (LiveCell engine.rules) (pass gov req env engine.rules store).store
    (pass gov req env (liveRules engine.rules) store).store
  denied_iff : (∃ d, (evaluate gov req env engine.rules store).outcome = .denied d) ↔
    ∃ v ∈ (pass gov req env engine.rules store).verdicts, v.dryRun = false ∧ ∃ d, v.outcome = .denied d
  denied_binds : ∀ d, (evaluate gov req env engine.rules store).outcome = .denied d →
    d.Binds (liveDenials (pass gov req env engine.rules store).verdicts)
  in_order : (pass gov req env engine.rules store).verdicts.map (·.position) =
    (chain (resolved req.attached.names) engine.rules).map (·.position)
  charged_once : ∀ rule ∈ engine.rules,
    ((pass gov req env engine.rules store).verdicts.map (·.position)).count rule.position =
      if rule.policyName ∈ req.attached.names then 1 else 0

section Charged
variable {rules : List (EngineRule γ)} {store : RedisStore}

private theorem liveRules_map {f : EngineRule γ → EngineRule γ} (hf : ∀ rule, (f rule).dryRun = rule.dryRun)
    (rules : List (EngineRule γ)) : liveRules (rules.map f) = (liveRules rules).map f := by
  rw [liveRules]
  rw [List.filter_map]
  congr 1
  apply List.filter_congr
  intro rule _
  simp [hf]

/-- Rules none of whose scripts is run leave the server alone. -/
private theorem sweep_unreachable (h : ∀ rule ∈ rules, ∀ i, (env rule.position).fate i = .unreachable) :
    (sweep gov req env rules store).1 = store := by
  induction rules generalizing store with
  | nil => rfl
  | cons rule rules ih =>
    have hstore : (rule.check gov req env store).2.1 = store := by
      rw [EngineRule.check]
      cases rule.limiter with
      | localGcra l => rfl
      | redis l => exact RedisRateLimiter.check_unreachable (h rule List.mem_cons_self)
    have hrest : (sweep gov req env rules (rule.check gov req env store).2.1).1 = (rule.check gov req env store).2.1 :=
      ih (fun r hr => h r (List.mem_cons_of_mem rule hr))
    exact hrest.trans hstore

/-- What the checks meet when only the scripts that charge window `i` of one rule run. -/
private def aimedAt (position : ℕ) (l : RedisRateLimiter) (i : ℕ) : ℕ → CheckEnv := fun q =>
  if q = position then l.aimed i else ⟨0,0,0,fun _ => 0,fun _ => .unreachable⟩

private theorem aimedAt_unreachable {position q : ℕ} (h : q ≠ position) (l : RedisRateLimiter) (i j : ℕ) :
    (aimedAt position l i q).fate j = .unreachable := by
  simp [aimedAt,h]

end Charged

/-- For every engine, request and limiter of the cells: whatever the server holds and the
checks meet, evaluation is as documented, exactly when no attached dry-run rule can be
charged on a key of a live rule. -/
theorem dry_run_invisible_iff (gov : Governor γ) (engine : RateLimitEngine γ) (req : Request) :
    (∀ env store, EvaluationHeld gov engine req env store) ↔ ¬ SharesCell engine.rules req := by
  have hnodup := chain_positions_nodup (resolved_nodup req.attached.names) engine.positions_nodup
  constructor
  · rintro hheld ⟨rule,hrule,hdry,hattached,l,hl,i,hspend,hlive⟩
    -- The dry-run rule is the only one whose script is run, on an empty server.
    have hagree := (hheld (aimedAt rule.position l i) (fun _ => none)).store_eq _ hlive
    simp only [pass_eq] at hagree
    obtain ⟨pre,post,hchain⟩ := List.append_of_mem ((mem_chain rule).mpr ⟨hrule,mem_resolved.mpr hattached⟩)
    have hothers : ∀ r, r ∈ pre ∨ r ∈ post → r.position ≠ rule.position := by
      rw [hchain,List.map_append,List.map_cons,List.nodup_append] at hnodup
      rintro r (hr | hr) he
      · exact hnodup.2.2 _ (List.mem_map_of_mem hr) _ List.mem_cons_self he
      · exact (List.nodup_cons.mp hnodup.2.1).1 (he ▸ List.mem_map_of_mem hr)
    have hcharged : (sweep gov req (aimedAt rule.position l i) (chain (resolved req.attached.names) engine.rules)
        (fun _ => none)).1 (l.redisKey (buildKey req.ctx rule.selectors) i) ≠ none := by
      have hcheck : (rule.check gov req (aimedAt rule.position l i) (fun _ => none)).2.1 =
          (l.check (l.aimed i) (fun _ => none) (buildKey req.ctx rule.selectors) (req.cost rule.policyName)).1 := by
        simp [EngineRule.check,hl,aimedAt]
      rw [hchain,sweep_append,sweep_unreachable (fun r hr => aimedAt_unreachable (hothers r (.inl hr)) l i)]
      simp only [sweep]
      rw [hcheck,sweep_unreachable (fun r hr => aimedAt_unreachable (hothers r (.inr hr)) l i)]
      exact RedisRateLimiter.check_aimed hspend
    apply hcharged
    rw [hagree,sweep_unreachable]
    intro r hr j
    rw [chain_liveRules] at hr
    obtain ⟨hr,henforces⟩ := List.mem_filter.mp hr
    refine aimedAt_unreachable (fun he => ?_) l i j
    obtain rfl := List.inj_on_of_nodup_map engine.positions_nodup ((mem_chain r).mp hr).1 hrule he
    simp [hdry] at henforces
  · intro hshares env store
    have hapart : ∀ rule ∈ chain (resolved req.attached.names) engine.rules,
        rule.Apart (LiveCell engine.rules) req := by
      intro rule hrule l hl
      obtain ⟨hrule,hattached⟩ := (mem_chain rule).mp hrule
      cases hdry : rule.dryRun with
      | true =>
        rw [if_pos rfl]
        exact fun i hspend hlive => hshares ⟨rule,hrule,hdry,mem_resolved.mp hattached,l,hl,i,hspend,hlive⟩
      | false =>
        rw [if_neg Bool.false_ne_true]
        exact fun i hi => ⟨rule,hrule,hdry,l,hl,req.ctx,i,hi,rfl⟩
    have hsame : Agree (LiveCell engine.rules) store store := fun _ _ => rfl
    obtain ⟨hstore,hverdicts⟩ := sweep_liveRules gov env _ hapart hsame
    exact {
      outcome_eq := by
        unfold evaluate
        simp only [pass_eq,chain_liveRules,← hverdicts]
        exact absorb_liveVerdicts _ rfl rfl
      rules_eq := by
        simp only [pass_eq]
        exact liveRules_map (fun rule => by split <;> simp) engine.rules
      store_eq := by
        simp only [pass_eq,chain_liveRules]
        exact hstore
      denied_iff := evaluate_denied_iff gov req env engine.rules store
      denied_binds := evaluate_denied_binds gov req env engine.rules store
      in_order := by
        simp only [pass_eq,sweep_positions]
      charged_once := fun rule hrule => pass_charges_once rule engine req env store hrule }

/-- One request a second, kept in Redis per client address. -/
private def addressLimiter : RedisRateLimiter where
  shortest := ⟨1000000000,1000000000,1,1000,by decide,by decide⟩
  longer := []
  failOpen := true
  keyPrefix := "dwara:rl:"
  keyTtlS := 60
  isCluster := false

private def monitoredEngine : RateLimitEngine Unit where
  rules := [⟨"monitor",0,[.ip],.redis addressLimiter,true⟩,⟨"enforce",1,[.ip],.redis addressLimiter,false⟩]
  positions_nodup := by decide

/-- The first request of a client is denied because a dry-run rule has already spent the
cell it shares with the live one. -/
theorem dry_run_denies : ¬ ∀ (gov : Governor Unit) (engine : RateLimitEngine Unit) (req : Request) (env : ℕ → CheckEnv)
    (store : RedisStore), EvaluationHeld gov engine req env store := by
  intro h
  have hheld := h ⟨fun _ _ _ _ => ((),.insufficientCapacity)⟩ monitoredEngine
    ⟨⟨"10.0.0.1",none,"api"⟩,⟨[],["monitor"],["enforce"],[],[]⟩,fun _ => 1⟩
    (fun _ => ⟨0,0,0,fun _ => 0,fun _ => .answered⟩) (fun _ => none)
  exact absurd hheld.outcome_eq (by decide +kernel)

end Dwara.Extensions.RateLimiter
