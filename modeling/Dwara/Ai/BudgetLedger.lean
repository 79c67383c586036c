import Dwara.Ai.Governance
import Dwara.Ai.Usage
import Dwara.Lib.Keyed
import Dwara.Lib.System

/-! What was spent of token budgets: the windows of each key, and the keys a reload keeps. -/

namespace Dwara.Ai
open Dwara.Lib Dwara.Config

inductive WindowKind where
  | minute
  | day
  deriving DecidableEq, Repr

structure Spent where
  tokens : UInt64
  costMicros : UInt64
  deriving DecidableEq, Repr

def Spent.default : Spent := ⟨0,0⟩

/-- The window each key stands in, of each kind, and what was spent in it. -/
abbrev BudgetLedger := String → WindowKind → Option (UInt64 × Spent)

namespace BudgetLedger
variable (ledger : BudgetLedger) (key : String) (kind : WindowKind) (windowIndex : UInt64)

def empty : BudgetLedger := fun _ _ => none

def spent : Spent := (((ledger key kind).filter (·.1 = windowIndex)).map (·.2)).getD Spent.default

/-- The entry a spend goes to; it is started anew when the window is another. -/
def entry : UInt64 × Spent :=
  let found := (ledger key kind).getD (windowIndex,Spent.default)
  if found.1 ≠ windowIndex then (windowIndex,Spent.default) else found

def insert (found : UInt64 × Spent) : BudgetLedger := fun k d => if k = key ∧ d = kind then some found else ledger k d

/-- The ledger, the new total, and whether that is over the limit. -/
def spendTokens (tokens : UInt64) (limit : Option UInt64) : BudgetLedger × UInt64 × Bool :=
  let found := ledger.entry key .minute windowIndex
  let total := U64.saturatingAdd found.2.tokens tokens
  (ledger.insert key .minute (found.1,{ found.2 with tokens := total }),total,limit.any (· < total))

def spendCost (costMicros : UInt64) : BudgetLedger :=
  let found := ledger.entry key .day windowIndex
  ledger.insert key .day (found.1,{ found.2 with costMicros := U64.saturatingAdd found.2.costMicros costMicros })

def retain (keep : List String) : BudgetLedger := fun k d => if k ∈ keep then ledger k d else none

@[simp] theorem retain_apply (keep : List String) : ledger.retain keep key kind = if key ∈ keep then ledger key kind else none := rfl

theorem entry_eq : ledger.entry key kind windowIndex = (windowIndex,ledger.spent key kind windowIndex) := by
  rw [entry,spent]
  cases ledger key kind with
  | none => simp
  | some found =>
    by_cases h : found.1 = windowIndex
    · obtain ⟨w,total⟩ := found
      obtain rfl := h
      simp [Option.filter]
    · simp [Option.filter,h]

@[simp] theorem insert_self (found : UInt64 × Spent) : ledger.insert key kind found key kind = some found := by
  simp [insert]

theorem insert_of_ne (found : UInt64 × Spent) {k : String} {d : WindowKind} (h : ¬(k = key ∧ d = kind)) :
    ledger.insert key kind found k d = ledger k d := by
  rw [insert,if_neg h]

end BudgetLedger

structure BudgetPolicy extends Policy where
  tokenBudget : Option TokenBudget

structure BudgetConsumer extends Consumer where
  tokenBudget : Option TokenBudget

/-- The configuration with the budgets of its policies and consumers. -/
structure BudgetGateway where
  sources : PolicySources
  policies : List BudgetPolicy
  consumers : List BudgetConsumer
  policies_eq : policies.map (·.toPolicy) = sources.gateway.policies
  consumers_eq : consumers.map (·.toConsumer) = sources.gateway.consumers

namespace BudgetGateway
variable (g : BudgetGateway)

/-- Of two budgets under one name the later one counts. -/
def engine : AiBudgetEngine where
  budgets := (g.policies.filterMap fun p => p.tokenBudget.map (p.name,·)).reverse
  consumerBudgets := (g.consumers.filterMap fun c => c.tokenBudget.map (c.name,·)).reverse

/-- The policy is attached where any authenticated consumer comes under it. -/
def attachedBeyondConsumer (policy : String) : Bool :=
  g.sources.gateway.routes.any (·.policies.contains policy) || g.sources.gateway.services.any (·.policies.contains policy) ||
    g.sources.listeners.any (·.policies.contains policy) || g.sources.gateway.globalPolicies.contains policy

/-- The keys one budgeted policy keeps. -/
def keysOf (name : String) (budget : TokenBudget) : List String :=
  match budget.scope with
  | .policy => [name]
  | .consumer =>
    ((g.consumers.filter (·.policies.contains name)).map (·.name)) ++
      if g.attachedBeyondConsumer name then g.consumers.map (·.name) else []

def derivableKeys : List String :=
  g.engine.consumerBudgets.map (·.1) ++
    (g.engine.budgets.map (·.1)).flatMap fun name => ((g.engine.budgets.lookup name).map (g.keysOf name)).getD []

/-- The engine of a generation, over the ledger of the one before. -/
def compileWithLedger (ledger : BudgetLedger) : AiBudgetEngine × BudgetLedger := (g.engine,ledger.retain g.derivableKeys)

/-- The budget a request with these attachments resolves to. -/
def resolve (consumer : Option String) (routeName listener : String) : Option BudgetGuard :=
  g.engine.resolve consumer (g.sources.fullChain consumer routeName listener)

def declares (consumer : String) : Prop := ∃ c ∈ g.consumers, c.name = consumer

/-- The policy shares one budget among everyone it is attached to. -/
def sharedBudget (name : String) : Prop := ∃ budget, g.engine.budgets.lookup name = some budget ∧ budget.scope = .policy

/-- The first budget attached to the request beyond its consumer is a shared one. -/
def sharedFirst (routeName listener : String) : Prop :=
  ∃ budget, (g.sources.fullChain none routeName listener).names.findSome? (g.engine.budgets.lookup ·) = some budget ∧
    budget.scope = .policy

variable {g}

theorem mem_derivableKeys {key : String} :
    key ∈ g.derivableKeys ↔ key ∈ g.engine.consumerBudgets.map (·.1) ∨
      ∃ name budget, g.engine.budgets.lookup name = some budget ∧ key ∈ g.keysOf name budget := by
  rw [derivableKeys,List.mem_append,List.mem_flatMap]
  apply or_congr_right
  constructor
  · rintro ⟨name,hname,hkey⟩
    obtain ⟨budget,hbudget⟩ := Keyed.lookup_isSome_of_mem hname
    rw [hbudget] at hkey
    exact ⟨name,budget,hbudget,hkey⟩
  · rintro ⟨name,budget,hbudget,hkey⟩
    refine ⟨name,Keyed.mem_keys_of_lookup hbudget,?_⟩
    rw [hbudget]
    exact hkey

theorem declares_of_consumerBudget {key : String} (h : key ∈ g.engine.consumerBudgets.map (·.1)) : g.declares key := by
  obtain ⟨p,hp,rfl⟩ := List.mem_map.mp h
  obtain ⟨c,hc,hcp⟩ := List.mem_filterMap.mp (List.mem_reverse.mp hp)
  obtain ⟨budget,-,rfl⟩ := Option.map_eq_some_iff.mp hcp
  exact ⟨c,hc,rfl⟩

/-- A key that is kept is the name of a declared consumer, or of a shared budget. -/
theorem declares_or_sharedBudget_of_mem {key : String} (h : key ∈ g.derivableKeys) : g.declares key ∨ g.sharedBudget key := by
  rcases mem_derivableKeys.mp h with hown | ⟨name,budget,hbudget,hkey⟩
  · exact .inl (declares_of_consumerBudget hown)
  · rw [keysOf] at hkey
    cases hscope : budget.scope with
    | policy =>
      rw [hscope] at hkey
      obtain rfl := List.mem_singleton.mp hkey
      exact .inr ⟨budget,hbudget,hscope⟩
    | consumer =>
      rw [hscope] at hkey
      rcases List.mem_append.mp hkey with hdirect | hall
      · obtain ⟨c,hc,rfl⟩ := List.mem_map.mp hdirect
        exact .inl ⟨c,List.mem_of_mem_filter hc,rfl⟩
      · split at hall
        · obtain ⟨c,hc,rfl⟩ := List.mem_map.mp hall
          exact .inl ⟨c,hc,rfl⟩
        · cases hall

theorem sharedBudget_kept {key : String} (h : g.sharedBudget key) : key ∈ g.derivableKeys := by
  obtain ⟨budget,hbudget,hscope⟩ := h
  refine mem_derivableKeys.mpr (.inr ⟨key,budget,hbudget,?_⟩)
  rw [keysOf,hscope]
  exact List.mem_singleton_self key

theorem mem_consumers_iff {name : String} {c : Consumer} : (c ∈ g.sources.gateway.consumers ∧ c.name = name) ↔
    ∃ d ∈ g.consumers, d.toConsumer = c ∧ d.name = name := by
  rw [← g.consumers_eq,List.mem_map]
  constructor
  · rintro ⟨⟨d,hd,rfl⟩,hname⟩
    exact ⟨d,hd,rfl,hname⟩
  · rintro ⟨d,hd,rfl,hname⟩
    exact ⟨⟨d,hd,rfl⟩,hname⟩

theorem mem_consumerPoliciesOf {consumer name : String} (h : name ∈ g.sources.consumerPoliciesOf consumer) :
    ∃ c ∈ g.consumers, c.name = consumer ∧ name ∈ c.policies := by
  rw [PolicySources.consumerPoliciesOf] at h
  cases hfind : g.sources.gateway.consumers.find? (·.name = consumer) with
  | none => rw [hfind] at h; cases h
  | some c =>
    rw [hfind] at h
    obtain ⟨d,hd,rfl,hname⟩ :=
      mem_consumers_iff.mp ⟨List.mem_of_find?_eq_some hfind,of_decide_eq_true (List.find?_some hfind :)⟩
    exact ⟨d,hd,hname,h⟩

/-- What is attached at the levels beyond the consumer is attached in the configuration. -/
theorem attached_of_mem_chain {routeName listener name : String} (h : name ∈ (g.sources.fullChain none routeName listener).names) :
    g.attachedBeyondConsumer name = true := by
  have hlevel : ∀ {α : Type} (rows : List α) (p : α → Bool) (policies : α → List String),
      name ∈ ((rows.find? p).map policies).getD [] → rows.any (fun r => (policies r).contains name) = true := by
    intro α rows p policies hmem
    cases hfind : rows.find? p with
    | none => rw [hfind] at hmem; cases hmem
    | some r =>
      rw [hfind] at hmem
      exact List.any_eq_true.mpr ⟨r,List.mem_of_find?_eq_some hfind,List.contains_iff_mem.mpr hmem⟩
  have hservice : ∀ r : Option Route, name ∈ (r.map fun r => g.sources.servicePoliciesOf r.service).getD [] →
      g.sources.gateway.services.any (·.policies.contains name) = true := by
    rintro (_ | r) hmem
    · cases hmem
    · exact hlevel _ _ _ hmem
  rw [attachedBeyondConsumer,Bool.or_eq_true,Bool.or_eq_true,Bool.or_eq_true]
  rw [PolicyChain.names,List.mem_append,List.mem_append,List.mem_append,List.mem_append] at h
  rcases h with (((hconsumer | hroute) | hsvc) | hlistener) | hglobal
  · cases hconsumer
  · exact .inl (.inl (.inl (hlevel _ _ _ hroute)))
  · exact .inl (.inl (.inr (hservice _ hsvc)))
  · exact .inl (.inr (hlevel _ _ _ hlistener))
  · exact .inr (List.contains_iff_mem.mpr hglobal)

theorem names_fullChain (consumer : Option String) (routeName listener : String) :
    (g.sources.fullChain consumer routeName listener).names =
      (consumer.map g.sources.consumerPoliciesOf).getD [] ++ (g.sources.fullChain none routeName listener).names := by
  simp [PolicySources.fullChain,PolicySources.chain,PolicyChain.names]

theorem bind_eq_some {engine : AiBudgetEngine} {consumer : Option String} {name : String} {guard : BudgetGuard}
    (h : engine.bind consumer name = some guard) : ∃ budget, engine.budgets.lookup name = some budget ∧ guard.scope = budget.scope ∧
      match budget.scope with | .policy => guard.key = name | .consumer => consumer = some guard.key := by
  rw [AiBudgetEngine.bind] at h
  cases hbudget : engine.budgets.lookup name with
  | none => rw [hbudget] at h; cases h
  | some budget =>
    obtain ⟨tokensPerMin,costPerDayMicros,scope⟩ := budget
    refine ⟨_,rfl,?_⟩
    rw [hbudget] at h
    cases scope with
    | policy =>
      obtain rfl := Option.some.inj h
      exact ⟨rfl,rfl⟩
    | consumer =>
      cases consumer with
      | none => cases h
      | some c =>
        obtain rfl := Option.some.inj h
        exact ⟨rfl,rfl⟩

/-- The keys of one request's budget that are kept: a shared one, and that of a declared consumer. -/
theorem kept_of_resolve {consumer : Option String} {routeName listener : String} {guard : BudgetGuard}
    (h : g.resolve consumer routeName listener = some guard) :
    guard.scope = .policy ∧ g.sharedBudget guard.key ∨
      guard.scope = .consumer ∧ consumer = some guard.key ∧ (g.declares guard.key → guard.key ∈ g.derivableKeys) := by
  rcases Option.or_eq_some_iff.mp h with hown | ⟨-,hchain⟩
  · obtain ⟨c,rfl,hc⟩ := Option.bind_eq_some_iff.mp hown
    obtain ⟨budget,hbudget,rfl⟩ := Option.map_eq_some_iff.mp hc
    exact .inr ⟨rfl,rfl,fun _ => mem_derivableKeys.mpr (.inl (Keyed.mem_keys_of_lookup hbudget))⟩
  · obtain ⟨name,hname,hbind⟩ := List.exists_of_findSome?_eq_some hchain
    obtain ⟨budget,hbudget,hguard,hkey⟩ := bind_eq_some hbind
    cases hscope : budget.scope with
    | policy =>
      rw [hscope] at hkey
      obtain rfl : guard.key = name := hkey
      exact .inl ⟨hguard.trans hscope,budget,hbudget,hscope⟩
    | consumer =>
      rw [hscope] at hkey
      obtain rfl : consumer = some guard.key := hkey
      refine .inr ⟨hguard.trans hscope,rfl,fun ⟨c,hc,hcname⟩ => mem_derivableKeys.mpr (.inr ⟨name,budget,hbudget,?_⟩)⟩
      rw [keysOf,hscope,List.mem_append]
      rw [names_fullChain,List.mem_append] at hname
      rcases hname with hown | hbeyond
      · obtain ⟨d,hd,hdname,hpolicy⟩ := mem_consumerPoliciesOf hown
        refine .inl (List.mem_map.mpr ⟨d,List.mem_filter.mpr ⟨hd,?_⟩,hdname⟩)
        exact List.contains_iff_mem.mpr hpolicy
      · rw [if_pos (attached_of_mem_chain hbeyond)]
        exact .inr (List.mem_map.mpr ⟨c,hc,hcname⟩)

theorem retain_kept_iff (key : String) :
    (∀ ledger kind, (g.compileWithLedger ledger).2 key kind = ledger key kind) ↔ key ∈ g.derivableKeys := by
  have hretain : ∀ ledger kind, (g.compileWithLedger ledger).2 key kind = if key ∈ g.derivableKeys then ledger key kind else none :=
    fun _ _ => rfl
  simp only [hretain]
  constructor
  · intro h
    by_contra hdropped
    have hlost := h (fun _ _ => some (0,Spent.default)) .minute
    rw [if_neg hdropped] at hlost
    cases hlost
  · intro h ledger kind
    rw [if_pos h]

theorem lookup_eq_none_of_not_declares {consumer : String} (h : ¬g.declares consumer) :
    g.engine.consumerBudgets.lookup consumer = none := by
  by_contra hsome
  obtain ⟨budget,hbudget⟩ := Option.ne_none_iff_exists'.mp hsome
  exact h (declares_of_consumerBudget (Keyed.mem_keys_of_lookup hbudget))

theorem consumerPoliciesOf_of_not_declares {consumer : String} (h : ¬g.declares consumer) : g.sources.consumerPoliciesOf consumer = [] := by
  by_contra hsome
  obtain ⟨name,hname⟩ := List.exists_mem_of_ne_nil _ hsome
  obtain ⟨c,hc,hcname,-⟩ := mem_consumerPoliciesOf hname
  exact h ⟨c,hc,hcname⟩

/-- With a consumer to bind to, the first budget of a chain is the one that binds. -/
theorem findSome_bind (engine : AiBudgetEngine) (consumer : String) (names : List String) :
    (names.findSome? (engine.bind (some consumer))).map (·.scope) = (names.findSome? (engine.budgets.lookup ·)).map (·.scope) := by
  induction names with
  | nil => rfl
  | cons name names ih =>
    rw [List.findSome?_cons,List.findSome?_cons]
    cases hbudget : engine.budgets.lookup name with
    | none =>
      have hbind : engine.bind (some consumer) name = none := by rw [AiBudgetEngine.bind,hbudget]
      rw [hbind]
      exact ih
    | some budget =>
      cases hbind : engine.bind (some consumer) name with
      | none =>
        obtain ⟨_,_,scope⟩ := budget
        rw [AiBudgetEngine.bind,hbudget] at hbind
        cases scope with
        | policy => cases hbind
        | consumer => cases hbind
      | some guard =>
        obtain ⟨found,hfound,hscope,-⟩ := bind_eq_some hbind
        obtain rfl := Option.some.inj (hbudget.symm.trans hfound)
        exact congrArg some hscope

/-- A budget of a consumer the configuration does not declare is the first one attached beyond the consumer. -/
theorem sharedFirst_of_not_declares {consumer routeName listener : String} {guard : BudgetGuard} (hnot : ¬g.declares consumer)
    (h : g.resolve (some consumer) routeName listener = some guard) : g.sharedFirst routeName listener ↔ guard.scope = .policy := by
  have hown : g.engine.consumerBudget (some consumer) = none := by
    rw [AiBudgetEngine.consumerBudget,Option.bind_some,lookup_eq_none_of_not_declares hnot]
    rfl
  have hnames : (g.sources.fullChain (some consumer) routeName listener).names = (g.sources.fullChain none routeName listener).names := by
    rw [names_fullChain,Option.map_some,consumerPoliciesOf_of_not_declares hnot]
    rfl
  rw [resolve,AiBudgetEngine.resolve,hown,Option.none_or,hnames] at h
  have hfirst := findSome_bind g.engine consumer (g.sources.fullChain none routeName listener).names
  rw [h] at hfirst
  obtain ⟨budget,hbudget,hscope⟩ := Option.map_eq_some_iff.mp hfirst.symm
  rw [sharedFirst,hbudget]
  constructor
  · rintro ⟨found,hfound,hshared⟩
    obtain rfl := Option.some.inj hfound
    exact hscope.symm.trans hshared
  · intro hshared
    exact ⟨budget,rfl,hscope.trans hshared⟩

end BudgetGateway

open BudgetGateway in
/-- A reload keeps the windows of a request's budget unless they are those of a consumer that the
configuration does not declare. -/
theorem reload_keeps_windows_iff (g : BudgetGateway) (consumer : Option String) (routeName listener : String) (guard : BudgetGuard)
    (h : g.resolve consumer routeName listener = some guard) :
    (∀ ledger kind, (g.compileWithLedger ledger).2 guard.key kind = ledger guard.key kind) ↔
      ∀ name, consumer = some name → g.declares name ∨ g.sharedFirst routeName listener ∨ g.sharedBudget name := by
  rw [retain_kept_iff]
  constructor
  · rintro hkept name rfl
    by_contra hcond
    rw [not_or,not_or] at hcond
    obtain ⟨hnot,hfirst,hshared⟩ := hcond
    rcases kept_of_resolve h with ⟨hscope,-⟩ | ⟨-,hkey,-⟩
    · exact hfirst ((sharedFirst_of_not_declares hnot h).mpr hscope)
    · obtain rfl := Option.some.inj hkey
      exact (declares_or_sharedBudget_of_mem hkept).elim hnot hshared
  · intro hcond
    rcases kept_of_resolve h with ⟨-,hteam⟩ | ⟨hscope,rfl,hdeclared⟩
    · exact sharedBudget_kept hteam
    · rcases hcond guard.key rfl with hdeclares | hfirst | hshared
      · exact hdeclared hdeclares
      · by_cases hdeclares : g.declares guard.key
        · exact hdeclared hdeclares
        · exact nomatch hscope.symm.trans ((sharedFirst_of_not_declares hdeclares h).mp hfirst)
      · exact sharedBudget_kept hshared

/-- One budget for each consumer of the route `chat`. -/
def chatBudget : BudgetGateway where
  sources := ⟨{
    routes := [⟨"chat",⟨⟨.prefixed,"/"⟩,none,[],[],[],[],none⟩,"llm",["per-consumer"],none,none,.ai⟩]
    services := []
    upstreams := []
    consumers := [⟨"acme",[],[],none⟩]
    policies := [⟨"per-consumer",none,[],false⟩]
    globalPolicies := []
    authorization := none
    trustedProxies := [] },[]⟩
  policies := [⟨⟨"per-consumer",none,[],false⟩,some ⟨some 10,none,.consumer⟩⟩]
  consumers := [⟨⟨"acme",[],[],none⟩,none⟩]
  policies_eq := rfl
  consumers_eq := rfl

theorem reload_keeps_windows_declared :
    chatBudget.resolve (some "acme") "chat" "http" = some ⟨"acme",some 10,none,.consumer⟩ ∧
      ∀ ledger kind, (chatBudget.compileWithLedger ledger).2 "acme" kind = ledger "acme" kind :=
  ⟨by decide,(reload_keeps_windows_iff chatBudget (some "acme") "chat" "http" ⟨"acme",some 10,none,.consumer⟩ (by decide)).mpr
    fun name hname => .inl ⟨_,List.mem_singleton_self _,Option.some.inj hname⟩⟩

/-- The consumer `globex` is one of the store, so a reload starts its window anew. -/
theorem reload_drops_window :
    ¬∀ (g : BudgetGateway) (consumer : Option String) (routeName listener : String) (guard : BudgetGuard),
      g.resolve consumer routeName listener = some guard →
        ∀ ledger kind, (g.compileWithLedger ledger).2 guard.key kind = ledger guard.key kind := by
  intro hkept
  have hglobex := hkept chatBudget (some "globex") "chat" "http" ⟨"globex",some 10,none,.consumer⟩ (by decide)
    (BudgetLedger.empty.insert "globex" .minute (16,⟨10,0⟩)) .minute
  exact absurd hglobex (by decide)

end Dwara.Ai
