import Dwara.Ai.Guardrails
import Dwara.Config.Gateway

/-! The policies a request of an AI route comes under: model allowlists and token budgets. -/

namespace Dwara.Ai
open Dwara.Lib Dwara.Config

structure Listener where
  name : String
  policies : List String
  deriving DecidableEq, Repr

/-- The configuration a request is served with, by what attaches policies. -/
structure PolicySources where
  gateway : Gateway
  listeners : List Listener

namespace PolicySources
variable (src : PolicySources)

def consumerPoliciesOf (consumer : String) : List String :=
  ((src.gateway.consumers.find? (·.name = consumer)).map (·.policies)).getD []

def servicePoliciesOf (service : String) : List String :=
  ((src.gateway.services.find? (·.name = service)).map (·.policies)).getD []

def listenerPoliciesOf (listener : String) : List String :=
  ((src.listeners.find? (·.name = listener)).map (·.policies)).getD []

/-- The chain of a request, with the given policies at the last level. -/
def chain (consumer : Option String) (routeName listener : String) (globals : List String) : PolicyChain where
  consumer := (consumer.map src.consumerPoliciesOf).getD []
  route := ((src.gateway.routes.find? (·.name = routeName)).map (·.policies)).getD []
  service := ((src.gateway.routes.find? (·.name = routeName)).map fun r => src.servicePoliciesOf r.service).getD []
  listener := src.listenerPoliciesOf listener
  global := globals

/-- The chain with all five levels. -/
def fullChain (consumer : Option String) (routeName listener : String) : PolicyChain :=
  src.chain consumer routeName listener src.gateway.globalPolicies

end PolicySources

inductive GovernanceVerdict where
  | allow
  | deny (policy reason : String)
  deriving DecidableEq, Repr

/-- The models each policy allows. -/
structure GovernanceEngine where
  allowlists : List (String × List String)

namespace GovernanceEngine
variable (engine : GovernanceEngine) (modelAlias : String)

/-- The policy has an allowlist without the alias. -/
def denies (name : String) : Bool := (engine.allowlists.lookup name).any fun models => !models.contains modelAlias

def check (chain : PolicyChain) : GovernanceVerdict :=
  match chain.names.find? (engine.denies modelAlias) with
  | some policy => .deny policy "model_not_in_team_allowlist"
  | none => .allow

theorem check_eq_allow_iff (chain : PolicyChain) :
    engine.check modelAlias chain = .allow ↔
      ∀ name ∈ chain.names, ∀ models, engine.allowlists.lookup name = some models → modelAlias ∈ models := by
  have hnone : engine.check modelAlias chain = .allow ↔ chain.names.find? (engine.denies modelAlias) = none := by
    rw [check]
    cases chain.names.find? (engine.denies modelAlias) with
    | some policy => simp
    | none => simp
  rw [hnone,List.find?_eq_none]
  constructor
  · intro h name hname models hmodels
    have hdenies := h name hname
    rw [denies,hmodels] at hdenies
    simpa using hdenies
  · intro h name hname
    rw [denies]
    cases hmodels : engine.allowlists.lookup name with
    | none => simp
    | some models => simpa using h name hname models hmodels

end GovernanceEngine

inductive TokenBudgetScope where
  | consumer
  | policy
  deriving DecidableEq, Repr

structure TokenBudget where
  tokensPerMin : Option UInt64
  costPerDayMicros : Option UInt64
  scope : TokenBudgetScope
  deriving DecidableEq, Repr

/-- A budget bound to its holder's key. -/
structure BudgetGuard where
  key : String
  tokensPerMin : Option UInt64
  costPerDayMicros : Option UInt64
  scope : TokenBudgetScope
  deriving DecidableEq, Repr

structure AiBudgetEngine where
  budgets : List (String × TokenBudget)
  consumerBudgets : List (String × TokenBudget)

namespace AiBudgetEngine
variable (engine : AiBudgetEngine) (consumer : Option String)

/-- A budget for each consumer is no budget for a request without one. -/
def bind (name : String) : Option BudgetGuard :=
  match engine.budgets.lookup name with
  | none => none
  | some budget =>
    match budget.scope,consumer with
    | .policy, _ => some ⟨name,budget.tokensPerMin,budget.costPerDayMicros,.policy⟩
    | .consumer, some c => some ⟨c,budget.tokensPerMin,budget.costPerDayMicros,.consumer⟩
    | .consumer, none => none

def consumerBudget : Option BudgetGuard :=
  consumer.bind fun c => (engine.consumerBudgets.lookup c).map fun budget => ⟨c,budget.tokensPerMin,budget.costPerDayMicros,.consumer⟩

/-- The consumer's own budget, or the first of its chain. -/
def resolve (chain : PolicyChain) : Option BudgetGuard :=
  (engine.consumerBudget consumer).or (chain.names.findSome? (engine.bind consumer))

end AiBudgetEngine

end Dwara.Ai
