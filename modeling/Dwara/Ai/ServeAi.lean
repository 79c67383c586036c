import Dwara.Ai.Governance
import Dwara.Ai.Chat

/-! Serving a request of an AI route: the chat pipeline, and the two passthroughs. -/

namespace Dwara.Ai
open Dwara.Lib Dwara.Config

inductive AiEndpoint where
  | chat
  | embeddings
  | images
  | audio
  | moderation
  | batch
  deriving DecidableEq, Repr

inductive AiIngressDialect where
  | openai
  | anthropic
  | gemini
  | passthrough
  deriving DecidableEq, Repr

structure ModelTarget where
  provider : String
  providerModel : String
  deriving DecidableEq, Repr

structure CompiledProvider where
  name : String
  upstream : String
  deriving DecidableEq, Repr

/-- A body that cannot be read, or is over the cap, has the status of its refusal. -/
inductive RequestBody where
  | unread (status : ℕ)
  | invalidJson
  | json (v : Json)

structure AiRequest where
  rid : String
  body : RequestBody
  routeName : String
  listener : String
  consumer : Option String
  endpoint : AiEndpoint
  dialect : AiIngressDialect

/-- An answer of a provider to a chat request, as far as the pipeline goes on from it. -/
inductive Attempt where
  /-- Nothing was sent. -/
  | skipped
  /-- A failure after which the next candidate is tried. -/
  | failedOver
  /-- A final answer that is no success. -/
  | final (status : ℕ)
  | streaming
  /-- A whole answer with the usage it reports, and the status the client gets: the answer can
  still be refused. -/
  | whole (usage : Option Usage) (status : ℕ)
  deriving DecidableEq, Repr

/-- An answer passed through, with the usage it reports. -/
structure PassedAnswer where
  status : ℕ
  usage : Option Usage
  deriving DecidableEq, Repr

/-- What a request of one generation meets: its configuration, the ledger, the cache, the
router and the providers. -/
structure Serving where
  sources : PolicySources
  governance : GovernanceEngine
  guardrails : GuardrailEngine
  budgets : AiBudgetEngine
  /-- Whether the windows of a budget are exhausted, and whether they would be with an estimate. -/
  exhausted : BudgetGuard → Bool
  exhaustedWith : BudgetGuard → UInt64 → Bool
  estimatePromptTokens : ChatRequest → UInt64
  /-- Whether there is a compiled AI block. -/
  ai : Bool
  parseChat : AiIngressDialect → Json → Option ChatRequest
  experiments : AiExperiments
  fetchRemoteImages : ChatRequest → ChatRequest
  /-- Whether the semantic cache has an answer. -/
  cached : ChatRequest → Bool
  route : (modelAlias promptText : String) → List ModelTarget
  provider : String → Option CompiledProvider
  /-- The upstreams of the registry. -/
  registry : String → Bool
  attempt : ChatRequest → ModelTarget → Attempt
  /-- None when the provider cannot be reached. -/
  passed : CompiledProvider → Json → Option PassedAnswer

/-- What serving a request does, in order. -/
inductive AiEvent where
  | promptChecked (chain : PolicyChain) (result : GuardrailResult)
  | contacted (provider : String)
  /-- The provider's answer goes to the client. -/
  | answered (usage : Option Usage)
  | spent (guard : BudgetGuard) (usage : Usage)
  | streamed (guard : Option BudgetGuard)
  deriving DecidableEq, Repr

structure AiAnswer where
  status : ℕ
  code : Option String
  deriving DecidableEq, Repr

namespace Serving
variable (sv : Serving) (req : AiRequest)

def modelDenied : AiAnswer := ⟨403,some "model_denied_by_policy"⟩
def modelNotFound : AiAnswer := ⟨404,some "model_not_found"⟩
def providerUnreachable (status : ℕ) : AiAnswer := ⟨status,some "provider_unreachable"⟩
def budgetExceeded : AiAnswer := ⟨429,some "ai_budget_exceeded"⟩

/-- The chain of the request with all its levels. -/
def fullChain : PolicyChain := sv.sources.fullChain req.consumer req.routeName req.listener

/-- The chain the passthroughs check: no policies are at the global level. -/
def passthroughChain : PolicyChain := sv.sources.chain req.consumer req.routeName req.listener []

def modelAliasOf (body : Json) : String := ((body.get "model").bind Json.asStr).getD ""

/-- The first candidate's provider, when it can be sent to. -/
def passthroughProvider (modelAlias : String) : Option CompiledProvider :=
  ((sv.route modelAlias "").head?.bind fun target => sv.provider target.provider).filter fun p => sv.registry p.upstream

/-- A body passed on as it is, to the first candidate. -/
def passthrough (body : Json) : List AiEvent × AiAnswer :=
  if sv.governance.check (modelAliasOf body) (sv.passthroughChain req) ≠ .allow then ([],modelDenied)
  else if sv.ai = false then ([],⟨500,some "internal_error"⟩)
  else if sv.route (modelAliasOf body) "" = [] then ([],modelNotFound)
  else
    match sv.passthroughProvider (modelAliasOf body) with
    | none => ([],providerUnreachable 500)
    | some provider =>
      match sv.passed provider body with
      | none => ([.contacted provider.name],providerUnreachable 502)
      | some answer => ([.contacted provider.name,.answered answer.usage],⟨answer.status,none⟩)

def serveAiPassthrough (body : Json) : List AiEvent × AiAnswer := sv.passthrough req body

def serveAiChatPassthrough (body : Json) : List AiEvent × AiAnswer := sv.passthrough req body

/-- The candidates one after another, until one answers. -/
def walk (budget : Option BudgetGuard) (chatReq : ChatRequest) : List ModelTarget → List AiEvent × AiAnswer
  | [] => ([],providerUnreachable 502)
  | target :: targets =>
    match sv.attempt chatReq target with
    | .skipped => walk budget chatReq targets
    | .failedOver => (.contacted target.provider :: (walk budget chatReq targets).1,(walk budget chatReq targets).2)
    | .final status => ([.contacted target.provider],⟨status,none⟩)
    | .streaming => ([.contacted target.provider,.streamed budget],⟨200,none⟩)
    | .whole usage status =>
      ([.contacted target.provider,.answered usage] ++ (budget.bind fun guard => usage.map fun u => AiEvent.spent guard u).toList,⟨status,none⟩)

/-- The request as the prompt guardrails leave it; none when they block it. -/
def guardPrompt (chatReq : ChatRequest) : Option ChatRequest :=
  match sv.guardrails.checkPrompt (sv.fullChain req) chatReq with
  | .block _ _ => none
  | .redact _ redacted => some (chatReq.applyRedaction redacted)
  | .allow => some chatReq

def promptChecks (chatReq : ChatRequest) : List AiEvent :=
  if sv.guardrails.rules = [] then [] else [.promptChecked (sv.fullChain req) (sv.guardrails.checkPrompt (sv.fullChain req) chatReq)]

/-- A guarded request, from the cache or from the candidates. -/
def answerChat (budget : Option BudgetGuard) (chatReq : ChatRequest) : List AiEvent × AiAnswer :=
  if sv.cached chatReq then ([],⟨200,none⟩)
  else if sv.route chatReq.model chatReq.promptText = [] then ([],modelNotFound)
  else sv.walk budget (sv.experiments.inject req.rid chatReq) (sv.route chatReq.model chatReq.promptText)

def estimate (chatReq : ChatRequest) : UInt64 := U64.saturatingAdd (sv.estimatePromptTokens chatReq) (chatReq.maxTokens.getD 0)

/-- A chat request behind its parsing. -/
def serveChat (budget : Option BudgetGuard) (chatReq : ChatRequest) : List AiEvent × AiAnswer :=
  if (budget.any fun guard => sv.estimate chatReq ≠ 0 && sv.exhaustedWith guard (sv.estimate chatReq)) = true then ([],budgetExceeded)
  else if sv.governance.check chatReq.model (sv.fullChain req) ≠ .allow then ([],modelDenied)
  else
    match sv.guardPrompt req chatReq with
    | none => (sv.promptChecks req chatReq,⟨400,some "guardrail_blocked"⟩)
    | some guarded =>
      (sv.promptChecks req chatReq ++ (sv.answerChat req budget (sv.fetchRemoteImages guarded)).1,
        (sv.answerChat req budget (sv.fetchRemoteImages guarded)).2)

def budget : Option BudgetGuard := sv.budgets.resolve req.consumer (sv.fullChain req)

def serveAi : List AiEvent × AiAnswer :=
  if ((sv.budget req).any sv.exhausted) = true then ([],budgetExceeded)
  else if sv.ai = false then ([],⟨500,some "ai_not_configured"⟩)
  else
    match req.body with
    | .unread status => ([],⟨status,none⟩)
    | .invalidJson => ([],⟨400,some "invalid_json"⟩)
    | .json body =>
      if req.endpoint ≠ .chat then sv.serveAiPassthrough req body
      else if req.dialect = .passthrough then sv.serveAiChatPassthrough req body
      else
        match sv.parseChat req.dialect body with
        | none => ([],⟨400,none⟩)
        | some chatReq => sv.serveChat req (sv.budget req) chatReq

end Serving

end Dwara.Ai
