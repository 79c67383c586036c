import Dwara.Ai.ServeAi

/-! Which requests of AI routes the policies reach. -/

namespace Dwara.Ai
open Dwara.Lib Dwara.Config

namespace Serving
variable (sv : Serving) (req : AiRequest)

/-- The request is passed through as it is. -/
def PassesThrough : Prop := req.endpoint ≠ .chat ∨ req.dialect = .passthrough

instance : Decidable (PassesThrough req) := inferInstanceAs (Decidable (_ ∨ _))

/-- The alias the request asks for. -/
def requestAlias : Option String :=
  match req.body with
  | .json body => if PassesThrough req then some (modelAliasOf body) else (sv.parseChat req.dialect body).map (·.model)
  | .unread _ => none
  | .invalidJson => none

/-- Every policy of the names that has an allowlist allows the alias. -/
def Allowed (names : List String) (modelAlias : String) : Prop :=
  ∀ name ∈ names, ∀ models, sv.governance.allowlists.lookup name = some models → modelAlias ∈ models

/-- What was answered is spent on the budget, and a stream spends on it. -/
def Charged (guard : BudgetGuard) (events : List AiEvent) : Prop :=
  (∀ u, .answered (some u) ∈ events → .spent guard u ∈ events) ∧ ∀ g, .streamed g ∈ events → g = some guard

/-- The prompt is checked with the full chain before a provider is contacted. -/
def PromptFirst (events : List AiEvent) : Prop :=
  ∀ before p after, events = before ++ .contacted p :: after → ∃ result, .promptChecked (sv.fullChain req) result ∈ before

/-- The policies of the full chain apply to the request. -/
structure PolicyApplied : Prop where
  allowed : ∀ p, .contacted p ∈ (sv.serveAi req).1 → ∃ modelAlias, sv.requestAlias req = some modelAlias ∧
    sv.Allowed (sv.fullChain req).names modelAlias
  charged : req.endpoint = .chat → ∀ guard, sv.budget req = some guard → Charged guard (sv.serveAi req).1
  promptFirst : req.endpoint = .chat → sv.guardrails.rules ≠ [] → sv.PromptFirst req (sv.serveAi req).1

/-- A passthrough that reaches a provider: the budget's windows are open, the policies below
the global level allow the alias, and it leads to a provider. -/
structure Reaches (body : Json) (provider : CompiledProvider) : Prop where
  json : req.body = .json body
  passes : PassesThrough req
  open_ : (sv.budget req).any sv.exhausted = false
  ai : sv.ai = true
  allowed : sv.governance.check (modelAliasOf body) (sv.passthroughChain req) = .allow
  provider : sv.passthroughProvider (modelAliasOf body) = some provider

/-- A passthrough that reaches a provider comes under nothing that a passthrough leaves out. -/
def NothingLeftOut : Prop :=
  ∀ body provider, sv.Reaches req body provider →
    sv.Allowed sv.sources.gateway.globalPolicies (modelAliasOf body) ∧
    (req.endpoint = .chat → sv.guardrails.rules = [] ∧
      ((sv.budget req).isSome → ∀ answer, sv.passed provider body = some answer → answer.usage = none))

variable {sv req}

theorem fullChain_names : (sv.fullChain req).names = (sv.passthroughChain req).names ++ sv.sources.gateway.globalPolicies := by
  simp [fullChain,passthroughChain,PolicySources.fullChain,PolicySources.chain,PolicyChain.names]

theorem allowed_append {xs ys : List String} {modelAlias : String} :
    sv.Allowed (xs ++ ys) modelAlias ↔ sv.Allowed xs modelAlias ∧ sv.Allowed ys modelAlias := by
  simp only [Allowed,List.mem_append]
  constructor
  · intro h
    exact ⟨fun name hname => h name (.inl hname),fun name hname => h name (.inr hname)⟩
  · rintro ⟨hxs,hys⟩ name (hname | hname)
    · exact hxs name hname
    · exact hys name hname

section Passthrough
variable {body : Json} {provider : CompiledProvider}

theorem serveAi_of_passesThrough (hjson : req.body = .json body) (hpasses : PassesThrough req)
    (hopen : (sv.budget req).any sv.exhausted = false) (hai : sv.ai = true) : sv.serveAi req = sv.passthrough req body := by
  rw [serveAi,if_neg (by simp [hopen]),if_neg (by simp [hai]),hjson]
  simp only
  rw [serveAiPassthrough,serveAiChatPassthrough]
  split
  · rfl
  · rw [if_pos (hpasses.resolve_left ‹_›)]

theorem events_of_reaches (h : sv.Reaches req body provider) :
    (sv.serveAi req).1 = .contacted provider.name :: ((sv.passed provider body).map fun answer => AiEvent.answered answer.usage).toList := by
  rw [serveAi_of_passesThrough h.json h.passes h.open_ h.ai,passthrough,if_neg (not_not.mpr h.allowed),if_neg (by simp [h.ai])]
  have hroute : sv.route (modelAliasOf body) "" ≠ [] := by
    intro hnone
    have hprovider := h.provider
    rw [passthroughProvider,hnone] at hprovider
    cases hprovider
  rw [if_neg hroute,h.provider]
  cases hpassed : sv.passed provider body with
  | none => simp only [hpassed]; rfl
  | some answer => simp only [hpassed]; rfl

/-- A passthrough contacts nobody, or is one that reaches a provider. -/
theorem serveAi_passthrough_cases (hjson : req.body = .json body) (hpasses : PassesThrough req) :
    (∀ e, e ∉ (sv.serveAi req).1) ∨ ∃ provider, sv.Reaches req body provider := by
  cases hopen : (sv.budget req).any sv.exhausted with
  | true =>
    left
    intro e
    rw [serveAi,if_pos hopen]
    exact List.not_mem_nil
  | false =>
    cases hai : sv.ai with
    | false =>
      left
      intro e
      rw [serveAi,if_neg (by simp [hopen]),if_pos hai]
      exact List.not_mem_nil
    | true =>
      rw [serveAi_of_passesThrough hjson hpasses hopen hai,passthrough]
      split
      case isTrue => exact .inl fun e => List.not_mem_nil
      case isFalse hallowed =>
        rw [if_neg (by simp [hai])]
        split
        case isTrue => exact .inl fun e => List.not_mem_nil
        case isFalse =>
          split
          case h_1 => exact .inl fun e => List.not_mem_nil
          case h_2 provider hprovider => exact .inr ⟨provider,hjson,hpasses,hopen,hai,not_not.mp hallowed,hprovider⟩

end Passthrough

section Chat

theorem charged_nil (guard : BudgetGuard) : Charged guard [] :=
  ⟨fun _ hu => absurd hu List.not_mem_nil,fun _ hg => absurd hg List.not_mem_nil⟩

/-- The walk only sends, answers and charges. -/
theorem charged_walk (guard : BudgetGuard) (chatReq : ChatRequest) (targets : List ModelTarget) :
    Charged guard (sv.walk (some guard) chatReq targets).1 := by
  induction targets with
  | nil => exact charged_nil guard
  | cons target targets ih =>
    rw [walk]
    split
    case h_1 => exact ih
    case h_2 =>
      constructor
      · intro u hu
        rcases List.mem_cons.mp hu with hu | hu
        · cases hu
        · exact List.mem_cons_of_mem _ (ih.1 u hu)
      · intro g hg
        rcases List.mem_cons.mp hg with hg | hg
        · cases hg
        · exact ih.2 g hg
    case h_3 => simp [Charged]
    case h_4 => simp [Charged]
    case h_5 usage status _ =>
      cases usage with
      | none => simp [Charged]
      | some u => simp [Charged]

theorem charged_answerChat (guard : BudgetGuard) (chatReq : ChatRequest) : Charged guard (sv.answerChat req (some guard) chatReq).1 := by
  rw [answerChat]
  split
  · exact charged_nil guard
  · split
    · exact charged_nil guard
    · exact charged_walk guard _ _

theorem charged_promptChecks_append {guard : BudgetGuard} {events : List AiEvent} (chatReq : ChatRequest) (h : Charged guard events) :
    Charged guard (sv.promptChecks req chatReq ++ events) := by
  rw [promptChecks]
  split
  · exact h
  · constructor
    · intro u hu
      rcases List.mem_cons.mp hu with hu | hu
      · cases hu
      · exact List.mem_cons_of_mem _ (h.1 u hu)
    · intro g hg
      rcases List.mem_cons.mp hg with hg | hg
      · cases hg
      · exact h.2 g hg

theorem charged_serveChat (guard : BudgetGuard) (chatReq : ChatRequest) : Charged guard (sv.serveChat req (some guard) chatReq).1 := by
  rw [serveChat]
  split
  · exact charged_nil guard
  · split
    · exact charged_nil guard
    · split
      · have hnone : Charged guard (sv.promptChecks req chatReq ++ []) := charged_promptChecks_append chatReq (charged_nil guard)
        rw [List.append_nil] at hnone
        exact hnone
      · exact charged_promptChecks_append chatReq (charged_answerChat guard _)

/-- No check of a prompt comes from the walk, so a contact behind the checks has them before it. -/
theorem promptFirst_serveChat (b : Option BudgetGuard) (chatReq : ChatRequest) (hrules : sv.guardrails.rules ≠ []) :
    sv.PromptFirst req (sv.serveChat req b chatReq).1 := by
  have hchecks : sv.promptChecks req chatReq = [.promptChecked (sv.fullChain req) (sv.guardrails.checkPrompt (sv.fullChain req) chatReq)] := by
    rw [promptChecks,if_neg hrules]
  have hfirst : ∀ events, sv.PromptFirst req (sv.promptChecks req chatReq ++ events) := by
    intro events before p after heq
    rw [hchecks,List.singleton_append] at heq
    cases before with
    | nil => cases (List.cons.inj heq).1
    | cons e before =>
      obtain rfl := (List.cons.inj heq).1
      exact ⟨_,List.mem_cons_self⟩
  have hnone : sv.PromptFirst req [] := by
    intro before p after heq
    exact absurd heq.symm (by simp)
  rw [serveChat]
  split
  · exact hnone
  · split
    · exact hnone
    · split
      · have hempty := hfirst []
        rw [List.append_nil] at hempty
        exact hempty
      · exact hfirst _

theorem allowed_serveChat {b : Option BudgetGuard} {chatReq : ChatRequest} {p : String} (h : .contacted p ∈ (sv.serveChat req b chatReq).1) :
    sv.Allowed (sv.fullChain req).names chatReq.model := by
  rw [serveChat] at h
  split at h
  · exact absurd h List.not_mem_nil
  · split at h
    · exact absurd h List.not_mem_nil
    case isFalse hallowed => exact (GovernanceEngine.check_eq_allow_iff _ _ _).mp (not_not.mp hallowed)

end Chat

/-- A request that is not passed through, up to its parsing. -/
theorem serveAi_of_not_passesThrough (hpasses : ¬ PassesThrough req) :
    (∀ e, e ∉ (sv.serveAi req).1) ∨
    ∃ chatReq, sv.requestAlias req = some chatReq.model ∧ sv.serveAi req = sv.serveChat req (sv.budget req) chatReq := by
  have hchat : req.endpoint = .chat := not_not.mp fun hne => hpasses (.inl hne)
  have hdialect : req.dialect ≠ .passthrough := fun heq => hpasses (.inr heq)
  rw [serveAi]
  split
  · exact .inl fun e => List.not_mem_nil
  · split
    · exact .inl fun e => List.not_mem_nil
    · split
      case h_1 => exact .inl fun e => List.not_mem_nil
      case h_2 => exact .inl fun e => List.not_mem_nil
      case h_3 body hbody =>
        simp only [hchat,ne_eq,not_true_eq_false,if_false]
        split
        case h_1 => exact .inl fun e => List.not_mem_nil
        case h_2 chatReq hparse =>
          refine .inr ⟨chatReq,?_,rfl⟩
          rw [requestAlias,hbody]
          simp only
          rw [if_neg hpasses,hparse]
          rfl

theorem policyApplied_of_silent (h : ∀ e, e ∉ (sv.serveAi req).1) : sv.PolicyApplied req where
  allowed p hp := absurd hp (h _)
  charged _ _ _ := ⟨fun _ hu => absurd hu (h _),fun _ hg => absurd hg (h _)⟩
  promptFirst _ _ := by
    intro before p after heq
    have hmem : AiEvent.contacted p ∈ (sv.serveAi req).1 := by
      rw [heq]
      exact List.mem_append_right _ List.mem_cons_self
    exact absurd hmem (h _)

/-- The chat pipeline leaves nothing out. -/
theorem policyApplied_of_not_passesThrough (hpasses : ¬ PassesThrough req) : sv.PolicyApplied req := by
  rcases serveAi_of_not_passesThrough hpasses with hsilent | ⟨chatReq,halias,hserve⟩
  · exact policyApplied_of_silent hsilent
  · refine ⟨?_,?_,?_⟩
    · intro p hp
      rw [hserve] at hp
      exact ⟨chatReq.model,halias,allowed_serveChat hp⟩
    · intro _ guard hguard
      rw [hserve,hguard]
      exact charged_serveChat guard chatReq
    · intro _ hrules
      rw [hserve]
      exact promptFirst_serveChat _ chatReq hrules

section Reached
variable {body : Json} {provider : CompiledProvider} (h : sv.Reaches req body provider)
include h

theorem Reaches.requestAlias_eq : sv.requestAlias req = some (modelAliasOf body) := by
  rw [requestAlias,h.json]
  simp only
  rw [if_pos h.passes]

/-- The events of a passthrough are the contact and the answer. -/
theorem Reaches.mem_events {e : AiEvent} (he : e ∈ (sv.serveAi req).1) :
    e = .contacted provider.name ∨ ∃ answer, sv.passed provider body = some answer ∧ e = .answered answer.usage := by
  rw [events_of_reaches h] at he
  rcases List.mem_cons.mp he with he | he
  · exact .inl he
  · cases hpassed : sv.passed provider body with
    | none =>
      rw [hpassed] at he
      cases he
    | some answer =>
      rw [hpassed] at he
      exact .inr ⟨answer,rfl,List.mem_singleton.mp he⟩

theorem Reaches.leftOut_of_applied (happlied : sv.PolicyApplied req) :
    sv.Allowed sv.sources.gateway.globalPolicies (modelAliasOf body) ∧
    (req.endpoint = .chat → sv.guardrails.rules = [] ∧
      ((sv.budget req).isSome → ∀ answer, sv.passed provider body = some answer → answer.usage = none)) := by
  have hevents := events_of_reaches h
  constructor
  · obtain ⟨modelAlias,halias,hallowed⟩ := happlied.allowed provider.name (by rw [hevents]; exact List.mem_cons_self)
    rw [h.requestAlias_eq] at halias
    obtain rfl := Option.some.inj halias
    rw [fullChain_names,allowed_append] at hallowed
    exact hallowed.2
  · intro hchat
    constructor
    · by_cases hrules : sv.guardrails.rules = []
      · exact hrules
      · obtain ⟨result,hresult⟩ := happlied.promptFirst hchat hrules [] provider.name _ (by rw [hevents,List.nil_append])
        cases hresult
    · intro hbudget answer hanswer
      obtain ⟨guard,hguard⟩ := Option.isSome_iff_exists.mp hbudget
      cases husage : answer.usage with
      | none => rfl
      | some u =>
        have hspent := (happlied.charged hchat guard hguard).1 u (by rw [hevents,hanswer,← husage]; simp)
        rcases h.mem_events hspent with heq | ⟨_,_,heq⟩
        · cases heq
        · cases heq

theorem Reaches.applied_of_leftOut
    (hleft : sv.Allowed sv.sources.gateway.globalPolicies (modelAliasOf body) ∧
      (req.endpoint = .chat → sv.guardrails.rules = [] ∧
        ((sv.budget req).isSome → ∀ answer, sv.passed provider body = some answer → answer.usage = none))) :
    sv.PolicyApplied req := by
  refine ⟨fun p _ => ⟨_,h.requestAlias_eq,?_⟩,?_,?_⟩
  · rw [fullChain_names,allowed_append]
    exact ⟨(GovernanceEngine.check_eq_allow_iff _ _ _).mp h.allowed,hleft.1⟩
  · intro hchat guard hguard
    constructor
    · intro u hu
      rcases h.mem_events hu with heq | ⟨answer,hanswer,heq⟩
      · cases heq
      · have hnone := (hleft.2 hchat).2 (by rw [hguard]; rfl) answer hanswer
        rw [hnone] at heq
        cases heq
    · intro g hg
      rcases h.mem_events hg with heq | ⟨_,_,heq⟩
      · cases heq
      · cases heq
  · intro hchat hrules
    exact absurd (hleft.2 hchat).1 hrules

end Reached

/-- The policies apply to a request just when nothing is left out on its way. -/
theorem policyApplied_iff (sv : Serving) (req : AiRequest) : sv.PolicyApplied req ↔ sv.NothingLeftOut req := by
  constructor
  · intro happlied body provider hreaches
    exact hreaches.leftOut_of_applied happlied
  · intro hleft
    by_cases hpasses : PassesThrough req
    · cases hbody : req.body with
      | json body =>
        rcases serveAi_passthrough_cases hbody hpasses with hsilent | ⟨provider,hreaches⟩
        · exact policyApplied_of_silent hsilent
        · exact hreaches.applied_of_leftOut (hleft body provider hreaches)
      | unread status =>
        apply policyApplied_of_silent
        intro e
        rw [serveAi,hbody]
        split
        · exact List.not_mem_nil
        · split <;> exact List.not_mem_nil
      | invalidJson =>
        apply policyApplied_of_silent
        intro e
        rw [serveAi,hbody]
        split
        · exact List.not_mem_nil
        · split <;> exact List.not_mem_nil
    · exact policyApplied_of_not_passesThrough hpasses

section Example

private def aiGateway : Gateway := ⟨[],[],[],[],[],["base"],none,[]⟩

private def openAi : CompiledProvider := ⟨"openai","openai-up"⟩

/-- A gateway whose only policy is at the global level: it allows `small`, and has a budget.
The provider reports 7 tokens. -/
private def aiServing (rules : List CompiledRule) : Serving where
  sources := ⟨aiGateway,[]⟩
  governance := ⟨[("base",["small"])]⟩
  guardrails := ⟨rules⟩
  budgets := ⟨[("base",⟨some 100,none,.policy⟩)],[]⟩
  exhausted _ := false
  exhaustedWith _ _ := false
  estimatePromptTokens _ := 0
  ai := true
  parseChat _ _ := none
  experiments := ⟨[],[],fun _ _ => none⟩
  fetchRemoteImages := id
  cached _ := false
  route _ _ := [⟨"openai","gpt"⟩]
  provider name := if name = "openai" then some openAi else none
  registry _ := true
  attempt _ _ := .skipped
  passed _ _ := some ⟨200,some ⟨some 5,some 2,some 7,none⟩⟩

private def askFor (model : String) (endpoint : AiEndpoint) : AiRequest :=
  ⟨"r",.json (.object [("model",.string model)]),"ai","edge",none,endpoint,.passthrough⟩

private def injectionRule : CompiledRule := ⟨"inject",.injection,.block,.prompt,[fun _ => true],none,id,none,[]⟩

/-- A model the global policy does not allow is asked for over the embeddings endpoint and
goes to the provider; a chat that is passed through is not charged; and its prompt is not
checked. -/
theorem passthrough_leaves_out :
    (¬ (aiServing []).PolicyApplied (askFor "large" .embeddings)) ∧
    (¬ (aiServing []).PolicyApplied (askFor "small" .chat)) ∧
    ¬ (aiServing [injectionRule]).PolicyApplied (askFor "small" .chat) := by
  refine ⟨?_,?_,?_⟩
  · intro h
    obtain ⟨modelAlias,halias,hallowed⟩ := h.allowed "openai" (by decide)
    obtain rfl : modelAlias = "large" := Option.some.inj (halias.symm.trans rfl)
    exact absurd (hallowed "base" (by decide) ["small"] (by decide)) (by decide)
  · intro h
    have hspent := (h.charged rfl ⟨"base",some 100,none,.policy⟩ (by decide)).1 ⟨some 5,some 2,some 7,none⟩ (by decide)
    revert hspent
    decide
  · intro h
    obtain ⟨result,hresult⟩ := h.promptFirst rfl (by simp [aiServing]) [] "openai" _ rfl
    cases hresult

end Example

end Serving

end Dwara.Ai
