import Dwara.Ai.Chat

/-! Guardrail rules over the text of an answer, whole and streamed. A compiled pattern is the
predicate it is on texts; a redactor is the function it is on texts. -/

namespace Dwara.Ai
open Dwara.Lib

inductive AiGuardrailKind where
  | injection
  | pii
  | banned
  | schema
  deriving DecidableEq, Repr

inductive AiGuardrailAction where
  | block
  | redact
  | log
  deriving DecidableEq, Repr

inductive AiGuardrailPhase where
  | prompt
  | response
  | both
  deriving DecidableEq, Repr

structure CompiledRule where
  name : String
  kind : AiGuardrailKind
  action : AiGuardrailAction
  phase : AiGuardrailPhase
  patterns : List (String → Bool)
  redactor : Option (String → String)
  /-- A text with the matches of the patterns replaced. -/
  redactPatterns : String → String
  /-- Whether a value violates the schema. -/
  schemaValidator : Option (Json → Bool)
  policies : List String

/-- The policies attached at each level. -/
structure PolicyChain where
  consumer : List String
  route : List String
  service : List String
  listener : List String
  global : List String
  deriving DecidableEq, Repr

def PolicyChain.names (chain : PolicyChain) : List String :=
  chain.consumer ++ chain.route ++ chain.service ++ chain.listener ++ chain.global

inductive GuardrailResult where
  | allow
  | block (ruleName reason : String)
  | redact (ruleName redactedPrompt : String)
  deriving DecidableEq, Repr

namespace CompiledRule
variable (rule : CompiledRule)

def applies (chain : PolicyChain) : Bool := rule.policies.isEmpty || chain.names.any (rule.policies.contains ·)

def onPrompt : Bool := rule.phase = .prompt || rule.phase = .both
def onResponse : Bool := rule.phase = .response || rule.phase = .both

def isMatch (text : String) : Bool := rule.patterns.any (· text)

def kindReason : AiGuardrailKind → String → String
  | .injection, phase => "prompt_injection_detected_" ++ phase
  | .pii, phase => "pii_detected_" ++ phase
  | .banned, phase => "banned_content_" ++ phase
  | .schema, _ => "response_schema_violation"

/-- A schema rejects a text that is no JSON. -/
def violates (fromStr : String → Option Json) (text : String) : Bool :=
  match rule.schemaValidator with
  | none => false
  | some validator =>
    match fromStr text with
    | some value => validator value
    | none => true

def matchesResponse (fromStr : String → Option Json) (text : String) : Bool :=
  match rule.kind with
  | .banned => rule.isMatch text
  | .schema => rule.violates fromStr text
  | .injection => false
  | .pii => false

/-- What the rule makes of a text it redacts. -/
def redaction : String → String := rule.redactor.getD rule.redactPatterns

end CompiledRule

/-- What the rule makes of a prompt it matches; none lets the next rule decide. -/
def actOnPrompt (rule : CompiledRule) (promptText : String) : Option GuardrailResult :=
  match rule.action with
  | .block => some (.block rule.name (CompiledRule.kindReason rule.kind "prompt"))
  | .redact => some (.redact rule.name ((rule.redactor.getD rule.redactPatterns) promptText))
  | .log => none

structure GuardrailEngine where
  rules : List CompiledRule

namespace GuardrailEngine
variable (engine : GuardrailEngine)

/-- The first rule of the prompt phase that matches and does more than log. -/
def checkPrompt (chain : PolicyChain) (chatReq : ChatRequest) : GuardrailResult :=
  ((engine.rules.filter fun rule => rule.onPrompt && rule.applies chain && rule.kind ≠ .schema && rule.isMatch chatReq.promptText).findSome?
    fun rule => actOnPrompt rule chatReq.promptText).getD .allow

/-- The first rule that blocks the text of a whole answer. -/
def blockingRule (fromStr : String → Option Json) (chain : PolicyChain) (responseText : String) : Option CompiledRule :=
  engine.rules.find? fun rule => rule.onResponse && rule.applies chain && rule.matchesResponse fromStr responseText &&
    rule.action = .block

def checkResponse (fromStr : String → Option Json) (chain : PolicyChain) (responseText : String) : GuardrailResult :=
  match engine.blockingRule fromStr chain responseText with
  | some rule => .block rule.name (CompiledRule.kindReason rule.kind "response")
  | none => .allow

/-- The first banned-content rule of the response phase that matches; its action and its
policies are not asked for. -/
def checkStreamChunk (chunkText : String) : Option String :=
  (engine.rules.find? fun rule => rule.onResponse && rule.kind = .banned && rule.isMatch chunkText).map (·.name)

/-- The redactors of the response phase, one after another. -/
def redactStreamChunk (chunkText : String) : String :=
  ((engine.rules.filter fun rule => rule.onResponse && rule.kind = .pii).filterMap (·.redactor)).foldl (fun text redact => redact text) chunkText

end GuardrailEngine

section PromptRedaction

/-- Every message redacted by itself. -/
def RedactsEach (redact : String → String) (r r' : ChatRequest) : Prop :=
  r'.messages.map ChatMessage.frame = r.messages.map ChatMessage.frame ∧
    r'.messages.map ChatMessage.images = r.messages.map ChatMessage.images ∧
    r'.messages.map ChatMessage.textContent = r.messages.map fun m => redact m.textContent

/-- The conversation kept around the message a redacted prompt is written into. -/
structure KeepsConversation (redacted : String) (r r' : ChatRequest) : Prop where
  request : r' = { r with messages := r'.messages }
  frames : r'.messages.map ChatMessage.frame = r.messages.map ChatMessage.frame
  prompt : ∀ i m, ChatRequest.promptIndex r.messages = some i → r'.messages[i]? = some m → m.textContent = redacted
  images : ∀ i, ChatRequest.promptIndex r.messages ≠ some i → r'.messages[i]?.map ChatMessage.images = r.messages[i]?.map ChatMessage.images

theorem checkPrompt_redact {engine : GuardrailEngine} {chain : PolicyChain} {r : ChatRequest} {ruleName redacted : String}
    (h : engine.checkPrompt chain r = .redact ruleName redacted) :
    ∃ rule ∈ engine.rules, rule.name = ruleName ∧ rule.action = .redact ∧ redacted = rule.redaction r.promptText := by
  rw [GuardrailEngine.checkPrompt] at h
  cases hfind : (engine.rules.filter fun rule => rule.onPrompt && rule.applies chain && rule.kind ≠ .schema && rule.isMatch r.promptText).findSome?
      fun rule => actOnPrompt rule r.promptText with
  | none =>
    rw [hfind] at h
    cases h
  | some result =>
    rw [hfind,Option.getD_some] at h
    subst h
    obtain ⟨rule,hmem,hact⟩ := List.exists_of_findSome?_eq_some hfind
    refine ⟨rule,List.mem_of_mem_filter hmem,?_⟩
    rw [actOnPrompt] at hact
    cases haction : rule.action with
    | block =>
      rw [haction] at hact
      cases hact
    | redact =>
      rw [haction] at hact
      cases hact
      exact ⟨rfl,rfl,rfl⟩
    | log =>
      rw [haction] at hact
      cases hact

theorem images_redacted (redacted : String) (m : ChatMessage) :
    ({ m with content := m.content.map fun p => if p.asText.isSome then .text redacted else p } : ChatMessage).images = m.images := by
  simp only [ChatMessage.images]
  induction m.content with
  | nil => rfl
  | cons p ps ih =>
    rw [List.map_cons,List.filter_cons,List.filter_cons,ih]
    cases p with
    | text t => rfl
    | image url mediaType dataB64 => rfl

theorem keepsConversation (redacted : String) (r : ChatRequest) : KeepsConversation redacted r (r.applyRedaction redacted) where
  request := rfl
  frames := by
    refine List.ext_getElem? fun i => ?_
    rw [List.getElem?_map,List.getElem?_map,ChatRequest.applyRedaction,ChatRequest.getElem?_redactMessages,Option.map_map]
    congr 1
    funext m
    simp only [Function.comp_apply]
    split
    · rfl
    · rfl
  prompt := by
    intro i m hi hm
    rw [ChatRequest.applyRedaction,ChatRequest.getElem?_redactMessages] at hm
    obtain ⟨m',-,rfl⟩ := Option.map_eq_some_iff.mp hm
    rw [if_pos ⟨rfl,hi⟩]
    simp [ChatMessage.textContent,ContentPart.asText,String.join]
  images := by
    intro i hi
    rw [ChatRequest.applyRedaction,ChatRequest.getElem?_redactMessages,Option.map_map]
    congr 1
    funext m
    rw [Function.comp_apply,if_neg fun h => hi h.2]
    exact images_redacted redacted m

/-- A redacted request is the conversation it was, around one message that says the redacted
prompt; in a conversation of one message that is its own text redacted. -/
theorem applyRedaction_keeps {engine : GuardrailEngine} {chain : PolicyChain} {r : ChatRequest} {ruleName redacted : String}
    (h : engine.checkPrompt chain r = .redact ruleName redacted) :
    ∃ rule ∈ engine.rules, rule.name = ruleName ∧ rule.action = .redact ∧ redacted = rule.redaction r.promptText ∧
      KeepsConversation redacted r (r.applyRedaction redacted) ∧ ∀ m, r.messages = [m] → redacted = rule.redaction m.textContent := by
  obtain ⟨rule,hmem,hname,haction,hredacted⟩ := checkPrompt_redact h
  refine ⟨rule,hmem,hname,haction,hredacted,keepsConversation redacted r,fun m hm => ?_⟩
  rw [hredacted,ChatRequest.promptText,hm]
  rfl

/-- A banned word, replaced where it first occurs. -/
def bannedRule : CompiledRule where
  name := "words"
  kind := .banned
  action := .redact
  phase := .prompt
  patterns := [Text.contains "secret"]
  redactor := none
  redactPatterns := fun text =>
    match Text.splitOnceAt "secret".toList text.toList with
    | some (before,after) => String.ofList (before ++ "[REDACTED]".toList ++ after)
    | none => text
  schemaValidator := none
  policies := []

/-- A system prompt, and a user who says the word. -/
def bannedRequest : ChatRequest where
  model := "m"
  messages := [.ofText .system "be kind",.ofText .user "a secret"]
  tools := []
  toolChoice := none
  temperature := none
  topP := none
  maxTokens := none
  stop := none
  stream := false
  streamOptionsIncludeUsage := false
  responseFormat := none
  prompt := none
  promptVariables := []
  other := []

def anyPolicies : PolicyChain := ⟨[],[],[],[],[]⟩

theorem applyRedaction_keeps_banned : ∃ rule ∈ (⟨[bannedRule]⟩ : GuardrailEngine).rules, rule.name = "words" ∧ rule.action = .redact ∧
    "be kind\na [REDACTED]" = rule.redaction bannedRequest.promptText ∧
    KeepsConversation "be kind\na [REDACTED]" bannedRequest (bannedRequest.applyRedaction "be kind\na [REDACTED]") ∧
    ∀ m, bannedRequest.messages = [m] → "be kind\na [REDACTED]" = rule.redaction m.textContent :=
  applyRedaction_keeps (show GuardrailEngine.checkPrompt ⟨[bannedRule]⟩ anyPolicies bannedRequest = _ by decide)

/-- The system prompt is copied into the user's message, and the user's text into the system prompt. -/
theorem system_prompt_overwritten : ¬ ∀ (engine : GuardrailEngine) (chain : PolicyChain) (r : ChatRequest) (ruleName redacted : String),
    engine.checkPrompt chain r = .redact ruleName redacted →
      ∃ rule ∈ engine.rules, rule.name = ruleName ∧ RedactsEach rule.redaction r (r.applyRedaction redacted) := by
  intro h
  obtain ⟨rule,hrule,-,-,-,htexts⟩ := h ⟨[bannedRule]⟩ anyPolicies bannedRequest "words" "be kind\na [REDACTED]" (by decide)
  obtain rfl := List.mem_singleton.mp hrule
  revert htexts
  decide

end PromptRedaction

end Dwara.Ai
