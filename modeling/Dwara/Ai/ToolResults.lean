import Dwara.Ai.AdapterRequests

/-! The results of tools sent to Gemini. Its calls have no ids: the gateway makes them up when it
reads a response, and finds the name of a call by its id when the result comes back. -/

namespace Dwara.Ai
open Dwara.Lib

section Response

/-- The calls of a candidate, with the ids made up for them. -/
def candidateCalls (i : ℕ) (parts : List Json) : List ToolCall :=
  (parts.filterMap (·.get "functionCall")).mapIdx fun n fc =>
    ⟨"call-" ++ (toString i ++ ("-" ++ toString n)),(textAt "name" fc).getD "",((fc.get "args").getD (.object [])).toText⟩

def candidateParts (c : Json) : List Json := (((c.get "content").bind (·.get "parts")).bind Json.asArray).getD []

def geminiFinishReason (c : Json) : FinishReason :=
  match textAt "finishReason" c with
  | none => .stop
  | some reason =>
    if reason = "STOP" then .stop
    else if reason = "MAX_TOKENS" then .length
    else if reason = "SAFETY" ∨ reason = "PROHIBITED_CONTENT" then .contentFilter
    else .other reason

structure Choice where
  index : ℕ
  message : ChatMessage
  finishReason : FinishReason
  deriving DecidableEq, Repr

structure ChatResponse where
  id : Option String
  model : Option String
  choices : List Choice
  usage : Option Usage
  deriving DecidableEq, Repr

def candidateChoice (i : ℕ) (c : Json) : Choice where
  index := i
  message := ⟨.assistant,[.text (String.join (partTexts (candidateParts c)))],none,candidateCalls i (candidateParts c),none⟩
  finishReason := geminiFinishReason c

def geminiUsage (u : Json) : Usage where
  promptTokens := (u.get "promptTokenCount").bind Json.asU64
  completionTokens := (u.get "candidatesTokenCount").bind Json.asU64
  totalTokens := (u.get "totalTokenCount").bind Json.asU64
  cachedTokens := (u.get "cachedContentTokenCount").bind Json.asU64

def parseGeminiResponse (body : Json) : Except AiError ChatResponse :=
  match body.asObject with
  | none => .error (.translation "gemini response is not a JSON object")
  | some _ =>
    match (body.get "candidates").bind Json.asArray with
    | none => .error (.translation "gemini response has no candidates")
    | some candidates => .ok ⟨textAt "responseId" body,none,candidates.mapIdx candidateChoice,(body.get "usageMetadata").map geminiUsage⟩

end Response

section Conversations

/-- The calls are those of a response the gateway read. -/
def FromGateway (calls : List ToolCall) : Prop :=
  ∃ body response choice, parseGeminiResponse body = .ok response ∧ choice ∈ response.choices ∧ calls = choice.message.toolCalls

/-- The message answers a call of the assistant's turn closest before it. -/
def Answers (before : List ChatMessage) (m : ChatMessage) (c : ToolCall) : Prop :=
  ∃ earlier turn between, before = earlier ++ turn :: between ∧ turn.role = .assistant ∧ (∀ x ∈ between, x.role ≠ .assistant) ∧
    c ∈ turn.toolCalls ∧ m.toolCallId = some c.id

structure GatewayConversation (messages : List ChatMessage) : Prop where
  turns : ∀ m ∈ messages, m.role = .assistant → FromGateway m.toolCalls
  results : ∀ before m after, messages = before ++ m :: after → m.role = .tool → ∃ c, Answers before m c

/-- The function named by the `k`-th content of a body. -/
def responseName (body : Json) (k : ℕ) : Option String := do
  let contents ← (body.get "contents").bind Json.asArray
  let parts ← (← contents[k]?).get "parts"
  let result ← ((← parts.asArray)[0]?).bind (·.get "functionResponse")
  textAt "name" result

/-- Every result is sent with the name of the call it answers. -/
def NamesCalls (lib : JsonLib) (req : ChatRequest) (providerModel : String) : Prop :=
  ∀ p, buildGeminiRequest lib req providerModel = .ok p →
    ∀ before m after c, req.messages = before ++ m :: after → m.role = .tool → Answers before m c →
      responseName p.body (before.filter (·.role ≠ .system)).length = some c.name

/-- Where later turns make a call of the same id, the last of them calls the same function. -/
def NamesStay (messages : List ChatMessage) : Prop :=
  ∀ before m after c, messages = before ++ m :: after → m.role = .tool → Answers before m c →
    ∀ later turn rest, after = later ++ turn :: rest → turn.role = .assistant →
      (∀ x ∈ rest, x.role = .assistant → ∀ c' ∈ x.toolCalls, c'.id ≠ c.id) →
      ∀ c' ∈ turn.toolCalls, c'.id = c.id → c'.name = c.name

end Conversations

section Names

/-- The ids of one turn are different. -/
private theorem eq_of_id_eq {calls : List ToolCall} (h : FromGateway calls) {c c' : ToolCall} (hc : c ∈ calls) (hc' : c' ∈ calls)
    (hid : c.id = c'.id) : c = c' := by
  obtain ⟨body,response,choice,hparse,hchoice,rfl⟩ := h
  have hcalls : ∃ i parts, choice.message.toolCalls = candidateCalls i parts := by
    rw [parseGeminiResponse] at hparse
    split at hparse
    · cases hparse
    · split at hparse
      · cases hparse
      · cases hparse
        obtain ⟨i,hi,rfl⟩ := List.mem_mapIdx.mp hchoice
        exact ⟨i,_,rfl⟩
  obtain ⟨i,parts,hcalls⟩ := hcalls
  rw [hcalls] at hc hc'
  obtain ⟨n,hn,rfl⟩ := List.mem_mapIdx.mp hc
  obtain ⟨n',hn',rfl⟩ := List.mem_mapIdx.mp hc'
  have hnumber : toString n = toString n' := by
    have h := String.toList_inj.mpr hid
    simp only [String.toList_append] at h
    exact String.toList_inj.mp (List.append_cancel_left (List.append_cancel_left (List.append_cancel_left h)))
  obtain rfl := Text.toString_nat_injective hnumber
  rfl

private theorem find?_call {calls : List ToolCall} (h : FromGateway calls) {c : ToolCall} (hc : c ∈ calls) :
    calls.find? (fun d => decide (d.id = c.id)) = some c := by
  cases hfind : calls.find? fun d => decide (d.id = c.id) with
  | none => exact absurd (decide_eq_true rfl) (List.find?_eq_none.mp hfind c hc)
  | some d =>
    have hid : d.id = c.id := of_decide_eq_true (List.find?_some (p := fun d : ToolCall => decide (d.id = c.id)) hfind)
    rw [eq_of_id_eq h (List.mem_of_find?_eq_some hfind) hc hid]

/-- The name is that of the last turn with a call of the id. -/
private theorem toolNameFor_eq {earlier rest : List ChatMessage} {turn m : ChatMessage} {c : ToolCall} (hrole : turn.role = .assistant)
    (hturn : FromGateway turn.toolCalls) (hc : c ∈ turn.toolCalls) (hid : m.toolCallId = some c.id)
    (hrest : ∀ x ∈ rest, x.role = .assistant → ∀ c' ∈ x.toolCalls, c'.id ≠ c.id) :
    toolNameFor (earlier ++ turn :: rest) m = c.name := by
  have hcalls : ((earlier ++ turn :: rest).reverse.filter (·.role = .assistant)).flatMap (·.toolCalls) =
      ((rest.reverse.filter (·.role = .assistant)).flatMap (·.toolCalls)) ++
        (turn.toolCalls ++ (earlier.reverse.filter (·.role = .assistant)).flatMap (·.toolCalls)) := by
    simp [hrole]
  have hnone : ((rest.reverse.filter (·.role = .assistant)).flatMap (·.toolCalls)).find? (fun d => decide (d.id = c.id)) = none := by
    refine List.find?_eq_none.mpr fun d hd => ?_
    obtain ⟨x,hx,hdx⟩ := List.mem_flatMap.mp hd
    obtain ⟨hmem,hassistant⟩ := List.mem_filter.mp hx
    simpa using hrest x (List.mem_reverse.mp hmem) (of_decide_eq_true hassistant) d hdx
  rw [toolNameFor,hid,Option.getD_some]
  rw [hcalls,List.find?_append,hnone,Option.none_or,List.find?_append,find?_call hturn hc]
  rfl

/-- Among turns with a call of an id, one is the last. -/
private theorem exists_last {after : List ChatMessage} {id : String} (h : ∃ x ∈ after, x.role = .assistant ∧ ∃ c ∈ x.toolCalls, c.id = id) :
    ∃ later turn rest, after = later ++ turn :: rest ∧ turn.role = .assistant ∧ (∃ c ∈ turn.toolCalls, c.id = id) ∧
      ∀ x ∈ rest, x.role = .assistant → ∀ c ∈ x.toolCalls, c.id ≠ id := by
  induction after with
  | nil =>
    obtain ⟨x,hx,-⟩ := h
    cases hx
  | cons y ys ih =>
    by_cases hys : ∃ x ∈ ys, x.role = .assistant ∧ ∃ c ∈ x.toolCalls, c.id = id
    · obtain ⟨later,turn,rest,rfl,hrest⟩ := ih hys
      exact ⟨y :: later,turn,rest,rfl,hrest⟩
    · obtain ⟨x,hx,hrole,hcall⟩ := h
      rcases List.mem_cons.mp hx with rfl | hx
      · exact ⟨[],x,ys,rfl,hrole,hcall,fun z hz hz' c hc hid => hys ⟨z,hz,hz',c,hc,hid⟩⟩
      · exact absurd ⟨x,hx,hrole,hcall⟩ hys

private theorem responseName_built {lib : JsonLib} {req : ChatRequest} {providerModel : String} {p : ProviderRequest}
    (h : buildGeminiRequest lib req providerModel = .ok p) {before after : List ChatMessage} {m : ChatMessage}
    (hmessages : req.messages = before ++ m :: after) (hm : m.role = .tool) :
    responseName p.body (before.filter (·.role ≠ .system)).length = some (toolNameFor req.messages m) := by
  rw [buildGeminiRequest] at h
  split at h
  · cases h
  · cases h
    have hsystem : m.role ≠ .system := by rw [hm]; decide
    have hcontent : ((req.messages.filter (·.role ≠ .system)).map (geminiContent lib req.messages))[(before.filter (·.role ≠ .system)).length]? =
        some (geminiContent lib req.messages m) := by
      rw [List.getElem?_map]
      have hget : (req.messages.filter (·.role ≠ .system))[(before.filter (·.role ≠ .system)).length]? = some m := by
        rw [hmessages,List.filter_append,List.filter_cons_of_pos (by simpa using hsystem),List.getElem?_append_right (le_refl _),Nat.sub_self]
        rfl
      rw [hget]
      rfl
    have hcontents : (geminiBody req ((req.messages.filter (·.role ≠ .system)).map (geminiContent lib req.messages))).get "contents" =
        some (.array ((req.messages.filter (·.role ≠ .system)).map (geminiContent lib req.messages))) := by
      rw [geminiBody]
      simp only [Json.get]
      cases joinedSystem req.messages with
      | none => rfl
      | some system => rfl
    rw [responseName,hcontents]
    simp only [Option.bind_some,Json.asArray,Option.bind_eq_bind,hcontent]
    rw [geminiContent,hm]
    rfl

end Names

/-- The results of a conversation all have the right names exactly when no id comes back in a later
turn, the last time for another function. -/
theorem geminiResults_named_iff (lib : JsonLib) (req : ChatRequest) (providerModel : String) (h : GatewayConversation req.messages) :
    NamesCalls lib req providerModel ↔ NamesStay req.messages := by
  constructor
  · intro hnames before m after c hmessages hm hanswers later turn rest hafter hrole hrest c' hc' hid
    have hsystem : m.role ≠ .system := by rw [hm]; decide
    have hne : ¬ ((req.messages.filter (·.role ≠ .system)).map (geminiContent lib req.messages)).isEmpty = true := by
      rw [List.isEmpty_iff,List.map_eq_nil_iff,List.filter_eq_nil_iff]
      intro hall
      refine hall m ?_ (by simpa using hsystem)
      rw [hmessages]
      exact List.mem_append_right _ List.mem_cons_self
    have hbuild : ∃ p, buildGeminiRequest lib req providerModel = .ok p := ⟨_,if_neg hne⟩
    obtain ⟨p,hp⟩ := hbuild
    have hname := hnames p hp before m after c hmessages hm hanswers
    rw [responseName_built hp hmessages hm] at hname
    obtain ⟨-,-,-,-,-,-,-,hcall⟩ := hanswers
    have hall : req.messages = before ++ m :: later ++ turn :: rest := by rw [hmessages,hafter,List.append_assoc,List.cons_append]
    have hturn : FromGateway turn.toolCalls := h.turns turn (hall ▸ List.mem_append_right _ List.mem_cons_self) hrole
    rw [hall,toolNameFor_eq hrole hturn hc' (hid ▸ hcall) (hid ▸ hrest)] at hname
    exact Option.some.inj hname
  · intro hstay p hp before m after c hmessages hm hanswers
    rw [responseName_built hp hmessages hm]
    congr 1
    by_cases hlater : ∃ x ∈ after, x.role = .assistant ∧ ∃ c' ∈ x.toolCalls, c'.id = c.id
    · obtain ⟨later,turn,rest,hafter,hrole,⟨c',hc',hid⟩,hrest⟩ := exists_last hlater
      have hname := hstay before m after c hmessages hm hanswers later turn rest hafter hrole hrest c' hc' hid
      obtain ⟨-,-,-,-,-,-,-,hcall⟩ := hanswers
      have hall : req.messages = before ++ m :: later ++ turn :: rest := by rw [hmessages,hafter,List.append_assoc,List.cons_append]
      have hturn : FromGateway turn.toolCalls := h.turns turn (hall ▸ List.mem_append_right _ List.mem_cons_self) hrole
      rw [hall,toolNameFor_eq hrole hturn hc' (hid ▸ hcall) (hid ▸ hrest),hname]
    · obtain ⟨earlier,turn,between,hbefore,hrole,hbetween,hc,hcall⟩ := hanswers
      have hall : req.messages = earlier ++ turn :: (between ++ m :: after) := by
        rw [hmessages,hbefore,List.append_assoc,List.cons_append]
      have hturn : FromGateway turn.toolCalls := h.turns turn (hall ▸ List.mem_append_right _ List.mem_cons_self) hrole
      rw [hall]
      refine toolNameFor_eq hrole hturn hc hcall fun x hx hassistant c' hc' hid => ?_
      rcases List.mem_append.mp hx with hx | hx
      · exact hbetween x hx hassistant
      · rcases List.mem_cons.mp hx with rfl | hx
        · rw [hm] at hassistant
          cases hassistant
        · exact hlater ⟨x,hx,hassistant,c',hc',hid⟩

section Weather

/-- A response with one call and no arguments. -/
def callResponse (function : String) : Json :=
  .object [("candidates",.array [.object [("content",.object [("parts",.array [.object [("functionCall",.object [("name",.string function)])]])])]])]

def callTurn (function : String) : ChatMessage := ⟨.assistant,[.text ""],none,[⟨"call-0-0",function,"\x7b\x7d"⟩],none⟩

def resultTurn (text : String) : ChatMessage := ⟨.tool,[.text text],none,[],some "call-0-0"⟩

/-- A question, and for each function named a call of it with its result. -/
def weatherRequest (functions : List String) : ChatRequest where
  model := "m"
  messages := .ofText .user "how is it outside?" :: functions.flatMap fun function => [callTurn function,resultTurn "fine"]
  tools := []
  toolChoice := none
  temperature := none
  topP := none
  maxTokens := none
  stop := none
  stream := false
  streamOptionsIncludeUsage := false
  responseFormat := none
  prompt := none
  promptVariables := []
  other := []

/-- The readers of JSON, on texts that are no numbers. -/
def emptyObjectLib : JsonLib := ⟨fun _ => none,fun text => if text = "\x7b\x7d" then some (.object []) else none⟩

private theorem fromGateway_callTurn (function : String) : FromGateway (callTurn function).toolCalls :=
  ⟨callResponse function,_,_,rfl,List.mem_cons_self,rfl⟩

private theorem answers_of_turns {functions : List String} {more after : List ChatMessage} {m : ChatMessage}
    (h : (functions.flatMap fun function => [callTurn function,resultTurn "fine"]) = more ++ m :: after) (hm : m.role = .tool)
    (front : List ChatMessage) : ∃ c, Answers (front ++ more) m c := by
  induction functions generalizing more front with
  | nil =>
    have hlen := congrArg List.length h
    simp at hlen
  | cons function functions ih =>
    rw [List.flatMap_cons,List.cons_append,List.cons_append,List.nil_append] at h
    cases more with
    | nil =>
      obtain ⟨rfl,-⟩ := List.cons.inj h
      cases hm
    | cons x more =>
      obtain ⟨rfl,hrest⟩ := List.cons.inj h
      cases more with
      | nil =>
        obtain ⟨rfl,-⟩ := List.cons.inj hrest
        exact ⟨_,front,callTurn function,[],rfl,rfl,fun x hx => (List.not_mem_nil hx).elim,List.mem_cons_self,rfl⟩
      | cons y more =>
        obtain ⟨rfl,hlast⟩ := List.cons.inj hrest
        have hmore := ih hlast (front ++ [callTurn function,resultTurn "fine"])
        rwa [List.append_assoc] at hmore

private theorem gatewayConversation_weather (functions : List String) : GatewayConversation (weatherRequest functions).messages where
  turns m hm hrole := by
    rcases List.mem_cons.mp hm with rfl | hm
    · cases hrole
    · obtain ⟨function,-,hturn⟩ := List.mem_flatMap.mp hm
      rcases List.mem_cons.mp hturn with rfl | hturn
      · exact fromGateway_callTurn function
      · obtain rfl := List.mem_singleton.mp hturn
        cases hrole
  results before m after h hm := by
    cases before with
    | nil =>
      obtain ⟨rfl,-⟩ := List.cons.inj h
      cases hm
    | cons x before =>
      obtain ⟨rfl,hrest⟩ := List.cons.inj h
      exact answers_of_turns hrest hm [_]

theorem geminiResults_named_once :
    NamesCalls emptyObjectLib (weatherRequest ["get_weather"]) "g" ↔ NamesStay (weatherRequest ["get_weather"]).messages :=
  geminiResults_named_iff emptyObjectLib (weatherRequest ["get_weather"]) "g" (gatewayConversation_weather ["get_weather"])

/-- Two calls in two turns have one id, and the result of the first is sent as the second's. -/
theorem first_result_misnamed : ¬ ∀ (lib : JsonLib) (req : ChatRequest) (providerModel : String),
    GatewayConversation req.messages → NamesCalls lib req providerModel := by
  intro h
  have hnames := h emptyObjectLib (weatherRequest ["get_weather","get_time"]) "g" (gatewayConversation_weather _) _ rfl
  have hname := hnames [.ofText .user "how is it outside?",callTurn "get_weather"] (resultTurn "fine")
    [callTurn "get_time",resultTurn "fine"] ⟨"call-0-0","get_weather","\x7b\x7d"⟩ rfl rfl
    ⟨[.ofText .user "how is it outside?"],callTurn "get_weather",[],rfl,rfl,fun x hx => (List.not_mem_nil hx).elim,List.mem_cons_self,rfl⟩
  revert hname
  decide

end Weather

end Dwara.Ai
