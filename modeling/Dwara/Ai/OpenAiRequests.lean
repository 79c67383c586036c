import Dwara.Ai.AdapterRequests
import Dwara.Lib.Json

/-! Requests in the OpenAI dialect: the body of a client read into the canonical request, and
that written for a provider of the same dialect. -/

namespace Dwara.Ai.OpenAi
open Dwara.Lib Json

section Parse

def imageFromOpenaiUrl (url : String) : ContentPart :=
  match splitDataUri url with
  | some (mime,data) => .image (some url) (some mime) (some data)
  | none => .image (some url) none none

def parsePart (p : Json) : Except String ContentPart :=
  if p.asObject.isNone then .error "content parts must be objects"
  else if textAt "type" p = some "text" then .ok (.text ((textAt "text" p).getD ""))
  else if textAt "type" p = some "image_url" then .ok (imageFromOpenaiUrl (((p.get "image_url").bind (textAt "url")).getD ""))
  else .error "content part type must be text or image_url"

def parseContent : Option Json → Except String (List ContentPart)
  | none | some .null => .ok []
  | some (.string s) => .ok [.text s]
  | some (.array parts) => parts.mapM parsePart
  | some _ => .error "content must be a string or an array of parts"

def parseToolCall (tc : Json) : Except String ToolCall :=
  match tc.get "function" with
  | none => .error "tool_calls entries require function"
  | some fn => .ok ⟨(textAt "id" tc).getD "",(textAt "name" fn).getD "",(textAt "arguments" fn).getD ""⟩

def parseRole (v : Json) : Option ChatRole := [ChatRole.system,.user,.assistant,.tool].find? fun role => textAt "role" v = some role.asStr

/-- One message of a client. -/
def parseMessage (v : Json) : Except String ChatMessage :=
  if v.asObject.isNone then .error "must be an object"
  else
    match parseRole v with
    | none => .error "role must be one of system|user|assistant|tool"
    | some role => do
      let content ← parseContent (v.get "content")
      let toolCalls ← (((v.get "tool_calls").bind asArray).getD []).mapM parseToolCall
      return ⟨role,content,textAt "name" v,toolCalls,textAt "tool_call_id" v⟩

/-- The messages from the `i`-th on; an error names the message. -/
def parseMessages (i : ℕ) : List Json → Except AiError (List ChatMessage)
  | [] => .ok []
  | v :: vs =>
    match parseMessage v with
    | .error e => .error (.invalidRequest ("messages[" ++ toString i ++ "]: " ++ e))
    | .ok m => do return m :: (← parseMessages (i + 1) vs)

def parseTool (v : Json) : Except AiError ToolSpec :=
  if v.asObject.isNone then .error (.invalidRequest "tools entries must be objects")
  else
    match v.get "function" with
    | none => .error (.invalidRequest "tools entries require a function block")
    | some func => .ok ⟨(textAt "name" func).getD "",textAt "description" func,func.get "parameters"⟩

def parseToolChoice : Option Json → Except AiError (Option ToolChoice)
  | none | some .null => .ok none
  | some (.string s) =>
    if s = "auto" then .ok (some .auto)
    else if s = "none" then .ok (some .none)
    else if s = "required" then .ok (some .any)
    else .error (.invalidRequest ("tool_choice '" ++ s ++ "' is not one of auto|none|required"))
  | some (.object fields) =>
    if textAt "type" (.object fields) = some "function" then
      match ((Json.object fields).get "function").bind (textAt "name") with
      | some name => .ok (some (.tool name))
      | none => .error (.invalidRequest "tool_choice object form requires function.name")
    else .ok none
  | some _ => .error (.invalidRequest "tool_choice must be a string or an object")

def parseStop : Option Json → Except AiError (Option (List String))
  | none | some .null => .ok none
  | some (.string s) => .ok (some [s])
  | some (.array items) =>
    match items.mapM asStr with
    | some texts => .ok (some texts)
    | none => .error (.invalidRequest "stop array entries must be strings")
  | some _ => .error (.invalidRequest "stop must be a string or an array of strings")

/-- The format that is asked for; none when it cannot be read. -/
def parseResponseFormat (v : Json) : Option ResponseFormat := do
  let kind ← textAt "type" v
  if kind = "text" then some .text
  else if kind = "json_object" then some .jsonObject
  else if kind = "json_schema" then
    let format ← v.get "json_schema"
    some (.jsonSchema (← textAt "name" format) (← format.get "schema"))
  else none

/-- The fields the canonical request has a place for. -/
def known : List String :=
  ["model","messages","tools","tool_choice","temperature","top_p","max_tokens","stop","stream","stream_options","response_format",
    "prompt","prompt_variables"]

def isStream (body : Json) : Bool := ((body.get "stream").bind asBool).getD false

def includeUsage (body : Json) : Bool := (((body.get "stream_options").bind (·.get "include_usage")).bind asBool).getD false

def parseMaxTokens (body : Json) : Option UInt64 :=
  ((body.get "max_tokens").bind asU64).or ((body.get "max_completion_tokens").bind asU64)

/-- The body of a client as the canonical request. -/
def parseChatRequest (lib : JsonLib) (body : Json) : Except AiError ChatRequest :=
  match body.asObject with
  | none => .error (.invalidRequest "request body must be a JSON object")
  | some fields =>
    match (textAt "model" body).filter (· ≠ "") with
    | none => .error (.invalidRequest "'model' must be a non-empty string")
    | some model =>
      match (body.get "messages").bind asArray with
      | none => .error (.invalidRequest "'messages' must be an array")
      | some [] => .error (.invalidRequest "'messages' must contain at least one message")
      | some values => do
        let messages ← parseMessages 0 values
        let tools ← (((body.get "tools").bind asArray).getD []).mapM parseTool
        let toolChoice ← parseToolChoice (body.get "tool_choice")
        let stop ← parseStop (body.get "stop")
        return {
          model := model
          messages := messages
          tools := tools
          toolChoice := toolChoice
          temperature := (body.get "temperature").bind lib.asF64
          topP := (body.get "top_p").bind lib.asF64
          maxTokens := parseMaxTokens body
          stop := stop
          stream := isStream body
          streamOptionsIncludeUsage := includeUsage body
          responseFormat := (body.get "response_format").bind parseResponseFormat
          prompt := (textAt "prompt" body).filter (· ≠ "")
          promptVariables := (((body.get "prompt_variables").bind asObject).getD []).filterMap fun f => f.2.asStr.map fun s => (f.1,s)
          other := fields.filter fun f => f.1 ∉ known }

end Parse

section Build

def textForm (text : String) : Json := .object (present [("type",some (.string "text")),("text",some (.string text))])

def imageForm (url : String) : Json :=
  .object (present [("type",some (.string "image_url")),("image_url",some (.object (present [("url",some (.string url))])))])

def partToOpenai : ContentPart → Json
  | .text text => textForm text
  | .image url _ _ => imageForm (url.getD "")

/-- A text alone is a string, several parts are an array. One image is neither. -/
def contentToOpenai : List ContentPart → Option Json
  | [] => some .null
  | [.text text] => some (.string text)
  | [.image _ _ _] => none
  | parts => some (.array (parts.map partToOpenai))

def callForm (tc : ToolCall) : Json :=
  .object (present [("id",some (.string tc.id)),("type",some (.string "function")),
    ("function",some (.object (present [("name",some (.string tc.name)),("arguments",some (.string tc.arguments))])))])

def messageToOpenai (m : ChatMessage) : Json :=
  .object (present [("role",some (.string m.role.asStr)),("content",contentToOpenai m.content),("name",m.name.map .string),
    ("tool_calls",if m.toolCalls.isEmpty then none else some (.array (m.toolCalls.map callForm))),("tool_call_id",m.toolCallId.map .string)])

def toolForm (t : ToolSpec) : Json :=
  .object (present [("type",some (.string "function")),
    ("function",some (.object (present [("name",some (.string t.name)),("description",t.description.map .string),("parameters",t.parameters)])))])

def toolChoiceForm : ToolChoice → Json
  | .auto => .string "auto"
  | .none => .string "none"
  | .any => .string "required"
  | .tool name => .object (present [("type",some (.string "function")),("function",some (.object (present [("name",some (.string name))])))])

def responseFormatToOpenai : ResponseFormat → Json
  | .text => .object (present [("type",some (.string "text"))])
  | .jsonObject => .object (present [("type",some (.string "json_object"))])
  | .jsonSchema name schema =>
    .object (present [("type",some (.string "json_schema")),
      ("json_schema",some (.object (present [("name",some (.string name)),("schema",some schema)])))])

/-- The fields of the canonical request, in the provider's spelling. -/
def openaiFields (req : ChatRequest) (providerModel : String) : List (String × Option Json) :=
  [("model",some (.string providerModel)),
    ("messages",some (.array (req.messages.map messageToOpenai))),
    ("tools",if req.tools.isEmpty then none else some (.array (req.tools.map toolForm))),
    ("tool_choice",if req.tools.isEmpty then none else req.toolChoice.map toolChoiceForm),
    ("temperature",req.temperature.map .float),
    ("top_p",req.topP.map .float),
    ("max_tokens",req.maxTokens.map count),
    ("stop",req.stop.map strArray),
    ("stream",if req.stream then some (.bool true) else none),
    ("stream_options",if req.stream && req.streamOptionsIncludeUsage then some (.object [("include_usage",.bool true)]) else none),
    ("response_format",req.responseFormat.map responseFormatToOpenai)]

def buildRequest (req : ChatRequest) (providerModel : String) : Except AiError ProviderRequest :=
  .ok ⟨"POST","/v1/chat/completions",[],.object (present (openaiFields req providerModel) ++ req.other)⟩

end Build

section Shapes

def IsString (v : Json) : Prop := ∃ s, v = .string s

/-- A text, or an image by its URL and nothing else. -/
def PartShape (v : Json) : Prop := (∃ text, Same (textForm text) v) ∨ ∃ url, Same (imageForm url) v

/-- Null, a string, or two parts or more. -/
def ContentShape (v : Json) : Prop :=
  v = .null ∨ IsString v ∨ ∃ parts, v = .array parts ∧ 2 ≤ parts.length ∧ ∀ p ∈ parts, PartShape p

def CallShape (v : Json) : Prop := ∃ tc, Same (callForm tc) v

structure MessageShape (v : Json) : Prop where
  content : ∃ c, v.get "content" = some c ∧ ContentShape c
  name : ∀ x, v.get "name" = some x → IsString x
  toolCalls : ∀ x, v.get "tool_calls" = some x → ∃ calls, x = .array calls ∧ calls ≠ [] ∧ ∀ c ∈ calls, CallShape c
  toolCallId : ∀ x, v.get "tool_call_id" = some x → IsString x
  others : ∀ key, key ∉ ["role","content","name","tool_calls","tool_call_id"] → v.get key = none

/-- A function by its name, with a description and parameters or without, and nothing else. -/
def ToolShape (v : Json) : Prop := ∃ t, Same (toolForm t) v

def ChoiceShape (v : Json) : Prop := ∃ choice, Same (toolChoiceForm choice) v

def FormatShape (v : Json) : Prop := ∃ format, Same (responseFormatToOpenai format) v

def FloatShape (lib : JsonLib) (v : Json) : Prop := ∃ text, v = .float text ∧ lib.asF64 v = some text

/-- The forms a body may have its fields in to come through as it is. -/
structure RequestShape (lib : JsonLib) (body : Json) : Prop where
  messages : ∀ values, body.get "messages" = some (.array values) → ∀ v ∈ values, MessageShape v
  tools : ∀ x, body.get "tools" = some x → ∃ values, x = .array values ∧ values ≠ [] ∧ ∀ v ∈ values, ToolShape v
  toolChoice : ∀ x, body.get "tool_choice" = some x → (body.get "tools").isSome ∧ ChoiceShape x
  temperature : ∀ x, body.get "temperature" = some x → FloatShape lib x
  topP : ∀ x, body.get "top_p" = some x → FloatShape lib x
  maxTokens : ∀ x, body.get "max_tokens" = some x → x.asU64.isSome
  maxCompletionTokens : body.get "max_tokens" = none → (body.get "max_completion_tokens").bind asU64 = none
  stream : ∀ x, body.get "stream" = some x → x = .bool true
  streamOptions : body.get "stream" = some (.bool true) → includeUsage body = false
  responseFormat : ∀ x, body.get "response_format" = some x → FormatShape x

/-- A text alone is a string, and the stops are an array. -/
structure Normalised (body : Json) : Prop where
  content : ∀ values, body.get "messages" = some (.array values) →
    ∀ v ∈ values, ∀ p, v.get "content" = some (.array [p]) → textAt "type" p ≠ some "text"
  stop : ∀ x, body.get "stop" = some x → ∃ items, x = .array items

/-- The body with the provider's model, and without what is for the gateway only. -/
def forwarded (body : Json) (providerModel : String) : Json :=
  .object (("model",.string providerModel) :: (body.asObject.getD []).filter fun f => f.1 ∉ ["model","prompt","prompt_variables","stream_options"])

/-- The request built from a body is the body, up to the order of keys. -/
def Lossless (body : Json) (req : ChatRequest) (providerModel : String) : Prop :=
  ∃ p, buildRequest req providerModel = .ok p ∧ Same p.body (forwarded body providerModel)

end Shapes

section Fields

theorem same_string_iff {s : String} {v : Json} : Same (.string s) v ↔ v = .string s := same_scalar_iff rfl rfl

/-- A field that is read as a text and written when there is one. -/
theorem rel_text_iff {o : Option Json} : Option.Rel Same ((o.bind asStr).map .string) o ↔ ∀ x, o = some x → IsString x := by
  cases o with
  | none => simp
  | some v =>
    rw [Option.bind_some]
    constructor
    · intro hrel x hx
      obtain rfl := Option.some.inj hx
      cases htext : v.asStr with
      | none =>
        rw [htext] at hrel
        cases hrel
      | some s => exact ⟨s,asStr_eq_some.mp htext⟩
    · intro hall
      obtain ⟨s,rfl⟩ := hall v rfl
      exact .some (Same.refl _)

section Reading
variable {entries : List (String × Option Json)} {v : Json} (hnodup : (entries.map Prod.fst).Nodup) (h : Same (.object (present entries)) v)
  (name : String) {value : Option Json} (hmem : (name,value) ∈ entries)
include hnodup h hmem

/-- What is the same as an object has its fields. -/
theorem rel_get_of_same : Option.Rel Same value (v.get name) := by
  obtain ⟨others,rfl,hentries,-⟩ := (same_present_iff hnodup).mp h
  exact hentries _ hmem

omit hmem in
theorem textAt_of_same (s : String) (hmem : (name,some (.string s)) ∈ entries) : textAt name v = some s := by
  obtain ⟨w,hw,hsame⟩ := rel_some_iff.mp (rel_get_of_same hnodup h name hmem)
  rw [textAt,hw,same_string_iff.mp hsame]
  rfl

omit hmem in
/-- A field that may be missing is the text it is given, or missing. -/
theorem textAt_of_same_map (o : Option String) (hmem : (name,o.map .string) ∈ entries) : textAt name v = o := by
  cases o with
  | none =>
    rw [textAt,rel_none_iff.mp (rel_get_of_same hnodup h name hmem)]
    rfl
  | some s => exact textAt_of_same hnodup h name s hmem

omit hmem in
/-- With other values for its fields, the object is the same when these are. -/
theorem same_of_fields {others : List (String × Option Json)} (hnames : others.map Prod.fst = entries.map Prod.fst)
    (hvalues : ∀ e ∈ others, Option.Rel Same e.2 (v.get e.1)) : Same (.object (present others)) v := by
  obtain ⟨fields,rfl,-,hnone⟩ := (same_present_iff hnodup).mp h
  exact (same_present_iff (hnames ▸ hnodup)).mpr ⟨fields,rfl,hvalues,hnames ▸ hnone⟩

end Reading

theorem rel_refl (o : Option Json) : Option.Rel Same o o := by
  cases o with
  | none => exact .none
  | some v => exact .some (Same.refl v)

/-- Values read one by one and written again are the same when each is. -/
theorem same_map_iff {α : Type} {reads : Json → α → Prop} (render : α → Json) (shape : Json → Prop) {vs : List Json} {as : List α}
    (h : List.Forall₂ reads vs as) (hone : ∀ v ∈ vs, ∀ a, reads v a → (Same (render a) v ↔ shape v)) :
    Same (.array (as.map render)) (.array vs) ↔ ∀ v ∈ vs, shape v := by
  rw [same_array_iff]
  have hall : List.Forall₂ Same (as.map render) vs ↔ ∀ v ∈ vs, shape v := by
    induction h with
    | nil => simp
    | cons ha _ ih =>
      rw [List.map_cons,List.forall₂_cons,List.forall_mem_cons,hone _ List.mem_cons_self _ ha,
        ih fun v hv => hone v (List.mem_cons_of_mem _ hv)]
  rw [← hall]
  exact ⟨fun ⟨others,heq,hsame⟩ => by cases heq; exact hsame,fun hsame => ⟨vs,rfl,hsame⟩⟩

theorem forall₂_of_parseMessages {i : ℕ} {vs : List Json} {ms : List ChatMessage} (h : parseMessages i vs = .ok ms) :
    List.Forall₂ (fun v m => parseMessage v = .ok m) vs ms := by
  induction vs generalizing i ms with
  | nil =>
    obtain rfl := Except.ok.inj h
    exact .nil
  | cons v vs ih =>
    rw [parseMessages] at h
    cases hv : parseMessage v with
    | error e =>
      rw [hv] at h
      cases h
    | ok m =>
      rw [hv] at h
      obtain ⟨rest,hrest,h⟩ := bind_eq_ok.mp h
      obtain rfl := Except.ok.inj h
      exact .cons hv (ih hrest)

end Fields

section Values

theorem partToOpenai_image (url : String) : partToOpenai (imageFromOpenaiUrl url) = imageForm url := by
  rw [imageFromOpenaiUrl]
  split
  · rfl
  · rfl

/-- A part comes through exactly when it has one of the two forms. -/
theorem same_part_iff {p : Json} {part : ContentPart} (h : parsePart p = .ok part) : Same (partToOpenai part) p ↔ PartShape p := by
  rw [parsePart] at h
  constructor
  · intro hsame
    split at h
    · cases h
    · split at h
      · obtain rfl := Except.ok.inj h
        exact .inl ⟨_,hsame⟩
      · split at h
        · obtain rfl := Except.ok.inj h
          rw [partToOpenai_image] at hsame
          exact .inr ⟨_,hsame⟩
        · cases h
  · rintro (⟨text,hsame⟩ | ⟨url,hsame⟩)
    · have hobject : p.asObject.isNone = false := by
        obtain ⟨others,rfl,-⟩ := same_object_iff.mp hsame
        rfl
      have htype := textAt_of_same (by simp) hsame "type" "text" List.mem_cons_self
      have htext := textAt_of_same (by simp) hsame "text" text (List.mem_cons_of_mem _ List.mem_cons_self)
      rw [hobject,if_neg Bool.false_ne_true,if_pos htype,htext] at h
      obtain rfl := Except.ok.inj h
      exact hsame
    · have hobject : p.asObject.isNone = false := by
        obtain ⟨others,rfl,-⟩ := same_object_iff.mp hsame
        rfl
      have htype := textAt_of_same (by simp) hsame "type" "image_url" List.mem_cons_self
      obtain ⟨image,himage,hurl⟩ := rel_some_iff.mp
        (rel_get_of_same (by simp) hsame "image_url" (List.mem_cons_of_mem _ List.mem_cons_self))
      have hurl := textAt_of_same (by simp) hurl "url" url List.mem_cons_self
      rw [hobject,if_neg Bool.false_ne_true,if_neg (by rw [htype]; decide),if_pos htype,himage,Option.bind_some,hurl] at h
      obtain rfl := Except.ok.inj h
      rw [Option.getD_some,partToOpenai_image]
      exact hsame

theorem same_call_iff {v : Json} {tc : ToolCall} (h : parseToolCall v = .ok tc) : Same (callForm tc) v ↔ CallShape v := by
  refine ⟨fun hsame => ⟨tc,hsame⟩,?_⟩
  rintro ⟨tc',hsame⟩
  obtain ⟨fn,hfn,hinner⟩ := rel_some_iff.mp (rel_get_of_same (by simp) hsame "function"
    (List.mem_cons_of_mem _ (List.mem_cons_of_mem _ List.mem_cons_self)))
  have hid := textAt_of_same (by simp) hsame "id" tc'.id List.mem_cons_self
  have hname := textAt_of_same (by simp) hinner "name" tc'.name List.mem_cons_self
  have harguments := textAt_of_same (by simp) hinner "arguments" tc'.arguments (List.mem_cons_of_mem _ List.mem_cons_self)
  rw [parseToolCall,hfn] at h
  simp only [hid,hname,harguments,Option.getD_some] at h
  obtain rfl := Except.ok.inj h
  exact hsame

theorem same_tool_iff {v : Json} {t : ToolSpec} (h : parseTool v = .ok t) : Same (toolForm t) v ↔ ToolShape v := by
  refine ⟨fun hsame => ⟨t,hsame⟩,?_⟩
  rintro ⟨t',hsame⟩
  have hfunction := rel_get_of_same (by simp) hsame "function" (List.mem_cons_of_mem _ List.mem_cons_self)
  obtain ⟨func,hfunc,hinner⟩ := rel_some_iff.mp hfunction
  have hname := textAt_of_same (by simp) hinner "name" t'.name List.mem_cons_self
  have hdescription := textAt_of_same_map (by simp) hinner "description" t'.description (List.mem_cons_of_mem _ List.mem_cons_self)
  have hobject : v.asObject.isNone = false := by
    obtain ⟨others,rfl,-⟩ := same_object_iff.mp hsame
    rfl
  rw [parseTool,hobject,if_neg Bool.false_ne_true,hfunc] at h
  simp only [hname,hdescription,Option.getD_some] at h
  obtain rfl := Except.ok.inj h
  have hspec : Same (.object (present [("name",some (.string t'.name)),("description",t'.description.map .string),
      ("parameters",func.get "parameters")])) func := by
    refine same_of_fields (by simp) hinner rfl ?_
    simp only [List.forall_mem_cons]
    exact ⟨rel_get_of_same (by simp) hinner _ List.mem_cons_self,rel_get_of_same (by simp) hinner _ (List.mem_cons_of_mem _ List.mem_cons_self),
      rel_refl _,by simp⟩
  refine same_of_fields (by simp) hsame rfl ?_
  simp only [List.forall_mem_cons]
  exact ⟨rel_get_of_same (by simp) hsame _ List.mem_cons_self,rel_some_iff.mpr ⟨func,hfunc,hspec⟩,by simp⟩

/-- A format comes through exactly when it is one that can be read. -/
theorem rel_format_iff {o : Option Json} :
    Option.Rel Same ((o.bind parseResponseFormat).map responseFormatToOpenai) o ↔ ∀ x, o = some x → FormatShape x := by
  cases o with
  | none => simp
  | some v =>
    rw [Option.bind_some]
    constructor
    · intro hrel x hx
      obtain rfl := Option.some.inj hx
      cases hformat : parseResponseFormat v with
      | none =>
        rw [hformat] at hrel
        cases hrel
      | some format =>
        rw [hformat] at hrel
        obtain ⟨w,hw,hsame⟩ := rel_some_iff.mp hrel
        exact ⟨format,Option.some.inj hw ▸ hsame⟩
    · intro hshape
      obtain ⟨format,hsame⟩ := hshape v rfl
      cases format with
      | text =>
        have htype := textAt_of_same (by simp) hsame "type" "text" List.mem_cons_self
        have hformat : parseResponseFormat v = some .text := by
          rw [parseResponseFormat,htype]
          rfl
        rw [hformat]
        exact .some hsame
      | jsonObject =>
        have htype := textAt_of_same (by simp) hsame "type" "json_object" List.mem_cons_self
        have hformat : parseResponseFormat v = some .jsonObject := by
          rw [parseResponseFormat,htype]
          rfl
        rw [hformat]
        exact .some hsame
      | jsonSchema name schema =>
        have htype := textAt_of_same (by simp) hsame "type" "json_schema" List.mem_cons_self
        obtain ⟨inner,hget,hinner⟩ := rel_some_iff.mp
          (rel_get_of_same (by simp) hsame "json_schema" (List.mem_cons_of_mem _ List.mem_cons_self))
        have hname := textAt_of_same (by simp) hinner "name" name List.mem_cons_self
        obtain ⟨schema',hschema,-⟩ := rel_some_iff.mp (rel_get_of_same (by simp) hinner "schema" (List.mem_cons_of_mem _ List.mem_cons_self))
        have hformat : parseResponseFormat v = some (.jsonSchema name schema') := by
          rw [parseResponseFormat,htype]
          simp [hget,hname,hschema]
        have hown : Same (.object (present [("name",some (.string name)),("schema",some schema')])) inner := by
          refine same_of_fields (by simp) hinner rfl ?_
          simp only [List.forall_mem_cons]
          exact ⟨rel_get_of_same (by simp) hinner _ List.mem_cons_self,by rw [hschema]; exact rel_refl _,by simp⟩
        rw [hformat]
        refine .some (same_of_fields (by simp) hsame rfl ?_)
        simp only [List.forall_mem_cons]
        exact ⟨rel_get_of_same (by simp) hsame _ List.mem_cons_self,rel_some_iff.mpr ⟨inner,hget,hown⟩,by simp⟩

/-- What a choice stands for is read from its own form. -/
theorem parseToolChoice_of_same {v : Json} {choice : ToolChoice} (h : Same (toolChoiceForm choice) v) :
    parseToolChoice (some v) = .ok (some choice) := by
  cases choice with
  | auto =>
    rw [same_string_iff.mp h]
    rfl
  | none =>
    rw [same_string_iff.mp h]
    rfl
  | any =>
    rw [same_string_iff.mp h]
    rfl
  | tool name =>
    have htype := textAt_of_same (by simp) h "type" "function" List.mem_cons_self
    obtain ⟨inner,hget,hinner⟩ := rel_some_iff.mp (rel_get_of_same (by simp) h "function" (List.mem_cons_of_mem _ List.mem_cons_self))
    have hname := textAt_of_same (by simp) hinner "name" name List.mem_cons_self
    obtain ⟨fields,rfl,-⟩ := same_object_iff.mp h
    rw [parseToolChoice,if_pos htype,hget,Option.bind_some,hname]

/-- A choice comes through exactly when it is one that can be read. -/
theorem rel_choice_iff {o : Option Json} {choice : Option ToolChoice} (h : parseToolChoice o = .ok choice) :
    Option.Rel Same (choice.map toolChoiceForm) o ↔ ∀ x, o = some x → ChoiceShape x := by
  constructor
  · rintro hrel x rfl
    cases choice with
    | none => cases hrel
    | some choice =>
      obtain ⟨w,hw,hsame⟩ := rel_some_iff.mp hrel
      exact ⟨choice,Option.some.inj hw ▸ hsame⟩
  · intro hshape
    cases o with
    | none =>
      obtain rfl := Except.ok.inj h
      exact .none
    | some v =>
      obtain ⟨choice',hsame⟩ := hshape v rfl
      rw [parseToolChoice_of_same hsame] at h
      obtain rfl := Except.ok.inj h
      exact .some hsame

theorem contentToOpenai_of_two {parts : List ContentPart} (h : 2 ≤ parts.length) :
    contentToOpenai parts = some (.array (parts.map partToOpenai)) := by
  rcases parts with _ | ⟨a,_ | ⟨b,rest⟩⟩
  · cases h
  · exact absurd h (by simp)
  · cases a with
    | text text => rfl
    | image url mediaType dataB64 => rfl

/-- A content comes through unless it is missing, an empty array or one image. -/
theorem rel_content_iff {o : Option Json} {parts : List ContentPart} (h : parseContent o = .ok parts)
    (hnorm : ∀ p, o = some (.array [p]) → textAt "type" p ≠ some "text") :
    Option.Rel Same (contentToOpenai parts) o ↔ ∃ c, o = some c ∧ ContentShape c := by
  cases o with
  | none =>
    obtain rfl := Except.ok.inj h
    refine iff_of_false ?_ ?_
    · intro hrel
      cases hrel
    · rintro ⟨c,hc,-⟩
      cases hc
  | some v =>
    cases v with
    | null =>
      obtain rfl := Except.ok.inj h
      exact iff_of_true (rel_refl _) ⟨_,rfl,.inl rfl⟩
    | string s =>
      obtain rfl := Except.ok.inj h
      exact iff_of_true (rel_refl _) ⟨_,rfl,.inr (.inl ⟨s,rfl⟩)⟩
    | bool b => cases h
    | int n => cases h
    | float t => cases h
    | object fields => cases h
    | array values =>
      have hparts : List.Forall₂ (fun v a => parsePart v = .ok a) values parts := forall₂_of_mapM h
      have hlen := hparts.length_eq
      have hshape : (∃ c, some (Json.array values) = some c ∧ ContentShape c) ↔ 2 ≤ values.length ∧ ∀ p ∈ values, PartShape p := by
        constructor
        · rintro ⟨c,hc,rfl | ⟨s,rfl⟩ | ⟨ps,rfl,hall⟩⟩
          · cases hc
          · cases hc
          · cases hc
            exact hall
        · exact fun hall => ⟨_,rfl,.inr (.inr ⟨values,rfl,hall⟩)⟩
      rw [hshape]
      by_cases htwo : 2 ≤ values.length
      · rw [contentToOpenai_of_two (hlen ▸ htwo),rel_some_iff]
        have hmap := same_map_iff partToOpenai PartShape hparts fun v _ a ha => same_part_iff ha
        rw [← hmap]
        exact ⟨fun ⟨w,hw,hsame⟩ => ⟨htwo,Option.some.inj hw ▸ hsame⟩,fun ⟨_,hsame⟩ => ⟨_,rfl,hsame⟩⟩
      · refine iff_of_false ?_ fun hall => htwo hall.1
        cases hparts with
        | nil =>
          intro hrel
          obtain ⟨w,hw,hsame⟩ := rel_some_iff.mp hrel
          cases hw
          cases hsame
        | cons hp hrest =>
          cases hrest with
          | cons => simp at htwo
          | nil =>
            rename_i p a
            rw [parsePart] at hp
            split at hp
            · cases hp
            · rw [if_neg (hnorm p rfl)] at hp
              split at hp
              · obtain rfl := Except.ok.inj hp
                rw [imageFromOpenaiUrl]
                intro hrel
                split at hrel
                · cases hrel
                · cases hrel
              · cases hp

/-- A list that is written when it is not empty. -/
theorem rel_list_iff {ε α : Type} {f : Json → Except ε α} (render : α → Json) (shape : Json → Prop)
    (hone : ∀ v a, f v = .ok a → (Same (render a) v ↔ shape v)) {o : Option Json} {as : List α}
    (h : ((o.bind asArray).getD []).mapM f = .ok as) :
    Option.Rel Same (if as.isEmpty then none else some (.array (as.map render))) o ↔
      ∀ x, o = some x → ∃ values, x = .array values ∧ values ≠ [] ∧ ∀ v ∈ values, shape v := by
  cases o with
  | none =>
    obtain rfl := Except.ok.inj h
    exact iff_of_true .none (by simp)
  | some v =>
    rw [Option.bind_some] at h
    cases hv : v.asArray with
    | none =>
      rw [hv] at h
      obtain rfl := Except.ok.inj h
      refine iff_of_false (fun hrel => by cases hrel) fun hall => ?_
      obtain ⟨values,rfl,-⟩ := hall v rfl
      cases hv
    | some values =>
      obtain rfl := asArray_eq_some.mp hv
      have hread : List.Forall₂ (fun v a => f v = .ok a) values as := forall₂_of_mapM h
      have hmap := same_map_iff render shape hread fun v _ a ha => hone v a ha
      have hempty : as.isEmpty = true ↔ values = [] := by
        rw [List.isEmpty_iff,← List.length_eq_zero_iff,← hread.length_eq,List.length_eq_zero_iff]
      by_cases hnil : as.isEmpty = true
      · rw [if_pos hnil]
        refine iff_of_false (fun hrel => by cases hrel) fun hall => ?_
        obtain ⟨others,hothers,hne,-⟩ := hall _ rfl
        cases hothers
        exact hne (hempty.mp hnil)
      · rw [if_neg hnil,rel_some_iff]
        constructor
        · rintro ⟨w,hw,hsame⟩ x hx
          cases hw
          cases hx
          exact ⟨values,rfl,fun h => hnil (hempty.mpr h),hmap.mp hsame⟩
        · intro hall
          obtain ⟨others,hothers,-,hshape⟩ := hall _ rfl
          cases hothers
          exact ⟨_,rfl,hmap.mpr hshape⟩

/-- A message comes through exactly when its fields do and it has no others. -/
theorem same_message_iff {v : Json} {m : ChatMessage} (h : parseMessage v = .ok m)
    (hnorm : ∀ p, v.get "content" = some (.array [p]) → textAt "type" p ≠ some "text") : Same (messageToOpenai m) v ↔ MessageShape v := by
  rw [parseMessage] at h
  split at h
  · cases h
  · rename_i hobject
    cases hrole : parseRole v with
    | none =>
      rw [hrole] at h
      cases h
    | some role =>
      rw [hrole] at h
      have hroleText : textAt "role" v = some role.asStr := of_decide_eq_true
        (List.find?_some (p := fun role : ChatRole => decide (textAt "role" v = some role.asStr)) hrole)
      obtain ⟨content,hcontent,h⟩ := bind_eq_ok.mp h
      obtain ⟨calls,hcalls,h⟩ := bind_eq_ok.mp h
      obtain rfl := Except.ok.inj h
      have hcontentRel := rel_content_iff hcontent hnorm
      have hcallsRel := rel_list_iff callForm CallShape (fun v a ha => same_call_iff ha) hcalls
      have hnameRel : Option.Rel Same ((textAt "name" v).map .string) (v.get "name") ↔ _ := rel_text_iff
      have hidRel : Option.Rel Same ((textAt "tool_call_id" v).map .string) (v.get "tool_call_id") ↔ _ := rel_text_iff
      have hroleRel : Option.Rel Same (some (.string role.asStr)) (v.get "role") := by
        obtain ⟨w,hw,hstr⟩ := Option.bind_eq_some_iff.mp hroleText
        rw [hw,asStr_eq_some.mp hstr]
        exact rel_refl _
      obtain ⟨fields,hfields⟩ : ∃ fields, v.asObject = some fields := by
        rwa [Option.isNone_iff_eq_none,← ne_eq,Option.ne_none_iff_exists'] at hobject
      obtain rfl := asObject_eq_some.mp hfields
      rw [messageToOpenai,same_present_iff (by simp)]
      simp only [List.forall_mem_cons]
      constructor
      · rintro ⟨others,hothers,⟨-,hc,hn,ht,hi,-⟩,hrest⟩
        cases hothers
        exact ⟨hcontentRel.mp hc,hnameRel.mp hn,hcallsRel.mp ht,hidRel.mp hi,hrest⟩
      · intro hshape
        exact ⟨fields,rfl,⟨hroleRel,hcontentRel.mpr hshape.content,hnameRel.mpr hshape.name,hcallsRel.mpr hshape.toolCalls,
          hidRel.mpr hshape.toolCallId,by simp⟩,hshape.others⟩

end Values

section Numbers

theorem rel_float_iff {lib : JsonLib} {o : Option Json} :
    Option.Rel Same ((o.bind lib.asF64).map .float) o ↔ ∀ x, o = some x → FloatShape lib x := by
  cases o with
  | none => simp
  | some v =>
    rw [Option.bind_some]
    constructor
    · intro hrel x hx
      obtain rfl := Option.some.inj hx
      cases hfloat : lib.asF64 v with
      | none =>
        rw [hfloat] at hrel
        cases hrel
      | some t =>
        rw [hfloat] at hrel
        obtain ⟨w,hw,hsame⟩ := rel_some_iff.mp hrel
        obtain rfl := Option.some.inj hw
        exact ⟨t,(same_scalar_iff rfl rfl).mp hsame,hfloat⟩
    · intro hshape
      obtain ⟨t,rfl,hfloat⟩ := hshape v rfl
      rw [hfloat]
      exact rel_refl _

private theorem eq_count_of_asU64 {v : Json} {n : UInt64} (h : v.asU64 = some n) : v = count n := by
  cases v with
  | int z =>
    rw [asU64] at h
    split at h
    · rename_i hrange
      obtain rfl := Option.some.inj h
      have hlt : z.toNat < 2 ^ 64 := by omega
      rw [count,UInt64.toNat_ofNat_of_lt' hlt,Int.toNat_of_nonneg hrange.1]
    · cases h
  | null => cases h
  | bool b => cases h
  | float t => cases h
  | string s => cases h
  | array items => cases h
  | object fields => cases h

private theorem asU64_count_isSome (n : UInt64) : (count n).asU64.isSome := by
  have hlt := n.toNat_lt
  have hrange : 0 ≤ (n.toNat : ℤ) ∧ (n.toNat : ℤ) < 2 ^ 64 := by omega
  rw [count,asU64,if_pos hrange]
  rfl

theorem rel_maxTokens_iff {body : Json} :
    Option.Rel Same ((parseMaxTokens body).map count) (body.get "max_tokens") ↔
      (∀ x, body.get "max_tokens" = some x → x.asU64.isSome) ∧
        (body.get "max_tokens" = none → (body.get "max_completion_tokens").bind asU64 = none) := by
  rw [parseMaxTokens]
  cases hmax : body.get "max_tokens" with
  | none =>
    rw [Option.bind_none,Option.none_or]
    cases hother : (body.get "max_completion_tokens").bind asU64 with
    | none => exact iff_of_true .none ⟨fun x hx => (by cases hx),fun _ => rfl⟩
    | some n => exact iff_of_false (fun hrel => by cases hrel) fun hall => by cases hall.2 rfl
  | some v =>
    rw [Option.bind_some]
    cases hv : v.asU64 with
    | some n =>
      rw [Option.some_or,Option.map_some,← eq_count_of_asU64 hv]
      refine iff_of_true (rel_refl _) ⟨fun x hx => ?_,fun h => by cases h⟩
      rw [← Option.some.inj hx,hv]
      rfl
    | none =>
      refine iff_of_false (fun hrel => ?_) fun hall => ?_
      · rw [Option.none_or] at hrel
        cases hother : (body.get "max_completion_tokens").bind asU64 with
        | none =>
          rw [hother] at hrel
          cases hrel
        | some n =>
          rw [hother] at hrel
          obtain ⟨w,hw,hsame⟩ := rel_some_iff.mp hrel
          obtain rfl := Option.some.inj hw
          have hsome := asU64_count_isSome n
          rw [← (same_scalar_iff (v := count n) rfl rfl).mp hsame,hv] at hsome
          cases hsome
      · have hsome := hall.1 v rfl
        rw [hv] at hsome
        cases hsome

end Numbers

section Body

private theorem lookup_filter (fields : List (String × Json)) (keep : String → Bool) (name : String) :
    (fields.filter fun f => keep f.1).lookup name = if keep name then fields.lookup name else none := by
  induction fields with
  | nil => simp
  | cons f fields ih =>
    obtain ⟨key,v⟩ := f
    rw [List.filter_cons,List.lookup_cons]
    cases hname : name == key with
    | true =>
      obtain rfl := eq_of_beq hname
      split
      · rw [List.lookup_cons,hname]
      · rename_i hkeep
        rw [ih,if_neg hkeep]
    | false =>
      split
      · rw [List.lookup_cons,hname,ih]
      · exact ih

/-- What an accepted body is read as. -/
theorem parseChatRequest_ok {lib : JsonLib} {body : Json} {req : ChatRequest} (h : parseChatRequest lib body = .ok req) :
    ∃ fields values, body = .object fields ∧ body.get "messages" = some (.array values) ∧ parseMessages 0 values = .ok req.messages ∧
      (((body.get "tools").bind asArray).getD []).mapM parseTool = .ok req.tools ∧
      parseToolChoice (body.get "tool_choice") = .ok req.toolChoice ∧ parseStop (body.get "stop") = .ok req.stop ∧
      req.temperature = (body.get "temperature").bind lib.asF64 ∧ req.topP = (body.get "top_p").bind lib.asF64 ∧
      req.maxTokens = parseMaxTokens body ∧ req.stream = isStream body ∧ req.streamOptionsIncludeUsage = includeUsage body ∧
      req.responseFormat = (body.get "response_format").bind parseResponseFormat ∧ req.other = fields.filter fun f => f.1 ∉ known := by
  rw [parseChatRequest] at h
  cases hobject : body.asObject with
  | none =>
    rw [hobject] at h
    cases h
  | some fields =>
    obtain rfl := asObject_eq_some.mp hobject
    simp only [asObject] at h
    split at h
    · cases h
    · split at h
      · cases h
      · cases h
      · rename_i values hne hvalues
        obtain ⟨messages,hmessages,h⟩ := bind_eq_ok.mp h
        obtain ⟨tools,htools,h⟩ := bind_eq_ok.mp h
        obtain ⟨choice,hchoice,h⟩ := bind_eq_ok.mp h
        obtain ⟨stop,hstop,h⟩ := bind_eq_ok.mp h
        obtain rfl := Except.ok.inj h
        have harray : (Json.object fields).get "messages" = some (.array values) := by
          obtain ⟨w,hw,hlist⟩ := Option.bind_eq_some_iff.mp hvalues
          rw [hw,asArray_eq_some.mp hlist]
        exact ⟨fields,values,rfl,harray,hmessages,htools,hchoice,hstop,rfl,rfl,rfl,rfl,rfl,rfl,rfl⟩

section Forwarded
variable {fields : List (String × Json)} {providerModel name : String}

theorem get_forwarded (h : name ∉ ["model","prompt","prompt_variables","stream_options"]) :
    (forwarded (.object fields) providerModel).get name = (Json.object fields).get name := by
  have hmodel : (name == "model") = false := beq_eq_false_iff_ne.mpr fun heq => h (heq ▸ List.mem_cons_self)
  show List.lookup name (("model",_) :: List.filter _ fields) = _
  rw [List.lookup_cons,hmodel]
  refine (lookup_filter fields (fun key => decide (key ∉ ["model","prompt","prompt_variables","stream_options"])) name).trans ?_
  rw [if_pos (decide_eq_true h)]
  rfl

theorem get_forwarded_own (h : name ∈ ["prompt","prompt_variables","stream_options"]) :
    (forwarded (.object fields) providerModel).get name = none := by
  have hmodel : (name == "model") = false := by
    refine beq_eq_false_iff_ne.mpr ?_
    rintro rfl
    revert h
    decide
  show List.lookup name (("model",_) :: List.filter _ fields) = _
  rw [List.lookup_cons,hmodel]
  refine (lookup_filter fields (fun key => decide (key ∉ ["model","prompt","prompt_variables","stream_options"])) name).trans ?_
  have hmem : name ∈ ["model","prompt","prompt_variables","stream_options"] := List.mem_cons_of_mem _ h
  rw [decide_eq_false (not_not_intro hmem)]
  rfl

end Forwarded

section Switches
variable {body : Json}

theorem isStream_iff : isStream body = true ↔ body.get "stream" = some (.bool true) := by
  rw [isStream,Option.getD_eq_iff]
  constructor
  · rintro (hsome | ⟨-,hfalse⟩)
    · obtain ⟨v,hv,hb⟩ := Option.bind_eq_some_iff.mp hsome
      rw [hv,asBool_eq_some.mp hb]
    · cases hfalse
  · intro hstream
    rw [hstream]
    exact .inl rfl

/-- Only a stream that is asked for is written. -/
theorem rel_stream_iff :
    Option.Rel Same (if isStream body then some (.bool true) else none) (body.get "stream") ↔
      ∀ x, body.get "stream" = some x → x = .bool true := by
  by_cases hstream : isStream body = true
  · rw [if_pos hstream,isStream_iff.mp hstream]
    exact iff_of_true (rel_refl _) fun x hx => (Option.some.inj hx).symm
  · rw [if_neg hstream,rel_none_iff]
    constructor
    · intro hnone x hx
      rw [hnone] at hx
      cases hx
    · intro hall
      cases hx : body.get "stream" with
      | none => rfl
      | some x => exact absurd (isStream_iff.mpr (hall x hx ▸ hx)) hstream

/-- The options of a stream are written again only with a stream whose usage is asked for. -/
theorem rel_streamOptions_iff :
    Option.Rel Same (if isStream body && includeUsage body then some (.object [("include_usage",.bool true)]) else none) none ↔
      (body.get "stream" = some (.bool true) → includeUsage body = false) := by
  rw [← isStream_iff]
  cases isStream body with
  | false => simp
  | true =>
    cases includeUsage body with
    | false => simp
    | true => exact iff_of_false (fun hrel => by cases hrel) (by simp)

/-- A choice is written only beside tools. -/
theorem rel_tools_iff {req : ChatRequest} (htools : (((body.get "tools").bind asArray).getD []).mapM parseTool = .ok req.tools)
    (hchoice : parseToolChoice (body.get "tool_choice") = .ok req.toolChoice) :
    Option.Rel Same (if req.tools.isEmpty then none else some (.array (req.tools.map toolForm))) (body.get "tools") ∧
        Option.Rel Same (if req.tools.isEmpty then none else req.toolChoice.map toolChoiceForm) (body.get "tool_choice") ↔
      (∀ x, body.get "tools" = some x → ∃ values, x = .array values ∧ values ≠ [] ∧ ∀ v ∈ values, ToolShape v) ∧
        ∀ x, body.get "tool_choice" = some x → (body.get "tools").isSome ∧ ChoiceShape x := by
  rw [← rel_list_iff toolForm ToolShape (fun v a ha => same_tool_iff ha) htools]
  refine and_congr_right fun hrel => ?_
  by_cases hempty : req.tools.isEmpty = true
  · rw [if_pos hempty,rel_none_iff] at hrel ⊢
    rw [hrel]
    constructor
    · intro hnone x hx
      rw [hnone] at hx
      cases hx
    · intro hall
      cases hx : body.get "tool_choice" with
      | none => rfl
      | some x => cases (hall x hx).1
  · rw [if_neg hempty] at hrel ⊢
    obtain ⟨w,hw,-⟩ := rel_some_iff.mp hrel
    rw [hw,rel_choice_iff hchoice]
    exact forall_congr' fun x => imp_congr_right fun _ => (and_iff_right rfl).symm

end Switches

section Stops

private theorem eq_map_of_mapM_asStr {items : List Json} {texts : List String} (h : items.mapM asStr = some texts) :
    items = texts.map .string := by
  induction items generalizing texts with
  | nil =>
    obtain rfl := Option.some.inj h
    rfl
  | cons v items ih =>
    rw [List.mapM_cons] at h
    obtain ⟨s,hs,h⟩ := Option.bind_eq_some_iff.mp h
    obtain ⟨rest,hrest,h⟩ := Option.bind_eq_some_iff.mp h
    obtain rfl := Option.some.inj h
    rw [List.map_cons,← ih hrest,asStr_eq_some.mp hs]

/-- Stops that are an array come through. -/
theorem rel_stop {o : Option Json} {stop : Option (List String)} (h : parseStop o = .ok stop)
    (harray : ∀ x, o = some x → ∃ items, x = .array items) : Option.Rel Same (stop.map strArray) o := by
  cases o with
  | none =>
    obtain rfl := Except.ok.inj h
    exact .none
  | some x =>
    obtain ⟨items,rfl⟩ := harray x rfl
    cases htexts : items.mapM asStr with
    | none =>
      simp only [parseStop,htexts] at h
      cases h
    | some texts =>
      simp only [parseStop,htexts] at h
      obtain rfl := Except.ok.inj h
      rw [eq_map_of_mapM_asStr htexts]
      exact rel_refl _

end Stops

/-- What has no field of its own is forwarded as it came, and what is for the gateway is not. -/
private theorem rel_other (req : ChatRequest) {fields : List (String × Json)} {providerModel name : String}
    (h : name ∉ (openaiFields req providerModel).map Prod.fst) :
    Option.Rel Same ((fields.filter fun f => f.1 ∉ known).lookup name) ((forwarded (.object fields) providerModel).get name) := by
  have hlookup := lookup_filter fields (fun key => decide (key ∉ known)) name
  rw [hlookup]
  by_cases hown : name ∈ ["prompt","prompt_variables","stream_options"]
  · have hknown : name ∈ known := by
      rw [known]
      simp only [List.mem_cons,List.not_mem_nil,or_false] at hown ⊢
      tauto
    rw [decide_eq_false (not_not_intro hknown),get_forwarded_own hown]
    exact .none
  · have hforward : name ∉ ["model","prompt","prompt_variables","stream_options"] := by
      refine List.not_mem_cons_of_ne_of_not_mem ?_ hown
      rintro rfl
      exact h List.mem_cons_self
    have hknown : name ∉ known := by
      simp only [openaiFields,List.map_cons,List.map_nil,List.mem_cons,List.not_mem_nil,or_false,known] at h hown ⊢
      tauto
    rw [decide_eq_true hknown,get_forwarded hforward]
    exact rel_refl _

/-- A body comes through exactly when its fields have the forms that come through. -/
theorem buildRequest_lossless_iff {lib : JsonLib} {body : Json} {req : ChatRequest} (hparse : parseChatRequest lib body = .ok req)
    (hnorm : Normalised body) (providerModel : String) : Lossless body req providerModel ↔ RequestShape lib body := by
  obtain ⟨fields,values,rfl,hvalues,hmessages,htools,hchoice,hstop,htemperature,htopP,hmaxTokens,hstream,husage,hformat,hother⟩ :=
    parseChatRequest_ok hparse
  have hsame : Lossless (.object fields) req providerModel ↔
      Same (.object (present (openaiFields req providerModel) ++ req.other)) (forwarded (.object fields) providerModel) :=
    ⟨fun ⟨p,hp,h⟩ => by cases hp; exact h,fun h => ⟨_,rfl,h⟩⟩
  have hmore : ∀ name ∈ (openaiFields req providerModel).map Prod.fst, req.other.lookup name = none := by
    intro name hname
    have hknown : name ∈ known := by
      simp only [openaiFields,List.map_cons,List.map_nil,List.mem_cons,List.not_mem_nil,or_false,known] at hname ⊢
      tauto
    rw [hother]
    refine (lookup_filter fields (fun key => decide (key ∉ known)) name).trans ?_
    rw [decide_eq_false (not_not_intro hknown)]
    rfl
  have hmessagesRel : Option.Rel Same (some (.array (req.messages.map messageToOpenai))) ((Json.object fields).get "messages") ↔
      ∀ v ∈ values, MessageShape v := by
    rw [hvalues,rel_some_iff]
    have hmap := same_map_iff messageToOpenai MessageShape (forall₂_of_parseMessages hmessages)
      fun v hv m hm => same_message_iff hm (hnorm.content values hvalues v hv)
    rw [← hmap]
    exact ⟨fun ⟨w,hw,h⟩ => Option.some.inj hw ▸ h,fun h => ⟨_,rfl,h⟩⟩
  have htoolsRel := rel_tools_iff htools hchoice
  have hstopRel := rel_stop hstop hnorm.stop
  have hlookup : ∀ others, forwarded (.object fields) providerModel = .object others →
      ∀ name ∉ ["model","prompt","prompt_variables","stream_options"], others.lookup name = (Json.object fields).get name := by
    intro others hothers name hname
    rw [← get_forwarded hname,hothers]
    rfl
  have hown : (forwarded (.object fields) providerModel).get "stream_options" = none := get_forwarded_own (by decide)
  rw [hsame,same_present_append_iff (by simp [openaiFields]) hmore]
  simp only [openaiFields,List.forall_mem_cons]
  constructor
  · rintro ⟨others,hothers,⟨-,hm,ht,hc,htemp,htop,hmax,-,hs,hso,hf,-⟩,-⟩
    have hlookup := hlookup others hothers
    have husageLookup : others.lookup "stream_options" = none := by
      rw [← hown,hothers]
      rfl
    rw [hlookup "messages" (by decide)] at hm
    rw [hlookup "tools" (by decide)] at ht
    rw [hlookup "tool_choice" (by decide)] at hc
    rw [hlookup "temperature" (by decide),htemperature] at htemp
    rw [hlookup "top_p" (by decide),htopP] at htop
    rw [hlookup "max_tokens" (by decide),hmaxTokens] at hmax
    rw [hlookup "stream" (by decide),hstream] at hs
    rw [husageLookup,hstream,husage] at hso
    rw [hlookup "response_format" (by decide),hformat] at hf
    obtain ⟨hmaxOwn,hmaxOther⟩ := rel_maxTokens_iff.mp hmax
    obtain ⟨htoolsShape,hchoiceShape⟩ := htoolsRel.mp ⟨ht,hc⟩
    refine ⟨fun values' hvalues' => ?_,htoolsShape,hchoiceShape,rel_float_iff.mp htemp,rel_float_iff.mp htop,hmaxOwn,hmaxOther,
      rel_stream_iff.mp hs,rel_streamOptions_iff.mp hso,rel_format_iff.mp hf⟩
    cases hvalues.symm.trans hvalues'
    exact hmessagesRel.mp hm
  · intro hshape
    have hlookup := hlookup _ rfl
    obtain ⟨ht,hc⟩ := htoolsRel.mpr ⟨hshape.tools,hshape.toolChoice⟩
    refine ⟨_,rfl,⟨rel_refl _,?_,?_,?_,?_,?_,?_,?_,?_,?_,?_,by simp⟩,?_⟩
    · rw [hlookup "messages" (by decide)]
      exact hmessagesRel.mpr (hshape.messages values hvalues)
    · rw [hlookup "tools" (by decide)]
      exact ht
    · rw [hlookup "tool_choice" (by decide)]
      exact hc
    · rw [hlookup "temperature" (by decide),htemperature]
      exact rel_float_iff.mpr hshape.temperature
    · rw [hlookup "top_p" (by decide),htopP]
      exact rel_float_iff.mpr hshape.topP
    · rw [hlookup "max_tokens" (by decide),hmaxTokens]
      exact rel_maxTokens_iff.mpr ⟨hshape.maxTokens,hshape.maxCompletionTokens⟩
    · rw [hlookup "stop" (by decide)]
      exact hstopRel
    · rw [hlookup "stream" (by decide),hstream]
      exact rel_stream_iff.mpr hshape.stream
    · rw [hstream,husage]
      exact hown ▸ rel_streamOptions_iff.mpr hshape.streamOptions
    · rw [hlookup "response_format" (by decide),hformat]
      exact rel_format_iff.mpr hshape.responseFormat
    · intro name hname
      rw [hother]
      exact rel_other req hname

/-- A conversation of one message. -/
def chatBody (content : Json) : Json :=
  .object [("model",.string "fast"),("messages",.array [.object [("role",.string "user"),("content",content)]])]

/-- A library without floats. -/
def integerLib : JsonLib := ⟨fun _ => none,fun _ => none⟩

private theorem normalised_chatBody {content : Json} (h : ∀ p, content = .array [p] → textAt "type" p ≠ some "text") :
    Normalised (chatBody content) := by
  refine ⟨fun values hvalues v hv p hp => ?_,fun x hx => by cases hx⟩
  obtain rfl := Json.array.inj (Option.some.inj hvalues)
  obtain rfl := List.mem_singleton.mp hv
  exact h p (Option.some.inj hp)

theorem buildRequest_lossless_pictured :
    ∃ req, parseChatRequest integerLib (chatBody (.array [textForm "what is it?",imageForm "https://host/a.png"])) = .ok req ∧
      Lossless (chatBody (.array [textForm "what is it?",imageForm "https://host/a.png"])) req "gpt-4o" := by
  have hnorm : Normalised (chatBody (.array [textForm "what is it?",imageForm "https://host/a.png"])) :=
    normalised_chatBody fun p hp => by cases hp
  refine ⟨_,rfl,(buildRequest_lossless_iff (show parseChatRequest integerLib _ = .ok _ from rfl) hnorm "gpt-4o").mpr ?_⟩
  have hnone : ∀ {shape : Json → Prop} (x : Json), none = some x → shape x := fun x hx => by cases hx
  have hmessage : MessageShape (.object [("role",.string "user"),
      ("content",.array [textForm "what is it?",imageForm "https://host/a.png"])]) := by
    refine ⟨⟨_,rfl,.inr (.inr ⟨_,rfl,Nat.le_refl 2,?_⟩)⟩,hnone,hnone,hnone,?_⟩
    · intro p hp
      rcases List.mem_pair.mp hp with rfl | rfl
      · exact .inl ⟨_,Same.refl _⟩
      · exact .inr ⟨_,Same.refl _⟩
    · intro key hkey
      refine List.lookup_eq_none_iff.mpr fun f hf => ?_
      have hf := List.mem_map_of_mem (f := Prod.fst) hf
      have hne : key ≠ f.1 := by
        rintro rfl
        simp only [List.map_cons,List.map_nil,List.mem_cons,List.not_mem_nil,or_false] at hf hkey
        tauto
      simpa using hne
  refine ⟨fun values hvalues v hv => ?_,hnone,hnone,hnone,hnone,hnone,fun _ => rfl,hnone,fun _ => rfl,hnone⟩
  obtain rfl := Json.array.inj (Option.some.inj hvalues)
  obtain rfl := List.mem_singleton.mp hv
  exact hmessage

theorem one_image_dropped :
    ∃ req, parseChatRequest integerLib (chatBody (.array [imageForm "https://host/a.png"])) = .ok req ∧
      Normalised (chatBody (.array [imageForm "https://host/a.png"])) ∧
        ¬Lossless (chatBody (.array [imageForm "https://host/a.png"])) req "gpt-4o" := by
  refine ⟨_,rfl,normalised_chatBody fun p hp => ?_,?_⟩
  · cases hp
    decide
  · rintro ⟨p,hp,hsame⟩
    cases hp
    obtain ⟨others,hothers,hrel⟩ := same_object_iff.mp hsame
    cases hothers
    obtain ⟨messages,hmessages,hsame⟩ := rel_some_iff.mp (hrel "messages")
    cases hmessages
    obtain ⟨values,hvalues,hall⟩ := same_array_iff.mp hsame
    cases hvalues
    obtain ⟨hmessage,-⟩ := List.forall₂_cons.mp hall
    obtain ⟨kept,hkept,hfields⟩ := same_object_iff.mp hmessage
    cases hkept
    cases hfields "content"

end Body

end Dwara.Ai.OpenAi
