import Dwara.Ai.Chat
import Dwara.Lib.Text

/-! The readers of native requests: an Anthropic or a Gemini body into the canonical request. -/

namespace Dwara.Ai
open Dwara.Lib

/-- What the readers need of the JSON library: a number as the text of its float, and the value
a text stands for. -/
structure JsonLib where
  asF64 : Json → Option String
  parse : String → Option Json

def strings (v : Json) : Option (List String) := v.asArray.map (·.filterMap Json.asStr)

def textAt (key : String) (v : Json) : Option String := (v.get key).bind Json.asStr

/-- The texts of a list of parts, those without one left out. -/
def partTexts (parts : List Json) : List String := parts.filterMap (textAt "text")

def toolSpec (schemaKey : String) (t : Json) : Option ToolSpec :=
  (textAt "name" t).map fun name => ⟨name,textAt "description" t,t.get schemaKey⟩

section Anthropic

def parseAnthropicPart (part : Json) : List ContentPart :=
  let kind := (textAt "type" part).getD "text"
  if kind = "text" then [.text ((textAt "text" part).getD "")]
  else if kind = "image" then
    match part.get "source" with
    | some source => [.image (textAt "url" source) (textAt "media_type" source) (textAt "data" source)]
    | none => []
  else if kind = "tool_result" then
    match part.get "content" with
    | some (.string s) => [.text s]
    | some (.array parts) => [.text (String.join (partTexts parts))]
    | some _ => [.text ""]
    | none => []
  else []

def parseAnthropicContent : Option Json → Except String (List ContentPart)
  | none | some .null => .ok []
  | some (.string s) => .ok [.text s]
  | some (.array parts) => .ok (parts.flatMap parseAnthropicPart)
  | some _ => .error "content must be a string or array"

def parseAnthropicToolCall (part : Json) : Option ToolCall :=
  if textAt "type" part = some "tool_use" then do
    let id ← textAt "id" part
    let name ← textAt "name" part
    let input ← part.get "input"
    some ⟨id,name,input.toText⟩
  else none

def parseAnthropicToolCalls : Option Json → List ToolCall
  | some (.array parts) => parts.filterMap parseAnthropicToolCall
  | _ => []

def parseAnthropicToolChoice (v : Json) : Option ToolChoice :=
  match textAt "type" v with
  | some "auto" => some .auto
  | some "any" => some .any
  | some "tool" => (textAt "name" v).map .tool
  | _ => none

def anthropicSystemText : Json → String
  | .string s => s
  | .array parts => String.intercalate "\n" (partTexts parts)
  | _ => ""

/-- The system text as a message of its own, if there is one. -/
def systemTurn (text : String) : List ChatMessage := if text = "" then [] else [.ofText .system text]

def parseAnthropicMessage (msg : Json) : Except String ChatMessage := do
  let role ← match textAt "role" msg with
    | none => .error "message missing 'role'"
    | some "user" => .ok ChatRole.user
    | some "assistant" => .ok ChatRole.assistant
    | some other => .error ("unknown role '" ++ other ++ "'")
  let content ← parseAnthropicContent (msg.get "content")
  .ok ⟨role,content,none,parseAnthropicToolCalls (msg.get "content"),none⟩

def anthropicKnown : List String :=
  ["model","messages","system","max_tokens","temperature","top_p","stop_sequences","stream","tools","tool_choice"]

/-- The request of a body with its fields `obj`, its model and its messages. -/
def anthropicRequest (lib : JsonLib) (body : Json) (obj : List (String × Json)) (model : String) (messages : List ChatMessage) : ChatRequest where
  model := model
  messages := messages
  tools := (((body.get "tools").bind Json.asArray).map (·.filterMap (toolSpec "input_schema"))).getD []
  toolChoice := (body.get "tool_choice").bind parseAnthropicToolChoice
  temperature := (body.get "temperature").bind lib.asF64
  topP := (body.get "top_p").bind lib.asF64
  maxTokens := (body.get "max_tokens").bind Json.asU64
  stop := (body.get "stop_sequences").bind strings
  stream := ((body.get "stream").bind Json.asBool).getD false
  streamOptionsIncludeUsage := false
  responseFormat := none
  prompt := none
  promptVariables := []
  other := obj.filter (·.1 ∉ anthropicKnown)

def parseAnthropicRequest (lib : JsonLib) (body : Json) : Except String ChatRequest := do
  let obj ← body.asObject.elim (.error "request body must be a JSON object") .ok
  let model ← (textAt "model" body).elim (.error "missing 'model' field") .ok
  let system := systemTurn (((body.get "system").map anthropicSystemText).getD "")
  let raw ← ((body.get "messages").bind Json.asArray).elim (.error "missing 'messages' field") .ok
  let turns ← raw.mapM parseAnthropicMessage
  if system ++ turns = [] then .error "messages must be non-empty"
  else .ok (anthropicRequest lib body obj model (system ++ turns))

end Anthropic

section Gemini

/-- The first of two spellings of a key. -/
def getEither (key key' : String) (v : Json) : Option Json := (v.get key).or (v.get key')

def textAtEither (key key' : String) (v : Json) : Option String := (getEither key key' v).bind Json.asStr

def parseGeminiPart (part : Json) : List ContentPart :=
  match textAt "text" part with
  | some text => [.text text]
  | none =>
    match getEither "inlineData" "inline_data" part with
    | some inline => [.image none (textAtEither "mimeType" "mime_type" inline) (textAt "data" inline)]
    | none =>
      match getEither "fileData" "file_data" part with
      | some file => [.image (textAtEither "fileUri" "file_uri" file) (textAtEither "mimeType" "mime_type" file) none]
      | none => []

def partsOf : Option Json → List Json
  | some (.array parts) => parts
  | _ => []

def parseGeminiParts (parts : Option Json) : List ContentPart := (partsOf parts).flatMap parseGeminiPart

def parseGeminiFunctionCall (place : ℕ) (part : Json) : Option ToolCall :=
  (part.get "functionCall").map fun fc =>
    let name := (textAt "name" fc).getD "unknown"
    ⟨"call-" ++ toString place ++ "-" ++ name,name,((fc.get "args").getD .null).toText⟩

def parseGeminiFunctionCalls (parts : Option Json) : List ToolCall :=
  (partsOf parts).zipIdx.filterMap fun p => parseGeminiFunctionCall p.2 p.1

def parseGeminiContent (msg : Json) : Except String ChatMessage := do
  let role ← match (textAt "role" msg).getD "user" with
    | "user" => .ok ChatRole.user
    | "model" => .ok ChatRole.assistant
    | "function" => .ok ChatRole.tool
    | other => .error ("unknown role '" ++ other ++ "'")
  .ok ⟨role,parseGeminiParts (msg.get "parts"),none,parseGeminiFunctionCalls (msg.get "parts"),none⟩

def geminiSystemText (sys : Json) : String :=
  (((sys.get "parts").bind Json.asArray).map fun parts => String.intercalate "\n" (partTexts parts)).getD ""

def declarations (tool : Json) : List ToolSpec :=
  (((tool.get "functionDeclarations").bind Json.asArray).map (·.filterMap (toolSpec "parameters"))).getD []

def parseGeminiMode : String → Option ToolChoice
  | "AUTO" => some .auto
  | "NONE" => some .none
  | "ANY" => some .any
  | _ => none

def geminiKnown : List String := ["contents","systemInstruction","tools","toolConfig","generationConfig"]

def geminiRequest (lib : JsonLib) (body : Json) (obj : List (String × Json)) (messages : List ChatMessage) : ChatRequest where
  model := ""
  messages := messages
  tools := ((((body.get "tools").bind Json.asArray).bind List.head?).map declarations).getD []
  toolChoice := ((body.get "toolConfig").bind (textAt "mode")).bind parseGeminiMode
  temperature := ((body.get "generationConfig").bind (·.get "temperature")).bind lib.asF64
  topP := ((body.get "generationConfig").bind (·.get "topP")).bind lib.asF64
  maxTokens := ((body.get "generationConfig").bind (·.get "maxOutputTokens")).bind Json.asU64
  stop := ((body.get "generationConfig").bind (·.get "stopSequences")).bind strings
  stream := false
  streamOptionsIncludeUsage := false
  responseFormat := none
  prompt := none
  promptVariables := []
  other := obj.filter (·.1 ∉ geminiKnown)

def parseGeminiRequest (lib : JsonLib) (body : Json) : Except String ChatRequest := do
  let obj ← body.asObject.elim (.error "request body must be a JSON object") .ok
  let system := systemTurn (((body.get "systemInstruction").map geminiSystemText).getD "")
  let contents ← ((body.get "contents").bind Json.asArray).elim (.error "missing 'contents' field") .ok
  let turns ← contents.mapM parseGeminiContent
  if system ++ turns = [] then .error "contents must be non-empty"
  else .ok (geminiRequest lib body obj (system ++ turns))

end Gemini

end Dwara.Ai
