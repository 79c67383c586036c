import Dwara.Ai.Ingress

/-! The requests of the adapters: the canonical request into an Anthropic or a Gemini body. -/

namespace Dwara.Ai
open Dwara.Lib

section Anthropic

def splitDataUri (url : String) : Option (String × String) := do
  let rest ← url.toList.dropPrefix? "data:".toList
  let (mime,payload) ← Text.splitOnceAt [','] rest
  let mime ← mime.dropSuffix? ";base64".toList
  if mime = [] ∨ payload = [] then none else some (String.ofList mime,String.ofList payload)

structure ProviderRequest where
  method : String
  path : String
  headers : List (String × String)
  body : Json

def strArray (texts : List String) : Json := .array (texts.map .string)

def textBlock (text : String) : Json := .object [("type",.string "text"),("text",.string text)]

/-- The media type and the base64 data of an image; a remote one has none. -/
def anthropicImage (url mediaType dataB64 : Option String) : Option (String × String) :=
  let decomposed := url.bind splitDataUri
  (dataB64.or (decomposed.map (·.2))).map fun data => ((mediaType.or (decomposed.map (·.1))).getD "image/png",data)

def imageBlock (image : String × String) : Json :=
  .object [("type",.string "image"),("source",.object [("type",.string "base64"),("media_type",.string image.1),("data",.string image.2)])]

def toolUseBlock (lib : JsonLib) (tc : ToolCall) : Json :=
  .object [("type",.string "tool_use"),("id",.string tc.id),("name",.string tc.name),("input",(lib.parse tc.arguments).getD (.object []))]

def ContentPart.anthropicImage : ContentPart → Option (String × String)
  | text _ => none
  | image url mediaType dataB64 => Ai.anthropicImage url mediaType dataB64

/-- The text in front if there is one, then the images, then the calls of an assistant. -/
def messageContentBlocks (lib : JsonLib) (m : ChatMessage) : List Json :=
  (if m.textContent = "" then [] else [textBlock m.textContent]) ++
    (m.content.filterMap ContentPart.anthropicImage).map imageBlock ++
    (if m.role = .assistant then m.toolCalls.map (toolUseBlock lib) else [])

def turn (role : String) (content : List Json) : Json := .object [("role",.string role),("content",.array content)]

def anthropicMessage (lib : JsonLib) (m : ChatMessage) : Except AiError Json :=
  match m.role with
  | .tool =>
    match m.toolCallId with
    | none => .error (.invalidRequest "a tool message carries no tool_call_id (the id that names the call it answers)")
    | some id => .ok (turn "user" [.object [("type",.string "tool_result"),("tool_use_id",.string id),
        ("content",if m.textContent = "" then .null else .string m.textContent)]])
  | .assistant => .ok (turn "assistant" (messageContentBlocks lib m))
  | _ => .ok (turn "user" (messageContentBlocks lib m))

def roleOf (m : Json) : String := (textAt "role" m).getD ""

/-- A message after those before it: one of the same role joins the last. -/
def mergeTurn (merged : List Json) (m : Json) : List Json :=
  match merged.getLast? with
  | none => merged ++ [m]
  | some last =>
    if textAt "role" last = some (roleOf m) then
      let existing := ((last.get "content").bind Json.asArray).getD []
      let combined := match (m.get "content").getD .null with
        | .array arr => existing ++ arr
        | other => existing ++ [other]
      merged.dropLast ++ [last.insert "content" (.array combined)]
    else merged ++ [m]

def mergeConsecutiveTurns (messages : List Json) : List Json := messages.foldl mergeTurn []

def systemTexts (messages : List ChatMessage) : List String :=
  ((messages.filter (·.role = .system)).map (·.textContent)).filter (· ≠ "")

def joinedSystem (messages : List ChatMessage) : Option String :=
  if systemTexts messages = [] then none else some (String.intercalate "\n\n" (systemTexts messages))

def typed (kind : String) (more : List (String × Json)) : Json := .object (("type",.string kind) :: more)

def anthropicTool (t : ToolSpec) : Json :=
  .object ([("name",.string t.name)] ++ field "description" (t.description.map .string) ++
    [("input_schema",t.parameters.getD (typed "object" []))])

def anthropicToolChoice : ToolChoice → Option Json
  | .auto => some (typed "auto" [])
  | .none => none
  | .any => some (typed "any" [])
  | .tool name => some (typed "tool" [("name",.string name)])

/-- The tools and the choice of a request. No choice is the tools left out. -/
def anthropicTools (req : ChatRequest) : Option (List Json) × Option Json :=
  if req.tools.isEmpty then (none,none)
  else if req.toolChoice = some .none then (none,none)
  else (some (req.tools.map anthropicTool),req.toolChoice.bind anthropicToolChoice)

/-- A format is a tool the model is made to call. -/
def applyAnthropicResponseFormat (tools : Option (List Json) × Option Json) : Option ResponseFormat → Option (List Json) × Option Json
  | none | some .text => tools
  | some .jsonObject =>
    (some (tools.1.getD [] ++ [.object [("name",.string "structured_output"),
      ("description",.string "Output the result as a JSON object."),
      ("input_schema",typed "object" [("properties",.object []),("additionalProperties",.bool true)])]]),some (typed "any" []))
  | some (.jsonSchema name schema) =>
    (some (tools.1.getD [] ++ [.object [("name",.string name),
      ("description",.string "Output the result conforming to the provided JSON schema."),("input_schema",schema)]]),
      some (typed "any" []))

def defaultMaxTokens : UInt64 := 4096

def noMessages : AiError := .invalidRequest "the conversation has no non-system messages"

def anthropicBody (req : ChatRequest) (providerModel : String) (messages : List Json) : Json :=
  let tools := applyAnthropicResponseFormat (anthropicTools req) req.responseFormat
  .object ([("model",.string providerModel)] ++ field "system" ((joinedSystem req.messages).map .string) ++
    [("messages",.array (mergeConsecutiveTurns messages)),("max_tokens",count (req.maxTokens.getD defaultMaxTokens))] ++
    field "tools" (tools.1.map .array) ++ field "tool_choice" tools.2 ++
    field "temperature" (req.temperature.map .float) ++ field "top_p" (req.topP.map .float) ++
    field "stop_sequences" (req.stop.map strArray) ++ field "stream" (if req.stream then some (.bool true) else none))

def buildAnthropicRequest (lib : JsonLib) (req : ChatRequest) (providerModel : String) : Except AiError ProviderRequest := do
  let messages ← (req.messages.filter (·.role ≠ .system)).mapM (anthropicMessage lib)
  if messages.isEmpty then .error noMessages
  else .ok ⟨"POST","/v1/messages",[("content-type","application/json"),("anthropic-version","2023-06-01")],
    anthropicBody req providerModel messages⟩

end Anthropic

section Gemini

def ContentPart.geminiImage : ContentPart → Option (String × String)
  | text _ => none
  | image url mediaType dataB64 =>
    match dataB64 with
    | some data => some (mediaType.getD "image/png",data)
    | none => url.bind splitDataUri

def textPart (text : String) : Json := .object [("text",.string text)]

def inlinePart (image : String × String) : Json :=
  .object [("inline_data",.object [("mime_type",.string image.1),("data",.string image.2)])]

def textParts (m : ChatMessage) : List Json := if m.textContent = "" then [] else [textPart m.textContent]

def userParts (m : ChatMessage) : List Json := textParts m ++ (m.content.filterMap ContentPart.geminiImage).map inlinePart

/-- The arguments as an object; what is none is an empty one. -/
def argumentsObject (lib : JsonLib) (tc : ToolCall) : Json :=
  .object (((lib.parse tc.arguments).bind Json.asObject).getD [])

def functionCallPart (lib : JsonLib) (tc : ToolCall) : Json :=
  .object [("functionCall",.object [("name",.string tc.name),("args",argumentsObject lib tc)])]

def modelParts (lib : JsonLib) (m : ChatMessage) : List Json := textParts m ++ m.toolCalls.map (functionCallPart lib)

/-- The name of the call a tool message answers, the last of its id; the id without one. -/
def toolNameFor (history : List ChatMessage) (m : ChatMessage) : String :=
  let id := m.toolCallId.getD ""
  let calls := (history.reverse.filter (·.role = .assistant)).flatMap (·.toolCalls)
  ((calls.find? (·.id = id)).map (·.name)).getD id

def functionResponse (lib : JsonLib) (text : String) : Json :=
  match lib.parse text with
  | some (.object fields) => .object fields
  | some other => .object [("result",other)]
  | none => .object [("result",.string text)]

def content (role : String) (parts : List Json) : Json := .object [("role",.string role),("parts",.array parts)]

def geminiContent (lib : JsonLib) (history : List ChatMessage) (m : ChatMessage) : Json :=
  match m.role with
  | .assistant => content "model" (modelParts lib m)
  | .tool => content "user" [.object [("functionResponse",.object [("name",.string (toolNameFor history m)),
      ("response",functionResponse lib m.textContent)])]]
  | _ => content "user" (userParts m)

/-- The parameters of a tool, without the key Gemini rejects. -/
def geminiParameters (parameters : Json) : Option Json :=
  parameters.asObject.map fun fields => .object (fields.filter (·.1 ≠ "$schema"))

def declaration (t : ToolSpec) : Json :=
  .object ([("name",.string t.name)] ++ field "description" (t.description.map .string) ++
    field "parameters" (t.parameters.bind geminiParameters))

def geminiToolConfig : ToolChoice → Json
  | .auto => .object [("mode",.string "AUTO")]
  | .none => .object [("mode",.string "NONE")]
  | .any => .object [("mode",.string "ANY")]
  | .tool name => .object [("mode",.string "ANY"),("allowed_function_names",strArray [name])]

def geminiResponseFormat : Option ResponseFormat → List (String × Json)
  | none | some .text => []
  | some .jsonObject => [("responseMimeType",.string "application/json")]
  | some (.jsonSchema _ schema) => [("responseMimeType",.string "application/json"),("responseSchema",schema)]

def generation (req : ChatRequest) : List (String × Json) :=
  field "temperature" (req.temperature.map .float) ++ field "topP" (req.topP.map .float) ++
    field "maxOutputTokens" (req.maxTokens.map count) ++ field "stopSequences" (req.stop.map strArray) ++
    geminiResponseFormat req.responseFormat

def unlessEmpty (fields : List (String × Json)) : Option Json := if fields.isEmpty then none else some (.object fields)

def geminiBody (req : ChatRequest) (contents : List Json) : Json :=
  let config := if req.tools.isEmpty then none else req.toolChoice.map geminiToolConfig
  .object (field "systemInstruction" ((joinedSystem req.messages).map fun text => .object [("parts",.array [textPart text])]) ++
    [("contents",.array contents)] ++
    field "tools" (if req.tools.isEmpty then none else some (.array [.object [("functionDeclarations",.array (req.tools.map declaration))]])) ++
    field "toolConfig" config ++ field "generationConfig" (unlessEmpty (generation req)))

def buildGeminiRequest (lib : JsonLib) (req : ChatRequest) (providerModel : String) : Except AiError ProviderRequest :=
  let contents := (req.messages.filter (·.role ≠ .system)).map (geminiContent lib req.messages)
  let call := if req.stream then ":streamGenerateContent?alt=sse" else ":generateContent"
  if contents.isEmpty then .error noMessages
  else .ok ⟨"POST","/v1beta/models/" ++ providerModel ++ call,[("content-type","application/json")],geminiBody req contents⟩

end Gemini

end Dwara.Ai
