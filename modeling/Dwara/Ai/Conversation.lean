import Dwara.Ai.AdapterRequests

/-! What a native request asks for, read apart from the canonical request, and how much of it
the body for a provider carries. -/

namespace Dwara.Ai
open Dwara.Lib

/-- What a turn says. A tool's input is compared as its text, the keys in order. -/
inductive Block where
  | text (text : String)
  | image (mediaType data : String)
  | remoteImage
  | toolUse (id name : String) (input : List Char)
  | toolResult
  deriving DecidableEq

namespace Block

def asText : Block → Option String
  | text t => some t
  | _ => none

def isImage : Block → Bool
  | image _ _ => true
  | _ => false

def isToolUse : Block → Bool
  | toolUse _ _ _ => true
  | _ => false

/-- A turn as it is carried: its text joined in front, then its images that are not remote, then
its calls. -/
def carried (blocks : List Block) : List Block :=
  (if String.join (blocks.filterMap asText) = "" then [] else [.text (String.join (blocks.filterMap asText))]) ++
    blocks.filter isImage ++ blocks.filter isToolUse

end Block

/-- A declared tool: its name, its description and the text of its schema. -/
abbrev Tool := String × Option String × Option (List Char)

/-- What a native request asks for, whatever it is written as. -/
@[ext]
structure Conversation where
  system : String
  turns : List (String × List Block)
  tools : List Tool
  toolChoice : Option ToolChoice
  temperature : Option String
  topP : Option String
  maxTokens : Option UInt64
  stop : Option (List String)
  deriving DecidableEq

/-- A turn after those before it: one of the same role joins the last. -/
def joinTurn {ρ β : Type} [DecidableEq ρ] (joined : List (ρ × List β)) (t : ρ × List β) : List (ρ × List β) :=
  match joined.getLast? with
  | none => joined ++ [t]
  | some last => if last.1 = t.1 then joined.dropLast ++ [(last.1,last.2 ++ t.2)] else joined ++ [t]

def joinTurns {ρ β : Type} [DecidableEq ρ] (turns : List (ρ × List β)) : List (ρ × List β) := turns.foldl joinTurn []

section AnthropicReading

def anthropicBlock (part : Json) : Option Block :=
  let kind := (textAt "type" part).getD "text"
  if kind = "text" then some (.text ((textAt "text" part).getD ""))
  else if kind = "image" then
    (part.get "source").map fun source =>
      ((anthropicImage (textAt "url" source) (textAt "media_type" source) (textAt "data" source)).map fun i => Block.image i.1 i.2).getD
        .remoteImage
  else if kind = "tool_use" then do
    let id ← textAt "id" part
    let name ← textAt "name" part
    let input ← part.get "input"
    some (.toolUse id name input.print)
  else if kind = "tool_result" then some .toolResult
  else none

def anthropicBlocks : Option Json → List Block
  | some (.string s) => [.text s]
  | some (.array parts) => parts.filterMap anthropicBlock
  | _ => []

def anthropicTurn (msg : Json) : String × List Block := (roleOf msg,anthropicBlocks (msg.get "content"))

def toolRead (schema : Json → Option (List Char)) (schemaKey : String) (t : Json) : Option Tool :=
  (textAt "name" t).map fun name => (name,textAt "description" t,(t.get schemaKey).bind schema)

def anthropicChoice (v : Json) : Option ToolChoice :=
  if textAt "type" v = some "none" then some .none else parseAnthropicToolChoice v

def anthropicConversation (lib : JsonLib) (body : Json) : Conversation where
  system := ((body.get "system").map anthropicSystemText).getD ""
  turns := (((body.get "messages").bind Json.asArray).getD []).map anthropicTurn
  tools := (((body.get "tools").bind Json.asArray).getD []).filterMap (toolRead (some ·.print) "input_schema")
  toolChoice := (body.get "tool_choice").bind anthropicChoice
  temperature := (body.get "temperature").bind lib.asF64
  topP := (body.get "top_p").bind lib.asF64
  maxTokens := (body.get "max_tokens").bind Json.asU64
  stop := (body.get "stop_sequences").bind strings

/-- What the body for the provider carries: each turn with its text in front, a schema for every
tool, and a limit of its own where the client has none. A choice goes with the tools. -/
def carriedAnthropic (c : Conversation) : Conversation :=
  { c with
    turns := joinTurns (c.turns.map fun t => (t.1,Block.carried t.2))
    tools := c.tools.map fun t => (t.1,t.2.1,some (t.2.2.getD (typed "object" []).print))
    toolChoice := if c.tools = [] then none else c.toolChoice
    maxTokens := some (c.maxTokens.getD defaultMaxTokens) }

end AnthropicReading

section GeminiReading

def inlineBlock (inline : Json) : Block :=
  match textAt "data" inline with
  | some data => .image ((textAtEither "mimeType" "mime_type" inline).getD "image/png") data
  | none => .remoteImage

def fileBlock (file : Json) : Block :=
  match (textAtEither "fileUri" "file_uri" file).bind splitDataUri with
  | some image => .image image.1 image.2
  | none => .remoteImage

/-- The text or the data of a part. -/
def geminiData (part : Json) : List Block :=
  match textAt "text" part with
  | some text => [.text text]
  | none =>
    (((getEither "inlineData" "inline_data" part).map inlineBlock).or ((getEither "fileData" "file_data" part).map fileBlock)).toList

/-- The call of a part: its arguments are an object, an empty one if they are not given. -/
def geminiCall (part : Json) : List Block :=
  ((part.get "functionCall").map fun fc =>
    Block.toolUse "" ((textAt "name" fc).getD "unknown") (Json.object (((fc.get "args").bind Json.asObject).getD [])).print).toList

def geminiResult (part : Json) : List Block := ((part.get "functionResponse").map fun _ => Block.toolResult).toList

def geminiBlocks (part : Json) : List Block := geminiData part ++ geminiCall part ++ geminiResult part

def geminiTurn (msg : Json) : String × List Block :=
  ((textAt "role" msg).getD "user",(partsOf (msg.get "parts")).flatMap geminiBlocks)

def geminiTools (tool : Json) : List Tool :=
  (((tool.get "functionDeclarations").bind Json.asArray).getD []).filterMap
    (toolRead (fun schema => (geminiParameters schema).map (·.print)) "parameters")

def allowedNames (config : Json) : List String :=
  ((getEither "allowedFunctionNames" "allowed_function_names" config).bind strings).getD []

/-- A choice is nested as the API has it, or flat; one allowed name is that tool. -/
def geminiChoice (config : Json) : Option ToolChoice :=
  let inner := (config.get "functionCallingConfig").getD config
  match (textAt "mode" inner).bind parseGeminiMode, allowedNames inner with
  | some .any, name :: _ => some (.tool name)
  | mode, _ => mode

def geminiConversation (lib : JsonLib) (body : Json) : Conversation where
  system := ((body.get "systemInstruction").map geminiSystemText).getD ""
  turns := (((body.get "contents").bind Json.asArray).getD []).map geminiTurn
  tools := (((body.get "tools").bind Json.asArray).getD []).flatMap geminiTools
  toolChoice := (body.get "toolConfig").bind geminiChoice
  temperature := ((body.get "generationConfig").bind (·.get "temperature")).bind lib.asF64
  topP := ((body.get "generationConfig").bind (·.get "topP")).bind lib.asF64
  maxTokens := ((body.get "generationConfig").bind (·.get "maxOutputTokens")).bind Json.asU64
  stop := ((body.get "generationConfig").bind (·.get "stopSequences")).bind strings

/-- What the body for the provider carries. -/
def carriedGemini (c : Conversation) : Conversation :=
  { c with
    turns := c.turns.map fun t => (t.1,Block.carried t.2)
    toolChoice := if c.tools = [] then none else c.toolChoice }

end GeminiReading

section Conditions

/-- The JSON library reads a value's own text as that value, but for the order of keys. -/
def Rereads (lib : JsonLib) (v : Json) : Prop :=
  ∃ w, lib.parse v.toText = some w ∧ w.print = v.print ∧ w.asObject.isSome = v.asObject.isSome

/-- A float that was read is read from its own text again. -/
def JsonLib.KeepsFloats (lib : JsonLib) : Prop := ∀ v t, lib.asF64 v = some t → lib.asF64 (.float t) = some t

/-- The inputs of the calls of a turn. -/
def partInputs (content : Option Json) : List Json := (partsOf content).filterMap (·.get "input")

/-- No call is answered, and calls are the assistant's. -/
def PlainTurn (t : String × List Block) : Prop := .toolResult ∉ t.2 ∧ ∀ b ∈ t.2, b.isToolUse = true → t.1 = "assistant"

/-- An Anthropic body whose turns answer no call, and whose tools are not switched off. -/
structure AnthropicPlain (lib : JsonLib) (body : Json) : Prop where
  some_turn : (anthropicConversation lib body).turns ≠ []
  turns : ∀ t ∈ (anthropicConversation lib body).turns, PlainTurn t
  choice : (anthropicConversation lib body).toolChoice ≠ some .none
  reads : ∀ msg ∈ ((body.get "messages").bind Json.asArray).getD [], ∀ input ∈ partInputs (msg.get "content"), Rereads lib input

/-- The arguments a call has, as the parser writes them. -/
def callArgs (parts : Option Json) : List Json :=
  (partsOf parts).filterMap fun part => (part.get "functionCall").map fun fc => (fc.get "args").getD .null

/-- No call is answered, calls are the model's and images the user's. -/
def PlainContent (t : String × List Block) : Prop :=
  t.1 ≠ "function" ∧ .toolResult ∉ t.2 ∧ (∀ b ∈ t.2, b.isToolUse = true → t.1 = "model") ∧ ∀ b ∈ t.2, b.isImage = true → t.1 ≠ "model"

/-- A Gemini body whose turns answer no call, with one list of tools. -/
structure GeminiPlain (lib : JsonLib) (body : Json) : Prop where
  some_turn : (geminiConversation lib body).turns ≠ []
  turns : ∀ t ∈ (geminiConversation lib body).turns, PlainContent t
  tools : (((body.get "tools").bind Json.asArray).getD []).length ≤ 1
  choice : ∀ config, body.get "toolConfig" = some config → config.get "functionCallingConfig" = none ∧ allowedNames config = []
  reads : ∀ msg ∈ ((body.get "contents").bind Json.asArray).getD [], ∀ args ∈ callArgs (msg.get "parts"), Rereads lib args

end Conditions

end Dwara.Ai
