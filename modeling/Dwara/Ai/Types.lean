import Dwara.Ai.Usage
import Dwara.Lib.Json

/-! Canonical stream events, and their shape for an OpenAI client. -/

namespace Dwara.Ai
open Dwara.Lib

inductive ChatRole where
  | system
  | user
  | assistant
  | tool
  deriving DecidableEq, Repr

def ChatRole.asStr : ChatRole → String
  | system => "system"
  | user => "user"
  | assistant => "assistant"
  | tool => "tool"

inductive FinishReason where
  | stop
  | length
  | toolCalls
  | contentFilter
  | other (reason : String)
  deriving DecidableEq, Repr

/-- A piece of a tool call; the pieces of its arguments are concatenated in order. -/
structure ToolCallDelta where
  index : UInt64
  id : Option String
  name : Option String
  arguments : String
  deriving DecidableEq, Repr

structure StreamDelta where
  index : UInt64
  role : Option ChatRole
  content : Option String
  toolCalls : List ToolCallDelta
  finishReason : Option FinishReason
  deriving DecidableEq, Repr

inductive StreamEvent where
  | delta (d : StreamDelta)
  | usage (u : Usage)
  | done
  deriving DecidableEq, Repr

inductive AiError where
  | invalidRequest (message : String)
  | translation (message : String)
  | provider (status : ℕ) (message : String) (errorType code : Option String)
  deriving DecidableEq, Repr

/-- The part of a provider's dialect a stream needs. -/
structure ProviderAdapter where
  streamDoneSentinel : Option String
  parseStreamEvent : Json → Except AiError (List StreamEvent)

def count (n : UInt64) : Json := .int n.toNat

def finishReasonToOpenai : FinishReason → Json
  | .stop => .string "stop"
  | .length => .string "length"
  | .toolCalls => .string "tool_calls"
  | .contentFilter => .string "content_filter"
  | .other _ => .string "stop"

/-- A field that is only there with a value. -/
def field (name : String) (value : Option Json) : List (String × Json) := (value.map fun v => (name,v)).toList

def ToolCallDelta.toOpenai (tc : ToolCallDelta) : Json :=
  .object ([("index",count tc.index)] ++ field "id" (tc.id.map .string) ++
    [("function",.object (field "name" (tc.name.map .string) ++ [("arguments",.string tc.arguments)]))])

def StreamDelta.toOpenai (d : StreamDelta) : Json :=
  .object [("index",count d.index),
    ("delta",.object (field "role" (d.role.map fun r => .string r.asStr) ++ field "content" (d.content.map .string) ++
      field "tool_calls" (if d.toolCalls = [] then none else some (.array (d.toolCalls.map ToolCallDelta.toOpenai))))),
    ("finish_reason",(d.finishReason.map finishReasonToOpenai).getD .null)]

def Usage.toOpenai (u : Usage) : Json :=
  .object ([("prompt_tokens",count (u.promptTokens.getD 0)),("completion_tokens",count (u.completionTokens.getD 0)),
    ("total_tokens",count (u.totalTokens.getD 0))] ++
    field "prompt_tokens_details" (u.cachedTokens.map fun cached => .object [("cached_tokens",count cached)]))

/-- What every chunk of one stream carries. -/
structure ChunkStamp where
  id : String
  modelAlias : String
  created : UInt64
  deriving DecidableEq, Repr

def ChunkStamp.chunk (stamp : ChunkStamp) (choices : List Json) (more : List (String × Json)) : Json :=
  .object ([("id",.string stamp.id),("object",.string "chat.completion.chunk"),("created",count stamp.created),
    ("model",.string stamp.modelAlias),("choices",.array choices)] ++ more)

def streamEventToOpenaiChunk (stamp : ChunkStamp) : StreamEvent → Json
  | .delta d => stamp.chunk [d.toOpenai] []
  | .usage u => stamp.chunk [] [("usage",u.toOpenai)]
  | .done => stamp.chunk [.object [("index",.int 0),("delta",.object []),("finish_reason",.string "stop")]] []

def errorBody (message errorType : String) (code : Option String) (requestId : String) : Json :=
  .object [("error",.object ([("message",.string message),("type",.string errorType)] ++ field "code" (code.map .string) ++
    [("request_id",.string requestId)]))]

end Dwara.Ai

/-! The OpenAI dialect of stream chunks. -/

namespace Dwara.Ai.OpenAi
open Dwara.Lib

def parseFinishReason (v : Option Json) : FinishReason :=
  match v.bind Json.asStr with
  | none => .stop
  | some reason =>
    if reason = "stop" then .stop
    else if reason = "length" then .length
    else if reason = "tool_calls" ∨ reason = "function_call" then .toolCalls
    else if reason = "content_filter" then .contentFilter
    else .other reason

def parseUsage (v : Json) : Usage where
  promptTokens := (v.get "prompt_tokens").bind Json.asU64
  completionTokens := (v.get "completion_tokens").bind Json.asU64
  totalTokens := (v.get "total_tokens").bind Json.asU64
  cachedTokens := ((v.get "prompt_tokens_details").bind (·.get "cached_tokens")).bind Json.asU64

def parseToolCallDelta (tc : Json) : ToolCallDelta where
  index := ((tc.get "index").bind Json.asU64).getD 0
  id := (tc.get "id").bind Json.asStr
  name := ((tc.get "function").bind (·.get "name")).bind Json.asStr
  arguments := (((tc.get "function").bind (·.get "arguments")).bind Json.asStr).getD ""

def parseStreamChoice (c : Json) : StreamDelta where
  index := ((c.get "index").bind Json.asU64).getD 0
  role := if ((c.get "delta").bind (·.get "role")).bind Json.asStr = some "assistant" then some .assistant else none
  content := ((c.get "delta").bind (·.get "content")).bind Json.asStr
  toolCalls := ((((c.get "delta").bind (·.get "tool_calls")).bind Json.asArray).getD []).map parseToolCallDelta
  finishReason := ((c.get "finish_reason").filter fun v => !v.isNull).map fun v => parseFinishReason (some v)

def parseStreamEvent (data : Json) : Except AiError (List StreamEvent) :=
  match data.asObject with
  | none => .error (.translation "openai stream chunk is not a JSON object")
  | some _ =>
    .ok ((((data.get "choices").bind Json.asArray).getD []).map (fun c => .delta (parseStreamChoice c)) ++
      (((data.get "usage").filter fun u => !u.isNull).map fun u => StreamEvent.usage (parseUsage u)).toList)

def adapter : ProviderAdapter := ⟨some "[DONE]",parseStreamEvent⟩

end Dwara.Ai.OpenAi
