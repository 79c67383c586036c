import Dwara.Ai.Types
import Dwara.Lib.Text

/-! The canonical chat request: what every dialect is read into and written from. -/

namespace Dwara.Ai
open Dwara.Lib

inductive ContentPart where
  | text (text : String)
  | image (url mediaType dataB64 : Option String)
  deriving DecidableEq, Repr

def ContentPart.asText : ContentPart → Option String
  | text t => some t
  | image _ _ _ => none

/-- A call of a tool; its arguments are JSON text. -/
structure ToolCall where
  id : String
  name : String
  arguments : String
  deriving DecidableEq, Repr

structure ChatMessage where
  role : ChatRole
  content : List ContentPart
  name : Option String
  toolCalls : List ToolCall
  toolCallId : Option String
  deriving DecidableEq, Repr

namespace ChatMessage

def ofText (role : ChatRole) (text : String) : ChatMessage := ⟨role,[.text text],none,[],none⟩

/-- Everything of a message but what it says. -/
def frame (m : ChatMessage) : ChatMessage := { m with content := [] }

def images (m : ChatMessage) : List ContentPart := m.content.filter (·.asText.isNone)

def textContent (m : ChatMessage) : String := String.join (m.content.filterMap ContentPart.asText)

end ChatMessage

structure ToolSpec where
  name : String
  description : Option String
  parameters : Option Json

inductive ToolChoice where
  | auto
  | none
  | any
  | tool (name : String)
  deriving DecidableEq, Repr

inductive ResponseFormat where
  | text
  | jsonObject
  | jsonSchema (name : String) (schema : Json)

/-- A request of a client; a number that is no integer is kept as its text. -/
structure ChatRequest where
  model : String
  messages : List ChatMessage
  tools : List ToolSpec
  toolChoice : Option ToolChoice
  temperature : Option String
  topP : Option String
  maxTokens : Option UInt64
  stop : Option (List String)
  stream : Bool
  streamOptionsIncludeUsage : Bool
  responseFormat : Option ResponseFormat
  prompt : Option String
  promptVariables : List (String × String)
  other : List (String × Json)

namespace ChatRequest

/-- The text of all messages, a line break between two. -/
def promptText (r : ChatRequest) : String := String.intercalate "\n" (r.messages.map (·.textContent))

/-- The texts of the messages replaced by a redacted prompt: the first user message with a
text is that text alone from then on. -/
def redactMessages (redacted : String) : Bool → List ChatMessage → List ChatMessage
  | _, [] => []
  | replaced, m :: ms =>
    if replaced = false ∧ m.role = .user ∧ m.content.any (·.asText.isSome) then
      { m with content := [.text redacted] } :: redactMessages redacted true ms
    else
      { m with content := m.content.map fun p => if p.asText.isSome then .text redacted else p } :: redactMessages redacted replaced ms

/-- Where a redacted prompt goes. -/
def promptIndex (messages : List ChatMessage) : Option ℕ :=
  messages.findIdx? fun m => m.role = .user && m.content.any (·.asText.isSome)

theorem getElem?_redactMessages (redacted : String) (replaced : Bool) (ms : List ChatMessage) (i : ℕ) :
    (redactMessages redacted replaced ms)[i]? = ms[i]?.map fun m =>
      if replaced = false ∧ promptIndex ms = some i then { m with content := [.text redacted] }
      else { m with content := m.content.map fun p => if p.asText.isSome then .text redacted else p } := by
  induction ms generalizing replaced i with
  | nil => rfl
  | cons m ms ih =>
    rw [redactMessages,promptIndex,List.findIdx?_cons,← promptIndex]
    by_cases hm : m.role = .user ∧ m.content.any (·.asText.isSome)
    · have hfirst : (decide (m.role = .user) && m.content.any (·.asText.isSome)) = true := by
        rw [Bool.and_eq_true,decide_eq_true_eq]
        exact hm
      simp only [hfirst,if_true]
      cases replaced with
      | false =>
        rw [if_pos ⟨rfl,hm⟩]
        cases i with
        | zero => simp
        | succ i =>
          rw [List.getElem?_cons_succ,List.getElem?_cons_succ,ih]
          simp
      | true =>
        rw [if_neg (by simp)]
        cases i with
        | zero => simp
        | succ i =>
          rw [List.getElem?_cons_succ,List.getElem?_cons_succ,ih]
          simp
    · have hfirst : (decide (m.role = .user) && m.content.any (·.asText.isSome)) = false := by
        rw [Bool.eq_false_iff,ne_eq,Bool.and_eq_true,decide_eq_true_eq]
        exact hm
      rw [if_neg fun h => hm h.2]
      simp only [hfirst,Bool.false_eq_true,if_false]
      cases i with
      | zero =>
        rw [List.getElem?_cons_zero,List.getElem?_cons_zero,Option.map_some,if_neg]
        rintro ⟨-,h⟩
        cases hi : promptIndex ms with
        | none => rw [hi] at h; cases h
        | some j => rw [hi] at h; cases h
      | succ i =>
        rw [List.getElem?_cons_succ,List.getElem?_cons_succ,ih]
        congr 1
        funext x
        have hindex : promptIndex ms = some i ↔ (promptIndex ms).map (· + 1) = some (i + 1) := by
          cases promptIndex ms with
          | none => simp
          | some j => simp
        simp only [hindex]

def applyRedaction (r : ChatRequest) (redacted : String) : ChatRequest := { r with messages := redactMessages redacted false r.messages }

end ChatRequest

end Dwara.Ai

/-! Prompt templates and experiments: system messages put in front of a request. -/

namespace Dwara.Ai
open Dwara.Lib

structure AiPromptVersions where
  versions : List (String × String)
  active : String
  deriving DecidableEq, Repr

structure AiExperiments where
  prompts : List (String × AiPromptVersions)
  /-- The versions set active at run time. -/
  overrides : List (String × String)
  /-- The system message of the variant a request id picks, when the alias is an experiment. -/
  variantSystem : (modelAlias rid : String) → Option String

namespace AiExperiments
variable (exp : AiExperiments)

def activePromptSystem (promptName : String) : Option String :=
  (exp.prompts.lookup promptName).bind fun p => p.versions.lookup ((exp.overrides.lookup promptName).getD p.active)

/-- A template by its name, or by its name and a version. -/
def promptSystem (promptRef : String) : Option String :=
  match Text.splitOnce '/' promptRef with
  | some (name,version) => (exp.prompts.lookup name).bind fun p => p.versions.lookup version
  | none => exp.activePromptSystem promptRef

def substitute (system : String) (vars : List (String × String)) : String :=
  vars.foldl (fun text entry => text.replace ("\x7b\x7b" ++ entry.1 ++ "\x7d\x7d") entry.2) system

/-- The system messages in front of a request: a variant's before a template's. -/
def systemMessages (rid : String) (r : ChatRequest) : List ChatMessage :=
  ((exp.variantSystem r.model rid).toList ++ ((r.prompt.bind exp.promptSystem).map (substitute · r.promptVariables)).toList).map
    (.ofText .system)

def inject (rid : String) (r : ChatRequest) : ChatRequest := { r with messages := exp.systemMessages rid r ++ r.messages }

end AiExperiments

end Dwara.Ai
