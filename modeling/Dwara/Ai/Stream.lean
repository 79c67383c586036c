import Dwara.Ai.Types
import Dwara.Ai.Sse
import Dwara.Ai.Guardrails
import Dwara.Lib.System

/-! Provider events in, client frames out. -/

namespace Dwara.Ai
open Dwara.Lib

/-- A frame for the client, by what it carries. -/
inductive ClientFrame where
  | delta (d : StreamDelta)
  | usage (u : Usage)
  | aborted (message : String)
  | budgetCutoff
  | guardrailBlocked
  | done
  deriving DecidableEq, Repr

namespace ClientFrame

def IsDelta : ClientFrame → Prop
  | delta _ => True
  | _ => False

instance : (f : ClientFrame) → Decidable f.IsDelta
  | delta _ => isTrue trivial
  | usage _ => isFalse not_false
  | aborted _ => isFalse not_false
  | budgetCutoff => isFalse not_false
  | guardrailBlocked => isFalse not_false
  | done => isFalse not_false

/-- A usage chunk, an error chunk or a cutoff event. -/
def IsTerminal (f : ClientFrame) : Prop := ¬ f.IsDelta ∧ f ≠ done

instance (f : ClientFrame) : Decidable f.IsTerminal := inferInstanceAs (Decidable (_ ∧ _))

/-- The frame on the wire; `toText` prints a JSON value. -/
def text (toText : Json → String) (stamp : ChunkStamp) (rid : String) : ClientFrame → String
  | delta d => "data: " ++ toText (streamEventToOpenaiChunk stamp (.delta d)) ++ "\n\n"
  | usage u => "data: " ++ toText (streamEventToOpenaiChunk stamp (.usage u)) ++ "\n\n"
  | aborted message => "data: " ++ toText (errorBody message "api_error" (some "provider_stream_aborted") stamp.id) ++ "\n\n"
  | budgetCutoff => "data: " ++ toText (errorBody "the token budget for this window is exhausted; the stream was cut off"
      "rate_limit_error" (some "ai_budget_exceeded") rid) ++ "\n\n"
  | guardrailBlocked => "data: " ++ toText (.object [("error",.object [("code",.string "guardrail_blocked"),
      ("message",.string "the response was blocked by a banned-content guardrail"),("request_id",.string rid)])]) ++ "\n\n"
  | done => "data: [DONE]\n\n"

end ClientFrame

structure StreamTranslator where
  decoder : List Char
  usage : Usage
  ended : Bool
  tailEmitted : Bool
  stamp : ChunkStamp
  deriving DecidableEq, Repr

namespace StreamTranslator

def new (stamp : ChunkStamp) : StreamTranslator := ⟨[],Usage.default,false,false,stamp⟩

section Translate
variable (fromStr : String → Option Json) (adapter : ProviderAdapter)

/-- Deltas are forwarded, usage is kept, the provider's end is noted; what follows in the same
bytes is still translated. -/
def onEvent (s : StreamTranslator × List ClientFrame) : StreamEvent → StreamTranslator × List ClientFrame
  | .delta d => (s.1,s.2 ++ [.delta d])
  | .usage u => ({ s.1 with usage := s.1.usage.merge u },s.2)
  | .done => ({ s.1 with ended := true },s.2)

/-- A frame that is no JSON or no event of the dialect is skipped. -/
def onFrame (s : StreamTranslator × List ClientFrame) (frame : SseFrame) : StreamTranslator × List ClientFrame :=
  if adapter.streamDoneSentinel = some frame.data then ({ s.1 with ended := true },s.2)
  else
    match fromStr frame.data with
    | none => s
    | some data =>
      match adapter.parseStreamEvent data with
      | .error _ => s
      | .ok events => events.foldl onEvent s

def translate (t : StreamTranslator) (frames : List SseFrame) : StreamTranslator × List ClientFrame :=
  frames.foldl (onFrame fromStr adapter) (t,[])

def feed (t : StreamTranslator) (bytes : List UInt8) : StreamTranslator × List ClientFrame :=
  ({ t with decoder := (SseDecoder.push t.decoder bytes).2 } : StreamTranslator).translate fromStr adapter
    (SseDecoder.push t.decoder bytes).1

def flushPartial (t : StreamTranslator) : StreamTranslator × List ClientFrame :=
  ({ t with decoder := [] } : StreamTranslator).translate fromStr adapter (SseDecoder.finish t.decoder)

end Translate

/-- Whether the end of the stream reports usage: a total alone is not enough. -/
def ReportsUsage (t : StreamTranslator) : Prop := t.usage.promptTokens.isSome ∨ t.usage.completionTokens.isSome

instance (t : StreamTranslator) : Decidable t.ReportsUsage := inferInstanceAs (Decidable (_ ∨ _))

/-- The tail of a clean end, once. -/
def finish (t : StreamTranslator) : StreamTranslator × List ClientFrame :=
  if t.tailEmitted then (t,[])
  else ({ t with tailEmitted := true,ended := true },(if t.ReportsUsage then [.usage t.usage] else []) ++ [.done])

def abortTail (t : StreamTranslator) (message : String) : StreamTranslator × List ClientFrame :=
  ({ t with tailEmitted := true,ended := true },[.aborted message,.done])

/-- What translating keeps: the tail is not written, and every frame is a delta. -/
structure Translates (t : StreamTranslator) (s : StreamTranslator × List ClientFrame) : Prop where
  tailEmitted : s.1.tailEmitted = t.tailEmitted
  stamp : s.1.stamp = t.stamp
  deltas : ∀ f ∈ s.2, f.IsDelta

section Translate
variable (fromStr : String → Option Json) (adapter : ProviderAdapter)

private theorem translates_onEvent {t : StreamTranslator} {s : StreamTranslator × List ClientFrame} (h : Translates t s)
    (e : StreamEvent) : Translates t (onEvent s e) := by
  cases e with
  | delta d =>
    refine ⟨h.tailEmitted,h.stamp,?_⟩
    intro f hf
    rcases List.mem_append.mp hf with hf | hf
    · exact h.deltas f hf
    · obtain rfl := List.mem_singleton.mp hf
      trivial
  | usage u => exact ⟨h.tailEmitted,h.stamp,h.deltas⟩
  | done => exact ⟨h.tailEmitted,h.stamp,h.deltas⟩

private theorem translates_onFrame {t : StreamTranslator} {s : StreamTranslator × List ClientFrame} (h : Translates t s)
    (frame : SseFrame) : Translates t (onFrame fromStr adapter s frame) := by
  rw [onFrame]
  split
  case isTrue => exact ⟨h.tailEmitted,h.stamp,h.deltas⟩
  case isFalse =>
    split
    case h_1 => exact h
    case h_2 =>
      split
      case h_1 => exact h
      case h_2 events hevents =>
        clear hevents
        induction events generalizing s with
        | nil => exact h
        | cons e events ih => exact ih (translates_onEvent h e)

theorem translates_translate (t : StreamTranslator) (frames : List SseFrame) :
    Translates t (t.translate fromStr adapter frames) := by
  have hall : ∀ (frames : List SseFrame) (s : StreamTranslator × List ClientFrame), Translates t s →
      Translates t (frames.foldl (onFrame fromStr adapter) s) := by
    intro frames
    induction frames with
    | nil => exact fun s h => h
    | cons frame frames ih => exact fun s h => ih _ (translates_onFrame fromStr adapter h frame)
  exact hall frames (t,[]) ⟨rfl,rfl,fun f hf => absurd hf List.not_mem_nil⟩

variable (t : StreamTranslator) (bytes : List UInt8)

theorem tailEmitted_feed : (t.feed fromStr adapter bytes).1.tailEmitted = t.tailEmitted :=
  (translates_translate fromStr adapter _ _).tailEmitted

theorem stamp_feed : (t.feed fromStr adapter bytes).1.stamp = t.stamp :=
  (translates_translate fromStr adapter _ _).stamp

theorem isDelta_of_mem_feed {f : ClientFrame} (hf : f ∈ (t.feed fromStr adapter bytes).2) : f.IsDelta :=
  (translates_translate fromStr adapter _ _).deltas f hf

theorem tailEmitted_flushPartial : (t.flushPartial fromStr adapter).1.tailEmitted = t.tailEmitted :=
  (translates_translate fromStr adapter _ _).tailEmitted

theorem stamp_flushPartial : (t.flushPartial fromStr adapter).1.stamp = t.stamp :=
  (translates_translate fromStr adapter _ _).stamp

theorem isDelta_of_mem_flushPartial {f : ClientFrame} (hf : f ∈ (t.flushPartial fromStr adapter).2) : f.IsDelta :=
  (translates_translate fromStr adapter _ _).deltas f hf

end Translate

@[simp] theorem stamp_finish (t : StreamTranslator) : t.finish.1.stamp = t.stamp := by
  rw [finish]
  split <;> rfl

end StreamTranslator

/-! The body of a streamed answer: provider bytes are polled and client frames handed over,
one pass of the poll loop at a time. -/

/-- What a stream is served with. -/
structure StreamSetup where
  fromStr : String → Option Json
  toText : Json → String
  adapter : ProviderAdapter
  costMicros : Usage → Option UInt64
  guardrails : GuardrailEngine
  rid : String
  /-- Whether a budget binds the request. -/
  budget : Bool
  /-- Whether there is a semantic cache. -/
  streamTeeCache : Bool

def streamTeeCapBytes : ℕ := 1024 * 1024

structure AiStreamBody where
  /-- Whether the provider body is still there. -/
  inner : Bool
  translator : StreamTranslator
  tail : List ClientFrame
  closed : Bool
  cutOff : Bool
  meter : Meter
  guardrailCutOff : Bool
  streamTeeFrames : List ClientFrame
  streamTeeAbandoned : Bool
  /-- The frames handed to the cache. -/
  stored : Option (List ClientFrame)

/-- An answer of the provider body to a poll. -/
inductive Upstream where
  | data (bytes : List UInt8)
  | trailers
  | failed
  | finished
  | pending
  deriving DecidableEq, Repr

namespace AiStreamBody
variable (setup : StreamSetup) (b : AiStreamBody)

def new (stamp : ChunkStamp) : AiStreamBody where
  inner := true
  translator := .new stamp
  tail := []
  closed := false
  cutOff := false
  meter := .start
  guardrailCutOff := false
  streamTeeFrames := []
  streamTeeAbandoned := false
  stored := none

def text (f : ClientFrame) : String := f.text setup.toText b.translator.stamp setup.rid

def joined (frames : List ClientFrame) : String := String.join (frames.map (b.text setup))

/-- The meter with the usage translated so far. -/
def metered : Meter := { b.meter with usage := b.translator.usage }

def budgetSpendDelta : AiStreamBody :=
  if setup.budget then { b with meter := b.metered.budgetSpendDelta setup.costMicros } else b

/-- Whether a spend crosses the window; `crossed` is the window's answer to one. -/
def Crosses (crossed : Bool) : Prop :=
  setup.budget = true ∧ crossed = true ∧ ¬ (b.metered.newTokens = 0 ∧ b.metered.newCost setup.costMicros = 0)

instance (crossed : Bool) : Decidable (b.Crosses setup crossed) := inferInstanceAs (Decidable (_ ∧ _ ∧ _))

/-- The stream is cut when its spend crosses the window before its end. -/
def budgetTick (crossed : Bool) : AiStreamBody :=
  if b.Crosses setup crossed ∧ b.cutOff = false ∧ b.translator.ended = false then
    { b.budgetSpendDelta setup with cutOff := true,inner := false,tail := b.tail ++ [.budgetCutoff,.done] }
  else b.budgetSpendDelta setup

/-- The rule a batch matches. -/
def guardrailMatch (frames : List ClientFrame) : Option String :=
  setup.guardrails.checkStreamChunk (setup.guardrails.redactStreamChunk (b.joined setup frames))

def guardrailTick (frames : List ClientFrame) : AiStreamBody :=
  if b.guardrailCutOff then b
  else
    match b.guardrailMatch setup frames with
    | none => b
    | some _ => { b with guardrailCutOff := true,inner := false,tail := b.tail ++ [.guardrailBlocked,.done] }

/-- The tail of a clean end behind what the tail holds already. -/
def extendTail : AiStreamBody := { b with translator := b.translator.finish.1,tail := b.tail ++ b.translator.finish.2 }

def size (frames : List ClientFrame) : ℕ := (frames.map fun f => (b.text setup f).utf8ByteSize).sum

/-- Frames are kept for the cache up to the cap; past it all are given up. -/
def teeCollect (frames : List ClientFrame) : AiStreamBody :=
  if setup.streamTeeCache = false ∨ b.streamTeeAbandoned = true then b
  else if streamTeeCapBytes < b.size setup (b.streamTeeFrames ++ frames) ∧ frames ≠ [] then
    { b with streamTeeAbandoned := true,streamTeeFrames := [] }
  else { b with streamTeeFrames := b.streamTeeFrames ++ frames }

def teeStore : AiStreamBody :=
  if b.streamTeeAbandoned = true ∨ b.streamTeeFrames = [] ∨ setup.streamTeeCache = false then b
  else { b with stored := some b.streamTeeFrames }

/-- The end of the stream's accounts, once; also when the body is dropped. -/
def close : AiStreamBody :=
  if b.closed then b
  else if b.cutOff then ({ b with closed := true } : AiStreamBody).teeStore setup
  else (({ b with closed := true } : AiStreamBody).budgetSpendDelta setup).teeStore setup

/-- The part of a pass before the provider is polled: the tail goes first, one frame a poll;
`some none` is the end of the body. -/
def drainTail : Option (AiStreamBody × Option ClientFrame) :=
  match b.tail with
  | f :: tail =>
    if tail = [] ∧ b.translator.ended = true then some (((({ b with tail := tail } : AiStreamBody).teeCollect setup [f]).close setup),some f)
    else some ({ b with tail := tail },some f)
  | [] => if b.translator.ended = true ∨ b.inner = false then some (b,none) else none

/-- Bytes translated. -/
def receive (bytes : List UInt8) : AiStreamBody :=
  { b with translator := (b.translator.feed setup.fromStr setup.adapter bytes).1 }

/-- Bytes translated, spent and, at the provider's end, followed by the tail. -/
def fed (bytes : List UInt8) (crossed : Bool) : AiStreamBody :=
  if ((b.receive setup bytes).budgetTick setup crossed).translator.ended then
    ((b.receive setup bytes).budgetTick setup crossed).extendTail
  else (b.receive setup bytes).budgetTick setup crossed

/-- One answer of the provider, and the frames handed over for it. -/
def onUpstream (crossed : Bool) : Upstream → AiStreamBody × List ClientFrame
  | .data bytes =>
    let frames := (b.translator.feed setup.fromStr setup.adapter bytes).2
    if frames = [] then (b.fed setup bytes crossed,[])
    else (((b.fed setup bytes crossed).guardrailTick setup frames).teeCollect setup frames,frames)
  | .trailers => (b,[])
  | .failed =>
    ({ b with
      translator := (b.translator.abortTail "the model provider closed the stream").1
      tail := b.tail ++ (b.translator.abortTail "the model provider closed the stream").2 },[])
  | .finished =>
    (({ b with translator := (b.translator.flushPartial setup.fromStr setup.adapter).1 } : AiStreamBody).extendTail,
      (b.translator.flushPartial setup.fromStr setup.adapter).2)
  | .pending => (b,[])

end AiStreamBody

/-- A stream with what its client has seen of it. -/
structure Streaming where
  body : AiStreamBody
  delivered : List ClientFrame
  /-- The body has said that it is over. -/
  isOver : Bool
  /-- The provider failed. -/
  aborted : Bool
  dropped : Bool

inductive StreamStep where
  /-- A pass of the poll loop, with the provider's answer and the window's, should it ask for them. -/
  | pass (answer : Upstream) (crossed : Bool)
  | drop
  deriving DecidableEq, Repr

namespace Streaming

def start (stamp : ChunkStamp) : Streaming := ⟨.new stamp,[],false,false,false⟩

def step (setup : StreamSetup) (s : Streaming) : StreamStep → Option Streaming
  | .pass answer crossed =>
    if s.dropped then none
    else
      match s.body.drainTail setup with
      | some (body,some f) => some { s with body := body,delivered := s.delivered ++ [f] }
      | some (body,none) => some { s with body := body,isOver := true }
      | none => some { s with
          body := (s.body.onUpstream setup crossed answer).1
          delivered := s.delivered ++ (s.body.onUpstream setup crossed answer).2
          aborted := s.aborted || answer = .failed }
  | .drop => if s.dropped then none else some { s with body := s.body.close setup,dropped := true }

end Streaming

/-- A stream over any answers of its provider and its window, dropped by the client at any time. -/
def streaming (setup : StreamSetup) (stamp : ChunkStamp) : System Streaming StreamStep := ⟨.start stamp,Streaming.step setup⟩

end Dwara.Ai
