import Dwara.Ai.Stream
import Dwara.Ai.Types

/-! The frames of a stream end once. -/

namespace Dwara.Ai
open Dwara.Lib

/-- Deltas, at most one terminal frame, and the terminator. -/
def Shaped (frames : List ClientFrame) : Prop :=
  ∃ deltas terminal, frames = deltas ++ (terminal ++ [.done]) ∧ (∀ f ∈ deltas, f.IsDelta) ∧ terminal.length ≤ 1 ∧
    ∀ f ∈ terminal, f.IsTerminal

namespace AiStreamBody

/-- The part of a body that decides what is handed over. -/
structure Core where
  inner : Bool
  translator : StreamTranslator
  tail : List ClientFrame
  cutOff : Bool
  guardrailCutOff : Bool

def core (b : AiStreamBody) : Core := ⟨b.inner,b.translator,b.tail,b.cutOff,b.guardrailCutOff⟩

variable (setup : StreamSetup) (b : AiStreamBody)

@[simp] theorem core_budgetSpendDelta : (b.budgetSpendDelta setup).core = b.core := by
  rw [budgetSpendDelta]
  split <;> rfl

@[simp] theorem core_teeCollect (frames : List ClientFrame) : (b.teeCollect setup frames).core = b.core := by
  rw [teeCollect]
  split
  · rfl
  · split <;> rfl

@[simp] theorem core_teeStore : (b.teeStore setup).core = b.core := by
  rw [teeStore]
  split <;> rfl

@[simp] theorem core_close : (b.close setup).core = b.core := by
  rw [close]
  split
  · rfl
  · split
    · rw [core_teeStore]
      rfl
    · rw [core_teeStore,core_budgetSpendDelta]
      rfl

end AiStreamBody

namespace AiStreamBody.Core

/-- The provider is still polled. -/
structure Running (c : Core) : Prop where
  inner : c.inner = true
  ended : c.translator.ended = false
  tailEmitted : c.translator.tailEmitted = false
  tail : c.tail = []
  cutOff : c.cutOff = false
  guardrailCutOff : c.guardrailCutOff = false

/-- The provider is not polled any more. -/
def Ending (c : Core) : Prop := c.translator.ended = true ∨ c.inner = false

end AiStreamBody.Core

open AiStreamBody

namespace AiStreamBody
variable (setup : StreamSetup) (b : AiStreamBody)

/-- The three ways a tail comes about at once. -/
def IsTail (tail : List ClientFrame) : Prop := ∃ terminal, tail = terminal ++ [.done] ∧ terminal.length ≤ 1 ∧ ∀ f ∈ terminal, f.IsTerminal

theorem shaped_of_isTail {deltas tail : List ClientFrame} (hdeltas : ∀ f ∈ deltas, f.IsDelta) (htail : IsTail tail) :
    Shaped (deltas ++ tail) := by
  obtain ⟨terminal,rfl,hlen,hterminal⟩ := htail
  exact ⟨deltas,terminal,rfl,hdeltas,hlen,hterminal⟩

theorem isTail_pair {f : ClientFrame} (h : f.IsTerminal) : IsTail [f,.done] := by
  refine ⟨[f],rfl,Nat.le_refl 1,?_⟩
  intro g hg
  obtain rfl := List.mem_singleton.mp hg
  exact h

theorem isTail_finish {t : StreamTranslator} (h : t.tailEmitted = false) : IsTail t.finish.2 ∧ t.finish.1.ended = true := by
  rw [StreamTranslator.finish,if_neg (by simp [h])]
  refine ⟨⟨_,rfl,?_,?_⟩,rfl⟩
  · split <;> simp
  · intro f hf
    split at hf
    · obtain rfl := List.mem_singleton.mp hf
      exact ⟨not_false,fun hdone => by cases hdone⟩
    · cases hf

variable {bytes : List UInt8} {crossed : Bool}

private theorem translator_eq_core : b.translator = b.core.translator := rfl

/-- A tick cuts, or changes the accounts only. -/
theorem core_budgetTick_of_crosses (hcross : b.Crosses setup crossed) (hcut : b.cutOff = false) (hended : b.translator.ended = false) :
    (b.budgetTick setup crossed).core =
      { b.core with cutOff := true,inner := false,tail := b.tail ++ [.budgetCutoff,.done] } := by
  have hcore := core_budgetSpendDelta setup b
  rw [budgetTick,if_pos ⟨hcross,hcut,hended⟩,← hcore]
  rfl

theorem core_budgetTick_of_not (h : ¬ b.Crosses setup crossed ∨ b.translator.ended = true) :
    (b.budgetTick setup crossed).core = b.core := by
  rw [budgetTick,if_neg,core_budgetSpendDelta]
  rintro ⟨hcross,-,hended⟩
  rcases h with h | h
  · exact h hcross
  · simp [hended] at h

theorem core_fed_of_ended (hended : (b.receive setup bytes).translator.ended = true) :
    (b.fed setup bytes crossed).core = (b.receive setup bytes).extendTail.core := by
  have hcore : ((b.receive setup bytes).budgetTick setup crossed).core = (b.receive setup bytes).core :=
    core_budgetTick_of_not setup _ (.inr hended)
  have htranslator := congrArg Core.translator hcore
  have htail := congrArg Core.tail hcore
  simp only [core] at htranslator htail
  rw [fed,if_pos (by rw [htranslator,hended])]
  simp only [core,Core.mk.injEq] at hcore ⊢
  simp only [extendTail,hcore,and_self]

theorem core_fed_of_crosses (hended : (b.receive setup bytes).translator.ended = false)
    (hcross : (b.receive setup bytes).Crosses setup crossed) (hcut : b.cutOff = false) :
    (b.fed setup bytes crossed).core =
      { (b.receive setup bytes).core with cutOff := true,inner := false,tail := b.tail ++ [.budgetCutoff,.done] } := by
  have hcore := core_budgetTick_of_crosses setup (b.receive setup bytes) hcross hcut hended
  rw [fed,translator_eq_core,hcore,if_neg (by simp [core,hended])]
  exact hcore

theorem core_fed_of_running (hended : (b.receive setup bytes).translator.ended = false)
    (hcross : ¬ (b.receive setup bytes).Crosses setup crossed) : (b.fed setup bytes crossed).core = (b.receive setup bytes).core := by
  have hcore := core_budgetTick_of_not setup (b.receive setup bytes) (.inl hcross)
  rw [fed,translator_eq_core,hcore,if_neg (by simp [core,hended])]
  exact hcore

theorem translator_budgetTick : (b.budgetTick setup crossed).translator = b.translator := by
  have hcore := congrArg Core.translator (core_budgetSpendDelta setup b)
  rw [budgetTick]
  split <;> exact hcore

theorem stamp_fed : (b.fed setup bytes crossed).translator.stamp = b.translator.stamp := by
  rw [fed]
  split
  · rw [extendTail,StreamTranslator.stamp_finish,translator_budgetTick,receive,StreamTranslator.stamp_feed]
  · rw [translator_budgetTick,receive,StreamTranslator.stamp_feed]

/-- A batch is checked as it is printed, with the stamp of the whole stream. -/
theorem guardrailMatch_fed (frames : List ClientFrame) :
    (b.fed setup bytes crossed).guardrailMatch setup frames = b.guardrailMatch setup frames := by
  have htext : (b.fed setup bytes crossed).text setup = b.text setup := by
    funext f
    rw [text,text,stamp_fed]
  rw [guardrailMatch,guardrailMatch,joined,joined,htext]

variable {setup b}

/-- Bytes end the stream, cut it, or leave it running. -/
theorem fed_cases (bytes : List UInt8) (crossed : Bool) (h : b.core.Running) :
    ((b.receive setup bytes).translator.ended = true ∧ IsTail (b.fed setup bytes crossed).tail ∧ (b.fed setup bytes crossed).core.Ending) ∨
    ((b.receive setup bytes).Crosses setup crossed ∧ IsTail (b.fed setup bytes crossed).tail ∧ (b.fed setup bytes crossed).core.Ending) ∨
    ((b.receive setup bytes).translator.ended = false ∧ ¬ (b.receive setup bytes).Crosses setup crossed ∧
      (b.fed setup bytes crossed).core.Running) := by
  have hemitted : (b.receive setup bytes).translator.tailEmitted = false := by
    rw [receive,StreamTranslator.tailEmitted_feed]
    exact h.tailEmitted
  have htail : b.tail = [] := h.tail
  cases hended : (b.receive setup bytes).translator.ended with
  | true =>
    left
    have hfinish := isTail_finish hemitted
    have hcore : (b.fed setup bytes crossed).core = _ := core_fed_of_ended setup b hended
    refine ⟨rfl,?_,?_⟩
    · have hkept := congrArg Core.tail hcore
      simp only [core,extendTail] at hkept
      rw [hkept,receive,htail]
      exact hfinish.1
    · rw [hcore]
      exact .inl hfinish.2
  | false =>
    right
    by_cases hcross : (b.receive setup bytes).Crosses setup crossed
    · left
      have hcore := core_fed_of_crosses setup b hended hcross h.cutOff
      refine ⟨hcross,?_,?_⟩
      · have hkept := congrArg Core.tail hcore
        simp only [core] at hkept
        rw [hkept,htail]
        exact isTail_pair (by decide)
      · rw [hcore]
        exact .inr rfl
    · right
      rw [core_fed_of_running setup b hended hcross]
      exact ⟨rfl,hcross,⟨h.inner,hended,hemitted,h.tail,h.cutOff,h.guardrailCutOff⟩⟩

end AiStreamBody

/-- A batch that matches a banned-content rule neither ends the stream nor crosses the window. -/
def CutsAlone (setup : StreamSetup) (s : Streaming) : StreamStep → Prop
  | .pass (.data bytes) crossed =>
    s.body.drainTail setup = none →
      (s.body.guardrailMatch setup (s.body.translator.feed setup.fromStr setup.adapter bytes).2).isSome →
      (s.body.receive setup bytes).translator.ended = false ∧ ¬ (s.body.receive setup bytes).Crosses setup crossed
  | _ => True

instance (setup : StreamSetup) (s : Streaming) : (a : StreamStep) → Decidable (CutsAlone setup s a)
  | .pass (.data _) _ => inferInstanceAs (Decidable (_ → _ → _))
  | .pass .trailers _ => isTrue trivial
  | .pass .failed _ => isTrue trivial
  | .pass .finished _ => isTrue trivial
  | .pass .pending _ => isTrue trivial
  | .drop => isTrue trivial

/-- Deltas while the provider is polled; then what is delivered and what is left of the tail
make the whole. -/
structure Ends (s : Streaming) : Prop where
  phase : (s.body.core.Running ∧ ∀ f ∈ s.delivered, f.IsDelta) ∨ (s.body.core.Ending ∧ Shaped (s.delivered ++ s.body.tail))
  isOver : s.isOver = true → s.body.core.Ending ∧ s.body.tail = []

section Step
variable {setup : StreamSetup} {s : Streaming}

theorem guardrailTick_of_none {b : AiStreamBody} {frames : List ClientFrame} (h : (b.guardrailMatch setup frames).isSome = false) :
    b.guardrailTick setup frames = b := by
  rw [guardrailTick]
  split
  · rfl
  · split
    case h_1 => rfl
    case h_2 name hmatch =>
      rw [hmatch] at h
      cases h

theorem tail_guardrailTick_of_some {b : AiStreamBody} {frames : List ClientFrame} (hoff : b.guardrailCutOff = false)
    (h : (b.guardrailMatch setup frames).isSome) :
    (b.guardrailTick setup frames).tail = b.tail ++ [.guardrailBlocked,.done] ∧ (b.guardrailTick setup frames).core.Ending := by
  rw [guardrailTick,if_neg (by simp [hoff])]
  split
  case h_1 hmatch =>
    rw [hmatch] at h
    cases h
  case h_2 => exact ⟨rfl,.inr rfl⟩

private theorem tail_eq_core (b : AiStreamBody) : b.tail = b.core.tail := rfl

/-- A pass that polls the provider. -/
theorem ends_onUpstream {answer : Upstream} {crossed : Bool} (hrun : s.body.core.Running) (hdeltas : ∀ f ∈ s.delivered, f.IsDelta)
    (hdrain : s.body.drainTail setup = none) (hguard : CutsAlone setup s (.pass answer crossed)) :
    ((s.body.onUpstream setup crossed answer).1.core.Running ∧ ∀ f ∈ s.delivered ++ (s.body.onUpstream setup crossed answer).2, f.IsDelta) ∨
    ((s.body.onUpstream setup crossed answer).1.core.Ending ∧
      Shaped (s.delivered ++ (s.body.onUpstream setup crossed answer).2 ++ (s.body.onUpstream setup crossed answer).1.tail)) := by
  cases answer with
  | data bytes =>
    have hframes : ∀ f ∈ (s.body.translator.feed setup.fromStr setup.adapter bytes).2, f.IsDelta :=
      fun f hf => StreamTranslator.isDelta_of_mem_feed _ _ _ _ hf
    have hall : ∀ f ∈ s.delivered ++ (s.body.translator.feed setup.fromStr setup.adapter bytes).2, f.IsDelta := by
      intro f hf
      rcases List.mem_append.mp hf with hf | hf
      · exact hdeltas f hf
      · exact hframes f hf
    rw [onUpstream]
    split
    case isTrue hnone =>
      rw [List.append_nil]
      rcases fed_cases bytes crossed hrun with ⟨-,htail,hending⟩ | ⟨-,htail,hending⟩ | ⟨-,-,hrunning⟩
      · exact .inr ⟨hending,shaped_of_isTail hdeltas htail⟩
      · exact .inr ⟨hending,shaped_of_isTail hdeltas htail⟩
      · exact .inl ⟨hrunning,hdeltas⟩
    case isFalse hsome =>
      simp only [tail_eq_core,core_teeCollect]
      cases hmatch : (s.body.guardrailMatch setup (s.body.translator.feed setup.fromStr setup.adapter bytes).2).isSome with
      | false =>
        rw [guardrailTick_of_none (by rw [guardrailMatch_fed,hmatch])]
        rcases fed_cases bytes crossed hrun with ⟨-,htail,hending⟩ | ⟨-,htail,hending⟩ | ⟨-,-,hrunning⟩
        · exact .inr ⟨hending,shaped_of_isTail hall htail⟩
        · exact .inr ⟨hending,shaped_of_isTail hall htail⟩
        · exact .inl ⟨hrunning,hall⟩
      | true =>
        -- The guard leaves the running case: nothing else is in the tail yet.
        obtain ⟨hended,hcross⟩ := hguard hdrain hmatch
        rcases fed_cases bytes crossed hrun with ⟨hend,-,-⟩ | ⟨hcut,-,-⟩ | ⟨-,-,hrunning⟩
        · rw [hended] at hend
          cases hend
        · exact absurd hcut hcross
        · obtain ⟨htail,hending⟩ := tail_guardrailTick_of_some hrunning.guardrailCutOff (by rw [guardrailMatch_fed,hmatch])
          have hempty : (s.body.fed setup bytes crossed).tail = [] := hrunning.tail
          rw [hempty,List.nil_append] at htail
          refine .inr ⟨hending,?_⟩
          rw [← tail_eq_core,htail]
          exact shaped_of_isTail hall (isTail_pair (by decide))
  | trailers => exact .inl ⟨hrun,by simpa [onUpstream] using hdeltas⟩
  | failed =>
    have htail : s.body.tail = [] := hrun.tail
    refine .inr ⟨.inl rfl,?_⟩
    simp only [onUpstream,StreamTranslator.abortTail,htail,List.nil_append,List.append_nil]
    exact shaped_of_isTail hdeltas (isTail_pair ⟨not_false,fun hdone => by cases hdone⟩)
  | finished =>
    have htail : s.body.tail = [] := hrun.tail
    have hemitted : (s.body.translator.flushPartial setup.fromStr setup.adapter).1.tailEmitted = false := by
      rw [StreamTranslator.tailEmitted_flushPartial]
      exact hrun.tailEmitted
    have hfinish := isTail_finish hemitted
    refine .inr ⟨.inl hfinish.2,?_⟩
    simp only [onUpstream,extendTail,htail,List.nil_append]
    refine shaped_of_isTail ?_ hfinish.1
    intro f hf
    rcases List.mem_append.mp hf with hf | hf
    · exact hdeltas f hf
    · exact StreamTranslator.isDelta_of_mem_flushPartial _ _ _ hf
  | pending => exact .inl ⟨hrun,by simpa [onUpstream] using hdeltas⟩

/-- What a pass does before the provider is polled. -/
theorem drainTail_cases (setup : StreamSetup) (b : AiStreamBody) :
    (∃ b' f, b.drainTail setup = some (b',some f) ∧ b.tail = f :: b'.tail ∧ b'.core = { b.core with tail := b'.tail }) ∨
    (b.drainTail setup = some (b,none) ∧ b.tail = [] ∧ b.core.Ending) ∨
    (b.drainTail setup = none ∧ b.tail = [] ∧ ¬ b.core.Ending) := by
  rw [drainTail]
  split
  case h_1 f tail htail =>
    left
    split
    case isTrue =>
      have hcore : ((({ b with tail := tail } : AiStreamBody).teeCollect setup [f]).close setup).core = { b.core with tail := tail } := by
        rw [core_close,core_teeCollect]
        rfl
      have hkept := congrArg Core.tail hcore
      simp only [core] at hkept
      exact ⟨_,f,rfl,by rw [hkept,htail],by rw [hcore,hkept]⟩
    case isFalse => exact ⟨_,f,rfl,htail,rfl⟩
  case h_2 htail =>
    right
    split
    case isTrue hending => exact .inl ⟨rfl,htail,hending⟩
    case isFalse hrunning => exact .inr ⟨rfl,htail,hrunning⟩

theorem not_ending_of_running {c : Core} (h : c.Running) : ¬ c.Ending := by
  rintro (hended | hinner)
  · rw [h.ended] at hended
    cases hended
  · rw [h.inner] at hinner
    cases hinner

theorem ends_step {a : StreamStep} {s' : Streaming} (h : Ends s) (hguard : CutsAlone setup s a) (hs : s.step setup a = some s') : Ends s' := by
  cases a with
  | drop =>
    rw [Streaming.step] at hs
    split at hs
    case isTrue => cases hs
    case isFalse =>
      obtain rfl := Option.some.inj hs
      have htail : (s.body.close setup).tail = s.body.tail := congrArg Core.tail (core_close setup s.body)
      refine ⟨?_,?_⟩
      · simp only [core_close,htail]
        exact h.phase
      · simp only [core_close,htail]
        exact h.isOver
  | pass answer crossed =>
    rw [Streaming.step] at hs
    split at hs
    case isTrue => cases hs
    case isFalse =>
      rcases drainTail_cases setup s.body with ⟨b,f,hdrain,htail,hcore⟩ | ⟨hdrain,htail,hending⟩ | ⟨hdrain,htail,hrunning⟩
      · rw [hdrain] at hs
        obtain rfl := Option.some.inj hs
        rcases h.phase with ⟨hrunning,-⟩ | ⟨hending,hshaped⟩
        · have hempty : s.body.tail = [] := hrunning.tail
          rw [hempty] at htail
          cases htail
        · have hkept : b.core.Ending := by
            rw [hcore]
            exact hending
          refine ⟨.inr ⟨hkept,?_⟩,fun hover => ?_⟩
          · rw [htail] at hshaped
            simpa using hshaped
          · have hempty := (h.isOver hover).2
            rw [hempty] at htail
            cases htail
      · rw [hdrain] at hs
        obtain rfl := Option.some.inj hs
        exact ⟨h.phase,fun _ => ⟨hending,htail⟩⟩
      · rw [hdrain] at hs
        obtain rfl := Option.some.inj hs
        rcases h.phase with ⟨hrun,hdeltas⟩ | ⟨hending,-⟩
        · exact ⟨ends_onUpstream hrun hdeltas hdrain hguard,fun hover => absurd (h.isOver hover).1 hrunning⟩
        · exact absurd hending hrunning

end Step

theorem Shaped.prefix_of_running {frames : List ClientFrame} (h : ∀ f ∈ frames, f.IsDelta) : ∃ rest, Shaped (frames ++ rest) :=
  ⟨[.done],frames,[],rfl,h,Nat.zero_le 1,fun _ hf => absurd hf List.not_mem_nil⟩

/-- Over any answers of the provider and the window, what the client has seen can be completed
to deltas, one terminal frame at most and one terminator, and is complete when the body is
over: when no batch that matches a banned-content rule also ends or cuts the stream. -/
theorem ends_once (setup : StreamSetup) (stamp : ChunkStamp) {steps : List StreamStep} {s : Streaming}
    (hguard : (streaming setup stamp).Along (CutsAlone setup) steps) (hrun : (streaming setup stamp).run steps = some s) :
    (∃ rest, Shaped (s.delivered ++ rest)) ∧ (s.isOver = true → Shaped s.delivered) := by
  have hstart : Ends (Streaming.start stamp) :=
    ⟨.inl ⟨⟨rfl,rfl,rfl,rfl,rfl,rfl⟩,fun f hf => absurd hf List.not_mem_nil⟩,fun hover => by cases hover⟩
  have hends : Ends s := System.guarded_inv Ends hstart (fun _ _ _ h hg hs => ends_step h hg hs) hguard hrun
  constructor
  · rcases hends.phase with ⟨-,hdeltas⟩ | ⟨-,hshaped⟩
    · exact Shaped.prefix_of_running hdeltas
    · exact ⟨_,hshaped⟩
  · intro hover
    obtain ⟨hending,htail⟩ := hends.isOver hover
    rcases hends.phase with ⟨hrunning,-⟩ | ⟨-,hshaped⟩
    · exact absurd hending (not_ending_of_running hrunning)
    · rw [htail,List.append_nil] at hshaped
      exact hshaped

section Example

def wordDelta (word : String) : StreamDelta := ⟨0,none,some word,[],none⟩

/-- A chunk of the provider with one word. -/
def wordChunk (word : String) : Json :=
  .object [("choices",.array [.object [("delta",.object [("content",.string word)]),("index",.int 0)]])]

/-- The reader of the texts of some chunks. -/
def readChunk (chunks : List Json) (s : String) : Option Json := chunks.find? fun v => v.toText = s

def eventOf (text : String) : List UInt8 := ("data: " ++ text ++ "\n\n").toUTF8.toList

def streamSetup (rules : List CompiledRule) : StreamSetup :=
  ⟨readChunk [wordChunk "hello",wordChunk "world"],Json.toText,OpenAi.adapter,fun _ => none,⟨rules⟩,"r",false,true⟩

def polled (bytes : List UInt8) : StreamStep := .pass (.data bytes) false

def hello : List UInt8 := eventOf (wordChunk "hello").toText
def world : List UInt8 := eventOf (wordChunk "world").toText
def doneEvent : List UInt8 := eventOf "[DONE]"

/-- Two words, the second together with the end. -/
def twoWords : List StreamStep := [polled hello,polled (world ++ doneEvent),polled [],polled []]

theorem ends_once_plain : ∃ s, (streaming (streamSetup []) ⟨"id","m",0⟩).run twoWords = some s ∧ s.isOver = true ∧ Shaped s.delivered := by
  have hover : ((streaming (streamSetup []) ⟨"id","m",0⟩).run twoWords).map (·.isOver) = some true := by decide +kernel
  obtain ⟨s,hs,hover⟩ := Option.map_eq_some_iff.mp hover
  have hguard : (streaming (streamSetup []) ⟨"id","m",0⟩).Along (CutsAlone (streamSetup [])) twoWords :=
    System.along_of_alongFrom (by decide +kernel)
  exact ⟨s,hs,hover,(ends_once _ _ hguard hs).2 hover⟩

/-- A rule on the word `world`. -/
def worldRule : CompiledRule :=
  ⟨"words",.banned,.block,.response,[fun s => (Text.splitOnceAt "world".toList s.toList).isSome],none,id,none,[]⟩

/-- The last batch of a stream matches a banned-content rule: two terminators. -/
theorem ends_twice : ∃ s, (streaming (streamSetup [worldRule]) ⟨"id","m",0⟩).run
      [polled (world ++ doneEvent),polled [],polled [],polled [],polled []] = some s ∧ s.isOver = true ∧ ¬ Shaped s.delivered := by
  have hseen : ((streaming (streamSetup [worldRule]) ⟨"id","m",0⟩).run
      [polled (world ++ doneEvent),polled [],polled [],polled [],polled []]).map (fun s => (s.isOver,s.delivered)) =
        some (true,[.delta (wordDelta "world"),.done,.guardrailBlocked,.done]) := by decide +kernel
  obtain ⟨s,hs,hseen⟩ := Option.map_eq_some_iff.mp hseen
  obtain ⟨hover,hdelivered⟩ := Prod.mk.inj hseen
  refine ⟨s,hs,hover,?_⟩
  rw [hdelivered]
  rintro ⟨deltas,terminal,heq,hdeltas,hlen,hterminal⟩
  have hdone : ClientFrame.done ∈ deltas ++ terminal := by
    rw [← List.append_assoc] at heq
    have hinit := congrArg List.dropLast heq
    rw [List.dropLast_concat] at hinit
    rw [← hinit]
    decide
  rcases List.mem_append.mp hdone with hd | hd
  · exact hdeltas _ hd
  · exact (hterminal _ hd).2 rfl

end Example

end Dwara.Ai
