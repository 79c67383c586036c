import Dwara.Ai.StreamShape

/-! What a stream leaves in the semantic cache. -/

namespace Dwara.Ai
open Dwara.Lib AiStreamBody

namespace AiStreamBody

/-- The part of a body that decides what is stored. -/
structure Tee where
  frames : List ClientFrame
  abandoned : Bool
  closed : Bool
  stored : Option (List ClientFrame)

def tee (b : AiStreamBody) : Tee := ⟨b.streamTeeFrames,b.streamTeeAbandoned,b.closed,b.stored⟩

variable (setup : StreamSetup) (b : AiStreamBody) (bytes : List UInt8) (crossed : Bool) (frames : List ClientFrame)

@[simp] theorem tee_budgetSpendDelta : (b.budgetSpendDelta setup).tee = b.tee := by
  rw [budgetSpendDelta]
  split <;> rfl

@[simp] theorem tee_budgetTick : (b.budgetTick setup crossed).tee = b.tee := by
  have htee := tee_budgetSpendDelta setup b
  rw [budgetTick]
  split
  · exact htee
  · exact htee

@[simp] theorem tee_fed : (b.fed setup bytes crossed).tee = b.tee := by
  have htee := tee_budgetTick setup (b.receive setup bytes) crossed
  rw [fed]
  split
  · exact htee
  · exact htee

@[simp] theorem tee_guardrailTick : (b.guardrailTick setup frames).tee = b.tee := by
  rw [guardrailTick]
  split
  · rfl
  · split <;> rfl

/-- Frames are still collected. -/
def TeeActive : Prop := setup.streamTeeCache = true ∧ b.streamTeeAbandoned = false ∧ b.closed = false

instance : Decidable (b.TeeActive setup) := inferInstanceAs (Decidable (_ ∧ _ ∧ _))

/-- With these frames the cap is passed. -/
def Overflows : Prop := streamTeeCapBytes < b.size setup (b.streamTeeFrames ++ frames)

instance : Decidable (b.Overflows setup frames) := inferInstanceAs (Decidable (_ < _))

variable {setup b frames}

theorem overflows_congr {b' : AiStreamBody} (hstamp : b'.translator.stamp = b.translator.stamp) (htee : b'.tee = b.tee) :
    b'.Overflows setup frames ↔ b.Overflows setup frames := by
  have hframes : b'.streamTeeFrames = b.streamTeeFrames := congrArg Tee.frames htee
  have htext : b'.text setup = b.text setup := by
    funext f
    rw [text,text,hstamp]
  rw [Overflows,Overflows,size,size,htext,hframes]

theorem teeCollect_of_not_collecting (h : ¬ (setup.streamTeeCache = true ∧ b.streamTeeAbandoned = false)) :
    b.teeCollect setup frames = b := by
  rw [teeCollect,if_pos]
  by_cases hcache : setup.streamTeeCache = true
  · right
    by_cases habandoned : b.streamTeeAbandoned = false
    · exact absurd ⟨hcache,habandoned⟩ h
    · simpa using habandoned
  · left
    simpa using hcache

theorem teeCollect_of_overflows (h : b.TeeActive setup) (hover : b.Overflows setup frames) (hne : frames ≠ []) :
    b.teeCollect setup frames = { b with streamTeeAbandoned := true,streamTeeFrames := [] } := by
  rw [teeCollect,if_neg (by simp [h.1,h.2.1]),if_pos ⟨hover,hne⟩]

theorem teeCollect_of_fits (h : b.TeeActive setup) (hfits : ¬ b.Overflows setup frames) :
    b.teeCollect setup frames = { b with streamTeeFrames := b.streamTeeFrames ++ frames } := by
  rw [teeCollect,if_neg (by simp [h.1,h.2.1]),if_neg fun hall => hfits hall.1]

/-- Nothing is stored at a close when nothing is collected any more, or yet. -/
theorem stored_close_of_not (h : b.closed = true ∨ ¬ (setup.streamTeeCache = true ∧ b.streamTeeAbandoned = false) ∨ b.streamTeeFrames = []) :
    (b.close setup).stored = b.stored := by
  have hstore : ∀ b' : AiStreamBody, b'.tee = { b.tee with closed := true } → b.closed = false → (b'.teeStore setup).stored = b.stored := by
    intro b' htee hopen
    have hframes : b'.streamTeeFrames = b.streamTeeFrames := congrArg Tee.frames htee
    have habandoned : b'.streamTeeAbandoned = b.streamTeeAbandoned := congrArg Tee.abandoned htee
    rw [teeStore,if_pos]
    · exact congrArg Tee.stored htee
    · rw [hframes,habandoned]
      rcases h with hclosed | hnot | hnone
      · rw [hopen] at hclosed
        cases hclosed
      · by_cases hcache : setup.streamTeeCache = true
        · left
          by_cases hgiven : b.streamTeeAbandoned = false
          · exact absurd ⟨hcache,hgiven⟩ hnot
          · simpa using hgiven
        · right
          right
          simpa using hcache
      · exact .inr (.inl hnone)
  rw [close]
  split
  case isTrue => rfl
  case isFalse hopen =>
    rw [Bool.not_eq_true] at hopen
    split
    · exact hstore _ rfl hopen
    · exact hstore _ (tee_budgetSpendDelta setup _) hopen

/-- What is collected is stored at the close. -/
theorem stored_close_of_collected (h : b.TeeActive setup) (hne : b.streamTeeFrames ≠ []) :
    (b.close setup).stored = some b.streamTeeFrames := by
  have hstore : ∀ b' : AiStreamBody, b'.tee = { b.tee with closed := true } → (b'.teeStore setup).stored = some b.streamTeeFrames := by
    intro b' htee
    have hframes : b'.streamTeeFrames = b.streamTeeFrames := congrArg Tee.frames htee
    have habandoned : b'.streamTeeAbandoned = b.streamTeeAbandoned := congrArg Tee.abandoned htee
    rw [teeStore,if_neg]
    · rw [hframes]
    · rw [hframes,habandoned]
      rintro (hgiven | hnone | hcache)
      · rw [h.2.1] at hgiven
        cases hgiven
      · exact hne hnone
      · rw [h.1] at hcache
        cases hcache
  rw [close,if_neg (by simp [h.2.2])]
  split
  · exact hstore _ rfl
  · exact hstore _ (tee_budgetSpendDelta setup _)

theorem tee_close_closed : (b.close setup).closed = true := by
  have hstore : ∀ b' : AiStreamBody, (b'.teeStore setup).closed = b'.closed := by
    intro b'
    rw [teeStore]
    split <;> rfl
  rw [close]
  split
  case isTrue h => exact h
  case isFalse =>
    split
    · rw [hstore]
    · rw [hstore]
      exact congrArg Tee.closed (tee_budgetSpendDelta setup _)

end AiStreamBody

/-- What is stored is the whole of a stream that ended cleanly, as it was delivered. -/
def WholeOnly (s : Streaming) : Prop :=
  ∀ frames, s.body.stored = some frames → s.body.translator.ended = true ∧ s.aborted = false ∧ s.body.cutOff = false ∧
    s.body.guardrailCutOff = false ∧ frames = s.delivered ∧ frames.getLast? = some .done

/-- A batch that does not spoil the frames collected: with it the cap is passed; or it does not
cut the stream, and ends it without a usage chunk. -/
def BatchWhole (setup : StreamSetup) (b : AiStreamBody) (bytes : List UInt8) (crossed : Bool) (frames : List ClientFrame) : Prop :=
  (frames ≠ [] ∧ b.Overflows setup frames) ∨
    (((b.receive setup bytes).translator.ended = false → (b.receive setup bytes).Crosses setup crossed → b.streamTeeFrames = [] ∧ frames = []) ∧
      (frames ≠ [] → (b.guardrailMatch setup frames).isSome = false) ∧
      ((b.receive setup bytes).translator.ended = true →
        ¬ (b.receive setup bytes).translator.ReportsUsage ∨ b.Overflows setup (frames ++ [.done])))

instance (setup : StreamSetup) (b : AiStreamBody) (bytes : List UInt8) (crossed : Bool) (frames : List ClientFrame) :
    Decidable (BatchWhole setup b bytes crossed frames) := inferInstanceAs (Decidable (_ ∨ _ ∧ _ ∧ _))

/-- While frames are collected the client does not leave with some of them, the provider does
not fail, and its end brings neither a last event nor a usage chunk. -/
def KeepsWhole (setup : StreamSetup) (s : Streaming) : StreamStep → Prop
  | .drop => s.body.TeeActive setup → s.body.streamTeeFrames = []
  | .pass answer crossed => s.body.drainTail setup = none → s.body.TeeActive setup →
    match answer with
    | .data bytes => BatchWhole setup s.body bytes crossed (s.body.translator.feed setup.fromStr setup.adapter bytes).2
    | .failed => s.body.Overflows setup [.done]
    | .finished => s.body.Overflows setup [.done] ∨ (s.body.translator.flushPartial setup.fromStr setup.adapter).2 = [] ∧
        ¬ (s.body.translator.flushPartial setup.fromStr setup.adapter).1.ReportsUsage
    | .trailers => True
    | .pending => True

instance (setup : StreamSetup) (s : Streaming) : (a : StreamStep) → Decidable (KeepsWhole setup s a)
  | .drop => inferInstanceAs (Decidable (_ → _))
  | .pass (.data _) _ => inferInstanceAs (Decidable (_ → _ → BatchWhole _ _ _ _ _))
  | .pass .failed _ => inferInstanceAs (Decidable (_ → _ → Overflows _ _ _))
  | .pass .finished _ => inferInstanceAs (Decidable (_ → _ → (_ ∨ _ ∧ _)))
  | .pass .trailers _ => isTrue fun _ _ => trivial
  | .pass .pending _ => isTrue fun _ _ => trivial

/-- Where a stream whose frames are collected can be. -/
inductive TeePhase (setup : StreamSetup) (s : Streaming) : Prop where
  | running (hrun : s.body.core.Running) (haborted : s.aborted = false) (hframes : s.body.streamTeeFrames = s.delivered)
  | ready (hended : s.body.translator.ended = true) (htail : s.body.tail = [.done]) (hcut : s.body.cutOff = false)
    (hguardrail : s.body.guardrailCutOff = false) (haborted : s.aborted = false) (hframes : s.body.streamTeeFrames = s.delivered)
  | idle (hframes : s.body.streamTeeFrames = []) (hended : s.body.translator.ended = false) (hinner : s.body.inner = false)
  | full (hended : s.body.translator.ended = true) (terminal : List ClientFrame) (htail : s.body.tail = terminal ++ [.done])
    (hover : s.body.Overflows setup [.done])

structure TeeSound (setup : StreamSetup) (s : Streaming) : Prop where
  unstored : s.body.closed = false → s.body.stored = none
  closed : s.body.closed = true → s.dropped = true ∨ s.body.tail = [] ∧ s.body.translator.ended = true
  whole : WholeOnly s
  phase : s.body.TeeActive setup → TeePhase setup s

section Step
variable {setup : StreamSetup} {s : Streaming}

private theorem core_fields {b b' : AiStreamBody} (h : b'.core = b.core) :
    b'.inner = b.inner ∧ b'.translator = b.translator ∧ b'.tail = b.tail ∧ b'.cutOff = b.cutOff ∧ b'.guardrailCutOff = b.guardrailCutOff := by
  simpa only [core,Core.mk.injEq] using h

/-- After a batch that is collected, and whose tail is not a cutoff or a usage chunk. -/
theorem phase_of_fed {s' : Streaming} (bytes : List UInt8) (crossed : Bool) (frames : List ClientFrame)
    (hrun : s.body.core.Running) (haborted : s'.aborted = false) (hframes : s.body.streamTeeFrames = s.delivered)
    (hcore : s'.body.core = (s.body.fed setup bytes crossed).core) (hcollected : s'.body.streamTeeFrames = s.body.streamTeeFrames ++ frames)
    (hdelivered : s'.delivered = s.delivered ++ frames)
    (hcrosses : (s.body.receive setup bytes).translator.ended = false → (s.body.receive setup bytes).Crosses setup crossed →
      s.body.streamTeeFrames = [] ∧ frames = [])
    (hend : (s.body.receive setup bytes).translator.ended = true →
      ¬ (s.body.receive setup bytes).translator.ReportsUsage ∨ s.body.Overflows setup (frames ++ [.done])) :
    TeePhase setup s' := by
  have hsame : s'.body.streamTeeFrames = s'.delivered := by rw [hcollected,hdelivered,hframes]
  have htail : s.body.tail = [] := hrun.tail
  cases hended : (s.body.receive setup bytes).translator.ended with
  | true =>
    have hemitted : (s.body.receive setup bytes).translator.tailEmitted = false := by
      rw [receive,StreamTranslator.tailEmitted_feed]
      exact hrun.tailEmitted
    have hfields := core_fields (hcore.trans (core_fed_of_ended setup s.body hended))
    obtain ⟨-,htranslator,htail',hcut,hguardrail⟩ := hfields
    have hended' : s'.body.translator.ended = true := by
      rw [htranslator]
      exact (isTail_finish hemitted).2
    have hfinish : (s.body.receive setup bytes).translator.finish.2 =
        (if (s.body.receive setup bytes).translator.ReportsUsage then [.usage (s.body.receive setup bytes).translator.usage] else []) ++ [.done] := by
      rw [StreamTranslator.finish,if_neg (by simp [hemitted])]
    have htail'' : s'.body.tail = (s.body.receive setup bytes).translator.finish.2 := by
      rw [htail',extendTail,receive,htail,List.nil_append]
    rcases hend hended with hnone | hover
    · refine .ready hended' ?_ (hcut.trans hrun.cutOff) (hguardrail.trans hrun.guardrailCutOff) haborted hsame
      rw [htail'',hfinish,if_neg hnone,List.nil_append]
    · refine .full hended' _ (htail''.trans hfinish) ?_
      have hstamp : s'.body.translator.stamp = s.body.translator.stamp := by
        rw [htranslator,extendTail,StreamTranslator.stamp_finish,receive,StreamTranslator.stamp_feed]
      have htext : s'.body.text setup = s.body.text setup := by
        funext f
        rw [text,text,hstamp]
      rw [Overflows,size,← List.append_assoc] at hover
      rw [Overflows,size,htext,hcollected]
      exact hover
  | false =>
    by_cases hcross : (s.body.receive setup bytes).Crosses setup crossed
    · obtain ⟨hnone,rfl⟩ := hcrosses hended hcross
      have hcore' := hcore.trans (core_fed_of_crosses setup s.body hended hcross hrun.cutOff)
      have htranslator : s'.body.translator = (s.body.receive setup bytes).translator := congrArg Core.translator hcore'
      have hinner : s'.body.inner = false := congrArg Core.inner hcore'
      refine .idle (by rw [hcollected,hnone,List.append_nil]) ?_ hinner
      rw [htranslator,hended]
    · refine .running ?_ haborted hsame
      rw [hcore,core_fed_of_running setup s.body hended hcross]
      exact ⟨hrun.inner,hended,by rw [core,receive,StreamTranslator.tailEmitted_feed]; exact hrun.tailEmitted,hrun.tail,hrun.cutOff,
        hrun.guardrailCutOff⟩

/-- What a pass that polls the provider keeps of what is collected. -/
theorem closed_stored_teeCollect (setup : StreamSetup) (b : AiStreamBody) (frames : List ClientFrame) :
    (b.teeCollect setup frames).closed = b.closed ∧ (b.teeCollect setup frames).stored = b.stored ∧
      (b.streamTeeAbandoned = true → (b.teeCollect setup frames).streamTeeAbandoned = true) := by
  rw [teeCollect]
  split
  · exact ⟨rfl,rfl,id⟩
  · split
    · exact ⟨rfl,rfl,fun _ => rfl⟩
    · exact ⟨rfl,rfl,id⟩

theorem closed_stored_onUpstream (setup : StreamSetup) (b : AiStreamBody) (crossed : Bool) (answer : Upstream) :
    (b.onUpstream setup crossed answer).1.closed = b.closed ∧ (b.onUpstream setup crossed answer).1.stored = b.stored ∧
      (b.streamTeeAbandoned = true → (b.onUpstream setup crossed answer).1.streamTeeAbandoned = true) := by
  cases answer with
  | data bytes =>
    have htee := tee_fed setup b bytes crossed
    simp only [tee,Tee.mk.injEq] at htee
    obtain ⟨-,habandoned,hclosed,hstored⟩ := htee
    rw [onUpstream]
    split
    · exact ⟨hclosed,hstored,fun h => habandoned.trans h⟩
    · have htick := tee_guardrailTick setup (b.fed setup bytes crossed) (b.translator.feed setup.fromStr setup.adapter bytes).2
      simp only [tee,Tee.mk.injEq] at htick
      obtain ⟨-,habandoned',hclosed',hstored'⟩ := htick
      have hcollect := closed_stored_teeCollect setup ((b.fed setup bytes crossed).guardrailTick setup
        (b.translator.feed setup.fromStr setup.adapter bytes).2) (b.translator.feed setup.fromStr setup.adapter bytes).2
      exact ⟨hcollect.1.trans (hclosed'.trans hclosed),hcollect.2.1.trans (hstored'.trans hstored),
        fun h => hcollect.2.2 (habandoned'.trans (habandoned.trans h))⟩
  | trailers => exact ⟨rfl,rfl,id⟩
  | failed => exact ⟨rfl,rfl,id⟩
  | finished => exact ⟨rfl,rfl,id⟩
  | pending => exact ⟨rfl,rfl,id⟩

/-- The state after a pass that polls the provider. -/
def polledState (setup : StreamSetup) (s : Streaming) (answer : Upstream) (crossed : Bool) : Streaming :=
  { s with
    body := (s.body.onUpstream setup crossed answer).1
    delivered := s.delivered ++ (s.body.onUpstream setup crossed answer).2
    aborted := s.aborted || answer = .failed }

/-- Frames collected from a polled batch. -/
theorem phase_data {bytes : List UInt8} {crossed : Bool} (hrun : s.body.core.Running) (haborted : s.aborted = false)
    (hframes : s.body.streamTeeFrames = s.delivered) (hactive : s.body.TeeActive setup)
    (hguard : BatchWhole setup s.body bytes crossed (s.body.translator.feed setup.fromStr setup.adapter bytes).2)
    (hactive' : (polledState setup s (.data bytes) crossed).body.TeeActive setup) :
    TeePhase setup (polledState setup s (.data bytes) crossed) := by
  have haborted' : (polledState setup s (.data bytes) crossed).aborted = false := by
    simp [polledState,haborted]
  have htee := tee_fed setup s.body bytes crossed
  simp only [tee,Tee.mk.injEq] at htee
  by_cases hnone : (s.body.translator.feed setup.fromStr setup.adapter bytes).2 = []
  · have hbody : s.body.onUpstream setup crossed (.data bytes) = (s.body.fed setup bytes crossed,[]) := by rw [onUpstream,if_pos hnone]
    rcases hguard with ⟨hne,-⟩ | ⟨hcrosses,-,hend⟩
    · exact absurd hnone hne
    · rw [hnone] at hcrosses hend
      apply phase_of_fed bytes crossed [] hrun haborted' hframes
      · rw [polledState,hbody]
      · rw [polledState,hbody]
        simp only [List.append_nil]
        exact htee.1
      · rw [polledState,hbody]
      · exact hcrosses
      · exact hend
  · have hbody : s.body.onUpstream setup crossed (.data bytes) =
        (((s.body.fed setup bytes crossed).guardrailTick setup (s.body.translator.feed setup.fromStr setup.adapter bytes).2).teeCollect setup
          (s.body.translator.feed setup.fromStr setup.adapter bytes).2,(s.body.translator.feed setup.fromStr setup.adapter bytes).2) := by
      rw [onUpstream,if_neg hnone]
    have htick := tee_guardrailTick setup (s.body.fed setup bytes crossed) (s.body.translator.feed setup.fromStr setup.adapter bytes).2
    have hticked : ((s.body.fed setup bytes crossed).guardrailTick setup (s.body.translator.feed setup.fromStr setup.adapter bytes).2).tee =
        s.body.tee := htick.trans (tee_fed setup s.body bytes crossed)
    have hactive'' : ((s.body.fed setup bytes crossed).guardrailTick setup
        (s.body.translator.feed setup.fromStr setup.adapter bytes).2).TeeActive setup :=
      ⟨hactive.1,(congrArg Tee.abandoned hticked).trans hactive.2.1,(congrArg Tee.closed hticked).trans hactive.2.2⟩
    have hstamp : ((s.body.fed setup bytes crossed).guardrailTick setup
        (s.body.translator.feed setup.fromStr setup.adapter bytes).2).translator.stamp = s.body.translator.stamp := by
      have hfed : (s.body.fed setup bytes crossed).translator.stamp = s.body.translator.stamp := stamp_fed setup s.body
      rw [guardrailTick]
      split
      · exact hfed
      · split
        · exact hfed
        · exact hfed
    have hfits : ¬ s.body.Overflows setup (s.body.translator.feed setup.fromStr setup.adapter bytes).2 := by
      intro hover
      have hgone := teeCollect_of_overflows hactive'' ((overflows_congr hstamp hticked).mpr hover) hnone
      rw [polledState,hbody] at hactive'
      have hkept := hactive'.2.1
      rw [hgone] at hkept
      cases hkept
    have hcollect := teeCollect_of_fits hactive'' fun hover => hfits ((overflows_congr hstamp hticked).mp hover)
    rcases hguard with ⟨-,hover⟩ | ⟨hcrosses,hmatch,hend⟩
    · exact absurd hover hfits
    · have hsame : (s.body.fed setup bytes crossed).guardrailTick setup (s.body.translator.feed setup.fromStr setup.adapter bytes).2 =
          s.body.fed setup bytes crossed := guardrailTick_of_none (by rw [guardrailMatch_fed,hmatch hnone])
      apply phase_of_fed bytes crossed (s.body.translator.feed setup.fromStr setup.adapter bytes).2 hrun haborted' hframes
      · rw [polledState,hbody]
        simp only [core_teeCollect]
        rw [hsame]
      · rw [polledState,hbody,hcollect]
        exact congrArg (· ++ _) (congrArg Tee.frames hticked)
      · rw [polledState,hbody]
      · exact hcrosses
      · exact hend

theorem phase_polled {answer : Upstream} {crossed : Bool} (hrun : s.body.core.Running) (haborted : s.aborted = false)
    (hframes : s.body.streamTeeFrames = s.delivered) (hactive : s.body.TeeActive setup) (hdrain : s.body.drainTail setup = none)
    (hguard : KeepsWhole setup s (.pass answer crossed)) (hactive' : (polledState setup s answer crossed).body.TeeActive setup) :
    TeePhase setup (polledState setup s answer crossed) := by
  have hwhole := hguard hdrain hactive
  have htail : s.body.tail = [] := hrun.tail
  cases answer with
  | data bytes => exact phase_data hrun haborted hframes hactive hwhole hactive'
  | trailers =>
    refine .running hrun ?_ ?_
    · simp [polledState,haborted]
    · simpa [polledState,onUpstream] using hframes
  | pending =>
    refine .running hrun ?_ ?_
    · simp [polledState,haborted]
    · simpa [polledState,onUpstream] using hframes
  | failed =>
    refine .full rfl [.aborted "the model provider closed the stream"] ?_ ?_
    · simp only [polledState,onUpstream,StreamTranslator.abortTail,htail]
      rfl
    · exact (overflows_congr (b := s.body) rfl rfl).mpr hwhole
  | finished =>
    have hemitted : (s.body.translator.flushPartial setup.fromStr setup.adapter).1.tailEmitted = false := by
      rw [StreamTranslator.tailEmitted_flushPartial]
      exact hrun.tailEmitted
    have hended := (isTail_finish hemitted).2
    have hfinish : (s.body.translator.flushPartial setup.fromStr setup.adapter).1.finish.2 =
        (if (s.body.translator.flushPartial setup.fromStr setup.adapter).1.ReportsUsage then
          [.usage (s.body.translator.flushPartial setup.fromStr setup.adapter).1.usage] else []) ++ [.done] := by
      rw [StreamTranslator.finish,if_neg (by simp [hemitted])]
    have htail' : (polledState setup s .finished crossed).body.tail =
        (s.body.translator.flushPartial setup.fromStr setup.adapter).1.finish.2 := by
      simp only [polledState,onUpstream,extendTail,htail,List.nil_append]
    rcases hwhole with hover | ⟨hnone,husage⟩
    · have hstamp : (polledState setup s .finished crossed).body.translator.stamp = s.body.translator.stamp := by
        simp only [polledState,onUpstream,extendTail,StreamTranslator.stamp_finish,StreamTranslator.stamp_flushPartial]
      have htee : (polledState setup s .finished crossed).body.tee = s.body.tee := rfl
      exact .full hended _ (htail'.trans hfinish) ((overflows_congr hstamp htee).mpr hover)
    · refine .ready hended ?_ hrun.cutOff hrun.guardrailCutOff ?_ ?_
      · rw [htail',hfinish,if_neg husage,List.nil_append]
      · simp [polledState,haborted]
      · simpa [polledState,onUpstream,extendTail,hnone] using hframes

/-- The last frame of the tail closes the stream. -/
theorem teeSound_last {f : ClientFrame} (h : TeeSound setup s) (hopen : s.body.closed = false) (htail : s.body.tail = [f])
    (hended : s.body.translator.ended = true) :
    TeeSound setup { s with
      body := (({ s.body with tail := [] } : AiStreamBody).teeCollect setup [f]).close setup
      delivered := s.delivered ++ [f] } := by
  have hcore : ((({ s.body with tail := [] } : AiStreamBody).teeCollect setup [f]).close setup).core = { s.body.core with tail := [] } := by
    rw [core_close,core_teeCollect]
    rfl
  simp only [core,Core.mk.injEq] at hcore
  obtain ⟨-,htranslator,htail',hcut,hguardrail⟩ := hcore
  have hclosed : ((({ s.body with tail := [] } : AiStreamBody).teeCollect setup [f]).close setup).closed = true := tee_close_closed
  have hunstored := h.unstored hopen
  refine ⟨fun hopen' => ?_,fun _ => .inr ⟨htail',by rw [htranslator,hended]⟩,?_,fun hactive => ?_⟩
  · rw [hclosed] at hopen'
    cases hopen'
  · intro frames hstored
    by_cases hactive : s.body.TeeActive setup
    · have hactive' : ({ s.body with tail := [] } : AiStreamBody).TeeActive setup := hactive
      by_cases hover : s.body.Overflows setup [f]
      · have hgone := teeCollect_of_overflows (b := { s.body with tail := [] }) hactive hover (List.cons_ne_nil f [])
        rw [hgone,stored_close_of_not (.inr (.inr rfl))] at hstored
        rw [hunstored] at hstored
        cases hstored
      · have hcollect := teeCollect_of_fits (b := { s.body with tail := [] }) hactive hover
        have hkept : ({ s.body with tail := [],streamTeeFrames := s.body.streamTeeFrames ++ [f] } : AiStreamBody).TeeActive setup := hactive
        have hne : ({ s.body with tail := [],streamTeeFrames := s.body.streamTeeFrames ++ [f] } : AiStreamBody).streamTeeFrames ≠ [] :=
          List.concat_ne_nil _ _
        rw [hcollect,stored_close_of_collected hkept hne] at hstored
        obtain rfl := Option.some.inj hstored
        cases h.phase hactive with
        | running hrun =>
          have hempty : s.body.tail = [] := hrun.tail
          rw [htail] at hempty
          cases hempty
        | idle _ hunended =>
          rw [hended] at hunended
          cases hunended
        | ready _ hready hcutOff hguardrailCutOff haborted hframes =>
          rw [htail] at hready
          obtain rfl : f = .done := (List.cons.inj hready).1
          refine ⟨by rw [htranslator,hended],haborted,by rw [hcut]; exact hcutOff,by rw [hguardrail]; exact hguardrailCutOff,?_,?_⟩
          · simp only [hframes]
          · exact List.getLast?_concat
        | full _ terminal hfull hover' =>
          rw [htail] at hfull
          cases terminal with
          | nil =>
            obtain rfl : f = .done := (List.cons.inj hfull).1
            exact absurd hover' hover
          | cons g terminal =>
            have hlen := congrArg List.length hfull
            simp at hlen
    · have hnot : ¬ (setup.streamTeeCache = true ∧ s.body.streamTeeAbandoned = false) := fun hboth => hactive ⟨hboth.1,hboth.2,hopen⟩
      rw [teeCollect_of_not_collecting (b := { s.body with tail := [] }) hnot,
        stored_close_of_not (b := { s.body with tail := [] }) (.inr (.inl hnot))] at hstored
      rw [hunstored] at hstored
      cases hstored
  · have hopen' := hactive.2.2
    simp only [hclosed] at hopen'
    cases hopen'

theorem teeSound_step {a : StreamStep} {s' : Streaming} (h : TeeSound setup s) (hguard : KeepsWhole setup s a)
    (hs : s.step setup a = some s') : TeeSound setup s' := by
  cases a with
  | drop =>
    rw [Streaming.step] at hs
    split at hs
    case isTrue => cases hs
    case isFalse hdropped =>
      obtain rfl := Option.some.inj hs
      have hcore := core_close setup s.body
      simp only [core,Core.mk.injEq] at hcore
      obtain ⟨-,htranslator,-,hcut,hguardrail⟩ := hcore
      have hclosed : (s.body.close setup).closed = true := tee_close_closed
      have hstored : (s.body.close setup).stored = s.body.stored := by
        apply stored_close_of_not
        by_cases hopen : s.body.closed = true
        · exact .inl hopen
        · by_cases hboth : setup.streamTeeCache = true ∧ s.body.streamTeeAbandoned = false
          · exact .inr (.inr (hguard ⟨hboth.1,hboth.2,by simpa using hopen⟩))
          · exact .inr (.inl hboth)
      refine ⟨fun hopen => ?_,fun _ => .inl rfl,?_,fun hactive => ?_⟩
      · rw [hclosed] at hopen
        cases hopen
      · intro frames hframes
        have hwhole := h.whole frames (hstored.symm.trans hframes)
        simp only [htranslator,hcut,hguardrail]
        exact hwhole
      · have hopen := hactive.2.2
        simp only [hclosed] at hopen
        cases hopen
  | pass answer crossed =>
    rw [Streaming.step] at hs
    split at hs
    case isTrue => cases hs
    case isFalse hdropped =>
      rcases drainTail_cases setup s.body with ⟨b,f,hdrain,htail,-⟩ | ⟨hdrain,-,-⟩ | ⟨hdrain,-,hrunning⟩
      · rw [hdrain] at hs
        obtain rfl := Option.some.inj hs
        have hopen : s.body.closed = false := by
          cases hclosed : s.body.closed with
          | false => rfl
          | true =>
            rcases h.closed hclosed with hgone | ⟨hempty,-⟩
            · exact absurd hgone hdropped
            · rw [hempty] at htail
              cases htail
        rw [drainTail,htail] at hdrain
        simp only at hdrain
        split at hdrain
        case isTrue hlast =>
          obtain ⟨hbody,-⟩ := Prod.mk.inj (Option.some.inj hdrain)
          rw [hlast.1] at htail hbody
          rw [← hbody]
          exact teeSound_last h hopen htail hlast.2
        case isFalse hmore =>
          obtain ⟨hbody,-⟩ := Prod.mk.inj (Option.some.inj hdrain)
          rw [← hbody]
          refine ⟨fun _ => h.unstored hopen,fun hclosed => ?_,fun frames hframes => ?_,fun hactive => ?_⟩
          · rw [show s.body.closed = true from hclosed] at hopen
            cases hopen
          · have hnone := h.unstored hopen
            rw [show s.body.stored = some frames from hframes] at hnone
            cases hnone
          · cases h.phase hactive with
            | running hrun =>
              have hempty : s.body.tail = [] := hrun.tail
              rw [hempty] at htail
              cases htail
            | ready hended hready =>
              rw [hready] at htail
              exact absurd ⟨(List.cons.inj htail).2.symm,hended⟩ hmore
            | idle hframes hended hinner => exact .idle hframes hended hinner
            | full hended terminal hfull hover =>
              rw [hfull] at htail
              cases terminal with
              | nil => exact absurd ⟨(List.cons.inj htail).2.symm,hended⟩ hmore
              | cons g terminal => exact .full hended terminal (List.cons.inj htail).2.symm hover
      · rw [hdrain] at hs
        obtain rfl := Option.some.inj hs
        exact ⟨h.unstored,h.closed,h.whole,fun hactive => by
          cases h.phase hactive with
          | running hrun haborted hframes => exact .running hrun haborted hframes
          | ready hended htail hcut hguardrail haborted hframes => exact .ready hended htail hcut hguardrail haborted hframes
          | idle hframes hended hinner => exact .idle hframes hended hinner
          | full hended terminal htail hover => exact .full hended terminal htail hover⟩
      · rw [hdrain] at hs
        obtain rfl := Option.some.inj hs
        have hopen : s.body.closed = false := by
          cases hclosed : s.body.closed with
          | false => rfl
          | true =>
            rcases h.closed hclosed with hgone | ⟨-,hended⟩
            · exact absurd hgone hdropped
            · exact absurd (.inl hended) hrunning
        obtain ⟨hclosed',hstored',habandoned'⟩ := closed_stored_onUpstream setup s.body crossed answer
        have hnone := h.unstored hopen
        refine ⟨fun _ => hstored'.trans hnone,fun hclosed => ?_,fun frames hframes => ?_,fun hactive => ?_⟩
        · rw [show s.body.closed = true from hclosed'.symm.trans hclosed] at hopen
          cases hopen
        · rw [show s.body.stored = some frames from hstored'.symm.trans hframes] at hnone
          cases hnone
        · have hbefore : s.body.TeeActive setup := by
            refine ⟨hactive.1,?_,hopen⟩
            cases habandoned : s.body.streamTeeAbandoned with
            | false => rfl
            | true =>
              have hgone := habandoned' habandoned
              rw [hactive.2.1] at hgone
              cases hgone
          cases h.phase hbefore with
          | running hrun haborted hframes => exact phase_polled hrun haborted hframes hbefore hdrain hguard hactive
          | ready hended => exact absurd (.inl hended) hrunning
          | idle _ _ hinner => exact absurd (.inr hinner) hrunning
          | full hended => exact absurd (.inl hended) hrunning

/-- Over any answers of the provider and the window, and a drop at any time, only a whole
answer is stored: when nothing that the collected frames leave out, or should not hold, comes
before the end. -/
theorem only_whole_stored (setup : StreamSetup) (stamp : ChunkStamp) {steps : List StreamStep} {s : Streaming}
    (hguard : (streaming setup stamp).Along (KeepsWhole setup) steps) (hrun : (streaming setup stamp).run steps = some s) : WholeOnly s := by
  have hstart : TeeSound setup (Streaming.start stamp) := by
    refine ⟨fun _ => rfl,(fun hclosed => by cases hclosed),(fun frames hframes => by cases hframes),fun _ => ?_⟩
    exact .running ⟨rfl,rfl,rfl,rfl,rfl,rfl⟩ rfl rfl
  have hsound : TeeSound setup s := System.guarded_inv (TeeSound setup) hstart (fun _ _ _ h hg hs => teeSound_step h hg hs) hguard hrun
  exact hsound.whole

end Step

section Example

/-- A whole stream of two deltas is stored as it was delivered. -/
theorem only_whole_stored_plain : ∃ s, (streaming (streamSetup []) ⟨"id","m",0⟩).run twoWords = some s ∧
    s.body.stored = some [.delta (wordDelta "hello"),.delta (wordDelta "world"),.done] ∧ WholeOnly s := by
  have hstored : ((streaming (streamSetup []) ⟨"id","m",0⟩).run twoWords).map (·.body.stored) =
      some (some [.delta (wordDelta "hello"),.delta (wordDelta "world"),.done]) := by decide +kernel
  obtain ⟨s,hs,hstored⟩ := Option.map_eq_some_iff.mp hstored
  have hguard : (streaming (streamSetup []) ⟨"id","m",0⟩).Along (KeepsWhole (streamSetup [])) twoWords :=
    System.along_of_alongFrom (by decide +kernel)
  exact ⟨s,hs,hstored,only_whole_stored _ _ hguard hs⟩

/-- A client that leaves after the first delta, and a provider that fails after it, leave the
part they got as an answer. -/
theorem part_stored :
    (∃ s, (streaming (streamSetup []) ⟨"id","m",0⟩).run [polled hello,.drop] = some s ∧
      s.body.stored = some [.delta (wordDelta "hello")] ∧ ¬ WholeOnly s) ∧
    ∃ s, (streaming (streamSetup []) ⟨"id","m",0⟩).run [polled hello,.pass .failed false,polled [],polled []] = some s ∧
      s.body.stored = some [.delta (wordDelta "hello"),.done] ∧ ¬ WholeOnly s := by
  constructor
  · have hstored : ((streaming (streamSetup []) ⟨"id","m",0⟩).run [polled hello,.drop]).map
        (fun s => (s.body.stored,s.body.translator.ended)) = some (some [.delta (wordDelta "hello")],false) := by decide +kernel
    obtain ⟨s,hs,hseen⟩ := Option.map_eq_some_iff.mp hstored
    obtain ⟨hstored,hended⟩ := Prod.mk.inj hseen
    refine ⟨s,hs,hstored,fun hwhole => ?_⟩
    have hclean := (hwhole _ hstored).1
    rw [hended] at hclean
    cases hclean
  · have hstored : ((streaming (streamSetup []) ⟨"id","m",0⟩).run [polled hello,.pass .failed false,polled [],polled []]).map
        (fun s => (s.body.stored,s.aborted)) = some (some [.delta (wordDelta "hello"),.done],true) := by decide +kernel
    obtain ⟨s,hs,hseen⟩ := Option.map_eq_some_iff.mp hstored
    obtain ⟨hstored,haborted⟩ := Prod.mk.inj hseen
    refine ⟨s,hs,hstored,fun hwhole => ?_⟩
    have hclean := (hwhole _ hstored).2.1
    rw [haborted] at hclean
    cases hclean

end Example

end Dwara.Ai
