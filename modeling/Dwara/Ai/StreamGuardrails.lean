import Dwara.Ai.StreamShape

/-! Banned-content rules on a stream: each batch is checked as it is printed. -/

namespace Dwara.Ai
open Dwara.Lib AiStreamBody

/-- The text the rules see of a batch. -/
def batchText (setup : StreamSetup) (b : AiStreamBody) (frames : List ClientFrame) : String :=
  setup.guardrails.redactStreamChunk (b.joined setup frames)

/-- The frames of a batch polled from the provider; none when nothing is polled. -/
def batchOf (setup : StreamSetup) (s : Streaming) : StreamStep → List ClientFrame
  | .pass (.data bytes) _ =>
    if s.dropped = true ∨ (s.body.drainTail setup).isSome then [] else (s.body.translator.feed setup.fromStr setup.adapter bytes).2
  | _ => []

/-- A whole answer of this text is blocked by a banned-content rule. -/
def BlocksBanned (setup : StreamSetup) (chain : PolicyChain) (text : String) : Prop :=
  ∃ rule, setup.guardrails.blockingRule setup.fromStr chain text = some rule ∧ rule.kind = .banned

/-- A banned-content rule of the response phase matches the text. -/
def MatchesBanned (engine : GuardrailEngine) (text : String) : Prop :=
  ∃ rule ∈ engine.rules, rule.onResponse = true ∧ rule.kind = .banned ∧ rule.isMatch text = true

theorem isSome_checkStreamChunk_iff (engine : GuardrailEngine) (text : String) :
    (engine.checkStreamChunk text).isSome ↔ MatchesBanned engine text := by
  rw [GuardrailEngine.checkStreamChunk,Option.isSome_map,List.find?_isSome,MatchesBanned]
  simp [and_assoc]

/-- A rule that blocks a whole answer of a text matches the text as a chunk. -/
theorem BlocksBanned.matchesBanned {setup : StreamSetup} {chain : PolicyChain} {text : String} (h : BlocksBanned setup chain text) :
    MatchesBanned setup.guardrails text := by
  obtain ⟨rule,hrule,hkind⟩ := h
  rw [GuardrailEngine.blockingRule] at hrule
  have hmem := List.mem_of_find?_eq_some hrule
  have hfound := List.find?_some hrule
  simp only [Bool.and_eq_true,CompiledRule.matchesResponse,hkind] at hfound
  exact ⟨rule,hmem,hfound.1.1.1,hkind,hfound.1.2⟩

/-- The first cut is final: what is in the tail is the rest. -/
structure CutFinal (s : Streaming) : Prop where
  ending : s.body.guardrailCutOff = true → s.body.core.Ending

section Step
variable {setup : StreamSetup} {s s' : Streaming} {a : StreamStep}

private theorem core_eq {b b' : AiStreamBody} (h : b'.core = b.core) :
    b'.inner = b.inner ∧ b'.translator = b.translator ∧ b'.tail = b.tail ∧ b'.guardrailCutOff = b.guardrailCutOff := by
  simp only [core,Core.mk.injEq] at h
  exact ⟨h.1,h.2.1,h.2.2.1,h.2.2.2.2⟩

theorem guardrailCutOff_fed (setup : StreamSetup) (b : AiStreamBody) (bytes : List UInt8) (crossed : Bool) :
    (b.fed setup bytes crossed).guardrailCutOff = b.guardrailCutOff := by
  have htick : ((b.receive setup bytes).budgetTick setup crossed).guardrailCutOff = b.guardrailCutOff := by
    have hspent := (core_eq (core_budgetSpendDelta setup (b.receive setup bytes))).2.2.2
    rw [budgetTick]
    split
    · exact hspent
    · exact hspent
  rw [fed]
  split
  · exact htick
  · exact htick

/-- Once the provider is not polled, what is delivered and the tail stay the same together. -/
theorem delivered_of_ending (hending : s.body.core.Ending) (hs : s.step setup a = some s') :
    s'.body.core.Ending ∧ s'.delivered ++ s'.body.tail = s.delivered ++ s.body.tail ∧
      s'.body.guardrailCutOff = s.body.guardrailCutOff := by
  cases a with
  | drop =>
    rw [Streaming.step] at hs
    split at hs
    case isTrue => cases hs
    case isFalse =>
      obtain rfl := Option.some.inj hs
      obtain ⟨-,-,htail,hcut⟩ := core_eq (core_close setup s.body)
      refine ⟨?_,?_,hcut⟩
      · rw [core_close]
        exact hending
      · rw [htail]
  | pass answer crossed =>
    rw [Streaming.step] at hs
    split at hs
    case isTrue => cases hs
    case isFalse =>
      rcases drainTail_cases setup s.body with ⟨b,f,hdrain,htail,hcore⟩ | ⟨hdrain,-,-⟩ | ⟨-,-,hrunning⟩
      · rw [hdrain] at hs
        obtain rfl := Option.some.inj hs
        simp only [core,Core.mk.injEq] at hcore
        obtain ⟨hinner,htranslator,-,-,hcut⟩ := hcore
        refine ⟨?_,?_,hcut⟩
        · simp only [Core.Ending,core,hinner,htranslator]
          exact hending
        · rw [htail]
          simp
      · rw [hdrain] at hs
        obtain rfl := Option.some.inj hs
        exact ⟨hending,rfl,rfl⟩
      · exact absurd hending hrunning

/-- What a polled answer does to the cut: it fires on a batch that a rule matches. -/
theorem guardrailCutOff_onUpstream (answer : Upstream) (crossed : Bool) (hoff : s.body.guardrailCutOff = false)
    (hdropped : s.dropped = false) (hdrain : s.body.drainTail setup = none) :
    ((s.body.onUpstream setup crossed answer).1.guardrailCutOff = true ↔
      batchOf setup s (.pass answer crossed) ≠ [] ∧
        MatchesBanned setup.guardrails (batchText setup s.body (batchOf setup s (.pass answer crossed)))) ∧
    ((s.body.onUpstream setup crossed answer).1.guardrailCutOff = true → (s.body.onUpstream setup crossed answer).1.core.Ending) := by
  cases answer with
  | data bytes =>
    have hbatch : batchOf setup s (.pass (.data bytes) crossed) = (s.body.translator.feed setup.fromStr setup.adapter bytes).2 := by
      rw [batchOf,if_neg (by simp [hdropped,hdrain])]
    have hfed := guardrailCutOff_fed setup s.body bytes crossed
    rw [hbatch,onUpstream]
    split
    case isTrue hnone =>
      simp [hnone,hfed,hoff]
    case isFalse hsome =>
      obtain ⟨-,-,-,hcut⟩ := core_eq (core_teeCollect setup ((s.body.fed setup bytes crossed).guardrailTick setup
        (s.body.translator.feed setup.fromStr setup.adapter bytes).2) (s.body.translator.feed setup.fromStr setup.adapter bytes).2)
      simp only [hcut,core_teeCollect]
      rw [batchText,← isSome_checkStreamChunk_iff,← guardrailMatch.eq_def]
      cases hmatch : (s.body.guardrailMatch setup (s.body.translator.feed setup.fromStr setup.adapter bytes).2).isSome with
      | false =>
        rw [guardrailTick_of_none (by rw [guardrailMatch_fed,hmatch]),hfed,hoff]
        simp
      | true =>
        have hfired := tail_guardrailTick_of_some (hfed.trans hoff) (by rw [guardrailMatch_fed,hmatch])
        have hset : ((s.body.fed setup bytes crossed).guardrailTick setup
            (s.body.translator.feed setup.fromStr setup.adapter bytes).2).guardrailCutOff = true := by
          obtain ⟨name,hname⟩ := Option.isSome_iff_exists.mp hmatch
          rw [guardrailTick,if_neg (by simp [hfed,hoff]),guardrailMatch_fed,hname]
        exact ⟨⟨fun _ => ⟨hsome,rfl⟩,fun _ => hset⟩,fun _ => hfired.2⟩
  | trailers => simp [onUpstream,batchOf,hoff]
  | failed => simp [onUpstream,batchOf,hoff]
  | finished => simp [onUpstream,batchOf,hoff,extendTail]
  | pending => simp [onUpstream,batchOf,hoff]

theorem batchOf_of_drainTail {answer : Upstream} {crossed : Bool} (h : (s.body.drainTail setup).isSome) :
    batchOf setup s (.pass answer crossed) = [] := by
  cases answer with
  | data bytes => rw [batchOf,if_pos (.inr h)]
  | trailers => rfl
  | failed => rfl
  | finished => rfl
  | pending => rfl

/-- A step turns the cut on just when a rule matches its batch. -/
theorem guardrailCutOff_step (h : CutFinal s) (hs : s.step setup a = some s') :
    (s'.body.guardrailCutOff = true ↔ s.body.guardrailCutOff = true ∨
      batchOf setup s a ≠ [] ∧ MatchesBanned setup.guardrails (batchText setup s.body (batchOf setup s a))) ∧ CutFinal s' := by
  cases hcut : s.body.guardrailCutOff with
  | true =>
    obtain ⟨hending,-,hkept⟩ := delivered_of_ending (h.ending hcut) hs
    rw [hkept,hcut]
    exact ⟨⟨fun _ => .inl rfl,fun _ => rfl⟩,⟨fun _ => hending⟩⟩
  | false =>
    cases a with
    | drop =>
      rw [Streaming.step] at hs
      split at hs
      case isTrue => cases hs
      case isFalse =>
        obtain rfl := Option.some.inj hs
        obtain ⟨-,-,-,hkept⟩ := core_eq (core_close setup s.body)
        refine ⟨?_,⟨fun hon => ?_⟩⟩
        · simp [hkept,hcut,batchOf]
        · rw [show (s.body.close setup).guardrailCutOff = false from hkept.trans hcut] at hon
          cases hon
    | pass answer crossed =>
      rw [Streaming.step] at hs
      split at hs
      case isTrue => cases hs
      case isFalse hdropped =>
        rw [Bool.not_eq_true] at hdropped
        rcases drainTail_cases setup s.body with ⟨b,f,hdrain,-,hcore⟩ | ⟨hdrain,-,-⟩ | ⟨hdrain,-,-⟩
        · rw [batchOf_of_drainTail (by rw [hdrain]; rfl)]
          rw [hdrain] at hs
          obtain rfl := Option.some.inj hs
          have hkept : b.guardrailCutOff = s.body.guardrailCutOff := congrArg Core.guardrailCutOff hcore
          refine ⟨?_,⟨fun hon => ?_⟩⟩
          · simp [hkept,hcut]
          · rw [show b.guardrailCutOff = false from hkept.trans hcut] at hon
            cases hon
        · rw [batchOf_of_drainTail (by rw [hdrain]; rfl)]
          rw [hdrain] at hs
          obtain rfl := Option.some.inj hs
          refine ⟨?_,⟨fun hon => ?_⟩⟩
          · simp [hcut]
          · rw [show s.body.guardrailCutOff = true from hon] at hcut
            cases hcut
        · rw [hdrain] at hs
          obtain rfl := Option.some.inj hs
          obtain ⟨hiff,hending⟩ := guardrailCutOff_onUpstream answer crossed hcut hdropped hdrain
          exact ⟨by simpa using hiff,⟨hending⟩⟩

end Step

theorem cutFinal_run {setup : StreamSetup} {stamp : ChunkStamp} {steps : List StreamStep} {s : Streaming}
    (hrun : (streaming setup stamp).run steps = some s) : CutFinal s :=
  System.run_inv CutFinal ⟨fun hon => by cases hon⟩ (fun _ _ _ h hs => (guardrailCutOff_step h hs).2) hrun

theorem ending_foldlM {setup : StreamSetup} {s s' : Streaming} {more : List StreamStep} (hending : s.body.core.Ending)
    (hmore : more.foldlM (Streaming.step setup) s = some s') : s'.delivered ++ s'.body.tail = s.delivered ++ s.body.tail := by
  induction more generalizing s with
  | nil =>
    obtain rfl := Option.some.inj hmore
    rfl
  | cons a more ih =>
    obtain ⟨r,hr,hmore⟩ := Option.bind_eq_some_iff.mp hmore
    obtain ⟨hending',hsame,-⟩ := delivered_of_ending hending hr
    rw [ih hending' hmore,hsame]

/-- In every run a batch whose printed text, redacted, would block a whole answer by a
banned-content rule of the chain cuts the stream; the stream is cut only at a batch that a
banned-content rule of the response phase matches; and after the cut the client gets what the
tail holds and nothing else. -/
theorem stream_cut (setup : StreamSetup) (stamp : ChunkStamp) (chain : PolicyChain) {steps : List StreamStep} {s : Streaming}
    (hrun : (streaming setup stamp).run steps = some s) :
    (∀ a s', s.step setup a = some s' → batchOf setup s a ≠ [] →
      BlocksBanned setup chain (batchText setup s.body (batchOf setup s a)) → s'.body.guardrailCutOff = true) ∧
    (s.body.guardrailCutOff = true → ∃ pre a post r, steps = pre ++ a :: post ∧ (streaming setup stamp).run pre = some r ∧
      batchOf setup r a ≠ [] ∧ MatchesBanned setup.guardrails (batchText setup r.body (batchOf setup r a))) ∧
    (s.body.guardrailCutOff = true → ∀ (more : List StreamStep) (s' : Streaming), more.foldlM (Streaming.step setup) s = some s' →
      s'.delivered <+: s.delivered ++ s.body.tail) := by
  refine ⟨?_,?_,?_⟩
  · intro a s' hs hne hblocks
    exact (guardrailCutOff_step (cutFinal_run hrun) hs).1.mpr (.inr ⟨hne,hblocks.matchesBanned⟩)
  · intro hon
    induction steps using List.reverseRecOn generalizing s with
    | nil =>
      obtain rfl := Option.some.inj hrun
      cases hon
    | append_singleton steps a ih =>
      obtain ⟨r,hr,hs⟩ := (System.run_concat_eq_some _).mp hrun
      rcases (guardrailCutOff_step (cutFinal_run hr) hs).1.mp hon with hbefore | ⟨hne,hmatches⟩
      · obtain ⟨pre,b,post,r',heq,hr',hmatch⟩ := ih hr hbefore
        exact ⟨pre,b,post ++ [a],r',by simp [heq],hr',hmatch⟩
      · exact ⟨steps,a,[],r,rfl,hr,hne,hmatches⟩
  · intro hon more s' hmore
    have hsame := ending_foldlM ((cutFinal_run hrun).ending hon) hmore
    rw [← hsame]
    exact List.prefix_append _ _

section Example

private def globalChain : PolicyChain := ⟨[],[],[],[],["base"]⟩

/-- A stream whose first batch has the banned word. -/
theorem stream_cut_world : ∃ s s', (streaming (streamSetup [worldRule]) ⟨"id","m",0⟩).run [] = some s ∧
    s.step (streamSetup [worldRule]) (polled world) = some s' ∧ s'.body.guardrailCutOff = true := by
  have hblocks : BlocksBanned (streamSetup [worldRule]) globalChain
      (batchText (streamSetup [worldRule]) (AiStreamBody.new ⟨"id","m",0⟩)
        (batchOf (streamSetup [worldRule]) (Streaming.start ⟨"id","m",0⟩) (polled world))) := by
    refine ⟨worldRule,?_,rfl⟩
    rw [GuardrailEngine.blockingRule]
    exact List.find?_cons_of_pos (by decide +kernel)
  have hne : batchOf (streamSetup [worldRule]) (Streaming.start ⟨"id","m",0⟩) (polled world) ≠ [] := by decide +kernel
  have hrun : (streaming (streamSetup [worldRule]) ⟨"id","m",0⟩).run [] = some (Streaming.start ⟨"id","m",0⟩) := rfl
  exact ⟨_,_,hrun,rfl,(stream_cut (streamSetup [worldRule]) ⟨"id","m",0⟩ globalChain hrun).1 _ _ rfl hne hblocks⟩

/-- A rule on a phrase of two words. -/
private def phraseRule : CompiledRule :=
  ⟨"phrases",.banned,.block,.response,[fun s => (Text.splitOnceAt "helloworld".toList s.toList).isSome],none,id,none,[]⟩

/-- A banned phrase in two deltas: the whole answer is blocked, the stream is not cut. -/
theorem split_phrase_passes : BlocksBanned (streamSetup [phraseRule]) globalChain "helloworld" ∧
    ∃ s, (streaming (streamSetup [phraseRule]) ⟨"id","m",0⟩).run twoWords = some s ∧ s.isOver = true ∧
      s.delivered = [.delta (wordDelta "hello"),.delta (wordDelta "world"),.done] ∧ s.body.guardrailCutOff = false := by
  constructor
  · exact ⟨phraseRule,List.find?_cons_of_pos (by decide +kernel),rfl⟩
  · have hseen : ((streaming (streamSetup [phraseRule]) ⟨"id","m",0⟩).run twoWords).map
        (fun s => (s.isOver,s.delivered,s.body.guardrailCutOff)) =
          some (true,[.delta (wordDelta "hello"),.delta (wordDelta "world"),.done],false) := by decide +kernel
    obtain ⟨s,hs,hseen⟩ := Option.map_eq_some_iff.mp hseen
    simp only [Prod.mk.injEq] at hseen
    exact ⟨s,hs,hseen⟩

end Example

end Dwara.Ai
