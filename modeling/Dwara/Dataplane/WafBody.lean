import Dwara.Dataplane.Waf

/-! The body the filter hands on, as it is kept: what was inspected, what is left of the last frame
and what is still to be read. -/

namespace Dwara.Dataplane.Waf
open Dwara.Lib Dwara.Lib.BodyStream

section Polled
variable {ε β : Type} (into : ε → β)

/-- A body in memory is one frame, or none if it is empty. -/
structure FullBody where
  data : Option Bytes
  ne_nil : some [] ≠ data

theorem some_nil_ne_none : some ([] : Bytes) ≠ none := by simp

theorem some_nil_ne_new (bytes : Bytes) : some [] ≠ if bytes = [] then none else some bytes := by
  split_ifs with h
  · simp
  · simpa using Ne.symm h

def FullBody.new (bytes : Bytes) : FullBody := ⟨if bytes = [] then none else some bytes,some_nil_ne_new bytes⟩

def FullBody.pollFrame (b : FullBody) : Option Frame × FullBody := (b.data.map Frame.data,⟨none,some_nil_ne_none⟩)

/-- What is left of a frame, and the body behind it. -/
structure PrefixedBody (ε : Type) where
  unconsumed : Option Bytes
  rest : Body ε

/-- The frame is taken on the first poll; nothing left of it is no frame. -/
def PrefixedBody.pollFrame (b : PrefixedBody ε) : Option (Except β Frame) × PrefixedBody ε :=
  let polled := (b.rest.mapError into).poll.1
  match b.unconsumed with
  | some bytes => if bytes = [] then (polled,⟨none,b.rest.poll.2⟩) else (some (.ok (.data bytes)),⟨none,b.rest⟩)
  | none => (polled,⟨none,b.rest.poll.2⟩)

/-- What is still to be read: the body as it is, or behind the rest of a frame. -/
inductive Remaining (ε : Type) where
  | mapErr (body : Body ε)
  | prefixed (body : PrefixedBody ε)

def Remaining.pollFrame : Remaining ε → Option (Except β Frame) × Remaining ε
  | .mapErr body => ((body.mapError into).poll.1,.mapErr body.poll.2)
  | .prefixed body => ((body.pollFrame into).1,.prefixed (body.pollFrame into).2)

/-- The body that is handed on: all of it in memory, or what was inspected and what remains. -/
inductive WafBody (ε : Type) where
  | full (body : FullBody)
  | cut (inspected : Bytes) (rest : Remaining ε)

def WafBody.pollFrame : WafBody ε → Option (Except β Frame) × WafBody ε
  | .full body => (body.pollFrame.1.map Except.ok,.full body.pollFrame.2)
  | .cut inspected rest =>
    if inspected ≠ [] then (some (.ok (.data inspected)),.cut [] rest)
    else ((rest.pollFrame into).1,.cut [] (rest.pollFrame into).2)

/-- What the polls of it answer, one after the other. -/
def PrefixedBody.stream (b : PrefixedBody ε) : Body β := Body.prepend (b.unconsumed.getD []) (b.rest.mapError into)

def Remaining.stream : Remaining ε → Body β
  | .mapErr body => body.mapError into
  | .prefixed body => body.stream into

def WafBody.stream : WafBody ε → Body β
  | .full body => Body.full (body.data.getD [])
  | .cut inspected rest => Body.prepend inspected (rest.stream into)

/-- What is left in memory of the frame that was read last. -/
def WafBody.unconsumed : WafBody ε → Bytes
  | .full _ => []
  | .cut _ (.mapErr _) => []
  | .cut _ (.prefixed body) => body.unconsumed.getD []

def WafBody.inspected : WafBody ε → Bytes
  | .full body => body.data.getD []
  | .cut inspected _ => inspected

variable {into}

theorem poll_mapError (body : Body ε) : (body.mapError into).poll.2 = body.poll.2.mapError into := by cases body <;> rfl

theorem FullBody.pollFrame_stream (b : FullBody) :
    (b.pollFrame.1.map Except.ok,(Body.full (b.pollFrame.2.data.getD []) : Body β)) = (Body.full (b.data.getD [])).poll := by
  obtain ⟨data,hne⟩ := b
  cases data with
  | none => rfl
  | some bytes =>
    have hbytes : bytes ≠ [] := fun h => hne (by rw [h])
    simp [FullBody.pollFrame,Body.full,Body.prepend,hbytes,Body.poll]

theorem PrefixedBody.pollFrame_stream (b : PrefixedBody ε) :
    ((b.pollFrame into).1,(b.pollFrame into).2.stream into) = (b.stream into).poll := by
  obtain ⟨unconsumed,rest⟩ := b
  have hrest : ((rest.mapError into).poll.1,(⟨none,rest.poll.2⟩ : PrefixedBody ε).stream into) = (rest.mapError into).poll := by
    rw [PrefixedBody.stream]
    simp [Body.prepend,← poll_mapError]
  cases unconsumed with
  | none => exact hrest
  | some bytes =>
    by_cases hbytes : bytes = []
    · subst hbytes
      exact hrest
    · simp [PrefixedBody.pollFrame,PrefixedBody.stream,Body.prepend,hbytes,Body.poll]

theorem Remaining.pollFrame_stream (r : Remaining ε) :
    ((r.pollFrame into).1,(r.pollFrame into).2.stream into) = (r.stream into).poll := by
  cases r with
  | mapErr body =>
    rw [Remaining.stream,Remaining.pollFrame]
    exact congrArg (Prod.mk _) (poll_mapError body).symm
  | prefixed body => exact body.pollFrame_stream

/-- A poll of the body answers what the stream has next, and leaves the rest of it. -/
theorem WafBody.pollFrame_stream (w : WafBody ε) :
    ((w.pollFrame into).1,(w.pollFrame into).2.stream into) = (w.stream into).poll := by
  cases w with
  | full body => exact body.pollFrame_stream
  | cut inspected rest =>
    by_cases hempty : inspected = []
    · subst hempty
      exact rest.pollFrame_stream
    · simp [WafBody.pollFrame,WafBody.stream,hempty,Body.prepend,Body.poll]

end Polled

section Inspected
variable {ε β : Type} (into : ε → β)

/-- What is handed on when there is nothing more to read, or the cap is reached. -/
def wafBodyEnd (cap : ℕ) (buf : Bytes) (body : Body ε) : WafBody ε :=
  if 0 < cap ∧ cap ≤ buf.length then .cut buf (.mapErr body) else .full (FullBody.new buf)

/-- The loop that fills the buffer. -/
def wafBodyLoop (cap : ℕ) : Bytes → Body ε → WafBody ε
  | buf, .done => wafBodyEnd cap buf .done
  | buf, .stuck e => wafBodyEnd cap buf (.stuck e)
  | buf, .fault e rest => wafBodyEnd cap buf (.fault e rest)
  | buf, .frame f rest =>
    if 0 < cap ∧ cap ≤ buf.length then .cut buf (.mapErr (.frame f rest))
    else match f with
      | .trailers _ => wafBodyLoop cap buf rest
      | .data data =>
        if 0 < cap ∧ cap < buf.length + data.length then
          let remaining := cap - buf.length
          .cut (buf ++ data.take remaining) (.prefixed ⟨some (data.drop remaining),rest⟩)
        else wafBodyLoop cap (buf ++ data) rest

/-- The buffer and the frame that is read, each time one is. -/
def inspectTurns (cap : ℕ) : Bytes → Body ε → List (Bytes × Frame)
  | _, .done | _, .stuck _ | _, .fault _ _ => []
  | buf, .frame f rest =>
    if 0 < cap ∧ cap ≤ buf.length then []
    else (buf,f) :: match f with
      | .trailers _ => inspectTurns cap buf rest
      | .data data => if 0 < cap ∧ cap < buf.length + data.length then [] else inspectTurns cap (buf ++ data) rest

structure BodyInspectionResult (ε : Type) where
  body : WafBody ε
  matchFound : Option WafMatch

/-- `inspectBody` with the body as it is kept. -/
def inspectBodyResult (regexes : Regexes) (gen : WafGeneration) (body : Body ε) : BodyInspectionResult ε :=
  let out := wafBodyLoop gen.maxBodyInspectBytes [] body
  ⟨out,inspectValue regexes gen .body (String.ofList (Utf8.fromUtf8Lossy out.inspected))⟩

variable {into} {cap : ℕ}

theorem FullBody.getD_new (bytes : Bytes) : (FullBody.new bytes).data.getD [] = bytes := by
  by_cases h : bytes = [] <;> simp [FullBody.new,h]

/-- What is kept is what the loop over the body keeps: the bytes inspected and the body handed on. -/
structure Keeps (into : ε → β) (w : WafBody ε) (out : Bytes × Body ε) : Prop where
  inspected : w.inspected = out.1
  stream : w.stream into = out.2.mapError into

theorem keeps_end (buf : Bytes) (body : Body ε) : Keeps into (wafBodyEnd cap buf body) (inspectEnd cap buf body) := by
  rw [wafBodyEnd,inspectEnd]
  split_ifs
  · exact ⟨rfl,(Body.mapError_prepend into buf body).symm⟩
  · refine ⟨FullBody.getD_new buf,?_⟩
    rw [WafBody.stream,FullBody.getD_new,Body.full,Body.full,Body.mapError_prepend]
    rfl

theorem keeps_loop (buf : Bytes) (body : Body ε) : Keeps into (wafBodyLoop cap buf body) (inspectLoop cap buf body) := by
  induction body generalizing buf with
  | done => exact keeps_end buf .done
  | stuck e => exact keeps_end buf (.stuck e)
  | fault e rest _ => exact keeps_end buf (.fault e rest)
  | frame f rest ih =>
    rw [wafBodyLoop.eq_def,inspectLoop.eq_def]
    dsimp only
    split_ifs
    · exact ⟨rfl,(Body.mapError_prepend into buf _).symm⟩
    · cases f with
      | trailers fields => exact ih buf
      | data data =>
        dsimp only
        split_ifs
        · refine ⟨rfl,?_⟩
          rw [WafBody.stream,Remaining.stream,PrefixedBody.stream,Body.mapError_prepend,Body.mapError_prepend]
          rfl
        · exact ih (buf ++ data)

theorem clean_inspectEnd_iff (hcap : 0 < cap) (buf : Bytes) {body : Body ε} (hbody : body.bytes = []) :
    (inspectEnd cap buf body).2.Clean ↔ body.Clean ∨ buf.length + body.bytes.length < cap := by
  rw [inspectEnd,hbody]
  by_cases hfull : cap ≤ buf.length
  · rw [if_pos ⟨hcap,hfull⟩]
    simp [Nat.not_lt.mpr hfull]
  · rw [if_neg fun h => hfull h.2]
    simp [Nat.lt_of_not_le hfull]

/-- An error goes on unless it comes before the cap is reached. -/
theorem clean_inspectLoop_iff (hcap : 0 < cap) (buf : Bytes) (body : Body ε) :
    (inspectLoop cap buf body).2.Clean ↔ body.Clean ∨ buf.length + body.bytes.length < cap := by
  induction body generalizing buf with
  | done => exact clean_inspectEnd_iff hcap buf rfl
  | stuck e => exact clean_inspectEnd_iff hcap buf rfl
  | fault e rest _ => exact clean_inspectEnd_iff hcap buf rfl
  | frame f rest ih =>
    rw [inspectLoop.eq_def]
    dsimp only
    by_cases hfull : cap ≤ buf.length
    · rw [if_pos ⟨hcap,hfull⟩,Body.clean_prepend]
      have hnot : ¬ buf.length + (Body.frame f rest).bytes.length < cap := by omega
      rw [or_iff_left hnot,Body.clean_frame]
    · rw [if_neg fun h => hfull h.2]
      cases f with
      | trailers fields => exact ih buf
      | data data =>
        dsimp only
        by_cases hover : cap < buf.length + data.length
        · rw [if_pos ⟨hcap,hover⟩,Body.clean_prepend,Body.clean_prepend,Body.clean_frame,Body.bytes_frame,Frame.bytes,List.length_append]
          have hnot : ¬ buf.length + (data.length + rest.bytes.length) < cap := by omega
          simp [hnot]
        · rw [if_neg fun h => hover h.2,ih (buf ++ data),Body.clean_frame,Body.bytes_frame,Frame.bytes,List.length_append,
            List.length_append,Nat.add_assoc]

/-- While the body is read, the buffer is below the cap and one frame is at hand. -/
theorem inspectTurns_held (hcap : 0 < cap) {buf : Bytes} {body : Body ε} {turn : Bytes × Frame} (h : turn ∈ inspectTurns cap buf body) :
    turn.1.length < cap ∧ turn.2 ∈ body.frames := by
  induction body generalizing buf with
  | done => exact absurd h List.not_mem_nil
  | stuck e => exact absurd h List.not_mem_nil
  | fault e rest _ => exact absurd h List.not_mem_nil
  | frame f rest ih =>
    rw [inspectTurns.eq_def] at h
    dsimp only at h
    have hlater : ∀ {buf}, turn ∈ inspectTurns cap buf rest → turn.1.length < cap ∧ turn.2 ∈ (Body.frame f rest).frames :=
      fun h => (ih h).imp_right (List.mem_cons_of_mem f)
    split_ifs at h with hfull
    · exact absurd h List.not_mem_nil
    · obtain rfl | h := List.mem_cons.mp h
      · exact ⟨show buf.length < cap by omega,List.mem_cons_self⟩
      · cases f with
        | trailers fields => exact hlater h
        | data data =>
          dsimp only at h
          split_ifs at h
          · exact absurd h List.not_mem_nil
          · exact hlater h

theorem unconsumed_wafBodyEnd (buf : Bytes) (body : Body ε) : (wafBodyEnd cap buf body).unconsumed = [] := by
  rw [wafBodyEnd]
  split_ifs <;> rfl

/-- In the end there is no more than the rest of one frame beside the buffer. -/
theorem wafBodyLoop_unconsumed (buf : Bytes) (body : Body ε) :
    (wafBodyLoop cap buf body).unconsumed = [] ∨ ∃ f ∈ body.frames, (wafBodyLoop cap buf body).unconsumed <:+ f.bytes := by
  induction body generalizing buf with
  | done => exact .inl (unconsumed_wafBodyEnd buf .done)
  | stuck e => exact .inl (unconsumed_wafBodyEnd buf (.stuck e))
  | fault e rest _ => exact .inl (unconsumed_wafBodyEnd buf (.fault e rest))
  | frame f rest ih =>
    have hlater : ∀ buf, (wafBodyLoop cap buf rest).unconsumed = [] ∨
        ∃ g ∈ (Body.frame f rest).frames, (wafBodyLoop cap buf rest).unconsumed <:+ g.bytes :=
      fun buf => (ih buf).imp_right fun ⟨g,hg,hsuffix⟩ => ⟨g,List.mem_cons_of_mem f hg,hsuffix⟩
    rw [wafBodyLoop.eq_def]
    dsimp only
    split_ifs
    · exact .inl rfl
    · cases f with
      | trailers fields => exact hlater buf
      | data data =>
        dsimp only
        split_ifs
        · exact .inr ⟨.data data,List.mem_cons_self,List.drop_suffix _ data⟩
        · exact hlater (buf ++ data)

end Inspected

/-- What the filter does to a body: it hands on the same bytes, and an error where there was one; it
inspects the bytes up to the cap and keeps no more than these and one frame. -/
structure Transparent {ε β : Type} (into : ε → β) (regexes : Regexes) (gen : WafGeneration) (body : Body ε)
    (result : BodyInspectionResult ε) : Prop where
  bytes : (result.body.stream into).bytes = body.bytes
  fails : ¬ body.Clean → ¬ (result.body.stream into).Clean
  inspected : result.body.inspected = body.bytes.take (min gen.maxBodyInspectBytes body.bytes.length)
  matchFound : result.matchFound = inspectValue regexes gen .body (String.ofList (Utf8.fromUtf8Lossy result.body.inspected))
  reads : ∀ turn ∈ inspectTurns gen.maxBodyInspectBytes [] body, turn.1.length ≤ gen.maxBodyInspectBytes ∧ turn.2 ∈ body.frames
  keeps : result.body.inspected.length ≤ gen.maxBodyInspectBytes ∧
    (result.body.unconsumed = [] ∨ ∃ f ∈ body.frames, result.body.unconsumed <:+ f.bytes)

/-- The filter is transparent to just the bodies that do not fail before the cap is reached. -/
theorem inspect_transparent_iff {ε β : Type} (into : ε → β) (regexes : Regexes) (gen : WafGeneration)
    (hcap : 0 < gen.maxBodyInspectBytes) (body : Body ε) :
    Transparent into regexes gen body (inspectBodyResult regexes gen body) ↔ body.Clean ∨ gen.maxBodyInspectBytes ≤ body.bytes.length := by
  have hkeeps : Keeps into (inspectBodyResult regexes gen body).body (inspectLoop gen.maxBodyInspectBytes [] body) := keeps_loop [] body
  have hclean : ((inspectBodyResult regexes gen body).body.stream into).Clean ↔
      body.Clean ∨ body.bytes.length < gen.maxBodyInspectBytes := by
    rw [hkeeps.stream,Body.clean_mapError,clean_inspectLoop_iff hcap,List.length_nil,Nat.zero_add]
  have hinspected : (inspectBodyResult regexes gen body).body.inspected = body.bytes.take gen.maxBodyInspectBytes := by
    rw [hkeeps.inspected,inspectLoop_inspected hcap [] (Nat.zero_le _) body,List.nil_append]
  constructor
  · intro h
    by_contra hnot
    obtain ⟨hfails,hearly⟩ := not_or.mp hnot
    exact h.fails hfails (hclean.mpr (.inr (Nat.lt_of_not_le hearly)))
  · intro h
    constructor
    case bytes => rw [hkeeps.stream,Body.bytes_mapError,inspectLoop_forwarded,List.nil_append]
    case fails =>
      intro hfails hcomplete
      obtain hbody | hearly := hclean.mp hcomplete
      · exact hfails hbody
      · exact absurd (h.resolve_left hfails) (Nat.not_le_of_lt hearly)
    case inspected => rw [hinspected,← List.take_eq_take_min]
    case matchFound => rfl
    case reads => exact fun turn hturn => (inspectTurns_held hcap hturn).imp_left Nat.le_of_lt
    case keeps => exact ⟨by rw [hinspected,List.length_take]; exact min_le_left _ _,wafBodyLoop_unconsumed [] body⟩

/-- A filter that finds nothing, with a cap of four bytes. -/
def quiet : Regexes := ⟨fun _ => false,fun _ _ => false⟩

def quietGeneration : WafGeneration := ⟨[],4,false⟩

/-- Six bytes in two frames, cut in the second. -/
theorem inspect_transparent_cut :
    Transparent id quiet quietGeneration (.frame (.data [1,2,3]) (.frame (.data [4,5,6]) (.stuck ())))
      (inspectBodyResult quiet quietGeneration (.frame (.data [1,2,3]) (.frame (.data [4,5,6]) (.stuck ())))) :=
  (inspect_transparent_iff id quiet quietGeneration (by decide) _).mpr (.inr (by decide))

/-- An upload that fails behind its first byte is handed on as a complete one. -/
theorem inspect_completes_failed :
    ¬ Transparent id quiet quietGeneration (.frame (.data [1]) (.stuck ()))
      (inspectBodyResult quiet quietGeneration (.frame (.data [1]) (.stuck ()))) := by
  intro h
  exact h.fails (by simp) (by decide)

end Dwara.Dataplane.Waf
