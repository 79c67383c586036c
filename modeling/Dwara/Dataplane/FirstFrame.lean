import Dwara.Lib.BodyStream
import Dwara.Resilience.RetryBudget

/-! The first frames of a response, held back while a failure of its body can still be
answered by a retry. -/

namespace Dwara.Dataplane
open Dwara.Lib.BodyStream Dwara.Resilience

inductive UpstreamBodyError where
  | upstream (reason : String)
  | h3Stream (reason : String)
  | writeTimeout (after : ℕ)
  | deadlineExceeded
  deriving DecidableEq, Repr

/-- The whole body fitted in the buffer, or the buffer is full and the rest follows. -/
inductive FirstFrame (ε : Type) where
  | complete (body : Body ε)
  | partialBody (taken : Bytes) (rest : Body ε)

variable {ε : Type}

/-- Buffer the first `cap` bytes. The body was taken out of the response for it: after
an error the response is left with the empty body put in its place. -/
def bufferFirstFrame (cap : ℕ) : Bytes → Body ε → Except (Body ε) (FirstFrame ε)
  | buf, .done => .ok (.complete (.full buf))
  | _, .stuck _ => .error .done
  | _, .fault _ _ => .error .done
  | buf, .frame (.trailers _) rest => bufferFirstFrame cap buf rest
  | buf, .frame (.data bytes) rest =>
    if cap ≤ buf.length + bytes.length then .ok (.partialBody (buf ++ bytes) rest) else bufferFirstFrame cap (buf ++ bytes) rest

/-- Whether the first frames of a response are held back. -/
def holdsBack (rp : RetryParams) (mayRetry wantsUpgrade : Bool) : Bool :=
  mayRetry && 0 < rp.bufferFirstFrameBytes && !wantsUpgrade

/-- The body the client receives of an attempt; none where the attempt is retried. -/
def deliver (rp : RetryParams) (mayRetry wantsUpgrade : Bool) (moment : RetryMoment) (body : Body ε) : Option (Body ε) :=
  if holdsBack rp mayRetry wantsUpgrade then
    match bufferFirstFrame rp.bufferFirstFrameBytes [] body with
    | .ok (.complete whole) => some whole
    | .ok (.partialBody taken rest) => some (.prepend taken rest)
    | .error left => if moment.grants rp then none else some left
  else some body

/-- The client receives the body of the attempt: its data, its trailers, its ending. -/
structure SameBody (body received : Body ε) : Prop where
  bytes : received.bytes = body.bytes
  trailers : received.trailers = body.trailers
  ending : received.failure = body.failure

/-- The frames that are read while the buffer fills, the one that fills it included. -/
def heldFrames (cap : ℕ) : ℕ → Body ε → List Frame
  | _, .done | _, .stuck _ | _, .fault _ _ => []
  | held, .frame (.trailers fields) rest => .trailers fields :: heldFrames cap held rest
  | held, .frame (.data bytes) rest =>
    .data bytes :: if cap ≤ held + bytes.length then [] else heldFrames cap (held + bytes.length) rest

/-- The body fails before the buffer is full. -/
def failsHeld (cap : ℕ) : ℕ → Body ε → Bool
  | _, .done => false
  | _, .stuck _ | _, .fault _ _ => true
  | held, .frame (.trailers _) rest => failsHeld cap held rest
  | held, .frame (.data bytes) rest =>
    if cap ≤ held + bytes.length then false else failsHeld cap (held + bytes.length) rest

section Held
variable {cap : ℕ}

theorem not_clean_of_failsHeld {held : ℕ} {body : Body ε} (h : failsHeld cap held body) : body.failure ≠ none := by
  induction body generalizing held with
  | done => cases h
  | stuck e => exact Option.some_ne_none e
  | fault e rest _ => exact Option.some_ne_none e
  | frame f rest ih =>
    cases f with
    | trailers fields => exact ih h
    | data bytes =>
      rw [failsHeld] at h
      split at h
      · cases h
      · exact ih h

/-- What buffering comes to: an error comes back as the empty body; otherwise nothing
of the data is missing, the ending is the body's, and of the trailers only those behind
the held frames are left. -/
theorem bufferFirstFrame_spec (buf : Bytes) (body : Body ε) :
    (failsHeld cap buf.length body ∧ bufferFirstFrame cap buf body = .error .done) ∨
    (failsHeld cap buf.length body = false ∧ ∃ received : Body ε,
      (bufferFirstFrame cap buf body = .ok (.complete received) ∨
        ∃ taken rest, bufferFirstFrame cap buf body = .ok (.partialBody taken rest) ∧ received = .prepend taken rest) ∧
      received.bytes = buf ++ body.bytes ∧ received.failure = body.failure ∧
      (heldFrames cap buf.length body).flatMap Frame.fields ++ received.trailers = body.trailers) := by
  induction body generalizing buf with
  | done => exact .inr ⟨rfl,.full buf,.inl rfl,by simp,by simp [Body.failure],by simp [heldFrames]⟩
  | stuck e => exact .inl ⟨rfl,rfl⟩
  | fault e rest _ => exact .inl ⟨rfl,rfl⟩
  | frame f rest ih =>
    cases f with
    | trailers fields =>
      rcases ih buf with ⟨hfails,herr⟩ | ⟨hfails,received,hres,hbytes,hend,htrailers⟩
      · exact .inl ⟨hfails,herr⟩
      · refine .inr ⟨hfails,received,hres,?_,hend,?_⟩
        · rw [hbytes]
          rfl
        · rw [Body.trailers_frame,← htrailers,heldFrames,List.flatMap_cons,List.append_assoc]
    | data bytes =>
      rw [bufferFirstFrame,failsHeld,heldFrames]
      by_cases hfull : cap ≤ buf.length + bytes.length
      · refine .inr ⟨by rw [if_pos hfull],.prepend (buf ++ bytes) rest,.inr ⟨_,_,by rw [if_pos hfull],rfl⟩,?_,?_,?_⟩
        · simp [Frame.bytes]
        · simp [Body.failure]
        · simp [hfull,Frame.fields]
      · simp only [if_neg hfull]
        rcases ih (buf ++ bytes) with ⟨hfails,herr⟩ | ⟨hfails,received,hres,hbytes,hend,htrailers⟩
        · rw [List.length_append] at hfails
          exact .inl ⟨hfails,herr⟩
        · rw [List.length_append] at hfails htrailers
          refine .inr ⟨hfails,received,hres,?_,hend,?_⟩
          · simp [hbytes,Frame.bytes]
          · simpa [Frame.fields] using htrailers

end Held

/-- Which bodies the client receives as they are: those that are not held back, and of
the held back ones those that bring no trailers while they are held and that do not fail
meanwhile, unless the failure is retried. -/
theorem deliver_same_iff (rp : RetryParams) (mayRetry wantsUpgrade : Bool) (moment : RetryMoment) (body : Body ε) :
    (∀ received, deliver rp mayRetry wantsUpgrade moment body = some received → SameBody body received) ↔
      (holdsBack rp mayRetry wantsUpgrade →
        if failsHeld rp.bufferFirstFrameBytes 0 body then moment.grants rp
        else (heldFrames rp.bufferFirstFrameBytes 0 body).flatMap Frame.fields = []) := by
  rw [deliver]
  cases hold : holdsBack rp mayRetry wantsUpgrade with
  | false =>
    refine iff_of_true ?_ (by simp)
    rintro received hreceived
    obtain rfl := Option.some.inj hreceived
    exact ⟨rfl,rfl,rfl⟩
  | true =>
    simp only [if_true,true_implies]
    have hspec := @bufferFirstFrame_spec _ rp.bufferFirstFrameBytes [] body
    rcases hspec with ⟨hfails,herr⟩ | ⟨hfails,received,hres,hbytes,hend,htrailers⟩
    · have hfailed : failsHeld rp.bufferFirstFrameBytes 0 body := hfails
      rw [herr,if_pos hfailed]
      cases hgrants : moment.grants rp with
      | true => simp
      | false =>
        simp only [Bool.false_eq_true,if_false,iff_false]
        intro h
        exact not_clean_of_failsHeld hfails (h _ rfl).ending.symm
    · have hkept : ¬ failsHeld rp.bufferFirstFrameBytes 0 body := by
        have hnot : failsHeld rp.bufferFirstFrameBytes 0 body = false := hfails
        simp [hnot]
      rw [if_neg hkept]
      have hdelivered : (match bufferFirstFrame rp.bufferFirstFrameBytes [] body with
          | .ok (.complete whole) => some whole
          | .ok (.partialBody taken rest) => some (.prepend taken rest)
          | .error left => if moment.grants rp then none else some left) = some received := by
        rcases hres with hres | ⟨taken,rest,hres,rfl⟩
        · rw [hres]
        · rw [hres]
      have hlength : (heldFrames rp.bufferFirstFrameBytes 0 body).flatMap Frame.fields ++ received.trailers = body.trailers := htrailers
      rw [hdelivered]
      constructor
      · intro h
        have hsame := (h received rfl).trailers
        rw [← hlength] at hsame
        exact List.self_eq_append_left.mp hsame
      · rintro hnone received' hreceived
        obtain rfl := Option.some.inj hreceived
        rw [hnone,List.nil_append] at hlength
        exact ⟨hbytes,hlength,hend⟩

/-- The upstream dies behind the first bytes and the budget has no retry left: the
client receives an empty body that ends as if it were whole. -/
theorem truncated_delivered_as_complete :
    let rp : RetryParams := ⟨1,[502],true,10,1024,none,64⟩
    let body : Body UpstreamBodyError := .frame (.data [104,105]) (.stuck (.upstream "connection reset"))
    deliver rp true false ⟨0,25,0,[]⟩ body = some .done ∧
      ¬ ∀ received, deliver rp true false ⟨0,25,0,[]⟩ body = some received → SameBody body received := by
  refine ⟨by decide,?_⟩
  intro h
  have hsame := h .done (by decide)
  exact absurd hsame.ending (by decide)

end Dwara.Dataplane
