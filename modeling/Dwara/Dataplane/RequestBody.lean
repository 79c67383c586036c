import Dwara.Lib.BodyStream

/-! The request body on its way to an attempt: the cap, the signed digest, the buffer
for retries, and what the attempt is handed. -/

namespace Dwara.Dataplane
open Dwara.Lib.BodyStream

/-- Errors of the inbound body: a stall, or the client's stream itself. -/
inductive InboundBodyError where
  | timeout (after : ℕ)
  | inner (reason : String)
  deriving DecidableEq, Repr

inductive SignatureBodyError where
  | digestMismatch
  | inner (e : InboundBodyError)
  deriving DecidableEq, Repr

inductive LimitedBodyError where
  | overLimit (cap : ℕ)
  | inner (e : SignatureBodyError)
  deriving DecidableEq, Repr

section Wrappers

/-- The body under a cap: every frame that brings the bytes seen above it is an error. -/
def limitedBody (cap : Option ℕ) : ℕ → Body SignatureBodyError → Body LimitedBodyError
  | _, .done => .done
  | _, .stuck e => .stuck (.inner e)
  | seen, .fault e rest => .fault (.inner e) (limitedBody cap seen rest)
  | seen, .frame (.trailers fields) rest => .frame (.trailers fields) (limitedBody cap seen rest)
  | seen, .frame (.data bytes) rest =>
    match cap with
    | none => .frame (.data bytes) (limitedBody cap seen rest)
    | some limit =>
      let seen := seen + bytes.length
      if limit < seen then .fault (.overLimit limit) (limitedBody cap seen rest)
      else .frame (.data bytes) (limitedBody cap seen rest)

/-- The state of the digest check. The verdict stays once it is there. -/
structure Digesting where
  hashed : Bytes
  finished : Option Bool
  seen : ℕ

variable (sha256 : Bytes → Bytes) (expected : Option Bytes) (exactHint : Option ℕ)

/-- The verdict on what was hashed; without an expected digest it is in favour. -/
def Digesting.digestOk (d : Digesting) : Bool := d.finished.getD (expected.all (· = sha256 d.hashed))

/-- A body declared to be empty is decided on at once. -/
def Digesting.new : Digesting :=
  let fresh : Digesting := ⟨[],none,0⟩
  if expected.isSome ∧ exactHint = some 0 then { fresh with finished := some (fresh.digestOk sha256 expected) } else fresh

/-- A frame is hashed; the frame with the last declared byte brings the verdict. -/
def Digesting.hash (d : Digesting) (bytes : Bytes) : Digesting :=
  let d := { d with hashed := d.hashed ++ bytes, seen := d.seen + bytes.length }
  if exactHint.any (· ≤ d.seen) then { d with finished := some (d.digestOk sha256 expected) } else d

/-- The body whose bytes must have the signed digest. -/
def digestingBody : Digesting → Body InboundBodyError → Body SignatureBodyError
  | d, .done => if d.digestOk sha256 expected then .done else .stuck .digestMismatch
  | _, .stuck e => .stuck (.inner e)
  | d, .fault e rest => .fault (.inner e) (digestingBody d rest)
  | d, .frame (.trailers fields) rest => .frame (.trailers fields) (digestingBody d rest)
  | d, .frame (.data bytes) rest =>
    if expected.isNone then .frame (.data bytes) (digestingBody d rest)
    else
      let d := d.hash sha256 expected exactHint bytes
      if d.finished = some false then .fault .digestMismatch (digestingBody d rest)
      else .frame (.data bytes) (digestingBody d rest)

/-- The body `proxy_request` is handed: the cap is around the digest check. -/
def wrappedBody (cap : Option ℕ) (body : Body InboundBodyError) : Body LimitedBodyError :=
  limitedBody cap 0 (digestingBody sha256 expected exactHint (Digesting.new sha256 expected exactHint) body)

end Wrappers

section Attempt
variable {ε : Type} (cap : ℕ)

/-- Buffer up to `cap` bytes. Otherwise what was taken of the body comes back with the
rest of it, be it over the cap or failed. -/
def bufferRequestBody : Bytes → Body ε → Except (Bytes × Body ε) Bytes
  | buf, .done => .ok buf
  | buf, .stuck e => .error (buf,.stuck e)
  | buf, .fault _ rest => .error (buf,rest)
  | buf, .frame (.trailers _) rest => bufferRequestBody buf rest
  | buf, .frame (.data bytes) rest =>
    if cap < buf.length + bytes.length then .error (buf ++ bytes,rest) else bufferRequestBody (buf ++ bytes) rest

/-- The request body of one attempt. -/
inductive AttemptBody (ε : Type) where
  | oneShot (taken : Option Bytes) (rest : Body ε)
  | replay (bytes : Bytes)

/-- What the attempt reads. -/
def AttemptBody.stream : AttemptBody ε → Body ε
  | .oneShot taken rest => Body.prepend (taken.getD []) rest
  | .replay bytes => Body.full bytes

/-- The body of the first attempt, and the bytes a later one would be sent. -/
def firstBody (transformed : Option Bytes) (buffering : Bool) (body : Body ε) : AttemptBody ε × Option Bytes :=
  match transformed with
  | some bytes => (.replay bytes,some bytes)
  | none =>
    if buffering then
      match bufferRequestBody cap [] body with
      | .ok bytes => (.replay bytes,some bytes)
      | .error (buffered,rest) => (.oneShot (some buffered) rest,none)
    else (.oneShot none body,none)

/-- Every body an attempt of the request may be handed, when it is buffered for retries or hedges. -/
def attemptBodies (body : Body ε) : List (AttemptBody ε) :=
  let (first,replay) := firstBody cap none true body
  first :: replay.toList.map .replay

/-- The attempt passes for complete only where the body is, and then with its bytes. -/
def CompletesOnlyAs (body attempt : Body ε) : Prop := attempt.Clean → body.Clean ∧ attempt.bytes = body.bytes

/-- The body fails with no more than `cap` bytes before the error; `rest` is what it
goes on with when polled further. -/
inductive FailsWithin : ℕ → Body ε → Body ε → Prop where
  | stuck {seen : ℕ} (e : ε) : FailsWithin seen (.stuck e) (.stuck e)
  | fault {seen : ℕ} (e : ε) (rest : Body ε) : FailsWithin seen (.fault e rest) rest
  | trailers {seen : ℕ} {body rest : Body ε} (fields : List (String × Bytes)) (h : FailsWithin seen body rest) :
      FailsWithin seen (.frame (.trailers fields) body) rest
  | data {seen : ℕ} {body rest : Body ε} {bytes : Bytes} (hcap : seen + bytes.length ≤ cap)
      (h : FailsWithin (seen + bytes.length) body rest) : FailsWithin seen (.frame (.data bytes) body) rest

variable {cap} {buf : Bytes} {body : Body ε}

theorem FailsWithin.not_clean {seen : ℕ} {rest : Body ε} (h : FailsWithin cap seen body rest) : ¬ body.Clean := by
  induction h with
  | stuck e => simp
  | fault e rest => simp
  | trailers fields _ ih => simpa using ih
  | data _ _ ih => simpa using ih

/-- A failure in the buffered stretch comes back as the bytes so far and the rest. -/
theorem FailsWithin.buffered {rest : Body ε} (h : FailsWithin cap buf.length body rest) :
    ∃ taken, bufferRequestBody cap buf body = .error (taken,rest) := by
  generalize hseen : buf.length = seen at h
  induction h generalizing buf with
  | stuck e => exact ⟨buf,rfl⟩
  | fault e rest => exact ⟨buf,rfl⟩
  | trailers fields _ ih => exact ih hseen
  | data hcap _ ih =>
    subst hseen
    rw [bufferRequestBody,if_neg (Nat.not_lt.mpr hcap)]
    exact ih (by rw [List.length_append])

/-- A body that is buffered whole ended cleanly, and nothing of it is missing. -/
theorem bufferRequestBody_ok {bytes : Bytes} (h : bufferRequestBody cap buf body = .ok bytes) :
    body.Clean ∧ bytes = buf ++ body.bytes := by
  induction body generalizing buf with
  | done => simpa [bufferRequestBody] using (Except.ok.inj h).symm
  | stuck e => cases h
  | fault e rest _ => cases h
  | frame f rest ih =>
    cases f with
    | trailers fields => simpa [Frame.bytes] using ih h
    | data data =>
      rw [bufferRequestBody] at h
      split at h
      · cases h
      · obtain ⟨hclean,hbytes⟩ := ih h
        exact ⟨hclean,by simp [hbytes,Frame.bytes]⟩

/-- A body that is not buffered whole failed on the way, or is all there: the bytes taken and the rest. -/
theorem bufferRequestBody_error {taken : Bytes} {rest : Body ε} (h : bufferRequestBody cap buf body = .error (taken,rest)) :
    FailsWithin cap buf.length body rest ∨ ((rest.Clean ↔ body.Clean) ∧ taken ++ rest.bytes = buf ++ body.bytes) := by
  induction body generalizing buf with
  | done => cases h
  | stuck e =>
    obtain ⟨rfl,rfl⟩ := Prod.mk.inj (Except.error.inj h)
    exact .inl (.stuck e)
  | fault e rest' _ =>
    obtain ⟨rfl,rfl⟩ := Prod.mk.inj (Except.error.inj h)
    exact .inl (.fault e rest')
  | frame f rest' ih =>
    cases f with
    | trailers fields => exact (ih h).imp (.trailers fields) (by simp [Frame.bytes])
    | data data =>
      rw [bufferRequestBody] at h
      split at h
      · obtain ⟨rfl,rfl⟩ := Prod.mk.inj (Except.error.inj h)
        exact .inr ⟨by simp,by simp [Frame.bytes]⟩
      · rename_i hcap
        refine (ih h).imp (fun hfails => .data (Nat.le_of_not_lt hcap) ?_) (by simp [Frame.bytes])
        rwa [List.length_append] at hfails

theorem mem_attemptBodies_of_ok {bytes : Bytes} (h : bufferRequestBody cap [] body = .ok bytes) {attempt : AttemptBody ε} :
    attempt ∈ attemptBodies cap body ↔ attempt = .replay bytes := by
  simp [attemptBodies,firstBody,h]

theorem mem_attemptBodies_of_error {taken : Bytes} {rest : Body ε} (h : bufferRequestBody cap [] body = .error (taken,rest))
    {attempt : AttemptBody ε} : attempt ∈ attemptBodies cap body ↔ attempt = .oneShot (some taken) rest := by
  simp [attemptBodies,firstBody,h]

end Attempt

section Wrapped
variable {sha256 : Bytes → Bytes} {expected : Option Bytes} {exactHint : Option ℕ}

end Wrapped

/-- Which bodies reach the upstream as what they are: the attempts pass for complete
only where the body is complete, iff an error that comes while the body is buffered is
followed by another one. -/
theorem attempts_complete_iff {ε : Type} (cap : ℕ) (body : Body ε) :
    (∀ attempt ∈ attemptBodies cap body, CompletesOnlyAs body attempt.stream) ↔
      ∀ rest, FailsWithin cap 0 body rest → ¬ rest.Clean := by
  constructor
  · intro h rest hfails hclean
    obtain ⟨taken,hbuf⟩ : ∃ taken, bufferRequestBody cap [] body = .error (taken,rest) := FailsWithin.buffered hfails
    have hattempt := h _ ((mem_attemptBodies_of_error hbuf).mpr rfl)
    have hbody := hattempt (by simpa [AttemptBody.stream] using hclean)
    exact hfails.not_clean hbody.1
  · intro h attempt hmem
    cases hbuf : bufferRequestBody cap [] body with
    | ok bytes =>
      obtain rfl := (mem_attemptBodies_of_ok hbuf).mp hmem
      obtain ⟨hclean,rfl⟩ := bufferRequestBody_ok hbuf
      exact fun _ => ⟨hclean,by simp [AttemptBody.stream]⟩
    | error p =>
      obtain ⟨taken,rest⟩ := p
      obtain rfl := (mem_attemptBodies_of_error hbuf).mp hmem
      intro hclean
      have hrest : rest.Clean := by simpa [AttemptBody.stream] using hclean
      rcases bufferRequestBody_error hbuf with hfails | ⟨hiff,hbytes⟩
      · exact absurd hrest (h rest hfails)
      · exact ⟨hiff.mp hrest,by simpa [AttemptBody.stream] using hbytes⟩

/-- An unsigned upload in two chunks on a route with a cap of two bytes. The second
chunk crosses the cap, and the attempt is handed the first one as the whole body. -/
theorem over_cap_sent_as_complete :
    let body := wrappedBody (fun _ => []) none none (some 2) (.frame (.data [97,98]) (.frame (.data [99]) .done))
    ¬ body.Clean ∧ ¬ ∀ attempt ∈ attemptBodies 10 body, CompletesOnlyAs body attempt.stream := by
  refine ⟨by decide,?_⟩
  intro h
  have hfails : FailsWithin 10 0 (wrappedBody (fun _ => []) none none (some 2)
      (.frame (.data [97,98]) (.frame (.data [99]) .done))) .done := .data (by decide) (.fault _ _)
  obtain ⟨taken,hbuf⟩ : ∃ taken, bufferRequestBody 10 [] (wrappedBody (fun _ => []) none none (some 2)
      (.frame (.data [97,98]) (.frame (.data [99]) .done))) = .error (taken,.done) := FailsWithin.buffered hfails
  have hattempt := h _ ((mem_attemptBodies_of_error hbuf).mpr rfl)
  exact hfails.not_clean (hattempt (by simp [AttemptBody.stream])).1

end Dwara.Dataplane
