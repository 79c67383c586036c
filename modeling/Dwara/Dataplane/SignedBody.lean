import Dwara.Dataplane.RequestBody

/-! What a body with a signed digest passes on: to a reader that stops at the first error,
and to one that polls on. -/

namespace Dwara.Lib.BodyStream.Body
variable {ε : Type*}

/-- The frames of all polls, those behind an error too. -/
def allFrames : Body ε → List Frame
  | .done | .stuck _ => []
  | .frame f rest => f :: rest.allFrames
  | .fault _ rest => rest.allFrames

/-- The body ends, whatever errors come before. -/
def ends : Body ε → Bool
  | .done => true
  | .stuck _ => false
  | .frame _ rest => rest.ends
  | .fault _ rest => rest.ends

/-- Some data frames, and then a body. -/
def withData (datas : List Bytes) (rest : Body ε) : Body ε := datas.foldr (fun bytes rest => .frame (.data bytes) rest) rest

theorem withData_cons (bytes : Bytes) (datas : List Bytes) (rest : Body ε) :
    withData (bytes :: datas) rest = .frame (.data bytes) (withData datas rest) := rfl

theorem ends_of_clean {b : Body ε} (h : b.Clean) : b.ends = true := by
  induction b with
  | done => rfl
  | stuck e => cases h
  | frame f rest ih => exact ih h
  | fault e rest _ => cases h

end Dwara.Lib.BodyStream.Body

namespace Dwara.Dataplane
open Dwara.Lib.BodyStream

/-- A body of the client: data frames, perhaps trailers, then its end or a failure. -/
structure InnerBody where
  datas : List Bytes
  trailers : Option (List (String × Bytes)) := none
  failure : Option InboundBodyError := none

namespace InnerBody

def bytes (b : InnerBody) : Bytes := b.datas.flatten

/-- What comes behind the data and the trailers. -/
def ending (b : InnerBody) : Body InboundBodyError := b.failure.elim .done .stuck

/-- What comes behind the data. -/
def tail (b : InnerBody) : Body InboundBodyError := b.trailers.elim b.ending fun fields => .frame (.trailers fields) b.ending

def body (b : InnerBody) : Body InboundBodyError := .withData b.datas b.tail

/-- The body has no more data than it declares, and no less unless it fails on the way. -/
def Honours (b : InnerBody) (exactHint : Option ℕ) : Prop :=
  ∀ n ∈ exactHint, b.bytes.length ≤ n ∧ (b.trailers.isSome ∨ b.failure = none → b.bytes.length = n)

end InnerBody

section Signed
variable (sha256 : Bytes → Bytes) (expected : Bytes) (exactHint : Option ℕ) (b : InnerBody)

/-- The body as it is sent on. -/
def signedBody : Body SignatureBodyError :=
  digestingBody sha256 (some expected) exactHint (.new sha256 (some expected) exactHint) b.body

/-- Of what is emitted, a trailers frame and a clean end come with the signed digest only; with
another one, the frame of the last declared byte does not come. -/
structure SignedOnly (emitted : List Frame) (ended : Prop) : Prop where
  trailers : ∀ fields, .trailers fields ∈ emitted → sha256 b.bytes = expected
  ended : ended → sha256 b.bytes = expected
  withheld : ∀ n ∈ exactHint, b.bytes.length = n → sha256 b.bytes ≠ expected →
    ∀ before last, b.datas = before ++ [last] → emitted.filter (· matches .data _) <+: before.map .data

variable {sha256 expected exactHint b}

/-- The state of the check behind some of the bytes: the verdict is there once the last declared
byte is. -/
structure Hashed (sha256 : Bytes → Bytes) (expected : Bytes) (exactHint : Option ℕ) (b : InnerBody) (consumed : Bytes) (d : Digesting) : Prop where
  hashed : d.hashed = consumed
  seen : d.seen = consumed.length
  finished : d.finished = if exactHint.any (· ≤ consumed.length) then some (decide (sha256 b.bytes = expected)) else none

theorem hashed_new (hb : b.Honours exactHint) : Hashed sha256 expected exactHint b [] (.new sha256 (some expected) exactHint) := by
  cases exactHint with
  | none => exact ⟨rfl,rfl,rfl⟩
  | some n =>
    cases n with
    | zero =>
      have hnil : b.bytes = [] := List.length_eq_zero_iff.mp (Nat.le_zero.mp (hb 0 rfl).1)
      exact ⟨rfl,rfl,by simp [Digesting.new,Digesting.digestOk,hnil,eq_comm]⟩
    | succ n => exact ⟨by simp [Digesting.new],by simp [Digesting.new],by simp [Digesting.new]⟩

theorem hash_of_any {d : Digesting} {bytes : Bytes} (h : exactHint.any (· ≤ d.seen + bytes.length) = true) :
    d.hash sha256 (some expected) exactHint bytes =
      ⟨d.hashed ++ bytes,some (d.finished.getD (decide (expected = sha256 (d.hashed ++ bytes)))),d.seen + bytes.length⟩ := by
  rw [Digesting.hash]
  exact if_pos h

theorem hash_of_not_any {d : Digesting} {bytes : Bytes} (h : ¬ exactHint.any (· ≤ d.seen + bytes.length) = true) :
    d.hash sha256 (some expected) exactHint bytes = ⟨d.hashed ++ bytes,d.finished,d.seen + bytes.length⟩ := by
  rw [Digesting.hash]
  exact if_neg h

theorem any_le_iff {m : ℕ} : exactHint.any (· ≤ m) = true ↔ ∃ n ∈ exactHint, n ≤ m := by
  simp [Option.any_eq_true]

/-- A data frame moves the check on by its bytes. -/
theorem Hashed.hash {consumed rest bytes : Bytes} {d : Digesting} (h : Hashed sha256 expected exactHint b consumed d)
    (hb : b.Honours exactHint) (hall : consumed ++ bytes ++ rest = b.bytes) :
    Hashed sha256 expected exactHint b (consumed ++ bytes) (d.hash sha256 (some expected) exactHint bytes) := by
  obtain ⟨hhashed,hseen,hfinished⟩ := h
  have hlen : d.seen + bytes.length = (consumed ++ bytes).length := by rw [hseen,List.length_append]
  by_cases hfull : exactHint.any (· ≤ (consumed ++ bytes).length) = true
  · -- the last declared byte is there: the bytes hashed so far are all of them
    obtain ⟨n,hn,hle⟩ := any_le_iff.mp hfull
    have htotal := (hb n hn).1
    rw [← hall,List.length_append] at htotal
    have hrest : rest = [] := List.length_eq_zero_iff.mp (by omega)
    rw [hrest,List.append_nil] at hall
    rw [hash_of_any (by rwa [hlen])]
    refine ⟨by rw [hhashed],hlen,?_⟩
    rw [if_pos hfull,hhashed,hall,hfinished]
    split_ifs <;> simp [eq_comm]
  · have hbefore : ¬ exactHint.any (· ≤ consumed.length) = true := by
      intro hany
      obtain ⟨n,hn,hle⟩ := any_le_iff.mp hany
      refine hfull (any_le_iff.mpr ⟨n,hn,?_⟩)
      rw [List.length_append]
      omega
    rw [if_neg hbefore] at hfinished
    rw [hash_of_not_any (by rwa [hlen])]
    refine ⟨by rw [hhashed],hlen,?_⟩
    rw [if_neg hfull]
    exact hfinished

theorem frame_of_hashed {d : Digesting} {bytes : Bytes} {rest : Body InboundBodyError} :
    digestingBody sha256 (some expected) exactHint d (.frame (.data bytes) rest) =
      if (d.hash sha256 (some expected) exactHint bytes).finished = some false then
        .fault .digestMismatch (digestingBody sha256 (some expected) exactHint (d.hash sha256 (some expected) exactHint bytes) rest)
      else .frame (.data bytes) (digestingBody sha256 (some expected) exactHint (d.hash sha256 (some expected) exactHint bytes) rest) := by
  rw [digestingBody,if_neg (by simp)]

/-- A verdict against the body stays. -/
theorem finished_hash {d : Digesting} {bytes : Bytes} (h : d.finished = some false) :
    (d.hash sha256 (some expected) exactHint bytes).finished = some false := by
  rw [Digesting.hash]
  split
  · simp [Digesting.digestOk,h]
  · exact h

section Wrong
variable (hwrong : sha256 b.bytes ≠ expected)
include hwrong

/-- Behind all of the data, a wrong digest never ends the body. -/
theorem ends_tail {d : Digesting} (h : Hashed sha256 expected exactHint b b.bytes d) :
    (digestingBody sha256 (some expected) exactHint d b.tail).ends = false := by
  have hdone : d.digestOk sha256 (some expected) = false := by
    rw [Digesting.digestOk,h.finished,h.hashed]
    split_ifs <;> simp [hwrong,eq_comm (a := expected)]
  have hending : (digestingBody sha256 (some expected) exactHint d b.ending).ends = false := by
    rw [InnerBody.ending]
    cases b.failure with
    | none => simp [digestingBody,hdone,Body.ends]
    | some e => rfl
  rw [InnerBody.tail]
  cases b.trailers with
  | none => exact hending
  | some fields => simpa [digestingBody,Body.ends] using hending

/-- However often it is polled, a body with another digest never ends. -/
theorem ends_withData (hb : b.Honours exactHint) {datas : List Bytes} {consumed : Bytes} {d : Digesting}
    (h : Hashed sha256 expected exactHint b consumed d) (hall : consumed ++ datas.flatten = b.bytes) :
    (digestingBody sha256 (some expected) exactHint d (.withData datas b.tail)).ends = false := by
  induction datas generalizing consumed d with
  | nil =>
    rw [List.flatten_nil,List.append_nil] at hall
    exact ends_tail hwrong (hall ▸ h)
  | cons bytes datas ih =>
    rw [List.flatten_cons,← List.append_assoc] at hall
    have hrest := ih (h.hash hb hall) hall
    rw [Body.withData_cons,frame_of_hashed]
    split
    · exact hrest
    · exact hrest

end Wrong

/-- Behind all of the data the trailers come, whatever was hashed. -/
theorem frames_tail (d : Digesting) :
    (digestingBody sha256 (some expected) exactHint d b.tail).frames = b.trailers.toList.map .trailers ∧
      (digestingBody sha256 (some expected) exactHint d b.tail).allFrames = b.trailers.toList.map .trailers := by
  have hending : (digestingBody sha256 (some expected) exactHint d b.ending).frames = [] ∧
      (digestingBody sha256 (some expected) exactHint d b.ending).allFrames = [] := by
    rw [InnerBody.ending]
    cases b.failure with
    | none =>
      simp only [Option.elim_none,digestingBody]
      split <;> exact ⟨rfl,rfl⟩
    | some e => exact ⟨rfl,rfl⟩
  rw [InnerBody.tail]
  cases b.trailers with
  | none => exact hending
  | some fields => simpa [digestingBody,Body.frames,Body.allFrames] using hending

/-- A verdict against the body withholds every data frame behind it, and no trailers. -/
theorem allFrames_of_finished {d : Digesting} (h : d.finished = some false) (datas : List Bytes) :
    (digestingBody sha256 (some expected) exactHint d (.withData datas b.tail)).allFrames = b.trailers.toList.map .trailers := by
  induction datas generalizing d with
  | nil => exact (frames_tail d).2
  | cons bytes datas ih =>
    rw [Body.withData_cons,frame_of_hashed,if_pos (finished_hash h)]
    exact ih (finished_hash h)

/-- What is emitted of some data: the frames before the first withheld one, and the trailers
for a reader that polls on. -/
structure Emits (datas : List Bytes) (trailers : List Frame) (j : ℕ) (emitted : Body SignatureBodyError) : Prop where
  le : j ≤ datas.length
  frames : emitted.frames = (datas.take j).map .data ++ if j < datas.length then [] else trailers
  allFrames : emitted.allFrames = (datas.take j).map .data ++ trailers

theorem Emits.cons {datas : List Bytes} {trailers : List Frame} {j : ℕ} {emitted : Body SignatureBodyError}
    (h : Emits datas trailers j emitted) (bytes : Bytes) :
    Emits (bytes :: datas) trailers (j + 1) (.frame (.data bytes) emitted) := by
  refine ⟨Nat.succ_le_succ h.le,?_,?_⟩
  · simp [Body.frames,h.frames]
  · simp [Body.allFrames,h.allFrames]

/-- Something is withheld of every body that declares its size and delivers it with another digest,
and nothing of one that declares none. -/
theorem exists_emits (hwrong : sha256 b.bytes ≠ expected) (hb : b.Honours exactHint) {datas : List Bytes} {consumed : Bytes}
    {d : Digesting} (h : Hashed sha256 expected exactHint b consumed d) (hall : consumed ++ datas.flatten = b.bytes) :
    ∃ j, Emits datas (b.trailers.toList.map .trailers) j
        (digestingBody sha256 (some expected) exactHint d (.withData datas b.tail)) ∧
      (exactHint = none → j = datas.length) ∧
      ((∃ n ∈ exactHint, b.bytes.length = n) → datas ≠ [] → j < datas.length) := by
  induction datas generalizing consumed d with
  | nil => exact ⟨0,⟨Nat.le_refl 0,(frames_tail d).1,(frames_tail d).2⟩,fun _ => rfl,fun _ hne => absurd rfl hne⟩
  | cons bytes datas ih =>
    rw [List.flatten_cons,← List.append_assoc] at hall
    have hnext := h.hash hb hall
    rw [Body.withData_cons,frame_of_hashed]
    split
    · rename_i hfalse
      have hsome : exactHint ≠ none := by
        rintro rfl
        simp [hnext.finished] at hfalse
      refine ⟨0,⟨Nat.zero_le _,by simp [Body.frames],?_⟩,fun hnone => absurd hnone hsome,fun _ _ => by simp⟩
      simpa [Body.allFrames] using allFrames_of_finished hfalse datas
    · rename_i htrue
      obtain ⟨j,hemits,hall',hsaturated⟩ := ih hnext hall
      refine ⟨j + 1,hemits.cons bytes,fun hnone => congrArg (· + 1) (hall' hnone),fun hlen _ => ?_⟩
      rcases eq_or_ne datas [] with rfl | hne
      · -- the last frame brings the verdict, so it has not been passed
        obtain ⟨n,hn,hlen⟩ := hlen
        rw [List.flatten_nil,List.append_nil] at hall
        refine absurd ?_ htrue
        rw [hnext.finished,if_pos (any_le_iff.mpr ⟨n,hn,Nat.le_of_eq (by rw [hall,hlen])⟩),decide_eq_false hwrong]
      · exact Nat.succ_lt_succ (hsaturated hlen hne)

theorem signedBody_emits (hwrong : sha256 b.bytes ≠ expected) (hb : b.Honours exactHint) :
    ∃ j, Emits b.datas (b.trailers.toList.map .trailers) j (signedBody sha256 expected exactHint b) ∧
      (exactHint = none → j = b.datas.length) ∧
      ((∃ n ∈ exactHint, b.bytes.length = n) → b.datas ≠ [] → j < b.datas.length) :=
  exists_emits hwrong hb (hashed_new hb) (List.nil_append _)

/-- Of the data, only frames before the last one are emitted once the declared size is delivered. -/
theorem filter_data_prefix {datas : List Bytes} {trailers rest : List Frame} {j : ℕ} (hj : j < datas.length)
    (htrailers : ∀ f ∈ trailers, ∃ fields, f = .trailers fields) (hrest : rest <+: trailers) {before : List Bytes} {last : Bytes}
    (hdatas : datas = before ++ [last]) :
    ((datas.take j).map Frame.data ++ rest).filter (· matches .data _) <+: before.map Frame.data := by
  have hnone : rest.filter (· matches .data _) = [] := by
    rw [List.filter_eq_nil_iff]
    intro f hf
    obtain ⟨fields,rfl⟩ := htrailers f (hrest.subset hf)
    simp
  have hdata : ((datas.take j).map Frame.data).filter (· matches .data _) = (datas.take j).map .data := by
    rw [List.filter_eq_self]
    intro f hf
    obtain ⟨bytes,-,rfl⟩ := List.mem_map.mp hf
    rfl
  have hle : j ≤ before.length := by
    rw [hdatas,List.length_append,List.length_singleton] at hj
    omega
  rw [List.filter_append,hnone,hdata,List.append_nil,hdatas,List.take_append_of_le_length hle]
  exact (List.take_prefix j before).map _

theorem trailers_mem_iff {datas : List Bytes} {rest : List Frame} {fields : List (String × Bytes)} :
    .trailers fields ∈ datas.map Frame.data ++ rest ↔ .trailers fields ∈ rest := by
  simp [List.mem_append]

/-- A body with the signed digest may be emitted in every way. -/
theorem SignedOnly.of_digest (h : sha256 b.bytes = expected) (emitted : List Frame) (ended : Prop) :
    SignedOnly sha256 expected exactHint b emitted ended :=
  ⟨fun _ _ => h,fun _ => h,fun _ _ _ hne => absurd h hne⟩

/-- With another digest it matters whether trailers come out. -/
theorem signedOnly_iff (hwrong : sha256 b.bytes ≠ expected) {emitted : List Frame} {ended : Prop} (hended : ¬ ended)
    (hwithheld : ∀ n ∈ exactHint, b.bytes.length = n → sha256 b.bytes ≠ expected →
      ∀ before last, b.datas = before ++ [last] → emitted.filter (· matches .data _) <+: before.map .data) :
    SignedOnly sha256 expected exactHint b emitted ended ↔ ∀ fields, .trailers fields ∉ emitted := by
  constructor
  · exact fun h fields hmem => hwrong (h.trailers fields hmem)
  · exact fun h => ⟨fun fields hmem => absurd hmem (h fields),fun h => absurd h hended,hwithheld⟩

end Signed

/-- Which bodies complete only with the signed digest. A reader that stops at the first error
never gets trailers of another body iff the digest decides before them: for every body without
trailers, and else for one that declares its size and has data. A reader that polls on gets the
trailers of every body. -/
theorem signedBody_signedOnly_iff (sha256 : Bytes → Bytes) (expected : Bytes) (exactHint : Option ℕ) (b : InnerBody)
    (hb : b.Honours exactHint) :
    (SignedOnly sha256 expected exactHint b (signedBody sha256 expected exactHint b).frames
        (signedBody sha256 expected exactHint b).Clean ↔
      (b.trailers.isSome → sha256 b.bytes = expected ∨ exactHint.isSome ∧ b.datas ≠ [])) ∧
    (SignedOnly sha256 expected exactHint b (signedBody sha256 expected exactHint b).allFrames
        ((signedBody sha256 expected exactHint b).ends = true) ↔
      (b.trailers.isSome → sha256 b.bytes = expected)) := by
  by_cases hdigest : sha256 b.bytes = expected
  · exact ⟨⟨fun _ _ => .inl hdigest,fun _ => .of_digest hdigest _ _⟩,⟨fun _ _ => hdigest,fun _ => .of_digest hdigest _ _⟩⟩
  obtain ⟨j,hemits,hnone,hsaturated⟩ := signedBody_emits hdigest hb
  have hends : ¬ (signedBody sha256 expected exactHint b).ends = true := by
    rw [Bool.not_eq_true]
    exact ends_withData hdigest hb (hashed_new hb) (List.nil_append _)
  have htrailers : ∀ f ∈ b.trailers.toList.map Frame.trailers, ∃ fields, f = .trailers fields := by
    simp only [List.mem_map]
    rintro f ⟨fields,-,rfl⟩
    exact ⟨fields,rfl⟩
  have hwithheld : ∀ rest, rest <+: b.trailers.toList.map Frame.trailers → ∀ n ∈ exactHint, b.bytes.length = n →
      sha256 b.bytes ≠ expected → ∀ before last, b.datas = before ++ [last] →
        ((b.datas.take j).map Frame.data ++ rest).filter (· matches .data _) <+: before.map Frame.data := by
    intro rest hrest n hn hlen _ before last hdatas
    exact filter_data_prefix (hsaturated ⟨n,hn,hlen⟩ (by simp [hdatas])) htrailers hrest hdatas
  constructor
  · rw [hemits.frames,signedOnly_iff hdigest (fun h => hends (Body.ends_of_clean h))
      (hwithheld _ (by split_ifs; exacts [List.nil_prefix,List.prefix_refl _]))]
    simp only [trailers_mem_iff]
    cases htrail : b.trailers with
    | none => simp
    | some fields =>
      cases exactHint with
      | none => simp [hnone rfl,hdigest]
      | some n =>
        have hlen : b.bytes.length = n := (hb n rfl).2 (.inl (by rw [htrail]; rfl))
        rcases eq_or_ne b.datas [] with hnil | hne
        · simp [hnil,hdigest]
        · simp [hsaturated ⟨n,rfl,hlen⟩ hne,hne]
  · rw [hemits.allFrames,signedOnly_iff hdigest hends (hwithheld _ (List.prefix_refl _))]
    simp only [trailers_mem_iff]
    cases b.trailers <;> simp [hdigest]

/-- The SHA-256 of `ab`. -/
def sha256Ab : Bytes :=
  [0xfb,0x8e,0x20,0xfc,0x2e,0x4c,0x3f,0x24,0x8c,0x60,0xc3,0x9b,0xd6,0x52,0xf3,0xc1,
   0x34,0x72,0x98,0xbb,0x97,0x7b,0x8b,0x4d,0x59,0x03,0xb8,0x50,0x55,0x62,0x06,0x03]

/-- `ab` with a declared size, under the digest of something else: the digest decides on the last byte. -/
theorem signedBody_declared :
    let b : InnerBody := ⟨[[97],[98]],some [("x-checksum",[49])],none⟩
    SignedOnly (fun _ => sha256Ab) (.replicate 32 0) (some 2) b (signedBody (fun _ => sha256Ab) (.replicate 32 0) (some 2) b).frames
      (signedBody (fun _ => sha256Ab) (.replicate 32 0) (some 2) b).Clean := by
  intro b
  have hb : b.Honours (some 2) := by
    rintro n ⟨⟩
    decide
  exact (signedBody_signedOnly_iff (fun _ => sha256Ab) (.replicate 32 0) (some 2) b hb).1.mpr (fun _ => .inr ⟨rfl,by decide⟩)

/-- Chunked, `ab` has its trailers sent on before the verdict, and they end the message. -/
theorem signedBody_trailers_pass :
    let b : InnerBody := ⟨[[97,98]],some [("x-checksum",[49])],none⟩
    b.Honours none ∧ ¬ SignedOnly (fun _ => sha256Ab) (.replicate 32 0) none b
      (signedBody (fun _ => sha256Ab) (.replicate 32 0) none b).frames (signedBody (fun _ => sha256Ab) (.replicate 32 0) none b).Clean := by
  intro b
  refine ⟨fun n hn => (Option.not_mem_none n hn).elim,fun h => ?_⟩
  have hdigest := h.trailers [("x-checksum",[49])] (by decide)
  exact absurd hdigest (by decide)

end Dwara.Dataplane
