import Mathlib.Data.List.Basic

/-! Bodies that are polled frame by frame: what a reader gets of them that stops at the
first error, and what goes on behind an error. -/

namespace Dwara.Lib.BodyStream

abbrev Bytes := List UInt8

/-- A frame of a body: some bytes, or the trailing fields. -/
inductive Frame where
  | data (bytes : Bytes)
  | trailers (fields : List (String × Bytes))
  deriving DecidableEq, Repr

namespace Frame

def bytes : Frame → Bytes
  | .data bytes => bytes
  | .trailers _ => []

def fields : Frame → List (String × Bytes)
  | .data _ => []
  | .trailers fields => fields

end Frame

/-- What a body answers to the polls of it, one after the other: it has ended, it fails
from here on, or a frame or an error comes and the rest behind it. -/
inductive Body (ε : Type*) where
  | done
  | stuck (e : ε)
  | frame (f : Frame) (rest : Body ε)
  | fault (e : ε) (rest : Body ε)
  deriving DecidableEq, Repr

namespace Body
variable {ε δ : Type*}

/-- The answer to the next poll, and the body behind it. -/
def poll : Body ε → Option (Except ε Frame) × Body ε
  | .done => (none,.done)
  | .stuck e => (some (.error e),.stuck e)
  | .frame f rest => (some (.ok f),rest)
  | .fault e rest => (some (.error e),rest)

/-- The frames before the end or the first error. -/
def frames : Body ε → List Frame
  | .done | .stuck _ | .fault _ _ => []
  | .frame f rest => f :: rest.frames

/-- The first error, if one comes before the end. -/
def failure : Body ε → Option ε
  | .done => none
  | .stuck e | .fault e _ => some e
  | .frame _ rest => rest.failure

def bytes (b : Body ε) : Bytes := b.frames.flatMap Frame.bytes

def trailers (b : Body ε) : List (String × Bytes) := b.frames.flatMap Frame.fields

def Clean (b : Body ε) : Prop := b.failure = none

instance [DecidableEq ε] (b : Body ε) : Decidable b.Clean := inferInstanceAs (Decidable (b.failure = none))

/-- Every answer, with its errors renamed. -/
def mapError (g : ε → δ) : Body ε → Body δ
  | .done => .done
  | .stuck e => .stuck (g e)
  | .frame f rest => .frame f (rest.mapError g)
  | .fault e rest => .fault (g e) (rest.mapError g)

/-- Some bytes and then a body. No bytes are no frame. -/
def prepend (bytes : Bytes) (rest : Body ε) : Body ε := if bytes = [] then rest else .frame (.data bytes) rest

/-- A body that has all its bytes in memory. -/
def full (bytes : Bytes) : Body ε := prepend bytes .done

@[simp] theorem bytes_done : (done : Body ε).bytes = [] := rfl
@[simp] theorem bytes_stuck (e : ε) : (stuck e).bytes = [] := rfl
@[simp] theorem bytes_fault (e : ε) (rest : Body ε) : (fault e rest).bytes = [] := rfl
@[simp] theorem bytes_frame (f : Frame) (rest : Body ε) : (frame f rest).bytes = f.bytes ++ rest.bytes := rfl

@[simp] theorem trailers_done : (done : Body ε).trailers = [] := rfl
@[simp] theorem trailers_stuck (e : ε) : (stuck e).trailers = [] := rfl
@[simp] theorem trailers_fault (e : ε) (rest : Body ε) : (fault e rest).trailers = [] := rfl
@[simp] theorem trailers_frame (f : Frame) (rest : Body ε) : (frame f rest).trailers = f.fields ++ rest.trailers := rfl

@[simp] theorem clean_done : (done : Body ε).Clean := rfl
@[simp] theorem not_clean_stuck (e : ε) : ¬ (stuck e).Clean := by simp [Clean,failure]
@[simp] theorem not_clean_fault (e : ε) (rest : Body ε) : ¬ (fault e rest).Clean := by simp [Clean,failure]
@[simp] theorem clean_frame (f : Frame) (rest : Body ε) : (frame f rest).Clean ↔ rest.Clean := Iff.rfl

@[simp] theorem failure_prepend (bytes : Bytes) (rest : Body ε) : (prepend bytes rest).failure = rest.failure := by
  rw [prepend]
  split <;> rfl

@[simp] theorem clean_prepend (bytes : Bytes) (rest : Body ε) : (prepend bytes rest).Clean ↔ rest.Clean := by
  rw [Clean,Clean,failure_prepend]

@[simp] theorem bytes_prepend (bytes : Bytes) (rest : Body ε) : (prepend bytes rest).bytes = bytes ++ rest.bytes := by
  rw [prepend]
  split
  · simp [*]
  · rfl

@[simp] theorem trailers_prepend (bytes : Bytes) (rest : Body ε) : (prepend bytes rest).trailers = rest.trailers := by
  rw [prepend]
  split <;> rfl

/-- Reading a body to its end and a body in memory agree on the bytes. -/
@[simp] theorem bytes_full (bytes : Bytes) : (full bytes : Body ε).bytes = bytes := by simp [full]

@[simp] theorem clean_full (bytes : Bytes) : (full bytes : Body ε).Clean := by simp [full]

@[simp] theorem trailers_full (bytes : Bytes) : (full bytes : Body ε).trailers = [] := by simp [full]

@[simp] theorem failure_full (bytes : Bytes) : (full bytes : Body ε).failure = none := by simp [full,failure]

theorem mapError_prepend (g : ε → δ) (bytes : Bytes) (rest : Body ε) : (prepend bytes rest).mapError g = prepend bytes (rest.mapError g) := by
  rw [prepend,prepend]
  split <;> rfl

@[simp] theorem clean_mapError (g : ε → δ) (b : Body ε) : (b.mapError g).Clean ↔ b.Clean := by
  induction b with
  | done => simp [mapError]
  | stuck e => simp [mapError]
  | frame f rest ih => simpa [mapError] using ih
  | fault e rest _ => simp [mapError]

@[simp] theorem bytes_mapError (g : ε → δ) (b : Body ε) : (b.mapError g).bytes = b.bytes := by
  induction b with
  | done => rfl
  | stuck e => rfl
  | frame f rest ih => simp [mapError,ih]
  | fault e rest _ => rfl

end Body
end Dwara.Lib.BodyStream
