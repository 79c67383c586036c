import Dwara.Lib.Framing

/-! The frame scanner of the WebSocket policer, fed a chunk of the client's bytes at a time. -/

namespace Dwara.Dataplane.WebSocket
open Dwara.Lib Dwara.Lib.WebSocketFrame

/-- What part of the current frame the next bytes belong to. -/
inductive Scan where
  | head (first : Option UInt8)
  | extended (read : Bytes) (need maskLen : ℕ)
  | payload (remaining : ℕ) (dataFrame : Bool)
  deriving DecidableEq, Repr

inductive FrameViolation where
  | none
  | sizeExceeded
  | protocolError
  deriving DecidableEq, Repr

structure FrameCounter where
  scan : Scan
  frames : ℕ
  maxFrameSize : Option ℕ
  violation : FrameViolation
  deriving DecidableEq, Repr

namespace FrameCounter

def new (maxFrameSize : Option ℕ) : FrameCounter := ⟨.head none,0,maxFrameSize,.none⟩

/-- The scanner stops: its place in the stream is no longer kept. -/
def violate (c : FrameCounter) (violation : FrameViolation) : FrameCounter := { c with scan := .head none, violation := violation }

/-- A frame has ended. -/
def close (c : FrameCounter) (dataFrame : Bool) : FrameCounter :=
  { c with scan := .head none, frames := if dataFrame then (c.frames + 1) % 2 ^ 64 else c.frames }

/-- The two bytes of a header are in. -/
def head (c : FrameCounter) (b0 b1 : UInt8) : FrameCounter :=
  let opcode := (b0 &&& 0x0f).toNat
  let dataFrame : Bool := opcode ≤ 2
  let len7 := (b1 &&& 0x7f).toNat
  let maskLen := if b1 &&& 0x80 ≠ 0 then 4 else 0
  if isReserved opcode then c.violate .protocolError
  else if isControl opcode ∧ 126 ≤ len7 then c.violate .protocolError
  else if c.maxFrameSize.any fun max => len7 ≤ 125 ∧ max < len7 then c.violate .sizeExceeded
  else if len7 ≤ 125 then
    if len7 + maskLen = 0 then c.close dataFrame else { c with scan := .payload (len7 + maskLen) dataFrame }
  else { c with scan := .extended [] (if len7 = 126 then 2 else 8) maskLen }

/-- The bytes of a length extension are in; the sum with the mask's length wraps. -/
def extension (c : FrameCounter) (read : Bytes) (maskLen : ℕ) : FrameCounter :=
  if c.maxFrameSize.any (· < Der.ofBigEndian read) then c.violate .sizeExceeded
  else { c with scan := .payload ((Der.ofBigEndian read + maskLen) % 2 ^ 64) true }

/-- What a turn of the loop that takes no bytes still leaves to do. -/
def debt : Scan → ℕ
  | .head _ => 0
  | .payload _ _ => 1
  | .extended _ _ _ => 2

theorem debt_le (scan : Scan) : debt scan ≤ 2 := by
  cases scan <;> rw [debt] <;> omega

theorem debt_extension (c : FrameCounter) (read : Bytes) (maskLen : ℕ) : debt (c.extension read maskLen).scan ≤ 1 := by
  rw [extension]
  split
  · exact Nat.zero_le 1
  · exact Nat.le_refl 1

/-- A turn of the loop over a chunk takes what the current part of the frame still needs. -/
def turn (c : FrameCounter) (rest : Bytes) : FrameCounter × Bytes :=
  match c.scan with
  | .head first =>
    match first, rest with
    | _, [] => (c,[])
    | none, [b0] => ({ c with scan := .head (some b0) },[])
    | none, b0 :: b1 :: rest => (c.head b0 b1,rest)
    | some b0, b1 :: rest => (c.head b0 b1,rest)
  | .extended read need maskLen =>
    let take := min (need - read.length) rest.length
    let read := read ++ rest.take take
    (if read.length < need then { c with scan := .extended read need maskLen } else c.extension read maskLen,rest.drop take)
  | .payload remaining dataFrame =>
    let consumed := min remaining rest.length
    (if remaining - consumed = 0 then c.close dataFrame else { c with scan := .payload (remaining - consumed) dataFrame },
      rest.drop consumed)

theorem turn_decreases (c : FrameCounter) {rest : Bytes} (h : rest ≠ []) :
    3 * (c.turn rest).2.length + debt (c.turn rest).1.scan < 3 * rest.length + debt c.scan := by
  have hpos := List.length_pos_of_ne_nil h
  rw [turn]
  cases hscan : c.scan with
  | head first =>
    match first, rest with
    | _, [] => exact absurd rfl h
    | none, [b0] => exact Nat.zero_lt_succ _
    | none, b0 :: b1 :: rest =>
      have hdebt := debt_le (c.head b0 b1).scan
      simp only [List.length_cons]
      omega
    | some b0, b1 :: rest =>
      have hdebt := debt_le (c.head b0 b1).scan
      simp only [List.length_cons]
      omega
  | extended read need maskLen =>
    simp only [List.length_drop,List.length_append,List.length_take]
    split
    · simp only [debt]
      omega
    · have hdebt := debt_extension c (read ++ rest.take (min (need - read.length) rest.length)) maskLen
      simp only [debt] at hdebt ⊢
      omega
  | payload remaining dataFrame =>
    simp only [List.length_drop]
    split
    · simp only [close,debt]
      omega
    · simp only [debt]
      omega

/-- The loop over a chunk, left at the first violation. -/
def loop (c : FrameCounter) (rest : Bytes) : FrameCounter :=
  if _h : rest = [] then c
  else if (c.turn rest).1.violation = .none then loop (c.turn rest).1 (c.turn rest).2
  else (c.turn rest).1
termination_by 3 * rest.length + debt c.scan
decreasing_by exact turn_decreases c _h

/-- Feed the next chunk of the stream. -/
def feed (c : FrameCounter) (bytes : Bytes) : FrameCounter := if c.violation = .none then c.loop bytes else c

/-- What one more byte does. -/
def byte (c : FrameCounter) (b : UInt8) : FrameCounter :=
  if c.violation = .none then
    match c.scan with
    | .head none => { c with scan := .head (some b) }
    | .head (some b0) => c.head b0 b
    | .extended read need maskLen =>
      if (read ++ [b]).length < need then { c with scan := .extended (read ++ [b]) need maskLen }
      else c.extension (read ++ [b]) maskLen
    | .payload remaining dataFrame =>
      if remaining = 0 then { c.close dataFrame with scan := .head (some b) }
      else if remaining = 1 then c.close dataFrame
      else { c with scan := .payload (remaining - 1) dataFrame }
  else c

/-- A length extension being read is not complete yet. -/
def Resumable (c : FrameCounter) : Prop := ∀ read need maskLen, c.scan = .extended read need maskLen → read.length < need

section Bytes
variable {c : FrameCounter}

theorem resumable_new (maxFrameSize : Option ℕ) : (new maxFrameSize).Resumable := nofun

theorem resumable_head (b0 b1 : UInt8) : (c.head b0 b1).Resumable := by
  intro read need maskLen hscan
  rw [head] at hscan
  repeat' split at hscan
  all_goals cases hscan
  all_goals exact Nat.zero_lt_succ _

theorem resumable_extension (read : Bytes) (maskLen : ℕ) : (c.extension read maskLen).Resumable := by
  intro read' need maskLen' hscan
  rw [extension] at hscan
  split at hscan <;> cases hscan

theorem Resumable.byte (h : c.Resumable) (b : UInt8) : (c.byte b).Resumable := by
  rw [FrameCounter.byte]
  split
  · split
    · exact nofun
    · exact resumable_head _ _
    · split
      · rename_i hshort
        rintro read need maskLen hscan
        obtain ⟨rfl,rfl,-⟩ := Scan.extended.inj hscan
        exact hshort
      · exact resumable_extension _ _
    · split
      · exact nofun
      · split <;> exact nofun
  · exact h

theorem foldl_violated (h : c.violation ≠ .none) (bs : Bytes) : bs.foldl byte c = c := by
  induction bs with
  | nil => rfl
  | cons b bs ih => rw [List.foldl_cons,byte,if_neg h,ih]

theorem byte_of_none (c : FrameCounter) (h : c.violation = .none) (b : UInt8) :
    c.byte b =
      match c.scan with
      | .head none => { c with scan := .head (some b) }
      | .head (some b0) => c.head b0 b
      | .extended read need maskLen =>
        if (read ++ [b]).length < need then { c with scan := .extended (read ++ [b]) need maskLen }
        else c.extension (read ++ [b]) maskLen
      | .payload remaining dataFrame =>
        if remaining = 0 then { c.close dataFrame with scan := .head (some b) }
        else if remaining = 1 then c.close dataFrame
        else { c with scan := .payload (remaining - 1) dataFrame } := if_pos h

/-- Bytes that do not complete a length extension are kept. -/
theorem foldl_extended (h : c.violation = .none) {read : Bytes} {need maskLen : ℕ} (xs : Bytes) (hshort : read.length + xs.length < need) :
    xs.foldl byte { c with scan := .extended read need maskLen } = { c with scan := .extended (read ++ xs) need maskLen } := by
  induction xs generalizing read with
  | nil => rw [List.append_nil]; rfl
  | cons x xs ih =>
    rw [List.length_cons] at hshort
    rw [List.foldl_cons,byte_of_none { c with scan := .extended read need maskLen } h x]
    simp only [List.length_append,List.length_singleton]
    rw [if_pos (by omega),ih (by rw [List.length_append,List.length_singleton]; omega),List.append_assoc,List.singleton_append]

/-- The bytes that complete it give the length. -/
theorem foldl_extended_full (h : c.violation = .none) {read : Bytes} {need maskLen : ℕ} (xs : Bytes) (hshort : read.length < need)
    (hfull : read.length + xs.length = need) :
    xs.foldl byte { c with scan := .extended read need maskLen } = c.extension (read ++ xs) maskLen := by
  rcases List.eq_nil_or_concat xs with rfl | ⟨ys,y,rfl⟩
  · rw [List.length_nil] at hfull
    omega
  · rw [List.concat_eq_append] at hfull ⊢
    rw [List.length_append,List.length_singleton] at hfull
    rw [List.foldl_append,foldl_extended h ys (by omega),List.foldl_cons,List.foldl_nil,
      byte_of_none { c with scan := .extended (read ++ ys) need maskLen } h y]
    simp only [List.append_assoc]
    rw [if_neg (by simp only [List.length_append,List.length_singleton]; omega)]
    rfl

/-- Payload bytes are skipped, and the last of them ends the frame. -/
theorem foldl_payload (h : c.violation = .none) {remaining : ℕ} {dataFrame : Bool} (xs : Bytes) (hpos : xs ≠ [])
    (hle : xs.length ≤ remaining) :
    xs.foldl byte { c with scan := .payload remaining dataFrame } =
      if remaining - xs.length = 0 then c.close dataFrame else { c with scan := .payload (remaining - xs.length) dataFrame } := by
  induction xs generalizing remaining with
  | nil => exact absurd rfl hpos
  | cons x xs ih =>
    rw [List.length_cons] at hle
    rw [List.foldl_cons,byte_of_none { c with scan := .payload remaining dataFrame } h x]
    simp only
    rw [if_neg (by omega)]
    by_cases hlast : remaining = 1
    · obtain rfl : xs = [] := List.length_eq_zero_iff.mp (by omega)
      simp only [hlast,if_true,List.foldl_nil,List.length_singleton,Nat.sub_self]
      rfl
    · rw [if_neg hlast]
      cases xs with
      | nil => simp only [List.foldl_nil,List.length_singleton,if_neg (show ¬ remaining - 1 = 0 by omega)]
      | cons y ys =>
        rw [ih nofun (by simp only [List.length_cons] at hle ⊢; omega)]
        simp only [List.length_cons,Nat.sub_sub,Nat.add_comm 1]

/-- A turn does what its bytes do one after the other. -/
theorem foldl_turn (h : c.violation = .none) (hc : c.Resumable) {rest : Bytes} (hne : rest ≠ []) :
    (c.turn rest).2.foldl byte (c.turn rest).1 = rest.foldl byte c := by
  rw [turn]
  cases hscan : c.scan with
  | head first =>
    match first, rest with
    | _, [] => exact absurd rfl hne
    | none, [b0] => simp only [List.foldl_cons,List.foldl_nil,byte_of_none c h,hscan]
    | none, b0 :: b1 :: rest =>
      simp only [List.foldl_cons,byte_of_none c h,hscan]
      rw [byte_of_none { c with scan := .head (some b0) } h]
      rfl
    | some b0, b1 :: rest => simp only [List.foldl_cons,byte_of_none c h,hscan]
  | extended read need maskLen =>
    have hself : { c with scan := .extended read need maskLen } = c := by rw [← hscan]
    have hshort := hc read need maskLen hscan
    have hsplit : rest.foldl byte c =
        (rest.drop (min (need - read.length) rest.length)).foldl byte
          ((rest.take (min (need - read.length) rest.length)).foldl byte { c with scan := .extended read need maskLen }) := by
      rw [hself,← List.foldl_append,List.take_append_drop]
    rw [hsplit]
    simp only [List.length_append,List.length_take]
    split
    · rw [foldl_extended h (rest.take (min (need - read.length) rest.length)) (by rw [List.length_take]; omega)]
    · rw [foldl_extended_full h (rest.take (min (need - read.length) rest.length)) hshort (by rw [List.length_take]; omega)]
  | payload remaining dataFrame =>
    have hself : { c with scan := .payload remaining dataFrame } = c := by rw [← hscan]
    have hpos := List.length_pos_of_ne_nil hne
    by_cases hempty : remaining = 0
    · -- a payload of no bytes ends when the next byte comes in
      obtain ⟨b,rest,rfl⟩ := List.exists_cons_of_ne_nil hne
      have hclosed : (c.close dataFrame).violation = .none := h
      simp only [hempty,Nat.zero_min,Nat.sub_zero,if_true,List.drop_zero,List.foldl_cons,byte_of_none c h,hscan,
        byte_of_none _ hclosed]
      rfl
    · have htaken : rest.take (min remaining rest.length) ≠ [] := by
        rw [ne_eq,List.take_eq_nil_iff,not_or]
        exact ⟨by omega,hne⟩
      have hsplit : rest.foldl byte c = (rest.drop (min remaining rest.length)).foldl byte
          ((rest.take (min remaining rest.length)).foldl byte { c with scan := .payload remaining dataFrame }) := by
        rw [hself,← List.foldl_append,List.take_append_drop]
      rw [hsplit,foldl_payload h _ htaken (by rw [List.length_take]; omega)]
      simp only [List.length_take,min_self,min_assoc]

theorem resumable_turn {rest : Bytes} (hne : rest ≠ []) : (c.turn rest).1.Resumable := by
  rw [turn]
  cases hscan : c.scan with
  | head first =>
    match first, rest with
    | _, [] => exact absurd rfl hne
    | none, [b0] => exact nofun
    | none, b0 :: b1 :: rest => exact resumable_head b0 b1
    | some b0, b1 :: rest =>
      simp only
      exact resumable_head b0 b1
  | extended read need maskLen =>
    simp only
    split
    · rename_i hshort
      intro read' need' maskLen' hscan'
      obtain ⟨rfl,rfl,-⟩ := Scan.extended.inj hscan'
      exact hshort
    · exact resumable_extension _ _
  | payload remaining dataFrame =>
    simp only
    split
    · exact nofun
    · exact nofun

/-- The loop takes the bytes of a chunk one after the other. -/
theorem loop_eq_foldl (c : FrameCounter) (rest : Bytes) (h : c.violation = .none) (hc : c.Resumable) :
    c.loop rest = rest.foldl byte c := by
  induction c, rest using loop.induct with
  | case1 c => rw [loop,dif_pos rfl,List.foldl_nil]
  | case2 c rest hne hok ih =>
    rw [loop,dif_neg hne,if_pos hok,ih hok (resumable_turn hne)]
    exact foldl_turn h hc hne
  | case3 c rest hne hviolated =>
    rw [loop,dif_neg hne,if_neg hviolated,← foldl_turn h hc hne]
    exact (foldl_violated hviolated _).symm

theorem feed_eq_foldl (hc : c.Resumable) (bytes : Bytes) : c.feed bytes = bytes.foldl byte c := by
  rw [feed]
  split
  · rename_i h
    exact loop_eq_foldl c bytes h hc
  · rename_i h
    exact (foldl_violated h bytes).symm

theorem Resumable.foldl (hc : c.Resumable) (bytes : Bytes) : (bytes.foldl FrameCounter.byte c).Resumable := by
  induction bytes generalizing c with
  | nil => exact hc
  | cons b bytes ih => exact ih (hc.byte b)

/-- Where the stream is cut into chunks makes no difference. -/
theorem foldl_feed (hc : c.Resumable) (chunks : List Bytes) : chunks.foldl feed c = c.feed chunks.flatten := by
  induction chunks generalizing c with
  | nil => rw [feed_eq_foldl hc]; rfl
  | cons chunk chunks ih =>
    have hfed : (c.feed chunk).Resumable := by
      rw [feed_eq_foldl hc]
      exact hc.foldl chunk
    rw [List.foldl_cons,ih hfed,feed_eq_foldl hfed,feed_eq_foldl hc,feed_eq_foldl hc,List.flatten_cons,List.foldl_append]

end Bytes

end FrameCounter
end Dwara.Dataplane.WebSocket
