import Dwara.Dataplane.FrameCounter
import Dwara.Lib.Framing

/-! The policy the scanner enforces, as a reading of the whole stream frame by frame. -/

namespace Dwara.Dataplane.WebSocket
open Dwara.Lib Dwara.Lib.WebSocketFrame Dwara.Lib.Framing

/-- Why a frame ends the connection. -/
inductive Refusal where
  | sizeExceeded
  | protocolError
  deriving DecidableEq, Repr

/-- Two bytes that open no frame: a reserved opcode, or a control frame with a length of more than
a byte. -/
def malformed (b0 b1 : UInt8) : Bool := isReserved (opcode b0) ∨ isControl (opcode b0) ∧ 126 ≤ shortLength b1

/-- A data frame above the limit. -/
def oversize (max : Option ℕ) (h : Header) : Bool := h.isData ∧ max.any (· < h.length)

/-- The first frame of a stream, as the policy reads it. -/
def front (max : Option ℕ) : Bytes → Front Header Refusal
  | b0 :: b1 :: rest =>
    if malformed b0 b1 then .reject .protocolError
    else
      match readHeader (b0 :: b1 :: rest) with
      | none => .wait
      | some h =>
        if oversize max h then .reject .sizeExceeded
        else if h.size ≤ (b0 :: b1 :: rest).length then .frame h h.size
        else .wait
  | _ => .wait

section Reader
variable {max : Option ℕ} {b0 b1 : UInt8} {rest : Bytes}

theorem front_malformed (h : malformed b0 b1) : front max (b0 :: b1 :: rest) = .reject .protocolError := by
  rw [front,if_pos h]

theorem front_short (h : malformed b0 b1 = false) (hread : readHeader (b0 :: b1 :: rest) = none) :
    front max (b0 :: b1 :: rest) = .wait := by
  rw [front,if_neg (by rw [h]; exact Bool.false_ne_true),hread]

theorem front_header (h : malformed b0 b1 = false) {header : Header} (hread : readHeader (b0 :: b1 :: rest) = some header) :
    front max (b0 :: b1 :: rest) =
      if oversize max header then .reject .sizeExceeded
      else if header.size ≤ (b0 :: b1 :: rest).length then .frame header header.size
      else .wait := by
  rw [front,if_neg (by rw [h]; exact Bool.false_ne_true),hread]

theorem front_append {bs : Bytes} (more : Bytes) (h : front max bs ≠ .wait) : front max (bs ++ more) = front max bs := by
  match bs, h with
  | b0 :: b1 :: rest, h =>
    by_cases hmalformed : malformed b0 b1
    · rw [front_malformed hmalformed]
      exact front_malformed hmalformed
    · rw [Bool.not_eq_true] at hmalformed
      cases hread : readHeader (b0 :: b1 :: rest) with
      | none => exact absurd (front_short hmalformed hread) h
      | some header =>
        have hlonger : (b0 :: b1 :: rest).length ≤ (b0 :: b1 :: (rest ++ more)).length := by simp
        have hmore : readHeader (b0 :: b1 :: (rest ++ more)) = some header := readHeader_append hread more
        rw [front_header hmalformed hread] at h ⊢
        rw [List.cons_append,List.cons_append,front_header hmalformed hmore]
        split
        · rfl
        · rename_i hsize
          rw [if_neg hsize] at h
          split at h
          · rename_i hwhole
            rw [if_pos hwhole,if_pos (hwhole.trans hlonger)]
          · exact absurd rfl h

/-- A frame that the policy lets through. -/
theorem front_eq_frame {bs : Bytes} {header : Header} {size : ℕ} (h : front max bs = .frame header size) :
    ∃ b0 b1 rest, bs = b0 :: b1 :: rest ∧ malformed b0 b1 = false ∧ readHeader bs = some header ∧ oversize max header = false ∧
      size = header.size ∧ size ≤ bs.length := by
  match bs, h with
  | b0 :: b1 :: rest, h =>
    by_cases hmalformed : malformed b0 b1
    · rw [front_malformed hmalformed] at h
      cases h
    · rw [Bool.not_eq_true] at hmalformed
      cases hread : readHeader (b0 :: b1 :: rest) with
      | none =>
        rw [front_short hmalformed hread] at h
        cases h
      | some header' =>
        rw [front_header hmalformed hread] at h
        split at h
        · cases h
        · rename_i hsize
          split at h
          · rename_i hwhole
            obtain ⟨rfl,rfl⟩ := Front.frame.inj h
            exact ⟨b0,b1,rest,rfl,hmalformed,rfl,by simpa using hsize,rfl,hwhole⟩
          · cases h

theorem front_take {bs : Bytes} {header : Header} {size : ℕ} (h : front max bs = .frame header size) :
    front max (bs.take size) = .frame header size := by
  obtain ⟨b0,b1,rest,rfl,hmalformed,hread,hsize,rfl,hle⟩ := front_eq_frame h
  obtain ⟨m,hm⟩ : ∃ m, header.size = m + 2 := ⟨header.size - 2,(Nat.sub_add_cancel (two_le_size header)).symm⟩
  have htake := readHeader_take hread header.extension_le_size
  have hlength : header.size ≤ ((b0 :: b1 :: rest).take header.size).length := by
    rw [List.length_take]
    omega
  rw [hm,List.take_succ_cons,List.take_succ_cons] at htake hlength
  rw [hm,List.take_succ_cons,List.take_succ_cons,front_header hmalformed htake,hsize,if_neg Bool.false_ne_true,hm,if_pos hlength]

/-- The frames of a stream under the policy. -/
def policing (max : Option ℕ) : Reader UInt8 Header Refusal where
  front := front max
  front_nil := rfl
  size_pos h := by
    obtain ⟨_,_,_,-,-,-,-,rfl,-⟩ := front_eq_frame h
    exact Nat.lt_of_lt_of_le Nat.zero_lt_two (two_le_size _)
  size_le h := by
    obtain ⟨_,_,_,-,-,-,-,-,hle⟩ := front_eq_frame h
    exact hle
  front_append := front_append
  front_take := front_take

theorem not_malformed_of_wait (hfront : front max (b0 :: b1 :: rest) = .wait) : malformed b0 b1 = false := by
  by_contra hmalformed
  rw [Bool.not_eq_false] at hmalformed
  rw [front_malformed hmalformed] at hfront
  cases hfront

theorem front_eq_wait {header : Header} (hfront : front max (b0 :: b1 :: rest) = .wait)
    (hread : readHeader (b0 :: b1 :: rest) = some header) :
    malformed b0 b1 = false ∧ oversize max header = false ∧ (b0 :: b1 :: rest).length < header.size := by
  have hmalformed := not_malformed_of_wait hfront
  rw [front_header hmalformed hread] at hfront
  split at hfront
  · cases hfront
  · rename_i hsize
    split at hfront
    · cases hfront
    · rename_i hwaiting
      exact ⟨hmalformed,by simpa using hsize,Nat.lt_of_not_le hwaiting⟩

end Reader

/-- What the scanner keeps of a frame that is not whole yet. -/
def scanOf : Bytes → Scan
  | [] => .head none
  | [b0] => .head (some b0)
  | b0 :: b1 :: rest =>
    match readHeader (b0 :: b1 :: rest) with
    | none => .extended rest (extensionSize (shortLength b1)) (maskSize (hasMask b1))
    | some h => .payload (h.size - (b0 :: b1 :: rest).length) h.isData

def Refusal.violation : Refusal → FrameViolation
  | .sizeExceeded => .sizeExceeded
  | .protocolError => .protocolError

/-- The declarations the scanner reads as the policy does: no control frame above the limit for data
frames, no empty payload declared in an extension without a mask, and no length that overflows
with its mask. -/
def Kept (max : Option ℕ) (h : Header) : Prop :=
  ¬ (isControl h.opcode ∧ max.any (· < h.length)) ∧ ¬ (h.extension ≠ 0 ∧ h.masked = false ∧ h.length = 0) ∧
    ¬ (h.masked ∧ 2 ^ 64 ≤ h.length + 4)

/-- The scanner's answer to one more byte is the policy's. -/
def Agrees (c c' : FrameCounter) (bs : Bytes) : Front Header Refusal → Prop
  | .wait => c'.frames = c.frames ∧ c'.violation = .none ∧ c'.scan = scanOf bs
  | .reject why => c'.frames = c.frames ∧ c'.violation = why.violation
  | .frame h _ => c'.frames = c.frames + h.isData.toNat ∧ c'.violation = .none ∧ c'.scan = .head none

def Allowed (max : Option ℕ) (frames : ℕ) (bs : Bytes) : Front Header Refusal → Prop
  | .wait => ∀ h ∈ readHeader bs, Kept max h
  | .reject _ => True
  | .frame h _ => Kept max h ∧ frames + h.isData.toNat < 2 ^ 64

section Step
variable {c : FrameCounter} {max : Option ℕ} {b0 b1 : UInt8}

theorem close_agrees_iff (hok : c.violation = .none) (hframes : c.frames < 2 ^ 64) {h : Header} {bs : Bytes} {size : ℕ} :
    Agrees c (c.close h.isData) bs (.frame h size) ↔ c.frames + h.isData.toNat < 2 ^ 64 := by
  simp only [Agrees,FrameCounter.close,hok,and_true]
  cases h.isData with
  | false => simpa using hframes
  | true =>
    simp only [if_true,Bool.toNat_true]
    omega

theorem head_malformed (h : malformed b0 b1) : c.head b0 b1 = c.violate .protocolError := by
  rw [malformed,decide_eq_true_eq] at h
  simp only [FrameCounter.head,toNat_and_fifteen,toNat_and_low]
  rcases h with h | h
  · rw [if_pos h]
  · rw [if_pos h]
    split <;> rfl

theorem head_of_not_malformed (h : malformed b0 b1 = false) :
    c.head b0 b1 =
      if c.maxFrameSize.any fun max => shortLength b1 ≤ 125 ∧ max < shortLength b1 then c.violate .sizeExceeded
      else if shortLength b1 ≤ 125 then
        if shortLength b1 + maskSize (hasMask b1) = 0 then c.close (opcode b0 ≤ 2)
        else { c with scan := .payload (shortLength b1 + maskSize (hasMask b1)) (opcode b0 ≤ 2) }
      else { c with scan := .extended [] (extensionSize (shortLength b1)) (maskSize (hasMask b1)) } := by
  rw [malformed,decide_eq_false_iff_not,not_or] at h
  have hmask : (if b1 &&& 0x80 ≠ 0 then 4 else 0) = maskSize (hasMask b1) := by simp only [and_high_ne_zero,maskSize]
  simp only [FrameCounter.head,toNat_and_fifteen,toNat_and_low,hmask]
  rw [if_neg h.1,if_neg h.2]
  split
  · rfl
  · split
    · rfl
    · rename_i hlong
      rw [extensionSize,if_neg (show ¬ shortLength b1 < 126 by omega)]

/-- The header that a length of one byte completes. -/
def shortHeader (b0 b1 : UInt8) : Header := ⟨opcode b0,hasMask b1,0,shortLength b1⟩

/-- The header that a length extension completes. -/
def longHeader (b0 b1 : UInt8) (read : Bytes) : Header := ⟨opcode b0,hasMask b1,read.length,Der.ofBigEndian read⟩

theorem readHeader_short (h : shortLength b1 ≤ 125) : readHeader [b0,b1] = some (shortHeader b0 b1) := by
  have hextension : extensionSize (shortLength b1) = 0 := if_pos (by omega)
  rw [readHeader,hextension,if_neg (Nat.not_lt_zero _),if_pos rfl,shortHeader]

theorem size_shortHeader : (shortHeader b0 b1).size = 2 + (shortLength b1 + maskSize (hasMask b1)) := by
  rw [shortHeader,Header.size]
  simp only
  omega

theorem extensionSize_pos (h : ¬ shortLength b1 ≤ 125) : 0 < extensionSize (shortLength b1) := by
  rw [extensionSize,if_neg (by omega)]
  split <;> decide

theorem isData_or_isControl (h : malformed b0 b1 = false) : opcode b0 ≤ 2 ∨ isControl (opcode b0) := by
  rw [malformed,decide_eq_false_iff_not,not_or,isReserved,decide_eq_true_eq] at h
  rw [isControl,decide_eq_true_eq]
  omega

theorem isData_of_long (h : malformed b0 b1 = false) (hlong : ¬ shortLength b1 ≤ 125) : opcode b0 ≤ 2 := by
  rcases isData_or_isControl h with hdata | hcontrol
  · exact hdata
  · rw [malformed,decide_eq_false_iff_not,not_or] at h
    exact absurd ⟨hcontrol,by omega⟩ h.2

/-- The first two bytes of a frame above the limit: the scanner holds a control frame to it too, the
policy does not. -/
theorem short_over_agrees_iff (hmalformed : malformed b0 b1 = false) (hshort : shortLength b1 ≤ 125)
    (hlimit : c.maxFrameSize.any (· < shortLength b1)) :
    Agrees c (c.head b0 b1) [b0,b1] (front c.maxFrameSize [b0,b1]) ↔
      Allowed c.maxFrameSize c.frames [b0,b1] (front c.maxFrameSize [b0,b1]) := by
  have hread : readHeader [b0,b1] = _ := readHeader_short hshort
  have hany : (c.maxFrameSize.any fun max => shortLength b1 ≤ 125 ∧ max < shortLength b1) = true := by
    simpa [hshort] using hlimit
  rw [head_of_not_malformed hmalformed,front_header hmalformed hread,if_pos hany]
  rcases isData_or_isControl hmalformed with hdata | hcontrol
  · have hoversize : oversize c.maxFrameSize (shortHeader b0 b1) = true := decide_eq_true ⟨decide_eq_true hdata,hlimit⟩
    rw [if_pos hoversize]
    exact iff_of_true ⟨rfl,rfl⟩ trivial
  · have hbad : ¬ Kept c.maxFrameSize (shortHeader b0 b1) := fun hkept => hkept.1 ⟨hcontrol,hlimit⟩
    have hoversize : oversize c.maxFrameSize (shortHeader b0 b1) = false := by
      rw [isControl,decide_eq_true_eq] at hcontrol
      have hdata : ¬ opcode b0 ≤ 2 := by omega
      exact decide_eq_false fun h => hdata (of_decide_eq_true h.1)
    rw [hoversize,if_neg Bool.false_ne_true]
    split
    · exact iff_of_false (fun h => nomatch h.2.1) fun h => hbad h.1
    · exact iff_of_false (fun h => nomatch h.2.1) fun h => hbad (h _ hread)

/-- The first two bytes of a frame within the limit. -/
theorem short_agrees_iff (hok : c.violation = .none) (hframes : c.frames < 2 ^ 64) (hmalformed : malformed b0 b1 = false)
    (hshort : shortLength b1 ≤ 125) (hlimit : ¬ c.maxFrameSize.any (· < shortLength b1)) :
    Agrees c (c.head b0 b1) [b0,b1] (front c.maxFrameSize [b0,b1]) ↔
      Allowed c.maxFrameSize c.frames [b0,b1] (front c.maxFrameSize [b0,b1]) := by
  have hread : readHeader [b0,b1] = _ := readHeader_short hshort
  have hany : (c.maxFrameSize.any fun max => shortLength b1 ≤ 125 ∧ max < shortLength b1) = false := by
    simpa [hshort] using hlimit
  have hoversize : oversize c.maxFrameSize (shortHeader b0 b1) = false := decide_eq_false fun h => hlimit h.2
  have hfits : ¬ 2 ^ 64 ≤ shortLength b1 + 4 := by omega
  have hkept : Kept c.maxFrameSize (shortHeader b0 b1) := ⟨fun h => hlimit h.2,fun h => h.1 rfl,fun h => hfits h.2⟩
  have hdata : decide (opcode b0 ≤ 2) = (shortHeader b0 b1).isData := rfl
  rw [head_of_not_malformed hmalformed,front_header hmalformed hread,hoversize,hany,if_neg Bool.false_ne_true,
    if_neg Bool.false_ne_true,if_pos hshort,hdata,size_shortHeader,List.length_cons,List.length_singleton]
  by_cases htotal : shortLength b1 + maskSize (hasMask b1) = 0
  · rw [if_pos htotal,if_pos (by omega),close_agrees_iff hok hframes]
    exact (and_iff_right hkept).symm
  · rw [if_neg htotal,if_neg (by omega)]
    refine iff_of_true ⟨rfl,hok,?_⟩ ?_
    · simp only [scanOf,hread,size_shortHeader,List.length_cons,List.length_nil,Nat.zero_add,Nat.add_sub_cancel_left]
    · rw [Allowed,hread]
      rintro h ⟨⟩
      exact hkept

/-- The policy and the scanner on the first two bytes of a frame. -/
theorem head_agrees_iff (hok : c.violation = .none) (hframes : c.frames < 2 ^ 64) :
    Agrees c (c.head b0 b1) [b0,b1] (front c.maxFrameSize [b0,b1]) ↔
      Allowed c.maxFrameSize c.frames [b0,b1] (front c.maxFrameSize [b0,b1]) := by
  by_cases hmalformed : malformed b0 b1
  · rw [front_malformed hmalformed,head_malformed hmalformed]
    exact iff_of_true ⟨rfl,rfl⟩ trivial
  · rw [Bool.not_eq_true] at hmalformed
    by_cases hshort : shortLength b1 ≤ 125
    · by_cases hlimit : c.maxFrameSize.any (· < shortLength b1)
      · exact short_over_agrees_iff hmalformed hshort hlimit
      · exact short_agrees_iff hok hframes hmalformed hshort hlimit
    · have hread : readHeader [b0,b1] = none := by
        rw [readHeader,List.length_nil,if_pos (extensionSize_pos hshort)]
      have hany : (c.maxFrameSize.any fun max => shortLength b1 ≤ 125 ∧ max < shortLength b1) = false := by simp [hshort]
      rw [head_of_not_malformed hmalformed,front_short hmalformed hread,hany,if_neg Bool.false_ne_true,if_neg hshort]
      refine iff_of_true ⟨rfl,hok,?_⟩ ?_
      · rw [scanOf,hread]
      · rw [Allowed,hread]
        rintro h ⟨⟩

theorem size_longHeader {read : Bytes} :
    (longHeader b0 b1 read).size = read.length + 2 + (Der.ofBigEndian read + maskSize (hasMask b1)) := by
  rw [longHeader,Header.size]
  simp only
  omega

/-- The lengths in an extension that the scanner reads as declared. -/
theorem kept_long_iff (hmalformed : malformed b0 b1 = false) (hlong : ¬ shortLength b1 ≤ 125) {read : Bytes}
    (hfull : read.length = extensionSize (shortLength b1)) :
    Kept max (longHeader b0 b1 read) ↔
      Der.ofBigEndian read + maskSize (hasMask b1) ≠ 0 ∧ Der.ofBigEndian read + maskSize (hasMask b1) < 2 ^ 64 := by
  have hpos := extensionSize_pos hlong
  have hdata := isData_of_long hmalformed hlong
  have hcontrol : isControl (opcode b0) = false := decide_eq_false (by omega)
  have hlt : Der.ofBigEndian read < 2 ^ 64 := by
    refine (Der.ofBigEndian_lt read).trans_le (Nat.pow_le_pow_right Nat.two_pos ?_)
    rw [hfull,extensionSize]
    split
    · omega
    · split <;> omega
  rw [Kept,longHeader,hcontrol]
  cases hasMask b1
  all_goals
    simp only [maskSize,Bool.false_eq_true,Bool.true_eq_false,if_true,if_false,false_and,not_false_eq_true,true_and,and_false,
      and_true]
    omega

/-- The last byte of a length extension. -/
theorem extension_agrees_iff (hok : c.violation = .none) (hmalformed : malformed b0 b1 = false) (hlong : ¬ shortLength b1 ≤ 125)
    {read : Bytes} (hfull : read.length = extensionSize (shortLength b1)) :
    Agrees c (c.extension read (maskSize (hasMask b1))) (b0 :: b1 :: read) (front c.maxFrameSize (b0 :: b1 :: read)) ↔
      Allowed c.maxFrameSize c.frames (b0 :: b1 :: read) (front c.maxFrameSize (b0 :: b1 :: read)) := by
  have hpos := extensionSize_pos hlong
  have hread : readHeader (b0 :: b1 :: read) = some (longHeader b0 b1 read) := by
    rw [readHeader,if_neg (by omega),if_neg (by omega),← hfull,List.take_length,longHeader]
  have hdata : (longHeader b0 b1 read).isData = true := decide_eq_true (isData_of_long hmalformed hlong)
  by_cases hlimit : c.maxFrameSize.any (· < Der.ofBigEndian read)
  · have hoversize : oversize c.maxFrameSize (longHeader b0 b1 read) = true := decide_eq_true ⟨hdata,hlimit⟩
    rw [front_header hmalformed hread,FrameCounter.extension,if_pos hlimit,if_pos hoversize]
    exact iff_of_true ⟨rfl,rfl⟩ trivial
  · have hoversize : oversize c.maxFrameSize (longHeader b0 b1 read) = false := decide_eq_false fun h => hlimit h.2
    have hkept : Kept c.maxFrameSize (longHeader b0 b1 read) ↔ _ := kept_long_iff hmalformed hlong hfull
    rw [front_header hmalformed hread,FrameCounter.extension,if_neg hlimit,hoversize,if_neg Bool.false_ne_true,size_longHeader,
      List.length_cons,List.length_cons]
    by_cases hbody : Der.ofBigEndian read + maskSize (hasMask b1) = 0
    · -- the frame ends with its header, and the scanner waits for another byte
      rw [if_pos (by omega)]
      exact iff_of_false (fun h => Scan.noConfusion h.2.2) fun h => (hkept.mp h.1).1 hbody
    · rw [if_neg (by omega),Allowed,hread,Agrees,scanOf,hread]
      simp only [Option.mem_some_iff,forall_eq',hkept,hok,true_and,size_longHeader,hdata,List.length_cons,Nat.add_sub_cancel_left,
        Scan.payload.injEq,and_true]
      omega

/-- A byte of a payload. -/
theorem payload_agrees_iff (hok : c.violation = .none) (hframes : c.frames < 2 ^ 64) {rest : Bytes} {h : Header}
    (hfront : front c.maxFrameSize (b0 :: b1 :: rest) = .wait) (hread : readHeader (b0 :: b1 :: rest) = some h)
    (hkept : Kept c.maxFrameSize h) (hscan : c.scan = scanOf (b0 :: b1 :: rest)) (b : UInt8) :
    Agrees c (c.byte b) (b0 :: b1 :: (rest ++ [b])) (front c.maxFrameSize (b0 :: b1 :: (rest ++ [b]))) ↔
      Allowed c.maxFrameSize c.frames (b0 :: b1 :: (rest ++ [b])) (front c.maxFrameSize (b0 :: b1 :: (rest ++ [b]))) := by
  obtain ⟨hmalformed,hoversize,hwaiting⟩ := front_eq_wait hfront hread
  have hmore : readHeader (b0 :: b1 :: (rest ++ [b])) = some h := readHeader_append hread [b]
  simp only [scanOf,hread] at hscan
  simp only [FrameCounter.byte_of_none c hok,hscan]
  rw [front_header hmalformed hmore,hoversize,if_neg Bool.false_ne_true]
  simp only [List.length_cons,List.length_append,List.length_nil] at hwaiting ⊢
  rw [if_neg (by omega)]
  by_cases hlast : h.size = rest.length + 3
  · rw [if_pos (by omega),if_pos (by omega),close_agrees_iff hok hframes]
    exact (and_iff_right hkept).symm
  · rw [if_neg (by omega),if_neg (by omega)]
    refine iff_of_true ⟨rfl,hok,?_⟩ ?_
    · simp only [scanOf,hmore,List.length_cons,List.length_append,List.length_nil]
      congr 1
    · rw [Allowed,hmore]
      rintro h ⟨⟩
      exact hkept

/-- One more byte of a frame that is not whole yet: the scanner goes on as the policy does exactly
when it is allowed to. -/
theorem byte_agrees_iff (hok : c.violation = .none) (hframes : c.frames < 2 ^ 64) {bs : Bytes} (hfront : front c.maxFrameSize bs = .wait)
    (hkept : ∀ h ∈ readHeader bs, Kept c.maxFrameSize h) (hscan : c.scan = scanOf bs) (b : UInt8) :
    Agrees c (c.byte b) (bs ++ [b]) (front c.maxFrameSize (bs ++ [b])) ↔
      Allowed c.maxFrameSize c.frames (bs ++ [b]) (front c.maxFrameSize (bs ++ [b])) := by
  match bs with
  | [] =>
    simp only [FrameCounter.byte_of_none c hok,hscan,scanOf]
    exact iff_of_true ⟨rfl,hok,rfl⟩ nofun
  | [b0] =>
    simp only [FrameCounter.byte_of_none c hok,hscan,scanOf]
    exact head_agrees_iff hok hframes
  | b0 :: b1 :: rest =>
    cases hread : readHeader (b0 :: b1 :: rest) with
    | some h => exact payload_agrees_iff hok hframes hfront hread (hkept h hread) hscan b
    | none =>
      have hmalformed := not_malformed_of_wait hfront
      have hshort := readHeader_eq_none hread
      have hlong : ¬ shortLength b1 ≤ 125 := fun h => by
        rw [extensionSize,if_pos (by omega)] at hshort
        exact Nat.not_lt_zero _ hshort
      simp only [scanOf,hread] at hscan
      simp only [FrameCounter.byte_of_none c hok,hscan,List.cons_append]
      split
      · rename_i hstill
        have hnone : readHeader (b0 :: b1 :: (rest ++ [b])) = none := by rw [readHeader,if_pos hstill]
        rw [front_short hmalformed hnone]
        refine iff_of_true ⟨rfl,hok,?_⟩ ?_
        · rw [scanOf,hnone]
        · rw [Allowed,hnone]
          rintro h ⟨⟩
      · rename_i hfull
        refine extension_agrees_iff hok hmalformed hlong ?_
        rw [List.length_append,List.length_singleton] at hfull ⊢
        omega

end Step

end Dwara.Dataplane.WebSocket
